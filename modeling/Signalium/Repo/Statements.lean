import Signalium.Lib.Tables
import Signalium.Domain.Message

/-!
# The statements on `signalium.signal_messages`

Each query of `internal/repo/queries/signal_messages.sql` that writes the table
is a function of the table and of `now()`, the time of its transaction.  A
statement is one atomic step.

The table carries the constraints of its schema: the primary key, the two
`UNIQUE` columns and the `CHECK` on the target.  Only `INSERT` can break them,
since no other statement writes a column they mention.

`ClaimPending` orders the eligible rows by `next_attempt_at` and takes the
first one that no other transaction holds.  The rows other transactions hold
are an argument (`locked`), so every choice `SKIP LOCKED` can make is covered,
also between rows with equal times.
-/

namespace Signalium

open Tables

/-! ## The schema -/

/-- The columns the constraints mention.  No `UPDATE` writes them. -/
structure RowKey where
  id : UUID
  externalId : String
  idempotencyKey : Option String
  recipient : Option String
  groupId : Option String
deriving DecidableEq, Repr

/-- The key columns of a row. -/
def Row.key (r : Row) : RowKey :=
  ⟨r.id, r.externalId, r.idempotencyKey, r.recipient, r.groupId⟩

/-- The `CHECK` `exactly_one_target`. -/
def ExactlyOneTarget (recipient groupId : Option String) : Prop :=
  recipient.isSome.toNat + groupId.isSome.toNat = 1

instance (recipient groupId : Option String) : Decidable (ExactlyOneTarget recipient groupId) :=
  inferInstanceAs (Decidable (_ = _))

/-- The constraints of the table.  `UNIQUE` does not compare `NULL`s. -/
structure Constraints (keys : List RowKey) : Prop where
  primaryKey : (keys.map RowKey.id).Nodup
  externalId : (keys.map RowKey.externalId).Nodup
  idempotencyKey : (keys.filterMap RowKey.idempotencyKey).Nodup
  exactlyOneTarget : ∀ k ∈ keys, ExactlyOneTarget k.recipient k.groupId

/-- The table `signalium.signal_messages`. -/
abbrev Messages := Table Row.key Constraints

/-- The table with no rows. -/
def Messages.empty : Messages := ⟨[], by simp, by simp, by simp, by simp⟩

/-- Two rows of a table with the same primary key are the same row. -/
theorem Messages.row_unique (t : Messages) {r r' : Row} (hr : r ∈ t) (hr' : r' ∈ t)
    (h : r.id = r'.id) : r = r' := by
  have hnd : (t.rows.map Row.key |>.map RowKey.id).Nodup := t.valid.primaryKey
  rw [List.map_map] at hnd
  exact List.inj_on_of_nodup_map hnd hr hr' h

/-! ## Database calls -/

/-- What becomes of a database call. -/
inductive DbReply where
  /-- The statement commits and the caller learns it. -/
  | committed
  /-- The statement commits and the caller sees an error. -/
  | ackLost
  /-- The statement is not executed and the caller sees an error. -/
  | unreached
deriving DecidableEq, Repr

/-- An instant as a Postgres timestamp: whole microseconds. -/
def tsTz (t : Int) : Int := t / 1000 * 1000

/-- A Go duration as a Postgres interval: whole microseconds. -/
def intervalFromDuration (d : Int) : Int := d.tdiv 1000 * 1000

/-! ## Insert -/

/-- The arguments of `Messages.Insert`. -/
structure InsertParams where
  externalId : String
  idempotencyKey : Option String
  recipient : Option String
  groupId : Option String
  senderPhoneNumber : String
  content : String
  attachments : List Attachment
  maxAttempts : Int
  timeoutAt : Option Int
  correlationId : String
deriving DecidableEq, Repr

/-- The row `INSERT` materialises: the given columns, and the defaults of the
table for the others.  `id` is what `gen_random_uuid()` draws. -/
def InsertParams.row (now : Int) (id : UUID) (p : InsertParams) : Row where
  id := id
  externalId := p.externalId
  idempotencyKey := p.idempotencyKey
  recipient := p.recipient
  groupId := p.groupId
  senderPhoneNumber := p.senderPhoneNumber
  content := p.content
  attachments := p.attachments
  attempts := 0
  maxAttempts := p.maxAttempts
  nextAttemptAt := now
  timeoutAt := p.timeoutAt.map tsTz
  status := .pending
  lastError := none
  resultId := none
  quoteResultId := none
  correlationId := p.correlationId
  createdAt := now
  modifiedAt := now
  deletedAt := none

/-- A message to one recipient, with the default limit of five attempts and no
deadline. -/
def plainParams : InsertParams where
  externalId := "ext-1"
  idempotencyKey := none
  recipient := some "+380111111111"
  groupId := none
  senderPhoneNumber := "+380000000000"
  content := "hello"
  attachments := []
  maxAttempts := 5
  timeoutAt := none
  correlationId := "c-1"

/-- The constraint an `INSERT` breaks. -/
inductive InsertError where
  | exactlyOneTarget
  | primaryKey
  | externalId
  | idempotencyKey
deriving DecidableEq, Repr

/-- The first constraint a row breaks against the rows already there, in the
order they are checked: the row's own `CHECK`, then the unique indexes. -/
def insertError? (keys : List RowKey) (k : RowKey) : Option InsertError :=
  if ¬ ExactlyOneTarget k.recipient k.groupId then some .exactlyOneTarget
  else if k.id ∈ keys.map RowKey.id then some .primaryKey
  else if k.externalId ∈ keys.map RowKey.externalId then some .externalId
  else if ∃ v ∈ k.idempotencyKey, v ∈ keys.filterMap RowKey.idempotencyKey then
    some .idempotencyKey
  else none

/-- A row is refused for nothing but the constraints. -/
theorem insertError?_eq_none {keys : List RowKey} {key : RowKey} :
    insertError? keys key = none ↔
      ExactlyOneTarget key.recipient key.groupId ∧ key.id ∉ keys.map RowKey.id ∧
      key.externalId ∉ keys.map RowKey.externalId ∧
      ∀ v, key.idempotencyKey = some v → v ∉ keys.filterMap RowKey.idempotencyKey := by
  unfold insertError?
  split_ifs with h₁ h₂ h₃ h₄
  · simp [h₂]
  · simp [h₃]
  · obtain ⟨v, hv, hmem⟩ := h₄
    simp only [false_iff]
    exact fun h => h.2.2.2 v hv hmem
  · simp only [true_iff]
    exact ⟨h₁, h₂, h₃, fun v hv hmem => h₄ ⟨v, hv, hmem⟩⟩
  · simp [h₁]

/-- A row that breaks no constraint extends the table. -/
theorem Constraints.snoc {keys : List RowKey} {k : RowKey} (hc : Constraints keys)
    (h : insertError? keys k = none) : Constraints (keys ++ [k]) := by
  obtain ⟨h₁, h₂, h₃, h₄⟩ := insertError?_eq_none.mp h
  refine ⟨?_, ?_, ?_, ?_⟩
  · rw [List.map_append, List.map_singleton, ← List.concat_eq_append]
    exact List.Nodup.concat h₂ hc.primaryKey
  · rw [List.map_append, List.map_singleton, ← List.concat_eq_append]
    exact List.Nodup.concat h₃ hc.externalId
  · rw [List.filterMap_append]
    cases hk : k.idempotencyKey with
    | none => simpa [hk] using hc.idempotencyKey
    | some v =>
        simp only [List.filterMap_cons, hk, List.filterMap_nil, ← List.concat_eq_append]
        exact List.Nodup.concat (h₄ v hk) hc.idempotencyKey
  · intro k' hk'
    rcases List.mem_append.mp hk' with hk' | hk'
    · exact hc.exactlyOneTarget k' hk'
    · rw [List.mem_singleton.mp hk']; exact h₁

/-- `Insert`: the new row and the longer table, or the constraint that fails.  A
failed `INSERT` changes nothing.  The database also refuses a text with a NUL
character, and a key too long for its index; both are left out. -/
def Messages.insert (t : Messages) (now : Int) (id : UUID) (p : InsertParams) :
    Except InsertError (Row × Messages) :=
  match h : insertError? (t.rows.map Row.key) (p.row now id).key with
  | some e => .error e
  | none =>
      .ok (p.row now id, Table.insert t (p.row now id) (by
        rw [List.map_append, List.map_singleton]; exact t.valid.snoc h))

theorem Messages.insert_eq_error {t : Messages} {now : Int} {id : UUID} {p : InsertParams}
    {e : InsertError} :
    t.insert now id p = .error e ↔
      insertError? (t.rows.map Row.key) (p.row now id).key = some e := by
  unfold Messages.insert
  split
  · next e' h => simp [h]
  · next h => simp [h]

theorem Messages.insert_eq_ok {t t' : Messages} {now : Int} {id : UUID} {p : InsertParams}
    {r : Row} (h : t.insert now id p = .ok (r, t')) :
    r = p.row now id ∧ t'.rows = t.rows ++ [r] ∧
      insertError? (t.rows.map Row.key) (p.row now id).key = none := by
  unfold Messages.insert at h
  split at h
  · cases h
  · next hn =>
      cases h
      exact ⟨rfl, rfl, hn⟩

theorem Messages.mem_insert {t t' : Messages} {now : Int} {id : UUID} {p : InsertParams}
    {r r' : Row} (h : t.insert now id p = .ok (r, t')) : r' ∈ t' ↔ r' ∈ t ∨ r' = r := by
  obtain ⟨_, hrows, _⟩ := Messages.insert_eq_ok h
  rw [Table.mem_def, hrows, List.mem_append, List.mem_singleton, ← Table.mem_def]

/-- The constraints, over the rows of the table: one target, and an id, an external
id and a key that no row has. -/
theorem Messages.free_iff {t : Messages} {now : Int} {id : UUID} {p : InsertParams} :
    insertError? (t.rows.map Row.key) (p.row now id).key = none ↔
      ExactlyOneTarget p.recipient p.groupId ∧ (∀ r ∈ t, r.id ≠ id) ∧
      (∀ r ∈ t, r.externalId ≠ p.externalId) ∧
      ∀ v, p.idempotencyKey = some v → ∀ r ∈ t, r.idempotencyKey ≠ some v := by
  rw [insertError?_eq_none]
  refine and_congr Iff.rfl (and_congr ?_ (and_congr ?_ ?_))
  · rw [List.map_map, List.mem_map]
    exact ⟨fun h r hr he => h ⟨r, hr, he⟩, fun h ⟨r, hr, he⟩ => h r hr he⟩
  · rw [List.map_map, List.mem_map]
    exact ⟨fun h r hr he => h ⟨r, hr, he⟩, fun h ⟨r, hr, he⟩ => h r hr he⟩
  · refine forall_congr' fun v => imp_congr Iff.rfl ?_
    rw [List.filterMap_map, List.mem_filterMap]
    exact ⟨fun h r hr he => h ⟨r, hr, he⟩, fun h ⟨r, hr, he⟩ => h r hr he⟩

/-- An inserted row is new under its primary key. -/
theorem Messages.insert_fresh {t t' : Messages} {now : Int} {id : UUID} {p : InsertParams}
    {r : Row} (h : t.insert now id p = .ok (r, t')) {r₀ : Row} (hr₀ : r₀ ∈ t) : r₀.id ≠ id := by
  obtain ⟨_, _, hn⟩ := Messages.insert_eq_ok h
  obtain ⟨_, hid, _, _⟩ := Messages.free_iff.mp hn
  exact hid r₀ hr₀

/-- An inserted row is new under its idempotency key. -/
theorem Messages.insert_key_free {t t' : Messages} {now : Int} {id : UUID} {p : InsertParams}
    {r : Row} (h : t.insert now id p = .ok (r, t')) {key : String}
    (hk : p.idempotencyKey = some key) {r₀ : Row} (hr₀ : r₀ ∈ t) :
    r₀.idempotencyKey ≠ some key := by
  obtain ⟨_, _, hn⟩ := Messages.insert_eq_ok h
  obtain ⟨_, _, _, hkey⟩ := Messages.free_iff.mp hn
  exact hkey key hk r₀ hr₀

/-- An `INSERT` that meets no other row on a unique column succeeds. -/
theorem Messages.insert_free {t : Messages} {now : Int} {id : UUID} {p : InsertParams}
    {e : InsertError} (htarget : ExactlyOneTarget p.recipient p.groupId)
    (hid : ∀ r ∈ t, r.id ≠ id) (hext : ∀ r ∈ t, r.externalId ≠ p.externalId)
    (hkey : ∀ r ∈ t, ∀ v ∈ p.idempotencyKey, r.idempotencyKey ≠ some v) :
    t.insert now id p ≠ .error e := by
  have hfree : insertError? (t.rows.map Row.key) (p.row now id).key = none :=
    Messages.free_iff.mpr ⟨htarget, hid, hext, fun v hv r hr => hkey r hr v hv⟩
  rw [Ne, Messages.insert_eq_error, hfree]
  nofun

/-! ## Lookups -/

/-- `GetByIdempotencyKey`, which sees deleted rows as well. -/
def Messages.getByIdempotencyKey (t : Messages) (key : String) : Option Row :=
  t.rows.find? fun r => r.idempotencyKey = some key

theorem Messages.getByIdempotencyKey_some {t : Messages} {key : String} {r : Row}
    (h : t.getByIdempotencyKey key = some r) : r ∈ t ∧ r.idempotencyKey = some key :=
  ⟨List.mem_of_find?_eq_some h, by simpa using List.find?_some h⟩

theorem Messages.getByIdempotencyKey_none {t : Messages} {key : String}
    (h : t.getByIdempotencyKey key = none) {r : Row} (hr : r ∈ t) :
    r.idempotencyKey ≠ some key := by
  simpa using List.find?_eq_none.mp h r hr

/-! ## ClaimPending -/

/-- The `WHERE` clause of `ClaimPending`. -/
def Row.Claimable (now : Int) (r : Row) : Prop :=
  r.deletedAt = none ∧
    (r.status = .pending ∨ r.status = .sending ∧ r.nextAttemptAt < now) ∧
    r.nextAttemptAt ≤ now ∧
    ∀ t ∈ r.timeoutAt, now < t

instance (now : Int) (r : Row) : Decidable (r.Claimable now) :=
  inferInstanceAs (Decidable (_ ∧ _))

/-- The `SET` list of `ClaimPending`. -/
def Row.claim (now : Int) (lease : Int) (r : Row) : Row :=
  { r with
    status := .sending
    attempts := r.attempts + 1
    nextAttemptAt := now + intervalFromDuration lease
    modifiedAt := now }

theorem Row.claim_key (now : Int) (lease : Int) (r : Row) :
    (r.claim now lease).key = r.key := rfl

/-- The row `ClaimPending` selects. -/
def Messages.claimCandidate (t : Messages) (now : Int) (locked : List UUID) : Option Row :=
  firstBy (fun r => r.nextAttemptAt) (t.rows.filter fun r => r.Claimable now ∧ r.id ∉ locked)

/-- `ClaimPending`: the claimed row as `RETURNING` gives it, and the table. -/
def Messages.claimPending (t : Messages) (now : Int) (lease : Int) (locked : List UUID) :
    Option (Row × Messages) :=
  (t.claimCandidate now locked).map fun c =>
    (c.claim now lease,
      t.update (fun r => r.id = c.id) (Row.claim now lease) (Row.claim_key now lease))

theorem Messages.claimCandidate_mem {t : Messages} {now : Int} {locked : List UUID} {c : Row}
    (h : t.claimCandidate now locked = some c) : c ∈ t ∧ c.Claimable now ∧ c.id ∉ locked := by
  simpa [Table.mem_def] using firstBy_mem h

/-- `ClaimPending` finds a row where there is one that is eligible and free. -/
theorem Messages.exists_claimCandidate {t : Messages} {now : Int} {locked : List UUID} {r : Row}
    (hr : r ∈ t) (hc : r.Claimable now) (hl : r.id ∉ locked) :
    ∃ c, t.claimCandidate now locked = some c := by
  rw [← Option.isSome_iff_exists, ← Option.ne_none_iff_isSome]
  intro hnone
  have hmem : r ∈ t.rows.filter fun r => r.Claimable now ∧ r.id ∉ locked :=
    List.mem_filter.mpr ⟨hr, by simp [hc, hl]⟩
  rw [List.argmin_eq_none.mp hnone] at hmem
  cases hmem

/-! ## The marks -/

/-- The `SET` list of `MarkSent`. -/
def Row.markSent (now : Int) (resultId : String) (r : Row) : Row :=
  { r with status := .sent, resultId := some resultId, modifiedAt := now }

theorem Row.markSent_key (now : Int) (resultId : String) (r : Row) :
    (r.markSent now resultId).key = r.key := rfl

/-- `MarkSent`, without a condition on the status. -/
def Messages.markSent (t : Messages) (now : Int) (id : UUID) (resultId : String) : Messages :=
  t.update (fun r => r.id = id) (Row.markSent now resultId) (Row.markSent_key now resultId)

/-- The `SET` list of `MarkFailed`. -/
def Row.markFailed (now : Int) (lastError : String) (nextAttemptAt : Int) (r : Row) : Row :=
  { r with
    status := if r.maxAttempts ≤ r.attempts then .permanentFailed else .failed
    lastError := some lastError
    nextAttemptAt := tsTz nextAttemptAt
    modifiedAt := now }

theorem Row.markFailed_key (now : Int) (lastError : String) (nextAttemptAt : Int) (r : Row) :
    (r.markFailed now lastError nextAttemptAt).key = r.key := rfl

/-- The row is given up exactly when it has no attempt left. -/
theorem Row.markFailed_status_iff {now next : Int} {lastError : String} {r : Row} :
    (r.markFailed now lastError next).status = .permanentFailed ↔ r.maxAttempts ≤ r.attempts := by
  unfold Row.markFailed
  split_ifs with h <;> simp [h]

/-- `MarkFailed`, without a condition on the status. -/
def Messages.markFailed (t : Messages) (now : Int) (id : UUID) (lastError : String)
    (nextAttemptAt : Int) : Messages :=
  t.update (fun r => r.id = id) (Row.markFailed now lastError nextAttemptAt)
    (Row.markFailed_key now lastError nextAttemptAt)

/-- The `WHERE` clause of `MarkTimedOut`. -/
def Row.Overdue (now : Int) (r : Row) : Prop :=
  r.deletedAt = none ∧
    (r.status = .pending ∨ r.status = .sending ∨ r.status = .failed) ∧
    ∃ t ∈ r.timeoutAt, t ≤ now

instance (now : Int) (r : Row) : Decidable (r.Overdue now) :=
  inferInstanceAs (Decidable (_ ∧ _))

/-- The `SET` list of `MarkTimedOut`. -/
def Row.markTimedOut (now : Int) (r : Row) : Row :=
  { r with status := .timedOut, modifiedAt := now }

theorem Row.markTimedOut_key (now : Int) (r : Row) : (r.markTimedOut now).key = r.key := rfl

/-- `MarkTimedOut`. -/
def Messages.markTimedOut (t : Messages) (now : Int) : Messages :=
  t.update (fun r => r.Overdue now) (Row.markTimedOut now) (Row.markTimedOut_key now)

/-! ## The operator's statements -/

/-- The statuses `Resend` accepts. -/
def SignalMessageStatus.Resendable (s : SignalMessageStatus) : Prop :=
  s = .failed ∨ s = .timedOut ∨ s = .permanentFailed

instance (s : SignalMessageStatus) : Decidable s.Resendable :=
  inferInstanceAs (Decidable (_ ∨ _))

/-- The `SET` list of `Resend`. -/
def Row.resend (now : Int) (r : Row) : Row :=
  { r with
    status := .pending
    attempts := 0
    nextAttemptAt := now
    lastError := none
    modifiedAt := now }

theorem Row.resend_key (now : Int) (r : Row) : (r.resend now).key = r.key := rfl

/-- `Resend`. -/
def Messages.resend (t : Messages) (now : Int) (id : UUID) : Messages :=
  t.update (fun r => r.id = id ∧ r.status.Resendable) (Row.resend now) (Row.resend_key now)

/-- The `SET` list of `UpdateStatus`. -/
def Row.updateStatus (now : Int) (status : SignalMessageStatus) (r : Row) : Row :=
  { r with status := status, modifiedAt := now }

theorem Row.updateStatus_key (now : Int) (status : SignalMessageStatus) (r : Row) :
    (r.updateStatus now status).key = r.key := rfl

/-- `UpdateStatus`. -/
def Messages.updateStatus (t : Messages) (now : Int) (id : UUID) (status : SignalMessageStatus) :
    Messages :=
  t.update (fun r => r.id = id ∧ r.deletedAt = none) (Row.updateStatus now status)
    (Row.updateStatus_key now status)

end Signalium
