import Signalium.Repo.Statements

/-!
# What a statement does to a row

`Stmt` is a statement with its arguments and `Stmt.run` its effect on the
table.  A statement acts row by row: `Stmt.effect` is what becomes of one row,
and the rows of the new table are the effects on the old ones and the row an
`INSERT` added (`Stmt.mem_run`).  `RowStep` says once everything an effect can
be, guards included.  Every later invariant of a row is read off these two.
-/

namespace Signalium

open Tables

/-- A statement that writes the table. -/
inductive Stmt where
  | insert (id : UUID) (p : InsertParams)
  | claimPending (lease : Int) (locked : List UUID)
  | markSent (id : UUID) (resultId : String)
  | markFailed (id : UUID) (lastError : String) (nextAttemptAt : Int)
  | markTimedOut
  | resend (id : UUID)
  | updateStatus (id : UUID) (status : SignalMessageStatus)
deriving DecidableEq, Repr

/-- The table after a statement.  A failed `INSERT` and a `ClaimPending` that
finds no row leave it alone. -/
def Stmt.run (now : Int) (t : Messages) : Stmt → Messages
  | .insert id p =>
      match t.insert now id p with
      | .ok (_, t') => t'
      | .error _ => t
  | .claimPending lease locked =>
      match t.claimPending now lease locked with
      | some (_, t') => t'
      | none => t
  | .markSent id resultId => t.markSent now id resultId
  | .markFailed id lastError nextAttemptAt => t.markFailed now id lastError nextAttemptAt
  | .markTimedOut => t.markTimedOut now
  | .resend id => t.resend now id
  | .updateStatus id status => t.updateStatus now id status

/-- The row a statement claims. -/
def Stmt.claims (now : Int) (t : Messages) : Stmt → Option Row
  | .claimPending _ locked => t.claimCandidate now locked
  | _ => none

/-- The row a statement turns a row into. -/
def Stmt.effect (now : Int) (t : Messages) (r : Row) : Stmt → Row
  | .insert _ _ => r
  | .claimPending lease locked =>
      if (t.claimCandidate now locked).map (fun c => c.id) = some r.id then r.claim now lease else r
  | .markSent id resultId => if r.id = id then r.markSent now resultId else r
  | .markFailed id lastError next => if r.id = id then r.markFailed now lastError next else r
  | .markTimedOut => if r.Overdue now then r.markTimedOut now else r
  | .resend id => if r.id = id ∧ r.status.Resendable then r.resend now else r
  | .updateStatus id status =>
      if r.id = id ∧ r.deletedAt = none then r.updateStatus now status else r

/-- What a statement at `now` can do to one row. -/
inductive RowStep (now : Int) (t : Messages) : Stmt → Row → Row → Prop where
  | unchanged {st : Stmt} {r : Row} : RowStep now t st r r
  | claimed {lease : Int} {locked : List UUID} {r : Row} :
      t.claimCandidate now locked = some r → r.Claimable now →
      RowStep now t (.claimPending lease locked) r (r.claim now lease)
  | sent {resultId : String} {r : Row} :
      RowStep now t (.markSent r.id resultId) r (r.markSent now resultId)
  | failed {lastError : String} {next : Int} {r : Row} :
      RowStep now t (.markFailed r.id lastError next) r (r.markFailed now lastError next)
  | timedOut {r : Row} : r.Overdue now → RowStep now t .markTimedOut r (r.markTimedOut now)
  | resent {r : Row} : r.status.Resendable → RowStep now t (.resend r.id) r (r.resend now)
  | updated {status : SignalMessageStatus} {r : Row} :
      r.deletedAt = none → RowStep now t (.updateStatus r.id status) r (r.updateStatus now status)

variable {now : Int} {st : Stmt} {t : Messages} {r r' : Row}

/-- No statement writes a key column. -/
theorem RowStep.key_eq (h : RowStep now t st r r') : r'.key = r.key := by
  cases h <;> rfl

theorem RowStep.id_eq (h : RowStep now t st r r') : r'.id = r.id :=
  congrArg RowKey.id h.key_eq

theorem RowStep.timeoutAt_eq (h : RowStep now t st r r') : r'.timeoutAt = r.timeoutAt := by
  cases h <;> rfl

theorem RowStep.maxAttempts_eq (h : RowStep now t st r r') : r'.maxAttempts = r.maxAttempts := by
  cases h <;> rfl

theorem RowStep.deletedAt_eq (h : RowStep now t st r r') : r'.deletedAt = r.deletedAt := by
  cases h <;> rfl

/-- No statement writes a column that is fixed by the insert. -/
theorem RowStep.fixed_eq (h : RowStep now t st r r') :
    (rowToDomain r').fixed = (rowToDomain r).fixed := by
  cases h <;> rfl

/-- The effect of a statement on a row of the table is a `RowStep`. -/
theorem Stmt.effect_step (st : Stmt) (now : Int) (hr : r ∈ t) :
    RowStep now t st r (st.effect now t r) := by
  cases st with
  | insert id p => exact .unchanged
  | claimPending lease locked =>
      simp only [Stmt.effect]
      split
      · next h =>
          obtain ⟨c, hc, hid⟩ := Option.map_eq_some_iff.mp h
          obtain ⟨hct, hclaim, _⟩ := Messages.claimCandidate_mem hc
          obtain rfl := t.row_unique hct hr hid
          exact .claimed hc hclaim
      · exact .unchanged
  | markSent id resultId =>
      simp only [Stmt.effect]
      split
      · next h => subst h; exact .sent
      · exact .unchanged
  | markFailed id lastError next =>
      simp only [Stmt.effect]
      split
      · next h => subst h; exact .failed
      · exact .unchanged
  | markTimedOut =>
      simp only [Stmt.effect]
      split
      · next h => exact .timedOut h
      · exact .unchanged
  | resend id =>
      simp only [Stmt.effect]
      split
      · next h => obtain ⟨rfl, hs⟩ := h; exact .resent hs
      · exact .unchanged
  | updateStatus id status =>
      simp only [Stmt.effect]
      split
      · next h => obtain ⟨rfl, hd⟩ := h; exact .updated hd
      · exact .unchanged

theorem Stmt.effect_id (st : Stmt) (now : Int) (hr : r ∈ t) : (st.effect now t r).id = r.id :=
  (st.effect_step now hr).id_eq

/-- The rows of a table after a conditional update, one by one. -/
theorem Messages.mem_update_effect {p : Row → Bool} {f e : Row → Row}
    (hf : ∀ r, (f r).key = r.key) (he : ∀ r ∈ t, e r = if p r then f r else r) :
    r' ∈ Table.update t p f hf ↔ ∃ r ∈ t, r' = e r := by
  rw [Table.mem_update]
  exact exists_congr fun r => and_congr_right fun hr => by rw [he r hr]

/-- A statement acts row by row: each row of the new table is the effect on an
old row, or the row an `INSERT` added. -/
theorem Stmt.mem_run : r' ∈ st.run now t ↔
    (∃ r ∈ t, r' = st.effect now t r) ∨
      ∃ id p, st = .insert id p ∧ r' = p.row now id ∧ ∃ t', t.insert now id p = .ok (r', t') := by
  cases st with
  | insert id p =>
      simp only [Stmt.run, Stmt.effect, exists_eq_right', Stmt.insert.injEq]
      cases hins : t.insert now id p with
      | ok v =>
          obtain ⟨r₀, t'⟩ := v
          obtain ⟨hr₀, hrows, _⟩ := Messages.insert_eq_ok hins
          rw [Table.mem_def, hrows, List.mem_append, List.mem_singleton]
          refine or_congr Iff.rfl ⟨?_, ?_⟩
          · rintro rfl
            exact ⟨id, p, ⟨rfl, rfl⟩, hr₀, t', hins⟩
          · rintro ⟨_, _, ⟨rfl, rfl⟩, h, _⟩
            rw [h, hr₀]
      | error e =>
          refine ⟨Or.inl, ?_⟩
          rintro (h | ⟨_, _, ⟨rfl, rfl⟩, _, t', h⟩)
          · exact h
          · rw [hins] at h; cases h
  | claimPending lease locked =>
      simp only [reduceCtorEq, false_and, exists_false, or_false]
      cases hc : t.claimCandidate now locked with
      | none =>
          simp only [Stmt.run, Messages.claimPending, Stmt.effect, hc, Option.map_none,
            reduceCtorEq, if_false]
          exact ⟨fun h => ⟨r', h, rfl⟩, fun ⟨_, h, he⟩ => he ▸ h⟩
      | some c =>
          simp only [Stmt.run, Messages.claimPending, hc, Option.map_some]
          refine Messages.mem_update_effect (Row.claim_key now lease) fun r _ => ?_
          by_cases h : r.id = c.id
          · simp [Stmt.effect, hc, h]
          · simp [Stmt.effect, hc, h, Ne.symm h]
  | markSent id resultId =>
      simp only [reduceCtorEq, false_and, exists_false, or_false]
      exact Messages.mem_update_effect (Row.markSent_key now resultId) fun r _ => by
        simp [Stmt.effect]
  | markFailed id lastError next =>
      simp only [reduceCtorEq, false_and, exists_false, or_false]
      exact Messages.mem_update_effect (Row.markFailed_key now lastError next) fun r _ => by
        simp [Stmt.effect]
  | markTimedOut =>
      simp only [reduceCtorEq, false_and, exists_false, or_false]
      exact Messages.mem_update_effect (Row.markTimedOut_key now) fun r _ => by simp [Stmt.effect]
  | resend id =>
      simp only [reduceCtorEq, false_and, exists_false, or_false]
      exact Messages.mem_update_effect (Row.resend_key now) fun r _ => by simp [Stmt.effect]
  | updateStatus id status =>
      simp only [reduceCtorEq, false_and, exists_false, or_false]
      exact Messages.mem_update_effect (Row.updateStatus_key now status) fun r _ => by
        simp [Stmt.effect]

/-- Each old row is in the new table, with the effect on it. -/
theorem Stmt.effect_mem (st : Stmt) (now : Int) (hr : r ∈ t) :
    st.effect now t r ∈ st.run now t :=
  Stmt.mem_run.mpr (Or.inl ⟨r, hr, rfl⟩)

/-! ## Runs of the statements

The queue as the service, the workers and the reaper drive it: any sequence of
the six statements, each at its own time.  `UpdateStatus`, the manual override
of the status column, is not among them. -/

/-- One statement of the queue.  `UpdateStatus` is not enabled. -/
def queueStep (t : Messages) : Int × Stmt → Option Messages
  | (_, .updateStatus _ _) => none
  | (now, st) => some (st.run now t)

theorem queueStep_eq {a : Int × Stmt} {t' : Messages} (h : queueStep t a = some t') :
    t' = a.2.run a.1 t ∧ ∀ id status, a.2 ≠ .updateStatus id status := by
  obtain ⟨now, st⟩ := a
  cases st with
  | updateStatus id status => cases h
  | _ => exact ⟨(Option.some.inj h).symm, by intro _ _ h'; cases h'⟩

end Signalium
