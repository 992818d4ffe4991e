import Signalium.Service.Moves

/-!
# Idempotency keys under concurrency

`Enqueue` looks its key up, uploads, and inserts, in separate steps.  The lookup
protects a request from those that were inserted before it.  Two requests that
both miss their lookup both go on to the insert, and the `UNIQUE` columns turn
the second one into an error.

So requests with one key and one external id end with one row and one id for all
of them exactly when no lookup runs while another of these requests is between
its own lookup and its insert (`deduplicated_iff`).
-/

namespace Signalium

open Runs Tables

variable {cfg : ServiceConfig} {key extId : String} {s s' : Intake} {a : IntakeLabel} {k : Nat}
  {call call' : EnqueueCall}

/-! ## The requests -/

/-- The request carries the key and the external id. -/
def CreateMessage.Carries (key extId : String) (m : CreateMessage) : Prop :=
  m.idempotencyKey = some key ∧ m.externalId = extId

instance (m : CreateMessage) : Decidable (m.Carries key extId) :=
  inferInstanceAs (Decidable (_ ∧ _))

/-- A part that `uploadAll` takes. -/
def PartRead.acceptable : PartRead → Bool
  | .part p => sanitizeFilename p.filename ≠ ""
  | .failed _ => false

/-- Nothing is wrong with the request itself. -/
def Acceptable (cfg : ServiceConfig) (m : CreateMessage) (parts : List PartRead) : Prop :=
  m.validate cfg = none ∧ ExactlyOneTarget m.recipient m.groupId ∧
    ∀ x ∈ parts, x.acceptable = true

instance (m : CreateMessage) (parts : List PartRead) : Decidable (Acceptable cfg m parts) :=
  inferInstanceAs (Decidable (_ ∧ _))

/-- The object store and the database do what they are asked to, and the id the
database draws is new. -/
def EnqueueAct.Healthy (t : Messages) : EnqueueAct → Prop
  | .lookup _ fails => fails = false
  | .next putFails => putFails = false
  | .remove _ => True
  | .insert id reply => reply = .committed ∧ ∀ r ∈ t.rows, r.id ≠ id

instance (t : Messages) : (act : EnqueueAct) → Decidable (act.Healthy t)
  | .lookup _ fails => inferInstanceAs (Decidable (fails = false))
  | .next putFails => inferInstanceAs (Decidable (putFails = false))
  | .remove _ => .isTrue trivial
  | .insert id reply =>
      inferInstanceAs (Decidable (reply = .committed ∧ ∀ r ∈ t.rows, r.id ≠ id))

/-- A healthy run of requests: each carries both the key and the external id and
is acceptable, or carries neither. -/
def Retries (cfg : ServiceConfig) (key extId : String) (s : Intake) : IntakeLabel → Prop
  | .advance _ => True
  | .request m parts => m.Carries key extId ∧ Acceptable cfg m parts ∨
      m.idempotencyKey ≠ some key ∧ m.externalId ≠ extId
  | .enqueue _ act => act.Healthy s.table

instance (s : Intake) : (a : IntakeLabel) → Decidable (Retries cfg key extId s a)
  | .advance _ => .isTrue trivial
  | .request m parts => inferInstanceAs (Decidable (m.Carries key extId ∧ Acceptable cfg m parts ∨
      m.idempotencyKey ≠ some key ∧ m.externalId ≠ extId))
  | .enqueue _ act => inferInstanceAs (Decidable (act.Healthy s.table))

/-- One row has the key, and every request that carries it has returned the id of
this row. -/
def Deduplicated (key extId : String) (s : Intake) : Prop :=
  ∃ r ∈ s.table, r.idempotencyKey = some key ∧
    (∀ r' ∈ s.table, r'.idempotencyKey = some key → r' = r) ∧
    ∀ call ∈ s.calls, call.m.Carries key extId →
      ∃ idempotent, call.pc = .returned (.ok ⟨r.id, idempotent⟩)

/-- The call is between its lookup and its insert. -/
def EnqueuePc.pending : EnqueuePc → Bool
  | .uploading _ _ _ | .inserting _ _ => true
  | _ => false

/-- No lookup of the key runs while another request is pending. -/
def Serial (key extId : String) (s : Intake) : IntakeLabel → Prop
  | .enqueue k (.lookup _ _) => ∀ call ∈ s.calls[k]?, call.m.Carries key extId →
      ∀ other ∈ s.calls, other.m.Carries key extId → other.pc.pending = false
  | _ => True

instance (s : Intake) : (a : IntakeLabel) → Decidable (Serial key extId s a)
  | .enqueue k (.lookup _ _) => inferInstanceAs (Decidable (∀ call ∈ s.calls[k]?,
      call.m.Carries key extId → ∀ other ∈ s.calls, other.m.Carries key extId →
        other.pc.pending = false))
  | .enqueue _ (.next _) | .enqueue _ (.remove _) | .enqueue _ (.insert _ _) => .isTrue trivial
  | .advance _ | .request _ _ => .isTrue trivial

/-! ## Rows and calls -/

/-- What holds of the rows and the calls with the key. -/
structure KeyInv (cfg : ServiceConfig) (key extId : String) (s : Intake) : Prop where
  accepted : ∀ (k : Nat) (call : EnqueueCall), s.calls[k]? = some call →
    call.m.Carries key extId → Acceptable cfg call.m call.parts
  apart : ∀ (k : Nat) (call : EnqueueCall), s.calls[k]? = some call →
    ¬ call.m.Carries key extId → call.m.idempotencyKey ≠ some key ∧ call.m.externalId ≠ extId
  rest : ∀ (k : Nat) (call : EnqueueCall), s.calls[k]? = some call → call.m.Carries key extId →
    ∀ id rest done, call.pc = .uploading id rest done → ∀ x ∈ rest, x.acceptable = true
  extId_key : ∀ r ∈ s.table, r.externalId = extId → r.idempotencyKey = some key
  /-- A row with the key was inserted by one of the calls. -/
  row_call : ∀ r ∈ s.table, r.idempotencyKey = some key →
    ∃ (k : Nat) (call : EnqueueCall), s.calls[k]? = some call ∧ call.m.Carries key extId ∧
      call.pc = .returned (.ok ⟨r.id, false⟩)
  /-- A call that has returned an id returned the one of a row with the key. -/
  call_row : ∀ (k : Nat) (call : EnqueueCall) (id : UUID) (idempotent : Bool),
    s.calls[k]? = some call → call.m.Carries key extId →
    call.pc = .returned (.ok ⟨id, idempotent⟩) →
    ∃ r ∈ s.table, r.idempotencyKey = some key ∧ r.id = id
  /-- At most one call has inserted. -/
  one_insert : ∀ (i j : Nat) (ci cj : EnqueueCall) (idi idj : UUID),
    s.calls[i]? = some ci → s.calls[j]? = some cj →
    ci.m.Carries key extId → cj.m.Carries key extId →
    ci.pc = .returned (.ok ⟨idi, false⟩) → cj.pc = .returned (.ok ⟨idj, false⟩) → i = j

/-- Two rows with the key are the same row. -/
theorem KeyInv.row_unique (h : KeyInv cfg key extId s) {r r' : Row} (hr : r ∈ s.table)
    (hr' : r' ∈ s.table) (hk : r.idempotencyKey = some key) (hk' : r'.idempotencyKey = some key) :
    r = r' := by
  obtain ⟨i, ci, hi, hci, hpi⟩ := h.row_call r hr hk
  obtain ⟨j, cj, hj, hcj, hpj⟩ := h.row_call r' hr' hk'
  obtain rfl := h.one_insert i j ci cj _ _ hi hj hci hcj hpi hpj
  rw [hi] at hj
  cases hj
  rw [hpi] at hpj
  injection hpj with hpj
  injection hpj with hpj
  injection hpj with hid _
  exact s.table.row_unique hr hr' hid

/-! ## Steps of a call -/

/-- The call has missed its lookup, or failed. -/
def EnqueuePc.missed : EnqueuePc → Bool
  | .start => false
  | .returned (.ok r) => !r.idempotent
  | _ => true

theorem EnqueuePc.missed_of_failed {pc : EnqueuePc} (h : pc.failed = true) : pc.missed = true := by
  cases pc with
  | returned r =>
      cases r with
      | ok => cases h
      | error => rfl
  | start => cases h
  | _ => rfl

theorem EnqueuePc.missed_of_pending {pc : EnqueuePc} (h : pc.pending = true) :
    pc.missed = true := by
  cases pc <;> first | rfl | cases h

theorem nonEmpty?_eq {x : String} (hkey : key ≠ "") (h : nonEmpty? (some key) = some x) :
    x = key := by
  rw [nonEmpty?, if_neg hkey] at h
  exact (Option.some.inj h).symm

section Moves

variable {act : EnqueueAct} {o : Objects} {t : Messages} {pc : EnqueuePc}

/-- Only an insert changes the table. -/
theorem EnqueueMove.table_eq (h : EnqueueMove cfg s call act o t pc) (hh : act.Healthy s.table) :
    t = s.table ∨ ∃ iid mid refs row, call.pc = .inserting mid refs ∧
      s.table.insert s.now iid (call.m.insertParams cfg s.now mid refs) = .ok (row, t) ∧
      pc = .returned (.ok ⟨row.id, false⟩) := by
  cases h with
  | inserted hins hrow => exact Or.inr ⟨_, _, _, _, hins, hrow, rfl⟩
  | insertLost => cases hh.1
  | _ => exact Or.inl rfl

/-- A call that has missed its lookup stays one that has. -/
theorem EnqueueMove.missed (h : EnqueueMove cfg s call act o t pc)
    (hm : call.pc.missed = true) : pc.missed = true := by
  cases h with
  | invalid => rfl
  | keyless => rfl
  | lookupFailed => rfl
  | miss => rfl
  | uploaded => rfl
  | readEOF => rfl
  | put => rfl
  | inserted => rfl
  | hit hpc => rw [hpc] at hm; cases hm
  | _ => exact EnqueuePc.missed_of_failed (rollback_failed _ _)

/-- A call comes to miss by a lookup that finds no row. -/
theorem EnqueueMove.becomes_missed (h : EnqueueMove cfg s call act o t pc) (hkey : key ≠ "")
    (hk : call.m.idempotencyKey = some key) (hnot : call.pc.missed = false)
    (hm : pc.missed = true) (hok : pc.failed = false) :
    (∃ id fails, act = .lookup id fails) ∧ ∀ r ∈ s.table, r.idempotencyKey ≠ some key := by
  cases h with
  | invalid => cases hok
  | lookupFailed => cases hok
  | hit => cases hm
  | keyless _ _ hnone =>
      rw [hk, nonEmpty?, if_neg hkey] at hnone
      cases hnone
  | miss _ _ hsome hget =>
      rw [hk] at hsome
      obtain rfl := nonEmpty?_eq hkey hsome
      exact ⟨⟨_, _, rfl⟩, fun r hr => Messages.getByIdempotencyKey_none hget hr⟩
  | _ hpc => rw [hpc] at hnot; cases hnot

end Moves

/-! ## The invariant along a run -/

theorem KeyInv.carries (h : KeyInv cfg key extId s) (hcall : s.calls[k]? = some call)
    (hk : call.m.idempotencyKey = some key) : call.m.Carries key extId := by
  by_contra hc
  exact (h.apart k call hcall hc).1 hk

/-- The step inserts the row for the call at place `k`. -/
structure Inserts (cfg : ServiceConfig) (s s' : Intake) (k : Nat) (call : EnqueueCall) (r : Row) :
    Prop where
  before : s.calls[k]? = some call
  row : ∃ iid mid refs t, call.pc = .inserting mid refs ∧
    s.table.insert s.now iid (call.m.insertParams cfg s.now mid refs) = .ok (r, t)
  after : s'.calls[k]? = some { call with pc := .returned (.ok ⟨r.id, false⟩) }

theorem Inserts.columns {r : Row} (h : Inserts cfg s s' k call r) :
    r.externalId = call.m.externalId ∧ r.idempotencyKey = call.m.idempotencyKey := by
  obtain ⟨iid, mid, refs, t, _, hins⟩ := h.row
  obtain ⟨rfl, _⟩ := Messages.insert_eq_ok hins
  exact ⟨rfl, rfl⟩

/-- Rows stay. -/
theorem IntakeMove.row_stays (h : IntakeMove cfg s a s') (ha : Retries cfg key extId s a) {r : Row}
    (hr : r ∈ s.table) : r ∈ s'.table := by
  cases h with
  | enqueue _ hm =>
      rcases hm.table_eq ha with rfl | ⟨_, _, _, _, _, hins, _⟩
      · exact hr
      · exact (Messages.mem_insert hins).mpr (Or.inl hr)
  | _ => exact hr

/-- A new row is the row of the call that inserts it. -/
theorem IntakeMove.of_row (h : IntakeMove cfg s a s') (ha : Retries cfg key extId s a) {r : Row}
    (hr : r ∈ s'.table) : r ∈ s.table ∨ ∃ k call, Inserts cfg s s' k call r := by
  cases h with
  | @enqueue k call act o t pc hcall hm =>
      rcases hm.table_eq ha with rfl | ⟨iid, mid, refs, row, hpc, hins, rfl⟩
      · exact Or.inl hr
      · rcases (Messages.mem_insert hins).mp hr with hold | rfl
        · exact Or.inl hold
        · exact Or.inr ⟨k, call, hcall, ⟨iid, mid, refs, t, hpc, hins⟩, Places.set_self hcall⟩
  | _ => exact Or.inl hr

/-- A call that has inserted had done so before, or inserts now: then no row had
its key. -/
theorem IntakeMove.of_fresh (h : IntakeMove cfg s a s') {id : UUID}
    (hcall' : s'.calls[k]? = some call') (hpc : call'.pc = .returned (.ok ⟨id, false⟩)) :
    s.calls[k]? = some call' ∨ ∃ act, a = .enqueue k act ∧
      ∀ key, call'.m.idempotencyKey = some key → ∀ r ∈ s.table, r.idempotencyKey ≠ some key := by
  rcases h.of_call hcall' with
    hold | ⟨call, act, o, t, pc, hcall, rfl, hmove, rfl, ht⟩ | ⟨m, parts, rfl, rfl⟩
  · exact Or.inl hold
  · rcases hmove.returned_ok hpc with
      ⟨_, _, _, _, _, _, _, _, hres⟩ | ⟨iid, mid, refs, row, _, _, hins, _⟩
    · cases hres
    · exact Or.inr ⟨act, rfl, fun key hk r hr => Messages.insert_key_free hins hk hr⟩
  · cases hpc

theorem KeyInv.step (hkey : key ≠ "") (h : KeyInv cfg key extId s) (ha : Retries cfg key extId s a)
    (hs : s.step cfg a = some s') : KeyInv cfg key extId s' where
  accepted := by
    intro k call' hcall' hc
    rcases (Intake.step_move hs).of_call hcall' with
      hold | ⟨call, act, o, t, pc, hcall, rfl, hm, rfl, _⟩ | ⟨m, parts, rfl, rfl⟩
    · exact h.accepted k call' hold hc
    · exact h.accepted k call hcall hc
    · rcases ha with ⟨_, hacc⟩ | ⟨hne, _⟩
      · exact hacc
      · exact absurd hc.1 hne
  apart := by
    intro k call' hcall' hc
    rcases (Intake.step_move hs).of_call hcall' with
      hold | ⟨call, act, o, t, pc, hcall, rfl, hm, rfl, _⟩ | ⟨m, parts, rfl, rfl⟩
    · exact h.apart k call' hold hc
    · exact h.apart k call hcall hc
    · rcases ha with ⟨hcar, _⟩ | hne
      · exact absurd hcar hc
      · exact hne
  rest := by
    intro k call' hcall' hc id rest done hpc
    rcases (Intake.step_move hs).of_call hcall' with
      hold | ⟨call, act, o, t, pc, hcall, rfl, hm, rfl, _⟩ | ⟨m, parts, rfl, rfl⟩
    · exact h.rest k call' hold hc id rest done hpc
    · rcases hm.uploading hpc with rfl | ⟨x, done', hup⟩
      · exact (h.accepted k call hcall hc).2.2
      · exact fun y hy => h.rest k call hcall hc id _ done' hup y (List.mem_cons_of_mem x hy)
    · cases hpc
  extId_key := by
    intro r hr hext
    rcases (Intake.step_move hs).of_row ha hr with hold | ⟨k, call, hins⟩
    · exact h.extId_key r hold hext
    · rw [hins.columns.2]
      by_contra hne
      refine (h.apart k call hins.before fun hc => hne hc.1).2 ?_
      rw [← hins.columns.1, hext]
  row_call := by
    intro r hr hk
    have hm := Intake.step_move hs
    rcases hm.of_row ha hr with hold | ⟨k, call, hins⟩
    · obtain ⟨k, call, hcall, hc, hpc⟩ := h.row_call r hold hk
      obtain ⟨call', hcall', hm', hsame | ⟨act, o, t, _, hmove⟩⟩ := hm.call_stays hcall
      · exact ⟨k, call', hcall', hsame ▸ hc, hsame ▸ hpc⟩
      · exact absurd hpc (hmove.not_returned _)
    · have hc : call.m.Carries key extId := h.carries hins.before (hins.columns.2 ▸ hk)
      exact ⟨k, _, hins.after, hc, rfl⟩
  call_row := by
    intro k call' id idempotent hcall' hc hpc
    have hm := Intake.step_move hs
    rcases hm.of_call hcall' with
      hold | ⟨call, act, o, t, pc, hcall, rfl, hmove, rfl, ht⟩ | ⟨m, parts, rfl, rfl⟩
    · obtain ⟨r, hr, hrest⟩ := h.call_row k call' id idempotent hold hc hpc
      exact ⟨r, hm.row_stays ha hr, hrest⟩
    · rcases hmove.returned_ok hpc with
        ⟨_, key', r, _, _, hk, hr, _, hres⟩ | ⟨iid, mid, refs, row, _, _, hins, hres⟩
      · cases hres
        obtain ⟨hmem, hrk⟩ := Messages.getByIdempotencyKey_some hr
        rw [show call.m.idempotencyKey = some key from hc.1] at hk
        rw [nonEmpty?_eq hkey hk] at hrk
        exact ⟨r, hm.row_stays ha hmem, hrk, rfl⟩
      · cases hres
        obtain ⟨hrow, _⟩ := Messages.insert_eq_ok hins
        refine ⟨row, ht ▸ (Messages.mem_insert hins).mpr (Or.inr rfl), ?_, rfl⟩
        rw [hrow]
        exact hc.1
    · cases hpc
  one_insert := by
    intro i j ci cj idi idj hi hj hci hcj hpi hpj
    have hm := Intake.step_move hs
    rcases hm.of_fresh hi hpi with hi₀ | ⟨ai, hai, hfi⟩
    · rcases hm.of_fresh hj hpj with hj₀ | ⟨aj, haj, hfj⟩
      · exact h.one_insert i j ci cj idi idj hi₀ hj₀ hci hcj hpi hpj
      · obtain ⟨r, hr, hrk, _⟩ := h.call_row i ci idi false hi₀ hci hpi
        exact absurd hrk (hfj key hcj.1 r hr)
    · rcases hm.of_fresh hj hpj with hj₀ | ⟨aj, haj, hfj⟩
      · obtain ⟨r, hr, hrk, _⟩ := h.call_row j cj idj false hj₀ hcj hpj
        exact absurd hrk (hfi key hci.1 r hr)
      · rw [hai] at haj
        injection haj

/-! ## At most one miss -/

/-- At most one request has missed its lookup, and none has failed. -/
structure OneMiss (key extId : String) (s : Intake) : Prop where
  one : ∀ (i j : Nat) (ci cj : EnqueueCall), s.calls[i]? = some ci → s.calls[j]? = some cj →
    ci.m.Carries key extId → cj.m.Carries key extId → ci.pc.missed = true →
      cj.pc.missed = true → i = j
  ok : ∀ (k : Nat) (call : EnqueueCall), s.calls[k]? = some call → call.m.Carries key extId →
    call.pc.failed = false

/-- A step does not undo a miss or a failure. -/
theorem OneMiss.back (h : OneMiss key extId s') (hs : s.step cfg a = some s') :
    OneMiss key extId s where
  one := by
    have hm := Intake.step_move hs
    have hstays : ∀ {i : Nat} {ci : EnqueueCall}, s.calls[i]? = some ci → ci.pc.missed = true →
        ∃ ci', s'.calls[i]? = some ci' ∧ ci'.m = ci.m ∧ ci'.pc.missed = true := by
      intro i ci hi hmi
      obtain ⟨ci', hi', hm', rfl | ⟨act, o, t, _, hmove⟩⟩ := hm.call_stays hi
      · exact ⟨ci', hi', rfl, hmi⟩
      · exact ⟨ci', hi', hm', hmove.missed hmi⟩
    intro i j ci cj hi hj hci hcj hmi hmj
    obtain ⟨ci', hi', hci', hmi'⟩ := hstays hi hmi
    obtain ⟨cj', hj', hcj', hmj'⟩ := hstays hj hmj
    exact h.one i j ci' cj' hi' hj' (hci' ▸ hci) (hcj' ▸ hcj) hmi' hmj'
  ok := by
    intro k call hcall hc
    obtain ⟨call', hcall', hm', rfl | ⟨act, o, t, _, hmove⟩⟩ :=
      (Intake.step_move hs).call_stays hcall
    · exact h.ok k call' hcall' hc
    · by_contra hf
      have := h.ok k call' hcall' (hm' ▸ hc)
      rw [hmove.failed (by simpa using hf)] at this
      cases this

/-- While the request that missed is pending, no row has the key. -/
theorem OneMiss.no_row (h : OneMiss key extId s) (hI : KeyInv cfg key extId s)
    (hcall : s.calls[k]? = some call) (hc : call.m.Carries key extId)
    (hp : call.pc.pending = true) : ∀ r ∈ s.table, r.idempotencyKey ≠ some key := by
  intro r hr hk
  obtain ⟨i, ci, hi, hci, hpi⟩ := hI.row_call r hr hk
  have hmi : ci.pc.missed = true := by rw [hpi]; rfl
  obtain rfl := h.one i k ci call hi hcall hci hc hmi (EnqueuePc.missed_of_pending hp)
  rw [hi] at hcall
  cases hcall
  rw [hpi] at hp
  cases hp

/-- An acceptable request does not fail in a healthy step. -/
theorem OneMiss.not_failed (h : OneMiss key extId s) (hI : KeyInv cfg key extId s)
    (hcall : s.calls[k]? = some call) (hc : call.m.Carries key extId)
    {act : EnqueueAct} {o : Objects}
    {t : Messages} {pc : EnqueuePc} (hm : EnqueueMove cfg s call act o t pc)
    (ha : act.Healthy s.table) : pc.failed = false := by
  obtain ⟨hvalid, htarget, hparts⟩ := hI.accepted k call hcall hc
  have hpart := fun id rest done => hI.rest k call hcall hc id rest done
  cases hm with
  | invalid _ hv => rw [hvalid] at hv; cases hv
  | lookupFailed => cases ha
  | readFailed hpc =>
      have hx := hpart _ _ _ hpc _ List.mem_cons_self
      cases hx
  | rejected hpc hf =>
      have hx := hpart _ _ _ hpc _ List.mem_cons_self
      rw [PartRead.acceptable, hf] at hx
      cases hx
  | putFailed => cases ha
  | remove hpc => have := h.ok k call hcall hc; rw [hpc] at this; cases this
  | unreached => cases ha.1
  | insertLost => cases ha.1
  | insertRejected hpc _ hins =>
      have hfree := h.no_row hI hcall hc (by rw [hpc]; rfl)
      refine absurd hins (Messages.insert_free htarget ha.2 ?_ ?_)
      · intro r hr hext
        exact hfree r hr (hI.extId_key r hr (hext.trans hc.2))
      · intro r hr v hv
        rw [show (call.m.insertParams cfg s.now _ _).idempotencyKey = some key from hc.1] at hv
        cases hv
        exact hfree r hr
  | _ => rfl

/-- A lookup next to a pending request makes a second miss: of its own, or because
the row it finds was inserted by a third request. -/
theorem OneMiss.serial (hkey : key ≠ "") (h : OneMiss key extId s) (h' : OneMiss key extId s')
    (hI : KeyInv cfg key extId s) (hs : s.step cfg a = some s') : Serial key extId s a := by
  cases Intake.step_move hs with
  | advance => trivial
  | request => trivial
  | @enqueue k call act o t pc hcall hm =>
      cases act with
      | lookup id fails =>
          intro call₀ hcall₀ hc other hother hoc
          rw [Option.mem_def, hcall] at hcall₀
          cases hcall₀
          by_contra hp
          have hpend : other.pc.pending = true := by simpa using hp
          obtain ⟨j, hj⟩ := List.getElem?_of_mem hother
          have hne : j ≠ k := by
            rintro rfl
            rw [hcall] at hj
            cases hj
            cases hm <;> simp_all [EnqueuePc.pending]
          have hfree := h.no_row hI hj hoc hpend
          have hafter : pc.missed = true → False := by
            intro hmiss
            refine hne (h'.one j k other _ ?_ (Places.set_self hcall) hoc hc
              (EnqueuePc.missed_of_pending hpend) hmiss)
            show (s.calls.set k _)[j]? = some other
            rw [Places.set_ne hne, hj]
          cases hm with
          | hit _ _ hsome hr =>
              obtain ⟨hmem, hrk⟩ := Messages.getByIdempotencyKey_some hr
              rw [hc.1] at hsome
              exact hfree _ hmem (nonEmpty?_eq hkey hsome ▸ hrk)
          | _ => exact hafter rfl
      | _ => trivial

/-- Where a lookup misses and no request is pending, none has missed before. -/
theorem OneMiss.none_missed (h : OneMiss key extId s) (hI : KeyInv cfg key extId s)
    (hfree : ∀ r ∈ s.table, r.idempotencyKey ≠ some key) (hcall : s.calls[k]? = some call)
    (hc : call.m.Carries key extId) (hp : call.pc.pending = false) : call.pc.missed = false := by
  have hf := h.ok k call hcall hc
  cases hpc : call.pc with
  | start => rfl
  | uploading => rw [hpc] at hp; cases hp
  | inserting => rw [hpc] at hp; cases hp
  | rollingBack => rw [hpc] at hf; cases hf
  | returned r =>
      cases r with
      | error => rw [hpc] at hf; cases hf
      | ok res =>
          obtain ⟨r, hr, hrk, _⟩ := hI.call_row k call res.id res.idempotent hcall hc hpc
          exact absurd hrk (hfree r hr)

theorem OneMiss.step (hkey : key ≠ "") (h : OneMiss key extId s) (hI : KeyInv cfg key extId s)
    (ha : Retries cfg key extId s a) (hser : Serial key extId s a) (hs : s.step cfg a = some s') :
    OneMiss key extId s' := by
  have hm := Intake.step_move hs
  have hok : ∀ (k : Nat) (call : EnqueueCall), s'.calls[k]? = some call →
      call.m.Carries key extId → call.pc.failed = false := by
    intro k call' hcall' hc
    rcases hm.of_call hcall' with
      hold | ⟨call, act, o, t, pc, hcall, rfl, hmove, rfl, _⟩ | ⟨m, parts, rfl, rfl⟩
    · exact h.ok k call' hold hc
    · exact h.not_failed hI hcall hc hmove ha
    · rfl
  -- a call that has missed did so before, or misses now and is the first one
  have hmissed : ∀ {i : Nat} {ci : EnqueueCall}, s'.calls[i]? = some ci →
      ci.m.Carries key extId → ci.pc.missed = true →
      (∃ ci₀, s.calls[i]? = some ci₀ ∧ ci₀.m.Carries key extId ∧ ci₀.pc.missed = true) ∨
      (∃ act, a = .enqueue i act) ∧ ∀ (j : Nat) (cj : EnqueueCall), s.calls[j]? = some cj →
        cj.m.Carries key extId → cj.pc.missed = false := by
    intro i ci hi hci hmi
    rcases hm.of_call hi with
      hold | ⟨call, act, o, t, pc, hcall, rfl, hmove, rfl, _⟩ | ⟨m, parts, rfl, rfl⟩
    · exact Or.inl ⟨ci, hold, hci, hmi⟩
    · cases hnot : call.pc.missed with
      | true => exact Or.inl ⟨call, hcall, hci, hnot⟩
      | false =>
          obtain ⟨⟨id, fails, rfl⟩, hfree⟩ :=
            hmove.becomes_missed hkey hci.1 hnot hmi (hok i _ hi hci)
          refine Or.inr ⟨⟨_, rfl⟩, fun j cj hj hcj => ?_⟩
          exact h.none_missed hI hfree hj hcj
            (hser call hcall hci cj (List.mem_of_getElem? hj) hcj)
    · cases hmi
  refine ⟨?_, hok⟩
  intro i j ci cj hi hj hci hcj hmi hmj
  rcases hmissed hi hci hmi with ⟨ci₀, hi₀, hci₀, hmi₀⟩ | ⟨⟨act, hact⟩, hnone⟩
  · rcases hmissed hj hcj hmj with ⟨cj₀, hj₀, hcj₀, hmj₀⟩ | ⟨_, hnone⟩
    · exact h.one i j ci₀ cj₀ hi₀ hj₀ hci₀ hcj₀ hmi₀ hmj₀
    · rw [hnone i ci₀ hi₀ hci₀] at hmi₀
      cases hmi₀
  · rcases hmissed hj hcj hmj with ⟨cj₀, hj₀, hcj₀, hmj₀⟩ | ⟨⟨act', hact'⟩, _⟩
    · rw [hnone j cj₀ hj₀ hcj₀] at hmj₀
      cases hmj₀
    · rw [hact] at hact'
      injection hact'

/-! ## Whole runs -/

def EnqueuePc.isReturned : EnqueuePc → Bool
  | .returned _ => true
  | _ => false

/-- Every request with the key has returned, and there is one. -/
def AllReturned (key extId : String) (s : Intake) : Prop :=
  (∃ call ∈ s.calls, call.m.Carries key extId) ∧
    ∀ call ∈ s.calls, call.m.Carries key extId → call.pc.isReturned = true

instance (s : Intake) : Decidable (AllReturned key extId s) := inferInstanceAs (Decidable (_ ∧ _))

theorem KeyInv.deduplicated_iff_oneMiss (hI : KeyInv cfg key extId s)
    (hdone : AllReturned key extId s) :
    Deduplicated key extId s ↔ OneMiss key extId s := by
  constructor
  · rintro ⟨r, _, _, _, hcalls⟩
    have hret : ∀ {i : Nat} {ci : EnqueueCall}, s.calls[i]? = some ci → ci.m.Carries key extId →
        ∃ idempotent, ci.pc = .returned (.ok ⟨r.id, idempotent⟩) :=
      fun hi hci => hcalls _ (List.mem_of_getElem? hi) hci
    refine ⟨fun i j ci cj hi hj hci hcj hmi hmj => ?_, fun k call hcall hc => ?_⟩
    · obtain ⟨bi, hpi⟩ := hret hi hci
      obtain ⟨bj, hpj⟩ := hret hj hcj
      rw [hpi] at hmi
      rw [hpj] at hmj
      cases bi with
      | true => cases hmi
      | false =>
          cases bj with
          | true => cases hmj
          | false => exact hI.one_insert i j ci cj _ _ hi hj hci hcj hpi hpj
    · obtain ⟨b, hpc⟩ := hret hcall hc
      rw [hpc]
      rfl
  · intro h
    have hrow : ∀ call ∈ s.calls, call.m.Carries key extId → ∃ r ∈ s.table,
        r.idempotencyKey = some key ∧ ∃ b, call.pc = .returned (.ok ⟨r.id, b⟩) := by
      intro call hmem hc
      obtain ⟨k, hcall⟩ := List.getElem?_of_mem hmem
      have hok := h.ok k call hcall hc
      have hret := hdone.2 call hmem hc
      cases hpc : call.pc with
      | returned res =>
          cases res with
          | error e => rw [hpc] at hok; cases hok
          | ok res =>
              obtain ⟨r, hr, hrk, hid⟩ := hI.call_row k call res.id res.idempotent hcall hc hpc
              exact ⟨r, hr, hrk, res.idempotent, by rw [hid]⟩
      | _ => rw [hpc] at hret; cases hret
    obtain ⟨call, hmem, hc⟩ := hdone.1
    obtain ⟨r, hr, hrk, _⟩ := hrow call hmem hc
    refine ⟨r, hr, hrk, fun r' hr' hrk' => hI.row_unique hr' hr hrk' hrk, ?_⟩
    intro call' hmem' hc'
    obtain ⟨r', hr', hrk', b, hpc⟩ := hrow call' hmem' hc'
    rw [hI.row_unique hr' hr hrk' hrk] at hpc
    exact ⟨b, hpc⟩

/-- No call is running, and no row has the key or the external id. -/
structure Unused (key extId : String) (s : Intake) : Prop where
  calls : s.calls = []
  rows : ∀ r ∈ s.table, r.idempotencyKey ≠ some key ∧ r.externalId ≠ extId

theorem Unused.keyInv (h : Unused key extId s) : KeyInv cfg key extId s where
  accepted := fun k call hcall => by rw [h.calls] at hcall; cases hcall
  apart := fun k call hcall => by rw [h.calls] at hcall; cases hcall
  rest := fun k call hcall => by rw [h.calls] at hcall; cases hcall
  extId_key := fun r hr hext => absurd hext (h.rows r hr).2
  row_call := fun r hr hk => absurd hk (h.rows r hr).1
  call_row := fun k call id b hcall => by rw [h.calls] at hcall; cases hcall
  one_insert := fun i j ci cj idi idj hi => by rw [h.calls] at hi; cases hi

theorem Unused.oneMiss (h : Unused key extId s) : OneMiss key extId s where
  one := fun i j ci cj hi => by rw [h.calls] at hi; cases hi
  ok := fun k call hcall => by rw [h.calls] at hcall; cases hcall

/-- **Idempotent enqueue.**  When all requests with a key and an external id that
were not in use have returned, one row has the key and each of them has returned
its id, exactly when no lookup of the run was made while another of the requests
was between its own lookup and its insert.  Other requests may come in between. -/
theorem deduplicated_iff {s₀ : Intake} {tr : List IntakeLabel} (hkey : key ≠ "")
    (h₀ : Unused key extId s₀) (hr : RunOf (Intake.step cfg) (Retries cfg key extId) s₀ tr s)
    (hdone : AllReturned key extId s) :
    Deduplicated key extId s ↔ RunOf (Intake.step cfg) (Serial key extId) s₀ tr s := by
  have hI : KeyInv cfg key extId s :=
    hr.invariant h₀.keyInv fun _ _ _ hI ha hs => hI.step hkey ha hs
  rw [hI.deduplicated_iff_oneMiss hdone]
  refine hr.last_iff h₀.oneMiss h₀.keyInv (fun _ _ _ hI ha hs => hI.step hkey ha hs)
    (fun _ _ _ _ _ hs h' => h'.back hs) ?_
  intro s a s' hI h ha hs
  exact ⟨fun h' => h.serial hkey h' hI hs, fun hser => h.step hkey hI ha hser hs⟩

theorem unused_init : Unused key extId Intake.init := ⟨rfl, fun r hr => by cases hr⟩

/-- A client sends the same request twice, with a file `a.txt`. -/
def retriedRequest : IntakeLabel :=
  .request
    { externalId := "ext-1"
      idempotencyKey := some "key-1"
      recipient := some "+380111111111"
      content := "hello" }
    [.part ⟨[0x61, 0x2E, 0x74, 0x78, 0x74], "text/plain", [0x68, 0x69]⟩]

/-- The second request looks its key up after the first one has inserted. -/
def serialRetry : List IntakeLabel :=
  [retriedRequest, retriedRequest, .enqueue 0 (.lookup "u-0" false), .enqueue 0 (.next false),
    .enqueue 0 (.next false), .enqueue 0 (.insert "m-0" .committed),
    .enqueue 1 (.lookup "u-1" false)]

theorem serialRetry_deduplicated :
    ∃ s, RunOf (Intake.step demoConfig) (Retries demoConfig "key-1" "ext-1") Intake.init
      serialRetry s ∧ Deduplicated "key-1" "ext-1" s := by
  have hr : RunOf (Intake.step demoConfig) (Retries demoConfig "key-1" "ext-1") Intake.init
      serialRetry _ := runOf_of_execOf rfl
  refine ⟨_, hr, (deduplicated_iff (by decide) unused_init hr ?_).mpr (runOf_of_execOf rfl)⟩
  exact of_decide_eq_true rfl

/-- The second request looks its key up while the first one uploads. -/
def concurrentRetry : List IntakeLabel :=
  [retriedRequest, retriedRequest, .enqueue 0 (.lookup "u-0" false),
    .enqueue 1 (.lookup "u-1" false), .enqueue 0 (.next false), .enqueue 0 (.next false),
    .enqueue 1 (.next false), .enqueue 1 (.next false), .enqueue 0 (.insert "m-0" .committed),
    .enqueue 1 (.insert "m-1" .committed), .enqueue 1 (.remove false)]

/-- The second request returns the error of the `UNIQUE` column, although the
store and the database are healthy. -/
theorem concurrentRetry_not_deduplicated :
    ∃ s call, RunOf (Intake.step demoConfig) (Retries demoConfig "key-1" "ext-1") Intake.init
      concurrentRetry s ∧ AllReturned "key-1" "ext-1" s ∧ s.calls[1]? = some call ∧
      call.pc = .returned (.error (.insertSignalMessage "ext-1" (.rejected .externalId))) ∧
      ¬ Deduplicated "key-1" "ext-1" s := by
  refine ⟨_, _, runOf_of_execOf rfl, of_decide_eq_true rfl, rfl, rfl, ?_⟩
  rintro ⟨r, _, _, _, hcalls⟩
  obtain ⟨b, hb⟩ := hcalls _ (List.mem_cons_of_mem _ List.mem_cons_self) ⟨rfl, rfl⟩
  cases hb

end Signalium
