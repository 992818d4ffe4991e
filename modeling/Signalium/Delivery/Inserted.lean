import Signalium.Delivery.Pipeline

/-!
# Rows and their calls

Every row of the table was inserted by a call of `Enqueue`, which has failed since or
has returned its id, and has the columns of the request of that call
(`InsertInv.rows`).  Every id that was returned for a new message names such a row
(`InsertInv.accepted`).
-/

namespace Signalium

open Runs Tables

variable {svc : ServiceConfig} {cfg : WorkerConfig} {s s' : Pipeline} {a : PipelineLabel}
  {tr : List PipelineLabel} {k : Nat} {call : EnqueueCall} {mid : UUID} {r r' : Row}

/-- The call at place `k` has inserted the row.  `mid` is what it has drawn with
`uuid.New`. -/
structure InsertedBy (svc : ServiceConfig) (s : Pipeline) (k : Nat) (call : EnqueueCall)
    (mid : UUID) (r : Row) : Prop where
  place : s.calls[k]? = some call
  drawn : (k, mid) ∈ s.drawn
  columns : ∃ now refs, (rowToDomain r).fixed =
    (rowToDomain ((call.m.insertParams svc now mid refs).row now r.id)).fixed
  answered : call.pc.failed = true ∨ call.pc = .returned (.ok { id := r.id })

/-- A step keeps it, whatever the workers do to the row. -/
theorem InsertedBy.step (h : InsertedBy svc s k call mid r) (hm : PipelineMove svc cfg s a s')
    (hfix : (rowToDomain r').fixed = (rowToDomain r).fixed) :
    ∃ call', InsertedBy svc s' k call' mid r' := by
  obtain ⟨call', hcall', hmsg, hmove⟩ := hm.call_stays h.place
  obtain ⟨now, refs, hcolumns⟩ := h.columns
  have hid : r'.id = r.id := SignalMessage.id_eq_of_fixed hfix
  refine ⟨call', hcall', hm.grows.2 _ h.drawn, ⟨now, refs, ?_⟩, ?_⟩
  · rw [hmsg, hid]
    exact hfix.trans hcolumns
  · rw [hid]
    rcases hmove with rfl | ⟨act, o, t, _, hmove⟩
    · exact h.answered
    · rcases h.answered with hfailed | hret
      · exact Or.inl (hmove.failed hfailed)
      · exact absurd hret (hmove.not_returned _)

/-- The id a call has drawn and works with. -/
def EnqueuePc.id? : EnqueuePc → Option UUID
  | .uploading id _ _ | .inserting id _ => some id
  | _ => none

theorem rollback_id? (refs : List Attachment) (e : ServiceError) :
    (rollback refs e).id? = none := by
  cases refs <;> rfl

/-- A call that works with an id has drawn it, now or before. -/
theorem EnqueueMove.id_drawn {i : Intake} {act : EnqueueAct} {o : Objects} {t : Messages}
    {pc : EnqueuePc} (h : EnqueueMove svc i call act o t pc) {id : UUID} (hid : pc.id? = some id) :
    call.pc.id? = some id ∨ (k, id) ∈ (IntakeLabel.enqueue k act).draws := by
  cases h with
  | keyless | miss =>
      cases hid
      exact Or.inr (List.mem_singleton_self _)
  | uploaded hpc | readEOF hpc | put hpc =>
      rw [hpc]
      exact Or.inl hid
  | invalid | lookupFailed | hit | inserted => cases hid
  | _ =>
      rw [rollback_id?] at hid
      cases hid

theorem PipelineMove.draws {b : IntakeLabel} (h : PipelineMove svc cfg s (.intake b) s')
    {p : Nat × UUID} (hp : p ∈ b.draws) : p ∈ s'.drawn := by
  cases h with
  | intake => exact List.mem_append_right _ hp

/-- Every row has its call, and every new message that was accepted its row. -/
structure InsertInv (svc : ServiceConfig) (s : Pipeline) : Prop where
  drawn : ∀ (k : Nat) (call : EnqueueCall), s.calls[k]? = some call →
    ∀ id, call.pc.id? = some id → (k, id) ∈ s.drawn
  rows : ∀ r ∈ s.outbox.table, ∃ k call mid, InsertedBy svc s k call mid r
  accepted : ∀ (k : Nat) (call : EnqueueCall) (rid : UUID), s.calls[k]? = some call →
    call.pc = .returned (.ok { id := rid }) →
    ∃ r ∈ s.outbox.table, r.id = rid ∧ ∃ mid, InsertedBy svc s k call mid r

theorem insertInv_init : InsertInv svc Pipeline.init where
  drawn := by intro k call hcall; cases hcall
  rows := by intro r hr; cases hr
  accepted := by intro k call rid hcall; cases hcall

/-- The row that a call inserts is its row. -/
theorem InsertInv.inserted (h : InsertInv svc s) (hm : PipelineMove svc cfg s a s')
    {refs : List Attachment} {pc : EnqueuePc} (hcall : s.calls[k]? = some call)
    (hpc : call.pc = .inserting mid refs) (hcall' : s'.calls[k]? = some { call with pc })
    {now : Int} {id : UUID} (hrow : r = (call.m.insertParams svc now mid refs).row now id)
    (hanswered : pc.failed = true ∨ pc = .returned (.ok { id := r.id })) :
    InsertedBy svc s' k { call with pc } mid r where
  place := hcall'
  drawn := hm.grows.2 _ (h.drawn k call hcall mid (by rw [hpc]; rfl))
  columns := ⟨now, refs, by rw [hrow]; rfl⟩
  answered := hanswered

theorem InsertInv.step (h : InsertInv svc s) (hs : s.step svc cfg a = some s') :
    InsertInv svc s' := by
  have hm := Pipeline.step_move hs
  constructor
  case drawn =>
    intro k call' hcall' id hid
    rcases hm.of_call hcall' with hold | ⟨call, act, o, t, pc, hcall, rfl, hmove, rfl, _⟩ |
      ⟨m, parts, rfl⟩
    · exact hm.grows.2 _ (h.drawn k call' hold id hid)
    · rcases hmove.id_drawn (k := k) hid with hold | hnew
      · exact hm.grows.2 _ (h.drawn k call hcall id hold)
      · exact hm.draws hnew
    · cases hid
  case rows =>
    intro r' hr'
    rcases hm.of_row hr' with ⟨r, hr, hfix⟩ |
      ⟨k, call, id, mid, refs, hcall, hpc, hrow, _, pc, hcall', hanswered⟩
    · obtain ⟨k, call, mid, hby⟩ := h.rows r hr
      obtain ⟨call', hby'⟩ := hby.step hm hfix
      exact ⟨k, call', mid, hby'⟩
    · exact ⟨k, _, mid, h.inserted hm hcall hpc hcall' hrow hanswered⟩
  case accepted =>
    intro k call' rid hcall' hret
    rcases hm.of_call hcall' with hold | ⟨call, act, o, t, pc, hcall, rfl, hmove, rfl, htable, _⟩ |
      ⟨m, parts, rfl⟩
    · obtain ⟨r, hr, hid, mid, hby⟩ := h.accepted k call' rid hold hret
      obtain ⟨r', hr', hfix⟩ := hm.row_stays hr
      obtain ⟨call'', hby'⟩ := hby.step hm hfix
      cases hcall'.symm.trans hby'.place
      exact ⟨r', hr', (SignalMessage.id_eq_of_fixed hfix).trans hid, mid, hby'⟩
    · rcases hmove.returned_ok hret with ⟨_, _, _, _, _, _, _, _, hres⟩ |
        ⟨iid, mid, refs, row, _, hpc, hins, hres⟩
      · cases hres
      · cases hres
        exact ⟨row, htable ▸ (Messages.mem_insert hins).mpr (Or.inr rfl), rfl, mid,
          h.inserted hm hcall hpc hcall' (Messages.insert_eq_ok hins).1 (Or.inr hret)⟩
    · cases hret

/-- Along any run. -/
theorem Pipeline.insertInv {ok : Pipeline → PipelineLabel → Prop}
    (hr : RunOf (Pipeline.step svc cfg) ok Pipeline.init tr s) : InsertInv svc s :=
  hr.invariant insertInv_init fun _ _ _ h _ hs => h.step hs

end Signalium
