import Signalium.Service.Moves
import Signalium.Worker.Steps

/-!
# From the request to the dispatch

The calls of `Enqueue` and the workers over one table and one clock.  A step is
a step of `Intake` on the part of the state that the service sees, or a step of
`Outbox` other than its `insert`: rows come from calls of `Enqueue` only.

Seen from the workers, a step of the service is an `insert`, a tick of the clock
or nothing at all (`Pipeline.refines_outbox`), so what holds along every run of
the outbox holds here.  Seen from the service, the workers leave the columns
alone that are fixed by the insert (`PipelineMove.of_row`).
-/

namespace Signalium

open Runs Tables

/-- The clock, the table and the dispatches, the objects, and the calls of
`Enqueue`. -/
structure Pipeline where
  outbox : Outbox
  objects : Objects
  calls : List EnqueueCall
  /-- History: what `uuid.New` has drawn, and for which call. -/
  drawn : List (Nat × UUID)

/-- Nothing has been sent yet. -/
def Pipeline.init : Pipeline := ⟨Outbox.init, fun _ _ => none, [], []⟩

/-- A service with the sender of `defaultConfig` and one bucket. -/
def defaultService : ServiceConfig where
  senderPhone := "+380000000000"
  bucket := "signalium-attachments"

/-- What the service sees. -/
def Pipeline.intake (s : Pipeline) : Intake :=
  ⟨s.outbox.now, s.objects, s.outbox.table, s.calls⟩

/-- A step of the service, or of the workers, the reaper and the operators. -/
inductive PipelineLabel where
  | intake (a : IntakeLabel)
  | outbox (a : Label)
deriving Repr

/-- The id a step draws with `uuid.New`. -/
def IntakeLabel.draws : IntakeLabel → List (Nat × UUID)
  | .enqueue k (.lookup id _) => [(k, id)]
  | _ => []

def Label.isInsert : Label → Bool
  | .insert _ _ => true
  | _ => false

/-- The state after a step of the service. -/
def Pipeline.withIntake (s : Pipeline) (a : IntakeLabel) (i : Intake) : Pipeline where
  outbox := { s.outbox with now := i.now, table := i.table }
  objects := i.objects
  calls := i.calls
  drawn := s.drawn ++ a.draws

/-- One step. -/
def Pipeline.step (svc : ServiceConfig) (cfg : WorkerConfig) (s : Pipeline) :
    PipelineLabel → Option Pipeline
  | .intake a => (s.intake.step svc a).map (s.withIntake a)
  | .outbox a =>
      if a.isInsert then none else (s.outbox.step cfg a).map fun o => { s with outbox := o }

variable {svc : ServiceConfig} {cfg : WorkerConfig} {s s' : Pipeline} {a : PipelineLabel}
  {tr : List PipelineLabel} {r' : Row}

/-- What a step can do. -/
inductive PipelineMove (svc : ServiceConfig) (cfg : WorkerConfig) (s : Pipeline) :
    PipelineLabel → Pipeline → Prop where
  | intake {a : IntakeLabel} {i : Intake} : IntakeMove svc s.intake a i →
      PipelineMove svc cfg s (.intake a) (s.withIntake a i)
  | outbox {a : Label} {o : Outbox} : (∀ id p, a ≠ .insert id p) → s.outbox.step cfg a = some o →
      PipelineMove svc cfg s (.outbox a) { s with outbox := o }

theorem Pipeline.step_move (h : s.step svc cfg a = some s') : PipelineMove svc cfg s a s' := by
  cases a with
  | intake a =>
      obtain ⟨i, hi, rfl⟩ := Option.map_eq_some_iff.mp h
      exact .intake (Intake.step_move hi)
  | outbox a =>
      simp only [Pipeline.step] at h
      split at h
      · cases h
      · next hins =>
          obtain ⟨o, ho, rfl⟩ := Option.map_eq_some_iff.mp h
          refine .outbox ?_ ho
          rintro id p rfl
          exact hins rfl

/-! ## The table -/

/-- The table after a step of a call: the same, or with one row more, that of the
call, which then fails or returns the id of the row.  Such a step leaves the objects
alone. -/
theorem EnqueueMove.table_cases {i : Intake} {call : EnqueueCall} {act : EnqueueAct} {o : Objects}
    {t : Messages} {pc : EnqueuePc} (h : EnqueueMove svc i call act o t pc) :
    t = i.table ∨ ∃ id mid refs row, call.pc = .inserting mid refs ∧
      i.table.insert i.now id (call.m.insertParams svc i.now mid refs) = .ok (row, t) ∧
      (pc.failed = true ∨ pc = .returned (.ok { id := row.id })) ∧ o = i.objects := by
  cases h with
  | inserted hpc hins => exact Or.inr ⟨_, _, _, _, hpc, hins, Or.inr rfl, rfl⟩
  | insertLost hpc hins =>
      exact Or.inr ⟨_, _, _, _, hpc, hins, Or.inl (rollback_failed _ _), rfl⟩
  | _ => exact Or.inl rfl

/-- The step of the outbox in a step: of its own, a tick of the clock, or an `insert`. -/
theorem PipelineMove.outbox_step (h : PipelineMove svc cfg s a s') :
    s'.outbox = s.outbox ∨ ∃ b, s.outbox.step cfg b = some s'.outbox ∧
      (a = .outbox b ∨ (∃ n, b = .advance n) ∨ ∃ id p, b = .insert id p) := by
  cases h with
  | outbox _ ho => exact Or.inr ⟨_, ho, Or.inl rfl⟩
  | intake hi =>
      cases hi with
      | @advance n => exact Or.inr ⟨.advance n, rfl, Or.inr (Or.inl ⟨n, rfl⟩)⟩
      | request => exact Or.inl rfl
      | @enqueue k call act o t pc _ hm =>
          rcases hm.table_cases with rfl | ⟨id, mid, refs, row, _, hins, _⟩
          · exact Or.inl rfl
          · refine Or.inr ⟨.insert id (call.m.insertParams svc s.outbox.now mid refs), ?_,
              Or.inr (Or.inr ⟨_, _, rfl⟩)⟩
            have hrun : (Stmt.insert id (call.m.insertParams svc s.outbox.now mid refs)).run
                s.outbox.now s.outbox.table = t := by
              change s.outbox.table.insert s.outbox.now id
                (call.m.insertParams svc s.outbox.now mid refs) = .ok (row, t) at hins
              simp only [Stmt.run, hins]
            simp only [Outbox.step, Outbox.dispatches?, Option.map_some, Outbox.stmt?,
              Option.elim_some, hrun, Label.elapsed, add_zero]
            rfl

/-- A step is a run of the outbox, of one step at most. -/
theorem PipelineMove.outbox_run (h : PipelineMove svc cfg s a s') :
    ∃ tr, Run (Outbox.step cfg) s.outbox tr s'.outbox := by
  rcases h.outbox_step with heq | ⟨b, hb, _⟩
  · rw [heq]
    exact ⟨[], .nil⟩
  · exact ⟨[] ++ [b], .snoc .nil trivial hb⟩

/-- The outbox of a run is one the workers can reach. -/
theorem Pipeline.refines_outbox {ok : Pipeline → PipelineLabel → Prop}
    (h : RunOf (Pipeline.step svc cfg) ok Pipeline.init tr s) :
    ∃ tr', Run (Outbox.step cfg) Outbox.init tr' s.outbox := by
  refine h.invariant (I := fun s => ∃ tr', Run (Outbox.step cfg) Outbox.init tr' s.outbox)
    ⟨[], .nil⟩ ?_
  rintro s a s' ⟨tr₁, h₁⟩ _ hs
  obtain ⟨tr₂, h₂⟩ := (Pipeline.step_move hs).outbox_run
  exact ⟨tr₁ ++ tr₂, h₁.trans h₂⟩

/-- A row after a step is an old one, with its fixed columns, or the row a call has
just inserted and fails after or answers with. -/
theorem PipelineMove.of_row (h : PipelineMove svc cfg s a s') (hr' : r' ∈ s'.outbox.table) :
    (∃ r ∈ s.outbox.table, (rowToDomain r').fixed = (rowToDomain r).fixed) ∨
      ∃ (k : Nat) (call : EnqueueCall) (id mid : UUID) (refs : List Attachment),
        s.calls[k]? = some call ∧ call.pc = .inserting mid refs ∧
        r' = (call.m.insertParams svc s.outbox.now mid refs).row s.outbox.now id ∧
        s'.objects = s.objects ∧ ∃ pc, s'.calls[k]? = some { call with pc } ∧
          (pc.failed = true ∨ pc = .returned (.ok { id := r'.id })) := by
  cases h with
  | outbox hins ho =>
      rcases Outbox.mem_step ho hr' with ⟨r, hr, rfl⟩ | ⟨id, p, ha, _⟩
      · exact Or.inl ⟨r, hr, Outbox.effect_fixed cfg _ hr⟩
      · exact absurd ha (hins id p)
  | intake hi =>
      cases hi with
      | advance => exact Or.inl ⟨r', hr', rfl⟩
      | request => exact Or.inl ⟨r', hr', rfl⟩
      | @enqueue k call act o t pc hcall hm =>
          rcases hm.table_cases with rfl | ⟨id, mid, refs, row, hpc, hins, hanswered, hobj⟩
          · exact Or.inl ⟨r', hr', rfl⟩
          · rcases (Messages.mem_insert hins).mp hr' with hold | rfl
            · exact Or.inl ⟨r', hold, rfl⟩
            · exact Or.inr ⟨k, call, id, mid, refs, hcall, hpc, (Messages.insert_eq_ok hins).1,
                hobj, pc, Places.set_self hcall, hanswered⟩

/-- A row stays, with its fixed columns. -/
theorem PipelineMove.row_stays (h : PipelineMove svc cfg s a s') {r : Row}
    (hr : r ∈ s.outbox.table) :
    ∃ r' ∈ s'.outbox.table, (rowToDomain r').fixed = (rowToDomain r).fixed := by
  cases h with
  | outbox _ ho => exact ⟨_, Outbox.effect_mem ho hr, Outbox.effect_fixed cfg _ hr⟩
  | intake hi =>
      cases hi with
      | advance => exact ⟨r, hr, rfl⟩
      | request => exact ⟨r, hr, rfl⟩
      | @enqueue k call act o t pc _ hm =>
          rcases hm.table_cases with rfl | ⟨id, mid, refs, row, _, hins, _⟩
          · exact ⟨r, hr, rfl⟩
          · exact ⟨r, (Messages.mem_insert hins).mpr (Or.inl hr), rfl⟩

/-- Calls and ids stay. -/
theorem PipelineMove.grows (h : PipelineMove svc cfg s a s') :
    s.calls.length ≤ s'.calls.length ∧ ∀ p ∈ s.drawn, p ∈ s'.drawn := by
  cases h with
  | outbox => exact ⟨le_rfl, fun _ hp => hp⟩
  | intake hi =>
      refine ⟨?_, fun _ hp => List.mem_append_left _ hp⟩
      cases hi with
      | advance => exact le_rfl
      | request => simp [Pipeline.withIntake, Pipeline.intake]
      | enqueue => simp [Pipeline.withIntake, Intake.goto, Pipeline.intake]

/-- A call stays at its place with its request. -/
theorem PipelineMove.call_stays (h : PipelineMove svc cfg s a s') {k : Nat} {call : EnqueueCall}
    (hcall : s.calls[k]? = some call) :
    ∃ call', s'.calls[k]? = some call' ∧ call'.m = call.m ∧
      (call' = call ∨ ∃ act o t, a = .intake (.enqueue k act) ∧
        EnqueueMove svc s.intake call act o t call'.pc) := by
  cases h with
  | outbox => exact ⟨call, hcall, rfl, Or.inl rfl⟩
  | intake hi =>
      obtain ⟨call', hcall', hm, hcases⟩ := hi.call_stays hcall
      refine ⟨call', hcall', hm, hcases.imp_right ?_⟩
      rintro ⟨act, o, t, rfl, hmove⟩
      exact ⟨act, o, t, rfl, hmove⟩

/-- The calls after a step. -/
theorem PipelineMove.of_call (h : PipelineMove svc cfg s a s') {k : Nat} {call' : EnqueueCall}
    (hcall' : s'.calls[k]? = some call') :
    s.calls[k]? = some call' ∨
      (∃ call act o t pc, s.calls[k]? = some call ∧ a = .intake (.enqueue k act) ∧
        EnqueueMove svc s.intake call act o t pc ∧ call' = { call with pc } ∧
        s'.outbox.table = t ∧ s'.objects = o) ∨
      ∃ m parts, call' = { m, parts, pc := .start } := by
  cases h with
  | outbox _ _ => exact Or.inl hcall'
  | intake hi =>
      cases hi with
      | advance => exact Or.inl hcall'
      | request =>
          rcases Places.of_snoc hcall' with hold | ⟨_, rfl⟩
          · exact Or.inl hold
          · exact Or.inr (Or.inr ⟨_, _, rfl⟩)
      | enqueue hcall hm =>
          rcases Places.of_set hcall' with ⟨rfl, rfl⟩ | ⟨_, hold⟩
          · exact Or.inr (Or.inl ⟨_, _, _, _, _, hcall, rfl, hm, rfl, rfl, rfl⟩)
          · exact Or.inl hold

end Signalium
