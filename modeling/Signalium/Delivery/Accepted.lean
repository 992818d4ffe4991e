import Signalium.Delivery.Pipeline
import Signalium.Handler.Errors

/-!
# The id of an accepted message

`Enqueue` answers with the id of a row: of the row it has inserted, or of the row
that has the idempotency key of the request.  The second row is found by its key
alone.  `domain.ErrIdempotencyConflict` is there for a key that is in use under
another external id, and `mapToConjureError` knows it, but no code returns it
(`ServiceError.written_ne_conflict`).

So the answer is the caller's own message as long as no key is used under two
external ids (`accepted_own_iff`), and a second use is answered with the id of
another message (`reusedKey_accepted`).
-/

namespace Signalium

open Runs Tables

variable {svc : ServiceConfig} {cfg : WorkerConfig} {s s' : Pipeline} {a : PipelineLabel}
  {tr : List PipelineLabel}

/-- The request is valid, and the table has its idempotency key under another
external id. -/
def CreateMessage.Clashes (svc : ServiceConfig) (t : Messages) (m : CreateMessage) : Prop :=
  m.validate svc = none ∧ ∃ key ∈ nonEmpty? m.idempotencyKey,
    ∃ r ∈ t.getByIdempotencyKey key, r.externalId ≠ m.externalId

instance (t : Messages) (m : CreateMessage) : Decidable (m.Clashes svc t) :=
  inferInstanceAs (Decidable (_ ∧ _))

/-- The step meets the rows of the table: a lookup that is answered, or an `INSERT`
that is executed. -/
def EnqueueAct.meetsRows : EnqueueAct → Bool
  | .lookup _ fails => !fails
  | .insert _ reply => reply ≠ .unreached
  | _ => false

/-- The key of the call meets a row with another external id. -/
def MeetsClash (svc : ServiceConfig) (t : Messages) (call : EnqueueCall) (act : EnqueueAct) :
    Prop :=
  act.meetsRows = true ∧ call.m.Clashes svc t

instance (t : Messages) (call : EnqueueCall) (act : EnqueueAct) :
    Decidable (MeetsClash svc t call act) :=
  inferInstanceAs (Decidable (_ ∧ _))

/-- Every id that was returned names a row with the external id of the request. -/
def AcceptedOwn (s : Pipeline) : Prop :=
  ∀ (k : Nat) (call : EnqueueCall) (res : EnqueueResult), s.calls[k]? = some call →
    call.pc = .returned (.ok res) →
    ∃ r ∈ s.outbox.table, r.id = res.id ∧ r.externalId = call.m.externalId

/-- A call whose key meets a row with another external id leaves with the error
`IdempotencyConflict`, and writes nothing. -/
def ClashRefused (svc : ServiceConfig) (s : Pipeline) : PipelineLabel → Pipeline → Prop
  | .intake (.enqueue k act), s' =>
      ∀ call ∈ s.calls[k]?, MeetsClash svc s.outbox.table call act →
        (∃ refs e key, s'.calls[k]? = some { call with pc := rollback refs e } ∧
          e.written = .idempotencyConflict key) ∧
        s'.outbox.table = s.outbox.table ∧ s'.objects = s.objects
  | _, _ => True

/-- No key meets a row with another external id. -/
def NoClash (svc : ServiceConfig) (s : Pipeline) : PipelineLabel → Prop
  | .intake (.enqueue k act) => ∀ call ∈ s.calls[k]?, ¬ MeetsClash svc s.outbox.table call act
  | _ => True

instance (s : Pipeline) : (a : PipelineLabel) → Decidable (NoClash svc s a)
  | .intake (.enqueue k act) => inferInstanceAs (Decidable
      (∀ call ∈ s.calls[k]?, ¬ MeetsClash svc s.outbox.table call act))
  | .intake (.advance _) | .intake (.request _ _) | .outbox _ => .isTrue trivial

/-- The error is never returned, so a clash is never refused. -/
theorem clashRefused_iff : ClashRefused svc s a s' ↔ NoClash svc s a := by
  cases a with
  | outbox => exact Iff.rfl
  | intake i =>
      cases i with
      | enqueue k act =>
          refine forall₂_congr fun call _ => ⟨fun h hclash => ?_, fun h hclash => absurd hclash h⟩
          obtain ⟨⟨_, e, key, _, he⟩, _⟩ := h hclash
          exact e.written_ne_conflict key he
      | _ => exact Iff.rfl

/-- The id a call returns, where its key meets no row of another external id. -/
theorem EnqueueMove.accepted_own {i : Intake} {call : EnqueueCall} {act : EnqueueAct}
    {o : Objects} {t : Messages} {pc : EnqueuePc} {res : EnqueueResult}
    (h : EnqueueMove svc i call act o t pc) (hpc : pc = .returned (.ok res))
    (hok : ¬ MeetsClash svc i.table call act) :
    ∃ r ∈ t, r.id = res.id ∧ r.externalId = call.m.externalId := by
  rcases h.returned_ok hpc with
    ⟨_, key, r, rfl, hv, hk, hr, rfl, rfl⟩ | ⟨_, _, _, row, _, _, hins, rfl⟩
  · refine ⟨r, (Messages.getByIdempotencyKey_some hr).1, rfl, ?_⟩
    by_contra hne
    exact hok ⟨rfl, hv, key, hk, r, hr, hne⟩
  · refine ⟨row, (Messages.mem_insert hins).mpr (Or.inr rfl), rfl, ?_⟩
    rw [(Messages.insert_eq_ok hins).1]
    rfl

/-- A step that meets no clash keeps the accepted ids right. -/
theorem AcceptedOwn.step (h : AcceptedOwn s) (hok : NoClash svc s a)
    (hs : s.step svc cfg a = some s') : AcceptedOwn s' := by
  intro k call' res hcall' hpc
  have hmove := Pipeline.step_move hs
  rcases hmove.of_call hcall' with hold | ⟨call, act, o, t, pc, hcall, rfl, hm, rfl, rfl, _⟩ |
    ⟨m, parts, rfl⟩
  · obtain ⟨r, hr, hid, hext⟩ := h k call' res hold hpc
    obtain ⟨r', hr', hfix⟩ := hmove.row_stays hr
    have hid' : r'.id = r.id := SignalMessage.id_eq_of_fixed hfix
    have hext' : r'.externalId = r.externalId := by injection hfix
    exact ⟨r', hr', hid'.trans hid, hext'.trans hext⟩
  · exact hm.accepted_own hpc (hok call hcall)
  · cases hpc

theorem acceptedOwn_init : AcceptedOwn Pipeline.init := by
  intro k call res hcall
  cases hcall

/-- Along any run of requests and workers, the accepted ids are those of the callers'
messages and every clash is refused, exactly when there is no clash: when no lookup
and no `INSERT` meets the idempotency key of its request under another external
id. -/
theorem accepted_own_iff (hr : Run (Pipeline.step svc cfg) Pipeline.init tr s) :
    (Always (Pipeline.step svc cfg) Pipeline.init tr AcceptedOwn ∧
      EveryStep (Pipeline.step svc cfg) Pipeline.init tr (ClashRefused svc)) ↔
    RunOf (Pipeline.step svc cfg) (NoClash svc) Pipeline.init tr s := by
  have hiff : EveryStep (Pipeline.step svc cfg) Pipeline.init tr (ClashRefused svc) ↔
      RunOf (Pipeline.step svc cfg) (NoClash svc) Pipeline.init tr s :=
    hr.everyStep_iff (J := fun _ => True) trivial (fun _ _ _ _ _ _ => trivial)
      fun _ _ _ _ _ _ => clashRefused_iff
  constructor
  · exact fun h => hiff.mp h.2
  · intro hok
    exact ⟨hok.always acceptedOwn_init (fun _ _ _ h ha hs => h.step ha hs) fun _ h => h,
      hiff.mpr hok⟩

/-- A message of its own, under a key. -/
def keyedMessage (externalId content : String) : CreateMessage where
  externalId := externalId
  idempotencyKey := some "key-1"
  recipient := some "+380111111111"
  content := content

/-- A message is sent, and sent again under its key. -/
def retriedTrace : List PipelineLabel :=
  [.intake (.request (keyedMessage "ext-1" "hello") []), .intake (.enqueue 0 (.lookup "u-1" false)),
    .intake (.enqueue 0 (.next false)), .intake (.enqueue 0 (.insert "m-1" .committed)),
    .intake (.request (keyedMessage "ext-1" "hello") []),
    .intake (.enqueue 1 (.lookup "u-2" false))]

theorem retriedTrace_accepted :
    Always (Pipeline.step defaultService defaultConfig) Pipeline.init retriedTrace AcceptedOwn ∧
      EveryStep (Pipeline.step defaultService defaultConfig) Pipeline.init retriedTrace
        (ClashRefused defaultService) :=
  (accepted_own_iff (run_of_exec rfl)).mpr (runOf_of_execOf rfl)

/-- A message is sent, and then another one under the same key. -/
def reusedKeyTrace : List PipelineLabel :=
  [.intake (.request (keyedMessage "ext-1" "hello") []), .intake (.enqueue 0 (.lookup "u-1" false)),
    .intake (.enqueue 0 (.next false)), .intake (.enqueue 0 (.insert "m-1" .committed)),
    .intake (.request (keyedMessage "ext-2" "bye") []), .intake (.enqueue 1 (.lookup "u-2" false))]

/-- The second message is accepted with the id of the first one, and is in no
row. -/
theorem reusedKey_accepted :
    ∃ s call, Run (Pipeline.step defaultService defaultConfig) Pipeline.init reusedKeyTrace s ∧
      s.calls[1]? = some call ∧ call.m = keyedMessage "ext-2" "bye" ∧
      call.pc = .returned (.ok { id := "m-1", idempotent := true }) ∧
      (s.outbox.table.rows.map fun r => (r.id, r.externalId, r.content)) =
        [("m-1", "ext-1", "hello")] ∧
      ¬ AcceptedOwn s := by
  refine ⟨_, _, run_of_exec rfl, rfl, rfl, rfl, rfl, fun h => ?_⟩
  obtain ⟨r, hr, _, hext⟩ := h 1 _ _ rfl rfl
  cases List.mem_singleton.mp hr
  exact absurd hext (by decide)

end Signalium
