import Signalium.Delivery.Attachments

/-!
# Requests and their contexts

A call of `Enqueue` runs under the context of its request, which is done when the
client goes away or its deadline passes.  `Put`, `Remove` and `Insert` are called
under it, those of the rollback included: under a context that is done they fail
without effect.  While the context is live `Remove` succeeds, also on a key that is
not there; `Put` and `Insert` may still fail.

A step is a step of `Pipeline` that the contexts allow, or the end of a context.
`StoreMove` says what a step of a call does to the objects.
-/

namespace Signalium

open Runs Tables

/-! ## The system -/

/-- What a step of a call puts. -/
def EnqueueCall.puts (svc : ServiceConfig) (call : EnqueueCall) : EnqueueAct → List Attachment
  | .next false =>
      match call.pc with
      | .uploading id (.part p :: _) _ => if p.name = "" then [] else [p.ref svc id]
      | _ => []
  | _ => []

/-- What a step puts, and for which call. -/
def Pipeline.puts (svc : ServiceConfig) (s : Pipeline) : PipelineLabel → List (Nat × Attachment)
  | .intake (.enqueue k act) => (s.calls[k]?.elim [] fun call => call.puts svc act).map (k, ·)
  | _ => []

/-- The calls, the workers, and the contexts of the calls. -/
structure Requests where
  pipe : Pipeline
  /-- The calls whose context is done. -/
  cancelled : List Nat
  /-- History: what was put, and by which call. -/
  puts : List (Nat × Attachment)

def Requests.init : Requests := ⟨Pipeline.init, [], []⟩

inductive RequestLabel where
  | pipe (a : PipelineLabel)
  /-- The context of a call is done. -/
  | cancel (k : Nat)

/-- The outcome of a call of the store or the database agrees with the context. -/
def Requests.Allows (s : Requests) : PipelineLabel → Prop
  | .intake (.enqueue k (.next putFails)) => k ∈ s.cancelled → putFails = true
  | .intake (.enqueue k (.remove fails)) => fails = true ↔ k ∈ s.cancelled
  | .intake (.enqueue k (.insert _ reply)) => k ∈ s.cancelled → reply = .unreached
  | _ => True

instance (s : Requests) : (a : PipelineLabel) → Decidable (s.Allows a)
  | .intake (.enqueue k (.next _)) => inferInstanceAs (Decidable (k ∈ s.cancelled → _))
  | .intake (.enqueue _ (.remove _)) => inferInstanceAs (Decidable (_ ↔ _))
  | .intake (.enqueue k (.insert _ _)) => inferInstanceAs (Decidable (k ∈ s.cancelled → _))
  | .intake (.enqueue _ (.lookup _ _)) | .intake (.advance _) | .intake (.request _ _)
  | .outbox _ => .isTrue trivial

/-- One step. -/
def Requests.step (svc : ServiceConfig) (cfg : WorkerConfig) (s : Requests) :
    RequestLabel → Option Requests
  | .cancel k =>
      if k < s.pipe.calls.length then some { s with cancelled := k :: s.cancelled } else none
  | .pipe a =>
      if s.Allows a then
        (s.pipe.step svc cfg a).map fun p =>
          { s with pipe := p, puts := s.puts ++ s.pipe.puts svc a }
      else none

variable {svc : ServiceConfig} {cfg : WorkerConfig} {s s' : Requests} {a : RequestLabel}
  {k : Nat} {call call' : EnqueueCall} {act : EnqueueAct} {o : Objects} {t : Messages}
  {pc : EnqueuePc}

/-- What a step can do. -/
inductive RequestMove (svc : ServiceConfig) (cfg : WorkerConfig) (s : Requests) :
    RequestLabel → Requests → Prop where
  | cancel {k : Nat} : RequestMove svc cfg s (.cancel k) { s with cancelled := k :: s.cancelled }
  | pipe {b : PipelineLabel} {p : Pipeline} : s.Allows b → s.pipe.step svc cfg b = some p →
      RequestMove svc cfg s (.pipe b) { s with pipe := p, puts := s.puts ++ s.pipe.puts svc b }

theorem Requests.step_move (h : s.step svc cfg a = some s') : RequestMove svc cfg s a s' := by
  cases a with
  | cancel k =>
      simp only [Requests.step] at h
      split at h
      · cases h
        exact .cancel
      · cases h
  | pipe b =>
      simp only [Requests.step] at h
      split at h
      · next hallow =>
          obtain ⟨p, hp, rfl⟩ := Option.map_eq_some_iff.mp h
          exact .pipe hallow hp
      · cases h

/-! ## The objects -/

/-- What the call has uploaded and has not removed or handed over. -/
def EnqueuePc.refs : EnqueuePc → List Attachment
  | .uploading _ _ done => done
  | .inserting _ refs => refs
  | .rollingBack refs _ => refs
  | _ => []

theorem rollback_refs (refs : List Attachment) (e : ServiceError) :
    (rollback refs e).refs = refs := by
  cases refs <;> rfl

/-- What a step of a call does to the objects and to its list of uploads: nothing,
or it puts one, or it removes one. -/
inductive StoreMove (svc : ServiceConfig) (o : Objects) (call : EnqueueCall) :
    EnqueueAct → Objects → EnqueuePc → Prop where
  | keep {act : EnqueueAct} {pc : EnqueuePc} : call.puts svc act = [] →
      pc.refs = call.pc.refs ∨ (∃ res, pc = .returned (.ok res)) →
      (∀ fails, act ≠ .remove fails) → StoreMove svc o call act o pc
  | put {ref : Attachment} {x : Object} {pc : EnqueuePc} : call.puts svc (.next false) = [ref] →
      pc.refs = call.pc.refs ++ [ref] → pc.failed = false →
      StoreMove svc o call (.next false) (o.put ref.bucket ref.filename x) pc
  | remove {ref : Attachment} {fails : Bool} {pc : EnqueuePc} :
      call.puts svc (.remove fails) = [] → call.pc.refs = ref :: pc.refs →
      StoreMove svc o call (.remove fails) (if fails then o else o.remove ref.bucket ref.filename)
        pc

/-- Only a `Put` that succeeds makes an entry. -/
theorem EnqueueCall.puts_eq_nil (h : ∀ id p rest done,
    call.pc = .uploading id (.part p :: rest) done → act = .next false → p.name = "") :
    call.puts svc act = [] := by
  unfold EnqueueCall.puts
  split
  · split
    · next hpc => exact if_pos (h _ _ _ _ hpc rfl)
    · rfl
  · rfl

theorem EnqueueCall.puts_eq_ref {id : UUID} {p : AttachmentPart} {rest : List PartRead}
    {done : List Attachment} (hpc : call.pc = .uploading id (.part p :: rest) done)
    (hname : p.name ≠ "") : call.puts svc (.next false) = [p.ref svc id] := by
  simp only [EnqueueCall.puts, hpc]
  exact if_neg hname

theorem EnqueueMove.storeMove {i : Intake} (h : EnqueueMove svc i call act o t pc) :
    StoreMove svc i.objects call act o pc := by
  cases h with
  | put hpc hname => exact .put (EnqueueCall.puts_eq_ref hpc hname) (by rw [hpc]; rfl) rfl
  | remove hpc => exact .remove rfl (by rw [hpc, rollback_refs]; rfl)
  | hit => exact .keep rfl (Or.inr ⟨_, rfl⟩) nofun
  | inserted => exact .keep rfl (Or.inr ⟨_, rfl⟩) nofun
  | invalid hpc | keyless hpc | lookupFailed hpc | miss hpc =>
      exact .keep rfl (Or.inl (by rw [hpc]; rfl)) nofun
  | unreached hpc | insertRejected hpc | insertLost hpc =>
      exact .keep rfl (Or.inl (by rw [hpc, rollback_refs]; rfl)) nofun
  | uploaded hpc | readEOF hpc =>
      refine .keep (EnqueueCall.puts_eq_nil fun _ _ _ _ h => ?_) (Or.inl (by rw [hpc]; rfl)) nofun
      cases hpc.symm.trans h
  | readFailed hpc =>
      refine .keep (EnqueueCall.puts_eq_nil fun _ _ _ _ h => ?_)
        (Or.inl (by rw [hpc, rollback_refs]; rfl)) nofun
      cases hpc.symm.trans h
  | rejected hpc hname =>
      refine .keep (EnqueueCall.puts_eq_nil fun _ _ _ _ h _ => ?_)
        (Or.inl (by rw [hpc, rollback_refs]; rfl)) nofun
      cases hpc.symm.trans h
      exact hname
  | putFailed hpc => exact .keep rfl (Or.inl (by rw [hpc, rollback_refs]; rfl)) nofun

/-- The entry of the history that a step of a call makes. -/
theorem Pipeline.puts_enqueue {s : Pipeline} (hcall : s.calls[k]? = some call) :
    s.puts svc (.intake (.enqueue k act)) = (call.puts svc act).map (k, ·) := by
  simp only [Pipeline.puts, hcall, Option.elim_some]

/-- A step of the first call. -/
def ofCall (act : EnqueueAct) : RequestLabel := .pipe (.intake (.enqueue 0 act))

end Signalium
