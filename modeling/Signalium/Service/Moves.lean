import Signalium.Lib.Places
import Signalium.Service.Enqueue

/-!
# What a step of Enqueue does

The inversion of `Intake.step`.  A step of a call moves the call on and may
change the objects or the table, and nothing else (`EnqueueMove`).
-/

namespace Signalium

variable {cfg : ServiceConfig} {s s' : Intake} {k : Nat} {call call' : EnqueueCall}

/-- What a step of a call can do: the objects, the table and the place of the
call after it. -/
inductive EnqueueMove (cfg : ServiceConfig) (s : Intake) (call : EnqueueCall) :
    EnqueueAct → Objects → Messages → EnqueuePc → Prop where
  | invalid {id : UUID} {fails : Bool} {e : ServiceError} : call.pc = .start →
      call.m.validate cfg = some e →
      EnqueueMove cfg s call (.lookup id fails) s.objects s.table (.returned (.error e))
  | keyless {id : UUID} {fails : Bool} : call.pc = .start → call.m.validate cfg = none →
      nonEmpty? call.m.idempotencyKey = none →
      EnqueueMove cfg s call (.lookup id fails) s.objects s.table (.uploading id call.parts [])
  | lookupFailed {id : UUID} {key : String} : call.pc = .start → call.m.validate cfg = none →
      nonEmpty? call.m.idempotencyKey = some key →
      EnqueueMove cfg s call (.lookup id true) s.objects s.table
        (.returned (.error .idempotencyLookup))
  | hit {id : UUID} {key : String} {r : Row} : call.pc = .start → call.m.validate cfg = none →
      nonEmpty? call.m.idempotencyKey = some key → s.table.getByIdempotencyKey key = some r →
      EnqueueMove cfg s call (.lookup id false) s.objects s.table
        (.returned (.ok { id := r.id, idempotent := true }))
  | miss {id : UUID} {key : String} : call.pc = .start → call.m.validate cfg = none →
      nonEmpty? call.m.idempotencyKey = some key → s.table.getByIdempotencyKey key = none →
      EnqueueMove cfg s call (.lookup id false) s.objects s.table (.uploading id call.parts [])
  | uploaded {id : UUID} {done : List Attachment} {fails : Bool} :
      call.pc = .uploading id [] done →
      EnqueueMove cfg s call (.next fails) s.objects s.table (.inserting id done)
  | readEOF {id : UUID} {rest : List PartRead} {done : List Attachment} {fails : Bool} :
      call.pc = .uploading id (.failed true :: rest) done →
      EnqueueMove cfg s call (.next fails) s.objects s.table (.inserting id done)
  | readFailed {id : UUID} {rest : List PartRead} {done : List Attachment} {fails : Bool} :
      call.pc = .uploading id (.failed false :: rest) done →
      EnqueueMove cfg s call (.next fails) s.objects s.table
        (rollback done (.attachmentUploadFailed ""))
  | rejected {id : UUID} {p : AttachmentPart} {rest : List PartRead} {done : List Attachment}
      {fails : Bool} : call.pc = .uploading id (.part p :: rest) done →
      sanitizeFilename p.filename = "" →
      EnqueueMove cfg s call (.next fails) s.objects s.table
        (rollback done (.invalid "attachments" "rejected attachment with empty filename"))
  | putFailed {id : UUID} {p : AttachmentPart} {rest : List PartRead} {done : List Attachment} :
      call.pc = .uploading id (.part p :: rest) done → sanitizeFilename p.filename ≠ "" →
      EnqueueMove cfg s call (.next true) s.objects s.table
        (rollback done (.attachmentUploadFailed (sanitizeFilename p.filename)))
  | put {id : UUID} {p : AttachmentPart} {rest : List PartRead} {done : List Attachment} :
      call.pc = .uploading id (.part p :: rest) done → sanitizeFilename p.filename ≠ "" →
      EnqueueMove cfg s call (.next false)
        (s.objects.put cfg.bucket (id ++ "/" ++ sanitizeFilename p.filename)
          ⟨p.body, p.contentType⟩)
        s.table
        (.uploading id rest (done ++ [{
          bucket := cfg.bucket
          filename := id ++ "/" ++ sanitizeFilename p.filename
          mimeType := p.contentType }]))
  | remove {ref : Attachment} {refs : List Attachment} {e : ServiceError} {fails : Bool} :
      call.pc = .rollingBack (ref :: refs) e →
      EnqueueMove cfg s call (.remove fails)
        (if fails then s.objects else s.objects.remove ref.bucket ref.filename) s.table
        (rollback refs e)
  | unreached {id mid : UUID} {refs : List Attachment} : call.pc = .inserting mid refs →
      EnqueueMove cfg s call (.insert id .unreached) s.objects s.table
        (rollback refs (.insertSignalMessage call.m.externalId .noReply))
  | insertRejected {id mid : UUID} {refs : List Attachment} {reply : DbReply} {e : InsertError} :
      call.pc = .inserting mid refs → reply ≠ .unreached →
      s.table.insert s.now id (call.m.insertParams cfg s.now mid refs) = .error e →
      EnqueueMove cfg s call (.insert id reply) s.objects s.table
        (rollback refs (.insertSignalMessage call.m.externalId (.rejected e)))
  | inserted {id mid : UUID} {refs : List Attachment} {row : Row} {t : Messages} :
      call.pc = .inserting mid refs →
      s.table.insert s.now id (call.m.insertParams cfg s.now mid refs) = .ok (row, t) →
      EnqueueMove cfg s call (.insert id .committed) s.objects t (.returned (.ok { id := row.id }))
  | insertLost {id mid : UUID} {refs : List Attachment} {row : Row} {t : Messages} :
      call.pc = .inserting mid refs →
      s.table.insert s.now id (call.m.insertParams cfg s.now mid refs) = .ok (row, t) →
      EnqueueMove cfg s call (.insert id .ackLost) s.objects t
        (rollback refs (.insertSignalMessage call.m.externalId .noReply))

theorem EnqueueCall.lookup_move {id : UUID} {fails : Bool} (hpc : call.pc = .start) :
    EnqueueMove cfg s call (.lookup id fails) s.objects s.table
      (call.lookup cfg s.table id fails) := by
  unfold EnqueueCall.lookup
  cases hv : call.m.validate cfg with
  | some e => exact .invalid hpc hv
  | none =>
      cases hk : nonEmpty? call.m.idempotencyKey with
      | none => exact .keyless hpc hv hk
      | some key =>
          cases fails with
          | true => exact .lookupFailed hpc hv hk
          | false =>
              cases hr : s.table.getByIdempotencyKey key with
              | some r => simpa [hr] using EnqueueMove.hit hpc hv hk hr
              | none => simpa [hr] using EnqueueMove.miss hpc hv hk hr

theorem Intake.next_move {fails : Bool} (h : s.next cfg k call fails = some s') :
    ∃ o t pc, EnqueueMove cfg s call (.next fails) o t pc ∧
      s' = { s.goto k call pc with objects := o, table := t } := by
  unfold Intake.next at h
  split at h
  · next hpc => cases h; exact ⟨_, _, _, .uploaded hpc, rfl⟩
  · next isEOF rest done hpc =>
      cases isEOF with
      | true => cases h; exact ⟨_, _, _, .readEOF hpc, rfl⟩
      | false => cases h; exact ⟨_, _, _, .readFailed hpc, rfl⟩
  · next p rest done hpc =>
      by_cases hf : sanitizeFilename p.filename = ""
      · rw [if_pos hf] at h
        cases h
        exact ⟨_, _, _, .rejected hpc hf, rfl⟩
      · rw [if_neg hf] at h
        cases fails with
        | true => cases h; exact ⟨_, _, _, .putFailed hpc hf, rfl⟩
        | false => cases h; exact ⟨_, _, _, .put hpc hf, rfl⟩
  · cases h

theorem Intake.insert_move {id : UUID} {reply : DbReply}
    (h : s.insert cfg k call id reply = some s') :
    ∃ o t pc, EnqueueMove cfg s call (.insert id reply) o t pc ∧
      s' = { s.goto k call pc with objects := o, table := t } := by
  unfold Intake.insert at h
  split at h
  · next mid refs hpc =>
      by_cases hu : reply = .unreached
      · subst hu
        cases h
        exact ⟨_, _, _, .unreached hpc, rfl⟩
      · simp only [if_neg hu] at h
        split at h
        · next e he => cases h; exact ⟨_, _, _, .insertRejected hpc hu he, rfl⟩
        · next row t ht =>
            cases reply with
            | committed => cases h; exact ⟨_, _, _, .inserted hpc ht, rfl⟩
            | ackLost => cases h; exact ⟨_, _, _, .insertLost hpc ht, rfl⟩
            | unreached => exact absurd rfl hu
  · cases h

/-! ## The place of a call -/

/-- The call has failed. -/
def EnqueuePc.failed : EnqueuePc → Bool
  | .rollingBack _ _ | .returned (.error _) => true
  | _ => false

theorem rollback_failed (refs : List Attachment) (e : ServiceError) :
    (rollback refs e).failed = true := by
  cases refs <;> rfl

theorem rollback_ne {refs : List Attachment} {e : ServiceError} {pc : EnqueuePc}
    (h : pc.failed = false) : rollback refs e ≠ pc := by
  rintro rfl
  rw [rollback_failed] at h
  cases h

section Place

variable {act : EnqueueAct} {o : Objects} {t : Messages} {pc : EnqueuePc}

/-- A call returns an id from its lookup or from its insert. -/
theorem EnqueueMove.returned_ok (h : EnqueueMove cfg s call act o t pc) {res : EnqueueResult}
    (hpc : pc = .returned (.ok res)) :
    (∃ mid key r, act = .lookup mid false ∧ call.m.validate cfg = none ∧
      nonEmpty? call.m.idempotencyKey = some key ∧ s.table.getByIdempotencyKey key = some r ∧
      t = s.table ∧ res = ⟨r.id, true⟩) ∨
    ∃ iid mid refs row, act = .insert iid .committed ∧ call.pc = .inserting mid refs ∧
      s.table.insert s.now iid (call.m.insertParams cfg s.now mid refs) = .ok (row, t) ∧
      res = ⟨row.id, false⟩ := by
  cases h with
  | hit _ hv hk hr => cases hpc; exact Or.inl ⟨_, _, _, rfl, hv, hk, hr, rfl, rfl⟩
  | inserted hins hrow => cases hpc; exact Or.inr ⟨_, _, _, _, rfl, hins, hrow, rfl⟩
  | invalid => cases hpc
  | keyless => cases hpc
  | lookupFailed => cases hpc
  | miss => cases hpc
  | uploaded => cases hpc
  | readEOF => cases hpc
  | put => cases hpc
  | _ => exact absurd hpc (rollback_ne rfl)

/-- What is left to upload was left before, or is all of the request. -/
theorem EnqueueMove.uploading (h : EnqueueMove cfg s call act o t pc) {id : UUID}
    {rest : List PartRead} {done : List Attachment} (hpc : pc = .uploading id rest done) :
    rest = call.parts ∨ ∃ x done', call.pc = .uploading id (x :: rest) done' := by
  cases h with
  | keyless => cases hpc; exact Or.inl rfl
  | miss => cases hpc; exact Or.inl rfl
  | put hup => cases hpc; exact Or.inr ⟨_, _, hup⟩
  | invalid => cases hpc
  | lookupFailed => cases hpc
  | hit => cases hpc
  | uploaded => cases hpc
  | readEOF => cases hpc
  | inserted => cases hpc
  | _ => exact absurd hpc (rollback_ne rfl)

/-- A call that has returned takes no step. -/
theorem EnqueueMove.not_returned (h : EnqueueMove cfg s call act o t pc)
    (r : Except ServiceError EnqueueResult) : call.pc ≠ .returned r := by
  intro hr
  cases h <;> simp_all

/-- A call that has failed stays failed. -/
theorem EnqueueMove.failed (h : EnqueueMove cfg s call act o t pc)
    (hf : call.pc.failed = true) : pc.failed = true := by
  cases h with
  | remove => exact rollback_failed _ _
  | _ hpc => rw [hpc] at hf; cases hf

end Place

/-! ## Steps of the intake -/

/-- What a step of the intake can do. -/
inductive IntakeMove (cfg : ServiceConfig) (s : Intake) : IntakeLabel → Intake → Prop where
  | advance {d : Nat} : IntakeMove cfg s (.advance d) { s with now := s.now + d }
  | request {m : CreateMessage} {parts : List PartRead} :
      IntakeMove cfg s (.request m parts)
        { s with calls := s.calls ++ [{ m, parts, pc := .start }] }
  | enqueue {k : Nat} {call : EnqueueCall} {a : EnqueueAct} {o : Objects} {t : Messages}
      {pc : EnqueuePc} : s.calls[k]? = some call → EnqueueMove cfg s call a o t pc →
      IntakeMove cfg s (.enqueue k a) { s.goto k call pc with objects := o, table := t }

theorem Intake.step_move {a : IntakeLabel} (h : s.step cfg a = some s') :
    IntakeMove cfg s a s' := by
  cases a with
  | advance d => cases h; exact .advance
  | request m parts => cases h; exact .request
  | enqueue k a =>
      obtain ⟨call, hcall, hstep⟩ := Option.bind_eq_some_iff.mp h
      have hmove : ∃ o t pc, EnqueueMove cfg s call a o t pc ∧
          s' = { s.goto k call pc with objects := o, table := t } := by
        cases a with
        | lookup id fails =>
            simp only [Intake.enqueueStep] at hstep
            split at hstep
            · next hpc => cases hstep; exact ⟨_, _, _, EnqueueCall.lookup_move hpc, rfl⟩
            · cases hstep
        | next fails => exact Intake.next_move hstep
        | remove fails =>
            simp only [Intake.enqueueStep] at hstep
            split at hstep
            · next ref refs e hpc => cases hstep; exact ⟨_, _, _, .remove hpc, rfl⟩
            · cases hstep
        | insert id reply => exact Intake.insert_move hstep
      obtain ⟨o, t, pc, hm, rfl⟩ := hmove
      exact .enqueue hcall hm

/-- The calls after a step. -/
theorem IntakeMove.of_call {a : IntakeLabel} (h : IntakeMove cfg s a s')
    (hcall' : s'.calls[k]? = some call') :
    s.calls[k]? = some call' ∨
      (∃ call act o t pc, s.calls[k]? = some call ∧ a = .enqueue k act ∧
        EnqueueMove cfg s call act o t pc ∧ call' = { call with pc } ∧ s'.table = t) ∨
      ∃ m parts, a = .request m parts ∧ call' = { m, parts, pc := .start } := by
  cases h with
  | advance => exact Or.inl hcall'
  | request =>
      rcases Places.of_snoc hcall' with hold | ⟨_, rfl⟩
      · exact Or.inl hold
      · exact Or.inr (Or.inr ⟨_, _, rfl, rfl⟩)
  | enqueue hcall hm =>
      rcases Places.of_set hcall' with ⟨rfl, rfl⟩ | ⟨_, hold⟩
      · exact Or.inr (Or.inl ⟨_, _, _, _, _, hcall, rfl, hm, rfl, rfl⟩)
      · exact Or.inl hold

/-- A call that has begun stays at its place with its request. -/
theorem IntakeMove.call_stays {a : IntakeLabel} (h : IntakeMove cfg s a s')
    (hcall : s.calls[k]? = some call) :
    ∃ call', s'.calls[k]? = some call' ∧ call'.m = call.m ∧
      (call' = call ∨ ∃ act o t, a = .enqueue k act ∧ EnqueueMove cfg s call act o t call'.pc) := by
  cases h with
  | advance => exact ⟨call, hcall, rfl, Or.inl rfl⟩
  | request => exact ⟨call, Places.snoc_of hcall, rfl, Or.inl rfl⟩
  | @enqueue j call₀ act o t pc hcall₀ hm =>
      by_cases hkj : k = j
      · subst hkj
        rw [hcall] at hcall₀
        cases hcall₀
        exact ⟨_, Places.set_self hcall, rfl, Or.inr ⟨act, o, t, rfl, hm⟩⟩
      · refine ⟨call, ?_, rfl, Or.inl rfl⟩
        show (s.calls.set j _)[k]? = some call
        rw [Places.set_ne hkj, hcall]

end Signalium
