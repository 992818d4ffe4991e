import Signalium.Handler.Errors
import Signalium.Service.Moves
import Signalium.Signal.Wire

/-!
# The upload handler

`MultipartHandler` of `internal/handler/multipart.go`, with `SendMessageService`
behind it.  A request is what the parser of `mime/multipart` makes of it: an error,
or what the calls of `NextPart` return, in order; the end of the list is `io.EOF`.

`ServeHTTP` reads the first part and then calls `Enqueue`, which reads the others
through `Next` while it uploads.  Many requests are served at once: a step takes a
request up to its call of `Enqueue`, or is a step of a call, or writes the answer of
a call that has returned.
-/

namespace Signalium

open Runs

/-! ## Requests -/

/-- A part of a form. -/
structure FormPart where
  formName : String
  fileName : List UInt8
  /-- The header `Content-Type`. -/
  contentType : String
  body : List UInt8
  /-- The JSON value at the start of the body. -/
  json : Option Json

/-- What `NextPart` returns. -/
inductive PartEvent where
  | part (p : FormPart)
  /-- An error with its text, and whether `errors.Is(err, io.EOF)`. -/
  | failed (text : String) (isEOF : Bool)

/-- A request, as far as the handler reads it. -/
structure PostRequest where
  method : String
  /-- The header `Content-Type`. -/
  contentType : String
  /-- What `MultipartReader` returns: an error, or the parts. -/
  reader : Except String (List PartEvent)

/-- `CreateSignalMessageRequest`. -/
structure CreateSignalMessageRequest where
  externalId : String := ""
  idempotencyKey : Option String := none
  recipient : Option String := none
  groupId : Option String := none
  senderPhoneNumber : Option String := none
  content : String := ""
  quoteResultId : Option String := none
  timeoutSeconds : Option Int := none
  maxAttempts : Option Int := none
deriving DecidableEq, Repr

def CreateSignalMessageRequest.setMember (r : CreateSignalMessageRequest) (name : String)
    (v : Json) : Option CreateSignalMessageRequest :=
  if sameName "externalId" name then
    (v.toStringField r.externalId).map fun s => { r with externalId := s }
  else if sameName "idempotencyKey" name then
    v.toStringPtr.map fun s => { r with idempotencyKey := s }
  else if sameName "recipient" name then v.toStringPtr.map fun s => { r with recipient := s }
  else if sameName "groupId" name then v.toStringPtr.map fun s => { r with groupId := s }
  else if sameName "senderPhoneNumber" name then
    v.toStringPtr.map fun s => { r with senderPhoneNumber := s }
  else if sameName "content" name then
    (v.toStringField r.content).map fun s => { r with content := s }
  else if sameName "quoteResultId" name then
    v.toStringPtr.map fun s => { r with quoteResultId := s }
  else if sameName "timeoutSeconds" name then
    v.toIntPtr.map fun n => { r with timeoutSeconds := n }
  else if sameName "maxAttempts" name then v.toIntPtr.map fun n => { r with maxAttempts := n }
  else some r

/-- `codecs.JSON.Decode` of the metadata. -/
def FormPart.decode (p : FormPart) : Option CreateSignalMessageRequest :=
  p.json.bind (Json.toStruct CreateSignalMessageRequest.setMember {})

/-- `toCreateMessage`. -/
def toCreateMessage (r : CreateSignalMessageRequest) : CreateMessage where
  externalId := r.externalId
  idempotencyKey := r.idempotencyKey
  recipient := r.recipient
  groupId := r.groupId
  senderPhoneNumber := r.senderPhoneNumber
  content := r.content
  quoteResultId := r.quoteResultId
  timeoutSeconds := r.timeoutSeconds
  maxAttempts := r.maxAttempts

/-! ## The handler -/

/-- `WrapWithInvalidSignalMessage`. -/
def wrapInvalid (cause : GoError) (field reason : String) : GoError :=
  .conjure (.invalidSignalMessage field reason) cause

/-- `splitMetadata`: the message, and what is left of the parts. -/
def splitMetadata : List PartEvent → Except GoError (CreateMessage × List PartEvent)
  | [] => .error (wrapInvalid (.text "missing metadata part") "metadata" "missing")
  | .failed _ true :: _ =>
      .error (wrapInvalid (.text "missing metadata part") "metadata" "missing")
  | .failed text false :: _ =>
      .error (wrapInvalid (.wrap "read first part" (.text text)) "metadata" text)
  | .part first :: rest =>
      if first.formName ≠ "metadata" then
        .error (wrapInvalid (.text "metadata must be the first part") "metadata"
          "must be first part")
      else
        match first.decode with
        | none =>
            .error (wrapInvalid (.wrap "decode metadata" (.text "invalid JSON")) "metadata"
              "invalid JSON")
        | some req => .ok (toCreateMessage req, rest)

/-- `Next`, on what `NextPart` returns. -/
def PartEvent.next : PartEvent → Except GoError AttachmentPart
  | .failed _ true => .error .ioEOF
  | .failed text false =>
      .error (wrapInvalid (.wrap "next attachment part" (.text text)) "attachments" text)
  | .part p =>
      if p.formName = "attachments" then .ok ⟨p.fileName, p.contentType, p.body⟩
      else if p.formName = "metadata" then
        .error (wrapInvalid (.text "duplicate metadata part") "metadata" "duplicate")
      else .error (wrapInvalid (.text "unexpected part name") "part" p.formName)

/-- What `uploadAll` sees of it. -/
def PartEvent.read (ev : PartEvent) : PartRead :=
  match ev.next with
  | .ok p => .part p
  | .error err => .failed (err.is .ioEOF)

/-- `ServeHTTP` up to the call of `Enqueue`: the error that is written, or the
arguments of the call. -/
def PostRequest.enqueueArgs (req : PostRequest) : Except GoError (CreateMessage × List PartEvent) :=
  if req.method ≠ "POST" then
    .error (wrapInvalid (.text "method not allowed") "method" req.method)
  else
    match req.reader with
    | .error text =>
        .error (wrapInvalid (.wrap "expected multipart/form-data" (.text text)) "contentType"
          req.contentType)
    | .ok parts => splitMetadata parts

/-- What is written: 202 with an id, or a Conjure error. -/
inductive Response where
  | accepted (id : UUID)
  | failed (e : ConjureError)
deriving DecidableEq, Repr

/-- `ServeHTTP` after `Enqueue`, with the texts below its error. -/
def respond (db : String) (below : GoError) : Except ServiceError EnqueueResult → Response
  | .ok res => .accepted res.id
  | .error e => .failed (e.goError db below).mapToConjureError.writeError

theorem respond_error (db : String) (below : GoError) (e : ServiceError) :
    respond db below (.error e) = .failed e.written :=
  congrArg Response.failed (e.written_eq db below)

/-! ## The server -/

/-- A request and its answer. -/
structure Exchange where
  request : PostRequest
  /-- The place of its call of `Enqueue`. -/
  call : Option Nat
  response : Option Response

/-- The service, and the requests it was sent. -/
structure Server where
  intake : Intake
  exchanges : List Exchange

def Server.init : Server := ⟨Intake.init, []⟩

inductive ServerLabel where
  /-- `ServeHTTP` up to its call of `Enqueue`. -/
  | serve (req : PostRequest)
  | advance (d : Nat)
  /-- A step of a call of `Enqueue`. -/
  | enqueue (k : Nat) (act : EnqueueAct)
  /-- `ServeHTTP` after `Enqueue`. -/
  | answer (i : Nat) (db : String) (below : GoError)

/-- One step. -/
def Server.step (svc : ServiceConfig) (s : Server) : ServerLabel → Option Server
  | .serve req =>
      match req.enqueueArgs with
      | .error err =>
          some { s with
            exchanges := s.exchanges ++ [⟨req, none, some (.failed err.writeError)⟩] }
      | .ok (m, rest) =>
          (s.intake.step svc (.request m (rest.map PartEvent.read))).map fun i =>
            ⟨i, s.exchanges ++ [⟨req, some s.intake.calls.length, none⟩]⟩
  | .advance d => (s.intake.step svc (.advance d)).map fun i => { s with intake := i }
  | .enqueue k act => (s.intake.step svc (.enqueue k act)).map fun i => { s with intake := i }
  | .answer i db below =>
      match s.exchanges[i]? with
      | some ⟨req, some k, none⟩ =>
          match s.intake.calls[k]? with
          | some ⟨_, _, .returned r⟩ =>
              some { s with
                exchanges := s.exchanges.set i ⟨req, some k, some (respond db below r)⟩ }
          | _ => none
      | _ => none

variable {svc : ServiceConfig} {s s' : Server} {a : ServerLabel}

/-- What a step can do. -/
inductive ServerMove (svc : ServiceConfig) (s : Server) : ServerLabel → Server → Prop where
  | refuse {req : PostRequest} {err : GoError} : req.enqueueArgs = .error err →
      ServerMove svc s (.serve req) { s with
        exchanges := s.exchanges ++ [⟨req, none, some (.failed err.writeError)⟩] }
  | start {req : PostRequest} {m : CreateMessage} {rest : List PartEvent} :
      req.enqueueArgs = .ok (m, rest) →
      ServerMove svc s (.serve req)
        ⟨{ s.intake with
            calls := s.intake.calls ++ [{ m, parts := rest.map PartEvent.read, pc := .start }] },
          s.exchanges ++ [⟨req, some s.intake.calls.length, none⟩]⟩
  | advance {d : Nat} :
      ServerMove svc s (.advance d) { s with intake := { s.intake with now := s.intake.now + d } }
  | enqueue {k : Nat} {call : EnqueueCall} {act : EnqueueAct} {o : Objects} {t : Messages}
      {pc : EnqueuePc} : s.intake.calls[k]? = some call →
      EnqueueMove svc s.intake call act o t pc →
      ServerMove svc s (.enqueue k act)
        { s with intake := { s.intake.goto k call pc with objects := o, table := t } }
  | answer {i : Nat} {db : String} {below : GoError} {req : PostRequest} {k : Nat}
      {call : EnqueueCall} {r : Except ServiceError EnqueueResult} :
      s.exchanges[i]? = some ⟨req, some k, none⟩ → s.intake.calls[k]? = some call →
      call.pc = .returned r →
      ServerMove svc s (.answer i db below)
        { s with exchanges := s.exchanges.set i ⟨req, some k, some (respond db below r)⟩ }

theorem Server.step_move (h : s.step svc a = some s') : ServerMove svc s a s' := by
  cases a with
  | serve req =>
      simp only [Server.step] at h
      split at h
      · next hargs => cases h; exact .refuse hargs
      · next hargs => cases h; exact .start hargs
  | advance d => cases h; exact .advance
  | enqueue k act =>
      obtain ⟨i, hi, rfl⟩ := Option.map_eq_some_iff.mp h
      cases Intake.step_move hi with
      | enqueue hcall hm => exact .enqueue hcall hm
  | answer i db below =>
      simp only [Server.step] at h
      split at h
      · next hx =>
          split at h
          · next hcall => cases h; exact .answer hx hcall rfl
          · cases h
      · cases h

/-- The calls after a step. -/
theorem ServerMove.of_call (h : ServerMove svc s a s') {k : Nat} {call' : EnqueueCall}
    (hcall' : s'.intake.calls[k]? = some call') :
    s.intake.calls[k]? = some call' ∨
      (∃ call act o t pc, s.intake.calls[k]? = some call ∧ a = .enqueue k act ∧
        EnqueueMove svc s.intake call act o t pc ∧ call' = { call with pc } ∧
        s'.intake.table = t) ∨
      ∃ m parts, call' = { m, parts, pc := .start } := by
  cases h with
  | refuse => exact Or.inl hcall'
  | advance => exact Or.inl hcall'
  | answer => exact Or.inl hcall'
  | start =>
      rcases Places.of_snoc hcall' with hold | ⟨_, rfl⟩
      · exact Or.inl hold
      · exact Or.inr (Or.inr ⟨_, _, rfl⟩)
  | enqueue hcall hm =>
      rcases Places.of_set hcall' with ⟨rfl, rfl⟩ | ⟨_, hold⟩
      · exact Or.inr (Or.inl ⟨_, _, _, _, _, hcall, rfl, hm, rfl, rfl⟩)
      · exact Or.inl hold

/-- A call stays at its place with its request and what it has returned. -/
theorem ServerMove.call_stays (h : ServerMove svc s a s') {k : Nat} {call : EnqueueCall}
    (hcall : s.intake.calls[k]? = some call) :
    ∃ call', s'.intake.calls[k]? = some call' ∧ call'.m = call.m ∧ call'.parts = call.parts ∧
      ∀ r, call.pc = .returned r → call'.pc = .returned r := by
  cases h with
  | refuse => exact ⟨call, hcall, rfl, rfl, fun _ hr => hr⟩
  | advance => exact ⟨call, hcall, rfl, rfl, fun _ hr => hr⟩
  | answer => exact ⟨call, hcall, rfl, rfl, fun _ hr => hr⟩
  | start => exact ⟨call, Places.snoc_of hcall, rfl, rfl, fun _ hr => hr⟩
  | @enqueue j call₀ act o t pc hcall₀ hm =>
      by_cases hkj : k = j
      · subst hkj
        cases hcall₀.symm.trans hcall
        exact ⟨_, Places.set_self hcall, rfl, rfl, fun r hr => absurd hr (hm.not_returned r)⟩
      · exact ⟨call, (Places.set_ne hkj).trans hcall, rfl, rfl, fun _ hr => hr⟩

end Signalium
