import Signalium.Lib.Runs
import Signalium.Repo.Statements
import Signalium.Service.Filename

/-!
# Enqueue

`SendMessageService.Enqueue` of `internal/service/send_message.go`, and many
calls of it over one object store and one table.  A step is one database
statement, one part of the upload, or one removal; any other call can run
between two steps.

The labels carry what the environment decides: the ids drawn by the service and
by the database, and which calls of the store and the database fail.  The parts
of a request are what its iterator returns, in order; the end of the list is
`io.EOF`.
-/

namespace Signalium

/-! ## Requests and results -/

/-- `CreateMessage`. -/
structure CreateMessage where
  externalId : String
  idempotencyKey : Option String := none
  recipient : Option String := none
  groupId : Option String := none
  senderPhoneNumber : Option String := none
  content : String
  quoteResultId : Option String := none
  timeoutSeconds : Option Int := none
  maxAttempts : Option Int := none
deriving DecidableEq, Repr

/-- `AttachmentPart`, with the bytes its reader yields. -/
structure AttachmentPart where
  filename : List UInt8
  contentType : String
  body : List UInt8
deriving DecidableEq, Repr

/-- What `Next` returns. -/
inductive PartRead where
  | part (p : AttachmentPart)
  /-- An error, and whether `errors.Is(err, io.EOF)`. -/
  | failed (isEOF : Bool)
deriving DecidableEq, Repr

/-- `EnqueueResult`. -/
structure EnqueueResult where
  id : UUID
  idempotent : Bool := false
deriving DecidableEq, Repr

/-- Why `Insert` fails. -/
inductive InsertFailure where
  | rejected (e : InsertError)
  /-- The call fails, whether or not the statement was executed. -/
  | noReply
deriving DecidableEq, Repr

/-- The errors of `Enqueue`. -/
inductive ServiceError where
  | invalid (field reason : String)
  | senderMismatch (configured requested : String)
  | attachmentUploadFailed (filename : String)
  | idempotencyLookup
  | insertSignalMessage (externalId : String) (cause : InsertFailure)
deriving DecidableEq, Repr

/-! ## Validation -/

/-- `unicode.IsSpace`. -/
def isSpace (c : Char) : Bool :=
  c ∈ ['\t', '\n', '\x0b', '\x0c', '\r', ' ', '\u0085', '\u00a0', '\u1680',
    '\u2028', '\u2029', '\u202f', '\u205f', '\u3000'] ||
    ('\u2000' ≤ c && c ≤ '\u200a')

/-- `strings.TrimSpace(s) == ""`. -/
def isBlank (s : String) : Bool := s.toList.all isSpace

/-- The settings of the service and of its object store. -/
structure ServiceConfig where
  senderPhone : String
  bucket : String
deriving DecidableEq, Repr

/-- `validate`: the first rule a request breaks. -/
def CreateMessage.validate (cfg : ServiceConfig) (m : CreateMessage) : Option ServiceError :=
  if isBlank m.externalId then some (.invalid "externalId" "must not be empty")
  else if 255 < m.externalId.utf8ByteSize then some (.invalid "externalId" "must be ≤ 255 chars")
  else if isBlank m.content then some (.invalid "content" "must not be empty")
  else if (nonEmpty? m.recipient).isSome = (nonEmpty? m.groupId).isSome then
    some (.invalid "recipient|groupId" "exactly one of recipient or groupId must be set")
  else
    match nonEmpty? m.senderPhoneNumber with
    | some requested =>
        if requested ≠ cfg.senderPhone then some (.senderMismatch cfg.senderPhone requested)
        else none
    | none => none

/-- What `validate` has found out about the content and the target. -/
theorem CreateMessage.validated {cfg : ServiceConfig} {m : CreateMessage}
    (h : m.validate cfg = none) :
    m.content ≠ "" ∧ (nonEmpty? m.recipient).isSome ≠ (nonEmpty? m.groupId).isSome := by
  unfold CreateMessage.validate at h
  split_ifs at h with _ _ hblank htarget
  refine ⟨fun hc => hblank ?_, htarget⟩
  rw [hc]
  rfl

/-! ## The row -/

/-- The conversion of a Go `int` to `int32`. -/
def toInt32 (n : Int) : Int := n.bmod (2 ^ 32)

theorem toInt32_eq_self_iff {n : Int} : toInt32 n = n ↔ -2147483648 ≤ n ∧ n ≤ 2147483647 := by
  rw [toInt32, Int.bmod_def]
  split <;> omega

/-- `time.Duration(n) * time.Second`, in `int64` nanoseconds. -/
def durationSeconds (n : Int) : Int := (n * 1000000000).bmod (2 ^ 64)

/-- The product is that of the integers, or falls short of it by centuries. -/
theorem durationSeconds_cases {n : Int} (h : 0 < n) :
    n ≤ 9223372036 ∧ durationSeconds n = n * 1000000000 ∨
      9223372036 < n ∧ durationSeconds n + 2 ^ 64 ≤ n * 1000000000 := by
  rw [durationSeconds, Int.bmod_def]
  split <;> omega

def correlationFromCtx (id : UUID) : String := id

/-- The arguments of `Insert`. -/
def CreateMessage.insertParams (cfg : ServiceConfig) (now : Int) (id : UUID)
    (attachments : List Attachment) (m : CreateMessage) : InsertParams where
  externalId := m.externalId
  idempotencyKey := m.idempotencyKey
  recipient := m.recipient
  groupId := m.groupId
  senderPhoneNumber := cfg.senderPhone
  content := m.content
  attachments := attachments
  maxAttempts :=
    match m.maxAttempts with
    | some n => if 0 < n then toInt32 n else 5
    | none => 5
  timeoutAt :=
    match m.timeoutSeconds with
    | some n => if 0 < n then some (now + durationSeconds n) else none
    | none => none
  correlationId := correlationFromCtx id

/-! ## The object store -/

/-- An object. -/
structure Object where
  body : List UInt8
  contentType : String
deriving DecidableEq, Repr

/-- The objects of the store, by bucket and key. -/
abbrev Objects := String → String → Option Object

def Objects.put (o : Objects) (bucket key : String) (x : Object) : Objects :=
  fun b k => if b = bucket ∧ k = key then some x else o b k

def Objects.remove (o : Objects) (bucket key : String) : Objects :=
  fun b k => if b = bucket ∧ k = key then none else o b k

/-! ## One call -/

/-- Where a call of `Enqueue` is. -/
inductive EnqueuePc where
  | start
  /-- In the loop of `uploadAll`. -/
  | uploading (id : UUID) (rest : List PartRead) (done : List Attachment)
  /-- In the loop of `rollback`, before `e` is returned. -/
  | rollingBack (refs : List Attachment) (e : ServiceError)
  | inserting (id : UUID) (attachments : List Attachment)
  | returned (r : Except ServiceError EnqueueResult)

/-- One call of `Enqueue`. -/
structure EnqueueCall where
  m : CreateMessage
  parts : List PartRead
  pc : EnqueuePc

/-- The loop of `rollback`. -/
def rollback : List Attachment → ServiceError → EnqueuePc
  | [], e => .returned (.error e)
  | refs, e => .rollingBack refs e

/-- After the validation and the lookup of the idempotency key. -/
def EnqueueCall.lookup (cfg : ServiceConfig) (t : Messages) (id : UUID) (fails : Bool)
    (call : EnqueueCall) : EnqueuePc :=
  match call.m.validate cfg with
  | some e => .returned (.error e)
  | none =>
      match nonEmpty? call.m.idempotencyKey with
      | none => .uploading id call.parts []
      | some key =>
          if fails then .returned (.error .idempotencyLookup)
          else
            match t.getByIdempotencyKey key with
            | some existing => .returned (.ok { id := existing.id, idempotent := true })
            | none => .uploading id call.parts []

/-- A step of a call. -/
inductive EnqueueAct where
  /-- Validation and lookup; `id` is what `uuid.New` draws. -/
  | lookup (id : UUID) (fails : Bool)
  /-- One turn of the loop in `uploadAll`. -/
  | next (putFails : Bool)
  | remove (fails : Bool)
  /-- `Insert`; `id` is what the database draws. -/
  | insert (id : UUID) (reply : DbReply)
deriving DecidableEq, Repr

/-- The calls of `Enqueue`, and what they share. -/
structure Intake where
  now : Int
  objects : Objects
  table : Messages
  calls : List EnqueueCall

/-- The state after a step of the call at place `k`. -/
def Intake.goto (s : Intake) (k : Nat) (call : EnqueueCall) (pc : EnqueuePc) : Intake :=
  { s with calls := s.calls.set k { call with pc := pc } }

/-- One turn of the loop in `uploadAll`. -/
def Intake.next (cfg : ServiceConfig) (s : Intake) (k : Nat) (call : EnqueueCall)
    (putFails : Bool) : Option Intake :=
  match call.pc with
  | .uploading id [] done => some (s.goto k call (.inserting id done))
  | .uploading id (.failed isEOF :: _) done =>
      if isEOF then some (s.goto k call (.inserting id done))
      else some (s.goto k call (rollback done (.attachmentUploadFailed "")))
  | .uploading id (.part p :: rest) done =>
      let filename := sanitizeFilename p.filename
      if filename = "" then
        some (s.goto k call
          (rollback done (.invalid "attachments" "rejected attachment with empty filename")))
      else if putFails then
        some (s.goto k call (rollback done (.attachmentUploadFailed filename)))
      else
        let key := id ++ "/" ++ filename
        let ref := { bucket := cfg.bucket, filename := key, mimeType := p.contentType }
        some { s.goto k call (.uploading id rest (done ++ [ref])) with
          objects := s.objects.put cfg.bucket key ⟨p.body, p.contentType⟩ }
  | _ => none

/-- `Insert`, and what follows it. -/
def Intake.insert (cfg : ServiceConfig) (s : Intake) (k : Nat) (call : EnqueueCall) (id : UUID)
    (reply : DbReply) : Option Intake :=
  match call.pc with
  | .inserting mid attachments =>
      let failed := fun cause =>
        rollback attachments (.insertSignalMessage call.m.externalId cause)
      if reply = .unreached then some (s.goto k call (failed .noReply))
      else
        match s.table.insert s.now id (call.m.insertParams cfg s.now mid attachments) with
        | .error e => some (s.goto k call (failed (.rejected e)))
        | .ok (row, t) =>
            some { s.goto k call
                (if reply = .committed then .returned (.ok { id := row.id })
                else failed .noReply) with
              table := t }
  | _ => none

/-- One step of the call at place `k`. -/
def Intake.enqueueStep (cfg : ServiceConfig) (s : Intake) (k : Nat) (call : EnqueueCall) :
    EnqueueAct → Option Intake
  | .lookup id fails =>
      match call.pc with
      | .start => some (s.goto k call (call.lookup cfg s.table id fails))
      | _ => none
  | .next putFails => s.next cfg k call putFails
  | .remove fails =>
      match call.pc with
      | .rollingBack (ref :: refs) e =>
          some { s.goto k call (rollback refs e) with
            objects := if fails then s.objects else s.objects.remove ref.bucket ref.filename }
      | _ => none
  | .insert id reply => s.insert cfg k call id reply

/-- A step of the intake. -/
inductive IntakeLabel where
  | advance (d : Nat)
  /-- A new call. -/
  | request (m : CreateMessage) (parts : List PartRead)
  | enqueue (k : Nat) (a : EnqueueAct)
deriving DecidableEq, Repr

/-- One step of the intake. -/
def Intake.step (cfg : ServiceConfig) (s : Intake) : IntakeLabel → Option Intake
  | .advance d => some { s with now := s.now + d }
  | .request m parts => some { s with calls := s.calls ++ [{ m, parts, pc := .start }] }
  | .enqueue k a => s.calls[k]?.bind fun call => s.enqueueStep cfg k call a

/-- A service that has not been called yet. -/
def Intake.init : Intake := ⟨0, fun _ _ => none, Messages.empty, []⟩

def demoConfig : ServiceConfig := ⟨"+380000000000", "attachments"⟩

end Signalium
