import Mathlib.Tactic

/-!
# Messages

The plain types the repository, the service and the worker exchange
(`internal/domain`).  Instants and durations are integers, in nanoseconds, on
one clock.  A `UUID` is its canonical text.

`Row` is a row of `signalium.signal_messages`.  It is the domain message plus
the column `deleted_at`, which only the queries read, so the conversion
`rowToDomain` is the projection.
-/

namespace Signalium

/-- A UUID in its canonical text form. -/
abbrev UUID := String

/-- A string pointer that is neither `nil` nor empty. -/
def nonEmpty? : Option String → Option String
  | some s => if s = "" then none else some s
  | none => none

/-- The enum `signalium.signal_message_status`. -/
inductive SignalMessageStatus where
  | pending
  | sending
  | sent
  | failed
  | permanentFailed
  | timedOut
deriving DecidableEq, Repr

/-- The statuses the worker never advances from on its own. -/
def SignalMessageStatus.isTerminal : SignalMessageStatus → Bool
  | .sent | .permanentFailed | .timedOut => true
  | .pending | .sending | .failed => false

theorem SignalMessageStatus.isTerminal_iff {s : SignalMessageStatus} :
    s.isTerminal = true ↔ s = .sent ∨ s = .permanentFailed ∨ s = .timedOut := by
  cases s <;> simp [SignalMessageStatus.isTerminal]

/-- A reference to an object in the object store. -/
structure Attachment where
  bucket : String
  filename : String
  mimeType : String := ""
  size : Int := 0
deriving DecidableEq, Repr

/-- A message as the layers above the repository see it. -/
structure SignalMessage where
  id : UUID
  externalId : String
  idempotencyKey : Option String
  recipient : Option String
  groupId : Option String
  senderPhoneNumber : String
  content : String
  attachments : List Attachment
  attempts : Int
  maxAttempts : Int
  nextAttemptAt : Int
  timeoutAt : Option Int
  status : SignalMessageStatus
  lastError : Option String
  resultId : Option String
  quoteResultId : Option String
  correlationId : String
  createdAt : Int
  modifiedAt : Int
deriving DecidableEq, Repr

/-- The message with the columns the queue writes after the insert blanked out:
what stays the same for the lifetime of the row. -/
def SignalMessage.fixed (m : SignalMessage) : SignalMessage :=
  { m with
    attempts := 0
    nextAttemptAt := 0
    status := .pending
    lastError := none
    resultId := none
    modifiedAt := 0 }

theorem SignalMessage.id_eq_of_fixed {m m' : SignalMessage} (h : m.fixed = m'.fixed) :
    m.id = m'.id := by
  injection h

theorem SignalMessage.attachments_eq_of_fixed {m m' : SignalMessage} (h : m.fixed = m'.fixed) :
    m.attachments = m'.attachments := by
  injection h

theorem SignalMessage.timeoutAt_eq_of_fixed {m m' : SignalMessage} (h : m.fixed = m'.fixed) :
    m.timeoutAt = m'.timeoutAt := by
  injection h

theorem SignalMessage.maxAttempts_eq_of_fixed {m m' : SignalMessage} (h : m.fixed = m'.fixed) :
    m.maxAttempts = m'.maxAttempts := by
  injection h

/-- The columns a message is sent from are among them. -/
theorem SignalMessage.sent_eq_of_fixed {m m' : SignalMessage} (h : m.fixed = m'.fixed) :
    m.content = m'.content ∧ m.recipient = m'.recipient ∧ m.groupId = m'.groupId ∧
      m.quoteResultId = m'.quoteResultId := by
  injection h
  exact ⟨‹_›, ‹_›, ‹_›, ‹_›⟩

/-- A row of `signalium.signal_messages`. -/
structure Row extends SignalMessage where
  deletedAt : Option Int
deriving DecidableEq, Repr

/-- The domain view of a row. -/
def rowToDomain (r : Row) : SignalMessage := r.toSignalMessage

end Signalium
