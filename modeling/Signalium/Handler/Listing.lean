import Signalium.Handler.Operator
import Signalium.Repo.Listing
import Signalium.Service.Enqueue

/-!
# Listing messages

`ListSignalMessages` of `internal/handler/signal_messages.go`.  The generated server
parses `limit`, `offset` and `attempts` into a 64-bit `int`; the handler checks their
signs and then narrows each of them to the `int32` of the query.

A value that is no `int32` becomes another one on the way, and that other one may be
as good as the first: with the offset 2³² the first page comes again.  What was asked
for is what the query gets exactly when the three are `int32`s (`list_kept_iff`).
-/

namespace Signalium

open Tables

/-! ## The answer -/

/-- `signalapi.Attachment`. -/
structure ConjureAttachment where
  bucket : String
  filename : String
  mimeType : Option String
  size : Option Int
deriving DecidableEq, Repr

/-- `signalapi.SignalMessageInfo`. -/
structure SignalMessageInfo where
  id : UUID
  externalId : String
  idempotencyKey : Option String
  recipient : Option String
  groupId : Option String
  senderPhoneNumber : String
  content : String
  attachments : List ConjureAttachment
  attempts : Int
  maxAttempts : Int
  nextAttemptAt : Int
  status : SignalMessageStatus
  lastError : Option String
  resultId : Option String
  quoteResultId : Option String
  correlationId : String
  createdAt : Int
  modifiedAt : Int
  timeoutAt : Option Int
deriving DecidableEq, Repr

/-- `safelong.NewSafeLong`: the integers a JSON number has exactly. -/
def newSafeLong (n : Int) : Option Int :=
  if -9007199254740991 ≤ n ∧ n ≤ 9007199254740991 then some n else none

/-- `toConjureAttachments`. -/
def toConjureAttachments (attachments : List Attachment) : List ConjureAttachment :=
  attachments.map fun (a : Attachment) =>
    { bucket := a.bucket
      filename := a.filename
      mimeType := if a.mimeType ≠ "" then some a.mimeType else none
      size := if 0 < a.size then newSafeLong a.size else none }

/-- `domainToConjure`. -/
def domainToConjure (m : SignalMessage) : SignalMessageInfo where
  id := m.id
  externalId := m.externalId
  idempotencyKey := m.idempotencyKey
  recipient := m.recipient
  groupId := m.groupId
  senderPhoneNumber := m.senderPhoneNumber
  content := m.content
  attachments := toConjureAttachments m.attachments
  attempts := m.attempts
  maxAttempts := m.maxAttempts
  nextAttemptAt := m.nextAttemptAt
  status := m.status
  lastError := m.lastError
  resultId := m.resultId
  quoteResultId := m.quoteResultId
  correlationId := m.correlationId
  createdAt := m.createdAt
  modifiedAt := m.modifiedAt
  timeoutAt := m.timeoutAt

/-- `signalapi.SignalMessageList`. -/
structure SignalMessageList where
  items : List SignalMessageInfo
  total : Int
deriving DecidableEq, Repr

/-- What a row looks like in the answer. -/
def Row.info (r : Row) : SignalMessageInfo := domainToConjure (rowToDomain r)

/-! ## The request -/

/-- The query parameters of `GET /api/v1/signal-messages`.  A status outside of the enum
is `some none`. -/
structure ListRequest where
  q : Option String := none
  limit : Option Int := none
  offset : Option Int := none
  createdAtFrom : Option Int := none
  createdAtTo : Option Int := none
  status : Option (Option SignalMessageStatus) := none
  attempts : Option Int := none
deriving DecidableEq, Repr

def listDefaultLimit : Int := 50

/-- `intPtrToInt32`. -/
def intPtrToInt32 (v : Option Int) : Option Int := v.map toInt32

/-- `coalescePositive`. -/
def coalescePositive (v : Option Int) (fallback : Int) : Int :=
  match v with
  | none => fallback
  | some n => if n ≤ 0 then fallback else toInt32 n

/-- `coalesceNonNegative`. -/
def coalesceNonNegative (v : Option Int) : Int :=
  match v with
  | none => 0
  | some n => if n < 0 then 0 else toInt32 n

/-- The filters `ListSignalMessages` builds. -/
def ListRequest.filters (req : ListRequest) : ListFilters where
  q := req.q
  status := req.status
  attempts := intPtrToInt32 req.attempts
  createdAtFrom := req.createdAtFrom
  createdAtTo := req.createdAtTo
  limit := coalescePositive req.limit listDefaultLimit
  offset := coalesceNonNegative req.offset

/-- `ListSignalMessages`.  Each of its two queries sees the table as it is by then, or the
database does not answer it. -/
def listSignalMessages (lower : Char → Char) (req : ListRequest)
    (listed counted : Option Messages) : Except HandlerError SignalMessageList :=
  match listed.bind fun t => t.list lower req.filters with
  | none => .error (mapToConjureError .database)
  | some rows =>
      match counted.bind fun t => t.count lower req.filters with
      | none => .error (mapToConjureError .database)
      | some total => .ok ⟨rows.map domainToConjure, total⟩

/-- The rows at the positions from `offset` to `offset + limit - 1` among those that match,
as the answer has them. -/
def Messages.window (lower : Char → Char) (t : Messages) (f : ListFilters) :
    List SignalMessageInfo :=
  (((t.listed lower f).drop f.offset.toNat).take f.limit.toNat).map Row.info

variable {lower : Char → Char} {req : ListRequest} {listed counted : Option Messages}
  {answer : SignalMessageList}

/-- The filters a query cannot be executed with are errors, as is a count that is no `int`. -/
theorem listSignalMessages_eq (lower : Char → Char) (req : ListRequest) (t t' : Messages) :
    listSignalMessages lower req (some t) (some t') =
      if req.filters.Executable ∧ ((t'.listed lower req.filters).length : Int) ≤ maxInt32 then
        .ok ⟨t.window lower req.filters, (t'.listed lower req.filters).length⟩
      else .error .internalServiceError := by
  rw [listSignalMessages, Option.bind_some, Option.bind_some, Messages.count_eq, Messages.list]
  by_cases hexec : req.filters.Executable
  · rw [if_pos hexec]
    by_cases hcount : ((t'.listed lower req.filters).length : Int) ≤ maxInt32
    · rw [if_pos ⟨hexec.1, hcount⟩, if_pos ⟨hexec, hcount⟩, Messages.window]
      simp only [List.map_map]
      rfl
    · rw [if_neg fun h => hcount h.2, if_neg fun h => hcount h.2]
      rfl
  · have hnot : ¬ (req.filters.Executable ∧
        ((t'.listed lower req.filters).length : Int) ≤ maxInt32) := fun h => hexec h.1
    rw [if_neg hexec, if_neg hnot]
    rfl

/-- What an answer that is no error consists of. -/
theorem listSignalMessages_ok
    (h : listSignalMessages lower req listed counted = .ok answer) :
    ∃ t ∈ listed, answer.items = t.window lower req.filters := by
  cases listed with
  | none => cases h
  | some t =>
      cases counted with
      | none =>
          simp only [listSignalMessages, Option.bind_none] at h
          split at h <;> cases h
      | some t' =>
          rw [listSignalMessages_eq] at h
          split_ifs at h
          cases h
          exact ⟨t, rfl, rfl⟩

/-! ## What is asked for -/

/-- The limit asked for. -/
def ListRequest.askedLimit (req : ListRequest) : Int :=
  match req.limit with
  | some n => if 0 < n then n else listDefaultLimit
  | none => listDefaultLimit

/-- The offset asked for. -/
def ListRequest.askedOffset (req : ListRequest) : Int :=
  match req.offset with
  | some n => if 0 ≤ n then n else 0
  | none => 0

/-- The filters asked for: no value is narrowed. -/
def ListRequest.asked (req : ListRequest) : ListFilters :=
  { req.filters with
    attempts := req.attempts
    limit := req.askedLimit
    offset := req.askedOffset }

/-- The three values are `int32`s. -/
structure ListRequest.Fits (req : ListRequest) : Prop where
  limit : req.askedLimit ≤ 2147483647
  offset : req.askedOffset ≤ 2147483647
  attempts : ∀ n ∈ req.attempts, -2147483648 ≤ n ∧ n ≤ 2147483647

/-- A request is answered with an error or with the rows asked for, and the query gets the
values asked for. -/
structure ListKept (lower : Char → Char) (req : ListRequest) : Prop where
  rows : ∀ {listed counted : Option Messages} {answer : SignalMessageList},
    listSignalMessages lower req listed counted = .ok answer →
      ∃ t ∈ listed, answer.items = t.window lower req.asked
  sent : req.filters = req.asked

theorem ListRequest.filters_limit (req : ListRequest) :
    req.filters.limit = toInt32 req.askedLimit := by
  have hdefault : toInt32 listDefaultLimit = listDefaultLimit := by decide
  cases hlimit : req.limit with
  | none =>
      simp only [ListRequest.filters, ListRequest.askedLimit, coalescePositive, hlimit, hdefault]
  | some n =>
      simp only [ListRequest.filters, ListRequest.askedLimit, coalescePositive, hlimit]
      split_ifs with hle hlt hlt
      · omega
      · exact hdefault.symm
      · rfl
      · omega

theorem ListRequest.filters_offset (req : ListRequest) :
    req.filters.offset = toInt32 req.askedOffset := by
  cases hoffset : req.offset with
  | none =>
      simp only [ListRequest.filters, ListRequest.askedOffset, coalesceNonNegative, hoffset]
      rfl
  | some n =>
      simp only [ListRequest.filters, ListRequest.askedOffset, coalesceNonNegative, hoffset]
      split_ifs with hlt hle hle
      · omega
      · rfl
      · rfl
      · omega

theorem intPtrToInt32_eq_self_iff {v : Option Int} :
    intPtrToInt32 v = v ↔ ∀ n ∈ v, -2147483648 ≤ n ∧ n ≤ 2147483647 := by
  cases v with
  | none => simp [intPtrToInt32]
  | some n => simp [intPtrToInt32, toInt32_eq_self_iff]

theorem ListRequest.askedLimit_pos (req : ListRequest) : 0 < req.askedLimit := by
  rw [ListRequest.askedLimit]
  split
  · split_ifs with h
    · exact h
    · decide
  · decide

theorem ListRequest.askedOffset_nonneg (req : ListRequest) : 0 ≤ req.askedOffset := by
  rw [ListRequest.askedOffset]
  split
  · split_ifs with h
    · exact h
    · exact le_rfl
  · exact le_rfl

theorem ListRequest.filters_eq_asked_iff (req : ListRequest) :
    req.filters = req.asked ↔ req.Fits := by
  have hpos := req.askedLimit_pos
  have hnonneg := req.askedOffset_nonneg
  constructor
  · intro h
    have hlimit : toInt32 req.askedLimit = req.askedLimit :=
      req.filters_limit.symm.trans (congrArg ListFilters.limit h)
    have hoffset : toInt32 req.askedOffset = req.askedOffset :=
      req.filters_offset.symm.trans (congrArg ListFilters.offset h)
    exact ⟨(toInt32_eq_self_iff.mp hlimit).2, (toInt32_eq_self_iff.mp hoffset).2,
      intPtrToInt32_eq_self_iff.mp (congrArg ListFilters.attempts h)⟩
  · intro h
    have hlimit : req.filters.limit = req.askedLimit :=
      req.filters_limit.trans (toInt32_eq_self_iff.mpr ⟨by omega, h.limit⟩)
    have hoffset : req.filters.offset = req.askedOffset :=
      req.filters_offset.trans (toInt32_eq_self_iff.mpr ⟨by omega, h.offset⟩)
    have hattempts : req.filters.attempts = req.attempts :=
      intPtrToInt32_eq_self_iff.mpr h.attempts
    rw [ListRequest.asked, ← hlimit, ← hoffset, ← hattempts]

/-- The rows asked for are the rows answered, and nothing is reduced modulo 2³², exactly
when the limit, the offset and the attempts asked for are `int32`s. -/
theorem list_kept_iff (lower : Char → Char) (req : ListRequest) :
    ListKept lower req ↔ req.Fits := by
  constructor
  · intro h
    exact req.filters_eq_asked_iff.mp h.sent
  · intro h
    have hsent := req.filters_eq_asked_iff.mpr h
    refine ⟨fun hok => ?_, hsent⟩
    rw [← hsent]
    exact listSignalMessages_ok hok

/-- A table with the row of `plainParams` in it. -/
def oneMessage : Messages :=
  ⟨[plainParams.row 0 "id-1"], by
    constructor <;> simp [InsertParams.row, Row.key, plainParams, ExactlyOneTarget]⟩

/-- A request for what comes after 2³² rows. -/
def farOffset : ListRequest := { offset := some 4294967296 }

/-- The first page comes again: the list has one row, which is answered as if it were at
that position. -/
theorem farOffset_first_page :
    listSignalMessages id farOffset (some oneMessage) (some oneMessage) =
        .ok ⟨[(plainParams.row 0 "id-1").info], 1⟩ ∧
      oneMessage.window id farOffset.asked = [] ∧ ¬ ListKept id farOffset := by
  have hok : listSignalMessages id farOffset (some oneMessage) (some oneMessage) =
      .ok ⟨[(plainParams.row 0 "id-1").info], 1⟩ := rfl
  refine ⟨hok, rfl, fun h => ?_⟩
  obtain ⟨t, ht, hitems⟩ := h.rows hok
  cases ht
  cases hitems

end Signalium
