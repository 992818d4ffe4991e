import Signalium.Domain.Message
import Signalium.Signal.Wire

/-!
# The parameters of a send

`BuildSendParams` of `internal/signal/message_builder.go`.  It reads the
content, the target, the quote and, for one message, the external id of the row;
rows that agree on these build the same parameters
(`buildSendParams_congr`).
-/

namespace Signalium

/-- `SendParams`.  Empty and zero members are left out of the JSON. -/
structure SendParams where
  account : String
  message : String
  attachments : List String
  recipient : List String := []
  groupId : List String := []
  quoteTimestamp : Int := 0
  quoteAuthor : String := ""
deriving DecidableEq, Repr

/-- Why `BuildSendParams` refuses a message. -/
inductive SendParamsError where
  | emptyAccount
  | emptyContent
  | noTarget (externalId : String)
  | parseQuoteResultId (quoteResultId : String) (cause : NumError)
deriving DecidableEq, Repr

/-- The text of a `strconv.NumError` for `ParseInt`. -/
def NumError.text (input : String) : NumError → String
  | .badSyntax => "strconv.ParseInt: parsing " ++ input.quote ++ ": invalid syntax"
  | .outOfRange => "strconv.ParseInt: parsing " ++ input.quote ++ ": value out of range"

/-- The text of the error, without its parameters, which go to the log only. -/
def SendParamsError.text : SendParamsError → String
  | .emptyAccount => "send params: empty account"
  | .emptyContent => "send params: empty content"
  | .noTarget _ => "send params: neither recipient nor groupId set"
  | .parseQuoteResultId q cause => "send params: parse quoteResultId: " ++ cause.text q

/-- The target `BuildSendParams` addresses: the recipient first. -/
def withTarget (p : SendParams) (msg : SignalMessage) : Except SendParamsError SendParams :=
  match nonEmpty? msg.recipient with
  | some r => .ok { p with recipient := [r] }
  | none =>
      match nonEmpty? msg.groupId with
      | some g => .ok { p with groupId := [g] }
      | none => .error (.noTarget msg.externalId)

/-- The quote, always of the account itself. -/
def withQuote (p : SendParams) (account : String) (msg : SignalMessage) :
    Except SendParamsError SendParams :=
  match nonEmpty? msg.quoteResultId with
  | none => .ok p
  | some q =>
      match parseInt q with
      | .ok ts => .ok { p with quoteTimestamp := ts, quoteAuthor := account }
      | .error cause => .error (.parseQuoteResultId q cause)

/-- `BuildSendParams`. -/
def buildSendParams (account : String) (msg : SignalMessage) (paths : List String) :
    Except SendParamsError SendParams := do
  if account = "" then .error .emptyAccount
  else if msg.content = "" then .error .emptyContent
  else
    let p ← withTarget { account, message := msg.content, attachments := paths } msg
    withQuote p account msg

/-- The parameters depend on five columns of the row. -/
theorem buildSendParams_congr {account : String} {m m' : SignalMessage} {paths : List String}
    (hcontent : m.content = m'.content) (hrecipient : m.recipient = m'.recipient)
    (hgroupId : m.groupId = m'.groupId) (hexternalId : m.externalId = m'.externalId)
    (hquote : m.quoteResultId = m'.quoteResultId) :
    buildSendParams account m paths = buildSendParams account m' paths := by
  simp only [buildSendParams, withTarget, withQuote, hcontent, hrecipient, hgroupId, hexternalId,
    hquote]

/-- A message that quotes nothing needs a target only. -/
theorem buildSendParams_unquoted {account : String} {msg : SignalMessage} (hne : account ≠ "")
    (hcontent : msg.content ≠ "") (hquote : msg.quoteResultId = none) (paths : List String) :
    buildSendParams account msg paths =
      withTarget { account, message := msg.content, attachments := paths } msg := by
  unfold buildSendParams withQuote
  rw [if_neg hne, if_neg hcontent, hquote]
  cases withTarget { account, message := msg.content, attachments := paths } msg <;> rfl

/-- The paths are copied into the parameters and decide nothing. -/
theorem buildSendParams_paths (account : String) (msg : SignalMessage) (paths : List String) :
    buildSendParams account msg paths =
      (buildSendParams account msg []).map fun p => { p with attachments := paths } := by
  unfold buildSendParams
  split_ifs
  · rfl
  · rfl
  · unfold withTarget
    split
    · simp only [withQuote, bind, Except.bind]
      split
      · rfl
      · split <;> rfl
    · split
      · simp only [withQuote, bind, Except.bind]
        split
        · rfl
        · split <;> rfl
      · rfl

theorem buildSendParams_attachments {account : String} {msg : SignalMessage} {paths : List String}
    {params : SendParams} (h : buildSendParams account msg paths = .ok params) :
    params.attachments = paths := by
  rw [buildSendParams_paths] at h
  cases hb : buildSendParams account msg [] with
  | ok p => rw [hb] at h; cases h; rfl
  | error e => rw [hb] at h; cases h

end Signalium
