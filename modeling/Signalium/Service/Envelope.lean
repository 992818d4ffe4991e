import Signalium.Domain.Message
import Signalium.Signal.Wire

/-!
# Envelopes

The envelope of a `receive` notification, as `internal/service/inbound_listener.go`
reads it.  The parameters of a notification are a JSON value, or `none` for bytes
that are no JSON text and for a notification without parameters.

A repeated member decodes into the value the first one has left: a pointer that is
set keeps its struct, and a slice keeps its array, so that its elements, also those
cut off by a shorter member in between, are what the next member decodes into.
-/

namespace Signalium

/-! ## The types -/

/-- `envAttachment`. -/
structure EnvAttachment where
  id : String := ""
  contentType : String := ""
  size : Int := 0
  filename : String := ""
deriving DecidableEq, Repr

def EnvAttachment.setMember (a : EnvAttachment) (name : String) (v : Json) :
    Option EnvAttachment :=
  if sameName "id" name then (v.toStringField a.id).map fun s => { a with id := s }
  else if sameName "contentType" name then
    (v.toStringField a.contentType).map fun s => { a with contentType := s }
  else if sameName "size" name then (v.toIntField a.size).map fun n => { a with size := n }
  else if sameName "filename" name then
    (v.toStringField a.filename).map fun s => { a with filename := s }
  else some a

/-- `envGroupInfo`. -/
structure EnvGroupInfo where
  groupId : String := ""
deriving DecidableEq, Repr

def EnvGroupInfo.setMember (g : EnvGroupInfo) (name : String) (v : Json) : Option EnvGroupInfo :=
  if sameName "groupId" name then (v.toStringField g.groupId).map fun s => { g with groupId := s }
  else some g

/-- `envData` and `envSyncSent`, which have the same fields. -/
structure EnvData where
  message : Option String := none
  attachments : Slice EnvAttachment := {}
  groupInfo : Option EnvGroupInfo := none
deriving Repr

def EnvData.setMember (d : EnvData) (name : String) (v : Json) : Option EnvData :=
  if sameName "message" name then v.toStringPtr.map fun s => { d with message := s }
  else if sameName "attachments" name then
    (v.toSlice (Json.toStruct EnvAttachment.setMember) {} d.attachments).map fun a =>
      { d with attachments := a }
  else if sameName "groupInfo" name then
    (v.toPtr (Json.toStruct EnvGroupInfo.setMember) {} d.groupInfo).map fun g =>
      { d with groupInfo := g }
  else some d

/-- `envEdit` and `envSync`: a pointer to a message under one name. -/
structure EnvWrapped where
  data : Option EnvData := none
deriving Repr

def EnvWrapped.setMember (field : String) (w : EnvWrapped) (name : String) (v : Json) :
    Option EnvWrapped :=
  if sameName field name then
    (v.toPtr (Json.toStruct EnvData.setMember) {} w.data).map fun d => { w with data := d }
  else some w

/-- `envReceipt`, `envTyping` and `envCall`, which have no fields. -/
structure EnvMarker where
deriving DecidableEq, Repr

def EnvMarker.setMember (e : EnvMarker) (_name : String) (_v : Json) : Option EnvMarker := some e

/-- `inboundEnvelope`. -/
structure InboundEnvelope where
  source : String := ""
  sourceUuid : Option String := none
  timestamp : Int := 0
  data : Option EnvData := none
  edit : Option EnvWrapped := none
  receipt : Option EnvMarker := none
  sync : Option EnvWrapped := none
  typing : Option EnvMarker := none
  call : Option EnvMarker := none
deriving Repr

def InboundEnvelope.setMember (e : InboundEnvelope) (name : String) (v : Json) :
    Option InboundEnvelope :=
  if sameName "source" name then (v.toStringField e.source).map fun s => { e with source := s }
  else if sameName "sourceUuid" name then v.toStringPtr.map fun s => { e with sourceUuid := s }
  else if sameName "timestamp" name then
    (v.toIntField e.timestamp).map fun n => { e with timestamp := n }
  else if sameName "dataMessage" name then
    (v.toPtr (Json.toStruct EnvData.setMember) {} e.data).map fun d => { e with data := d }
  else if sameName "editMessage" name then
    (v.toPtr (Json.toStruct (EnvWrapped.setMember "dataMessage")) {} e.edit).map fun w =>
      { e with edit := w }
  else if sameName "receiptMessage" name then
    (v.toPtr (Json.toStruct EnvMarker.setMember) {} e.receipt).map fun m => { e with receipt := m }
  else if sameName "syncMessage" name then
    (v.toPtr (Json.toStruct (EnvWrapped.setMember "sentMessage")) {} e.sync).map fun w =>
      { e with sync := w }
  else if sameName "typingMessage" name then
    (v.toPtr (Json.toStruct EnvMarker.setMember) {} e.typing).map fun m => { e with typing := m }
  else if sameName "callMessage" name then
    (v.toPtr (Json.toStruct EnvMarker.setMember) {} e.call).map fun m => { e with call := m }
  else some e

/-- `envelopeWrapper`: the raw envelope, where there is one.  A `null` is one. -/
def decodeWrapper : Json → Option (Option Json) :=
  Json.toStruct
    (fun old name v => some (if sameName "envelope" name then some v else old)) none

/-- `parseEnvelope`: the typed envelope and the raw one. -/
def parseEnvelope (params : Option Json) : Option (InboundEnvelope × Json) := do
  let v ← params
  let raw ← (← decodeWrapper v)
  let env ← raw.toStruct InboundEnvelope.setMember {}
  some (env, raw)

/-! ## Reading an envelope -/

/-- `InboundIgnoreConfig`. -/
structure InboundIgnore where
  typing : Bool
  receipt : Bool
  syncMessage : Bool
  callMessage : Bool
deriving DecidableEq, Repr

/-- `filtered`. -/
def InboundEnvelope.filtered (ignore : InboundIgnore) (env : InboundEnvelope) : Bool :=
  ignore.typing && env.typing.isSome || ignore.receipt && env.receipt.isSome ||
    ignore.syncMessage && env.sync.isSome || ignore.callMessage && env.call.isSome

/-- The messages in an envelope, in the order of the cases of `groupIDOf`,
`contentOf` and `attachmentsOf`. -/
def InboundEnvelope.messages (env : InboundEnvelope) : List EnvData :=
  env.data.toList ++ (env.edit.bind EnvWrapped.data).toList ++
    (env.sync.bind EnvWrapped.data).toList

/-- `groupIDOf`. -/
def groupIDOf (env : InboundEnvelope) : Option String :=
  env.messages.findSome? fun d => nonEmpty? (d.groupInfo.map EnvGroupInfo.groupId)

/-- `contentOf`. -/
def contentOf (env : InboundEnvelope) : Option String :=
  env.messages.findSome? fun d => nonEmpty? d.message

/-- `attachmentsOf`. -/
def attachmentsOf (env : InboundEnvelope) : List EnvAttachment :=
  (env.messages.findSome? fun d =>
    if d.attachments.elems.length = 0 then none else some d.attachments.elems).getD []

/-- `json.Marshal` of an attachment. -/
def EnvAttachment.marshal (a : EnvAttachment) : Json :=
  .obj ([("id", .str a.id), ("contentType", .str a.contentType)] ++
    (if a.size = 0 then [] else [("size", .num (formatInt a.size))]) ++
    if a.filename = "" then [] else [("filename", .str a.filename)])

/-- `json.Marshal` of the attachments. -/
def marshalAttachments (as : List EnvAttachment) : Json := .arr (as.map EnvAttachment.marshal)

end Signalium
