import Mathlib.Tactic

/-!
# What travels on the socket

The JSON-RPC frames of `internal/signal/tcp_client.go`, as the client reads
them, and the result it makes of a reply.

A line that arrives is a JSON value here, or no JSON at all.  Decoding it into
`RpcFrame` follows `encoding/json`: the members are read in order, a member
whose name folds to a field's name sets the field, `null` leaves a plain field
alone and clears a pointer, and one member of the wrong type makes the whole
line malformed.  A number stays the text of its literal until a field asks for
an integer.
-/

namespace Signalium

/-! ## Numbers -/

/-- The two ways `strconv` rejects a number. -/
inductive NumError where
  | badSyntax
  | outOfRange
deriving DecidableEq, Repr

/-- The digits of a number in base ten, as `strconv.ParseUint` reads them: the
range is checked before each digit is added. -/
def parseUintLoop : Nat → List Char → Except NumError Nat
  | n, [] => .ok n
  | n, c :: cs =>
      if ¬ c.isDigit then .error .badSyntax
      else if (2 ^ 64 - 1) / 10 + 1 ≤ n then .error .outOfRange
      else
        let n₁ := n * 10 + (c.toNat - '0'.toNat)
        if 2 ^ 64 ≤ n₁ then .error .outOfRange else parseUintLoop n₁ cs
termination_by structural _ cs => cs

/-- `strconv.ParseUint(s, 10, 64)`. -/
def parseUint : List Char → Except NumError Nat
  | [] => .error .badSyntax
  | cs => parseUintLoop 0 cs

/-- `strconv.ParseInt(s, 10, 64)`. -/
def parseInt (s : String) : Except NumError Int :=
  match s.toList with
  | '-' :: cs => do
      let n ← parseUint cs
      if 2 ^ 63 < n then .error .outOfRange else .ok (-(n : Int))
  | '+' :: cs => nonNegative cs
  | cs => nonNegative cs
where
  nonNegative (cs : List Char) : Except NumError Int := do
    let n ← parseUint cs
    if 2 ^ 63 ≤ n then .error .outOfRange else .ok n

/-- `strconv.FormatInt(n, 10)`. -/
def formatInt (n : Int) : String := toString n

/-! ## JSON -/

/-- A JSON value.  A number is the text of its literal. -/
inductive Json where
  | null
  | bool (b : Bool)
  | num (literal : String)
  | str (s : String)
  | arr (elems : List Json)
  | obj (members : List (String × Json))
deriving Repr

/-- The representative of a character under simple case folding, for the
characters that fold to an ASCII letter. -/
def foldRune (c : Char) : Char :=
  if c = '\u017f' then 'S' else if c = '\u212a' then 'K' else c.toUpper

/-- Member names are compared up to case. -/
def sameName (field name : String) : Bool :=
  field.toList.map foldRune == name.toList.map foldRune

/-- A member of a plain string field. -/
def Json.toStringField (old : String) : Json → Option String
  | .str s => some s
  | .null => some old
  | _ => none

/-- A member of an `int64` field. -/
def Json.toIntField (old : Int) : Json → Option Int
  | .num lit => (parseInt lit).toOption
  | .null => some old
  | _ => none

/-- A member of a string pointer field. -/
def Json.toStringPtr : Json → Option (Option String)
  | .str s => some (some s)
  | .null => some none
  | _ => none

/-- A member of an integer pointer field. -/
def Json.toIntPtr : Json → Option (Option Int)
  | .null => some none
  | v => (v.toIntField 0).map some

/-- A member of a struct type, decoded into the struct `old`. -/
def Json.toStruct {σ : Type} (setMember : σ → String → Json → Option σ) (old : σ) :
    Json → Option σ
  | .obj members => members.foldlM (fun x m => setMember x m.1 m.2) old
  | .null => some old
  | _ => none

/-- A member of a pointer type, `zero` being the new value the pointer is set to. -/
def Json.toPtr {σ : Type} (decode : σ → Json → Option σ) (zero : σ) (old : Option σ) :
    Json → Option (Option σ)
  | .null => some none
  | v => (decode (old.getD zero) v).map some

/-- A slice, and what its array has beyond it. -/
structure Slice (α : Type) where
  elems : List α := []
  spare : List α := []
deriving Repr

/-- The elements of an array, each decoded into what is at its place. -/
def decodeElems {α : Type} (decode : α → Json → Option α) (zero : α) :
    List α → List Json → Option (List α)
  | _, [] => some []
  | old, v :: vs => do
      let x ← decode (old.headD zero) v
      let xs ← decodeElems decode zero old.tail vs
      some (x :: xs)

/-- A member of a slice type. -/
def Json.toSlice {α : Type} (decode : α → Json → Option α) (zero : α) (old : Slice α) :
    Json → Option (Slice α)
  | .null => some {}
  | .arr [] => some {}
  | .arr vs => do
      let array := old.elems ++ old.spare
      let elems ← decodeElems decode zero array vs
      some { elems, spare := array.drop vs.length }
  | _ => none

/-! ## Frames -/

/-- `rpcError`. -/
structure RpcError where
  code : Int := 0
  message : String := ""
  data : Option Json := none
deriving Repr

/-- One member of an `error` object. -/
def RpcError.setMember (e : RpcError) (name : String) (v : Json) : Option RpcError :=
  if sameName "code" name then (v.toIntField e.code).map fun n => { e with code := n }
  else if sameName "message" name then
    (v.toStringField e.message).map fun s => { e with message := s }
  else if sameName "data" name then some { e with data := some v }
  else some e

/-- The `error` member of a frame.  A repeated member decodes into the same
value. -/
def RpcError.decode (old : Option RpcError) : Json → Option (Option RpcError)
  | .null => some none
  | .obj members => do
      let e ← members.foldlM (fun e m => RpcError.setMember e m.1 m.2) (old.getD {})
      some (some e)
  | _ => none

/-- `rpcFrame`: a response, or a notification when `id` is absent. -/
structure RpcFrame where
  jsonrpc : String := ""
  id : Option String := none
  method : String := ""
  params : Option Json := none
  result : Option Json := none
  error : Option RpcError := none
deriving Repr

/-- One member of a frame. -/
def RpcFrame.setMember (f : RpcFrame) (name : String) (v : Json) : Option RpcFrame :=
  if sameName "jsonrpc" name then
    (v.toStringField f.jsonrpc).map fun s => { f with jsonrpc := s }
  else if sameName "id" name then v.toStringPtr.map fun s => { f with id := s }
  else if sameName "method" name then
    (v.toStringField f.method).map fun s => { f with method := s }
  else if sameName "params" name then some { f with params := some v }
  else if sameName "result" name then some { f with result := some v }
  else if sameName "error" name then (RpcError.decode f.error v).map fun e => { f with error := e }
  else some f

/-- `json.Unmarshal` into a frame. -/
def RpcFrame.decode : Json → Option RpcFrame
  | .obj members => members.foldlM (fun f m => RpcFrame.setMember f m.1 m.2) {}
  | .null => some {}
  | _ => none

/-- A line `readLoop` hands to `dispatchFrame`. -/
inductive Line where
  /-- Nothing but line ends and spaces. -/
  | blank
  /-- Not a JSON text. -/
  | malformed
  | json (v : Json)
deriving Repr

/-- The frame of a line.  Blank and malformed lines are dropped. -/
def Line.frame? : Line → Option RpcFrame
  | .json v => RpcFrame.decode v
  | _ => none

/-- `Event`. -/
structure Event where
  method : String
  params : Option Json
deriving Repr

/-! ## Results of a send -/

/-- `SendResult`. -/
structure SendResult where
  timestamp : Int := 0
  raw : Option Json := none
deriving Repr

/-- `SendResult.ResultID`. -/
def SendResult.resultID (r : SendResult) : String := formatInt r.timestamp

/-- The best-effort `json.Unmarshal` of a result into a `SendResult`: a member
that does not decode leaves the timestamp as it was. -/
def decodeTimestamp : Option Json → Int
  | some (.obj members) =>
      members.foldl
        (fun ts m => if sameName "timestamp" m.1 then (m.2.toIntField ts).getD ts else ts) 0
  | _ => 0

/-- The result `sendAwait` makes of a reply without an error. -/
def SendResult.ofReply (result : Option Json) : SendResult :=
  { timestamp := decodeTimestamp result, raw := result }

example : (SendResult.ofReply (some (.obj [("timestamp", .num "1700000001")]))).resultID =
    "1700000001" := by decide

example : (SendResult.ofReply (some (.obj [("timestamp", .num "1.5")]))).resultID = "0" := by decide

end Signalium
