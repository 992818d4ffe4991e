import Mathlib.Data.List.DropRight
import Signalium.Lib.Lines
import Signalium.Signal.JsonLines
import Signalium.Signal.Params

/-!
# Frames on the connection

Both directions of the connection as streams of characters.  The connection itself
carries bytes; a cut inside a character of several bytes is not modelled.

`writeFrame` writes the JSON of a request and a line end.  The daemon reads up to
the next line end, or to the end of the stream, and decodes what it has got; the
struct it decodes into is the one of `testfake/daemon.go`, and the parameters are
decoded by the tags of `SendParams`.  However the stream is divided on the way and
wherever it breaks off, the daemon gets exactly the requests whose text has arrived,
in order (`requests_read_back`).

In the other direction `readLoop` also hands on what it has got when the connection
ends.  A line that broke off is not taken for another one: the frames the client sees
are a beginning of those the daemon has sent (`replies_cut_off`).
-/

namespace Signalium

open Readers

/-! ## Requests -/

/-- An optional member: left out when it is empty. -/
def omitEmpty (empty : Bool) (name : String) (v : Json) : List (String × Json) :=
  if empty then [] else [(name, v)]

def stringArray (l : List String) : Json := .arr (l.map .str)

/-- `SendParams` as `json.Marshal` writes it. -/
def SendParams.json (p : SendParams) : Json :=
  .obj ([("account", .str p.account), ("message", .str p.message)] ++
    omitEmpty p.attachments.isEmpty "attachments" (stringArray p.attachments) ++
    omitEmpty p.recipient.isEmpty "recipient" (stringArray p.recipient) ++
    omitEmpty p.groupId.isEmpty "groupId" (stringArray p.groupId) ++
    omitEmpty (p.quoteTimestamp = 0) "quoteTimestamp" (.num (formatInt p.quoteTimestamp)) ++
    omitEmpty (p.quoteAuthor = "") "quoteAuthor" (.str p.quoteAuthor))

/-- The part of `rpcRequest` that varies. -/
structure RpcRequest where
  id : String
  params : SendParams
deriving DecidableEq, Repr

/-- `rpcRequest` as `json.Marshal` writes it. -/
def RpcRequest.json (r : RpcRequest) : Json :=
  .obj ([("jsonrpc", .str "2.0"), ("method", .str "send"), ("params", r.params.json)] ++
    omitEmpty (r.id = "") "id" (.str r.id))

/-- What `writeFrame` writes, without the line end. -/
def RpcRequest.text (r : RpcRequest) : List Char := r.json.text

/-- `conn.Write` of `writeFrame`, for one request after the other. -/
def requestStream (reqs : List RpcRequest) : List Char :=
  Lines.unlines '\n' (reqs.map RpcRequest.text)

/-- `IncomingRequest`. -/
structure IncomingRequest where
  jsonrpc : String := ""
  method : String := ""
  params : Option Json := none
  id : String := ""
deriving Repr

def IncomingRequest.setMember (r : IncomingRequest) (name : String) (v : Json) :
    Option IncomingRequest :=
  if sameName "jsonrpc" name then (v.toStringField r.jsonrpc).map fun s => { r with jsonrpc := s }
  else if sameName "method" name then (v.toStringField r.method).map fun s => { r with method := s }
  else if sameName "params" name then some { r with params := some v }
  else if sameName "id" name then (v.toStringField r.id).map fun s => { r with id := s }
  else some r

/-- `json.Unmarshal` into an `IncomingRequest`. -/
def IncomingRequest.decode (v : Json) : Option IncomingRequest :=
  v.toStruct IncomingRequest.setMember {}

/-- A member of a slice of strings, where the old value of the field is empty. -/
def Json.toStrings (v : Json) : Option (List String) :=
  (v.toSlice Json.toStringField "" {}).map Slice.elems

def SendParams.setMember (p : SendParams) (name : String) (v : Json) : Option SendParams :=
  if sameName "account" name then (v.toStringField p.account).map fun s => { p with account := s }
  else if sameName "message" name then
    (v.toStringField p.message).map fun s => { p with message := s }
  else if sameName "attachments" name then v.toStrings.map fun l => { p with attachments := l }
  else if sameName "recipient" name then v.toStrings.map fun l => { p with recipient := l }
  else if sameName "groupId" name then v.toStrings.map fun l => { p with groupId := l }
  else if sameName "quoteTimestamp" name then
    (v.toIntField p.quoteTimestamp).map fun n => { p with quoteTimestamp := n }
  else if sameName "quoteAuthor" name then
    (v.toStringField p.quoteAuthor).map fun s => { p with quoteAuthor := s }
  else some p

/-- `json.Unmarshal` into a `SendParams`. -/
def SendParams.decode (v : Json) : Option SendParams :=
  v.toStruct SendParams.setMember { account := "", message := "", attachments := [] }

/-- The send an incoming request asks for. -/
def IncomingRequest.send? (r : IncomingRequest) : Option RpcRequest :=
  if r.method = "send" then
    (r.params.bind SendParams.decode).map fun p => { id := r.id, params := p }
  else none

/-- What `handle` makes of one line. -/
def incoming? (line : List Char) : Option RpcRequest :=
  ((parseText line).bind IncomingRequest.decode).bind IncomingRequest.send?

/-- What the daemon has got of a stream when it ends. -/
def requestsRead (stream : List Char) : List RpcRequest :=
  (Lines.tokens '\n' stream).filterMap incoming?

/-! ## Integers -/

/-- `ParseUint` reads the digits one after the other. -/
theorem parseUintLoop_cons (n : Nat) (c : Char) (cs : List Char) :
    parseUintLoop n (c :: cs) = (parseUintLoop n [c]).bind fun m => parseUintLoop m cs := by
  simp only [parseUintLoop]
  split_ifs <;> rfl

theorem parseUintLoop_append (cs : List Char) (c : Char) :
    ∀ n, parseUintLoop n (cs ++ [c]) =
      (parseUintLoop n cs).bind fun m => parseUintLoop m [c] := by
  induction cs with
  | nil => intro n; rfl
  | cons x cs ih =>
      intro n
      rw [List.cons_append, parseUintLoop_cons, parseUintLoop_cons n x cs]
      cases parseUintLoop n [x] with
      | error e => rfl
      | ok m => exact ih m

theorem digitChar_facts : ∀ d < 10, (Nat.digitChar d).isDigit = true ∧
    (Nat.digitChar d).toNat - '0'.toNat = d := by
  decide

theorem parseUintLoop_digitChar {m d : Nat} (hd : d < 10) (hm : m * 10 + d < 2 ^ 64) :
    parseUintLoop m [Nat.digitChar d] = .ok (m * 10 + d) := by
  obtain ⟨hdigit, hval⟩ := digitChar_facts d hd
  have hcut : ¬ (2 ^ 64 - 1) / 10 + 1 ≤ m := by omega
  simp only [parseUintLoop, hval, hdigit, not_true, if_false, if_neg hcut,
    if_neg (Nat.not_le.mpr hm)]

/-- The digits of a number in range are read back. -/
theorem parseUintLoop_toDigits {n : Nat} (hn : n < 2 ^ 64) :
    parseUintLoop 0 (Nat.toDigits 10 n) = .ok n := by
  induction n using Nat.strong_induction_on with
  | _ n ih =>
      rw [Nat.toDigits_eq_if (by decide)]
      split_ifs with hlt
      · simpa using parseUintLoop_digitChar (m := 0) hlt (by omega)
      · have hlast := parseUintLoop_digitChar (m := n / 10) (d := n % 10) (by omega) (by omega)
        rw [parseUintLoop_append, ih (n / 10) (by omega) (by omega)]
        change parseUintLoop (n / 10) [Nat.digitChar (n % 10)] = .ok n
        rw [hlast]
        congr 1
        omega

theorem parseUint_toDigits {n : Nat} (hn : n < 2 ^ 64) :
    parseUint (Nat.toDigits 10 n) = .ok n := by
  have hloop := parseUintLoop_toDigits hn
  cases hd : Nat.toDigits 10 n with
  | nil =>
      have := isUnsigned_toDigits n
      rw [hd] at this
      cases this
  | cons c cs => rw [hd] at hloop; exact hloop

/-- `FormatInt` and `ParseInt` of an `int64`. -/
theorem parseInt_formatInt {n : Int} (hmin : -2 ^ 63 ≤ n) (hmax : n < 2 ^ 63) :
    parseInt (formatInt n) = .ok n := by
  cases n with
  | ofNat m =>
      rw [Int.ofNat_eq_natCast] at hmax
      have hm : m < 2 ^ 63 := by omega
      have hread := parseUint_toDigits (n := m) (by omega)
      have hnonneg : parseInt.nonNegative (Nat.toDigits 10 m) = .ok (m : Int) := by
        simp only [parseInt.nonNegative, hread, bind, Except.bind, if_neg (Nat.not_le.mpr hm)]
      unfold parseInt
      rw [formatInt_ofNat_toList]
      have hdigits : ∀ c ∈ Nat.toDigits 10 m, c.isDigit = true :=
        fun c hc => Nat.isDigit_of_mem_toDigits (by decide) (by decide) hc
      split
      · next cs he =>
          rw [he] at hdigits
          exact absurd (hdigits '-' List.mem_cons_self) (by decide)
      · next cs he =>
          rw [he] at hdigits
          exact absurd (hdigits '+' List.mem_cons_self) (by decide)
      · exact hnonneg
  | negSucc m =>
      have hm : ¬ 2 ^ 63 < m + 1 := by omega
      have hread := parseUint_toDigits (n := m + 1) (by omega)
      unfold parseInt
      rw [formatInt_negSucc_toList]
      simp only [hread, bind, Except.bind, if_neg hm]
      rfl

/-! ## Parameters -/

/-- A member of an object that is decoded into a struct: whether it is left out, and what the
struct is after it. -/
structure Member (σ : Type) where
  empty : Bool
  name : String
  value : Json
  after : σ

def Member.json {σ : Type} (m : Member σ) : List (String × Json) :=
  omitEmpty m.empty m.name m.value

/-- Each member sets its field of the struct, and one that is left out leaves nothing to
set. -/
def SetsMembers {σ : Type} (set : σ → String → Json → Option σ) : σ → List (Member σ) → Prop
  | _, [] => True
  | x, m :: ms =>
      (m.empty = true → x = m.after) ∧ set x m.name m.value = some m.after ∧
        SetsMembers set m.after ms

/-- A member whose value can be decoded is put into its field. -/
theorem setMember_of_decode {σ τ : Type} {set : σ → String → Json → Option σ} {x : σ}
    {name : String} {v : Json} {a : τ} (decode : Json → Option τ) (put : τ → σ)
    (hset : ∀ v, set x name v = (decode v).map put) (hv : decode v = some a) :
    set x name v = some (put a) := by
  rw [hset, hv, Option.map_some]

/-- An object is decoded member by member, each over what the ones before have left. -/
theorem toStruct_members {σ : Type} {set : σ → String → Json → Option σ} {ms : List (Member σ)}
    {x : σ} (h : SetsMembers set x ms) :
    (Json.obj (ms.flatMap Member.json)).toStruct set x =
      some ((ms.getLast?.map Member.after).getD x) := by
  simp only [Json.toStruct]
  induction ms generalizing x with
  | nil => rfl
  | cons m ms ih =>
      obtain ⟨hempty, hset, hrest⟩ := h
      have hone : m.json.foldlM (fun x m => set x m.1 m.2) x = some m.after := by
        rw [Member.json, omitEmpty]
        split
        · next he => rw [hempty he]; rfl
        · simpa using hset
      rw [List.flatMap_cons, List.foldlM_append, hone, Option.bind_eq_bind, Option.bind_some,
        ih hrest, List.getLast?_cons]
      cases ms.getLast? <;> rfl

theorem toStrings_stringArray (l : List String) : (stringArray l).toStrings = some l := by
  have helems : ∀ l : List String, decodeElems Json.toStringField "" [] (l.map .str) = some l := by
    intro l
    induction l with
    | nil => rfl
    | cons x l ih => simp [decodeElems, Json.toStringField, ih]
  cases l with
  | nil => rfl
  | cons x l =>
      have := helems (x :: l)
      simp only [List.map_cons] at this
      simp [stringArray, Json.toStrings, Json.toSlice, this]

/-- The timestamp is an `int64`. -/
def SendParams.InRange (p : SendParams) : Prop :=
  -2 ^ 63 ≤ p.quoteTimestamp ∧ p.quoteTimestamp < 2 ^ 63

/-- `ParseInt` returns an `int64`. -/
theorem parseInt_range {x : String} {n : Int} (h : parseInt x = .ok n) :
    -2 ^ 63 ≤ n ∧ n < 2 ^ 63 := by
  have hplus : ∀ cs, parseInt.nonNegative cs = .ok n → -2 ^ 63 ≤ n ∧ n < 2 ^ 63 := by
    intro cs hcs
    unfold parseInt.nonNegative at hcs
    cases hu : parseUint cs with
    | error e => rw [hu] at hcs; cases hcs
    | ok m =>
        simp only [hu, bind, Except.bind] at hcs
        split at hcs
        · cases hcs
        · cases hcs
          omega
  unfold parseInt at h
  split at h
  · next cs _ =>
      cases hu : parseUint cs with
      | error e => rw [hu] at h; cases h
      | ok m =>
          simp only [hu, bind, Except.bind] at h
          split at h
          · cases h
          · cases h
            omega
  · exact hplus _ h
  · exact hplus _ h

/-- `BuildSendParams` puts an `int64` into the timestamp. -/
theorem buildSendParams_inRange {account : String} {m : SignalMessage} {paths : List String}
    {params : SendParams} (h : buildSendParams account m paths = .ok params) : params.InRange := by
  have hzero : ∀ {p : SendParams}, p.quoteTimestamp = 0 → withQuote p account m = .ok params →
      params.InRange := by
    intro p hp hq
    unfold withQuote at hq
    split at hq
    · cases hq
      simp [SendParams.InRange, hp]
    · split at hq
      · next ts hts => cases hq; exact parseInt_range hts
      · cases hq
  unfold buildSendParams at h
  split at h
  · cases h
  · split at h
    · cases h
    · unfold withTarget at h
      simp only [bind, Except.bind] at h
      split at h
      · cases h
      · next p hp =>
          refine hzero ?_ h
          split at hp
          · cases hp; rfl
          · split at hp
            · cases hp; rfl
            · cases hp

/-- The members of the parameters, in the order of the fields. -/
def SendParams.members (p : SendParams) : List (Member SendParams) :=
  [⟨false, "account", .str p.account, ⟨p.account, "", [], [], [], 0, ""⟩⟩,
   ⟨false, "message", .str p.message, ⟨p.account, p.message, [], [], [], 0, ""⟩⟩,
   ⟨p.attachments.isEmpty, "attachments", stringArray p.attachments,
     ⟨p.account, p.message, p.attachments, [], [], 0, ""⟩⟩,
   ⟨p.recipient.isEmpty, "recipient", stringArray p.recipient,
     ⟨p.account, p.message, p.attachments, p.recipient, [], 0, ""⟩⟩,
   ⟨p.groupId.isEmpty, "groupId", stringArray p.groupId,
     ⟨p.account, p.message, p.attachments, p.recipient, p.groupId, 0, ""⟩⟩,
   ⟨p.quoteTimestamp = 0, "quoteTimestamp", .num (formatInt p.quoteTimestamp),
     ⟨p.account, p.message, p.attachments, p.recipient, p.groupId, p.quoteTimestamp, ""⟩⟩,
   ⟨p.quoteAuthor = "", "quoteAuthor", .str p.quoteAuthor, p⟩]

theorem SendParams.json_eq_members (p : SendParams) :
    p.json = .obj (p.members.flatMap Member.json) := by
  simp [SendParams.json, SendParams.members, Member.json, omitEmpty]

theorem SendParams.setsMembers {p : SendParams} (h : p.InRange) :
    SetsMembers SendParams.setMember ⟨"", "", [], [], [], 0, ""⟩ p.members := by
  obtain ⟨account, message, attachments, recipient, groupId, quoteTimestamp, quoteAuthor⟩ := p
  have hts : (Json.num (formatInt quoteTimestamp)).toIntField 0 = some quoteTimestamp := by
    simp [Json.toIntField, parseInt_formatInt h.1 h.2, Except.toOption]
  dsimp only [SendParams.members, SetsMembers]
  refine ⟨nofun, rfl, nofun, rfl, fun h => ?_, ?_, fun h => ?_, ?_, fun h => ?_, ?_, fun h => ?_,
    ?_, fun h => ?_, rfl, trivial⟩
  · rw [List.isEmpty_iff.mp h]
  · exact setMember_of_decode Json.toStrings (SendParams.mk account message · [] [] 0 "")
      (fun _ => rfl) (toStrings_stringArray attachments)
  · rw [List.isEmpty_iff.mp h]
  · exact setMember_of_decode Json.toStrings (SendParams.mk account message attachments · [] 0 "")
      (fun _ => rfl) (toStrings_stringArray recipient)
  · rw [List.isEmpty_iff.mp h]
  · exact setMember_of_decode Json.toStrings
      (SendParams.mk account message attachments recipient · 0 "")
      (fun _ => rfl) (toStrings_stringArray groupId)
  · rw [of_decide_eq_true h]
  · exact setMember_of_decode (Json.toIntField 0)
      (SendParams.mk account message attachments recipient groupId · "") (fun _ => rfl) hts
  · rw [of_decide_eq_true h]

/-- Parameters are read back. -/
theorem SendParams.decode_json {p : SendParams} (h : p.InRange) :
    SendParams.decode p.json = some p := by
  rw [SendParams.decode, p.json_eq_members, toStruct_members (SendParams.setsMembers h)]
  rfl

/-! ## One request -/

theorem within_omitEmpty {d : Nat} {empty : Bool} {name : String} {v : Json} (h : v.Within d) :
    ∀ m ∈ omitEmpty empty name v, m.2.Within d := by
  intro m hm
  unfold omitEmpty at hm
  split at hm
  · cases hm
  · rw [List.mem_singleton.mp hm]
    exact h

theorem within_stringArray (l : List String) : (stringArray l).Within 1 := by
  refine .arr fun v hv => ?_
  obtain ⟨s, _, rfl⟩ := List.mem_map.mp hv
  exact .str

theorem SendParams.json_within (p : SendParams) : p.json.Within 2 := by
  refine .obj fun m hm => ?_
  simp only [List.mem_append] at hm
  rcases hm with ((((hm | hm) | hm) | hm) | hm) | hm
  · rcases List.mem_cons.mp hm with rfl | hm
    · exact .str
    · rw [List.mem_singleton.mp hm]
      exact .str
  · exact within_omitEmpty (within_stringArray _) m hm
  · exact within_omitEmpty (within_stringArray _) m hm
  · exact within_omitEmpty (within_stringArray _) m hm
  · exact within_omitEmpty (.num (isNumberLiteral_formatInt _)) m hm
  · exact within_omitEmpty .str m hm

theorem RpcRequest.json_within (r : RpcRequest) : r.json.Within 3 := by
  refine .obj fun m hm => ?_
  rcases List.mem_append.mp hm with hm | hm
  · simp only [List.mem_cons, List.not_mem_nil, or_false] at hm
    rcases hm with rfl | rfl | rfl
    · exact .str
    · exact .str
    · exact r.params.json_within
  · exact within_omitEmpty .str m hm

/-- The members of a request, for the struct of the daemon. -/
def RpcRequest.members (r : RpcRequest) : List (Member IncomingRequest) :=
  [⟨false, "jsonrpc", .str "2.0", ⟨"2.0", "", none, ""⟩⟩,
   ⟨false, "method", .str "send", ⟨"2.0", "send", none, ""⟩⟩,
   ⟨false, "params", r.params.json, ⟨"2.0", "send", some r.params.json, ""⟩⟩,
   ⟨r.id = "", "id", .str r.id, ⟨"2.0", "send", some r.params.json, r.id⟩⟩]

theorem RpcRequest.json_eq_members (r : RpcRequest) :
    r.json = .obj (r.members.flatMap Member.json) := by
  simp [RpcRequest.json, RpcRequest.members, Member.json, omitEmpty]

theorem RpcRequest.setsMembers (r : RpcRequest) :
    SetsMembers IncomingRequest.setMember {} r.members := by
  dsimp only [RpcRequest.members, SetsMembers]
  refine ⟨nofun, rfl, nofun, rfl, nofun, rfl, fun h => ?_, rfl, trivial⟩
  rw [of_decide_eq_true h]

theorem RpcRequest.decode_json (r : RpcRequest) :
    IncomingRequest.decode r.json = some ⟨"2.0", "send", some r.params.json, r.id⟩ := by
  rw [IncomingRequest.decode, r.json_eq_members, toStruct_members r.setsMembers]
  rfl

/-- A request is read back, with or without its line end. -/
theorem RpcRequest.incoming?_text {r : RpcRequest} (h : r.params.InRange) {sp : List Char}
    (hsp : skipSpace sp = []) : incoming? (r.text ++ sp) = some r := by
  unfold incoming? RpcRequest.text
  rw [r.json_within.parse_text (by decide) hsp, Option.bind_some, r.decode_json, Option.bind_some]
  simp only [IncomingRequest.send?, if_true, Option.bind_some, SendParams.decode_json h,
    Option.map_some]

/-- The text of a request ends with its brace. -/
theorem RpcRequest.text_concat (r : RpcRequest) : ∃ body, r.text = body ++ ['}'] := by
  have hmembers : ∀ members, ∃ body, (Json.obj members).text = body ++ ['}'] := by
    intro members
    obtain ⟨body, hbody⟩ : ∃ body, putSep ',' '}' memberText members = body ++ ['}'] :=
      putSep_concat memberText members
    exact ⟨'{' :: body, by rw [Json.text, Json.textMembers_eq, hbody]; rfl⟩
  exact hmembers _

/-- What is decoded into a struct is no number. -/
theorem ne_num_of_incoming? {line : List Char} {r : RpcRequest} (h : incoming? line = some r) :
    ∃ v, parseText line = some v ∧ ∀ lit, v ≠ .num lit := by
  obtain ⟨req, hreq, _⟩ := Option.bind_eq_some_iff.mp h
  obtain ⟨v, hv, hdec⟩ := Option.bind_eq_some_iff.mp hreq
  refine ⟨v, hv, ?_⟩
  rintro lit rfl
  cases hdec

/-- A request that broke off is none. -/
theorem RpcRequest.incoming?_cut (r : RpcRequest) {part rest : List Char}
    (htext : r.text = part ++ rest) (hrest : rest ≠ []) : incoming? part = none := by
  cases hin : incoming? part with
  | none => rfl
  | some r' =>
      obtain ⟨v, hv, hnum⟩ := ne_num_of_incoming? hin
      have hfull : parseText (part ++ rest) = some r.json := by
        have := r.json_within.parse_text (by decide) (show skipSpace [] = [] from rfl)
        rwa [List.append_nil, show r.json.text = part ++ rest from htext] at this
      obtain ⟨_, hspace⟩ := parseText_cut hv hfull hnum
      -- the brace at the end was cut off, and it is no space
      obtain ⟨body, hbody⟩ := r.text_concat
      obtain ⟨rest', c, rfl⟩ := List.eq_nil_or_concat rest |>.resolve_left hrest
      rw [htext, List.concat_eq_append, ← List.append_assoc] at hbody
      have hc : c = '}' := by
        have := (List.append_inj' hbody rfl).2
        simpa using this
      have hall := List.dropWhile_eq_nil_iff.mp hspace c (by simp)
      rw [hc] at hall
      cases hall

/-! ## The stream -/

/-- How many requests have arrived with the first `n` characters of their stream.  The line
end is not waited for. -/
def arrived : List RpcRequest → Nat → Nat
  | [], _ => 0
  | r :: rs, n => if n < r.text.length then 0 else arrived rs (n - (r.text.length + 1)) + 1

/-- What the daemon has got when its connection ends, from the pieces it has read. -/
def requestsFed (chunks : List (List Char)) : List RpcRequest :=
  ((Lines.feed '\n' [] chunks).1.map (fun l => l ++ ['\n']) ++
    if (Lines.feed '\n' [] chunks).2 = [] then [] else [(Lines.feed '\n' [] chunks).2]).filterMap
      incoming?

theorem requestsFed_eq (chunks : List (List Char)) :
    requestsFed chunks = requestsRead chunks.flatten := by
  simp only [requestsFed, requestsRead, Lines.tokens, Lines.feed_eq, List.nil_append]

theorem RpcRequest.text_ne_nil (r : RpcRequest) : 0 < r.text.length := by
  obtain ⟨body, hbody⟩ := r.text_concat
  simp [hbody]

theorem arrived_zero (reqs : List RpcRequest) : arrived reqs 0 = 0 := by
  cases reqs with
  | nil => rfl
  | cons r rs => simp [arrived, r.text_ne_nil]

theorem requestsRead_take {reqs : List RpcRequest} (hrange : ∀ r ∈ reqs, r.params.InRange) :
    ∀ n, requestsRead ((requestStream reqs).take n) = reqs.take (arrived reqs n) := by
  induction reqs with
  | nil => intro n; simp [requestStream, Lines.unlines, requestsRead, Lines.tokens, Lines.split]
  | cons r rs ih =>
      intro n
      have hline : '\n' ∉ r.text := r.json_within.not_mem_text
      have hr := hrange r List.mem_cons_self
      have hstream : requestStream (r :: rs) = r.text ++ '\n' :: requestStream rs := by
        simp [requestStream, Lines.unlines]
      rw [hstream]
      rcases Nat.lt_trichotomy n r.text.length with hlt | heq | hgt
      · -- the stream ends in this request
        have htake : (r.text ++ '\n' :: requestStream rs).take n = r.text.take n := by
          rw [List.take_append_of_le_length hlt.le]
        have hnot : '\n' ∉ r.text.take n := fun h => hline (List.mem_of_mem_take h)
        have hnone : incoming? (r.text.take n) = none :=
          r.incoming?_cut (List.take_append_drop n r.text).symm fun h => by
            have := List.drop_eq_nil_iff.mp h
            omega
        rw [htake, arrived, if_pos hlt, requestsRead, Lines.tokens_of_not_mem hnot]
        split_ifs <;> simp [hnone]
      · -- it ends right after it
        have htake : (r.text ++ '\n' :: requestStream rs).take n = r.text := by
          rw [heq, List.take_left]
        have hread := RpcRequest.incoming?_text hr (show skipSpace [] = [] from rfl)
        rw [List.append_nil] at hread
        rw [htake, arrived, if_neg (by omega), show n - (r.text.length + 1) = 0 by omega,
          arrived_zero, requestsRead, Lines.tokens_of_not_mem hline,
          if_neg (List.ne_nil_of_length_pos r.text_ne_nil)]
        simp [hread]
      · -- it goes on
        have htake : (r.text ++ '\n' :: requestStream rs).take n =
            r.text ++ '\n' :: (requestStream rs).take (n - (r.text.length + 1)) := by
          obtain ⟨k, rfl⟩ := Nat.exists_eq_add_of_lt hgt
          rw [show r.text.length + k + 1 = r.text.length + (k + 1) from rfl,
            List.take_length_add_append, List.take_succ_cons,
            show r.text.length + (k + 1) - (r.text.length + 1) = k by omega]
        have hread := RpcRequest.incoming?_text hr (show skipSpace ['\n'] = [] from rfl)
        rw [htake, arrived, if_neg (by omega), requestsRead, Lines.tokens_line hline,
          List.filterMap_cons, hread]
        exact congrArg (r :: ·) (ih (fun r hr => hrange r (List.mem_cons_of_mem _ hr)) _)

/-- A stream that has arrived whole. -/
theorem requestsRead_all {reqs : List RpcRequest} (hrange : ∀ r ∈ reqs, r.params.InRange) :
    requestsRead (requestStream reqs) = reqs := by
  have hlines : ∀ l ∈ reqs.map RpcRequest.text, '\n' ∉ l := by
    intro l hl
    obtain ⟨r, _, rfl⟩ := List.mem_map.mp hl
    exact r.json_within.not_mem_text
  rw [requestsRead, requestStream, Lines.tokens_unlines hlines]
  clear hlines
  induction reqs with
  | nil => rfl
  | cons r rs ih =>
      have hr := RpcRequest.incoming?_text (hrange r List.mem_cons_self)
        (show skipSpace ['\n'] = [] from rfl)
      rw [List.map_cons, List.map_cons, List.filterMap_cons, hr]
      exact congrArg (r :: ·) (ih fun r hr => hrange r (List.mem_cons_of_mem _ hr))

/-- However the stream is divided on the way and wherever it breaks off, the daemon gets exactly
the requests whose text has arrived, as they were sent and in order. -/
theorem requests_read_back {reqs : List RpcRequest} (hrange : ∀ r ∈ reqs, r.params.InRange)
    {chunks : List (List Char)} (hcut : chunks.flatten <+: requestStream reqs) :
    requestsFed chunks = reqs.take (arrived reqs chunks.flatten.length) := by
  rw [requestsFed_eq]
  conv_lhs => rw [List.prefix_iff_eq_take.mp hcut]
  exact requestsRead_take hrange _

/-- A message with a line end in it, and a reply to it. -/
def twoRequests : List RpcRequest :=
  [⟨"id-a", ⟨"+1", "one\ntwo", ["/a.png"], ["+2"], [], 0, ""⟩⟩,
   ⟨"id-b", ⟨"+1", "<three>", [], [], ["g="], 1700, "+1"⟩⟩]

/-- The stream of both breaks off in the second one, after it was divided in the first. -/
theorem twoRequests_cut :
    requestsFed [(requestStream twoRequests).take 50,
      ((requestStream twoRequests).drop 50).take 120] = twoRequests.take 1 := by
  have hcut : [(requestStream twoRequests).take 50,
      ((requestStream twoRequests).drop 50).take 120].flatten <+: requestStream twoRequests := by
    decide +kernel
  have hlen : arrived twoRequests ([(requestStream twoRequests).take 50,
      ((requestStream twoRequests).drop 50).take 120].flatten.length) = 1 := by
    decide +kernel
  have hread := requests_read_back (by simp [twoRequests, SendParams.InRange]) hcut
  rw [hread, hlen]

/-! ## Replies -/

/-- What `dispatchFrame` trims. -/
def isLineEnd (c : Char) : Bool := c = '\n' || c = '\r' || c = ' '

/-- The beginning of `dispatchFrame`: the line is trimmed, and unmarshalled unless it is
empty. -/
def Line.ofText (line : List Char) : Line :=
  if line.rdropWhile isLineEnd = [] then .blank
  else
    match parseText (line.rdropWhile isLineEnd) with
    | some v => .json v
    | none => .malformed

/-- The line is blank or a JSON text. -/
def Line.isText : Line → Bool
  | .malformed => false
  | _ => true

/-- The frames `readLoop` sees of a stream until it ends. -/
def framesRead (stream : List Char) : List RpcFrame :=
  (Lines.tokens '\n' stream).filterMap fun line => (Line.ofText line).frame?

theorem Line.ofText_newline (line : List Char) :
    Line.ofText (line ++ ['\n']) = Line.ofText line := by
  unfold Line.ofText
  rw [List.rdropWhile_concat_pos _ _ _ rfl]

/-- The text of a line that holds a frame. -/
theorem Line.ofText_json {line : List Char} {f : RpcFrame}
    (h : (Line.ofText line).frame? = some f) :
    ∃ v, Line.ofText line = .json v ∧ parseText (line.rdropWhile isLineEnd) = some v ∧
      line.rdropWhile isLineEnd ≠ [] ∧ ∀ lit, v ≠ .num lit := by
  unfold Line.ofText at h ⊢
  split at h
  · cases h
  · next hne =>
      rw [if_neg hne]
      cases hp : parseText (line.rdropWhile isLineEnd) with
      | none => rw [hp] at h; cases h
      | some v =>
          rw [hp] at h
          refine ⟨v, rfl, rfl, hne, ?_⟩
          rintro lit rfl
          cases h

/-- The trimmed text of a beginning that is not blank begins the trimmed text of the line. -/
theorem rdropWhile_prefix_of_prefix {part line : List Char} (hpart : part <+: line)
    (hne : part.rdropWhile isLineEnd ≠ []) :
    part.rdropWhile isLineEnd <+: line.rdropWhile isLineEnd := by
  have hline := (List.rdropWhile_prefix isLineEnd part).trans hpart
  rcases List.prefix_or_prefix_of_prefix hline (List.rdropWhile_prefix isLineEnd line) with h | h
  · exact h
  · -- otherwise the last character of the beginning would be one that is trimmed
    obtain ⟨more, hmore⟩ := h
    cases hlast : more.getLast? with
    | none =>
        rw [List.getLast?_eq_none_iff.mp hlast, List.append_nil] at hmore
        rw [hmore]
    | some c =>
        have hc : ¬ isLineEnd c = true := by
          have := List.rdropWhile_last_not isLineEnd part hne
          rwa [List.getLast_of_getLast?_eq_some (by rw [← hmore, List.getLast?_append, hlast]; rfl)]
            at this
        have hmem : c ∈ line.rtakeWhile isLineEnd := by
          have hall := List.rdropWhile_append_rtakeWhile (p := isLineEnd) (l := line)
          rw [← hmore] at hline
          conv at hline => rhs; rw [← hall]
          exact ((List.prefix_append_right_inj _).mp hline).subset
            (List.mem_of_getLast? hlast)
        exact absurd (List.mem_rtakeWhile_imp hmem) hc

/-- A line that broke off is the line, or no frame. -/
theorem Line.ofText_cut {part line : List Char} (hline : (Line.ofText line).isText = true)
    (hpart : part <+: line) :
    (Line.ofText part).frame? = none ∨ Line.ofText part = Line.ofText line := by
  cases hf : (Line.ofText part).frame? with
  | none => exact Or.inl rfl
  | some f =>
      obtain ⟨v, hv, hparse, hne, hnum⟩ := Line.ofText_json hf
      obtain ⟨more, hmore⟩ := rdropWhile_prefix_of_prefix hpart hne
      refine Or.inr ?_
      rw [hv]
      unfold Line.ofText at hline ⊢
      have hne' : line.rdropWhile isLineEnd ≠ [] := by
        rw [← hmore]
        simp [hne]
      rw [if_neg hne'] at hline ⊢
      cases hp : parseText (line.rdropWhile isLineEnd) with
      | none => rw [hp] at hline; cases hline
      | some w =>
          rw [← hmore] at hp
          rw [(parseText_cut hparse hp hnum).1]

/-- Where every line is blank or a JSON text, the client takes no line that broke off for
another one: wherever the stream ends, it has seen a beginning of the frames, each as it was
sent. -/
theorem replies_cut_off {stream part : List Char}
    (hlines : ∀ line ∈ Lines.tokens '\n' stream, (Line.ofText line).isText = true)
    (hpart : part <+: stream) : framesRead part <+: framesRead stream := by
  refine Lines.filterMap_tokens_prefix _ (fun line hline cut hcut => ?_) hpart
  rcases Line.ofText_cut (hlines line hline) hcut with hnone | hsame
  · exact Or.inl hnone
  · exact Or.inr (congrArg Line.frame? hsame)

/-- A reply, a blank line and a notification. -/
def twoReplies : List Char :=
  (Json.obj [("id", .str "id-a"), ("result", .obj [("timestamp", .num "1700")])]).text ++
    ['\r', '\n', '\n'] ++ (Json.obj [("method", .str "receive")]).text ++ [' ', '\n']

/-- The connection ends before the last brace of the notification. -/
theorem twoReplies_cut :
    (framesRead (twoReplies.take 63)).length = 1 ∧ (framesRead twoReplies).length = 2 ∧
      framesRead (twoReplies.take 63) <+: framesRead twoReplies :=
  ⟨by decide +kernel, by decide +kernel,
    replies_cut_off (by decide +kernel) (List.take_prefix _ _)⟩

end Signalium
