import Signalium.Lib.Readers
import Signalium.Signal.Wire

/-!
# The text of JSON values

`json.Marshal` and the grammar `json.Unmarshal` accepts, over the values of
`Signal.Wire`.

The writer is compact, and escapes what may not stand in a string, the characters
`<`, `>` and `&`, and the two line separators of Unicode.  The reader accepts white
space between the tokens, all escapes, and at most ten thousand levels of nesting.
A pair of surrogates is one character, and a surrogate alone is read as the
replacement character.

Here are the definitions, and the two tokens that are more than one character:
strings and numbers, each read back as it was written, and each with what more input
at its end does.
-/

namespace Signalium

open Readers

/-! ## Characters -/

/-- The white space of JSON. -/
def isJsonSpace (c : Char) : Bool := c = ' ' || c = '\t' || c = '\r' || c = '\n'

def skipSpace (cs : List Char) : List Char := cs.dropWhile isJsonSpace

/-- The digits of `\u` escapes, as the writer writes them. -/
def hexDigit (n : Nat) : Char := if n < 10 then Char.ofNat (48 + n) else Char.ofNat (87 + n)

/-- The value of a digit of a `\u` escape, in either case. -/
def hexValue (c : Char) : Option Nat :=
  if c.isDigit then some (c.toNat - 48)
  else if 'a' ≤ c ∧ c ≤ 'f' then some (c.toNat - 87)
  else if 'A' ≤ c ∧ c ≤ 'F' then some (c.toNat - 55)
  else none

/-- `getu4`, after the `\u`. -/
def hexValue4 (a b c d : Char) : Option Nat := do
  let a ← hexValue a
  let b ← hexValue b
  let c ← hexValue c
  let d ← hexValue d
  some (((a * 16 + b) * 16 + c) * 16 + d)

/-- A `\u` escape. -/
def unicodeEscape (n : Nat) : List Char :=
  ['\\', 'u', hexDigit (n / 4096 % 16), hexDigit (n / 256 % 16), hexDigit (n / 16 % 16),
    hexDigit (n % 16)]

/-- How `json.Marshal` writes a character of a string. -/
def escapeChar (c : Char) : List Char :=
  if c = '"' then ['\\', '"']
  else if c = '\\' then ['\\', '\\']
  else if c.toNat = 8 then ['\\', 'b']
  else if c.toNat = 12 then ['\\', 'f']
  else if c = '\n' then ['\\', 'n']
  else if c = '\r' then ['\\', 'r']
  else if c = '\t' then ['\\', 't']
  else if c.toNat < 32 ∨ c = '<' ∨ c = '>' ∨ c = '&' ∨ c.toNat = 0x2028 ∨ c.toNat = 0x2029 then
    unicodeEscape c.toNat
  else [c]

/-- The character of an escape of two. -/
def unescape (e : Char) : Option Char :=
  if e = '"' ∨ e = '\\' ∨ e = '/' then some e
  else if e = 'b' then some (Char.ofNat 8)
  else if e = 'f' then some (Char.ofNat 12)
  else if e = 'n' then some '\n'
  else if e = 'r' then some '\r'
  else if e = 't' then some '\t'
  else none

/-- A part of a string: a character, or the number of a `\u` escape. -/
inductive StringUnit where
  | char (c : Char)
  | code (n : Nat)
deriving DecidableEq, Repr

/-- The parts of a string up to the closing quote. -/
def readUnits : Reader Char (List StringUnit)
  | [] => none
  | c :: cs =>
      if c = '"' then some ([], cs)
      else if c = '\\' then
        match cs with
        | [] => none
        | e :: cs =>
            if e = 'u' then
              match cs with
              | h₁ :: h₂ :: h₃ :: h₄ :: cs =>
                  (hexValue4 h₁ h₂ h₃ h₄).bind fun n =>
                    (readUnits cs).map fun p => (.code n :: p.1, p.2)
              | _ => none
            else (unescape e).bind fun x => (readUnits cs).map fun p => (.char x :: p.1, p.2)
      else if c.toNat < 32 then none
      else (readUnits cs).map fun p => (.char c :: p.1, p.2)

def isSurrogate (n : Nat) : Bool := 0xd800 ≤ n && n < 0xe000

/-- The character of two surrogates, the first one high and the second one low. -/
def surrogatePair (n m : Nat) : Option Char :=
  if 0xd800 ≤ n ∧ n < 0xdc00 ∧ 0xdc00 ≤ m ∧ m < 0xe000 then
    some (Char.ofNat (0x10000 + (n - 0xd800) * 0x400 + (m - 0xdc00)))
  else none

/-- The characters of a string, as `unquote` puts them together. -/
def decodeUnits : List StringUnit → List Char
  | [] => []
  | .char c :: us => c :: decodeUnits us
  | .code n :: us =>
      let rest := decodeUnits us
      if isSurrogate n then
        match us with
        | .code m :: us' =>
            match surrogatePair n m with
            | some c => c :: decodeUnits us'
            | none => '\ufffd' :: rest
        | _ => '\ufffd' :: rest
      else Char.ofNat n :: rest

/-- A string, after its opening quote. -/
def readString : Reader Char String := fun cs =>
  (readUnits cs).map fun p => (String.ofList (decodeUnits p.1), p.2)

/-! ## Numbers -/

/-- The characters a number can have. -/
def isNumberChar (c : Char) : Bool :=
  c.isDigit || c = '-' || c = '+' || c = '.' || c = 'e' || c = 'E'

/-- The end of a literal from the exponent on. -/
def isExponent : List Char → Bool
  | [] => true
  | e :: cs =>
      (e = 'e' || e = 'E') &&
        match cs with
        | [] => false
        | s :: ds => if s = '+' || s = '-' then ds ≠ [] && ds.all Char.isDigit
            else (s :: ds).all Char.isDigit

/-- The end of a literal from the fraction on. -/
def isFraction : List Char → Bool
  | '.' :: d :: cs => d.isDigit && isExponent (cs.dropWhile Char.isDigit)
  | cs => isExponent cs

/-- A literal without its sign. -/
def isUnsigned : List Char → Bool
  | [] => false
  | d :: cs =>
      if d = '0' then isFraction cs
      else d.isDigit && isFraction (cs.dropWhile Char.isDigit)

/-- The literals of JSON numbers. -/
def isNumberLiteral : List Char → Bool
  | [] => false
  | c :: cs => if c = '-' then isUnsigned cs else isUnsigned (c :: cs)

/-- A number: as many characters as it can have. -/
def readNumber : Reader Char String := fun cs =>
  if isNumberLiteral (cs.takeWhile isNumberChar) then
    some (String.ofList (cs.takeWhile isNumberChar), cs.dropWhile isNumberChar)
  else none

/-! ## Values -/

/-- An array, after its bracket. -/
def readArray (value : Reader Char Json) : Reader Char Json := fun cs =>
  match skipSpace cs with
  | [] => none
  | c :: rest =>
      if c = ']' then some (.arr [], rest)
      else (sepClose skipSpace value ',' ']' cs.length cs).map fun p => (.arr p.1, p.2)

/-- A member of an object. -/
def readMember (value : Reader Char Json) : Reader Char (String × Json) := fun cs =>
  match skipSpace cs with
  | [] => none
  | c :: rest =>
      if c = '"' then
        (readString rest).bind fun k =>
          match skipSpace k.2 with
          | [] => none
          | c :: rest =>
              if c = ':' then (value rest).map fun v => ((k.1, v.1), v.2) else none
      else none

/-- An object, after its brace. -/
def readObject (value : Reader Char Json) : Reader Char Json := fun cs =>
  match skipSpace cs with
  | [] => none
  | c :: rest =>
      if c = '}' then some (.obj [], rest)
      else (sepClose skipSpace (readMember value) ',' '}' cs.length cs).map
        fun p => (.obj p.1, p.2)

/-- A value, with as many levels of nesting as the first argument. -/
def readValue : Nat → Reader Char Json
  | depth, cs =>
      match skipSpace cs with
      | [] => none
      | c :: rest =>
          if c = '"' then (readString rest).map fun p => (.str p.1, p.2)
          else if c = '[' then
            match depth with
            | 0 => none
            | d + 1 => readArray (readValue d) rest
          else if c = '{' then
            match depth with
            | 0 => none
            | d + 1 => readObject (readValue d) rest
          else if c = 't' then word ['r', 'u', 'e'] (.bool true) rest
          else if c = 'f' then word ['a', 'l', 's', 'e'] (.bool false) rest
          else if c = 'n' then word ['u', 'l', 'l'] .null rest
          else if c.isDigit || c = '-' then
            (readNumber (c :: rest)).map fun p => (.num p.1, p.2)
          else none

/-- `maxNestingDepth`. -/
def maxNestingDepth : Nat := 10000

/-- The value `json.Unmarshal` sees in a text. -/
def parseText (cs : List Char) : Option Json :=
  (readValue maxNestingDepth cs).bind fun p => if skipSpace p.2 = [] then some p.1 else none

/-- A string with its quotes. -/
def quoteText (s : String) : List Char := '"' :: (s.toList.flatMap escapeChar ++ ['"'])

mutual

/-- `json.Marshal`. -/
def Json.text : Json → List Char
  | .null => ['n', 'u', 'l', 'l']
  | .bool true => ['t', 'r', 'u', 'e']
  | .bool false => ['f', 'a', 'l', 's', 'e']
  | .num lit => lit.toList
  | .str s => quoteText s
  | .arr elems => '[' :: Json.textElems elems
  | .obj members => '{' :: Json.textMembers members

def Json.textElems : List Json → List Char
  | [] => [']']
  | [v] => v.text ++ [']']
  | v :: v' :: vs => v.text ++ ',' :: Json.textElems (v' :: vs)

def Json.textMembers : List (String × Json) → List Char
  | [] => ['}']
  | [(k, v)] => quoteText k ++ ':' :: (v.text ++ ['}'])
  | (k, v) :: m :: ms => quoteText k ++ ':' :: (v.text ++ ',' :: Json.textMembers (m :: ms))

end

/-! ## White space -/

theorem skipSpace_cons {c : Char} (h : isJsonSpace c = false) (cs : List Char) :
    skipSpace (c :: cs) = c :: cs := by
  simp [skipSpace, h]

theorem skipSpace_append (xs ys : List Char) (c : Char) (rest : List Char)
    (h : skipSpace xs = c :: rest) : skipSpace (xs ++ ys) = c :: rest ++ ys := by
  unfold skipSpace at h ⊢
  rw [List.dropWhile_append, h]
  rfl

/-- The reader looks at the first character. -/
theorem readValue_cons (d : Nat) {c : Char} (hc : isJsonSpace c = false) (cs : List Char) :
    readValue d (c :: cs) =
      if c = '"' then (readString cs).map fun p => (.str p.1, p.2)
      else if c = '[' then
        match d with
        | 0 => none
        | d + 1 => readArray (readValue d) cs
      else if c = '{' then
        match d with
        | 0 => none
        | d + 1 => readObject (readValue d) cs
      else if c = 't' then word ['r', 'u', 'e'] (.bool true) cs
      else if c = 'f' then word ['a', 'l', 's', 'e'] (.bool false) cs
      else if c = 'n' then word ['u', 'l', 'l'] .null cs
      else if c.isDigit || c = '-' then (readNumber (c :: cs)).map fun p => (.num p.1, p.2)
      else none := by
  rw [readValue.eq_def]
  simp only [skipSpace_cons hc]

/-! ## Strings -/

theorem hexValue_hexDigit : ∀ n < 16, hexValue (hexDigit n) = some n := by decide

theorem hexValue4_hexDigits {n : Nat} (h : n < 65536) :
    hexValue4 (hexDigit (n / 4096 % 16)) (hexDigit (n / 256 % 16)) (hexDigit (n / 16 % 16))
      (hexDigit (n % 16)) = some n := by
  simp only [hexValue4, hexValue_hexDigit _ (Nat.mod_lt _ (by decide : 0 < 16)),
    Option.bind_eq_bind, Option.bind_some, Option.some.injEq]
  omega

/-- The reader takes an escape of `c` for one part that stands for `c`. -/
theorem readUnits_escapeChar (c : Char) :
    ∃ u : StringUnit,
      (∀ rest, readUnits (escapeChar c ++ rest) =
        (readUnits rest).map fun p => (u :: p.1, p.2)) ∧
      ∀ us, decodeUnits (u :: us) = c :: decodeUnits us := by
  have hshort : ∀ {e : Char}, e ≠ 'u' → unescape e = some c → escapeChar c = ['\\', e] →
      ∃ u : StringUnit,
        (∀ rest, readUnits (escapeChar c ++ rest) =
          (readUnits rest).map fun p => (u :: p.1, p.2)) ∧
        ∀ us, decodeUnits (u :: us) = c :: decodeUnits us := by
    intro e hu he hesc
    refine ⟨.char c, fun rest => ?_, fun us => rfl⟩
    rw [hesc, readUnits.eq_def]
    simp [hu, he]
  have hof : ∀ n : Nat, c.toNat = n → c = Char.ofNat n := by
    rintro n rfl
    exact (Char.ofNat_toNat c).symm
  by_cases h₁ : c = '"'
  · subst h₁; exact hshort (e := '"') (by decide) rfl rfl
  by_cases h₂ : c = '\\'
  · subst h₂; exact hshort (e := '\\') (by decide) rfl rfl
  by_cases h₃ : c.toNat = 8
  · cases hof 8 h₃; exact hshort (e := 'b') (by decide) rfl rfl
  by_cases h₄ : c.toNat = 12
  · cases hof 12 h₄; exact hshort (e := 'f') (by decide) rfl rfl
  by_cases h₅ : c = '\n'
  · subst h₅; exact hshort (e := 'n') (by decide) rfl rfl
  by_cases h₆ : c = '\r'
  · subst h₆; exact hshort (e := 'r') (by decide) rfl rfl
  by_cases h₇ : c = '\t'
  · subst h₇; exact hshort (e := 't') (by decide) rfl rfl
  by_cases h₈ : c.toNat < 32 ∨ c = '<' ∨ c = '>' ∨ c = '&' ∨ c.toNat = 0x2028 ∨ c.toNat = 0x2029
  · have hesc : escapeChar c = unicodeEscape c.toNat := by
      rw [escapeChar, if_neg h₁, if_neg h₂, if_neg h₃, if_neg h₄, if_neg h₅, if_neg h₆, if_neg h₇]
      exact if_pos h₈
    have hrange : c.toNat < 0x2030 := by
      rcases h₈ with h | rfl | rfl | rfl | h | h
      · omega
      · decide
      · decide
      · decide
      · omega
      · omega
    refine ⟨.code c.toNat, fun rest => ?_, fun us => ?_⟩
    · rw [hesc, readUnits.eq_def]
      simp [unicodeEscape, hexValue4_hexDigits (show c.toNat < 65536 by omega)]
    · have hs : isSurrogate c.toNat = false := by
        simp only [isSurrogate, Bool.and_eq_false_iff, decide_eq_false_iff_not]
        omega
      rw [decodeUnits.eq_def]
      simp [hs, Char.ofNat_toNat]
  · have hesc : escapeChar c = [c] := by
      rw [escapeChar, if_neg h₁, if_neg h₂, if_neg h₃, if_neg h₄, if_neg h₅, if_neg h₆, if_neg h₇]
      exact if_neg h₈
    have hctl : ¬ c.toNat < 32 := fun h => h₈ (Or.inl h)
    refine ⟨.char c, fun rest => ?_, fun us => rfl⟩
    rw [hesc, readUnits.eq_def]
    simp [h₁, h₂, hctl]

/-- A string is read back. -/
theorem readString_escaped (s : String) (rest : List Char) :
    readString (s.toList.flatMap escapeChar ++ '"' :: rest) = some (s, rest) := by
  have hunits : ∀ cs : List Char, ∃ us,
      readUnits (cs.flatMap escapeChar ++ '"' :: rest) = some (us, rest) ∧
        decodeUnits us = cs := by
    intro cs
    induction cs with
    | nil => exact ⟨[], by rw [readUnits.eq_def]; simp, rfl⟩
    | cons c cs ih =>
        obtain ⟨us, hus, hdec⟩ := ih
        obtain ⟨u, hread, hu⟩ := readUnits_escapeChar c
        refine ⟨u :: us, ?_, by rw [hu, hdec]⟩
        rw [List.flatMap_cons, List.append_assoc, hread, hus]
        rfl
  obtain ⟨us, hus, hdec⟩ := hunits s.toList
  simp [readString, hus, hdec]

/-- The reader for one more part. -/
theorem map_cons_eq_some {u : StringUnit} {cs : List Char} {us : List StringUnit}
    {rest : List Char} (h : ((readUnits cs).map fun p => (u :: p.1, p.2)) = some (us, rest)) :
    ∃ us', readUnits cs = some (us', rest) ∧ us = u :: us' := by
  obtain ⟨⟨us', rest'⟩, hread, he⟩ := Option.map_eq_some_iff.mp h
  cases he
  exact ⟨us', hread, rfl⟩

theorem closed_readUnits : Closed readUnits := by
  -- a part takes two or six characters or one, so the induction is on the length
  suffices ∀ n, ∀ xs : List Char, xs.length ≤ n → ∀ us rest, readUnits xs = some (us, rest) →
      ∀ ys, readUnits (xs ++ ys) = some (us, rest ++ ys) from
    fun xs => this xs.length xs (Nat.le_refl _)
  intro n
  induction n with
  | zero =>
      intro xs hn us rest h
      rw [List.length_eq_zero_iff.mp (Nat.le_zero.mp hn), readUnits.eq_def] at h
      cases h
  | succ n ih =>
      intro xs hn us rest h ys
      cases xs with
      | nil => rw [readUnits.eq_def] at h; cases h
      | cons c cs =>
          simp only [List.length_cons] at hn
          rw [List.cons_append, readUnits.eq_def]
          rw [readUnits.eq_def] at h
          simp only at h ⊢
          by_cases h₁ : c = '"'
          · rw [if_pos h₁] at h ⊢
            cases h
            rfl
          rw [if_neg h₁] at h ⊢
          by_cases h₂ : c = '\\'
          · rw [if_pos h₂] at h ⊢
            cases cs with
            | nil => cases h
            | cons e cs =>
                simp only [List.length_cons, List.cons_append] at hn h ⊢
                by_cases hu : e = 'u'
                · rw [if_pos hu] at h ⊢
                  match cs with
                  | [] | [_] | [_, _] | [_, _, _] => cases h
                  | h₁ :: h₂ :: h₃ :: h₄ :: cs =>
                      simp only [List.length_cons, List.cons_append] at hn h ⊢
                      obtain ⟨m, hm, hmap⟩ := Option.bind_eq_some_iff.mp h
                      obtain ⟨us', hread, rfl⟩ := map_cons_eq_some hmap
                      rw [hm, Option.bind_some, ih cs (by omega) us' rest hread ys]
                      rfl
                · rw [if_neg hu] at h ⊢
                  obtain ⟨x, hx, hmap⟩ := Option.bind_eq_some_iff.mp h
                  obtain ⟨us', hread, rfl⟩ := map_cons_eq_some hmap
                  rw [hx, Option.bind_some, ih cs (by omega) us' rest hread ys]
                  rfl
          · rw [if_neg h₂] at h ⊢
            split_ifs at h ⊢
            obtain ⟨us', hread, rfl⟩ := map_cons_eq_some h
            rw [ih cs (by omega) us' rest hread ys]
            rfl

theorem closed_readString : Closed readString := by
  intro xs s rest h ys
  obtain ⟨⟨us, rest'⟩, hread, he⟩ := Option.map_eq_some_iff.mp h
  cases he
  unfold readString
  rw [closed_readUnits xs us rest' hread ys]
  rfl

/-! ## Numbers -/

theorem isNumberChar_of_isDigit {c : Char} (h : c.isDigit = true) : isNumberChar c = true := by
  simp [isNumberChar, h]

theorem all_isNumberChar_of_isDigit {cs : List Char} (h : cs.all Char.isDigit = true) :
    cs.all isNumberChar = true :=
  List.all_eq_true.mpr fun c hc => isNumberChar_of_isDigit (List.all_eq_true.mp h c hc)

/-- Digits and what follows them. -/
theorem all_isNumberChar_of_dropWhile {cs : List Char}
    (h : (cs.dropWhile Char.isDigit).all isNumberChar = true) : cs.all isNumberChar = true := by
  rw [← List.takeWhile_append_dropWhile (p := Char.isDigit) (l := cs), List.all_append, h,
    Bool.and_true]
  exact all_isNumberChar_of_isDigit List.all_takeWhile

theorem all_isNumberChar_of_isExponent {cs : List Char} (h : isExponent cs = true) :
    cs.all isNumberChar = true := by
  cases cs with
  | nil => rfl
  | cons e cs =>
      simp only [isExponent, Bool.and_eq_true, Bool.or_eq_true, decide_eq_true_eq] at h
      obtain ⟨he, hcs⟩ := h
      have hchar : isNumberChar e = true := by rcases he with rfl | rfl <;> decide
      rw [List.all_cons, hchar, Bool.true_and]
      cases cs with
      | nil => cases hcs
      | cons s ds =>
          simp only at hcs
          split_ifs at hcs with hs
          · have hsign : isNumberChar s = true := by
              have hs' : s = '+' ∨ s = '-' := by simpa using hs
              rcases hs' with rfl | rfl <;> decide
            rw [List.all_cons, hsign, Bool.true_and]
            exact all_isNumberChar_of_isDigit (Bool.and_eq_true_iff.mp hcs).2
          · exact all_isNumberChar_of_isDigit hcs

theorem all_isNumberChar_of_isFraction {cs : List Char} (h : isFraction cs = true) :
    cs.all isNumberChar = true := by
  unfold isFraction at h
  split at h
  · next d cs =>
      obtain ⟨hd, hexp⟩ := Bool.and_eq_true_iff.mp h
      rw [List.all_cons, List.all_cons, isNumberChar_of_isDigit hd,
        all_isNumberChar_of_dropWhile (all_isNumberChar_of_isExponent hexp)]
      rfl
  · exact all_isNumberChar_of_isExponent h

theorem all_isNumberChar_of_isUnsigned {cs : List Char} (h : isUnsigned cs = true) :
    cs.all isNumberChar = true := by
  cases cs with
  | nil => rfl
  | cons d cs =>
      simp only [isUnsigned] at h
      split_ifs at h with hd
      · subst hd
        rw [List.all_cons, all_isNumberChar_of_isFraction h]
        rfl
      · obtain ⟨hdigit, hrest⟩ := Bool.and_eq_true_iff.mp h
        rw [List.all_cons, isNumberChar_of_isDigit hdigit, Bool.true_and]
        exact all_isNumberChar_of_dropWhile (all_isNumberChar_of_isFraction hrest)

theorem all_isNumberChar {cs : List Char} (h : isNumberLiteral cs = true) :
    cs.all isNumberChar = true := by
  cases cs with
  | nil => rfl
  | cons c cs =>
      simp only [isNumberLiteral] at h
      split_ifs at h with hc
      · subst hc
        rw [List.all_cons, all_isNumberChar_of_isUnsigned h]
        rfl
      · exact all_isNumberChar_of_isUnsigned h

/-- What follows does not go on with a number. -/
def Stops (rest : List Char) : Prop := ∀ c ∈ rest.head?, isNumberChar c = false

theorem takeWhile_dropWhile_of_stops {lit rest : List Char} (hlit : lit.all isNumberChar = true)
    (hrest : Stops rest) :
    (lit ++ rest).takeWhile isNumberChar = lit ∧ (lit ++ rest).dropWhile isNumberChar = rest := by
  have hall : ∀ c ∈ lit, isNumberChar c = true := List.all_eq_true.mp hlit
  have htake : rest.takeWhile isNumberChar = [] ∧ rest.dropWhile isNumberChar = rest := by
    cases rest with
    | nil => exact ⟨rfl, rfl⟩
    | cons c rest => simp [hrest c rfl]
  rw [List.takeWhile_append_of_pos hall, List.dropWhile_append_of_pos hall, htake.1, htake.2,
    List.append_nil]
  exact ⟨rfl, rfl⟩

/-- A number is read back, if what follows does not go on with it. -/
theorem readNumber_append {lit rest : List Char} (hlit : isNumberLiteral lit = true)
    (hrest : Stops rest) : readNumber (lit ++ rest) = some (String.ofList lit, rest) := by
  obtain ⟨htake, hdrop⟩ := takeWhile_dropWhile_of_stops (all_isNumberChar hlit) hrest
  unfold readNumber
  rw [htake, hdrop, if_pos hlit]

theorem extends_readNumber : Extends readNumber := by
  intro xs s rest h hne ys
  unfold readNumber at h ⊢
  split at h
  · next hlit =>
      cases h
      have hlen : (xs.takeWhile isNumberChar).length ≠ xs.length := by
        intro hlen
        have hsum := congrArg List.length
          (List.takeWhile_append_dropWhile (p := isNumberChar) (l := xs))
        rw [List.length_append, hlen] at hsum
        exact hne (List.length_eq_zero_iff.mp (by omega))
      rw [List.takeWhile_append, if_neg hlen, if_pos hlit, List.dropWhile_append,
        if_neg (by simpa using hne)]
  · cases h

end Signalium
