import Mathlib.Data.List.TakeWhile
import Signalium.Signal.JsonText

/-!
# JSON texts on a line

Three facts about the texts of JSON values.  What the writer writes is read back
(`Json.Within.parse_text`).  It holds no line end (`Json.Within.not_mem_text`), so a
text is one line.  And a reader that finds a value other than a number at the front
of a text finds it at the front of every longer one (`readValue_append`), so a text
that was cut off is not taken for another one (`parseText_cut`).

The second one needs that the numbers in a value are literals, which the decimal
forms of integers are (`isNumberLiteral_formatInt`).
-/

namespace Signalium

open Readers

/-! ## Values -/

/-- A value whose numbers are literals and that has at most so many levels of nesting. -/
inductive Json.Within : Nat → Json → Prop where
  | null {d : Nat} : Within d .null
  | bool {d : Nat} {b : Bool} : Within d (.bool b)
  | num {d : Nat} {lit : String} : isNumberLiteral lit.toList = true → Within d (.num lit)
  | str {d : Nat} {s : String} : Within d (.str s)
  | arr {d : Nat} {elems : List Json} : (∀ v ∈ elems, Within d v) → Within (d + 1) (.arr elems)
  | obj {d : Nat} {members : List (String × Json)} : (∀ m ∈ members, Within d m.2) →
      Within (d + 1) (.obj members)

/-- The text of a member. -/
def memberText (m : String × Json) : List Char := quoteText m.1 ++ ':' :: m.2.text

theorem Json.textElems_eq (elems : List Json) :
    Json.textElems elems = putSep ',' ']' Json.text elems := by
  induction elems with
  | nil => rfl
  | cons v vs ih =>
      cases vs with
      | nil => rw [Json.textElems, putSep]
      | cons v' vs => rw [Json.textElems, putSep, ih]

theorem Json.textMembers_eq (members : List (String × Json)) :
    Json.textMembers members = putSep ',' '}' memberText members := by
  induction members with
  | nil => rfl
  | cons m ms ih =>
      obtain ⟨k, v⟩ := m
      cases ms with
      | nil => simp [Json.textMembers, putSep, memberText]
      | cons m' ms => simp [Json.textMembers, putSep, memberText, ih]

theorem quoteText_append (s : String) (rest : List Char) :
    quoteText s ++ rest = '"' :: (s.toList.flatMap escapeChar ++ '"' :: rest) := by
  simp [quoteText]

/-- The first character of a value says what it is, and is neither space nor a bracket that
closes. -/
theorem Json.Within.text_cons {d : Nat} {v : Json} (h : v.Within d) :
    ∃ c cs, v.text = c :: cs ∧ isJsonSpace c = false ∧ c ≠ ']' ∧ c ≠ '}' := by
  cases h with
  | null => exact ⟨'n', ['u', 'l', 'l'], rfl, rfl, by decide, by decide⟩
  | @bool _ b =>
      cases b with
      | true => exact ⟨'t', ['r', 'u', 'e'], rfl, rfl, by decide, by decide⟩
      | false => exact ⟨'f', ['a', 'l', 's', 'e'], rfl, rfl, by decide, by decide⟩
  | @num _ lit hlit =>
      have hall := all_isNumberChar hlit
      cases hcs : lit.toList with
      | nil => rw [hcs] at hlit; cases hlit
      | cons c cs =>
          rw [hcs, List.all_cons, Bool.and_eq_true_iff] at hall
          refine ⟨c, cs, by rw [Json.text, hcs], ?_, ?_, ?_⟩
          · cases hspace : isJsonSpace c with
            | false => rfl
            | true =>
                simp only [isJsonSpace, Bool.or_eq_true, decide_eq_true_eq] at hspace
                rcases hspace with ((rfl | rfl) | rfl) | rfl <;> exact absurd hall.1 (by decide)
          · rintro rfl; exact absurd hall.1 (by decide)
          · rintro rfl; exact absurd hall.1 (by decide)
  | @str _ s => exact ⟨'"', _, by rw [Json.text, quoteText], rfl, by decide, by decide⟩
  | arr _ => exact ⟨'[', _, by rw [Json.text], rfl, by decide, by decide⟩
  | obj _ => exact ⟨'{', _, by rw [Json.text], rfl, by decide, by decide⟩

/-- The separators are no space and no part of a number. -/
theorem stops_of_sep {c close : Char} (hclose : close = ']' ∨ close = '}')
    (hc : c = ',' ∨ c = close) (rest : List Char) :
    Stops (c :: rest) ∧ skipSpace (c :: rest) = c :: rest := by
  have hcs : c = ',' ∨ c = ']' ∨ c = '}' := by
    rcases hc with rfl | rfl
    · exact Or.inl rfl
    · exact Or.inr hclose
  refine ⟨fun x hx => ?_, skipSpace_cons ?_ rest⟩
  · cases hx
    rcases hcs with rfl | rfl | rfl <;> decide
  · rcases hcs with rfl | rfl | rfl <;> decide

theorem readArray_text {value : Reader Char Json} {elems : List Json}
    (hread : ∀ v ∈ elems, ∀ rest, Stops rest → value (v.text ++ rest) = some (v, rest))
    (hcons : ∀ v ∈ elems, ∃ c cs, v.text = c :: cs ∧ isJsonSpace c = false ∧ c ≠ ']' ∧ c ≠ '}')
    (rest : List Char) :
    readArray value (Json.textElems elems ++ rest) = some (.arr elems, rest) := by
  rw [Json.textElems_eq]
  cases elems with
  | nil => simp [putSep, readArray, skipSpace_cons (show isJsonSpace ']' = false by decide)]
  | cons v vs =>
      obtain ⟨c, cs, htext, hspace, hne, _⟩ := hcons v List.mem_cons_self
      obtain ⟨tail, htail⟩ : ∃ tail, putSep ',' ']' Json.text (v :: vs) = c :: tail :=
        putSep_cons htext vs
      have hlen : (v :: vs).length ≤ (putSep ',' ']' Json.text (v :: vs)).length :=
        length_le_putSep _ _
      have hseq : sepClose skipSpace value ',' ']'
          (putSep ',' ']' Json.text (v :: vs) ++ rest).length
          (putSep ',' ']' Json.text (v :: vs) ++ rest) = some (v :: vs, rest) :=
        sepClose_putSep (by decide) (fun c rest hc => (stops_of_sep (Or.inl rfl) hc rest).2)
          (by simp) (fun w hw c rest hc => hread w hw _ (stops_of_sep (Or.inl rfl) hc rest).1)
          (by rw [List.length_append]; omega) rest
      unfold readArray
      rw [hseq, htail, List.cons_append, skipSpace_cons hspace]
      simp [hne]

theorem readMember_text {value : Reader Char Json} {m : String × Json}
    (hread : ∀ rest, Stops rest → value (m.2.text ++ rest) = some (m.2, rest)) {rest : List Char}
    (hrest : Stops rest) : readMember value (memberText m ++ rest) = some (m, rest) := by
  have htext : memberText m ++ rest =
      '"' :: (m.1.toList.flatMap escapeChar ++ '"' :: (':' :: (m.2.text ++ rest))) := by
    simp [memberText, quoteText]
  unfold readMember
  rw [htext, skipSpace_cons (by decide)]
  simp only [if_true, readString_escaped, Option.bind_some]
  rw [skipSpace_cons (by decide)]
  simp [hread rest hrest]

theorem readObject_text {value : Reader Char Json} {members : List (String × Json)}
    (hread : ∀ m ∈ members, ∀ rest, Stops rest → value (m.2.text ++ rest) = some (m.2, rest))
    (rest : List Char) :
    readObject value (Json.textMembers members ++ rest) = some (.obj members, rest) := by
  rw [Json.textMembers_eq]
  cases members with
  | nil => simp [putSep, readObject, skipSpace_cons (show isJsonSpace '}' = false by decide)]
  | cons m ms =>
      obtain ⟨tail, htail⟩ : ∃ tail, putSep ',' '}' memberText (m :: ms) = '"' :: tail :=
        putSep_cons (show memberText m = '"' :: _ from quoteText_append m.1 _) ms
      have hlen : (m :: ms).length ≤ (putSep ',' '}' memberText (m :: ms)).length :=
        length_le_putSep _ _
      have hseq : sepClose skipSpace (readMember value) ',' '}'
          (putSep ',' '}' memberText (m :: ms) ++ rest).length
          (putSep ',' '}' memberText (m :: ms) ++ rest) = some (m :: ms, rest) :=
        sepClose_putSep (by decide) (fun c rest hc => (stops_of_sep (Or.inr rfl) hc rest).2)
          (by simp) (fun w hw c rest hc =>
            readMember_text (hread w hw) (stops_of_sep (Or.inr rfl) hc rest).1)
          (by rw [List.length_append]; omega) rest
      unfold readObject
      rw [hseq, htail, List.cons_append, skipSpace_cons (by decide)]
      simp

/-- The first character of a number. -/
theorem isNumberLiteral_cons {c : Char} {cs : List Char} (h : isNumberLiteral (c :: cs) = true) :
    c.isDigit = true ∨ c = '-' := by
  simp only [isNumberLiteral] at h
  split_ifs at h with hc
  · exact Or.inr hc
  · simp only [isUnsigned] at h
    split_ifs at h with hz
    · subst hz; exact Or.inl rfl
    · exact Or.inl (Bool.and_eq_true_iff.mp h).1

theorem digit_or_minus_ne {c : Char} (h : c.isDigit = true ∨ c = '-') :
    isJsonSpace c = false ∧ c ≠ '"' ∧ c ≠ '[' ∧ c ≠ '{' ∧ c ≠ 't' ∧ c ≠ 'f' ∧ c ≠ 'n' := by
  have hne : ∀ x : Char, x.isDigit = false → x ≠ '-' → c ≠ x := by
    rintro x hx hm rfl
    rcases h with h | h
    · rw [hx] at h; cases h
    · exact hm h
  refine ⟨?_, hne _ rfl (by decide), hne _ rfl (by decide), hne _ rfl (by decide),
    hne _ rfl (by decide), hne _ rfl (by decide), hne _ rfl (by decide)⟩
  simp [isJsonSpace, hne ' ' rfl (by decide), hne '\t' rfl (by decide), hne '\r' rfl (by decide),
    hne '\n' rfl (by decide)]

/-- What the writer writes is read back, if what follows does not go on with a number. -/
theorem Json.Within.readValue_text {d : Nat} {v : Json} (h : v.Within d) :
    ∀ rest, Stops rest → readValue d (v.text ++ rest) = some (v, rest) := by
  induction h with
  | null =>
      intro rest _
      rw [Json.text, List.cons_append, readValue_cons _ (by decide)]
      exact word_append ['u', 'l', 'l'] Json.null rest
  | @bool d b =>
      intro rest _
      cases b with
      | true =>
          rw [Json.text, List.cons_append, readValue_cons _ (by decide)]
          exact word_append ['r', 'u', 'e'] (Json.bool true) rest
      | false =>
          rw [Json.text, List.cons_append, readValue_cons _ (by decide)]
          exact word_append ['a', 'l', 's', 'e'] (Json.bool false) rest
  | @num d lit hlit =>
      intro rest hrest
      cases hcs : lit.toList with
      | nil => rw [hcs] at hlit; cases hlit
      | cons c cs =>
          have hread := readNumber_append hlit hrest
          rw [hcs] at hlit hread
          obtain ⟨h₀, h₁, h₂, h₃, h₄, h₅, h₆⟩ := digit_or_minus_ne (isNumberLiteral_cons hlit)
          have hstart : (c.isDigit || decide (c = '-')) = true := by
            simpa using isNumberLiteral_cons hlit
          rw [Json.text, hcs, List.cons_append, readValue_cons d h₀, if_neg h₁, if_neg h₂,
            if_neg h₃, if_neg h₄, if_neg h₅, if_neg h₆, if_pos hstart, ← List.cons_append, hread]
          simp [← hcs]
  | @str d s =>
      intro rest _
      rw [Json.text, quoteText_append, readValue_cons d (by decide), if_pos rfl,
        readString_escaped]
      rfl
  | @arr d elems helems ih =>
      intro rest _
      rw [Json.text, List.cons_append, readValue_cons _ (by decide)]
      exact readArray_text ih (fun v hv => (helems v hv).text_cons) rest
  | @obj d members hmembers ih =>
      intro rest _
      rw [Json.text, List.cons_append, readValue_cons _ (by decide)]
      exact readObject_text ih rest

/-! ## More input -/

theorem extends_readMember {value : Reader Char Json} (h : Extends value) :
    Extends (readMember value) := by
  intro xs m rest hm hne ys
  unfold readMember at hm ⊢
  cases hs : skipSpace xs with
  | nil => rw [hs] at hm; cases hm
  | cons c cs =>
      rw [hs] at hm
      rw [skipSpace_append xs ys c cs hs]
      simp only [List.cons_append] at hm ⊢
      split_ifs at hm ⊢ with hq
      obtain ⟨⟨k, ks⟩, hk, hrest⟩ := Option.bind_eq_some_iff.mp hm
      rw [closed_readString cs k ks hk ys, Option.bind_some]
      cases hs' : skipSpace ks with
      | nil => simp [hs'] at hrest
      | cons c' cs' =>
          simp only [hs'] at hrest
          rw [skipSpace_append ks ys c' cs' hs']
          simp only [List.cons_append] at hrest ⊢
          split_ifs at hrest ⊢ with hcolon
          obtain ⟨⟨v, vs⟩, hv, he⟩ := Option.map_eq_some_iff.mp hrest
          cases he
          rw [h cs' v vs hv hne ys]
          rfl

theorem closed_readArray {value : Reader Char Json} (h : Extends value) :
    Closed (readArray value) := by
  intro xs v rest hv ys
  unfold readArray at hv ⊢
  cases hs : skipSpace xs with
  | nil => rw [hs] at hv; cases hv
  | cons c cs =>
      rw [hs] at hv
      rw [skipSpace_append xs ys c cs hs]
      simp only [List.cons_append] at hv ⊢
      split_ifs at hv ⊢ with hc
      · cases hv; rfl
      · obtain ⟨⟨vs, rest'⟩, hseq, he⟩ := Option.map_eq_some_iff.mp hv
        cases he
        rw [sepClose_mono (by simp) (sepClose_append h skipSpace_append rfl hseq ys)]
        rfl

theorem closed_readObject {value : Reader Char Json} (h : Extends value) :
    Closed (readObject value) := by
  intro xs v rest hv ys
  unfold readObject at hv ⊢
  cases hs : skipSpace xs with
  | nil => rw [hs] at hv; cases hv
  | cons c cs =>
      rw [hs] at hv
      rw [skipSpace_append xs ys c cs hs]
      simp only [List.cons_append] at hv ⊢
      split_ifs at hv ⊢ with hc
      · cases hv; rfl
      · obtain ⟨⟨vs, rest'⟩, hseq, he⟩ := Option.map_eq_some_iff.mp hv
        cases he
        rw [sepClose_mono (by simp)
          (sepClose_append (extends_readMember h) skipSpace_append rfl hseq ys)]
        rfl

/-- One level of nesting. -/
theorem readValue_append_of {d : Nat} (hinner : ∀ e, d = e + 1 → Extends (readValue e))
    {xs : List Char} {v : Json} {rest : List Char} (h : readValue d xs = some (v, rest))
    (hv : rest ≠ [] ∨ ∀ lit, v ≠ .num lit) (ys : List Char) :
    readValue d (xs ++ ys) = some (v, rest ++ ys) := by
  rw [readValue.eq_def] at h ⊢
  cases hs : skipSpace xs with
  | nil => simp [hs] at h
  | cons c cs =>
      simp only [hs] at h
      simp only [skipSpace_append xs ys c cs hs, List.cons_append]
      split_ifs at h ⊢ with hq harr hobj ht hf hn hnum
      · obtain ⟨⟨s, rest'⟩, hread, he⟩ := Option.map_eq_some_iff.mp h
        cases he
        rw [closed_readString cs s rest' hread ys]
        rfl
      · cases d with
        | zero => cases h
        | succ e => exact closed_readArray (hinner e rfl) cs v rest h ys
      · cases d with
        | zero => cases h
        | succ e => exact closed_readObject (hinner e rfl) cs v rest h ys
      · exact closed_word _ _ cs v rest h ys
      · exact closed_word _ _ cs v rest h ys
      · exact closed_word _ _ cs v rest h ys
      · obtain ⟨⟨lit, rest'⟩, hread, he⟩ := Option.map_eq_some_iff.mp h
        cases he
        have hne : rest' ≠ [] := hv.resolve_right fun hno => hno lit rfl
        rw [← List.cons_append, extends_readNumber (c :: cs) lit rest' hread hne ys]
        rfl

/-- A value that was found, and is not a number at the very end, is found in every longer
text. -/
theorem readValue_append {d : Nat} {xs : List Char} {v : Json} {rest : List Char}
    (h : readValue d xs = some (v, rest)) (hv : rest ≠ [] ∨ ∀ lit, v ≠ .num lit)
    (ys : List Char) : readValue d (xs ++ ys) = some (v, rest ++ ys) := by
  induction d generalizing xs v rest ys with
  | zero => exact readValue_append_of (fun e he => absurd he (by omega)) h hv ys
  | succ d ih =>
      refine readValue_append_of (fun e he => ?_) h hv ys
      cases he
      exact fun xs v rest hread hne ys => ih hread (Or.inl hne) ys

/-! ## Texts -/

theorem skipSpace_append_nil {xs : List Char} (h : skipSpace xs = []) (ys : List Char) :
    skipSpace (xs ++ ys) = skipSpace ys := by
  unfold skipSpace at h ⊢
  rw [List.dropWhile_append, h]
  rfl

theorem Json.Within.mono {d e : Nat} {v : Json} (h : v.Within d) (hde : d ≤ e) : v.Within e := by
  induction h generalizing e with
  | null => exact .null
  | bool => exact .bool
  | num hlit => exact .num hlit
  | str => exact .str
  | arr _ ih =>
      obtain ⟨e, rfl⟩ : ∃ k, e = k + 1 := ⟨e - 1, by omega⟩
      exact .arr fun v hv => ih v hv (by omega)
  | obj _ ih =>
      obtain ⟨e, rfl⟩ : ∃ k, e = k + 1 := ⟨e - 1, by omega⟩
      exact .obj fun m hm => ih m hm (by omega)

theorem stops_of_space {sp : List Char} (h : skipSpace sp = []) : Stops sp := by
  intro c hc
  cases sp with
  | nil => cases hc
  | cons x xs =>
      cases hc
      have hx : isJsonSpace c = true := by
        cases hs : isJsonSpace c with
        | true => rfl
        | false => rw [skipSpace_cons hs] at h; cases h
      simp only [isJsonSpace, Bool.or_eq_true, decide_eq_true_eq] at hx
      rcases hx with ((rfl | rfl) | rfl) | rfl <;> decide

/-- A value the writer has written is read back, also with space after it. -/
theorem Json.Within.parse_text {d : Nat} {v : Json} (h : v.Within d) (hd : d ≤ maxNestingDepth)
    {sp : List Char} (hsp : skipSpace sp = []) : parseText (v.text ++ sp) = some v := by
  unfold parseText
  rw [(h.mono hd).readValue_text sp (stops_of_space hsp), Option.bind_some, if_pos hsp]

/-- Where a text and a beginning of it are both read, and not as a number, what was cut off is
space. -/
theorem parseText_cut {xs ys : List Char} {v w : Json} (hx : parseText xs = some v)
    (hxy : parseText (xs ++ ys) = some w) (hv : ∀ lit, v ≠ .num lit) :
    v = w ∧ skipSpace ys = [] := by
  obtain ⟨⟨v', rest⟩, hread, hsp⟩ := Option.bind_eq_some_iff.mp hx
  obtain ⟨⟨w', rest'⟩, hread', hsp'⟩ := Option.bind_eq_some_iff.mp hxy
  split_ifs at hsp hsp' with hrest hrest'
  cases hsp
  cases hsp'
  rw [readValue_append hread (Or.inr hv) ys] at hread'
  cases hread'
  rw [skipSpace_append_nil hrest] at hrest'
  exact ⟨rfl, hrest'⟩

/-! ## Lines -/

theorem not_mem_escapeChar (c : Char) : '\n' ∉ escapeChar c := by
  have hdigit : ∀ n < 16, hexDigit n ≠ '\n' := by decide
  have hmod : ∀ n : Nat, '\n' ≠ hexDigit (n % 16) :=
    fun n => (hdigit _ (Nat.mod_lt _ (by decide))).symm
  by_cases hc : c = '\n'
  · subst hc; decide
  · intro h
    unfold escapeChar unicodeEscape at h
    split_ifs at h <;> simp [hmod, Ne.symm hc] at h

theorem not_mem_quoteText (s : String) : '\n' ∉ quoteText s := by
  intro h
  rcases List.mem_cons.mp h with h | h
  · exact absurd h (by decide)
  rcases List.mem_append.mp h with h | h
  · obtain ⟨c, _, hc⟩ := List.mem_flatMap.mp h
    exact not_mem_escapeChar c hc
  · exact absurd (List.mem_singleton.mp h) (by decide)

/-- The text of a value is one line. -/
theorem Json.Within.not_mem_text {d : Nat} {v : Json} (h : v.Within d) : '\n' ∉ v.text := by
  induction h with
  | null => rw [Json.text]; decide
  | @bool d b => cases b <;> (rw [Json.text]; decide)
  | @num d lit hlit =>
      rw [Json.text]
      intro hmem
      exact absurd (List.all_eq_true.mp (all_isNumberChar hlit) _ hmem) (by decide)
  | str => rw [Json.text]; exact not_mem_quoteText _
  | @arr d elems _ ih =>
      rw [Json.text, Json.textElems_eq]
      intro hmem
      rcases List.mem_cons.mp hmem with h | h
      · exact absurd h (by decide)
      rcases mem_putSep h with h | h | ⟨v, hv, hmem⟩
      · exact absurd h (by decide)
      · exact absurd h (by decide)
      · exact ih v hv hmem
  | @obj d members _ ih =>
      rw [Json.text, Json.textMembers_eq]
      intro hmem
      rcases List.mem_cons.mp hmem with h | h
      · exact absurd h (by decide)
      rcases mem_putSep h with h | h | ⟨m, hm, hmem⟩
      · exact absurd h (by decide)
      · exact absurd h (by decide)
      · rcases List.mem_append.mp hmem with h | h
        · exact not_mem_quoteText _ h
        · rcases List.mem_cons.mp h with h | h
          · exact absurd h (by decide)
          · exact ih m hm h

/-! ## Integers -/

/-- The digits of a positive number do not begin with a zero. -/
theorem toDigits_cons {n : Nat} (hn : 0 < n) :
    ∃ c cs, Nat.toDigits 10 n = c :: cs ∧ c ≠ '0' := by
  induction n using Nat.strong_induction_on with
  | _ n ih =>
      rw [Nat.toDigits_eq_if (by decide)]
      split_ifs with hlt
      · refine ⟨n.digitChar, [], rfl, ?_⟩
        interval_cases n <;> decide
      · obtain ⟨c, cs, hcs, hc⟩ := ih (n / 10) (by omega) (by omega)
        exact ⟨c, cs ++ [(n % 10).digitChar], by rw [hcs, List.cons_append], hc⟩

theorem isUnsigned_toDigits (n : Nat) : isUnsigned (Nat.toDigits 10 n) = true := by
  rcases Nat.eq_zero_or_pos n with rfl | hn
  · decide
  · obtain ⟨c, cs, hcs, hc⟩ := toDigits_cons hn
    have hdigits : ∀ x ∈ c :: cs, x.isDigit = true := by
      rw [← hcs]
      exact fun x hx => Nat.isDigit_of_mem_toDigits (by decide) (by decide) hx
    have hrest : cs.dropWhile Char.isDigit = [] :=
      List.dropWhile_eq_nil_iff.mpr fun x hx => hdigits x (List.mem_cons_of_mem _ hx)
    rw [hcs, isUnsigned, if_neg hc, hdigits c List.mem_cons_self, hrest]
    rfl

theorem formatInt_ofNat_toList (m : Nat) :
    (formatInt (.ofNat m)).toList = Nat.toDigits 10 m := by
  change (Nat.repr m).toList = _
  rw [Nat.repr_eq_ofList_toDigits, String.toList_ofList]

theorem formatInt_negSucc_toList (m : Nat) :
    (formatInt (.negSucc m)).toList = '-' :: Nat.toDigits 10 (m + 1) := by
  change ("-" ++ Nat.repr (m + 1)).toList = _
  simp [String.toList_append, Nat.repr_eq_ofList_toDigits]

/-- The decimal form of an integer is a number of JSON. -/
theorem isNumberLiteral_formatInt (n : Int) : isNumberLiteral (formatInt n).toList = true := by
  cases n with
  | ofNat m =>
      have hu := isUnsigned_toDigits m
      rw [formatInt_ofNat_toList]
      cases hd : Nat.toDigits 10 m with
      | nil => rw [hd] at hu; cases hu
      | cons c cs =>
          rw [hd] at hu
          have hdigit : c.isDigit = true :=
            Nat.isDigit_of_mem_toDigits (b := 10) (n := m) (by decide) (by decide)
              (by rw [hd]; exact List.mem_cons_self)
          have hc : c ≠ '-' := by rintro rfl; cases hdigit
          rw [isNumberLiteral, if_neg hc]
          exact hu
  | negSucc m =>
      rw [formatInt_negSucc_toList, isNumberLiteral, if_pos rfl]
      exact isUnsigned_toDigits (m + 1)

end Signalium
