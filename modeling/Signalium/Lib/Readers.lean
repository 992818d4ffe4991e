import Mathlib.Tactic

/-!
# Readers

A reader takes a value off the front of a list of symbols, or fails.  Two facts
about a reader matter when its input may have been cut off.

* `Extends`: where it leaves something over, more input at the end changes nothing.
  A reader that takes as much as it can, such as one for numbers, has this.
* `Closed`: more input at the end never changes anything.  A reader that stops at a
  closing symbol has this, and then no proper beginning of what it reads completely
  can be read.

`sepClose` reads items up to a closing symbol with separators between them.  Its
fuel bounds the number of items; the length of the input is enough.
-/

namespace Readers

universe u v

/-- A reader of values of `β` from symbols of `α`. -/
abbrev Reader (α : Type u) (β : Type v) := List α → Option (β × List α)

variable {α : Type u} {β : Type v}

/-- More input changes nothing where something was left over. -/
def Extends (r : Reader α β) : Prop :=
  ∀ xs b rest, r xs = some (b, rest) → rest ≠ [] → ∀ ys, r (xs ++ ys) = some (b, rest ++ ys)

/-- More input changes nothing. -/
def Closed (r : Reader α β) : Prop :=
  ∀ xs b rest, r xs = some (b, rest) → ∀ ys, r (xs ++ ys) = some (b, rest ++ ys)

/-! ## Words -/

section Words

variable [DecidableEq α]

/-- A fixed word. -/
def word (w : List α) (b : β) : Reader α β := fun xs =>
  if w <+: xs then some (b, xs.drop w.length) else none

theorem word_append (w : List α) (b : β) (rest : List α) :
    word w b (w ++ rest) = some (b, rest) := by
  simp [word]

theorem closed_word (w : List α) (b : β) : Closed (word w b) := by
  intro xs c rest h ys
  unfold word at h
  split at h
  · next hp =>
      obtain ⟨zs, rfl⟩ := hp
      cases h
      simp [word, List.append_assoc]
  · cases h

end Words

/-! ## Separated items -/

section Separated

variable [DecidableEq α] (skip : List α → List α) (item : Reader α β) (sep close : α)

/-- Items with separators between them, up to the closing symbol.  The symbols `skip` drops
may stand before a separator. -/
def sepClose : Nat → Reader α (List β)
  | 0, _ => none
  | n + 1, xs =>
      (item xs).bind fun p =>
        match skip p.2 with
        | [] => none
        | c :: rest =>
            if c = close then some ([p.1], rest)
            else if c = sep then (sepClose n rest).map fun q => (p.1 :: q.1, q.2)
            else none

/-- The text of items with separators between them and the closing symbol at the end. -/
def putSep (put : β → List α) : List β → List α
  | [] => [close]
  | [b] => put b ++ [close]
  | b :: b' :: bs => put b ++ sep :: putSep put (b' :: bs)

variable {skip item sep close}

/-- More fuel changes nothing. -/
theorem sepClose_mono {n m : Nat} (hnm : n ≤ m) {xs : List α} {p : List β × List α}
    (h : sepClose skip item sep close n xs = some p) :
    sepClose skip item sep close m xs = some p := by
  induction n generalizing m xs p with
  | zero => cases h
  | succ n ih =>
      obtain ⟨m, rfl⟩ : ∃ k, m = k + 1 := ⟨m - 1, by omega⟩
      simp only [sepClose] at h ⊢
      obtain ⟨q, hq, hrest⟩ := Option.bind_eq_some_iff.mp h
      rw [hq, Option.bind_some]
      cases hs : skip q.2 with
      | nil => rw [hs] at hrest; cases hrest
      | cons c rest =>
          simp only [hs] at hrest
          simp only
          split_ifs at hrest ⊢ with hclose hsep
          · exact hrest
          · obtain ⟨q', hq', rfl⟩ := Option.map_eq_some_iff.mp hrest
            rw [ih (by omega) hq']
            rfl

/-- More input changes nothing: every item is followed by a symbol. -/
theorem sepClose_append (hitem : Extends item)
    (hskip : ∀ xs ys c rest, skip xs = c :: rest → skip (xs ++ ys) = c :: rest ++ ys)
    (hnil : skip [] = []) {n : Nat} {xs : List α} {bs : List β} {rest : List α}
    (h : sepClose skip item sep close n xs = some (bs, rest)) (ys : List α) :
    sepClose skip item sep close n (xs ++ ys) = some (bs, rest ++ ys) := by
  induction n generalizing xs bs rest with
  | zero => cases h
  | succ n ih =>
      simp only [sepClose] at h ⊢
      obtain ⟨⟨b, zs⟩, hq, hrest⟩ := Option.bind_eq_some_iff.mp h
      cases hs : skip zs with
      | nil => rw [hs] at hrest; cases hrest
      | cons c ws =>
          have hzs : zs ≠ [] := by
            rintro rfl
            rw [hnil] at hs
            cases hs
          rw [hitem xs b zs hq hzs ys, Option.bind_some]
          simp only [hs] at hrest
          simp only [hskip zs ys c ws hs, List.cons_append]
          split_ifs at hrest ⊢ with hclose hsep
          · cases hrest
            rfl
          · obtain ⟨⟨bs', rest'⟩, hq', he⟩ := Option.map_eq_some_iff.mp hrest
            cases he
            rw [ih hq']
            rfl

/-- Items that are read back before a separator and before the end are read back. -/
theorem sepClose_putSep {put : β → List α} (hne : sep ≠ close) (hstop : ∀ c rest,
      c = sep ∨ c = close → skip (c :: rest) = c :: rest) {bs : List β} (hbs : bs ≠ [])
    (hitem : ∀ b ∈ bs, ∀ c rest, c = sep ∨ c = close →
      item (put b ++ c :: rest) = some (b, c :: rest))
    {n : Nat} (hn : bs.length ≤ n) (rest : List α) :
    sepClose skip item sep close n (putSep sep close put bs ++ rest) = some (bs, rest) := by
  induction bs generalizing n with
  | nil => exact absurd rfl hbs
  | cons b bs ih =>
      obtain ⟨n, rfl⟩ : ∃ k, n = k + 1 := ⟨n - 1, by simp at hn; omega⟩
      have hb := hitem b List.mem_cons_self
      cases bs with
      | nil =>
          have he : putSep sep close put [b] ++ rest = put b ++ close :: rest := by simp [putSep]
          rw [he]
          simp [sepClose, hb close rest (Or.inr rfl), hstop close rest (Or.inr rfl)]
      | cons b' bs =>
          have he : putSep sep close put (b :: b' :: bs) ++ rest =
              put b ++ sep :: (putSep sep close put (b' :: bs) ++ rest) := by
            simp [putSep]
          have hrec := ih (by simp) (fun x hx => hitem x (List.mem_cons_of_mem _ hx))
            (n := n) (by simp at hn ⊢; omega)
          rw [he]
          simp [sepClose, hb sep _ (Or.inl rfl), hstop sep _ (Or.inl rfl), hne, hrec]

omit [DecidableEq α] in
/-- The text begins as its first item does. -/
theorem putSep_cons {put : β → List α} {b : β} {c : α} {cs : List α} (h : put b = c :: cs)
    (bs : List β) : ∃ tail, putSep sep close put (b :: bs) = c :: tail := by
  cases bs with
  | nil => exact ⟨cs ++ [close], by rw [putSep, h]; rfl⟩
  | cons b' bs => exact ⟨cs ++ sep :: putSep sep close put (b' :: bs), by rw [putSep, h]; rfl⟩

omit [DecidableEq α] in
/-- The text ends with the closing symbol. -/
theorem putSep_concat (put : β → List α) (bs : List β) :
    ∃ body, putSep sep close put bs = body ++ [close] := by
  induction bs with
  | nil => exact ⟨[], rfl⟩
  | cons b bs ih =>
      cases bs with
      | nil => exact ⟨put b, rfl⟩
      | cons b' bs =>
          obtain ⟨body, hbody⟩ := ih
          exact ⟨put b ++ sep :: body, by rw [putSep, hbody]; simp⟩

omit [DecidableEq α] in
/-- The symbols of the text. -/
theorem mem_putSep {put : β → List α} {x : α} {bs : List β} (h : x ∈ putSep sep close put bs) :
    x = sep ∨ x = close ∨ ∃ b ∈ bs, x ∈ put b := by
  induction bs with
  | nil => exact Or.inr (Or.inl (List.mem_singleton.mp h))
  | cons b bs ih =>
      cases bs with
      | nil =>
          rcases List.mem_append.mp h with h | h
          · exact Or.inr (Or.inr ⟨b, List.mem_cons_self, h⟩)
          · exact Or.inr (Or.inl (List.mem_singleton.mp h))
      | cons b' bs =>
          rcases List.mem_append.mp h with h | h
          · exact Or.inr (Or.inr ⟨b, List.mem_cons_self, h⟩)
          · rcases List.mem_cons.mp h with h | h
            · exact Or.inl h
            · rcases ih h with h | h | ⟨y, hy, hx⟩
              · exact Or.inl h
              · exact Or.inr (Or.inl h)
              · exact Or.inr (Or.inr ⟨y, List.mem_cons_of_mem _ hy, hx⟩)

omit [DecidableEq α] in
theorem length_le_putSep (put : β → List α) (bs : List β) :
    bs.length ≤ (putSep sep close put bs).length := by
  induction bs with
  | nil => simp
  | cons b bs ih =>
      cases bs with
      | nil => simp [putSep]
      | cons b' bs =>
          simp only [putSep, List.length_cons, List.length_append] at ih ⊢
          omega

end Separated

end Readers
