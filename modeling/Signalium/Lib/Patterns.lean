import Mathlib.Data.List.Infix
import Mathlib.Tactic

/-!
# Wildcard patterns

A pattern is a list of atoms: any run of letters, any one letter, or a letter that
is given.  Given letters are compared after `fold`, so a pattern can ignore what
`fold` forgets.

A text matches one pattern after another when it splits into texts that match them
(`Matches.append`, `Matches.split`).  So letters between two runs are matched by the texts that have
them in one piece (`matches_between`).

A pattern is matched by a text that is as short as it allows, `least`.
-/

namespace Patterns

universe u v

variable {α : Type u} {β : Type v}

/-- One place of a pattern. -/
inductive Atom (α : Type u) where
  | any
  | one
  | lit (a : α)
deriving DecidableEq, Repr

/-- A text matches a pattern. -/
inductive Matches (fold : α → β) : List (Atom α) → List α → Prop where
  | nil : Matches fold [] []
  | any {ps : List (Atom α)} {rest : List α} (run : List α) :
      Matches fold ps rest → Matches fold (.any :: ps) (run ++ rest)
  | one {ps : List (Atom α)} {rest : List α} (a : α) :
      Matches fold ps rest → Matches fold (.one :: ps) (a :: rest)
  | lit {ps : List (Atom α)} {rest : List α} {a b : α} :
      fold a = fold b → Matches fold ps rest → Matches fold (.lit a :: ps) (b :: rest)

variable {fold : α → β} {ps qs : List (Atom α)} {text as : List α} {a d : α}

/-! ## Inversion -/

theorem matches_nil : Matches fold [] text ↔ text = [] := by
  constructor
  · intro h
    cases h
    rfl
  · rintro rfl
    exact .nil

theorem matches_any : Matches fold (.any :: ps) text ↔
    ∃ rest, rest <:+ text ∧ Matches fold ps rest := by
  constructor
  · intro h
    cases h with
    | any run h => exact ⟨_, List.suffix_append _ _, h⟩
  · rintro ⟨rest, ⟨run, rfl⟩, h⟩
    exact .any run h

theorem matches_one : Matches fold (.one :: ps) text ↔
    ∃ b rest, text = b :: rest ∧ Matches fold ps rest := by
  constructor
  · intro h
    cases h with
    | one b h => exact ⟨b, _, rfl, h⟩
  · rintro ⟨b, rest, rfl, h⟩
    exact .one b h

theorem matches_lit : Matches fold (.lit a :: ps) text ↔
    ∃ b rest, text = b :: rest ∧ fold a = fold b ∧ Matches fold ps rest := by
  constructor
  · intro h
    cases h with
    | lit hab h => exact ⟨_, _, rfl, hab, h⟩
  · rintro ⟨b, rest, rfl, hab, h⟩
    exact .lit hab h

/-! ## Patterns after patterns -/

theorem Matches.append {text' : List α} (h : Matches fold ps text) (h' : Matches fold qs text') :
    Matches fold (ps ++ qs) (text ++ text') := by
  induction h with
  | nil => exact h'
  | any run _ ih =>
      rw [List.append_assoc]
      exact .any run ih
  | one a _ ih => exact .one a ih
  | lit hab _ ih => exact .lit hab ih

theorem Matches.split (h : Matches fold (ps ++ qs) text) :
    ∃ front back, text = front ++ back ∧ Matches fold ps front ∧ Matches fold qs back := by
  induction ps generalizing text with
  | nil => exact ⟨[], text, rfl, .nil, h⟩
  | cons p ps ih =>
      cases h with
      | any run h =>
          obtain ⟨front, back, rfl, hfront, hback⟩ := ih h
          exact ⟨run ++ front, back, (List.append_assoc _ _ _).symm, .any run hfront, hback⟩
      | one a h =>
          obtain ⟨front, back, rfl, hfront, hback⟩ := ih h
          exact ⟨a :: front, back, rfl, .one a hfront, hback⟩
      | lit hab h =>
          obtain ⟨front, back, rfl, hfront, hback⟩ := ih h
          exact ⟨_ :: front, back, rfl, .lit hab hfront, hback⟩

/-- Given letters are matched by the texts with these letters. -/
theorem matches_lits : Matches fold (as.map .lit) text ↔ as.map fold = text.map fold := by
  induction as generalizing text with
  | nil => simp [matches_nil, eq_comm]
  | cons a as ih =>
      rw [List.map_cons, matches_lit]
      constructor
      · rintro ⟨b, rest, rfl, hab, h⟩
        rw [List.map_cons, List.map_cons, hab, ih.mp h]
      · intro h
        cases text with
        | nil => cases h
        | cons b rest =>
            rw [List.map_cons, List.map_cons, List.cons.injEq] at h
            exact ⟨b, rest, rfl, h.1, ih.mpr h.2⟩

theorem matches_run : Matches fold [.any] text :=
  matches_any.mpr ⟨[], List.nil_suffix, .nil⟩

/-- Between two runs, letters are matched by the texts that have them in one piece. -/
theorem matches_between : Matches fold (.any :: (as.map .lit ++ [.any])) text ↔
    as.map fold <:+: text.map fold := by
  constructor
  · intro h
    obtain ⟨rest, ⟨run, rfl⟩, hrest⟩ := matches_any.mp h
    obtain ⟨piece, back, rfl, hpiece, _⟩ := hrest.split
    rw [matches_lits.mp hpiece]
    exact ⟨run.map fold, back.map fold, by simp⟩
  · rintro ⟨front, back, h⟩
    -- The pieces of the folded text come from pieces of the text.
    obtain ⟨text₁, text₃, rfl, hfront, _⟩ := List.append_eq_map_iff.mp h
    obtain ⟨text₁, text₂, rfl, _, hpiece⟩ := List.append_eq_map_iff.mp hfront.symm
    rw [List.append_assoc]
    exact .any text₁ ((matches_lits.mpr hpiece.symm).append matches_run)

/-! ## Shortest texts -/

/-- A shortest text that matches a pattern, with `d` where any letter will do. -/
def least (d : α) : List (Atom α) → List α
  | [] => []
  | .any :: ps => least d ps
  | .one :: ps => d :: least d ps
  | .lit a :: ps => a :: least d ps

theorem least_matches (fold : α → β) (d : α) (ps : List (Atom α)) :
    Matches fold ps (least d ps) := by
  induction ps with
  | nil => exact .nil
  | cons p ps ih =>
      cases p with
      | any => exact .any [] ih
      | one => exact .one d ih
      | lit a => exact .lit rfl ih

end Patterns
