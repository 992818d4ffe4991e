import Mathlib.Data.List.Sort
import Mathlib.Data.String.Basic
import Signalium.Lib.Paths

/-!
# Directory trees

A directory with what is below it, to any depth.  An entry is a directory or
something else, a file of any type `φ`.  Its place is the list of the names on the
way down to it, the last one first; the root is at the empty place.

A `DirTree` carries what the kernel keeps true: no two entries are at one place, and an
entry other than the root lies in a directory and has a name.  So what is at a place
has a directory at every place above it (`DirTree.above`).

Entries are taken out one by one.  `Removes p` says that only entries with `p` have
gone; it composes, and with nothing left to take out it says what is left
(`Removes.eq_filter`).
-/

namespace Trees

open Paths (IsName)

universe u

variable {φ : Type u}

/-- What is at a place. -/
inductive Entry (φ : Type u) where
  | dir
  | file (f : φ)
deriving DecidableEq, Repr

/-- The names on the way down from the root, the last one first. -/
abbrev Place := List String

/-- An entry other than the root lies in a directory and has a name. -/
def Placed (entries : List (Place × Entry φ)) : Place × Entry φ → Prop
  | ([], _) => True
  | (n :: p, _) => (p, .dir) ∈ entries ∧ IsName n.toList

instance [DecidableEq φ] (entries : List (Place × Entry φ)) : DecidablePred (Placed entries)
  | ([], _) => isTrue trivial
  | (_ :: _, _) => inferInstanceAs (Decidable (_ ∧ _))

/-- The root and what is below it. -/
structure DirTree (φ : Type u) where
  entries : List (Place × Entry φ)
  unique : (entries.map Prod.fst).Nodup
  placed : ∀ x ∈ entries, Placed entries x

variable {t t' t'' : DirTree φ} {p q : Place} {n : String} {e e' : Entry φ}

@[ext] theorem DirTree.ext (h : t.entries = t'.entries) : t = t' := by
  cases t; cases t'; cases h; rfl

theorem DirTree.housed (h : (n :: p, e) ∈ t.entries) : (p, .dir) ∈ t.entries := (t.placed _ h).1

theorem DirTree.named (h : (n :: p, e) ∈ t.entries) : IsName n.toList := (t.placed _ h).2

/-! ## Reading -/

theorem DirTree.entry_unique (h : (p, e) ∈ t.entries) (h' : (p, e') ∈ t.entries) : e = e' :=
  congrArg Prod.snd (List.inj_on_of_nodup_map t.unique h h' rfl)

/-- `lstat`. -/
def DirTree.find? (t : DirTree φ) (p : Place) : Option (Entry φ) :=
  (t.entries.find? fun x => x.1 = p).map Prod.snd

theorem DirTree.find?_eq_some : t.find? p = some e ↔ (p, e) ∈ t.entries := by
  rw [DirTree.find?, Option.map_eq_some_iff]
  constructor
  · rintro ⟨⟨q, e⟩, hfind, rfl⟩
    have hq : q = p := by simpa using List.find?_some hfind
    rw [← hq]
    exact List.mem_of_find?_eq_some hfind
  · intro h
    cases hfind : t.entries.find? fun x => x.1 = p with
    | none => simpa using List.find?_eq_none.mp hfind _ h
    | some x =>
        have hx : x.1 = p := by simpa using List.find?_some hfind
        exact ⟨x, rfl, congrArg Prod.snd (List.inj_on_of_nodup_map t.unique
          (List.mem_of_find?_eq_some hfind) h hx)⟩

theorem DirTree.entries_nodup (t : DirTree φ) : t.entries.Nodup := List.Nodup.of_map _ t.unique

/-- The name of an entry of a directory. -/
def childOf (p : Place) : Place × Entry φ → Option (String × Entry φ)
  | (n :: q, e) => if q = p then some (n, e) else none
  | ([], _) => none

theorem childOf_eq_some {x : Place × Entry φ} : childOf p x = some (n, e) ↔ x = (n :: p, e) := by
  obtain ⟨q, e'⟩ := x
  cases q with
  | nil => simp [childOf]
  | cons m q =>
      by_cases hq : q = p
      · simp [childOf, hq]
      · simp [childOf, hq]

/-- The entries of a directory, by their names. -/
def DirTree.children (t : DirTree φ) (p : Place) : List (String × Entry φ) :=
  (t.entries.filterMap (childOf p)).insertionSort fun x y => x.1 ≤ y.1

theorem DirTree.mem_children : (n, e) ∈ t.children p ↔ (n :: p, e) ∈ t.entries := by
  rw [DirTree.children, (List.perm_insertionSort _ _).mem_iff, List.mem_filterMap]
  constructor
  · rintro ⟨x, hx, hchild⟩
    rw [← childOf_eq_some.mp hchild]
    exact hx
  · intro h
    exact ⟨_, h, childOf_eq_some.mpr rfl⟩

/-- The place holds nothing. -/
def DirTree.Empty (t : DirTree φ) (p : Place) : Prop := ∀ x ∈ t.entries, x.1.tail? ≠ some p

instance (t : DirTree φ) (p : Place) : Decidable (t.Empty p) :=
  List.decidableBAll (fun x : Place × Entry φ => x.1.tail? ≠ some p) t.entries

theorem DirTree.empty_iff : t.Empty p ↔ ∀ n e, (n :: p, e) ∉ t.entries := by
  constructor
  · intro h n e hmem
    exact h _ hmem rfl
  · rintro h ⟨q, e⟩ hmem htail
    cases q with
    | nil => cases htail
    | cons m q =>
        cases htail
        exact h m e hmem

theorem DirTree.children_eq_nil_iff : t.children p = [] ↔ t.Empty p := by
  rw [DirTree.empty_iff, List.eq_nil_iff_forall_not_mem]
  constructor
  · intro h n e hmem
    exact h (n, e) (DirTree.mem_children.mpr hmem)
  · rintro h ⟨n, e⟩ hmem
    exact h n e (DirTree.mem_children.mp hmem)

/-- A file holds nothing. -/
theorem DirTree.empty_of_file {f : φ} (h : (p, .file f) ∈ t.entries) : t.Empty p := by
  refine DirTree.empty_iff.mpr fun n e hmem => ?_
  cases DirTree.entry_unique (DirTree.housed hmem) h

/-- Above an entry there are directories, and below each of them the next entry on the
way down. -/
theorem DirTree.above (h : (q, e) ∈ t.entries) (hq : p <:+ q) (hne : q ≠ p) :
    (p, .dir) ∈ t.entries ∧ ∃ n e', (n :: p, e') ∈ t.entries ∧ n :: p <:+ q := by
  induction q generalizing e with
  | nil => exact absurd (List.suffix_nil.mp hq).symm hne
  | cons m q ih =>
      have hdir := DirTree.housed h
      rcases List.suffix_cons_iff.mp hq with rfl | hq
      · exact absurd rfl hne
      · by_cases hqp : q = p
        · subst hqp
          exact ⟨hdir, m, e, h, List.suffix_refl _⟩
        · obtain ⟨hp, n, e', hmem, hn⟩ := ih hdir hq hqp
          exact ⟨hp, n, e', hmem, hn.trans (List.suffix_cons m q)⟩

theorem DirTree.names_of_mem (h : (p, e) ∈ t.entries) : ∀ n ∈ p, IsName n.toList := by
  induction p generalizing e with
  | nil => simp
  | cons n p ih =>
      exact List.forall_mem_cons.mpr ⟨DirTree.named h, ih (DirTree.housed h)⟩

/-- The length of the longest way down. -/
def DirTree.depth (t : DirTree φ) : Nat := (t.entries.map fun x => x.1.length).foldr max 0

theorem DirTree.length_le_depth (h : (p, e) ∈ t.entries) : p.length ≤ t.depth := by
  unfold DirTree.depth
  revert h
  generalize t.entries = entries
  intro h
  induction entries with
  | nil => cases h
  | cons x entries ih =>
      rcases List.mem_cons.mp h with rfl | h
      · exact le_max_left _ _
      · exact (ih h).trans (le_max_right _ _)

/-! ## Removing -/

/-- The tree without a place that holds nothing. -/
def DirTree.erase (t : DirTree φ) (p : Place) (h : t.Empty p) : DirTree φ where
  entries := t.entries.filter fun x => x.1 ≠ p
  unique := (List.filter_sublist.map Prod.fst).nodup t.unique
  placed := by
    rintro ⟨q, e⟩ hx
    cases q with
    | nil => exact trivial
    | cons n q =>
        have hin : (n :: q, e) ∈ t.entries := (List.mem_filter.mp hx).1
        have hne : q ≠ p := by
          rintro rfl
          exact DirTree.empty_iff.mp h n e hin
        refine ⟨List.mem_filter.mpr ⟨DirTree.housed hin, ?_⟩, DirTree.named hin⟩
        exact decide_eq_true hne

/-- `unlink` of a file, or `rmdir` of a directory that holds nothing. -/
def DirTree.remove (t : DirTree φ) (p : Place) : Option (DirTree φ) :=
  if h : (t.find? p).isSome ∧ t.Empty p then some (t.erase p h.2) else none

/-- Entries have gone, each of them one with `P`. -/
structure Removes (P : Place × Entry φ → Prop) (t t' : DirTree φ) : Prop where
  sublist : t'.entries.Sublist t.entries
  gone : ∀ x ∈ t.entries, x ∉ t'.entries → P x

variable {P Q : Place × Entry φ → Prop}

theorem Removes.refl (P : Place × Entry φ → Prop) (t : DirTree φ) : Removes P t t :=
  ⟨List.Sublist.refl _, fun _ hx hno => absurd hx hno⟩

theorem Removes.trans (h : Removes P t t') (h' : Removes P t' t'') : Removes P t t'' := by
  refine ⟨h'.sublist.trans h.sublist, fun x hx hno => ?_⟩
  by_cases hx' : x ∈ t'.entries
  · exact h'.gone x hx' hno
  · exact h.gone x hx hx'

theorem Removes.mem (h : Removes P t t') {x : Place × Entry φ} (hx : x ∈ t'.entries) :
    x ∈ t.entries :=
  h.sublist.subset hx

/-- What is left when nothing more is to go. -/
theorem Removes.eq_filter [DecidablePred P] (h : Removes P t t')
    (hdone : ∀ x ∈ t'.entries, ¬ P x) : t'.entries = t.entries.filter fun x => ¬ P x := by
  have hkeep : t'.entries.filter (fun x => ¬ P x) = t'.entries :=
    List.filter_eq_self.mpr fun x hx => decide_eq_true (hdone x hx)
  have hsub : t'.entries.Sublist (t.entries.filter fun x => ¬ P x) :=
    hkeep ▸ h.sublist.filter _
  refine hsub.eq_of_length_le ?_
  refine ((t.entries_nodup.filter _).subperm fun x hx => ?_).length_le
  obtain ⟨hx, hP⟩ := List.mem_filter.mp hx
  by_contra hno
  exact of_decide_eq_true hP (h.gone x hx hno)

theorem removes_of_filter [DecidablePred P] (h : t'.entries = t.entries.filter fun x => ¬ P x) :
    Removes P t t' := by
  refine ⟨h ▸ List.filter_sublist, fun x hx hno => ?_⟩
  by_contra hP
  exact hno (h ▸ List.mem_filter.mpr ⟨hx, decide_eq_true hP⟩)

theorem DirTree.remove_eq_some (h : t.remove p = some t') :
    (∃ e, (p, e) ∈ t.entries) ∧ t.Empty p ∧
      t'.entries = t.entries.filter fun x => x.1 ≠ p := by
  unfold DirTree.remove at h
  split_ifs at h with hp
  cases h
  obtain ⟨e, he⟩ := Option.isSome_iff_exists.mp hp.1
  exact ⟨⟨e, DirTree.find?_eq_some.mp he⟩, hp.2, rfl⟩

/-- An entry that holds nothing can be removed. -/
theorem DirTree.exists_remove (h : (p, e) ∈ t.entries) (hempty : t.Empty p) :
    ∃ t', t.remove p = some t' := by
  have hp : (t.find? p).isSome ∧ t.Empty p :=
    ⟨Option.isSome_iff_exists.mpr ⟨e, DirTree.find?_eq_some.mpr h⟩, hempty⟩
  exact ⟨_, dif_pos hp⟩

/-- Removing takes one entry out. -/
theorem DirTree.removes_remove (h : t.remove p = some t') (he : (p, e) ∈ t.entries)
    (hP : P (p, e)) : Removes P t t' := by
  obtain ⟨_, _, hentries⟩ := DirTree.remove_eq_some h
  refine ⟨hentries ▸ List.filter_sublist, fun x hx hno => ?_⟩
  have hx' : x.1 = p := by
    by_contra hne
    exact hno (hentries ▸ List.mem_filter.mpr ⟨hx, decide_eq_true hne⟩)
  rw [List.inj_on_of_nodup_map t.unique hx he hx']
  exact hP

theorem DirTree.length_remove (h : t.remove p = some t') :
    t'.entries.length + 1 = t.entries.length := by
  obtain ⟨⟨e, he⟩, _, hentries⟩ := DirTree.remove_eq_some h
  -- One entry is at the place, and the others are what is left.
  have hone : t.entries.countP (fun x => x.1 = p) = 1 := by
    have hmem : p ∈ t.entries.map Prod.fst := List.mem_map.mpr ⟨_, he, rfl⟩
    rw [← List.count_eq_one_of_mem t.unique hmem, List.count, List.countP_map]
    refine List.countP_congr fun x _ => ?_
    simp
  have hrest : t'.entries.length = t.entries.countP fun x => ¬ x.1 = p := by
    rw [hentries, List.countP_eq_length_filter]
  have hsplit := List.length_eq_countP_add_countP (fun x => decide (x.1 = p)) (l := t.entries)
  simp only [decide_eq_true_eq] at hsplit
  omega

end Trees
