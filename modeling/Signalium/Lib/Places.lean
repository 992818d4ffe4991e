import Mathlib.Tactic

/-!
# Processes by their place in a list

The processes of a system are a list that only grows: a process is named by its
place, a step replaces the entry at one place, and a new process is appended.
These lemmas read off which entry of the old list an entry of the new one comes
from.
-/

namespace Places

universe u v

variable {α : Type u} {l : List α} {i j : Nat} {x y : α}

/-- An entry after a process was appended. -/
theorem of_snoc (h : (l ++ [x])[i]? = some y) : l[i]? = some y ∨ i = l.length ∧ y = x := by
  rw [List.getElem?_append] at h
  split at h
  · exact Or.inl h
  · next hi =>
      rw [List.getElem?_singleton] at h
      split at h
      · cases h; exact Or.inr ⟨by omega, rfl⟩
      · cases h

/-- An entry after the one at place `j` was replaced. -/
theorem of_set (h : (l.set j x)[i]? = some y) : i = j ∧ y = x ∨ i ≠ j ∧ l[i]? = some y := by
  rw [List.getElem?_set] at h
  split at h
  · next hji =>
      split at h
      · cases h; exact Or.inl ⟨hji.symm, rfl⟩
      · cases h
  · next hji => exact Or.inr ⟨Ne.symm hji, h⟩

/-- The replaced entry. -/
theorem set_self (h : l[i]? = some y) : (l.set i x)[i]? = some x := by
  rw [List.getElem?_set_self (List.getElem?_eq_some_iff.mp h).1]

theorem set_same (h : l[i]? = some x) : l.set i x = l := by
  obtain ⟨hi, rfl⟩ := List.getElem?_eq_some_iff.mp h
  exact List.set_getElem_self hi

/-- The other entries stay. -/
theorem set_ne (hij : i ≠ j) : (l.set j x)[i]? = l[i]? := by
  rw [List.getElem?_set_ne (Ne.symm hij)]

/-- Old entries stay when a process is appended. -/
theorem snoc_of (h : l[i]? = some y) : (l ++ [x])[i]? = some y := by
  rw [List.getElem?_append_left (List.getElem?_eq_some_iff.mp h).1, h]

/-- A sum over the processes changes by what it changes at one place. -/
theorem sum_set (f : α → Nat) {l : List α} {i : Nat} (h : l[i]? = some y) :
    ((l.set i x).map f).sum + f y = (l.map f).sum + f x := by
  induction l generalizing i with
  | nil => cases h
  | cons a l ih =>
      cases i with
      | zero =>
          cases h
          simp only [List.set_cons_zero, List.map_cons, List.sum_cons]
          omega
      | succ i =>
          have := ih h
          simp only [List.set_cons_succ, List.map_cons, List.sum_cons]
          omega

/-- What the processes list changes at one place. -/
theorem flatMap_set_perm {β : Type u} (f : α → List β) {zs : List β} (hf : f x = f y ++ zs)
    {l : List α} {i : Nat} (h : l[i]? = some y) :
    ((l.set i x).flatMap f).Perm (l.flatMap f ++ zs) := by
  induction l generalizing i with
  | nil => cases h
  | cons a l ih =>
      cases i with
      | zero =>
          cases h
          rw [List.set_cons_zero, List.flatMap_cons, List.flatMap_cons, hf, List.append_assoc,
            List.append_assoc]
          exact List.perm_append_comm.append_left _
      | succ i =>
          rw [List.set_cons_succ, List.flatMap_cons, List.flatMap_cons, List.append_assoc]
          exact (ih h).append_left _

/-- What the processes list stays if it stays at one place. -/
theorem flatMap_set_same {β : Type u} (f : α → List β) (hf : f x = f y) {l : List α} {i : Nat}
    (h : l[i]? = some y) : (l.set i x).flatMap f = l.flatMap f := by
  have hmap : (l.set i x).map f = l.map f := by
    rw [List.map_set, hf]
    exact set_same (by rw [List.getElem?_map, h]; rfl)
  rw [List.flatMap_def, List.flatMap_def, hmap]

/-- What the processes list changes at the last place. -/
theorem flatMap_set_last {β : Type u} (f : α → List β) {zs : List β} (hf : f x = f y ++ zs)
    {l : List α} {i : Nat} (h : l[i]? = some y) (hlast : i + 1 = l.length) :
    (l.set i x).flatMap f = l.flatMap f ++ zs := by
  induction l generalizing i with
  | nil => cases h
  | cons a l ih =>
      cases i with
      | zero =>
          cases h
          have hl : l = [] := List.length_eq_zero_iff.mp (Nat.succ.inj hlast).symm
          simp [hl, hf]
      | succ i =>
          rw [List.set_cons_succ, List.flatMap_cons, List.flatMap_cons, List.append_assoc,
            ih h (Nat.succ.inj hlast)]

/-- What stands at places that are pairwise different, in a list without repetitions. -/
theorem forall₂_get {β : Type v} {l : List α} (hl : l.Nodup) {R : Nat → β → Prop}
    {P : α → β → Prop} (hR : ∀ i y, R i y → ∃ x, l[i]? = some x ∧ P x y) {is : List Nat}
    {ys : List β} (h : List.Forall₂ R is ys) (his : is.Nodup) :
    ∃ xs, xs.Nodup ∧ List.Forall₂ P xs ys ∧ ∀ x ∈ xs, ∃ i ∈ is, l[i]? = some x := by
  induction h with
  | nil => exact ⟨[], List.nodup_nil, .nil, fun x hx => by cases hx⟩
  | @cons i y is ys hy _ ih =>
      obtain ⟨hi, his⟩ := List.nodup_cons.mp his
      obtain ⟨xs, hxs, hall, hplaces⟩ := ih his
      obtain ⟨x, hx, hp⟩ := hR i y hy
      refine ⟨x :: xs, List.nodup_cons.mpr ⟨fun hmem => ?_, hxs⟩, .cons hp hall, fun z hz => ?_⟩
      · obtain ⟨j, hj, hxj⟩ := hplaces x hmem
        have hlt : i < l.length := (List.getElem?_eq_some_iff.mp hx).1
        have hij : i = j := (List.getElem?_inj hlt hl).mp (hx.trans hxj.symm)
        exact hi (hij ▸ hj)
      · rcases List.mem_cons.mp hz with rfl | hz
        · exact ⟨i, List.mem_cons_self, hx⟩
        · obtain ⟨j, hj, hzj⟩ := hplaces z hz
          exact ⟨j, List.mem_cons_of_mem _ hj, hzj⟩

end Places
