import Signalium.Lib.Tables

/-!
# Tables that keep the first row of each key

A table with a `UNIQUE` key that is filled with `INSERT … ON CONFLICT DO NOTHING`.
A row whose key is taken changes nothing, so the first row of a key stays, and
what has been inserted once can be inserted again at any time
(`Keyed.insertAll_of_mem`).  After a sequence of inserts the table has the first
row of each key (`Keyed.mem_insertAll`).
-/

namespace Tables

universe u v

variable {ρ : Type u} {κ : Type v} {key : ρ → κ}

/-- A table whose key is `UNIQUE`. -/
abbrev Keyed (key : ρ → κ) := Table key List.Nodup

namespace Keyed

/-- The table without rows. -/
def empty (key : ρ → κ) : Keyed key := ⟨[], List.nodup_nil⟩

/-- The keys in use. -/
def keys (t : Keyed key) : List κ := t.rows.map key

theorem mem_keys {t : Keyed key} {k : κ} : k ∈ t.keys ↔ ∃ r ∈ t, key r = k := List.mem_map

variable [DecidableEq κ] {t : Keyed key} {r r' : ρ} {rs : List ρ} {k : κ}

/-- `INSERT … ON CONFLICT (key) DO NOTHING`. -/
def insertNew (t : Keyed key) (r : ρ) : Keyed key :=
  if h : key r ∈ t.keys then t
  else t.insert r (by
    rw [List.map_append]
    exact List.Nodup.append t.valid (List.nodup_singleton _)
      (List.disjoint_singleton.mpr h))

/-- A sequence of inserts. -/
def insertAll (t : Keyed key) (rs : List ρ) : Keyed key := rs.foldl insertNew t

theorem insertNew_of_mem (h : key r ∈ t.keys) : t.insertNew r = t := dif_pos h

theorem mem_insertNew : r' ∈ t.insertNew r ↔ r' ∈ t ∨ r' = r ∧ key r ∉ t.keys := by
  unfold insertNew
  split
  · next h => exact ⟨Or.inl, fun h' => h'.resolve_right fun hr => hr.2 h⟩
  · next h =>
      rw [Table.mem_def, Table.insert, List.mem_append, List.mem_singleton, ← Table.mem_def]
      exact or_congr_right ⟨fun he => ⟨he, h⟩, And.left⟩

@[simp] theorem mem_keys_insertNew : k ∈ (t.insertNew r).keys ↔ k ∈ t.keys ∨ k = key r := by
  constructor
  · intro h
    obtain ⟨r', hr', rfl⟩ := mem_keys.mp h
    rcases mem_insertNew.mp hr' with hold | ⟨rfl, _⟩
    · exact Or.inl (mem_keys.mpr ⟨r', hold, rfl⟩)
    · exact Or.inr rfl
  · rintro (h | rfl)
    · obtain ⟨r', hr', rfl⟩ := mem_keys.mp h
      exact mem_keys.mpr ⟨r', mem_insertNew.mpr (Or.inl hr'), rfl⟩
    · by_cases h : key r ∈ t.keys
      · rwa [insertNew_of_mem h]
      · exact mem_keys.mpr ⟨r, mem_insertNew.mpr (Or.inr ⟨rfl, h⟩), rfl⟩

theorem mem_keys_insertAll : k ∈ (t.insertAll rs).keys ↔ k ∈ t.keys ∨ k ∈ rs.map key := by
  induction rs generalizing t with
  | nil => simp [insertAll]
  | cons r rs ih =>
      have hfold : t.insertAll (r :: rs) = (t.insertNew r).insertAll rs := rfl
      rw [hfold, ih, mem_keys_insertNew, List.map_cons, List.mem_cons, or_assoc]

theorem insertAll_append (t : Keyed key) (rs rs' : List ρ) :
    t.insertAll (rs ++ rs') = (t.insertAll rs).insertAll rs' :=
  List.foldl_append

/-- Rows whose keys are taken change nothing. -/
theorem insertAll_of_mem (h : ∀ r ∈ rs, key r ∈ t.keys) : t.insertAll rs = t := by
  induction rs with
  | nil => rfl
  | cons r rs ih =>
      have hfold : t.insertAll (r :: rs) = (t.insertNew r).insertAll rs := rfl
      rw [hfold, insertNew_of_mem (h r List.mem_cons_self)]
      exact ih fun r' hr' => h r' (List.mem_cons_of_mem r hr')

/-- A row is there if it was there before, or if it is the first of its key and the
key was free. -/
theorem mem_insertAll :
    r ∈ t.insertAll rs ↔
      r ∈ t ∨ key r ∉ t.keys ∧ ∃ l₁ l₂, rs = l₁ ++ r :: l₂ ∧ key r ∉ l₁.map key := by
  induction rs using List.reverseRecOn with
  | nil => simp [insertAll]
  | append_singleton rs x ih =>
      rw [insertAll_append]
      change r ∈ (t.insertAll rs).insertNew x ↔ _
      rw [mem_insertNew, ih, mem_keys_insertAll]
      constructor
      · rintro ((h | ⟨hk, l₁, l₂, rfl, hl⟩) | ⟨rfl, hfree⟩)
        · exact Or.inl h
        · exact Or.inr ⟨hk, l₁, l₂ ++ [x], by simp, hl⟩
        · rw [not_or] at hfree
          exact Or.inr ⟨hfree.1, rs, [], rfl, hfree.2⟩
      · rintro (h | ⟨hk, l₁, l₂, hl, hfree⟩)
        · exact Or.inl (Or.inl h)
        · -- The first row of the key is the last one inserted, or an earlier one.
          rcases List.eq_nil_or_concat l₂ with rfl | ⟨l₂', y, rfl⟩
          · obtain ⟨rfl, hx⟩ := List.append_inj' hl rfl
            cases hx
            exact Or.inr ⟨rfl, not_or.mpr ⟨hk, hfree⟩⟩
          · rw [List.concat_eq_append, ← List.cons_append, ← List.append_assoc] at hl
            obtain ⟨rfl, _⟩ := List.append_inj' hl rfl
            exact Or.inl (Or.inr ⟨hk, l₁, l₂', rfl, hfree⟩)

end Keyed

end Tables
