import Mathlib.Tactic

/-!
# Tables with constraints on their key columns

A table is a list of rows of any type `ρ`.  Its constraints speak of the key
columns only, a projection `key : ρ → κ` of the row, and of all rows at once,
`Valid : List κ → Prop`.  A table carries the proof that its constraints hold,
so a table that breaks them cannot be built.

An `UPDATE` that leaves the key columns alone keeps every constraint, whatever
its `WHERE` clause and whatever it sets (`Table.update`).  An `INSERT` needs
the constraints of the longer table (`Table.insert`).
-/

namespace Tables

universe u v

variable {ρ : Type u} {κ : Type v}

/-- `UPDATE … SET f WHERE p` on a list of rows. -/
def updateWhere (p : ρ → Bool) (f : ρ → ρ) (rows : List ρ) : List ρ :=
  rows.map fun r => if p r then f r else r

theorem mem_updateWhere {p : ρ → Bool} {f : ρ → ρ} {rows : List ρ} {r' : ρ} :
    r' ∈ updateWhere p f rows ↔ ∃ r ∈ rows, r' = if p r then f r else r := by
  simp only [updateWhere, List.mem_map, eq_comm]

theorem map_updateWhere {key : ρ → κ} {p : ρ → Bool} {f : ρ → ρ}
    (hf : ∀ r, key (f r) = key r) (rows : List ρ) :
    (updateWhere p f rows).map key = rows.map key := by
  rw [updateWhere, List.map_map]
  refine List.map_congr_left fun r _ => ?_
  by_cases h : p r = true
  · simp [h, hf]
  · simp [h]

/-- An `UPDATE` whose rows meet a filter neither before nor after it leaves what the
filter selects alone. -/
theorem filter_updateWhere {p q : ρ → Bool} {f : ρ → ρ} {rows : List ρ}
    (h : ∀ r ∈ rows, q r = true → p r = false ∧ p (f r) = false) :
    (updateWhere q f rows).filter p = rows.filter p := by
  induction rows with
  | nil => rfl
  | cons r rows ih =>
      have ih := ih fun r' hr' => h r' (List.mem_cons_of_mem r hr')
      simp only [updateWhere, List.map_cons] at ih ⊢
      cases hq : q r with
      | false => simp [List.filter_cons, ih]
      | true =>
          obtain ⟨hp, hpf⟩ := h r List.mem_cons_self hq
          simp [hp, hpf, ih]

/-- Two `UPDATE`s commute when no row of one meets the other's condition, before or
after it is written. -/
theorem updateWhere_comm {p q : ρ → Bool} {f g : ρ → ρ} {rows : List ρ}
    (hpq : ∀ r ∈ rows, p r = true → q r = false ∧ q (f r) = false)
    (hqp : ∀ r ∈ rows, q r = true → p r = false ∧ p (g r) = false) :
    updateWhere q g (updateWhere p f rows) = updateWhere p f (updateWhere q g rows) := by
  simp only [updateWhere, List.map_map]
  refine List.map_congr_left fun r hr => ?_
  cases hp : p r with
  | true =>
      obtain ⟨hq, hqf⟩ := hpq r hr hp
      simp [hp, hq, hqf]
  | false =>
      cases hq : q r with
      | true => simp [hp, hq, (hqp r hr hq).2]
      | false => simp [hp, hq]

/-- An `UPDATE` that selects no row does nothing. -/
theorem updateWhere_eq_self {p : ρ → Bool} {f : ρ → ρ} {rows : List ρ}
    (h : rows.filter p = []) : updateWhere p f rows = rows := by
  have hp : ∀ r ∈ rows, ¬ p r = true := List.filter_eq_nil_iff.mp h
  refine (List.map_congr_left fun r hr => ?_).trans (List.map_id rows)
  simp [hp r hr]

/-- `ORDER BY k LIMIT 1` on a list of rows.  The first of several smallest rows
is taken. -/
def firstBy {β : Type v} [LinearOrder β] (k : ρ → β) (rows : List ρ) : Option ρ := rows.argmin k

theorem firstBy_mem {β : Type v} [LinearOrder β] {k : ρ → β} {rows : List ρ} {r : ρ}
    (h : firstBy k rows = some r) : r ∈ rows :=
  List.argmin_mem (Option.mem_def.mpr h)

/-- A table whose constraints hold. -/
structure Table (key : ρ → κ) (Valid : List κ → Prop) where
  /-- The rows, in insertion order. -/
  rows : List ρ
  /-- The constraints hold of the key columns. -/
  valid : Valid (rows.map key)

namespace Table

variable {key : ρ → κ} {Valid : List κ → Prop}

instance : Membership ρ (Table key Valid) := ⟨fun t r => r ∈ t.rows⟩

theorem mem_def {t : Table key Valid} {r : ρ} : r ∈ t ↔ r ∈ t.rows := Iff.rfl

@[ext] theorem ext {t t' : Table key Valid} (h : t.rows = t'.rows) : t = t' := by
  cases t; cases t'; cases h; rfl

instance [DecidableEq ρ] : DecidableEq (Table key Valid) := fun t t' =>
  decidable_of_iff (t.rows = t'.rows) ⟨ext, fun h => h ▸ rfl⟩

instance {p : ρ → Prop} [DecidablePred p] (t : Table key Valid) : Decidable (∀ r ∈ t, p r) :=
  inferInstanceAs (Decidable (∀ r ∈ t.rows, p r))

instance {p : ρ → Prop} [DecidablePred p] (t : Table key Valid) : Decidable (∃ r ∈ t, p r) :=
  inferInstanceAs (Decidable (∃ r ∈ t.rows, p r))

/-- `UPDATE … SET f WHERE p`, where `f` leaves the key columns alone. -/
def update (t : Table key Valid) (p : ρ → Bool) (f : ρ → ρ) (hf : ∀ r, key (f r) = key r) :
    Table key Valid :=
  ⟨updateWhere p f t.rows, map_updateWhere hf t.rows ▸ t.valid⟩

/-- `INSERT` of a row that keeps the constraints. -/
def insert (t : Table key Valid) (r : ρ) (h : Valid ((t.rows ++ [r]).map key)) :
    Table key Valid :=
  ⟨t.rows ++ [r], h⟩

theorem mem_update {t : Table key Valid} {p : ρ → Bool} {f : ρ → ρ}
    {hf : ∀ r, key (f r) = key r} {r' : ρ} :
    r' ∈ t.update p f hf ↔ ∃ r ∈ t, r' = if p r then f r else r := mem_updateWhere

end Table

end Tables
