import Mathlib.Tactic

/-!
# Pages of a list

The page number `k` of a list, `size` entries to a page, is what is left of the
list after `k * size` entries, cut to `size`.  The first `m` pages together are
the first `m * size` entries (`flatten_pages`), so pages tile the list: nothing is
left out and nothing comes twice, every page but the last is full, and the pages
from number `count` on are empty.

`walk` is a client that asks for page after page until it gets an empty one.
-/

namespace Pages

universe u v w

variable {α : Type u}

/-- The page with number `k`. -/
def page (size k : Nat) (l : List α) : List α := (l.drop (k * size)).take size

/-- The number of pages of `n` entries that are not empty. -/
def count (size n : Nat) : Nat := (n + size - 1) / size

variable {size k m n : Nat} {l : List α}

theorem count_le_iff (hsize : 0 < size) : count size n ≤ k ↔ n ≤ k * size := by
  rw [count, Nat.div_le_iff_le_mul_add_pred hsize, Nat.mul_comm]
  omega

theorem lt_count_iff (hsize : 0 < size) : k < count size n ↔ k * size < n := by
  rw [← Nat.not_le, count_le_iff hsize, Nat.not_le]

theorem length_page : (page size k l).length = min size (l.length - k * size) := by
  rw [page, List.length_take, List.length_drop]

theorem page_eq_nil_iff (hsize : 0 < size) : page size k l = [] ↔ count size l.length ≤ k := by
  rw [← List.length_eq_zero_iff, length_page, count_le_iff hsize]
  omega

/-- The numbers of the pages before the last one. -/
theorem mem_dropLast_range : k ∈ (List.range n).dropLast ↔ k + 1 < n := by
  cases n with
  | zero => simp
  | succ n =>
      rw [List.range_succ, List.dropLast_concat, List.mem_range]
      omega

/-- Every page before the last one is full. -/
theorem length_page_of_lt (hsize : 0 < size) (h : k + 1 < count size l.length) :
    (page size k l).length = size := by
  have hlt := (lt_count_iff hsize).mp h
  rw [Nat.add_mul, Nat.one_mul] at hlt
  rw [length_page]
  omega

theorem flatten_pages (size m : Nat) (l : List α) :
    ((List.range m).map fun k => page size k l).flatten = l.take (m * size) := by
  induction m with
  | zero => simp
  | succ m ih =>
      rw [List.range_succ, List.map_append, List.flatten_append, ih, Nat.add_mul, Nat.one_mul,
        List.take_add]
      simp [page]

/-- The pages of a list tile it. -/
theorem flatten_count (hsize : 0 < size) (l : List α) :
    ((List.range (count size l.length)).map fun k => page size k l).flatten = l := by
  rw [flatten_pages]
  exact List.take_of_length_le ((count_le_iff hsize).mp le_rfl)

/-! ## Walking through the pages -/

section Walk

variable {ρ : Type v} {ε : Type w}

/-- Ask for the answers from number `k` on until one is empty: the others, and that one.
Without an answer, or without an empty one among the first `fuel`, there is no result. -/
def walk (empty : ρ → Bool) (answer : Nat → Except ε ρ) : Nat → Nat → Option (List ρ × ρ)
  | 0, _ => none
  | fuel + 1, k =>
      match answer k with
      | .error _ => none
      | .ok r =>
          if empty r then some ([], r)
          else (walk empty answer fuel (k + 1)).map fun p => (r :: p.1, p.2)

/-- Where the answers up to the first empty one are known, so is the walk. -/
theorem walk_eq {empty : ρ → Bool} {answer : Nat → Except ε ρ} {reply : Nat → ρ}
    (hanswer : ∀ k ≤ n, answer k = .ok (reply k)) (hempty : empty (reply n) = true)
    (hfull : ∀ k < n, empty (reply k) = false) :
    ∀ {fuel k : Nat}, k ≤ n → n - k < fuel →
      walk empty answer fuel k = some ((List.range' k (n - k)).map reply, reply n) := by
  intro fuel
  induction fuel with
  | zero => intro k _ h; omega
  | succ fuel ih =>
      intro k hk hfuel
      rw [walk, hanswer k hk]
      by_cases heq : k = n
      · subst heq
        simp [hempty]
      · have hlt : k < n := by omega
        have hsub : n - k = (n - (k + 1)) + 1 := by omega
        simp only [hfull k hlt, Bool.false_eq_true, if_false]
        rw [ih hlt (by omega), hsub, List.range'_succ]
        rfl

end Walk

end Pages
