import Mathlib.Tactic

/-!
# Bounded buffers that drop

A buffer holds at most `cap` values.  A value offered to a full buffer is lost;
the producer never waits.  A consumer takes values from the front at its own
speed.  `taken` and `lost` are histories.

Whatever producer and consumer do, what was taken and what is held, in this
order, is a sublist of what was offered, and nothing is unaccounted for
(`Buffer.Conserves`).
-/

namespace Buffers

universe u

variable {α : Type u}

/-- A buffer, with the values taken from it and the number of those lost. -/
structure Buffer (α : Type u) where
  held : List α
  taken : List α
  lost : Nat

namespace Buffer

def empty : Buffer α := ⟨[], [], 0⟩

/-- The non-blocking send: it succeeds while there is room. -/
def offer (cap : Nat) (b : Buffer α) (x : α) : Buffer α :=
  if b.held.length < cap then { b with held := b.held ++ [x] } else { b with lost := b.lost + 1 }

/-- The receive, which waits on an empty buffer. -/
def take (b : Buffer α) : Option (Buffer α) :=
  match b.held with
  | x :: rest => some { b with held := rest, taken := b.taken ++ [x] }
  | [] => none

theorem take_lost {b b' : Buffer α} (h : b.take = some b') : b'.lost = b.lost := by
  cases hheld : b.held with
  | nil => simp [take, hheld] at h
  | cons x rest =>
      simp only [take, hheld, Option.some.injEq] at h
      rw [← h]

/-- The buffer accounts for what was offered to it. -/
structure Conserves (cap : Nat) (offered : List α) (b : Buffer α) : Prop where
  order : (b.taken ++ b.held).Sublist offered
  count : offered.length = b.taken.length + b.held.length + b.lost
  bound : b.held.length ≤ cap

variable {cap : Nat} {offered : List α} {b b' : Buffer α}

theorem conserves_empty (cap : Nat) : Conserves cap [] (empty : Buffer α) :=
  ⟨List.Sublist.refl [], rfl, Nat.zero_le cap⟩

theorem Conserves.offer (h : Conserves cap offered b) (x : α) :
    Conserves cap (offered ++ [x]) (b.offer cap x) := by
  have hcount := h.count
  by_cases hroom : b.held.length < cap
  · simp only [Buffer.offer, if_pos hroom]
    refine ⟨?_, ?_, ?_⟩
    · rw [← List.append_assoc]
      exact h.order.append (List.Sublist.refl [x])
    · simp only [List.length_append, List.length_singleton]
      omega
    · simp only [List.length_append, List.length_singleton]
      omega
  · simp only [Buffer.offer, if_neg hroom]
    refine ⟨h.order.trans (List.sublist_append_left offered [x]), ?_, h.bound⟩
    simp only [List.length_append, List.length_singleton]
    omega

theorem Conserves.take (h : Conserves cap offered b) (hb : b.take = some b') :
    Conserves cap offered b' := by
  have horder := h.order
  have hcount := h.count
  have hbound := h.bound
  cases hheld : b.held with
  | nil => simp [Buffer.take, hheld] at hb
  | cons x rest =>
      simp only [Buffer.take, hheld, Option.some.injEq] at hb
      subst hb
      rw [hheld] at horder hcount hbound
      simp only [List.length_cons] at hcount hbound
      refine ⟨?_, ?_, ?_⟩
      · simpa using horder
      · simp only [List.length_append, List.length_singleton]
        omega
      · simp only
        omega

/-- Only a full buffer loses a value. -/
theorem Conserves.full_of_lost (h : Conserves cap offered b) {x : α}
    (hlost : (b.offer cap x).lost ≠ b.lost) : b.held.length = cap := by
  have hbound := h.bound
  by_cases hroom : b.held.length < cap
  · simp [Buffer.offer, hroom] at hlost
  · omega

end Buffer

end Buffers
