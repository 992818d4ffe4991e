import Signalium.Lib.Lines

/-!
# Connections that carry lines

One direction of a connection.  What is written is on its way, arrives in the buffer
of the reader piece by piece, and is handed on line by line; at the end the reader
hands on what is left.  The connection may break: then what is on its way is cut, and
nothing that is written afterwards gets through.  A piece is any number of whole
elements: where these are characters, no cut goes through the bytes of one of them.

Whatever happens, what the reader has handed on are the tokens of a beginning of what
was written (`Ok.read_eq`).
-/

namespace Pipes

open Lines

universe u

variable {α : Type u} [DecidableEq α] {nl : α}

/-- One direction. -/
structure Pipe (α : Type u) where
  /-- History: all that was written, whether it got through or not. -/
  stream : List α := []
  /-- What is on its way. -/
  flight : List α := []
  /-- What has arrived and was not handed on. -/
  buf : List α := []
  /-- History: what the reader has handed on. -/
  read : List (List α) := []
  /-- Nothing that is written now gets through. -/
  broken : Bool := false
  /-- The reader has seen the end. -/
  ended : Bool := false

namespace Pipe

variable {p p' : Pipe α} {xs t : List α} {n : Nat}

/-- A write that succeeds. -/
def write (p : Pipe α) (xs : List α) : Pipe α :=
  { p with stream := p.stream ++ xs, flight := if p.broken then p.flight else p.flight ++ xs }

/-- A write that fails before the symbols `xs`. -/
def fail (p : Pipe α) (xs : List α) : Pipe α :=
  { p with stream := p.stream ++ xs, broken := true }

/-- The next `n` symbols arrive. -/
def arrive (p : Pipe α) (n : Nat) : Option (Pipe α) :=
  if p.ended then none
  else some { p with buf := p.buf ++ p.flight.take n, flight := p.flight.drop n }

/-- The connection breaks.  Of what is on its way, `n` symbols may still arrive. -/
def cut (p : Pipe α) (n : Nat) : Pipe α := { p with flight := p.flight.take n, broken := true }

/-- The reader hands on a complete line, with its end. -/
def line (nl : α) (p : Pipe α) : Option (List α × Pipe α) :=
  match (split nl p.buf).1 with
  | l :: _ =>
      some (l ++ [nl], { p with buf := p.buf.drop (l.length + 1), read := p.read ++ [l ++ [nl]] })
  | [] => none

/-- The reader sees the end, and hands on what is left. -/
def rest (nl : α) (p : Pipe α) : Option (List α × Pipe α) :=
  if p.ended = true ∨ p.buf = [] ∨ (split nl p.buf).1 ≠ [] then none
  else some (p.buf, { p with buf := [], read := p.read ++ [p.buf], ended := true })

/-- The reader sees the end, and nothing is left. -/
def close (p : Pipe α) : Option (Pipe α) :=
  if p.buf = [] then some { p with ended := true } else none

/-- What holds of a pipe. -/
structure Ok (nl : α) (p : Pipe α) : Prop where
  /-- Nothing is out of order, and nothing comes from elsewhere. -/
  whole : p.read.flatten ++ p.buf ++ p.flight <+: p.stream
  /-- Nothing is lost before the connection breaks. -/
  kept : p.broken = false → p.read.flatten ++ p.buf ++ p.flight = p.stream
  tokens : Lines.tokens nl p.read.flatten = p.read
  /-- Until the end, the reader is at the beginning of a line. -/
  boundary : p.ended = false → (split nl p.read.flatten).2 = []
  ended : p.ended = true → p.buf = []

theorem ok_new : Ok nl ({} : Pipe α) where
  whole := List.prefix_refl _
  kept := fun _ => rfl
  tokens := rfl
  boundary := fun _ => rfl
  ended := fun h => by cases h

theorem Ok.write (h : Ok nl p) (xs : List α) : Ok nl (p.write xs) where
  whole := by
    unfold Pipe.write
    cases hb : p.broken with
    | true => exact h.whole.trans (List.prefix_append _ _)
    | false =>
        simp only [Bool.false_eq_true, if_false]
        rw [← List.append_assoc, h.kept hb]
  kept := fun hb => by
    have hb' : p.broken = false := hb
    unfold Pipe.write
    simp only [hb', Bool.false_eq_true, if_false]
    rw [← List.append_assoc, h.kept hb']
  tokens := h.tokens
  boundary := h.boundary
  ended := h.ended

theorem Ok.fail (h : Ok nl p) (xs : List α) : Ok nl (p.fail xs) where
  whole := h.whole.trans (List.prefix_append _ _)
  kept := fun hb => by cases hb
  tokens := h.tokens
  boundary := h.boundary
  ended := h.ended

omit [DecidableEq α] in
theorem arrive_eq (hp : p.arrive n = some p') : p'.stream = p.stream ∧ p'.read = p.read := by
  unfold Pipe.arrive at hp
  split at hp
  · cases hp
  · cases hp
    exact ⟨rfl, rfl⟩

theorem Ok.arrive (h : Ok nl p) (hp : p.arrive n = some p') : Ok nl p' := by
  unfold Pipe.arrive at hp
  split at hp
  · cases hp
  · next he =>
      cases hp
      have hsame : p.read.flatten ++ (p.buf ++ p.flight.take n) ++ p.flight.drop n =
          p.read.flatten ++ p.buf ++ p.flight := by
        simp only [List.append_assoc, List.take_append_drop]
      exact {
        whole := hsame ▸ h.whole
        kept := fun hb => hsame.trans (h.kept hb)
        tokens := h.tokens
        boundary := h.boundary
        ended := fun h => absurd h he }

theorem Ok.cut (h : Ok nl p) (n : Nat) : Ok nl (p.cut n) where
  whole := ((List.prefix_append_right_inj _).mpr (List.take_prefix n p.flight)).trans h.whole
  kept := fun hb => by cases hb
  tokens := h.tokens
  boundary := h.boundary
  ended := h.ended

/-- What a complete line is. -/
theorem line_eq (h : p.line nl = some (t, p')) :
    ∃ l more, nl ∉ l ∧ t = l ++ [nl] ∧ p.buf = t ++ more ∧
      p' = { p with buf := more, read := p.read ++ [t] } := by
  unfold Pipe.line at h
  cases hs : (split nl p.buf).1 with
  | nil => rw [hs] at h; cases h
  | cons l ls =>
      rw [hs] at h
      cases h
      have hall := unlines_split nl p.buf
      rw [hs] at hall
      have hbuf : p.buf = (l ++ [nl]) ++ (unlines nl ls ++ (split nl p.buf).2) := by
        rw [← List.append_assoc]
        exact hall.symm
      refine ⟨l, unlines nl ls ++ (split nl p.buf).2,
        not_mem_line p.buf l (by rw [hs]; exact List.mem_cons_self), rfl, hbuf, ?_⟩
      have hdrop : p.buf.drop (l.length + 1) = unlines nl ls ++ (split nl p.buf).2 := by
        conv_lhs => rw [hbuf]
        exact List.drop_left' (by simp)
      rw [hdrop]

theorem Ok.line (h : Ok nl p) (hp : p.line nl = some (t, p')) : Ok nl p' := by
  obtain ⟨l, more, hl, rfl, hbuf, rfl⟩ := line_eq hp
  have hsame : (p.read ++ [l ++ [nl]]).flatten ++ more ++ p.flight =
      p.read.flatten ++ p.buf ++ p.flight := by
    simp [hbuf]
  have hopen : p.ended = false := by
    cases he : p.ended with
    | false => rfl
    | true =>
        have := h.ended he
        rw [hbuf] at this
        simp at this
  have hflat : (p.read ++ [l ++ [nl]]).flatten = p.read.flatten ++ (l ++ [nl]) := by simp
  exact {
    whole := hsame ▸ h.whole
    kept := fun hb => hsame.trans (h.kept hb)
    tokens := by
      rw [hflat, tokens_append (h.boundary hopen), h.tokens, tokens_line hl]
      rfl
    boundary := fun _ => by
      change (split nl (p.read ++ [l ++ [nl]]).flatten).2 = []
      rw [hflat, split_append, h.boundary hopen, List.nil_append, split_line hl]
      rfl
    ended := fun he => by
      rw [show p.ended = true from he] at hopen
      cases hopen }

/-- What is left at the end. -/
theorem rest_eq (h : p.rest nl = some (t, p')) :
    p.ended = false ∧ t ≠ [] ∧ nl ∉ t ∧ p.buf = t ∧
      p' = { p with buf := [], read := p.read ++ [t], ended := true } := by
  unfold Pipe.rest at h
  split at h
  · cases h
  · next hcond =>
      push Not at hcond
      obtain ⟨he, hb, hs⟩ := hcond
      cases h
      refine ⟨by simpa using he, hb, ?_, rfl, rfl⟩
      have hall := unlines_split nl p.buf
      have hrest : nl ∉ (split nl p.buf).2 := not_mem_rest p.buf
      rw [hs] at hall
      rwa [show (split nl p.buf).2 = p.buf from hall] at hrest

theorem Ok.rest (h : Ok nl p) (hp : p.rest nl = some (t, p')) : Ok nl p' := by
  obtain ⟨he, hne, hnl, hbuf, rfl⟩ := rest_eq hp
  have hsame : (p.read ++ [t]).flatten ++ [] ++ p.flight = p.read.flatten ++ p.buf ++ p.flight := by
    simp [hbuf]
  exact {
    whole := hsame ▸ h.whole
    kept := fun hb => hsame.trans (h.kept hb)
    tokens := by
      have hflat : (p.read ++ [t]).flatten = p.read.flatten ++ t := by simp
      rw [hflat, tokens_append (h.boundary he), h.tokens, tokens_of_not_mem hnl, if_neg hne]
    boundary := fun he => by cases he
    ended := fun _ => rfl }

omit [DecidableEq α] in
theorem close_eq (hp : p.close = some p') : p'.stream = p.stream ∧ p'.read = p.read := by
  unfold Pipe.close at hp
  split at hp
  · cases hp
    exact ⟨rfl, rfl⟩
  · cases hp

theorem Ok.close (h : Ok nl p) (hp : p.close = some p') : Ok nl p' := by
  unfold Pipe.close at hp
  split at hp
  · next hb => cases hp; exact { h with boundary := fun he => (by cases he), ended := fun _ => hb }
  · cases hp

/-- What the reader has handed on are the tokens of a beginning of what was written. -/
theorem Ok.read_eq (h : Ok nl p) :
    p.read = Lines.tokens nl p.read.flatten ∧ p.read.flatten <+: p.stream := by
  have hfirst : p.read.flatten <+: p.read.flatten ++ p.buf ++ p.flight := by
    rw [List.append_assoc]
    exact List.prefix_append _ _
  exact ⟨h.tokens.symm, hfirst.trans h.whole⟩

/-- What the reader has handed on when nothing is lost and nothing is outstanding. -/
theorem Ok.read_all (h : Ok nl p) (hb : p.broken = false) (hf : p.flight = []) (hbuf : p.buf = []) :
    p.read.flatten = p.stream := by
  have := h.kept hb
  simpa [hf, hbuf] using this

end Pipe

end Pipes
