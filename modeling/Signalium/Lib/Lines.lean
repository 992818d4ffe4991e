import Mathlib.Tactic

/-!
# Streams of lines

A stream is a list of symbols in which one symbol `nl` ends a line.  `split` gives
the lines that are complete, and what follows the last of them.  A reader that is
handed the stream in pieces and keeps what is incomplete sees the same lines
(`feed_eq`), and what it sees of a stream that was cut off is a beginning of what it
would have seen (`split_append`).
-/

namespace Lines

universe u v

variable {α : Type u} [DecidableEq α] {nl : α} {xs ys l : List α} {ls : List (List α)}

/-- The complete lines, without their ends, and the rest. -/
def split (nl : α) : List α → List (List α) × List α
  | [] => ([], [])
  | x :: xs =>
      if x = nl then ([] :: (split nl xs).1, (split nl xs).2)
      else
        match (split nl xs).1 with
        | [] => ([], x :: (split nl xs).2)
        | l :: ls => ((x :: l) :: ls, (split nl xs).2)

/-- The lines with their ends. -/
def unlines (nl : α) (ls : List (List α)) : List α := ls.flatMap fun l => l ++ [nl]

/-- What a loop that reads up to the next `nl` hands on until the end of the stream: the
complete lines with their ends, and the rest unless it is empty. -/
def tokens (nl : α) (xs : List α) : List (List α) :=
  (split nl xs).1.map (fun l => l ++ [nl]) ++
    if (split nl xs).2 = [] then [] else [(split nl xs).2]

/-- A reader that gets the stream in pieces: the lines it has seen complete, and what it has
kept. -/
def feed (nl : α) : List α → List (List α) → List (List α) × List α
  | buf, [] => split nl buf
  | buf, c :: cs =>
      ((split nl buf).1 ++ (feed nl ((split nl buf).2 ++ c) cs).1,
        (feed nl ((split nl buf).2 ++ c) cs).2)
termination_by structural _ cs => cs

theorem split_cons_nl (xs : List α) :
    split nl (nl :: xs) = ([] :: (split nl xs).1, (split nl xs).2) := by
  simp [split]

/-- A stream is taken apart one piece after the other. -/
theorem split_append (xs ys : List α) :
    split nl (xs ++ ys) =
      ((split nl xs).1 ++ (split nl ((split nl xs).2 ++ ys)).1,
        (split nl ((split nl xs).2 ++ ys)).2) := by
  induction xs with
  | nil => simp [split]
  | cons x xs ih =>
      by_cases hx : x = nl
      · subst hx
        rw [List.cons_append, split_cons_nl, split_cons_nl, ih]
        rfl
      · simp only [List.cons_append, split, if_neg hx, ih]
        cases hs : (split nl xs).1 with
        | nil =>
            simp only [List.nil_append, List.cons_append, split, if_neg hx]
        | cons l ls => simp

theorem split_of_not_mem (h : nl ∉ l) : split nl l = ([], l) := by
  induction l with
  | nil => rfl
  | cons x l ih =>
      have hx : x ≠ nl := fun hx => h (hx ▸ List.mem_cons_self)
      simp [split, hx, ih fun hl => h (List.mem_cons_of_mem _ hl)]

theorem split_line (h : nl ∉ l) (ys : List α) :
    split nl (l ++ nl :: ys) = (l :: (split nl ys).1, (split nl ys).2) := by
  induction l with
  | nil => exact split_cons_nl ys
  | cons x l ih =>
      have hx : x ≠ nl := fun hx => h (hx ▸ List.mem_cons_self)
      simp [split, hx, ih fun hl => h (List.mem_cons_of_mem _ hl)]

/-- Lines that hold no `nl` are read back, with what follows them. -/
theorem split_unlines (h : ∀ l ∈ ls, nl ∉ l) (ys : List α) :
    split nl (unlines nl ls ++ ys) = (ls ++ (split nl ys).1, (split nl ys).2) := by
  induction ls with
  | nil => simp [unlines]
  | cons l ls ih =>
      have hrest := ih fun m hm => h m (List.mem_cons_of_mem _ hm)
      have hcons : unlines nl (l :: ls) ++ ys = l ++ nl :: (unlines nl ls ++ ys) := by
        simp [unlines]
      rw [hcons, split_line (h l List.mem_cons_self), hrest]
      rfl

theorem tokens_line (h : nl ∉ l) (ys : List α) :
    tokens nl (l ++ nl :: ys) = (l ++ [nl]) :: tokens nl ys := by
  simp [tokens, split_line h]

theorem tokens_of_not_mem (h : nl ∉ l) : tokens nl l = if l = [] then [] else [l] := by
  simp [tokens, split_of_not_mem h]

/-- After the end of a line the tokens begin afresh. -/
theorem tokens_append (h : (split nl xs).2 = []) (ys : List α) :
    tokens nl (xs ++ ys) = tokens nl xs ++ tokens nl ys := by
  simp [tokens, split_append xs ys, h]

theorem tokens_unlines (h : ∀ l ∈ ls, nl ∉ l) :
    tokens nl (unlines nl ls) = ls.map fun l => l ++ [nl] := by
  have hsplit := split_unlines h []
  rw [List.append_nil] at hsplit
  simp [tokens, hsplit, split]

/-- The pieces a stream comes in make no difference. -/
theorem feed_eq (chunks : List (List α)) :
    ∀ buf : List α, feed nl buf chunks = split nl (buf ++ chunks.flatten) := by
  induction chunks with
  | nil => intro buf; simp [feed]
  | cons c cs ih =>
      intro buf
      rw [feed, ih, List.flatten_cons, split_append buf, List.append_assoc]

/-- What is kept holds no end of a line. -/
theorem not_mem_rest (xs : List α) : nl ∉ (split nl xs).2 := by
  induction xs with
  | nil => simp [split]
  | cons x xs ih =>
      by_cases hx : x = nl
      · simpa [split, hx] using ih
      · simp only [split, if_neg hx]
        cases (split nl xs).1 with
        | nil => simpa [Ne.symm hx] using ih
        | cons l ls => simpa using ih

theorem not_mem_line (xs : List α) : ∀ l ∈ (split nl xs).1, nl ∉ l := by
  induction xs with
  | nil => simp [split]
  | cons x xs ih =>
      by_cases hx : x = nl
      · subst hx
        rw [split_cons_nl]
        intro l hl
        rcases List.mem_cons.mp hl with rfl | hl
        · exact List.not_mem_nil
        · exact ih l hl
      · simp only [split, if_neg hx]
        cases hs : (split nl xs).1 with
        | nil => simp
        | cons m ms =>
            rw [hs] at ih
            intro l hl
            rcases List.mem_cons.mp hl with rfl | hl
            · simpa [Ne.symm hx] using ih m List.mem_cons_self
            · exact ih l (List.mem_cons_of_mem _ hl)

/-- The stream is its lines and the rest. -/
theorem unlines_split (nl : α) (xs : List α) :
    unlines nl (split nl xs).1 ++ (split nl xs).2 = xs := by
  induction xs with
  | nil => rfl
  | cons x xs ih =>
      by_cases hx : x = nl
      · subst hx
        rw [split_cons_nl]
        simpa [unlines] using ih
      · simp only [split, if_neg hx]
        cases hs : (split nl xs).1 with
        | nil =>
            rw [hs] at ih
            simpa [unlines] using ih
        | cons m ms =>
            rw [hs] at ih
            simpa [unlines] using ih

/-- Line by line: what holds of a rest, and of a line before what it holds of, holds of every
stream. -/
theorem lines_rec (nl : α) {P : List α → Prop} (rest : ∀ l, nl ∉ l → P l)
    (line : ∀ l ys, nl ∉ l → P ys → P (l ++ nl :: ys)) (xs : List α) : P xs := by
  have hlines : ∀ ls : List (List α), (∀ l ∈ ls, nl ∉ l) →
      ∀ ys, P ys → P (unlines nl ls ++ ys) := by
    intro ls
    induction ls with
    | nil => intro _ ys hys; exact hys
    | cons l ls ih =>
        intro hls ys hys
        have := line l _ (hls l List.mem_cons_self)
          (ih (fun m hm => hls m (List.mem_cons_of_mem _ hm)) ys hys)
        simpa [unlines] using this
  rw [← unlines_split nl xs]
  exact hlines _ (not_mem_line xs) _ (rest _ (not_mem_rest xs))

/-- What a reader sees of a stream that was cut off: the first tokens of the stream, and at most
a beginning of the next one. -/
theorem tokens_prefix (nl : α) (xs : List α) : ∀ {part : List α}, part <+: xs →
    ∃ k, tokens nl part = (tokens nl xs).take k ∨
      ∃ cut t, (tokens nl xs)[k]? = some t ∧ cut <+: t ∧
        tokens nl part = (tokens nl xs).take k ++ [cut] := by
  have hcut : ∀ {l t : List α} {ts : List (List α)} {part : List α}, nl ∉ l → part <+: l →
      l <+: t → (part ≠ [] → ts.head? = some t) →
      ∃ k, tokens nl part = ts.take k ∨
        ∃ cut t, ts[k]? = some t ∧ cut <+: t ∧ tokens nl part = ts.take k ++ [cut] := by
    intro l t ts part hl hpart hlt hts
    have hnot : nl ∉ part := fun h => hl (hpart.subset h)
    refine ⟨0, ?_⟩
    rw [tokens_of_not_mem hnot]
    by_cases hempty : part = []
    · exact Or.inl (by rw [if_pos hempty, List.take_zero])
    · refine Or.inr ⟨part, t, ?_, hpart.trans hlt, by rw [if_neg hempty]; rfl⟩
      rw [← List.head?_eq_getElem?]
      exact hts hempty
  induction xs using lines_rec nl with
  | rest l hl =>
      intro part hpart
      refine hcut hl hpart (List.prefix_refl l) fun hempty => ?_
      rw [tokens_of_not_mem hl, if_neg]
      · rfl
      · rintro rfl
        exact hempty (List.prefix_nil.mp hpart)
  | line l ys hl ih =>
      intro part hpart
      rw [tokens_line hl]
      rcases List.prefix_or_prefix_of_prefix hpart (List.prefix_append l (nl :: ys)) with h | h
      · exact hcut hl h (List.prefix_append l [nl]) fun _ => rfl
      · obtain ⟨more, rfl⟩ := h
        rw [List.prefix_append_right_inj] at hpart
        cases more with
        | nil =>
            rw [List.append_nil]
            exact hcut hl (List.prefix_refl l) (List.prefix_append l [nl]) fun _ => rfl
        | cons c part =>
            obtain ⟨rfl, hmore⟩ := List.cons_prefix_cons.mp hpart
            rw [tokens_line hl]
            obtain ⟨k, htake | ⟨cut, t, ht, hcut, heq⟩⟩ := ih hmore
            · exact ⟨k + 1, Or.inl (by rw [htake]; rfl)⟩
            · exact ⟨k + 1, Or.inr ⟨cut, t, ht, hcut, by rw [heq]; rfl⟩⟩

/-- A token of a stream that was cut off begins one of the stream. -/
theorem mem_tokens_prefix {part t : List α} (hpart : part <+: xs) (ht : t ∈ tokens nl part) :
    ∃ t' ∈ tokens nl xs, t <+: t' := by
  obtain ⟨k, htake | ⟨cut, t', ht', hcut, heq⟩⟩ := tokens_prefix nl xs hpart
  · rw [htake] at ht
    exact ⟨t, List.mem_of_mem_take ht, List.prefix_refl t⟩
  · rw [heq] at ht
    rcases List.mem_append.mp ht with hold | hnew
    · exact ⟨t, List.mem_of_mem_take hold, List.prefix_refl t⟩
    · rw [List.mem_singleton.mp hnew]
      exact ⟨t', List.mem_of_getElem? ht', hcut⟩

/-- A reading of tokens that sees in a token that was cut off the token or nothing sees in a
stream that was cut off a beginning of what it sees in the stream. -/
theorem filterMap_tokens_prefix {β : Type v} (g : List α → Option β) {part : List α}
    (hg : ∀ t ∈ tokens nl xs, ∀ cut, cut <+: t → g cut = none ∨ g cut = g t)
    (hpart : part <+: xs) :
    (tokens nl part).filterMap g <+: (tokens nl xs).filterMap g := by
  obtain ⟨k, htake | ⟨cut, t, ht, hcut, heq⟩⟩ := tokens_prefix nl xs hpart
  · rw [htake]
    exact (List.take_prefix _ _).filterMap _
  · have hsplit : (tokens nl xs).filterMap g =
        ((tokens nl xs).take k).filterMap g ++
          (t :: (tokens nl xs).drop (k + 1)).filterMap g := by
      have hdrop : t :: (tokens nl xs).drop (k + 1) = (tokens nl xs).drop k := by
        rw [List.drop_eq_getElem?_toList_append (i := k), ht]
        rfl
      rw [← List.filterMap_append, hdrop, List.take_append_drop]
    rw [heq, List.filterMap_append, hsplit, List.prefix_append_right_inj]
    rcases hg t (List.mem_of_getElem? ht) cut hcut with hnone | hsame
    · rw [List.filterMap_cons, hnone]
      exact List.nil_prefix
    · rw [List.filterMap_cons, List.filterMap_cons, hsame]
      cases g t with
      | none => exact List.nil_prefix
      | some y => exact List.prefix_append [y] _

end Lines
