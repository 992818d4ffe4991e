import Mathlib.Tactic

/-!
# Lexical paths

Go's `filepath.Clean` and `filepath.Join` on Unix, over lists of characters.
`Clean` walks through the elements of a path and keeps a stack: an empty element
and `.` are dropped, `..` takes the last element back where there is one to take
back, anything else is pushed.

A stack of this kind is `Normal`, and reading a path back that was written from
a normal stack gives the stack (`stack_render`).  So joining names to a
directory pushes them, one after the other (`join_join_name`), and the path
tells the names (`render_inj`).
-/

namespace Paths

/-- An element of a path that names an entry of a directory. -/
def IsName (c : List Char) : Prop := c ≠ [] ∧ '/' ∉ c ∧ c ≠ ['.'] ∧ c ≠ ['.', '.']

instance (c : List Char) : Decidable (IsName c) := inferInstanceAs (Decidable (_ ∧ _))

/-- One element, on the stack of the elements kept so far. -/
def push (rooted : Bool) (out : List (List Char)) (c : List Char) : List (List Char) :=
  if c = [] ∨ c = ['.'] then out
  else if c = ['.', '.'] then
    match out with
    | [] => if rooted then [] else [c]
    | top :: rest => if top = ['.', '.'] then c :: out else rest
  else c :: out

/-- The path begins at the root. -/
def rooted (path : List Char) : Bool := path.head? = some '/'

/-- The elements a path comes down to, the last one first. -/
def stack (path : List Char) : List (List Char) :=
  (path.splitOn '/').foldl (push (rooted path)) []

/-- The path with these elements, the last one first. -/
def render (rooted : Bool) (out : List (List Char)) : List Char :=
  if rooted then '/' :: ['/'].intercalate out.reverse
  else if out = [] then ['.']
  else ['/'].intercalate out.reverse

/-- `filepath.Clean`. -/
def clean (path : List Char) : List Char := render (rooted path) (stack path)

/-- `filepath.Join`: leading empty elements are skipped. -/
def join (elems : List (List Char)) : List Char :=
  match elems.dropWhile (· = []) with
  | [] => []
  | es => clean (['/'].intercalate es)

example : join ["/var//tmp/".toList, "m".toList, "..".toList, "n".toList] =
    "/var/tmp/n".toList := by
  decide

/-! ## Normal stacks -/

/-- What `Clean` leaves: names, below them steps up, and no step up from the
root. -/
def Normal (rooted : Bool) : List (List Char) → Prop
  | [] => True
  | c :: out =>
      (IsName c ∨ c = ['.', '.'] ∧ rooted = false ∧ ∀ x ∈ out, x = ['.', '.']) ∧ Normal rooted out

variable {r : Bool} {out : List (List Char)} {c m n m' n' dir : List Char}

theorem IsName.push_eq (h : IsName c) : push r out c = c :: out := by
  simp [push, h.1, h.2.2.1, h.2.2.2]

theorem Normal.push (h : Normal r out) (hc : '/' ∉ c) : Normal r (push r out c) := by
  unfold Paths.push
  by_cases hskip : c = [] ∨ c = ['.']
  · rw [if_pos hskip]
    exact h
  rw [if_neg hskip]
  by_cases hup : c = ['.', '.']
  · rw [if_pos hup]
    cases out with
    | nil =>
        cases r with
        | true => exact trivial
        | false => exact ⟨Or.inr ⟨hup, rfl, by simp⟩, trivial⟩
    | cons top rest =>
        by_cases htop : top = ['.', '.']
        · simp only [htop, if_true]
          rcases h.1 with hname | ⟨_, hr, hall⟩
          · exact absurd htop hname.2.2.2
          · exact ⟨Or.inr ⟨hup, hr, by simpa using hall⟩, htop ▸ h⟩
        · simpa only [htop, if_false] using h.2
  · rw [if_neg hup]
    exact ⟨Or.inl ⟨fun h => hskip (Or.inl h), hc, fun h => hskip (Or.inr h), hup⟩, h⟩

theorem normal_foldl : ∀ (cs : List (List Char)) {out : List (List Char)}, Normal r out →
    (∀ c ∈ cs, '/' ∉ c) → Normal r (cs.foldl (push r) out)
  | [], _, h, _ => h
  | c :: cs, _, h, hcs =>
      normal_foldl cs (h.push (hcs c List.mem_cons_self))
        fun d hd => hcs d (List.mem_cons_of_mem c hd)

/-- The elements of a path have no separator in them. -/
theorem not_mem_of_mem_splitOn (path : List Char) : ∀ c ∈ path.splitOn '/', '/' ∉ c := by
  induction path with
  | nil => simp
  | cons x xs ih =>
      intro c hc
      rw [List.splitOn, List.splitOnP_cons_eq_if_modifyHead] at hc
      split_ifs at hc with hx
      · rcases List.mem_cons.mp hc with rfl | hc
        · simp
        · exact ih c hc
      · rw [← List.splitOn] at hc
        cases hs : xs.splitOn '/' with
        | nil => rw [hs] at hc; cases hc
        | cons w ws =>
            rw [hs, List.modifyHead_cons, List.mem_cons] at hc
            rw [hs] at ih
            rcases hc with rfl | hc
            · have hne : '/' ≠ x := by rintro rfl; exact hx (by decide)
              simpa [hne] using ih w List.mem_cons_self
            · exact ih c (List.mem_cons_of_mem w hc)

theorem normal_stack (path : List Char) : Normal (rooted path) (stack path) :=
  normal_foldl _ trivial (not_mem_of_mem_splitOn path)

theorem Normal.not_mem : ∀ {out : List (List Char)}, Normal r out → ∀ c ∈ out, '/' ∉ c
  | _ :: _, h, c, hc => by
      rcases List.mem_cons.mp hc with rfl | hc
      · rcases h.1 with hname | ⟨rfl, _⟩
        · exact hname.2.1
        · decide
      · exact h.2.not_mem c hc

theorem Normal.ne_nil_of_mem : ∀ {out : List (List Char)}, Normal r out → ∀ {c}, c ∈ out → c ≠ []
  | _ :: _, h, c, hc => by
      rcases List.mem_cons.mp hc with rfl | hc
      · rcases h.1 with hname | ⟨rfl, _⟩
        · exact hname.1
        · simp
      · exact h.2.ne_nil_of_mem hc

/-- A normal stack is read back as it is. -/
theorem Normal.foldl_reverse : ∀ {out : List (List Char)}, Normal r out →
    out.reverse.foldl (Paths.push r) [] = out
  | [], _ => rfl
  | c :: out, h => by
      rw [List.reverse_cons, List.foldl_append, h.2.foldl_reverse, List.foldl_cons, List.foldl_nil]
      rcases h.1 with hname | ⟨rfl, rfl, hall⟩
      · exact hname.push_eq
      · cases out with
        | nil => rfl
        | cons top rest => simp [Paths.push, hall top List.mem_cons_self]

/-! ## Joining names -/

theorem splitOn_append (xs ys : List Char) :
    (xs ++ '/' :: ys).splitOn '/' = xs.splitOn '/' ++ ys.splitOn '/' :=
  List.splitOnP_append_cons xs ys rfl

theorem IsName.rooted_eq (h : IsName n) : rooted n = false := by
  cases n with
  | nil => rfl
  | cons x xs =>
      have hx : x ≠ '/' := by rintro rfl; exact h.2.1 List.mem_cons_self
      simp [rooted, hx]

/-- A name joined to a directory is pushed on its stack. -/
theorem join_name (dir : List Char) (h : IsName n) :
    join [dir, n] = render (rooted dir) (n :: stack dir) := by
  by_cases hd : dir = []
  · subst hd
    have hn : join [[], n] = clean n := by
      simp [join, h.1, List.intercalate]
    rw [hn, clean, h.rooted_eq, stack, List.splitOn_eq_singleton h.2.1, List.foldl_cons,
      List.foldl_nil, h.push_eq]
    rfl
  · have hn : join [dir, n] = clean (dir ++ '/' :: n) := by
      simp [join, hd, List.intercalate]
    have hr : rooted (dir ++ '/' :: n) = rooted dir := by
      cases dir with
      | nil => exact absurd rfl hd
      | cons x xs => rfl
    rw [hn, clean, hr, stack, hr, splitOn_append, List.splitOn_eq_singleton h.2.1,
      List.foldl_append, List.foldl_cons, List.foldl_nil, h.push_eq]
    rfl

/-- A path written from a normal stack has the stack. -/
theorem stack_render (h : Normal r out) (hne : out ≠ []) :
    rooted (render r out) = r ∧ stack (render r out) = out := by
  have hrev : out.reverse ≠ [] := by simpa using hne
  have hno : ∀ c ∈ out.reverse, '/' ∉ c := fun c hc => h.not_mem c (List.mem_reverse.mp hc)
  have hsplit := List.splitOn_intercalate '/' hno hrev
  cases r with
  | true =>
      have hroot : rooted (render true out) = true := rfl
      have hcons : (render true out).splitOn '/' = [] :: out.reverse := by
        rw [← hsplit]
        exact splitOn_append [] _
      refine ⟨hroot, ?_⟩
      rw [stack, hroot, hcons, List.foldl_cons]
      exact h.foldl_reverse
  | false =>
      have hren : render false out = ['/'].intercalate out.reverse := by simp [render, hne]
      have hroot : rooted (render false out) = false := by
        rw [hren]
        cases hi : ['/'].intercalate out.reverse with
        | nil => rfl
        | cons x xs =>
            by_cases hx : x = '/'
            · -- A separator in front would make the first element empty.
              rw [hi, hx] at hsplit
              have hmem : [] ∈ out := by
                rw [← List.mem_reverse, ← hsplit]
                exact (splitOn_append [] xs).symm ▸ List.mem_cons_self
              exact absurd rfl (h.ne_nil_of_mem hmem)
            · simp [rooted, hx]
      refine ⟨hroot, ?_⟩
      rw [stack, hroot, hren, hsplit]
      exact h.foldl_reverse

/-- The path is an entry of the directory: one name below it. -/
def IsChild (dir path : List Char) : Prop :=
  ∃ n, IsName n ∧ rooted path = rooted dir ∧ stack path = n :: stack dir

/-- A name joined to a directory is an entry of it. -/
theorem join_isChild (dir : List Char) (h : IsName n) : IsChild dir (join [dir, n]) := by
  have hnormal : Normal (rooted dir) (n :: stack dir) := ⟨Or.inl h, normal_stack dir⟩
  obtain ⟨hr, hs⟩ := stack_render hnormal (List.cons_ne_nil _ _)
  rw [join_name dir h]
  exact ⟨n, h, hr, hs⟩

/-- Two names joined to a directory, one after the other. -/
theorem join_join_name (dir : List Char) (hm : IsName m) (hn : IsName n) :
    join [join [dir, m], n] = render (rooted dir) (n :: m :: stack dir) := by
  have hnormal : Normal (rooted dir) (m :: stack dir) := ⟨Or.inl hm, normal_stack dir⟩
  obtain ⟨hr, hs⟩ := stack_render hnormal (List.cons_ne_nil _ _)
  rw [join_name _ hn, join_name dir hm, hr, hs]

/-- The names are read off the path. -/
theorem render_inj (h : Normal r out) (hm : IsName m) (hn : IsName n) (hm' : IsName m')
    (hn' : IsName n') (he : render r (n :: m :: out) = render r (n' :: m' :: out)) :
    m = m' ∧ n = n' := by
  have hnormal : Normal r (n :: m :: out) := ⟨Or.inl hn, Or.inl hm, h⟩
  have hnormal' : Normal r (n' :: m' :: out) := ⟨Or.inl hn', Or.inl hm', h⟩
  have hs := (stack_render hnormal (List.cons_ne_nil _ _)).2
  have hs' := (stack_render hnormal' (List.cons_ne_nil _ _)).2
  rw [he, hs'] at hs
  injection hs with hnn hrest
  injection hrest with hmm _
  exact ⟨hmm.symm, hnn.symm⟩

/-- Paths of entries two levels below a directory are equal only if the names
are. -/
theorem join_join_inj (dir : List Char) (hm : IsName m) (hn : IsName n) (hm' : IsName m')
    (hn' : IsName n') (he : join [join [dir, m], n] = join [join [dir, m'], n']) :
    m = m' ∧ n = n' := by
  rw [join_join_name dir hm hn, join_join_name dir hm' hn'] at he
  exact render_inj (normal_stack dir) hm hn hm' hn' he

end Paths
