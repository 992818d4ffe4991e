import Signalium.Lib.Trees

/-!
# A sweep over a directory tree

`sweepDir` and `pruneEmptyChildren` of `internal/worker/cleanup.go`, over trees of
any depth.  `filepath.WalkDir` hands each entry to a callback, reads a directory
when it comes to it and goes through what it has read by then; the callback removes
files while the walk is under way.  The pruning reads the root once more and removes
the directories in it that it finds empty.

The walk is bounded by the depth of the tree, which is enough
(`SweepJob.walk_clears`).  A configured path is taken to lead to its directory also
when `filepath.Join` has cleaned it, and not to be a symbolic link.

`SweepFaults` is what goes wrong: an error at any call of the file system and a
context that ends.  Whatever goes wrong, the walk removes files older than the cutoff
and nothing else, and counts them (`SweepJob.walk_shrinks`).  With nothing wrong it
leaves none of them, so the sweep is exact (`sweepDir_exact`).
-/

namespace Signalium

open Trees

/-! ## The code -/

/-- The calls that fail. -/
structure SweepFaults where
  lstatRoot : Bool
  /-- `os.ReadDir` in the walk; it returns the names it has come to. -/
  readDir : Place → Option (List String)
  /-- `d.Info()`. -/
  info : Place → Bool
  remove : Place → Bool
  /-- The context has ended by this call of the callback. -/
  canceled : Nat → Bool
  pruneReadDir : Place → Bool
  pruneRemove : Place → Bool

/-- Nothing goes wrong. -/
def SweepFaults.none : SweepFaults where
  lstatRoot := false
  readDir _ := .none
  info _ := false
  remove _ := false
  canceled _ := false
  pruneReadDir _ := false
  pruneRemove _ := false

/-- One call of `sweepDir`; `mtime` is the modification time of a file. -/
structure SweepJob (φ : Type) where
  dir : String
  cutoff : Int
  mtime : φ → Int
  faults : SweepFaults

/-- The state of a walk. -/
structure Sweeping (φ : Type) where
  tree : DirTree φ
  removed : Nat
  /-- The calls of the callback so far. -/
  visits : Nat

/-- The path `WalkDir` hands to the callback. -/
def walkPath (dir : List Char) : Place → List Char
  | [] => dir
  | n :: p => Paths.join [walkPath dir p, n.toList]

variable {φ : Type}

/-- `d.Info()`. -/
def SweepJob.info (j : SweepJob φ) (p : Place) (t : DirTree φ) : Option (Entry φ) :=
  if j.faults.info p then none else t.find? p

/-- `os.Remove` in the callback. -/
def SweepJob.remove (j : SweepJob φ) (p : Place) (t : DirTree φ) : Option (DirTree φ) :=
  if j.faults.remove p then none else t.remove p

/-- The end of the callback, from `d.Info()` on. -/
def SweepJob.removeStale (j : SweepJob φ) (p : Place) (s : Sweeping φ) : Sweeping φ :=
  match j.info p s.tree with
  | some (.file f) =>
      if j.mtime f < j.cutoff then
        match j.remove p s.tree with
        | some t => { s with tree := t, removed := s.removed + 1 }
        | none => s
      else s
  -- The entry is still what `ReadDir` has said it is.
  | some .dir => s
  | none => s

/-- The callback.  `err` says that `WalkDir` reports an error; the result, that the callback
returns one. -/
def SweepJob.visit (j : SweepJob φ) (p : Place) (isDir err : Bool) (s : Sweeping φ) :
    Sweeping φ × Bool :=
  let s₁ := { s with visits := s.visits + 1 }
  if j.faults.canceled s.visits then (s₁, true)
  else if err then (s₁, false)
  else if isDir ∨ walkPath j.dir.toList p = j.dir.toList then (s₁, false)
  else (j.removeStale p s₁, false)

/-- `os.ReadDir` in the walk. -/
def SweepJob.readDir (j : SweepJob φ) (p : Place) (t : DirTree φ) :
    List (String × Entry φ) × Bool :=
  match j.faults.readDir p with
  | none => (t.children p, false)
  | some names => ((t.children p).filter fun x => x.1 ∈ names, true)

/-- One part of the walk after another, up to the first error. -/
def andThen (r : Sweeping φ × Bool) (go : Sweeping φ → Sweeping φ × Bool) : Sweeping φ × Bool :=
  if r.2 then r else go r.1

/-- The loop over the entries of a directory. -/
def walkEntries (step : String × Entry φ → Sweeping φ → Sweeping φ × Bool) :
    List (String × Entry φ) → Sweeping φ → Sweeping φ × Bool
  | [], s => (s, false)
  | x :: xs, s => andThen (step x s) (walkEntries step xs)

/-- `walkDir` of `path/filepath`, to a depth. -/
def SweepJob.walk (j : SweepJob φ) : Nat → Place → Entry φ → Sweeping φ → Sweeping φ × Bool
  | 0, _, _, s => (s, false)
  | _ + 1, p, .file _, s => j.visit p false false s
  | depth + 1, p, .dir, s =>
      andThen (j.visit p true false s) fun s₁ =>
        let (xs, failed) := j.readDir p s₁.tree
        andThen (if failed then j.visit p true true s₁ else (s₁, false))
          (walkEntries (fun x => j.walk depth (x.1 :: p) x.2) xs)

/-- `filepath.WalkDir`. -/
def SweepJob.walkDir (j : SweepJob φ) (s : Sweeping φ) : Sweeping φ × Bool :=
  match if j.faults.lstatRoot then none else s.tree.find? [] with
  | none => j.visit [] false true s
  | some e => j.walk (s.tree.depth + 1) [] e s

/-- The body of the loop in `pruneEmptyChildren`. -/
def SweepJob.pruneChild (j : SweepJob φ) (t : DirTree φ) : String × Entry φ → DirTree φ
  | (_, .file _) => t
  | (n, .dir) =>
      if j.faults.pruneReadDir [n] ∨ 0 < (t.children [n]).length then t
      else (if j.faults.pruneRemove [n] then none else t.remove [n]).getD t

/-- `pruneEmptyChildren`. -/
def SweepJob.pruneEmptyChildren (j : SweepJob φ) (t : DirTree φ) : DirTree φ :=
  match if j.faults.pruneReadDir [] then none else t.find? [] with
  | some .dir => (t.children []).foldl j.pruneChild t
  | some (.file _) => t
  | none => t

/-- `sweepDir`: the number of files removed, and what is left. -/
def SweepJob.sweepDir (j : SweepJob φ) (t : DirTree φ) : Nat × DirTree φ :=
  let s := (j.walkDir ⟨t, 0, 0⟩).1
  (s.removed, j.pruneEmptyChildren s.tree)

/-! ## What a walk can do -/

/-- A file older than the cutoff. -/
def SweepJob.Stale (j : SweepJob φ) : Place × Entry φ → Prop
  | (_, .file f) => j.mtime f < j.cutoff
  | (_, .dir) => False

instance (j : SweepJob φ) : DecidablePred j.Stale
  | (_, .file f) => inferInstanceAs (Decidable (j.mtime f < j.cutoff))
  | (_, .dir) => isFalse id

/-- Only stale files have gone, and they have been counted. -/
structure SweepJob.Shrinks (j : SweepJob φ) (s s' : Sweeping φ) : Prop where
  removes : Removes j.Stale s.tree s'.tree
  counted : s'.removed + s'.tree.entries.length = s.removed + s.tree.entries.length

variable {j : SweepJob φ} {s s' s'' : Sweeping φ} {t t' : DirTree φ} {p : Place} {e : Entry φ}

theorem SweepJob.Shrinks.refl (j : SweepJob φ) (s : Sweeping φ) : j.Shrinks s s :=
  ⟨.refl _ _, rfl⟩

theorem SweepJob.Shrinks.trans (h : j.Shrinks s s') (h' : j.Shrinks s' s'') : j.Shrinks s s'' :=
  ⟨h.removes.trans h'.removes, h'.counted.trans h.counted⟩

theorem SweepJob.mem_of_info (h : j.info p t = some e) : (p, e) ∈ t.entries := by
  unfold SweepJob.info at h
  split_ifs at h
  exact DirTree.find?_eq_some.mp h

theorem SweepJob.remove_eq_some (h : j.remove p t = some t') : t.remove p = some t' := by
  unfold SweepJob.remove at h
  split_ifs at h
  exact h

theorem SweepJob.removeStale_shrinks (j : SweepJob φ) (p : Place) (s : Sweeping φ) :
    j.Shrinks s (j.removeStale p s) := by
  unfold SweepJob.removeStale
  split
  · next f hinfo =>
      split
      · next hstale =>
          split
          · next t hremove =>
              have hremove := SweepJob.remove_eq_some hremove
              have hlength := DirTree.length_remove hremove
              refine ⟨DirTree.removes_remove hremove (SweepJob.mem_of_info hinfo) hstale, ?_⟩
              simp only
              omega
          · exact .refl _ _
      · exact .refl _ _
  · exact .refl _ _
  · exact .refl _ _

/-- A step of the walk. -/
theorem SweepJob.visit_shrinks (j : SweepJob φ) (p : Place) (isDir err : Bool)
    (s : Sweeping φ) : j.Shrinks s (j.visit p isDir err s).1 := by
  have hsame : j.Shrinks s { s with visits := s.visits + 1 } := ⟨.refl _ _, rfl⟩
  unfold SweepJob.visit
  split_ifs
  · exact hsame
  · exact hsame
  · exact hsame
  · exact hsame.trans (j.removeStale_shrinks p _)

theorem andThen_shrinks {r : Sweeping φ × Bool} {go : Sweeping φ → Sweeping φ × Bool}
    (hr : j.Shrinks s r.1) (hgo : ∀ s, j.Shrinks s (go s).1) : j.Shrinks s (andThen r go).1 := by
  unfold andThen
  split_ifs
  · exact hr
  · exact hr.trans (hgo r.1)

theorem walkEntries_shrinks {step : String × Entry φ → Sweeping φ → Sweeping φ × Bool}
    (hstep : ∀ x s, j.Shrinks s (step x s).1) (xs : List (String × Entry φ)) (s : Sweeping φ) :
    j.Shrinks s (walkEntries step xs s).1 := by
  induction xs generalizing s with
  | nil => exact .refl _ _
  | cons x xs ih => exact andThen_shrinks (hstep x s) ih

/-- The walk, whatever goes wrong. -/
theorem SweepJob.walk_shrinks (j : SweepJob φ) (depth : Nat) (p : Place) (e : Entry φ)
    (s : Sweeping φ) : j.Shrinks s (j.walk depth p e s).1 := by
  induction depth generalizing p e s with
  | zero => exact .refl _ _
  | succ depth ih =>
      cases e with
      | file f => exact j.visit_shrinks p false false s
      | dir =>
          refine andThen_shrinks (j.visit_shrinks p true false s) fun s₁ => ?_
          refine andThen_shrinks ?_ (walkEntries_shrinks (fun x => ih (x.1 :: p) x.2) _)
          split_ifs
          · exact j.visit_shrinks p true true s₁
          · exact .refl _ _

theorem SweepJob.walkDir_shrinks (j : SweepJob φ) (s : Sweeping φ) :
    j.Shrinks s (j.walkDir s).1 := by
  unfold SweepJob.walkDir
  split
  · exact j.visit_shrinks [] false true s
  · exact j.walk_shrinks _ _ _ s

/-! ## The walk with nothing wrong -/

/-- The path of an entry below the root is not the root's. -/
theorem length_stack_walkPath (dir : List Char) (hp : ∀ n ∈ p, Paths.IsName n.toList) :
    (Paths.stack (walkPath dir p)).length = p.length + (Paths.stack dir).length := by
  induction p with
  | nil => simp [walkPath]
  | cons n p ih =>
      obtain ⟨hn, hp⟩ := List.forall_mem_cons.mp hp
      obtain ⟨m, _, _, hstack⟩ := Paths.join_isChild (walkPath dir p) hn
      rw [walkPath, hstack, List.length_cons, ih hp, List.length_cons]
      omega

theorem walkPath_ne (dir : List Char) (hne : p ≠ []) (hp : ∀ n ∈ p, Paths.IsName n.toList) :
    walkPath dir p ≠ dir := by
  intro h
  have hlength := length_stack_walkPath dir hp
  rw [h] at hlength
  have hpos := List.length_pos_iff.mpr hne
  omega

/-- No stale file is left at a place or below it. -/
def SweepJob.Clear (j : SweepJob φ) (p : Place) (t : DirTree φ) : Prop :=
  ∀ x ∈ t.entries, p <:+ x.1 → ¬ j.Stale x

theorem SweepJob.Clear.mono (h : j.Clear p t) (hr : Removes j.Stale t t') : j.Clear p t' :=
  fun x hx => h x (hr.mem hx)

section Faultless

variable (hj : j.faults = .none)
include hj

theorem SweepJob.visit_eq (isDir : Bool) : j.visit p isDir false s =
    if isDir ∨ walkPath j.dir.toList p = j.dir.toList then
      ({ s with visits := s.visits + 1 }, false)
    else (j.removeStale p { s with visits := s.visits + 1 }, false) := by
  rw [SweepJob.visit, hj]
  simp [SweepFaults.none]

/-- A stale file is removed when the walk comes to it. -/
theorem SweepJob.removeStale_clears {f : φ} (h : (p, .file f) ∈ s.tree.entries)
    (hstale : j.mtime f < j.cutoff) : ∀ x ∈ (j.removeStale p s).tree.entries, x.1 ≠ p := by
  have hinfo : j.info p s.tree = some (.file f) := by
    rw [SweepJob.info, hj]
    exact DirTree.find?_eq_some.mpr h
  obtain ⟨t, ht⟩ := DirTree.exists_remove h (DirTree.empty_of_file h)
  have hremove : j.remove p s.tree = some t := by
    rw [SweepJob.remove, hj]
    exact ht
  intro x hx
  simp only [SweepJob.removeStale, hinfo, hstale, hremove, if_true] at hx
  rw [(DirTree.remove_eq_some ht).2.2] at hx
  exact of_decide_eq_true (List.mem_filter.mp hx).2

theorem SweepJob.visit_clears {f : φ} (hp : p ≠ [])
    (hsame : ∀ e, (p, e) ∈ s.tree.entries → e = .file f) :
    (j.visit p false false s).2 = false ∧ j.Clear p (j.visit p false false s).1.tree := by
  have hshrinks := j.visit_shrinks p false false s
  refine ⟨by rw [j.visit_eq hj]; split_ifs <;> rfl, fun x hx hpx hstale => ?_⟩
  have hxs : x ∈ s.tree.entries := hshrinks.removes.mem hx
  obtain ⟨q, e⟩ := x
  -- Nothing is below a file.
  have hq : q = p := by
    by_contra hne
    cases hsame _ (DirTree.above hxs hpx hne).1
  subst hq
  cases hsame e hxs
  have hne := walkPath_ne j.dir.toList hp (DirTree.names_of_mem hxs)
  rw [j.visit_eq hj, if_neg (by simpa using hne)] at hx
  have hgone := j.removeStale_clears (s := { s with visits := s.visits + 1 }) hj hxs hstale
  exact hgone _ hx rfl

omit hj in
/-- The loop over the entries of a directory clears what is below each of them, if a step
does. -/
theorem walkEntries_clears {step : String × Entry φ → Sweeping φ → Sweeping φ × Bool}
    {xs : List (String × Entry φ)} (hshrinks : ∀ x s, j.Shrinks s (step x s).1)
    (hstep : ∀ x ∈ xs, ∀ s, Removes j.Stale t s.tree →
      (step x s).2 = false ∧ j.Clear (x.1 :: p) (step x s).1.tree)
    (hs : Removes j.Stale t s.tree) :
    (walkEntries step xs s).2 = false ∧
      ∀ x ∈ xs, j.Clear (x.1 :: p) (walkEntries step xs s).1.tree := by
  induction xs generalizing s with
  | nil => exact ⟨rfl, by simp⟩
  | cons x xs ih =>
      obtain ⟨hx, hxs⟩ := List.forall_mem_cons.mp hstep
      obtain ⟨hok, hclear⟩ := hx s hs
      have heq : walkEntries step (x :: xs) s = walkEntries step xs (step x s).1 := by
        simp [walkEntries, andThen, hok]
      obtain ⟨hok', hclear'⟩ := ih hxs (hs.trans (hshrinks x s).removes)
      rw [heq]
      refine ⟨hok', List.forall_mem_cons.mpr ⟨?_, hclear'⟩⟩
      -- What comes later only removes more.
      exact hclear.mono (walkEntries_shrinks hshrinks xs _).removes

/-- The depth of the tree is enough for the walk to leave no stale file. -/
theorem SweepJob.walk_clears (depth : Nat) (hp : p = [] → e = .dir)
    (hsame : ∀ e', (p, e') ∈ s.tree.entries → e' = e)
    (hdepth : ∀ x ∈ s.tree.entries, x.1.length < depth + p.length) :
    (j.walk depth p e s).2 = false ∧ j.Clear p (j.walk depth p e s).1.tree := by
  induction depth generalizing p e s with
  | zero =>
      refine ⟨rfl, fun x hx hpx => ?_⟩
      have hlt := hdepth x hx
      have hle := hpx.length_le
      omega
  | succ depth ih =>
      cases e with
      | file f =>
          refine j.visit_clears hj (fun hnil => ?_) hsame
          cases hp hnil
      | dir =>
          have hwalk : j.walk (depth + 1) p .dir s =
              walkEntries (fun x => j.walk depth (x.1 :: p) x.2) (s.tree.children p)
                { s with visits := s.visits + 1 } := by
            simp [SweepJob.walk, andThen, j.visit_eq hj, SweepJob.readDir, hj, SweepFaults.none]
          have hshrinks := j.walk_shrinks (depth + 1) p .dir s
          have hloop : (j.walk (depth + 1) p .dir s).2 = false ∧ ∀ x ∈ s.tree.children p,
              j.Clear (x.1 :: p) (j.walk (depth + 1) p .dir s).1.tree := by
            rw [hwalk]
            refine walkEntries_clears (fun x => j.walk_shrinks depth (x.1 :: p) x.2)
              (fun x hx s' hs' => ih ?_ ?_ ?_) (.refl _ s.tree)
            · intro hnil
              cases hnil
            · -- The entry is what it was when the directory was read.
              intro e' he'
              exact DirTree.entry_unique (hs'.mem he') (DirTree.mem_children.mp hx)
            · intro y hy
              have hlt := hdepth y (hs'.mem hy)
              rw [List.length_cons]
              omega
          refine ⟨hloop.1, fun x hx hpx hstale => ?_⟩
          have hxs : x ∈ s.tree.entries := hshrinks.removes.mem hx
          obtain ⟨q, e⟩ := x
          by_cases hq : q = p
          · subst hq
            cases hsame e hxs
            exact hstale
          · obtain ⟨_, n, e', hchild, hn⟩ := DirTree.above hxs hpx hq
            exact hloop.2 (n, e') (DirTree.mem_children.mpr hchild) _ hx hn hstale

theorem SweepJob.walkDir_clears (hroot : ([], .dir) ∈ s.tree.entries) :
    ∀ x ∈ (j.walkDir s).1.tree.entries, ¬ j.Stale x := by
  have hwalk : j.walkDir s = j.walk (s.tree.depth + 1) [] .dir s := by
    rw [SweepJob.walkDir, hj, DirTree.find?_eq_some.mpr hroot]
    rfl
  have hdepth : ∀ x ∈ s.tree.entries, x.1.length < s.tree.depth + 1 + ([] : Place).length :=
    fun x hx => Nat.lt_succ_of_le (DirTree.length_le_depth hx)
  rw [hwalk]
  intro x hx
  exact (j.walk_clears hj _ (fun _ => rfl) (fun e' he' => DirTree.entry_unique he' hroot)
    hdepth).2 x hx (List.nil_suffix)

end Faultless

/-! ## Pruning -/

/-- A directory right below the root that holds nothing. -/
def EmptyChild (t : DirTree φ) : Place × Entry φ → Prop
  | ([n], .dir) => t.Empty [n]
  | _ => False

instance (t : DirTree φ) : DecidablePred (EmptyChild t)
  | ([n], .dir) => inferInstanceAs (Decidable (t.Empty [n]))
  | ([], _) => isFalse id
  | ([_], .file _) => isFalse id
  | (_ :: _ :: _, _) => isFalse id

/-- Pruning takes no entry out that lies deeper. -/
theorem empty_iff_of_pruned {n : String} (h : Removes (EmptyChild t) t t') :
    t'.Empty [n] ↔ t.Empty [n] := by
  rw [DirTree.empty_iff, DirTree.empty_iff]
  constructor
  · intro hempty m e hmem
    exact h.gone _ hmem (hempty m e)
  · intro hempty m e hmem
    exact hempty m e (h.mem hmem)

/-- One directory, whatever goes wrong. -/
theorem SweepJob.pruneChild_removes {t₀ : DirTree φ} {x : String × Entry φ}
    (h : Removes (EmptyChild t₀) t₀ t) (hx : ([x.1], x.2) ∈ t₀.entries) :
    Removes (EmptyChild t₀) t (j.pruneChild t x) := by
  obtain ⟨n, e⟩ := x
  cases e with
  | file f => exact .refl _ _
  | dir =>
      rw [SweepJob.pruneChild]
      split_ifs with hskip hfault
      · exact .refl _ _
      · exact .refl _ _
      · cases hremove : t.remove [n] with
        | none => exact .refl _ _
        | some t' =>
            obtain ⟨⟨e, he⟩, hempty, _⟩ := DirTree.remove_eq_some hremove
            cases DirTree.entry_unique (h.mem he) hx
            exact DirTree.removes_remove hremove he ((empty_iff_of_pruned h).mp hempty)

theorem SweepJob.prune_removes {t₀ : DirTree φ} {xs : List (String × Entry φ)}
    (hxs : ∀ x ∈ xs, ([x.1], x.2) ∈ t₀.entries) (h : Removes (EmptyChild t₀) t₀ t) :
    Removes (EmptyChild t₀) t (xs.foldl j.pruneChild t) := by
  induction xs generalizing t with
  | nil => exact .refl _ _
  | cons x xs ih =>
      obtain ⟨hx, hxs⟩ := List.forall_mem_cons.mp hxs
      have hone := j.pruneChild_removes h hx
      exact hone.trans (ih hxs (h.trans hone))

theorem SweepJob.pruneEmptyChildren_removes (j : SweepJob φ) (t : DirTree φ) :
    Removes (EmptyChild t) t (j.pruneEmptyChildren t) := by
  unfold SweepJob.pruneEmptyChildren
  split
  · exact j.prune_removes (fun x hx => DirTree.mem_children.mp hx) (.refl _ t)
  · exact .refl _ t
  · exact .refl _ t

section Faultless

variable (hj : j.faults = .none)
include hj

theorem SweepJob.pruneChild_prunes {t₀ : DirTree φ} {n : String}
    (h : Removes (EmptyChild t₀) t₀ t) (hempty : t₀.Empty [n]) :
    ([n], .dir) ∉ (j.pruneChild t (n, .dir)).entries := by
  have hnil : t.children [n] = [] :=
    DirTree.children_eq_nil_iff.mpr ((empty_iff_of_pruned h).mpr hempty)
  have heq : j.pruneChild t (n, .dir) = (t.remove [n]).getD t := by
    simp [SweepJob.pruneChild, hj, SweepFaults.none, hnil]
  rw [heq]
  intro hmem
  cases hremove : t.remove [n] with
  | none =>
      rw [hremove] at hmem
      obtain ⟨t', ht'⟩ := DirTree.exists_remove hmem (DirTree.children_eq_nil_iff.mp hnil)
      cases hremove.symm.trans ht'
  | some t' =>
      rw [hremove, Option.getD_some, (DirTree.remove_eq_some hremove).2.2] at hmem
      exact of_decide_eq_true (List.mem_filter.mp hmem).2 rfl

theorem SweepJob.prune_prunes {t₀ : DirTree φ} {xs : List (String × Entry φ)} {n : String}
    (hxs : ∀ x ∈ xs, ([x.1], x.2) ∈ t₀.entries) (h : Removes (EmptyChild t₀) t₀ t)
    (hempty : t₀.Empty [n]) (hn : (n, .dir) ∈ xs) :
    ([n], .dir) ∉ (xs.foldl j.pruneChild t).entries := by
  induction xs generalizing t with
  | nil => cases hn
  | cons x xs ih =>
      obtain ⟨hx, hrest⟩ := List.forall_mem_cons.mp hxs
      have hone := h.trans (j.pruneChild_removes h hx)
      rw [List.foldl_cons]
      rcases List.mem_cons.mp hn with rfl | hn
      · intro hmem
        exact j.pruneChild_prunes hj h hempty ((j.prune_removes hrest hone).mem hmem)
      · exact ih hrest hone hn

theorem SweepJob.pruneEmptyChildren_prunes (hroot : ([], .dir) ∈ t.entries) :
    ∀ x ∈ (j.pruneEmptyChildren t).entries, ¬ EmptyChild t x := by
  have hprune : j.pruneEmptyChildren t = (t.children []).foldl j.pruneChild t := by
    rw [SweepJob.pruneEmptyChildren, hj, DirTree.find?_eq_some.mpr hroot]
    rfl
  rintro ⟨q, e⟩ hx hempty
  have hxt := (j.pruneEmptyChildren_removes t).mem hx
  match q, e, hempty with
  | [n], .dir, hempty =>
      rw [hprune] at hx
      exact j.prune_prunes hj (fun x hx => DirTree.mem_children.mp hx) (.refl _ t) hempty
        (DirTree.mem_children.mpr hxt) hx

end Faultless

/-! ## The sweep -/

/-- What a sweep of a tree comes to. -/
structure SweptExactly (j : SweepJob φ) (t walked : DirTree φ) (removed : Nat)
    (left : DirTree φ) : Prop where
  /-- The walk takes the stale files out, at any depth. -/
  swept : walked.entries = t.entries.filter fun x => ¬ j.Stale x
  /-- The pruning takes the directories right below the root out that are empty by then. -/
  pruned : left.entries = walked.entries.filter fun x => ¬ EmptyChild walked x
  counted : removed = t.entries.countP fun x => j.Stale x
  /-- A second sweep finds nothing to do. -/
  again : j.sweepDir left = (0, left)

section Faultless

variable (hj : j.faults = .none)
include hj

theorem SweepJob.sweepDir_eq (hroot : ([], .dir) ∈ t.entries) : ∃ walked : DirTree φ,
    walked.entries = (t.entries.filter fun x => ¬ j.Stale x) ∧
    (j.sweepDir t).2.entries = (walked.entries.filter fun x => ¬ EmptyChild walked x) ∧
    (j.sweepDir t).1 = t.entries.countP fun x => j.Stale x := by
  have hshrinks := j.walkDir_shrinks ⟨t, 0, 0⟩
  have hwalked := hshrinks.removes.eq_filter (j.walkDir_clears hj hroot)
  have hroot' : ([], .dir) ∈ (j.walkDir ⟨t, 0, 0⟩).1.tree.entries := by
    rw [hwalked]
    exact List.mem_filter.mpr ⟨hroot, decide_eq_true id⟩
  refine ⟨_, hwalked, ?_, ?_⟩
  · exact (j.pruneEmptyChildren_removes _).eq_filter (j.pruneEmptyChildren_prunes hj hroot')
  · have hcounted := hshrinks.counted
    have hsplit := List.length_eq_countP_add_countP (fun x => decide (j.Stale x)) (l := t.entries)
    simp only [decide_eq_true_eq] at hsplit
    rw [hwalked, ← List.countP_eq_length_filter] at hcounted
    show (j.walkDir ⟨t, 0, 0⟩).1.removed = _
    simp only at hcounted
    omega

/-- What a sweep has left it leaves again. -/
theorem SweepJob.sweepDir_again {walked left : DirTree φ} (hroot : ([], .dir) ∈ t.entries)
    (hwalked : walked.entries = t.entries.filter fun x => ¬ j.Stale x)
    (hleft : left.entries = walked.entries.filter fun x => ¬ EmptyChild walked x) :
    j.sweepDir left = (0, left) := by
  have hmem : ∀ {x}, x ∈ left.entries ↔ x ∈ t.entries ∧ ¬ j.Stale x ∧ ¬ EmptyChild walked x := by
    intro x
    rw [hleft, List.mem_filter, hwalked, List.mem_filter, decide_eq_true_eq, decide_eq_true_eq,
      and_assoc]
  have hfresh : ∀ x ∈ left.entries, ¬ j.Stale x := fun x hx => (hmem.mp hx).2.1
  obtain ⟨walked', hwalked', hleft', hcount⟩ :=
    j.sweepDir_eq hj (hmem.mpr ⟨hroot, id, id⟩)
  have heq : walked' = left := by
    refine DirTree.ext (hwalked'.trans ?_)
    exact List.filter_eq_self.mpr fun x hx => decide_eq_true (hfresh x hx)
  subst heq
  -- A directory that is empty now was empty before the pruning.
  have hfull : ∀ x ∈ walked'.entries, ¬ EmptyChild walked' x := by
    rintro ⟨q, e⟩ hx hempty
    match q, e, hempty with
    | [n], .dir, hempty =>
        exact (hmem.mp hx).2.2 ((empty_iff_of_pruned (removes_of_filter hleft)).mp hempty)
  refine Prod.ext (hcount.trans ?_) (DirTree.ext (hleft'.trans ?_))
  · exact List.countP_eq_zero.mpr fun x hx => by simpa using hfresh x hx
  · exact List.filter_eq_self.mpr fun x hx => decide_eq_true (hfull x hx)

end Faultless

/-- **The sweep is exact.**  With no error, no end of the context and no other writer, over
every tree below a directory. -/
theorem sweepDir_exact (j : SweepJob φ) (hj : j.faults = .none) (t : DirTree φ)
    (hroot : ([], .dir) ∈ t.entries) :
    ∃ walked, SweptExactly j t walked (j.sweepDir t).1 (j.sweepDir t).2 := by
  obtain ⟨walked, hwalked, hleft, hcount⟩ := j.sweepDir_eq hj hroot
  exact ⟨walked, hwalked, hleft, hcount, j.sweepDir_again hj hroot hwalked hleft⟩

/-- Two messages with files, one of them in a directory below. -/
def demoTree : DirTree Int where
  entries :=
    [([], .dir), (["m-1"], .dir), (["a", "m-1"], .file 3), (["m-2"], .dir),
      (["b", "m-2"], .file 12), (["sub", "m-2"], .dir), (["c", "sub", "m-2"], .file 4),
      (["old"], .file 1)]
  unique := by decide
  placed := by decide

/-- A sweep of what is older than ten. -/
def demoJob : SweepJob Int := ⟨"/var/tmp", 10, id, .none⟩

/-- The three old files go, and the directory of the first message; the directory two
levels down stays, though it is empty. -/
theorem demoTree_swept :
    (demoJob.sweepDir demoTree).1 = 3 ∧
      (demoJob.sweepDir demoTree).2.entries =
        [([], .dir), (["m-2"], .dir), (["b", "m-2"], .file 12), (["sub", "m-2"], .dir)] ∧
      ∃ walked, SweptExactly demoJob demoTree walked (demoJob.sweepDir demoTree).1
        (demoJob.sweepDir demoTree).2 := by
  have hroot : ([], .dir) ∈ demoTree.entries := List.mem_cons_self
  exact ⟨by decide, by decide, sweepDir_exact demoJob rfl demoTree hroot⟩

end Signalium
