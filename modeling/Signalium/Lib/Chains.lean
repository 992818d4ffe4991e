import Mathlib.Tactic

/-!
# Named parts under one running checksum

A directory is a list of parts, each with a name and a body, in the order of the
names.  One hasher reads name and body of each part, without a separator, and a
snapshot of it is recorded under the name of the part (`snapshots`).  A checker
reads parts in the same way and compares each snapshot with the one recorded
under the name (`Accepts`).

With an injective checksum, a list of parts is accepted exactly when each part,
name and body, has the bytes of the recorded parts from the last accepted name
up to its own (`Absorbs`, `accepts_iff_absorbs`).  Recorded parts at the end may
be left out, since nothing asks for them.  A part in the middle can be left out
only if a later one begins with its bytes, so where no name begins another one,
the accepted lists are the initial parts of the recorded one
(`absorbs_iff_initial`).
-/

namespace Chains

universe u v w

variable {ν : Type u} {β : Type v} {δ : Type w}

section Streams

variable (bytes : ν → List β)

/-- What the hasher reads. -/
def stream (parts : List (ν × List β)) : List β := parts.flatMap fun p => bytes p.1 ++ p.2

/-- The checksums recorded for the parts, after `running` has been read. -/
def snapshots (digest : List β → δ) : List β → List (ν × List β) → List (ν × δ)
  | _, [] => []
  | running, p :: parts =>
      (p.1, digest (running ++ bytes p.1 ++ p.2)) ::
        snapshots digest (running ++ bytes p.1 ++ p.2) parts

/-- Every part has the checksum that `find` has under its name. -/
def Accepts (digest : List β → δ) (find : ν → Option δ) : List β → List (ν × List β) → Prop
  | _, [] => True
  | running, p :: parts =>
      find p.1 = some (digest (running ++ bytes p.1 ++ p.2)) ∧
        Accepts digest find (running ++ bytes p.1 ++ p.2) parts

/-- Each part of the second list has the bytes of the parts of the first list from
where the one before it ended up to the part of the same name. -/
def Absorbs : List (ν × List β) → List (ν × List β) → Prop
  | _, [] => True
  | recorded, p :: parts =>
      ∃ skipped body rest, recorded = skipped ++ (p.1, body) :: rest ∧
        bytes p.1 ++ p.2 = stream bytes (skipped ++ [(p.1, body)]) ∧ Absorbs rest parts

end Streams

variable {bytes : ν → List β} {digest : List β → δ} {find : ν → Option δ}
  {recorded parts : List (ν × List β)}

theorem stream_append (xs ys : List (ν × List β)) :
    stream bytes (xs ++ ys) = stream bytes xs ++ stream bytes ys := List.flatMap_append

theorem stream_cons (p : ν × List β) (parts : List (ν × List β)) :
    stream bytes (p :: parts) = bytes p.1 ++ p.2 ++ stream bytes parts := List.flatMap_cons

theorem stream_singleton (p : ν × List β) : stream bytes [p] = bytes p.1 ++ p.2 := by
  rw [stream_cons, stream, List.flatMap_nil, List.append_nil]

/-! ## What is recorded -/

theorem map_fst_snapshots (running : List β) (parts : List (ν × List β)) :
    (snapshots bytes digest running parts).map Prod.fst = parts.map Prod.fst := by
  induction parts generalizing running with
  | nil => rfl
  | cons p parts ih => rw [snapshots, List.map_cons, List.map_cons, ih]

/-- What is recorded under a name: the checksum of everything up to the part. -/
theorem mem_snapshots {name : ν} {sum : δ} (running : List β) :
    (name, sum) ∈ snapshots bytes digest running recorded ↔
      ∃ before body after, recorded = before ++ (name, body) :: after ∧
        sum = digest (running ++ stream bytes (before ++ [(name, body)])) := by
  induction recorded generalizing running with
  | nil => simp [snapshots]
  | cons p recorded ih =>
      rw [snapshots, List.mem_cons, ih]
      constructor
      · rintro (heq | ⟨before, body, after, rfl, rfl⟩)
        · cases heq
          refine ⟨[], p.2, recorded, rfl, ?_⟩
          rw [List.nil_append, stream_singleton, List.append_assoc]
        · refine ⟨p :: before, body, after, rfl, ?_⟩
          rw [List.cons_append, stream_cons]
          simp only [List.append_assoc]
      · rintro ⟨before, body, after, heq, rfl⟩
        cases before with
        | nil =>
            cases heq
            left
            rw [List.nil_append, stream_singleton, List.append_assoc]
        | cons q before =>
            cases heq
            refine Or.inr ⟨before, body, after, rfl, ?_⟩
            rw [List.cons_append, stream_cons]
            simp only [List.append_assoc]

/-- A list of pairs with distinct keys finds what it holds. -/
theorem lookup_eq_some_iff_mem [DecidableEq ν] {l : List (ν × δ)} (h : (l.map Prod.fst).Nodup)
    {name : ν} {sum : δ} : l.lookup name = some sum ↔ (name, sum) ∈ l := by
  induction l with
  | nil => simp
  | cons p l ih =>
      obtain ⟨key, value⟩ := p
      obtain ⟨hp, hl⟩ := List.nodup_cons.mp h
      by_cases hname : name = key
      · subst hname
        have hno : (name, sum) ∉ l := fun hmem => hp (List.mem_map.mpr ⟨_, hmem, rfl⟩)
        simp [hno, eq_comm]
      · have hne : (name == key) = false := beq_false_of_ne hname
        simp [List.lookup_cons, hne, hname, ih hl]

/-! ## What is accepted -/

/-- A part of a list that is not among the first ones comes after them. -/
theorem split_after {first rest before after : List (ν × List β)} {p : ν × List β}
    (h : first ++ rest = before ++ p :: after) (hp : p ∉ first) :
    ∃ skipped, before = first ++ skipped ∧ rest = skipped ++ p :: after := by
  rcases List.append_eq_append_iff.mp h with ⟨skipped, hb, hr⟩ | ⟨extra, hf, hr⟩
  · exact ⟨skipped, hb, hr⟩
  · cases extra with
    | nil => exact ⟨[], by simpa using hf.symm, by simpa using hr.symm⟩
    | cons q extra =>
        cases hr
        exact absurd (by rw [hf]; simp) hp

/-- What is absorbed has names of the recorded parts. -/
theorem Absorbs.name_mem (h : Absorbs bytes recorded parts) {p : ν × List β} (hp : p ∈ parts) :
    ∃ body, (p.1, body) ∈ recorded := by
  induction parts generalizing recorded with
  | nil => cases hp
  | cons q parts ih =>
      obtain ⟨skipped, body, rest, rfl, _, habs⟩ := h
      rcases List.mem_cons.mp hp with rfl | hp
      · exact ⟨body, by simp⟩
      · obtain ⟨body', hmem⟩ := ih habs hp
        exact ⟨body', by simp [hmem]⟩

/-- Every part that is accepted has a checksum recorded under its name. -/
theorem Accepts.find_isSome {running : List β} (h : Accepts bytes digest find running parts)
    {p : ν × List β} (hp : p ∈ parts) : (find p.1).isSome = true := by
  induction parts generalizing running with
  | nil => cases hp
  | cons q parts ih =>
      obtain ⟨hfind, hrest⟩ := h
      rcases List.mem_cons.mp hp with rfl | hp
      · rw [hfind]
        rfl
      · exact ih hrest hp

/-- A list absorbs itself. -/
theorem absorbs_self (parts : List (ν × List β)) : Absorbs bytes parts parts := by
  induction parts with
  | nil => trivial
  | cons p parts ih => exact ⟨[], p.2, parts, rfl, by rw [List.nil_append, stream_singleton], ih⟩

section Ordered

variable [LinearOrder ν]

/-- The names of the parts are in their order, each of them once. -/
def Ordered (parts : List (ν × List β)) : Prop := (parts.map Prod.fst).Pairwise (· < ·)

instance (parts : List (ν × List β)) : Decidable (Ordered parts) :=
  inferInstanceAs (Decidable (List.Pairwise _ _))

theorem Ordered.lt_of_before {before after : List (ν × List β)} {p q : ν × List β}
    (h : Ordered (before ++ p :: after)) (hq : q ∈ before) : q.1 < p.1 := by
  rw [Ordered, List.map_append, List.pairwise_append] at h
  exact h.2.2 _ (List.mem_map.mpr ⟨q, hq, rfl⟩) _ List.mem_cons_self

theorem Ordered.after {before after : List (ν × List β)} {p : ν × List β}
    (h : Ordered (before ++ p :: after)) : Ordered after := by
  rw [Ordered, List.map_append, List.pairwise_append] at h
  exact (List.pairwise_cons.mp h.2.1).2

/-- With an injective checksum, what is accepted is what the recorded parts absorb.
The parts of `first` are those behind the running checksum. -/
theorem accepts_iff_absorbs (hinj : Function.Injective digest) (hrec : Ordered recorded)
    (hfind : ∀ name sum, find name = some sum ↔
      ∃ before body after, recorded = before ++ (name, body) :: after ∧
        sum = digest (stream bytes (before ++ [(name, body)]))) :
    ∀ {parts first rest : List (ν × List β)}, recorded = first ++ rest → Ordered parts →
      (∀ p ∈ parts, ∀ q ∈ first, q.1 < p.1) →
      (Accepts bytes digest find (stream bytes first) parts ↔ Absorbs bytes rest parts) := by
  intro parts
  induction parts with
  | nil => intros; exact Iff.rfl
  | cons p parts ih =>
      intro first rest hsplit hparts hfirst
      obtain ⟨hp, hrest⟩ := List.pairwise_cons.mp hparts
      -- what is left to check, once the part of this name has been found in `rest`
      have hnext : ∀ {skipped after : List (ν × List β)} {body : List β},
          rest = skipped ++ (p.1, body) :: after →
          bytes p.1 ++ p.2 = stream bytes (skipped ++ [(p.1, body)]) →
          (Accepts bytes digest find (stream bytes first ++ bytes p.1 ++ p.2) parts ↔
            Absorbs bytes after parts) := by
        intro skipped after body hr hbytes
        have hstream : stream bytes first ++ bytes p.1 ++ p.2 =
            stream bytes (first ++ (skipped ++ [(p.1, body)])) := by
          rw [stream_append, ← hbytes, List.append_assoc]
        rw [hstream]
        refine ih (by rw [hsplit, hr]; simp) hrest fun p' hp' q hq => ?_
        have hlt : p.1 < p'.1 := hp p'.1 (List.mem_map.mpr ⟨p', hp', rfl⟩)
        rcases List.mem_append.mp hq with hq | hq
        · exact (hfirst p List.mem_cons_self q hq).trans hlt
        · rcases List.mem_append.mp hq with hq | hq
          · have hord : Ordered ((first ++ skipped) ++ (p.1, body) :: after) := by
              rw [List.append_assoc, ← hr, ← hsplit]
              exact hrec
            exact (hord.lt_of_before (List.mem_append_right first hq)).trans hlt
          · rw [List.mem_singleton.mp hq]
            exact hlt
      constructor
      · rintro ⟨hlook, hacc⟩
        obtain ⟨before, body, after, hsplit', hsum⟩ := (hfind _ _).mp hlook
        have hnot : (p.1, body) ∉ first := fun hmem =>
          lt_irrefl p.1 (hfirst p List.mem_cons_self (p.1, body) hmem)
        obtain ⟨skipped, rfl, hr⟩ := split_after (hsplit.symm.trans hsplit') hnot
        have hbytes : bytes p.1 ++ p.2 = stream bytes (skipped ++ [(p.1, body)]) := by
          have heq := hinj hsum
          rw [List.append_assoc first, stream_append, List.append_assoc] at heq
          exact List.append_cancel_left heq
        exact ⟨skipped, body, after, hr, hbytes, (hnext hr hbytes).mp hacc⟩
      · rintro ⟨skipped, body, after, hr, hbytes, habs⟩
        refine ⟨(hfind _ _).mpr ⟨first ++ skipped, body, after, by rw [hsplit, hr]; simp, ?_⟩,
          (hnext hr hbytes).mpr habs⟩
        rw [List.append_assoc first, stream_append, ← hbytes, List.append_assoc]

/-- No name of a part begins the name of another one. -/
def PrefixFree (bytes : ν → List β) (parts : List (ν × List β)) : Prop :=
  ∀ p ∈ parts, ∀ q ∈ parts, bytes p.1 <+: bytes q.1 → p.1 = q.1

/-- Where no name begins another one, a list is absorbed by those it is an initial
part of. -/
theorem absorbs_iff_initial (hrec : Ordered recorded) (hfree : PrefixFree bytes recorded) :
    Absorbs bytes recorded parts ↔ parts <+: recorded := by
  induction parts generalizing recorded with
  | nil => simp [Absorbs]
  | cons p parts ih =>
      constructor
      · rintro ⟨skipped, body, rest, rfl, hbytes, habs⟩
        have hp : (p.1, body) ∈ skipped ++ (p.1, body) :: rest := by simp
        cases skipped with
        | nil =>
            rw [List.nil_append, stream_singleton] at hbytes
            have hbody : p = (p.1, body) := Prod.ext rfl (List.append_cancel_left hbytes)
            have hfree' : PrefixFree bytes rest := fun q hq q' hq' =>
              hfree q (by simp [hq]) q' (by simp [hq'])
            rw [List.nil_append, ← hbody]
            exact List.cons_prefix_cons.mpr ⟨rfl, (ih hrec.after hfree').mp habs⟩
        | cons q skipped =>
            -- both names begin the same bytes, so one begins the other
            have hq : q ∈ q :: skipped ++ (p.1, body) :: rest := by simp
            have hlt := hrec.lt_of_before (List.mem_cons_self (a := q) (l := skipped))
            have hpre : bytes q.1 <+: bytes p.1 ++ p.2 := by
              rw [hbytes, List.cons_append, stream_cons, List.append_assoc]
              exact List.prefix_append _ _
            rcases List.prefix_or_prefix_of_prefix hpre (List.prefix_append _ _) with h | h
            · exact absurd (hfree q hq _ hp h) hlt.ne
            · exact absurd (hfree _ hp q hq h) hlt.ne'
      · rintro ⟨rest, rfl⟩
        have hfree' : PrefixFree bytes (parts ++ rest) := fun q hq q' hq' =>
          hfree q (List.mem_cons_of_mem p hq) q' (List.mem_cons_of_mem p hq')
        have hord : Ordered ([] ++ p :: (parts ++ rest)) := hrec
        exact ⟨[], p.2, parts ++ rest, rfl, by rw [List.nil_append, stream_singleton],
          (ih hord.after hfree').mpr (List.prefix_append _ _)⟩

end Ordered

end Chains
