import Signalium.Lib.Places

/-!
# Routing replies to their callers

Callers register a fresh key and wait on a channel that holds one value.  A
reader takes keyed replies off a connection, removes the entry of the key and
puts the value into the caller's channel in a second step, outside the lock.
Callers withdraw their entry when they stop waiting, and all entries are flushed
with a value of their own when the connection dies.

`Router` is the state the parties share, over any type of keys `κ` and of values
`ν`, and `Step` is one critical section or one channel operation of one of them.
Removing an entry hands over the right to put a value: at any time it lies with
the entry, or in the reader's hand, or it has been used (`Inv`).  So a channel
never takes a second value, whoever races with whom.
-/

namespace Replies

universe u v

/-- A caller: its key, its channel, and all values ever put into the channel. -/
structure Slot (κ : Type u) (ν : Type v) where
  key : Option κ
  chan : Option ν
  puts : List ν

/-- The shared state. -/
structure Router (κ : Type u) (ν : Type v) where
  slots : List (Slot κ ν)
  /-- Registered keys and the place of their caller. -/
  pending : List (κ × Nat)
  /-- A value whose entry the reader has removed and which is not yet in the
  channel of its caller. -/
  hand : Option (Nat × ν)
  /-- The replies the reader has seen, in order. -/
  log : List (κ × ν)
  /-- How often a flush found a channel full. -/
  missed : Nat

variable {κ : Type u} {ν : Type v}

/-- A non-blocking put into the channel of a registered caller. -/
def Slot.flush (closed : ν) (pending : List (κ × Nat)) (place : Nat) (s : Slot κ ν) : Slot κ ν :=
  if place ∈ pending.map Prod.snd ∧ s.chan.isNone then
    { s with chan := some closed, puts := s.puts ++ [closed] }
  else s

/-- All entries are removed and their callers told `closed`. -/
def Router.flush (closed : ν) (r : Router κ ν) : Router κ ν :=
  { r with
    slots := r.slots.mapIdx (Slot.flush closed r.pending)
    pending := []
    missed := r.missed +
      r.pending.countP fun p => ((r.slots[p.2]?).bind Slot.chan).isSome }

/-- No caller has the key, and no reply carried it. -/
def Router.Fresh (r : Router κ ν) (key : κ) : Prop :=
  (∀ s ∈ r.slots, s.key ≠ some key) ∧ ∀ p ∈ r.log, p.1 ≠ key

variable {closed : ν} {r r' : Router κ ν}

theorem Slot.flush_key (pending : List (κ × Nat)) (k : Nat) (s : Slot κ ν) :
    (s.flush closed pending k).key = s.key := by
  unfold Slot.flush
  split <;> rfl

/-- A slot after a flush. -/
theorem of_flush {k : Nat} {s' : Slot κ ν} (hs' : (r.flush closed).slots[k]? = some s') :
    ∃ s, r.slots[k]? = some s ∧ s' = s.flush closed r.pending k := by
  simp only [Router.flush, List.getElem?_mapIdx, Option.map_eq_some_iff] at hs'
  obtain ⟨s, hs, rfl⟩ := hs'
  exact ⟨s, hs, rfl⟩

theorem flush_of {k : Nat} {s : Slot κ ν} (hs : r.slots[k]? = some s) :
    (r.flush closed).slots[k]? = some (s.flush closed r.pending k) := by
  simp [Router.flush, List.getElem?_mapIdx, hs]

theorem Slot.flush_of_not_mem {pending : List (κ × Nat)} {k : Nat} (s : Slot κ ν)
    (hp : k ∉ pending.map Prod.snd) : s.flush closed pending k = s := by
  simp only [Slot.flush, hp, false_and, if_false]

/-- Callers have different keys. -/
def UniqueKeys (slots : List (Slot κ ν)) : Prop :=
  ∀ (i j : Nat) (s t : Slot κ ν) (key : κ), slots[i]? = some s → slots[j]? = some t →
    s.key = some key → t.key = some key → i = j

/-- A caller that keeps its key. -/
theorem UniqueKeys.set {slots : List (Slot κ ν)} (h : UniqueKeys slots) {k : Nat} {s s' : Slot κ ν}
    (hs : slots[k]? = some s) (hk : s'.key = s.key) : UniqueKeys (slots.set k s') := by
  have hold : ∀ {i : Nat} {t : Slot κ ν}, (slots.set k s')[i]? = some t →
      ∃ t₀, slots[i]? = some t₀ ∧ t₀.key = t.key := by
    intro i t ht
    rcases Places.of_set ht with ⟨rfl, rfl⟩ | ⟨_, ht⟩
    · exact ⟨s, hs, hk.symm⟩
    · exact ⟨t, ht, rfl⟩
  intro i j t t' key ht ht' hkt hkt'
  obtain ⟨t₀, ht₀, hk₀⟩ := hold ht
  obtain ⟨t₁, ht₁, hk₁⟩ := hold ht'
  exact h i j t₀ t₁ key ht₀ ht₁ (hk₀.trans hkt) (hk₁.trans hkt')

/-- A slot with a key is at another place than one without. -/
theorem keyed_ne {slots : List (Slot κ ν)} {k k' : Nat} {s t : Slot κ ν} {key : κ}
    (hs : slots[k]? = some s) (hk : s.key = none) (ht : slots[k']? = some t)
    (hkt : t.key = some key) : k' ≠ k := by
  rintro rfl
  cases hs.symm.trans ht
  rw [hk] at hkt
  cases hkt

variable [DecidableEq κ]

/-- The caller a key is registered for. -/
def lookup (pending : List (κ × Nat)) (key : κ) : Option Nat :=
  (pending.find? fun p => p.1 = key).map Prod.snd

/-- The entries without those of a key. -/
def erase (pending : List (κ × Nat)) (key : κ) : List (κ × Nat) :=
  pending.filter fun p => p.1 ≠ key

/-- One step of one of the parties. -/
inductive Step (closed : ν) (r : Router κ ν) : Router κ ν → Prop where
  | called : Step closed r { r with slots := r.slots ++ [⟨none, none, []⟩] }
  | registered {k : Nat} {s : Slot κ ν} {key : κ} :
      r.slots[k]? = some s → s.key = none → r.Fresh key →
      Step closed r
        { r with
          slots := r.slots.set k { s with key := some key }
          pending := (key, k) :: erase r.pending key }
  | withdrawn {key : κ} : Step closed r { r with pending := erase r.pending key }
  | unmatched {key : κ} {v : ν} : lookup r.pending key = none →
      Step closed r { r with log := r.log ++ [(key, v)] }
  | matched {key : κ} {v : ν} {k : Nat} : r.hand = none → lookup r.pending key = some k →
      Step closed r
        { r with
          pending := erase r.pending key
          hand := some (k, v)
          log := r.log ++ [(key, v)] }
  | put {k : Nat} {v : ν} {s : Slot κ ν} : r.hand = some (k, v) → r.slots[k]? = some s →
      s.chan = none →
      Step closed r
        { r with
          slots := r.slots.set k { s with chan := some v, puts := s.puts ++ [v] }
          hand := none }
  | flushed : Step closed r (r.flush closed)
  | taken {k : Nat} {s : Slot κ ν} {v : ν} : r.slots[k]? = some s → s.chan = some v →
      Step closed r { r with slots := r.slots.set k { s with chan := none } }

/-! ## Entries -/

theorem lookup_mem {pending : List (κ × Nat)} {key : κ} {k : Nat}
    (h : lookup pending key = some k) : (key, k) ∈ pending := by
  obtain ⟨p, hp, rfl⟩ := Option.map_eq_some_iff.mp h
  have hkey : p.1 = key := by simpa using List.find?_some hp
  exact hkey ▸ List.mem_of_find?_eq_some hp

theorem not_mem_of_lookup {pending : List (κ × Nat)} {key : κ}
    (h : lookup pending key = none) {p : κ × Nat} (hp : p ∈ pending) : p.1 ≠ key := by
  have := List.find?_eq_none.mp (Option.map_eq_none_iff.mp h) p hp
  simpa using this

theorem mem_erase {pending : List (κ × Nat)} {key : κ} {p : κ × Nat} :
    p ∈ erase pending key ↔ p ∈ pending ∧ p.1 ≠ key := by
  simp [erase]

/-! ## The first reply for a key -/

/-- The first reply the reader has seen for the key. -/
def First (log : List (κ × ν)) (key : κ) (v : ν) : Prop :=
  log.find? (fun p => p.1 = key) = some (key, v)

theorem First.snoc {log : List (κ × ν)} {key : κ} {v : ν} (h : First log key v) (p : κ × ν) :
    First (log ++ [p]) key v := by
  rw [First, List.find?_append, h]
  rfl

theorem first_snoc_new {log : List (κ × ν)} {key : κ} (h : ∀ p ∈ log, p.1 ≠ key) (v : ν) :
    First (log ++ [(key, v)]) key v := by
  have hnone : log.find? (fun p => p.1 = key) = none := by
    rw [List.find?_eq_none]
    intro p hp
    simpa using h p hp
  rw [First, List.find?_append, hnone]
  simp

/-! ## The invariant -/

/-- Nothing has been put into the caller's channel. -/
def Slot.Unused (s : Slot κ ν) : Prop := s.chan = none ∧ s.puts = []

/-- The one value put into the caller's channel is `closed` or the first reply
for the caller's key. -/
def Slot.Used (closed : ν) (log : List (κ × ν)) (s : Slot κ ν) : Prop :=
  ∃ v, s.puts = [v] ∧ (∀ w ∈ s.chan, w = v) ∧
    (v = closed ∨ ∃ key, s.key = some key ∧ First log key v)

/-- Who may put a value into which channel. -/
structure Inv (closed : ν) (r : Router κ ν) : Prop where
  unique : UniqueKeys r.slots
  /-- The right lies with the entry: no reply for its key has been seen. -/
  entry : ∀ (key : κ) (k : Nat), (key, k) ∈ r.pending →
    (∃ s, r.slots[k]? = some s ∧ s.key = some key ∧ s.Unused) ∧ (∀ p ∈ r.log, p.1 ≠ key) ∧
      ∀ v, r.hand ≠ some (k, v)
  /-- The right lies with the reader. -/
  held : ∀ (k : Nat) (v : ν), r.hand = some (k, v) →
    ∃ s key, r.slots[k]? = some s ∧ s.key = some key ∧ s.Unused ∧ First r.log key v
  /-- The right has been used, or no value has come. -/
  filled : ∀ (k : Nat) (s : Slot κ ν), r.slots[k]? = some s → s.Unused ∨ s.Used closed r.log
  /-- A caller without a key has no value. -/
  keyless : ∀ (k : Nat) (s : Slot κ ν), r.slots[k]? = some s → s.key = none → s.Unused
  missed : r.missed = 0

theorem inv_init : Inv closed (⟨[], [], none, [], 0⟩ : Router κ ν) where
  unique := fun i j s t key hs => by cases hs
  entry := fun key k hp => by cases hp
  held := fun k v hv => by cases hv
  filled := fun k s hs => by cases hs
  keyless := fun k s hs => by cases hs
  missed := rfl

theorem Slot.Used.snoc {log : List (κ × ν)} {s : Slot κ ν} (h : s.Used closed log) (p : κ × ν) :
    s.Used closed (log ++ [p]) := by
  obtain ⟨v, hp, hc, hv⟩ := h
  exact ⟨v, hp, hc, hv.imp_right fun ⟨key, hk, hf⟩ => ⟨key, hk, hf.snoc p⟩⟩

theorem Inv.called (h : Inv closed r) :
    Inv closed { r with slots := r.slots ++ [⟨none, none, []⟩] } where
  unique := by
    intro i j s t key hs ht hks hkt
    rcases Places.of_snoc hs with hs | ⟨_, rfl⟩
    · rcases Places.of_snoc ht with ht | ⟨_, rfl⟩
      · exact h.unique i j s t key hs ht hks hkt
      · cases hkt
    · cases hks
  entry := by
    intro key k hp
    obtain ⟨⟨s, hs, hk, hu⟩, hlog, hhand⟩ := h.entry key k hp
    exact ⟨⟨s, Places.snoc_of hs, hk, hu⟩, hlog, hhand⟩
  held := by
    intro k v hv
    obtain ⟨s, key, hs, hrest⟩ := h.held k v hv
    exact ⟨s, key, Places.snoc_of hs, hrest⟩
  filled := by
    intro k s hs
    rcases Places.of_snoc hs with hs | ⟨_, rfl⟩
    · exact h.filled k s hs
    · exact Or.inl ⟨rfl, rfl⟩
  keyless := by
    intro k s hs hk
    rcases Places.of_snoc hs with hs | ⟨_, rfl⟩
    · exact h.keyless k s hs hk
    · exact ⟨rfl, rfl⟩
  missed := h.missed

theorem Inv.registered (h : Inv closed r) {k : Nat} {s : Slot κ ν} {key : κ}
    (hs : r.slots[k]? = some s) (hk : s.key = none) (hfresh : r.Fresh key) :
    Inv closed
      { r with
        slots := r.slots.set k { s with key := some key }
        pending := (key, k) :: erase r.pending key } where
  unique := by
    intro i j t t' key' ht ht' hkt hkt'
    rcases Places.of_set ht with ⟨rfl, rfl⟩ | ⟨_, ht₀⟩
    · rcases Places.of_set ht' with ⟨rfl, _⟩ | ⟨_, ht₁⟩
      · rfl
      · cases hkt
        exact absurd hkt' (hfresh.1 t' (List.mem_of_getElem? ht₁))
    · rcases Places.of_set ht' with ⟨rfl, rfl⟩ | ⟨_, ht₁⟩
      · cases hkt'
        exact absurd hkt (hfresh.1 t (List.mem_of_getElem? ht₀))
      · exact h.unique i j t t' key' ht₀ ht₁ hkt hkt'
  entry := by
    intro key' k' hp
    rcases List.mem_cons.mp hp with he | hp
    · cases he
      refine ⟨⟨_, Places.set_self hs, rfl, h.keyless k s hs hk⟩, hfresh.2, fun v hv => ?_⟩
      obtain ⟨t, key', ht, hkt, _⟩ := h.held k v hv
      exact absurd rfl (keyed_ne hs hk ht hkt)
    · obtain ⟨⟨t, ht, hkt, hu⟩, hlog, hhand⟩ := h.entry key' k' (mem_erase.mp hp).1
      have hne : k' ≠ k := keyed_ne hs hk ht hkt
      exact ⟨⟨t, by rw [Places.set_ne hne]; exact ht, hkt, hu⟩, hlog, hhand⟩
  held := by
    intro k' v hv
    obtain ⟨t, key', ht, hkt, hu, hf⟩ := h.held k' v hv
    have hne : k' ≠ k := keyed_ne hs hk ht hkt
    exact ⟨t, key', by rw [Places.set_ne hne]; exact ht, hkt, hu, hf⟩
  filled := by
    intro k' t ht
    rcases Places.of_set ht with ⟨rfl, rfl⟩ | ⟨_, ht⟩
    · exact Or.inl (h.keyless k' s hs hk)
    · exact h.filled k' t ht
  keyless := by
    intro k' t ht hkt
    rcases Places.of_set ht with ⟨rfl, rfl⟩ | ⟨_, ht⟩
    · cases hkt
    · exact h.keyless k' t ht hkt
  missed := h.missed

theorem Inv.withdrawn (h : Inv closed r) (key : κ) :
    Inv closed { r with pending := erase r.pending key } where
  unique := h.unique
  entry := fun key' k hp => h.entry key' k (mem_erase.mp hp).1
  held := h.held
  filled := h.filled
  keyless := h.keyless
  missed := h.missed

theorem Inv.unmatched (h : Inv closed r) {key : κ} (v : ν) (hl : lookup r.pending key = none) :
    Inv closed { r with log := r.log ++ [(key, v)] } where
  unique := h.unique
  entry := by
    intro key' k hp
    obtain ⟨hs, hlog, hhand⟩ := h.entry key' k hp
    refine ⟨hs, fun p hpl => ?_, hhand⟩
    rcases List.mem_append.mp hpl with hpl | hpl
    · exact hlog p hpl
    · rw [List.mem_singleton.mp hpl]
      exact (not_mem_of_lookup hl hp).symm
  held := by
    intro k w hw
    obtain ⟨s, key', hs, hk, hu, hf⟩ := h.held k w hw
    exact ⟨s, key', hs, hk, hu, hf.snoc _⟩
  filled := fun k s hs => (h.filled k s hs).imp_right fun hu => hu.snoc _
  keyless := h.keyless
  missed := h.missed

theorem Inv.matched (h : Inv closed r) {key : κ} (v : ν) {k : Nat}
    (hl : lookup r.pending key = some k) :
    Inv closed
      { r with
        pending := erase r.pending key
        hand := some (k, v)
        log := r.log ++ [(key, v)] } where
  unique := h.unique
  entry := by
    intro key' k' hp
    obtain ⟨hp, hne⟩ := mem_erase.mp hp
    obtain ⟨⟨s, hs, hk, hu⟩, hlog, _⟩ := h.entry key' k' hp
    refine ⟨⟨s, hs, hk, hu⟩, fun p hpl => ?_, fun w hw => ?_⟩
    · rcases List.mem_append.mp hpl with hpl | hpl
      · exact hlog p hpl
      · rw [List.mem_singleton.mp hpl]
        exact hne.symm
    · -- the reader holds the value of another key
      cases hw
      obtain ⟨⟨t, ht, hkt, _⟩, _⟩ := h.entry key k (lookup_mem hl)
      rw [hs] at ht
      cases ht
      rw [hk] at hkt
      exact hne (Option.some.inj hkt)
  held := by
    intro k' w hw
    cases hw
    obtain ⟨⟨s, hs, hk, hu⟩, hlog, _⟩ := h.entry key k (lookup_mem hl)
    exact ⟨s, key, hs, hk, hu, first_snoc_new hlog v⟩
  filled := fun k s hs => (h.filled k s hs).imp_right fun hu => hu.snoc _
  keyless := h.keyless
  missed := h.missed

theorem Inv.put (h : Inv closed r) {k : Nat} {v : ν} {s : Slot κ ν} (hv : r.hand = some (k, v))
    (hs : r.slots[k]? = some s) :
    Inv closed
      { r with
        slots := r.slots.set k { s with chan := some v, puts := s.puts ++ [v] }
        hand := none } where
  unique := h.unique.set hs rfl
  entry := by
    intro key k' hp
    obtain ⟨⟨t, ht, hkt, hu⟩, hlog, hhand⟩ := h.entry key k' hp
    have hne : k' ≠ k := by
      rintro rfl
      exact hhand v hv
    exact ⟨⟨t, by rw [Places.set_ne hne]; exact ht, hkt, hu⟩, hlog, fun w hw => by cases hw⟩
  held := fun k' w hw => by cases hw
  filled := by
    intro k' t ht
    rcases Places.of_set ht with ⟨rfl, rfl⟩ | ⟨_, ht⟩
    · obtain ⟨s', key, hs', hk, hu, hf⟩ := h.held k' v hv
      rw [hs] at hs'
      cases hs'
      refine Or.inr ⟨v, by simp [hu.2], fun w hw => ?_, Or.inr ⟨key, hk, hf⟩⟩
      exact (Option.some.inj hw).symm
    · exact h.filled k' t ht
  keyless := by
    intro k' t ht hkt
    rcases Places.of_set ht with ⟨rfl, rfl⟩ | ⟨_, ht⟩
    · obtain ⟨s', key, hs', hk, _⟩ := h.held k' v hv
      rw [hs] at hs'
      cases hs'
      rw [show s.key = none from hkt] at hk
      cases hk
    · exact h.keyless k' t ht hkt
  missed := h.missed

/-! ## Flushing -/

/-- The slot of an entry takes the value of the flush. -/
theorem Inv.flush_entry (h : Inv closed r) {k : Nat} {s : Slot κ ν} (hs : r.slots[k]? = some s)
    (hp : k ∈ r.pending.map Prod.snd) :
    (∃ key, s.key = some key) ∧ s.Unused ∧
      s.flush closed r.pending k = { s with chan := some closed, puts := [closed] } := by
  obtain ⟨⟨key, k'⟩, hmem, rfl⟩ := List.mem_map.mp hp
  obtain ⟨⟨t, ht, hkt, hu⟩, _⟩ := h.entry key k' hmem
  rw [hs] at ht
  cases ht
  exact ⟨⟨key, hkt⟩, hu, by simp [Slot.flush, hp, hu.1, hu.2]⟩

/-- A flush never finds a channel full. -/
theorem Inv.flush_missed (h : Inv closed r) : (r.flush closed).missed = 0 := by
  have hnone : (r.pending.countP fun p => ((r.slots[p.2]?).bind Slot.chan).isSome) = 0 := by
    rw [List.countP_eq_zero]
    rintro ⟨key, k⟩ hp
    obtain ⟨⟨s, hs, _, hu⟩, _⟩ := h.entry key k hp
    simp [hs, hu.1]
  simp only [Router.flush, hnone, h.missed]

theorem Inv.flushed (h : Inv closed r) : Inv closed (r.flush closed) where
  unique := by
    intro i j t t' key ht ht' hkt hkt'
    obtain ⟨s, hs, rfl⟩ := of_flush ht
    obtain ⟨s', hs', rfl⟩ := of_flush ht'
    rw [Slot.flush_key] at hkt hkt'
    exact h.unique i j s s' key hs hs' hkt hkt'
  entry := fun key k hp => by cases hp
  held := by
    intro k v hv
    obtain ⟨s, key, hs, hk, hu, hf⟩ := h.held k v hv
    have hp : k ∉ r.pending.map Prod.snd := by
      intro hp
      obtain ⟨⟨key', k'⟩, hmem, rfl⟩ := List.mem_map.mp hp
      exact (h.entry key' k' hmem).2.2 v hv
    exact ⟨s, key, by rw [flush_of hs, s.flush_of_not_mem hp], hk, hu, hf⟩
  filled := by
    intro k t ht
    obtain ⟨s, hs, rfl⟩ := of_flush ht
    by_cases hp : k ∈ r.pending.map Prod.snd
    · obtain ⟨_, _, he⟩ := h.flush_entry hs hp
      rw [he]
      exact Or.inr ⟨closed, rfl, fun w hw => (Option.some.inj hw).symm, Or.inl rfl⟩
    · rw [s.flush_of_not_mem hp]
      exact h.filled k s hs
  keyless := by
    intro k t ht hkt
    obtain ⟨s, hs, rfl⟩ := of_flush ht
    rw [Slot.flush_key] at hkt
    have hp : k ∉ r.pending.map Prod.snd := by
      intro hp
      obtain ⟨⟨key, hk⟩, _⟩ := h.flush_entry hs hp
      rw [hk] at hkt
      cases hkt
    rw [s.flush_of_not_mem hp]
    exact h.keyless k s hs hkt
  missed := h.flush_missed

/-! ## Runs -/

theorem Inv.taken (h : Inv closed r) {k : Nat} {s : Slot κ ν} {v : ν} (hs : r.slots[k]? = some s)
    (hv : s.chan = some v) :
    Inv closed { r with slots := r.slots.set k { s with chan := none } } := by
  -- a channel with a value in it has been used
  have hused : s.Used closed r.log := by
    rcases h.filled k s hs with hu | hu
    · rw [hu.1] at hv; cases hv
    · exact hu
  have hkey : s.key ≠ none := by
    intro hk
    rw [(h.keyless k s hs hk).1] at hv
    cases hv
  have hother : ∀ {k' : Nat} {t : Slot κ ν}, r.slots[k']? = some t → t.Unused →
      (r.slots.set k { s with chan := none })[k']? = some t := by
    intro k' t ht hu
    rw [Places.set_ne, ht]
    rintro rfl
    rw [hs] at ht
    cases ht
    rw [hu.1] at hv
    cases hv
  refine ⟨h.unique.set hs rfl, ?_, ?_, ?_, ?_, h.missed⟩
  · intro key k' hp
    obtain ⟨⟨t, ht, hkt, hu⟩, hrest⟩ := h.entry key k' hp
    exact ⟨⟨t, hother ht hu, hkt, hu⟩, hrest⟩
  · intro k' w hw
    obtain ⟨t, key, ht, hkt, hu, hf⟩ := h.held k' w hw
    exact ⟨t, key, hother ht hu, hkt, hu, hf⟩
  · intro k' t ht
    rcases Places.of_set ht with ⟨rfl, rfl⟩ | ⟨_, ht⟩
    · obtain ⟨w, hp, _, hw⟩ := hused
      exact Or.inr ⟨w, hp, (fun _ h => by cases h), hw⟩
    · exact h.filled k' t ht
  · intro k' t ht hkt
    rcases Places.of_set ht with ⟨rfl, rfl⟩ | ⟨_, ht⟩
    · exact absurd hkt hkey
    · exact h.keyless k' t ht hkt

/-- Every step of every party keeps the invariant. -/
theorem Inv.step (h : Inv closed r) (hstep : Step closed r r') : Inv closed r' := by
  cases hstep with
  | called => exact h.called
  | registered hs hk hfresh => exact h.registered hs hk hfresh
  | withdrawn => exact h.withdrawn _
  | unmatched hl => exact h.unmatched _ hl
  | matched _ hl => exact h.matched _ hl
  | put hv hs _ => exact h.put hv hs
  | flushed => exact h.flushed
  | taken hs hv => exact h.taken hs hv

end Replies
