import Signalium.Worker.Pool

/-!
# The goroutines and their dispatches

The pool's invariant.  Every dispatch of the pool that is under way has a
goroutine of its own, the dispatches see the cancellation of the pool's context,
and `done` is closed only when all goroutines have returned.

The steps fall into two kinds.  A goroutine moves between two places outside a
dispatch, or out of one that has returned (`PoolInv.setLoop`), or the outbox
moves and takes the dispatches of the pool onward (`PoolInv.outbox`): one that has
returned stays so and none dies.  A claim that returns a row is the one step
that does both, and adds a dispatch.

From it (`pool_safe`): no more dispatches are under way than there are goroutines,
nothing is claimed once `OnStop` has cancelled the context, and when `OnStop` has
returned `nil` no dispatch is under way and no goroutine takes another step.
-/

namespace Signalium

open Runs Tables

variable {c : PoolConfig} {p p' : Pool} {a : PoolLabel} {s s' : Outbox} {d d' : Dispatch}

/-! ## What happens to a dispatch -/

/-- A dispatch that has returned stays so, one that is cancelled stays so, and none dies. -/
structure Dispatch.Onward (d d' : Dispatch) : Prop where
  isDone : d.phase.isDone = true → d'.phase.isDone = true
  alive : d.phase ≠ .crashed → d'.phase ≠ .crashed
  cancelled : d.cancelled = true → d'.cancelled = true

theorem Dispatch.Onward.refl (d : Dispatch) : d.Onward d := ⟨id, id, id⟩

theorem Dispatch.Onward.trans {d'' : Dispatch} (h : d.Onward d') (h' : d'.Onward d'') :
    d.Onward d'' :=
  ⟨h'.isDone ∘ h.isDone, h'.alive ∘ h.alive, h'.cancelled ∘ h.cancelled⟩

theorem ActStep.onward {cfg : WorkerConfig} {now : Int} {ac : Act} (h : ActStep cfg now d ac d')
    (hac : ac ≠ .crash) : d.Onward d' := by
  have hlive : ∀ {ph : Phase}, d.phase = ph → ph.isDone = false →
      d.phase.isDone = true → d'.phase.isDone = true := by
    intro ph hp hf hd
    rw [hp, hf] at hd
    cases hd
  cases h with
  | crash => exact absurd rfl hac
  | cancel => exact ⟨id, id, fun _ => rfl⟩
  | markSent hp =>
      refine ⟨hlive hp rfl, fun _ => ?_, id⟩
      simp only [Dispatch.afterMarkSent]
      split_ifs <;> exact nofun
  | markFailed hp _ =>
      refine ⟨hlive hp rfl, fun _ => ?_, id⟩
      simp only [Dispatch.afterMarkFailed]
      split_ifs <;> exact nofun
  | start hp => exact ⟨hlive hp rfl, fun _ => nofun, id⟩
  | downloadFailed hp => exact ⟨hlive hp rfl, fun _ => nofun, id⟩
  | refused hp _ => exact ⟨hlive hp rfl, fun _ => nofun, id⟩
  | built hp _ => exact ⟨hlive hp rfl, fun _ => nofun, id⟩
  | send hp => exact ⟨hlive hp rfl, fun _ => nofun, id⟩
  | sendFailed hp => exact ⟨hlive hp rfl, fun _ => nofun, id⟩
  | delivered hp => exact ⟨hlive hp rfl, fun _ => nofun, id⟩
  | woken hp _ => exact ⟨hlive hp rfl, fun _ => nofun, id⟩
  | interrupted hp _ => exact ⟨fun _ => rfl, fun _ => nofun, id⟩

/-- Every step but the death of its process takes a dispatch onward. -/
theorem Outbox.onward_step {cfg : WorkerConfig} {a : Label} {i : Nat}
    (h : s.step cfg a = some s') (ha : a ≠ .dispatch i .crash) (hd : s.dispatches[i]? = some d) :
    ∃ d', s'.dispatches[i]? = some d' ∧ d.Onward d' := by
  obtain ⟨d', hd', hev⟩ := Outbox.dispatch_stays h hd
  refine ⟨d', hd', ?_⟩
  rcases hev.cases_act with ⟨ac, rfl, _, hact⟩ | ⟨_, hph, _, hc⟩
  · exact hact.onward (by rintro rfl; exact ha rfl)
  · exact ⟨fun h => hph ▸ h, fun h => hph ▸ h, fun h => hc ▸ h⟩

/-- The dispatches named are there, and go onward. -/
def Outbox.Onward (own : List Nat) (s s' : Outbox) : Prop :=
  ∀ i ∈ own, ∀ d, s.dispatches[i]? = some d → ∃ d', s'.dispatches[i]? = some d' ∧ d.Onward d'

theorem Outbox.Onward.of_step {cfg : WorkerConfig} {a : Label} {own : List Nat}
    (h : s.step cfg a = some s') (ha : ∀ i ∈ own, a ≠ .dispatch i .crash) :
    Outbox.Onward own s s' :=
  fun i hi _ hd => Outbox.onward_step h (ha i hi) hd

theorem Outbox.Onward.trans {own : List Nat} {s'' : Outbox} (h : Outbox.Onward own s s')
    (h' : Outbox.Onward own s' s'') : Outbox.Onward own s s'' := by
  intro i hi d hd
  obtain ⟨d', hd', ho⟩ := h i hi d hd
  obtain ⟨d'', hd'', ho'⟩ := h' i hi d' hd'
  exact ⟨d'', hd'', ho.trans ho'⟩

theorem Outbox.finished_iff {i : Nat} :
    s.finished i = true ↔ ∃ d, s.dispatches[i]? = some d ∧ d.phase.isDone = true := by
  simp [Outbox.finished, Option.any_eq_true]

/-! ### Cancelling -/

theorem Outbox.cancel_step (cfg : WorkerConfig) {i : Nat} (hd : s.dispatches[i]? = some d) :
    s.step cfg (.dispatch i .cancel) = some (s.cancel cfg i) := by
  simp [Outbox.cancel, Outbox.step, Outbox.dispatches?, hd, Dispatch.act]

theorem Outbox.cancel_dispatch (cfg : WorkerConfig) {i : Nat} (hd : s.dispatches[i]? = some d) :
    (s.cancel cfg i).dispatches[i]? = some { d with cancelled := true } := by
  obtain ⟨d₀, d', hd₀, hact, hds⟩ := Outbox.step_dispatch (Outbox.cancel_step cfg hd)
  cases hd.symm.trans hd₀
  cases hact
  rw [hds]
  exact Places.set_self hd

/-- Cancelling takes every dispatch onward, those that are there and those that are not. -/
theorem Outbox.Onward.cancel (cfg : WorkerConfig) (own : List Nat) (s : Outbox) (i : Nat) :
    Outbox.Onward own s (s.cancel cfg i) := by
  cases hs : s.step cfg (.dispatch i .cancel) with
  | none =>
      have he : s.cancel cfg i = s := by simp [Outbox.cancel, hs]
      rw [he]
      exact fun j _ d hd => ⟨d, hd, .refl d⟩
  | some s' =>
      have he : s.cancel cfg i = s' := by simp [Outbox.cancel, hs]
      rw [he]
      exact .of_step hs fun _ _ => nofun

theorem Outbox.Onward.cancelAll (cfg : WorkerConfig) (own : List Nat) :
    ∀ (l : List Nat) (s : Outbox), Outbox.Onward own s (l.foldl (Outbox.cancel cfg) s)
  | [], _ => fun _ _ d hd => ⟨d, hd, .refl d⟩
  | i :: l, s => (Outbox.Onward.cancel cfg own s i).trans (cancelAll cfg own l (s.cancel cfg i))

/-- After the cancellation every dispatch named is cancelled. -/
theorem Outbox.cancelAll_cancelled (cfg : WorkerConfig) {i : Nat} {l : List Nat} :
    ∀ {s : Outbox} {d : Dispatch}, i ∈ l → s.dispatches[i]? = some d →
      ∃ d', (l.foldl (Outbox.cancel cfg) s).dispatches[i]? = some d' ∧ d'.cancelled = true := by
  induction l with
  | nil => exact fun hi => absurd hi List.not_mem_nil
  | cons j l ih =>
      intro s d hi hd
      rcases List.mem_cons.mp hi with rfl | hi
      · obtain ⟨d', hd', ho⟩ := Outbox.Onward.cancelAll cfg [i] l (s.cancel cfg i) i
          (List.mem_singleton_self i) _ (Outbox.cancel_dispatch cfg hd)
        exact ⟨d', hd', ho.cancelled rfl⟩
      · obtain ⟨d', hd', _⟩ := Outbox.Onward.cancel cfg [i] s j i (List.mem_singleton_self i) d hd
        exact ih hi hd'

/-- The cancellation is a run of the outbox. -/
theorem Outbox.cancelAll_run (cfg : WorkerConfig) {l : List Nat} :
    ∀ {s : Outbox}, (∀ i ∈ l, ∃ d, s.dispatches[i]? = some d) →
      ∃ tr, Run (Outbox.step cfg) s tr (l.foldl (Outbox.cancel cfg) s) := by
  induction l with
  | nil => exact fun _ => ⟨[], .nil⟩
  | cons i l ih =>
      intro s h
      obtain ⟨d, hd⟩ := h i List.mem_cons_self
      have hl : ∀ j ∈ l, ∃ d, (s.cancel cfg i).dispatches[j]? = some d := by
        intro j hj
        obtain ⟨e, he⟩ := h j (List.mem_cons_of_mem _ hj)
        obtain ⟨e', he', _⟩ := Outbox.Onward.cancel cfg [j] s i j (List.mem_singleton_self j) e he
        exact ⟨e', he'⟩
      obtain ⟨tr, htr⟩ := ih hl
      have hone : Run (Outbox.step cfg) s ([] ++ [.dispatch i .cancel]) (s.cancel cfg i) :=
        .snoc .nil trivial (Outbox.cancel_step cfg hd)
      exact ⟨_, hone.trans htr⟩

/-! ## The invariant -/

/-- What holds in every state a pool can reach. -/
structure PoolInv (c : PoolConfig) (p : Pool) : Prop where
  size : p.loops.length ≤ c.size
  fresh : p.own.Nodup
  /-- A goroutine is in a dispatch of the pool, and no other is in that one. -/
  held : ∀ l ∈ p.loops, ∀ i ∈ l.pc.dispatch?, i ∈ p.own
  apart : ∀ (k₁ k₂ : Nat) (l₁ l₂ : TickLoop) (i : Nat), p.loops[k₁]? = some l₁ →
    p.loops[k₂]? = some l₂ → i ∈ l₁.pc.dispatch? → i ∈ l₂.pc.dispatch? → k₁ = k₂
  /-- The dispatches of the pool are there, and they see its context. -/
  alive : ∀ i ∈ p.own, ∃ d, p.outbox.dispatches[i]? = some d ∧ d.phase ≠ .crashed ∧
    (p.cancelled = true → d.cancelled = true)
  /-- A dispatch that is under way has its goroutine. -/
  driven : ∀ i ∈ p.own, p.outbox.finished i = false → ∃ l ∈ p.loops, i ∈ l.pc.dispatch?
  /-- `OnStop` cancels before it waits, and nothing else does. -/
  waited : p.cancelled = true → p.stop ≠ .idle
  cut : p.started = true → p.stop ≠ .idle → p.cancelled = true
  unstarted : p.started = false → p.loops = [] ∧ p.own = []
  closed : p.done = true → p.started = true ∧ ∀ l ∈ p.loops, l.pc = .returned
  stopped : p.stop = .returned true → p.done = true

theorem poolInv_init (c : PoolConfig) : PoolInv c Pool.init where
  size := Nat.zero_le _
  fresh := List.nodup_nil
  held := fun _ hl => absurd hl List.not_mem_nil
  apart := fun _ _ _ _ _ hl => by cases hl
  alive := fun _ hi => absurd hi List.not_mem_nil
  driven := fun _ hi => absurd hi List.not_mem_nil
  waited := fun h => by cases h
  cut := fun h => by cases h
  unstarted := fun _ => ⟨rfl, rfl⟩
  closed := fun h => by cases h
  stopped := fun h => by cases h

/-- A goroutine that has not returned goes on, out of a dispatch that has or from outside. -/
theorem PoolInv.setLoop {k : Nat} {l l' : TickLoop} (h : PoolInv c p) (hl : p.loops[k]? = some l)
    (hpc : l.pc ≠ .returned) (hold : ∀ i ∈ l.pc.dispatch?, p.outbox.finished i = true)
    (hnew : l'.pc.dispatch? = none) : PoolInv c (p.setLoop k l') := by
  have hmem : ∀ m ∈ (p.setLoop k l').loops, m = l' ∨ m ∈ p.loops := by
    intro m hm
    exact (List.mem_or_eq_of_mem_set hm).symm
  exact {
    size := by simpa [Pool.setLoop] using h.size
    fresh := h.fresh
    held := by
      intro m hm i hi
      rcases hmem m hm with rfl | hm
      · rw [hnew] at hi; cases hi
      · exact h.held m hm i hi
    apart := by
      intro k₁ k₂ l₁ l₂ i h₁ h₂ hi₁ hi₂
      rcases Places.of_set h₁ with ⟨_, rfl⟩ | ⟨_, h₁⟩
      · rw [hnew] at hi₁; cases hi₁
      · rcases Places.of_set h₂ with ⟨_, rfl⟩ | ⟨_, h₂⟩
        · rw [hnew] at hi₂; cases hi₂
        · exact h.apart k₁ k₂ l₁ l₂ i h₁ h₂ hi₁ hi₂
    alive := h.alive
    driven := by
      intro i hi hf
      change p.outbox.finished i = false at hf
      obtain ⟨m, hm, him⟩ := h.driven i hi hf
      obtain ⟨j, hj⟩ := List.mem_iff_getElem?.mp hm
      by_cases hjk : j = k
      · subst hjk
        cases hl.symm.trans hj
        rw [hold i him] at hf
        cases hf
      · exact ⟨m, List.mem_iff_getElem?.mpr ⟨j, (Places.set_ne hjk).trans hj⟩, him⟩
    waited := h.waited
    cut := h.cut
    unstarted := by
      intro hs
      rw [(h.unstarted hs).1] at hl
      cases hl
    closed := by
      intro hd
      exact absurd ((h.closed hd).2 l (List.mem_of_getElem? hl)) hpc
    stopped := h.stopped }

/-- The outbox moves, and the dispatches of the pool go onward. -/
theorem PoolInv.outbox {o : Outbox} (h : PoolInv c p) (ho : Outbox.Onward p.own p.outbox o) :
    PoolInv c { p with outbox := o } where
  size := h.size
  fresh := h.fresh
  held := h.held
  apart := h.apart
  alive := by
    intro i hi
    obtain ⟨d, hd, halive, hc⟩ := h.alive i hi
    obtain ⟨d', hd', hon⟩ := ho i hi d hd
    exact ⟨d', hd', hon.alive halive, fun hp => hon.cancelled (hc hp)⟩
  driven := by
    intro i hi hf
    refine h.driven i hi ?_
    rw [Bool.eq_false_iff] at hf ⊢
    intro hfin
    obtain ⟨d, hd, hdone⟩ := Outbox.finished_iff.mp hfin
    obtain ⟨d', hd', hon⟩ := ho i hi d hd
    exact hf (Outbox.finished_iff.mpr ⟨d', hd', hon.isDone hdone⟩)
  waited := h.waited
  cut := h.cut
  unstarted := h.unstarted
  closed := h.closed
  stopped := h.stopped

/-- A claim that returned a row. -/
theorem PoolInv.claimed {k : Nat} {l : TickLoop} {draining : Bool} {locked : List UUID} {r : Row}
    {o : Outbox} (h : PoolInv c p) (hl : p.loops[k]? = some l) (hpc : l.pc = .claiming draining)
    (hc : p.cancelled = false) (hr : p.outbox.table.claimCandidate p.outbox.now locked = some r)
    (ho : p.outbox.step c.worker (.claim locked .committed) = some o) :
    PoolInv c { p.setLoop k { l with pc := .dispatching p.outbox.dispatches.length draining } with
      outbox := o, own := p.own ++ [p.outbox.dispatches.length] } := by
  -- the invariant for the old dispatches, with the goroutine out of its place
  have hout : PoolInv c { p.setLoop k { l with pc := .selecting } with outbox := o } :=
    (h.setLoop hl (by rw [hpc]; intro he; cases he) (by rw [hpc]; intro _ hi; cases hi)
      rfl).outbox (.of_step ho fun _ _ he => by cases he)
  have hnew : ∀ i ∈ p.own, i ≠ p.outbox.dispatches.length := by
    intro i hi he
    obtain ⟨d, hd, _⟩ := h.alive i hi
    rw [he, List.getElem?_eq_none (Nat.le_refl _)] at hd
    cases hd
  have hd : o.dispatches[p.outbox.dispatches.length]?
      = some (Dispatch.new (r.claim p.outbox.now c.worker.leaseDuration)) :=
    Outbox.claimed_dispatch ho hr
  have hnot : ∀ {j : Nat} {m : TickLoop}, p.loops[j]? = some m →
      p.outbox.dispatches.length ∉ m.pc.dispatch? :=
    fun hm hi => hnew _ (h.held _ (List.mem_of_getElem? hm) _ hi) rfl
  exact {
    size := by simpa [Pool.setLoop] using h.size
    fresh := by
      refine List.nodup_append.mpr ⟨h.fresh, List.nodup_singleton _, ?_⟩
      intro i hi j hj
      rw [List.mem_singleton.mp hj]
      exact hnew i hi
    held := by
      intro m hm i hi
      rcases List.mem_or_eq_of_mem_set hm with hm | rfl
      · exact List.mem_append_left _ (h.held m hm i hi)
      · cases hi
        exact List.mem_append_right _ (List.mem_singleton_self _)
    apart := by
      intro k₁ k₂ l₁ l₂ i h₁ h₂ hi₁ hi₂
      rcases Places.of_set h₁ with ⟨hk₁, rfl⟩ | ⟨_, hm₁⟩ <;>
        rcases Places.of_set h₂ with ⟨hk₂, rfl⟩ | ⟨_, hm₂⟩
      · exact hk₁.trans hk₂.symm
      · cases hi₁
        exact absurd hi₂ (hnot hm₂)
      · cases hi₂
        exact absurd hi₁ (hnot hm₁)
      · exact h.apart k₁ k₂ l₁ l₂ i hm₁ hm₂ hi₁ hi₂
    alive := by
      intro i hi
      rcases List.mem_append.mp hi with hi | hi
      · exact hout.alive i hi
      · rw [List.mem_singleton.mp hi]
        refine ⟨_, hd, fun he => (by cases he), fun hp => ?_⟩
        change p.cancelled = true at hp
        rw [hc] at hp
        cases hp
    driven := by
      intro i hi hf
      have hk : p.loops.length > k := (List.getElem?_eq_some_iff.mp hl).1
      rcases List.mem_append.mp hi with hi | hi
      · obtain ⟨m, hm, him⟩ := hout.driven i hi hf
        obtain ⟨j, hj⟩ := List.mem_iff_getElem?.mp hm
        rcases Places.of_set hj with ⟨_, rfl⟩ | ⟨hjk, hj⟩
        · cases him
        · exact ⟨m, List.mem_iff_getElem?.mpr ⟨j, (Places.set_ne hjk).trans hj⟩, him⟩
      · refine ⟨_, List.mem_of_getElem? (Places.set_self hl), ?_⟩
        rw [List.mem_singleton.mp hi]
        rfl
    waited := h.waited
    cut := h.cut
    unstarted := by
      intro hs
      rw [(h.unstarted hs).1] at hl
      cases hl
    closed := by
      intro hd
      have hret := (h.closed hd).2 l (List.mem_of_getElem? hl)
      rw [hpc] at hret
      cases hret
    stopped := h.stopped }

theorem PoolInv.step (h : PoolInv c p) (hs : p.step c a = some p') : PoolInv c p' := by
  cases Pool.step_move hs with
  | start hst hidle =>
      obtain ⟨hloops, hown⟩ := h.unstarted hst
      exact {
        size := by simp
        fresh := h.fresh
        held := by
          intro l hl i hi
          rw [List.eq_of_mem_replicate hl] at hi
          cases hi
        apart := by
          intro k₁ k₂ l₁ l₂ i h₁ _ hi₁ _
          rw [List.eq_of_mem_replicate (List.mem_of_getElem? h₁)] at hi₁
          cases hi₁
        alive := h.alive
        driven := by
          intro i hi
          change i ∈ p.own at hi
          rw [hown] at hi
          cases hi
        waited := h.waited
        cut := fun _ hne => absurd hidle hne
        unstarted := nofun
        closed := by
          intro hd
          rw [(h.closed hd).1] at hst
          cases hst
        stopped := h.stopped }
  | begin hl hpc _ =>
      exact h.setLoop hl (by rw [hpc]; exact nofun) (by rw [hpc]; exact nofun) rfl
  | tick hl hpc _ =>
      exact h.setLoop hl (by rw [hpc]; exact nofun) (by rw [hpc]; exact nofun) rfl
  | quit hl hpc _ =>
      exact h.setLoop hl (by rw [hpc]; exact nofun) (by rw [hpc]; exact nofun) rfl
  | claimed hl hpc hc hr ho => exact h.claimed hl hpc hc hr ho
  | noRow hl hpc _ ho =>
      exact (h.setLoop hl (by rw [hpc]; exact nofun) (by rw [hpc]; exact nofun) rfl).outbox
        (.of_step ho fun _ _ => nofun)
  | @dispatch k i l draining ac o hl hpc hac ho =>
      exact h.outbox (.of_step ho fun j _ he => by cases he; cases hac)
  | @finished k i l draining hl hpc hf =>
      refine h.setLoop hl (by rw [hpc]; exact nofun) ?_ (by cases draining <;> rfl)
      intro j hj
      rw [hpc] at hj
      cases hj
      exact hf
  | check hl hpc =>
      exact h.setLoop hl (by rw [hpc]; exact nofun) (by rw [hpc]; exact nofun)
        (by cases p.cancelled <;> rfl)
  | close hst hall => exact { h with closed := fun _ => ⟨hst, hall⟩, stopped := fun _ => rfl }
  | stop hidle hst =>
      have hout := h.outbox (Outbox.Onward.cancelAll c.worker p.own p.own p.outbox)
      exact { hout with
        alive := by
          intro i hi
          obtain ⟨d, hd, _⟩ := h.alive i hi
          obtain ⟨d', hd', hc⟩ := Outbox.cancelAll_cancelled c.worker hi hd
          obtain ⟨d'', hd'', halive, _⟩ := hout.alive i hi
          cases hd'.symm.trans hd''
          exact ⟨d', hd', halive, fun _ => hc⟩
        waited := fun _ => nofun
        cut := fun _ _ => rfl
        stopped := nofun }
  | stopUnstarted _ hst =>
      refine { h with waited := fun _ => nofun, cut := fun hs _ => ?_, stopped := nofun }
      change p.started = true at hs
      rw [hst] at hs
      cases hs
  | drained hw hd =>
      exact { h with
        waited := fun _ => nofun
        cut := fun hs _ => h.cut hs (by rw [hw]; exact nofun)
        stopped := fun _ => hd }
  | timeout hw =>
      exact { h with
        waited := fun _ => nofun
        cut := fun hs _ => h.cut hs (by rw [hw]; exact nofun)
        stopped := nofun }
  | @other b o hsp ho =>
      refine h.outbox (.of_step ho ?_)
      rintro i hi rfl
      simp [Label.spares, hi] at hsp

theorem Pool.poolInv {tr : List PoolLabel} (hr : Run (Pool.step c) Pool.init tr p) :
    PoolInv c p :=
  hr.invariant (poolInv_init c) fun _ _ _ h _ hs => h.step hs

/-! ## The pool and the outbox -/

/-- A step of the pool is a run of the outbox: one step, none, or the cancellation. -/
theorem PoolInv.outbox_run (h : PoolInv c p) (hs : p.step c a = some p') :
    ∃ tr, Run (Outbox.step c.worker) p.outbox tr p'.outbox := by
  have hone : ∀ {b : Label} {o : Outbox}, p.outbox.step c.worker b = some o →
      ∃ tr, Run (Outbox.step c.worker) p.outbox tr o :=
    fun ho => ⟨[] ++ [_], .snoc .nil trivial ho⟩
  cases Pool.step_move hs with
  | claimed _ _ _ _ ho => exact hone ho
  | noRow _ _ _ ho => exact hone ho
  | dispatch _ _ _ ho => exact hone ho
  | other _ ho => exact hone ho
  | stop _ _ =>
      refine Outbox.cancelAll_run c.worker fun i hi => ?_
      obtain ⟨d, hd, _⟩ := h.alive i hi
      exact ⟨d, hd⟩
  | _ => exact ⟨[], .nil⟩

/-- The outbox of a pool runs through the steps of the outbox. -/
theorem Pool.refines_outbox {tr : List PoolLabel} (hr : Run (Pool.step c) Pool.init tr p) :
    ∃ tr', Run (Outbox.step c.worker) Outbox.init tr' p.outbox :=
  hr.refines (f := Pool.outbox) (I := PoolInv c) (poolInv_init c)
    fun _ _ _ h _ hs => ⟨h.step hs, h.outbox_run hs⟩

/-! ## Safety -/

/-- Every dispatch under way has a goroutine of its own. -/
theorem PoolInv.inFlight_le (h : PoolInv c p) : p.inFlight.length ≤ c.size := by
  have hsub : p.inFlight ⊆ p.loops.filterMap fun l => l.pc.dispatch? := by
    intro i hi
    obtain ⟨hown, hf⟩ := List.mem_filter.mp hi
    obtain ⟨l, hl, hil⟩ := h.driven i hown (by simpa using hf)
    exact List.mem_filterMap.mpr ⟨l, hl, hil⟩
  calc p.inFlight.length
      ≤ (p.loops.filterMap fun l => l.pc.dispatch?).length :=
        ((h.fresh.filter _).subperm hsub).length_le
    _ ≤ p.loops.length := List.length_filterMap_le _ _
    _ ≤ c.size := h.size

/-- When all goroutines have returned no dispatch is under way. -/
theorem PoolInv.inFlight_nil (h : PoolInv c p) (hd : p.done = true) : p.inFlight = [] := by
  refine List.eq_nil_iff_forall_not_mem.mpr fun i hi => ?_
  obtain ⟨hown, hf⟩ := List.mem_filter.mp hi
  obtain ⟨l, hl, hil⟩ := h.driven i hown (by simpa using hf)
  rw [(h.closed hd).2 l hl] at hil
  cases hil

/-- A cancelled pool stays cancelled and claims nothing. -/
theorem PoolMove.own_of_cancelled (hm : PoolMove c p a p') (hc : p.cancelled = true) :
    p'.cancelled = true ∧ p'.own = p.own := by
  cases hm with
  | claimed _ _ hno _ _ => rw [hc] at hno; cases hno
  | stop _ _ => exact ⟨rfl, rfl⟩
  | _ => exact ⟨hc, rfl⟩

/-- Once `done` is closed it stays so, and no goroutine takes a step. -/
theorem PoolInv.quiet (h : PoolInv c p) (hd : p.done = true) (hs : p.step c a = some p') :
    p'.done = true ∧ a.isOwn = false := by
  have hret : ∀ {k : Nat} {l : TickLoop}, p.loops[k]? = some l → l.pc = .returned :=
    fun hl => (h.closed hd).2 _ (List.mem_of_getElem? hl)
  cases Pool.step_move hs with
  | begin hl hpc _ => rw [hret hl] at hpc; cases hpc
  | tick hl hpc _ => rw [hret hl] at hpc; cases hpc
  | quit hl hpc _ => rw [hret hl] at hpc; cases hpc
  | claimed hl hpc _ _ _ => rw [hret hl] at hpc; cases hpc
  | noRow hl hpc _ _ => rw [hret hl] at hpc; cases hpc
  | dispatch hl hpc _ _ => rw [hret hl] at hpc; cases hpc
  | finished hl hpc _ => rw [hret hl] at hpc; cases hpc
  | check hl hpc => rw [hret hl] at hpc; cases hpc
  | close _ _ => exact ⟨rfl, rfl⟩
  | _ => exact ⟨hd, rfl⟩

/-- Whatever the goroutines, the database, the daemon and the others do: a run of the pool is
a run of the outbox; the dispatches under way are no more than the goroutines; after the
cancellation the pool claims no row; and after `OnStop` has returned `nil` no dispatch of the
pool is under way and no goroutine takes another step. -/
theorem pool_safe {tr : List PoolLabel} (hr : Run (Pool.step c) Pool.init tr p) :
    (∃ tr', Run (Outbox.step c.worker) Outbox.init tr' p.outbox) ∧
      p.inFlight.length ≤ c.size ∧
      (p.cancelled = true → ∀ tr' p', Run (Pool.step c) p tr' p' → p'.own = p.own) ∧
      (p.stop = .returned true → p.inFlight = [] ∧
        ∀ tr' p', Run (Pool.step c) p tr' p' → ∀ a ∈ tr', a.isOwn = false) := by
  have hI : PoolInv c p := Pool.poolInv hr
  refine ⟨Pool.refines_outbox hr, hI.inFlight_le, fun hc tr' p' hr' => ?_, fun hstop => ?_⟩
  · have hinv : p'.cancelled = true ∧ p'.own = p.own :=
      hr'.invariant (I := fun q => q.cancelled = true ∧ q.own = p.own) ⟨hc, rfl⟩
        fun q b q' hq _ hs => by
          obtain ⟨hc', hown⟩ := (Pool.step_move hs).own_of_cancelled hq.1
          exact ⟨hc', hown.trans hq.2⟩
    exact hinv.2
  · have hd : p.done = true := hI.stopped hstop
    refine ⟨hI.inFlight_nil hd, fun tr' p' hr' => ?_⟩
    have hquiet : PoolInv c p' ∧ p'.done = true ∧ ∀ a ∈ tr', a.isOwn = false := by
      induction hr' with
      | nil => exact ⟨hI, hd, nofun⟩
      | @snoc tr' q q' b _ _ hs ih =>
          obtain ⟨hq, hqd, hall⟩ := ih
          obtain ⟨hqd', hb⟩ := hq.quiet hqd hs
          refine ⟨hq.step hs, hqd', fun a ha => ?_⟩
          rcases List.mem_append.mp ha with ha | ha
          · exact hall a ha
          · rw [List.mem_singleton.mp ha]
            exact hb
    exact hquiet.2.2

/-- The settings of `var/conf/install.yml`, with two goroutines. -/
def twoWorkers : PoolConfig := ⟨defaultConfig, 1000000000, 2⟩

/-- A goroutine claims a row, and `OnStop` comes while it is downloading. -/
def stopMidway : List PoolLabel :=
  [.start, .begin 0 0, .begin 1 250000000, .other (.insert "m-1" plainParams),
    .other (.advance 1000000000), .tick 0, .claim 0 [] .committed, .dispatch 0 .start, .stop]

/-- The download fails, the mark does not reach the database, and all goroutines return. -/
def drainMidway : List PoolLabel :=
  [.dispatch 0 (.downloaded (.error "context canceled")), .dispatch 0 (.markFailed 0 .committed),
    .finished 0, .claim 0 [] .committed, .quit 0, .quit 1, .close, .drained]

/-- One row was claimed, and its dispatch is over when `OnStop` has returned. -/
theorem stopMidway_safe :
    ∃ p, Run (Pool.step twoWorkers) Pool.init (stopMidway ++ drainMidway) p ∧
      p.stop = .returned true ∧ p.own = [0] ∧ p.inFlight = [] ∧
      ∀ tr' p', Run (Pool.step twoWorkers) p tr' p' → p'.own = p.own := by
  have hr := run_get (show (exec (Pool.step twoWorkers) Pool.init
    (stopMidway ++ drainMidway)).isSome = true by decide +kernel)
  exact ⟨_, hr, by decide +kernel, by decide +kernel,
    ((pool_safe hr).2.2.2 (by decide +kernel)).1, (pool_safe hr).2.2.1 (by decide +kernel)⟩

end Signalium
