import Mathlib.Tactic

/-!
# Runs of a labelled step function

A system is a partial step function `step : σ → α → Option σ`.  A label `α`
carries every choice the environment makes, so `step` is a function, and
`none` says the label is not enabled.  `exec` folds `step` along a trace.

`RunOf step ok s₀ tr s` is a run from `s₀` to `s` along the trace `tr` in which
every step meets `ok`, a condition on the state before the step and the label.
`Run` is the case without a condition.  Traces grow at their right end, so an
induction on a run sees the last step and the history before it.

Three rules are used over and over: an invariant kept by the steps that meet
the condition (`RunOf.invariant`), a run cut at a point of its trace
(`RunOf.split`), and the exact form of a conditional invariant
(`RunOf.always_iff_kept`, `RunOf.always_iff`), where the property fails right
after the first step that does not meet the condition, or can be made to fail by
the steps of one party (`RunOf.always_continued_iff`).  A property of the steps
themselves has its exact form in `RunOf.everyStep_iff`, or as a property of the state at
the end (`RunOf.last_iff_everyStep`, and `RunOf.someStep_of_last` for the step that brings
it about).  What the steps add up to is bounded by a potential
(`RunOf.total_le`).  A run of one system is a run of another one where each of its steps is
(`RunOf.refines`).
-/

namespace Runs

universe u v

variable {σ : Type u} {α : Type v}

/-- The state after a trace, if every label of it is enabled. -/
def exec (step : σ → α → Option σ) : σ → List α → Option σ
  | s, [] => some s
  | s, a :: tr => (step s a).bind fun s' => exec step s' tr
termination_by structural _ tr => tr

/-- A run in which every step meets `ok`. -/
inductive RunOf (step : σ → α → Option σ) (ok : σ → α → Prop) (s₀ : σ) : List α → σ → Prop where
  | nil : RunOf step ok s₀ [] s₀
  | snoc {tr : List α} {s s' : σ} {a : α} :
      RunOf step ok s₀ tr s → ok s a → step s a = some s' → RunOf step ok s₀ (tr ++ [a]) s'

/-- A run without a condition on its steps. -/
abbrev Run (step : σ → α → Option σ) (s₀ : σ) : List α → σ → Prop :=
  RunOf step (fun _ _ => True) s₀

variable {step : σ → α → Option σ} {ok ok' : σ → α → Prop} {s₀ s s' : σ} {a : α}
  {tr tr₁ tr₂ : List α}

/-! ## Basic laws -/

theorem RunOf.mono (h : RunOf step ok s₀ tr s) (hok : ∀ s a, ok s a → ok' s a) :
    RunOf step ok' s₀ tr s := by
  induction h with
  | nil => exact .nil
  | snoc _ ha hs ih => exact .snoc ih (hok _ _ ha) hs

theorem RunOf.run (h : RunOf step ok s₀ tr s) : Run step s₀ tr s :=
  h.mono fun _ _ _ => trivial

theorem RunOf.nil_inv (h : RunOf step ok s₀ [] s) : s = s₀ := by
  generalize htr : ([] : List α) = t at h
  cases h with
  | nil => rfl
  | snoc _ _ _ => simp at htr

theorem RunOf.snoc_inv (h : RunOf step ok s₀ (tr ++ [a]) s') :
    ∃ s, RunOf step ok s₀ tr s ∧ ok s a ∧ step s a = some s' := by
  generalize htr : tr ++ [a] = t at h
  cases h with
  | nil => simp at htr
  | snoc hr ha hs =>
      obtain ⟨rfl, hab⟩ := List.append_inj' htr rfl
      cases hab
      exact ⟨_, hr, ha, hs⟩

/-- The labels determine the run. -/
theorem RunOf.state_unique (h : RunOf step ok s₀ tr s) :
    ∀ {t : σ}, RunOf step ok' s₀ tr t → s = t := by
  induction h with
  | nil => intro t ht; exact ht.nil_inv.symm
  | snoc _ _ hs ih =>
      intro t ht
      obtain ⟨m, hm, _, hst⟩ := ht.snoc_inv
      cases ih hm
      rw [hs] at hst
      exact Option.some.inj hst

/-- A run meets two conditions at once. -/
theorem RunOf.and (h : RunOf step ok s₀ tr s) :
    RunOf step ok' s₀ tr s → RunOf step (fun s a => ok s a ∧ ok' s a) s₀ tr s := by
  induction h with
  | nil => exact fun _ => .nil
  | snoc hr ha hs ih =>
      intro h'
      obtain ⟨m, hm, ha', _⟩ := h'.snoc_inv
      cases hm.state_unique hr
      exact .snoc (ih hm) ⟨ha, ha'⟩ hs

theorem RunOf.trans {m : σ} (h₁ : RunOf step ok s₀ tr₁ m) (h₂ : RunOf step ok m tr₂ s) :
    RunOf step ok s₀ (tr₁ ++ tr₂) s := by
  induction h₂ with
  | nil => rw [List.append_nil]; exact h₁
  | snoc _ ha hs ih => rw [← List.append_assoc]; exact .snoc ih ha hs

/-- A run cut at a point of its trace. -/
theorem RunOf.split (h : RunOf step ok s₀ tr s) :
    ∀ {tr₁ tr₂ : List α}, tr = tr₁ ++ tr₂ →
      ∃ m, RunOf step ok s₀ tr₁ m ∧ RunOf step ok m tr₂ s := by
  induction h with
  | nil =>
      intro tr₁ tr₂ he
      obtain ⟨rfl, rfl⟩ := List.append_eq_nil_iff.mp he.symm
      exact ⟨s₀, .nil, .nil⟩
  | @snoc tr s s' a hr ha hs ih =>
      intro tr₁ tr₂ he
      rcases List.eq_nil_or_concat tr₂ with rfl | ⟨tr₂', b, rfl⟩
      · rw [List.append_nil] at he
        subst he
        exact ⟨s', .snoc hr ha hs, .nil⟩
      · rw [List.concat_eq_append, ← List.append_assoc] at he
        obtain ⟨he', hb⟩ := List.append_inj' he rfl
        cases hb
        obtain ⟨m, hm₁, hm₂⟩ := ih he'
        exact ⟨m, hm₁, List.concat_eq_append ▸ .snoc hm₂ ha hs⟩

/-- The step a run takes at a label of its trace. -/
theorem RunOf.step_at (h : RunOf step ok s₀ (tr₁ ++ a :: tr₂) s) :
    ∃ m m', RunOf step ok s₀ tr₁ m ∧ ok m a ∧ step m a = some m' ∧
      RunOf step ok s₀ (tr₁ ++ [a]) m' := by
  obtain ⟨m', h₁, _⟩ := h.split (show tr₁ ++ a :: tr₂ = (tr₁ ++ [a]) ++ tr₂ by simp)
  obtain ⟨m, hm, ha, hs⟩ := h₁.snoc_inv
  exact ⟨m, m', hm, ha, hs, h₁⟩

/-! ## Evaluating runs -/

theorem exec_append (step : σ → α → Option σ) (tr₂ : List α) :
    ∀ (tr₁ : List α) (s : σ),
      exec step s (tr₁ ++ tr₂) = (exec step s tr₁).bind fun m => exec step m tr₂
  | [], s => by simp [exec]
  | a :: tr₁, s => by
      cases hs : step s a with
      | none => simp [exec, hs]
      | some m => simpa [exec, hs] using exec_append step tr₂ tr₁ m

/-- A trace that evaluates is a run. -/
theorem run_of_exec : ∀ {tr : List α} {s₀ s : σ}, exec step s₀ tr = some s → Run step s₀ tr s := by
  intro tr
  induction tr using List.reverseRecOn with
  | nil => intro s₀ s h; cases h; exact .nil
  | append_singleton tr a ih =>
      intro s₀ s h
      rw [exec_append, Option.bind_eq_some_iff] at h
      obtain ⟨m, hm, hs⟩ := h
      cases hma : step m a with
      | none => simp [exec, hma] at hs
      | some m' =>
          simp only [exec, hma, Option.bind_some, Option.some.injEq] at hs
          subst hs
          exact .snoc (ih hm) trivial hma

/-- A trace that evaluates is a run to the state it evaluates to. -/
theorem run_get (h : (exec step s₀ tr).isSome = true) :
    Run step s₀ tr ((exec step s₀ tr).get h) :=
  run_of_exec (Option.some_get h).symm

theorem exec_of_run (h : RunOf step ok s₀ tr s) : exec step s₀ tr = some s := by
  induction h with
  | nil => rfl
  | snoc _ _ hs ih => rw [exec_append, ih]; simp [exec, hs]

/-- `exec` with the condition checked at every step. -/
def execOf (step : σ → α → Option σ) (ok : σ → α → Prop) [∀ s a, Decidable (ok s a)] :
    σ → List α → Option σ :=
  exec fun s a => if ok s a then step s a else none

/-- A trace that evaluates with every condition checked is a conditional run. -/
theorem runOf_of_execOf [∀ s a, Decidable (ok s a)] (h : execOf step ok s₀ tr = some s) :
    RunOf step ok s₀ tr s := by
  have hr := run_of_exec h
  clear h
  induction hr with
  | nil => exact .nil
  | @snoc tr s s' a _ _ hs ih =>
      by_cases ha : ok s a
      · rw [if_pos ha] at hs
        exact .snoc ih ha hs
      · rw [if_neg ha] at hs
        cases hs

/-! ## Invariants -/

/-- A property kept by the steps that meet the condition holds after the run. -/
theorem RunOf.invariant {I : σ → Prop} (h : RunOf step ok s₀ tr s) (h₀ : I s₀)
    (hstep : ∀ s a s', I s → ok s a → step s a = some s' → I s') : I s := by
  induction h with
  | nil => exact h₀
  | snoc _ ha hs ih => exact hstep _ _ _ ih ha hs

/-- A condition on the steps that follows from another one and an invariant. -/
theorem RunOf.mono_of_invariant {I : σ → Prop} (h : RunOf step ok s₀ tr s) (h₀ : I s₀)
    (hstep : ∀ s a s', I s → ok s a → step s a = some s' → I s')
    (hok : ∀ s a, I s → ok s a → ok' s a) : RunOf step ok' s₀ tr s := by
  induction h with
  | nil => exact .nil
  | snoc hr ha hs ih => exact .snoc ih (hok _ _ (hr.invariant h₀ hstep) ha) hs

/-- Refinement: where each step is a run of another system under `f`, so is a whole run. -/
theorem RunOf.refines {τ : Type u} {β : Type v} {step' : τ → β → Option τ} {ok' : τ → β → Prop}
    {f : σ → τ} {I : σ → Prop} (h : RunOf step ok s₀ tr s) (h₀ : I s₀)
    (hstep : ∀ s a s', I s → ok s a → step s a = some s' →
      I s' ∧ ∃ tr', RunOf step' ok' (f s) tr' (f s')) :
    ∃ tr', RunOf step' ok' (f s₀) tr' (f s) := by
  have hI : I s ∧ ∃ tr', RunOf step' ok' (f s₀) tr' (f s) := by
    induction h with
    | nil => exact ⟨h₀, [], .nil⟩
    | snoc _ ha hs ih =>
        obtain ⟨hI, tr₁, h₁⟩ := ih
        obtain ⟨hI', tr₂, h₂⟩ := hstep _ _ _ hI ha hs
        exact ⟨hI', tr₁ ++ tr₂, h₁.trans h₂⟩
  exact hI.2

/-- `P` holds in every state the run along `tr` visits. -/
def Always (step : σ → α → Option σ) (s₀ : σ) (tr : List α) (P : σ → Prop) : Prop :=
  ∀ tr₁ tr₂ s, tr = tr₁ ++ tr₂ → Run step s₀ tr₁ s → P s

theorem Always.left {P : σ → Prop} (h : Always step s₀ (tr₁ ++ tr₂) P) : Always step s₀ tr₁ P :=
  fun t₁ t₂ s he hr => h t₁ (t₂ ++ tr₂) s (by rw [he, List.append_assoc]) hr

theorem Always.last {P : σ → Prop} (h : Always step s₀ tr P) (hr : Run step s₀ tr s) : P s :=
  h tr [] s (by simp) hr

theorem Always.snoc {P : σ → Prop} (h : Always step s₀ tr P) (hr : Run step s₀ (tr ++ [a]) s)
    (hP : P s) : Always step s₀ (tr ++ [a]) P := by
  intro t₁ t₂ m he hm
  rcases List.eq_nil_or_concat t₂ with rfl | ⟨t₂', b, rfl⟩
  · rw [List.append_nil] at he
    subst he
    exact hm.state_unique hr ▸ hP
  · rw [List.concat_eq_append, ← List.append_assoc] at he
    obtain ⟨he', _⟩ := List.append_inj' he rfl
    exact h t₁ t₂' m he' hm

theorem always_nil {P : σ → Prop} (hP : P s₀) : Always step s₀ [] P := by
  intro t₁ t₂ m he hm
  obtain ⟨rfl, _⟩ := List.append_eq_nil_iff.mp he.symm
  rw [hm.nil_inv]
  exact hP

/-- What holds all along is a condition on the steps. -/
theorem Always.runOf {P : σ → Prop} (h : Always step s₀ tr P) (hr : RunOf step ok s₀ tr s) :
    RunOf step (fun s _ => P s) s₀ tr s := by
  induction hr with
  | nil => exact .nil
  | snoc hr _ hs ih => exact .snoc (ih h.left) (h.left.last hr.run) hs

/-- What follows from an invariant holds all along. -/
theorem RunOf.always {I P : σ → Prop} (h : RunOf step ok s₀ tr s) (h₀ : I s₀)
    (hstep : ∀ s a s', I s → ok s a → step s a = some s' → I s') (hP : ∀ s, I s → P s) :
    Always step s₀ tr P := by
  intro tr₁ tr₂ m he hm
  obtain ⟨m', hm', _⟩ := h.split he
  cases hm'.state_unique hm
  exact hP m (hm'.invariant h₀ hstep)

/-- A property that a step cannot establish holds all along when it holds at the
end. -/
theorem RunOf.always_of_last {P : σ → Prop} (h : RunOf step ok s₀ tr s) (hP : P s)
    (hback : ∀ s a s', ok s a → step s a = some s' → P s' → P s) : Always step s₀ tr P := by
  induction h with
  | nil => exact always_nil hP
  | snoc hr ha hs ih => exact (ih (hback _ _ _ ha hs hP)).snoc (.snoc hr.run trivial hs) hP

/-- The exact form of a conditional invariant.  The runs are those whose steps
meet `pre`.  `K` is an invariant of the steps that meet `ok`, it gives `P`, and
after a step from `K` that does not meet `ok` the property `P` fails.  Then `P`
holds along a run exactly when all its steps meet `ok`. -/
theorem RunOf.always_iff_kept {pre : σ → α → Prop} {P K : σ → Prop}
    (hr : RunOf step pre s₀ tr s) (hK₀ : K s₀) (hKP : ∀ s, K s → P s)
    (hK : ∀ s a s', K s → pre s a → step s a = some s' → ok s a → K s')
    (hP : ∀ s a s', K s → pre s a → step s a = some s' → P s' → ok s a) :
    Always step s₀ tr P ↔ RunOf step ok s₀ tr s := by
  have hkept : ∀ {tr s}, RunOf step pre s₀ tr s → RunOf step ok s₀ tr s → K s := by
    intro tr s hr
    induction hr with
    | nil => exact fun _ => hK₀
    | @snoc tr s s' a hr hpre hs ih =>
        intro hok
        obtain ⟨m, hm, ha, _⟩ := hok.snoc_inv
        cases hm.state_unique hr
        exact hK s a s' (ih hm) hpre hs ha
  induction hr with
  | nil => exact ⟨fun _ => .nil, fun _ => always_nil (hKP s₀ hK₀)⟩
  | @snoc tr s s' a hr hpre hs ih =>
      constructor
      · intro hA
        have hok := ih.mp hA.left
        exact .snoc hok (hP s a s' (hkept hr hok) hpre hs (hA.last (.snoc hr.run trivial hs))) hs
      · intro hok
        obtain ⟨m, hm, _, _⟩ := hok.snoc_inv
        cases hm.state_unique hr
        exact (ih.mpr hm).snoc (.snoc hr.run trivial hs) (hKP s' (hkept (.snoc hr hpre hs) hok))

/-- The form where `P` itself is kept, together with an invariant `J` of all the
runs: where both hold before a step, `P` holds after it exactly when the step
meets `ok`. -/
theorem RunOf.always_iff {pre : σ → α → Prop} {P J : σ → Prop} (hr : RunOf step pre s₀ tr s)
    (hP₀ : P s₀) (hJ₀ : J s₀)
    (hJ : ∀ s a s', J s → pre s a → step s a = some s' → J s')
    (hP : ∀ s a s', J s → P s → pre s a → step s a = some s' → (P s' ↔ ok s a)) :
    Always step s₀ tr P ↔ RunOf step ok s₀ tr s :=
  hr.always_iff_kept (K := fun s => P s ∧ J s) ⟨hP₀, hJ₀⟩ (fun _ h => h.1)
    (fun s a s' h hpre hs hok => ⟨(hP s a s' h.2 h.1 hpre hs).mpr hok, hJ s a s' h.2 hpre hs⟩)
    fun s a s' h hpre hs hP' => (hP s a s' h.2 h.1 hpre hs).mp hP'

/-- The form for the state at the end, where `P` once broken stays broken. -/
theorem RunOf.last_iff {pre : σ → α → Prop} {P J : σ → Prop} (hr : RunOf step pre s₀ tr s)
    (hP₀ : P s₀) (hJ₀ : J s₀)
    (hJ : ∀ s a s', J s → pre s a → step s a = some s' → J s')
    (hback : ∀ s a s', J s → pre s a → step s a = some s' → P s' → P s)
    (hP : ∀ s a s', J s → P s → pre s a → step s a = some s' → (P s' ↔ ok s a)) :
    P s ↔ RunOf step ok s₀ tr s := by
  rw [← hr.always_iff hP₀ hJ₀ hJ hP]
  have hrJ : RunOf step (fun s a => J s ∧ pre s a) s₀ tr s :=
    hr.mono_of_invariant hJ₀ hJ fun _ _ hj ha => ⟨hj, ha⟩
  exact ⟨fun h => hrJ.always_of_last h fun s a s' ha hs h' => hback s a s' ha.1 ha.2 hs h',
    fun h => h.last hr.run⟩

/-- The exact form for continuations.  `P` is to hold in every state that steps of
one party, those that meet `sub`, can lead to from here.  `K` is what this comes
to before they are taken: it gives `P`, those steps keep it, and it follows from
`P` after them.  Any step of the run keeps `K` exactly when it meets `ok`. -/
theorem RunOf.always_continued_iff {pre sub : σ → α → Prop} {P J K : σ → Prop}
    (hr : RunOf step pre s₀ tr s) (hJ₀ : J s₀) (hK₀ : K s₀)
    (hJ : ∀ s a s', J s → pre s a → step s a = some s' → J s')
    (hpre : ∀ s a, sub s a → pre s a)
    (hKP : ∀ s, J s → K s → P s)
    (hsub : ∀ s a s', J s → K s → sub s a → step s a = some s' → K s')
    (hPK : ∀ s, J s → (∀ tr s', RunOf step sub s tr s' → P s') → K s)
    (hiff : ∀ s a s', J s → K s → pre s a → step s a = some s' → (K s' ↔ ok s a)) :
    Always step s₀ tr (fun s => ∀ tr s', RunOf step sub s tr s' → P s') ↔
      RunOf step ok s₀ tr s := by
  have hcont : ∀ s, J s → K s → ∀ tr s', RunOf step sub s tr s' → P s' := by
    intro s hj hk tr s' hrun
    have hinv : J s' ∧ K s' :=
      hrun.invariant (I := fun s => J s ∧ K s) ⟨hj, hk⟩ fun s a s' h ha hs =>
        ⟨hJ s a s' h.1 (hpre s a ha) hs, hsub s a s' h.1 h.2 ha hs⟩
    exact hKP s' hinv.1 hinv.2
  refine hr.always_iff (hcont s₀ hJ₀ hK₀) hJ₀ hJ ?_
  intro s a s' hj hsafe hp hs
  have hj' := hJ s a s' hj hp hs
  rw [← hiff s a s' hj (hPK s hj hsafe) hp hs]
  exact ⟨hPK s' hj', hcont s' hj'⟩

/-! ## Properties of the steps -/

/-- `Q` holds of every step the run along `tr` takes. -/
def EveryStep (step : σ → α → Option σ) (s₀ : σ) (tr : List α) (Q : σ → α → σ → Prop) : Prop :=
  ∀ tr₁ a tr₂ s s', tr = tr₁ ++ a :: tr₂ → Run step s₀ tr₁ s → step s a = some s' → Q s a s'

theorem EveryStep.left {Q : σ → α → σ → Prop} (h : EveryStep step s₀ (tr₁ ++ tr₂) Q) :
    EveryStep step s₀ tr₁ Q :=
  fun t₁ a t₂ s s' he hr hs => h t₁ a (t₂ ++ tr₂) s s' (by rw [he]; simp) hr hs

/-- The exact form of a property of the steps, where it holds of a step from `J`,
an invariant of the runs, exactly when the step meets `ok`. -/
theorem RunOf.everyStep_iff {pre : σ → α → Prop} {J : σ → Prop} {Q : σ → α → σ → Prop}
    (hr : RunOf step pre s₀ tr s) (hJ₀ : J s₀)
    (hJ : ∀ s a s', J s → pre s a → step s a = some s' → J s')
    (hQ : ∀ s a s', J s → pre s a → step s a = some s' → (Q s a s' ↔ ok s a)) :
    EveryStep step s₀ tr Q ↔ RunOf step ok s₀ tr s := by
  induction hr with
  | nil =>
      refine ⟨fun _ => .nil, fun _ t₁ a t₂ _ _ he => ?_⟩
      cases t₁ <;> cases he
  | @snoc tr s s' a hr hpre hs ih =>
      have hJs : J s := hr.invariant hJ₀ hJ
      constructor
      · intro hE
        exact .snoc (ih.mp hE.left)
          ((hQ s a s' hJs hpre hs).mp (hE tr a [] s s' rfl hr.run hs)) hs
      · intro hok t₁ b t₂ m m' he hm hms
        obtain ⟨n, hn, ha, _⟩ := hok.snoc_inv
        cases hn.state_unique hr
        rcases List.eq_nil_or_concat t₂ with rfl | ⟨t₂', c, rfl⟩
        · obtain ⟨rfl, hab⟩ := List.append_inj' he rfl
          cases hab
          cases hm.state_unique hr
          exact (hQ _ _ _ hJs hpre hms).mpr ha
        · rw [List.concat_eq_append, ← List.cons_append, ← List.append_assoc] at he
          obtain ⟨he', _⟩ := List.append_inj' he rfl
          exact ih.mpr hn t₁ b t₂' m m' he' hm hms

/-- A property of the state at the end that is one of the steps before it: once broken it
stays broken, and where it holds it holds after a step exactly when the step has `Q`. -/
theorem RunOf.last_iff_everyStep {pre : σ → α → Prop} {P : σ → Prop} {Q : σ → α → σ → Prop}
    (hr : RunOf step pre s₀ tr s) (hP₀ : P s₀)
    (hback : ∀ s a s', step s a = some s' → P s' → P s)
    (hQ : ∀ s a s', P s → pre s a → step s a = some s' → (P s' ↔ Q s a s')) :
    P s ↔ EveryStep step s₀ tr Q := by
  have hnext : ∀ s a s', step s a = some s' →
      (Q s a s' ↔ ∀ s'', step s a = some s'' → Q s a s'') := by
    intro s a s' hs
    refine ⟨fun h s'' hs'' => ?_, fun h => h s' hs⟩
    cases hs.symm.trans hs''
    exact h
  rw [hr.everyStep_iff (J := fun _ => True) trivial (fun _ _ _ _ _ _ => trivial)
    fun s a s' _ _ hs => hnext s a s' hs]
  exact hr.last_iff (J := fun _ => True) hP₀ trivial (fun _ _ _ _ _ _ => trivial)
    (fun s a s' _ _ hs => hback s a s' hs)
    fun s a s' _ h hpre hs => (hQ s a s' h hpre hs).trans (hnext s a s' hs)

/-- `Q` holds of some step the run along `tr` takes, of its label and the state before it. -/
def SomeStep (step : σ → α → Option σ) (s₀ : σ) (tr : List α) (Q : σ → α → Prop) : Prop :=
  ∃ tr₁ a tr₂ s, tr = tr₁ ++ a :: tr₂ ∧ Run step s₀ tr₁ s ∧ Q s a

theorem SomeStep.left {Q : σ → α → Prop} (h : SomeStep step s₀ tr₁ Q) :
    SomeStep step s₀ (tr₁ ++ tr₂) Q := by
  obtain ⟨t₁, a, t₂, s, rfl, hr, hQ⟩ := h
  exact ⟨t₁, a, t₂ ++ tr₂, s, by simp, hr, hQ⟩

/-- What holds at the end and not at the beginning was brought about by a step. -/
theorem RunOf.someStep_of_last {P : σ → Prop} {Q : σ → α → Prop} (h : RunOf step ok s₀ tr s)
    (h₀ : ¬ P s₀)
    (hQ : ∀ s a s', ¬ P s → ok s a → step s a = some s' → P s' → Q s a) (hP : P s) :
    SomeStep step s₀ tr Q := by
  induction h with
  | nil => exact absurd hP h₀
  | @snoc tr s s' a hr ha hs ih =>
      by_cases hPs : P s
      · exact (ih hPs).left
      · exact ⟨tr, a, [], s, rfl, hr.run, hQ s a s' hPs ha hs hP⟩

/-- What a step brings about, and no step takes away, holds at the end. -/
theorem RunOf.last_of_someStep {P : σ → Prop} {Q : σ → α → Prop} (h : RunOf step ok s₀ tr s)
    (hstays : ∀ s a s', P s → ok s a → step s a = some s' → P s')
    (hQ : ∀ s a s', Q s a → ok s a → step s a = some s' → P s')
    (hsome : SomeStep step s₀ tr Q) : P s := by
  obtain ⟨tr₁, a, tr₂, m, rfl, hm, hqa⟩ := hsome
  obtain ⟨m', h₁, h₂⟩ := h.split (show tr₁ ++ a :: tr₂ = (tr₁ ++ [a]) ++ tr₂ by simp)
  obtain ⟨n, hn, ha, hs⟩ := h₁.snoc_inv
  cases hn.state_unique hm
  exact h₂.invariant (hQ _ a m' hqa ha hs) hstays

/-! ## Totals

A weight on the steps, summed up along a run.  It is bounded by a potential that every
step lowers by its weight or raises by a gain that is summed up as well. -/

/-- The sum of the weights of the steps along a trace. -/
def total (step : σ → α → Option σ) (w : σ → α → Nat) : σ → List α → Nat
  | _, [] => 0
  | s, a :: tr => w s a + (step s a).elim 0 fun s' => total step w s' tr
termination_by structural _ tr => tr

theorem total_append {m : σ} (w : σ → α → Nat) (tr₂ : List α) :
    ∀ {tr₁ : List α} {s₀ : σ}, exec step s₀ tr₁ = some m →
      total step w s₀ (tr₁ ++ tr₂) = total step w s₀ tr₁ + total step w m tr₂
  | [], s₀, h => by
      cases h
      simp [total]
  | a :: tr₁, s₀, h => by
      cases hs : step s₀ a with
      | none => simp [exec, hs] at h
      | some s₁ =>
          simp only [exec, hs, Option.bind_some] at h
          simp only [List.cons_append, total, hs, Option.elim_some, total_append w tr₂ h]
          omega

theorem total_add (w w' : σ → α → Nat) :
    ∀ (tr : List α) (s₀ : σ),
      total step (fun s a => w s a + w' s a) s₀ tr = total step w s₀ tr + total step w' s₀ tr
  | [], s₀ => by simp [total]
  | a :: tr, s₀ => by
      cases hs : step s₀ a with
      | none => simp [total, hs]
      | some s₁ =>
          simp only [total, hs, Option.elim_some, total_add w w' tr s₁]
          omega

theorem RunOf.total_snoc (h : RunOf step ok s₀ tr s) (w : σ → α → Nat) (a : α) :
    total step w s₀ (tr ++ [a]) = total step w s₀ tr + w s a := by
  rw [total_append w [a] (exec_of_run h)]
  cases hs : step s a <;> simp [total, hs]

/-- A potential that every step lowers by its weight, up to what the step gains, bounds the
total. -/
theorem RunOf.total_le {w gain : σ → α → Nat} {V : σ → Nat} (h : RunOf step ok s₀ tr s)
    (hstep : ∀ s a s', ok s a → step s a = some s' → w s a + V s' ≤ V s + gain s a) :
    total step w s₀ tr + V s ≤ V s₀ + total step gain s₀ tr := by
  induction h with
  | nil => simp [total]
  | @snoc tr s s' a hr ha hs ih =>
      have hlast := hstep s a s' ha hs
      rw [hr.total_snoc w a, hr.total_snoc gain a]
      omega

/-- A quantity that every step raises by at least its weight bounds the total. -/
theorem RunOf.total_le_growth {w : σ → α → Nat} {V : σ → Nat} (h : RunOf step ok s₀ tr s)
    (hstep : ∀ s a s', ok s a → step s a = some s' → w s a + V s ≤ V s') :
    total step w s₀ tr + V s₀ ≤ V s := by
  induction h with
  | nil => simp [total]
  | @snoc tr s s' a hr ha hs ih =>
      have hlast := hstep s a s' ha hs
      rw [hr.total_snoc w a]
      omega

end Runs
