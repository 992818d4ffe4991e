import Signalium.Lib.Runs
import Signalium.Repo.Schedulable

/-!
# How often a row is claimed

`ClaimPending` counts an attempt, `MarkFailed` compares the count with the
limit.  A worker that dies between the two leaves its row `SENDING`, and the
next claim counts again without a comparison.

`claimsOf` counts the claims of a row along a run.  Between two `Resend`s the
column `attempts` is at least that count (`claimsOf_le_attempts`).  So the
limit holds of the column, and of the number of claims, exactly as long as no
`ClaimPending` takes a row that has used up its attempts
(`attempts_bounded_iff`).
-/

namespace Signalium

open Runs Tables

/-- No row has more attempts than its limit. -/
def AttemptsWithinMax (t : Messages) : Prop := ∀ r ∈ t, r.attempts ≤ r.maxAttempts

/-- The parameters of an `INSERT`. -/
def Stmt.inserts? : Stmt → Option InsertParams
  | .insert _ p => some p
  | _ => none

/-- Inserted rows have a limit of at least one attempt. -/
def InsertsPositive (_ : Messages) (a : Int × Stmt) : Prop :=
  ∀ p ∈ a.2.inserts?, 1 ≤ p.maxAttempts

instance (t : Messages) (a : Int × Stmt) : Decidable (InsertsPositive t a) :=
  inferInstanceAs (Decidable (∀ p ∈ a.2.inserts?, _))

/-- A claimed row still has an attempt left. -/
def ClaimsBelowMax (t : Messages) (a : Int × Stmt) : Prop :=
  ∀ c ∈ a.2.claims a.1 t, c.attempts < c.maxAttempts

instance (t : Messages) (a : Int × Stmt) : Decidable (ClaimsBelowMax t a) :=
  inferInstanceAs (Decidable (∀ c ∈ a.2.claims a.1 t, _))

/-- How often the row `id` is claimed along a trace. -/
def claimsOf (id : UUID) : Messages → List (Int × Stmt) → Nat
  | _, [] => 0
  | t, a :: tr =>
      (if (a.2.claims a.1 t).map (fun c => c.id) = some id then 1 else 0) +
        claimsOf id (a.2.run a.1 t) tr
termination_by structural _ tr => tr

/-! ## What a step does to the counter -/

theorem Stmt.claims_eq {now : Int} {st : Stmt} {t : Messages} {c : Row}
    (h : st.claims now t = some c) :
    ∃ lease locked, st = .claimPending lease locked ∧ t.claimCandidate now locked = some c := by
  cases st with
  | claimPending lease locked => exact ⟨lease, locked, rfl, h⟩
  | _ => cases h

theorem Stmt.claims_mem {now : Int} {st : Stmt} {t : Messages} {c : Row}
    (h : st.claims now t = some c) : c ∈ t := by
  obtain ⟨lease, locked, rfl, hc⟩ := Stmt.claims_eq h
  exact (Messages.claimCandidate_mem hc).1

/-- A claim adds one attempt to the row it takes. -/
theorem Stmt.effect_attempts_of_claim {now : Int} {st : Stmt} {t : Messages} {c : Row}
    (h : st.claims now t = some c) : (st.effect now t c).attempts = c.attempts + 1 := by
  obtain ⟨lease, locked, rfl, hc⟩ := Stmt.claims_eq h
  simp [Stmt.effect, hc, Row.claim]

/-- Any other step leaves the counter alone or, if it is a `Resend`, resets it. -/
theorem RowStep.attempts_eq {now : Int} {st : Stmt} {t : Messages} {r r' : Row}
    (h : RowStep now t st r r') (hc : st.claims now t ≠ some r) :
    r'.attempts = r.attempts ∨ r'.attempts = 0 ∧ st = .resend r.id := by
  cases h with
  | unchanged => exact Or.inl rfl
  | claimed hcand _ => exact absurd hcand hc
  | sent => exact Or.inl rfl
  | failed => exact Or.inl rfl
  | timedOut _ => exact Or.inl rfl
  | resent _ => exact Or.inr ⟨rfl, rfl⟩
  | updated _ => exact Or.inl rfl

/-- The counter counts the claims, as long as the row is not sent again. -/
theorem Stmt.effect_attempts {now : Int} {st : Stmt} {t : Messages} {r : Row} (hr : r ∈ t)
    (hst : st ≠ .resend r.id) :
    (st.effect now t r).attempts =
      r.attempts + if (st.claims now t).map (fun c => c.id) = some r.id then 1 else 0 := by
  by_cases hc : st.claims now t = some r
  · rw [Stmt.effect_attempts_of_claim hc, hc]
    simp
  · -- a claim of a row with this key would be a claim of this row
    have hne : (st.claims now t).map (fun c => c.id) ≠ some r.id := by
      intro he
      obtain ⟨c, hcl, hid⟩ := Option.map_eq_some_iff.mp he
      exact hc (t.row_unique (Stmt.claims_mem hcl) hr hid ▸ hcl)
    rw [if_neg hne, add_zero]
    rcases (st.effect_step now hr).attempts_eq hc with he | ⟨_, he⟩
    · exact he
    · exact absurd he hst

/-! ## The limit on the column -/

/-- Every limit is at least one, and no counter is negative. -/
def CountersSound (t : Messages) : Prop := ∀ r ∈ t, 1 ≤ r.maxAttempts ∧ 0 ≤ r.attempts

theorem countersSound_empty : CountersSound Messages.empty := by
  intro r hr
  cases hr

theorem CountersSound.step {t t' : Messages} {a : Int × Stmt} (h : CountersSound t)
    (ha : InsertsPositive t a) (hs : queueStep t a = some t') : CountersSound t' := by
  obtain ⟨rfl, _⟩ := queueStep_eq hs
  intro r' hr'
  rcases Stmt.mem_run.mp hr' with ⟨r, hr, rfl⟩ | ⟨id, p, hst, rfl, _⟩
  · have hstep := a.2.effect_step a.1 hr
    refine ⟨by rw [hstep.maxAttempts_eq]; exact (h r hr).1, ?_⟩
    by_cases hc : a.2.claims a.1 t = some r
    · have := (h r hr).2
      rw [Stmt.effect_attempts_of_claim hc]
      omega
    · rcases hstep.attempts_eq hc with he | ⟨he, _⟩
      · rw [he]; exact (h r hr).2
      · rw [he]
  · exact ⟨ha p (by rw [hst]; rfl), by simp [InsertParams.row]⟩

/-- The limit survives a step exactly when the step claims no row at its limit. -/
theorem AttemptsWithinMax.step_iff {t t' : Messages} {a : Int × Stmt} (hJ : CountersSound t)
    (h : AttemptsWithinMax t) (ha : InsertsPositive t a) (hs : queueStep t a = some t') :
    AttemptsWithinMax t' ↔ ClaimsBelowMax t a := by
  obtain ⟨rfl, _⟩ := queueStep_eq hs
  constructor
  · intro h' c hc
    rw [Option.mem_def] at hc
    have hct := Stmt.claims_mem hc
    have hle := h' _ (a.2.effect_mem a.1 hct)
    rw [Stmt.effect_attempts_of_claim hc, (a.2.effect_step a.1 hct).maxAttempts_eq] at hle
    omega
  · intro hok r' hr'
    rcases Stmt.mem_run.mp hr' with ⟨r, hr, rfl⟩ | ⟨id, p, hst, rfl, _⟩
    · have hstep := a.2.effect_step a.1 hr
      rw [hstep.maxAttempts_eq]
      by_cases hc : a.2.claims a.1 t = some r
      · have := hok r hc
        rw [Stmt.effect_attempts_of_claim hc]
        omega
      · rcases hstep.attempts_eq hc with he | ⟨he, _⟩
        · rw [he]; exact h r hr
        · have := (hJ r hr).1
          omega
    · have := ha p (by rw [hst]; rfl)
      simp only [InsertParams.row]
      omega

/-! ## The limit on the number of claims -/

theorem claimsOf_snoc (id : UUID) (a : Int × Stmt) :
    ∀ {tr : List (Int × Stmt)} {t m : Messages}, exec queueStep t tr = some m →
      claimsOf id t (tr ++ [a]) =
        claimsOf id t tr + if (a.2.claims a.1 m).map (fun c => c.id) = some id then 1 else 0
  | [], t, m, h => by
      cases h
      simp [claimsOf]
  | b :: tr, t, m, h => by
      cases hb : queueStep t b with
      | none => simp [exec, hb] at h
      | some t' =>
          simp only [exec, hb, Option.bind_some] at h
          obtain ⟨rfl, _⟩ := queueStep_eq hb
          simp only [List.cons_append, claimsOf, claimsOf_snoc id a h, Nat.add_assoc]

/-- The trace has no `Resend` of the row `id`. -/
def NotResent (id : UUID) (tr : List (Int × Stmt)) : Prop := ∀ a ∈ tr, a.2 ≠ .resend id

theorem NotResent.snoc {id : UUID} {tr : List (Int × Stmt)} {a : Int × Stmt} :
    NotResent id (tr ++ [a]) ↔ NotResent id tr ∧ a.2 ≠ .resend id := by
  simp only [NotResent, List.mem_append, List.mem_singleton, or_imp, forall_and, forall_eq]

/-- Since the last `Resend`, a row has counted every claim of it.  A row that is
not in the table has not been claimed. -/
theorem claimsOf_le_attempts {tr : List (Int × Stmt)} {t₀ t : Messages}
    (hr : Run queueStep t₀ tr t) (h₀ : ∀ r ∈ t₀, 0 ≤ r.attempts) :
    (∀ r ∈ t, NotResent r.id tr → (claimsOf r.id t₀ tr : Int) ≤ r.attempts) ∧
      ∀ id, (∀ r ∈ t, r.id ≠ id) → claimsOf id t₀ tr = 0 := by
  induction hr with
  | nil => exact ⟨fun r hr _ => by simpa [claimsOf] using h₀ r hr, fun _ _ => rfl⟩
  | @snoc tr t t' a hrun _ hs ih =>
      obtain ⟨ihle, ihzero⟩ := ih
      have hexec := exec_of_run hrun
      obtain ⟨rfl, _⟩ := queueStep_eq hs
      constructor
      · intro r' hr' hnr
        rw [NotResent.snoc] at hnr
        rw [claimsOf_snoc _ a hexec]
        rcases Stmt.mem_run.mp hr' with ⟨r, hr, rfl⟩ | ⟨id, p, hst, rfl, t'', hins⟩
        · rw [Stmt.effect_id _ _ hr] at hnr ⊢
          have hle := ihle r hr hnr.1
          rw [Stmt.effect_attempts hr hnr.2]
          push_cast
          omega
        · rw [hst]
          simp [Stmt.claims, InsertParams.row,
            ihzero id fun r hr => Messages.insert_fresh hins hr]
      · intro id hid
        have hold : ∀ r ∈ t, r.id ≠ id := fun r hr he =>
          hid _ (a.2.effect_mem a.1 hr) (by rw [Stmt.effect_id _ _ hr, he])
        have hne : (a.2.claims a.1 t).map (fun c => c.id) ≠ some id := by
          intro he
          obtain ⟨c, hcl, hcid⟩ := Option.map_eq_some_iff.mp he
          exact hold c (Stmt.claims_mem hcl) hcid
        rw [claimsOf_snoc _ a hexec, ihzero id hold, if_neg hne]

/-! ## The exact condition -/

/-- Between two `Resend`s, no row of the table is claimed more often than its
limit: `tr₂` is any part of the trace without a `Resend` of the row. -/
def ClaimsBounded (tr : List (Int × Stmt)) : Prop :=
  ∀ tr₁ tr₂ tr₃ t₁ t₂, tr = tr₁ ++ tr₂ ++ tr₃ → Run queueStep Messages.empty tr₁ t₁ →
    Run queueStep t₁ tr₂ t₂ → ∀ r ∈ t₂, NotResent r.id tr₂ →
      (claimsOf r.id t₁ tr₂ : Int) ≤ r.maxAttempts

/-- Where the column keeps within the limit, so does the number of claims. -/
theorem ClaimsBounded.of_always {tr : List (Int × Stmt)} {t : Messages}
    (hr : RunOf queueStep InsertsPositive Messages.empty tr t)
    (h : Always queueStep Messages.empty tr AttemptsWithinMax) : ClaimsBounded tr := by
  intro tr₁ tr₂ tr₃ t₁ t₂ he h₁ h₂ r hrt hnr
  rw [List.append_assoc] at he
  obtain ⟨m, hm, _⟩ := hr.split he
  cases hm.state_unique h₁
  have hJ : CountersSound t₁ := hm.invariant countersSound_empty fun _ _ _ hJ ha hs => hJ.step ha hs
  have hle := (claimsOf_le_attempts h₂ fun r hr => (hJ r hr).2).1 r hrt hnr
  have hlim := h (tr₁ ++ tr₂) tr₃ t₂ (by rw [he, List.append_assoc]) (h₁.trans h₂) r hrt
  omega

/-- Along any run of the queue from the empty table in which inserted rows allow
an attempt, the attempts of every row stay within its limit, and so does the
number of its claims between two `Resend`s, exactly when no `ClaimPending` takes
a row that has no attempt left. -/
theorem attempts_bounded_iff {tr : List (Int × Stmt)} {t : Messages}
    (hr : RunOf queueStep InsertsPositive Messages.empty tr t) :
    Always queueStep Messages.empty tr AttemptsWithinMax ∧ ClaimsBounded tr ↔
      RunOf queueStep ClaimsBelowMax Messages.empty tr t := by
  have hiff : Always queueStep Messages.empty tr AttemptsWithinMax ↔
      RunOf queueStep ClaimsBelowMax Messages.empty tr t := by
    refine hr.always_iff ?_ countersSound_empty (fun _ _ _ hJ ha hs => hJ.step ha hs)
      fun _ _ _ hJ h ha hs => h.step_iff hJ ha hs
    intro r hr
    cases hr
  exact ⟨fun h => hiff.mp h.1, fun h => ⟨hiff.mpr h, .of_always hr (hiff.mpr h)⟩⟩

/-- A message that may be tried once. -/
def singleAttempt : InsertParams := { plainParams with maxAttempts := 1 }

/-- The one attempt fails, and the row is given up. -/
def givenUpTrace : List (Int × Stmt) :=
  [(0, .insert "m-1" singleAttempt), (1000, .claimPending 300000000000 []),
    (2000, .markFailed "m-1" "signal-cli: tcp disconnected" 5000002000),
    (6000000000, .claimPending 300000000000 [])]

/-- A message given up at its limit kept within it. -/
theorem given_up_attempts_bounded :
    Always queueStep Messages.empty givenUpTrace AttemptsWithinMax ∧ ClaimsBounded givenUpTrace :=
  (attempts_bounded_iff (runOf_of_execOf rfl)).mpr (runOf_of_execOf rfl)

/-- The worker that claimed the row dies, the lease of five minutes expires, and
the row is claimed again. -/
def crashedTrace : List (Int × Stmt) :=
  [(0, .insert "m-1" singleAttempt), (1000, .claimPending 300000000000 []),
    (300000002000, .claimPending 300000000000 [])]

/-- A message that kills its worker is claimed twice although its limit is one
attempt. -/
theorem crashed_attempts_exceed : ∃ t,
    RunOf queueStep InsertsPositive Messages.empty crashedTrace t ∧ ¬ AttemptsWithinMax t ∧
      claimsOf "m-1" Messages.empty crashedTrace = 2 := by
  refine ⟨_, runOf_of_execOf rfl, ?_, rfl⟩
  unfold AttemptsWithinMax
  decide

end Signalium
