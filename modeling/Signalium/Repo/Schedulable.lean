import Signalium.Lib.Runs
import Signalium.Repo.Transitions

/-!
# Which rows the workers can still pick up

A row is schedulable when, left alone, it meets the `WHERE` clause of
`ClaimPending` at every instant from some time on.  Without a deadline that is
a matter of the status alone: `PENDING` and `SENDING` rows are, whatever their
`next_attempt_at`, and no other row is (`Row.schedulable_iff`).  `FAILED` is
not among them.

`MarkFailed` below the attempt limit is the only statement that writes
`FAILED`, and `next_attempt_at` with it, as if a later claim would read it.  So
a queue strands no live row without a deadline exactly as long as no attempt
fails below the limit (`none_stranded_iff`).
-/

namespace Signalium

open Runs Tables

/-- The row meets the claim filter at every instant after some time. -/
def Row.Schedulable (r : Row) : Prop := ∃ T : Int, ∀ now, T < now → r.Claimable now

/-- Every live row that is not terminal and has no deadline is schedulable. -/
def NoneStranded (t : Messages) : Prop :=
  ∀ r ∈ t, r.deletedAt = none → r.status.isTerminal = false → r.timeoutAt = none → r.Schedulable

theorem Row.schedulable_iff {r : Row} :
    r.Schedulable ↔
      r.deletedAt = none ∧ (r.status = .pending ∨ r.status = .sending) ∧ r.timeoutAt = none := by
  constructor
  · rintro ⟨T, h⟩
    obtain ⟨hd, hs, _, _⟩ := h (T + 1) (by omega)
    refine ⟨hd, hs.imp_right And.left, ?_⟩
    cases ht : r.timeoutAt with
    | none => rfl
    | some d =>
        -- a deadline passes, and the filter drops the row from then on
        have hlt := (h (max T d + 1) (by omega)).2.2.2 d (by simp [ht])
        omega
  · rintro ⟨hd, hs, ht⟩
    refine ⟨r.nextAttemptAt, fun now hnow => ⟨hd, ?_, by omega, by simp [ht]⟩⟩
    exact hs.imp_right fun hs => ⟨hs, hnow⟩

theorem noneStranded_iff {t : Messages} :
    NoneStranded t ↔ ∀ r ∈ t, r.deletedAt = none → r.timeoutAt = none → r.status ≠ .failed := by
  refine forall₂_congr fun r hr => ⟨fun h hd ht hs => ?_, fun h hd hn ht => ?_⟩
  · obtain ⟨_, hs' | hs', _⟩ := Row.schedulable_iff.mp (h hd (by rw [hs]; rfl) ht) <;>
      · rw [hs] at hs'; cases hs'
  · refine Row.schedulable_iff.mpr ⟨hd, ?_, ht⟩
    cases hs : r.status with
    | pending => exact Or.inl rfl
    | sending => exact Or.inr rfl
    | failed => exact absurd hs (h hd ht)
    | sent => rw [hs] at hn; cases hn
    | permanentFailed => rw [hs] at hn; cases hn
    | timedOut => rw [hs] at hn; cases hn

/-! ## The statement that strands a row -/

/-- The row a `MarkFailed` writes. -/
def Stmt.fails? : Stmt → Option UUID
  | .markFailed id _ _ => some id
  | _ => none

/-- The step is not a failure below the attempt limit of a live row without a
deadline. -/
def FailsAtLimit (t : Messages) (a : Int × Stmt) : Prop :=
  ∀ r ∈ t, a.2.fails? = some r.id → r.deletedAt = none → r.timeoutAt = none →
    r.maxAttempts ≤ r.attempts

instance (t : Messages) (a : Int × Stmt) : Decidable (FailsAtLimit t a) :=
  inferInstanceAs (Decidable (∀ r ∈ t, _))

/-- A step that fails no row below its limit strands none. -/
theorem NoneStranded.step {t t' : Messages} {a : Int × Stmt} (h : NoneStranded t)
    (ha : FailsAtLimit t a) (hs : queueStep t a = some t') : NoneStranded t' := by
  obtain ⟨rfl, hup⟩ := queueStep_eq hs
  rw [noneStranded_iff] at h ⊢
  intro r' hr' hd ht
  rcases Stmt.mem_run.mp hr' with ⟨r, hr, rfl⟩ | ⟨id, p, _, rfl, _⟩
  · have hstep := a.2.effect_step a.1 hr
    rw [hstep.deletedAt_eq] at hd
    rw [hstep.timeoutAt_eq] at ht
    generalize a.2.effect a.1 t r = r' at hstep
    generalize hst : a.2 = st at hstep
    cases hstep with
    | unchanged => exact h _ hr hd ht
    | claimed _ _ => simp [Row.claim]
    | sent => simp [Row.markSent]
    | failed =>
        have hlim := ha _ hr (by rw [hst]; rfl) hd ht
        simp [Row.markFailed, hlim]
    | timedOut _ => simp [Row.markTimedOut]
    | resent _ => simp [Row.resend]
    | updated _ => exact absurd hst (hup _ _)
  · simp [InsertParams.row]

/-- A failure below the limit strands its row at once. -/
theorem FailsAtLimit.of_noneStranded {t t' : Messages} {a : Int × Stmt}
    (hs : queueStep t a = some t') (h : NoneStranded t') : FailsAtLimit t a := by
  obtain ⟨rfl, _⟩ := queueStep_eq hs
  intro r hr hf hd ht
  obtain ⟨now, st⟩ := a
  cases st with
  | markFailed id lastError next =>
      cases hf
      by_contra hlt
      have hmem := (Stmt.markFailed r.id lastError next).effect_mem now hr
      simp only [Stmt.effect, if_true] at hmem
      exact noneStranded_iff.mp h _ hmem hd ht (by simp [Row.markFailed, hlt])
  | _ => cases hf

/-- Along any run of the queue from the empty table, no live row without a
deadline is ever stranded exactly when no attempt of such a row fails below its
limit. -/
theorem none_stranded_iff {tr : List (Int × Stmt)} {t : Messages}
    (hr : Run queueStep Messages.empty tr t) :
    Always queueStep Messages.empty tr NoneStranded ↔
      RunOf queueStep FailsAtLimit Messages.empty tr t := by
  refine RunOf.always_iff (J := fun _ => True) hr ?_ trivial (fun _ _ _ _ _ _ => trivial) ?_
  · rw [noneStranded_iff]
    intro r hr
    cases hr
  · exact fun s a s' _ h _ hs => ⟨FailsAtLimit.of_noneStranded hs, fun ha => h.step ha hs⟩

/-- A message is claimed and delivered. -/
def deliveredTrace : List (Int × Stmt) :=
  [(0, .insert "m-1" plainParams), (1000, .claimPending 300000000000 []),
    (2000, .markSent "m-1" "1700000001")]

/-- A delivered message was schedulable until it was sent. -/
theorem delivered_none_stranded :
    Always queueStep Messages.empty deliveredTrace NoneStranded :=
  (none_stranded_iff (run_of_exec rfl)).mpr (runOf_of_execOf rfl)

/-- A message is claimed and its first attempt of five fails, with the next
attempt due five seconds later. -/
def failedTrace : List (Int × Stmt) :=
  [(0, .insert "m-1" plainParams), (1000, .claimPending 300000000000 []),
    (2000, .markFailed "m-1" "signal-cli: tcp disconnected" 5000002000)]

/-- A message whose first attempt fails is stranded: no later instant makes it
claimable again. -/
theorem failed_attempt_stranded :
    ∃ t, Run queueStep Messages.empty failedTrace t ∧ ¬ NoneStranded t := by
  refine ⟨_, run_of_exec rfl, ?_⟩
  rw [noneStranded_iff]
  decide

end Signalium
