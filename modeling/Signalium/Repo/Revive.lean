import Signalium.Repo.Attempts

/-!
# Sending a message again

`Resend` takes a row out of `FAILED`, `TIMED_OUT` or `PERMANENT_FAILED`.  It makes
the row `PENDING` and due at once, and it clears the counter, so that the row has
all its attempts before it again.

It leaves `timeout_at` alone, and both the claim and the reaper read that column.
A row whose deadline has passed, as that of every row the reaper has set
`TIMED_OUT`, is not eligible after `Resend`, and the next run of the reaper sets
it back.  So `Resend` revives a row exactly when the row has no deadline or one
that is still ahead (`resend_revives_iff`).
-/

namespace Signalium

open Runs Tables

variable {t : Messages} {r : Row} {now : Int} {id : UUID}

/-- The row `id` has `max_attempts` claims before it: at any later time, as long as
it is not sent again, `MarkFailed` gives it up exactly when it has been claimed
that often.  This is the counter against `max_attempts`; it does not say that a row
that is `FAILED` meanwhile is claimed again. -/
def FullBudget (t : Messages) (id : UUID) : Prop :=
  ∀ tr t', Run queueStep t tr t' → NotResent id tr → ∀ r ∈ t', r.id = id →
    ∀ now lastError next, (r.markFailed now lastError next).status = .permanentFailed ↔
      r.maxAttempts ≤ claimsOf id t tr

/-- What a row should be after `Resend` at `now`. -/
structure Revived (now : Int) (t : Messages) (id : UUID) : Prop where
  /-- `ClaimPending` can take it at once. -/
  eligible : ∃ r ∈ t, r.id = id ∧ r.Claimable now
  budget : FullBudget t id
  /-- `MarkTimedOut` at the same instant does not set it back. -/
  stays : ∀ r ∈ t.markTimedOut now, r.id = id → r.status ≠ .timedOut

/-- Along a run without a `Resend` of it, a row counts its claims. -/
theorem attempts_eq_claimsOf {tr : List (Int × Stmt)} {t' : Messages}
    (hrun : Run queueStep t tr t') (hr : r ∈ t) (hnr : NotResent r.id tr) :
    ∃ r' ∈ t', r'.id = r.id ∧ r'.attempts = r.attempts + claimsOf r.id t tr := by
  induction hrun with
  | nil => exact ⟨r, hr, rfl, by simp [claimsOf]⟩
  | @snoc tr m m' a hrun _ hs ih =>
      rw [NotResent.snoc] at hnr
      obtain ⟨r₁, hr₁, hid, hcount⟩ := ih hnr.1
      obtain ⟨rfl, _⟩ := queueStep_eq hs
      refine ⟨_, a.2.effect_mem a.1 hr₁, (Stmt.effect_id _ _ hr₁).trans hid, ?_⟩
      rw [Stmt.effect_attempts hr₁ (hid ▸ hnr.2), claimsOf_snoc _ a (exec_of_run hrun), hcount,
        hid]
      push_cast
      omega

/-- A row whose counter is zero has all its claims before it. -/
theorem fullBudget_of_zero (hr : r ∈ t) (hzero : r.attempts = 0) : FullBudget t r.id := by
  intro tr t' hrun hnr r' hr' hid now lastError next
  obtain ⟨r₁, hr₁, hid₁, hcount⟩ := attempts_eq_claimsOf hrun hr hnr
  cases t'.row_unique hr' hr₁ (hid.trans hid₁.symm)
  rw [Row.markFailed_status_iff, hcount, hzero, zero_add]

/-- The row after `Resend`. -/
theorem Messages.resend_mem (now : Int) (hr : r ∈ t) (hs : r.status.Resendable) :
    r.resend now ∈ t.resend now r.id := by
  have hmem := (Stmt.resend r.id).effect_mem now hr
  rwa [Stmt.effect, if_pos ⟨rfl, hs⟩] at hmem

/-- Whatever the table, `Resend` of a row that is not deleted and `FAILED`,
`TIMED_OUT` or `PERMANENT_FAILED` makes it eligible for `ClaimPending`, with all
its attempts before it and out of the reach of the reaper, exactly when its
`timeout_at` is `NULL` or has not been reached. -/
theorem resend_revives_iff (hr : r ∈ t) (hdel : r.deletedAt = none) (hs : r.status.Resendable) :
    Revived now (t.resend now r.id) r.id ↔ ∀ deadline ∈ r.timeoutAt, now < deadline := by
  have hmem := Messages.resend_mem now hr hs
  constructor
  · intro h
    obtain ⟨r', hr', hid, _, _, _, htime⟩ := h.eligible
    cases (t.resend now r.id).row_unique hr' hmem hid
    exact htime
  · intro htime
    refine ⟨⟨_, hmem, rfl, hdel, Or.inl rfl, le_rfl, htime⟩, ?_, ?_⟩
    · exact fullBudget_of_zero (r := r.resend now) hmem rfl
    · intro r' hr' hid
      have hrun : r' ∈ Stmt.markTimedOut.run now (t.resend now r.id) := hr'
      obtain ⟨r₁, hr₁, rfl⟩ := (Stmt.mem_run.mp hrun).resolve_right (by simp)
      rw [Stmt.effect_id _ _ hr₁] at hid
      cases (t.resend now r.id).row_unique hr₁ hmem hid
      have hdue : ¬ (r.resend now).Overdue now := by
        rintro ⟨_, _, deadline, hd, hle⟩
        have := htime deadline hd
        omega
      rw [Stmt.effect, if_neg hdue]
      intro htimedOut
      cases htimedOut

/-- The row of `failedTrace`. -/
def failedRow : Row :=
  ((plainParams.row 0 "m-1").claim 1000 300000000000).markFailed 2000
    "signal-cli: tcp disconnected" 5000002000

/-- A message whose first attempt has failed is revived. -/
theorem failed_resend_revives :
    ∃ t, Run queueStep Messages.empty failedTrace t ∧ failedRow ∈ t ∧
      failedRow.status = .failed ∧ Revived 3000 (t.resend 3000 "m-1") "m-1" := by
  refine ⟨_, run_of_exec rfl, List.mem_singleton_self _, rfl, ?_⟩
  exact (resend_revives_iff (r := failedRow) (List.mem_singleton_self _) rfl (by decide)).mpr
    (by decide)

/-- A message with a deadline of ten seconds waits until the reaper runs, and is
then sent again. -/
def timedOutTrace : List (Int × Stmt) :=
  [(0, .insert "m-1" { plainParams with timeoutAt := some 10000000000 }),
    (10000000000, .markTimedOut), (10000000000, .resend "m-1")]

/-- After `timedOutTrace` the message is `PENDING`, no claim finds it, and the
reaper sets it back to `TIMED_OUT`. -/
theorem timedOut_resend_not_revived :
    ∃ t, Run queueStep Messages.empty timedOutTrace t ∧
      (t.rows.map fun r => r.status) = [.pending] ∧
      t.claimPending 10000000000 300000000000 [] = none ∧
      ((t.markTimedOut 10000000000).rows.map fun r => r.status) = [.timedOut] ∧
      ¬ Revived 10000000000 t "m-1" := by
  refine ⟨_, run_of_exec rfl, rfl, rfl, rfl, fun h => ?_⟩
  exact h.stays _ (List.mem_singleton_self _) rfl rfl

end Signalium
