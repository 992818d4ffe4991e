import Signalium.Worker.Steps

/-!
# The record of a failed attempt

An attempt can fail in three places: the download, `BuildSendParams` and `Send`.
All three lead to `fail`, which is to leave the row with the text of the error,
the time of the next attempt, and the status that the comparison of its attempts
gives.

`fail` calls `MarkFailed` under `sendCtx`, the context that bounds the attempt.
An attempt that has used up its time fails with an expired context, and then the
call does not reach the database: the row stays `SENDING`, without the error, and
nobody touches it until its lease expires.  So along any run the failures of
workers that are not being stopped are recorded exactly when `fail` comes to
`MarkFailed` before the deadline of the attempt (`failures_recorded_iff`).
-/

namespace Signalium

open Runs Tables

variable {cfg : WorkerConfig} {s s' : Outbox} {a : Label} {d : Dispatch}

/-- The time of the next attempt, as the row records it. -/
def Dispatch.nextAttempt (cfg : WorkerConfig) (now jitter : Int) (d : Dispatch) : Int :=
  tsTz (now + backoff d.msg.attempts cfg.maxBackoff jitter)

/-- The row `id` of `t`, as it was in `t₀`, records a failure at `now`: the text of
the error, a next attempt not before `now`, which the database knows in
microseconds, and the status by the comparison of its attempts. -/
def RecordsFailure (now : Int) (id : UUID) (cause : String) (t₀ t : Messages) : Prop :=
  ∃ r₀ ∈ t₀, ∃ r ∈ t, r₀.id = id ∧ r.id = id ∧ r.lastError = some cause ∧
    tsTz now ≤ r.nextAttemptAt ∧
    r.status = if r₀.maxAttempts ≤ r₀.attempts then .permanentFailed else .failed

/-- In the step, a dispatch that returns from `fail` has committed its `MarkFailed`
and leaves the record of the failure, if its worker is not being stopped and the
database answers. -/
def FailureRecorded (cfg : WorkerConfig) (s : Outbox) (a : Label) (s' : Outbox) : Prop :=
  ∀ i jitter d cause, a = .dispatch i (.markFailed jitter .committed) →
    s.dispatches[i]? = some d → d.phase = .failing cause → d.cancelled = false →
      (∃ next, s.stmt? cfg a = some (.markFailed d.msg.id cause next)) ∧
        RecordsFailure s.now d.msg.id cause s.table s'.table

/-- Every failed attempt of the run is recorded. -/
def FailuresRecorded (cfg : WorkerConfig) (tr : List Label) : Prop :=
  EveryStep (Outbox.step cfg) Outbox.init tr (FailureRecorded cfg)

/-- `fail` comes to `MarkFailed` before the deadline of the attempt.  Where a backoff is
configured negative, it must also draw a next attempt that does not lie in the past. -/
def FailsInTime (cfg : WorkerConfig) (s : Outbox) : Label → Prop
  | .dispatch i (.markFailed jitter .committed) =>
      ∀ d ∈ s.dispatches[i]?, d.cancelled = false →
        (∃ deadline ∈ d.deadline, s.now < deadline) ∧
          (¬ cfg.NonnegBackoffs → tsTz s.now ≤ d.nextAttempt cfg s.now jitter)
  | _ => True

instance (cfg : WorkerConfig) (s : Outbox) (a : Label) : Decidable (FailsInTime cfg s a) :=
  match a with
  | .dispatch i (.markFailed _ .committed) =>
      inferInstanceAs (Decidable (∀ d ∈ s.dispatches[i]?, _ → _))
  | .dispatch _ (.markFailed _ .ackLost) | .dispatch _ (.markFailed _ .unreached)
  | .dispatch _ .start | .dispatch _ (.downloaded _) | .dispatch _ .send
  | .dispatch _ (.sendReturned _) | .dispatch _ (.markSent _) | .dispatch _ (.wake _)
  | .dispatch _ .crash | .dispatch _ .cancel | .advance _ | .insert _ _ | .claim _ _ | .reap
  | .resend _ | .updateStatus _ _ => isTrue trivial

/-- `fail` executes `MarkFailed` exactly under a live context. -/
theorem Dispatch.stmt?_failing {now jitter : Int} {cause : String}
    (hp : d.phase = .failing cause) :
    d.stmt? cfg now (.markFailed jitter .committed) =
      if d.Live now then some (.markFailed d.msg.id cause
        (now + backoff d.msg.attempts cfg.maxBackoff jitter)) else none := by
  by_cases hl : d.Live now
  · simp [Dispatch.stmt?, hp, Dispatch.reply, hl]
  · simp [Dispatch.stmt?, hp, Dispatch.reply, hl]

/-- A step of a dispatch in `fail`, with what `Backoff` draws. -/
theorem Outbox.step_failing {i : Nat} {jitter : Int} {rep : DbReply}
    (h : s.step cfg (.dispatch i (.markFailed jitter rep)) = some s') :
    ∃ d cause, s.dispatches[i]? = some d ∧ d.phase = .failing cause ∧
      IsJitter d.msg.attempts cfg.baseBackoff jitter := by
  obtain ⟨d, d', hd, hact, _⟩ := Outbox.step_dispatch h
  cases Dispatch.act_step hact with
  | markFailed hp hj => exact ⟨d, _, hd, hp, hj⟩

/-- With backoffs that are not negative, the next attempt never lies in the past. -/
theorem Dispatch.nextAttempt_ge {now jitter : Int} (hcfg : cfg.NonnegBackoffs)
    (hj : IsJitter d.msg.attempts cfg.baseBackoff jitter) :
    tsTz now ≤ d.nextAttempt cfg now jitter := by
  have hpause := hcfg.backoff_nonneg hj
  unfold Dispatch.nextAttempt tsTz
  omega

/-- What `fail` records in time. -/
theorem Owned.recordsFailure (hO : Owned s) {i : Nat} {jitter : Int} {cause : String}
    (h : s.step cfg (.dispatch i (.markFailed jitter .committed)) = some s')
    (hd : s.dispatches[i]? = some d)
    (hst : s.stmt? cfg (.dispatch i (.markFailed jitter .committed)) =
      some (.markFailed d.msg.id cause (s.now + backoff d.msg.attempts cfg.maxBackoff jitter))) :
    RecordsFailure s.now d.msg.id cause s.table s'.table ↔
      tsTz s.now ≤ d.nextAttempt cfg s.now jitter := by
  obtain ⟨r, hr, hfix⟩ := hO i d hd
  have hid : r.id = d.msg.id := SignalMessage.id_eq_of_fixed hfix
  have hr' := Outbox.effect_mem h hr
  rw [Outbox.effect, hst, Option.elim_some, Stmt.effect, if_pos hid] at hr'
  constructor
  · rintro ⟨_, _, r₁, hr₁, _, hid₁, _, hnext, _⟩
    cases s'.table.row_unique hr₁ hr' (hid₁.trans hid.symm)
    exact hnext
  · intro hnext
    exact ⟨r, hr, _, hr', hid, hid, rfl, hnext, rfl⟩

/-- A failure is recorded exactly when it comes in time. -/
theorem Owned.failureRecorded_iff (hO : Owned s) (h : s.step cfg a = some s') :
    FailureRecorded cfg s a s' ↔ FailsInTime cfg s a := by
  unfold FailsInTime
  split
  · next i jitter =>
      obtain ⟨d, cause, hd, hp, hj⟩ := Outbox.step_failing h
      have hst : s.stmt? cfg (.dispatch i (.markFailed jitter .committed)) =
          d.stmt? cfg s.now (.markFailed jitter .committed) := by
        rw [Outbox.stmt?, hd, Option.bind_some]
      rw [Dispatch.stmt?_failing hp] at hst
      constructor
      · intro hrec e he hc
        cases hd.symm.trans he
        obtain ⟨⟨next, hnext⟩, hrow⟩ := hrec i jitter d cause rfl hd hp hc
        by_cases hl : d.Live s.now
        · rw [if_pos hl] at hst
          exact ⟨hl.2, fun _ => (hO.recordsFailure h hd hst).mp hrow⟩
        · rw [hst, if_neg hl] at hnext
          cases hnext
      · intro hok i' jitter' e cause' he hd' hp' hc
        cases he
        cases hd.symm.trans hd'
        cases hp.symm.trans hp'
        obtain ⟨hdl, hneg⟩ := hok d hd hc
        have hnext : tsTz s.now ≤ d.nextAttempt cfg s.now jitter := by
          by_cases hcfg : cfg.NonnegBackoffs
          · exact Dispatch.nextAttempt_ge hcfg hj
          · exact hneg hcfg
        rw [if_pos ⟨hc, hdl⟩] at hst
        exact ⟨⟨_, hst⟩, (hO.recordsFailure h hd hst).mpr hnext⟩
  · next hne =>
      refine ⟨fun _ => trivial, fun _ i jitter d cause he => ?_⟩
      exact absurd he (hne i jitter)

/-- The daemon refuses a message one second after it was claimed. -/
def refusedTrace : List Label :=
  [.insert "m-1" plainParams, .claim [] .committed, .dispatch 0 .start,
    .dispatch 0 (.downloaded (.ok [])), .dispatch 0 .send, .advance 1000000000,
    .dispatch 0 (.sendReturned (.error "signal-cli error")),
    .dispatch 0 (.markFailed 2500000000 .committed)]

/-- The daemon does not answer.  After a minute the context of the attempt expires
and `Send` returns. -/
def outOfTimeTrace : List Label :=
  [.insert "m-1" plainParams, .claim [] .committed, .dispatch 0 .start,
    .dispatch 0 (.downloaded (.ok [])), .dispatch 0 .send, .advance 60000000000,
    .dispatch 0 (.sendReturned (.error "signal-cli send ctx: context deadline exceeded")),
    .dispatch 0 (.markFailed 2500000000 .committed)]

end Signalium
