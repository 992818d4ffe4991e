import Signalium.Worker.Steps

/-!
# What the worker reports of a failed attempt

After `MarkFailed` the function `fail` tells the outside what became of the
message: the counter of permanent failures and the Slack alert, or the counter
of retries.  It does not read the row back.  It repeats the comparison of the
statement on the message as it was claimed, while the statement compares the
columns of the row as it is.

So the reports of a run are right exactly when at each `MarkFailed` that is
executed the two comparisons agree and the worker learns of the commit
(`failures_reported_iff`).  Between the two the row can be claimed again, which
raises its attempts, or sent again by an operator, which clears them; nothing else
writes the counter, and without these two the comparisons agree
(`sameVerdict_of_quiet`).  They part where the claim takes the last attempt, or the
`Resend` clears attempts that were used up (`Dispatch.Counted.agreed_step_iff`).
-/

namespace Signalium

open Runs Tables

variable {cfg : WorkerConfig} {s s' : Outbox} {a : Label} {d : Dispatch}

/-! ## The end of `fail` -/

/-- The settings of `SlackNotifier` the alert depends on. -/
structure SlackConfig where
  enabled : Bool
  webhookURL : String
  notifyOnPermanentFailure : Bool
deriving DecidableEq, Repr

/-- `SlackNotifier.Enabled`. -/
def SlackConfig.isEnabled (c : SlackConfig) : Bool := c.enabled && c.webhookURL ≠ ""

/-- What `fail` does for others to see. -/
inductive Report where
  | incTerminal (status : String)
  /-- A post to the Slack webhook, which may fail there without consequence. -/
  | post (msg : SignalMessage) (cause : String)
  | incRetry
deriving DecidableEq, Repr

/-- `NotifyPermanentFailure`. -/
def SlackConfig.notifyPermanentFailure (c : SlackConfig) (msg : SignalMessage) (cause : String) :
    List Report :=
  if !c.isEnabled || !c.notifyOnPermanentFailure then [] else [.post msg cause]

/-- The part of `fail` after a `MarkFailed` without error.  The notifier is a
pointer and may be `nil`. -/
def reportFailure (notifier : Option SlackConfig) (msg : SignalMessage) (cause : String) :
    List Report :=
  if msg.maxAttempts ≤ msg.attempts then
    .incTerminal "permanent_failed" ::
      match notifier with
      | some c => if c.isEnabled then c.notifyPermanentFailure msg cause else []
      | none => []
  else [.incRetry]

/-- What a step of a dispatch reports of a failure.  A `MarkFailed` that returns
an error is logged and nothing else. -/
def Dispatch.reports (notifier : Option SlackConfig) (now : Int) (d : Dispatch) :
    Act → List Report
  | .markFailed _ r =>
      match d.phase with
      | .failing cause =>
          if d.reply now r = .committed then reportFailure notifier d.msg cause else []
      | _ => []
  | _ => []

/-! ## Agreement with the row -/

/-- The alert is switched on. -/
def AlertsOn (notifier : Option SlackConfig) : Prop :=
  ∃ c ∈ notifier, c.isEnabled = true ∧ c.notifyOnPermanentFailure = true

/-- The reports are those of a row with this status: a permanent failure is
counted and alerted, anything else is counted as a retry. -/
structure Agrees (notifier : Option SlackConfig) (reports : List Report)
    (status : SignalMessageStatus) : Prop where
  terminal : Report.incTerminal "permanent_failed" ∈ reports ↔ status = .permanentFailed
  alert : AlertsOn notifier →
    ((∃ msg cause, Report.post msg cause ∈ reports) ↔ status = .permanentFailed)
  retry : Report.incRetry ∈ reports ↔ status ≠ .permanentFailed

/-- In the step, a `MarkFailed` that is executed is reported as the status it
gives the row. -/
def ReportsStatus (cfg : WorkerConfig) (notifier : Option SlackConfig) (s : Outbox) (a : Label)
    (s' : Outbox) : Prop :=
  ∀ i jitter rep d, a = .dispatch i (.markFailed jitter rep) → s.dispatches[i]? = some d →
    (d.stmt? cfg s.now (.markFailed jitter rep)).isSome = true →
      ∀ r ∈ s'.table, r.id = d.msg.id →
        Agrees notifier (d.reports notifier s.now (.markFailed jitter rep)) r.status

/-- Every `MarkFailed` the run executes is reported as the status it gives the
row. -/
def FailuresReported (cfg : WorkerConfig) (notifier : Option SlackConfig) (tr : List Label) :
    Prop :=
  EveryStep (Outbox.step cfg) Outbox.init tr (ReportsStatus cfg notifier)

/-- The worker learns of the `MarkFailed` the step executes, and the row has used
up its attempts exactly when the claimed message has. -/
def SameVerdict (cfg : WorkerConfig) (s : Outbox) : Label → Prop
  | .dispatch i (.markFailed jitter rep) =>
      ∀ d ∈ s.dispatches[i]?, (d.stmt? cfg s.now (.markFailed jitter rep)).isSome = true →
        rep = .committed ∧ ∀ r ∈ s.table, r.id = d.msg.id →
          (r.maxAttempts ≤ r.attempts ↔ d.msg.maxAttempts ≤ d.msg.attempts)
  | _ => True

instance (cfg : WorkerConfig) (s : Outbox) (a : Label) : Decidable (SameVerdict cfg s a) :=
  match a with
  | .dispatch i (.markFailed _ _) => inferInstanceAs (Decidable (∀ d ∈ s.dispatches[i]?, _ → _))
  | .dispatch _ .start | .dispatch _ (.downloaded _) | .dispatch _ .send
  | .dispatch _ (.sendReturned _) | .dispatch _ (.markSent _) | .dispatch _ (.wake _)
  | .dispatch _ .crash | .dispatch _ .cancel | .advance _ | .insert _ _ | .claim _ _ | .reap
  | .resend _ | .updateStatus _ _ => isTrue trivial

/-- The reports of `fail` are those of the comparison on the claimed message. -/
theorem agrees_reportFailure_iff {notifier : Option SlackConfig} {msg : SignalMessage}
    {cause : String} {status : SignalMessageStatus} :
    Agrees notifier (reportFailure notifier msg cause) status ↔
      (status = .permanentFailed ↔ msg.maxAttempts ≤ msg.attempts) := by
  unfold reportFailure
  by_cases hmax : msg.maxAttempts ≤ msg.attempts
  · rw [if_pos hmax, iff_true_right hmax]
    refine ⟨fun h => h.terminal.mp List.mem_cons_self, fun hs => ?_⟩
    refine ⟨by simp [hs], fun hon => ?_, ?_⟩
    · obtain ⟨c, rfl, hc, hn⟩ := hon
      simp [SlackConfig.notifyPermanentFailure, hc, hn, hs]
    · rw [iff_false_right (not_not_intro hs), List.mem_cons]
      cases notifier with
      | none => simp
      | some c =>
          simp only [SlackConfig.notifyPermanentFailure]
          split_ifs <;> simp
  · rw [if_neg hmax, iff_false_right hmax]
    refine ⟨fun h => h.retry.mp List.mem_cons_self, fun hs => ⟨?_, fun _ => ?_, ?_⟩⟩ <;> simp [hs]

/-- No report agrees with no status. -/
theorem not_agrees_nil {notifier : Option SlackConfig} {status : SignalMessageStatus} :
    ¬ Agrees notifier [] status := by
  intro h
  have hterminal := h.terminal
  have hretry := h.retry
  simp only [List.not_mem_nil, false_iff, not_not] at hterminal hretry
  exact hterminal hretry

/-! ## Runs -/

/-- What the mark of a dispatch does to a row. -/
theorem Outbox.effect_mark {i : Nat} {ac : Act} {st : Stmt} {r : Row}
    (hd : s.dispatches[i]? = some d) (hst : d.stmt? cfg s.now ac = some st) :
    s.effect cfg (.dispatch i ac) r = st.effect s.now s.table r := by
  simp only [Outbox.effect, Outbox.stmt?, hd, Option.bind_some, hst, Option.elim_some]

/-- The `MarkFailed` a dispatch executes. -/
theorem Dispatch.stmt?_markFailed {now jitter : Int} {rep : DbReply} {st : Stmt}
    (h : d.stmt? cfg now (.markFailed jitter rep) = some st) :
    ∃ cause, d.Live now ∧ d.phase = .failing cause ∧
      st = .markFailed d.msg.id cause (now + backoff d.msg.attempts cfg.maxBackoff jitter) := by
  obtain ⟨hl, ⟨_, _, _, hact, _⟩ | ⟨cause, _, _, hact, _, hp, he⟩⟩ := Dispatch.stmt?_eq h
  · cases hact
  · cases hact
    exact ⟨cause, hl, hp, he⟩

/-- The reports of one `MarkFailed` that is executed, against the row it sets. -/
theorem Dispatch.agrees_reports_iff {notifier : Option SlackConfig} {now jitter : Int}
    {rep : DbReply} {st : Stmt} {t : Messages} {r : Row}
    (hst : d.stmt? cfg now (.markFailed jitter rep) = some st) (hid : r.id = d.msg.id) :
    Agrees notifier (d.reports notifier now (.markFailed jitter rep)) (st.effect now t r).status ↔
      rep = .committed ∧ (r.maxAttempts ≤ r.attempts ↔ d.msg.maxAttempts ≤ d.msg.attempts) := by
  obtain ⟨cause, hl, hp, rfl⟩ := Dispatch.stmt?_markFailed hst
  have hrep : d.reply now rep = rep := if_pos hl
  simp only [Dispatch.reports, hp, hrep, Stmt.effect, if_pos hid]
  by_cases hc : rep = .committed
  · rw [if_pos hc, agrees_reportFailure_iff, Row.markFailed_status_iff]
    exact (and_iff_right hc).symm
  · rw [if_neg hc]
    exact ⟨fun h => absurd h not_agrees_nil, fun h => absurd h.1 hc⟩

/-- A step reports the status it sets exactly when the verdicts agree. -/
theorem Owned.reportsStatus_iff {notifier : Option SlackConfig} (hO : Owned s)
    (h : s.step cfg a = some s') : ReportsStatus cfg notifier s a s' ↔ SameVerdict cfg s a := by
  by_cases ha : ∃ i jitter rep, a = .dispatch i (.markFailed jitter rep)
  · obtain ⟨i, jitter, rep, rfl⟩ := ha
    obtain ⟨d, d', hd, _, _⟩ := Outbox.step_dispatch h
    obtain ⟨r, hr, hfix⟩ := hO i d hd
    have hid := SignalMessage.id_eq_of_fixed hfix
    have hr' := Outbox.effect_mem h hr
    have hid' := (Outbox.effect_id cfg (.dispatch i (.markFailed jitter rep)) hr).trans hid
    constructor
    · intro hQ e he hsome
      cases hd.symm.trans he
      obtain ⟨st, hst⟩ := Option.isSome_iff_exists.mp hsome
      have hag := hQ i jitter rep d rfl hd hsome _ hr' hid'
      rw [Outbox.effect_mark hd hst, Dispatch.agrees_reports_iff hst hid] at hag
      refine ⟨hag.1, fun r₁ hr₁ hid₁ => ?_⟩
      cases s.table.row_unique hr₁ hr (hid₁.trans hid.symm)
      exact hag.2
    · intro hok i' j' rep' e he hd' hsome r₁ hr₁ hid₁
      cases he
      cases hd.symm.trans hd'
      obtain ⟨st, hst⟩ := Option.isSome_iff_exists.mp hsome
      obtain ⟨hc, hsame⟩ := hok d hd hsome
      cases s'.table.row_unique hr₁ hr' (hid₁.trans hid'.symm)
      rw [Outbox.effect_mark hd hst, Dispatch.agrees_reports_iff hst hid]
      exact ⟨hc, hsame r hr hid⟩
  · constructor
    · intro _
      unfold SameVerdict
      split
      · exact absurd ⟨_, _, _, rfl⟩ ha
      · trivial
    · intro _ i jitter rep d he
      exact absurd ⟨i, jitter, rep, he⟩ ha

/-- Along any run of workers, reaper and operators, every `MarkFailed` that is
executed is reported as the status it sets, with the counter of permanent
failures and the alert or with the counter of retries, exactly when at each of
them the worker learns of the commit, and the row has used up its attempts if
and only if the message the worker claimed has. -/
theorem failures_reported_iff {notifier : Option SlackConfig} {tr : List Label}
    (hr : Run (Outbox.step cfg) Outbox.init tr s) :
    FailuresReported cfg notifier tr ↔
      RunOf (Outbox.step cfg) (SameVerdict cfg) Outbox.init tr s :=
  hr.everyStep_iff owned_init (fun _ _ _ hO _ hs => hO.step hs)
    fun _ _ _ hO _ hs => hO.reportsStatus_iff hs

/-- The notifier with everything on. -/
def alertingConfig : SlackConfig where
  enabled := true
  webhookURL := "webhook"
  notifyOnPermanentFailure := true

/-- A message with two attempts fails twice; an operator sets it back to
`PENDING` in between. -/
def failedTwiceTrace : List Label :=
  [.insert "m-1" { plainParams with maxAttempts := 2 }, .claim [] .committed, .dispatch 0 .start,
    .dispatch 0 (.downloaded (.error "no such key")), .dispatch 0 (.markFailed 0 .committed),
    .updateStatus "m-1" .pending, .claim [] .committed, .dispatch 1 .start,
    .dispatch 1 (.downloaded (.error "no such key")), .dispatch 1 (.markFailed 0 .committed)]

/-- The first failure is counted as a retry, the second one as permanent. -/
theorem failedTwice_failures_reported :
    FailuresReported defaultConfig (some alertingConfig) failedTwiceTrace :=
  (failures_reported_iff (run_of_exec rfl)).mpr (runOf_of_execOf rfl)

/-- A message with one attempt times out while it is being sent, and an operator
sends it again.  Then the first attempt fails. -/
def resentInFlightTrace : List Label :=
  [.insert "m-1" { plainParams with maxAttempts := 1, timeoutAt := some 10000000000 },
    .claim [] .committed, .dispatch 0 .start, .dispatch 0 (.downloaded (.ok [])),
    .dispatch 0 .send, .advance 10000000000, .reap, .resend "m-1",
    .dispatch 0 (.sendReturned (.error "timed out")), .dispatch 0 (.markFailed 0 .committed)]

/-- The last step of `resentInFlightTrace` makes the row `FAILED`, with no attempt
used, and the worker counts and alerts a permanent failure. -/
theorem resentInFlight_misreported :
    ∃ s s' d, Run (Outbox.step defaultConfig) Outbox.init (resentInFlightTrace.take 9) s ∧
      Run (Outbox.step defaultConfig) Outbox.init resentInFlightTrace s' ∧
      s.dispatches[0]? = some d ∧
      (s'.table.rows.map fun r => (r.status, r.attempts)) = [(.failed, 0)] ∧
      d.reports (some alertingConfig) s.now (.markFailed 0 .committed) =
        [.incTerminal "permanent_failed", .post d.msg "timed out"] ∧
      ¬ FailuresReported defaultConfig (some alertingConfig) resentInFlightTrace := by
  refine ⟨_, _, _, run_of_exec rfl, run_of_exec rfl, rfl, rfl, rfl, fun h => ?_⟩
  have hag := h (resentInFlightTrace.take 9) (.dispatch 0 (.markFailed 0 .committed)) [] _ _ rfl
    (run_of_exec rfl) rfl 0 0 .committed _ rfl rfl rfl _ (List.mem_singleton_self _) rfl
  cases hag.terminal.mp List.mem_cons_self

/-! ## What parts the verdicts -/

/-- The row of the dispatch has the counter of the message that was claimed. -/
def Dispatch.Counted (s : Outbox) (d : Dispatch) : Prop :=
  ∀ r ∈ s.table, r.id = d.msg.id → r.attempts = d.msg.attempts

/-- The row has used up its attempts exactly when the claimed message has. -/
def Dispatch.Agreed (s : Outbox) (d : Dispatch) : Prop :=
  ∀ r ∈ s.table, r.id = d.msg.id →
    (r.maxAttempts ≤ r.attempts ↔ d.msg.maxAttempts ≤ d.msg.attempts)

/-- The step writes the counter of the row `id`: a claim takes the row, or a `Resend`
finds it in one of its statuses. -/
def Recounts (id : UUID) (s : Outbox) : Label → Prop
  | .claim locked rep =>
      rep ≠ .unreached ∧ ∃ c, s.table.claimCandidate s.now locked = some c ∧ c.id = id
  | .resend id' => id' = id ∧ ∃ r ∈ s.table, r.id = id ∧ r.status.Resendable
  | _ => False

/-- The step parts the verdicts: a claim takes the last attempt of the row, or a `Resend`
clears the counter of a message that has used up its attempts. -/
def Dispatch.PartedBy (s : Outbox) (a : Label) (d : Dispatch) : Prop :=
  Recounts d.msg.id s a ∧
    match a with
    | .resend _ => d.msg.maxAttempts ≤ d.msg.attempts
    | _ => d.msg.attempts + 1 = d.msg.maxAttempts

/-- Any other step leaves the counter alone. -/
theorem Outbox.effect_attempts {r : Row} (hr : r ∈ s.table) (hquiet : ¬ Recounts r.id s a) :
    (s.effect cfg a r).attempts = r.attempts := by
  rcases Outbox.effect_step cfg a hr with he | ⟨st, hex, hrow⟩
  · rw [he]
  · generalize s.effect cfg a r = r' at hrow ⊢
    cases hrow with
    | claimed hcand _ =>
        obtain ⟨_, hrep, rfl, _⟩ := hex.claimPending_inv
        exact absurd ⟨hrep, r, hcand, rfl⟩ hquiet
    | resent hs =>
        cases hex.resend_inv
        exact absurd ⟨rfl, r, hr, rfl, hs⟩ hquiet
    | _ => rfl

/-- What the two others write. -/
theorem Recounts.attempts_eq (cfg : WorkerConfig) {r : Row} (h : Recounts r.id s a)
    (hr : r ∈ s.table) :
    (s.effect cfg a r).attempts =
      match a with
      | .resend _ => 0
      | _ => r.attempts + 1 := by
  cases a with
  | claim locked rep =>
      obtain ⟨hrep, c, hc, hid⟩ := h
      simp [Outbox.effect, Outbox.stmt?, if_neg hrep, Stmt.effect, hc, hid, Row.claim]
  | resend id =>
      obtain ⟨rfl, r', hr', hid, hs⟩ := h
      cases s.table.row_unique hr' hr hid
      simp [Outbox.effect, Outbox.stmt?, Stmt.effect, hs, Row.resend]
  | _ => cases h

theorem Owned.maxAttempts_eq (hO : Owned s) {i : Nat} {r : Row} (hd : s.dispatches[i]? = some d)
    (hr : r ∈ s.table) (hid : r.id = d.msg.id) : r.maxAttempts = d.msg.maxAttempts :=
  SignalMessage.maxAttempts_eq_of_fixed (hO.fixed_eq hd hr hid)

/-- A row that has the counter of the claimed message keeps it through a step that writes
no counter. -/
theorem Dispatch.Counted.step (hO : Owned s) {i : Nat} (hd : s.dispatches[i]? = some d)
    (hcount : d.Counted s) (hquiet : ¬ Recounts d.msg.id s a) (h : s.step cfg a = some s') :
    d.Counted s' := by
  intro r' hr' hid'
  obtain ⟨r, hr, hid, rfl⟩ := hO.row_step h hd hr' hid'
  rw [Outbox.effect_attempts hr (hid ▸ hquiet)]
  exact hcount r hr hid

theorem Dispatch.Counted.agreed (hO : Owned s) {i : Nat} (hd : s.dispatches[i]? = some d)
    (hcount : d.Counted s) : d.Agreed s := by
  intro r hr hid
  rw [hcount r hr hid, hO.maxAttempts_eq hd hr hid]

/-- From a row that has the counter of the claimed message, a step leaves the verdicts
agreed exactly when it does not part them.  The limit is positive. -/
theorem Dispatch.Counted.agreed_step_iff (hO : Owned s) {i : Nat}
    (hd : s.dispatches[i]? = some d) (hcount : d.Counted s) (hmax : 1 ≤ d.msg.maxAttempts)
    (h : s.step cfg a = some s') : d.Agreed s' ↔ ¬ d.PartedBy s a := by
  obtain ⟨d', hd', hev⟩ := Outbox.dispatch_stays h hd
  have hmsg : d'.msg = d.msg := hev.msg_eq
  by_cases hre : Recounts d.msg.id s a
  · obtain ⟨r, hr, hfix⟩ := hO i d hd
    have hid := SignalMessage.id_eq_of_fixed hfix
    have hr' := Outbox.effect_mem h hr
    have hid' := (Outbox.effect_id cfg a hr).trans hid
    have hlimit : (s.effect cfg a r).maxAttempts = d.msg.maxAttempts :=
      hmsg ▸ (hO.step h).maxAttempts_eq hd' hr' (hmsg ▸ hid')
    have hone : d.Agreed s' ↔ ((s.effect cfg a r).maxAttempts ≤ (s.effect cfg a r).attempts ↔
        d.msg.maxAttempts ≤ d.msg.attempts) := by
      refine ⟨fun hag => hag _ hr' hid', fun hag r₁ hr₁ hid₁ => ?_⟩
      cases s'.table.row_unique hr₁ hr' (hid₁.trans hid'.symm)
      exact hag
    have hre' : Recounts r.id s a := by
      rw [show r.id = d.msg.id from hid]
      exact hre
    have hwritten := hre'.attempts_eq cfg hr
    unfold Dispatch.PartedBy
    rw [hone, hlimit, and_iff_right hre]
    cases a with
    | claim locked rep =>
        simp only [hcount r hr hid] at hwritten ⊢
        omega
    | resend id =>
        simp only at hwritten ⊢
        omega
    | _ => cases hre
  · have hag : d.Agreed s' := by
      have hcount' := hcount.step hO hd hre h
      intro r hr hid
      rw [hcount' r hr hid, (hO.step h).maxAttempts_eq hd' hr (hmsg ▸ hid), hmsg]
    exact iff_of_true hag fun hp => hre hp.1

/-- As long as nobody claims the row again or sends it again, its counter is that of the
claimed message. -/
theorem Dispatch.Counted.run (hO : Owned s) {i : Nat} {tr : List Label}
    (hd : s.dispatches[i]? = some d) (hcount : d.Counted s)
    (hr : RunOf (Outbox.step cfg) (fun s a => ¬ Recounts d.msg.id s a) s tr s') :
    Owned s' ∧ ∃ d', s'.dispatches[i]? = some d' ∧ d'.msg = d.msg ∧ d'.Counted s' := by
  refine hr.invariant (I := fun s => Owned s ∧ ∃ d', s.dispatches[i]? = some d' ∧
    d'.msg = d.msg ∧ d'.Counted s) ⟨hO, d, hd, rfl, hcount⟩ ?_
  rintro s a s' ⟨hO, d₁, hd₁, hmsg, hcount⟩ hquiet hs
  obtain ⟨d', hd', hev⟩ := Outbox.dispatch_stays hs hd₁
  have hcount' := hcount.step hO hd₁ (hmsg ▸ hquiet) hs
  refine ⟨hO.step hs, d', hd', hev.msg_eq.trans hmsg, ?_⟩
  rw [Dispatch.Counted, hev.msg_eq]
  exact hcount'

/-- Whatever happens between the claim of a message and its `MarkFailed`: if the row is
neither claimed again nor sent again, the worker that learns of the commit reports what the
statement has set. -/
theorem sameVerdict_of_quiet {locked : List UUID} {c : Row} {tr : List Label} {s₁ s₂ : Outbox}
    {jitter : Int} (hO : Owned s) (hc : s.table.claimCandidate s.now locked = some c)
    (hclaim : s.step cfg (.claim locked .committed) = some s₁)
    (hr : RunOf (Outbox.step cfg) (fun s a => ¬ Recounts c.id s a) s₁ tr s₂) :
    SameVerdict cfg s₂ (.dispatch s.dispatches.length (.markFailed jitter .committed)) := by
  have hd := Outbox.claimed_dispatch hclaim hc
  have hcount : (Dispatch.new (c.claim s.now cfg.leaseDuration)).Counted s₁ := by
    intro r hr hid
    rw [s₁.table.row_unique hr (Outbox.claimed_mem hclaim hc) hid]
    rfl
  obtain ⟨hO₂, d', hd', _, hcount'⟩ := Dispatch.Counted.run (hO.step hclaim) hd hcount hr
  intro e he _
  cases hd'.symm.trans he
  exact ⟨rfl, hcount'.agreed hO₂ hd'⟩

end Signalium
