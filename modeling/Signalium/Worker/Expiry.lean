import Signalium.Worker.Steps

/-!
# Expired messages

`ClaimPending` does not return a row whose `timeout_at` has passed, and
`MarkTimedOut` takes such rows out of the queue.  Between its claim and its call
of `Send` a dispatch looks at neither again: it downloads the attachments,
builds the parameters and sends, however long that takes.

So a message is sent at or after its `timeout_at` when the clock reaches it
while a dispatch of the message is on its way from the claim to `Send`, and in
no other case (`sends_in_time_iff`).  What the reaper has done to the row in the
meantime plays no part.
-/

namespace Signalium

open Runs Tables

variable {cfg : WorkerConfig} {s s' : Outbox} {a : Label} {d d' : Dispatch}

/-- The dispatch has not called `Send` yet. -/
def Dispatch.beforeSend (d : Dispatch) : Bool :=
  match d.phase with
  | .claimed | .downloading | .ready _ => true
  | _ => false

/-- `BuildSendParams` accepts the message. -/
def Dispatch.sendable (cfg : WorkerConfig) (d : Dispatch) : Bool :=
  (buildSendParams cfg.account d.msg []).isOk

/-- No dispatch that is about to call `Send` is at or past the `timeout_at` of its
row. -/
def SendsInTime (cfg : WorkerConfig) (s : Outbox) : Prop :=
  ∀ (i : Nat) (d : Dispatch), s.dispatches[i]? = some d →
    (d.act cfg s.now .send).isSome = true →
      ∀ r ∈ s.table, r.id = d.msg.id → ∀ t ∈ r.timeoutAt, s.now < t

/-- The step takes a dispatch from its claim towards `Send`, or is the call of
`Send`. -/
def TowardsSend (_ : Outbox) (a : Label) : Prop :=
  ∃ i, a = .dispatch i .start ∨ (∃ r, a = .dispatch i (.downloaded r)) ∨ a = .dispatch i .send

/-- Wherever the run has come, also when the dispatches go on to `Send` without a
further delay, none calls `Send` for a row at or after its `timeout_at`. -/
def ExpiredNeverSent (cfg : WorkerConfig) (tr : List Label) : Prop :=
  Always (Outbox.step cfg) Outbox.init tr fun s =>
    ∀ tr' s', RunOf (Outbox.step cfg) TowardsSend s tr' s' → SendsInTime cfg s'

/-- The clock does not reach the `timeout_at` of a message while a dispatch of it
is between its claim and its call of `Send`. -/
def ClockInTime (cfg : WorkerConfig) (s : Outbox) : Label → Prop
  | .advance dt =>
      ∀ d ∈ s.dispatches, d.beforeSend = true → d.sendable cfg = true →
        ∀ t ∈ d.msg.timeoutAt, s.now + dt < t
  | _ => True

instance (cfg : WorkerConfig) (s : Outbox) (a : Label) : Decidable (ClockInTime cfg s a) :=
  match a with
  | .advance _ => inferInstanceAs (Decidable (∀ d ∈ s.dispatches, _ → _))
  | .insert _ _ | .claim _ _ | .dispatch _ _ | .reap | .resend _ | .updateStatus _ _ =>
      isTrue trivial

/-! ## Dispatches on their way to `Send` -/

theorem Dispatch.sendable_iff : d.sendable cfg = true ↔
    ∃ params, buildSendParams cfg.account d.msg [] = .ok params := by
  unfold Dispatch.sendable
  cases buildSendParams cfg.account d.msg [] <;> simp [Except.isOk, Except.toBool]

theorem Dispatch.sendable_of_built {paths : List String} {params : SendParams}
    (h : buildSendParams cfg.account d.msg paths = .ok params) : d.sendable cfg = true := by
  rw [buildSendParams_paths] at h
  rw [Dispatch.sendable_iff]
  cases hb : buildSendParams cfg.account d.msg [] with
  | ok p => exact ⟨p, rfl⟩
  | error e => rw [hb] at h; cases h

/-- A dispatch before its `Send` was there before the step as well. -/
theorem Evolves.beforeSend {now : Int} {i : Nat} (h : Evolves cfg now i a d d')
    (hb : d'.beforeSend = true) : d.beforeSend = true := by
  rcases h.cases_act with ⟨ac, _, _, hstep⟩ | ⟨_, hp, _, _⟩
  · cases hstep with
    | cancel => exact hb
    | start hp => simp [Dispatch.beforeSend, hp]
    | built hp _ => simp [Dispatch.beforeSend, hp]
    | markSent hp =>
        simp only [Dispatch.beforeSend, Dispatch.afterMarkSent] at hb
        split_ifs at hb
    | markFailed hp _ =>
        simp only [Dispatch.beforeSend, Dispatch.afterMarkFailed] at hb
        split_ifs at hb
    | _ => cases hb
  · simpa only [Dispatch.beforeSend, hp] using hb

/-- What is known of every run: dispatches have their rows, and parameters are
built from messages that can be sent. -/
structure ExpiryInv (cfg : WorkerConfig) (s : Outbox) : Prop where
  owned : Owned s
  built : ∀ (i : Nat) (d : Dispatch) (params : SendParams), s.dispatches[i]? = some d →
    d.phase = .ready params → d.sendable cfg = true

theorem expiryInv_init : ExpiryInv cfg Outbox.init := ⟨owned_init, by intro i d _ hd; cases hd⟩

theorem ExpiryInv.step (hI : ExpiryInv cfg s) (h : s.step cfg a = some s') : ExpiryInv cfg s' := by
  refine ⟨hI.owned.step h, fun i d' params hd' hp' => ?_⟩
  rcases Outbox.dispatch_step h hd' with ⟨d, hd, hev⟩ | ⟨_, _, _, _, _, rfl⟩
  · have hold : d.phase = .ready params → d'.sendable cfg = true := fun hp => by
      simpa only [Dispatch.sendable, hev.msg_eq] using hI.built i d params hd hp
    rcases hev.cases_act with ⟨ac, _, _, hstep⟩ | ⟨_, hp, _, _⟩
    · cases hstep with
      | built _ hb => exact Dispatch.sendable_of_built hb
      | cancel => exact hold hp'
      | markSent _ =>
          simp only [Dispatch.afterMarkSent] at hp'
          split_ifs at hp'
      | markFailed _ _ =>
          simp only [Dispatch.afterMarkFailed] at hp'
          split_ifs at hp'
      | _ => cases hp'
    · exact hold (hp ▸ hp')
  · cases hp'

/-- Every message on its way to `Send` is before its `timeout_at`. -/
def Unexpired (cfg : WorkerConfig) (s : Outbox) : Prop :=
  ∀ (i : Nat) (d : Dispatch), s.dispatches[i]? = some d → d.beforeSend = true →
    d.sendable cfg = true → ∀ t ∈ d.msg.timeoutAt, s.now < t

theorem Unexpired.sendsInTime (hI : ExpiryInv cfg s) (hK : Unexpired cfg s) :
    SendsInTime cfg s := by
  intro i d hd hsend r hr hid t ht
  obtain ⟨d', hact⟩ := Option.isSome_iff_exists.mp hsend
  cases Dispatch.act_step hact with
  | @send params hp =>
      have hfix := hI.owned.fixed_eq hd hr hid
      have htimeout : r.timeoutAt = d.msg.timeoutAt := SignalMessage.timeoutAt_eq_of_fixed hfix
      exact hK i d hd (by simp [Dispatch.beforeSend, hp]) (hI.built i d params hd hp) t
        (htimeout ▸ ht)

/-- A step keeps the messages on their way unexpired exactly when the clock stays
in time. -/
theorem Unexpired.step_iff (hK : Unexpired cfg s) (h : s.step cfg a = some s') :
    Unexpired cfg s' ↔ ClockInTime cfg s a := by
  by_cases ha : ∃ dt, a = .advance dt
  · obtain ⟨dt, rfl⟩ := ha
    cases h
    constructor
    · intro hK' d hd hb hs t ht
      obtain ⟨i, hi⟩ := List.mem_iff_getElem?.mp hd
      exact hK' i d hi hb hs t ht
    · intro hok i d hd hb hs t ht
      exact hok d (List.mem_of_getElem? hd) hb hs t ht
  · have hnow : s'.now = s.now := by
      rw [Outbox.step_now h]
      cases a with
      | advance dt => exact absurd ⟨dt, rfl⟩ ha
      | _ => exact add_zero _
    have hok : ClockInTime cfg s a := by
      cases a with
      | advance dt => exact absurd ⟨dt, rfl⟩ ha
      | _ => trivial
    refine ⟨fun _ => hok, fun _ i d' hd' hb hs t ht => ?_⟩
    rw [hnow]
    rcases Outbox.dispatch_step h hd' with ⟨d, hd, hev⟩ | ⟨locked, c, _, hc, _, rfl⟩
    · rw [Dispatch.sendable, hev.msg_eq] at hs
      exact hK i d hd (hev.beforeSend hb) hs t (hev.msg_eq ▸ ht)
    · -- A row is claimed before its `timeout_at` only.
      exact (Messages.claimCandidate_mem hc).2.1.2.2.2 t ht

/-! ## Runs -/

/-- A dispatch that has its parameters. -/
theorem SendsInTime.of_ready {i : Nat} {params : SendParams} (hI : ExpiryInv cfg s)
    (h : SendsInTime cfg s) (hd : s.dispatches[i]? = some d) (hp : d.phase = .ready params) :
    ∀ t ∈ d.msg.timeoutAt, s.now < t := by
  intro t ht
  obtain ⟨r, hr, hfix⟩ := hI.owned i d hd
  have htimeout : r.timeoutAt = d.msg.timeoutAt := SignalMessage.timeoutAt_eq_of_fixed hfix
  have hact : (d.act cfg s.now .send).isSome = true := by simp [Dispatch.act, hp]
  exact h i d hd hact r hr (SignalMessage.id_eq_of_fixed hfix) t (htimeout ▸ ht)

/-- A step of a dispatch that is enabled. -/
theorem Outbox.step_act {i : Nat} {ac : Act} (hd : s.dispatches[i]? = some d)
    (hact : d.act cfg s.now ac = some d') :
    ∃ s', s.step cfg (.dispatch i ac) = some s' ∧ s'.now = s.now ∧
      s'.dispatches[i]? = some d' := by
  refine ⟨_, by simp only [Outbox.step, Outbox.dispatches?, hd, Option.bind_some, hact,
    Option.map_some]; rfl, add_zero _, Places.set_self hd⟩

/-- A dispatch that downloads can have its parameters at once. -/
theorem downloading_inTime {i : Nat} (hI : ExpiryInv cfg s) (hd : s.dispatches[i]? = some d)
    (hp : d.phase = .downloading) (hs : d.sendable cfg = true)
    (h : ∀ tr s', RunOf (Outbox.step cfg) TowardsSend s tr s' → SendsInTime cfg s') :
    ∀ t ∈ d.msg.timeoutAt, s.now < t := by
  obtain ⟨params, hb⟩ := Dispatch.sendable_iff.mp hs
  have hact : d.act cfg s.now (.downloaded (.ok [])) = some { d with phase := .ready params } := by
    simp only [Dispatch.act, hp, hb]
  obtain ⟨s₁, hs₁, hnow, hd₁⟩ := Outbox.step_act hd hact
  have hin := h _ s₁ (.snoc .nil ⟨i, Or.inr (Or.inl ⟨_, rfl⟩)⟩ hs₁)
  have hlt := hin.of_ready (hI.step hs₁) hd₁ rfl
  rwa [hnow] at hlt

/-- Where no continuation sends late, every message on its way is unexpired: its
dispatch can reach `Send` before the clock moves. -/
theorem Unexpired.of_continued (hI : ExpiryInv cfg s)
    (h : ∀ tr s', RunOf (Outbox.step cfg) TowardsSend s tr s' → SendsInTime cfg s') :
    Unexpired cfg s := by
  intro i d hd hb hs
  cases hp : d.phase with
  | claimed =>
      have hact : d.act cfg s.now .start = some { d with
          phase := .downloading
          deadline := some (s.now + cfg.perAttemptTimeout) } := by
        simp only [Dispatch.act, hp]
      obtain ⟨s₁, hs₁, hnow, hd₁⟩ := Outbox.step_act hd hact
      have hrun : RunOf (Outbox.step cfg) TowardsSend s [.dispatch i .start] s₁ :=
        .snoc .nil ⟨i, Or.inl rfl⟩ hs₁
      have hlt := downloading_inTime (hI.step hs₁) hd₁ rfl hs
        fun tr s' hr => h _ s' (hrun.trans hr)
      rwa [hnow] at hlt
  | downloading => exact downloading_inTime hI hd hp hs h
  | ready params => exact (h [] s .nil).of_ready hI hd hp
  | _ => simp [Dispatch.beforeSend, hp] at hb

/-- Along any run, no dispatch calls `Send` for a row at or after its
`timeout_at`, also not when it goes on without a further delay, exactly when the
clock never reaches the `timeout_at` of a message while a dispatch of it is
between its claim and its call of `Send`. -/
theorem sends_in_time_iff {tr : List Label} (hr : Run (Outbox.step cfg) Outbox.init tr s) :
    ExpiredNeverSent cfg tr ↔
      RunOf (Outbox.step cfg) (ClockInTime cfg) Outbox.init tr s := by
  refine hr.always_continued_iff (J := ExpiryInv cfg) (K := Unexpired cfg) expiryInv_init
    (by intro i d hd; cases hd) (fun _ _ _ hI _ hs => hI.step hs) (fun _ _ _ => trivial)
    (fun _ hI hK => hK.sendsInTime hI) ?_ (fun _ hI h => .of_continued hI h)
    (fun _ _ _ _ hK _ hs => hK.step_iff hs)
  intro s a s' _ hK hto hs
  refine (hK.step_iff hs).mpr ?_
  obtain ⟨i, rfl | ⟨r, rfl⟩ | rfl⟩ := hto <;> trivial

/-- A message is sent a second before its deadline; the reply comes after it. -/
def sentInTimeTrace : List Label :=
  [.insert "m-1" { plainParams with timeoutAt := some 10000000000 }, .advance 5000000000,
    .claim [] .committed, .dispatch 0 .start, .advance 4000000000,
    .dispatch 0 (.downloaded (.ok [])), .dispatch 0 .send, .advance 2000000000, .reap,
    .dispatch 0 (.sendReturned (.ok { timestamp := 1700000001 })),
    .dispatch 0 (.markSent .committed)]

/-- Time may pass the deadline once `Send` has been called. -/
theorem sentInTime_expired_never_sent : ExpiredNeverSent defaultConfig sentInTimeTrace :=
  (sends_in_time_iff (run_of_exec rfl)).mpr (runOf_of_execOf rfl)

/-- The attachments of a message take until its deadline, and the reaper times the
message out meanwhile. -/
def slowDownloadTrace : List Label :=
  [.insert "m-1" { plainParams with timeoutAt := some 10000000000 }, .claim [] .committed,
    .dispatch 0 .start, .advance 10000000000, .reap, .dispatch 0 (.downloaded (.ok [])),
    .dispatch 0 .send]

/-- The last step of `slowDownloadTrace` calls `Send` at the `timeout_at` of a row
that is already `TIMED_OUT`. -/
theorem slowDownload_sends_expired :
    ∃ s s', Run (Outbox.step defaultConfig) Outbox.init (slowDownloadTrace.take 6) s ∧
      s.step defaultConfig (.dispatch 0 .send) = some s' ∧
      (s.table.rows.map fun r => (r.status, r.timeoutAt)) = [(.timedOut, some s.now)] ∧
      ¬ ExpiredNeverSent defaultConfig slowDownloadTrace := by
  refine ⟨_, _, run_of_exec rfl, rfl, rfl, fun h => ?_⟩
  have hin := h (slowDownloadTrace.take 6) [.dispatch 0 .send] _ rfl (run_of_exec rfl) [] _ .nil
  have hlt := hin 0 _ rfl rfl _ (List.mem_singleton_self _) rfl 10000000000 rfl
  exact absurd hlt (by decide)

end Signalium
