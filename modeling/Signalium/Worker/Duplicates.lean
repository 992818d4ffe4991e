import Signalium.Worker.Steps

/-!
# A delivered message is not sent again

A row whose message `Send` has delivered must not reach `Send` a second time
(`DuplicateFree`).  Between the reply and the committed `MarkSent` only the
lease protects the row, and the calls of `markSent` share the context of the
attempt: when it is done they fail without reaching the database, the row stays
`SENDING`, and the next worker sends the message again.

The condition under which no duplicate can happen (`Careful`) is about leases and
deadlines: a dispatch calls `Send` and has its reply within the lease its claim
wrote, the lease does not end while the delivery is being recorded, the calls of
`markSent` and the pauses between them come before the deadline of the attempt,
and the last of the three calls is executed if no earlier one was.

Rows an operator has called on are out of scope from then on, which is what the
history field `touched` of a dispatch tells.
-/

namespace Signalium

open Runs Tables

variable {cfg : WorkerConfig} {now now' : Int} {s s' : Outbox} {a : Label} {d d' : Dispatch}
  {r r' : Row} {i : Nat}

/-- The dispatch is inside `markSent`. -/
def Dispatch.inMarkSent (d : Dispatch) : Bool :=
  match d.phase with
  | .marking _ _ | .sleeping _ _ _ => true
  | _ => false

/-- If the `MarkSent` call of the dispatch fails, another one follows. -/
def Dispatch.triesLeft (d : Dispatch) : Bool :=
  match d.phase with
  | .marking _ i => i < 2
  | _ => false

/-- `Send` has returned success. -/
def Dispatch.delivered (d : Dispatch) : Bool :=
  match d.phase with
  | .marking _ _ | .sleeping _ _ _ | .done .sent | .done .markSentFailed => true
  | _ => false

/-- The step does not pass a row to `Send` that another dispatch has delivered,
unless an operator has called on the row since one of the two claims. -/
def SendsFresh (s : Outbox) (a : Label) : Prop :=
  ∀ (i j : Nat) (d e : Dispatch), a = .dispatch j .send → s.dispatches[i]? = some d →
    s.dispatches[j]? = some e → d.msg.id = e.msg.id → d.touched = false → e.touched = false →
      d.delivered = false

/-- No step of the run sends a delivered message again. -/
def DuplicateFree (cfg : WorkerConfig) (tr : List Label) : Prop :=
  ∀ tr₁ a tr₂ s, tr = tr₁ ++ a :: tr₂ → Run (Outbox.step cfg) Outbox.init tr₁ s → SendsFresh s a

/-- The process of a dispatch crashes or is stopped. -/
def Label.disturbs : Label → Bool
  | .dispatch _ .crash | .dispatch _ .cancel => true
  | _ => false

/-- The act is a call of `Send` or its success. -/
def Act.delivers : Act → Bool
  | .send | .sendReturned (.ok _) => true
  | _ => false

/-- `markSent` calls `MarkSent` before the deadline of the attempt, the call is executed
or not the last one, and the pause after it ends before the deadline. -/
def Dispatch.MarksInTime (now : Int) (d : Dispatch) : Act → Prop
  | .markSent r => d.Live now ∧ (r ≠ .unreached ∨ d.triesLeft = true)
  | .wake _ => d.Live now
  | _ => True

instance (now : Int) (d : Dispatch) : (ac : Act) → Decidable (d.MarksInTime now ac)
  | .markSent r => inferInstanceAs (Decidable (d.Live now ∧ (r ≠ .unreached ∨ d.triesLeft = true)))
  | .wake _ => inferInstanceAs (Decidable (d.Live now))
  | .start | .downloaded _ | .send | .sendReturned _ | .markFailed _ _ | .crash | .cancel =>
      .isTrue trivial

/-- The step of a dispatch sends and delivers within its lease, and records the
delivery before its deadline. -/
def Dispatch.OnTime (now : Int) (d : Dispatch) (ac : Act) : Prop :=
  (ac.delivers = true → now ≤ d.msg.nextAttemptAt) ∧ d.MarksInTime now ac

instance (now : Int) (d : Dispatch) (ac : Act) : Decidable (d.OnTime now ac) :=
  inferInstanceAs (Decidable (_ ∧ _))

/-- Deliveries are made and recorded within the lease. -/
def Recorded (s : Outbox) : Label → Prop
  | .dispatch i ac => ∀ d ∈ s.dispatches[i]?, d.OnTime s.now ac
  | .advance dt => ∀ d ∈ s.dispatches, d.inMarkSent = true → s.now + dt ≤ d.msg.nextAttemptAt
  | _ => True

instance (s : Outbox) (a : Label) : Decidable (Recorded s a) :=
  match a with
  | .dispatch i ac => inferInstanceAs (Decidable (∀ d ∈ s.dispatches[i]?, d.OnTime s.now ac))
  | .advance _ => inferInstanceAs (Decidable (∀ d ∈ s.dispatches, _ → _))
  | .insert _ _ | .claim _ _ | .reap | .resend _ | .updateStatus _ _ =>
      inferInstanceAs (Decidable True)

/-- No process crashes or is stopped, and deliveries are recorded. -/
def Careful (s : Outbox) (a : Label) : Prop := a.disturbs = false ∧ Recorded s a

instance (s : Outbox) (a : Label) : Decidable (Careful s a) :=
  inferInstanceAs (Decidable (_ ∧ _))

/-! ## Rows and leases -/

/-- The row is neither waiting nor being sent, so no worker can claim it. -/
def Row.Settled (r : Row) : Prop := r.status ≠ .pending ∧ r.status ≠ .sending

theorem Row.Settled.not_claimable (h : r.Settled) : ¬ r.Claimable now := by
  rintro ⟨_, hs | ⟨hs, _⟩, _⟩
  · exact h.1 hs
  · exact h.2 hs

/-- A step other than an operator's call on the row leaves it alone, claims it, or
settles it. -/
theorem Outbox.effect_cases (hr : r ∈ s.table) (hop : a.operates? ≠ some r.id) :
    s.effect cfg a r = r ∨ r.Claimable s.now ∨ (s.effect cfg a r).Settled := by
  rcases Outbox.effect_step cfg a hr with he | ⟨st, hex, hstep⟩
  · exact Or.inl he
  · generalize s.effect cfg a r = r' at hstep
    cases hstep with
    | unchanged => exact Or.inl rfl
    | claimed _ hc => exact Or.inr (Or.inl hc)
    | sent => exact Or.inr (Or.inr (by simp [Row.Settled, Row.markSent]))
    | failed =>
        refine Or.inr (Or.inr ?_)
        simp only [Row.Settled, Row.markFailed]
        split_ifs <;> simp
    | timedOut _ => exact Or.inr (Or.inr (by simp [Row.Settled, Row.markTimedOut]))
    | resent _ => rw [hex.resend_inv] at hop; exact absurd rfl hop
    | updated _ => rw [hex.updateStatus_inv] at hop; exact absurd rfl hop

theorem Row.Settled.step (h : r.Settled) (hr : r ∈ s.table) (hop : a.operates? ≠ some r.id) :
    (s.effect cfg a r).Settled := by
  rcases Outbox.effect_cases hr hop with he | hc | hset
  · rw [he]; exact h
  · exact absurd hc h.not_claimable
  · exact hset

/-- The row is still the dispatch's, or settled. -/
def KeptBy (d : Dispatch) (r : Row) : Prop :=
  (r.status = .sending ∧ r.nextAttemptAt = d.msg.nextAttemptAt) ∨ r.Settled

theorem KeptBy.not_claimable (h : KeptBy d r) (hn : now ≤ d.msg.nextAttemptAt) :
    ¬ r.Claimable now := by
  rcases h with ⟨hs, hl⟩ | hset
  · rintro ⟨_, hp | ⟨_, hlt⟩, _⟩
    · rw [hs] at hp; cases hp
    · omega
  · exact hset.not_claimable

theorem KeptBy.step (h : KeptBy d r) (hr : r ∈ s.table) (hn : s.now ≤ d.msg.nextAttemptAt)
    (hop : a.operates? ≠ some r.id) : KeptBy d (s.effect cfg a r) := by
  rcases Outbox.effect_cases hr hop with he | hc | hset
  · rw [he]; exact h
  · exact absurd hc (h.not_claimable hn)
  · exact Or.inr hset

/-! ## Dispatches that have delivered -/

/-- A dispatch becomes delivered by the success of `Send`, within its lease. -/
theorem ActStep.delivered_inv {ac : Act} (h : ActStep cfg now d ac d')
    (hd : d.delivered = false) (hd' : d'.delivered = true) :
    ac.delivers = true ∧ d'.inMarkSent = true := by
  cases h with
  | delivered _ => exact ⟨rfl, rfl⟩
  | cancel => rw [show d.delivered = true from hd'] at hd; cases hd
  | markFailed _ _ =>
      simp only [Dispatch.delivered, Dispatch.afterMarkFailed] at hd'
      split_ifs at hd'
  | markSent hp | woken hp _ | interrupted hp _ => simp [Dispatch.delivered, hp] at hd
  | _ => cases hd'

/-- A dispatch that is in time leaves `markSent` by a call that is executed, unless it
crashes. -/
theorem ActStep.inMarkSent_inv {ac : Act} (h : ActStep cfg now d ac d') (hd : d.inMarkSent = true)
    (hin : d.MarksInTime now ac) (hcrash : ac ≠ .crash) :
    d'.inMarkSent = true ∨
      ∃ res k r, ac = .markSent r ∧ d.phase = .marking res k ∧ d.reply now r ≠ .unreached := by
  cases h with
  | @markSent res k r hp =>
      obtain ⟨hlive, hexec | htries⟩ := hin
      · refine Or.inr ⟨res, k, r, rfl, hp, ?_⟩
        rw [Dispatch.reply, if_pos hlive]
        exact hexec
      · by_cases hrep : d.reply now r = .committed
        · exact Or.inr ⟨res, k, r, rfl, hp, by simp [hrep]⟩
        · have hk : k < 2 := by simpa [Dispatch.triesLeft, hp] using htries
          have hpause : d.Live now ∧ k < 2 := ⟨hlive, hk⟩
          left
          simp only [Dispatch.inMarkSent, Dispatch.afterMarkSent, if_neg hrep, if_pos hpause]
  | woken _ _ => exact Or.inl rfl
  | interrupted _ hdead => exact absurd hin hdead
  | crash _ => exact absurd rfl hcrash
  | cancel => exact Or.inl hd
  | start hp | downloadFailed hp | refused hp _ | built hp _ | send hp | sendFailed hp
  | delivered hp | markFailed hp _ => simp [Dispatch.inMarkSent, hp] at hd

/-! ## The invariant -/

/-- Untouched dispatches and their rows. -/
structure DeliveryInv (s : Outbox) : Prop where
  owned : Owned s
  /-- Within its lease a dispatch keeps its row. -/
  kept : ∀ (i : Nat) (d : Dispatch), s.dispatches[i]? = some d → d.touched = false →
    s.now ≤ d.msg.nextAttemptAt → ∀ r ∈ s.table, r.id = d.msg.id → KeptBy d r
  /-- A delivery is being recorded within the lease, or its row is settled. -/
  recorded : ∀ (i : Nat) (d : Dispatch), s.dispatches[i]? = some d → d.touched = false →
    d.delivered = true → (d.inMarkSent = true ∧ s.now ≤ d.msg.nextAttemptAt) ∨
      ∀ r ∈ s.table, r.id = d.msg.id → r.Settled
  /-- A later claim of the row finds the lease over and nothing delivered. -/
  overtaken : ∀ (i j : Nat) (d e : Dispatch), i < j → s.dispatches[i]? = some d →
    s.dispatches[j]? = some e → d.msg.id = e.msg.id → d.touched = false →
      d.msg.nextAttemptAt < s.now ∧ d.delivered = false

theorem deliveryInv_init : DeliveryInv Outbox.init := by
  refine ⟨owned_init, ?_, ?_, ?_⟩
  · intro i d hd; cases hd
  · intro i d hd; cases hd
  · intro i j d e _ hd; cases hd

/-- A claim finds the lease of every untouched dispatch of the row over, and
nothing delivered. -/
theorem DeliveryInv.claim_overtakes (hI : DeliveryInv s) (hd : s.dispatches[i]? = some d)
    (ht : d.touched = false) {locked : List UUID} {c : Row}
    (hc : s.table.claimCandidate s.now locked = some c) (hid : c.id = d.msg.id) :
    d.msg.nextAttemptAt < s.now ∧ d.delivered = false := by
  obtain ⟨hct, hclaim, _⟩ := Messages.claimCandidate_mem hc
  have hover : d.msg.nextAttemptAt < s.now := by
    by_contra hle
    exact (hI.kept i d hd ht (by omega) c hct hid).not_claimable (by omega) hclaim
  refine ⟨hover, ?_⟩
  by_contra hdel
  rcases hI.recorded i d hd ht (by simpa using hdel) with ⟨_, hle⟩ | hset
  · omega
  · exact (hset c hct hid).not_claimable hclaim

theorem DeliveryInv.kept_step (hI : DeliveryInv s) (h : s.step cfg a = some s')
    (hd' : s'.dispatches[i]? = some d') (ht : d'.touched = false)
    (hn : s'.now ≤ d'.msg.nextAttemptAt) (hr' : r' ∈ s'.table) (hid : r'.id = d'.msg.id) :
    KeptBy d' r' := by
  have hle := Outbox.step_now_le h
  rcases Outbox.dispatch_step h hd' with ⟨d, hd, hev⟩ | ⟨locked, c, rfl, hc, _, rfl⟩
  · have hmsg := hev.msg_eq
    obtain ⟨htd, hop⟩ := hev.untouched ht
    rw [hmsg] at hn hid
    obtain ⟨r, hr, hrid, rfl⟩ := hI.owned.row_step h hd hr' hid
    have hkept : KeptBy d (s.effect cfg a r) :=
      (hI.kept i d hd htd (by omega) r hr hrid).step hr (by omega) (hrid ▸ hop)
    simpa only [KeptBy, hmsg] using hkept
  · rw [s'.table.row_unique hr' (Outbox.claimed_mem h hc) hid]
    exact Or.inl ⟨rfl, rfl⟩

/-- The clock does not leave a delivery behind that is being recorded. -/
theorem Recorded.now_le (hok : Recorded s a) (hd : s.dispatches[i]? = some d)
    (hm : d.inMarkSent = true) (hn : s.now ≤ d.msg.nextAttemptAt) :
    s.now + a.elapsed ≤ d.msg.nextAttemptAt := by
  cases a with
  | advance dt => exact hok d (List.mem_of_getElem? hd) hm
  | _ => simpa [Label.elapsed] using hn

/-- The row of a dispatch whose `MarkSent` is executed is `SENT`. -/
theorem Outbox.effect_markSent {rep : DbReply} {res : SendResult} {k : Nat}
    (hd : s.dispatches[i]? = some d) (hp : d.phase = .marking res k)
    (hrep : d.reply s.now rep ≠ .unreached) (hid : r.id = d.msg.id) :
    s.effect cfg (.dispatch i (.markSent rep)) r = r.markSent s.now res.resultID := by
  simp [Outbox.effect, Outbox.stmt?, hd, Dispatch.stmt?, hp, hrep, Stmt.effect, hid]

/-- A dispatch that stays out of the way of crashes and has delivered before the
step is still being recorded, or its row is settled. -/
theorem DeliveryInv.recorded_old (hI : DeliveryInv s) (hok : Careful s a)
    (h : s.step cfg a = some s') (hd : s.dispatches[i]? = some d) (hev : Evolves cfg s.now i a d d')
    (ht : d'.touched = false) (hdel : d.delivered = true) :
    (d'.inMarkSent = true ∧ s'.now ≤ d.msg.nextAttemptAt) ∨
      ∀ r' ∈ s'.table, r'.id = d.msg.id → r'.Settled := by
  obtain ⟨htd, hop⟩ := hev.untouched ht
  rcases hI.recorded i d hd htd hdel with ⟨hm, hn⟩ | hset
  · have hnow : s'.now ≤ d.msg.nextAttemptAt := by
      rw [Outbox.step_now h]
      exact hok.2.now_le hd hm hn
    rcases hev.cases_act with ⟨ac, rfl, _, hact⟩ | ⟨_, hphase, _⟩
    · have hcrash : ac ≠ .crash := by rintro rfl; cases hok.1
      rcases hact.inMarkSent_inv hm (hok.2 d hd).2 hcrash with hm' | ⟨res, k, rep, rfl, hp, hrep⟩
      · exact Or.inl ⟨hm', hnow⟩
      · refine Or.inr fun r' hr' hid => ?_
        obtain ⟨r, _, hrid, rfl⟩ := hI.owned.row_step h hd hr' hid
        rw [Outbox.effect_markSent hd hp hrep hrid]
        simp [Row.Settled, Row.markSent]
    · exact Or.inl ⟨by simpa only [Dispatch.inMarkSent, hphase] using hm, hnow⟩
  · refine Or.inr fun r' hr' hid => ?_
    obtain ⟨r, hr, hrid, rfl⟩ := hI.owned.row_step h hd hr' hid
    exact (hset r hr hrid).step hr (hrid ▸ hop)

theorem DeliveryInv.recorded_step (hI : DeliveryInv s) (hok : Careful s a)
    (h : s.step cfg a = some s') (hd' : s'.dispatches[i]? = some d') (ht : d'.touched = false)
    (hdel' : d'.delivered = true) :
    (d'.inMarkSent = true ∧ s'.now ≤ d'.msg.nextAttemptAt) ∨
      ∀ r' ∈ s'.table, r'.id = d'.msg.id → r'.Settled := by
  rcases Outbox.dispatch_step h hd' with ⟨d, hd, hev⟩ | ⟨locked, c, rfl, hc, _, rfl⟩
  · rw [hev.msg_eq]
    cases hdel : d.delivered with
    | true => exact hI.recorded_old hok h hd hev ht hdel
    | false =>
        rcases hev.cases_act with ⟨ac, rfl, heq, hact⟩ | ⟨_, hphase, _⟩
        · obtain ⟨hdlv, hm⟩ := hact.delivered_inv hdel hdel'
          have hnow : s'.now = s.now := by rw [Outbox.step_now h]; simp [Label.elapsed]
          exact Or.inl ⟨hm, hnow ▸ (hok.2 d hd).1 hdlv⟩
        · simp only [Dispatch.delivered, hphase] at hdel hdel'
          rw [hdel] at hdel'
          cases hdel'
  · cases hdel'

theorem DeliveryInv.overtaken_step (hI : DeliveryInv s) (hok : Careful s a)
    (h : s.step cfg a = some s') {j : Nat} {e' : Dispatch} (hij : i < j)
    (hd' : s'.dispatches[i]? = some d') (he' : s'.dispatches[j]? = some e')
    (hid : d'.msg.id = e'.msg.id) (ht : d'.touched = false) :
    d'.msg.nextAttemptAt < s'.now ∧ d'.delivered = false := by
  have hle := Outbox.step_now_le h
  rcases Outbox.dispatch_step h hd' with ⟨d, hd, hev⟩ | ⟨locked, c, rfl, hc, hi, rfl⟩
  · have hmsg := hev.msg_eq
    obtain ⟨htd, _⟩ := hev.untouched ht
    have hbefore : d.msg.nextAttemptAt < s.now ∧ d.delivered = false := by
      rcases Outbox.dispatch_step h he' with ⟨e, he, hev'⟩ | ⟨locked, c, rfl, hc, _, rfl⟩
      · rw [hmsg, hev'.msg_eq] at hid
        exact hI.overtaken i j d e hij hd he hid htd
      · rw [hmsg] at hid
        exact hI.claim_overtakes hd htd hc hid.symm
    rw [hmsg]
    refine ⟨by omega, ?_⟩
    by_contra hdel'
    -- a delivery after the lease is excluded
    rcases hev.cases_act with ⟨ac, rfl, heq, hact⟩ | ⟨_, hphase, _⟩
    · obtain ⟨hdlv, _⟩ := hact.delivered_inv hbefore.2 (by simpa using hdel')
      have := (hok.2 d hd).1 hdlv
      omega
    · simp only [Dispatch.delivered, hphase] at hdel'
      exact hdel' hbefore.2
  · -- the dispatch just started is the last one
    rcases Outbox.dispatch_step h he' with ⟨e, he, _⟩ | ⟨_, _, _, _, hj, _⟩
    · have := (List.getElem?_eq_some_iff.mp he).1
      omega
    · omega

theorem DeliveryInv.step (hI : DeliveryInv s) (hok : Careful s a)
    (h : s.step cfg a = some s') : DeliveryInv s' where
  owned := hI.owned.step h
  kept := fun _ _ hd' ht hn _ hr' hid => hI.kept_step h hd' ht hn hr' hid
  recorded := fun _ _ hd' ht hdel => hI.recorded_step hok h hd' ht hdel
  overtaken := fun _ _ _ _ hij hd' he' hid ht => hI.overtaken_step hok h hij hd' he' hid ht

/-- A `Send` call within its lease is for a row that no other dispatch has
delivered. -/
theorem DeliveryInv.sendsFresh (hI : DeliveryInv s) (hok : Careful s a)
    (h : s.step cfg a = some s') : SendsFresh s a := by
  rintro i j d e rfl hd he hid htd hte
  have hlease : s.now ≤ e.msg.nextAttemptAt := (hok.2 e he).1 rfl
  rcases Nat.lt_trichotomy i j with hij | rfl | hji
  · exact (hI.overtaken i j d e hij hd he hid htd).2
  · -- the caller itself has no reply yet
    obtain ⟨d₁, d', hd₁, hact, _⟩ := Outbox.step_dispatch h
    rw [hd] at hd₁
    cases hd₁
    cases Dispatch.act_step hact with
    | send hp => simp [Dispatch.delivered, hp]
  · have := (hI.overtaken j i e d hji he hd hid.symm hte).1
    omega

/-- In every run in which no process crashes or is stopped, every dispatch calls
`Send` and has its success within its lease, no lease ends while a delivery is
being recorded, every call and every pause of `markSent` comes before the deadline
of its attempt, and a call that is not executed is not the last one, no delivered
message is passed to `Send` again. -/
theorem no_duplicate_delivery {tr : List Label}
    (hr : RunOf (Outbox.step cfg) Careful Outbox.init tr s) : DuplicateFree cfg tr := by
  intro tr₁ a tr₂ m he hm
  subst he
  obtain ⟨m₁, m', hm₁, hok, hs, _⟩ := hr.step_at
  cases hm₁.state_unique hm
  have hI := hm₁.invariant deliveryInv_init fun _ _ _ hI hok hs => hI.step hok hs
  exact hI.sendsFresh hok hs

/-- A message is delivered, its record takes two calls, and a worker looks for
work after the lease. -/
def recordedTrace : List Label :=
  [.insert "m-1" plainParams, .claim [] .committed, .dispatch 0 .start,
    .dispatch 0 (.downloaded (.ok [])), .dispatch 0 .send, .advance 1000000000,
    .dispatch 0 (.sendReturned (.ok { timestamp := 1700000001 })),
    .dispatch 0 (.markSent .unreached), .advance 50000000, .dispatch 0 (.wake true),
    .dispatch 0 (.markSent .committed), .advance 301000000000, .claim [] .committed]

theorem recorded_no_duplicate : DuplicateFree defaultConfig recordedTrace :=
  no_duplicate_delivery (runOf_of_execOf rfl)

/-- The reply comes one nanosecond before the deadline of the attempt.  The call of
`MarkSent` comes too late to reach the database, the lease ends, and the next
worker sends the message again. -/
def expiredTrace : List Label :=
  [.insert "m-1" plainParams, .claim [] .committed, .dispatch 0 .start,
    .dispatch 0 (.downloaded (.ok [])), .dispatch 0 .send, .advance 59999999999,
    .dispatch 0 (.sendReturned (.ok { timestamp := 1700000001 })), .advance 1,
    .dispatch 0 (.markSent .committed), .advance 241000000000, .claim [] .committed,
    .dispatch 1 .start, .dispatch 1 (.downloaded (.ok [])), .dispatch 1 .send]

/-- Without a crash, with the lease longer than the attempt, a delivered message is
sent twice. -/
theorem expired_context_duplicate :
    defaultConfig.perAttemptTimeout < defaultConfig.leaseDuration ∧
      (∃ s, RunOf (Outbox.step defaultConfig) (fun _ a => a.disturbs = false ∧ a.operates? = none)
        Outbox.init expiredTrace s) ∧
      ¬ DuplicateFree defaultConfig expiredTrace := by
  refine ⟨by decide, ⟨_, runOf_of_execOf rfl⟩, fun h => ?_⟩
  have hfresh := h (expiredTrace.take 13) (.dispatch 1 .send) [] _ rfl (run_of_exec rfl)
  cases hfresh 0 1 _ _ rfl rfl rfl rfl rfl rfl

end Signalium
