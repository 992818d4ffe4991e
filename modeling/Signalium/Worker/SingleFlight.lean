import Signalium.Worker.Steps

/-!
# One dispatch at a time

The lease of a dispatch is the `next_attempt_at` its claim wrote.  As long as
the dispatch is in flight its row is held (`Held`): it is `SENDING` with that
lease, or it is `SENT` because the dispatch's own `MarkSent` committed, or its
deadline `timeout_at` has passed.  In none of the three can `ClaimPending` take
the row, and a `Resend` of a row the reaper timed out does not change the third,
since no statement writes `timeout_at`.

That the lease outlives the dispatch is a matter of the clock.  The lease runs
from the claim and is rounded down to microseconds.  The per-attempt timeout
runs from the start of `dispatch`.  The two are comparable only with a bound on
the time between claim and start (`Prompt`), and the lease must cover that time
as well (`single_flight`).
-/

namespace Signalium

open Runs Tables

variable {cfg : WorkerConfig} {now now' : Int} {s s' : Outbox} {a : Label} {d d' : Dispatch}
  {r r' : Row} {delay : Nat}

/-- `dispatch` has returned. -/
def Dispatch.finished (d : Dispatch) : Bool :=
  match d.phase with
  | .done _ => true
  | _ => false

/-- The row is claimed and `dispatch` has not started. -/
def Dispatch.unstarted (d : Dispatch) : Bool :=
  match d.phase with
  | .claimed => true
  | _ => false

/-- The dispatch has no way to `fail` any more: it has had its reply, or it is
over. -/
def Dispatch.pastFailing (d : Dispatch) : Bool :=
  match d.phase with
  | .marking _ _ | .sleeping _ _ _ | .done _ | .crashed => true
  | _ => false

/-- From the claim to the mark, or to the deadline of the attempt. -/
def Dispatch.InFlight (now : Int) (d : Dispatch) : Prop :=
  d.finished = false ∧ (d.unstarted = true ∨ ∃ t ∈ d.deadline, now ≤ t)

instance (now : Int) (d : Dispatch) : Decidable (d.InFlight now) :=
  inferInstanceAs (Decidable (_ ∧ _))

/-- At most one dispatch of a row is in flight. -/
def SingleFlight (s : Outbox) : Prop :=
  ∀ (i j : Nat) (d e : Dispatch), s.dispatches[i]? = some d → s.dispatches[j]? = some e →
    d.InFlight s.now → e.InFlight s.now → d.msg.id = e.msg.id → i = j

/-- The step leaves no claimed row waiting for its dispatch to start for longer
than `delay`, and does not override a status. -/
def Prompt (delay : Nat) (s : Outbox) (a : Label) : Prop :=
  NoOverride s a ∧
    ∀ d ∈ s.dispatches, d.unstarted = true → s.now + a.elapsed ≤ d.msg.modifiedAt + delay

instance (delay : Nat) (s : Outbox) (a : Label) : Decidable (Prompt delay s a) :=
  inferInstanceAs (Decidable (_ ∧ _))

/-! ## Steps of a dispatch in flight -/

theorem Dispatch.Live.inFlight (h : d.Live now) (hf : d.finished = false) : d.InFlight now := by
  obtain ⟨_, t, ht, hlt⟩ := h
  exact ⟨hf, Or.inr ⟨t, ht, by omega⟩⟩

/-- A dispatch in flight after one of its steps was in flight before. -/
theorem ActStep.inFlight {ac : Act} (h : ActStep cfg now d ac d') (hn : now ≤ now')
    (hf : d'.InFlight now') : d.InFlight now := by
  obtain ⟨hfin, hrest⟩ := hf
  have hlate : (∃ t ∈ d'.deadline, now' ≤ t) → d'.deadline = d.deadline →
      ∃ t ∈ d.deadline, now ≤ t := by
    rintro ⟨t, ht, hle⟩ he
    exact ⟨t, he ▸ ht, by omega⟩
  cases h with
  | start hp => exact ⟨by simp [Dispatch.finished, hp], Or.inl (by simp [Dispatch.unstarted, hp])⟩
  | crash hp =>
      refine ⟨?_, Or.inr (hlate (hrest.resolve_left (by simp [Dispatch.unstarted])) rfl)⟩
      unfold Dispatch.finished
      split
      · next o ho => exact absurd ho (hp o)
      · rfl
  | cancel => exact ⟨hfin, hrest.imp_right fun h => hlate h rfl⟩
  | markSent hp =>
      refine ⟨by simp [Dispatch.finished, hp], Or.inr (hlate (hrest.resolve_left ?_) rfl)⟩
      unfold Dispatch.afterMarkSent
      split_ifs <;> simp [Dispatch.unstarted]
  | markFailed hp _ =>
      refine ⟨by simp [Dispatch.finished, hp], Or.inr (hlate (hrest.resolve_left ?_) rfl)⟩
      unfold Dispatch.afterMarkFailed
      split_ifs <;> simp [Dispatch.unstarted]
  | downloadFailed hp | refused hp _ | built hp _ | send hp | sendFailed hp | delivered hp
  | woken hp _ | interrupted hp _ =>
      exact ⟨by simp [Dispatch.finished, hp],
        Or.inr (hlate (hrest.resolve_left (by simp [Dispatch.unstarted])) rfl)⟩

theorem Evolves.inFlight {i : Nat} (h : Evolves cfg now i a d d') (hn : now ≤ now')
    (hf : d'.InFlight now') : d.InFlight now := by
  rcases h.cases_act with ⟨ac, _, _, hact⟩ | ⟨_, hphase, hdl, _⟩
  · exact hact.inFlight hn hf
  · obtain ⟨hfin, hrest⟩ := hf
    simp only [Dispatch.finished, Dispatch.unstarted, hphase, hdl] at hfin hrest
    exact ⟨hfin, hrest.imp_right fun ⟨t, ht, hle⟩ => ⟨t, ht, by omega⟩⟩

theorem ActStep.unstarted {ac : Act} (h : ActStep cfg now d ac d') (hu : d'.unstarted = true) :
    d.unstarted = true := by
  cases h with
  | cancel => exact hu
  | markSent _ =>
      simp only [Dispatch.unstarted, Dispatch.afterMarkSent] at hu
      split_ifs at hu
  | markFailed _ _ =>
      simp only [Dispatch.unstarted, Dispatch.afterMarkFailed] at hu
      split_ifs at hu
  | _ => cases hu

theorem ActStep.pastFailing {ac : Act} (h : ActStep cfg now d ac d') (hp : d.pastFailing = true) :
    d'.pastFailing = true := by
  cases h with
  | cancel => exact hp
  | markSent _ =>
      simp only [Dispatch.pastFailing, Dispatch.afterMarkSent]
      split_ifs <;> rfl
  | markFailed _ _ =>
      simp only [Dispatch.pastFailing, Dispatch.afterMarkFailed]
      split_ifs <;> rfl
  | woken _ _ | interrupted _ _ | crash _ => rfl
  | start hq | downloadFailed hq | refused hq _ | built hq _ | send hq | sendFailed hq
  | delivered hq => simp [Dispatch.pastFailing, hq] at hp

/-- `fail` returns after its one call. -/
theorem ActStep.finished_of_markFailed {jitter : Int} {rep : DbReply}
    (h : ActStep cfg now d (.markFailed jitter rep) d') : d'.finished = true := by
  cases h with
  | markFailed _ _ =>
      simp only [Dispatch.finished, Dispatch.afterMarkFailed]
      split_ifs <;> rfl

theorem Evolves.pastFailing {i : Nat} (h : Evolves cfg now i a d d')
    (hp : d.pastFailing = true) : d'.pastFailing = true := by
  rcases h.cases_act with ⟨ac, _, _, hact⟩ | ⟨_, hphase, _⟩
  · exact hact.pastFailing hp
  · simpa only [Dispatch.pastFailing, hphase] using hp

/-! ## The clock -/

/-- The lease of a dispatch, the wait for its start, and its deadline. -/
structure Timed (cfg : WorkerConfig) (delay : Nat) (now : Int) (d : Dispatch) : Prop where
  lease : d.msg.nextAttemptAt = d.msg.modifiedAt + intervalFromDuration cfg.leaseDuration
  unstarted : d.unstarted = true → now ≤ d.msg.modifiedAt + delay
  deadline : ∀ t ∈ d.deadline, t ≤ d.msg.nextAttemptAt

/-- The lease covers the wait for the start and the attempt. -/
structure LeaseCovers (cfg : WorkerConfig) (delay : Nat) : Prop where
  timeout_nonneg : 0 ≤ cfg.perAttemptTimeout
  lease : delay + cfg.perAttemptTimeout ≤ intervalFromDuration cfg.leaseDuration

/-- A dispatch in flight is within its lease. -/
theorem Timed.now_le (h : Timed cfg delay now d) (hc : LeaseCovers cfg delay)
    (hf : d.InFlight now) : now ≤ d.msg.nextAttemptAt := by
  have := hc.timeout_nonneg
  have := hc.lease
  rcases hf.2 with hu | ⟨t, ht, hle⟩
  · have := h.unstarted hu
    have := h.lease
    omega
  · have := h.deadline t ht
    omega

theorem Timed.step {i : Nat} (h : Timed cfg delay s.now d) (hc : LeaseCovers cfg delay)
    (hok : Prompt delay s a) (hd : s.dispatches[i]? = some d) (hev : Evolves cfg s.now i a d d') :
    Timed cfg delay (s.now + a.elapsed) d' := by
  have hmsg := hev.msg_eq
  have hun : d'.unstarted = true → d.unstarted = true := by
    intro hu
    rcases hev.cases_act with ⟨ac, _, _, hact⟩ | ⟨_, hphase, _⟩
    · exact hact.unstarted hu
    · simpa only [Dispatch.unstarted, hphase] using hu
  refine ⟨by rw [hmsg]; exact h.lease, ?_, ?_⟩
  · intro hu
    rw [hmsg]
    exact hok.2 d (List.mem_of_getElem? hd) (hun hu)
  · intro t ht
    rw [hmsg]
    rcases hev.cases_act with ⟨ac, _, _, hact⟩ | ⟨_, _, hdl, _⟩
    · rcases hact.deadline_eq with hdl | ⟨hp, _, hdl⟩
      · exact h.deadline t (hdl ▸ ht)
      · -- the start: the claim is at most `delay` ago
        have hstart := h.unstarted (by simp [Dispatch.unstarted, hp])
        have hlease := h.lease
        have hcover := hc.lease
        rw [hdl] at ht
        cases ht
        omega
    · exact h.deadline t (hdl ▸ ht)

/-! ## The row of a dispatch in flight -/

/-- What keeps other workers off the row `r` of the dispatch `d`. -/
def Held (now : Int) (d : Dispatch) (r : Row) : Prop :=
  (r.status = .sending ∧ r.nextAttemptAt = d.msg.nextAttemptAt) ∨
    (r.status = .sent ∧ d.pastFailing = true) ∨ ∃ t ∈ r.timeoutAt, t ≤ now

theorem Held.not_claimable (h : Held now d r) (hn : now ≤ d.msg.nextAttemptAt) :
    ¬ r.Claimable now := by
  rintro ⟨_, hst, _, hto⟩
  rcases h with ⟨hs, hl⟩ | ⟨hs, _⟩ | ⟨t, ht, hle⟩
  · rcases hst with hp | ⟨_, hlt⟩
    · rw [hs] at hp; cases hp
    · omega
  · rcases hst with hp | ⟨hp, _⟩ <;> · rw [hs] at hp; cases hp
  · have := hto t ht
    omega

theorem Held.mono {i : Nat} (h : Held now d r) (hev : Evolves cfg now i a d d')
    (hn : now ≤ now') : Held now' d' r := by
  rcases h with ⟨hs, hl⟩ | ⟨hs, hp⟩ | ⟨t, ht, hle⟩
  · exact Or.inl ⟨hs, by rw [hev.msg_eq]; exact hl⟩
  · exact Or.inr (Or.inl ⟨hs, hev.pastFailing hp⟩)
  · exact Or.inr (Or.inr ⟨t, ht, by omega⟩)

/-- Workers, leases and rows fit together. -/
structure FlightInv (cfg : WorkerConfig) (delay : Nat) (s : Outbox) : Prop where
  owned : Owned s
  timed : ∀ (i : Nat) (d : Dispatch), s.dispatches[i]? = some d → Timed cfg delay s.now d
  held : ∀ (i : Nat) (d : Dispatch), s.dispatches[i]? = some d → d.InFlight s.now →
    ∀ r ∈ s.table, r.id = d.msg.id → Held s.now d r
  single : SingleFlight s

theorem flightInv_init : FlightInv cfg delay Outbox.init := by
  refine ⟨owned_init, ?_, ?_, ?_⟩
  · intro i d hd; cases hd
  · intro i d hd; cases hd
  · intro i j d e hd; cases hd

/-- The dispatch that executes a mark is the one in flight. -/
theorem FlightInv.marker_eq (hI : FlightInv cfg delay s) {i j : Nat} {e : Dispatch}
    (hd : s.dispatches[i]? = some d) (hf : d.InFlight s.now) (he : s.dispatches[j]? = some e)
    (hl : e.Live s.now) (hfin : e.finished = false) (hid : e.msg.id = d.msg.id) :
    j = i ∧ e = d := by
  have hij := hI.single j i e d he hd (hl.inFlight hfin) hf hid
  subst hij
  rw [he] at hd
  exact ⟨rfl, Option.some.inj hd⟩

/-- A step keeps the row of a dispatch that stays in flight held. -/
theorem FlightInv.held_step (hI : FlightInv cfg delay s) (hc : LeaseCovers cfg delay)
    (hok : Prompt delay s a) (h : s.step cfg a = some s') {i : Nat}
    (hd : s.dispatches[i]? = some d) (hev : Evolves cfg s.now i a d d')
    (hf' : d'.InFlight s'.now) (hr : r ∈ s.table) (hid : r.id = d.msg.id) :
    Held s'.now d' (s.effect cfg a r) := by
  have hle := Outbox.step_now_le h
  have hf := hev.inFlight hle hf'
  have hheld := hI.held i d hd hf r hr hid
  rcases Outbox.effect_step cfg a hr with he | ⟨st, hex, hstep⟩
  · rw [he]
    exact hheld.mono hev hle
  · generalize s.effect cfg a r = r' at hstep
    cases hstep with
    | unchanged => exact hheld.mono hev hle
    | claimed _ hcl =>
        exact absurd hcl (hheld.not_claimable ((hI.timed i d hd).now_le hc hf))
    | sent =>
        obtain ⟨j, e, res, k, rep, _, _, he, heid, hl, hp, _⟩ := hex.markSent_inv
        obtain ⟨rfl, rfl⟩ := hI.marker_eq hd hf he hl (by simp [Dispatch.finished, hp])
          (heid.trans hid)
        exact Or.inr (Or.inl ⟨rfl, hev.pastFailing (by simp [Dispatch.pastFailing, hp])⟩)
    | failed =>
        obtain ⟨j, e, jit, rep, ha, _, he, heid, hl, hp⟩ := hex.markFailed_inv
        obtain ⟨rfl, rfl⟩ := hI.marker_eq hd hf he hl (by simp [Dispatch.finished, hp])
          (heid.trans hid)
        -- the dispatch has returned, so it is not in flight any more
        subst ha
        rcases hev.cases_act with ⟨ac, hac, _, hact⟩ | ⟨hne, _⟩
        · cases hac
          have hfin := hf'.1
          rw [hact.finished_of_markFailed] at hfin
          cases hfin
        · exact absurd rfl (hne _)
    | timedOut hover =>
        obtain ⟨t, ht, htle⟩ := hover.2.2
        exact Or.inr (Or.inr ⟨t, ht, by omega⟩)
    | resent hres =>
        rcases hheld with ⟨hs, _⟩ | ⟨hs, _⟩ | ⟨t, ht, htle⟩
        · rw [hs] at hres; simp [SignalMessageStatus.Resendable] at hres
        · rw [hs] at hres; simp [SignalMessageStatus.Resendable] at hres
        · exact Or.inr (Or.inr ⟨t, ht, by omega⟩)
    | updated _ => exact absurd hex.updateStatus_inv (hok.1 _ _)

/-- A row in flight is not claimed. -/
theorem FlightInv.not_claimed (hI : FlightInv cfg delay s) (hc : LeaseCovers cfg delay) {i : Nat}
    (hd : s.dispatches[i]? = some d) (hf : d.InFlight s.now) {locked : List UUID} {c : Row}
    (hcand : s.table.claimCandidate s.now locked = some c) : c.id ≠ d.msg.id := by
  intro hid
  obtain ⟨hct, hcl, _⟩ := Messages.claimCandidate_mem hcand
  exact (hI.held i d hd hf c hct hid).not_claimable ((hI.timed i d hd).now_le hc hf) hcl

theorem FlightInv.step (hI : FlightInv cfg delay s) (hc : LeaseCovers cfg delay)
    (hok : Prompt delay s a) (h : s.step cfg a = some s') : FlightInv cfg delay s' := by
  have hle := Outbox.step_now_le h
  refine ⟨hI.owned.step h, ?_, ?_, ?_⟩
  · intro i d' hd'
    rw [Outbox.step_now h]
    rcases Outbox.dispatch_step h hd' with ⟨d, hd, hev⟩ | ⟨locked, c, rfl, hcand, _, rfl⟩
    · exact (hI.timed i d hd).step hc hok hd hev
    · refine ⟨rfl, fun _ => ?_, fun t ht => by cases ht⟩
      simp [Dispatch.new, rowToDomain, Row.claim, Label.elapsed]
  · intro i d' hd' hf' r' hr' hid
    rcases Outbox.dispatch_step h hd' with ⟨d, hd, hev⟩ | ⟨locked, c, rfl, hcand, _, rfl⟩
    · obtain ⟨r, hr, hrid, rfl⟩ := hI.owned.row_step h hd hr' (hid.trans (by rw [hev.msg_eq]))
      exact hI.held_step hc hok h hd hev hf' hr hrid
    · -- the row just claimed
      rw [s'.table.row_unique hr' (Outbox.claimed_mem h hcand) hid]
      exact Or.inl ⟨rfl, rfl⟩
  · intro i j d' e' hd' he' hfd hfe hid
    rcases Outbox.dispatch_step h hd' with ⟨d, hd, hev⟩ | ⟨locked, c, rfl, hcand, hi, rfl⟩
    · rcases Outbox.dispatch_step h he' with ⟨e, he, hev'⟩ | ⟨locked, c, rfl, hcand, _, rfl⟩
      · rw [hev.msg_eq, hev'.msg_eq] at hid
        exact hI.single i j d e hd he (hev.inFlight hle hfd) (hev'.inFlight hle hfe) hid
      · rw [hev.msg_eq] at hid
        exact (hI.not_claimed hc hd (hev.inFlight hle hfd) hcand hid.symm).elim
    · rcases Outbox.dispatch_step h he' with ⟨e, he, hev'⟩ | ⟨_, _, _, _, hj, _⟩
      · rw [hev'.msg_eq] at hid
        exact (hI.not_claimed hc he (hev'.inFlight hle hfe) hcand hid).elim
      · rw [hi, hj]

/-- If every dispatch starts at most `delay` after its claim, and the lease, in
whole microseconds, covers that delay and the per-attempt timeout, then in every
reachable state at most one dispatch of a row is in flight: whatever the
workers, the reaper, `Insert` and `Resend` do, and in whatever order. -/
theorem single_flight {tr : List Label} (hc : LeaseCovers cfg delay)
    (hr : RunOf (Outbox.step cfg) (Prompt delay) Outbox.init tr s) : SingleFlight s :=
  (hr.invariant flightInv_init fun _ _ _ hI hok hs => hI.step hc hok hs).single

/-- A message whose deadline passes while it is being sent.  The reaper times it
out, an operator sends it again, and no worker can claim it. -/
def reapedTrace : List Label :=
  [.insert "m-1" { plainParams with timeoutAt := some 10000000000 }, .claim [] .committed,
    .advance 1000000000, .dispatch 0 .start, .dispatch 0 (.downloaded (.ok [])),
    .dispatch 0 .send, .advance 9500000000, .reap, .resend "m-1", .claim [] .committed]

theorem reaped_single_flight :
    ∃ s, RunOf (Outbox.step defaultConfig) (Prompt 2000000000) Outbox.init reapedTrace s ∧
      SingleFlight s := by
  have hr : RunOf (Outbox.step defaultConfig) (Prompt 2000000000) Outbox.init reapedTrace _ :=
    runOf_of_execOf rfl
  exact ⟨_, hr, single_flight ⟨by decide, by decide⟩ hr⟩

/-- A claimed message waits 290 seconds before its dispatch starts.  The lease of
300 seconds ends while the first worker is in `Send`, well within its minute, and
a second worker claims the message. -/
def lateStartTrace : List Label :=
  [.insert "m-1" plainParams, .claim [] .committed, .advance 290000000000, .dispatch 0 .start,
    .dispatch 0 (.downloaded (.ok [])), .dispatch 0 .send, .advance 11000000000,
    .claim [] .committed]

/-- A lease longer than the per-attempt timeout is not enough. -/
theorem late_start_not_single_flight :
    defaultConfig.perAttemptTimeout < defaultConfig.leaseDuration ∧
      ∃ s, RunOf (Outbox.step defaultConfig) NoOverride Outbox.init lateStartTrace s ∧
        ¬ SingleFlight s := by
  refine ⟨by decide, _, runOf_of_execOf rfl, fun h => ?_⟩
  exact absurd (h 0 1 _ _ rfl rfl (by decide) (by decide) rfl) (by decide)

end Signalium
