import Signalium.Worker.Goroutines

/-!
# How much the goroutines do

Two potentials on the goroutines of a pool.

The first one counts the goroutines that are on their way to a claim.  Only a
receive from a ticker puts a goroutine on that way, and a claim that finds no row
takes it off, so the claims are no more than the rows they returned and the
receives.  A ticker is received from at most once for each tick, and it ticks every
three quarters of the poll interval at the most.  So an idle table is polled at
the pace of the tickers, whatever happens to the calls (`claims_paced`).

The second one is the work left once `OnStop` has cancelled the context.  Every
step a goroutine takes then brings it closer to its return, except that `select`
may still pick the ticker.  Together with the fact that a goroutine that has not
returned always has such a step, the pool drains (`pool_drains`).
-/

namespace Signalium

open Runs Tables

variable {c : PoolConfig} {p p' : Pool} {a : PoolLabel} {s s' : Outbox} {d d' : Dispatch}

/-! ## Claims and ticks -/

/-- A call of `ClaimPending`. -/
def PoolLabel.claims : PoolLabel → Nat
  | .claim _ _ _ => 1
  | _ => 0

/-- A receive from a ticker. -/
def PoolLabel.ticks : PoolLabel → Nat
  | .tick _ => 1
  | _ => 0

/-- A row a goroutine gets. -/
def Pool.rowsClaimed (p : Pool) : PoolLabel → Nat
  | .claim _ locked rep => (p.claims? locked rep).toList.length
  | _ => 0

/-- The goroutine claims before it is at its `select` again. -/
def TickPc.busy : TickPc → Nat
  | .claiming _ | .dispatching _ _ | .checking => 1
  | .starting | .selecting | .returned => 0

def Pool.busy (p : Pool) : Nat := (p.loops.map fun l => l.pc.busy).sum

theorem Pool.busy_setLoop {k : Nat} {l : TickLoop} (hl : p.loops[k]? = some l) (pc : TickPc)
    (t : Ticker) : (p.setLoop k ⟨pc, t⟩).busy + l.pc.busy = p.busy + pc.busy :=
  Places.sum_set (fun l => l.pc.busy) hl

theorem Pool.busy_step (hs : p.step c a = some p') :
    a.claims + p'.busy ≤ p.busy + (a.ticks + p.rowsClaimed a) := by
  cases Pool.step_move hs with
  | start _ _ => simp [Pool.busy, PoolLabel.claims, TickPc.busy]
  | @begin k l draw hl hpc _ =>
      have := Pool.busy_setLoop hl .selecting ⟨p.outbox.now, jitter c.poll draw, p.outbox.now⟩
      simp only [hpc, TickPc.busy, PoolLabel.claims] at this ⊢
      omega
  | @tick k l hl hpc _ =>
      have := Pool.busy_setLoop hl (.claiming false) { l.ticker with last := p.outbox.now }
      simp only [hpc, TickPc.busy, PoolLabel.claims, PoolLabel.ticks] at this ⊢
      omega
  | @quit k l hl hpc _ =>
      have := Pool.busy_setLoop hl .returned l.ticker
      simp only [hpc, TickPc.busy, PoolLabel.claims] at this ⊢
      omega
  | @claimed k l draining locked r o hl hpc hc hr ho =>
      have := Pool.busy_setLoop hl (.dispatching p.outbox.dispatches.length draining) l.ticker
      have hrow : p.claims? locked .committed = some r := by
        simp [Pool.claims?, Pool.reply, hc, hr]
      simp only [hpc, TickPc.busy, PoolLabel.claims, PoolLabel.ticks, Pool.rowsClaimed, hrow,
        Option.toList_some, List.length_singleton] at this ⊢
      change 1 + (p.setLoop k _).busy ≤ _
      omega
  | @noRow k l draining locked rep o hl hpc hr ho =>
      have := Pool.busy_setLoop hl .selecting l.ticker
      simp only [hpc, TickPc.busy, PoolLabel.claims] at this ⊢
      change 1 + (p.setLoop k _).busy ≤ _
      omega
  | @finished k i l draining hl hpc _ =>
      have := Pool.busy_setLoop hl (if draining then .checking else .claiming true) l.ticker
      have hnew : (if draining then TickPc.checking else .claiming true).busy = 1 := by
        cases draining <;> rfl
      have hold : l.pc.busy = 1 := by rw [hpc]; rfl
      simp only [PoolLabel.claims]
      omega
  | @check k l hl hpc =>
      have := Pool.busy_setLoop hl (if p.cancelled then .returned else .claiming true) l.ticker
      have hnew : (if p.cancelled then TickPc.returned else .claiming true).busy ≤ 1 := by
        cases p.cancelled <;> decide
      have hold : l.pc.busy = 1 := by rw [hpc]; rfl
      simp only [PoolLabel.claims]
      omega
  | _ => exact Nat.le_add_right_of_le (Nat.zero_add _).le

/-! ### The tickers -/

/-- How often a ticker can have been received from. -/
def Ticker.received (t : Ticker) : Nat := (t.ticks t.last).toNat

def Pool.received (p : Pool) : Nat := (p.loops.map fun l => l.ticker.received).sum

/-- The ticker a goroutine made, and has received from, in the past. -/
structure Ticker.Made (c : PoolConfig) (now : Int) (t : Ticker) : Prop where
  created : 0 ≤ t.created
  last : t.created ≤ t.last
  past : t.last ≤ now
  interval : c.poll - c.poll / 4 ≤ t.interval

/-- A goroutine has made its ticker, or is still to make it. -/
structure TickersInv (c : PoolConfig) (p : Pool) : Prop where
  now : 0 ≤ p.outbox.now
  made : ∀ l ∈ p.loops, l.pc = .starting ∧ l.ticker = {} ∨
    l.pc ≠ .starting ∧ l.ticker.Made c p.outbox.now

theorem PoolConfig.poll_pos (c : PoolConfig) : 0 < c.poll := by
  unfold PoolConfig.poll
  split <;> omega

theorem Ticker.Made.later {now now' : Int} {t : Ticker} (h : t.Made c now) (hle : now ≤ now') :
    t.Made c now' :=
  { h with past := h.past.trans hle }

theorem jitter_ge {draw : Int} (h : IsDraw c.poll draw) :
    c.poll - c.poll / 4 ≤ jitter c.poll draw := by
  have := c.poll_pos
  obtain ⟨h₀, _⟩ := h
  unfold jitter
  split <;> omega

/-- No ticker has ticked more often than the shortest interval allows. -/
theorem Ticker.Made.received_le {now : Int} {t : Ticker} (h : t.Made c now) :
    t.received ≤ (now / (c.poll - c.poll / 4)).toNat := by
  have hpoll := c.poll_pos
  have hshort : 0 < c.poll - c.poll / 4 := by omega
  have hlast := h.last
  have hcreated := h.created
  have hpast := h.past
  have hint := h.interval
  unfold Ticker.received Ticker.ticks
  refine Int.toNat_le_toNat ((Int.le_ediv_iff_mul_le hshort).mpr ?_)
  calc (t.last - t.created) / t.interval * (c.poll - c.poll / 4)
      ≤ (t.last - t.created) / t.interval * t.interval :=
        mul_le_mul_of_nonneg_left hint (Int.ediv_nonneg (by omega) (by omega))
    _ ≤ t.last - t.created := Int.ediv_mul_le _ (by omega)
    _ ≤ now := by omega

theorem tickersInv_init (c : PoolConfig) : TickersInv c Pool.init where
  now := Int.le_refl 0
  made := fun _ hl => absurd hl List.not_mem_nil

theorem TickersInv.setLoop {k : Nat} {pc : TickPc} {t : Ticker} (h : TickersInv c p)
    (hpc : pc ≠ .starting) (ht : t.Made c p.outbox.now) : TickersInv c (p.setLoop k ⟨pc, t⟩) where
  now := h.now
  made := by
    intro m hm
    rcases List.mem_or_eq_of_mem_set hm with hm | rfl
    · exact h.made m hm
    · exact Or.inr ⟨hpc, ht⟩

theorem TickersInv.ticker {k : Nat} {l : TickLoop} (h : TickersInv c p)
    (hl : p.loops[k]? = some l) (hpc : l.pc ≠ .starting) : l.ticker.Made c p.outbox.now := by
  rcases h.made l (List.mem_of_getElem? hl) with ⟨hst, _⟩ | ⟨_, hm⟩
  · exact absurd hst hpc
  · exact hm

/-- A goroutine goes on with its ticker. -/
theorem TickersInv.goOn {k : Nat} {l : TickLoop} (h : TickersInv c p)
    (hl : p.loops[k]? = some l) (hpc : l.pc ≠ .starting) (pc : TickPc) (hpc' : pc ≠ .starting) :
    TickersInv c (p.setLoop k { l with pc := pc }) :=
  h.setLoop hpc' (h.ticker hl hpc)

theorem TickersInv.outbox {o : Outbox} (h : TickersInv c p) (hle : p.outbox.now ≤ o.now) :
    TickersInv c { p with outbox := o } where
  now := h.now.trans hle
  made := fun l hl => (h.made l hl).imp_right fun ⟨hpc, hm⟩ => ⟨hpc, hm.later hle⟩

theorem Outbox.cancelAll_now (cfg : WorkerConfig) (l : List Nat) :
    ∀ s : Outbox, s.now ≤ (l.foldl (Outbox.cancel cfg) s).now := by
  induction l with
  | nil => exact fun s => Int.le_refl _
  | cons i l ih =>
      intro s
      refine le_trans ?_ (ih (s.cancel cfg i))
      unfold Outbox.cancel
      cases hs : s.step cfg (.dispatch i .cancel) with
      | none => exact Int.le_refl _
      | some s' => exact Outbox.step_now_le hs

theorem TickersInv.step (h : TickersInv c p) (hs : p.step c a = some p') : TickersInv c p' := by
  cases Pool.step_move hs with
  | start _ _ =>
      refine ⟨h.now, fun l hl => Or.inl ?_⟩
      rw [List.eq_of_mem_replicate hl]
      exact ⟨rfl, rfl⟩
  | begin hl _ hd => exact h.setLoop nofun ⟨h.now, Int.le_refl _, Int.le_refl _, jitter_ge hd⟩
  | tick hl hpc _ =>
      have hm := h.ticker hl (by rw [hpc]; exact nofun)
      exact h.setLoop nofun { hm with last := hm.last.trans hm.past, past := Int.le_refl _ }
  | quit hl hpc _ => exact h.goOn hl (by rw [hpc]; exact nofun) _ nofun
  | @claimed k l draining _ _ o hl hpc _ _ ho =>
      have hgo := (h.goOn hl (by rw [hpc]; exact nofun)
        (.dispatching p.outbox.dispatches.length draining) nofun).outbox (Outbox.step_now_le ho)
      exact ⟨hgo.now, hgo.made⟩
  | @noRow k l draining _ _ o hl hpc _ ho =>
      exact (h.goOn hl (by rw [hpc]; exact nofun) .selecting nofun).outbox
        (Outbox.step_now_le ho)
  | dispatch _ _ _ ho => exact h.outbox (Outbox.step_now_le ho)
  | @finished k i l draining hl hpc _ =>
      exact h.goOn hl (by rw [hpc]; exact nofun) _ (by cases draining <;> exact nofun)
  | check hl hpc =>
      exact h.goOn hl (by rw [hpc]; exact nofun) _ (by cases p.cancelled <;> exact nofun)
  | stop _ _ =>
      have hout := h.outbox (Outbox.cancelAll_now c.worker p.own p.outbox)
      exact ⟨hout.now, hout.made⟩
  | other _ ho => exact h.outbox (Outbox.step_now_le ho)
  | _ => exact ⟨h.now, h.made⟩

theorem Pool.received_setLoop {k : Nat} {l : TickLoop} (hl : p.loops[k]? = some l) (pc : TickPc)
    (t : Ticker) : (p.setLoop k ⟨pc, t⟩).received + l.ticker.received = p.received + t.received :=
  Places.sum_set (fun l => l.ticker.received) hl

/-- A receive needs a tick of its own. -/
theorem TickersInv.received_step (h : TickersInv c p) (hI : PoolInv c p)
    (hs : p.step c a = some p') : a.ticks + p.received ≤ p'.received := by
  have hkeep : ∀ {k : Nat} {l : TickLoop} {pc : TickPc}, p.loops[k]? = some l →
      0 + p.received ≤ (p.setLoop k { l with pc := pc }).received := by
    intro k l pc hl
    have := Pool.received_setLoop hl pc l.ticker
    omega
  cases Pool.step_move hs with
  | start hst _ =>
      have hnone : p.received = 0 := by simp [Pool.received, (hI.unstarted hst).1]
      simp [hnone, PoolLabel.ticks]
  | @begin k l draw hl hpc _ =>
      have hold : l.ticker.received = 0 := by
        rcases h.made l (List.mem_of_getElem? hl) with ⟨_, ht⟩ | ⟨hne, _⟩
        · rw [ht]; rfl
        · exact absurd hpc hne
      have := Pool.received_setLoop hl .selecting
        ⟨p.outbox.now, jitter c.poll draw, p.outbox.now⟩
      simp only [PoolLabel.ticks]
      omega
  | @tick k l hl hpc hf =>
      have hm := h.ticker hl (by rw [hpc]; exact nofun)
      have hpoll := c.poll_pos
      have hint := hm.interval
      have hlast := hm.last
      have hnonneg : 0 ≤ l.ticker.ticks l.ticker.last :=
        Int.ediv_nonneg (by omega) (by omega)
      have hnew : l.ticker.received + 1
          ≤ ({ l.ticker with last := p.outbox.now } : Ticker).received := by
        change l.ticker.ticks l.ticker.last < l.ticker.ticks p.outbox.now at hf
        change (l.ticker.ticks l.ticker.last).toNat + 1 ≤ (l.ticker.ticks p.outbox.now).toNat
        omega
      have := Pool.received_setLoop hl (.claiming false) { l.ticker with last := p.outbox.now }
      change 1 + p.received ≤ (p.setLoop k _).received
      omega
  | quit hl _ _ => exact hkeep hl
  | claimed hl _ _ _ _ => exact hkeep hl
  | noRow hl _ _ _ => exact hkeep hl
  | finished hl _ _ => exact hkeep hl
  | check hl _ => exact hkeep hl
  | _ => exact (Nat.zero_add _).le

theorem Pool.tickersInv {tr : List PoolLabel} (hr : Run (Pool.step c) Pool.init tr p) :
    TickersInv c p :=
  hr.invariant (tickersInv_init c) fun _ _ _ h _ hs => h.step hs

/-- The goroutines have received no more ticks than the time and the shortest interval allow. -/
theorem TickersInv.received_le (h : TickersInv c p) (hI : PoolInv c p) :
    p.received ≤ c.size * (p.outbox.now / (c.poll - c.poll / 4)).toNat := by
  have hone : ∀ n ∈ p.loops.map fun l => l.ticker.received,
      n ≤ (p.outbox.now / (c.poll - c.poll / 4)).toNat := by
    intro n hn
    obtain ⟨l, hl, rfl⟩ := List.mem_map.mp hn
    rcases h.made l hl with ⟨_, ht⟩ | ⟨_, hm⟩
    · rw [ht]
      exact Nat.zero_le _
    · exact hm.received_le
  calc p.received
      ≤ (p.loops.map fun l => l.ticker.received).length
          * (p.outbox.now / (c.poll - c.poll / 4)).toNat :=
        List.sum_le_card_nsmul _ _ hone
    _ = p.loops.length * (p.outbox.now / (c.poll - c.poll / 4)).toNat := by rw [List.length_map]
    _ ≤ c.size * (p.outbox.now / (c.poll - c.poll / 4)).toNat :=
        Nat.mul_le_mul_right _ hI.size

/-- Whatever the table holds and whatever the calls return: a pool calls `ClaimPending` once
for each row it gets, and beyond that no more often than its tickers tick, one for each
goroutine and at intervals of three quarters of the poll interval or more. -/
theorem claims_paced {tr : List PoolLabel} (hr : Run (Pool.step c) Pool.init tr p) :
    total (Pool.step c) (fun _ a => a.claims) Pool.init tr ≤
      total (Pool.step c) Pool.rowsClaimed Pool.init tr +
        c.size * (p.outbox.now / (c.poll - c.poll / 4)).toNat := by
  have hclaims : total (Pool.step c) (fun _ a => a.claims) Pool.init tr + p.busy ≤
      0 + total (Pool.step c) (fun q a => a.ticks + q.rowsClaimed a) Pool.init tr :=
    hr.total_le (V := Pool.busy) fun _ _ _ _ hs => Pool.busy_step hs
  have hticks : total (Pool.step c) (fun _ a => a.ticks) Pool.init tr + 0 ≤ p.received := by
    have hr' : RunOf (Pool.step c) (fun q _ => PoolInv c q ∧ TickersInv c q) Pool.init tr p :=
      hr.mono_of_invariant (I := fun q => PoolInv c q ∧ TickersInv c q)
        ⟨poolInv_init c, tickersInv_init c⟩ (fun _ _ _ h _ hs => ⟨h.1.step hs, h.2.step hs⟩)
        fun _ _ h _ => h
    exact hr'.total_le_growth (V := Pool.received) fun _ _ _ h hs => h.2.received_step h.1 hs
  have htime := (Pool.tickersInv hr).received_le (Pool.poolInv hr)
  have hgain : total (Pool.step c) (fun q a => a.ticks + q.rowsClaimed a) Pool.init tr =
      total (Pool.step c) (fun _ a => a.ticks) Pool.init tr +
        total (Pool.step c) Pool.rowsClaimed Pool.init tr :=
    total_add _ _ tr _
  omega

/-- A goroutine is up for five seconds, gets one row and finds none twice. -/
def quietPoll : List PoolLabel :=
  [.start, .begin 0 0, .other (.insert "m-1" plainParams), .other (.advance 1000000000), .tick 0,
    .claim 0 [] .committed, .dispatch 0 .start,
    .dispatch 0 (.downloaded (.error "not found")), .dispatch 0 (.markFailed 0 .committed),
    .finished 0, .claim 0 [] .unreached, .other (.advance 4000000000), .tick 0,
    .claim 0 ["m-1"] .committed]

/-- Three claims for one row. -/
theorem quietPoll_paced :
    ∃ p, Run (Pool.step twoWorkers) Pool.init quietPoll p ∧
      total (Pool.step twoWorkers) (fun _ a => a.claims) Pool.init quietPoll = 3 ∧
      total (Pool.step twoWorkers) Pool.rowsClaimed Pool.init quietPoll = 1 ∧
      total (Pool.step twoWorkers) (fun _ a => a.claims) Pool.init quietPoll ≤
        total (Pool.step twoWorkers) Pool.rowsClaimed Pool.init quietPoll +
          twoWorkers.size * (p.outbox.now / (twoWorkers.poll - twoWorkers.poll / 4)).toNat :=
  ⟨_, run_get (show (exec (Pool.step twoWorkers) Pool.init quietPoll).isSome = true by
    decide +kernel), by decide +kernel, by decide +kernel, claims_paced (run_get _)⟩

/-! ## The work left -/

/-- How many steps a dispatch takes at most under a context that is done. -/
def Phase.left : Phase → Nat
  | .claimed => 5
  | .downloading => 4
  | .ready _ => 3
  | .sending _ | .sleeping _ _ _ => 2
  | .marking _ _ | .failing _ => 1
  | .done _ | .crashed => 0

def Outbox.left (s : Outbox) (i : Nat) : Nat := s.dispatches[i]?.elim 0 fun d => d.phase.left

theorem Phase.left_le (ph : Phase) : ph.left ≤ 5 := by
  cases ph <;> simp [Phase.left]

theorem Outbox.left_le (s : Outbox) (i : Nat) : s.left i ≤ 5 := by
  unfold Outbox.left
  cases s.dispatches[i]? with
  | none => exact Nat.zero_le _
  | some d => exact d.phase.left_le

theorem Dispatch.not_live {now : Int} (hc : d.cancelled = true) : ¬ d.Live now := by
  simp [Dispatch.Live, hc]

/-- Under a context that is done every step of a dispatch brings it closer to its end. -/
theorem ActStep.left_lt {cfg : WorkerConfig} {now : Int} {ac : Act} (h : ActStep cfg now d ac d')
    (hc : d.cancelled = true) (hac : ac.isOwn = true) : d'.phase.left < d.phase.left := by
  cases h with
  | start hp => simp [hp, Phase.left]
  | downloadFailed hp => simp [hp, Phase.left]
  | refused hp _ => simp [hp, Phase.left]
  | built hp _ => simp [hp, Phase.left]
  | send hp => simp [hp, Phase.left]
  | sendFailed hp => simp [hp, Phase.left]
  | delivered hp => simp [hp, Phase.left]
  | markSent hp =>
      simp [hp, Phase.left, Dispatch.afterMarkSent, Dispatch.reply, Dispatch.not_live hc]
  | woken hp _ => simp [hp, Phase.left]
  | interrupted hp _ => simp [hp, Phase.left]
  | markFailed hp _ =>
      simp [hp, Phase.left, Dispatch.afterMarkFailed, Dispatch.reply, Dispatch.not_live hc]
  | crash => cases hac
  | cancel => cases hac

theorem Outbox.left_step {cfg : WorkerConfig} {a : Label} {i : Nat} (h : s.step cfg a = some s')
    (hd : s.dispatches[i]? = some d) (hc : d.cancelled = true) : s'.left i ≤ s.left i := by
  obtain ⟨d', hd', hev⟩ := Outbox.dispatch_stays h hd
  simp only [Outbox.left, hd, hd', Option.elim_some]
  rcases hev.cases_act with ⟨ac, rfl, _, hact⟩ | ⟨_, hph, _, _⟩
  · cases hown : ac.isOwn with
    | true => exact (hact.left_lt hc hown).le
    | false =>
        cases hact with
        | crash _ => exact Nat.zero_le _
        | cancel => exact Nat.le_refl _
        | _ => cases hown
  · rw [hph]

/-- A dispatch that has neither returned nor died has a step under a context that is done. -/
theorem Dispatch.own_act (cfg : WorkerConfig) (now : Int) (hc : d.cancelled = true)
    (hdone : d.phase.isDone = false) (halive : d.phase ≠ .crashed) :
    ∃ ac : Act, ac.isOwn = true ∧ (d.act cfg now ac).isSome = true := by
  cases hp : d.phase with
  | claimed => exact ⟨.start, rfl, by simp [Dispatch.act, hp]⟩
  | downloading => exact ⟨.downloaded (.error ""), rfl, by simp [Dispatch.act, hp]⟩
  | ready params => exact ⟨.send, rfl, by simp [Dispatch.act, hp]⟩
  | sending params => exact ⟨.sendReturned (.error ""), rfl, by simp [Dispatch.act, hp]⟩
  | marking res i => exact ⟨.markSent .unreached, rfl, by simp [Dispatch.act, hp]⟩
  | sleeping res i wakeAt =>
      exact ⟨.wake false, rfl, by simp [Dispatch.act, hp, Dispatch.not_live hc]⟩
  | failing cause =>
      have hj : IsJitter d.msg.attempts cfg.baseBackoff 0 := ⟨min_le_left _ _, le_max_left _ _⟩
      exact ⟨.markFailed 0 .unreached, rfl, by simp [Dispatch.act, hp, hj]⟩
  | done o => rw [hp] at hdone; cases hdone
  | crashed => exact absurd hp halive

/-- How many steps a goroutine takes at most under a context that is done, if `select` does not
pick the ticker. -/
def TickPc.work (s : Outbox) : TickPc → Nat
  | .starting | .claiming _ => 2
  | .selecting | .checking => 1
  | .dispatching i _ => s.left i + 3
  | .returned => 0

def Pool.work (p : Pool) : Nat := (p.loops.map fun l => l.pc.work p.outbox).sum

/-- A step of one of the goroutines. -/
def PoolLabel.steps (a : PoolLabel) : Nat := if a.isOwn then 1 else 0

theorem Pool.work_setLoop {k : Nat} {l : TickLoop} (hl : p.loops[k]? = some l) (pc : TickPc)
    (t : Ticker) :
    (p.setLoop k ⟨pc, t⟩).work + l.pc.work p.outbox = p.work + pc.work p.outbox :=
  Places.sum_set (fun l => l.pc.work p.outbox) hl

theorem TickPc.work_le (pc : TickPc) (s : Outbox) : pc.work s ≤ 8 := by
  cases pc with
  | dispatching i draining =>
      have := s.left_le i
      simp only [TickPc.work]
      omega
  | _ => simp [TickPc.work]

theorem PoolInv.work_le (h : PoolInv c p) : p.work ≤ 8 * c.size := by
  have hone : ∀ n ∈ p.loops.map fun l => l.pc.work p.outbox, n ≤ 8 := by
    intro n hn
    obtain ⟨l, _, rfl⟩ := List.mem_map.mp hn
    exact l.pc.work_le p.outbox
  calc p.work
      ≤ (p.loops.map fun l => l.pc.work p.outbox).length * 8 := List.sum_le_card_nsmul _ _ hone
    _ = 8 * p.loops.length := by rw [List.length_map, Nat.mul_comm]
    _ ≤ 8 * c.size := Nat.mul_le_mul_left _ h.size

/-- What the outbox does leaves a cancelled pool no more work. -/
theorem PoolInv.pc_work_le {b : Label} {o : Outbox} {l : TickLoop} (h : PoolInv c p)
    (hc : p.cancelled = true) (ho : p.outbox.step c.worker b = some o) (hl : l ∈ p.loops) :
    l.pc.work o ≤ l.pc.work p.outbox := by
  cases hpc : l.pc with
  | dispatching i draining =>
      obtain ⟨d, hd, _, hcut⟩ := h.alive i (h.held l hl i (by rw [hpc]; rfl))
      exact Nat.add_le_add_right (Outbox.left_step ho hd (hcut hc)) 3
  | _ => exact Nat.le_refl _

theorem PoolInv.outbox_work_le {b : Label} {o : Outbox} (h : PoolInv c p)
    (hc : p.cancelled = true) (ho : p.outbox.step c.worker b = some o) :
    ({ p with outbox := o } : Pool).work ≤ p.work :=
  List.sum_le_sum fun _ hl => h.pc_work_le hc ho hl

/-- In a cancelled pool every step of a goroutine leaves less work, but for the receive from a
ticker, which adds one call. -/
theorem PoolInv.work_step (h : PoolInv c p) (hc : p.cancelled = true)
    (hs : p.step c a = some p') : a.steps + p'.work ≤ p.work + 2 * a.ticks := by
  cases Pool.step_move hs with
  | start _ hidle => exact absurd hidle (h.waited hc)
  | @begin k l draw hl hpc _ =>
      have := Pool.work_setLoop hl .selecting ⟨p.outbox.now, jitter c.poll draw, p.outbox.now⟩
      simp only [hpc, TickPc.work] at this
      simp only [PoolLabel.steps, PoolLabel.isOwn, if_true]
      omega
  | @tick k l hl hpc _ =>
      have := Pool.work_setLoop hl (.claiming false) { l.ticker with last := p.outbox.now }
      simp only [hpc, TickPc.work] at this
      simp only [PoolLabel.steps, PoolLabel.isOwn, PoolLabel.ticks, if_true]
      omega
  | @quit k l hl hpc _ =>
      have := Pool.work_setLoop hl .returned l.ticker
      simp only [hpc, TickPc.work] at this
      simp only [PoolLabel.steps, PoolLabel.isOwn, if_true]
      omega
  | claimed _ _ hno _ _ => rw [hc] at hno; cases hno
  | @noRow k l draining locked rep o hl hpc _ ho =>
      have hloop := Pool.work_setLoop hl .selecting l.ticker
      simp only [hpc, TickPc.work] at hloop
      have hI : PoolInv c (p.setLoop k { l with pc := .selecting }) :=
        h.setLoop hl (by rw [hpc]; exact nofun) (by rw [hpc]; exact nofun) rfl
      have hout := hI.outbox_work_le hc ho
      calc 1 + Pool.work { p.setLoop k { l with pc := .selecting } with outbox := o }
          ≤ 1 + (p.setLoop k { l with pc := .selecting }).work := Nat.add_le_add_left hout 1
        _ ≤ p.work + 0 := by omega
  | @dispatch k i l draining ac o hl hpc hac ho =>
      have hmem : l ∈ p.loops := List.mem_of_getElem? hl
      obtain ⟨d, hd, _, hcut⟩ := h.alive i (h.held l hmem i (by rw [hpc]; rfl))
      obtain ⟨d₀, d', hd₀, hact, hds⟩ := Outbox.step_dispatch ho
      cases hd.symm.trans hd₀
      have hleft : o.left i < p.outbox.left i := by
        simp only [Outbox.left, hd, hds, Places.set_self hd, Option.elim_some]
        exact (Dispatch.act_step hact).left_lt (hcut hc) hac
      have hlt : ({ p with outbox := o } : Pool).work < p.work := by
        refine List.sum_lt_sum _ _ (fun m hm => h.pc_work_le hc ho hm) ⟨l, hmem, ?_⟩
        simp only [hpc, TickPc.work]
        omega
      simp only [PoolLabel.steps, PoolLabel.isOwn, if_true]
      omega
  | @finished k i l draining hl hpc _ =>
      have := Pool.work_setLoop hl (if draining then .checking else .claiming true) l.ticker
      have hold : 3 ≤ l.pc.work p.outbox := by rw [hpc]; exact Nat.le_add_left _ _
      have hnew : (if draining then TickPc.checking else .claiming true).work p.outbox ≤ 2 := by
        cases draining <;> simp [TickPc.work]
      simp only [PoolLabel.steps, PoolLabel.isOwn, if_true]
      omega
  | @check k l hl hpc =>
      have := Pool.work_setLoop hl .returned l.ticker
      simp only [hpc, TickPc.work] at this
      simp only [PoolLabel.steps, PoolLabel.isOwn, if_true, hc]
      omega
  | stop hidle _ => exact absurd hidle (h.waited hc)
  | stopUnstarted hidle _ => exact absurd hidle (h.waited hc)
  | other _ ho =>
      have := h.outbox_work_le hc ho
      simp only [PoolLabel.steps, PoolLabel.isOwn, Bool.false_eq_true, if_false]
      omega
  | _ => exact Nat.le_add_right_of_le (Nat.zero_add _).le

/-! ## The pool drains -/

/-- In a cancelled pool a goroutine that has not returned has a step other than a receive from
its ticker. -/
theorem PoolInv.own_step {k : Nat} {l : TickLoop} (h : PoolInv c p) (hc : p.cancelled = true)
    (hpoll : 2 ≤ c.poll) (hl : p.loops[k]? = some l) (hpc : l.pc ≠ .returned) :
    ∃ a : PoolLabel, (p.step c a).isSome = true ∧ a.isOwn = true ∧ a.ticks = 0 := by
  have hstep : ∀ {b : PoolLabel}, b.loop? = some k → (p.loopStep c k l b).isSome = true →
      (p.step c b).isSome = true := by
    intro b hb hq
    simpa only [Pool.step, hb, hl, Option.bind_some] using hq
  cases hp : l.pc with
  | starting =>
      have hd : IsDraw c.poll 0 := ⟨Int.le_refl 0, by omega⟩
      exact ⟨.begin k 0, hstep rfl (by simp [Pool.loopStep, hp, hd]), rfl, rfl⟩
  | selecting => exact ⟨.quit k, hstep rfl (by simp [Pool.loopStep, hp, hc]), rfl, rfl⟩
  | claiming draining =>
      have hclaim : (p.outbox.step c.worker (.claim [] (p.reply .unreached))).isSome = true := by
        simp only [Outbox.step, Outbox.dispatches?, Option.isSome_map]
        split <;> rfl
      exact ⟨.claim k [] .unreached, hstep rfl (by simpa [Pool.loopStep, hp] using hclaim), rfl,
        rfl⟩
  | dispatching i draining =>
      cases hf : p.outbox.finished i with
      | true => exact ⟨.finished k, hstep rfl (by simp [Pool.loopStep, hp, hf]), rfl, rfl⟩
      | false =>
          obtain ⟨d, hd, halive, hcut⟩ :=
            h.alive i (h.held l (List.mem_of_getElem? hl) i (by rw [hp]; rfl))
          have hdone : d.phase.isDone = false := by simpa [Outbox.finished, hd] using hf
          obtain ⟨ac, hac, hact⟩ := Dispatch.own_act c.worker p.outbox.now (hcut hc) hdone halive
          refine ⟨.dispatch k ac, hstep rfl ?_, rfl, rfl⟩
          simpa [Pool.loopStep, hp, hac, Outbox.step, Outbox.dispatches?, hd] using hact
  | checking => exact ⟨.check k, hstep rfl (by simp [Pool.loopStep, hp]), rfl, rfl⟩
  | returned => exact absurd hp hpc

/-- A step of the goroutines, of `Run` or of `OnStop`. -/
def PoolLabel.internal (a : PoolLabel) : Prop := a.isOwn = true ∨ a = .close ∨ a = .drained

/-- No step of a goroutine moves the hooks. -/
theorem PoolMove.hooks (hm : PoolMove c p a p') (ha : a.isOwn = true) :
    p'.started = p.started ∧ p'.stop = p.stop ∧ p'.cancelled = p.cancelled ∧ p'.done = p.done := by
  cases hm <;> first | exact ⟨rfl, rfl, rfl, rfl⟩ | cases ha

/-- When all goroutines have returned, `Run` closes `done` and `OnStop` returns. -/
theorem Pool.close_drained (hst : p.started = true) (hstop : p.stop = .waiting)
    (hall : ∀ l ∈ p.loops, l.pc = .returned) :
    ∃ tr p', RunOf (Pool.step c) (fun _ a => a.internal) p tr p' ∧ p'.stop = .returned true := by
  have hdrained : ∀ q : Pool, q.stop = .waiting → q.done = true →
      q.step c .drained = some { q with stop := .returned true } := by
    intro q hw hd
    simp [Pool.step, PoolLabel.loop?, Pool.hookStep, hw, hd]
  cases hd : p.done with
  | true => exact ⟨_, _, .snoc .nil (Or.inr (Or.inr rfl)) (hdrained p hstop hd), rfl⟩
  | false =>
      have hclose : p.step c .close = some { p with done := true } := by
        simp only [Pool.step, PoolLabel.loop?, Pool.hookStep]
        exact if_pos ⟨hst, hd, hall⟩
      exact ⟨_, _, .snoc (.snoc .nil (Or.inr (Or.inl rfl)) hclose) (Or.inr (Or.inr rfl))
        (hdrained _ hstop rfl), rfl⟩

/-- By induction on the work left: while a goroutine has not returned, one of its steps leaves
less. -/
theorem PoolInv.drains (hpoll : 2 ≤ c.poll) (n : Nat) :
    ∀ {p : Pool}, p.work ≤ n → PoolInv c p → p.started = true → p.stop = .waiting →
      ∃ tr p', RunOf (Pool.step c) (fun _ a => a.internal) p tr p' ∧ p'.stop = .returned true := by
  induction n with
  | zero =>
      intro p hn h hst hstop
      refine Pool.close_drained hst hstop fun l hl => ?_
      have hzero : l.pc.work p.outbox = 0 :=
        List.sum_eq_zero_iff.mp (Nat.le_zero.mp hn) _ (List.mem_map_of_mem hl)
      cases hpc : l.pc with
      | returned => rfl
      | _ => rw [hpc] at hzero; cases hzero
  | succ n ih =>
      intro p hn h hst hstop
      by_cases hall : ∀ l ∈ p.loops, l.pc = .returned
      · exact Pool.close_drained hst hstop hall
      · push Not at hall
        obtain ⟨l, hl, hpc⟩ := hall
        obtain ⟨k, hk⟩ := List.mem_iff_getElem?.mp hl
        have hc : p.cancelled = true := h.cut hst (by rw [hstop]; exact nofun)
        obtain ⟨a, hsome, hown, htick⟩ := h.own_step hc hpoll hk hpc
        obtain ⟨q, hq⟩ := Option.isSome_iff_exists.mp hsome
        have hwork := h.work_step hc hq
        simp only [PoolLabel.steps, hown, if_true, htick] at hwork
        obtain ⟨hst', hstop', _, _⟩ := (Pool.step_move hq).hooks hown
        obtain ⟨tr, p', hr, hret⟩ :=
          ih (by omega) (h.step hq) (hst'.trans hst) (hstop'.trans hstop)
        have hone : RunOf (Pool.step c) (fun _ a => a.internal) p ([] ++ [a]) q :=
          .snoc .nil (Or.inl hown) hq
        exact ⟨_, p', hone.trans hr, hret⟩

/-- From any state after `OnStart` in which `OnStop` waits, with a poll interval of at least two
nanoseconds (`jitter` panics at one): whatever happens, the goroutines take at most eight steps
each, and two for each time `select` still picks the ticker; and their own steps lead to the
return of `OnStop` with `nil`. -/
theorem pool_drains (hpoll : 2 ≤ c.poll) {tr : List PoolLabel}
    (hr : Run (Pool.step c) Pool.init tr p) (hst : p.started = true) (hstop : p.stop = .waiting) :
    (∀ tr' p', Run (Pool.step c) p tr' p' →
      total (Pool.step c) (fun _ a => a.steps) p tr' ≤
        8 * c.size + total (Pool.step c) (fun _ a => 2 * a.ticks) p tr') ∧
    ∃ tr' p', RunOf (Pool.step c) (fun _ a => a.internal) p tr' p' ∧
      p'.stop = .returned true := by
  have hI : PoolInv c p := Pool.poolInv hr
  have hc : p.cancelled = true := hI.cut hst (by rw [hstop]; exact nofun)
  refine ⟨fun tr' p' hr' => ?_, hI.drains hpoll p.work (Nat.le_refl _) hst hstop⟩
  have hcut : RunOf (Pool.step c) (fun q _ => PoolInv c q ∧ q.cancelled = true) p tr' p' :=
    hr'.mono_of_invariant (I := fun q => PoolInv c q ∧ q.cancelled = true) ⟨hI, hc⟩
      (fun _ _ _ h _ hs => ⟨h.1.step hs, ((Pool.step_move hs).own_of_cancelled h.2).1⟩)
      fun _ _ h _ => h
  have hsteps := hcut.total_le (w := fun _ a => a.steps) (V := Pool.work)
    fun _ _ _ h hs => h.1.work_step h.2 hs
  have hwork := hI.work_le
  omega

/-- The pool that was stopped while a download was under way. -/
theorem stopMidway_drains :
    ∃ p, Run (Pool.step twoWorkers) Pool.init stopMidway p ∧ p.inFlight = [0] ∧
      ∃ tr' p', RunOf (Pool.step twoWorkers) (fun _ a => a.internal) p tr' p' ∧
        p'.stop = .returned true := by
  have hr := run_get (show (exec (Pool.step twoWorkers) Pool.init stopMidway).isSome = true by
    decide +kernel)
  exact ⟨_, hr, by decide +kernel,
    (pool_drains (by decide) hr (by decide +kernel) (by decide +kernel)).2⟩

end Signalium
