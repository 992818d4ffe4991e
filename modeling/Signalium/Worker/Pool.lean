import Signalium.Service.Listener
import Signalium.Worker.Steps

/-!
# The loops of the worker

`Run`, `runSingle`, `runConcurrent` and `tick` of `internal/worker/worker.go`, and
the hooks of `RegisterLifecycle` around them.  A goroutine of `runSingle` waits
for its ticker, claims a row and dispatches it, and goes on claiming without the
ticker until a claim finds nothing.  `OnStop` cancels the context of all
goroutines and waits until `Run` has closed `done`.

`Pool` is one process with its goroutines, on a table it shares with everybody
else.  What others do (the workers of other processes, the service, the reaper,
operators, the clock) is a step of `Outbox` that is no step of a dispatch of this
pool.  A claim of the pool is a claim of the outbox and a dispatch of the pool is
a dispatch of the outbox, so a run of the pool is a run of the outbox
(`Pool.refines_outbox`, in `Goroutines`) and what holds of the outbox holds here.

What one step does is said in `PoolMove`.
-/

namespace Signalium

open Runs Tables

/-! ## Settings -/

/-- The settings of the loops. -/
structure PoolConfig where
  worker : WorkerConfig
  pollInterval : Int
  concurrency : Int
deriving DecidableEq, Repr

/-- The interval `Run` polls at. -/
def PoolConfig.poll (c : PoolConfig) : Int :=
  if c.pollInterval ≤ 0 then 1000000000 else c.pollInterval

/-- How many goroutines are in `runSingle`. -/
def PoolConfig.size (c : PoolConfig) : Nat :=
  if c.concurrency ≤ 1 then 1 else c.concurrency.toNat

/-- `jitter`.  The argument `draw` is what `rand.Int64N` returns. -/
def jitter (d draw : Int) : Int := if d ≤ 0 then d else d - d / 4 + draw

/-- The range of the draw.  `rand.Int64N` panics where it is empty. -/
def IsDraw (d draw : Int) : Prop := 0 ≤ draw ∧ draw < d / 2

instance (d draw : Int) : Decidable (IsDraw d draw) := inferInstanceAs (Decidable (_ ∧ _))

/-- A ticker of `time.NewTicker`, and when it was last received from.  Its channel keeps
one tick and drops the others. -/
structure Ticker where
  created : Int := 0
  interval : Int := 1
  last : Int := 0
deriving DecidableEq, Repr

/-- How many ticks there have been until an instant. -/
def Ticker.ticks (t : Ticker) (now : Int) : Int := (now - t.created) / t.interval

/-- There has been a tick since the last receive. -/
def Ticker.Fired (t : Ticker) (now : Int) : Prop := t.ticks t.last < t.ticks now

instance (t : Ticker) (now : Int) : Decidable (t.Fired now) := inferInstanceAs (Decidable (_ < _))

/-! ## States -/

/-- Where a goroutine is. -/
inductive TickPc where
  /-- Before `time.NewTicker`. -/
  | starting
  /-- At the `select` of `runSingle`. -/
  | selecting
  /-- In `tick`, before `ClaimPending`.  `draining` says that this is the inner loop. -/
  | claiming (draining : Bool)
  /-- In `tick`, in the dispatch at place `i`. -/
  | dispatching (i : Nat) (draining : Bool)
  /-- Before the test of `ctx.Err()` in the inner loop. -/
  | checking
  | returned
deriving DecidableEq, Repr

/-- The dispatch a goroutine is in. -/
def TickPc.dispatch? : TickPc → Option Nat
  | .dispatching i _ => some i
  | _ => none

/-- One goroutine of `runSingle`. -/
structure TickLoop where
  pc : TickPc
  ticker : Ticker := {}
deriving DecidableEq, Repr

/-- `dispatch` has returned. -/
def Phase.isDone : Phase → Bool
  | .done _ => true
  | _ => false

/-- The dispatch at place `i` has returned. -/
def Outbox.finished (s : Outbox) (i : Nat) : Bool := s.dispatches[i]?.any fun d => d.phase.isDone

/-- One process of workers, on the table it shares with others. -/
structure Pool where
  outbox : Outbox
  /-- `OnStart` has been called. -/
  started : Bool
  loops : List TickLoop
  /-- The context of the goroutines is done. -/
  cancelled : Bool
  /-- The channel `done` is closed. -/
  done : Bool
  stop : StopPc
  /-- The places of the dispatches of this pool. -/
  own : List Nat

def Pool.init : Pool := ⟨Outbox.init, false, [], false, false, .idle, []⟩

/-- The dispatches of the pool that are under way. -/
def Pool.inFlight (p : Pool) : List Nat := p.own.filter fun i => !p.outbox.finished i

/-- A step of the pool, or of the others. -/
inductive PoolLabel where
  /-- `OnStart`. -/
  | start
  /-- A goroutine makes its ticker. -/
  | begin (k : Nat) (draw : Int)
  /-- `select` receives from the ticker. -/
  | tick (k : Nat)
  /-- `select` finds the context done. -/
  | quit (k : Nat)
  /-- `ClaimPending`, which fails under a context that is done. -/
  | claim (k : Nat) (locked : List UUID) (rep : DbReply)
  /-- A step of the dispatch a goroutine is in. -/
  | dispatch (k : Nat) (ac : Act)
  /-- `dispatch` returns, and so does `tick`. -/
  | finished (k : Nat)
  /-- The test of `ctx.Err()`. -/
  | check (k : Nat)
  /-- All goroutines have returned, and `Run` closes `done`. -/
  | close
  /-- `OnStop` cancels the context. -/
  | stop
  | drained
  | timeout
  /-- A step of the others. -/
  | other (a : Label)
deriving Repr

/-- A step of one of the goroutines. -/
def PoolLabel.isOwn : PoolLabel → Bool
  | .begin _ _ | .tick _ | .quit _ | .claim _ _ _ | .dispatch _ _ | .finished _ | .check _ => true
  | _ => false

/-! ## Steps -/

/-- The context of the dispatch at place `i` is cancelled. -/
def Outbox.cancel (cfg : WorkerConfig) (s : Outbox) (i : Nat) : Outbox :=
  (s.step cfg (.dispatch i .cancel)).getD s

/-- A claim under a context that is done does not reach the database. -/
def Pool.reply (p : Pool) (rep : DbReply) : DbReply := if p.cancelled then .unreached else rep

/-- The row `tick` gets. -/
def Pool.claims? (p : Pool) (locked : List UUID) (rep : DbReply) : Option Row :=
  if p.reply rep = .committed then p.outbox.table.claimCandidate p.outbox.now locked else none

/-- Where a goroutine is after `ClaimPending`: in a dispatch, or back at the `select`. -/
def Pool.afterClaim (p : Pool) (draining : Bool) : Option Row → TickPc
  | some _ => .dispatching p.outbox.dispatches.length draining
  | none => .selecting

/-- The step of an outbox is not one of the dispatches named. -/
def Label.spares (own : List Nat) : Label → Bool
  | .dispatch i _ => i ∉ own
  | _ => true

/-- The steps `dispatch` takes itself. -/
def Act.isOwn : Act → Bool
  | .crash | .cancel => false
  | _ => true

def Pool.setLoop (p : Pool) (k : Nat) (l : TickLoop) : Pool := { p with loops := p.loops.set k l }

/-- One step of the goroutine `k`. -/
def Pool.loopStep (c : PoolConfig) (p : Pool) (k : Nat) (l : TickLoop) : PoolLabel → Option Pool
  | .begin _ draw =>
      match l.pc with
      | .starting =>
          if IsDraw c.poll draw then
            some (p.setLoop k
              ⟨.selecting, ⟨p.outbox.now, jitter c.poll draw, p.outbox.now⟩⟩)
          else none
      | _ => none
  | .tick _ =>
      match l.pc with
      | .selecting =>
          if l.ticker.Fired p.outbox.now then
            some (p.setLoop k ⟨.claiming false, { l.ticker with last := p.outbox.now }⟩)
          else none
      | _ => none
  | .quit _ =>
      match l.pc with
      | .selecting => if p.cancelled then some (p.setLoop k { l with pc := .returned }) else none
      | _ => none
  | .claim _ locked rep =>
      match l.pc with
      | .claiming draining =>
          (p.outbox.step c.worker (.claim locked (p.reply rep))).map fun o =>
            { p.setLoop k { l with pc := p.afterClaim draining (p.claims? locked rep) } with
              outbox := o
              own := p.own ++
                ((p.claims? locked rep).map fun _ => p.outbox.dispatches.length).toList }
      | _ => none
  | .dispatch _ ac =>
      match l.pc with
      | .dispatching i _ =>
          if ac.isOwn then
            (p.outbox.step c.worker (.dispatch i ac)).map fun o => { p with outbox := o }
          else none
      | _ => none
  | .finished _ =>
      match l.pc with
      | .dispatching i draining =>
          if p.outbox.finished i then
            some (p.setLoop k { l with pc := if draining then .checking else .claiming true })
          else none
      | _ => none
  | .check _ =>
      match l.pc with
      | .checking =>
          some (p.setLoop k { l with pc := if p.cancelled then .returned else .claiming true })
      | _ => none
  | _ => none

/-- The goroutine a step is one of. -/
def PoolLabel.loop? : PoolLabel → Option Nat
  | .begin k _ | .tick k | .quit k | .claim k _ _ | .dispatch k _ | .finished k | .check k => some k
  | _ => none

/-- One step of the hooks, of `Run` or of the others. -/
def Pool.hookStep (c : PoolConfig) (p : Pool) : PoolLabel → Option Pool
  | .start =>
      if p.started ∨ p.stop ≠ .idle then none
      else some { p with started := true, loops := List.replicate c.size ⟨.starting, {}⟩ }
  | .close =>
      if p.started ∧ p.done = false ∧ ∀ l ∈ p.loops, l.pc = .returned then
        some { p with done := true }
      else none
  | .stop =>
      match p.stop with
      | .idle =>
          -- `stopCancel` is `nil` before `OnStart`
          if p.started then
            some { p with
              stop := .waiting
              cancelled := true
              outbox := p.own.foldl (Outbox.cancel c.worker) p.outbox }
          else some { p with stop := .waiting }
      | _ => none
  | .drained =>
      match p.stop, p.done with
      | .waiting, true => some { p with stop := .returned true }
      | _, _ => none
  | .timeout =>
      match p.stop with
      | .waiting => some { p with stop := .returned false }
      | _ => none
  | .other a =>
      if a.spares p.own then (p.outbox.step c.worker a).map fun o => { p with outbox := o }
      else none
  | _ => none

/-- One step of the pool. -/
def Pool.step (c : PoolConfig) (p : Pool) (a : PoolLabel) : Option Pool :=
  match a.loop? with
  | some k => p.loops[k]?.bind fun l => p.loopStep c k l a
  | none => p.hookStep c a

variable {c : PoolConfig} {p p' : Pool} {a : PoolLabel}

/-- What one step of the pool can do. -/
inductive PoolMove (c : PoolConfig) (p : Pool) : PoolLabel → Pool → Prop where
  | start : p.started = false → p.stop = .idle →
      PoolMove c p .start
        { p with started := true, loops := List.replicate c.size ⟨.starting, {}⟩ }
  | begin {k : Nat} {l : TickLoop} {draw : Int} : p.loops[k]? = some l → l.pc = .starting →
      IsDraw c.poll draw →
      PoolMove c p (.begin k draw)
        (p.setLoop k ⟨.selecting, ⟨p.outbox.now, jitter c.poll draw, p.outbox.now⟩⟩)
  | tick {k : Nat} {l : TickLoop} : p.loops[k]? = some l → l.pc = .selecting →
      l.ticker.Fired p.outbox.now →
      PoolMove c p (.tick k)
        (p.setLoop k ⟨.claiming false, { l.ticker with last := p.outbox.now }⟩)
  | quit {k : Nat} {l : TickLoop} : p.loops[k]? = some l → l.pc = .selecting →
      p.cancelled = true → PoolMove c p (.quit k) (p.setLoop k { l with pc := .returned })
  | claimed {k : Nat} {l : TickLoop} {draining : Bool} {locked : List UUID} {r : Row}
      {o : Outbox} : p.loops[k]? = some l → l.pc = .claiming draining → p.cancelled = false →
      p.outbox.table.claimCandidate p.outbox.now locked = some r →
      p.outbox.step c.worker (.claim locked .committed) = some o →
      PoolMove c p (.claim k locked .committed)
        { p.setLoop k { l with pc := .dispatching p.outbox.dispatches.length draining } with
          outbox := o, own := p.own ++ [p.outbox.dispatches.length] }
  | noRow {k : Nat} {l : TickLoop} {draining : Bool} {locked : List UUID} {rep : DbReply}
      {o : Outbox} : p.loops[k]? = some l → l.pc = .claiming draining →
      p.claims? locked rep = none →
      p.outbox.step c.worker (.claim locked (p.reply rep)) = some o →
      PoolMove c p (.claim k locked rep)
        { p.setLoop k { l with pc := .selecting } with outbox := o }
  | dispatch {k i : Nat} {l : TickLoop} {draining : Bool} {ac : Act} {o : Outbox} :
      p.loops[k]? = some l → l.pc = .dispatching i draining → ac.isOwn = true →
      p.outbox.step c.worker (.dispatch i ac) = some o →
      PoolMove c p (.dispatch k ac) { p with outbox := o }
  | finished {k i : Nat} {l : TickLoop} {draining : Bool} : p.loops[k]? = some l →
      l.pc = .dispatching i draining → p.outbox.finished i = true →
      PoolMove c p (.finished k)
        (p.setLoop k { l with pc := if draining then .checking else .claiming true })
  | check {k : Nat} {l : TickLoop} : p.loops[k]? = some l → l.pc = .checking →
      PoolMove c p (.check k)
        (p.setLoop k { l with pc := if p.cancelled then .returned else .claiming true })
  | close : p.started = true → (∀ l ∈ p.loops, l.pc = .returned) →
      PoolMove c p .close { p with done := true }
  | stop : p.stop = .idle → p.started = true →
      PoolMove c p .stop
        { p with
          stop := .waiting, cancelled := true
          outbox := p.own.foldl (Outbox.cancel c.worker) p.outbox }
  | stopUnstarted : p.stop = .idle → p.started = false →
      PoolMove c p .stop { p with stop := .waiting }
  | drained : p.stop = .waiting → p.done = true →
      PoolMove c p .drained { p with stop := .returned true }
  | timeout : p.stop = .waiting → PoolMove c p .timeout { p with stop := .returned false }
  | other {a : Label} {o : Outbox} : a.spares p.own = true →
      p.outbox.step c.worker a = some o → PoolMove c p (.other a) { p with outbox := o }

theorem Pool.claims?_eq_some {locked : List UUID} {rep : DbReply} {r : Row}
    (h : p.claims? locked rep = some r) :
    p.cancelled = false ∧ rep = .committed ∧
      p.outbox.table.claimCandidate p.outbox.now locked = some r := by
  unfold Pool.claims? Pool.reply at h
  cases hc : p.cancelled with
  | true => simp [hc] at h
  | false =>
      simp only [hc, Bool.false_eq_true, if_false] at h
      split at h
      · next hr => exact ⟨rfl, hr, h⟩
      · cases h

theorem Pool.step_move (h : p.step c a = some p') : PoolMove c p a p' := by
  unfold Pool.step at h
  cases a with
  | start =>
      simp only [PoolLabel.loop?, Pool.hookStep] at h
      split at h
      · cases h
      · next hn =>
          cases h
          push Not at hn
          exact .start (by simpa using hn.1) hn.2
  | begin k draw =>
      obtain ⟨l, hl, hs⟩ := Option.bind_eq_some_iff.mp h
      simp only [Pool.loopStep] at hs
      split at hs
      · next hpc =>
          split at hs
          · next hd => cases hs; exact .begin hl hpc hd
          · cases hs
      · cases hs
  | tick k =>
      obtain ⟨l, hl, hs⟩ := Option.bind_eq_some_iff.mp h
      simp only [Pool.loopStep] at hs
      split at hs
      · next hpc =>
          split at hs
          · next hf => cases hs; exact .tick hl hpc hf
          · cases hs
      · cases hs
  | quit k =>
      obtain ⟨l, hl, hs⟩ := Option.bind_eq_some_iff.mp h
      simp only [Pool.loopStep] at hs
      split at hs
      · next hpc =>
          split at hs
          · next hc => cases hs; exact .quit hl hpc hc
          · cases hs
      · cases hs
  | claim k locked rep =>
      obtain ⟨l, hl, hs⟩ := Option.bind_eq_some_iff.mp h
      simp only [Pool.loopStep] at hs
      split at hs
      · next draining hpc =>
          obtain ⟨o, ho, rfl⟩ := Option.map_eq_some_iff.mp hs
          cases hr : p.claims? locked rep with
          | none => simpa [hr, Pool.afterClaim, Pool.setLoop] using PoolMove.noRow hl hpc hr ho
          | some r =>
              obtain ⟨hc, rfl, hrow⟩ := Pool.claims?_eq_some hr
              have hrep : p.reply .committed = .committed := by simp [Pool.reply, hc]
              rw [hrep] at ho
              simpa [hr, Pool.afterClaim] using PoolMove.claimed hl hpc hc hrow ho
      · cases hs
  | dispatch k ac =>
      obtain ⟨l, hl, hs⟩ := Option.bind_eq_some_iff.mp h
      simp only [Pool.loopStep] at hs
      split at hs
      · next i draining hpc =>
          split at hs
          · next hac =>
              obtain ⟨o, ho, rfl⟩ := Option.map_eq_some_iff.mp hs
              exact .dispatch hl hpc hac ho
          · cases hs
      · cases hs
  | finished k =>
      obtain ⟨l, hl, hs⟩ := Option.bind_eq_some_iff.mp h
      simp only [Pool.loopStep] at hs
      split at hs
      · next i draining hpc =>
          split at hs
          · next hf => cases hs; exact .finished hl hpc hf
          · cases hs
      · cases hs
  | check k =>
      obtain ⟨l, hl, hs⟩ := Option.bind_eq_some_iff.mp h
      simp only [Pool.loopStep] at hs
      split at hs
      · next hpc => cases hs; exact .check hl hpc
      · cases hs
  | close =>
      simp only [PoolLabel.loop?, Pool.hookStep] at h
      split at h
      · next hc => cases h; exact .close hc.1 hc.2.2
      · cases h
  | stop =>
      simp only [PoolLabel.loop?, Pool.hookStep] at h
      split at h
      · next hst =>
          split at h
          · next hs => cases h; exact .stop hst hs
          · next hs => cases h; exact .stopUnstarted hst (by simpa using hs)
      · cases h
  | drained =>
      simp only [PoolLabel.loop?, Pool.hookStep] at h
      split at h
      · next hst hd => cases h; exact .drained hst hd
      · cases h
  | timeout =>
      simp only [PoolLabel.loop?, Pool.hookStep] at h
      split at h
      · next hst => cases h; exact .timeout hst
      · cases h
  | other a =>
      simp only [PoolLabel.loop?, Pool.hookStep] at h
      split at h
      · next hsp =>
          obtain ⟨o, ho, rfl⟩ := Option.map_eq_some_iff.mp h
          exact .other hsp ho
      · cases h

end Signalium
