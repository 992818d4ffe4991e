import Signalium.Signal.Connections

/-!
# From Start to the exit of the dial loop

`Client.init` is the client after `Start`.  Here `Start` is a step of its own:
before it, a call of `Send` can take its snapshot in `waitConnected`, and a call
of `Close` can run through, with no `runCancel` to call and no goroutine to wait
for.  A `Send` that comes to the `select` before `Start` dereferences the nil
`runCtx`, which ends the process, so there is no step for it.

The gates are the channels `dialOnce` has been.  All but the last one are closed
(`GateInv.older`), and the last one is closed while a connection is published.
`dialLoop` stops only after `Close` has set `c.closed`, so no caller registers
once the entries have been failed for the last time.
-/

namespace Signalium

open Replies Runs

variable {cfg : TCPConfig} {c c' : Client} {k n : Nat} {call call' : Call}

/-! ## Start -/

/-- The client, and whether `Start` has been called. -/
structure Lifecycle where
  started : Bool
  client : Client

/-- `NewTCPClient`. -/
def Lifecycle.init : Lifecycle := ⟨false, Client.init⟩

inductive LifeLabel where
  | start
  | client (a : ClientLabel)
  /-- `Close` finds `c.runCancel` nil. -/
  | skipCancel
  /-- `wg.Wait` finds no goroutine. -/
  | drained
deriving Repr

/-- The steps of the client that do not need `Start`. -/
def ClientLabel.beforeStart : ClientLabel → Bool
  | .call _ | .send _ .snapshot | .close .mark | .close .closeConn | .close .drainTimeout => true
  | _ => false

/-- One step, with `Start` among them. -/
def Lifecycle.step (cfg : TCPConfig) (s : Lifecycle) : LifeLabel → Option Lifecycle
  | .start => if s.started then none else some { s with started := true }
  | .client a =>
      if s.started || a.beforeStart then
        (s.client.step cfg a).map fun c => { s with client := c }
      else none
  | .skipCancel =>
      match s.started, s.client.closer with
      | false, .marked conn => some { s with client := { s.client with closer := .cancelled conn } }
      | _, _ => none
  | .drained =>
      match s.started, s.client.closer with
      | false, .waiting => some { s with client := { s.client with closer := .returned true } }
      | _, _ => none

/-- What a step can do to the client. -/
inductive LifeMove (cfg : TCPConfig) (c : Client) : LifeLabel → Client → Prop where
  | start : LifeMove cfg c .start c
  | client {a : ClientLabel} {c' : Client} : c.step cfg a = some c' →
      LifeMove cfg c (.client a) c'
  | skipCancel {conn : Option Nat} : c.closer = .marked conn →
      LifeMove cfg c .skipCancel { c with closer := .cancelled conn }
  | drained : c.closer = .waiting → LifeMove cfg c .drained { c with closer := .returned true }

theorem Lifecycle.step_move {s s' : Lifecycle} {a : LifeLabel} (h : s.step cfg a = some s') :
    LifeMove cfg s.client a s'.client := by
  cases a with
  | start =>
      simp only [Lifecycle.step] at h
      split at h
      · cases h
      · cases h; exact .start
  | client a =>
      simp only [Lifecycle.step] at h
      split at h
      · obtain ⟨c, hc, rfl⟩ := Option.map_eq_some_iff.mp h
        exact .client hc
      · cases h
  | skipCancel =>
      simp only [Lifecycle.step] at h
      split at h
      · next hc => cases h; exact .skipCancel hc
      · cases h
  | drained =>
      simp only [Lifecycle.step] at h
      split at h
      · next hc => cases h; exact .drained hc
      · cases h

theorem ConnInv.life {a : LifeLabel} (h : ConnInv c) (hm : LifeMove cfg c a c') : ConnInv c' := by
  cases hm with
  | start => exact h
  | client hs => exact h.step hs
  | skipCancel hcl =>
      have hr := h.reads_open
      have hu := h.unpublished
      have hsn := h.snapshot
      have hc := h.closed_iff
      rw [hcl] at hr hu hsn hc
      exact ⟨h.conn_eq, h.no_panic, h.gate, h.newest, hr, hu, hsn, by simpa using hc⟩
  | drained hcl =>
      have hr := h.reads_open
      have hu := h.unpublished
      have hc := h.closed_iff
      rw [hcl] at hr hu hc
      exact ⟨h.conn_eq, h.no_panic, h.gate, h.newest, hr, hu, fun n hn => (by cases hn),
        by simpa using hc⟩

/-! ## The invariant -/

/-- The gate has been closed and not yet replaced. -/
def LoopPc.gateClosed : LoopPc → Bool
  | .reading _ | .delivering _ _ _ | .failing _ | .closing _ | .clearing _ | .cleared _
  | .rearming | .exited => true
  | _ => false

/-- `dialLoop` is in `markShutdown`, or has exited. -/
def LoopPc.stopping : LoopPc → Bool
  | .shutdownFail | .shutdownMark | .exited => true
  | _ => false

/-- The entries have been failed for the last time. -/
def LoopPc.emptied : LoopPc → Bool
  | .shutdownMark | .exited => true
  | _ => false

/-- The invariant of the gates and of the shutdown. -/
structure GateInv (c : Client) : Prop where
  current : c.dialOnce + 1 = c.gates.length
  older : ∀ g, g < c.dialOnce → c.gates[g]? = some true
  opened : c.loop.gateClosed = true → c.gates[c.dialOnce]? = some true
  captured : ∀ (k : Nat) (call : Call) (g : Nat), c.calls[k]? = some call →
    call.pc = .waiting g → g ≤ c.dialOnce
  run_closed : c.runDone = true → c.closed = true
  read_closed : c.loop = .cleared true → c.closed = true
  stopping : c.loop.stopping = true → c.closed = true
  emptied : c.loop.emptied = true → c.pending = []
  torn : ∀ n, c.loop = .clearing n → c.conns[n]? = some true
  /-- A connection `dialLoop` has let go of is closed. -/
  released : ∀ n, n < c.conns.length → c.loop.newest? ≠ some n → c.conns[n]? = some true

theorem gateInv_init : GateInv Client.init where
  current := rfl
  older := fun g hg => absurd hg (Nat.not_lt_zero g)
  opened := fun h => by cases h
  captured := fun k call g h => by cases h
  run_closed := fun h => by cases h
  read_closed := fun h => by cases h
  stopping := fun h => by cases h
  emptied := fun h => by cases h
  torn := fun n h => by cases h
  released := fun n h => absurd h (Nat.not_lt_zero n)

/-- A gate or a connection that is closed stays closed. -/
theorem set_true_of {l : List Bool} {i j : Nat} (h : l[i]? = some true) :
    (l.set j true)[i]? = some true := by
  by_cases hij : i = j
  · subst hij
    exact Places.set_self h
  · rw [Places.set_ne hij]
    exact h

/-- Calls that `failPending` fails stay where they are. -/
theorem Client.failPending_pc {g : Nat} (h : c.failPending.calls[k]? = some call)
    (hpc : call.pc = .waiting g) : ∃ old, c.calls[k]? = some old ∧ old.pc = .waiting g := by
  simp only [Client.failPending, List.getElem?_mapIdx, Option.map_eq_some_iff] at h
  obtain ⟨old, hold, rfl⟩ := h
  refine ⟨old, hold, ?_⟩
  unfold Call.fail at hpc
  split at hpc <;> exact hpc

theorem GateInv.loop {a : LoopAct} (h : GateInv c) (hi : ConnInv c) (hm : LoopMove c a c') :
    GateInv c' where
  current := by
    cases hm with
    | publish | shutdownMark => simpa using h.current
    | rearm => simp
    | _ => exact h.current
  older := by
    have hc := h.older
    have hcur := h.current
    cases hm with
    | publish | shutdownMark => exact fun g hg => set_true_of (hc g hg)
    | rearm hl =>
        intro g hg
        by_cases hlt : g < c.dialOnce
        · exact Places.snoc_of (hc g hlt)
        · obtain rfl : g = c.dialOnce := by
            have : g < c.gates.length := hg
            omega
          exact Places.snoc_of (h.opened (by rw [hl]; rfl))
    | _ => exact hc
  opened := by
    have hcur := h.current
    cases hm with
    | publish hl hg => exact fun _ => Places.set_self hg
    | shutdownMark hl =>
        intro _
        rw [List.getElem?_set_self (by omega)]
    | matched hl | deliver hl | readEnd hl | failPending hl | closeConn hl | clearConn hl
    | checkClosedGo hl =>
        exact fun _ => h.opened (by rw [hl]; rfl)
    | skipped | unmatched | ignored | event | eventDropped => exact h.opened
    | _ => exact fun he => by cases he
  captured := by
    have hc := h.captured
    have hcur := h.current
    cases hm with
    | rearm =>
        intro k call g hcall hpc
        have := hc k call g hcall hpc
        show g ≤ c.gates.length
        omega
    | deliver hl hcall₀ =>
        intro k call g hcall hpc
        rcases Places.of_set hcall with ⟨rfl, rfl⟩ | ⟨_, hold⟩
        · exact hc k _ g hcall₀ hpc
        · exact hc k call g hold hpc
    | failPending | shutdownFail =>
        intro k call g hcall hpc
        obtain ⟨old, hold, hpc'⟩ := Client.failPending_pc hcall hpc
        exact hc k old g hold hpc'
    | _ => exact hc
  run_closed := by
    cases hm with
    | shutdownMark => exact fun _ => rfl
    | _ => exact h.run_closed
  read_closed := by
    cases hm with
    | clearConn => exact fun he => by injection he
    | skipped | unmatched | ignored | event | eventDropped => exact h.read_closed
    | _ => exact fun he => by cases he
  stopping := by
    cases hm with
    | checkStop _ hstop | sleptStop _ hstop => exact fun _ => h.run_closed hstop
    | @checkClosedStop closed hl hstop =>
        intro _
        cases closed with
        | true => exact h.read_closed hl
        | false => exact h.run_closed hstop
    | shutdownFail hl => exact fun _ => h.stopping (by rw [hl]; rfl)
    | shutdownMark => exact fun _ => rfl
    | skipped | unmatched | ignored | event | eventDropped => exact h.stopping
    | _ => exact fun he => by cases he
  emptied := by
    cases hm with
    | shutdownFail => exact fun _ => rfl
    | shutdownMark hl => exact fun _ => h.emptied (by rw [hl]; rfl)
    | skipped | unmatched | ignored | event | eventDropped => exact h.emptied
    | _ => exact fun he => by cases he
  torn := by
    cases hm with
    | closeConn hl =>
        intro n hn
        cases hn
        have := hi.newest _ (by rw [hl]; rfl)
        rw [List.getElem?_set_self (by omega)]
    | skipped | unmatched | ignored | event | eventDropped => exact h.torn
    | _ => exact fun n hn => by cases hn
  released := by
    have hc := h.released
    cases hm with
    | dialOk hl =>
        intro n hn hne
        have hlt : n < c.conns.length := by
          have hle : n < c.conns.length + 1 := by simpa using hn
          have hneq : c.conns.length ≠ n := fun he => hne (congrArg some he)
          omega
        exact Places.snoc_of (hc n hlt (by rw [hl]; exact fun h => by cases h))
    | closeConn hl =>
        intro n hn hne
        rw [hl] at hc
        exact set_true_of (hc n (by simpa using hn) hne)
    | @clearConn m hl =>
        intro n hn _
        by_cases hnm : n = m
        · subst hnm
          exact h.torn n hl
        · exact hc n hn (by rw [hl]; exact fun he => hnm (Option.some.inj he).symm)
    | publishPanic hl hg => exact absurd (hi.gate (by rw [hl]; rfl)) hg
    | skipped | unmatched | ignored | event | eventDropped => exact hc
    | checkStop hl | checkGo hl | dialFailed hl | slept hl | sleptStop hl | publish hl | matched hl
    | deliver hl | readEnd hl | failPending hl | checkClosedStop hl | checkClosedGo hl | rearm hl
    | shutdownFail hl | shutdownMark hl =>
        rw [hl] at hc
        exact hc

theorem LoopPc.stopping_of_emptied {l : LoopPc} (h : l.emptied = true) : l.stopping = true := by
  cases l <;> first | rfl | cases h

/-- Steps of the callers. -/
theorem GateInv.send {a : CallAct} {p : List (String × Nat)} {w : Option Nat} (h : GateInv c)
    (hcall : c.calls[k]? = some call) (hm : CallMove cfg c k call a call' p w) :
    GateInv { c with calls := c.calls.set k call', pending := p, writeMu := w } := by
  refine { h with captured := ?_, emptied := ?_ }
  · intro j other g hother hpc
    rcases Places.of_set hother with ⟨rfl, rfl⟩ | ⟨_, hold⟩
    · cases hm with
      | snapshot => cases hpc; exact Nat.le_refl _
      | snapNil | writeFailed =>
          cases (cfg.leave_result _).symm.trans (congrArg CallPc.result? hpc)
      | written => split at hpc <;> cases hpc
      | _ => cases hpc
    · exact h.captured j other g hold hpc
  · intro he
    have hempty : c.pending = [] := h.emptied he
    have hclosed : c.closed = true := h.stopping (LoopPc.stopping_of_emptied he)
    cases hm with
    | register _ _ hopen => rw [hclosed] at hopen; cases hopen
    | unregister => rw [hempty]; cases call.id <;> rfl
    | _ => exact hempty

/-- Steps of `Close`. -/
theorem GateInv.close {a : CloseAct} (h : GateInv c) (hi : ConnInv c) (hm : CloseMove c a c') :
    GateInv c' := by
  have hclosed : c.closer ≠ .idle → c.closed = true := fun hne => hi.closed_iff.mpr (Or.inl hne)
  cases hm with
  | mark =>
      exact { h with
        run_closed := fun _ => rfl
        read_closed := fun _ => rfl
        stopping := fun _ => rfl }
  | cancel hcl =>
      have hc : c.closed = true := hclosed (by rw [hcl]; exact fun h => by cases h)
      exact { h with run_closed := fun _ => hc }
  | closeConn =>
      exact { h with
        torn := fun n hn => set_true_of (h.torn n hn)
        released := fun n hn hne => set_true_of (h.released n (by simpa using hn) hne) }
  | _ => exact { h with }

theorem GateInv.step {a : ClientLabel} (h : GateInv c) (hi : ConnInv c)
    (hs : c.step cfg a = some c') : GateInv c' := by
  cases Client.step_move hs with
  | call =>
      refine { h with captured := ?_ }
      intro k call g hcall hpc
      rcases Places.of_snoc hcall with hold | ⟨_, rfl⟩
      · exact h.captured k call g hold hpc
      · cases hpc
  | send hcall hm => exact h.send hcall hm
  | loop hm => exact h.loop hi hm
  | close hm => exact h.close hi hm
  | consume => exact { h with }

theorem GateInv.life {a : LifeLabel} (h : GateInv c) (hi : ConnInv c)
    (hm : LifeMove cfg c a c') : GateInv c' := by
  cases hm with
  | start => exact h
  | client hs => exact h.step hi hs
  | skipCancel => exact { h with }
  | drained => exact { h with }

/-! ## Safety -/

variable {s s' : Lifecycle} {a : LifeLabel}

/-- The call has neither registered an entry nor written a frame since. -/
def Call.Quiet (calls : List Call) (k : Nat) (call' : Call) : Prop :=
  call'.id = none ∧ call'.written = none ∨
    ∃ call, calls[k]? = some call ∧ call'.id = call.id ∧ call'.written = call.written

/-- Safety of the gates and of the shutdown. -/
structure GateSafe (cfg : TCPConfig) (s : Lifecycle) : Prop where
  /-- `close` has not met a closed channel. -/
  no_double_close : s.client.loop ≠ .panicked
  replaced : ∀ a s', s.step cfg a = some s' → s'.client.dialOnce ≠ s.client.dialOnce →
    s.client.gates[s.client.dialOnce]? = some true
  captured : ∀ (k : Nat) (call : Call) (g : Nat), s.client.calls[k]? = some call →
    call.pc = .waiting g → g = s.client.dialOnce ∨ s.client.gates[g]? = some true
  exited : s.client.loop = .exited →
    s.client.closed = true ∧ s.client.gates[s.client.dialOnce]? = some true ∧ s.client.pending = []
  /-- After the exit of `dialLoop` no step registers an entry or writes a frame. -/
  quiet : s.client.loop = .exited → ∀ a s', s.step cfg a = some s' →
    s'.client.loop = .exited ∧
      ∀ (k : Nat) (call' : Call), s'.client.calls[k]? = some call' →
        call'.Quiet s.client.calls k

/-- Only the re-arming of the gate replaces it. -/
theorem GateInv.replaced (h : GateInv c) (hm : LifeMove cfg c a c')
    (hne : c'.dialOnce ≠ c.dialOnce) : c.gates[c.dialOnce]? = some true := by
  cases hm with
  | client hs =>
      cases Client.step_move hs with
      | loop hm =>
          cases hm with
          | rearm hl => exact h.opened (by rw [hl]; rfl)
          | _ => exact absurd rfl hne
      | close hm => cases hm <;> exact absurd rfl hne
      | _ => exact absurd rfl hne
  | _ => exact absurd rfl hne

theorem GateInv.captured_closed (h : GateInv c) {g : Nat} (hcall : c.calls[k]? = some call)
    (hpc : call.pc = .waiting g) : g = c.dialOnce ∨ c.gates[g]? = some true := by
  rcases Nat.lt_or_eq_of_le (h.captured k call g hcall hpc) with hlt | heq
  · exact Or.inr (h.older g hlt)
  · exact Or.inl heq

/-- `dialLoop` does not come back. -/
theorem LifeMove.exited (hm : LifeMove cfg c a c') (hl : c.loop = .exited) : c'.loop = .exited := by
  cases hm with
  | client hs =>
      cases Client.step_move hs with
      | loop hm =>
          exfalso
          -- no step of `dialLoop` starts there
          cases hm <;> simp_all only [reduceCtorEq]
      | close hm => cases hm <;> exact hl
      | _ => exact hl
  | _ => exact hl

/-- A step of a caller after the exit of `dialLoop`. -/
theorem GateInv.quiet_move (h : GateInv c) (hl : c.loop = .exited) {act : CallAct}
    {p : List (String × Nat)} {w : Option Nat} (hm : CallMove cfg c k call act call' p w) :
    call'.id = call.id ∧ call'.written = call.written := by
  cases hm with
  | register _ _ hopen =>
      rw [h.stopping (by rw [hl]; rfl)] at hopen
      cases hopen
  | @written conn _ hopen =>
      -- every connection has been closed
      have hlt : conn < c.conns.length := (List.getElem?_eq_some_iff.mp hopen).1
      rw [h.released conn hlt (by rw [hl]; exact fun hn => by cases hn)] at hopen
      cases hopen
  | _ => exact ⟨rfl, rfl⟩

theorem GateInv.quiet (h : GateInv c) (hm : LifeMove cfg c a c') (hl : c.loop = .exited)
    (hcall' : c'.calls[k]? = some call') : call'.Quiet c.calls k := by
  cases hm with
  | client hs =>
      rcases (Client.step_move hs).of_call hcall' with ⟨call, hcall, hev⟩ | ⟨params, _, _, rfl⟩
      · cases hev with
        | idle => exact Or.inr ⟨_, hcall, rfl, rfl⟩
        | moved hmove => exact Or.inr ⟨call, hcall, h.quiet_move hl hmove⟩
        | delivered => exact Or.inr ⟨call, hcall, rfl, rfl⟩
        | failed => exact Or.inr ⟨call, hcall, rfl, rfl⟩
      · exact Or.inl ⟨rfl, rfl⟩
  | _ => exact Or.inr ⟨call', hcall', rfl, rfl⟩

/-- **The gates and the shutdown are safe** in every run, however one `Start`, the
calls of `Send`, the dials, the disconnects and `Close` interleave. -/
theorem gate_safe {tr : List LifeLabel} (h : Run (Lifecycle.step cfg) Lifecycle.init tr s) :
    GateSafe cfg s := by
  have hinv : ConnInv s.client ∧ GateInv s.client :=
    h.invariant (I := fun s => ConnInv s.client ∧ GateInv s.client) ⟨connInv_init, gateInv_init⟩
      fun _ _ _ hi _ hs =>
        ⟨hi.1.life (Lifecycle.step_move hs), hi.2.life hi.1 (Lifecycle.step_move hs)⟩
  obtain ⟨hconn, hgate⟩ := hinv
  exact
    { no_double_close := hconn.no_panic
      replaced := fun a s' hs hne => hgate.replaced (Lifecycle.step_move hs) hne
      captured := fun k call g hcall hpc => hgate.captured_closed hcall hpc
      exited := fun hl => ⟨hgate.stopping (by rw [hl]; rfl), hgate.opened (by rw [hl]; rfl),
        hgate.emptied (by rw [hl]; rfl)⟩
      quiet := fun hl a s' hs => ⟨(Lifecycle.step_move hs).exited hl,
        fun k call' hcall' => hgate.quiet (Lifecycle.step_move hs) hl hcall'⟩ }

/-- A caller captures the first gate before `Start`.  The first connection is
lost, the second one is published, and `Close` runs to its end. -/
def wholeLife : List LifeLabel :=
  ([.client (.call { account := "+1", message := "a", attachments := [] }),
    .client (.send 0 .snapshot), .start] : List LifeLabel) ++
  ([.loop .check, .loop .dialFailed, .loop (.slept true), .loop .check, .loop .dialOk,
    .loop .publish, .loop .readEnd, .loop .failPending, .loop .closeConn, .loop .clearConn,
    .loop .checkClosed, .loop .rearm, .loop .check, .loop .dialOk, .loop .publish, .close .mark,
    .close .cancel, .close .closeConn, .loop .readEnd, .loop .failPending, .loop .closeConn,
    .loop .clearConn, .loop .checkClosed, .loop .shutdownFail, .loop .shutdownMark,
    .close .drained] : List ClientLabel).map .client

theorem wholeLife_gate_safe :
    ∃ s, Run (Lifecycle.step ⟨false⟩) Lifecycle.init wholeLife s ∧ s.client.loop = .exited ∧
      s.client.gates = [true, true] ∧ GateSafe ⟨false⟩ s := by
  have hr : Run (Lifecycle.step ⟨false⟩) Lifecycle.init wholeLife _ := run_of_exec rfl
  exact ⟨_, hr, rfl, rfl, gate_safe hr⟩

end Signalium
