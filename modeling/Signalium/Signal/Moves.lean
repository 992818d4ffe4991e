import Signalium.Lib.Places
import Signalium.Signal.Client

/-!
# What a step of the client does

The inversion of `Client.step`.  A step of a caller changes the caller, the
pending entries and the write lock, and nothing else (`CallMove`).  A step of
`dialLoop` is a `LoopMove` and a step of `Close` a `CloseMove`, which say
everything such a step can do, with its guards.
-/

namespace Signalium

open Replies

variable {cfg : TCPConfig} {c c' : Client} {k : Nat} {call call' : Call}

/-! ## Callers -/

/-- What a step of a caller can do: the caller, the entries and the write lock
after it. -/
inductive CallMove (cfg : TCPConfig) (c : Client) (k : Nat) (call : Call) :
    CallAct → Call → List (String × Nat) → Option Nat → Prop where
  | snapshotClosed : call.pc = .start → c.closed = true →
      CallMove cfg c k call .snapshot { call with pc := .returned (.error .shutdown) }
        c.pending c.writeMu
  | snapshot : call.pc = .start → c.closed = false →
      CallMove cfg c k call .snapshot { call with pc := .waiting c.dialOnce } c.pending c.writeMu
  | gateOpen {gate : Nat} : call.pc = .waiting gate → c.gates[gate]? = some true →
      CallMove cfg c k call .gateOpen { call with pc := .connected } c.pending c.writeMu
  | waitCtx {gate : Nat} {e : CtxErr} : call.pc = .waiting gate →
      CallMove cfg c k call (.waitCtx e) { call with pc := .returned (.error (.waitingForDial e)) }
        c.pending c.writeMu
  | waitRun {gate : Nat} : call.pc = .waiting gate → c.runDone = true →
      CallMove cfg c k call .waitRun { call with pc := .returned (.error .shutdown) }
        c.pending c.writeMu
  | registerClosed {id : String} : call.pc = .connected → cfg.ignoreResults = false →
      c.closed = true →
      CallMove cfg c k call (.register id) { call with pc := .returned (.error .shutdown) }
        c.pending c.writeMu
  | register {id : String} : call.pc = .connected → cfg.ignoreResults = false → c.closed = false →
      CallMove cfg c k call (.register id) { call with id := some id, pc := .unlocked }
        ((id, k) :: erase c.pending id) c.writeMu
  | fire : call.pc = .connected → cfg.ignoreResults = true →
      CallMove cfg c k call .fire { call with pc := .unlocked } c.pending c.writeMu
  | lockWrite : call.pc = .unlocked → c.writeMu = none →
      CallMove cfg c k call .lockWrite { call with pc := .locked } c.pending (some k)
  | snapConn {conn : Nat} : call.pc = .locked → c.conn = some conn →
      CallMove cfg c k call .snapConn { call with pc := .writing conn } c.pending c.writeMu
  | snapNil : call.pc = .locked → c.conn = none →
      CallMove cfg c k call .snapConn { call with pc := cfg.leave (.error .disconnected) }
        c.pending none
  | written {conn : Nat} : call.pc = .writing conn → c.conns[conn]? = some false →
      CallMove cfg c k call (.write none)
        { call with
          written := some conn
          pc := if cfg.ignoreResults then .returned (.ok {}) else .awaiting }
        c.pending none
  | writeFailed {conn : Nat} {e : String} : call.pc = .writing conn →
      CallMove cfg c k call (.write (some e)) { call with pc := cfg.leave (.error (.tcpWrite e)) }
        c.pending none
  | awaitCtx {e : CtxErr} : call.pc = .awaiting →
      CallMove cfg c k call (.awaitCtx e) { call with pc := .leaving (.error (.sendCtx e)) }
        c.pending c.writeMu
  | awaitRun : call.pc = .awaiting → c.runDone = true →
      CallMove cfg c k call .awaitRun { call with pc := .leaving (.error .shutdown) }
        c.pending c.writeMu
  | awaitTimer : call.pc = .awaiting →
      CallMove cfg c k call .awaitTimer { call with pc := .leaving (.error .timeout) }
        c.pending c.writeMu
  | awaitResp {resp : RpcResponse} : call.pc = .awaiting → call.ch = some resp →
      CallMove cfg c k call .awaitResp { call with ch := none, pc := .leaving resp.outcome }
        c.pending c.writeMu
  | unregister {r : Except SendError SendResult} : call.pc = .leaving r →
      CallMove cfg c k call .unregister { call with pc := .returned r }
        ((call.id.map (erase c.pending)).getD c.pending) c.writeMu

theorem Client.callStep_move {a : CallAct} (h : c.callStep cfg k call a = some c') :
    ∃ call' p w, CallMove cfg c k call a call' p w ∧
      c' = { c with calls := c.calls.set k call', pending := p, writeMu := w } := by
  cases a with
  | snapshot =>
      simp only [Client.callStep] at h
      split at h
      · next hpc =>
          cases h
          cases hc : c.closed with
          | true => exact ⟨_, _, _, .snapshotClosed hpc hc, by simp [Client.setCall, hc]⟩
          | false => exact ⟨_, _, _, .snapshot hpc hc, by simp [Client.setCall, hc]⟩
      · cases h
  | gateOpen =>
      simp only [Client.callStep] at h
      split at h
      · next gate hpc =>
          split at h
          · next hg => cases h; exact ⟨_, _, _, .gateOpen hpc hg, rfl⟩
          · cases h
      · cases h
  | waitCtx e =>
      simp only [Client.callStep] at h
      split at h
      · next gate hpc => cases h; exact ⟨_, _, _, .waitCtx hpc, rfl⟩
      · cases h
  | waitRun =>
      simp only [Client.callStep] at h
      split at h
      · next gate hpc =>
          split at h
          · next hr => cases h; exact ⟨_, _, _, .waitRun hpc hr, rfl⟩
          · cases h
      · cases h
  | register id =>
      simp only [Client.callStep] at h
      split at h
      · next hpc hcfg =>
          split at h
          · next hc => cases h; exact ⟨_, _, _, .registerClosed hpc hcfg hc, rfl⟩
          · next hc => cases h; exact ⟨_, _, _, .register hpc hcfg (by simpa using hc), rfl⟩
      · cases h
  | fire =>
      simp only [Client.callStep] at h
      split at h
      · next hpc hcfg => cases h; exact ⟨_, _, _, .fire hpc hcfg, rfl⟩
      · cases h
  | lockWrite =>
      simp only [Client.callStep] at h
      split at h
      · next hpc hw => cases h; exact ⟨_, _, _, .lockWrite hpc hw, rfl⟩
      · cases h
  | snapConn =>
      simp only [Client.callStep] at h
      split at h
      · next conn hpc hc => cases h; exact ⟨_, _, _, .snapConn hpc hc, rfl⟩
      · next hpc hc => cases h; exact ⟨_, _, _, .snapNil hpc hc, rfl⟩
      · cases h
  | write err =>
      simp only [Client.callStep] at h
      split at h
      · next conn hpc =>
          split at h
          · next hc => cases h; exact ⟨_, _, _, .written hpc hc, rfl⟩
          · cases h
      · next conn e hpc => cases h; exact ⟨_, _, _, .writeFailed hpc, rfl⟩
      · cases h
  | awaitCtx e =>
      simp only [Client.callStep] at h
      split at h
      · next hpc => cases h; exact ⟨_, _, _, .awaitCtx hpc, rfl⟩
      · cases h
  | awaitRun =>
      simp only [Client.callStep] at h
      split at h
      · next hpc =>
          split at h
          · next hr => cases h; exact ⟨_, _, _, .awaitRun hpc hr, rfl⟩
          · cases h
      · cases h
  | awaitTimer =>
      simp only [Client.callStep] at h
      split at h
      · next hpc => cases h; exact ⟨_, _, _, .awaitTimer hpc, rfl⟩
      · cases h
  | awaitResp =>
      simp only [Client.callStep] at h
      split at h
      · next resp hpc hch => cases h; exact ⟨_, _, _, .awaitResp hpc hch, rfl⟩
      · cases h
  | unregister =>
      simp only [Client.callStep] at h
      split at h
      · next r hpc => cases h; exact ⟨_, _, _, .unregister hpc, rfl⟩
      · cases h

/-! ## The dial loop -/

/-- What a step of `dialLoop` can do. -/
inductive LoopMove (c : Client) : LoopAct → Client → Prop where
  | checkStop : c.loop = .top → c.runDone = true →
      LoopMove c .check { c with loop := .shutdownFail }
  | checkGo : c.loop = .top → c.runDone = false → LoopMove c .check { c with loop := .dialing }
  | dialOk : c.loop = .dialing → c.runDone = false →
      LoopMove c .dialOk { c with conns := c.conns ++ [false], loop := .dialed c.conns.length }
  | dialFailed : c.loop = .dialing → LoopMove c .dialFailed { c with loop := .sleeping c.backoff }
  | slept {d : Int} : c.loop = .sleeping d →
      LoopMove c (.slept true)
        { c with backoff := nextBackoff c.backoff maxDialBackoff, loop := .top }
  | sleptStop {d : Int} : c.loop = .sleeping d → c.runDone = true →
      LoopMove c (.slept false) { c with loop := .shutdownFail }
  | publish {conn : Nat} : c.loop = .dialed conn → c.gates[c.dialOnce]? = some false →
      LoopMove c .publish
        { c with
          conn := some conn
          connGen := c.connGen + 1
          gates := c.gates.set c.dialOnce true
          backoff := baseDialBackoff
          loop := .reading conn }
  | publishPanic {conn : Nat} : c.loop = .dialed conn → c.gates[c.dialOnce]? ≠ some false →
      LoopMove c .publish
        { c with conn := some conn, connGen := c.connGen + 1, loop := .panicked }
  | skipped {conn : Nat} {line : Line} : c.loop = .reading conn → line.frame? = none →
      LoopMove c (.readLine line) c
  | matched {conn : Nat} {line : Line} {f : RpcFrame} {id : String} {k : Nat} :
      c.loop = .reading conn → line.frame? = some f → f.replyId? = some id →
      lookup c.pending id = some k →
      LoopMove c (.readLine line)
        { c with
          frames := c.frames ++ [f]
          pending := erase c.pending id
          loop := .delivering conn k f.response }
  | unmatched {conn : Nat} {line : Line} {f : RpcFrame} {id : String} :
      c.loop = .reading conn → line.frame? = some f → f.replyId? = some id →
      lookup c.pending id = none →
      LoopMove c (.readLine line) { c with frames := c.frames ++ [f] }
  | ignored {conn : Nat} {line : Line} {f : RpcFrame} : c.loop = .reading conn →
      line.frame? = some f → f.replyId? = none → f.method = "" →
      LoopMove c (.readLine line) { c with frames := c.frames ++ [f] }
  | event {conn : Nat} {line : Line} {f : RpcFrame} : c.loop = .reading conn →
      line.frame? = some f → f.replyId? = none → f.method ≠ "" → c.events.length < eventsCap →
      LoopMove c (.readLine line)
        { c with
          frames := c.frames ++ [f]
          events := c.events ++ [{ method := f.method, params := f.params }] }
  | eventDropped {conn : Nat} {line : Line} {f : RpcFrame} : c.loop = .reading conn →
      line.frame? = some f → f.replyId? = none → f.method ≠ "" → ¬ c.events.length < eventsCap →
      LoopMove c (.readLine line)
        { c with frames := c.frames ++ [f], dropped := c.dropped ++ [f.method] }
  | deliver {conn k : Nat} {resp : RpcResponse} {call : Call} :
      c.loop = .delivering conn k resp → c.calls[k]? = some call → call.ch = none →
      LoopMove c .deliver
        { c with
          calls := c.calls.set k { call with ch := some resp, puts := call.puts ++ [resp] }
          loop := .reading conn }
  | readEnd {conn : Nat} : c.loop = .reading conn →
      LoopMove c .readEnd { c with loop := .failing conn }
  | failPending {conn : Nat} : c.loop = .failing conn →
      LoopMove c .failPending { c.failPending with loop := .closing conn }
  | closeConn {conn : Nat} : c.loop = .closing conn →
      LoopMove c .closeConn { c with conns := c.conns.set conn true, loop := .clearing conn }
  | clearConn {conn : Nat} : c.loop = .clearing conn →
      LoopMove c .clearConn { c with conn := none, loop := .cleared c.closed }
  | checkClosedStop {closed : Bool} : c.loop = .cleared closed →
      (closed || c.runDone) = true → LoopMove c .checkClosed { c with loop := .shutdownFail }
  | checkClosedGo {closed : Bool} : c.loop = .cleared closed →
      (closed || c.runDone) = false → LoopMove c .checkClosed { c with loop := .rearming }
  | rearm : c.loop = .rearming →
      LoopMove c .rearm
        { c with gates := c.gates ++ [false], dialOnce := c.gates.length, loop := .top }
  | shutdownFail : c.loop = .shutdownFail →
      LoopMove c .shutdownFail { c.failPending with loop := .shutdownMark }
  | shutdownMark : c.loop = .shutdownMark →
      LoopMove c .shutdownMark
        { c with closed := true, gates := c.gates.set c.dialOnce true, loop := .exited }

/-- A line that is read. -/
theorem Client.dispatchFrame_move {conn : Nat} (hloop : c.loop = .reading conn) (line : Line) :
    LoopMove c (.readLine line) (c.dispatchFrame conn line) := by
  unfold Client.dispatchFrame
  cases hf : line.frame? with
  | none => exact .skipped hloop hf
  | some f =>
      cases hid : f.replyId? with
      | some id =>
          cases hl : lookup c.pending id with
          | some k => simpa only [hid, hl] using LoopMove.matched hloop hf hid hl
          | none => simpa only [hid, hl] using LoopMove.unmatched hloop hf hid hl
      | none =>
          simp only [hid]
          split
          · next hm => exact .ignored hloop hf hid hm
          · next hm =>
              split
              · next he => exact .event hloop hf hid hm he
              · next he => exact .eventDropped hloop hf hid hm he

theorem Client.loopStep_move {a : LoopAct} (h : c.loopStep a = some c') : LoopMove c a c' := by
  cases a with
  | check =>
      simp only [Client.loopStep] at h
      split at h
      · next hl =>
          cases h
          cases hr : c.runDone with
          | true => simpa [hr] using LoopMove.checkStop hl hr
          | false => simpa [hr] using LoopMove.checkGo hl hr
      · cases h
  | dialOk =>
      simp only [Client.loopStep] at h
      split at h
      · next hl =>
          split at h
          · cases h
          · next hr => cases h; exact .dialOk hl (by simpa using hr)
      · cases h
  | dialFailed =>
      simp only [Client.loopStep] at h
      split at h
      · next hl => cases h; exact .dialFailed hl
      · cases h
  | slept timer =>
      simp only [Client.loopStep] at h
      split at h
      · next hl => cases h; exact .slept hl
      · next hl =>
          split at h
          · next hr => cases h; exact .sleptStop hl hr
          · cases h
      · cases h
  | publish =>
      simp only [Client.loopStep] at h
      split at h
      · next hl =>
          split at h
          · next hg => cases h; exact .publish hl hg
          · next hg => cases h; exact .publishPanic hl hg
      · cases h
  | readLine line =>
      simp only [Client.loopStep] at h
      split at h
      · next hl => cases h; exact Client.dispatchFrame_move hl line
      · cases h
  | deliver =>
      simp only [Client.loopStep] at h
      split at h
      · next conn k resp hl =>
          split at h
          · next call hc =>
              split at h
              · next hch => cases h; exact .deliver hl hc (by simpa using hch)
              · cases h
          · cases h
      · cases h
  | readEnd =>
      simp only [Client.loopStep] at h
      split at h
      · next hl => cases h; exact .readEnd hl
      · cases h
  | failPending =>
      simp only [Client.loopStep] at h
      split at h
      · next hl => cases h; exact .failPending hl
      · cases h
  | closeConn =>
      simp only [Client.loopStep] at h
      split at h
      · next hl => cases h; exact .closeConn hl
      · cases h
  | clearConn =>
      simp only [Client.loopStep] at h
      split at h
      · next hl => cases h; exact .clearConn hl
      · cases h
  | checkClosed =>
      simp only [Client.loopStep] at h
      split at h
      · next closed hl =>
          cases h
          cases hr : (closed || c.runDone) with
          | true => simpa [hr] using LoopMove.checkClosedStop hl hr
          | false => simpa [hr] using LoopMove.checkClosedGo hl hr
      · cases h
  | rearm =>
      simp only [Client.loopStep] at h
      split at h
      · next hl => cases h; exact .rearm hl
      · cases h
  | shutdownFail =>
      simp only [Client.loopStep] at h
      split at h
      · next hl => cases h; exact .shutdownFail hl
      · cases h
  | shutdownMark =>
      simp only [Client.loopStep] at h
      split at h
      · next hl => cases h; exact .shutdownMark hl
      · cases h

/-! ## Close -/

/-- What a step of `Close` can do. -/
inductive CloseMove (c : Client) : CloseAct → Client → Prop where
  | mark : c.closer = .idle →
      CloseMove c .mark { c with closed := true, closer := .marked c.conn }
  | cancel {conn : Option Nat} : c.closer = .marked conn →
      CloseMove c .cancel { c with runDone := true, closer := .cancelled conn }
  | closeConn {conn : Nat} : c.closer = .cancelled (some conn) →
      CloseMove c .closeConn { c with conns := c.conns.set conn true, closer := .waiting }
  | closeNil : c.closer = .cancelled none → CloseMove c .closeConn { c with closer := .waiting }
  | drained : c.closer = .waiting → c.loop = .exited →
      CloseMove c .drained { c with closer := .returned true }
  | drainTimeout : c.closer = .waiting →
      CloseMove c .drainTimeout { c with closer := .returned false }

theorem Client.closeStep_move {a : CloseAct} (h : c.closeStep a = some c') : CloseMove c a c' := by
  cases a with
  | mark =>
      simp only [Client.closeStep] at h
      split at h
      · next hc => cases h; exact .mark hc
      · cases h
  | cancel =>
      simp only [Client.closeStep] at h
      split at h
      · next hc => cases h; exact .cancel hc
      · cases h
  | closeConn =>
      simp only [Client.closeStep] at h
      split at h
      · next hc => cases h; exact .closeConn hc
      · next hc => cases h; exact .closeNil hc
      · cases h
  | drained =>
      simp only [Client.closeStep] at h
      split at h
      · next hc hl => cases h; exact .drained hc hl
      · cases h
  | drainTimeout =>
      simp only [Client.closeStep] at h
      split at h
      · next hc => cases h; exact .drainTimeout hc
      · cases h

/-! ## Steps -/

/-- What a step of the client can do. -/
inductive ClientMove (cfg : TCPConfig) (c : Client) : ClientLabel → Client → Prop where
  | call {params : SendParams} :
      ClientMove cfg c (.call params) { c with calls := c.calls ++ [Call.new params] }
  | send {k : Nat} {call call' : Call} {a : CallAct} {p : List (String × Nat)} {w : Option Nat} :
      c.calls[k]? = some call → CallMove cfg c k call a call' p w →
      ClientMove cfg c (.send k a)
        { c with calls := c.calls.set k call', pending := p, writeMu := w }
  | loop {a : LoopAct} {c' : Client} : LoopMove c a c' → ClientMove cfg c (.loop a) c'
  | close {a : CloseAct} {c' : Client} : CloseMove c a c' → ClientMove cfg c (.close a) c'
  | consume {e : Event} {rest : List Event} : c.events = e :: rest →
      ClientMove cfg c .consume { c with events := rest, taken := c.taken ++ [e] }

theorem Client.step_move {a : ClientLabel} (h : c.step cfg a = some c') :
    ClientMove cfg c a c' := by
  cases a with
  | call params => cases h; exact .call
  | send k a =>
      obtain ⟨call, hcall, hstep⟩ := Option.bind_eq_some_iff.mp h
      obtain ⟨call', p, w, hmove, rfl⟩ := Client.callStep_move hstep
      exact .send hcall hmove
  | loop a => exact .loop (Client.loopStep_move h)
  | close a => exact .close (Client.closeStep_move h)
  | consume =>
      simp only [Client.step] at h
      split at h
      · next he => cases h; exact .consume he
      · cases h

/-! ## How a call changes -/

/-- The result of a call that has one. -/
def CallPc.result? : CallPc → Option (Except SendError SendResult)
  | .leaving r | .returned r => some r
  | _ => none

theorem TCPConfig.leave_result (cfg : TCPConfig) (r : Except SendError SendResult) :
    (cfg.leave r).result? = some r := by
  unfold TCPConfig.leave
  split <;> rfl

/-- What a step of the client can do to the call at place `k`. -/
inductive CallEvolves (cfg : TCPConfig) (c : Client) (k : Nat) :
    ClientLabel → Call → Call → Prop where
  | idle {a : ClientLabel} {call : Call} : CallEvolves cfg c k a call call
  | moved {a : CallAct} {call call' : Call} {p : List (String × Nat)} {w : Option Nat} :
      CallMove cfg c k call a call' p w → CallEvolves cfg c k (.send k a) call call'
  | delivered {conn : Nat} {resp : RpcResponse} {call : Call} :
      c.loop = .delivering conn k resp → call.ch = none →
      CallEvolves cfg c k (.loop .deliver) call
        { call with ch := some resp, puts := call.puts ++ [resp] }
  | failed {a : LoopAct} {call : Call} : a = .failPending ∨ a = .shutdownFail →
      k ∈ c.pending.map Prod.snd → call.ch = none →
      CallEvolves cfg c k (.loop a) call
        { call with ch := some .closed, puts := call.puts ++ [.closed] }

/-- The calls after `failPending`. -/
theorem Client.of_failPending {a : LoopAct} (ha : a = .failPending ∨ a = .shutdownFail)
    (h : c.failPending.calls[k]? = some call') :
    ∃ call, c.calls[k]? = some call ∧ CallEvolves cfg c k (.loop a) call call' := by
  simp only [Client.failPending, List.getElem?_mapIdx, Option.map_eq_some_iff] at h
  obtain ⟨call, hcall, rfl⟩ := h
  refine ⟨call, hcall, ?_⟩
  unfold Call.fail
  split
  · next hp => exact .failed ha hp.1 (by simpa using hp.2)
  · exact .idle

/-- The calls after a step. -/
theorem ClientMove.of_call {a : ClientLabel} (h : ClientMove cfg c a c')
    (hc' : c'.calls[k]? = some call') :
    (∃ call, c.calls[k]? = some call ∧ CallEvolves cfg c k a call call') ∨
      ∃ params, a = .call params ∧ k = c.calls.length ∧ call' = Call.new params := by
  cases h with
  | call =>
      rcases Places.of_snoc hc' with hold | ⟨hk, rfl⟩
      · exact Or.inl ⟨call', hold, .idle⟩
      · exact Or.inr ⟨_, rfl, hk, rfl⟩
  | @send j call₀ _ a _ _ hcall hmove =>
      rcases Places.of_set hc' with ⟨rfl, rfl⟩ | ⟨_, hold⟩
      · exact Or.inl ⟨call₀, hcall, .moved hmove⟩
      · exact Or.inl ⟨call', hold, .idle⟩
  | loop hmove =>
      cases hmove with
      | deliver hl hcall hch =>
          rcases Places.of_set hc' with ⟨rfl, rfl⟩ | ⟨_, hold⟩
          · exact Or.inl ⟨_, hcall, .delivered hl hch⟩
          · exact Or.inl ⟨call', hold, .idle⟩
      | failPending _ => exact Or.inl (Client.of_failPending (Or.inl rfl) hc')
      | shutdownFail _ => exact Or.inl (Client.of_failPending (Or.inr rfl) hc')
      | _ => exact Or.inl ⟨call', hc', .idle⟩
  | close hmove => cases hmove <;> exact Or.inl ⟨call', hc', .idle⟩
  | consume _ => exact Or.inl ⟨call', hc', .idle⟩

/-- Only a new call changes the number of calls. -/
theorem ClientMove.calls_length {a : ClientLabel} (h : ClientMove cfg c a c')
    (ha : ∀ params, a ≠ .call params) : c'.calls.length = c.calls.length := by
  cases h with
  | call => exact absurd rfl (ha _)
  | send => exact List.length_set
  | loop hm => cases hm <;> simp [Client.failPending]
  | close hm => cases hm <;> rfl
  | consume => rfl

/-- A call stays at its place. -/
theorem ClientMove.call_stays {a : ClientLabel} (h : ClientMove cfg c a c')
    (hcall : c.calls[k]? = some call) :
    ∃ call', c'.calls[k]? = some call' ∧ CallEvolves cfg c k a call call' := by
  have hk : k < c.calls.length := (List.getElem?_eq_some_iff.mp hcall).1
  have hk' : k < c'.calls.length := by
    by_cases ha : ∀ params, a ≠ .call params
    · rw [h.calls_length ha]
      exact hk
    · push Not at ha
      obtain ⟨params, rfl⟩ := ha
      cases h
      simp only [List.length_append]
      omega
  have hcall' := List.getElem?_eq_getElem hk'
  rcases h.of_call hcall' with ⟨call₀, hcall₀, hev⟩ | ⟨_, _, hlen, _⟩
  · rw [hcall] at hcall₀
    cases hcall₀
    exact ⟨_, hcall', hev⟩
  · omega

/-- No step changes the parameters of a call. -/
theorem CallEvolves.params_eq {a : ClientLabel} (h : CallEvolves cfg c k a call call') :
    call'.params = call.params := by
  cases h with
  | moved hm => cases hm <;> rfl
  | _ => rfl

/-- A frame the client has seen comes from a line it has read. -/
theorem ClientMove.of_frame {a : ClientLabel} {f : RpcFrame} (h : ClientMove cfg c a c')
    (hf : f ∈ c'.frames) :
    f ∈ c.frames ∨ ∃ line, a = .loop (.readLine line) ∧ line.frame? = some f := by
  have hsnoc : ∀ {line : Line} {g : RpcFrame}, line.frame? = some g → f ∈ c.frames ++ [g] →
      f ∈ c.frames ∨ ∃ line', ClientLabel.loop (.readLine line) = .loop (.readLine line') ∧
        line'.frame? = some f := by
    intro line g hline hmem
    rcases List.mem_append.mp hmem with hold | hnew
    · exact Or.inl hold
    · obtain rfl := List.mem_singleton.mp hnew
      exact Or.inr ⟨line, rfl, hline⟩
  cases h with
  | loop hm =>
      cases hm with
      | matched _ hline => exact hsnoc hline hf
      | unmatched _ hline => exact hsnoc hline hf
      | ignored _ hline => exact hsnoc hline hf
      | event _ hline => exact hsnoc hline hf
      | eventDropped _ hline => exact hsnoc hline hf
      | _ => exact Or.inl hf
  | close hm => cases hm <;> exact Or.inl hf
  | _ => exact Or.inl hf

end Signalium
