import Signalium.Lib.Replies
import Signalium.Lib.Runs
import Signalium.Signal.Params

/-!
# The TCP client

`TCPClient` of `internal/signal/tcp_client.go` as a state machine.  Its
goroutines are the callers of `Send`, `dialLoop` with the reader inside it, one
call of `Close`, and the consumer of `Events`.  A step is one critical section,
one channel operation, one system call, or one branch of a `select`; between
two steps of a goroutine any of the others can run.

* `pending` maps request ids to the callers, which are named by their place in
  `calls`.  `calls`, `conns` and `gates` only grow: `gates` are the channels
  `dialOnce` has been, with a flag that says whether they are closed, and
  `conns` are the connections dialled, with a flag that says whether the client
  has closed them.
* The labels carry what the environment decides: dial results, the lines the
  daemon sends, the end of a connection, write errors, the ids drawn, contexts
  and timers.
* `frames`, `taken`, `dropped` and `missed`, and the fields `puts` and
  `written` of a call, are histories.  No step reads them.
-/

namespace Signalium

open Replies

/-! ## Results -/

/-- `ctx.Err()`. -/
inductive CtxErr where
  | canceled
  | deadlineExceeded
deriving DecidableEq, Repr

def CtxErr.text : CtxErr → String
  | .canceled => "context canceled"
  | .deadlineExceeded => "context deadline exceeded"

/-- The errors of `Send`. -/
inductive SendError where
  /-- `ErrDisconnected`. -/
  | disconnected
  /-- `ErrShutdown`. -/
  | shutdown
  | waitingForDial (cause : CtxErr)
  | sendCtx (cause : CtxErr)
  | timeout
  /-- The daemon's own error.  Its code and message go to the log only. -/
  | daemon (e : RpcError)
  | tcpWrite (cause : String)
deriving Repr

def SendError.text : SendError → String
  | .disconnected => "signal-cli: tcp disconnected"
  | .shutdown => "signal-cli: client shutting down"
  | .waitingForDial cause => "signal-cli waiting for dial: " ++ cause.text
  | .sendCtx cause => "signal-cli send ctx: " ++ cause.text
  | .timeout => "signal-cli send timeout"
  | .daemon _ => "signal-cli error"
  | .tcpWrite cause => "tcp write: " ++ cause

/-- `rpcResponse`. -/
structure RpcResponse where
  result : Option Json := none
  err : Option RpcError := none
  disconnect : Bool := false
deriving Repr

/-- What `failPending` puts into a channel. -/
def RpcResponse.closed : RpcResponse := { disconnect := true }

/-- What `dispatchFrame` puts into a channel. -/
def RpcFrame.response (f : RpcFrame) : RpcResponse := { result := f.result, err := f.error }

/-- What `sendAwait` makes of the value it receives. -/
def RpcResponse.outcome (r : RpcResponse) : Except SendError SendResult :=
  if r.disconnect then .error .disconnected
  else
    match r.err with
    | some e => .error (.daemon e)
    | none => .ok (SendResult.ofReply r.result)

/-! ## States -/

/-- Where a call of `Send` is. -/
inductive CallPc where
  /-- Before the lock of `waitConnected`. -/
  | start
  /-- In the `select` of `waitConnected`, on the gate it has captured. -/
  | waiting (gate : Nat)
  /-- After `waitConnected`. -/
  | connected
  /-- Before `writeFrame` takes `writeMu`. -/
  | unlocked
  /-- Holding `writeMu`, before the snapshot of `c.conn`. -/
  | locked
  /-- Holding `writeMu`, before `conn.Write`. -/
  | writing (conn : Nat)
  /-- In the `select` of `sendAwait`. -/
  | awaiting
  /-- Before the deferred removal of the entry. -/
  | leaving (r : Except SendError SendResult)
  | returned (r : Except SendError SendResult)

/-- One call of `Send`. -/
structure Call where
  params : SendParams
  /-- The request id, once it has been drawn and registered. -/
  id : Option String
  /-- The value in the response channel, which holds one. -/
  ch : Option RpcResponse
  /-- History: all values put into the channel. -/
  puts : List RpcResponse
  /-- History: the connection the frame was completely written to. -/
  written : Option Nat
  pc : CallPc

/-- A call that has just begun. -/
def Call.new (params : SendParams) : Call :=
  { params, id := none, ch := none, puts := [], written := none, pc := .start }

/-- Where `dialLoop` is. -/
inductive LoopPc where
  /-- Before the test of `runCtx` at the top of the loop. -/
  | top
  | dialing
  | sleeping (d : Int)
  /-- `DialContext` has returned a connection that is not yet in `c.conn`. -/
  | dialed (conn : Nat)
  | reading (conn : Nat)
  /-- In `dispatchFrame`, between the lock and the channel send. -/
  | delivering (conn : Nat) (call : Nat) (resp : RpcResponse)
  /-- `readLoop` has returned; before `failPending`. -/
  | failing (conn : Nat)
  | closing (conn : Nat)
  | clearing (conn : Nat)
  /-- After `c.conn = nil`, with the value of `c.closed` read there. -/
  | cleared (closed : Bool)
  | rearming
  /-- In `markShutdown`, before `failPending`. -/
  | shutdownFail
  | shutdownMark
  | exited
  /-- `close` of a closed channel. -/
  | panicked

/-- Where the call of `Close` is. -/
inductive CloserPc where
  | idle
  /-- After the critical section, with the connection it has seen. -/
  | marked (conn : Option Nat)
  | cancelled (conn : Option Nat)
  | waiting
  | returned (drained : Bool)
deriving DecidableEq, Repr

/-- `TCPClient`, its goroutines, and their histories. -/
structure Client where
  conn : Option Nat
  connGen : Nat
  pending : List (String × Nat)
  closed : Bool
  dialOnce : Nat
  writeMu : Option Nat
  events : List Event
  /-- `runCtx` is done. -/
  runDone : Bool
  gates : List Bool
  conns : List Bool
  calls : List Call
  loop : LoopPc
  backoff : Int
  closer : CloserPc
  frames : List RpcFrame
  taken : List Event
  dropped : List String
  missed : Nat

/-- The constants of `dialLoop`, in nanoseconds. -/
def baseDialBackoff : Int := 500000000

def maxDialBackoff : Int := 30000000000

def nextBackoff (cur max : Int) : Int := if max < cur * 2 then max else cur * 2

/-- The capacity of `events`. -/
def eventsCap : Nat := 64

/-- The client after `NewTCPClient` and `Start`. -/
def Client.init : Client where
  conn := none
  connGen := 0
  pending := []
  closed := false
  dialOnce := 0
  writeMu := none
  events := []
  runDone := false
  gates := [false]
  conns := []
  calls := []
  loop := .top
  backoff := baseDialBackoff
  closer := .idle
  frames := []
  taken := []
  dropped := []
  missed := 0

/-! ## Shared operations -/

/-- Replace the state of one call. -/
def Client.setCall (c : Client) (k : Nat) (call : Call) : Client :=
  { c with calls := c.calls.set k call }

/-- The non-blocking put of `failPending`. -/
def Call.fail (pending : List (String × Nat)) (place : Nat) (call : Call) : Call :=
  if place ∈ pending.map Prod.snd ∧ call.ch.isNone then
    { call with ch := some .closed, puts := call.puts ++ [.closed] }
  else call

/-- `failPending`.  The default branch is taken where a channel is full. -/
def Client.failPending (c : Client) : Client :=
  { c with
    calls := c.calls.mapIdx (Call.fail c.pending)
    pending := []
    missed := c.missed + c.pending.countP fun p => ((c.calls[p.2]?).bind Call.ch).isSome }

/-- The id of a response.  An empty id counts as none. -/
def RpcFrame.replyId? (f : RpcFrame) : Option String := nonEmpty? f.id

/-- `dispatchFrame` up to the channel send, for a line read from `conn`. -/
def Client.dispatchFrame (c : Client) (conn : Nat) (line : Line) : Client :=
  match line.frame? with
  | none => c
  | some f =>
      let c := { c with frames := c.frames ++ [f] }
      match f.replyId? with
      | some id =>
          match lookup c.pending id with
          | some k =>
              { c with pending := erase c.pending id, loop := .delivering conn k f.response }
          | none => c
      | none =>
          if f.method = "" then c
          else if c.events.length < eventsCap then
            { c with events := c.events ++ [{ method := f.method, params := f.params }] }
          else { c with dropped := c.dropped ++ [f.method] }

/-! ## The callers -/

/-- The settings of the client. -/
structure TCPConfig where
  ignoreResults : Bool
deriving DecidableEq, Repr

/-- A step of a call of `Send`. -/
inductive CallAct where
  | snapshot
  | gateOpen
  | waitCtx (e : CtxErr)
  | waitRun
  | register (id : String)
  /-- `fireAndForget` goes straight to `writeFrame`. -/
  | fire
  | lockWrite
  | snapConn
  | write (err : Option String)
  | awaitCtx (e : CtxErr)
  | awaitRun
  | awaitTimer
  | awaitResp
  | unregister
deriving Repr

/-- Where a call goes when `writeFrame` fails: `sendAwait` still has its deferred
removal to do. -/
def TCPConfig.leave (cfg : TCPConfig) (r : Except SendError SendResult) : CallPc :=
  if cfg.ignoreResults then .returned r else .leaving r

/-- One step of the call at place `k`. -/
def Client.callStep (cfg : TCPConfig) (c : Client) (k : Nat) (call : Call) :
    CallAct → Option Client
  | .snapshot =>
      match call.pc with
      | .start =>
          some (c.setCall k { call with
            pc := if c.closed then .returned (.error .shutdown) else .waiting c.dialOnce })
      | _ => none
  | .gateOpen =>
      match call.pc with
      | .waiting gate =>
          if c.gates[gate]? = some true then some (c.setCall k { call with pc := .connected })
          else none
      | _ => none
  | .waitCtx e =>
      match call.pc with
      | .waiting _ => some (c.setCall k { call with pc := .returned (.error (.waitingForDial e)) })
      | _ => none
  | .waitRun =>
      match call.pc with
      | .waiting _ =>
          if c.runDone then some (c.setCall k { call with pc := .returned (.error .shutdown) })
          else none
      | _ => none
  | .register id =>
      match call.pc, cfg.ignoreResults with
      | .connected, false =>
          if c.closed then some (c.setCall k { call with pc := .returned (.error .shutdown) })
          else
            some { c.setCall k { call with id := some id, pc := .unlocked } with
              pending := (id, k) :: erase c.pending id }
      | _, _ => none
  | .fire =>
      match call.pc, cfg.ignoreResults with
      | .connected, true => some (c.setCall k { call with pc := .unlocked })
      | _, _ => none
  | .lockWrite =>
      match call.pc, c.writeMu with
      | .unlocked, none => some { c.setCall k { call with pc := .locked } with writeMu := some k }
      | _, _ => none
  | .snapConn =>
      match call.pc, c.conn with
      | .locked, some conn => some (c.setCall k { call with pc := .writing conn })
      | .locked, none =>
          some { c.setCall k { call with pc := cfg.leave (.error .disconnected) } with
            writeMu := none }
      | _, _ => none
  | .write err =>
      match call.pc, err with
      | .writing conn, none =>
          -- a write to a connection the client has closed fails
          if c.conns[conn]? = some false then
            some { c.setCall k { call with
                written := some conn
                pc := if cfg.ignoreResults then .returned (.ok {}) else .awaiting } with
              writeMu := none }
          else none
      | .writing _, some e =>
          some { c.setCall k { call with pc := cfg.leave (.error (.tcpWrite e)) } with
            writeMu := none }
      | _, _ => none
  | .awaitCtx e =>
      match call.pc with
      | .awaiting => some (c.setCall k { call with pc := .leaving (.error (.sendCtx e)) })
      | _ => none
  | .awaitRun =>
      match call.pc with
      | .awaiting =>
          if c.runDone then some (c.setCall k { call with pc := .leaving (.error .shutdown) })
          else none
      | _ => none
  | .awaitTimer =>
      match call.pc with
      | .awaiting => some (c.setCall k { call with pc := .leaving (.error .timeout) })
      | _ => none
  | .awaitResp =>
      match call.pc, call.ch with
      | .awaiting, some resp =>
          some (c.setCall k { call with ch := none, pc := .leaving resp.outcome })
      | _, _ => none
  | .unregister =>
      match call.pc with
      | .leaving r =>
          some { c.setCall k { call with pc := .returned r } with
            pending := (call.id.map (erase c.pending)).getD c.pending }
      | _ => none

/-! ## The dial loop and its reader -/

/-- A step of `dialLoop`. -/
inductive LoopAct where
  | check
  | dialOk
  | dialFailed
  | slept (timer : Bool)
  | publish
  | readLine (line : Line)
  | deliver
  | readEnd
  | failPending
  | closeConn
  | clearConn
  | checkClosed
  | rearm
  | shutdownFail
  | shutdownMark
deriving Repr

/-- One step of `dialLoop`. -/
def Client.loopStep (c : Client) : LoopAct → Option Client
  | .check =>
      match c.loop with
      | .top => some { c with loop := if c.runDone then .shutdownFail else .dialing }
      | _ => none
  | .dialOk =>
      match c.loop with
      | .dialing =>
          -- `DialContext` returns an error once its context is done
          if c.runDone then none
          else some { c with conns := c.conns ++ [false], loop := .dialed c.conns.length }
      | _ => none
  | .dialFailed =>
      match c.loop with
      | .dialing => some { c with loop := .sleeping c.backoff }
      | _ => none
  | .slept timer =>
      match c.loop, timer with
      | .sleeping _, true =>
          some { c with backoff := nextBackoff c.backoff maxDialBackoff, loop := .top }
      | .sleeping _, false => if c.runDone then some { c with loop := .shutdownFail } else none
      | _, _ => none
  | .publish =>
      match c.loop with
      | .dialed conn =>
          if c.gates[c.dialOnce]? = some false then
            some { c with
              conn := some conn
              connGen := c.connGen + 1
              gates := c.gates.set c.dialOnce true
              backoff := baseDialBackoff
              loop := .reading conn }
          else some { c with conn := some conn, connGen := c.connGen + 1, loop := .panicked }
      | _ => none
  | .readLine line =>
      match c.loop with
      | .reading conn => some (c.dispatchFrame conn line)
      | _ => none
  | .deliver =>
      match c.loop with
      | .delivering conn k resp =>
          match c.calls[k]? with
          | some call =>
              -- the channel send blocks while the channel is full
              if call.ch.isNone then
                some { c.setCall k { call with
                    ch := some resp
                    puts := call.puts ++ [resp] } with
                  loop := .reading conn }
              else none
          | none => none
      | _ => none
  | .readEnd =>
      match c.loop with
      | .reading conn => some { c with loop := .failing conn }
      | _ => none
  | .failPending =>
      match c.loop with
      | .failing conn => some { c.failPending with loop := .closing conn }
      | _ => none
  | .closeConn =>
      match c.loop with
      | .closing conn => some { c with conns := c.conns.set conn true, loop := .clearing conn }
      | _ => none
  | .clearConn =>
      match c.loop with
      | .clearing _ => some { c with conn := none, loop := .cleared c.closed }
      | _ => none
  | .checkClosed =>
      match c.loop with
      | .cleared closed =>
          some { c with loop := if closed || c.runDone then .shutdownFail else .rearming }
      | _ => none
  | .rearm =>
      match c.loop with
      | .rearming =>
          some { c with gates := c.gates ++ [false], dialOnce := c.gates.length, loop := .top }
      | _ => none
  | .shutdownFail =>
      match c.loop with
      | .shutdownFail => some { c.failPending with loop := .shutdownMark }
      | _ => none
  | .shutdownMark =>
      match c.loop with
      | .shutdownMark =>
          some { c with closed := true, gates := c.gates.set c.dialOnce true, loop := .exited }
      | _ => none

/-! ## Close and the consumer -/

/-- A step of `Close`. -/
inductive CloseAct where
  | mark
  | cancel
  | closeConn
  | drained
  | drainTimeout
deriving Repr

/-- One step of `Close`. -/
def Client.closeStep (c : Client) : CloseAct → Option Client
  | .mark =>
      match c.closer with
      | .idle => some { c with closed := true, closer := .marked c.conn }
      | _ => none
  | .cancel =>
      match c.closer with
      | .marked conn => some { c with runDone := true, closer := .cancelled conn }
      | _ => none
  | .closeConn =>
      match c.closer with
      | .cancelled (some conn) =>
          some { c with conns := c.conns.set conn true, closer := .waiting }
      | .cancelled none => some { c with closer := .waiting }
      | _ => none
  | .drained =>
      match c.closer, c.loop with
      | .waiting, .exited => some { c with closer := .returned true }
      | _, _ => none
  | .drainTimeout =>
      match c.closer with
      | .waiting => some { c with closer := .returned false }
      | _ => none

/-- A step of the client. -/
inductive ClientLabel where
  /-- A new call of `Send`. -/
  | call (params : SendParams)
  | send (k : Nat) (a : CallAct)
  | loop (a : LoopAct)
  | close (a : CloseAct)
  /-- The consumer of `Events` receives. -/
  | consume
deriving Repr

/-- One step of the client. -/
def Client.step (cfg : TCPConfig) (c : Client) : ClientLabel → Option Client
  | .call params => some { c with calls := c.calls ++ [Call.new params] }
  | .send k a => c.calls[k]?.bind fun call => c.callStep cfg k call a
  | .loop a => c.loopStep a
  | .close a => c.closeStep a
  | .consume =>
      match c.events with
      | e :: rest => some { c with events := rest, taken := c.taken ++ [e] }
      | [] => none

end Signalium
