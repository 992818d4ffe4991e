import Signalium.Lib.Runs
import Signalium.Repo.Transitions
import Signalium.Signal.Params

/-!
# The workers over the table

`Worker.tick` claims a row and `Worker.dispatch` drives it: download the
attachments, build the parameters, call `Send`, then mark the row.  A
`Dispatch` is one call of `dispatch`, with the message `ClaimPending` returned,
its context `sendCtx`, and how far it has come.

The context is the one thing the calls of a dispatch share.  Its deadline is
set when `dispatch` starts, some time after the claim committed, and a database
call made when it has passed, or when the worker has been stopped, fails
without reaching the database.

`Outbox` is the system: one clock, the table, and the dispatches of all workers
in all processes, in the order of their claims.  A label executes at most one
statement (`Outbox.stmt?`), so the table moves by `Stmt.run` and everything
known about statements applies.  The labels carry the choices of the
environment: the rows other transactions hold, what a download or `Send`
returns, whether a call reaches the database and whether its answer arrives,
how much time passes.
-/

namespace Signalium

open Runs Tables

/-! ## One dispatch -/

/-- The settings a dispatch reads. -/
structure WorkerConfig where
  leaseDuration : Int
  perAttemptTimeout : Int
  baseBackoff : Int
  maxBackoff : Int
  account : String
deriving DecidableEq, Repr

/-- The settings of `var/conf/install.yml`: a lease of five minutes and a minute
for an attempt. -/
def defaultConfig : WorkerConfig where
  leaseDuration := 300000000000
  perAttemptTimeout := 60000000000
  baseBackoff := 5000000000
  maxBackoff := 3600000000000
  account := "+380000000000"

/-- `Backoff`.  The argument `jitter` is the draw, a random fraction of
`base * 2^(attempts-1)`. -/
def backoff (attempts max jitter : Int) : Int :=
  if attempts ≤ 0 then 0 else if max < jitter then max else jitter

/-- The range of the draw of `Backoff`. -/
def IsJitter (attempts base jitter : Int) : Prop :=
  let raw := base * 2 ^ (attempts - 1).toNat
  min 0 raw ≤ jitter ∧ jitter ≤ max 0 raw

instance (attempts base jitter : Int) : Decidable (IsJitter attempts base jitter) :=
  inferInstanceAs (Decidable (_ ∧ _))

/-- The configured backoffs are not negative. -/
structure WorkerConfig.NonnegBackoffs (cfg : WorkerConfig) : Prop where
  base : 0 ≤ cfg.baseBackoff
  max : 0 ≤ cfg.maxBackoff

instance (cfg : WorkerConfig) : Decidable cfg.NonnegBackoffs :=
  decidable_of_iff (0 ≤ cfg.baseBackoff ∧ 0 ≤ cfg.maxBackoff)
    ⟨fun h => ⟨h.1, h.2⟩, fun h => ⟨h.1, h.2⟩⟩

/-- Then every pause is not negative. -/
theorem WorkerConfig.NonnegBackoffs.backoff_nonneg {cfg : WorkerConfig}
    (hcfg : cfg.NonnegBackoffs) {attempts jitter : Int}
    (h : IsJitter attempts cfg.baseBackoff jitter) :
    0 ≤ backoff attempts cfg.maxBackoff jitter := by
  have hbase := hcfg.base
  have hmax := hcfg.max
  have hraw : 0 ≤ cfg.baseBackoff * 2 ^ (attempts - 1).toNat := by positivity
  have hjitter : 0 ≤ jitter := by
    have := h.1
    omega
  unfold backoff
  split_ifs <;> omega

/-- How `dispatch` returned. -/
inductive Outcome where
  | sent
  | markSentFailed
  | failed (permanent : Bool)
  | markFailedFailed
deriving DecidableEq, Repr

/-- How far a dispatch has come. -/
inductive Phase where
  /-- `ClaimPending` has committed, `dispatch` has not started. -/
  | claimed
  | downloading
  | ready (params : SendParams)
  | sending (params : SendParams)
  /-- Before the `MarkSent` call number `i` of the retry loop. -/
  | marking (res : SendResult) (i : Nat)
  /-- In the pause after the failed call number `i`. -/
  | sleeping (res : SendResult) (i : Nat) (wakeAt : Int)
  /-- In `fail`, before `MarkFailed`. -/
  | failing (cause : String)
  | done (o : Outcome)
  | crashed
deriving Repr

/-- One call of `dispatch`. -/
structure Dispatch where
  /-- The row as `ClaimPending` returned it. -/
  msg : SignalMessage
  /-- The deadline of `sendCtx`, once it exists. -/
  deadline : Option Int
  /-- The worker's context has been cancelled. -/
  cancelled : Bool
  phase : Phase
  /-- History: the row has seen an operator's call since the claim. -/
  touched : Bool
deriving Repr

/-- `sendCtx.Err() == nil`. -/
def Dispatch.Live (now : Int) (d : Dispatch) : Prop :=
  d.cancelled = false ∧ ∃ t ∈ d.deadline, now < t

instance (now : Int) (d : Dispatch) : Decidable (d.Live now) :=
  inferInstanceAs (Decidable (_ ∧ _))

/-- A call under a context that is done does not reach the database. -/
def Dispatch.reply (now : Int) (d : Dispatch) (r : DbReply) : DbReply :=
  if d.Live now then r else .unreached

/-- What a dispatch can do, or have done to it. -/
inductive Act where
  | start
  | downloaded (r : Except String (List String))
  | send
  | sendReturned (r : Except String SendResult)
  | markSent (r : DbReply)
  /-- `sleepCtx` returns, because of its timer or because of the context. -/
  | wake (timer : Bool)
  | markFailed (jitter : Int) (r : DbReply)
  /-- The process dies. -/
  | crash
  /-- The worker is stopped. -/
  | cancel
deriving Repr

/-- The phase after a `MarkSent` call of `markSent`: three calls, with pauses of
50 ms and 100 ms between them. -/
def Dispatch.afterMarkSent (now : Int) (d : Dispatch) (res : SendResult) (i : Nat) (r : DbReply) :
    Phase :=
  if d.reply now r = .committed then .done .sent
  else if d.Live now ∧ i < 2 then .sleeping res i (now + (i + 1) * 50000000)
  else .done .markSentFailed

/-- The phase after the `MarkFailed` call of `fail`.  The comparison of the
attempts is the one on the claimed message. -/
def Dispatch.afterMarkFailed (now : Int) (d : Dispatch) (r : DbReply) : Phase :=
  if d.reply now r = .committed then .done (.failed (d.msg.maxAttempts ≤ d.msg.attempts))
  else .done .markFailedFailed

/-- One step of a dispatch. -/
def Dispatch.act (cfg : WorkerConfig) (now : Int) (d : Dispatch) : Act → Option Dispatch
  | .start =>
      match d.phase with
      | .claimed =>
          some { d with phase := .downloading, deadline := some (now + cfg.perAttemptTimeout) }
      | _ => none
  | .downloaded r =>
      match d.phase, r with
      | .downloading, .error e => some { d with phase := .failing ("download attachments: " ++ e) }
      | .downloading, .ok paths =>
          match buildSendParams cfg.account d.msg paths with
          | .error e => some { d with phase := .failing e.text }
          | .ok params => some { d with phase := .ready params }
      | _, _ => none
  | .send =>
      match d.phase with
      | .ready params => some { d with phase := .sending params }
      | _ => none
  | .sendReturned r =>
      match d.phase, r with
      | .sending _, .error e => some { d with phase := .failing e }
      | .sending _, .ok res => some { d with phase := .marking res 0 }
      | _, _ => none
  | .markSent r =>
      match d.phase with
      | .marking res i => some { d with phase := d.afterMarkSent now res i r }
      | _ => none
  | .wake timer =>
      match d.phase, timer with
      | .sleeping res i wakeAt, true =>
          if wakeAt ≤ now then some { d with phase := .marking res (i + 1) } else none
      | .sleeping _ _ _, false =>
          if d.Live now then none else some { d with phase := .done .markSentFailed }
      | _, _ => none
  | .markFailed jitter r =>
      match d.phase with
      | .failing _ =>
          if IsJitter d.msg.attempts cfg.baseBackoff jitter then
            some { d with phase := d.afterMarkFailed now r }
          else none
      | _ => none
  | .crash =>
      match d.phase with
      | .done _ | .crashed => none
      | _ => some { d with phase := .crashed }
  | .cancel => some { d with cancelled := true }

/-- The statement a step of a dispatch executes. -/
def Dispatch.stmt? (cfg : WorkerConfig) (now : Int) (d : Dispatch) : Act → Option Stmt
  | .markSent r =>
      match d.phase with
      | .marking res _ =>
          if d.reply now r = .unreached then none else some (.markSent d.msg.id res.resultID)
      | _ => none
  | .markFailed jitter r =>
      match d.phase with
      | .failing cause =>
          if d.reply now r = .unreached then none
          else some (.markFailed d.msg.id cause
            (now + backoff d.msg.attempts cfg.maxBackoff jitter))
      | _ => none
  | _ => none

/-- The dispatch a claim starts. -/
def Dispatch.new (row : Row) : Dispatch :=
  { msg := rowToDomain row, deadline := none, cancelled := false, phase := .claimed,
    touched := false }

/-- An operator's call on the row `id`. -/
def Dispatch.touch (id : UUID) (d : Dispatch) : Dispatch :=
  if d.msg.id = id then { d with touched := true } else d

/-! ## The system -/

/-- The clock, the table and the dispatches of all workers. -/
structure Outbox where
  now : Int
  table : Messages
  dispatches : List Dispatch

/-- A step of the system. -/
inductive Label where
  | advance (dt : Nat)
  | insert (id : UUID) (p : InsertParams)
  | claim (locked : List UUID) (r : DbReply)
  | dispatch (i : Nat) (a : Act)
  | reap
  | resend (id : UUID)
  | updateStatus (id : UUID) (status : SignalMessageStatus)
deriving Repr

/-- The table with no rows, and no worker at work. -/
def Outbox.init : Outbox := ⟨0, Messages.empty, []⟩

/-- The time a step takes. -/
def Label.elapsed : Label → Int
  | .advance dt => dt
  | _ => 0

/-- The row an operator's call is about. -/
def Label.operates? : Label → Option UUID
  | .resend id | .updateStatus id _ => some id
  | _ => none

/-- The statement a step executes. -/
def Outbox.stmt? (cfg : WorkerConfig) (s : Outbox) : Label → Option Stmt
  | .advance _ => none
  | .insert id p => some (.insert id p)
  | .claim locked r =>
      if r = .unreached then none else some (.claimPending cfg.leaseDuration locked)
  | .dispatch i a => s.dispatches[i]?.bind fun d => d.stmt? cfg s.now a
  | .reap => some .markTimedOut
  | .resend id => some (.resend id)
  | .updateStatus id status => some (.updateStatus id status)

/-- The dispatches after a step.  A claim starts one if it returns a row. -/
def Outbox.dispatches? (cfg : WorkerConfig) (s : Outbox) : Label → Option (List Dispatch)
  | .claim locked r =>
      match s.table.claimPending s.now cfg.leaseDuration locked, r with
      | some (row, _), .committed => some (s.dispatches ++ [Dispatch.new row])
      | _, _ => some s.dispatches
  | .dispatch i a =>
      s.dispatches[i]?.bind fun d => (d.act cfg s.now a).map (s.dispatches.set i)
  | .resend id | .updateStatus id _ => some (s.dispatches.map (Dispatch.touch id))
  | .advance _ | .insert _ _ | .reap => some s.dispatches

/-- One step of the system. -/
def Outbox.step (cfg : WorkerConfig) (s : Outbox) (a : Label) : Option Outbox :=
  (s.dispatches? cfg a).map fun ds =>
    { now := s.now + a.elapsed
      table := (s.stmt? cfg a).elim s.table (Stmt.run s.now s.table)
      dispatches := ds }

end Signalium
