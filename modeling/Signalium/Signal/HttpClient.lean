import Signalium.Handler.Errors
import Signalium.Signal.Client

/-!
# The HTTP client

`callWithRetry` of `internal/signal/http_client.go`.  A call that fails, whose body
breaks off or whose status is 500 or above is made again, after a wait that doubles
from 200 ms up to 5 s.  Any other answer ends the loop.

What happens around the loop is a `Course`: what each call comes to and how long it
takes, when the context ends, how late the goroutine runs again when a channel of
its `select` is ready, and which channel it takes when both are.  A call whose
context has ended before it fails.  The loop is a function of the course, so it
returns; `LoopRun` says how, and the rest is by induction on it.

A context that ends in a call ends the loop in the wait after it, if the call is one
to make again.  So the daemon is reported as unavailable when every call was to be
made again, or when the context had ended by the end of a wait, in it or before it.
-/

namespace Signalium

/-! ## Outcomes -/

/-- What a call and the reading of its body come to. -/
inductive HttpOutcome (β : Type) where
  /-- `do` returned an error. -/
  | failed (err : GoError)
  /-- The body broke off. -/
  | unread (status : Nat)
  | answered (status : Nat) (body : β)
deriving DecidableEq, Repr

section Outcomes

variable {β ρ : Type}

/-- What the body of the loop returns, if it returns. -/
def HttpOutcome.settle (decode : β → Except String ρ) : HttpOutcome β → Option (Except GoError ρ)
  | .failed _ => none
  | .unread _ => none
  | .answered status body =>
      if status < 500 then
        if 400 ≤ status then some (.error (.text "signal-cli http error"))
        else
          match decode body with
          | .error jerr => some (.error (.wrap "decode jsonrpc response" (.text jerr)))
          | .ok r => some (.ok r)
      else none

/-- `lastErr` where the body of the loop does not return. -/
def HttpOutcome.lastErr : HttpOutcome β → GoError
  | .failed err => err
  | .unread _ => .text "signal-cli 5xx"
  | .answered _ _ => .text "signal-cli 5xx"

/-- A transport error, an error of the read, or a status of 500 or above. -/
def HttpOutcome.Retryable : HttpOutcome β → Prop
  | .failed _ => True
  | .unread _ => True
  | .answered status _ => 500 ≤ status

/-- A status below 400 and a body that is decoded. -/
def HttpOutcome.Decoded (decode : β → Except String ρ) (r : ρ) : HttpOutcome β → Prop
  | .failed _ => False
  | .unread _ => False
  | .answered status body => status < 400 ∧ decode body = .ok r

variable {decode : β → Except String ρ} {o : HttpOutcome β}

theorem HttpOutcome.settle_eq_none : o.settle decode = none ↔ o.Retryable := by
  cases o with
  | failed err => exact ⟨fun _ => trivial, fun _ => rfl⟩
  | unread status => exact ⟨fun _ => trivial, fun _ => rfl⟩
  | answered status body =>
      simp only [HttpOutcome.settle, HttpOutcome.Retryable]
      split_ifs with hlow hhigh
      · simp [hlow]
      · cases decode body <;> simp [hlow]
      · simpa using hlow

theorem HttpOutcome.Retryable.settle_ne (h : o.Retryable) {res : Except GoError ρ} :
    o.settle decode ≠ some res := by
  rw [HttpOutcome.settle_eq_none.mpr h]
  intro hres
  cases hres

theorem HttpOutcome.settle_eq_ok {r : ρ} :
    o.settle decode = some (.ok r) ↔ o.Decoded decode r := by
  cases o with
  | failed err => exact iff_of_false (fun h => by cases h) id
  | unread status => exact iff_of_false (fun h => by cases h) id
  | answered status body =>
      simp only [HttpOutcome.settle, HttpOutcome.Decoded]
      split_ifs with hlow hhigh
      · simp [hhigh]
      · cases decode body <;> simp [Nat.not_le.mp hhigh]
      · simp only [false_iff]
        omega

/-- The errors of an answer that ends the loop. -/
theorem HttpOutcome.settle_eq_error {e : GoError} (h : o.settle decode = some (.error e)) :
    e = .text "signal-cli http error" ∨
      ∃ jerr, e = .wrap "decode jsonrpc response" (.text jerr) := by
  cases o with
  | failed err => cases h
  | unread status => cases h
  | answered status body =>
      simp only [HttpOutcome.settle] at h
      split_ifs at h with hlow hhigh
      · cases h
        exact Or.inl rfl
      · cases hd : decode body with
        | error jerr =>
            rw [hd] at h
            cases h
            exact Or.inr ⟨jerr, rfl⟩
        | ok r =>
            rw [hd] at h
            cases h

/-- Such an error has no code of its own. -/
theorem HttpOutcome.plain_of_settle {e : GoError} (h : o.settle decode = some (.error e)) :
    e.conjure? = none := by
  rcases HttpOutcome.settle_eq_error h with rfl | ⟨jerr, rfl⟩
  · rfl
  · rfl

end Outcomes

/-! ## The course of a call -/

/-- What happens around a `callWithRetry`.  Instants and durations are in nanoseconds. -/
structure Course (β : Type) where
  start : Int
  /-- When the context ends. -/
  ends : Option Int
  /-- The text of `ctx.Err()` by then. -/
  ctxErr : String
  /-- What the call of each attempt comes to, unless its context has ended before. -/
  outcome : Nat → HttpOutcome β
  took : Nat → Nat
  /-- How late each `select` wakes. -/
  late : Nat → Nat
  /-- The `select` takes `ctx.Done()` when the timer has fired too. -/
  pick : Nat → Bool

/-- A call that was made. -/
structure HttpCall (β : Type) where
  start : Int
  stop : Int
  outcome : HttpOutcome β
deriving DecidableEq, Repr

/-- A wait between two calls. -/
structure RetryWait where
  start : Int
  backoff : Int
  stop : Int
  /-- It was `ctx.Done()` that ended it. -/
  cut : Bool
deriving DecidableEq, Repr

section Courses

variable {β : Type} (c : Course β)

/-- The context has ended by an instant. -/
def Course.EndedBy (t : Int) : Prop := ∃ e ∈ c.ends, e ≤ t

instance (t : Int) : Decidable (c.EndedBy t) := inferInstanceAs (Decidable (∃ e ∈ c.ends, _))

/-- `do` and `io.ReadAll`. -/
def Course.call (attempt : Nat) (now : Int) : HttpCall β where
  start := now
  stop := now + c.took attempt
  outcome :=
    if c.EndedBy now then .failed (.wrap "signal-cli http call" (.text c.ctxErr))
    else c.outcome attempt

/-- When the first of the two channels is ready. -/
def Course.ready (now backoff : Int) : Int :=
  match c.ends with
  | none => now + backoff
  | some e => max now (min e (now + backoff))

/-- The `select`. -/
def Course.wait (attempt : Nat) (now backoff : Int) : RetryWait :=
  let stop := c.ready now backoff + c.late attempt
  { start := now
    backoff := backoff
    stop := stop
    cut := c.EndedBy stop && (stop < now + backoff || c.pick attempt) }

variable {c} {attempt : Nat} {now backoff t : Int}

theorem Course.EndedBy.mono (h : c.EndedBy now) (hle : now ≤ t) : c.EndedBy t := by
  obtain ⟨e, he, hnow⟩ := h
  exact ⟨e, he, hnow.trans hle⟩

theorem Course.call_of_ended (h : c.EndedBy now) : (c.call attempt now).outcome.Retryable := by
  rw [Course.call, if_pos h]
  trivial

theorem Course.call_start_le : now ≤ (c.call attempt now).stop :=
  le_add_of_nonneg_right (Int.natCast_nonneg _)

theorem Course.wait_start_le (h : 0 ≤ backoff) : now ≤ (c.wait attempt now backoff).stop := by
  have hready : now ≤ c.ready now backoff := by
    unfold Course.ready
    split
    · exact le_add_of_nonneg_right h
    · exact le_max_left _ _
  exact hready.trans (le_add_of_nonneg_right (Int.natCast_nonneg _))

theorem Course.ended_of_cut (h : (c.wait attempt now backoff).cut = true) :
    c.EndedBy (c.wait attempt now backoff).stop := by
  simp only [Course.wait, Bool.and_eq_true, decide_eq_true_eq] at h
  exact h.1

/-- Only the context cuts a wait short. -/
theorem Course.wait_full (h : (c.wait attempt now backoff).cut = false) :
    now + backoff ≤ (c.wait attempt now backoff).stop := by
  by_contra hlt
  have hlt : (c.wait attempt now backoff).stop < now + backoff := not_le.mp hlt
  -- The timer has not fired, so it is the context that was ready.
  have hended : c.EndedBy (c.wait attempt now backoff).stop := by
    have hlate : (0 : Int) ≤ c.late attempt := Int.natCast_nonneg _
    simp only [Course.wait, Course.ready] at hlt ⊢
    cases he : c.ends with
    | none =>
        rw [he] at hlt
        simp only at hlt
        omega
    | some e =>
        rw [he] at hlt
        simp only at hlt
        exact ⟨e, he, by simp only; omega⟩
  simp only [Course.wait] at h hlt hended
  simp [hlt, hended] at h

end Courses

/-! ## The loop -/

/-- `config.SignalCliHTTP`, as far as the loop reads it. -/
structure HttpConfig where
  host : String
  port : Int
  maxRetries : Int
deriving DecidableEq, Repr

/-- `maxRetries` after its default. -/
def HttpConfig.retries (cfg : HttpConfig) : Nat :=
  if cfg.maxRetries ≤ 0 then 3 else cfg.maxRetries.toNat

/-- `WrapWithSignalCliUnavailable` around a cause. -/
def HttpConfig.unavailable (cfg : HttpConfig) (msg : String) (cause : GoError) : GoError :=
  .conjure (.signalCliUnavailable cfg.host cfg.port) (.wrap msg cause)

def baseHttpBackoff : Int := 200000000

def maxHttpBackoff : Int := 5000000000

/-- The calls and waits of a `callWithRetry`, and what it returns. -/
structure CallHistory (β ρ : Type) where
  calls : List (HttpCall β)
  waits : List RetryWait
  result : Except GoError ρ

section Loop

variable {β ρ : Type}

/-- A call and a wait, and what follows them. -/
def CallHistory.after (call : HttpCall β) (w : RetryWait) (run : CallHistory β ρ) :
    CallHistory β ρ :=
  ⟨call :: run.calls, w :: run.waits, run.result⟩

/-- The body of the loop up to its returns; `go` is what it does without one. -/
def HttpCall.settleOr (decode : β → Except String ρ) (call : HttpCall β)
    (go : CallHistory β ρ) : CallHistory β ρ :=
  match call.outcome.settle decode with
  | some res => ⟨[call], [], res⟩
  | none => go

/-- The loop from an attempt on; the number is `maxRetries - attempt`. -/
def retryLoop (cfg : HttpConfig) (decode : β → Except String ρ) (c : Course β) :
    Nat → Nat → Int → Int → CallHistory β ρ
  | 0, attempt, _, now =>
      let call := c.call attempt now
      -- `attempt == maxRetries`
      call.settleOr decode
        ⟨[call], [], .error (cfg.unavailable "signal-cli http unreachable" call.outcome.lastErr)⟩
  | left + 1, attempt, backoff, now =>
      let call := c.call attempt now
      let w := c.wait attempt call.stop backoff
      call.settleOr decode <|
        if w.cut then
          ⟨[call], [w], .error (cfg.unavailable "signal-cli http ctx" (.text c.ctxErr))⟩
        else
          (retryLoop cfg decode c left (attempt + 1) (nextBackoff backoff maxHttpBackoff)
            w.stop).after call w

/-- `callWithRetry`. -/
def callWithRetry (cfg : HttpConfig) (decode : β → Except String ρ) (c : Course β) :
    CallHistory β ρ :=
  retryLoop cfg decode c cfg.retries 0 baseHttpBackoff c.start

/-- The ways through the loop. -/
inductive LoopRun (cfg : HttpConfig) (decode : β → Except String ρ) (c : Course β) :
    Nat → Nat → Int → Int → CallHistory β ρ → Prop where
  | settled {left attempt : Nat} {backoff now : Int} {res : Except GoError ρ} :
      (c.call attempt now).outcome.settle decode = some res →
      LoopRun cfg decode c left attempt backoff now ⟨[c.call attempt now], [], res⟩
  | exhausted {attempt : Nat} {backoff now : Int} :
      (c.call attempt now).outcome.Retryable →
      LoopRun cfg decode c 0 attempt backoff now
        ⟨[c.call attempt now], [], .error (cfg.unavailable "signal-cli http unreachable"
          (c.call attempt now).outcome.lastErr)⟩
  | cut {left attempt : Nat} {backoff now : Int} :
      (c.call attempt now).outcome.Retryable →
      (c.wait attempt (c.call attempt now).stop backoff).cut = true →
      LoopRun cfg decode c (left + 1) attempt backoff now
        ⟨[c.call attempt now], [c.wait attempt (c.call attempt now).stop backoff],
          .error (cfg.unavailable "signal-cli http ctx" (.text c.ctxErr))⟩
  | again {left attempt : Nat} {backoff now : Int} {run : CallHistory β ρ} :
      (c.call attempt now).outcome.Retryable →
      (c.wait attempt (c.call attempt now).stop backoff).cut = false →
      LoopRun cfg decode c left (attempt + 1) (nextBackoff backoff maxHttpBackoff)
        (c.wait attempt (c.call attempt now).stop backoff).stop run →
      LoopRun cfg decode c (left + 1) attempt backoff now
        (run.after (c.call attempt now) (c.wait attempt (c.call attempt now).stop backoff))

theorem retryLoop_run (cfg : HttpConfig) (decode : β → Except String ρ) (c : Course β)
    (left attempt : Nat) (backoff now : Int) :
    LoopRun cfg decode c left attempt backoff now
      (retryLoop cfg decode c left attempt backoff now) := by
  induction left generalizing attempt backoff now with
  | zero =>
      rw [retryLoop, HttpCall.settleOr]
      cases hres : (c.call attempt now).outcome.settle decode with
      | some res => exact .settled hres
      | none => exact .exhausted (HttpOutcome.settle_eq_none.mp hres)
  | succ left ih =>
      rw [retryLoop, HttpCall.settleOr]
      cases hres : (c.call attempt now).outcome.settle decode with
      | some res => exact .settled hres
      | none =>
          have hretry := HttpOutcome.settle_eq_none.mp hres
          cases hcut : (c.wait attempt (c.call attempt now).stop backoff).cut with
          | true =>
              simp only [if_true]
              exact .cut hretry hcut
          | false =>
              simp only [Bool.false_eq_true, if_false]
              exact .again hretry hcut (ih _ _ _)

end Loop

/-! ## Groups -/

/-- `groupMember`. -/
structure GroupMember where
  number : Option String
  uuid : String
deriving DecidableEq, Repr

/-- `listedGroup`. -/
structure ListedGroup where
  id : String
  name : String
  description : String
  members : List GroupMember
deriving DecidableEq, Repr

/-- `jsonRPCError`. -/
structure JsonRPCError where
  code : Int
  message : String
deriving DecidableEq, Repr

/-- `listGroupsResponse`. -/
structure ListGroupsResponse where
  result : List ListedGroup
  error : Option JsonRPCError
deriving DecidableEq, Repr

/-- `signalapi.SignalGroupInfo`. -/
structure SignalGroupInfo where
  id : String
  name : String
  description : Option String
  members : Option (List String)
deriving DecidableEq, Repr

/-- How a member is shown: by its number, else by its uuid. -/
def GroupMember.shown (m : GroupMember) : Option String :=
  match m.number with
  | some number =>
      if number ≠ "" then some number else if m.uuid ≠ "" then some m.uuid else none
  | none => if m.uuid ≠ "" then some m.uuid else none

/-- `mapListedGroup`. -/
def mapListedGroup (g : ListedGroup) : SignalGroupInfo where
  id := g.id
  name := g.name
  description := if g.description ≠ "" then some g.description else none
  members := if 0 < g.members.length then some (g.members.filterMap GroupMember.shown) else none

/-- `ListGroups`. -/
def listGroups {β : Type} (cfg : HttpConfig) (decode : β → Except String ListGroupsResponse)
    (c : Course β) : Except GoError (List SignalGroupInfo) :=
  match (callWithRetry cfg decode c).result with
  | .error e => .error e
  | .ok resp =>
      match resp.error with
      | some _ => .error (.text "signal-cli listGroups error")
      | none => .ok (resp.result.map mapListedGroup)

end Signalium
