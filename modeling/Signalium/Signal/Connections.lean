import Signalium.Signal.Moves

/-!
# Connections and gates

What holds of `c.conn`, `c.closed`, the connections and the gates in every
reachable state (`ConnInv`), whatever the callers and the daemon do.  Between
them, `dialLoop` and `Close` are the only ones that close a connection, and
`dialLoop` the only one that publishes one.  Every dial finds its gate armed, so
`close(c.dialOnce)` never meets a closed channel.
-/

namespace Signalium

open Runs

variable {cfg : TCPConfig} {c c' : Client} {k n : Nat} {call call' : Call}

/-- The connection `dialLoop` has published. -/
def LoopPc.conn? : LoopPc → Option Nat
  | .reading n | .delivering n _ _ | .failing n | .closing n | .clearing n => some n
  | _ => none

/-- The connection `dialLoop` has in its hands. -/
def LoopPc.newest? : LoopPc → Option Nat
  | .dialed n => some n
  | l => l.conn?

/-- The connection `readLoop` runs on. -/
def LoopPc.reads? : LoopPc → Option Nat
  | .reading n | .delivering n _ _ => some n
  | _ => none

/-- `dialLoop` is on its way to the next connection. -/
def LoopPc.dials : LoopPc → Bool
  | .top | .dialing | .sleeping _ | .dialed _ => true
  | _ => false

/-- The connection `Close` has seen and not yet closed. -/
def CloserPc.conn? : CloserPc → Option Nat
  | .marked conn | .cancelled conn => conn
  | _ => none

/-- `Close` has executed its steps up to `conn.Close()`. -/
def CloserPc.closedConn : CloserPc → Bool
  | .waiting | .returned _ => true
  | _ => false

/-- The invariant of the connections. -/
structure ConnInv (c : Client) : Prop where
  conn_eq : c.conn = c.loop.conn?
  no_panic : c.loop ≠ .panicked
  gate : c.loop.dials = true → c.gates[c.dialOnce]? = some false
  newest : ∀ n, c.loop.newest? = some n → n + 1 = c.conns.length
  /-- Only `Close` closes a connection that is being read. -/
  reads_open : ∀ n, c.loop.reads? = some n → c.closer.closedConn = false → c.conns[n]? = some false
  /-- A connection that is not yet published is open, and unknown to `Close`. -/
  unpublished : ∀ n, c.loop = .dialed n → c.conns[n]? = some false ∧ c.closer.conn? ≠ some n
  snapshot : ∀ n, c.closer.conn? = some n → n < c.conns.length
  closed_iff : c.closed = true ↔ c.closer ≠ .idle ∨ c.loop = .exited

theorem connInv_init : ConnInv Client.init where
  conn_eq := rfl
  no_panic := fun h => by cases h
  gate := fun _ => rfl
  newest := fun n h => by cases h
  reads_open := fun n h => by cases h
  unpublished := fun n h => by cases h
  snapshot := fun n h => by cases h
  closed_iff := by simp [Client.init]

/-- Steps of `dialLoop`.  A line without a reply to deliver leaves it where it is. -/
theorem ConnInv.loop {a : LoopAct} (h : ConnInv c) (hm : LoopMove c a c') : ConnInv c' where
  conn_eq := by
    have hc := h.conn_eq
    cases hm with
    | publish | clearConn => rfl
    | publishPanic hl hg => exact absurd (h.gate (by rw [hl]; rfl)) hg
    | skipped | unmatched | ignored | event | eventDropped => exact hc
    | checkStop hl | checkGo hl | dialOk hl | dialFailed hl | slept hl | sleptStop hl | matched hl
    | deliver hl | readEnd hl | failPending hl | closeConn hl | checkClosedStop hl
    | checkClosedGo hl | rearm hl | shutdownFail hl | shutdownMark hl =>
        rw [hl] at hc
        exact hc
  no_panic := by
    cases hm with
    | publishPanic hl hg => exact absurd (h.gate (by rw [hl]; rfl)) hg
    | skipped | unmatched | ignored | event | eventDropped => exact h.no_panic
    | _ => exact fun he => by cases he
  gate := by
    cases hm with
    | checkGo hl | dialOk hl | dialFailed hl | slept hl => exact fun _ => h.gate (by rw [hl]; rfl)
    | rearm => exact fun _ => List.getElem?_concat_length
    | skipped | unmatched | ignored | event | eventDropped => exact h.gate
    | _ => exact fun he => by cases he
  newest := by
    have hc := h.newest
    cases hm with
    | dialOk =>
        intro n hn
        cases hn
        simp
    | closeConn hl =>
        intro n hn
        rw [List.length_set]
        exact hc n (by rw [hl]; exact hn)
    | publish hl | matched hl | deliver hl | readEnd hl | failPending hl =>
        rw [hl] at hc
        exact hc
    | skipped | unmatched | ignored | event | eventDropped => exact hc
    | _ => exact fun n hn => by cases hn
  reads_open := by
    have hc := h.reads_open
    cases hm with
    | publish hl hg =>
        intro n hn _
        cases hn
        exact (h.unpublished _ hl).1
    | matched hl | deliver hl =>
        rw [hl] at hc
        exact hc
    | skipped | unmatched | ignored | event | eventDropped => exact hc
    | _ => exact fun n hn => by cases hn
  unpublished := by
    cases hm with
    | dialOk hl hr =>
        intro n hn
        cases hn
        exact ⟨by simp, fun hs => absurd (h.snapshot _ hs) (Nat.lt_irrefl _)⟩
    | skipped | unmatched | ignored | event | eventDropped => exact h.unpublished
    | _ => exact fun n hn => by cases hn
  snapshot := by
    have hc := h.snapshot
    cases hm with
    | dialOk hl hr =>
        intro n hn
        have := hc n hn
        simp only [List.length_append, List.length_singleton]
        omega
    | closeConn => simpa using hc
    | _ => exact hc
  closed_iff := by
    have hc := h.closed_iff
    cases hm with
    | shutdownMark => exact ⟨fun _ => Or.inr rfl, fun _ => rfl⟩
    | publishPanic hl | publish hl | checkStop hl | checkGo hl | dialOk hl | dialFailed hl
    | slept hl | sleptStop hl | matched hl | deliver hl | readEnd hl | failPending hl | closeConn hl
    | clearConn hl | checkClosedStop hl | checkClosedGo hl | rearm hl | shutdownFail hl =>
        rw [hl] at hc
        simpa [Client.failPending] using hc
    | skipped | unmatched | ignored | event | eventDropped => exact hc

/-- Steps of `Close`. -/
theorem ConnInv.close {a : CloseAct} (h : ConnInv c) (hm : CloseMove c a c') : ConnInv c' where
  conn_eq := by cases hm <;> exact h.conn_eq
  no_panic := by cases hm <;> exact h.no_panic
  gate := by cases hm <;> exact h.gate
  newest := by
    have hc := h.newest
    cases hm <;> simp_all
  reads_open := by
    have hc := h.reads_open
    cases hm <;> simp_all [CloserPc.closedConn]
  unpublished := by
    have hc := h.unpublished
    cases hm with
    | mark _ =>
        -- `Close` sees no connection before one is published
        intro n hn
        refine ⟨(hc n hn).1, ?_⟩
        rw [CloserPc.conn?, h.conn_eq, show c.loop = _ from hn]
        intro hs
        cases hs
    | @closeConn m hcl =>
        intro n hn
        obtain ⟨hopen, hne⟩ := hc n hn
        have hmn : n ≠ m := by
          rintro rfl
          exact hne (by rw [hcl]; rfl)
        refine ⟨?_, fun hs => by cases hs⟩
        rw [Places.set_ne hmn]
        exact hopen
    | _ => simp_all [CloserPc.conn?]
  snapshot := by
    have hc := h.snapshot
    cases hm with
    | mark _ =>
        intro n hn
        rw [CloserPc.conn?, h.conn_eq] at hn
        have hnew : c.loop.newest? = some n := by
          cases hl : c.loop <;> rw [hl] at hn <;> first | exact hn | cases hn
        have := h.newest n hnew
        show n < c.conns.length
        omega
    | _ => simp_all [CloserPc.conn?]
  closed_iff := by
    have hc := h.closed_iff
    cases hm <;> simp_all

theorem ConnInv.step {a : ClientLabel} (h : ConnInv c) (hs : c.step cfg a = some c') :
    ConnInv c' := by
  cases Client.step_move hs with
  | loop hm => exact h.loop hm
  | close hm => exact h.close hm
  | _ =>
      exact ⟨h.conn_eq, h.no_panic, h.gate, h.newest, h.reads_open, h.unpublished, h.snapshot,
        h.closed_iff⟩

end Signalium
