import Signalium.Signal.Connections

/-!
# Close and the reader

`Close` reads `c.conn` once, and closes what it has seen so that the reader
unblocks.  A connection that `DialContext` has returned and that is not yet in
`c.conn` escapes it: `dialLoop` publishes it without looking at `c.closed`, reads
from it, and stays in `readLoop` until the daemon ends the connection.

Exactly this must not happen: `Close` leaves no reader behind along a run if and
only if no connection of the run is published after `c.closed` is set
(`close_safe_iff`).
-/

namespace Signalium

open Runs

variable {cfg : TCPConfig} {c c' : Client} {a : ClientLabel} {n : Nat}

/-- Once `Close` has closed what it closes, the connection under `readLoop` has
been closed by the client. -/
def Unstranded (c : Client) : Prop :=
  c.closer.closedConn = true → ∀ n, c.loop.reads? = some n → c.conns[n]? = some true

/-- The step is one of `Close`. -/
def OnlyClose (_ : Client) (a : ClientLabel) : Prop := ∃ act, a = .close act

/-- However far `Close` runs from here, it leaves no reader behind. -/
def CloseSafe (cfg : TCPConfig) (c : Client) : Prop :=
  ∀ tr c', RunOf (Client.step cfg) OnlyClose c tr c' → Unstranded c'

def ClientLabel.publishes : ClientLabel → Bool
  | .loop .publish => true
  | _ => false

/-- No connection is published once `c.closed` is set. -/
def NoLatePublish (c : Client) (a : ClientLabel) : Prop := a.publishes = true → c.closed = false

instance (c : Client) (a : ClientLabel) : Decidable (NoLatePublish c a) :=
  inferInstanceAs (Decidable (_ → _))

/-! ## What Close has covered -/

/-- `Close` has closed the connection, or will. -/
def CloserPc.Covers (conns : List Bool) (n : Nat) : CloserPc → Prop
  | .idle => True
  | .marked conn | .cancelled conn => conn = some n
  | .waiting | .returned _ => conns[n]? = some true

/-- `Close` covers the connection under `readLoop`. -/
def Covered (c : Client) : Prop := ∀ n, c.loop.reads? = some n → c.closer.Covers c.conns n

theorem Covered.unstranded (h : Covered c) : Unstranded c := by
  intro hcl n hn
  have hcov := h n hn
  cases hc : c.closer with
  | waiting => rw [hc] at hcov; exact hcov
  | returned d => rw [hc] at hcov; exact hcov
  | _ => rw [hc] at hcl; cases hcl

theorem ConnInv.reads_lt (h : ConnInv c) (hn : c.loop.reads? = some n) : n < c.conns.length := by
  have hnew : c.loop.newest? = some n := by
    cases hl : c.loop <;> rw [hl] at hn <;> first | exact hn | cases hn
  have := h.newest n hnew
  omega

/-- The connection under `readLoop` is the one in `c.conn`. -/
theorem ConnInv.reads_conn (h : ConnInv c) (hn : c.loop.reads? = some n) : c.conn = some n := by
  rw [h.conn_eq]
  cases hl : c.loop <;> rw [hl] at hn <;> first | exact hn | cases hn

theorem Covered.close {a : CloseAct} (h : Covered c) (hi : ConnInv c) (hm : CloseMove c a c') :
    Covered c' := by
  intro n hn
  cases hm with
  | mark _ => exact hi.reads_conn hn
  | cancel hcl => have := h n hn; rwa [hcl] at this
  | @closeConn m hcl =>
      have hcov := h n hn
      rw [hcl] at hcov
      cases hcov
      show (c.conns.set n true)[n]? = some true
      rw [List.getElem?_set_self (hi.reads_lt hn)]
  | closeNil hcl => have := h n hn; rw [hcl] at this; cases this
  | drained hcl _ => have := h n hn; rwa [hcl] at this
  | drainTimeout hcl => have := h n hn; rwa [hcl] at this

/-- A `Close` that has not yet come to `conn.Close()` can go on to it. -/
theorem CloseSafe.cancelled (h : CloseSafe cfg c) (hi : ConnInv c) {conn : Option Nat}
    (hc : c.closer = .cancelled conn) (hn : c.loop.reads? = some n) : conn = some n := by
  have hopen := hi.reads_open n hn (by rw [hc]; rfl)
  cases conn with
  | none =>
      have hstep : c.step cfg (.close .closeConn) = some { c with closer := .waiting } := by
        simp only [Client.step, Client.closeStep, hc]
      have hclosed := h _ _ (.snoc .nil ⟨_, rfl⟩ hstep) rfl n hn
      rw [show c.conns[n]? = some true from hclosed] at hopen
      cases hopen
  | some m =>
      have hstep : c.step cfg (.close .closeConn) =
          some { c with conns := c.conns.set m true, closer := .waiting } := by
        simp only [Client.step, Client.closeStep, hc]
      have hclosed : (c.conns.set m true)[n]? = some true :=
        h _ _ (.snoc .nil ⟨_, rfl⟩ hstep) rfl n hn
      rcases Places.of_set hclosed with ⟨rfl, _⟩ | ⟨_, hold⟩
      · rfl
      · rw [hold] at hopen
        cases hopen

theorem CloseSafe.step (h : CloseSafe cfg c) {act : CloseAct}
    (hs : c.step cfg (.close act) = some c') : CloseSafe cfg c' := by
  intro tr c'' hr
  exact h _ c'' ((RunOf.snoc .nil ⟨act, rfl⟩ hs).trans hr)

theorem CloseSafe.covered (h : CloseSafe cfg c) (hi : ConnInv c) : Covered c := by
  intro n hn
  cases hc : c.closer with
  | idle => trivial
  | marked conn =>
      have hstep : c.step cfg (.close .cancel) =
          some { c with runDone := true, closer := .cancelled conn } := by
        simp only [Client.step, Client.closeStep, hc]
      exact (h.step hstep).cancelled (hi.step hstep) rfl hn
  | cancelled conn => exact h.cancelled hi hc hn
  | waiting => exact h [] c .nil (by rw [hc]; rfl) n hn
  | returned d => exact h [] c .nil (by rw [hc]; rfl) n hn

/-! ## Steps -/

/-- A step of `dialLoop` keeps the reader covered, unless it publishes. -/
theorem Covered.loop {act : LoopAct} (h : Covered c) (hm : LoopMove c act c')
    (ha : act ≠ .publish) : Covered c' := by
  intro n hn
  cases hm with
  | publish => exact absurd rfl ha
  | publishPanic => exact absurd rfl ha
  | deliver hl => exact h n (by rw [hl]; exact hn)
  | matched hl => exact h n (by rw [hl]; exact hn)
  | skipped => exact h n hn
  | unmatched => exact h n hn
  | ignored => exact h n hn
  | event => exact h n hn
  | eventDropped => exact h n hn
  | _ => cases hn

/-- A publication is covered exactly when `Close` has not begun. -/
theorem ConnInv.publish_covered {cn : Nat} (hi : ConnInv c) (hl : c.loop = .dialed cn) :
    c.closer.Covers c.conns cn ↔ c.closed = false := by
  obtain ⟨hopen, hne⟩ := hi.unpublished cn hl
  have hclosed : c.closed = true ↔ c.closer ≠ .idle := by
    rw [hi.closed_iff, hl]
    simp
  constructor
  · intro hcov
    by_contra hcl
    have hbegun := hclosed.mp (by simpa using hcl)
    cases hc : c.closer with
    | idle => exact hbegun hc
    | marked conn => rw [hc] at hcov hne; exact hne hcov
    | cancelled conn => rw [hc] at hcov hne; exact hne hcov
    | waiting =>
        rw [hc, CloserPc.Covers, hopen] at hcov
        cases hcov
    | returned d =>
        rw [hc, CloserPc.Covers, hopen] at hcov
        cases hcov
  · intro hcl
    have hidle : c.closer = .idle := by
      by_contra hbegun
      rw [hclosed.mpr hbegun] at hcl
      cases hcl
    rw [hidle]
    trivial

theorem Covered.step_iff (h : Covered c) (hi : ConnInv c) (hs : c.step cfg a = some c') :
    Covered c' ↔ NoLatePublish c a := by
  cases Client.step_move hs with
  | @loop act _ hm =>
      cases act with
      | publish =>
          cases hm with
          | publish hl _ =>
              rw [show NoLatePublish c (.loop .publish) ↔ c.closed = false from by
                simp [NoLatePublish, ClientLabel.publishes], ← hi.publish_covered hl]
              refine ⟨fun hcov => hcov _ rfl, fun hcov n hn => ?_⟩
              cases hn
              exact hcov
          | publishPanic hl hg => exact absurd (hi.gate (by rw [hl]; rfl)) hg
      | _ => exact ⟨fun _ hp => (by cases hp), fun _ => h.loop hm fun hp => by cases hp⟩
  | close hm => exact ⟨fun _ hp => (by cases hp), fun _ => h.close hi hm⟩
  | _ => exact ⟨fun _ hp => (by cases hp), fun _ => h⟩

/-! ## Whole runs -/

/-- **Close leaves no reader behind** along a run exactly when no connection of
the run is published after `c.closed` is set: whatever the callers, the daemon
and the dials do, from each state `Close` runs as far as it likes. -/
theorem close_safe_iff {tr : List ClientLabel}
    (hr : Run (Client.step cfg) Client.init tr c) :
    Always (Client.step cfg) Client.init tr (CloseSafe cfg) ↔
      RunOf (Client.step cfg) NoLatePublish Client.init tr c := by
  refine hr.always_continued_iff (J := ConnInv) (K := Covered) (P := Unstranded) connInv_init
    (fun n hn => by cases hn) (fun _ _ _ hi _ hs => hi.step hs) (fun _ _ _ => trivial)
    (fun _ _ hcov => hcov.unstranded) ?_ (fun _ hi hsafe => CloseSafe.covered hsafe hi)
    (fun _ _ _ hi hcov _ hs => hcov.step_iff hi hs)
  rintro s _ s' hi hcov ⟨act, rfl⟩ hs
  exact hcov.close hi (Client.closeStep_move hs)

/-- The first connection is lost and a second one is being read when `Close` is
called. -/
def closeWhileReading : List ClientLabel :=
  [.loop .check, .loop .dialOk, .loop .publish, .loop .readEnd, .loop .failPending,
    .loop .closeConn, .loop .clearConn, .loop .checkClosed, .loop .rearm, .loop .check,
    .loop .dialOk, .loop .publish, .close .mark, .close .cancel, .close .closeConn]

theorem closeWhileReading_safe :
    ∃ c, Run (Client.step ⟨false⟩) Client.init closeWhileReading c ∧ c.loop.reads? = some 1 ∧
      Always (Client.step ⟨false⟩) Client.init closeWhileReading (CloseSafe ⟨false⟩) := by
  have hr : Run (Client.step ⟨false⟩) Client.init closeWhileReading _ := run_of_exec rfl
  exact ⟨_, hr, rfl, (close_safe_iff hr).mpr (runOf_of_execOf rfl)⟩

/-- `Close` runs between the return of `DialContext` and the publication of the
connection. -/
def closeWhileDialed : List ClientLabel :=
  [.loop .check, .loop .dialOk, .close .mark, .close .cancel, .close .closeConn, .loop .publish]

/-- `Close` has done all it does to unblock the reader, and the reader is on a
connection that nobody has closed. -/
theorem closeWhileDialed_stranded :
    ∃ c, Run (Client.step ⟨false⟩) Client.init closeWhileDialed c ∧ c.closer = .waiting ∧
      c.loop.reads? = some 0 ∧ c.conns[0]? = some false ∧ ¬ Unstranded c := by
  refine ⟨_, run_of_exec rfl, rfl, rfl, rfl, fun h => ?_⟩
  have hclosed := h rfl 0 rfl
  cases hclosed

end Signalium
