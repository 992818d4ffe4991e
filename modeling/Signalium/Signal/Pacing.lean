import Signalium.Signal.Moves

/-!
# How often the client dials

`dialLoop` has two ways back to the dial.  A failed dial sleeps for the backoff
and doubles it, up to 30 s.  A connection that ends resets the backoff to 500 ms
and goes back to the top of the loop without a sleep.

The attempts, the dials that have failed in a row and the sleep since the last
attempt are histories, kept beside the client (`Pacer`).  After `k` failures in
a row the sleep before the next attempt is `min (500 ms * 2 ^ (k - 1)) 30 s`.
After a connection there is none.  So the attempts of a run are paced exactly
when each of them, after the first, follows a failed one (`dials_paced_iff`):
against a daemon that accepts and closes, the loop dials without a pause.
-/

namespace Signalium

open Runs

/-! ## Histories of the dial loop -/

/-- The client with the histories of `dialLoop`. -/
structure Pacer where
  client : Client
  /-- The dial attempts so far. -/
  dials : Nat
  /-- The dials that have failed since the last one that succeeded. -/
  failures : Nat
  /-- The sleep that has ended since the last attempt. -/
  pause : Option Int

def Pacer.init : Pacer := ⟨Client.init, 0, 0, none⟩

/-- How long `dialLoop` sleeps where it is. -/
def LoopPc.sleep? : LoopPc → Option Int
  | .sleeping d => some d
  | _ => none

/-- The step calls `DialContext`. -/
def Client.startsDial (c : Client) : ClientLabel → Bool
  | .loop .check =>
      match c.loop with
      | .top => !c.runDone
      | _ => false
  | _ => false

/-- The histories after a step to `c'`. -/
def Pacer.record (p : Pacer) (c' : Client) : ClientLabel → Pacer
  | .loop .check =>
      if p.client.startsDial (.loop .check) then ⟨c', p.dials + 1, p.failures, none⟩
      else { p with client := c' }
  | .loop .dialFailed => { p with client := c', failures := p.failures + 1 }
  | .loop .dialOk => { p with client := c', failures := 0 }
  | .loop (.slept true) => { p with client := c', pause := p.client.loop.sleep? }
  | _ => { p with client := c' }

/-- One step of the client, with the histories. -/
def Pacer.step (cfg : TCPConfig) (p : Pacer) (a : ClientLabel) : Option Pacer :=
  (p.client.step cfg a).map fun c' => p.record c' a

section Record

variable {p : Pacer} {c' : Client}

theorem Pacer.record_check (hl : p.client.loop = .top) (hd : p.client.runDone = false) :
    p.record c' (.loop .check) = ⟨c', p.dials + 1, p.failures, none⟩ := by
  simp [Pacer.record, Client.startsDial, hl, hd]

theorem Pacer.record_checkStop (hd : p.client.runDone = true) :
    p.record c' (.loop .check) = { p with client := c' } := by
  have hno : p.client.startsDial (.loop .check) = false := by
    simp only [Client.startsDial, hd]
    split <;> rfl
  simp [Pacer.record, hno]

theorem Pacer.record_slept {d : Int} (hl : p.client.loop = .sleeping d) :
    p.record c' (.loop (.slept true)) = { p with client := c', pause := some d } := by
  simp [Pacer.record, hl, LoopPc.sleep?]

end Record

/-! ## The backoff -/

/-- The sleep after `k + 1` dials that have failed in a row. -/
def backoffAfter (k : Nat) : Int := min (baseDialBackoff * 2 ^ k) maxDialBackoff

theorem backoffAfter_zero : backoffAfter 0 = baseDialBackoff := rfl

/-- Doubling up to the bound is the closed form. -/
theorem nextBackoff_backoffAfter (k : Nat) :
    nextBackoff (backoffAfter k) maxDialBackoff = backoffAfter (k + 1) := by
  have hpow : baseDialBackoff * 2 ^ (k + 1) = baseDialBackoff * 2 ^ k * 2 := by
    rw [pow_succ, mul_assoc]
  have hmax : 0 < maxDialBackoff := by decide
  rw [nextBackoff, backoffAfter, backoffAfter, hpow]
  generalize baseDialBackoff * 2 ^ k = b
  split_ifs <;> omega

theorem backoffAfter_bounds (k : Nat) :
    baseDialBackoff ≤ backoffAfter k ∧ backoffAfter k ≤ maxDialBackoff := by
  have hpow : (1 : Int) ≤ 2 ^ k := one_le_pow₀ (by norm_num)
  have hle : baseDialBackoff ≤ baseDialBackoff * 2 ^ k :=
    le_mul_of_one_le_right (by decide) hpow
  exact ⟨le_min hle (by decide), min_le_right _ _⟩

/-! ## What the loop has done where it is -/

/-- The histories and the backoff at each place of the loop. -/
def Pacer.At (p : Pacer) : LoopPc → Prop
  | .top =>
      p.client.backoff = backoffAfter p.failures ∧
        (0 < p.dials →
          p.pause = if p.failures = 0 then none else some (backoffAfter (p.failures - 1)))
  | .dialing => p.client.backoff = backoffAfter p.failures ∧ p.pause = none
  | .sleeping d =>
      0 < p.failures ∧ d = backoffAfter (p.failures - 1) ∧ p.client.backoff = d
  | .dialed _ => p.failures = 0 ∧ p.pause = none
  | .reading _ | .delivering _ _ _ | .failing _ | .closing _ | .clearing _ | .cleared _
  | .rearming => p.failures = 0 ∧ p.pause = none ∧ p.client.backoff = baseDialBackoff
  | .shutdownFail | .shutdownMark | .exited | .panicked => True

/-- The invariant of the histories. -/
def PaceInv (p : Pacer) : Prop := p.At p.client.loop

theorem paceInv_init : PaceInv Pacer.init := ⟨backoffAfter_zero.symm, fun h => absurd h (by decide)⟩

variable {cfg : TCPConfig} {p p' : Pacer}

/-- A step that leaves the loop, the backoff and the histories alone. -/
theorem PaceInv.frame {c' : Client} (h : PaceInv p) (hloop : c'.loop = p.client.loop)
    (hbackoff : c'.backoff = p.client.backoff) : PaceInv { p with client := c' } := by
  rw [PaceInv] at h ⊢
  simp only [hloop]
  generalize p.client.loop = l at h
  cases l with
  | shutdownFail | shutdownMark | exited | panicked => trivial
  | _ => simpa only [Pacer.At, hbackoff] using h

theorem PaceInv.loop {a : LoopAct} {c' : Client} (h : PaceInv p) (hmove : LoopMove p.client a c') :
    PaceInv (p.record c' (.loop a)) := by
  have hat : p.At p.client.loop := h
  cases hmove with
  | checkStop _ hd => rw [Pacer.record_checkStop hd]; trivial
  | checkGo hl hd =>
      rw [hl] at hat
      rw [Pacer.record_check hl hd]
      exact ⟨hat.1, rfl⟩
  | dialOk hl _ =>
      rw [hl] at hat
      exact ⟨rfl, hat.2⟩
  | dialFailed hl =>
      rw [hl] at hat
      exact ⟨Nat.succ_pos _, hat.1, rfl⟩
  | slept hl =>
      rw [hl] at hat
      obtain ⟨hpos, hd, hb⟩ := hat
      rw [Pacer.record_slept hl]
      refine ⟨?_, fun _ => ?_⟩
      · show nextBackoff p.client.backoff maxDialBackoff = backoffAfter p.failures
        rw [hb, hd, nextBackoff_backoffAfter, Nat.sub_add_cancel hpos]
      · show some _ = if p.failures = 0 then none else some (backoffAfter (p.failures - 1))
        rw [if_neg hpos.ne', hd]
  | publish hl _ =>
      rw [hl] at hat
      exact ⟨hat.1, hat.2, rfl⟩
  | skipped _ _ | unmatched _ _ _ _ | ignored _ _ _ _ | event _ _ _ _ _
  | eventDropped _ _ _ _ _ => exact h.frame rfl rfl
  | matched hl _ _ _ | deliver hl _ _ | readEnd hl | failPending hl | closeConn hl
  | clearConn hl | checkClosedGo hl _ =>
      rw [hl] at hat
      exact hat
  | rearm hl =>
      rw [hl] at hat
      obtain ⟨hfail, hpause, hb⟩ := hat
      refine ⟨?_, fun _ => ?_⟩
      · show p.client.backoff = backoffAfter p.failures
        rw [hb, hfail, backoffAfter_zero]
      · show p.pause = if p.failures = 0 then none else _
        rw [hpause, if_pos hfail]
  | sleptStop _ _ | publishPanic _ _ | checkClosedStop _ _ | shutdownFail _ | shutdownMark _ =>
      trivial

theorem PaceInv.step {a : ClientLabel} (h : PaceInv p) (hs : p.step cfg a = some p') :
    PaceInv p' := by
  obtain ⟨c', hc, rfl⟩ := Option.map_eq_some_iff.mp hs
  cases Client.step_move hc with
  | loop hmove => exact h.loop hmove
  | call | send _ _ | consume _ => exact h.frame rfl rfl
  | close hmove => cases hmove <;> exact h.frame rfl rfl

/-! ## Pacing -/

/-- An attempt after the first comes after a sleep of at least 500 ms and at most
30 s, which after `k` failed dials in a row is `min (500 ms * 2 ^ (k - 1)) 30 s`. -/
def PacedDial (p : Pacer) (a : ClientLabel) : Prop :=
  p.client.startsDial a = true → 0 < p.dials →
    ∃ d, p.pause = some d ∧ baseDialBackoff ≤ d ∧ d ≤ maxDialBackoff ∧
      ∀ k, p.failures = k → 0 < k → d = min (baseDialBackoff * 2 ^ (k - 1)) maxDialBackoff

/-- An attempt after the first follows a dial that has failed, not a connection. -/
def DialsAfterFailure (p : Pacer) (a : ClientLabel) : Prop :=
  p.client.startsDial a = true → 0 < p.dials → 0 < p.failures

instance (p : Pacer) (a : ClientLabel) : Decidable (DialsAfterFailure p a) :=
  inferInstanceAs (Decidable (_ → _))

/-- A step dials at the top of the loop only. -/
theorem Client.startsDial_top {c : Client} {a : ClientLabel} (h : c.startsDial a = true) :
    c.loop = .top := by
  unfold Client.startsDial at h
  split at h
  · split at h
    · next hl => exact hl
    · cases h
  · cases h

theorem PaceInv.paced_iff {a : ClientLabel} (h : PaceInv p) :
    PacedDial p a ↔ DialsAfterFailure p a := by
  refine forall_congr' fun hstart => forall_congr' fun hdials => ?_
  have hat : p.At .top := Client.startsDial_top hstart ▸ h
  have hpause := hat.2 hdials
  constructor
  · rintro ⟨d, hd, _⟩
    by_contra hzero
    rw [hpause, if_pos (by omega)] at hd
    cases hd
  · intro hpos
    rw [if_neg (by omega)] at hpause
    obtain ⟨hlow, hhigh⟩ := backoffAfter_bounds (p.failures - 1)
    refine ⟨_, hpause, hlow, hhigh, ?_⟩
    rintro k rfl _
    rfl

/-- Along any run of the client, whatever the dials give and however long the
connections last, every attempt after the first is paced exactly when no attempt
follows a connection. -/
theorem dials_paced_iff {tr : List ClientLabel} (hr : Run (Pacer.step cfg) Pacer.init tr p) :
    EveryStep (Pacer.step cfg) Pacer.init tr (fun p a _ => PacedDial p a) ↔
      RunOf (Pacer.step cfg) DialsAfterFailure Pacer.init tr p :=
  hr.everyStep_iff (J := PaceInv) paceInv_init (fun _ _ _ h _ hs => h.step hs)
    fun _ _ _ h _ _ => h.paced_iff

/-- The daemon is down for two dials. -/
def lateDaemon : List ClientLabel :=
  [.loop .check, .loop .dialFailed, .loop (.slept true), .loop .check, .loop .dialFailed,
    .loop (.slept true), .loop .check, .loop .dialOk, .loop .publish]

theorem lateDaemon_paced :
    EveryStep (Pacer.step ⟨false⟩) Pacer.init lateDaemon fun p a _ => PacedDial p a :=
  (dials_paced_iff (run_of_exec rfl)).mpr (runOf_of_execOf rfl)

/-- The daemon accepts a connection and closes it. -/
def acceptAndClose : List ClientLabel :=
  [.loop .check, .loop .dialOk, .loop .publish, .loop .readEnd, .loop .failPending,
    .loop .closeConn, .loop .clearConn, .loop .checkClosed, .loop .rearm]

/-- A daemon that accepts and closes at once is dialled again at once: three attempts
and no sleep between them. -/
theorem acceptAndClose_not_paced :
    ∃ p, Run (Pacer.step ⟨false⟩) Pacer.init
        (acceptAndClose ++ acceptAndClose ++ [.loop .check]) p ∧
      p.dials = 3 ∧
      ¬ EveryStep (Pacer.step ⟨false⟩) Pacer.init
        (acceptAndClose ++ acceptAndClose ++ [.loop .check]) fun p a _ => PacedDial p a := by
  refine ⟨_, run_of_exec rfl, rfl, fun h => ?_⟩
  have hfirst : Run (Pacer.step ⟨false⟩) Pacer.init (acceptAndClose ++ acceptAndClose) _ :=
    run_of_exec rfl
  obtain ⟨d, hd, _⟩ := h _ (.loop .check) [] _ _ rfl hfirst rfl rfl (by decide)
  cases hd

end Signalium
