import Signalium.Signal.Moves

/-!
# The write lock

`writeFrame` holds `writeMu` from the snapshot of the connection to the return of
`conn.Write`.  A call that is between the two is the one the lock belongs to
(`Client.Locked`), so that no two calls write at a time.  What a call writes is settled
before: it has its id if it waits for a reply (`Call.Named`), and a call that writes or
has written keeps its id and its parameters.
-/

namespace Signalium

variable {cfg : TCPConfig} {c c' : Client} {k : Nat} {call call' : Call} {b : ClientLabel}

/-- The call has done its write. -/
def CallPc.isPast : CallPc → Bool
  | .awaiting | .leaving _ | .returned _ => true
  | _ => false

/-- The call holds `writeMu`. -/
def CallPc.holdsLock : CallPc → Bool
  | .locked | .writing _ => true
  | _ => false

/-- `sendAwait` has drawn the id. -/
def CallPc.isNamed : CallPc → Bool
  | .unlocked | .locked | .writing _ | .awaiting => true
  | _ => false

theorem TCPConfig.leave_isPast (cfg : TCPConfig) (r : Except SendError SendResult) :
    (cfg.leave r).isPast = true := by
  unfold TCPConfig.leave
  split <;> rfl

theorem TCPConfig.leave_isNamed (cfg : TCPConfig) (r : Except SendError SendResult) :
    (cfg.leave r).isNamed = false := by
  unfold TCPConfig.leave
  split <;> rfl

/-- A call that has done its write keeps its request. -/
theorem CallEvolves.past (h : CallEvolves cfg c k b call call') (hp : call.pc.isPast = true) :
    call'.pc.isPast = true ∧ call'.id = call.id ∧ call'.params = call.params := by
  cases h with
  | moved hm =>
      cases hm with
      | awaitCtx | awaitRun | awaitTimer | awaitResp | unregister => exact ⟨rfl, rfl, rfl⟩
      | snapshotClosed hpc | snapshot hpc | gateOpen hpc | waitCtx hpc | waitRun hpc
      | registerClosed hpc | register hpc | fire hpc | lockWrite hpc | snapConn hpc | snapNil hpc
      | written hpc | writeFailed hpc =>
          rw [hpc] at hp
          cases hp
  | _ => exact ⟨hp, rfl, rfl⟩

/-- A call in `conn.Write` stays there until it returns. -/
theorem CallEvolves.writing {n : Nat} (h : CallEvolves cfg c k b call call')
    (hp : call.pc = .writing n) (hb : ∀ err, b ≠ .send k (.write err)) :
    call'.pc = .writing n ∧ call'.id = call.id ∧ call'.params = call.params := by
  cases h with
  | moved hm =>
      cases hm with
      | written | writeFailed => exact absurd rfl (hb _)
      | snapshotClosed hpc | snapshot hpc | gateOpen hpc | waitCtx hpc | waitRun hpc
      | registerClosed hpc | register hpc | fire hpc | lockWrite hpc | snapConn hpc | snapNil hpc
      | awaitCtx hpc | awaitRun hpc | awaitTimer hpc | awaitResp hpc | unregister hpc =>
          rw [hpc] at hp
          cases hp
  | _ => exact ⟨hp, rfl, rfl⟩

theorem TCPConfig.leave_holdsLock (cfg : TCPConfig) (r : Except SendError SendResult) :
    (cfg.leave r).holdsLock = false := by
  unfold TCPConfig.leave
  split <;> rfl

/-- `writeMu`: a call that holds it is the one recorded there. -/
def Client.Locked (c : Client) : Prop :=
  ∀ (k : Nat) (call : Call), c.calls[k]? = some call → call.pc.holdsLock = true →
    c.writeMu = some k

/-- A call takes a step outside the lock. -/
theorem Client.Locked.set {p : List (String × Nat)} (h : c.Locked)
    (hcall : c.calls[k]? = some call)
    (hlock : call'.pc.holdsLock = true → call.pc.holdsLock = true) :
    Client.Locked { c with calls := c.calls.set k call', pending := p, writeMu := c.writeMu } := by
  intro j call₀ hj hhold
  rcases Places.of_set hj with ⟨rfl, rfl⟩ | ⟨_, hj⟩
  · exact h j call hcall (hlock hhold)
  · exact h j call₀ hj hhold

/-- A call that holds the lock gives it up. -/
theorem Client.Locked.release {p : List (String × Nat)} (h : c.Locked)
    (hcall : c.calls[k]? = some call) (hhold : call.pc.holdsLock = true)
    (hfree : call'.pc.holdsLock = false) :
    Client.Locked { c with calls := c.calls.set k call', pending := p, writeMu := none } := by
  intro j call₀ hj hj₀
  rcases Places.of_set hj with ⟨rfl, rfl⟩ | ⟨hjk, hj⟩
  · rw [hfree] at hj₀
    cases hj₀
  · have hsame := (h j call₀ hj hj₀).symm.trans (h k call hcall hhold)
    exact absurd (Option.some.inj hsame) hjk

theorem Client.Locked.step (h : c.Locked) (hs : c.step cfg b = some c') : c'.Locked := by
  have hput : ∀ {c' : Client}, c'.writeMu = c.writeMu →
      (∀ (k : Nat) (call' : Call), c'.calls[k]? = some call' →
        ∃ call, c.calls[k]? = some call ∧ call'.pc = call.pc) → c'.Locked := by
    intro c' hmu hcalls k call' hcall' hhold
    obtain ⟨call, hcall, hpc⟩ := hcalls k call' hcall'
    rw [hmu]
    exact h k call hcall (by rw [← hpc]; exact hhold)
  cases Client.step_move hs with
  | call =>
      intro k call' hcall' hhold
      rcases Places.of_snoc hcall' with hold | ⟨_, rfl⟩
      · exact h k call' hold hhold
      · cases hhold
  | @send k call call' a p w hcall hm =>
      cases hm with
      | lockWrite hpc hmu =>
          intro j call₀ hj hj₀
          rcases Places.of_set hj with ⟨rfl, rfl⟩ | ⟨_, hj⟩
          · rfl
          · have := h j call₀ hj hj₀
            rw [hmu] at this
            cases this
      | snapConn hpc => exact h.set hcall fun _ => by rw [hpc]; rfl
      | snapNil hpc => exact h.release hcall (by rw [hpc]; rfl) (cfg.leave_holdsLock _)
      | written hpc =>
          refine h.release hcall (by rw [hpc]; rfl) ?_
          dsimp only
          split <;> rfl
      | writeFailed hpc => exact h.release hcall (by rw [hpc]; rfl) (cfg.leave_holdsLock _)
      | _ => exact h.set hcall fun hl => by cases hl
  | loop hm =>
      refine hput ?_ fun k call' hcall' => ?_
      · cases hm <;> rfl
      · have hmove : ClientMove cfg c (.loop _) c' := .loop hm
        rcases hmove.of_call hcall' with ⟨call, hcall, hev⟩ | ⟨_, hl, _⟩
        · refine ⟨call, hcall, ?_⟩
          cases hev <;> rfl
        · cases hl
  | close hm =>
      refine hput ?_ fun k call' hcall' => ?_
      · cases hm <;> rfl
      · refine ⟨call', ?_, rfl⟩
        cases hm <;> exact hcall'
  | consume => exact h

/-- In the mode that waits for replies, a call that is about to write has its id. -/
def Call.Named (cfg : TCPConfig) (call : Call) : Prop :=
  cfg.ignoreResults = false → call.pc.isNamed = true → call.id.isSome = true

theorem CallEvolves.named (h : CallEvolves cfg c k b call call') (hn : call.Named cfg) :
    call'.Named cfg := by
  intro hcfg hp
  cases h with
  | moved hm =>
      cases hm with
      | register => rfl
      | fire _ hfire => rw [hfire] at hcfg; cases hcfg
      | lockWrite hpc | snapConn hpc | written hpc => exact hn hcfg (by rw [hpc]; rfl)
      | snapNil | writeFailed => rw [cfg.leave_isNamed] at hp; cases hp
      | _ => cases hp
  | _ => exact hn hcfg hp

/-- What a write leaves of a call. -/
theorem Client.write_past {err : Option String} (h : c.step cfg (.send k (.write err)) = some c')
    (hcall : c.calls[k]? = some call) :
    ∃ call', c'.calls[k]? = some call' ∧ call'.pc.isPast = true ∧ call'.id = call.id ∧
      call'.params = call.params := by
  cases Client.step_move h with
  | send hcall₀ hm =>
      rw [hcall] at hcall₀
      cases hcall₀
      refine ⟨_, Places.set_self hcall, ?_⟩
      cases hm with
      | written =>
          refine ⟨?_, rfl, rfl⟩
          dsimp only
          split <;> rfl
      | writeFailed => exact ⟨cfg.leave_isPast _, rfl, rfl⟩

end Signalium
