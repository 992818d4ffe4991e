import Signalium.Signal.Connections

/-!
# Disconnects and the connection of a request

A request is registered before it is written, and entries do not say to which
connection they belong.  `failPending` fails every entry it finds, also one whose
request has not been written: if the dial loop reconnects meanwhile, the request
goes out on the new connection with `ErrDisconnected` already in its channel.

Exactly this must not happen: along a run, callers see `ErrDisconnected` only for
requests that were not written or whose connection has been torn down if and
only if no request is written to a live connection after its entry was failed
(`disconnect_safe_iff`).
-/

namespace Signalium

open Runs

variable {cfg : TCPConfig} {c c' : Client} {a : ClientLabel} {k n : Nat} {call call' : Call}

/-- The connection that is not yet being torn down. -/
def LoopPc.live? : LoopPc → Option Nat
  | .dialed n | .reading n | .delivering n _ _ | .failing n => some n
  | _ => none

/-- The connection has been torn down.  The teardown begins with `failPending`. -/
def TornDown (c : Client) (n : Nat) : Prop := n < c.conns.length ∧ c.loop.live? ≠ some n

instance (c : Client) (n : Nat) : Decidable (TornDown c n) :=
  inferInstanceAs (Decidable (_ ∧ _))

/-- A call reports `ErrDisconnected` only if its frame was not completely written,
or was written to a connection that has been torn down. -/
def NoSpurious (c : Client) : Prop :=
  ∀ (k : Nat) (call : Call), c.calls[k]? = some call →
    call.pc.result? = some (.error .disconnected) → ∀ n ∈ call.written, TornDown c n

/-- The step is the receive of a caller. -/
def OnlyReceive (_ : Client) (a : ClientLabel) : Prop := ∃ k, a = .send k .awaitResp

/-- Whoever receives from its channel next, no call reports a spurious
disconnect. -/
def DisconnectSafe (cfg : TCPConfig) (c : Client) : Prop :=
  ∀ tr c', RunOf (Client.step cfg) OnlyReceive c tr c' → NoSpurious c'

/-- The channel holds a disconnect. -/
def Call.told (call : Call) : Bool := call.ch.any RpcResponse.disconnect

def CallPc.writes? : CallPc → Option Nat
  | .writing n => some n
  | _ => none

/-- The caller whose frame a step writes completely. -/
def ClientLabel.writer? : ClientLabel → Option Nat
  | .send k (.write none) => some k
  | _ => none

/-- No frame goes to a live connection after its entry has been failed. -/
def SafeWrite (c : Client) (a : ClientLabel) : Prop :=
  ∀ k ∈ a.writer?, ∀ call ∈ c.calls[k]?, ∀ n ∈ call.pc.writes?, call.told = true → TornDown c n

instance (c : Client) (a : ClientLabel) : Decidable (SafeWrite c a) :=
  inferInstanceAs (Decidable (∀ k ∈ a.writer?, ∀ call ∈ c.calls[k]?, ∀ n ∈ call.pc.writes?, _ → _))

/-! ## Writes -/

/-- The frame of the call has not been written. -/
def CallPc.unwritten : CallPc → Bool
  | .start | .waiting _ | .connected | .unlocked | .locked | .writing _ => true
  | _ => false

/-- A step of a caller that comes before the write. -/
theorem CallMove.unwritten {act : CallAct} {p : List (String × Nat)} {w : Option Nat}
    (h : CallMove cfg c k call act call' p w)
    (hold : call.pc.unwritten = true → call.written = none)
    (hpc : call'.pc.unwritten = true) : call'.written = none := by
  cases h with
  | snapshot h₁ => exact hold (by rw [h₁]; rfl)
  | gateOpen h₁ => exact hold (by rw [h₁]; rfl)
  | register h₁ => exact hold (by rw [h₁]; rfl)
  | fire h₁ => exact hold (by rw [h₁]; rfl)
  | lockWrite h₁ => exact hold (by rw [h₁]; rfl)
  | snapConn h₁ => exact hold (by rw [h₁]; rfl)
  | snapNil h₁ => exact hold (by rw [h₁]; rfl)
  | writeFailed h₁ => exact hold (by rw [h₁]; rfl)
  | written =>
      cases hcfg : cfg.ignoreResults <;> rw [hcfg] at hpc <;> cases hpc
  | _ => cases hpc

/-- What holds of the frames written. -/
structure WriteInv (c : Client) : Prop where
  unwritten : ∀ (k : Nat) (call : Call), c.calls[k]? = some call → call.pc.unwritten = true →
    call.written = none
  bound : ∀ (k : Nat) (call : Call), c.calls[k]? = some call → ∀ n ∈ call.written,
    n < c.conns.length
  /-- The reader never hands over a disconnect. -/
  hand : ∀ (conn k : Nat) (resp : RpcResponse), c.loop = .delivering conn k resp →
    resp.disconnect = false

theorem writeInv_init : WriteInv Client.init where
  unwritten := fun k call h => by cases h
  bound := fun k call h => by cases h
  hand := fun conn k resp h => by cases h

/-- Connections only grow in number. -/
theorem ClientMove.conns_le (h : ClientMove cfg c a c') : c.conns.length ≤ c'.conns.length := by
  cases h with
  | loop hm => cases hm <;> simp [Client.failPending]
  | close hm => cases hm <;> simp
  | _ => exact Nat.le_refl _

/-- A connection that has been torn down stays so. -/
theorem TornDown.step (h : TornDown c n) (hm : ClientMove cfg c a c') : TornDown c' n := by
  refine ⟨Nat.lt_of_lt_of_le h.1 hm.conns_le, ?_⟩
  cases hm with
  | loop hm =>
      cases hm with
      | dialOk => exact fun hl => absurd (Option.some.inj hl) (Nat.ne_of_gt h.1)
      | skipped => exact h.2
      | unmatched => exact h.2
      | ignored => exact h.2
      | event => exact h.2
      | eventDropped => exact h.2
      | publish hl => have := h.2; rwa [hl] at this
      | matched hl => have := h.2; rwa [hl] at this
      | deliver hl => have := h.2; rwa [hl] at this
      | readEnd hl => have := h.2; rwa [hl] at this
      | _ => exact fun hl => by cases hl
  | close hm => cases hm <;> exact h.2
  | _ => exact h.2

theorem WriteInv.step (h : WriteInv c) (hs : c.step cfg a = some c') : WriteInv c' where
  unwritten := by
    intro k call' hcall' hpc
    rcases (Client.step_move hs).of_call hcall' with ⟨call, hcall, hev⟩ | ⟨params, _, _, rfl⟩
    · cases hev with
      | idle => exact h.unwritten k _ hcall hpc
      | moved hm => exact hm.unwritten (h.unwritten k call hcall) hpc
      | delivered => exact h.unwritten k call hcall hpc
      | failed => exact h.unwritten k call hcall hpc
    · rfl
  bound := by
    intro k call' hcall' n hn
    have hle := (Client.step_move hs).conns_le
    rcases (Client.step_move hs).of_call hcall' with ⟨call, hcall, hev⟩ | ⟨params, _, _, rfl⟩
    · have hold := fun hn => Nat.lt_of_lt_of_le (h.bound k call hcall n hn) hle
      cases hev with
      | idle => exact hold hn
      | moved hm =>
          cases hm with
          | written hpc hopen =>
              cases hn
              exact Nat.lt_of_lt_of_le (List.getElem?_eq_some_iff.mp hopen).1 hle
          | _ => exact hold hn
      | delivered => exact hold hn
      | failed => exact hold hn
    · cases hn
  hand := by
    intro conn k resp hl
    cases Client.step_move hs with
    | loop hm =>
        cases hm with
        | matched => cases hl; rfl
        | skipped => exact h.hand conn k resp hl
        | unmatched => exact h.hand conn k resp hl
        | ignored => exact h.hand conn k resp hl
        | event => exact h.hand conn k resp hl
        | eventDropped => exact h.hand conn k resp hl
        | _ => cases hl
    | close hm => cases hm <;> exact h.hand conn k resp hl
    | _ => exact h.hand conn k resp hl

/-! ## Calls that report a disconnect, or will -/

/-- The call reports `ErrDisconnected`, or waits with one in its channel. -/
def Call.Disconnecting (call : Call) : Prop :=
  call.pc.result? = some (.error .disconnected) ∨ call.pc = .awaiting ∧ call.told = true

/-- No call that reports a disconnect, or will, was written to a live
connection. -/
def Excused (c : Client) : Prop :=
  ∀ (k : Nat) (call : Call), c.calls[k]? = some call → call.Disconnecting →
    ∀ n ∈ call.written, TornDown c n

theorem RpcResponse.outcome_disconnected {r : RpcResponse} :
    r.outcome = .error .disconnected ↔ r.disconnect = true := by
  unfold RpcResponse.outcome
  cases r.disconnect with
  | true => simp
  | false => cases r.err <;> simp

/-- A step of a caller other than the write makes a disconnect of one only, or
ends a call that was not written. -/
theorem CallMove.disconnecting {act : CallAct} {p : List (String × Nat)} {w : Option Nat}
    (h : CallMove cfg c k call act call' p w) (ha : act ≠ .write none)
    (hd : call'.Disconnecting) :
    call.Disconnecting ∧ call'.written = call.written ∨
      call.pc.unwritten = true ∧ call'.written = call.written := by
  cases h with
  | written => exact absurd rfl ha
  | snapNil hpc => exact Or.inr ⟨by rw [hpc]; rfl, rfl⟩
  | writeFailed hpc => exact Or.inr ⟨by rw [hpc]; rfl, rfl⟩
  | @awaitResp resp hpc hch =>
      rcases hd with hr | ⟨hpc', _⟩
      · have hdisc : resp.disconnect = true :=
          RpcResponse.outcome_disconnected.mp (Option.some.inj hr)
        exact Or.inl ⟨Or.inr ⟨hpc, by rw [Call.told, hch]; exact hdisc⟩, rfl⟩
      · cases hpc'
  | unregister hpc =>
      rcases hd with hr | ⟨hpc', _⟩
      · exact Or.inl ⟨Or.inl (by rw [hpc]; exact hr), rfl⟩
      · cases hpc'
  | _ => rcases hd with hr | ⟨hpc', _⟩ <;> first | cases hr | cases hpc'

/-- After `failPending` no connection is live. -/
theorem ClientMove.fails_live {act : LoopAct} (h : ClientMove cfg c (.loop act) c')
    (ha : act = .failPending ∨ act = .shutdownFail) :
    c'.loop.live? = none ∧ c'.conns = c.conns := by
  cases h with
  | loop hm => rcases ha with rfl | rfl <;> cases hm <;> exact ⟨rfl, rfl⟩

/-- A step that is no write keeps disconnects excused. -/
theorem Excused.step_other (h : Excused c) (hi : WriteInv c) (hs : c.step cfg a = some c')
    (ha : a.writer? = none) : Excused c' := by
  have hm := Client.step_move hs
  intro k call' hcall' hd n hn
  rcases hm.of_call hcall' with ⟨call, hcall, hev⟩ | ⟨params, _, _, rfl⟩
  · cases hev with
    | idle => exact (h k _ hcall hd n hn).step hm
    | @moved act _ _ _ _ hmove =>
        have hact : act ≠ .write none := by
          rintro rfl
          cases ha
        rcases hmove.disconnecting hact hd with ⟨hdisc, hw⟩ | ⟨hpc, hw⟩
        · exact (h k call hcall hdisc n (hw ▸ hn)).step hm
        · rw [hw, hi.unwritten k call hcall hpc] at hn
          cases hn
    | delivered hl hch =>
        rcases hd with hr | ⟨_, htold⟩
        · exact (h k call hcall (Or.inl hr) n hn).step hm
        · have := hi.hand _ _ _ hl
          rw [show Call.told _ = RpcResponse.disconnect _ from rfl, this] at htold
          cases htold
    | failed hact hp hch =>
        obtain ⟨hlive, hconns⟩ := hm.fails_live hact
        refine ⟨?_, by rw [hlive]; exact fun hl => by cases hl⟩
        rw [hconns]
        exact hi.bound k call hcall n hn
  · cases hn

/-- What a step that writes a frame does: the caller and the connection. -/
theorem Client.write_step (hcfg : cfg.ignoreResults = false)
    (hs : c.step cfg (.send k (.write none)) = some c') :
    ∃ call conn, c.calls[k]? = some call ∧ call.pc = .writing conn ∧
      c' = { c with
        calls := c.calls.set k { call with written := some conn, pc := .awaiting }
        writeMu := none } := by
  cases Client.step_move hs with
  | @send _ call _ _ _ _ hcall hmove =>
      cases hmove with
      | @written conn hpc _ =>
          refine ⟨call, conn, hcall, hpc, ?_⟩
          rw [hcfg]
          rfl

/-- A condition on the frame that the step writes. -/
theorem forall_writer_iff {P : Call → Nat → Prop} {conn : Nat} (hcall : c.calls[k]? = some call)
    (hpc : call.pc = .writing conn) :
    (∀ j ∈ (ClientLabel.send k (.write none)).writer?, ∀ other ∈ c.calls[j]?,
      ∀ n ∈ other.pc.writes?, P other n) ↔ P call conn := by
  constructor
  · intro h
    exact h k rfl call hcall conn (by rw [hpc]; rfl)
  · intro h j hj other hother n hn
    cases hj
    cases hcall.symm.trans hother
    rw [hpc] at hn
    cases hn
    exact h

/-- A write keeps disconnects excused exactly when it is safe. -/
theorem Excused.write_iff (h : Excused c) (hcfg : cfg.ignoreResults = false)
    (hs : c.step cfg (.send k (.write none)) = some c') :
    Excused c' ↔ SafeWrite c (.send k (.write none)) := by
  obtain ⟨call, conn, hcall, hpc, rfl⟩ := Client.write_step hcfg hs
  rw [SafeWrite, forall_writer_iff hcall hpc]
  constructor
  · intro he htold
    exact he k _ (Places.set_self hcall) (Or.inr ⟨rfl, htold⟩) conn rfl
  · intro hsafe j call' hcall' hd n hn
    rcases Places.of_set hcall' with ⟨rfl, rfl⟩ | ⟨_, hold⟩
    · cases hn
      rcases hd with hr | ⟨_, htold⟩
      · cases hr
      · exact hsafe htold
    · exact h j call' hold hd n hn

theorem ClientLabel.writer?_eq (h : a.writer? = some k) : a = .send k (.write none) := by
  unfold ClientLabel.writer? at h
  split at h <;> cases h
  rfl

/-- What a step does to a property that only writes can break: nothing, if it is no write. -/
theorem ClientLabel.iff_of_write {P : Prop} {Q : Nat → Prop} (hother : a.writer? = none → P)
    (hwrite : ∀ k, a = .send k (.write none) → (P ↔ ∀ k ∈ a.writer?, Q k)) :
    P ↔ ∀ k ∈ a.writer?, Q k := by
  cases hw : a.writer? with
  | none =>
      refine ⟨fun _ k hk => ?_, fun _ => hother hw⟩
      cases hk
  | some k =>
      rw [← hw]
      exact hwrite k (ClientLabel.writer?_eq hw)

theorem Excused.step_iff (h : Excused c) (hi : WriteInv c) (hcfg : cfg.ignoreResults = false)
    (hs : c.step cfg a = some c') : Excused c' ↔ SafeWrite c a := by
  refine ClientLabel.iff_of_write (h.step_other hi hs) ?_
  rintro k rfl
  exact h.write_iff hcfg hs

/-! ## Receives -/

theorem Excused.noSpurious (h : Excused c) : NoSpurious c :=
  fun k call hcall hr n hn => h k call hcall (Or.inl hr) n hn

/-- A caller with a disconnect in its channel can receive it. -/
theorem DisconnectSafe.excused (h : DisconnectSafe cfg c) : Excused c := by
  intro k call hcall hd n hn
  rcases hd with hr | ⟨hpc, htold⟩
  · exact h [] c .nil k call hcall hr n hn
  · cases hch : call.ch with
    | none => rw [Call.told, hch] at htold; cases htold
    | some resp =>
        rw [Call.told, hch] at htold
        have hstep : c.step cfg (.send k .awaitResp) =
            some (c.setCall k { call with ch := none, pc := .leaving resp.outcome }) := by
          simp only [Client.step, hcall, Option.bind_some, Client.callStep, hpc, hch]
        refine h _ _ (.snoc .nil ⟨k, rfl⟩ hstep) k _ (Places.set_self hcall) ?_ n hn
        exact congrArg some (RpcResponse.outcome_disconnected.mpr htold)

/-! ## Whole runs -/

/-- **No spurious disconnect** along a run exactly when no frame of the run is
written to a live connection after its entry has been failed: whatever the
daemon, the reconnects and the other callers do, from each state whoever
receives first. -/
theorem disconnect_safe_iff {tr : List ClientLabel} (hcfg : cfg.ignoreResults = false)
    (hr : Run (Client.step cfg) Client.init tr c) :
    Always (Client.step cfg) Client.init tr (DisconnectSafe cfg) ↔
      RunOf (Client.step cfg) SafeWrite Client.init tr c := by
  refine hr.always_continued_iff (J := WriteInv) (K := Excused) (P := NoSpurious) writeInv_init
    (fun k call hcall => by cases hcall) (fun _ _ _ hi _ hs => hi.step hs)
    (fun _ _ _ => trivial) (fun _ _ he => he.noSpurious) ?_
    (fun _ _ hsafe => DisconnectSafe.excused hsafe)
    (fun _ _ _ hi he _ hs => he.step_iff hi hcfg hs)
  rintro s _ s' hi he ⟨k, rfl⟩ hs
  exact he.step_other hi hs rfl

/-- One call is written and fails with its connection.  Another one finds no
connection to write to. -/
def lostConnection : List ClientLabel :=
  [.loop .check, .loop .dialOk, .loop .publish,
    .call { account := "+1", message := "a", attachments := [] },
    .call { account := "+1", message := "b", attachments := [] },
    .send 0 .snapshot, .send 0 .gateOpen, .send 0 (.register "id-a"), .send 0 .lockWrite,
    .send 0 .snapConn, .send 0 (.write none), .send 1 .snapshot, .send 1 .gateOpen,
    .send 1 (.register "id-b"), .loop .readEnd, .loop .failPending, .loop .closeConn,
    .loop .clearConn, .send 0 .awaitResp, .send 1 .lockWrite, .send 1 .snapConn]

theorem lostConnection_disconnect_safe :
    ∃ c, Run (Client.step ⟨false⟩) Client.init lostConnection c ∧
      Always (Client.step ⟨false⟩) Client.init lostConnection (DisconnectSafe ⟨false⟩) := by
  have hr : Run (Client.step ⟨false⟩) Client.init lostConnection _ := run_of_exec rfl
  exact ⟨_, hr, (disconnect_safe_iff rfl hr).mpr (runOf_of_execOf rfl)⟩

/-- The connection is lost and dialled again between the registration of a call
and its write. -/
def writtenAfterReconnect : List ClientLabel :=
  [.loop .check, .loop .dialOk, .loop .publish,
    .call { account := "+1", message := "a", attachments := [] },
    .send 0 .snapshot, .send 0 .gateOpen, .send 0 (.register "id-a"), .loop .readEnd,
    .loop .failPending, .loop .closeConn, .loop .clearConn, .loop .checkClosed, .loop .rearm,
    .loop .check, .loop .dialOk, .loop .publish, .send 0 .lockWrite, .send 0 .snapConn,
    .send 0 (.write none), .send 0 .awaitResp, .send 0 .unregister]

/-- The call returns `ErrDisconnected`, its frame is on the second connection, and
that connection is alive. -/
theorem writtenAfterReconnect_spurious :
    ∃ c call, Run (Client.step ⟨false⟩) Client.init writtenAfterReconnect c ∧
      c.calls[0]? = some call ∧ call.pc = .returned (.error .disconnected) ∧
      call.written = some 1 ∧ c.loop = .reading 1 ∧ ¬ NoSpurious c := by
  refine ⟨_, _, run_of_exec rfl, rfl, rfl, rfl, rfl, fun h => ?_⟩
  exact (h 0 _ rfl rfl 1 rfl).2 rfl

end Signalium
