import Signalium.Signal.Moves

/-!
# The demultiplexer

The client routes replies as `Replies.Router` does: seen as a router
(`Client.router`), each of its steps is a step of the router or changes nothing
(`ClientMove.router_step`).  So the rules of the router apply, whatever the
interleaving of callers, reader, `failPending`, timeouts and reconnects.  What
is left to add is where the results of `sendAwait` come from (`ResultInv`).

The assumption on request ids is that a drawn id is fresh (`FreshIds`): no other
call has it and no frame seen so far carries it.
-/

namespace Signalium

open Replies Runs

variable {cfg : TCPConfig} {c c' : Client} {a : ClientLabel} {k : Nat} {call call' : Call}

/-! ## The client as a router -/

/-- A call as the router sees it. -/
def Call.slot (call : Call) : Slot String RpcResponse := ⟨call.id, call.ch, call.puts⟩

/-- The value between the lock and the channel send of `dispatchFrame`. -/
def LoopPc.hand : LoopPc → Option (Nat × RpcResponse)
  | .delivering _ k resp => some (k, resp)
  | _ => none

/-- A frame as a reply. -/
def RpcFrame.reply? (f : RpcFrame) : Option (String × RpcResponse) :=
  f.replyId?.map fun id => (id, f.response)

/-- The client as a router. -/
def Client.router (c : Client) : Router String RpcResponse where
  slots := c.calls.map Call.slot
  pending := c.pending
  hand := c.loop.hand
  log := c.frames.filterMap RpcFrame.reply?
  missed := c.missed

/-- The request id a step draws. -/
def ClientLabel.draws? : ClientLabel → Option String
  | .send _ (.register id) => some id
  | _ => none

/-- A drawn request id is fresh. -/
def FreshIds (c : Client) (a : ClientLabel) : Prop := ∀ id ∈ a.draws?, c.router.Fresh id

instance (c : Client) (a : ClientLabel) : Decidable (FreshIds c a) :=
  inferInstanceAs (Decidable (∀ id ∈ a.draws?, _ ∧ _))

theorem Client.router_slot (h : c.calls[k]? = some call) : c.router.slots[k]? = some call.slot := by
  simp [Client.router, List.getElem?_map, h]

theorem Client.of_router_slot {s : Slot String RpcResponse} (h : c.router.slots[k]? = some s) :
    ∃ call, c.calls[k]? = some call ∧ s = call.slot := by
  simp only [Client.router, List.getElem?_map, Option.map_eq_some_iff] at h
  obtain ⟨call, hcall, rfl⟩ := h
  exact ⟨call, hcall, rfl⟩

/-- The router after a step of a caller. -/
theorem Client.router_set (c : Client) (k : Nat) (call' : Call) (p : List (String × Nat))
    (w : Option Nat) :
    ({ c with calls := c.calls.set k call', pending := p, writeMu := w } : Client).router =
      { c.router with slots := c.router.slots.set k call'.slot, pending := p } := by
  simp only [Client.router, List.map_set]

/-- A step of a caller that leaves its key and its channel alone. -/
theorem Client.router_set_same (h : c.calls[k]? = some call) (hs : call'.slot = call.slot)
    (p : List (String × Nat)) (w : Option Nat) :
    ({ c with calls := c.calls.set k call', pending := p, writeMu := w } : Client).router =
      { c.router with pending := p } := by
  rw [Client.router_set, hs, Places.set_same (Client.router_slot h)]

theorem Call.fail_slot (pending : List (String × Nat)) (k : Nat) (call : Call) :
    (call.fail pending k).slot = call.slot.flush .closed pending k := by
  unfold Call.fail Slot.flush
  by_cases hp : k ∈ pending.map Prod.snd ∧ call.ch.isNone
  · rw [if_pos hp, if_pos (by exact hp)]
    rfl
  · rw [if_neg hp, if_neg (by exact hp)]

/-- `failPending` is the flush of the router. -/
theorem Client.router_failPending (hh : c.loop.hand = none) {l : LoopPc} (hl : l.hand = none) :
    ({ c.failPending with loop := l } : Client).router = c.router.flush .closed := by
  have hslots : (c.calls.mapIdx (Call.fail c.pending)).map Call.slot =
      (c.calls.map Call.slot).mapIdx (Slot.flush .closed c.pending) := by
    apply List.ext_getElem?
    intro i
    simp only [List.getElem?_map, List.getElem?_mapIdx, Option.map_map]
    congr 1
    funext call
    exact Call.fail_slot c.pending i call
  have hfull : (fun p : String × Nat => ((c.calls[p.2]?).bind Call.ch).isSome) =
      fun p => (((c.calls.map Call.slot)[p.2]?).bind Slot.chan).isSome := by
    funext p
    rw [List.getElem?_map]
    cases c.calls[p.2]? <;> rfl
  simp only [Client.router, Client.failPending, Router.flush, hslots, hfull, hl, hh]

/-- A frame that is a reply lengthens the log. -/
theorem Client.log_reply {f : RpcFrame} {id : String} (h : f.replyId? = some id) :
    (c.frames ++ [f]).filterMap RpcFrame.reply? =
      c.frames.filterMap RpcFrame.reply? ++ [(id, f.response)] := by
  rw [List.filterMap_append]
  simp [RpcFrame.reply?, h]

/-- Any other frame does not. -/
theorem Client.log_other {f : RpcFrame} (h : f.replyId? = none) :
    (c.frames ++ [f]).filterMap RpcFrame.reply? = c.frames.filterMap RpcFrame.reply? := by
  rw [List.filterMap_append]
  simp [RpcFrame.reply?, h]

theorem LoopMove.router_step {a : LoopAct} (h : LoopMove c a c') :
    c'.router = c.router ∨ Step .closed c.router c'.router := by
  have hhand : ∀ l, c.loop = l → c.router.hand = l.hand := fun l hl => congrArg LoopPc.hand hl
  cases h with
  | @matched _ _ f _ _ hl _ hid hp =>
      refine Or.inr ?_
      have hr : Step .closed c.router _ := .matched (v := f.response) (hhand _ hl) hp
      simpa only [Client.router, Client.log_reply hid, LoopPc.hand] using hr
  | @unmatched _ _ f _ _ _ hid hp =>
      refine Or.inr ?_
      have hr : Step .closed c.router _ := .unmatched (v := f.response) hp
      simpa only [Client.router, Client.log_reply hid] using hr
  | ignored _ _ hid _ => exact Or.inl (by simp only [Client.router, Client.log_other hid])
  | event _ _ hid _ _ => exact Or.inl (by simp only [Client.router, Client.log_other hid])
  | eventDropped _ _ hid _ _ => exact Or.inl (by simp only [Client.router, Client.log_other hid])
  | deliver hl hcall hch =>
      refine Or.inr ?_
      have hr : Step .closed c.router _ := .put (hhand _ hl) (Client.router_slot hcall) hch
      simpa only [Client.router, List.map_set, Call.slot, LoopPc.hand] using hr
  | failPending hl =>
      rw [Client.router_failPending (hhand _ hl) rfl]
      exact Or.inr .flushed
  | shutdownFail hl =>
      rw [Client.router_failPending (hhand _ hl) rfl]
      exact Or.inr .flushed
  | skipped => exact Or.inl rfl
  | _ hl => exact Or.inl (by simp only [Client.router, hl]; rfl)

/-- Every step of the client is a step of the router, or none. -/
theorem ClientMove.router_step (h : ClientMove cfg c a c') (hfresh : FreshIds c a)
    (hearly : ∀ (k : Nat) (call : Call), c.calls[k]? = some call → call.pc = .connected →
      call.id = none) :
    c'.router = c.router ∨ Step .closed c.router c'.router := by
  cases h with
  | @call params =>
      refine Or.inr ?_
      have hslots : (c.calls ++ [Call.new params]).map Call.slot =
          c.calls.map Call.slot ++ [⟨none, none, []⟩] := by simp [Call.new, Call.slot]
      have hr : Step .closed c.router _ := .called
      simpa only [Client.router, hslots] using hr
  | @send k call _ a _ _ hcall hmove =>
      cases hmove with
      | register hpc _ _ =>
          rw [Client.router_set]
          exact Or.inr (.registered (Client.router_slot hcall) (hearly k call hcall hpc)
            (hfresh _ rfl))
      | awaitResp _ hch =>
          rw [Client.router_set]
          exact Or.inr (.taken (Client.router_slot hcall) hch)
      | unregister _ =>
          rw [Client.router_set_same hcall (by rfl)]
          cases call.id with
          | none => exact Or.inl rfl
          | some id => exact Or.inr .withdrawn
      | _ => exact Or.inl (Client.router_set_same hcall (by rfl) _ _)
  | loop hmove => exact hmove.router_step
  | close hmove => cases hmove <;> exact Or.inl rfl
  | consume _ => exact Or.inl rfl

/-! ## Where results come from -/

/-- A value `sendAwait` returns from a frame: the daemon's result or its error. -/
def FromDaemon (cfg : TCPConfig) : Except SendError SendResult → Prop
  | .ok _ => cfg.ignoreResults = false
  | .error (.daemon _) => True
  | .error _ => False

/-- The call has not come to the registration. -/
def CallPc.early : CallPc → Bool
  | .start | .waiting _ | .connected => true
  | _ => false

theorem TCPConfig.leave_early (cfg : TCPConfig) (r : Except SendError SendResult) :
    (cfg.leave r).early = false := by
  unfold TCPConfig.leave
  split <;> rfl

/-- What holds of every call. -/
structure Call.Sound (cfg : TCPConfig) (call : Call) : Prop where
  early : call.pc.early = true → call.id = none
  /-- A daemon result has come through the channel. -/
  result : ∀ out, call.pc.result? = some out → FromDaemon cfg out → ∃ x ∈ call.puts, x.outcome = out

theorem Call.sound_new (params : SendParams) : (Call.new params).Sound cfg where
  early := fun _ => rfl
  result := fun out h => by cases h

/-- A call that leaves with an error of the client's own. -/
theorem Call.Sound.failed {pc : CallPc} {e : SendError} (hearly : pc.early = false)
    (hr : pc.result? = some (.error e)) (he : ¬ FromDaemon cfg (.error e)) :
    ({ call with pc } : Call).Sound cfg where
  early := fun h => by
    rw [show ({ call with pc } : Call).pc.early = pc.early from rfl, hearly] at h
    cases h
  result := fun out h hd => by
    rw [show ({ call with pc } : Call).pc.result? = pc.result? from rfl, hr] at h
    cases h
    exact absurd hd he

/-- A call that goes on without a result. -/
theorem Call.Sound.moved {pc : CallPc} (hr : pc.result? = none)
    (hid : pc.early = true → call.id = none) : ({ call with pc } : Call).Sound cfg where
  early := hid
  result := fun out h => by
    rw [show ({ call with pc } : Call).pc.result? = pc.result? from rfl, hr] at h
    cases h

theorem CallMove.sound {a : CallAct} {p : List (String × Nat)} {w : Option Nat}
    (h : CallMove cfg c k call a call' p w) (hs : call.Sound cfg)
    (hch : ∀ resp ∈ call.ch, resp ∈ call.puts) : call'.Sound cfg := by
  cases h with
  | snapshotClosed => exact .failed rfl rfl id
  | snapshot hpc => exact .moved rfl fun _ => hs.early (by rw [hpc]; rfl)
  | gateOpen hpc => exact .moved rfl fun _ => hs.early (by rw [hpc]; rfl)
  | waitCtx => exact .failed rfl rfl id
  | waitRun => exact .failed rfl rfl id
  | registerClosed => exact .failed rfl rfl id
  | register => exact ⟨fun h => (by cases h), fun out h => by cases h⟩
  | fire => exact .moved rfl fun h => by cases h
  | lockWrite => exact .moved rfl fun h => by cases h
  | snapConn => exact .moved rfl fun h => by cases h
  | snapNil => exact .failed (cfg.leave_early _) (cfg.leave_result _) id
  | written =>
      cases hcfg : cfg.ignoreResults with
      | true =>
          -- `fireAndForget` returns an empty result, which is not the daemon's
          refine ⟨fun h => (by cases h), fun out h hd => ?_⟩
          cases h
          exact absurd (hcfg.symm.trans hd) (by decide)
      | false => exact ⟨fun h => (by cases h), fun out h => by cases h⟩
  | writeFailed => exact .failed (cfg.leave_early _) (cfg.leave_result _) id
  | awaitCtx => exact .failed rfl rfl id
  | awaitRun => exact .failed rfl rfl id
  | awaitTimer => exact .failed rfl rfl id
  | @awaitResp resp _ hresp =>
      refine ⟨fun h => (by cases h), fun out h _ => ?_⟩
      cases h
      exact ⟨resp, hch resp hresp, rfl⟩
  | unregister hpc =>
      refine ⟨fun h => (by cases h), fun out h hd => ?_⟩
      cases h
      exact hs.result _ (by rw [hpc]; rfl) hd

/-- A call keeps the id it has. -/
theorem CallEvolves.id_eq {id : String} (h : CallEvolves cfg c k a call call')
    (hs : call.Sound cfg) (hid : call.id = some id) : call'.id = some id := by
  cases h with
  | moved hm =>
      cases hm with
      | register hpc =>
          rw [hs.early (by rw [hpc]; rfl)] at hid
          cases hid
      | _ => exact hid
  | _ => exact hid

/-- A put leaves the state of a call alone. -/
theorem Call.Sound.put (hs : call.Sound cfg) (x : RpcResponse) :
    ({ call with ch := some x, puts := call.puts ++ [x] } : Call).Sound cfg where
  early := hs.early
  result := fun out h hd => by
    obtain ⟨y, hy, hout⟩ := hs.result out h hd
    exact ⟨y, List.mem_append_left _ hy, hout⟩

/-! ## The invariant -/

/-- The invariant of the demultiplexer. -/
structure DemuxInv (cfg : TCPConfig) (c : Client) : Prop where
  router : Inv .closed c.router
  sound : ∀ (k : Nat) (call : Call), c.calls[k]? = some call → call.Sound cfg

theorem demuxInv_init : DemuxInv cfg Client.init where
  router := inv_init
  sound := fun k call h => by cases h

/-- The value in a channel was put there. -/
theorem DemuxInv.mem_puts (h : DemuxInv cfg c) (hcall : c.calls[k]? = some call) :
    ∀ resp ∈ call.ch, resp ∈ call.puts := by
  intro resp hresp
  rcases h.router.filled k call.slot (Client.router_slot hcall) with hu | ⟨v, hp, hv, _⟩
  · rw [show call.ch = none from hu.1] at hresp
    cases hresp
  · rw [show call.puts = [v] from hp, hv resp hresp]
    exact List.mem_singleton.mpr rfl

theorem DemuxInv.step (h : DemuxInv cfg c) (hfresh : FreshIds c a)
    (hstep : c.step cfg a = some c') :
    DemuxInv cfg c' where
  router := by
    have hearly : ∀ (k : Nat) (call : Call), c.calls[k]? = some call → call.pc = .connected →
        call.id = none := fun k call hcall hpc => (h.sound k call hcall).early (by rw [hpc]; rfl)
    rcases (Client.step_move hstep).router_step hfresh hearly with heq | hr
    · rw [heq]; exact h.router
    · exact h.router.step hr
  sound := by
    intro k call' hcall'
    rcases (Client.step_move hstep).of_call hcall' with ⟨call, hcall, hev⟩ | ⟨params, _, _, rfl⟩
    · have hs := h.sound k call hcall
      cases hev with
      | idle => exact hs
      | moved hmove => exact hmove.sound hs (h.mem_puts hcall)
      | delivered => exact hs.put _
      | failed => exact hs.put _
    · exact Call.sound_new params

/-! ## The first frame with an id -/

/-- The first frame that carries the id. -/
def firstFrame (frames : List RpcFrame) (id : String) : Option RpcFrame :=
  frames.find? fun f => f.id = some id

theorem RpcFrame.replyId?_eq {f : RpcFrame} {id : String} (hid : id ≠ "") :
    f.replyId? = some id ↔ f.id = some id := by
  unfold RpcFrame.replyId? nonEmpty?
  cases f.id with
  | none => simp
  | some s =>
      by_cases hs : s = ""
      · simp [hs, Ne.symm hid]
      · simp [hs]

theorem RpcFrame.replyId?_ne {f : RpcFrame} {id : String} (h : f.replyId? = some id) : id ≠ "" := by
  unfold RpcFrame.replyId? nonEmpty? at h
  rintro rfl
  cases hf : f.id with
  | none => rw [hf] at h; cases h
  | some s =>
      rw [hf] at h
      by_cases hs : s = ""
      · simp [hs] at h
      · simp [hs] at h

/-- The first reply of the router is the first frame. -/
theorem firstFrame_of_first {frames : List RpcFrame} {id : String} {v : RpcResponse}
    (h : First (frames.filterMap RpcFrame.reply?) id v) :
    ∃ f, firstFrame frames id = some f ∧ f.replyId? = some id ∧ f.response = v := by
  rw [First, List.find?_filterMap] at h
  obtain ⟨f, hf, hreply⟩ := Option.bind_eq_some_iff.mp h
  obtain ⟨id', hid, heq⟩ := Option.map_eq_some_iff.mp hreply
  cases heq
  have hne := RpcFrame.replyId?_ne hid
  refine ⟨f, ?_, hid, rfl⟩
  rw [firstFrame, ← hf]
  congr 1
  funext g
  rw [Bool.eq_iff_iff, decide_eq_true_iff, ← RpcFrame.replyId?_eq hne]
  simp [RpcFrame.reply?, Option.any_eq_true]

/-! ## Safety -/

/-- Safety of the demultiplexer. -/
structure DemuxSafe (cfg : TCPConfig) (c : Client) : Prop where
  /-- At most one value is ever put into a response channel. -/
  one_put : ∀ (k : Nat) (call : Call), c.calls[k]? = some call → call.puts.length ≤ 1
  /-- The channel send of `dispatchFrame` does not block. -/
  reader_free : ∀ (conn k : Nat) (resp : RpcResponse), c.loop = .delivering conn k resp →
    (c.step cfg (.loop .deliver)).isSome = true
  /-- The default branch of `failPending` has not been taken. -/
  default_unused : c.missed = 0
  /-- A daemon result or daemon error is the one of the first frame with the
  caller's own id. -/
  first_frame : ∀ (k : Nat) (call : Call) (out : Except SendError SendResult),
    c.calls[k]? = some call → call.pc = .returned out → FromDaemon cfg out →
    ∃ id f, call.id = some id ∧ firstFrame c.frames id = some f ∧ f.response.outcome = out
  /-- A registered call has an empty channel. -/
  pending_empty : ∀ (id : String) (k : Nat), (id, k) ∈ c.pending →
    ∃ call, c.calls[k]? = some call ∧ call.id = some id ∧ call.ch = none

theorem DemuxInv.one_put (h : DemuxInv cfg c) (hcall : c.calls[k]? = some call) :
    call.puts.length ≤ 1 := by
  rcases h.router.filled k call.slot (Client.router_slot hcall) with hu | ⟨v, hp, _⟩
  · rw [show call.puts = [] from hu.2]
    exact Nat.zero_le 1
  · rw [show call.puts = [v] from hp]
    exact Nat.le_refl 1

theorem DemuxInv.reader_free (h : DemuxInv cfg c) {conn : Nat} {resp : RpcResponse}
    (hl : c.loop = .delivering conn k resp) : (c.step cfg (.loop .deliver)).isSome = true := by
  have hhand : c.router.hand = some (k, resp) := congrArg LoopPc.hand hl
  obtain ⟨s, _, hs, _, hu, _⟩ := h.router.held k resp hhand
  obtain ⟨call, hcall, rfl⟩ := Client.of_router_slot hs
  have hch : call.ch = none := hu.1
  simp [Client.step, Client.loopStep, hl, hcall, hch]

/-- A value that `sendAwait` has taken for the daemon's is the first frame's. -/
theorem DemuxInv.first_frame (h : DemuxInv cfg c) (hcall : c.calls[k]? = some call)
    {out : Except SendError SendResult} (hout : call.pc.result? = some out)
    (hd : FromDaemon cfg out) :
    ∃ id f, call.id = some id ∧ firstFrame c.frames id = some f ∧ f.replyId? = some id ∧
      f.response.outcome = out := by
  obtain ⟨x, hx, rfl⟩ := (h.sound k call hcall).result out hout hd
  rcases h.router.filled k call.slot (Client.router_slot hcall) with hu | ⟨v, hp, _, hv⟩
  · rw [show call.puts = [] from hu.2] at hx
    cases hx
  · rw [show call.puts = [v] from hp] at hx
    obtain rfl := List.mem_singleton.mp hx
    rcases hv with rfl | ⟨id, hid, hfirst⟩
    · -- `failPending`'s value gives `ErrDisconnected`
      exact absurd hd id
    · obtain ⟨f, hf, hreply, rfl⟩ := firstFrame_of_first hfirst
      exact ⟨id, f, hid, hf, hreply, rfl⟩

theorem DemuxInv.pending_empty (h : DemuxInv cfg c) {id : String} (hp : (id, k) ∈ c.pending) :
    ∃ call, c.calls[k]? = some call ∧ call.id = some id ∧ call.ch = none := by
  obtain ⟨⟨s, hs, hk, hu⟩, _⟩ := h.router.entry id k hp
  obtain ⟨call, hcall, rfl⟩ := Client.of_router_slot hs
  exact ⟨call, hcall, hk, hu.1⟩

theorem demuxInv_run {tr : List ClientLabel}
    (h : RunOf (Client.step cfg) FreshIds Client.init tr c) : DemuxInv cfg c :=
  h.invariant demuxInv_init fun _ _ _ hi hok hstep => hi.step hok hstep

/-- **The demultiplexer is safe** in every run in which request ids are fresh:
whatever the daemon sends, and however callers, reader and `failPending`
interleave. -/
theorem demux_safe {tr : List ClientLabel}
    (h : RunOf (Client.step cfg) FreshIds Client.init tr c) : DemuxSafe cfg c where
  one_put := fun _ _ hcall => (demuxInv_run h).one_put hcall
  reader_free := fun _ _ _ hl => (demuxInv_run h).reader_free hl
  default_unused := (demuxInv_run h).router.missed
  first_frame := fun _ _ _ hcall hpc hd => by
    obtain ⟨id, f, hid, hf, _, hout⟩ := (demuxInv_run h).first_frame hcall (by rw [hpc]; rfl) hd
    exact ⟨id, f, hid, hf, hout⟩
  pending_empty := fun _ _ hp => (demuxInv_run h).pending_empty hp

/-- The steps of a caller up to its `select`. -/
def sendSteps (k : Nat) (id : String) : List ClientLabel :=
  [.send k .snapshot, .send k .gateOpen, .send k (.register id), .send k .lockWrite,
    .send k .snapConn, .send k (.write none)]

/-- A reply with a timestamp. -/
def timestampReply (id timestamp : String) : Line :=
  .json (.obj [("id", .str id), ("result", .obj [("timestamp", .num timestamp)])])

/-- Two calls wait when the reply to the second one arrives, twice, with a frame
for an unknown id between.  The connection ends with the first call pending. -/
def crossedReplies : List ClientLabel :=
  ([.loop .check, .loop .dialOk, .loop .publish,
    .call { account := "+1", message := "a", attachments := [] },
    .call { account := "+1", message := "b", attachments := [] }] : List ClientLabel) ++
  sendSteps 0 "id-a" ++ sendSteps 1 "id-b" ++
  ([.loop (.readLine (timestampReply "id-b" "1700")), .loop .deliver,
    .loop (.readLine (timestampReply "id-x" "1")),
    .loop (.readLine (timestampReply "id-b" "1800")), .send 1 .awaitResp, .send 1 .unregister,
    .loop .readEnd, .loop .failPending, .send 0 .awaitResp,
    .send 0 .unregister] : List ClientLabel)

theorem crossedReplies_demux_safe :
    ∃ c, RunOf (Client.step ⟨false⟩) FreshIds Client.init crossedReplies c ∧
      (∃ call raw, c.calls[1]? = some call ∧ call.pc = .returned (.ok ⟨1700, raw⟩)) ∧
      DemuxSafe ⟨false⟩ c := by
  have hr : RunOf (Client.step ⟨false⟩) FreshIds Client.init crossedReplies _ :=
    runOf_of_execOf rfl
  exact ⟨_, hr, ⟨_, _, rfl, rfl⟩, demux_safe hr⟩

end Signalium
