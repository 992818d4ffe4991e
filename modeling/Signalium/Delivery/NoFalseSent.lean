import Signalium.Delivery.System

/-!
# No false SENT

A row that says `SENT` has been confirmed by the daemon: a dispatch of that very row
has called `Send` with what `BuildSendParams` made of it, the daemon has received the
request of this call and sent a reply without an error under its id, and `result_id`
is the timestamp of such a reply (`no_false_sent`).  Another row with the same text
and target has requests of its own, under other ids.

The argument follows a result backwards.  `MarkSent` writes what a dispatch got
from `Send` (`LinkInv.result`).  `Send` returns what the first frame with the
request's id said, which is the demultiplexer's safety.  The daemon replies only
to requests it has received, request ids are fresh, so this frame answers the
request of the same call (`LinkInv.received_call`), and the parameters of the
call were built from the row its dispatch has claimed (`LinkInv.built`).
-/

namespace Signalium

open Runs Replies

variable {wcfg : WorkerConfig} {cfg : TCPConfig} {s s' : Delivery} {a : DeliveryLabel}

/-- What is assumed of the environment: request ids are fresh, the daemon replies
only to ids it has received, and nobody overrides a status. -/
def Assumed (s : Delivery) : DeliveryLabel → Prop
  | .outbox a => NoOverride s.outbox a
  | .client a => ∀ id ∈ a.draws?, ∀ call ∈ s.client.calls, call.id ≠ some id
  | .reply line => ∀ f ∈ line.frame?, ∀ id ∈ f.replyId?, ∃ p ∈ s.received, p.1 = id
  | _ => True

instance (s : Delivery) : (a : DeliveryLabel) → Decidable (Assumed s a)
  | .outbox a => inferInstanceAs (Decidable (NoOverride s.outbox a))
  | .client a => inferInstanceAs
      (Decidable (∀ id ∈ a.draws?, ∀ call ∈ s.client.calls, call.id ≠ some id))
  | .reply line => inferInstanceAs
      (Decidable (∀ f ∈ line.frame?, ∀ id ∈ f.replyId?, ∃ p ∈ s.received, p.1 = id))
  | .send _ | .returned _ | .receive _ | .read _ => .isTrue trivial

/-- The call of `Send` at place `k` was made for the message: by a dispatch of its row,
and with parameters built from it. -/
structure MadeFor (account : String) (s : Delivery) (m : SignalMessage) (k : Nat) (call : Call) :
    Prop where
  place : s.client.calls[k]? = some call
  caller : ∃ i d, s.callers[k]? = some i ∧ s.outbox.dispatches[i]? = some d ∧ d.msg.id = m.id
  built : ∃ paths, buildSendParams account m paths = .ok call.params

/-- The daemon has received the request of a call that was made for the message, it has
sent a reply without an error to it, and `resultId` renders the timestamp of this
reply. -/
def Confirmed (account : String) (s : Delivery) (m : SignalMessage) (resultId : String) : Prop :=
  ∃ k call id, MadeFor account s m k call ∧ call.id = some id ∧ (id, call.params) ∈ s.received ∧
    ∃ line ∈ s.sent, ∃ f, line.frame? = some f ∧ f.id = some id ∧ f.error = none ∧
      resultId = (SendResult.ofReply f.result).resultID

/-- Every row that is `SENT` has been confirmed. -/
def NoFalseSent (account : String) (s : Delivery) : Prop :=
  ∀ r ∈ s.outbox.table, r.status = .sent →
    ∃ resultId, r.resultId = some resultId ∧ Confirmed account s (rowToDomain r) resultId

/-! ## Confirmations -/

theorem MadeFor.step {account : String} {m : SignalMessage} {k : Nat} {call : Call}
    (h : MadeFor account s m k call) (hdemux : DemuxInv cfg s.client)
    (hm : DeliveryMove wcfg cfg s a s') :
    ∃ call', MadeFor account s' m k call' ∧ call'.params = call.params ∧
      ∀ id, call.id = some id → call'.id = some id := by
  obtain ⟨call', hcall', hparams, hid⟩ := hm.call_stays hdemux h.place
  obtain ⟨i, d, hi, hd, hmsg⟩ := h.caller
  obtain ⟨d', hd', hmsg'⟩ := hm.dispatch_stays hd
  refine ⟨call', ⟨hcall', ⟨i, d', hm.caller_stays hi, hd', ?_⟩, ?_⟩, hparams, hid⟩
  · rw [hmsg', hmsg]
  · rw [hparams]
    exact h.built

theorem Confirmed.step {account resultId : String} {m : SignalMessage}
    (h : Confirmed account s m resultId) (hdemux : DemuxInv cfg s.client)
    (hm : DeliveryMove wcfg cfg s a s') : Confirmed account s' m resultId := by
  obtain ⟨k, call, id, hmade, hid, hrec, line, hline, hreply⟩ := h
  obtain ⟨call', hmade', hparams, hid'⟩ := hmade.step hdemux hm
  refine ⟨k, call', id, hmade', hid' id hid, ?_, line, hm.histories.1 line hline, hreply⟩
  rw [hparams]
  exact hm.histories.2 _ hrec

/-- The parameters depend on columns that stay as they are. -/
theorem buildSendParams_fixed {account : String} {m m' : SignalMessage} (paths : List String)
    (h : m.fixed = m'.fixed) :
    buildSendParams account m paths = buildSendParams account m' paths := by
  injection h
  exact buildSendParams_congr ‹_› ‹_› ‹_› ‹_› ‹_›

theorem Confirmed.of_fixed {account resultId : String} {m m' : SignalMessage}
    (h : Confirmed account s m resultId) (hfix : m.fixed = m'.fixed) :
    Confirmed account s m' resultId := by
  obtain ⟨k, call, id, ⟨hcall, ⟨i, d, hi, hd, hmsg⟩, ⟨paths, hb⟩⟩, hrest⟩ := h
  refine ⟨k, call, id, ⟨hcall, ⟨i, d, hi, hd, ?_⟩, ⟨paths, ?_⟩⟩, hrest⟩
  · rw [hmsg, SignalMessage.id_eq_of_fixed hfix]
  · rw [← buildSendParams_fixed paths hfix]
    exact hb

/-! ## Phases -/

/-- The parameters a dispatch is about to send, or sends. -/
def Phase.params? : Phase → Option SendParams
  | .ready params | .sending params => some params
  | _ => none

/-- The result a dispatch is about to record. -/
def Phase.result? : Phase → Option SendResult
  | .marking res _ | .sleeping res _ _ => some res
  | _ => none

theorem ActStep.params {now : Int} {d d' : Dispatch} {ac : Act} {params : SendParams}
    (h : ActStep wcfg now d ac d') (hp : d'.phase.params? = some params) :
    d.phase.params? = some params ∨
      ∃ paths, buildSendParams wcfg.account d.msg paths = .ok params := by
  cases h with
  | built _ hb => cases hp; exact Or.inr ⟨_, hb⟩
  | send hphase => cases hp; exact Or.inl (by rw [hphase]; rfl)
  | cancel => exact Or.inl hp
  | markSent =>
      simp only [Dispatch.afterMarkSent] at hp
      split at hp
      · cases hp
      · split at hp <;> cases hp
  | markFailed =>
      simp only [Dispatch.afterMarkFailed] at hp
      split at hp <;> cases hp
  | _ => cases hp

theorem ActStep.result {now : Int} {d d' : Dispatch} {ac : Act} {res : SendResult}
    (h : ActStep wcfg now d ac d') (hr : d'.phase.result? = some res) :
    d.phase.result? = some res ∨ ac = .sendReturned (.ok res) := by
  cases h with
  | delivered => cases hr; exact Or.inr rfl
  | woken hphase => cases hr; exact Or.inl (by rw [hphase]; rfl)
  | cancel => exact Or.inl hr
  | markSent hphase =>
      simp only [Dispatch.afterMarkSent] at hr
      split at hr
      · cases hr
      · split at hr
        · cases hr
          exact Or.inl (by rw [hphase]; rfl)
        · cases hr
  | markFailed =>
      simp only [Dispatch.afterMarkFailed] at hr
      split at hr <;> cases hr
  | _ => cases hr

/-- The result of a dispatch after a step of the outbox. -/
theorem Outbox.result_step {o o' : Outbox} {b : Label} {i : Nat} {d' : Dispatch} {res : SendResult}
    (h : o.step wcfg b = some o') (hd' : o'.dispatches[i]? = some d')
    (hr : d'.phase.result? = some res) :
    ∃ d, o.dispatches[i]? = some d ∧ d'.msg = d.msg ∧
      (d.phase.result? = some res ∨ b = .dispatch i (.sendReturned (.ok res))) := by
  rcases Outbox.dispatch_step h hd' with ⟨d, hd, hev⟩ | ⟨_, _, _, _, _, rfl⟩
  · refine ⟨d, hd, hev.msg_eq, ?_⟩
    rcases hev.cases_act with ⟨ac, rfl, _, hact⟩ | ⟨_, hphase, _⟩
    · exact (hact.result hr).imp_right fun h => by rw [h]
    · exact Or.inl (hphase ▸ hr)
  · cases hr

/-- The parameters of a dispatch after a step of the outbox. -/
theorem Outbox.params_step {o o' : Outbox} {b : Label} {i : Nat} {d' : Dispatch}
    {params : SendParams} (h : o.step wcfg b = some o') (hd' : o'.dispatches[i]? = some d')
    (hp : d'.phase.params? = some params) :
    (∃ d, o.dispatches[i]? = some d ∧ d'.msg = d.msg ∧ d.phase.params? = some params) ∨
      ∃ paths, buildSendParams wcfg.account d'.msg paths = .ok params := by
  rcases Outbox.dispatch_step h hd' with ⟨d, hd, hev⟩ | ⟨_, _, _, _, _, rfl⟩
  · rcases hev.cases_act with ⟨ac, rfl, _, hact⟩ | ⟨_, hphase, _⟩
    · exact (hact.params hp).imp (fun h => ⟨d, hd, hev.msg_eq, h⟩) fun h => hev.msg_eq ▸ h
    · exact Or.inl ⟨d, hd, hev.msg_eq, hphase ▸ hp⟩
  · cases hp

/-- A dispatch has its result from before, or from the call it has made. -/
theorem DeliveryMove.of_result (h : DeliveryMove wcfg cfg s a s') {i : Nat} {d' : Dispatch}
    {res : SendResult} (hd' : s'.outbox.dispatches[i]? = some d')
    (hr : d'.phase.result? = some res) :
    (∃ d, s.outbox.dispatches[i]? = some d ∧ d'.msg = d.msg ∧ d.phase.result? = some res) ∨
      ∃ (k : Nat) (call : Call) (d : Dispatch), s.callers[k]? = some i ∧
        s.client.calls[k]? = some call ∧ call.pc = .returned (.ok res) ∧
        s.outbox.dispatches[i]? = some d ∧ d'.msg = d.msg := by
  cases h with
  | outbox hb ho =>
      obtain ⟨d, hd, hmsg, hold | rfl⟩ := Outbox.result_step ho hd' hr
      · exact Or.inl ⟨d, hd, hmsg, hold⟩
      · cases hb
  | send _ _ ho _ =>
      obtain ⟨d, hd, hmsg, hold | hl⟩ := Outbox.result_step ho hd' hr
      · exact Or.inl ⟨d, hd, hmsg, hold⟩
      · cases hl
  | @returned k j call r o hj hcall hpc ho =>
      obtain ⟨d, hd, hmsg, hold | hl⟩ := Outbox.result_step ho hd' hr
      · exact Or.inl ⟨d, hd, hmsg, hold⟩
      · injection hl with hji hres
        subst hji
        cases r with
        | error e => cases hres
        | ok res₀ =>
            cases hres
            exact Or.inr ⟨k, call, d, hj, hcall, hpc, hd, hmsg⟩
  | _ => exact Or.inl ⟨d', hd', rfl, hr⟩

/-- A row becomes `SENT` by the mark of a dispatch of this row, with the result of
this dispatch. -/
theorem Outbox.sent_step {o o' : Outbox} {b : Label} {r' : Row} (h : o.step wcfg b = some o')
    (hb : NoOverride o b) (hr' : r' ∈ o'.table) (hsent : r'.status = .sent) :
    ∃ r ∈ o.table, (rowToDomain r').fixed = (rowToDomain r).fixed ∧
      (r.status = .sent ∧ r'.resultId = r.resultId ∨
        ∃ (i : Nat) (d : Dispatch) (res : SendResult), o.dispatches[i]? = some d ∧
          d.msg.id = r.id ∧ d.phase.result? = some res ∧ r'.resultId = some res.resultID) := by
  rcases Outbox.mem_step h hr' with ⟨r, hr, rfl⟩ | ⟨id, p, _, rfl, _⟩
  · refine ⟨r, hr, Outbox.effect_fixed wcfg b hr, ?_⟩
    rcases Outbox.effect_step wcfg b hr with heq | ⟨st, hex, hstep⟩
    · rw [heq] at hsent ⊢
      exact Or.inl ⟨hsent, rfl⟩
    · generalize o.effect wcfg b r = r' at hstep hsent ⊢
      cases hstep with
      | unchanged => exact Or.inl ⟨hsent, rfl⟩
      | claimed => cases hsent
      | sent =>
          obtain ⟨i, d, res, k, rep, _, _, hd, hid, _, hphase, rfl⟩ := hex.markSent_inv
          exact Or.inr ⟨i, d, res, hd, hid, by rw [hphase]; rfl, rfl⟩
      | failed =>
          simp only [Row.markFailed] at hsent
          split at hsent <;> cases hsent
      | timedOut => cases hsent
      | resent => cases hsent
      | updated => exact absurd hex.updateStatus_inv (hb _ _)
  · cases hsent

/-- A frame that gives a result has no error member. -/
theorem RpcFrame.response_ok {f : RpcFrame} {res : SendResult}
    (h : f.response.outcome = .ok res) : f.error = none ∧ res = SendResult.ofReply f.result := by
  simp only [RpcFrame.response, RpcResponse.outcome, Bool.false_eq_true, if_false] at h
  cases he : f.error with
  | some e => rw [he] at h; cases h
  | none => rw [he] at h; cases h; exact ⟨rfl, rfl⟩

/-! ## Calls and dispatches -/

/-- Every call has a caller. -/
theorem DeliveryMove.callers_length (hm : DeliveryMove wcfg cfg s a s')
    (h : s.callers.length = s.client.calls.length) :
    s'.callers.length = s'.client.calls.length := by
  cases hm with
  | send _ _ _ hc =>
      cases Client.step_move hc
      simp [h]
  | client hb hc =>
      rw [(Client.step_move hc).calls_length (by rintro params rfl; cases hb)]
      exact h
  | read _ hc =>
      rw [(Client.step_move hc).calls_length (by rintro params hl; cases hl)]
      exact h
  | _ => exact h

/-- What a dispatch sends was built from its message. -/
theorem DeliveryMove.prepared_stays (hm : DeliveryMove wcfg cfg s a s')
    (h : ∀ (i : Nat) (d : Dispatch) (params : SendParams), s.outbox.dispatches[i]? = some d →
      d.phase.params? = some params →
      ∃ paths, buildSendParams wcfg.account d.msg paths = .ok params)
    {i : Nat} {d' : Dispatch} {params : SendParams} (hd' : s'.outbox.dispatches[i]? = some d')
    (hp : d'.phase.params? = some params) :
    ∃ paths, buildSendParams wcfg.account d'.msg paths = .ok params := by
  rcases hm.outbox_step with heq | ⟨b, hb, _⟩
  · rw [heq] at hd'
    exact h i d' params hd' hp
  · rcases Outbox.params_step hb hd' hp with ⟨d, hd, hmsg, hp₀⟩ | hbuilt
    · rw [hmsg]
      exact h i d params hd hp₀
    · exact hbuilt

/-- What a call sends was built from the message of its dispatch. -/
theorem DeliveryMove.built_stays (hm : DeliveryMove wcfg cfg s a s')
    (hlen : s.callers.length = s.client.calls.length)
    (hprepared : ∀ (i : Nat) (d : Dispatch) (params : SendParams),
      s.outbox.dispatches[i]? = some d → d.phase.params? = some params →
      ∃ paths, buildSendParams wcfg.account d.msg paths = .ok params)
    (h : ∀ (k i : Nat) (call : Call), s.callers[k]? = some i → s.client.calls[k]? = some call →
      ∃ d paths, s.outbox.dispatches[i]? = some d ∧
        buildSendParams wcfg.account d.msg paths = .ok call.params)
    {k i : Nat} {call' : Call} (hi : s'.callers[k]? = some i)
    (hcall' : s'.client.calls[k]? = some call') :
    ∃ d paths, s'.outbox.dispatches[i]? = some d ∧
      buildSendParams wcfg.account d.msg paths = .ok call'.params := by
  -- the dispatch of the call, before the step
  have hbefore : ∃ d paths, s.outbox.dispatches[i]? = some d ∧
      buildSendParams wcfg.account d.msg paths = .ok call'.params := by
    rcases hm.of_call hcall' with ⟨call, hcall, hparams⟩ | ⟨j, d, rfl, hd, hphase, hk⟩
    · rw [hparams]
      exact h k i call (hm.of_caller hlen hcall hi) hcall
    · obtain ⟨paths, hb⟩ := hprepared j d call'.params hd (by rw [hphase]; rfl)
      rw [hk, ← hlen, hm.last_caller] at hi
      cases hi
      exact ⟨d, paths, hd, hb⟩
  obtain ⟨d, paths, hd, hb⟩ := hbefore
  obtain ⟨d', hd', hmsg⟩ := hm.dispatch_stays hd
  exact ⟨d', paths, hd', by rw [hmsg]; exact hb⟩

/-! ## The invariant -/

/-- What ties the parts of the system together. -/
structure LinkInv (wcfg : WorkerConfig) (cfg : TCPConfig) (s : Delivery) : Prop where
  demux : DemuxInv cfg s.client
  owned : Owned s.outbox
  callers_length : s.callers.length = s.client.calls.length
  /-- What a dispatch sends was built from its message. -/
  prepared : ∀ (i : Nat) (d : Dispatch) (params : SendParams), s.outbox.dispatches[i]? = some d →
    d.phase.params? = some params →
    ∃ paths, buildSendParams wcfg.account d.msg paths = .ok params
  /-- What a call sends was built from the message of its dispatch. -/
  built : ∀ (k i : Nat) (call : Call), s.callers[k]? = some i → s.client.calls[k]? = some call →
    ∃ d paths, s.outbox.dispatches[i]? = some d ∧
      buildSendParams wcfg.account d.msg paths = .ok call.params
  /-- What the daemon has received is the request of a call. -/
  received_call : ∀ p ∈ s.received, ∃ (k : Nat) (call : Call), s.client.calls[k]? = some call ∧
    call.id = some p.1 ∧ call.params = p.2
  sent_received : ∀ line ∈ s.sent, ∀ f id, line.frame? = some f → f.replyId? = some id →
    ∃ p ∈ s.received, p.1 = id
  frame_sent : ∀ f ∈ s.client.frames, ∃ line ∈ s.sent, line.frame? = some f
  /-- What a dispatch records has been confirmed. -/
  result : ∀ (i : Nat) (d : Dispatch) (res : SendResult), s.outbox.dispatches[i]? = some d →
    d.phase.result? = some res → Confirmed wcfg.account s d.msg res.resultID
  rows : NoFalseSent wcfg.account s

theorem linkInv_init : LinkInv wcfg cfg Delivery.init where
  demux := demuxInv_init
  owned := owned_init
  callers_length := rfl
  prepared := fun i d params hd => by cases hd
  built := fun k i call hi => by cases hi
  received_call := fun p hp => by cases hp
  sent_received := fun line hline => by cases hline
  frame_sent := fun f hf => by cases hf
  result := fun i d res hd => by cases hd
  rows := fun r hr => by cases hr

/-- Request ids are fresh for the client as well: no frame it has seen carries an
id that no call has. -/
theorem LinkInv.freshIds (h : LinkInv wcfg cfg s) {b : ClientLabel}
    (hb : ∀ id ∈ b.draws?, ∀ call ∈ s.client.calls, call.id ≠ some id) : FreshIds s.client b := by
  intro id hid
  refine ⟨fun slot hslot => ?_, fun p hp hpid => ?_⟩
  · obtain ⟨call, hcall, rfl⟩ := List.mem_map.mp hslot
    exact hb id hid call hcall
  · obtain ⟨f, hf, hreply⟩ := List.mem_filterMap.mp hp
    obtain ⟨id', hid', rfl⟩ := Option.map_eq_some_iff.mp hreply
    obtain ⟨line, hline, hframe⟩ := h.frame_sent f hf
    obtain ⟨q, hq, hqid⟩ := h.sent_received line hline f id' hframe hid'
    obtain ⟨k, call, hcall, hcid, _⟩ := h.received_call q hq
    refine hb id hid call (List.mem_of_getElem? hcall) ?_
    rw [hcid, hqid]
    exact congrArg some hpid

/-- What a call returns from the daemon has been confirmed for its dispatch. -/
theorem LinkInv.confirmed (h : LinkInv wcfg cfg s) (hcfg : cfg.ignoreResults = false)
    {k i : Nat} {call : Call} {d : Dispatch} {res : SendResult} (hi : s.callers[k]? = some i)
    (hcall : s.client.calls[k]? = some call) (hd : s.outbox.dispatches[i]? = some d)
    (hpc : call.pc = .returned (.ok res)) : Confirmed wcfg.account s d.msg res.resultID := by
  obtain ⟨id, f, hid, hfirst, hreply, hout⟩ :=
    h.demux.first_frame hcall (by rw [hpc]; rfl) (show FromDaemon cfg (.ok res) from hcfg)
  have hframe : f ∈ s.client.frames := List.mem_of_find?_eq_some hfirst
  have hfid : f.id = some id := by simpa using List.find?_some hfirst
  obtain ⟨line, hline, hlf⟩ := h.frame_sent f hframe
  obtain ⟨⟨id', params⟩, hp, rfl⟩ := h.sent_received line hline f id hlf hreply
  obtain ⟨k', call', hcall', hid', hparams⟩ := h.received_call _ hp
  -- ids are unique, so the request the daemon has received is the one of this call
  obtain rfl := h.demux.router.unique k k' call.slot call'.slot id' (Client.router_slot hcall)
    (Client.router_slot hcall') hid hid'
  rw [hcall] at hcall'
  cases hcall'
  obtain ⟨d', paths, hd', hb⟩ := h.built k i call hi hcall
  rw [hd] at hd'
  cases hd'
  obtain ⟨herr, hres⟩ := RpcFrame.response_ok hout
  have hmade : MadeFor wcfg.account s d.msg k call := ⟨hcall, ⟨i, d, hi, hd, rfl⟩, ⟨paths, hb⟩⟩
  refine ⟨k, call, id', hmade, hid, ?_, line, hline, f, hlf, hfid, herr, by rw [hres]⟩
  rw [hparams]
  exact hp

theorem Label.noOverride_of_isSend {o : Outbox} {b : Label} (h : b.isSend = true) :
    NoOverride o b := by
  rintro id status rfl
  cases h

theorem LinkInv.move (hcfg : cfg.ignoreResults = false) (h : LinkInv wcfg cfg s)
    (ha : Assumed s a) (hm : DeliveryMove wcfg cfg s a s') : LinkInv wcfg cfg s' where
  demux := by
    rcases hm.client_step with heq | ⟨b, hb, hdraws⟩
    · rw [heq]
      exact h.demux
    · refine h.demux.step (h.freshIds fun id hid => ?_) hb
      have hlabel := hdraws id hid
      subst hlabel
      exact ha id hid
  owned := by
    rcases hm.outbox_step with heq | ⟨b, hb, _⟩
    · rw [heq]
      exact h.owned
    · exact h.owned.step hb
  callers_length := hm.callers_length h.callers_length
  prepared := fun _ _ _ => hm.prepared_stays h.prepared
  built := fun _ _ _ => hm.built_stays h.callers_length h.prepared h.built
  received_call := by
    have hstays : ∀ {p : String × SendParams} {k : Nat} {call : Call},
        s.client.calls[k]? = some call → call.id = some p.1 → call.params = p.2 →
        ∃ (k : Nat) (call : Call), s'.client.calls[k]? = some call ∧ call.id = some p.1 ∧
          call.params = p.2 := by
      intro p k call hcall hid hparams
      obtain ⟨call', hcall', hp', hid'⟩ := hm.call_stays h.demux hcall
      exact ⟨k, call', hcall', hid' _ hid, hp'.trans hparams⟩
    intro p hp
    rcases hm.of_received hp with hold | ⟨k, call, hcall, hid, hparams⟩
    · obtain ⟨k, call, hcall, hid, hparams⟩ := h.received_call p hold
      exact hstays hcall hid hparams
    · exact hstays hcall hid hparams
  sent_received := by
    have hgrow : ∀ {id : String}, (∃ p ∈ s.received, p.1 = id) → ∃ p ∈ s'.received, p.1 = id :=
      fun ⟨p, hp, hid⟩ => ⟨p, hm.histories.2 p hp, hid⟩
    intro line hline f id hf hid
    rcases hm.of_sent hline with hold | rfl
    · exact hgrow (h.sent_received line hold f id hf hid)
    · exact hgrow (ha f hf id hid)
  frame_sent := by
    have hgrow : ∀ {f : RpcFrame}, (∃ line ∈ s.sent, line.frame? = some f) →
        ∃ line ∈ s'.sent, line.frame? = some f :=
      fun ⟨line, hline, hf⟩ => ⟨line, hm.histories.1 line hline, hf⟩
    intro f hf
    rcases hm.of_frame hf with hold | hread
    · exact hgrow (h.frame_sent f hold)
    · exact hgrow hread
  result := by
    intro i d' res hd' hr
    rcases hm.of_result hd' hr with ⟨d, hd, hmsg, hr₀⟩ | ⟨k, call, d, hi, hcall, hpc, hd, hmsg⟩
    · rw [hmsg]
      exact (h.result i d res hd hr₀).step h.demux hm
    · rw [hmsg]
      exact (h.confirmed hcfg hi hcall hd hpc).step h.demux hm
  rows := by
    intro r' hr' hsent
    rcases hm.outbox_step with heq | ⟨b, hb, hlabel⟩
    · rw [heq] at hr'
      obtain ⟨resultId, hres, hconf⟩ := h.rows r' hr' hsent
      exact ⟨resultId, hres, hconf.step h.demux hm⟩
    · have hover : NoOverride s.outbox b := by
        rcases hlabel with rfl | hsend
        · exact ha
        · exact Label.noOverride_of_isSend hsend
      obtain ⟨r, hr, hfix, ⟨hold, hres⟩ | ⟨i, d, res, hd, hid, hphase, hres⟩⟩ :=
        Outbox.sent_step hb hover hr' hsent
      · obtain ⟨resultId, hres₀, hconf⟩ := h.rows r hr hold
        exact ⟨resultId, hres.trans hres₀, (hconf.step h.demux hm).of_fixed hfix.symm⟩
      · have hfix' := h.owned.fixed_eq hd hr hid.symm
        exact ⟨res.resultID, hres,
          ((h.result i d res hd hphase).step h.demux hm).of_fixed (hfix'.symm.trans hfix.symm)⟩

/-- **No false SENT.**  In every run of workers, client, reaper and operators in
which request ids are fresh, the daemon replies only to requests it has received
and nobody overrides a status, every row that is `SENT` has been confirmed by the
daemon, in reply to a call that a dispatch of this row has made, with the `result_id`
the daemon gave. -/
theorem no_false_sent {tr : List DeliveryLabel} (hcfg : cfg.ignoreResults = false)
    (h : RunOf (Delivery.step wcfg cfg) Assumed Delivery.init tr s) :
    NoFalseSent wcfg.account s :=
  (h.invariant linkInv_init fun _ _ _ hi ha hs =>
    hi.move hcfg ha (Delivery.step_move hs)).rows

/-- A message is claimed and sent, the daemon confirms it, and the row is marked. -/
def confirmedSend : List DeliveryLabel :=
  ([.outbox (.insert "m-1" plainParams), .outbox (.claim [] .committed),
    .outbox (.dispatch 0 .start), .outbox (.dispatch 0 (.downloaded (.ok []))),
    .client (.loop .check), .client (.loop .dialOk), .client (.loop .publish),
    .send 0] : List DeliveryLabel) ++
  (sendSteps 0 "id-1").map .client ++
  ([.receive 0, .reply (timestampReply "id-1" "1700000001"), .read 0, .client (.loop .deliver),
    .client (.send 0 .awaitResp), .client (.send 0 .unregister), .returned 0,
    .outbox (.dispatch 0 (.markSent .committed))] : List DeliveryLabel)

theorem confirmedSend_no_false_sent :
    ∃ s, RunOf (Delivery.step defaultConfig ⟨false⟩) Assumed Delivery.init confirmedSend s ∧
      (∃ r ∈ s.outbox.table, r.status = .sent ∧ r.resultId = some "1700000001") ∧
      NoFalseSent defaultConfig.account s := by
  have hr : RunOf (Delivery.step defaultConfig ⟨false⟩) Assumed Delivery.init confirmedSend _ :=
    runOf_of_execOf rfl
  exact ⟨_, hr, ⟨_, List.mem_cons_self, rfl, rfl⟩, no_false_sent rfl hr⟩

end Signalium
