import Signalium.Signal.Demux
import Signalium.Worker.Steps

/-!
# Workers, client and daemon

The outbox and the TCP client as one system, with the daemon at the other end of
the connection.

* A dispatch that calls `Send` starts a call of the client, and gets the result
  of that call when it has returned.  `callers` says which dispatch has made
  which call.
* The daemon receives requests and sends lines.  `received` and `sent` are its
  histories.  It may receive the request of any call that is registered, whatever
  became of the write, and it may receive it never or more than once.
* The reader reads lines the daemon has sent, in any order and on any connection:
  lines are lost, late, or read again.

All other steps are those of the outbox and of the client.
-/

namespace Signalium

open Runs Replies

/-- The system. -/
structure Delivery where
  outbox : Outbox
  client : Client
  /-- The dispatch that has made each call of the client. -/
  callers : List Nat
  /-- The requests the daemon has received: id and parameters. -/
  received : List (String × SendParams)
  /-- The lines the daemon has sent. -/
  sent : List Line

def Delivery.init : Delivery := ⟨Outbox.init, Client.init, [], [], []⟩

/-- A step of the system. -/
inductive DeliveryLabel where
  | outbox (a : Label)
  /-- A dispatch calls `Send`. -/
  | send (i : Nat)
  /-- A call of `Send` returns to its dispatch. -/
  | returned (k : Nat)
  | client (a : ClientLabel)
  /-- The daemon receives the request of a call. -/
  | receive (k : Nat)
  /-- The daemon sends a line. -/
  | reply (line : Line)
  /-- The client reads a line the daemon has sent. -/
  | read (n : Nat)
deriving Repr

/-- The step of the outbox concerns the client as well. -/
def Label.isSend : Label → Bool
  | .dispatch _ .send | .dispatch _ (.sendReturned _) => true
  | _ => false

/-- The step of the client concerns the outbox or the daemon as well. -/
def ClientLabel.isShared : ClientLabel → Bool
  | .call _ | .loop (.readLine _) => true
  | _ => false

/-- One step of the system. -/
def Delivery.step (wcfg : WorkerConfig) (cfg : TCPConfig) (s : Delivery) :
    DeliveryLabel → Option Delivery
  | .outbox a =>
      if a.isSend then none
      else (s.outbox.step wcfg a).map fun o => { s with outbox := o }
  | .send i =>
      match s.outbox.dispatches[i]?.map Dispatch.phase with
      | some (.ready params) =>
          (s.outbox.step wcfg (.dispatch i .send)).bind fun o =>
            (s.client.step cfg (.call params)).map fun c =>
              { s with outbox := o, client := c, callers := s.callers ++ [i] }
      | _ => none
  | .returned k =>
      match s.callers[k]?, s.client.calls[k]?.map Call.pc with
      | some i, some (.returned r) =>
          (s.outbox.step wcfg (.dispatch i (.sendReturned (r.mapError SendError.text)))).map
            fun o => { s with outbox := o }
      | _, _ => none
  | .client a =>
      if a.isShared then none
      else (s.client.step cfg a).map fun c => { s with client := c }
  | .receive k =>
      s.client.calls[k]?.bind fun call =>
        call.id.map fun id => { s with received := s.received ++ [(id, call.params)] }
  | .reply line => some { s with sent := s.sent ++ [line] }
  | .read n =>
      s.sent[n]?.bind fun line =>
        (s.client.step cfg (.loop (.readLine line))).map fun c => { s with client := c }

variable {wcfg : WorkerConfig} {cfg : TCPConfig} {s s' : Delivery} {a : DeliveryLabel}

/-- What a step of the system can do. -/
inductive DeliveryMove (wcfg : WorkerConfig) (cfg : TCPConfig) (s : Delivery) :
    DeliveryLabel → Delivery → Prop where
  | outbox {a : Label} {o : Outbox} : a.isSend = false → s.outbox.step wcfg a = some o →
      DeliveryMove wcfg cfg s (.outbox a) { s with outbox := o }
  | send {i : Nat} {d : Dispatch} {params : SendParams} {o : Outbox} {c : Client} :
      s.outbox.dispatches[i]? = some d → d.phase = .ready params →
      s.outbox.step wcfg (.dispatch i .send) = some o →
      s.client.step cfg (.call params) = some c →
      DeliveryMove wcfg cfg s (.send i)
        { s with outbox := o, client := c, callers := s.callers ++ [i] }
  | returned {k i : Nat} {call : Call} {r : Except SendError SendResult} {o : Outbox} :
      s.callers[k]? = some i → s.client.calls[k]? = some call → call.pc = .returned r →
      s.outbox.step wcfg (.dispatch i (.sendReturned (r.mapError SendError.text))) = some o →
      DeliveryMove wcfg cfg s (.returned k) { s with outbox := o }
  | client {a : ClientLabel} {c : Client} : a.isShared = false → s.client.step cfg a = some c →
      DeliveryMove wcfg cfg s (.client a) { s with client := c }
  | receive {k : Nat} {call : Call} {id : String} : s.client.calls[k]? = some call →
      call.id = some id →
      DeliveryMove wcfg cfg s (.receive k)
        { s with received := s.received ++ [(id, call.params)] }
  | reply {line : Line} : DeliveryMove wcfg cfg s (.reply line) { s with sent := s.sent ++ [line] }
  | read {n : Nat} {line : Line} {c : Client} : s.sent[n]? = some line →
      s.client.step cfg (.loop (.readLine line)) = some c →
      DeliveryMove wcfg cfg s (.read n) { s with client := c }

theorem Delivery.step_move (h : s.step wcfg cfg a = some s') : DeliveryMove wcfg cfg s a s' := by
  cases a with
  | outbox a =>
      simp only [Delivery.step] at h
      split at h
      · cases h
      · next ha =>
          obtain ⟨o, ho, rfl⟩ := Option.map_eq_some_iff.mp h
          exact .outbox (by simpa using ha) ho
  | send i =>
      simp only [Delivery.step] at h
      split at h
      · next params hphase =>
          obtain ⟨d, hd, hp⟩ := Option.map_eq_some_iff.mp hphase
          obtain ⟨o, ho, hmap⟩ := Option.bind_eq_some_iff.mp h
          obtain ⟨c, hc, rfl⟩ := Option.map_eq_some_iff.mp hmap
          exact .send hd hp ho hc
      · cases h
  | returned k =>
      simp only [Delivery.step] at h
      split at h
      · next i r hi hpc =>
          obtain ⟨call, hcall, hr⟩ := Option.map_eq_some_iff.mp hpc
          obtain ⟨o, ho, rfl⟩ := Option.map_eq_some_iff.mp h
          exact .returned hi hcall hr ho
      · cases h
  | client a =>
      simp only [Delivery.step] at h
      split at h
      · cases h
      · next ha =>
          obtain ⟨c, hc, rfl⟩ := Option.map_eq_some_iff.mp h
          exact .client (by simpa using ha) hc
  | receive k =>
      obtain ⟨call, hcall, hmap⟩ := Option.bind_eq_some_iff.mp h
      obtain ⟨id, hid, rfl⟩ := Option.map_eq_some_iff.mp hmap
      exact .receive hcall hid
  | reply line => cases h; exact .reply
  | read n =>
      obtain ⟨line, hline, hmap⟩ := Option.bind_eq_some_iff.mp h
      obtain ⟨c, hc, rfl⟩ := Option.map_eq_some_iff.mp hmap
      exact .read hline hc

/-! ## The two parts -/

/-- The step of the outbox in a step of the system. -/
theorem DeliveryMove.outbox_step (h : DeliveryMove wcfg cfg s a s') :
    s'.outbox = s.outbox ∨
      ∃ b, s.outbox.step wcfg b = some s'.outbox ∧ (a = .outbox b ∨ b.isSend = true) := by
  cases h with
  | outbox _ ho => exact Or.inr ⟨_, ho, Or.inl rfl⟩
  | send _ _ ho _ => exact Or.inr ⟨_, ho, Or.inr rfl⟩
  | returned _ _ _ ho => exact Or.inr ⟨_, ho, Or.inr rfl⟩
  | _ => exact Or.inl rfl

/-- The step of the client in a step of the system. -/
theorem DeliveryMove.client_step (h : DeliveryMove wcfg cfg s a s') :
    s'.client = s.client ∨ ∃ b, s.client.step cfg b = some s'.client ∧
      ∀ id ∈ b.draws?, a = .client b := by
  cases h with
  | client _ hc => exact Or.inr ⟨_, hc, fun _ _ => rfl⟩
  | send _ _ _ hc => exact Or.inr ⟨_, hc, fun _ h => by cases h⟩
  | read _ hc => exact Or.inr ⟨_, hc, fun _ h => by cases h⟩
  | _ => exact Or.inl rfl

/-- A dispatch stays at its place, with its message. -/
theorem DeliveryMove.dispatch_stays (h : DeliveryMove wcfg cfg s a s') {i : Nat} {d : Dispatch}
    (hd : s.outbox.dispatches[i]? = some d) :
    ∃ d', s'.outbox.dispatches[i]? = some d' ∧ d'.msg = d.msg := by
  rcases h.outbox_step with heq | ⟨b, hb, _⟩
  · exact ⟨d, by rw [heq, hd], rfl⟩
  · obtain ⟨d', hd', hev⟩ := Outbox.dispatch_stays hb hd
    exact ⟨d', hd', hev.msg_eq⟩

/-- A call stays at its place, with its parameters and its id. -/
theorem DeliveryMove.call_stays (h : DeliveryMove wcfg cfg s a s') (hinv : DemuxInv cfg s.client)
    {k : Nat} {call : Call} (hcall : s.client.calls[k]? = some call) :
    ∃ call', s'.client.calls[k]? = some call' ∧ call'.params = call.params ∧
      ∀ id, call.id = some id → call'.id = some id := by
  rcases h.client_step with heq | ⟨b, hb, _⟩
  · exact ⟨call, by rw [heq, hcall], rfl, fun _ h => h⟩
  · obtain ⟨call', hcall', hev⟩ := (Client.step_move hb).call_stays hcall
    exact ⟨call', hcall', hev.params_eq, fun id => hev.id_eq (hinv.sound k call hcall)⟩

/-- A call of the new client was there, or a dispatch has just made it. -/
theorem DeliveryMove.of_call (h : DeliveryMove wcfg cfg s a s') {k : Nat} {call' : Call}
    (hcall' : s'.client.calls[k]? = some call') :
    (∃ call, s.client.calls[k]? = some call ∧ call'.params = call.params) ∨
      ∃ i d, a = .send i ∧ s.outbox.dispatches[i]? = some d ∧ d.phase = .ready call'.params ∧
        k = s.client.calls.length := by
  cases h with
  | @send i d params o c hd hphase _ hc =>
      rcases (Client.step_move hc).of_call hcall' with ⟨call, hcall, hev⟩ | ⟨_, hl, hk, rfl⟩
      · exact Or.inl ⟨call, hcall, hev.params_eq⟩
      · cases hl
        exact Or.inr ⟨i, d, rfl, hd, hphase, hk⟩
  | @client b c hb hc =>
      rcases (Client.step_move hc).of_call hcall' with ⟨call, hcall, hev⟩ | ⟨_, rfl, _⟩
      · exact Or.inl ⟨call, hcall, hev.params_eq⟩
      · cases hb
  | read _ hc =>
      rcases (Client.step_move hc).of_call hcall' with ⟨call, hcall, hev⟩ | ⟨_, hl, _⟩
      · exact Or.inl ⟨call, hcall, hev.params_eq⟩
      · cases hl
  | _ => exact Or.inl ⟨call', hcall', rfl⟩

/-- The caller of a call that was there has not changed. -/
theorem DeliveryMove.of_caller (h : DeliveryMove wcfg cfg s a s')
    (hlen : s.callers.length = s.client.calls.length) {k i : Nat} {call : Call}
    (hcall : s.client.calls[k]? = some call) (hi : s'.callers[k]? = some i) :
    s.callers[k]? = some i := by
  have hk : k < s.callers.length := hlen ▸ (List.getElem?_eq_some_iff.mp hcall).1
  cases h with
  | send => rwa [List.getElem?_append_left hk] at hi
  | _ => exact hi

/-- The caller of a call stays. -/
theorem DeliveryMove.caller_stays (h : DeliveryMove wcfg cfg s a s') {k i : Nat}
    (hi : s.callers[k]? = some i) : s'.callers[k]? = some i := by
  cases h with
  | send => exact Places.snoc_of hi
  | _ => exact hi

/-- The caller of a call that is being made. -/
theorem DeliveryMove.last_caller {i : Nat} (h : DeliveryMove wcfg cfg s (.send i) s') :
    s'.callers[s.callers.length]? = some i := by
  cases h
  simp

/-! ## Histories -/

/-- The histories of the daemon only grow. -/
theorem DeliveryMove.histories (h : DeliveryMove wcfg cfg s a s') :
    (∀ line ∈ s.sent, line ∈ s'.sent) ∧ ∀ p ∈ s.received, p ∈ s'.received := by
  cases h with
  | receive => exact ⟨fun _ h => h, fun _ h => List.mem_append_left _ h⟩
  | reply => exact ⟨fun _ h => List.mem_append_left _ h, fun _ h => h⟩
  | _ => exact ⟨fun _ h => h, fun _ h => h⟩

/-- The daemon receives requests of calls. -/
theorem DeliveryMove.of_received (h : DeliveryMove wcfg cfg s a s') {p : String × SendParams}
    (hp : p ∈ s'.received) :
    p ∈ s.received ∨ ∃ (k : Nat) (call : Call), s.client.calls[k]? = some call ∧
      call.id = some p.1 ∧ call.params = p.2 := by
  cases h with
  | receive hcall hid =>
      rcases List.mem_append.mp hp with hold | hnew
      · exact Or.inl hold
      · obtain rfl := List.mem_singleton.mp hnew
        exact Or.inr ⟨_, _, hcall, hid, rfl⟩
  | _ => exact Or.inl hp

theorem DeliveryMove.of_sent (h : DeliveryMove wcfg cfg s a s') {line : Line}
    (hline : line ∈ s'.sent) : line ∈ s.sent ∨ a = .reply line := by
  cases h with
  | reply =>
      rcases List.mem_append.mp hline with hold | hnew
      · exact Or.inl hold
      · obtain rfl := List.mem_singleton.mp hnew
        exact Or.inr rfl
  | _ => exact Or.inl hline

/-- The client reads lines the daemon has sent. -/
theorem DeliveryMove.of_frame (h : DeliveryMove wcfg cfg s a s') {f : RpcFrame}
    (hf : f ∈ s'.client.frames) :
    f ∈ s.client.frames ∨ ∃ line ∈ s.sent, line.frame? = some f := by
  cases h with
  | send _ _ _ hc =>
      rcases (Client.step_move hc).of_frame hf with hold | ⟨_, hl, _⟩
      · exact Or.inl hold
      · cases hl
  | client hb hc =>
      rcases (Client.step_move hc).of_frame hf with hold | ⟨_, rfl, _⟩
      · exact Or.inl hold
      · cases hb
  | read hline hc =>
      rcases (Client.step_move hc).of_frame hf with hold | ⟨line, hl, hlf⟩
      · exact Or.inl hold
      · cases hl
        exact Or.inr ⟨_, List.mem_of_getElem? hline, hlf⟩
  | _ => exact Or.inl hf

end Signalium
