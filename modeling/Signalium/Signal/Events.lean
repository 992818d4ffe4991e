import Signalium.Lib.Buffers
import Signalium.Signal.Demux

/-!
# The event stream

Responses and notifications of the daemon come in on one connection and are read
by one goroutine.  A frame without an id and with a method is an event; it goes
to the channel `events` by a send that does not wait, and a full channel loses
it.

Three things follow for every run of the client.

*Conservation.*  The channel is a bounded buffer that drops (`Buffers.Buffer`):
each step of the client offers it the event of the line it reads, takes from it,
or leaves it alone (`Client.buffer_step`).

*Drops.*  An event is dropped only where 64 events are waiting.

*Routing.*  What the rest of the client does depends on the channel nowhere.
`Client.routing` forgets the channel, and forgetting commutes with every step
but the consumer's own (`Client.routing_step`), so a client whose consumer never
receives routes each response as one whose consumer is always in time.
-/

namespace Signalium

open Runs Buffers Replies

variable {cfg : TCPConfig} {c c' : Client}

/-! ## Events -/

/-- The event a frame carries: one without an id, or with an empty one, and with a
method. -/
def RpcFrame.event? (f : RpcFrame) : Option Event :=
  match f.replyId? with
  | some _ => none
  | none => if f.method = "" then none else some { method := f.method, params := f.params }

/-- The event of the line a step reads, if the line is a well-formed frame and the
frame an event. -/
def ClientLabel.event? : ClientLabel → Option Event
  | .loop (.readLine line) => line.frame?.bind RpcFrame.event?
  | _ => none

/-- `events` as a buffer.  `dropped` has one entry for each call of
`IncInboundDropped`. -/
def Client.buffer (c : Client) : Buffer Event := ⟨c.events, c.taken, c.dropped.length⟩

/-- What a step does to the channel. -/
inductive BufferMove (b : Buffer Event) : ClientLabel → Buffer Event → Prop where
  | other {a : ClientLabel} : a.event? = none → BufferMove b a b
  | event {a : ClientLabel} {e : Event} : a.event? = some e →
      BufferMove b a (b.offer eventsCap e)
  | consume {b' : Buffer Event} : b.take = some b' → BufferMove b .consume b'

theorem LoopMove.buffer {a : LoopAct} (h : LoopMove c a c') :
    BufferMove c.buffer (.loop a) c'.buffer := by
  cases h with
  | skipped _ hf => exact .other (by simp [ClientLabel.event?, hf])
  | matched _ hf hid _ | unmatched _ hf hid _ =>
      exact .other (by simp [ClientLabel.event?, RpcFrame.event?, hf, hid])
  | ignored _ hf hid hm => exact .other (by simp [ClientLabel.event?, RpcFrame.event?, hf, hid, hm])
  | @event _ line f _ hf hid hm hroom =>
      have he : (ClientLabel.loop (.readLine line)).event? =
          some { method := f.method, params := f.params } := by
        simp [ClientLabel.event?, RpcFrame.event?, hf, hid, hm]
      have hmove := BufferMove.event (b := c.buffer) he
      rwa [Buffer.offer, if_pos (show c.buffer.held.length < eventsCap from hroom)] at hmove
  | @eventDropped _ line f _ hf hid hm hfull =>
      have he : (ClientLabel.loop (.readLine line)).event? =
          some { method := f.method, params := f.params } := by
        simp [ClientLabel.event?, RpcFrame.event?, hf, hid, hm]
      have hmove := BufferMove.event (b := c.buffer) he
      rw [Buffer.offer, if_neg (show ¬ c.buffer.held.length < eventsCap from hfull)] at hmove
      simpa [Client.buffer] using hmove
  | _ => exact .other rfl

theorem Client.buffer_step {a : ClientLabel} (h : c.step cfg a = some c') :
    BufferMove c.buffer a c'.buffer := by
  cases Client.step_move h with
  | call => exact .other rfl
  | send _ _ => exact .other rfl
  | loop hmove => exact hmove.buffer
  | close hmove => cases hmove <;> exact .other rfl
  | consume he => exact .consume (by simp [Buffer.take, Client.buffer, he])

/-- The events of the lines read so far are accounted for. -/
theorem Client.buffer_run {tr : List ClientLabel} (h : Run (Client.step cfg) Client.init tr c) :
    c.buffer.Conserves eventsCap (tr.filterMap ClientLabel.event?) := by
  induction h with
  | nil => exact Buffer.conserves_empty eventsCap
  | @snoc tr c c' a hr _ hs ih =>
      rw [List.filterMap_append, List.filterMap_cons, List.filterMap_nil]
      have hmove := Client.buffer_step hs
      generalize c'.buffer = b' at hmove ⊢
      cases hmove with
      | other he => simpa [he] using ih
      | event he => simpa [he] using ih.offer _
      | consume hb => simpa [ClientLabel.event?] using ih.take hb

/-- A step drops an event only while the channel is full. -/
theorem Client.full_of_dropped {tr : List ClientLabel} {a : ClientLabel}
    (hr : Run (Client.step cfg) Client.init tr c) (hs : c.step cfg a = some c')
    (hd : c'.dropped.length ≠ c.dropped.length) : c.events.length = eventsCap := by
  have hmove := Client.buffer_step hs
  have hlost : c'.buffer.lost ≠ c.buffer.lost := hd
  generalize c'.buffer = b' at hmove hlost
  cases hmove with
  | other _ => exact absurd rfl hlost
  | event _ => exact (Client.buffer_run hr).full_of_lost hlost
  | consume hb => exact absurd (Buffer.take_lost hb) hlost

/-! ## Routing -/

/-- The client without its channel of events: the connection, the pending entries,
the callers, the loop and the closer. -/
def Client.routing (c : Client) : Client := { c with events := [], taken := [], dropped := [] }

-- every branch of a step reads the fields that `routing` keeps, so both sides take the
-- same one; under an `if` the map is moved into the branches first
theorem Client.routing_callStep (cfg : TCPConfig) (c : Client) (k : Nat) (call : Call)
    (a : CallAct) :
    c.routing.callStep cfg k call a = (c.callStep cfg k call a).map Client.routing := by
  cases a <;> simp only [Client.callStep, Client.routing, Client.setCall] <;> split <;>
    (try rw [apply_ite (Option.map Client.routing)]) <;> rfl

theorem Client.routing_closeStep (c : Client) (a : CloseAct) :
    c.routing.closeStep a = (c.closeStep a).map Client.routing := by
  cases a <;> simp only [Client.closeStep, Client.routing] <;> split <;> rfl

/-- A line that is read goes the same way whatever is in the channel. -/
theorem Client.routing_dispatchFrame (c : Client) (conn : Nat) (line : Line) :
    (c.routing.dispatchFrame conn line).routing = (c.dispatchFrame conn line).routing := by
  cases hf : line.frame? with
  | none => simp only [Client.dispatchFrame, hf]; rfl
  | some f =>
      simp only [Client.dispatchFrame, hf]
      cases hid : f.replyId? with
      | some id =>
          have hp : lookup c.routing.pending id = lookup c.pending id := rfl
          simp only [hp]
          cases lookup c.pending id <;> rfl
      | none =>
          -- kept or dropped, the event is in the channel's part of the state only
          simp only [apply_ite Client.routing]
          by_cases hm : f.method = ""
          · simp only [if_pos hm]; rfl
          · simp only [if_neg hm]
            split <;> split <;> rfl

theorem Client.routing_loopStep (c : Client) (a : LoopAct) :
    (c.routing.loopStep a).map Client.routing = (c.loopStep a).map Client.routing := by
  have hl : c.routing.loop = c.loop := rfl
  cases a with
  | readLine line =>
      simp only [Client.loopStep]
      rw [hl]
      cases c.loop with
      | reading conn => simp only [Option.map_some, Client.routing_dispatchFrame]
      | _ => rfl
  | deliver =>
      simp only [Client.loopStep]
      rw [hl]
      cases c.loop with
      | delivering conn k resp =>
          have hcalls : c.routing.calls = c.calls := rfl
          simp only [hcalls]
          cases c.calls[k]? with
          | none => rfl
          | some call => simp only [apply_ite (Option.map Client.routing)]; rfl
      | _ => rfl
  | slept timer =>
      simp only [Client.loopStep]
      rw [hl]
      cases c.loop with
      | sleeping d =>
          cases timer with
          | true => rfl
          | false => simp only [apply_ite (Option.map Client.routing)]; rfl
      | _ => rfl
  | dialOk =>
      simp only [Client.loopStep]
      rw [hl]
      cases c.loop with
      | dialing => simp only [apply_ite (Option.map Client.routing)]; rfl
      | _ => rfl
  | publish =>
      simp only [Client.loopStep]
      rw [hl]
      cases c.loop with
      | dialed conn => simp only [apply_ite (Option.map Client.routing)]; rfl
      | _ => rfl
  | _ =>
      simp only [Client.loopStep]
      rw [hl]
      cases c.loop <;> rfl

/-- Forgetting the channel commutes with every step but the consumer's. -/
theorem Client.routing_step (cfg : TCPConfig) (c : Client) {a : ClientLabel}
    (ha : a ≠ .consume) :
    (c.routing.step cfg a).map Client.routing = (c.step cfg a).map Client.routing := by
  have hidem : ∀ o : Option Client, (o.map Client.routing).map Client.routing =
      o.map Client.routing := fun o => by cases o <;> rfl
  cases a with
  | call params => rfl
  | send k a =>
      have hcalls : c.routing.calls = c.calls := rfl
      simp only [Client.step, hcalls]
      cases c.calls[k]? with
      | none => rfl
      | some call => simp only [Option.bind_some, Client.routing_callStep, hidem]
  | loop a => exact c.routing_loopStep a
  | close a => simp only [Client.step, Client.routing_closeStep, hidem]
  | consume => exact absurd rfl ha

theorem Client.routing_consume (h : c.step cfg .consume = some c') : c'.routing = c.routing := by
  cases Client.step_move h with
  | consume _ => rfl

/-- Two clients that differ in the channel only take the same step, or neither takes
it. -/
theorem Client.step_routing {d : Client} {a : ClientLabel} (h : d.routing = c.routing)
    (ha : a ≠ .consume) :
    (d.step cfg a).map Client.routing = (c.step cfg a).map Client.routing := by
  rw [← Client.routing_step cfg d ha, h, Client.routing_step cfg c ha]

/-- The run without the consumer's steps. -/
def withoutConsumer (tr : List ClientLabel) : List ClientLabel :=
  tr.filter fun a =>
    match a with
    | .consume => false
    | _ => true

theorem Client.routing_run {tr : List ClientLabel} (h : Run (Client.step cfg) Client.init tr c) :
    ∃ d, Run (Client.step cfg) Client.init (withoutConsumer tr) d ∧ d.routing = c.routing := by
  induction h with
  | nil => exact ⟨Client.init, .nil, rfl⟩
  | @snoc tr c c' a _ _ hs ih =>
      obtain ⟨d, hd, hrouting⟩ := ih
      rw [withoutConsumer, List.filter_append, ← withoutConsumer]
      by_cases ha : a = .consume
      · subst ha
        exact ⟨d, by simpa using hd, hrouting.trans (Client.routing_consume hs).symm⟩
      · have hstep : (d.step cfg a).map Client.routing = (c.step cfg a).map Client.routing :=
          Client.step_routing hrouting ha
        rw [hs] at hstep
        obtain ⟨d', hd', heq⟩ := Option.map_eq_some_iff.mp hstep
        refine ⟨d', ?_, heq⟩
        cases a with
        | consume => exact absurd rfl ha
        | _ => exact .snoc hd trivial hd'

/-! ## The stream as a whole -/

/-- What holds of the events of a run that has reached `c`. -/
structure EventStream (cfg : TCPConfig) (tr : List ClientLabel) (c : Client) : Prop where
  /-- What the consumer has received, followed by what is buffered, is in the order of
  the frames, with no event twice. -/
  order : (c.taken ++ c.events).Sublist (tr.filterMap ClientLabel.event?)
  count : (tr.filterMap ClientLabel.event?).length =
    c.taken.length + c.events.length + c.dropped.length
  dropped_full : EveryStep (Client.step cfg) Client.init tr fun c _ c' =>
    c'.dropped.length ≠ c.dropped.length → c.events.length = eventsCap
  /-- The next step of any goroutine but the consumer is the same for every content of
  the channel. -/
  not_delayed : ∀ a ≠ .consume, ∀ d : Client, d.routing = c.routing →
    (d.step cfg a).map Client.routing = (c.step cfg a).map Client.routing
  /-- With a consumer that never receives everything else is as it is. -/
  not_altered : ∃ d, Run (Client.step cfg) Client.init (withoutConsumer tr) d ∧
    d.routing = c.routing

/-- **The event stream is conserved**, for every sequence of lines the daemon sends
and every interleaving of reader, callers and consumer. -/
theorem event_stream_conserved {tr : List ClientLabel}
    (hr : Run (Client.step cfg) Client.init tr c) : EventStream cfg tr c where
  order := (Client.buffer_run hr).order
  count := (Client.buffer_run hr).count
  dropped_full := fun _ _ _ _ _ _ hm hs => Client.full_of_dropped hm hs
  not_delayed := fun _ ha _ h => Client.step_routing h ha
  not_altered := Client.routing_run hr

/-- A notification. -/
def typingLine : Line := .json (.obj [("method", .str "receive"), ("params", .obj [])])

/-- One event more than the channel holds arrives, the consumer receives one, and a
reply comes in after them. -/
def floodTrace : List ClientLabel :=
  [.loop .check, .loop .dialOk, .loop .publish,
    .call { account := "+1", message := "a", attachments := [] }] ++ sendSteps 0 "id-a" ++
  List.replicate 65 (.loop (.readLine typingLine)) ++
  [.consume, .loop (.readLine (timestampReply "id-a" "1700")), .loop .deliver]

theorem floodTrace_event_stream :
    ∃ c, Run (Client.step ⟨false⟩) Client.init floodTrace c ∧
      c.taken.length = 1 ∧ c.events.length = 63 ∧ c.dropped = ["receive"] ∧
      EventStream ⟨false⟩ floodTrace c := by
  have hr : Run (Client.step ⟨false⟩) Client.init floodTrace _ := run_of_exec rfl
  exact ⟨_, hr, rfl, rfl, rfl, event_stream_conserved hr⟩

end Signalium
