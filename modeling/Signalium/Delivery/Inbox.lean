import Signalium.Delivery.AtMostOnce
import Signalium.Service.Listener
import Signalium.Signal.Connections
import Signalium.Signal.Events

/-!
# Inbound messages, from the connection to the table

The system over its connections together with the inbound listener.  The channel of the
client is the one the listener takes from; signal-cli writes lines, the reader makes frames
of them and puts the events on the channel, and the listener inserts them.

An event can be lost at four places: on a connection that breaks, before a full channel,
in an `Insert` that fails, and by the cancellation in `Stop`.  Nothing is lost elsewhere,
nothing is invented and nothing changes its place (`inbound_accounted`).

`Insert` may fail with or without having inserted its row; `InboundListener.handle` logs
the error and goes on.  `TCPClient` never closes the channel.
-/

namespace Signalium

open Runs Tables Buffers

variable {wcfg : WorkerConfig} {cfg : TCPConfig}

/-! ## The frames of the connections -/

/-- The frames the client has read from a connection. -/
def Link.frames (l : Link) : List RpcFrame := l.down.read.filterMap fun t => (Line.ofText t).frame?

/-- The frames the daemon has written to it. -/
def Link.sentFrames (l : Link) : List RpcFrame :=
  l.texts.filterMap fun t => (Line.ofText t).frame?

/-- What a reader of the whole direction sees. -/
theorem Link.Ok.framesRead_eq {c : Client} {sent : List Line} {n : Nat} {l : Link}
    (h : l.Ok cfg c sent n) : framesRead l.down.stream = l.sentFrames := by
  unfold framesRead Link.sentFrames
  rw [h.replies, Lines.tokens_unlines fun t ht => (h.texts t ht).1, List.filterMap_map]
  simp only [Function.comp_def, Line.ofText_newline]

/-- The client has read a beginning of what was written. -/
theorem Link.Ok.frames_begin {c : Client} {sent : List Line} {n : Nat} {l : Link}
    (h : l.Ok cfg c sent n) : l.frames <+: l.sentFrames := by
  obtain ⟨hread, hpart⟩ := h.down.read_eq
  unfold Link.frames
  rw [← h.framesRead_eq, hread]
  refine Lines.filterMap_tokens_prefix _ (fun line hline cut hcut => ?_) hpart
  rw [h.replies, Lines.tokens_unlines fun t ht => (h.texts t ht).1] at hline
  obtain ⟨text, htext, rfl⟩ := List.mem_map.mp hline
  have hok : (Line.ofText (text ++ ['\n'])).isText = true := by
    rw [Line.ofText_newline]
    exact (h.texts text htext).2.1
  rcases Line.ofText_cut hok hcut with hnone | hsame
  · exact Or.inl hnone
  · exact Or.inr (congrArg Line.frame? hsame)

/-- Over a connection that has not broken it reads all. -/
theorem Link.Ok.frames_all {c : Client} {sent : List Line} {n : Nat} {l : Link}
    (h : l.Ok cfg c sent n) (hb : l.down.broken = false) (hf : l.down.flight = [])
    (hbuf : l.down.buf = []) : l.frames = l.sentFrames := by
  have hall := h.down.read_all hb hf hbuf
  rw [← h.framesRead_eq, ← hall]
  unfold framesRead Link.frames
  rw [h.down.tokens]

section Reading

variable {c c' : Client} {b : ClientLabel}

/-- The frame a step reads. -/
def ClientLabel.frame? : ClientLabel → Option RpcFrame
  | .loop (.readLine line) => line.frame?
  | _ => none

theorem ClientLabel.events_eq (b : ClientLabel) :
    b.frame?.toList.filterMap RpcFrame.event? = b.event?.toList := by
  have hline : ∀ o : Option RpcFrame,
      o.toList.filterMap RpcFrame.event? = (o.bind RpcFrame.event?).toList := by
    intro o
    cases o with
    | none => rfl
    | some f =>
        rw [Option.toList_some, List.filterMap_cons, Option.bind_some]
        cases f.event? <;> rfl
  cases b with
  | loop a =>
      cases a with
      | readLine line => exact hline line.frame?
      | _ => rfl
  | _ => rfl

theorem LoopMove.frames {a : LoopAct} (h : LoopMove c a c') :
    c'.frames = c.frames ++ (ClientLabel.loop a).frame?.toList := by
  cases h with
  | skipped _ hf | matched _ hf _ _ | unmatched _ hf _ _ | ignored _ hf _ _ | event _ hf _ _ _
  | eventDropped _ hf _ _ _ => simp [ClientLabel.frame?, hf]
  | _ => exact (List.append_nil _).symm

theorem Client.frames_step (h : c.step cfg b = some c') :
    c'.frames = c.frames ++ b.frame?.toList := by
  cases Client.step_move h with
  | loop hm => exact hm.frames
  | close hm => cases hm <;> exact (List.append_nil _).symm
  | _ => exact (List.append_nil _).symm

/-- `dialOk` opens a connection. -/
theorem Client.conns_dial (h : c.step cfg (.loop .dialOk) = some c') :
    c'.conns.length = c.conns.length + 1 := by
  cases Client.step_move h with
  | loop hm =>
      cases hm with
      | dialOk => exact List.length_append

/-- No other step does. -/
theorem Client.conns_step (h : c.step cfg b = some c') (hb : b ≠ .loop .dialOk) :
    c'.conns.length = c.conns.length := by
  cases Client.step_move h with
  | loop hm =>
      cases hm with
      | dialOk => exact absurd rfl hb
      | closeConn => exact List.length_set
      | _ => rfl
  | close hm =>
      cases hm with
      | _ => first | rfl | exact List.length_set
  | _ => rfl

/-- The channel accounts for the frames that were read. -/
theorem Client.conserves_step (h : c.step cfg b = some c')
    (hc : c.buffer.Conserves eventsCap (c.frames.filterMap RpcFrame.event?)) :
    c'.buffer.Conserves eventsCap (c'.frames.filterMap RpcFrame.event?) := by
  rw [Client.frames_step h, List.filterMap_append, ClientLabel.events_eq]
  have hmove := Client.buffer_step h
  generalize c'.buffer = b' at hmove ⊢
  cases hmove with
  | other he =>
      rw [he, Option.toList_none, List.append_nil]
      exact hc
  | event he =>
      rw [he, Option.toList_some]
      exact hc.offer _
  | consume hb =>
      rw [show ClientLabel.consume.event? = none from rfl, Option.toList_none, List.append_nil]
      exact hc.take hb

end Reading

section Connections

variable {s s' : Wired} {a : WiredLabel}

/-- The client's part of a step: it does nothing, opens a connection, reads from the last one,
or does neither. -/
inductive ReadMove (cfg : TCPConfig) (s : Wired) (a : WiredLabel) (s' : Wired) : Prop where
  | same : s'.delivery.client = s.delivery.client → s'.links.length = s.links.length →
      s'.links.flatMap Link.frames = s.links.flatMap Link.frames → ReadMove cfg s a s'
  | other {b : ClientLabel} : s.delivery.client.step cfg b = some s'.delivery.client →
      b.frame? = none → b ≠ .loop .dialOk → (b = .consume → a = .core (.client .consume)) →
      s'.links.length = s.links.length →
      s'.links.flatMap Link.frames = s.links.flatMap Link.frames → ReadMove cfg s a s'
  | dial : s.delivery.client.step cfg (.loop .dialOk) = some s'.delivery.client →
      s'.links = s.links ++ [({} : Link)] → ReadMove cfg s a s'
  | read {n : Nat} {l : Link} {t : List Char} {down : Pipes.Pipe Char} :
      s.delivery.client.loop = .reading n → s.links[n]? = some l →
      down.read = l.down.read ++ [t] →
      s.delivery.client.step cfg (.loop (.readLine (Line.ofText t))) = some s'.delivery.client →
      s'.links = s.links.set n { l with down } → ReadMove cfg s a s'

/-- A connection changes, and what was read from it does not. -/
theorem flatMap_frames_set {links : List Link} {n : Nat} {l l' : Link} (hl : links[n]? = some l)
    (hread : l'.down.read = l.down.read) :
    (links.set n l').flatMap Link.frames = links.flatMap Link.frames := by
  have hframes : l'.frames = l.frames := by
    unfold Link.frames
    rw [hread]
  exact Places.flatMap_set_same _ hframes hl

theorem Wired.read_move (h : s.step wcfg cfg a = some s') : ReadMove cfg s a s' := by
  cases Wired.step_move h with
  | core ha hd =>
      cases Delivery.step_move hd with
      | @client b c hshared hc =>
          refine .other hc ?_ ?_ (fun hb => by rw [hb]) rfl rfl
          · cases b with
            | loop b =>
                cases b with
                | readLine => cases hshared
                | _ => rfl
            | _ => rfl
          · rintro rfl
            cases ha
      | send _ _ _ hc =>
          exact .other hc rfl (fun he => by cases he) (fun he => by cases he) rfl rfl
      | read | receive | reply => cases ha
      | _ => exact .same rfl rfl rfl
  | dial hd =>
      cases Delivery.step_move hd with
      | client _ hc => exact .dial hc rfl
  | enter _ _ hl _ => exact .same rfl List.length_set (flatMap_frames_set hl rfl)
  | push hl _ => exact .same rfl List.length_set (flatMap_frames_set hl rfl)
  | write _ _ hl _ _ hd =>
      cases Delivery.step_move hd with
      | client _ hc =>
          exact .other hc rfl (fun he => by cases he) (fun he => by cases he) List.length_set
            (flatMap_frames_set hl rfl)
  | moved hl _ _ _ _ _ hread => exact .same rfl List.length_set (flatMap_frames_set hl hread)
  | handled hl => exact .same rfl List.length_set (flatMap_frames_set hl rfl)
  | reply _ _ hl hd =>
      cases Delivery.step_move hd with
      | reply => exact .same rfl List.length_set (flatMap_frames_set hl rfl)
  | dispatched hloop hl _ _ hread hc => exact .read hloop hl hread hc rfl
  | readEnd hl _ _ hread hd =>
      cases Delivery.step_move hd with
      | client _ hc =>
          exact .other hc rfl (fun he => by cases he) (fun he => by cases he) List.length_set
            (flatMap_frames_set hl hread)

/-- The client reads its connections one after the other, and the channel accounts for what
it has read. -/
structure ReadInv (s : Wired) : Prop where
  conns : ConnInv s.delivery.client
  links : s.links.length = s.delivery.client.conns.length
  frames : s.delivery.client.frames = s.links.flatMap Link.frames
  channel : s.delivery.client.buffer.Conserves eventsCap
    (s.delivery.client.frames.filterMap RpcFrame.event?)

theorem readInv_init : ReadInv Wired.init where
  conns := connInv_init
  links := rfl
  frames := rfl
  channel := Buffer.conserves_empty eventsCap

theorem ReadInv.step (h : ReadInv s) (hs : s.step wcfg cfg a = some s') : ReadInv s' := by
  cases Wired.read_move hs with
  | same hclient hlen hframes =>
      exact ⟨hclient ▸ h.conns, by rw [hlen, hclient, h.links], by rw [hframes, hclient, h.frames],
        hclient ▸ h.channel⟩
  | other hc hb hdial _ hlen hframes =>
      refine ⟨h.conns.step hc, ?_, ?_, Client.conserves_step hc h.channel⟩
      · rw [hlen, Client.conns_step hc hdial, h.links]
      · rw [hframes, Client.frames_step hc, hb, h.frames]
        exact List.append_nil _
  | dial hc hlinks =>
      refine ⟨h.conns.step hc, ?_, ?_, Client.conserves_step hc h.channel⟩
      · rw [hlinks, Client.conns_dial hc, ← h.links]
        exact List.length_append
      · rw [hlinks, Client.frames_step hc, h.frames, List.flatMap_append]
        rfl
  | @read n l t down hloop hl hread hc hlinks =>
      refine ⟨h.conns.step hc, ?_, ?_, Client.conserves_step hc h.channel⟩
      · rw [hlinks, List.length_set, h.links, Client.conns_step hc (fun he => by cases he)]
      · -- the connection that is read is the last one
        have hlast : n + 1 = s.links.length := by
          rw [h.links]
          exact h.conns.newest n (by rw [hloop]; rfl)
        have hf : ({ l with down } : Link).frames = l.frames ++ (Line.ofText t).frame?.toList := by
          change down.read.filterMap _ = _
          rw [hread, List.filterMap_append, List.filterMap_cons]
          cases (Line.ofText t).frame? <;> rfl
        rw [hlinks, Places.flatMap_set_last _ hf hl hlast, Client.frames_step hc, h.frames]
        rfl

end Connections

/-! ## The listener on the channel of the client -/

/-- The system with its listener. -/
structure Inbox where
  wired : Wired
  /-- Its channel is the one of the client. -/
  listener : Listener
  /-- History: the handled events, by what became of their inserts.  One that makes no insert
  is among the first. -/
  kept : List Event
  failed : List Event
  cancelled : List Event

def Inbox.init : Inbox := ⟨Wired.init, Listener.init, [], [], []⟩

def Inbox.client (s : Inbox) : Client := s.wired.delivery.client

inductive InboxLabel where
  /-- A step that does not concern the listener. -/
  | wired (a : WiredLabel)
  /-- `select` takes an event. -/
  | take
  /-- `handle` returns, and `Insert` has failed only where the context is cancelled. -/
  | handle
  /-- `handle` returns after another error of `Insert`, which may have inserted the row. -/
  | insertFailed (inserted : Bool)
  /-- Another step of the listener. -/
  | listen (a : ListenLabel)

/-- The step of the listener concerns the channel or the histories as well. -/
def ListenLabel.isShared : ListenLabel → Bool
  | .arrive _ | .close | .take | .handle => true
  | _ => false

/-- The event in hand is to be inserted. -/
def Inbox.inserts (lcfg : ListenerConfig) (s : Inbox) : Bool :=
  s.listener.loop.inHand.any fun ev => (ev.toInsert lcfg.ignore).isSome

/-- `handle` returns. -/
def Listener.finish (l : Listener) (ev : Event) : Listener :=
  { l with loop := .selecting, handled := l.handled ++ [ev] }

/-- The row of an event is inserted. -/
def Listener.withRow (ignore : InboundIgnore) (l : Listener) (ev : Event) : Listener :=
  { l with table := Signalium.handle ignore l.table ev }

/-- One step. -/
def Inbox.step (wcfg : WorkerConfig) (cfg : TCPConfig) (lcfg : ListenerConfig) (s : Inbox) :
    InboxLabel → Option Inbox
  | .wired (.core (.client .consume)) => none
  | .wired a =>
      (s.wired.step wcfg cfg a).map fun w =>
        { s with wired := w, listener := { s.listener with events := w.delivery.client.events } }
  | .take =>
      (s.wired.step wcfg cfg (.core (.client .consume))).bind fun w =>
        (s.listener.step lcfg .take).map fun l => { s with wired := w, listener := l }
  | .handle =>
      (s.listener.step lcfg .handle).map fun l =>
        if s.listener.cancelled ∧ s.inserts lcfg then
          { s with listener := l, cancelled := s.cancelled ++ s.listener.loop.inHand }
        else { s with listener := l, kept := s.kept ++ s.listener.loop.inHand }
  | .insertFailed inserted =>
      match s.listener.loop with
      | .handling ev =>
          if s.inserts lcfg then
            if inserted then
              some { s with
                listener := (s.listener.finish ev).withRow lcfg.ignore ev
                kept := s.kept ++ [ev] }
            else some { s with listener := s.listener.finish ev, failed := s.failed ++ [ev] }
          else none
      | _ => none
  | .listen a =>
      if a.isShared then none
      else (s.listener.step lcfg a).map fun l => { s with listener := l }

variable {lcfg : ListenerConfig} {s s' : Inbox} {a : InboxLabel}

/-- What a step can do. -/
inductive InboxMove (wcfg : WorkerConfig) (cfg : TCPConfig) (lcfg : ListenerConfig) (s : Inbox) :
    InboxLabel → Inbox → Prop where
  | wired {a : WiredLabel} {w : Wired} : a ≠ .core (.client .consume) →
      s.wired.step wcfg cfg a = some w →
      InboxMove wcfg cfg lcfg s (.wired a)
        { s with wired := w, listener := { s.listener with events := w.delivery.client.events } }
  | take {w : Wired} {ev : Event} {rest : List Event} :
      s.wired.step wcfg cfg (.core (.client .consume)) = some w → s.listener.loop = .selecting →
      s.listener.events = ev :: rest →
      InboxMove wcfg cfg lcfg s .take
        { s with wired := w, listener := { s.listener with events := rest, loop := .handling ev } }
  /-- The event in hand is done with, and the database has what there is to insert. -/
  | kept {a : InboxLabel} {ev : Event} : s.listener.loop = .handling ev →
      InboxMove wcfg cfg lcfg s a
        { s with
          listener := (s.listener.finish ev).withRow lcfg.ignore ev
          kept := s.kept ++ [ev] }
  | failed {a : InboxLabel} {ev : Event} : s.listener.loop = .handling ev →
      InboxMove wcfg cfg lcfg s a
        { s with listener := s.listener.finish ev, failed := s.failed ++ [ev] }
  | cancelled {ev : Event} : s.listener.loop = .handling ev → s.listener.cancelled = true →
      InboxMove wcfg cfg lcfg s .handle
        { s with listener := s.listener.finish ev, cancelled := s.cancelled ++ [ev] }
  /-- The listener is started or stopped, or its loop returns. -/
  | listen {a : ListenLabel} {loop : ListenPc} {cancelled : Bool} {stop : StopPc} :
      loop.inHand = s.listener.loop.inHand → (s.listener.cancelled = true → cancelled = true) →
      InboxMove wcfg cfg lcfg s (.listen a)
        { s with listener := { s.listener with loop, cancelled, stop } }

theorem Inbox.step_move (h : s.step wcfg cfg lcfg a = some s') :
    InboxMove wcfg cfg lcfg s a s' := by
  unfold Inbox.step at h
  split at h
  · cases h
  · next a ha =>
      obtain ⟨w, hw, rfl⟩ := Option.map_eq_some_iff.mp h
      exact .wired (fun he => ha he) hw
  · obtain ⟨w, hw, h⟩ := Option.bind_eq_some_iff.mp h
    obtain ⟨l, hl, rfl⟩ := Option.map_eq_some_iff.mp h
    cases Listener.step_move hl with
    | take hloop hev => exact .take hw hloop hev
  · obtain ⟨l, hl, rfl⟩ := Option.map_eq_some_iff.mp h
    cases Listener.step_move hl with
    | @handle ev hloop =>
        simp only [Inbox.inserts, hloop, ListenPc.inHand, List.any_cons, List.any_nil,
          Bool.or_false]
        split
        · next hc =>
            rw [if_pos hc.1]
            exact .cancelled hloop hc.1
        · next hc =>
            -- under a cancelled context there is nothing to insert
            have htable : (if s.listener.cancelled then s.listener.table
                else Signalium.handle lcfg.ignore s.listener.table ev) =
                Signalium.handle lcfg.ignore s.listener.table ev := by
              split
              · next hcan =>
                  have hnone : ev.toInsert lcfg.ignore = none := by simpa [hcan] using hc
                  rw [Signalium.handle, hnone]
              · rfl
            rw [htable]
            exact .kept hloop
  · split at h
    · next ev hloop =>
        split at h
        · split at h <;> cases h
          · exact .kept hloop
          · exact .failed hloop
        · cases h
    · cases h
  · split at h
    · cases h
    · next ha =>
        obtain ⟨l, hl, rfl⟩ := Option.map_eq_some_iff.mp h
        cases Listener.step_move hl with
        | arrive | close | take | handle => exact absurd rfl ha
        | start hloop _ =>
            refine .listen ?_ id
            rw [hloop]
            cases lcfg.enabled <;> rfl
        | drainedChannel hloop | done hloop _ => exact .listen (by rw [hloop]; rfl) id
        | stop _ hmono => exact .listen rfl hmono
        | stopDisabled | drained | timeout => exact .listen rfl id

/-! ## The account -/

/-- The client's part of a step moves no event to the listener. -/
theorem Wired.taken_step {w w' : Wired} {b : WiredLabel} (h : w.step wcfg cfg b = some w')
    (hb : b ≠ .core (.client .consume)) :
    w'.delivery.client.taken = w.delivery.client.taken := by
  have htaken : ∀ {c c' : Client} {b : ClientLabel}, c.step cfg b = some c' → b ≠ .consume →
      c'.taken = c.taken := by
    intro c c' b hc hb
    have hmove := Client.buffer_step hc
    change c'.buffer.taken = c.buffer.taken
    generalize c'.buffer = b' at hmove ⊢
    cases hmove with
    | other => rfl
    | event =>
        unfold Buffer.offer
        split <;> rfl
    | consume => exact absurd rfl hb
  cases Wired.read_move h with
  | same hc => rw [hc]
  | other hc _ _ hcons => exact htaken hc fun he => hb (hcons he)
  | dial hc => exact htaken hc fun he => by cases he
  | read _ _ _ hc => exact htaken hc fun he => by cases he

/-- The consumer takes an event. -/
theorem Wired.consume_step {w w' : Wired}
    (h : w.step wcfg cfg (.core (.client .consume)) = some w') :
    ∃ ev rest, w.delivery.client.events = ev :: rest ∧ w'.delivery.client.events = rest ∧
      w'.delivery.client.taken = w.delivery.client.taken ++ [ev] := by
  obtain ⟨d, hd, rfl⟩ := Option.map_eq_some_iff.mp h
  cases Delivery.step_move hd with
  | client _ hc =>
      cases Client.step_move hc with
      | consume he => exact ⟨_, _, he, rfl, rfl⟩

/-- The channel, the table and the histories. -/
structure InboxInv (lcfg : ListenerConfig) (s : Inbox) : Prop where
  channel : s.listener.events = s.client.events
  taken : s.client.taken = s.listener.taken
  table : s.listener.table = handleAll lcfg.ignore s.kept
  inOrder : s.kept.Sublist s.listener.handled
  /-- What the filters leave out, and what is there already, counts as handled. -/
  handled : s.listener.handled.Perm (s.kept ++ (s.failed ++ s.cancelled))
  running : s.listener.cancelled = false → s.cancelled = []

theorem inboxInv_init : InboxInv lcfg Inbox.init where
  channel := rfl
  taken := rfl
  table := rfl
  inOrder := List.Sublist.refl _
  handled := List.Perm.refl _
  running := fun _ => rfl

/-- The event in hand is done with. -/
theorem Listener.taken_finish {l : Listener} {ev : Event} (h : l.loop = .handling ev) :
    (l.finish ev).taken = l.taken := by
  simp [Listener.taken, Listener.finish, h, ListenPc.inHand]

theorem InboxInv.step (h : InboxInv lcfg s) (hs : s.step wcfg cfg lcfg a = some s') :
    InboxInv lcfg s' := by
  cases Inbox.step_move hs with
  | wired ha hw =>
      exact ⟨rfl, (Wired.taken_step hw ha).trans h.taken, h.table, h.inOrder, h.handled, h.running⟩
  | @take w ev rest hw hloop hev =>
      obtain ⟨ev', rest', hevents, hrest, htaken⟩ := Wired.consume_step hw
      cases hevents.symm.trans (h.channel.symm.trans hev)
      refine ⟨hrest.symm, htaken.trans ?_, h.table, h.inOrder, h.handled, h.running⟩
      have hold : s.wired.delivery.client.taken = s.listener.taken := h.taken
      simp [hold, Listener.taken, hloop, ListenPc.inHand]
  | @kept _ ev hloop =>
      refine ⟨h.channel, h.taken.trans (Listener.taken_finish hloop).symm, ?_, ?_, ?_, h.running⟩
      · change Signalium.handle lcfg.ignore s.listener.table ev = _
        rw [h.table, handleAll, handleAll, List.foldl_append]
        rfl
      · exact h.inOrder.append (List.Sublist.refl [ev])
      · exact (h.handled.append_right [ev]).trans (by
          rw [List.append_assoc, List.append_assoc s.kept]
          exact List.perm_append_comm.append_left _)
  | @failed _ ev hloop =>
      refine ⟨h.channel, h.taken.trans (Listener.taken_finish hloop).symm, h.table, ?_, ?_,
        h.running⟩
      · exact h.inOrder.trans (List.sublist_append_left _ _)
      · exact (h.handled.append_right [ev]).trans (by
          rw [List.append_assoc, List.append_assoc, List.append_assoc]
          exact (List.perm_append_comm.append_left _).append_left _)
  | @cancelled ev hloop hc =>
      refine ⟨h.channel, h.taken.trans (Listener.taken_finish hloop).symm, h.table, ?_, ?_, ?_⟩
      · exact h.inOrder.trans (List.sublist_append_left _ _)
      · refine (h.handled.append_right [ev]).trans ?_
        rw [List.append_assoc, List.append_assoc]
      · intro hf
        rw [show s.listener.cancelled = false from hf] at hc
        cases hc
  | listen hhand hmono =>
      refine ⟨h.channel, h.taken.trans ?_, h.table, h.inOrder, h.handled, fun hc => h.running ?_⟩
      · simp only [Listener.taken, hhand]
      · cases hcs : s.listener.cancelled with
        | false => rfl
        | true => rw [hmono hcs] at hc; cases hc

/-- The system without its listener takes its steps. -/
theorem Inbox.wired_run {tr : List InboxLabel}
    (hr : Run (Inbox.step wcfg cfg lcfg) Inbox.init tr s) :
    ∃ tr', Run (Wired.step wcfg cfg) Wired.init tr' s.wired := by
  refine hr.refines (f := Inbox.wired) (I := fun _ => True) trivial ?_
  intro s a s' _ _ hs
  refine ⟨trivial, ?_⟩
  cases Inbox.step_move hs with
  | wired _ hw => exact ⟨[] ++ [_], .snoc .nil trivial hw⟩
  | take hw _ _ => exact ⟨[] ++ [_], .snoc .nil trivial hw⟩
  | _ => exact ⟨[], .nil⟩

/-- The events the client has read, connection by connection. -/
def Inbox.readEvents (s : Inbox) : List Event :=
  (s.wired.links.flatMap Link.frames).filterMap RpcFrame.event?

/-- The events signal-cli has written. -/
def Inbox.sentEvents (s : Inbox) : List Event :=
  (s.wired.links.flatMap Link.sentFrames).filterMap RpcFrame.event?

/-- No connection has broken, and nothing is under way. -/
structure Inbox.Quiet (s : Inbox) : Prop where
  links : ∀ l ∈ s.wired.links, l.down.broken = false ∧ l.down.flight = [] ∧ l.down.buf = []
  channel : s.client.events = []
  listener : s.listener.loop.inHand = []

/-- What became of the events. -/
structure Inbox.Accounted (lcfg : ListenerConfig) (s : Inbox) : Prop where
  /-- Of each connection the client has seen a beginning, frame by frame. -/
  seen : ∀ l ∈ s.wired.links, l.frames <+: l.sentFrames
  /-- What was taken and what waits is in the order of the frames, with none twice. -/
  order : (s.listener.taken ++ s.client.events).Sublist s.readEvents
  /-- The others are those before a full channel, which are counted. -/
  count : s.readEvents.length =
    s.listener.taken.length + s.client.events.length + s.client.dropped.length
  handled : s.listener.handled.Perm (s.kept ++ (s.failed ++ s.cancelled))
  /-- The table has the first of the events of each message, and no other row. -/
  rows : CapturesFirsts lcfg.ignore s.kept s.listener.table
  /-- Every row is from a line that signal-cli has written. -/
  origin : ∀ p ∈ s.listener.table, ∃ l ∈ s.wired.links, ∃ text ∈ l.texts,
    ∃ f ∈ (Line.ofText text).frame?, ∃ ev ∈ f.event?, ev.toInsert lcfg.ignore = some p
  running : s.listener.cancelled = false → s.cancelled = []
  /-- In a quiet state, where nothing was dropped and no insert has failed or was cancelled,
  every message is there. -/
  complete : s.Quiet → s.listener.cancelled = false → s.failed = [] → s.client.dropped = [] →
    CapturesFirsts lcfg.ignore s.sentEvents s.listener.table

/-- The channel accounts for the events that were read. -/
theorem ReadInv.conserves (h : ReadInv s.wired) :
    s.client.buffer.Conserves eventsCap s.readEvents := by
  rw [Inbox.readEvents, ← h.frames]
  exact h.channel

theorem Inbox.readEvents_quiet (hw : WiredInv cfg s.wired) (hq : s.Quiet) :
    s.readEvents = s.sentEvents := by
  have hframes : s.wired.links.map Link.frames = s.wired.links.map Link.sentFrames := by
    refine List.map_congr_left fun l hl => ?_
    obtain ⟨n, hn⟩ := List.mem_iff_getElem?.mp hl
    obtain ⟨hb, hf, hbuf⟩ := hq.links l hl
    exact (hw.links n l hn).frames_all hb hf hbuf
  rw [Inbox.readEvents, Inbox.sentEvents, List.flatMap_def, List.flatMap_def, hframes]

/-- Where nothing is lost, what was kept is what was read. -/
theorem InboxInv.kept_eq (h : InboxInv lcfg s) (hr : ReadInv s.wired) (hq : s.Quiet)
    (hc : s.listener.cancelled = false) (hf : s.failed = []) (hd : s.client.dropped = []) :
    s.kept = s.readEvents := by
  have hkept : s.kept = s.listener.handled := by
    refine h.inOrder.eq_of_length ?_
    have hlen := h.handled.length_eq
    rw [hf, h.running hc] at hlen
    simpa using hlen.symm
  have htaken : s.listener.handled = s.client.taken := by
    rw [h.taken, Listener.taken, hq.listener, List.append_nil]
  rw [hkept, htaken]
  have horder : (s.client.taken ++ s.client.events).Sublist s.readEvents := hr.conserves.order
  have hcount : s.readEvents.length =
      s.client.taken.length + s.client.events.length + s.client.dropped.length :=
    hr.conserves.count
  rw [hq.channel, List.append_nil] at horder
  refine horder.eq_of_length ?_
  rw [hcount, hq.channel, hd]
  rfl

/-- A row is from a line that was written. -/
theorem InboxInv.origin (h : InboxInv lcfg s) (hr : ReadInv s.wired) (hw : WiredInv cfg s.wired)
    {p : InsertInboundParams} (hp : p ∈ s.listener.table) :
    ∃ l ∈ s.wired.links, ∃ text ∈ l.texts, ∃ f ∈ (Line.ofText text).frame?, ∃ ev ∈ f.event?,
      ev.toInsert lcfg.ignore = some p := by
  rw [h.table] at hp
  obtain ⟨before, ev, after, env, raw, hev, hcap, rfl, _⟩ := (handleAll_captures.rows p).mp hp
  have hkept : ev ∈ s.kept := by
    rw [hev]
    exact List.mem_append_right _ List.mem_cons_self
  have hread : ev ∈ s.readEvents := by
    refine hr.conserves.order.subset (List.mem_append_left _ ?_)
    change ev ∈ s.client.taken
    rw [h.taken]
    exact List.mem_append_left _ (h.inOrder.subset hkept)
  obtain ⟨f, hf, hfev⟩ := List.mem_filterMap.mp hread
  obtain ⟨l, hl, hfl⟩ := List.mem_flatMap.mp hf
  obtain ⟨n, hn⟩ := List.mem_iff_getElem?.mp hl
  obtain ⟨text, htext, htf⟩ := List.mem_filterMap.mp ((hw.links n l hn).frames_begin.subset hfl)
  exact ⟨l, hl, text, htext, f, htf, ev, hfev, Event.toInsert_eq_some.mpr ⟨env, raw, hcap, rfl⟩⟩

/-- **Inbound messages are accounted for.**  Whatever signal-cli writes, wherever the
connections break, however slow the listener is and whenever its inserts fail or it is
stopped. -/
theorem inbound_accounted {tr : List InboxLabel}
    (hr : Run (Inbox.step wcfg cfg lcfg) Inbox.init tr s) : s.Accounted lcfg := by
  have h : InboxInv lcfg s := hr.invariant inboxInv_init fun _ _ _ h _ hs => h.step hs
  obtain ⟨tr', hrun⟩ := Inbox.wired_run hr
  have hread : ReadInv s.wired := hrun.invariant readInv_init fun _ _ _ h _ hs => h.step hs
  have hw : WiredInv cfg s.wired := Wired.wiredInv hrun
  have hrows : CapturesFirsts lcfg.ignore s.kept s.listener.table := by
    rw [h.table]
    exact handleAll_captures
  exact {
    seen := fun l hl => by
      obtain ⟨n, hn⟩ := List.mem_iff_getElem?.mp hl
      exact (hw.links n l hn).frames_begin
    order := by
      rw [← h.taken]
      exact hread.conserves.order
    count := by
      rw [← h.taken]
      exact hread.conserves.count
    handled := h.handled
    rows := hrows
    origin := fun p hp => h.origin hread hw hp
    running := h.running
    complete := fun hq hc hf hd => by
      rw [← Inbox.readEvents_quiet hw hq, ← h.kept_eq hread hq hc hf hd]
      exact hrows }

/-- A notification as signal-cli writes it. -/
def textLine (content : String) : List Char :=
  Json.text (.obj [("jsonrpc", .str "2.0"), ("method", .str "receive"),
    ("params", .obj [("envelope", .obj [("source", .str "+380111111111"),
      ("timestamp", .num "1700000001"), ("dataMessage", .obj [("message", .str content)])])])])

/-- A message arrives in pieces, and the insert fails.  It is written again and inserted, and a
third line is cut off. -/
def redeliveredLine : List InboxLabel :=
  [.listen .start, .wired (.core (.client (.loop .check))), .wired .dial,
   .wired (.core (.client (.loop .publish))), .wired (.reply 0 (textLine "hello")),
   .wired (.toClient 0 30), .wired (.toClient 0 500), .wired .readLine, .take,
   .insertFailed false, .wired (.reply 0 (textLine "hello")), .wired (.toClient 0 500),
   .wired .readLine, .take, .handle, .wired (.reply 0 (textLine "bye")), .wired (.cut 0 0 40),
   .wired (.toClient 0 500), .wired .readRest]

theorem redeliveredLine_accounted :
    ∃ s, Run (Inbox.step defaultConfig ⟨false⟩ listening) Inbox.init redeliveredLine s ∧
      s.failed.length = 1 ∧ s.sentEvents.length = 3 ∧ s.readEvents.length = 2 ∧
      s.listener.table.rows.map (fun r => (r.key, r.content)) =
        [(("+380111111111", 1700000001), some "hello")] ∧
      s.Accounted listening := by
  have hexec : (exec (Inbox.step defaultConfig ⟨false⟩ listening) Inbox.init
      redeliveredLine).map (fun s => ([s.failed.length, s.sentEvents.length, s.readEvents.length],
        s.listener.table.rows.map fun r => (r.key, r.content))) =
      some ([1, 3, 2], [(("+380111111111", 1700000001), some "hello")]) := by
    decide +kernel
  obtain ⟨s, hs, heq⟩ := Option.map_eq_some_iff.mp hexec
  have hr := run_of_exec hs
  simp only [Prod.mk.injEq, List.cons.injEq, and_true] at heq
  obtain ⟨⟨hfailed, hsent, hread⟩, hrows⟩ := heq
  exact ⟨s, hr, hfailed, hsent, hread, hrows, inbound_accounted hr⟩

end Signalium
