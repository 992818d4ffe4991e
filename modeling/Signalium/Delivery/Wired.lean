import Signalium.Delivery.NoFalseSent
import Signalium.Lib.Pipes
import Signalium.Signal.Frames

/-!
# The system over its connections

`Delivery` says which requests the daemon may receive and which lines the client may
read.  Here the daemon is at the other end of connections that carry characters, and
both sides get what `writeFrame`, the framing by lines and the two readers make of it.

* Each dial opens a connection with two directions (`Lib/Pipes`).  A call writes its
  frame to the connection it has seen, piece by piece, while other calls take their
  steps.  A write that fails has got a part of the frame through, and breaks the
  connection.
* The daemon handles a line when it is complete, and what is left when the connection
  ends (`handle` of `testfake/daemon.go`).  It writes any line that is blank or a JSON
  text, at any time.
* `readLoop` hands each complete line to `dispatchFrame`, and what is left at the end.

All other steps are those of `Delivery`.  Both directions may break at any point, and
pieces arrive in any size.

`WiredMove` says what a step can do.
-/

namespace Signalium

open Runs Pipes

/-! ## States -/

/-- One connection. -/
structure Link where
  /-- From the client to the daemon. -/
  up : Pipe Char := {}
  /-- From the daemon to the client. -/
  down : Pipe Char := {}
  /-- The calls in `conn.Write`, with what is left of their frames. -/
  writing : List (Nat × List Char) := []
  /-- History: the calls that have been there, and their requests. -/
  written : List (Nat × RpcRequest) := []
  /-- History: the lines the daemon has written. -/
  texts : List (List Char) := []

/-- The system. -/
structure Wired where
  delivery : Delivery
  links : List Link

def Wired.init : Wired := ⟨Delivery.init, []⟩

/-- The request a call writes.  `fireAndForget` draws no id. -/
def Call.request (call : Call) : RpcRequest := { id := call.id.getD "", params := call.params }

/-- What the daemon has received over a connection. -/
def Link.received (l : Link) : List RpcRequest := l.up.read.filterMap incoming?

/-- A request as `Delivery` records it. -/
def RpcRequest.pair (r : RpcRequest) : String × SendParams := (r.id, r.params)

/-- `writeFrame` calls `conn.Write`. -/
def Link.enter (l : Link) (k : Nat) (r : RpcRequest) : Link :=
  { l with
    writing := l.writing ++ [(k, r.text ++ ['\n'])]
    written := l.written ++ [(k, r)] }

/-- `conn.Write` gets `count` characters on their way. -/
def Link.push (l : Link) (k count : Nat) (rest : List Char) : Link :=
  { l with
    up := l.up.write (rest.take count)
    writing := l.writing.map fun w => if w.1 = k then (k, rest.drop count) else w }

/-- `conn.Write` returns, with an error or not. -/
def Link.leave (l : Link) (k : Nat) (rest : List Char) (err : Option String) : Link :=
  { l with
    up := if err.isSome then l.up.fail rest else l.up
    writing := l.writing.filter fun w => w.1 ≠ k }

/-- The daemon writes a line. -/
def Link.reply (l : Link) (text : List Char) : Link :=
  { l with down := l.down.write (text ++ ['\n']), texts := l.texts ++ [text] }

/-! ## Steps -/

/-- A step of the system. -/
inductive WiredLabel where
  /-- A step that concerns no connection. -/
  | core (a : DeliveryLabel)
  | dial
  /-- The call `k` enters `conn.Write`, gets characters on their way, and returns. -/
  | enter (k : Nat)
  | push (k count : Nat)
  | write (k : Nat) (err : Option String)
  /-- Characters arrive. -/
  | toDaemon (n count : Nat)
  | toClient (n count : Nat)
  /-- A connection breaks.  Of what is on its way, some characters may still arrive. -/
  | cut (n up down : Nat)
  /-- The daemon handles a complete line. -/
  | handle (n : Nat)
  /-- The daemon handles what is left. -/
  | handleRest (n : Nat)
  | reply (n : Nat) (text : List Char)
  | readLine
  | readRest
  | readEnd

/-- The step concerns a connection. -/
def DeliveryLabel.isWire : DeliveryLabel → Bool
  | .receive _ | .reply _ | .read _ => true
  | .client (.loop .dialOk) | .client (.loop .readEnd) | .client (.send _ (.write _)) => true
  | _ => false

/-- `handle` of the daemon, for what it has read from the connection `n`. -/
def Wired.handled (s : Wired) (n : Nat) (l : Link) (t : List Char) (up : Pipe Char) : Wired :=
  { delivery :=
      { s.delivery with
        received := s.delivery.received ++ ((incoming? t).map RpcRequest.pair).toList }
    links := s.links.set n { l with up } }

/-- `dispatchFrame`, for what `readLoop` has read from the connection `n`. -/
def Wired.dispatched (cfg : TCPConfig) (s : Wired) (n : Nat) (l : Link) (t : List Char)
    (down : Pipe Char) : Option Wired :=
  (s.delivery.client.step cfg (.loop (.readLine (Line.ofText t)))).map fun c =>
    { delivery := { s.delivery with client := c }, links := s.links.set n { l with down } }

/-- The connection `readLoop` reads. -/
def Wired.reading? (s : Wired) : Option (Nat × Link) :=
  match s.delivery.client.loop with
  | .reading n => s.links[n]?.map fun l => (n, l)
  | _ => none

/-- The connection a call is about to write to. -/
def Wired.writing? (s : Wired) (k : Nat) : Option (Call × Nat × Link) :=
  s.delivery.client.calls[k]?.bind fun call =>
    match call.pc with
    | .writing n => s.links[n]?.map fun l => (call, n, l)
    | _ => none

/-- One step of the system. -/
def Wired.step (wcfg : WorkerConfig) (cfg : TCPConfig) (s : Wired) : WiredLabel → Option Wired
  | .core a =>
      if a.isWire then none
      else (s.delivery.step wcfg cfg a).map fun d => { s with delivery := d }
  | .dial =>
      (s.delivery.step wcfg cfg (.client (.loop .dialOk))).map fun d =>
        { delivery := d, links := s.links ++ [{}] }
  | .enter k =>
      (s.writing? k).bind fun (call, n, l) =>
        if k ∈ l.writing.map Prod.fst then none
        else some { s with links := s.links.set n (l.enter k call.request) }
  | .push k count =>
      (s.writing? k).bind fun (_, n, l) =>
        (l.writing.lookup k).map fun rest => { s with links := s.links.set n (l.push k count rest) }
  | .write k err =>
      (s.writing? k).bind fun (_, n, l) =>
        (l.writing.lookup k).bind fun rest =>
          -- without an error everything was written
          if err = none ∧ rest ≠ [] then none
          else
            (s.delivery.step wcfg cfg (.client (.send k (.write err)))).map fun d =>
              { delivery := d, links := s.links.set n (l.leave k rest err) }
  | .toDaemon n count =>
      s.links[n]?.bind fun l =>
        (l.up.arrive count).map fun up => { s with links := s.links.set n { l with up } }
  | .toClient n count =>
      s.links[n]?.bind fun l =>
        (l.down.arrive count).map fun down => { s with links := s.links.set n { l with down } }
  | .cut n up down =>
      s.links[n]?.map fun l =>
        { s with links := s.links.set n { l with up := l.up.cut up, down := l.down.cut down } }
  | .handle n =>
      s.links[n]?.bind fun l => (l.up.line '\n').map fun (t, up) => s.handled n l t up
  | .handleRest n =>
      s.links[n]?.bind fun l => (l.up.rest '\n').map fun (t, up) => s.handled n l t up
  | .reply n text =>
      if '\n' ∉ text ∧ (Line.ofText text).isText = true then
        s.links[n]?.bind fun l =>
          (s.delivery.step wcfg cfg (.reply (Line.ofText text))).map fun d =>
            { delivery := d, links := s.links.set n (l.reply text) }
      else none
  | .readLine =>
      s.reading?.bind fun (n, l) =>
        (l.down.line '\n').bind fun (t, down) => s.dispatched cfg n l t down
  | .readRest =>
      s.reading?.bind fun (n, l) =>
        (l.down.rest '\n').bind fun (t, down) => s.dispatched cfg n l t down
  | .readEnd =>
      s.reading?.bind fun (n, l) =>
        l.down.close.bind fun down =>
          (s.delivery.step wcfg cfg (.client (.loop .readEnd))).map fun d =>
            { delivery := d, links := s.links.set n { l with down } }

variable {wcfg : WorkerConfig} {cfg : TCPConfig} {s s' : Wired} {a : WiredLabel}

/-- What a step of the system can do.  Steps that are alike for the proofs below share a
constructor. -/
inductive WiredMove (wcfg : WorkerConfig) (cfg : TCPConfig) (s : Wired) :
    WiredLabel → Wired → Prop where
  | core {a : DeliveryLabel} {d : Delivery} : a.isWire = false →
      s.delivery.step wcfg cfg a = some d →
      WiredMove wcfg cfg s (.core a) { s with delivery := d }
  | dial {d : Delivery} : s.delivery.step wcfg cfg (.client (.loop .dialOk)) = some d →
      WiredMove wcfg cfg s .dial { delivery := d, links := s.links ++ [{}] }
  | enter {k n : Nat} {call : Call} {l : Link} :
      s.delivery.client.calls[k]? = some call → call.pc = .writing n → s.links[n]? = some l →
      k ∉ l.writing.map Prod.fst →
      WiredMove wcfg cfg s (.enter k) { s with links := s.links.set n (l.enter k call.request) }
  | push {k n count : Nat} {l : Link} {rest : List Char} : s.links[n]? = some l →
      (k, rest) ∈ l.writing →
      WiredMove wcfg cfg s (.push k count) { s with links := s.links.set n (l.push k count rest) }
  | write {k n : Nat} {err : Option String} {call : Call} {l : Link} {rest : List Char}
      {d : Delivery} : s.delivery.client.calls[k]? = some call → call.pc = .writing n →
      s.links[n]? = some l → (k, rest) ∈ l.writing → (err = none → rest = []) →
      s.delivery.step wcfg cfg (.client (.send k (.write err))) = some d →
      WiredMove wcfg cfg s (.write k err)
        { delivery := d, links := s.links.set n (l.leave k rest err) }
  /-- Characters move, or are lost. -/
  | moved {a : WiredLabel} {n : Nat} {l : Link} {up down : Pipe Char} : s.links[n]? = some l →
      (l.up.Ok '\n' → up.Ok '\n') → (l.down.Ok '\n' → down.Ok '\n') →
      up.stream = l.up.stream → up.read = l.up.read → down.stream = l.down.stream →
      down.read = l.down.read →
      WiredMove wcfg cfg s a { s with links := s.links.set n { l with up, down } }
  | handled {a : WiredLabel} {n : Nat} {l : Link} {t : List Char} {up : Pipe Char} :
      s.links[n]? = some l → (l.up.Ok '\n' → up.Ok '\n') → up.stream = l.up.stream →
      up.read = l.up.read ++ [t] → WiredMove wcfg cfg s a (s.handled n l t up)
  | reply {n : Nat} {text : List Char} {l : Link} {d : Delivery} : '\n' ∉ text →
      (Line.ofText text).isText = true → s.links[n]? = some l →
      s.delivery.step wcfg cfg (.reply (Line.ofText text)) = some d →
      WiredMove wcfg cfg s (.reply n text)
        { delivery := d, links := s.links.set n (l.reply text) }
  | dispatched {a : WiredLabel} {n : Nat} {l : Link} {t : List Char} {down : Pipe Char}
      {c : Client} : s.delivery.client.loop = .reading n → s.links[n]? = some l →
      (l.down.Ok '\n' → down.Ok '\n') → down.stream = l.down.stream →
      down.read = l.down.read ++ [t] →
      s.delivery.client.step cfg (.loop (.readLine (Line.ofText t))) = some c →
      WiredMove wcfg cfg s a
        { delivery := { s.delivery with client := c }, links := s.links.set n { l with down } }
  | readEnd {n : Nat} {l : Link} {down : Pipe Char} {d : Delivery} : s.links[n]? = some l →
      (l.down.Ok '\n' → down.Ok '\n') → down.stream = l.down.stream →
      down.read = l.down.read → s.delivery.step wcfg cfg (.client (.loop .readEnd)) = some d →
      WiredMove wcfg cfg s .readEnd { delivery := d, links := s.links.set n { l with down } }

theorem Wired.reading?_eq {n : Nat} {l : Link} (h : s.reading? = some (n, l)) :
    s.delivery.client.loop = .reading n ∧ s.links[n]? = some l := by
  unfold Wired.reading? at h
  split at h
  · next m hloop =>
      obtain ⟨l', hl, heq⟩ := Option.map_eq_some_iff.mp h
      cases heq
      exact ⟨hloop, hl⟩
  · cases h

theorem Wired.writing?_eq {k n : Nat} {call : Call} {l : Link}
    (h : s.writing? k = some (call, n, l)) :
    s.delivery.client.calls[k]? = some call ∧ call.pc = .writing n ∧ s.links[n]? = some l := by
  obtain ⟨call', hcall, h⟩ := Option.bind_eq_some_iff.mp h
  split at h
  · next m hpc =>
      obtain ⟨l', hl, heq⟩ := Option.map_eq_some_iff.mp h
      cases heq
      exact ⟨hcall, hpc, hl⟩
  · cases h

theorem mem_of_lookup {ws : List (Nat × List Char)} {k : Nat} {rest : List Char}
    (h : ws.lookup k = some rest) : (k, rest) ∈ ws := by
  obtain ⟨l₁, l₂, rfl, _⟩ := List.lookup_eq_some_iff.mp h
  simp

theorem Wired.step_move (h : s.step wcfg cfg a = some s') : WiredMove wcfg cfg s a s' := by
  cases a with
  | core a =>
      simp only [Wired.step] at h
      split at h
      · cases h
      · next ha =>
          obtain ⟨d, hd, rfl⟩ := Option.map_eq_some_iff.mp h
          exact .core (by simpa using ha) hd
  | dial =>
      obtain ⟨d, hd, rfl⟩ := Option.map_eq_some_iff.mp h
      exact .dial hd
  | enter k =>
      obtain ⟨⟨call, n, l⟩, hw, h⟩ := Option.bind_eq_some_iff.mp h
      obtain ⟨hcall, hpc, hl⟩ := Wired.writing?_eq hw
      dsimp only at h
      split at h
      · cases h
      · next hk =>
          cases h
          exact .enter hcall hpc hl hk
  | push k count =>
      obtain ⟨⟨call, n, l⟩, hw, h⟩ := Option.bind_eq_some_iff.mp h
      obtain ⟨rest, hrest, rfl⟩ := Option.map_eq_some_iff.mp h
      exact .push (Wired.writing?_eq hw).2.2 (mem_of_lookup hrest)
  | write k err =>
      obtain ⟨⟨call, n, l⟩, hw, h⟩ := Option.bind_eq_some_iff.mp h
      obtain ⟨rest, hrest, h⟩ := Option.bind_eq_some_iff.mp h
      obtain ⟨hcall, hpc, hl⟩ := Wired.writing?_eq hw
      split at h
      · cases h
      · next hdone =>
          obtain ⟨d, hd, rfl⟩ := Option.map_eq_some_iff.mp h
          refine .write hcall hpc hl (mem_of_lookup hrest) (fun he => ?_) hd
          by_contra hne
          exact hdone ⟨he, hne⟩
  | toDaemon n count =>
      obtain ⟨l, hl, h⟩ := Option.bind_eq_some_iff.mp h
      obtain ⟨up, hup, rfl⟩ := Option.map_eq_some_iff.mp h
      obtain ⟨hs, hr⟩ := Pipe.arrive_eq hup
      exact .moved hl (fun hok => hok.arrive hup) id hs hr rfl rfl
  | toClient n count =>
      obtain ⟨l, hl, h⟩ := Option.bind_eq_some_iff.mp h
      obtain ⟨down, hdown, rfl⟩ := Option.map_eq_some_iff.mp h
      obtain ⟨hs, hr⟩ := Pipe.arrive_eq hdown
      exact .moved hl id (fun hok => hok.arrive hdown) rfl rfl hs hr
  | cut n up down =>
      obtain ⟨l, hl, rfl⟩ := Option.map_eq_some_iff.mp h
      exact .moved hl (fun hok => hok.cut up) (fun hok => hok.cut down) rfl rfl rfl rfl
  | handle n =>
      obtain ⟨l, hl, h⟩ := Option.bind_eq_some_iff.mp h
      obtain ⟨⟨t, up⟩, hup, rfl⟩ := Option.map_eq_some_iff.mp h
      obtain ⟨_, _, _, _, _, hp⟩ := Pipe.line_eq hup
      exact .handled hl (fun hok => hok.line hup) (by rw [hp]) (by rw [hp])
  | handleRest n =>
      obtain ⟨l, hl, h⟩ := Option.bind_eq_some_iff.mp h
      obtain ⟨⟨t, up⟩, hup, rfl⟩ := Option.map_eq_some_iff.mp h
      obtain ⟨_, _, _, _, hp⟩ := Pipe.rest_eq hup
      exact .handled hl (fun hok => hok.rest hup) (by rw [hp]) (by rw [hp])
  | reply n text =>
      simp only [Wired.step] at h
      split at h
      · next htext =>
          obtain ⟨l, hl, h⟩ := Option.bind_eq_some_iff.mp h
          obtain ⟨d, hd, rfl⟩ := Option.map_eq_some_iff.mp h
          exact .reply htext.1 htext.2 hl hd
      · cases h
  | readLine =>
      obtain ⟨⟨n, l⟩, hr, h⟩ := Option.bind_eq_some_iff.mp h
      obtain ⟨⟨t, down⟩, hdown, h⟩ := Option.bind_eq_some_iff.mp h
      obtain ⟨c, hc, rfl⟩ := Option.map_eq_some_iff.mp h
      obtain ⟨hloop, hl⟩ := Wired.reading?_eq hr
      obtain ⟨_, _, _, _, _, hp⟩ := Pipe.line_eq hdown
      exact .dispatched hloop hl (fun hok => hok.line hdown) (by rw [hp]) (by rw [hp]) hc
  | readRest =>
      obtain ⟨⟨n, l⟩, hr, h⟩ := Option.bind_eq_some_iff.mp h
      obtain ⟨⟨t, down⟩, hdown, h⟩ := Option.bind_eq_some_iff.mp h
      obtain ⟨c, hc, rfl⟩ := Option.map_eq_some_iff.mp h
      obtain ⟨hloop, hl⟩ := Wired.reading?_eq hr
      obtain ⟨_, _, _, _, hp⟩ := Pipe.rest_eq hdown
      exact .dispatched hloop hl (fun hok => hok.rest hdown) (by rw [hp]) (by rw [hp]) hc
  | readEnd =>
      obtain ⟨⟨n, l⟩, hr, h⟩ := Option.bind_eq_some_iff.mp h
      obtain ⟨down, hdown, h⟩ := Option.bind_eq_some_iff.mp h
      obtain ⟨d, hd, rfl⟩ := Option.map_eq_some_iff.mp h
      obtain ⟨_, hl⟩ := Wired.reading?_eq hr
      obtain ⟨hs, hread⟩ := Pipe.close_eq hdown
      exact .readEnd hl (fun hok => hok.close hdown) hs hread hd

end Signalium
