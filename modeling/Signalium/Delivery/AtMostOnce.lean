import Signalium.Delivery.Wired
import Signalium.Signal.WriteLock

/-!
# At most once over the connections

The system over its connections refines `Delivery` (`wire_refines`), so that what holds
of every run there holds here.  Moreover `writeMu` keeps the frames apart: no request is
received that was not written, none is received twice, those of one connection are
received in the order of the writes, and none is lost unless the connection breaks
(`wire_at_most_once`).

A connection is described by `Link.Ok`.  Its frames are the texts of the requests of
calls, one after the other, and the last one may be under way.  What the daemon has read
is a beginning of them, and what it makes of a beginning was settled with the frames
(`requestsRead_take`).  In the other direction a line that was cut is the line the daemon
has written, or none (`Line.ofText_cut`).
-/

namespace Signalium

open Runs Pipes

variable {wcfg : WorkerConfig} {cfg : TCPConfig} {s s' : Wired} {a : WiredLabel}

/-! ## Ranges -/

section Ranges

variable {d d' : Delivery} {b : DeliveryLabel}

/-- The parameters of dispatches and calls, the ids of calls, and the lock. -/
structure CallsOk (cfg : TCPConfig) (d : Delivery) : Prop where
  prepared : ∀ (i : Nat) (x : Dispatch) (params : SendParams), d.outbox.dispatches[i]? = some x →
    x.phase.params? = some params → params.InRange
  ranged : ∀ (k : Nat) (call : Call), d.client.calls[k]? = some call → call.params.InRange
  named : ∀ (k : Nat) (call : Call), d.client.calls[k]? = some call → call.Named cfg
  locked : d.client.Locked

theorem callsOk_init : CallsOk cfg Delivery.init where
  prepared := fun i x params hx => by cases hx
  ranged := fun k call hcall => by cases hcall
  named := fun k call hcall => by cases hcall
  locked := fun k call hcall => by cases hcall

theorem CallsOk.step (h : CallsOk cfg d) (hm : DeliveryMove wcfg cfg d b d') : CallsOk cfg d' where
  prepared := by
    intro i x params hx hp
    rcases hm.outbox_step with heq | ⟨b, hb, _⟩
    · rw [heq] at hx
      exact h.prepared i x params hx hp
    · rcases Outbox.params_step hb hx hp with ⟨y, hy, _, hp₀⟩ | ⟨_, hbuilt⟩
      · exact h.prepared i y params hy hp₀
      · exact buildSendParams_inRange hbuilt
  ranged := by
    intro k call' hcall'
    rcases hm.of_call hcall' with ⟨call, hcall, hparams⟩ | ⟨i, x, _, hx, hphase, _⟩
    · rw [hparams]
      exact h.ranged k call hcall
    · exact h.prepared i x _ hx (by rw [hphase]; rfl)
  named := by
    intro k call' hcall'
    rcases hm.client_step with heq | ⟨b, hb, _⟩
    · rw [heq] at hcall'
      exact h.named k call' hcall'
    · rcases (Client.step_move hb).of_call hcall' with ⟨call, hcall, hev⟩ | ⟨_, _, _, rfl⟩
      · exact hev.named (h.named k call hcall)
      · exact fun _ hp => by cases hp
  locked := by
    rcases hm.client_step with heq | ⟨b, hb, _⟩
    · rw [heq]
      exact h.locked
    · exact h.locked.step hb

end Ranges

/-! ## The invariant -/

/-- The calls in `P` that are in `conn.Write`, or past it, keep their requests, and stay. -/
def Client.Keeps (P : Nat → Prop) (c c' : Client) : Prop :=
  ∀ (k : Nat) (call : Call), P k → c.calls[k]? = some call →
    (call.pc.isPast = true → ∃ call', c'.calls[k]? = some call' ∧ call'.pc.isPast = true ∧
      call'.id = call.id ∧ call'.params = call.params) ∧
    ∀ n, call.pc = .writing n → ∃ call', c'.calls[k]? = some call' ∧ call'.pc = .writing n ∧
      call'.id = call.id ∧ call'.params = call.params

theorem Client.Keeps.refl (P : Nat → Prop) (c : Client) : c.Keeps P c :=
  fun _ call _ hcall => ⟨fun hp => ⟨call, hcall, hp, rfl, rfl⟩,
    fun _ hp => ⟨call, hcall, hp, rfl, rfl⟩⟩

theorem Client.keeps_step {c c' : Client} {b : ClientLabel} (h : c.step cfg b = some c') :
    c.Keeps (fun k => ∀ err, b ≠ .send k (.write err)) c' := by
  intro k call hb hcall
  obtain ⟨call', hcall', hev⟩ := (Client.step_move h).call_stays hcall
  exact ⟨fun hp => ⟨call', hcall', hev.past hp⟩, fun n hp => ⟨call', hcall', hev.writing hp hb⟩⟩

theorem DeliveryMove.keeps {d d' : Delivery} {b : DeliveryLabel}
    (h : DeliveryMove wcfg cfg d b d') :
    d.client.Keeps (fun k => ∀ err, b ≠ .client (.send k (.write err))) d'.client := by
  intro k call hb hcall
  cases h with
  | client _ hc => exact Client.keeps_step hc k call (fun err he => hb err (by rw [he])) hcall
  | send _ _ _ hc => exact Client.keeps_step hc k call (fun err he => by cases he) hcall
  | read _ hc => exact Client.keeps_step hc k call (fun err he => by cases he) hcall
  | _ => exact Client.Keeps.refl (fun _ => True) _ k call trivial hcall

/-- What holds of the connection `n`: both directions carry what was written, the frames are
those of calls and written one after the other, and the lines are known to the daemon. -/
structure Link.Ok (cfg : TCPConfig) (c : Client) (sent : List Line) (n : Nat) (l : Link) :
    Prop where
  up : l.up.Ok '\n'
  down : l.down.Ok '\n'
  /-- At most one call is in `conn.Write`, with the last of the frames. -/
  alone : l.writing.length ≤ 1
  opened : ∀ w ∈ l.writing, w.1 ∈ l.written.map Prod.fst ∧
    ∃ call, c.calls[w.1]? = some call ∧ call.pc = .writing n
  frames : l.up.stream ++ l.writing.flatMap Prod.snd = requestStream (l.written.map Prod.snd)
  replies : l.down.stream = Lines.unlines '\n' l.texts
  written : ∀ p ∈ l.written, ∃ call, c.calls[p.1]? = some call ∧ call.request = p.2 ∧
    (cfg.ignoreResults = false → call.id.isSome = true) ∧
    (call.pc.isPast = true ∨ p.1 ∈ l.writing.map Prod.fst)
  texts : ∀ t ∈ l.texts, '\n' ∉ t ∧ (Line.ofText t).isText = true ∧ Line.ofText t ∈ sent

theorem Link.ok_new (c : Client) (sent : List Line) (n : Nat) : Link.Ok cfg c sent n {} where
  up := Pipe.ok_new
  down := Pipe.ok_new
  alone := Nat.zero_le _
  opened := fun w hw => by cases hw
  frames := rfl
  replies := rfl
  written := fun p hp => by cases hp
  texts := fun t ht => by cases ht

theorem Link.Ok.mono {c c' : Client} {sent sent' : List Line} {n : Nat} {l : Link}
    {P : Nat → Prop} (h : l.Ok cfg c sent n) (hc : c.Keeps P c')
    (hP : ∀ p ∈ l.written, P p.1) (hsent : ∀ line ∈ sent, line ∈ sent') :
    l.Ok cfg c' sent' n :=
  { h with
    opened := by
      intro w hw
      obtain ⟨hmem, call, hcall, hpc⟩ := h.opened w hw
      obtain ⟨p, hp, hpw⟩ := List.mem_map.mp hmem
      obtain ⟨call', hcall', hpc', _⟩ := (hc w.1 call (hpw ▸ hP p hp) hcall).2 n hpc
      exact ⟨hmem, call', hcall', hpc'⟩
    written := by
      intro p hp
      obtain ⟨call, hcall, hreq, hid, hwhere⟩ := h.written p hp
      obtain ⟨hpast, hwriting⟩ := hc p.1 call (hP p hp) hcall
      have hreq' : ∀ {call' : Call}, call'.id = call.id → call'.params = call.params →
          call'.request = p.2 := by
        intro call' hid' hparams'
        rw [← hreq, Call.request, Call.request, hid', hparams']
      rcases hwhere with hp₀ | hw
      · obtain ⟨call', hcall', hp', hid', hparams'⟩ := hpast hp₀
        exact ⟨call', hcall', hreq' hid' hparams', fun hcfg => by rw [hid']; exact hid hcfg,
          Or.inl hp'⟩
      · obtain ⟨w, hw', hwp⟩ := List.mem_map.mp hw
        obtain ⟨_, call₀, hcall₀, hpc⟩ := h.opened w hw'
        rw [hwp, hcall] at hcall₀
        cases hcall₀
        obtain ⟨call', hcall', _, hid', hparams'⟩ := hwriting n hpc
        exact ⟨call', hcall', hreq' hid' hparams', fun hcfg => by rw [hid']; exact hid hcfg,
          Or.inr hw⟩
    texts := by
      intro t ht
      obtain ⟨hnl, htext, hmem⟩ := h.texts t ht
      exact ⟨hnl, htext, hsent _ hmem⟩ }

/-- The calls that have written, connection by connection. -/
def Wired.writers (s : Wired) : List Nat := s.links.flatMap fun l => l.written.map Prod.fst

/-- What the daemon has received, connection by connection. -/
def Wired.received (s : Wired) : List RpcRequest := s.links.flatMap Link.received

structure WiredInv (cfg : TCPConfig) (s : Wired) : Prop where
  calls : CallsOk cfg s.delivery
  links : ∀ (n : Nat) (l : Link), s.links[n]? = some l →
    l.Ok cfg s.delivery.client s.delivery.sent n
  once : s.writers.Nodup
  received : s.delivery.received.Perm (s.received.map RpcRequest.pair)

theorem wiredInv_init : WiredInv cfg Wired.init where
  calls := callsOk_init
  links := fun n l hl => by cases hl
  once := List.nodup_nil
  received := List.Perm.refl _

/-- A step of `Delivery` that does not touch the connections. -/
theorem WiredInv.delivery {b : DeliveryLabel} {d : Delivery} (h : WiredInv cfg s)
    (hd : s.delivery.step wcfg cfg b = some d) (hb : ∀ k, b ≠ .receive k)
    (hw : ∀ k err, b ≠ .client (.send k (.write err))) :
    WiredInv cfg { s with delivery := d } where
  calls := h.calls.step (Delivery.step_move hd)
  links := fun n l hl =>
    (h.links n l hl).mono (Delivery.step_move hd).keeps (fun p _ err => hw p.1 err)
      (Delivery.step_move hd).histories.1
  once := h.once
  received := by
    have heq : d.received = s.delivery.received := by
      cases Delivery.step_move hd with
      | receive => exact absurd rfl (hb _)
      | _ => rfl
    rw [show ({ s with delivery := d } : Wired).delivery.received = d.received from rfl, heq]
    exact h.received

/-- One connection changes. -/
theorem WiredInv.setLink {n : Nat} {l l' : Link} {ks : List Nat} (h : WiredInv cfg s)
    (hl : s.links[n]? = some l) (hok : l'.Ok cfg s.delivery.client s.delivery.sent n)
    (hw : l'.written.map Prod.fst = l.written.map Prod.fst ++ ks) (hks : (s.writers ++ ks).Nodup)
    (hr : l'.received = l.received) : WiredInv cfg { s with links := s.links.set n l' } where
  calls := h.calls
  links := fun m l₀ hm => by
    rcases Places.of_set hm with ⟨rfl, rfl⟩ | ⟨_, hm⟩
    · exact hok
    · exact h.links m l₀ hm
  once := by
    have hperm : (Wired.writers { s with links := s.links.set n l' }).Perm (s.writers ++ ks) :=
      Places.flatMap_set_perm (fun l : Link => l.written.map Prod.fst) hw hl
    exact hperm.nodup_iff.mpr hks
  received := by
    have hperm : (Wired.received { s with links := s.links.set n l' }).Perm (s.received ++ []) :=
      Places.flatMap_set_perm _ (by rw [hr, List.append_nil]) hl
    rw [List.append_nil] at hperm
    exact h.received.trans (hperm.map _).symm

/-- One connection changes, and no call begins to write. -/
theorem WiredInv.setLink_same {n : Nat} {l l' : Link} (h : WiredInv cfg s)
    (hl : s.links[n]? = some l) (hok : l'.Ok cfg s.delivery.client s.delivery.sent n)
    (hw : l'.written = l.written) (hr : l'.received = l.received) :
    WiredInv cfg { s with links := s.links.set n l' } :=
  h.setLink hl hok (by rw [hw, List.append_nil]) (by rw [List.append_nil]; exact h.once) hr

theorem WiredInv.newLink (h : WiredInv cfg s) :
    WiredInv cfg { s with links := s.links ++ [{}] } where
  calls := h.calls
  links := fun n l hl => by
    rcases Places.of_snoc hl with hl | ⟨_, rfl⟩
    · exact h.links n l hl
    · exact Link.ok_new _ _ _
  once := by
    have hsame : Wired.writers { s with links := s.links ++ [{}] } = s.writers := by
      simp [Wired.writers]
    rw [hsame]
    exact h.once
  received := by
    have hsame : Wired.received { s with links := s.links ++ [{}] } = s.received := by
      simp [Wired.received, Link.received]
    rw [hsame]
    exact h.received

theorem requestStream_append (reqs : List RpcRequest) (r : RpcRequest) :
    requestStream (reqs ++ [r]) = requestStream reqs ++ (r.text ++ ['\n']) := by
  simp [requestStream, Lines.unlines]

/-- A call that is in `conn.Write` of a connection is there alone. -/
theorem Link.Ok.writing_eq {c : Client} {sent : List Line} {n k : Nat} {l : Link}
    {rest : List Char} (h : l.Ok cfg c sent n) (hw : (k, rest) ∈ l.writing) :
    l.writing = [(k, rest)] := by
  have halone := h.alone
  cases hl : l.writing with
  | nil => rw [hl] at hw; cases hw
  | cons w ws =>
      rw [hl] at hw halone
      have hws : ws = [] := List.length_eq_zero_iff.mp (by simpa using halone)
      rw [hws] at hw ⊢
      rw [List.mem_singleton.mp hw]

/-- A call that writes and has not entered `conn.Write` is the only one at the lock. -/
theorem WiredInv.not_writing {k n m : Nat} {call : Call} {l : Link} (h : WiredInv cfg s)
    (hcall : s.delivery.client.calls[k]? = some call) (hpc : call.pc = .writing n)
    (hl : s.links[m]? = some l) (hk : m = n → k ∉ l.writing.map Prod.fst) : l.writing = [] := by
  cases hw : l.writing with
  | nil => rfl
  | cons w ws =>
      obtain ⟨_, call', hcall', hpc'⟩ := (h.links m l hl).opened w (by rw [hw]; simp)
      have hlock := h.calls.locked k call hcall (by rw [hpc]; rfl)
      have hlock' := h.calls.locked w.1 call' hcall' (by rw [hpc']; rfl)
      have hsame : w.1 = k := Option.some.inj (hlock'.symm.trans hlock)
      rw [hsame, hcall] at hcall'
      cases hcall'
      rw [hpc] at hpc'
      cases hpc'
      refine absurd ?_ (hk rfl)
      rw [hw, List.map_cons, hsame]
      exact List.mem_cons_self

/-- A call that writes and is in no `conn.Write` has not written. -/
theorem WiredInv.not_writer {k n : Nat} {call : Call} {l : Link} (h : WiredInv cfg s)
    (hcall : s.delivery.client.calls[k]? = some call) (hpc : call.pc = .writing n)
    (hl : s.links[n]? = some l) (hk : k ∉ l.writing.map Prod.fst) : k ∉ s.writers := by
  intro hmem
  obtain ⟨l', hl', hmem⟩ := List.mem_flatMap.mp hmem
  obtain ⟨p, hp, rfl⟩ := List.mem_map.mp hmem
  obtain ⟨m, hm⟩ := List.mem_iff_getElem?.mp hl'
  obtain ⟨call', hcall', _, _, hpast | hw⟩ := (h.links m l' hm).written p hp
  · rw [hcall] at hcall'
    cases hcall'
    rw [hpc] at hpast
    cases hpast
  · have hempty := h.not_writing hcall hpc hm fun hmn => by
      rw [hmn, hl] at hm
      cases hm
      exact hk
    rw [hempty] at hw
    cases hw

theorem WiredInv.enter {k n : Nat} {call : Call} {l : Link} (h : WiredInv cfg s)
    (hcall : s.delivery.client.calls[k]? = some call) (hpc : call.pc = .writing n)
    (hl : s.links[n]? = some l) (hk : k ∉ l.writing.map Prod.fst) :
    WiredInv cfg { s with links := s.links.set n (l.enter k call.request) } := by
  have hold := h.links n l hl
  have hempty := h.not_writing hcall hpc hl fun _ => hk
  have hframes := hold.frames
  rw [hempty] at hframes
  have hwritten : (l.enter k call.request).written.map Prod.fst =
      l.written.map Prod.fst ++ [k] := by
    simp [Link.enter]
  refine h.setLink hl ?_ hwritten ?_ rfl
  · exact {
      up := hold.up
      down := hold.down
      alone := by simp [Link.enter, hempty]
      opened := by
        intro w hw
        simp only [Link.enter, hempty, List.nil_append, List.mem_singleton] at hw
        rw [hw]
        exact ⟨by simp [Link.enter], call, hcall, hpc⟩
      frames := by
        rw [List.flatMap_nil, List.append_nil] at hframes
        simp only [Link.enter, hempty, List.nil_append, List.flatMap_singleton, List.map_append,
          List.map_singleton, requestStream_append, hframes]
      replies := hold.replies
      written := by
        intro p hp
        rcases List.mem_append.mp hp with hp | hp
        · obtain ⟨call', hcall', hreq, hid, hwhere⟩ := hold.written p hp
          refine ⟨call', hcall', hreq, hid, hwhere.imp_right fun hw => ?_⟩
          rw [hempty] at hw
          cases hw
        · rw [List.mem_singleton.mp hp]
          exact ⟨call, hcall, rfl, fun hcfg => h.calls.named k call hcall hcfg (by rw [hpc]; rfl),
            Or.inr (by simp [Link.enter])⟩
      texts := hold.texts }
  · rw [List.nodup_append]
    refine ⟨h.once, List.nodup_singleton k, fun i hi j hj he => ?_⟩
    rw [he, List.mem_singleton.mp hj] at hi
    exact h.not_writer hcall hpc hl hk hi

theorem WiredInv.push {k n count : Nat} {l : Link} {rest : List Char} (h : WiredInv cfg s)
    (hl : s.links[n]? = some l) (hw : (k, rest) ∈ l.writing) :
    WiredInv cfg { s with links := s.links.set n (l.push k count rest) } := by
  have hold := h.links n l hl
  have hone := hold.writing_eq hw
  have hnew : (l.push k count rest).writing = [(k, rest.drop count)] := by
    simp [Link.push, hone]
  have hframes := hold.frames
  rw [hone] at hframes
  refine h.setLink_same hl ?_ rfl rfl
  exact {
    up := hold.up.write _
    down := hold.down
    alone := by simp [hnew]
    opened := by
      intro w hw'
      rw [hnew] at hw'
      rw [List.mem_singleton.mp hw']
      exact hold.opened (k, rest) hw
    frames := by
      rw [hnew]
      change l.up.stream ++ rest.take count ++ _ = requestStream (l.written.map Prod.snd)
      rw [← hframes]
      simp
    replies := hold.replies
    written := by
      intro p hp
      obtain ⟨call, hcall, hreq, hid, hwhere⟩ := hold.written p hp
      refine ⟨call, hcall, hreq, hid, hwhere.imp_right fun hw' => ?_⟩
      rw [hone] at hw'
      rw [hnew]
      exact hw'
    texts := hold.texts }

/-- What is left of a connection when `conn.Write` returns. -/
theorem Link.Ok.leave {c c' : Client} {sent : List Line} {k n : Nat} {err : Option String}
    {call : Call} {l : Link} {rest : List Char} (h : l.Ok cfg c sent n)
    (hcall : c.calls[k]? = some call) (hw : (k, rest) ∈ l.writing) (hdone : err = none → rest = [])
    (hc : c.step cfg (.send k (.write err)) = some c') :
    (l.leave k rest err).Ok cfg c' sent n := by
  have hone := h.writing_eq hw
  have hnil : (l.leave k rest err).writing = [] := by
    simp [Link.leave, hone]
  have hframes := h.frames
  rw [hone, List.flatMap_singleton] at hframes
  exact {
    up := by
      cases err with
      | none => exact h.up
      | some e => exact h.up.fail rest
    down := h.down
    alone := by rw [hnil]; exact Nat.zero_le _
    opened := by rw [hnil]; exact fun w hw => by cases hw
    frames := by
      rw [hnil, List.flatMap_nil, List.append_nil]
      change (if err.isSome then l.up.fail rest else l.up).stream = _
      cases err with
      | none => rw [hdone rfl, List.append_nil] at hframes; exact hframes
      | some e => exact hframes
    replies := h.replies
    written := by
      intro p hp
      obtain ⟨call₀, hcall₀, hreq, hid, hwhere⟩ := h.written p hp
      by_cases hpk : p.1 = k
      · rw [hpk, hcall] at hcall₀
        cases hcall₀
        obtain ⟨call', hcall', hpast, hid', hparams'⟩ := Client.write_past hc hcall
        refine ⟨call', by rw [hpk]; exact hcall', ?_, fun hcfg => by rw [hid']; exact hid hcfg,
          Or.inl hpast⟩
        rw [← hreq, Call.request, Call.request, hid', hparams']
      · have hpast : call₀.pc.isPast = true := by
          refine hwhere.resolve_right fun hmem => hpk ?_
          rw [hone] at hmem
          exact List.mem_singleton.mp hmem
        have hother : ∀ e, ClientLabel.send k (.write err) ≠ .send p.1 (.write e) := by
          intro e he
          injection he with hk
          exact hpk hk.symm
        obtain ⟨call', hcall', hpast', hid', hparams'⟩ :=
          (Client.keeps_step hc p.1 call₀ hother hcall₀).1 hpast
        refine ⟨call', hcall', ?_, fun hcfg => by rw [hid']; exact hid hcfg, Or.inl hpast'⟩
        rw [← hreq, Call.request, Call.request, hid', hparams']
    texts := h.texts }

/-- `conn.Write` returns. -/
theorem WiredInv.leave {k n : Nat} {err : Option String} {call : Call} {l : Link}
    {rest : List Char} {d : Delivery} (h : WiredInv cfg s)
    (hcall : s.delivery.client.calls[k]? = some call) (hpc : call.pc = .writing n)
    (hl : s.links[n]? = some l) (hw : (k, rest) ∈ l.writing) (hdone : err = none → rest = [])
    (hd : s.delivery.step wcfg cfg (.client (.send k (.write err))) = some d) :
    WiredInv cfg { delivery := d, links := s.links.set n (l.leave k rest err) } := by
  have hcalls := h.calls.step (Delivery.step_move hd)
  have hold := h.links n l hl
  cases Delivery.step_move hd with
  | @client _ c' _ hc =>
      -- no other connection knows the call
      have hother : ∀ (m : Nat) (l' : Link), m ≠ n → s.links[m]? = some l' →
          ∀ p ∈ l'.written, ∀ e, ClientLabel.send k (.write err) ≠ .send p.1 (.write e) := by
        intro m l' hmn hm p hp e he
        injection he with hk
        obtain ⟨call', hcall', _, _, hpast | hw'⟩ := (h.links m l' hm).written p hp
        · rw [← hk, hcall] at hcall'
          cases hcall'
          rw [hpc] at hpast
          cases hpast
        · obtain ⟨w, hw', hwp⟩ := List.mem_map.mp hw'
          obtain ⟨_, call'', hcall'', hpc''⟩ := (h.links m l' hm).opened w hw'
          rw [hwp, ← hk, hcall] at hcall''
          cases hcall''
          rw [hpc] at hpc''
          cases hpc''
          exact hmn rfl
      have hlinks : ∀ (m : Nat) (l' : Link),
          (s.links.set n (l.leave k rest err))[m]? = some l' →
          l'.Ok cfg c' s.delivery.sent m := by
        intro m l' hm
        rcases Places.of_set hm with ⟨rfl, rfl⟩ | ⟨hmn, hm⟩
        · exact hold.leave hcall hw hdone hc
        · exact (h.links m l' hm).mono (Client.keeps_step hc) (hother m l' hmn hm) fun _ h => h
      have hpermW : (Wired.writers
          { delivery := s.delivery, links := s.links.set n (l.leave k rest err) }).Perm
          (s.writers ++ []) :=
        Places.flatMap_set_perm (fun l : Link => l.written.map Prod.fst)
          (by rw [List.append_nil]; rfl) hl
      have hread : (l.leave k rest err).received = l.received := by
        cases err <;> rfl
      have hpermR : (Wired.received
          { delivery := s.delivery, links := s.links.set n (l.leave k rest err) }).Perm
          (s.received ++ []) :=
        Places.flatMap_set_perm Link.received (by rw [hread, List.append_nil]) hl
      rw [List.append_nil] at hpermW hpermR
      exact ⟨hcalls, hlinks, hpermW.nodup_iff.mpr h.once,
        h.received.trans (hpermR.map _).symm⟩

/-- The daemon reads from a connection. -/
theorem WiredInv.handled {n : Nat} {l : Link} {t : List Char} {up : Pipe Char}
    (h : WiredInv cfg s) (hl : s.links[n]? = some l) (hok : up.Ok '\n')
    (hstream : up.stream = l.up.stream) (hread : up.read = l.up.read ++ [t]) :
    WiredInv cfg (s.handled n l t up) where
  calls := ⟨h.calls.prepared, h.calls.ranged, h.calls.named, h.calls.locked⟩
  links := fun m l' hm => by
    rcases Places.of_set hm with ⟨rfl, rfl⟩ | ⟨_, hm⟩
    · have hold := h.links m l hl
      exact { hold with up := hok, frames := by rw [hstream]; exact hold.frames }
    · exact h.links m l' hm
  once := by
    have hperm : (s.handled n l t up).writers.Perm (s.writers ++ []) :=
      Places.flatMap_set_perm _ (by rw [List.append_nil]) hl
    rw [List.append_nil] at hperm
    exact hperm.nodup_iff.mpr h.once
  received := by
    have hlink : Link.received { l with up } = l.received ++ (incoming? t).toList := by
      simp only [Link.received, hread, List.filterMap_append]
      cases hin : incoming? t <;> simp [hin]
    have hperm : (s.handled n l t up).received.Perm (s.received ++ (incoming? t).toList) :=
      Places.flatMap_set_perm _ hlink hl
    have hmap : (s.received ++ (incoming? t).toList).map RpcRequest.pair =
        s.received.map RpcRequest.pair ++ ((incoming? t).map RpcRequest.pair).toList := by
      cases incoming? t <;> simp
    exact (h.received.append_right _).trans (hmap ▸ (hperm.map RpcRequest.pair).symm)

/-- A line the client reads is one the daemon has written, or it holds no frame. -/
theorem Link.Ok.of_read {c : Client} {sent : List Line} {n : Nat} {l : Link} {t : List Char}
    (h : l.Ok cfg c sent n) (ht : t ∈ l.down.read) :
    (Line.ofText t).frame? = none ∨ Line.ofText t ∈ sent := by
  obtain ⟨hread, hpart⟩ := h.down.read_eq
  rw [hread] at ht
  rw [h.replies] at hpart
  obtain ⟨line, hline, hcut⟩ := Lines.mem_tokens_prefix hpart ht
  rw [Lines.tokens_unlines fun l hl => (h.texts l hl).1] at hline
  obtain ⟨text, htext, rfl⟩ := List.mem_map.mp hline
  obtain ⟨_, hok, hsent⟩ := h.texts text htext
  rcases Line.ofText_cut (by rwa [Line.ofText_newline]) hcut with hnone | hsame
  · exact Or.inl hnone
  · rw [hsame, Line.ofText_newline]
    exact Or.inr hsent

/-- A read of the client is a read of `Delivery`, or nothing happens. -/
theorem WiredInv.dispatched (wcfg : WorkerConfig) {n : Nat} {l : Link} {t : List Char}
    {down : Pipe Char} {c : Client} (h : WiredInv cfg s)
    (hloop : s.delivery.client.loop = .reading n) (hl : s.links[n]? = some l)
    (hok : down.Ok '\n') (hstream : down.stream = l.down.stream)
    (hread : down.read = l.down.read ++ [t])
    (hc : s.delivery.client.step cfg (.loop (.readLine (Line.ofText t))) = some c) :
    c = s.delivery.client ∨
      ∃ m, s.delivery.step wcfg cfg (.read m) = some { s.delivery with client := c } := by
  have hold := h.links n l hl
  have hnew : Link.Ok cfg s.delivery.client s.delivery.sent n { l with down } :=
    { hold with down := hok, replies := hstream.trans hold.replies }
  have ht : t ∈ down.read := by
    rw [hread]
    exact List.mem_append_right _ (List.mem_singleton_self t)
  rcases hnew.of_read ht with hnone | hsent
  · refine Or.inl ?_
    simp only [Client.step, Client.loopStep, hloop, Client.dispatchFrame, hnone] at hc
    exact (Option.some.inj hc).symm
  · obtain ⟨m, hm⟩ := List.mem_iff_getElem?.mp hsent
    exact Or.inr ⟨m, by simp only [Delivery.step, hm, Option.bind_some, hc, Option.map_some]⟩

/-- The frames of a connection are requests of calls, with timestamps in range. -/
theorem WiredInv.inRange {n : Nat} {l : Link} (h : WiredInv cfg s)
    (hok : l.Ok cfg s.delivery.client s.delivery.sent n) :
    ∀ r ∈ l.written.map Prod.snd, r.params.InRange := by
  intro r hr
  obtain ⟨p, hp, rfl⟩ := List.mem_map.mp hr
  obtain ⟨call, hcall, hreq, _⟩ := hok.written p hp
  rw [← hreq]
  exact h.calls.ranged p.1 call hcall

theorem Link.Ok.requestsRead_eq {c : Client} {sent : List Line} {n : Nat} {l : Link}
    (h : l.Ok cfg c sent n) : l.received = requestsRead l.up.read.flatten :=
  congrArg (List.filterMap incoming?) h.up.read_eq.1

/-- What the daemon has received over a connection: the requests that have arrived. -/
theorem WiredInv.received_eq {n : Nat} {l : Link} (h : WiredInv cfg s)
    (hok : l.Ok cfg s.delivery.client s.delivery.sent n) :
    l.received = (l.written.map Prod.snd).take
      (arrived (l.written.map Prod.snd) l.up.read.flatten.length) := by
  have hpart : l.up.read.flatten <+: requestStream (l.written.map Prod.snd) := by
    rw [← hok.frames]
    exact hok.up.read_eq.2.trans (List.prefix_append _ _)
  rw [hok.requestsRead_eq]
  conv_lhs => rw [List.prefix_iff_eq_take.mp hpart]
  exact requestsRead_take (h.inRange hok) _

/-- What the daemon reads is received in `Delivery`, or nothing happens. -/
theorem WiredInv.receives (wcfg : WorkerConfig) (hcfg : cfg.ignoreResults = false)
    (h : WiredInv cfg s) {n : Nat} {l : Link} {t : List Char} {up : Pipe Char}
    (hl : s.links[n]? = some l) (hok : up.Ok '\n')
    (hstream : up.stream = l.up.stream) (hread : up.read = l.up.read ++ [t]) :
    (s.handled n l t up).delivery = s.delivery ∨
      ∃ k, s.delivery.step wcfg cfg (.receive k) = some (s.handled n l t up).delivery := by
  cases hin : incoming? t with
  | none => exact Or.inl (by simp [Wired.handled, hin])
  | some r =>
      have hold := h.links n l hl
      have hnew : Link.Ok cfg s.delivery.client s.delivery.sent n { l with up } :=
        { hold with up := hok, frames := by rw [hstream]; exact hold.frames }
      have hr : r ∈ Link.received { l with up } := by
        refine List.mem_filterMap.mpr ⟨t, ?_, hin⟩
        rw [show ({ l with up } : Link).up = up from rfl, hread]
        exact List.mem_append_right _ (List.mem_singleton_self t)
      rw [h.received_eq hnew] at hr
      obtain ⟨p, hp, rfl⟩ := List.mem_map.mp (List.mem_of_mem_take hr)
      obtain ⟨call, hcall, hreq, hid, _⟩ := hold.written p hp
      obtain ⟨id, hsome⟩ := Option.isSome_iff_exists.mp (hid hcfg)
      refine Or.inr ⟨p.1, ?_⟩
      simp only [Delivery.step, hcall, Option.bind_some, hsome, Option.map_some, Wired.handled, hin,
        ← hreq, Call.request, RpcRequest.pair, Option.getD_some, Option.toList_some]

/-! ## Steps and runs -/

theorem WiredInv.step (h : WiredInv cfg s) (hm : WiredMove wcfg cfg s a s') :
    WiredInv cfg s' := by
  cases hm with
  | core ha hd =>
      exact h.delivery hd (by rintro k rfl; cases ha) (by rintro k err rfl; cases ha)
  | dial hd =>
      exact (h.delivery hd (fun k hk => by cases hk) (fun k err hk => by cases hk)).newLink
  | enter hcall hpc hl hk => exact h.enter hcall hpc hl hk
  | push hl hw => exact h.push hl hw
  | write hcall hpc hl hw hdone hd => exact h.leave hcall hpc hl hw hdone hd
  | @moved a n l up down hl hup hdown hs hr hds _ =>
      have hold := h.links n l hl
      refine h.setLink_same hl ?_ rfl (congrArg (List.filterMap incoming?) hr)
      exact { hold with
        up := hup hold.up
        down := hdown hold.down
        frames := by rw [hs]; exact hold.frames
        replies := hds.trans hold.replies }
  | handled hl hup hs hr => exact h.handled hl (hup (h.links _ _ hl).up) hs hr
  | @reply n text l d hnl htext hl hd =>
      have hd' := h.delivery hd (fun k hk => by cases hk) (fun k err hk => by cases hk)
      have hold := hd'.links n l hl
      refine hd'.setLink_same hl ?_ rfl rfl
      exact { hold with
        down := hold.down.write _
        replies := by
          change l.down.stream ++ (text ++ ['\n']) = Lines.unlines '\n' (l.texts ++ [text])
          rw [hold.replies]
          simp [Lines.unlines]
        texts := by
          intro t ht
          rcases List.mem_append.mp ht with ht | ht
          · exact hold.texts t ht
          · rw [List.mem_singleton.mp ht]
            refine ⟨hnl, htext, ?_⟩
            cases hd
            exact List.mem_append_right _ (List.mem_singleton_self _) }
  | @dispatched a n l t down c hloop hl hdown hs hr hc =>
      have hok := hdown (h.links n l hl).down
      have hbase : WiredInv cfg { s with delivery := { s.delivery with client := c } } := by
        rcases h.dispatched wcfg hloop hl hok hs hr hc with rfl | ⟨m, hm⟩
        · exact h
        · exact h.delivery hm (fun k hk => by cases hk) (fun k err hk => by cases hk)
      have hold := hbase.links n l hl
      exact hbase.setLink_same hl
        { hold with down := hok, replies := hs.trans hold.replies } rfl rfl
  | @readEnd n l down d hl hdown hs _ hd =>
      have hd' := h.delivery hd (fun k hk => by cases hk) (fun k err hk => by cases hk)
      have hold := hd'.links n l hl
      exact hd'.setLink_same hl
        { hold with down := hdown hold.down, replies := hs.trans hold.replies } rfl rfl

theorem Wired.wiredInv {tr : List WiredLabel} (hr : Run (Wired.step wcfg cfg) Wired.init tr s) :
    WiredInv cfg s :=
  hr.invariant wiredInv_init fun _ _ _ h _ hs => h.step (Wired.step_move hs)

/-- What is assumed of the environment, as for `Delivery`. -/
def WiredAssumed (s : Wired) : WiredLabel → Prop
  | .core a => Assumed s.delivery a
  | .reply _ text => Assumed s.delivery (.reply (Line.ofText text))
  | _ => True

instance (s : Wired) : (a : WiredLabel) → Decidable (WiredAssumed s a)
  | .core a => inferInstanceAs (Decidable (Assumed s.delivery a))
  | .reply _ text => inferInstanceAs (Decidable (Assumed s.delivery (.reply (Line.ofText text))))
  | .dial | .enter _ | .push _ _ | .write _ _ | .toDaemon _ _ | .toClient _ _ | .cut _ _ _
  | .handle _ | .handleRest _ | .readLine | .readRest | .readEnd => .isTrue trivial

/-- A step is a step of `Delivery`, or `Delivery` does not see it. -/
theorem WiredInv.refines_step (hcfg : cfg.ignoreResults = false) (h : WiredInv cfg s)
    (ha : WiredAssumed s a) (hm : WiredMove wcfg cfg s a s') :
    s'.delivery = s.delivery ∨
      ∃ b, Assumed s.delivery b ∧ s.delivery.step wcfg cfg b = some s'.delivery := by
  have hdraws : ∀ {b : ClientLabel}, b.draws? = none → Assumed s.delivery (.client b) := by
    intro b hb id hid
    rw [hb] at hid
    cases hid
  cases hm with
  | core _ hd => exact Or.inr ⟨_, ha, hd⟩
  | dial hd => exact Or.inr ⟨_, hdraws rfl, hd⟩
  | write _ _ _ _ _ hd => exact Or.inr ⟨_, hdraws rfl, hd⟩
  | enter | push | moved => exact Or.inl rfl
  | handled hl hup hs hr =>
      rcases h.receives wcfg hcfg hl (hup (h.links _ _ hl).up) hs hr with hsame | ⟨k, hk⟩
      · exact Or.inl hsame
      · exact Or.inr ⟨.receive k, trivial, hk⟩
  | @reply n text _ _ _ _ _ hd => exact Or.inr ⟨.reply (Line.ofText text), ha, hd⟩
  | dispatched hloop hl hdown hs hr hc =>
      rcases h.dispatched wcfg hloop hl (hdown (h.links _ _ hl).down) hs hr hc with
        rfl | ⟨m, hm⟩
      · exact Or.inl rfl
      · exact Or.inr ⟨.read m, trivial, hm⟩
  | readEnd _ _ _ _ hd => exact Or.inr ⟨_, hdraws rfl, hd⟩

/-- In the mode that waits for replies: the system over its connections, whatever is lost on
them and wherever they are cut, is a run of `Delivery` under the same assumptions, and no row
is `SENT` that the daemon has not confirmed. -/
theorem wire_refines {tr : List WiredLabel} (hcfg : cfg.ignoreResults = false)
    (hr : RunOf (Wired.step wcfg cfg) WiredAssumed Wired.init tr s) :
    (∃ tr', RunOf (Delivery.step wcfg cfg) Assumed Delivery.init tr' s.delivery) ∧
      NoFalseSent wcfg.account s.delivery := by
  have hrefines : ∃ tr', RunOf (Delivery.step wcfg cfg) Assumed Delivery.init tr' s.delivery := by
    refine hr.refines (f := Wired.delivery) (I := WiredInv cfg) wiredInv_init ?_
    intro s a s' h ha hs
    have hm := Wired.step_move hs
    refine ⟨h.step hm, ?_⟩
    rcases h.refines_step hcfg ha hm with hsame | ⟨b, hb, hstep⟩
    · rw [hsame]
      exact ⟨[], .nil⟩
    · exact ⟨[] ++ [b], .snoc .nil hb hstep⟩
  obtain ⟨tr', hr'⟩ := hrefines
  have hlink : LinkInv wcfg cfg s.delivery :=
    hr'.invariant linkInv_init fun _ _ _ h ha hs => h.move hcfg ha (Delivery.step_move hs)
  exact ⟨⟨tr', hr'⟩, hlink.rows⟩

/-- A message is claimed and sent.  The request and the reply arrive in pieces, the daemon
confirms, and the row is marked. -/
def confirmedWire : List WiredLabel :=
  [.core (.outbox (.insert "m-1" plainParams)), .core (.outbox (.claim [] .committed)),
   .core (.outbox (.dispatch 0 .start)), .core (.outbox (.dispatch 0 (.downloaded (.ok [])))),
   .core (.client (.loop .check)), .dial, .core (.client (.loop .publish)), .core (.send 0),
   .core (.client (.send 0 .snapshot)), .core (.client (.send 0 .gateOpen)),
   .core (.client (.send 0 (.register "id-1"))), .core (.client (.send 0 .lockWrite)),
   .core (.client (.send 0 .snapConn)), .enter 0, .push 0 60, .toDaemon 0 40, .push 0 200,
   .write 0 none, .toDaemon 0 200, .handle 0,
   .reply 0 (Json.text (.obj [("id", .str "id-1"), ("result", .obj [("timestamp", .num "1700")])])),
   .toClient 0 10, .toClient 0 200, .readLine, .core (.client (.loop .deliver)),
   .core (.client (.send 0 .awaitResp)), .core (.client (.send 0 .unregister)),
   .core (.returned 0), .core (.outbox (.dispatch 0 (.markSent .committed)))]

theorem confirmedWire_refines :
    ∃ s, RunOf (Wired.step defaultConfig ⟨false⟩) WiredAssumed Wired.init confirmedWire s ∧
      s.delivery.outbox.table.rows.map (fun r => (r.status, r.resultId)) =
        [(.sent, some "1700")] ∧
      NoFalseSent defaultConfig.account s.delivery := by
  have hexec : (execOf (Wired.step defaultConfig ⟨false⟩) WiredAssumed Wired.init
      confirmedWire).map
        (fun s => s.delivery.outbox.table.rows.map fun r => (r.status, r.resultId)) =
      some [(.sent, some "1700")] := by
    decide +kernel
  obtain ⟨s, hs, htable⟩ := Option.map_eq_some_iff.mp hexec
  have hr := runOf_of_execOf hs
  exact ⟨s, hr, htable, (wire_refines rfl hr).2⟩

/-- Whatever the calls, the connections and the daemon do: no call writes twice, and at most one
at a time writes to a connection; what the daemon has received are requests of calls, those of
one connection in the order of the writes and from the first one on; and on a connection that
has not broken it has received all, once everything was written, has arrived and was handled. -/
theorem wire_at_most_once {tr : List WiredLabel}
    (hr : Run (Wired.step wcfg cfg) Wired.init tr s) :
    s.writers.Nodup ∧ s.delivery.received.Perm (s.received.map RpcRequest.pair) ∧
      ∀ l ∈ s.links,
        (∀ p ∈ l.written, ∃ call, s.delivery.client.calls[p.1]? = some call ∧
          call.request = p.2) ∧
        l.writing.length ≤ 1 ∧ l.received <+: l.written.map Prod.snd ∧
        (l.writing = [] → l.up.broken = false → l.up.flight = [] → l.up.buf = [] →
          l.received = l.written.map Prod.snd) := by
  have h := Wired.wiredInv hr
  refine ⟨h.once, h.received, fun l hl => ?_⟩
  obtain ⟨n, hn⟩ := List.mem_iff_getElem?.mp hl
  have hok := h.links n l hn
  refine ⟨fun p hp => ?_, hok.alone, ?_, fun hw hb hf hbuf => ?_⟩
  · obtain ⟨call, hcall, hreq, _⟩ := hok.written p hp
    exact ⟨call, hcall, hreq⟩
  · rw [h.received_eq hok]
    exact List.take_prefix _ _
  · have hframes := hok.frames
    rw [hw, List.flatMap_nil, List.append_nil] at hframes
    rw [hok.requestsRead_eq, hok.up.read_all hb hf hbuf, hframes]
    exact requestsRead_all (h.inRange hok)

/-- Two messages are sent over one connection, which breaks in the second frame. -/
def brokenWire : List WiredLabel :=
  [.core (.outbox (.insert "m-1" plainParams)),
   .core (.outbox (.insert "m-2" { plainParams with externalId := "ext-2" })),
   .core (.outbox (.claim [] .committed)), .core (.outbox (.claim [] .committed)),
   .core (.outbox (.dispatch 0 .start)), .core (.outbox (.dispatch 0 (.downloaded (.ok [])))),
   .core (.outbox (.dispatch 1 .start)), .core (.outbox (.dispatch 1 (.downloaded (.ok [])))),
   .core (.client (.loop .check)), .dial, .core (.client (.loop .publish)), .core (.send 0),
   .core (.send 1), .core (.client (.send 0 .snapshot)), .core (.client (.send 1 .snapshot)),
   .core (.client (.send 0 .gateOpen)), .core (.client (.send 1 .gateOpen)),
   .core (.client (.send 1 (.register "id-1"))), .core (.client (.send 0 (.register "id-2"))),
   .core (.client (.send 1 .lockWrite)), .core (.client (.send 1 .snapConn)), .enter 1,
   .push 1 300, .write 1 none, .core (.client (.send 0 .lockWrite)),
   .core (.client (.send 0 .snapConn)), .enter 0, .push 0 30, .write 0 (some "broken pipe"),
   .toDaemon 0 50, .toDaemon 0 500, .handle 0, .handleRest 0]

theorem brokenWire_at_most_once :
    ∃ s, Run (Wired.step defaultConfig ⟨false⟩) Wired.init brokenWire s ∧
      s.writers = [1, 0] ∧ s.delivery.received.map Prod.fst = ["id-1"] ∧ s.writers.Nodup ∧
      s.delivery.received.Perm (s.received.map RpcRequest.pair) := by
  have hexec : (exec (Wired.step defaultConfig ⟨false⟩) Wired.init brokenWire).map
      (fun s => (s.writers, s.delivery.received.map Prod.fst)) = some ([1, 0], ["id-1"]) := by
    decide +kernel
  obtain ⟨s, hs, heq⟩ := Option.map_eq_some_iff.mp hexec
  have hr := run_of_exec hs
  obtain ⟨honce, hperm, _⟩ := wire_at_most_once hr
  exact ⟨s, hr, congrArg Prod.fst heq, congrArg Prod.snd heq, honce, hperm⟩

end Signalium
