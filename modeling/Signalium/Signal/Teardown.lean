import Signalium.Signal.Demux
import Signalium.Signal.Disconnect

/-!
# No caller is left waiting on a dead connection

`dialLoop` tears a connection down in three steps: `failPending` releases the
registered callers, `conn.Close` ends the connection, and `c.conn = nil` takes
it away from new writers.  Between the first and the second step the connection
still takes frames, and the gate is still open.  A caller that registers in this
gap and writes is released by nobody.

A registered caller whose channel is empty has its entry, or the reader is about
to deliver to it (`Enlisted`), so `failPending` reaches every caller that has
registered before it.  What remains is the gap: callers are released exactly
when no frame is written to a connection whose teardown has begun by a caller
with an empty channel (`release_safe_iff`).
-/

namespace Signalium

open Replies Runs

variable {cfg : TCPConfig} {c c' : Client} {a : ClientLabel} {k n : Nat} {call call' : Call}

/-- `dialLoop` has finished with the connection: `failPending`, `conn.Close` and
`c.conn = nil` have been executed. -/
def Gone (c : Client) (n : Nat) : Prop := n < c.conns.length ∧ c.loop.newest? ≠ some n

/-- No caller whose frame went to a connection that is gone waits with an empty
channel. -/
def NoneWaiting (c : Client) : Prop :=
  ∀ (k : Nat) (call : Call), c.calls[k]? = some call → call.pc = .awaiting →
    ∀ n ∈ call.written, Gone c n → call.ch ≠ none

/-- The step is one of the teardown. -/
def OnlyTeardown (_ : Client) (a : ClientLabel) : Prop :=
  a = .loop .closeConn ∨ a = .loop .clearConn

/-- However far the teardown goes from here, it leaves no caller waiting. -/
def ReleaseSafe (cfg : TCPConfig) (c : Client) : Prop :=
  ∀ tr c', RunOf (Client.step cfg) OnlyTeardown c tr c' → NoneWaiting c'

/-- No frame goes to a connection whose teardown has begun while the channel of
its caller is empty. -/
def NoGapWrite (c : Client) (a : ClientLabel) : Prop :=
  ∀ k ∈ a.writer?, ∀ call ∈ c.calls[k]?, ∀ n ∈ call.pc.writes?, TornDown c n →
    call.ch.isSome = true

instance (c : Client) (a : ClientLabel) : Decidable (NoGapWrite c a) :=
  inferInstanceAs (Decidable (∀ k ∈ a.writer?, ∀ call ∈ c.calls[k]?, ∀ n ∈ call.pc.writes?, _ → _))

/-! ## Registered callers -/

/-- The call has come past its registration and has not left. -/
def CallPc.active : CallPc → Bool
  | .unlocked | .locked | .writing _ | .awaiting => true
  | _ => false

/-- A caller with an empty channel has its entry, or the reader has taken the
entry and is about to deliver. -/
def Enlisted (c : Client) : Prop :=
  ∀ (k : Nat) (call : Call) (id : String), c.calls[k]? = some call → call.pc.active = true →
    call.id = some id → call.ch = none →
    (id, k) ∈ c.pending ∨ ∃ conn resp, c.loop = .delivering conn k resp

/-- What holds of the callers and their entries. -/
structure EntryInv (cfg : TCPConfig) (c : Client) : Prop where
  demux : DemuxInv cfg c
  enlisted : Enlisted c
  named : ∀ (k : Nat) (call : Call), c.calls[k]? = some call → call.pc.active = true →
    call.id ≠ none

theorem entryInv_init : EntryInv cfg Client.init where
  demux := demuxInv_init
  enlisted := fun k call id h => by cases h
  named := fun k call h => by cases h

theorem TCPConfig.leave_active (cfg : TCPConfig) (r : Except SendError SendResult) :
    (cfg.leave r).active = false := by
  unfold TCPConfig.leave
  split <;> rfl

/-- A step of a caller that leaves it past its registration: it has registered
now, or had before, and its channel is as it was. -/
theorem CallMove.active {act : CallAct} {p : List (String × Nat)} {w : Option Nat}
    (h : CallMove cfg c k call act call' p w) (hcfg : cfg.ignoreResults = false)
    (hpc : call'.pc.active = true) :
    (∃ id, act = .register id ∧ call'.id = some id ∧ p = (id, k) :: erase c.pending id) ∨
      p = c.pending ∧ call'.id = call.id ∧ call'.ch = call.ch ∧ call.pc.active = true := by
  cases h with
  | register => exact Or.inl ⟨_, rfl, rfl, rfl⟩
  | fire _ h₂ => rw [hcfg] at h₂; cases h₂
  | lockWrite h₁ => exact Or.inr ⟨rfl, rfl, rfl, by rw [h₁]; rfl⟩
  | snapConn h₁ => exact Or.inr ⟨rfl, rfl, rfl, by rw [h₁]; rfl⟩
  | written h₁ => exact Or.inr ⟨rfl, rfl, rfl, by rw [h₁]; rfl⟩
  | snapNil | writeFailed =>
      rw [show _ = (cfg.leave _).active from rfl, cfg.leave_active] at hpc
      cases hpc
  | _ => cases hpc

/-- Two calls do not share an id. -/
theorem DemuxInv.id_unique (h : DemuxInv cfg c) {j : Nat} {other : Call} {id : String}
    (hcall : c.calls[k]? = some call) (hother : c.calls[j]? = some other)
    (hid : call.id = some id) (hid' : other.id = some id) : k = j :=
  h.router.unique k j _ _ id (Client.router_slot hcall) (Client.router_slot hother) hid hid'

/-- The caller an id is looked up for is the one that has registered it. -/
theorem DemuxInv.lookup_eq (h : DemuxInv cfg c) {j : Nat} {id : String}
    (hp : (id, k) ∈ c.pending) (hl : lookup c.pending id = some j) : k = j := by
  obtain ⟨call, hcall, hid, _⟩ := h.pending_empty hp
  obtain ⟨other, hother, hid', _⟩ := h.pending_empty (lookup_mem hl)
  exact h.id_unique hcall hother hid hid'

/-- Entries of a caller that another caller's step leaves alone. -/
theorem EntryInv.entry_stays (h : EntryInv cfg c) {j : Nat} {other other' : Call} {act : CallAct}
    {p : List (String × Nat)} {w : Option Nat} {id : String}
    (hmove : CallMove cfg c j other act other' p w) (hfresh : FreshIds c (.send j act))
    (hcall : c.calls[k]? = some call) (hother : c.calls[j]? = some other) (hkj : k ≠ j)
    (hid : call.id = some id) (hp : (id, k) ∈ c.pending) : (id, k) ∈ p := by
  cases hmove with
  | @register id' =>
      have hne : id ≠ id' := by
        rintro rfl
        exact (hfresh id rfl).1 call.slot (List.mem_of_getElem? (Client.router_slot hcall)) hid
      exact List.mem_cons_of_mem _ (mem_erase.mpr ⟨hp, hne⟩)
  | unregister =>
      cases hid' : other.id with
      | none => exact hp
      | some id' =>
          refine mem_erase.mpr ⟨hp, ?_⟩
          rintro rfl
          exact hkj (h.demux.id_unique hcall hother hid hid')
  | _ => exact hp

/-- After `failPending` nobody with an empty channel is past its registration. -/
theorem Enlisted.failPending (h : Enlisted c)
    (hnamed : ∀ (k : Nat) (call : Call), c.calls[k]? = some call → call.pc.active = true →
      call.id ≠ none)
    (hl : ∀ conn k resp, c.loop ≠ .delivering conn k resp)
    (hcall : c.failPending.calls[k]? = some call) (hpc : call.pc.active = true) :
    call.ch ≠ none := by
  simp only [Client.failPending, List.getElem?_mapIdx, Option.map_eq_some_iff] at hcall
  obtain ⟨old, hold, rfl⟩ := hcall
  intro hch
  unfold Call.fail at hpc hch
  split at hch
  · cases hch
  · next hno =>
      rw [if_neg hno] at hpc
      obtain ⟨id, hid⟩ := Option.ne_none_iff_exists'.mp (hnamed k old hold hpc)
      rcases h k old id hold hpc hid hch with hp | ⟨conn, resp, hd⟩
      · exact hno ⟨List.mem_map.mpr ⟨(id, k), hp, rfl⟩, by rw [hch]; rfl⟩
      · exact hl conn k resp hd

theorem EntryInv.enlisted_loop {act : LoopAct} (h : EntryInv cfg c) (hm : LoopMove c act c') :
    Enlisted c' := by
  intro k call id hcall hpc hid hch
  have hold := fun hcall => h.enlisted k call id hcall hpc hid hch
  cases hm with
  | @matched _ _ _ id' _ hl _ _ hlook =>
      rcases hold hcall with hp | ⟨conn, resp, hd⟩
      · by_cases hne : id = id'
        · subst hne
          obtain rfl := h.demux.lookup_eq hp hlook
          exact Or.inr ⟨_, _, rfl⟩
        · exact Or.inl (mem_erase.mpr ⟨hp, hne⟩)
      · rw [hl] at hd
        cases hd
  | deliver hl hcall₀ hch₀ =>
      rcases Places.of_set hcall with ⟨rfl, rfl⟩ | ⟨hne, hcall'⟩
      · cases hch
      · rcases hold hcall' with hp | ⟨conn, resp, hd⟩
        · exact Or.inl hp
        · rw [hl] at hd
          cases hd
          exact absurd rfl hne
  | failPending hl | shutdownFail hl =>
      exact absurd hch (h.enlisted.failPending h.named
        (fun _ _ _ hd => by rw [hl] at hd; cases hd) hcall hpc)
  | skipped | unmatched | ignored | event | eventDropped => exact hold hcall
  | checkStop hl | checkGo hl | dialOk hl | dialFailed hl | slept hl | sleptStop hl | publish hl
  | publishPanic hl | readEnd hl | closeConn hl | clearConn hl | checkClosedStop hl
  | checkClosedGo hl | rearm hl | shutdownMark hl =>
      -- these leave the callers alone, and the reader was not delivering
      rcases hold hcall with hp | ⟨conn, resp, hd⟩
      · exact Or.inl hp
      · rw [hl] at hd
        cases hd

theorem EntryInv.step (h : EntryInv cfg c) (hcfg : cfg.ignoreResults = false)
    (hfresh : FreshIds c a) (hs : c.step cfg a = some c') : EntryInv cfg c' where
  demux := h.demux.step hfresh hs
  enlisted := by
    cases Client.step_move hs with
    | call =>
        intro k call id hcall hpc hid hch
        rcases Places.of_snoc hcall with hold | ⟨_, rfl⟩
        · exact h.enlisted k call id hold hpc hid hch
        · cases hpc
    | @send j other other' act p w hother hmove =>
        intro k call id hcall hpc hid hch
        rcases Places.of_set hcall with ⟨rfl, rfl⟩ | ⟨hne, hold⟩
        · rcases hmove.active hcfg hpc with ⟨id', _, hid', rfl⟩ | ⟨rfl, hid₀, hch₀, hpc₀⟩
          · rw [hid] at hid'
            cases hid'
            exact Or.inl List.mem_cons_self
          · exact h.enlisted k other id hother hpc₀ (hid₀ ▸ hid) (hch₀ ▸ hch)
        · rcases h.enlisted k call id hold hpc hid hch with hp | hd
          · exact Or.inl (h.entry_stays hmove hfresh hold hother hne hid hp)
          · exact Or.inr hd
    | loop hm => exact h.enlisted_loop hm
    | close hm => cases hm <;> exact h.enlisted
    | consume => exact h.enlisted
  named := by
    intro k call' hcall' hpc
    rcases (Client.step_move hs).of_call hcall' with ⟨call, hcall, hev⟩ | ⟨params, _, _, rfl⟩
    · cases hev with
      | idle => exact h.named k _ hcall hpc
      | moved hm =>
          rcases hm.active hcfg hpc with ⟨id, _, hid, _⟩ | ⟨_, hid, _, hpc₀⟩
          · rw [hid]
            exact Option.some_ne_none id
          · rw [hid]
            exact h.named k call hcall hpc₀
      | delivered => exact h.named k call hcall hpc
      | failed => exact h.named k call hcall hpc
    · cases hpc

/-! ## Released callers -/

/-- No caller whose frame went to a connection whose teardown has begun waits with
an empty channel. -/
def Released (c : Client) : Prop :=
  ∀ (k : Nat) (call : Call), c.calls[k]? = some call → call.pc = .awaiting →
    ∀ n ∈ call.written, TornDown c n → call.ch ≠ none

theorem Released.noneWaiting (h : Released c) : NoneWaiting c := by
  intro k call hcall hpc n hn hgone
  refine h k call hcall hpc n hn ⟨hgone.1, fun hl => hgone.2 ?_⟩
  -- a live connection is still in the hands of `dialLoop`
  cases hloop : c.loop <;> rw [hloop] at hl <;> first | exact hl | cases hl

/-- Only `failPending` begins a teardown. -/
theorem TornDown.of_step (h : TornDown c' n) (hm : ClientMove cfg c a c') (hi : ConnInv c)
    (hn : n < c.conns.length) (ha : a ≠ .loop .failPending) : TornDown c n := by
  refine ⟨hn, fun hl => h.2 ?_⟩
  cases hm with
  | loop hm =>
      cases hm with
      | failPending => exact absurd rfl ha
      | publishPanic hd hg => exact absurd (hi.gate (by rw [hd]; rfl)) hg
      | _ => simp_all [LoopPc.live?]
  | close hm => cases hm <;> exact hl
  | _ => exact hl

/-- What the runs keep. -/
structure TeardownInv (cfg : TCPConfig) (c : Client) : Prop where
  entries : EntryInv cfg c
  conns : ConnInv c
  writes : WriteInv c

theorem teardownInv_init : TeardownInv cfg Client.init :=
  ⟨entryInv_init, connInv_init, writeInv_init⟩

theorem TeardownInv.step (h : TeardownInv cfg c) (hcfg : cfg.ignoreResults = false)
    (hfresh : FreshIds c a) (hs : c.step cfg a = some c') : TeardownInv cfg c' :=
  ⟨h.entries.step hcfg hfresh hs, h.conns.step hs, h.writes.step hs⟩

/-- A caller comes to wait by its write only. -/
theorem CallMove.awaiting {act : CallAct} {p : List (String × Nat)} {w : Option Nat}
    (h : CallMove cfg c k call act call' p w) (hpc : call'.pc = .awaiting) :
    act = .write none := by
  cases h with
  | written => rfl
  | snapNil | writeFailed =>
      exact absurd (congrArg CallPc.active hpc) (by rw [cfg.leave_active]; decide)
  | _ => cases hpc

/-- A step that is no write keeps callers released. -/
theorem Released.step_other (h : Released c) (hi : TeardownInv cfg c)
    (hs : c.step cfg a = some c') (ha : a.writer? = none) : Released c' := by
  have hm := Client.step_move hs
  intro k call' hcall' hpc n hn htorn
  by_cases hfail : a = .loop .failPending
  · -- `failPending` reaches everybody who waits
    subst hfail
    cases hm with
    | loop hm =>
        cases hm with
        | failPending hl =>
            have hact : call'.pc.active = true := by rw [hpc]; rfl
            exact hi.entries.enlisted.failPending hi.entries.named
              (fun _ _ _ hd => by rw [hl] at hd; cases hd) hcall' hact
  · rcases hm.of_call hcall' with ⟨call, hcall, hev⟩ | ⟨params, _, _, rfl⟩
    · cases hev with
      | idle =>
          have hbound := hi.writes.bound k _ hcall n hn
          exact h k _ hcall hpc n hn (htorn.of_step hm hi.conns hbound hfail)
      | moved hmove =>
          obtain rfl := hmove.awaiting hpc
          cases ha
      | delivered => exact Option.some_ne_none _
      | failed => exact Option.some_ne_none _
    · cases hpc

/-- A write keeps callers released exactly when it is not one into the gap. -/
theorem Released.write_iff (h : Released c) (hcfg : cfg.ignoreResults = false)
    (hs : c.step cfg (.send k (.write none)) = some c') :
    Released c' ↔ NoGapWrite c (.send k (.write none)) := by
  obtain ⟨call, conn, hcall, hpc, rfl⟩ := Client.write_step hcfg hs
  rw [NoGapWrite, forall_writer_iff hcall hpc]
  constructor
  · intro hr htorn
    have hch := hr k _ (Places.set_self hcall) rfl conn rfl htorn
    exact Option.isSome_iff_ne_none.mpr hch
  · intro hsafe j call' hcall' hpc' n hn htorn
    rcases Places.of_set hcall' with ⟨rfl, rfl⟩ | ⟨_, hold⟩
    · cases hn
      exact Option.isSome_iff_ne_none.mp (hsafe htorn)
    · exact h j call' hold hpc' n hn htorn

theorem Released.step_iff (h : Released c) (hi : TeardownInv cfg c)
    (hcfg : cfg.ignoreResults = false) (hs : c.step cfg a = some c') :
    Released c' ↔ NoGapWrite c a := by
  refine ClientLabel.iff_of_write (h.step_other hi hs) ?_
  rintro k rfl
  exact h.write_iff hcfg hs

/-! ## The rest of the teardown -/

/-- Where the teardown of the connection is, once it has begun. -/
theorem TornDown.cases (h : TornDown c n) :
    Gone c n ∨ c.loop = .closing n ∨ c.loop = .clearing n := by
  by_cases hnew : c.loop.newest? = some n
  · cases hl : c.loop with
    | closing m => rw [hl] at hnew; cases hnew; exact Or.inr (Or.inl rfl)
    | clearing m => rw [hl] at hnew; cases hnew; exact Or.inr (Or.inr rfl)
    | _ =>
        rw [hl] at hnew
        exact absurd (hl ▸ hnew) h.2
  · exact Or.inl ⟨h.1, hnew⟩

/-- The teardown can go on to its end, and does nothing for the callers. -/
theorem ReleaseSafe.released (h : ReleaseSafe cfg c) : Released c := by
  intro k call hcall hpc n hn htorn
  rcases htorn.cases with hgone | hl | hl
  · exact h [] c .nil k call hcall hpc n hn hgone
  · have hclose : c.step cfg (.loop .closeConn) =
        some { c with conns := c.conns.set n true, loop := .clearing n } := by
      simp only [Client.step, Client.loopStep, hl]
    refine h _ _ (.snoc (.snoc .nil (Or.inl rfl) hclose) (Or.inr rfl) rfl) k call hcall hpc n hn
      ⟨?_, fun hnew => by cases hnew⟩
    rw [List.length_set]
    exact htorn.1
  · have hclear : c.step cfg (.loop .clearConn) =
        some { c with conn := none, loop := .cleared c.closed } := by
      simp only [Client.step, Client.loopStep, hl]
    exact h _ _ (.snoc .nil (Or.inr rfl) hclear) k call hcall hpc n hn
      ⟨htorn.1, fun hnew => by cases hnew⟩

/-! ## Whole runs -/

/-- **No missed disconnect** along a run with fresh ids exactly when no frame of
the run is written into the gap of a teardown by a caller with an empty channel:
whatever the daemon, the reconnects and the other callers do, from each state
the teardown goes as far as it likes. -/
theorem release_safe_iff {tr : List ClientLabel} (hcfg : cfg.ignoreResults = false)
    (hr : RunOf (Client.step cfg) FreshIds Client.init tr c) :
    Always (Client.step cfg) Client.init tr (ReleaseSafe cfg) ↔
      RunOf (Client.step cfg) NoGapWrite Client.init tr c := by
  refine hr.always_continued_iff (J := TeardownInv cfg) (K := Released) (P := NoneWaiting)
    teardownInv_init (fun k call hcall => by cases hcall)
    (fun _ _ _ hi hf hs => hi.step hcfg hf hs) ?_ (fun _ _ hrel => hrel.noneWaiting) ?_
    (fun _ _ hsafe => ReleaseSafe.released hsafe)
    (fun _ _ _ hi hrel _ hs => hrel.step_iff hi hcfg hs)
  · rintro _ _ (rfl | rfl) id hid <;> cases hid
  · rintro s _ s' hi hrel (rfl | rfl) hs
    · exact hrel.step_other hi hs rfl
    · exact hrel.step_other hi hs rfl

/-- One caller has written before the connection is lost, another one registers
before and writes after `failPending`; both are released. -/
def releasedCallers : List ClientLabel :=
  ([.loop .check, .loop .dialOk, .loop .publish,
    .call { account := "+1", message := "a", attachments := [] },
    .call { account := "+1", message := "b", attachments := [] }] : List ClientLabel) ++
  sendSteps 0 "id-a" ++
  ([.send 1 .snapshot, .send 1 .gateOpen, .send 1 (.register "id-b"), .loop .readEnd,
    .loop .failPending, .send 1 .lockWrite, .send 1 .snapConn, .send 1 (.write none),
    .loop .closeConn, .loop .clearConn] : List ClientLabel)

theorem releasedCallers_release_safe :
    ∃ c, RunOf (Client.step ⟨false⟩) FreshIds Client.init releasedCallers c ∧
      c.loop.newest? = none ∧
      Always (Client.step ⟨false⟩) Client.init releasedCallers (ReleaseSafe ⟨false⟩) := by
  have hr : RunOf (Client.step ⟨false⟩) FreshIds Client.init releasedCallers _ :=
    runOf_of_execOf rfl
  exact ⟨_, hr, rfl, (release_safe_iff rfl hr).mpr (runOf_of_execOf rfl)⟩

/-- The daemon has closed its sending side.  A caller passes the gate, registers
after `failPending` and writes before `conn.Close`. -/
def writtenIntoGap : List ClientLabel :=
  ([.loop .check, .loop .dialOk, .loop .publish,
    .call { account := "+1", message := "a", attachments := [] },
    .loop .readEnd, .loop .failPending] : List ClientLabel) ++
  sendSteps 0 "id-a" ++ ([.loop .closeConn, .loop .clearConn] : List ClientLabel)

/-- The connection is gone, and the caller whose frame it took waits with an empty
channel. -/
theorem writtenIntoGap_waits :
    ∃ c call, RunOf (Client.step ⟨false⟩) FreshIds Client.init writtenIntoGap c ∧
      c.calls[0]? = some call ∧ call.pc = .awaiting ∧ call.written = some 0 ∧
      call.ch = none ∧ c.pending = [("id-a", 0)] ∧ Gone c 0 ∧ ¬ NoneWaiting c := by
  have hr : RunOf (Client.step ⟨false⟩) FreshIds Client.init writtenIntoGap _ :=
    runOf_of_execOf rfl
  have hgone : ∀ {c : Client}, c.conns = [true] → c.loop = .cleared false → Gone c 0 := by
    intro c hc hl
    exact ⟨by rw [hc]; decide, by rw [hl]; exact fun h => by cases h⟩
  exact ⟨_, _, hr, rfl, rfl, rfl, rfl, rfl, hgone rfl rfl,
    fun h => h 0 _ rfl rfl 0 rfl (hgone rfl rfl) rfl⟩

end Signalium
