import Signalium.Delivery.AtMostOnce
import Signalium.Delivery.Inserted
import Signalium.Delivery.Targets

/-!
# Outbound messages, from the request to the daemon

The calls of `Enqueue` together with the workers, the client and the connections.  A step
is one of `Wired`, or one of a call of `Enqueue` on the table the workers share with it.
Rows come from calls of `Enqueue` only.

Seen from the service the system is a run of `Pipeline` (`Outbound.pipeline_run`), and seen
from the workers a run of `Wired` (`Outbound.wired_run`), so what holds of the parts holds
here.  Put together: a request the daemon reads off a connection says what a validated
request to the service has asked for, to the target it has asked for, and each dispatch is
behind at most one of them (`received_as_asked`).
-/

namespace Signalium

open Runs Tables

variable {svc : ServiceConfig} {wcfg : WorkerConfig} {cfg : TCPConfig}

/-! ## Calls and dispatches -/

section Callers

variable {d d' : Delivery} {b : DeliveryLabel}

/-- The dispatch has not called `Send` yet. -/
def Phase.unsent : Phase → Bool
  | .claimed | .downloading | .ready _ => true
  | _ => false

theorem ActStep.unsent {now : Int} {x x' : Dispatch} {ac : Act} (h : ActStep wcfg now x ac x')
    (hx : x.phase.unsent = false) : x'.phase.unsent = false := by
  cases h with
  | start hp | downloadFailed hp | refused hp _ | built hp _ | send hp =>
      rw [hp] at hx
      cases hx
  | markSent =>
      simp only [Dispatch.afterMarkSent]
      split
      · rfl
      · split <;> rfl
  | markFailed =>
      simp only [Dispatch.afterMarkFailed]
      split <;> rfl
  | cancel => exact hx
  | _ => rfl

theorem Outbox.unsent_step {o o' : Outbox} {c : Label} {i : Nat} {x : Dispatch}
    (h : o.step wcfg c = some o') (hx : o.dispatches[i]? = some x) (hp : x.phase.unsent = false) :
    ∃ x', o'.dispatches[i]? = some x' ∧ x'.phase.unsent = false := by
  obtain ⟨x', hx', hev⟩ := Outbox.dispatch_stays h hx
  refine ⟨x', hx', ?_⟩
  rcases hev.cases_act with ⟨_, _, _, hact⟩ | ⟨_, hphase, _⟩
  · exact hact.unsent hp
  · rw [hphase]
    exact hp

/-- Every call of `Send` is of a dispatch of its own, with what was built from its message. -/
structure CallersInv (wcfg : WorkerConfig) (d : Delivery) : Prop where
  length : d.callers.length = d.client.calls.length
  prepared : ∀ (i : Nat) (x : Dispatch) (params : SendParams), d.outbox.dispatches[i]? = some x →
    x.phase.params? = some params → ∃ paths, buildSendParams wcfg.account x.msg paths = .ok params
  built : ∀ (k i : Nat) (call : Call), d.callers[k]? = some i → d.client.calls[k]? = some call →
    ∃ x paths, d.outbox.dispatches[i]? = some x ∧
      buildSendParams wcfg.account x.msg paths = .ok call.params
  once : d.callers.Nodup
  sent : ∀ i ∈ d.callers, ∃ x, d.outbox.dispatches[i]? = some x ∧ x.phase.unsent = false

theorem callersInv_init : CallersInv wcfg Delivery.init where
  length := rfl
  prepared := fun i x params hx => by cases hx
  built := fun k i call hi => by cases hi
  once := List.nodup_nil
  sent := fun i hi => by cases hi

theorem CallersInv.sent_step (h : CallersInv wcfg d) (hm : DeliveryMove wcfg cfg d b d') {i : Nat}
    (hi : i ∈ d.callers) : ∃ x, d'.outbox.dispatches[i]? = some x ∧ x.phase.unsent = false := by
  obtain ⟨x, hx, hp⟩ := h.sent i hi
  rcases hm.outbox_step with heq | ⟨c, hc, _⟩
  · rw [heq]
    exact ⟨x, hx, hp⟩
  · exact Outbox.unsent_step hc hx hp

theorem CallersInv.step (h : CallersInv wcfg d) (hm : DeliveryMove wcfg cfg d b d') :
    CallersInv wcfg d' where
  length := hm.callers_length h.length
  prepared := fun _ _ _ => hm.prepared_stays h.prepared
  built := fun _ _ _ => hm.built_stays h.length h.prepared h.built
  once := by
    cases hm with
    | @send i x params _ _ hx hphase _ _ =>
        -- the dispatch is about to call, so it has not called before
        refine List.nodup_append'.mpr ⟨h.once, List.nodup_singleton i, ?_⟩
        rw [List.disjoint_singleton]
        intro hi
        obtain ⟨y, hy, hp⟩ := h.sent i hi
        cases hx.symm.trans hy
        rw [hphase] at hp
        cases hp
    | _ => exact h.once
  sent := by
    intro i hi
    by_cases hold : i ∈ d.callers
    · exact h.sent_step hm hold
    · cases hm with
      | @send j x params _ _ hx hphase ho _ =>
          rcases List.mem_append.mp hi with hi | hi
          · exact absurd hi hold
          · rw [List.mem_singleton.mp hi]
            obtain ⟨x', hx', hev⟩ := Outbox.dispatch_stays ho hx
            refine ⟨x', hx', ?_⟩
            rcases hev.cases_act with ⟨ac, hac, _, hact⟩ | ⟨hne, _⟩
            · cases hac
              cases hact
              rfl
            · exact absurd rfl (hne .send)
      | _ => exact absurd hi hold

/-- The calls and dispatches of a run over connections. -/
theorem CallersInv.wired {s s' : Wired} {a : WiredLabel} (h : CallersInv wcfg s.delivery)
    (hw : WiredInv cfg s) (hm : WiredMove wcfg cfg s a s') : CallersInv wcfg s'.delivery := by
  cases hm with
  | core _ hd | dial hd | write _ _ _ _ _ hd | reply _ _ _ hd | readEnd _ _ _ _ hd =>
      exact h.step (Delivery.step_move hd)
  | enter | push | moved => exact h
  | handled => exact ⟨h.length, h.prepared, h.built, h.once, h.sent⟩
  | dispatched hloop hl hdown hs hr hc =>
      rcases hw.dispatched wcfg hloop hl (hdown (hw.links _ _ hl).down) hs hr hc with
        rfl | ⟨m, hm⟩
      · exact h
      · exact h.step (Delivery.step_move hm)

end Callers

/-! ## The system -/

/-- The workers, the client and the connections, the objects, and the calls of `Enqueue`. -/
structure Outbound where
  wired : Wired
  objects : Objects
  calls : List EnqueueCall
  /-- History: what `uuid.New` has drawn, and for which call. -/
  drawn : List (Nat × UUID)

def Outbound.init : Outbound := ⟨Wired.init, fun _ _ => none, [], []⟩

/-- What the service and the workers share. -/
def Outbound.pipeline (s : Outbound) : Pipeline :=
  ⟨s.wired.delivery.outbox, s.objects, s.calls, s.drawn⟩

/-- The state after a step of the service. -/
def Outbound.withPipeline (s : Outbound) (p : Pipeline) : Outbound where
  wired := { s.wired with delivery := { s.wired.delivery with outbox := p.outbox } }
  objects := p.objects
  calls := p.calls
  drawn := p.drawn

def WiredLabel.isInsert : WiredLabel → Bool
  | .core (.outbox b) => b.isInsert
  | _ => false

/-- A step of the service, or of the workers, the client, the daemon and the connections. -/
inductive OutboundLabel where
  | service (a : IntakeLabel)
  | wired (a : WiredLabel)

/-- One step. -/
def Outbound.step (svc : ServiceConfig) (wcfg : WorkerConfig) (cfg : TCPConfig) (s : Outbound) :
    OutboundLabel → Option Outbound
  | .service a => (s.pipeline.step svc wcfg (.intake a)).map s.withPipeline
  | .wired a =>
      if a.isInsert then none else (s.wired.step wcfg cfg a).map fun w => { s with wired := w }

variable {s s' : Outbound} {a : OutboundLabel} {tr : List OutboundLabel}

/-- What a step can do. -/
inductive OutboundMove (svc : ServiceConfig) (wcfg : WorkerConfig) (cfg : TCPConfig)
    (s : Outbound) : OutboundLabel → Outbound → Prop where
  | service {a : IntakeLabel} {p : Pipeline} : s.pipeline.step svc wcfg (.intake a) = some p →
      OutboundMove svc wcfg cfg s (.service a) (s.withPipeline p)
  | wired {a : WiredLabel} {w : Wired} : a.isInsert = false → s.wired.step wcfg cfg a = some w →
      OutboundMove svc wcfg cfg s (.wired a) { s with wired := w }

theorem Outbound.step_move (h : s.step svc wcfg cfg a = some s') :
    OutboundMove svc wcfg cfg s a s' := by
  cases a with
  | service a =>
      obtain ⟨p, hp, rfl⟩ := Option.map_eq_some_iff.mp h
      exact .service hp
  | wired a =>
      simp only [Outbound.step] at h
      split at h
      · cases h
      · next ha =>
          obtain ⟨w, hw, rfl⟩ := Option.map_eq_some_iff.mp h
          exact .wired (by simpa using ha) hw

/-- The step of the outbox in a step over connections. -/
theorem WiredMove.outbox_step {w w' : Wired} {b : WiredLabel} (h : WiredMove wcfg cfg w b w') :
    w'.delivery.outbox = w.delivery.outbox ∨
      ∃ c, w.delivery.outbox.step wcfg c = some w'.delivery.outbox ∧
        (b = .core (.outbox c) ∨ c.isSend = true) := by
  have hdelivery : ∀ {e : DeliveryLabel} {d : Delivery},
      w.delivery.step wcfg cfg e = some d → d.outbox = w.delivery.outbox ∨
        ∃ c, w.delivery.outbox.step wcfg c = some d.outbox ∧
          (e = .outbox c ∨ c.isSend = true) :=
    fun hd => (Delivery.step_move hd).outbox_step
  cases h with
  | core _ hd =>
      rcases hdelivery hd with heq | ⟨c, hc, hb⟩
      · exact Or.inl heq
      · exact Or.inr ⟨c, hc, hb.imp_left fun he => by rw [he]⟩
  | dial hd | write _ _ _ _ _ hd | reply _ _ _ hd | readEnd _ _ _ _ hd =>
      rcases hdelivery hd with heq | ⟨c, hc, hb | hb⟩
      · exact Or.inl heq
      · cases hb
      · exact Or.inr ⟨c, hc, Or.inr hb⟩
  | _ => exact Or.inl rfl

/-- The service and the workers take their steps. -/
theorem Outbound.pipeline_run (hr : Run (Outbound.step svc wcfg cfg) Outbound.init tr s) :
    ∃ tr', Run (Pipeline.step svc wcfg) Pipeline.init tr' s.pipeline := by
  refine hr.refines (f := Outbound.pipeline) (I := fun _ => True) trivial ?_
  intro s a s' _ _ hs
  refine ⟨trivial, ?_⟩
  cases Outbound.step_move hs with
  | service hp => exact ⟨[] ++ [_], .snoc .nil trivial hp⟩
  | @wired b w hb hw =>
      rcases (Wired.step_move hw).outbox_step with heq | ⟨c, hc, hlabel⟩
      · have hsame : ({ s with wired := w } : Outbound).pipeline = s.pipeline := by
          rw [Outbound.pipeline, heq]
          rfl
        rw [hsame]
        exact ⟨[], .nil⟩
      · refine ⟨[] ++ [.outbox c], .snoc .nil trivial ?_⟩
        have hins : c.isInsert = false := by
          rcases hlabel with rfl | hsend
          · exact hb
          · cases c with
            | insert => cases hsend
            | _ => rfl
        simp only [Pipeline.step, hins, Bool.false_eq_true, if_false]
        change (s.wired.delivery.outbox.step wcfg c).map _ = _
        rw [hc]
        rfl

/-- The workers, the client and the connections take theirs. -/
theorem Outbound.wired_run (hr : Run (Outbound.step svc wcfg cfg) Outbound.init tr s) :
    ∃ tr', Run (Wired.step wcfg cfg) Wired.init tr' s.wired := by
  refine hr.refines (f := Outbound.wired) (I := fun _ => True) trivial ?_
  intro s a s' _ _ hs
  refine ⟨trivial, ?_⟩
  cases Outbound.step_move hs with
  | wired _ hw => exact ⟨[] ++ [_], .snoc .nil trivial hw⟩
  | @service b p hp =>
      rcases (Pipeline.step_move hp).outbox_step with heq | ⟨c, hc, hlabel⟩
      · have hsame : (s.withPipeline p).wired = s.wired := by
          rw [Outbound.withPipeline, heq]
          rfl
        rw [hsame]
        exact ⟨[], .nil⟩
      · refine ⟨[] ++ [.core (.outbox c)], .snoc .nil trivial ?_⟩
        have hsend : c.isSend = false := by
          rcases hlabel with hl | ⟨n, rfl⟩ | ⟨id, q, rfl⟩
          · cases hl
          · rfl
          · rfl
        change s.wired.delivery.outbox.step wcfg c = some p.outbox at hc
        simp only [Wired.step, DeliveryLabel.isWire, Delivery.step, hsend, hc, Option.map_some,
          Bool.false_eq_true, if_false]
        rfl

/-! ## Rows and requests -/

section Rows

variable {p p' : Pipeline} {b : PipelineLabel}

/-- Every row was inserted by a call whose request is valid. -/
def Asked (svc : ServiceConfig) (p : Pipeline) : Prop :=
  ∀ r ∈ p.outbox.table, ∃ k call mid, InsertedBy svc p k call mid r ∧ call.m.validate svc = none

theorem Asked.step (h : Asked svc p) (hi : InsertInv svc p) (hv : ReplyInv svc p)
    (hs : p.step svc wcfg b = some p') : Asked svc p' := by
  have hm := Pipeline.step_move hs
  intro r' hr'
  rcases hm.of_row hr' with ⟨r, hr, hfix⟩ |
    ⟨k, call, id, mid, refs, hcall, hpc, hrow, _, pc, hcall', hanswered⟩
  · obtain ⟨k, call, mid, hby, hvalid⟩ := h r hr
    obtain ⟨call', hby'⟩ := hby.step hm hfix
    obtain ⟨call'', hcall'', hmsg, _⟩ := hm.call_stays hby.place
    cases hby'.place.symm.trans hcall''
    exact ⟨k, call', mid, hby', hmsg ▸ hvalid⟩
  · exact ⟨k, _, mid, hi.inserted hm hcall hpc hcall' hrow hanswered,
      hv.valid k call hcall (by rw [hpc]; rfl)⟩

theorem Pipeline.asked {tr : List PipelineLabel}
    (hr : Run (Pipeline.step svc wcfg) Pipeline.init tr p) : Asked svc p := by
  have hall : InsertInv svc p ∧ ReplyInv svc p ∧ Asked svc p := by
    refine hr.invariant (I := fun p => InsertInv svc p ∧ ReplyInv svc p ∧ Asked svc p)
      ⟨insertInv_init, replyInv_init, fun r hr => by cases hr⟩ ?_
    rintro p b p' ⟨hi, hv, h⟩ _ hs
    exact ⟨hi.step hs, hv.step hs, h.step hi hv hs⟩
  exact hall.2.2

/-- What is built from such a row is what was asked for. -/
theorem InsertedBy.sentAsAsked {k : Nat} {call : EnqueueCall} {mid : UUID} {r : Row}
    {paths : List String} {params : SendParams} (h : InsertedBy svc p k call mid r)
    (hr : r ∈ p.outbox.table) (hvalid : call.m.validate svc = none)
    (hb : buildSendParams wcfg.account (rowToDomain r) paths = .ok params) :
    SentAsAsked call.m params := by
  obtain ⟨now, refs, hcolumns⟩ := h.columns
  obtain ⟨hcontent, hrecipient, hgroup, hquote⟩ := SignalMessage.sent_eq_of_fixed hcolumns
  have hcopied : CopiedFrom call.m (rowToDomain r) := ⟨hcontent, hrecipient, hgroup, hquote⟩
  have hone : ExactlyOneTarget call.m.recipient call.m.groupId := by
    rw [← hcopied.recipient, ← hcopied.groupId]
    exact p.outbox.table.valid.exactlyOneTarget r.key (List.mem_map_of_mem hr)
  have hne : wcfg.account ≠ "" := by
    intro he
    rw [he] at hb
    cases hb
  obtain ⟨params', hb', hasked⟩ := hcopied.built hvalid hone hne paths
  cases hb.symm.trans hb'
  exact hasked

end Rows

/-! ## What the daemon receives -/

/-- The request `r` is that of the dispatch at place `i`: of a row that the call at place `k`
of `Enqueue` has inserted, with what this call was asked to send. -/
structure Outbound.RequestOf (svc : ServiceConfig) (wcfg : WorkerConfig) (s : Outbound) (i : Nat)
    (row : Row) (k : Nat) (call : EnqueueCall) (r : RpcRequest) : Prop where
  dispatched : ∃ x, s.wired.delivery.outbox.dispatches[i]? = some x ∧ x.msg.id = row.id
  stored : row ∈ s.wired.delivery.outbox.table
  inserted : ∃ mid, InsertedBy svc s.pipeline k call mid row
  valid : call.m.validate svc = none
  built : ∃ paths, buildSendParams wcfg.account (rowToDomain row) paths = .ok r.params
  asked : SentAsAsked call.m r.params

/-- The calls of `Send` whose requests the daemon has received, connection by connection. -/
def Wired.receivedCalls (w : Wired) : List Nat :=
  w.links.flatMap fun l => (l.written.map Prod.fst).take l.received.length

/-- They are calls that have written, none twice. -/
theorem WiredInv.receivedCalls_nodup {w : Wired} (h : WiredInv cfg w) :
    w.receivedCalls.Nodup := by
  refine h.once.sublist ?_
  unfold Wired.receivedCalls Wired.writers
  induction w.links with
  | nil => exact List.Sublist.refl _
  | cons l ls ih =>
      rw [List.flatMap_cons, List.flatMap_cons]
      exact (List.take_sublist _ _).append ih

/-- Over one connection. -/
theorem WiredInv.link_calls {w : Wired} (h : WiredInv cfg w) {n : Nat} {l : Link}
    (hl : w.links[n]? = some l) :
    List.Forall₂ (fun k r => ∃ call, w.delivery.client.calls[k]? = some call ∧ call.request = r)
      ((l.written.map Prod.fst).take l.received.length) l.received := by
  have hok := h.links n l hl
  have hreceived : l.received = (l.written.map Prod.snd).take l.received.length := by
    have hpart : l.received <+: l.written.map Prod.snd := by
      rw [h.received_eq hok]
      exact List.take_prefix _ _
    exact List.prefix_iff_eq_take.mp hpart
  generalize l.received.length = m at hreceived
  rw [hreceived, ← List.map_take, ← List.map_take, List.forall₂_map_left_iff,
    List.forall₂_map_right_iff, List.forall₂_same]
  intro p hp
  obtain ⟨call, hcall, hreq, _⟩ := hok.written p (List.mem_of_mem_take hp)
  exact ⟨call, hcall, hreq⟩

theorem WiredInv.received_calls {w : Wired} (h : WiredInv cfg w) :
    List.Forall₂ (fun k r => ∃ call, w.delivery.client.calls[k]? = some call ∧ call.request = r)
      w.receivedCalls w.received := by
  have hlinks : ∀ l ∈ w.links,
      List.Forall₂ (fun k r => ∃ call, w.delivery.client.calls[k]? = some call ∧ call.request = r)
        ((l.written.map Prod.fst).take l.received.length) l.received := by
    intro l hl
    obtain ⟨n, hn⟩ := List.mem_iff_getElem?.mp hl
    exact h.link_calls hn
  unfold Wired.receivedCalls Wired.received
  generalize w.links = links at hlinks ⊢
  induction links with
  | nil => exact .nil
  | cons l ls ih =>
      rw [List.flatMap_cons, List.flatMap_cons]
      exact List.rel_append (hlinks l List.mem_cons_self)
        (ih fun l' hl' => hlinks l' (List.mem_cons_of_mem _ hl'))

/-- The dispatch behind a call of `Send`. -/
theorem CallersInv.requestOf {tr' : List PipelineLabel} (hc : CallersInv wcfg s.wired.delivery)
    (hp : Run (Pipeline.step svc wcfg) Pipeline.init tr' s.pipeline) {k i : Nat} {c : Call}
    (hi : s.wired.delivery.callers[k]? = some i)
    (hcall : s.wired.delivery.client.calls[k]? = some c) :
    ∃ row j call, s.RequestOf svc wcfg i row j call c.request := by
  obtain ⟨x, paths, hx, hb⟩ := hc.built k i c hi hcall
  -- the message of the dispatch is its row, up to what the queue writes
  obtain ⟨_, hout⟩ := Pipeline.refines_outbox hp
  have hO : Owned s.wired.delivery.outbox := hout.invariant owned_init fun _ _ _ h _ hs => h.step hs
  obtain ⟨row, hrow, hfix⟩ := hO i x hx
  obtain ⟨j, call, mid, hby, hvalid⟩ := Pipeline.asked hp row hrow
  rw [← buildSendParams_fixed paths hfix] at hb
  exact ⟨row, j, call, ⟨x, hx, (SignalMessage.id_eq_of_fixed hfix).symm⟩, hrow, ⟨mid, hby⟩, hvalid,
    ⟨paths, hb⟩, hby.sentAsAsked hrow hvalid hb⟩

/-- **What the daemon receives was asked for.**  Whatever the calls of `Enqueue`, the workers,
the operators and the connections do: the requests the daemon has read off the connections are
those of dispatches, a dispatch being behind at most one of them, and each is of a row that a
call of `Enqueue` with a valid request has inserted, and has the content and the one target of
this request. -/
theorem received_as_asked (hr : Run (Outbound.step svc wcfg cfg) Outbound.init tr s) :
    ∃ dispatches : List Nat, dispatches.Nodup ∧
      List.Forall₂ (fun i r => ∃ row k call, s.RequestOf svc wcfg i row k call r) dispatches
        s.wired.received ∧
      s.wired.delivery.received.Perm (s.wired.received.map RpcRequest.pair) := by
  obtain ⟨_, hpipeline⟩ := Outbound.pipeline_run hr
  obtain ⟨_, hwired⟩ := Outbound.wired_run hr
  have hall : WiredInv cfg s.wired ∧ CallersInv wcfg s.wired.delivery := by
    refine hwired.invariant (I := fun w => WiredInv cfg w ∧ CallersInv wcfg w.delivery)
      ⟨wiredInv_init, callersInv_init⟩ ?_
    rintro w b w' ⟨hw, hc⟩ _ hs
    exact ⟨hw.step (Wired.step_move hs), hc.wired hw (Wired.step_move hs)⟩
  obtain ⟨hw, hc⟩ := hall
  have hbehind : ∀ (k : Nat) (r : RpcRequest),
      (∃ c, s.wired.delivery.client.calls[k]? = some c ∧ c.request = r) →
      ∃ i, s.wired.delivery.callers[k]? = some i ∧
        ∃ row j call, s.RequestOf svc wcfg i row j call r := by
    rintro k r ⟨c, hcall, rfl⟩
    have hk : k < s.wired.delivery.callers.length := by
      rw [hc.length]
      exact (List.getElem?_eq_some_iff.mp hcall).1
    have hi := List.getElem?_eq_getElem hk
    exact ⟨_, hi, hc.requestOf hpipeline hi hcall⟩
  obtain ⟨dispatches, honce, hof, _⟩ :=
    Places.forall₂_get hc.once hbehind hw.received_calls hw.receivedCalls_nodup
  exact ⟨dispatches, honce, hof, hw.received⟩

/-- A message to a group is enqueued, claimed and sent.  The frame arrives in pieces. -/
def groupSent : List OutboundLabel :=
  [.service (.request groupMessage []), .service (.enqueue 0 (.lookup "u-1" false)),
   .service (.enqueue 0 (.next false)), .service (.enqueue 0 (.insert "m-1" .committed)),
   .wired (.core (.outbox (.claim [] .committed))), .wired (.core (.outbox (.dispatch 0 .start))),
   .wired (.core (.outbox (.dispatch 0 (.downloaded (.ok []))))),
   .wired (.core (.client (.loop .check))), .wired .dial,
   .wired (.core (.client (.loop .publish))), .wired (.core (.send 0)),
   .wired (.core (.client (.send 0 .snapshot))), .wired (.core (.client (.send 0 .gateOpen))),
   .wired (.core (.client (.send 0 (.register "id-1")))),
   .wired (.core (.client (.send 0 .lockWrite))), .wired (.core (.client (.send 0 .snapConn))),
   .wired (.enter 0), .wired (.push 0 60), .wired (.toDaemon 0 40), .wired (.push 0 200),
   .wired (.write 0 none), .wired (.toDaemon 0 200), .wired (.handle 0)]

theorem groupSent_as_asked :
    ∃ s, Run (Outbound.step defaultService defaultConfig ⟨false⟩) Outbound.init groupSent s ∧
      s.wired.received.map (fun r => (r.params.message, r.params.groupId)) =
        [(groupMessage.content, groupMessage.groupId.toList)] ∧
      ∃ dispatches : List Nat, dispatches.Nodup ∧
        List.Forall₂ (fun i r => ∃ row k call,
          s.RequestOf defaultService defaultConfig i row k call r) dispatches s.wired.received := by
  have hexec : (exec (Outbound.step defaultService defaultConfig ⟨false⟩) Outbound.init
      groupSent).map
        (fun s => s.wired.received.map fun r => (r.params.message, r.params.groupId)) =
      some [(groupMessage.content, groupMessage.groupId.toList)] := by
    decide +kernel
  obtain ⟨s, hs, hreceived⟩ := Option.map_eq_some_iff.mp hexec
  have hr := run_of_exec hs
  obtain ⟨dispatches, honce, hof, _⟩ := received_as_asked hr
  exact ⟨s, hr, hreceived, dispatches, honce, hof⟩

end Signalium
