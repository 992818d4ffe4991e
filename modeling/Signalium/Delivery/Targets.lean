import Signalium.Delivery.ReplyTo
import Signalium.Service.Insertable

/-!
# The target of a message

Three places decide whom a message goes to: `validate`, the `CHECK` of the table
and the `switch` of `BuildSendParams`.  They do not agree on the empty string, but
what passes the first two has one pointer that is set, to a string that is not
empty, and the third one cannot choose wrong.  The workers leave these columns
alone, so whenever the row is claimed its message can be sent, as it was asked for
and to the target that was asked for (`accepted_dispatchable`).
-/

namespace Signalium

open Runs Tables

variable {svc : ServiceConfig} {cfg : WorkerConfig} {s s₁ s₂ s₃ : Pipeline} {m : CreateMessage}
  {msg : SignalMessage} {k i : Nat} {call : EnqueueCall} {d : Dispatch} {id : UUID}

/-- The parameters carry the content of the request and address the one target it
names. -/
structure SentAsAsked (m : CreateMessage) (p : SendParams) : Prop where
  message : p.message = m.content
  target :
    (∃ v, v ≠ "" ∧ m.recipient = some v ∧ m.groupId = none ∧ p.recipient = [v] ∧
      p.groupId = []) ∨
    ∃ v, v ≠ "" ∧ m.groupId = some v ∧ m.recipient = none ∧ p.groupId = [v] ∧ p.recipient = []

/-- The message has what the request says, and quotes nothing. -/
structure CopiedFrom (m : CreateMessage) (msg : SignalMessage) : Prop where
  content : msg.content = m.content
  recipient : msg.recipient = m.recipient
  groupId : msg.groupId = m.groupId
  quote : msg.quoteResultId = none

theorem CopiedFrom.of_fixed {msg' : SignalMessage} (h : CopiedFrom m msg)
    (hfix : msg'.fixed = msg.fixed) : CopiedFrom m msg' := by
  obtain ⟨hcontent, hrecipient, hgroup, hquote⟩ := SignalMessage.sent_eq_of_fixed hfix
  exact ⟨hcontent.trans h.content, hrecipient.trans h.recipient, hgroup.trans h.groupId,
    hquote.trans h.quote⟩

/-- What `validate` and the `CHECK` leave of the two pointers. -/
theorem CreateMessage.target_cases (hv : m.validate svc = none)
    (hone : ExactlyOneTarget m.recipient m.groupId) :
    (∃ v, v ≠ "" ∧ m.recipient = some v ∧ m.groupId = none) ∨
      ∃ v, v ≠ "" ∧ m.groupId = some v ∧ m.recipient = none := by
  obtain ⟨hr, hg⟩ := (exactlyOneTarget_iff (CreateMessage.validated hv).2).mp hone
  unfold ExactlyOneTarget at hone
  cases hrec : m.recipient with
  | some v =>
      cases hgrp : m.groupId with
      | none => exact Or.inl ⟨v, fun he => hr (he ▸ hrec), rfl, rfl⟩
      | some g => simp [hrec, hgrp] at hone
  | none =>
      cases hgrp : m.groupId with
      | none => simp [hrec, hgrp] at hone
      | some g => exact Or.inr ⟨g, fun he => hg (he ▸ hgrp), rfl, rfl⟩

/-- `BuildSendParams` sends such a message as it was asked for. -/
theorem CopiedFrom.built (h : CopiedFrom m msg) (hv : m.validate svc = none)
    (hone : ExactlyOneTarget m.recipient m.groupId) {account : String} (hne : account ≠ "")
    (paths : List String) :
    ∃ p, buildSendParams account msg paths = .ok p ∧ SentAsAsked m p := by
  have hcontent : msg.content ≠ "" := h.content ▸ (CreateMessage.validated hv).1
  rw [buildSendParams_unquoted hne hcontent h.quote, withTarget, h.recipient, h.groupId]
  rcases CreateMessage.target_cases hv hone with ⟨v, hne, hrec, hgrp⟩ | ⟨v, hne, hgrp, hrec⟩
  · rw [hrec, nonEmpty?_eq_some.mpr ⟨rfl, hne⟩]
    exact ⟨_, rfl, h.content, Or.inl ⟨v, hne, hrec, hgrp, rfl, rfl⟩⟩
  · rw [hrec, hgrp, nonEmpty?_eq_some.mpr ⟨rfl, hne⟩]
    exact ⟨_, rfl, h.content, Or.inr ⟨v, hne, hgrp, hrec, rfl, rfl⟩⟩

/-! ## Runs -/

/-- Rows stay, with their fixed columns. -/
theorem Pipeline.row_persists {tr : List PipelineLabel} {r : Row}
    (hr : Run (Pipeline.step svc cfg) s tr s₁) (hrow : r ∈ s.outbox.table) :
    ∃ r' ∈ s₁.outbox.table, (rowToDomain r').fixed = (rowToDomain r).fixed := by
  refine hr.invariant (I := fun s => ∃ r' ∈ s.outbox.table,
    (rowToDomain r').fixed = (rowToDomain r).fixed) ⟨r, hrow, rfl⟩ ?_
  rintro s a s' ⟨r', hr', hfix⟩ _ hs
  obtain ⟨r₂, hr₂, hfix₂⟩ := (Pipeline.step_move hs).row_stays hr'
  exact ⟨r₂, hr₂, hfix₂.trans hfix⟩

/-- The row that the `Insert` of a call has added. -/
theorem Pipeline.inserted_row {reply : DbReply} (hcall : s₁.calls[k]? = some call)
    (hins : s₁.step svc cfg (.intake (.enqueue k (.insert id reply))) = some s₂)
    (hnew : ∀ r ∈ s₁.outbox.table, r.id ≠ id) {r : Row} (hr : r ∈ s₂.outbox.table)
    (hid : r.id = id) :
    ExactlyOneTarget call.m.recipient call.m.groupId ∧ call.pc.admitted = true ∧
      CopiedFrom call.m (rowToDomain r) := by
  cases Pipeline.step_move hins with
  | intake hi =>
      cases hi with
      | @enqueue _ call₀ _ o t pc hcall₀ hm =>
          cases hcall.symm.trans hcall₀
          rcases hm.table_cases with rfl | ⟨id', mid, refs, row, hpc, hok, _⟩
          · exact absurd hid (hnew r hr)
          · rcases (Messages.mem_insert hok).mp hr with hold | rfl
            · exact absurd hid (hnew r hold)
            · obtain ⟨rfl, _, hnone⟩ := Messages.insert_eq_ok hok
              exact ⟨(Messages.free_iff.mp hnone).1, by rw [hpc]; rfl, ⟨rfl, rfl, rfl, rfl⟩⟩

/-- Along any run of requests and workers: if the `Insert` of a call has added a
row, then whenever later that row is claimed, an account being configured and
whatever the paths of the attachments, `BuildSendParams` succeeds with the content
of the request and with the one target it names. -/
theorem accepted_dispatchable {tr₁ tr₂ : List PipelineLabel} {reply : DbReply}
    (h₁ : Run (Pipeline.step svc cfg) Pipeline.init tr₁ s₁) (hcall : s₁.calls[k]? = some call)
    (hins : s₁.step svc cfg (.intake (.enqueue k (.insert id reply))) = some s₂)
    (hnew : ∀ r ∈ s₁.outbox.table, r.id ≠ id) (hrow : ∃ r ∈ s₂.outbox.table, r.id = id)
    (h₂ : Run (Pipeline.step svc cfg) s₂ tr₂ s₃) (hd : s₃.outbox.dispatches[i]? = some d)
    (hid : d.msg.id = id) (haccount : cfg.account ≠ "") (paths : List String) :
    ∃ p, buildSendParams cfg.account d.msg paths = .ok p ∧ SentAsAsked call.m p := by
  obtain ⟨r, hr, hrid⟩ := hrow
  obtain ⟨hone, hadm, hcopy⟩ := Pipeline.inserted_row hcall hins hnew hr hrid
  have hI : ReplyInv svc s₁ := h₁.invariant replyInv_init fun _ _ _ h _ hs => h.step hs
  obtain ⟨r', hr', hfix⟩ := Pipeline.row_persists h₂ hr
  -- The message of the dispatch is the row it has claimed, up to what the queue writes.
  obtain ⟨tr', hout⟩ := Pipeline.refines_outbox ((RunOf.snoc h₁ trivial hins).trans h₂)
  have hO : Owned s₃.outbox := hout.invariant owned_init fun _ _ _ h _ hs => h.step hs
  have hid' : r'.id = d.msg.id := by
    rw [hid, ← hrid]
    exact SignalMessage.id_eq_of_fixed hfix
  have hmsg := (hO.fixed_eq hd hr' hid').symm.trans hfix
  exact (hcopy.of_fixed hmsg).built (hI.valid k call hcall hadm) hone haccount paths

/-- The message to a group, enqueued and claimed. -/
def groupClaimed : List PipelineLabel :=
  [.intake (.request groupMessage []), .intake (.enqueue 0 (.lookup "u-1" false)),
    .intake (.enqueue 0 (.next false))]

/-- The dispatch of a message to a group addresses the group. -/
theorem groupMessage_dispatchable :
    ∃ s₁ s₂ s₃ d, Run (Pipeline.step defaultService defaultConfig) Pipeline.init groupClaimed s₁ ∧
      s₁.step defaultService defaultConfig
        (.intake (.enqueue 0 (.insert "m-1" .committed))) = some s₂ ∧
      Run (Pipeline.step defaultService defaultConfig) s₂ [.outbox (.claim [] .committed)] s₃ ∧
      s₃.outbox.dispatches[0]? = some d ∧
      ∃ p, buildSendParams defaultConfig.account d.msg [] = .ok p ∧
        SentAsAsked groupMessage p := by
  have h₁ : Run (Pipeline.step defaultService defaultConfig) Pipeline.init groupClaimed _ :=
    run_of_exec rfl
  refine ⟨_, _, _, _, h₁, rfl, run_of_exec rfl, rfl, ?_⟩
  refine accepted_dispatchable h₁ (k := 0) rfl
    (show Pipeline.step defaultService defaultConfig _
      (.intake (.enqueue 0 (.insert "m-1" .committed))) = some _ from rfl) ?_ ?_
    (show Run (Pipeline.step defaultService defaultConfig) _ [.outbox (.claim [] .committed)] _
      from run_of_exec rfl) (i := 0) rfl rfl (by decide) []
  · intro r hr
    cases hr
  · exact ⟨_, List.mem_singleton_self _, rfl⟩

end Signalium
