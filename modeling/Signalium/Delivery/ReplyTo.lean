import Signalium.Delivery.Pipeline

/-!
# The quoted message

A request may name the message it replies to: `QuoteResultID` is the result id of
a message sent earlier, and `BuildSendParams` turns the column of that name into
the timestamp and the author of a quote.  In between the field is lost.  The
arguments of `Insert` have no place for it, so every row has a `NULL` there, and
every message is sent as a plain one (`reply_to_dropped`), though the service has
accepted it as a reply.
-/

namespace Signalium

open Runs Tables

variable {svc : ServiceConfig} {cfg : WorkerConfig} {s s' : Pipeline} {a : PipelineLabel}
  {tr : List PipelineLabel}

/-- The message has a content and a target, and quotes nothing. -/
structure Unquoted (m : SignalMessage) : Prop where
  content : m.content ≠ ""
  target : (nonEmpty? m.recipient).isSome = true ∨ (nonEmpty? m.groupId).isSome = true
  quote : m.quoteResultId = none

theorem Unquoted.of_fixed {m m' : SignalMessage} (h : Unquoted m) (hfix : m'.fixed = m.fixed) :
    Unquoted m' := by
  obtain ⟨hcontent, hrecipient, hgroup, hquote⟩ := SignalMessage.sent_eq_of_fixed hfix
  exact ⟨hcontent ▸ h.content, by rw [hrecipient, hgroup]; exact h.target, hquote ▸ h.quote⟩

/-- What `BuildSendParams` makes of such a message. -/
theorem Unquoted.params {m : SignalMessage} (h : Unquoted m) {account : String}
    {paths : List String} {params : SendParams}
    (hb : buildSendParams account m paths = .ok params) :
    params.quoteTimestamp = 0 ∧ params.quoteAuthor = "" := by
  unfold buildSendParams withTarget withQuote at hb
  rw [h.quote] at hb
  split_ifs at hb
  cases hr : nonEmpty? m.recipient with
  | some v => rw [hr] at hb; cases hb; exact ⟨rfl, rfl⟩
  | none =>
      rw [hr] at hb
      cases hg : nonEmpty? m.groupId with
      | some v => rw [hg] at hb; cases hb; exact ⟨rfl, rfl⟩
      | none => rw [hg] at hb; cases hb

theorem Unquoted.built {m : SignalMessage} (h : Unquoted m) {account : String} (hne : account ≠ "")
    (paths : List String) : ∃ params, buildSendParams account m paths = .ok params := by
  rw [buildSendParams_unquoted hne h.content h.quote, withTarget]
  cases hr : nonEmpty? m.recipient with
  | some v => exact ⟨_, rfl⟩
  | none =>
      cases hg : nonEmpty? m.groupId with
      | some v => exact ⟨_, rfl⟩
      | none => rcases h.target with ht | ht <;> simp [hr, hg] at ht

/-- A request that passes `validate` gives such a message. -/
theorem CreateMessage.unquoted {m : CreateMessage} (h : m.validate svc = none) (now : Int)
    (id mid : UUID) (refs : List Attachment) :
    Unquoted (rowToDomain ((m.insertParams svc now mid refs).row now id)) := by
  obtain ⟨hcontent, htarget⟩ := CreateMessage.validated h
  refine ⟨hcontent, ?_, rfl⟩
  change (nonEmpty? m.recipient).isSome = true ∨ (nonEmpty? m.groupId).isSome = true
  cases hr : (nonEmpty? m.recipient).isSome with
  | true => exact Or.inl rfl
  | false =>
      cases hg : (nonEmpty? m.groupId).isSome with
      | true => exact Or.inr rfl
      | false => exact absurd (hr.trans hg.symm) htarget

/-! ## Runs -/

/-- The call is past its validation and before its end. -/
def EnqueuePc.admitted : EnqueuePc → Bool
  | .uploading _ _ _ | .inserting _ _ => true
  | _ => false

theorem rollback_not_admitted (refs : List Attachment) (e : ServiceError) :
    (rollback refs e).admitted = false := by
  cases refs <;> rfl

/-- A call is admitted by its validation. -/
theorem EnqueueMove.admitted {i : Intake} {call : EnqueueCall} {act : EnqueueAct} {o : Objects}
    {t : Messages} {pc : EnqueuePc} (h : EnqueueMove svc i call act o t pc)
    (hpc : pc.admitted = true) :
    call.pc.admitted = true ∨ call.m.validate svc = none := by
  cases h with
  | keyless _ hv _ => exact Or.inr hv
  | miss _ hv _ _ => exact Or.inr hv
  | uploaded hp => exact Or.inl (by rw [hp]; rfl)
  | readEOF hp => exact Or.inl (by rw [hp]; rfl)
  | put hp _ => exact Or.inl (by rw [hp]; rfl)
  | invalid => cases hpc
  | lookupFailed => cases hpc
  | hit => cases hpc
  | inserted => cases hpc
  | _ => rw [rollback_not_admitted] at hpc; cases hpc

/-- The calls under way have been validated, and no row quotes anything. -/
structure ReplyInv (svc : ServiceConfig) (s : Pipeline) : Prop where
  valid : ∀ (k : Nat) (call : EnqueueCall), s.calls[k]? = some call → call.pc.admitted = true →
    call.m.validate svc = none
  rows : ∀ r ∈ s.outbox.table, Unquoted (rowToDomain r)

theorem replyInv_init : ReplyInv svc Pipeline.init where
  valid := by intro k call h; cases h
  rows := by intro r hr; cases hr

theorem ReplyInv.step (h : ReplyInv svc s) (hs : s.step svc cfg a = some s') :
    ReplyInv svc s' := by
  have hm := Pipeline.step_move hs
  refine ⟨fun k call' hcall' hadm => ?_, fun r' hr' => ?_⟩
  · rcases hm.of_call hcall' with
      hold | ⟨call, act, o, t, pc, hcall, _, hmove, rfl, _⟩ | ⟨_, _, rfl⟩
    · exact h.valid k call' hold hadm
    · rcases hmove.admitted hadm with hold | hv
      · exact h.valid k call hcall hold
      · exact hv
    · cases hadm
  · rcases hm.of_row hr' with ⟨r, hr, hfix⟩ | ⟨k, call, id, mid, refs, hcall, hpc, rfl, _⟩
    · exact (h.rows r hr).of_fixed hfix
    · exact CreateMessage.unquoted (h.valid k call hcall (by rw [hpc]; rfl)) _ _ _ _

/-- If the call at place `k` has been accepted and quotes the message sent at `ts`,
the parameters that a dispatch of its row builds quote it too. -/
def ReplyKept (cfg : WorkerConfig) (s : Pipeline) (k : Nat) : Prop :=
  ∀ call res ts, s.calls[k]? = some call → call.pc = .returned (.ok res) →
    call.m.quoteResultId = some (formatInt ts) → ts ≠ 0 →
      ∀ (i : Nat) (d : Dispatch), s.outbox.dispatches[i]? = some d → d.msg.id = res.id →
        ∀ paths params, buildSendParams cfg.account d.msg paths = .ok params →
          params.quoteTimestamp = ts ∧ params.quoteAuthor = cfg.account

/-- No dispatch of a run has a message that quotes. -/
theorem dispatch_unquoted {i : Nat} {d : Dispatch}
    (hr : Run (Pipeline.step svc cfg) Pipeline.init tr s)
    (hd : s.outbox.dispatches[i]? = some d) : Unquoted d.msg := by
  have hI : ReplyInv svc s := hr.invariant replyInv_init fun _ _ _ h _ hs => h.step hs
  obtain ⟨tr', hout⟩ := Pipeline.refines_outbox hr
  have hO : Owned s.outbox := hout.invariant owned_init fun _ _ _ h _ hs => h.step hs
  obtain ⟨r, hrow, hfix⟩ := hO i d hd
  exact (hI.rows r hrow).of_fixed hfix.symm

/-- Along any run of requests and workers, of no request that `Enqueue` has
accepted as a reply is the quote kept, once its row has been claimed: with an
account configured, the dispatch builds parameters without it. -/
theorem reply_to_dropped {k i : Nat} {call : EnqueueCall} {res : EnqueueResult} {ts : Int}
    {d : Dispatch} (hr : Run (Pipeline.step svc cfg) Pipeline.init tr s)
    (hcall : s.calls[k]? = some call) (hres : call.pc = .returned (.ok res))
    (hquote : call.m.quoteResultId = some (formatInt ts)) (hts : ts ≠ 0)
    (hd : s.outbox.dispatches[i]? = some d) (hid : d.msg.id = res.id)
    (haccount : cfg.account ≠ "") : ¬ ReplyKept cfg s k := by
  intro hkept
  have hplain := dispatch_unquoted hr hd
  obtain ⟨params, hb⟩ := hplain.built haccount []
  obtain ⟨hzero, _⟩ := hplain.params hb
  obtain ⟨htime, _⟩ := hkept call res ts hcall hres hquote hts i d hd hid [] params hb
  exact hts (htime.symm.trans hzero)

/-- A reply to the message sent at 1700000001. -/
def replyMessage : CreateMessage where
  externalId := "ext-1"
  recipient := some "+380111111111"
  content := "hello"
  quoteResultId := some "1700000001"

/-- The reply is enqueued and claimed. -/
def replyTrace : List PipelineLabel :=
  [.intake (.request replyMessage []), .intake (.enqueue 0 (.lookup "u-1" false)),
    .intake (.enqueue 0 (.next false)), .intake (.enqueue 0 (.insert "m-1" .committed)),
    .outbox (.claim [] .committed)]

/-- The reply of `replyTrace` is not kept. -/
theorem claimedReply_dropped :
    ∃ s, Run (Pipeline.step defaultService defaultConfig) Pipeline.init replyTrace s ∧
      ¬ ReplyKept defaultConfig s 0 := by
  refine ⟨_, run_of_exec rfl, ?_⟩
  have hr : Run (Pipeline.step defaultService defaultConfig) Pipeline.init replyTrace _ :=
    run_of_exec rfl
  exact reply_to_dropped hr rfl rfl (show replyMessage.quoteResultId = some (formatInt 1700000001)
    by decide) (by decide) (i := 0) rfl rfl (by decide)

/-- What the dispatch of `replyTrace` builds: a plain message. -/
theorem claimedReply_plain :
    ∃ s d, Run (Pipeline.step defaultService defaultConfig) Pipeline.init replyTrace s ∧
      s.outbox.dispatches[0]? = some d ∧
      (s.calls.map fun call => call.m.quoteResultId) = [some (formatInt 1700000001)] ∧
      buildSendParams defaultConfig.account d.msg [] = .ok
        { account := "+380000000000", message := "hello", attachments := [],
          recipient := ["+380111111111"], quoteTimestamp := 0, quoteAuthor := "" } :=
  ⟨_, _, run_of_exec rfl, rfl, by decide, rfl⟩

end Signalium
