import Signalium.Delivery.Inserted
import Signalium.Delivery.Orphans

/-!
# The identity of a message

`Enqueue` draws a UUID for a message before it uploads the attachments.  The UUID is the
prefix of their keys and the `correlation_id` of the row.  It is not its
`signal_message_id`: the arguments of `Insert` have no place for it, and the column takes
what `gen_random_uuid()` draws.

So a message has one identity exactly when the two draws agree (`one_identity_iff`), and
otherwise the objects under the id that the caller has got are none of its attachments
(`attached_two_identities`).
-/

namespace Signalium

open Runs Tables

variable {svc : ServiceConfig} {cfg : WorkerConfig} {s s' : Pipeline} {a : PipelineLabel}
  {tr : List PipelineLabel} {k : Nat} {call : EnqueueCall} {id id' mid : UUID} {r : Row}
  {o o' : Objects} {refs : List Attachment} {ref : Attachment}

/-! ## What lies under an id -/

/-- A reference lies under one id. -/
theorem Attachment.Under.unique (h : ref.Under id) (h' : ref.Under id') : id = id' := by
  obtain ⟨name, hname, hfile⟩ := h
  obtain ⟨name', hname', hfile'⟩ := h'
  exact (key_inj hname hname' (hfile.symm.trans hfile')).1

/-- The key of a reference is among those of `refs`. -/
def Attachment.KeyIn (refs : List Attachment) (ref : Attachment) : Prop :=
  ∃ x ∈ refs, x.bucket = ref.bucket ∧ x.filename = ref.filename

/-- What the store has under the id is among `refs`. -/
def OnlyUnder (o : Objects) (id : UUID) (refs : List Attachment) : Prop :=
  ∀ ref : Attachment, ref.Under id → o.Has ref → ref.KeyIn refs

theorem OnlyUnder.mono (h : OnlyUnder o id refs)
    (hsub : ∀ ref : Attachment, ref.Under id → o'.Has ref → o.Has ref) :
    OnlyUnder o' id refs :=
  fun ref hunder hhas => h ref hunder (hsub ref hunder hhas)

theorem SameUnder.has_iff (h : SameUnder id o o') (hunder : ref.Under id) :
    o'.Has ref ↔ o.Has ref := by
  obtain ⟨name, hname, hfile⟩ := hunder
  rw [Objects.Has, Objects.Has, hfile, h ref.bucket name hname]

/-- What is in the store after a step of a call was there before, or the step has put it. -/
theorem StoreMove.has {act : EnqueueAct} {pc : EnqueuePc} (h : StoreMove svc o call act o' pc)
    (hhas : o'.Has ref) : o.Has ref ∨ ref.KeyIn (call.puts svc act) := by
  cases h with
  | keep => exact Or.inl hhas
  | @put new x pc hput =>
      refine (Objects.has_put hhas).imp_right fun hkey => ?_
      rw [hput]
      exact ⟨new, List.mem_singleton_self new, hkey.1.symm, hkey.2.symm⟩
  | @remove old fails =>
      cases fails with
      | true => exact Or.inl hhas
      | false => exact Or.inl (Objects.has_remove hhas).1

/-- A call that has an answer puts nothing more. -/
theorem InsertedBy.puts_eq_nil (h : InsertedBy svc s k call mid r) (act : EnqueueAct) :
    call.puts svc act = [] := by
  refine EnqueueCall.puts_eq_nil fun _ _ _ _ hpc _ => ?_
  rcases h.answered with hfailed | hret
  · rw [hpc] at hfailed
    cases hfailed
  · cases hpc.symm.trans hret

/-! ## Runs -/

/-- What is in the store lies under an id that was drawn, and what lies under the id of a
message is among its attachments. -/
structure IdentityInv (svc : ServiceConfig) (s : Pipeline) : Prop where
  upload : UploadInv svc s
  insert : InsertInv svc s
  owned : ∀ ref, s.objects.Has ref → ∃ p ∈ s.drawn, ref.Under p.2
  pending : ∀ (k : Nat) (call : EnqueueCall), s.calls[k]? = some call →
    ∀ id, call.pc.id? = some id → OnlyUnder s.objects id call.pc.refs
  rows : ∀ r ∈ s.outbox.table, ∃ k call mid, InsertedBy svc s k call mid r ∧
    (∀ ref ∈ r.attachments, ref.Under mid) ∧ OnlyUnder s.objects mid r.attachments

theorem identityInv_init : IdentityInv svc Pipeline.init where
  upload := uploadInv_init
  insert := insertInv_init
  owned := by intro ref hhas; exact absurd rfl hhas
  pending := by intro k call hcall; cases hcall
  rows := by intro r hr; cases hr

/-- What a step leaves under the id of a call was there before, unless the step is one of
the call and has put it. -/
theorem UploadInv.has_of_step (h : UploadInv svc s) (hm : PipelineMove svc cfg s a s')
    (hdrawn : (k, id) ∈ s.drawn) (hunder : ref.Under id) (hhas : s'.objects.Has ref) :
    s.objects.Has ref ∨ ∃ call act, s.calls[k]? = some call ∧ a = .intake (.enqueue k act) ∧
      ref.KeyIn (call.puts svc act) := by
  cases hm with
  | outbox => exact Or.inl hhas
  | intake hi =>
      cases hi with
      | advance => exact Or.inl hhas
      | request => exact Or.inl hhas
      | @enqueue j call act o t pc hcall hmove =>
          by_cases hjk : j = k
          · subst hjk
            exact (hmove.storeMove.has hhas).imp_right fun hput => ⟨call, act, hcall, rfl, hput⟩
          · have hother : (j, id) ∉ s.drawn := fun hj => hjk (h.apart j k id hj hdrawn)
            exact Or.inl (((hmove.sameUnder (h.kept j call hcall) hother).has_iff hunder).mp hhas)

theorem IdentityInv.owned_step (h : IdentityInv svc s) (hm : PipelineMove svc cfg s a s')
    (ref : Attachment) (hhas : s'.objects.Has ref) : ∃ p ∈ s'.drawn, ref.Under p.2 := by
  have hold : s.objects.Has ref ∨ ∃ p ∈ s.puts svc a, p.2.bucket = ref.bucket ∧
      p.2.filename = ref.filename := by
    cases hm with
    | outbox => exact Or.inl hhas
    | intake hi =>
        cases hi with
        | advance => exact Or.inl hhas
        | request => exact Or.inl hhas
        | @enqueue j call act o t pc hcall hmove =>
            refine (hmove.storeMove.has hhas).imp_right ?_
            rintro ⟨new, hnew, hkey⟩
            rw [Pipeline.puts_enqueue hcall]
            exact ⟨(j, new), List.mem_map_of_mem hnew, hkey⟩
  rcases hold with hold | ⟨p, hp, _, hfile⟩
  · obtain ⟨p, hp, hunder⟩ := h.owned ref hold
    exact ⟨p, hm.grows.2 p hp, hunder⟩
  · obtain ⟨_, id, hdrawn, name, hname, hkey⟩ := h.upload.puts_under hp
    exact ⟨_, hm.grows.2 _ hdrawn, name, hname, hfile.symm.trans hkey⟩

/-- A step of a call that works with an id keeps track of what lies under it. -/
theorem EnqueueMove.onlyUnder {act : EnqueueAct} {t : Messages} {pc : EnqueuePc}
    (h : EnqueueMove svc s.intake call act o t pc) (hid : pc.id? = some id)
    (hold : ∀ id, call.pc.id? = some id → OnlyUnder s.objects id call.pc.refs)
    (hnew : ∀ fails, act = .lookup id fails → OnlyUnder s.objects id []) :
    OnlyUnder o id pc.refs := by
  cases h with
  | @keyless new fails | @miss new =>
      cases hid
      exact hnew _ rfl
  | uploaded hpc | readEOF hpc =>
      rw [hpc] at hold
      exact hold id hid
  | @put new p rest done hpc hname =>
      rw [hpc] at hold
      intro ref hunder hhas
      rcases Objects.has_put hhas with hbefore | hkey
      · obtain ⟨x, hx, hsame⟩ := hold id hid ref hunder hbefore
        exact ⟨x, List.mem_append_left _ hx, hsame⟩
      · exact ⟨_, List.mem_append_right _ (List.mem_singleton_self _), hkey.1.symm, hkey.2.symm⟩
  | invalid | lookupFailed | hit | inserted => cases hid
  | _ =>
      rw [rollback_id?] at hid
      cases hid

/-- Nothing lies under an id that is fresh. -/
theorem IdentityInv.fresh (h : IdentityInv svc s) (hfresh : ∀ p ∈ s.drawn, p.2 ≠ id) :
    OnlyUnder s.objects id [] := by
  intro ref hunder hhas
  obtain ⟨p, hp, hunder'⟩ := h.owned ref hhas
  exact absurd (hunder'.unique hunder) (hfresh p hp)

theorem IdentityInv.pending_step (h : IdentityInv svc s) (hok : FreshUuids s a)
    (hm : PipelineMove svc cfg s a s') (k : Nat) (call' : EnqueueCall)
    (hcall' : s'.calls[k]? = some call') (id : UUID) (hid : call'.pc.id? = some id) :
    OnlyUnder s'.objects id call'.pc.refs := by
  cases hm with
  | outbox => exact h.pending k call' hcall' id hid
  | intake hi =>
      cases hi with
      | advance => exact h.pending k call' hcall' id hid
      | request =>
          rcases Places.of_snoc hcall' with hold | ⟨_, rfl⟩
          · exact h.pending k call' hold id hid
          · cases hid
      | @enqueue j call act o t pc hcall hmove =>
          rcases Places.of_set hcall' with ⟨rfl, rfl⟩ | ⟨hkj, hold⟩
          · refine hmove.onlyUnder hid (h.pending k call hcall) ?_
            rintro fails rfl
            exact h.fresh hok
          · -- Another call does not touch what lies under the id of this one.
            have hdrawn := h.insert.drawn k call' hold id hid
            have hother : (j, id) ∉ s.drawn := fun hj => hkj (h.upload.apart k j id hdrawn hj)
            have hsame := hmove.sameUnder (h.upload.kept j call hcall) hother
            exact (h.pending k call' hold id hid).mono fun ref hunder => (hsame.has_iff hunder).mp

theorem IdentityInv.rows_step (h : IdentityInv svc s) (hm : PipelineMove svc cfg s a s')
    (r' : Row) (hr' : r' ∈ s'.outbox.table) :
    ∃ k call mid, InsertedBy svc s' k call mid r' ∧
      (∀ ref ∈ r'.attachments, ref.Under mid) ∧ OnlyUnder s'.objects mid r'.attachments := by
  rcases hm.of_row hr' with ⟨r, hr, hfix⟩ |
    ⟨k, call, id, mid, refs, hcall, hpc, hrow, hobj, pc, hcall', hanswered⟩
  · obtain ⟨k, call, mid, hby, hunder, honly⟩ := h.rows r hr
    obtain ⟨call', hby'⟩ := hby.step hm hfix
    have hattachments : r'.attachments = r.attachments :=
      SignalMessage.attachments_eq_of_fixed hfix
    rw [hattachments]
    refine ⟨k, call', mid, hby', hunder, honly.mono fun ref href hhas => ?_⟩
    rcases h.upload.has_of_step hm hby.drawn href hhas with hold | ⟨call₀, act, hcall₀, _, hput⟩
    · exact hold
    · cases hby.place.symm.trans hcall₀
      rw [hby.puts_eq_nil] at hput
      obtain ⟨x, hx, _⟩ := hput
      cases hx
  · have hkept := h.upload.kept k call hcall
    rw [hpc] at hkept
    have honly := h.pending k call hcall mid (by rw [hpc]; rfl)
    rw [hpc] at honly
    have hattachments : r'.attachments = refs := by rw [hrow]; rfl
    rw [hattachments, hobj]
    exact ⟨k, _, mid, h.insert.inserted hm hcall hpc hcall' hrow hanswered, hkept.2.under, honly⟩

theorem IdentityInv.step (h : IdentityInv svc s) (hok : FreshUuids s a)
    (hs : s.step svc cfg a = some s') : IdentityInv svc s' := by
  have hm := Pipeline.step_move hs
  refine ⟨h.upload.step hok hs, h.insert.step hs, h.owned_step hm, h.pending_step hok hm,
    h.rows_step hm⟩

/-! ## One identity -/

/-- The store without what lies under the prefix. -/
def Objects.removeUnder (o : Objects) (id : UUID) : Objects :=
  fun bucket key => if (id ++ "/").toList <+: key.toList then none else o bucket key

theorem Objects.has_removeUnder : (o.removeUnder id).Has ref ↔
    o.Has ref ∧ ¬ (id ++ "/").toList <+: ref.filename.toList := by
  rw [Objects.Has, Objects.removeUnder]
  split
  · next hpre => exact iff_of_false (fun h => h rfl) fun h => h.2 hpre
  · next hpre => exact ⟨fun h => ⟨h, hpre⟩, And.left⟩

/-- Between UUIDs the prefix tells what lies under an id. -/
theorem Attachment.Under.starts_iff (h : ref.Under id') (huuid : IsUuid id)
    (huuid' : IsUuid id') : (id ++ "/").toList <+: ref.filename.toList ↔ ref.Under id := by
  obtain ⟨name, hname, hfile⟩ := h
  constructor
  · rintro ⟨rest, hrest⟩
    have hkey : id.toList ++ '/' :: rest = id'.toList ++ '/' :: name.toList := by
      simpa [hfile] using hrest
    have hlength : id.toList.length = id'.toList.length := by
      rw [String.length_toList, String.length_toList, huuid.1, huuid'.1]
    have hid : id = id' := String.toList_injective (List.append_inj_left hkey hlength)
    exact ⟨name, hname, hid ▸ hfile⟩
  · rintro ⟨name', _, hfile'⟩
    have hkey : ref.filename.toList = (id ++ "/").toList ++ name'.toList := by
      rw [hfile', String.toList_append]
    rw [hkey]
    exact List.prefix_append _ _

/-- The id of the row is its `correlation_id` and the prefix of its attachments, and the
objects that go with the prefix are those of its attachments. -/
structure OneIdentity (o : Objects) (r : Row) : Prop where
  correlationId : r.correlationId = r.id
  attachments : ∀ ref ∈ r.attachments, ref.Under r.id
  removeUnder : ∀ ref, o.Has ref → (¬ (o.removeUnder r.id).Has ref ↔ ref.KeyIn r.attachments)

/-- Along any run with fresh ids: every row was inserted by a call, and has one identity
exactly when the database has drawn for it what the call has drawn. -/
theorem one_identity_iff (hr : RunOf (Pipeline.step svc cfg) FreshUuids Pipeline.init tr s)
    (huuid : ∀ p ∈ s.drawn, IsUuid p.2) (hrow : r ∈ s.outbox.table) :
    ∃ k call mid, InsertedBy svc s k call mid r ∧ (OneIdentity s.objects r ↔ r.id = mid) := by
  have hI : IdentityInv svc s := hr.invariant identityInv_init fun _ _ _ h hok hs => h.step hok hs
  obtain ⟨k, call, mid, hby, hunder, honly⟩ := hI.rows r hrow
  obtain ⟨now, refs, hcolumns⟩ := hby.columns
  have hcorrelation : r.correlationId = mid := congrArg SignalMessage.correlationId hcolumns
  refine ⟨k, call, mid, hby, fun h => ?_, ?_⟩
  · exact h.correlationId.symm.trans hcorrelation
  · rintro rfl
    refine ⟨hcorrelation, hunder, fun ref hhas => ?_⟩
    obtain ⟨p, hp, hunder'⟩ := hI.owned ref hhas
    rw [Objects.has_removeUnder, not_and_not_right,
      hunder'.starts_iff (huuid _ hby.drawn) (huuid p hp)]
    constructor
    · intro href
      exact honly ref (href hhas) hhas
    · rintro ⟨x, hx, _, hfile⟩ _
      obtain ⟨name, hname, hkey⟩ := hunder x hx
      exact ⟨name, hname, hfile.symm.trans hkey⟩

/-- A request with one file. -/
def attachedTrace (drawn stored : UUID) : List PipelineLabel :=
  [.intake (.request
      { externalId := "ext-1", recipient := some "+380111111111", content := "hello" }
      [.part ⟨[0x61], "text/plain", [0x31]⟩]),
    .intake (.enqueue 0 (.lookup drawn false)), .intake (.enqueue 0 (.next false)),
    .intake (.enqueue 0 (.next false)), .intake (.enqueue 0 (.insert stored .committed))]

/-- What `uuid.New` draws for the request. -/
def keyUuid : UUID := "00000000-0000-4000-8000-00000000000a"

/-- Where the database draws the same, the message has one identity. -/
theorem attached_one_identity :
    ∃ s r, RunOf (Pipeline.step defaultService defaultConfig) FreshUuids Pipeline.init
        (attachedTrace keyUuid keyUuid) s ∧ r ∈ s.outbox.table ∧ OneIdentity s.objects r := by
  have hr : RunOf (Pipeline.step defaultService defaultConfig) FreshUuids Pipeline.init
      (attachedTrace keyUuid keyUuid) _ := runOf_of_execOf rfl
  have huuid : ∀ p ∈ [(0, keyUuid)], IsUuid p.2 := by decide
  obtain ⟨k, call, mid, hby, hiff⟩ := one_identity_iff hr huuid (List.mem_singleton_self _)
  refine ⟨_, _, hr, List.mem_singleton_self _, hiff.mpr ?_⟩
  have hdrawn : (k, mid) ∈ [(0, keyUuid)] := hby.drawn
  cases List.mem_singleton.mp hdrawn
  rfl

/-- The database draws another one: the caller gets an id that is neither the
`correlation_id` nor the prefix of the attachment, and to remove what lies under it
leaves the attachment in the store. -/
theorem attached_two_identities :
    ∃ s r, RunOf (Pipeline.step defaultService defaultConfig) FreshUuids Pipeline.init
        (attachedTrace keyUuid rowUuid) s ∧
      (s.calls.map EnqueueCall.pc) = [.returned (.ok { id := rowUuid })] ∧
      r ∈ s.outbox.table ∧ r.id = rowUuid ∧ r.correlationId = keyUuid ∧
      r.attachments.map Attachment.filename = [keyUuid ++ "/a"] ∧
      s.objects.removeUnder r.id defaultService.bucket (keyUuid ++ "/a") =
        some ⟨[0x31], "text/plain"⟩ ∧
      ¬ OneIdentity s.objects r := by
  refine ⟨_, _, runOf_of_execOf rfl, rfl, List.mem_singleton_self _, rfl, rfl, rfl, rfl,
    fun h => ?_⟩
  exact absurd h.correlationId (by decide)

end Signalium
