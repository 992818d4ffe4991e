import Signalium.Delivery.Pipeline
import Signalium.Storage.ObjectStore

/-!
# The attachments of a message

The name of an attachment is sanitized, becomes the last element of the key of
its object, goes into the row, comes out of it as a reference, and becomes the
name of a file.  Up to the sanitizing nothing is lost on this way, and the
prefix of the keys, drawn for each request, keeps other requests out.

The sanitizing maps different names to one.  Two such attachments of a message
share an object and a file, and the one uploaded last is what both paths hold.
So the paths a worker gets hold the bytes of the request exactly when the
sanitized names are distinct (`attachments_exact_iff`).
-/

namespace Signalium

open Runs Tables Disks

/-! ## Uploads -/

/-- The parts a request uploads: those before the end of its stream. -/
def attachmentParts : List PartRead → List AttachmentPart
  | .part p :: rest => p :: attachmentParts rest
  | _ => []

/-- The name of an attachment after sanitizing. -/
def AttachmentPart.name (p : AttachmentPart) : String := sanitizeFilename p.filename

/-- The key of its object. -/
def AttachmentPart.key (id : UUID) (p : AttachmentPart) : String := id ++ "/" ++ p.name

/-- The object `Put` stores. -/
def AttachmentPart.object (p : AttachmentPart) : Object := ⟨p.body, p.contentType⟩

/-- The reference the row keeps. -/
def AttachmentPart.ref (svc : ServiceConfig) (id : UUID) (p : AttachmentPart) : Attachment where
  bucket := svc.bucket
  filename := p.key id
  mimeType := p.contentType

variable {svc : ServiceConfig} {cfg : WorkerConfig} {s s' : Pipeline} {a : PipelineLabel}
  {tr : List PipelineLabel} {o o' : Objects} {id id' : UUID} {ps : List AttachmentPart}
  {refs : List Attachment} {k : Nat} {parts : List PartRead}

theorem attachmentParts_append (ps : List AttachmentPart) (rest : List PartRead) :
    attachmentParts (ps.map .part ++ rest) = ps ++ attachmentParts rest := by
  induction ps with
  | nil => rfl
  | cons p ps ih => exact congrArg (p :: ·) ih

/-- Where the stream ends, the parts read are all of them. -/
theorem attachmentParts_eq {rest : List PartRead} (h : parts = ps.map .part ++ rest)
    (hend : attachmentParts rest = []) : attachmentParts parts = ps := by
  rw [h, attachmentParts_append, hend, List.append_nil]

theorem read_part {p : AttachmentPart} {rest : List PartRead}
    (h : parts = ps.map .part ++ .part p :: rest) : parts = (ps ++ [p]).map .part ++ rest := by
  rw [h, List.map_append, List.append_assoc]
  rfl

/-- A key tells its two parts. -/
theorem key_inj {name name' : String} (hn : Paths.IsName name.toList)
    (hn' : Paths.IsName name'.toList) (h : id ++ "/" ++ name = id' ++ "/" ++ name') :
    id = id' ∧ name = name' := by
  have hl : id.toList ++ '/' :: name.toList = id'.toList ++ '/' :: name'.toList := by
    have hlist := congrArg String.toList h
    simpa using hlist
  have hname : name.toList = name'.toList := by
    have hbase := congrArg (base '/' '.') hl
    rwa [base_append hn.1 hn.2.1, base_append hn'.1 hn'.2.1] at hbase
  rw [hname] at hl
  exact ⟨String.toList_injective (List.append_cancel_right hl), String.toList_injective hname⟩

/-- The file name of the reference of an attachment. -/
theorem AttachmentPart.base_key (p : AttachmentPart) (hname : p.name ≠ "") (b : String) :
    (ObjectRef.mk b (p.key id)).base = p.name :=
  ObjectRef.base_of_name (sanitizeFilename_isName hname) b id

/-! ## What becomes of the objects -/

/-- The objects under the prefix `id` are the same. -/
def SameUnder (id : UUID) (o o' : Objects) : Prop :=
  ∀ bucket name, Paths.IsName name.toList →
    o' bucket (id ++ "/" ++ name) = o bucket (id ++ "/" ++ name)

/-- The references are those of the parts, and their objects are in the store, if
their names are distinct. -/
structure Uploaded (svc : ServiceConfig) (o : Objects) (id : UUID) (ps : List AttachmentPart)
    (refs : List Attachment) : Prop where
  refs_eq : refs = ps.map (AttachmentPart.ref svc id)
  named : ∀ p ∈ ps, p.name ≠ ""
  stored : (ps.map AttachmentPart.name).Nodup →
    ∀ p ∈ ps, o svc.bucket (p.key id) = some p.object

theorem uploaded_nil : Uploaded svc o id [] [] := ⟨rfl, by simp, by simp⟩

theorem Uploaded.frame (h : Uploaded svc o id ps refs) (hsame : SameUnder id o o') :
    Uploaded svc o' id ps refs := by
  refine ⟨h.refs_eq, h.named, fun hnodup p hp => ?_⟩
  rw [AttachmentPart.key, hsame svc.bucket p.name (sanitizeFilename_isName (h.named p hp))]
  exact h.stored hnodup p hp

/-- One part more. -/
theorem Uploaded.put {p : AttachmentPart} (h : Uploaded svc o id ps refs) (hname : p.name ≠ "") :
    Uploaded svc (o.put svc.bucket (p.key id) p.object) id (ps ++ [p])
      (refs ++ [p.ref svc id]) := by
  refine ⟨by rw [h.refs_eq, List.map_append]; rfl, ?_, fun hnodup q hq => ?_⟩
  · intro q hq
    rcases List.mem_append.mp hq with hq | hq
    · exact h.named q hq
    · rw [List.mem_singleton.mp hq]; exact hname
  · rw [List.map_append, List.map_singleton, List.nodup_append] at hnodup
    rcases List.mem_append.mp hq with hq | hq
    · -- An earlier part has another name, so its object is left alone.
      have hne : q.key id ≠ p.key id := by
        intro he
        have hn := (key_inj (sanitizeFilename_isName (h.named q hq))
          (sanitizeFilename_isName hname) he).2
        exact hnodup.2.2 q.name (List.mem_map.mpr ⟨q, hq, rfl⟩) p.name
          (List.mem_singleton_self _) hn
      simpa [Objects.put, hne] using h.stored hnodup.1 q hq
    · rw [List.mem_singleton.mp hq]
      simp [Objects.put]

/-- The reference lies under the prefix `id`. -/
def Attachment.Under (id : UUID) (ref : Attachment) : Prop :=
  ∃ name, Paths.IsName name.toList ∧ ref.filename = id ++ "/" ++ name

theorem Uploaded.under (h : Uploaded svc o id ps refs) : ∀ ref ∈ refs, ref.Under id := by
  intro ref href
  rw [h.refs_eq] at href
  obtain ⟨p, hp, rfl⟩ := List.mem_map.mp href
  exact ⟨p.name, sanitizeFilename_isName (h.named p hp), rfl⟩

theorem sameUnder_put {name : String} {x : Object} {bucket : String} (hne : id ≠ id')
    (hn : Paths.IsName name.toList) : SameUnder id o (o.put bucket (id' ++ "/" ++ name) x) := by
  intro b n hn'
  have hkey : id ++ "/" ++ n ≠ id' ++ "/" ++ name := fun he => hne (key_inj hn' hn he).1
  simp [Objects.put, hkey]

theorem sameUnder_remove {ref : Attachment} (hne : id ≠ id') (href : ref.Under id') :
    SameUnder id o (o.remove ref.bucket ref.filename) := by
  intro b n hn'
  obtain ⟨name, hn, hfile⟩ := href
  have hkey : id ++ "/" ++ n ≠ ref.filename := fun he => hne (key_inj hn' hn (he.trans hfile)).1
  simp [Objects.remove, hkey]

/-! ## Runs -/

/-- The text of a UUID. -/
def IsUuid (s : String) : Prop :=
  s.length = 36 ∧ ∀ c ∈ s.toList, c ∈ "0123456789abcdef-".toList

instance (s : String) : Decidable (IsUuid s) :=
  @instDecidableAnd _ _ (inferInstanceAs (Decidable (s.length = 36)))
    (List.decidableBAll _ s.toList)

theorem IsUuid.isName (h : IsUuid id) : Paths.IsName id.toList := by
  have hlen : id.toList.length = 36 := by rw [String.length_toList]; exact h.1
  refine ⟨?_, ?_, ?_, ?_⟩
  · intro hc; rw [hc] at hlen; cases hlen
  · intro hc; exact absurd (h.2 '/' hc) (by decide)
  · intro hc; rw [hc] at hlen; cases hlen
  · intro hc; rw [hc] at hlen; cases hlen

/-- `uuid.New` does not draw an id twice, and the database draws UUIDs. -/
def FreshUuids (s : Pipeline) : PipelineLabel → Prop
  | .intake (.enqueue _ (.lookup id _)) => ∀ p ∈ s.drawn, p.2 ≠ id
  | .intake (.enqueue _ (.insert id _)) => IsUuid id
  | _ => True

instance (s : Pipeline) (a : PipelineLabel) : Decidable (FreshUuids s a) :=
  match a with
  | .intake (.enqueue _ (.lookup _ _)) => inferInstanceAs (Decidable (∀ p ∈ s.drawn, _))
  | .intake (.enqueue _ (.insert id _)) => inferInstanceAs (Decidable (IsUuid id))
  | .intake (.enqueue _ (.next _)) | .intake (.enqueue _ (.remove _)) | .intake (.advance _)
  | .intake (.request _ _) | .outbox _ => isTrue trivial

/-- What the call at place `k` has in the store and in the table. -/
def EnqueuePc.Kept (svc : ServiceConfig) (s : Pipeline) (k : Nat) (parts : List PartRead) :
    EnqueuePc → Prop
  | .start => True
  | .uploading id rest done => (k, id) ∈ s.drawn ∧ ∃ ps, parts = ps.map .part ++ rest ∧
      Uploaded svc s.objects id ps done
  | .inserting id refs => (k, id) ∈ s.drawn ∧
      Uploaded svc s.objects id (attachmentParts parts) refs
  | .rollingBack refs _ => ∃ id, (k, id) ∈ s.drawn ∧ ∀ ref ∈ refs, ref.Under id
  | .returned (.ok ⟨rid, false⟩) => IsUuid rid ∧ ∃ id, (k, id) ∈ s.drawn ∧
      ∃ r ∈ s.outbox.table, r.id = rid ∧
        Uploaded svc s.objects id (attachmentParts parts) r.attachments
  | .returned _ => True

theorem kept_rollback (hk : (k, id) ∈ s.drawn) (hunder : ∀ ref ∈ refs, ref.Under id)
    (e : ServiceError) : (rollback refs e).Kept svc s k parts := by
  cases refs with
  | nil => exact trivial
  | cons ref refs => exact ⟨id, hk, hunder⟩

/-- A call keeps what it has where its objects and the rows are left alone. -/
theorem EnqueuePc.Kept.frame {pc : EnqueuePc} (h : pc.Kept svc s k parts)
    (hdrawn : ∀ p ∈ s.drawn, p ∈ s'.drawn)
    (hobj : ∀ id, (k, id) ∈ s.drawn → SameUnder id s.objects s'.objects)
    (hrow : ∀ r ∈ s.outbox.table, ∃ r' ∈ s'.outbox.table,
      (rowToDomain r').fixed = (rowToDomain r).fixed) : pc.Kept svc s' k parts := by
  match pc, h with
  | .start, _ => exact trivial
  | .uploading id rest done, ⟨hk, ps, hps, hup⟩ =>
      exact ⟨hdrawn _ hk, ps, hps, hup.frame (hobj id hk)⟩
  | .inserting id refs, ⟨hk, hup⟩ => exact ⟨hdrawn _ hk, hup.frame (hobj id hk)⟩
  | .rollingBack refs e, ⟨id, hk, hunder⟩ => exact ⟨id, hdrawn _ hk, hunder⟩
  | .returned (.ok ⟨rid, false⟩), ⟨huuid, id, hk, r, hr, hid, hup⟩ =>
      obtain ⟨r', hr', hfix⟩ := hrow r hr
      have hid' : r'.id = r.id := SignalMessage.id_eq_of_fixed hfix
      have hatt : r'.attachments = r.attachments := SignalMessage.attachments_eq_of_fixed hfix
      exact ⟨huuid, id, hdrawn _ hk, r', hr', hid'.trans hid, hatt ▸ hup.frame (hobj id hk)⟩
  | .returned (.ok ⟨_, true⟩), _ => exact trivial
  | .returned (.error _), _ => exact trivial

/-- The ids of different calls differ, and every call has what it should. -/
structure UploadInv (svc : ServiceConfig) (s : Pipeline) : Prop where
  apart : ∀ k k' id, (k, id) ∈ s.drawn → (k', id) ∈ s.drawn → k = k'
  kept : ∀ (k : Nat) (call : EnqueueCall), s.calls[k]? = some call →
    call.pc.Kept svc s k call.parts

theorem uploadInv_init : UploadInv svc Pipeline.init where
  apart := by intro k k' id h; cases h
  kept := by intro k call h; cases h

/-- A step of a call leaves the objects under the ids of other calls alone. -/
theorem EnqueueMove.sameUnder {call : EnqueueCall} {act : EnqueueAct} {t : Messages}
    {pc : EnqueuePc} (h : EnqueueMove svc s.intake call act o t pc)
    (hkept : call.pc.Kept svc s k call.parts) (hid : (k, id) ∉ s.drawn) :
    SameUnder id s.objects o := by
  cases h with
  | put hpc hname =>
      rw [hpc] at hkept
      exact sameUnder_put (fun he => hid (he ▸ hkept.1)) (sanitizeFilename_isName hname)
  | @remove ref refs e fails hpc =>
      rw [hpc] at hkept
      obtain ⟨id', hk, hunder⟩ := hkept
      cases fails with
      | true => exact fun _ _ _ => rfl
      | false => exact sameUnder_remove (fun he => hid (he ▸ hk)) (hunder ref List.mem_cons_self)
  | _ => exact fun _ _ _ => rfl

/-- A step of a call keeps what the call has. -/
theorem EnqueueMove.kept {call : EnqueueCall} {act : EnqueueAct} {t : Messages} {pc : EnqueuePc}
    (h : EnqueueMove svc s.intake call act o t pc) (hok : FreshUuids s (.intake (.enqueue k act)))
    (hkept : call.pc.Kept svc s k call.parts)
    (hs' : s' = s.withIntake (.enqueue k act)
      { s.intake.goto k call pc with objects := o, table := t }) :
    pc.Kept svc s' k call.parts := by
  subst hs'
  have hdrawn : ∀ p ∈ s.drawn, p ∈ s.drawn ++ (IntakeLabel.enqueue k act).draws :=
    fun p hp => List.mem_append_left _ hp
  cases h with
  | invalid | lookupFailed | hit => exact trivial
  | keyless | miss =>
      exact ⟨List.mem_append_right _ (List.mem_singleton_self _), [], rfl, uploaded_nil⟩
  | uploaded hpc | readEOF hpc =>
      rw [hpc] at hkept
      obtain ⟨hk, ps, hps, hup⟩ := hkept
      exact ⟨hdrawn _ hk, attachmentParts_eq hps rfl ▸ hup⟩
  | readFailed hpc | rejected hpc | putFailed hpc =>
      rw [hpc] at hkept
      obtain ⟨hk, ps, _, hup⟩ := hkept
      exact kept_rollback (hdrawn _ hk) hup.under _
  | @put id p rest done hpc hname =>
      rw [hpc] at hkept
      obtain ⟨hk, ps, hps, hup⟩ := hkept
      exact ⟨hdrawn _ hk, ps ++ [p], read_part hps, hup.put hname⟩
  | remove hpc =>
      rw [hpc] at hkept
      obtain ⟨id, hk, hunder⟩ := hkept
      exact kept_rollback (hdrawn _ hk) (fun ref href => hunder ref (List.mem_cons_of_mem _ href)) _
  | unreached hpc | insertRejected hpc | insertLost hpc =>
      rw [hpc] at hkept
      exact kept_rollback (hdrawn _ hkept.1) hkept.2.under _
  | @inserted id mid refs row t hpc hins =>
      rw [hpc] at hkept
      have hrow := (Messages.insert_eq_ok hins).1
      subst hrow
      exact ⟨hok, mid, hdrawn _ hkept.1, _, (Messages.mem_insert hins).mpr (Or.inr rfl), rfl,
        hkept.2⟩

/-- A fresh id keeps the ids of the calls apart. -/
theorem UploadInv.apart_step {b : IntakeLabel} (h : UploadInv svc s)
    (hok : FreshUuids s (.intake b)) :
    ∀ k k' id, (k, id) ∈ s.drawn ++ b.draws → (k', id) ∈ s.drawn ++ b.draws → k = k' := by
  intro k k' id hk hk'
  by_cases hb : ∃ j new fails, b = .enqueue j (.lookup new fails)
  · obtain ⟨j, new, fails, rfl⟩ := hb
    have hfresh : ∀ i, (i, new) ∉ s.drawn := fun i hi => hok (i, new) hi rfl
    rcases List.mem_append.mp hk with hold | hnew <;>
      rcases List.mem_append.mp hk' with hold' | hnew'
    · exact h.apart k k' id hold hold'
    · cases List.mem_singleton.mp hnew'
      exact absurd hold (hfresh k)
    · cases List.mem_singleton.mp hnew
      exact absurd hold' (hfresh k')
    · cases List.mem_singleton.mp hnew
      cases List.mem_singleton.mp hnew'
      rfl
  · have hnil : b.draws = [] := by
      unfold IntakeLabel.draws
      split
      · exact absurd ⟨_, _, _, rfl⟩ hb
      · rfl
    rw [hnil, List.append_nil] at hk hk'
    exact h.apart k k' id hk hk'

theorem UploadInv.step (h : UploadInv svc s) (hok : FreshUuids s a)
    (hs : s.step svc cfg a = some s') : UploadInv svc s' := by
  have hm := Pipeline.step_move hs
  have hrows : ∀ r ∈ s.outbox.table, ∃ r' ∈ s'.outbox.table,
      (rowToDomain r').fixed = (rowToDomain r).fixed := fun r hr => hm.row_stays hr
  cases hm with
  | outbox _ _ =>
      exact ⟨h.apart, fun k call hcall =>
        (h.kept k call hcall).frame (fun _ hp => hp) (fun _ _ _ _ _ => rfl) hrows⟩
  | intake hi =>
      cases hi with
      | advance =>
          refine ⟨h.apart_step hok, fun k call hcall => ?_⟩
          exact (h.kept k call hcall).frame (fun _ hp => List.mem_append_left _ hp)
            (fun _ _ _ _ _ => rfl) hrows
      | request =>
          refine ⟨h.apart_step hok, fun k call hcall => ?_⟩
          rcases Places.of_snoc hcall with hold | ⟨_, rfl⟩
          · exact (h.kept k call hold).frame (fun _ hp => List.mem_append_left _ hp)
              (fun _ _ _ _ _ => rfl) hrows
          · exact trivial
      | @enqueue j call act o t pc hcall hmove =>
          have hkeptj := h.kept j call hcall
          refine ⟨h.apart_step hok, fun k call' hcall' => ?_⟩
          rcases Places.of_set hcall' with ⟨rfl, rfl⟩ | ⟨hkj, hold⟩
          · exact hmove.kept hok hkeptj rfl
          · refine (h.kept k call' hold).frame (fun _ hp => List.mem_append_left _ hp) ?_ hrows
            intro id hk
            exact hmove.sameUnder hkeptj fun hj => hkj (h.apart k j id hk hj)

/-- Along any run with fresh ids: for an accepted request that was not answered
from an earlier one, `DownloadAll` on the references of its row returns one path
for each attachment, all different and each with the bytes of its attachment,
exactly when the sanitized names of the attachments are distinct. -/
theorem attachments_exact_iff {call : EnqueueCall} {rid : UUID} {r : Row} {disk : Disk}
    {now : Int} {tmpDir : String}
    (hr : RunOf (Pipeline.step svc cfg) FreshUuids Pipeline.init tr s)
    (hcall : s.calls[k]? = some call) (hpc : call.pc = .returned (.ok { id := rid }))
    (hrow : r ∈ s.outbox.table) (hid : r.id = rid) :
    Exact tmpDir ((attachmentParts call.parts).map AttachmentPart.body)
        (downloadAll tmpDir s.objects now r.id (toRefs r.attachments) disk) ↔
      ((attachmentParts call.parts).map AttachmentPart.name).Nodup := by
  have hI : UploadInv svc s := hr.invariant uploadInv_init fun _ _ _ h hok hs => h.step hok hs
  have hkept := hI.kept k call hcall
  rw [hpc] at hkept
  obtain ⟨huuid, id, _, r₀, hr₀, hid₀, hup⟩ := hkept
  cases s.outbox.table.row_unique hrow hr₀ (hid.trans hid₀.symm)
  have hrefs : toRefs r.attachments =
      (attachmentParts call.parts).map fun p => ⟨svc.bucket, p.key id⟩ := by
    rw [hup.refs_eq, toRefs, List.map_map]
    rfl
  have hnames : (toRefs r.attachments).map ObjectRef.base =
      (attachmentParts call.parts).map AttachmentPart.name := by
    rw [hrefs, List.map_map]
    exact List.map_congr_left fun p hp => p.base_key (hup.named p hp) svc.bucket
  have hbodies : (attachmentParts call.parts).map AttachmentPart.body =
      ((attachmentParts call.parts).map AttachmentPart.object).map Object.body := by
    rw [List.map_map]
    rfl
  rw [← hnames, hbodies]
  refine downloadAll_exact_iff (by rw [hid]; exact huuid.isName) ?_ ?_
  · intro ref href
    have hmem := List.mem_map_of_mem (f := ObjectRef.base) href
    rw [hnames] at hmem
    obtain ⟨p, hp, he⟩ := List.mem_map.mp hmem
    rw [← he]
    exact sanitizeFilename_isName (hup.named p hp)
  · intro hnodup
    rw [hnames] at hnodup
    rw [hrefs, List.map_map, List.map_map]
    exact List.map_congr_left fun p hp => hup.stored hnodup p hp

/-- A request with two files. -/
def twoFiles (name₁ name₂ : List UInt8) : PipelineLabel :=
  .intake (.request
    { externalId := "ext-1", recipient := some "+380111111111", content := "hello" }
    [.part ⟨name₁, "text/plain", [0x31]⟩, .part ⟨name₂, "text/plain", [0x32]⟩])

/-- The id the database draws for the request. -/
def rowUuid : UUID := "00000000-0000-4000-8000-000000000001"

/-- The request is enqueued. -/
def enqueueTwoFiles (name₁ name₂ : List UInt8) : List PipelineLabel :=
  [twoFiles name₁ name₂, .intake (.enqueue 0 (.lookup "u-1" false)),
    .intake (.enqueue 0 (.next false)), .intake (.enqueue 0 (.next false)),
    .intake (.enqueue 0 (.next false)), .intake (.enqueue 0 (.insert rowUuid .committed))]

/-- The files `a.txt` and `b.txt` arrive as they were sent. -/
theorem twoNames_exact :
    ∃ s r, RunOf (Pipeline.step defaultService defaultConfig) FreshUuids Pipeline.init
        (enqueueTwoFiles [0x61, 0x2E, 0x74, 0x78, 0x74] [0x62, 0x2E, 0x74, 0x78, 0x74]) s ∧
      r ∈ s.outbox.table ∧
      Exact "tmp" [[0x31], [0x32]]
        (downloadAll "tmp" s.objects 0 r.id (toRefs r.attachments) Disk.empty) := by
  have hr : RunOf (Pipeline.step defaultService defaultConfig) FreshUuids Pipeline.init
      (enqueueTwoFiles [0x61, 0x2E, 0x74, 0x78, 0x74] [0x62, 0x2E, 0x74, 0x78, 0x74]) _ :=
    runOf_of_execOf rfl
  exact ⟨_, _, hr, List.mem_singleton_self _,
    (attachments_exact_iff (k := 0) hr rfl rfl (List.mem_singleton_self _) rfl).mpr (by decide)⟩

/-- Two equal paths are not exact. -/
theorem not_exact_of_twice {tmpDir path : String} {bodies : List (List UInt8)} {disk : Disk} :
    ¬ Exact tmpDir bodies (.ok [path, path], disk) := by
  rintro ⟨paths, hok, _, hnodup, _⟩
  cases hok
  simp at hnodup

/-- The files `a b.txt` and `a_b.txt` are both stored and downloaded as `a_b.txt`,
and both paths hold the second one. -/
theorem oneName_not_exact :
    ∃ s r disk, RunOf (Pipeline.step defaultService defaultConfig) FreshUuids Pipeline.init
        (enqueueTwoFiles [0x61, 0x20, 0x62, 0x2E, 0x74, 0x78, 0x74]
          [0x61, 0x5F, 0x62, 0x2E, 0x74, 0x78, 0x74]) s ∧
      (s.calls.map EnqueueCall.pc) = [.returned (.ok { id := rowUuid })] ∧
      r ∈ s.outbox.table ∧ r.id = rowUuid ∧
      downloadAll "tmp" s.objects 0 r.id (toRefs r.attachments) Disk.empty =
        (.ok ["tmp/00000000-0000-4000-8000-000000000001/a_b.txt",
          "tmp/00000000-0000-4000-8000-000000000001/a_b.txt"], disk) ∧
      readPath "tmp" disk "tmp/00000000-0000-4000-8000-000000000001/a_b.txt" = some [0x32] ∧
      ¬ Exact "tmp" [[0x31], [0x32]]
        (downloadAll "tmp" s.objects 0 r.id (toRefs r.attachments) Disk.empty) := by
  refine ⟨_, _, _, runOf_of_execOf rfl, rfl, List.mem_singleton_self _, rfl, rfl, rfl, ?_⟩
  exact not_exact_of_twice

end Signalium
