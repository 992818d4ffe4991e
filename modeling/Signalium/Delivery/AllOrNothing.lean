import Signalium.Delivery.Requests

/-!
# A call of Enqueue is all or nothing

`uploadAll` has four ways out, and `Insert` can fail after it.  Each of them rolls
back what was uploaded so far, and nothing else.  With a context that stays live,
and with nobody else at work between two steps of the call, a call that fails
leaves the objects and the table as it has found them, and a call that does not
adds one row and the objects this row names (`enqueue_all_or_nothing`).

A key can be put twice in one call.  Its removal is then tried twice as well, the
second time on a key that is not there.  What matters is that nothing was under the
key before the call, and that is so since the id of the prefix is new.
-/

namespace Signalium

open Runs Tables

/-! ## Objects apart from some keys -/

/-- The objects are the same, apart from the keys of `refs`. -/
def Objects.SameOff (refs : List Attachment) (o o' : Objects) : Prop :=
  ∀ bucket key, (∀ ref ∈ refs, ¬ (bucket = ref.bucket ∧ key = ref.filename)) →
    o' bucket key = o bucket key

variable {o o' : Objects} {refs : List Attachment} {r : Attachment}

theorem Objects.sameOff_nil : SameOff [] o o' ↔ o' = o := by
  constructor
  · intro h
    funext bucket key
    exact h bucket key nofun
  · rintro rfl _ _ _
    rfl

theorem Objects.SameOff.put (h : SameOff refs o o') (x : Object) :
    SameOff (refs ++ [r]) o (o'.put r.bucket r.filename x) := by
  intro bucket key hoff
  have hne := hoff r (List.mem_append_right _ (List.mem_singleton_self r))
  rw [Objects.put, if_neg hne]
  exact h bucket key fun ref href => hoff ref (List.mem_append_left _ href)

/-- A removal, where there was nothing. -/
theorem Objects.SameOff.remove (h : SameOff (r :: refs) o o')
    (habsent : o r.bucket r.filename = none) :
    SameOff refs o (o'.remove r.bucket r.filename) := by
  intro bucket key hoff
  by_cases hk : bucket = r.bucket ∧ key = r.filename
  · rw [Objects.remove, if_pos hk, hk.1, hk.2, habsent]
  · rw [Objects.remove, if_neg hk]
    refine h bucket key fun ref href => ?_
    rcases List.mem_cons.mp href with rfl | href
    · exact hk
    · exact hoff ref href

/-! ## One call -/

/-- Nobody but the call at place `k` takes a step, no `Insert` takes effect without
its reply, and the bucket has nothing under the id that `uuid.New` draws. -/
def Alone (svc : ServiceConfig) (k : Nat) (s : Requests) : RequestLabel → Prop
  | .pipe (.intake (.advance _)) => True
  | .pipe (.intake (.enqueue j (.lookup id _))) =>
      j = k ∧ ∀ name, s.pipe.objects svc.bucket (id ++ "/" ++ name) = none
  | .pipe (.intake (.enqueue j (.insert _ reply))) => j = k ∧ reply ≠ .ackLost
  | .pipe (.intake (.enqueue j _)) => j = k
  | _ => False

/-- Since `s₀` the call at place `k` has put the parts `ps`, and nothing else has
changed in the store. -/
structure Wrote (svc : ServiceConfig) (s₀ s : Requests) (k : Nat) (id : UUID)
    (ps : List AttachmentPart) (refs : List Attachment) : Prop where
  /-- The references are those of the parts, in order. -/
  refs_eq : refs = ps.map (AttachmentPart.ref svc id)
  /-- They are what the call has put, in order. -/
  puts_eq : s.puts = s₀.puts ++ refs.map (k, ·)
  stored : ∀ ref ∈ refs, s.pipe.objects ref.bucket ref.filename ≠ none
  new : ∀ ref ∈ refs, s₀.pipe.objects ref.bucket ref.filename = none
  others : Objects.SameOff refs s₀.pipe.objects s.pipe.objects

/-- The objects and the table are those of `s₀`. -/
def Untouched (s₀ s : Requests) : Prop :=
  s.pipe.objects = s₀.pipe.objects ∧ s.pipe.outbox.table = s₀.pipe.outbox.table

/-- What a call with these parts may have done when it returns: nothing, or one row
with all its attachments, if it returns the id of a new row. -/
def AllOrNothing (svc : ServiceConfig) (s₀ s : Requests) (k : Nat) (parts : List PartRead) :
    Except ServiceError EnqueueResult → Prop
  | .error _ => Untouched s₀ s
  | .ok { id := _, idempotent := true } => Untouched s₀ s
  | .ok { id := rid, idempotent := false } =>
      ∃ row id, s.pipe.outbox.table.rows = s₀.pipe.outbox.table.rows ++ [row] ∧
        row.id = rid ∧ row.status = .pending ∧
        Wrote svc s₀ s k id (attachmentParts parts) row.attachments

/-- What the call has done up to here. -/
def EnqueuePc.Since (svc : ServiceConfig) (s₀ s : Requests) (k : Nat) (parts : List PartRead) :
    EnqueuePc → Prop
  | .start => Untouched s₀ s ∧ s.puts = s₀.puts
  | .uploading id rest done =>
      s.pipe.outbox.table = s₀.pipe.outbox.table ∧
      (∀ name, s₀.pipe.objects svc.bucket (id ++ "/" ++ name) = none) ∧
      ∃ ps, parts = ps.map .part ++ rest ∧ Wrote svc s₀ s k id ps done
  | .inserting id refs =>
      s.pipe.outbox.table = s₀.pipe.outbox.table ∧
      Wrote svc s₀ s k id (attachmentParts parts) refs
  | .rollingBack refs _ =>
      s.pipe.outbox.table = s₀.pipe.outbox.table ∧
      (∀ ref ∈ refs, s₀.pipe.objects ref.bucket ref.filename = none) ∧
      Objects.SameOff refs s₀.pipe.objects s.pipe.objects
  | .returned r => AllOrNothing svc s₀ s k parts r

variable {svc : ServiceConfig} {cfg : WorkerConfig} {s₀ s s' : Requests} {a : RequestLabel}
  {k : Nat} {id : UUID} {ps : List AttachmentPart} {parts : List PartRead} {call : EnqueueCall}
  {tr : List RequestLabel}

/-- A call that begins to roll back. -/
theorem since_rollback (htable : s.pipe.outbox.table = s₀.pipe.outbox.table)
    (hnew : ∀ ref ∈ refs, s₀.pipe.objects ref.bucket ref.filename = none)
    (hsame : Objects.SameOff refs s₀.pipe.objects s.pipe.objects) (e : ServiceError) :
    (rollback refs e).Since svc s₀ s k parts := by
  cases refs with
  | nil => exact ⟨Objects.sameOff_nil.mp hsame, htable⟩
  | cons ref refs => exact ⟨htable, hnew, hsame⟩

/-- One part more. -/
theorem Wrote.put {p : AttachmentPart} (h : Wrote svc s₀ s k id ps refs)
    (hnew : ∀ name, s₀.pipe.objects svc.bucket (id ++ "/" ++ name) = none)
    (hputs : s'.puts = s.puts ++ [(k, p.ref svc id)])
    (hobj : s'.pipe.objects = s.pipe.objects.put svc.bucket (p.key id) p.object) :
    Wrote svc s₀ s' k id (ps ++ [p]) (refs ++ [p.ref svc id]) where
  refs_eq := by rw [h.refs_eq, List.map_append]; rfl
  puts_eq := by rw [hputs, h.puts_eq, List.map_append, List.append_assoc]; rfl
  stored := by
    intro ref href
    rw [hobj, Objects.put]
    split
    · exact Option.some_ne_none _
    · next hne =>
        rcases List.mem_append.mp href with hold | hlast
        · exact h.stored ref hold
        · rw [List.mem_singleton.mp hlast] at hne
          exact absurd ⟨rfl, rfl⟩ hne
  new := by
    intro ref href
    rcases List.mem_append.mp href with hold | hlast
    · exact h.new ref hold
    · rw [List.mem_singleton.mp hlast]
      exact hnew p.name
  others := by
    have hput := h.others.put (r := p.ref svc id) p.object
    rw [hobj]
    exact hput

theorem Untouched.frame (h : Untouched s₀ s) (hobj : s'.pipe.objects = s.pipe.objects)
    (htable : s'.pipe.outbox.table = s.pipe.outbox.table) : Untouched s₀ s' :=
  ⟨hobj.trans h.1, htable.trans h.2⟩

theorem wrote_nil (hobj : s.pipe.objects = s₀.pipe.objects) (hputs : s.puts = s₀.puts) :
    Wrote svc s₀ s k id [] [] where
  refs_eq := rfl
  puts_eq := by rw [hputs, List.map_nil, List.append_nil]
  stored := nofun
  new := nofun
  others := Objects.sameOff_nil.mpr hobj

theorem Wrote.frame (h : Wrote svc s₀ s k id ps refs) (hobj : s'.pipe.objects = s.pipe.objects)
    (hputs : s'.puts = s.puts) : Wrote svc s₀ s' k id ps refs where
  refs_eq := h.refs_eq
  puts_eq := hputs.trans h.puts_eq
  stored := by rw [hobj]; exact h.stored
  new := h.new
  others := by rw [hobj]; exact h.others

/-- A step of the call. -/
theorem EnqueueMove.since {act : EnqueueAct} {t : Messages} {pc : EnqueuePc}
    (h : EnqueueMove svc s.pipe.intake call act o t pc) (hlive : k ∉ s.cancelled)
    (hallow : s.Allows (.intake (.enqueue k act)))
    (hok : Alone svc k s (.pipe (.intake (.enqueue k act))))
    (hsince : call.pc.Since svc s₀ s k call.parts) (hobj : s'.pipe.objects = o)
    (htable : s'.pipe.outbox.table = t)
    (hputs : s'.puts = s.puts ++ (call.puts svc act).map (k, ·)) :
    pc.Since svc s₀ s' k call.parts := by
  have hnone : call.puts svc act = [] → s'.puts = s.puts := by
    intro hnil
    rw [hputs, hnil, List.map_nil, List.append_nil]
  cases h with
  | invalid hpc | lookupFailed hpc | hit hpc =>
      rw [hpc] at hsince
      exact hsince.1.frame hobj htable
  | keyless hpc | miss hpc =>
      rw [hpc] at hsince
      obtain ⟨⟨hobj₀, htable₀⟩, hputs₀⟩ := hsince
      refine ⟨htable.trans htable₀, fun name => ?_, [], rfl, ?_⟩
      · rw [← hobj₀]
        exact hok.2 name
      · exact wrote_nil (hobj.trans hobj₀) ((hnone rfl).trans hputs₀)
  | uploaded hpc | readEOF hpc =>
      rw [hpc] at hsince
      obtain ⟨htable₀, _, ps, hps, hwrote⟩ := hsince
      refine ⟨htable.trans htable₀, attachmentParts_eq hps rfl ▸ hwrote.frame hobj (hnone ?_)⟩
      exact EnqueueCall.puts_eq_nil fun _ _ _ _ h => by cases hpc.symm.trans h
  | readFailed hpc | rejected hpc | putFailed hpc =>
      rw [hpc] at hsince
      obtain ⟨htable₀, _, ps, _, hwrote⟩ := hsince
      refine since_rollback (htable.trans htable₀) hwrote.new ?_ _
      rw [hobj]
      exact hwrote.others
  | @put id p rest done hpc hname =>
      rw [hpc] at hsince
      obtain ⟨htable₀, hnew, ps, hps, hwrote⟩ := hsince
      rw [EnqueueCall.puts_eq_ref hpc hname] at hputs
      exact ⟨htable.trans htable₀, hnew, ps ++ [p], read_part hps, hwrote.put hnew hputs hobj⟩
  | @remove ref refs e fails hpc =>
      rw [hpc] at hsince
      obtain ⟨htable₀, hnew, hsame⟩ := hsince
      have hfails : fails = false := by
        cases fails with
        | true => exact absurd (hallow.mp rfl) hlive
        | false => rfl
      subst hfails
      refine since_rollback (htable.trans htable₀)
        (fun r hr => hnew r (List.mem_cons_of_mem _ hr)) ?_ e
      rw [hobj]
      exact hsame.remove (hnew ref List.mem_cons_self)
  | unreached hpc | insertRejected hpc =>
      rw [hpc] at hsince
      obtain ⟨htable₀, hwrote⟩ := hsince
      refine since_rollback (htable.trans htable₀) hwrote.new ?_ _
      rw [hobj]
      exact hwrote.others
  | insertLost => exact absurd rfl hok.2
  | inserted hpc hins =>
      rw [hpc] at hsince
      obtain ⟨htable₀, hwrote⟩ := hsince
      obtain ⟨rfl, hrows, _⟩ := Messages.insert_eq_ok hins
      refine ⟨_, _, ?_, rfl, rfl, hwrote.frame hobj (hnone rfl)⟩
      rw [htable, hrows, ← htable₀]
      rfl

/-- The call at place `k`, with its parts, and what it has done since `s₀`. -/
structure AloneInv (svc : ServiceConfig) (s₀ : Requests) (k : Nat) (parts : List PartRead)
    (s : Requests) : Prop where
  live : k ∉ s.cancelled
  since : ∀ call, s.pipe.calls[k]? = some call →
    call.parts = parts ∧ call.pc.Since svc s₀ s k parts

theorem EnqueuePc.Since.frame {pc : EnqueuePc} (h : pc.Since svc s₀ s k parts)
    (hobj : s'.pipe.objects = s.pipe.objects)
    (htable : s'.pipe.outbox.table = s.pipe.outbox.table) (hputs : s'.puts = s.puts) :
    pc.Since svc s₀ s' k parts := by
  match pc, h with
  | .start, ⟨hu, hp⟩ => exact ⟨hu.frame hobj htable, hputs.trans hp⟩
  | .uploading _ _ _, ⟨ht, hnew, ps, hps, hw⟩ =>
      exact ⟨htable.trans ht, hnew, ps, hps, hw.frame hobj hputs⟩
  | .inserting _ _, ⟨ht, hw⟩ => exact ⟨htable.trans ht, hw.frame hobj hputs⟩
  | .rollingBack _ _, ⟨ht, hnew, hsame⟩ => exact ⟨htable.trans ht, hnew, hobj ▸ hsame⟩
  | .returned (.error _), h => exact Untouched.frame h hobj htable
  | .returned (.ok ⟨_, true⟩), h => exact Untouched.frame h hobj htable
  | .returned (.ok ⟨_, false⟩), ⟨row, id, hrows, hid, hst, hw⟩ =>
      exact ⟨row, id, htable ▸ hrows, hid, hst, hw.frame hobj hputs⟩

theorem Alone.place {j : Nat} {act : EnqueueAct}
    (h : Alone svc k s (.pipe (.intake (.enqueue j act)))) : j = k := by
  cases act with
  | lookup | insert => exact h.1
  | next | remove => exact h

theorem AloneInv.step (h : AloneInv svc s₀ k parts s) (hok : Alone svc k s a)
    (hs : s.step svc cfg a = some s') : AloneInv svc s₀ k parts s' := by
  cases Requests.step_move hs with
  | cancel => cases hok
  | pipe hallow hp =>
      cases Pipeline.step_move hp with
      | outbox => cases hok
      | intake hi =>
          cases hi with
          | request => cases hok
          | advance =>
              refine ⟨h.live, fun call hcall => ?_⟩
              obtain ⟨hparts, hsince⟩ := h.since call hcall
              exact ⟨hparts, hsince.frame rfl rfl (List.append_nil _)⟩
          | @enqueue j call act o t pc hcall hmove =>
              cases hok.place
              refine ⟨h.live, fun call' hcall' => ?_⟩
              obtain ⟨hparts, hsince⟩ := h.since call hcall
              rcases Places.of_set hcall' with ⟨_, rfl⟩ | ⟨hne, _⟩
              · subst hparts
                refine ⟨rfl, hmove.since h.live hallow hok hsince rfl rfl ?_⟩
                rw [Pipeline.puts_enqueue hcall]
              · exact absurd rfl hne

/-- From any state, for any parts and whatever fails: a call that runs alone, under a
context that stays live, leaves the objects and the table as they were if it returns
an error.  If it returns the id of a new row, it has added one `PENDING` row, whose
attachments are what it has put, in the order of the parts, and no other object has
changed. -/
theorem enqueue_all_or_nothing {call' : EnqueueCall} {r : Except ServiceError EnqueueResult}
    (hcall : s₀.pipe.calls[k]? = some call) (hstart : call.pc = .start)
    (hlive : k ∉ s₀.cancelled) (hr : RunOf (Requests.step svc cfg) (Alone svc k) s₀ tr s)
    (hcall' : s.pipe.calls[k]? = some call') (hret : call'.pc = .returned r) :
    AllOrNothing svc s₀ s k call.parts r := by
  have hinit : AloneInv svc s₀ k call.parts s₀ := by
    refine ⟨hlive, fun c hc => ?_⟩
    cases hcall.symm.trans hc
    exact ⟨rfl, by rw [hstart]; exact ⟨⟨rfl, rfl⟩, rfl⟩⟩
  have hI := hr.invariant hinit fun _ _ _ h hok hs => h.step hok hs
  have hsince := (hI.since call' hcall').2
  rwa [hret] at hsince

/-- A request with the files `a.txt` and `b.txt` has arrived. -/
def twoFilesArrived : Requests where
  pipe := { Pipeline.init with calls := [{
    m := { externalId := "ext-1", recipient := some "+380111111111", content := "hello" }
    parts := [.part ⟨[0x61, 0x2E, 0x74, 0x78, 0x74], "text/plain", [0x31]⟩,
      .part ⟨[0x62, 0x2E, 0x74, 0x78, 0x74], "text/plain", [0x32]⟩]
    pc := .start }] }
  cancelled := []
  puts := []

/-- The `Put` of the second file fails, and the first one is removed again. -/
theorem failedPut_untouched :
    ∃ tr s call, RunOf (Requests.step defaultService defaultConfig) (Alone defaultService 0)
        twoFilesArrived tr s ∧
      s.pipe.calls[0]? = some call ∧
      call.pc = .returned (.error (.attachmentUploadFailed "b.txt")) ∧
      s.puts.length = 1 ∧ Untouched twoFilesArrived s := by
  have h₁ : RunOf (Requests.step defaultService defaultConfig) (Alone defaultService 0)
      twoFilesArrived ([] ++ [ofCall (.lookup "u-1" false)]) _ :=
    .snoc .nil ⟨rfl, fun _ => rfl⟩ rfl
  have h₂ : RunOf (Requests.step defaultService defaultConfig) (Alone defaultService 0)
      twoFilesArrived ([] ++ [ofCall (.lookup "u-1" false)] ++ [ofCall (.next false)] ++
        [ofCall (.next true)] ++ [ofCall (.remove false)]) _ :=
    .snoc (.snoc (.snoc h₁ rfl rfl) rfl rfl) rfl rfl
  exact ⟨_, _, _, h₂, rfl, rfl, rfl,
    enqueue_all_or_nothing (k := 0) rfl rfl List.not_mem_nil h₂ rfl rfl⟩

end Signalium
