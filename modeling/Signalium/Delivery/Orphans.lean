import Signalium.Delivery.Requests

/-!
# The objects of a cancelled request

A request that is cancelled fails, and its call of `Enqueue` then removes what it
has uploaded.  It does so under the context of the request.  If it was the end of
this context that made the call fail, or if the context ends during the rollback,
the removals fail as well, and the objects stay in the bucket without a row that
names them.

Many requests run at once here, with fresh ids.  A call that has failed leaves
nothing behind exactly when its context was live all the time it rolled back, as
long as an object of it was in the bucket (`no_orphans_iff`).
-/

namespace Signalium

open Runs Tables

/-- The call is in the loop of `rollback`. -/
def EnqueuePc.rollsBack : EnqueuePc → Bool
  | .rollingBack _ _ => true
  | _ => false

/-- There is an object under the key of the reference. -/
def Objects.Has (o : Objects) (ref : Attachment) : Prop := o ref.bucket ref.filename ≠ none

instance (o : Objects) (ref : Attachment) : Decidable (o.Has ref) :=
  inferInstanceAs (Decidable (_ ≠ none))

/-- No object that the call at place `k` has put is in the store. -/
def NoOrphans (k : Nat) (s : Requests) : Prop :=
  ∀ p ∈ s.puts, p.1 = k → ¬ s.pipe.objects.Has p.2

/-- If the call rolls back and an object that it has put is in the store, its context
is live. -/
def RollsBackLive (k : Nat) (s : Requests) : Prop :=
  ∀ call ∈ s.pipe.calls[k]?, call.pc.rollsBack = true →
    (∃ p ∈ s.puts, p.1 = k ∧ s.pipe.objects.Has p.2) → k ∉ s.cancelled

instance (k : Nat) (s : Requests) : Decidable (RollsBackLive k s) :=
  inferInstanceAs (Decidable (∀ call ∈ s.pipe.calls[k]?, _))

/-- `uuid.New` does not draw an id twice. -/
def FreshRequests (s : Requests) : RequestLabel → Prop
  | .pipe a => FreshUuids s.pipe a
  | .cancel _ => True

instance (s : Requests) : (a : RequestLabel) → Decidable (FreshRequests s a)
  | .pipe a => inferInstanceAs (Decidable (FreshUuids s.pipe a))
  | .cancel _ => .isTrue trivial

variable {svc : ServiceConfig} {cfg : WorkerConfig} {s s' : Requests} {a : RequestLabel}
  {k : Nat} {call : EnqueueCall} {tr : List RequestLabel}

/-! ## Steps, seen from one call -/

/-- What was put lies under the id of the call that has put it. -/
structure PutInv (svc : ServiceConfig) (s : Requests) : Prop where
  upload : UploadInv svc s.pipe
  under : ∀ p ∈ s.puts, p.1 < s.pipe.calls.length ∧
    ∃ id, (p.1, id) ∈ s.pipe.drawn ∧ p.2.Under id

theorem putInv_init : PutInv svc Requests.init where
  upload := uploadInv_init
  under := nofun

/-- The step is not one of the call at place `k`, and leaves it alone. -/
structure Elsewhere (k : Nat) (s s' : Requests) : Prop where
  stays : ∀ call, s.pipe.calls[k]? = some call → s'.pipe.calls[k]? = some call
  call_cases : ∀ call, s'.pipe.calls[k]? = some call →
    s.pipe.calls[k]? = some call ∨ ∀ p ∈ s'.puts, p.1 ≠ k
  puts_iff : ∀ p, p.1 = k → (p ∈ s'.puts ↔ p ∈ s.puts)
  objects : ∀ p ∈ s.puts, p.1 = k → (s'.pipe.objects.Has p.2 ↔ s.pipe.objects.Has p.2)
  cancelled : k ∈ s.cancelled → k ∈ s'.cancelled

/-- The step is one of the call at place `k`. -/
structure Own (svc : ServiceConfig) (k : Nat) (s s' : Requests) (call : EnqueueCall)
    (act : EnqueueAct) (o : Objects) (t : Messages) (pc : EnqueuePc) : Prop where
  place : s.pipe.calls[k]? = some call
  allowed : s.Allows (.intake (.enqueue k act))
  move : EnqueueMove svc s.pipe.intake call act o t pc
  objects : s'.pipe.objects = o
  place' : s'.pipe.calls[k]? = some { call with pc }
  puts : s'.puts = s.puts ++ (call.puts svc act).map (k, ·)
  cancelled : s'.cancelled = s.cancelled

/-- A step that changes no call, puts nothing and leaves the store alone. -/
theorem Elsewhere.of_eq (hcalls : s'.pipe.calls = s.pipe.calls) (hputs : s'.puts = s.puts)
    (hobj : s'.pipe.objects = s.pipe.objects) (hcan : k ∈ s.cancelled → k ∈ s'.cancelled) :
    Elsewhere k s s' where
  stays := by rw [hcalls]; exact fun _ hc => hc
  call_cases := by rw [hcalls]; exact fun _ hc => Or.inl hc
  puts_iff := by rw [hputs]; exact fun _ _ => Iff.rfl
  objects := by rw [hobj]; exact fun _ _ _ => Iff.rfl
  cancelled := hcan

/-- A step of a call leaves the objects alone that another one has put: they lie under
an id that the call has not drawn. -/
theorem PutInv.object_stays {j : Nat} {act : EnqueueAct} {o : Objects} {t : Messages}
    {pc : EnqueuePc} (h : PutInv svc s) (hcall : s.pipe.calls[j]? = some call)
    (hmove : EnqueueMove svc s.pipe.intake call act o t pc) {p : Nat × Attachment}
    (hp : p ∈ s.puts) (hpj : p.1 ≠ j) : o.Has p.2 ↔ s.pipe.objects.Has p.2 := by
  obtain ⟨_, id, hdrawn, name, hname, hfile⟩ := h.under p hp
  have hother : (j, id) ∉ s.pipe.drawn := fun hj =>
    hpj (h.upload.apart p.1 j id hdrawn hj)
  have hsame := hmove.sameUnder (h.upload.kept j call hcall) hother p.2.bucket name hname
  rw [← hfile] at hsame
  rw [Objects.Has, Objects.Has, hsame]

theorem PutInv.cases (h : PutInv svc s) (hs : s.step svc cfg a = some s') (k : Nat) :
    Elsewhere k s s' ∨ ∃ call act o t pc, Own svc k s s' call act o t pc := by
  cases Requests.step_move hs with
  | cancel => exact Or.inl (.of_eq rfl rfl rfl fun hk => List.mem_cons_of_mem _ hk)
  | pipe hallow hp =>
      cases Pipeline.step_move hp with
      | outbox => exact Or.inl (.of_eq rfl (List.append_nil _) rfl fun hk => hk)
      | intake hi =>
          cases hi with
          | advance => exact Or.inl (.of_eq rfl (List.append_nil _) rfl fun hk => hk)
          | request =>
              refine Or.inl ⟨fun _ hc => Places.snoc_of hc, fun call hc => ?_, fun _ _ => ?_,
                fun _ _ _ => Iff.rfl, fun hk => hk⟩
              · rcases Places.of_snoc hc with hold | ⟨rfl, _⟩
                · exact Or.inl hold
                · refine Or.inr fun p hp => Nat.ne_of_lt (h.under p ?_).1
                  simpa [Pipeline.puts] using hp
              · simp [Pipeline.puts]
          | @enqueue j call act o t pc hcall hmove =>
              by_cases hjk : j = k
              · subst hjk
                refine Or.inr ⟨call, act, o, t, pc, hcall, hallow, hmove, rfl,
                  Places.set_self hcall, ?_, rfl⟩
                exact congrArg (s.puts ++ ·) (Pipeline.puts_enqueue hcall)
              · refine Or.inl ⟨fun c hc => ?_, fun c hc => ?_, fun p hpk => ?_, fun p hp hpk => ?_,
                  fun hk => hk⟩
                · exact (Places.set_ne (Ne.symm hjk)).trans hc
                · exact Or.inl ((Places.set_ne (Ne.symm hjk)).symm.trans hc)
                · rw [Pipeline.puts_enqueue hcall, List.mem_append, or_iff_left]
                  intro hmem
                  obtain ⟨_, _, rfl⟩ := List.mem_map.mp hmem
                  exact hjk hpk
                · exact h.object_stays hcall hmove hp fun hpj => hjk (hpj.symm.trans hpk)

/-- What a step puts lies under the id of its call. -/
theorem UploadInv.puts_under {i : Pipeline} {b : PipelineLabel} (h : UploadInv svc i)
    {p : Nat × Attachment} (hp : p ∈ i.puts svc b) :
    p.1 < i.calls.length ∧ ∃ id, (p.1, id) ∈ i.drawn ∧ p.2.Under id := by
  unfold Pipeline.puts at hp
  split at hp
  · next k act =>
      cases hcall : i.calls[k]? with
      | none => simp [hcall] at hp
      | some call =>
          rw [hcall] at hp
          obtain ⟨ref, href, rfl⟩ := List.mem_map.mp hp
          have hkept := h.kept k call hcall
          refine ⟨(List.getElem?_eq_some_iff.mp hcall).1, ?_⟩
          simp only [Option.elim_some, EnqueueCall.puts] at href
          split at href
          · split at href
            · next id part rest done hpc =>
                split at href
                · cases href
                · next hname =>
                    rw [hpc] at hkept
                    rw [List.mem_singleton.mp href]
                    exact ⟨id, hkept.1, part.name, sanitizeFilename_isName hname, rfl⟩
            · cases href
          · cases href
  · cases hp

theorem PutInv.step (h : PutInv svc s) (hok : FreshRequests s a)
    (hs : s.step svc cfg a = some s') : PutInv svc s' := by
  cases Requests.step_move hs with
  | cancel => exact ⟨h.upload, h.under⟩
  | pipe hallow hp =>
      refine ⟨h.upload.step hok hp, fun p hput => ?_⟩
      have hold : p.1 < s.pipe.calls.length ∧ ∃ id, (p.1, id) ∈ s.pipe.drawn ∧ p.2.Under id :=
        (List.mem_append.mp hput).elim (h.under p) h.upload.puts_under
      obtain ⟨hlt, id, hdrawn, hunder⟩ := hold
      obtain ⟨hlen, hgrow⟩ := (Pipeline.step_move hp).grows
      exact ⟨hlt.trans_le hlen, id, hgrow _ hdrawn, hunder⟩

/-! ## The rollback -/

/-- What the call has put and is in the store is in its list of uploads. -/
def Tracked (k : Nat) (s : Requests) : Prop :=
  ∀ call, s.pipe.calls[k]? = some call → (∀ res, call.pc ≠ .returned (.ok res)) →
    ∀ p ∈ s.puts, p.1 = k → s.pipe.objects.Has p.2 →
      ∃ ref ∈ call.pc.refs, ref.bucket = p.2.bucket ∧ ref.filename = p.2.filename

/-- If the call has failed and an object that it has put is in the store, it rolls
back under a live context. -/
def Unsealed (k : Nat) (s : Requests) : Prop :=
  ∀ call, s.pipe.calls[k]? = some call → call.pc.failed = true →
    ∀ p ∈ s.puts, p.1 = k → s.pipe.objects.Has p.2 →
      call.pc.rollsBack = true ∧ k ∉ s.cancelled

theorem Objects.has_put {o : Objects} {bucket key : String} {x : Object} {ref : Attachment}
    (h : (o.put bucket key x).Has ref) :
    o.Has ref ∨ ref.bucket = bucket ∧ ref.filename = key := by
  by_cases hk : ref.bucket = bucket ∧ ref.filename = key
  · exact Or.inr hk
  · left
    rwa [Objects.Has, Objects.put, if_neg hk] at h

theorem Objects.has_remove {o : Objects} {bucket key : String} {ref : Attachment}
    (h : (o.remove bucket key).Has ref) :
    o.Has ref ∧ ¬ (ref.bucket = bucket ∧ ref.filename = key) := by
  by_cases hk : ref.bucket = bucket ∧ ref.filename = key
  · rw [Objects.Has, Objects.remove, if_pos hk] at h
    exact absurd rfl h
  · rw [Objects.Has, Objects.remove, if_neg hk] at h
    exact ⟨h, hk⟩

theorem EnqueueMove.remove_rollsBack {i : Intake} {o : Objects} {t : Messages} {pc : EnqueuePc}
    {fails : Bool} (h : EnqueueMove svc i call (.remove fails) o t pc) :
    call.pc.rollsBack = true := by
  cases h with
  | remove hpc => rw [hpc]; rfl

/-- A step of the call keeps track of its objects, if it removes them under a live
context. -/
theorem Own.tracked {act : EnqueueAct} {o : Objects} {t : Messages} {pc : EnqueuePc}
    (h : Own svc k s s' call act o t pc) (hT : Tracked k s) (hlive : RollsBackLive k s) :
    Tracked k s' := by
  intro call' hcall' hres p hp hpk hhas
  cases h.place'.symm.trans hcall'
  have hold := hT call h.place fun res => h.move.not_returned (.ok res)
  rw [h.puts] at hp
  rw [h.objects] at hhas
  cases h.move.storeMove with
  | keep hnil hrefs _ =>
      rw [hnil, List.map_nil, List.append_nil] at hp
      rcases hrefs with hrefs | ⟨res, hok⟩
      · rw [hrefs]
        exact hold p hp hpk hhas
      · exact absurd hok (hres res)
  | @put ref _ _ hput hrefs _ =>
      rw [hput] at hp
      rw [hrefs]
      -- The object of a key that is put again is the new one.
      rcases Objects.has_put hhas with hbefore | ⟨hb, hf⟩
      · rcases List.mem_append.mp hp with hp | hp
        · obtain ⟨r, hr, hkey⟩ := hold p hp hpk hbefore
          exact ⟨r, List.mem_append_left _ hr, hkey⟩
        · cases List.mem_singleton.mp hp
          exact ⟨ref, List.mem_append_right _ (List.mem_singleton_self ref), rfl, rfl⟩
      · exact ⟨ref, List.mem_append_right _ (List.mem_singleton_self ref), hb.symm, hf.symm⟩
  | @remove ref fails _ hnil hrefs =>
      rw [hnil, List.map_nil, List.append_nil] at hp
      cases fails with
      | true =>
          have hcan : k ∈ s.cancelled := h.allowed.mp rfl
          exact absurd hcan (hlive call h.place h.move.remove_rollsBack ⟨p, hp, hpk, hhas⟩)
      | false =>
          obtain ⟨hbefore, hne⟩ := Objects.has_remove hhas
          obtain ⟨r, hr, hb, hf⟩ := hold p hp hpk hbefore
          rw [hrefs] at hr
          rcases List.mem_cons.mp hr with rfl | hr
          · exact absurd ⟨hb.symm, hf.symm⟩ hne
          · exact ⟨r, hr, hb, hf⟩

theorem Elsewhere.tracked (h : Elsewhere k s s') (hT : Tracked k s) : Tracked k s' := by
  intro call hcall hres p hp hpk hhas
  rcases h.call_cases call hcall with hold | hnone
  · have hp₀ := (h.puts_iff p hpk).mp hp
    exact hT call hold hres p hp₀ hpk ((h.objects p hp₀ hpk).mp hhas)
  · exact absurd hpk (hnone p hp)

/-- Once a call has failed with an object in the store and no live context to remove
it, the object stays. -/
theorem PutInv.unsealed_back (hI : PutInv svc s) (hs : s.step svc cfg a = some s')
    (h : Unsealed k s') : Unsealed k s := by
  intro call hcall hfailed p hp hpk hhas
  rcases hI.cases hs k with helse | ⟨call₀, act, o, t, pc, hown⟩
  · have hp' := (helse.puts_iff p hpk).mpr hp
    obtain ⟨hrolls, hlive⟩ := h call (helse.stays call hcall) hfailed p hp' hpk
      ((helse.objects p hp hpk).mpr hhas)
    exact ⟨hrolls, fun hk => hlive (helse.cancelled hk)⟩
  · cases hcall.symm.trans hown.place
    have hp' : p ∈ s'.puts := hown.puts ▸ List.mem_append_left _ hp
    have hfailed' := hown.move.failed hfailed
    cases hown.move with
    | @remove ref refs e fails hpc =>
        refine ⟨by rw [hpc]; rfl, fun hk => ?_⟩
        cases hown.allowed.mpr hk
        have hhas' : s'.pipe.objects.Has p.2 := hown.objects ▸ hhas
        have hcan := (h _ hown.place' hfailed' p hp' hpk hhas').2
        exact hcan (hown.cancelled ▸ hk)
    | _ hpc => rw [hpc] at hfailed; cases hfailed

theorem Unsealed.rollsBackLive (h : Unsealed k s) : RollsBackLive k s := by
  rintro call hcall hrolls ⟨p, hp, hpk, hhas⟩
  refine (h call hcall ?_ p hp hpk hhas).2
  cases hpc : call.pc with
  | rollingBack => rfl
  | _ => rw [hpc] at hrolls; cases hrolls

/-- Along any run of requests and workers with fresh ids, wherever contexts end: a
call that has returned an error has left no object in the store exactly when its
context was live whenever it rolled back and one of its objects was still there. -/
theorem no_orphans_iff {e : ServiceError}
    (hr : RunOf (Requests.step svc cfg) FreshRequests Requests.init tr s)
    (hcall : s.pipe.calls[k]? = some call) (hret : call.pc = .returned (.error e)) :
    NoOrphans k s ↔
      RunOf (Requests.step svc cfg) (fun s _ => RollsBackLive k s) Requests.init tr s := by
  constructor
  · intro hnone
    have hlast : Unsealed k s := fun _ _ _ p hp hpk hhas => absurd hhas (hnone p hp hpk)
    have hrI : RunOf (Requests.step svc cfg) (fun s _ => PutInv svc s) Requests.init tr s :=
      hr.mono_of_invariant putInv_init (fun _ _ _ h hok hs => h.step hok hs) fun _ _ h _ => h
    have hall : Always (Requests.step svc cfg) Requests.init tr (Unsealed k) :=
      hrI.always_of_last hlast fun _ _ _ hI hs h => hI.unsealed_back hs h
    exact (hall.runOf hr).mono fun _ _ h => h.rollsBackLive
  · intro hlive
    have hI : PutInv svc s ∧ Tracked k s :=
      (hr.and hlive).invariant (I := fun s => PutInv svc s ∧ Tracked k s)
        ⟨putInv_init, fun _ hc => by cases hc⟩ fun s a s' h hok hs => by
          refine ⟨h.1.step hok.1 hs, ?_⟩
          rcases h.1.cases hs k with helse | ⟨_, _, _, _, _, hown⟩
          · exact helse.tracked h.2
          · exact hown.tracked h.2 hok.2
    intro p hp hpk hhas
    obtain ⟨ref, href, _⟩ := hI.2 call hcall (by rw [hret]; exact nofun) p hp hpk hhas
    rw [hret] at href
    cases href

/-- A request with the files `a.txt` and `b.txt`. -/
def filesRequest : RequestLabel :=
  .pipe (twoFiles [0x61, 0x2E, 0x74, 0x78, 0x74] [0x62, 0x2E, 0x74, 0x78, 0x74])

/-- The store refuses the second file while the client waits. -/
def refusedFile : List RequestLabel :=
  [filesRequest, ofCall (.lookup "u-1" false), ofCall (.next false), ofCall (.next true),
    ofCall (.remove false)]

theorem refusedFile_no_orphans :
    ∃ s, RunOf (Requests.step defaultService defaultConfig) FreshRequests Requests.init
        refusedFile s ∧ s.puts.length = 1 ∧ NoOrphans 0 s := by
  have hr : RunOf (Requests.step defaultService defaultConfig) FreshRequests Requests.init
      refusedFile _ := runOf_of_execOf rfl
  exact ⟨_, hr, rfl, (no_orphans_iff hr rfl rfl).mpr (runOf_of_execOf rfl)⟩

/-- The client goes away after the first file, and the second one cannot be put. -/
def abandonedFile : List RequestLabel :=
  [filesRequest, ofCall (.lookup "u-1" false), ofCall (.next false), .cancel 0,
    ofCall (.next true), ofCall (.remove true)]

/-- The call has returned an error, there is no row, and the first file is still in
the bucket. -/
theorem abandonedFile_orphan :
    ∃ s call, RunOf (Requests.step defaultService defaultConfig) FreshRequests Requests.init
        abandonedFile s ∧
      s.pipe.calls[0]? = some call ∧
      call.pc = .returned (.error (.attachmentUploadFailed "b.txt")) ∧
      s.pipe.outbox.table.rows = [] ∧
      s.pipe.objects "signalium-attachments" "u-1/a.txt" = some ⟨[0x31], "text/plain"⟩ ∧
      ¬ NoOrphans 0 s := by
  refine ⟨_, _, runOf_of_execOf rfl, rfl, rfl, rfl, rfl, fun h => ?_⟩
  exact h _ (List.mem_singleton_self _) rfl (by decide)

end Signalium
