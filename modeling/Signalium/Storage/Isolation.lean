import Signalium.Storage.Staging

/-!
# Isolation of the staged files

A dispatch counts on its files from the moment `MkdirAll` has found the
directory of the message until `Send` has returned.  All dispatches of a message
share that directory, and no removal asks who else is using it.  So isolation
fails in four ways, and `Calm` excludes each of them.

* A dispatch of the message takes back a failed download, or ends and removes the
  directory, while another one counts on it.  A resend brings a second dispatch
  about: `CleanupLocal` is deferred past `MarkFailed`.
* A sweep removes the directory as empty between `MkdirAll` and the first
  `OpenFile`.  There is no age check on directories.
* A sweep has found a file of an earlier attempt too old, and the dispatch opens
  that file again before the sweep removes it.
* A dispatch is still at work after its deadline, so that `FileTTL` may pass.

In every run without them each dispatch finds its directory and its files
(`staging_isolated`).  The invariant dates a file: whatever a dispatch counts on
was written after its start, and no cutoff reaches that far.
-/

namespace Signalium

open Runs Tables Disks

/-! ## What a dispatch counts on -/

/-- The dispatch is between the start of `DownloadAll` and the return of `Send`. -/
def Dispatch.staging (d : Dispatch) : Bool :=
  match d.phase with
  | .downloading | .ready _ | .sending _ => true
  | _ => false

/-- The files that `DownloadAll` has created and not taken back. -/
def Stage.files : Stage → List String
  | .opening _ names => names
  | .copying _ ref _ names => names ++ [ref.base]
  | .returned (.ok names) => names
  | _ => []

/-- The next call needs the directory, which an earlier one has found. -/
def Stage.needsDir : Stage → Bool
  | .lstatDir _ | .opening _ _ => true
  | _ => false

/-- `DownloadAll` has found the directory, and has not failed. -/
def Stage.busy : Stage → Bool
  | .lstatDir _ | .opening _ _ | .copying _ _ _ _ | .returned (.ok _) => true
  | _ => false

/-- The directory has been found, and there is no file in it yet. -/
def Stage.vacant : Stage → Bool
  | .lstatDir _ | .opening _ [] => true
  | _ => false

/-- Nobody has removed what the stage counts on: the next call of `DownloadAll`
does not miss the directory, and the files it has returned are there. -/
def Stage.Unharmed (tmpDir : String) (now : Int) (id : UUID) (disk : Disk) : Stage → Prop
  | .lstatDir _ => id ∈ disk.dirs
  | .opening (ref :: _) _ => disk.openFile now id ref.base ≠ .error .noSuchDirectory
  | .returned (.ok names) =>
      ∀ name ∈ names, (readPath tmpDir disk (localPath tmpDir id name)).isSome = true
  | _ => True

/-- No `DownloadAll` is about to fail for a missing directory, and the paths that a
dispatch has handed or will hand to `Send` exist until `Send` returns. -/
def Isolated (cfg : HostConfig) (s : Host) : Prop :=
  ∀ (i : Nat) (d : Dispatch), s.outbox.dispatches[i]? = some d → d.staging = true →
    (s.stages i).Unharmed cfg.tmpDir s.outbox.now d.msg.id s.disk ∧
    ∀ params, d.phase = .ready params ∨ d.phase = .sending params →
      ∀ path ∈ params.attachments, (readPath cfg.tmpDir s.disk path).isSome = true

/-! ## The condition -/

/-- The call removes files of the message or its directory. -/
def StageAct.removes : StageAct → Bool
  | .rollback | .cleanup => true
  | _ => false

/-- The dispatch at place `j` is one of the message `id` and at `p`. -/
def Host.StagesAt (s : Host) (id : UUID) (p : Stage → Bool) (j : Nat) : Prop :=
  ∃ d ∈ s.outbox.dispatches[j]?, d.msg.id = id ∧ d.staging = true ∧ p (s.stages j) = true

instance (s : Host) (id : UUID) (p : Stage → Bool) (j : Nat) : Decidable (s.StagesAt id p j) :=
  inferInstanceAs (Decidable (∃ d ∈ s.outbox.dispatches[j]?, _))

/-- What the sweep is about to remove is not in use: an empty directory is not one
that has just been found, and a file is still older than the cutoff. -/
def Host.Spares (s : Host) (sw : Sweep) : Prop :=
  match sw.pc with
  | .condemned dir =>
      ∀ j ∈ List.range s.outbox.dispatches.length, ¬ s.StagesAt dir Stage.vacant j
  | .doomed dir name => ∀ f ∈ s.disk.find? dir name, f.mtime < sw.cutoff
  | .walking | .pruning => True

instance (s : Host) (sw : Sweep) : Decidable (s.Spares sw) := by
  unfold Host.Spares
  exact match sw.pc with
    | .condemned _ => inferInstanceAs (Decidable (∀ j ∈ List.range _, _))
    | .doomed dir name => inferInstanceAs (Decidable (∀ f ∈ s.disk.find? dir name, _))
    | .walking | .pruning => isTrue trivial

/-- The step spares what the dispatches count on. -/
def Calm (s : Host) : HostLabel → Prop
  | .outbox (.advance dt) =>
      ∀ d ∈ s.outbox.dispatches, d.staging = true → ∀ t ∈ d.deadline, s.outbox.now + dt ≤ t
  | .stage i act =>
      act.removes = true → ∀ d ∈ s.outbox.dispatches[i]?,
        ∀ j ∈ List.range s.outbox.dispatches.length, j ≠ i → ¬ s.StagesAt d.msg.id Stage.busy j
  | .sweep k _ => ∀ sw ∈ s.sweeps[k]?, s.Spares sw
  | _ => True

instance (s : Host) (b : HostLabel) : Decidable (Calm s b) :=
  match b with
  | .outbox (.advance _) => inferInstanceAs (Decidable (∀ d ∈ s.outbox.dispatches, _ → _))
  | .stage _ _ => inferInstanceAs (Decidable (_ → _))
  | .sweep k _ => inferInstanceAs (Decidable (∀ sw ∈ s.sweeps[k]?, _))
  | .outbox (.insert _ _) | .outbox (.claim _ _) | .outbox (.dispatch _ _) | .outbox .reap
  | .outbox (.resend _) | .outbox (.updateStatus _ _) | .startSweep => isTrue trivial

variable {cfg : HostConfig} {s s' : Host} {b : HostLabel} {a : Label} {now start : Int}
  {id m : UUID} {disk disk' : Disk} {st st' : Stage} {act : StageAct} {d d' : Dispatch} {i j : Nat}

theorem Host.StagesAt.lt {p : Stage → Bool} (h : s.StagesAt id p j) :
    j ∈ List.range s.outbox.dispatches.length := by
  obtain ⟨d, hd, _⟩ := h
  exact List.mem_range.mpr (List.getElem?_eq_some_iff.mp hd).1

/-! ## What a stage holds -/

/-- The stage has what it counts on, and its files are not older than `start`. -/
structure Staged (start : Int) (id : UUID) (st : Stage) (disk : Disk) : Prop where
  files : ∀ name ∈ st.files, ∃ f, disk.find? id name = some f ∧ start ≤ f.mtime
  dir : st.needsDir = true → id ∈ disk.dirs

theorem Staged.of_idle (h : st.busy = false) : Staged start id st disk := by
  cases st with
  | returned r =>
      cases r with
      | ok names => cases h
      | error e => exact ⟨by simp [Stage.files], nofun⟩
  | lstatDir refs => cases h
  | opening rest names => cases h
  | copying inode ref rest names => cases h
  | _ => exact ⟨by simp [Stage.files], nofun⟩

/-- What keeps the directory keeps what is held. -/
theorem Staged.frame (h : Staged start id st disk) (hk : disk.Keeps now id disk')
    (hnow : start ≤ now) : Staged start id st disk' := by
  refine ⟨fun name hn => ?_, fun hd => hk.1 (h.dir hd)⟩
  obtain ⟨f, hf, hm⟩ := h.files name hn
  obtain ⟨f', hf', he | he⟩ := hk.2 name f hf
  · exact ⟨f', hf', by rw [he]; exact hm⟩
  · exact ⟨f', hf', by rw [he]; exact hnow⟩

theorem Staged.unharmed (h : Staged start id st disk) (tmpDir : String) (now : Int) :
    st.Unharmed tmpDir now id disk := by
  cases st with
  | lstatDir refs => exact h.dir rfl
  | opening rest names =>
      cases rest with
      | nil => trivial
      | cons ref rest => exact Disk.openFile_ne_noSuchDirectory now ref.base (h.dir rfl)
  | returned r =>
      cases r with
      | ok names =>
          intro name hn
          obtain ⟨f, hf, _⟩ := h.files name hn
          rw [readPath_eq hf]
          rfl
      | error e => trivial
  | _ => trivial

theorem Stage.files_next (rest : List ObjectRef) (names : List String) :
    (Stage.next rest names).files = names := by
  unfold Stage.next
  split <;> rfl

/-! ## Steps of a stage -/

/-- A call keeps the directories of the other messages, and its own unless it
removes. -/
theorem StageMove.keeps (h : StageMove now id disk st act st' disk')
    (hq : act.removes = true → m ≠ id) : disk.Keeps now m disk' := by
  cases h with
  | made _ => exact Disk.keeps_mkdir
  | opened hopen => exact Disk.keeps_openFile hopen
  | copy => exact Disk.keeps_write
  | takeBack => exact Disk.keeps_unlink (hq rfl)
  | takenBack => exact Disk.keeps_rmdir (hq rfl)
  | removed => exact Disk.keeps_unlink (hq rfl)
  | cleaned => exact Disk.keeps_rmdir (hq rfl)
  | _ => exact Disk.Keeps.refl now m disk

/-- A stage has what it counts on after its own calls. -/
theorem StageMove.held (h : StageMove now id disk st act st' disk') (hnow : start ≤ now)
    (hh : Staged start id st disk) : Staged start id st' disk' := by
  cases h with
  | exists_ hd => exact ⟨by simp [Stage.files], fun _ => hd⟩
  | found hd => exact ⟨by simp [Stage.files], fun _ => hd⟩
  | made hd => exact ⟨by simp [Stage.files], fun _ => hd⟩
  | @opened ref rest names _ inode _ hopen =>
      refine ⟨fun name hn => ?_, nofun⟩
      rcases List.mem_append.mp hn with hn | hn
      · exact (hh.frame (Disk.keeps_openFile hopen) hnow).files name hn
      · rw [List.mem_singleton.mp hn]
        exact ⟨_, (Disk.openFile_ok hopen).2.2.2.1, hnow⟩
  | copy => exact hh.frame Disk.keeps_write hnow
  | @copied inode ref rest names =>
      refine ⟨by rw [Stage.files_next]; exact hh.files, fun _ => ?_⟩
      obtain ⟨f, hf, _⟩ := hh.files ref.base (List.mem_append_right _ (List.mem_singleton_self _))
      exact Disk.dir_of_find? hf
  | _ => exact .of_idle rfl

/-! ## Removals of a sweep -/

/-- A sweep removes no file that is younger than its cutoff. -/
theorem Staged.unlink {cutoff : Int} {dir name : String} (h : Staged start id st disk)
    (hcut : cutoff < start) (hold : ∀ f ∈ disk.find? dir name, f.mtime < cutoff) :
    Staged start id st (disk.unlink dir name) := by
  refine ⟨fun n hn => ?_, h.dir⟩
  obtain ⟨f, hf, hm⟩ := h.files n hn
  have hne : ¬ (id = dir ∧ n = name) := by
    rintro ⟨rfl, rfl⟩
    have := hold f hf
    omega
  exact ⟨f, by rw [Disk.find?_unlink_of_ne hne, hf], hm⟩

/-- A sweep does not remove a directory with a file in it. -/
theorem Staged.rmdir {dir : String} (h : Staged start id st disk)
    (hvac : id = dir → st.vacant = false) : Staged start id st (disk.rmdir dir) := by
  refine ⟨fun n hn => by simpa only [Disk.find?_rmdir] using h.files n hn, fun hd => ?_⟩
  by_cases hid : id = dir
  · subst hid
    have hfile : ∃ name, name ∈ st.files := by
      cases st with
      | lstatDir refs => exact absurd (hvac rfl) nofun
      | opening rest names =>
          cases names with
          | nil => exact absurd (hvac rfl) nofun
          | cons name names => exact ⟨name, List.mem_cons_self⟩
      | _ => cases hd
    obtain ⟨name, hname⟩ := hfile
    obtain ⟨f, hf, _⟩ := h.files name hname
    rw [Disk.rmdir_of_file hf]
    exact h.dir hd
  · exact Disk.mem_rmdir_of_ne (h.dir hd) hid

/-! ## Dispatches -/

/-- Only a start makes a dispatch stage, and sets its deadline. -/
theorem Evolves.staging {cfg : WorkerConfig} (h : Evolves cfg now i a d d')
    (hne : a ≠ .dispatch i .start) (hs : d'.staging = true) :
    d.staging = true ∧ d'.deadline = d.deadline := by
  rcases h.cases_act with ⟨ac, rfl, _, hstep⟩ | ⟨_, hp, hdl, _⟩
  · cases hstep with
    | start _ => exact absurd rfl hne
    | cancel => exact ⟨hs, rfl⟩
    | built hp _ => exact ⟨by simp [Dispatch.staging, hp], rfl⟩
    | send hp => exact ⟨by simp [Dispatch.staging, hp], rfl⟩
    | markSent _ =>
        simp only [Dispatch.staging, Dispatch.afterMarkSent] at hs
        split_ifs at hs
    | markFailed _ _ =>
        simp only [Dispatch.staging, Dispatch.afterMarkFailed] at hs
        split_ifs at hs
    | _ => cases hs
  · exact ⟨by simpa only [Dispatch.staging, hp] using hs, hdl⟩

/-- The parameters of a dispatch that is about to send or sending. -/
def Dispatch.Sends (d : Dispatch) (params : SendParams) : Prop :=
  d.phase = .ready params ∨ d.phase = .sending params

/-- Parameters come from the paths of a download. -/
theorem Evolves.sends {cfg : WorkerConfig} {params : SendParams} (h : Evolves cfg now i a d d')
    (hs : d'.Sends params) :
    d.Sends params ∨
      ∃ paths, a = .dispatch i (.downloaded (.ok paths)) ∧ params.attachments = paths := by
  rcases h.cases_act with ⟨ac, rfl, _, hstep⟩ | ⟨_, hp, _, _⟩
  · cases hstep with
    | cancel => exact Or.inl hs
    | @built paths p _ hb =>
        rcases hs with hs | hs
        · cases hs
          exact Or.inr ⟨paths, rfl, buildSendParams_attachments hb⟩
        · cases hs
    | send hp =>
        rcases hs with hs | hs
        · cases hs
        · cases hs
          exact Or.inl (Or.inl hp)
    | markSent _ =>
        simp only [Dispatch.Sends, Dispatch.afterMarkSent] at hs
        split_ifs at hs <;> simp at hs
    | markFailed _ _ =>
        simp only [Dispatch.Sends, Dispatch.afterMarkFailed] at hs
        split_ifs at hs <;> simp at hs
    | _ => rcases hs with hs | hs <;> cases hs
  · exact Or.inl (by simpa only [Dispatch.Sends, hp] using hs)

/-- The dispatch began at `start`, so recently that no file written since is too
old. -/
structure Timely (cfg : HostConfig) (now : Int) (d : Dispatch) (start : Int) : Prop where
  deadline : d.deadline = some (start + cfg.worker.perAttemptTimeout)
  began : start ≤ now
  recent : 0 < cfg.fileTTL → now < start + cfg.fileTTL

theorem Timely.step {o : Outbox} (hcfg : cfg.worker.perAttemptTimeout < cfg.fileTTL)
    (ht : Timely cfg s.outbox.now d start) (hd : s.outbox.dispatches[i]? = some d)
    (hs : d.staging = true) (hok : Calm s (.outbox a))
    (ho : s.outbox.step cfg.worker a = some o) (hdl : d'.deadline = d.deadline) :
    Timely cfg o.now d' start := by
  have hle := Outbox.step_now_le ho
  refine ⟨hdl.trans ht.deadline, ht.began.trans hle, fun hpos => ?_⟩
  have hnow := Outbox.step_now ho
  have hold := ht.recent hpos
  cases a with
  | advance dt =>
      have hdue := hok d (List.mem_of_getElem? hd) hs _ ht.deadline
      simp only [Label.elapsed] at hnow
      omega
  | _ =>
      simp only [Label.elapsed] at hnow
      omega

/-! ## The invariant -/

structure HostInv (cfg : HostConfig) (s : Host) : Prop where
  cutoffs : ∀ sw ∈ s.sweeps, 0 < cfg.fileTTL ∧ sw.cutoff ≤ s.outbox.now - cfg.fileTTL
  held : ∀ (i : Nat) (d : Dispatch), s.outbox.dispatches[i]? = some d → d.staging = true →
    ∃ start, Timely cfg s.outbox.now d start ∧ Staged start d.msg.id (s.stages i) s.disk
  paths : ∀ (i : Nat) (d : Dispatch) (params : SendParams), s.outbox.dispatches[i]? = some d →
    d.Sends params → ∃ names, s.stages i = .returned (.ok names) ∧
      params.attachments = names.map (localPath cfg.tmpDir d.msg.id)

theorem hostInv_init (disk : Disk) : HostInv cfg (Host.init disk) where
  cutoffs := by intro sw hsw; cases hsw
  held := by intro i d hd; cases hd
  paths := by intro i d params hd; cases hd

theorem HostInv.isolated (hI : HostInv cfg s) : Isolated cfg s := by
  intro i d hd hs
  obtain ⟨start, _, hheld⟩ := hI.held i d hd hs
  refine ⟨hheld.unharmed cfg.tmpDir s.outbox.now, fun params hp path hpath => ?_⟩
  obtain ⟨names, hst, hatt⟩ := hI.paths i d params hd hp
  rw [hatt] at hpath
  obtain ⟨name, hname, rfl⟩ := List.mem_map.mp hpath
  have hun := hheld.unharmed cfg.tmpDir s.outbox.now
  rw [hst] at hun
  exact hun name hname

/-- What a step of the outbox leaves to show: only the stage of a dispatch that
starts is new, and parameters are made of the paths that have been returned. -/
theorem HostInv.outbox {o : Outbox} {stages : Nat → Stage}
    (hcfg : cfg.worker.perAttemptTimeout < cfg.fileTTL) (hI : HostInv cfg s)
    (hok : Calm s (.outbox a)) (ho : s.outbox.step cfg.worker a = some o)
    (hsame : ∀ j, a ≠ .dispatch j .start → stages j = s.stages j)
    (hnew : ∀ j, a = .dispatch j .start → (stages j).files = [] ∧ (stages j).needsDir = false)
    (hret : ∀ j d paths, a = .dispatch j (.downloaded (.ok paths)) →
      s.outbox.dispatches[j]? = some d →
        (s.stages j).result? cfg.tmpDir d.msg.id = some (.ok paths)) :
    HostInv cfg { s with outbox := o, stages := stages } where
  cutoffs := by
    intro sw hsw
    obtain ⟨hpos, hcut⟩ := hI.cutoffs sw hsw
    have := Outbox.step_now_le ho
    exact ⟨hpos, by simp only; omega⟩
  held := by
    intro j d' hd' hs'
    rcases Outbox.dispatch_step ho hd' with ⟨d, hd, hev⟩ | ⟨_, _, _, _, _, rfl⟩
    · by_cases hstart : a = .dispatch j .start
      · subst hstart
        obtain ⟨hfiles, hdir⟩ := hnew j rfl
        rcases hev.cases_act with ⟨ac, hac, _, hstep⟩ | ⟨hne, _, _, _⟩
        · cases hac
          cases hstep with
          | start _ =>
              have hnow : o.now = s.outbox.now := by
                rw [Outbox.step_now ho]
                exact add_zero _
              refine ⟨s.outbox.now, ⟨rfl, hnow.ge, fun hpos => ?_⟩, ⟨?_, ?_⟩⟩
              · simp only [hnow]
                omega
              · simp only [hfiles]
                exact nofun
              · simp only [hdir]
                exact nofun
        · exact absurd rfl (hne .start)
      · obtain ⟨hs, hdl⟩ := hev.staging hstart hs'
        obtain ⟨start, ht, hheld⟩ := hI.held j d hd hs
        refine ⟨start, ht.step hcfg hd hs hok ho hdl, ?_⟩
        simp only [hsame j hstart, hev.msg_eq]
        exact hheld
    · cases hs'
  paths := by
    intro j d' params hd' hp'
    rcases Outbox.dispatch_step ho hd' with ⟨d, hd, hev⟩ | ⟨_, _, _, _, _, rfl⟩
    · rw [hev.msg_eq]
      rcases hev.sends hp' with hp | ⟨paths, rfl, hatt⟩
      · have hne : a ≠ .dispatch j .start := by
          rintro rfl
          rcases hev.cases_act with ⟨ac, hac, _, hstep⟩ | ⟨hne, _, _, _⟩
          · cases hac
            cases hstep with
            | start hc => rcases hp with hp | hp <;> rw [hc] at hp <;> cases hp
          · exact hne .start rfl
        obtain ⟨names, hst, hatt⟩ := hI.paths j d params hd hp
        exact ⟨names, (hsame j hne).trans hst, hatt⟩
      · have hres := hret j d paths rfl hd
        simp only [hsame j nofun]
        cases hst : s.stages j with
        | returned r =>
            rw [hst] at hres
            cases r with
            | ok names => cases hres; exact ⟨names, rfl, hatt⟩
            | error e => cases hres
        | _ => rw [hst] at hres; cases hres
    · rcases hp' with hp' | hp' <;> cases hp'

/-- A call of a dispatch. -/
theorem HostInv.stage (hI : HostInv cfg s) (hok : Calm s (.stage i act))
    (hd : s.outbox.dispatches[i]? = some d)
    (hp : d.phase = .downloading ∨ ∃ o, d.phase = .done o)
    (h : StageMove s.outbox.now d.msg.id s.disk (s.stages i) act st disk) :
    HostInv cfg { s with disk := disk, stages := Function.update s.stages i st } where
  cutoffs := hI.cutoffs
  held := by
    intro j e he hs
    obtain ⟨start, ht, hheld⟩ := hI.held j e he hs
    refine ⟨start, ht, ?_⟩
    by_cases hij : j = i
    · subst hij
      have hde : d = e := Option.some.inj (hd.symm.trans he)
      subst hde
      simp only [Function.update_self]
      exact h.held ht.began hheld
    · simp only [Function.update_of_ne hij]
      by_cases hbusy : (s.stages j).busy = true
      · refine hheld.frame (h.keeps fun hrem hid => ?_) ht.began
        have hat : s.StagesAt d.msg.id Stage.busy j := ⟨e, he, hid, hs, hbusy⟩
        exact hok hrem d hd j hat.lt hij hat
      · exact .of_idle (by simpa using hbusy)
  paths := by
    intro j e params he hs
    have hij : j ≠ i := by
      rintro rfl
      cases hd.symm.trans he
      rcases hs with hs | hs <;> rcases hp with hp | ⟨o, hp⟩ <;> rw [hp] at hs <;> cases hs
    simp only [Function.update_of_ne hij]
    exact hI.paths j e params he hs

/-- A step of a sweep. -/
theorem HostInv.sweep {sw sw' : Sweep} {act : SweepAct} (hI : HostInv cfg s)
    (hok : Calm s (.sweep i act)) (hsw : s.sweeps[i]? = some sw)
    (h : SweepMove sw s.disk act sw' disk) :
    HostInv cfg { s with disk := disk, sweeps := s.sweeps.set i sw' } where
  cutoffs := by
    have hcut := hI.cutoffs sw (List.mem_of_getElem? hsw)
    intro x hx
    rcases List.mem_or_eq_of_mem_set hx with hx | rfl
    · exact hI.cutoffs x hx
    · cases h <;> exact hcut
  held := by
    intro j d hd hs
    obtain ⟨start, ht, hheld⟩ := hI.held j d hd hs
    refine ⟨start, ht, ?_⟩
    cases h with
    | quiet => exact hheld
    | removed hpc =>
        have hold := hok sw hsw
        simp only [Host.Spares, hpc] at hold
        obtain ⟨hpos, hcut⟩ := hI.cutoffs sw (List.mem_of_getElem? hsw)
        have := ht.recent hpos
        exact hheld.unlink (by omega) hold
    | @pruned dir hpc =>
        have hvac := hok sw hsw
        simp only [Host.Spares, hpc] at hvac
        refine hheld.rmdir fun hid => ?_
        by_contra hv
        have hat : s.StagesAt dir Stage.vacant j := ⟨d, hd, hid, hs, by simpa using hv⟩
        exact hvac j hat.lt hat
  paths := hI.paths

theorem HostInv.step (hcfg : cfg.worker.perAttemptTimeout < cfg.fileTTL) (hI : HostInv cfg s)
    (hok : Calm s b) (h : s.step cfg b = some s') : HostInv cfg s' := by
  cases Host.step_move h with
  | @started i d o hd ho =>
      refine hI.outbox hcfg hok ho (fun j hne => ?_) (fun j he => ?_) (fun j _ _ he => ?_)
      · exact Function.update_of_ne (fun hji => hne (by rw [hji])) _ _
      · cases he
        rw [Function.update_self]
        unfold Stage.begin
        split <;> exact ⟨rfl, rfl⟩
      · cases he
  | @downloaded i d r o hd hr ho =>
      refine hI.outbox hcfg hok ho (fun _ _ => rfl) (fun j he => ?_) (fun j e paths he hj => ?_)
      · cases he
      · cases he
        cases hd.symm.trans hj
        exact hr
  | outbox hns hnd ho =>
      exact hI.outbox hcfg hok ho (fun _ _ => rfl) (fun j he => absurd he (hns j))
        (fun j _ paths he _ => absurd he (hnd j (.ok paths)))
  | stage hd hp hmove => exact hI.stage hok hd hp hmove
  | startSweep hpos =>
      refine ⟨fun sw hsw => ?_, hI.held, hI.paths⟩
      rcases List.mem_append.mp hsw with hsw | hsw
      · exact hI.cutoffs sw hsw
      · rw [List.mem_singleton.mp hsw]
        exact ⟨hpos, le_refl _⟩
  | sweep hsw hmove => exact hI.sweep hok hsw hmove

/-! ## Runs -/

/-- Let `FileTTL` be greater than `PerAttemptTimeout`.  In every run of calm steps,
from any disk, no `DownloadAll` misses its directory, and every path that a
dispatch hands to `Send` is there until `Send` returns. -/
theorem staging_isolated {tr : List HostLabel} (disk : Disk)
    (hcfg : cfg.worker.perAttemptTimeout < cfg.fileTTL)
    (hr : RunOf (Host.step cfg) Calm (Host.init disk) tr s) :
    Always (Host.step cfg) (Host.init disk) tr (Isolated cfg) :=
  hr.always (hostInv_init disk) (fun _ _ _ hI hok hs => hI.step hcfg hok hs)
    fun _ hI => hI.isolated

/-- The defaults of the configuration. -/
def defaultHost : HostConfig := ⟨defaultConfig, "./tmp", 600000000000⟩

def oneFileParams : InsertParams :=
  { plainParams with attachments := [{ bucket := "b", filename := "u-1/a.txt" }] }

/-- A dispatch is sent and ends, with a sweep over its file. -/
def sweptTrace : List HostLabel :=
  [.outbox (.insert "m-1" oneFileParams), .outbox (.claim [] .committed),
    .outbox (.dispatch 0 .start), .stage 0 (.mkdirAll false), .stage 0 (.mkdirAll false),
    .stage 0 (.openFile none), .stage 0 (.copy [104, 105]), .startSweep,
    .sweep 0 (.stat "m-1" "a.txt"), .sweep 0 .endWalk, .stage 0 (.copied none),
    .outbox (.dispatch 0 (.downloaded (.ok ["tmp/m-1/a.txt"]))), .outbox (.dispatch 0 .send),
    .outbox (.advance 1000000000),
    .outbox (.dispatch 0 (.sendReturned (.ok { timestamp := 1700000001 }))),
    .outbox (.dispatch 0 (.markSent .committed)), .stage 0 .cleanup, .stage 0 .cleanup,
    .stage 0 .cleanup, .stage 0 .cleanup]

theorem swept_isolated :
    Always (Host.step defaultHost) (Host.init Disk.empty) sweptTrace (Isolated defaultHost) :=
  staging_isolated Disk.empty (by decide) (runOf_of_execOf rfl)

/-- The first dispatch of a message fails.  Before it removes the directory, an
operator has the message sent again, and a second dispatch downloads and calls
`Send`. -/
def resentTrace : List HostLabel :=
  [.outbox (.insert "m-1" oneFileParams), .outbox (.claim [] .committed),
    .outbox (.dispatch 0 .start), .stage 0 (.mkdirAll false), .stage 0 (.mkdirAll false),
    .stage 0 (.openFile none), .stage 0 (.copied none),
    .outbox (.dispatch 0 (.downloaded (.ok ["tmp/m-1/a.txt"]))), .outbox (.dispatch 0 .send),
    .outbox (.dispatch 0 (.sendReturned (.error "timeout"))),
    .outbox (.dispatch 0 (.markFailed 5000000000 .committed)), .outbox (.resend "m-1"),
    .outbox (.claim [] .committed), .outbox (.dispatch 1 .start), .stage 1 (.mkdirAll false),
    .stage 1 (.openFile none), .stage 1 (.copied none),
    .outbox (.dispatch 1 (.downloaded (.ok ["tmp/m-1/a.txt"]))), .outbox (.dispatch 1 .send),
    .stage 0 .cleanup, .stage 0 .cleanup, .stage 0 .cleanup]

/-- After `resentTrace` the second dispatch is in `Send` with a path at which there
is no file. -/
theorem resent_not_isolated :
    defaultHost.worker.perAttemptTimeout < defaultHost.fileTTL ∧
      ∃ s d params, Run (Host.step defaultHost) (Host.init Disk.empty) resentTrace s ∧
        s.outbox.dispatches[1]? = some d ∧ d.phase = .sending params ∧
        params.attachments = ["tmp/m-1/a.txt"] ∧
        readPath defaultHost.tmpDir s.disk "tmp/m-1/a.txt" = none ∧
        ¬ Always (Host.step defaultHost) (Host.init Disk.empty) resentTrace
          (Isolated defaultHost) := by
  refine ⟨by decide, _, _, _, run_of_exec rfl, rfl, rfl, rfl, rfl, fun h => ?_⟩
  have hpath := (h.last (run_of_exec rfl) 1 _ rfl rfl).2 _ (Or.inr rfl) "tmp/m-1/a.txt"
    List.mem_cons_self
  cases hpath

end Signalium
