import Signalium.Storage.ObjectStore
import Signalium.Worker.Steps

/-!
# The local files of the dispatches

The dispatches of one host stage their attachments below one directory, a
directory for each message.  `Host` is the outbox with that part of the disk,
how far each dispatch has come with its files, and the sweeps of `Cleanup`.  A
step is one system call, so anything can happen between two of them.

Three parties remove files.  A `DownloadAll` that fails takes back what it has
written.  A dispatch that has downloaded removes the directory of its message
when it returns, after its mark (`CleanupLocal`, deferred).  A sweep removes
files older than `FileTTL` and then directories that it finds empty.

`MkdirAll` is three calls where it meets another one: a `stat`, a `mkdir` that
may say the directory exists, and then an `lstat`.  `RemoveAll` tries a `rmdir`,
reads the names, removes them one by one and tries `rmdir` again.  A sweep looks
at a file and then removes its path, whatever is there by then; which file it
looks at next is left open.

Without interference the calls of a dispatch do what `downloadAll` does
(`exec_downloadAll`).
-/

namespace Signalium

open Runs Tables Disks

/-! ## One dispatch -/

/-- How far a dispatch has come with its files. -/
inductive Stage where
  | idle
  /-- In `MkdirAll`, before its `stat`. -/
  | statDir (refs : List ObjectRef)
  /-- The directory was not there. -/
  | mkdir (refs : List ObjectRef)
  /-- The directory was there at the `mkdir`. -/
  | lstatDir (refs : List ObjectRef)
  /-- Before the `OpenFile` of the next object; `names` are the files so far. -/
  | opening (rest : List ObjectRef) (names : List String)
  | copying (inode : Nat) (ref : ObjectRef) (rest : List ObjectRef) (names : List String)
  /-- In `cleanupBestEffort`. -/
  | rollingBack (todo : List String) (e : String)
  /-- `DownloadAll` has returned. -/
  | returned (r : Except String (List String))
  /-- In `RemoveAll`, before the names are read. -/
  | reading
  | removing (todo : List String)
  | cleaned
deriving Repr

/-- `DownloadAll` begins. -/
def Stage.begin (refs : List ObjectRef) : Stage :=
  if refs = [] then .returned (.ok []) else .statDir refs

/-- The head of the loop in `DownloadAll`. -/
def Stage.next (rest : List ObjectRef) (names : List String) : Stage :=
  if rest = [] then .returned (.ok names) else .opening rest names

/-- What `DownloadAll` has returned to the dispatch. -/
def Stage.result? (tmpDir : String) (id : UUID) : Stage → Option (Except String (List String))
  | .returned r => some (r.map fun names => names.map (localPath tmpDir id))
  | _ => none

/-- A system call of a dispatch.  Where it carries an error, the disk or the store
itself fails. -/
inductive StageAct where
  | mkdirAll (fails : Bool)
  | openFile (fails : Option String)
  | copy (bytes : List UInt8)
  | copied (fails : Option String)
  | rollback
  | cleanup
deriving DecidableEq, Repr

/-- A step of `DownloadAll`. -/
def downloadStep (now : Int) (id : UUID) (disk : Disk) : Stage → StageAct → Option (Stage × Disk)
  | .statDir refs, .mkdirAll fails =>
      if fails then some (.returned (.error "mkdir attachments tmp"), disk)
      else if id ∈ disk.dirs then some (.opening refs [], disk)
      else some (.mkdir refs, disk)
  | .mkdir refs, .mkdirAll fails =>
      if fails then some (.returned (.error "mkdir attachments tmp"), disk)
      else if id ∈ disk.dirs then some (.lstatDir refs, disk)
      else if id ∈ (disk.mkdir id).dirs then some (.opening refs [], disk.mkdir id)
      else some (.returned (.error "mkdir attachments tmp"), disk)
  | .lstatDir refs, .mkdirAll _ =>
      if id ∈ disk.dirs then some (.opening refs [], disk)
      else some (.returned (.error "mkdir attachments tmp"), disk)
  | .opening (ref :: rest) names, .openFile fails =>
      match fails with
      | some e => some (.rollingBack names e, disk)
      | none =>
          match disk.openFile now id ref.base with
          | .error _ => some (.rollingBack names "open attachment dst", disk)
          | .ok (inode, disk') => some (.copying inode ref rest names, disk')
  | .copying inode ref rest names, .copy bytes =>
      some (.copying inode ref rest names, disk.write now inode bytes)
  | .copying _ ref rest names, .copied fails =>
      match fails with
      | some e => some (.rollingBack names e, disk)
      | none => some (.next rest (names ++ [ref.base]), disk)
  | .rollingBack (name :: todo) e, .rollback => some (.rollingBack todo e, disk.unlink id name)
  | .rollingBack [] e, .rollback => some (.returned (.error e), disk.rmdir id)
  | _, _ => none

/-- A step of `CleanupLocal`. -/
def cleanupStep (tmpDir : String) (id : UUID) (disk : Disk) :
    Stage → StageAct → Option (Stage × Disk)
  | .returned (.ok _), .cleanup =>
      if tmpDir = "" ∨ id = "" then some (.cleaned, disk)
      else if disk.Empty id then some (.cleaned, disk.rmdir id)
      else some (.reading, disk)
  | .reading, .cleanup =>
      some (.removing ((disk.files.filter fun f => f.dir = id).map File.name), disk)
  | .removing (name :: todo), .cleanup => some (.removing todo, disk.unlink id name)
  | .removing [], .cleanup => some (.cleaned, disk.rmdir id)
  | _, _ => none

/-- A step of a dispatch with its files: `DownloadAll` while it is called, and
`CleanupLocal` at the end. -/
def Dispatch.stageStep (tmpDir : String) (now : Int) (d : Dispatch) (disk : Disk) (st : Stage)
    (a : StageAct) : Option (Stage × Disk) :=
  match d.phase with
  | .downloading => downloadStep now d.msg.id disk st a
  | .done _ => cleanupStep tmpDir d.msg.id disk st a
  | _ => none

/-! ## Sweeps -/

/-- Where a sweep is. -/
inductive SweepPc where
  | walking
  /-- The file was older than the cutoff. -/
  | doomed (dir name : String)
  /-- In `pruneEmptyChildren`. -/
  | pruning
  /-- The directory was empty. -/
  | condemned (dir : String)
deriving DecidableEq, Repr

/-- One sweep over the directory. -/
structure Sweep where
  cutoff : Int
  pc : SweepPc
deriving DecidableEq, Repr

inductive SweepAct where
  | stat (dir name : String)
  | remove
  | endWalk
  | readDir (dir : String)
  | rmdir
deriving DecidableEq, Repr

/-- A step of a sweep. -/
def Sweep.step (sw : Sweep) (disk : Disk) : SweepAct → Option (Sweep × Disk)
  | .stat dir name =>
      match sw.pc, disk.find? dir name with
      | .walking, some f =>
          some (if f.mtime < sw.cutoff then { sw with pc := .doomed dir name } else sw, disk)
      | _, _ => none
  | .remove =>
      match sw.pc with
      | .doomed dir name => some ({ sw with pc := .walking }, disk.unlink dir name)
      | _ => none
  | .endWalk =>
      match sw.pc with
      | .walking => some ({ sw with pc := .pruning }, disk)
      | _ => none
  | .readDir dir =>
      match sw.pc with
      | .pruning =>
          if dir ∈ disk.dirs ∧ disk.Empty dir then some ({ sw with pc := .condemned dir }, disk)
          else none
      | _ => none
  | .rmdir =>
      match sw.pc with
      | .condemned dir => some ({ sw with pc := .pruning }, disk.rmdir dir)
      | _ => none

/-! ## The host -/

/-- The settings of a host. -/
structure HostConfig where
  worker : WorkerConfig
  tmpDir : String
  fileTTL : Int
deriving DecidableEq, Repr

/-- The outbox, the disk, the files of each dispatch by its place, and the sweeps. -/
structure Host where
  outbox : Outbox
  disk : Disk
  stages : Nat → Stage
  sweeps : List Sweep

/-- No worker is at work.  The disk may hold what earlier processes have left. -/
def Host.init (disk : Disk) : Host := ⟨Outbox.init, disk, fun _ => .idle, []⟩

inductive HostLabel where
  | outbox (a : Label)
  | stage (i : Nat) (a : StageAct)
  | startSweep
  | sweep (j : Nat) (a : SweepAct)
deriving Repr

/-- The worker goes on with what `DownloadAll` has returned. -/
def Host.Admits (cfg : HostConfig) (s : Host) : Label → Prop
  | .dispatch i (.downloaded r) =>
      ∃ d ∈ s.outbox.dispatches[i]?, (s.stages i).result? cfg.tmpDir d.msg.id = some r
  | _ => True

instance (cfg : HostConfig) (s : Host) (a : Label) : Decidable (s.Admits cfg a) :=
  match a with
  | .dispatch i (.downloaded _) => inferInstanceAs (Decidable (∃ d ∈ s.outbox.dispatches[i]?, _))
  | .dispatch _ .start | .dispatch _ .send | .dispatch _ (.sendReturned _)
  | .dispatch _ (.markSent _) | .dispatch _ (.wake _) | .dispatch _ (.markFailed _ _)
  | .dispatch _ .crash | .dispatch _ .cancel | .advance _ | .insert _ _ | .claim _ _ | .reap
  | .resend _ | .updateStatus _ _ => isTrue trivial

/-- The stages after a step of the outbox: a start begins a `DownloadAll`. -/
def Host.stagesAfter (s : Host) : Label → Nat → Stage
  | .dispatch i .start =>
      match s.outbox.dispatches[i]? with
      | some d => Function.update s.stages i (.begin (toRefs d.msg.attachments))
      | none => s.stages
  | _ => s.stages

/-- One step of the host.  A sweep runs only with a positive `FileTTL`. -/
def Host.step (cfg : HostConfig) (s : Host) : HostLabel → Option Host
  | .outbox a =>
      if s.Admits cfg a then
        (s.outbox.step cfg.worker a).map fun o =>
          { s with outbox := o, stages := s.stagesAfter a }
      else none
  | .stage i a =>
      s.outbox.dispatches[i]?.bind fun d =>
        (d.stageStep cfg.tmpDir s.outbox.now s.disk (s.stages i) a).map fun r =>
          { s with disk := r.2, stages := Function.update s.stages i r.1 }
  | .startSweep =>
      if 0 < cfg.fileTTL then
        some { s with sweeps := s.sweeps ++ [⟨s.outbox.now - cfg.fileTTL, .walking⟩] }
      else none
  | .sweep j a =>
      s.sweeps[j]?.bind fun sw =>
        (sw.step s.disk a).map fun r => { s with disk := r.2, sweeps := s.sweeps.set j r.1 }

/-! ## Inversion -/

variable {cfg : HostConfig} {s s' : Host} {b : HostLabel} {now : Int} {id : UUID}
  {disk disk' : Disk} {st st' : Stage} {act : StageAct} {d : Dispatch}

/-- What a call of a dispatch can do. -/
inductive StageMove (now : Int) (id : UUID) (disk : Disk) :
    Stage → StageAct → Stage → Disk → Prop where
  | failed {st : Stage} {act : StageAct} {e : String} :
      StageMove now id disk st act (.returned (.error e)) disk
  | missing {refs : List ObjectRef} {act : StageAct} :
      StageMove now id disk (.statDir refs) act (.mkdir refs) disk
  | exists_ {refs : List ObjectRef} {act : StageAct} : id ∈ disk.dirs →
      StageMove now id disk (.mkdir refs) act (.lstatDir refs) disk
  | found {st : Stage} {refs : List ObjectRef} {act : StageAct} : id ∈ disk.dirs →
      StageMove now id disk st act (.opening refs []) disk
  | made {refs : List ObjectRef} {act : StageAct} : id ∈ (disk.mkdir id).dirs →
      StageMove now id disk (.mkdir refs) act (.opening refs []) (disk.mkdir id)
  | rollback {st : Stage} {act : StageAct} {names : List String} {e : String} :
      StageMove now id disk st act (.rollingBack names e) disk
  | opened {ref : ObjectRef} {rest : List ObjectRef} {names : List String} {act : StageAct}
      {inode : Nat} {disk' : Disk} : disk.openFile now id ref.base = .ok (inode, disk') →
      StageMove now id disk (.opening (ref :: rest) names) act (.copying inode ref rest names) disk'
  | copy {inode : Nat} {ref : ObjectRef} {rest : List ObjectRef} {names : List String}
      {bytes : List UInt8} {act : StageAct} :
      StageMove now id disk (.copying inode ref rest names) act (.copying inode ref rest names)
        (disk.write now inode bytes)
  | copied {inode : Nat} {ref : ObjectRef} {rest : List ObjectRef} {names : List String}
      {act : StageAct} :
      StageMove now id disk (.copying inode ref rest names) act (.next rest (names ++ [ref.base]))
        disk
  | takeBack {name : String} {todo : List String} {e : String} :
      StageMove now id disk (.rollingBack (name :: todo) e) .rollback (.rollingBack todo e)
        (disk.unlink id name)
  | takenBack {e : String} :
      StageMove now id disk (.rollingBack [] e) .rollback (.returned (.error e)) (disk.rmdir id)
  | skipped {st : Stage} {act : StageAct} : StageMove now id disk st act .cleaned disk
  | read {st : Stage} {act : StageAct} : StageMove now id disk st act .reading disk
  | names {st : Stage} {act : StageAct} {todo : List String} :
      StageMove now id disk st act (.removing todo) disk
  | removed {name : String} {todo : List String} :
      StageMove now id disk (.removing (name :: todo)) .cleanup (.removing todo)
        (disk.unlink id name)
  | cleaned {st : Stage} : StageMove now id disk st .cleanup .cleaned (disk.rmdir id)

theorem downloadStep_move (h : downloadStep now id disk st act = some (st', disk')) :
    StageMove now id disk st act st' disk' := by
  unfold downloadStep at h
  split at h
  · split_ifs at h with _ hd
    · cases h; exact .failed
    · cases h; exact .found hd
    · cases h; exact .missing
  · split_ifs at h with _ hd hmade
    · cases h; exact .failed
    · cases h; exact .exists_ hd
    · cases h; exact .made hmade
    · cases h; exact .failed
  · split_ifs at h with hd
    · cases h; exact .found hd
    · cases h; exact .failed
  · split at h
    · cases h; exact .rollback
    · split at h
      · cases h; exact .rollback
      · next hopen => cases h; exact .opened hopen
  · cases h; exact .copy
  · split at h
    · cases h; exact .rollback
    · cases h; exact .copied
  · cases h; exact .takeBack
  · cases h; exact .takenBack
  · cases h

theorem cleanupStep_move {tmpDir : String}
    (h : cleanupStep tmpDir id disk st act = some (st', disk')) :
    StageMove now id disk st act st' disk' := by
  unfold cleanupStep at h
  split at h
  · split_ifs at h
    · cases h; exact .skipped
    · cases h; exact .cleaned
    · cases h; exact .read
  · cases h; exact .names
  · cases h; exact .removed
  · cases h; exact .cleaned
  · cases h

theorem Dispatch.stageStep_move {tmpDir : String}
    (h : d.stageStep tmpDir now disk st act = some (st', disk')) :
    (d.phase = .downloading ∨ ∃ o, d.phase = .done o) ∧
      StageMove now d.msg.id disk st act st' disk' := by
  unfold Dispatch.stageStep at h
  split at h
  · next hp => exact ⟨Or.inl hp, downloadStep_move h⟩
  · next o hp => exact ⟨Or.inr ⟨o, hp⟩, cleanupStep_move h⟩
  · cases h

/-- What a step of a sweep can do. -/
inductive SweepMove (sw : Sweep) (disk : Disk) : SweepAct → Sweep → Disk → Prop where
  | quiet {act : SweepAct} {pc : SweepPc} : SweepMove sw disk act { sw with pc } disk
  | removed {dir name : String} : sw.pc = .doomed dir name →
      SweepMove sw disk .remove { sw with pc := .walking } (disk.unlink dir name)
  | pruned {dir : String} : sw.pc = .condemned dir →
      SweepMove sw disk .rmdir { sw with pc := .pruning } (disk.rmdir dir)

theorem Sweep.step_move {sw sw' : Sweep} {act : SweepAct}
    (h : sw.step disk act = some (sw', disk')) : SweepMove sw disk act sw' disk' := by
  cases act with
  | stat dir name =>
      simp only [Sweep.step] at h
      split at h
      · next f hpc _ =>
          cases h
          split_ifs
          · exact .quiet
          · exact @SweepMove.quiet sw disk _ sw.pc
      · cases h
  | remove =>
      simp only [Sweep.step] at h
      split at h
      · next hpc => cases h; exact .removed hpc
      · cases h
  | endWalk =>
      simp only [Sweep.step] at h
      split at h
      · cases h; exact .quiet
      · cases h
  | readDir dir =>
      simp only [Sweep.step] at h
      split at h
      · split_ifs at h
        cases h
        exact .quiet
      · cases h
  | rmdir =>
      simp only [Sweep.step] at h
      split at h
      · next hpc => cases h; exact .pruned hpc
      · cases h

/-- What a step of the host can do. -/
inductive HostMove (cfg : HostConfig) (s : Host) : HostLabel → Host → Prop where
  | started {i : Nat} {d : Dispatch} {o : Outbox} : s.outbox.dispatches[i]? = some d →
      s.outbox.step cfg.worker (.dispatch i .start) = some o →
      HostMove cfg s (.outbox (.dispatch i .start))
        { s with
          outbox := o
          stages := Function.update s.stages i (.begin (toRefs d.msg.attachments)) }
  | downloaded {i : Nat} {d : Dispatch} {r : Except String (List String)} {o : Outbox} :
      s.outbox.dispatches[i]? = some d → (s.stages i).result? cfg.tmpDir d.msg.id = some r →
      s.outbox.step cfg.worker (.dispatch i (.downloaded r)) = some o →
      HostMove cfg s (.outbox (.dispatch i (.downloaded r))) { s with outbox := o }
  | outbox {a : Label} {o : Outbox} : (∀ i, a ≠ .dispatch i .start) →
      (∀ i r, a ≠ .dispatch i (.downloaded r)) → s.outbox.step cfg.worker a = some o →
      HostMove cfg s (.outbox a) { s with outbox := o }
  | stage {i : Nat} {act : StageAct} {d : Dispatch} {st : Stage} {disk : Disk} :
      s.outbox.dispatches[i]? = some d → (d.phase = .downloading ∨ ∃ o, d.phase = .done o) →
      StageMove s.outbox.now d.msg.id s.disk (s.stages i) act st disk →
      HostMove cfg s (.stage i act)
        { s with disk := disk, stages := Function.update s.stages i st }
  | startSweep : 0 < cfg.fileTTL →
      HostMove cfg s .startSweep
        { s with sweeps := s.sweeps ++ [⟨s.outbox.now - cfg.fileTTL, .walking⟩] }
  | sweep {j : Nat} {act : SweepAct} {sw sw' : Sweep} {disk : Disk} : s.sweeps[j]? = some sw →
      SweepMove sw s.disk act sw' disk →
      HostMove cfg s (.sweep j act) { s with disk := disk, sweeps := s.sweeps.set j sw' }

theorem Host.step_move (h : s.step cfg b = some s') : HostMove cfg s b s' := by
  cases b with
  | outbox a =>
      simp only [Host.step] at h
      split at h
      · next hadm =>
          obtain ⟨o, ho, rfl⟩ := Option.map_eq_some_iff.mp h
          by_cases hstart : ∃ i, a = .dispatch i .start
          · obtain ⟨i, rfl⟩ := hstart
            obtain ⟨d, _, hd, _, _⟩ := Outbox.step_dispatch ho
            simp only [Host.stagesAfter, hd]
            exact .started hd ho
          · have hsame : s.stagesAfter a = s.stages := by
              unfold Host.stagesAfter
              split
              · exact absurd ⟨_, rfl⟩ hstart
              · rfl
            rw [hsame]
            by_cases hdown : ∃ i r, a = .dispatch i (.downloaded r)
            · obtain ⟨i, r, rfl⟩ := hdown
              obtain ⟨d, hd, hr⟩ := hadm
              exact .downloaded hd hr ho
            · exact .outbox (fun i he => hstart ⟨i, he⟩) (fun i r he => hdown ⟨i, r, he⟩) ho
      · cases h
  | stage i act =>
      obtain ⟨d, hd, hmap⟩ := Option.bind_eq_some_iff.mp h
      obtain ⟨⟨st, disk⟩, hst, rfl⟩ := Option.map_eq_some_iff.mp hmap
      obtain ⟨hp, hmove⟩ := Dispatch.stageStep_move hst
      exact .stage hd hp hmove
  | startSweep =>
      simp only [Host.step] at h
      split at h
      · next hpos => cases h; exact .startSweep hpos
      · cases h
  | sweep j act =>
      obtain ⟨sw, hsw, hmap⟩ := Option.bind_eq_some_iff.mp h
      obtain ⟨⟨sw', disk⟩, hst, rfl⟩ := Option.map_eq_some_iff.mp hmap
      exact .sweep hsw (Sweep.step_move hst)

/-! ## A download without interference -/

/-- The calls of one dispatch with nobody else at work. -/
def downloadAlone (now : Int) (id : UUID) (p : Stage × Disk) (act : StageAct) :
    Option (Stage × Disk) := downloadStep now id p.2 p.1 act

/-- The stage has returned what `r` says. -/
def Stage.Returns (r : Except DownloadError (List String)) (st : Stage) : Prop :=
  match r with
  | .ok names => st = .returned (.ok names)
  | .error _ => ∃ e, st = .returned (.error e)

/-- The calls of a rollback are `cleanupBestEffort`. -/
theorem exec_rollback {e : String} : ∀ (names : List String) (disk : Disk),
    exec (downloadAlone now id) (.rollingBack names e, disk)
      (List.replicate (names.length + 1) .rollback) =
      some (.returned (.error e), cleanupBestEffort id names disk)
  | [], _ => rfl
  | _ :: names, disk => exec_rollback names (disk.unlink id _)

/-- What the `OpenFile` of the next object leads to. -/
theorem downloadAlone_open (now : Int) (id : UUID) (ref : ObjectRef) (refs : List ObjectRef)
    (names : List String) (disk : Disk) :
    downloadAlone now id (.opening (ref :: refs) names, disk) (.openFile none) =
      match disk.openFile now id ref.base with
      | .error _ => some (.rollingBack names "open attachment dst", disk)
      | .ok (inode, disk') => some (.copying inode ref refs names, disk') := by
  rfl

/-- The calls for one object do what `downloadOne` does. -/
theorem exec_downloadOne (o : Objects) (now : Int) (id : UUID) (ref : ObjectRef)
    (refs : List ObjectRef) (names : List String) (disk : Disk) :
    ∃ acts st, exec (downloadAlone now id) (.opening (ref :: refs) names, disk) acts =
        some (st, (downloadOne o now id ref disk).2) ∧
      match (downloadOne o now id ref disk).1 with
      | .ok name => st = .next refs (names ++ [name])
      | .error _ => ∃ e, st = .rollingBack names e := by
  have hcall := downloadAlone_open now id ref refs names disk
  cases hopen : disk.openFile now id ref.base with
  | error cause =>
      have hone : downloadOne o now id ref disk = (.error (.openDst cause), disk) := by
        unfold downloadOne
        rw [hopen]
      rw [hopen] at hcall
      rw [hone]
      exact ⟨[.openFile none], _, by rw [exec, hcall]; rfl, _, rfl⟩
  | ok p =>
      obtain ⟨inode, disk₁⟩ := p
      rw [hopen] at hcall
      cases hx : o ref.bucket ref.key with
      | none =>
          have hone : downloadOne o now id ref disk = (.error .copy, disk₁) := by
            unfold downloadOne
            rw [hopen]
            simp only [hx]
          rw [hone]
          exact ⟨[.openFile none, .copied (some "copy attachment to disk")], _,
            by rw [exec, hcall]; rfl, _, rfl⟩
      | some x =>
          have hone : downloadOne o now id ref disk =
              (.ok ref.base, disk₁.write now inode x.body) := by
            unfold downloadOne
            rw [hopen]
            simp only [hx]
          rw [hone]
          exact ⟨[.openFile none, .copy x.body, .copied none], _, by rw [exec, hcall]; rfl, rfl⟩

/-- The calls of the loop do what `downloadLoop` does. -/
theorem exec_downloadLoop (o : Objects) (now : Int) :
    ∀ (refs : List ObjectRef) (names : List String) (disk : Disk), ∃ acts st,
      exec (downloadAlone now id) (Stage.next refs names, disk) acts =
        some (st, (downloadLoop o now id refs names disk).2) ∧
      st.Returns (downloadLoop o now id refs names disk).1
  | [], names, _ => ⟨[], .returned (.ok names), rfl, rfl⟩
  | ref :: refs, names, disk => by
      obtain ⟨acts, st, hacts, hst⟩ := exec_downloadOne o now id ref refs names disk
      have hnext : Stage.next (ref :: refs) names = .opening (ref :: refs) names := if_neg nofun
      rw [downloadLoop_cons, hnext]
      cases hone : downloadOne o now id ref disk with
      | mk r disk₁ =>
          rw [hone] at hacts hst
          cases r with
          | error cause =>
              obtain ⟨e, rfl⟩ := hst
              refine ⟨acts ++ List.replicate (names.length + 1) .rollback, _, ?_, e, rfl⟩
              exact (exec_append ..).trans (by rw [hacts]; exact exec_rollback names disk₁)
          | ok name =>
              obtain ⟨acts', st', hacts', hst'⟩ :=
                exec_downloadLoop o now refs (names ++ [name]) disk₁
              refine ⟨acts ++ acts', st', ?_, hst'⟩
              exact (exec_append ..).trans (by rw [hacts, show st = _ from hst]; exact hacts')

/-- The calls of `MkdirAll` leave the directory there. -/
theorem exec_mkdirAll (now : Int) (refs : List ObjectRef) (disk : Disk)
    (hid : Paths.IsName id.toList) :
    ∃ acts, exec (downloadAlone now id) (.statDir refs, disk) acts =
      some (.opening refs [], disk.mkdir id) := by
  have hstat : downloadAlone now id (.statDir refs, disk) (.mkdirAll false) =
      if id ∈ disk.dirs then some (.opening refs [], disk) else some (.mkdir refs, disk) := by
    rfl
  by_cases hdir : id ∈ disk.dirs
  · refine ⟨[.mkdirAll false], ?_⟩
    rw [exec, hstat, if_pos hdir, Disk.mkdir_of_mem hdir]
    rfl
  · have hmkdir : downloadAlone now id (.mkdir refs, disk) (.mkdirAll false) =
        some (.opening refs [], disk.mkdir id) :=
      (if_neg hdir).trans (if_pos (Disk.mem_mkdir hid))
    refine ⟨[.mkdirAll false, .mkdirAll false], ?_⟩
    rw [exec, hstat, if_neg hdir, Option.bind_some, exec, hmkdir]
    rfl

/-- Without interference the calls do what `downloadAll` does, to the disk and in
the result. -/
theorem exec_downloadAll (tmpDir : String) (o : Objects) (now : Int) (refs : List ObjectRef)
    (disk : Disk) (hid : Paths.IsName id.toList) :
    ∃ acts st, exec (downloadAlone now id) (Stage.begin refs, disk) acts =
        some (st, (downloadAll tmpDir o now id refs disk).2) ∧
      (∀ paths, (downloadAll tmpDir o now id refs disk).1 = .ok paths →
        st.result? tmpDir id = some (.ok paths)) ∧
      ∀ e, (downloadAll tmpDir o now id refs disk).1 = .error e →
        ∃ e', st.result? tmpDir id = some (.error e') := by
  by_cases hnil : refs = []
  · subst hnil
    refine ⟨[], .returned (.ok []), rfl, ?_, ?_⟩
    · intro paths h
      cases h
      rfl
    · intro e h
      cases h
  · obtain ⟨acts, hacts⟩ := exec_mkdirAll now refs disk hid
    obtain ⟨acts', st, hacts', hst⟩ := exec_downloadLoop o now refs [] (disk.mkdir id)
    have hnext : Stage.next refs [] = .opening refs [] := if_neg hnil
    have hbegin : Stage.begin refs = .statDir refs := if_neg hnil
    rw [hnext] at hacts'
    rw [hbegin, downloadAll, if_neg hnil]
    refine ⟨acts ++ acts', st, by rw [exec_append, hacts]; exact hacts', ?_, ?_⟩
    · intro paths h
      cases hr : (downloadLoop o now id refs [] (disk.mkdir id)).1 with
      | ok names =>
          simp only [hr] at h hst
          cases h
          rw [show st = _ from hst]
          rfl
      | error e => simp only [hr] at h; cases h
    · intro e h
      cases hr : (downloadLoop o now id refs [] (disk.mkdir id)).1 with
      | ok names => simp only [hr] at h; cases h
      | error e' =>
          rw [hr] at hst
          obtain ⟨e₁, rfl⟩ := hst
          exact ⟨e₁, rfl⟩

end Signalium
