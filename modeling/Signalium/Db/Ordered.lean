import Signalium.Db.Migrate

/-!
# Migrations in order

The versions of the files are distinct here.  Then whatever the replicas do, what
has been committed is an initial part of the sorted files, each file once
(`migrations_in_order`).

Three things carry this.  The holder of the lock is the only boot that commits,
so the list of applied versions it has read stays true (`Locked`).  What it still
has to do continues what is committed (`Boot.Fits`).  And all files are verified
before the first one is applied, so a directory that fails has no effect.
-/

namespace Signalium

open Runs Tables

/-! ## What is known in every run -/

/-- The files that the verification finds; none if it fails. -/
def Binary.verified (bin : Binary) : List MigrationFile :=
  match verify bin.digest bin.fs with
  | .ok files => files
  | .error _ => []

/-- The migrations a boot still has to apply. -/
def BootPc.todo : BootPc → List MigrationFile
  | .beginning m rest | .executing m rest | .recording m rest | .committing m rest => m :: rest
  | _ => []

/-- The checksums a boot has read. -/
def BootPc.sums? : BootPc → Option Sums
  | .listing sums | .iterating sums _ => some sums
  | _ => none

variable {bin : Binary} {s s' : Cluster} {a : ClusterLabel} {db db' : Database} {b : Boot}
  {i j : Nat} {pc pc' : BootPc} {m : MigrationFile} {files rest : List MigrationFile} {sums : Sums}
  {applied : List String}

theorem Binary.verified_eq (h : verify bin.digest bin.fs = .ok files) : bin.verified = files := by
  unfold Binary.verified
  rw [h]

/-- A verified file has its version and its body from the directory. -/
theorem Binary.verified_file (h : m ∈ bin.verified) :
    m.version = versionOf m.filename ∧ bin.fs.readFile m.filename = some m.body := by
  unfold Binary.verified at h
  split at h
  · next files hv => exact (verify_ok hv).2.2 m h
  · cases h

/-- The verified files are all files, or none. -/
theorem Binary.verified_filenames (bin : Binary) :
    bin.verified.map MigrationFile.filename <+: bin.fs.migrations := by
  unfold Binary.verified
  split
  · next files hv => rw [(verify_ok hv).2.1]
  · exact List.nil_prefix

theorem Binary.verified_versions (bin : Binary) :
    bin.verified.map MigrationFile.version =
      (bin.verified.map MigrationFile.filename).map versionOf := by
  rw [List.map_map]
  exact List.map_congr_left fun m hm => (Binary.verified_file hm).1

theorem pending_eq (hsums : readAtlasSum bin.fs = .ok sums)
    (h : pendingMigrations bin.digest bin.fs sums applied = .ok rest) :
    rest = bin.verified.filter fun m => m.version ∉ applied := by
  rw [pendingMigrations_eq applied hsums] at h
  cases hv : verify bin.digest bin.fs with
  | error e => rw [hv] at h; cases h
  | ok files =>
      rw [hv] at h
      cases h
      rw [Binary.verified_eq hv]

@[simp] theorem applyNext_todo (rest : List MigrationFile) : (applyNext rest).todo = rest := by
  cases rest <;> rfl

@[simp] theorem applyNext_sums (rest : List MigrationFile) : (applyNext rest).sums? = none := by
  cases rest <;> rfl

theorem BootPc.onError_todo {e : String} (h : pc.onError bin e = some pc') :
    pc'.todo = [] ∧ pc'.sums? = none := by
  cases pc <;> cases h <;> exact ⟨rfl, rfl⟩

/-- A boot has read `atlas.sum`, and applies only what has been verified. -/
structure Boot.Known (bin : Binary) (b : Boot) : Prop where
  sums : ∀ sums, b.pc.sums? = some sums → readAtlasSum bin.fs = .ok sums
  todo : ∀ m ∈ b.pc.todo, m ∈ bin.verified

/-- Without checksums and without work there is nothing to know. -/
theorem Boot.Known.of_idle (hs : b.pc.sums? = none) (ht : b.pc.todo = []) : b.Known bin where
  sums := by intro sums h; rw [hs] at h; cases h
  todo := by intro m h; rw [ht] at h; cases h

theorem Boot.Known.onSuccess (hK : b.Known bin) (h : b.pc.onSuccess bin db = some pc') :
    Boot.Known bin { b with pc := pc' } := by
  obtain ⟨autoRun, alive, pc⟩ := b
  cases pc with
  | ensuring =>
      simp only [BootPc.onSuccess] at h
      split at h
      · cases h; exact .of_idle rfl rfl
      · next sums hsums =>
          cases h
          exact ⟨fun _ he => by cases he; exact hsums, nofun⟩
  | listing sums => cases h; exact ⟨fun _ he => by cases he; exact hK.sums sums rfl, nofun⟩
  | iterating sums applied =>
      simp only [BootPc.onSuccess] at h
      split at h
      · cases h; exact .of_idle rfl rfl
      · next pending hp =>
          cases h
          refine ⟨by simp, fun m hm => ?_⟩
          simp only [applyNext_todo, pending_eq (hK.sums sums rfl) hp] at hm
          exact (List.mem_filter.mp hm).1
  | beginning m rest | executing m rest =>
      cases h
      exact ⟨nofun, hK.todo⟩
  | recording m rest =>
      simp only [BootPc.onSuccess] at h
      split at h
      · cases h; exact .of_idle rfl rfl
      · cases h; exact ⟨nofun, hK.todo⟩
  | committing m rest =>
      cases h
      refine ⟨by simp, fun m' hm => ?_⟩
      simp only [applyNext_todo] at hm
      exact hK.todo m' (List.mem_cons_of_mem m hm)
  | returned r => cases h
  | crashed => cases h
  | _ => cases h; exact .of_idle rfl rfl

/-- A version is recorded for each body that has been committed, and all of them
have been verified. -/
structure VersionsRecorded (bin : Binary) (s : Cluster) : Prop where
  versions : s.db.versions = s.db.log.map MigrationFile.version
  log : ∀ m ∈ s.db.log, m ∈ bin.verified
  boots : ∀ (i : Nat) (b : Boot), s.boots[i]? = some b → b.Known bin

theorem versionsRecorded_init : VersionsRecorded bin Cluster.init where
  versions := rfl
  log := nofun
  boots := by intro i b hb; cases hb

/-- A boot at a place of the new list is an old one or the one that has been set. -/
theorem VersionsRecorded.set (hR : VersionsRecorded bin s) (hb : Boot.Known bin b) (j : Nat)
    (c : Boot) (hc : (s.boots.set i b)[j]? = some c) : c.Known bin := by
  rcases Places.of_set hc with ⟨_, rfl⟩ | ⟨_, hold⟩
  · exact hb
  · exact hR.boots j c hold

/-- What a call records. -/
theorem VersionsRecorded.executed (hR : VersionsRecorded bin s) (hb : s.boots[i]? = some b)
    (h : b.pc.execute i s.db = some db) :
    db.versions = db.log.map MigrationFile.version ∧ ∀ m ∈ db.log, m ∈ bin.verified := by
  rcases BootPc.execute_eq h with ⟨hlog, hver⟩ | ⟨m, rest, hpc, hcommit⟩
  · rw [hlog, hver]
    exact ⟨hR.versions, hR.log⟩
  · obtain ⟨hlog, hver, _⟩ := Database.commit_eq hcommit
    rw [hlog, hver, hR.versions]
    refine ⟨by simp, fun m' hm' => ?_⟩
    rcases List.mem_append.mp hm' with hm' | hm'
    · exact hR.log m' hm'
    · rw [List.mem_singleton.mp hm']
      exact (hR.boots i b hb).todo m (by rw [hpc]; exact List.mem_cons_self)

theorem VersionsRecorded.step (hR : VersionsRecorded bin s) (h : s.step bin a = some s') :
    VersionsRecorded bin s' := by
  cases Cluster.step_move h with
  | @booted autoRun =>
      refine ⟨hR.versions, hR.log, fun j c hc => ?_⟩
      rcases Places.of_snoc hc with hold | ⟨_, rfl⟩
      · exact hR.boots j c hold
      · cases autoRun <;> exact .of_idle rfl rfl
  | succeeded hb _ hdb hpc =>
      obtain ⟨hver, hlog⟩ := hR.executed hb hdb
      exact ⟨hver, hlog, hR.set ((hR.boots _ _ hb).onSuccess hpc)⟩
  | lost hb _ hdb hpc =>
      obtain ⟨hver, hlog⟩ := hR.executed hb hdb
      obtain ⟨htodo, hsums⟩ := BootPc.onError_todo hpc
      exact ⟨hver, hlog, hR.set (.of_idle hsums htodo)⟩
  | failed hb hpc =>
      obtain ⟨htodo, hsums⟩ := BootPc.onError_todo hpc
      exact ⟨hR.versions, hR.log, hR.set (.of_idle hsums htodo)⟩
  | died hb =>
      obtain ⟨hsums, htodo⟩ := hR.boots _ _ hb
      exact ⟨hR.versions, hR.log, hR.set ⟨hsums, htodo⟩⟩
  | crashed hb => exact ⟨hR.versions, hR.log, hR.set (.of_idle rfl rfl)⟩

/-! ## Distinct versions -/

/-- The result of the boot is that there was no error. -/
def BootPc.succeeded : BootPc → Bool
  | .unlocking (.ok _) | .returned (.ok _) => true
  | _ => false

/-- What the boot knows and has to do fits the database: it has read what is
recorded, what it has to do continues what is committed, and when it has
succeeded there is nothing left. -/
structure Boot.Fits (bin : Binary) (db : Database) (b : Boot) : Prop where
  applied : b.alive = true → ∀ sums applied, b.pc = .iterating sums applied →
    applied = db.versions
  todo : b.alive = true → b.pc.todo ≠ [] → db.log ++ b.pc.todo = bin.verified
  done : b.autoRun = true → b.pc.succeeded = true → db.log = bin.verified

/-- A boot that is waiting or has failed. -/
theorem Boot.Fits.of_idle (hpc : ∀ sums applied, b.pc ≠ .iterating sums applied)
    (ht : b.pc.todo = []) (hs : b.pc.succeeded = false) : b.Fits bin db where
  applied := fun _ sums applied h => absurd h (hpc sums applied)
  todo := fun _ h => absurd ht h
  done := fun _ h => by rw [hs] at h; cases h

theorem Boot.Fits.frame (hF : b.Fits bin db) (hlog : db'.log = db.log)
    (hver : db'.versions = db.versions) : b.Fits bin db' where
  applied := by rw [hver]; exact hF.applied
  todo := by rw [hlog]; exact hF.todo
  done := by rw [hlog]; exact hF.done

/-- The head of the loop, with `rest` to do. -/
theorem Boot.Fits.applyNext {autoRun alive : Bool} (h : db.log ++ rest = bin.verified) :
    Boot.Fits bin db ⟨autoRun, alive, applyNext rest⟩ where
  applied := by
    intro _ sums applied hpc
    cases rest <;> cases hpc
  todo := by
    intro _ _
    simpa only [applyNext_todo] using h
  done := by
    intro _ hs
    cases rest with
    | nil => simpa using h
    | cons m rest => cases hs

/-- The unlock hands the result on. -/
theorem Boot.Fits.returned {autoRun alive : Bool} {r : Except MigrateError Unit}
    (hF : Boot.Fits bin db ⟨autoRun, alive, .unlocking r⟩) :
    Boot.Fits bin db ⟨autoRun, alive, .returned r⟩ where
  applied := nofun
  todo := fun _ h => absurd rfl h
  done := by
    intro hauto hs
    refine hF.done hauto ?_
    cases r with
    | ok u => rfl
    | error e => cases hs

theorem Boot.Fits.onError {e : String} (hF : b.Fits bin db) (h : b.pc.onError bin e = some pc') :
    Boot.Fits bin db { b with pc := pc' } := by
  obtain ⟨autoRun, alive, pc⟩ := b
  cases pc with
  | unlocking r => cases h; exact hF.returned
  | returned r => cases h
  | crashed => cases h
  | _ => cases h; exact .of_idle nofun rfl rfl

/-- Of files with distinct versions, those whose versions are not recorded are what
follows the recorded ones. -/
theorem filter_fresh {l₁ l₂ : List MigrationFile}
    (h : ((l₁ ++ l₂).map MigrationFile.version).Nodup) :
    ((l₁ ++ l₂).filter fun m => m.version ∉ l₁.map MigrationFile.version) = l₂ := by
  rw [List.map_append, List.nodup_append] at h
  rw [List.filter_append, List.filter_eq_nil_iff.mpr, List.filter_eq_self.mpr, List.nil_append]
  · intro m hm
    rw [decide_eq_true_eq]
    intro hmem
    exact h.2.2 m.version hmem m.version (List.mem_map_of_mem hm) rfl
  · intro m hm hnot
    exact of_decide_eq_true hnot (List.mem_map_of_mem hm)

/-- A call other than a commit. -/
theorem Boot.Fits.onSuccess (hF : b.Fits bin db) (hK : b.Known bin) (hal : b.alive = true)
    (hdistinct : (bin.verified.map MigrationFile.version).Nodup)
    (hlog : db.log <+: bin.verified) (hver : db.versions = db.log.map MigrationFile.version)
    (hne : ∀ m rest, b.pc ≠ .committing m rest) (h : b.pc.onSuccess bin db = some pc') :
    Boot.Fits bin db { b with pc := pc' } := by
  obtain ⟨autoRun, alive, pc⟩ := b
  have htodo := hF.todo hal
  cases pc with
  | ensuring =>
      simp only [BootPc.onSuccess] at h
      split at h <;> cases h <;> exact .of_idle nofun rfl rfl
  | listing sums =>
      cases h
      exact ⟨fun _ _ _ he => by cases he; rfl, fun _ h => absurd rfl h, nofun⟩
  | iterating sums applied =>
      simp only [BootPc.onSuccess] at h
      split at h
      · cases h; exact .of_idle nofun rfl rfl
      · next pending hp =>
          cases h
          -- What it has read is still recorded, so what follows the log is pending.
          obtain ⟨tail, htail⟩ := hlog
          have hpend := pending_eq (hK.sums sums rfl) hp
          rw [hF.applied hal sums applied rfl, hver, ← htail] at hpend
          rw [← htail] at hdistinct
          rw [filter_fresh hdistinct] at hpend
          exact .applyNext (hpend ▸ htail)
  | beginning m rest | executing m rest =>
      cases h
      exact ⟨nofun, fun _ _ => htodo nofun, nofun⟩
  | recording m rest =>
      simp only [BootPc.onSuccess] at h
      split at h
      · cases h; exact .of_idle nofun rfl rfl
      · cases h; exact ⟨nofun, fun _ _ => htodo nofun, nofun⟩
  | committing m rest => exact absurd rfl (hne m rest)
  | unlocking r => cases h; exact hF.returned
  | returned r => cases h
  | crashed => cases h
  | _ => cases h; exact .of_idle nofun rfl rfl

/-- What is committed begins the sorted files, and every boot fits it. -/
structure InOrder (bin : Binary) (s : Cluster) : Prop where
  log : s.db.log <+: bin.verified
  boots : ∀ (i : Nat) (b : Boot), s.boots[i]? = some b → b.Fits bin s.db

theorem inOrder_init : InOrder bin Cluster.init where
  log := List.nil_prefix
  boots := by intro i b hb; cases hb

/-- The list of boots after a step of one of them. -/
theorem InOrder.set {c : Boot} (hothers : ∀ j c, j ≠ i → s.boots[j]? = some c → c.Fits bin db)
    (hb : b.Fits bin db) (j : Nat) (hc : (s.boots.set i b)[j]? = some c) : c.Fits bin db := by
  rcases Places.of_set hc with ⟨_, rfl⟩ | ⟨hne, hold⟩
  · exact hb
  · exact hothers j c hne hold

theorem BootPc.holding_of_todo (h : pc.todo ≠ []) : pc.holding = true := by
  cases pc with
  | beginning m rest | executing m rest | recording m rest | committing m rest => rfl
  | _ => exact absurd rfl h

/-- A commit of the boot at place `i` continues the log, and concerns no other boot:
none of them has the lock, and none has succeeded. -/
theorem InOrder.committed (hI : InOrder bin s) (hL : Locked s) (hb : s.boots[i]? = some b)
    (hal : b.alive = true) (hpc : b.pc = .committing m rest) (h : s.db.commit m = some db) :
    db.log ++ rest = bin.verified ∧
      ∀ j c, j ≠ i → s.boots[j]? = some c → c.Fits bin db := by
  obtain ⟨hlog, _, _⟩ := Database.commit_eq h
  have hwork : s.db.log ++ m :: rest = bin.verified := by
    have := (hI.boots i b hb).todo hal (by rw [hpc]; exact nofun)
    rwa [hpc] at this
  have hholder : s.db.holder = some i := hL i b hb hal (by rw [hpc]; rfl)
  refine ⟨by rw [hlog, ← hwork]; simp, fun j c hne hc => ?_⟩
  have hfree : c.alive = true → c.pc.holding = false := by
    intro hcal
    by_contra hh
    have := hL j c hc hcal (by simpa using hh)
    rw [hholder] at this
    exact hne (Option.some.inj this).symm
  refine ⟨fun hcal sums applied he => ?_, fun hcal ht => ?_, fun hauto hs => ?_⟩
  · have := hfree hcal
    rw [he] at this
    cases this
  · have := hfree hcal
    rw [BootPc.holding_of_todo ht] at this
    cases this
  · have hall := (hI.boots j c hc).done hauto hs
    rw [hall] at hwork
    simp at hwork

theorem InOrder.executed (hI : InOrder bin s) (hL : Locked s) (hb : s.boots[i]? = some b)
    (hal : b.alive = true) (h : b.pc.execute i s.db = some db) :
    db.log <+: bin.verified ∧ ∀ j c, j ≠ i → s.boots[j]? = some c → c.Fits bin db := by
  rcases BootPc.execute_eq h with ⟨hlog, hver⟩ | ⟨m, rest, hpc, hcommit⟩
  · exact ⟨hlog ▸ hI.log, fun j c _ hc => (hI.boots j c hc).frame hlog hver⟩
  · obtain ⟨hrest, hothers⟩ := hI.committed hL hb hal hpc hcommit
    exact ⟨⟨rest, hrest⟩, hothers⟩

theorem InOrder.step (hI : InOrder bin s) (hL : Locked s) (hR : VersionsRecorded bin s)
    (hdistinct : (bin.verified.map MigrationFile.version).Nodup)
    (h : s.step bin a = some s') : InOrder bin s' := by
  cases Cluster.step_move h with
  | @booted autoRun =>
      refine ⟨hI.log, fun j c hc => ?_⟩
      rcases Places.of_snoc hc with hold | ⟨_, rfl⟩
      · exact hI.boots j c hold
      · cases autoRun with
        | false => exact ⟨nofun, fun _ h => absurd rfl h, nofun⟩
        | true => exact .of_idle nofun rfl rfl
  | @succeeded i b db pc hb hal hdb hpc =>
      obtain ⟨hlog, hothers⟩ := hI.executed hL hb hal hdb
      refine ⟨hlog, fun j c hc => InOrder.set hothers ?_ j hc⟩
      rcases BootPc.execute_eq hdb with ⟨hsame, hver⟩ | ⟨m, rest, hcom, hcommit⟩
      · refine Boot.Fits.frame ?_ hsame hver
        refine (hI.boots i b hb).onSuccess (hR.boots i b hb) hal hdistinct hI.log hR.versions ?_ hpc
        intro m rest hcom
        rw [hcom] at hdb
        have := (Database.commit_eq hdb).1
        rw [hsame] at this
        simp at this
      · rw [hcom] at hpc
        cases hpc
        exact .applyNext (hI.committed hL hb hal hcom hcommit).1
  | @lost i b db e pc hb hal hdb hpc =>
      obtain ⟨hlog, hothers⟩ := hI.executed hL hb hal hdb
      refine ⟨hlog, fun j c hc => InOrder.set hothers ?_ j hc⟩
      rcases BootPc.execute_eq hdb with ⟨hsame, hver⟩ | ⟨m, rest, hcom, _⟩
      · exact ((hI.boots i b hb).onError hpc).frame hsame hver
      · rw [hcom] at hpc
        cases hpc
        exact .of_idle nofun rfl rfl
  | @failed i b e pc hb hpc =>
      exact ⟨hI.log, fun j c hc => InOrder.set (fun j c _ hc => hI.boots j c hc)
        ((hI.boots i b hb).onError hpc) j hc⟩
  | @died i b hb =>
      have hF := hI.boots i b hb
      have hdead : Boot.Fits bin (s.db.release i) { b with alive := false } :=
        ⟨(by intro h; cases h), (by intro h; cases h), hF.done⟩
      exact ⟨hI.log, fun j c hc => InOrder.set
        (fun j c _ hc => (hI.boots j c hc).frame rfl rfl) hdead j hc⟩
  | @crashed i b hb =>
      have hidle : Boot.Fits bin (s.db.release i) { b with alive := false, pc := .crashed } :=
        .of_idle (fun _ _ h => by cases h) rfl rfl
      exact ⟨hI.log, fun j c hc => InOrder.set
        (fun j c _ hc => (hI.boots j c hc).frame rfl rfl) hidle j hc⟩

/-! ## Runs -/

/-- What is known of every state of a cluster whose files have distinct versions. -/
theorem inOrder_of_run {tr : List ClusterLabel}
    (hdistinct : (bin.fs.migrations.map versionOf).Nodup)
    (hr : Run (Cluster.step bin) Cluster.init tr s) : VersionsRecorded bin s ∧ InOrder bin s := by
  have hver : (bin.verified.map MigrationFile.version).Nodup := by
    rw [bin.verified_versions]
    exact hdistinct.sublist (bin.verified_filenames.sublist.map versionOf)
  have hall : Locked s ∧ VersionsRecorded bin s ∧ InOrder bin s :=
    hr.invariant (I := fun s => Locked s ∧ VersionsRecorded bin s ∧ InOrder bin s)
      ⟨locked_init, versionsRecorded_init, inOrder_init⟩
      fun _ _ _ ⟨hL, hR, hI⟩ _ hs => ⟨hL.step hs, hR.step hs, hI.step hL hR hver hs⟩
  exact hall.2

/-- The recorded versions are those of an initial part of the sorted files; the
bodies of these files have been committed once, and no others. -/
structure AppliedInOrder (fs : EmbedFS) (db : Database) : Prop where
  versions : ∃ k, db.versions = (fs.migrations.take k).map versionOf
  bodies : ∀ m ∈ db.log, m.filename ∈ fs.migrations ∧ fs.readFile m.filename = some m.body
  once : ∀ name ∈ fs.migrations,
    (db.log.map MigrationFile.filename).count name = if versionOf name ∈ db.versions then 1 else 0

/-- The recorded versions by the names of the files. -/
theorem VersionsRecorded.versions_eq (hR : VersionsRecorded bin s) :
    s.db.versions = (s.db.log.map MigrationFile.filename).map versionOf := by
  rw [hR.versions, List.map_map]
  exact List.map_congr_left fun m hm => (Binary.verified_file (hR.log m hm)).1

theorem InOrder.appliedInOrder (hI : InOrder bin s) (hR : VersionsRecorded bin s)
    (hdistinct : (bin.fs.migrations.map versionOf).Nodup) : AppliedInOrder bin.fs s.db := by
  have hnames : s.db.log.map MigrationFile.filename <+: bin.fs.migrations :=
    (hI.log.map MigrationFile.filename).trans bin.verified_filenames
  have hver := hR.versions_eq
  refine ⟨⟨(s.db.log.map MigrationFile.filename).length, ?_⟩, fun m hm => ⟨?_, ?_⟩,
    fun name hname => ?_⟩
  · rw [← List.prefix_iff_eq_take.mp hnames, hver]
  · exact hnames.subset (List.mem_map_of_mem hm)
  · exact (Binary.verified_file (hR.log m hm)).2
  · -- A version is recorded for one name only.
    have hiff : versionOf name ∈ s.db.versions ↔ name ∈ s.db.log.map MigrationFile.filename := by
      rw [hver]
      constructor
      · intro h
        obtain ⟨name', hname', he⟩ := List.mem_map.mp h
        rwa [← List.inj_on_of_nodup_map hdistinct (hnames.subset hname') hname he]
      · exact List.mem_map_of_mem
    rw [(bin.fs.migrations_nodup.sublist hnames.sublist).count]
    simp only [hiff]

/-- For every directory whose files have distinct versions: in every state that any
number of replicas can reach, with crashes at any step, the migrations have been
applied in order and once each.  If the verification fails, none has. -/
theorem migrations_in_order {tr : List ClusterLabel}
    (hdistinct : (bin.fs.migrations.map versionOf).Nodup)
    (hr : Run (Cluster.step bin) Cluster.init tr s) :
    AppliedInOrder bin.fs s.db ∧
      ∀ e, verify bin.digest bin.fs = .error e → s.db.log = [] ∧ s.db.versions = [] := by
  obtain ⟨hR, hI⟩ := inOrder_of_run hdistinct hr
  refine ⟨hI.appliedInOrder hR hdistinct, fun e he => ?_⟩
  have hlog : s.db.log = [] := by
    have := hI.log
    unfold Binary.verified at this
    rw [he] at this
    exact List.prefix_nil.mp this
  exact ⟨hlog, by rw [hR.versions, hlog]; rfl⟩

/-- Two migrations under the names of the repository, with a length for a checksum. -/
def twoMigrations : Binary where
  fs :=
    { atlasSum := some ("h1:mV+b8kfIcnx=\n20260519000000_init.sql h1:25\n" ++
        "20260523000000_add_inbound_table.sql h1:63\n")
      entries := [("20260519000000_init.sql", some [97, 59]),
        ("20260523000000_add_inbound_table.sql", some [98, 59])]
      unique := by decide }
  digest bytes := toString bytes.length
  lockKey := 4242

/-- Boot `i` makes its next `n` calls. -/
def calls (i n : Nat) : List ClusterLabel := List.replicate n (.call i .ok)

/-- The first boot does not see the reply to its commit and crashes; the second one
crashes in its transaction; the third one ends. -/
def crashesTrace : List ClusterLabel :=
  ([.boot true, .boot true] : List ClusterLabel) ++ calls 0 8 ++
    ([.call 0 (.lost "connection reset"), .crash 0] : List ClusterLabel) ++ calls 1 7 ++
    ([.crash 1, .boot true] : List ClusterLabel) ++ calls 2 10

/-- Both migrations are applied once, one by the boot that crashed. -/
theorem crashes_in_order :
    ∃ s, Run (Cluster.step twoMigrations) Cluster.init crashesTrace s ∧
      AppliedInOrder twoMigrations.fs s.db ∧
      s.db.versions = ["20260519000000", "20260523000000"] := by
  have hr : Run (Cluster.step twoMigrations) Cluster.init crashesTrace _ := run_of_exec rfl
  exact ⟨_, hr, (migrations_in_order (by decide) hr).1, rfl⟩

end Signalium
