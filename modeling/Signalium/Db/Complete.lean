import Signalium.Db.Ordered

/-!
# Successful boots

A boot that returns `nil` has found no pending migration left.  A file is pending
by its version, so a file that shares its version with another one is no longer
pending once the other has been applied: the boot that applies both fails on the
primary key, and the boots after it skip the second one.

So a successful boot means that every body has been committed exactly when the
versions of the files are distinct (`boots_complete_iff`).  One direction needs a
boot that succeeds on every verified directory.  Boots that apply one migration
and crash lead to it.
-/

namespace Signalium

open Runs Tables

variable {bin : Binary} {s s' s₁ : Cluster} {a : ClusterLabel} {db db' : Database} {b : Boot}
  {bs : List Boot} {pc : BootPc} {m : MigrationFile} {files rest : List MigrationFile}

/-- The body of every embedded migration has been committed. -/
def SchemaComplete (fs : EmbedFS) (db : Database) : Prop :=
  ∀ name ∈ fs.migrations, ∃ m ∈ db.log, m.filename = name ∧ fs.readFile name = some m.body

/-- Whenever a boot with auto-run has returned `nil`, the schema is complete. -/
def BootsComplete (bin : Binary) : Prop :=
  ∀ tr s, Run (Cluster.step bin) Cluster.init tr s →
    ∀ (i : Nat) (b : Boot), s.boots[i]? = some b → b.autoRun = true → b.pc = .returned (.ok ()) →
      SchemaComplete bin.fs s.db

/-! ## A boot that succeeds -/

/-- Some run leads from one state to the other. -/
def Reaches (bin : Binary) (s s' : Cluster) : Prop := ∃ tr, Run (Cluster.step bin) s tr s'

theorem Reaches.refl : Reaches bin s s := ⟨[], .nil⟩

theorem Reaches.step (h : Reaches bin s s₁) (hs : s₁.step bin a = some s') : Reaches bin s s' := by
  obtain ⟨tr, hr⟩ := h
  exact ⟨_, hr.snoc trivial hs⟩

theorem Reaches.trans (h : Reaches bin s s₁) (h' : Reaches bin s₁ s') : Reaches bin s s' := by
  obtain ⟨tr, hr⟩ := h
  obtain ⟨tr', hr'⟩ := h'
  exact ⟨_, RunOf.trans hr hr'⟩

/-- The last boot makes its next call. -/
theorem Reaches.call (h : Reaches bin s ⟨db, bs ++ [⟨true, true, pc⟩]⟩) {pc' : BootPc}
    (hdb : pc.execute bs.length db = some db') (hpc : pc.onSuccess bin db = some pc') :
    Reaches bin s ⟨db', bs ++ [⟨true, true, pc'⟩]⟩ := by
  refine h.step (a := .call bs.length .ok) ?_
  simp [Cluster.step, Cluster.call, hdb, hpc]

/-- With the lock free, a new boot finds what is pending. -/
theorem reaches_pending (bs : List Boot) (hv : verify bin.digest bin.fs = .ok files)
    (hfree : db.holder = none) :
    Reaches bin ⟨db, bs⟩ ⟨{ db with holder := some bs.length },
      bs ++ [⟨true, true, applyNext (files.filter fun m => m.version ∉ db.versions)⟩]⟩ := by
  obtain ⟨⟨sums, hsums⟩, _, _⟩ := verify_ok hv
  have hpend : pendingMigrations bin.digest bin.fs sums db.versions =
      .ok (files.filter fun m => m.version ∉ db.versions) := by
    rw [pendingMigrations_eq db.versions hsums, hv]
    rfl
  have hbooted : Reaches bin ⟨db, bs⟩ ⟨db, bs ++ [⟨true, true, .acquiring⟩]⟩ :=
    Reaches.refl.step (a := .boot true) rfl
  have hlocking : Reaches bin ⟨db, bs⟩ ⟨db, bs ++ [⟨true, true, .locking⟩]⟩ := hbooted.call rfl rfl
  have hensuring := hlocking.call (if_pos hfree) rfl
  have hlisting : Reaches bin ⟨db, bs⟩ ⟨{ db with holder := some bs.length },
      bs ++ [⟨true, true, .listing sums⟩]⟩ :=
    hensuring.call rfl (by simp only [BootPc.onSuccess, hsums])
  have hiterating : Reaches bin ⟨db, bs⟩ ⟨{ db with holder := some bs.length },
      bs ++ [⟨true, true, .iterating sums db.versions⟩]⟩ := hlisting.call rfl rfl
  exact hiterating.call rfl (by simp only [BootPc.onSuccess, hpend])

/-- A boot with nothing to apply returns `nil`. -/
theorem reaches_returned (bs : List Boot) (hv : verify bin.digest bin.fs = .ok files)
    (hfree : db.holder = none)
    (hnone : (files.filter fun m => m.version ∉ db.versions) = []) :
    ∃ db', Reaches bin ⟨db, bs⟩ ⟨db', bs ++ [⟨true, true, .returned (.ok ())⟩]⟩ := by
  have hpend := reaches_pending bs hv hfree
  rw [hnone] at hpend
  exact ⟨_, hpend.call rfl rfl⟩

/-- A boot applies the first migration that is pending, and crashes. -/
theorem reaches_applied (bs : List Boot) (hv : verify bin.digest bin.fs = .ok files)
    (hfree : db.holder = none)
    (hsome : (files.filter fun m => m.version ∉ db.versions) = m :: rest) :
    ∃ db' bs', Reaches bin ⟨db, bs⟩ ⟨db', bs'⟩ ∧ db'.holder = none ∧
      db'.versions = db.versions ++ [m.version] := by
  have hfresh : m.version ∉ db.versions := by
    have hm : m ∈ files.filter fun m => m.version ∉ db.versions := by
      rw [hsome]
      exact List.mem_cons_self
    simpa using (List.mem_filter.mp hm).2
  have hbegin := reaches_pending bs hv hfree
  rw [hsome] at hbegin
  have hexec := hbegin.call rfl rfl
  have hrecord := hexec.call rfl rfl
  have hcommit := hrecord.call rfl (if_neg hfresh)
  have hfresh' : m.version ∉ ({ db with holder := some bs.length } : Database).versions := hfresh
  obtain ⟨db₁, hdb₁⟩ := Database.commit_of_fresh hfresh'
  obtain ⟨_, hver, hhold⟩ := Database.commit_eq hdb₁
  have hdone := hcommit.call hdb₁ rfl
  have hrunning : (applyNext rest).ended = false := by cases rest <;> rfl
  refine ⟨db₁.release bs.length, bs ++ [⟨true, false, .crashed⟩],
    hdone.step (a := .crash bs.length) ?_, if_pos hhold, hver⟩
  simp [Cluster.step, hrunning]

/-- From every state with the lock free some boot gets to return `nil`: each boot
before it leaves less to do. -/
theorem reaches_success (hv : verify bin.digest bin.fs = .ok files) :
    ∀ (n : Nat) (db : Database) (bs : List Boot), db.holder = none →
      (files.filter fun m => m.version ∉ db.versions).length ≤ n →
      ∃ db' bs', Reaches bin ⟨db, bs⟩ ⟨db', bs' ++ [⟨true, true, .returned (.ok ())⟩]⟩ := by
  intro n
  induction n with
  | zero =>
      intro db bs hfree hn
      obtain ⟨db', h⟩ := reaches_returned bs hv hfree
        (List.eq_nil_of_length_eq_zero (Nat.le_zero.mp hn))
      exact ⟨db', bs, h⟩
  | succ n ih =>
      intro db bs hfree hn
      cases hp : files.filter fun m => m.version ∉ db.versions with
      | nil =>
          obtain ⟨db', h⟩ := reaches_returned bs hv hfree hp
          exact ⟨db', bs, h⟩
      | cons m rest =>
          obtain ⟨db₁, bs₁, h₁, hfree₁, hver⟩ := reaches_applied bs hv hfree hp
          have hless : (files.filter fun m => m.version ∉ db₁.versions).length ≤ n := by
            have hsub : (files.filter fun x => x.version ∉ db₁.versions) =
                (m :: rest).filter fun x => x.version ≠ m.version := by
              rw [← hp, List.filter_filter, hver]
              refine List.filter_congr fun x _ => ?_
              simp [not_or, and_comm]
            rw [hp, List.length_cons] at hn
            rw [hsub, List.filter_cons_of_neg (by simp)]
            exact (List.length_filter_le _ _).trans (Nat.le_of_succ_le_succ hn)
          obtain ⟨db', bs', h⟩ := ih db₁ bs₁ hfree₁ hless
          exact ⟨db', bs', h₁.trans h⟩

/-! ## The equivalence -/

/-- A complete schema needs distinct versions: each version is recorded once. -/
theorem distinct_of_complete (hR : VersionsRecorded bin s) (h : SchemaComplete bin.fs s.db) :
    (bin.fs.migrations.map versionOf).Nodup := by
  have hnodup : (s.db.log.map MigrationFile.version).Nodup := hR.versions ▸ s.db.versions_nodup
  refine List.Nodup.map_on (fun x hx y hy he => ?_) bin.fs.migrations_nodup
  obtain ⟨m, hm, rfl, _⟩ := h x hx
  obtain ⟨m', hm', rfl, _⟩ := h y hy
  have heq : m.version = m'.version := by
    rw [(Binary.verified_file (hR.log m hm)).1, (Binary.verified_file (hR.log m' hm')).1, he]
  rw [List.inj_on_of_nodup_map hnodup hm hm' heq]

/-- For every directory that passes the verification: whenever a boot with auto-run
returns `nil`, after any executions before it, the body of every file has been
committed, if and only if no two files have the same version. -/
theorem boots_complete_iff (hv : verify bin.digest bin.fs = .ok files) :
    BootsComplete bin ↔ (bin.fs.migrations.map versionOf).Nodup := by
  constructor
  · intro hcomplete
    obtain ⟨db, bs, tr, hr⟩ :=
      reaches_success hv _ Cluster.init.db Cluster.init.boots rfl le_rfl
    have hR : VersionsRecorded bin ⟨db, _⟩ :=
      hr.invariant versionsRecorded_init fun _ _ _ hR _ hs => hR.step hs
    exact distinct_of_complete hR
      (hcomplete tr _ hr bs.length _ List.getElem?_concat_length rfl rfl)
  · intro hdistinct tr s hr i b hb hauto hpc name hname
    obtain ⟨_, hI⟩ := inOrder_of_run hdistinct hr
    have hall : s.db.log = files := by
      rw [(hI.boots i b hb).done hauto (by rw [hpc]; rfl), Binary.verified_eq hv]
    obtain ⟨_, hnames, hfiles⟩ := verify_ok hv
    rw [← hnames] at hname
    obtain ⟨m, hm, rfl⟩ := List.mem_map.mp hname
    exact ⟨m, hall ▸ hm, rfl, (hfiles m hm).2⟩

theorem twoMigrations_complete : BootsComplete twoMigrations :=
  (boots_complete_iff rfl).mpr (by decide)

/-- Two files that differ after the underscore only. -/
def sharedVersion : Binary where
  fs :=
    { atlasSum := some "h1:x\n1_a.sql h1:8\n1_b.sql h1:16\n"
      entries := [("1_a.sql", some [97]), ("1_b.sql", some [98])]
      unique := by decide }
  digest bytes := toString bytes.length
  lockKey := 4242

/-- A boot that fails on the second file, and one that succeeds. -/
def sharedVersionTrace : List ClusterLabel :=
  .boot true :: calls 0 13 ++ .boot true :: calls 1 6

/-- Both files pass the verification.  The first boot applies `1_a.sql` and returns an
error, the second one returns `nil`, and `1_b.sql` has not been executed. -/
theorem sharedVersion_incomplete :
    ∃ files s b b' e, verify sharedVersion.digest sharedVersion.fs = .ok files ∧
      files.map MigrationFile.filename = ["1_a.sql", "1_b.sql"] ∧
      Run (Cluster.step sharedVersion) Cluster.init sharedVersionTrace s ∧
      s.boots = [b, b'] ∧ b.pc = .returned (.error e) ∧
      b'.autoRun = true ∧ b'.pc = .returned (.ok ()) ∧
      s.db.log.map MigrationFile.filename = ["1_a.sql"] ∧ ¬ BootsComplete sharedVersion := by
  have hr : Run (Cluster.step sharedVersion) Cluster.init sharedVersionTrace _ := run_of_exec rfl
  refine ⟨_, _, _, _, _, rfl, rfl, hr, rfl, rfl, rfl, rfl, rfl, fun h => ?_⟩
  obtain ⟨m, hm, hname, _⟩ := h _ _ hr 1 _ rfl rfl rfl "1_b.sql" (by decide)
  rw [List.mem_singleton.mp hm] at hname
  exact absurd hname (by decide)

end Signalium
