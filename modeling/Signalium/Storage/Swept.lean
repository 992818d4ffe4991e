import Signalium.Storage.Staging
import Signalium.Worker.Cleanup

/-!
# A sweep that nothing meets

The sweeps of a host are steps on its disk, which has two levels, and anything can
happen between two steps.  `sweepDir` is a function on trees of any depth.  Where
nothing happens in between, the steps can do what the function does: a sweep alone
on the disk has a run that leaves what `sweepDir` leaves of the disk as a tree
(`exec_sweepDir`).
-/

namespace Signalium

open Runs Disks Trees

/-- The disk as a tree: the root, the directories in it and their files. -/
def diskEntries (dirs : List String) (files : List File) : List (Place × Entry File) :=
  ([], .dir) :: (dirs.map (fun d => ([d], .dir)) ++ files.map fun f => ([f.name, f.dir], .file f))

theorem diskEntries_nodup (disk : Disk) (h : disk.dirs.Nodup) :
    ((diskEntries disk.dirs disk.files).map Prod.fst).Nodup := by
  have hdirs : (disk.dirs.map fun d => [d]).Nodup :=
    h.map fun d d' heq => List.singleton_injective heq
  have hfiles : (disk.files.map fun f => [f.name, f.dir]).Nodup := by
    refine List.Nodup.of_map (fun l : List String => (l.getD 1 "", l.getD 0 "")) ?_
    rw [List.map_map]
    exact disk.unique
  simp only [diskEntries, List.map_cons, List.map_append, List.map_map]
  refine List.nodup_cons.mpr ⟨by simp, List.nodup_append.mpr ⟨hdirs, hfiles, ?_⟩⟩
  simp

/-- A disk with distinct directories is a tree. -/
def diskTree (disk : Disk) (h : disk.dirs.Nodup) : DirTree File where
  entries := diskEntries disk.dirs disk.files
  unique := diskEntries_nodup disk h
  placed := by
    intro x hx
    rcases List.mem_cons.mp hx with rfl | hx
    · exact trivial
    · rcases List.mem_append.mp hx with hx | hx
      · obtain ⟨d, hd, rfl⟩ := List.mem_map.mp hx
        exact ⟨List.mem_cons_self, disk.dirNames d hd⟩
      · obtain ⟨f, hf, rfl⟩ := List.mem_map.mp hx
        refine ⟨List.mem_cons_of_mem _ (List.mem_append_left _ ?_), disk.names f hf⟩
        exact List.mem_map.mpr ⟨f.dir, disk.housed f hf, rfl⟩

/-- A sweep on a disk that nobody else uses. -/
def sweepAlone (s : Sweep × Disk) (a : SweepAct) : Option (Sweep × Disk) := s.1.step s.2 a

/-- The sweep removes files that are older than its cutoff, one after the other. -/
theorem exec_unlink (cutoff : Int) (fs : List File) (disk : Disk)
    (hfs : ∀ f ∈ fs, f ∈ disk.files ∧ f.mtime < cutoff) (hnodup : (fs.map File.key).Nodup) :
    ∃ acts disk', exec sweepAlone (⟨cutoff, .walking⟩, disk) acts =
        some (⟨cutoff, .walking⟩, disk') ∧ disk'.dirs = disk.dirs ∧
      disk'.files = disk.files.filter fun f => f.key ∉ fs.map File.key := by
  induction fs generalizing disk with
  | nil => exact ⟨[], disk, rfl, rfl, by simp⟩
  | cons f fs ih =>
      obtain ⟨⟨hf, hold⟩, hrest⟩ := List.forall_mem_cons.mp hfs
      obtain ⟨hne, hnodup⟩ := List.nodup_cons.mp hnodup
      have hfind : disk.find? f.dir f.name = some f := Disk.find?_eq_some.mpr ⟨hf, rfl, rfl⟩
      have hstays : ∀ g ∈ fs, g ∈ (disk.unlink f.dir f.name).files ∧ g.mtime < cutoff := by
        intro g hg
        refine ⟨List.mem_filter.mpr ⟨(hrest g hg).1, decide_eq_true ?_⟩, (hrest g hg).2⟩
        rintro ⟨hdir, hname⟩
        exact hne (List.mem_map.mpr ⟨g, hg, Prod.ext hdir hname⟩)
      obtain ⟨acts, disk', hacts, hdirs, hfiles⟩ := ih _ hstays hnodup
      refine ⟨.stat f.dir f.name :: .remove :: acts, disk', ?_, hdirs, ?_⟩
      · have hstat : sweepAlone (⟨cutoff, .walking⟩, disk) (.stat f.dir f.name) =
            some (⟨cutoff, .doomed f.dir f.name⟩, disk) := by
          simp [sweepAlone, Sweep.step, hfind, hold]
        rw [exec, hstat]
        exact hacts
      · rw [hfiles]
        simp only [Disk.unlink, List.filter_filter, List.map_cons, List.mem_cons]
        refine List.filter_congr fun g _ => ?_
        simp only [File.key, Prod.mk.injEq]
        grind

/-- It removes directories that hold nothing, one after the other. -/
theorem exec_rmdir (cutoff : Int) (ds : List String) (disk : Disk)
    (hds : ∀ d ∈ ds, d ∈ disk.dirs ∧ disk.Empty d) (hnodup : ds.Nodup) :
    ∃ acts disk', exec sweepAlone (⟨cutoff, .pruning⟩, disk) acts =
        some (⟨cutoff, .pruning⟩, disk') ∧ disk'.files = disk.files ∧
      disk'.dirs = disk.dirs.filter fun d => d ∉ ds := by
  induction ds generalizing disk with
  | nil => exact ⟨[], disk, rfl, rfl, by simp⟩
  | cons d ds ih =>
      obtain ⟨⟨hd, hempty⟩, hrest⟩ := List.forall_mem_cons.mp hds
      obtain ⟨hne, hnodup⟩ := List.nodup_cons.mp hnodup
      have hrmdir : (disk.rmdir d).files = disk.files ∧
          (disk.rmdir d).dirs = disk.dirs.filter (· ≠ d) := by
        rw [Disk.rmdir, dif_pos hempty]
        exact ⟨rfl, rfl⟩
      have hstays : ∀ d' ∈ ds, d' ∈ (disk.rmdir d).dirs ∧ (disk.rmdir d).Empty d' := by
        intro d' hd'
        have hne' : d' ≠ d := by
          rintro rfl
          exact hne hd'
        refine ⟨Disk.mem_rmdir_of_ne (hrest d' hd').1 hne', ?_⟩
        rw [Disk.Empty, hrmdir.1]
        exact (hrest d' hd').2
      obtain ⟨acts, disk', hacts, hfiles, hdirs⟩ := ih _ hstays hnodup
      refine ⟨.readDir d :: .rmdir :: acts, disk', ?_, hfiles.trans hrmdir.1, ?_⟩
      · have hread : sweepAlone (⟨cutoff, .pruning⟩, disk) (.readDir d) =
            some (⟨cutoff, .condemned d⟩, disk) := by
          simp [sweepAlone, Sweep.step, hd, hempty]
        rw [exec, hread]
        exact hacts
      · rw [hdirs, hrmdir.2, List.filter_filter]
        refine List.filter_congr fun d' _ => ?_
        simp only [List.mem_cons]
        grind

/-! ## What `sweepDir` leaves of a disk -/

/-- A `sweepDir` over the disk with nothing wrong. -/
def diskJob (dir : String) (cutoff : Int) : SweepJob File := ⟨dir, cutoff, File.mtime, .none⟩

theorem filter_stale_diskEntries (dir : String) (cutoff : Int) (dirs : List String)
    (files : List File) :
    (diskEntries dirs files).filter (fun x => ¬ (diskJob dir cutoff).Stale x) =
      diskEntries dirs (files.filter fun f => ¬ f.mtime < cutoff) := by
  have hroot : ¬ (diskJob dir cutoff).Stale ([], .dir) := id
  have hdirs : ∀ x ∈ dirs.map fun d => (([d], .dir) : Place × Entry File),
      ¬ (diskJob dir cutoff).Stale x := by
    intro x hx
    obtain ⟨d, _, rfl⟩ := List.mem_map.mp hx
    exact id
  rw [diskEntries, List.filter_cons_of_pos (by simpa using hroot), List.filter_append,
    List.filter_eq_self.mpr (by simpa using hdirs), List.filter_map]
  rfl

theorem filter_emptyChild_diskEntries {t : DirTree File} {disk : Disk}
    (h : t.entries = diskEntries disk.dirs disk.files) :
    t.entries.filter (fun x => ¬ EmptyChild t x) =
      diskEntries (disk.dirs.filter fun d => ¬ disk.Empty d) disk.files := by
  have hroot : ¬ EmptyChild t ([], .dir) := id
  have hfiles : ∀ f : File, ¬ EmptyChild t ([f.name, f.dir], .file f) := fun _ => id
  have hdirs : ∀ d : String, EmptyChild t ([d], .dir) ↔ disk.Empty d := by
    intro d
    show t.Empty [d] ↔ disk.Empty d
    rw [DirTree.empty_iff, h]
    constructor
    · rintro hempty f hf rfl
      refine hempty f.name (.file f) (List.mem_cons_of_mem _ (List.mem_append_right _ ?_))
      exact List.mem_map.mpr ⟨f, hf, rfl⟩
    · intro hempty n e hmem
      have hfile : ∃ f ∈ disk.files, f.dir = d := by
        simp only [diskEntries, List.mem_cons, List.mem_append, List.mem_map] at hmem
        grind
      obtain ⟨f, hf, hd⟩ := hfile
      exact hempty f hf hd
  rw [h]
  simp [diskEntries, List.filter_map, Function.comp_def, hdirs, hroot, hfiles]

/-- Without interference the steps of a sweep can do what `sweepDir` does. -/
theorem exec_sweepDir (dir : String) (cutoff : Int) (disk : Disk) (h : disk.dirs.Nodup) :
    ∃ acts disk', exec sweepAlone (⟨cutoff, .walking⟩, disk) acts =
        some (⟨cutoff, .pruning⟩, disk') ∧
      diskEntries disk'.dirs disk'.files =
        ((diskJob dir cutoff).sweepDir (diskTree disk h)).2.entries := by
  obtain ⟨walked, hwalked, hleft, _⟩ :=
    (diskJob dir cutoff).sweepDir_eq rfl (t := diskTree disk h) List.mem_cons_self
  -- The walk.
  have hstale : ∀ f ∈ disk.files.filter fun f => f.mtime < cutoff,
      f ∈ disk.files ∧ f.mtime < cutoff := by
    intro f hf
    exact ⟨(List.mem_filter.mp hf).1, of_decide_eq_true (List.mem_filter.mp hf).2⟩
  obtain ⟨acts, disk₁, hacts, hdirs, hfiles⟩ := exec_unlink cutoff _ disk hstale
    (disk.unique.sublist (List.filter_sublist.map _))
  have hfiles : disk₁.files = disk.files.filter fun f => ¬ f.mtime < cutoff := by
    rw [hfiles]
    refine List.filter_congr fun f hf => ?_
    rw [decide_eq_decide, not_iff_not]
    constructor
    · intro hmem
      obtain ⟨g, hg, hkey⟩ := List.mem_map.mp hmem
      rw [← Disk.file_unique (hstale g hg).1 hf hkey]
      exact (hstale g hg).2
    · intro hold
      exact List.mem_map.mpr ⟨f, List.mem_filter.mpr ⟨hf, decide_eq_true hold⟩, rfl⟩
  have hentries : walked.entries = diskEntries disk₁.dirs disk₁.files := by
    rw [hwalked, hdirs, hfiles]
    exact filter_stale_diskEntries dir cutoff disk.dirs disk.files
  -- The pruning.
  have hbare : ∀ d ∈ disk₁.dirs.filter fun d => disk₁.Empty d, d ∈ disk₁.dirs ∧ disk₁.Empty d := by
    intro d hd
    exact ⟨(List.mem_filter.mp hd).1, of_decide_eq_true (List.mem_filter.mp hd).2⟩
  obtain ⟨acts', disk', hacts', hfiles', hdirs'⟩ := exec_rmdir cutoff _ disk₁ hbare
    ((hdirs ▸ h).filter _)
  have hdirs' : disk'.dirs = disk₁.dirs.filter fun d => ¬ disk₁.Empty d := by
    rw [hdirs']
    refine List.filter_congr fun d hd => ?_
    simp [hd]
  refine ⟨acts ++ .endWalk :: acts', disk', ?_, ?_⟩
  · rw [exec_append, hacts]
    exact hacts'
  · rw [hleft, filter_emptyChild_diskEntries hentries, hdirs', hfiles']

end Signalium
