import Signalium.Lib.Paths

/-!
# Directories of files

A small part of a Unix file system: the directories below one root, and the
files in them.  A file is named by its directory and its name in it, and has an
inode of its own.  An open file is its inode, so what is written to it after its
name has been removed, or given to another file, does not reach the name.

A `Disk` carries what the kernel keeps true: names are names, a file lies in a
directory that is there, and no two files share a name or an inode.  What a
`Disk` shows is `find?`, and each operation says what it does to it.
-/

namespace Disks

open Paths (IsName)

/-- A file. -/
structure File where
  dir : String
  name : String
  inode : Nat
  body : List UInt8
  mtime : Int
deriving DecidableEq, Repr

/-- The name of a file below the root. -/
def File.key (f : File) : String × String := (f.dir, f.name)

/-- The directories below the root and their files. -/
structure Disk where
  dirs : List String
  files : List File
  /-- The number of inodes used so far. -/
  inodes : Nat
  dirNames : ∀ d ∈ dirs, IsName d.toList
  names : ∀ f ∈ files, IsName f.name.toList
  housed : ∀ f ∈ files, f.dir ∈ dirs
  unique : (files.map File.key).Nodup
  used : ∀ f ∈ files, f.inode < inodes
  linked : (files.map File.inode).Nodup

/-- The root with nothing in it. -/
def Disk.empty : Disk where
  dirs := []
  files := []
  inodes := 0
  dirNames := by simp
  names := by simp
  housed := by simp
  unique := by simp
  used := by simp
  linked := by simp

/-- The file with a name. -/
def Disk.find? (disk : Disk) (dir name : String) : Option File :=
  disk.files.find? fun f => f.dir = dir ∧ f.name = name

variable {disk disk' : Disk} {dir name dir' name' : String} {f : File} {now : Int} {inode : Nat}

/-! ## Reading -/

theorem Disk.file_unique {f' : File} (hf : f ∈ disk.files) (hf' : f' ∈ disk.files)
    (h : f.key = f'.key) : f = f' :=
  List.inj_on_of_nodup_map disk.unique hf hf' h

theorem Disk.find?_eq_some : disk.find? dir name = some f ↔
    f ∈ disk.files ∧ f.dir = dir ∧ f.name = name := by
  constructor
  · intro h
    exact ⟨List.mem_of_find?_eq_some h, by simpa using List.find?_some h⟩
  · rintro ⟨hf, rfl, rfl⟩
    cases h : disk.find? f.dir f.name with
    | none => simpa using List.find?_eq_none.mp h f hf
    | some g =>
        have hg : g.dir = f.dir ∧ g.name = f.name := by simpa using List.find?_some h
        rw [disk.file_unique (List.mem_of_find?_eq_some h) hf (Prod.ext hg.1 hg.2)]

theorem Disk.find?_eq_none : disk.find? dir name = none ↔
    ∀ f ∈ disk.files, ¬ (f.dir = dir ∧ f.name = name) := by
  simp [Disk.find?, List.find?_eq_none]

/-- A file lies in a directory that is there. -/
theorem Disk.dir_of_find? (h : disk.find? dir name = some f) : dir ∈ disk.dirs := by
  obtain ⟨hf, rfl, _⟩ := Disk.find?_eq_some.mp h
  exact disk.housed f hf

/-! ## Directories -/

/-- `mkdir` of a directory below the root, if it is not there. -/
def Disk.mkdir (disk : Disk) (dir : String) : Disk :=
  if h : IsName dir.toList ∧ dir ∉ disk.dirs then
    { disk with
      dirs := disk.dirs ++ [dir]
      dirNames := by
        intro d hd
        rcases List.mem_append.mp hd with hd | hd
        · exact disk.dirNames d hd
        · rw [List.mem_singleton.mp hd]; exact h.1
      housed := fun f hf => List.mem_append_left _ (disk.housed f hf) }
  else disk

/-- The directory holds nothing. -/
def Disk.Empty (disk : Disk) (dir : String) : Prop := ∀ f ∈ disk.files, f.dir ≠ dir

instance (disk : Disk) (dir : String) : Decidable (disk.Empty dir) :=
  inferInstanceAs (Decidable (∀ f ∈ disk.files, _))

/-- `rmdir`, which fails on a directory that holds something. -/
def Disk.rmdir (disk : Disk) (dir : String) : Disk :=
  if h : disk.Empty dir then
    { disk with
      dirs := disk.dirs.filter (· ≠ dir)
      dirNames := fun d hd => disk.dirNames d (List.mem_filter.mp hd).1
      housed := fun f hf => List.mem_filter.mpr ⟨disk.housed f hf, by simpa using h f hf⟩ }
  else disk

@[simp] theorem Disk.find?_mkdir : (disk.mkdir dir').find? dir name = disk.find? dir name := by
  unfold Disk.mkdir
  split <;> rfl

@[simp] theorem Disk.find?_rmdir : (disk.rmdir dir').find? dir name = disk.find? dir name := by
  unfold Disk.rmdir
  split <;> rfl

theorem Disk.mkdir_of_mem (h : dir ∈ disk.dirs) : disk.mkdir dir = disk :=
  dif_neg fun hn => hn.2 h

theorem Disk.mem_mkdir (h : IsName dir.toList) : dir ∈ (disk.mkdir dir).dirs := by
  by_cases hdir : dir ∈ disk.dirs
  · rw [Disk.mkdir_of_mem hdir]
    exact hdir
  · simp [Disk.mkdir, h, hdir]

theorem Disk.mem_mkdir_of_mem (h : dir ∈ disk.dirs) : dir ∈ (disk.mkdir dir').dirs := by
  unfold Disk.mkdir
  split
  · exact List.mem_append_left _ h
  · exact h

theorem Disk.mem_rmdir_of_ne (h : dir ∈ disk.dirs) (hne : dir ≠ dir') :
    dir ∈ (disk.rmdir dir').dirs := by
  unfold Disk.rmdir
  split
  · exact List.mem_filter.mpr ⟨h, by simpa using hne⟩
  · exact h

/-! ## Files -/

/-- A file with a new content and time, if it is one of those to change. -/
def File.change (p : File → Bool) (g : File → List UInt8 × Int) (f : File) : File :=
  if p f then { f with body := (g f).1, mtime := (g f).2 } else f

theorem File.change_key (p : File → Bool) (g : File → List UInt8 × Int) (f : File) :
    (f.change p g).key = f.key := by
  unfold File.change
  split <;> rfl

theorem File.change_inode (p : File → Bool) (g : File → List UInt8 × Int) (f : File) :
    (f.change p g).inode = f.inode := by
  unfold File.change
  split <;> rfl

theorem map_change {κ : Type} {k : File → κ} {p : File → Bool} {g : File → List UInt8 × Int}
    (h : ∀ f, k (f.change p g) = k f) (files : List File) :
    (files.map (File.change p g)).map k = files.map k := by
  rw [List.map_map]
  exact List.map_congr_left fun f _ => h f

/-- A change of files, which leaves their names and inodes alone. -/
def Disk.modify (disk : Disk) (p : File → Bool) (g : File → List UInt8 × Int) : Disk :=
  { disk with
    files := disk.files.map (File.change p g)
    names := by
      intro f hf
      obtain ⟨f₀, hf₀, rfl⟩ := List.mem_map.mp hf
      have hname : (f₀.change p g).name = f₀.name := congrArg Prod.snd (f₀.change_key p g)
      rw [hname]
      exact disk.names f₀ hf₀
    housed := by
      intro f hf
      obtain ⟨f₀, hf₀, rfl⟩ := List.mem_map.mp hf
      have hdir : (f₀.change p g).dir = f₀.dir := congrArg Prod.fst (f₀.change_key p g)
      rw [hdir]
      exact disk.housed f₀ hf₀
    unique := (map_change (File.change_key p g) disk.files).symm ▸ disk.unique
    used := by
      intro f hf
      obtain ⟨f₀, hf₀, rfl⟩ := List.mem_map.mp hf
      rw [f₀.change_inode p g]
      exact disk.used f₀ hf₀
    linked := (map_change (File.change_inode p g) disk.files).symm ▸ disk.linked }

/-- Why a file cannot be opened. -/
inductive OpenError where
  | noSuchDirectory
  | isDirectory
deriving DecidableEq, Repr

/-- `open` with `O_CREATE|O_TRUNC|O_WRONLY`: the inode of the file, new or cut to
nothing.  A path whose last element is not a name is one of a directory. -/
def Disk.openFile (disk : Disk) (now : Int) (dir name : String) : Except OpenError (Nat × Disk) :=
  if hn : IsName name.toList then
    if hd : dir ∈ disk.dirs then
      match hf : disk.find? dir name with
      | some f =>
          .ok (f.inode, disk.modify (fun g => g.dir = dir ∧ g.name = name) fun _ => ([], now))
      | none =>
          .ok (disk.inodes, { disk with
            files := disk.files ++ [⟨dir, name, disk.inodes, [], now⟩]
            inodes := disk.inodes + 1
            names := by
              intro f hmem
              rcases List.mem_append.mp hmem with hmem | hmem
              · exact disk.names f hmem
              · rw [List.mem_singleton.mp hmem]; exact hn
            housed := by
              intro f hmem
              rcases List.mem_append.mp hmem with hmem | hmem
              · exact disk.housed f hmem
              · rw [List.mem_singleton.mp hmem]; exact hd
            unique := by
              rw [List.map_append, List.map_singleton, ← List.concat_eq_append]
              refine List.Nodup.concat (fun hmem => ?_) disk.unique
              obtain ⟨f, hf₀, hk⟩ := List.mem_map.mp hmem
              exact Disk.find?_eq_none.mp hf f hf₀ ⟨congrArg Prod.fst hk, congrArg Prod.snd hk⟩
            used := by
              intro f hmem
              rcases List.mem_append.mp hmem with hmem | hmem
              · exact Nat.lt_succ_of_lt (disk.used f hmem)
              · rw [List.mem_singleton.mp hmem]; exact Nat.lt_succ_self _
            linked := by
              rw [List.map_append, List.map_singleton, ← List.concat_eq_append]
              refine List.Nodup.concat (fun hmem => ?_) disk.linked
              obtain ⟨f, hf₀, hi⟩ := List.mem_map.mp hmem
              have hlt := disk.used f hf₀
              rw [hi] at hlt
              exact lt_irrefl _ hlt })
    else .error .noSuchDirectory
  else .error .isDirectory

/-- `write` to an open file. -/
def Disk.write (disk : Disk) (now : Int) (inode : Nat) (bytes : List UInt8) : Disk :=
  disk.modify (fun f => f.inode = inode) fun f => (f.body ++ bytes, now)

/-- `unlink`. -/
def Disk.unlink (disk : Disk) (dir name : String) : Disk :=
  { disk with
    files := disk.files.filter fun f => ¬ (f.dir = dir ∧ f.name = name)
    names := fun f hf => disk.names f (List.mem_filter.mp hf).1
    housed := fun f hf => disk.housed f (List.mem_filter.mp hf).1
    unique := disk.unique.sublist (List.filter_sublist.map _)
    used := fun f hf => disk.used f (List.mem_filter.mp hf).1
    linked := disk.linked.sublist (List.filter_sublist.map _) }

/-! ## What the operations show -/

theorem Disk.find?_modify {p : File → Bool} {g : File → List UInt8 × Int} :
    (disk.modify p g).find? dir name = (disk.find? dir name).map (File.change p g) := by
  cases h : disk.find? dir name with
  | none =>
      rw [Option.map_none, Disk.find?_eq_none]
      intro f hf hk
      obtain ⟨f₀, hf₀, rfl⟩ := List.mem_map.mp hf
      refine Disk.find?_eq_none.mp h f₀ hf₀ ⟨?_, ?_⟩
      · rw [← hk.1]; exact (congrArg Prod.fst (f₀.change_key p g)).symm
      · rw [← hk.2]; exact (congrArg Prod.snd (f₀.change_key p g)).symm
  | some f =>
      obtain ⟨hf, rfl, rfl⟩ := Disk.find?_eq_some.mp h
      rw [Option.map_some, Disk.find?_eq_some]
      exact ⟨List.mem_map.mpr ⟨f, hf, rfl⟩, congrArg Prod.fst (f.change_key p g),
        congrArg Prod.snd (f.change_key p g)⟩

/-- An opened file is empty and new, and the other files are as they were. -/
theorem Disk.openFile_ok (h : disk.openFile now dir name = .ok (inode, disk')) :
    disk'.dirs = disk.dirs ∧ dir ∈ disk.dirs ∧ IsName name.toList ∧
      disk'.find? dir name = some ⟨dir, name, inode, [], now⟩ ∧
      ∀ dir' name', ¬ (dir' = dir ∧ name' = name) →
        disk'.find? dir' name' = disk.find? dir' name' := by
  unfold Disk.openFile at h
  split at h
  · next hn =>
      split at h
      · next hd =>
          split at h
          · next f hf =>
              cases h
              obtain ⟨hmem, hdir, hname⟩ := Disk.find?_eq_some.mp hf
              refine ⟨rfl, hd, hn, ?_, fun dir' name' hne => ?_⟩
              · rw [Disk.find?_modify, hf]
                subst hdir hname
                simp [File.change]
              · rw [Disk.find?_modify]
                cases hf' : disk.find? dir' name' with
                | none => rfl
                | some g =>
                    obtain ⟨_, rfl, rfl⟩ := Disk.find?_eq_some.mp hf'
                    simp [File.change, hne]
          · next hf =>
              cases h
              refine ⟨rfl, hd, hn, ?_, fun dir' name' hne => ?_⟩
              · rw [Disk.find?_eq_some]
                exact ⟨List.mem_append_right _ (List.mem_singleton_self _), rfl, rfl⟩
              · simp only [Disk.find?, List.find?_append]
                have hnew : ¬ (dir = dir' ∧ name = name') := fun he =>
                  hne ⟨he.1.symm, he.2.symm⟩
                simp [hnew]
      · cases h
  · cases h

/-- A file is opened where its directory is there. -/
theorem Disk.openFile_of_mem (now : Int) (hd : dir ∈ disk.dirs) (hn : IsName name.toList) :
    ∃ r, disk.openFile now dir name = .ok r := by
  unfold Disk.openFile
  rw [dif_pos hn, dif_pos hd]
  split <;> exact ⟨_, rfl⟩

theorem Disk.find?_write {bytes : List UInt8} :
    (disk.write now inode bytes).find? dir name = (disk.find? dir name).map fun f =>
      if f.inode = inode then { f with body := f.body ++ bytes, mtime := now } else f := by
  rw [Disk.write, Disk.find?_modify]
  refine congrArg (Option.map · _) (funext fun f => ?_)
  simp only [File.change, decide_eq_true_eq]

/-- What is written goes to one file. -/
theorem Disk.find?_write_of_ne {bytes : List UInt8} (h : disk.find? dir name = some f)
    (hne : ¬ (dir' = dir ∧ name' = name)) :
    (disk.write now f.inode bytes).find? dir' name' = disk.find? dir' name' := by
  rw [Disk.find?_write]
  cases h' : disk.find? dir' name' with
  | none => rfl
  | some g =>
      obtain ⟨hf, rfl, rfl⟩ := Disk.find?_eq_some.mp h
      obtain ⟨hg, rfl, rfl⟩ := Disk.find?_eq_some.mp h'
      have hinode : g.inode ≠ f.inode := by
        intro he
        have hgf := List.inj_on_of_nodup_map disk.linked hg hf he
        exact hne ⟨congrArg File.dir hgf, congrArg File.name hgf⟩
      rw [Option.map_some, if_neg hinode]

theorem Disk.find?_unlink_of_ne (hne : ¬ (dir' = dir ∧ name' = name)) :
    (disk.unlink dir name).find? dir' name' = disk.find? dir' name' := by
  cases h : disk.find? dir' name' with
  | none =>
      rw [Disk.find?_eq_none] at h ⊢
      exact fun f hf => h f (List.mem_filter.mp hf).1
  | some g =>
      rw [Disk.find?_eq_some] at h ⊢
      obtain ⟨hg, rfl, rfl⟩ := h
      exact ⟨List.mem_filter.mpr ⟨hg, decide_eq_true hne⟩, rfl, rfl⟩

/-- A directory that is there is found. -/
theorem Disk.openFile_ne_noSuchDirectory (now : Int) (name : String) (h : dir ∈ disk.dirs) :
    disk.openFile now dir name ≠ .error .noSuchDirectory := by
  unfold Disk.openFile
  simp only [dif_pos h]
  split
  · split <;> exact nofun
  · exact nofun

/-! ## What an operation keeps of a directory -/

/-- The directory `dir` and its files are still there, their times not put back. -/
def Disk.Keeps (now : Int) (dir : String) (disk disk' : Disk) : Prop :=
  (dir ∈ disk.dirs → dir ∈ disk'.dirs) ∧
    ∀ name f, disk.find? dir name = some f →
      ∃ f', disk'.find? dir name = some f' ∧ (f'.mtime = f.mtime ∨ f'.mtime = now)

theorem Disk.Keeps.refl (now : Int) (dir : String) (disk : Disk) : Disk.Keeps now dir disk disk :=
  ⟨id, fun _ f hf => ⟨f, hf, Or.inl rfl⟩⟩

theorem Disk.keeps_mkdir : Disk.Keeps now dir disk (disk.mkdir dir') :=
  ⟨Disk.mem_mkdir_of_mem, fun _ f hf => ⟨f, by rw [Disk.find?_mkdir, hf], Or.inl rfl⟩⟩

theorem Disk.keeps_rmdir (hne : dir ≠ dir') : Disk.Keeps now dir disk (disk.rmdir dir') :=
  ⟨fun h => Disk.mem_rmdir_of_ne h hne,
    fun _ f hf => ⟨f, by rw [Disk.find?_rmdir, hf], Or.inl rfl⟩⟩

theorem Disk.keeps_unlink (hne : dir ≠ dir') : Disk.Keeps now dir disk (disk.unlink dir' name') :=
  ⟨id, fun _ f hf =>
    ⟨f, by rw [Disk.find?_unlink_of_ne fun h => hne h.1, hf], Or.inl rfl⟩⟩

theorem Disk.keeps_write {bytes : List UInt8} :
    Disk.Keeps now dir disk (disk.write now inode bytes) := by
  refine ⟨id, fun name f hf => ⟨_, by rw [Disk.find?_write, hf]; rfl, ?_⟩⟩
  dsimp only
  split
  · exact Or.inr rfl
  · exact Or.inl rfl

theorem Disk.keeps_openFile (h : disk.openFile now dir' name' = .ok (inode, disk')) :
    Disk.Keeps now dir disk disk' := by
  obtain ⟨hdirs, _, _, hfile, hother⟩ := Disk.openFile_ok h
  refine ⟨fun hd => hdirs ▸ hd, fun name f hf => ?_⟩
  by_cases he : dir = dir' ∧ name = name'
  · obtain ⟨rfl, rfl⟩ := he
    exact ⟨_, hfile, Or.inr rfl⟩
  · exact ⟨f, by rw [hother dir name he, hf], Or.inl rfl⟩

/-- `rmdir` leaves a directory with a file alone. -/
theorem Disk.rmdir_of_file (h : disk.find? dir name = some f) : disk.rmdir dir = disk := by
  obtain ⟨hf, hdir, _⟩ := Disk.find?_eq_some.mp h
  unfold Disk.rmdir
  exact dif_neg fun he => he f hf hdir

end Disks
