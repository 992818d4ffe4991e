import Signalium.Lib.Disks
import Signalium.Service.Enqueue

/-!
# Downloads

`DownloadAll` of `internal/storage/object_store.go`, on a store and a disk that
do what they are asked to.  Each object of a row goes into a file of the
directory of the message, under the last element of its key.

The files of one call share a directory, so what it returns is right for each
object exactly when the last elements of the keys are distinct
(`downloadAll_exact_iff`).
-/

namespace Signalium

open Disks

/-! ## The calls -/

/-- `ObjectRef`. -/
structure ObjectRef where
  bucket : String
  key : String
deriving DecidableEq, Repr

/-- `toRefs` of the worker. -/
def toRefs (att : List Attachment) : List ObjectRef :=
  att.map fun a => { bucket := a.bucket, key := a.filename }

/-- The file name of an object: `filepath.Base` of its key. -/
def ObjectRef.base (ref : ObjectRef) : String :=
  String.ofList (Signalium.base '/' '.' ref.key.toList)

/-- The path of a file, `filepath.Join` of the directory of the message and the
name. -/
def localPath (tmpDir : String) (messageID : UUID) (name : String) : String :=
  String.ofList (Paths.join [Paths.join [tmpDir.toList, messageID.toList], name.toList])

/-- The content of the file at a path. -/
def readPath (tmpDir : String) (disk : Disk) (path : String) : Option (List UInt8) :=
  (disk.files.find? fun f => localPath tmpDir f.dir f.name = path).map File.body

/-- The errors of `downloadOne`. -/
inductive DownloadError where
  | openDst (cause : OpenError)
  /-- A missing object shows when it is read, with the file already there. -/
  | copy
deriving DecidableEq, Repr

/-- `downloadOne`.  The file is named by its base name; its directory is that of
the message. -/
def downloadOne (o : Objects) (now : Int) (messageID : UUID) (ref : ObjectRef) (disk : Disk) :
    Except DownloadError String × Disk :=
  match disk.openFile now messageID ref.base with
  | .error e => (.error (.openDst e), disk)
  | .ok (inode, disk₁) =>
      match o ref.bucket ref.key with
      | none => (.error .copy, disk₁)
      | some x => (.ok ref.base, disk₁.write now inode x.body)

/-- `cleanupBestEffort`. -/
def cleanupBestEffort (messageID : UUID) (names : List String) (disk : Disk) : Disk :=
  (names.foldl (fun d name => d.unlink messageID name) disk).rmdir messageID

/-- The loop of `DownloadAll`. -/
def downloadLoop (o : Objects) (now : Int) (messageID : UUID) :
    List ObjectRef → List String → Disk → Except DownloadError (List String) × Disk
  | [], names, disk => (.ok names, disk)
  | ref :: refs, names, disk =>
      match downloadOne o now messageID ref disk with
      | (.error e, disk') => (.error e, cleanupBestEffort messageID names disk')
      | (.ok name, disk') => downloadLoop o now messageID refs (names ++ [name]) disk'
termination_by structural refs => refs

/-- `DownloadAll`: the paths of the files, in the order of the references. -/
def downloadAll (tmpDir : String) (o : Objects) (now : Int) (messageID : UUID)
    (refs : List ObjectRef) (disk : Disk) : Except DownloadError (List String) × Disk :=
  if refs = [] then (.ok [], disk)
  else
    let r := downloadLoop o now messageID refs [] (disk.mkdir messageID)
    (r.1.map fun names => names.map (localPath tmpDir messageID), r.2)

variable {o : Objects} {now : Int} {messageID : UUID} {refs : List ObjectRef} {ref : ObjectRef}
  {disk disk' : Disk} {names names' : List String} {tmpDir : String}

/-! ## Paths -/

/-- The file name of the key `id/name`. -/
theorem ObjectRef.base_of_name {name : String} (h : Paths.IsName name.toList) (bucket : String)
    (id : UUID) : (ObjectRef.mk bucket (id ++ "/" ++ name)).base = name := by
  have hkey : (id ++ "/" ++ name : String).toList = id.toList ++ '/' :: name.toList := by simp
  rw [ObjectRef.base]
  simp only [hkey]
  rw [base_append h.1 h.2.1, String.ofList_toList]

theorem localPath_inj {messageID' : UUID} {name name' : String}
    (hm : Paths.IsName messageID.toList) (hn : Paths.IsName name.toList)
    (hm' : Paths.IsName messageID'.toList) (hn' : Paths.IsName name'.toList)
    (h : localPath tmpDir messageID name = localPath tmpDir messageID' name') :
    messageID = messageID' ∧ name = name' := by
  obtain ⟨he, he'⟩ := Paths.join_join_inj tmpDir.toList hm hn hm' hn' (String.ofList_injective h)
  exact ⟨String.toList_injective he, String.toList_injective he'⟩

/-- The path of a file reads the file. -/
theorem readPath_eq {name : String} {f : File} (h : disk.find? messageID name = some f) :
    readPath tmpDir disk (localPath tmpDir messageID name) = some f.body := by
  obtain ⟨hf, rfl, rfl⟩ := Disk.find?_eq_some.mp h
  have hnames : ∀ g ∈ disk.files, Paths.IsName g.dir.toList ∧ Paths.IsName g.name.toList :=
    fun g hg => ⟨disk.dirNames _ (disk.housed g hg), disk.names g hg⟩
  unfold readPath
  cases hfind : disk.files.find? fun g =>
      localPath tmpDir g.dir g.name = localPath tmpDir f.dir f.name with
  | none => simpa using List.find?_eq_none.mp hfind f hf
  | some g =>
      have hg := List.mem_of_find?_eq_some hfind
      have hpath : localPath tmpDir g.dir g.name = localPath tmpDir f.dir f.name := by
        simpa using List.find?_some hfind
      obtain ⟨hdir, hname⟩ := localPath_inj (hnames g hg).1 (hnames g hg).2 (hnames f hf).1
        (hnames f hf).2 hpath
      rw [disk.file_unique hg hf (Prod.ext hdir hname), Option.map_some]

/-! ## The loop -/

/-- What a download that succeeds has done. -/
theorem downloadOne_ok {name : String}
    (h : downloadOne o now messageID ref disk = (.ok name, disk')) :
    name = ref.base ∧ messageID ∈ disk'.dirs ∧ Paths.IsName ref.base.toList ∧
      (∃ x f, o ref.bucket ref.key = some x ∧ disk'.find? messageID ref.base = some f ∧
        f.body = x.body) ∧
      ∀ name', name' ≠ ref.base → disk'.find? messageID name' = disk.find? messageID name' := by
  unfold downloadOne at h
  split at h
  · cases h
  · next inode disk₁ hopen =>
      obtain ⟨hdirs, hdir, hname, hfile, hother⟩ := Disk.openFile_ok hopen
      split at h
      · cases h
      · next x hx =>
          cases h
          refine ⟨rfl, hdirs ▸ hdir, hname,
            ⟨x, _, hx, by rw [Disk.find?_write, hfile]; rfl, ?_⟩, ?_⟩
          · simp
          · intro name' hne
            rw [Disk.find?_write_of_ne hfile fun h => hne h.2]
            exact hother messageID name' fun h => hne h.2

/-- A download succeeds where the directory is there and the object is. -/
theorem downloadOne_succeeds (now : Int) {x : Object} (hdir : messageID ∈ disk.dirs)
    (hname : Paths.IsName ref.base.toList) (hx : o ref.bucket ref.key = some x) :
    ∃ disk', downloadOne o now messageID ref disk = (.ok ref.base, disk') := by
  obtain ⟨⟨inode, disk₁⟩, hopen⟩ := Disk.openFile_of_mem now hdir hname
  exact ⟨_, by unfold downloadOne; rw [hopen]; simp only [hx]; rfl⟩

/-- One turn of the loop. -/
theorem downloadLoop_cons : downloadLoop o now messageID (ref :: refs) names disk =
    match downloadOne o now messageID ref disk with
    | (.error e, disk') => (.error e, cleanupBestEffort messageID names disk')
    | (.ok name, disk') => downloadLoop o now messageID refs (names ++ [name]) disk' := by
  rfl

/-- The names the loop returns. -/
theorem downloadLoop_names : ∀ (refs : List ObjectRef) {names names' : List String}
    {disk disk' : Disk}, downloadLoop o now messageID refs names disk = (.ok names', disk') →
      names' = names ++ refs.map ObjectRef.base
  | [], names, names', disk, disk', h => by cases h; simp
  | ref :: refs, names, names', disk, disk', h => by
      rw [downloadLoop_cons] at h
      split at h
      · cases h
      · next name disk₁ hone =>
          rw [downloadLoop_names refs h, (downloadOne_ok hone).1]
          simp

/-- The loop succeeds where every object is there, and keeps the files whose names
it does not write. -/
theorem downloadLoop_succeeds (now : Int) :
    ∀ (refs : List ObjectRef) (names : List String) (disk : Disk),
    messageID ∈ disk.dirs →
    (∀ ref ∈ refs, Paths.IsName ref.base.toList ∧ ∃ x, o ref.bucket ref.key = some x) →
    ∃ names' disk', downloadLoop o now messageID refs names disk = (.ok names', disk') ∧
      (∀ name, name ∉ refs.map ObjectRef.base →
        disk'.find? messageID name = disk.find? messageID name) ∧
      ((refs.map ObjectRef.base).Nodup → ∀ ref ∈ refs, ∀ x, o ref.bucket ref.key = some x →
        ∃ f, disk'.find? messageID ref.base = some f ∧ f.body = x.body)
  | [], names, disk, _, _ => ⟨names, disk, rfl, fun _ _ => rfl, by simp⟩
  | ref :: refs, names, disk, hdir, hrefs => by
      obtain ⟨hname, x, hx⟩ := hrefs ref List.mem_cons_self
      obtain ⟨disk₁, hone⟩ := downloadOne_succeeds now hdir hname hx
      obtain ⟨_, hdir₁, _, ⟨x', f, hx', hf, hbody⟩, hother⟩ := downloadOne_ok hone
      obtain ⟨names', disk', hloop, hkeep, hfiles⟩ :=
        downloadLoop_succeeds now refs (names ++ [ref.base]) disk₁ hdir₁
          fun r hr => hrefs r (List.mem_cons_of_mem ref hr)
      refine ⟨names', disk', by rw [downloadLoop_cons, hone]; exact hloop, ?_, ?_⟩
      · intro name hnot
        rw [List.map_cons, List.mem_cons, not_or] at hnot
        rw [hkeep name hnot.2, hother name hnot.1]
      · intro hnodup r hr y hy
        rw [List.map_cons, List.nodup_cons] at hnodup
        rcases List.mem_cons.mp hr with rfl | hr
        · -- The later files have other names, so this one stays.
          rw [hx] at hy hx'
          cases hy
          cases hx'
          exact ⟨f, by rw [hkeep _ hnodup.1, hf], hbody⟩
        · exact hfiles hnodup.2 r hr y hy

/-! ## `DownloadAll` -/

/-- The call returns one path for each body, all different, and the file at each
path holds its body. -/
def Exact (tmpDir : String) (bodies : List (List UInt8))
    (r : Except DownloadError (List String) × Disk) : Prop :=
  ∃ paths, r.1 = .ok paths ∧ paths.length = bodies.length ∧ paths.Nodup ∧
    ∀ (i : Nat) path body, paths[i]? = some path → bodies[i]? = some body →
      readPath tmpDir r.2 path = some body

/-- The paths `DownloadAll` returns. -/
theorem downloadAll_paths {paths : List String}
    (h : (downloadAll tmpDir o now messageID refs disk).1 = .ok paths) :
    paths = (refs.map ObjectRef.base).map (localPath tmpDir messageID) := by
  unfold downloadAll at h
  split at h
  · next hnil => cases h; rw [hnil]; rfl
  · simp only at h
    cases hloop : downloadLoop o now messageID refs [] (disk.mkdir messageID) with
    | mk r disk' =>
        rw [hloop] at h
        cases r with
        | error e => cases h
        | ok names =>
            cases h
            rw [downloadLoop_names refs hloop, List.nil_append]

/-- `DownloadAll` succeeds where every object is there. -/
theorem downloadAll_succeeds (tmpDir : String) (now : Int) (disk : Disk)
    (hm : Paths.IsName messageID.toList)
    (hrefs : ∀ ref ∈ refs, Paths.IsName ref.base.toList ∧ ∃ x, o ref.bucket ref.key = some x) :
    ∃ disk', downloadAll tmpDir o now messageID refs disk =
        (.ok ((refs.map ObjectRef.base).map (localPath tmpDir messageID)), disk') ∧
      ((refs.map ObjectRef.base).Nodup → ∀ ref ∈ refs, ∀ x, o ref.bucket ref.key = some x →
        readPath tmpDir disk' (localPath tmpDir messageID ref.base) = some x.body) := by
  by_cases hnil : refs = []
  · subst hnil
    exact ⟨disk, rfl, by simp⟩
  · obtain ⟨names, disk', hloop, _, hfiles⟩ :=
      downloadLoop_succeeds now refs [] (disk.mkdir messageID) (Disk.mem_mkdir hm) hrefs
    have hnames := downloadLoop_names refs hloop
    rw [List.nil_append] at hnames
    subst hnames
    refine ⟨disk', by rw [downloadAll, if_neg hnil]; simp only [hloop]; rfl, ?_⟩
    intro hnodup ref href x hx
    obtain ⟨f, hf, hbody⟩ := hfiles hnodup ref href x hx
    rw [readPath_eq hf, hbody]

/-- Let the last elements of the keys be names, and the objects be in the store if
these names are distinct.  Then `DownloadAll` is exact if and only if they are. -/
theorem downloadAll_exact_iff {objects : List Object} (hm : Paths.IsName messageID.toList)
    (hnames : ∀ ref ∈ refs, Paths.IsName ref.base.toList)
    (hstored : (refs.map ObjectRef.base).Nodup →
      refs.map (fun ref => o ref.bucket ref.key) = objects.map some) :
    Exact tmpDir (objects.map Object.body) (downloadAll tmpDir o now messageID refs disk) ↔
      (refs.map ObjectRef.base).Nodup := by
  constructor
  · rintro ⟨paths, hok, _, hnodup, _⟩
    rw [downloadAll_paths hok] at hnodup
    exact hnodup.of_map _
  · intro hnodup
    have hobj := hstored hnodup
    have hget : ∀ (i : Nat) ref, refs[i]? = some ref →
        ∃ x, objects[i]? = some x ∧ o ref.bucket ref.key = some x := by
      intro i ref hi
      have hi' := congrArg (fun l => l[i]?) hobj
      simp only [List.getElem?_map, hi, Option.map_some] at hi'
      obtain ⟨x, hx, he⟩ := Option.map_eq_some_iff.mp hi'.symm
      exact ⟨x, hx, he.symm⟩
    obtain ⟨disk', hall, hfiles⟩ := downloadAll_succeeds tmpDir now disk hm fun ref href => by
      obtain ⟨i, hi⟩ := List.mem_iff_getElem?.mp href
      obtain ⟨x, _, hx⟩ := hget i ref hi
      exact ⟨hnames ref href, x, hx⟩
    rw [hall]
    refine ⟨_, rfl, ?_, ?_, ?_⟩
    · have hlen := congrArg List.length hobj
      simpa using hlen
    · refine List.Nodup.map_on ?_ hnodup
      intro a ha b hb hab
      obtain ⟨ra, hra, rfl⟩ := List.mem_map.mp ha
      obtain ⟨rb, hrb, rfl⟩ := List.mem_map.mp hb
      exact (localPath_inj hm (hnames ra hra) hm (hnames rb hrb) hab).2
    · intro i path body hpath hbody
      simp only [List.getElem?_map, Option.map_map] at hpath hbody
      obtain ⟨ref, hi, rfl⟩ := Option.map_eq_some_iff.mp hpath
      obtain ⟨x, hx, hox⟩ := hget i ref hi
      rw [hx] at hbody
      cases hbody
      exact hfiles hnodup ref (List.mem_of_getElem? hi) x hox

end Signalium
