import Signalium.Lib.Chains
import Signalium.Db.Atlas

/-!
# What the checksums of `atlas.sum` accept

Atlas writes `atlas.sum` from a migration directory: a line with the checksum of
the directory, then one line per file, in the order of the names, with a
snapshot of one hasher that reads name and body of each file.  The binary is
shipped with that text and with `.sql` files of its own, and `readAtlasSum` and
`pendingMigrations` compare the two.

The runner walks through the files it has, not through the lines of
`atlas.sum`, and it skips the line of the directory.  So a file that is recorded
and not there is noticed only if a later one is (`verify_ok_iff`): the
verification passes for every initial part of the recorded directory, down to
one with no files at all.  A file in the middle can be missing too, where the
next one begins with its bytes.  And a name without an underscore, or with white
space in it, is refused although it is recorded (`verify_names`).  With these
apart the verification is exact (`checksums_exact_iff`).
-/

namespace Signalium

open Chains

/-! ## `atlas.sum` as Atlas writes it -/

/-- A text without white space in it. -/
def Solid (s : List Char) : Prop := ∀ c ∈ s, isSpace c = false

instance (s : List Char) : Decidable (Solid s) :=
  List.decidableBAll (fun c => isSpace c = false) s

/-- A checksum as `atlas.sum` has it: injective, in a text without white space. -/
structure Checksum where
  digest : List UInt8 → String
  injective : Function.Injective digest
  noSpace : ∀ bytes, Solid (digest bytes).toList

/-- A migration directory as Atlas sees it: its `.sql` files in the order of their
names. -/
structure MigrationDir where
  files : List (String × List UInt8)
  ordered : Ordered files
  sql : ∀ f ∈ files, ".sql".toList.isSuffixOf f.1.toList = true

/-- The checksum of each file. -/
def MigrationDir.hashes (dir : MigrationDir) (sum : Checksum) : List (String × String) :=
  snapshots nameBytes sum.digest [] dir.files

/-- The line of a file. -/
def hashLine (h : String × String) : List Char := h.1.toList ++ ' ' :: ("h1:".toList ++ h.2.toList)

/-- The lines of `atlas.sum`.  The first one is the checksum of the others. -/
def MigrationDir.sumLines (dir : MigrationDir) (sum : Checksum) : List (List Char) :=
  ("h1:".toList ++
    (sum.digest ((dir.hashes sum).flatMap fun h => nameBytes h.1 ++ nameBytes h.2)).toList) ::
  (dir.hashes sum).map hashLine

/-- The text of `atlas.sum`.  Every line ends in a newline. -/
def MigrationDir.atlasSum (dir : MigrationDir) (sum : Checksum) : String :=
  String.ofList ((dir.sumLines sum).flatMap fun line => line ++ ['\n'])

/-- The names of the files are those of migrations: a version before an underscore, and
no white space. -/
def MigrationDir.WellNamed (dir : MigrationDir) : Prop :=
  ∀ f ∈ dir.files, '_' ∈ f.1.toList ∧ Solid f.1.toList

instance (dir : MigrationDir) : Decidable dir.WellNamed :=
  List.decidableBAll (fun f : String × List UInt8 => '_' ∈ f.1.toList ∧ Solid f.1.toList)
    dir.files

/-! ## Reading it back -/

theorem Solid.append {s t : List Char} (hs : Solid s) (ht : Solid t) : Solid (s ++ t) :=
  fun c hc => (List.mem_append.mp hc).elim (hs c) (ht c)

theorem Solid.newline_not_mem {s : List Char} (h : Solid s) : '\n' ∉ s := fun hc =>
  absurd (h '\n' hc) (by decide)

/-- The checksum of a line. -/
theorem solid_h1 {s : String} (h : Solid s.toList) : Solid ("h1:".toList ++ s.toList) :=
  Solid.append (by decide) h

/-- A line that says something at its end, and ends there. -/
structure IsLine (line : List Char) : Prop where
  newline_not_mem : '\n' ∉ line
  ne_nil : line ≠ []
  last : ∀ c ∈ line.getLast?, isSpace c = false

theorem Solid.isLine {line : List Char} (h : Solid line) (hne : line ≠ []) : IsLine line :=
  ⟨h.newline_not_mem, hne, fun c hc => h c (List.mem_of_getLast? hc)⟩

theorem IsLine.append {line : List Char} (h : IsLine line) {s : List Char} (hs : '\n' ∉ s) :
    IsLine (s ++ line) := by
  refine ⟨?_, by simp [h.ne_nil], ?_⟩
  · simpa using ⟨hs, h.newline_not_mem⟩
  · rw [List.getLast?_append_of_ne_nil _ h.ne_nil]
    exact h.last

theorem isLine_hashLine {h : String × String} (hname : Solid h.1.toList) (hsum : Solid h.2.toList) :
    IsLine (hashLine h) := by
  have hline : IsLine ("h1:".toList ++ h.2.toList) := (solid_h1 hsum).isLine (by simp)
  have hno : '\n' ∉ h.1.toList ++ [' '] := by simpa using hname.newline_not_mem
  rw [hashLine, ← List.singleton_append, ← List.append_assoc]
  exact hline.append hno

/-- Lines with a newline after each, and the same lines joined. -/
theorem flatMap_newline {line : List Char} {lines : List (List Char)} :
    ((line :: lines).flatMap fun l => l ++ ['\n']) =
      ['\n'].intercalate (line :: lines) ++ ['\n'] := by
  induction lines generalizing line with
  | nil => simp
  | cons next lines ih =>
      rw [List.flatMap_cons, ih, List.intercalate_cons_cons]
      simp only [List.append_assoc]

theorem isLine_intercalate {line : List Char} {lines : List (List Char)}
    (h : ∀ l ∈ line :: lines, IsLine l) :
    ['\n'].intercalate (line :: lines) ≠ [] ∧
      ∀ c ∈ (['\n'].intercalate (line :: lines)).getLast?, isSpace c = false := by
  induction lines generalizing line with
  | nil => simpa using ⟨(h line List.mem_cons_self).ne_nil, (h line List.mem_cons_self).last⟩
  | cons next lines ih =>
      obtain ⟨hne, hlast⟩ := ih fun l hl => h l (List.mem_cons_of_mem line hl)
      rw [List.intercalate_cons_cons]
      refine ⟨by simp, ?_⟩
      rw [List.getLast?_append_of_ne_nil _ hne]
      exact hlast

theorem head?_intercalate {line : List Char} {lines : List (List Char)} (hne : line ≠ []) :
    (['\n'].intercalate (line :: lines)).head? = line.head? := by
  cases lines with
  | nil => simp
  | cons next lines =>
      rw [List.intercalate_cons_cons, List.append_assoc, List.head?_append_of_ne_nil _ hne]

/-- `TrimSpace` takes the last newline away and nothing else. -/
theorem trimSpace_newline {s : List Char} (hfirst : ∀ c ∈ s.head?, isSpace c = false)
    (hlast : ∀ c ∈ s.getLast?, isSpace c = false) (hne : s ≠ []) :
    trimSpace (s ++ ['\n']) = s := by
  obtain ⟨x, xs, rfl⟩ := List.exists_cons_of_ne_nil hne
  have hdrop : (x :: xs ++ ['\n']).dropWhile isSpace = x :: xs ++ ['\n'] := by
    simp [hfirst x rfl]
  rw [trimSpace, hdrop, List.rdropWhile_concat_pos isSpace _ _ (by decide),
    List.rdropWhile_eq_self_iff]
  intro hl
  rw [hlast _ (List.getLast?_eq_some_getLast hl)]
  decide

theorem fields_hashLine {h : String × String} (hname : Solid h.1.toList) (hne : h.1 ≠ "")
    (hsum : Solid h.2.toList) :
    fields (hashLine h) = [h.1.toList, "h1:".toList ++ h.2.toList] := by
  have hname' : h.1.toList ≠ [] := fun hc => hne (String.toList_eq_nil_iff.mp hc)
  rw [fields, hashLine, List.splitOnP_append_cons _ _ (by decide), List.splitOnP_eq_singleton hname,
    List.splitOnP_eq_singleton (solid_h1 hsum)]
  simp [hname']

theorem trimH1_h1 (s : List Char) : trimH1 ("h1:".toList ++ s) = s := by
  simp [trimH1]

/-- The lines of files are read as they were written, a later one first. -/
theorem atlasLines_hashLine {hs : List (String × String)}
    (hsolid : ∀ h ∈ hs, Solid h.1.toList ∧ h.1 ≠ "" ∧ Solid h.2.toList) (i : Nat) (out : Sums) :
    atlasLines i (hs.map hashLine) out = .ok (hs.reverse ++ out) := by
  induction hs generalizing i out with
  | nil => rfl
  | cons h hs ih =>
      obtain ⟨hname, hne, hsum⟩ := hsolid h List.mem_cons_self
      rw [List.map_cons, atlasLines, fields_hashLine hname hne hsum]
      simp only [trimH1_h1, String.ofList_toList]
      rw [ih fun h' hh' => hsolid h' (List.mem_cons_of_mem h hh')]
      simp

/-- `Fields` returns texts without white space. -/
theorem solid_of_mem_fields {s f : List Char} (h : f ∈ fields s) : Solid f := by
  have hsplit : ∀ s : List Char, ∀ f ∈ s.splitOnP isSpace, Solid f := by
    intro s
    induction s with
    | nil =>
        intro f hf
        rw [List.splitOnP_nil, List.mem_singleton] at hf
        rw [hf]
        exact fun c hc => by cases hc
    | cons c s ih =>
        intro f hf
        rw [List.splitOnP_cons_eq_if_modifyHead] at hf
        split at hf
        · rcases List.mem_cons.mp hf with rfl | hf
          · exact fun c hc => by cases hc
          · exact ih f hf
        · next hc =>
            cases hrest : s.splitOnP isSpace with
            | nil => exact absurd hrest (List.splitOnP_ne_nil _ _)
            | cons g gs =>
                rw [hrest, List.modifyHead_cons] at hf
                rw [hrest] at ih
                rcases List.mem_cons.mp hf with rfl | hf
                · intro x hx
                  rcases List.mem_cons.mp hx with rfl | hx
                  · simpa using hc
                  · exact ih g List.mem_cons_self x hx
                · exact ih f (List.mem_cons_of_mem g hf)
  exact hsplit s f (List.mem_filter.mp h).1

/-- Whatever the text, the names that are read from it have no white space. -/
theorem atlasLines_solid {i : Nat} {lines : List (List Char)} {out sums : Sums}
    (h : atlasLines i lines out = .ok sums) (hout : ∀ p ∈ out, Solid p.1.toList) :
    ∀ p ∈ sums, Solid p.1.toList := by
  induction lines generalizing i out with
  | nil =>
      cases h
      exact hout
  | cons line lines ih =>
      rw [atlasLines] at h
      split at h
      · next name hash hfields =>
          refine ih h fun p hp => ?_
          rcases List.mem_cons.mp hp with rfl | hp
          · rw [String.toList_ofList]
            exact solid_of_mem_fields (s := line) (by rw [hfields]; exact List.mem_cons_self)
          · exact hout p hp
      · cases h

theorem readAtlasSum_solid {fs : EmbedFS} {sums : Sums} (h : readAtlasSum fs = .ok sums) :
    ∀ p ∈ sums, Solid p.1.toList := by
  rw [readAtlasSum] at h
  split at h
  · cases h
  · exact atlasLines_solid h fun p hp => by cases hp

section Read

variable {dir : MigrationDir} {sum : Checksum} {fs : EmbedFS}

theorem MigrationDir.solid_of_mem (hd : dir.WellNamed) {h : String × String}
    (hh : h ∈ dir.hashes sum) : Solid h.1.toList ∧ h.1 ≠ "" ∧ Solid h.2.toList := by
  obtain ⟨before, body, after, hfiles, hsum⟩ := (mem_snapshots []).mp hh
  obtain ⟨hunder, hsolid⟩ := hd (h.1, body) (by rw [hfiles]; simp)
  refine ⟨hsolid, ?_, ?_⟩
  · intro hempty
    rw [hempty] at hunder
    cases hunder
  · rw [hsum]
    exact sum.noSpace _

/-- The binary reads the checksums that were recorded. -/
theorem readAtlasSum_atlasSum (hd : dir.WellNamed)
    (hfs : fs.atlasSum = some (dir.atlasSum sum)) :
    readAtlasSum fs = .ok (dir.hashes sum).reverse := by
  have hsolid : Solid ("h1:".toList ++
      (sum.digest ((dir.hashes sum).flatMap fun h => nameBytes h.1 ++ nameBytes h.2)).toList) :=
    solid_h1 (sum.noSpace _)
  have hlines : ∀ l ∈ dir.sumLines sum, IsLine l := by
    intro l hl
    rcases List.mem_cons.mp hl with rfl | hl
    · exact hsolid.isLine (by simp)
    · obtain ⟨h, hh, rfl⟩ := List.mem_map.mp hl
      obtain ⟨hname, _, hsum⟩ := MigrationDir.solid_of_mem hd hh
      exact isLine_hashLine hname hsum
  rw [readAtlasSum, hfs]
  simp only [MigrationDir.atlasSum, String.toList_ofList]
  rw [MigrationDir.sumLines] at hlines ⊢
  obtain ⟨hne, hlast⟩ := isLine_intercalate hlines
  rw [flatMap_newline, trimSpace_newline _ hlast hne,
    List.splitOn_intercalate _ (fun l hl => (hlines l hl).newline_not_mem) (List.cons_ne_nil _ _),
    List.tail_cons, atlasLines_hashLine (fun h hh => MigrationDir.solid_of_mem hd hh),
    List.append_nil]
  rw [head?_intercalate (by simp)]
  exact fun c hc => hsolid c (List.mem_of_mem_head? hc)

end Read

/-! ## The files of the binary -/

/-- The files with these names, as the binary has them. -/
def EmbedFS.Holds (fs : EmbedFS) (names : List String) (parts : List (String × List UInt8)) :
    Prop :=
  names.map (fun name => (name, fs.readFile name)) = parts.map fun p => (p.1, some p.2)

/-- The binary has exactly the files of the directory, with exactly their contents. -/
structure SameFiles (dir : MigrationDir) (fs : EmbedFS) : Prop where
  names : ∀ name, name ∈ fs.globSql ↔ ∃ body, (name, body) ∈ dir.files
  bodies : ∀ f ∈ dir.files, fs.readFile f.1 = some f.2

section Verify

variable {digest : List UInt8 → String} {dir : MigrationDir} {sum : Checksum} {fs : EmbedFS}
  {sums : Sums} {name : String} {names : List String} {running : List UInt8}
  {parts : List (String × List UInt8)}

theorem EmbedFS.holds_cons : fs.Holds (name :: names) parts ↔
    ∃ body rest, parts = (name, body) :: rest ∧ fs.readFile name = some body ∧
      fs.Holds names rest := by
  constructor
  · intro h
    cases parts with
    | nil => cases h
    | cons p rest =>
        injection h with hp hrest
        injection hp with hname hbody
        exact ⟨p.2, rest, by rw [hname], hbody, hrest⟩
  · rintro ⟨body, rest, rfl, hbody, hrest⟩
    rw [EmbedFS.Holds, List.map_cons, List.map_cons, hbody, hrest]

/-- What the loop asks of one file. -/
theorem pendingLoop_cons_ok :
    (∃ files, pendingLoop digest fs sums [] (name :: names) running = .ok files) ↔
      '_' ∈ name.toList ∧ ∃ body, fs.readFile name = some body ∧
        sums.lookup name = some (digest (running ++ nameBytes name ++ body)) ∧
        ∃ files, pendingLoop digest fs sums [] names (running ++ nameBytes name ++ body) =
          .ok files := by
  rw [pendingLoop]
  by_cases hunder : '_' ∈ name.toList
  · rw [if_neg (not_not.mpr hunder)]
    cases hread : fs.readFile name with
    | none => simp
    | some body =>
        cases hlook : sums.lookup name with
        | none => simp
        | some want =>
            simp only [hunder, true_and, Option.some.injEq, exists_eq_left']
            generalize running ++ nameBytes name ++ body = read
            by_cases hwant : digest read = want
            · rw [if_neg (not_not.mpr hwant)]
              cases pendingLoop digest fs sums [] names read <;> simp [hwant, Except.map]
            · rw [if_pos hwant]
              simp [Ne.symm hwant]
  · simp [hunder]

/-- The loop passes exactly when every file can be read, has an underscore in its name
and has the checksum recorded under it. -/
theorem pendingLoop_ok_iff :
    (∃ files, pendingLoop digest fs sums [] names running = .ok files) ↔
      (∀ name ∈ names, '_' ∈ name.toList) ∧ ∃ parts, fs.Holds names parts ∧
        Accepts nameBytes digest (fun name => sums.lookup name) running parts := by
  induction names generalizing running with
  | nil =>
      refine ⟨fun _ => ⟨by simp, [], rfl, trivial⟩, fun _ => ⟨[], rfl⟩⟩
  | cons name names ih =>
      rw [pendingLoop_cons_ok]
      constructor
      · rintro ⟨hunder, body, hread, hlook, hrest⟩
        obtain ⟨hunders, rest, hholds, hacc⟩ := ih.mp hrest
        exact ⟨by simpa [hunder] using hunders, (name, body) :: rest,
          EmbedFS.holds_cons.mpr ⟨body, rest, rfl, hread, hholds⟩, hlook, hacc⟩
      · rintro ⟨hunder, parts, hholds, hacc⟩
        obtain ⟨body, rest, rfl, hread, hrest⟩ := EmbedFS.holds_cons.mp hholds
        refine ⟨hunder name List.mem_cons_self, body, hread, hacc.1,
          ih.mpr ⟨?_, rest, hrest, hacc.2⟩⟩
        exact fun n hn => hunder n (List.mem_cons_of_mem name hn)

theorem EmbedFS.migrations_ordered (fs : EmbedFS) : fs.migrations.Pairwise (· < ·) := by
  have hle : fs.migrations.Pairwise (· ≤ ·) := List.pairwise_insertionSort _ _
  have hne : fs.migrations.Pairwise (· ≠ ·) := fs.migrations_nodup
  exact (hle.and hne).imp fun h => lt_of_le_of_ne h.1 h.2

theorem EmbedFS.Holds.names_eq (h : fs.Holds names parts) : parts.map Prod.fst = names := by
  have hfst := congrArg (List.map Prod.fst) h
  simpa [Function.comp_def] using hfst.symm

/-- The checksums that were recorded, as the runner looks them up. -/
theorem MigrationDir.lookup_hashes (dir : MigrationDir) (sum : Checksum) (name hash : String) :
    (dir.hashes sum).reverse.lookup name = some hash ↔
      ∃ before body after, dir.files = before ++ (name, body) :: after ∧
        hash = sum.digest (stream nameBytes (before ++ [(name, body)])) := by
  have hnodup : ((dir.hashes sum).reverse.map Prod.fst).Nodup := by
    rw [List.map_reverse, List.nodup_reverse, MigrationDir.hashes, map_fst_snapshots]
    exact dir.ordered.imp fun h => h.ne
  rw [lookup_eq_some_iff_mem hnodup, List.mem_reverse, MigrationDir.hashes, mem_snapshots]
  simp only [List.nil_append]

/-- The binary's files are absorbed by those of the directory: each of them, name and body,
has the bytes of the recorded files from where the one before it ended up to its own. -/
def Absorbed (dir : MigrationDir) (fs : EmbedFS) : Prop :=
  ∃ parts, fs.Holds fs.migrations parts ∧ Absorbs nameBytes dir.files parts

/-- **What the verification accepts**: the files of the binary are absorbed by those that
were recorded. -/
theorem verify_ok_iff (hd : dir.WellNamed) (hfs : fs.atlasSum = some (dir.atlasSum sum)) :
    (∃ files, verify sum.digest fs = .ok files) ↔ Absorbed dir fs := by
  have hiff : ∀ {parts}, fs.Holds fs.migrations parts →
      (Accepts nameBytes sum.digest (fun name => (dir.hashes sum).reverse.lookup name) [] parts ↔
        Absorbs nameBytes dir.files parts) := by
    intro parts hholds
    have hparts : Ordered parts := by
      rw [Ordered, hholds.names_eq]
      exact fs.migrations_ordered
    have hsplit : dir.files = [] ++ dir.files := rfl
    exact accepts_iff_absorbs sum.injective dir.ordered (dir.lookup_hashes sum) hsplit hparts
      (by simp)
  rw [verify, readAtlasSum_atlasSum hd hfs]
  simp only [pendingMigrations]
  rw [pendingLoop_ok_iff]
  constructor
  · rintro ⟨_, parts, hholds, hacc⟩
    exact ⟨parts, hholds, (hiff hholds).mp hacc⟩
  · rintro ⟨parts, hholds, habs⟩
    refine ⟨fun name hname => ?_, parts, hholds, (hiff hholds).mpr habs⟩
    rw [← hholds.names_eq] at hname
    obtain ⟨p, hp, rfl⟩ := List.mem_map.mp hname
    obtain ⟨body, hmem⟩ := habs.name_mem hp
    exact (hd _ hmem).1

/-- **What the verification refuses**, whatever was recorded: a name without an underscore,
and one with white space, which is not found among the names that are read. -/
theorem verify_names {files : List MigrationFile} (h : verify digest fs = .ok files) :
    ∀ name ∈ fs.migrations, '_' ∈ name.toList ∧ Solid name.toList := by
  obtain ⟨⟨sums, hsums⟩, _⟩ := verify_ok h
  rw [verify, hsums] at h
  obtain ⟨hunder, parts, hholds, hacc⟩ := pendingLoop_ok_iff.mp ⟨files, h⟩
  intro name hname
  refine ⟨hunder name hname, ?_⟩
  rw [← hholds.names_eq] at hname
  obtain ⟨p, hp, rfl⟩ := List.mem_map.mp hname
  obtain ⟨q, hq, hkey⟩ := List.lookup_isSome_iff.mp (hacc.find_isSome hp)
  rw [eq_of_beq hkey]
  exact readAtlasSum_solid hsums q hq

/-- The same files, as a list. -/
theorem sameFiles_iff : SameFiles dir fs ↔ fs.Holds fs.migrations dir.files := by
  have hperm := List.perm_insertionSort (· ≤ ·) fs.globSql
  constructor
  · rintro ⟨hnames, hbodies⟩
    have hmem : ∀ name, name ∈ fs.migrations ↔ name ∈ dir.files.map Prod.fst := by
      intro name
      rw [EmbedFS.migrations, hperm.mem_iff, hnames, List.mem_map]
      exact ⟨fun ⟨body, h⟩ => ⟨_, h, rfl⟩, fun ⟨f, h, he⟩ => ⟨f.2, he ▸ h⟩⟩
    have hnodup : (dir.files.map Prod.fst).Nodup := dir.ordered.imp fun h => h.ne
    have heq : fs.migrations = dir.files.map Prod.fst :=
      List.Perm.eq_of_pairwise (fun _ _ _ _ hab hba => absurd hba hab.asymm)
        fs.migrations_ordered dir.ordered
        ((List.perm_ext_iff_of_nodup fs.migrations_nodup hnodup).mpr hmem)
    rw [EmbedFS.Holds, heq, List.map_map]
    refine List.map_congr_left fun f hf => ?_
    rw [Function.comp_apply, hbodies f hf]
  · intro h
    have hnames := h.names_eq
    refine ⟨fun name => ?_, fun f hf => ?_⟩
    · rw [← hperm.mem_iff, ← EmbedFS.migrations, ← hnames, List.mem_map]
      exact ⟨fun ⟨f, h, he⟩ => ⟨f.2, he ▸ h⟩, fun ⟨body, h⟩ => ⟨_, h, rfl⟩⟩
    · have hmem : (f.1, some f.2) ∈ fs.migrations.map fun name => (name, fs.readFile name) := by
        rw [h]
        exact List.mem_map.mpr ⟨f, hf, rfl⟩
      obtain ⟨name, _, he⟩ := List.mem_map.mp hmem
      injection he with hname hbody
      rw [← hname, hbody]

end Verify

/-! ## How exact the verification is -/

/-- `readAtlasSum` and `pendingMigrations` report no error, whatever has been applied. -/
def NoVerificationError (digest : List UInt8 → String) (fs : EmbedFS) : Prop :=
  ∃ sums, readAtlasSum fs = .ok sums ∧
    ∀ applied, ∃ pending, pendingMigrations digest fs sums applied = .ok pending

theorem noVerificationError_iff {digest : List UInt8 → String} {fs : EmbedFS} :
    NoVerificationError digest fs ↔ ∃ files, verify digest fs = .ok files := by
  constructor
  · rintro ⟨sums, hsums, hpending⟩
    obtain ⟨files, h⟩ := hpending []
    exact ⟨files, by rw [verify, hsums]; exact h⟩
  · rintro ⟨files, h⟩
    obtain ⟨⟨sums, hsums⟩, _⟩ := verify_ok h
    refine ⟨sums, hsums, fun applied => ?_⟩
    rw [pendingMigrations_eq applied hsums, h]
    exact ⟨_, rfl⟩

/-- The verification is exact for the binary: it passes if and only if the files are those
of the directory. -/
def ExactFor (dir : MigrationDir) (sum : Checksum) (fs : EmbedFS) : Prop :=
  NoVerificationError sum.digest fs ↔ SameFiles dir fs

/-- The binary of the directory itself: its files, and its `atlas.sum`. -/
def MigrationDir.embedded (dir : MigrationDir) (sum : Checksum) : EmbedFS where
  atlasSum := some (dir.atlasSum sum)
  entries := dir.files.map fun f => (f.1, some f.2)
  unique := by
    rw [List.map_map]
    exact dir.ordered.imp fun h => h.ne

section Exact

variable {dir : MigrationDir} {sum : Checksum} {fs : EmbedFS}

theorem sameFiles_embedded (dir : MigrationDir) (sum : Checksum) :
    SameFiles dir (dir.embedded sum) where
  names := by
    intro name
    simp only [EmbedFS.globSql, MigrationDir.embedded, List.map_map, List.mem_filter, List.mem_map]
    constructor
    · rintro ⟨⟨f, hf, rfl⟩, _⟩
      exact ⟨f.2, hf⟩
    · rintro ⟨body, hf⟩
      exact ⟨⟨(name, body), hf, rfl⟩, dir.sql _ hf⟩
  bodies := by
    intro f hf
    have hmem : (f.1, some f.2) ∈ (dir.embedded sum).entries := List.mem_map.mpr ⟨f, hf, rfl⟩
    rw [EmbedFS.readFile, (lookup_eq_some_iff_mem (dir.embedded sum).unique).mpr hmem]
    rfl

/-- The verification passes for the directory itself only if its names can be read. -/
theorem SameFiles.wellNamed (h : SameFiles dir fs) (hok : NoVerificationError sum.digest fs) :
    dir.WellNamed := by
  obtain ⟨files, hverify⟩ := noVerificationError_iff.mp hok
  intro f hf
  refine verify_names hverify f.1 ?_
  rw [← (sameFiles_iff.mp h).names_eq]
  exact List.mem_map_of_mem hf

/-- What is the same is absorbed. -/
theorem SameFiles.absorbed (h : SameFiles dir fs) : Absorbed dir fs :=
  ⟨dir.files, sameFiles_iff.mp h, absorbs_self _⟩

/-- Where the names can be read, the verification errs about the files it absorbs. -/
theorem exactFor_iff (hd : dir.WellNamed) (hfs : fs.atlasSum = some (dir.atlasSum sum)) :
    ExactFor dir sum fs ↔ SameFiles dir fs ∨ ¬ Absorbed dir fs := by
  rw [ExactFor, noVerificationError_iff, verify_ok_iff hd hfs]
  constructor
  · intro h
    by_cases habs : Absorbed dir fs
    · exact Or.inl (h.mp habs)
    · exact Or.inr habs
  · rintro (hsame | habs)
    · exact iff_of_true hsame.absorbed hsame
    · exact iff_of_false habs fun hsame => habs hsame.absorbed

/-- For every directory and every binary shipped with its `atlas.sum`: the verification is
exact for the directory itself and for this binary if and only if every name of the
directory has an underscore and no white space, and the binary has the files of the
directory or is not absorbed by them.  Where no name of a file begins another one, what is
absorbed is the initial parts: a binary that lacks files at the end passes. -/
theorem checksums_exact_iff (hfs : fs.atlasSum = some (dir.atlasSum sum)) :
    (ExactFor dir sum (dir.embedded sum) ∧ ExactFor dir sum fs ↔
      dir.WellNamed ∧ (SameFiles dir fs ∨ ¬ Absorbed dir fs)) ∧
    (PrefixFree nameBytes dir.files → ∀ parts,
      Absorbs nameBytes dir.files parts ↔ parts <+: dir.files) := by
  have hown := sameFiles_embedded dir sum
  refine ⟨⟨?_, ?_⟩, fun hfree parts => absorbs_iff_initial dir.ordered hfree⟩
  · rintro ⟨hself, hexact⟩
    have hd : dir.WellNamed := hown.wellNamed (hself.mpr hown)
    exact ⟨hd, (exactFor_iff hd hfs).mp hexact⟩
  · rintro ⟨hd, hcond⟩
    exact ⟨(exactFor_iff hd rfl).mpr (Or.inl hown), (exactFor_iff hd hfs).mpr hcond⟩

end Exact

/-- There is no white space between `U+0100` and `U+01FF`. -/
theorem isSpace_of_letter {c : Char} (hlow : 0x100 ≤ c.toNat) (hhigh : c.toNat < 0x200) :
    isSpace c = false := by
  rw [isSpace, Bool.or_eq_false_iff, decide_eq_false_iff_not]
  constructor
  · simp only [List.mem_cons, List.not_mem_nil, or_false]
    rintro (rfl | rfl | rfl | rfl | rfl | rfl | rfl | rfl | rfl | rfl | rfl | rfl | rfl | rfl) <;>
      revert hlow hhigh <;> decide
  · have hlt : ¬ '\u2000' ≤ c := fun h => by
      have hnat : ('\u2000').toNat ≤ c.toNat := h
      exact absurd (hnat.trans_lt hhigh) (by decide)
    simp [hlt]

/-- A checksum for tests: one character for each byte, none of them a space. -/
def byteChecksum : Checksum where
  digest bytes := String.ofList (bytes.map fun b => Char.ofNat (b.toNat + 256))
  injective := by
    intro bytes bytes' h
    refine List.map_injective_iff.mpr (fun b b' hb => ?_) (String.ofList_injective h)
    have hlt := b.toNat_lt
    have hlt' := b'.toNat_lt
    have hnat := congrArg Char.toNat hb
    rw [toNat_ofNat_of_lt (by omega), toNat_ofNat_of_lt (by omega)] at hnat
    exact UInt8.toNat_inj.mp (Nat.add_right_cancel hnat)
  noSpace := by
    intro bytes c hc
    rw [String.toList_ofList] at hc
    obtain ⟨b, _, rfl⟩ := List.mem_map.mp hc
    have hlt := b.toNat_lt
    have hnat : (Char.ofNat (b.toNat + 256)).toNat = b.toNat + 256 := toNat_ofNat_of_lt (by omega)
    exact isSpace_of_letter (by omega) (by omega)

/-- Two migrations. -/
def bothFiles : MigrationDir where
  files := [("1_a.sql", [97]), ("2_b.sql", [98])]
  ordered := by decide
  sql := by decide

/-- A binary with these files, shipped with the `atlas.sum` of the two. -/
def shipped (entries : List (String × Option (List UInt8)))
    (unique : (entries.map Prod.fst).Nodup) : EmbedFS :=
  ⟨some (bothFiles.atlasSum byteChecksum), entries, unique⟩

/-- Both files, as they were recorded, pass. -/
theorem bothFiles_verified :
    let fs := shipped [("1_a.sql", some [97]), ("2_b.sql", some [98])] (by decide)
    SameFiles bothFiles fs ∧ NoVerificationError byteChecksum.digest fs := by
  intro fs
  have hholds : fs.Holds fs.migrations bothFiles.files := rfl
  have hsame : SameFiles bothFiles fs := sameFiles_iff.mpr hholds
  have hnamed : bothFiles.WellNamed := by decide
  have hsum : fs.atlasSum = some (bothFiles.atlasSum byteChecksum) := rfl
  obtain ⟨_, hexact⟩ := (checksums_exact_iff hsum).1.mpr ⟨hnamed, Or.inl hsame⟩
  exact ⟨hsame, hexact.mpr hsame⟩

/-- The first file alone passes as well: the second one is recorded, and missing. -/
theorem firstFile_verified :
    let fs := shipped [("1_a.sql", some [97])] (by decide)
    NoVerificationError byteChecksum.digest fs ∧ ¬ SameFiles bothFiles fs := by
  intro fs
  have hholds : fs.Holds fs.migrations [("1_a.sql", [97])] := rfl
  have hnamed : bothFiles.WellNamed := by decide
  have hsum : fs.atlasSum = some (bothFiles.atlasSum byteChecksum) := rfl
  refine ⟨?_, fun hsame => ?_⟩
  · rw [noVerificationError_iff, verify_ok_iff hnamed hsum]
    exact ⟨_, hholds, [], [97], _, rfl, rfl, trivial⟩
  · exact absurd ((hsame.names "2_b.sql").mpr ⟨[98], by decide⟩) (by decide)

end Signalium
