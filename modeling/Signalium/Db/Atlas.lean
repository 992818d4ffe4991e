import Mathlib.Data.List.DropRight
import Mathlib.Data.List.Sort
import Mathlib.Data.String.Basic
import Signalium.Service.Enqueue

/-!
# Embedded migrations

`readAtlasSum` and `pendingMigrations` of `internal/db/migrate.go`.  The `.sql`
files of the embedded directory are verified in the order of their names, each
against a checksum of everything up to it, and those whose version is recorded
are left out of the result.  A version is the part of the name before the first
underscore.

The checksum, `sha256` in base64, is a parameter.  No result depends on what it
computes.

All files are verified whatever has been applied.  So `pendingMigrations` is one
verification of the directory, `verify`, and then a choice by version
(`pendingMigrations_eq`).
-/

namespace Signalium

/-- An error of the package, with its cause and its safe parameters. -/
inductive MigrateError where
  /-- Of the driver or of the embedded files. -/
  | cause (e : String)
  | error (message : String) (params : List (String × String))
  | wrap (e : MigrateError) (message : String) (params : List (String × String))
deriving DecidableEq, Repr

/-! ## The embedded directory -/

/-- `migrations.FS`: the text of `atlas.sum`, and the other entries of the root.  An
entry without a body is a directory. -/
structure EmbedFS where
  atlasSum : Option String
  entries : List (String × Option (List UInt8))
  unique : (entries.map Prod.fst).Nodup

/-- `FS.ReadFile`. -/
def EmbedFS.readFile (fs : EmbedFS) (name : String) : Option (List UInt8) :=
  (fs.entries.lookup name).join

/-- `Glob` with the pattern `*.sql`. -/
def EmbedFS.globSql (fs : EmbedFS) : List String :=
  (fs.entries.map Prod.fst).filter fun name => ".sql".toList.isSuffixOf name.toList

/-- The migrations in the order of `sort.Strings`. -/
def EmbedFS.migrations (fs : EmbedFS) : List String := fs.globSql.insertionSort (· ≤ ·)

/-- The part of a name before the first underscore. -/
def versionOf (name : String) : String := String.ofList (name.toList.takeWhile (· ≠ '_'))

/-! ## `atlas.sum` -/

/-- `strings.TrimSpace`. -/
def trimSpace (s : List Char) : List Char := (s.dropWhile isSpace).rdropWhile isSpace

/-- `strings.Fields`. -/
def fields (s : List Char) : List (List Char) := (s.splitOnP isSpace).filter (· ≠ [])

/-- `strings.TrimPrefix(field, "h1:")`. -/
def trimH1 (field : List Char) : List Char :=
  if "h1:".toList.isPrefixOf field then field.drop 3 else field

/-- The checksum of each file, that of a later line first. -/
abbrev Sums := List (String × String)

/-- The loop of `readAtlasSum`, from line number `i`. -/
def atlasLines : Nat → List (List Char) → Sums → Except MigrateError Sums
  | _, [], out => .ok out
  | i, line :: lines, out =>
      match fields line with
      | [name, hash] =>
          atlasLines (i + 1) lines ((String.ofList name, String.ofList (trimH1 hash)) :: out)
      | _ => .error (.error "malformed atlas.sum line" [("lineNum", toString (i + 1))])
termination_by structural _ lines => lines

/-- `readAtlasSum`.  The first line is the checksum of the directory. -/
def readAtlasSum (fs : EmbedFS) : Except MigrateError Sums :=
  match fs.atlasSum with
  | none => .error (.wrap (.cause "file does not exist") "read atlas.sum" [])
  | some raw => atlasLines 1 ((trimSpace raw.toList).splitOn '\n').tail []

/-! ## Pending migrations -/

/-- `migrationFile`. -/
structure MigrationFile where
  filename : String
  version : String
  body : List UInt8
  expected : String
deriving DecidableEq, Repr

/-- The loop of `pendingMigrations`.  What the running hash has read is `running`. -/
def pendingLoop (digest : List UInt8 → String) (fs : EmbedFS) (sums : Sums)
    (applied : List String) :
    List String → List UInt8 → Except MigrateError (List MigrationFile)
  | [], _ => .ok []
  | name :: names, running =>
      if '_' ∉ name.toList then
        .error (.error "migration filename missing version prefix" [("filename", name)])
      else
        match fs.readFile name, sums.lookup name with
        | none, _ =>
            .error (.wrap (.cause "is a directory") "read embedded migration" [("filename", name)])
        | some _, none =>
            .error (.error "migration not present in atlas.sum (run `make migrate-hash`)"
              [("filename", name)])
        | some body, some want =>
            let got := digest (running ++ nameBytes name ++ body)
            if got ≠ want then
              .error (.error "migration content hash mismatch (atlas.sum stale)"
                [("filename", name), ("expected", want), ("actual", got)])
            else
              (pendingLoop digest fs sums applied names (running ++ nameBytes name ++ body)).map
                fun pending =>
                  if versionOf name ∈ applied then pending
                  else ⟨name, versionOf name, body, want⟩ :: pending
termination_by structural names => names

/-- `pendingMigrations`, with the versions it has read from the table. -/
def pendingMigrations (digest : List UInt8 → String) (fs : EmbedFS) (sums : Sums)
    (applied : List String) : Except MigrateError (List MigrationFile) :=
  pendingLoop digest fs sums applied fs.migrations []

/-- The verification: what a run finds that has nothing recorded. -/
def verify (digest : List UInt8 → String) (fs : EmbedFS) :
    Except MigrateError (List MigrationFile) :=
  match readAtlasSum fs with
  | .error e => .error e
  | .ok sums => pendingMigrations digest fs sums []

variable {digest : List UInt8 → String} {fs : EmbedFS} {sums : Sums} {files : List MigrationFile}

/-! ## What the loop computes -/

/-- The versions that are recorded decide what is left out, and nothing else. -/
theorem pendingLoop_eq (applied : List String) : ∀ (names : List String) (running : List UInt8),
    pendingLoop digest fs sums applied names running =
      (pendingLoop digest fs sums [] names running).map
        (List.filter fun m => m.version ∉ applied)
  | [], _ => rfl
  | name :: names, running => by
      simp only [pendingLoop]
      split
      · rfl
      · split
        · rfl
        · rfl
        · split
          · rfl
          · rw [pendingLoop_eq applied names]
            cases pendingLoop digest fs sums [] names _ with
            | error e => rfl
            | ok ms =>
                simp only [Except.map, List.not_mem_nil, if_false, List.filter_cons]
                by_cases hv : versionOf name ∈ applied <;> simp [hv]

/-- The loop finds every file, under its version and with its body. -/
theorem pendingLoop_ok : ∀ (names : List String) (running : List UInt8)
    {files : List MigrationFile}, pendingLoop digest fs sums [] names running = .ok files →
      files.map MigrationFile.filename = names ∧
        ∀ m ∈ files, m.version = versionOf m.filename ∧ fs.readFile m.filename = some m.body
  | [], _, files, h => by cases h; simp
  | name :: names, running, files, h => by
      simp only [pendingLoop] at h
      split at h
      · cases h
      · split at h
        · cases h
        · cases h
        · next body want hbody _ =>
            split at h
            · cases h
            · cases hrest : pendingLoop digest fs sums [] names
                (running ++ nameBytes name ++ body) with
              | error e => rw [hrest] at h; cases h
              | ok ms =>
                  rw [hrest] at h
                  cases h
                  obtain ⟨hnames, hms⟩ := pendingLoop_ok names _ hrest
                  refine ⟨by simp [hnames], fun m hm => ?_⟩
                  rcases List.mem_cons.mp (by simpa using hm) with rfl | hm
                  · exact ⟨rfl, hbody⟩
                  · exact hms m hm

/-- What `pendingMigrations` returns, by what the verification has found. -/
theorem pendingMigrations_eq (applied : List String) (hsums : readAtlasSum fs = .ok sums) :
    pendingMigrations digest fs sums applied =
      (verify digest fs).map (List.filter fun m => m.version ∉ applied) := by
  rw [verify, hsums]
  exact pendingLoop_eq applied fs.migrations []

theorem verify_ok (h : verify digest fs = .ok files) :
    (∃ sums, readAtlasSum fs = .ok sums) ∧ files.map MigrationFile.filename = fs.migrations ∧
      ∀ m ∈ files, m.version = versionOf m.filename ∧ fs.readFile m.filename = some m.body := by
  unfold verify at h
  split at h
  · cases h
  · next sums hsums => exact ⟨⟨sums, hsums⟩, pendingLoop_ok fs.migrations [] h⟩

theorem EmbedFS.migrations_nodup (fs : EmbedFS) : fs.migrations.Nodup := by
  have hglob : fs.globSql.Nodup := fs.unique.filter _
  exact (List.perm_insertionSort _ _).nodup_iff.mpr hglob

end Signalium
