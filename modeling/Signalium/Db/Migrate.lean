import Signalium.Db.Atlas
import Signalium.Lib.Places
import Signalium.Lib.Runs
import Signalium.Lib.Tables

/-!
# Booting replicas

`runMigrations`, `ensureRevisionTable` and `applyOne` of `internal/db/migrate.go`,
executed by any number of replicas on one database.  All of them are built from
one directory and use one lock key.  A restart of a replica is a new boot.

Every call of the database is one step.  It succeeds, fails without having been
executed, or is executed and its reply is lost.  The session of a boot can die
at any time, and with it go the advisory lock and an open transaction; the later
calls of the boot then fail.  A boot that crashes takes its session along.

A body and the row that records it are in one transaction, so both take effect
at the commit.  A body is not looked into: it runs in that transaction or fails.
-/

namespace Signalium

open Runs Tables

/-! ## The database -/

/-- A row of `schema_migrations`. -/
structure Revision where
  version : String
  filename : String
  contentHash : String
deriving DecidableEq, Repr

/-- The table, with its primary key. -/
abbrev Revisions := Table Revision.version List.Nodup

/-- The row that `applyOne` inserts. -/
def MigrationFile.revision (m : MigrationFile) : Revision := ⟨m.version, m.filename, m.expected⟩

/-- The database as far as the migrations use it. -/
structure Database where
  revisions : Revisions
  /-- History: the migrations whose bodies have been committed. -/
  log : List MigrationFile
  /-- The boot whose session holds the advisory lock. -/
  holder : Option Nat

def Database.versions (db : Database) : List String := db.revisions.rows.map Revision.version

/-- The commit of a migration.  It is not possible while another one with the same
version has been committed. -/
def Database.commit (db : Database) (m : MigrationFile) : Option Database :=
  if h : ((db.revisions.rows ++ [m.revision]).map Revision.version).Nodup then
    some { db with revisions := db.revisions.insert m.revision h, log := db.log ++ [m] }
  else none

/-- The session of boot `i` gives up the lock, if it has it. -/
def Database.release (db : Database) (i : Nat) : Database :=
  { db with holder := if db.holder = some i then none else db.holder }

/-! ## One boot -/

/-- Before which call a boot is. -/
inductive BootPc where
  | acquiring
  | locking
  | ensuring
  | listing (sums : Sums)
  | iterating (sums : Sums) (applied : List String)
  | beginning (m : MigrationFile) (rest : List MigrationFile)
  | executing (m : MigrationFile) (rest : List MigrationFile)
  | recording (m : MigrationFile) (rest : List MigrationFile)
  | committing (m : MigrationFile) (rest : List MigrationFile)
  /-- The deferred unlock; the result is known. -/
  | unlocking (r : Except MigrateError Unit)
  | returned (r : Except MigrateError Unit)
  | crashed
deriving DecidableEq, Repr

/-- One execution of `runMigrations`. -/
structure Boot where
  autoRun : Bool
  /-- Its session is alive. -/
  alive : Bool
  pc : BootPc
deriving DecidableEq, Repr

/-- What all replicas are built from and configured with. -/
structure Binary where
  fs : EmbedFS
  digest : List UInt8 → String
  lockKey : Int

/-- The head of the loop in `runMigrations`. -/
def applyNext : List MigrationFile → BootPc
  | [] => .unlocking (.ok ())
  | m :: rest => .beginning m rest

/-- `applyOne` returns an error.  The transaction is rolled back. -/
def applyFailed (m : MigrationFile) (message e : String) : BootPc :=
  .unlocking (.error (.wrap (.wrap (.cause e) message []) "apply migration"
    [("version", m.version), ("filename", m.filename)]))

/-- What a boot does when a call returns an error.  A failed unlock is only logged. -/
def BootPc.onError (bin : Binary) (e : String) : BootPc → Option BootPc
  | .acquiring => some (.returned (.error (.wrap (.cause e) "acquire conn for migration" [])))
  | .locking =>
      some (.returned (.error (.wrap (.cause e) "acquire migration advisory lock"
        [("lockKey", toString bin.lockKey)])))
  | .ensuring => some (.unlocking (.error (.wrap (.cause e) "ensure schema_migrations table" [])))
  | .listing _ => some (.unlocking (.error (.wrap (.cause e) "list applied migrations" [])))
  | .iterating _ _ => some (.unlocking (.error (.wrap (.cause e) "iter applied migrations" [])))
  | .beginning m _ => some (applyFailed m "begin migration tx" e)
  | .executing m _ => some (applyFailed m "exec migration body" e)
  | .recording m _ => some (applyFailed m "record applied migration" e)
  | .committing m _ => some (applyFailed m "commit migration tx" e)
  | .unlocking r => some (.returned r)
  | .returned _ | .crashed => none

/-- What a boot does when a call succeeds.  The insert of a version that is recorded
breaks the primary key. -/
def BootPc.onSuccess (bin : Binary) (db : Database) : BootPc → Option BootPc
  | .acquiring => some .locking
  | .locking => some .ensuring
  | .ensuring =>
      match readAtlasSum bin.fs with
      | .error e => some (.unlocking (.error e))
      | .ok sums => some (.listing sums)
  | .listing sums => some (.iterating sums db.versions)
  | .iterating sums applied =>
      match pendingMigrations bin.digest bin.fs sums applied with
      | .error e => some (.unlocking (.error e))
      | .ok pending => some (applyNext pending)
  | .beginning m rest => some (.executing m rest)
  | .executing m rest => some (.recording m rest)
  | .recording m rest =>
      if m.version ∈ db.versions then
        some (applyFailed m "record applied migration" "duplicate key value")
      else some (.committing m rest)
  | .committing _ rest => some (applyNext rest)
  | .unlocking r => some (.returned r)
  | .returned _ | .crashed => none

/-- What a call of boot `i` does to the database.  `pg_advisory_lock` waits for the
lock. -/
def BootPc.execute (i : Nat) (db : Database) : BootPc → Option Database
  | .locking => if db.holder = none then some { db with holder := some i } else none
  | .committing m _ => db.commit m
  | .unlocking _ => some (db.release i)
  | _ => some db

/-! ## The cluster -/

/-- The database and the boots so far. -/
structure Cluster where
  db : Database
  boots : List Boot

/-- Nothing is recorded, and nobody has booted. -/
def Cluster.init : Cluster := ⟨⟨⟨[], by decide⟩, [], none⟩, []⟩

/-- The end of a call. -/
inductive CallReply where
  | ok
  /-- Executed, with an error as the reply. -/
  | lost (e : String)
  /-- Not executed. -/
  | failed (e : String)
deriving DecidableEq, Repr

inductive ClusterLabel where
  | boot (autoRun : Bool)
  | call (i : Nat) (r : CallReply)
  | sessionDies (i : Nat)
  | crash (i : Nat)
deriving DecidableEq, Repr

/-- A new boot.  Without auto-run it returns at once. -/
def Boot.new (autoRun : Bool) : Boot :=
  ⟨autoRun, true, if autoRun then .acquiring else .returned (.ok ())⟩

/-- The next call of boot `i`. -/
def Cluster.call (bin : Binary) (s : Cluster) (i : Nat) (b : Boot) : CallReply → Option Cluster
  | .ok =>
      if b.alive then
        (b.pc.execute i s.db).bind fun db =>
          (b.pc.onSuccess bin s.db).map fun pc => ⟨db, s.boots.set i { b with pc }⟩
      else none
  | .lost e =>
      if b.alive then
        (b.pc.execute i s.db).bind fun db =>
          (b.pc.onError bin e).map fun pc => ⟨db, s.boots.set i { b with pc }⟩
      else none
  | .failed e => (b.pc.onError bin e).map fun pc => ⟨s.db, s.boots.set i { b with pc }⟩

/-- The boot has ended. -/
def BootPc.ended : BootPc → Bool
  | .returned _ | .crashed => true
  | _ => false

/-- One step of the cluster. -/
def Cluster.step (bin : Binary) (s : Cluster) : ClusterLabel → Option Cluster
  | .boot autoRun => some { s with boots := s.boots ++ [Boot.new autoRun] }
  | .call i r => s.boots[i]?.bind fun b => s.call bin i b r
  | .sessionDies i =>
      s.boots[i]?.map fun b => ⟨s.db.release i, s.boots.set i { b with alive := false }⟩
  | .crash i =>
      s.boots[i]?.bind fun b =>
        if b.pc.ended then none
        else some ⟨s.db.release i, s.boots.set i { b with alive := false, pc := .crashed }⟩

/-! ## What a step does -/

variable {bin : Binary} {s s' : Cluster} {a : ClusterLabel} {db db' : Database} {b : Boot}
  {i j : Nat} {pc pc' : BootPc} {m : MigrationFile} {rest : List MigrationFile}

/-- What a step of the cluster can do. -/
inductive ClusterMove (bin : Binary) (s : Cluster) : Cluster → Prop where
  | booted {autoRun : Bool} :
      ClusterMove bin s { s with boots := s.boots ++ [Boot.new autoRun] }
  | succeeded {i : Nat} {b : Boot} {db : Database} {pc : BootPc} : s.boots[i]? = some b →
      b.alive = true → b.pc.execute i s.db = some db → b.pc.onSuccess bin s.db = some pc →
      ClusterMove bin s ⟨db, s.boots.set i { b with pc }⟩
  | lost {i : Nat} {b : Boot} {db : Database} {e : String} {pc : BootPc} : s.boots[i]? = some b →
      b.alive = true → b.pc.execute i s.db = some db → b.pc.onError bin e = some pc →
      ClusterMove bin s ⟨db, s.boots.set i { b with pc }⟩
  | failed {i : Nat} {b : Boot} {e : String} {pc : BootPc} : s.boots[i]? = some b →
      b.pc.onError bin e = some pc →
      ClusterMove bin s ⟨s.db, s.boots.set i { b with pc }⟩
  | died {i : Nat} {b : Boot} : s.boots[i]? = some b →
      ClusterMove bin s ⟨s.db.release i, s.boots.set i { b with alive := false }⟩
  | crashed {i : Nat} {b : Boot} : s.boots[i]? = some b →
      ClusterMove bin s ⟨s.db.release i, s.boots.set i { b with alive := false, pc := .crashed }⟩

theorem Cluster.step_move (h : s.step bin a = some s') : ClusterMove bin s s' := by
  cases a with
  | boot autoRun => cases h; exact .booted
  | call i r =>
      obtain ⟨b, hb, hcall⟩ := Option.bind_eq_some_iff.mp h
      cases r with
      | ok =>
          simp only [Cluster.call] at hcall
          split at hcall
          · next hal =>
              obtain ⟨db, hdb, hmap⟩ := Option.bind_eq_some_iff.mp hcall
              obtain ⟨pc, hpc, rfl⟩ := Option.map_eq_some_iff.mp hmap
              exact .succeeded hb hal hdb hpc
          · cases hcall
      | lost e =>
          simp only [Cluster.call] at hcall
          split at hcall
          · next hal =>
              obtain ⟨db, hdb, hmap⟩ := Option.bind_eq_some_iff.mp hcall
              obtain ⟨pc, hpc, rfl⟩ := Option.map_eq_some_iff.mp hmap
              exact .lost hb hal hdb hpc
          · cases hcall
      | failed e =>
          obtain ⟨pc, hpc, rfl⟩ := Option.map_eq_some_iff.mp hcall
          exact .failed hb hpc
  | sessionDies i =>
      obtain ⟨b, hb, rfl⟩ := Option.map_eq_some_iff.mp h
      exact .died hb
  | crash i =>
      obtain ⟨b, hb, hif⟩ := Option.bind_eq_some_iff.mp h
      split at hif
      · cases hif
      · cases hif
        exact .crashed hb

theorem Database.commit_eq (h : db.commit m = some db') :
    db'.log = db.log ++ [m] ∧ db'.versions = db.versions ++ [m.version] ∧
      db'.holder = db.holder := by
  unfold Database.commit at h
  split at h
  · cases h
    exact ⟨rfl, by simp [Database.versions, Table.insert, MigrationFile.revision], rfl⟩
  · cases h

theorem Database.commit_of_fresh (h : m.version ∉ db.versions) : ∃ db', db.commit m = some db' := by
  have hnodup : ((db.revisions.rows ++ [m.revision]).map Revision.version).Nodup := by
    rw [List.map_append, List.map_singleton, ← List.concat_eq_append]
    exact List.Nodup.concat h db.revisions.valid
  exact ⟨_, dif_pos hnodup⟩

theorem Database.versions_nodup (db : Database) : db.versions.Nodup := db.revisions.valid

/-- Only a commit changes what is recorded. -/
theorem BootPc.execute_eq (h : pc.execute i db = some db') :
    db'.log = db.log ∧ db'.versions = db.versions ∨
      ∃ m rest, pc = .committing m rest ∧ db.commit m = some db' := by
  cases pc with
  | locking =>
      simp only [BootPc.execute] at h
      split at h
      · cases h; exact Or.inl ⟨rfl, rfl⟩
      · cases h
  | committing m rest => exact Or.inr ⟨m, rest, rfl, h⟩
  | unlocking r => cases h; exact Or.inl ⟨rfl, rfl⟩
  | _ => cases h; exact Or.inl ⟨rfl, rfl⟩

/-! ## The lock -/

/-- The boot is between its lock and its unlock. -/
def BootPc.holding : BootPc → Bool
  | .acquiring | .locking | .returned _ | .crashed => false
  | _ => true

/-- A boot with a live session between its lock and its unlock has the lock. -/
def Locked (s : Cluster) : Prop :=
  ∀ (i : Nat) (b : Boot), s.boots[i]? = some b → b.alive = true → b.pc.holding = true →
    s.db.holder = some i

theorem locked_init : Locked Cluster.init := by
  intro i b hb
  cases hb

/-- An error takes no lock. -/
theorem BootPc.onError_holding {e : String} (h : pc.onError bin e = some pc')
    (hh : pc'.holding = true) : pc.holding = true := by
  cases pc with
  | acquiring => cases h; cases hh
  | locking => cases h; cases hh
  | returned r => cases h
  | crashed => cases h
  | _ => rfl

theorem BootPc.onSuccess_holding (h : pc.onSuccess bin db = some pc')
    (hh : pc'.holding = true) : pc.holding = true ∨ pc = .locking := by
  cases pc with
  | acquiring => cases h; cases hh
  | locking => exact Or.inr rfl
  | returned r => cases h
  | crashed => cases h
  | _ => exact Or.inl rfl

theorem Database.release_holder (hij : j ≠ i) (h : db.holder = some j) :
    (db.release i).holder = some j := by
  have hne : db.holder ≠ some i := by rw [h]; exact fun h => hij (Option.some.inj h)
  exact (if_neg hne).trans h

/-- A call keeps the lock of its own boot, unless it is the unlock, and that of
another one. -/
theorem BootPc.execute_holder (h : pc.execute i db = some db') :
    (db.holder = some i → (∀ r, pc ≠ .unlocking r) → db'.holder = some i) ∧
      (∀ j, j ≠ i → db.holder = some j → db'.holder = some j) ∧
      (pc = .locking → db'.holder = some i) := by
  cases pc with
  | locking =>
      simp only [BootPc.execute] at h
      split at h
      · next hfree =>
          cases h
          refine ⟨fun _ _ => rfl, fun j _ hj => ?_, fun _ => rfl⟩
          rw [hfree] at hj
          cases hj
      · cases h
  | committing m rest =>
      obtain ⟨_, _, hhold⟩ := Database.commit_eq h
      exact ⟨fun hi _ => hhold.trans hi, fun j _ hj => hhold.trans hj, nofun⟩
  | unlocking r =>
      cases h
      exact ⟨fun _ hne => absurd rfl (hne r), fun j hji hj => Database.release_holder hji hj, nofun⟩
  | _ => cases h; exact ⟨fun hi _ => hi, fun j _ hj => hj, nofun⟩

theorem Locked.step (hL : Locked s) (h : s.step bin a = some s') : Locked s' := by
  intro j c hc hal hh
  cases Cluster.step_move h with
  | @booted autoRun =>
      rcases Places.of_snoc hc with hold | ⟨_, rfl⟩
      · exact hL j c hold hal hh
      · cases autoRun <;> cases hh
  | @succeeded i b db pc hb hbal hdb hpc =>
      obtain ⟨hown, hother, hlock⟩ := BootPc.execute_holder hdb
      rcases Places.of_set hc with ⟨rfl, rfl⟩ | ⟨hne, hold⟩
      · rcases BootPc.onSuccess_holding hpc hh with hhold | hlocking
        · refine hown (hL j b hb hbal hhold) fun r hr => ?_
          rw [hr] at hpc
          cases hpc
          cases hh
        · exact hlock hlocking
      · exact hother j hne (hL j c hold hal hh)
  | @lost i b db e pc hb hbal hdb hpc =>
      obtain ⟨hown, hother, _⟩ := BootPc.execute_holder hdb
      rcases Places.of_set hc with ⟨rfl, rfl⟩ | ⟨hne, hold⟩
      · refine hown (hL j b hb hbal (BootPc.onError_holding hpc hh)) fun r hr => ?_
        rw [hr] at hpc
        cases hpc
        cases hh
      · exact hother j hne (hL j c hold hal hh)
  | failed hb hpc =>
      rcases Places.of_set hc with ⟨rfl, rfl⟩ | ⟨_, hold⟩
      · exact hL j _ hb hal (BootPc.onError_holding hpc hh)
      · exact hL j c hold hal hh
  | died hb =>
      rcases Places.of_set hc with ⟨rfl, rfl⟩ | ⟨hne, hold⟩
      · cases hal
      · exact Database.release_holder hne (hL j c hold hal hh)
  | crashed hb =>
      rcases Places.of_set hc with ⟨rfl, rfl⟩ | ⟨hne, hold⟩
      · cases hal
      · exact Database.release_holder hne (hL j c hold hal hh)

end Signalium
