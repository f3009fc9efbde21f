/-
# Plugin.Registry -- a plugin's namespace and the registry row it hangs on

The registry keeps, for one plugin, its state, its descriptor, the ledger of applied
migrations, the progress of an import and the tombstone of a reset; the namespace is
the content of the plugin's own tables.  Each definition here is what one transaction
leaves, or `none` when it is rolled back.

SQLite is a parameter (`Sqlite`): statements act on the content as they do.  A digest
is the value it is taken of.
-/
import Mathlib

namespace Kiagent.Plugin

set_option autoImplicit false

/-! ## Descriptors -/

structure Migration where
  version : Nat
  statements : List String
  deriving DecidableEq

structure Module where
  name : String
  migrations : List Migration
  deriving DecidableEq

inductive ObjectKind where
  | table
  | index
  | view
  | trigger
  deriving DecidableEq

structure Object where
  name : String
  kind : ObjectKind
  deriving DecidableEq

structure LegacyTable where
  name : String
  columns : List String
  deriving DecidableEq

/-- What `parseDatabaseDescriptor` gives. -/
structure PluginDatabaseDescriptor where
  objects : List Object
  modules : List Module
  /-- Of the `legacy` section. -/
  tables : List LegacyTable
  versionTable : Option String
  userVersionModule : Option String
  synced : List String
  ownerCapture : List String
  /-- No duplicate module name. -/
  distinct : (modules.map (·.name)).Nodup
  /-- No duplicate legacy table name. -/
  distinctTables : (tables.map (·.name)).Nodup
  /-- Migration versions ascend. -/
  ascending : ∀ module ∈ modules, module.migrations.Pairwise fun a b => a.version < b.version
  deriving DecidableEq

def orderedPrefix {α : Type} (equal : α → α → Bool) : List α → List α → Bool
  | [], _ => true
  | _ :: _, [] => false
  | a :: as, b :: bs => equal a b && orderedPrefix equal as bs

/-- `synced` and `ownerCapture` are outside the comparison. -/
def isAppendOnlyDescriptor (old next : PluginDatabaseDescriptor) : Bool :=
  old.versionTable = next.versionTable && old.userVersionModule = next.userVersionModule &&
  orderedPrefix (fun a b => decide (a = b)) old.objects next.objects &&
  orderedPrefix (fun a b => a.name = b.name &&
    orderedPrefix (fun x y => decide (x = y)) a.migrations b.migrations) old.modules next.modules &&
  orderedPrefix (fun a b => a.name = b.name &&
    orderedPrefix (fun x y => decide (x = y)) a.columns b.columns) old.tables next.tables

/-- The migrations of a descriptor, module by module. -/
def PluginDatabaseDescriptor.migrations (d : PluginDatabaseDescriptor) :
    List (String × Migration) :=
  d.modules.flatMap fun module => module.migrations.map fun migration => (module.name, migration)

def appendOnlyMigrations (previous next : PluginDatabaseDescriptor) : List (String × Migration) :=
  next.modules.flatMap fun module =>
    let priorLength := ((previous.modules.find? (·.name = module.name)).map
      (·.migrations.length)).getD 0
    (module.migrations.drop priorLength).map fun migration => (module.name, migration)

/-! ## Values and rows -/

/-- A REAL column never holds a NaN. -/
inductive Double where
  | finite (q : ℚ)
  | infinite (negative : Bool)
  deriving DecidableEq

inductive Value where
  | null
  | integer (n : Int)
  | real (x : Double)
  | text (s : String)
  | blob (bytes : List Nat)
  deriving DecidableEq

/-- A row as the import selects it: the values it is ordered by (the rowid, or the
primary key of a table without one), and the columns of the source. -/
structure Row where
  key : List Value
  cells : List Value
  deriving DecidableEq

structure Column where
  name : String
  notnull : Bool
  hasDefault : Bool
  deriving DecidableEq

/-! ## SQLite -/

/-- What SQLite does with the content of the namespace. -/
structure Sqlite (σ : Type) where
  /-- A statement of a migration, its markers replaced. -/
  exec : String → σ → Option σ
  /-- `sqlite_master`. -/
  master : σ → List (String × ObjectKind)
  columns : σ → String → List Column
  rows : σ → String → List Row
  insert : String → Row → σ → Option σ
  /-- `DELETE FROM` a table. -/
  clear : String → σ → Option σ
  /-- A reset's deletes, without foreign keys, and of the tables' sequences. -/
  wipe : List String → σ → Option σ
  setSequence : List (String × Nat) → σ → Option σ
  /-- `validateSchemaInternal` throws nothing. -/
  valid : PluginDatabaseDescriptor → σ → Bool
  /-- `PRAGMA foreign_key_check` finds nothing. -/
  foreignKeysHold : σ → Bool

variable {σ : Type} (sql : Sqlite σ)

namespace Sqlite

def execAll : List String → σ → Option σ
  | [], c => some c
  | statement :: rest, c => (sql.exec statement c).bind (execAll rest)

def clearAll : List String → σ → Option σ
  | [], c => some c
  | table :: rest, c => (sql.clear table c).bind (clearAll rest)

def insertAll (table : String) : List Row → σ → Option σ
  | [], c => some c
  | row :: rest, c => (sql.insert table row c).bind (insertAll table rest)

end Sqlite

/-! ## The registry's rows -/

inductive PluginStorageState where
  | registered
  | importing
  | active
  | reset
  | tombstoned
  deriving DecidableEq

structure PluginStorage where
  state : PluginStorageState
  descriptor : PluginDatabaseDescriptor
  legacyPath : String
  generation : Nat
  deriving DecidableEq

/-- The digests of the rows of each chunk, of a table's source or of its target. -/
abbrev Digest := List (List (List Value × List Value))

structure PluginImportProgress where
  sourceIdentity : String
  descriptor : PluginDatabaseDescriptor
  tableName : String
  lastKey : Option (List Value)
  rowsCopied : Nat
  sourceDigest : Option Digest
  targetDigest : Option Digest
  deriving DecidableEq

/-- What a crash leaves of one plugin. -/
structure Disk (σ : Type) where
  storage : Option PluginStorage
  /-- The version each module is at, and its statements. -/
  versions : String → Option (Nat × List String)
  /-- The triggers an import has not created yet, by module and version. -/
  deferred : String → Nat → List String
  progress : Option PluginImportProgress
  tombstone : Option Nat
  content : σ

def Disk.initial (content : σ) : Disk σ where
  storage := none
  versions := fun _ => none
  deferred := fun _ _ => []
  progress := none
  tombstone := none
  content := content

/-! ## Migrations -/

/-- JavaScript's white space. -/
def isSpace (c : Char) : Bool :=
  c.toNat ∈ [9, 10, 11, 12, 13, 32, 0xa0, 0x1680, 0x2028, 0x2029, 0x202f, 0x205f, 0x3000, 0xfeff] ||
    (0x2000 ≤ c.toNat && c.toNat ≤ 0x200a)

/-- The word, in any case, is a prefix: what follows it. -/
def afterWord : List Char → List Char → Option (List Char)
  | [], cs => some cs
  | _ :: _, [] => none
  | w :: ws, c :: cs => if w = c.toLower then afterWord ws cs else none

/-- The statement starts with `CREATE TRIGGER`. -/
def createsTrigger (statement : String) : Bool :=
  match afterWord "create".toList (statement.toList.dropWhile isSpace) with
  | some (c :: cs) =>
      isSpace c && match afterWord "trigger".toList (cs.dropWhile isSpace) with
        | some [] => true
        | some (c :: _) => !(c.isAlphanum || c = '_')
        | none => false
  | _ => false

namespace Disk

variable (disk : Disk σ)

/-- The statements of a migration that its registry call runs; with `deferTriggers` its
triggers are kept for later. -/
def statementsOf (deferTriggers : Bool) (migration : Migration) : List String :=
  if deferTriggers then migration.statements.filter fun statement => !createsTrigger statement
  else migration.statements

def triggersOf (migration : Migration) : List String := migration.statements.filter createsTrigger

/-- The migration is done; what was deferred before stays. -/
def recordVersion (module : String) (migration : Migration) (content : σ) : Disk σ :=
  { disk with
    content := content
    versions := Function.update disk.versions module
      (some (migration.version, migration.statements)) }

def deferTriggers (module : String) (migration : Migration) : Disk σ :=
  { disk with
    deferred := Function.update disk.deferred module
      (Function.update (disk.deferred module) migration.version (triggersOf migration)) }

def dropDeferred (module : String) (version : Nat) (content : σ) : Disk σ :=
  { disk with
    content := content
    deferred := Function.update disk.deferred module
      (Function.update (disk.deferred module) version []) }

/-- What a run of the migration's statements leaves. -/
def applied (deferring : Bool) (module : String) (migration : Migration) (content : σ) : Disk σ :=
  (if deferring && !(triggersOf migration).isEmpty then disk.deferTriggers module migration
    else disk).recordVersion module migration content

/-- The stored descriptor has the migration, and its state lets it run. -/
def migratable (module : String) (migration : Migration) : Bool :=
  disk.storage.any fun storage =>
    (storage.state = .active || storage.state = .registered || storage.state = .importing) &&
    (((storage.descriptor.modules.find? (·.name = module)).bind
      (·.migrations.find? (·.version = migration.version))).any
        (·.statements = migration.statements))

/-- One transaction of `migrate`; with `true` the call goes on. -/
def migrate (deferring : Bool) (module : String) (migration : Migration) :
    Option (Disk σ × Bool) :=
  if !disk.migratable module migration then none
  else
    let pending := disk.deferred module migration.version
    if !deferring && !pending.isEmpty then
      (sql.execAll pending disk.content).map fun content =>
        (disk.dropDeferred module migration.version content, true)
    else
      let run := (sql.execAll (statementsOf deferring migration) disk.content).map
        fun content => (disk.applied deferring module migration content, false)
      match disk.versions module with
      | none => run
      | some (version, statements) =>
          if version > migration.version then some (disk, false)
          else if version = migration.version then
            if statements = migration.statements then some (disk, false) else none
          else run

/-- The ledger is at the migration or past it. -/
def Recorded (module : String) (migration : Migration) : Prop :=
  ∃ version statements, disk.versions module = some (version, statements) ∧
    (migration.version < version ∨ version = migration.version ∧
      statements = migration.statements)

/-- What one transaction of `migrate` can do: create what was deferred, find the
migration recorded, or run it. -/
theorem migrate_cases {sql : Sqlite σ} {disk disk' : Disk σ} {deferring more : Bool}
    {module : String} {migration : Migration}
    (migrated : disk.migrate sql deferring module migration = some (disk', more)) :
    (more = true ∧ deferring = false ∧ disk.deferred module migration.version ≠ [] ∧
      ∃ content, sql.execAll (disk.deferred module migration.version) disk.content =
        some content ∧ disk' = disk.dropDeferred module migration.version content) ∨
    (more = false ∧ (deferring = false → disk.deferred module migration.version = []) ∧
      ((disk' = disk ∧ disk.Recorded module migration) ∨
        ((∀ version statements, disk.versions module = some (version, statements) →
            version < migration.version) ∧
          ∃ content, sql.execAll (statementsOf deferring migration) disk.content =
            some content ∧ disk' = disk.applied deferring module migration content))) := by
  unfold migrate at migrated
  dsimp only at migrated
  split at migrated
  · cases migrated
  · split at migrated
    · rename_i pending
      rw [Bool.and_eq_true, Bool.not_eq_true', Bool.not_eq_true'] at pending
      obtain ⟨content, ran, same⟩ := Option.map_eq_some_iff.1 migrated
      cases same
      exact .inl ⟨rfl, pending.1, by simpa using pending.2, content, ran, rfl⟩
    · rename_i kept
      have created : deferring = false → disk.deferred module migration.version = [] := by
        intro now
        simpa [now] using kept
      right
      split at migrated
      · rename_i fresh
        obtain ⟨content, ran, same⟩ := Option.map_eq_some_iff.1 migrated
        cases same
        exact ⟨rfl, created, .inr ⟨by simp [fresh], content, ran, rfl⟩⟩
      · rename_i version statements found
        split at migrated
        · rename_i newer
          cases migrated
          exact ⟨rfl, created, .inl ⟨rfl, version, statements, found, .inl newer⟩⟩
        · split at migrated
          · rename_i same
            split at migrated
            · rename_i equal
              cases migrated
              exact ⟨rfl, created, .inl ⟨rfl, version, statements, found, .inr ⟨same, equal⟩⟩⟩
            · cases migrated
          · rename_i older different
            obtain ⟨content, ran, same⟩ := Option.map_eq_some_iff.1 migrated
            cases same
            refine ⟨rfl, created, .inr ⟨?_, content, ran, rfl⟩⟩
            intro version' statements' found'
            rw [found] at found'
            cases found'
            omega

/-! ## Registration and upgrade -/

def withState (state : PluginStorageState) (storage : PluginStorage) : Disk σ :=
  { disk with storage := some { storage with state := state } }

def verifyRegisteredObjects (descriptor : PluginDatabaseDescriptor) : Bool :=
  descriptor.objects.all fun object =>
    (sql.master disk.content).lookup object.name = some object.kind

/-- The appended migrations and their ledger. -/
def applyAppended : List (String × Migration) → Disk σ → Option (Disk σ)
  | [], disk => some disk
  | (module, migration) :: rest, disk =>
      (sql.execAll migration.statements disk.content).bind fun content =>
        applyAppended rest (disk.recordVersion module migration content)

/-- The first transaction of `upgradeActiveDescriptor`: the namespace leaves `active`. -/
def upgradeActiveDescriptor (storage : PluginStorage) (next : PluginDatabaseDescriptor) :
    Option (Disk σ) :=
  let registered := { disk with
    storage := some { storage with state := .registered, descriptor := next } }
  (applyAppended sql (appendOnlyMigrations storage.descriptor next) registered).bind
    fun upgraded => if upgraded.verifyRegisteredObjects sql next then some upgraded else none

/-- Its second one. -/
def activateUpgraded : Disk σ :=
  { disk with
    storage := disk.storage.map fun storage =>
      { storage with state := .active, generation := storage.generation + 1 } }

/-- What `register` leaves, and whether it goes on with an upgrade; `none` when it throws. -/
def register (descriptor : PluginDatabaseDescriptor) (legacyPath : String) :
    Option (Disk σ × Bool) :=
  match disk.storage with
  | none =>
      some ({ disk with storage := some ⟨.registered, descriptor, legacyPath, 0⟩ }, false)
  | some current =>
      if current.state = .tombstoned ∨ current.state = .reset then none
      else if current.legacyPath ≠ legacyPath then none
      else if current.descriptor = descriptor then some (disk, false)
      else if current.state = .importing ∨ !isAppendOnlyDescriptor current.descriptor descriptor then
        none
      else if current.state = .active then
        (disk.upgradeActiveDescriptor sql current descriptor).map fun upgraded => (upgraded, true)
      else some ({ disk with storage := some { current with descriptor := descriptor } }, false)

/-! ## Reset -/

/-- Every table is emptied, the namespace is tombstoned, and the tombstone is kept. -/
def reset : Option (Disk σ) :=
  disk.storage.bind fun storage =>
    (sql.wipe ((storage.descriptor.objects.filter (·.kind = .table)).map (·.name))
      disk.content).map fun content =>
        { disk with
          content := content
          storage := some { storage with
            state := .tombstoned, generation := storage.generation + 1 }
          progress := none
          tombstone := some (storage.generation + 2) }

/-- A tombstone is moved back to an empty active namespace. -/
def rearm : Option (Disk σ) :=
  disk.storage.map fun storage =>
    if storage.state = .tombstoned then disk.withState .active storage else disk

end Disk

/-! ## What an upgrade leaves alone -/

theorem applyAppended_frame {calls : List (String × Migration)} {disk disk' : Disk σ}
    {sql : Sqlite σ} (applied : disk.applyAppended sql calls = some disk') :
    disk'.tombstone = disk.tombstone ∧ disk'.storage = disk.storage ∧
      disk'.progress = disk.progress ∧ disk'.deferred = disk.deferred := by
  induction calls generalizing disk with
  | nil =>
      obtain rfl := Option.some.inj applied
      exact ⟨rfl, rfl, rfl, rfl⟩
  | cons call rest ih =>
      obtain ⟨module, migration⟩ := call
      obtain ⟨content, _, applied⟩ := Option.bind_eq_some_iff.1 applied
      have frame := ih applied
      exact frame

theorem upgrade_frame {storage : PluginStorage} {next : PluginDatabaseDescriptor}
    {sql : Sqlite σ} {disk disk' : Disk σ}
    (upgraded : disk.upgradeActiveDescriptor sql storage next = some disk') :
    disk'.tombstone = disk.tombstone ∧
      disk'.storage = some { storage with state := .registered, descriptor := next } ∧
      disk'.progress = disk.progress ∧ disk'.deferred = disk.deferred := by
  obtain ⟨applied, eq, rest⟩ := Option.bind_eq_some_iff.1 upgraded
  split at rest
  · obtain rfl := Option.some.inj rest
    exact applyAppended_frame eq
  · cases rest

end Kiagent.Plugin
