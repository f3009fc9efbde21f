/-
# Plugin.Import -- a legacy database is copied into a namespace

An import runs the migrations the legacy database had, clears what they seeded, copies
the tables in chunks, runs the remaining migrations and activates the namespace.  Each
of its transactions is one step (`next`), and a crash may fall between any two; what
the running import remembers is its `Task`, what a crash leaves is the `Disk`.

The operations on one plugin come one after another; a failed one ends like a crash.
-/
import Kiagent.Plugin.Registry
import Kiagent.Theory.Runs

namespace Kiagent.Plugin

open Kiagent.Theory

set_option autoImplicit false

/-! ## Keys -/

/-- JSON has no infinities: an infinite REAL is written as `null`. -/
def jsonValue : Value → Value
  | .real (.infinite _) => .null
  | v => v

/-- What `decodeKey` gives back of an encoded key. -/
def encodeKey (key : List Value) : List Value := key.map jsonValue

def Double.lt : Double → Double → Bool
  | .infinite true, .infinite true => false
  | .infinite true, _ => true
  | _, .infinite true => false
  | .infinite false, _ => false
  | .finite _, .infinite false => true
  | .finite p, .finite q => p < q

/-- The number a value is compared by. -/
def Value.number : Value → Option Double
  | .integer n => some (.finite n)
  | .real x => some x
  | _ => none

/-- Whether a value of the one kind comes before one of the other. -/
def Value.lt : Value → Value → Bool
  | .null, _ | _, .null => false
  | .text a, .text b => a < b
  | .blob a, .blob b => a < b
  | .blob _, _ => false
  | _, .blob _ => true
  | .text _, _ => false
  | _, .text _ => true
  | a, b =>
      match a.number, b.number with
      | some x, some y => x.lt y
      | _, _ => false

def Value.eq : Value → Value → Bool
  | .null, _ | _, .null => false
  | .text a, .text b => a = b
  | .blob a, .blob b => a = b
  | a, b =>
      match a.number, b.number with
      | some x, some y => x = y
      | _, _ => false

/-- `keyPredicate`: the row's key comes after the cursor. -/
def keyAfter : List Value → List Value → Bool
  | c :: cs, v :: vs => c.lt v || (c.eq v && keyAfter cs vs)
  | _, _ => false

/-- As `stable` writes it: an integral REAL like an integer. -/
def stable : Value → Value
  | .real (.finite q) => if q.den = 1 then .integer q.num else .real (.finite q)
  | v => v

def digestRow (row : Row) : List Value × List Value := (row.key.map stable, row.cells.map stable)

def extendDigest (previous : Option Digest) (rows : List Row) : Digest :=
  previous.getD [] ++ [rows.map digestRow]

/-! ## The legacy database -/

/-- A table of the legacy database, its rows in the order of their keys. -/
structure SourceTable where
  columns : List String
  rows : List Row
  sorted : rows.Pairwise fun a b => keyAfter a.key b.key = true
  keyed : ∀ row ∈ rows, row.key ≠ []

/-- The snapshot of a legacy database that passes the checks of its schema. -/
structure Source where
  identity : String
  /-- `sourceVersion` of each module. -/
  version : String → Nat
  table : String → Option SourceTable
  sequence : List (String × Nat)

def Source.rows (source : Source) (table : String) : List Row :=
  ((source.table table).map (·.rows)).getD []

/-! ## The steps of an import -/

inductive Phase where
  /-- The migrations that the legacy database had, without their triggers. -/
  | bootstrap (todo : List (String × Migration))
  | clear
  /-- The first of the tables is being copied. -/
  | copy (tables : List LegacyTable)
  /-- The first of the tables is copied. -/
  | switch (tables : List LegacyTable)
  | sequence
  | trailing (todo : List (String × Migration))
  | finish
  deriving DecidableEq

inductive Task where
  | idle
  /-- Between the two transactions of an upgrade. -/
  | upgrading (next : PluginDatabaseDescriptor)
  /-- There is no legacy database: every migration, with deferred triggers and again. -/
  | installing (first second : List (String × Migration))
  | importing (source : Source) (chunkSize : Nat) (existing : Bool)
      (progress : PluginImportProgress) (phase : Phase)

def Task.isIdle : Task → Bool
  | .idle => true
  | _ => false

variable {σ : Type} (sql : Sqlite σ)

/-- Every legacy table is absent or empty. -/
def ensureTargetFresh (descriptor : PluginDatabaseDescriptor) (content : σ) : Bool :=
  descriptor.tables.all fun table =>
    (sql.master content).lookup table.name = none || (sql.rows content table.name).isEmpty

/-- A target column that the source lacks is nullable or has a default. -/
def validateHistoricalShape (descriptor : PluginDatabaseDescriptor) (source : Source)
    (content : σ) : Bool :=
  descriptor.tables.all fun table =>
    match source.table table.name with
    | none => true
    | some sourceTable => (sql.columns content table.name).all fun column =>
        sourceTable.columns.contains column.name || !column.notnull || column.hasDefault

/-- The migrations of the legacy database's versions. -/
def bootstrapMigrations (descriptor : PluginDatabaseDescriptor) (source : Source) :
    List (String × Migration) :=
  descriptor.migrations.filter fun (module, migration) => migration.version ≤ source.version module

/-- Those that are newer, and those with triggers. -/
def trailingMigrations (descriptor : PluginDatabaseDescriptor) (source : Source) :
    List (String × Migration) :=
  descriptor.migrations.filter fun (module, migration) =>
    migration.version > source.version module || migration.statements.any createsTrigger

/-- The tables from the one the progress names. -/
def tablesFrom (descriptor : PluginDatabaseDescriptor) (name : String) : List LegacyTable :=
  if descriptor.tables.any (·.name = name) then descriptor.tables.dropWhile (·.name ≠ name)
  else descriptor.tables

def PluginImportProgress.start (descriptor : PluginDatabaseDescriptor) (source : Source) :
    PluginImportProgress where
  sourceIdentity := source.identity
  descriptor := descriptor
  tableName := (descriptor.tables.head?.map (·.name)).getD ""
  lastKey := none
  rowsCopied := 0
  sourceDigest := none
  targetDigest := none

/-- The progress at the start of the next table. -/
def PluginImportProgress.switch (progress : PluginImportProgress) (rest : List LegacyTable) :
    PluginImportProgress :=
  { progress with
    tableName := (rest.head?.map (·.name)).getD ""
    lastKey := none
    rowsCopied := 0
    sourceDigest := none
    targetDigest := none }

/-- The rows of the next chunk. -/
def chunkRows (progress : PluginImportProgress) (table : String) (rows : List Row)
    (chunkSize : Nat) : List Row :=
  let cursor := if progress.tableName = table then progress.lastKey.getD [] else []
  (if cursor = [] then rows else rows.filter fun row => keyAfter cursor row.key).take chunkSize

/-- The target row of each row of the chunk, by its key; `none` when one is lost. -/
def targetRows (target : List Row) : List Row → Option (List Row)
  | [] => some []
  | row :: rest =>
      (target.reverse.find? (·.key = row.key)).bind fun found =>
        (targetRows target rest).map (found :: ·)

/-- `copyTableChunk` for the rows read: what its transaction leaves. -/
def copyTableChunk (disk : Disk σ) (progress : PluginImportProgress) (table : String)
    (chunk : List Row) : Option (Disk σ × PluginImportProgress) :=
  let same := progress.tableName = table
  (sql.insertAll table chunk disk.content).bind fun content =>
    (targetRows (sql.rows content table) chunk).map fun target =>
      let next := { progress with
        tableName := table
        lastKey := (chunk.getLast?.map (encodeKey ·.key))
        rowsCopied := (if same then progress.rowsCopied else 0) + chunk.length
        sourceDigest := some (extendDigest (if same then progress.sourceDigest else none) chunk)
        targetDigest := some (extendDigest (if same then progress.targetDigest else none) target) }
      ({ disk with content := content, progress := disk.progress.map fun _ => next }, next)

/-- The target has every column of the source. -/
def importable (table : String) (sourceTable : SourceTable) (content : σ) : Bool :=
  sourceTable.columns ≠ [] && sourceTable.columns.all fun column =>
    (sql.columns content table).any (·.name = column)

def copyFrom : List LegacyTable → Phase
  | [] => .sequence
  | table :: rest => .copy (table :: rest)

/-- After the bootstrap: only a first run clears what it seeded. -/
def afterBootstrap (existing : Bool) (progress : PluginImportProgress) : Phase :=
  if existing then copyFrom (tablesFrom progress.descriptor progress.tableName) else .clear

/-- The `completeImport` transaction. -/
def completeImport (disk : Disk σ) : Disk σ :=
  { disk with
    storage := disk.storage.map fun storage =>
      { storage with state := .active, generation := storage.generation + 1 }
    progress := none }

/-- The durable progress, if there is a next table. -/
def persistProgress (disk : Disk σ) (rest : List LegacyTable) (progress : PluginImportProgress) :
    Disk σ :=
  if rest = [] then disk else { disk with progress := disk.progress.map fun _ => progress }

/-- One step of an import: its next transaction, or the next check it makes. -/
def nextImport (disk : Disk σ) (source : Source) (chunkSize : Nat) (existing : Bool)
    (progress : PluginImportProgress) : Phase → Option (Disk σ × Task)
  | .bootstrap ((module, migration) :: todo) =>
      (disk.migrate sql true module migration).map fun (disk, _) =>
        (disk, .importing source chunkSize existing progress (.bootstrap todo))
  | .bootstrap [] =>
      if validateHistoricalShape sql progress.descriptor source disk.content then
        some (disk, .importing source chunkSize existing progress
          (afterBootstrap existing progress))
      else none
  | .clear =>
      (sql.clearAll ((progress.descriptor.tables.map (·.name)).reverse) disk.content).map
        fun content => ({ disk with content := content }, .importing source chunkSize existing
          progress (copyFrom (tablesFrom progress.descriptor progress.tableName)))
  | .copy [] => some (disk, .importing source chunkSize existing progress .sequence)
  | .copy (table :: rest) =>
      match source.table table.name with
      | none =>
          let next := progress.switch rest
          some (persistProgress disk rest next,
            .importing source chunkSize existing next (copyFrom rest))
      | some sourceTable =>
          if !importable sql table.name sourceTable disk.content then none
          else
            let chunk := chunkRows progress table.name sourceTable.rows chunkSize
            if chunk = [] then
              some (disk, .importing source chunkSize existing progress (.switch (table :: rest)))
            else (copyTableChunk sql disk progress table.name chunk).map fun (disk, next) =>
              (disk, .importing source chunkSize existing next
                (if chunk.length < chunkSize then .switch (table :: rest)
                 else .copy (table :: rest)))
  | .switch [] => some (disk, .importing source chunkSize existing progress .sequence)
  | .switch (_ :: rest) =>
      if progress.sourceDigest ≠ progress.targetDigest then none
      else
        let next := progress.switch rest
        some (persistProgress disk rest next,
          .importing source chunkSize existing next (copyFrom rest))
  | .sequence =>
      (sql.setSequence (source.sequence.filter fun (name, _) =>
        progress.descriptor.tables.any (·.name = name)) disk.content).map fun content =>
          ({ disk with content := content }, .importing source chunkSize existing progress
            (.trailing (trailingMigrations progress.descriptor source)))
  | .trailing ((module, migration) :: todo) =>
      (disk.migrate sql false module migration).map fun (disk, more) =>
        (disk, .importing source chunkSize existing progress
          (.trailing (if more then (module, migration) :: todo else todo)))
  | .trailing [] => some (disk, .importing source chunkSize existing progress .finish)
  | .finish =>
      if sql.foreignKeysHold disk.content && sql.valid progress.descriptor disk.content then
        some (completeImport disk, .idle)
      else none

/-- One step of a fresh installation. -/
def nextInstall (disk : Disk σ) : List (String × Migration) → List (String × Migration) →
    Option (Disk σ × Task)
  | (module, migration) :: first, second =>
      (disk.migrate sql true module migration).map fun (disk, _) =>
        (disk, .installing first second)
  | [], (module, migration) :: second =>
      (disk.migrate sql false module migration).map fun (disk, more) =>
        (disk, .installing [] (if more then (module, migration) :: second else second))
  | [], [] =>
      disk.storage.bind fun storage =>
        if sql.valid storage.descriptor disk.content then some (completeImport disk, .idle)
        else none

/-- `importLegacyPluginStorage` until its first transaction: `none` when it throws. -/
def importLegacyPluginStorage (disk : Disk σ) (legacy : Option Source)
    (descriptor : PluginDatabaseDescriptor) (legacyPath : String) (chunkSize : Nat) :
    Option (Disk σ × Task) :=
  disk.storage.bind fun storage =>
    if descriptor ≠ storage.descriptor ∨ legacyPath ≠ storage.legacyPath then none
    else match storage.state with
      | .active => some (disk, .idle)
      | .reset | .tombstoned => none
      | .registered | .importing =>
          match legacy with
          | none =>
              if ensureTargetFresh sql descriptor disk.content then
                some (disk, .installing descriptor.migrations descriptor.migrations)
              else none
          | some source =>
              let size := min 500 (max 1 chunkSize)
              match disk.progress with
              | some progress =>
                  if progress.sourceIdentity ≠ source.identity ∨
                      progress.descriptor ≠ descriptor then none
                  else some (disk, .importing source size true progress
                    (.bootstrap (bootstrapMigrations descriptor source)))
              | none =>
                  if ensureTargetFresh sql descriptor disk.content then
                    let progress := PluginImportProgress.start descriptor source
                    some ({ disk.withState .importing storage with progress := some progress },
                      .importing source size false progress
                        (.bootstrap (bootstrapMigrations descriptor source)))
                  else none

/-! ## Runs on one plugin -/

/-- What has been committed that a reset is about. -/
inductive Event where
  | reset
  | copied (table : String) (rows : List Row)
  deriving DecidableEq

structure State (σ : Type) where
  disk : Disk σ
  /-- The file at the legacy path. -/
  legacy : Option Source
  task : Task
  log : List Event

inductive Action (σ : Type) where
  | register (descriptor : PluginDatabaseDescriptor) (legacyPath : String)
  | importLegacy (descriptor : PluginDatabaseDescriptor) (legacyPath : String) (chunkSize : Nat)
  | openStorage
  | reset
  | rearm
  /-- The plugin writes its own tables. -/
  | write (content : σ)
  /-- The legacy file appears, is changed or goes away. -/
  | legacyFile (source : Option Source)
  /-- The next step of what runs. -/
  | next
  | crash

/-- The legacy rows that the next step of an import copies. -/
def copiedRows : Task → Option (String × List Row)
  | .importing source chunkSize _ progress (.copy (table :: _)) =>
      match chunkRows progress table.name (source.rows table.name) chunkSize with
      | [] => none
      | rows => some (table.name, rows)
  | _ => none

namespace State

variable (s : State σ)

def isActive : Bool := s.disk.storage.any (·.state = .active)

/-- What runs goes on; what fails ends. -/
def next : Option (State σ) :=
  match s.task with
  | .idle => none
  | .upgrading descriptor =>
      if sql.valid descriptor s.disk.content then
        some { s with disk := s.disk.activateUpgraded, task := .idle }
      else some { s with task := .idle }
  | .installing first second =>
      match nextInstall sql s.disk first second with
      | some (disk, task) => some { s with disk := disk, task := task }
      | none => some { s with task := .idle }
  | .importing source chunkSize existing progress phase =>
      match nextImport sql s.disk source chunkSize existing progress phase with
      | some (disk, task) =>
          some { s with
            disk := disk
            task := task
            log := s.log ++ ((copiedRows s.task).map fun (table, rows) =>
              Event.copied table rows).toList }
      | none => some { s with task := .idle }

/-- A call on an idle plugin; one that throws changes nothing. -/
def call : Action σ → State σ
  | .register descriptor legacyPath =>
      match s.disk.register sql descriptor legacyPath with
      | some (disk, upgrades) =>
          { s with disk := disk, task := if upgrades then .upgrading descriptor else .idle }
      | none => s
  | .importLegacy descriptor legacyPath chunkSize =>
      match importLegacyPluginStorage sql s.disk s.legacy descriptor legacyPath chunkSize with
      | some (disk, task) => { s with disk := disk, task := task }
      | none => s
  | .reset =>
      match s.disk.reset sql with
      | some disk => { s with disk := disk, log := s.log ++ [.reset] }
      | none => s
  | .rearm => { s with disk := s.disk.rearm.getD s.disk }
  | .write content => if s.isActive then { s with disk := { s.disk with content := content } } else s
  | .legacyFile source => { s with legacy := source }
  | .openStorage | .next | .crash => s

end State

def step (s : State σ) : Action σ → Option (State σ)
  | .crash => some { s with task := .idle }
  | .next => s.next sql
  | action => if s.task.isIdle then some (s.call sql action) else none

/-! ## A namespace of one table -/

/-- The table `items`, once it is created, and its index. -/
structure Items where
  rows : Option (List Row)
  indexed : Bool
  deriving DecidableEq

def itemRow (id : Int) : Row := ⟨[.integer id], [.integer id]⟩

namespace Items

def createTable : String := "CREATE TABLE {{items}} (id INTEGER PRIMARY KEY)"
def seedRow : String := "INSERT INTO {{items}} (id) VALUES (7)"
def createIndex : String := "CREATE INDEX {{items_id}} ON {{items}} (id)"

def insert (row : Row) (c : Items) : Option Items :=
  c.rows.bind fun rows =>
    if rows.any (·.key = row.key) then none else some { c with rows := some (rows ++ [row]) }

def exec (statement : String) (c : Items) : Option Items :=
  if statement = createTable then
    if c.rows.isNone then some { c with rows := some [] } else none
  else if statement = seedRow then c.insert (itemRow 7)
  else if statement = createIndex then
    if c.rows.isSome && !c.indexed then some { c with indexed := true } else none
  else none

def empty : Items := ⟨none, false⟩

def sqlite : Sqlite Items where
  exec := exec
  master c := (if c.rows.isSome then [("items", .table)] else []) ++
    if c.indexed then [("items_id", .index)] else []
  columns c table := if table = "items" ∧ c.rows.isSome then [⟨"id", false, false⟩] else []
  rows c table := if table = "items" then c.rows.getD [] else []
  insert table row c := if table = "items" then c.insert row else none
  clear table c := if table = "items" then c.rows.map fun _ => { c with rows := some [] } else none
  wipe _ c := c.rows.map fun _ => { c with rows := some [] }
  setSequence _ c := some c
  valid _ _ := true
  foreignKeysHold _ := true

/-- A descriptor of the table with these migrations of its one module. -/
def descriptor (indexes : List Object) (migrations : List Migration)
    (ascending : migrations.Pairwise fun a b => a.version < b.version) :
    PluginDatabaseDescriptor where
  objects := ⟨"items", .table⟩ :: indexes
  modules := [⟨"base", migrations⟩]
  tables := [⟨"items", ["id"]⟩]
  versionTable := none
  userVersionModule := none
  synced := []
  ownerCapture := []
  distinct := by simp
  distinctTables := by simp
  ascending := by simpa using ascending

def first : PluginDatabaseDescriptor := descriptor [] [⟨0, [createTable]⟩] (by decide)

def second : PluginDatabaseDescriptor :=
  descriptor [⟨"items_id", .index⟩] [⟨0, [createTable]⟩, ⟨1, [createIndex]⟩] (by decide)

/-- A legacy database with two items. -/
def source : Source where
  identity := "private.db"
  version _ := 0
  table name := if name = "items" then
    some ⟨["id"], [itemRow 1, itemRow 2], by decide, by decide⟩ else none
  sequence := []

end Items

end Kiagent.Plugin
