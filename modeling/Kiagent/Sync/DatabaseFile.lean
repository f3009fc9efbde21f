/-
# Sync.DatabaseFile -- what a database file holds, and what a swap writes into one

A follower starts from the leader's snapshot.  `mergeLocalTables` adds to the
snapshot every table the leader does not send; `mergeIntoArchive` goes the other
way, when a device stops copying, and folds what the copy wrote since into the
file it had before.

* a `Database` is the committed contents of one file: its tables by name, its
  other schema objects and its `sqlite_sequence`;
* each merge is one transaction: `none` when a statement of it throws, and the
  file is then as it was;
* `mergeLocalTables_local` and its companions say which rows of the old file the
  merged one holds, `mergeIntoArchive_own` which tables of the archive a restore
  leaves alone.
-/
import Kiagent.Store.Rows
import Kiagent.Theory.Table

namespace Kiagent.Sync.Swap

open Kiagent.Store (Cell DeviceId)
open Kiagent.Theory

set_option autoImplicit false

/-! ## A file -/

/-- A row, by column name. -/
abbrev Row := List (String × Cell)

def Row.get (r : Row) (column : String) : Cell := (List.lookup column r).getD .null

def Row.set (r : Row) (column : String) (value : Cell) : Row :=
  r.map fun c => if c.1 = column then (column, value) else c

/-- A column and its place in the primary key, `0` when it is not in it. -/
structure Column where
  name : String
  default : Cell
  pk : Nat
  deriving DecidableEq, Repr

/-- A virtual table's rows live in the shadow tables its module creates. -/
inductive TableKind where
  | plain
  | virtual (shadows : List String)
  | shadow
  deriving DecidableEq, Repr

structure TableFile where
  name : String
  kind : TableKind
  columns : List Column
  rows : List Row
  deriving DecidableEq, Repr

def TableFile.shadows (t : TableFile) : List String :=
  match t.kind with
  | .virtual shadows => shadows
  | _ => []

inductive ObjectType where
  | index
  | trigger
  | view
  deriving DecidableEq, Repr

structure SchemaObject where
  type : ObjectType
  name : String
  tblName : String
  deriving DecidableEq, Repr

/-- The row of `sync_snapshot_meta`, the table a snapshot carries until it is
merged. -/
structure SnapshotMeta where
  afterSeq : Nat
  afterCursor : Nat
  historyId : Option String
  epoch : Nat
  copied : List String
  deriving DecidableEq, Repr

/-- `ownerCapture` is what the active descriptors in `plugin_storage` list. -/
structure Database where
  tables : Table TableFile TableFile.name
  objects : List SchemaObject
  sequence : List (String × Int)
  ownerCapture : List String
  snapshotMeta : Option SnapshotMeta

/-- What `new Database` makes where there is no file. -/
def Database.empty : Database := ⟨.empty, [], [], [], none⟩

namespace Database

def taken (d : Database) (name : String) : Bool :=
  (d.tables.find name).isSome || d.objects.any fun o => o.name = name

/-- `CREATE TABLE`, of no rows. -/
def create (d : Database) (t : TableFile) : Option Database :=
  if d.taken t.name then none else some { d with tables := d.tables.put { t with rows := [] } }

/-- `db.exec(t.sql)`: a virtual table comes with its shadow tables. -/
def createTable (d : Database) (t : TableFile) : Option Database :=
  (t :: t.shadows.map fun s => ⟨s, .shadow, [], []⟩).foldlM create d

/-- A statement that rewrites the rows of one table. -/
def update (d : Database) (name : String) (f : List Row → List Row) : Option Database :=
  (d.tables.find name).map fun t => { d with tables := d.tables.put { t with rows := f t.rows } }

def createObject (d : Database) (o : SchemaObject) : Option Database :=
  if d.taken o.name then none else some { d with objects := d.objects ++ [o] }

/-- `INSERT` of explicit numbers moves an AUTOINCREMENT counter up to them. -/
def raiseSequence (d : Database) (name : String) (n : Int) : Database :=
  { d with
    sequence :=
      if d.sequence.any fun e => e.1 = name then
        d.sequence.map fun e => if e.1 = name then (name, max e.2 n) else e
      else d.sequence ++ [(name, n)] }

theorem create_tables {d d' : Database} {t : TableFile} (made : d.create t = some d') :
    d.tables.find t.name = none ∧ d'.tables = d.tables.put { t with rows := [] } := by
  unfold create at made
  split at made
  · cases made
  · next free =>
      obtain rfl := Option.some.inj made
      simp only [taken, Bool.or_eq_true, not_or, Bool.not_eq_true, Option.isSome_eq_false_iff,
        Option.isNone_iff_eq_none] at free
      exact ⟨free.1, rfl⟩

/-- `CREATE` never touches a table that is there. -/
theorem create_keeps {d d' : Database} {t x : TableFile} {name : String}
    (made : d.create t = some d') (found : d.tables.find name = some x) :
    d'.tables.find name = some x := by
  obtain ⟨free, tables⟩ := create_tables made
  have other : name ≠ t.name := fun same => by rw [same, free] at found; cases found
  rw [tables, Table.find_put, if_neg (fun same : t.name = name => other same.symm), found]

theorem foldlM_create_keeps {ts : List TableFile} {d d' : Database} {x : TableFile} {name : String}
    (made : ts.foldlM create d = some d') (found : d.tables.find name = some x) :
    d'.tables.find name = some x := by
  induction ts generalizing d with
  | nil =>
      obtain rfl := Option.some.inj made
      exact found
  | cons t ts ih =>
      obtain ⟨d₁, first, rest⟩ := Option.bind_eq_some_iff.1 made
      exact ih rest (create_keeps first found)

theorem createTable_keeps {d d' : Database} {t x : TableFile} {name : String}
    (made : d.createTable t = some d') (found : d.tables.find name = some x) :
    d'.tables.find name = some x :=
  foldlM_create_keeps made found

/-- A table just created is there, without rows. -/
theorem createTable_find {d d' : Database} {t : TableFile} (made : d.createTable t = some d') :
    d'.tables.find t.name = some { t with rows := [] } := by
  obtain ⟨d₁, first, rest⟩ := Option.bind_eq_some_iff.1 made
  refine foldlM_create_keeps rest ?_
  rw [(create_tables first).2]
  exact Table.find_put_self d.tables { t with rows := [] }

theorem update_find {d d' : Database} {name : String} {f : List Row → List Row}
    (wrote : d.update name f = some d') (n : String) :
    d'.tables.find n =
      if n = name then (d.tables.find n).map fun t => { t with rows := f t.rows }
      else d.tables.find n := by
  obtain ⟨t, found, rfl⟩ := Option.map_eq_some_iff.1 wrote
  have key : t.name = name := Table.find_key found
  show (d.tables.put { t with rows := f t.rows }).find n = _
  rw [Table.find_put]
  by_cases same : n = name
  · rw [if_pos (key.trans same.symm), if_pos same, same, found, Option.map_some]
  · rw [if_neg (fun h : t.name = n => same (h.symm.trans key)), if_neg same]

theorem update_other {d d' : Database} {name n : String} {f : List Row → List Row}
    (wrote : d.update name f = some d') (other : n ≠ name) :
    d'.tables.find n = d.tables.find n := by
  rw [update_find wrote, if_neg other]

theorem createObject_tables {d d' : Database} {o : SchemaObject}
    (made : d.createObject o = some d') : d'.tables = d.tables := by
  unfold createObject at made
  split at made
  · cases made
  · rw [← Option.some.inj made]

theorem foldlM_createObject_tables {os : List SchemaObject} {d d' : Database}
    (made : os.foldlM createObject d = some d') : d'.tables = d.tables := by
  induction os generalizing d with
  | nil => rw [← Option.some.inj made]
  | cons o os ih =>
      obtain ⟨d₁, first, rest⟩ := Option.bind_eq_some_iff.1 made
      rw [ih rest, createObject_tables first]

end Database

/-! ## Which tables travel -/

def COPIED_CORE_TABLES : List String :=
  ["accounts", "documents", "outbox", "event_drafts", "sync_epochs", "attention_items",
    "attention_revisions", "user_prefs"]

def LOCAL_CORE_TABLES : List String :=
  ["changes", "consents", "consumers", "meta", "schedule", "sync_imported", "sync_moved",
    "sync_offers", "sync_outbound", "sync_retained", "sync_rows", "sync_state", "vault",
    "work_attempts", "work_ledger"]

def startsWith (start name : String) : Bool := start.toList.isPrefixOf name.toList

/-- `^documents_(fts|tri)(_|$)`. -/
def isDerivedTable (name : String) : Bool :=
  ["documents_fts", "documents_tri"].any fun base => name = base || startsWith (base ++ "_") name

/-- The primary-key columns in key order. -/
def primaryKeyColumns (t : TableFile) : List String :=
  ((t.columns.filter fun c => c.pk > 0).insertionSort fun a b => a.pk ≤ b.pk).map Column.name

def isShadow (t : TableFile) : Bool := t.kind = .shadow

def isVirtual (t : TableFile) : Bool :=
  match t.kind with
  | .virtual _ => true
  | _ => false

/-! ## `mergeLocalTables` -/

section Merge

variable (json : List Cell → String) (masterDeviceId : DeviceId) (now : String)

/-- `INSERT OR IGNORE`: a row whose key is there already is left out. -/
def insertOrIgnore (key : Row → List Cell) (rows more : List Row) : List Row :=
  more.foldl (fun acc r => if acc.any fun x => key x = key r then acc else acc ++ [r]) rows

def copied (sent : SnapshotMeta) (name : String) : Bool :=
  sent.copied.contains name || isDerivedTable name

def localTables (sent : SnapshotMeta) (old : Database) : List TableFile :=
  old.tables.rows.filter fun t => !copied sent t.name && !isShadow t

/-- `INSERT INTO main.t SELECT * FROM old.t`. -/
def copyRows (d : Database) (t : TableFile) : Option Database :=
  if isVirtual t then some d else d.update t.name fun rows => rows ++ t.rows

/-- `DELETE FROM main.s; INSERT INTO main.s SELECT * FROM old.s`. -/
def copyShadow (d : Database) (s : TableFile) : Option Database :=
  d.update s.name fun _ => s.rows

/-- The table the extension sends this device's own rows from. -/
def syncRetained : TableFile :=
  ⟨"sync_retained", .plain, [⟨"tbl", .null, 1⟩, ⟨"pk", .null, 2⟩], []⟩

def retainedKey (r : Row) : List Cell := [r.get "tbl", r.get "pk"]

/-- `CREATE TABLE IF NOT EXISTS main.sync_retained`. -/
def haveRetained (d : Database) : Option Database :=
  if (d.tables.find "sync_retained").isSome then some d else d.create syncRetained

def pkOf (t : TableFile) (r : Row) : List Cell := (primaryKeyColumns t).map r.get

/-- One owner-capture table: the leader's rows came with the snapshot, and this
device's own stay beside them, listed in `sync_retained`. -/
def keepOwnerCapture (sent : SnapshotMeta) (old d : Database) (name : String) : Option Database :=
  match old.tables.find name, d.tables.find name with
  | some theirs, some mine =>
      if !sent.copied.contains name || primaryKeyColumns theirs = [] then some d
      else do
        let d ← d.update name fun rows => insertOrIgnore (pkOf mine) rows theirs.rows
        let d ← haveRetained d
        d.update "sync_retained" fun rows => insertOrIgnore retainedKey rows
          (theirs.rows.map fun r => [("tbl", .text name), ("pk", .text (json (pkOf theirs r)))])
  | _, _ => some d

/-- The indexes, triggers and views of the old file that the snapshot lacks. -/
def localObjects (sent : SnapshotMeta) (old : Database) : List SchemaObject :=
  old.objects.filter fun o =>
    !startsWith "sync_" o.name && !(o.type = .index && copied sent o.tblName)

def documentSeqs (rows : List Row) : List (Int × Cell) :=
  rows.filterMap fun r =>
    match r.get "seq" with
    | .int n => if n > 0 then some (n, r.get "id") else none
    | _ => none

/-- `changes` lists the documents that came with the snapshot; its counter keeps
the old file's, so that no number is used again. -/
def rebuildChanges (d : Database) : Option Database := do
  let documents ← d.tables.find "documents"
  let seqs := documentSeqs documents.rows
  if (seqs.map Prod.fst).Nodup then
    let d ← d.update "changes" fun _ => seqs.map fun s =>
      [("seq", .int s.1), ("kind", .text "document"), ("ref_id", s.2), ("at", .text now)]
    some (seqs.foldl (fun d s => d.raiseSequence "changes" s.1) d)
  else none

def follow (sent : SnapshotMeta) (d : Database) : Option Database :=
  d.update "sync_state" fun rows => rows.map fun r =>
    (((((((((r.set "role" (.text "follower")).set "tracking" (.int 0)).set "joining" (.int 0)).set
      "after_seq" (.int sent.afterSeq)).set "after_cursor" (.int sent.afterCursor)).set
      "history_id" ((sent.historyId.map Cell.text).getD .null)).set
      "master_device_id" (.text masterDeviceId)).set "epoch" (.int sent.epoch)).set
      "pre_demote_epoch" .null)

/-- Every local table of `old` added to the snapshot in `file`.  A file without
`sync_snapshot_meta` is merged already. -/
def mergeLocalTables (file old : Database) : Option Database :=
  match file.snapshotMeta with
  | none => some file
  | some sent => do
      let d ← (localTables sent old).foldlM Database.createTable file
      let d ← (localTables sent old).foldlM copyRows d
      let d ← (old.tables.rows.filter fun t => isShadow t && !copied sent t.name).foldlM copyShadow d
      let d ← (old.ownerCapture.filter fun n => (old.tables.find n).isSome).foldlM
        (keepOwnerCapture json sent old) d
      let d ← (localObjects sent old).foldlM Database.createObject d
      let d ← rebuildChanges now { d with sequence := old.sequence }
      let d ← follow masterDeviceId sent d
      some { d with snapshotMeta := none }

end Merge

/-! ## What the merged file holds -/

theorem foldlM_keeps {α : Type} {step : Database → α → Option Database} {xs : List α}
    {d d' : Database} {name : String} {t : TableFile}
    (keeps : ∀ x ∈ xs, ∀ d d', step d x = some d' → d.tables.find name = some t →
      d'.tables.find name = some t)
    (ran : xs.foldlM step d = some d') (found : d.tables.find name = some t) :
    d'.tables.find name = some t := by
  induction xs generalizing d with
  | nil =>
      obtain rfl := Option.some.inj ran
      exact found
  | cons x xs ih =>
      obtain ⟨d₁, first, rest⟩ := Option.bind_eq_some_iff.1 ran
      exact ih (fun y mem => keeps y (List.mem_cons_of_mem _ mem)) rest
        (keeps x (List.mem_cons_self ..) d d₁ first found)

theorem foldlM_same {α : Type} {step : Database → α → Option Database} {xs : List α}
    {d d' : Database} {name : String}
    (same : ∀ x ∈ xs, ∀ d d', step d x = some d' → d'.tables.find name = d.tables.find name)
    (ran : xs.foldlM step d = some d') : d'.tables.find name = d.tables.find name := by
  induction xs generalizing d with
  | nil => rw [← Option.some.inj ran]
  | cons x xs ih =>
      obtain ⟨d₁, first, rest⟩ := Option.bind_eq_some_iff.1 ran
      rw [ih (fun y mem => same y (List.mem_cons_of_mem _ mem)) rest,
        same x (List.mem_cons_self ..) d d₁ first]

/-- A table of a list of created tables is there, without rows. -/
theorem foldlM_createTable_find {ts : List TableFile} {d d' : Database} {t : TableFile}
    (made : ts.foldlM Database.createTable d = some d') (mem : t ∈ ts) :
    d'.tables.find t.name = some { t with rows := [] } := by
  induction ts generalizing d with
  | nil => cases mem
  | cons x ts ih =>
      obtain ⟨d₁, first, rest⟩ := Option.bind_eq_some_iff.1 made
      rcases List.mem_cons.1 mem with rfl | later
      · exact foldlM_keeps (fun y _ _ _ took there => Database.createTable_keeps took there) rest
          (Database.createTable_find first)
      · exact ih rest later

theorem copyRows_other {d d' : Database} {t : TableFile} {name : String}
    (wrote : copyRows d t = some d') (other : name ≠ t.name) :
    d'.tables.find name = d.tables.find name := by
  unfold copyRows at wrote
  split at wrote
  · rw [← Option.some.inj wrote]
  · exact Database.update_other wrote other

/-- Every plain table of the list ends up with its own rows, once each. -/
theorem foldlM_copyRows_find {ts : List TableFile} {d d' : Database} {t : TableFile}
    (ran : ts.foldlM copyRows d = some d') (mem : t ∈ ts)
    (names : (ts.map TableFile.name).Nodup) (plain : t.kind = .plain)
    (created : d.tables.find t.name = some { t with rows := [] }) :
    d'.tables.find t.name = some t := by
  induction ts generalizing d with
  | nil => cases mem
  | cons x ts ih =>
      obtain ⟨d₁, first, rest⟩ := Option.bind_eq_some_iff.1 ran
      rw [List.map_cons, List.nodup_cons] at names
      rcases List.mem_cons.1 mem with rfl | later
      · refine foldlM_keeps (fun y later d d' took there => ?_) rest ?_
        · have other : t.name ≠ y.name := fun same =>
            names.1 (same ▸ List.mem_map_of_mem later)
          rw [copyRows_other took other, there]
        · unfold copyRows isVirtual at first
          simp only [plain, Bool.false_eq_true, if_false] at first
          rw [Database.update_find first, if_pos rfl, created]
          rfl
      · refine ih rest later names.2 ?_
        have other : t.name ≠ x.name := fun same => names.1 (same ▸ List.mem_map_of_mem later)
        rw [copyRows_other first other, created]

theorem foldlM_copyShadow_find {ts : List TableFile} {d d' : Database} {t : TableFile}
    (ran : ts.foldlM copyShadow d = some d') (mem : t ∈ ts)
    (names : (ts.map TableFile.name).Nodup) :
    ∃ t', d'.tables.find t.name = some t' ∧ t'.rows = t.rows := by
  induction ts generalizing d with
  | nil => cases mem
  | cons x ts ih =>
      obtain ⟨d₁, first, rest⟩ := Option.bind_eq_some_iff.1 ran
      rw [List.map_cons, List.nodup_cons] at names
      rcases List.mem_cons.1 mem with rfl | later
      · obtain ⟨mine, found, wrote⟩ := Option.map_eq_some_iff.1 first
        have there : d₁.tables.find t.name = some { mine with rows := t.rows } := by
          rw [Database.update_find first, if_pos rfl, found, Option.map_some]
        refine ⟨_, foldlM_keeps (fun y later d d' took there => ?_) rest there, rfl⟩
        have other : t.name ≠ y.name := fun same => names.1 (same ▸ List.mem_map_of_mem later)
        rw [Database.update_other took other, there]
      · exact ih rest later names.2

theorem keepOwnerCapture_keeps {json : List Cell → String} {sent : SnapshotMeta}
    {old d d' : Database} {table name : String} {t : TableFile}
    (ran : keepOwnerCapture json sent old d table = some d') (own : copied sent name = false)
    (other : name ≠ "sync_retained") (found : d.tables.find name = some t) :
    d'.tables.find name = some t := by
  unfold keepOwnerCapture at ran
  split at ran
  · split at ran
    · rw [← Option.some.inj ran]
      exact found
    · next mine _ _ asked =>
        have differs : name ≠ table := fun same => by
          subst same
          unfold copied at own
          rw [Bool.or_eq_false_iff] at own
          rw [own.1] at asked
          exact asked rfl
        obtain ⟨d₁, first, ran⟩ := Option.bind_eq_some_iff.1 ran
        have found : d₁.tables.find name = some t := by
          rw [Database.update_other first differs, found]
        obtain ⟨d₂, second, ran⟩ := Option.bind_eq_some_iff.1 ran
        rw [Database.update_other ran other]
        unfold haveRetained at second
        split at second
        · rw [← Option.some.inj second]
          exact found
        · exact Database.create_keeps second found
  · rw [← Option.some.inj ran]
    exact found

/-- `rows'` is `rows` and more, none of which repeats one of `rows`. -/
def Extends (rows rows' : List Row) : Prop := ∃ more, rows' = rows ++ more ∧ ∀ r ∈ rows, r ∉ more

theorem Extends.refl (rows : List Row) : Extends rows rows :=
  ⟨[], (List.append_nil _).symm, fun _ _ mem => nomatch mem⟩

theorem Extends.trans {a b c : List Row} (first : Extends a b) (second : Extends b c) :
    Extends a c := by
  obtain ⟨more, rfl, apart⟩ := first
  obtain ⟨more', rfl, apart'⟩ := second
  refine ⟨more ++ more', List.append_assoc .., fun r mem inMore => ?_⟩
  rcases List.mem_append.1 inMore with early | late
  · exact apart r mem early
  · exact apart' r (List.mem_append_left _ mem) late

theorem insertOrIgnore_extends (key : Row → List Cell) (rows more : List Row) :
    Extends rows (insertOrIgnore key rows more) := by
  unfold insertOrIgnore
  induction more generalizing rows with
  | nil => exact .refl rows
  | cons r more ih =>
      rw [List.foldl_cons]
      refine Extends.trans ?_ (ih _)
      split
      · exact .refl rows
      · next fresh =>
          refine ⟨[r], rfl, fun x mem same => fresh ?_⟩
          rw [List.mem_singleton] at same
          exact List.any_eq_true.2 ⟨x, mem, by rw [same]; exact decide_eq_true rfl⟩

/-- What the extension has still to send stays listed. -/
theorem keepOwnerCapture_retained {json : List Cell → String} {sent : SnapshotMeta}
    {old d d' : Database} {table : String} {rows : List Row}
    (ran : keepOwnerCapture json sent old d table = some d')
    (own : copied sent "sync_retained" = false)
    (listed : ∃ t, d.tables.find "sync_retained" = some t ∧ Extends rows t.rows) :
    ∃ t, d'.tables.find "sync_retained" = some t ∧ Extends rows t.rows := by
  obtain ⟨t, found, extends'⟩ := listed
  unfold keepOwnerCapture at ran
  split at ran
  · split at ran
    · rw [← Option.some.inj ran]
      exact ⟨t, found, extends'⟩
    · next theirs mine _ _ asked =>
        have differs : "sync_retained" ≠ table := fun same => by
          subst same
          unfold copied at own
          rw [Bool.or_eq_false_iff] at own
          rw [own.1] at asked
          exact asked rfl
        obtain ⟨d₁, first, ran⟩ := Option.bind_eq_some_iff.1 ran
        have found : d₁.tables.find "sync_retained" = some t := by
          rw [Database.update_other first differs, found]
        obtain ⟨d₂, second, ran⟩ := Option.bind_eq_some_iff.1 ran
        unfold haveRetained at second
        rw [found] at second
        obtain rfl := Option.some.inj second
        rw [Database.update_find ran, if_pos rfl, found]
        exact ⟨_, rfl, extends'.trans (insertOrIgnore_extends ..)⟩
  · rw [← Option.some.inj ran]
    exact ⟨t, found, extends'⟩

theorem foldlM_keepOwnerCapture_retained {json : List Cell → String} {sent : SnapshotMeta}
    {old d d' : Database} {names : List String} {rows : List Row}
    (ran : names.foldlM (keepOwnerCapture json sent old) d = some d')
    (own : copied sent "sync_retained" = false)
    (listed : ∃ t, d.tables.find "sync_retained" = some t ∧ Extends rows t.rows) :
    ∃ t, d'.tables.find "sync_retained" = some t ∧ Extends rows t.rows := by
  induction names generalizing d with
  | nil =>
      obtain rfl := Option.some.inj ran
      exact listed
  | cons n names ih =>
      obtain ⟨d₁, first, rest⟩ := Option.bind_eq_some_iff.1 ran
      exact ih rest (keepOwnerCapture_retained first own listed)

/-- What the statements after the copies leave alone: every table but the copied
ones, `sync_retained`, `changes` and `sync_state`. -/
def rewrittenTables : List String := ["sync_retained", "changes", "sync_state"]

theorem foldl_raiseSequence_tables (seqs : List (Int × Cell)) (d : Database) :
    (seqs.foldl (fun d s => d.raiseSequence "changes" s.1) d).tables = d.tables := by
  induction seqs generalizing d with
  | nil => rfl
  | cons s seqs ih => exact ih _

theorem rebuildChanges_other {now : String} {d d' : Database} {name : String}
    (ran : rebuildChanges now d = some d') (other : name ≠ "changes") :
    d'.tables.find name = d.tables.find name := by
  obtain ⟨documents, _, ran⟩ := Option.bind_eq_some_iff.1 ran
  dsimp only at ran
  split at ran
  · obtain ⟨d₁, wrote, ran⟩ := Option.bind_eq_some_iff.1 ran
    rw [← Option.some.inj ran, foldl_raiseSequence_tables, Database.update_other wrote other]
  · cases ran

/-- **A merge, statement by statement.** -/
theorem mergeLocalTables_cases {json : List Cell → String} {masterDeviceId : DeviceId}
    {now : String} {file old d : Database} {sent : SnapshotMeta}
    (pending : file.snapshotMeta = some sent)
    (merged : mergeLocalTables json masterDeviceId now file old = some d) :
    ∃ d₁ d₂ d₃ d₄ d₅ d₆ d₇,
      (localTables sent old).foldlM Database.createTable file = some d₁ ∧
      (localTables sent old).foldlM copyRows d₁ = some d₂ ∧
      (old.tables.rows.filter fun t => isShadow t && !copied sent t.name).foldlM copyShadow d₂ =
        some d₃ ∧
      (old.ownerCapture.filter fun n => (old.tables.find n).isSome).foldlM
        (keepOwnerCapture json sent old) d₃ = some d₄ ∧
      (localObjects sent old).foldlM Database.createObject d₄ = some d₅ ∧
      rebuildChanges now { d₅ with sequence := old.sequence } = some d₆ ∧
      follow masterDeviceId sent d₆ = some d₇ ∧ d = { d₇ with snapshotMeta := none } := by
  unfold mergeLocalTables at merged
  rw [pending] at merged
  obtain ⟨d₁, h₁, merged⟩ := Option.bind_eq_some_iff.1 merged
  obtain ⟨d₂, h₂, merged⟩ := Option.bind_eq_some_iff.1 merged
  obtain ⟨d₃, h₃, merged⟩ := Option.bind_eq_some_iff.1 merged
  obtain ⟨d₄, h₄, merged⟩ := Option.bind_eq_some_iff.1 merged
  obtain ⟨d₅, h₅, merged⟩ := Option.bind_eq_some_iff.1 merged
  obtain ⟨d₆, h₆, merged⟩ := Option.bind_eq_some_iff.1 merged
  obtain ⟨d₇, h₇, merged⟩ := Option.bind_eq_some_iff.1 merged
  exact ⟨d₁, d₂, d₃, d₄, d₅, d₆, d₇, h₁, h₂, h₃, h₄, h₅, h₆, h₇, (Option.some.inj merged).symm⟩

section Merged

variable {json : List Cell → String} {masterDeviceId : DeviceId} {now : String}
  {file old d : Database} {sent : SnapshotMeta}

theorem localTables_names (sent : SnapshotMeta) (old : Database) :
    ((localTables sent old).map TableFile.name).Nodup :=
  old.tables.nodup.sublist (List.filter_sublist.map _)

/-- The two loops over the local tables leave each plain one with its own rows. -/
theorem local_after_copies {d₁ d₂ : Database} {t : TableFile}
    (h₁ : (localTables sent old).foldlM Database.createTable file = some d₁)
    (h₂ : (localTables sent old).foldlM copyRows d₁ = some d₂)
    (mem : t ∈ old.tables.rows) (plain : t.kind = .plain) (own : copied sent t.name = false) :
    d₂.tables.find t.name = some t := by
  have mine : t ∈ localTables sent old := by simp [localTables, mem, own, isShadow, plain]
  exact foldlM_copyRows_find h₂ mine (localTables_names sent old) plain
    (foldlM_createTable_find h₁ mine)

/-- Copying shadow tables does not touch a plain one. -/
theorem local_after_shadows {d₂ d₃ : Database} {t : TableFile}
    (h₃ : (old.tables.rows.filter fun t => isShadow t && !copied sent t.name).foldlM copyShadow d₂ =
      some d₃)
    (mem : t ∈ old.tables.rows) (plain : t.kind = .plain) :
    d₃.tables.find t.name = d₂.tables.find t.name := by
  refine foldlM_same (fun s member d d' took => ?_) h₃
  refine Database.update_other took fun same => ?_
  have one : s = t := List.inj_on_of_nodup_map old.tables.nodup (List.mem_filter.1 member).1 mem
    same.symm
  simp [one, isShadow, plain] at member

/-- The statements after `copyShadow` keep a table that is not copied and none of
the rewritten ones. -/
theorem later_keeps {d₃ d₄ d₅ d₆ d₇ : Database} {name : String} {t : TableFile}
    (h₄ : (old.ownerCapture.filter fun n => (old.tables.find n).isSome).foldlM
      (keepOwnerCapture json sent old) d₃ = some d₄)
    (h₅ : (localObjects sent old).foldlM Database.createObject d₄ = some d₅)
    (h₆ : rebuildChanges now { d₅ with sequence := old.sequence } = some d₆)
    (h₇ : follow masterDeviceId sent d₆ = some d₇)
    (own : copied sent name = false) (kept : name ∉ rewrittenTables)
    (found : d₃.tables.find name = some t) : d₇.tables.find name = some t := by
  simp only [rewrittenTables, List.mem_cons, List.not_mem_nil, or_false, not_or] at kept
  rw [Database.update_other h₇ kept.2.2, rebuildChanges_other h₆ kept.2.1]
  show d₅.tables.find name = some t
  rw [Database.foldlM_createObject_tables h₅]
  exact foldlM_keeps (fun n _ _ _ took there => keepOwnerCapture_keeps took own kept.1 there) h₄ found

/-- **A local table of the old file is in the merged one exactly as it was**, each
row once. -/
theorem mergeLocalTables_local (pending : file.snapshotMeta = some sent)
    (merged : mergeLocalTables json masterDeviceId now file old = some d) {t : TableFile}
    (mem : t ∈ old.tables.rows) (plain : t.kind = .plain) (own : copied sent t.name = false)
    (kept : t.name ∉ rewrittenTables) : d.tables.find t.name = some t := by
  obtain ⟨d₁, d₂, d₃, d₄, d₅, d₆, d₇, h₁, h₂, h₃, h₄, h₅, h₆, h₇, rfl⟩ :=
    mergeLocalTables_cases pending merged
  have last : d₃.tables.find t.name = some t → d₇.tables.find t.name = some t :=
    later_keeps h₄ h₅ h₆ h₇ own kept
  apply last
  rw [local_after_shadows h₃ mem plain]
  exact local_after_copies h₁ h₂ mem plain own

/-- **The rows of a local virtual table**, which live in its shadow tables, are in
the merged file too. -/
theorem mergeLocalTables_shadow (pending : file.snapshotMeta = some sent)
    (merged : mergeLocalTables json masterDeviceId now file old = some d) {t : TableFile}
    (mem : t ∈ old.tables.rows) (shadow : t.kind = .shadow) (own : copied sent t.name = false)
    (kept : t.name ∉ rewrittenTables) :
    ∃ t', d.tables.find t.name = some t' ∧ t'.rows = t.rows := by
  obtain ⟨d₁, d₂, d₃, d₄, d₅, d₆, d₇, h₁, h₂, h₃, h₄, h₅, h₆, h₇, rfl⟩ :=
    mergeLocalTables_cases pending merged
  obtain ⟨t', found, rows⟩ := foldlM_copyShadow_find h₃ (t := t)
    (by simp [mem, own, isShadow, shadow]) (old.tables.nodup.sublist (List.filter_sublist.map _))
  have last : d₇.tables.find t.name = some t' := later_keeps h₄ h₅ h₆ h₇ own kept found
  exact ⟨t', last, rows⟩

/-- **The rows of `sync_retained`** stay, each once, before the ones a merge
notes. -/
theorem mergeLocalTables_retained (pending : file.snapshotMeta = some sent)
    (merged : mergeLocalTables json masterDeviceId now file old = some d) {t : TableFile}
    (mem : t ∈ old.tables.rows) (plain : t.kind = .plain) (own : copied sent t.name = false)
    (named : t.name = "sync_retained") :
    ∃ t', d.tables.find t.name = some t' ∧ Extends t.rows t'.rows := by
  obtain ⟨d₁, d₂, d₃, d₄, d₅, d₆, d₇, h₁, h₂, h₃, h₄, h₅, h₆, h₇, rfl⟩ :=
    mergeLocalTables_cases pending merged
  have there : d₃.tables.find t.name = some t := by
    rw [local_after_shadows h₃ mem plain]
    exact local_after_copies h₁ h₂ mem plain own
  obtain ⟨t', found, rows⟩ := foldlM_keepOwnerCapture_retained h₄ (named ▸ own)
    ⟨t, named ▸ there, .refl _⟩
  refine ⟨t', ?_, rows⟩
  show d₇.tables.find t.name = some t'
  rw [named, Database.update_other h₇ (by decide), rebuildChanges_other h₆ (by decide)]
  show d₅.tables.find _ = some t'
  rw [Database.foldlM_createObject_tables h₅, found]

/-- A merged file is not a snapshot any more. -/
theorem mergeLocalTables_plain
    (merged : mergeLocalTables json masterDeviceId now file old = some d) : d.snapshotMeta = none := by
  cases pending : file.snapshotMeta with
  | none =>
      unfold mergeLocalTables at merged
      rw [pending] at merged
      rw [← Option.some.inj merged, pending]
  | some sent =>
      obtain ⟨_, _, _, _, _, _, d₇, _, _, _, _, _, _, _, rfl⟩ := mergeLocalTables_cases pending merged
      rfl

end Merged

/-! ## `mergeIntoArchive` -/

def CARRIED_CORE_TABLES : List String :=
  ["outbox", "event_drafts", "attention_items", "attention_revisions"]

/-- What the copy wrote for the user, and so replaces the archive's. -/
def carriedOnRestore (name : String) : Bool :=
  CARRIED_CORE_TABLES.contains name ||
    (!COPIED_CORE_TABLES.contains name && !LOCAL_CORE_TABLES.contains name &&
      !isDerivedTable name && !startsWith "sync_" name && !startsWith "sqlite_" name)

def carriedTables (current : Database) : List TableFile :=
  current.tables.rows.filter fun t => !isShadow t && carriedOnRestore t.name

/-- The shadow tables of one virtual table, found by their names. -/
def shadowsNamed (current : Database) (t : TableFile) : List TableFile :=
  current.tables.rows.filter fun s => isShadow s && startsWith (t.name ++ "_") s.name

/-- `INSERT INTO main.t(list) SELECT list FROM cur.t`, over the columns both have. -/
def carriedRows (mine t : TableFile) : List Row :=
  if mine.columns.any fun c => t.columns.any fun c' => c'.name = c.name then
    t.rows.map fun r => mine.columns.map fun c =>
      (c.name, if t.columns.any fun c' => c'.name = c.name then r.get c.name else c.default)
  else []

/-- `if (fresh) db.exec(t.sql)`. -/
def createFresh (archive d : Database) (t : TableFile) : Option Database :=
  if archive.taken t.name then some d else d.createTable t

def carriedObjects (current : Database) (t : TableFile) : List SchemaObject :=
  current.objects.filter fun o => o.type ≠ .view && o.tblName = t.name

/-- One table of the copy, created when the archive was without it. -/
def carryTable (archive current d : Database) (t : TableFile) : Option Database := do
  let d ← createFresh archive d t
  if isVirtual t then (shadowsNamed current t).foldlM copyShadow d
  else do
    let mine ← d.tables.find t.name
    let d ← d.update t.name fun _ => carriedRows mine t
    if archive.taken t.name then some d
    else (carriedObjects current t).foldlM Database.createObject d

def carrySequence (names : List String) (current d : Database) : Database :=
  { d with sequence :=
      (d.sequence.filter fun e => !names.contains e.1) ++
        current.sequence.filter fun e => names.contains e.1 }

/-- `PAUSE_MOVED_SQL` on one account. -/
def pauseMoved (moved : List Row) (r : Row) : Row :=
  match moved.find? fun m => m.get "account_id" = r.get "id" with
  | some m =>
      (r.set "status" (.text "paused")).set "last_error"
        (match m.get "to_device" with
        | .text device => .text ("Moved to " ++ device)
        | _ => .null)
  | none => r

def pauseMovedAccounts (d : Database) : Option Database := do
  let moved ← d.tables.find "sync_moved"
  d.update "accounts" fun rows => rows.map (pauseMoved moved.rows)

/-- What the copy in `current` wrote since joining, folded into the archive. -/
def mergeIntoArchive (archive current : Database) : Option Database := do
  let d ← (carriedTables current).foldlM (carryTable archive current) archive
  let d ← (carrySequence ((carriedTables current).map TableFile.name) current d).update "sync_state"
    fun rows => rows.map fun r => r.set "joining" (.int 0)
  pauseMovedAccounts d

/-- The tables of the archive a restore writes the copy's rows into. -/
def carries (current : Database) (name : String) : Bool :=
  (carriedTables current).any fun t =>
    name = t.name || (isVirtual t && (shadowsNamed current t).any fun s => name = s.name)

theorem createFresh_keeps {archive d d' : Database} {t x : TableFile} {name : String}
    (made : createFresh archive d t = some d') (found : d.tables.find name = some x) :
    d'.tables.find name = some x := by
  unfold createFresh at made
  split at made
  · rw [← Option.some.inj made, found]
  · exact Database.createTable_keeps made found

/-- The last statements of `carryTable` create objects, not tables. -/
theorem carriedObjects_tables {archive current d d' : Database} {t : TableFile}
    (ran : (if archive.taken t.name then some d
      else (carriedObjects current t).foldlM Database.createObject d) = some d') :
    d'.tables = d.tables := by
  split at ran
  · rw [← Option.some.inj ran]
  · exact Database.foldlM_createObject_tables ran

theorem carryTable_keeps {archive current d d' : Database} {t x : TableFile} {name : String}
    (ran : carryTable archive current d t = some d') (other : name ≠ t.name)
    (apart : isVirtual t = true → ∀ s ∈ shadowsNamed current t, name ≠ s.name)
    (found : d.tables.find name = some x) : d'.tables.find name = some x := by
  obtain ⟨d₁, first, ran⟩ := Option.bind_eq_some_iff.1 ran
  have found : d₁.tables.find name = some x := createFresh_keeps first found
  split at ran
  · next shadows =>
      exact foldlM_keeps (fun s mem _ _ took there => by
        rw [Database.update_other took (apart shadows s mem), there]) ran found
  · obtain ⟨mine, _, ran⟩ := Option.bind_eq_some_iff.1 ran
    obtain ⟨d₂, second, ran⟩ := Option.bind_eq_some_iff.1 ran
    rw [carriedObjects_tables ran, Database.update_other second other, found]

theorem carryTable_plain {archive current d d' : Database} {t : TableFile}
    (ran : carryTable archive current d t = some d') (plain : t.kind = .plain) :
    ∃ mine : TableFile, d'.tables.find t.name = some { mine with rows := carriedRows mine t } := by
  obtain ⟨d₁, first, ran⟩ := Option.bind_eq_some_iff.1 ran
  simp only [isVirtual, plain, Bool.false_eq_true, if_false] at ran
  obtain ⟨mine, found, ran⟩ := Option.bind_eq_some_iff.1 ran
  obtain ⟨d₂, second, ran⟩ := Option.bind_eq_some_iff.1 ran
  refine ⟨mine, ?_⟩
  rw [carriedObjects_tables ran, Database.update_find second, if_pos rfl, found, Option.map_some]

/-- **A restore leaves the archive's own tables alone**: every table of it that the
copy does not carry, but for `sync_state` and the accounts that moved. -/
theorem mergeIntoArchive_own {archive current d : Database} {x : TableFile} {name : String}
    (merged : mergeIntoArchive archive current = some d) (own : carries current name = false)
    (kept : name ≠ "sync_state" ∧ name ≠ "accounts") (found : archive.tables.find name = some x) :
    d.tables.find name = some x := by
  obtain ⟨d₁, first, merged⟩ := Option.bind_eq_some_iff.1 merged
  obtain ⟨d₂, second, merged⟩ := Option.bind_eq_some_iff.1 merged
  obtain ⟨moved, _, last⟩ := Option.bind_eq_some_iff.1 merged
  rw [Database.update_other last kept.2, Database.update_other second kept.1]
  show d₁.tables.find name = some x
  refine foldlM_keeps (fun t mem _ _ took there => ?_) first found
  have apart := List.any_eq_false.1 own t mem
  simp only [Bool.or_eq_true, decide_eq_true_eq, Bool.and_eq_true, not_or] at apart
  refine carryTable_keeps took apart.1 (fun shadows s inside same => apart.2 ⟨shadows, ?_⟩) there
  exact List.any_eq_true.2 ⟨s, inside, decide_eq_true same⟩

/-- A plain table of the copy is written once in the loop, by its own turn. -/
theorem foldlM_carryTable_plain {archive current : Database} {ts : List TableFile} {t : TableFile}
    {d d' : Database} (ran : ts.foldlM (carryTable archive current) d = some d') (mem : t ∈ ts)
    (names : (ts.map TableFile.name).Nodup) (plain : t.kind = .plain)
    (there : t ∈ current.tables.rows) :
    ∃ mine : TableFile, d'.tables.find t.name = some { mine with rows := carriedRows mine t } := by
  induction ts generalizing d with
  | nil => cases mem
  | cons x ts ih =>
      obtain ⟨d₁, first, rest⟩ := Option.bind_eq_some_iff.1 ran
      rw [List.map_cons, List.nodup_cons] at names
      rcases List.mem_cons.1 mem with rfl | later
      · obtain ⟨mine, found⟩ := carryTable_plain first plain
        refine ⟨mine, foldlM_keeps (fun y later d d' took held => ?_) rest found⟩
        refine carryTable_keeps took (fun same => names.1 (same ▸ List.mem_map_of_mem later))
          (fun _ s inside same => ?_) held
        have one : s = t := List.inj_on_of_nodup_map current.tables.nodup
          (List.mem_filter.1 inside).1 there same.symm
        simp [one, shadowsNamed, isShadow, plain] at inside
      · exact ih rest later names.2

/-- **A plain table the copy carries** has the copy's rows after a restore. -/
theorem mergeIntoArchive_carried {archive current d : Database} {t : TableFile}
    (merged : mergeIntoArchive archive current = some d) (mem : t ∈ carriedTables current)
    (plain : t.kind = .plain) :
    ∃ mine : TableFile, d.tables.find t.name = some { mine with rows := carriedRows mine t } := by
  obtain ⟨d₁, first, merged⟩ := Option.bind_eq_some_iff.1 merged
  obtain ⟨d₂, second, merged⟩ := Option.bind_eq_some_iff.1 merged
  obtain ⟨moved, _, last⟩ := Option.bind_eq_some_iff.1 merged
  obtain ⟨there, carried⟩ := List.mem_filter.1 mem
  rw [Bool.and_eq_true] at carried
  have notState : t.name ≠ "sync_state" := fun same => by
    rw [same] at carried
    exact absurd carried.2 (by decide)
  have notAccounts : t.name ≠ "accounts" := fun same => by
    rw [same] at carried
    exact absurd carried.2 (by decide)
  obtain ⟨mine, found⟩ := foldlM_carryTable_plain first mem
    (current.tables.nodup.sublist (List.filter_sublist.map _)) plain there
  refine ⟨mine, ?_⟩
  rw [Database.update_other last notAccounts, Database.update_other second notState]
  exact found

end Kiagent.Sync.Swap
