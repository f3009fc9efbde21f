/-
# Store.Db -- one device's database, and its write statements

`Db` holds the copied tables, the change log, the tracker's `sync_rows` and
`sync_imported`, the single row of `sync_state`, the logins, the delivery queue
and the workers' durable state.  The statements below are the only way the
models above this one change a copied table.  Each fires the triggers
`syncTriggers` installs, in their order:

* insert, update and delete on every copied table but `documents` track the
  row's key; an update that moves the key also tracks the old one, after it;
* `documents` feed from `seq`, so only deletes and updates that keep `seq` are
  tracked.

Deleting an account deletes the rows that hang from it, with their triggers.
-/
import Kiagent.Theory.Table
import Kiagent.Theory.SeqLog
import Kiagent.Store.Batch
import Mathlib.Logic.Function.Basic

namespace Kiagent.Store

open Kiagent.Theory

set_option autoImplicit false

/-! ## Device-local rows -/

inductive ChangeKind where
  | document
  | purge
  | account
  | accountRemoved
  deriving DecidableEq, Repr

structure ChangeRow where
  kind : ChangeKind
  refId : String
  time : Time
  deriving DecidableEq, Repr

inductive SyncRole where
  | normal
  | follower
  deriving DecidableEq, Repr

/-- The row of `sync_state`. -/
structure SyncState where
  tracking : Bool
  role : SyncRole
  afterSeq : Nat
  afterCursor : Nat
  masterDeviceId : Option DeviceId
  joining : Bool
  joined : Bool
  epoch : Nat
  deviceId : Option DeviceId
  preDemoteEpoch : Option Nat
  headPending : Bool
  deriving DecidableEq, Repr

structure VaultRow where
  accountId : AccountId
  blob : String
  epoch : Nat
  n : Nat
  deriving DecidableEq, Repr

/-- The account an owner's batch belongs to; it travels with every batch. -/
structure OwnedAccount where
  id : AccountId
  source : String
  identifier : String
  config : String
  cadence : Option String
  ownerDeviceId : Option DeviceId
  deriving DecidableEq, Repr

/-- A `core.commitBatch` delivery. -/
structure CommitInput where
  account : OwnedAccount
  batch : CommitBatch
  deriving DecidableEq, Repr

structure ConsumerRow where
  name : String
  cursor : Nat
  deriving DecidableEq, Repr

structure LedgerRow where
  consumer : String
  seq : Nat
  attempts : Nat
  outcome : Option Outcome
  deriving DecidableEq, Repr

/-! ## The database -/

structure Db where
  tables : (t : Tbl) → Table (RowOf t) (keyOf t)
  /-- The synced tables of the registered plugins, in registry order. -/
  plugins : List String
  changes : SeqLog ChangeRow
  syncRows : KeyedLog (Tbl × Key)
  imported : KeyedLog (Tbl × Key)
  state : SyncState
  vault : Table VaultRow VaultRow.accountId
  outbound : SeqLog CommitInput
  consumers : Table ConsumerRow ConsumerRow.name
  ledger : Table LedgerRow fun r => (r.consumer, r.seq)

/-- The row `sync_state` starts with. -/
def SyncState.fresh : SyncState where
  tracking := false
  role := .normal
  afterSeq := 0
  afterCursor := 0
  masterDeviceId := none
  joining := false
  joined := false
  epoch := 0
  deviceId := none
  preDemoteEpoch := none
  headPending := false

namespace Db

/-- The database of a new install. -/
def fresh : Db where
  tables _ := Table.empty
  plugins := []
  changes := SeqLog.empty
  syncRows := KeyedLog.empty
  imported := KeyedLog.empty
  state := SyncState.fresh
  vault := Table.empty
  outbound := SeqLog.empty
  consumers := Table.empty
  ledger := Table.empty

/-- `copiedTables`: the core list, then the plugins' tables. -/
def copiedTables (db : Db) : List Tbl := copiedCoreTables ++ db.plugins.map Tbl.plugin

def find (db : Db) (t : Tbl) (k : Key) : Option (RowOf t) := (db.tables t).find k

def rows (db : Db) (t : Tbl) : List (RowOf t) := (db.tables t).rows

def documents (db : Db) : List DocRow := db.rows .documents

def setTable (db : Db) (t : Tbl) (table : Table (RowOf t) (keyOf t)) : Db :=
  { db with tables := Function.update db.tables t table }

@[simp] theorem setTable_tables_same (db : Db) (t : Tbl) (table : Table (RowOf t) (keyOf t)) :
    (db.setTable t table).tables t = table :=
  Function.update_self _ _ _

theorem setTable_tables_ne (db : Db) (t : Tbl) (table : Table (RowOf t) (keyOf t)) {t' : Tbl}
    (ne : t' ≠ t) : (db.setTable t table).tables t' = db.tables t' :=
  Function.update_of_ne ne _ _

/-! ## The tracker -/

/-- `trackKey`, when tracking is on. -/
def track (db : Db) (t : Tbl) (k : Key) : Db :=
  if db.state.tracking then { db with syncRows := db.syncRows.touch (t, k) } else db

@[simp] theorem track_tables (db : Db) (t : Tbl) (k : Key) : (db.track t k).tables = db.tables := by
  unfold track; split <;> rfl

/-! ## Statements -/

/-- The sequence number the next change row takes. -/
def nextSeq (db : Db) : Nat := db.changes.next

def appendChange (db : Db) (kind : ChangeKind) (refId : String) (now : Time) : Db :=
  { db with changes := db.changes.append ⟨kind, refId, now⟩ }

/-- The insert trigger: none on `documents`. -/
def onInsert (db : Db) (t : Tbl) (k : Key) : Db :=
  match t with
  | .documents => db
  | t => db.track t k

/-- The update trigger, for a row that was `old` and is `new`. -/
def onUpdate (db : Db) : (t : Tbl) → (old new : RowOf t) → Db
  | .documents, old, new =>
      if new.seq = old.seq then db.track .documents (keyOf .documents new) else db
  | t, old, new =>
      let db := db.track t (keyOf t new)
      if keyOf t old = keyOf t new then db else db.track t (keyOf t old)

/-- `INSERT` of a row whose key is free. -/
def insertRow (db : Db) (t : Tbl) (r : RowOf t) : Db :=
  (db.setTable t ((db.tables t).put r)).onInsert t (keyOf t r)

/-- `UPDATE .. WHERE key = k`: the row becomes `f` of it, in its place unless
its key moves. -/
def updateRow (db : Db) (t : Tbl) (k : Key) (f : RowOf t → RowOf t) : Db :=
  match db.find t k with
  | none => db
  | some old =>
      if keyOf t (f old) = k then
        (db.setTable t ((db.tables t).put (f old))).onUpdate t old (f old)
      else
        (db.setTable t (((db.tables t).erase k).put (f old))).onUpdate t old (f old)

/-- `DELETE .. WHERE key = k`, without the foreign keys' part. -/
def deleteKey (db : Db) (t : Tbl) (k : Key) : Db :=
  match db.find t k with
  | none => db
  | some _ => (db.setTable t ((db.tables t).erase k)).track t k

/-- The keys of the rows of `t` that hang from an account. -/
def childKeys (db : Db) (t : Tbl) (account : AccountId) : List Key :=
  ((db.rows t).filter fun r => accountOf t r = some account).map (keyOf t)

/-- `DELETE .. WHERE` the row hangs from this account, row by row. -/
def deleteChildren (db : Db) (t : Tbl) (account : AccountId) : Db :=
  (db.childKeys t account).foldl (fun db k => db.deleteKey t k) db

/-- `ON DELETE CASCADE` from an account. -/
def cascade (db : Db) (account : AccountId) : Db :=
  accountChildren.foldl (fun db t => db.deleteChildren t account) db

/-- `DELETE .. WHERE key = k`: an account goes after the rows that hang from it. -/
def deleteRow (db : Db) : Tbl → Key → Db
  | .accounts, [.text id] => (db.cascade id).deleteKey .accounts [.text id]
  | t, k => db.deleteKey t k

/-- `INSERT .. ON CONFLICT(key) DO UPDATE SET` every other column. -/
def upsertRow (db : Db) (t : Tbl) (r : RowOf t) : Db :=
  match db.find t (keyOf t r) with
  | none => db.insertRow t r
  | some _ => db.updateRow t (keyOf t r) fun _ => r

/-- Every row that hangs from an account hangs from one that is there: what
SQLite checks when a transaction with deferred foreign keys commits. -/
def foreignKeysHold (db : Db) : Bool :=
  accountChildren.all fun t => (db.rows t).all fun r =>
    match accountOf t r with
    | none => true
    | some a => (db.find .accounts [.text a]).isSome

theorem foreignKeysHold_iff {db : Db} :
    db.foreignKeysHold = true ↔
      ∀ t k r a, db.find t k = some r → accountOf t r = some a →
        (db.find .accounts [.text a]).isSome = true := by
  simp only [foreignKeysHold, List.all_eq_true]
  constructor
  · intro held t k r a found hangs
    have child : t ∈ accountChildren := by
      by_contra other
      rw [accountOf_eq_none t r other] at hangs
      cases hangs
    have check := held t child r (Table.find_mem found)
    rwa [hangs] at check
  · intro held t _ r mem
    split
    · rfl
    · rename_i a hangs
      exact held t (keyOf t r) r a (Table.find_of_mem mem) hangs

/-! ## What a statement leaves alone -/

/-- Everything a statement on a copied table leaves as it is: all but the copied
tables and the tracker's rows. -/
structure Frame (db db' : Db) : Prop where
  plugins : db'.plugins = db.plugins
  changes : db'.changes = db.changes
  imported : db'.imported = db.imported
  state : db'.state = db.state
  vault : db'.vault = db.vault
  outbound : db'.outbound = db.outbound
  consumers : db'.consumers = db.consumers
  ledger : db'.ledger = db.ledger

theorem Frame.refl (db : Db) : Frame db db := ⟨rfl, rfl, rfl, rfl, rfl, rfl, rfl, rfl⟩

theorem Frame.trans {a b c : Db} (first : Frame a b) (second : Frame b c) : Frame a c where
  plugins := second.plugins.trans first.plugins
  changes := second.changes.trans first.changes
  imported := second.imported.trans first.imported
  state := second.state.trans first.state
  vault := second.vault.trans first.vault
  outbound := second.outbound.trans first.outbound
  consumers := second.consumers.trans first.consumers
  ledger := second.ledger.trans first.ledger

theorem setTable_frame (db : Db) (t : Tbl) (table : Table (RowOf t) (keyOf t)) :
    Frame db (db.setTable t table) := ⟨rfl, rfl, rfl, rfl, rfl, rfl, rfl, rfl⟩

theorem track_frame (db : Db) (t : Tbl) (k : Key) : Frame db (db.track t k) := by
  unfold track
  split
  · exact ⟨rfl, rfl, rfl, rfl, rfl, rfl, rfl, rfl⟩
  · exact Frame.refl db

theorem onInsert_frame (db : Db) (t : Tbl) (k : Key) : Frame db (db.onInsert t k) := by
  unfold onInsert
  split
  · exact Frame.refl db
  · exact track_frame db t k

theorem onUpdate_frame (db : Db) (t : Tbl) (old new : RowOf t) :
    Frame db (db.onUpdate t old new) := by
  unfold onUpdate
  split <;> split
  · exact track_frame db _ _
  · exact Frame.refl db
  · exact track_frame db _ _
  · exact (track_frame db _ _).trans (track_frame _ _ _)

theorem insertRow_frame (db : Db) (t : Tbl) (r : RowOf t) : Frame db (db.insertRow t r) :=
  (setTable_frame db t _).trans (onInsert_frame _ _ _)

theorem updateRow_frame (db : Db) (t : Tbl) (k : Key) (f : RowOf t → RowOf t) :
    Frame db (db.updateRow t k f) := by
  unfold updateRow
  split
  · exact Frame.refl db
  · split <;> exact (setTable_frame db t _).trans (onUpdate_frame _ _ _ _)

theorem upsertRow_frame (db : Db) (t : Tbl) (r : RowOf t) : Frame db (db.upsertRow t r) := by
  unfold upsertRow
  split
  · exact insertRow_frame db t r
  · exact updateRow_frame db t _ _

theorem deleteKey_frame (db : Db) (t : Tbl) (k : Key) : Frame db (db.deleteKey t k) := by
  unfold deleteKey
  split
  · exact Frame.refl db
  · exact (setTable_frame db t _).trans (track_frame _ _ _)

theorem foldl_frame {α : Type} (step : Db → α → Db) (each : ∀ db a, Frame db (step db a)) :
    (as : List α) → (db : Db) → Frame db (as.foldl step db)
  | [], db => Frame.refl db
  | a :: as, db => (each db a).trans (foldl_frame step each as (step db a))

theorem deleteChildren_frame (db : Db) (t : Tbl) (account : AccountId) :
    Frame db (db.deleteChildren t account) :=
  foldl_frame _ (fun db k => deleteKey_frame db t k) _ db

theorem deleteRow_frame (db : Db) (t : Tbl) (k : Key) : Frame db (db.deleteRow t k) := by
  unfold deleteRow
  split
  · exact (foldl_frame _ (fun db t => deleteChildren_frame db t _) _ db).trans
      (deleteKey_frame _ _ _)
  · exact deleteKey_frame db _ _

@[simp] theorem onInsert_tables (db : Db) (t : Tbl) (k : Key) :
    (db.onInsert t k).tables = db.tables := by
  unfold onInsert; split <;> simp

@[simp] theorem onUpdate_tables (db : Db) (t : Tbl) (old new : RowOf t) :
    (db.onUpdate t old new).tables = db.tables := by
  unfold onUpdate; split <;> (try split) <;> simp

/-- Databases that differ outside the copied tables find the same rows. -/
theorem find_of_tables {db db' : Db} (same : db'.tables = db.tables) (t : Tbl) (k : Key) :
    db'.find t k = db.find t k := by
  rw [find, find, same]

theorem find_setTable_self (db : Db) (t : Tbl) (table : Table (RowOf t) (keyOf t)) (k : Key) :
    (db.setTable t table).find t k = table.find k := by
  rw [find, setTable_tables_same]

theorem find_setTable_ne (db : Db) (t : Tbl) (table : Table (RowOf t) (keyOf t)) {t' : Tbl}
    (ne : t' ≠ t) (k : Key) : (db.setTable t table).find t' k = db.find t' k := by
  rw [find, setTable_tables_ne db t table ne, find]

/-- A statement leaves the other tables as they are. -/
theorem insertRow_tables_ne (db : Db) (t : Tbl) (r : RowOf t) {t' : Tbl} (ne : t' ≠ t) :
    (db.insertRow t r).tables t' = db.tables t' := by
  rw [insertRow, onInsert_tables, setTable_tables_ne _ _ _ ne]

theorem updateRow_tables_ne (db : Db) (t : Tbl) (k : Key) (f : RowOf t → RowOf t) {t' : Tbl}
    (ne : t' ≠ t) : (db.updateRow t k f).tables t' = db.tables t' := by
  unfold updateRow
  split
  · rfl
  · split <;> rw [onUpdate_tables, setTable_tables_ne _ _ _ ne]

@[simp] theorem appendChange_find (db : Db) (kind : ChangeKind) (refId : String) (now : Time)
    (t : Tbl) (k : Key) : (db.appendChange kind refId now).find t k = db.find t k := rfl

theorem onInsert_eq (db : Db) {t : Tbl} (k : Key) (other : t ≠ .documents) :
    db.onInsert t k = db.track t k := by
  cases t <;> first | rfl | exact absurd rfl other

theorem onUpdate_eq (db : Db) {t : Tbl} (old new : RowOf t) (other : t ≠ .documents) :
    db.onUpdate t old new =
      if keyOf t old = keyOf t new then db.track t (keyOf t new)
      else (db.track t (keyOf t new)).track t (keyOf t old) := by
  cases t <;> first | rfl | exact absurd rfl other

theorem track_syncRows {db : Db} (on : db.state.tracking = true) (t : Tbl) (k : Key) :
    (db.track t k).syncRows = db.syncRows.touch (t, k) := by
  rw [track, if_pos on]

section Untracked

variable {db : Db} (off : db.state.tracking = false)

include off

theorem track_untracked (t : Tbl) (k : Key) : db.track t k = db := by
  rw [track, if_neg (by simp [off])]

theorem onInsert_untracked (t : Tbl) (k : Key) : db.onInsert t k = db := by
  unfold onInsert
  split
  · rfl
  · exact track_untracked off t k

theorem onUpdate_untracked (t : Tbl) (old new : RowOf t) : db.onUpdate t old new = db := by
  unfold onUpdate
  split <;> split <;> simp only [track_untracked off]

theorem insertRow_untracked (t : Tbl) (r : RowOf t) : (db.insertRow t r).syncRows = db.syncRows := by
  rw [insertRow, onInsert_untracked (by exact off)]
  rfl

theorem updateRow_untracked (t : Tbl) (k : Key) (f : RowOf t → RowOf t) :
    (db.updateRow t k f).syncRows = db.syncRows := by
  unfold updateRow
  split
  · rfl
  · split <;> rw [onUpdate_untracked (by exact off)] <;> rfl

theorem upsertRow_untracked (t : Tbl) (r : RowOf t) : (db.upsertRow t r).syncRows = db.syncRows := by
  unfold upsertRow
  split
  · exact insertRow_untracked off t r
  · exact updateRow_untracked off t _ _

theorem deleteKey_untracked (t : Tbl) (k : Key) : (db.deleteKey t k).syncRows = db.syncRows := by
  unfold deleteKey
  split
  · rfl
  · rw [track_untracked (by exact off)]
    rfl

theorem foldl_untracked {α : Type} (step : Db → α → Db) (each : ∀ db a, Frame db (step db a))
    (quiet : ∀ db a, db.state.tracking = false → (step db a).syncRows = db.syncRows)
    (as : List α) : (as.foldl step db).syncRows = db.syncRows := by
  induction as generalizing db with
  | nil => rfl
  | cons a as ih =>
      exact (ih (by rw [(each db a).state]; exact off)).trans (quiet db a off)

theorem deleteChildren_untracked (t : Tbl) (account : AccountId) :
    (db.deleteChildren t account).syncRows = db.syncRows :=
  foldl_untracked off _ (fun db k => deleteKey_frame db t k)
    (fun _ k off => deleteKey_untracked off t k) _

theorem deleteRow_untracked (t : Tbl) (k : Key) : (db.deleteRow t k).syncRows = db.syncRows := by
  unfold deleteRow
  split
  · rename_i id
    have gone : Frame db (db.cascade id) :=
      foldl_frame _ (fun db t => deleteChildren_frame db t id) _ db
    rw [deleteKey_untracked (by rw [gone.state]; exact off)]
    exact foldl_untracked off _ (fun db t => deleteChildren_frame db t id)
      (fun _ t off => deleteChildren_untracked off t id) _
  · exact deleteKey_untracked off _ _

end Untracked

/-! ## What a statement makes a key find -/

/-- An update that keeps the key rewrites the row in its place. -/
theorem rows_updateRow (db : Db) (t : Tbl) (k : Key) (f : RowOf t → RowOf t)
    (sameKey : ∀ r, keyOf t (f r) = keyOf t r) :
    (db.updateRow t k f).rows t = (db.rows t).map fun r => if keyOf t r = k then f r else r := by
  cases found : db.find t k with
  | none =>
      have absent : ∀ r ∈ db.rows t, keyOf t r ≠ k := by
        rintro r mem rfl
        have there : db.find t (keyOf t r) = some r := Table.find_of_mem mem
        rw [found] at there
        cases there
      rw [updateRow, found]
      exact ((List.map_congr_left fun r mem => if_neg (absent r mem)).trans (List.map_id' _)).symm
  | some old =>
      have key : keyOf t old = k := Table.find_key found
      have same : keyOf t (f old) = k := (sameKey old).trans key
      have self : (db.tables t).find (keyOf t (f old)) = some old := by
        rw [same]
        exact found
      simp only [updateRow, found, if_pos same]
      rw [rows, onUpdate_tables, setTable_tables_same]
      simp only [Table.put, self]
      refine List.map_congr_left fun r mem => ?_
      by_cases here : keyOf t r = k
      · have only : db.find t (keyOf t r) = some r := Table.find_of_mem mem
        rw [here, found] at only
        obtain rfl : old = r := Option.some.inj only
        rw [if_pos (by rw [same, here]), if_pos here]
      · rw [if_neg (by rw [same]; exact here), if_neg here]

theorem rows_insertRow {db : Db} {t : Tbl} {r : RowOf t} (free : db.find t (keyOf t r) = none) :
    (db.insertRow t r).rows t = db.rows t ++ [r] := by
  have self : (db.tables t).find (keyOf t r) = none := free
  rw [insertRow, rows, onInsert_tables, setTable_tables_same]
  simp only [Table.put, self]
  rfl

theorem insertRow_find_self (db : Db) (t : Tbl) (r : RowOf t) :
    (db.insertRow t r).find t (keyOf t r) = some r := by
  rw [insertRow, find_of_tables (onInsert_tables _ _ _), find_setTable_self]
  exact Table.find_put_self _ _

theorem insertRow_find_ne (db : Db) (t : Tbl) (r : RowOf t) {t' : Tbl} {k : Key}
    (ne : (t', k) ≠ (t, keyOf t r)) : (db.insertRow t r).find t' k = db.find t' k := by
  rw [insertRow, find_of_tables (onInsert_tables _ _ _)]
  by_cases same : t' = t
  · subst same
    rw [find_setTable_self, Table.find_put, if_neg fun h => ne (by rw [h])]
    rfl
  · exact find_setTable_ne _ _ _ same _

theorem updateRow_none {db : Db} {t : Tbl} {k : Key} (f : RowOf t → RowOf t)
    (missing : db.find t k = none) : db.updateRow t k f = db := by
  simp only [updateRow, missing]

theorem updateRow_find_new {db : Db} {t : Tbl} {k : Key} (f : RowOf t → RowOf t) {old : RowOf t}
    (found : db.find t k = some old) :
    (db.updateRow t k f).find t (keyOf t (f old)) = some (f old) := by
  simp only [updateRow, found]
  split <;> rw [find_of_tables (onUpdate_tables _ _ _ _), find_setTable_self] <;>
    exact Table.find_put_self _ _

theorem updateRow_find_ne {db : Db} {t : Tbl} {k : Key} (f : RowOf t → RowOf t) {old : RowOf t}
    (found : db.find t k = some old) {t' : Tbl} {k' : Key} (ne : (t', k') ≠ (t, k))
    (ne' : (t', k') ≠ (t, keyOf t (f old))) : (db.updateRow t k f).find t' k' = db.find t' k' := by
  simp only [updateRow, found]
  by_cases same : t' = t
  · subst same
    have off : keyOf t' (f old) ≠ k' := fun h => ne' (by rw [h])
    have off' : k' ≠ k := fun h => ne (by rw [h])
    split <;> rw [find_of_tables (onUpdate_tables _ _ _ _), find_setTable_self,
      Table.find_put, if_neg off]
    · rfl
    · rw [Table.find_erase, if_neg off']
      rfl
  · split <;> rw [find_of_tables (onUpdate_tables _ _ _ _)] <;> exact find_setTable_ne _ _ _ same _

theorem upsertRow_find_self (db : Db) (t : Tbl) (r : RowOf t) :
    (db.upsertRow t r).find t (keyOf t r) = some r := by
  unfold upsertRow
  split
  · exact insertRow_find_self db t r
  · rename_i old found
    exact updateRow_find_new _ found

theorem upsertRow_find_ne (db : Db) (t : Tbl) (r : RowOf t) {t' : Tbl} {k : Key}
    (ne : (t', k) ≠ (t, keyOf t r)) : (db.upsertRow t r).find t' k = db.find t' k := by
  unfold upsertRow
  split
  · exact insertRow_find_ne db t r ne
  · rename_i old found
    exact updateRow_find_ne _ found ne ne

theorem deleteKey_find (db : Db) (t : Tbl) (k : Key) (t' : Tbl) (k' : Key) :
    (db.deleteKey t k).find t' k' = if (t', k') = (t, k) then none else db.find t' k' := by
  unfold deleteKey
  split
  · rename_i missing
    split
    · rename_i here
      obtain ⟨rfl, rfl⟩ := Prod.mk.inj here
      exact missing
    · rfl
  · rw [find_of_tables (track_tables _ _ _)]
    by_cases same : t' = t
    · subst same
      rw [find_setTable_self, Table.find_erase]
      simp [find]
    · rw [find_setTable_ne _ _ _ same, if_neg fun h => same (Prod.mk.inj h).1]

theorem deleteKeys_find (t : Tbl) (t' : Tbl) (k' : Key) :
    (ks : List Key) → (db : Db) →
      (ks.foldl (fun db k => db.deleteKey t k) db).find t' k' =
        if t' = t ∧ k' ∈ ks then none else db.find t' k'
  | [], db => by simp
  | k :: ks, db => by
      rw [List.foldl_cons, deleteKeys_find t t' k' ks, deleteKey_find]
      by_cases same : t' = t <;> by_cases here : k' = k <;> by_cases later : k' ∈ ks <;>
        simp [same, here, later]

theorem mem_childKeys {db : Db} {t : Tbl} {account : AccountId} {k : Key} :
    k ∈ db.childKeys t account ↔ ∃ r, db.find t k = some r ∧ accountOf t r = some account := by
  simp only [childKeys, List.mem_map, List.mem_filter, decide_eq_true_eq]
  constructor
  · rintro ⟨r, ⟨mem, hangs⟩, rfl⟩
    exact ⟨r, Table.find_of_mem mem, hangs⟩
  · rintro ⟨r, found, hangs⟩
    exact ⟨r, ⟨Table.find_mem found, hangs⟩, Table.find_key found⟩

theorem deleteChildren_find (db : Db) (t : Tbl) (account : AccountId) (t' : Tbl) (k : Key) :
    (db.deleteChildren t account).find t' k =
      (db.find t' k).filter fun r => !(decide (t' = t) && decide (accountOf t' r = some account)) := by
  rw [deleteChildren, deleteKeys_find]
  by_cases same : t' = t
  · subst same
    simp only [true_and, mem_childKeys]
    cases found : db.find t' k with
    | none => simp
    | some r => by_cases hangs : accountOf t' r = some account <;> simp [Option.filter, hangs]
  · cases found : db.find t' k <;> simp [Option.filter, same]

/-- **A cascade removes exactly the rows that hang from the account.** -/
theorem cascade_find (db : Db) (account : AccountId) (t : Tbl) (k : Key) :
    (db.cascade account).find t k =
      (db.find t k).filter fun r => !decide (accountOf t r = some account) := by
  simp only [cascade, accountChildren, List.foldl_cons, List.foldl_nil, deleteChildren_find]
  cases found : db.find t k with
  | none => rfl
  | some r =>
      cases t <;>
        by_cases hangs : accountOf _ r = some account <;>
        simp_all [Option.filter, accountOf]

theorem deleteAccount_find (db : Db) (account : AccountId) (t : Tbl) (k : Key) :
    (db.deleteRow .accounts [.text account]).find t k =
      if (t, k) = (.accounts, [.text account]) then none
      else (db.find t k).filter fun r => !decide (accountOf t r = some account) := by
  rw [deleteRow, deleteKey_find, cascade_find]

/-- A delete on any other table, or under a key no account has, removes one row at most. -/
theorem deleteRow_find_other (db : Db) {t : Tbl} {k : Key}
    (other : ∀ id, (t, k) ≠ (.accounts, [.text id])) (t' : Tbl) (k' : Key) :
    (db.deleteRow t k).find t' k' = if (t', k') = (t, k) then none else db.find t' k' := by
  unfold deleteRow
  split
  · rename_i id
    exact absurd rfl (other id)
  · exact deleteKey_find db _ _ t' k'

/-- A delete adds no row. -/
theorem deleteRow_find_some {db : Db} {t t' : Tbl} {k k' : Key} {r : RowOf t'}
    (found : (db.deleteRow t k).find t' k' = some r) : db.find t' k' = some r := by
  by_cases account : ∃ id, (t, k) = (.accounts, [.text id])
  · obtain ⟨id, here⟩ := account
    obtain ⟨rfl, rfl⟩ := Prod.mk.inj here
    rw [deleteAccount_find] at found
    split at found
    · cases found
    · exact (Option.filter_eq_some_iff.1 found).1
  · rw [deleteRow_find_other db (fun id h => account ⟨id, h⟩)] at found
    split at found
    · cases found
    · exact found

/-- Deletes keep the foreign keys: an account takes its rows with it. -/
theorem foreignKeysHold_deleteRow {db : Db} (held : db.foreignKeysHold = true) (t : Tbl)
    (k : Key) : (db.deleteRow t k).foreignKeysHold = true := by
  rw [foreignKeysHold_iff] at held ⊢
  intro t' k' r a found hangs
  have before := deleteRow_find_some found
  have there := held t' k' r a before hangs
  by_cases account : ∃ id, (t, k) = (.accounts, [.text id])
  · obtain ⟨id, here⟩ := account
    obtain ⟨rfl, rfl⟩ := Prod.mk.inj here
    rw [deleteAccount_find] at found ⊢
    have kept : a ≠ id := by
      rintro rfl
      split at found
      · cases found
      · have keep := (Option.filter_eq_some_iff.1 found).2
        simp [hangs] at keep
    obtain ⟨acc, accFound⟩ := Option.isSome_iff_exists.1 there
    simp [accFound, Option.filter, accountOf, kept]
  · rw [deleteRow_find_other db fun id h => account ⟨id, h⟩]
    by_cases here : (Tbl.accounts, [Cell.text a]) = (t, k)
    · exact absurd ⟨a, here.symm⟩ account
    · rw [if_neg here]
      exact there

end Db

end Kiagent.Store
