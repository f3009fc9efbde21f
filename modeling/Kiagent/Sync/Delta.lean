/-
# Sync.Delta -- what a leader sends and what a follower does with it

`buildDelta` lists whole current rows above a two-part cursor: deletes first,
children before parents, then upserts, parents first.  `applyDeltaTx` replays
the list on a follower inside one transaction with deferred foreign keys, notes
in `sync_imported` the keys a later leader of this device would have to relay,
and stores the target.

A delta is characterised by two facts about its entries: they are true of the
leader (`mem_deltaDeletes`, `mem_deltaUpserts`), and every marked key has one
(`delete_of_marked`, `upsert_of_marked`).  Applying is characterised phase by
phase: `applyDeletes_find_*` and `applyUpserts_find`.
-/
import Kiagent.Sync.Tracking
import Mathlib.Data.List.Sort

namespace Kiagent.Sync

open Kiagent.Theory Kiagent.Store

set_option autoImplicit false

inductive StageEntry where
  | delete (t : Tbl) (pk : Key)
  | upsert (t : Tbl) (row : RowOf t)

def StageEntry.tbl : StageEntry → Tbl
  | .delete t _ => t
  | .upsert t _ => t

structure Delta where
  entries : List StageEntry
  target : SyncCursor
  /-- Where the answer started: the asked cursor, or a lower grant. -/
  start : SyncCursor
  epoch : Nat

inductive DeltaResult where
  | ok (delta : Delta)
  | tooLarge

/-! ## Building -/

/-- The grants of the epochs above `epoch`, in order. -/
def grantsAbove (db : Db) (epoch : Nat) : List EpochRow :=
  ((db.rows .syncEpochs).filter fun (g : EpochRow) => epoch < g.epoch).insertionSort
    fun a b => a.epoch ≤ b.epoch

/-- A follower of an older epoch is served from the lowest grant of the epochs
it has not seen. -/
def rewound (db : Db) (after : SyncCursor) (fromEpoch : Nat) : SyncCursor :=
  if db.state.epoch ≤ fromEpoch then after
  else
    let grants := grantsAbove db fromEpoch
    match (grants.map EpochRow.grantSeq).min?, (grants.map EpochRow.grantCursor).min? with
    | some seq, some cursor => ⟨min after.seq seq, min after.cursor cursor⟩
    | _, _ => after

/-- The keys of `t` tracked above the start, in the order they were tracked. -/
def trackedKeys (db : Db) (start : SyncCursor) (t : Tbl) : List Key :=
  ((db.syncRows.keysSince start.cursor).filter fun e => e.1 = t).map Prod.snd

def deltaDeletes (db : Db) (start : SyncCursor) : List StageEntry :=
  db.copiedTables.reverse.flatMap fun t =>
    ((trackedKeys db start t).filter fun k => (db.find t k).isNone).map (.delete t)

/-- The rows of the tracked keys that are there. -/
def trackedRows (db : Db) (start : SyncCursor) (t : Tbl) : List (RowOf t) :=
  (trackedKeys db start t).filterMap (db.find t)

/-- Documents above the start by their number, then the tracked ones below it. -/
def documentUpserts (db : Db) (start : SyncCursor) : List DocRow :=
  ((db.documents.filter fun d => start.seq < d.seq).insertionSort fun a b => a.seq ≤ b.seq) ++
    (trackedRows db start .documents).filter fun (d : DocRow) => d.seq ≤ start.seq

/-- The grant ledger travels whole above the asker's epoch. -/
def epochUpserts (db : Db) (start : SyncCursor) (fromEpoch : Nat) : List EpochRow :=
  trackedRows db start .syncEpochs ++
    (grantsAbove db fromEpoch).filter fun g =>
      keyOf .syncEpochs g ∉ trackedKeys db start .syncEpochs

def tableUpserts (db : Db) (start : SyncCursor) (fromEpoch : Nat) : (t : Tbl) → List (RowOf t)
  | .documents => documentUpserts db start
  | .syncEpochs => epochUpserts db start fromEpoch
  | t => trackedRows db start t

def deltaUpserts (db : Db) (start : SyncCursor) (fromEpoch : Nat) : List StageEntry :=
  db.copiedTables.flatMap fun t => (tableUpserts db start fromEpoch t).map (.upsert t)

/-- `MAX(seq)` over the documents. -/
def documentHead (db : Db) : Nat := (db.documents.map DocRow.seq).foldr max 0

/-- The whole answer, in one read transaction.  `lineLength` is the length of an
entry's line in the stage file; an answer over the cap is refused. -/
def buildDelta (lineLength : StageEntry → Nat) (db : Db) (asked : SyncCursor)
    (fromEpoch capBytes : Nat) : DeltaResult :=
  let start := rewound db asked fromEpoch
  let entries := deltaDeletes db start ++ deltaUpserts db start fromEpoch
  if capBytes < (entries.map lineLength).sum then .tooLarge
  else
    .ok { entries, start, epoch := db.state.epoch
          target := ⟨max (documentHead db) start.seq, max db.syncRows.head start.cursor⟩ }

theorem le_documentHead {db : Db} {k : Key} {d : DocRow}
    (found : db.find .documents k = some d) : d.seq ≤ documentHead db :=
  SeqLog.le_foldr_max _ (List.mem_map_of_mem (Table.find_mem found))

theorem documentHead_le {db : Db} (consistent : Consistent db) :
    documentHead db ≤ db.changes.counter := by
  apply SeqLog.foldr_max_le
  intro n mem
  obtain ⟨d, there, rfl⟩ := List.mem_map.1 mem
  exact consistent.seqs _ d (Table.find_of_mem there)

theorem min?_le {l : List Nat} {m x : Nat} (least : l.min? = some m) (mem : x ∈ l) : m ≤ x :=
  (List.min?_eq_some_iff.1 least).2 x mem

theorem mem_grantsAbove {db : Db} {epoch : Nat} {g : EpochRow} :
    g ∈ grantsAbove db epoch ↔
      db.find .syncEpochs (keyOf .syncEpochs g) = some g ∧ epoch < g.epoch := by
  rw [grantsAbove, List.mem_insertionSort, List.mem_filter, decide_eq_true_eq]
  exact and_congr_left fun _ =>
    ⟨fun mem => Table.find_of_mem mem, fun found => Table.find_mem found⟩

/-- A follower of an older epoch starts at or below every grant it has not seen. -/
theorem rewound_le {db : Db} {asked : SyncCursor} {fromEpoch : Nat} {g : EpochRow}
    (recorded : db.find .syncEpochs (keyOf .syncEpochs g) = some g)
    (unseen : fromEpoch < g.epoch) (older : fromEpoch < db.state.epoch) :
    (rewound db asked fromEpoch).seq ≤ g.grantSeq ∧
      (rewound db asked fromEpoch).cursor ≤ g.grantCursor := by
  have mem := mem_grantsAbove.2 ⟨recorded, unseen⟩
  have seqMem := List.mem_map_of_mem (f := EpochRow.grantSeq) mem
  have cursorMem := List.mem_map_of_mem (f := EpochRow.grantCursor) mem
  obtain ⟨seq, leastSeq⟩ := Option.isSome_iff_exists.1 (List.isSome_min?_of_mem seqMem)
  obtain ⟨cursor, leastCursor⟩ := Option.isSome_iff_exists.1 (List.isSome_min?_of_mem cursorMem)
  simp only [rewound, if_neg (Nat.not_le.2 older), leastSeq, leastCursor]
  exact ⟨Nat.le_trans (Nat.min_le_right _ _) (min?_le leastSeq seqMem),
    Nat.le_trans (Nat.min_le_right _ _) (min?_le leastCursor cursorMem)⟩

/-! ## Applying -/

/-- Everything applied must reach a device that skips this one's leader: kept
until this device leads, then published. -/
def noteKey (db : Db) (t : Tbl) (pk : Key) : Db :=
  { db with imported := db.imported.note (t, pk) }

/-- `INSERT OR IGNORE INTO changes`, under the leader's number. -/
def addChange (db : Db) (seq : Nat) (id : DocumentId) (now : Time) : Db :=
  { db with changes := db.changes.insertAt seq ⟨.document, id, now⟩ }

/-- A document that moves to a higher number is found by it; one that keeps its
number, or arrives without one, is found only by its key. -/
def noteDocument (db : Db) (row : DocRow) : Db :=
  if row.seq = 0 ∨ ((db.find .documents (keyOf .documents row)).any fun (before : DocRow) =>
      row.seq ≤ before.seq) then
    noteKey db .documents (keyOf .documents row)
  else db

def applyEntry (now : Time) (db : Db) : StageEntry → Db
  | .delete t pk => (noteKey db t pk).deleteRow t pk
  | .upsert .documents row =>
      let db := (noteDocument db row).upsertRow .documents row
      if 0 < row.seq then addChange db row.seq row.id now else db
  | .upsert t row => (noteKey db t (keyOf t row)).upsertRow t row

inductive ApplyError where
  | notFollower
  | unknownTable (t : Tbl)
  | foreignKey

def storeTarget (db : Db) (target : SyncCursor) (epoch : Nat) : Db :=
  { db with state := { db.state with
      afterSeq := target.seq, afterCursor := target.cursor, epoch } }

/-- One transaction: all of the entries and the new position, or nothing. -/
def applyDeltaTx (now : Time) (db : Db) (entries : List StageEntry) (target : SyncCursor)
    (epoch : Nat) : Except ApplyError Db :=
  if db.state.role ≠ .follower then .error .notFollower
  else
    match entries.find? fun e => e.tbl ∉ db.copiedTables with
    | some e => .error (.unknownTable e.tbl)
    | none =>
        let db := storeTarget (entries.foldl (applyEntry now) db) target epoch
        if db.foreignKeysHold then .ok db else .error .foreignKey

/-! ## The entries of a delta -/

theorem mem_trackedKeys {db : Db} {start : SyncCursor} {t : Tbl} {k : Key} :
    k ∈ trackedKeys db start t ↔
      ∃ n, db.syncRows.numberOf (t, k) = some n ∧ start.cursor < n := by
  rw [← KeyedLog.mem_since_iff]
  simp only [trackedKeys, List.mem_map, List.mem_filter, decide_eq_true_eq]
  constructor
  · rintro ⟨⟨t', k'⟩, ⟨mem, rfl⟩, rfl⟩
    exact mem
  · intro mem
    exact ⟨(t, k), ⟨mem, rfl⟩, rfl⟩

theorem mem_trackedRows {db : Db} {start : SyncCursor} {t : Tbl} {r : RowOf t} :
    r ∈ trackedRows db start t ↔
      keyOf t r ∈ trackedKeys db start t ∧ db.find t (keyOf t r) = some r := by
  simp only [trackedRows, List.mem_filterMap]
  constructor
  · rintro ⟨k, mem, found⟩
    obtain rfl : keyOf t r = k := Table.find_key found
    exact ⟨mem, found⟩
  · rintro ⟨mem, found⟩
    exact ⟨_, mem, found⟩

/-- A delete is of a row the leader does not have. -/
theorem mem_deltaDeletes {db : Db} {start : SyncCursor} {e : StageEntry}
    (mem : e ∈ deltaDeletes db start) : ∃ t k, e = .delete t k ∧ db.find t k = none ∧
      t ∈ db.copiedTables := by
  simp only [deltaDeletes, List.mem_flatMap, List.mem_reverse, List.mem_map, List.mem_filter,
    Option.isNone_iff_eq_none] at mem
  obtain ⟨t, copied, k, ⟨-, gone⟩, rfl⟩ := mem
  exact ⟨t, k, rfl, gone, copied⟩

theorem mem_tableUpserts {db : Db} {start : SyncCursor} {fromEpoch : Nat} {t : Tbl} {r : RowOf t}
    (mem : r ∈ tableUpserts db start fromEpoch t) : db.find t (keyOf t r) = some r := by
  have tracked : ∀ {t : Tbl} {r : RowOf t}, r ∈ trackedRows db start t →
      db.find t (keyOf t r) = some r := fun mem => (mem_trackedRows.1 mem).2
  cases t with
  | documents =>
      rcases List.mem_append.1 mem with bySeq | byKey
      · rw [List.mem_insertionSort, List.mem_filter] at bySeq
        exact Table.find_of_mem bySeq.1
      · exact tracked (List.mem_of_mem_filter byKey)
  | syncEpochs =>
      rcases List.mem_append.1 mem with byKey | grant
      · exact tracked byKey
      · have above := List.mem_of_mem_filter grant
        rw [grantsAbove, List.mem_insertionSort, List.mem_filter] at above
        exact Table.find_of_mem above.1
  | accounts | outbox | eventDrafts | attentionItems | attentionRevisions | userPrefs
  | plugin name => exact tracked mem

/-- An upsert carries the leader's row. -/
theorem mem_deltaUpserts {db : Db} {start : SyncCursor} {fromEpoch : Nat} {e : StageEntry}
    (mem : e ∈ deltaUpserts db start fromEpoch) :
    ∃ (t : Tbl) (r : RowOf t), e = .upsert t r ∧ db.find t (keyOf t r) = some r ∧
      t ∈ db.copiedTables := by
  simp only [deltaUpserts, List.mem_flatMap, List.mem_map] at mem
  obtain ⟨t, copied, r, mem, rfl⟩ := mem
  exact ⟨t, r, rfl, mem_tableUpserts mem, copied⟩

/-- A marked key whose row is gone is deleted. -/
theorem delete_of_marked {db : Db} {start : SyncCursor} {t : Tbl} {k : Key}
    (copied : t ∈ db.copiedTables) (marked : Marked start db t k)
    (gone : db.find t k = none) : .delete t k ∈ deltaDeletes db start := by
  simp only [deltaDeletes, List.mem_flatMap, List.mem_reverse, List.mem_map, List.mem_filter,
    Option.isNone_iff_eq_none]
  refine ⟨t, copied, k, ⟨?_, gone⟩, rfl⟩
  rcases marked with tracked | ⟨rfl, d, found, -⟩
  · exact mem_trackedKeys.2 tracked
  · rw [gone] at found
    cases found

/-- A marked key whose row is there is sent. -/
theorem upsert_of_marked {db : Db} {start : SyncCursor} (fromEpoch : Nat) {t : Tbl} {k : Key}
    {r : RowOf t} (copied : t ∈ db.copiedTables) (marked : Marked start db t k)
    (found : db.find t k = some r) : .upsert t r ∈ deltaUpserts db start fromEpoch := by
  simp only [deltaUpserts, List.mem_flatMap, List.mem_map]
  refine ⟨t, copied, r, ?_, rfl⟩
  obtain rfl : keyOf t r = k := Table.find_key found
  have tracked : (∃ n, db.syncRows.numberOf (t, keyOf t r) = some n ∧ start.cursor < n) →
      r ∈ trackedRows db start t := fun above =>
    mem_trackedRows.2 ⟨mem_trackedKeys.2 above, found⟩
  have above : t ≠ .documents → r ∈ trackedRows db start t := by
    intro other
    rcases marked with above | ⟨documents, -⟩
    · exact tracked above
    · exact absurd documents other
  cases t with
  | documents =>
      by_cases high : start.seq < r.seq
      · refine List.mem_append_left _ ?_
        rw [List.mem_insertionSort, List.mem_filter]
        exact ⟨Table.find_mem found, by simpa using high⟩
      · refine List.mem_append_right _ (List.mem_filter.2 ⟨?_, by simpa using high⟩)
        rcases marked with above | ⟨-, d, found', high'⟩
        · exact tracked above
        · obtain rfl : r = d := Option.some.inj (found.symm.trans found')
          exact absurd high' high
  | syncEpochs => exact List.mem_append_left _ (above (by simp))
  | accounts | outbox | eventDrafts | attentionItems | attentionRevisions | userPrefs
  | plugin name => exact above (by simp)

end Kiagent.Sync
