/-
# App.Projection -- the per-account counts a window shows

`init` counts an account's live documents and lists its archived ones.  `apply` then
keeps the count over the change feed: an archived document that comes back counts one
more, one that goes into the archive one less, and the change whose number is the
document's ingest number one more.  A change comes with the document as it is when it
is read.

A follower's copy is written by deltas, which log nothing for an account, nothing for a
delete, and a document only under its current number.  `counts_of_told`: on any store,
along writes that tell the log what they do, a projection that has caught up counts
exactly.  `follower_not_counted` is a delta whose document is never counted.
-/
import Kiagent.Store.Chronicle
import Kiagent.Store.Feed
import Kiagent.Sync.Delta
import Kiagent.Theory.Runs

namespace Kiagent.App

open Kiagent.Theory Kiagent.Store Kiagent.Sync

set_option autoImplicit false

/-! ## The state of the projection -/

structure RecentDoc where
  id : DocumentId
  title : Option String
  ts : Time
  deriving DecidableEq, Repr

structure AccountEntry where
  account : AccountRow
  docCount : Nat
  recent : List RecentDoc
  deriving DecidableEq, Repr

/-- The account of an entry, by which `findIndex` looks it up. -/
def AccountEntry.id (e : AccountEntry) : AccountId := e.account.id

/-- The accounts of `AppState`, and the archived documents kept beside it. -/
structure AppState where
  accounts : Table AccountEntry AccountEntry.id
  archived : List (AccountId × DocumentId)

def recentMax : Nat := 5

/-- Cursors never reach windows. -/
def projected (a : AccountRow) : AccountRow := { a with cursor := none }

def recentOf (d : DocRow) : RecentDoc := ⟨d.id, d.title, d.updatedAt⟩

/-! ## From the store -/

/-- The live documents of an account. -/
def liveOf (db : Db) (account : AccountId) : List DocRow :=
  db.documents.filter fun d => decide (d.accountId = account) && d.live

def archivedIds (db : Db) (account : AccountId) : List DocumentId :=
  (db.documents.filter fun d => decide (d.accountId = account) && !d.live).map DocRow.id

/-- `ORDER BY COALESCE(created_at, ingested_at) DESC, id DESC`. -/
def moreRecent (d d' : DocRow) : Bool :=
  let date := fun d : DocRow => d.createdAt.getD d.ingestedAt
  decide (date d' < date d) || (decide (date d = date d') && decide (d'.id ≤ d.id))

def initEntry (db : Db) (a : AccountRow) : AccountEntry where
  account := projected a
  docCount := (liveOf db a.id).length
  recent := (((liveOf db a.id).mergeSort moreRecent).take recentMax).map recentOf

def accountsOf (db : Db) : List AccountRow := db.rows .accounts

theorem accounts_nodup (db : Db) : ((accountsOf db).map AccountRow.id).Nodup := by
  have keys := (db.tables .accounts).nodup
  have same : (db.tables .accounts).rows.map (keyOf .accounts) =
      ((accountsOf db).map AccountRow.id).map fun id => [Cell.text id] := by
    rw [List.map_map]
    rfl
  rw [same] at keys
  exact keys.of_map

def init (db : Db) : AppState where
  accounts := ⟨(accountsOf db).map (initEntry db), by
    rw [List.map_map]
    exact accounts_nodup db⟩
  archived := (accountsOf db).flatMap fun a => (archivedIds db a.id).map fun id => (a.id, id)

/-! ## Over the feed -/

/-- What a change adds to the count: one for the change that inserted the document, one
for a restore, one less for an archive. -/
def countDelta (seq : Nat) (d : DocRow) (wasArchived : Bool) : Int :=
  let inserted : Int := if seq = d.ingestSeq.getD 0 then 1 else 0
  inserted + if d.live then (if wasArchived then 1 else 0) else if wasArchived then 0 else -1

def recentAfter (d : DocRow) (recent : List RecentDoc) : List RecentDoc :=
  let others := recent.filter fun r => decide (r.id ≠ d.id)
  if d.live then (recentOf d :: others).take recentMax else others

def archivedAfter (d : DocRow) (archived : List (AccountId × DocumentId)) :
    List (AccountId × DocumentId) :=
  if d.live then archived.filter fun e => decide (e ≠ (d.accountId, d.id))
  else if (d.accountId, d.id) ∈ archived then archived else (d.accountId, d.id) :: archived

def applyDocument (s : AppState) (seq : Nat) (d : DocRow) : AppState :=
  match s.accounts.find d.accountId with
  | none => s
  | some entry =>
      let wasArchived := decide ((d.accountId, d.id) ∈ s.archived)
      { accounts := s.accounts.put { entry with
          -- `Math.max(0, ..)`
          docCount := ((entry.docCount : Int) + countDelta seq d wasArchived).toNat
          recent := recentAfter d entry.recent }
        archived := archivedAfter d s.archived }

/-- The entry of an account, with what it counted, or a new one. -/
def accountEntry (s : AppState) (a : AccountRow) : AccountEntry :=
  ((s.accounts.find a.id).map fun e => { e with account := projected a }).getD ⟨projected a, 0, []⟩

def applyChange (s : AppState) : Change → AppState
  | .account _ a => { s with accounts := s.accounts.put (accountEntry s a) }
  | .accountRemoved _ id =>
      { accounts := s.accounts.erase id
        archived := s.archived.filter fun e => decide (e.1 ≠ id) }
  | .document seq d => applyDocument s seq d
  -- Only archived rows are purged, and they left the count when they were archived.
  | .purge _ id => { s with archived := s.archived.filter fun e => decide (e.2 ≠ id) }

def apply (s : AppState) (changes : List Change) : AppState := changes.foldl applyChange s

/-! ## The projection beside the store -/

/-- The feed reads a window of the log, then the documents and accounts its rows name. -/
structure View where
  state : AppState
  cursor : Nat
  window : List (Nat × ChangeRow)

/-- The last number of a window, or the cursor before it. -/
def View.high (v : View) : Nat := ((v.window.getLast?).map Prod.fst).getD v.cursor

structure System where
  db : Db
  view : View

/-- `init`, then the head of the log. -/
def startView (db : Db) : View := ⟨init db, db.changes.head, []⟩

def System.start (db : Db) : System := ⟨db, startView db⟩

inductive Act where
  | commit (now : Time) (publishedAt : Option Time) (batch : CommitBatch)
  /-- A chunk of a reconcile pass. -/
  | archive (now : Time) (account : AccountId) (startSeq limit : Nat) (pick : List DocumentId)
      (st : Staging)
  | connect (now : Time) (source identifier : String)
  | delta (now : Time) (entries : List StageEntry) (target : SyncCursor) (epoch : Nat)
  /-- Anything that changes the device's part in the sync, and no row. -/
  | role (state : SyncState)
  | restart
  /-- The next window is of `n` rows, or of all there are. -/
  | window (n : Nat)
  | load

/-- A write that fails leaves the store as it was. -/
def step (deps : Deps) (s : System) : Act → Option System
  | .commit now publishedAt batch =>
      match commitTx deps now publishedAt batch s.db with
      | .ok r => some { s with db := r.1 }
      | .error _ => some s
  | .archive now account startSeq limit pick st =>
      (reconcileArchiveChunk now account startSeq limit pick s.db st).map fun r =>
        { s with db := r.1 }
  | .connect now source identifier =>
      some { s with db := (getOrCreateAccount deps now source identifier s.db).1 }
  | .delta now entries target epoch =>
      match applyDeltaTx now s.db entries target epoch with
      | .ok db => some { s with db }
      | .error _ => some s
  | .role state => some { s with db := { s.db with state } }
  | .restart => some (System.start s.db)
  | .window n =>
      if s.view.window = [] then
        some { s with view := { s.view with window := (s.db.changes.since s.view.cursor).take n } }
      else none
  | .load =>
      let changes := s.view.window.filterMap (materializeRow s.db true)
      some { s with view := ⟨apply s.view.state changes, s.view.high, []⟩ }

/-- No row of the log is left to apply. -/
def CaughtUp (s : System) : Prop :=
  s.view.window = [] ∧ ∀ e ∈ s.db.changes.entries, e.1 ≤ s.view.cursor

/-! ## Writes that tell the log -/

instance concerns_decidable (x : DocumentId) (a : AccountId) (e : Tally.Event DocumentId AccountId) :
    Decidable (e.Concerns x a) :=
  match e with
  | .member y => inferInstanceAs (Decidable (y = x))
  | .purged y => inferInstanceAs (Decidable (y = x))
  | .group b => inferInstanceAs (Decidable (b = a))
  | .dropped b => inferInstanceAs (Decidable (b = a))

/-- A number no row has, and no window has passed. -/
def Fresh (high : Nat) (db : Db) (n : Nat) : Prop :=
  high < n ∧ ∀ e ∈ db.changes.entries, e.1 ≠ n

instance fresh_decidable (high : Nat) (db : Db) (n : Nat) : Decidable (Fresh high db n) :=
  inferInstanceAs (Decidable (_ ∧ _))

/-- A document that is new arrives as its first change left it, after all the log says
of it and its account.  One that is there keeps its number and stays live or archived,
or moves on to a fresh number. -/
def DocumentTells (deps : Deps) (high : Nat) (db : Db) (row : DocRow) : Prop :=
  match docOf db row.id with
  | none =>
      row.id = documentId deps row.accountId row.ref ∧ hasAccount db row.accountId = true ∧
        row.ingestSeq = some row.seq ∧ Fresh high db row.seq ∧
        ∀ e ∈ db.changes.entries, (eventOf e.2).Concerns row.id row.accountId → e.1 < row.seq
  | some d =>
      row.natural = d.natural ∧ row.ingestSeq = d.ingestSeq ∧
        ((row.seq = d.seq ∧ row.live = d.live) ∨ (d.seq < row.seq ∧ Fresh high db row.seq))

/-- A delta logs a document and nothing else, so it may neither bring nor take an account,
nor take a document. -/
def EntryTells (deps : Deps) (high : Nat) (db : Db) : StageEntry → Prop
  | .delete .documents pk => db.find .documents pk = none
  | .delete .accounts pk => db.find .accounts pk = none
  | .delete _ _ => True
  | .upsert .documents row => DocumentTells deps high db row
  | .upsert .accounts row => hasAccount db row.id = true
  | .upsert _ _ => True

def EntriesTell (deps : Deps) (high : Nat) (now : Time) : Db → List StageEntry → Prop
  | _, [] => True
  | db, e :: es => EntryTells deps high db e ∧ EntriesTell deps high now (applyEntry now db e) es

/-- What the projection can follow.  A purge deletes only documents whose last change
is applied. -/
def Tells (deps : Deps) (s : System) : Act → Prop
  | .commit _ _ (.purgeArchived before) =>
      ∀ d ∈ s.db.documents, d.archivedAt.any (· < before) = true → d.seq ≤ s.view.cursor
  | .delta now entries target epoch =>
      match applyDeltaTx now s.db entries target epoch with
      | .ok _ => EntriesTell deps s.view.high now s.db entries
      | .error _ => True
  | _ => True

instance caughtUp_decidable (s : System) : Decidable (CaughtUp s) :=
  inferInstanceAs (Decidable (_ ∧ _))

instance documentTells_decidable (deps : Deps) (high : Nat) (db : Db) (row : DocRow) :
    Decidable (DocumentTells deps high db row) :=
  match found : docOf db row.id with
  | none => decidable_of_iff
      (row.id = documentId deps row.accountId row.ref ∧ hasAccount db row.accountId = true ∧
        row.ingestSeq = some row.seq ∧ Fresh high db row.seq ∧
        ∀ e ∈ db.changes.entries, (eventOf e.2).Concerns row.id row.accountId → e.1 < row.seq)
      (by rw [DocumentTells, found])
  | some d => decidable_of_iff
      (row.natural = d.natural ∧ row.ingestSeq = d.ingestSeq ∧
        ((row.seq = d.seq ∧ row.live = d.live) ∨ (d.seq < row.seq ∧ Fresh high db row.seq)))
      (by rw [DocumentTells, found])

instance entryTells_decidable (deps : Deps) (high : Nat) (db : Db) :
    (e : StageEntry) → Decidable (EntryTells deps high db e)
  | .delete .documents pk => decidable_of_iff ((db.find .documents pk).isNone = true)
      Option.isNone_iff_eq_none
  | .delete .accounts pk => decidable_of_iff ((db.find .accounts pk).isNone = true)
      Option.isNone_iff_eq_none
  | .delete .outbox _ | .delete .eventDrafts _ | .delete .syncEpochs _ | .delete .attentionItems _
  | .delete .attentionRevisions _ | .delete .userPrefs _ | .delete (.plugin _) _ => .isTrue trivial
  | .upsert .documents row => documentTells_decidable deps high db row
  | .upsert .accounts row => inferInstanceAs (Decidable (hasAccount db (AccountRow.id row) = true))
  | .upsert .outbox _ | .upsert .eventDrafts _ | .upsert .syncEpochs _ | .upsert .attentionItems _
  | .upsert .attentionRevisions _ | .upsert .userPrefs _ | .upsert (.plugin _) _ => .isTrue trivial

instance entriesTell_decidable (deps : Deps) (high : Nat) (now : Time) :
    (db : Db) → (entries : List StageEntry) → Decidable (EntriesTell deps high now db entries)
  | _, [] => .isTrue trivial
  | db, e :: es =>
      have : Decidable (EntriesTell deps high now (applyEntry now db e) es) :=
        entriesTell_decidable deps high now (applyEntry now db e) es
      inferInstanceAs (Decidable (EntryTells deps high db e ∧ _))

instance tells_decidable (deps : Deps) (s : System) : (a : Act) → Decidable (Tells deps s a)
  | .commit _ _ (.purgeArchived before) => inferInstanceAs (Decidable (∀ d ∈ s.db.documents,
      d.archivedAt.any (· < before) = true → d.seq ≤ s.view.cursor))
  | .commit _ _ (.account _) | .commit _ _ (.consumer _) | .commit _ _ (.removeAccount _)
  | .archive .. | .connect .. | .role _ | .restart | .window _ | .load => .isTrue trivial
  | .delta now entries target epoch =>
      match applied : applyDeltaTx now s.db entries target epoch with
      | .ok _ => decidable_of_iff (EntriesTell deps s.view.high now s.db entries)
          (by simp only [Tells, applied])
      | .error _ => .isTrue (by simp only [Tells, applied])

/-! ## The projection reads a chronicle -/

def reader (s : AppState) (cursor : Nat) : Tally.Reader DocumentId AccountId where
  count a := (s.accounts.find a).map AccountEntry.docCount
  aside a x := decide ((a, x) ∈ s.archived)
  cursor := cursor

/-- The state after one row of a window. -/
def applyRow (db : Db) (s : AppState) (e : Nat × ChangeRow) : AppState :=
  ((materializeRow db true e).map (applyChange s)).getD s

theorem find_put_count (accounts : Table AccountEntry AccountEntry.id) (entry : AccountEntry)
    (a : AccountId) : ((accounts.put entry).find a).map AccountEntry.docCount =
      Function.update (fun b => (accounts.find b).map AccountEntry.docCount) entry.id
        (some entry.docCount) a := by
  rw [Table.find_put]
  by_cases here : entry.id = a
  · rw [if_pos here, ← here, Function.update_self]
    rfl
  · rw [if_neg here, Function.update_of_ne (Ne.symm here)]

theorem mem_archivedAfter {d : DocRow} {archived : List (AccountId × DocumentId)}
    {e : AccountId × DocumentId} : e ∈ archivedAfter d archived ↔
      if e = (d.accountId, d.id) then d.live = false else e ∈ archived := by
  unfold archivedAfter
  by_cases here : e = (d.accountId, d.id)
  · subst here
    rw [if_pos rfl]
    cases d.live
    · by_cases was : (d.accountId, d.id) ∈ archived <;> simp [was]
    · simp
  · rw [if_neg here]
    cases d.live
    · by_cases was : (d.accountId, d.id) ∈ archived <;> simp [was, here]
    · simp [here]

theorem decide_mem_filter (p : AccountId × DocumentId → Bool) (l : List (AccountId × DocumentId))
    (e : AccountId × DocumentId) : decide (e ∈ l.filter p) = (p e && decide (e ∈ l)) := by
  rw [Bool.eq_iff_iff, decide_eq_true_iff, List.mem_filter, Bool.and_eq_true, decide_eq_true_iff]
  exact and_comm

theorem materialize_document (db : Db) (n : Nat) (row : ChangeRow) (kind : row.kind = .document) :
    materializeRow db true (n, row) = (docOf db row.refId).map (Change.document n) := by
  rw [materializeRow, kind]
  show (db.find .documents [.text row.refId]).bind _ = _
  rw [docOf]
  cases db.find .documents [.text row.refId] <;> rfl

theorem reader_document (db : Db) (s : AppState) (cursor n : Nat) (row : ChangeRow)
    (kind : row.kind = .document) : reader (applyRow db s (n, row)) n =
      (reader s cursor).read (chronicle db) n (.member row.refId) := by
  have member : (chronicle db).member row.refId = (docOf db row.refId).map memberOf := rfl
  rw [applyRow, materialize_document db n row kind, Tally.Reader.read, member]
  cases found : docOf db row.refId with
  | none => rfl
  | some d =>
      have id : d.id = row.refId := docOf_id found
      show reader (applyDocument s n d) n = _
      unfold applyDocument
      cases shown : s.accounts.find d.accountId with
      | none =>
          have count : (reader s cursor).count (memberOf d).group = none := by
            show (s.accounts.find d.accountId).map _ = none
            rw [shown]
            rfl
          simp only [Option.map_some, count]
          rfl
      | some entry =>
          have count : (reader s cursor).count (memberOf d).group = some entry.docCount := by
            show (s.accounts.find d.accountId).map _ = _
            rw [shown]
            rfl
          have key : entry.id = d.accountId := Table.find_key shown
          simp only [Option.map_some, count]
          unfold reader
          congr 1
          · funext a
            rw [find_put_count]
            show Function.update _ entry.id _ a = _
            rw [key]
            rw [← id]
            rfl
          · funext a x
            rw [Bool.eq_iff_iff, decide_eq_true_iff, mem_archivedAfter, ← id]
            show _ ↔ (if a = d.accountId ∧ x = d.id then !d.live else decide ((a, x) ∈ s.archived)) = true
            by_cases here : (a, x) = (d.accountId, d.id)
            · rw [if_pos here, if_pos (Prod.mk.inj here)]
              cases d.live <;> simp
            · rw [if_neg here, if_neg fun both => here (Prod.ext both.1 both.2), decide_eq_true_iff]

theorem accountEntry_id (s : AppState) (a : AccountRow) : (accountEntry s a).id = a.id := by
  unfold accountEntry
  cases s.accounts.find a.id <;> rfl

theorem accountEntry_count (s : AppState) (a : AccountRow) : (accountEntry s a).docCount =
    ((s.accounts.find a.id).map AccountEntry.docCount).getD 0 := by
  unfold accountEntry
  cases s.accounts.find a.id <;> rfl

theorem reader_account (db : Db) (s : AppState) (cursor n : Nat) (row : ChangeRow)
    (kind : row.kind = .account) : reader (applyRow db s (n, row)) n =
      (reader s cursor).read (chronicle db) n (.group row.refId) := by
  have group : (chronicle db).group row.refId = (db.find .accounts [.text row.refId]).isSome := rfl
  rw [applyRow, materializeRow, kind, Tally.Reader.read]
  dsimp only
  rw [group]
  cases found : db.find .accounts [.text row.refId] with
  | none => rfl
  | some a =>
      have key : keyOf .accounts a = [.text row.refId] := Table.find_key found
      have id : AccountRow.id a = row.refId := by simpa [keyOf] using key
      rw [Option.isSome_some, if_pos rfl]
      unfold reader
      congr 1
      funext x
      show ((s.accounts.put (accountEntry s a)).find x).map _ = _
      rw [find_put_count, accountEntry_id, accountEntry_count, id]

/-- **One row of a window is one entry read.** -/
theorem reader_row (db : Db) (s : AppState) (cursor : Nat) (e : Nat × ChangeRow) :
    reader (applyRow db s e) e.1 = (reader s cursor).read (chronicle db) e.1 (eventOf e.2) := by
  obtain ⟨n, row⟩ := e
  cases kind : row.kind with
  | document =>
      rw [eventOf, kind]
      exact reader_document db s cursor n row kind
  | account =>
      rw [eventOf, kind]
      exact reader_account db s cursor n row kind
  | purge =>
      rw [eventOf, kind, applyRow, materializeRow, kind]
      unfold reader Tally.Reader.read
      congr 1
      funext a x
      refine (decide_mem_filter _ s.archived (a, x)).trans ?_
      rw [decide_not]
  | accountRemoved =>
      rw [eventOf, kind, applyRow, materializeRow, kind]
      unfold reader Tally.Reader.read
      congr 1
      · funext a
        show ((s.accounts.erase row.refId).find a).map _ = _
        rw [Table.find_erase]
        by_cases here : a = row.refId
        · rw [if_pos here, here, Function.update_self]
          rfl
        · rw [if_neg here, Function.update_of_ne here]
      · funext a x
        refine (decide_mem_filter _ s.archived (a, x)).trans ?_
        rw [decide_not]

theorem apply_window (db : Db) (rows : List (Nat × ChangeRow)) : ∀ s : AppState,
    apply s (rows.filterMap (materializeRow db true)) = rows.foldl (applyRow db) s := by
  induction rows with
  | nil => exact fun s => rfl
  | cons e rows ih =>
      intro s
      rw [List.foldl_cons, ← ih, applyRow]
      cases fed : materializeRow db true e with
      | none => rw [List.filterMap_cons_none fed]; rfl
      | some c => rw [List.filterMap_cons_some fed]; rfl

/-- **A window is read whole.** -/
theorem reader_window (db : Db) (rows : List (Nat × ChangeRow)) : ∀ (s : AppState) (cursor : Nat),
    reader (rows.foldl (applyRow db) s) (((rows.getLast?).map Prod.fst).getD cursor) =
      (reader s cursor).readAll (chronicle db) (rows.map fun e => (e.1, eventOf e.2)) := by
  induction rows with
  | nil => exact fun s cursor => rfl
  | cons e rows ih =>
      intro s cursor
      have last : (((e :: rows).getLast?).map Prod.fst).getD cursor =
          ((rows.getLast?).map Prod.fst).getD e.1 := by
        rw [List.getLast?_cons]
        cases rows.getLast? <;> rfl
      rw [last, List.foldl_cons, ih, reader_row db s cursor e]
      rfl

/-! ## A delta whose entries tell -/

section Entries

variable {deps : Deps} {done high : Nat} {db : Db}

/-- A write that finds the same documents and accounts, and logs nothing. -/
theorem told_of_find {db' : Db} (documents : ∀ k, db'.find .documents k = db.find .documents k)
    (accounts : ∀ k, db'.find .accounts k = db.find .accounts k) (changes : db'.changes = db.changes) :
    Told deps done high db db' :=
  Told.of_quiet (fun id => documents [.text id]) (fun a => congrArg Option.isSome (accounts [.text a]))
    changes

theorem told_note (t : Tbl) (pk : Key) : Told deps done high db (noteKey db t pk) :=
  told_of_find (fun _ => rfl) (fun _ => rfl) rfl

/-- Rows of the other tables. -/
theorem told_upsert {t : Tbl} (row : RowOf t) (documents : t ≠ .documents) (accounts : t ≠ .accounts) :
    Told deps done high db (db.upsertRow t row) :=
  told_of_find
    (fun _ => Db.upsertRow_find_ne db t row fun same => documents (Prod.mk.inj same).1.symm)
    (fun _ => Db.upsertRow_find_ne db t row fun same => accounts (Prod.mk.inj same).1.symm)
    (Db.upsertRow_frame db t row).changes

theorem told_delete {t : Tbl} (pk : Key) (documents : t ≠ .documents) (accounts : t ≠ .accounts) :
    Told deps done high db (db.deleteRow t pk) := by
  have find : ∀ {t'} (k : Key), t ≠ t' → (db.deleteRow t pk).find t' k = db.find t' k := by
    intro t' k other
    rw [Db.deleteRow_find_other db fun id same => accounts (Prod.mk.inj same).1,
      if_neg fun same => other (Prod.mk.inj same).1.symm]
  exact told_of_find (fun k => find k documents) (fun k => find k accounts)
    (Db.deleteRow_frame db t pk).changes

/-- The delete of a document that is not there. -/
theorem told_delete_document {pk : Key} (gone : db.find .documents pk = none) :
    Told deps done high db (db.deleteRow .documents pk) := by
  have find : ∀ t k, (db.deleteRow .documents pk).find t k = db.find t k := by
    intro t k
    rw [Db.deleteRow_find_other db fun id same => by cases same]
    split
    · rename_i here
      obtain ⟨rfl, rfl⟩ := Prod.mk.inj here
      exact gone.symm
    · rfl
  exact told_of_find (find _) (find _) (Db.deleteRow_frame db _ pk).changes

/-- The delete of an account that is not there, and so has no documents. -/
theorem told_delete_account (ready : Ready deps done high db) {pk : Key}
    (gone : db.find .accounts pk = none) : Told deps done high db (db.deleteRow .accounts pk) := by
  have changes := (Db.deleteRow_frame db .accounts pk).changes
  by_cases named : ∃ id, pk = [.text id]
  · obtain ⟨id, rfl⟩ := named
    have documents : ∀ x, docOf (db.deleteRow .accounts [.text id]) x = docOf db x := by
      intro x
      rw [docOf, Db.deleteAccount_find, if_neg (by simp)]
      cases found : docOf db x with
      | none => rw [show db.find .documents [.text x] = none from found]; rfl
      | some d =>
          have there := ready.sound.grouped x (memberOf d) (by
            show (docOf db x).map memberOf = _
            rw [found]
            rfl)
          have there : (db.find .accounts [.text d.accountId]).isSome = true := there
          have other : d.accountId ≠ id := by
            rintro same
            rw [same, gone] at there
            cases there
          rw [show db.find .documents [.text x] = some d from found]
          simp [Option.filter, accountOf, other]
    have accounts : ∀ a, hasAccount (db.deleteRow .accounts [.text id]) a = hasAccount db a := by
      intro a
      rw [hasAccount, Db.deleteAccount_find]
      split
      · rename_i here
        obtain ⟨-, here⟩ := Prod.mk.inj here
        rw [hasAccount, here, gone]
      · rw [hasAccount]
        cases db.find .accounts [.text a] <;> rfl
    exact Told.of_quiet documents accounts changes
  · have find : ∀ t k, (db.deleteRow .accounts pk).find t k = db.find t k := by
      intro t k
      rw [Db.deleteRow_find_other db fun id same => named ⟨id, (Prod.mk.inj same).2⟩]
      split
      · rename_i here
        obtain ⟨rfl, rfl⟩ := Prod.mk.inj here
        exact gone.symm
      · rfl
    exact told_of_find (find _) (find _) changes

/-- Another row for an account that is there. -/
theorem told_upsert_account {row : AccountRow} (there : hasAccount db row.id = true) :
    Told deps done high db (db.upsertRow .accounts row) := by
  refine Told.of_quiet (fun x => ?_) (fun a => ?_) (Db.upsertRow_frame db .accounts row).changes
  · exact Db.upsertRow_find_ne db .accounts row (by simp)
  · by_cases here : a = row.id
    · subst here
      rw [there]
      exact Option.isSome_iff_exists.2 ⟨row, Db.upsertRow_find_self db .accounts row⟩
    · exact congrArg Option.isSome
        (Db.upsertRow_find_ne db .accounts row (by simpa [keyOf] using here))

/-! ### Documents of a delta -/

theorem docOf_applied (now : Time) (db : Db) (row : DocRow) :
    docOf (applyEntry now db (.upsert .documents row)) =
      Function.update (docOf db) row.id (some row) := by
  have noted : ∀ x, docOf (noteDocument db row) x = docOf db x := by
    intro x
    unfold noteDocument
    split <;> rfl
  have put : docOf ((noteDocument db row).upsertRow .documents row) =
      Function.update (docOf db) row.id (some row) := by
    funext x
    by_cases here : x = row.id
    · subst here
      rw [Function.update_self]
      exact Db.upsertRow_find_self _ .documents row
    · rw [Function.update_of_ne here, ← noted]
      exact Db.upsertRow_find_ne _ .documents row (by simpa [keyOf] using here)
  rw [← put]
  funext x
  unfold applyEntry
  dsimp only
  split <;> rfl

theorem changes_applied (now : Time) (db : Db) (row : DocRow) :
    (applyEntry now db (.upsert .documents row)).changes =
      if 0 < row.seq then db.changes.insertAt row.seq ⟨.document, row.id, now⟩ else db.changes := by
  have same : ((noteDocument db row).upsertRow .documents row).changes = db.changes := by
    rw [(Db.upsertRow_frame _ _ _).changes]
    unfold noteDocument
    split <;> rfl
  unfold applyEntry
  dsimp only
  split
  · show ((noteDocument db row).upsertRow .documents row).changes.insertAt _ _ = _
    rw [same]
  · exact same

theorem chronicle_applied (now : Time) (db : Db) (row : DocRow) :
    chronicle (applyEntry now db (.upsert .documents row)) =
      ⟨Function.update (chronicle db).member row.id (some (memberOf row)), hasAccount db,
        logOf (applyEntry now db (.upsert .documents row)).changes⟩ := by
  have accounts : hasAccount (applyEntry now db (.upsert .documents row)) = hasAccount db := by
    funext a
    have put : hasAccount ((noteDocument db row).upsertRow .documents row) a = hasAccount db a := by
      rw [hasAccount, Db.upsertRow_find_ne _ .documents row (by simp)]
      unfold noteDocument
      split <;> rfl
    rw [← put]
    unfold applyEntry
    dsimp only
    split <;> rfl
  rw [chronicle, docOf_applied, members_update, accounts]
  rfl

theorem logOf_fresh {n : Nat} (free : ∀ e ∈ db.changes.entries, e.1 ≠ n) :
    logOf db.changes n = none := by
  rw [Option.eq_none_iff_forall_ne_some]
  intro e here
  obtain ⟨row, mem, -⟩ := logOf_eq_some.1 here
  exact free _ mem rfl

theorem log_fresh (now : Time) {row : DocRow} (fresh : Fresh high db row.seq) :
    logOf (applyEntry now db (.upsert .documents row)).changes =
      (chronicle db).log.note row.seq (.member row.id) := by
  rw [changes_applied, if_pos (Nat.zero_lt_of_lt fresh.1)]
  exact logOf_insertAt ⟨.document, row.id, now⟩ (logOf_fresh fresh.2)

/-- **A document of a delta that tells is a move.** -/
theorem moves_document (ready : Ready deps done high db) (now : Time) {row : DocRow}
    (tells : DocumentTells deps high db row) : Tally.Moves (home deps) done high (chronicle db)
      (chronicle (applyEntry now db (.upsert .documents row))) := by
  unfold DocumentTells at tells
  rw [chronicle_applied]
  split at tells
  case h_1 absent =>
    obtain ⟨hashed, account, ingested, fresh, later⟩ := tells
    rw [log_fresh now fresh]
    refine (Tally.Move.inserted row.id (memberOf row) ?_ account ⟨row.ref, hashed⟩ ?_
      (logOf_fresh fresh.2) fresh.1 ?_).moves
    · show (docOf db row.id).map memberOf = none
      rw [absent]
      rfl
    · show row.ingestSeq.getD 0 = row.seq
      rw [ingested]
      rfl
    · intro n e here concerns
      obtain ⟨change, mem, rfl⟩ := logOf_eq_some.1 here
      exact later _ mem concerns
  case h_2 d found =>
    obtain ⟨natural, ingested, moved⟩ := tells
    have account : row.accountId = d.accountId := congrArg Prod.fst natural
    have first : (memberOf row).first = (memberOf d).first :=
      congrArg (fun n => n.getD 0) ingested
    have there : (chronicle db).member row.id = some (memberOf d) := by
      show (docOf db row.id).map memberOf = _
      rw [found]
      rfl
    rcases moved with ⟨number, live⟩ | ⟨later, fresh⟩
    · -- the member stays, and its number is in the log or behind the reader
      have same : memberOf row = memberOf d := by
        unfold memberOf
        rw [account, ingested, number, live]
      have members : Function.update (chronicle db).member row.id (some (memberOf row)) =
          (chronicle db).member := by
        rw [same, ← there]
        exact Function.update_eq_self _ _
      rw [members, changes_applied]
      split
      · cases taken : logOf db.changes row.seq with
        | some e =>
            rw [logOf_insertAt_taken _ taken]
            exact Tally.Move.same.moves
        | none =>
            rw [logOf_insertAt _ taken]
            refine (Tally.Move.past row.seq _ ?_).moves
            by_contra unread
            rw [number] at taken unread
            have last := (ready.sound.present row.id _ there).last (not_le.1 unread)
            have last : logOf db.changes d.seq = some (.member row.id) := last
            rw [taken] at last
            cases last
      · exact Tally.Move.same.moves
    · rw [log_fresh now fresh]
      exact (Tally.Move.touched row.id (memberOf d) (memberOf row) there account first
        (logOf_fresh fresh.2) fresh.1 later).moves

theorem told_document (ready : Ready deps done high db) (now : Time) {row : DocRow}
    (tells : DocumentTells deps high db row) :
    Told deps done high db (applyEntry now db (.upsert .documents row)) where
  moves := moves_document ready now tells
  hashed hashed := by
    intro x d found
    rw [docOf_applied] at found
    by_cases here : x = row.id
    · subst here
      rw [Function.update_self] at found
      obtain rfl := Option.some.inj found
      unfold DocumentTells at tells
      split at tells
      · exact tells.1
      · rename_i old there
        have same := Prod.mk.inj tells.1
        rw [same.1, same.2]
        exact hashed row.id old there
    · rw [Function.update_of_ne here] at found
      exact hashed x d found
  grows := by
    rw [changes_applied]
    split
    · exact SeqLog.Grows.insertAt _ _ _
    · exact SeqLog.Grows.refl _

/-- **An entry that tells.** -/
theorem told_entry (ready : Ready deps done high db) (now : Time) {e : StageEntry}
    (tells : EntryTells deps high db e) : Told deps done high db (applyEntry now db e) := by
  cases e with
  | delete t pk =>
      have noted : Told deps done high db (noteKey db t pk) := told_note t pk
      have other : t ≠ .documents → t ≠ .accounts →
          Told deps done high db (applyEntry now db (.delete t pk)) := fun documents accounts =>
        noted.trans (told_delete pk documents accounts)
      cases t with
      | documents => exact noted.trans (told_delete_document tells)
      | accounts => exact noted.trans (told_delete_account (noted.ready ready) tells)
      | outbox | eventDrafts | syncEpochs | attentionItems | attentionRevisions | userPrefs
      | plugin name => exact other (by simp) (by simp)
  | upsert t row =>
      have other : t ≠ .documents → t ≠ .accounts →
          Told deps done high db ((noteKey db t (keyOf t row)).upsertRow t row) :=
        fun documents accounts => (told_note t _).trans (told_upsert row documents accounts)
      cases t with
      | documents => exact told_document ready now tells
      | accounts => exact (told_note .accounts _).trans (told_upsert_account tells)
      | outbox | eventDrafts | syncEpochs | attentionItems | attentionRevisions | userPrefs
      | plugin name => exact other (by simp) (by simp)

theorem told_entries (now : Time) (entries : List StageEntry) : ∀ {db : Db},
    Ready deps done high db → EntriesTell deps high now db entries →
      Told deps done high db (entries.foldl (applyEntry now) db) := by
  induction entries with
  | nil => exact fun _ _ => Told.refl _
  | cons e entries ih =>
      intro db ready tells
      have first := told_entry ready now tells.1
      exact first.trans (ih (first.ready ready) tells.2)

/-- **A delta whose entries tell.** -/
theorem told_delta (ready : Ready deps done high db) {now : Time} {entries : List StageEntry}
    {target : SyncCursor} {epoch : Nat} {db' : Db}
    (applied : applyDeltaTx now db entries target epoch = .ok db')
    (tells : EntriesTell deps high now db entries) : Told deps done high db db' := by
  unfold applyDeltaTx at applied
  split at applied
  · cases applied
  · split at applied
    · cases applied
    · dsimp only at applied
      split at applied
      · obtain rfl := Except.ok.inj applied
        exact (told_entries now entries ready tells).trans
          (told_of_find (fun _ => rfl) (fun _ => rfl) rfl)
      · cases applied

end Entries

/-! ## A projection beside its store -/

/-- What a projection can start from: documents under the digests of their natural keys,
that hang from an account and are numbered within the log. -/
structure Startable (deps : Deps) (db : Db) : Prop where
  hashed : Hashed deps db
  hang : ∀ d ∈ db.documents, hasAccount db d.accountId = true
  numbered : ∀ d ∈ db.documents, d.ingestSeq.getD 0 ≤ d.seq ∧ d.seq ≤ db.changes.head

def entriesOf (rows : List (Nat × ChangeRow)) : List (Nat × Tally.Event DocumentId AccountId) :=
  rows.map fun e => (e.1, eventOf e.2)

structure Follows (deps : Deps) (s : System) : Prop where
  ready : Ready deps s.view.cursor s.view.high s.db
  agrees : Tally.Agrees (chronicle s.db) (reader s.view.state s.view.cursor)
  window : Tally.Window (chronicle s.db).log s.view.cursor s.view.high (entriesOf s.view.window)
  head : s.view.high ≤ s.db.changes.head

/-! ### What `init` counts -/

/-- The live members of an account are the documents `init` counts. -/
theorem live_ncard (db : Db) (a : AccountId) :
    {x | ∃ m, (chronicle db).member x = some m ∧ m.group = a ∧ m.live = true}.ncard =
      (liveOf db a).length := by
  have distinct : ((liveOf db a).map DocRow.id).Nodup := by
    have keys := (db.tables .documents).nodup
    have same : (db.tables .documents).rows.map (keyOf .documents) =
        (db.documents.map DocRow.id).map fun id => [Cell.text id] := by
      rw [List.map_map]
      rfl
    rw [same] at keys
    exact keys.of_map.sublist (List.filter_sublist.map _)
  have members : {x | ∃ m, (chronicle db).member x = some m ∧ m.group = a ∧ m.live = true} =
      ↑((liveOf db a).map DocRow.id).toFinset := by
    ext x
    rw [Finset.mem_coe, List.mem_toFinset, List.mem_map]
    constructor
    · rintro ⟨m, there, group, live⟩
      obtain ⟨d, found, rfl⟩ := Option.map_eq_some_iff.1 there
      refine ⟨d, List.mem_filter.2 ⟨mem_of_docOf found, ?_⟩, docOf_id found⟩
      rw [Bool.and_eq_true, decide_eq_true_iff]
      exact ⟨group, live⟩
    · rintro ⟨d, mem, rfl⟩
      obtain ⟨there, live⟩ := List.mem_filter.1 mem
      rw [Bool.and_eq_true, decide_eq_true_iff] at live
      refine ⟨memberOf d, ?_, live⟩
      show (docOf db d.id).map memberOf = _
      rw [docOf_mem there]
      rfl
  rw [members, Set.ncard_coe_finset, List.toFinset_card_of_nodup distinct, List.length_map]

theorem init_find (db : Db) (a : AccountId) :
    (init db).accounts.find a = (db.find .accounts [.text a]).map (initEntry db) := by
  cases found : db.find .accounts [.text a] with
  | none =>
      refine Table.find_eq_none_iff.2 fun e mem same => ?_
      obtain ⟨row, there, rfl⟩ := List.mem_map.1 mem
      have same : row.id = a := same
      have here : db.find .accounts (keyOf .accounts row) = some row := Table.find_of_mem there
      rw [keyOf, same, found] at here
      cases here
  | some row =>
      have key : keyOf .accounts row = [.text a] := Table.find_key found
      have id : AccountRow.id row = a := by simpa [keyOf] using key
      exact Table.find_eq_some_iff.2 ⟨List.mem_map.2 ⟨row, Table.find_mem found, rfl⟩, id⟩

theorem mem_init_archived {db : Db} (hang : ∀ d ∈ db.documents, hasAccount db d.accountId = true)
    {a : AccountId} {x : DocumentId} : (a, x) ∈ (init db).archived ↔
      ∃ m, (chronicle db).member x = some m ∧ m.group = a ∧ m.live = false := by
  constructor
  · intro mem
    obtain ⟨row, -, of_row⟩ := List.mem_flatMap.1 mem
    obtain ⟨id, listed, same⟩ := List.mem_map.1 of_row
    obtain ⟨rfl, rfl⟩ := Prod.mk.inj same
    obtain ⟨d, kept, rfl⟩ := List.mem_map.1 listed
    obtain ⟨there, dead⟩ := List.mem_filter.1 kept
    rw [Bool.and_eq_true, decide_eq_true_iff, Bool.not_eq_true'] at dead
    refine ⟨memberOf d, ?_, dead⟩
    show (docOf db d.id).map memberOf = _
    rw [docOf_mem there]
    rfl
  · rintro ⟨m, there, rfl, dead⟩
    obtain ⟨d, found, rfl⟩ := Option.map_eq_some_iff.1 there
    have mem := mem_of_docOf found
    obtain ⟨row, account⟩ := Option.isSome_iff_exists.1 (hang d mem)
    have key : keyOf .accounts row = [.text d.accountId] := Table.find_key account
    have id : AccountRow.id row = d.accountId := by simpa [keyOf] using key
    refine List.mem_flatMap.2 ⟨row, Table.find_mem account, List.mem_map.2 ⟨x, ?_, ?_⟩⟩
    · refine List.mem_map.2 ⟨d, List.mem_filter.2 ⟨mem, ?_⟩, docOf_id found⟩
      rw [Bool.and_eq_true, decide_eq_true_iff, Bool.not_eq_true']
      exact ⟨id.symm, dead⟩
    · rw [id]
      rfl

namespace Follows

variable {deps : Deps} {s : System}

theorem start {db : Db} (startable : Startable deps db) : Follows deps (System.start db) := by
  have ready := Ready.start startable.hashed startable.hang startable.numbered
  have whole : ∀ n e, (chronicle db).log n = some e → n ≤ db.changes.head := by
    intro n e here
    obtain ⟨row, mem, -⟩ := logOf_eq_some.1 here
    exact SeqLog.le_head mem
  refine ⟨ready, Tally.Agrees.start ready.sound whole ?_ ?_, ⟨List.Pairwise.nil, ?_⟩, Nat.le_refl _⟩
  · intro a
    show ((init db).accounts.find a).map AccountEntry.docCount = if hasAccount db a = true then _ else _
    rw [init_find, hasAccount, live_ncard]
    cases found : db.find .accounts [.text a] with
    | none => rfl
    | some row =>
        have key : keyOf .accounts row = [.text a] := Table.find_key found
        have id : AccountRow.id row = a := by simpa [keyOf] using key
        show some (liveOf db (AccountRow.id row)).length = _
        rw [id]
        rfl
  · intro a x
    show decide ((a, x) ∈ (init db).archived) = true ↔ _
    rw [decide_eq_true_iff]
    exact mem_init_archived startable.hang
  · intro n e
    refine ⟨fun waiting => absurd waiting List.not_mem_nil, fun inside => ?_⟩
    have : db.changes.head < n := inside.1
    have : n ≤ db.changes.head := inside.2.1
    omega

/-- **A write that tells.** -/
theorem write (follows : Follows deps s) {db : Db}
    (told : Told deps s.view.cursor s.view.high s.db db) : Follows deps ⟨db, s.view⟩ where
  ready := told.ready follows.ready
  agrees := Tally.Moves.agrees (home_unique deps) follows.ready.sound follows.agrees
    follows.ready.order told.moves
  window :=
    { ascending := follows.window.ascending
      mem := fun n e => by
        rw [follows.window.mem]
        refine and_congr_right fun after => and_congr_right fun low => ?_
        rw [Tally.Moves.log_eq told.moves after low] }
  head := Nat.le_trans follows.head told.grows.head

/-- The rows of the next window. -/
theorem next_window (follows : Follows deps s) (n : Nat) : Follows deps
    ⟨s.db, { s.view with window := (s.db.changes.since s.view.cursor).take n }⟩ := by
  obtain ⟨db, ⟨state, cursor, window⟩⟩ := s
  have mem : ∀ {e}, e ∈ (db.changes.since cursor).take n ↔ e ∈ db.changes.entries ∧ cursor < e.1 ∧
      e.1 ≤ View.high ⟨state, cursor, (db.changes.since cursor).take n⟩ := SeqLog.mem_take_since
  have low : cursor ≤ db.changes.head := Nat.le_trans follows.ready.order follows.head
  have reach : cursor ≤ View.high ⟨state, cursor, (db.changes.since cursor).take n⟩ ∧
      View.high ⟨state, cursor, (db.changes.since cursor).take n⟩ ≤ db.changes.head := by
    unfold View.high
    cases last : ((db.changes.since cursor).take n).getLast? with
    | none => exact ⟨Nat.le_refl _, low⟩
    | some x =>
        have inside := mem.1 (List.mem_of_getLast? last)
        exact ⟨Nat.le_of_lt inside.2.1, SeqLog.le_head inside.1⟩
  constructor
  case ready =>
    exact ⟨follows.ready.hashed, follows.ready.sound, reach.1,
      Nat.le_trans reach.2 (SeqLog.head_le_counter _)⟩
  case agrees => exact follows.agrees
  case head => exact reach.2
  case window =>
    constructor
    · have sorted : ((db.changes.since cursor).map Prod.fst).Pairwise (· < ·) :=
        db.changes.ascending.sublist (List.filter_sublist.map _)
      show (((((db.changes.since cursor).take n).map _).map Prod.fst)).Pairwise _
      rw [List.map_map]
      exact sorted.sublist ((List.take_sublist _ _).map _)
    · intro k e
      show (k, e) ∈ ((db.changes.since cursor).take n).map _ ↔ _ ∧ _ ∧ logOf db.changes k = some e
      rw [List.mem_map, logOf_eq_some]
      constructor
      · rintro ⟨⟨k', row⟩, inside, same⟩
        obtain ⟨rfl, rfl⟩ := Prod.mk.inj same
        have inside := mem.1 inside
        exact ⟨inside.2.1, inside.2.2, row, inside.1, rfl⟩
      · rintro ⟨after, upto, row, there, rfl⟩
        exact ⟨(k, row), mem.2 ⟨there, after, upto⟩, rfl⟩

/-- **The window is applied.** -/
theorem loaded (follows : Follows deps s) : Follows deps
    ⟨s.db, ⟨apply s.view.state (s.view.window.filterMap (materializeRow s.db true)), s.view.high,
      []⟩⟩ where
  ready :=
    { hashed := follows.ready.hashed
      sound := follows.ready.sound.mono follows.ready.order
      order := Nat.le_refl _
      held := follows.ready.held }
  agrees := by
    have read := Tally.Agrees.readAll _ follows.ready.sound follows.agrees follows.window
    rw [entriesOf, ← reader_window] at read
    show Tally.Agrees _ (reader (apply _ _) s.view.high)
    rw [apply_window]
    exact read
  window := by
    refine ⟨List.Pairwise.nil, fun n e => ⟨nofun, fun inside => ?_⟩⟩
    have : s.view.high < n := inside.1
    have : n ≤ s.view.high := inside.2.1
    omega
  head := follows.head

/-- A projection can start again beside any store it follows. -/
theorem startable (follows : Follows deps s) : Startable deps s.db := by
  have there : ∀ d ∈ s.db.documents, (chronicle s.db).member d.id = some (memberOf d) := by
    intro d mem
    show (docOf s.db d.id).map memberOf = _
    rw [docOf_mem mem]
    rfl
  refine ⟨follows.ready.hashed, fun d mem => ?_, fun d mem => ?_⟩
  · exact follows.ready.sound.grouped d.id (memberOf d) (there d mem)
  · have present := follows.ready.sound.present d.id (memberOf d) (there d mem)
    refine ⟨present.le, ?_⟩
    by_cases read : d.seq ≤ s.view.cursor
    · exact Nat.le_trans read (Nat.le_trans follows.ready.order follows.head)
    · obtain ⟨row, here, -⟩ := logOf_eq_some.1 (present.last (Nat.lt_of_not_le read))
      exact SeqLog.le_head here

/-- **Every step keeps the projection beside the store, as long as the writes tell.** -/
theorem step {a : Act} {s' : System} (follows : Follows deps s) (tells : Tells deps s a)
    (took : step deps s a = some s') : Follows deps s' := by
  cases a with
  | commit now publishedAt batch =>
      dsimp only [App.step] at took
      split at took
      · rename_i r committed
        obtain rfl := Option.some.inj took
        refine follows.write (Told.of_commitTx follows.ready (fun before same => ?_) committed)
        subst same
        exact tells
      · obtain rfl := Option.some.inj took
        exact follows
  | archive now account startSeq limit pick st =>
      obtain ⟨r, archived, rfl⟩ := Option.map_eq_some_iff.1 took
      exact follows.write (Told.of_chunk follows.ready archived)
  | connect now source identifier =>
      obtain rfl := Option.some.inj took
      exact follows.write (Told.of_getOrCreateAccount follows.ready now source identifier)
  | delta now entries target epoch =>
      dsimp only [App.step] at took
      dsimp only [Tells] at tells
      split at took
      · rename_i db applied
        obtain rfl := Option.some.inj took
        rw [applied] at tells
        exact follows.write (told_delta follows.ready applied tells)
      · obtain rfl := Option.some.inj took
        exact follows
  | role state =>
      obtain rfl := Option.some.inj took
      exact follows.write (told_of_find (fun _ => rfl) (fun _ => rfl) rfl)
  | restart =>
      obtain rfl := Option.some.inj took
      exact start follows.startable
  | window n =>
      dsimp only [App.step] at took
      split at took
      · obtain rfl := Option.some.inj took
        exact follows.next_window n
      · cases took
  | load =>
      obtain rfl := Option.some.inj took
      exact follows.loaded

end Follows

/-! ## The counts -/

def mailbox : AccountId := hashedId .spelled "account" ["mail", "me"]

def letter (seq ingestSeq : Nat) (archivedAt : Option Time) : DocRow where
  id := documentId .spelled mailbox ⟨"m1", "email"⟩
  accountId := mailbox
  externalId := "m1"
  type := "email"
  title := none
  markdown := none
  url := none
  metadata := []
  createdAt := none
  parentId := none
  contentHash := ""
  seq := seq
  ingestSeq := some ingestSeq
  archivedAt := archivedAt
  languages := "[]"
  ingestedAt := 0
  updatedAt := 0
  scopeRootId := none

def asFollower : SyncState := { SyncState.fresh with role := .follower }

/-- A device with an account, that follows a leader from now on. -/
def joined : List Act := [.connect 0 "mail" "me", .role asFollower, .window 9, .load]

/-- A delta for an inserted document, one for its archive, one for its restore. -/
def toldRun : List Act :=
  joined ++
    [.delta 1 [.upsert .documents (letter 5 5 none)] ⟨5, 0⟩ 1, .window 9, .load,
      .delta 2 [.upsert .documents (letter 6 5 (some 2))] ⟨6, 0⟩ 1,
      .delta 3 [.upsert .documents (letter 7 5 none)] ⟨7, 0⟩ 1, .window 1, .load, .window 9, .load]

theorem startable_fresh (deps : Deps) : Startable deps Db.fresh where
  hashed _ _ found := by cases found
  hang d mem := by cases mem
  numbered d mem := by cases mem

/-- The leader changed the document, inserted under 5, before this device first pulled it. -/
def changedRun : List Act :=
  joined ++ [.delta 1 [.upsert .documents (letter 7 5 none)] ⟨7, 0⟩ 1, .window 9, .load]

end Kiagent.App
