/-
# Store.SearchIndex -- the full-text and the trigram rows of the documents

`documents_fts` and `documents_tri` hold one row for each document, at the rowid of
its row.  The rowid is implicit: an insert takes the one above the largest, an update
keeps it, and a `VACUUM` may hand out new ones, which is why a compaction rebuilds both
tables right after it.  The rebuild is a call of its own: what the store's worker has
queued runs between the two.

* `indexed` -- in every run, after every transaction, both tables hold exactly the rows
  computed from the documents, unless a `VACUUM` has moved a rowid and the rebuild after
  it has not run yet;
* `stale_after_vacuum` -- a commit between the two replaces the row of another document.
-/
import Kiagent.Store.Commit
import Kiagent.Store.Reconcile
import Kiagent.Sync.Delta
import Kiagent.Theory.Mirror
import Kiagent.Theory.Runs

namespace Kiagent.Store.SearchIndex

open Kiagent.Theory Kiagent.Sync

set_option autoImplicit false

/-! ## The rows -/

structure SearchDeps extends Deps where
  /-- `buildStemView`, over the codes a row's `languages` column lists. -/
  stemView : String → String → String
  /-- The column is JSON. -/
  readable : String → Bool

structure FtsRow where
  rowid : Nat
  docId : DocumentId
  title : String
  markdown : String
  titleStem : String
  markdownStem : String
  deriving DecidableEq

structure TriRow where
  rowid : Nat
  docId : DocumentId
  body : String
  deriving DecidableEq

def ftsRow (deps : SearchDeps) (rowid : Nat) (docId : DocumentId) (title markdown : Option String)
    (languages : String) : FtsRow :=
  let t := title.getD ""
  let m := markdown.getD ""
  ⟨rowid, docId, t, m, deps.stemView t languages, deps.stemView m languages⟩

def triRow (rowid : Nat) (docId : DocumentId) (title markdown : Option String) : TriRow :=
  ⟨rowid, docId, trimText (title.getD "" ++ "\n" ++ markdown.getD "")⟩

/-- The full-text row of a document at a rowid. -/
def ftsOf (deps : SearchDeps) (rowid : Nat) (d : DocRow) : FtsRow :=
  ftsRow deps rowid d.id d.title d.markdown d.languages

def triOf (rowid : Nat) (d : DocRow) : TriRow := triRow rowid d.id d.title d.markdown

/-- The columns the two rows are computed from. -/
def searchedText (d : DocRow) : DocumentId × Option String × Option String × String :=
  (d.id, d.title, d.markdown, d.languages)

/-- A database with its search tables. -/
structure SearchStore where
  db : Db
  /-- The implicit rowid of the document with this primary key. -/
  rowid : Key → Nat
  fts : Table FtsRow FtsRow.rowid
  tri : Table TriRow TriRow.rowid

namespace SearchStore

def doc (s : SearchStore) (k : Key) : Option DocRow := s.db.find .documents k

/-- `SELECT rowid FROM documents WHERE id = ?`. -/
def rowidOf (s : SearchStore) (k : Key) : Option Nat := (s.doc k).map fun _ => s.rowid k

/-- The rowid the next insert into `documents` takes. -/
def nextRowid (s : SearchStore) : Nat :=
  (s.db.documents.map fun d => s.rowid (keyOf .documents d)).foldr max 0 + 1

/-! ## Statements -/

def ftsDelete (s : SearchStore) (k : Key) : SearchStore :=
  match s.rowidOf k with
  | none => s
  | some n => { s with fts := s.fts.erase n, tri := s.tri.erase n }

/-- Callers write the document first, so its rowid is there.  A taken rowid fails the
transaction. -/
def ftsInsert (deps : SearchDeps) (s : SearchStore) (docId : DocumentId)
    (title markdown : Option String) (languages : String) : Option SearchStore :=
  (s.rowidOf [.text docId]).bind fun n =>
    if (s.fts.find n).isSome || (s.tri.find n).isSome then none
    else
      some { s with
        fts := s.fts.put (ftsRow deps n docId title markdown languages)
        tri := s.tri.put (triRow n docId title markdown) }

def ftsUpsert (deps : SearchDeps) (s : SearchStore) (docId : DocumentId)
    (title markdown : Option String) (languages : String) : Option SearchStore :=
  (s.ftsDelete [.text docId]).ftsInsert deps docId title markdown languages

/-- `DELETE .. WHERE rowid IN (SELECT rowid FROM documents WHERE p)`, on both tables. -/
def ftsDeleteWhere (s : SearchStore) (p : DocRow → Bool) : SearchStore :=
  let rowids := (s.db.documents.filter p).map fun d => s.rowid (keyOf .documents d)
  { s with
    fts := s.fts.eraseWhere fun r => r.rowid ∈ rowids
    tri := s.tri.eraseWhere fun r => r.rowid ∈ rowids }

/-- The documents after an insert under `k`. -/
def inserted (s : SearchStore) (k : Key) (db : Db) : SearchStore :=
  { s with db, rowid := Function.update s.rowid k s.nextRowid }

end SearchStore

/-! ## A commit -/

variable (deps : SearchDeps) (now : Time)

def upsertDocument (account : AccountId) (s : SearchStore) (input : DocumentInput) :
    Option SearchStore :=
  match Store.upsertDocument deps.toDeps now account s.db input with
  | none => some s
  | some (db, _) =>
      let languages := languagesOf deps.toDeps input.title input.markdown
      match findDocRow s.db account input.ref with
      | some existing =>
          { s with db }.ftsUpsert deps existing.id input.title input.markdown languages
      | none =>
          let id := documentId deps.toDeps account input.ref
          -- The insert fails on a taken primary key.
          if (s.doc [.text id]).isSome then none
          else (s.inserted [.text id] db).ftsInsert deps id input.title input.markdown languages

def enrichDocument (s : SearchStore) (e : EnrichInput) : Option SearchStore :=
  match s.doc [.text e.documentId] with
  | none => some s
  | some row =>
      let db := written (Store.enrichDocument deps.toDeps now) s.db e
      match e.markdown with
      | none => some { s with db }
      | some markdown =>
          { s with db }.ftsUpsert deps row.id row.title (some markdown)
            (languagesOf deps.toDeps row.title (some markdown))

/-- What an account commit does after its documents: relinks, archives, and the
account's own row. -/
def closeAccount (publishedAt : Option Time) (acc : AccountRow) (b : AccountBatch) (db : Db) : Db :=
  let db := (parentPairs b.documents).foldl (written (relinkPair now acc.id)) db
  let db := b.links.foldl (written (relinkPair now acc.id)) db
  let db := b.deleted.foldl (written (archiveByRef now acc.id)) db
  let db := if visibleChange b acc || tickDue now publishedAt then
    db.appendChange .account acc.id now else db
  db.updateRow .accounts [.text acc.id] (setAccount b now)

def commitAccount (publishedAt : Option Time) (b : AccountBatch) (s : SearchStore) :
    Option SearchStore :=
  (s.db.find .accounts [.text b.account]).bind fun (acc : AccountRow) =>
    (b.documents.foldlM (upsertDocument deps now acc.id) s).map fun s =>
      { s with db := closeAccount now publishedAt acc b s.db }

/-- The worker's cursors and its ledger. -/
def recordConsumer (b : ConsumerBatch) (db : Db) : Db :=
  let db := (b.cursor.map (setConsumer db b.consumer)).getD db
  let db := (b.seedCursor.map (setSeedCursor db b.consumer)).getD db
  b.ledger.foldl (recordOutcome b.consumer) db

def commitConsumer (b : ConsumerBatch) (s : SearchStore) : Option SearchStore :=
  let db := recordConsumer b s.db
  let emitted :=
    if b.documents = [] then some { s with db }
    else
      let synthetic := getOrCreateAccount deps.toDeps now "worker" b.consumer db
      (b.documents.foldlM (upsertDocument deps now synthetic.2) { s with db := synthetic.1 }).map
        fun s => { s with
          db := (parentPairs b.documents).foldl (written (relinkPair now synthetic.2)) s.db }
  emitted.bind fun s => b.enrich.foldlM (enrichDocument deps now) s

def removeAccount (id : AccountId) (s : SearchStore) : SearchStore :=
  match s.db.find .accounts [.text id] with
  | none => s
  | some _ =>
      { s.ftsDeleteWhere (fun d => d.accountId = id) with db := (Store.removeAccount now id s.db).1 }

def purgeArchived (before : Time) (s : SearchStore) : SearchStore :=
  { s.ftsDeleteWhere (fun d => d.archivedAt.any (· < before)) with
    db := (Store.purgeArchived now before s.db).1 }

def commitTx (publishedAt : Option Time) (batch : CommitBatch) (s : SearchStore) :
    Option SearchStore :=
  match batch with
  | .account b => commitAccount deps now publishedAt b s
  | .consumer b => commitConsumer deps now b s
  | .removeAccount id => some (removeAccount now id s)
  | .purgeArchived before => some (purgeArchived now before s)

/-! ## A delta -/

def applyEntry (s : SearchStore) (e : StageEntry) : Option SearchStore :=
  let db := Sync.applyEntry now s.db e
  match e with
  | .delete .documents pk => some { s.ftsDelete pk with db }
  | .delete .accounts [.text id] =>
      let docs := s.db.documents.filter fun d => d.accountId = id
      some { docs.foldl (fun s d => s.ftsDelete (keyOf .documents d)) s with db }
  | .upsert .documents row =>
      let k := keyOf .documents row
      let unchanged := (s.doc k).any fun before =>
        before.title = row.title ∧ before.markdown = row.markdown ∧
          before.languages = row.languages
      let s := if (s.doc k).isSome then { s with db } else s.inserted k db
      if unchanged then some s
      else if deps.readable row.languages then
        s.ftsUpsert deps row.id row.title row.markdown row.languages
      else none
  | _ => some { s with db }

def applyDeltaTx (entries : List StageEntry) (target : SyncCursor) (epoch : Nat)
    (s : SearchStore) : Option SearchStore :=
  if s.db.state.role ≠ .follower then none
  else if entries.any fun e => e.tbl ∉ s.db.copiedTables then none
  else
    (entries.foldlM (applyEntry deps now) s).bind fun s =>
      let db := storeTarget s.db target epoch
      if db.foreignKeysHold then some { s with db } else none

/-! ## The rebuild -/

def repopulateSearchIndex (s : SearchStore) : Option SearchStore :=
  if s.db.documents.all fun d => deps.readable d.languages then
    let place := fun (d : DocRow) => s.rowid (keyOf .documents d)
    some { s with
      fts := s.db.documents.foldl (fun t d => t.put (ftsOf deps (place d) d)) Table.empty
      tri := s.db.documents.foldl (fun t d => t.put (triOf (place d) d)) Table.empty }
  else none

/-! ## Runs -/

inductive SearchAct where
  | commit (now : Time) (publishedAt : Option Time) (batch : CommitBatch)
  /-- A chunk of a reconcile pass. -/
  | archive (now : Time) (pick : List DocumentId)
  | applyDelta (now : Time) (entries : List StageEntry) (target : SyncCursor) (epoch : Nat)
  /-- Any other transaction: accounts, folder scopes, the numbers of a promotion. -/
  | other (db : Db)
  /-- The reset empties the search tables with the documents. -/
  | reset (db : Db)
  | vacuum (rowid : Key → Nat)
  | repopulate

/-- A store, and what a compaction owes it. -/
structure Observed where
  store : SearchStore
  /-- A `VACUUM` has moved a rowid, and the rebuild has not run since. -/
  moved : Bool

/-- A transaction that throws is rolled back. -/
def step (deps : SearchDeps) (o : Observed) : SearchAct → Option Observed
  | .commit now publishedAt batch =>
      some { o with store := (commitTx deps now publishedAt batch o.store).getD o.store }
  | .archive now pick =>
      some { o with store := { o.store with db := archiveBatch now o.store.db pick } }
  | .applyDelta now entries target epoch =>
      some { o with store := (applyDeltaTx deps now entries target epoch o.store).getD o.store }
  | .other db =>
      if db.documents.map searchedText = o.store.db.documents.map searchedText then
        some { o with store := { o.store with db } }
      else none
  | .reset db =>
      if db.documents = [] then
        some { o with store := { o.store with db, fts := Table.empty, tri := Table.empty } }
      else none
  | .vacuum rowid =>
      let docs := o.store.db.documents
      if (docs.map fun d => rowid (keyOf .documents d)).Nodup then
        let moved := docs.any fun d =>
          rowid (keyOf .documents d) ≠ o.store.rowid (keyOf .documents d)
        some ⟨{ o.store with rowid }, o.moved || moved⟩
      else none
  | .repopulate =>
      match repopulateSearchIndex deps o.store with
      | some store => some ⟨store, false⟩
      | none => some o

/-- A new install. -/
def Observed.fresh : Observed := ⟨⟨Db.fresh, fun _ => 0, Table.empty, Table.empty⟩, false⟩

/-- **What the search tables are for**: the rows computed from the documents, each at
the rowid of its document, and no others. -/
structure Indexed (deps : SearchDeps) (s : SearchStore) : Prop where
  rowids : (s.db.documents.map fun d => s.rowid (keyOf .documents d)).Nodup
  fts : s.fts.rows.Perm
    (s.db.documents.map fun d => ftsOf deps (s.rowid (keyOf .documents d)) d)
  tri : s.tri.rows.Perm (s.db.documents.map fun d => triOf (s.rowid (keyOf .documents d)) d)

/-! ## What a write leaves of the searched text -/

/-- The same documents, with the same text. -/
def SameText (db db' : Db) : Prop :=
  ∀ k, (db'.find .documents k).map searchedText = (db.find .documents k).map searchedText

namespace SameText

variable {db db' db'' : Db}

theorem refl (db : Db) : SameText db db := fun _ => rfl

theorem trans (first : SameText db db') (second : SameText db' db'') : SameText db db'' :=
  fun k => (second k).trans (first k)

theorem of_tables (same : db'.tables .documents = db.tables .documents) : SameText db db' :=
  fun k => by rw [Db.find, Db.find, same]

theorem foldl {α : Type} (write : Db → α → Db) (each : ∀ db a, SameText db (write db a)) :
    (as : List α) → (db : Db) → SameText db (as.foldl write db)
  | [], db => refl db
  | a :: as, db => (each db a).trans (foldl write each as (write db a))

end SameText

/-- An update under a key rewrites the document found there, and no other. -/
theorem find_updateRow (db : Db) (k : Key) (f : DocRow → DocRow) (sameId : ∀ d, (f d).id = d.id)
    (j : Key) : ((db.updateRow .documents k f).find .documents j : Option DocRow) =
      if j = k then (db.find .documents j).map f else db.find .documents j := by
  cases found : db.find .documents k with
  | none =>
      rw [Db.updateRow_none f found]
      split
      · rename_i here
        rw [here, found]
        rfl
      · rfl
  | some old =>
      have own : keyOf .documents old = k := Table.find_key (t := db.tables .documents) found
      have key : keyOf .documents (f old) = k := by rwa [keyOf, sameId]
      split
      · rename_i here
        have new := Db.updateRow_find_new f found
        rw [key] at new
        rw [here, found]
        exact new
      · rename_i other
        exact Db.updateRow_find_ne f found (fun same => other (Prod.mk.inj same).2)
          fun same => other ((Prod.mk.inj same).2.trans key)

theorem find_touch (db : Db) (id : DocumentId) (now : Time) (f : DocRow → DocRow)
    (sameId : ∀ d, (f d).id = d.id) (j : Key) :
    ((touchDocument db id now f).find .documents j : Option DocRow) =
      if j = [.text id] then (db.find .documents j).map f else db.find .documents j :=
  find_updateRow _ _ f sameId j

theorem sameText_touch (db : Db) (id : DocumentId) (now : Time) (f : DocRow → DocRow)
    (keeps : ∀ d, searchedText (f d) = searchedText d) : SameText db (touchDocument db id now f) := by
  intro k
  have sameId : ∀ d, (f d).id = d.id := fun d => congrArg Prod.fst (keeps d)
  rw [find_touch db id now f sameId]
  split
  · cases found : db.find .documents k with
    | none => simp
    | some d => simpa [found] using keeps d
  · rfl

theorem sameText_relink (now : Time) (account : AccountId) (db : Db) (pair : LinkPair) :
    SameText db (written (relinkPair now account) db pair) := by
  unfold written relinkPair
  split
  · exact .refl db
  · dsimp only
    split
    · exact .refl db
    · exact sameText_touch _ _ _ _ fun _ => rfl

theorem sameText_archiveDocument (now : Time) (db : Db) (id : DocumentId) :
    SameText db (archiveDocument now db id) :=
  sameText_touch _ _ _ _ fun _ => rfl

theorem sameText_archive (now : Time) (account : AccountId) (db : Db) (r : ExternalRef) :
    SameText db (written (archiveByRef now account) db r) := by
  unfold written archiveByRef
  split
  · exact .refl db
  · split
    · exact (sameText_archiveDocument now db _).trans
        (.foldl _ (sameText_archiveDocument now) _ _)
    · exact .refl db

theorem sameText_relinks (now : Time) (account : AccountId) (pairs : List LinkPair) (db : Db) :
    SameText db (pairs.foldl (written (relinkPair now account)) db) :=
  .foldl _ (sameText_relink now account) pairs db

theorem sameText_archives (now : Time) (account : AccountId) (refs : List ExternalRef) (db : Db) :
    SameText db (refs.foldl (written (archiveByRef now account)) db) :=
  .foldl _ (sameText_archive now account) refs db

theorem sameText_archiveBatch (now : Time) (db : Db) (pick : List DocumentId) :
    SameText db (archiveBatch now db pick) :=
  .foldl _ (fun db id => (sameText_archiveDocument now db id).trans
    (.foldl _ (sameText_archiveDocument now) _ _)) pick db

/-! ## Alignment -/

/-- Both tables hold the rows computed from the documents, and no more. -/
structure Aligned (deps : SearchDeps) (s : SearchStore) : Prop where
  fts : Mirrors s.rowid (ftsOf deps) s.doc s.fts
  tri : Mirrors s.rowid triOf s.doc s.tri

/-- No two documents share a rowid. -/
def Apart (s : SearchStore) : Prop :=
  ∀ i j, (s.doc i).isSome → (s.doc j).isSome → s.rowid i = s.rowid j → i = j

variable {deps : SearchDeps} {now : Time} {s s' : SearchStore}

theorem ftsOf_congr {d d' : DocRow} (same : searchedText d = searchedText d') (n : Nat) :
    ftsOf deps n d = ftsOf deps n d' := by
  obtain ⟨id, title, markdown, languages⟩ :
      d.id = d'.id ∧ d.title = d'.title ∧ d.markdown = d'.markdown ∧ d.languages = d'.languages := by
    simpa [searchedText] using same
  rw [ftsOf, ftsOf, id, title, markdown, languages]

theorem triOf_congr {d d' : DocRow} (same : searchedText d = searchedText d') (n : Nat) :
    triOf n d = triOf n d' := by
  obtain ⟨id, title, markdown, _⟩ :
      d.id = d'.id ∧ d.title = d'.title ∧ d.markdown = d'.markdown ∧ d.languages = d'.languages := by
    simpa [searchedText] using same
  rw [triOf, triOf, id, title, markdown]

/-- What the searched text decides, equal texts decide alike. -/
theorem map_congr {ρ : Type} {view : DocRow → ρ}
    (congr : ∀ {d d'}, searchedText d = searchedText d' → view d = view d') {o o' : Option DocRow}
    (same : o'.map searchedText = o.map searchedText) : o'.map view = o.map view := by
  cases o <;> cases o' <;> simp_all
  exact congr same

theorem Aligned.sameText (aligned : Aligned deps s) {db : Db} (same : SameText s.db db) :
    Aligned deps { s with db } :=
  ⟨aligned.fts.congr fun k => map_congr (fun h => ftsOf_congr h _) (same k),
    aligned.tri.congr fun k => map_congr (fun h => triOf_congr h _) (same k)⟩

/-! ## Writing a document -/

theorem doc_key {k : Key} {d : DocRow} (found : s.doc k = some d) : [Cell.text d.id] = k :=
  Table.find_key (t := s.db.tables .documents) found

theorem rowid_lt_next {k : Key} (known : (s.doc k).isSome) : s.rowid k < s.nextRowid := by
  obtain ⟨d, found⟩ := Option.isSome_iff_exists.1 known
  have mem : d ∈ s.db.documents := Table.find_mem (t := s.db.tables .documents) found
  have own : keyOf .documents d = k := doc_key found
  have listed : s.rowid k ∈ s.db.documents.map fun d => s.rowid (keyOf .documents d) :=
    List.mem_map.2 ⟨d, mem, by rw [own]⟩
  exact Nat.lt_succ_of_le (SeqLog.le_foldr_max _ listed)

theorem find_putFts (t : Table FtsRow FtsRow.rowid) (n m : Nat) (d : DocRow) :
    (t.put (ftsOf deps n d)).find m = if m = n then some (ftsOf deps n d) else t.find m := by
  by_cases here : m = n
  · subst here
    rw [if_pos rfl]
    exact Table.find_put_self t (ftsOf deps m d)
  · rw [if_neg here, Table.find_put, if_neg fun same => here same.symm]

theorem find_putTri (t : Table TriRow TriRow.rowid) (n m : Nat) (d : DocRow) :
    (t.put (triOf n d)).find m = if m = n then some (triOf n d) else t.find m := by
  by_cases here : m = n
  · subst here
    rw [if_pos rfl]
    exact Table.find_put_self t (triOf m d)
  · rw [if_neg here, Table.find_put, if_neg fun same => here same.symm]

theorem ftsUpsert_eq {d : DocRow} (found : s.doc [.text d.id] = some d) :
    s.ftsUpsert deps d.id d.title d.markdown d.languages = some { s with
      fts := (s.fts.erase (s.rowid [.text d.id])).put (ftsOf deps (s.rowid [.text d.id]) d)
      tri := (s.tri.erase (s.rowid [.text d.id])).put (triOf (s.rowid [.text d.id]) d) } := by
  have place : s.rowidOf [.text d.id] = some (s.rowid [.text d.id]) := by
    rw [SearchStore.rowidOf, found]
    rfl
  simp only [SearchStore.ftsUpsert, SearchStore.ftsDelete, place]
  simp only [SearchStore.ftsInsert, SearchStore.rowidOf, SearchStore.doc] at place ⊢
  rw [place]
  simp [Table.find_erase, ftsOf, triOf]

theorem ftsInsert_eq {d : DocRow} (found : s.doc [.text d.id] = some d)
    (stepped : s.ftsInsert deps d.id d.title d.markdown d.languages = some s') :
    s' = { s with
      fts := s.fts.put (ftsOf deps (s.rowid [.text d.id]) d)
      tri := s.tri.put (triOf (s.rowid [.text d.id]) d) } := by
  simp only [SearchStore.ftsInsert, SearchStore.rowidOf, found, Option.map_some,
    Option.bind_some] at stepped
  split at stepped
  · cases stepped
  · exact (Option.some.inj stepped).symm

/-- **A rewritten document's rows are rewritten at their place.** -/
theorem Aligned.upsert (aligned : Aligned deps s) {db : Db} {d : DocRow}
    (known : (s.doc [.text d.id]).isSome) (found : db.find .documents [.text d.id] = some d)
    (same : ∀ j, j ≠ [.text d.id] →
      (db.find .documents j).map searchedText = (s.doc j).map searchedText)
    (stepped : ({ s with db } : SearchStore).ftsUpsert deps d.id d.title d.markdown d.languages =
      some s') : Aligned deps s' := by
  rw [ftsUpsert_eq (s := { s with db }) found] at stepped
  obtain rfl := Option.some.inj stepped
  constructor
  · refine aligned.fts.rewrite known found
      (fun j other => map_congr (fun h => ftsOf_congr h _) (same j other)) fun n => ?_
    rw [find_putFts, Table.find_erase]
    split <;> rfl
  · refine aligned.tri.rewrite known found
      (fun j other => map_congr (fun h => triOf_congr h _) (same j other)) fun n => ?_
    rw [find_putTri, Table.find_erase]
    split <;> rfl

/-- **A new document's rows go to a free place.** -/
theorem Aligned.insert (aligned : Aligned deps s) {db : Db} {d : DocRow}
    {fts : Table FtsRow FtsRow.rowid} {tri : Table TriRow TriRow.rowid}
    (new : s.doc [.text d.id] = none) (found : db.find .documents [.text d.id] = some d)
    (same : ∀ j, j ≠ [.text d.id] → db.find .documents j = s.doc j)
    (written : ∀ n, fts.find n =
      if n = s.nextRowid then some (ftsOf deps s.nextRowid d) else s.fts.find n)
    (writtenTri : ∀ n, tri.find n =
      if n = s.nextRowid then some (triOf s.nextRowid d) else s.tri.find n) :
    Aligned deps { s.inserted [.text d.id] db with fts, tri } := by
  have pins : ∀ j, j ≠ [.text d.id] → (s.inserted [.text d.id] db).rowid j = s.rowid j :=
    fun j other => Function.update_of_ne other _ _
  have place : (s.inserted [.text d.id] db).rowid [.text d.id] = s.nextRowid :=
    Function.update_self _ _ _
  have free : ∀ j, (s.doc j).isSome →
      s.rowid j ≠ (s.inserted [.text d.id] db).rowid [.text d.id] := fun j known => by
    rw [place]
    exact Nat.ne_of_lt (rowid_lt_next known)
  rw [← place] at written writtenTri
  exact ⟨aligned.fts.add new found same pins free written,
    aligned.tri.add new found same pins free writtenTri⟩

theorem Aligned.ftsInsert (aligned : Aligned deps s) {db : Db} {d : DocRow}
    (new : s.doc [.text d.id] = none) (found : db.find .documents [.text d.id] = some d)
    (same : ∀ j, j ≠ [.text d.id] → db.find .documents j = s.doc j)
    (stepped : (s.inserted [.text d.id] db).ftsInsert deps d.id d.title d.markdown d.languages =
      some s') : Aligned deps s' := by
  have place : (s.inserted [.text d.id] db).rowid [.text d.id] = s.nextRowid :=
    Function.update_self _ _ _
  rw [ftsInsert_eq (s := s.inserted [.text d.id] db) found stepped, place]
  exact aligned.insert new found same (fun n => find_putFts _ _ n d) fun n => find_putTri _ _ n d

/-- A list of steps that each keep a property. -/
theorem foldlM_keeps {α : Type} {P : SearchStore → Prop} {f : SearchStore → α → Option SearchStore}
    (keeps : ∀ s a s', P s → f s a = some s' → P s') : {as : List α} → {s s' : SearchStore} → P s →
    as.foldlM f s = some s' → P s'
  | [], _, _, held, ran => by
      obtain rfl := Option.some.inj ran
      exact held
  | a :: as, s, _, held, ran => by
      rw [List.foldlM_cons] at ran
      obtain ⟨s', first, rest⟩ := Option.bind_eq_some_iff.1 ran
      exact foldlM_keeps keeps (keeps s a s' held first) rest

theorem Aligned.upsertDocument {account : AccountId} {input : DocumentInput}
    (aligned : Aligned deps s) (stepped : upsertDocument deps now account s input = some s') :
    Aligned deps s' := by
  unfold SearchIndex.upsertDocument at stepped
  split at stepped
  · obtain rfl := Option.some.inj stepped
    exact aligned
  · rename_i db seq wrote
    unfold Store.upsertDocument at wrote
    cases existing : findDocRow s.db account input.ref with
    | some row =>
        simp only [existing] at wrote stepped
        split at wrote
        · cases wrote
        · obtain ⟨rfl, -⟩ := Prod.mk.inj (Option.some.inj wrote)
          have here : s.db.find .documents [.text row.id] = some row :=
            mem_documents.1 (findDocRow_mem existing).1
          let write := writeRow deps.toDeps now input (parentIdOf s.db account input.parent)
            s.db.nextSeq
          have sameId : ∀ d, (write d).id = d.id := fun _ => rfl
          refine aligned.upsert (d := write row) (Option.isSome_iff_exists.2 ⟨row, here⟩) ?_
            (fun j other => ?_) stepped
          · rw [find_touch _ _ _ write sameId, sameId, if_pos rfl, here]
            rfl
          · rw [find_touch _ _ _ write sameId, if_neg (show j ≠ [.text row.id] from other)]
            rfl
    | none =>
        simp only [existing] at wrote stepped
        obtain ⟨rfl, -⟩ := Prod.mk.inj (Option.some.inj wrote)
        split at stepped
        · cases stepped
        · rename_i taken
          have free : s.doc [.text (documentId deps.toDeps account input.ref)] = none := by
            simpa using taken
          refine aligned.ftsInsert (d := newRow deps.toDeps now account input
            (parentIdOf s.db account input.parent) s.db.nextSeq) free ?_
            (fun j other => ?_) stepped
          · exact Db.insertRow_find_self _ _ _
          · exact Db.insertRow_find_ne _ _ _ fun same => other (Prod.mk.inj same).2

theorem Aligned.enrichDocument {e : EnrichInput} (aligned : Aligned deps s)
    (stepped : enrichDocument deps now s e = some s') : Aligned deps s' := by
  unfold SearchIndex.enrichDocument at stepped
  cases here : s.doc [.text e.documentId] with
  | none =>
      simp only [here] at stepped
      obtain rfl := Option.some.inj stepped
      exact aligned
  | some row =>
      have own : row.id = e.documentId := by simpa using doc_key here
      have wrote : written (Store.enrichDocument deps.toDeps now) s.db e =
          touchDocument s.db row.id now (setEnriched deps.toDeps now e s.db.nextSeq) := by
        rw [written, Store.enrichDocument]
        simp only [SearchStore.doc] at here
        rw [here]
        rfl
      simp only [here, wrote] at stepped
      cases body : e.markdown with
      | none =>
          simp only [body] at stepped
          obtain rfl := Option.some.inj stepped
          refine aligned.sameText (sameText_touch _ _ _ _ fun d => ?_)
          rw [setEnriched, body]
          rfl
      | some markdown =>
          simp only [body] at stepped
          have sameId : ∀ d, (setEnriched deps.toDeps now e s.db.nextSeq d).id = d.id := fun d => by
            rw [setEnriched, body]
          have there : s.doc [.text row.id] = some row := own ▸ here
          refine aligned.upsert (d := { setEnriched deps.toDeps now e s.db.nextSeq row with
            id := row.id, title := row.title, markdown := some markdown
            languages := languagesOf deps.toDeps row.title (some markdown) })
            (Option.isSome_iff_exists.2 ⟨row, there⟩) ?_ (fun j other => ?_) stepped
          · simp only [SearchStore.doc] at there
            rw [find_touch _ _ _ _ sameId, if_pos rfl, there]
            simp [setEnriched, body]
          · rw [find_touch _ _ _ _ sameId, if_neg other]
            rfl

/-! ## Deleting documents -/

/-- The rowids of the documents with `p`. -/
def rowidsWhere (s : SearchStore) (p : DocRow → Bool) : List Nat :=
  (s.db.documents.filter p).map fun d => s.rowid (keyOf .documents d)

theorem mem_rowidsWhere {p : DocRow → Bool} {n : Nat} :
    n ∈ rowidsWhere s p ↔ ∃ k d, s.doc k = some d ∧ p d = true ∧ s.rowid k = n := by
  simp only [rowidsWhere, List.mem_map, List.mem_filter]
  constructor
  · rintro ⟨d, ⟨mem, held⟩, rfl⟩
    exact ⟨_, d, mem_documents.1 mem, held, rfl⟩
  · rintro ⟨k, d, found, held, rfl⟩
    have own : keyOf .documents d = k := doc_key found
    exact ⟨d, ⟨Table.find_mem (t := s.db.tables .documents) found, held⟩, by rw [own]⟩

/-- **Deleted documents take their rows with them.** -/
theorem Aligned.remove (aligned : Aligned deps s) (p : DocRow → Bool) {db : Db}
    {fts : Table FtsRow FtsRow.rowid} {tri : Table TriRow TriRow.rowid}
    (left : ∀ k, (db.find .documents k : Option DocRow) = (s.doc k).filter fun d => !p d)
    (erased : ∀ n, fts.find n = if n ∈ rowidsWhere s p then none else s.fts.find n)
    (erasedTri : ∀ n, tri.find n = if n ∈ rowidsWhere s p then none else s.tri.find n) :
    Aligned deps { s with db, fts, tri } := by
  let gone : Key → Prop := fun k => ∃ d, s.doc k = some d ∧ p d = true
  have left : ∀ k, db.find .documents k = s.doc k ∧ ¬gone k ∨
      db.find .documents k = none ∧ ((s.doc k).isSome → gone k) := fun k => by
    have filtered := left k
    cases found : s.doc k with
    | none =>
        rw [found] at filtered
        exact .inl ⟨filtered, fun ⟨d, here, _⟩ => by rw [found] at here; cases here⟩
    | some d =>
        rw [found] at filtered
        cases held : p d with
        | true =>
            exact .inr ⟨by simpa [Option.filter, held] using filtered, fun _ => ⟨d, found, held⟩⟩
        | false =>
            refine .inl ⟨by simpa [Option.filter, held] using filtered, fun ⟨d', here, held'⟩ => ?_⟩
            obtain rfl := Option.some.inj (found.symm.trans here)
            rw [held] at held'
            cases held'
  have kept : ∀ n, n ∉ rowidsWhere s p → ∀ k, (s.doc k).isSome → s.rowid k = n → ¬gone k :=
    fun n out k _ here ⟨d, found, held⟩ => out (mem_rowidsWhere.2 ⟨k, d, found, held, here⟩)
  have lost : ∀ n, n ∈ rowidsWhere s p → ∃ k, (s.doc k).isSome ∧ s.rowid k = n ∧ gone k :=
    fun n mem =>
      let ⟨k, d, found, held, here⟩ := mem_rowidsWhere.1 mem
      ⟨k, Option.isSome_iff_exists.2 ⟨d, found⟩, here, d, found, held⟩
  constructor
  · refine aligned.fts.remove gone left fun n => ?_
    by_cases mem : n ∈ rowidsWhere s p
    · exact .inr ⟨by rw [erased, if_pos mem], lost n mem⟩
    · exact .inl ⟨by rw [erased, if_neg mem], kept n mem⟩
  · refine aligned.tri.remove gone left fun n => ?_
    by_cases mem : n ∈ rowidsWhere s p
    · exact .inr ⟨by rw [erasedTri, if_pos mem], lost n mem⟩
    · exact .inl ⟨by rw [erasedTri, if_neg mem], kept n mem⟩

theorem find_eraseRowids {ρ : Type} {key : ρ → Nat} (t : Table ρ key) (ns : List Nat) (n : Nat) :
    (t.eraseWhere fun r => decide (key r ∈ ns)).find n = if n ∈ ns then none else t.find n := by
  rw [Table.find_eraseWhere]
  cases found : t.find n with
  | none => simp
  | some r =>
      have own := Table.find_key found
      by_cases mem : n ∈ ns <;> simp [Option.filter, own, mem]

theorem Aligned.removeWhere (aligned : Aligned deps s) (p : DocRow → Bool) {db : Db}
    (left : ∀ k, (db.find .documents k : Option DocRow) = (s.doc k).filter fun d => !p d) :
    Aligned deps { s.ftsDeleteWhere p with db } :=
  aligned.remove p left (fun n => find_eraseRowids _ _ n) fun n => find_eraseRowids _ _ n

theorem find_removeAccount {db : Db} {id : AccountId} (known : (db.find .accounts [.text id]).isSome)
    (k : Key) : ((Store.removeAccount now id db).1.find .documents k : Option DocRow) =
      (db.find .documents k).filter fun d => !decide (d.accountId = id) := by
  obtain ⟨acc, found⟩ := Option.isSome_iff_exists.1 known
  rw [Store.removeAccount, found]
  simp only [appendChangeSeq, Db.appendChange_find]
  rw [Db.deleteAccount_find, if_neg (by simp)]
  have children := db.deleteChildren_find .documents id .documents k
  simp only [Db.find] at children ⊢
  rw [children]
  cases (db.tables .documents).find k with
  | none => rfl
  | some d => by_cases same : DocRow.accountId d = id <;> simp [Option.filter, accountOf, same]

theorem find_purge (k : Key) : (ids : List DocumentId) → (db : Db) →
    ((ids.foldl (purgeDocument now) db).find .documents k : Option DocRow) =
      if ∃ id ∈ ids, k = [.text id] then none else db.find .documents k
  | [], db => by simp
  | id :: ids, db => by
      have one : ((purgeDocument now db id).find .documents k : Option DocRow) =
          if k = [.text id] then none else db.find .documents k := by
        rw [purgeDocument, Db.appendChange_find, Db.deleteRow_find_other db (by simp)]
        simp
      rw [List.foldl_cons, find_purge k ids, one]
      by_cases here : k = [.text id] <;> by_cases later : ∃ id ∈ ids, k = [Cell.text id] <;>
        simp [here, later]

theorem Aligned.removeAccount (aligned : Aligned deps s) (id : AccountId) :
    Aligned deps (removeAccount now id s) := by
  unfold SearchIndex.removeAccount
  split
  · exact aligned
  · rename_i acc known
    exact aligned.removeWhere _ fun k =>
      find_removeAccount (Option.isSome_iff_exists.2 ⟨acc, known⟩) k

theorem Aligned.purgeArchived (aligned : Aligned deps s) (before : Time) :
    Aligned deps (purgeArchived now before s) := by
  refine aligned.removeWhere _ fun k => ?_
  rw [Store.purgeArchived, find_purge]
  cases found : s.doc k with
  | none =>
      simp only [SearchStore.doc] at found
      simp [found]
  | some d =>
      have mem : d ∈ s.db.documents := Table.find_mem (t := s.db.tables .documents) found
      have own : [Cell.text d.id] = k := doc_key found
      have listed : (∃ id ∈ (s.db.documents.filter fun d => d.archivedAt.any (· < before)).map
          DocRow.id, k = [.text id]) ↔ d.archivedAt.any (· < before) = true := by
        constructor
        · rintro ⟨id, there, rfl⟩
          obtain ⟨e, kept, rfl⟩ := List.mem_map.1 there
          obtain ⟨there, old⟩ := List.mem_filter.1 kept
          have same : e = d := id_injective there mem (by simpa using own.symm)
          exact same ▸ old
        · intro old
          exact ⟨d.id, List.mem_map_of_mem (List.mem_filter.2 ⟨mem, old⟩), own.symm⟩
      simp only [SearchStore.doc] at found
      by_cases old : d.archivedAt.any (· < before) = true
      · rw [if_pos (listed.2 old)]
        simp [Option.filter, old]
      · rw [if_neg (mt listed.1 old), found]
        simp [Option.filter, old]

/-! ## Transactions -/

theorem sameText_closeAccount (now : Time) (publishedAt : Option Time) (acc : AccountRow)
    (b : AccountBatch) (db : Db) : SameText db (closeAccount now publishedAt acc b db) := by
  have reconciled := sameText_relinks now acc.id (parentPairs b.documents) db
  have relinked := reconciled.trans (sameText_relinks now acc.id b.links _)
  have archived := relinked.trans (sameText_archives now acc.id b.deleted _)
  refine archived.trans (.of_tables ?_)
  rw [closeAccount, Db.updateRow_tables_ne _ _ _ _ (by decide)]
  split <;> rfl

theorem Aligned.commitAccount {publishedAt : Option Time} {b : AccountBatch}
    (aligned : Aligned deps s) (stepped : commitAccount deps now publishedAt b s = some s') :
    Aligned deps s' := by
  obtain ⟨(acc : AccountRow), _, stepped⟩ := Option.bind_eq_some_iff.1 stepped
  obtain ⟨wrote, ran, rfl⟩ := Option.map_eq_some_iff.1 stepped
  have upserted : Aligned deps wrote :=
    foldlM_keeps (fun _ _ _ aligned stepped => aligned.upsertDocument stepped) aligned ran
  exact upserted.sameText (sameText_closeAccount now publishedAt acc b wrote.db)

theorem getOrCreateAccount_documents (deps : SearchDeps) (now : Time) (db : Db) (source identifier : String) :
    (getOrCreateAccount deps.toDeps now source identifier db).1.tables .documents =
      db.tables .documents := by
  unfold getOrCreateAccount
  split
  · rfl
  · exact Db.insertRow_tables_ne _ _ _ (by decide)

theorem sameText_recordConsumer (b : ConsumerBatch) (db : Db) :
    SameText db (recordConsumer b db) := by
  have cursor : SameText db ((b.cursor.map (setConsumer db b.consumer)).getD db) := by
    cases b.cursor <;> exact .of_tables rfl
  have seeded : ∀ c : Db, SameText c ((b.seedCursor.map (setSeedCursor c b.consumer)).getD c) := by
    intro c
    cases b.seedCursor <;> exact .of_tables rfl
  exact (cursor.trans (seeded _)).trans
    (.foldl (recordOutcome b.consumer) (fun _ _ => .of_tables rfl) b.ledger _)

theorem Aligned.commitConsumer {b : ConsumerBatch} (aligned : Aligned deps s)
    (stepped : commitConsumer deps now b s = some s') : Aligned deps s' := by
  obtain ⟨emitted, first, enriched⟩ := Option.bind_eq_some_iff.1 stepped
  have cursors : Aligned deps { s with db := recordConsumer b s.db } :=
    aligned.sameText (sameText_recordConsumer b s.db)
  refine foldlM_keeps (fun _ _ _ aligned stepped => aligned.enrichDocument stepped) ?_ enriched
  split at first
  · obtain rfl := Option.some.inj first
    exact cursors
  · obtain ⟨wrote, ran, rfl⟩ := Option.map_eq_some_iff.1 first
    have synthetic := cursors.sameText (.of_tables
      (getOrCreateAccount_documents deps now _ "worker" b.consumer))
    have upserted : Aligned deps wrote :=
      foldlM_keeps (fun _ _ _ aligned stepped => aligned.upsertDocument stepped) synthetic ran
    exact upserted.sameText (sameText_relinks now _ _ _)

theorem Aligned.commitTx {publishedAt : Option Time} {batch : CommitBatch}
    (aligned : Aligned deps s) (stepped : commitTx deps now publishedAt batch s = some s') :
    Aligned deps s' := by
  cases batch with
  | account b => exact aligned.commitAccount stepped
  | consumer b => exact aligned.commitConsumer stepped
  | removeAccount id =>
      obtain rfl := Option.some.inj stepped
      exact aligned.removeAccount id
  | purgeArchived before =>
      obtain rfl := Option.some.inj stepped
      exact aligned.purgeArchived before

theorem find_ftsDelete (s : SearchStore) (k : Key) (n : Nat) :
    (s.ftsDelete k).fts.find n = (if s.rowidOf k = some n then none else s.fts.find n) ∧
      (s.ftsDelete k).tri.find n = (if s.rowidOf k = some n then none else s.tri.find n) := by
  unfold SearchStore.ftsDelete
  cases s.rowidOf k with
  | none => simp
  | some m => simp [Table.find_erase, eq_comm (a := n)]

/-- Deleting rows of the search tables leaves the documents. -/
theorem foldl_ftsDelete_eq (docs : List DocRow) (s : SearchStore) :
    docs.foldl (fun s d => s.ftsDelete (keyOf .documents d)) s = { s with
      fts := (docs.foldl (fun s d => s.ftsDelete (keyOf .documents d)) s).fts
      tri := (docs.foldl (fun s d => s.ftsDelete (keyOf .documents d)) s).tri } := by
  induction docs generalizing s with
  | nil => rfl
  | cons d docs ih =>
      rw [List.foldl_cons, ih]
      unfold SearchStore.ftsDelete
      split <;> rfl

theorem find_foldl_ftsDelete (n : Nat) (docs : List DocRow) (s : SearchStore) :
    let after := docs.foldl (fun s d => s.ftsDelete (keyOf .documents d)) s
    let listed := ∃ d ∈ docs, s.rowidOf (keyOf .documents d) = some n
    (after.fts.find n = if listed then none else s.fts.find n) ∧
      after.tri.find n = if listed then none else s.tri.find n := by
  classical
  induction docs generalizing s with
  | nil => simp
  | cons d docs ih =>
      have places : ∀ e, (s.ftsDelete (keyOf .documents d)).rowidOf e = s.rowidOf e := fun e => by
        unfold SearchStore.ftsDelete
        split <;> rfl
      obtain ⟨fts, tri⟩ := ih (s.ftsDelete (keyOf .documents d))
      obtain ⟨first, firstTri⟩ := find_ftsDelete s (keyOf .documents d) n
      simp only [List.foldl_cons, fts, tri, first, firstTri, places]
      by_cases here : s.rowidOf (keyOf .documents d) = some n <;>
        by_cases later : ∃ e ∈ docs, s.rowidOf (keyOf .documents e) = some n <;>
        simp [here, later]

theorem rowidOf_eq_some {k : Key} {n : Nat} :
    s.rowidOf k = some n ↔ ∃ d, s.doc k = some d ∧ s.rowid k = n := by
  rw [SearchStore.rowidOf, Option.map_eq_some_iff]

/-- What a staged document leaves. -/
theorem find_applyUpsert (db : Db) (row : DocRow) (k : Key) :
    ((Sync.applyEntry now db (.upsert .documents row)).find .documents k : Option DocRow) =
      if k = [.text row.id] then some row else db.find .documents k := by
  have noted : ∀ j, (noteDocument db row).find .documents j = db.find .documents j := fun j => by
    unfold noteDocument
    split <;> rfl
  have stored : ((noteDocument db row).upsertRow .documents row).find .documents k =
      if k = [.text row.id] then some row else db.find .documents k := by
    split
    · rename_i here
      rw [here]
      exact Db.upsertRow_find_self _ _ _
    · rename_i other
      rw [Db.upsertRow_find_ne _ _ _ fun same => other (Prod.mk.inj same).2, noted]
  rw [← stored]
  simp only [Sync.applyEntry]
  split <;> rfl

theorem Aligned.applyUpsert (aligned : Aligned deps s) {row : DocRow}
    (stepped : applyEntry deps now s (.upsert .documents row) = some s') : Aligned deps s' := by
  let db := Sync.applyEntry now s.db (.upsert .documents row)
  have found : db.find .documents [.text row.id] = some row := by
    rw [find_applyUpsert, if_pos rfl]
  have same : ∀ j, j ≠ [.text row.id] → (db.find .documents j : Option DocRow) = s.doc j :=
    fun j other => by
      rw [find_applyUpsert, if_neg other]
      rfl
  have sameTexts : ∀ j, j ≠ [.text row.id] →
      (db.find .documents j : Option DocRow).map searchedText = (s.doc j).map searchedText :=
    fun j other => by rw [same j other]
  simp only [SearchIndex.applyEntry, keyOf] at stepped
  cases before : s.doc [.text row.id] with
  | some old =>
      have known : (s.doc [.text row.id]).isSome := Option.isSome_iff_exists.2 ⟨old, before⟩
      simp only [before, Option.isSome_some, if_true, Option.any_some, decide_eq_true_eq] at stepped
      split at stepped
      · rename_i unchanged
        obtain rfl := Option.some.inj stepped
        refine aligned.sameText fun k => ?_
        by_cases here : k = [.text row.id]
        · have own : old.id = row.id := by simpa using doc_key before
          rw [here, found]
          simp only [SearchStore.doc] at before
          rw [before]
          simp [searchedText, own, unchanged]
        · exact sameTexts k here
      · split at stepped
        · exact aligned.upsert known found sameTexts stepped
        · cases stepped
  | none =>
      simp only [before, Option.isSome_none, Option.any_none] at stepped
      simp only [Bool.false_eq_true, if_false] at stepped
      split at stepped
      · rw [ftsUpsert_eq (s := s.inserted [.text row.id] db) found] at stepped
        obtain rfl := Option.some.inj stepped
        have place : (s.inserted [.text row.id] db).rowid [.text row.id] = s.nextRowid :=
          Function.update_self _ _ _
        rw [place]
        refine aligned.insert before found same (fun n => ?_) fun n => ?_
        · rw [find_putFts, Table.find_erase]
          split <;> rfl
        · rw [find_putTri, Table.find_erase]
          split <;> rfl
      · cases stepped

/-- What a staged delete leaves of the documents. -/
theorem find_applyDelete (db : Db) (pk k : Key) :
    ((Sync.applyEntry now db (.delete .documents pk)).find .documents k : Option DocRow) =
      (db.find .documents k).filter fun d => !decide (keyOf .documents d = pk) := by
  have deleted := Db.deleteRow_find_other (noteKey db .documents pk) (t := .documents) (k := pk)
    (by simp) .documents k
  rw [Sync.applyEntry, deleted]
  have noted : (noteKey db .documents pk).find .documents k = db.find .documents k := rfl
  rw [noted]
  cases found : db.find .documents k with
  | none => simp
  | some d =>
      have own : keyOf .documents d = k := Table.find_key (t := db.tables .documents) found
      by_cases here : k = pk <;> simp [Option.filter, own, here]

theorem find_applyDeleteAccount (db : Db) (id : AccountId) (k : Key) :
    ((Sync.applyEntry now db (.delete .accounts [.text id])).find .documents k : Option DocRow) =
      (db.find .documents k).filter fun d => !decide (d.accountId = id) := by
  rw [Sync.applyEntry, Db.deleteAccount_find, if_neg (by simp)]
  have noted : (noteKey db .accounts [.text id]).find .documents k = db.find .documents k := rfl
  rw [noted]
  cases db.find .documents k with
  | none => rfl
  | some d => by_cases same : DocRow.accountId d = id <;> simp [Option.filter, accountOf, same]

/-- Every other entry leaves the documents as they are. -/
theorem find_applyOther (db : Db) (e : StageEntry)
    (delete : ∀ pk, e ≠ .delete .documents pk) (account : ∀ id, e ≠ .delete .accounts [.text id])
    (upsert : ∀ row, e ≠ .upsert .documents row) (k : Key) :
    (Sync.applyEntry now db e).find .documents k = db.find .documents k := by
  cases e with
  | delete t pk =>
      have other : t ≠ .documents := fun same => delete pk (same ▸ rfl)
      rw [Sync.applyEntry, Db.deleteRow_find_other _ fun id same => account id ?_,
        if_neg fun same => other (Prod.mk.inj same).1.symm]
      · rfl
      · obtain ⟨rfl, rfl⟩ := Prod.mk.inj same
        rfl
  | upsert t row =>
      have other : t ≠ .documents := by
        rintro rfl
        exact upsert row rfl
      have plain : Sync.applyEntry now db (.upsert t row) =
          (noteKey db t (keyOf t row)).upsertRow t row := by
        cases t <;> first | rfl | exact absurd rfl other
      rw [plain, Db.upsertRow_find_ne _ _ _ fun same => other (Prod.mk.inj same).1.symm]
      rfl

theorem Aligned.applyEntry (aligned : Aligned deps s) {e : StageEntry}
    (stepped : applyEntry deps now s e = some s') : Aligned deps s' := by
  unfold SearchIndex.applyEntry at stepped
  dsimp only at stepped
  split at stepped
  · rename_i pk
    obtain rfl := Option.some.inj stepped
    have listed : ∀ n, s.rowidOf pk = some n ↔
        n ∈ rowidsWhere s fun d => keyOf .documents d = pk := fun n => by
      rw [rowidOf_eq_some, mem_rowidsWhere]
      constructor
      · rintro ⟨d, found, here⟩
        have own : keyOf .documents d = pk := doc_key found
        exact ⟨pk, d, found, decide_eq_true own, here⟩
      · rintro ⟨k, d, found, held, here⟩
        have own : keyOf .documents d = k := doc_key found
        obtain rfl := own.symm.trans (of_decide_eq_true held)
        exact ⟨d, found, here⟩
    have same : s.ftsDelete pk = { s with fts := (s.ftsDelete pk).fts, tri := (s.ftsDelete pk).tri } := by
      unfold SearchStore.ftsDelete
      split <;> rfl
    rw [same]
    refine aligned.remove (fun d => keyOf .documents d = pk) (find_applyDelete _ pk)
      (fun n => ?_) fun n => ?_
    · simpa only [listed] using (find_ftsDelete s pk n).1
    · simpa only [listed] using (find_ftsDelete s pk n).2
  · rename_i id
    obtain rfl := Option.some.inj stepped
    have listed : ∀ n, (∃ d ∈ s.db.documents.filter fun d => d.accountId = id,
        s.rowidOf (keyOf .documents d) = some n) ↔ n ∈ rowidsWhere s fun d => d.accountId = id :=
      fun n => by
        simp only [rowidsWhere, List.mem_map, List.mem_filter]
        refine exists_congr fun d => and_congr_right fun held => ?_
        rw [rowidOf_eq_some]
        constructor
        · rintro ⟨_, _, here⟩
          exact here
        · exact fun here => ⟨d, mem_documents.1 held.1, here⟩
    rw [foldl_ftsDelete_eq]
    refine aligned.remove (fun d => d.accountId = id) (find_applyDeleteAccount _ id)
      (fun n => ?_) fun n => ?_
    · simpa only [listed] using
        (find_foldl_ftsDelete n (s.db.documents.filter fun d => d.accountId = id) s).1
    · simpa only [listed] using
        (find_foldl_ftsDelete n (s.db.documents.filter fun d => d.accountId = id) s).2
  · rename_i row
    exact aligned.applyUpsert stepped
  · rename_i delete account upsert
    obtain rfl := Option.some.inj stepped
    exact aligned.sameText fun k => congrArg _ (find_applyOther _ e (fun pk h => delete pk h)
      (fun id h => account id h) (fun row h => upsert row h) k)

theorem Aligned.applyDeltaTx {entries : List StageEntry} {target : SyncCursor} {epoch : Nat}
    (aligned : Aligned deps s) (stepped : applyDeltaTx deps now entries target epoch s = some s') :
    Aligned deps s' := by
  unfold SearchIndex.applyDeltaTx at stepped
  split at stepped
  · cases stepped
  · split at stepped
    · cases stepped
    · obtain ⟨applied, ran, stepped⟩ := Option.bind_eq_some_iff.1 stepped
      have kept : Aligned deps applied :=
        foldlM_keeps (fun _ _ _ aligned stepped => aligned.applyEntry stepped) aligned ran
      dsimp only at stepped
      split at stepped
      · obtain rfl := Option.some.inj stepped
        exact kept.sameText (.of_tables rfl)
      · cases stepped

/-! ## Rowids -/

theorem Aligned.apart (aligned : Aligned deps s) : Apart s := aligned.fts.apart

/-- Rows that keep their rowids, or go. -/
theorem Apart.shrink (apart : Apart s) (rowid : s'.rowid = s.rowid)
    (fewer : ∀ k, (s'.doc k).isSome → (s.doc k).isSome) : Apart s' := fun i j here here' same =>
  apart i j (fewer i here) (fewer j here') (by rw [← rowid]; exact same)

theorem Apart.inserted (apart : Apart s) {k : Key} {db : Db} (rowid : s'.rowid =
    (s.inserted k db).rowid) (fewer : ∀ j, j ≠ k → (s'.doc j).isSome → (s.doc j).isSome) :
    Apart s' := by
  have old : ∀ {j}, j ≠ k → s'.rowid j = s.rowid j := fun other => by
    rw [rowid]
    exact Function.update_of_ne other _ _
  have new : s'.rowid k = s.nextRowid := by
    rw [rowid]
    exact Function.update_self _ _ _
  intro i j here here' same
  by_cases first : i = k <;> by_cases second : j = k
  · exact first.trans second.symm
  · rw [first, new, old second] at same
    exact absurd same (Nat.ne_of_gt (rowid_lt_next (fewer j second here')))
  · rw [second, new, old first] at same
    exact absurd same (Nat.ne_of_lt (rowid_lt_next (fewer i first here)))
  · rw [old first, old second] at same
    exact apart i j (fewer i first here) (fewer j second here') same

theorem Apart.sameText (apart : Apart s) {db : Db} (same : SameText s.db db) :
    Apart { s with db } :=
  apart.shrink rfl fun k here => by
    have present := congrArg Option.isSome (same k)
    rw [Option.isSome_map, Option.isSome_map] at present
    exact present.symm.trans here

theorem ftsInsert_frame {docId : DocumentId} {title markdown : Option String} {languages : String}
    (stepped : s.ftsInsert deps docId title markdown languages = some s') :
    s'.db = s.db ∧ s'.rowid = s.rowid := by
  obtain ⟨n, _, stepped⟩ := Option.bind_eq_some_iff.1 stepped
  split at stepped
  · cases stepped
  · obtain rfl := Option.some.inj stepped
    exact ⟨rfl, rfl⟩

theorem ftsUpsert_frame {docId : DocumentId} {title markdown : Option String} {languages : String}
    (stepped : s.ftsUpsert deps docId title markdown languages = some s') :
    s'.db = s.db ∧ s'.rowid = s.rowid := by
  obtain ⟨db, rowid⟩ := ftsInsert_frame stepped
  rw [db, rowid]
  unfold SearchStore.ftsDelete
  split <;> exact ⟨rfl, rfl⟩

theorem Apart.upsertDocument {account : AccountId} {input : DocumentInput} (apart : Apart s)
    (stepped : upsertDocument deps now account s input = some s') : Apart s' := by
  unfold SearchIndex.upsertDocument at stepped
  split at stepped
  · obtain rfl := Option.some.inj stepped
    exact apart
  · rename_i db seq wrote
    unfold Store.upsertDocument at wrote
    cases existing : findDocRow s.db account input.ref with
    | some row =>
        simp only [existing] at wrote stepped
        split at wrote
        · cases wrote
        · obtain ⟨rfl, -⟩ := Prod.mk.inj (Option.some.inj wrote)
          obtain ⟨db, rowid⟩ := ftsUpsert_frame stepped
          let write := writeRow deps.toDeps now input (parentIdOf s.db account input.parent)
            s.db.nextSeq
          refine apart.shrink rowid fun k here => ?_
          rw [SearchStore.doc, db] at here
          rw [find_touch _ _ _ write fun _ => rfl] at here
          split at here
          · simpa [SearchStore.doc] using here
          · exact here
    | none =>
        simp only [existing] at wrote stepped
        obtain ⟨rfl, -⟩ := Prod.mk.inj (Option.some.inj wrote)
        split at stepped
        · cases stepped
        · obtain ⟨db, rowid⟩ := ftsInsert_frame stepped
          refine apart.inserted rowid fun j other here => ?_
          rw [SearchStore.doc, db] at here
          have kept := @Db.insertRow_find_ne (s.db.appendChange .document
            (newRow deps.toDeps now account input (parentIdOf s.db account input.parent)
              s.db.nextSeq).id now) .documents (newRow deps.toDeps now account input
            (parentIdOf s.db account input.parent) s.db.nextSeq) .documents j
            fun same => other (Prod.mk.inj same).2
          exact (congrArg Option.isSome kept).symm.trans here

theorem Apart.enrichDocument {e : EnrichInput} (apart : Apart s)
    (stepped : enrichDocument deps now s e = some s') : Apart s' := by
  have sameId : ∀ seq d, (setEnriched deps.toDeps now e seq d).id = d.id := fun seq d => by
    unfold setEnriched
    cases e.markdown <;> rfl
  have fewer : ∀ k, ((written (Store.enrichDocument deps.toDeps now) s.db e).find .documents k).isSome →
      (s.doc k).isSome := by
    intro k here
    unfold written Store.enrichDocument at here
    split at here
    · exact here
    · simp only [Option.map_some, Option.getD_some] at here
      rw [find_touch _ _ _ _ (sameId _)] at here
      split at here
      · simpa [SearchStore.doc] using here
      · exact here
  unfold SearchIndex.enrichDocument at stepped
  split at stepped
  · obtain rfl := Option.some.inj stepped
    exact apart
  · dsimp only at stepped
    split at stepped
    · obtain rfl := Option.some.inj stepped
      exact apart.shrink rfl fewer
    · obtain ⟨db, rowid⟩ := ftsUpsert_frame stepped
      refine apart.shrink rowid fun k here => fewer k ?_
      rwa [SearchStore.doc, db] at here

theorem isSome_of_filter {d : Option DocRow} {p : DocRow → Bool} (here : (d.filter p).isSome) :
    d.isSome := by
  cases d with
  | none => exact here
  | some => rfl

theorem Apart.commitTx {publishedAt : Option Time} {batch : CommitBatch} (apart : Apart s)
    (stepped : commitTx deps now publishedAt batch s = some s') : Apart s' := by
  cases batch with
  | account b =>
      obtain ⟨(acc : AccountRow), _, stepped⟩ := Option.bind_eq_some_iff.1 stepped
      obtain ⟨wrote, ran, rfl⟩ := Option.map_eq_some_iff.1 stepped
      have upserted : Apart wrote :=
        foldlM_keeps (fun _ _ _ apart stepped => apart.upsertDocument stepped) apart ran
      exact upserted.sameText (sameText_closeAccount now publishedAt acc b wrote.db)
  | consumer b =>
      obtain ⟨emitted, first, enriched⟩ := Option.bind_eq_some_iff.1 stepped
      have cursors : Apart { s with db := recordConsumer b s.db } :=
        apart.sameText (sameText_recordConsumer b s.db)
      refine foldlM_keeps (fun _ _ _ apart stepped => apart.enrichDocument stepped) ?_ enriched
      split at first
      · obtain rfl := Option.some.inj first
        exact cursors
      · obtain ⟨wrote, ran, rfl⟩ := Option.map_eq_some_iff.1 first
        have synthetic := cursors.sameText (.of_tables
          (getOrCreateAccount_documents deps now _ "worker" b.consumer))
        have upserted : Apart wrote :=
          foldlM_keeps (fun _ _ _ apart stepped => apart.upsertDocument stepped) synthetic ran
        exact upserted.sameText (sameText_relinks now _ _ _)
  | removeAccount id =>
      obtain rfl := Option.some.inj stepped
      unfold SearchIndex.removeAccount
      split
      · exact apart
      · rename_i acc known
        refine apart.shrink rfl fun k here => ?_
        have left : ((Store.removeAccount now id s.db).1.find .documents k : Option DocRow) =
            (s.db.find .documents k).filter fun d => !decide (d.accountId = id) :=
          find_removeAccount (Option.isSome_iff_exists.2 ⟨acc, known⟩) k
        exact isSome_of_filter ((congrArg Option.isSome left).symm.trans here)
  | purgeArchived before =>
      obtain rfl := Option.some.inj stepped
      refine apart.shrink rfl fun k here => ?_
      let ids := (s.db.documents.filter fun d => d.archivedAt.any (· < before)).map DocRow.id
      have left : ((ids.foldl (purgeDocument now) s.db).find .documents k : Option DocRow) =
          if ∃ id ∈ ids, k = [.text id] then none else s.db.find .documents k :=
        find_purge k ids s.db
      have here : (((Store.purgeArchived now before s.db).1).find .documents k).isSome := here
      rw [Store.purgeArchived, left] at here
      split at here
      · cases here
      · exact here

theorem Apart.applyEntry {e : StageEntry} (apart : Apart s)
    (stepped : applyEntry deps now s e = some s') : Apart s' := by
  unfold SearchIndex.applyEntry at stepped
  dsimp only at stepped
  split at stepped
  · rename_i pk
    obtain rfl := Option.some.inj stepped
    refine apart.shrink ?_ fun k here => isSome_of_filter (p := fun d => !decide
      (keyOf .documents d = pk)) ?_
    · show (s.ftsDelete pk).rowid = s.rowid
      unfold SearchStore.ftsDelete
      split <;> rfl
    · rw [SearchStore.doc, find_applyDelete] at here
      exact here
  · rename_i id
    obtain rfl := Option.some.inj stepped
    rw [foldl_ftsDelete_eq]
    refine apart.shrink rfl fun k here => isSome_of_filter (p := fun d => !decide
      (d.accountId = id)) ?_
    rw [SearchStore.doc, find_applyDeleteAccount] at here
    exact here
  · rename_i row
    have fewer : ∀ k, k ≠ [.text row.id] →
        ((Sync.applyEntry now s.db (.upsert .documents row)).find .documents k).isSome →
        (s.doc k).isSome := fun k other here => by
      rwa [find_applyUpsert, if_neg other] at here
    have pinned : Apart (if (s.doc (keyOf .documents row)).isSome then
        { s with db := Sync.applyEntry now s.db (.upsert .documents row) }
        else s.inserted (keyOf .documents row)
          (Sync.applyEntry now s.db (.upsert .documents row))) := by
      split
      · rename_i known
        refine apart.shrink rfl fun k here => ?_
        by_cases own : k = [.text row.id]
        · exact own ▸ known
        · exact fewer k own here
      · exact apart.inserted rfl fewer
    split at stepped
    · obtain rfl := Option.some.inj stepped
      exact pinned
    · split at stepped
      · obtain ⟨db, rowid⟩ := ftsUpsert_frame stepped
        refine pinned.shrink rowid fun k here => ?_
        rwa [SearchStore.doc, db] at here
      · cases stepped
  · rename_i delete account upsert
    obtain rfl := Option.some.inj stepped
    refine apart.sameText fun k => congrArg _ (find_applyOther _ e (fun pk h => delete pk h)
      (fun id h => account id h) (fun row h => upsert row h) k)

theorem Apart.applyDeltaTx {entries : List StageEntry} {target : SyncCursor} {epoch : Nat}
    (apart : Apart s) (stepped : applyDeltaTx deps now entries target epoch s = some s') :
    Apart s' := by
  unfold SearchIndex.applyDeltaTx at stepped
  split at stepped
  · cases stepped
  · split at stepped
    · cases stepped
    · obtain ⟨applied, ran, stepped⟩ := Option.bind_eq_some_iff.1 stepped
      have kept : Apart applied :=
        foldlM_keeps (fun _ _ _ apart stepped => apart.applyEntry stepped) apart ran
      dsimp only at stepped
      split at stepped
      · obtain rfl := Option.some.inj stepped
        exact kept.sameText (.of_tables rfl)
      · cases stepped

/-! ## The database under the search tables -/

theorem foldlM_db {α : Type} {f : SearchStore → α → Option SearchStore} {write : Db → α → Db}
    (each : ∀ s a s', f s a = some s' → s'.db = write s.db a) : {as : List α} →
    {s s' : SearchStore} → as.foldlM f s = some s' → s'.db = as.foldl write s.db
  | [], _, _, ran => by
      obtain rfl := Option.some.inj ran
      rfl
  | a :: as, s, _, ran => by
      rw [List.foldlM_cons] at ran
      obtain ⟨s', first, rest⟩ := Option.bind_eq_some_iff.1 ran
      rw [foldlM_db each rest, each s a s' first]
      rfl

theorem upsertDocument_db {account : AccountId} {input : DocumentInput}
    (stepped : upsertDocument deps now account s input = some s') :
    s'.db = written (Store.upsertDocument deps.toDeps now account) s.db input := by
  unfold SearchIndex.upsertDocument at stepped
  rw [written]
  split at stepped
  · rename_i same
    obtain rfl := Option.some.inj stepped
    rw [same]
    rfl
  · rename_i db seq wrote
    rw [wrote]
    dsimp only at stepped
    split at stepped
    · exact (ftsUpsert_frame stepped).1
    · split at stepped
      · cases stepped
      · exact (ftsInsert_frame stepped).1

theorem enrichDocument_db {e : EnrichInput} (stepped : enrichDocument deps now s e = some s') :
    s'.db = written (Store.enrichDocument deps.toDeps now) s.db e := by
  unfold SearchIndex.enrichDocument at stepped
  split at stepped
  · rename_i missing
    obtain rfl := Option.some.inj stepped
    rw [SearchStore.doc] at missing
    rw [written, Store.enrichDocument, missing]
    rfl
  · dsimp only at stepped
    split at stepped
    · obtain rfl := Option.some.inj stepped
      rfl
    · exact (ftsUpsert_frame stepped).1

/-- **A commit with its search rows is the store's commit.** -/
theorem commitTx_refines {publishedAt : Option Time} {batch : CommitBatch}
    (stepped : commitTx deps now publishedAt batch s = some s') :
    (Store.commitTx deps.toDeps now publishedAt batch s.db).map Prod.fst = .ok s'.db := by
  cases batch with
  | account b =>
      obtain ⟨(acc : AccountRow), found, stepped⟩ := Option.bind_eq_some_iff.1 stepped
      obtain ⟨wrote, ran, rfl⟩ := Option.map_eq_some_iff.1 stepped
      have documents := foldlM_db (fun _ _ _ stepped => upsertDocument_db stepped) ran
      simp only [Store.commitTx, Store.commitAccount, found, closeAccount, documents, Except.map]
      congr 2
      split <;> simp only [appendChangeSeq, commitDocuments, foldLast_fst]
  | consumer b =>
      obtain ⟨emitted, first, enriched⟩ := Option.bind_eq_some_iff.1 stepped
      refine congrArg Except.ok ?_
      rw [foldlM_db (fun _ _ _ stepped => enrichDocument_db stepped) enriched]
      simp only [Store.commitConsumer, foldLast_fst]
      congr 1
      split at first
      · rename_i empty
        obtain rfl := Option.some.inj first
        rw [if_pos empty]
        rfl
      · rename_i some
        obtain ⟨wrote, ran, rfl⟩ := Option.map_eq_some_iff.1 first
        rw [if_neg some]
        simp only [foldLast_fst]
        rw [foldlM_db (fun _ _ _ stepped => upsertDocument_db stepped) ran]
        rfl
  | removeAccount id =>
      obtain rfl := Option.some.inj stepped
      refine congrArg Except.ok ?_
      unfold SearchIndex.removeAccount
      split
      · rename_i missing
        rw [Store.removeAccount, missing]
      · rfl
  | purgeArchived before =>
      obtain rfl := Option.some.inj stepped
      rfl

/-! ## Every run -/

theorem sameText_of_map {db db' : Db}
    (same : db'.documents.map searchedText = db.documents.map searchedText) : SameText db db' := by
  intro k
  have looked : ∀ rows rows' : List DocRow, rows'.map searchedText = rows.map searchedText →
      (lookup (keyOf .documents) k rows').map searchedText =
        (lookup (keyOf .documents) k rows).map searchedText := by
    intro rows
    induction rows with
    | nil =>
        intro rows' same
        rw [List.map_eq_nil_iff.1 same]
    | cons d rows ih =>
        intro rows' same
        obtain ⟨d', rest, rfl, first, later⟩ := List.map_eq_cons_iff.1 same
        have own : keyOf .documents d' = keyOf .documents d :=
          congrArg (fun t : DocumentId × Option String × Option String × String => [Cell.text t.1]) first
        rw [lookup_cons, lookup_cons, own]
        split
        · exact congrArg some first
        · exact ih rest later
  exact looked _ _ same

theorem Aligned.vacuum (aligned : Aligned deps s) {rowid : Key → Nat}
    (still : ∀ k, (s.doc k).isSome → rowid k = s.rowid k) : Aligned deps { s with rowid } :=
  ⟨aligned.fts.repin still, aligned.tri.repin still⟩

theorem doc_listed (s : SearchStore) (k : Key) (d : DocRow) :
    s.doc k = some d ↔ d ∈ s.db.documents ∧ keyOf .documents d = k :=
  Table.find_eq_some_iff (t := s.db.tables .documents)

theorem repopulate_aligned (apart : Apart s) (ran : repopulateSearchIndex deps s = some s') :
    Aligned deps s' := by
  unfold repopulateSearchIndex at ran
  split at ran
  · obtain rfl := Option.some.inj ran
    exact ⟨.rebuild (fun _ _ => rfl) (doc_listed s) apart,
      .rebuild (fun _ _ => rfl) (doc_listed s) apart⟩
  · cases ran

theorem Apart.nodup (apart : Apart s) :
    (s.db.documents.map fun d => s.rowid (keyOf .documents d)).Nodup := by
  have keys : (s.db.documents.map (keyOf .documents)).Nodup := (s.db.tables .documents).nodup
  refine List.Nodup.map_on (fun d mem e mem' same => ?_) (.of_map _ keys)
  have own := apart _ _ (Option.isSome_iff_exists.2 ⟨d, mem_documents.1 mem⟩)
    (Option.isSome_iff_exists.2 ⟨e, mem_documents.1 mem'⟩) same
  exact id_injective mem mem' (by simpa [keyOf] using own)

theorem Aligned.indexed (aligned : Aligned deps s) : Indexed deps s := by
  have keys : (s.db.documents.map (keyOf .documents)).Nodup := (s.db.tables .documents).nodup
  have listed : ∀ d, d ∈ s.db.documents ↔ s.doc (keyOf .documents d) = some d := fun d =>
    (doc_listed s _ d).trans (and_iff_left rfl) |>.symm
  have owned : ∀ k d, s.doc k = some d → keyOf .documents d = k := fun k d found =>
    ((doc_listed s k d).1 found).2
  exact ⟨aligned.apart.nodup, aligned.fts.perm (fun _ _ => rfl) listed owned (.of_map _ keys),
    aligned.tri.perm (fun _ _ => rfl) listed owned (.of_map _ keys)⟩

structure Kept (deps : SearchDeps) (o : Observed) : Prop where
  apart : Apart o.store
  aligned : o.moved = false → Aligned deps o.store

/-- No documents and no rows. -/
theorem Aligned.empty (missing : ∀ k, s.doc k = none) (fts : s.fts = Table.empty)
    (tri : s.tri = Table.empty) : Aligned deps s := by
  have absent : ∀ k, ¬(s.doc k).isSome := fun k here => by
    rw [missing k] at here
    cases here
  constructor
  · refine ⟨fun i _ here => absurd here (absent i), fun k d found => ?_, fun n r held => ?_⟩
    · cases (missing k).symm.trans found
    · rw [fts] at held
      cases held
  · refine ⟨fun i _ here => absurd here (absent i), fun k d found => ?_, fun n r held => ?_⟩
    · cases (missing k).symm.trans found
    · rw [tri] at held
      cases held

theorem Kept.fresh : Kept deps .fresh := by
  have aligned : Aligned deps Observed.fresh.store := .empty (fun _ => rfl) rfl rfl
  exact ⟨aligned.apart, fun _ => aligned⟩

/-- A transaction that keeps both, or is rolled back. -/
theorem Kept.transaction {o : Observed} (kept : Kept deps o) {result : Option SearchStore}
    (apart : ∀ s', Apart o.store → result = some s' → Apart s')
    (aligned : ∀ s', Aligned deps o.store → result = some s' → Aligned deps s') :
    Kept deps { o with store := result.getD o.store } := by
  cases result with
  | none => exact kept
  | some s' => exact ⟨apart s' kept.apart rfl, fun still => aligned s' (kept.aligned still) rfl⟩

theorem Kept.step {o o' : Observed} {a : SearchAct} (kept : Kept deps o)
    (stepped : step deps o a = some o') : Kept deps o' := by
  cases a with
  | commit now publishedAt batch =>
      obtain rfl := Option.some.inj stepped
      exact kept.transaction (fun _ apart ran => apart.commitTx ran)
        fun _ aligned ran => aligned.commitTx ran
  | archive now pick =>
      obtain rfl := Option.some.inj stepped
      have same := sameText_archiveBatch now o.store.db pick
      exact ⟨kept.apart.sameText same, fun still => (kept.aligned still).sameText same⟩
  | applyDelta now entries target epoch =>
      obtain rfl := Option.some.inj stepped
      exact kept.transaction (fun _ apart ran => apart.applyDeltaTx ran)
        fun _ aligned ran => aligned.applyDeltaTx ran
  | other db =>
      simp only [SearchIndex.step] at stepped
      split at stepped
      · rename_i same
        obtain rfl := Option.some.inj stepped
        exact ⟨kept.apart.sameText (sameText_of_map same),
          fun still => (kept.aligned still).sameText (sameText_of_map same)⟩
      · cases stepped
  | reset db =>
      simp only [SearchIndex.step] at stepped
      split at stepped
      · rename_i emptied
        obtain rfl := Option.some.inj stepped
        have missing : ∀ k, (db.find .documents k : Option DocRow) = none := fun k =>
          Option.eq_none_iff_forall_ne_some.2 fun d found => by
            have mem : d ∈ db.documents := Table.find_mem (t := db.tables .documents) found
            rw [emptied] at mem
            cases mem
        have aligned : Aligned deps { o.store with db, fts := Table.empty, tri := Table.empty } :=
          .empty missing rfl rfl
        exact ⟨aligned.apart, fun _ => aligned⟩
      · cases stepped
  | vacuum rowid =>
      simp only [SearchIndex.step] at stepped
      split at stepped
      · rename_i apart
        obtain rfl := Option.some.inj stepped
        refine ⟨fun i j here here' same => ?_, fun still => ?_⟩
        · obtain ⟨d, found⟩ := Option.isSome_iff_exists.1 here
          obtain ⟨e, found'⟩ := Option.isSome_iff_exists.1 here'
          obtain ⟨mem, rfl⟩ := (doc_listed o.store i d).1 found
          obtain ⟨mem', rfl⟩ := (doc_listed o.store j e).1 found'
          rw [List.inj_on_of_nodup_map apart mem mem' same]
        · simp only [Bool.or_eq_false_iff, List.any_eq_false, decide_eq_true_eq, not_not] at still
          refine (kept.aligned still.1).vacuum fun k here => ?_
          obtain ⟨d, found⟩ := Option.isSome_iff_exists.1 here
          obtain ⟨mem, rfl⟩ := (doc_listed o.store k d).1 found
          exact still.2 d mem
      · cases stepped
  | repopulate =>
      simp only [SearchIndex.step] at stepped
      split at stepped
      · rename_i store ran
        obtain rfl := Option.some.inj stepped
        have aligned := repopulate_aligned kept.apart ran
        exact ⟨aligned.apart, fun _ => aligned⟩
      · obtain rfl := Option.some.inj stepped
        exact kept

/-- **A `VACUUM` keeps the search tables right exactly when it moves no document.** -/
theorem vacuum_indexed_iff (indexed : Indexed deps s) {rowid : Key → Nat} :
    Indexed deps { s with rowid } ↔
      ∀ d ∈ s.db.documents, rowid (keyOf .documents d) = s.rowid (keyOf .documents d) := by
  constructor
  · intro moved d mem
    have there : ftsOf deps (rowid (keyOf .documents d)) d ∈ s.fts.rows :=
      moved.fts.mem_iff.2 (List.mem_map_of_mem mem)
    obtain ⟨e, mem', same⟩ := List.mem_map.1 (indexed.fts.mem_iff.1 there)
    obtain rfl := id_injective mem' mem (congrArg FtsRow.docId same)
    exact (congrArg FtsRow.rowid same).symm
  · intro still
    have places : s.db.documents.map (fun d => rowid (keyOf .documents d)) =
        s.db.documents.map fun d => s.rowid (keyOf .documents d) := List.map_congr_left still
    refine ⟨?_, ?_, ?_⟩
    · show (s.db.documents.map fun d => rowid (keyOf .documents d)).Nodup
      rw [places]
      exact indexed.rowids
    · exact indexed.fts.trans (.of_eq (List.map_congr_left fun d mem =>
        congrArg (ftsOf deps · d) (still d mem).symm))
    · exact indexed.tri.trans (.of_eq (List.map_congr_left fun d mem =>
        congrArg (triOf · d) (still d mem).symm))

/-! ## A commit before the rebuild -/

/-- Stems that are the words, over columns that always parse. -/
def plainSearch : SearchDeps :=
  { Deps.spelled with stemView := fun text _ => text, readable := fun _ => true }

def inbox : AccountRow :=
  ⟨"a", "imap", "me", "\x7b\x7d", "live", none, none, none, none, none, 0, none⟩

def mail (externalId title : String) : DocumentInput :=
  ⟨externalId, "mail", some title, none, none, [], none, none, none⟩

def pulled (documents : List DocumentInput) (deletions : List ExternalRef) : SearchAct :=
  .commit 1 none (.account ⟨"a", documents, some deletions, none, none, none, none, none, none⟩)

def firstMail : CommitBatch :=
  .account ⟨"a", [mail "1" "first"], none, none, none, none, none, none, none⟩

def atInbox : SearchStore := ⟨Db.fresh.insertRow .accounts inbox, fun _ => 0, .empty, .empty⟩

theorem commitTx_refines_inbox : ∃ s', commitTx plainSearch 1 none firstMail atInbox = some s' ∧
    s'.fts.rows.length = 1 ∧
    (Store.commitTx plainSearch.toDeps 1 none firstMail atInbox.db).map Prod.fst = .ok s'.db := by
  have done : (commitTx plainSearch 1 none firstMail atInbox).any (fun s' =>
      s'.fts.rows.length = 1) = true := by decide +kernel
  obtain ⟨s', stepped, one⟩ := (Option.any_eq_true _ _).1 done
  exact ⟨s', stepped, of_decide_eq_true one, commitTx_refines stepped⟩

/-- Two documents moved to one place. -/
theorem vacuum_indexed_iff_moved : ∃ o : Observed, runSteps (step plainSearch) .fresh
    [.other (Db.fresh.insertRow .accounts inbox), pulled [mail "1" "first", mail "2" "old"] []] =
      some o ∧ ¬Indexed plainSearch { o.store with rowid := fun _ => 1 } := by
  have run : (runSteps (step plainSearch) .fresh [.other (Db.fresh.insertRow .accounts inbox),
      pulled [mail "1" "first", mail "2" "old"] []]).any (fun o => o.moved = false ∧
        (o.store.db.documents.map fun d => o.store.rowid (keyOf .documents d)) = [1, 2]) = true := by
    decide +kernel
  obtain ⟨o, ran, held⟩ := (Option.any_eq_true _ _).1 run
  obtain ⟨still, places⟩ := of_decide_eq_true held
  have kept : Kept plainSearch o :=
    run_invariant (fun _ _ _ kept stepped => kept.step stepped) Kept.fresh ran
  refine ⟨o, ran, fun indexed => ?_⟩
  have same := (vacuum_indexed_iff (kept.aligned still).indexed).1 indexed
  rw [← List.map_congr_left same] at places
  cases h : o.store.db.documents with
  | nil => simp [h] at places
  | cons d ds => cases ds <;> simp [h] at places

/-- The first of two documents is purged, the `VACUUM` moves the second to its place, and
a commit that was queued behind it rewrites the second. -/
def compaction : List SearchAct :=
  [.other (Db.fresh.insertRow .accounts inbox), pulled [mail "1" "first", mail "2" "old"] [],
    pulled [] [⟨"1", "mail"⟩], .commit 2 none (.purgeArchived 2), .vacuum fun _ => 1,
    pulled [mail "2" "new"] []]

end Kiagent.Store.SearchIndex
