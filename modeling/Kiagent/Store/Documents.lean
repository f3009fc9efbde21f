/-
# Store.Documents -- upsert, relink, archive

The document writes of a commit, in the order the transaction runs them:

* `upsertDocument` skips a live row whose content hash is unchanged, otherwise
  writes every column and revives the row;
* `relinkPair` re-resolves one parent link and writes only when it moves;
* `archiveByRef` archives a row and then its live children, one level.

Each takes the next number of the change log for what it writes, and returns it;
`none` means nothing was written.  `foldLast` runs one of them over a list and
keeps the last number.  All timestamps of a transaction are its `now`.
-/
import Kiagent.Store.Db

namespace Kiagent.Store

open Kiagent.Theory

set_option autoImplicit false

/-! ## Rows by natural key -/

/-- `SELECT .. WHERE account_id = ? AND external_id = ? AND type = ?`. -/
def findDocRow (db : Db) (account : AccountId) (r : ExternalRef) : Option DocRow :=
  lookup DocRow.natural (account, r) db.documents

/-- The id of the referenced document, when it is there. -/
def parentIdOf (db : Db) (account : AccountId) (parent : Option ExternalRef) :
    Option DocumentId :=
  parent.bind fun r => (findDocRow db account r).map DocRow.id

/-! ## Texts -/

/-- `String.prototype.trim`. -/
def trimText (s : String) : String :=
  String.ofList
    ((s.toList.dropWhile Char.isWhitespace).reverse.dropWhile Char.isWhitespace).reverse

/-- `JSON.stringify` of a list of language codes. -/
def jsonCodes (codes : List String) : String :=
  "[" ++ String.intercalate "," (codes.map fun c => "\"" ++ c ++ "\"") ++ "]"

/-- The languages detected in a title and a body, as the row stores them. -/
def languagesOf (deps : Deps) (title markdown : Option String) : String :=
  let text := trimText (title.getD "" ++ "\n" ++ markdown.getD "")
  jsonCodes (if text.isEmpty then [] else deps.detectLanguages text)

/-! ## One document -/

/-- `UPDATE documents SET ..` of an upsert: every column, and the row is live. -/
def writeRow (deps : Deps) (now : Time) (input : DocumentInput) (parentId : Option DocumentId)
    (seq : Nat) (d : DocRow) : DocRow :=
  { d with
    title := input.title, markdown := input.markdown, url := input.url
    metadata := input.metadata, createdAt := input.createdAt, parentId
    contentHash := contentHash deps input, seq, archivedAt := none
    languages := languagesOf deps input.title input.markdown, updatedAt := now
    scopeRootId := input.scopeRootId.or d.scopeRootId }

/-- The row an upsert inserts. -/
def newRow (deps : Deps) (now : Time) (account : AccountId) (input : DocumentInput)
    (parentId : Option DocumentId) (seq : Nat) : DocRow where
  id := documentId deps account input.ref
  accountId := account
  externalId := input.externalId
  type := input.type
  title := input.title
  markdown := input.markdown
  url := input.url
  metadata := input.metadata
  createdAt := input.createdAt
  parentId := parentId
  contentHash := contentHash deps input
  seq := seq
  ingestSeq := some seq
  archivedAt := none
  languages := languagesOf deps input.title input.markdown
  ingestedAt := now
  updatedAt := now
  scopeRootId := input.scopeRootId

/-- Append a change row for a document and update the document. -/
def touchDocument (db : Db) (id : DocumentId) (now : Time) (f : DocRow → DocRow) : Db :=
  (db.appendChange .document id now).updateRow .documents [.text id] f

def upsertDocument (deps : Deps) (now : Time) (account : AccountId) (db : Db)
    (input : DocumentInput) : Option (Db × Nat) :=
  match findDocRow db account input.ref with
  | some existing =>
      -- unchanged: no feed churn
      if existing.contentHash = contentHash deps input ∧ existing.live then none
      else
        let parentId := parentIdOf db account input.parent
        some (touchDocument db existing.id now (writeRow deps now input parentId db.nextSeq),
          db.nextSeq)
  | none =>
      let parentId := parentIdOf db account input.parent
      let row := newRow deps now account input parentId db.nextSeq
      some ((db.appendChange .document row.id now).insertRow .documents row, db.nextSeq)

/-! ## Parent links -/

def setParent (parentId : Option DocumentId) (seq : Nat) (now : Time) (d : DocRow) : DocRow :=
  { d with parentId, seq, updatedAt := now }

def relinkPair (now : Time) (account : AccountId) (db : Db) (pair : LinkPair) :
    Option (Db × Nat) :=
  match findDocRow db account pair.child with
  | none => none
  | some child =>
      let parentId := parentIdOf db account (some pair.parent)
      if child.parentId = parentId then none
      else some (touchDocument db child.id now (setParent parentId db.nextSeq now), db.nextSeq)

/-- The pairs of a batch's own parent references. -/
def parentPairs (documents : List DocumentInput) : List LinkPair :=
  documents.filterMap fun d => d.parent.map fun parent => ⟨d.ref, parent⟩

/-! ## Archiving -/

def setArchived (seq : Nat) (now : Time) (d : DocRow) : DocRow :=
  { d with archivedAt := some now, seq, updatedAt := now }

def archiveDocument (now : Time) (db : Db) (id : DocumentId) : Db :=
  touchDocument db id now (setArchived db.nextSeq now)

/-- The live children of a document, whatever their account. -/
def liveChildren (db : Db) (parent : DocumentId) : List DocumentId :=
  (db.documents.filter fun d => decide (d.parentId = some parent) && d.live).map DocRow.id

/-- Children live and die with their parent: one level. -/
def archiveChildren (now : Time) (db : Db) (parent : DocumentId) : Db :=
  (liveChildren db parent).foldl (archiveDocument now) db

/-- The number an archive returns: the last child's, else the row's own. -/
def archiveByRef (now : Time) (account : AccountId) (db : Db) (r : ExternalRef) :
    Option (Db × Nat) :=
  match findDocRow db account r with
  | none => none
  | some row =>
      if row.live then
        let archived := archiveChildren now (archiveDocument now db row.id) row.id
        some (archived, archived.changes.counter)
      else none

/-! ## Running over a list -/

/-- Run a write over a list, keeping the last number it returned. -/
def foldLast {α : Type} (write : Db → α → Option (Db × Nat)) (s : Db × Nat) (as : List α) :
    Db × Nat :=
  as.foldl (fun s a => (write s.1 a).getD s) s

/-- One write, on the database alone. -/
def written {α : Type} (write : Db → α → Option (Db × Nat)) (db : Db) (a : α) : Db :=
  ((write db a).map Prod.fst).getD db

theorem foldLast_fst {α : Type} (write : Db → α → Option (Db × Nat)) :
    (as : List α) → (s : Db × Nat) → (foldLast write s as).1 = as.foldl (written write) s.1
  | [], s => rfl
  | a :: as, s => by
      have step : ((write s.1 a).getD s).1 = written write s.1 a := by
        unfold written
        cases write s.1 a <;> rfl
      rw [List.foldl_cons, ← step]
      exact foldLast_fst write as _

/-! ## The rows after a statement -/

theorem mem_documents {db : Db} {d : DocRow} :
    d ∈ db.documents ↔ db.find .documents (keyOf .documents d) = some d :=
  ⟨fun mem => Table.find_of_mem mem, fun found => Table.find_mem found⟩

theorem documents_of_tables {db db' : Db} (same : db'.tables = db.tables) :
    db'.documents = db.documents := by
  rw [Db.documents, Db.rows, same]
  rfl

/-- An update that keeps the id rewrites the row with that id, in place. -/
theorem documents_updateRow (db : Db) (id : DocumentId) (f : DocRow → DocRow)
    (sameId : ∀ d, (f d).id = d.id) :
    (db.updateRow .documents [.text id] f).documents =
      db.documents.map fun d => if d.id = id then f d else d := by
  have rows := Db.rows_updateRow db .documents [.text id] f fun d => by simp [keyOf, sameId]
  refine rows.trans (List.map_congr_left fun d _ => ?_)
  simp [keyOf]

theorem documents_insertRow {db : Db} {d : DocRow}
    (free : db.find .documents (keyOf .documents d) = none) :
    (db.insertRow .documents d).documents = db.documents ++ [d] :=
  Db.rows_insertRow free

theorem documents_touch (db : Db) (id : DocumentId) (now : Time) (f : DocRow → DocRow)
    (sameId : ∀ d, (f d).id = d.id) :
    (touchDocument db id now f).documents =
      db.documents.map fun d => if d.id = id then f d else d :=
  documents_updateRow _ id f sameId

/-! ## The other tables -/

/-- A list of writes that each leave a table alone leaves it alone. -/
theorem foldl_tables {α : Type} {t : Tbl} (step : Db → α → Db)
    (each : ∀ db a, (step db a).tables t = db.tables t) :
    (as : List α) → (db : Db) → (as.foldl step db).tables t = db.tables t
  | [], _ => rfl
  | a :: as, db => (foldl_tables step each as (step db a)).trans (each db a)

section OtherTables

variable {t : Tbl} (other : t ≠ .documents)

include other

theorem touchDocument_tables (db : Db) (id : DocumentId) (now : Time) (f : DocRow → DocRow) :
    (touchDocument db id now f).tables t = db.tables t :=
  Db.updateRow_tables_ne _ _ _ _ other

theorem upsertDocument_tables (deps : Deps) (now : Time) (account : AccountId) (db : Db)
    (input : DocumentInput) :
    (written (upsertDocument deps now account) db input).tables t = db.tables t := by
  unfold written upsertDocument
  split
  · split
    · rfl
    · exact touchDocument_tables other _ _ _ _
  · exact Db.insertRow_tables_ne _ _ _ other

theorem relinkPair_tables (now : Time) (account : AccountId) (db : Db) (pair : LinkPair) :
    (written (relinkPair now account) db pair).tables t = db.tables t := by
  unfold written relinkPair
  split
  · rfl
  · dsimp only
    split
    · rfl
    · exact touchDocument_tables other _ _ _ _

theorem archiveByRef_tables (now : Time) (account : AccountId) (db : Db) (r : ExternalRef) :
    (written (archiveByRef now account) db r).tables t = db.tables t := by
  unfold written archiveByRef
  split
  · rfl
  · split
    · exact (foldl_tables _ (fun db id => touchDocument_tables other db id now _) _ _).trans
        (touchDocument_tables other _ _ _ _)
    · rfl

end OtherTables

/-! ## Well-formed documents -/

/-- `UNIQUE(account_id, external_id, type)`, and an id that is the digest of a
natural key is only carried by the row of that key. -/
structure WellFormed (deps : Deps) (db : Db) : Prop where
  natural : (db.documents.map DocRow.natural).Nodup
  hashed : ∀ d ∈ db.documents, ∀ account r, d.id = documentId deps account r →
    d.natural = (account, r)

theorem wellFormed_of_empty (deps : Deps) {db : Db} (empty : db.documents = []) :
    WellFormed deps db where
  natural := by rw [empty]; exact List.nodup_nil
  hashed d mem := by rw [empty] at mem; exact nomatch mem

theorem WellFormed.of_documents {deps : Deps} {db db' : Db} (wf : WellFormed deps db)
    (same : db'.documents = db.documents) : WellFormed deps db' where
  natural := by rw [same]; exact wf.natural
  hashed := by rw [same]; exact wf.hashed

theorem id_injective {db : Db} {d d' : DocRow} (mem : d ∈ db.documents)
    (mem' : d' ∈ db.documents) (same : d.id = d'.id) : d = d' := by
  have found := mem_documents.1 mem
  have found' := mem_documents.1 mem'
  rw [keyOf, same] at found
  exact Option.some.inj (found.symm.trans found')

theorem findDocRow_mem {db : Db} {account : AccountId} {r : ExternalRef} {d : DocRow}
    (found : findDocRow db account r = some d) :
    d ∈ db.documents ∧ d.natural = (account, r) :=
  ⟨lookup_mem found, lookup_key found⟩

/-- A new row's id is free while its natural key is. -/
theorem newRow_free {deps : Deps} {db : Db} (wf : WellFormed deps db) {account : AccountId}
    {r : ExternalRef} (missing : findDocRow db account r = none) :
    db.find .documents [.text (documentId deps account r)] = none := by
  rw [Option.eq_none_iff_forall_ne_some]
  intro d found
  have mem : d ∈ db.documents := Table.find_mem found
  have key : keyOf .documents d = [.text (documentId deps account r)] := Table.find_key found
  have natural := wf.hashed d mem account r (by simpa [keyOf] using key)
  exact lookup_eq_none_iff.1 missing d mem natural

/-- A pass that keeps ids and natural keys keeps well-formedness. -/
theorem WellFormed.map {deps : Deps} {db db' : Db} (wf : WellFormed deps db) (f : DocRow → DocRow)
    (rows : db'.documents = db.documents.map f) (sameId : ∀ d, (f d).id = d.id)
    (sameKey : ∀ d, (f d).natural = d.natural) : WellFormed deps db' where
  natural := by
    rw [rows, List.map_map]
    simpa [Function.comp_def, sameKey] using wf.natural
  hashed d mem account r hashed := by
    rw [rows] at mem
    obtain ⟨x, there, rfl⟩ := List.mem_map.1 mem
    rw [sameKey]
    exact wf.hashed x there account r (by rw [← sameId]; exact hashed)

theorem WellFormed.touch {deps : Deps} {db : Db} (wf : WellFormed deps db) (id : DocumentId)
    (now : Time) (f : DocRow → DocRow) (sameId : ∀ d, (f d).id = d.id)
    (sameKey : ∀ d, (f d).natural = d.natural) : WellFormed deps (touchDocument db id now f) := by
  refine wf.map _ (documents_touch db id now f sameId) (fun d => ?_) fun d => ?_
  · split
    · exact sameId d
    · rfl
  · split
    · exact sameKey d
    · rfl

end Kiagent.Store
