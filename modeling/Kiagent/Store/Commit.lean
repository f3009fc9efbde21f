/-
# Store.Commit -- the write transaction

`commitTx` is the store's only write primitive; each variant of a batch is one
branch.  The account branch upserts the documents, resolves the batch's own
parent references a second time, then the `relink` pairs, archives the
deletions, and writes the account row with the cursor.

`commitAccount_committed` says what a committed account batch leaves: the corpus
commit of its documents, and its cursor.
-/
import Kiagent.Store.Pieces

namespace Kiagent.Store

open Kiagent.Theory

set_option autoImplicit false

/-! ## Running a commit -/

/-- The clock of a commit, and what the connection remembers of the last
published `account` change. -/
structure Tick where
  now : Time
  publishedAt : Option Time

inductive CommitError where
  | unknownAccount (id : AccountId)
  /-- `UNIQUE` on the primary key of `accounts`. -/
  | accountTaken (id : AccountId)
  deriving DecidableEq, Repr

/-! ## Parts of the account row -/

/-- A reconcile pass's own errors carry this prefix. -/
def reconcileErrorPrefix : String := "reconcile: "

/-- `last_error LIKE 'reconcile: %'`. -/
def isReconcileError (error : Option String) : Bool :=
  error.any fun e => reconcileErrorPrefix.toList.isPrefixOf e.toList

/-- The value `last_error` takes: absent keeps it, a text sets it, `null` clears
it, and with a scope clears only an error of that origin. -/
def lastErrorAssignment (error : Option (Option String)) (scope : Option ErrorScope)
    (old : Option String) : Option String :=
  match error, scope with
  | none, _ => old
  | some (some e), _ => some e
  | some none, none => none
  | some none, some .reconcile => if isReconcileError old then none else old
  | some none, some .pull => if isReconcileError old then old else none

/-- A sync-progress-only `account` change is published at most once per window. -/
def accountSyncTickMs : Time := 60000

def tickDue (now : Time) (publishedAt : Option Time) : Bool :=
  match publishedAt with
  | none => true
  | some at_ => at_ + accountSyncTickMs ≤ now

def jsonProgress (p : AccountProgress) : String :=
  let field := fun (name : String) (n : Nat) => "\"" ++ name ++ "\":" ++ toString n
  "\x7b" ++ String.intercalate ","
    ([field "done" p.done] ++ (p.totalEstimate.map (field "totalEstimate")).toList ++
      (p.base.map (field "base")).toList) ++ "\x7d"

/-- The cursor a batch stores: `JSON.stringify(batch.cursor ?? null)`. -/
def storedBatchCursor (b : AccountBatch) : String := b.cursor.getD "null"

def setAccount (b : AccountBatch) (now : Time) (a : AccountRow) : AccountRow :=
  { a with
    cursor := some (storedBatchCursor b), status := b.status.getD a.status
    progress := (b.progress.map jsonProgress).or a.progress
    lastError := lastErrorAssignment b.error b.errorScope a.lastError, lastSyncAt := some now }

/-- A reader of the feed can see something new in the account row. -/
def visibleChange (b : AccountBatch) (a : AccountRow) : Bool :=
  b.status.any (fun status => status ≠ a.status) ||
    decide (lastErrorAssignment b.error b.errorScope a.lastError ≠ a.lastError)

/-- `appendChange`, with its number. -/
def appendChangeSeq (db : Db) (kind : ChangeKind) (refId : String) (now : Time) : Db × Nat :=
  (db.appendChange kind refId now, db.nextSeq)

/-! ## The account branch -/

/-- The documents part of an account commit: upserts, the batch's own parents,
the relink pairs, the deletions. -/
def commitDocuments (deps : Deps) (now : Time) (account : AccountId) (b : AccountBatch)
    (s : Db × Nat) : Db × Nat :=
  let upserted := foldLast (upsertDocument deps now account) s b.documents
  let reconciled := foldLast (relinkPair now account) upserted (parentPairs b.documents)
  let relinked := foldLast (relinkPair now account) reconciled b.links
  foldLast (archiveByRef now account) relinked b.deleted

/-- `publishedAt` is when this account's last `account` change was committed, as
far as the connection remembers. -/
def commitAccount (deps : Deps) (now : Time) (publishedAt : Option Time) (b : AccountBatch)
    (db : Db) : Except CommitError (Db × Nat) :=
  match db.find .accounts [.text b.account] with
  | none => .error (.unknownAccount b.account)
  | some acc =>
      let s := commitDocuments deps now acc.id b (db, db.changes.head)
      let s := if visibleChange b acc || tickDue now publishedAt then
        appendChangeSeq s.1 .account acc.id now else s
      .ok (s.1.updateRow .accounts [.text acc.id] (setAccount b now), s.2)

/-! ## The other branches -/

/-- `getOrCreateAccountTx`: the row of a natural key, created when it is missing. -/
def getOrCreateAccount (deps : Deps) (now : Time) (source identifier : String) (db : Db) :
    Db × AccountId :=
  match (db.rows .accounts).find? fun (a : AccountRow) =>
      a.source = source ∧ a.identifier = identifier with
  | some a => (db, AccountRow.id a)
  | none =>
      let id := hashedId deps "account" [source, identifier]
      let row : AccountRow :=
        ⟨id, source, identifier, "\x7b\x7d", "live", none, none, none, none, none, now, none⟩
      ((db.insertRow .accounts row).appendChange .account id now, id)

/-- The consumer that tracks the seeding of a worker. -/
def seedConsumerName (consumer : String) : String := "seed:" ++ consumer

def setConsumer (db : Db) (name : String) (cursor : Nat) : Db :=
  { db with consumers := db.consumers.put ⟨name, cursor⟩ }

/-- UPDATE only: a finished seed row is never revived. -/
def setSeedCursor (db : Db) (consumer : String) (cursor : Nat) : Db :=
  let updated := db.consumers.modify (seedConsumerName consumer)
    (fun r => { r with cursor }) fun _ => rfl
  { db with consumers := updated }

def recordOutcome (consumer : String) (db : Db) (e : LedgerEntry) : Db :=
  { db with ledger := db.ledger.put ⟨consumer, e.seq, e.attempts, e.outcome⟩ }

def setEnriched (deps : Deps) (now : Time) (e : EnrichInput) (seq : Nat) (d : DocRow) : DocRow :=
  let metadata := (e.metadata.map (JsonObject.merge d.metadata)).getD d.metadata
  match e.markdown with
  -- Metadata-only write-back: the body and its languages stay as they are.
  | none => { d with metadata, seq, updatedAt := now }
  | some markdown =>
      { d with
        markdown := some markdown, metadata, seq
        languages := languagesOf deps d.title (some markdown), updatedAt := now }

/-- Enrich is best-effort: a document purged since the worker read it is skipped. -/
def enrichDocument (deps : Deps) (now : Time) (db : Db) (e : EnrichInput) : Option (Db × Nat) :=
  match db.find .documents [.text e.documentId] with
  | none => none
  | some (row : DocRow) =>
      some (touchDocument db row.id now (setEnriched deps now e db.nextSeq), db.nextSeq)

/-- A worker's outputs, its cursor and its ledger, in one transaction. -/
def commitConsumer (deps : Deps) (now : Time) (b : ConsumerBatch) (db : Db) : Db × Nat :=
  let last := db.changes.head
  let db := (b.cursor.map (setConsumer db b.consumer)).getD db
  let db := (b.seedCursor.map (setSeedCursor db b.consumer)).getD db
  let db := b.ledger.foldl (recordOutcome b.consumer) db
  let s :=
    if b.documents = [] then (db, last)
    else
      let synthetic := getOrCreateAccount deps now "worker" b.consumer db
      let upserted := foldLast (upsertDocument deps now synthetic.2) (synthetic.1, last) b.documents
      foldLast (relinkPair now synthetic.2) upserted (parentPairs b.documents)
  foldLast (enrichDocument deps now) s b.enrich

/-- ONE cascade: the documents, the login and the row of an account. -/
def removeAccount (now : Time) (id : AccountId) (db : Db) : Db × Nat :=
  match db.find .accounts [.text id] with
  | none => (db, db.changes.head)
  | some _ =>
      let db := db.deleteChildren .documents id
      let db := { db with vault := db.vault.erase id }
      appendChangeSeq (db.deleteRow .accounts [.text id]) .accountRemoved id now

/-- Delete one document, with its tombstone in the feed. -/
def purgeDocument (now : Time) (db : Db) (id : DocumentId) : Db :=
  (db.deleteRow .documents [.text id]).appendChange .purge id now

/-- Archived-long-enough tombstones become gone. -/
def purgeArchived (now before : Time) (db : Db) : Db × Nat :=
  let ids := (db.documents.filter fun d => d.archivedAt.any (· < before)).map DocRow.id
  let purged := ids.foldl (purgeDocument now) db
  (purged, if ids = [] then db.changes.head else purged.changes.counter)

def commitTx (deps : Deps) (now : Time) (publishedAt : Option Time) (batch : CommitBatch)
    (db : Db) : Except CommitError (Db × Nat) :=
  match batch with
  | .account b => commitAccount deps now publishedAt b db
  | .consumer b => .ok (commitConsumer deps now b db)
  | .removeAccount id => .ok (removeAccount now id db)
  | .purgeArchived before => .ok (purgeArchived now before db)

/-! ## What an account commit does -/

/-- The cursor stored for an account; an account that never had one reads `null`. -/
def cursorOf (db : Db) (account : AccountId) : Option String :=
  (db.find .accounts [.text account]).map fun (a : AccountRow) => a.cursor.getD "null"

/-- The documents part of an account commit, on the corpus. -/
def Corpus.commit (deps : Deps) (account : AccountId) (b : AccountBatch) (V : Corpus) : Corpus :=
  let relinked := b.links.foldl (Corpus.relink account) (V.piece deps account b.documents)
  b.deleted.foldl (Corpus.archive account) relinked

section Effect

variable {deps : Deps} {db : Db} (now : Time) (account : AccountId)

/-- **The documents part of a commit refines the corpus commit.** -/
theorem commitDocuments_corpus (wf : WellFormed deps db) (b : AccountBatch) (last : Nat) :
    corpus (commitDocuments deps now account b (db, last)).1 =
      Corpus.commit deps account b (corpus db) ∧
    WellFormed deps (commitDocuments deps now account b (db, last)).1 := by
  simp only [commitDocuments, foldLast_fst, Corpus.commit, Corpus.piece]
  obtain ⟨upserted, wf₁⟩ := corpus_foldl _ (Corpus.upsert deps account)
    (fun db d wf => corpus_upsert wf now account d) b.documents db wf
  obtain ⟨reconciled, wf₂⟩ := corpus_foldl _ (Corpus.relink account)
    (fun db p wf => corpus_relink wf now account p) (parentPairs b.documents) _ wf₁
  obtain ⟨relinked, wf₃⟩ := corpus_foldl _ (Corpus.relink account)
    (fun db p wf => corpus_relink wf now account p) b.links _ wf₂
  obtain ⟨archived, wf₄⟩ := corpus_foldl _ (Corpus.archive account)
    (fun db r wf => corpus_archive wf now account r) b.deleted _ wf₃
  rw [archived, relinked, reconciled, upserted]
  exact ⟨rfl, wf₄⟩

/-- The documents part writes no other table. -/
theorem commitDocuments_tables (b : AccountBatch) (s : Db × Nat) {t : Tbl}
    (other : t ≠ .documents) :
    (commitDocuments deps now account b s).1.tables t = s.1.tables t := by
  simp only [commitDocuments, foldLast_fst]
  rw [foldl_tables _ (archiveByRef_tables other now account),
    foldl_tables _ (relinkPair_tables other now account),
    foldl_tables _ (relinkPair_tables other now account),
    foldl_tables _ (upsertDocument_tables other deps now account)]

/-- What a committed account batch leaves: the corpus commit, well-formed, and the
account's row rewritten in its place, with the batch's cursor. -/
structure Committed (deps : Deps) (now : Time) (b : AccountBatch) (db db' : Db) : Prop where
  corpus : corpus db' = Corpus.commit deps b.account b (corpus db)
  wf : WellFormed deps db'
  accounts : db'.rows .accounts = (db.rows .accounts).map fun (a : AccountRow) =>
    if a.id = b.account then setAccount b now a else a
  cursor : cursorOf db' b.account = some (storedBatchCursor b)

/-- **A commit of an account that is there succeeds, and commits its batch.** -/
theorem commitAccount_committed (wf : WellFormed deps db) (publishedAt : Option Time)
    {b : AccountBatch} {acc : AccountRow} (found : db.find .accounts [.text b.account] = some acc) :
    ∃ db' last, commitAccount deps now publishedAt b db = .ok (db', last) ∧
      Committed deps now b db db' := by
  have id : acc.id = b.account := by
    have key : keyOf .accounts acc = [.text b.account] := Table.find_key found
    simpa [keyOf] using key
  obtain ⟨docs, wf'⟩ := commitDocuments_corpus now acc.id wf b db.changes.head
  have accounts : (commitDocuments deps now acc.id b (db, db.changes.head)).1.tables .accounts =
      db.tables .accounts := commitDocuments_tables now acc.id b (db, db.changes.head) (by decide)
  generalize hs : commitDocuments deps now acc.id b (db, db.changes.head) = s at docs wf' accounts
  simp only [commitAccount, found, hs]
  refine ⟨_, _, rfl, ?_⟩
  -- The last change row touches no table, so the row is still the one found.
  generalize hs' : (if (visibleChange b acc || tickDue now publishedAt) = true then
    appendChangeSeq s.1 .account acc.id now else s) = s'
  have tables : s'.1.tables = s.1.tables := by
    rw [← hs']
    split <;> rfl
  have there : s'.1.find .accounts [.text acc.id] = some acc := by
    rw [Db.find, tables, accounts, id]
    exact found
  have rows : (s'.1.updateRow .accounts [.text acc.id] (setAccount b now)).documents =
      s.1.documents := by
    rw [Db.documents, Db.rows, Db.updateRow_tables_ne _ _ _ _ (by decide), tables]
    rfl
  have moved := Db.updateRow_find_new (setAccount b now) there
  constructor
  · rw [← id, ← docs]
    funext k
    rw [Store.corpus, rows, Store.corpus]
  · exact wf'.of_documents rows
  · have placed := Db.rows_updateRow s'.1 .accounts [.text acc.id] (setAccount b now) fun _ => rfl
    rw [placed, Db.rows, tables, accounts, ← id]
    refine List.map_congr_left fun a _ => ?_
    simp [keyOf]
  · rw [cursorOf, ← id]
    have self : keyOf .accounts (setAccount b now acc) = [.text acc.id] := rfl
    rw [self] at moved
    rw [moved]
    rfl

end Effect

/-! ## The numbers a commit gives -/

/-- A document keeps its row or takes a number above the old counter; nothing the
sync service keeps moves. -/
structure Grown (db db' : Db) : Prop where
  documents : ∀ k, db'.find .documents k = db.find .documents k ∨
    ∃ d, db'.find .documents k = some d ∧ db.changes.counter < d.seq ∧
      d.seq ≤ db'.changes.counter
  counter : db.changes.counter ≤ db'.changes.counter
  state : db'.state = db.state
  outbound : db'.outbound = db.outbound
  epochs : db'.tables .syncEpochs = db.tables .syncEpochs

namespace Grown

theorem refl (db : Db) : Grown db db := ⟨fun _ => .inl rfl, Nat.le_refl _, rfl, rfl, rfl⟩

theorem trans {a b c : Db} (first : Grown a b) (second : Grown b c) : Grown a c where
  documents k := by
    rcases second.documents k with same | ⟨d, found, fresh, low⟩
    · rcases first.documents k with same' | ⟨d, found, fresh, low⟩
      · exact .inl (same.trans same')
      · exact .inr ⟨d, same.trans found, fresh, Nat.le_trans low second.counter⟩
    · exact .inr ⟨d, found, Nat.lt_of_le_of_lt first.counter fresh, low⟩
  counter := Nat.le_trans first.counter second.counter
  state := second.state.trans first.state
  outbound := second.outbound.trans first.outbound
  epochs := second.epochs.trans first.epochs

theorem foldl {α : Type} (step : Db → α → Db) (each : ∀ db a, Grown db (step db a)) :
    (as : List α) → (db : Db) → Grown db (as.foldl step db)
  | [], db => refl db
  | a :: as, db => (each db a).trans (foldl step each as (step db a))

theorem of_change (db : Db) (kind : ChangeKind) (refId : String) (now : Time) :
    Grown db (db.appendChange kind refId now) :=
  ⟨fun _ => .inl rfl, Nat.le_succ _, rfl, rfl, rfl⟩

/-- A statement on another table than the documents and the ledger of epochs. -/
theorem of_update (db : Db) {t : Tbl} (k : Key) (f : RowOf t → RowOf t)
    (document : .documents ≠ t) (epoch : .syncEpochs ≠ t) : Grown db (db.updateRow t k f) := by
  have frame := Db.updateRow_frame db t k f
  refine ⟨fun k' => .inl ?_, by rw [frame.changes], frame.state, frame.outbound,
    Db.updateRow_tables_ne db t k f epoch⟩
  rw [Db.find, Db.updateRow_tables_ne db t k f document, Db.find]

theorem of_touch (db : Db) (id : DocumentId) (now : Time) (f : DocRow → DocRow)
    (sameId : ∀ d, (f d).id = d.id) (seq : ∀ d, (f d).seq = db.nextSeq) :
    Grown db (touchDocument db id now f) := by
  have frame := Db.updateRow_frame (db.appendChange .document id now) .documents [.text id] f
  refine ⟨fun k => ?_, ?_, frame.state, frame.outbound, touchDocument_tables (by simp) _ _ _ _⟩
  · cases found : db.find .documents [.text id] with
    | none =>
        have missing : (db.appendChange .document id now).find .documents [.text id] = none := found
        rw [touchDocument, Db.updateRow_none f missing]
        exact .inl rfl
    | some old =>
        have found' : (db.appendChange .document id now).find .documents [.text id] = some old :=
          found
        have same : keyOf .documents (f old) = [.text id] := by
          rw [← Table.find_key found]
          simp [keyOf, sameId]
        by_cases here : k = [.text id]
        · subst here
          have new := Db.updateRow_find_new f found'
          rw [same] at new
          refine .inr ⟨f old, new, ?_, ?_⟩
          · rw [seq]
            exact Nat.lt_succ_self _
          · rw [seq, touchDocument, frame.changes]
            exact Nat.le_refl _
        · have ne : ((Tbl.documents, k) : Tbl × Key) ≠ (.documents, [.text id]) := by
            simpa using here
          have off := Db.updateRow_find_ne f found' ne (same ▸ ne)
          exact .inl off
  · rw [touchDocument, frame.changes]
    exact Nat.le_succ _

theorem of_insert (db : Db) (d : DocRow) (now : Time) (seq : d.seq = db.nextSeq) :
    Grown db ((db.appendChange .document d.id now).insertRow .documents d) := by
  have frame := Db.insertRow_frame (db.appendChange .document d.id now) .documents d
  refine ⟨fun k => ?_, ?_, frame.state, frame.outbound, Db.insertRow_tables_ne _ _ _ (by simp)⟩
  · by_cases here : k = keyOf .documents d
    · subst here
      refine .inr ⟨d, Db.insertRow_find_self _ _ _, ?_, ?_⟩
      · rw [seq]
        exact Nat.lt_succ_self _
      · rw [seq, frame.changes]
        exact Nat.le_refl _
    · exact .inl (Db.insertRow_find_ne _ _ _ (by simpa using here))
  · rw [frame.changes]
    exact Nat.le_succ _

theorem of_upsert (deps : Deps) (now : Time) (account : AccountId) (db : Db)
    (input : DocumentInput) : Grown db (written (upsertDocument deps now account) db input) := by
  unfold written upsertDocument
  split
  · split
    · exact refl db
    · exact of_touch db _ now _ (fun _ => rfl) fun _ => rfl
  · exact of_insert db (newRow deps now account input _ db.nextSeq) now rfl

theorem of_relink (now : Time) (account : AccountId) (db : Db) (pair : LinkPair) :
    Grown db (written (relinkPair now account) db pair) := by
  unfold written relinkPair
  split
  · exact refl db
  · dsimp only
    split
    · exact refl db
    · exact of_touch db _ now _ (fun _ => rfl) fun _ => rfl

theorem of_archive (now : Time) (account : AccountId) (db : Db) (r : ExternalRef) :
    Grown db (written (archiveByRef now account) db r) := by
  have one : ∀ db id, Grown db (archiveDocument now db id) := fun db id =>
    of_touch db id now _ (fun _ => rfl) fun _ => rfl
  unfold written archiveByRef
  split
  · exact refl db
  · split
    · exact (one db _).trans (foldl _ one _ _)
    · exact refl db

end Grown

theorem commitDocuments_grown (deps : Deps) (now : Time) (account : AccountId) (b : AccountBatch)
    (s : Db × Nat) : Grown s.1 (commitDocuments deps now account b s).1 := by
  simp only [commitDocuments, foldLast_fst]
  exact (((Grown.foldl _ (Grown.of_upsert deps now account) _ _).trans
    (Grown.foldl _ (Grown.of_relink now account) _ _)).trans
    (Grown.foldl _ (Grown.of_relink now account) _ _)).trans
    (Grown.foldl _ (Grown.of_archive now account) _ _)

/-- **A committed account batch numbers what it changes above everything before.** -/
theorem commitAccount_grown {deps : Deps} {now : Time} {publishedAt : Option Time}
    {b : AccountBatch} {db db' : Db} {last : Nat}
    (committed : commitAccount deps now publishedAt b db = .ok (db', last)) : Grown db db' := by
  unfold commitAccount at committed
  split at committed
  · cases committed
  · rename_i acc found
    simp only [Except.ok.injEq, Prod.mk.injEq] at committed
    obtain ⟨rfl, -⟩ := committed
    have docs := commitDocuments_grown deps now acc.id b (db, db.changes.head)
    refine Grown.trans ?_ (Grown.of_update _ _ _ (by simp) (by simp))
    split
    · exact docs.trans (Grown.of_change _ _ _ _)
    · exact docs

end Kiagent.Store
