/-
# Store.Corpus -- what the documents say, without their numbers

A `Corpus` maps a natural key to what a reader of the document sees: its id, its
content, its parent and whether it is live.  The change numbers and the times of
the rows are not part of it, so two devices, or a batch committed whole and in
pieces, can be compared on it.

The three writes of a commit are restated on corpora, and `corpus_upsert`,
`corpus_relink` and `corpus_archive` say that the rows refine them: the abstract
write of the corpus is the corpus of the written rows.
-/
import Kiagent.Store.Documents

namespace Kiagent.Store

open Kiagent.Theory

set_option autoImplicit false

structure DocContent where
  title : Option String
  markdown : Option String
  url : Option String
  metadata : JsonObject
  createdAt : Option Time
  contentHash : String
  languages : String
  deriving DecidableEq, Repr

structure DocView where
  id : DocumentId
  content : DocContent
  parentId : Option DocumentId
  live : Bool
  deriving DecidableEq, Repr

def DocRow.view (d : DocRow) : DocView where
  id := d.id
  content :=
    ⟨d.title, d.markdown, d.url, d.metadata, d.createdAt, d.contentHash, d.languages⟩
  parentId := d.parentId
  live := d.live

@[simp] theorem DocRow.view_id (d : DocRow) : d.view.id = d.id := rfl

@[simp] theorem DocRow.view_live (d : DocRow) : d.view.live = d.live := rfl

@[simp] theorem DocRow.view_parentId (d : DocRow) : d.view.parentId = d.parentId := rfl

@[simp] theorem DocRow.view_hash (d : DocRow) :
    d.view.content.contentHash = d.contentHash := rfl

abbrev NaturalKey := AccountId × ExternalRef

/-- The documents by natural key. -/
abbrev Corpus := NaturalKey → Option DocView

def corpus (db : Db) : Corpus := fun k => (lookup DocRow.natural k db.documents).map DocRow.view

/-! ## The writes on a corpus -/

/-- The content an input writes. -/
def contentOf (deps : Deps) (input : DocumentInput) : DocContent :=
  ⟨input.title, input.markdown, input.url, input.metadata, input.createdAt,
    contentHash deps input, languagesOf deps input.title input.markdown⟩

namespace Corpus

def parentId (V : Corpus) (account : AccountId) (parent : Option ExternalRef) :
    Option DocumentId :=
  parent.bind fun r => (V (account, r)).map DocView.id

/-- A live row whose content hash is the input's. -/
def unchanged (deps : Deps) (input : DocumentInput) (x : Option DocView) : Bool :=
  x.any fun v => decide (v.content.contentHash = contentHash deps input) && v.live

/-- The row an input leaves under a key: the id stays, or is the key's digest. -/
def writeView (deps : Deps) (account : AccountId) (input : DocumentInput)
    (parentId : Option DocumentId) (x : Option DocView) : DocView where
  id := (x.map DocView.id).getD (documentId deps account input.ref)
  content := contentOf deps input
  parentId := parentId
  live := true

def upsert (deps : Deps) (account : AccountId) (V : Corpus) (input : DocumentInput) : Corpus :=
  if unchanged deps input (V (account, input.ref)) then V
  else Function.update V (account, input.ref)
    (some (writeView deps account input (V.parentId account input.parent)
      (V (account, input.ref))))

def relink (account : AccountId) (V : Corpus) (pair : LinkPair) : Corpus :=
  Function.update V (account, pair.child)
    ((V (account, pair.child)).map fun v =>
      { v with parentId := V.parentId account (some pair.parent) })

/-- Rewrite the rows that satisfy `p`. -/
def mapWhere (V : Corpus) (p : DocView → Bool) (g : DocView → DocView) : Corpus :=
  fun k => (V k).map fun v => if p v then g v else v

def bury (v : DocView) : DocView := { v with live := false }

/-- Archive a live row and the rows that hang from it. -/
def archive (account : AccountId) (V : Corpus) (r : ExternalRef) : Corpus :=
  match V (account, r) with
  | none => V
  | some row =>
      if row.live then
        V.mapWhere (fun v => decide (v.id = row.id) || decide (v.parentId = some row.id)) bury
      else V

end Corpus

/-! ## Refinement -/

section Refinement

variable {deps : Deps} {db : Db}

/-- What a natural key finds is what the corpus holds. -/
theorem corpus_eq {db : Db} {account : AccountId} {r : ExternalRef} {x : Option DocRow}
    (found : findDocRow db account r = x) : corpus db (account, r) = x.map DocRow.view := by
  rw [← found]
  rfl

theorem corpus_parentId (db : Db) (account : AccountId) (parent : Option ExternalRef) :
    (corpus db).parentId account parent = parentIdOf db account parent := by
  cases parent with
  | none => rfl
  | some r =>
      simp only [Corpus.parentId, parentIdOf, Option.bind_some, corpus, findDocRow]
      cases lookup DocRow.natural (account, r) db.documents <;> rfl

/-- An update of the row with an id, seen on the corpus. -/
theorem corpus_touch (db : Db) (id : DocumentId) (now : Time) (f : DocRow → DocRow)
    (g : DocView → DocView) (sameId : ∀ d, (f d).id = d.id)
    (sameKey : ∀ d, (f d).natural = d.natural) (view : ∀ d, (f d).view = g d.view) :
    corpus (touchDocument db id now f) =
      (corpus db).mapWhere (fun v => decide (v.id = id)) g := by
  funext k
  have keeps : ∀ d, (if d.id = id then f d else d).natural = d.natural := by
    intro d
    split
    · exact sameKey d
    · rfl
  simp only [corpus, Corpus.mapWhere]
  rw [documents_touch db id now f sameId, lookup_map _ keeps]
  cases found : lookup DocRow.natural k db.documents with
  | none => rfl
  | some d =>
      by_cases here : d.id = id <;> simp [here, view]

/-- When the id is the one found under a natural key, only that key changes. -/
theorem mapWhere_id {account : AccountId} {r : ExternalRef}
    {d : DocRow} (found : findDocRow db account r = some d) (g : DocView → DocView) :
    (corpus db).mapWhere (fun v => decide (v.id = d.id)) g =
      Function.update (corpus db) (account, r) (some (g d.view)) := by
  obtain ⟨mem, natural⟩ := findDocRow_mem found
  funext k
  by_cases here : k = (account, r)
  · subst here
    have self : corpus db (account, r) = some d.view := corpus_eq found
    rw [Function.update_self]
    simp [Corpus.mapWhere, self]
  · rw [Function.update_of_ne here]
    simp only [Corpus.mapWhere, corpus]
    cases at_k : lookup DocRow.natural k db.documents with
    | none => rfl
    | some x =>
        have other : x.id ≠ d.id := by
          intro same
          have := id_injective (lookup_mem at_k) mem same
          subst this
          exact here ((lookup_key at_k).symm.trans natural)
        simp [other]

theorem unchanged_view (deps : Deps) (input : DocumentInput) (d : DocRow) :
    Corpus.unchanged deps input (some d.view) = true ↔
      d.contentHash = contentHash deps input ∧ d.live = true := by
  rw [Corpus.unchanged, Option.any_some, Bool.and_eq_true, decide_eq_true_iff]
  rfl

/-- **An upsert of a row is the upsert of the corpus.** -/
theorem corpus_upsert (wf : WellFormed deps db) (now : Time) (account : AccountId)
    (input : DocumentInput) :
    corpus (written (upsertDocument deps now account) db input) =
      (corpus db).upsert deps account input ∧
    WellFormed deps (written (upsertDocument deps now account) db input) := by
  cases found : findDocRow db account input.ref with
  | some existing =>
      have self : corpus db (account, input.ref) = some existing.view := corpus_eq found
      by_cases same : existing.contentHash = contentHash deps input ∧ existing.live
      · have skip : Corpus.unchanged deps input (corpus db (account, input.ref)) = true := by
          rw [self]
          exact (unchanged_view deps input existing).2 same
        simp only [written, upsertDocument, found, if_pos same, Corpus.upsert, skip, if_true]
        exact ⟨rfl, wf⟩
      · have write : ¬ Corpus.unchanged deps input (corpus db (account, input.ref)) = true := by
          rw [self]
          exact fun skip => same ((unchanged_view deps input existing).1 skip)
        simp only [written, upsertDocument, found, if_neg same, Corpus.upsert, write,
          Option.map_some, Option.getD_some]
        constructor
        · have touched := corpus_touch db existing.id now
            (writeRow deps now input (parentIdOf db account input.parent) db.nextSeq)
            (fun v => Corpus.writeView deps account input (parentIdOf db account input.parent)
              (some v)) (fun _ => rfl) (fun _ => rfl) (fun _ => rfl)
          rw [touched, mapWhere_id found, self, corpus_parentId]
          rfl
        · exact wf.touch _ _ _ (fun _ => rfl) fun _ => rfl
  | none =>
      have self : corpus db (account, input.ref) = none := corpus_eq found
      simp only [written, upsertDocument, found, Corpus.upsert, self, Option.map_some,
        Option.getD_some, corpus_parentId]
      have rows : ((db.appendChange .document (documentId deps account input.ref) now).insertRow
          .documents (newRow deps now account input (parentIdOf db account input.parent)
            db.nextSeq)).documents =
          db.documents ++ [newRow deps now account input (parentIdOf db account input.parent)
            db.nextSeq] :=
        documents_insertRow (newRow_free wf found)
      constructor
      · funext k
        simp only [corpus, newRow] at rows ⊢
        rw [rows, lookup_append]
        by_cases here : k = (account, input.ref)
        · subst here
          rw [show lookup DocRow.natural (account, input.ref) db.documents = none from found]
          simp [lookup_cons, DocRow.natural, DocRow.ref, DocumentInput.ref, Corpus.unchanged,
            DocRow.view, Corpus.writeView, contentOf, DocRow.live]
        · have off : (account, input.ref) ≠ k := Ne.symm here
          cases at_k : lookup DocRow.natural k db.documents <;>
            simp_all [lookup_cons, DocRow.natural, DocRow.ref, DocumentInput.ref,
              Corpus.unchanged, corpus]
      · refine ⟨?_, ?_⟩
        · simp only [newRow] at rows ⊢
          rw [rows, List.map_append, List.nodup_append]
          refine ⟨wf.natural, by simp, ?_⟩
          intro a mem b last
          obtain ⟨x, there, rfl⟩ := List.mem_map.1 mem
          obtain rfl : b = (account, input.ref) := by
            simpa [DocRow.natural, DocRow.ref, DocumentInput.ref] using last
          exact lookup_eq_none_iff.1 found x there
        · intro x mem a r hashed
          simp only [newRow] at rows mem
          rw [rows] at mem
          rcases List.mem_append.1 mem with old | new
          · exact wf.hashed x old a r hashed
          · obtain rfl := List.mem_singleton.1 new
            obtain ⟨rfl, rfl⟩ := documentId_injective deps hashed
            rfl

/-- **A relink of a row is the relink of the corpus.** -/
theorem corpus_relink (wf : WellFormed deps db) (now : Time) (account : AccountId)
    (pair : LinkPair) :
    corpus (written (relinkPair now account) db pair) = (corpus db).relink account pair ∧
    WellFormed deps (written (relinkPair now account) db pair) := by
  cases found : findDocRow db account pair.child with
  | none =>
      have self : corpus db (account, pair.child) = none := corpus_eq found
      simp only [written, relinkPair, found, Corpus.relink, self, Option.map_none,
        Option.getD_none]
      refine ⟨?_, wf⟩
      rw [← self, Function.update_eq_self]
  | some child =>
      have self : corpus db (account, pair.child) = some child.view := corpus_eq found
      by_cases same : child.parentId = parentIdOf db account (some pair.parent)
      · simp only [written, relinkPair, found, if_pos same, Option.map_none, Option.getD_none]
        refine ⟨?_, wf⟩
        have stays : (corpus db (account, pair.child)).map (fun v =>
            { v with parentId := (corpus db).parentId account (some pair.parent) }) =
            corpus db (account, pair.child) := by
          rw [self, corpus_parentId, ← same]
          rfl
        rw [Corpus.relink, stays, Function.update_eq_self]
      · simp only [written, relinkPair, found, if_neg same, Option.map_some, Option.getD_some]
        constructor
        · have touched := corpus_touch db child.id now
            (setParent (parentIdOf db account (some pair.parent)) db.nextSeq now)
            (fun v => { v with parentId := parentIdOf db account (some pair.parent) })
            (fun _ => rfl) (fun _ => rfl) fun _ => rfl
          rw [touched, mapWhere_id found, Corpus.relink, self, corpus_parentId]
          rfl
        · exact wf.touch _ _ _ (fun _ => rfl) fun _ => rfl

theorem corpus_archiveDocument (db : Db) (now : Time) (id : DocumentId) :
    corpus (archiveDocument now db id) =
      (corpus db).mapWhere (fun v => decide (v.id = id)) Corpus.bury :=
  corpus_touch db id now (setArchived db.nextSeq now) Corpus.bury (fun _ => rfl)
    (fun _ => rfl) fun _ => rfl

theorem WellFormed.archiveDocument (wf : WellFormed deps db) (now : Time) (id : DocumentId) :
    WellFormed deps (Store.archiveDocument now db id) :=
  wf.touch id now (setArchived db.nextSeq now) (fun _ => rfl) fun _ => rfl

theorem WellFormed.archiveDocuments (wf : WellFormed deps db) (now : Time)
    (ids : List DocumentId) : WellFormed deps (ids.foldl (Store.archiveDocument now) db) := by
  induction ids generalizing db with
  | nil => exact wf
  | cons id ids ih => exact ih (wf.archiveDocument now id)

/-- Archiving a list of ids buries the rows that carry one. -/
theorem corpus_archiveDocuments (now : Time) : (ids : List DocumentId) → (db : Db) →
    corpus (ids.foldl (archiveDocument now) db) =
      (corpus db).mapWhere (fun v => decide (v.id ∈ ids)) Corpus.bury
  | [], db => by
      funext k
      simp [Corpus.mapWhere]
  | id :: ids, db => by
      rw [List.foldl_cons, corpus_archiveDocuments now ids, corpus_archiveDocument]
      funext k
      simp only [Corpus.mapWhere]
      cases corpus db k with
      | none => rfl
      | some v =>
          by_cases here : v.id = id <;> by_cases later : v.id ∈ ids <;>
            simp_all [Corpus.bury]

theorem mem_liveChildren {d : DocRow} (mem : d ∈ db.documents) (parent : DocumentId) :
    d.id ∈ liveChildren db parent ↔ d.parentId = some parent ∧ d.live = true := by
  simp only [liveChildren, List.mem_map, List.mem_filter, Bool.and_eq_true, decide_eq_true_eq]
  constructor
  · rintro ⟨x, ⟨there, child, live⟩, same⟩
    obtain rfl := id_injective there mem same
    exact ⟨child, live⟩
  · rintro ⟨child, live⟩
    exact ⟨d, ⟨mem, child, live⟩, rfl⟩

/-- Archiving the children of a document buries the rows that hang from it. -/
theorem corpus_archiveChildren (db : Db) (now : Time) (parent : DocumentId) :
    corpus (archiveChildren now db parent) =
      (corpus db).mapWhere (fun v => decide (v.parentId = some parent)) Corpus.bury := by
  rw [archiveChildren, corpus_archiveDocuments]
  funext k
  simp only [Corpus.mapWhere, corpus]
  cases found : lookup DocRow.natural k db.documents with
  | none => rfl
  | some d =>
      have children := mem_liveChildren (lookup_mem found) parent
      by_cases child : d.parentId = some parent <;> cases live : d.live <;>
        simp_all [Corpus.bury, DocRow.view]

/-- **An archive by reference is the archive of the corpus.** -/
theorem corpus_archive (wf : WellFormed deps db) (now : Time) (account : AccountId)
    (r : ExternalRef) :
    corpus (written (archiveByRef now account) db r) = (corpus db).archive account r ∧
    WellFormed deps (written (archiveByRef now account) db r) := by
  cases found : findDocRow db account r with
  | none =>
      have self : corpus db (account, r) = none := corpus_eq found
      simp only [written, archiveByRef, found, Corpus.archive, self]
      exact ⟨rfl, wf⟩
  | some row =>
      have self : corpus db (account, r) = some row.view := corpus_eq found
      by_cases live : row.live = true
      · simp only [written, archiveByRef, found, live, if_true, Option.map_some,
          Option.getD_some, Corpus.archive, self, DocRow.view_live, DocRow.view_id]
        constructor
        · rw [corpus_archiveChildren, corpus_archiveDocument]
          funext k
          simp only [Corpus.mapWhere]
          cases corpus db k with
          | none => rfl
          | some v =>
              by_cases own : v.id = row.id <;> by_cases child : v.parentId = some row.id <;>
                simp_all [Corpus.bury]
        · exact (wf.archiveDocument now row.id).archiveDocuments now _
      · simp only [written, archiveByRef, found, live, Corpus.archive, self, DocRow.view_live]
        exact ⟨rfl, wf⟩

/-! ## Lists of writes -/

/-- A write that refines a write of the corpus, run over a list. -/
theorem corpus_foldl {α : Type} (write : Db → α → Option (Db × Nat)) (step : Corpus → α → Corpus)
    (refines : ∀ db a, WellFormed deps db → corpus (written write db a) = step (corpus db) a ∧
      WellFormed deps (written write db a)) :
    (as : List α) → (db : Db) → WellFormed deps db →
      corpus (as.foldl (written write) db) = as.foldl step (corpus db) ∧
      WellFormed deps (as.foldl (written write) db)
  | [], db, wf => ⟨rfl, wf⟩
  | a :: as, db, wf => by
      obtain ⟨same, wf'⟩ := refines db a wf
      rw [List.foldl_cons, List.foldl_cons, ← same]
      exact corpus_foldl write step refines as _ wf'

end Refinement

end Kiagent.Store
