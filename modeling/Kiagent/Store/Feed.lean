/-
# Store.Feed -- the change log, and what a reader of it is fed

A device is `Logged` when each of its numbered documents has a row of the change
log under the document's number, and at most one document has no number.  Numbers
of the log are unique, so the documents of a logged device are numbered apart.

`materialize` reads one window of the log; a document is fed only under its
current number.  `materialize_visits`: on a logged device a window feeds a
document once when it reaches over the document's number, and otherwise not at
all.
-/
import Kiagent.Store.Commit

namespace Kiagent.Store

open Kiagent.Theory

set_option autoImplicit false

/-! ## Logged documents -/

/-- The row `appendChange` or a delta left for a document under this number. -/
def InLog (db : Db) (seq : Nat) (id : DocumentId) : Prop :=
  ∃ e ∈ db.changes.entries, e.1 = seq ∧ e.2.kind = .document ∧ e.2.refId = id

structure Logged (db : Db) : Prop where
  numbered : ∀ d ∈ db.documents, 0 < d.seq → InLog db d.seq d.id
  unnumbered : ∀ d ∈ db.documents, ∀ d' ∈ db.documents, d.seq = 0 → d'.seq = 0 → d.id = d'.id

theorem InLog.id_unique {db : Db} {seq : Nat} {id id' : DocumentId} (here : InLog db seq id)
    (here' : InLog db seq id') : id = id' := by
  obtain ⟨e, mem, number, -, rfl⟩ := here
  obtain ⟨e', mem', number', -, rfl⟩ := here'
  rw [SeqLog.eq_of_number mem mem' (number.trans number'.symm)]

/-- **The documents of a logged device are numbered apart.** -/
theorem Logged.distinct {db : Db} (logged : Logged db) {d d' : DocRow} (mem : d ∈ db.documents)
    (mem' : d' ∈ db.documents) (same : d.seq = d'.seq) : d = d' := by
  refine id_injective mem mem' ?_
  rcases Nat.eq_zero_or_pos d.seq with zero | positive
  · exact logged.unnumbered d mem d' mem' zero (same ▸ zero)
  · have here := logged.numbered d mem positive
    rw [same] at here positive
    exact here.id_unique (logged.numbered d' mem' positive)

theorem logged_of_empty {db : Db} (empty : db.documents = []) : Logged db where
  numbered d mem := by rw [empty] at mem; cases mem
  unnumbered d mem := by rw [empty] at mem; cases mem

/-! ## Commits keep documents logged -/

/-- A document keeps its row, goes, or takes a new number that is in the log. -/
structure Relogged (db db' : Db) : Prop where
  documents : ∀ d' ∈ db'.documents, d' ∈ db.documents ∨
    db.changes.counter < d'.seq ∧ InLog db' d'.seq d'.id
  log : ∀ e ∈ db.changes.entries, e ∈ db'.changes.entries
  counter : db.changes.counter ≤ db'.changes.counter

theorem InLog.mono {db db' : Db} (log : ∀ e ∈ db.changes.entries, e ∈ db'.changes.entries)
    {seq : Nat} {id : DocumentId} (here : InLog db seq id) : InLog db' seq id := by
  obtain ⟨e, mem, same⟩ := here
  exact ⟨e, log e mem, same⟩

namespace Relogged

theorem refl (db : Db) : Relogged db db := ⟨fun _ mem => .inl mem, fun _ mem => mem, Nat.le_refl _⟩

theorem trans {a b c : Db} (first : Relogged a b) (second : Relogged b c) : Relogged a c where
  documents d mem := by
    rcases second.documents d mem with old | ⟨high, here⟩
    · rcases first.documents d old with old' | ⟨high, here⟩
      · exact .inl old'
      · exact .inr ⟨high, here.mono second.log⟩
    · exact .inr ⟨Nat.lt_of_le_of_lt first.counter high, here⟩
  log e mem := second.log e (first.log e mem)
  counter := Nat.le_trans first.counter second.counter

theorem foldl {α : Type} (step : Db → α → Db) (each : ∀ db a, Relogged db (step db a)) :
    (as : List α) → (db : Db) → Relogged db (as.foldl step db)
  | [], db => refl db
  | a :: as, db => (each db a).trans (foldl step each as (step db a))

/-- A logged device stays logged. -/
theorem logged {db db' : Db} (moved : Relogged db db') (logged : Logged db) : Logged db' where
  numbered d mem positive := by
    rcases moved.documents d mem with old | ⟨-, here⟩
    · exact (logged.numbered d old positive).mono moved.log
    · exact here
  unnumbered d mem d' mem' zero zero' := by
    rcases moved.documents d mem with old | ⟨high, -⟩
    · rcases moved.documents d' mem' with old' | ⟨high', -⟩
      · exact logged.unnumbered d old d' old' zero zero'
      · omega
    · omega

/-- Only deletes of documents, or none. -/
theorem of_documents {db db' : Db} (fewer : ∀ d ∈ db'.documents, d ∈ db.documents)
    (changes : db'.changes = db.changes) : Relogged db db' :=
  ⟨fun d mem => .inl (fewer d mem), by simp [changes], Nat.le_of_eq (by rw [changes])⟩

theorem of_change (db : Db) (kind : ChangeKind) (refId : String) (now : Time) :
    Relogged db (db.appendChange kind refId now) :=
  ⟨fun _ mem => .inl mem, fun _ mem => List.mem_append_left _ mem, Nat.le_succ _⟩

theorem of_update (db : Db) {t : Tbl} (k : Key) (f : RowOf t → RowOf t) (other : .documents ≠ t) :
    Relogged db (db.updateRow t k f) := by
  have same := Db.updateRow_tables_ne db t k f other
  refine of_documents (fun d mem => ?_) (Db.updateRow_frame db t k f).changes
  rw [Db.documents, Db.rows, same] at mem
  exact mem

theorem of_insert (db : Db) {t : Tbl} (r : RowOf t) (other : .documents ≠ t) :
    Relogged db (db.insertRow t r) := by
  have same := Db.insertRow_tables_ne db t r other
  refine of_documents (fun d mem => ?_) (Db.insertRow_frame db t r).changes
  rw [Db.documents, Db.rows, same] at mem
  exact mem

theorem of_delete (db : Db) (t : Tbl) (k : Key) : Relogged db (db.deleteRow t k) :=
  of_documents (fun _ mem => mem_documents.2 (Db.deleteRow_find_some (mem_documents.1 mem)))
    (Db.deleteRow_frame db t k).changes

theorem of_children (db : Db) (t : Tbl) (account : AccountId) :
    Relogged db (db.deleteChildren t account) := by
  refine of_documents (fun d mem => ?_) (Db.deleteChildren_frame db t account).changes
  have found := mem_documents.1 mem
  rw [Db.deleteChildren_find] at found
  exact mem_documents.2 (Option.filter_eq_some_iff.1 found).1

/-- A touched document carries the number of the change row before it. -/
theorem of_touch (db : Db) (id : DocumentId) (now : Time) (f : DocRow → DocRow)
    (sameId : ∀ d, (f d).id = d.id) (seq : ∀ d, (f d).seq = db.nextSeq) :
    Relogged db (touchDocument db id now f) := by
  have rows := documents_touch db id now f sameId
  have frame := Db.updateRow_frame (db.appendChange .document id now) .documents [.text id] f
  refine ⟨fun d mem => ?_, fun e mem => ?_, ?_⟩
  · rw [rows] at mem
    obtain ⟨x, there, rfl⟩ := List.mem_map.1 mem
    split
    · rename_i here
      refine .inr ⟨by rw [seq]; exact Nat.lt_succ_self _, ?_⟩
      refine ⟨(db.nextSeq, ⟨.document, id, now⟩), ?_, (seq x).symm, rfl, ?_⟩
      · rw [touchDocument, frame.changes]
        exact List.mem_append_right _ (List.mem_singleton.2 rfl)
      · rw [sameId, here]
    · exact .inl there
  · rw [touchDocument, frame.changes]
    exact List.mem_append_left _ mem
  · rw [touchDocument, frame.changes]
    exact Nat.le_succ _

theorem of_new (db : Db) (d : DocRow) (now : Time) (seq : d.seq = db.nextSeq) :
    Relogged db ((db.appendChange .document d.id now).insertRow .documents d) := by
  have frame := Db.insertRow_frame (db.appendChange .document d.id now) .documents d
  refine ⟨fun x mem => ?_, fun e mem => ?_, ?_⟩
  · have found := mem_documents.1 mem
    by_cases here : keyOf .documents x = keyOf .documents d
    · rw [here, Db.insertRow_find_self] at found
      obtain rfl : d = x := Option.some.inj found
      refine .inr ⟨by rw [seq]; exact Nat.lt_succ_self _, ?_⟩
      refine ⟨(db.nextSeq, ⟨.document, d.id, now⟩), ?_, seq.symm, rfl, rfl⟩
      rw [frame.changes]
      exact List.mem_append_right _ (List.mem_singleton.2 rfl)
    · have off : ((Tbl.documents, keyOf .documents x) : Tbl × Key) ≠
          (.documents, keyOf .documents d) := fun h => here (Prod.mk.inj h).2
      have old := (Db.insertRow_find_ne (db.appendChange .document d.id now) .documents d off).symm
      exact .inl (mem_documents.2 (old.trans found))
  · rw [frame.changes]
    exact List.mem_append_left _ mem
  · rw [frame.changes]
    exact Nat.le_succ _

theorem of_upsert (deps : Deps) (now : Time) (account : AccountId) (db : Db)
    (input : DocumentInput) : Relogged db (written (upsertDocument deps now account) db input) := by
  unfold written upsertDocument
  split
  · split
    · exact refl db
    · exact of_touch db _ now _ (fun _ => rfl) fun _ => rfl
  · exact of_new db (newRow deps now account input _ db.nextSeq) now rfl

theorem of_relink (now : Time) (account : AccountId) (db : Db) (pair : LinkPair) :
    Relogged db (written (relinkPair now account) db pair) := by
  unfold written relinkPair
  split
  · exact refl db
  · dsimp only
    split
    · exact refl db
    · exact of_touch db _ now _ (fun _ => rfl) fun _ => rfl

theorem of_archive (now : Time) (account : AccountId) (db : Db) (r : ExternalRef) :
    Relogged db (written (archiveByRef now account) db r) := by
  have one : ∀ db id, Relogged db (archiveDocument now db id) := fun db id =>
    of_touch db id now _ (fun _ => rfl) fun _ => rfl
  unfold written archiveByRef
  split
  · exact refl db
  · split
    · exact (one db _).trans (foldl _ one _ _)
    · exact refl db

theorem of_commitDocuments (deps : Deps) (now : Time) (account : AccountId) (b : AccountBatch)
    (s : Db × Nat) : Relogged s.1 (commitDocuments deps now account b s).1 := by
  simp only [commitDocuments, foldLast_fst]
  exact (((foldl _ (of_upsert deps now account) _ _).trans
    (foldl _ (of_relink now account) _ _)).trans (foldl _ (of_relink now account) _ _)).trans
    (foldl _ (of_archive now account) _ _)

theorem of_commitAccount {deps : Deps} {now : Time} {publishedAt : Option Time} {b : AccountBatch}
    {db db' : Db} {last : Nat}
    (committed : commitAccount deps now publishedAt b db = .ok (db', last)) : Relogged db db' := by
  unfold commitAccount at committed
  split at committed
  · cases committed
  · rename_i acc found
    simp only [Except.ok.injEq, Prod.mk.injEq] at committed
    obtain ⟨rfl, -⟩ := committed
    have docs := of_commitDocuments deps now acc.id b (db, db.changes.head)
    refine trans ?_ (of_update _ _ _ (by simp))
    split
    · exact docs.trans (of_change _ _ _ _)
    · exact docs

theorem of_enrich (deps : Deps) (now : Time) (db : Db) (e : EnrichInput) :
    Relogged db (written (enrichDocument deps now) db e) := by
  unfold written enrichDocument
  split
  · exact refl db
  · refine of_touch db _ now _ (fun d => ?_) fun d => ?_ <;> unfold setEnriched <;> split <;> rfl

theorem of_account (deps : Deps) (now : Time) (source identifier : String) (db : Db) :
    Relogged db (getOrCreateAccount deps now source identifier db).1 := by
  unfold getOrCreateAccount
  split
  · exact refl db
  · exact (of_insert db _ (by simp)).trans (of_change _ _ _ _)

theorem of_consumer (deps : Deps) (now : Time) (b : ConsumerBatch) (db : Db) :
    Relogged db (commitConsumer deps now b db).1 := by
  have quiet : ∀ {db db' : Db}, db'.tables = db.tables → db'.changes = db.changes →
      Relogged db db' := fun tables changes =>
    of_documents (fun d mem => by rwa [documents_of_tables tables] at mem) changes
  have cursor : ∀ db : Db, Relogged db ((b.cursor.map (setConsumer db b.consumer)).getD db) := by
    intro db
    cases b.cursor
    · exact refl db
    · exact quiet rfl rfl
  have seedCursor : ∀ db : Db,
      Relogged db ((b.seedCursor.map (setSeedCursor db b.consumer)).getD db) := by
    intro db
    cases b.seedCursor
    · exact refl db
    · exact quiet rfl rfl
  unfold commitConsumer
  dsimp only
  rw [foldLast_fst]
  refine trans ?_ (foldl _ (of_enrich deps now) _ _)
  have head := ((cursor db).trans (seedCursor _)).trans
    (foldl (recordOutcome b.consumer) (fun _ _ => quiet rfl rfl) b.ledger _)
  split
  · exact head
  · rw [foldLast_fst, foldLast_fst]
    exact ((head.trans (of_account deps now "worker" b.consumer _)).trans
      (foldl _ (of_upsert deps now _) _ _)).trans (foldl _ (of_relink now _) _ _)

theorem of_removeAccount (now : Time) (id : AccountId) (db : Db) :
    Relogged db (removeAccount now id db).1 := by
  unfold removeAccount
  split
  · exact refl db
  · refine trans (of_children db .documents id) (trans ?_
      ((of_delete _ .accounts [.text id]).trans (of_change _ _ _ _)))
    exact of_documents (fun _ mem => mem) rfl

theorem of_purge (now before : Time) (db : Db) : Relogged db (purgeArchived now before db).1 :=
  foldl _ (fun _ _ => (of_delete _ _ _).trans (of_change _ _ _ _)) _ db

/-- **Every commit keeps a logged device logged.** -/
theorem of_commitTx {deps : Deps} {now : Time} {publishedAt : Option Time} {batch : CommitBatch}
    {db : Db} {r : Db × Nat} (committed : commitTx deps now publishedAt batch db = .ok r) :
    Relogged db r.1 := by
  cases batch with
  | account b => exact of_commitAccount committed
  | consumer b =>
      obtain rfl := Except.ok.inj committed
      exact of_consumer deps now b db
  | removeAccount id =>
      obtain rfl := Except.ok.inj committed
      exact of_removeAccount now id db
  | purgeArchived before =>
      obtain rfl := Except.ok.inj committed
      exact of_purge now before db

end Relogged

/-! ## The feed -/

inductive Change where
  | document (seq : Nat) (d : DocRow)
  | account (seq : Nat) (a : AccountRow)
  | purge (seq : Nat) (id : DocumentId)
  | accountRemoved (seq : Nat) (id : AccountId)
  deriving DecidableEq, Repr

/-- Is this a change of that document? -/
def Change.isOf (id : DocumentId) : Change → Bool
  | .document _ d => decide (d.id = id)
  | _ => false

def feedBatch : Nat := 500

/-- A document is fed only under its current number; `everySeq` keeps the older rows
too, each with the current document. -/
def materializeRow (db : Db) (everySeq : Bool) (e : Nat × ChangeRow) : Option Change :=
  match e.2.kind with
  | .document => (db.find .documents [.text e.2.refId]).bind fun (d : DocRow) =>
      if everySeq || d.seq == e.1 then some (.document e.1 d) else none
  | .account => (db.find .accounts [.text e.2.refId]).map fun (a : AccountRow) => .account e.1 a
  | .purge => some (.purge e.1 e.2.refId)
  | .accountRemoved => some (.accountRemoved e.1 e.2.refId)

/-- The rows of one window. -/
def feedWindow (db : Db) (after : Nat) (kinds : List ChangeKind) : List (Nat × ChangeRow) :=
  ((db.changes.since after).filter fun e => kinds.isEmpty || decide (e.2.kind ∈ kinds)).take
    feedBatch

/-- One window, and the last row it looked at, fed or not. -/
def materialize (db : Db) (after : Nat) (kinds : List ChangeKind) (everySeq : Bool) :
    List Change × Nat :=
  let rows := feedWindow db after kinds
  (rows.filterMap (materializeRow db everySeq), ((rows.getLast?).map Prod.fst).getD after)

section Feed

variable {db : Db}

/-- What a row of the log feeds of a document. -/
theorem materializeRow_isOf {e : Nat × ChangeRow} {c : Change} {d : DocRow}
    (mem : d ∈ db.documents) (fed : materializeRow db false e = some c) (of : c.isOf d.id = true) :
    c = .document d.seq d ∧ e.1 = d.seq ∧ e.2.kind = .document ∧ e.2.refId = d.id := by
  unfold materializeRow at fed
  split at fed
  · rename_i kind
    obtain ⟨x, found, fed⟩ := Option.bind_eq_some_iff.1 fed
    split at fed
    · rename_i current
      obtain rfl := Option.some.inj fed
      have same : x.id = d.id := of_decide_eq_true of
      have there : x ∈ db.documents := Table.find_mem found
      obtain rfl := id_injective there mem same
      have key : keyOf .documents x = [.text e.2.refId] := Table.find_key found
      have seq : x.seq = e.1 := by simpa using current
      refine ⟨by rw [seq], seq.symm, kind, ?_⟩
      simpa [keyOf, eq_comm] using key
    · cases fed
  · obtain ⟨a, -, rfl⟩ := Option.map_eq_some_iff.1 fed
    cases of
  · obtain rfl := Option.some.inj fed
    cases of
  · obtain rfl := Option.some.inj fed
    cases of

/-- The row a numbered document is logged under feeds it. -/
theorem materializeRow_current {e : Nat × ChangeRow} {d : DocRow} (mem : d ∈ db.documents)
    (number : e.1 = d.seq) (kind : e.2.kind = .document) (ref : e.2.refId = d.id) :
    materializeRow db false e = some (.document d.seq d) := by
  have found : db.find .documents [.text e.2.refId] = some d := by
    rw [ref]
    exact mem_documents.1 mem
  rw [materializeRow, kind]
  dsimp only
  rw [found, Option.bind_some, if_pos (by simp [number]), number]

/-- A window holds every row up to its last one, and no other. -/
theorem mem_feedWindow {after : Nat} {e : Nat × ChangeRow} :
    e ∈ feedWindow db after [] ↔ e ∈ db.changes.entries ∧ after < e.1 ∧
      e.1 ≤ (materialize db after [] false).2 := by
  have window : feedWindow db after [] = (db.changes.since after).take feedBatch := by
    simp [feedWindow]
  rw [materialize, window]
  exact SeqLog.mem_take_since

/-- When one element alone can give what passes `p`, the list gives it if it holds the
element. -/
theorem filter_filterMap_only {α β : Type} {g : α → Option β} {p : β → Bool} {e : α} {c : β}
    (gives : g e = some c) (passes : p c = true) : (l : List α) → l.Nodup →
    (∀ e' ∈ l, ∀ c', g e' = some c' → p c' = true → e' = e) →
    (e ∈ l → (l.filterMap g).filter p = [c]) ∧ (e ∉ l → (l.filterMap g).filter p = [])
  | [], _, _ => by simp
  | x :: l, distinct, only => by
      rw [List.nodup_cons] at distinct
      obtain ⟨given, missing⟩ := filter_filterMap_only gives passes l distinct.2 fun e' mem =>
        only e' (List.mem_cons_of_mem _ mem)
      by_cases here : x = e
      · subst here
        simp [gives, passes, missing distinct.1]
      · have off : e ≠ x := fun h => here h.symm
        cases gave : g x with
        | none =>
            rw [List.filterMap_cons_none gave, List.mem_cons, or_iff_right off]
            exact ⟨given, missing⟩
        | some c' =>
            have fails : p c' = false := by
              by_contra holds
              exact here (only x (List.mem_cons_self ..) c' gave (by simpa using holds))
            rw [List.filterMap_cons_some gave, List.filter_cons_of_neg (by simp [fails]),
              List.mem_cons, or_iff_right off]
            exact ⟨given, missing⟩

/-- **A window feeds a document once, under its current number, when it reaches over
it, and otherwise not at all.** -/
theorem materialize_visits (logged : Logged db) {d : DocRow} (mem : d ∈ db.documents)
    (positive : 0 < d.seq) (after : Nat) :
    (materialize db after [] false).1.filter (Change.isOf d.id) =
      if after < d.seq ∧ d.seq ≤ (materialize db after [] false).2 then [.document d.seq d]
      else [] := by
  obtain ⟨e, there, number, kind, ref⟩ := logged.numbered d mem positive
  have current := materializeRow_current mem number kind ref
  have only : ∀ e' ∈ feedWindow db after [], ∀ c, materializeRow db false e' = some c →
      c.isOf d.id = true → e' = e := fun e' mem' c fed of =>
    SeqLog.eq_of_number (mem_feedWindow.1 mem').1 there
      ((materializeRow_isOf mem fed of).2.1.trans number.symm)
  have distinct : (feedWindow db after []).Nodup :=
    (List.Nodup.of_map Prod.fst (db.changes.ascending.imp Nat.ne_of_lt)).sublist
      ((List.take_sublist _ _).trans (List.filter_sublist.trans List.filter_sublist))
  have once := filter_filterMap_only current (decide_eq_true rfl) _ distinct only
  have window : e ∈ feedWindow db after [] ↔
      after < d.seq ∧ d.seq ≤ (materialize db after [] false).2 := by
    rw [← number]
    exact ⟨fun here => (mem_feedWindow.1 here).2, fun reach => mem_feedWindow.2 ⟨there, reach⟩⟩
  by_cases here : e ∈ feedWindow db after []
  · rw [if_pos (window.1 here)]
    exact once.1 here
  · rw [if_neg fun reach => here (window.2 reach)]
    exact once.2 here

end Feed

end Kiagent.Store
