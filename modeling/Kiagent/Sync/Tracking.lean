/-
# Sync.Tracking -- every write of a leader leaves a mark

`Write` is one statement of a leader that changes a copied table, with what
SQLite checks of it: the key is free, the foreign keys hold afterwards.  Two
feeds record it: `documents.seq`, taken from the change log, and the number
`sync_rows` gives the row's key.

`Traced db db'` is what the two feeds guarantee between two states of one
device: a key whose row differs is `Marked` above the counters of the earlier
state.  It is a preorder (`Traced.refl`, `Traced.trans`), every statement is
traced (`Write.traced`), so every run is (`Writes.traced`).
-/
import Kiagent.Store.Db
import Mathlib.Logic.Relation

namespace Kiagent.Sync

open Kiagent.Theory Kiagent.Store

set_option autoImplicit false

/-- A position in the two feeds. -/
structure SyncCursor where
  seq : Nat
  cursor : Nat
  deriving DecidableEq, Repr

/-- The counters of the two feeds: nothing is numbered above them. -/
def counters (db : Db) : SyncCursor := ⟨db.changes.counter, db.syncRows.counter⟩

/-- The row at this key is carried by what follows `after`: its key is tracked
above `after.cursor`, or it is a document above `after.seq`. -/
def Marked (after : SyncCursor) (db : Db) (t : Tbl) (k : Key) : Prop :=
  (∃ n, db.syncRows.numberOf (t, k) = some n ∧ after.cursor < n) ∨
    (t = .documents ∧ ∃ d, db.find .documents k = some d ∧ after.seq < d.seq)

theorem Marked.mono {after before : SyncCursor} {db : Db} {t : Tbl} {k : Key}
    (marked : Marked after db t k) (seq : before.seq ≤ after.seq)
    (cursor : before.cursor ≤ after.cursor) : Marked before db t k := by
  rcases marked with ⟨n, number, above⟩ | ⟨documents, d, found, above⟩
  · exact Or.inl ⟨n, number, Nat.lt_of_le_of_lt cursor above⟩
  · exact Or.inr ⟨documents, d, found, Nat.lt_of_le_of_lt seq above⟩

/-! ## Traced states -/

/-- Everything that differs in `db'` is marked above the counters of `db`. -/
structure Traced (db db' : Db) : Prop where
  rows : ∀ t k, db'.find t k = db.find t k ∨ Marked (counters db) db' t k
  numbers : ∀ key n, db.syncRows.numberOf key = some n →
    ∃ m, db'.syncRows.numberOf key = some m ∧ n ≤ m
  seqs : db.changes.counter ≤ db'.changes.counter
  cursors : db.syncRows.counter ≤ db'.syncRows.counter
  state : db'.state = db.state
  plugins : db'.plugins = db.plugins

namespace Traced

theorem refl (db : Db) : Traced db db where
  rows _ _ := Or.inl rfl
  numbers _ n number := ⟨n, number, Nat.le_refl _⟩
  seqs := Nat.le_refl _
  cursors := Nat.le_refl _
  state := rfl
  plugins := rfl

theorem trans {a b c : Db} (first : Traced a b) (second : Traced b c) : Traced a c where
  rows t k := by
    rcases second.rows t k with same | marked
    · rcases first.rows t k with same' | ⟨n, number, above⟩ | ⟨rfl, d, found, above⟩
      · exact Or.inl (same.trans same')
      · obtain ⟨m, number', le⟩ := second.numbers _ n number
        exact Or.inr (Or.inl ⟨m, number', Nat.lt_of_lt_of_le above le⟩)
      · exact Or.inr (Or.inr ⟨rfl, d, same.trans found, above⟩)
    · exact Or.inr (marked.mono first.seqs first.cursors)
  numbers key n number := by
    obtain ⟨m, number', le⟩ := first.numbers key n number
    obtain ⟨m', number'', le'⟩ := second.numbers key m number'
    exact ⟨m', number'', Nat.le_trans le le'⟩
  seqs := Nat.le_trans first.seqs second.seqs
  cursors := Nat.le_trans first.cursors second.cursors
  state := second.state.trans first.state
  plugins := second.plugins.trans first.plugins

/-- A change confined to keys that are touched is traced. -/
theorem of_touched {db db' : Db} (keys : List (Tbl × Key))
    (tracked : db'.syncRows = db.syncRows.touchAll keys) (frame : Db.Frame db db')
    (rows : ∀ t k, (t, k) ∉ keys → db'.find t k = db.find t k) : Traced db db' where
  rows t k := by
    by_cases mem : (t, k) ∈ keys
    · refine Or.inr (Or.inl ?_)
      rw [tracked]
      exact KeyedLog.numberOf_touchAll_of_mem keys _ mem
    · exact Or.inl (rows t k mem)
  numbers key n number := by
    rw [tracked]
    exact KeyedLog.numberOf_le_touchAll keys _ number
  seqs := by rw [frame.changes]
  cursors := by
    rw [tracked, KeyedLog.counter_touchAll]
    exact Nat.le_add_right _ _
  state := frame.state
  plugins := frame.plugins

/-- A change confined to one document that ends above the change log is traced. -/
theorem of_fresh {db db' : Db} (d : DocRow)
    (found : db'.find .documents (keyOf .documents d) = some d)
    (fresh : db.changes.counter < d.seq) (tracked : db'.syncRows = db.syncRows)
    (seqs : db.changes.counter ≤ db'.changes.counter)
    (state : db'.state = db.state) (plugins : db'.plugins = db.plugins)
    (frame : ∀ t k, (t, k) ≠ (.documents, keyOf .documents d) → db'.find t k = db.find t k) :
    Traced db db' where
  rows t k := by
    by_cases here : (t, k) = (.documents, keyOf .documents d)
    · obtain ⟨rfl, rfl⟩ := Prod.mk.inj here
      exact Or.inr (Or.inr ⟨rfl, d, found, fresh⟩)
    · exact Or.inl (frame t k here)
  numbers key n number := ⟨n, by rw [tracked, number], Nat.le_refl _⟩
  seqs := seqs
  cursors := by rw [tracked]
  state := state
  plugins := plugins

end Traced

/-! ## The statements of a tracking device are traced -/

section Statements

variable {db : Db} (on : db.state.tracking = true)

include on

theorem insertRow_traced {t : Tbl} (r : RowOf t) (other : t ≠ .documents) :
    Traced db (db.insertRow t r) := by
  apply Traced.of_touched [(t, keyOf t r)]
  · rw [Db.insertRow, Db.onInsert_eq _ _ other, Db.track_syncRows (by exact on)]
    rfl
  · exact Db.insertRow_frame db t r
  · intro t' k out
    exact Db.insertRow_find_ne db t r (by simpa using out)

theorem updateRow_traced {t : Tbl} {k : Key} (f : RowOf t → RowOf t) (other : t ≠ .documents) :
    Traced db (db.updateRow t k f) := by
  cases found : db.find t k with
  | none =>
      rw [Db.updateRow_none f found]
      exact Traced.refl db
  | some old =>
      have here : keyOf t old = k := Table.find_key found
      by_cases same : keyOf t (f old) = k
      · have body : db.updateRow t k f =
            (db.setTable t ((db.tables t).put (f old))).track t (keyOf t (f old)) := by
          simp only [Db.updateRow, found, if_pos same, Db.onUpdate_eq _ _ _ other, here]
          rw [if_pos same.symm]
        apply Traced.of_touched [(t, keyOf t (f old))]
        · rw [body, Db.track_syncRows (by exact on)]
          rfl
        · exact Db.updateRow_frame db t k f
        · intro t' k' out
          have ne : (t', k') ≠ (t, keyOf t (f old)) := by simpa using out
          exact Db.updateRow_find_ne f found (same ▸ ne) ne
      · have body : db.updateRow t k f =
            ((db.setTable t (((db.tables t).erase k).put (f old))).track t
              (keyOf t (f old))).track t k := by
          simp only [Db.updateRow, found, if_neg same, Db.onUpdate_eq _ _ _ other, here]
          rw [if_neg fun h => same h.symm]
        apply Traced.of_touched [(t, keyOf t (f old)), (t, k)]
        · rw [body, Db.track_syncRows (by rw [(Db.track_frame _ _ _).state]; exact on),
            Db.track_syncRows (by exact on)]
          rfl
        · exact Db.updateRow_frame db t k f
        · intro t' k' out
          simp only [List.mem_cons, List.not_mem_nil, or_false, not_or] at out
          exact Db.updateRow_find_ne f found out.2 out.1

/-- An update that keeps a document's number is found by its key. -/
theorem keepDocument_traced {k : Key} (f : DocRow → DocRow) (id : ∀ d, (f d).id = d.id)
    (seq : ∀ d, (f d).seq = d.seq) : Traced db (db.updateRow .documents k f) := by
  cases found : db.find .documents k with
  | none =>
      rw [Db.updateRow_none f found]
      exact Traced.refl db
  | some old =>
      have same : keyOf .documents (f old) = k := by
        rw [← Table.find_key found]
        simp [keyOf, id]
      have body : db.updateRow .documents k f =
          (db.setTable .documents ((db.tables .documents).put (f old))).track .documents
            (keyOf .documents (f old)) := by
        simp only [Db.updateRow, found, if_pos same, Db.onUpdate, seq, if_true]
      apply Traced.of_touched [(.documents, keyOf .documents (f old))]
      · rw [body, Db.track_syncRows (by exact on)]
        rfl
      · exact Db.updateRow_frame db .documents k f
      · intro t' k' out
        have ne : (t', k') ≠ (.documents, keyOf .documents (f old)) := by simpa using out
        exact Db.updateRow_find_ne f found (same ▸ ne) ne

theorem deleteKey_traced (t : Tbl) (k : Key) : Traced db (db.deleteKey t k) := by
  cases found : db.find t k with
  | none =>
      rw [Db.deleteKey, found]
      exact Traced.refl db
  | some old =>
      have body : db.deleteKey t k = (db.setTable t ((db.tables t).erase k)).track t k := by
        simp only [Db.deleteKey, found]
      apply Traced.of_touched [(t, k)]
      · rw [body, Db.track_syncRows (by exact on)]
        rfl
      · exact Db.deleteKey_frame db t k
      · intro t' k' out
        have ne : (t', k') ≠ (t, k) := by simpa using out
        rw [Db.deleteKey_find, if_neg ne]

theorem deleteKeys_traced (t : Tbl) (ks : List Key) :
    Traced db (ks.foldl (fun db k => db.deleteKey t k) db) := by
  induction ks generalizing db with
  | nil => exact Traced.refl db
  | cons k ks ih =>
      have first := deleteKey_traced on t k
      exact first.trans (ih (by rw [first.state, on]))

theorem cascade_traced (account : AccountId) : Traced db (db.cascade account) := by
  have through : ∀ (ts : List Tbl) (db : Db), db.state.tracking = true →
      Traced db (ts.foldl (fun db t => db.deleteChildren t account) db) := by
    intro ts
    induction ts with
    | nil => exact fun db _ => Traced.refl db
    | cons t ts ih =>
        intro db on
        have first : Traced db (db.deleteChildren t account) := deleteKeys_traced on t _
        exact first.trans (ih _ (by rw [first.state, on]))
  exact through accountChildren db on

theorem deleteRow_traced (t : Tbl) (k : Key) : Traced db (db.deleteRow t k) := by
  unfold Db.deleteRow
  split
  · rename_i id
    have first := cascade_traced on id
    exact first.trans (deleteKey_traced (by rw [first.state, on]) _ _)
  · exact deleteKey_traced on _ _

end Statements

/-! ## Runs of writes -/

/-- What a leader's database satisfies between two transactions: the foreign
keys hold, and no document is numbered above the change log. -/
structure Consistent (db : Db) : Prop where
  foreignKeys : db.foreignKeysHold = true
  seqs : ∀ k d, db.find .documents k = some d → d.seq ≤ db.changes.counter

/-- One write of a leader.  Inserts need a free key, an update that moves a key
needs the new one free, and the foreign keys hold afterwards. -/
inductive Write (db : Db) : Db → Prop
  /-- A change row alone, such as the tombstone of a purge. -/
  | logChange (kind : ChangeKind) (refId : String) (now : Time) :
      Write db (db.appendChange kind refId now)
  | insertDocument (d : DocRow) (now : Time)
      (free : db.find .documents (keyOf .documents d) = none)
      (seq : d.seq = db.nextSeq)
      (held : ((db.appendChange .document d.id now).insertRow .documents d).foreignKeysHold) :
      Write db ((db.appendChange .document d.id now).insertRow .documents d)
  | updateDocument (id : DocumentId) (f : DocRow → DocRow) (now : Time)
      (sameId : ∀ d, (f d).id = d.id)
      (seq : ∀ d, (f d).seq = db.nextSeq)
      (held : ((db.appendChange .document id now).updateRow .documents [.text id] f).foreignKeysHold) :
      Write db ((db.appendChange .document id now).updateRow .documents [.text id] f)
  | keepDocument (id : DocumentId) (f : DocRow → DocRow)
      (sameId : ∀ d, (f d).id = d.id)
      (seq : ∀ d, (f d).seq = d.seq)
      (held : (db.updateRow .documents [.text id] f).foreignKeysHold) :
      Write db (db.updateRow .documents [.text id] f)
  | insert (t : Tbl) (r : RowOf t) (other : t ≠ .documents)
      (free : db.find t (keyOf t r) = none)
      (held : (db.insertRow t r).foreignKeysHold) :
      Write db (db.insertRow t r)
  | update (t : Tbl) (k : Key) (f : RowOf t → RowOf t) (other : t ≠ .documents)
      (free : ∀ old, db.find t k = some old → keyOf t (f old) ≠ k →
        db.find t (keyOf t (f old)) = none)
      (held : (db.updateRow t k f).foreignKeysHold) :
      Write db (db.updateRow t k f)
  | delete (t : Tbl) (k : Key) : Write db (db.deleteRow t k)

/-- Any number of writes. -/
def Writes : Db → Db → Prop := Relation.ReflTransGen Write

theorem updateRow_documents_fresh {db : Db} {k : Key} (f : DocRow → DocRow)
    (sameId : ∀ d, (f d).id = d.id) {old : DocRow} (found : db.find .documents k = some old)
    (ne : (f old).seq ≠ old.seq) :
    db.updateRow .documents k f =
      db.setTable .documents ((db.tables .documents).put (f old)) := by
  have same : keyOf .documents (f old) = k := by
    rw [← Table.find_key found]
    simp [keyOf, sameId]
  simp only [Db.updateRow, found, if_pos same, Db.onUpdate, if_neg ne]

/-- **Every write of a consistent tracking device is traced.** -/
theorem Write.traced {db db' : Db} (write : Write db db') (on : db.state.tracking = true)
    (consistent : Consistent db) : Traced db db' := by
  cases write with
  | logChange kind refId now =>
      exact ⟨fun _ _ => Or.inl rfl, fun _ n number => ⟨n, number, Nat.le_refl _⟩,
        Nat.le_succ _, Nat.le_refl _, rfl, rfl⟩
  | insertDocument d now free seq held =>
      refine Traced.of_fresh d (Db.insertRow_find_self _ _ _) ?_ rfl (Nat.le_succ _) rfl rfl ?_
      · rw [seq]
        exact Nat.lt_succ_self _
      · intro t k ne
        exact Db.insertRow_find_ne _ _ _ ne
  | updateDocument id f now sameId seq held =>
      cases found : db.find .documents [.text id] with
      | none =>
          have missing : (db.appendChange .document id now).find .documents [.text id] = none :=
            found
          rw [Db.updateRow_none f missing]
          exact ⟨fun _ _ => Or.inl rfl, fun _ n number => ⟨n, number, Nat.le_refl _⟩,
            Nat.le_succ _, Nat.le_refl _, rfl, rfl⟩
      | some old =>
          have found' : (db.appendChange .document id now).find .documents [.text id] = some old :=
            found
          have fresh : db.changes.counter < (f old).seq := by
            rw [seq]
            exact Nat.lt_succ_self _
          have moved : (f old).seq ≠ old.seq :=
            Nat.ne_of_gt (Nat.lt_of_le_of_lt (consistent.seqs _ _ found) fresh)
          have here : keyOf .documents (f old) = [.text id] := by
            rw [← Table.find_key found]
            simp [keyOf, sameId]
          rw [updateRow_documents_fresh f sameId found' moved]
          refine Traced.of_fresh (f old) ?_ fresh rfl (Nat.le_succ _) rfl rfl ?_
          · rw [Db.find_setTable_self]
            exact Table.find_put_self _ _
          · intro t k ne
            rw [← updateRow_documents_fresh f sameId found' moved]
            exact Db.updateRow_find_ne f found' (here ▸ ne) ne
  | keepDocument id f sameId seq held => exact keepDocument_traced on f sameId seq
  | insert t r other free held => exact insertRow_traced on r other
  | update t k f other free held => exact updateRow_traced on f other
  | delete t k => exact deleteRow_traced on t k

/-- A document after a write was there under the same number, or its number is
within the change log. -/
theorem Write.seq_cases {db db' : Db} (write : Write db db') {k : Key} {d : DocRow}
    (found : db'.find .documents k = some d) :
    (∃ old, db.find .documents k = some old ∧ d.seq = old.seq) ∨ d.seq = db'.changes.counter := by
  have unmoved : db'.find .documents k = db.find .documents k →
      ∃ old, db.find .documents k = some old ∧ d.seq = old.seq := fun same =>
    ⟨d, same ▸ found, rfl⟩
  cases write with
  | logChange kind refId now => exact Or.inl ⟨d, found, rfl⟩
  | insertDocument new now free seq held =>
      by_cases here : k = keyOf .documents new
      · subst here
        obtain rfl : new = d := Option.some.inj ((Db.insertRow_find_self _ _ _).symm.trans found)
        exact Or.inr seq
      · exact Or.inl (unmoved (Db.insertRow_find_ne _ _ _ (by simpa using here)))
  | updateDocument id f now sameId seq held =>
      cases was : db.find .documents [.text id] with
      | none =>
          have was' : (db.appendChange .document id now).find .documents [.text id] = none := was
          rw [Db.updateRow_none f was'] at found
          exact Or.inl ⟨d, found, rfl⟩
      | some old =>
          have was' : (db.appendChange .document id now).find .documents [.text id] = some old :=
            was
          have same : keyOf .documents (f old) = [.text id] := by
            rw [← Table.find_key was]
            simp [keyOf, sameId]
          by_cases here : k = [.text id]
          · subst here
            have new := Db.updateRow_find_new f was'
            rw [same] at new
            obtain rfl := Option.some.inj (new.symm.trans found)
            exact Or.inr ((seq old).trans (by rw [(Db.updateRow_frame _ _ _ _).changes]; rfl))
          · have ne : ((Tbl.documents, k) : Tbl × Key) ≠ (.documents, [.text id]) := by
              simpa using here
            exact Or.inl (unmoved (Db.updateRow_find_ne f was' ne (same ▸ ne)))
  | keepDocument id f sameId seq held =>
      cases was : db.find .documents [.text id] with
      | none =>
          rw [Db.updateRow_none f was] at found
          exact Or.inl ⟨d, found, rfl⟩
      | some old =>
          have same : keyOf .documents (f old) = [.text id] := by
            rw [← Table.find_key was]
            simp [keyOf, sameId]
          by_cases here : k = [.text id]
          · subst here
            have new := Db.updateRow_find_new f was
            rw [same] at new
            obtain rfl := Option.some.inj (new.symm.trans found)
            exact Or.inl ⟨old, was, seq old⟩
          · have ne : ((Tbl.documents, k) : Tbl × Key) ≠ (.documents, [.text id]) := by
              simpa using here
            exact Or.inl (unmoved (Db.updateRow_find_ne f was ne (same ▸ ne)))
  | insert t r other free held =>
      exact Or.inl (unmoved (Db.insertRow_find_ne _ _ _ fun h => other (Prod.mk.inj h).1.symm))
  | update t k' f other free held =>
      cases was : db.find t k' with
      | none =>
          rw [Db.updateRow_none f was] at found
          exact Or.inl ⟨d, found, rfl⟩
      | some old =>
          exact Or.inl (unmoved (Db.updateRow_find_ne f was
            (fun h => other (Prod.mk.inj h).1.symm) fun h => other (Prod.mk.inj h).1.symm))
  | delete t k' => exact Or.inl ⟨d, Db.deleteRow_find_some found, rfl⟩

theorem Write.consistent {db db' : Db} (write : Write db db') (on : db.state.tracking = true)
    (consistent : Consistent db) : Consistent db' where
  foreignKeys := by
    cases write with
    | logChange kind refId now => exact consistent.foreignKeys
    | insertDocument d now free seq held => exact held
    | updateDocument id f now sameId seq held => exact held
    | keepDocument id f sameId seq held => exact held
    | insert t r other free held => exact held
    | update t k f other free held => exact held
    | delete t k => exact Db.foreignKeysHold_deleteRow consistent.foreignKeys t k
  seqs k d found := by
    rcases write.seq_cases found with ⟨old, was, same⟩ | newest
    · have grows := (write.traced on consistent).seqs
      exact same ▸ Nat.le_trans (consistent.seqs k old was) grows
    · exact Nat.le_of_eq newest

/-- **Every run of writes of a consistent tracking device is traced, and leaves
it consistent.** -/
theorem Writes.traced {db db' : Db} (writes : Writes db db') (on : db.state.tracking = true)
    (consistent : Consistent db) : Traced db db' ∧ Consistent db' := by
  induction writes with
  | refl => exact ⟨Traced.refl db, consistent⟩
  | tail _ write ih =>
      obtain ⟨before, held⟩ := ih
      have still : _ = true := before.state ▸ on
      exact ⟨before.trans (write.traced still held), write.consistent still held⟩

end Kiagent.Sync
