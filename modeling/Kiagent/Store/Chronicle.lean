/-
# Store.Chronicle -- the documents and the change log, as a chronicle

`chronicle` views a device's database as what `Theory.Tally` counts over: the members
are the documents, their groups the accounts, and the log is the change log.  `Told`
says of a write that it is a run of moves of that view, as a reader can follow them.

Every commit tells: it logs ahead of every reader what it does to a document or an
account.  A purge tells only when the reader has read the document's last change.
-/
import Kiagent.Store.Commit
import Kiagent.Store.Reconcile
import Kiagent.Theory.Tally

namespace Kiagent.Store

open Kiagent.Theory

set_option autoImplicit false

/-! ## The view -/

/-- What a row of the change log tells. -/
def eventOf (row : ChangeRow) : Tally.Event DocumentId AccountId :=
  match row.kind with
  | .document => .member row.refId
  | .purge => .purged row.refId
  | .account => .group row.refId
  | .accountRemoved => .dropped row.refId

def memberOf (d : DocRow) : Tally.Member AccountId :=
  ⟨d.accountId, d.ingestSeq.getD 0, d.seq, d.live⟩

def logOf (log : SeqLog ChangeRow) : Tally.Log DocumentId AccountId := fun n =>
  (lookup Prod.fst n log.entries).map fun e => eventOf e.2

/-- The document of an id. -/
def docOf (db : Db) (id : DocumentId) : Option DocRow := db.find .documents [.text id]

def hasAccount (db : Db) (account : AccountId) : Bool := (db.find .accounts [.text account]).isSome

def chronicle (db : Db) : Tally.Chronicle DocumentId AccountId where
  member id := (docOf db id).map memberOf
  group := hasAccount db
  log := logOf db.changes

/-- Ids are digests of natural keys, the account among them. -/
def home (deps : Deps) (id : DocumentId) (account : AccountId) : Prop :=
  ∃ r, id = documentId deps account r

theorem home_unique (deps : Deps) (id : DocumentId) (a b : AccountId) (first : home deps id a)
    (second : home deps id b) : a = b := by
  obtain ⟨r, rfl⟩ := first
  obtain ⟨r', same⟩ := second
  exact (documentId_injective deps same).1

/-! ### The log -/

theorem logOf_eq_some {log : SeqLog ChangeRow} {n : Nat} {e : Tally.Event DocumentId AccountId} :
    logOf log n = some e ↔ ∃ row, (n, row) ∈ log.entries ∧ eventOf row = e := by
  unfold logOf
  rw [Option.map_eq_some_iff]
  constructor
  · rintro ⟨⟨m, row⟩, found, rfl⟩
    obtain rfl : m = n := lookup_key found
    exact ⟨row, lookup_mem found, rfl⟩
  · rintro ⟨row, mem, rfl⟩
    exact ⟨(n, row), lookup_of_mem (log.ascending.imp Nat.ne_of_lt) mem, rfl⟩

theorem logOf_beyond (log : SeqLog ChangeRow) : (logOf log).Beyond log.next := by
  intro n e here
  obtain ⟨row, mem, -⟩ := logOf_eq_some.1 here
  exact Nat.lt_succ_of_le (log.below _ mem)

theorem logOf_le {log : SeqLog ChangeRow} {n : Nat} {e : Tally.Event DocumentId AccountId}
    (here : logOf log n = some e) : n ≤ log.counter :=
  Nat.le_of_lt_succ (logOf_beyond log n e here)

theorem logOf_append (log : SeqLog ChangeRow) (row : ChangeRow) :
    logOf (log.append row) = (logOf log).note log.next (eventOf row) := by
  funext n
  unfold logOf SeqLog.append Tally.Log.note
  rw [lookup_append, lookup_cons]
  by_cases here : n = log.next
  · subst here
    have free : lookup Prod.fst log.next log.entries = none :=
      lookup_eq_none_iff.2 fun e mem => Nat.ne_of_lt (Nat.lt_succ_of_le (log.below e mem))
    rw [free, if_pos rfl, Function.update_self]
    rfl
  · rw [if_neg (Ne.symm here), Function.update_of_ne here, lookup_nil, Option.or_none]

theorem logOf_free {log : SeqLog ChangeRow} {n : Nat} (free : logOf log n = none) :
    ∀ e ∈ log.entries, e.1 ≠ n := by
  rintro ⟨m, row⟩ mem rfl
  have taken := logOf_eq_some.2 ⟨row, mem, rfl⟩
  rw [free] at taken
  cases taken

/-- A row at a number of another device, where it is free. -/
theorem logOf_insertAt {log : SeqLog ChangeRow} {n : Nat} (row : ChangeRow)
    (free : logOf log n = none) : logOf (log.insertAt n row) = (logOf log).note n (eventOf row) := by
  funext m
  by_cases here : m = n
  · subst here
    rw [Tally.Log.note_self]
    obtain ⟨⟨k, row'⟩, mem, rfl⟩ := SeqLog.mem_insertEntry_self m row log.entries
    rcases SeqLog.mem_insertEntry _ mem with new | old
    · obtain ⟨-, rfl⟩ := Prod.mk.inj new
      exact logOf_eq_some.2 ⟨row', mem, rfl⟩
    · exact absurd rfl (logOf_free free _ old)
  · rw [Tally.Log.note, Function.update_of_ne here]
    refine Option.ext fun e => ?_
    rw [logOf_eq_some, logOf_eq_some]
    refine exists_congr fun row' => and_congr_left fun _ => ⟨fun mem => ?_, fun mem => ?_⟩
    · rcases SeqLog.mem_insertEntry _ mem with new | old
      · exact absurd (Prod.mk.inj new).1 here
      · exact old
    · exact SeqLog.mem_insertEntry_old _ _ _ mem

theorem logOf_insertAt_taken {log : SeqLog ChangeRow} {n : Nat} (row : ChangeRow)
    {e : Tally.Event DocumentId AccountId} (taken : logOf log n = some e) :
    logOf (log.insertAt n row) = logOf log := by
  obtain ⟨row', mem, -⟩ := logOf_eq_some.1 taken
  have same : (log.insertAt n row).entries = log.entries :=
    SeqLog.insertEntry_taken row log.entries log.ascending ⟨_, mem, rfl⟩
  unfold logOf
  rw [same]

/-! ### The rows -/

theorem docOf_id {db : Db} {id : DocumentId} {d : DocRow} (found : docOf db id = some d) :
    d.id = id := by
  have key : keyOf .documents d = [.text id] := Table.find_key found
  simpa [keyOf] using key

theorem docOf_mem {db : Db} {d : DocRow} (mem : d ∈ db.documents) : docOf db d.id = some d :=
  mem_documents.1 mem

theorem mem_of_docOf {db : Db} {id : DocumentId} {d : DocRow} (found : docOf db id = some d) :
    d ∈ db.documents :=
  Table.find_mem found

/-- The view is of these three only. -/
theorem chronicle_congr {db db' : Db} (documents : ∀ id, docOf db' id = docOf db id)
    (accounts : ∀ a, hasAccount db' a = hasAccount db a) (changes : db'.changes = db.changes) :
    chronicle db' = chronicle db := by
  unfold chronicle
  rw [funext documents, funext accounts, changes]

theorem docOf_of_tables {db db' : Db} (same : db'.tables .documents = db.tables .documents)
    (id : DocumentId) : docOf db' id = docOf db id := by
  rw [docOf, Db.find, same]
  rfl

theorem hasAccount_of_tables {db db' : Db} (same : db'.tables .accounts = db.tables .accounts)
    (a : AccountId) : hasAccount db' a = hasAccount db a := by
  rw [hasAccount, Db.find, same]
  rfl

/-! ### The view after a statement -/

/-- What a rewrite of a document keeps. -/
structure Rewritten (d d' : DocRow) : Prop where
  id : d'.id = d.id
  natural : d'.natural = d.natural
  ingestSeq : d'.ingestSeq = d.ingestSeq

theorem docOf_update {db : Db} {id : DocumentId} {d : DocRow} {f : DocRow → DocRow}
    (found : docOf db id = some d) (same : (f d).id = d.id) :
    docOf (db.updateRow .documents [.text id] f) = Function.update (docOf db) id (some (f d)) := by
  have key : keyOf .documents (f d) = [.text id] := by
    rw [keyOf, same, docOf_id found]
  funext x
  by_cases here : x = id
  · subst here
    rw [Function.update_self]
    have now := Db.updateRow_find_new (t := .documents) f found
    rwa [key] at now
  · have ne : ((Tbl.documents, [Cell.text x]) : Tbl × Key) ≠ (.documents, [.text id]) := by
      simpa using here
    rw [Function.update_of_ne here]
    exact Db.updateRow_find_ne (t := .documents) f found ne (key ▸ ne)

theorem docOf_insert (db : Db) (d : DocRow) :
    docOf (db.insertRow .documents d) = Function.update (docOf db) d.id (some d) := by
  funext x
  by_cases here : x = d.id
  · subst here
    rw [Function.update_self]
    exact Db.insertRow_find_self db .documents d
  · rw [Function.update_of_ne here]
    refine Db.insertRow_find_ne db .documents d ?_
    simpa [keyOf] using here

theorem docOf_delete (db : Db) (id : DocumentId) :
    docOf (db.deleteRow .documents [.text id]) = Function.update (docOf db) id none := by
  funext x
  have other : ∀ a, ((Tbl.documents, [Cell.text id]) : Tbl × Key) ≠ (.accounts, [.text a]) := by simp
  rw [docOf, Db.deleteRow_find_other db other]
  by_cases here : x = id
  · rw [here, if_pos rfl, Function.update_self]
  · rw [if_neg (by simpa using here), Function.update_of_ne here]
    rfl

theorem members_update (docs : DocumentId → Option DocRow) (id : DocumentId) (d : Option DocRow) :
    (fun x => (Function.update docs id d x).map memberOf) =
      Function.update (fun x => (docs x).map memberOf) id (d.map memberOf) := by
  funext x
  by_cases here : x = id
  · rw [here, Function.update_self, Function.update_self]
  · rw [Function.update_of_ne here, Function.update_of_ne here]

theorem chronicle_touch {db : Db} {id : DocumentId} {d : DocRow} {f : DocRow → DocRow} (now : Time)
    (found : docOf db id = some d) (kept : Rewritten d (f d)) :
    chronicle (touchDocument db id now f) =
      ⟨Function.update (chronicle db).member id (some (memberOf (f d))), hasAccount db,
        (chronicle db).log.note db.nextSeq (.member id)⟩ := by
  have documents : docOf (touchDocument db id now f) =
      Function.update (docOf db) id (some (f d)) :=
    docOf_update (show docOf (db.appendChange .document id now) id = some d from found) kept.id
  have accounts : hasAccount (touchDocument db id now f) = hasAccount db :=
    funext fun a => hasAccount_of_tables (touchDocument_tables (by simp) db id now f) a
  have log : logOf (touchDocument db id now f).changes =
      (logOf db.changes).note db.nextSeq (.member id) := by
    rw [touchDocument, (Db.updateRow_frame _ _ _ _).changes]
    exact logOf_append db.changes ⟨.document, id, now⟩
  unfold chronicle
  rw [documents, accounts, log, members_update]
  rfl

theorem chronicle_new (db : Db) (d : DocRow) (now : Time) :
    chronicle ((db.appendChange .document d.id now).insertRow .documents d) =
      ⟨Function.update (chronicle db).member d.id (some (memberOf d)), hasAccount db,
        (chronicle db).log.note db.nextSeq (.member d.id)⟩ := by
  have documents := docOf_insert (db.appendChange .document d.id now) d
  have accounts : hasAccount ((db.appendChange .document d.id now).insertRow .documents d) =
      hasAccount db :=
    funext fun a => hasAccount_of_tables (Db.insertRow_tables_ne _ _ _ (by simp)) a
  have log : logOf ((db.appendChange .document d.id now).insertRow .documents d).changes =
      (logOf db.changes).note db.nextSeq (.member d.id) := by
    rw [(Db.insertRow_frame _ _ _).changes]
    exact logOf_append db.changes ⟨.document, d.id, now⟩
  unfold chronicle
  rw [documents, accounts, log, members_update]
  rfl

theorem chronicle_purge (now : Time) (db : Db) (id : DocumentId) :
    chronicle (purgeDocument now db id) =
      ⟨Function.update (chronicle db).member id none, hasAccount db,
        (chronicle db).log.note db.nextSeq (.purged id)⟩ := by
  have documents : docOf (purgeDocument now db id) = Function.update (docOf db) id none :=
    docOf_delete db id
  have accounts : hasAccount (purgeDocument now db id) = hasAccount db := by
    funext a
    have other : ∀ b, ((Tbl.documents, [Cell.text id]) : Tbl × Key) ≠ (.accounts, [.text b]) := by
      simp
    show ((db.deleteRow .documents [.text id]).find .accounts [.text a]).isSome = _
    rw [Db.deleteRow_find_other db other, if_neg (by simp)]
    rfl
  have log : logOf (purgeDocument now db id).changes =
      (logOf db.changes).note db.nextSeq (.purged id) := by
    have same := (Db.deleteRow_frame db .documents [.text id]).changes
    refine (logOf_append (db.deleteRow .documents [.text id]).changes ⟨.purge, id, now⟩).trans ?_
    rw [same]
    rfl
  unfold chronicle
  rw [documents, accounts, log, members_update]
  rfl

/-! ## Writes that tell -/

def Hashed (deps : Deps) (db : Db) : Prop :=
  ∀ id d, docOf db id = some d → id = documentId deps d.accountId d.ref

/-- A device with a reader that has read up to `done` and holds the log up to `high`. -/
structure Ready (deps : Deps) (done high : Nat) (db : Db) : Prop where
  hashed : Hashed deps db
  sound : Tally.Sound (home deps) done (chronicle db)
  order : done ≤ high
  held : high ≤ db.changes.counter

/-- A reader that has read up to `done` and holds the log up to `high` can follow. -/
structure Told (deps : Deps) (done high : Nat) (db db' : Db) : Prop where
  moves : Tally.Moves (home deps) done high (chronicle db) (chronicle db')
  hashed : Hashed deps db → Hashed deps db'
  grows : db.changes.Grows db'.changes

theorem chronicle_finite (db : Db) : {id | ((chronicle db).member id).isSome}.Finite := by
  refine (List.finite_toSet (db.documents.map DocRow.id)).subset fun id there => ?_
  obtain ⟨m, there⟩ := Option.isSome_iff_exists.1 there
  obtain ⟨d, found, -⟩ := Option.map_eq_some_iff.1 there
  exact List.mem_map.2 ⟨d, mem_of_docOf found, docOf_id found⟩

/-- **A reader may start from any device** whose documents hang from its accounts and
are numbered within its log. -/
theorem Ready.start {deps : Deps} {db : Db} (hashed : Hashed deps db)
    (hang : ∀ d ∈ db.documents, hasAccount db d.accountId = true)
    (numbered : ∀ d ∈ db.documents, d.ingestSeq.getD 0 ≤ d.seq ∧ d.seq ≤ db.changes.head) :
    Ready deps db.changes.head db.changes.head db where
  hashed := hashed
  sound := by
    have doc : ∀ {id m}, (chronicle db).member id = some m →
        ∃ d ∈ db.documents, docOf db id = some d ∧ memberOf d = m := by
      intro id m there
      obtain ⟨d, found, same⟩ := Option.map_eq_some_iff.1 there
      exact ⟨d, mem_of_docOf found, found, same⟩
    refine Tally.Sound.start (chronicle_finite db) ?_ ?_ ?_
    · intro id m there
      obtain ⟨d, mem, -, rfl⟩ := doc there
      exact hang d mem
    · intro id m there
      obtain ⟨d, mem, found, rfl⟩ := doc there
      exact ⟨⟨d.ref, hashed id d found⟩, numbered d mem⟩
    · intro n e here
      obtain ⟨row, mem, -⟩ := logOf_eq_some.1 here
      exact SeqLog.le_head mem
  order := Nat.le_refl _
  held := SeqLog.head_le_counter _

namespace Told

variable {deps : Deps} {done high : Nat} {db db' : Db}

theorem ready (told : Told deps done high db db') (ready : Ready deps done high db) :
    Ready deps done high db' where
  hashed := told.hashed ready.hashed
  sound := Tally.Moves.sound (home_unique deps) ready.sound ready.order told.moves
  order := ready.order
  held := Nat.le_trans ready.held told.grows.counter

theorem refl (db : Db) : Told deps done high db db :=
  ⟨Relation.ReflTransGen.refl, id, SeqLog.Grows.refl _⟩

theorem trans {a b c : Db} (first : Told deps done high a b) (second : Told deps done high b c) :
    Told deps done high a c where
  moves := first.moves.trans second.moves
  hashed hashed := second.hashed (first.hashed hashed)
  grows := first.grows.trans second.grows

/-- A write the view does not show. -/
theorem of_quiet (documents : ∀ id, docOf db' id = docOf db id)
    (accounts : ∀ a, hasAccount db' a = hasAccount db a) (changes : db'.changes = db.changes) :
    Told deps done high db db' where
  moves := by
    rw [chronicle_congr documents accounts changes]
    exact Relation.ReflTransGen.refl
  hashed hashed id d found := hashed id d (documents id ▸ found)
  grows := by
    rw [changes]
    exact SeqLog.Grows.refl _

/-- Writes over a list tell when each does, whatever `P` they keep on the way. -/
theorem foldl {α : Type} (P : Db → Prop) (step : Db → α → Db) : (as : List α) →
    (∀ db, ∀ a ∈ as, Ready deps done high db → P db →
      Told deps done high db (step db a) ∧ P (step db a)) →
    ∀ db, Ready deps done high db → P db →
      Told deps done high db (as.foldl step db) ∧ P (as.foldl step db)
  | [], _, db, _, holds => ⟨refl db, holds⟩
  | a :: as, each, db, ready, holds => by
      obtain ⟨first, holds⟩ := each db a (List.mem_cons_self ..) ready holds
      obtain ⟨rest, holds⟩ := foldl P step as (fun db b mem => each db b (List.mem_cons_of_mem _ mem))
        (step db a) (first.ready ready) holds
      exact ⟨first.trans rest, holds⟩

theorem list {α : Type} {step : Db → α → Db}
    (each : ∀ {db}, Ready deps done high db → ∀ a, Told deps done high db (step db a)) (as : List α)
    (ready : Ready deps done high db) : Told deps done high db (as.foldl step db) :=
  (foldl (fun _ => True) step as (fun _ a _ ready _ => ⟨each ready a, trivial⟩) db ready trivial).1

/-! ### Documents -/

section Documents

variable (ready : Ready deps done high db)

include ready

theorem of_touch {id : DocumentId} {d : DocRow} {f : DocRow → DocRow} (now : Time)
    (found : docOf db id = some d) (kept : Rewritten d (f d)) (seq : (f d).seq = db.nextSeq) :
    Told deps done high db (touchDocument db id now f) where
  moves := by
    have there : (chronicle db).member id = some (memberOf d) := by
      show (docOf db id).map memberOf = _
      rw [found]
      rfl
    have beyond := logOf_beyond db.changes
    have low : d.seq ≤ db.changes.counter := by
      by_contra above
      have := ready.order
      have := ready.held
      have unread : done < d.seq := by omega
      exact above (logOf_le ((ready.sound.present id _ there).last unread))
    rw [chronicle_touch now found kept, ← seq]
    refine (Tally.Move.touched id _ _ there ?_ ?_ ?_ ?_ ?_).moves
    · exact congrArg Prod.fst kept.natural
    · exact congrArg (fun n => n.getD 0) kept.ingestSeq
    · rw [memberOf, seq]
      exact beyond.free
    · rw [memberOf, seq]
      exact Nat.lt_succ_of_le ready.held
    · rw [memberOf, memberOf, seq]
      exact Nat.lt_succ_of_le low
  hashed hashed := by
    intro x d' found'
    have documents : docOf (touchDocument db id now f) = Function.update (docOf db) id (some (f d)) :=
      docOf_update (show docOf (db.appendChange .document id now) id = some d from found) kept.id
    rw [documents] at found'
    by_cases here : x = id
    · subst here
      rw [Function.update_self] at found'
      obtain rfl := Option.some.inj found'
      have same := Prod.mk.inj kept.natural
      rw [same.1, same.2]
      exact hashed x d found
    · rw [Function.update_of_ne here] at found'
      exact hashed x d' found'
  grows := by
    rw [touchDocument, (Db.updateRow_frame _ _ _ _).changes]
    exact SeqLog.Grows.append _ _

theorem of_new {d : DocRow} (now : Time) (absent : docOf db d.id = none)
    (account : hasAccount db d.accountId = true) (hashed : d.id = documentId deps d.accountId d.ref)
    (seq : d.seq = db.nextSeq) (ingested : d.ingestSeq = some d.seq) :
    Told deps done high db ((db.appendChange .document d.id now).insertRow .documents d) where
  moves := by
    have beyond := logOf_beyond db.changes
    rw [chronicle_new, ← seq]
    refine (Tally.Move.inserted d.id (memberOf d) ?_ account ⟨d.ref, hashed⟩ ?_ ?_ ?_ ?_).moves
    · show (docOf db d.id).map memberOf = none
      rw [absent]
      rfl
    · show d.ingestSeq.getD 0 = d.seq
      rw [ingested]
      rfl
    · rw [memberOf, seq]
      exact beyond.free
    · rw [memberOf, seq]
      exact Nat.lt_succ_of_le ready.held
    · rw [memberOf, seq]
      exact beyond.later _ _
  hashed old := by
    intro x d' found
    rw [docOf_insert] at found
    by_cases here : x = d.id
    · subst here
      rw [Function.update_self] at found
      obtain rfl := Option.some.inj found
      exact hashed
    · rw [Function.update_of_ne here] at found
      exact old x d' found
  grows := by
    rw [(Db.insertRow_frame _ _ _).changes]
    exact SeqLog.Grows.append _ _

theorem of_upsert (now : Time) (account : AccountId) (input : DocumentInput)
    (there : hasAccount db account = true) :
    Told deps done high db (written (upsertDocument deps now account) db input) := by
  unfold written upsertDocument
  split
  case h_1 existing found =>
    split
    · exact refl db
    · exact of_touch ready now (docOf_mem (findDocRow_mem found).1) ⟨rfl, rfl, rfl⟩ rfl
  case h_2 missing =>
    refine of_new ready now ?_ there rfl rfl rfl
    -- the id is the digest of a natural key that no document has
    refine Option.eq_none_iff_forall_ne_some.2 fun d found => ?_
    obtain ⟨rfl, same⟩ := documentId_injective deps (ready.hashed _ d found)
    have natural : d.natural = (d.accountId, input.ref) := by rw [DocRow.natural, same]
    exact lookup_eq_none_iff.1 missing d (mem_of_docOf found) natural

theorem of_relink (now : Time) (account : AccountId) (pair : LinkPair) :
    Told deps done high db (written (relinkPair now account) db pair) := by
  unfold written relinkPair
  split
  case h_1 => exact refl db
  case h_2 child found =>
    dsimp only
    split
    · exact refl db
    · exact of_touch ready now (docOf_mem (findDocRow_mem found).1) ⟨rfl, rfl, rfl⟩ rfl

theorem of_enrich (now : Time) (e : EnrichInput) :
    Told deps done high db (written (enrichDocument deps now) db e) := by
  unfold written enrichDocument
  split
  case h_1 => exact refl db
  case h_2 row found =>
    have there : docOf db row.id = some row := docOf_mem (mem_of_docOf found)
    refine of_touch ready now there ?_ ?_ <;> unfold setEnriched <;> split
    · exact ⟨rfl, rfl, rfl⟩
    · exact ⟨rfl, rfl, rfl⟩
    · rfl
    · rfl

theorem of_archiveDocument (now : Time) {id : DocumentId} {d : DocRow}
    (found : docOf db id = some d) : Told deps done high db (archiveDocument now db id) :=
  of_touch ready now found ⟨rfl, rfl, rfl⟩ rfl

end Documents

/-- A touch keeps every document there. -/
theorem touch_there {id : DocumentId} {f : DocRow → DocRow} (now : Time) (same : ∀ d, (f d).id = d.id)
    {x : DocumentId} (there : (docOf db x).isSome) : (docOf (touchDocument db id now f) x).isSome := by
  cases found : docOf db id with
  | none =>
      have missing : (db.appendChange .document id now).find .documents [.text id] = none := found
      rw [touchDocument, Db.updateRow_none f missing]
      exact there
  | some d =>
      have documents : docOf (touchDocument db id now f) =
          Function.update (docOf db) id (some (f d)) :=
        docOf_update (show docOf (db.appendChange .document id now) id = some d from found) (same d)
      rw [documents]
      by_cases here : x = id
      · rw [here, Function.update_self]
        rfl
      · rw [Function.update_of_ne here]
        exact there

theorem archive_there {id x : DocumentId} (now : Time) (there : (docOf db x).isSome) :
    (docOf (archiveDocument now db id) x).isSome :=
  touch_there (f := setArchived db.nextSeq now) now (fun _ => rfl) there

/-- A list of writes that each keep the documents there and tell of one that is there. -/
theorem of_each (step : Db → DocumentId → Db)
    (tells : ∀ {db id}, Ready deps done high db → (docOf db id).isSome → Told deps done high db (step db id))
    (keeps : ∀ {db id x}, (docOf db x).isSome → (docOf (step db id) x).isSome)
    (ids : List DocumentId) (ready : Ready deps done high db) (there : ∀ id ∈ ids, (docOf db id).isSome) :
    Told deps done high db (ids.foldl step db) := by
  have all := foldl (fun db => ∀ id ∈ ids, (docOf db id).isSome) step ids
    (fun db id mem ready there => ⟨tells ready (there id mem), fun x mem => keeps (there x mem)⟩)
    db ready there
  exact all.1

theorem of_archiveDocuments (now : Time) (ids : List DocumentId) (ready : Ready deps done high db)
    (there : ∀ id ∈ ids, (docOf db id).isSome) :
    Told deps done high db (ids.foldl (archiveDocument now) db) := by
  refine of_each (archiveDocument now) (fun {db id} ready there => ?_) (archive_there now) ids ready
    there
  obtain ⟨d, found⟩ := Option.isSome_iff_exists.1 there
  exact of_archiveDocument ready now found

theorem liveChildren_there {parent x : DocumentId} (mem : x ∈ liveChildren db parent) :
    (docOf db x).isSome := by
  obtain ⟨d, here, rfl, -, -⟩ := liveChildren_iff.1 mem
  rw [docOf_mem here]
  rfl

/-- A document, then its live children. -/
theorem of_archiveRow (now : Time) {id : DocumentId} (ready : Ready deps done high db)
    (there : (docOf db id).isSome) : Told deps done high db (archiveRow now db id) := by
  obtain ⟨d, found⟩ := Option.isSome_iff_exists.1 there
  have first : Told deps done high db (archiveDocument now db id) :=
    of_archiveDocument ready now found
  exact first.trans (of_archiveDocuments now _ (first.ready ready) fun x => liveChildren_there)

theorem archiveRow_there {id x : DocumentId} (now : Time) (there : (docOf db x).isSome) :
    (docOf (archiveRow now db id) x).isSome := by
  have many : ∀ (ids : List DocumentId) (db : Db), (docOf db x).isSome →
      (docOf (ids.foldl (archiveDocument now) db) x).isSome := by
    intro ids
    induction ids with
    | nil => exact fun db there => there
    | cons id ids ih => exact fun db there => ih _ (archive_there now there)
  exact many _ _ (archive_there now there)

theorem of_archiveBatch (now : Time) (pick : List DocumentId) (ready : Ready deps done high db)
    (there : ∀ id ∈ pick, (docOf db id).isSome) :
    Told deps done high db (archiveBatch now db pick) :=
  of_each (archiveRow now) (of_archiveRow now) (archiveRow_there now) pick ready there

theorem of_archiveByRef (now : Time) (account : AccountId) (r : ExternalRef)
    (ready : Ready deps done high db) :
    Told deps done high db (written (archiveByRef now account) db r) := by
  unfold written archiveByRef
  split
  case h_1 => exact refl db
  case h_2 row found =>
    split
    · refine of_archiveRow now ready ?_
      rw [docOf_mem (findDocRow_mem found).1]
      rfl
    · exact refl db

/-- **A chunk of a reconcile pass tells.** -/
theorem of_chunk {now : Time} {account : AccountId} {startSeq limit : Nat} {pick : List DocumentId}
    {st : Staging} {r : Db × Staging × Bool} (ready : Ready deps done high db)
    (archived : reconcileArchiveChunk now account startSeq limit pick db st = some r) :
    Told deps done high db r.1 := by
  unfold reconcileArchiveChunk at archived
  split at archived
  · rename_i may
    obtain rfl := Option.some.inj archived
    refine of_archiveBatch now pick ready fun id mem => ?_
    have among := mayPick_mem (Bool.and_eq_true_iff.1 may).2 mem
    obtain ⟨d, here, rfl, -, -⟩ := mem_candidates.1 among
    rw [docOf_mem here]
    rfl
  · cases archived

/-! ### Accounts and commits -/

/-- An `account` change of an account that is there. -/
theorem of_account_change (now : Time) {id : AccountId} (ready : Ready deps done high db)
    (there : hasAccount db id = true) :
    Told deps done high db (db.appendChange .account id now) where
  moves := by
    have beyond := logOf_beyond db.changes
    have moved : Tally.Move (home deps) done high (chronicle db) _ :=
      .grouped id db.nextSeq beyond (Nat.lt_succ_of_le ready.held)
    have same : Function.update (chronicle db).group id true = (chronicle db).group := by
      rw [← there]
      exact Function.update_eq_self id (hasAccount db)
    have log : logOf (db.appendChange .account id now).changes =
        (chronicle db).log.note db.nextSeq (.group id) :=
      logOf_append db.changes ⟨.account, id, now⟩
    rw [same, ← log] at moved
    exact moved.moves
  hashed hashed := hashed
  grows := SeqLog.Grows.append _ _

theorem hasAccount_update {k : Key} {f : AccountRow → AccountRow} (same : ∀ a, (f a).id = a.id)
    (x : AccountId) : hasAccount (db.updateRow .accounts k f) x = hasAccount db x := by
  unfold hasAccount
  cases found : db.find .accounts k with
  | none => rw [Db.updateRow_none f found]
  | some old =>
      have key : keyOf .accounts old = k := Table.find_key found
      have kept : keyOf .accounts (f old) = k := by
        rw [← key, keyOf, keyOf, same]
      by_cases here : [Cell.text x] = k
      · have now := Db.updateRow_find_new (t := .accounts) f found
        rw [kept] at now
        rw [here, now, found]
        rfl
      · have ne : ((Tbl.accounts, [Cell.text x]) : Tbl × Key) ≠ (.accounts, k) := by
          simpa using here
        rw [Db.updateRow_find_ne (t := .accounts) f found ne (kept ▸ ne)]

theorem of_account_update {k : Key} {f : AccountRow → AccountRow} (same : ∀ a, (f a).id = a.id) :
    Told deps done high db (db.updateRow .accounts k f) :=
  of_quiet (docOf_of_tables (Db.updateRow_tables_ne _ _ _ _ (by simp))) (hasAccount_update same)
    (Db.updateRow_frame _ _ _ _).changes

section Commits

variable (ready : Ready deps done high db)

include ready

/-- A new account, or another row under its id. -/
theorem of_account_new (now : Time) (row : AccountRow) :
    Told deps done high db ((db.insertRow .accounts row).appendChange .account row.id now) where
  moves := by
    have beyond := logOf_beyond db.changes
    have moved : Tally.Move (home deps) done high (chronicle db) _ :=
      .grouped row.id db.nextSeq beyond (Nat.lt_succ_of_le ready.held)
    have frame := Db.insertRow_frame db .accounts row
    have log : logOf ((db.insertRow .accounts row).appendChange .account row.id now).changes =
        (logOf db.changes).note db.nextSeq (.group row.id) := by
      refine (logOf_append (db.insertRow .accounts row).changes ⟨.account, row.id, now⟩).trans ?_
      rw [frame.changes]
      rfl
    have accounts : hasAccount (db.insertRow .accounts row) =
        Function.update (hasAccount db) row.id true := by
      funext a
      by_cases here : a = row.id
      · rw [here, Function.update_self, hasAccount]
        exact Option.isSome_iff_exists.2 ⟨row, Db.insertRow_find_self db .accounts row⟩
      · rw [Function.update_of_ne here, hasAccount,
          Db.insertRow_find_ne db .accounts row (by simpa [keyOf] using here)]
        rfl
    have documents : docOf (db.insertRow .accounts row) = docOf db :=
      funext (docOf_of_tables (Db.insertRow_tables_ne _ _ _ (by simp)))
    have same : chronicle ((db.insertRow .accounts row).appendChange .account row.id now) =
        ⟨(chronicle db).member, Function.update (chronicle db).group row.id true,
          (chronicle db).log.note db.nextSeq (.group row.id)⟩ := by
      unfold chronicle
      rw [log]
      show Tally.Chronicle.mk (fun id => (docOf (db.insertRow .accounts row) id).map memberOf)
        (hasAccount (db.insertRow .accounts row)) _ = _
      rw [documents, accounts]
    rw [same]
    exact moved.moves
  hashed hashed id d found := by
    refine hashed id d ?_
    rw [← docOf_of_tables (Db.insertRow_tables_ne db .accounts row (by simp)) id]
    exact found
  grows := by
    show SeqLog.Grows _ ((db.insertRow .accounts row).changes.append _)
    rw [(Db.insertRow_frame _ _ _).changes]
    exact SeqLog.Grows.append _ _

omit ready in
theorem getOrCreateAccount_there (deps : Deps) (now : Time) (source identifier : String) (db : Db) :
    hasAccount (getOrCreateAccount deps now source identifier db).1
      (getOrCreateAccount deps now source identifier db).2 = true := by
  unfold getOrCreateAccount
  split
  case h_1 a found =>
    have mem := List.mem_of_find?_eq_some found
    exact Option.isSome_iff_exists.2 ⟨a, Table.find_of_mem mem⟩
  case h_2 =>
    exact Option.isSome_iff_exists.2 ⟨_, Db.insertRow_find_self db .accounts _⟩

theorem of_getOrCreateAccount (now : Time) (source identifier : String) :
    Told deps done high db (getOrCreateAccount deps now source identifier db).1 := by
  unfold getOrCreateAccount
  split
  · exact refl db
  · exact of_account_new ready now _

theorem of_upserts (now : Time) (account : AccountId) (inputs : List DocumentInput)
    (there : hasAccount db account = true) :
    Told deps done high db (inputs.foldl (written (upsertDocument deps now account)) db) ∧
      hasAccount (inputs.foldl (written (upsertDocument deps now account)) db) account = true := by
  refine foldl (fun db => hasAccount db account = true) _ inputs ?_ db ready there
  intro db input _ ready there
  refine ⟨of_upsert ready now account input there, ?_⟩
  rw [hasAccount_of_tables (upsertDocument_tables (by simp) deps now account db input)]
  exact there

theorem of_links (now : Time) (account : AccountId) (pairs : List LinkPair) :
    Told deps done high db (pairs.foldl (written (relinkPair now account)) db) :=
  list (fun ready => of_relink ready now account) pairs ready

theorem of_deletions (now : Time) (account : AccountId) (refs : List ExternalRef) :
    Told deps done high db (refs.foldl (written (archiveByRef now account)) db) :=
  list (fun ready r => of_archiveByRef now account r ready) refs ready

theorem of_enriches (now : Time) (es : List EnrichInput) :
    Told deps done high db (es.foldl (written (enrichDocument deps now)) db) :=
  list (fun ready => of_enrich ready now) es ready

theorem of_commitDocuments (now : Time) (account : AccountId) (b : AccountBatch) (last : Nat)
    (there : hasAccount db account = true) :
    Told deps done high db (commitDocuments deps now account b (db, last)).1 := by
  simp only [commitDocuments, foldLast_fst]
  have told : Told deps done high db _ := (of_upserts ready now account b.documents there).1
  have told := told.trans (of_links (told.ready ready) now account (parentPairs b.documents))
  have told := told.trans (of_links (told.ready ready) now account b.links)
  exact told.trans (of_deletions (told.ready ready) now account b.deleted)

omit ready in
theorem commitDocuments_account (now : Time) (account : AccountId) (b : AccountBatch)
    (s : Db × Nat) (a : AccountId) :
    hasAccount (commitDocuments deps now account b s).1 a = hasAccount s.1 a := by
  refine hasAccount_of_tables ?_ a
  have links : ∀ (pairs : List LinkPair) (db : Db),
      (pairs.foldl (written (relinkPair now account)) db).tables .accounts = db.tables .accounts :=
    foldl_tables _ (relinkPair_tables (by simp) now account)
  simp only [commitDocuments, foldLast_fst]
  rw [foldl_tables _ (archiveByRef_tables (by simp) now account), links, links,
    foldl_tables _ (upsertDocument_tables (by simp) deps now account)]

theorem of_commitAccount {now : Time} {publishedAt : Option Time} {b : AccountBatch} {r : Db × Nat}
    (committed : commitAccount deps now publishedAt b db = .ok r) : Told deps done high db r.1 := by
  unfold commitAccount at committed
  split at committed
  · cases committed
  · rename_i acc found
    have key : keyOf .accounts acc = [.text b.account] := Table.find_key found
    have same : acc.id = b.account := by simpa [keyOf] using key
    have there : hasAccount db acc.id = true := by
      rw [hasAccount, same, found]
      rfl
    obtain rfl := Except.ok.inj committed
    have told : Told deps done high db _ :=
      of_commitDocuments ready now acc.id b db.changes.head there
    refine Told.trans ?_ (of_account_update fun _ => rfl)
    split
    · refine told.trans (of_account_change now (told.ready ready) ?_)
      rw [commitDocuments_account]
      exact there
    · exact told

theorem of_consumer (now : Time) (b : ConsumerBatch) :
    Told deps done high db (commitConsumer deps now b db).1 := by
  have quiet : ∀ {db db' : Db}, db'.tables = db.tables → db'.changes = db.changes →
      Told deps done high db db' := fun tables changes =>
    of_quiet (docOf_of_tables (congrFun tables _)) (hasAccount_of_tables (congrFun tables _)) changes
  have cursor : ∀ db : Db,
      Told deps done high db ((b.cursor.map (setConsumer db b.consumer)).getD db) := by
    intro db
    cases b.cursor
    · exact refl db
    · exact quiet rfl rfl
  have seedCursor : ∀ db : Db,
      Told deps done high db ((b.seedCursor.map (setSeedCursor db b.consumer)).getD db) := by
    intro db
    cases b.seedCursor
    · exact refl db
    · exact quiet rfl rfl
  have ledger : ∀ (es : List LedgerEntry) (db : Db), Ready deps done high db →
      Told deps done high db (es.foldl (recordOutcome b.consumer) db) := fun es db ready =>
    list (fun {db} _ e => show Told deps done high db (recordOutcome b.consumer db e) from quiet rfl rfl)
      es ready
  unfold commitConsumer
  dsimp only
  rw [foldLast_fst]
  have told := (cursor db).trans (seedCursor _)
  have told := told.trans (ledger b.ledger _ (told.ready ready))
  generalize b.ledger.foldl (recordOutcome b.consumer) _ = recorded at told ⊢
  split
  · exact told.trans (of_enriches (told.ready ready) now _)
  · -- the documents go to the worker's own account
    rw [foldLast_fst, foldLast_fst]
    have there := getOrCreateAccount_there deps now "worker" b.consumer recorded
    have told := told.trans (of_getOrCreateAccount (told.ready ready) now "worker" b.consumer)
    generalize getOrCreateAccount deps now "worker" b.consumer recorded = synthetic at there told ⊢
    have told := told.trans (of_upserts (told.ready ready) now _ b.documents there).1
    have told := told.trans (of_links (told.ready ready) now synthetic.2 (parentPairs b.documents))
    exact told.trans (of_enriches (told.ready ready) now _)

omit ready in
/-- What is left once the documents of an account, and then the account, are deleted. -/
theorem removed_find (db : Db) (id : AccountId) (vault : Table VaultRow VaultRow.accountId) (t : Tbl)
    (k : Key) :
    (Db.deleteRow { db.deleteChildren .documents id with vault := vault } .accounts
        [.text id]).find t k =
      if (t, k) = (.accounts, [.text id]) then none
      else (db.find t k).filter fun r => !decide (accountOf t r = some id) := by
  rw [Db.deleteAccount_find]
  split
  · rfl
  · show ((db.deleteChildren .documents id).find t k).filter _ = _
    rw [Db.deleteChildren_find]
    cases found : db.find t k with
    | none => rfl
    | some r =>
        by_cases hangs : accountOf t r = some id <;> by_cases documents : t = .documents <;>
          simp [Option.filter, hangs, documents]

/-- The end of an account, from what it leaves. -/
theorem of_dropped (now : Time) (id : AccountId) {left : Db}
    (find : ∀ t k, left.find t k = if (t, k) = (.accounts, [.text id]) then none
      else (db.find t k).filter fun r => !decide (accountOf t r = some id))
    (changes : left.changes = db.changes) :
    Told deps done high db (left.appendChange .accountRemoved id now) := by
  have documents : ∀ x, docOf left x =
      (docOf db x).filter fun d => !decide (some d.accountId = some id) :=
    fun x => find .documents [.text x]
  have members : (fun x => (docOf left x).map memberOf) =
      fun x => ((chronicle db).member x).filter fun m => m.group ≠ id := by
    funext x
    rw [documents]
    show _ = ((docOf db x).map memberOf).filter _
    cases docOf db x with
    | none => rfl
    | some d => by_cases own : d.accountId = id <;> simp [Option.filter, memberOf, own]
  have accounts : hasAccount left = Function.update (hasAccount db) id false := by
    funext a
    rw [hasAccount, find]
    by_cases here : a = id
    · rw [here, if_pos rfl, Function.update_self]
      rfl
    · rw [if_neg (by simpa using here), Function.update_of_ne here, hasAccount]
      cases db.find .accounts [.text a] <;> rfl
  have log : logOf (left.appendChange .accountRemoved id now).changes =
      (logOf db.changes).note db.nextSeq (.dropped id) := by
    refine (logOf_append left.changes ⟨.accountRemoved, id, now⟩).trans ?_
    rw [changes]
    rfl
  have same : chronicle (left.appendChange .accountRemoved id now) =
      ⟨fun x => ((chronicle db).member x).filter fun m => m.group ≠ id,
        Function.update (chronicle db).group id false,
        (chronicle db).log.note db.nextSeq (.dropped id)⟩ := by
    unfold chronicle
    rw [log]
    show Tally.Chronicle.mk (fun x => (docOf left x).map memberOf) (hasAccount left) _ = _
    rw [members, accounts]
    rfl
  constructor
  case moves =>
    rw [same]
    exact (Tally.Move.dropped id db.nextSeq (logOf_beyond db.changes)
      (Nat.lt_succ_of_le ready.held)).moves
  case hashed =>
    intro hashed x d found
    have found : docOf left x = some d := found
    rw [documents] at found
    exact hashed x d (Option.filter_eq_some_iff.1 found).1
  case grows =>
    show SeqLog.Grows _ (left.changes.append _)
    rw [changes]
    exact SeqLog.Grows.append _ _

/-- **The removal of an account tells.** -/
theorem of_removeAccount (now : Time) (id : AccountId) :
    Told deps done high db (removeAccount now id db).1 := by
  unfold removeAccount
  split
  · exact refl db
  · exact of_dropped ready now id (removed_find db id _)
      ((Db.deleteRow_frame _ _ _).changes.trans (Db.deleteChildren_frame db .documents id).changes)

end Commits

/-! ### Purges -/

theorem of_purgeDocument (now : Time) (ready : Ready deps done high db) {id : DocumentId} {d : DocRow}
    (found : docOf db id = some d) (dead : d.live = false) (read : d.seq ≤ done) :
    Told deps done high db (purgeDocument now db id) where
  moves := by
    have there : (chronicle db).member id = some (memberOf d) := by
      show (docOf db id).map memberOf = _
      rw [found]
      rfl
    rw [chronicle_purge]
    exact (Tally.Move.purged id (memberOf d) db.nextSeq there dead read (logOf_beyond db.changes)
      (Nat.lt_succ_of_le ready.held)).moves
  hashed hashed x d' found' := by
    have found' : docOf (db.deleteRow .documents [.text id]) x = some d' := found'
    rw [docOf_delete] at found'
    by_cases here : x = id
    · rw [here, Function.update_self] at found'
      cases found'
    · rw [Function.update_of_ne here] at found'
      exact hashed x d' found'
  grows := by
    show SeqLog.Grows _ ((db.deleteRow .documents [.text id]).changes.append _)
    rw [(Db.deleteRow_frame _ _ _).changes]
    exact SeqLog.Grows.append _ _

/-- **A purge tells when the reader has read the last change of all it deletes.** -/
theorem of_purge (now before : Time) (ready : Ready deps done high db)
    (read : ∀ d ∈ db.documents, d.archivedAt.any (· < before) = true → d.seq ≤ done) :
    Told deps done high db (purgeArchived now before db).1 := by
  -- over the ids that are left, each still there as it was
  have all : ∀ (ids : List DocumentId) (db : Db), ids.Nodup → Ready deps done high db →
      (∀ id ∈ ids, ∃ d, docOf db id = some d ∧ d.live = false ∧ d.seq ≤ done) →
      Told deps done high db (ids.foldl (purgeDocument now) db) := by
    intro ids
    induction ids with
    | nil => exact fun db _ _ _ => refl db
    | cons id ids ih =>
        intro db distinct ready there
        rw [List.nodup_cons] at distinct
        obtain ⟨d, found, dead, read⟩ := there id (List.mem_cons_self ..)
        have first := of_purgeDocument now ready found dead read
        refine first.trans (ih _ distinct.2 (first.ready ready) fun x mem => ?_)
        obtain ⟨d', found', rest⟩ := there x (List.mem_cons_of_mem _ mem)
        have ne : x ≠ id := fun same => distinct.1 (same ▸ mem)
        refine ⟨d', ?_, rest⟩
        show docOf (db.deleteRow .documents [.text id]) x = some d'
        rw [docOf_delete, Function.update_of_ne ne]
        exact found'
  refine all _ db ?_ ready fun id mem => ?_
  · have keys := (db.tables .documents).nodup
    have same : (db.tables .documents).rows.map (keyOf .documents) =
        (db.documents.map DocRow.id).map fun id => [Cell.text id] := by
      rw [List.map_map]
      rfl
    rw [same] at keys
    exact keys.of_map.sublist (List.filter_sublist.map _)
  · obtain ⟨d, picked, rfl⟩ := List.mem_map.1 mem
    obtain ⟨there, old⟩ := List.mem_filter.1 picked
    refine ⟨d, docOf_mem there, ?_, read d there old⟩
    obtain ⟨at_, archived, -⟩ := (Option.any_eq_true _ _).1 old
    rw [DocRow.live, archived]
    rfl

/-- **Every commit tells**, but for a purge of what the reader has not read. -/
theorem of_commitTx {now : Time} {publishedAt : Option Time} {batch : CommitBatch} {r : Db × Nat}
    (ready : Ready deps done high db)
    (read : ∀ before, batch = .purgeArchived before →
      ∀ d ∈ db.documents, d.archivedAt.any (· < before) = true → d.seq ≤ done)
    (committed : commitTx deps now publishedAt batch db = .ok r) : Told deps done high db r.1 := by
  cases batch with
  | account b => exact of_commitAccount ready committed
  | consumer b =>
      obtain rfl := Except.ok.inj committed
      exact of_consumer ready now b
  | removeAccount id =>
      obtain rfl := Except.ok.inj committed
      exact of_removeAccount ready now id
  | purgeArchived before =>
      obtain rfl := Except.ok.inj committed
      exact of_purge now before ready (read before rfl)

end Told

end Kiagent.Store
