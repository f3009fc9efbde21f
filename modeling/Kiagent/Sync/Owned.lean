/-
# Sync.Owned -- a forwarded owner batch, whole and split

An owner commits its batch locally and queues it for the leader, split so that
every piece stays under a bound (`splitBatch`).  The leader commits the pieces
one by one (`runCommitBatch`).  Only the last piece carries the cursor, the
deletions and the links.

A piece resolves its own parents only, so a cut is not always neutral.
`split_neutral_iff` says exactly when it is: for every document that is linked
by the batch's parents alone, the parent must be known by the piece that names
it -- `LinkKept`.
-/
import Kiagent.Store.Commit

namespace Kiagent.Sync

open Kiagent.Theory
open Kiagent.Store

set_option autoImplicit false

/-- The sources that run on their owner and on no other device. -/
def deviceOwnedSources : List String :=
  ["local-folder", "meetings", "assistant", "whatsapp", "claude-code", "codex"]

/-! ## Splitting -/

/-- 16 MiB: the cap on a forwarded request. -/
def maxBatchBytes : Nat := 16 * 1024 * 1024

/-- `cur` is the piece in the making, `size` its documents' bytes. -/
def cutDocuments (budget : Nat) (cur : List DocumentInput) (size : Nat) :
    List DocumentInput → List (List DocumentInput)
  | [] => if cur = [] then [] else [cur]
  | d :: ds =>
      let n := jsonDocLength d + 1
      if cur ≠ [] ∧ size + n > budget then cur :: cutDocuments budget [d] n ds
      else cutDocuments budget (cur ++ [d]) (size + n) ds

/-- A piece that is not the last: documents only. -/
def piecePart (account : AccountId) (documents : List DocumentInput) : AccountBatch where
  account := account
  documents := documents
  deletions := none
  cursor := none
  status := none
  progress := none
  error := none
  errorScope := none
  relink := none

/-- Only the last piece carries the tail of the batch. -/
def attachTail (b : AccountBatch) : List (List DocumentInput) → List AccountBatch
  | [] => []
  | [docs] => [{ b with documents := docs }]
  | docs :: rest => piecePart b.account docs :: attachTail b rest

/-- Room for the envelope around the documents. -/
def documentBudget (b : AccountBatch) (maxBytes : Nat) : Nat :=
  max 1 (maxBytes - jsonBatchLength { b with documents := [] })

/-- The documents of the pieces of an account batch. -/
def splitDocuments (b : AccountBatch) (maxBytes : Nat) : List (List DocumentInput) :=
  if b.documents.length < 2 ∨ jsonBatchLength b ≤ maxBytes then [b.documents]
  else cutDocuments (documentBudget b maxBytes) [] 0 b.documents

def splitBatch (batch : CommitBatch) (maxBytes : Nat) : List CommitBatch :=
  match batch with
  | .account b => (attachTail b (splitDocuments b maxBytes)).map CommitBatch.account
  | batch => [batch]

/-! ## The leader's side -/

/-- `SELECT id FROM accounts WHERE source = ? AND identifier = ?`. -/
def accountNamed (db : Db) (a : OwnedAccount) : Option AccountRow :=
  (db.rows .accounts).find? fun (row : AccountRow) =>
    row.source = a.source ∧ row.identifier = a.identifier

/-- The row an owner's account gets on the leader: it rests as `paused`. -/
def ownedRow (a : OwnedAccount) (now : Time) : AccountRow where
  id := a.id
  source := a.source
  identifier := a.identifier
  config := a.config
  status := "paused"
  cursor := none
  progress := none
  lastSyncAt := none
  lastError := none
  cadence := a.cadence
  createdAt := now
  ownerDeviceId := a.ownerDeviceId

/-- The account's id on this device, and its row if it was missing. -/
def ensureAccount (a : OwnedAccount) (now : Time) (db : Db) :
    Except CommitError (Db × AccountId) :=
  match accountNamed db a with
  | some row => .ok (db, row.id)
  | none =>
      match db.find .accounts [.text a.id] with
      | some _ => .error (.accountTaken a.id)
      | none => .ok (db.insertRow .accounts (ownedRow a now), a.id)

/-- `{ ...batch, account: id }`: only an account batch reads the field. -/
def moveBatch (id : AccountId) : CommitBatch → CommitBatch
  | .account b => .account { b with account := id }
  | batch => batch

def runCommitBatch (deps : Deps) (tick : Tick) (input : CommitInput) (db : Db) :
    Except CommitError Db :=
  match input.batch with
  | .removeAccount _ =>
      match accountNamed db input.account with
      | none => .ok db
      | some row =>
          (commitTx deps tick.now tick.publishedAt (.removeAccount row.id) db).map Prod.fst
  | batch => do
      let ready ← ensureAccount input.account tick.now db
      (commitTx deps tick.now tick.publishedAt (moveBatch ready.2 batch) ready.1).map Prod.fst

/-- The deliveries of one owner, in order, each at its own tick. -/
def runDeliveries (deps : Deps) (tick : Nat → Tick) : Nat → List CommitInput → Db →
    Except CommitError Db
  | _, [], db => .ok db
  | i, input :: inputs, db => do
      let landed ← runCommitBatch deps (tick i) input db
      runDeliveries deps tick (i + 1) inputs landed

/-! ## Pieces and the whole -/

theorem cutDocuments_flatten (budget : Nat) : (ds cur : List DocumentInput) → (size : Nat) →
    (cutDocuments budget cur size ds).flatten = cur ++ ds
  | [], cur, size => by
      rw [cutDocuments]
      split
      · simp_all
      · simp
  | d :: ds, cur, size => by
      rw [cutDocuments]
      split
      · rw [List.flatten_cons, cutDocuments_flatten budget ds]
        rfl
      · rw [cutDocuments_flatten budget ds, List.append_assoc]
        rfl

/-- **The pieces hold the batch's documents, in order.** -/
theorem splitDocuments_flatten (b : AccountBatch) (maxBytes : Nat) :
    (splitDocuments b maxBytes).flatten = b.documents := by
  rw [splitDocuments]
  split
  · simp
  · exact cutDocuments_flatten _ _ _ _

theorem splitDocuments_ne_nil (b : AccountBatch) (maxBytes : Nat) :
    splitDocuments b maxBytes ≠ [] := by
  intro none
  have joined := splitDocuments_flatten b maxBytes
  have whole := none
  rw [none] at joined
  rw [splitDocuments, if_pos (.inl (by rw [← joined]; simp))] at whole
  exact List.cons_ne_nil _ _ whole

/-- What a batch does after its documents are in: the links, then the deletions. -/
def closing (account : AccountId) (b : AccountBatch) (V : Corpus) : Corpus :=
  b.deleted.foldl (Corpus.archive account) (b.links.foldl (Corpus.relink account) V)

theorem commit_attachTail (deps : Deps) (account : AccountId) (b : AccountBatch) :
    (slices : List (List DocumentInput)) → (V : Corpus) → slices ≠ [] →
    (attachTail b slices).foldl (fun V b => Corpus.commit deps account b V) V =
      closing account b (V.pieces deps account slices)
  | [], _, nonempty => absurd rfl nonempty
  | [_], _, _ => rfl
  | docs :: next :: rest, V, _ => by
      rw [attachTail, List.foldl_cons, commit_attachTail deps account b (next :: rest) _ (by simp)]
      · rfl
      · simp

theorem cursor_attachTail (b : AccountBatch) : (slices : List (List DocumentInput)) →
    (old : Option String) → slices ≠ [] →
    (attachTail b slices).foldl (fun _ b => some (storedBatchCursor b)) old =
      some (storedBatchCursor b)
  | [], _, nonempty => absurd rfl nonempty
  | [_], _, _ => rfl
  | docs :: next :: rest, old, _ => by
      rw [attachTail, List.foldl_cons, cursor_attachTail b (next :: rest) _ (by simp)]
      simp

/-! ## Where a cut is neutral -/

section Neutral

variable (deps : Deps) (account : AccountId)

/-- A document is in the store, or among `ds`. -/
def Known (V : Corpus) (ds : List DocumentInput) (r : ExternalRef) : Prop :=
  (V (account, r)).isSome = true ∨ docsAt r ds ≠ []

/-- A later document writes over the row the last document of the piece left. -/
def Rewritten (r : ExternalRef) (piece later : List DocumentInput) : Prop :=
  ∃ last d, (docsAt r piece).getLast? = some last ∧ d ∈ docsAt r later ∧
    contentHash deps d ≠ contentHash deps last

/-- The link of a reference survives the cut: the batch links it anew at its end,
or the last piece that links it knows the parent, if anyone does, and no later
document of the reference writes over the link. -/
def LinkKept (V : Corpus) (b : AccountBatch) (slices : List (List DocumentInput))
    (r : ExternalRef) : Prop :=
  lastLink r b.links ≠ none ∨
  ∀ before piece after parent, slices = before ++ piece :: after →
    lastLink r (parentPairs piece) = some parent →
    lastLink r (parentPairs after.flatten) = none →
    Known account V slices.flatten parent →
      Known account V (before.flatten ++ piece) parent ∧ ¬ Rewritten deps r piece after.flatten

theorem parentPairs_append (ds es : List DocumentInput) :
    parentPairs (ds ++ es) = parentPairs ds ++ parentPairs es :=
  List.filterMap_append

theorem lastLink_append (r : ExternalRef) : (ps qs : List LinkPair) →
    lastLink r (ps ++ qs) = (lastLink r qs).or (lastLink r ps)
  | [], qs => by simp [lastLink]
  | p :: ps, qs => by
      rw [List.cons_append, lastLink, lastLink, lastLink_append r ps, Option.or_assoc]

/-- A linked reference has a last piece that links it. -/
theorem exists_last_linking {r : ExternalRef} : {slices : List (List DocumentInput)} →
    lastLink r (parentPairs slices.flatten) ≠ none →
    ∃ before piece after parent, slices = before ++ piece :: after ∧
      lastLink r (parentPairs piece) = some parent ∧
      lastLink r (parentPairs after.flatten) = none
  | [], linked => absurd rfl linked
  | piece :: slices, linked => by
      by_cases later : lastLink r (parentPairs slices.flatten) = none
      · rw [List.flatten_cons, parentPairs_append, lastLink_append, later, Option.none_or] at linked
        obtain ⟨parent, here⟩ := Option.ne_none_iff_exists'.1 linked
        exact ⟨[], piece, slices, parent, rfl, here, later⟩
      · obtain ⟨before, last, after, parent, rfl, here, none⟩ := exists_last_linking later
        exact ⟨piece :: before, last, after, parent, rfl, here, none⟩

/-- An overwrite by a document without a parent leaves no parent. -/
theorem run_parent_none (r : ExternalRef) : (ds : List DocumentInput) → {x : Option DocView} →
    x.bind DocView.parentId = none →
    ((rowWrites deps account r).run ds x).bind DocView.parentId = none
  | [], _, orphan => orphan
  | d :: ds, x, orphan => by
      rw [Overwrite.run_cons]
      refine run_parent_none r ds ?_
      unfold Overwrite.step
      split
      · exact orphan
      · rfl

/-- A run that finds another tag leaves no parent. -/
theorem run_rewrites (r : ExternalRef) : {ds : List DocumentInput} → {x : Option DocView} →
    (∃ d ∈ ds, (rowWrites deps account r).key x ≠ some ((rowWrites deps account r).tag d)) →
    ((rowWrites deps account r).run ds x).bind DocView.parentId = none
  | [], _, other => by obtain ⟨_, mem, _⟩ := other; cases mem
  | d :: ds, x, other => by
      rw [Overwrite.run_cons]
      by_cases here : (rowWrites deps account r).key x = some ((rowWrites deps account r).tag d)
      · rw [Overwrite.step_of_key _ here]
        obtain ⟨e, mem, ne⟩ := other
        rcases List.mem_cons.1 mem with rfl | later
        · exact absurd here ne
        · exact run_rewrites r ⟨e, later, ne⟩
      · rw [Overwrite.step_of_ne _ here]
        exact run_parent_none deps account r ds rfl

/-- The id a reference has once the documents `ds` are in. -/
def idAfter (V : Corpus) (ds : List DocumentInput) (r : ExternalRef) : Option DocumentId :=
  (V.parentId account (some r)).or
    (if docsAt r ds = [] then none else some (documentId deps account r))

theorem idAfter_eq_none {V : Corpus} {ds : List DocumentInput} {r : ExternalRef} :
    idAfter deps account V ds r = none ↔ ¬ Known account V ds r := by
  simp only [idAfter, Known, Corpus.parentId, Option.bind_some]
  cases V (account, r) <;> by_cases absent : docsAt r ds = [] <;> simp [absent]

/-- Two ids of one reference only differ when one side does not know it. -/
theorem idAfter_eq_iff {V : Corpus} {ds es : List DocumentInput} {r : ExternalRef}
    (covers : Known account V ds r → Known account V es r) :
    idAfter deps account V ds r = idAfter deps account V es r ↔
      (Known account V es r → Known account V ds r) := by
  simp only [idAfter, Known, Corpus.parentId, Option.bind_some] at covers ⊢
  cases there : V (account, r) <;> by_cases absent : docsAt r ds = [] <;>
    by_cases absent' : docsAt r es = [] <;> simp_all

variable {deps account}

/-- The row a piece leaves carries the hash of its last document. -/
theorem key_piece {V : Corpus} {piece : List DocumentInput} {r : ExternalRef}
    {last : DocumentInput} (ends : (docsAt r piece).getLast? = some last) :
    (rowWrites deps account r).key (V.piece deps account piece (account, r)) =
      some (contentHash deps last) := by
  have ran := (rowWrites deps account r).key_run ends (V (account, r))
  have keyLinked : ∀ p x, (rowWrites deps account r).key (linked p x) =
      (rowWrites deps account r).key x := fun p x => by cases x <;> rfl
  rw [Corpus.piece_row]
  split
  · exact ran
  · rw [keyLinked]
    exact ran

/-- **The parent a split leaves, against the parent of the whole.**  `piece` is
the last piece that links `r`. -/
theorem parents_eq_iff {V : Corpus} {before after : List (List DocumentInput)}
    {piece : List DocumentInput} {r parent : ExternalRef}
    (here : lastLink r (parentPairs piece) = some parent)
    (later : lastLink r (parentPairs after.flatten) = none) :
    (V.pieces deps account (before ++ piece :: after) (account, r)).bind DocView.parentId =
        (V.piece deps account (before ++ piece :: after).flatten (account, r)).bind
          DocView.parentId ↔
      (Known account V (before ++ piece :: after).flatten parent →
        Known account V (before.flatten ++ piece) parent ∧
          ¬ Rewritten deps r piece after.flatten) := by
  generalize hall : (before ++ piece :: after).flatten = all
  have joined : all = before.flatten ++ piece ++ after.flatten := by simp [← hall]
  have docs : docsAt r piece ≠ [] := by
    intro none
    have orphan := lastLink_eq_none.2 fun d (mem : d ∈ docsAt r piece) => by rw [none] at mem; cases mem
    rw [here] at orphan
    cases orphan
  obtain ⟨last, ends⟩ := Option.ne_none_iff_exists'.1 (mt List.getLast?_eq_none_iff.1 docs)
  -- The whole links `r` to `parent` too, among all the documents.
  have whole : (V.piece deps account all (account, r)).bind DocView.parentId =
      idAfter deps account V all parent := by
    have link : lastLink r (parentPairs all) = some parent := by
      rw [joined, parentPairs_append, parentPairs_append, lastLink_append, lastLink_append, later,
        here]
      rfl
    have some_row : ∃ v, (rowWrites deps account r).run (docsAt r all) (V (account, r)) = some v := by
      have all_ends : (docsAt r all).getLast? ≠ none := by
        rw [Ne, List.getLast?_eq_none_iff, joined, docsAt_append, docsAt_append]
        simp [docs]
      obtain ⟨x, all_last⟩ := Option.ne_none_iff_exists'.1 all_ends
      have key := (rowWrites deps account r).key_run all_last (V (account, r))
      cases row : (rowWrites deps account r).run (docsAt r all) (V (account, r)) with
      | none => rw [row] at key; cases key
      | some v => exact ⟨v, rfl⟩
    obtain ⟨v, row⟩ := some_row
    rw [Corpus.piece_row, link]
    simp only [row, linked, Option.map_some, Option.bind_some]
    exact Corpus.piece_id deps account V all parent
  -- The split has linked it by the end of `piece`; the rest are overwrites.
  generalize hmid : (V.pieces deps account before).piece deps account piece = mid
  have split : V.pieces deps account (before ++ piece :: after) (account, r) =
      (rowWrites deps account r).run (docsAt r after.flatten) (mid (account, r)) := by
    rw [Corpus.pieces_append, ← hmid]
    exact Corpus.pieces_orphan deps account r after _ (lastLink_eq_none.1 later)
  have key : (rowWrites deps account r).key (mid (account, r)) = some (contentHash deps last) := by
    rw [← hmid]
    exact key_piece ends
  rw [whole, split]
  by_cases rewritten : Rewritten deps r piece after.flatten
  · obtain ⟨last', d, ends', mem, ne⟩ := rewritten
    obtain rfl : last = last' := Option.some.inj (ends.symm.trans ends')
    have gone := run_rewrites deps account r (x := mid (account, r))
      ⟨d, mem, by rw [key]; exact fun same => ne (Option.some.inj same).symm⟩
    rw [gone, eq_comm, idAfter_eq_none]
    constructor
    · exact fun unknown known => absurd known unknown
    · exact fun kept known => (kept known).2 ⟨last, d, ends, mem, ne⟩
  · have still : (rowWrites deps account r).run (docsAt r after.flatten) (mid (account, r)) =
        mid (account, r) := by
      refine (rowWrites deps account r).run_of_tags fun d mem => ?_
      rw [key]
      by_contra ne
      exact rewritten ⟨last, d, ends, mem, fun same => ne (congrArg some same.symm)⟩
    have linkedRow : (mid (account, r)).bind DocView.parentId =
        idAfter deps account V (before.flatten ++ piece) parent := by
      obtain ⟨v, row⟩ : ∃ v, mid (account, r) = some v := by
        cases row : mid (account, r) with
        | none => rw [row] at key; cases key
        | some v => exact ⟨v, rfl⟩
      have linkedId := Corpus.pieces_id deps account parent (before ++ [piece]) V
      rw [Corpus.pieces_append] at linkedId
      have at_r := Corpus.piece_row deps account (V.pieces deps account before) piece r
      rw [here] at at_r
      simp only [hmid] at at_r
      rw [row] at at_r ⊢
      obtain ⟨w, -, rfl⟩ := Option.map_eq_some_iff.1 at_r.symm
      simp only [Option.bind_some]
      rw [← hmid]
      simpa [idAfter, Corpus.pieces] using linkedId
    rw [still, linkedRow, idAfter_eq_iff]
    · exact ⟨fun kept known => ⟨kept known, rewritten⟩, fun kept known => (kept known).1⟩
    · rintro (there | docs)
      · exact .inl there
      · refine .inr ?_
        rw [joined, docsAt_append]
        simp [docs]

/-- Archiving moves no parent. -/
theorem archive_parent (V : Corpus) (r : ExternalRef) (k : NaturalKey) :
    (V.archive account r k).bind DocView.parentId = (V k).bind DocView.parentId := by
  unfold Corpus.archive
  cases V (account, r) with
  | none => rfl
  | some row =>
    dsimp only
    split
    · simp only [Corpus.mapWhere]
      cases V k with
      | none => rfl
      | some v =>
          simp only [Option.map_some, Option.bind_some]
          split <;> rfl
    · rfl

theorem archives_parent (k : NaturalKey) : (refs : List ExternalRef) → (V : Corpus) →
    (refs.foldl (Corpus.archive account) V k).bind DocView.parentId =
      (V k).bind DocView.parentId
  | [], _ => rfl
  | r :: refs, V => (archives_parent k refs _).trans (archive_parent V r k)

/-- **A cut is neutral exactly where it keeps the links.** -/
theorem closing_eq_iff (V : Corpus) (b : AccountBatch) (slices : List (List DocumentInput)) :
    closing account b (V.pieces deps account slices) =
        closing account b (V.piece deps account slices.flatten) ↔
      ∀ r, LinkKept deps account V b slices r := by
  generalize hU : V.pieces deps account slices = U
  generalize hW : V.piece deps account slices.flatten = W
  have bares : ∀ r, bare (U (account, r)) = bare (W (account, r)) := fun r => by
    rw [← hU, ← hW, Corpus.pieces_bare, Corpus.piece_bare]
  have ids : ∀ r, U.parentId account (some r) = W.parentId account (some r) := fun r => by
    have mapped := congrArg (Option.map DocView.id) (bares r)
    rwa [linked_id, linked_id] at mapped
  -- A reference nothing links is written alike.
  have kept : ∀ r, (U (account, r)).bind DocView.parentId =
        (W (account, r)).bind DocView.parentId ↔
      ∀ before piece after parent, slices = before ++ piece :: after →
        lastLink r (parentPairs piece) = some parent →
        lastLink r (parentPairs after.flatten) = none →
        Known account V slices.flatten parent →
          Known account V (before.flatten ++ piece) parent ∧
            ¬ Rewritten deps r piece after.flatten := by
    intro r
    constructor
    · rintro same before piece after parent rfl here later
      rw [← hU, ← hW] at same
      exact (parents_eq_iff here later).1 same
    · intro condition
      rw [← hU, ← hW]
      by_cases link : lastLink r (parentPairs slices.flatten) = none
      · rw [Corpus.pieces_orphan deps account r slices V (lastLink_eq_none.1 link),
          Corpus.piece_row, link]
      · obtain ⟨before, piece, after, parent, rfl, here, later⟩ := exists_last_linking link
        exact (parents_eq_iff here later).2 (condition before piece after parent rfl here later)
  constructor
  · intro same r
    refine or_iff_not_imp_left.2 fun unlinked => (kept r).1 ?_
    have parents := congrArg (fun X : Corpus => (X (account, r)).bind DocView.parentId) same
    simp only [closing, archives_parent, Corpus.relinks_row] at parents
    rw [not_not.1 unlinked] at parents
    exact parents
  · intro all
    suffices relinked : b.links.foldl (Corpus.relink account) U =
        b.links.foldl (Corpus.relink account) W by
      rw [closing, relinked, closing]
    funext k
    by_cases here : k.1 = account
    · obtain ⟨a, r⟩ := k
      obtain rfl : a = account := here
      rw [Corpus.relinks_row, Corpus.relinks_row]
      cases link : lastLink r b.links with
      | some parent =>
          simp only [ids]
          exact linked_of_bare (bares r) _
      | none =>
          refine eq_of_bare (bares r) ((kept r).2 ?_)
          exact (all r).resolve_left (not_not.2 link)
    · rw [Corpus.relinks_ne account here, Corpus.relinks_ne account here, ← hU, ← hW,
        Corpus.pieces_ne deps account here, Corpus.piece_ne deps account _ _ here]

end Neutral

/-! ## On the rows -/

section Rows

variable {deps : Deps} {db : Db} {id : AccountId}

/-- A delivery of this account lands under `id`: it is the id of the row the
leader holds, or the owner's, which is free. -/
def LandsAt (db : Db) (a : OwnedAccount) (id : AccountId) : Prop :=
  match accountNamed db a with
  | some row => row.id = id
  | none => a.id = id ∧ db.find .accounts [.text id] = none

/-- `ensureAccount` changes no document, and finds the row from then on. -/
theorem ensureAccount_lands {a : OwnedAccount} (now : Time) (wf : WellFormed deps db)
    (lands : LandsAt db a id) :
    ∃ ready acc, ensureAccount a now db = .ok (ready, id) ∧ corpus ready = corpus db ∧
      WellFormed deps ready ∧ ready.find .accounts [.text id] = some acc ∧
      accountNamed ready a = some acc := by
  unfold LandsAt at lands
  unfold ensureAccount
  cases named : accountNamed db a with
  | some row =>
      simp only [named] at lands
      subst lands
      have mem : row ∈ db.rows .accounts := List.mem_of_find?_eq_some named
      have found : db.find .accounts (keyOf .accounts row) = some row := Table.find_of_mem mem
      exact ⟨db, row, rfl, rfl, wf, found, named⟩
  | none =>
      simp only [named] at lands
      obtain ⟨rfl, free⟩ := lands
      have documents : (db.insertRow .accounts (ownedRow a now)).documents = db.documents := by
        rw [Db.documents, Db.rows, Db.insertRow_tables_ne _ _ _ (by decide)]
        rfl
      have rows := Db.rows_insertRow (t := .accounts) (r := ownedRow a now) free
      refine ⟨db.insertRow .accounts (ownedRow a now), ownedRow a now, ?_, ?_,
        wf.of_documents documents, Db.insertRow_find_self _ .accounts (ownedRow a now), ?_⟩
      · simp only [free]
      · funext k
        rw [corpus, documents, corpus]
      · have before : (db.rows .accounts).find? (fun (row : AccountRow) =>
            decide (row.source = a.source ∧ row.identifier = a.identifier)) = none := named
        rw [accountNamed, rows, List.find?_append, before, Option.none_or]
        simp [ownedRow]

/-- A row found by its name is still found once rows are rewritten under the
same names. -/
theorem accountNamed_map {db' : Db} {a : OwnedAccount} {f : AccountRow → AccountRow}
    (rows : db'.rows .accounts = (db.rows .accounts).map f)
    (name : ∀ row : AccountRow, (f row).source = row.source ∧ (f row).identifier = row.identifier) :
    accountNamed db' a = (accountNamed db a).map f := by
  rw [accountNamed, rows, List.find?_map, accountNamed]
  congr 2
  funext row
  simp [name]

/-- What one delivery of an owner's batch leaves on the leader. -/
structure Delivered (deps : Deps) (a : OwnedAccount) (id : AccountId) (b : AccountBatch)
    (db db' : Db) : Prop where
  corpus : corpus db' = Corpus.commit deps id b (corpus db)
  wf : WellFormed deps db'
  lands : LandsAt db' a id
  cursor : cursorOf db' id = some (storedBatchCursor b)

/-- **A delivery commits its batch under the leader's id of the account.** -/
theorem runCommitBatch_delivered {a : OwnedAccount} (tick : Tick) (b : AccountBatch)
    (wf : WellFormed deps db) (lands : LandsAt db a id) :
    ∃ db', runCommitBatch deps tick ⟨a, .account b⟩ db = .ok db' ∧
      Delivered deps a id b db db' := by
  obtain ⟨ready, acc, ensured, docs, wfReady, found, named⟩ := ensureAccount_lands tick.now wf lands
  obtain ⟨db', last, ran, landed⟩ := commitAccount_committed tick.now wfReady tick.publishedAt
    (b := { b with account := id }) found
  have key : keyOf .accounts acc = [.text id] := Table.find_key found
  have ownId : acc.id = id := by simpa [keyOf] using key
  refine ⟨db', ?_, ?_⟩
  · simp only [runCommitBatch, ensured, moveBatch, commitTx]
    simp [bind, Except.bind, ran, Except.map]
  · refine ⟨?_, landed.wf, ?_, landed.cursor⟩
    · rw [landed.corpus, docs]
      rfl
    · have named' := accountNamed_map (a := a) landed.accounts fun row => by
        split <;> exact ⟨rfl, rfl⟩
      rw [named] at named'
      rw [LandsAt, named']
      show (if acc.id = id then setAccount { b with account := id } tick.now acc else acc).id = id
      rw [if_pos ownId]
      exact ownId

/-- A list of deliveries of one account. -/
theorem runDeliveries_delivered {a : OwnedAccount} (tick : Nat → Tick) :
    (bs : List AccountBatch) → (i : Nat) → (db : Db) → WellFormed deps db → LandsAt db a id →
    ∃ db', runDeliveries deps tick i (bs.map fun b => ⟨a, .account b⟩) db = .ok db' ∧
      corpus db' = bs.foldl (fun V b => Corpus.commit deps id b V) (corpus db) ∧
      cursorOf db' id = bs.foldl (fun _ b => some (storedBatchCursor b)) (cursorOf db id)
  | [], _, db, _, _ => ⟨db, rfl, rfl, rfl⟩
  | b :: bs, i, db, wf, lands => by
      obtain ⟨db₁, ran, landed⟩ := runCommitBatch_delivered (tick i) b wf lands
      obtain ⟨db₂, rest, docs, cursor⟩ :=
        runDeliveries_delivered tick bs (i + 1) db₁ landed.wf landed.lands
      refine ⟨db₂, ?_, ?_, ?_⟩
      · rw [List.map_cons, runDeliveries, ran]
        exact rest
      · rw [docs, landed.corpus]
        rfl
      · rw [cursor, landed.cursor]
        rfl

/-- What an owner queues for one of its batches. -/
def deliveries (a : OwnedAccount) (batch : CommitBatch) (maxBytes : Nat) : List CommitInput :=
  (splitBatch batch maxBytes).map fun piece => ⟨a, piece⟩

/-- The same documents, parents and archived flags, and the same account cursor. -/
def SameResult (account : AccountId) (db db' : Db) : Prop :=
  corpus db = corpus db' ∧ cursorOf db account = cursorOf db' account

/-- **Splitting a forwarded batch is neutral exactly when every link survives the
cut.**  The split is compared with the batch committed whole on the leader, and
with the owner's own commit when the owner started from the same documents and
the leader holds the account under the same id. -/
theorem split_neutral_iff {deps : Deps} {leader owner : Db} {id : AccountId} {a : OwnedAccount}
    {b : AccountBatch} {acc : AccountRow} (maxBytes : Nat) (wf : WellFormed deps leader)
    (lands : LandsAt leader a id) (wfOwner : WellFormed deps owner)
    (mine : owner.find .accounts [.text b.account] = some acc) (tick : Nat → Tick)
    (atLeader atOwner : Tick) :
    ∃ split whole own last,
      runDeliveries deps tick 0 (deliveries a (.account b) maxBytes) leader = .ok split ∧
      runCommitBatch deps atLeader ⟨a, .account b⟩ leader = .ok whole ∧
      commitTx deps atOwner.now atOwner.publishedAt (.account b) owner = .ok (own, last) ∧
      ((SameResult id split whole ∧
          (id = b.account → corpus owner = corpus leader → SameResult id split own)) ↔
        ∀ r, LinkKept deps id (corpus leader) b (splitDocuments b maxBytes) r) := by
  obtain ⟨split, ran, docs, cursor⟩ := runDeliveries_delivered (a := a) tick
    (attachTail b (splitDocuments b maxBytes)) 0 leader wf lands
  obtain ⟨whole, ranWhole, landed⟩ := runCommitBatch_delivered atLeader b wf lands
  obtain ⟨own, last, ranOwn, committed⟩ :=
    commitAccount_committed atOwner.now wfOwner atOwner.publishedAt mine
  have nonempty := splitDocuments_ne_nil b maxBytes
  rw [commit_attachTail deps id b _ _ nonempty] at docs
  rw [cursor_attachTail b _ _ nonempty] at cursor
  have wholeDocs : corpus whole =
      closing id b ((corpus leader).piece deps id (splitDocuments b maxBytes).flatten) := by
    rw [splitDocuments_flatten]
    exact landed.corpus
  refine ⟨split, whole, own, last, ?_, ranWhole, ranOwn, ?_⟩
  · rw [deliveries, splitBatch, List.map_map]
    exact ran
  · rw [← closing_eq_iff, ← docs, ← wholeDocs]
    constructor
    · exact fun same => same.1.1
    · intro same
      refine ⟨⟨same, cursor.trans landed.cursor.symm⟩, fun sameId sameStart => ?_⟩
      subst sameId
      refine ⟨?_, cursor.trans committed.cursor.symm⟩
      rw [same, committed.corpus, sameStart]
      exact landed.corpus

end Rows

/-! ### A reply before its letter -/

def ownedAccount : OwnedAccount := ⟨"acc", "applenotes", "me", "\x7b\x7d", none, some "phone"⟩

/-- An owner with its account, and nothing in it. -/
def ownerDb : Db := Db.fresh.insertRow .accounts (ownedRow ownedAccount 0)

def note (name : String) (parent : Option String) : DocumentInput :=
  ⟨name, "note", none, some name, none, [], none, parent.map fun p => ⟨p, "note"⟩, none⟩

/-- The child is listed before its parent, and nothing links it again. -/
def childFirst : AccountBatch :=
  ⟨"acc", [note "child" (some "parent"), note "parent" none], none, some "1", none, none, none,
    none, none⟩

/-- The parent comes first. -/
def parentFirst : AccountBatch :=
  { childFirst with documents := [note "parent" none, note "child" (some "parent")] }

/-- The parent link of the child note, once a run has succeeded. -/
def childLink (result : Except CommitError Db) : Option (Option DocumentId) :=
  match result with
  | .error _ => none
  | .ok db => (corpus db ("acc", ⟨"child", "note"⟩)).map DocView.parentId

/-- Cut between the two notes, the link is lost on the leader. -/
theorem split_loses_link :
    ∃ split whole, runDeliveries Deps.spelled (fun n => ⟨n, none⟩) 0
        (deliveries ownedAccount (.account childFirst) 100) Db.fresh = .ok split ∧
      runCommitBatch Deps.spelled ⟨0, none⟩ ⟨ownedAccount, .account childFirst⟩ Db.fresh =
        .ok whole ∧
      ¬ SameResult "acc" split whole := by
  have cut : childLink (runDeliveries Deps.spelled (fun n => ⟨n, none⟩) 0
      (deliveries ownedAccount (.account childFirst) 100) Db.fresh) = some none := by
    decide +kernel
  have uncut : childLink (runCommitBatch Deps.spelled ⟨0, none⟩
      ⟨ownedAccount, .account childFirst⟩ Db.fresh) =
        some (some (documentId Deps.spelled "acc" ⟨"parent", "note"⟩)) := by
    decide +kernel
  generalize runDeliveries _ _ _ _ _ = splitRun at cut ⊢
  generalize runCommitBatch _ _ _ _ = wholeRun at uncut ⊢
  cases splitRun with
  | error e => cases cut
  | ok split =>
    cases wholeRun with
    | error e => cases uncut
    | ok whole =>
      refine ⟨split, whole, rfl, rfl, fun same => ?_⟩
      simp only [childLink] at cut uncut
      rw [same.1, uncut] at cut
      cases cut

theorem split_neutral_parentFirst :
    ∃ split whole own last,
      runDeliveries Deps.spelled (fun n => ⟨n, none⟩) 0
        (deliveries ownedAccount (.account parentFirst) 100) Db.fresh = .ok split ∧
      runCommitBatch Deps.spelled ⟨0, none⟩ ⟨ownedAccount, .account parentFirst⟩ Db.fresh =
        .ok whole ∧
      commitTx Deps.spelled 0 none (.account parentFirst) ownerDb = .ok (own, last) ∧
      ((SameResult "acc" split whole ∧
          ("acc" = parentFirst.account → corpus ownerDb = corpus Db.fresh →
            SameResult "acc" split own)) ↔
        ∀ r, LinkKept Deps.spelled "acc" (corpus Db.fresh) parentFirst
          (splitDocuments parentFirst 100) r) :=
  split_neutral_iff 100 (wellFormed_of_empty _ rfl) (by exact ⟨rfl, rfl⟩)
    (wellFormed_of_empty _ (by decide)) (Db.insertRow_find_self _ .accounts _)
    (fun n => ⟨n, none⟩) ⟨0, none⟩ ⟨0, none⟩

end Kiagent.Sync
