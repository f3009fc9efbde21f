/-
# Engine.Ingest -- a pull batch in sub-commits

The run loop commits one pull batch in slices, cut between items.  Every slice
but the last writes the cursor the cycle started from; the last one writes the
batch's cursor, its deletions, and a second time all its parent links.

A crash between two sub-commits loses the rest of the batch, and the next cycle
pulls it again from the stored cursor.  `ingest_whole`: whatever the cuts and
wherever the crashes, the documents and the cursor end as in one commit of the
whole batch, and until the last sub-commit the cursor does not move.
-/
import Kiagent.Store.Commit

namespace Kiagent.Engine

open Kiagent.Theory
open Kiagent.Store

set_option autoImplicit false

/-! ## The run loop -/

inductive PullPhase where
  | backfill
  | live
  deriving DecidableEq, Repr

/-- One batch of a source's pull stream. -/
structure PullBatch (Item : Type) where
  phase : PullPhase
  items : List Item
  deletions : Option (List ExternalRef)
  cursor : Option String
  estimateTotal : Option Nat

def subCommitBytes : Nat := 8 * 1024 * 1024

def subCommitDocs : Nat := 50

/-- UTF-8 bytes of the markdown a document carries into a sub-commit. -/
def textBytes (d : DocumentInput) : Nat := (d.markdown.getD "").utf8ByteSize

variable {Item : Type}

/-- What a pull cycle holds while it runs: the account, the converted documents
of an item (`toDocument`, then `convert`), the cursor and the progress it
started from, and the scope of the errors it clears. -/
structure Cycle (Item : Type) where
  account : AccountId
  documentsOf : Item → List DocumentInput
  committedCursor : Option String
  progressDone : Nat
  errorScope : Option ErrorScope

namespace Cycle

variable (c : Cycle Item)

def documents (items : List Item) : List DocumentInput := items.flatMap c.documentsOf

/-- A slice in the making holds `docs` documents of `bytes` bytes; it closes at
the first bound it reaches.  The next slice starts with the item at hand, which
always fits: both bounds are positive. -/
def cutFrom (slice : List Item) (docs bytes : Nat) : List Item → List (List Item)
  | [] => [slice]
  | item :: items =>
      let out := c.documentsOf item
      let size := (out.map textBytes).sum
      if docs < subCommitDocs ∧ bytes < subCommitBytes then
        cutFrom (slice ++ [item]) (docs + out.length) (bytes + size) items
      else slice :: cutFrom [item] out.length size items

/-- The slices the loop commits. -/
def slices (items : List Item) : List (List Item) := c.cutFrom [] 0 0 items

def status (batch : PullBatch Item) : String :=
  match batch.phase with
  | .backfill => "backfilling"
  | .live => "live"

def progressAt (batch : PullBatch Item) (consumed : Nat) (intermediate : Bool) :
    Option AccountProgress :=
  batch.estimateTotal.map fun total =>
    ⟨c.progressDone + consumed, some total, if intermediate then some c.progressDone else none⟩

/-- A sub-commit that is not the last, once `consumed` items are in. -/
def intermediate (batch : PullBatch Item) (consumed : Nat) (slice : List Item) : AccountBatch where
  account := c.account
  documents := c.documents slice
  deletions := none
  cursor := some (c.committedCursor.getD "null")
  status := some (status batch)
  progress := c.progressAt batch consumed true
  error := some none
  errorScope := c.errorScope
  relink := none

/-- The last sub-commit: it re-links the children earlier ones landed. -/
def last (batch : PullBatch Item) (slice : List Item) : AccountBatch :=
  let relink := parentPairs (c.documents batch.items)
  { account := c.account
    documents := c.documents slice
    deletions := batch.deletions
    cursor := batch.cursor
    status := some (status batch)
    progress := c.progressAt batch batch.items.length false
    error := some none
    errorScope := c.errorScope
    relink := if relink = [] then none else some relink }

/-- The sub-commits of a batch, slice by slice. -/
def subCommits (batch : PullBatch Item) : (consumed : Nat) → List (List Item) → List AccountBatch
  | _, [] => []
  | _, [slice] => [c.last batch slice]
  | consumed, slice :: rest =>
      c.intermediate batch (consumed + slice.length) slice ::
        subCommits batch (consumed + slice.length) rest

end Cycle

/-! ## Cuts, crashes and replays -/

/-- A way to cut a list of items into slices, at least one. -/
structure Cut (items : List Item) where
  slices : List (List Item)
  nonempty : slices ≠ []
  joined : slices.flatten = items

theorem Cycle.cutFrom_flatten (c : Cycle Item) : (items slice : List Item) → (docs bytes : Nat) →
    (c.cutFrom slice docs bytes items).flatten = slice ++ items
  | [], slice, _, _ => by simp [cutFrom]
  | item :: items, slice, docs, bytes => by
      rw [cutFrom]
      split
      · rw [c.cutFrom_flatten items, List.append_assoc]
        rfl
      · rw [List.flatten_cons, c.cutFrom_flatten items]
        rfl

/-- The cut the loop makes. -/
def Cycle.cut (c : Cycle Item) (items : List Item) : Cut items where
  slices := c.slices items
  nonempty := by
    unfold slices
    cases items with
    | nil => simp [cutFrom]
    | cons item items =>
        rw [cutFrom]
        split
        · intro none
          have joined := c.cutFrom_flatten items ([] ++ [item]) (0 + (c.documentsOf item).length)
            (0 + ((c.documentsOf item).map textBytes).sum)
          rw [none] at joined
          exact absurd joined (by simp)
        · simp
  joined := c.cutFrom_flatten items [] 0 0

/-- The whole batch as one slice. -/
def Cut.whole (items : List Item) : Cut items := ⟨[items], by simp, by simp⟩

/-- One pull cycle over the batch: how it is cut and when each sub-commit runs. -/
structure Attempt (batch : PullBatch Item) where
  cut : Cut batch.items
  tick : Nat → Tick
  progressDone : Nat
  errorScope : Option ErrorScope

/-- A cycle that crashes after `landed` sub-commits, before the last one. -/
structure Interrupted (batch : PullBatch Item) extends Attempt batch where
  landed : Nat
  early : landed < cut.slices.length

/-- Commit a list of batches, each at its own tick. -/
def commitAll (deps : Deps) (tick : Nat → Tick) : Nat → List AccountBatch → Db →
    Except CommitError Db
  | _, [], db => .ok db
  | i, b :: bs, db => do
      let landed ← commitAccount deps (tick i).now (tick i).publishedAt b db
      commitAll deps tick (i + 1) bs landed.1

/-- What the engine is given: the digests, the account, and the source's documents. -/
structure Ingest (Item : Type) where
  deps : Deps
  account : AccountId
  documentsOf : Item → List DocumentInput

namespace Ingest

variable (g : Ingest Item) {batch : PullBatch Item}

/-- A cycle starts from the cursor the account row holds. -/
def cycle (a : Attempt batch) (db : Db) : Cycle Item where
  account := g.account
  documentsOf := g.documentsOf
  committedCursor := cursorOf db g.account
  progressDone := a.progressDone
  errorScope := a.errorScope

def batches (a : Attempt batch) (db : Db) : List AccountBatch :=
  (g.cycle a db).subCommits batch 0 a.cut.slices

/-- A cycle that lands all its sub-commits. -/
def complete (a : Attempt batch) (db : Db) : Except CommitError Db :=
  commitAll g.deps a.tick 0 (g.batches a db) db

def interrupt (db : Db) (a : Interrupted batch) : Except CommitError Db :=
  commitAll g.deps a.tick 0 ((g.batches a.toAttempt db).take a.landed) db

/-- Any number of crashed cycles. -/
def crashes (as : List (Interrupted batch)) (db : Db) : Except CommitError Db :=
  as.foldlM g.interrupt db

end Ingest

/-! ## On the corpus -/

section Replays

variable (deps : Deps) (account : AccountId)

/-- The documents of a batch cannot tell `V'` from `V`: a run of them leaves the
same rows, but for the parents of the references the batch links. -/
structure Replays (ds : List DocumentInput) (V V' : Corpus) : Prop where
  others : ∀ k : NaturalKey, k.1 ≠ account → V' k = V k
  rows : ∀ r, bare ((rowWrites deps account r).run (docsAt r ds) (V' (account, r))) =
    bare ((rowWrites deps account r).run (docsAt r ds) (V (account, r)))
  orphans : ∀ r, (∀ d ∈ docsAt r ds, d.parent = none) →
    (rowWrites deps account r).run (docsAt r ds) (V' (account, r)) =
      (rowWrites deps account r).run (docsAt r ds) (V (account, r))

theorem Replays.refl (ds : List DocumentInput) (V : Corpus) : Replays deps account ds V V :=
  ⟨fun _ _ => rfl, fun _ => rfl, fun _ _ => rfl⟩

variable {deps account}

theorem Replays.trans {ds : List DocumentInput} {U V W : Corpus}
    (first : Replays deps account ds U V) (second : Replays deps account ds V W) :
    Replays deps account ds U W where
  others k ne := (second.others k ne).trans (first.others k ne)
  rows r := (second.rows r).trans (first.rows r)
  orphans r none := (second.orphans r none).trans (first.orphans r none)

/-- Pieces of a prefix of the batch are replayed by the batch. -/
theorem replays_pieces {ds : List DocumentInput} {slices : List (List DocumentInput)}
    (covers : slices.flatten <+: ds) (V : Corpus) :
    Replays deps account ds V (V.pieces deps account slices) := by
  obtain ⟨rest, rfl⟩ := covers
  refine ⟨fun k ne => Corpus.pieces_ne deps account ne slices V, fun r => ?_, fun r none => ?_⟩
  · rw [run_bare deps account r _ (Corpus.pieces_bare deps account r slices V), docsAt_append,
      Overwrite.run_absorbs]
  · rw [docsAt_append] at none ⊢
    rw [Corpus.pieces_orphan deps account r slices V fun d mem =>
      none d (List.mem_append_left _ mem), Overwrite.run_absorbs]

/-- **Once the batch is in and its links are resolved, the cut is forgotten.** -/
theorem replays_linked {V V' : Corpus} {slices slices' : List (List DocumentInput)}
    (same : slices'.flatten = slices.flatten)
    (replays : Replays deps account slices.flatten V V') :
    (parentPairs slices.flatten).foldl (Corpus.relink account)
        (V'.pieces deps account slices') =
      (parentPairs slices.flatten).foldl (Corpus.relink account)
        (V.pieces deps account slices) := by
  have bares : ∀ r, bare (V'.pieces deps account slices' (account, r)) =
      bare (V.pieces deps account slices (account, r)) := fun r => by
    rw [Corpus.pieces_bare, Corpus.pieces_bare, same, replays.rows r]
  have ids : ∀ r, (V'.pieces deps account slices').parentId account (some r) =
      (V.pieces deps account slices).parentId account (some r) := fun r => by
    have mapped := congrArg (Option.map DocView.id) (bares r)
    rwa [linked_id, linked_id] at mapped
  funext k
  by_cases here : k.1 = account
  · obtain ⟨a, r⟩ := k
    obtain rfl : a = account := here
    rw [Corpus.relinks_row, Corpus.relinks_row]
    cases link : lastLink r (parentPairs slices.flatten) with
    | some parent =>
        simp only [ids]
        exact linked_of_bare (bares r) _
    | none =>
        have orphans := lastLink_eq_none.1 link
        dsimp only
        rw [Corpus.pieces_orphan deps a r slices V orphans,
          Corpus.pieces_orphan deps a r slices' V' (by rw [same]; exact orphans), same,
          replays.orphans r orphans]
  · rw [Corpus.relinks_ne account here, Corpus.relinks_ne account here,
      Corpus.pieces_ne deps account here, Corpus.pieces_ne deps account here,
      replays.others k here]

end Replays

/-! ## On the rows -/

section Rows

variable {deps : Deps} {account : AccountId} {db : Db}

/-- What the last sub-commit does once its documents are in. -/
def finish (account : AccountId) (ds : List DocumentInput) (deleted : List ExternalRef)
    (V : Corpus) : Corpus :=
  deleted.foldl (Corpus.archive account) ((parentPairs ds).foldl (Corpus.relink account) V)

/-- A list of commits of one account, on the rows. -/
theorem commitAll_committed (tick : Nat → Tick) : (bs : List AccountBatch) → (i : Nat) →
    (db : Db) → WellFormed deps db → (cursorOf db account).isSome = true →
    (∀ b ∈ bs, b.account = account) →
    ∃ db', commitAll deps tick i bs db = .ok db' ∧
      corpus db' = bs.foldl (fun V b => Corpus.commit deps account b V) (corpus db) ∧
      WellFormed deps db' ∧
      cursorOf db' account =
        bs.foldl (fun _ b => some (storedBatchCursor b)) (cursorOf db account)
  | [], _, db, wf, _, _ => ⟨db, rfl, rfl, wf, rfl⟩
  | b :: bs, i, db, wf, there, own => by
      have mine : b.account = account := own b List.mem_cons_self
      obtain ⟨acc, found⟩ : ∃ acc, db.find .accounts [.text b.account] = some acc := by
        rw [cursorOf, Option.isSome_map, ← mine] at there
        exact Option.isSome_iff_exists.1 there
      obtain ⟨db₁, n, ran, landed⟩ :=
        commitAccount_committed (tick i).now wf (tick i).publishedAt found
      obtain ⟨docs₁, wf₁, -, cursor₁⟩ := landed
      rw [mine] at docs₁ cursor₁
      obtain ⟨db₂, rest, docs, wf₂, cursor⟩ := commitAll_committed tick bs (i + 1) db₁ wf₁
        (by rw [cursor₁]; rfl) fun b' mem => own b' (List.mem_cons_of_mem _ mem)
      refine ⟨db₂, ?_, ?_, wf₂, ?_⟩
      · rw [commitAll, ran]
        exact rest
      · rw [docs, docs₁]
        rfl
      · rw [cursor, cursor₁]
        rfl

end Rows

namespace Cycle

variable (c : Cycle Item) (batch : PullBatch Item) (deps : Deps)

theorem commit_intermediate (consumed : Nat) (slice : List Item) (V : Corpus) :
    Corpus.commit deps c.account (c.intermediate batch consumed slice) V =
      V.piece deps c.account (c.documents slice) := by
  simp [Corpus.commit, intermediate, AccountBatch.links, AccountBatch.deleted]

theorem links_last (slice : List Item) :
    (c.last batch slice).links = parentPairs (c.documents batch.items) := by
  simp only [AccountBatch.links, last]
  split
  · rename_i none
    rw [none]
    rfl
  · rfl

theorem commit_last (slice : List Item) (V : Corpus) :
    Corpus.commit deps c.account (c.last batch slice) V =
      finish c.account (c.documents batch.items) (batch.deletions.getD [])
        (V.piece deps c.account (c.documents slice)) := by
  rw [Corpus.commit, links_last]
  rfl

theorem subCommits_cons (n : Nat) (slice next : List Item) (rest : List (List Item)) :
    c.subCommits batch n (slice :: next :: rest) =
      c.intermediate batch (n + slice.length) slice ::
        c.subCommits batch (n + slice.length) (next :: rest) := rfl

theorem subCommits_account : (slices : List (List Item)) → (n : Nat) →
    ∀ b ∈ c.subCommits batch n slices, b.account = c.account
  | [], _ => fun b mem => nomatch mem
  | [slice], _ => by simp [subCommits, last]
  | slice :: next :: rest, n => by
      intro b mem
      rcases List.mem_cons.1 mem with rfl | later
      · rfl
      · exact subCommits_account (next :: rest) _ b later

/-- All the sub-commits, on the corpus. -/
theorem subCommits_corpus : (slices : List (List Item)) → (n : Nat) → (V : Corpus) →
    slices ≠ [] →
    (c.subCommits batch n slices).foldl (fun V b => Corpus.commit deps c.account b V) V =
      finish c.account (c.documents batch.items) (batch.deletions.getD [])
        (V.pieces deps c.account (slices.map c.documents))
  | [], _, _, nonempty => absurd rfl nonempty
  | [slice], _, V, _ => c.commit_last batch deps slice V
  | slice :: next :: rest, n, V, _ => by
      rw [subCommits_cons, List.foldl_cons, commit_intermediate,
        subCommits_corpus (next :: rest) _ _ (by simp)]
      rfl

theorem subCommits_cursor : (slices : List (List Item)) → (n : Nat) → (old : Option String) →
    slices ≠ [] →
    (c.subCommits batch n slices).foldl (fun _ b => some (storedBatchCursor b)) old =
      some (batch.cursor.getD "null")
  | [], _, _, nonempty => absurd rfl nonempty
  | [slice], _, _, _ => rfl
  | slice :: next :: rest, n, old, _ => by
      rw [subCommits_cons, List.foldl_cons, subCommits_cursor (next :: rest) _ _ (by simp)]

/-- The sub-commits before the last only write documents. -/
theorem take_corpus : (slices : List (List Item)) → (m n : Nat) → (V : Corpus) →
    m < slices.length →
    ((c.subCommits batch n slices).take m).foldl
        (fun V b => Corpus.commit deps c.account b V) V =
      V.pieces deps c.account ((slices.take m).map c.documents)
  | _, 0, _, _, _ => rfl
  | [], _ + 1, _, _, early => absurd early (by simp)
  | [_], _ + 1, _, _, early => absurd early (by simp)
  | slice :: next :: rest, m + 1, n, V, early => by
      rw [subCommits_cons, List.take_succ_cons, List.foldl_cons, commit_intermediate,
        take_corpus (next :: rest) m _ _ (by simpa using early)]
      rfl

theorem take_cursor : (slices : List (List Item)) → (m n : Nat) → m < slices.length →
    ((c.subCommits batch n slices).take m).foldl (fun _ b => some (storedBatchCursor b))
        (some (c.committedCursor.getD "null")) =
      some (c.committedCursor.getD "null")
  | _, 0, _, _ => rfl
  | [], _ + 1, _, early => absurd early (by simp)
  | [_], _ + 1, _, early => absurd early (by simp)
  | slice :: next :: rest, m + 1, n, early => by
      rw [subCommits_cons, List.take_succ_cons, List.foldl_cons]
      exact take_cursor (next :: rest) m _ (by simpa using early)

end Cycle

namespace Cut

variable {items : List Item} (c : Cycle Item)

theorem documents_flatten (slices : List (List Item)) :
    (slices.map c.documents).flatten = c.documents slices.flatten := by
  induction slices with
  | nil => rfl
  | cons slice slices ih => simp [ih, Cycle.documents]

theorem joined_documents (cut : Cut items) :
    (cut.slices.map c.documents).flatten = c.documents items := by
  rw [documents_flatten, cut.joined]

theorem take_documents (cut : Cut items) (m : Nat) :
    ((cut.slices.take m).map c.documents).flatten <+: c.documents items := by
  refine ⟨((cut.slices.drop m).map c.documents).flatten, ?_⟩
  rw [documents_flatten, documents_flatten, Cycle.documents, Cycle.documents,
    ← List.flatMap_append, ← List.flatten_append, List.take_append_drop]
  exact congrArg c.documents cut.joined

end Cut

/-! ## The result -/

namespace Ingest

variable (g : Ingest Item) {batch : PullBatch Item} {db : Db}

/-- The documents of the batch, as this ingest converts them. -/
def inputs (batch : PullBatch Item) : List DocumentInput := batch.items.flatMap g.documentsOf

/-- One crashed cycle: the batch can be replayed, and the cursor has not moved. -/
theorem interrupt_replays (wf : WellFormed g.deps db) (there : (cursorOf db g.account).isSome)
    (a : Interrupted batch) :
    ∃ db', g.interrupt db a = .ok db' ∧ WellFormed g.deps db' ∧
      cursorOf db' g.account = cursorOf db g.account ∧
      Replays g.deps g.account (g.inputs batch) (corpus db) (corpus db') := by
  obtain ⟨db', ran, docs, wf', cursor⟩ := commitAll_committed a.tick
    ((g.batches a.toAttempt db).take a.landed) 0 db wf there
    fun b mem => (g.cycle a.toAttempt db).subCommits_account batch a.cut.slices 0 b
      (List.mem_of_mem_take mem)
  refine ⟨db', ran, wf', ?_, ?_⟩
  · obtain ⟨old, stored⟩ := Option.isSome_iff_exists.1 there
    have still := (g.cycle a.toAttempt db).take_cursor batch a.cut.slices a.landed 0 a.early
    have start : (g.cycle a.toAttempt db).committedCursor = some old := stored
    rw [start] at still
    rw [cursor, stored]
    exact still
  · rw [docs]
    have landed := (g.cycle a.toAttempt db).take_corpus batch g.deps a.cut.slices a.landed 0
      (corpus db) a.early
    have covers := a.cut.take_documents (g.cycle a.toAttempt db) a.landed
    exact landed ▸ replays_pieces covers (corpus db)

/-- Any number of crashed cycles. -/
theorem crashes_replays : (as : List (Interrupted batch)) → (db : Db) →
    WellFormed g.deps db → (cursorOf db g.account).isSome →
    ∃ db', g.crashes as db = .ok db' ∧ WellFormed g.deps db' ∧
      cursorOf db' g.account = cursorOf db g.account ∧
      Replays g.deps g.account (g.inputs batch) (corpus db) (corpus db')
  | [], db, wf, _ => ⟨db, rfl, wf, rfl, Replays.refl _ _ _ _⟩
  | a :: as, db, wf, there => by
      obtain ⟨db₁, ran, wf₁, cursor₁, first⟩ := g.interrupt_replays wf there a
      obtain ⟨db₂, rest, wf₂, cursor₂, later⟩ := crashes_replays as db₁ wf₁ (by rwa [cursor₁])
      refine ⟨db₂, ?_, wf₂, cursor₂.trans cursor₁, first.trans later⟩
      rw [crashes, List.foldlM_cons, ran]
      exact rest

/-- A cycle that lands all its sub-commits. -/
theorem complete_committed (wf : WellFormed g.deps db) (there : (cursorOf db g.account).isSome)
    (a : Attempt batch) :
    ∃ db', g.complete a db = .ok db' ∧ WellFormed g.deps db' ∧
      cursorOf db' g.account = some (batch.cursor.getD "null") ∧
      corpus db' = finish g.account (g.inputs batch) (batch.deletions.getD [])
        ((corpus db).pieces g.deps g.account (a.cut.slices.map (g.cycle a db).documents)) := by
  obtain ⟨db', ran, docs, wf', cursor⟩ := commitAll_committed a.tick
    (g.batches a db) 0 db wf there ((g.cycle a db).subCommits_account batch a.cut.slices 0)
  refine ⟨db', ran, wf', ?_, ?_⟩
  · rw [cursor]
    exact (g.cycle a db).subCommits_cursor batch a.cut.slices 0 _ a.cut.nonempty
  · rw [docs]
    exact (g.cycle a db).subCommits_corpus batch g.deps a.cut.slices 0 _ a.cut.nonempty

/-- **Sub-commits, crashes and replays end where one commit of the batch ends.**
The cycles may cut the batch anywhere and crash after any sub-commit but the
last.  Until then the cursor stands still; at the end the documents, one row a
reference, and the cursor are those of the batch committed whole. -/
theorem ingest_whole (wf : WellFormed g.deps db) {acc : AccountRow}
    (found : db.find .accounts [.text g.account] = some acc) (crashed : List (Interrupted batch))
    (a w : Attempt batch) :
    ∃ mid split whole last,
      g.crashes crashed db = .ok mid ∧ g.complete a mid = .ok split ∧
      commitTx g.deps (w.tick 0).now (w.tick 0).publishedAt
        (.account ((g.cycle w db).last batch batch.items)) db = .ok (whole, last) ∧
      cursorOf mid g.account = cursorOf db g.account ∧
      cursorOf split g.account = cursorOf whole g.account ∧
      corpus split = corpus whole ∧ (split.documents.map DocRow.natural).Nodup := by
  have there : (cursorOf db g.account).isSome := by
    rw [cursorOf, found]
    rfl
  obtain ⟨mid, ran, wfMid, still, replays⟩ := g.crashes_replays crashed db wf there
  obtain ⟨split, completed, wfSplit, cursor, docs⟩ :=
    g.complete_committed wfMid (by rwa [still]) a
  obtain ⟨whole, last, committed, landed⟩ :=
    commitAccount_committed (b := (g.cycle w db).last batch batch.items) (w.tick 0).now wf
      (w.tick 0).publishedAt found
  refine ⟨mid, split, whole, last, ran, completed, committed, still, ?_, ?_, wfSplit.natural⟩
  · rw [cursor]
    exact landed.cursor.symm
  · have one : (a.cut.slices.map (g.cycle a mid).documents).flatten = [g.inputs batch].flatten :=
      (a.cut.joined_documents _).trans (by simp [inputs, Cycle.documents, cycle])
    have forgotten := @replays_linked g.deps g.account _ _ _ _ one (by simpa using replays)
    rw [docs, landed.corpus]
    have last := (g.cycle w db).commit_last batch g.deps batch.items (corpus db)
    simp only [List.flatten_singleton] at forgotten
    refine Eq.trans ?_ last.symm
    simp only [finish, forgotten]
    rfl

end Ingest

/-! ### Two letters, one crash -/

/-- One account, never pulled. -/
def connected : Db :=
  Db.fresh.insertRow .accounts
    (⟨"acc", "imap", "me", "{}", "live", none, none, none, none, none, 0, none⟩ : AccountRow)

/-- A reply comes before the letter it answers. -/
def letters : PullBatch Nat := ⟨.live, [1, 0], none, some "7", none⟩

def mailbox : Ingest Nat where
  deps := Deps.spelled
  account := "acc"
  documentsOf n :=
    [⟨toString n, "mail", none, some "hello", none, [], none,
      if n = 1 then some ⟨"0", "mail"⟩ else none, none⟩]

/-- Item by item. -/
def oneByOne : Attempt letters := ⟨⟨[[1], [0]], by decide, by decide⟩, fun n => ⟨n, none⟩, 0, none⟩

theorem ingest_whole_letters :
    ∃ mid split whole last,
      mailbox.crashes [⟨oneByOne, 1, by decide⟩] connected = .ok mid ∧
      mailbox.complete oneByOne mid = .ok split ∧
      commitTx mailbox.deps 0 none
        (.account ((mailbox.cycle oneByOne connected).last letters letters.items)) connected =
          .ok (whole, last) ∧
      cursorOf mid "acc" = cursorOf connected "acc" ∧
      cursorOf split "acc" = cursorOf whole "acc" ∧
      corpus split = corpus whole ∧ (split.documents.map DocRow.natural).Nodup :=
  mailbox.ingest_whole (wellFormed_of_empty _ (by decide)) (Db.insertRow_find_self _ _ _)
    [⟨oneByOne, 1, by decide⟩] oneByOne oneByOne

end Kiagent.Engine
