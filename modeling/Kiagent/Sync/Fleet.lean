/-
# Sync.Fleet -- an owner's writes, across pulls and a takeover

A follower commits the batches of the accounts it owns locally and queues them
for the leader; meanwhile it pulls deltas, and its queue drains with replies that
may be lost.  `Fleet` is the follower, its leader (whatever that does, and
whoever it is), the answer in flight, and two ghosts: which delivery last wrote
each document, and which deliveries the leader has run.

If the follower is promoted, a document it wrote must either have reached the old
leader or be numbered above the grant the promotion records.  A delta can raise
that grant past a document still in the queue, so this needs a condition on each
delta applied, `Clears`.  `owned_writes_survive`: in a run all of whose deltas
clear the pending documents, every one of them is `Served` wherever the
run stops and the device is promoted.
-/
import Kiagent.Sync.Owned
import Kiagent.Sync.Promote
import Kiagent.Theory.Runs

namespace Kiagent.Sync

open Kiagent.Theory
open Kiagent.Store

set_option autoImplicit false

/-! ## The owner's guarded commit -/

/-- `ownedByThisDeviceSql`, for one account. -/
def ownedByMe (db : Db) (account : AccountId) : Bool :=
  match db.find .accounts [.text account] with
  | none => false
  | some (a : AccountRow) =>
      db.state.deviceId.isSome && decide (a.ownerDeviceId = db.state.deviceId) &&
        decide (db.state.role = .follower) && db.state.joined && !db.state.joining &&
        decide (a.source ∈ deviceOwnedSources)

def ownedAccountOf (a : AccountRow) : OwnedAccount :=
  ⟨a.id, a.source, a.identifier, a.config, a.cadence, a.ownerDeviceId⟩

def queueOwned (a : OwnedAccount) (batch : CommitBatch) (db : Db) : Db :=
  { db with outbound := (deliveries a batch maxBatchBytes).foldl SeqLog.append db.outbound }

/-- The guarded `commit` of a follower: the batch and its deliveries are one
transaction. -/
def ownerCommit (deps : Deps) (tick : Tick) (b : AccountBatch) (db : Db) : Option Db :=
  match db.find .accounts [.text b.account] with
  | none => none
  | some acc =>
      if ownedByMe db b.account then
        match commitAccount deps tick.now tick.publishedAt b db with
        | .error _ => none
        | .ok (db', _) => some (queueOwned (ownedAccountOf acc) (.account b) db')
      else none

/-! ## The fleet -/

/-- A document the owner wrote: what it holds, and the deliveries that carry it. -/
structure Own where
  view : DocView
  pieces : List Nat

structure Fleet where
  follower : Db
  leader : Db
  answer : Option Delta
  own : DocumentId → Option Own
  ran : List Nat

inductive Action where
  /-- The owner commits a batch of its account. -/
  | commit (b : AccountBatch) (tick : Tick)
  /-- The leader, or another one, does anything at all. -/
  | lead (leader : Db)
  /-- The follower asks for a delta from its position. -/
  | ask (lineLength : StageEntry → Nat) (capBytes : Nat)
  /-- It applies the answer. -/
  | apply (now : Time)
  /-- A queued delivery reaches the leader; the row stays until the reply does. -/
  | deliver (n : Nat) (tick : Tick)
  /-- The reply to a delivery arrives. -/
  | acknowledge (n : Nat)

/-- The documents a commit changed are carried by its deliveries. -/
def noteOwn (before after : Db) (pieces : List Nat) (own : DocumentId → Option Own) :
    DocumentId → Option Own := fun id =>
  if after.find .documents [.text id] = before.find .documents [.text id] then own id
  else (after.find .documents [.text id]).map fun (d : DocRow) => ⟨d.view, pieces⟩

/-- The numbers of the deliveries a commit queued. -/
def queuedPieces (before after : Db) : List Nat :=
  (after.outbound.since before.outbound.counter).map Prod.fst

def Fleet.step (deps : Deps) (s : Fleet) : Action → Option Fleet
  | .commit b tick =>
      (ownerCommit deps tick b s.follower).map fun db =>
        { s with follower := db, own := noteOwn s.follower db (queuedPieces s.follower db) s.own }
  | .lead leader => some { s with leader }
  | .ask lineLength capBytes =>
      match buildDelta lineLength s.leader (storedCursor s.follower) s.follower.state.epoch
        capBytes with
      | .tooLarge => none
      | .ok delta => some { s with answer := some delta }
  | .apply now =>
      match s.answer with
      | none => none
      | some delta =>
          match applyDeltaTx now s.follower delta.entries delta.target delta.epoch with
          | .error _ => some { s with answer := none }
          | .ok db => some { s with follower := db, answer := none }
  | .deliver n tick =>
      match s.follower.outbound.entries.find? fun e => e.1 = n with
      | none => none
      | some (_, input) =>
          match runCommitBatch deps tick input s.leader with
          | .error _ => some s
          | .ok leader => some { s with leader, ran := n :: s.ran }
  | .acknowledge n =>
      if n ∈ s.ran then
        let sent := s.follower.outbound.filter fun e => e.1 ≠ n
        some { s with follower := { s.follower with outbound := sent } }
      else none

/-- The leader has run every delivery that carries the document. -/
def Incorporated (s : Fleet) (o : Own) : Prop := ∀ n ∈ o.pieces, n ∈ s.ran

/-! ## Safety -/

/-- The number is in the window a promotion renumbers. -/
def InWindow (db : Db) (seq : Nat) : Prop :=
  ∃ g, unseenGrant db (db.state.preDemoteEpoch.getD db.state.epoch)
    db.state.preDemoteEpoch.isSome = some g ∧ UnseenSeq g seq

/-- Promoted now to any newer epoch, this device serves the document, as it was
last written, to every device of an older epoch. -/
def ServedOnTakeover (db : Db) (id : DocumentId) (view : DocView) : Prop :=
  ∀ E opts now, db.state.epoch < E →
    (∀ k (g : EpochRow), db.find .syncEpochs k = some g → g.epoch < E) →
    ∃ d : DocRow, (promote db E opts now).find .documents [.text id] = some d ∧ d.view = view ∧
      ∀ asked fromEpoch, fromEpoch < E →
        (rewound (promote db E opts now) asked fromEpoch).seq < d.seq

/-- **No owner write is lost**: it reached the leader, or a takeover serves it. -/
def NoneLost (s : Fleet) : Prop :=
  ∀ id o, s.own id = some o → Incorporated s o ∨ ServedOnTakeover s.follower id o.view

/-- A delta leaves a document alone: no entry names it or removes its account,
and the new position stays below it, or a promotion would renumber it. -/
structure Clears (now : Time) (db : Db) (delta : Delta) (d : DocRow) : Prop where
  kept : .delete .documents [.text d.id] ∉ delta.entries
  unsent : ∀ row : DocRow, .upsert .documents row ∈ delta.entries → row.id ≠ d.id
  account : .delete .accounts [.text d.accountId] ∉ delta.entries
  position : delta.target.seq < d.seq ∨
    InWindow (storeTarget (delta.entries.foldl (applyEntry now) db) delta.target delta.epoch) d.seq

/-- The condition on a step: a delta is applied only while it clears every
document whose deliveries the leader has not all run. -/
def Calm (s : Fleet) : Action → Prop
  | .apply now =>
      ∀ delta, s.answer = some delta → ∀ id o d, s.own id = some o → ¬ Incorporated s o →
        s.follower.find .documents [.text id] = some d → Clears now s.follower delta d
  | _ => True

/-- The state between two steps. -/
structure Guarded (s : Fleet) : Prop where
  role : s.follower.state.role = .follower
  seqs : ∀ k (d : DocRow), s.follower.find .documents k = some d →
    d.seq ≤ s.follower.changes.counter
  position : s.follower.state.afterSeq ≤ s.follower.changes.counter
  answer : ∀ delta, s.answer = some delta → delta.target.seq ≤ s.follower.changes.counter ∨
    ∃ row : DocRow, .upsert .documents row ∈ delta.entries ∧ row.seq = delta.target.seq
  pending : ∀ id o, s.own id = some o → Incorporated s o ∨
    ∃ d : DocRow, s.follower.find .documents [.text id] = some d ∧ d.view = o.view ∧
      (s.follower.state.afterSeq < d.seq ∨ InWindow s.follower d.seq)

/-! ## Applying a delta -/

section Applying

variable (now : Time)

theorem noteDocument_changes (db : Db) (d : DocRow) : (noteDocument db d).changes = db.changes := by
  unfold noteDocument
  split <;> rfl

theorem applyEntry_other (db : Db) {t : Tbl} (r : RowOf t) (other : t ≠ .documents) :
    applyEntry now db (.upsert t r) = (noteKey db t (keyOf t r)).upsertRow t r := by
  cases t <;> first | rfl | exact absurd rfl other

theorem applyEntry_counter (db : Db) (e : StageEntry) :
    db.changes.counter ≤ (applyEntry now db e).changes.counter := by
  cases e with
  | delete t k => exact Nat.le_of_eq (by rw [applyEntry, (Db.deleteRow_frame _ t k).changes]; rfl)
  | upsert t r =>
      by_cases document : t = .documents
      · subst document
        have body : ((noteDocument db r).upsertRow .documents r).changes = db.changes := by
          rw [(Db.upsertRow_frame _ .documents r).changes, noteDocument_changes]
        simp only [applyEntry]
        split
        · rw [addChange, body]
          exact Nat.le_max_left _ _
        · rw [body]
      · rw [applyEntry_other now db r document, (Db.upsertRow_frame _ _ r).changes]
        exact Nat.le_refl _

/-- The change log covers the number a document arrives under. -/
theorem applyEntry_covers (db : Db) (d : DocRow) :
    d.seq ≤ (applyEntry now db (.upsert .documents d)).changes.counter := by
  simp only [applyEntry]
  split
  · exact Nat.le_max_right _ _
  · omega

/-- No document is numbered above the change log. -/
def Bounded (db : Db) : Prop :=
  ∀ k (d : DocRow), db.find .documents k = some d → d.seq ≤ db.changes.counter

theorem applyEntry_bounded {db : Db} (bounded : Bounded db) (e : StageEntry) :
    Bounded (applyEntry now db e) := by
  intro k d found
  cases e with
  | delete t k' =>
      rw [applyDelete_tables] at found
      exact Nat.le_trans (bounded k d (Db.deleteRow_find_some found)) (applyEntry_counter now db _)
  | upsert t r =>
      by_cases here : (Tbl.documents, k) = (t, keyOf t r)
      · obtain ⟨rfl, rfl⟩ := Prod.mk.inj here
        rw [applyUpsert_find_self] at found
        obtain rfl := Option.some.inj found
        exact applyEntry_covers now db r
      · rw [applyUpsert_find_ne now db t r here] at found
        exact Nat.le_trans (bounded k d found) (applyEntry_counter now db _)

theorem applyEntries_counter : (es : List StageEntry) → (db : Db) →
    db.changes.counter ≤ (es.foldl (applyEntry now) db).changes.counter
  | [], _ => Nat.le_refl _
  | e :: es, db => Nat.le_trans (applyEntry_counter now db e) (applyEntries_counter es _)

theorem applyEntries_bounded : (es : List StageEntry) → {db : Db} → Bounded db →
    Bounded (es.foldl (applyEntry now) db)
  | [], _, bounded => bounded
  | e :: es, _, bounded => applyEntries_bounded es (applyEntry_bounded now bounded e)

theorem applyEntries_covers {d : DocRow} : (es : List StageEntry) → (db : Db) →
    .upsert .documents d ∈ es → d.seq ≤ (es.foldl (applyEntry now) db).changes.counter
  | e :: es, db, mem => by
      rcases List.mem_cons.1 mem with rfl | later
      · exact Nat.le_trans (applyEntry_covers now db d) (applyEntries_counter now es _)
      · exact applyEntries_covers es _ later

/-- A document no entry names, whose account no entry removes, stays. -/
theorem applyEntries_keeps {d : DocRow} : (es : List StageEntry) → (db : Db) →
    .delete .documents [.text d.id] ∉ es →
    (∀ row : DocRow, .upsert .documents row ∈ es → row.id ≠ d.id) →
    .delete .accounts [.text d.accountId] ∉ es →
    db.find .documents [.text d.id] = some d →
    (es.foldl (applyEntry now) db).find .documents [.text d.id] = some d
  | [], _, _, _, _, found => found
  | e :: es, db, kept, unsent, account, found => by
      rw [List.mem_cons, not_or] at kept account
      refine applyEntries_keeps es _ kept.2 (fun row mem => unsent row (List.mem_cons_of_mem _ mem))
        account.2 ?_
      cases e with
      | upsert t r =>
          rw [applyUpsert_find_ne, found]
          rintro same
          obtain ⟨rfl, key⟩ := Prod.mk.inj same
          have sameId : d.id = DocRow.id r := by simpa [keyOf] using key
          exact unsent r List.mem_cons_self sameId.symm
      | delete t k =>
          have off : (Tbl.documents, [Cell.text d.id]) ≠ (t, k) := by
            rintro same
            obtain ⟨rfl, rfl⟩ := Prod.mk.inj same
            exact kept.1 rfl
          rw [applyDelete_tables]
          by_cases removed : ∃ id, (t, k) = (.accounts, [.text id])
          · obtain ⟨id, here⟩ := removed
            obtain ⟨rfl, rfl⟩ := Prod.mk.inj here
            have other : d.accountId ≠ id := fun same => account.1 (by rw [same])
            rw [Db.deleteAccount_find, if_neg off, found]
            simp [Option.filter, accountOf, other]
          · rw [Db.deleteRow_find_other db fun id h => removed ⟨id, h⟩, if_neg off, found]

end Applying

/-! ## The position of an answer -/

theorem rewound_seq_le (db : Db) (after : SyncCursor) (fromEpoch : Nat) :
    (rewound db after fromEpoch).seq ≤ after.seq := by
  unfold rewound
  split
  · exact Nat.le_refl _
  · dsimp only
    split
    · exact Nat.min_le_left _ _
    · exact Nat.le_refl _

theorem foldr_max_mem : (ns : List Nat) → ns.foldr max 0 ∈ ns ∨ ns.foldr max 0 = 0
  | [] => .inr rfl
  | n :: ns => by
      rw [List.foldr_cons]
      rcases Nat.le_total (ns.foldr max 0) n with small | large
      · rw [Nat.max_eq_left small]
        exact .inl List.mem_cons_self
      · rw [Nat.max_eq_right large]
        exact (foldr_max_mem ns).imp_left (List.mem_cons_of_mem _)

/-- The position an answer moves to is the asker's, or the number of a document
it carries. -/
theorem buildDelta_target {lineLength : StageEntry → Nat} {db : Db} {asked : SyncCursor}
    {fromEpoch capBytes : Nat} {delta : Delta}
    (answer : buildDelta lineLength db asked fromEpoch capBytes = .ok delta) :
    delta.target.seq ≤ asked.seq ∨
      ∃ row : DocRow, .upsert .documents row ∈ delta.entries ∧ row.seq = delta.target.seq := by
  have start := rewound_seq_le db asked fromEpoch
  simp only [buildDelta] at answer
  split at answer
  · cases answer
  · injection answer with answer
    subst answer
    dsimp only
    by_cases above : (rewound db asked fromEpoch).seq < documentHead db
    · right
      rw [Nat.max_eq_left (Nat.le_of_lt above)]
      rcases foldr_max_mem (db.documents.map DocRow.seq) with mem | zero
      · obtain ⟨row, there, seq⟩ := List.mem_map.1 mem
        have found : db.find .documents (keyOf .documents row) = some row :=
          Table.find_of_mem there
        refine ⟨row, List.mem_append_right _ ?_, seq⟩
        refine upsert_of_marked fromEpoch (List.mem_append_left _ (by decide))
          (.inr ⟨rfl, row, found, ?_⟩) found
        rw [seq]
        exact above
      · rw [documentHead, zero] at above
        exact absurd above (Nat.not_lt_zero _)
    · left
      rw [Nat.max_eq_right (Nat.le_of_not_lt above)]
      exact start

/-! ## Promotion -/

section Promotion

variable {db : Db} {E : Nat} {opts : PromoteOptions} {now : Time}

/-- A ledger whose epochs are all older has no row for the new one. -/
theorem missing_of_newest
    (newest : ∀ k (g : EpochRow), db.find .syncEpochs k = some g → g.epoch < E) :
    db.find .syncEpochs [.int E] = none := by
  rw [Option.eq_none_iff_forall_ne_some]
  intro g found
  have key : keyOf .syncEpochs g = [.int E] := Table.find_key found
  have cells : (g.epoch : Int) = E := by simpa [keyOf] using key
  have older := newest _ g found
  omega

/-- The converse of `unseenGrant_eq`. -/
theorem lowestGrant_of_unseen {e : Nat} {g : EpochRow} (unseen : unseenGrant db e true = some g) :
    LowestGrant db e g := by
  rw [unseenGrant, if_pos rfl] at unseen
  have sorted : (grantsAbove db e).Pairwise fun a b => a.epoch ≤ b.epoch :=
    insertionSort_sorted EpochRow.epoch _
  have first : g ∈ grantsAbove db e := List.mem_of_head? unseen
  obtain ⟨recorded, above⟩ := mem_grantsAbove.1 first
  refine ⟨recorded, above, fun g' recorded' above' => ?_⟩
  have mem := mem_grantsAbove.2 ⟨recorded', above'⟩
  obtain ⟨rest, listed⟩ := List.head?_eq_some_iff.1 unseen
  rw [listed] at mem sorted
  rcases List.mem_cons.1 mem with rfl | tail
  · exact Nat.le_refl _
  · exact (List.pairwise_cons.1 sorted).1 g' tail

/-- Opening the range of a newer epoch does not move the window. -/
theorem unseenGrant_opened {fromEpoch : Nat} {above : Bool} {g : EpochRow} {headPending : Bool}
    (newest : ∀ k (g : EpochRow), db.find .syncEpochs k = some g → g.epoch < E)
    (unseen : unseenGrant db fromEpoch above = some g) :
    unseenGrant (openRange db E headPending) fromEpoch above = some g := by
  have missing := missing_of_newest newest
  cases above with
  | true =>
      have lowest := lowestGrant_of_unseen unseen
      have older := newest _ g lowest.recorded
      refine unseenGrant_eq ⟨?_, lowest.above, fun g' recorded' above' => ?_⟩
      · rw [openRange_find_ne missing]
        · exact lowest.recorded
        · intro same
          have cells : (g.epoch : Int) = E := by simpa [keyOf] using same
          omega
      · by_cases own : keyOf .syncEpochs g' = [.int E]
        · have cells : (g'.epoch : Int) = E := by simpa [keyOf] using own
          omega
        · rw [openRange_find_ne missing (by simpa using own)] at recorded'
          exact lowest.lowest g' recorded' above'
  | false =>
      have rows : (openRange db E headPending).rows .syncEpochs =
          db.rows .syncEpochs ++ [⟨E, db.state.afterSeq, db.state.afterCursor⟩] := by
        rw [openRange_new missing]
        exact Db.rows_insertRow missing
      have found : (db.rows .syncEpochs).find? (fun (g : EpochRow) => g.epoch = fromEpoch) =
          some g := unseen
      show ((openRange db E headPending).rows .syncEpochs).find?
        (fun (g : EpochRow) => g.epoch = fromEpoch) = some g
      rw [rows, List.find?_append, found]
      rfl

/-- What renumbering leaves under a document's key: the row as it was, or the row
under a number above every older one, as it does for a number in the window. -/
theorem renumberUnseen_document {opened : Db} {fromEpoch : Nat} {above : Bool}
    (bounded : Bounded opened) {d : DocRow}
    (found : opened.find .documents (keyOf .documents d) = some d) :
    ∃ n, (renumberUnseen opened fromEpoch above now).find .documents (keyOf .documents d) =
        some { d with seq := n } ∧
      ((n = d.seq ∧ ∀ g, unseenGrant opened fromEpoch above = some g → ¬ UnseenSeq g d.seq) ∨
        opened.changes.counter < n) := by
  unfold renumberUnseen
  cases unseen : unseenGrant opened fromEpoch above with
  | none => exact ⟨d.seq, found, .inl ⟨rfl, fun g some => nomatch some⟩⟩
  | some g =>
      have numbered := renumberDocuments_spec now (unseenDocuments opened g)
        (republish opened (unseenKeys opened g)) (unseenDocuments_nodup opened g)
        (fun x mem => by
          rw [unseenDocuments, List.mem_insertionSort] at mem
          exact Table.find_of_mem (List.mem_of_mem_filter mem))
        (fun x mem => by
          rw [unseenDocuments, List.mem_insertionSort] at mem
          exact bounded _ x (Table.find_of_mem (List.mem_of_mem_filter mem)))
      by_cases listed : d ∈ unseenDocuments opened g
      · obtain ⟨i, at_i⟩ := List.mem_iff_getElem?.1 listed
        refine ⟨_, numbered.fresh i d at_i, .inr ?_⟩
        show opened.changes.counter < opened.changes.counter + 1 + i
        omega
      · refine ⟨d.seq, ?_, .inl ⟨rfl, ?_⟩⟩
        · show ((unseenDocuments opened g).foldl (renumberDocument now)
            (republish opened (unseenKeys opened g))).find .documents (keyOf .documents d) = some d
          rw [numbered.others]
          · exact found
          · intro x mem same
            have sameKey := (Prod.mk.inj same).2
            rw [unseenDocuments, List.mem_insertionSort] at mem
            have there : opened.find .documents (keyOf .documents x) = some x :=
              Table.find_of_mem (List.mem_of_mem_filter mem)
            rw [← sameKey, found] at there
            obtain rfl := Option.some.inj there
            exact listed (by rwa [unseenDocuments, List.mem_insertionSort])
        · rintro g' same unseenSeq
          obtain rfl := Option.some.inj same
          refine listed ?_
          rw [unseenDocuments, List.mem_insertionSort, List.mem_filter, decide_eq_true_eq]
          exact ⟨Table.find_mem found, unseenSeq⟩

theorem renumberUnseen_state (db : Db) (fromEpoch : Nat) (above : Bool) (now : Time) :
    (renumberUnseen db fromEpoch above now).state = db.state := by
  have through : ∀ (ds : List DocRow) (db : Db),
      (ds.foldl (renumberDocument now) db).state = db.state := by
    intro ds
    induction ds with
    | nil => exact fun _ => rfl
    | cons d ds ih => exact fun db => (ih _).trans (renumberDocument_frame now db d).state
  unfold renumberUnseen
  split
  · rfl
  · exact through _ _

/-- A document above the position, or in the window, is served after a takeover. -/
theorem servedOnTakeover_of_above {id : DocumentId} {d : DocRow}
    (role : db.state.role = .follower) (bounded : Bounded db)
    (position : db.state.afterSeq ≤ db.changes.counter)
    (found : db.find .documents [.text id] = some d)
    (above : db.state.afterSeq < d.seq ∨ InWindow db d.seq) : ServedOnTakeover db id d.view := by
  intro E opts now newer newest
  have missing := missing_of_newest newest
  have key : keyOf .documents d = [.text id] := Table.find_key found
  have promoted : promote db E opts now = forgetWorkers (publishImported
      (renumberUnseen (openRange db E opts.headPending)
        (db.state.preDemoteEpoch.getD db.state.epoch) db.state.preDemoteEpoch.isSome now)
      opts.relayImported) := by
    have follower : ¬ (db.state.role = .normal ∧ db.state.epoch = E) := by simp [role]
    simp only [promote, if_neg follower, if_pos (And.intro role newer)]
  have counter : db.changes.counter ≤ (openRange db E opts.headPending).changes.counter := by
    rw [(openRange_frame missing).changes]
    exact Nat.le_max_left _ _
  have openedFind : ∀ k, (openRange db E opts.headPending).find .documents k =
      db.find .documents k := fun k => openRange_find_ne missing (by simp)
  have openedBounded : Bounded (openRange db E opts.headPending) := fun k x there =>
    Nat.le_trans (bounded k x (openedFind k ▸ there)) counter
  have there : (openRange db E opts.headPending).find .documents (keyOf .documents d) = some d := by
    rw [openedFind, key]
    exact found
  have spec := @renumberUnseen_document now _ (db.state.preDemoteEpoch.getD db.state.epoch)
    db.state.preDemoteEpoch.isSome openedBounded d there
  obtain ⟨n, moved, number⟩ := spec
  have number_above : db.state.afterSeq < n := by
    rcases number with ⟨rfl, outside⟩ | fresh
    · rcases above with high | ⟨g, unseen, inside⟩
      · exact high
      · exact absurd inside (outside g (unseenGrant_opened newest unseen))
    · exact Nat.lt_of_le_of_lt (Nat.le_trans position counter) fresh
  refine ⟨{ d with seq := n }, ?_, rfl, fun asked fromEpoch older => ?_⟩
  · rw [promoted, ← key]
    exact moved
  · refine Nat.lt_of_le_of_lt ?_ number_above
    have grant : (promote db E opts now).find .syncEpochs [.int E] =
        some ⟨E, db.state.afterSeq, db.state.afterCursor⟩ := by
      rw [promoted]
      exact (renumberUnseen_find _ _ _ _ (by simp) _).trans (openRange_find_grant missing)
    have epoch : (promote db E opts now).state.epoch = E := by
      have opened : (openRange db E opts.headPending).state = _ := (openRange_frame missing).state
      have state := renumberUnseen_state (openRange db E opts.headPending)
        (db.state.preDemoteEpoch.getD db.state.epoch) db.state.preDemoteEpoch.isSome now
      rw [promoted]
      show (renumberUnseen _ _ _ _).state.epoch = E
      rw [state, opened]
      rfl
    exact (rewound_le (g := ⟨E, db.state.afterSeq, db.state.afterCursor⟩) grant older
      (by rw [epoch]; exact older)).1

end Promotion

/-! ## One step -/

section Steps

variable {deps : Deps} {s s' : Fleet}

/-- The window is read from the state row and the ledger. -/
theorem InWindow.of_same {db db' : Db} {seq : Nat} (inside : InWindow db seq)
    (state : db'.state = db.state) (epochs : db'.tables .syncEpochs = db.tables .syncEpochs) :
    InWindow db' seq := by
  obtain ⟨g, unseen, between⟩ := inside
  refine ⟨g, ?_, between⟩
  rw [state]
  simpa only [unseenGrant, grantsAbove, Db.rows, epochs] using unseen

theorem ownerCommit_grown {tick : Tick} {b : AccountBatch} {db db' : Db}
    (committed : ownerCommit deps tick b db = some db') :
    ∃ mid, Grown db mid ∧ db'.tables = mid.tables ∧ db'.state = mid.state ∧
      db'.changes = mid.changes := by
  unfold ownerCommit at committed
  split at committed
  · cases committed
  · split at committed
    · split at committed
      · cases committed
      · rename_i mid last ran
        obtain rfl := Option.some.inj committed
        exact ⟨mid, commitAccount_grown ran, rfl, rfl, rfl⟩
    · cases committed

/-- A commit: what it changes is above the position. -/
theorem Guarded.commit (guarded : Guarded s) {tick : Tick} {b : AccountBatch} {db : Db}
    (committed : ownerCommit deps tick b s.follower = some db) :
    Guarded { s with follower := db, own := noteOwn s.follower db (queuedPieces s.follower db) s.own } := by
  obtain ⟨mid, grown, tables, state, changes⟩ := ownerCommit_grown committed
  have find : ∀ k, db.find .documents k = mid.find .documents k := fun k =>
    Db.find_of_tables tables _ _
  have sameState : db.state = s.follower.state := state.trans grown.state
  have counter : s.follower.changes.counter ≤ db.changes.counter := by
    rw [changes]
    exact grown.counter
  refine ⟨?_, ?_, ?_, ?_, ?_⟩
  · show db.state.role = .follower
    rw [sameState]
    exact guarded.role
  · intro k d found
    have found' : mid.find .documents k = some d := (find k).symm.trans found
    rcases grown.documents k with same | ⟨x, new, -, low⟩
    · rw [same] at found'
      exact Nat.le_trans (guarded.seqs k d found') counter
    · obtain rfl := Option.some.inj (new.symm.trans found')
      show x.seq ≤ db.changes.counter
      rw [changes]
      exact low
  · show db.state.afterSeq ≤ db.changes.counter
    rw [sameState]
    exact Nat.le_trans guarded.position counter
  · intro delta answered
    exact (guarded.answer delta answered).imp_left fun low => Nat.le_trans low counter
  · intro id o owned
    simp only [noteOwn] at owned
    split at owned
    · rename_i same
      rcases guarded.pending id o owned with incorporated | ⟨d, found, view, above⟩
      · exact .inl incorporated
      · refine .inr ⟨d, same.trans found, view, ?_⟩
        rw [sameState]
        exact above.imp_right fun inside =>
          inside.of_same sameState ((congrFun tables _).trans grown.epochs)
    · rename_i changed
      obtain ⟨d, found, rfl⟩ := Option.map_eq_some_iff.1 owned
      refine .inr ⟨d, found, rfl, .inl ?_⟩
      rcases grown.documents [.text id] with same | ⟨x, new, fresh, -⟩
      · exact absurd ((find _).trans same) changed
      · obtain rfl := Option.some.inj (new.symm.trans ((find _).symm.trans found))
        show db.state.afterSeq < x.seq
        rw [sameState]
        exact Nat.lt_of_le_of_lt guarded.position fresh

/-- An applied delta that clears the pending documents. -/
theorem Guarded.apply (guarded : Guarded s) {now : Time} {delta : Delta} {db : Db}
    (answered : s.answer = some delta) (calm : Calm s (.apply now))
    (applied : applyDeltaTx now s.follower delta.entries delta.target delta.epoch = .ok db) :
    Guarded { s with follower := db, answer := none } := by
  obtain rfl := applyDeltaTx_ok applied
  have state := applyEntries_state now delta.entries s.follower
  have grows := applyEntries_counter now delta.entries s.follower
  refine ⟨?_, ?_, ?_, fun _ idle => (nomatch idle), ?_⟩
  · show (storeTarget _ _ _).state.role = .follower
    rw [storeTarget, state]
    exact guarded.role
  · exact applyEntries_bounded now delta.entries guarded.seqs
  · show delta.target.seq ≤ _
    rcases guarded.answer delta answered with low | ⟨row, sent, seq⟩
    · exact Nat.le_trans low grows
    · rw [← seq]
      exact applyEntries_covers now delta.entries s.follower sent
  · intro id o owned
    rcases guarded.pending id o owned with incorporated | ⟨d, found, view, -⟩
    · exact .inl incorporated
    · by_cases incorporated : Incorporated s o
      · exact .inl incorporated
      · have clears := calm delta answered id o d owned incorporated found
        have key : keyOf .documents d = [.text id] := Table.find_key found
        have sameId : d.id = id := by simpa [keyOf] using key
        subst sameId
        exact .inr ⟨d, applyEntries_keeps now delta.entries s.follower clears.kept clears.unsent
          clears.account found, view, clears.position⟩

theorem Guarded.step (guarded : Guarded s) {a : Action} (calm : Calm s a)
    (stepped : s.step deps a = some s') : Guarded s' := by
  cases a with
  | commit b tick =>
      obtain ⟨db, committed, rfl⟩ := Option.map_eq_some_iff.1 stepped
      exact guarded.commit committed
  | lead leader =>
      obtain rfl := Option.some.inj stepped
      exact ⟨guarded.role, guarded.seqs, guarded.position, guarded.answer, guarded.pending⟩
  | ask lineLength capBytes =>
      simp only [Fleet.step] at stepped
      split at stepped
      · cases stepped
      · rename_i delta answer
        obtain rfl := Option.some.inj stepped
        refine ⟨guarded.role, guarded.seqs, guarded.position, fun d same => ?_, guarded.pending⟩
        obtain rfl := Option.some.inj same
        exact (buildDelta_target answer).imp_left fun low => Nat.le_trans low guarded.position
  | apply now =>
      simp only [Fleet.step] at stepped
      split at stepped
      · cases stepped
      · rename_i delta answered
        split at stepped
        · obtain rfl := Option.some.inj stepped
          exact ⟨guarded.role, guarded.seqs, guarded.position, fun _ idle => (nomatch idle),
            guarded.pending⟩
        · rename_i db applied
          obtain rfl := Option.some.inj stepped
          exact guarded.apply answered calm applied
  | deliver n tick =>
      simp only [Fleet.step] at stepped
      split at stepped
      · cases stepped
      · split at stepped
        · obtain rfl := Option.some.inj stepped
          exact guarded
        · obtain rfl := Option.some.inj stepped
          refine ⟨guarded.role, guarded.seqs, guarded.position, guarded.answer, fun id o owned => ?_⟩
          exact (guarded.pending id o owned).imp_left fun incorporated m mem =>
            List.mem_cons_of_mem _ (incorporated m mem)
  | acknowledge n =>
      simp only [Fleet.step] at stepped
      split at stepped
      · obtain rfl := Option.some.inj stepped
        exact ⟨guarded.role, guarded.seqs, guarded.position, guarded.answer, guarded.pending⟩
      · cases stepped

theorem Guarded.noneLost (guarded : Guarded s) : NoneLost s := by
  intro id o owned
  rcases guarded.pending id o owned with incorporated | ⟨d, found, view, above⟩
  · exact .inl incorporated
  · right
    rw [← view]
    exact servedOnTakeover_of_above guarded.role guarded.seqs guarded.position found above

end Steps

/-- A follower between two pulls, that has written nothing of its own since: its
change log covers its documents and its position. -/
structure Settled (s : Fleet) : Prop where
  role : s.follower.state.role = .follower
  seqs : Bounded s.follower
  position : s.follower.state.afterSeq ≤ s.follower.changes.counter
  idle : s.answer = none
  unowned : ∀ id, s.own id = none

/-- **No owner write is lost in a run whose deltas clear what is pending.** -/
theorem owned_writes_survive {deps : Deps} {s s' : Fleet} {actions : List Action}
    (settled : Settled s) (calm : Along (Fleet.step deps) Calm s actions)
    (ran : runSteps (Fleet.step deps) s actions = some s') : NoneLost s' := by
  have start : Guarded s := ⟨settled.role, settled.seqs, settled.position,
    fun delta answered => (by rw [settled.idle] at answered; cases answered),
    fun id o owned => (by rw [settled.unowned] at owned; cases owned)⟩
  exact (run_keeps (fun _ _ _ guarded calm stepped => Guarded.step guarded calm stepped) start
    calm ran).noneLost

/-! ### A pull past a queued document -/

def chatRow : AccountRow :=
  ⟨"acc", "whatsapp", "me", "\x7b\x7d", "live", none, none, none, none, none, 0, some "phone"⟩

/-- A follower in epoch 2 that owns one account, at the second number of the epoch. -/
def ownerPhone : Db :=
  let joined := { Db.fresh with
    state := { SyncState.fresh with
      role := .follower, afterSeq := 2 * epochGap + 1, joined := true, epoch := 2
      deviceId := some "phone" }
    changes := SeqLog.empty.raise (2 * epochGap + 1) }
  (joined.insertRow .accounts chatRow).insertRow .syncEpochs ⟨2, epochGap, epochGap⟩

/-- Its leader, once it has written two documents of its own. -/
def busyLeader : Db :=
  let led := { Db.fresh with
    state := { SyncState.fresh with tracking := true, epoch := 2 }
    changes := SeqLog.empty.raise (2 * epochGap + 1) }
  let accounts := led.insertRow .accounts chatRow
  let row := fun (name : String) (seq : Nat) =>
    newRow Deps.spelled 0 "acc" ⟨name, "chat", none, none, none, [], none, none, none⟩ none seq
  ((accounts.appendChange .document "l1" 0).insertRow .documents (row "l1" (2 * epochGap + 2))
    |>.appendChange .document "l2" 0).insertRow .documents (row "l2" (2 * epochGap + 3))

def phoneFleet : Fleet := ⟨ownerPhone, Db.fresh, none, fun _ => none, []⟩

def messageBatch : AccountBatch :=
  ⟨"acc", [⟨"m", "chat", none, some "hello", none, [], none, none, none⟩], none, none, none, none,
    none, none, none⟩

def messageId : DocumentId := documentId Deps.spelled "acc" ⟨"m", "chat"⟩

/-- The owner commits, the leader writes, and the follower pulls before its queue
has drained. -/
def pastQueued : List Action :=
  [.commit messageBatch ⟨0, none⟩, .lead busyLeader, .ask (fun _ => 0) 0, .apply 0]

theorem phoneFleet_settled : Settled phoneFleet where
  role := rfl
  seqs k d found := by
    have mem : d ∈ ownerPhone.documents := Table.find_mem found
    have empty : ownerPhone.documents = [] := by decide
    rw [empty] at mem
    cases mem
  position := by decide
  idle := rfl
  unowned _ := rfl

/-- **The message is lost**: promoted to epoch 3, the device records a grant above
it, and a device at that position is never sent it. -/
theorem pull_past_queued_message :
    ∃ s', Settled phoneFleet ∧
      runSteps (Fleet.step Deps.spelled) phoneFleet pastQueued = some s' ∧ ¬ NoneLost s' := by
  have ran : (runSteps (Fleet.step Deps.spelled) phoneFleet pastQueued).isSome = true := by
    decide +kernel
  have queued : (runSteps (Fleet.step Deps.spelled) phoneFleet pastQueued).map
      (fun s => ((s.own messageId).map Own.pieces, s.ran)) = some (some [1], []) := by
    decide +kernel
  have served : (runSteps (Fleet.step Deps.spelled) phoneFleet pastQueued).map
      (fun s => (((promote s.follower 3 ⟨true, true⟩ 0).find .documents [.text messageId]).map
          (fun (d : DocRow) => d.seq),
        (rewound (promote s.follower 3 ⟨true, true⟩ 0) ⟨3 * epochGap, 0⟩ 2).seq,
        s.follower.state.epoch,
        (s.follower.rows .syncEpochs).all fun (g : EpochRow) => decide (g.epoch < 3))) =
      some (some (2 * epochGap + 2), 2 * epochGap + 3, 2, true) := by
    decide +kernel
  obtain ⟨s', same⟩ := Option.isSome_iff_exists.1 ran
  rw [same] at queued served
  simp only [Option.map_some, Option.some.injEq, Prod.mk.injEq] at queued served
  obtain ⟨pieces, unrun⟩ := queued
  obtain ⟨number, grant, epoch, older⟩ := served
  refine ⟨s', phoneFleet_settled, same, fun kept => ?_⟩
  obtain ⟨o, owned, carried⟩ := Option.map_eq_some_iff.1 pieces
  rcases kept messageId o owned with incorporated | served
  · have mem := incorporated 1 (by rw [carried]; exact List.mem_cons_self)
    rw [unrun] at mem
    cases mem
  · obtain ⟨d, found, -, above⟩ := served 3 ⟨true, true⟩ 0 (by rw [epoch]; decide)
      fun k g there => by
        have listed := List.all_eq_true.1 older g (Table.find_mem there)
        simpa using listed
    have high := above ⟨3 * epochGap, 0⟩ 2 (by decide)
    rw [found] at number
    have seq : d.seq = 2 * epochGap + 2 := Option.some.inj number
    omega

/-- The same device, pulling before it writes. -/
def pullFirst : List Action :=
  [.lead busyLeader, .ask (fun _ => 0) 0, .apply 0, .commit messageBatch ⟨0, none⟩]

theorem owned_writes_survive_pullFirst :
    ∃ s', runSteps (Fleet.step Deps.spelled) phoneFleet pullFirst = some s' ∧ NoneLost s' := by
  have ran : (runSteps (Fleet.step Deps.spelled) phoneFleet pullFirst).isSome = true := by
    decide +kernel
  obtain ⟨s', same⟩ := Option.isSome_iff_exists.1 ran
  refine ⟨s', same, owned_writes_survive phoneFleet_settled ?_ same⟩
  refine ⟨trivial, fun s₁ led => ⟨trivial, fun s₂ asked => ⟨?_, fun s₃ _ => ⟨trivial, fun _ _ =>
    trivial⟩⟩⟩⟩
  -- Nothing is pending when the delta is applied.
  obtain rfl := Option.some.inj led
  intro delta _ id o d owned
  simp only [Fleet.step] at asked
  split at asked
  · cases asked
  · obtain rfl := Option.some.inj asked
    cases owned

end Kiagent.Sync
