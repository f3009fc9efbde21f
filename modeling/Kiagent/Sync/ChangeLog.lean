/-
# Sync.ChangeLog -- two writers of one change log

On a follower the leader's numbers arrive by copy, with `INSERT OR IGNORE`, while
the owner's commits take the next local number.  A number that is already taken
keeps its row, and the document copied under it has none.

* `number_taken` -- an owner's commit and a delta of the leader give two documents
  one number, and the feed visits one of them;
* `follower_log_consistent` -- in every run whose deltas bring numbers that are
  free, or the document's own, each document has its row of the log, the documents
  are numbered apart, and the feed visits each exactly at its number.
-/
import Kiagent.Store.Feed
import Kiagent.Sync.Fleet

namespace Kiagent.Sync

open Kiagent.Theory
open Kiagent.Store

set_option autoImplicit false

inductive LogAct where
  | apply (now : Time) (entries : List StageEntry) (target : SyncCursor) (epoch : Nat)
  /-- The guarded commit of an owner. -/
  | own (tick : Tick) (b : AccountBatch)
  /-- Any commit, whatever the guard would say. -/
  | write (tick : Tick) (batch : CommitBatch)

/-- A refused write leaves the database as it was. -/
def logStep (deps : Deps) (db : Db) : LogAct → Option Db
  | .apply now entries target epoch =>
      match applyDeltaTx now db entries target epoch with
      | .ok db' => some db'
      | .error _ => some db
  | .own tick b => some ((ownerCommit deps tick b db).getD db)
  | .write tick batch =>
      match commitTx deps tick.now tick.publishedAt batch db with
      | .ok r => some r.1
      | .error _ => some db

/-- A copied document's number is free here, or its own. -/
structure NumberFree (db : Db) (entries : List StageEntry) (row : DocRow) : Prop where
  free : 0 < row.seq → ∀ e ∈ db.changes.entries, e.1 = row.seq →
    e.2.kind = .document ∧ e.2.refId = row.id
  unnumbered : row.seq = 0 → ∀ d ∈ db.documents, d.seq = 0 → d.id = row.id
  apart : ∀ row' : DocRow, .upsert .documents row' ∈ entries → row'.seq = row.seq → row'.id = row.id

def NumbersFree (db : Db) : LogAct → Prop
  | .apply _ entries _ _ => ∀ row : DocRow, .upsert .documents row ∈ entries →
      NumberFree db entries row
  | _ => True

/-! ## Applying a delta -/

/-- What has been applied so far: documents that were there or came, and log rows that
were there or came with one. -/
structure Applied (db : Db) (entries : List StageEntry) (cur : Db) : Prop where
  documents : ∀ d ∈ cur.documents, d ∈ db.documents ∨ .upsert .documents d ∈ entries
  log : ∀ e ∈ db.changes.entries, e ∈ cur.changes.entries
  came : ∀ e ∈ cur.changes.entries, e ∈ db.changes.entries ∨ ∃ row : DocRow,
    .upsert .documents row ∈ entries ∧ row.seq = e.1 ∧ e.2.kind = .document ∧ e.2.refId = row.id
  numbered : ∀ d ∈ cur.documents, 0 < d.seq → InLog cur d.seq d.id

section Applying

variable {db cur : Db} {entries : List StageEntry} {now : Time}

/-- An entry that writes no document and no log row. -/
theorem Applied.of_quiet {cur' : Db} (applied : Applied db entries cur)
    (documents : ∀ d ∈ cur'.documents, d ∈ cur.documents) (changes : cur'.changes = cur.changes) :
    Applied db entries cur' where
  documents d mem := applied.documents d (documents d mem)
  log := by rw [changes]; exact applied.log
  came := by rw [changes]; exact applied.came
  numbered d mem positive := by
    have here := applied.numbered d (documents d mem) positive
    rwa [InLog, ← changes] at here

/-- The log after a document: one row more under its number, unless it is taken. -/
theorem applyDocument_changes (row : DocRow) :
    (applyEntry now cur (.upsert .documents row)).changes =
      if 0 < row.seq then cur.changes.insertAt row.seq ⟨.document, row.id, now⟩ else cur.changes := by
  have body : ((noteDocument cur row).upsertRow .documents row).changes = cur.changes := by
    rw [(Db.upsertRow_frame _ .documents row).changes, noteDocument_changes]
  simp only [applyEntry]
  split
  · rw [addChange, body]
  · exact body

theorem applyDocument_mem {row d : DocRow}
    (mem : d ∈ (applyEntry now cur (.upsert .documents row)).documents) :
    d = row ∨ d ∈ cur.documents := by
  have found := mem_documents.1 mem
  by_cases here : keyOf .documents d = keyOf .documents row
  · rw [here, applyUpsert_find_self now cur .documents row] at found
    exact .inl (Option.some.inj found).symm
  · have off : ((Tbl.documents, keyOf .documents d) : Tbl × Key) ≠
        (.documents, keyOf .documents row) := fun h => here (Prod.mk.inj h).2
    rw [applyUpsert_find_ne now cur .documents row off] at found
    exact .inr (mem_documents.2 found)

/-- A document comes under its number: the row of the log is its own. -/
theorem Applied.document (fits : ∀ row : DocRow, .upsert .documents row ∈ entries →
      NumberFree db entries row) (applied : Applied db entries cur) {row : DocRow}
    (mem : .upsert .documents row ∈ entries) :
    Applied db entries (applyEntry now cur (.upsert .documents row)) := by
  have changes : (applyEntry now cur (.upsert .documents row)).changes =
      if 0 < row.seq then cur.changes.insertAt row.seq ⟨.document, row.id, now⟩
      else cur.changes := applyDocument_changes row
  by_cases positive : 0 < row.seq
  · rw [if_pos positive] at changes
    have log : ∀ e ∈ cur.changes.entries,
        e ∈ (applyEntry now cur (.upsert .documents row)).changes.entries := by
      rw [changes]
      exact fun e mem => SeqLog.mem_insertEntry_old _ _ _ mem
    have came : ∀ e ∈ (applyEntry now cur (.upsert .documents row)).changes.entries,
        e ∈ db.changes.entries ∨ ∃ row' : DocRow, .upsert .documents row' ∈ entries ∧
          row'.seq = e.1 ∧ e.2.kind = .document ∧ e.2.refId = row'.id := by
      intro e there
      rw [changes] at there
      rcases SeqLog.mem_insertEntry _ there with rfl | old
      · exact .inr ⟨row, mem, rfl, rfl, rfl⟩
      · exact applied.came e old
    refine ⟨fun d there => ?_, fun e there => log e (applied.log e there), came, fun d there up => ?_⟩
    · rcases applyDocument_mem there with rfl | old
      · exact .inr mem
      · exact applied.documents d old
    · rcases applyDocument_mem there with rfl | old
      · obtain ⟨e, taken, number⟩ : ∃ e ∈ (applyEntry now cur (.upsert .documents d)).changes.entries,
            e.1 = d.seq := by
          rw [changes]
          exact SeqLog.mem_insertEntry_self _ _ _
        rcases came e taken with old | ⟨row', mem', number', kind, ref⟩
        · exact ⟨e, taken, number, (fits d mem).free positive e old number⟩
        · refine ⟨e, taken, number, kind, ?_⟩
          rw [ref, (fits d mem).apart row' mem' (number'.trans number)]
      · exact (applied.numbered d old up).mono log
  · rw [if_neg positive] at changes
    refine ⟨fun d there => ?_, by rw [changes]; exact applied.log, by rw [changes]; exact applied.came,
      fun d there up => ?_⟩
    · rcases applyDocument_mem there with rfl | old
      · exact .inr mem
      · exact applied.documents d old
    · rcases applyDocument_mem there with rfl | old
      · exact absurd up positive
      · exact (applied.numbered d old up).mono (by rw [changes]; exact fun _ mem => mem)

theorem Applied.entry (fits : ∀ row : DocRow, .upsert .documents row ∈ entries →
      NumberFree db entries row) (applied : Applied db entries cur) {e : StageEntry}
    (mem : e ∈ entries) : Applied db entries (applyEntry now cur e) := by
  cases e with
  | delete t pk =>
      have changes : (applyEntry now cur (.delete t pk)).changes = cur.changes := by
        rw [applyEntry, (Db.deleteRow_frame _ t pk).changes]
        rfl
      refine applied.of_quiet (fun d there => ?_) changes
      have found := mem_documents.1 there
      rw [applyDelete_tables] at found
      exact mem_documents.2 (Db.deleteRow_find_some found)
  | upsert t row =>
      by_cases document : t = .documents
      · subst document
        exact applied.document fits mem
      · have changes : (applyEntry now cur (.upsert t row)).changes = cur.changes := by
          rw [applyEntry_other now cur row document, (Db.upsertRow_frame _ t row).changes]
          rfl
        refine applied.of_quiet (fun d there => ?_) changes
        have found := mem_documents.1 there
        have off : ((Tbl.documents, keyOf .documents d) : Tbl × Key) ≠ (t, keyOf t row) :=
          fun h => document (Prod.mk.inj h).1.symm
        rw [applyUpsert_find_ne now cur t row off] at found
        exact mem_documents.2 found

theorem Applied.all (fits : ∀ row : DocRow, .upsert .documents row ∈ entries →
      NumberFree db entries row) : (es : List StageEntry) → (∀ e ∈ es, e ∈ entries) → {cur : Db} →
    Applied db entries cur → Applied db entries (es.foldl (applyEntry now) cur)
  | [], _, _, applied => applied
  | e :: es, sub, _, applied =>
      Applied.all fits es (fun e mem => sub e (List.mem_cons_of_mem _ mem))
        (applied.entry fits (sub e (List.mem_cons_self ..)))

/-- Applied to the end, a logged device is logged. -/
theorem Applied.logged (logged : Logged db) (fits : ∀ row : DocRow,
      .upsert .documents row ∈ entries → NumberFree db entries row)
    (applied : Applied db entries cur) : Logged cur where
  numbered := applied.numbered
  unnumbered d mem d' mem' zero zero' := by
    rcases applied.documents d mem with old | came
    · rcases applied.documents d' mem' with old' | came'
      · exact logged.unnumbered d old d' old' zero zero'
      · exact (fits d' came').unnumbered zero' d old zero
    · rcases applied.documents d' mem' with old' | came'
      · exact ((fits d came).unnumbered zero d' old' zero').symm
      · exact (fits d' came').apart d came (zero.trans zero'.symm)

/-- **A delta that brings free numbers keeps a follower logged.** -/
theorem applyDeltaTx_logged {target : SyncCursor} {epoch : Nat} (logged : Logged db)
    (fits : ∀ row : DocRow, .upsert .documents row ∈ entries → NumberFree db entries row)
    (applied : applyDeltaTx now db entries target epoch = .ok cur) : Logged cur := by
  have start : Applied db entries db :=
    ⟨fun _ mem => .inl mem, fun _ mem => mem, fun _ mem => .inl mem, logged.numbered⟩
  have all : Applied db entries (entries.foldl (applyEntry now) db) :=
    start.all fits entries fun _ mem => mem
  have done := all.logged logged fits
  unfold applyDeltaTx at applied
  split at applied
  · cases applied
  · split at applied
    · cases applied
    · dsimp only at applied
      split at applied
      · obtain rfl := Except.ok.inj applied
        exact ⟨done.numbered, done.unnumbered⟩
      · cases applied

end Applying

/-! ## Runs of a follower -/

section Run

variable {deps : Deps}

theorem ownerCommit_relogged {tick : Tick} {b : AccountBatch} {db db' : Db}
    (committed : ownerCommit deps tick b db = some db') : Relogged db db' := by
  unfold ownerCommit at committed
  split at committed
  · cases committed
  · split at committed
    · split at committed
      · cases committed
      · rename_i db₁ _ done
        obtain rfl := Option.some.inj committed
        exact (Relogged.of_commitAccount done).trans (.of_documents (fun _ mem => mem) rfl)
    · cases committed

theorem logStep_logged {db db' : Db} {act : LogAct} (logged : Logged db) (fits : NumbersFree db act)
    (stepped : logStep deps db act = some db') : Logged db' := by
  cases act with
  | apply now entries target epoch =>
      simp only [logStep] at stepped
      split at stepped
      · rename_i applied
        obtain rfl := Option.some.inj stepped
        exact applyDeltaTx_logged logged fits applied
      · obtain rfl := Option.some.inj stepped
        exact logged
  | own tick b =>
      obtain rfl := Option.some.inj stepped
      cases committed : ownerCommit deps tick b db with
      | none => exact logged
      | some db' => exact (ownerCommit_relogged committed).logged logged
  | write tick batch =>
      simp only [logStep] at stepped
      split at stepped
      · rename_i committed
        obtain rfl := Option.some.inj stepped
        exact (Relogged.of_commitTx committed).logged logged
      · obtain rfl := Option.some.inj stepped
        exact logged

/-- **On a follower the feed visits every document exactly at its number**, in every run
whose deltas bring numbers that are free or the document's own. -/
theorem follower_log_consistent {db s : Db} {acts : List LogAct} (logged : Logged db)
    (fits : Along (logStep deps) NumbersFree db acts) (ran : runSteps (logStep deps) db acts = some s) :
    (∀ d ∈ s.documents, 0 < d.seq → InLog s d.seq d.id) ∧
      (∀ d ∈ s.documents, ∀ d' ∈ s.documents, d.seq = d'.seq → d = d') ∧
      ∀ d ∈ s.documents, 0 < d.seq → ∀ after,
        (materialize s after [] false).1.filter (Change.isOf d.id) =
          if after < d.seq ∧ d.seq ≤ (materialize s after [] false).2 then [.document d.seq d]
          else [] := by
  have done := run_keeps (I := Logged) (fun _ _ _ logged fits stepped =>
    logStep_logged logged fits stepped) logged fits ran
  exact ⟨done.numbered, fun d mem d' mem' same => done.distinct mem mem' same,
    fun d mem positive after => materialize_visits done mem positive after⟩

end Run

/-! ## A number taken twice -/

instance (db : Db) (seq : Nat) (id : DocumentId) : Decidable (InLog db seq id) :=
  inferInstanceAs (Decidable (∃ e ∈ db.changes.entries,
    e.1 = seq ∧ e.2.kind = .document ∧ e.2.refId = id))

/-- What the busy leader sends a follower at `ownerPhone`'s position. -/
def busyDelta : Delta :=
  match buildDelta (fun _ => 0) busyLeader (storedCursor ownerPhone) 2 0 with
  | .ok delta => delta
  | .tooLarge => ⟨[], ⟨0, 0⟩, ⟨0, 0⟩, 0⟩

def pullBusy : LogAct := .apply 0 busyDelta.entries busyDelta.target busyDelta.epoch

def ownMessage : LogAct := .own ⟨0, none⟩ messageBatch

theorem ownerPhone_logged : Logged ownerPhone := logged_of_empty (by decide)

/-- **Two documents under one number**: the owner commits a message, the leader's
delta brings a document under the same number, and the feed passes it by. -/
theorem number_taken :
    Logged ownerPhone ∧
      ∃ s, runSteps (logStep Deps.spelled) ownerPhone [ownMessage, pullBusy] = some s ∧
        ∃ d ∈ s.documents, 0 < d.seq ∧ ¬ InLog s d.seq d.id ∧
          (∃ d' ∈ s.documents, d'.seq = d.seq ∧ d'.id ≠ d.id) ∧
          (materialize s 0 [] false).1.filter (Change.isOf d.id) = [] ∧
          d.seq ≤ (materialize s 0 [] false).2 := by
  refine ⟨ownerPhone_logged, ?_⟩
  have ran : (runSteps (logStep Deps.spelled) ownerPhone [ownMessage, pullBusy]).any (fun s =>
      decide (∃ d ∈ s.documents, 0 < d.seq ∧ ¬ InLog s d.seq d.id ∧
        (∃ d' ∈ s.documents, d'.seq = d.seq ∧ d'.id ≠ d.id) ∧
        (materialize s 0 [] false).1.filter (Change.isOf d.id) = [] ∧
        d.seq ≤ (materialize s 0 [] false).2)) = true := by
    decide +kernel
  obtain ⟨s, same, taken⟩ := (Option.any_eq_true _ _).1 ran
  exact ⟨s, same, of_decide_eq_true taken⟩

/-- The documents a delta brings. -/
def broughtBy (entries : List StageEntry) : List DocRow :=
  entries.filterMap fun
    | .upsert .documents row => some row
    | _ => none

theorem mem_broughtBy {entries : List StageEntry} {row : DocRow}
    (mem : .upsert .documents row ∈ entries) : row ∈ broughtBy entries :=
  List.mem_filterMap.2 ⟨_, mem, rfl⟩

theorem pullBusy_free : NumbersFree ownerPhone pullBusy := by
  have free : ∀ row ∈ broughtBy busyDelta.entries, 0 < row.seq ∧
      (∀ e ∈ ownerPhone.changes.entries, e.1 ≠ row.seq) ∧
      ∀ row' ∈ broughtBy busyDelta.entries, row'.seq = row.seq → row'.id = row.id := by
    decide +kernel
  intro row mem
  obtain ⟨positive, untaken, apart⟩ := free row (mem_broughtBy mem)
  exact
    { free := fun _ e there same => absurd same (untaken e there)
      unnumbered := fun zero => absurd zero (Nat.ne_of_gt positive)
      apart := fun row' mem' => apart row' (mem_broughtBy mem') }

/-- The same device, pulling before it writes. -/
theorem follower_log_consistent_pullBusy :
    ∃ s, runSteps (logStep Deps.spelled) ownerPhone [pullBusy, ownMessage] = some s ∧
      (∀ d ∈ s.documents, 0 < d.seq → InLog s d.seq d.id) ∧
      ∀ d ∈ s.documents, ∀ d' ∈ s.documents, d.seq = d'.seq → d = d' := by
  have ran : (runSteps (logStep Deps.spelled) ownerPhone [pullBusy, ownMessage]).isSome = true := by
    decide +kernel
  obtain ⟨s, same⟩ := Option.isSome_iff_exists.1 ran
  have fits : Along (logStep Deps.spelled) NumbersFree ownerPhone [pullBusy, ownMessage] :=
    ⟨pullBusy_free, fun _ _ => ⟨trivial, fun _ _ => trivial⟩⟩
  have consistent := follower_log_consistent ownerPhone_logged fits same
  exact ⟨s, same, consistent.1, consistent.2.1⟩

end Kiagent.Sync
