/-
# Store.Reconcile -- the staged listing, the diff, and archiving by chunk

A reconcile pass stages what the source lists and archives what is not listed.
The staging tables live on the connection, shared by the passes of all accounts;
a connection that restarts has none, and every step but the first refuses to go
on without the marker of its pass.

* `archiveBatch_archived` -- a chunk archives its rows and their live children,
  and leaves every other document as it is;
* `mem_pick_of_short` -- a chunk that came back short took every row there was.

A chunk takes any rows the predicate holds of: the statement has a `LIMIT` and no
order.
-/
import Kiagent.Store.Documents
import Mathlib.Data.Set.Insert

namespace Kiagent.Store

open Kiagent.Theory

set_option autoImplicit false

/-! ## Staging -/

/-- The two temporary tables of a connection. -/
structure StagingTables where
  listing : List (AccountId × ExternalRef)
  passes : List AccountId
  deriving DecidableEq, Repr

/-- A connection that has just been opened has neither. -/
abbrev Staging := Option StagingTables

def Staging.listing (st : Staging) : List (AccountId × ExternalRef) :=
  (st.map StagingTables.listing).getD []

def beginPass (account : AccountId) (st : Staging) : Staging :=
  let tables := st.getD ⟨[], []⟩
  some
    { listing := tables.listing.filter fun e => e.1 ≠ account
      passes := if account ∈ tables.passes then tables.passes else account :: tables.passes }

/-- `ReconcileStagingLost` when it does not hold. -/
def requirePass (account : AccountId) (st : Staging) : Bool :=
  st.any fun tables => decide (account ∈ tables.passes)

def endPass (account : AccountId) (st : Staging) : Staging :=
  st.map fun tables =>
    { listing := tables.listing.filter fun e => e.1 ≠ account
      passes := tables.passes.filter fun a => a ≠ account }

/-- `INSERT OR IGNORE`. -/
def stageRef (account : AccountId) (listing : List (AccountId × ExternalRef)) (r : ExternalRef) :
    List (AccountId × ExternalRef) :=
  if (account, r) ∈ listing then listing else listing ++ [(account, r)]

/-- `none`: the staging is lost. -/
def reconcileStage (account : AccountId) (refs : List ExternalRef) (st : Staging) :
    Option Staging :=
  if requirePass account st then
    some (st.map fun tables =>
      { tables with listing := refs.foldl (stageRef account) tables.listing })
  else none

/-! ## The diff -/

/-- Live, and committed at or before the snapshot. -/
def eligible (account : AccountId) (startSeq : Nat) (d : DocRow) : Bool :=
  decide (d.accountId = account) && d.live && decide (d.seq ≤ startSeq)

def listed (st : Staging) (d : DocRow) : Bool :=
  decide ((d.accountId, d.ref) ∈ Staging.listing st)

/-- A child is kept while its parent is live, and listed or newer than the snapshot. -/
def keptByParent (db : Db) (st : Staging) (startSeq : Nat) (d : DocRow) : Bool :=
  db.documents.any fun p =>
    decide (d.parentId = some p.id) && p.live && (decide (startSeq < p.seq) || listed st p)

def unlisted (db : Db) (st : Staging) (startSeq : Nat) (d : DocRow) : Bool :=
  !listed st d && !keptByParent db st startSeq d

structure ReconcileCounts where
  listedCount : Nat
  liveCount : Nat
  deletionCount : Nat
  deriving DecidableEq, Repr

/-- The guard judges the listing on top-level rows. -/
def reconcileDiff (db : Db) (st : Staging) (account : AccountId) (startSeq : Nat) :
    Option ReconcileCounts :=
  let top := db.documents.filter fun d => eligible account startSeq d && d.parentId.isNone
  if requirePass account st then
    some
      { listedCount := ((Staging.listing st).filter fun e => e.1 = account).length
        liveCount := top.length
        deletionCount := (top.filter (unlisted db st startSeq)).length }
  else none

/-! ## Archiving a chunk -/

/-- `RECONCILE_ARCHIVE_BATCH`. -/
def reconcileArchiveBatch : Nat := 5000

/-- The rows a chunk may take. -/
def candidates (db : Db) (st : Staging) (account : AccountId) (startSeq : Nat) : List DocumentId :=
  (db.documents.filter fun d => eligible account startSeq d && unlisted db st startSeq d).map
    DocRow.id

/-- What `SELECT .. LIMIT ?` may answer. -/
def mayPick (all : List DocumentId) (limit : Nat) (pick : List DocumentId) : Bool :=
  decide pick.Nodup && pick.all (fun id => decide (id ∈ all)) &&
    decide (pick.length = min limit all.length)

/-- A row, then its children, past the snapshot too. -/
def archiveRow (now : Time) (db : Db) (id : DocumentId) : Db :=
  archiveChildren now (archiveDocument now db id) id

def archiveBatch (now : Time) (db : Db) (pick : List DocumentId) : Db :=
  pick.foldl (archiveRow now) db

/-- One chunk: the documents, the staging, and whether it was the last.  `none` when
the staging is lost, or the rows are not such an answer. -/
def reconcileArchiveChunk (now : Time) (account : AccountId) (startSeq limit : Nat)
    (pick : List DocumentId) (db : Db) (st : Staging) : Option (Db × Staging × Bool) :=
  if requirePass account st && mayPick (candidates db st account startSeq) limit pick then
    let done := decide (pick.length < limit)
    some (archiveBatch now db pick, if done then endPass account st else st, done)
  else none

/-! ## What a chunk archives -/

/-- The documents of `gone` are archived, and no other changes. -/
def Archived (gone : Set DocumentId) (db db' : Db) : Prop :=
  ∃ f : DocRow → DocRow, db'.documents = db.documents.map f ∧
    (∀ d, d.id ∉ gone → f d = d) ∧
    ∀ d, (f d).id = d.id ∧ (f d).natural = d.natural ∧ (f d).parentId = d.parentId ∧
      (d.id ∈ gone → (f d).live = false)

namespace Archived

theorem refl (db : Db) : Archived ∅ db db :=
  ⟨id, (List.map_id _).symm, fun _ _ => rfl, fun _ => ⟨rfl, rfl, rfl, nofun⟩⟩

theorem trans {gone gone' : Set DocumentId} {a b c : Db} (first : Archived gone a b)
    (second : Archived gone' b c) : Archived (gone ∪ gone') a c := by
  obtain ⟨f, rows, same, moved⟩ := first
  obtain ⟨f', rows', same', moved'⟩ := second
  refine ⟨f' ∘ f, by rw [rows', rows, List.map_map], fun d kept => ?_, fun d => ?_⟩
  · have kept₁ : d.id ∉ gone := fun mem => kept (.inl mem)
    have kept₂ : d.id ∉ gone' := fun mem => kept (.inr mem)
    rw [Function.comp_apply, same d kept₁, same' d kept₂]
  · obtain ⟨id, natural, parent, dead⟩ := moved d
    obtain ⟨id', natural', parent', dead'⟩ := moved' (f d)
    refine ⟨id'.trans id, natural'.trans natural, parent'.trans parent, fun mem => ?_⟩
    by_cases late : d.id ∈ gone'
    · exact dead' (id ▸ late)
    · have early : d.id ∈ gone := mem.resolve_right late
      rw [Function.comp_apply, same' (f d) (id ▸ late)]
      exact dead early

theorem of_document (now : Time) (db : Db) (id : DocumentId) :
    Archived {id} db (archiveDocument now db id) := by
  refine ⟨_, documents_touch db id now _ fun _ => rfl, fun d other => if_neg other, fun d => ?_⟩
  split
  · exact ⟨rfl, rfl, rfl, fun _ => rfl⟩
  · rename_i other
    exact ⟨rfl, rfl, rfl, fun mem => absurd mem other⟩

theorem of_documents (now : Time) : (ids : List DocumentId) → (db : Db) →
    Archived {id | id ∈ ids} db (ids.foldl (archiveDocument now) db)
  | [], db => by simpa using refl db
  | id :: ids, db => by
      have both := (of_document now db id).trans (of_documents now ids _)
      have union : ({id} ∪ {x | x ∈ ids} : Set DocumentId) = {x | x ∈ id :: ids} := by
        ext x
        simp
      rwa [union] at both

/-- A document is still there, live when it was and did not go. -/
theorem row {gone : Set DocumentId} {db db' : Db} (archived : Archived gone db db') {d : DocRow}
    (mem : d ∈ db.documents) :
    ∃ d' ∈ db'.documents, d'.id = d.id ∧ d'.natural = d.natural ∧ d'.parentId = d.parentId ∧
      (d.id ∈ gone → d'.live = false) ∧ (d.id ∉ gone → d' = d) := by
  obtain ⟨f, rows, same, moved⟩ := archived
  obtain ⟨id, natural, parent, dead⟩ := moved d
  exact ⟨f d, rows ▸ List.mem_map_of_mem mem, id, natural, parent, dead, same d⟩

/-- And no document is new. -/
theorem origin {gone : Set DocumentId} {db db' : Db} (archived : Archived gone db db')
    {d' : DocRow} (mem : d' ∈ db'.documents) :
    ∃ d ∈ db.documents, d'.id = d.id ∧ d'.natural = d.natural ∧ d'.parentId = d.parentId ∧
      (d.id ∈ gone → d'.live = false) ∧ (d.id ∉ gone → d' = d) := by
  obtain ⟨f, rows, same, moved⟩ := archived
  rw [rows] at mem
  obtain ⟨d, there, rfl⟩ := List.mem_map.1 mem
  obtain ⟨id, natural, parent, dead⟩ := moved d
  exact ⟨d, there, id, natural, parent, dead, same d⟩

/-- A row that is live after was there as it is. -/
theorem origin_live {gone : Set DocumentId} {db db' : Db} (archived : Archived gone db db')
    {d' : DocRow} (mem : d' ∈ db'.documents) (live : d'.live = true) :
    d' ∈ db.documents ∧ d'.id ∉ gone := by
  obtain ⟨d, there, id, -, -, dead, same⟩ := archived.origin mem
  by_cases went : d.id ∈ gone
  · rw [dead went] at live
    cases live
  · rw [same went]
    exact ⟨there, went⟩

end Archived

/-- The rows of `picked`, and the live documents that hang from one. -/
def cascaded (db : Db) (picked : Set DocumentId) : Set DocumentId :=
  {id | id ∈ picked ∨ ∃ d ∈ db.documents, d.id = id ∧ d.live = true ∧
    ∃ p ∈ picked, d.parentId = some p}

theorem liveChildren_iff {db : Db} {parent id : DocumentId} :
    id ∈ liveChildren db parent ↔
      ∃ d ∈ db.documents, d.id = id ∧ d.live = true ∧ d.parentId = some parent := by
  simp only [liveChildren, List.mem_map, List.mem_filter, Bool.and_eq_true, decide_eq_true_eq]
  constructor
  · rintro ⟨d, ⟨mem, parent, live⟩, rfl⟩
    exact ⟨d, mem, rfl, live, parent⟩
  · rintro ⟨d, mem, rfl, live, parent⟩
    exact ⟨d, ⟨mem, parent, live⟩, rfl⟩

theorem cascaded_mono (db : Db) {picked picked' : Set DocumentId} (sub : picked ⊆ picked') :
    cascaded db picked ⊆ cascaded db picked' := by
  rintro id (here | ⟨d, mem, same, live, p, hangs, parent⟩)
  · exact .inl (sub here)
  · exact .inr ⟨d, mem, same, live, p, sub hangs, parent⟩

/-- **Archiving goes on where it stopped**: what went, and then the rows picked of what
is left with their live children, is all of it at once. -/
theorem Archived.cascaded_union {db db' : Db} {gone picked : Set DocumentId}
    (archived : Archived (cascaded db gone) db db') :
    cascaded db gone ∪ cascaded db' picked = cascaded db (gone ∪ picked) := by
  ext id
  constructor
  · rintro (early | here | ⟨d, mem, rfl, live, p, hangs, parent⟩)
    · exact cascaded_mono db (Set.subset_union_left) early
    · exact .inl (.inr here)
    · exact .inr ⟨d, (archived.origin_live mem live).1, rfl, live, p, .inr hangs, parent⟩
  · rintro ((here | here) | ⟨d, mem, rfl, live, p, hangs, parent⟩)
    · exact .inl (.inl here)
    · exact .inr (.inl here)
    · by_cases went : d.id ∈ cascaded db gone
      · exact .inl went
      · obtain ⟨d', mem', -, -, -, -, kept⟩ := archived.row mem
        rcases hangs with early | late
        · exact .inl (.inr ⟨d, mem, rfl, live, p, early, parent⟩)
        · have same := kept went
          subst same
          exact .inr (.inr ⟨d', mem', rfl, live, p, late, parent⟩)

/-- A row goes with its live children. -/
theorem archiveRow_archived (now : Time) (db : Db) (id : DocumentId) :
    Archived (cascaded db {id}) db (archiveRow now db id) := by
  have own := Archived.of_document now db id
  have row := own.trans (Archived.of_documents now
    (liveChildren (archiveDocument now db id) id) (archiveDocument now db id))
  have same : {id} ∪ {x | x ∈ liveChildren (archiveDocument now db id) id} =
      cascaded db {id} := by
    ext x
    constructor
    · rintro (here | child)
      · exact .inl here
      · obtain ⟨d, mem, rfl, live, parent⟩ := liveChildren_iff.1 child
        exact .inr ⟨d, (own.origin_live mem live).1, rfl, live, id, rfl, parent⟩
    · rintro (here | ⟨d, mem, rfl, live, p, rfl, parent⟩)
      · exact .inl here
      · by_cases here : d.id = p
        · exact .inl here
        · obtain ⟨d', mem', -, -, -, -, kept⟩ := own.row mem
          have same := kept here
          subst same
          exact .inr (liveChildren_iff.2 ⟨d', mem', rfl, live, parent⟩)
  rw [← same]
  exact row

/-- **A chunk archives its rows and their live children, and nothing else.** -/
theorem archiveBatch_archived (now : Time) : (pick : List DocumentId) → (db : Db) →
    Archived (cascaded db {id | id ∈ pick}) db (archiveBatch now db pick)
  | [], db => by
      have empty : cascaded db {id | id ∈ ([] : List DocumentId)} = ∅ := by
        ext id
        simp [cascaded]
      rw [empty]
      exact Archived.refl db
  | id :: pick, db => by
      have row := archiveRow_archived now db id
      have both := row.trans (archiveBatch_archived now pick (archiveRow now db id))
      have all : {x | x ∈ id :: pick} = ({id} ∪ {x | x ∈ pick} : Set DocumentId) := by
        ext x
        simp
      rw [row.cascaded_union, ← all] at both
      exact both

theorem mayPick_mem {all : List DocumentId} {limit : Nat} {pick : List DocumentId}
    (may : mayPick all limit pick = true) {id : DocumentId} (mem : id ∈ pick) : id ∈ all := by
  simp only [mayPick, Bool.and_eq_true, List.all_eq_true, decide_eq_true_eq] at may
  exact may.1.2 id mem

/-- **A chunk that came back short took every row there was.** -/
theorem mem_pick_of_short {all : List DocumentId} {limit : Nat} {pick : List DocumentId}
    (may : mayPick all limit pick = true) (short : pick.length < limit) {id : DocumentId}
    (mem : id ∈ all) : id ∈ pick := by
  simp only [mayPick, Bool.and_eq_true, List.all_eq_true, decide_eq_true_eq] at may
  obtain ⟨⟨nodup, sub⟩, size⟩ := may
  have length : all.length ≤ pick.length := by omega
  exact ((List.subperm_of_subset nodup sub).perm_of_length_le length).mem_iff.2 mem

theorem mem_candidates {db : Db} {st : Staging} {account : AccountId} {startSeq : Nat}
    {id : DocumentId} :
    id ∈ candidates db st account startSeq ↔
      ∃ d ∈ db.documents, d.id = id ∧ eligible account startSeq d = true ∧
        unlisted db st startSeq d = true := by
  simp only [candidates, List.mem_map, List.mem_filter, Bool.and_eq_true]
  constructor
  · rintro ⟨d, ⟨mem, old, out⟩, rfl⟩
    exact ⟨d, mem, rfl, old, out⟩
  · rintro ⟨d, mem, rfl, old, out⟩
    exact ⟨d, ⟨mem, old, out⟩, rfl⟩

/-! ## The staging of one pass -/

theorem mem_stageRefs {account : AccountId} : (refs : List ExternalRef) →
    (listing : List (AccountId × ExternalRef)) → (e : AccountId × ExternalRef) →
    (e ∈ refs.foldl (stageRef account) listing ↔ e ∈ listing ∨ e.1 = account ∧ e.2 ∈ refs)
  | [], listing, e => by simp
  | r :: refs, listing, e => by
      rw [List.foldl_cons, mem_stageRefs refs]
      obtain ⟨a, x⟩ := e
      by_cases here : (account, r) ∈ listing
      · simp only [stageRef, if_pos here, List.mem_cons]
        constructor
        · rintro (old | ⟨rfl, mem⟩)
          · exact .inl old
          · exact .inr ⟨rfl, .inr mem⟩
        · rintro (old | ⟨rfl, rfl | mem⟩)
          · exact .inl old
          · exact .inl here
          · exact .inr ⟨rfl, mem⟩
      · simp only [stageRef, if_neg here, List.mem_append, Prod.mk.injEq, List.mem_cons]
        tauto

/-- Handing refs over needs the marker, and adds them. -/
theorem reconcileStage_some {account : AccountId} {refs : List ExternalRef} {st st' : Staging}
    (stored : reconcileStage account refs st = some st') :
    requirePass account st = true ∧ (∀ a, requirePass a st' = requirePass a st) ∧
      ∀ e, e ∈ Staging.listing st' ↔ e ∈ Staging.listing st ∨ e.1 = account ∧ e.2 ∈ refs := by
  unfold reconcileStage at stored
  split at stored
  · rename_i there
    obtain rfl := Option.some.inj stored
    cases st with
    | none => cases there
    | some tables => exact ⟨there, fun _ => rfl, fun e => mem_stageRefs refs tables.listing e⟩
  · cases stored

theorem requirePass_begin (account a : AccountId) (st : Staging) :
    requirePass a (beginPass account st) = (decide (a = account) || requirePass a st) := by
  cases st with
  | none => simp [beginPass, requirePass]
  | some tables =>
      by_cases there : account ∈ tables.passes <;> by_cases same : a = account <;>
        simp_all [beginPass, requirePass]

theorem mem_beginPass {account : AccountId} {st : Staging} {e : AccountId × ExternalRef} :
    e ∈ Staging.listing (beginPass account st) ↔ e ∈ Staging.listing st ∧ e.1 ≠ account := by
  cases st <;> simp [beginPass, Staging.listing]

theorem requirePass_end (account a : AccountId) (st : Staging) :
    requirePass a (endPass account st) = (decide (a ≠ account) && requirePass a st) := by
  cases st with
  | none => simp [endPass, requirePass]
  | some tables => simp [endPass, requirePass, Bool.and_comm]

theorem mem_endPass {account : AccountId} {st : Staging} {e : AccountId × ExternalRef} :
    e ∈ Staging.listing (endPass account st) ↔ e ∈ Staging.listing st ∧ e.1 ≠ account := by
  cases st <;> simp [endPass, Staging.listing]

end Kiagent.Store
