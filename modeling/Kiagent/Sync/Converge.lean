/-
# Sync.Converge -- a pull makes the follower's copy the leader's

`InSync leader follower after` is the state between two pulls: the follower
holds the leader's copied tables, and everything the leader ever numbered is at
or below `after`.  `pull_converges` starts there, lets the leader make any
number of writes, answers a pull from `after` and applies it: the follower is
in sync again, at the target of the answer.

The argument runs key by key.  A row of the leader that differs from the
follower's is marked above `after` (`Writes.traced`), so the answer has an
entry for it.  A row that does not differ is left alone: no delete of the answer
names it, and no account deletion takes it, since the leader still has the
account it hangs from.
-/
import Kiagent.Sync.Delta

namespace Kiagent.Sync

open Kiagent.Theory Kiagent.Store

set_option autoImplicit false

/-! ## Applying the deletes -/

section Apply

variable (now : Time)

theorem applyDelete_tables (db : Db) (t : Tbl) (k : Key) (t' : Tbl) (k' : Key) :
    (applyEntry now db (.delete t k)).find t' k' = (db.deleteRow t k).find t' k' := by
  have noted : ∀ t₁ k₁, (noteKey db t k).find t₁ k₁ = db.find t₁ k₁ := fun _ _ => rfl
  by_cases account : ∃ id, (t, k) = (.accounts, [.text id])
  · obtain ⟨id, here⟩ := account
    obtain ⟨rfl, rfl⟩ := Prod.mk.inj here
    simp only [applyEntry, Db.deleteAccount_find, noted]
  · have other : ∀ id, (t, k) ≠ (.accounts, [.text id]) := fun id h => account ⟨id, h⟩
    simp only [applyEntry, Db.deleteRow_find_other _ other, noted]

/-- Deletes add no row. -/
theorem applyDeletes_find_some {t : Tbl} {k : Key} {r : RowOf t} :
    (es : List StageEntry) → (db : Db) → (∀ e ∈ es, ∃ t k, e = .delete t k) →
      (es.foldl (applyEntry now) db).find t k = some r → db.find t k = some r
  | [], _, _, found => found
  | e :: es, db, deletes, found => by
      obtain ⟨t', k', rfl⟩ := deletes e List.mem_cons_self
      have rest := applyDeletes_find_some es _
        (fun e mem => deletes e (List.mem_cons_of_mem _ mem)) found
      rw [applyDelete_tables] at rest
      exact Db.deleteRow_find_some rest

/-- A deleted key finds nothing. -/
theorem applyDeletes_find_none {t : Tbl} {k : Key} :
    (es : List StageEntry) → (db : Db) → (∀ e ∈ es, ∃ t k, e = .delete t k) →
      .delete t k ∈ es → (es.foldl (applyEntry now) db).find t k = none
  | e :: es, db, deletes, mem => by
      have rest : ∀ e ∈ es, ∃ t k, e = .delete t k := fun e mem =>
        deletes e (List.mem_cons_of_mem _ mem)
      rw [List.foldl_cons]
      rcases List.mem_cons.1 mem with rfl | later
      · have gone : (applyEntry now db (.delete t k)).find t k = none := by
          rw [applyDelete_tables]
          by_cases account : ∃ id, (t, k) = (.accounts, [.text id])
          · obtain ⟨id, here⟩ := account
            obtain ⟨rfl, rfl⟩ := Prod.mk.inj here
            rw [Db.deleteAccount_find, if_pos rfl]
          · rw [Db.deleteRow_find_other db fun id h => account ⟨id, h⟩, if_pos rfl]
        rw [Option.eq_none_iff_forall_ne_some]
        intro r found
        rw [applyDeletes_find_some now es _ rest found] at gone
        cases gone
      · exact applyDeletes_find_none es _ rest later

/-- A row stays when neither its key nor its account is deleted. -/
theorem applyDeletes_find_kept {t : Tbl} {k : Key} {r : RowOf t} :
    (es : List StageEntry) → (db : Db) → (∀ e ∈ es, ∃ t k, e = .delete t k) →
      db.find t k = some r → .delete t k ∉ es →
      (∀ a, accountOf t r = some a → .delete .accounts [.text a] ∉ es) →
      (es.foldl (applyEntry now) db).find t k = some r
  | [], _, _, found, _, _ => found
  | e :: es, db, deletes, found, kept, held => by
      obtain ⟨t', k', rfl⟩ := deletes e List.mem_cons_self
      rw [List.mem_cons, not_or] at kept
      refine applyDeletes_find_kept es _ (fun e mem => deletes e (List.mem_cons_of_mem _ mem)) ?_
        kept.2 fun a hangs mem => held a hangs (List.mem_cons_of_mem _ mem)
      have off : (t, k) ≠ (t', k') := by
        rintro same
        obtain ⟨rfl, rfl⟩ := Prod.mk.inj same
        exact kept.1 rfl
      rw [applyDelete_tables]
      by_cases account : ∃ id, (t', k') = (.accounts, [.text id])
      · obtain ⟨id, here⟩ := account
        obtain ⟨rfl, rfl⟩ := Prod.mk.inj here
        have other : accountOf t r ≠ some id := fun hangs => held id hangs List.mem_cons_self
        rw [Db.deleteAccount_find, if_neg off, found]
        simp [Option.filter, other]
      · rw [Db.deleteRow_find_other db fun id h => account ⟨id, h⟩, if_neg off, found]

/-! ## Applying the upserts -/

theorem applyUpsert_find_self (db : Db) (t : Tbl) (r : RowOf t) :
    (applyEntry now db (.upsert t r)).find t (keyOf t r) = some r := by
  cases t with
  | documents =>
      simp only [applyEntry]
      split <;> exact Db.upsertRow_find_self _ .documents r
  | accounts | outbox | syncEpochs | eventDrafts | attentionItems | attentionRevisions
  | userPrefs | plugin name => exact Db.upsertRow_find_self _ _ r

theorem noteDocument_find (db : Db) (d : DocRow) (t : Tbl) (k : Key) :
    (noteDocument db d).find t k = db.find t k := by
  unfold noteDocument
  split <;> rfl

theorem applyUpsert_find_ne (db : Db) (t : Tbl) (r : RowOf t) {t' : Tbl} {k : Key}
    (ne : (t', k) ≠ (t, keyOf t r)) :
    (applyEntry now db (.upsert t r)).find t' k = db.find t' k := by
  cases t with
  | documents =>
      have body : ((noteDocument db r).upsertRow .documents r).find t' k = db.find t' k := by
        rw [Db.upsertRow_find_ne _ _ _ ne, noteDocument_find]
      simp only [applyEntry]
      split <;> exact body
  | accounts | outbox | syncEpochs | eventDrafts | attentionItems | attentionRevisions
  | userPrefs | plugin name => exact Db.upsertRow_find_ne _ _ _ ne

/-- Upserts that agree on what a key should find: either the key is not among
them, or it finds that. -/
theorem applyUpserts_find {t : Tbl} {k : Key} {row : Option (RowOf t)} :
    (es : List StageEntry) → (db : Db) →
      (∀ e ∈ es, ∃ (t : Tbl) (r : RowOf t), e = .upsert t r) →
      (∀ r, .upsert t r ∈ es → keyOf t r = k → row = some r) →
      (es.foldl (applyEntry now) db).find t k = row ∨
        ((es.foldl (applyEntry now) db).find t k = db.find t k ∧
          ∀ r, .upsert t r ∈ es → keyOf t r ≠ k)
  | [], _, _, _ => Or.inr ⟨rfl, fun _ mem => nomatch mem⟩
  | e :: es, db, upserts, agree => by
      obtain ⟨t', r', rfl⟩ := upserts e List.mem_cons_self
      have rest := applyUpserts_find es (applyEntry now db (.upsert t' r'))
        (fun e mem => upserts e (List.mem_cons_of_mem _ mem))
        (fun r mem here => agree r (List.mem_cons_of_mem _ mem) here)
      rw [List.foldl_cons]
      rcases rest with done | ⟨same, later⟩
      · exact Or.inl done
      · by_cases here : (t, k) = (t', keyOf t' r')
        · obtain ⟨rfl, rfl⟩ := Prod.mk.inj here
          left
          rw [same, applyUpsert_find_self, agree r' List.mem_cons_self rfl]
        · right
          refine ⟨same.trans (applyUpsert_find_ne now db t' r' here), ?_⟩
          intro r mem at_k
          rcases List.mem_cons.1 mem with now_here | tail
          · cases now_here
            exact here (by rw [at_k])
          · exact later r tail at_k

end Apply

/-! ## What applying leaves alone -/

theorem applyEntry_state (now : Time) (db : Db) (e : StageEntry) :
    (applyEntry now db e).state = db.state := by
  cases e with
  | delete t k => exact (Db.deleteRow_frame _ t k).state
  | upsert t r =>
      have noted : ∀ d, (noteDocument db d).state = db.state := by
        intro d
        unfold noteDocument
        split <;> rfl
      cases t with
      | documents =>
          have body := ((Db.upsertRow_frame (noteDocument db r) .documents r).state).trans (noted r)
          simp only [applyEntry]
          split <;> exact body
      | accounts | outbox | syncEpochs | eventDrafts | attentionItems | attentionRevisions
      | userPrefs | plugin name => exact (Db.upsertRow_frame _ _ r).state

theorem applyEntry_plugins (now : Time) (db : Db) (e : StageEntry) :
    (applyEntry now db e).plugins = db.plugins := by
  cases e with
  | delete t k => exact (Db.deleteRow_frame _ t k).plugins
  | upsert t r =>
      have noted : ∀ d, (noteDocument db d).plugins = db.plugins := by
        intro d
        unfold noteDocument
        split <;> rfl
      cases t with
      | documents =>
          have body :=
            ((Db.upsertRow_frame (noteDocument db r) .documents r).plugins).trans (noted r)
          simp only [applyEntry]
          split <;> exact body
      | accounts | outbox | syncEpochs | eventDrafts | attentionItems | attentionRevisions
      | userPrefs | plugin name => exact (Db.upsertRow_frame _ _ r).plugins

theorem applyEntries_state (now : Time) :
    (es : List StageEntry) → (db : Db) → (es.foldl (applyEntry now) db).state = db.state
  | [], _ => rfl
  | e :: es, db => (applyEntries_state now es _).trans (applyEntry_state now db e)

theorem applyEntries_plugins (now : Time) :
    (es : List StageEntry) → (db : Db) → (es.foldl (applyEntry now) db).plugins = db.plugins
  | [], _ => rfl
  | e :: es, db => (applyEntries_plugins now es _).trans (applyEntry_plugins now db e)

theorem applyEntry_syncRows (now : Time) {db : Db} (off : db.state.tracking = false)
    (e : StageEntry) : (applyEntry now db e).syncRows = db.syncRows := by
  cases e with
  | delete t k => exact Db.deleteRow_untracked (by exact off) t k
  | upsert t r =>
      have noted : ∀ d, (noteDocument db d).syncRows = db.syncRows ∧
          (noteDocument db d).state = db.state := by
        intro d
        unfold noteDocument
        split <;> exact ⟨rfl, rfl⟩
      cases t with
      | documents =>
          have body : ((noteDocument db r).upsertRow .documents r).syncRows = db.syncRows := by
            rw [Db.upsertRow_untracked (by rw [(noted r).2]; exact off), (noted r).1]
          simp only [applyEntry]
          split <;> exact body
      | accounts | outbox | syncEpochs | eventDrafts | attentionItems | attentionRevisions
      | userPrefs | plugin name =>
          exact Db.upsertRow_untracked (by exact off) _ r

theorem applyEntries_syncRows (now : Time) :
    (es : List StageEntry) → (db : Db) → db.state.tracking = false →
      (es.foldl (applyEntry now) db).syncRows = db.syncRows
  | [], _, _ => rfl
  | e :: es, db, off =>
      (applyEntries_syncRows now es _ (by rw [applyEntry_state]; exact off)).trans
        (applyEntry_syncRows now off e)

/-! ## One pull -/

/-- A follower's position: `after_seq` and `after_cursor`. -/
def storedCursor (db : Db) : SyncCursor := ⟨db.state.afterSeq, db.state.afterCursor⟩

/-- **Applying a delta overwrites every key that is marked, and a key that is not
marked keeps its row.**  So a follower that agrees with the leader on the keys
that are not marked agrees with it everywhere. -/
theorem apply_agrees {leader follower : Db} {start : SyncCursor} (fromEpoch : Nat) (now : Time)
    (held : leader.foreignKeysHold = true)
    (agree : ∀ t ∈ leader.copiedTables, ∀ k,
      follower.find t k = leader.find t k ∨ Marked start leader t k)
    {t : Tbl} (copied : t ∈ leader.copiedTables) (k : Key) :
    ((deltaDeletes leader start ++ deltaUpserts leader start fromEpoch).foldl
      (applyEntry now) follower).find t k = leader.find t k := by
  have deletes : ∀ e ∈ deltaDeletes leader start, ∃ t k, e = .delete t k := fun e mem =>
    let ⟨t, k, shape, _⟩ := mem_deltaDeletes mem
    ⟨t, k, shape⟩
  have upserts : ∀ e ∈ deltaUpserts leader start fromEpoch,
      ∃ (t : Tbl) (r : RowOf t), e = .upsert t r := fun e mem =>
    let ⟨t, r, shape, _⟩ := mem_deltaUpserts mem
    ⟨t, r, shape⟩
  have carried : ∀ r, .upsert t r ∈ deltaUpserts leader start fromEpoch → keyOf t r = k →
      leader.find t k = some r := by
    rintro r mem rfl
    obtain ⟨t', r', shape, found, -⟩ := mem_deltaUpserts mem
    cases shape
    exact found
  rw [List.foldl_append]
  rcases applyUpserts_find now _ ((deltaDeletes leader start).foldl (applyEntry now) follower)
    upserts carried with done | ⟨untouched, unsent⟩
  · exact done
  · rw [untouched]
    cases found : leader.find t k with
    | none =>
        rcases agree t copied k with same | marked
        · rw [Option.eq_none_iff_forall_ne_some]
          intro r kept
          have was := applyDeletes_find_some now _ follower deletes kept
          rw [same, found] at was
          cases was
        · exact applyDeletes_find_none now _ follower deletes
            (delete_of_marked copied marked found)
    | some r =>
        have key : keyOf t r = k := Table.find_key found
        rcases agree t copied k with same | marked
        · apply applyDeletes_find_kept now _ follower deletes (same.trans found)
          · intro mem
            obtain ⟨t', k', shape, gone, -⟩ := mem_deltaDeletes mem
            cases shape
            rw [found] at gone
            cases gone
          · intro a hangs mem
            obtain ⟨t', k', shape, gone, -⟩ := mem_deltaDeletes mem
            cases shape
            have there := Db.foreignKeysHold_iff.1 held t k r a found hangs
            rw [gone] at there
            cases there
        · exact absurd key (unsent r (upsert_of_marked fromEpoch copied marked found))

/-- A delta names only tables its reader knows, when both have the same plugins. -/
theorem delta_tables_known {leader follower : Db} (plugins : follower.plugins = leader.plugins)
    (start : SyncCursor) (fromEpoch : Nat) :
    (deltaDeletes leader start ++ deltaUpserts leader start fromEpoch).find?
      (fun e => e.tbl ∉ follower.copiedTables) = none := by
  have tables : follower.copiedTables = leader.copiedTables := by
    rw [Db.copiedTables, Db.copiedTables, plugins]
  rw [List.find?_eq_none]
  intro e mem
  rw [tables]
  rcases List.mem_append.1 mem with gone | there
  · obtain ⟨t, k, rfl, -, copied⟩ := mem_deltaDeletes gone
    simp [StageEntry.tbl, copied]
  · obtain ⟨t, r, rfl, -, copied⟩ := mem_deltaUpserts there
    simp [StageEntry.tbl, copied]

/-- The foreign keys are a property of the copied tables. -/
theorem foreignKeysHold_of_rows {leader db : Db} (held : leader.foreignKeysHold = true)
    (rows : ∀ t ∈ leader.copiedTables, ∀ k, db.find t k = leader.find t k) :
    db.foreignKeysHold = true := by
  have core : ∀ t ∈ accountChildren, t ∈ copiedCoreTables := by decide
  rw [Db.foreignKeysHold_iff] at held ⊢
  intro t k r a found hangs
  have child : t ∈ leader.copiedTables := by
    by_contra other
    have none := accountOf_eq_none t r fun mem => other (List.mem_append_left _ (core t mem))
    rw [none] at hangs
    cases hangs
  rw [rows t child] at found
  rw [rows .accounts (List.mem_append_left _ (by decide))]
  exact held t k r a found hangs

/-- The state between two pulls: the follower holds the leader's copied tables,
and everything the leader ever numbered is at or below the follower's position. -/
structure InSync (leader follower : Db) : Prop where
  tracking : leader.state.tracking = true
  consistent : Consistent leader
  role : follower.state.role = .follower
  epoch : follower.state.epoch = leader.state.epoch
  plugins : follower.plugins = leader.plugins
  rows : ∀ t ∈ leader.copiedTables, ∀ k, follower.find t k = leader.find t k
  seqs : ∀ k d, leader.find .documents k = some d → d.seq ≤ (storedCursor follower).seq
  cursors : ∀ key n, leader.syncRows.numberOf key = some n → n ≤ (storedCursor follower).cursor
  seqBound : (storedCursor follower).seq ≤ leader.changes.counter
  cursorBound : (storedCursor follower).cursor ≤ leader.syncRows.counter

/-- A follower positioned at the two maxima of a leader whose tables it holds is
in sync. -/
theorem InSync.of_heads {leader follower : Db} (tracking : leader.state.tracking = true)
    (consistent : Consistent leader) (role : follower.state.role = .follower)
    (epoch : follower.state.epoch = leader.state.epoch)
    (plugins : follower.plugins = leader.plugins)
    (rows : ∀ t ∈ leader.copiedTables, ∀ k, follower.find t k = leader.find t k)
    (position : storedCursor follower = ⟨documentHead leader, leader.syncRows.head⟩) :
    InSync leader follower where
  tracking := tracking
  consistent := consistent
  role := role
  epoch := epoch
  plugins := plugins
  rows := rows
  seqs k d found := by
    rw [position]
    exact le_documentHead found
  cursors key n number := by
    rw [position]
    exact KeyedLog.numberOf_le_head number
  seqBound := by
    rw [position]
    exact documentHead_le consistent
  cursorBound := by
    rw [position]
    exact SeqLog.head_le_counter _

/-- **Delta replication converges.**  From a follower in sync, after any run of
writes of the leader, the answer to a pull from the follower's position applies,
leaves every copied table equal to the leader's, stores its target, and the
follower is in sync again. -/
theorem pull_converges {leader leader' follower : Db} {lineLength : StageEntry → Nat}
    {capBytes : Nat} {delta : Delta} (now : Time)
    (synced : InSync leader follower) (writes : Writes leader leader')
    (answer : buildDelta lineLength leader' (storedCursor follower) follower.state.epoch capBytes =
      .ok delta) :
    ∃ follower', applyDeltaTx now follower delta.entries delta.target delta.epoch = .ok follower' ∧
      (∀ t ∈ leader'.copiedTables, ∀ k, follower'.find t k = leader'.find t k) ∧
      storedCursor follower' = delta.target ∧ InSync leader' follower' := by
  obtain ⟨traced, consistent⟩ := writes.traced synced.tracking synced.consistent
  have start : rewound leader' (storedCursor follower) follower.state.epoch =
      storedCursor follower := by
    rw [rewound, if_pos (by rw [traced.state, synced.epoch])]
  simp only [buildDelta, start] at answer
  split at answer
  · cases answer
  injection answer with answer
  subst answer
  have tables : leader'.copiedTables = leader.copiedTables := by
    rw [Db.copiedTables, Db.copiedTables, traced.plugins]
  have agree : ∀ t ∈ leader'.copiedTables, ∀ k, follower.find t k = leader'.find t k ∨
      Marked (storedCursor follower) leader' t k := by
    intro t copied k
    rcases traced.rows t k with same | marked
    · exact Or.inl ((synced.rows t (tables ▸ copied) k).trans same.symm)
    · exact Or.inr (marked.mono synced.seqBound synced.cursorBound)
  have rows := fun t copied k =>
    apply_agrees follower.state.epoch now consistent.foreignKeys agree (t := t) copied k
  have known := delta_tables_known (synced.plugins.trans traced.plugins.symm)
    (storedCursor follower) follower.state.epoch
  generalize applied : (deltaDeletes leader' (storedCursor follower) ++
      deltaUpserts leader' (storedCursor follower) follower.state.epoch).foldl
        (applyEntry now) follower = db at rows
  have held := foreignKeysHold_of_rows consistent.foreignKeys rows
  have state : db.state = follower.state := applied ▸ applyEntries_state now _ _
  have plugins : db.plugins = follower.plugins := applied ▸ applyEntries_plugins now _ _
  refine ⟨storeTarget db ⟨max (documentHead leader') (storedCursor follower).seq,
    max leader'.syncRows.head (storedCursor follower).cursor⟩ leader'.state.epoch,
    ?_, rows, rfl, ?_⟩
  · rw [applyDeltaTx, if_neg (by rw [synced.role]; simp), known, applied]
    exact if_pos held
  · exact {
      tracking := traced.state ▸ synced.tracking
      consistent := consistent
      role := by rw [storeTarget, state]; exact synced.role
      epoch := rfl
      plugins := by rw [storeTarget, plugins, synced.plugins, traced.plugins]
      rows := rows
      seqs := fun k d found => Nat.le_trans (le_documentHead found) (Nat.le_max_left _ _)
      cursors := fun key n number =>
        Nat.le_trans (KeyedLog.numberOf_le_head number) (Nat.le_max_left _ _)
      seqBound := Nat.max_le.2 ⟨documentHead_le consistent,
        Nat.le_trans synced.seqBound traced.seqs⟩
      cursorBound := Nat.max_le.2 ⟨SeqLog.head_le_counter _,
        Nat.le_trans synced.cursorBound traced.cursors⟩ }

/-- A leader that saved one preference, and a follower of it at its old position. -/
theorem pull_converges_preference :
    let leader := { Db.fresh with state := { SyncState.fresh with tracking := true } }
    let follower := { Db.fresh with state := { SyncState.fresh with role := .follower } }
    let preference : PlainRow := ⟨[.text "theme"], none, [("value_json", .text "dark")]⟩
    ∃ delta follower',
      buildDelta (fun _ => 0) (leader.insertRow .userPrefs preference) ⟨0, 0⟩ 0 0 = .ok delta ∧
      applyDeltaTx 0 follower delta.entries delta.target delta.epoch = .ok follower' ∧
      follower'.find .userPrefs [.text "theme"] = some preference := by
  intro leader follower preference
  have consistent : Consistent leader := ⟨rfl, fun _ _ found => nomatch found⟩
  have synced : InSync leader follower :=
    InSync.of_heads rfl consistent rfl rfl rfl (fun _ _ _ => rfl) rfl
  have held : (leader.insertRow .userPrefs preference).foreignKeysHold = true := rfl
  have writes : Writes leader (leader.insertRow .userPrefs preference) :=
    .single (.insert .userPrefs preference (by decide) rfl held)
  have answered : ∃ delta,
      buildDelta (fun _ => 0) (leader.insertRow .userPrefs preference) ⟨0, 0⟩ 0 0 = .ok delta := by
    simp [buildDelta]
  obtain ⟨delta, answer⟩ := answered
  obtain ⟨follower', applied, rows, -⟩ := pull_converges 0 synced writes answer
  exact ⟨delta, follower', answer, applied,
    (rows .userPrefs (List.mem_append_left _ (by decide)) _).trans
      (Db.insertRow_find_self leader .userPrefs preference)⟩

end Kiagent.Sync
