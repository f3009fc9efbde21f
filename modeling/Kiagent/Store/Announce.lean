/-
# Store.Announce -- what a write tells the change log about accounts

A write that touches an account appends an `account` row for it, and the removal of one an
`accountRemoved` row.  A commit of sync progress may leave the row out: then only the cursor,
the progress and the time of the last sync are new (`settled`).

`Announced` is what every commit does to the accounts and to the log.
-/
import Kiagent.Theory.Version
import Kiagent.Store.Feed

namespace Kiagent.Store

open Kiagent.Theory

set_option autoImplicit false

/-- A row of the log about an account. -/
def ChangeRow.isAbout (a : AccountId) (row : ChangeRow) : Bool :=
  (row.kind = .account || row.kind = .accountRemoved) && row.refId = a

/-- The parts of an account row that a commit of sync progress leaves alone. -/
def settled (row : AccountRow) : AccountRow :=
  { row with cursor := none, progress := none, lastSyncAt := none }

def accountAt (db : Db) (a : AccountId) : Option AccountRow := db.find .accounts [.text a]

theorem accountAt_of_tables {db db' : Db} (same : db'.tables .accounts = db.tables .accounts)
    (a : AccountId) : accountAt db' a = accountAt db a := by
  rw [accountAt, Db.find, same]
  rfl

theorem accountAt_update {db : Db} {a : AccountRow} (found : accountAt db a.id = some a)
    (f : AccountRow → AccountRow) (id : (f a).id = a.id) (x : AccountId) :
    accountAt (db.updateRow .accounts [.text a.id] f) x =
      if x = a.id then some (f a) else accountAt db x := by
  have key : keyOf .accounts (f a) = [.text a.id] := by simp [keyOf, id]
  split
  · next here =>
      rw [here, accountAt, ← key]
      have placed := Db.updateRow_find_new f found
      rwa [← key] at placed
  · next apart =>
      have off : ((Tbl.accounts, [Cell.text x]) : Tbl × Key) ≠ (.accounts, [.text a.id]) := by
        simp [apart]
      exact Db.updateRow_find_ne f found off (key ▸ off)

/-- The number of the last row about an account. -/
def versionOf (db : Db) (a : AccountId) : Nat :=
  db.changes.lastAbout (ChangeRow.isAbout a) db.changes.counter

/-- The new rows tell which accounts are written and which are gone. -/
structure Announced (db db' : Db) : Prop where
  log : db.changes.Extends db'.changes
  same : ∀ a, (∀ e ∈ db'.changes.entries, db.changes.counter < e.1 → e.2.isAbout a = false) →
    (accountAt db' a).map settled = (accountAt db a).map settled
  there : ∀ e ∈ db'.changes.entries, db.changes.counter < e.1 → e.2.kind = .account →
    (accountAt db' e.2.refId).isSome = true
  gone : ∀ e ∈ db'.changes.entries, db.changes.counter < e.1 → e.2.kind = .accountRemoved →
    accountAt db' e.2.refId = none ∧ versionOf db' e.2.refId = e.1

/-- An announced write that removes no account. -/
structure Kept (db db' : Db) : Prop where
  log : db.changes.Extends db'.changes
  same : ∀ a, (∀ e ∈ db'.changes.entries, db.changes.counter < e.1 → e.2.isAbout a = false) →
    (accountAt db' a).map settled = (accountAt db a).map settled
  there : ∀ e ∈ db'.changes.entries, db.changes.counter < e.1 → e.2.kind ≠ .accountRemoved ∧
    (e.2.kind = .account → (accountAt db' e.2.refId).isSome = true)

theorem Kept.announced {db db' : Db} (kept : Kept db db') : Announced db db' where
  log := kept.log
  same := kept.same
  there e mem new := (kept.there e mem new).2
  gone e mem new kind := absurd kind (kept.there e mem new).1

namespace Kept

variable {db db' : Db}

/-- The accounts are left alone, and no row tells of one. -/
theorem of_accounts (accounts : ∀ a, accountAt db' a = accountAt db a)
    (log : db.changes.Extends db'.changes)
    (kinds : ∀ e ∈ db'.changes.entries, db.changes.counter < e.1 →
      e.2.kind ≠ .account ∧ e.2.kind ≠ .accountRemoved) : Kept db db' where
  log := log
  same a _ := by rw [accounts]
  there e mem new := ⟨(kinds e mem new).2, fun kind => absurd kind (kinds e mem new).1⟩

theorem of_same (accounts : ∀ a, accountAt db' a = accountAt db a)
    (changes : db'.changes = db.changes) : Kept db db' := by
  refine of_accounts accounts (changes ▸ .refl _) fun e mem new => ?_
  rw [changes] at mem
  exact absurd (db.changes.below e mem) (Nat.not_le.2 new)

theorem refl (db : Db) : Kept db db := of_same (fun _ => rfl) rfl

theorem trans {a b c : Db} (first : Kept a b) (second : Kept b c) : Kept a c where
  log := first.log.trans second.log
  same x quiet := by
    have middle : ∀ e ∈ b.changes.entries, a.changes.counter < e.1 → e.2.isAbout x = false :=
      fun e mem new => quiet e (second.log.grows.entries e mem) new
    have after : ∀ e ∈ c.changes.entries, b.changes.counter < e.1 → e.2.isAbout x = false :=
      fun e mem new => quiet e mem (Nat.lt_of_le_of_lt first.log.grows.counter new)
    rw [second.same x after, first.same x middle]
  there e mem new := by
    by_cases late : b.changes.counter < e.1
    · exact second.there e mem late
    · have early := second.log.old e mem (Nat.not_lt.1 late)
      refine ⟨(first.there e early new).1, fun kind => ?_⟩
      have was := (first.there e early new).2 kind
      by_cases again : ∃ e' ∈ c.changes.entries, b.changes.counter < e'.1 ∧
          e'.2.isAbout e.2.refId = true
      · obtain ⟨e', mem', new', about⟩ := again
        have fresh := second.there e' mem' new'
        simp only [ChangeRow.isAbout, fresh.1, Bool.and_eq_true, Bool.or_eq_true,
          decide_eq_true_eq, or_false] at about
        rw [← about.2]
        exact fresh.2 about.1
      · have quiet : ∀ e' ∈ c.changes.entries, b.changes.counter < e'.1 →
            e'.2.isAbout e.2.refId = false := fun e' mem' new' =>
          eq_false_of_ne_true fun about => again ⟨e', mem', new', about⟩
        have same := congrArg Option.isSome (second.same _ quiet)
        rw [Option.isSome_map, Option.isSome_map] at same
        rw [same, was]

theorem foldl {α : Type} (step : Db → α → Db) (each : ∀ db a, Kept db (step db a)) :
    (as : List α) → (db : Db) → Kept db (as.foldl step db)
  | [], db => refl db
  | a :: as, db => (each db a).trans (foldl step each as (step db a))

/-- One row of another kind. -/
theorem of_change (db : Db) {kind : ChangeKind} (refId : String) (now : Time)
    (other : kind ≠ .account ∧ kind ≠ .accountRemoved) :
    Kept db (db.appendChange kind refId now) := by
  refine of_accounts (fun _ => rfl) (.append _ _) fun e mem new => ?_
  rcases List.mem_append.1 mem with old | last
  · exact absurd (db.changes.below e old) (Nat.not_le.2 new)
  · obtain rfl := List.mem_singleton.1 last
    exact other

theorem of_update (db : Db) (id : DocumentId) (f : DocRow → DocRow) :
    Kept db (db.updateRow .documents [.text id] f) :=
  of_same (accountAt_of_tables (Db.updateRow_tables_ne db _ _ _ (by decide)))
    (Db.updateRow_frame db _ _ _).changes

theorem of_touch (db : Db) (id : DocumentId) (now : Time) (f : DocRow → DocRow) :
    Kept db (touchDocument db id now f) := by
  have told : Kept db (db.appendChange .document id now) :=
    of_change db id now ⟨by decide, by decide⟩
  exact told.trans (of_update _ _ _)

theorem of_new (db : Db) (d : DocRow) (now : Time) :
    Kept db ((db.appendChange .document d.id now).insertRow .documents d) := by
  have told : Kept db (db.appendChange .document d.id now) :=
    of_change db d.id now ⟨by decide, by decide⟩
  exact told.trans (of_same (accountAt_of_tables (Db.insertRow_tables_ne _ .documents d (by decide)))
    (Db.insertRow_frame _ .documents d).changes)

theorem of_upsert (deps : Deps) (now : Time) (account : AccountId) (db : Db)
    (input : DocumentInput) : Kept db (written (upsertDocument deps now account) db input) := by
  unfold written upsertDocument
  split
  · split
    · exact refl db
    · exact of_touch db _ now _
  · exact of_new db _ now

theorem of_relink (now : Time) (account : AccountId) (db : Db) (pair : LinkPair) :
    Kept db (written (relinkPair now account) db pair) := by
  unfold written relinkPair
  split
  · exact refl db
  · dsimp only
    split
    · exact refl db
    · exact of_touch db _ now _

theorem of_archive (now : Time) (account : AccountId) (db : Db) (r : ExternalRef) :
    Kept db (written (archiveByRef now account) db r) := by
  have one : ∀ db id, Kept db (archiveDocument now db id) := fun db id => of_touch db id now _
  unfold written archiveByRef
  split
  · exact refl db
  · split
    · exact (one db _).trans (foldl _ one _ _)
    · exact refl db

theorem of_enrich (deps : Deps) (now : Time) (db : Db) (e : EnrichInput) :
    Kept db (written (enrichDocument deps now) db e) := by
  unfold written enrichDocument
  split
  · exact refl db
  · exact of_touch db _ now _

/-- An account's row is written, and the log told. -/
theorem of_write (db : Db) (row : AccountRow) (now : Time) :
    Kept db ((db.insertRow .accounts row).appendChange .account row.id now) where
  log := by
    have frame := (Db.insertRow_frame db .accounts row).changes
    show db.changes.Extends ((db.insertRow .accounts row).changes.append _)
    rw [frame]
    exact .append _ _
  same a quiet := by
    have told := quiet (db.changes.next, ⟨.account, row.id, now⟩) (List.mem_append_right _
      (List.mem_singleton.2 (by rw [(Db.insertRow_frame db .accounts row).changes])))
      (Nat.lt_succ_self _)
    have apart : a ≠ row.id := by
      rintro rfl
      simp [ChangeRow.isAbout] at told
    have off : ((Tbl.accounts, [Cell.text a]) : Tbl × Key) ≠ (.accounts, keyOf .accounts row) := by
      simp [keyOf, apart]
    show (Db.find (db.insertRow .accounts row) .accounts [.text a]).map settled = _
    rw [Db.insertRow_find_ne db .accounts row off]
    rfl
  there e mem new := by
    have frame := (Db.insertRow_frame db .accounts row).changes
    rcases List.mem_append.1 mem with old | last
    · rw [frame] at old
      exact absurd (db.changes.below e old) (Nat.not_le.2 new)
    · obtain rfl := List.mem_singleton.1 last
      refine ⟨by simp, fun _ => ?_⟩
      have found : (db.insertRow .accounts row).find .accounts [.text row.id] = some row :=
        Db.insertRow_find_self db .accounts row
      exact Option.isSome_iff_exists.2 ⟨row, found⟩

theorem of_account (deps : Deps) (now : Time) (source identifier : String) (db : Db) :
    Kept db (getOrCreateAccount deps now source identifier db).1 := by
  unfold getOrCreateAccount
  split
  · exact refl db
  · exact of_write db _ now

theorem of_commitDocuments (deps : Deps) (now : Time) (account : AccountId) (b : AccountBatch)
    (s : Db × Nat) : Kept s.1 (commitDocuments deps now account b s).1 := by
  simp only [commitDocuments, foldLast_fst]
  exact (((foldl _ (of_upsert deps now account) _ _).trans
    (foldl _ (of_relink now account) _ _)).trans (foldl _ (of_relink now account) _ _)).trans
    (foldl _ (of_archive now account) _ _)

/-- A row update the log need not tell of. -/
theorem of_settled {a : AccountRow} (found : accountAt db a.id = some a)
    (f : AccountRow → AccountRow) (id : (f a).id = a.id) (still : settled (f a) = settled a) :
    Kept db (db.updateRow .accounts [.text a.id] f) := by
  have changes := (Db.updateRow_frame db .accounts [.text a.id] f).changes
  refine ⟨changes ▸ .refl _, fun x _ => ?_, fun e mem new => ?_⟩
  · rw [accountAt_update found f id]
    split
    · next here => rw [here, found, Option.map_some, Option.map_some, still]
    · rfl
  · rw [changes] at mem
    exact absurd (db.changes.below e mem) (Nat.not_le.2 new)

/-- A row update that the log tells of. -/
theorem of_told {a : AccountRow} (found : accountAt db a.id = some a)
    (f : AccountRow → AccountRow) (id : (f a).id = a.id) (now : Time) :
    Kept db ((db.appendChange .account a.id now).updateRow .accounts [.text a.id] f) := by
  have changes := (Db.updateRow_frame (db.appendChange .account a.id now) .accounts
    [.text a.id] f).changes
  have last : (db.changes.next, (⟨.account, a.id, now⟩ : ChangeRow)) ∈
      (db.changes.append ⟨.account, a.id, now⟩).entries :=
    List.mem_append_right _ (List.mem_singleton.2 rfl)
  refine ⟨changes ▸ .append _ _, fun x quiet => ?_, fun e mem new => ?_⟩
  · rw [changes] at quiet
    have told := quiet _ last (Nat.lt_succ_self _)
    have apart : x ≠ a.id := by
      rintro rfl
      simp [ChangeRow.isAbout] at told
    have there : accountAt (db.appendChange .account a.id now) a.id = some a := found
    rw [accountAt_update there f id, if_neg apart]
    rfl
  · rw [changes] at mem
    rcases List.mem_append.1 mem with old | here
    · exact absurd (db.changes.below e old) (Nat.not_le.2 new)
    · obtain rfl := List.mem_singleton.1 here
      refine ⟨by simp, fun _ => ?_⟩
      have there : accountAt (db.appendChange .account a.id now) a.id = some a := found
      rw [accountAt_update there f id, if_pos rfl]
      rfl

end Kept

/-! ## Every commit -/

/-- A change no reader sees leaves the settled part. -/
theorem settled_setAccount {b : AccountBatch} {a : AccountRow} (now : Time)
    (hidden : visibleChange b a = false) : settled (setAccount b now a) = settled a := by
  simp only [visibleChange, Bool.or_eq_false_iff, decide_eq_false_iff_not, not_not] at hidden
  have status : b.status.getD a.status = a.status := by
    cases given : b.status with
    | none => rfl
    | some status => simpa [given] using hidden.1
  rw [settled, setAccount, status, hidden.2]
  rfl

theorem kept_commitAccount {deps : Deps} {now : Time} {publishedAt : Option Time}
    {b : AccountBatch} {db db' : Db} {last : Nat}
    (committed : commitAccount deps now publishedAt b db = .ok (db', last)) : Kept db db' := by
  unfold commitAccount at committed
  split at committed
  · cases committed
  · next acc found =>
      simp only [Except.ok.injEq, Prod.mk.injEq] at committed
      obtain ⟨rfl, -⟩ := committed
      have key : keyOf .accounts acc = [.text b.account] := Table.find_key found
      have id : acc.id = b.account := by simpa [keyOf] using key
      have docs := Kept.of_commitDocuments deps now acc.id b (db, db.changes.head)
      have there : accountAt (commitDocuments deps now acc.id b (db, db.changes.head)).1 acc.id =
          some acc := by
        rw [accountAt, Db.find, commitDocuments_tables now acc.id b _ (by decide), id]
        exact found
      refine docs.trans ?_
      split
      · exact Kept.of_told there _ rfl now
      · next quiet =>
          refine Kept.of_settled there _ rfl (settled_setAccount now ?_)
          simpa using (Bool.or_eq_false_iff.1 (eq_false_of_ne_true quiet)).1

theorem kept_consumer (deps : Deps) (now : Time) (b : ConsumerBatch) (db : Db) :
    Kept db (commitConsumer deps now b db).1 := by
  have cursor : ∀ db : Db, Kept db ((b.cursor.map (setConsumer db b.consumer)).getD db) := by
    intro db
    cases b.cursor
    · exact .refl db
    · exact .of_same (fun _ => rfl) rfl
  have seedCursor : ∀ db : Db,
      Kept db ((b.seedCursor.map (setSeedCursor db b.consumer)).getD db) := by
    intro db
    cases b.seedCursor
    · exact .refl db
    · exact .of_same (fun _ => rfl) rfl
  unfold commitConsumer
  dsimp only
  rw [foldLast_fst]
  refine Kept.trans ?_ (.foldl _ (Kept.of_enrich deps now) _ _)
  have head := ((cursor db).trans (seedCursor _)).trans
    (.foldl (recordOutcome b.consumer) (fun _ _ => .of_same (fun _ => rfl) rfl) b.ledger _)
  split
  · exact head
  · rw [foldLast_fst, foldLast_fst]
    exact ((head.trans (.of_account deps now "worker" b.consumer _)).trans
      (.foldl _ (Kept.of_upsert deps now _) _ _)).trans (.foldl _ (Kept.of_relink now _) _ _)

theorem accountAt_deleteDocument (db : Db) (id : DocumentId) (a : AccountId) :
    accountAt (db.deleteRow .documents [.text id]) a = accountAt db a := by
  rw [accountAt, Db.deleteRow_find_other db (by simp), if_neg (by simp), accountAt]

theorem kept_purge (now before : Time) (db : Db) : Kept db (purgeArchived now before db).1 := by
  refine Kept.foldl _ (fun db id => ?_) _ db
  have deleted : Kept db (db.deleteRow .documents [.text id]) :=
    .of_same (accountAt_deleteDocument db id) (Db.deleteRow_frame db .documents [.text id]).changes
  have told : Kept (db.deleteRow .documents [.text id]) (purgeDocument now db id) :=
    .of_change _ id now ⟨by decide, by decide⟩
  exact deleted.trans told

/-- An account goes, and the log tells of it last. -/
theorem announced_gone {db mid : Db} {id : AccountId} (changes : mid.changes = db.changes)
    (rows : ∀ a, accountAt mid a = if a = id then none else accountAt db a) (now : Time) :
    Announced db (mid.appendChange .accountRemoved id now) := by
  have log : (mid.appendChange .accountRemoved id now).changes =
      db.changes.append ⟨.accountRemoved, id, now⟩ := by
    rw [← changes]
    rfl
  have last : (db.changes.next, (⟨.accountRemoved, id, now⟩ : ChangeRow)) ∈
      (db.changes.append ⟨.accountRemoved, id, now⟩).entries :=
    List.mem_append_right _ (List.mem_singleton.2 rfl)
  have only : ∀ e ∈ (db.changes.append ⟨.accountRemoved, id, now⟩).entries,
      db.changes.counter < e.1 → e = (db.changes.next, ⟨.accountRemoved, id, now⟩) := by
    intro e mem new
    rcases List.mem_append.1 mem with old | here
    · exact absurd (db.changes.below e old) (Nat.not_le.2 new)
    · exact List.mem_singleton.1 here
  refine ⟨log ▸ .append _ _, fun a quiet => ?_, fun e mem new kind => ?_, fun e mem new _ => ?_⟩
  · rw [log] at quiet
    have told := quiet _ last (Nat.lt_succ_self _)
    have apart : a ≠ id := by
      rintro rfl
      simp [ChangeRow.isAbout] at told
    show (accountAt mid a).map settled = _
    rw [rows, if_neg apart]
  · rw [log] at mem
    obtain rfl := only e mem new
    cases kind
  · rw [log] at mem
    obtain rfl := only e mem new
    constructor
    · show accountAt mid id = none
      rw [rows, if_pos rfl]
    · rw [versionOf, log]
      exact SeqLog.lastAbout_eq last (by simp [ChangeRow.isAbout]) (Nat.le_refl _)
        fun e' _ _ upTo => upTo

theorem accountAt_deleteRow (db : Db) (id a : AccountId) :
    accountAt (db.deleteRow .accounts [.text id]) a = if a = id then none else accountAt db a := by
  rw [accountAt, Db.deleteAccount_find]
  by_cases here : a = id
  · rw [if_pos (by rw [here]), if_pos here]
  · rw [if_neg (by simp [here]), if_neg here, accountAt]
    cases db.find .accounts [.text a] <;> rfl

theorem accountAt_deleteChildren (db : Db) (id a : AccountId) :
    accountAt (db.deleteChildren .documents id) a = accountAt db a := by
  rw [accountAt, Db.deleteChildren_find, accountAt]
  cases db.find .accounts [.text a] <;> rfl

theorem announced_remove (now : Time) (id : AccountId) (db : Db) :
    Announced db (removeAccount now id db).1 := by
  unfold removeAccount
  split
  · exact (Kept.refl db).announced
  · dsimp only [appendChangeSeq]
    generalize cleared : ({ db.deleteChildren .documents id with
        vault := (db.deleteChildren .documents id).vault.erase id } : Db) = db₁
    have changes : db₁.changes = db.changes := by
      rw [← cleared]
      exact (Db.deleteChildren_frame db .documents id).changes
    have rows : ∀ a, accountAt db₁ a = accountAt db a := by
      intro a
      rw [← cleared]
      exact accountAt_deleteChildren db id a
    have removed := fun a => (accountAt_deleteRow db₁ id a).trans (by rw [rows])
    exact announced_gone ((Db.deleteRow_frame db₁ .accounts [.text id]).changes.trans changes)
      removed now

/-- **Every commit announces what it does to accounts.** -/
theorem announced_commitTx {deps : Deps} {now : Time} {publishedAt : Option Time}
    {batch : CommitBatch} {db : Db} {r : Db × Nat}
    (committed : commitTx deps now publishedAt batch db = .ok r) : Announced db r.1 := by
  cases batch with
  | account b => exact (kept_commitAccount committed).announced
  | consumer b =>
      obtain rfl := Except.ok.inj committed
      exact (kept_consumer deps now b db).announced
  | removeAccount id =>
      obtain rfl := Except.ok.inj committed
      exact announced_remove now id db
  | purgeArchived before =>
      obtain rfl := Except.ok.inj committed
      exact (kept_purge now before db).announced

end Kiagent.Store
