/-
# Sync.Promote -- taking over, and handing back

A device leads in numbered epochs.  `promote` opens the range of its epoch in
both counters, records the grant it starts from, gives fresh numbers to what no
other device can have seen, and publishes the keys it only applied:

* `demote` -- the device stops leading and remembers the epoch it led in;
* `renumberUnseen` -- its rows above the first grant it missed and below that
  grant's range get numbers in the new epoch;
* `publishImported` -- so do the keys of `sync_imported`.

`promote_published` is the publication theorem: over any history of deltas of
interim leaders, every such row and key ends above `E * epochGap`, nothing else
moves, and every follower of an older epoch is served all of them.
-/
import Kiagent.Sync.Converge

namespace Kiagent.Sync

open Kiagent.Theory Kiagent.Store

set_option autoImplicit false

/-- Numbers are never reused: a new leader counts from `epoch * epochGap`. -/
def epochGap : Nat := 10000000000

structure PromoteOptions where
  relayImported : Bool
  headPending : Bool
  deriving DecidableEq, Repr

/-! ## Turning the tracker on -/

/-- The largest stamp of an epoch among the logins. -/
def maxStamp (vault : Table VaultRow VaultRow.accountId) (epoch : Nat) : Nat :=
  ((vault.rows.filter fun r => r.epoch = epoch).map VaultRow.n).foldr max 0

def setStamp (vault : Table VaultRow VaultRow.accountId) (account : AccountId) (epoch n : Nat) :
    Table VaultRow VaultRow.accountId :=
  vault.modify account (fun r => { r with epoch, n }) fun _ => rfl

/-- Logins saved before this device led get `(epoch, 1..k)` above whatever the
epoch already holds. -/
def stampUnversionedLogins (db : Db) : Db :=
  let unversioned := db.vault.rows.filter fun r => decide (r.epoch = 0 ∧ r.n = 0)
  let first := maxStamp db.vault db.state.epoch + 1
  let stamped := (unversioned.zipIdx first).foldl
    (fun vault r => setStamp vault r.1.accountId db.state.epoch r.2) db.vault
  { db with vault := stamped }

/-- `enableTracking`, on a device that is not a follower. -/
def startTracking (db : Db) : Db :=
  stampUnversionedLogins { db with state := { db.state with tracking := true, joined := true } }

inductive SyncError where
  | readOnly
  | epochBehind
  deriving DecidableEq, Repr

def enableTracking (db : Db) : Except SyncError Db :=
  if db.state.role = .follower then .error .readOnly else .ok (startTracking db)

/-! ## Promotion -/

/-- `UPDATE sqlite_sequence` for both counters. -/
def raiseCounters (db : Db) (floor : Nat) : Db :=
  { db with changes := db.changes.raise floor, syncRows := db.syncRows.raise floor }

/-- `INSERT OR IGNORE INTO sync_epochs`. -/
def recordGrant (db : Db) (g : EpochRow) : Db :=
  match db.find .syncEpochs (keyOf .syncEpochs g) with
  | some _ => db
  | none => db.insertRow .syncEpochs g

/-- The grant `renumberUnseen` counts from: the lowest above an epoch the device
led in, or the one of the epoch it applied from when it never led. -/
def unseenGrant (db : Db) (fromEpoch : Nat) (above : Bool) : Option EpochRow :=
  if above then (grantsAbove db fromEpoch).head?
  else (db.rows .syncEpochs).find? fun (g : EpochRow) => g.epoch = fromEpoch

/-- The keys numbered strictly between a grant and its range. -/
def unseenKeys (db : Db) (g : EpochRow) : List (Tbl × Key) :=
  ((db.syncRows.since g.grantCursor).filter fun e => e.1 < g.epoch * epochGap).map Prod.snd

/-- The documents numbered strictly between a grant and its range, in order. -/
def unseenDocuments (db : Db) (g : EpochRow) : List DocRow :=
  (db.documents.filter fun d => g.grantSeq < d.seq ∧ d.seq < g.epoch * epochGap).insertionSort
    fun a b => a.seq ≤ b.seq

/-- A new change row gives the document its number; the update is not tracked. -/
def renumberDocument (now : Time) (db : Db) (d : DocRow) : Db :=
  (db.appendChange .document d.id now).updateRow .documents (keyOf .documents d)
    fun x => { x with seq := db.nextSeq }

/-- Delete then insert, key by key, so that each gets a new cursor. -/
def republish (db : Db) (keys : List (Tbl × Key)) : Db :=
  { db with syncRows := db.syncRows.touchAll keys }

def renumberUnseen (db : Db) (fromEpoch : Nat) (above : Bool) (now : Time) : Db :=
  match unseenGrant db fromEpoch above with
  | none => db
  | some g =>
      (unseenDocuments db g).foldl (renumberDocument now) (republish db (unseenKeys db g))

/-- Publish the keys this device only applied, then forget them. -/
def publishImported (db : Db) (relay : Bool) : Db :=
  let keys := if relay then db.imported.entries.map Prod.snd else []
  { republish db keys with imported := db.imported.clear }

/-- Workers re-seed from the new range. -/
def forgetWorkers (db : Db) : Db := { db with ledger := Table.empty, consumers := Table.empty }

/-- The state row of a device that leads `epoch`. -/
def leadingState (s : SyncState) (epoch : Nat) (headPending : Bool) : SyncState :=
  { s with
    role := .normal, masterDeviceId := none, joining := false, epoch
    preDemoteEpoch := none, headPending }

def becomeLeader (db : Db) (epoch : Nat) (headPending : Bool) : Db :=
  { db with state := leadingState db.state epoch headPending }

/-- Open the epoch's range, start tracking, and record the grant: after the
triggers exist, so the grant is the first tracked row. -/
def openRange (db : Db) (epoch : Nat) (headPending : Bool) : Db :=
  recordGrant
    (startTracking (raiseCounters (becomeLeader db epoch headPending) (epoch * epochGap)))
    ⟨epoch, db.state.afterSeq, db.state.afterCursor⟩

def promote (db : Db) (epoch : Nat) (opts : PromoteOptions) (now : Time) : Db :=
  let s := db.state
  -- The same epoch again is the same promotion.
  if s.role = .normal ∧ s.epoch = epoch then becomeLeader db epoch opts.headPending
  else
    let opened := openRange db epoch opts.headPending
    let renumbered :=
      if s.role = .follower ∧ s.epoch < epoch then
        renumberUnseen opened (s.preDemoteEpoch.getD s.epoch) s.preDemoteEpoch.isSome now
      else opened
    forgetWorkers (publishImported renumbered opts.relayImported)

inductive LeadOutcome where
  | promoted
  | seeded
  | noop
  deriving DecidableEq, Repr

/-- The one way a device starts leading. -/
def lead (db : Db) (epoch : Nat) (relayImported : Bool) (now : Time) :
    Except SyncError (LeadOutcome × Db) :=
  if db.state.role = .follower then
    if epoch ≤ db.state.epoch then .error .epochBehind
    else .ok (.promoted, promote db epoch ⟨relayImported, true⟩ now)
  else if db.state.tracking then .ok (.noop, db)
  else
    .ok (.seeded, recordGrant (startTracking db) ⟨epoch, db.state.afterSeq, db.state.afterCursor⟩)

/-- Stop leading: the position is the head of both feeds. -/
def demote (db : Db) (masterDeviceId : DeviceId) : Db :=
  { db with state := { db.state with
      role := .follower, tracking := false, masterDeviceId := some masterDeviceId
      afterSeq := documentHead db, afterCursor := db.syncRows.head, headPending := false
      preDemoteEpoch :=
        if db.state.role = .normal then some db.state.epoch else db.state.preDemoteEpoch } }

/-! ## Renumbering documents -/

section Renumber

variable (now : Time)

theorem renumberDocument_find_self {db : Db} {d old : DocRow}
    (found : db.find .documents (keyOf .documents d) = some old) :
    (renumberDocument now db d).find .documents (keyOf .documents d) =
      some { old with seq := db.nextSeq } := by
  have found' : (db.appendChange .document d.id now).find .documents (keyOf .documents d) =
      some old := found
  have key : keyOf .documents { old with seq := db.nextSeq } = keyOf .documents d :=
    (Table.find_key found : keyOf .documents old = _)
  have updated := Db.updateRow_find_new (t := .documents)
    (fun x : DocRow => { x with seq := db.nextSeq }) found'
  rwa [key] at updated

theorem renumberDocument_find_ne (db : Db) (d : DocRow) {t : Tbl} {k : Key}
    (ne : (t, k) ≠ (.documents, keyOf .documents d)) :
    (renumberDocument now db d).find t k = db.find t k := by
  unfold renumberDocument
  cases found : db.find .documents (keyOf .documents d) with
  | none =>
      have missing : (db.appendChange .document d.id now).find .documents (keyOf .documents d) =
          none := found
      rw [Db.updateRow_none _ missing]
      rfl
  | some old =>
      have found' : (db.appendChange .document d.id now).find .documents (keyOf .documents d) =
          some old := found
      have key : keyOf .documents { old with seq := db.nextSeq } = keyOf .documents d :=
        (Table.find_key found : keyOf .documents old = _)
      exact Db.updateRow_find_ne _ found' ne (key ▸ ne)

theorem renumberDocument_frame (db : Db) (d : DocRow) :
    Db.Frame (db.appendChange .document d.id now) (renumberDocument now db d) :=
  Db.updateRow_frame _ _ _ _

theorem renumberDocument_counter (db : Db) (d : DocRow) :
    (renumberDocument now db d).changes.counter = db.changes.counter + 1 := by
  rw [(renumberDocument_frame now db d).changes]
  rfl

/-- The new number is not the old one, so the tracker does not see the update. -/
theorem renumberDocument_syncRows {db : Db} {d old : DocRow}
    (found : db.find .documents (keyOf .documents d) = some old)
    (low : old.seq ≤ db.changes.counter) :
    (renumberDocument now db d).syncRows = db.syncRows := by
  have found' : (db.appendChange .document d.id now).find .documents (keyOf .documents d) =
      some old := found
  have moved : db.nextSeq ≠ old.seq := Nat.ne_of_gt (Nat.lt_succ_of_le low)
  rw [renumberDocument, updateRow_documents_fresh (fun x : DocRow => { x with seq := db.nextSeq })
    (fun _ => rfl) found' moved]
  rfl

/-- **What renumbering a list of distinct documents does**: the document at
position `i` takes the `i`-th fresh number, and nothing else moves. -/
structure Renumbered (db db' : Db) (ds : List DocRow) : Prop where
  fresh : ∀ i d, ds[i]? = some d → db'.find .documents (keyOf .documents d) =
    some { d with seq := db.changes.counter + 1 + i }
  others : ∀ t k, (∀ d ∈ ds, (t, k) ≠ (.documents, keyOf .documents d)) →
    db'.find t k = db.find t k
  tracked : db'.syncRows = db.syncRows
  imported : db'.imported = db.imported
  plugins : db'.plugins = db.plugins
  state : db'.state = db.state

theorem renumberDocuments_spec : (ds : List DocRow) → (db : Db) →
    (ds.map (keyOf .documents)).Nodup →
    (∀ d ∈ ds, db.find .documents (keyOf .documents d) = some d) →
    (∀ d ∈ ds, d.seq ≤ db.changes.counter) →
    Renumbered db (ds.foldl (renumberDocument now) db) ds
  | [], db, _, _, _ =>
      ⟨fun _ _ at_i => (nomatch at_i), fun _ _ _ => rfl, rfl, rfl, rfl, rfl⟩
  | d :: ds, db, nodup, found, low => by
      rw [List.map_cons, List.nodup_cons] at nodup
      have distinct : ∀ x ∈ ds, ((Tbl.documents, keyOf .documents x) : Tbl × Key) ≠
          (.documents, keyOf .documents d) := fun x mem same =>
        nodup.1 (List.mem_map.2 ⟨x, mem, (Prod.mk.inj same).2⟩)
      have here := found d List.mem_cons_self
      have rest := renumberDocuments_spec ds (renumberDocument now db d) nodup.2
        (fun x mem => by
          rw [renumberDocument_find_ne now db d (distinct x mem)]
          exact found x (List.mem_cons_of_mem _ mem))
        (fun x mem => by
          rw [renumberDocument_counter]
          exact Nat.le_succ_of_le (low x (List.mem_cons_of_mem _ mem)))
      have frame := renumberDocument_frame now db d
      refine ⟨?_, ?_, ?_, rest.imported.trans frame.imported, rest.plugins.trans frame.plugins,
        rest.state.trans frame.state⟩
      · intro i x at_i
        cases i with
        | zero =>
            obtain rfl : d = x := by simpa using at_i
            rw [List.foldl_cons, rest.others _ _ fun y mem => Ne.symm (distinct y mem),
              renumberDocument_find_self now here]
            rfl
        | succ i =>
            have later : ds[i]? = some x := by simpa using at_i
            have shift : db.changes.counter + 1 + 1 + i = db.changes.counter + 1 + (i + 1) := by
              omega
            rw [List.foldl_cons, rest.fresh i x later, renumberDocument_counter, shift]
      · intro t k out
        rw [List.foldl_cons, rest.others t k fun x mem => out x (List.mem_cons_of_mem _ mem)]
        exact renumberDocument_find_ne now db d (out d List.mem_cons_self)
      · rw [List.foldl_cons, rest.tracked]
        exact renumberDocument_syncRows now here (low d List.mem_cons_self)

end Renumber

/-! ## The range opened -/

section OpenRange

variable {db : Db} {E : Nat} {headPending : Bool}

/-- Recording a grant the ledger does not have: one tracked insert. -/
theorem openRange_new (missing : db.find .syncEpochs [.int E] = none) :
    openRange db E headPending =
      (startTracking (raiseCounters (becomeLeader db E headPending) (E * epochGap))).insertRow
        .syncEpochs ⟨E, db.state.afterSeq, db.state.afterCursor⟩ := by
  have missing' : (startTracking (raiseCounters (becomeLeader db E headPending)
      (E * epochGap))).find .syncEpochs
        (keyOf .syncEpochs ⟨E, db.state.afterSeq, db.state.afterCursor⟩) = none := missing
  rw [openRange, recordGrant, missing']

theorem openRange_find_grant (missing : db.find .syncEpochs [.int E] = none) :
    (openRange db E headPending).find .syncEpochs [.int E] =
      some ⟨E, db.state.afterSeq, db.state.afterCursor⟩ := by
  rw [openRange_new missing]
  exact Db.insertRow_find_self _ .syncEpochs ⟨E, db.state.afterSeq, db.state.afterCursor⟩

theorem openRange_find_ne (missing : db.find .syncEpochs [.int E] = none) {t : Tbl} {k : Key}
    (ne : (t, k) ≠ (.syncEpochs, [.int E])) :
    (openRange db E headPending).find t k = db.find t k := by
  rw [openRange_new missing]
  exact Db.insertRow_find_ne _ .syncEpochs ⟨E, db.state.afterSeq, db.state.afterCursor⟩ ne

theorem openRange_frame (missing : db.find .syncEpochs [.int E] = none) :
    Db.Frame (startTracking (raiseCounters (becomeLeader db E headPending) (E * epochGap)))
      (openRange db E headPending) := by
  rw [openRange_new missing]
  exact Db.insertRow_frame _ _ _

theorem openRange_syncRows (missing : db.find .syncEpochs [.int E] = none) :
    (openRange db E headPending).syncRows =
      (db.syncRows.raise (E * epochGap)).touch (.syncEpochs, [.int E]) := by
  rw [openRange_new missing, Db.insertRow, Db.onInsert_eq _ _ (by simp), Db.track_syncRows rfl]
  rfl

end OpenRange

/-! ## The way back to leading -/

/-- A delta of an interim leader, for a device that will lead `E`: an epoch below
`E`, a target inside its range, and grants of epochs below `E`. -/
structure InterimDelta (E : Nat) (entries : List StageEntry) (target : SyncCursor)
    (epoch : Nat) : Prop where
  older : epoch < E
  seq : target.seq < (epoch + 1) * epochGap
  cursor : target.cursor < (epoch + 1) * epochGap
  grants : ∀ g, .upsert .syncEpochs g ∈ entries → g.epoch < E

/-- Any number of deltas of interim leaders. -/
def Interim (E : Nat) : Db → Db → Prop :=
  Relation.ReflTransGen fun db db' => ∃ now entries target epoch,
    InterimDelta E entries target epoch ∧ applyDeltaTx now db entries target epoch = .ok db'

/-- What holds of a device between its demotion from `e` and its promotion to `E`. -/
structure Returning (e E : Nat) (db : Db) : Prop where
  role : db.state.role = .follower
  tracking : db.state.tracking = false
  led : db.state.preDemoteEpoch = some e
  epoch : db.state.epoch < E
  seq : db.state.afterSeq ≤ E * epochGap
  cursor : db.state.afterCursor ≤ E * epochGap
  grants : ∀ k (g : EpochRow), db.find .syncEpochs k = some g → g.epoch < E
  untracked : db.syncRows.numberOf (.syncEpochs, [.int E]) = none

theorem range_le {e E : Nat} (lt : e < E) : (e + 1) * epochGap ≤ E * epochGap :=
  Nat.mul_le_mul_right _ lt

theorem demote_returning {leader : Db} {e E : Nat} (master : DeviceId)
    (role : leader.state.role = .normal) (epoch : leader.state.epoch = e) (newer : e < E)
    (consistent : Consistent leader)
    (seqs : leader.changes.counter < (e + 1) * epochGap)
    (cursors : leader.syncRows.counter < (e + 1) * epochGap)
    (grants : ∀ k (g : EpochRow), leader.find .syncEpochs k = some g → g.epoch < E)
    (untracked : leader.syncRows.numberOf (.syncEpochs, [.int E]) = none) :
    Returning e E (demote leader master) where
  role := rfl
  tracking := rfl
  led := by simp [demote, role, epoch]
  epoch := by simpa [demote, epoch] using newer
  seq := Nat.le_trans (documentHead_le consistent)
    (Nat.le_trans (Nat.le_of_lt seqs) (range_le newer))
  cursor := Nat.le_trans (SeqLog.head_le_counter _)
    (Nat.le_trans (Nat.le_of_lt cursors) (range_le newer))
  grants := grants
  untracked := untracked

/-- A grant found after applying an entry was there, or the entry brought it. -/
theorem applyEntry_grants {now : Time} {db : Db} {e : StageEntry} {k : Key} {g : EpochRow}
    (found : (applyEntry now db e).find .syncEpochs k = some g) :
    db.find .syncEpochs k = some g ∨ e = .upsert .syncEpochs g := by
  cases e with
  | delete t k' =>
      rw [applyDelete_tables] at found
      exact Or.inl (Db.deleteRow_find_some found)
  | upsert t r =>
      by_cases here : (Tbl.syncEpochs, k) = (t, keyOf t r)
      · obtain ⟨rfl, rfl⟩ := Prod.mk.inj here
        rw [applyUpsert_find_self] at found
        exact Or.inr (by rw [Option.some.inj found])
      · rw [applyUpsert_find_ne now db t r here] at found
        exact Or.inl found

theorem applyEntries_grants {now : Time} {k : Key} {g : EpochRow} :
    (es : List StageEntry) → (db : Db) →
      (es.foldl (applyEntry now) db).find .syncEpochs k = some g →
      db.find .syncEpochs k = some g ∨ .upsert .syncEpochs g ∈ es
  | [], _, found => Or.inl found
  | e :: es, db, found => by
      rcases applyEntries_grants es _ found with before | later
      · rcases applyEntry_grants before with was | rfl
        · exact Or.inl was
        · exact Or.inr List.mem_cons_self
      · exact Or.inr (List.mem_cons_of_mem _ later)

theorem applyDeltaTx_ok {now : Time} {db db' : Db} {entries : List StageEntry}
    {target : SyncCursor} {epoch : Nat}
    (applied : applyDeltaTx now db entries target epoch = .ok db') :
    db' = storeTarget (entries.foldl (applyEntry now) db) target epoch := by
  unfold applyDeltaTx at applied
  split at applied
  · cases applied
  · split at applied
    · cases applied
    · simp only at applied
      split at applied
      · injection applied with same
        exact same.symm
      · cases applied

/-- One interim delta keeps what a returning device satisfies. -/
theorem Returning.apply {e E : Nat} {now : Time} {db db' : Db} {entries : List StageEntry}
    {target : SyncCursor} {epoch : Nat} (returning : Returning e E db)
    (interim : InterimDelta E entries target epoch)
    (applied : applyDeltaTx now db entries target epoch = .ok db') : Returning e E db' := by
  obtain rfl := applyDeltaTx_ok applied
  have state := applyEntries_state now entries db
  exact {
    role := by rw [storeTarget, state]; exact returning.role
    tracking := by rw [storeTarget, state]; exact returning.tracking
    led := by rw [storeTarget, state]; exact returning.led
    epoch := interim.older
    seq := Nat.le_trans (Nat.le_of_lt interim.seq) (range_le interim.older)
    cursor := Nat.le_trans (Nat.le_of_lt interim.cursor) (range_le interim.older)
    grants := fun k g found => by
      rcases applyEntries_grants entries db found with was | brought
      · exact returning.grants k g was
      · exact interim.grants g brought
    untracked := by
      rw [storeTarget, applyEntries_syncRows now entries db returning.tracking]
      exact returning.untracked }

/-- Any history of interim deltas does. -/
theorem Returning.interim {e E : Nat} {db db' : Db} (returning : Returning e E db)
    (history : Interim E db db') : Returning e E db' := by
  induction history with
  | refl => exact returning
  | tail _ step ih =>
      obtain ⟨now, entries, target, epoch, interim, applied⟩ := step
      exact ih.apply interim applied

/-! ## Publication -/

/-- The grant with the lowest epoch above `e` in a ledger. -/
structure LowestGrant (db : Db) (e : Nat) (g : EpochRow) : Prop where
  recorded : db.find .syncEpochs (keyOf .syncEpochs g) = some g
  above : e < g.epoch
  lowest : ∀ g', db.find .syncEpochs (keyOf .syncEpochs g') = some g' → e < g'.epoch →
    g.epoch ≤ g'.epoch

/-- A document number no device that missed the takeover of `g` has seen. -/
def UnseenSeq (g : EpochRow) (seq : Nat) : Prop := g.grantSeq < seq ∧ seq < g.epoch * epochGap

/-- A tracked key no such device has seen. -/
def UnseenKey (db : Db) (g : EpochRow) (key : Tbl × Key) : Prop :=
  ∃ n, db.syncRows.numberOf key = some n ∧ g.grantCursor < n ∧ n < g.epoch * epochGap

/-- A key this device only applied, published at a takeover that relays. -/
def RelayedKey (db : Db) (relay : Bool) (key : Tbl × Key) : Prop :=
  relay = true ∧ ∃ n, db.imported.numberOf key = some n

/-- `db'` publishes in epoch `E` what `db` holds that others may lack. -/
structure Published (db db' : Db) (E : Nat) (g : EpochRow) (relay : Bool) : Prop where
  documents : ∀ k d, db.find .documents k = some d → UnseenSeq g d.seq →
    ∃ n, E * epochGap < n ∧ db'.find .documents k = some { d with seq := n }
  documentOrder : ∀ k₁ k₂ d₁ d₂ n₁ n₂, db.find .documents k₁ = some d₁ →
    db.find .documents k₂ = some d₂ → UnseenSeq g d₁.seq → UnseenSeq g d₂.seq →
    d₁.seq < d₂.seq → db'.find .documents k₁ = some { d₁ with seq := n₁ } →
    db'.find .documents k₂ = some { d₂ with seq := n₂ } → n₁ < n₂
  otherDocuments : ∀ k, (∀ d, db.find .documents k = some d → ¬ UnseenSeq g d.seq) →
    db'.find .documents k = db.find .documents k
  otherRows : ∀ t k, t ≠ .documents → (t, k) ≠ (.syncEpochs, [.int E]) →
    db'.find t k = db.find t k
  keys : ∀ key, UnseenKey db g key ∨ RelayedKey db relay key →
    ∃ n, E * epochGap < n ∧ db'.syncRows.numberOf key = some n
  keyOrder : ∀ key₁ key₂ m₁ m₂ n₁ n₂, db.syncRows.numberOf key₁ = some m₁ →
    db.syncRows.numberOf key₂ = some m₂ → UnseenKey db g key₁ → UnseenKey db g key₂ →
    ¬ RelayedKey db relay key₁ → ¬ RelayedKey db relay key₂ → m₁ < m₂ →
    db'.syncRows.numberOf key₁ = some n₁ → db'.syncRows.numberOf key₂ = some n₂ → n₁ < n₂
  relayOrder : ∀ key₁ key₂ m₁ m₂ n₁ n₂, relay = true → db.imported.numberOf key₁ = some m₁ →
    db.imported.numberOf key₂ = some m₂ → m₁ < m₂ →
    db'.syncRows.numberOf key₁ = some n₁ → db'.syncRows.numberOf key₂ = some n₂ → n₁ < n₂
  once : (db'.syncRows.entries.map Prod.snd).Nodup
  stillTracked : ∀ key m, db.syncRows.numberOf key = some m →
    ∃ n, db'.syncRows.numberOf key = some n

/-- Every follower of an older epoch is served what `db` publishes: the row where
there is one, the delete where there is none. -/
def Served (db db' : Db) (E : Nat) (g : EpochRow) (relay : Bool) : Prop :=
  ∀ lineLength asked fromEpoch capBytes delta, fromEpoch < E →
    buildDelta lineLength db' asked fromEpoch capBytes = .ok delta →
    (∀ k d, db.find .documents k = some d → UnseenSeq g d.seq →
      ∃ n, .upsert .documents { d with seq := n } ∈ delta.entries) ∧
    (∀ t k, t ∈ db'.copiedTables → UnseenKey db g (t, k) ∨ RelayedKey db relay (t, k) →
      (∀ r, db'.find t k = some r → .upsert t r ∈ delta.entries) ∧
      (db'.find t k = none → .delete t k ∈ delta.entries))

section Publish

variable {db : Db} {e E : Nat} {g : EpochRow} {opts : PromoteOptions} {now : Time}

theorem Returning.missing (returning : Returning e E db) :
    db.find .syncEpochs [.int E] = none := by
  rw [Option.eq_none_iff_forall_ne_some]
  intro g found
  have key : keyOf .syncEpochs g = [.int E] := Table.find_key found
  have cells : (g.epoch : Int) = E := by simpa [keyOf] using key
  have same : g.epoch = E := by omega
  exact Nat.lt_irrefl _ (same ▸ returning.grants _ g found)

theorem openRange_numberOf (returning : Returning e E db) (headPending : Bool)
    (key : Tbl × Key) :
    (openRange db E headPending).syncRows.numberOf key =
      if key = (.syncEpochs, [.int E]) then
        some (max db.syncRows.counter (E * epochGap) + 1)
      else db.syncRows.numberOf key := by
  rw [openRange_syncRows returning.missing, KeyedLog.numberOf_touch]
  rfl

theorem openRange_counter (returning : Returning e E db) (headPending : Bool) :
    E * epochGap < (openRange db E headPending).syncRows.counter := by
  rw [openRange_syncRows returning.missing, KeyedLog.counter_touch, KeyedLog.counter_raise]
  exact Nat.lt_succ_of_le (Nat.le_max_right _ _)

theorem openRange_changes (returning : Returning e E db) (headPending : Bool) :
    E * epochGap ≤ (openRange db E headPending).changes.counter := by
  rw [(openRange_frame returning.missing).changes]
  exact Nat.le_max_right _ _

/-- The new grant is numbered above every range that is renumbered. -/
theorem mem_unseenKeys (returning : Returning e E db) (older : g.epoch ≤ E) (headPending : Bool)
    {key : Tbl × Key} :
    key ∈ unseenKeys (openRange db E headPending) g ↔ UnseenKey db g key := by
  have listed : key ∈ unseenKeys (openRange db E headPending) g ↔
      ∃ n, (openRange db E headPending).syncRows.numberOf key = some n ∧
        g.grantCursor < n ∧ n < g.epoch * epochGap := by
    simp only [unseenKeys, List.mem_map, List.mem_filter, SeqLog.mem_since, decide_eq_true_eq,
      KeyedLog.numberOf_eq_some_iff]
    constructor
    · rintro ⟨⟨n, key'⟩, ⟨⟨mem, above⟩, below⟩, rfl⟩
      exact ⟨n, mem, above, below⟩
    · rintro ⟨n, mem, above, below⟩
      exact ⟨(n, key), ⟨⟨mem, above⟩, below⟩, rfl⟩
  rw [listed]
  by_cases own : key = (.syncEpochs, [.int E])
  · subst own
    have out : ¬ UnseenKey db g (.syncEpochs, [.int E]) := by
      rintro ⟨n, number, -⟩
      rw [returning.untracked] at number
      cases number
    refine ⟨?_, fun unseen => absurd unseen out⟩
    rintro ⟨n, number, -, below⟩
    rw [openRange_numberOf returning, if_pos rfl] at number
    have range : g.epoch * epochGap ≤ E * epochGap := Nat.mul_le_mul_right _ older
    have high := Nat.le_max_right db.syncRows.counter (E * epochGap)
    cases number
    omega
  · simp only [openRange_numberOf returning, if_neg own]
    rfl

theorem mem_unseenDocuments (returning : Returning e E db) (headPending : Bool) {d : DocRow} :
    d ∈ unseenDocuments (openRange db E headPending) g ↔
      db.find .documents (keyOf .documents d) = some d ∧ UnseenSeq g d.seq := by
  rw [unseenDocuments, List.mem_insertionSort, List.mem_filter, decide_eq_true_eq,
    ← openRange_find_ne returning.missing (t := .documents) (by simp)]
  exact and_congr_left fun _ =>
    ⟨fun mem => Table.find_of_mem mem, fun found => Table.find_mem found⟩

theorem unseenDocuments_nodup (db : Db) (g : EpochRow) :
    ((unseenDocuments db g).map (keyOf .documents)).Nodup := by
  have sorted := List.perm_insertionSort (fun a b : DocRow => a.seq ≤ b.seq)
    (db.documents.filter fun d => g.grantSeq < d.seq ∧ d.seq < g.epoch * epochGap)
  refine (sorted.map (keyOf .documents)).nodup_iff.2 ?_
  exact (db.tables .documents).nodup.sublist (List.filter_sublist.map _)

/-- The grant the renumbering counts from is the lowest above the epoch led. -/
theorem unseenGrant_eq {db : Db} (lowest : LowestGrant db e g) :
    unseenGrant db e true = some g := by
  have mem := mem_grantsAbove.2 ⟨lowest.recorded, lowest.above⟩
  have sorted : (grantsAbove db e).Pairwise fun a b => a.epoch ≤ b.epoch :=
    insertionSort_sorted EpochRow.epoch _
  rw [unseenGrant, if_pos rfl]
  cases listed : grantsAbove db e with
  | nil =>
      rw [listed] at mem
      cases mem
  | cons h rest =>
      have first : h ∈ grantsAbove db e := listed ▸ List.mem_cons_self
      obtain ⟨recorded, above⟩ := mem_grantsAbove.1 first
      have low := lowest.lowest h recorded above
      have high : h.epoch ≤ g.epoch := by
        rw [listed] at mem sorted
        rcases List.mem_cons.1 mem with rfl | tail
        · exact Nat.le_refl _
        · exact (List.pairwise_cons.1 sorted).1 g tail
      have same : keyOf .syncEpochs h = keyOf .syncEpochs g := by
        simp only [keyOf, Nat.le_antisymm high low]
      rw [same] at recorded
      rw [List.head?_cons, ← recorded, lowest.recorded]

/-- Renumbering and publishing touch the documents' numbers and the tracker only. -/
theorem renumberUnseen_find (db : Db) (fromEpoch : Nat) (above : Bool) (now : Time) {t : Tbl}
    (other : t ≠ .documents) (k : Key) :
    (renumberUnseen db fromEpoch above now).find t k = db.find t k := by
  have through : ∀ (ds : List DocRow) (db : Db),
      (ds.foldl (renumberDocument now) db).find t k = db.find t k := by
    intro ds
    induction ds with
    | nil => exact fun _ => rfl
    | cons d ds ih =>
        intro db
        rw [List.foldl_cons, ih]
        exact renumberDocument_find_ne now db d fun same => other (Prod.mk.inj same).1
  unfold renumberUnseen
  split
  · rfl
  · exact through _ _

theorem promote_eq (returning : Returning e E db) :
    promote db E opts now = forgetWorkers (publishImported
      (renumberUnseen (openRange db E opts.headPending) e true now) opts.relayImported) := by
  have follower : ¬ (db.state.role = .normal ∧ db.state.epoch = E) := by
    simp [returning.role]
  simp only [promote, if_neg follower, if_pos (And.intro returning.role returning.epoch),
    returning.led, Option.getD_some, Option.isSome_some]

theorem LowestGrant.of_promote (returning : Returning e E db)
    (lowest : LowestGrant (promote db E opts now) e g) :
    LowestGrant (openRange db E opts.headPending) e g := by
  have same : ∀ k, (promote db E opts now).find .syncEpochs k =
      (openRange db E opts.headPending).find .syncEpochs k := fun k => by
    rw [promote_eq returning]
    exact renumberUnseen_find _ _ _ _ (by simp) k
  exact ⟨same _ ▸ lowest.recorded, lowest.above,
    fun g' recorded => lowest.lowest g' ((same _).trans recorded)⟩

/-- The promoting device's own grant is there, so the lowest is at most `E`. -/
theorem LowestGrant.le (returning : Returning e E db) (newer : e < E) {headPending : Bool}
    (lowest : LowestGrant (openRange db E headPending) e g) : g.epoch ≤ E :=
  lowest.lowest ⟨E, db.state.afterSeq, db.state.afterCursor⟩
    (openRange_find_grant returning.missing) newer

/-- What the promotion of a returning device does, by its parts. -/
structure Takeover (db opened renumbered db' : Db) (g : EpochRow) (relay : Bool) : Prop where
  documents : Renumbered (republish opened (unseenKeys opened g)) renumbered
    (unseenDocuments opened g)
  find : ∀ t k, db'.find t k = renumbered.find t k
  tracked : db'.syncRows = (opened.syncRows.touchAll (unseenKeys opened g)).touchAll
    (if relay then db.imported.entries.map Prod.snd else [])
  epoch : db'.state.epoch = opened.state.epoch

theorem promote_takeover (returning : Returning e E db) (newer : e < E)
    (lowest : LowestGrant (promote db E opts now) e g) :
    Takeover db (openRange db E opts.headPending)
      (renumberUnseen (openRange db E opts.headPending) e true now)
      (promote db E opts now) g opts.relayImported := by
  have openLowest := lowest.of_promote returning
  have older := openLowest.le returning newer
  have frame : Db.Frame
      (startTracking (raiseCounters (becomeLeader db E opts.headPending) (E * epochGap)))
      (openRange db E opts.headPending) := openRange_frame returning.missing
  have body : renumberUnseen (openRange db E opts.headPending) e true now =
      (unseenDocuments (openRange db E opts.headPending) g).foldl (renumberDocument now)
        (republish (openRange db E opts.headPending)
          (unseenKeys (openRange db E opts.headPending) g)) := by
    rw [renumberUnseen, unseenGrant_eq openLowest]
  have renumbered := renumberDocuments_spec now
    (unseenDocuments (openRange db E opts.headPending) g)
    (republish (openRange db E opts.headPending)
      (unseenKeys (openRange db E opts.headPending) g))
    (unseenDocuments_nodup _ _)
    (fun d mem => (openRange_find_ne returning.missing (by simp)).trans
      ((mem_unseenDocuments returning _).1 mem).1)
    (fun d mem => by
      have unseen := ((mem_unseenDocuments returning _).1 mem).2
      have range : g.epoch * epochGap ≤ E * epochGap := Nat.mul_le_mul_right _ older
      exact Nat.le_trans (Nat.le_of_lt unseen.2)
        (Nat.le_trans range (openRange_changes returning _)))
  rw [← body] at renumbered
  refine ⟨renumbered, ?_, ?_, ?_⟩
  · intro t k
    rw [promote_eq returning]
    rfl
  · have noted : (renumberUnseen (openRange db E opts.headPending) e true now).imported =
        db.imported := renumbered.imported.trans frame.imported
    have tracked := renumbered.tracked
    rw [promote_eq returning, ← noted]
    simp only [forgetWorkers, publishImported, republish] at tracked ⊢
    rw [tracked]
  · rw [promote_eq returning]
    exact congrArg SyncState.epoch renumbered.state

/-- An unseen document and its place in the renumbered list. -/
theorem unseen_place (returning : Returning e E db) {k : Key} {d : DocRow}
    (found : db.find .documents k = some d) (unseen : UnseenSeq g d.seq) (headPending : Bool) :
    ∃ i : Nat, (unseenDocuments (openRange db E headPending) g)[i]? = some d := by
  have key : keyOf .documents d = k := Table.find_key found
  have mem := (mem_unseenDocuments returning headPending).2 ⟨key ▸ found, unseen⟩
  exact List.mem_iff_getElem?.1 mem

theorem Takeover.document {opened renumbered db' : Db} {relay : Bool}
    (takeover : Takeover db opened renumbered db' g relay) {i : Nat} {k : Key} {d : DocRow}
    (found : db.find .documents k = some d) (place : (unseenDocuments opened g)[i]? = some d) :
    db'.find .documents k = some { d with seq := opened.changes.counter + 1 + i } := by
  have key : keyOf .documents d = k := Table.find_key found
  rw [takeover.find, ← key]
  exact takeover.documents.fresh i d place

/-- **Everything the returning leader alone holds is published above `E * epochGap`,
and nothing else moves.** -/
theorem promote_published (returning : Returning e E db) (newer : e < E)
    (lowest : LowestGrant (promote db E opts now) e g) :
    Published db (promote db E opts now) E g opts.relayImported := by
  have takeover := promote_takeover returning newer lowest
  have older := (lowest.of_promote returning).le returning newer
  have counter := openRange_counter returning opts.headPending
  have changes := openRange_changes returning opts.headPending
  have sorted : (unseenDocuments (openRange db E opts.headPending) g).Pairwise
      fun a b => a.seq ≤ b.seq := insertionSort_sorted DocRow.seq _
  -- the tracker's rows before the relayed keys are published
  have kept : ∀ key, ¬ RelayedKey db opts.relayImported key →
      (promote db E opts now).syncRows.numberOf key =
        ((openRange db E opts.headPending).syncRows.touchAll
          (unseenKeys (openRange db E opts.headPending) g)).numberOf key := by
    intro key out
    rw [takeover.tracked, KeyedLog.numberOf_touchAll_of_not_mem]
    intro mem
    split at mem
    · rename_i relay
      obtain ⟨⟨n, key'⟩, entry, rfl⟩ := List.mem_map.1 mem
      exact out ⟨relay, n, KeyedLog.numberOf_eq_some_iff.2 entry⟩
    · cases mem
  refine ⟨?_, ?_, ?_, ?_, ?_, ?_, ?_, (promote db E opts now).syncRows.keys_nodup, ?_⟩
  · intro k d found unseen
    obtain ⟨i, place⟩ := unseen_place returning found unseen opts.headPending
    exact ⟨_, by omega, takeover.document found place⟩
  · intro k₁ k₂ d₁ d₂ n₁ n₂ found₁ found₂ unseen₁ unseen₂ lt new₁ new₂
    obtain ⟨i, place₁⟩ := unseen_place returning found₁ unseen₁ opts.headPending
    obtain ⟨j, place₂⟩ := unseen_place returning found₂ unseen₂ opts.headPending
    have number₁ := congrArg DocRow.seq
      (Option.some.inj (new₁.symm.trans (takeover.document found₁ place₁)))
    have number₂ := congrArg DocRow.seq
      (Option.some.inj (new₂.symm.trans (takeover.document found₂ place₂)))
    simp only at number₁ number₂
    have before : i < j := by
      by_contra late
      obtain ⟨hi, eq₁⟩ := List.getElem?_eq_some_iff.1 place₁
      obtain ⟨hj, eq₂⟩ := List.getElem?_eq_some_iff.1 place₂
      rcases Nat.lt_or_eq_of_le (Nat.le_of_not_lt late) with swapped | rfl
      · have descending := List.pairwise_iff_getElem.1 sorted j i hj hi swapped
        rw [eq₁, eq₂] at descending
        omega
      · rw [← eq₁, ← eq₂] at lt
        exact Nat.lt_irrefl _ lt
    omega
  · intro k seen
    rw [takeover.find, takeover.documents.others .documents k]
    · exact openRange_find_ne returning.missing (by simp)
    · intro d mem same
      obtain ⟨found, unseen⟩ := (mem_unseenDocuments returning _).1 mem
      obtain rfl : k = keyOf .documents d := (Prod.mk.inj same).2
      exact seen d found unseen
  · intro t k other ne
    rw [takeover.find, takeover.documents.others t k fun d _ same => other (Prod.mk.inj same).1]
    exact openRange_find_ne returning.missing ne
  · rintro key (unseen | ⟨relay, m, noted⟩)
    · have mem := (mem_unseenKeys returning older opts.headPending).2 unseen
      obtain ⟨n, number, above⟩ := KeyedLog.numberOf_touchAll_of_mem _
        (openRange db E opts.headPending).syncRows mem
      rw [takeover.tracked]
      obtain ⟨n', number', le⟩ := KeyedLog.numberOf_le_touchAll _ _ number
      exact ⟨n', by omega, number'⟩
    · have mem : key ∈ db.imported.entries.map Prod.snd :=
        List.mem_map.2 ⟨(m, key), KeyedLog.numberOf_eq_some_iff.1 noted, rfl⟩
      rw [takeover.tracked, if_pos relay]
      obtain ⟨n, number, above⟩ := KeyedLog.numberOf_touchAll_of_mem _
        ((openRange db E opts.headPending).syncRows.touchAll
          (unseenKeys (openRange db E opts.headPending) g)) mem
      rw [KeyedLog.counter_touchAll] at above
      exact ⟨n, by omega, number⟩
  · intro key₁ key₂ m₁ m₂ n₁ n₂ was₁ was₂ unseen₁ unseen₂ out₁ out₂ lt new₁ new₂
    have entry : ∀ key m, db.syncRows.numberOf key = some m → UnseenKey db g key →
        (m, key) ∈ (openRange db E opts.headPending).syncRows.entries.filter
          fun x => x.1 < g.epoch * epochGap ∧ g.grantCursor < x.1 := by
      rintro key m was ⟨m', was', above, below⟩
      obtain rfl : m = m' := Option.some.inj (was.symm.trans was')
      have own : key ≠ (.syncEpochs, [.int E]) := by
        rintro rfl
        rw [returning.untracked] at was
        cases was
      have opened := openRange_numberOf returning opts.headPending key
      rw [if_neg own, was] at opened
      simp only [List.mem_filter, decide_eq_true_eq]
      exact ⟨KeyedLog.numberOf_eq_some_iff.1 opened, below, above⟩
    have selection : unseenKeys (openRange db E opts.headPending) g =
        ((openRange db E opts.headPending).syncRows.entries.filter
          fun x => x.1 < g.epoch * epochGap ∧ g.grantCursor < x.1).map Prod.snd := by
      simp only [unseenKeys, SeqLog.since, List.filter_filter, Bool.decide_and]
    obtain ⟨a, b, number₁, number₂, below⟩ := KeyedLog.touchAll_keeps_order
      (l := (openRange db E opts.headPending).syncRows) _ (entry key₁ m₁ was₁ unseen₁)
      (entry key₂ m₂ was₂ unseen₂) lt
    rw [kept _ out₁, selection, number₁] at new₁
    rw [kept _ out₂, selection, number₂] at new₂
    cases new₁
    cases new₂
    exact below
  · intro key₁ key₂ m₁ m₂ n₁ n₂ relay noted₁ noted₂ lt new₁ new₂
    have whole : db.imported.entries.map Prod.snd =
        (db.imported.entries.filter fun _ => true).map Prod.snd := by simp
    have entry : ∀ key m, db.imported.numberOf key = some m →
        (m, key) ∈ db.imported.entries.filter fun _ => true := fun key m noted => by
      simpa using KeyedLog.numberOf_eq_some_iff.1 noted
    obtain ⟨a, b, number₁, number₂, below⟩ := KeyedLog.touchAll_keeps_order
      (l := (openRange db E opts.headPending).syncRows.touchAll
        (unseenKeys (openRange db E opts.headPending) g)) _ (entry key₁ m₁ noted₁)
      (entry key₂ m₂ noted₂) lt
    rw [takeover.tracked, if_pos relay, whole, number₁] at new₁
    rw [takeover.tracked, if_pos relay, whole, number₂] at new₂
    cases new₁
    cases new₂
    exact below
  · intro key m was
    have opened : ∃ n, (openRange db E opts.headPending).syncRows.numberOf key = some n := by
      rw [openRange_numberOf returning]
      split
      · exact ⟨_, rfl⟩
      · exact ⟨m, was⟩
    obtain ⟨n, number⟩ := opened
    rw [takeover.tracked]
    obtain ⟨n', number', -⟩ := KeyedLog.numberOf_le_touchAll
      (unseenKeys (openRange db E opts.headPending) g) _ number
    obtain ⟨n'', number'', -⟩ := KeyedLog.numberOf_le_touchAll _ _ number'
    exact ⟨n'', number''⟩

/-- Every follower of an older epoch starts below the new numbers, at the
promotion's own grant or lower. -/
theorem promote_served (returning : Returning e E db) (newer : e < E)
    (lowest : LowestGrant (promote db E opts now) e g) :
    Served db (promote db E opts now) E g opts.relayImported := by
  have published := promote_published returning newer lowest
  have takeover := promote_takeover returning newer lowest
  intro lineLength asked fromEpoch capBytes delta older answer
  have recorded : (promote db E opts now).find .syncEpochs
      (keyOf .syncEpochs ⟨E, db.state.afterSeq, db.state.afterCursor⟩) =
        some ⟨E, db.state.afterSeq, db.state.afterCursor⟩ := by
    rw [takeover.find, renumberUnseen_find _ _ _ _ (by simp)]
    exact openRange_find_grant returning.missing
  have epoch : (promote db E opts now).state.epoch = E := by
    rw [takeover.epoch, (openRange_frame returning.missing).state]
    rfl
  have start : (rewound (promote db E opts now) asked fromEpoch).seq ≤ db.state.afterSeq ∧
      (rewound (promote db E opts now) asked fromEpoch).cursor ≤ db.state.afterCursor :=
    rewound_le recorded older (by rw [epoch]; exact older)
  have seq := Nat.le_trans start.1 returning.seq
  have cursor := Nat.le_trans start.2 returning.cursor
  simp only [buildDelta] at answer
  split at answer
  · cases answer
  injection answer with answer
  subst answer
  refine ⟨?_, ?_⟩
  · intro k d found unseen
    obtain ⟨n, above, moved⟩ := published.documents k d found unseen
    refine ⟨n, List.mem_append_right _ ?_⟩
    exact upsert_of_marked fromEpoch (t := .documents) (List.mem_append_left _ (by decide))
      (Or.inr ⟨rfl, _, moved, Nat.lt_of_le_of_lt seq above⟩) moved
  · intro t k copied carried
    obtain ⟨n, above, number⟩ := published.keys (t, k) carried
    have marked : Marked (rewound (promote db E opts now) asked fromEpoch)
        (promote db E opts now) t k := Or.inl ⟨n, number, Nat.lt_of_le_of_lt cursor above⟩
    exact ⟨fun r found => List.mem_append_right _ (upsert_of_marked fromEpoch copied marked found),
      fun gone => List.mem_append_left _ (delete_of_marked copied marked gone)⟩

end Publish

/-- **Takeover publication of a returning leader.**  A device led `e` without
exhausting its range, was demoted, applied any number of interim deltas, and is
promoted to `E`: counting from the lowest grant above `e`, what only it holds is
published in `E`, in order, and served to every follower of an older epoch. -/
theorem returning_leader_publishes {leader db : Db} {e E : Nat} {g : EpochRow}
    (master : DeviceId) (opts : PromoteOptions) (now : Time)
    (role : leader.state.role = .normal) (epoch : leader.state.epoch = e) (newer : e < E)
    (consistent : Consistent leader)
    (seqs : leader.changes.counter < (e + 1) * epochGap)
    (cursors : leader.syncRows.counter < (e + 1) * epochGap)
    (grants : ∀ k (g : EpochRow), leader.find .syncEpochs k = some g → g.epoch < E)
    (untracked : leader.syncRows.numberOf (.syncEpochs, [.int E]) = none)
    (history : Interim E (demote leader master) db)
    (lowest : LowestGrant (promote db E opts now) e g) :
    Published db (promote db E opts now) E g opts.relayImported ∧
      Served db (promote db E opts now) E g opts.relayImported := by
  have returning := (demote_returning master role epoch newer consistent seqs cursors grants
    untracked).interim history
  exact ⟨promote_published returning newer lowest, promote_served returning newer lowest⟩

/-! ## A history in which the keys change order -/

/-- A leader of epoch 1 that saved the preferences `a`, then `b`. -/
def twoPreferences : Db :=
  let led := { Db.fresh with
    state := { SyncState.fresh with tracking := true, epoch := 1 }
    syncRows := KeyedLog.empty.raise epochGap }
  (led.insertRow .userPrefs ⟨[.text "a"], none, []⟩).insertRow .userPrefs ⟨[.text "b"], none, []⟩

theorem twoPreferences_find {t : Tbl} (other : t ≠ .userPrefs) (k : Key) :
    twoPreferences.find t k = none := by
  rw [twoPreferences, Db.insertRow_find_ne _ _ _ fun same => other (Prod.mk.inj same).1,
    Db.insertRow_find_ne _ _ _ fun same => other (Prod.mk.inj same).1]
  rfl

/-- The interim leader of epoch 2 started before both and changed `a`. -/
def interimEntries : List StageEntry :=
  [.upsert .syncEpochs ⟨2, 0, epochGap⟩,
    .upsert .userPrefs ⟨[.text "a"], none, [("value_json", .text "1")]⟩]

def interimTarget : SyncCursor := ⟨2 * epochGap, 2 * epochGap + 2⟩

/-- The first device after the delta of the interim leader. -/
def caughtUp : Db :=
  storeTarget (interimEntries.foldl (applyEntry 0) (demote twoPreferences "other")) interimTarget 2

theorem caughtUp_history : Interim 3 (demote twoPreferences "other") caughtUp := by
  refine Relation.ReflTransGen.single ⟨0, interimEntries, interimTarget, 2, ?_, rfl⟩
  refine ⟨by decide, by decide, by decide, ?_⟩
  intro g mem
  simp only [interimEntries, List.mem_cons, StageEntry.upsert.injEq, List.not_mem_nil,
    reduceCtorEq, false_and, or_false, true_and, heq_eq_eq] at mem
  rw [mem]
  decide

theorem caughtUp_lowest :
    LowestGrant (promote caughtUp 3 ⟨true, true⟩ 0) 1 ⟨2, 0, epochGap⟩ where
  recorded := by decide
  above := by decide
  lowest _ _ above := above

/-- **Keys can change order**: `a` was tracked before `b`, both were unseen, and `a`
is published after `b`, since the interim delta carried `a` too. -/
theorem relayed_key_overtakes :
    let db' := promote caughtUp 3 ⟨true, true⟩ 0
    let a : Tbl × Key := (.userPrefs, [.text "a"])
    let b : Tbl × Key := (.userPrefs, [.text "b"])
    Interim 3 (demote twoPreferences "other") caughtUp ∧
      LowestGrant db' 1 ⟨2, 0, epochGap⟩ ∧
      UnseenKey caughtUp ⟨2, 0, epochGap⟩ a ∧ UnseenKey caughtUp ⟨2, 0, epochGap⟩ b ∧
      ∃ m₁ m₂ n₁ n₂, caughtUp.syncRows.numberOf a = some m₁ ∧
        caughtUp.syncRows.numberOf b = some m₂ ∧ m₁ < m₂ ∧
        db'.syncRows.numberOf a = some n₁ ∧ db'.syncRows.numberOf b = some n₂ ∧ n₂ < n₁ := by
  refine ⟨caughtUp_history, caughtUp_lowest, ⟨epochGap + 1, by decide, by decide, by decide⟩,
    ⟨epochGap + 2, by decide, by decide, by decide⟩, epochGap + 1, epochGap + 2,
    3 * epochGap + 5, 3 * epochGap + 3, by decide, by decide, by decide, ?_, ?_, by decide⟩
  · decide +kernel
  · decide +kernel

/-- The same history, published. -/
theorem caughtUp_publishes :
    Published caughtUp (promote caughtUp 3 ⟨true, true⟩ 0) 3 ⟨2, 0, epochGap⟩ true ∧
      Served caughtUp (promote caughtUp 3 ⟨true, true⟩ 0) 3 ⟨2, 0, epochGap⟩ true :=
  returning_leader_publishes "other" ⟨true, true⟩ 0 rfl rfl (by decide)
    ⟨by decide, fun k d found => by rw [twoPreferences_find (by simp) k] at found; cases found⟩
    (by decide) (by decide)
    (fun k g found => by rw [twoPreferences_find (by simp) k] at found; cases found)
    (by decide) caughtUp_history caughtUp_lowest

end Kiagent.Sync
