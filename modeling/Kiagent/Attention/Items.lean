/-
# Attention.Items -- attention items and their revision ledger

An item has a row with its payload, and a ledger row that keeps its last revision
and state.  Closed rows are pruned after seven days, ledger rows never: the ledger
is what a later publish of the same item is measured against.

`Change` says everything that can happen to one item: it expires, its closed row
is pruned, it is resolved, it is published, or its stored payload becomes another
text.  `perform_changes` reduces every operation to such changes; the ledger's
monotonicity, the agreement of the two tables, and who may change whose item are
read off the five cases (`attention_revisions_obeyed`).
-/
import Kiagent.Attention.Validate
import Kiagent.Theory.Table
import Kiagent.Theory.Runs

namespace Kiagent.Attention

open Kiagent.Theory Relation

set_option autoImplicit false

/-! ## The two tables -/

def sevenDays : Int := 7 * 24 * 60 * 60 * 1000

/-- `payloadJson` is what the stored text parses to. -/
structure StoredRow where
  id : String
  producer : String
  payloadJson : Wire
  state : AttentionState
  revision : Int
  transitionAt : Int
  deriving DecidableEq

structure RevisionRow where
  id : String
  producer : String
  revision : Int
  state : AttentionState
  resolvedBy : Option AttentionResolvedBy
  transitionAt : Int
  deriving DecidableEq

structure Tables where
  attentionItems : Table StoredRow StoredRow.id
  attentionRevisions : Table RevisionRow RevisionRow.id

namespace Tables

def empty : Tables := ⟨Table.empty, Table.empty⟩

def getRow (t : Tables) (id : String) : Option StoredRow := t.attentionItems.find id

def getRevision (t : Tables) (id : String) : Option RevisionRow := t.attentionRevisions.find id

def openRows (t : Tables) : List StoredRow :=
  t.attentionItems.rows.filter fun row => row.state = .opened

/-- `UPDATE attention_items SET payload_json, state, transition_at WHERE id`. -/
def updateRow (t : Tables) (id : String) (payloadJson : Wire) (state : AttentionState)
    (transitionAt : Int) : Tables :=
  let update (row : StoredRow) : StoredRow := { row with payloadJson, state, transitionAt }
  { t with attentionItems := t.attentionItems.modify id update fun _ => rfl }

/-- `UPDATE attention_items SET state, transition_at WHERE id`. -/
def updateCorruptRow (t : Tables) (id : String) (state : AttentionState)
    (transitionAt : Int) : Tables :=
  let update (row : StoredRow) : StoredRow := { row with state, transitionAt }
  { t with attentionItems := t.attentionItems.modify id update fun _ => rfl }

def upsertItem (t : Tables) (row : StoredRow) : Tables :=
  { t with attentionItems := t.attentionItems.put row }

def upsertRevision (t : Tables) (row : RevisionRow) : Tables :=
  { t with attentionRevisions := t.attentionRevisions.put row }

def prunable (cutoff : Int) (row : StoredRow) : Bool :=
  (row.state = .resolved || row.state = .expired) && row.transitionAt ≤ cutoff

def pruneRows (t : Tables) (cutoff : Int) : Tables :=
  { t with attentionItems := t.attentionItems.eraseWhere (prunable cutoff) }

end Tables

/-! ## The transaction -/

structure AttentionRowFailure where
  id : String
  producer : String
  message : String
  deriving DecidableEq

/-- What a transaction has written, and what it will report. -/
structure Work where
  tables : Tables
  rowFailures : List AttentionRowFailure
  changed : Bool

/-- What an operation is called with besides its arguments. -/
structure Call where
  checks : Checks
  now : Int
  readOnly : Bool
  availableProducers : List String

def isPastExpiry (item : AttentionItemWire) (now : Int) : Bool :=
  item.expiresAt.any fun expiresAt => expiresAt < (now : Rat)

/-- The payload of a row, when it is valid now and is that row's. -/
def parseRow (c : Checks) (row : StoredRow) : Except String AttentionItemWire := do
  let item ← validateAttentionItem row.payloadJson c
  if item.id ≠ row.id || item.producer ≠ row.producer || item.revision ≠ row.revision ||
      item.state ≠ row.state then .error "attention row metadata mismatch"
  else .ok item

def Work.fail (w : Work) (row : StoredRow) (message : String) : Work :=
  { w with rowFailures := w.rowFailures ++ [⟨row.id, row.producer, message⟩] }

/-- The ledger row of an item as it is stored. -/
def ledgerRow (item : AttentionItemWire) (transitionAt : Int) : RevisionRow :=
  { id := item.id, producer := item.producer, revision := item.revision, state := item.state,
    resolvedBy := item.resolvedBy, transitionAt }

def expiredItem (item : AttentionItemWire) (now : Int) : AttentionItemWire :=
  { item with state := .expired, resolvedBy := none, updatedAt := now }

def resolvedItem (item : AttentionItemWire) (resolvedBy : AttentionResolvedBy) (now : Int) :
    AttentionItemWire :=
  { item with state := .resolved, resolvedBy := some resolvedBy, updatedAt := now }

/-- One turn of the loop of `expireAndPrune`. -/
def expireRow (call : Call) (w : Work) (row : StoredRow) : Work :=
  match parseRow call.checks row with
  | .error message => w.fail row message
  | .ok item =>
      if isPastExpiry item call.now then
        let expired := expiredItem item call.now
        let tables := (w.tables.updateRow row.id (.item expired) .expired call.now).upsertRevision
          (ledgerRow expired call.now)
        let changed := w.changed || call.availableProducers.contains row.producer
        { w with tables, changed }
      else w

def expireAndPrune (call : Call) (t : Tables) : Work :=
  if call.readOnly then ⟨t, [], false⟩
  else
    let w := t.openRows.foldl (expireRow call) ⟨t, [], false⟩
    { w with tables := w.tables.pruneRows (call.now - sevenDays) }

/-- `changed` is left as it is: the callers decide from the first component. -/
def resolveRow (call : Call) (resolvedBy : AttentionResolvedBy) (w : Work) (row : StoredRow) :
    Bool × Work :=
  if row.state ≠ .opened then (false, w)
  else
    match parseRow call.checks row with
    | .error message =>
        let w := w.fail row message
        match w.tables.getRevision row.id with
        | none => (false, w)
        | some ledger =>
            if ledger.producer ≠ row.producer || ledger.revision ≠ row.revision ||
                ledger.state ≠ .opened then (false, w)
            else
              let tables := (w.tables.updateCorruptRow row.id .resolved call.now).upsertRevision
                ⟨row.id, row.producer, row.revision, .resolved, some resolvedBy, call.now⟩
              (true, { w with tables })
    | .ok payload =>
        let resolved := resolvedItem payload resolvedBy call.now
        let tables := (w.tables.updateRow row.id (.item resolved) .resolved call.now).upsertRevision
          (ledgerRow resolved call.now)
        (true, { w with tables })

/-- The existing row of a published item: its payload, whether that is invalid, and
the failure that is reported. -/
def readStored (call : Call) (w : Work) (id : String) :
    Option StoredRow × Option AttentionItemWire × Bool × Work :=
  match w.tables.getRow id with
  | none => (none, none, false, w)
  | some existing =>
      match parseRow call.checks existing with
      | .error message => (some existing, none, true, w.fail existing message)
      | .ok stored => (some existing, some stored, false, w)

/-- The row's payload is unreadable, and the producer says the open item again. -/
def equalRevisionRepair (producer : String) (item : AttentionItemWire) (storedInvalid : Bool) :
    Option StoredRow → Option RevisionRow → Bool
  | some existing, some ledger =>
      storedInvalid && item.revision = ledger.revision && item.state = .opened &&
        existing.state = .opened && existing.producer = producer && ledger.state = .opened &&
        ledger.producer = producer
  | _, _ => false

def toStore (item : AttentionItemWire) (now : Int) : AttentionItemWire :=
  if item.state = .opened && isPastExpiry item now then expiredItem item now else item

/-- One turn of the loop of `publish`. -/
def publishItem (call : Call) (producer : String) (w : Work) (item : AttentionItemWire) : Work :=
  match readStored call w item.id with
  | (existing, stored, storedInvalid, w) =>
      let ledger := w.tables.getRevision item.id
      if (ledger.any fun ledger => item.revision ≤ ledger.revision) &&
          !equalRevisionRepair producer item storedInvalid existing ledger then w
      else
        let kept := toStore item call.now
        let transitionAt := if kept.state = .opened then 0 else call.now
        let tables := (w.tables.upsertItem
          ⟨item.id, producer, .item kept, kept.state, kept.revision, transitionAt⟩).upsertRevision
          (ledgerRow kept transitionAt)
        let available := call.availableProducers.contains producer
        let differs := existing.isNone || storedInvalid || stored ≠ some kept
        let closes := (existing.any fun row => row.state = .opened) && kept.state ≠ .opened
        let changed := w.changed || (available && kept.state = .opened && differs) ||
          (available && closes)
        { w with tables, changed }

/-- One turn of the loop over the producer's open rows that the batch leaves out. -/
def resolveUnlisted (call : Call) (producer : String) (present : List String) (w : Work)
    (row : StoredRow) : Work :=
  if present.contains row.id then w
  else
    match resolveRow call .producer w row with
    | (resolved, w) =>
        { w with changed := w.changed || (resolved && call.availableProducers.contains producer) }

def attentionBefore (a b : AttentionItemWire) : Bool :=
  if a.priority ≠ b.priority then a.priority < b.priority
  else
    match a.dueAt, b.dueAt with
    | none, some _ => false
    | some _, none => true
    | due, due' =>
        if due ≠ due' then due.getD 0 < due'.getD 0
        else if a.createdAt ≠ b.createdAt then a.createdAt < b.createdAt
        else a.id < b.id

inductive AttentionTxResult where
  | success (changed : Bool) (rowFailures : List AttentionRowFailure)
      (items : Option (List AttentionItemWire))
  | failure (message : String) (name : Option String) (rowFailures : List AttentionRowFailure)
  deriving DecidableEq

def readOnlyFailure : AttentionTxResult :=
  .failure "this device is a read-only copy: attention" (some "SyncReadOnly") []

namespace AttentionTx

def publish (call : Call) (producer : String) (items : List AttentionItemWire) (t : Tables) :
    Tables × AttentionTxResult :=
  if call.readOnly then (t, readOnlyFailure)
  else if items.any fun item =>
      item.producer ≠ producer || !startsWith item.id (producer ++ ":") then
    (t, .failure "attention item producer or id prefix mismatch" (some "Error") [])
  else
    let w := items.foldl (publishItem call producer) (expireAndPrune call t)
    let currentRows := w.tables.openRows.filter fun row => row.producer = producer
    let w := currentRows.foldl (resolveUnlisted call producer (items.map AttentionItemWire.id)) w
    (w.tables, .success w.changed w.rowFailures none)

/-- `resolve` and `dismiss`, once the row is found. -/
def resolveFound (call : Call) (resolvedBy : AttentionResolvedBy) (row : StoredRow) (t : Tables) :
    Tables × AttentionTxResult :=
  match resolveRow call resolvedBy ⟨t, [], false⟩ row with
  | (changed, w) =>
      (w.tables, .success (changed && call.availableProducers.contains row.producer)
        w.rowFailures none)

def resolve (call : Call) (producer id : String) (revision : Option Int) (t : Tables) :
    Tables × AttentionTxResult :=
  if call.readOnly then (t, readOnlyFailure)
  else
    match t.getRow id with
    | none => (t, .success false [] none)
    | some row =>
        if row.producer ≠ producer || (revision.any fun revision => revision ≠ row.revision) then
          (t, .success false [] none)
        else resolveFound call .producer row t

def dismiss (call : Call) (id : String) (t : Tables) : Tables × AttentionTxResult :=
  if call.readOnly then (t, readOnlyFailure)
  else
    match t.getRow id with
    | none => (t, .success false [] none)
    | some row => resolveFound call .user row t

def tick (call : Call) (t : Tables) : Tables × AttentionTxResult :=
  let w := expireAndPrune call t
  (w.tables, .success w.changed w.rowFailures none)

/-- One turn of the loop of `list`: the items so far and what is reported. -/
def listRow (call : Call) (kinds : Option (List AttentionKind))
    (found : List AttentionItemWire × Work) (row : StoredRow) : List AttentionItemWire × Work :=
  if !call.availableProducers.contains row.producer then found
  else
    match parseRow call.checks row with
    | .error message => (found.1, found.2.fail row message)
    | .ok item =>
        if kinds.all fun kinds => kinds.contains item.kind then (found.1 ++ [item], found.2)
        else found

def list (call : Call) (kinds : Option (List AttentionKind)) (t : Tables) :
    Tables × AttentionTxResult :=
  let w := expireAndPrune call t
  let found := w.tables.openRows.foldl (listRow call kinds) ([], w)
  let items := found.1.insertionSort fun a b => !attentionBefore b a
  (w.tables, .success w.changed found.2.rowFailures (some items))

end AttentionTx

/-! ## The operations -/

inductive Operation where
  | publish (producer : String) (rawItems : Option (List Wire))
  | resolve (producer id : String) (revision : Option Int)
  | dismiss (id : String)
  | tick
  | list (kinds : Option (List AttentionKind))

inductive Reply where
  | rejected (items : List Rejected)
  | result (result : AttentionTxResult)

def answered (result : Tables × AttentionTxResult) : Tables × Reply :=
  (result.1, .result result.2)

/-- The service's methods, each one transaction once its arguments are accepted. -/
def perform (call : Call) (t : Tables) : Operation → Tables × Reply
  | .publish producer rawItems =>
      let validation := validateBatch call.checks producer rawItems
      if validation.2 ≠ [] then (t, .rejected validation.2)
      else answered (AttentionTx.publish call producer validation.1 t)
  | .resolve producer id revision =>
      if !validProducer producer || !startsWith id (producer ++ ":") ||
          (revision.any fun revision => !isSafeInteger revision || revision ≤ 0) then
        (t, .rejected [⟨id, "invalid attention resolve"⟩])
      else answered (AttentionTx.resolve call producer id revision t)
  | .dismiss id => answered (AttentionTx.dismiss call id t)
  | .tick => answered (AttentionTx.tick call t)
  | .list kinds => answered (AttentionTx.list call kinds t)

/-- An operation, or a stored payload becoming another text. -/
inductive Action where
  | operate (call : Call) (operation : Operation)
  | corrupt (id : String) (payloadJson : Wire)

def corruptRow (t : Tables) (id : String) (payloadJson : Wire) : Tables :=
  let update (row : StoredRow) : StoredRow := { row with payloadJson }
  { t with attentionItems := t.attentionItems.modify id update fun _ => rfl }

def step (t : Tables) : Action → Option Tables
  | .operate call operation => some (perform call t operation).1
  | .corrupt id payloadJson => some (corruptRow t id payloadJson)

/-! ## What a write does to one item -/

/-- An item's row and its ledger row. -/
abbrev View : Type := Option StoredRow × Option RevisionRow

namespace Tables

def view (t : Tables) (id : String) : View := (t.getRow id, t.getRevision id)

theorem view_updateRow (t : Tables) (id : String) (payloadJson : Wire) (state : AttentionState)
    (transitionAt : Int) (ledger : RevisionRow) (same : ledger.id = id) (id' : String) :
    ((t.updateRow id payloadJson state transitionAt).upsertRevision ledger).view id' =
      if id' = id then
        ((t.getRow id).map fun row => { row with payloadJson, state, transitionAt }, some ledger)
      else t.view id' := by
  simp only [view, getRow, getRevision, updateRow, upsertRevision, Table.find_modify,
    Table.find_put, same]
  by_cases here : id' = id
  · subst here
    simp
  · simp [here, Ne.symm here]

theorem view_updateCorruptRow (t : Tables) (id : String) (state : AttentionState)
    (transitionAt : Int) (ledger : RevisionRow) (same : ledger.id = id) (id' : String) :
    ((t.updateCorruptRow id state transitionAt).upsertRevision ledger).view id' =
      if id' = id then ((t.getRow id).map fun row => { row with state, transitionAt }, some ledger)
      else t.view id' := by
  simp only [view, getRow, getRevision, updateCorruptRow, upsertRevision, Table.find_modify,
    Table.find_put, same]
  by_cases here : id' = id
  · subst here
    simp
  · simp [here, Ne.symm here]

theorem view_upsertItem (t : Tables) (row : StoredRow) (ledger : RevisionRow)
    (same : ledger.id = row.id) (id : String) :
    ((t.upsertItem row).upsertRevision ledger).view id =
      if id = row.id then (some row, some ledger) else t.view id := by
  simp only [view, getRow, getRevision, upsertItem, upsertRevision, Table.find_put, same]
  by_cases here : row.id = id
  · simp [here]
  · simp [here, Ne.symm here]

theorem view_pruneRows (t : Tables) (cutoff : Int) (id : String) :
    (t.pruneRows cutoff).view id =
      ((t.getRow id).filter fun row => !prunable cutoff row, t.getRevision id) := by
  simp only [view, getRow, getRevision, pruneRows, Table.find_eraseWhere]

theorem view_corruptRow (t : Tables) (id : String) (payloadJson : Wire) (id' : String) :
    (corruptRow t id payloadJson).view id' =
      if id' = id then ((t.getRow id).map fun row => { row with payloadJson }, t.getRevision id)
      else t.view id' := by
  simp only [view, getRow, getRevision, corruptRow, Table.find_modify]
  by_cases here : id' = id
  · subst here
    simp
  · simp [here]

theorem view_of_getRow {t : Tables} {id : String} {row : StoredRow}
    (found : t.getRow id = some row) : t.view id = (some row, t.getRevision id) := by
  rw [view, found]

end Tables

/-! ## What can happen to an item -/

/-- Whose rows an operation resolves. -/
def Operation.resolves (id : String) (row : StoredRow) : Operation → Prop
  | .publish producer _ => row.producer = producer
  | .resolve producer id' _ => id = id' ∧ row.producer = producer
  | .dismiss id' => id = id'
  | .tick | .list _ => False

/-- The ledger lets the item through: it is new, or later, or says again what an open
row of the same producer said. -/
def Admitted (producer : String) (item : AttentionItemWire) : Option RevisionRow → Prop
  | none => True
  | some ledger => ledger.revision < item.revision ∨
      (ledger.revision = item.revision ∧ ledger.state = .opened ∧ ledger.producer = producer)

/-- A change of the item `id` that `operation` may make. -/
inductive Change (call : Call) (operation : Operation) (id : String) : View → View → Prop where
  | expire {row : StoredRow} {item : AttentionItemWire} {ledger : Option RevisionRow}
      (state : row.state = .opened) (parsed : parseRow call.checks row = .ok item)
      (past : isPastExpiry item call.now = true) :
      Change call operation id (some row, ledger)
        (some { row with
          payloadJson := .item (expiredItem item call.now), state := .expired,
          transitionAt := call.now },
         some (ledgerRow (expiredItem item call.now) call.now))
  | prune {row : StoredRow} {ledger : Option RevisionRow}
      (old : Tables.prunable (call.now - sevenDays) row = true) :
      Change call operation id (some row, ledger) (none, ledger)
  | resolve {row : StoredRow} {ledger : Option RevisionRow} (payloadJson : Wire)
      (resolvedBy : AttentionResolvedBy) (state : row.state = .opened)
      (whose : operation.resolves id row) :
      Change call operation id (some row, ledger)
        (some { row with payloadJson, state := .resolved, transitionAt := call.now },
         some ⟨row.id, row.producer, row.revision, .resolved, some resolvedBy, call.now⟩)
  | publish {producer : String} {raws : List Wire} {existing : Option StoredRow}
      {ledger : Option RevisionRow} {item : AttentionItemWire} (transitionAt : Int)
      (published : operation = .publish producer (some raws)) (mem : Wire.item item ∈ raws)
      (own : item.producer = producer) (same : item.id = id) (valid : validFields item = true)
      (admitted : Admitted producer item ledger) :
      Change call operation id (existing, ledger)
        (some ⟨item.id, producer, .item (toStore item call.now), (toStore item call.now).state,
          (toStore item call.now).revision, transitionAt⟩,
         some (ledgerRow (toStore item call.now) transitionAt))

/-- Any number of changes. -/
abbrev Changes (call : Call) (operation : Operation) (id : String) : View → View → Prop :=
  ReflTransGen (Change call operation id)

theorem parseRow_eq {c : Checks} {row : StoredRow} {item : AttentionItemWire}
    (parsed : parseRow c row = .ok item) : item.id = row.id ∧ item.producer = row.producer ∧
      item.revision = row.revision ∧ item.state = row.state := by
  obtain ⟨found, _, parsed⟩ := bind_eq_ok.1 parsed
  split at parsed
  · cases parsed
  · rename_i same
    cases parsed
    simpa [and_assoc] using same

section Changes

variable {call : Call} {operation : Operation}

/-- A loop over rows that are current in the tables, each turn of which changes its
own row only. -/
theorem loop_changes {f : Work → StoredRow → Work} {p : StoredRow → Prop}
    (turn : ∀ w row, p row → w.tables.getRow row.id = some row → ∀ id,
      Changes call operation id (w.tables.view id) ((f w row).tables.view id) ∧
        (id ≠ row.id → (f w row).tables.view id = w.tables.view id)) :
    {rows : List StoredRow} → {w : Work} → (rows.map StoredRow.id).Nodup →
    (∀ row ∈ rows, p row ∧ w.tables.getRow row.id = some row) → ∀ id,
    Changes call operation id (w.tables.view id) ((rows.foldl f w).tables.view id)
  | [], _, _, _, _ => .refl
  | row :: rows, w, nodup, current, id => by
      rw [List.map_cons, List.nodup_cons] at nodup
      obtain ⟨held, found⟩ := current row (List.mem_cons_self ..)
      have here := turn w row held found
      refine (here id).1.trans (loop_changes turn nodup.2 ?_ id)
      intro later mem
      have other : later.id ≠ row.id := fun same => nodup.1 (same ▸ List.mem_map_of_mem mem)
      have kept : (f w row).tables.getRow later.id = w.tables.getRow later.id :=
        congrArg Prod.fst ((here later.id).2 other)
      rw [kept]
      exact current later (List.mem_cons_of_mem _ mem)

theorem getRow_of_openRows {t : Tables} {row : StoredRow} (mem : row ∈ t.openRows) :
    row.state = .opened ∧ t.getRow row.id = some row := by
  obtain ⟨mem, state⟩ := List.mem_filter.1 mem
  exact ⟨by simpa using state, Table.find_of_mem mem⟩

theorem openRows_nodup (t : Tables) : (t.openRows.map StoredRow.id).Nodup :=
  t.attentionItems.nodup.sublist (List.filter_sublist.map _)

theorem expireRow_changes (w : Work) (row : StoredRow) (state : row.state = .opened)
    (found : w.tables.getRow row.id = some row) (id : String) :
    Changes call operation id (w.tables.view id) ((expireRow call w row).tables.view id) ∧
      (id ≠ row.id → (expireRow call w row).tables.view id = w.tables.view id) := by
  unfold expireRow
  split
  · exact ⟨.refl, fun _ => rfl⟩
  · rename_i item parsed
    split
    · rename_i past
      have same : (ledgerRow (expiredItem item call.now) call.now).id = row.id :=
        (parseRow_eq parsed).1
      dsimp only
      rw [Tables.view_updateRow _ _ _ _ _ _ same]
      by_cases here : id = row.id
      · subst here
        rw [if_pos rfl, found, Tables.view_of_getRow found]
        exact ⟨.single (.expire state parsed past), fun other => absurd rfl other⟩
      · rw [if_neg here]
        exact ⟨.refl, fun _ => rfl⟩
    · exact ⟨.refl, fun _ => rfl⟩

theorem resolveRow_changes (resolvedBy : AttentionResolvedBy) (w : Work) (row : StoredRow)
    (whose : operation.resolves row.id row) (found : w.tables.getRow row.id = some row)
    (id : String) :
    Changes call operation id (w.tables.view id)
        ((resolveRow call resolvedBy w row).2.tables.view id) ∧
      (id ≠ row.id → (resolveRow call resolvedBy w row).2.tables.view id = w.tables.view id) := by
  unfold resolveRow
  split
  · exact ⟨.refl, fun _ => rfl⟩
  · rename_i state
    rw [not_not] at state
    split
    · -- an unreadable payload stays, and the row's own columns go to the ledger
      dsimp only
      split
      · exact ⟨.refl, fun _ => rfl⟩
      · split
        · exact ⟨.refl, fun _ => rfl⟩
        · dsimp only [Work.fail]
          rw [Tables.view_updateCorruptRow _ row.id _ _ _ rfl]
          by_cases here : id = row.id
          · subst here
            rw [if_pos rfl, found, Tables.view_of_getRow found]
            exact ⟨.single (.resolve row.payloadJson resolvedBy state whose),
              fun other => absurd rfl other⟩
          · rw [if_neg here]
            exact ⟨.refl, fun _ => rfl⟩
    · rename_i payload parsed
      obtain ⟨sameId, sameProducer, sameRevision, _⟩ := parseRow_eq parsed
      have same : ledgerRow (resolvedItem payload resolvedBy call.now) call.now =
          ⟨row.id, row.producer, row.revision, .resolved, some resolvedBy, call.now⟩ := by
        simp only [ledgerRow, resolvedItem, sameId, sameProducer, sameRevision]
      dsimp only
      rw [same, Tables.view_updateRow _ row.id _ _ _ _ rfl]
      by_cases here : id = row.id
      · subst here
        rw [if_pos rfl, found, Tables.view_of_getRow found]
        exact ⟨.single (.resolve _ resolvedBy state whose), fun other => absurd rfl other⟩
      · rw [if_neg here]
        exact ⟨.refl, fun _ => rfl⟩

theorem readStored_tables (w : Work) (id : String) :
    (readStored call w id).2.2.2.tables = w.tables := by
  unfold readStored
  split
  · rfl
  · split <;> rfl

/-- A repair needs a ledger row that agrees and is open. -/
theorem admitted_of_passed {producer : String} {item : AttentionItemWire} {storedInvalid : Bool}
    {existing : Option StoredRow} {ledger : Option RevisionRow}
    (passed : ¬((ledger.any fun ledger => item.revision ≤ ledger.revision) &&
      !equalRevisionRepair producer item storedInvalid existing ledger) = true) :
    Admitted producer item ledger := by
  cases ledger with
  | none => trivial
  | some ledger =>
      rcases Int.lt_or_le ledger.revision item.revision with later | notLater
      · exact Or.inl later
      · simp only [Option.any_some, decide_eq_true notLater, Bool.true_and,
          Bool.not_eq_true', Bool.not_eq_false] at passed
        cases existing with
        | none => cases passed
        | some existing =>
            simp only [equalRevisionRepair, Bool.and_eq_true, decide_eq_true_eq] at passed
            exact Or.inr ⟨passed.1.1.1.1.1.2.symm, passed.1.2, passed.2⟩

theorem toStore_eq (item : AttentionItemWire) (now : Int) : (toStore item now).id = item.id ∧
    (toStore item now).producer = item.producer ∧
    (toStore item now).revision = item.revision ∧
    ((toStore item now).state = .opened → item.state = .opened) := by
  unfold toStore
  split
  · exact ⟨rfl, rfl, rfl, fun opened => by cases opened⟩
  · exact ⟨rfl, rfl, rfl, id⟩

theorem publishItem_changes {producer : String} {raws : List Wire} {item : AttentionItemWire}
    (published : operation = .publish producer (some raws)) (mem : Wire.item item ∈ raws)
    (own : item.producer = producer) (valid : validFields item = true) (w : Work) (id : String) :
    Changes call operation id (w.tables.view id)
      ((publishItem call producer w item).tables.view id) := by
  unfold publishItem
  have kept : (readStored call w item.id).2.2.2.tables = w.tables := readStored_tables w item.id
  revert kept
  generalize readStored call w item.id = read
  obtain ⟨existing, stored, storedInvalid, w'⟩ := read
  intro kept
  dsimp only at kept ⊢
  split
  · rw [kept]
  · rename_i passed
    have same := (toStore_eq item call.now).1
    dsimp only
    rw [Tables.view_upsertItem _ _ _ same, kept]
    by_cases here : id = item.id
    · subst here
      rw [if_pos rfl]
      rw [kept] at passed
      exact .single (.publish _ published mem own rfl valid (admitted_of_passed passed))
    · rw [if_neg here]

theorem expireAndPrune_changes (t : Tables) (id : String) :
    Changes call operation id (t.view id) ((expireAndPrune call t).tables.view id) := by
  unfold expireAndPrune
  split
  · exact .refl
  · dsimp only
    have looped : Changes call operation id (t.view id)
        ((t.openRows.foldl (expireRow call) ⟨t, [], false⟩).tables.view id) :=
      loop_changes (w := ⟨t, [], false⟩) expireRow_changes (openRows_nodup t)
        (fun row mem => getRow_of_openRows mem) id
    refine looped.trans ?_
    rw [Tables.view_pruneRows]
    cases found : Tables.getRow (List.foldl (expireRow call) ⟨t, [], false⟩ t.openRows).tables id with
    | none =>
        rw [Tables.view, found]
        exact .refl
    | some row =>
        rw [Tables.view, found]
        by_cases old : Tables.prunable (call.now - sevenDays) row = true
        · rw [Option.filter_some, old]
          exact .single (.prune old)
        · rw [Bool.not_eq_true] at old
          rw [Option.filter_some, old]
          exact .refl

theorem publishItems_changes {producer : String} {raws : List Wire}
    (published : operation = .publish producer (some raws)) : {items : List AttentionItemWire} →
    (∀ item ∈ items, Wire.item item ∈ raws ∧ item.producer = producer ∧
      validFields item = true) → ∀ (w : Work) (id : String),
    Changes call operation id (w.tables.view id)
      ((items.foldl (publishItem call producer) w).tables.view id)
  | [], _, _, _ => .refl
  | item :: items, valid, w, id => by
      obtain ⟨mem, own, fields⟩ := valid item (List.mem_cons_self ..)
      refine (publishItem_changes published mem own fields w id).trans ?_
      exact publishItems_changes published
        (fun later mem => valid later (List.mem_cons_of_mem _ mem)) _ id

theorem resolveUnlisted_changes {producer : String} {rawItems : Option (List Wire)}
    (published : operation = .publish producer rawItems) (present : List String) (w : Work)
    (row : StoredRow) (own : row.producer = producer)
    (found : w.tables.getRow row.id = some row) (id : String) :
    Changes call operation id (w.tables.view id)
        ((resolveUnlisted call producer present w row).tables.view id) ∧
      (id ≠ row.id →
        (resolveUnlisted call producer present w row).tables.view id = w.tables.view id) := by
  unfold resolveUnlisted
  split
  · exact ⟨.refl, fun _ => rfl⟩
  · have whose : operation.resolves row.id row := by
      rw [published]
      exact own
    exact resolveRow_changes .producer w row whose found id

theorem publish_changes {producer : String} {raws : List Wire}
    (published : operation = .publish producer (some raws)) {items : List AttentionItemWire}
    (valid : ∀ item ∈ items, Wire.item item ∈ raws ∧ item.producer = producer ∧
      validFields item = true) (t : Tables) (id : String) :
    Changes call operation id (t.view id)
      ((AttentionTx.publish call producer items t).1.view id) := by
  unfold AttentionTx.publish
  split
  · exact .refl
  · split
    · exact .refl
    · dsimp only
      refine (expireAndPrune_changes t id).trans ?_
      refine (publishItems_changes published valid (expireAndPrune call t) id).trans ?_
      refine loop_changes (resolveUnlisted_changes published _) ?_ ?_ id
      · exact (openRows_nodup _).sublist (List.filter_sublist.map _)
      · intro row mem
        obtain ⟨mem, own⟩ := List.mem_filter.1 mem
        exact ⟨by simpa using own, (getRow_of_openRows mem).2⟩

theorem resolveFound_changes (resolvedBy : AttentionResolvedBy) {t : Tables} {id' : String}
    {row : StoredRow} (found : t.getRow id' = some row) (whose : operation.resolves id' row)
    (id : String) :
    Changes call operation id (t.view id)
      ((AttentionTx.resolveFound call resolvedBy row t).1.view id) := by
  obtain rfl : row.id = id' := Table.find_key found
  exact (resolveRow_changes resolvedBy ⟨t, [], false⟩ row whose found id).1

/-- **Every operation is, for each item, a sequence of changes it may make.** -/
theorem perform_changes (call : Call) (t : Tables) (operation : Operation) (id : String) :
    Changes call operation id (t.view id) ((perform call t operation).1.view id) := by
  cases operation with
  | publish producer rawItems =>
      simp only [perform]
      split
      · exact .refl
      · rename_i accepted
        cases rawItems with
        | none => exact (accepted (by simp [validateBatch])).elim
        | some raws =>
            refine publish_changes rfl ?_ t id
            intro item mem
            obtain ⟨_, given, mem, own, valid⟩ := validateBatch_valid mem
            cases given
            exact ⟨mem, own, valid⟩
  | resolve producer id' revision =>
      simp only [perform]
      split
      · exact .refl
      · simp only [answered, AttentionTx.resolve]
        split
        · exact .refl
        · split
          · exact .refl
          · rename_i row found
            split
            · exact .refl
            · rename_i own
              simp only [Bool.or_eq_true, decide_eq_true_eq, not_or, not_not] at own
              have whose : (Operation.resolve producer id' revision).resolves id' row :=
                ⟨rfl, own.1⟩
              exact resolveFound_changes .producer found whose id
  | dismiss id' =>
      simp only [perform, answered, AttentionTx.dismiss]
      split
      · exact .refl
      · split
        · exact .refl
        · rename_i row found
          have whose : (Operation.dismiss id').resolves id' row := rfl
          exact resolveFound_changes .user found whose id
  | tick => exact expireAndPrune_changes t id
  | list kinds => exact expireAndPrune_changes t id

end Changes

/-! ## The invariant -/

/-- The columns the two tables share. -/
structure Agree (row : StoredRow) (ledger : RevisionRow) : Prop where
  producer : ledger.producer = row.producer
  revision : ledger.revision = row.revision
  state : ledger.state = row.state

structure Sound (id : String) (v : View) : Prop where
  agrees : ∀ row, v.1 = some row → ∃ ledger, v.2 = some ledger ∧ Agree row ledger
  producer : ∀ ledger, v.2 = some ledger → validProducer ledger.producer = true ∧
    startsWith id (ledger.producer ++ ":") = true

section Invariant

variable {call : Call} {operation : Operation} {id : String} {v v' : View}

theorem Change.sound (change : Change call operation id v v') (sound : Sound id v) :
    Sound id v' := by
  cases change with
  | expire state parsed past =>
      obtain ⟨ledger, found, agree⟩ := sound.agrees _ rfl
      obtain ⟨_, sameProducer, sameRevision, _⟩ := parseRow_eq parsed
      refine ⟨fun _ h => ⟨_, rfl, ?_⟩, fun _ h => ?_⟩
      · cases h
        exact ⟨sameProducer, sameRevision, rfl⟩
      · cases h
        have own := sound.producer _ found
        rw [agree.producer, ← sameProducer] at own
        exact own
  | prune old => exact ⟨fun _ h => (by cases h), sound.producer⟩
  | resolve payloadJson resolvedBy state whose =>
      obtain ⟨ledger, found, agree⟩ := sound.agrees _ rfl
      refine ⟨fun _ h => ⟨_, rfl, ?_⟩, fun _ h => ?_⟩
      · cases h
        exact ⟨rfl, rfl, rfl⟩
      · cases h
        have own := sound.producer _ found
        rw [agree.producer] at own
        exact own
  | publish transitionAt published mem own same valid admitted =>
      obtain ⟨_, keptProducer, _, _⟩ := toStore_eq ‹AttentionItemWire› call.now
      refine ⟨fun _ h => ⟨_, rfl, ?_⟩, fun _ h => ?_⟩
      · cases h
        exact ⟨keptProducer.trans own, rfl, rfl⟩
      · cases h
        have fields := validFields_producer valid
        rw [same] at fields
        rw [ledgerRow, keptProducer]
        exact fields

theorem Changes.sound (changes : Changes call operation id v v') (sound : Sound id v) :
    Sound id v' := by
  induction changes with
  | refl => exact sound
  | tail _ change ih => exact change.sound ih

/-- The operation publishes the item, open, at a revision greater than `revision`. -/
def PublishesAbove (id : String) (revision : Int) : Operation → Prop
  | .publish _ (some raws) => ∃ item, Wire.item item ∈ raws ∧ item.id = id ∧
      revision < item.revision ∧ item.state = .opened
  | _ => False

/-- The ledger is at `revision` or later, and where it is open `how` holds of its
revision. -/
def Past (revision : Int) (how : Int → Prop) (v : View) : Prop :=
  ∃ ledger, v.2 = some ledger ∧ revision ≤ ledger.revision ∧
    (ledger.state = .opened → how ledger.revision)

/-- `how` held, or the item was published past `revision`. -/
def OrPublished (revision : Int) (how : Int → Prop) (published : Prop) (reached : Int) : Prop :=
  how reached ∨ (revision < reached ∧ published)

theorem Past.imp {revision : Int} {how how' : Int → Prop} (implies : ∀ r, how r → how' r)
    (past : Past revision how v) : Past revision how' v := by
  obtain ⟨ledger, found, le, opened⟩ := past
  exact ⟨ledger, found, le, fun state => implies _ (opened state)⟩

theorem Change.past {revision : Int} {how : Int → Prop} (change : Change call operation id v v')
    (sound : Sound id v) (past : Past revision how v) :
    Past revision (OrPublished revision how (PublishesAbove id revision operation)) v' := by
  obtain ⟨ledger, found, le, opened⟩ := past
  cases change with
  | expire state parsed old =>
      obtain ⟨ledger', found', agree⟩ := sound.agrees _ rfl
      obtain rfl := Option.some.inj (found.symm.trans found')
      have same := (parseRow_eq parsed).2.2.1
      refine ⟨_, rfl, ?_, fun opened => by cases opened⟩
      rw [agree.revision, ← same] at le
      exact le
  | prune old => exact ⟨ledger, found, le, fun state => Or.inl (opened state)⟩
  | resolve payloadJson resolvedBy state whose =>
      obtain ⟨ledger', found', agree⟩ := sound.agrees _ rfl
      obtain rfl := Option.some.inj (found.symm.trans found')
      refine ⟨_, rfl, ?_, fun opened => by cases opened⟩
      rw [agree.revision] at le
      exact le
  | @publish producer raws existing ledger' item transitionAt published mem own same valid
      admitted =>
      obtain ⟨_, _, keptRevision, keptState⟩ := toStore_eq item call.now
      obtain rfl : ledger' = some ledger := found
      have kept : (ledgerRow (toStore item call.now) transitionAt).revision = item.revision :=
        keptRevision
      rcases admitted with later | ⟨equal, state, _⟩
      · refine ⟨_, rfl, by omega, fun opened => Or.inr ⟨by omega, ?_⟩⟩
        rw [published]
        exact ⟨item, mem, same, by omega, keptState opened⟩
      · -- a repair says again a revision that is open
        refine ⟨_, rfl, by omega, fun _ => Or.inl ?_⟩
        rw [kept, ← equal]
        exact opened state

theorem Changes.past {revision : Int} {how : Int → Prop}
    (changes : Changes call operation id v v') (sound : Sound id v) (past : Past revision how v) :
    Past revision (OrPublished revision how (PublishesAbove id revision operation)) v' := by
  induction changes with
  | refl => exact past.imp fun _ => Or.inl
  | tail before change ih =>
      refine (change.past (Changes.sound before sound) ih).imp ?_
      rintro r ((earlier | published) | published)
      · exact Or.inl earlier
      · exact Or.inr published
      · exact Or.inr published

/-- The producer an operation speaks for; the user and the clock speak for none. -/
def Operation.producer? : Operation → Option String
  | .publish producer _ => some producer
  | .resolve producer _ _ => some producer
  | .dismiss _ | .tick | .list _ => none

/-- An item is as it was, or it has expired, or its closed row was pruned. -/
inductive Aged (call : Call) : View → View → Prop where
  | same (v : View) : Aged call v v
  | expired {row : StoredRow} {item : AttentionItemWire} {ledger : Option RevisionRow}
      (state : row.state = .opened) (parsed : parseRow call.checks row = .ok item)
      (past : isPastExpiry item call.now = true) :
      Aged call (some row, ledger)
        (some { row with
          payloadJson := .item (expiredItem item call.now), state := .expired,
          transitionAt := call.now },
         some (ledgerRow (expiredItem item call.now) call.now))
  | pruned {row : StoredRow} {ledger : Option RevisionRow}
      (old : Tables.prunable (call.now - sevenDays) row = true) :
      Aged call (some row, ledger) (none, ledger)

/-- A producer's operation does to another producer's item what the clock does. -/
theorem Changes.aged {producer : String} {ledger : RevisionRow}
    (speaks : operation.producer? = some producer) (changes : Changes call operation id v v')
    (sound : Sound id v) (found : v.2 = some ledger) (other : ledger.producer ≠ producer) :
    Aged call v v' ∧ ∃ ledger', v'.2 = some ledger' ∧ ledger'.producer = ledger.producer := by
  induction changes with
  | refl => exact ⟨.same v, ledger, found, rfl⟩
  | tail before change ih =>
      obtain ⟨aged, ledger', found', sameProducer⟩ := ih
      have sound' := Changes.sound before sound
      cases change with
      | expire state parsed past =>
          obtain ⟨ledger'', found'', agree⟩ := sound'.agrees _ rfl
          obtain rfl := Option.some.inj (found'.symm.trans found'')
          have kept : (expiredItem _ call.now).producer = ledger.producer :=
            (parseRow_eq parsed).2.1.trans (agree.producer.symm.trans sameProducer)
          cases aged with
          | same => exact ⟨.expired state parsed past, _, rfl, kept⟩
          | expired => cases state
      | prune old =>
          cases aged with
          | same => exact ⟨.pruned old, ledger', found', sameProducer⟩
          | expired =>
              simp only [Tables.prunable, Bool.and_eq_true, decide_eq_true_eq] at old
              have := old.2
              simp only [sevenDays] at this
              omega
      | resolve payloadJson resolvedBy state whose =>
          obtain ⟨ledger'', found'', agree⟩ := sound'.agrees _ rfl
          obtain rfl := Option.some.inj (found'.symm.trans found'')
          refine absurd ?_ other
          rw [← sameProducer, agree.producer]
          cases operation with
          | publish => exact whose.trans (Option.some.inj speaks)
          | resolve => exact whose.2.trans (Option.some.inj speaks)
          | dismiss | tick | list => cases speaks
      | publish transitionAt published mem own same valid admitted =>
          obtain ⟨valid₁, starts₁⟩ := sound'.producer _ found'
          obtain ⟨valid₂, starts₂⟩ := validFields_producer valid
          rw [same] at starts₂
          rw [published] at speaks
          refine absurd ?_ other
          rw [← sameProducer, producer_unique valid₁ valid₂ starts₁ starts₂, own]
          exact Option.some.inj speaks

end Invariant

/-! ## Runs -/

def AllSound (t : Tables) : Prop := ∀ id, Sound id (t.view id)

/-- A changed payload leaves every column and the ledger. -/
theorem corruptRow_view (t : Tables) (id : String) (payloadJson : Wire) (id' : String) :
    (∀ row, (corruptRow t id payloadJson).getRow id' = some row →
      ∃ row', t.getRow id' = some row' ∧ row.producer = row'.producer ∧
        row.revision = row'.revision ∧ row.state = row'.state) ∧
    (corruptRow t id payloadJson).getRevision id' = t.getRevision id' := by
  refine ⟨fun row found => ?_, rfl⟩
  have view := congrArg Prod.fst (Tables.view_corruptRow t id payloadJson id')
  rw [Tables.view, found] at view
  by_cases here : id' = id
  · subst here
    rw [if_pos rfl] at view
    obtain ⟨row', found', rfl⟩ := Option.map_eq_some_iff.1 view.symm
    exact ⟨row', found', rfl, rfl, rfl⟩
  · rw [if_neg here] at view
    exact ⟨row, view.symm, rfl, rfl, rfl⟩

theorem step_sound {t t' : Tables} {action : Action} (sound : AllSound t)
    (took : step t action = some t') : AllSound t' := by
  intro id
  cases action with
  | operate call operation =>
      obtain rfl := Option.some.inj took
      exact (perform_changes call t operation id).sound (sound id)
  | corrupt id' payloadJson =>
      obtain rfl := Option.some.inj took
      obtain ⟨rows, ledger⟩ := corruptRow_view t id' payloadJson id
      refine ⟨fun row found => ?_, fun l found => (sound id).producer l (ledger.symm.trans found)⟩
      obtain ⟨row', found', producer, revision, state⟩ := rows row found
      obtain ⟨l, foundLedger, agree⟩ := (sound id).agrees row' found'
      refine ⟨l, ledger.trans foundLedger, ?_⟩
      exact ⟨agree.producer.trans producer.symm, agree.revision.trans revision.symm,
        agree.state.trans state.symm⟩

theorem allSound_empty : AllSound Tables.empty :=
  fun _ => ⟨fun _ h => (by cases h), fun _ h => (by cases h)⟩

/-- The publishes of a run. -/
def Action.PublishesAbove (id : String) (revision : Int) : Action → Prop
  | .operate _ operation => Attention.PublishesAbove id revision operation
  | .corrupt _ _ => False

theorem step_past {t t' : Tables} {action : Action} {id : String} {revision : Int}
    {how : Int → Prop} (sound : AllSound t) (took : step t action = some t')
    (past : Past revision how (t.view id)) :
    Past revision (OrPublished revision how (action.PublishesAbove id revision)) (t'.view id) := by
  cases action with
  | operate call operation =>
      obtain rfl := Option.some.inj took
      exact (perform_changes call t operation id).past (sound id) past
  | corrupt id' payloadJson =>
      obtain rfl := Option.some.inj took
      obtain ⟨ledger, found, le, opened⟩ := past
      refine ⟨ledger, ?_, le, fun state => Or.inl (opened state)⟩
      exact (corruptRow_view t id' payloadJson id).2.trans found

theorem run_past {id : String} {revision : Int} : {actions : List Action} →
    {how : Int → Prop} → {t t' : Tables} → AllSound t → runSteps step t actions = some t' →
    Past revision how (t.view id) →
    Past revision (OrPublished revision how
      (∃ action ∈ actions, action.PublishesAbove id revision)) (t'.view id)
  | [], _, _, _, _, ran, past => by
      obtain rfl := Option.some.inj ran
      exact past.imp fun _ => Or.inl
  | action :: actions, how, t, t', sound, ran, past => by
      obtain ⟨t₁, first, rest⟩ := runSteps_cons.1 ran
      refine (run_past (step_sound sound first) rest (step_past sound first past)).imp ?_
      rintro r ((earlier | ⟨lt, here⟩) | ⟨lt, later, mem, published⟩)
      · exact Or.inl earlier
      · exact Or.inr ⟨lt, action, List.mem_cons_self .., here⟩
      · exact Or.inr ⟨lt, later, List.mem_cons_of_mem _ mem, published⟩

/-- **Attention items obey their revisions.**  From any state a run reaches, along any
further run: no recorded revision decreases; an item that was closed at a revision is
open again only at a greater one that was published since, whether or not its row was
pruned; every row agrees with its ledger row; and the next operation of a producer does
to the items of the others nothing but let them age. -/
theorem attention_revisions_obeyed {before actions : List Action} {t t' : Tables}
    (reached : runSteps step Tables.empty before = some t)
    (ran : runSteps step t actions = some t') :
    (∀ id ledger, t.getRevision id = some ledger →
      ∃ ledger', t'.getRevision id = some ledger' ∧ ledger.revision ≤ ledger'.revision) ∧
    (∀ id ledger, t.getRevision id = some ledger → ledger.state ≠ .opened →
      ∀ row, t'.getRow id = some row → row.state = .opened →
        ledger.revision < row.revision ∧
          ∃ action ∈ actions, action.PublishesAbove id ledger.revision) ∧
    (∀ id row, t'.getRow id = some row →
      ∃ ledger, t'.getRevision id = some ledger ∧ Agree row ledger) ∧
    (∀ call operation producer, operation.producer? = some producer →
      ∀ id ledger, t'.getRevision id = some ledger → ledger.producer ≠ producer →
        Aged call (t'.view id) ((perform call t' operation).1.view id)) := by
  have sound : AllSound t :=
    run_invariant (fun _ _ _ => step_sound) allSound_empty reached
  have sound' : AllSound t' := run_invariant (fun _ _ _ => step_sound) sound ran
  refine ⟨?_, ?_, fun id => (sound' id).agrees, ?_⟩
  · intro id ledger found
    have past : Past ledger.revision (fun _ => True) (t.view id) :=
      ⟨ledger, found, le_refl _, fun _ => trivial⟩
    obtain ⟨ledger', found', le, _⟩ := run_past sound ran past
    exact ⟨ledger', found', le⟩
  · intro id ledger found closed row foundRow opened
    have past : Past ledger.revision (fun _ => False) (t.view id) :=
      ⟨ledger, found, le_refl _, fun state => absurd state closed⟩
    obtain ⟨ledger', found', _, later⟩ := run_past sound ran past
    obtain ⟨ledger'', found'', agree⟩ := (sound' id).agrees row foundRow
    obtain rfl := Option.some.inj (found'.symm.trans found'')
    rcases later (agree.state.trans opened) with impossible | ⟨lt, published⟩
    · exact impossible.elim
    · rw [agree.revision] at lt
      exact ⟨lt, published⟩
  · intro call operation producer speaks id ledger found other
    exact ((perform_changes call t' operation id).aged speaks (sound' id) found other).1

/-! ## A run -/

/-- An open item of `a.mail`. -/
def mailItem (revision : Int) : AttentionItemWire where
  id := "a.mail:1"
  producer := "a.mail"
  kind := .waiting
  title := "Reply"
  detail := none
  priority := 1
  dueAt := none
  expiresAt := none
  createdAt := 0
  updatedAt := 0
  revision := revision
  state := .opened
  resolvedBy := none
  actions := []
  people := none

def callAt (now : Int) : Call where
  checks := ⟨⟨[], []⟩, id⟩
  now := now
  readOnly := false
  availableProducers := ["a.mail"]

def publishMail (now revision : Int) : Action :=
  .operate (callAt now) (.publish "a.mail" (some [.item (mailItem revision)]))

/-- Published, its payload spoilt, repaired at the same revision, and dismissed. -/
def dismissedMail : List Action :=
  [publishMail 10 3, .corrupt "a.mail:1" (.other "" "Unexpected end of JSON input"),
    publishMail 20 3, .operate (callAt 30) (.dismiss "a.mail:1")]

/-- The row is pruned; the dismissed revision is refused, a later one is not. -/
def republishedMail : List Action :=
  [.operate (callAt (31 + sevenDays)) .tick, publishMail (32 + sevenDays) 3,
    publishMail (33 + sevenDays) 4]

/-- The dismissed item is open again, at the revision published last. -/
theorem attention_revisions_obeyed_mail :
    ∃ t t', runSteps step Tables.empty dismissedMail = some t ∧
      runSteps step t republishedMail = some t' ∧
      t.getRevision "a.mail:1" =
        some ⟨"a.mail:1", "a.mail", 3, .resolved, some .user, 30⟩ ∧
      (t'.getRow "a.mail:1").map StoredRow.state = some .opened ∧
      ∃ ledger', t'.getRevision "a.mail:1" = some ledger' ∧ 3 ≤ ledger'.revision := by
  refine ⟨_, _, rfl, rfl, ?_, ?_, ?_⟩
  · decide +kernel
  · decide +kernel
  · exact (@attention_revisions_obeyed dismissedMail republishedMail _ _ rfl rfl).1 "a.mail:1"
      ⟨"a.mail:1", "a.mail", 3, .resolved, some .user, 30⟩ (by decide +kernel)

end Kiagent.Attention
