/-
# Attention.Hint -- the change hint of an attention operation

`list` expires what is past, and returns the open items of the available producers whose
stored payload reads.  `shows` is the item a row would be returned as at the clock of a
call, and `visible` the items of all rows; expiry leaves them as they are
(`visible_expireAndPrune`), as a row it closes was past already.

An operation that reports no change leaves every visible item where it was
(`perform_quiet`), so what `list` returns next is what it would have returned before.
-/
import Kiagent.Attention.Items

namespace Kiagent.Attention

open Kiagent.Theory

set_option autoImplicit false

/-! ## What is shown -/

/-- The item `list` returns for the row, of any kind. -/
def shows (call : Call) (row : StoredRow) : Option AttentionItemWire :=
  if row.state = .opened && call.availableProducers.contains row.producer then
    match parseRow call.checks row with
    | .error _ => none
    | .ok item => if isPastExpiry item call.now then none else some item
  else none

def visible (call : Call) (t : Tables) : List AttentionItemWire :=
  t.attentionItems.rows.filterMap (shows call)

/-- What `list` returns. -/
def listed (call : Call) (kinds : Option (List AttentionKind)) (t : Tables) :
    Option (List AttentionItemWire) :=
  match (AttentionTx.list call kinds t).2 with
  | .success _ _ items => items
  | .failure .. => none

section Hint

variable {call : Call}

theorem shows_closed {row : StoredRow} (closed : row.state ≠ .opened) : shows call row = none := by
  simp [shows, closed]

theorem shows_unavailable {row : StoredRow}
    (away : call.availableProducers.contains row.producer = false) : shows call row = none := by
  unfold shows
  rw [away, Bool.and_false, if_neg nofun]

theorem shows_unread {row : StoredRow} {message : String}
    (unread : parseRow call.checks row = .error message) : shows call row = none := by
  simp [shows, unread]

theorem shows_past {row : StoredRow} {item : AttentionItemWire}
    (parsed : parseRow call.checks row = .ok item) (past : isPastExpiry item call.now = true) :
    shows call row = none := by
  simp [shows, parsed, past]

/-! ## Writes that show nothing else -/

/-- An update of a row by another that shows the same. -/
theorem visible_modify {t : Tables} {id : String} {f : StoredRow → StoredRow}
    (keeps : ∀ row, (f row).id = row.id) {row : StoredRow} (found : t.getRow id = some row)
    (same : shows call (f row) = shows call row) :
    visible call { t with attentionItems := t.attentionItems.modify id f keeps } =
      visible call t := by
  simp only [visible, Table.modify, List.filterMap_map]
  refine List.filterMap_congr fun x mem => ?_
  simp only [Function.comp_apply]
  split
  · rename_i here
    have current : t.getRow x.id = some x := Table.find_of_mem mem
    rw [here, found] at current
    obtain rfl := Option.some.inj current
    exact same
  · rfl

theorem visible_updateRow {t : Tables} {id : String} {payloadJson : Wire} {state : AttentionState}
    {transitionAt : Int} {row : StoredRow} (found : t.getRow id = some row)
    (closes : state ≠ .opened) (hidden : shows call row = none) :
    visible call (t.updateRow id payloadJson state transitionAt) = visible call t :=
  @visible_modify call t id (fun row => { row with payloadJson, state, transitionAt })
    (fun _ => rfl) row found ((shows_closed closes).trans hidden.symm)

theorem visible_updateCorruptRow {t : Tables} {id : String} {state : AttentionState}
    {transitionAt : Int} {row : StoredRow} (found : t.getRow id = some row)
    (closes : state ≠ .opened) (hidden : shows call row = none) :
    visible call (t.updateCorruptRow id state transitionAt) = visible call t :=
  @visible_modify call t id (fun row => { row with state, transitionAt })
    (fun _ => rfl) row found ((shows_closed closes).trans hidden.symm)

@[simp] theorem visible_upsertRevision (t : Tables) (ledger : RevisionRow) :
    visible call (t.upsertRevision ledger) = visible call t := rfl

/-- A new row, or one in the place of another, that shows what was shown there. -/
theorem visible_upsertItem {t : Tables} {row : StoredRow}
    (same : shows call row = (t.getRow row.id).bind (shows call)) :
    visible call (t.upsertItem row) = visible call t := by
  unfold visible Tables.upsertItem Table.put
  dsimp only
  split
  · rename_i old found
    have shown : shows call row = shows call old := by rw [same, Tables.getRow, found]; rfl
    rw [List.filterMap_map]
    refine List.filterMap_congr fun x mem => ?_
    simp only [Function.comp_apply]
    split
    · rename_i here
      have current : t.attentionItems.find x.id = some x := Table.find_of_mem mem
      rw [here, found] at current
      obtain rfl := Option.some.inj current
      exact shown
    · rfl
  · rename_i found
    have hidden : shows call row = none := by rw [same, Tables.getRow, found]; rfl
    simp [hidden]

theorem visible_pruneRows (t : Tables) (cutoff : Int) :
    visible call (t.pruneRows cutoff) = visible call t := by
  unfold visible Tables.pruneRows Table.eraseWhere
  rw [List.filterMap_filter]
  refine List.filterMap_congr fun row _ => ?_
  split
  · rfl
  · rename_i old
    refine (shows_closed fun opened => old ?_).symm
    simp [Tables.prunable, opened]

/-! ## Loops over current rows -/

/-- A loop over rows that are current in the tables, each turn of which keeps to its own row. -/
theorem loop_current {R : Work → Work → Prop} (refl : ∀ w, R w w)
    (trans : ∀ {a b c}, R a b → R b c → R a c) {f : Work → StoredRow → Work}
    {p : StoredRow → Prop}
    (turn : ∀ w row, p row → w.tables.getRow row.id = some row → R w (f w row) ∧
      ∀ id, id ≠ row.id → (f w row).tables.view id = w.tables.view id) :
    {rows : List StoredRow} → {w : Work} → (rows.map StoredRow.id).Nodup →
    (∀ row ∈ rows, p row ∧ w.tables.getRow row.id = some row) → R w (rows.foldl f w)
  | [], w, _, _ => refl w
  | row :: rows, w, nodup, current => by
      rw [List.map_cons, List.nodup_cons] at nodup
      obtain ⟨held, found⟩ := current row (List.mem_cons_self ..)
      have here := turn w row held found
      refine trans here.1 (loop_current refl trans turn nodup.2 fun later mem => ?_)
      have other : later.id ≠ row.id := fun same => nodup.1 (same ▸ List.mem_map_of_mem mem)
      have kept : (f w row).tables.getRow later.id = w.tables.getRow later.id :=
        congrArg Prod.fst (here.2 later.id other)
      rw [kept]
      exact current later (List.mem_cons_of_mem _ mem)

theorem visible_expireRow (w : Work) (row : StoredRow)
    (found : w.tables.getRow row.id = some row) :
    visible call (expireRow call w row).tables = visible call w.tables := by
  unfold expireRow
  split
  · rfl
  · rename_i item parsed
    split
    · rename_i past
      exact visible_updateRow found nofun (shows_past parsed past)
    · rfl

/-- **Expiry and pruning show nothing else.** -/
theorem visible_expireAndPrune (t : Tables) :
    visible call (expireAndPrune call t).tables = visible call t := by
  unfold expireAndPrune
  split
  · rfl
  · dsimp only
    rw [visible_pruneRows]
    exact loop_current (R := fun a b => visible call b.tables = visible call a.tables)
      (fun _ => rfl) (fun ab bc => bc.trans ab)
      (fun w row state found => ⟨visible_expireRow w row found, fun id other =>
        (@expireRow_changes call .tick w row state found id).2 other⟩)
      (openRows_nodup t) fun row mem => getRow_of_openRows mem

/-- A row still open behind the expiry loop is as it was, and is not past if it was met. -/
theorem expireRows_left {id : String} {left : StoredRow} (opened : left.state = .opened) :
    (rows : List StoredRow) → {w : Work} → (rows.map StoredRow.id).Nodup →
    (∀ row ∈ rows, row.state = .opened ∧ w.tables.getRow row.id = some row) →
    (rows.foldl (expireRow call) w).tables.getRow id = some left →
      w.tables.getRow id = some left ∧
        (id ∈ rows.map StoredRow.id → ∀ item, parseRow call.checks left = .ok item →
          isPastExpiry item call.now = false)
  | [], w, _, _, found => ⟨found, fun mem => absurd mem List.not_mem_nil⟩
  | row :: rows, w, nodup, current, found => by
      rw [List.map_cons, List.nodup_cons] at nodup
      obtain ⟨state, here⟩ := current row (List.mem_cons_self ..)
      have others : ∀ id, id ≠ row.id →
          (expireRow call w row).tables.getRow id = w.tables.getRow id := fun id other =>
        congrArg Prod.fst ((@expireRow_changes call .tick w row state here id).2 other)
      obtain ⟨kept, later⟩ := expireRows_left opened rows nodup.2 (fun r mem => by
        rw [others r.id fun same => nodup.1 (same ▸ List.mem_map_of_mem mem)]
        exact current r (List.mem_cons_of_mem _ mem)) found
      by_cases own : id = row.id
      · subst own
        have unchanged : w.tables.getRow row.id = some left → left = row := fun still =>
          Option.some.inj (still.symm.trans here)
        unfold expireRow at kept
        split at kept
        · rename_i message unread
          obtain rfl := unchanged kept
          exact ⟨here, fun _ item parsed => absurd (unread.symm.trans parsed) nofun⟩
        · rename_i item parsed
          split at kept
          · -- an expired row is not open
            have view := congrArg Prod.fst (Tables.view_updateRow w.tables row.id
              (.item (expiredItem item call.now)) .expired call.now
              (ledgerRow (expiredItem item call.now) call.now) (parseRow_eq parsed).1 row.id)
            rw [if_pos rfl, here] at view
            obtain rfl := Option.some.inj (kept.symm.trans view)
            exact absurd opened nofun
          · rename_i current_
            obtain rfl := unchanged kept
            refine ⟨here, fun _ other parsed' => ?_⟩
            obtain rfl := Except.ok.inj (parsed.symm.trans parsed')
            simpa using current_
      · rw [others id own] at kept
        refine ⟨kept, fun mem => later ?_⟩
        rw [List.map_cons] at mem
        exact (List.mem_cons.1 mem).resolve_left own

/-- **After expiry** an open row whose payload reads is not past. -/
theorem expireAndPrune_left (writable : call.readOnly = false) {t : Tables} {row : StoredRow}
    (mem : row ∈ (expireAndPrune call t).tables.openRows) {item : AttentionItemWire}
    (parsed : parseRow call.checks row = .ok item) : isPastExpiry item call.now = false := by
  obtain ⟨opened, found⟩ := getRow_of_openRows mem
  unfold expireAndPrune at found
  rw [if_neg (by rw [writable]; exact nofun)] at found
  have view := congrArg Prod.fst (Tables.view_pruneRows
    (t.openRows.foldl (expireRow call) ⟨t, [], false⟩).tables (call.now - sevenDays) row.id)
  have kept := (view.symm.trans found : _ = some row)
  have before : (t.openRows.foldl (expireRow call) ⟨t, [], false⟩).tables.getRow row.id =
      some row := (Option.filter_eq_some_iff.1 kept).1
  obtain ⟨here, met⟩ := expireRows_left opened t.openRows (openRows_nodup t)
    (fun r mem => getRow_of_openRows mem) before
  refine met (List.mem_map_of_mem ?_) item parsed
  exact List.mem_filter.2 ⟨Table.find_mem here, by simpa using opened⟩

/-! ## The list -/

def ofKinds (kinds : Option (List AttentionKind)) (item : AttentionItemWire) : Bool :=
  kinds.all fun kinds => kinds.contains item.kind

theorem listRow_foldl (kinds : Option (List AttentionKind)) : (rows : List StoredRow) →
    (∀ row ∈ rows, row.state = .opened ∧ ∀ item, parseRow call.checks row = .ok item →
      isPastExpiry item call.now = false) → ∀ (found : List AttentionItemWire) (w : Work),
    (rows.foldl (AttentionTx.listRow call kinds) (found, w)).1 =
      found ++ (rows.filterMap (shows call)).filter (ofKinds kinds)
  | [], _, found, w => by simp
  | row :: rows, current, found, w => by
      obtain ⟨opened, left⟩ := current row (List.mem_cons_self ..)
      have rest := listRow_foldl kinds rows fun r mem => current r (List.mem_cons_of_mem _ mem)
      rw [List.foldl_cons, List.filterMap_cons]
      cases available : call.availableProducers.contains row.producer with
      | false =>
          rw [shows_unavailable available]
          have skipped : AttentionTx.listRow call kinds (found, w) row = (found, w) := by
            unfold AttentionTx.listRow
            rw [available]
            rfl
          rw [skipped]
          exact rest found w
      | true =>
          cases parsed : parseRow call.checks row with
          | error message =>
              rw [shows_unread parsed]
              have skipped : AttentionTx.listRow call kinds (found, w) row =
                  (found, w.fail row message) := by
                unfold AttentionTx.listRow
                rw [available, parsed]
                rfl
              rw [skipped]
              exact rest found _
          | ok item =>
              have shown : shows call row = some item := by
                unfold shows
                rw [available, parsed, decide_eq_true opened]
                simp [left item parsed]
              have taken : AttentionTx.listRow call kinds (found, w) row =
                  (if ofKinds kinds item then (found ++ [item], w) else (found, w)) := by
                unfold AttentionTx.listRow
                rw [available, parsed]
                rfl
              rw [shown, taken]
              dsimp only
              cases of_kind : ofKinds kinds item with
              | true =>
                  rw [if_pos rfl, rest, List.filter_cons_of_pos of_kind, List.append_assoc]
                  rfl
              | false =>
                  rw [if_neg nofun, rest, List.filter_cons_of_neg (by rw [of_kind]; exact nofun)]

/-- **The list** is of the visible items. -/
theorem listed_eq (writable : call.readOnly = false) (kinds : Option (List AttentionKind))
    (t : Tables) : listed call kinds t =
      some (((visible call t).filter (ofKinds kinds)).insertionSort
        fun a b => !attentionBefore b a) := by
  have opens : ∀ t : Tables, t.openRows.filterMap (shows call) = visible call t := by
    intro t
    unfold Tables.openRows visible
    rw [List.filterMap_filter]
    refine List.filterMap_congr fun row _ => ?_
    split
    · rfl
    · rename_i closed
      exact (shows_closed (by simpa using closed)).symm
  unfold listed AttentionTx.list
  dsimp only
  rw [listRow_foldl kinds _ (fun row mem => ⟨(getRow_of_openRows mem).1, fun item parsed =>
    expireAndPrune_left writable mem parsed⟩), List.nil_append, opens, visible_expireAndPrune]

/-! ## Operations that report no change -/

/-- The hint was not raised, and what is visible is as it was. -/
def Quiet (call : Call) (a b : Work) : Prop :=
  b.changed = false → a.changed = false ∧ visible call b.tables = visible call a.tables

theorem Quiet.refl (w : Work) : Quiet call w w := fun same => ⟨same, rfl⟩

theorem Quiet.trans {a b c : Work} (first : Quiet call a b) (second : Quiet call b c) :
    Quiet call a c := fun same =>
  ⟨(first (second same).1).1, (second same).2.trans (first (second same).1).2⟩

theorem parseRow_payload {c : Checks} {row : StoredRow} {item : AttentionItemWire}
    (parsed : parseRow c row = .ok item) :
    row.payloadJson = .item item ∧ validFields item = true := by
  obtain ⟨found, checked, kept⟩ := bind_eq_ok.1 parsed
  split at kept
  · exact absurd kept nofun
  · obtain rfl := Except.ok.inj kept
    exact validateAttentionItem_eq checked

/-- A readable row of another producer does not have an id of this one. -/
theorem shows_of_other {row : StoredRow} {producer : String}
    (valid : validProducer producer = true) (starts : startsWith row.id (producer ++ ":") = true)
    (away : call.availableProducers.contains producer = false) : shows call row = none := by
  cases parsed : parseRow call.checks row with
  | error message => exact shows_unread parsed
  | ok item =>
      obtain ⟨same, whose, _⟩ := parseRow_eq parsed
      obtain ⟨own, own_starts⟩ := validFields_producer (parseRow_payload parsed).2
      rw [same] at own_starts
      have : row.producer = producer := by
        rw [← whose]
        exact producer_unique own valid own_starts starts
      exact shows_unavailable (this ▸ away)

/-- A row written where the stored payload is the item already. -/
theorem shows_rewritten {existing : StoredRow} {kept : AttentionItemWire} {transitionAt : Int}
    (parsed : parseRow call.checks existing = .ok kept) :
    shows call ⟨kept.id, kept.producer, .item kept, kept.state, kept.revision, transitionAt⟩ =
      shows call existing := by
  obtain ⟨same, whose, revision, state⟩ := parseRow_eq parsed
  have payload := (parseRow_payload parsed).1
  cases existing
  simp only at same whose revision state payload
  subst same whose revision state payload
  rfl

/-- What is read of the row of a published item. -/
structure ReadAs (call : Call) (w : Work) (id : String) (existing : Option StoredRow)
    (stored : Option AttentionItemWire) (storedInvalid : Bool) (w' : Work) : Prop where
  row : existing = w.tables.getRow id
  tables : w'.tables = w.tables
  changed : w'.changed = w.changed
  payload : storedInvalid = false → ∀ row, existing = some row →
    ∃ item, parseRow call.checks row = .ok item ∧ stored = some item

theorem readStored_readAs (w : Work) (id : String) :
    ReadAs call w id (readStored call w id).1 (readStored call w id).2.1
      (readStored call w id).2.2.1 (readStored call w id).2.2.2 := by
  unfold readStored
  cases found : w.tables.getRow id with
  | none => exact ⟨found.symm, rfl, rfl, fun _ _ none_ => absurd none_ nofun⟩
  | some existing =>
      cases parsed : parseRow call.checks existing with
      | error message =>
          simp only [parsed]
          exact ⟨found.symm, rfl, rfl, fun invalid => absurd invalid nofun⟩
      | ok stored =>
          simp only [parsed]
          refine ⟨found.symm, rfl, rfl, fun _ row is => ⟨stored, ?_, rfl⟩⟩
          obtain rfl := Option.some.inj is
          exact parsed

section Publish

variable {producer : String} {item : AttentionItemWire}

/-- The row a published item is written to. -/
def writtenRow (call : Call) (producer : String) (item : AttentionItemWire)
    (transitionAt : Int) : StoredRow :=
  ⟨item.id, producer, .item (toStore item call.now), (toStore item call.now).state,
    (toStore item call.now).revision, transitionAt⟩

/-- Unless the hint is raised, the written row shows what the row before it showed. -/
theorem shows_written (producer_valid : validProducer producer = true)
    (own : item.producer = producer) (fields : validFields item = true) {w w' : Work}
    {existing : Option StoredRow} {stored : Option AttentionItemWire} {storedInvalid : Bool}
    (read : ReadAs call w item.id existing stored storedInvalid w') (transitionAt : Int)
    (opens : (call.availableProducers.contains producer &&
      decide ((toStore item call.now).state = .opened) &&
        (existing.isNone || storedInvalid || decide (stored ≠ some (toStore item call.now)))) =
          false)
    (closes : (call.availableProducers.contains producer &&
      ((existing.any fun row => row.state = .opened) &&
        decide ((toStore item call.now).state ≠ .opened))) = false) :
    shows call (writtenRow call producer item transitionAt) = existing.bind (shows call) := by
  have starts : startsWith item.id (producer ++ ":") = true := own ▸ (validFields_producer fields).2
  obtain ⟨same, whose, _, _⟩ := toStore_eq item call.now
  cases available : call.availableProducers.contains producer with
  | false =>
      rw [shows_unavailable (by exact available)]
      cases is : existing with
      | none => rfl
      | some row =>
          have id_same : row.id = item.id := Table.find_key (read.row.symm.trans is)
          exact (shows_of_other producer_valid (id_same ▸ starts) available).symm
  | true =>
      rw [available] at opens closes
      by_cases opened : (toStore item call.now).state = .opened
      · simp only [opened, decide_true, Bool.true_and, Bool.or_eq_false_iff,
          Option.isNone_eq_false_iff, decide_eq_false_iff_not, not_not] at opens
        obtain ⟨⟨some_, valid⟩, equal⟩ := opens
        obtain ⟨row, is⟩ := Option.isSome_iff_exists.1 some_
        obtain ⟨kept, parsed, stored_is⟩ := read.payload valid row is
        rw [stored_is] at equal
        obtain rfl := Option.some.inj equal
        have rewritten := @shows_rewritten call row _ transitionAt parsed
        rw [same, whose, own] at rewritten
        rw [is]
        exact rewritten
      · rw [shows_closed (by exact opened)]
        simp only [Bool.true_and, ne_eq, opened, not_false_eq_true, decide_true,
          Bool.and_true] at closes
        cases is : existing with
        | none => rfl
        | some row =>
            rw [is, Option.any_some, decide_eq_false_iff_not] at closes
            exact (shows_closed closes).symm

/-- **One published item** raises the hint unless its row shows what it showed. -/
theorem publishItem_quiet (producer_valid : validProducer producer = true)
    (own : item.producer = producer) (fields : validFields item = true) (w : Work) :
    Quiet call w (publishItem call producer w item) := by
  have read := @readStored_readAs call w item.id
  unfold publishItem
  revert read
  generalize readStored call w item.id = found
  obtain ⟨existing, stored, storedInvalid, w'⟩ := found
  intro read
  dsimp only at read ⊢
  split
  · exact fun same => ⟨read.changed ▸ same, by rw [read.tables]⟩
  · intro quiet
    simp only [Bool.or_eq_false_iff] at quiet
    refine ⟨read.changed ▸ quiet.1.1, ?_⟩
    have shown := shows_written producer_valid own fields read
      (if (toStore item call.now).state = .opened then 0 else call.now) quiet.1.2 quiet.2
    rw [read.row] at shown
    rw [visible_upsertRevision, read.tables]
    exact visible_upsertItem shown

end Publish

/-- A resolved row is shown no more, so the hint depends on its producer alone. -/
theorem resolveRow_quiet {w : Work} {row : StoredRow} (resolvedBy : AttentionResolvedBy)
    (found : w.tables.getRow row.id = some row) :
    (resolveRow call resolvedBy w row).2.changed = w.changed ∧
      (((resolveRow call resolvedBy w row).1 && call.availableProducers.contains row.producer) =
        false → visible call (resolveRow call resolvedBy w row).2.tables =
          visible call w.tables) := by
  unfold resolveRow
  split
  · exact ⟨rfl, fun _ => rfl⟩
  · split
    · rename_i message unread
      dsimp only
      split
      · exact ⟨rfl, fun _ => rfl⟩
      · split
        · exact ⟨rfl, fun _ => rfl⟩
        · exact ⟨rfl, fun _ => visible_updateCorruptRow found nofun (shows_unread unread)⟩
    · refine ⟨rfl, fun quiet => visible_updateRow found nofun (shows_unavailable ?_)⟩
      simpa using quiet

theorem resolveUnlisted_quiet {producer : String} (present : List String) {w : Work}
    {row : StoredRow} (own : row.producer = producer)
    (found : w.tables.getRow row.id = some row) :
    Quiet call w (resolveUnlisted call producer present w row) ∧
      ∀ id, id ≠ row.id →
        (resolveUnlisted call producer present w row).tables.view id = w.tables.view id := by
  refine ⟨?_, fun id => (@resolveUnlisted_changes call (.publish producer none) producer none rfl
    present w row own found id).2⟩
  unfold resolveUnlisted
  split
  · exact .refl w
  · intro quiet
    dsimp only at quiet ⊢
    rw [Bool.or_eq_false_iff] at quiet
    obtain ⟨changed, shown⟩ := @resolveRow_quiet call _ _ .producer found
    exact ⟨changed ▸ quiet.1, shown (own ▸ quiet.2)⟩

theorem publishItems_quiet {producer : String} (producer_valid : validProducer producer = true) :
    {items : List AttentionItemWire} →
    (∀ item ∈ items, item.producer = producer ∧ validFields item = true) → ∀ w : Work,
      Quiet call w (items.foldl (publishItem call producer) w)
  | [], _, w => .refl w
  | item :: _, valid, w => by
      obtain ⟨own, fields⟩ := valid item (List.mem_cons_self ..)
      exact (publishItem_quiet producer_valid own fields w).trans
        (publishItems_quiet producer_valid
          (fun later mem => valid later (List.mem_cons_of_mem _ mem)) _)

theorem resolveRest_quiet (producer : String) (present : List String) (w : Work) :
    Quiet call w ((w.tables.openRows.filter fun row => row.producer = producer).foldl
      (resolveUnlisted call producer present) w) := by
  refine loop_current (R := Quiet call) .refl .trans
    (fun w row own found => resolveUnlisted_quiet present own found)
    ((openRows_nodup _).sublist (List.filter_sublist.map _)) fun row mem => ?_
  obtain ⟨mem, own⟩ := List.mem_filter.1 mem
  exact ⟨by simpa using own, (getRow_of_openRows mem).2⟩

section Operations

variable {rowFailures : List AttentionRowFailure} {items : Option (List AttentionItemWire)}

theorem resolveFound_quiet {t : Tables} {id : String} {row : StoredRow}
    (resolvedBy : AttentionResolvedBy) (found : t.getRow id = some row)
    (reply : (AttentionTx.resolveFound call resolvedBy row t).2 =
      .success false rowFailures items) :
    visible call (AttentionTx.resolveFound call resolvedBy row t).1 = visible call t := by
  obtain rfl : row.id = id := Table.find_key found
  exact (resolveRow_quiet (w := ⟨t, [], false⟩) resolvedBy found).2
    (AttentionTxResult.success.inj reply).1

theorem resolve_quiet (t : Tables) (producer id : String) (revision : Option Int)
    (reply : (AttentionTx.resolve call producer id revision t).2 =
      .success false rowFailures items) :
    visible call (AttentionTx.resolve call producer id revision t).1 = visible call t := by
  unfold AttentionTx.resolve at reply ⊢
  split at reply
  · exact absurd reply nofun
  · rename_i writable
    rw [if_neg writable]
    cases found : t.getRow id with
    | none => rfl
    | some row =>
        rw [found] at reply
        dsimp only at reply ⊢
        split at reply
        · rename_i other
          rw [if_pos other]
        · rename_i own
          rw [if_neg own]
          exact resolveFound_quiet .producer found reply

theorem dismiss_quiet (t : Tables) (id : String)
    (reply : (AttentionTx.dismiss call id t).2 = .success false rowFailures items) :
    visible call (AttentionTx.dismiss call id t).1 = visible call t := by
  unfold AttentionTx.dismiss at reply ⊢
  split at reply
  · exact absurd reply nofun
  · rename_i writable
    rw [if_neg writable]
    cases found : t.getRow id with
    | none => rfl
    | some row =>
        rw [found] at reply
        exact resolveFound_quiet .user found reply

theorem publish_quiet {producer : String} (producer_valid : validProducer producer = true)
    {batch : List AttentionItemWire}
    (valid : ∀ item ∈ batch, item.producer = producer ∧ validFields item = true) (t : Tables)
    (reply : (AttentionTx.publish call producer batch t).2 = .success false rowFailures items) :
    visible call (AttentionTx.publish call producer batch t).1 = visible call t := by
  unfold AttentionTx.publish at reply ⊢
  split at reply
  · exact absurd reply nofun
  · rename_i writable
    rw [if_neg writable]
    split at reply
    · exact absurd reply nofun
    · rename_i own
      rw [if_neg own]
      dsimp only at reply ⊢
      have first : Quiet call _ _ := publishItems_quiet producer_valid valid (expireAndPrune call t)
      have second : Quiet call _ _ := resolveRest_quiet producer (batch.map AttentionItemWire.id)
        (batch.foldl (publishItem call producer) (expireAndPrune call t))
      rw [((first.trans second) (AttentionTxResult.success.inj reply).1).2]
      exact visible_expireAndPrune t

/-- **Every operation that reports no change** leaves the visible items as they are. -/
theorem perform_quiet (t : Tables) (operation : Operation)
    (reply : (perform call t operation).2 = .result (.success false rowFailures items)) :
    visible call (perform call t operation).1 = visible call t := by
  cases operation with
  | publish producer rawItems =>
      unfold perform at reply ⊢
      dsimp only at reply ⊢
      split at reply
      · exact absurd reply nofun
      · rename_i accepted
        rw [if_neg accepted]
        rw [not_not] at accepted
        exact publish_quiet (validateBatch_producer accepted)
          (fun item mem => by
            obtain ⟨_, _, _, valid⟩ := validateBatch_valid mem
            exact valid) t
          (Reply.result.inj reply)
  | resolve producer id revision =>
      unfold perform at reply ⊢
      dsimp only at reply ⊢
      split at reply
      · exact absurd reply nofun
      · rename_i accepted
        rw [if_neg accepted]
        exact resolve_quiet t producer id revision (Reply.result.inj reply)
  | dismiss id => exact dismiss_quiet t id (Reply.result.inj reply)
  | tick => exact visible_expireAndPrune t
  | list kinds => exact visible_expireAndPrune t

end Operations

/-- **The change hint is sound**: on a device that writes, an operation that succeeds and
reports no change leaves what `list` returns as it was. -/
theorem attention_hint_sound (writable : call.readOnly = false) (t : Tables)
    (operation : Operation) {rowFailures : List AttentionRowFailure}
    {items : Option (List AttentionItemWire)}
    (reply : (perform call t operation).2 = .result (.success false rowFailures items))
    (kinds : Option (List AttentionKind)) :
    listed call kinds (perform call t operation).1 = listed call kinds t := by
  rw [listed_eq writable, listed_eq writable, perform_quiet t operation reply]

end Hint

/-- The same item published again changes nothing. -/
theorem attention_hint_sound_again :
    listed (callAt 20) none (perform (callAt 20) (perform (callAt 10) Tables.empty
      (.publish "a.mail" (some [.item (mailItem 3)]))).1
        (.publish "a.mail" (some [.item (mailItem 3)]))).1 =
      listed (callAt 20) none (perform (callAt 10) Tables.empty
        (.publish "a.mail" (some [.item (mailItem 3)]))).1 :=
  @attention_hint_sound (callAt 20) rfl _ (.publish "a.mail" (some [.item (mailItem 3)])) []
    none rfl none

end Kiagent.Attention
