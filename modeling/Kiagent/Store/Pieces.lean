/-
# Store.Pieces -- a batch in pieces, one reference at a time

A commit of a piece of a batch upserts the piece's documents and resolves their
parents.  What it leaves under one reference depends only on

* the row that was there and the piece's documents of this reference, which
  overwrite the row unless its hash is already theirs (`rowWrites`);
* the last parent link the piece has for the reference, resolved among the ids
  known once its documents are written.

`piece_row` says this; `piece_id` follows the ids.  A row with its parent left
out (`bare`) evolves by the overwrites alone.
-/
import Kiagent.Store.Corpus
import Kiagent.Theory.Replay

namespace Kiagent.Store

open Kiagent.Theory

set_option autoImplicit false

/-! ## Rows without their parent -/

/-- The row with this parent. -/
def linked (parentId : Option DocumentId) (x : Option DocView) : Option DocView :=
  x.map fun v => { v with parentId }

abbrev bare : Option DocView → Option DocView := linked none

@[simp] theorem linked_linked (p q : Option DocumentId) (x : Option DocView) :
    linked p (linked q x) = linked p x := by
  cases x <;> rfl

theorem linked_id (p : Option DocumentId) (x : Option DocView) :
    (linked p x).map DocView.id = x.map DocView.id := by
  cases x <;> rfl

/-- Rows that agree but for the parent agree once it is set. -/
theorem linked_of_bare {x y : Option DocView} (same : bare x = bare y) (p : Option DocumentId) :
    linked p x = linked p y := by
  rw [← linked_linked p none x, ← linked_linked p none y]
  exact congrArg (linked p) same

/-- A row is its parent and the rest. -/
theorem eq_of_bare {x y : Option DocView} (same : bare x = bare y)
    (parents : x.bind DocView.parentId = y.bind DocView.parentId) : x = y := by
  cases x with
  | none => cases y with
    | none => rfl
    | some w => exact nomatch same
  | some v => cases y with
    | none => exact nomatch same
    | some w =>
        cases v
        cases w
        simp_all [linked]

/-! ## The writes of one reference -/

/-- The documents of a reference, as overwrites of its row with no parent. -/
def rowWrites (deps : Deps) (account : AccountId) (r : ExternalRef) :
    Overwrite DocumentInput (Option DocView) String where
  tag := contentHash deps
  key x := x.bind fun v => if v.live then some v.content.contentHash else none
  write d x := some
    { id := (x.map DocView.id).getD (documentId deps account r)
      content := contentOf deps d, parentId := none, live := true }
  key_write _ _ := rfl
  write_write _ _ x := by cases x <;> rfl

/-- The documents of a list under one reference. -/
def docsAt (r : ExternalRef) (ds : List DocumentInput) : List DocumentInput :=
  ds.filter fun d => d.ref = r

theorem docsAt_append (r : ExternalRef) (ds es : List DocumentInput) :
    docsAt r (ds ++ es) = docsAt r ds ++ docsAt r es :=
  List.filter_append ..

/-- The parent of the last pair of a child. -/
def lastLink (r : ExternalRef) : List LinkPair → Option ExternalRef
  | [] => none
  | pair :: pairs => (lastLink r pairs).or (if pair.child = r then some pair.parent else none)

variable (deps : Deps) (account : AccountId)

theorem unchanged_iff (r : ExternalRef) (d : DocumentInput) (x : Option DocView) :
    Corpus.unchanged deps d x = true ↔
      (rowWrites deps account r).key x = some ((rowWrites deps account r).tag d) := by
  cases x with
  | none => simp [Corpus.unchanged, rowWrites]
  | some v => cases live : v.live <;> simp [Corpus.unchanged, rowWrites, live]

theorem step_linked (r : ExternalRef) (d : DocumentInput) (x : Option DocView)
    (p : Option DocumentId) :
    bare ((rowWrites deps account r).step (linked p x) d) =
      bare ((rowWrites deps account r).step x d) := by
  have key : (rowWrites deps account r).key (linked p x) = (rowWrites deps account r).key x := by
    cases x <;> rfl
  have write : (rowWrites deps account r).write d (linked p x) =
      (rowWrites deps account r).write d x := by
    cases x <;> rfl
  unfold Overwrite.step
  rw [key, write]
  split
  · exact linked_linked _ _ _
  · rfl

/-- A run does not read the parent. -/
theorem run_linked (r : ExternalRef) : (ds : List DocumentInput) → (x : Option DocView) →
    (p : Option DocumentId) →
    bare ((rowWrites deps account r).run ds (linked p x)) =
      bare ((rowWrites deps account r).run ds x)
  | [], x, p => linked_linked none p x
  | d :: ds, x, p => by
      have first := congrArg (fun y => bare ((rowWrites deps account r).run ds y))
        (step_linked deps account r d x p)
      rw [Overwrite.run_cons, Overwrite.run_cons]
      exact (run_linked r ds _ none).symm.trans (first.trans (run_linked r ds _ none))

theorem run_bare (r : ExternalRef) (ds : List DocumentInput) {x y : Option DocView}
    (same : bare x = bare y) :
    bare ((rowWrites deps account r).run ds x) = bare ((rowWrites deps account r).run ds y) := by
  rw [← run_linked deps account r ds x none, ← run_linked deps account r ds y none]
  exact congrArg (fun x => bare ((rowWrites deps account r).run ds x)) same

/-! ## Upserts -/

namespace Corpus

/-- What an upsert leaves under the input's own reference. -/
theorem upsert_self (V : Corpus) (d : DocumentInput) :
    V.upsert deps account d (account, d.ref) =
      if (rowWrites deps account d.ref).key (V (account, d.ref)) =
          some ((rowWrites deps account d.ref).tag d) then V (account, d.ref)
      else linked (V.parentId account d.parent)
        ((rowWrites deps account d.ref).write d (V (account, d.ref))) := by
  unfold upsert
  by_cases same : unchanged deps d (V (account, d.ref)) = true
  · rw [if_pos same, if_pos ((unchanged_iff deps account d.ref d _).1 same)]
  · rw [if_neg same, if_neg fun there => same ((unchanged_iff deps account d.ref d _).2 there),
      Function.update_self]
    rfl

theorem upsert_ne (V : Corpus) (d : DocumentInput) {k : NaturalKey} (ne : k ≠ (account, d.ref)) :
    V.upsert deps account d k = V k := by
  unfold upsert
  split
  · rfl
  · exact Function.update_of_ne ne _ _

theorem upsert_bare (V : Corpus) (d : DocumentInput) :
    bare (V.upsert deps account d (account, d.ref)) =
      bare ((rowWrites deps account d.ref).step (V (account, d.ref)) d) := by
  rw [upsert_self]
  unfold Overwrite.step
  split
  · rfl
  · exact linked_linked _ _ _

/-- A document without a parent is one overwrite. -/
theorem upsert_orphan (V : Corpus) {d : DocumentInput} (orphan : d.parent = none) :
    V.upsert deps account d (account, d.ref) =
      (rowWrites deps account d.ref).step (V (account, d.ref)) d := by
  rw [upsert_self, orphan]
  rfl

theorem upsert_id (V : Corpus) (d : DocumentInput) (r : ExternalRef) :
    (V.upsert deps account d).parentId account (some r) =
      (V.parentId account (some r)).or
        (if d.ref = r then some (documentId deps account r) else none) := by
  simp only [parentId, Option.bind_some]
  by_cases here : d.ref = r
  · subst here
    rw [upsert_self, if_pos rfl]
    split
    · rename_i there
      obtain ⟨v, found⟩ : ∃ v, V (account, d.ref) = some v := by
        cases found : V (account, d.ref) with
        | none => simp [rowWrites, found] at there
        | some v => exact ⟨v, rfl⟩
      simp [found]
    · cases V (account, d.ref) <;> rfl
  · rw [upsert_ne deps account V d fun same => here (Prod.mk.inj same).2.symm, if_neg here,
      Option.or_none]

variable {deps account} in
theorem upserts_ne {ds : List DocumentInput} {k : NaturalKey} (ne : k.1 ≠ account) :
    (V : Corpus) → ds.foldl (upsert deps account) V k = V k := by
  induction ds with
  | nil => exact fun V => rfl
  | cons d ds ih =>
      intro V
      rw [List.foldl_cons, ih, upsert_ne deps account V d fun same => ne (by rw [same])]

theorem upserts_bare (r : ExternalRef) : (ds : List DocumentInput) → (V : Corpus) →
    bare (ds.foldl (upsert deps account) V (account, r)) =
      bare ((rowWrites deps account r).run (docsAt r ds) (V (account, r)))
  | [], V => rfl
  | d :: ds, V => by
      rw [List.foldl_cons, upserts_bare r ds]
      by_cases here : d.ref = r
      · subst here
        rw [docsAt, docsAt, List.filter_cons_of_pos (by simp), Overwrite.run_cons,
          run_bare deps account d.ref _ (upsert_bare deps account V d)]
      · rw [docsAt, docsAt, List.filter_cons_of_neg (by simpa using here),
          upsert_ne deps account V d fun same => here (Prod.mk.inj same).2.symm]

theorem upserts_orphan (r : ExternalRef) : (ds : List DocumentInput) → (V : Corpus) →
    (∀ d ∈ docsAt r ds, d.parent = none) →
    ds.foldl (upsert deps account) V (account, r) =
      (rowWrites deps account r).run (docsAt r ds) (V (account, r))
  | [], V, _ => rfl
  | d :: ds, V, orphans => by
      rw [List.foldl_cons]
      by_cases here : d.ref = r
      · subst here
        rw [docsAt, List.filter_cons_of_pos (by simp)] at orphans ⊢
        rw [upserts_orphan d.ref ds _ fun e mem => orphans e (List.mem_cons_of_mem _ mem),
          upsert_orphan deps account V (orphans d List.mem_cons_self)]
        rfl
      · rw [docsAt, List.filter_cons_of_neg (by simpa using here)] at orphans ⊢
        rw [upserts_orphan r ds _ orphans,
          upsert_ne deps account V d fun same => here (Prod.mk.inj same).2.symm]
        rfl

theorem upserts_id (r : ExternalRef) : (ds : List DocumentInput) → (V : Corpus) →
    (ds.foldl (upsert deps account) V).parentId account (some r) =
      (V.parentId account (some r)).or
        (if docsAt r ds = [] then none else some (documentId deps account r))
  | [], V => by simp [docsAt]
  | d :: ds, V => by
      rw [List.foldl_cons, upserts_id r ds, upsert_id]
      by_cases here : d.ref = r <;> cases V.parentId account (some r) <;>
        simp [docsAt, here]

/-! ## Links -/

variable {deps} in
theorem relink_ne (V : Corpus) (pair : LinkPair) {k : NaturalKey}
    (ne : k ≠ (account, pair.child)) : V.relink account pair k = V k :=
  Function.update_of_ne ne _ _

theorem relink_self (V : Corpus) (pair : LinkPair) :
    V.relink account pair (account, pair.child) =
      linked (V.parentId account (some pair.parent)) (V (account, pair.child)) :=
  Function.update_self _ _ _

theorem relink_id (V : Corpus) (pair : LinkPair) (parent : Option ExternalRef) :
    (V.relink account pair).parentId account parent = V.parentId account parent := by
  cases parent with
  | none => rfl
  | some r =>
      simp only [parentId, Option.bind_some]
      by_cases here : r = pair.child
      · subst here
        rw [relink_self, linked_id]
      · rw [relink_ne account V pair fun same => here (Prod.mk.inj same).2]

theorem relinks_id (parent : Option ExternalRef) : (pairs : List LinkPair) → (V : Corpus) →
    (pairs.foldl (relink account) V).parentId account parent = V.parentId account parent
  | [], V => rfl
  | pair :: pairs, V => by rw [List.foldl_cons, relinks_id parent pairs, relink_id]

theorem relinks_ne {pairs : List LinkPair} {k : NaturalKey} (ne : k.1 ≠ account) :
    (V : Corpus) → pairs.foldl (relink account) V k = V k := by
  induction pairs with
  | nil => exact fun V => rfl
  | cons pair pairs ih =>
      intro V
      rw [List.foldl_cons, ih, relink_ne account V pair fun same => ne (by rw [same])]

/-- **A list of links leaves the last one of each child.** -/
theorem relinks_row (r : ExternalRef) : (pairs : List LinkPair) → (V : Corpus) →
    pairs.foldl (relink account) V (account, r) =
      match lastLink r pairs with
      | none => V (account, r)
      | some parent => linked (V.parentId account (some parent)) (V (account, r))
  | [], V => rfl
  | pair :: pairs, V => by
      rw [List.foldl_cons, relinks_row r pairs]
      by_cases here : pair.child = r
      · subst here
        cases last : lastLink pair.child pairs with
        | none => simp [lastLink, last, relink_self]
        | some parent => simp [lastLink, last, relink_self, relink_id]
      · rw [relink_ne account V pair fun same => here (Prod.mk.inj same).2.symm]
        cases last : lastLink r pairs <;> simp [lastLink, last, here, relink_id]

/-! ## One piece -/

/-- The upserts of a piece, and its own parents. -/
def piece (V : Corpus) (ds : List DocumentInput) : Corpus :=
  (parentPairs ds).foldl (relink account) (ds.foldl (upsert deps account) V)

theorem piece_ne (V : Corpus) (ds : List DocumentInput) {k : NaturalKey} (ne : k.1 ≠ account) :
    V.piece deps account ds k = V k := by
  rw [piece, relinks_ne account ne, upserts_ne ne]

/-- The ids a piece leaves: those that were there, and those of its documents. -/
theorem piece_id (V : Corpus) (ds : List DocumentInput) (r : ExternalRef) :
    (V.piece deps account ds).parentId account (some r) =
      (V.parentId account (some r)).or
        (if docsAt r ds = [] then none else some (documentId deps account r)) := by
  rw [piece, relinks_id, upserts_id]

theorem piece_bare (V : Corpus) (ds : List DocumentInput) (r : ExternalRef) :
    bare (V.piece deps account ds (account, r)) =
      bare ((rowWrites deps account r).run (docsAt r ds) (V (account, r))) := by
  rw [piece, relinks_row, ← upserts_bare deps account r ds V]
  split
  · rfl
  · exact linked_linked _ _ _

end Corpus

/-- No link for a reference: none of its documents has a parent. -/
theorem lastLink_eq_none {r : ExternalRef} {ds : List DocumentInput} :
    lastLink r (parentPairs ds) = none ↔ ∀ d ∈ docsAt r ds, d.parent = none := by
  induction ds with
  | nil => simp [parentPairs, lastLink, docsAt]
  | cons d ds ih =>
      cases own : d.parent with
      | none =>
          by_cases here : d.ref = r <;> simp_all [parentPairs, docsAt]
      | some parent =>
          by_cases here : d.ref = r <;> simp_all [parentPairs, lastLink, docsAt]

namespace Corpus

/-- **The row of a reference after a piece.** -/
theorem piece_row (V : Corpus) (ds : List DocumentInput) (r : ExternalRef) :
    V.piece deps account ds (account, r) =
      match lastLink r (parentPairs ds) with
      | none => (rowWrites deps account r).run (docsAt r ds) (V (account, r))
      | some parent => linked ((V.piece deps account ds).parentId account (some parent))
          ((rowWrites deps account r).run (docsAt r ds) (V (account, r))) := by
  have ids : ∀ parent, (V.piece deps account ds).parentId account (some parent) =
      (ds.foldl (upsert deps account) V).parentId account (some parent) := fun parent => by
    rw [piece, relinks_id]
  simp only [ids]
  rw [piece, relinks_row]
  cases last : lastLink r (parentPairs ds) with
  | none => exact upserts_orphan deps account r ds V (lastLink_eq_none.1 last)
  | some parent => exact linked_of_bare (upserts_bare deps account r ds V) _

/-! ## Several pieces -/

def pieces (V : Corpus) (slices : List (List DocumentInput)) : Corpus :=
  slices.foldl (piece deps account) V

theorem pieces_append (V : Corpus) (slices later : List (List DocumentInput)) :
    V.pieces deps account (slices ++ later) =
      (V.pieces deps account slices).pieces deps account later :=
  List.foldl_append

theorem pieces_ne {k : NaturalKey} (ne : k.1 ≠ account) : (slices : List (List DocumentInput)) →
    (V : Corpus) → V.pieces deps account slices k = V k
  | [], _ => rfl
  | ds :: slices, V =>
      (pieces_ne ne slices _).trans (piece_ne deps account V ds ne)

theorem pieces_id (r : ExternalRef) : (slices : List (List DocumentInput)) → (V : Corpus) →
    (V.pieces deps account slices).parentId account (some r) =
      (V.parentId account (some r)).or
        (if docsAt r slices.flatten = [] then none else some (documentId deps account r))
  | [], V => by simp [pieces, docsAt]
  | ds :: slices, V => by
      have later := pieces_id r slices (V.piece deps account ds)
      rw [pieces] at later
      rw [pieces, List.foldl_cons, later, piece_id]
      rw [List.flatten_cons, docsAt_append]
      cases V.parentId account (some r) <;> by_cases here : docsAt r ds = [] <;> simp [here]

/-- Apart from parents, pieces write what their documents write in one run. -/
theorem pieces_bare (r : ExternalRef) : (slices : List (List DocumentInput)) → (V : Corpus) →
    bare (V.pieces deps account slices (account, r)) =
      bare ((rowWrites deps account r).run (docsAt r slices.flatten) (V (account, r)))
  | [], _ => rfl
  | ds :: slices, V => by
      have later := pieces_bare r slices (V.piece deps account ds)
      rw [pieces] at later
      rw [pieces, List.foldl_cons, later, List.flatten_cons, docsAt_append, Overwrite.run_append]
      exact run_bare deps account r _ (piece_bare deps account V ds r)

/-- A reference none of whose documents has a parent is written exactly as in one run. -/
theorem pieces_orphan (r : ExternalRef) : (slices : List (List DocumentInput)) → (V : Corpus) →
    (∀ d ∈ docsAt r slices.flatten, d.parent = none) →
    V.pieces deps account slices (account, r) =
      (rowWrites deps account r).run (docsAt r slices.flatten) (V (account, r))
  | [], _, _ => rfl
  | ds :: slices, V, orphans => by
      rw [List.flatten_cons, docsAt_append] at orphans ⊢
      have later := pieces_orphan r slices (V.piece deps account ds)
        fun d mem => orphans d (List.mem_append_right _ mem)
      have first := lastLink_eq_none.2 fun d mem => orphans d (List.mem_append_left _ mem)
      rw [pieces] at later
      rw [pieces, List.foldl_cons, later, Overwrite.run_append, piece_row, first]

end Corpus

end Kiagent.Store
