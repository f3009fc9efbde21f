/-
# Theory.Table -- keyed tables as duplicate-free lists of rows

A table is the list of its rows in insertion order; `Table` carries the proof
that no two rows share a primary key, so a value with a duplicate key cannot be
built.  `Table.find` is the lookup by that key, and each write is described by
what it does to `find`:

* `find_put` -- the upsert of a whole row;
* `find_erase`, `find_eraseWhere` -- deletes;
* `find_modify` -- an update that leaves the key alone.

The same lemmas are needed for a secondary unique column set, so they are
stated first for `lookup`, the first row of a list with a given key.
-/
import Mathlib.Data.List.Basic
import Mathlib.Data.List.Nodup
import Mathlib.Data.List.Sort

namespace Kiagent.Theory

set_option autoImplicit false

universe u v

variable {ρ : Type u} {κ : Type v} [DecidableEq κ]

/-! ## Lookup in a list of rows -/

/-- The first row whose key is `k`. -/
def lookup (key : ρ → κ) (k : κ) (rows : List ρ) : Option ρ :=
  rows.find? fun r => key r = k

section Lookup

variable (key : ρ → κ)

@[simp] theorem lookup_nil (k : κ) : lookup key k [] = none := rfl

theorem lookup_cons (k : κ) (r : ρ) (rows : List ρ) :
    lookup key k (r :: rows) = if key r = k then some r else lookup key k rows := by
  by_cases h : key r = k <;> simp [lookup, h]

theorem lookup_append (k : κ) (rows more : List ρ) :
    lookup key k (rows ++ more) = (lookup key k rows).or (lookup key k more) :=
  List.find?_append

theorem lookup_key {key : ρ → κ} {k : κ} {r : ρ} {rows : List ρ}
    (found : lookup key k rows = some r) : key r = k := by
  simpa using List.find?_some found

theorem lookup_mem {key : ρ → κ} {k : κ} {r : ρ} {rows : List ρ}
    (found : lookup key k rows = some r) : r ∈ rows :=
  List.mem_of_find?_eq_some found

theorem lookup_eq_none_iff {key : ρ → κ} {k : κ} {rows : List ρ} :
    lookup key k rows = none ↔ ∀ r ∈ rows, key r ≠ k := by
  simp [lookup]

/-- Under unique keys, a row is what its own key finds. -/
theorem lookup_of_mem {key : ρ → κ} {r : ρ} {rows : List ρ}
    (nodup : (rows.map key).Nodup) (mem : r ∈ rows) : lookup key (key r) rows = some r := by
  induction rows with
  | nil => cases mem
  | cons x rows ih =>
      rw [List.map_cons, List.nodup_cons] at nodup
      rw [lookup_cons]
      rcases List.mem_cons.1 mem with rfl | tail
      · simp
      · have ne : key x ≠ key r := fun same =>
          nodup.1 (same ▸ List.mem_map_of_mem tail)
        rw [if_neg ne]
        exact ih nodup.2 tail

theorem lookup_eq_some_iff {key : ρ → κ} {k : κ} {r : ρ} {rows : List ρ}
    (nodup : (rows.map key).Nodup) :
    lookup key k rows = some r ↔ r ∈ rows ∧ key r = k := by
  constructor
  · intro found
    exact ⟨lookup_mem found, lookup_key found⟩
  · rintro ⟨mem, rfl⟩
    exact lookup_of_mem nodup mem

/-- A pass over every row that keeps keys acts on what a key finds. -/
theorem lookup_map {key : ρ → κ} (f : ρ → ρ) (same : ∀ r, key (f r) = key r) (k : κ)
    (rows : List ρ) : lookup key k (rows.map f) = (lookup key k rows).map f := by
  induction rows with
  | nil => rfl
  | cons x rows ih =>
      simp only [List.map_cons, lookup_cons, same, ih]
      split <;> rfl

/-- Under unique keys, a filter acts on what a key finds. -/
theorem lookup_filter {key : ρ → κ} (p : ρ → Bool) (k : κ) {rows : List ρ}
    (nodup : (rows.map key).Nodup) :
    lookup key k (rows.filter p) = (lookup key k rows).filter p := by
  induction rows with
  | nil => rfl
  | cons x rows ih =>
      rw [List.map_cons, List.nodup_cons] at nodup
      rw [lookup_cons, List.filter_cons]
      by_cases here : key x = k
      · have gone : lookup key k rows = none := by
          rw [lookup_eq_none_iff]
          intro r mem same
          exact nodup.1 (here ▸ same ▸ List.mem_map_of_mem mem)
        cases hp : p x <;> simp [here, hp, lookup_cons, ih nodup.2, gone, Option.filter]
      · cases hp : p x
        · simp [here, ih nodup.2]
        · simp [here, lookup_cons, ih nodup.2]

end Lookup

/-- `ORDER BY` a number orders by it. -/
theorem insertionSort_sorted (number : ρ → Nat) (rows : List ρ) :
    (rows.insertionSort fun a b => number a ≤ number b).Pairwise
      fun a b => number a ≤ number b := by
  have total : Std.Total fun a b : ρ => number a ≤ number b := ⟨fun _ _ => Nat.le_total _ _⟩
  have trans : IsTrans ρ fun a b => number a ≤ number b := ⟨fun _ _ _ => Nat.le_trans⟩
  exact List.pairwise_insertionSort _ rows

/-! ## Tables -/

/-- Rows in insertion order, no two with the same primary key. -/
structure Table (ρ : Type u) {κ : Type v} (key : ρ → κ) where
  rows : List ρ
  nodup : (rows.map key).Nodup

namespace Table

variable {key : ρ → κ}

def empty : Table ρ key := ⟨[], List.nodup_nil⟩

def find (t : Table ρ key) (k : κ) : Option ρ := lookup key k t.rows

/-- `INSERT .. ON CONFLICT DO UPDATE` of every column: the row with this key
becomes `r` in its place, or `r` is appended. -/
def put (t : Table ρ key) (r : ρ) : Table ρ key where
  rows :=
    match t.find (key r) with
    | some _ => t.rows.map fun x => if key x = key r then r else x
    | none => t.rows ++ [r]
  nodup := by
    cases found : t.find (key r) with
    | some x =>
        have same : ∀ y, key (if key y = key r then r else y) = key y := by
          intro y
          split
          · rename_i h; exact h.symm
          · rfl
        simpa [Function.comp_def, same] using t.nodup
    | none =>
        have fresh := lookup_eq_none_iff.1 found
        rw [List.map_append, List.nodup_append]
        refine ⟨t.nodup, by simp, ?_⟩
        intro a ha b hb
        obtain ⟨x, hx, rfl⟩ := List.mem_map.1 ha
        simp only [List.map_cons, List.map_nil, List.mem_singleton] at hb
        exact hb ▸ fresh x hx

/-- `DELETE .. WHERE p`. -/
def eraseWhere (t : Table ρ key) (p : ρ → Bool) : Table ρ key where
  rows := t.rows.filter fun r => !p r
  nodup := t.nodup.sublist ((List.filter_sublist).map key)

/-- `DELETE .. WHERE key = k`. -/
def erase (t : Table ρ key) (k : κ) : Table ρ key := t.eraseWhere fun r => key r = k

/-- `UPDATE .. WHERE key = k`, for an update that keeps the key. -/
def modify (t : Table ρ key) (k : κ) (f : ρ → ρ) (same : ∀ r, key (f r) = key r) :
    Table ρ key where
  rows := t.rows.map fun r => if key r = k then f r else r
  nodup := by
    have keeps : ∀ r, key (if key r = k then f r else r) = key r := by
      intro r
      split
      · exact same r
      · rfl
    simpa [Function.comp_def, keeps] using t.nodup

theorem find_key {t : Table ρ key} {k : κ} {r : ρ} (found : t.find k = some r) : key r = k :=
  lookup_key found

theorem find_mem {t : Table ρ key} {k : κ} {r : ρ} (found : t.find k = some r) : r ∈ t.rows :=
  lookup_mem found

theorem find_eq_some_iff {t : Table ρ key} {k : κ} {r : ρ} :
    t.find k = some r ↔ r ∈ t.rows ∧ key r = k :=
  lookup_eq_some_iff t.nodup

theorem find_of_mem {t : Table ρ key} {r : ρ} (mem : r ∈ t.rows) : t.find (key r) = some r :=
  lookup_of_mem t.nodup mem

theorem find_eq_none_iff {t : Table ρ key} {k : κ} :
    t.find k = none ↔ ∀ r ∈ t.rows, key r ≠ k :=
  lookup_eq_none_iff

theorem find_put (t : Table ρ key) (r : ρ) (k : κ) :
    (t.put r).find k = if key r = k then some r else t.find k := by
  simp only [put, find]
  cases found : lookup key (key r) t.rows with
  | some x =>
      have same : ∀ y, key (if key y = key r then r else y) = key y := by
        intro y
        split
        · rename_i h; exact h.symm
        · rfl
      rw [lookup_map _ same]
      by_cases here : key r = k
      · subst here
        simp [found, lookup_key found]
      · cases at_k : lookup key k t.rows with
        | none => simp [here]
        | some y => simp [here, lookup_key at_k, Ne.symm here]
  | none =>
      rw [lookup_append]
      by_cases here : key r = k
      · subst here; simp [found, lookup_cons]
      · simp [here, lookup_cons]

theorem find_put_self (t : Table ρ key) (r : ρ) : (t.put r).find (key r) = some r := by
  rw [find_put, if_pos rfl]

theorem find_eraseWhere (t : Table ρ key) (p : ρ → Bool) (k : κ) :
    (t.eraseWhere p).find k = (t.find k).filter fun r => !p r :=
  lookup_filter _ k t.nodup

theorem find_erase (t : Table ρ key) (k k' : κ) :
    (t.erase k).find k' = if k' = k then none else t.find k' := by
  rw [erase, find_eraseWhere]
  cases found : t.find k' with
  | none => simp
  | some r =>
      have here := find_key found
      by_cases same : k' = k <;> simp [Option.filter, here, same]

theorem find_modify (t : Table ρ key) (k : κ) (f : ρ → ρ) (same : ∀ r, key (f r) = key r)
    (k' : κ) : (t.modify k f same).find k' = if k' = k then (t.find k').map f else t.find k' := by
  have keeps : ∀ r, key (if key r = k then f r else r) = key r := by
    intro r
    split
    · exact same r
    · rfl
  simp only [modify, find]
  rw [lookup_map _ keeps]
  cases found : lookup key k' t.rows with
  | none => simp
  | some r =>
      have here := lookup_key found
      by_cases same : k' = k <;> simp [here, same]

theorem mem_put {t : Table ρ key} {r x : ρ} (mem : x ∈ (t.put r).rows) : x = r ∨ x ∈ t.rows := by
  have found := find_of_mem mem
  rw [find_put] at found
  split at found
  · exact Or.inl (Option.some.inj found).symm
  · exact Or.inr (find_mem found)

omit [DecidableEq κ] in
theorem mem_eraseWhere {t : Table ρ key} {p : ρ → Bool} {x : ρ} :
    x ∈ (t.eraseWhere p).rows ↔ x ∈ t.rows ∧ p x = false := by
  simp [eraseWhere, List.mem_filter]

end Table

end Kiagent.Theory
