/-
# Theory.Paging -- pages of an ordered list

A page is what `OFFSET` and `LIMIT` leave of an ordered list.  Pages of one size, one
after the other, are the list (`flatMap_page`).

An order by a key that no two rows share has one result (`sortBy_eq`), whichever way it is
reached: by filtering before or after, or by merging two halves.  Of two halves a page
only needs the first rows of each (`take_merge_take`).
-/
import Mathlib

namespace Kiagent.Theory

set_option autoImplicit false

universe u v

variable {α : Type u}

/-! ## Pages -/

def page (offset limit : Nat) (rows : List α) : List α := (rows.drop offset).take limit

/-- A page is read from the rows up to its end. -/
theorem page_congr {offset limit : Nat} {rows more : List α}
    (same : rows.take (offset + limit) = more.take (offset + limit)) :
    page offset limit rows = page offset limit more := by
  have cut : ∀ l : List α, page offset limit l = (l.take (offset + limit)).drop offset := by
    intro l
    rw [page, List.drop_take, Nat.add_sub_cancel_left]
  rw [cut, cut, same]

theorem flatMap_page (limit n : Nat) (rows : List α) :
    (List.range n).flatMap (fun k => page (k * limit) limit rows) = rows.take (n * limit) := by
  induction n with
  | zero => simp
  | succ n ih =>
      rw [List.range_succ, List.flatMap_append, ih, List.flatMap_singleton, Nat.succ_mul,
        List.take_add]
      rfl

/-- Enough pages reach the end. -/
theorem flatMap_page_all (limit : Nat) (rows : List α) :
    (List.range rows.length).flatMap (fun k => page (k * (limit + 1)) (limit + 1) rows) = rows := by
  rw [flatMap_page]
  exact List.take_of_length_le (Nat.le_mul_of_pos_right _ (Nat.succ_pos limit))

/-! ## Orders by a key -/

section SortBy

variable {κ : Type v} [LinearOrder κ] (key : α → κ)

def sortBy (rows : List α) : List α := rows.insertionSort fun a b => key a ≤ key b

theorem sortBy_perm (rows : List α) : (sortBy key rows).Perm rows := List.perm_insertionSort _ _

theorem sortBy_sorted (rows : List α) :
    (sortBy key rows).Pairwise fun a b => key a ≤ key b := by
  have total : Std.Total fun a b : α => key a ≤ key b := ⟨fun a b => le_total (key a) (key b)⟩
  have trans : IsTrans α fun a b => key a ≤ key b := ⟨fun _ _ _ => le_trans⟩
  exact List.pairwise_insertionSort _ rows

/-- Where no two rows share a key, there is one order. -/
theorem sortBy_eq {rows sorted : List α} (distinct : (rows.map key).Nodup)
    (perm : sorted.Perm rows) (ordered : sorted.Pairwise fun a b => key a ≤ key b) :
    sortBy key rows = sorted := by
  refine ((sortBy_perm key rows).trans perm.symm).eq_of_pairwise ?_ (sortBy_sorted key rows) ordered
  intro a b inA inB ab ba
  have memberA := (sortBy_perm key rows).mem_iff.mp inA
  have memberB := perm.mem_iff.mp inB
  exact List.inj_on_of_nodup_map distinct memberA memberB (le_antisymm ab ba)

end SortBy

/-! ## Halves -/

/-- The first rows of a merge are made of the first rows of the halves. -/
theorem take_merge_take (le : α → α → Bool) (n : Nat) :
    ∀ (past future : List α) (i j : Nat), n ≤ i → n ≤ j →
      (List.merge (past.take i) (future.take j) le).take n
        = (List.merge past future le).take n := by
  induction n with
  | zero => intro past future i j _ _; simp
  | succ n ih =>
      intro past future i j hi hj
      obtain ⟨i, rfl⟩ : ∃ i', i = i' + 1 := ⟨i - 1, by omega⟩
      obtain ⟨j, rfl⟩ : ∃ j', j = j' + 1 := ⟨j - 1, by omega⟩
      cases past with
      | nil => simp [List.take_take, Nat.min_eq_left hj]
      | cons p past =>
          cases future with
          | nil => simp [List.take_take, Nat.min_eq_left (Nat.le_of_succ_le_succ hi)]
          | cons f future =>
              rw [List.take_succ_cons, List.take_succ_cons, List.cons_merge_cons,
                List.cons_merge_cons]
              split
              · rw [List.take_succ_cons, List.take_succ_cons]
                have rest := ih past (f :: future) i (j + 1) (by omega) (by omega)
                rw [List.take_succ_cons] at rest
                rw [rest]
              · rw [List.take_succ_cons, List.take_succ_cons]
                have rest := ih (p :: past) future (i + 1) j (by omega) (by omega)
                rw [List.take_succ_cons] at rest
                rw [rest]

end Kiagent.Theory
