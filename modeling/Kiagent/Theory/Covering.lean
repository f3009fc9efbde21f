/-
# Theory.Covering -- the topmost elements of a list

In an order where `p ≤ r` says that `r` covers `p`, `tops` keeps the elements no other one
covers.  They cover what the list covers (`covered_tops`), and no two of them cover one
another except as equals (`tops_antichain`); they are pairwise apart exactly when every
repeated element is covered by another (`tops_apart_iff`).

In a forest, where the covers of one element are comparable, an antichain covers an
element once (`Forest.cover_unique`).
-/
import Mathlib

namespace Kiagent.Theory.Covering

set_option autoImplicit false

universe u

variable {α : Type u} [PartialOrder α]

def Covered (l : List α) (p : α) : Prop := ∃ r ∈ l, p ≤ r

/-- No element covers another. -/
def Antichain (l : List α) : Prop := ∀ a ∈ l, ∀ b ∈ l, a ≤ b → a = b

/-- The elements at different places are different, and none covers another. -/
def Apart (l : List α) : Prop := l.Pairwise fun a b => ¬ a ≤ b ∧ ¬ b ≤ a

theorem apart_iff {l : List α} : Apart l ↔ l.Nodup ∧ Antichain l := by
  constructor
  · intro apart
    have : Std.Symm fun a b : α => ¬ a ≤ b ∧ ¬ b ≤ a := ⟨fun _ _ pair => pair.symm⟩
    refine ⟨apart.imp fun pair same => pair.1 (le_of_eq same), fun a a_mem b b_mem le => ?_⟩
    by_contra ne
    exact (List.Pairwise.forall apart a_mem b_mem ne).1 le
  · rintro ⟨distinct, antichain⟩
    refine distinct.imp_of_mem fun a_mem b_mem ne => ⟨fun le => ?_, fun le => ?_⟩
    · exact ne (antichain _ a_mem _ b_mem le)
    · exact ne (antichain _ b_mem _ a_mem le).symm

/-! ## The topmost elements -/

section Tops

variable [DecidableEq α] [DecidableLE α]

def tops (l : List α) : List α := l.filter fun p => !l.any fun r => decide (r ≠ p) && decide (p ≤ r)

theorem mem_tops {l : List α} {p : α} : p ∈ tops l ↔ p ∈ l ∧ ∀ r ∈ l, p ≤ r → r = p := by
  simp only [tops, List.mem_filter, Bool.not_eq_true', List.any_eq_false, Bool.and_eq_true,
    decide_eq_true_eq, ne_eq, not_and]
  exact and_congr_right fun _ => forall₂_congr fun _ _ => by tauto

theorem tops_antichain (l : List α) : Antichain (tops l) := fun _ a_mem b b_mem le =>
  ((mem_tops.1 a_mem).2 b (mem_tops.1 b_mem).1 le).symm

/-- Going up from an element ends at a topmost one. -/
theorem exists_top {l : List α} {p : α} (mem : p ∈ l) : ∃ r ∈ tops l, p ≤ r := by
  obtain ⟨r, le, maximal⟩ := l.toFinset.exists_le_maximal (List.mem_toFinset.2 mem)
  refine ⟨r, mem_tops.2 ⟨List.mem_toFinset.1 maximal.1, fun s s_mem above => ?_⟩, le⟩
  exact (maximal.eq_of_le (List.mem_toFinset.2 s_mem) above).symm

theorem covered_tops {l : List α} {p : α} : Covered (tops l) p ↔ Covered l p := by
  constructor
  · rintro ⟨r, top, le⟩
    exact ⟨r, (mem_tops.1 top).1, le⟩
  · rintro ⟨r, mem, le⟩
    obtain ⟨s, top, above⟩ := exists_top mem
    exact ⟨s, top, le_trans le above⟩

theorem count_tops {l : List α} {p : α} (top : p ∈ tops l) : (tops l).count p = l.count p :=
  List.count_filter (List.mem_filter.1 top).2

/-- **The topmost elements are apart** exactly when a repeated one is never topmost. -/
theorem tops_apart_iff {l : List α} :
    Apart (tops l) ↔ ∀ p, 2 ≤ l.count p → ∃ r ∈ l, r ≠ p ∧ p ≤ r := by
  rw [apart_iff, List.nodup_iff_count_le_one]
  constructor
  · rintro ⟨once, -⟩ p repeated
    by_contra uncovered
    have top : p ∈ tops l := by
      refine mem_tops.2 ⟨List.count_pos_iff.1 (by omega), fun r mem le => ?_⟩
      by_contra ne
      exact uncovered ⟨r, mem, ne, le⟩
    have := once p
    rw [count_tops top] at this
    omega
  · intro covered
    refine ⟨fun p => ?_, tops_antichain l⟩
    by_cases top : p ∈ tops l
    · rw [count_tops top]
      by_contra many
      obtain ⟨r, mem, ne, le⟩ := covered p (by omega)
      exact ne ((mem_tops.1 top).2 r mem le)
    · rw [List.count_eq_zero_of_not_mem top]
      omega

end Tops

/-! ## Forests -/

/-- The covers of one element are comparable. -/
class Forest (α : Type u) [PartialOrder α] : Prop where
  comparable : ∀ {p r s : α}, p ≤ r → p ≤ s → r ≤ s ∨ s ≤ r

/-- **An antichain covers an element once.** -/
theorem Forest.cover_unique [Forest α] {l : List α} (antichain : Antichain l) {p r s : α}
    (r_mem : r ∈ l) (s_mem : s ∈ l) (under_r : p ≤ r) (under_s : p ≤ s) : r = s := by
  rcases Forest.comparable under_r under_s with le | le
  · exact antichain r r_mem s s_mem le
  · exact (antichain s s_mem r r_mem le).symm

end Kiagent.Theory.Covering
