/-
# Theory.Digits -- numbers written with a fixed number of digits

Texts of one length are in the order of their letters as soon as the first letters differ, so
a text put together of fixed parts compares part by part (`append_lt_append`).  Numbers written
with as many digits as there is room for compare as numbers (`fixedDigits_lt`).
-/
import Mathlib

namespace Kiagent.Digits

set_option autoImplicit false

/-! ## Texts in parts -/

theorem append_lt_append {α : Type} [LT α] [Std.Irrefl (· < · : α → α → Prop)]
    {a b : List α} (same : a.length = b.length) (c d : List α) :
    a ++ c < b ++ d ↔ a < b ∨ a = b ∧ c < d := by
  induction a generalizing b with
  | nil =>
      obtain rfl := List.length_eq_zero_iff.mp same.symm
      simp
  | cons x a ih =>
      cases b with
      | nil => cases same
      | cons y b =>
          simp only [List.cons_append, List.cons_lt_cons_iff, List.cons.injEq,
            ih (Nat.succ.inj same)]
          tauto

/-! ## Digits -/

/-- The last digits of a number, the highest first. -/
def fixedDigits : Nat → Nat → List Char
  | 0, _ => []
  | width + 1, n => fixedDigits width (n / 10) ++ [Nat.digitChar (n % 10)]

@[simp] theorem length_fixedDigits (width n : Nat) : (fixedDigits width n).length = width := by
  induction width generalizing n with
  | zero => rfl
  | succ width ih => simp [fixedDigits, ih]

theorem digitChar_lt : ∀ a b : Fin 10, Nat.digitChar a < Nat.digitChar b ↔ a < b := by decide

theorem digitChar_eq : ∀ a b : Fin 10, Nat.digitChar a = Nat.digitChar b ↔ a = b := by decide

/-- **Digits are in the order of their numbers.** -/
theorem fixedDigits_compare (width n m : Nat) (first : n < 10 ^ width) (last : m < 10 ^ width) :
    (fixedDigits width n < fixedDigits width m ↔ n < m) ∧
      (fixedDigits width n = fixedDigits width m ↔ n = m) := by
  induction width generalizing n m with
  | zero =>
      have zero : n = 0 ∧ m = 0 := by simpa using And.intro first last
      obtain ⟨rfl, rfl⟩ := zero
      simp [fixedDigits]
  | succ width ih =>
      rw [Nat.pow_succ] at first last
      obtain ⟨less, same⟩ := ih (n / 10) (m / 10) (by omega) (by omega)
      have digit := digitChar_lt ⟨n % 10, by omega⟩ ⟨m % 10, by omega⟩
      have digit' := digitChar_eq ⟨n % 10, by omega⟩ ⟨m % 10, by omega⟩
      simp only [Fin.mk_lt_mk, Fin.mk.injEq] at digit digit'
      have lengths : (fixedDigits width (n / 10)).length = (fixedDigits width (m / 10)).length := by
        simp
      constructor
      · rw [fixedDigits, fixedDigits, append_lt_append lengths, less, same, List.cons_lt_cons_iff,
          digit]
        simp only [List.not_lt_nil, and_false, or_false]
        omega
      · have parts : fixedDigits (width + 1) n = fixedDigits (width + 1) m ↔
            fixedDigits width (n / 10) = fixedDigits width (m / 10) ∧
              [Nat.digitChar (n % 10)] = [Nat.digitChar (m % 10)] := by
          rw [fixedDigits, fixedDigits]
          exact ⟨fun whole => List.append_inj whole lengths,
            fun ⟨front, last⟩ => by rw [front, last]⟩
        rw [parts, same, List.cons.injEq, digit', and_iff_left rfl]
        omega

theorem fixedDigits_lt {width n m : Nat} (first : n < 10 ^ width) (last : m < 10 ^ width) :
    fixedDigits width n < fixedDigits width m ↔ n < m :=
  (fixedDigits_compare width n m first last).1

theorem fixedDigits_inj {width n m : Nat} (first : n < 10 ^ width) (last : m < 10 ^ width) :
    fixedDigits width n = fixedDigits width m ↔ n = m :=
  (fixedDigits_compare width n m first last).2

/-- A number that fills the width is written as always. -/
theorem toDigits_eq_fixedDigits (width n : Nat) (full : 10 ^ width ≤ n)
    (fits : n < 10 ^ (width + 1)) : Nat.toDigits 10 n = fixedDigits (width + 1) n := by
  induction width generalizing n with
  | zero =>
      rw [Nat.toDigits_of_lt_base (by simpa using fits), fixedDigits, fixedDigits,
        Nat.mod_eq_of_lt (by simpa using fits)]
      rfl
  | succ width ih =>
      rw [Nat.pow_succ] at full fits
      have positive := Nat.pow_pos (n := width) (show 0 < 10 by decide)
      rw [Nat.toDigits_of_base_le (by decide) (by omega), ih (n / 10) (by omega) (by omega),
        fixedDigits.eq_def (width + 1 + 1) n]

end Kiagent.Digits
