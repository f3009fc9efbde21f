/-
# Theory.Bisect -- a bisection that moves to a neighbour

`search` narrows `[lo, hi)` around a boundary.  The number in the middle is probed: the
probe answers `none` when the boundary is at or below it, and otherwise a number at or
above it that is still below the boundary, past which the search goes on.  The numbers
need not be in use: a probe stands for the next one that is.

`search_spec` is the rule: what the two moves keep holds of the number the search ends
with, and it ends within as many rounds as the range has binary digits.
-/
import Mathlib

namespace Kiagent.Theory.Bisect

set_option autoImplicit false

def middle (lo hi : Nat) : Nat := (lo + hi) / 2

/-- The number the range closes on, or `none` when the rounds do not do. -/
def search (probe : Nat → Option Nat) : Nat → Nat → Nat → Option Nat
  | 0, _, _ => none
  | rounds + 1, lo, hi =>
      if lo < hi then
        match probe (middle lo hi) with
        | none => search probe rounds lo (middle lo hi)
        | some below => search probe rounds (below + 1) hi
      else some lo

/-- What a move has to keep, of a range that is not yet closed. -/
structure Invariant (probe : Nat → Option Nat) (Inv : Nat → Nat → Prop) : Prop where
  ordered : ∀ {lo hi}, Inv lo hi → lo ≤ hi
  down : ∀ {lo hi}, Inv lo hi → lo < hi → probe (middle lo hi) = none → Inv lo (middle lo hi)
  up : ∀ {lo hi below}, Inv lo hi → lo < hi → probe (middle lo hi) = some below →
    middle lo hi ≤ below ∧ Inv (below + 1) hi

/-- Either part is less than half of a range that fits in one digit more. -/
theorem halves {lo hi rounds : Nat} (fits : hi - lo < 2 ^ (rounds + 1)) :
    middle lo hi - lo < 2 ^ rounds ∧ hi - (middle lo hi + 1) < 2 ^ rounds := by
  rw [Nat.pow_succ] at fits
  unfold middle
  omega

/-- **The search ends**, and the invariant holds of the range it closes. -/
theorem search_spec {probe : Nat → Option Nat} {Inv : Nat → Nat → Prop}
    (keeps : Invariant probe Inv) : ∀ {rounds lo hi : Nat}, Inv lo hi → hi - lo < 2 ^ rounds →
      ∃ n, search probe (rounds + 1) lo hi = some n ∧ Inv n n := by
  intro rounds
  induction rounds with
  | zero =>
      intro lo hi inv fits
      have ordered := keeps.ordered inv
      obtain rfl : lo = hi := by rw [Nat.pow_zero] at fits; omega
      exact ⟨lo, by simp [search], inv⟩
  | succ rounds ih =>
      intro lo hi inv fits
      obtain ⟨left, right⟩ := halves fits
      rw [search]
      by_cases range : lo < hi
      · rw [if_pos range]
        cases answer : probe (middle lo hi) with
        | none => exact ih (keeps.down inv range answer) left
        | some below =>
            obtain ⟨past, next⟩ := keeps.up inv range answer
            exact ih next (by omega)
      · obtain rfl : lo = hi := by have := keeps.ordered inv; omega
        exact ⟨lo, if_neg range, inv⟩

end Kiagent.Theory.Bisect
