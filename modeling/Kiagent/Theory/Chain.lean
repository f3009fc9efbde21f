/-
# Theory.Chain -- what the end of one task waits for

Each task may wait for one earlier task before it ends.  `Awaits prev y i` says that
the end of `y` comes after the end of `i`, along such links; what a task's end
carries over to the task it waits for, it carries over to all of them (`carry`).
-/
import Mathlib.Order.Basic

namespace Kiagent.Theory

set_option autoImplicit false

/-- The end of `y` waits for `i`. -/
inductive Awaits (prev : Nat → Option Nat) : Nat → Nat → Prop where
  | refl (i : Nat) : Awaits prev i i
  | prev {y j i : Nat} : prev y = some j → Awaits prev j i → Awaits prev y i

namespace Awaits

variable {prev prev' : Nat → Option Nat} {y i : Nat}

theorem congr (awaits : Awaits prev y i) (same : ∀ i, prev' i = prev i) : Awaits prev' y i := by
  induction awaits with
  | refl => exact .refl _
  | prev before _ ih => exact .prev ((same _).trans before) ih

/-- Links below a bound are all that a task below it follows. -/
theorem congr_below {n : Nat} (awaits : Awaits prev y i) (low : y < n)
    (down : ∀ i < n, ∀ j, prev i = some j → j < i) (same : ∀ i < n, prev' i = prev i) :
    Awaits prev' y i := by
  induction awaits with
  | refl => exact .refl _
  | prev before _ ih =>
      exact .prev ((same _ low).trans before) (ih (Nat.lt_trans (down _ low _ before) low))

/-- Of two tasks the end of `y` waits for, one waits for the other. -/
theorem linear {j : Nat} (awaits : Awaits prev y i) (other : Awaits prev y j) :
    Awaits prev i j ∨ Awaits prev j i := by
  induction awaits with
  | refl => exact .inl other
  | prev before rest ih =>
      cases other with
      | refl => exact .inr (.prev before rest)
      | prev before' rest' =>
          obtain rfl := Option.some.inj (before.symm.trans before')
          exact ih rest'

/-- **What goes from a task to the one it waits for goes to all of them.** -/
theorem carry {n : Nat} {p : Nat → Prop} (awaits : Awaits prev y i) (low : y < n)
    (down : ∀ i < n, ∀ j, prev i = some j → j < i ∧ (p i → p j)) (held : p y) : p i := by
  induction awaits with
  | refl => exact held
  | prev before _ ih =>
      obtain ⟨lower, follows⟩ := down _ low _ before
      exact ih (Nat.lt_trans lower low) (follows held)

end Awaits

end Kiagent.Theory
