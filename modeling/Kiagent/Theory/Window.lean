/-
# Theory.Window -- how many of a list of times any window of one width holds

A window is half open: of width `w` from `a` it holds the times `x` with `a ≤ x < a + w`.
One more time can only fill a window that it is in, and no window is fuller than every one
that begins at a time of the list.
-/
import Mathlib

namespace Kiagent.Theory

set_option autoImplicit false

universe u

variable {α : Type u} [AddCommGroup α] [LinearOrder α] {w a t : α} {limit : ℚ} {times : List α}

/-- The times of a list in the window from `a`. -/
def inWindow (w a : α) (times : List α) : ℕ :=
  times.countP fun x => decide (a ≤ x) && decide (x < a + w)

/-- No window of width `w` holds more than `limit` times. -/
def WithinRate (w : α) (limit : ℚ) (times : List α) : Prop := ∀ a, (inWindow w a times : ℚ) ≤ limit

@[simp]
theorem inWindow_cons (x : α) : inWindow w a (x :: times) =
    inWindow w a times + if a ≤ x ∧ x < a + w then 1 else 0 := by
  simp [inWindow, List.countP_cons]

theorem inWindow_perm {more : List α} (same : times.Perm more) :
    inWindow w a times = inWindow w a more := same.countP_eq _

theorem inWindow_sublist {more : List α} (part : times.Sublist more) :
    inWindow w a times ≤ inWindow w a more := part.countP_le

theorem WithinRate.sublist {more : List α} (within : WithinRate w limit more)
    (part : times.Sublist more) : WithinRate w limit times := fun a =>
  le_trans (by exact_mod_cast inWindow_sublist part) (within a)

theorem withinRate_perm {more : List α} (same : times.Perm more) :
    WithinRate w limit times ↔ WithinRate w limit more := by
  simp only [WithinRate, inWindow_perm same]

/-- One more time fills the windows that hold it, and no other. -/
theorem withinRate_cons : WithinRate w limit (t :: times) ↔
    WithinRate w limit times ∧
      ∀ a, a ≤ t → t < a + w → (inWindow w a (t :: times) : ℚ) ≤ limit := by
  constructor
  · intro more
    exact ⟨more.sublist (List.sublist_cons_self t times), fun a _ _ => more a⟩
  · rintro ⟨within, holding⟩ a
    by_cases inside : a ≤ t ∧ t < a + w
    · exact holding a inside.1 inside.2
    · rw [inWindow_cons, if_neg inside]
      exact within a

variable [IsOrderedAddMonoid α]

/-- Of every window with a time in it there is one at least as full that begins at a time
of the list: the one that begins at the earliest time the window holds. -/
theorem exists_fuller (held : t ∈ times) (after : a ≤ t) :
    ∃ b ∈ times, a ≤ b ∧ b ≤ t ∧ inWindow w a times ≤ inWindow w b times := by
  let here := times.toFinset.filter fun x => a ≤ x
  have inhabited : here.Nonempty := ⟨t, by simp [here, held, after]⟩
  obtain ⟨b, mem, least⟩ := here.exists_min_image id inhabited
  obtain ⟨listed, later⟩ : b ∈ times ∧ a ≤ b := by simpa [here] using mem
  refine ⟨b, listed, later, least t (by simp [here, held, after]), ?_⟩
  refine List.countP_mono_left fun x known inside => ?_
  obtain ⟨lo, hi⟩ : a ≤ x ∧ x < a + w := by simpa using inside
  have low : b ≤ x := least x (by simp [here, known, lo])
  have high : x < b + w := lt_of_lt_of_le hi (by gcongr)
  simp [low, high]

end Kiagent.Theory
