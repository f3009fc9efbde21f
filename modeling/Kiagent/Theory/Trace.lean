/-
# Theory.Trace -- what is wanted after each event of a trace

A trace lists events in their order.  `Each want` says of every event what it wants of the
events after it.  A machine keeps such a fact when what was wanted so far still is once the
new events are appended, and the new events get what they want (`each_append`).
-/
import Mathlib.Data.List.Basic

namespace Kiagent.Theory

set_option autoImplicit false

universe u

variable {ε : Type u} {want want' : ε → List ε → Prop}

def Each (want : ε → List ε → Prop) : List ε → Prop
  | [] => True
  | e :: later => want e later ∧ Each want later

theorem each_append {early late : List ε} :
    Each want (early ++ late) ↔
      Each (fun e later => want e (later ++ late)) early ∧ Each want late := by
  induction early with
  | nil => simp [Each]
  | cons e early ih => rw [List.cons_append, Each, ih, Each, and_assoc]

theorem Each.mono (weaker : ∀ e later, want e later → want' e later) {trace : List ε}
    (each : Each want trace) : Each want' trace := by
  induction trace with
  | nil => trivial
  | cons e trace ih => exact ⟨weaker e trace each.1, ih each.2⟩

/-- What an event of the trace wants. -/
theorem Each.of_split {early late : List ε} {e : ε} (each : Each want (early ++ e :: late)) :
    want e late :=
  (each_append.1 each).2.1

end Kiagent.Theory
