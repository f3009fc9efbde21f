/-
# Theory.Version -- which entry of a log speaks last of a thing

`lastAbout log about h` is the number of the last entry of the log up to `h` that is about the
thing, zero where none is.  A log that only grows at its end (`Extends`) does not change what
was said up to a number it had reached (`Extends.lastAbout_eq`).
-/
import Kiagent.Theory.SeqLog

namespace Kiagent.Theory

set_option autoImplicit false

universe u

namespace SeqLog

variable {ρ : Type u} {l l' : SeqLog ρ} {about : ρ → Bool} {h h' n : Nat} {e : Nat × ρ}

def lastAbout (l : SeqLog ρ) (about : ρ → Bool) (h : Nat) : Nat :=
  ((l.entries.filter fun e => about e.2 && decide (e.1 ≤ h)).map Prod.fst).foldr max 0

theorem le_lastAbout (mem : e ∈ l.entries) (here : about e.2 = true) (upTo : e.1 ≤ h) :
    e.1 ≤ l.lastAbout about h := by
  refine le_foldr_max _ (List.mem_map_of_mem (List.mem_filter.2 ⟨mem, ?_⟩))
  simp [here, upTo]

theorem lastAbout_le (each : ∀ e ∈ l.entries, about e.2 = true → e.1 ≤ h → e.1 ≤ n) :
    l.lastAbout about h ≤ n := by
  refine foldr_max_le _ _ fun m mem => ?_
  obtain ⟨e, kept, rfl⟩ := List.mem_map.1 mem
  obtain ⟨there, both⟩ := List.mem_filter.1 kept
  simp only [Bool.and_eq_true, decide_eq_true_eq] at both
  exact each e there both.1 both.2

theorem lastAbout_le_self : l.lastAbout about h ≤ h :=
  lastAbout_le fun _ _ _ upTo => upTo

theorem lastAbout_mono (le : h ≤ h') : l.lastAbout about h ≤ l.lastAbout about h' :=
  lastAbout_le fun _ mem here upTo => le_lastAbout mem here (Nat.le_trans upTo le)

/-- An entry is the last about its thing when no later one is. -/
theorem lastAbout_eq (mem : e ∈ l.entries) (here : about e.2 = true) (upTo : e.1 ≤ h)
    (last : ∀ e' ∈ l.entries, about e'.2 = true → e'.1 ≤ h → e'.1 ≤ e.1) :
    l.lastAbout about h = e.1 :=
  Nat.le_antisymm (lastAbout_le last) (le_lastAbout mem here upTo)

/-- A number other than zero is an entry's. -/
theorem exists_lastAbout (some : 0 < l.lastAbout about h) :
    ∃ e ∈ l.entries, about e.2 = true ∧ e.1 ≤ h ∧ e.1 = l.lastAbout about h := by
  by_contra none
  have zero : l.lastAbout about h ≤ l.lastAbout about h - 1 := by
    refine lastAbout_le fun e mem here upTo => ?_
    have below := le_lastAbout mem here upTo
    have off : e.1 ≠ l.lastAbout about h := fun same => none ⟨e, mem, here, upTo, same⟩
    omega
  omega

/-- The log grew at its end. -/
structure Extends (l l' : SeqLog ρ) : Prop where
  grows : l.Grows l'
  old : ∀ e ∈ l'.entries, e.1 ≤ l.counter → e ∈ l.entries

namespace Extends

theorem refl (l : SeqLog ρ) : Extends l l := ⟨.refl l, fun _ mem _ => mem⟩

theorem trans {a b c : SeqLog ρ} (first : Extends a b) (second : Extends b c) : Extends a c where
  grows := first.grows.trans second.grows
  old e mem le := first.old e (second.old e mem (Nat.le_trans le first.grows.counter)) le

theorem append (l : SeqLog ρ) (row : ρ) : Extends l (l.append row) where
  grows := .append l row
  old e mem le := by
    rcases List.mem_append.1 mem with old | last
    · exact old
    · obtain rfl := List.mem_singleton.1 last
      exact absurd le (Nat.not_succ_le_self _)

/-- What the log said up to a number stays said. -/
theorem lastAbout_eq (longer : Extends l l') (reached : h ≤ l.counter) :
    l'.lastAbout about h = l.lastAbout about h := by
  apply Nat.le_antisymm
  · exact lastAbout_le fun e mem here upTo =>
      le_lastAbout (longer.old e mem (Nat.le_trans upTo reached)) here upTo
  · exact lastAbout_le fun e mem here upTo => le_lastAbout (longer.grows.entries e mem) here upTo

end Extends

end SeqLog

end Kiagent.Theory
