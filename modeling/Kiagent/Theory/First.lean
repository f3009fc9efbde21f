/-
# Theory.First -- the first best element of a list

A loop that keeps one candidate and replaces it by every later element that is ahead
of it.  Where "ahead" compares a key, the loop ends with the least key, and of those
that share it with the one that stands first.
-/
import Mathlib

namespace Kiagent.Theory

set_option autoImplicit false

universe u v

variable {α : Type u} {β : Type v}

/-- One round: a later element takes the candidate's place only if it is ahead of it. -/
def keepBest (ahead : α → α → Bool) : Option α → α → Option α
  | none, a => some a
  | some b, a => if ahead a b then some a else some b

def firstBest (ahead : α → α → Bool) (l : List α) : Option α := l.foldl (keepBest ahead) none

variable {ahead : α → α → Bool}

theorem firstBest_snoc (l : List α) (a : α) :
    firstBest ahead (l ++ [a]) = keepBest ahead (firstBest ahead l) a := by
  rw [firstBest, List.foldl_append, List.foldl_cons, List.foldl_nil]
  rfl

theorem keepBest_isSome (best : Option α) (a : α) : (keepBest ahead best a).isSome := by
  cases best with
  | none => rfl
  | some b =>
      rw [keepBest]
      split <;> rfl

theorem firstBest_eq_none {l : List α} : firstBest ahead l = none ↔ l = [] := by
  constructor
  · intro nothing
    induction l using List.reverseRecOn with
    | nil => rfl
    | append_singleton l a ih =>
        have found : (keepBest ahead (firstBest ahead l) a).isSome := keepBest_isSome _ a
        rw [← firstBest_snoc, nothing] at found
        cases found
  · rintro rfl
    rfl

theorem firstBest_mem {l : List α} {m : α} (found : firstBest ahead l = some m) : m ∈ l := by
  induction l using List.reverseRecOn generalizing m with
  | nil => cases found
  | append_singleton l a ih =>
      rw [firstBest_snoc] at found
      cases best : firstBest ahead l with
      | none =>
          rw [best, keepBest] at found
          obtain rfl := Option.some.inj found
          exact List.mem_append_right _ (List.mem_singleton_self _)
      | some b =>
          rw [best, keepBest] at found
          split at found
          · obtain rfl := Option.some.inj found
            exact List.mem_append_right _ (List.mem_singleton_self _)
          · obtain rfl := Option.some.inj found
            exact List.mem_append_left _ (ih best)

/-- **The first of the least.**  Every other element has a larger key, or the same key and
stands later. -/
theorem firstBest_least [LinearOrder β] {key : α → β} {R : α → α → Prop}
    (reads : ∀ a b, ahead a b = true ↔ key a < key b) {l : List α} (ordered : l.Pairwise R) {m : α}
    (found : firstBest ahead l = some m) :
    ∀ a ∈ l, key m < key a ∨ (key m = key a ∧ (a = m ∨ R m a)) := by
  induction l using List.reverseRecOn generalizing m with
  | nil => cases found
  | append_singleton l last ih =>
      rw [List.pairwise_append] at ordered
      obtain ⟨init, -, across⟩ := ordered
      rw [firstBest_snoc] at found
      intro a mem
      cases best : firstBest ahead l with
      | none =>
          rw [best, keepBest] at found
          obtain rfl := Option.some.inj found
          obtain rfl := firstBest_eq_none.1 best
          obtain rfl := List.mem_singleton.1 mem
          exact .inr ⟨rfl, .inl rfl⟩
      | some b =>
          rw [best, keepBest] at found
          have least := ih init best
          split at found
          case isTrue beats =>
            -- the last element is ahead of the candidate, and so of all before
            obtain rfl := Option.some.inj found
            have lower := (reads _ _).1 beats
            rcases List.mem_append.1 mem with before | here
            · rcases least a before with larger | ⟨same, -⟩
              · exact .inl (lower.trans larger)
              · exact .inl (same ▸ lower)
            · exact .inr ⟨by rw [List.mem_singleton.1 here], .inl (List.mem_singleton.1 here)⟩
          case isFalse stays =>
            obtain rfl := Option.some.inj found
            rcases List.mem_append.1 mem with before | here
            · exact least a before
            · obtain rfl := List.mem_singleton.1 here
              have least' := not_lt.1 (mt (reads _ _).2 stays)
              rcases least'.lt_or_eq with larger | same
              · exact .inl larger
              · exact .inr ⟨same, .inr (across _ (firstBest_mem best) _ here)⟩

end Kiagent.Theory
