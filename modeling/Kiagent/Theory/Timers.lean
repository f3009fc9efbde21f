/-
# Theory.Timers -- timers that are set, cleared and fire

A timer gets a handle that no timer had before, and is armed until it is cleared or fires.
Clearing a handle whose timer is gone does nothing, and neither does clearing nothing.

`eventually` is the rule for what waits on timers: while one waits, one armed timer is
watched, and when it is no longer armed what waits has come nearer to its end.
-/
import Mathlib.Data.List.Nodup

namespace Kiagent.Theory

set_option autoImplicit false

universe u

structure Timers (κ : Type u) where
  next : Nat
  pending : List (Nat × κ)
  fresh : ∀ p ∈ pending, p.1 < next
  distinct : (pending.map Prod.fst).Nodup

namespace Timers

variable {κ : Type u}

def nothing : Timers κ := ⟨0, [], nofun, List.nodup_nil⟩

/-- The new timer's handle is `next`. -/
def set (t : Timers κ) (k : κ) : Timers κ where
  next := t.next + 1
  pending := t.pending ++ [(t.next, k)]
  fresh p mem := by
    rcases List.mem_append.mp mem with old | new
    · exact Nat.lt_succ_of_lt (t.fresh p old)
    · obtain rfl := List.mem_singleton.mp new
      exact Nat.lt_succ_self _
  distinct := by
    rw [List.map_append, List.nodup_append]
    refine ⟨t.distinct, List.nodup_singleton _, fun h old h' new same => ?_⟩
    obtain ⟨p, mem, rfl⟩ := List.mem_map.mp old
    obtain rfl := List.mem_singleton.mp new
    exact absurd same (Nat.ne_of_lt (t.fresh p mem))

def clear (t : Timers κ) (handle : Option Nat) : Timers κ where
  next := t.next
  pending := t.pending.filter fun p => some p.1 ≠ handle
  fresh p mem := t.fresh p (List.mem_of_mem_filter mem)
  distinct := t.distinct.sublist (List.filter_sublist.map _)

/-- What is called when the timer fires. -/
def callback (t : Timers κ) (handle : Nat) : Option κ :=
  (t.pending.find? fun p => p.1 = handle).map Prod.snd

def Armed (t : Timers κ) (handle : Nat) (k : κ) : Prop := (handle, k) ∈ t.pending

variable {t : Timers κ} {h : Nat} {k k' : κ} {handle : Option Nat}

@[simp] theorem armed_set : (t.set k').Armed h k ↔ t.Armed h k ∨ h = t.next ∧ k = k' := by
  simp [Armed, set]

@[simp] theorem armed_clear : (t.clear handle).Armed h k ↔ t.Armed h k ∧ some h ≠ handle := by
  simp [Armed, clear]

@[simp] theorem clear_none (t : Timers κ) : t.clear none = t := by
  obtain ⟨next, pending, fresh, distinct⟩ := t
  unfold clear
  congr 1
  exact List.filter_eq_self.mpr fun p _ => by simp

theorem Armed.lt (armed : t.Armed h k) : h < t.next := t.fresh _ armed

theorem Armed.unique (armed : t.Armed h k) (armed' : t.Armed h k') : k = k' :=
  congrArg Prod.snd (List.inj_on_of_nodup_map t.distinct armed armed' rfl)

theorem callback_iff : t.callback h = some k ↔ t.Armed h k := by
  unfold callback
  constructor
  · intro found
    obtain ⟨p, first, rfl⟩ := Option.map_eq_some_iff.mp found
    obtain rfl : p.1 = h := by simpa using List.find?_some first
    exact List.mem_of_find?_eq_some first
  · intro armed
    cases found : t.pending.find? fun p => p.1 = h with
    | none => exact absurd (List.find?_eq_none.mp found _ armed) (by simp)
    | some p =>
        obtain ⟨h', k'⟩ := p
        obtain rfl : h' = h := by simpa using List.find?_some found
        exact congrArg some (Armed.unique (List.mem_of_find?_eq_some found) armed)

/-- A variable that holds a handle of the kind `p`, whose timer may be gone. -/
def Holds (t : Timers κ) (p : κ → Prop) (variable_ : Option Nat) : Prop :=
  ∀ h, variable_ = some h → h < t.next ∧ ∀ k, t.Armed h k → p k

variable {p : κ → Prop} {variable_ : Option Nat}

theorem holds_none : t.Holds p none := nofun

theorem Holds.clear (holds : t.Holds p variable_) (handle : Option Nat) :
    (t.clear handle).Holds p variable_ :=
  fun h is => ⟨(holds h is).1, fun k armed => (holds h is).2 k (armed_clear.mp armed).1⟩

theorem Holds.set (holds : t.Holds p variable_) (k : κ) : (t.set k).Holds p variable_ := by
  intro h is
  refine ⟨Nat.lt_succ_of_lt (holds h is).1, fun k' armed => ?_⟩
  rcases armed_set.mp armed with old | ⟨rfl, -⟩
  · exact (holds _ is).2 k' old
  · exact absurd (holds _ is).1 (Nat.lt_irrefl _)

theorem holds_set (is : p k) : (t.set k).Holds p (some t.next) := by
  intro h same
  obtain rfl := Option.some.inj same
  refine ⟨Nat.lt_succ_self _, fun k' armed => ?_⟩
  rcases armed_set.mp armed with old | ⟨-, rfl⟩
  · exact absurd old.lt (Nat.lt_irrefl _)
  · exact is

/-- Clearing a handle of another kind leaves a timer armed. -/
theorem Armed.clear (armed : t.Armed h k) (holds : t.Holds p variable_) (other : ¬ p k) :
    (t.clear variable_).Armed h k :=
  armed_clear.mpr ⟨armed, fun same => other ((holds h same.symm).2 k armed)⟩

end Timers

/-! ## Waiting on timers -/

section Fair

variable {σ τ : Type u} {armed : σ → τ → Prop}

/-- No timer stays armed for ever. -/
def Elapse (armed : σ → τ → Prop) (x : Nat → σ) : Prop :=
  ∀ n t, armed (x n) t → ∃ m, n ≤ m ∧ ¬ armed (x m) t

/-- **What waits comes to its end**: a watched timer stays the same only while the rank does. -/
theorem eventually {x : Nat → σ} (elapse : Elapse armed x) {waits done : σ → Prop}
    {rank : σ → Nat} {watch : σ → τ} (watched : ∀ n, waits (x n) → armed (x n) (watch (x n)))
    (step : ∀ n, waits (x n) → done (x (n + 1)) ∨ waits (x (n + 1)) ∧
      (rank (x (n + 1)) < rank (x n) ∨
        rank (x (n + 1)) = rank (x n) ∧ watch (x (n + 1)) = watch (x n)))
    (n : Nat) (waiting : waits (x n)) : ∃ m, n ≤ m ∧ done (x m) := by
  generalize size : rank (x n) = r
  induction r using Nat.strongRecOn generalizing n with
  | ind r ih =>
      obtain ⟨m, later, gone⟩ := elapse n _ (watched n waiting)
      -- until the watched timer is gone, or what waits comes nearer
      have stays : ∀ d, (∃ m, n ≤ m ∧ done (x m)) ∨
          waits (x (n + d)) ∧ rank (x (n + d)) = r ∧ watch (x (n + d)) = watch (x n) := by
        intro d
        induction d with
        | zero => exact Or.inr ⟨waiting, size, rfl⟩
        | succ d ihd =>
            rcases ihd with ended | ⟨waits', rank', watch'⟩
            · exact Or.inl ended
            · rcases step (n + d) waits' with ended | ⟨waits'', lower | ⟨same, watch''⟩⟩
              · exact Or.inl ⟨n + d + 1, by omega, ended⟩
              · obtain ⟨m, le, ended⟩ := ih _ (rank' ▸ lower) (n + d + 1) waits'' rfl
                exact Or.inl ⟨m, by omega, ended⟩
              · exact Or.inr ⟨waits'', same.trans rank', watch''.trans watch'⟩
      rcases stays (m - n) with ended | ⟨waits', -, watch'⟩
      · exact ended
      · rw [show n + (m - n) = m by omega] at waits' watch'
        exact absurd (watched m waits') (watch' ▸ gone)

end Fair

end Kiagent.Theory
