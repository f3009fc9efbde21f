/-
# Theory.Runs -- runs of a partial step function

A machine takes a step on an action, or refuses it.  A run is a list of actions
none of which is refused.  `Along` says that every action of a run meets a
condition in the state it is taken in.

`run_keeps` is the induction every whole-run result goes through: what one step
keeps, under the condition, a run keeps.
-/
import Mathlib.Data.List.Basic

namespace Kiagent.Theory

set_option autoImplicit false

universe u v

variable {σ : Type u} {α : Type v}

/-- Take the actions in order; `none` when one is refused. -/
def runSteps (step : σ → α → Option σ) : σ → List α → Option σ
  | s, [] => some s
  | s, a :: as => (step s a).bind fun s' => runSteps step s' as

/-- Every action is taken in a state where `ok` holds of it. -/
def Along (step : σ → α → Option σ) (ok : σ → α → Prop) : σ → List α → Prop
  | _, [] => True
  | s, a :: as => ok s a ∧ ∀ s', step s a = some s' → Along step ok s' as

variable {step : σ → α → Option σ}

instance Along.decidable {ok : σ → α → Prop} [∀ s a, Decidable (ok s a)] : (s : σ) →
    (as : List α) → Decidable (Along step ok s as)
  | _, [] => .isTrue trivial
  | s, a :: as =>
      match took : step s a with
      | none => decidable_of_iff (ok s a)
          ⟨fun held => ⟨held, fun s' first => by rw [took] at first; cases first⟩, And.left⟩
      | some s' =>
          have : Decidable (Along step ok s' as) := Along.decidable s' as
          decidable_of_iff (ok s a ∧ Along step ok s' as)
            ⟨fun ⟨held, rest⟩ => ⟨held, fun s'' first => by
              rw [took] at first
              exact Option.some.inj first ▸ rest⟩, fun along => ⟨along.1, along.2 s' took⟩⟩

theorem runSteps_cons {s s'' : σ} {a : α} {as : List α} :
    runSteps step s (a :: as) = some s'' ↔
      ∃ s', step s a = some s' ∧ runSteps step s' as = some s'' := by
  rw [runSteps, Option.bind_eq_some_iff]

theorem runSteps_append {s s'' : σ} : {as bs : List α} →
    (runSteps step s (as ++ bs) = some s'' ↔
      ∃ s', runSteps step s as = some s' ∧ runSteps step s' bs = some s'')
  | [], bs => by simp [runSteps]
  | a :: as, bs => by
      rw [List.cons_append, runSteps_cons]
      constructor
      · rintro ⟨s₁, first, rest⟩
        obtain ⟨s', middle, last⟩ := runSteps_append.1 rest
        exact ⟨s', runSteps_cons.2 ⟨s₁, first, middle⟩, last⟩
      · rintro ⟨s', init, last⟩
        obtain ⟨s₁, first, middle⟩ := runSteps_cons.1 init
        exact ⟨s₁, first, runSteps_append.2 ⟨s', middle, last⟩⟩

/-- **What a step keeps, under its condition, a run keeps.** -/
theorem run_keeps {c : σ → α → Prop} {I : σ → Prop}
    (keeps : ∀ s a s', I s → c s a → step s a = some s' → I s') : {as : List α} →
    {s s' : σ} → I s → Along step c s as → runSteps step s as = some s' → I s'
  | [], _, _, held, _, ran => by
      obtain rfl := Option.some.inj ran
      exact held
  | a :: as, s, s'', held, along, ran => by
      obtain ⟨s', first, rest⟩ := runSteps_cons.1 ran
      exact run_keeps keeps (keeps s a s' held along.1 first) (along.2 s' first) rest

/-- Two conditions, each met along the run. -/
theorem Along.and {ok ok' : σ → α → Prop} {as : List α} {s : σ} (held : Along step ok s as)
    (held' : Along step ok' s as) : Along step (fun s a => ok s a ∧ ok' s a) s as := by
  induction as generalizing s with
  | nil => trivial
  | cons a as ih =>
      exact ⟨⟨held.1, held'.1⟩, fun s' first => ih (held.2 s' first) (held'.2 s' first)⟩

/-- A condition every step meets is met along every run. -/
theorem Along.of_all {ok : σ → α → Prop} (all : ∀ s a, ok s a) : (as : List α) → (s : σ) →
    Along step ok s as
  | [], _ => trivial
  | a :: as, s => ⟨all s a, fun s' _ => Along.of_all all as s'⟩

/-- A condition on the actions alone. -/
theorem Along.of_mem {p : α → Prop} : {as : List α} → (∀ a ∈ as, p a) → (s : σ) →
    Along step (fun _ a => p a) s as
  | [], _, _ => trivial
  | a :: _, all, _ => ⟨all a (List.mem_cons_self ..), fun s' _ =>
      Along.of_mem (fun a mem => all a (List.mem_cons_of_mem _ mem)) s'⟩

/-- What every step keeps, every run keeps. -/
theorem run_invariant {I : σ → Prop}
    (keeps : ∀ s a s', I s → step s a = some s' → I s') {as : List α} {s s' : σ}
    (held : I s) (ran : runSteps step s as = some s') : I s' :=
  run_keeps (c := fun _ _ => True) (fun s a s' held _ => keeps s a s' held) held
    (Along.of_all (fun _ _ => trivial) as s) ran

/-- A machine that refuses nothing. -/
theorem runSteps_total {f : σ → α → σ} : (as : List α) → (s : σ) →
    runSteps (fun s a => some (f s a)) s as = some (as.foldl f s)
  | [], _ => rfl
  | a :: as, s => runSteps_total as (f s a)

/-- **What a step keeps, under its condition, a run keeps**, where no action is refused. -/
theorem fold_keeps {f : σ → α → σ} {c : σ → α → Prop} {I : σ → Prop}
    (keeps : ∀ s a, I s → c s a → I (f s a)) {as : List α} {s : σ} (held : I s)
    (along : Along (fun s a => some (f s a)) c s as) : I (as.foldl f s) :=
  run_keeps (fun s a _ held met took => Option.some.inj took ▸ keeps s a held met) held along
    (runSteps_total as s)

/-- Steps that lower a number come to an end. -/
theorem run_bounded {c : σ → α → Prop} {I : σ → Prop} {m : σ → Nat}
    (lowers : ∀ s a s', I s → c s a → step s a = some s' → I s' ∧ m s' < m s) : {as : List α} →
    {s s' : σ} → I s → Along step c s as → runSteps step s as = some s' →
      as.length + m s' ≤ m s
  | [], _, _, _, _, ran => by
      obtain rfl := Option.some.inj ran
      simp
  | a :: as, s, s'', held, along, ran => by
      obtain ⟨s', first, rest⟩ := runSteps_cons.1 ran
      obtain ⟨kept, lower⟩ := lowers s a s' held along.1 first
      have bound := run_bounded lowers kept (along.2 s' first) rest
      rw [List.length_cons]
      omega

end Kiagent.Theory
