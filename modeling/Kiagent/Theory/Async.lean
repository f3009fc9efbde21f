/-
# Theory.Async -- async functions that share a state, and rules to reason about them

An async function returns, throws, or awaits an operation and goes on with its answer.
What an operation does to the shared state is `perform`; between two awaits of one
function others may act, and all that is known of them is the relation `rely`.

`wp` is the weakest precondition of a function in such company: every operation it
performs keeps the invariant, and what it ends in meets the postcondition.  The rules
follow the source: `wp_bind` for a sequence, `wp_catch` for a handler, `wp_call` for one
await.  `wp_step` and `wp_rely` are what a machine that runs functions needs of it.
-/
import Mathlib.Data.List.Basic

namespace Kiagent.Theory

set_option autoImplicit false

variable {ω : Type} {ρ : ω → Type}

/-- An async function over the operations `ω`, with answers `ρ`. -/
inductive Async (ω : Type) (ρ : ω → Type) (α : Type) where
  | returns (a : α)
  | throws (message : String)
  | await (operation : ω) (resume : Except String (ρ operation) → Async ω ρ α)

namespace Async

variable {α β : Type}

def andThen : Async ω ρ α → (α → Async ω ρ β) → Async ω ρ β
  | returns a, f => f a
  | throws message, _ => throws message
  | await operation resume, f => await operation fun answer => (resume answer).andThen f

def handle : Async ω ρ α → (String → Async ω ρ α) → Async ω ρ α
  | returns a, _ => returns a
  | throws message, h => h message
  | await operation resume, h => await operation fun answer => (resume answer).handle h

instance : Monad (Async ω ρ) where
  pure := returns
  bind := andThen

instance : MonadExceptOf String (Async ω ρ) where
  throw := throws
  tryCatch := handle

/-- One await. -/
def call (operation : ω) : Async ω ρ (ρ operation) :=
  await operation fun
    | .ok answer => returns answer
    | .error message => throws message

/-- `try` with a `finally` that does nothing after success. -/
def onError (x : Async ω ρ α) (cleanup : Async ω ρ β) : Async ω ρ α :=
  tryCatch x fun message => do
    let _ ← cleanup
    throw message

/-- `.catch(() => undefined)` -/
def quietly (x : Async ω ρ α) : Async ω ρ Unit :=
  tryCatch (do let _ ← x; pure ()) fun _ => pure ()

/-- What it ends in, as a value. -/
def attempt (x : Async ω ρ α) : Async ω ρ (Except String α) :=
  tryCatch (do let a ← x; pure (.ok a)) fun message => pure (.error message)

def rethrow : Except String α → Async ω ρ α
  | .ok a => pure a
  | .error message => throw message

/-- `finally`, with a cleanup that throws nothing. -/
def afterwards (x : Async ω ρ α) (cleanup : Async ω ρ β) : Async ω ρ α := do
  let r ← x.attempt
  cleanup.quietly
  rethrow r

/-- It throws unless this holds. -/
def require (held : Prop) [Decidable held] (message : String) : Async ω ρ Unit :=
  if held then pure () else throw message

/-- The function is at its end. -/
def result : Async ω ρ α → Option (Except String α)
  | returns a => some (.ok a)
  | throws message => some (.error message)
  | await .. => none

/-! ## Steps -/

variable {σ ι : Type}

/-- The operation the function awaits is performed, and the function goes on to its next
await. -/
def step (perform : (operation : ω) → σ → ι → Option (Except String (ρ operation) × σ)) :
    Async ω ρ α → σ → ι → Option (Async ω ρ α × σ)
  | await operation resume, s, input =>
      (perform operation s input).map fun (answer, s') => (resume answer, s')
  | _, _, _ => none

/-- The whole function with nobody else about; each operation takes the next input. -/
def run (act : (operation : ω) → σ → ι → Except String (ρ operation) × σ) :
    Async ω ρ α → σ → (Nat → ι) → Nat → Except String α × σ
  | returns a, s, _, _ => (.ok a, s)
  | throws message, s, _, _ => (.error message, s)
  | await operation resume, s, inputs, n =>
      (resume (act operation s (inputs n)).1).run act (act operation s (inputs n)).2 inputs (n + 1)

end Async

/-! ## Weakest preconditions -/

/-- The company an async function runs in. -/
structure Company (ω : Type) (ρ : ω → Type) (σ ι : Type) where
  perform : (operation : ω) → σ → ι → Option (Except String (ρ operation) × σ)
  /-- What others may do between two awaits. -/
  rely : σ → σ → Prop
  /-- What every operation keeps. -/
  inv : σ → Prop
  refl : ∀ s, rely s s
  trans : ∀ {s s' s''}, rely s s' → rely s' s'' → rely s s''

namespace Company

variable {σ ι α β : Type} (C : Company ω ρ σ ι)

/-- From here the function keeps the invariant at each operation, and ends as `Q` says. -/
def wp : Async ω ρ α → (Except String α → σ → Prop) → σ → Prop
  | .returns a, Q, s => Q (.ok a) s
  | .throws message, Q, s => Q (.error message) s
  | .await operation resume, Q, s =>
      ∀ s', C.rely s s' → C.inv s' → ∀ input answer s'',
        C.perform operation s' input = some (answer, s'') →
          C.inv s'' ∧ wp (resume answer) Q s''

variable {C} {x : Async ω ρ α} {Q Q' : Except String α → σ → Prop} {s s' : σ}

theorem wp_mono (weaker : ∀ r s, Q r s → Q' r s) (held : C.wp x Q s) : C.wp x Q' s := by
  induction x generalizing s with
  | returns a => exact weaker _ _ held
  | throws message => exact weaker _ _ held
  | await operation resume ih =>
      intro s' company inv input answer s'' performed
      obtain ⟨kept, rest⟩ := held s' company inv input answer s'' performed
      exact ⟨kept, ih answer rest⟩

theorem wp_pure {a : α} (held : Q (.ok a) s) : C.wp (pure a : Async ω ρ α) Q s := held

theorem wp_throw {message : String} (held : Q (.error message) s) :
    C.wp (throw message : Async ω ρ α) Q s := held

/-- **A sequence**: what the first part ends in is where the second one starts. -/
theorem wp_bind {f : α → Async ω ρ β} {P : Except String β → σ → Prop}
    (held : C.wp x (fun r s => match r with
      | .ok a => C.wp (f a) P s
      | .error message => P (.error message) s) s) : C.wp (x >>= f) P s := by
  induction x generalizing s with
  | returns a => exact held
  | throws message => exact held
  | await operation resume ih =>
      intro s' company inv input answer s'' performed
      obtain ⟨kept, rest⟩ := held s' company inv input answer s'' performed
      exact ⟨kept, ih answer rest⟩

/-- A sequence, by what is known of its first part. -/
theorem wp_then {f : α → Async ω ρ β} {R : Except String α → σ → Prop}
    {P : Except String β → σ → Prop} (first : C.wp x R s)
    (next : ∀ a s', R (.ok a) s' → C.wp (f a) P s')
    (thrown : ∀ message s', R (.error message) s' → P (.error message) s') :
    C.wp (x >>= f) P s :=
  wp_bind (wp_mono (fun r s' here => by
    cases r with
    | ok a => exact next a s' here
    | error message => exact thrown message s' here) first)

/-- **A handler**: it starts where the function throws. -/
theorem wp_catch {h : String → Async ω ρ α}
    (held : C.wp x (fun r s => match r with
      | .ok a => Q (.ok a) s
      | .error message => C.wp (h message) Q s) s) : C.wp (tryCatch x h) Q s := by
  induction x generalizing s with
  | returns a => exact held
  | throws message => exact held
  | await operation resume ih =>
      intro s' company inv input answer s'' performed
      obtain ⟨kept, rest⟩ := held s' company inv input answer s'' performed
      exact ⟨kept, ih answer rest⟩

/-- A cleanup starts where the function throws, and its own error goes first. -/
theorem wp_onError {cleanup : Async ω ρ β}
    (held : C.wp x (fun r s => match r with
      | .ok a => Q (.ok a) s
      | .error message => C.wp cleanup (fun r s => match r with
          | .ok _ => Q (.error message) s
          | .error later => Q (.error later) s) s) s) : C.wp (x.onError cleanup) Q s := by
  refine wp_catch (wp_mono (fun r s here => ?_) held)
  cases r with
  | ok a => exact here
  | error message =>
      refine wp_bind (wp_mono (fun r s here => ?_) here)
      cases r with
      | ok b => exact here
      | error later => exact here

theorem wp_quietly {Q : Except String Unit → σ → Prop} (held : C.wp x (fun _ s => Q (.ok ()) s) s) :
    C.wp x.quietly Q s := by
  refine wp_catch (wp_bind (wp_mono (fun r s here => ?_) held))
  cases r <;> exact here

theorem wp_attempt {Q : Except String (Except String α) → σ → Prop}
    (held : C.wp x (fun r s => Q (.ok r) s) s) : C.wp x.attempt Q s := by
  refine wp_catch (wp_bind (wp_mono (fun r s here => ?_) held))
  cases r <;> exact here

theorem wp_rethrow {r : Except String α} (held : Q r s) : C.wp (Async.rethrow r) Q s := by
  cases r <;> exact held

/-- A cleanup keeps what the function ended in. -/
theorem wp_afterwards {cleanup : Async ω ρ β}
    (held : C.wp x (fun r s => C.wp cleanup (fun _ s => Q r s) s) s) :
    C.wp (x.afterwards cleanup) Q s := by
  refine wp_bind (wp_attempt (wp_mono (fun r s here => ?_) held))
  exact wp_bind (wp_quietly (wp_mono (fun _ s ended => wp_rethrow ended) here))

theorem wp_require {held : Prop} [Decidable held] {message : String}
    {Q : Except String Unit → σ → Prop} (met : held → Q (.ok ()) s)
    (unmet : ¬ held → Q (.error message) s) : C.wp (Async.require held message) Q s := by
  unfold Async.require
  split
  · exact met ‹_›
  · exact unmet ‹_›

/-- **One await**: others act, and then the operation does. -/
theorem wp_call {operation : ω} {Q : Except String (ρ operation) → σ → Prop}
    (held : ∀ s', C.rely s s' → C.inv s' → ∀ input answer s'',
      C.perform operation s' input = some (answer, s'') → C.inv s'' ∧ Q answer s'') :
    C.wp (Async.call operation) Q s := by
  intro s' company inv input answer s'' performed
  obtain ⟨kept, rest⟩ := held s' company inv input answer s'' performed
  cases answer <;> exact ⟨kept, rest⟩

/-- Nobody else acts. -/
def alone (act : (operation : ω) → σ → ι → Except String (ρ operation) × σ) : Company ω ρ σ ι where
  perform operation s input := some (act operation s input)
  rely := Eq
  inv _ := True
  refl := Eq.refl
  trans := Eq.trans

section Alone

variable {act : (operation : ω) → σ → ι → Except String (ρ operation) × σ}

theorem wp_act {operation : ω} {Q : Except String (ρ operation) → σ → Prop}
    (held : ∀ input, Q (act operation s input).1 (act operation s input).2) :
    (alone act).wp (Async.call operation) Q s := by
  refine wp_call fun s' here _ input answer s'' performed => ⟨trivial, ?_⟩
  cases here
  obtain ⟨same, same'⟩ := Prod.mk.inj (Option.some.inj performed)
  rw [← same, ← same']
  exact held input

/-- **The end of a run** is what the function ends in. -/
theorem wp_run {Q : Except String α → σ → Prop} (inputs : Nat → ι) :
    ∀ (x : Async ω ρ α) (s : σ) (n : Nat), (alone act).wp x Q s →
      Q (x.run act s inputs n).1 (x.run act s inputs n).2 := by
  intro x
  induction x with
  | returns a => exact fun s n held => held
  | throws message => exact fun s n held => held
  | await operation resume ih =>
      intro s n held
      exact ih _ _ _ (held s rfl trivial (inputs n) _ _ rfl).2

end Alone

end Company

end Kiagent.Theory
