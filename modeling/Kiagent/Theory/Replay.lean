/-
# Theory.Replay -- writes that skip what is already there

An item carries a tag.  Applying it to a state that already carries this tag
does nothing; otherwise it overwrites the state, and the state then carries the
tag.  An overwrite keeps nothing of an earlier overwrite.

A run applies a list of items in order.  A state that already holds a run of
some prefix is not told apart from the state before it by a run of the whole
list: `run_absorbs`.
-/
import Mathlib.Data.List.Basic

namespace Kiagent.Theory

set_option autoImplicit false

variable {ι σ τ : Type}

/-- Items that overwrite a state unless their tag is already there. -/
structure Overwrite (ι σ τ : Type) where
  tag : ι → τ
  key : σ → Option τ
  write : ι → σ → σ
  key_write : ∀ i x, key (write i x) = some (tag i)
  write_write : ∀ i j x, write i (write j x) = write i x

namespace Overwrite

variable [DecidableEq τ] (W : Overwrite ι σ τ)

def step (x : σ) (i : ι) : σ := if W.key x = some (W.tag i) then x else W.write i x

def run (is : List ι) (x : σ) : σ := is.foldl W.step x

/-- No overwrite tells the two states apart. -/
def Alike (x y : σ) : Prop := W.key x = W.key y ∧ ∀ i, W.write i x = W.write i y

@[simp] theorem run_nil (x : σ) : W.run [] x = x := rfl

@[simp] theorem run_cons (i : ι) (is : List ι) (x : σ) :
    W.run (i :: is) x = W.run is (W.step x i) := rfl

theorem run_append (is js : List ι) (x : σ) : W.run (is ++ js) x = W.run js (W.run is x) :=
  List.foldl_append

theorem step_of_key {x : σ} {i : ι} (there : W.key x = some (W.tag i)) : W.step x i = x := by
  rw [step, if_pos there]

theorem step_of_ne {x : σ} {i : ι} (other : W.key x ≠ some (W.tag i)) :
    W.step x i = W.write i x := by
  rw [step, if_neg other]

theorem key_step (x : σ) (i : ι) : W.key (W.step x i) = some (W.tag i) := by
  by_cases there : W.key x = some (W.tag i)
  · rw [W.step_of_key there, there]
  · rw [W.step_of_ne there, W.key_write]

/-- A run leaves the tag of its last item. -/
theorem key_run {is : List ι} {i : ι} (last : is.getLast? = some i) (x : σ) :
    W.key (W.run is x) = some (W.tag i) := by
  obtain ⟨init, rfl⟩ := List.getLast?_eq_some_iff.1 last
  rw [W.run_append, run_cons, run_nil, W.key_step]

/-- A step leaves no trace under a later overwrite. -/
theorem write_step (i j : ι) (x : σ) : W.write i (W.step x j) = W.write i x := by
  by_cases there : W.key x = some (W.tag j)
  · rw [W.step_of_key there]
  · rw [W.step_of_ne there, W.write_write]

theorem write_run (i : ι) : (is : List ι) → (x : σ) → W.write i (W.run is x) = W.write i x
  | [], x => rfl
  | j :: is, x => by rw [run_cons, write_run i is, W.write_step]

/-- A run of items with the tag the state carries changes nothing. -/
theorem run_of_tags {is : List ι} {x : σ} (tags : ∀ i ∈ is, W.key x = some (W.tag i)) :
    W.run is x = x := by
  induction is with
  | nil => rfl
  | cons i is ih =>
      rw [run_cons, W.step_of_key (tags i List.mem_cons_self)]
      exact ih fun j mem => tags j (List.mem_cons_of_mem _ mem)

/-- Either every item carries the tag of the state, or one overwrites it and
alike states are no longer told apart. -/
theorem run_alike (is : List ι) {x y : σ} (alike : W.Alike x y) :
    (∀ i ∈ is, W.key x = some (W.tag i)) ∨ W.run is x = W.run is y := by
  induction is with
  | nil => exact .inl fun i mem => nomatch mem
  | cons i is ih =>
      by_cases there : W.key x = some (W.tag i)
      · rw [run_cons, run_cons, W.step_of_key there, W.step_of_key (alike.1 ▸ there)]
        rcases ih with tags | same
        · refine .inl fun j mem => ?_
          rcases List.mem_cons.1 mem with rfl | later
          · exact there
          · exact tags j later
        · exact .inr same
      · right
        rw [run_cons, run_cons, W.step_of_ne there, W.step_of_ne (alike.1 ▸ there), alike.2]

/-- **A run of the whole list absorbs an earlier run of a prefix.** -/
theorem run_absorbs (is js : List ι) (x : σ) :
    W.run (is ++ js) (W.run is x) = W.run (is ++ js) x := by
  cases is with
  | nil => rfl
  | cons i is =>
      simp only [List.cons_append, run_cons]
      -- `y` is the state after the first item, `z` the same item on the old run.
      generalize hy : W.step x i = y
      generalize hz : W.step (W.run is y) i = z
      have key_y : W.key y = some (W.tag i) := hy ▸ W.key_step x i
      have key_z : W.key z = some (W.tag i) := hz ▸ W.key_step _ i
      have alike : W.Alike y z :=
        ⟨key_y.trans key_z.symm, fun j => by rw [← hz, W.write_step, W.write_run]⟩
      rcases W.run_alike (is ++ js) alike with tags | same
      · have still : W.run is y = y :=
          W.run_of_tags fun j mem => tags j (List.mem_append_left _ mem)
        rw [← hz, still, W.step_of_key key_y]
      · exact same.symm

end Overwrite

end Kiagent.Theory
