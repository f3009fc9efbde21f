/-
# Inference.Identity -- a completion names the model that answered it

Whatever happens between two turns, a call is handed to one remote provider at most and one
local one, the remote one only while its task is routed there, and with a generation only
while it is the current one (`Handed`, `Few`).

What is returned names the provider the request was handed to last.  A local provider's model is
the one of that moment; a remote provider's is the one it names when its reply is there, for it
learns it from the call (`completions_named`, `renamed_meanwhile`).
-/
import Kiagent.Inference.Plane
import Kiagent.Theory.Runs

namespace Kiagent.Inference

open Theory

set_option autoImplicit false

/-! ## What holds of a call -/

/-- What holds when a provider is handed a request. -/
structure Handed (inv : Invocation) : Prop where
  current : ∀ g, inv.options.kind = .complete → inv.options.generation = some g →
    inv.world.generation = g
  routed : inv.provider.remote = true → ∃ task, inv.options.task = some task ∧
    inv.world.routeTable task = some inv.provider.id ∧ inv.provider ∈ inv.world.providers

/-- One remote provider at most, and one local one. -/
structure Few (log : List Invocation) : Prop where
  remote : log.countP (fun inv => inv.provider.remote) ≤ 1
  localOnes : log.countP (fun inv => !inv.provider.remote) ≤ 1

theorem few_one (inv : Invocation) : Few [inv] := by
  constructor <;> cases remote : inv.provider.remote <;> simp [remote]

/-- The provider of a call that awaits its reply is the last one it was handed to. -/
structure Awaits (c : Call) (p : InferenceProvider) (modelId : String) (inv : Invocation) :
    Prop where
  options : inv.options = c.options
  provider : inv.provider = p
  named : modelId = inv.world.modelIdOf p c.options.kind

/-- The hand-overs of a call so far, by its phase. -/
def PhaseOk (c : Call) (log : List Invocation) : Prop :=
  match c.phase with
  | .waiting false => log = []
  | .admitted false => log = []
  | .waiting true => ∃ inv, log = [inv] ∧ inv.provider.remote = true
  | .admitted true => ∃ inv, log = [inv] ∧ inv.provider.remote = true
  | .invoked false p modelId => ∃ inv, log = [inv] ∧ Awaits c p modelId inv
  | .invoked true p modelId => ∃ inv first, log = [inv, first] ∧ Awaits c p modelId inv ∧
      p.remote = false ∧ first.provider.remote = true
  | .ended => Few log

/-- A result names the provider of a hand-over, and its model. -/
structure Names (r : CompletionMeta) (inv : Invocation) : Prop where
  provider : r.providerId = inv.provider.id
  model : r.modelId = if inv.provider.remote then
      r.world.modelIdOf inv.provider inv.options.kind
    else inv.world.modelIdOf inv.provider inv.options.kind

namespace State

def callLog (s : State) (id : Nat) : List Invocation := s.log.filter fun inv => inv.call = id

/-- The call has not ended. -/
def Running (s : State) (id : Nat) : Prop := ∀ c, s.calls id = some c → c.phase ≠ .ended

structure Sound (s : State) : Prop where
  handed : ∀ inv ∈ s.log, Handed inv
  calls : ∀ id c, s.calls id = some c → PhaseOk c (s.callLog id)
  fresh : ∀ id, s.calls id = none → s.callLog id = []
  named : ∀ r ∈ s.results, ¬ s.Running r.call ∧
    ∃ inv, (s.callLog r.call).head? = some inv ∧ Names r inv

variable {s : State} {id : Nat} {o : CallOptions}

/-! ## What a turn keeps -/

theorem Sound.withPlane (held : s.Sound) (w : Plane) : Sound { s with plane := w } :=
  { handed := held.handed, calls := held.calls, fresh := held.fresh, named := held.named }

theorem Sound.setPhase (held : s.Sound) (running : s.Running id) {phase : Phase}
    (ok : PhaseOk ⟨o, phase⟩ (s.callLog id)) : (s.setPhase id o phase).Sound where
  handed := held.handed
  calls id' c here := by
    by_cases same : id' = id
    · subst same
      rw [setPhase_calls] at here
      cases here
      exact ok
    · rw [setPhase_calls_of_ne s same] at here
      exact held.calls id' c here
  fresh id' none := by
    by_cases same : id' = id
    · subst same
      rw [setPhase_calls] at none
      cases none
    · rw [setPhase_calls_of_ne s same] at none
      exact held.fresh id' none
  named r member := by
    obtain ⟨ended, named⟩ := held.named r member
    have other : r.call ≠ id := fun same => ended (same ▸ running)
    refine ⟨fun still => ended fun c here => still c ?_, named⟩
    rw [setPhase_calls_of_ne s other]
    exact here

theorem Sound.fail (held : s.Sound) (running : s.Running id) (few : Few (s.callLog id))
    (error : Failure) : (s.fail id o error).Sound := by
  have kept : (s.setPhase id o .ended).Sound := held.setPhase running few
  exact { handed := kept.handed, calls := kept.calls, fresh := kept.fresh, named := kept.named }

/-! ## Handing over -/

theorem firstLocal_local {w : Plane} {kind : InferenceKind} {p : InferenceProvider}
    (found : w.firstLocal kind = some p) : p.remote = false := by
  have here := List.find?_some found
  simp only [Bool.and_eq_true, Bool.not_eq_true'] at here
  exact here.1.1

/-- A provider that is picked is local, or the task is routed to it. -/
theorem pick_spec {w : Plane} {kind : InferenceKind} {task : Option String}
    {p : InferenceProvider} (picked : w.pick kind task = some p) :
    p.remote = false ∨ ∃ t, task = some t ∧ w.routeTable t = some p.id ∧ p ∈ w.providers := by
  unfold Plane.pick at picked
  cases route : w.routed task with
  | none =>
      rw [route] at picked
      exact Or.inl (firstLocal_local picked)
  | some r =>
      rw [route] at picked
      dsimp only at picked
      split at picked
      · cases picked
        obtain ⟨id, target, found⟩ := Option.bind_eq_some_iff.mp route
        obtain ⟨t, asked, routes⟩ := Option.bind_eq_some_iff.mp target
        have same : p.id = id := by simpa using List.find?_some found
        exact Or.inr ⟨t, asked, same ▸ routes, List.mem_of_find?_eq_some found⟩
      · exact Or.inl (firstLocal_local picked)

theorem checkGeneration_passed {w : Plane} {p : InferenceProvider} {kind : InferenceKind}
    {g : Nat} (passed : w.checkGeneration p kind (some g) = none) : w.generation = g := by
  unfold Plane.checkGeneration at passed
  dsimp only at passed
  split at passed
  · exact Eq.symm ‹_›
  · cases passed

/-- The log before a provider is picked. -/
def Untried (s : State) (id : Nat) (retry : Bool) : Prop :=
  match retry with
  | false => s.callLog id = []
  | true => ∃ inv, s.callLog id = [inv] ∧ inv.provider.remote = true

theorem Untried.few {retry : Bool} (untried : s.Untried id retry) : Few (s.callLog id) := by
  unfold Untried at untried
  cases retry with
  | false =>
      rw [untried]
      exact ⟨by simp, by simp⟩
  | true =>
      obtain ⟨inv, one, -⟩ := untried
      rw [one]
      exact few_one inv

/-- A hand-over is logged, and its call awaits the reply. -/
theorem Sound.hand (held : s.Sound) (running : s.Running id) {inv : Invocation}
    (own : inv.call = id) (handed : Handed inv) {phase : Phase}
    (ok : PhaseOk ⟨o, phase⟩ (inv :: s.callLog id)) :
    Sound { s.setPhase id o phase with log := inv :: s.log } := by
  have mine : ({ s.setPhase id o phase with log := inv :: s.log } : State).callLog id =
      inv :: s.callLog id := List.filter_cons_of_pos (by simpa using own)
  have others : ∀ {other}, other ≠ id →
      ({ s.setPhase id o phase with log := inv :: s.log } : State).callLog other =
        s.callLog other := fun {other} ne =>
    List.filter_cons_of_neg (by simpa [own] using ne.symm)
  refine { handed := ?_, calls := ?_, fresh := ?_, named := ?_ }
  · rintro inv' member
    rcases List.mem_cons.mp member with rfl | old
    · exact handed
    · exact held.handed inv' old
  · intro other c here
    by_cases same : other = id
    · subst same
      rw [show _ = _ from setPhase_calls s other o phase] at here
      cases here
      rw [mine]
      exact ok
    · rw [show _ = _ from setPhase_calls_of_ne s same o phase] at here
      rw [others same]
      exact held.calls other c here
  · intro other none
    by_cases same : other = id
    · subst same
      rw [show _ = _ from setPhase_calls s other o phase] at none
      cases none
    · rw [show _ = _ from setPhase_calls_of_ne s same o phase] at none
      rw [others same]
      exact held.fresh other none
  · intro r member
    obtain ⟨ended, named⟩ := held.named r member
    have other : r.call ≠ id := fun same => ended (same ▸ running)
    rw [others other]
    refine ⟨fun still => ended fun c here => still c ?_, named⟩
    rw [show _ = _ from setPhase_calls_of_ne s other o phase]
    exact here

theorem Sound.attempt (held : s.Sound) (running : s.Running id) {retry : Bool}
    (untried : s.Untried id retry) : (s.attempt id o retry).Sound := by
  unfold State.attempt
  dsimp only
  cases picked : s.plane.pick o.kind (if retry || !o.kind.routes then none else o.task) with
  | none => exact held.fail running untried.few _
  | some p =>
      dsimp only
      cases checked : s.plane.checkGeneration p o.kind
          (if o.kind = .complete then o.generation else none) with
      | some error => exact held.fail running untried.few _
      | none =>
          have routed := pick_spec picked
          refine held.hand running rfl ⟨fun g complete cited => ?_, fun remote => ?_⟩ ?_
          · rw [if_pos complete, show o.generation = some g from cited] at checked
            exact checkGeneration_passed checked
          · rcases routed with isLocal | ⟨t, asked, routes, known⟩
            · rw [isLocal] at remote
              cases remote
            · refine ⟨t, ?_, routes, known⟩
              split at asked
              · cases asked
              · exact asked
          · cases retry with
            | false =>
                rw [show s.callLog id = [] from untried]
                exact ⟨_, rfl, ⟨rfl, rfl, rfl⟩⟩
            | true =>
                obtain ⟨first, one, remote⟩ := untried
                rw [one]
                refine ⟨_, first, rfl, ⟨rfl, rfl, rfl⟩, ?_, remote⟩
                rcases routed with isLocal | ⟨t, asked, -, -⟩
                · exact isLocal
                · cases asked

/-! ## Turns -/

theorem Sound.gate (held : s.Sound) (running : s.Running id) {retry : Bool}
    (untried : s.Untried id retry) (aborted : Bool) : (s.gate id o retry aborted).Sound := by
  unfold State.gate
  cases o.lane with
  | interactive => exact held.attempt running untried
  | background =>
      dsimp only
      split
      · exact held.fail running untried.few _
      · split
        · exact held.fail running untried.few _
        · refine held.setPhase running ?_
          cases retry <;> exact untried

theorem running_of {c : Call} (here : s.calls id = some c) (going : c.phase ≠ .ended) :
    s.Running id := fun c' here' => by
  cases here.symm.trans here'
  exact going

theorem Sound.idle (held : s.Sound) (id : Nat) (aborted : Bool) : (s.idle id aborted).Sound := by
  unfold State.idle
  split
  · rename_i o retry here
    have running := running_of here nofun
    have untried : s.Untried id retry := by
      cases retry <;> exact held.calls id _ here
    split
    · exact held.fail running untried.few _
    · split
      · exact held.fail running untried.few _
      · refine held.setPhase running ?_
        cases retry <;> exact untried
  · exact held

theorem Sound.resume (held : s.Sound) (id : Nat) : (s.resume id).Sound := by
  unfold State.resume
  split
  · rename_i o retry here
    refine held.attempt (running_of here nofun) ?_
    cases retry <;> exact held.calls id _ here
  · exact held

theorem Sound.start (held : s.Sound) (id : Nat) (o : CallOptions) (aborted : Bool) :
    (s.start id o aborted).Sound := by
  unfold State.start
  cases here : s.calls id with
  | none =>
      refine held.gate (fun c there => ?_) (show s.Untried id false from held.fresh id here) _
      rw [here] at there
      cases there
  | some c => exact held

/-- The last hand-over of a call that awaits its reply, and what may still follow. -/
theorem Sound.awaits (held : s.Sound) {retry : Bool} {p : InferenceProvider} {modelId : String}
    (here : s.calls id = some ⟨o, .invoked retry p modelId⟩) :
    (∃ inv, (s.callLog id).head? = some inv ∧ Awaits ⟨o, .invoked retry p modelId⟩ p modelId inv) ∧
      Few (s.callLog id) ∧ (retry = false → p.remote = true → s.Untried id true) := by
  have ok := held.calls id _ here
  cases retry with
  | false =>
      obtain ⟨inv, one, awaits⟩ := ok
      rw [one]
      exact ⟨⟨inv, rfl, awaits⟩, few_one inv, fun _ remote => ⟨inv, one, awaits.provider ▸ remote⟩⟩
  | true =>
      obtain ⟨inv, first, two, awaits, isLocal, remote⟩ := ok
      have other : inv.provider.remote = false := awaits.provider ▸ isLocal
      rw [two]
      exact ⟨⟨inv, rfl, awaits⟩, ⟨by simp [other, remote], by simp [other, remote]⟩, nofun⟩

theorem Sound.few (held : s.Sound) (id : Nat) : Few (s.callLog id) := by
  cases here : s.calls id with
  | none =>
      rw [held.fresh id here]
      exact ⟨by simp, by simp⟩
  | some c =>
      obtain ⟨o, phase⟩ := c
      have ok := held.calls id _ here
      cases phase with
      | waiting retry => exact Untried.few (show s.Untried id retry by cases retry <;> exact ok)
      | admitted retry => exact Untried.few (show s.Untried id retry by cases retry <;> exact ok)
      | invoked retry p modelId => exact (held.awaits here).2.1
      | ended => exact ok

theorem Sound.settle (held : s.Sound) (id : Nat) (outcome : Except Failure Raw)
    (aborted : Bool) : (s.settle id outcome aborted).Sound := by
  unfold State.settle
  split
  · rename_i o retry p modelId here
    have running := running_of here nofun
    obtain ⟨⟨inv, last, awaits⟩, few, again⟩ := held.awaits here
    cases outcome with
    | error error =>
        dsimp only
        split
        · exact held.fail running few _
        · rename_i more
          simp only [Bool.or_eq_true, Bool.not_eq_true', not_or, Bool.not_eq_true,
            Bool.not_eq_false] at more
          exact held.gate running (again more.1.1.1 more.1.2) aborted
    | ok raw =>
        have ended : (s.setPhase id o .ended).Sound := held.setPhase running few
        refine { handed := ended.handed, calls := ended.calls, fresh := ended.fresh, named := ?_ }
        intro r member
        rcases List.mem_cons.mp member with rfl | old
        · refine ⟨fun still => still _ (setPhase_calls s id o .ended) rfl, inv, last, ?_, ?_⟩
          · rw [awaits.provider]
          · rw [awaits.provider, awaits.options, ← awaits.named]
        · exact ended.named r old
  · exact held

theorem Sound.turn (held : s.Sound) (t : Turn) : (s.turn t).Sound := by
  cases t with
  | register | unregister | changeModel | changeStatus | setRoute | setLane | describe =>
      exact held.withPlane _
  | start id o aborted => exact held.start id o aborted
  | idle id aborted => exact held.idle id aborted
  | resume id => exact held.resume id
  | settle id outcome aborted => exact held.settle id outcome aborted

end State

/-! ## Completions -/

theorem createInference_sound (generationSeed : Nat) (ready : Nat → Option String → Bool)
    (describes : Nat → InferenceKind → Option String) :
    (createInference generationSeed ready describes).Sound where
  handed _ member := absurd member List.not_mem_nil
  calls _ _ here := by cases here
  fresh _ _ := rfl
  named _ member := absurd member List.not_mem_nil

/-- **What is returned names the provider that was asked last**: a local one with the model it
had then, a remote one with the model it names when it has answered.  A provider is handed a
generation only while it is current, a remote one only what is routed to it then; and a call
is handed to one remote provider at most and one local one. -/
theorem completions_named (generationSeed : Nat) (ready : Nat → Option String → Bool)
    (describes : Nat → InferenceKind → Option String) (turns : List Turn) :
    let s := turns.foldl State.turn (createInference generationSeed ready describes)
    (∀ r ∈ s.results, ∃ inv, (s.callLog r.call).head? = some inv ∧ Names r inv) ∧
      (∀ inv ∈ s.log, Handed inv) ∧ ∀ id, Few (s.callLog id) := by
  have keeps : ∀ (s : State) (t : Turn), s.Sound → True → (s.turn t).Sound :=
    fun s t held _ => held.turn t
  have first := createInference_sound generationSeed ready describes
  have sound : (turns.foldl State.turn (createInference generationSeed ready describes)).Sound :=
    @fold_keeps State Turn State.turn (fun _ _ => True) State.Sound keeps turns _ first
      (Along.of_all (fun _ _ => trivial) turns _)
  exact ⟨fun r member => (sound.named r member).2, sound.handed, sound.few⟩

/-! ## A model that changes meanwhile -/

def macStudio : InferenceProvider := ⟨1, "lan:mac-studio", true, [.complete], true⟩

def asked : CallOptions := ⟨.complete, "hello", .interactive, .default, some "summaries", none⟩

/-- A routed call, and another model before the reply. -/
def switching : List Turn :=
  [.register macStudio, .setRoute "summaries" (some "lan:mac-studio"), .start 0 asked false,
    .changeModel 1 .complete (some "new"), .settle 0 (.ok (.plain "hi")) false]

def switched : State :=
  switching.foldl State.turn (createInference 7 (fun _ _ => true) fun _ _ => some "old")

/-- The reply names the new model and the new generation. -/
theorem renamed_meanwhile :
    switched.results.map (fun r => (r.content.text, r.providerId, r.modelId, r.generation)) =
        [("hi", "lan:mac-studio", "new", 8)] ∧
      (switched.callLog 0).map (fun inv =>
        (inv.provider.id, inv.world.modelIdOf inv.provider .complete, inv.world.generation)) =
        [("lan:mac-studio", "old", 7)] := by
  decide +kernel

end Kiagent.Inference
