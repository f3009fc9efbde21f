/-
# Inference.Plane -- one front door to the models

Providers come and go, change their model and their readiness, and tasks are routed to them.
A call picks a provider and hands it the request in one turn of the event loop; before that a
background call waits for the lane, and the reply comes any time later.  A remote provider that
fails is replaced by a local one, once.

`Plane` is what the plane and the providers hold between two turns.  Each hand-over is kept with
the plane as it was then.
-/
import Mathlib.Data.List.Basic
import Mathlib.Logic.Function.Basic

namespace Kiagent.Inference

set_option autoImplicit false

/-! ## Providers -/

inductive InferenceKind where
  | complete
  | see
  | read
  | embed
  | hear
  deriving DecidableEq

inductive Lane where
  | interactive
  | background
  deriving DecidableEq

/-- `ref` is the object's identity; `onChange` tells whether it has one. -/
structure InferenceProvider where
  ref : Nat
  id : String
  remote : Bool
  supports : List InferenceKind
  onChange : Bool
  deriving DecidableEq

structure Described where
  generation : Nat
  modelId : String
  providerId : String
  deriving DecidableEq

structure Plane where
  providers : List InferenceProvider
  /-- Those whose `onChange` bumps the generation, once for each registration. -/
  subscribed : List Nat
  routeTable : String → Option String
  laneOpen : Bool
  generation : Nat
  describedAt : InferenceKind × String → Option Described
  /-- `status(task) === 'ready'` -/
  ready : Nat → Option String → Bool
  /-- `describe?.(kind)?.modelId` -/
  describes : Nat → InferenceKind → Option String

inductive Failure where
  | noProvider (kind : InferenceKind)
  | modelChanged (expected actual : Nat) (modelId : String)
  | laneClosed
  | aborted
  | other (message : String)
  deriving DecidableEq

/-- `ModelChangedError`, `LaneClosedError` and `AbortError` are not answered by another
provider. -/
def Failure.isFence : Failure → Bool
  | .modelChanged .. => true
  | .laneClosed => true
  | .aborted => true
  | _ => false

namespace Plane

variable (w : Plane)

def bump : Plane := { w with generation := w.generation + 1, describedAt := fun _ => none }

def modelIdOf (p : InferenceProvider) (kind : InferenceKind) : String :=
  (w.describes p.ref kind).getD p.id

/-- The provider a task is routed to. -/
def routed (task : Option String) : Option InferenceProvider :=
  (task.bind w.routeTable).bind fun id => w.providers.find? fun x => x.id = id

/-- The first ready local provider of the kind. -/
def firstLocal (kind : InferenceKind) : Option InferenceProvider :=
  w.providers.find? fun x => !x.remote && x.supports.contains kind && w.ready x.ref none

def pick (kind : InferenceKind) (task : Option String) : Option InferenceProvider :=
  match w.routed task with
  | some r => if r.supports.contains kind && w.ready r.ref task then some r else w.firstLocal kind
  | none => w.firstLocal kind

def checkGeneration (p : InferenceProvider) (kind : InferenceKind) (expected : Option Nat) :
    Option Failure :=
  match expected with
  | none => none
  | some g =>
      if g = w.generation then none
      else some (.modelChanged g w.generation (w.modelIdOf p kind))

def describedKey (kind : InferenceKind) (task : Option String) : InferenceKind × String :=
  (kind, task.getD "")

/-- What is recorded for this provider, and else what it names now. -/
def expectModelId (p : InferenceProvider) (kind : InferenceKind) (task : Option String)
    (expected : Option Nat) : Option String :=
  expected.map fun g =>
    match w.describedAt (describedKey kind task) with
    | some recorded =>
        if recorded.generation = g ∧ recorded.providerId = p.id then recorded.modelId
        else w.modelIdOf p kind
    | none => w.modelIdOf p kind

/-- The first to describe a kind at a generation is recorded. -/
def describe (kind : InferenceKind) (task : Option String) : Plane :=
  match w.pick kind task with
  | none => w
  | some p =>
      if (w.describedAt (describedKey kind task)).isSome then w
      else
        { w with
          describedAt := Function.update w.describedAt (describedKey kind task)
            (some ⟨w.generation, w.modelIdOf p kind, p.id⟩) }

def register (p : InferenceProvider) : Plane :=
  let added := { w with providers := w.providers ++ [p] }
  let bumped := if w.providers = [] then added else added.bump
  if p.onChange then { bumped with subscribed := p.ref :: bumped.subscribed } else bumped

/-- The function that `register` returned. -/
def unregister (p : InferenceProvider) : Plane :=
  bump { w with
    providers := w.providers.erase p
    subscribed := w.subscribed.erase p.ref
    routeTable := fun task => if w.routeTable task = some p.id then none else w.routeTable task }

def setRoute (task : String) (providerId : Option String) : Plane :=
  { w with routeTable := Function.update w.routeTable task providerId }

/-- The provider serves another model, and tells those that listen. -/
def changeModel (ref : Nat) (kind : InferenceKind) (modelId : Option String) : Plane :=
  let models := Function.update (w.describes ref) kind modelId
  Nat.repeat bump (w.subscribed.count ref)
    { w with describes := Function.update w.describes ref models }

def changeStatus (ref : Nat) (task : Option String) (ready : Bool) : Plane :=
  let answers := Function.update (w.ready ref) task ready
  { w with ready := Function.update w.ready ref answers }

end Plane

/-! ## Calls -/

inductive CompletionProfile where
  | default
  | deterministic
  deriving DecidableEq

/-- What a caller asks for.  The rest of the options is handed to the provider unread. -/
structure CallOptions where
  kind : InferenceKind
  prompt : String
  lane : Lane
  profile : CompletionProfile
  task : Option String
  generation : Option Nat
  deriving DecidableEq

/-- What a provider is handed. -/
structure Request where
  kind : InferenceKind
  prompt : String
  lane : Lane
  profile : CompletionProfile
  generation : Option Nat
  expectModelId : Option String
  task : Option String
  deriving DecidableEq

/-- `coerced` is what `String(raw)` gives. -/
inductive Raw where
  | plain (text : String)
  | rich (text : Option String) (promptTokens completionTokens : Option Nat)
      (truncated : Option Bool) (coerced : String)

structure Normalized where
  text : String
  promptTokens : Option Nat
  completionTokens : Option Nat
  truncated : Bool

def normalizeCompletion : Raw → Normalized
  | .plain text => ⟨text, none, none, false⟩
  | .rich text promptTokens completionTokens truncated coerced =>
      ⟨text.getD coerced, promptTokens, completionTokens, truncated.getD false⟩

/-- Completions and descriptions of images follow a route; the rest is local. -/
def InferenceKind.routes : InferenceKind → Bool
  | .complete => true
  | .see => true
  | _ => false

/-- Where a call is between two turns; `retry` after a remote provider failed. -/
inductive Phase where
  | waiting (retry : Bool)
  | admitted (retry : Bool)
  | invoked (retry : Bool) (p : InferenceProvider) (modelId : String)
  | ended

structure Call where
  options : CallOptions
  phase : Phase

/-- A request handed to a provider, and the plane it was handed over in. -/
structure Invocation where
  call : Nat
  options : CallOptions
  provider : InferenceProvider
  request : Request
  world : Plane

/-- What a caller gets, and the plane at that time. -/
structure CompletionMeta where
  call : Nat
  content : Normalized
  providerId : String
  modelId : String
  generation : Nat
  profile : CompletionProfile
  world : Plane

structure State where
  plane : Plane
  calls : Nat → Option Call
  /-- The last one first. -/
  log : List Invocation
  results : List CompletionMeta
  failures : List (Nat × Failure)

namespace State

def setPhase (s : State) (id : Nat) (o : CallOptions) (phase : Phase) : State :=
  { s with calls := Function.update s.calls id (some ⟨o, phase⟩) }

@[simp] theorem setPhase_calls (s : State) (id : Nat) (o : CallOptions) (phase : Phase) :
    (s.setPhase id o phase).calls id = some ⟨o, phase⟩ := Function.update_self ..

theorem setPhase_calls_of_ne (s : State) {id other : Nat} (ne : other ≠ id) (o : CallOptions)
    (phase : Phase) : (s.setPhase id o phase).calls other = s.calls other :=
  Function.update_of_ne ne ..

def fail (s : State) (id : Nat) (o : CallOptions) (error : Failure) : State :=
  { s.setPhase id o .ended with failures := (id, error) :: s.failures }

/-- A provider is picked and handed the request, all in one turn. -/
def attempt (s : State) (id : Nat) (o : CallOptions) (retry : Bool) : State :=
  let task := if retry || !o.kind.routes then none else o.task
  match s.plane.pick o.kind task with
  | none => s.fail id o (.noProvider o.kind)
  | some p =>
      let expected := if o.kind = .complete then o.generation else none
      match s.plane.checkGeneration p o.kind expected with
      | some error => s.fail id o error
      | none =>
          let modelId := s.plane.modelIdOf p o.kind
          let request : Request :=
            { kind := o.kind, prompt := o.prompt, lane := o.lane, profile := o.profile
              generation := expected
              expectModelId := s.plane.expectModelId p o.kind task expected
              task := o.task }
          { s.setPhase id o (.invoked retry p modelId) with
            log := ⟨id, o, p, request, s.plane⟩ :: s.log }

/-- `gate`: an interactive call goes on in the same turn. -/
def gate (s : State) (id : Nat) (o : CallOptions) (retry aborted : Bool) : State :=
  match o.lane with
  | .interactive => s.attempt id o retry
  | .background =>
      if !s.plane.laneOpen then s.fail id o .laneClosed
      else if aborted then s.fail id o .aborted
      else s.setPhase id o (.waiting retry)

/-- The wait for the foreground ends. -/
def idle (s : State) (id : Nat) (aborted : Bool) : State :=
  match s.calls id with
  | some ⟨o, .waiting retry⟩ =>
      if aborted then s.fail id o .aborted
      else if !s.plane.laneOpen then s.fail id o .laneClosed
      else s.setPhase id o (.admitted retry)
  | _ => s

def resume (s : State) (id : Nat) : State :=
  match s.calls id with
  | some ⟨o, .admitted retry⟩ => s.attempt id o retry
  | _ => s

/-- The promise of the provider is settled. -/
def settle (s : State) (id : Nat) (outcome : Except Failure Raw) (aborted : Bool) : State :=
  match s.calls id with
  | some ⟨o, .invoked retry p modelId⟩ =>
      match outcome with
      | .ok raw =>
          { s.setPhase id o .ended with
            results := ⟨id, normalizeCompletion raw, p.id,
              if p.remote then s.plane.modelIdOf p o.kind else modelId, s.plane.generation,
              o.profile, s.plane⟩ :: s.results }
      | .error error =>
          if retry || !o.kind.routes || !p.remote || error.isFence then s.fail id o error
          else s.gate id o true aborted
  | _ => s

def start (s : State) (id : Nat) (o : CallOptions) (aborted : Bool) : State :=
  match s.calls id with
  | none => s.gate id o false aborted
  | some _ => s

end State

/-- One turn: of the providers, of the settings, or of a call. -/
inductive Turn where
  | register (p : InferenceProvider)
  | unregister (p : InferenceProvider)
  | changeModel (ref : Nat) (kind : InferenceKind) (modelId : Option String)
  | changeStatus (ref : Nat) (task : Option String) (ready : Bool)
  | setRoute (task : String) (providerId : Option String)
  | setLane (isOpen : Bool)
  | describe (kind : InferenceKind) (task : Option String)
  | start (id : Nat) (o : CallOptions) (aborted : Bool)
  | idle (id : Nat) (aborted : Bool)
  | resume (id : Nat)
  | settle (id : Nat) (outcome : Except Failure Raw) (aborted : Bool)

def State.turn (s : State) : Turn → State
  | .register p => { s with plane := s.plane.register p }
  | .unregister p => { s with plane := s.plane.unregister p }
  | .changeModel ref kind modelId => { s with plane := s.plane.changeModel ref kind modelId }
  | .changeStatus ref task ready => { s with plane := s.plane.changeStatus ref task ready }
  | .setRoute task providerId => { s with plane := s.plane.setRoute task providerId }
  | .setLane isOpen => { s with plane := { s.plane with laneOpen := isOpen } }
  | .describe kind task => { s with plane := s.plane.describe kind task }
  | .start id o aborted => s.start id o aborted
  | .idle id aborted => s.idle id aborted
  | .resume id => s.resume id
  | .settle id outcome aborted => s.settle id outcome aborted

/-- A new plane; the providers are in any state. -/
def createInference (generationSeed : Nat) (ready : Nat → Option String → Bool)
    (describes : Nat → InferenceKind → Option String) : State where
  plane :=
    { providers := [], subscribed := [], routeTable := fun _ => none, laneOpen := false
      generation := generationSeed, describedAt := fun _ => none, ready, describes }
  calls := fun _ => none
  log := []
  results := []
  failures := []

end Kiagent.Inference
