/-
# Engine.AccountConfig -- three writers of one account's configuration

`updateConfig` reads the account, completes the caller's configuration with the
scope keys it read, and writes the whole column; `setOption` changes one option
inside the store's transaction; `applyScope` writes a whole configuration that the
store compares with the snapshot it was made from.  The engine asks whether a
transition or a flow holds the account only when an operation begins.

* `scope_overwritten` -- a scope stored between the read and the write of an
  `updateConfig` is taken back, and both operations report success;
* `config_updates_kept` -- in every run in which the scope keys an `updateConfig`
  completes with are still the stored ones when it writes, the stored configuration
  is what the stored operations make of it one after the other, and each reported
  success is one of them.
-/
import Kiagent.Theory.Runs

namespace Kiagent.Engine.AccountConfiguration

open Kiagent.Theory

set_option autoImplicit false

/-! ## Configurations -/

structure FolderRoot where
  id : String
  name : String
  deriving DecidableEq

/-- A value of a configuration: the arrays and the object core looks into, and any
other JSON by its text. -/
inductive ConfigValue where
  | folderRoots (roots : List FolderRoot)
  /-- `\x7b rootFolderId, rootName \x7d`, for the connectors that read `roots`. -/
  | legacyRoots (roots : List FolderRoot)
  | paths (ids : List String)
  /-- An object; a value that is no boolean counts as none. -/
  | options (values : List (String × Option Bool))
  | other (json : String)
  deriving DecidableEq

/-- A plain object: its own keys, in the order they were put in. -/
abbrev Config := List (String × ConfigValue)

namespace Config

def hasOwn (c : Config) (key : String) : Bool := c.any fun e => e.1 = key

def get? (c : Config) (key : String) : Option ConfigValue :=
  (c.find? fun e => e.1 = key).map Prod.snd

/-- `c[key] = value`: in place, or at the end. -/
def set (c : Config) (key : String) (value : ConfigValue) : Config :=
  if c.hasOwn key then c.map fun e => if e.1 = key then (key, value) else e else c ++ [(key, value)]

/-- Both spread into one object, the second over the first. -/
def spread (c d : Config) : Config := d.foldl (fun c e => c.set e.1 e.2) c

def without (c : Config) (key : String) : Config := c.filter fun e => e.1 ≠ key

end Config

def scopeKeys : List String := ["folderRoots", "roots", "paths"]

def pickScopeKeys (config : Config) : Config :=
  scopeKeys.filterMap fun key => (config.get? key).map fun value => (key, value)

/-- `options` belongs to the option write alone: any other keeps the row's. -/
def keepOptions (row next : Config) : Config :=
  let rest := next.without "options"
  match row.get? "options" with
  | some (.options values) => rest.set "options" (.options values)
  | _ => rest

/-- The keys an older connector reads the roots under. -/
def withLegacyMirror (source : String) (config : Config) : Config :=
  match config.get? "folderRoots" with
  | some (.folderRoots roots) =>
      if source = "local-folder" then config.set "paths" (.paths (roots.map FolderRoot.id))
      else if source = "google-docs" ∨ source = "onedrive" then
        config.set "roots" (.legacyRoots roots)
      else config
  | _ => config

/-- The options a source declares, each with its default. -/
abbrev Declared := List (String × Bool)

def storedOptions (config : Config) : List (String × Option Bool) :=
  match config.get? "options" with
  | some (.options values) => values
  | _ => []

/-- The stored boolean, else the declared default; none for an undeclared key. -/
def optionValue (declared : Declared) (config : Config) (key : String) : Option Bool :=
  (declared.find? fun o => o.1 = key).map fun o =>
    match (storedOptions config).find? fun v => v.1 = key with
    | some (_, some stored) => stored
    | _ => o.2

/-! ## What each operation makes of the stored configuration -/

def setOptionValue (values : List (String × Option Bool)) (key : String) (value : Bool) :
    List (String × Option Bool) :=
  if values.any fun v => v.1 = key then
    values.map fun v => if v.1 = key then (key, some value) else v
  else values ++ [(key, some value)]

/-- The option write: a read and a write in one transaction. -/
def writeOption (config : Config) (key : String) (value : Bool) : Config :=
  config.set "options" (.options (setOptionValue (storedOptions config) key value))

/-- `updateConfig` completes a payload with the scope keys of a scoped account. -/
def completed (existing payload : Config) : Config :=
  if existing.hasOwn "folderRoots" then payload.spread (pickScopeKeys existing) else payload

inductive ConfigOp where
  | scope (config expected : Config)
  | config (payload : Config)
  | option (key : String) (value : Bool)

/-- The operation on the configuration that is stored when it writes. -/
def ConfigOp.effect (source : String) (stored : Config) : ConfigOp → Config
  | .scope update _ => withLegacyMirror source (keepOptions stored update)
  | .config payload => keepOptions stored (completed stored payload)
  | .option key value => writeOption stored key value

/-! ## Operations in flight -/

inductive ConfigPoint where
  /-- Stopping the account's loop. -/
  | stopping
  /-- The read of the account is on its way. -/
  | reading
  /-- The write is on its way; `existing` is the configuration that was read. -/
  | writing (existing : Config)
  /-- The write's answer is on its way. -/
  | written (stale : Bool)
  /-- `applyScope` reads the account it restarts. -/
  | restarting
  | succeeded
  | failed
  deriving DecidableEq

structure ConfigFlow where
  op : ConfigOp
  point : ConfigPoint

inductive ConfigEvent where
  | stored (op : ConfigOp)
  /-- `setOption` found the value already in effect. -/
  | confirmed (key : String) (value : Bool)
  | reported (op : ConfigOp)

structure AccountConfig where
  source : String
  declared : Declared
  /-- The account row's column. -/
  config : Config
  /-- `activeByAccount`: the flow that holds the account. -/
  heldBy : Option String
  /-- `transitionIntents` has the account. -/
  transition : Bool
  flows : List ConfigFlow
  history : List ConfigEvent

inductive ConfigAct where
  | claimAccountFlow (flow : String)
  | releaseAccountFlow (flow : String)
  | reconnecting (transition : Bool)
  | applyScope (config expected : Config)
  | updateConfig (payload : Config)
  | setOption (key : String) (value : Bool)
  /-- The next stretch of an operation. -/
  | advance (i : Nat)
  /-- What an operation awaits fails, or its answer is lost. -/
  | fail (i : Nat)

/-- Where a call of the engine begins, or that it throws at once. -/
def entry (s : AccountConfig) : ConfigOp → ConfigPoint
  | .scope update _ =>
      match update.get? "folderRoots" with
      | some (.folderRoots (_ :: _)) => .stopping
      | _ => .failed
  | .config payload =>
      if s.heldBy.isSome ∨ s.transition ∨ payload.hasOwn "folderRoots" ∨ payload.hasOwn "options" then
        .failed
      else .reading
  | .option _ _ => if s.heldBy.isSome ∨ s.transition then .failed else .reading

def begin (s : AccountConfig) (op : ConfigOp) : AccountConfig :=
  let point := entry s op
  let transition := match op with
    | .scope _ _ => s.transition || decide (point = .stopping)
    | _ => s.transition
  { s with transition, flows := s.flows ++ [⟨op, point⟩] }

/-- The flow at `i` moves on. -/
def AccountConfig.at (s : AccountConfig) (i : Nat) (op : ConfigOp) (point : ConfigPoint) :
    AccountConfig :=
  { s with flows := s.flows.set i ⟨op, point⟩ }

def AccountConfig.store (s : AccountConfig) (op : ConfigOp) (config : Config) : AccountConfig :=
  { s with config, history := s.history ++ [.stored op] }

def AccountConfig.report (s : AccountConfig) (event : List ConfigEvent) (op : ConfigOp) :
    AccountConfig :=
  { s with history := s.history ++ event ++ [.reported op] }

def advance (s : AccountConfig) (i : Nat) : ConfigOp → ConfigPoint → Option AccountConfig
  | op@(.scope _ _), .stopping => some (s.at i op (.writing s.config))
  | op@(.scope _ expected), .writing _ =>
      -- The compare is inside the transaction.
      if s.config = expected then
        some ((s.store op (op.effect s.source s.config)).at i op (.written false))
      else some (s.at i op (.written true))
  | op@(.scope _ _), .written true => some ({ s with transition := false }.at i op .failed)
  | op@(.scope _ _), .written false => some (s.at i op .restarting)
  | op@(.scope _ _), .restarting =>
      some (({ s with transition := false }.report [] op).at i op .succeeded)
  | op@(.config _), .reading => some (s.at i op (.writing s.config))
  | op@(.config payload), .writing existing =>
      some ((s.store op (keepOptions s.config (completed existing payload))).at i op (.written false))
  | op@(.option key value), .reading =>
      match optionValue s.declared s.config key with
      | none => some (s.at i op .failed)
      | some current =>
          if current = value then some ((s.report [.confirmed key value] op).at i op .succeeded)
          else some (s.at i op (.writing s.config))
  | op@(.option key value), .writing _ =>
      some ((s.store op (writeOption s.config key value)).at i op (.written false))
  | op@(.config _), .written false | op@(.option _ _), .written false =>
      some ((s.report [] op).at i op .succeeded)
  | _, _ => none

def configStep (s : AccountConfig) : ConfigAct → Option AccountConfig
  | .claimAccountFlow flow =>
      if s.heldBy.any (· ≠ flow) then some s else some { s with heldBy := some flow }
  | .releaseAccountFlow flow =>
      if s.heldBy = some flow then some { s with heldBy := none } else some s
  | .reconnecting transition => some { s with transition }
  | .applyScope config expected => some (begin s (.scope config expected))
  | .updateConfig payload => some (begin s (.config payload))
  | .setOption key value => some (begin s (.option key value))
  | .advance i => (s.flows[i]?).bind fun flow => advance s i flow.op flow.point
  | .fail i =>
      match s.flows[i]? with
      | some ⟨_, .succeeded⟩ | some ⟨_, .failed⟩ | none => none
      | some ⟨op, _⟩ =>
          let transition := match op with
            | .scope _ _ => false
            | _ => s.transition
          some ({ s with transition }.at i op .failed)

/-! ## The history as one writer's -/

/-- The stored operations, one after the other. -/
def replay (source : String) (config : Config) (history : List ConfigEvent) : Config :=
  history.foldl (fun config event => match event with
    | .stored op => op.effect source config
    | _ => config) config

/-- What a single writer would see of the history: each scope is stored over the
snapshot it was made from, and a confirmed option has its value. -/
def Serial (source : String) (declared : Declared) : Config → List ConfigEvent → Prop
  | _, [] => True
  | config, .stored (.scope update expected) :: history =>
      config = expected ∧
        Serial source declared ((ConfigOp.scope update expected).effect source config) history
  | config, .stored op :: history => Serial source declared (op.effect source config) history
  | config, .confirmed key value :: history =>
      optionValue declared config key = some value ∧ Serial source declared config history
  | config, .reported _ :: history => Serial source declared config history

variable {source : String} {declared : Declared} {config initial : Config}

theorem replay_append (history later : List ConfigEvent) :
    replay source config (history ++ later) = replay source (replay source config history) later :=
  List.foldl_append ..

theorem serial_append : (history : List ConfigEvent) → {later : List ConfigEvent} →
    {config : Config} → Serial source declared config history →
    Serial source declared (replay source config history) later →
    Serial source declared config (history ++ later)
  | [], _, _, _, rest => rest
  | .stored (.scope _ _) :: history, _, _, serial, rest =>
      ⟨serial.1, serial_append history serial.2 rest⟩
  | .stored (.config _) :: history, _, _, serial, rest => serial_append history serial rest
  | .stored (.option _ _) :: history, _, _, serial, rest => serial_append history serial rest
  | .confirmed _ _ :: history, _, _, serial, rest => ⟨serial.1, serial_append history serial.2 rest⟩
  | .reported _ :: history, _, _, serial, rest => serial_append history serial rest

/-- A reported success was stored, or is an option that had its value already. -/
def Reported (history : List ConfigEvent) : Prop :=
  ∀ op, .reported op ∈ history → .stored op ∈ history ∨
    ∃ key value, op = .option key value ∧ .confirmed key value ∈ history

/-! ## Runs -/

/-- What `updateConfig` carries over from the configuration it read. -/
def scopeOf (config : Config) : Option Config :=
  if config.hasOwn "folderRoots" then some (pickScopeKeys config) else none

/-- The configuration an `updateConfig` read, when its write is the step. -/
def carriedOver (s : AccountConfig) : ConfigAct → Option Config
  | .advance i =>
      match s.flows[i]? with
      | some ⟨.config _, .writing existing⟩ => some existing
      | _ => none
  | _ => none

/-- The condition on a step: an `updateConfig` writes while the scope is the one it read. -/
def ScopeUnmoved (s : AccountConfig) (a : ConfigAct) : Prop :=
  ∀ existing ∈ carriedOver s a, scopeOf s.config = scopeOf existing

instance (s : AccountConfig) (a : ConfigAct) : Decidable (ScopeUnmoved s a) :=
  inferInstanceAs (Decidable (∀ existing ∈ carriedOver s a, scopeOf s.config = scopeOf existing))

theorem completed_congr {existing existing' : Config} (same : scopeOf existing = scopeOf existing')
    (payload : Config) : completed existing payload = completed existing' payload := by
  unfold scopeOf at same
  unfold completed
  split at same <;> split at same
  · rename_i here here'
    rw [if_pos here, if_pos here', Option.some.inj same]
  · cases same
  · cases same
  · rename_i here here'
    rw [if_neg here, if_neg here']

structure Serialized (source : String) (declared : Declared) (initial : Config)
    (s : AccountConfig) : Prop where
  sameSource : s.source = source
  sameDeclared : s.declared = declared
  config : s.config = replay source initial s.history
  serial : Serial source declared initial s.history
  reported : Reported s.history
  flows : ∀ flow ∈ s.flows, flow.point = .written false ∨ flow.point = .restarting →
    .stored flow.op ∈ s.history

namespace Serialized

variable {s s' : AccountConfig}

/-- Only the guards and where the flows are change; a flow moves no further than its
operation was stored. -/
theorem moved (kept : Serialized source declared initial s) (same : s'.source = s.source)
    (options : s'.declared = s.declared) (config : s'.config = s.config)
    (history : s'.history = s.history)
    (flows : ∀ flow ∈ s'.flows, flow ∈ s.flows ∨ .stored flow.op ∈ s.history ∨
      flow.point ≠ .written false ∧ flow.point ≠ .restarting) :
    Serialized source declared initial s' := by
  refine ⟨same.trans kept.sameSource, options.trans kept.sameDeclared, ?_, ?_, ?_, fun flow mem late => ?_⟩
  · rw [config, history]
    exact kept.config
  · rw [history]
    exact kept.serial
  · rw [history]
    exact kept.reported
  · rw [history]
    rcases flows flow mem with old | stored | early
    · exact kept.flows flow old late
    · exact stored
    · exact absurd late (not_or.2 early)

theorem confirm (kept : Serialized source declared initial s) {key : String} {value : Bool}
    (there : optionValue s.declared s.config key = some value) :
    Serialized source declared initial
      { s with history := s.history ++ [.confirmed key value] } := by
  rw [kept.sameDeclared, kept.config] at there
  refine ⟨kept.sameSource, kept.sameDeclared, ?_, serial_append _ kept.serial ⟨there, trivial⟩,
    fun op mem => ?_, fun flow mem late => List.mem_append_left _ (kept.flows flow mem late)⟩
  · rw [replay_append]
    exact kept.config
  · have old : .reported op ∈ s.history :=
      (List.mem_append.1 mem).resolve_right fun new => nomatch List.mem_singleton.1 new
    rcases kept.reported op old with stored | ⟨key, value, same, confirmed⟩
    · exact .inl (List.mem_append_left _ stored)
    · exact .inr ⟨key, value, same, List.mem_append_left _ confirmed⟩

theorem report (kept : Serialized source declared initial s) {op : ConfigOp}
    (reason : .stored op ∈ s.history ∨
      ∃ key value, op = .option key value ∧ .confirmed key value ∈ s.history) :
    Serialized source declared initial { s with history := s.history ++ [.reported op] } := by
  refine ⟨kept.sameSource, kept.sameDeclared, ?_, serial_append _ kept.serial trivial,
    fun op' mem => ?_, fun flow mem late => List.mem_append_left _ (kept.flows flow mem late)⟩
  · rw [replay_append]
    exact kept.config
  · have known : .stored op' ∈ s.history ∨
        ∃ key value, op' = .option key value ∧ .confirmed key value ∈ s.history := by
      rcases List.mem_append.1 mem with old | new
      · exact kept.reported op' old
      · obtain rfl := ConfigEvent.reported.inj (List.mem_singleton.1 new)
        exact reason
    rcases known with stored | ⟨key, value, same, confirmed⟩
    · exact .inl (List.mem_append_left _ stored)
    · exact .inr ⟨key, value, same, List.mem_append_left _ confirmed⟩

/-- An operation is stored as a single writer would store it. -/
theorem stored (kept : Serialized source declared initial s) (op : ConfigOp)
    (snapshot : ∀ update expected, op = .scope update expected → s.config = expected)
    {next : Config} (effect : next = op.effect s.source s.config) :
    Serialized source declared initial (s.store op next) := by
  rw [kept.sameSource] at effect
  refine ⟨kept.sameSource, kept.sameDeclared, ?_, serial_append _ kept.serial ?_, fun op' mem => ?_,
    fun flow mem late => List.mem_append_left _ (kept.flows flow mem late)⟩
  · show next = _
    rw [AccountConfig.store, replay_append, ← kept.config]
    exact effect
  · rw [← kept.config]
    cases op with
    | scope update expected => exact ⟨snapshot update expected rfl, trivial⟩
    | config | option => trivial
  · have old : .reported op' ∈ s.history :=
      (List.mem_append.1 mem).resolve_right fun new => nomatch List.mem_singleton.1 new
    rcases kept.reported op' old with stored | ⟨key, value, same, confirmed⟩
    · exact .inl (List.mem_append_left _ stored)
    · exact .inr ⟨key, value, same, List.mem_append_left _ confirmed⟩

/-- A flow moves to a point before its write is known, or after it was stored. -/
theorem goes (kept : Serialized source declared initial s) (i : Nat) {op : ConfigOp}
    {point : ConfigPoint} (fit : .stored op ∈ s.history ∨
      point ≠ .written false ∧ point ≠ .restarting) :
    Serialized source declared initial (s.at i op point) := by
  refine kept.moved rfl rfl rfl rfl fun flow mem => ?_
  rcases List.mem_or_eq_of_mem_set mem with old | rfl
  · exact .inl old
  · exact .inr fit

theorem guards (kept : Serialized source declared initial s) (transition : Bool)
    (heldBy : Option String) :
    Serialized source declared initial { s with transition, heldBy } :=
  kept.moved rfl rfl rfl rfl fun _ mem => .inl mem

end Serialized

/-- **One stretch of an operation.** -/
theorem advance_serialized {s s' : AccountConfig} {i : Nat} {op : ConfigOp} {point : ConfigPoint}
    (kept : Serialized source declared initial s) (there : s.flows[i]? = some ⟨op, point⟩)
    (unmoved : ScopeUnmoved s (.advance i)) (stepped : advance s i op point = some s') :
    Serialized source declared initial s' := by
  have known : point = .written false ∨ point = .restarting → .stored op ∈ s.history :=
    kept.flows _ (List.mem_of_getElem? there)
  unfold advance at stepped
  split at stepped
  · obtain rfl := Option.some.inj stepped
    exact kept.goes i (.inr ⟨nofun, nofun⟩)
  · split at stepped
    · rename_i update expected _ same
      obtain rfl := Option.some.inj stepped
      exact (kept.stored (.scope update expected) (fun _ _ h => (ConfigOp.scope.inj h).2 ▸ same)
        rfl).goes i (.inl (List.mem_append_right _ (List.mem_singleton.2 rfl)))
    · obtain rfl := Option.some.inj stepped
      exact kept.goes i (.inr ⟨nofun, nofun⟩)
  · obtain rfl := Option.some.inj stepped
    exact (kept.guards false s.heldBy).goes i (.inr ⟨nofun, nofun⟩)
  · obtain rfl := Option.some.inj stepped
    exact kept.goes i (.inl (known (.inl rfl)))
  · obtain rfl := Option.some.inj stepped
    refine Serialized.goes ?_ i (.inr ⟨nofun, nofun⟩)
    have reported := (kept.guards false s.heldBy).report (.inl (known (.inr rfl)))
    rwa [AccountConfig.report, List.append_nil]
  · obtain rfl := Option.some.inj stepped
    exact kept.goes i (.inr ⟨nofun, nofun⟩)
  · rename_i payload existing
    obtain rfl := Option.some.inj stepped
    -- The scope it carries over is the stored one.
    have scope : scopeOf s.config = scopeOf existing := unmoved existing (by simp [carriedOver, there])
    have same := completed_congr scope.symm payload
    exact (kept.stored (.config payload) (fun _ _ h => nomatch h)
      (congrArg (keepOptions s.config) same)).goes i
      (.inl (List.mem_append_right _ (List.mem_singleton.2 rfl)))
  · rename_i key value
    split at stepped
    · obtain rfl := Option.some.inj stepped
      exact kept.goes i (.inr ⟨nofun, nofun⟩)
    · rename_i current found
      split at stepped
      · rename_i same
        obtain rfl := Option.some.inj stepped
        have confirmed := kept.confirm (found.trans (congrArg some same))
        exact (confirmed.report (.inr ⟨key, value, rfl, List.mem_append_right _
          (List.mem_singleton.2 rfl)⟩)).goes i (.inr ⟨nofun, nofun⟩)
      · obtain rfl := Option.some.inj stepped
        exact kept.goes i (.inr ⟨nofun, nofun⟩)
  · rename_i key value _
    obtain rfl := Option.some.inj stepped
    exact (kept.stored (.option key value) (fun _ _ h => nomatch h) rfl).goes i
      (.inl (List.mem_append_right _ (List.mem_singleton.2 rfl)))
  · obtain rfl := Option.some.inj stepped
    refine Serialized.goes ?_ i (.inr ⟨nofun, nofun⟩)
    have reported := kept.report (.inl (known (.inl rfl)))
    rwa [AccountConfig.report, List.append_nil]
  · obtain rfl := Option.some.inj stepped
    refine Serialized.goes ?_ i (.inr ⟨nofun, nofun⟩)
    have reported := kept.report (.inl (known (.inl rfl)))
    rwa [AccountConfig.report, List.append_nil]
  · cases stepped

theorem begin_serialized {s : AccountConfig} (kept : Serialized source declared initial s)
    (op : ConfigOp) : Serialized source declared initial (begin s op) := by
  refine kept.moved rfl rfl rfl rfl fun flow mem => ?_
  rcases List.mem_append.1 mem with old | new
  · exact .inl old
  · rw [List.mem_singleton.1 new]
    refine .inr (.inr ?_)
    unfold entry
    split <;> split <;> exact ⟨nofun, nofun⟩

theorem Serialized.step {s s' : AccountConfig} {a : ConfigAct}
    (kept : Serialized source declared initial s) (unmoved : ScopeUnmoved s a)
    (stepped : configStep s a = some s') : Serialized source declared initial s' := by
  cases a with
  | claimAccountFlow flow =>
      simp only [configStep] at stepped
      split at stepped <;> obtain rfl := Option.some.inj stepped
      · exact kept
      · exact kept.guards s.transition (some flow)
  | releaseAccountFlow flow =>
      simp only [configStep] at stepped
      split at stepped <;> obtain rfl := Option.some.inj stepped
      · exact kept.guards s.transition none
      · exact kept
  | reconnecting transition =>
      obtain rfl := Option.some.inj stepped
      exact kept.guards transition s.heldBy
  | applyScope update expected =>
      obtain rfl := Option.some.inj stepped
      exact begin_serialized kept _
  | updateConfig payload =>
      obtain rfl := Option.some.inj stepped
      exact begin_serialized kept _
  | setOption key value =>
      obtain rfl := Option.some.inj stepped
      exact begin_serialized kept _
  | advance i =>
      obtain ⟨⟨op, point⟩, there, moved⟩ := Option.bind_eq_some_iff.1 stepped
      exact advance_serialized kept there unmoved moved
  | fail i =>
      simp only [configStep] at stepped
      split at stepped
      · cases stepped
      · cases stepped
      · cases stepped
      · obtain rfl := Option.some.inj stepped
        exact (kept.guards _ s.heldBy).goes i (.inr ⟨nofun, nofun⟩)

/-- An account whose configuration nothing has changed yet. -/
def AccountConfig.idle (source : String) (declared : Declared) (config : Config) : AccountConfig :=
  ⟨source, declared, config, none, false, [], []⟩

/-- **No update of a configuration is lost**, in every run whose `updateConfig`s carry
over the stored scope. -/
theorem config_updates_kept {acts : List ConfigAct} {s : AccountConfig}
    (unmoved : Along configStep ScopeUnmoved (.idle source declared initial) acts)
    (ran : runSteps configStep (.idle source declared initial) acts = some s) :
    s.config = replay source initial s.history ∧ Serial source declared initial s.history ∧
      ∀ op, .reported op ∈ s.history → .stored op ∈ s.history ∨
        ∃ key value, op = .option key value ∧ .confirmed key value ∈ s.history := by
  have start : Serialized source declared initial (.idle source declared initial) :=
    ⟨rfl, rfl, rfl, trivial, fun _ mem => (nomatch mem), fun _ mem => (nomatch mem)⟩
  have kept := run_keeps (fun _ _ _ kept unmoved stepped => kept.step unmoved stepped) start
    unmoved ran
  exact ⟨kept.config, kept.serial, kept.reported⟩

/-! ## A scope taken back -/

def workFolder : Config := [("folderRoots", .folderRoots [⟨"w", "Work"⟩])]

def homeFolder : Config := [("folderRoots", .folderRoots [⟨"h", "Home"⟩])]

/-- `applyScope` stores a new root between the read and the write of an `updateConfig`. -/
def scopeBetween : List ConfigAct :=
  [.updateConfig [("label", .other "1")], .advance 0, .applyScope homeFolder workFolder, .advance 1,
    .advance 1, .advance 1, .advance 1, .advance 0, .advance 0]

/-- **The stored scope is the old one**, and both operations reported success. -/
theorem scope_overwritten :
    ∃ s, runSteps configStep (.idle "notes" [] workFolder) scopeBetween = some s ∧
      s.flows.map ConfigFlow.point = [.succeeded, .succeeded] ∧
      s.config.get? "folderRoots" = some (.folderRoots [⟨"w", "Work"⟩]) ∧
      s.config ≠ replay "notes" workFolder s.history :=
  ⟨_, rfl, by decide, by decide, by decide⟩

/-- The same two operations, the second after the first. -/
def scopeAfter : List ConfigAct :=
  [.updateConfig [("label", .other "1")], .advance 0, .advance 0, .advance 0,
    .applyScope homeFolder (keepOptions workFolder
      (completed workFolder [("label", .other "1")])), .advance 1, .advance 1, .advance 1, .advance 1]

theorem config_updates_kept_scopeAfter :
    ∃ s, runSteps configStep (.idle "notes" [] workFolder) scopeAfter = some s ∧
      s.flows.map ConfigFlow.point = [.succeeded, .succeeded] ∧
      s.config = replay "notes" workFolder s.history := by
  have run : ∃ s, runSteps configStep (.idle "notes" [] workFolder) scopeAfter = some s ∧
      s.flows.map ConfigFlow.point = [.succeeded, .succeeded] := ⟨_, rfl, by decide⟩
  obtain ⟨s, ran, done⟩ := run
  have unmoved : Along configStep ScopeUnmoved (.idle "notes" [] workFolder) scopeAfter := by
    decide
  exact ⟨s, ran, done, (config_updates_kept unmoved ran).1⟩

end Kiagent.Engine.AccountConfiguration
