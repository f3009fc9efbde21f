/-
# Plugin.Upgrade -- an upgrade leaves `active`, and has to get back

The first transaction of an upgrade sets the namespace back to `registered`, under the
new descriptor; only the second, after the schema is validated, makes it active again.
Cut in between, the namespace has one way back, the import, and that refuses a
namespace with rows in a legacy table (`stuck_run`, `cut_upgrade_strands`).

Where no upgrade is cut, or the import can finish it, every retry gets back
(`upgrade_never_strands`).
-/
import Kiagent.Plugin.Import
import Kiagent.Theory.Table

namespace Kiagent.Plugin

open Kiagent.Theory

set_option autoImplicit false

variable {σ : Type} {sql : Sqlite σ} {s s' : State σ}

/-! ## Stuck namespaces -/

/-- Registered, with rows in a legacy table and no import begun. -/
structure Stuck (sql : Sqlite σ) (s : State σ) : Prop where
  idle : s.task = .idle
  registered : ∃ storage, s.disk.storage = some storage ∧ storage.state = .registered ∧
    ensureTargetFresh sql storage.descriptor s.disk.content = false
  progress : s.disk.progress = none

/-- What a caller can try again. -/
def Action.retries : Action σ → Bool
  | .register _ _ | .importLegacy _ _ _ | .openStorage | .next | .crash => true
  | .reset | .rearm | .write _ | .legacyFile _ => false

theorem orderedPrefix_all {α : Type} {equal : α → α → Bool} {p : α → Bool} {old next : List α}
    (appends : orderedPrefix equal old next = true)
    (same : ∀ a b, equal a b = true → p a = p b) (all : next.all p = true) :
    old.all p = true := by
  induction old generalizing next with
  | nil => rfl
  | cons a old ih =>
      cases next with
      | nil => cases appends
      | cons b next =>
          rw [orderedPrefix, Bool.and_eq_true] at appends
          rw [List.all_cons, Bool.and_eq_true] at all ⊢
          exact ⟨(same a b appends.1).trans all.1, ih appends.2 all.2⟩

/-- A descriptor's legacy tables stay when it is appended to. -/
theorem appendOnly_fresh {old next : PluginDatabaseDescriptor} {content : σ}
    (appends : isAppendOnlyDescriptor old next = true)
    (fresh : ensureTargetFresh sql next content = true) :
    ensureTargetFresh sql old content = true := by
  simp only [isAppendOnlyDescriptor, Bool.and_eq_true] at appends
  refine orderedPrefix_all appends.2 ?_ fresh
  intro a b same
  rw [Bool.and_eq_true, decide_eq_true_eq] at same
  rw [same.1]

theorem stuck_call {action : Action σ} (stuck : Stuck sql s) (retries : action.retries = true) :
    Stuck sql (s.call sql action) := by
  obtain ⟨storage, present, registered, full⟩ := stuck.registered
  cases action with
  | register descriptor legacyPath =>
      unfold State.call Disk.register
      simp only [present, registered]
      split
      · rename_i disk upgrades left
        split at left
        · rename_i gone
          rcases gone with gone | gone <;> cases gone
        · split at left
          · cases left
          · split at left
            · cases left
              exact ⟨rfl, ⟨storage, present, registered, full⟩, stuck.progress⟩
            · split at left
              · cases left
              · rename_i appends
                split at left
                · rename_i active
                  cases active
                · cases left
                  rw [not_or, Bool.not_eq_true', Bool.not_eq_false] at appends
                  refine ⟨rfl, ⟨_, rfl, rfl, ?_⟩, stuck.progress⟩
                  by_contra fresh
                  rw [Bool.not_eq_false] at fresh
                  rw [appendOnly_fresh appends.2 fresh] at full
                  cases full
      · exact stuck
  | importLegacy descriptor legacyPath chunkSize =>
      unfold State.call importLegacyPluginStorage
      simp only [present, Option.bind_some, registered]
      split
      · rename_i disk task begun
        split at begun
        · cases begun
        · rename_i same
          rw [not_or, not_not] at same
          rw [same.1, full, stuck.progress] at begun
          cases legacy : s.legacy <;> simp [legacy] at begun
      · exact stuck
  | openStorage => exact stuck
  | next => exact stuck
  | crash => exact stuck
  | reset => cases retries
  | rearm => cases retries
  | write content => cases retries
  | legacyFile source => cases retries

theorem stuck_step {action : Action σ} (stuck : Stuck sql s) (retries : action.retries = true)
    (taken : step sql s action = some s') : Stuck sql s' := by
  have call : (if s.task.isIdle then some (s.call sql action) else none) = some s' →
      Stuck sql s' := by
    intro taken
    simp only [stuck.idle, Task.isIdle, if_true, Option.some.injEq] at taken
    exact taken ▸ stuck_call stuck retries
  cases action with
  | next =>
      simp only [step, State.next, stuck.idle] at taken
      cases taken
  | crash =>
      obtain rfl := Option.some.inj taken
      exact ⟨rfl, stuck.registered, stuck.progress⟩
  | register descriptor legacyPath => exact call taken
  | importLegacy descriptor legacyPath chunkSize => exact call taken
  | openStorage => exact call taken
  | reset => cases retries
  | rearm => cases retries
  | write content => cases retries
  | legacyFile source => cases retries

/-- **A stuck namespace stays stuck**, whatever is tried again. -/
theorem stuck_run {actions : List (Action σ)} (stuck : Stuck sql s)
    (retries : ∀ action ∈ actions, action.retries = true)
    (ran : runSteps (step sql) s actions = some s') : Stuck sql s' :=
  run_keeps (fun _ _ _ stuck retries taken => stuck_step stuck retries taken) stuck
    (Along.of_mem retries s) ran

theorem Stuck.inactive (stuck : Stuck sql s) : s.isActive = false := by
  obtain ⟨storage, present, registered, _⟩ := stuck.registered
  simp [State.isActive, present, registered]

/-! ## What an import can finish -/

/-- Without a legacy file, an import of the empty tables only activates. -/
structure Refillable (sql : Sqlite σ) (next : PluginDatabaseDescriptor) (s : State σ) : Prop where
  absent : s.legacy.isNone = true
  fresh : ensureTargetFresh sql next s.disk.content = true
  recorded : ∀ call ∈ next.migrations, s.disk.Recorded call.1 call.2
  created : ∀ call ∈ next.migrations, s.disk.deferred call.1 call.2.version = []

theorem Refillable.other {next : PluginDatabaseDescriptor} (refillable : Refillable sql next s)
    (task : Task) : Refillable sql next { s with task := task } :=
  ⟨refillable.absent, refillable.fresh, refillable.recorded, refillable.created⟩

/-- An upgrade's schema is valid, and it is not cut unless an import can finish it. -/
def Whole (sql : Sqlite σ) (s : State σ) : Action σ → Prop
  | .register descriptor legacyPath =>
      match s.disk.register sql descriptor legacyPath with
      | some (disk, true) => sql.valid descriptor disk.content = true
      | _ => True
  | .crash =>
      match s.task with
      | .upgrading next => Refillable sql next s
      | _ => True
  | _ => True

theorem migratable_of_mem {disk : Disk σ} {storage : PluginStorage}
    (present : disk.storage = some storage) (registered : storage.state = .registered)
    {call : String × Migration} (mem : call ∈ storage.descriptor.migrations) :
    disk.migratable call.1 call.2 = true := by
  obtain ⟨module, inModules, inMigrations⟩ := List.mem_flatMap.1 mem
  obtain ⟨migration, inModule, rfl⟩ := List.mem_map.1 inMigrations
  have named : storage.descriptor.modules.find? (·.name = module.name) = some module :=
    lookup_of_mem storage.descriptor.distinct inModules
  have versions : (module.migrations.map (·.version)).Nodup := by
    rw [List.nodup_iff_pairwise_ne, List.pairwise_map]
    exact (storage.descriptor.ascending module inModules).imp fun less => Nat.ne_of_lt less
  have found : module.migrations.find? (·.version = migration.version) = some migration :=
    lookup_of_mem versions inModule
  simp [Disk.migratable, present, registered, named, found]

/-- A recorded migration is left alone. -/
theorem migrate_recorded {disk : Disk σ} {deferring : Bool} {module : String}
    {migration : Migration} (migratable : disk.migratable module migration = true)
    (recorded : disk.Recorded module migration)
    (created : disk.deferred module migration.version = []) :
    disk.migrate sql deferring module migration = some (disk, false) := by
  obtain ⟨version, statements, found, done⟩ := recorded
  unfold Disk.migrate
  simp only [migratable, created, found, List.isEmpty_nil, Bool.not_true, Bool.and_false]
  rcases done with newer | ⟨rfl, rfl⟩
  · simp [newer]
  · simp

/-! ## The course of an upgrade -/

variable {before after : Disk σ} {storage : PluginStorage} {next : PluginDatabaseDescriptor}

/-- Where an upgrade of `before`, or a retry of it, is. -/
inductive Course (sql : Sqlite σ) (before : Disk σ) (storage : PluginStorage)
    (next : PluginDatabaseDescriptor) (s : State σ) : Prop where
  | unbegun (idle : s.task = .idle) (disk : s.disk = before)
  | between (upgraded : before.upgradeActiveDescriptor sql storage next = some s.disk)
      (valid : sql.valid next s.disk.content = true) (running : s.task = .upgrading next)
  | cut (upgraded : before.upgradeActiveDescriptor sql storage next = some s.disk)
      (valid : sql.valid next s.disk.content = true) (refillable : Refillable sql next s)
      (running : s.task = .idle ∨ ∃ first second, s.task = .installing first second ∧
        (∀ call ∈ first, call ∈ next.migrations) ∧ ∀ call ∈ second, call ∈ next.migrations)
  | done {after : Disk σ} (upgraded : before.upgradeActiveDescriptor sql storage next = some after)
      (idle : s.task = .idle) (content : s.disk.content = after.content)
      (active : ∃ current, s.disk.storage = some current ∧ current.state = .active ∧
        current.descriptor = next)

/-- The actions of a caller that upgrades, and tries again. -/
def Action.upgrades (next : PluginDatabaseDescriptor) : Action σ → Prop
  | .register descriptor _ => descriptor = next
  | action => action.retries = true

/-- Registered under an active descriptor: nothing, or the first half of an upgrade. -/
theorem register_active {disk disk' : Disk σ} {upgrades : Bool} {legacyPath : String}
    (present : disk.storage = some storage) (active : storage.state = .active)
    (registered : disk.register sql next legacyPath = some (disk', upgrades)) :
    (upgrades = false ∧ disk' = disk) ∨
      (upgrades = true ∧ disk.upgradeActiveDescriptor sql storage next = some disk') := by
  simp only [Disk.register, present, active] at registered
  split at registered
  · cases registered
  · split at registered
    · cases registered
    · split at registered
      · cases registered
        exact .inl ⟨rfl, rfl⟩
      · split at registered
        · cases registered
        · obtain ⟨upgraded, eq, same⟩ := Option.map_eq_some_iff.1 registered
          cases same
          exact .inr ⟨rfl, eq⟩

/-- A descriptor registered again changes nothing. -/
theorem register_same {disk disk' : Disk σ} {upgrades : Bool} {legacyPath : String}
    (present : disk.storage = some storage) (same : storage.descriptor = next)
    (registered : disk.register sql next legacyPath = some (disk', upgrades)) :
    upgrades = false ∧ disk' = disk := by
  simp only [Disk.register, present, same] at registered
  split at registered
  · cases registered
  · split at registered
    · cases registered
    · cases registered
      exact ⟨rfl, rfl⟩

theorem import_active {disk disk' : Disk σ} {legacy : Option Source} {legacyPath : String}
    {descriptor : PluginDatabaseDescriptor} {chunkSize : Nat} {task : Task}
    (present : disk.storage = some storage) (active : storage.state = .active)
    (begun : importLegacyPluginStorage sql disk legacy descriptor legacyPath chunkSize =
      some (disk', task)) : disk' = disk ∧ task = .idle := by
  simp only [importLegacyPluginStorage, present, Option.bind_some, active] at begun
  split at begun
  · cases begun
  · cases begun
    exact ⟨rfl, rfl⟩

/-- Without a legacy file the import of a registered namespace installs. -/
theorem import_registered {disk disk' : Disk σ} {legacyPath : String} {chunkSize : Nat}
    {descriptor : PluginDatabaseDescriptor} {task : Task} (present : disk.storage = some storage)
    (registered : storage.state = .registered)
    (begun : importLegacyPluginStorage sql disk none descriptor legacyPath chunkSize =
      some (disk', task)) :
    disk' = disk ∧
      task = .installing storage.descriptor.migrations storage.descriptor.migrations := by
  simp only [importLegacyPluginStorage, present, Option.bind_some, registered] at begun
  split at begun
  · cases begun
  · rename_i same
    rw [not_or, not_not] at same
    split at begun
    · cases begun
      exact ⟨rfl, by rw [same.1]⟩
    · cases begun

/-- What a step of an installation does when every migration is recorded. -/
def installed (disk : Disk σ) : List (String × Migration) → List (String × Migration) →
    Disk σ × Task
  | _ :: first, second => (disk, .installing first second)
  | [], _ :: second => (disk, .installing [] second)
  | [], [] => (completeImport disk, .idle)

theorem nextInstall_recorded {disk : Disk σ} {first second : List (String × Migration)}
    (present : disk.storage = some storage) (registered : storage.state = .registered)
    (valid : sql.valid storage.descriptor disk.content = true)
    (recorded : ∀ call ∈ storage.descriptor.migrations, disk.Recorded call.1 call.2)
    (created : ∀ call ∈ storage.descriptor.migrations, disk.deferred call.1 call.2.version = [])
    (firsts : ∀ call ∈ first, call ∈ storage.descriptor.migrations)
    (seconds : ∀ call ∈ second, call ∈ storage.descriptor.migrations) :
    nextInstall sql disk first second = some (installed disk first second) := by
  cases first with
  | cons call first =>
      have mem := firsts call (List.mem_cons_self ..)
      simp only [nextInstall, migrate_recorded (migratable_of_mem present registered mem)
        (recorded call mem) (created call mem), Option.map_some, installed]
  | nil =>
      cases second with
      | cons call second =>
          have mem := seconds call (List.mem_cons_self ..)
          simp [nextInstall, migrate_recorded (migratable_of_mem present registered mem)
            (recorded call mem) (created call mem), installed]
      | nil => simp [nextInstall, present, valid, installed]

theorem course_call {action : Action σ} (present : before.storage = some storage)
    (active : storage.state = .active) (course : Course sql before storage next s)
    (idle : s.task = .idle) (upgrades : action.upgrades next) (whole : Whole sql s action) :
    Course sql before storage next (s.call sql action) := by
  cases action with
  | register descriptor legacyPath =>
      obtain rfl : descriptor = next := upgrades
      unfold State.call
      unfold Whole at whole
      dsimp only at whole ⊢
      cases registered : s.disk.register sql descriptor legacyPath with
      | none => exact course
      | some result =>
          obtain ⟨disk, going⟩ := result
          rw [registered] at whole
          cases course with
          | unbegun _ disk' =>
              subst disk'
              rcases register_active present active registered with ⟨rfl, rfl⟩ | ⟨rfl, upgraded⟩
              · exact .unbegun rfl rfl
              · exact .between upgraded whole rfl
          | between _ _ running => exact absurd (idle.symm.trans running) (by simp)
          | cut upgraded valid refillable _ =>
              obtain ⟨rfl, rfl⟩ :=
                register_same (upgrade_frame upgraded).2.1 rfl registered
              exact .cut upgraded valid (refillable.other _) (.inl rfl)
          | done upgraded _ content live =>
              obtain ⟨current, found, state, same⟩ := live
              obtain ⟨rfl, rfl⟩ := register_same found same registered
              exact .done upgraded rfl content ⟨current, found, state, same⟩
  | importLegacy descriptor legacyPath chunkSize =>
      unfold State.call
      dsimp only
      cases begun : importLegacyPluginStorage sql s.disk s.legacy descriptor legacyPath
        chunkSize with
      | none => exact course
      | some result =>
          obtain ⟨disk, task⟩ := result
          cases course with
          | unbegun _ disk' =>
              subst disk'
              obtain ⟨rfl, rfl⟩ := import_active present active begun
              exact .unbegun rfl rfl
          | between _ _ running => exact absurd (idle.symm.trans running) (by simp)
          | cut upgraded valid refillable _ =>
              rw [Option.isNone_iff_eq_none.1 refillable.absent] at begun
              obtain ⟨rfl, rfl⟩ := import_registered (upgrade_frame upgraded).2.1 rfl begun
              exact .cut upgraded valid (refillable.other _)
                (.inr ⟨_, _, rfl, fun _ mem => mem, fun _ mem => mem⟩)
          | done upgraded _ content live =>
              obtain ⟨current, found, state, same⟩ := live
              obtain ⟨rfl, rfl⟩ := import_active found state begun
              exact .done upgraded rfl content ⟨current, found, state, same⟩
  | openStorage => exact course
  | next => exact course
  | crash => exact course
  | reset => cases upgrades
  | rearm => cases upgrades
  | write content => cases upgrades
  | legacyFile source => cases upgrades

theorem course_next (course : Course sql before storage next s) (taken : s.next sql = some s') :
    Course sql before storage next s' := by
  unfold State.next at taken
  cases course with
  | unbegun idle => simp [idle] at taken
  | between upgraded valid running =>
      simp only [running, valid, if_true, Option.some.injEq] at taken
      subst taken
      refine .done upgraded rfl rfl ⟨{ storage with
        state := .active, descriptor := next, generation := storage.generation + 1 }, ?_, rfl, rfl⟩
      simp [Disk.activateUpgraded, (upgrade_frame upgraded).2.1]
  | cut upgraded valid refillable running =>
      rcases running with idle | ⟨first, second, running, firsts, seconds⟩
      · simp [idle] at taken
      · have registered := (upgrade_frame upgraded).2.1
        have step := nextInstall_recorded registered rfl valid refillable.recorded
          refillable.created firsts seconds
        simp only [running, step, installed] at taken
        cases first with
        | cons call first =>
            simp only [Option.some.injEq] at taken
            subst taken
            exact .cut upgraded valid (refillable.other _) (.inr ⟨first, second, rfl,
              fun call mem => firsts call (List.mem_cons_of_mem _ mem), seconds⟩)
        | nil =>
            cases second with
            | cons call second =>
                simp only [Option.some.injEq] at taken
                subst taken
                exact .cut upgraded valid (refillable.other _) (.inr ⟨[], second, rfl, firsts,
                  fun call mem => seconds call (List.mem_cons_of_mem _ mem)⟩)
            | nil =>
                simp only [Option.some.injEq] at taken
                subst taken
                refine .done upgraded rfl rfl ⟨{ storage with
                  state := .active, descriptor := next,
                  generation := storage.generation + 1 }, ?_, rfl, rfl⟩
                simp [completeImport, registered]
  | done _ idle => simp [idle] at taken

theorem course_step {action : Action σ} (present : before.storage = some storage)
    (active : storage.state = .active) (course : Course sql before storage next s)
    (upgrades : action.upgrades next) (whole : Whole sql s action)
    (taken : step sql s action = some s') : Course sql before storage next s' := by
  have call : (if s.task.isIdle then some (s.call sql action) else none) = some s' →
      Course sql before storage next s' := by
    intro taken
    cases running : s.task with
    | idle =>
        simp only [running, Task.isIdle, if_true, Option.some.injEq] at taken
        exact taken ▸ course_call present active course running upgrades whole
    | upgrading _ => simp [running, Task.isIdle] at taken
    | installing _ _ => simp [running, Task.isIdle] at taken
    | importing _ _ _ _ _ => simp [running, Task.isIdle] at taken
  cases action with
  | next => exact course_next course taken
  | crash =>
      obtain rfl := Option.some.inj taken
      cases course with
      | unbegun _ disk => exact .unbegun rfl disk
      | between upgraded valid running =>
          simp only [Whole, running] at whole
          exact .cut upgraded valid (whole.other _) (.inl rfl)
      | cut upgraded valid refillable _ =>
          exact .cut upgraded valid (refillable.other _) (.inl rfl)
      | done upgraded _ content live => exact .done upgraded rfl content live
  | register descriptor legacyPath => exact call taken
  | importLegacy descriptor legacyPath chunkSize => exact call taken
  | openStorage => exact call taken
  | reset => cases upgrades
  | rearm => cases upgrades
  | write content => cases upgrades
  | legacyFile source => cases upgrades

/-! ## Getting back -/

def State.activeAt (s : State σ) (descriptor : PluginDatabaseDescriptor) : Prop :=
  ∃ storage, s.disk.storage = some storage ∧ storage.state = .active ∧
    storage.descriptor = descriptor

/-- Some retries activate the new descriptor, over the same rows. -/
def Returns (sql : Sqlite σ) (next : PluginDatabaseDescriptor) (s : State σ) : Prop :=
  ∃ retries s', (∀ action ∈ retries, action.upgrades next) ∧
    runSteps (step sql) s retries = some s' ∧ s'.activeAt next ∧
      s'.disk.content = s.disk.content

theorem Returns.step (action : Action σ) (upgrades : action.upgrades next)
    (taken : step sql s action = some s') (content : s'.disk.content = s.disk.content)
    (returns : Returns sql next s') : Returns sql next s := by
  obtain ⟨retries, s'', all, ran, live, same⟩ := returns
  refine ⟨action :: retries, s'', ?_, runSteps_cons.2 ⟨s', taken, ran⟩, live, same.trans content⟩
  intro a mem
  rcases List.mem_cons.1 mem with rfl | later
  · exact upgrades
  · exact all a later

/-- An installation of recorded migrations goes on to its end. -/
theorem installing_returns (upgraded : before.upgradeActiveDescriptor sql storage next =
      some s.disk) (valid : sql.valid next s.disk.content = true)
    (refillable : Refillable sql next s) {second : List (String × Migration)}
    (seconds : ∀ call ∈ second, call ∈ next.migrations) {first : List (String × Migration)}
    (firsts : ∀ call ∈ first, call ∈ next.migrations) :
    Returns sql next { s with task := .installing first second } := by
  have registered := (upgrade_frame upgraded).2.1
  have steps : ∀ {first second : List (String × Migration)},
      (∀ call ∈ first, call ∈ next.migrations) → (∀ call ∈ second, call ∈ next.migrations) →
        nextInstall sql s.disk first second = some (installed s.disk first second) :=
    nextInstall_recorded registered rfl valid refillable.recorded refillable.created
  induction first with
  | cons call first ih =>
      have later : ∀ other ∈ first, other ∈ next.migrations :=
        fun other mem => firsts other (List.mem_cons_of_mem _ mem)
      have taken : step sql { s with task := .installing (call :: first) second } .next =
          some { s with task := .installing first second } := by
        simp [step, State.next, steps firsts seconds, installed]
      exact (ih later).step .next rfl taken rfl
  | nil =>
      induction second with
      | cons call second ih =>
          have later : ∀ other ∈ second, other ∈ next.migrations :=
            fun other mem => seconds other (List.mem_cons_of_mem _ mem)
          have taken : step sql { s with task := .installing [] (call :: second) } .next =
              some { s with task := .installing [] second } := by
            simp [step, State.next, steps firsts seconds, installed]
          exact (ih later).step .next rfl taken rfl
      | nil =>
          have taken : step sql { s with task := .installing [] [] } .next =
              some { s with disk := completeImport s.disk, task := .idle } := by
            simp [step, State.next, steps firsts seconds, installed]
          refine Returns.step .next rfl taken rfl ⟨[], _, by simp, rfl, ⟨{ storage with
            state := .active, descriptor := next, generation := storage.generation + 1 }, ?_,
              rfl, rfl⟩, rfl⟩
          simp [completeImport, registered]

theorem Course.returns (course : Course sql before storage next s) (moved : s.disk ≠ before) :
    Returns sql next s := by
  cases course with
  | unbegun _ disk => exact absurd disk moved
  | between upgraded valid running =>
      have taken : step sql s .next = some { s with
          disk := s.disk.activateUpgraded, task := .idle } := by
        simp [step, State.next, running, valid]
      refine Returns.step .next rfl taken rfl ⟨[], _, by simp, rfl, ⟨{ storage with
        state := .active, descriptor := next, generation := storage.generation + 1 }, ?_,
          rfl, rfl⟩, rfl⟩
      simp [Disk.activateUpgraded, (upgrade_frame upgraded).2.1]
  | cut upgraded valid refillable running =>
      rcases running with idle | ⟨first, second, running, firsts, seconds⟩
      · have installs := installing_returns upgraded valid refillable
          (fun _ mem => mem) (fun _ mem => mem)
        have absent := Option.isNone_iff_eq_none.1 refillable.absent
        have taken : step sql s (.importLegacy next storage.legacyPath 1) =
            some { s with task := .installing next.migrations next.migrations } := by
          simp [step, idle, Task.isIdle, State.call, importLegacyPluginStorage,
            (upgrade_frame upgraded).2.1, absent, refillable.fresh]
        exact installs.step (.importLegacy next storage.legacyPath 1) rfl taken rfl
      · have installs := installing_returns upgraded valid refillable seconds firsts
        rw [← running] at installs
        exact installs
  | done _ _ _ live => exact ⟨[], s, by simp, rfl, live, rfl⟩

/-- **An upgrade strands no data**, in a run in which its schema is valid and a crash
between its transactions leaves what an import can finish: the namespace is as it was,
or it holds the upgraded rows and retries get it to `active`. -/
theorem upgrade_never_strands {actions : List (Action σ)}
    (present : s.disk.storage = some storage) (active : storage.state = .active)
    (idle : s.task = .idle) (upgrades : ∀ action ∈ actions, action.upgrades next)
    (whole : Along (step sql) (Whole sql) s actions)
    (ran : runSteps (step sql) s actions = some s') :
    s'.disk = s.disk ∨
      (∃ upgraded, s.disk.upgradeActiveDescriptor sql storage next = some upgraded ∧
        s'.disk.content = upgraded.content) ∧ Returns sql next s' := by
  have course : Course sql s.disk storage next s' :=
    run_keeps (fun _ _ _ course held taken => course_step present active course held.2 held.1 taken)
      (.unbegun idle rfl) (whole.and (Along.of_mem upgrades s)) ran
  by_cases moved : s'.disk = s.disk
  · exact .inl moved
  · refine .inr ⟨?_, course.returns moved⟩
    cases course with
    | unbegun _ disk => exact absurd disk moved
    | between upgraded => exact ⟨_, upgraded, rfl⟩
    | cut upgraded => exact ⟨_, upgraded, rfl⟩
    | done upgraded _ content => exact ⟨_, upgraded, content⟩

instance recordedDecidable (disk : Disk σ) (module : String) (migration : Migration) :
    Decidable (disk.Recorded module migration) :=
  match found : disk.versions module with
  | none => .isFalse (by simp [Disk.Recorded, found])
  | some (version, statements) =>
      decidable_of_iff (migration.version < version ∨ version = migration.version ∧
        statements = migration.statements) (by simp [Disk.Recorded, found])

instance refillableDecidable (next : PluginDatabaseDescriptor) (s : State σ) :
    Decidable (Refillable sql next s) :=
  decidable_of_iff (s.legacy.isNone = true ∧ ensureTargetFresh sql next s.disk.content = true ∧
    (∀ call ∈ next.migrations, s.disk.Recorded call.1 call.2) ∧
    ∀ call ∈ next.migrations, s.disk.deferred call.1 call.2.version = [])
    ⟨fun all => ⟨all.1, all.2.1, all.2.2.1, all.2.2.2⟩,
      fun all => ⟨all.absent, all.fresh, all.recorded, all.created⟩⟩

instance wholeDecidable (s : State σ) : (action : Action σ) → Decidable (Whole sql s action)
  | .register descriptor legacyPath =>
      match registered : s.disk.register sql descriptor legacyPath with
      | some (disk, true) =>
          decidable_of_iff (sql.valid descriptor disk.content = true)
            (by simp [Whole, registered])
      | some (_, false) => .isTrue (by simp [Whole, registered])
      | none => .isTrue (by simp [Whole, registered])
  | .crash =>
      match running : s.task with
      | .upgrading next =>
          decidable_of_iff (Refillable sql next s) (by simp [Whole, running])
      | .idle => .isTrue (by simp [Whole, running])
      | .installing _ _ => .isTrue (by simp [Whole, running])
      | .importing _ _ _ _ _ => .isTrue (by simp [Whole, running])
  | .importLegacy _ _ _ | .openStorage | .reset | .rearm | .write _ | .legacyFile _ | .next =>
      .isTrue trivial

namespace Items

/-- An active namespace with these rows, and no legacy file. -/
def activeWith (rows : List Row) : State Items where
  disk := {
    storage := some ⟨.active, first, "/private.db", 1⟩
    versions := fun module => if module = "base" then some (0, [createTable]) else none
    deferred := fun _ _ => []
    progress := none
    tombstone := none
    content := ⟨some rows, false⟩ }
  legacy := none
  task := .idle
  log := []

/-- Cut by a crash, the upgrade of an empty namespace is finished by an import. -/
def cutRun : List (Action Items) :=
  [.register second "/private.db", .crash, .importLegacy second "/private.db" 500, .next]

theorem upgrade_never_strands_empty : ∃ s, runSteps (step sqlite) (activeWith []) cutRun = some s ∧
    s.isActive = false ∧ Returns sqlite second s := by
  have moved : ∃ s, runSteps (step sqlite) (activeWith []) cutRun = some s ∧
      s.isActive = false ∧ s.disk.content.indexed = true :=
    ⟨_, rfl, by decide +kernel, by decide +kernel⟩
  obtain ⟨s, ran, inactive, indexed⟩ := moved
  have result := @upgrade_never_strands _ sqlite (activeWith []) s _ second cutRun rfl rfl rfl
    (by simp [cutRun, Action.upgrades, Action.retries]) (by decide +kernel) ran
  rcases result with same | ⟨_, returns⟩
  · rw [same] at indexed
    cases indexed
  · exact ⟨s, ran, inactive, returns⟩

/-- Cut by a crash, the upgrade of a namespace with a row is stuck. -/
theorem cut_upgrade_strands : ∃ s,
    runSteps (step sqlite) (activeWith [itemRow 1]) [.register second "/private.db", .crash] =
      some s ∧ ∀ actions s', (∀ action ∈ actions, action.retries = true) →
        runSteps (step sqlite) s actions = some s' → s'.isActive = false := by
  refine ⟨_, rfl, fun actions s' retries ran => (stuck_run ?_ retries ran).inactive⟩
  exact ⟨rfl, ⟨_, rfl, rfl, by decide +kernel⟩, rfl⟩

end Items

end Kiagent.Plugin
