/-
# Db.Exclusive -- one piece of work at a time

`close` waits for the work in flight before it rolls back.  A release does not, nor
does a finish that was rejected; and while either rolls back, the transaction is still
the active one, so that an operation with its token is let in (`release_beside_work`).

`Apart` keeps the ends of a transaction apart from each other and from its work.  In a
run whose steps all meet it, at most one piece of work executes, it belongs to the
active transaction if there is one, and none that carries a token executes once the
end of its transaction has begun (`coordinator_exclusive`).

The proof goes by the phase a transaction is in (`Mode`): none, opening, held, being
committed, committed or failed but not yet cleared, being rolled back, expiring.
-/
import Kiagent.Db.Coordinator

namespace Kiagent.Db.Coordinator

open Kiagent.Theory

set_option autoImplicit false

/-! ## What executes -/

inductive Work where
  | job (job : Job) (started : Option Active)
  | rollback (active : Active)
  deriving DecidableEq

def pumpWork : Pump → List Work
  | .expiring active .working => [.rollback active]
  | .running job started .working => [.job job started]
  | .running _ (some active) (.rollback .working) => [.rollback active]
  | _ => []

def finishWork (finish : Finish) : Option Work :=
  match finish.phase with
  | .rollback _ .working => some (.rollback finish.finished)
  | _ => none

def releaseWork (release : Release) : Option Work :=
  if release.phase = .working then some (.rollback release.released) else none

def closeWork : Closing → List Work
  | .rollback active .working => [.rollback active]
  | _ => []

/-- The work that is executing. -/
def executing (s : State) : List Work :=
  pumpWork s.pump ++ s.finishes.filterMap finishWork ++ s.releases.filterMap releaseWork ++
    closeWork s.closing

/-- The begin that started it, an operation with its token and owner, or its rollback. -/
def Work.of (active : Active) : Work → Prop
  | .job carrier started => started = some active ∨
      (carrier.token = some active.token ∧ sameOwner carrier.owner active.owner = true)
  | .rollback other => other = active

structure Exclusive (s : State) : Prop where
  one : (executing s).length ≤ 1
  active : ∀ active, s.active = some active → ∀ work ∈ executing s, work.of active
  /-- Only the finishing work itself carries the token of a transaction that is ending. -/
  ended : ∀ job started, Work.job job started ∈ executing s →
    ∀ token, job.token = some token → ∀ ending ∈ s.ended, ending.1 = token →
      ending.2 = .work job.id

/-! ## Keeping the ends apart -/

def isFinish (job : Job) : Bool := job.operation = .finish

def finishJobs (s : State) : List Job := s.queue.filter isFinish

def expiring : Pump → Bool
  | .expiring _ _ => true
  | _ => false

/-- An end of the active transaction is under way. -/
def ending (s : State) : Bool := !s.finishes.isEmpty || !s.releases.isEmpty || expiring s.pump

/-- The pump has a finish's job whose work is over. -/
def finishOver : Pump → Bool
  | .running job _ (.done _) => isFinish job
  | _ => false

def rollingBack : Closing → Bool
  | .rollback _ _ => true
  | _ => false

/-- The active transaction is over, or is rolled back from outside the pump, and is not
cleared yet. -/
def winding (s : State) : Bool :=
  finishOver s.pump || (s.finishes.any fun finish => finish.phase ≠ .waiting) ||
    !s.releases.isEmpty || rollingBack s.closing

def failing (finish : Finish) : Bool :=
  match finish.phase with
  | .waiting => false
  | .told outcome => outcome ≠ .resolved
  | .rollback _ _ => true

def failedOver : Pump → Bool
  | .running job _ (.done outcome) => isFinish job && outcome ≠ .resolved
  | _ => false

def finishRuns : Pump → Bool
  | .running job _ _ => isFinish job
  | _ => false

/-- The ends of a transaction are apart from each other and from its work:

* an operation with its token is enqueued while none is past its work;
* it is finished, by an owner that is not poisoned, or released, or found expired,
  while no other end is under way, and released while the pump is at rest;
* another owner's release meets no finish in the queue;
* the coordinator is closed while none fails, and while it closes none fails. -/
def Apart (s : State) : Action → Prop
  | .run owner (some token) _ => s.owns owner token = true → winding s = false
  | .finish owner token => s.owns owner token = true →
      ending s = false ∧ s.closed = false ∧ s.failedOwners.contains (ownerKey owner) = false
  | .release owner =>
      if s.active.any fun active => sameOwner owner active.owner then
        s.pump = .idle ∧ ending s = false ∧ s.closed = false
      else ∀ job ∈ finishJobs s, sameOwner job.owner owner = false
  | .close => s.closed = false → finishJobs s = [] ∧ failedOver s.pump = false ∧
      (∀ finish ∈ s.finishes, failing finish = false) ∧ s.releases = [] ∧
      expiring s.pump = false
  | .workSettles ok => ok = false → finishRuns s.pump = true → s.closed = false
  | .turn now => s.pump = .looping → s.closed = false → (s.expired now).isSome = true →
      ending s = false
  | _ => True

instance apartDecidable (s : State) : (action : Action) → Decidable (Apart s action)
  | .run owner (some token) _ =>
      inferInstanceAs (Decidable (s.owns owner token = true → winding s = false))
  | .finish owner token =>
      inferInstanceAs (Decidable (s.owns owner token = true →
        ending s = false ∧ s.closed = false ∧ s.failedOwners.contains (ownerKey owner) = false))
  | .release owner =>
      inferInstanceAs (Decidable (if s.active.any fun active => sameOwner owner active.owner then
        s.pump = .idle ∧ ending s = false ∧ s.closed = false
      else ∀ job ∈ finishJobs s, sameOwner job.owner owner = false))
  | .close =>
      inferInstanceAs (Decidable (s.closed = false → finishJobs s = [] ∧
        failedOver s.pump = false ∧ (∀ finish ∈ s.finishes, failing finish = false) ∧
        s.releases = [] ∧ expiring s.pump = false))
  | .workSettles ok =>
      inferInstanceAs (Decidable (ok = false → finishRuns s.pump = true → s.closed = false))
  | .turn now =>
      inferInstanceAs (Decidable (s.pump = .looping → s.closed = false →
        (s.expired now).isSome = true → ending s = false))
  | .run _ none _ | .begin _ _ | .abort _ | .timer | .resume | .rollbackSettles _ _
  | .poisonSettles _ | .finishResumes _ | .closeResumes => .isTrue trivial

/-! ## The phases of a transaction -/

def Resting (pump : Pump) : Prop := pump = .idle ∨ pump = .looping ∨ pump = .selecting

/-- The operation carries the transaction's token, and is its owner's. -/
def Carries (job : Job) (active : Active) : Prop :=
  job.token = some active.token ∧ sameOwner job.owner active.owner = true

/-- An operation that is not a begin: it works, or its work is over. -/
def Plain (phase : JobPhase) : Prop := phase = .working ∨ ∃ outcome, phase = .done outcome

inductive FreePump : Pump → Prop where
  | resting {pump : Pump} (resting : Resting pump) : FreePump pump
  | running {job : Job} {phase : JobPhase} (token : job.token = none)
      (run : job.operation = .run) (plain : Plain phase) : FreePump (.running job none phase)
  | failed {job : Job} {started : Active} (token : job.token = none)
      (begin : job.operation = .begin) : FreePump (.running job (some started) (.done .failed))

inductive HeldPump (active : Active) : Pump → Prop where
  | resting {pump : Pump} (resting : Resting pump) : HeldPump active pump
  | running {job : Job} {phase : JobPhase} (carries : Carries job active)
      (run : job.operation = .run) (plain : Plain phase) :
      HeldPump active (.running job none phase)

/-- No end of the transaction has begun. -/
def Clean (s : State) (active : Active) : Prop := ∀ ending ∈ s.ended, ending.1 ≠ active.token

/-- Nothing in the queue carries the token. -/
def NoToken (s : State) (active : Active) : Prop :=
  ∀ job ∈ s.queue, job.token ≠ some active.token

/-- Neither closing by a rollback nor closed. -/
def NotClosed (s : State) : Prop := s.closing = .not ∨ s.closing = .waiting

/-- What the finishing work of the call has begun, and nothing else has. -/
def EndedBy (s : State) (active : Active) (finish : Finish) : Prop :=
  ∀ ending ∈ s.ended, ending.1 = active.token → ending.2 = .work finish.id

/-- The one rollback outside the pump. -/
inductive Outside (s : State) (active : Active) : Prop where
  | finish {finish : Finish} {cause : Outcome} {phase : RollbackPhase}
      (finishes : s.finishes = [finish]) (finished : finish.finished = active)
      (rolling : finish.phase = .rollback cause phase) (releases : s.releases = [])
      (closing : s.closing = .not)
  | release {release : Release} (finishes : s.finishes = []) (releases : s.releases = [release])
      (released : release.released = active) (closing : s.closing = .not)
  | close {phase : RollbackPhase} (finishes : s.finishes = []) (releases : s.releases = [])
      (closing : s.closing = .rollback active phase)

inductive Mode (s : State) : Prop where
  | free (active : s.active = none) (finishes : s.finishes = []) (releases : s.releases = [])
      (closing : NotClosed s ∨ s.closing = .done) (queued : finishJobs s = [])
      (pump : FreePump s.pump)
  | opening {active : Active} {job : Job} {phase : JobPhase} (begun : s.active = some active)
      (finishes : s.finishes = []) (releases : s.releases = []) (closing : NotClosed s)
      (queued : finishJobs s = []) (pump : s.pump = .running job (some active) phase)
      (token : job.token = none) (begin : job.operation = .begin)
      (succeeds : phase ≠ .done .failed) (secret : active.token ∉ s.handed)
      (clean : (∀ rolling, phase ≠ .rollback rolling) → Clean s active)
  | held {active : Active} (begun : s.active = some active) (finishes : s.finishes = [])
      (releases : s.releases = []) (closing : NotClosed s) (queued : finishJobs s = [])
      (pump : HeldPump active s.pump) (clean : Clean s active)
  | queued {active : Active} {finish : Finish} {job : Job} (begun : s.active = some active)
      (finishes : s.finishes = [finish]) (finished : finish.finished = active)
      (waiting : finish.phase = .waiting) (releases : s.releases = []) (closing : s.closing = .not)
      (queued : finishJobs s = [job]) (id : job.id = finish.id) (carries : Carries job active)
      (pump : HeldPump active s.pump) (clean : Clean s active)
  | finishing {active : Active} {finish : Finish} {job : Job} (begun : s.active = some active)
      (finishes : s.finishes = [finish]) (finished : finish.finished = active)
      (waiting : finish.phase = .waiting) (releases : s.releases = []) (closing : NotClosed s)
      (queued : finishJobs s = []) (pump : s.pump = .running job none .working)
      (id : job.id = finish.id) (operation : job.operation = .finish)
      (carries : Carries job active) (ended : EndedBy s active finish)
  | worked {active : Active} {finish : Finish} {job : Job} {outcome : Outcome}
      (begun : s.active = some active) (finishes : s.finishes = [finish])
      (finished : finish.finished = active) (waiting : finish.phase = .waiting)
      (releases : s.releases = []) (closing : NotClosed s)
      (queued : finishJobs s = []) (pump : s.pump = .running job none (.done outcome))
      (id : job.id = finish.id) (operation : job.operation = .finish)
      (failure : outcome ≠ .resolved → s.closing = .not) (noToken : NoToken s active)
  | told {active : Active} {finish : Finish} {outcome : Outcome}
      (begun : s.active = some active) (finishes : s.finishes = [finish])
      (finished : finish.finished = active) (told : finish.phase = .told outcome)
      (releases : s.releases = []) (closing : NotClosed s) (queued : finishJobs s = [])
      (pump : Resting s.pump) (failure : outcome ≠ .resolved → s.closing = .not)
      (noToken : NoToken s active)
  | undoing {active : Active} (begun : s.active = some active) (outside : Outside s active)
      (queued : finishJobs s = []) (pump : Resting s.pump) (noToken : NoToken s active)
  | expiring {active : Active} {phase : RollbackPhase} (begun : s.active = some active)
      (finishes : s.finishes = []) (releases : s.releases = []) (closing : s.closing = .not)
      (queued : finishJobs s = []) (pump : s.pump = .expiring active phase)

/-- What holds of the operations and the tokens in every run. -/
structure Base (s : State) : Prop where
  begins : ∀ job ∈ s.queue, job.operation = .begin → job.token = none
  signals : ∀ job ∈ s.queue, job.operation = .finish → job.signal = none
  handed : ∀ token ∈ s.handed, token < s.nextToken
  ended : ∀ ending ∈ s.ended, ending.1 < s.nextToken
  active : ∀ active, s.active = some active → active.token < s.nextToken
  started : ∀ job active phase, s.pump = .running job (some active) phase →
    active.token < s.nextToken

/-! ## One piece of work -/

theorem pumpWork_resting {pump : Pump} (resting : Resting pump) : pumpWork pump = [] := by
  rcases resting with rfl | rfl | rfl <;> rfl

theorem Mode.exclusive {s : State} (mode : Mode s) : Exclusive s := by
  -- one piece of work `w`, where a job that carries a token is not past its end
  have single : ∀ w : Work, executing s = [w] → (∀ active, s.active = some active → w.of active) →
      (∀ job started, w = .job job started → ∀ token, job.token = some token →
        ∀ ending ∈ s.ended, ending.1 = token → ending.2 = .work job.id) → Exclusive s := by
    intro w all active ended
    refine ⟨by rw [all]; exact le_refl 1, fun a begun x mem => ?_, fun job started mem => ?_⟩
    · rw [all] at mem
      exact List.mem_singleton.1 mem ▸ active a begun
    · rw [all] at mem
      exact ended job started (List.mem_singleton.1 mem).symm
  have nothing : executing s = [] → Exclusive s := by
    intro all
    refine ⟨by rw [all]; exact Nat.zero_le 1, fun a begun x mem => ?_, fun job started mem => ?_⟩
    · rw [all] at mem
      cases mem
    · rw [all] at mem
      cases mem
  have ofHeld : ∀ {active : Active}, executing s = pumpWork s.pump → s.active = some active →
      HeldPump active s.pump → Clean s active → Exclusive s := by
    intro active quiet begun pump clean
    generalize s.pump = p at pump quiet
    cases pump with
    | resting resting => exact nothing (quiet.trans (pumpWork_resting resting))
    | @running job phase carries run plain =>
        rcases plain with rfl | ⟨outcome, rfl⟩
        · refine single _ quiet (fun a begun' => ?_) ?_
          · exact Or.inr (Option.some.inj (begun.symm.trans begun') ▸ carries)
          · rintro _ _ ⟨⟩ t carried e mem same
            exact absurd (same.trans (Option.some.inj (carried.symm.trans carries.1)))
              (clean e mem)
        · exact nothing quiet
  have noClose : ∀ {closing : Closing}, (closing = .not ∨ closing = .waiting) ∨ closing = .done →
      closeWork closing = [] := by
    rintro closing ((rfl | rfl) | rfl) <;> rfl
  cases mode with
  | free active finishes releases closing queued pump =>
      have quiet : executing s = pumpWork s.pump := by
        simp [executing, finishes, releases, noClose closing]
      generalize s.pump = p at pump quiet
      cases pump with
      | resting resting => exact nothing (quiet.trans (pumpWork_resting resting))
      | @running job phase token run plain =>
          rcases plain with rfl | ⟨outcome, rfl⟩
          · refine single _ quiet (fun a begun => ?_) ?_
            · rw [active] at begun
              cases begun
            · rintro _ _ ⟨⟩ t carried
              rw [token] at carried
              cases carried
          · exact nothing quiet
      | failed => exact nothing quiet
  | @opening active job phase begun finishes releases closing queued pump token begin succeeds
      secret clean =>
      have quiet : executing s = pumpWork (.running job (some active) phase) := by
        simp [executing, finishes, releases, noClose (Or.inl closing), pump]
      cases phase with
      | working =>
          refine single _ quiet (fun a begun' => ?_) ?_
          · exact Or.inl (begun.symm.trans begun')
          · rintro _ _ ⟨⟩ t carried
            rw [token] at carried
            cases carried
      | rollback rolling =>
          cases rolling with
          | working =>
              refine single _ quiet (fun a begun' => ?_) (fun _ _ job => by cases job)
              exact Option.some.inj (begun.symm.trans begun')
          | poisoning => exact nothing quiet
      | done outcome => exact nothing quiet
  | @held active begun finishes releases closing queued pump clean =>
      have quiet : executing s = pumpWork s.pump := by
        simp [executing, finishes, releases, noClose (Or.inl closing)]
      exact ofHeld quiet begun pump clean
  | @queued active finish job begun finishes finished waiting releases closing queued id carries
      pump clean =>
      have quiet : executing s = pumpWork s.pump := by
        simp [executing, finishes, finishWork, waiting, releases, noClose (Or.inl (Or.inl closing))]
      exact ofHeld quiet begun pump clean
  | @finishing active finish job begun finishes finished waiting releases closing queued pump id
      operation carries ended =>
      have quiet : executing s = [.job job none] := by
        simp [executing, finishes, finishWork, waiting, releases, noClose (Or.inl closing), pump,
          pumpWork]
      refine single _ quiet (fun a begun' => ?_) ?_
      · exact Or.inr (Option.some.inj (begun.symm.trans begun') ▸ carries)
      · rintro _ _ ⟨⟩ t carried e mem same
        rw [id]
        exact ended e mem (same.trans (Option.some.inj (carried.symm.trans carries.1)))
  | @worked active finish job outcome begun finishes finished waiting releases closing queued pump
      id operation failure noToken =>
      refine nothing ?_
      simp [executing, finishes, finishWork, waiting, releases, noClose (Or.inl closing), pump,
        pumpWork]
  | @told active finish outcome begun finishes finished told releases closing queued pump failure
      noToken =>
      refine nothing ?_
      simp [executing, finishes, finishWork, told, releases, noClose (Or.inl closing),
        pumpWork_resting pump]
  | @undoing active begun outside queued pump noToken =>
      have rolling : executing s = [.rollback active] ∨ executing s = [] := by
        cases outside with
        | @finish finish cause phase finishes finished rolling releases closing =>
            cases phase <;> simp [executing, finishes, finishWork, rolling, finished, releases,
              closing, closeWork, pumpWork_resting pump]
        | @release release finishes releases released closing =>
            cases phase : release.phase <;> simp [executing, finishes, releases, releaseWork,
              phase, released, closing, closeWork, pumpWork_resting pump]
        | @close phase finishes releases closing =>
            cases phase <;> simp [executing, finishes, releases, closing, closeWork,
              pumpWork_resting pump]
      rcases rolling with rolling | rolling
      · refine single _ rolling (fun a begun' => ?_) (fun _ _ job => by cases job)
        exact Option.some.inj (begun.symm.trans begun')
      · exact nothing rolling
  | @expiring active phase begun finishes releases closing queued pump =>
      have quiet : executing s = pumpWork (.expiring active phase) := by
        simp [executing, finishes, releases, closing, closeWork, pump]
      cases phase with
      | working =>
          refine single _ quiet (fun a begun' => ?_) (fun _ _ job => by cases job)
          exact Option.some.inj (begun.symm.trans begun')
      | poisoning => exact nothing quiet

/-! ## Steps that leave the transaction alone -/

theorem not_resting_running {job : Job} {started : Option Active} {phase : JobPhase} :
    ¬Resting (.running job started phase) := by
  rintro (h | h | h) <;> cases h

theorem not_resting_expiring {active : Active} {phase : RollbackPhase} :
    ¬Resting (.expiring active phase) := by
  rintro (h | h | h) <;> cases h

theorem Outside.winding {s : State} {active : Active} (outside : Outside s active) :
    winding s = true := by
  cases outside with
  | finish finishes finished rolling releases closing =>
      simp [Coordinator.winding, finishes, rolling]
  | release finishes releases released closing => simp [Coordinator.winding, releases]
  | close finishes releases closing => simp [Coordinator.winding, closing, rollingBack]

/-- A step that leaves the transaction and its ends as they are: a resting pump may be
called, and operations may come and go, none with the token of a winding transaction. -/
theorem Mode.quiet {s s' : State} (mode : Mode s) (active : s'.active = s.active)
    (finishes : s'.finishes = s.finishes) (releases : s'.releases = s.releases)
    (closing : s'.closing = s.closing) (handed : s'.handed = s.handed)
    (ended : s'.ended = s.ended)
    (pump : s'.pump = s.pump ∨ (Resting s.pump ∧ Resting s'.pump))
    (queued : finishJobs s' = finishJobs s)
    (tokens : winding s = true → ∀ job ∈ s'.queue, job ∈ s.queue ∨ job.token = none) :
    Mode s' := by
  have same : ∀ {p : Pump}, s.pump = p → ¬Resting p → s'.pump = p := by
    rintro p here moving
    rcases pump with same | ⟨resting, _⟩
    · exact same.trans here
    · exact absurd (here ▸ resting) moving
  have rests : Resting s.pump → Resting s'.pump := by
    intro resting
    rcases pump with same | ⟨_, resting'⟩
    · rwa [same]
    · exact resting'
  have holds : ∀ {a : Active}, HeldPump a s.pump → HeldPump a s'.pump := by
    intro a held
    rcases pump with same | ⟨_, resting'⟩
    · rwa [same]
    · exact .resting resting'
  have clean : ∀ {a : Active}, Clean s a → Clean s' a := by
    intro a clean
    rwa [Clean, ended]
  have notClosed : NotClosed s → NotClosed s' := by
    intro open'
    rwa [NotClosed, closing]
  have noToken : ∀ {a : Active}, winding s = true → NoToken s a → NoToken s' a := by
    intro a wind none job mem
    rcases tokens wind job mem with mem | free
    · exact none job mem
    · rw [free]
      exact fun h => by cases h
  cases mode with
  | free active' finishes' releases' closing' queued' pump' =>
      refine .free (active.trans active') (finishes.trans finishes') (releases.trans releases') ?_
        (queued.trans queued') ?_
      · rwa [NotClosed, closing]
      · rcases pump with same | ⟨_, resting'⟩
        · rwa [same]
        · exact .resting resting'
  | opening begun finishes' releases' closing' queued' pump' token begin succeeds secret clean' =>
      exact .opening (active.trans begun) (finishes.trans finishes') (releases.trans releases')
        (notClosed closing') (queued.trans queued') (same pump' not_resting_running) token begin
        succeeds (handed ▸ secret) (fun quiet => clean (clean' quiet))
  | held begun finishes' releases' closing' queued' pump' clean' =>
      exact .held (active.trans begun) (finishes.trans finishes') (releases.trans releases')
        (notClosed closing') (queued.trans queued') (holds pump') (clean clean')
  | queued begun finishes' finished waiting releases' closing' queued' id carries pump' clean' =>
      exact .queued (active.trans begun) (finishes.trans finishes') finished waiting
        (releases.trans releases') (closing.trans closing') (queued.trans queued') id carries
        (holds pump') (clean clean')
  | finishing begun finishes' finished waiting releases' closing' queued' pump' id operation
      carries ended' =>
      refine .finishing (active.trans begun) (finishes.trans finishes') finished waiting
        (releases.trans releases') (notClosed closing') (queued.trans queued')
        (same pump' not_resting_running) id operation carries ?_
      rwa [EndedBy, ended]
  | worked begun finishes' finished waiting releases' closing' queued' pump' id operation
      failure none =>
      have wind : winding s = true := by
        simp [winding, pump', finishOver, isFinish, operation]
      exact .worked (active.trans begun) (finishes.trans finishes') finished waiting
        (releases.trans releases') (notClosed closing') (queued.trans queued')
        (same pump' not_resting_running) id operation (fun bad => closing.trans (failure bad))
        (noToken wind none)
  | told begun finishes' finished told releases' closing' queued' pump' failure none =>
      have wind : winding s = true := by simp [winding, finishes', told]
      exact .told (active.trans begun) (finishes.trans finishes') finished told
        (releases.trans releases') (notClosed closing') (queued.trans queued') (rests pump')
        (fun bad => closing.trans (failure bad)) (noToken wind none)
  | @undoing undone begun outside queued' pump' none =>
      have outside' : Outside s' undone := by
        cases outside with
        | finish finishes' finished rolling releases' closing' =>
            exact .finish (finishes.trans finishes') finished rolling (releases.trans releases')
              (closing.trans closing')
        | release finishes' releases' released closing' =>
            exact .release (finishes.trans finishes') (releases.trans releases') released
              (closing.trans closing')
        | close finishes' releases' closing' =>
            exact .close (finishes.trans finishes') (releases.trans releases')
              (closing.trans closing')
      exact .undoing (active.trans begun) outside' (queued.trans queued') (rests pump')
        (noToken outside.winding none)
  | expiring begun finishes' releases' closing' queued' pump' =>
      exact .expiring (active.trans begun) (finishes.trans finishes') (releases.trans releases')
        (closing.trans closing') (queued.trans queued') (same pump' not_resting_expiring)

theorem resting_callPump {s : State} : s.callPump.pump = s.pump ∨
    (Resting s.pump ∧ Resting s.callPump.pump) := by
  rw [State.callPump_pump]
  split
  · rename_i idle
    exact Or.inr ⟨Or.inl idle, Or.inr (Or.inl rfl)⟩
  · exact Or.inl rfl

theorem Mode.callPump {s : State} (mode : Mode s) : Mode s.callPump := by
  refine mode.quiet (by simp) (by simp) (by simp) (by simp) (by simp) (by simp) resting_callPump
    ?_ fun _ job mem => Or.inl ?_
  · simp [finishJobs]
  · simpa using mem

/-- A rejection that meets no finish in the queue. -/
theorem Mode.rejectQueued {s : State} (mode : Mode s) (p : Job → Bool) (reason : Rejection)
    (plain : ∀ job ∈ s.queue, p job = true → job.operation ≠ .finish) :
    Mode (s.rejectQueued p reason) := by
  refine mode.quiet (by simp) ?_ (by simp) (by simp) (by simp) (by simp) (Or.inl (by simp)) ?_
    fun _ job mem => Or.inl ?_
  · rw [State.rejectQueued_plain reason plain]
  · rw [finishJobs, finishJobs, State.rejectQueued_queue, List.filter_filter]
    apply List.filter_congr
    intro job mem
    cases isFin : isFinish job with
    | false => simp
    | true =>
        have spared : p job = false := by
          by_contra hit
          exact plain job mem (by simpa using hit) (by simpa [isFinish] using isFin)
        simp [spared]
  · rw [State.rejectQueued_queue] at mem
    exact List.mem_of_mem_filter mem

/-- A job settled that is not a finish's. -/
theorem Mode.settleJob {s : State} (mode : Mode s) {job : Job} (outcome : Outcome)
    (plain : job.operation ≠ .finish) : Mode (s.settleJob job outcome) := by
  rw [State.settleJob_plain outcome plain]
  exact mode.quiet rfl rfl rfl rfl rfl rfl (Or.inl rfl) rfl fun _ job mem => Or.inl mem

/-- An operation that is not a finish, and carries no token of a winding transaction. -/
theorem Mode.enqueue {s : State} (mode : Mode s) (owner : DbOwner) (token : Option TxToken)
    (operation : Operation) (signal : Option Nat) (plain : operation ≠ .finish)
    (free : winding s = true → s.admitted owner token = true → token = none) :
    Mode (s.enqueue owner token operation signal) := by
  have next : Mode { s with nextId := s.nextId + 1, enqueued := s.enqueued ++ [s.nextId] } :=
    mode.quiet rfl rfl rfl rfl rfl rfl (Or.inl rfl) rfl fun _ job mem => Or.inl mem
  unfold State.enqueue
  dsimp only
  split
  · exact next.settleJob _ plain
  · split
    · exact next.settleJob _ plain
    · split
      · exact next.settleJob _ plain
      · rename_i admitted
        split
        · exact next.settleJob _ plain
        · refine Mode.callPump (next.quiet rfl rfl rfl rfl rfl rfl (Or.inl rfl) ?_ ?_)
          · simp [finishJobs, isFinish, plain]
          · intro wind job mem
            rcases List.mem_append.1 mem with mem | mem
            · exact Or.inl mem
            · rw [List.mem_singleton.1 mem]
              refine Or.inr (free wind ?_)
              simpa [State.admitted, State.owns] using admitted

/-! ## The pump's turn -/

/-- The job the pump takes is gone from the queue. -/
def taken (s : State) : State := { s with queue := s.queue.eraseP s.eligible }

theorem taken_finishJobs {s : State} {job : Job} (found : s.queue.find? s.eligible = some job) :
    (isFinish job = false → finishJobs (taken s) = finishJobs s) ∧
      (isFinish job = true → ∀ other, finishJobs s = [other] →
        job = other ∧ finishJobs (taken s) = []) := by
  obtain ⟨before, after, queue, erased, _⟩ := find_eraseP found
  rw [finishJobs, finishJobs, taken, erased, queue, List.filter_append, List.filter_append,
    List.filter_cons]
  constructor
  · intro plain
    rw [plain]
    rfl
  · intro fin other
    rw [fin, if_pos rfl]
    intro only
    cases first : before.filter isFinish with
    | nil =>
        rw [first] at only
        obtain ⟨same, none⟩ := List.cons.inj (only : job :: _ = [other])
        exact ⟨same, by rw [none]; rfl⟩
    | cons x rest =>
        rw [first] at only
        have := congrArg List.length only
        simp at this

theorem taken_mem {s : State} {job : Job} (found : s.queue.find? s.eligible = some job) :
    job ∈ s.queue ∧ s.eligible job = true ∧ ∀ other ∈ (taken s).queue, other ∈ s.queue :=
  ⟨List.mem_of_find?_eq_some found, List.find?_some found,
    fun _ mem => List.mem_of_mem_eraseP mem⟩

theorem Mode.taken {s : State} {job : Job} (mode : Mode s)
    (found : s.queue.find? s.eligible = some job) (plain : isFinish job = false) :
    Mode (taken s) :=
  mode.quiet rfl rfl rfl rfl rfl rfl (Or.inl rfl) ((taken_finishJobs found).1 plain)
    fun _ other mem => Or.inl ((taken_mem found).2.2 other mem)

/-- A rejected job leaves the loop where it was. -/
theorem Mode.refuse {s : State} (mode : Mode s) (turning : Resting s.pump) {job : Job}
    (reason : Rejection) (plain : isFinish job = false) : Mode (s.refuse job reason) := by
  have operation : job.operation ≠ .finish := by simpa [isFinish] using plain
  have settled := mode.settleJob (.rejected reason) operation
  exact settled.quiet rfl rfl rfl rfl rfl rfl (Or.inr ⟨turning, Or.inr (Or.inl rfl)⟩) rfl
    fun _ other mem => Or.inl mem

/-- While a transaction winds, nothing in the queue carries its token. -/
theorem Mode.noToken {s : State} (mode : Mode s) (wind : winding s = true) {active : Active}
    (begun : s.active = some active) : NoToken s active := by
  have open' : ∀ {closing : Closing}, (closing = .not ∨ closing = .waiting) →
      rollingBack closing = false := by
    rintro closing (rfl | rfl) <;> rfl
  have held : ∀ {a : Active} {pump : Pump}, HeldPump a pump → finishOver pump = false := by
    intro a pump held
    cases held with
    | resting resting => rcases resting with rfl | rfl | rfl <;> rfl
    | running carries run plain =>
        rcases plain with rfl | ⟨outcome, rfl⟩ <;> simp [finishOver, isFinish, run]
  cases mode with
  | free active' => rw [active'] at begun; cases begun
  | @opening a job phase begun' finishes releases closing queued pump token begin =>
      cases phase <;>
        simp [winding, finishes, releases, open' closing, pump, finishOver, isFinish, begin] at wind
  | held begun' finishes releases closing queued pump clean =>
      simp [winding, finishes, releases, open' closing, held pump] at wind
  | queued begun' finishes finished waiting releases closing queued id carries pump clean =>
      simp [winding, finishes, waiting, releases, open' (Or.inl closing), held pump] at wind
  | finishing begun' finishes finished waiting releases closing queued pump =>
      simp [winding, finishes, waiting, releases, open' closing, pump, finishOver] at wind
  | worked begun' finishes finished waiting releases closing queued pump id operation failure none =>
      exact Option.some.inj (begun'.symm.trans begun) ▸ none
  | told begun' finishes finished told releases closing queued pump failure none =>
      exact Option.some.inj (begun'.symm.trans begun) ▸ none
  | undoing begun' outside queued pump none =>
      exact Option.some.inj (begun'.symm.trans begun) ▸ none
  | expiring begun' finishes releases closing queued pump =>
      simp [winding, finishes, releases, closing, rollingBack, pump, finishOver] at wind

/-- In each phase, what starts when a job that is not a finish is admitted. -/
theorem Mode.start {s : State} (mode : Mode s) (base : Base s) (turning : Resting s.pump)
    (accepting : s.closing = .not) (leaseMs now : Int) {job : Job}
    (plain : isFinish job = false) (begins : job.operation = .begin → job.token = none)
    (eligible : s.eligible job = true) (admitted : s.admitted job.owner job.token = true)
    (noToken : winding s = true → ∀ active, s.active = some active →
      job.token ≠ some active.token) :
    Mode (s.start leaseMs now job) := by
  -- with an active transaction the job carries its token, and so is no begin
  have carries : ∀ active, s.active = some active → Carries job active ∧ job.operation = .run := by
    intro active begun
    rw [State.eligible, begun] at eligible
    obtain ⟨token, carried⟩ := Option.isSome_iff_exists.1
      (show job.token.isSome = true by simpa using eligible)
    rw [carried] at admitted
    simp only [State.admitted, Option.all_some, State.owns, begun, Option.any_some,
      Bool.and_eq_true, decide_eq_true_eq] at admitted
    refine ⟨⟨by rw [carried, admitted.1], admitted.2⟩, ?_⟩
    cases operation : job.operation with
    | run => rfl
    | begin =>
        rw [begins operation] at carried
        cases carried
    | finish => simp [isFinish, operation] at plain
  have started : ∀ active, s.active = some active →
      s.start leaseMs now job = { s with pump := .running job none .working } := by
    intro active begun
    rw [State.start, (carries active begun).2]
  have moving : ∀ {p : Pump}, s.pump = p → ¬Resting p → Mode (s.start leaseMs now job) :=
    fun here moving => absurd (here ▸ turning) moving
  cases mode with
  | free active finishes releases closing queued pump =>
      have token : job.token = none := by
        cases carried : job.token with
        | none => rfl
        | some token =>
            rw [carried] at admitted
            simp [State.admitted, State.owns, active] at admitted
      cases operation : job.operation with
      | run =>
          rw [State.start, operation]
          exact .free active finishes releases closing queued (.running token operation (Or.inl rfl))
      | begin =>
          rw [State.start, operation]
          refine .opening rfl finishes releases (Or.inl accepting) queued rfl token operation
            (fun h => by cases h) (fun mem => ?_) fun _ ending mem same => ?_
          · exact lt_irrefl _ (base.handed _ mem)
          · exact absurd (base.ended ending mem) (by rw [same]; exact lt_irrefl _)
      | finish => simp [isFinish, operation] at plain
  | held begun finishes releases closing queued pump clean =>
      rw [started _ begun]
      obtain ⟨carried, run⟩ := carries _ begun
      exact .held begun finishes releases closing queued (.running carried run (Or.inl rfl)) clean
  | queued begun finishes finished waiting releases closing queued id carried' pump clean =>
      rw [started _ begun]
      obtain ⟨carried, run⟩ := carries _ begun
      exact .queued begun finishes finished waiting releases closing queued id carried'
        (.running carried run (Or.inl rfl)) clean
  | told begun finishes finished told releases closing queued pump failure none =>
      have wind : winding s = true := by simp [winding, finishes, told]
      exact absurd (carries _ begun).1.1 (noToken wind _ begun)
  | undoing begun outside queued pump none =>
      exact absurd (carries _ begun).1.1 (noToken outside.winding _ begun)
  | opening begun finishes releases closing queued pump => exact moving pump not_resting_running
  | finishing begun finishes finished waiting releases closing queued pump =>
      exact moving pump not_resting_running
  | worked begun finishes finished waiting releases closing queued pump =>
      exact moving pump not_resting_running
  | expiring begun finishes releases closing queued pump =>
      exact moving pump not_resting_expiring

theorem Mode.select {s : State} (mode : Mode s) (base : Base s) (drained : Drained s)
    (turning : Resting s.pump) (leaseMs now : Int) : Mode (s.select leaseMs now) := by
  unfold State.select
  split
  · exact mode.quiet rfl rfl rfl rfl rfl rfl (Or.inr ⟨turning, Or.inl rfl⟩) rfl
      fun _ job mem => Or.inl mem
  · rename_i job found
    obtain ⟨mem, eligible, shorter⟩ := taken_mem found
    have accepting : s.closing = .not := by
      by_contra closed
      have empty := drained.closed (by simpa [State.closed] using closed)
      rw [empty] at mem
      cases mem
    show Mode ((Coordinator.taken s).take leaseMs now job)
    cases fin : isFinish job with
    | false =>
        have left := mode.taken found fin
        unfold State.take
        split
        · exact left.refuse turning _ fin
        · rename_i admitted
          split
          · exact left.refuse turning _ fin
          · refine left.start ?_ turning accepting leaseMs now fin (base.begins job mem) eligible
              (by simpa using admitted) fun wind active begun => ?_
            · exact { base with
                begins := fun other mem => base.begins other (shorter other mem)
                signals := fun other mem => base.signals other (shorter other mem) }
            · exact mode.noToken wind begun job mem
    | true =>
        have isQueued : job ∈ finishJobs s := List.mem_filter.2 ⟨mem, fin⟩
        have impossible : finishJobs s = [] → Mode ((Coordinator.taken s).take leaseMs now job) := by
          intro empty
          rw [empty] at isQueued
          cases isQueued
        have operation : job.operation = .finish := by simpa [isFinish] using fin
        cases mode with
        | @queued active finish other begun finishes finished waiting releases closing queued id
            carries pump clean =>
            obtain ⟨rfl, empty⟩ := (taken_finishJobs found).2 fin other queued
            have admitted : (Coordinator.taken s).admitted job.owner job.token = true := by
              simp [State.admitted, State.owns, carries.1, carries.2,
                show (Coordinator.taken s).active = some active from begun]
            have signal := base.signals job mem operation
            rw [State.take, admitted, signal]
            simp only [Bool.not_true, Bool.false_eq_true, if_false, Option.any_none]
            rw [State.start, operation]
            refine .finishing begun finishes finished waiting releases (Or.inl closing) empty rfl id
              operation carries fun ending mem same => ?_
            rw [carries.1] at mem
            rcases List.mem_append.1 mem with mem | mem
            · exact absurd same (clean ending mem)
            · rw [Option.toList_some, List.map_cons, List.map_nil, List.mem_singleton] at mem
              rw [mem, id]
        | free active finishes releases closing queued pump => exact impossible queued
        | opening begun finishes releases closing queued pump => exact impossible queued
        | held begun finishes releases closing queued pump clean => exact impossible queued
        | finishing begun finishes finished waiting releases closing queued pump =>
            exact impossible queued
        | worked begun finishes finished waiting releases closing queued pump =>
            exact impossible queued
        | told begun finishes finished told releases closing queued pump =>
            exact impossible queued
        | undoing begun outside queued pump none => exact impossible queued
        | expiring begun finishes releases closing queued pump => exact impossible queued

theorem plain_of_none {s : State} (none : finishJobs s = []) (job : Job) (mem : job ∈ s.queue) :
    job.operation ≠ .finish := by
  intro operation
  have isQueued : job ∈ finishJobs s := List.mem_filter.2 ⟨mem, by simp [isFinish, operation]⟩
  rw [none] at isQueued
  cases isQueued

/-- With no finish in the queue a rejection tells nobody. -/
theorem rejectQueued_none {s : State} (none : finishJobs s = []) (p : Job → Bool)
    (reason : Rejection) : (s.rejectQueued p reason).finishes = s.finishes ∧
      finishJobs (s.rejectQueued p reason) = [] := by
  rw [State.rejectQueued_plain reason fun job mem _ => plain_of_none none job mem]
  refine ⟨rfl, ?_⟩
  rw [finishJobs, List.filter_eq_nil_iff]
  intro job mem fin
  exact plain_of_none none job (List.mem_of_mem_filter mem) (by simpa [isFinish] using fin)

/-- A transaction that ends nowhere else may be found expired. -/
theorem Mode.expire {s : State} (mode : Mode s) (turning : Resting s.pump)
    (accepting : s.closing = .not) {active : Active} (begun : s.active = some active)
    (apart : ending s = false) :
    Mode { (s.rejectQueued (fun job => job.token = some active.token) .expired).rollbackBegins active
      with pump := .expiring active .working } := by
  have moving : ∀ {p : Pump}, s.pump = p → ¬Resting p → False :=
    fun here moving => moving (here ▸ turning)
  cases mode with
  | held begun' finishes releases closing queued pump clean =>
      obtain ⟨told, empty⟩ :=
        rejectQueued_none queued (fun job => job.token = some active.token) .expired
      refine .expiring ?_ (told.trans finishes) ?_ ?_ empty rfl
      · exact (State.rejectQueued_active ..).trans begun
      · exact (State.rejectQueued_releases ..).trans releases
      · exact (State.rejectQueued_closing ..).trans accepting
  | free active' => rw [active'] at begun; cases begun
  | queued begun' finishes => simp [ending, finishes] at apart
  | told begun' finishes => simp [ending, finishes] at apart
  | undoing begun' outside queued pump none =>
      cases outside with
      | finish finishes => simp [ending, finishes] at apart
      | release finishes releases => simp [ending, releases] at apart
      | close finishes releases closing => rw [accepting] at closing; cases closing
  | opening begun' finishes releases closing queued pump => exact (moving pump not_resting_running).elim
  | finishing begun' finishes finished waiting releases closing queued pump =>
      exact (moving pump not_resting_running).elim
  | worked begun' finishes finished waiting releases closing queued pump =>
      exact (moving pump not_resting_running).elim
  | expiring begun' finishes releases closing queued pump =>
      exact (moving pump not_resting_expiring).elim

theorem Mode.turn {s : State} (mode : Mode s) (base : Base s) (drained : Drained s)
    (turning : inTurn s = true) (leaseMs now : Int) (apart : Apart s (.turn now)) :
    Mode (s.turn leaseMs now) := by
  have resting : Resting s.pump := by
    simp only [inTurn, Bool.or_eq_true, decide_eq_true_eq] at turning
    exact Or.inr turning
  unfold State.turn
  split
  · exact mode.select base drained resting leaseMs now
  · rename_i notSelecting
    split
    · exact mode.quiet rfl rfl rfl rfl rfl rfl (Or.inr ⟨resting, Or.inl rfl⟩) rfl
        fun _ job mem => Or.inl mem
    · rename_i accepting
      rw [Bool.not_eq_true] at accepting
      split
      · rename_i active late
        have looping : s.pump = .looping := by
          simp only [inTurn, Bool.or_eq_true, decide_eq_true_eq] at turning
          exact turning.resolve_right notSelecting
        have begun : s.active = some active := (Option.filter_eq_some_iff.1 late).1
        refine mode.expire resting (by simpa [State.closed] using accepting) begun ?_
        exact apart looping accepting (by rw [late]; rfl)
      · exact mode.select base drained resting leaseMs now

/-! ## The running job -/

theorem workSettles_running {s s' : State} {ok : Bool} (settles : s.workSettles ok = some s') :
    ∃ job started, s.pump = .running job started .working := by
  unfold State.workSettles at settles
  cases here : s.pump with
  | running job started phase =>
      cases phase with
      | working => exact ⟨job, started, rfl⟩
      | rollback | done => simp [here] at settles
  | idle | looping | selecting | expiring => simp [here] at settles

theorem resume_running {s s' : State} (resumes : s.resume = some s') :
    ∃ job started outcome, s.pump = .running job started (.done outcome) := by
  unfold State.resume at resumes
  cases here : s.pump with
  | running job started phase =>
      cases phase with
      | done outcome => exact ⟨job, started, outcome, rfl⟩
      | rollback | working => simp [here] at resumes
  | idle | looping | selecting | expiring => simp [here] at resumes

theorem Mode.workSettles {s s' : State} {ok : Bool} (mode : Mode s)
    (apart : Apart s (.workSettles ok)) (settles : s.workSettles ok = some s') : Mode s' := by
  have stopped : ∀ {p : Pump}, s.pump = p → (∀ job started, p ≠ .running job started .working) →
      Mode s' := by
    intro p here other
    obtain ⟨job, started, running⟩ := workSettles_running settles
    exact absurd (here.symm.trans running) (other job started)
  have rests : Resting s.pump → Mode s' := by
    rintro (here | here | here) <;> exact stopped here fun _ _ h => by cases h
  -- an operation that is not a begin and not a finish
  have plainRun : ∀ {job : Job} {phase : JobPhase}, s.pump = .running job none phase →
      job.operation = .run → Plain phase →
      phase = .working ∧ ∃ outcome, s' = { s with pump := .running job none (.done outcome) } := by
    rintro job phase running run (rfl | ⟨outcome, rfl⟩)
    · refine ⟨rfl, if ok then .resolved else .failed, ?_⟩
      unfold State.workSettles at settles
      simp only [running, run] at settles
      exact (Option.some.inj settles).symm
    · exact (by
        unfold State.workSettles at settles
        simp only [running] at settles
        cases settles)
  cases mode with
  | free active finishes releases closing queued pump =>
      generalize here : s.pump = p at pump
      cases pump with
      | resting resting => exact rests (here ▸ resting)
      | running token run plain =>
          obtain ⟨_, outcome, rfl⟩ := plainRun here run plain
          exact .free active finishes releases closing queued
            (.running token run (Or.inr ⟨outcome, rfl⟩))
      | failed => exact stopped here fun _ _ h => by cases h
  | held begun finishes releases closing queued pump clean =>
      generalize here : s.pump = p at pump
      cases pump with
      | resting resting => exact rests (here ▸ resting)
      | running carries run plain =>
          obtain ⟨_, outcome, rfl⟩ := plainRun here run plain
          exact .held begun finishes releases closing queued
            (.running carries run (Or.inr ⟨outcome, rfl⟩)) clean
  | queued begun finishes finished waiting releases closing queued id carries pump clean =>
      generalize here : s.pump = p at pump
      cases pump with
      | resting resting => exact rests (here ▸ resting)
      | running carries' run plain =>
          obtain ⟨_, outcome, rfl⟩ := plainRun here run plain
          exact .queued begun finishes finished waiting releases closing queued id carries
            (.running carries' run (Or.inr ⟨outcome, rfl⟩)) clean
  | @opening active job phase begun finishes releases closing queued pump token begin succeeds
      secret clean =>
      cases phase with
      | working =>
          unfold State.workSettles at settles
          simp only [pump, begin] at settles
          split at settles
          · obtain rfl := Option.some.inj settles
            exact .opening begun finishes releases closing queued rfl token begin
              (fun h => by cases h) secret fun _ => clean fun _ h => by cases h
          · obtain rfl := Option.some.inj settles
            exact .opening begun finishes releases closing queued rfl token begin
              (fun h => by cases h) secret fun quiet => absurd rfl (quiet _)
      | rollback rolling => exact stopped pump fun _ _ h => by cases h
      | done outcome => exact stopped pump fun _ _ h => by cases h
  | @finishing active finish job begun finishes finished waiting releases closing queued pump id
      operation carries ended =>
      unfold State.workSettles at settles
      simp only [pump, operation] at settles
      obtain rfl := Option.some.inj settles
      obtain ⟨told, empty⟩ :=
        rejectQueued_none queued (fun other => other.token = job.token) .tokenInvalid
      refine .worked ?_ (told.trans finishes) finished waiting ?_ ?_ empty rfl id operation
        (fun bad => ?_) fun other mem => ?_
      · exact (State.rejectQueued_active ..).trans begun
      · exact (State.rejectQueued_releases ..).trans releases
      · simpa [NotClosed] using closing
      · have failed : ok = false := by
          cases ok
          · rfl
          · exact absurd rfl bad
        have accepting := apart failed (by simp [pump, finishRuns, isFinish, operation])
        simpa [State.closed] using accepting
      · simp only [State.rejectQueued_queue, List.mem_filter] at mem
        simpa [carries.1] using mem.2
  | worked begun finishes finished waiting releases closing queued pump =>
      exact stopped pump fun _ _ h => by cases h
  | told begun finishes finished told releases closing queued pump => exact rests pump
  | undoing begun outside queued pump none => exact rests pump
  | expiring begun finishes releases closing queued pump =>
      exact stopped pump fun _ _ h => by cases h

theorem Mode.resume {s s' : State} (mode : Mode s) (resumes : s.resume = some s') : Mode s' := by
  have stopped : ∀ {p : Pump}, s.pump = p →
      (∀ job started outcome, p ≠ .running job started (.done outcome)) → Mode s' := by
    intro p here other
    obtain ⟨job, started, outcome, running⟩ := resume_running resumes
    exact absurd (here.symm.trans running) (other job started outcome)
  have rests : Resting s.pump → Mode s' := by
    rintro (here | here | here) <;> exact stopped here fun _ _ _ h => by cases h
  have looping : Resting .looping := Or.inr (Or.inl rfl)
  have resumed : ∀ {job : Job} {started : Option Active} {outcome : Outcome},
      s.pump = .running job started (.done outcome) → ∃ handed,
      s' = { s.settleJob job outcome with handed := s.handed ++ handed, pump := .looping } := by
    intro job started outcome running
    unfold State.resume at resumes
    simp only [running] at resumes
    exact ⟨_, (Option.some.inj resumes).symm⟩
  -- a job that is not a finish tells nobody
  have quiet : ∀ {job : Job} {started : Option Active} {phase : JobPhase},
      s.pump = .running job started phase → job.operation ≠ .finish →
      (∃ outcome, phase = .done outcome) → ∃ handed settled,
      s' = { s with settled := settled, handed := s.handed ++ handed, pump := .looping } := by
    rintro job started phase running plain ⟨outcome, rfl⟩
    obtain ⟨handed, rfl⟩ := resumed running
    rw [State.settleJob_plain _ plain]
    exact ⟨handed, _, rfl⟩
  have plainRun : ∀ {job : Job} {phase : JobPhase}, s.pump = .running job none phase →
      job.operation = .run → Plain phase → ∃ handed settled,
      s' = { s with settled := settled, handed := s.handed ++ handed, pump := .looping } := by
    rintro job phase running run plain
    refine quiet running (by simp [run]) ?_
    rcases plain with rfl | done
    · obtain ⟨_, _, _, running'⟩ := resume_running resumes
      rw [running] at running'
      cases running'
    · exact done
  cases mode with
  | free active finishes releases closing queued pump =>
      generalize here : s.pump = p at pump
      cases pump with
      | resting resting => exact rests (here ▸ resting)
      | running token run plain =>
          obtain ⟨handed, settled, rfl⟩ := plainRun here run plain
          exact .free active finishes releases closing queued (.resting looping)
      | failed token begin =>
          obtain ⟨handed, settled, rfl⟩ := quiet here (by simp [begin]) ⟨_, rfl⟩
          exact .free active finishes releases closing queued (.resting looping)
  | held begun finishes releases closing queued pump clean =>
      generalize here : s.pump = p at pump
      cases pump with
      | resting resting => exact rests (here ▸ resting)
      | running carries run plain =>
          obtain ⟨handed, settled, rfl⟩ := plainRun here run plain
          exact .held begun finishes releases closing queued (.resting looping) clean
  | queued begun finishes finished waiting releases closing queued id carries pump clean =>
      generalize here : s.pump = p at pump
      cases pump with
      | resting resting => exact rests (here ▸ resting)
      | running carries' run plain =>
          obtain ⟨handed, settled, rfl⟩ := plainRun here run plain
          exact .queued begun finishes finished waiting releases closing queued id carries
            (.resting looping) clean
  | @opening active job phase begun finishes releases closing queued pump token begin succeeds
      secret clean =>
      cases phase with
      | done outcome =>
          obtain ⟨handed, settled, rfl⟩ := quiet pump (by simp [begin]) ⟨outcome, rfl⟩
          exact .held begun finishes releases closing queued (.resting looping)
            (clean fun _ h => by cases h)
      | rollback rolling => exact stopped pump fun _ _ _ h => by cases h
      | working => exact stopped pump fun _ _ _ h => by cases h
  | @worked active finish job outcome begun finishes finished waiting releases closing queued pump
      id operation failure noToken =>
      obtain ⟨handed, rfl⟩ := resumed pump
      have told : (s.settleJob job outcome).finishes = [{ finish with phase := .told outcome }] := by
        simp [State.settleJob, operation, finishes, id]
      exact .told begun told finished rfl releases closing queued looping failure noToken
  | finishing begun finishes finished waiting releases closing queued pump =>
      exact stopped pump fun _ _ _ h => by cases h
  | told begun finishes finished told releases closing queued pump => exact rests pump
  | undoing begun outside queued pump none => exact rests pump
  | expiring begun finishes releases closing queued pump =>
      exact stopped pump fun _ _ _ h => by cases h

/-! ## Rollbacks -/

theorem clearActive_self {s : State} {active : Active} (begun : s.active = some active) :
    (s.clearActive active).active = none := by
  simp [State.clearActive, begun]

/-- The call of `finish` returns: its transaction is cleared. -/
theorem returnFinish_free {s : State} {active : Active} {finish : Finish}
    (begun : s.active = some active) (finishes : s.finishes = [finish])
    (finished : finish.finished = active) (releases : s.releases = []) (closing : NotClosed s)
    (queued : finishJobs s = []) (pump : Resting s.pump) (outcome : Outcome) :
    Mode (s.returnFinish finish outcome) := by
  obtain ⟨told, empty⟩ := rejectQueued_none queued
    (fun job => job.token = some finish.finished.token) .tokenInvalid
  unfold State.returnFinish
  refine Mode.callPump (.free ?_ ?_ ?_ (Or.inl ?_) ?_ (.resting ?_))
  · exact clearActive_self (by simpa [finished] using begun)
  · simp [told, finishes]
  · simpa using releases
  · simpa [NotClosed] using closing
  · simpa [finishJobs] using empty
  · simpa using pump

/-- A release ends: nothing of the transaction is left, and the owner's operations go. -/
theorem releaseQueued_free {s : State} (active : s.active = none) (finishes : s.finishes = [])
    (releases : s.releases = []) (closing : NotClosed s) (queued : finishJobs s = [])
    (pump : Resting s.pump) (owner : DbOwner) : Mode (s.releaseQueued owner) := by
  have free : Mode s := .free active finishes releases (Or.inl closing) queued (.resting pump)
  exact (free.rejectQueued (fun job => sameOwner job.owner owner) .released
    fun job mem _ => plain_of_none queued job mem).callPump

section Rollback

variable {s : State} {active : Active} {owner : DbOwner} {phase : RollbackPhase}

/-- The pump rolls back what has expired, or what its begin has started. -/
theorem Mode.at_pump (mode : Mode s) (here : s.rollbackAt .pump = some (active, owner, phase)) :
    finishJobs s = [] ∧ s.active = some active ∧ s.finishes = [] ∧ s.releases = [] ∧
      ((s.closing = .not ∧ s.pump = .expiring active phase) ∨
        (NotClosed s ∧ ∃ job, s.pump = .running job (some active) (.rollback phase) ∧
          job.token = none ∧ job.operation = .begin ∧ active.token ∉ s.handed)) := by
  have stopped : ∀ {p : Pump}, s.pump = p → (∀ a phase, p ≠ .expiring a phase) →
      (∀ job a phase, p ≠ .running job (some a) (.rollback phase)) → False := by
    intro p same expires rolls
    simp only [State.rollbackAt] at here
    split at here
    · rename_i a phase' other
      exact expires a phase' (same.symm.trans other)
    · rename_i job a phase' other
      exact rolls job a phase' (same.symm.trans other)
    · cases here
  have rests : ¬Resting s.pump := by
    rintro (rest | rest | rest) <;>
      exact stopped rest (fun _ _ h => by cases h) fun _ _ _ h => by cases h
  have held : ∀ {a : Active}, ¬HeldPump a s.pump := by
    intro a pump
    generalize same : s.pump = p at pump
    cases pump with
    | resting resting => exact rests (same ▸ resting)
    | running => exact stopped same (fun _ _ h => by cases h) fun _ _ _ h => by cases h
  cases mode with
  | free active' finishes releases closing queued pump =>
      generalize same : s.pump = p at pump
      cases pump with
      | resting resting => exact (rests (same ▸ resting)).elim
      | running => exact (stopped same (fun _ _ h => by cases h) fun _ _ _ h => by cases h).elim
      | failed => exact (stopped same (fun _ _ h => by cases h) fun _ _ _ h => by cases h).elim
  | @opening a job phase' begun finishes releases closing queued pump token begin succeeds secret
      clean =>
      cases phase' with
      | rollback rolling =>
          simp only [State.rollbackAt, pump, Option.some.injEq, Prod.mk.injEq] at here
          obtain ⟨rfl, _, rfl⟩ := here
          exact ⟨queued, begun, finishes, releases,
            Or.inr ⟨closing, job, pump, token, begin, secret⟩⟩
      | working | done =>
          exact (stopped pump (fun _ _ h => by cases h) fun _ _ _ h => by cases h).elim
  | held begun finishes releases closing queued pump clean => exact (held pump).elim
  | queued begun finishes finished waiting releases closing queued id carries pump clean =>
      exact (held pump).elim
  | finishing begun finishes finished waiting releases closing queued pump =>
      exact (stopped pump (fun _ _ h => by cases h) fun _ _ _ h => by cases h).elim
  | worked begun finishes finished waiting releases closing queued pump =>
      exact (stopped pump (fun _ _ h => by cases h) fun _ _ _ h => by cases h).elim
  | told begun finishes finished told releases closing queued pump => exact (rests pump).elim
  | undoing begun outside queued pump none => exact (rests pump).elim
  | expiring begun finishes releases closing queued pump =>
      simp only [State.rollbackAt, pump, Option.some.injEq, Prod.mk.injEq] at here
      obtain ⟨rfl, _, rfl⟩ := here
      exact ⟨queued, begun, finishes, releases, Or.inl ⟨closing, pump⟩⟩

/-- Elsewhere a rollback is the one outside the pump. -/
theorem Mode.at_outside (mode : Mode s) {site : State.Site} (elsewhere : site ≠ .pump)
    (here : s.rollbackAt site = some (active, owner, phase)) :
    s.active = some active ∧ finishJobs s = [] ∧ Resting s.pump ∧ NoToken s active ∧
      ((∃ finish cause, site = .finish finish.id ∧ s.finishes = [finish] ∧
          finish.finished = active ∧ finish.phase = .rollback cause phase ∧ s.releases = [] ∧
          s.closing = .not) ∨
        (∃ release, site = .release release.id ∧ s.finishes = [] ∧ s.releases = [release] ∧
          release.released = active ∧ release.phase = phase ∧ s.closing = .not) ∨
        (site = .close ∧ s.finishes = [] ∧ s.releases = [] ∧
          s.closing = .rollback active phase)) := by
  have absent : (∀ finish ∈ s.finishes, ∀ cause phase, finish.phase ≠ .rollback cause phase) →
      s.releases = [] → rollingBack s.closing = false → False := by
    intro noFinish noRelease noClose
    cases site with
    | pump => exact elsewhere rfl
    | finish id =>
        obtain ⟨finish, found, here⟩ := Option.bind_eq_some_iff.1 here
        split at here
        · rename_i cause phase' rolling
          exact noFinish finish (List.mem_of_find?_eq_some found) cause phase' rolling
        · cases here
    | release id => simp [State.rollbackAt, noRelease] at here
    | close =>
        simp only [State.rollbackAt] at here
        split at here
        · rename_i closing
          simp [closing, rollingBack] at noClose
        · cases here
  have open' : NotClosed s ∨ s.closing = .done → rollingBack s.closing = false := by
    rintro ((closing | closing) | closing) <;> rw [closing] <;> rfl
  have noFinishes : s.finishes = [] →
      ∀ finish ∈ s.finishes, ∀ cause phase, finish.phase ≠ .rollback cause phase := by
    intro empty finish mem
    rw [empty] at mem
    cases mem
  have oneFinish : ∀ {finish : Finish}, s.finishes = [finish] →
      (∀ cause phase, finish.phase ≠ .rollback cause phase) →
      ∀ other ∈ s.finishes, ∀ cause phase, other.phase ≠ .rollback cause phase := by
    intro finish only phases other mem
    rw [only, List.mem_singleton] at mem
    exact mem ▸ phases
  cases mode with
  | free active' finishes releases closing =>
      exact (absent (noFinishes finishes) releases (open' closing)).elim
  | opening begun finishes releases closing =>
      exact (absent (noFinishes finishes) releases (open' (Or.inl closing))).elim
  | held begun finishes releases closing =>
      exact (absent (noFinishes finishes) releases (open' (Or.inl closing))).elim
  | queued begun finishes finished waiting releases closing =>
      exact (absent (oneFinish finishes (by simp [waiting])) releases
        (open' (Or.inl (Or.inl closing)))).elim
  | finishing begun finishes finished waiting releases closing =>
      exact (absent (oneFinish finishes (by simp [waiting])) releases (open' (Or.inl closing))).elim
  | worked begun finishes finished waiting releases closing =>
      exact (absent (oneFinish finishes (by simp [waiting])) releases (open' (Or.inl closing))).elim
  | told begun finishes finished told releases closing =>
      exact (absent (oneFinish finishes (by simp [told])) releases (open' (Or.inl closing))).elim
  | expiring begun finishes releases closing =>
      exact (absent (noFinishes finishes) releases (open' (Or.inl (Or.inl closing)))).elim
  | undoing begun outside queued pump none =>
      cases outside with
      | @finish finish cause phase' finishes finished rolling releases closing =>
          cases site with
          | pump => exact absurd rfl elsewhere
          | finish id =>
              simp only [State.rollbackAt, finishes, List.find?_cons, List.find?_nil] at here
              cases same : decide (finish.id = id) with
              | false => simp [same] at here
              | true =>
                  simp only [same, Option.bind_some, rolling, Option.some.injEq,
                    Prod.mk.injEq] at here
                  obtain ⟨sameActive, _, samePhase⟩ := here
                  obtain rfl : finish.id = id := by simpa using same
                  rw [finished] at sameActive
                  subst sameActive samePhase
                  exact ⟨begun, queued, pump, none, Or.inl ⟨finish, cause, rfl, finishes, finished,
                    rolling, releases, closing⟩⟩
          | release id => simp [State.rollbackAt, releases] at here
          | close => simp [State.rollbackAt, closing] at here
      | @release release finishes releases released closing =>
          cases site with
          | pump => exact absurd rfl elsewhere
          | finish id => simp [State.rollbackAt, finishes] at here
          | release id =>
              simp only [State.rollbackAt, releases, List.find?_cons, List.find?_nil] at here
              cases same : decide (release.id = id) with
              | false => simp [same] at here
              | true =>
                  simp only [same, Option.map_some, Option.some.injEq, Prod.mk.injEq] at here
                  obtain ⟨sameActive, _, samePhase⟩ := here
                  obtain rfl : release.id = id := by simpa using same
                  rw [released] at sameActive
                  subst sameActive
                  exact ⟨begun, queued, pump, none, Or.inr (Or.inl ⟨release, rfl, finishes,
                    releases, released, samePhase, closing⟩)⟩
          | close => simp [State.rollbackAt, closing] at here
      | @close phase' finishes releases closing =>
          cases site with
          | pump => exact absurd rfl elsewhere
          | finish id => simp [State.rollbackAt, finishes] at here
          | release id => simp [State.rollbackAt, releases] at here
          | close =>
              simp only [State.rollbackAt, closing, Option.some.injEq, Prod.mk.injEq] at here
              obtain ⟨rfl, _, rfl⟩ := here
              exact ⟨begun, queued, pump, none, Or.inr (Or.inr ⟨rfl, finishes, releases, closing⟩)⟩

theorem Mode.afterRollback (mode : Mode s) {site : State.Site}
    (here : s.rollbackAt site = some (active, owner, phase)) : Mode (s.afterRollback active site) := by
  by_cases elsewhere : site = .pump
  · subst elsewhere
    obtain ⟨queued, begun, finishes, releases, atPump⟩ := mode.at_pump here
    have cleared := clearActive_self begun
    have empty : finishJobs (s.clearActive active) = [] := by simpa [finishJobs] using queued
    rcases atPump with ⟨closing, pump⟩ | ⟨closing, job, pump, token, begin, _⟩
    · simp only [State.afterRollback, pump]
      refine .free cleared ?_ ?_ (Or.inl (Or.inl ?_)) empty (.resting (Or.inr (Or.inr rfl)))
      · exact (State.clearActive_finishes ..).trans finishes
      · exact (State.clearActive_releases ..).trans releases
      · exact (State.clearActive_closing ..).trans closing
    · simp only [State.afterRollback, pump]
      refine .free cleared ?_ ?_ (Or.inl ?_) empty (.failed token begin)
      · exact (State.clearActive_finishes ..).trans finishes
      · exact (State.clearActive_releases ..).trans releases
      · simpa [NotClosed] using closing
  · obtain ⟨begun, queued, pump, none, at'⟩ := mode.at_outside elsewhere here
    rcases at' with ⟨finish, cause, rfl, finishes, finished, rolling, releases, closing⟩ |
      ⟨release, rfl, finishes, releases, released, _, closing⟩ |
      ⟨rfl, finishes, releases, closing⟩
    · simp only [State.afterRollback, finishes, List.find?_cons, decide_true, rolling]
      exact returnFinish_free begun finishes finished releases (Or.inl closing) queued pump cause
    · simp only [State.afterRollback, releases, List.find?_cons, decide_true]
      refine releaseQueued_free ?_ ?_ ?_ ?_ ?_ ?_ _
      · exact clearActive_self begun
      · simpa using finishes
      · simp [releases]
      · simpa [NotClosed] using Or.inl closing
      · simpa [finishJobs] using queued
      · simpa using pump
    · refine .free (clearActive_self begun) ?_ ?_ (Or.inr rfl) ?_ (.resting ?_)
      · exact (State.clearActive_finishes ..).trans finishes
      · exact (State.clearActive_releases ..).trans releases
      · simpa [State.afterRollback, finishJobs] using queued
      · simpa [State.afterRollback] using pump

theorem Mode.poisonOwner (mode : Mode s) (queued : finishJobs s = []) (owner : DbOwner) :
    Mode (s.poisonOwner owner) := by
  have failed : Mode { s with failedOwners := s.failedOwners ++ [ownerKey owner] } :=
    mode.quiet rfl rfl rfl rfl rfl rfl (Or.inl rfl) rfl fun _ job mem => Or.inl mem
  exact failed.rejectQueued _ _ fun job mem _ => plain_of_none queued job mem

theorem poisonOwner_rollbackAt (queued : finishJobs s = []) (owner : DbOwner)
    (site : State.Site) : (s.poisonOwner owner).rollbackAt site = s.rollbackAt site := by
  have told : (s.poisonOwner owner).finishes = s.finishes :=
    (rejectQueued_none (s := { s with failedOwners := s.failedOwners ++ [ownerKey owner] })
      queued _ _).1
  cases site with
  | pump => simp [State.rollbackAt, State.poisonOwner]
  | finish id => simp only [State.rollbackAt, told]
  | release id => simp [State.rollbackAt, State.poisonOwner]
  | close => simp [State.rollbackAt, State.poisonOwner]

theorem Mode.poisoning (mode : Mode s) {site : State.Site}
    (here : s.rollbackAt site = some (active, owner, phase)) : Mode (s.poisoning site) := by
  by_cases elsewhere : site = .pump
  · subst elsewhere
    obtain ⟨queued, begun, finishes, releases, atPump⟩ := mode.at_pump here
    rcases atPump with ⟨closing, pump⟩ | ⟨closing, job, pump, token, begin, secret⟩
    · simp only [State.poisoning, pump]
      exact .expiring begun finishes releases closing queued rfl
    · simp only [State.poisoning, pump]
      exact .opening begun finishes releases closing queued rfl token begin (fun h => by cases h)
        secret fun quiet => absurd rfl (quiet _)
  · obtain ⟨begun, queued, pump, none, at'⟩ := mode.at_outside elsewhere here
    rcases at' with ⟨finish, cause, rfl, finishes, finished, rolling, releases, closing⟩ |
      ⟨release, rfl, finishes, releases, released, _, closing⟩ |
      ⟨rfl, finishes, releases, closing⟩
    · have phases : (s.poisoning (.finish finish.id)).finishes =
          [{ finish with phase := .rollback cause .poisoning }] := by
        simp [State.poisoning, finishes, rolling]
      exact .undoing begun (.finish phases finished rfl releases closing) queued pump none
    · have phases : (s.poisoning (.release release.id)).releases =
          [{ release with phase := .poisoning }] := by
        simp [State.poisoning, releases]
      exact .undoing begun (.release finishes phases released closing) queued pump none
    · simp only [State.poisoning, closing]
      exact .undoing begun (.close finishes releases rfl) queued pump none

end Rollback

/-! ## The ends -/

/-- What is let in joins the queue, and the pump is called. -/
theorem enqueue_admitted {s : State} {owner : DbOwner} {token : Option TxToken}
    (operation : Operation) (accepting : s.closed = false)
    (sound : s.failedOwners.contains (ownerKey owner) = false)
    (admitted : s.admitted owner token = true) :
    s.enqueue owner token operation none =
      State.callPump { s with
        nextId := s.nextId + 1
        enqueued := s.enqueued ++ [s.nextId]
        queue := s.queue ++ [⟨s.nextId, owner, token, operation, none⟩] } := by
  unfold State.enqueue
  dsimp only
  split
  · rename_i closed
    exact absurd (accepting.symm.trans closed) (by simp)
  · split
    · rename_i poisoned
      exact absurd (sound.symm.trans poisoned) (by simp)
    · split
      · rename_i foreign
        have known : (!s.admitted owner token) = false := by
          rw [admitted]
          rfl
        exact absurd (known.symm.trans foreign) (by simp)
      · rfl

/-- A finish that is let in is the only end of its transaction. -/
theorem Mode.finish {s : State} {owner : DbOwner} {token : TxToken} (mode : Mode s)
    (base : Base s) (known : s.known token = true) (apart : Apart s (.finish owner token)) :
    Mode (s.finish owner token) := by
  unfold State.finish
  split
  · rename_i active begun
    split
    · rename_i owned
      have owns : s.owns owner token = true := by simpa [State.owns, begun] using owned
      obtain ⟨alone, accepting, sound⟩ := apart owns
      obtain ⟨same, own⟩ : active.token = token ∧ sameOwner owner active.owner = true := by
        simpa using owned
      have closing : s.closing = .not := by simpa [State.closed] using accepting
      have mine : ∀ {other : Active}, s.active = some other → other = active :=
        fun other => Option.some.inj (other.symm.trans begun)
      -- only a held transaction has no end under way
      have held : s.finishes = [] ∧ s.releases = [] ∧ finishJobs s = [] ∧
          HeldPump active s.pump ∧ Clean s active := by
        cases mode with
        | free none => rw [none] at begun; cases begun
        | opening begun' finishes releases closing queued pump none begin succeeds secret =>
            rw [mine begun'] at secret
            simp only [State.known, Bool.or_eq_true, decide_eq_true_eq, List.contains_iff_mem]
              at known
            rcases known with fresh | given
            · exact absurd (base.active _ begun) (by rw [same]; exact Nat.not_lt.2 fresh)
            · exact absurd (same ▸ given) secret
        | held begun' finishes releases closing queued pump clean =>
            obtain rfl := mine begun'
            exact ⟨finishes, releases, queued, pump, clean⟩
        | queued begun' finishes => simp [ending, finishes] at alone
        | finishing begun' finishes => simp [ending, finishes] at alone
        | worked begun' finishes => simp [ending, finishes] at alone
        | told begun' finishes => simp [ending, finishes] at alone
        | undoing begun' outside =>
            cases outside with
            | finish finishes => simp [ending, finishes] at alone
            | release finishes releases => simp [ending, releases] at alone
            | close finishes releases closing' => rw [closing] at closing'; cases closing'
        | expiring begun' finishes releases closing queued pump =>
            simp [ending, pump, Coordinator.expiring] at alone
      obtain ⟨finishes, releases, queued, pump, clean⟩ := held
      rw [enqueue_admitted (s := s.awaitFinish active) .finish accepting sound (by exact owns)]
      refine Mode.callPump ?_
      let job : Job := ⟨s.nextId, owner, some token, .finish, none⟩
      have carries : Carries job active := ⟨by rw [same], own⟩
      refine @Mode.queued _ active ⟨s.nextId, active, .waiting⟩ job begun ?_ rfl rfl releases
        closing ?_ rfl carries pump clean
      · simp [State.awaitFinish, finishes]
      · simp only [finishJobs, State.awaitFinish, List.filter_append] at queued ⊢
        rw [queued]
        rfl
    · exact mode
  · exact mode

theorem Mode.finishResumes {s s' : State} {id : Nat} (mode : Mode s)
    (resumes : s.finishResumes id = some s') : Mode s' := by
  obtain ⟨call, found, resumes⟩ := Option.bind_eq_some_iff.1 resumes
  have mem := List.mem_of_find?_eq_some found
  have none : s.finishes = [] → Mode s' := by
    intro empty
    rw [empty] at mem
    cases mem
  have untold : ∀ {finish : Finish}, s.finishes = [finish] →
      (∀ outcome, finish.phase ≠ .told outcome) → Mode s' := by
    intro finish only phase
    rw [only, List.mem_singleton] at mem
    subst mem
    split at resumes
    · rename_i outcome told
      exact absurd told (phase outcome)
    · cases resumes
  cases mode with
  | free active finishes => exact none finishes
  | opening begun finishes => exact none finishes
  | held begun finishes => exact none finishes
  | expiring begun finishes => exact none finishes
  | queued begun finishes finished waiting => exact untold finishes (by simp [waiting])
  | finishing begun finishes finished waiting => exact untold finishes (by simp [waiting])
  | worked begun finishes finished waiting => exact untold finishes (by simp [waiting])
  | undoing begun outside =>
      cases outside with
      | finish finishes finished rolling => exact untold finishes (by simp [rolling])
      | release finishes => exact none finishes
      | close finishes => exact none finishes
  | @told active finish outcome begun finishes finished told releases closing queued pump failure
      noToken =>
      rw [finishes, List.mem_singleton] at mem
      subst mem
      rw [told] at resumes
      dsimp only at resumes
      split at resumes
      · rename_i fails
        obtain rfl := Option.some.inj resumes
        have bad : outcome ≠ .resolved := by
          simp only [Bool.and_eq_true, decide_eq_true_eq] at fails
          exact fails.1
        have phases : (s.finishes.map fun other =>
            if other.id = id then { other with phase := FinishPhase.rollback outcome .working }
            else other) = [{ call with phase := .rollback outcome .working }] := by
          rw [finishes, List.map_cons, if_pos (finish_id found)]
          rfl
        exact .undoing begun (.finish phases finished rfl releases (failure bad)) queued pump noToken
      · obtain rfl := Option.some.inj resumes
        exact returnFinish_free begun finishes finished releases closing queued pump outcome

theorem Mode.release {s : State} {owner : DbOwner} (mode : Mode s) (drained : Drained s)
    (apart : Apart s (.release owner)) : Mode (s.release owner) := by
  have other : (∀ job ∈ finishJobs s, sameOwner job.owner owner = false) →
      Mode (s.releaseQueued owner) := by
    intro spared
    refine (mode.rejectQueued _ .released fun job mem hit operation => ?_).callPump
    have fin : job ∈ finishJobs s := List.mem_filter.2 ⟨mem, by simp [isFinish, operation]⟩
    rw [spared job fin] at hit
    cases hit
  unfold State.release
  simp only [Apart] at apart
  split
  · rename_i active begun
    rw [begun, Option.any_some] at apart
    split
    · rename_i own
      rw [if_pos own] at apart
      obtain ⟨idle, alone, accepting⟩ := apart
      have closing : s.closing = .not := by simpa [State.closed] using accepting
      have mine : ∀ {a : Active}, s.active = some a → a = active :=
        fun a => Option.some.inj (a.symm.trans begun)
      -- with the pump at rest nothing in the queue carries a token
      have noToken : NoToken s active := by
        intro job mem carried
        have waits := drained.idle idle job mem
        simp [State.eligible, carried] at waits
      have running : ∀ {p : Pump}, s.pump = p → p ≠ .idle → False :=
        fun here busy => busy (here.symm.trans idle)
      have held : s.finishes = [] ∧ s.releases = [] ∧ finishJobs s = [] := by
        cases mode with
        | free none => rw [none] at begun; cases begun
        | held begun' finishes releases closing' queued => exact ⟨finishes, releases, queued⟩
        | opening begun' finishes releases closing' queued pump =>
            exact (running pump fun h => by cases h).elim
        | queued begun' finishes => simp [ending, finishes] at alone
        | finishing begun' finishes => simp [ending, finishes] at alone
        | worked begun' finishes => simp [ending, finishes] at alone
        | told begun' finishes => simp [ending, finishes] at alone
        | undoing begun' outside =>
            cases outside with
            | finish finishes => simp [ending, finishes] at alone
            | release finishes releases => simp [ending, releases] at alone
            | close finishes releases closing' => rw [closing] at closing'; cases closing'
        | expiring begun' finishes releases closing' queued pump =>
            exact (running pump fun h => by cases h).elim
      obtain ⟨finishes, releases, queued⟩ := held
      let call : Release := ⟨s.nextId, owner, active, .working⟩
      have calls : s.releases ++ [call] = [call] := by rw [releases]; rfl
      refine .undoing begun (@Outside.release _ _ call finishes calls rfl closing) queued
        (Or.inl idle) noToken
    · rename_i foreign
      rw [if_neg foreign] at apart
      exact other apart
  · rename_i none
    rw [none, Option.any_none, if_neg (by simp)] at apart
    exact other apart

theorem Mode.close {s : State} (mode : Mode s) (apart : Apart s .close) : Mode s.close := by
  unfold State.close
  split
  · exact mode
  · rename_i accepting
    rw [Bool.not_eq_true] at accepting
    obtain ⟨queued, notFailed, sound, releases, notExpiring⟩ := apart accepting
    have closing : s.closing = .not := by simpa [State.closed] using accepting
    dsimp only
    rw [State.settleJobs_eq, State.tellAll_plain _ (plain_of_none queued)]
    have waiting : ∀ {finish : Finish} {outcome : Outcome}, s.finishes = [finish] →
        finish.phase = .told outcome → outcome = .resolved := by
      intro finish outcome only told
      have := sound finish (by rw [only]; exact List.mem_singleton_self _)
      simpa [failing, told] using this
    cases mode with
    | free active finishes releases closing' queued pump =>
        exact .free active finishes releases (Or.inl (Or.inr rfl)) rfl pump
    | opening begun finishes releases closing' queued pump token begin succeeds secret clean =>
        exact .opening begun finishes releases (Or.inr rfl) rfl pump token begin succeeds secret clean
    | held begun finishes releases closing' queued pump clean =>
        exact .held begun finishes releases (Or.inr rfl) rfl pump clean
    | queued begun finishes finished wait releases closing' queued' =>
        rw [queued] at queued'
        cases queued'
    | finishing begun finishes finished wait releases closing' queued pump id operation carries
        ended =>
        exact .finishing begun finishes finished wait releases (Or.inr rfl) rfl pump id operation
          carries ended
    | @worked active finish job outcome begun finishes finished wait releases closing' queued pump
        id operation failure noToken =>
        have fine : outcome = .resolved := by
          simpa [failedOver, pump, isFinish, operation] using notFailed
        exact .worked begun finishes finished wait releases (Or.inr rfl) rfl pump id operation
          (fun bad => absurd fine bad) fun _ mem => by cases mem
    | @told active finish outcome begun finishes finished told releases closing' queued pump failure
        noToken =>
        exact .told begun finishes finished told releases (Or.inr rfl) rfl pump
          (fun bad => absurd (waiting finishes told) bad) fun _ mem => by cases mem
    | undoing begun outside queued pump noToken =>
        cases outside with
        | @finish finish cause phase finishes finished rolling =>
            have := sound finish (by rw [finishes]; exact List.mem_singleton_self _)
            simp [failing, rolling] at this
        | release finishes releases' => rw [releases] at releases'; cases releases'
        | close finishes releases closing' => rw [closing] at closing'; cases closing'
    | expiring begun finishes releases closing' queued pump =>
        simp [pump, Coordinator.expiring] at notExpiring

theorem Mode.closeResumes {s s' : State} (mode : Mode s) (drained : Drained s)
    (resumes : s.closeResumes = some s') : Mode s' := by
  unfold State.closeResumes at resumes
  dsimp only at resumes
  split at resumes
  · cases resumes
  · rename_i ready
    simp only [Bool.or_eq_true, decide_eq_true_eq, not_or, not_not, Bool.not_eq_true] at ready
    obtain ⟨⟨waiting, landed⟩, untold⟩ := ready
    have empty : s.queue = [] := drained.closed (by simp [State.closed, waiting])
    have running : ∀ {job : Job} {started : Option Active} {phase : JobPhase} {P : Prop},
        s.pump = .running job started phase → P := by
      intro job started phase P pump
      simp [State.inFlight, pump] at landed
    have rests : ∀ {a : Active}, HeldPump a s.pump → Resting s.pump := by
      intro a pump
      generalize here : s.pump = p at pump
      cases pump with
      | resting resting => exact resting
      | running => exact running here
    have noToken : ∀ {a : Active}, NoToken s a := by
      intro a job mem
      rw [empty] at mem
      cases mem
    cases mode with
    | free active finishes releases closing queued pump =>
        rw [active] at resumes
        obtain rfl := Option.some.inj resumes
        exact .free rfl finishes releases (Or.inr rfl) queued pump
    | held begun finishes releases closing queued pump clean =>
        rw [begun] at resumes
        obtain rfl := Option.some.inj resumes
        exact .undoing begun (.close finishes releases rfl) queued (rests pump) noToken
    | opening begun finishes releases closing queued pump => exact running pump
    | queued begun finishes finished wait releases closing => rw [waiting] at closing; cases closing
    | finishing begun finishes finished wait releases closing queued pump => exact running pump
    | worked begun finishes finished wait releases closing queued pump => exact running pump
    | told begun finishes finished told => simp [finishes, told] at untold
    | undoing begun outside =>
        cases outside with
        | finish finishes finished rolling releases closing => rw [waiting] at closing; cases closing
        | release finishes releases released closing => rw [waiting] at closing; cases closing
        | close finishes releases closing => rw [waiting] at closing; cases closing
    | expiring begun finishes releases closing => rw [waiting] at closing; cases closing

/-! ## Every step -/

/-- A job whose token and signal are as its operation has them. -/
def Formed (job : Job) : Prop :=
  (job.operation = .begin → job.token = none) ∧ (job.operation = .finish → job.signal = none)

/-- The tokens in a state that are not those of the state before are issued ones. -/
theorem Base.grow {s s' : State} (base : Base s)
    (queue : ∀ job ∈ s'.queue, job ∈ s.queue ∨ Formed job) (next : s.nextToken ≤ s'.nextToken)
    (handed : ∀ token ∈ s'.handed, token ∈ s.handed ∨ token < s'.nextToken)
    (ended : ∀ ending ∈ s'.ended, ending ∈ s.ended ∨ ending.1 < s'.nextToken)
    (active : ∀ a, s'.active = some a → s.active = some a ∨ a.token < s'.nextToken)
    (started : ∀ job a phase, s'.pump = .running job (some a) phase →
      (∃ job' phase', s.pump = .running job' (some a) phase') ∨ a.token < s'.nextToken) :
    Base s' where
  begins job mem begin := by
    rcases queue job mem with mem | formed
    · exact base.begins job mem begin
    · exact formed.1 begin
  signals job mem finish := by
    rcases queue job mem with mem | formed
    · exact base.signals job mem finish
    · exact formed.2 finish
  handed token mem := by
    rcases handed token mem with mem | below
    · exact lt_of_lt_of_le (base.handed token mem) next
    · exact below
  ended ending mem := by
    rcases ended ending mem with mem | below
    · exact lt_of_lt_of_le (base.ended ending mem) next
    · exact below
  active a begun := by
    rcases active a begun with begun | below
    · exact lt_of_lt_of_le (base.active a begun) next
    · exact below
  started job a phase running := by
    rcases started job a phase running with ⟨job', phase', running'⟩ | below
    · exact lt_of_lt_of_le (base.started job' a phase' running') next
    · exact below

/-- A step that issues nothing. -/
theorem Base.keep {s s' : State} (base : Base s) (queue : ∀ job ∈ s'.queue, job ∈ s.queue)
    (handed : s'.handed = s.handed) (next : s'.nextToken = s.nextToken)
    (ended : s'.ended = s.ended) (active : ∀ a, s'.active = some a → s.active = some a)
    (pump : ∀ job a phase, s'.pump = .running job (some a) phase →
      ∃ job' phase', s.pump = .running job' (some a) phase') : Base s' :=
  base.grow (fun job mem => Or.inl (queue job mem)) (le_of_eq next.symm)
    (fun _ mem => Or.inl (handed ▸ mem)) (fun _ mem => Or.inl (ended ▸ mem))
    (fun a begun => Or.inl (active a begun)) fun job a phase here => Or.inl (pump job a phase here)

/-- None of the parts changes. -/
theorem Base.same {s s' : State} (base : Base s) (queue : s'.queue = s.queue)
    (handed : s'.handed = s.handed) (next : s'.nextToken = s.nextToken)
    (ended : s'.ended = s.ended) (active : s'.active = s.active) (pump : s'.pump = s.pump) :
    Base s' :=
  base.keep (fun _ mem => queue ▸ mem) handed next ended (fun _ begun => active ▸ begun)
    fun job _ phase here => ⟨job, phase, pump ▸ here⟩

/-- The pump comes to run nothing of a begin, and nothing else changes. -/
theorem Base.moves {s : State} (base : Base s) {pump : Pump}
    (other : ∀ job a phase, pump ≠ .running job (some a) phase) : Base { s with pump := pump } :=
  base.keep (fun _ mem => mem) rfl rfl rfl (fun _ begun => begun)
    fun job a phase here => absurd here (other job a phase)

section Base

variable {s : State}

theorem Base.callPump (base : Base s) : Base s.callPump := by
  refine base.keep (by simp) (by simp) (by simp) (by simp) (by simp) fun job a phase here => ?_
  rw [State.callPump_pump] at here
  split at here
  · cases here
  · exact ⟨job, phase, here⟩

theorem Base.rejectQueued (base : Base s) (p : Job → Bool) (reason : Rejection) :
    Base (s.rejectQueued p reason) := by
  refine base.keep (fun job mem => ?_) (by simp) (by simp) (by simp) (by simp)
    fun job a phase here => ⟨job, phase, by simpa using here⟩
  rw [State.rejectQueued_queue] at mem
  exact List.mem_of_mem_filter mem

theorem Base.settleJob (base : Base s) (job : Job) (outcome : Outcome) :
    Base (s.settleJob job outcome) :=
  base.same rfl rfl rfl rfl rfl rfl

theorem Base.clearActive (base : Base s) (target : Active) : Base (s.clearActive target) := by
  refine base.keep (by simp) (by simp) (by simp) (by simp) (fun a begun => ?_)
    fun job a phase here => ⟨job, phase, by simpa using here⟩
  unfold State.clearActive at begun
  split at begun
  · cases begun
  · exact begun

theorem Base.poisonOwner (base : Base s) (owner : DbOwner) : Base (s.poisonOwner owner) := by
  have failed : Base { s with failedOwners := s.failedOwners ++ [ownerKey owner] } :=
    base.same rfl rfl rfl rfl rfl rfl
  exact failed.rejectQueued _ _

theorem Base.releaseQueued (base : Base s) (owner : DbOwner) : Base (s.releaseQueued owner) :=
  (base.rejectQueued _ _).callPump

theorem Base.returnFinish (base : Base s) (finish : Finish) (outcome : Outcome) :
    Base (s.returnFinish finish outcome) := by
  unfold State.returnFinish
  have cleared := (base.rejectQueued (fun job => job.token = some finish.finished.token)
    .tokenInvalid).clearActive finish.finished
  exact Base.callPump (cleared.same rfl rfl rfl rfl rfl rfl)

/-- The end that begins is that of an issued token. -/
theorem Base.rollbackBegins (base : Base s) {target : Active} (below : target.token < s.nextToken) :
    Base (s.rollbackBegins target) := by
  refine base.grow (fun _ => Or.inl) (le_refl _) (fun _ => Or.inl) (fun ending mem => ?_)
    (fun _ => Or.inl) fun job _ phase here => Or.inl ⟨job, phase, here⟩
  rcases List.mem_append.1 mem with mem | mem
  · exact Or.inl mem
  · rw [List.mem_singleton.1 mem]
    exact Or.inr below

theorem Base.enqueue (base : Base s) (owner : DbOwner) (token : Option TxToken)
    (operation : Operation) (signal : Option Nat) (begins : operation = .begin → token = none)
    (signals : operation = .finish → signal = none) :
    Base (s.enqueue owner token operation signal) := by
  have next : Base { s with nextId := s.nextId + 1, enqueued := s.enqueued ++ [s.nextId] } :=
    base.same rfl rfl rfl rfl rfl rfl
  unfold State.enqueue
  dsimp only
  split
  · exact next.settleJob _ _
  · split
    · exact next.settleJob _ _
    · split
      · exact next.settleJob _ _
      · split
        · exact next.settleJob _ _
        · refine Base.callPump (base.grow (fun job mem => ?_) (le_refl _) (fun _ => Or.inl)
            (fun _ => Or.inl) (fun _ => Or.inl) fun job _ phase here => Or.inl ⟨job, phase, here⟩)
          rcases List.mem_append.1 mem with mem | mem
          · exact Or.inl mem
          · rw [List.mem_singleton.1 mem]
            exact Or.inr ⟨begins, signals⟩

theorem Base.take (base : Base s) (leaseMs now : Int) (job : Job) : Base (s.take leaseMs now job) := by
  have refused : ∀ reason, Base (s.refuse job reason) := by
    intro reason
    exact (base.settleJob job (.rejected reason)).moves fun _ _ _ here => by cases here
  unfold State.take
  split
  · exact refused _
  · rename_i admitted
    split
    · exact refused _
    · unfold State.start
      split
      · exact base.moves fun _ _ _ here => by cases here
      · refine base.grow (fun _ => Or.inl) (Nat.le_succ _) (fun _ => Or.inl) (fun _ => Or.inl)
          (fun a begun => ?_) fun _ a _ here => ?_
        · obtain rfl := Option.some.inj begun
          exact Or.inr (Nat.lt_succ_self _)
        · cases here
          exact Or.inr (Nat.lt_succ_self _)
      · refine base.grow (fun _ => Or.inl) (le_refl _) (fun _ => Or.inl) (fun ending mem => ?_)
          (fun _ => Or.inl) fun _ _ _ here => by cases here
        rcases List.mem_append.1 mem with mem | mem
        · exact Or.inl mem
        · cases carried : job.token with
          | none =>
              rw [carried] at mem
              cases mem
          | some token =>
              rw [carried, Option.toList_some, List.map_cons, List.map_nil,
                List.mem_singleton] at mem
              rw [carried] at admitted
              simp only [State.admitted, Option.all_some, State.owns, Bool.not_eq_true',
                Bool.not_eq_false, Option.any_eq_true, Bool.and_eq_true,
                decide_eq_true_eq] at admitted
              obtain ⟨active, begun, same, _⟩ := admitted
              rw [mem, ← same]
              exact Or.inr (base.active active begun)

theorem Base.select (base : Base s) (leaseMs now : Int) : Base (s.select leaseMs now) := by
  unfold State.select
  split
  · exact base.moves fun _ _ _ here => by cases here
  · have taken : Base (taken s) :=
      base.keep (fun _ mem => List.mem_of_mem_eraseP mem) rfl rfl rfl (fun _ => id)
        fun job _ phase here => ⟨job, phase, here⟩
    exact taken.take leaseMs now _

theorem Base.turn (base : Base s) (leaseMs now : Int) : Base (s.turn leaseMs now) := by
  unfold State.turn
  split
  · exact base.select leaseMs now
  · split
    · exact base.moves fun _ _ _ here => by cases here
    · split
      · rename_i active late
        have begun : s.active = some active := (Option.filter_eq_some_iff.1 late).1
        have below : active.token <
            (s.rejectQueued (fun job => job.token = some active.token) .expired).nextToken := by
          simpa using base.active active begun
        have rolled := (base.rejectQueued (fun job => job.token = some active.token)
          .expired).rollbackBegins below
        exact rolled.moves fun _ _ _ here => by cases here
      · exact base.select leaseMs now

theorem Base.workSettles {s' : State} {ok : Bool} (base : Base s)
    (settles : s.workSettles ok = some s') : Base s' := by
  obtain ⟨job, started, running⟩ := workSettles_running settles
  have phased : ∀ {t : State} (phase : JobPhase), Base t → t.pump = s.pump →
      Base { t with pump := .running job started phase } := by
    intro t phase held same
    refine held.keep (fun _ mem => mem) rfl rfl rfl (fun _ => id) fun _ a _ here => ?_
    cases here
    exact ⟨job, .working, same.trans running⟩
  unfold State.workSettles at settles
  simp only [running] at settles
  split at settles
  · rename_i active _
    split at settles
    · obtain rfl := Option.some.inj settles
      exact phased _ base rfl
    · obtain rfl := Option.some.inj settles
      exact phased _ (base.rollbackBegins (base.started job active .working running)) rfl
  · obtain rfl := Option.some.inj settles
    exact phased _ (base.rejectQueued _ _) (by simp)
  · obtain rfl := Option.some.inj settles
    exact phased _ base rfl

theorem Base.resume {s' : State} (base : Base s) (resumes : s.resume = some s') : Base s' := by
  obtain ⟨job, started, outcome, running⟩ := resume_running resumes
  unfold State.resume at resumes
  simp only [running] at resumes
  obtain rfl := Option.some.inj resumes
  refine (base.settleJob job outcome).grow (fun _ => Or.inl) (le_refl _) (fun token mem => ?_)
    (fun _ => Or.inl) (fun _ => Or.inl) fun _ _ _ here => by cases here
  rcases List.mem_append.1 mem with mem | mem
  · exact Or.inl mem
  · refine Or.inr ?_
    split at mem
    · cases given : started with
      | none =>
          rw [given] at mem
          cases mem
      | some active =>
          rw [given, Option.toList_some, List.map_cons, List.map_nil, List.mem_singleton] at mem
          rw [given] at running
          rw [mem]
          exact base.started job active _ running
    · cases mem

theorem Base.afterRollback (base : Base s) (active : Active) {owner : DbOwner}
    {phase : RollbackPhase} (site : State.Site)
    (here : s.rollbackAt site = some (active, owner, phase)) :
    Base (s.afterRollback active site) := by
  have cleared := base.clearActive active
  cases site with
  | pump =>
      simp only [State.afterRollback]
      split
      · rename_i job started phase running
        refine cleared.keep (fun _ mem => mem) rfl rfl rfl (fun _ => id) fun _ a _ same => ?_
        cases same
        exact ⟨job, phase, (State.clearActive_pump ..).trans running⟩
      · exact cleared.moves fun _ _ _ here => by cases here
  | finish id =>
      simp only [State.afterRollback]
      split
      · split
        · exact base.returnFinish _ _
        · exact base
      · exact base
  | release id =>
      simp only [State.afterRollback]
      split
      · have left : Base { s.clearActive active with
            releases := (s.clearActive active).releases.filter fun other => other.id ≠ id } :=
          cleared.same rfl rfl rfl rfl rfl rfl
        exact left.releaseQueued _
      · exact base
  | close =>
      exact cleared.same rfl rfl rfl rfl rfl rfl

theorem Base.poisoning (base : Base s) (site : State.Site) : Base (s.poisoning site) := by
  cases site with
  | pump =>
      simp only [State.poisoning]
      split
      · exact base.moves fun _ _ _ here => by cases here
      · rename_i job started phase running
        refine base.keep (fun _ mem => mem) rfl rfl rfl (fun _ => id) fun _ a _ here => ?_
        cases here
        exact ⟨job, phase, running⟩
      · exact base
  | finish id => exact base.same rfl rfl rfl rfl rfl rfl
  | release id => exact base.same rfl rfl rfl rfl rfl rfl
  | close =>
      simp only [State.poisoning]
      split
      · exact base.same rfl rfl rfl rfl rfl rfl
      · exact base

theorem Base.finishResumes {s' : State} {id : Nat} (base : Base s)
    (resumes : s.finishResumes id = some s') : Base s' := by
  obtain ⟨finish, _, resumes⟩ := Option.bind_eq_some_iff.1 resumes
  split at resumes
  · dsimp only at resumes
    split at resumes
    · rename_i again
      obtain rfl := Option.some.inj resumes
      simp only [Bool.and_eq_true, Option.any_eq_true, decide_eq_true_eq] at again
      obtain ⟨_, active, begun, same⟩ := again
      have below : finish.finished.token < s.nextToken := same ▸ base.active active begun
      exact (base.rollbackBegins below).same rfl rfl rfl rfl rfl rfl
    · obtain rfl := Option.some.inj resumes
      exact base.returnFinish _ _
  · cases resumes

theorem Base.release (base : Base s) (owner : DbOwner) : Base (s.release owner) := by
  unfold State.release
  split
  · rename_i active begun
    split
    · exact (base.rollbackBegins (base.active active begun)).same rfl rfl rfl rfl rfl rfl
    · exact base.releaseQueued owner
  · exact base.releaseQueued owner

theorem Base.close (base : Base s) : Base s.close := by
  unfold State.close
  split
  · exact base
  · dsimp only
    rw [State.settleJobs_eq]
    exact base.keep (fun _ mem => by cases mem) rfl rfl rfl (fun _ => id)
      fun job _ phase here => ⟨job, phase, here⟩

theorem Base.closeResumes {s' : State} (base : Base s) (resumes : s.closeResumes = some s') :
    Base s' := by
  unfold State.closeResumes at resumes
  dsimp only at resumes
  split at resumes
  · cases resumes
  · split at resumes
    · rename_i active begun
      obtain rfl := Option.some.inj resumes
      exact (base.rollbackBegins (base.active active begun)).same rfl rfl rfl rfl rfl rfl
    · obtain rfl := Option.some.inj resumes
      exact base.same rfl rfl rfl rfl rfl rfl

end Base

/-- What the steps keep: the queue is drained, the tokens are issued ones, and the
transaction is in one of its phases. -/
structure Inv (s : State) : Prop where
  drained : Drained s
  base : Base s
  mode : Mode s

theorem step_base {leaseMs : Int} {s s' : State} {action : Action} (base : Base s)
    (took : step leaseMs s action = some s') : Base s' := by
  unfold step at took
  split at took
  · cases action with
    | turn now =>
        obtain rfl := Option.some.inj took
        exact base.turn leaseMs now
    | _ => cases took
  · cases action with
    | run owner token signal =>
        dsimp only at took
        split at took
        · obtain rfl := Option.some.inj took
          exact base.enqueue _ _ _ _ (fun h => by cases h) fun h => by cases h
        · cases took
    | begin owner signal =>
        obtain rfl := Option.some.inj took
        exact base.enqueue _ _ _ _ (fun _ => rfl) fun h => by cases h
    | finish owner token =>
        dsimp only at took
        split at took
        · obtain rfl := Option.some.inj took
          unfold State.finish
          split
          · split
            · rename_i active _ _
              have awaiting : Base (s.awaitFinish active) := base.same rfl rfl rfl rfl rfl rfl
              exact awaiting.enqueue _ _ _ _ (fun h => by cases h) fun _ => rfl
            · exact base
          · exact base
        · cases took
    | release owner =>
        obtain rfl := Option.some.inj took
        exact base.release owner
    | close =>
        obtain rfl := Option.some.inj took
        exact base.close
    | abort signal =>
        obtain rfl := Option.some.inj took
        exact (base.rejectQueued (fun job => job.signal = some signal) .cancelled).same rfl rfl rfl
          rfl rfl rfl
    | timer =>
        obtain rfl := Option.some.inj took
        exact base.callPump
    | turn now => cases took
    | workSettles ok => exact base.workSettles took
    | resume => exact base.resume took
    | rollbackSettles site ok =>
        obtain ⟨⟨active, owner, phase⟩, here, settles⟩ := Option.bind_eq_some_iff.1 took
        dsimp only at settles
        split at settles
        · cases settles
        · split at settles
          · obtain rfl := Option.some.inj settles
            exact base.afterRollback active site here
          · obtain rfl := Option.some.inj settles
            exact (base.poisonOwner owner).poisoning site
    | poisonSettles site =>
        obtain ⟨⟨active, owner, phase⟩, here, settles⟩ := Option.bind_eq_some_iff.1 took
        dsimp only at settles
        split at settles
        · cases settles
        · obtain rfl := Option.some.inj settles
          exact base.afterRollback active site here
    | finishResumes id => exact base.finishResumes took
    | closeResumes => exact base.closeResumes took

/-- A step that keeps the ends of the transaction apart leads from phase to phase. -/
theorem step_mode {leaseMs : Int} {s s' : State} {action : Action} (inv : Inv s)
    (apart : Apart s action) (took : step leaseMs s action = some s') : Mode s' := by
  obtain ⟨drained, base, mode⟩ := inv
  unfold step at took
  split at took
  · rename_i turning
    cases action with
    | turn now =>
        obtain rfl := Option.some.inj took
        exact mode.turn base drained turning leaseMs now apart
    | _ => cases took
  · cases action with
    | run owner token signal =>
        dsimp only at took
        split at took
        · obtain rfl := Option.some.inj took
          refine mode.enqueue owner token .run signal (fun h => by cases h) fun wind admitted => ?_
          cases token with
          | none => rfl
          | some token =>
              have owns : s.owns owner token = true := admitted
              rw [apart owns] at wind
              cases wind
        · cases took
    | begin owner signal =>
        obtain rfl := Option.some.inj took
        exact mode.enqueue owner none .begin signal (fun h => by cases h) fun _ _ => rfl
    | finish owner token =>
        dsimp only at took
        split at took
        · rename_i known
          obtain rfl := Option.some.inj took
          exact mode.finish base known apart
        · cases took
    | release owner =>
        obtain rfl := Option.some.inj took
        exact mode.release drained apart
    | close =>
        obtain rfl := Option.some.inj took
        exact mode.close apart
    | abort signal =>
        obtain rfl := Option.some.inj took
        refine Mode.quiet (mode.rejectQueued (fun job => job.signal = some signal) .cancelled ?_)
          rfl rfl rfl rfl rfl rfl (Or.inl rfl) rfl fun _ job mem => Or.inl mem
        intro job mem hit operation
        rw [base.signals job mem operation] at hit
        cases hit
    | timer =>
        obtain rfl := Option.some.inj took
        exact mode.callPump
    | turn now => cases took
    | workSettles ok => exact mode.workSettles apart took
    | resume => exact mode.resume took
    | rollbackSettles site ok =>
        obtain ⟨⟨active, owner, phase⟩, here, settles⟩ := Option.bind_eq_some_iff.1 took
        dsimp only at settles
        split at settles
        · cases settles
        · split at settles
          · obtain rfl := Option.some.inj settles
            exact mode.afterRollback here
          · obtain rfl := Option.some.inj settles
            have queued : finishJobs s = [] := by
              by_cases atPump : site = .pump
              · subst atPump
                exact (mode.at_pump here).1
              · exact (mode.at_outside atPump here).2.1
            have here' := (poisonOwner_rollbackAt queued owner site).trans here
            exact (mode.poisonOwner queued owner).poisoning here'
    | poisonSettles site =>
        obtain ⟨⟨active, owner, phase⟩, here, settles⟩ := Option.bind_eq_some_iff.1 took
        dsimp only at settles
        split at settles
        · cases settles
        · obtain rfl := Option.some.inj settles
          exact mode.afterRollback here
    | finishResumes id => exact mode.finishResumes took
    | closeResumes => exact mode.closeResumes drained took

theorem step_inv {leaseMs : Int} {s s' : State} {action : Action} (inv : Inv s)
    (apart : Apart s action) (took : step leaseMs s action = some s') : Inv s' :=
  ⟨step_drained inv.drained took, step_base inv.base took, step_mode inv apart took⟩

theorem inv_initial : Inv State.initial where
  drained := drained_initial
  base :=
    ⟨fun _ mem => (by cases mem), fun _ mem => (by cases mem), fun _ mem => (by cases mem),
      fun _ mem => (by cases mem), fun _ begun => (by cases begun),
      fun _ _ _ running => (by cases running)⟩
  mode := .free rfl rfl rfl (Or.inl (Or.inl rfl)) rfl (.resting (Or.inl rfl))

/-- **Exclusivity of transactions.**  In a run that keeps the ends of each transaction
apart, in every state: at most one piece of work executes, it is the active
transaction's if there is one, and none that carries a token executes once the end of
its transaction has begun.  In every state of it an operation is settled once, or not
yet and in the queue or with the pump, a call of `finish` likewise; and a pump at rest
leaves nothing in the queue that may run. -/
theorem coordinator_exclusive {leaseMs : Int} {actions : List Action} {s : State}
    (apart : Along (step leaseMs) Apart State.initial actions)
    (ran : runSteps (step leaseMs) State.initial actions = some s) :
    Exclusive s ∧ Counted s ∧ Drained s := by
  have inv : Inv s := run_keeps (fun _ _ _ => step_inv) inv_initial apart ran
  have counted : Counted s :=
    run_invariant (fun _ _ _ => step_counted) counted_initial ran
  exact ⟨inv.mode.exclusive, counted, inv.drained⟩

/-! ## A release beside work -/

/-- A begins, and its owner's release comes while an operation of it executes. -/
def ownerA : DbOwner := .plugin "one" (some "one-1") none

def beginRun : List Action :=
  [.begin ownerA none, .turn 0, .workSettles true, .resume, .turn 0]

def runThenRelease : List Action :=
  beginRun ++ [.run ownerA (some 0) none, .turn 1, .release ownerA]

/-- **Two pieces of work.**  The release rolls back beside the operation. -/
theorem release_beside_work : ∃ s, runSteps (step 30000) State.initial runThenRelease = some s ∧
    executing s = [.job ⟨1, ownerA, some 0, .run, none⟩ none, .rollback ⟨ownerA, 0, 30000⟩] ∧
    ¬Exclusive s := by
  refine ⟨_, rfl, by decide, fun exclusive => ?_⟩
  have := exclusive.one
  revert this
  decide

/-- The operation is over before the release, and the release before what follows it. -/
def runDoneRelease : List Action :=
  beginRun ++ [.run ownerA (some 0) none, .turn 1, .workSettles true, .resume, .turn 2,
    .release ownerA, .run ownerA none none, .turn 3, .rollbackSettles (.release 2) true, .turn 4]

theorem coordinator_exclusive_released : ∃ s,
    runSteps (step 30000) State.initial runDoneRelease = some s ∧
      Exclusive s ∧ Counted s ∧ Drained s := by
  exact ⟨_, rfl, @coordinator_exclusive 30000 runDoneRelease _ (by decide +kernel) rfl⟩

end Kiagent.Db.Coordinator
