/-
# Engine.PullLoop -- one account's pull loops, and the pause that stops them

A run replaces the account's loop: it aborts the loop of the running map's entry,
takes its place there, and begins when that loop is over.  A pause declares its
intent, which refuses new runs, stops the entry's loop and waits for its end, and
commits `paused`; its end takes the intent back.

Two ways past it:

* a run that finds no registered source takes the entry's place without stopping
  the loop there, which nothing can stop any more (`unsourced_run_leaves_loop`);
* the intent is one flag, so the end of another pause, or a resume, takes it back
  while a pause is in flight, and a run is accepted (`run_during_pause`).

In every run without the first, no two loops are at work at once; in every run
without both, no loop is left to commit after a pause, until the next resume or run
(`pause_stops_loops`).
-/
import Kiagent.Theory.Chain
import Kiagent.Theory.Runs

namespace Kiagent.Engine.PullLoop

open Kiagent.Theory

set_option autoImplicit false

universe u v

variable {δ : Type u} {κ : Type v}

/-! ## The account -/

inductive SyncStatus where
  | connecting
  | backfilling
  | live
  | paused
  | needsReauth
  | needsConnector
  | error
  deriving DecidableEq

def isResting (status : SyncStatus) : Bool :=
  status = .paused || status = .needsReauth || status = .needsConnector

/-- Resting, and no run starts it. -/
def isParked (status : SyncStatus) : Bool :=
  status = .paused || status = .needsConnector

/-- What a loop and a pause read and write of the account, with the documents that
were committed for it. -/
structure Account (δ : Type u) (κ : Type v) where
  documents : List δ
  cursor : Option κ
  status : SyncStatus
  deriving DecidableEq

/-- What one `store.commit` carries. -/
structure Batch (δ : Type u) (κ : Type v) where
  documents : List δ
  cursor : Option κ
  status : SyncStatus
  deriving DecidableEq

def Account.commit (account : Account δ κ) (batch : Batch δ κ) : Account δ κ :=
  ⟨account.documents ++ batch.documents, batch.cursor, batch.status⟩

/-! ## Loops -/

/-- Where a commit was made: in the stream, at its end, or in the catch. -/
inductive After where
  | pull
  | live
  | failure
  deriving DecidableEq

inductive Point (δ : Type u) (κ : Type v) where
  /-- `await prev?.stop()`. -/
  | waiting
  /-- The account's row is being read. -/
  | reading
  /-- The row's answer is on its way. -/
  | entering (status : SyncStatus)
  /-- Between two commits: the next batch, its conversion, its slot. -/
  | pulling
  | committing (batch : Batch δ κ) (after : After)
  /-- The commit's answer is on its way. -/
  | committed (after : After)
  /-- The attempt failed; its reconcile pass is awaited. -/
  | caught
  /-- The last commit reads the cursor it repeats. -/
  | ending (status : SyncStatus) (after : After)
  | sleeping
  | finished
  deriving DecidableEq

structure Loop (δ : Type u) (κ : Type v) where
  /-- The loop it replaces. -/
  prev : Option Nat
  aborted : Bool
  point : Point δ κ

def Loop.waits (l : Loop δ κ) : Bool :=
  match l.point with
  | .waiting => true
  | _ => false

def Loop.finished (l : Loop δ κ) : Bool :=
  match l.point with
  | .finished => true
  | _ => false

/-- The loop has begun and has not ended: its first pull and its last commit lie here. -/
def Loop.atWork (l : Loop δ κ) : Bool := !l.waits && !l.finished

inductive LoopAct (δ : Type u) (κ : Type v) where
  /-- What the loop awaits arrives, and it goes on. -/
  | proceed
  /-- What the loop awaits throws. -/
  | throw
  /-- A sub-commit of a batch is sent. -/
  | send (batch : Batch δ κ)
  /-- The stream has ended. -/
  | finish
  /-- The failure is final: its status is committed. -/
  | giveUp (status : SyncStatus)
  | backOff

/-- Where the loop is after a commit, or the read before it, throws. -/
def After.thrown : After → Point δ κ
  | .pull | .live => .caught
  | .failure => .finished

/-- One stretch of a loop, from one await to the next. -/
def turn (account : Account δ κ) (intent free : Bool) (l : Loop δ κ) :
    LoopAct δ κ → Option (Account δ κ × Point δ κ)
  | .proceed =>
      match l.point with
      | .waiting => if free then some (account, if l.aborted then .finished else .reading) else none
      | .reading => some (account, .entering account.status)
      | .entering status => some (account, if isParked status || intent then .finished else .pulling)
      | .pulling => if l.aborted then some (account, .finished) else none
      | .committing batch after => some (account.commit batch, .committed after)
      | .committed after => some (account, if after = .pull then .pulling else .finished)
      -- Aborted, or the role gate closed.
      | .caught => some (account, .finished)
      | .ending status after =>
          some (account, .committing ⟨[], account.cursor, status⟩ after)
      | .sleeping => some (account, .reading)
      | .finished => none
  | .throw =>
      match l.point with
      | .reading | .entering _ | .pulling => some (account, .caught)
      | .committing _ after | .committed after | .ending _ after => some (account, after.thrown)
      | .sleeping => if l.aborted then some (account, .finished) else none
      | .waiting | .caught | .finished => none
  | .send batch =>
      match l.point with
      | .pulling => if l.aborted then none else some (account, .committing batch .pull)
      | _ => none
  | .finish =>
      match l.point with
      | .pulling => if l.aborted then none else some (account, .ending .live .live)
      | _ => none
  | .giveUp status =>
      match l.point with
      | .caught => if l.aborted then none else some (account, .ending status .failure)
      | _ => none
  | .backOff =>
      match l.point with
      | .caught => if l.aborted then none else some (account, .sleeping)
      | _ => none

/-! ## The engine -/

/-- A call in flight. -/
inductive Call (κ : Type v) where
  /-- A pause stops a loop. -/
  | stopping (loop : Option Nat)
  /-- It reads the row, after the loop's end. -/
  | pausing
  | parking (cursor : Option κ)
  /-- Its commit is stored, or not. -/
  | parked (stored : Bool)
  | resuming
  | connecting (cursor : Option κ)
  /-- `updateConfig` stores the configuration. -/
  | configuring
  /-- A tick, or `updateConfig`, reads the account it may start. -/
  | rereading
  | starting (status : SyncStatus)
  | returned
  deriving DecidableEq

/-- A pause after its loop's end. -/
def Call.stopped : Call κ → Bool
  | .pausing | .parking _ | .parked _ => true
  | _ => false

/-- A pause. -/
def Call.pauses : Call κ → Bool
  | .stopping _ | .pausing | .parking _ | .parked _ => true
  | _ => false

/-- The engine, as one account sees it.  No folder-scope or reconnect transition is
among its calls, so `transitionIntents` does not have the account. -/
structure AccountLoops (δ : Type u) (κ : Type v) where
  account : Account δ κ
  /-- `deps.sources` has the account's source. -/
  sourced : Bool
  loops : Nat → Loop δ κ
  loopCount : Nat
  /-- The entry of the `running` map. -/
  running : Option Nat
  /-- `pauseIntents` has the account. -/
  intent : Bool
  calls : List (Call κ)
  /-- A pause has resolved, and no resume or run was called since. -/
  quiet : Bool

inductive Act (δ : Type u) (κ : Type v) where
  /-- The source is registered, or its extension's host is gone. -/
  | register (present : Bool)
  | run
  /-- The account's cadence job. -/
  | tick
  | pause
  | resume
  | updateConfig
  | loop (i : Nat) (act : LoopAct δ κ)
  /-- What a call awaits arrives. -/
  | proceed (k : Nat)
  /-- What a call awaits throws. -/
  | throw (k : Nat)

namespace AccountLoops

/-- The loop at `i` moves on. -/
def reach (s : AccountLoops δ κ) (i : Nat) (point : Point δ κ) : AccountLoops δ κ :=
  { s with loops := Function.update s.loops i { s.loops i with point } }

def abort (s : AccountLoops δ κ) : Option Nat → AccountLoops δ κ
  | none => s
  | some i => { s with loops := Function.update s.loops i { s.loops i with aborted := true } }

/-- A stopped handle leaves the map if it is still the entry. -/
def drop (s : AccountLoops δ κ) (i : Nat) : AccountLoops δ κ :=
  if s.running = some i then { s with running := none } else s

/-- A new loop takes the entry's place. -/
def add (s : AccountLoops δ κ) (prev : Option Nat) (point : Point δ κ) : AccountLoops δ κ :=
  { s with
    loops := Function.update s.loops s.loopCount ⟨prev, false, point⟩
    loopCount := s.loopCount + 1
    running := some s.loopCount
    quiet := false }

def run (s : AccountLoops δ κ) : AccountLoops δ κ :=
  if s.intent then s
  else if s.sourced then (s.abort s.running).add s.running .waiting
  -- No source: the handle is over from the start, and the entry's loop is not stopped.
  else s.add none .finished

/-- `isRunning`. -/
def isRunning (s : AccountLoops δ κ) : Bool := s.running.any fun i => !(s.loops i).finished

def call (s : AccountLoops δ κ) (c : Call κ) : AccountLoops δ κ := { s with calls := s.calls ++ [c] }

def goes (s : AccountLoops δ κ) (k : Nat) (c : Call κ) : AccountLoops δ κ :=
  { s with calls := s.calls.set k c }

/-- The loop's predecessor is over, and so is its `stop()`. -/
def free (s : AccountLoops δ κ) (i : Nat) : Bool := (s.loops i).prev.all fun j => (s.loops j).finished

def proceed (s : AccountLoops δ κ) (k : Nat) : Call κ → Option (AccountLoops δ κ)
  | .stopping none => some (s.goes k .pausing)
  | .stopping (some i) => if (s.loops i).finished then some ((s.drop i).goes k .pausing) else none
  | .pausing => some (s.goes k (.parking s.account.cursor))
  | .parking cursor =>
      some ({ s with account := s.account.commit ⟨[], cursor, .paused⟩ }.goes k (.parked true))
  -- The `finally`: whatever became of the commit, the intent goes.
  | .parked stored => some ({ s with intent := false, quiet := s.quiet || stored }.goes k .returned)
  | .resuming => some (s.goes k (.connecting s.account.cursor))
  | .connecting cursor =>
      some ({ s with account := s.account.commit ⟨[], cursor, .connecting⟩ }.goes k .returned)
  | .configuring => some (s.goes k (if s.running.isSome then .rereading else .returned))
  | .rereading => some (s.goes k (.starting s.account.status))
  | .starting status => some ((if isResting status then s else s.run).goes k .returned)
  | .returned => none

def throw (s : AccountLoops δ κ) (k : Nat) : Call κ → Option (AccountLoops δ κ)
  | .pausing | .parking _ | .parked true => some (s.goes k (.parked false))
  | .resuming | .connecting _ | .configuring | .rereading => some (s.goes k .returned)
  | .stopping _ | .parked false | .starting _ | .returned => none

end AccountLoops

def step (s : AccountLoops δ κ) : Act δ κ → Option (AccountLoops δ κ)
  | .register present => some { s with sourced := present }
  | .run => some s.run
  | .tick => some (if s.isRunning then s else s.call .rereading)
  | .pause => some ({ s with intent := true }.abort s.running |>.call (.stopping s.running))
  | .resume => some ({ s with intent := false, quiet := false }.call .resuming)
  | .updateConfig => some (s.call .configuring)
  | .loop i act =>
      if i < s.loopCount then
        (turn s.account s.intent (s.free i) (s.loops i) act).map fun next =>
          { s with account := next.1 }.reach i next.2
      else none
  | .proceed k => (s.calls[k]?).bind (s.proceed k)
  | .throw k => (s.calls[k]?).bind (s.throw k)

/-! ## Conditions -/

/-- The step calls `run`, which does not refuse it. -/
def accepts (s : AccountLoops δ κ) : Act δ κ → Bool
  | .run => !s.intent
  | .proceed k =>
      match s.calls[k]? with
      | some (.starting status) => !isResting status && !s.intent
      | _ => false
  | _ => false

/-- A run that finds no source finds no loop either. -/
def SourceFound (s : AccountLoops δ κ) (a : Act δ κ) : Prop :=
  accepts s a = true → s.sourced = false → ∀ i < s.loopCount, (s.loops i).finished = true

/-- No run is accepted while a pause is in flight. -/
def PauseRefuses (s : AccountLoops δ κ) (a : Act δ κ) : Prop :=
  accepts s a = true → ∀ c ∈ s.calls, c.pauses = false

instance (s : AccountLoops δ κ) (a : Act δ κ) : Decidable (SourceFound s a) :=
  inferInstanceAs (Decidable (accepts s a = true → s.sourced = false → _))

instance (s : AccountLoops δ κ) (a : Act δ κ) : Decidable (PauseRefuses s a) :=
  inferInstanceAs (Decidable (accepts s a = true → _))

/-! ## Loops that something waits for -/

def prevOf (loops : Nat → Loop δ κ) (i : Nat) : Option Nat := (loops i).prev

/-- The end of `h` waits for every loop that is not over. -/
def Covers (s : AccountLoops δ κ) (h : Option Nat) : Prop :=
  ∀ i < s.loopCount, (s.loops i).finished = false → ∃ y, h = some y ∧ Awaits (prevOf s.loops) y i

/-- Every loop is over. -/
abbrev Ended (s : AccountLoops δ κ) : Prop := Covers s none

theorem Ended.finished {s : AccountLoops δ κ} (ended : Ended s) {i : Nat} (low : i < s.loopCount) :
    (s.loops i).finished = true := by
  cases active : (s.loops i).finished with
  | true => rfl
  | false =>
      obtain ⟨_, there, _⟩ := ended i low active
      cases there

structure Linked (s : AccountLoops δ κ) : Prop where
  /-- A loop begins when the one it replaces is over. -/
  prev : ∀ i < s.loopCount, ∀ j, (s.loops i).prev = some j →
    j < i ∧ ((s.loops i).waits = false → (s.loops j).finished = true)
  running : ∀ i, s.running = some i → i < s.loopCount
  stopping : ∀ i, .stopping (some i) ∈ s.calls → i < s.loopCount
  covered : Covers s s.running

/-- A pause's promise, from the moment it stops the entry's loop. -/
structure Paused (s : AccountLoops δ κ) : Prop where
  stopping : ∀ h, .stopping h ∈ s.calls → Covers s h
  stopped : ∀ c ∈ s.calls, c.stopped = true → Ended s
  quiet : s.quiet = true → Ended s

theorem Loop.waits_of_over {l : Loop δ κ} (finished : l.finished = true) : l.waits = false := by
  unfold Loop.finished at finished
  unfold Loop.waits
  split at finished <;> simp_all

/-- The end of a loop is the end of all it waits for. -/
theorem Linked.over_of_awaits {s : AccountLoops δ κ} (linked : Linked s) {y i : Nat}
    (low : y < s.loopCount) (awaits : Awaits (prevOf s.loops) y i)
    (finished : (s.loops y).finished = true) : (s.loops i).finished = true :=
  awaits.carry (p := fun i => (s.loops i).finished = true) low (fun i low j before =>
    let ⟨lower, begun⟩ := linked.prev i low j before
    ⟨lower, fun finished => begun (Loop.waits_of_over finished)⟩) finished

/-- What waits for every loop has ended. -/
theorem Linked.ended {s : AccountLoops δ κ} (linked : Linked s) {y : Nat} (low : y < s.loopCount)
    (covers : Covers s (some y)) (finished : (s.loops y).finished = true) : Ended s := by
  intro i inside active
  obtain ⟨_, there, awaits⟩ := covers i inside active
  obtain rfl := Option.some.inj there
  rw [linked.over_of_awaits low awaits finished] at active
  cases active

/-- **Of two loops at work, one waited for the other to be over.** -/
theorem Linked.exclusive {s : AccountLoops δ κ} (linked : Linked s) {i j : Nat}
    (low : i < s.loopCount) (low' : j < s.loopCount) (work : (s.loops i).atWork = true)
    (work' : (s.loops j).atWork = true) : i = j := by
  simp only [Loop.atWork, Bool.and_eq_true, Bool.not_eq_true'] at work work'
  have earlier : ∀ {i j : Nat}, i < s.loopCount → (s.loops i).waits = false →
      (s.loops j).finished = false → Awaits (prevOf s.loops) i j → i = j := by
    intro i j low begun active awaits
    cases awaits with
    | refl => rfl
    | prev before rest =>
        obtain ⟨lower, finished⟩ := linked.prev i low _ before
        rw [linked.over_of_awaits (Nat.lt_trans lower low) rest (finished begun)] at active
        cases active
  obtain ⟨y, there, awaits⟩ := linked.covered i low work.2
  obtain ⟨_, there', awaits'⟩ := linked.covered j low' work'.2
  obtain rfl := Option.some.inj (there.symm.trans there')
  rcases awaits.linear awaits' with later | later
  · exact earlier low work.1 work'.2 later
  · exact (earlier low' work'.1 work.2 later).symm

/-! ## Steps -/

/-- A loop that is over takes no turn, and one that waits takes it only when free. -/
theorem turn_spec {account next : Account δ κ} {intent free : Bool} {l : Loop δ κ}
    {act : LoopAct δ κ} {point : Point δ κ}
    (turned : turn account intent free l act = some (next, point)) :
    l.finished = false ∧ (l.waits = true → free = true) := by
  obtain ⟨prev, aborted, here⟩ := l
  cases act <;> cases here <;> simp only [turn, Loop.finished, Loop.waits] at turned ⊢ <;> grind

variable {s s' : AccountLoops δ κ} {h : Option Nat}

namespace AccountLoops

@[simp] theorem reach_self (s : AccountLoops δ κ) (i : Nat) (point : Point δ κ) :
    (s.reach i point).loops i = { s.loops i with point } := by
  simp [reach]

theorem reach_other (s : AccountLoops δ κ) {i j : Nat} (other : j ≠ i) (point : Point δ κ) :
    (s.reach i point).loops j = s.loops j := by
  simp [reach, other]

/-- An abort changes neither where a loop is nor what it waits for. -/
theorem abort_loops (s : AccountLoops δ κ) (h : Option Nat) (j : Nat) :
    ∃ aborted, (s.abort h).loops j = { s.loops j with aborted } := by
  cases h with
  | none => exact ⟨_, rfl⟩
  | some i =>
      by_cases here : j = i
      · exact ⟨true, by simp [abort, here]⟩
      · exact ⟨(s.loops j).aborted, by simp [abort, here]⟩

theorem abort_eq (s : AccountLoops δ κ) (h : Option Nat) :
    s.abort h = { s with loops := (s.abort h).loops } := by
  cases h <;> rfl

end AccountLoops

theorem prevOf_reach (s : AccountLoops δ κ) (i : Nat) (point : Point δ κ) (j : Nat) :
    prevOf (s.reach i point).loops j = prevOf s.loops j := by
  by_cases here : j = i
  · subst here
    simp [prevOf]
  · simp [prevOf, s.reach_other here]

theorem Covers.reach {i : Nat} (covers : Covers s h) (active : (s.loops i).finished = false)
    (point : Point δ κ) : Covers (s.reach i point) h := by
  intro j low alive
  have alive : (s.loops j).finished = false := by
    by_cases here : j = i
    · exact here ▸ active
    · rwa [s.reach_other here] at alive
  obtain ⟨y, there, awaits⟩ := covers j low alive
  exact ⟨y, there, awaits.congr (prevOf_reach s i point)⟩

theorem Covers.abort (covers : Covers s h) (h' : Option Nat) : Covers (s.abort h') h := by
  have count : (s.abort h').loopCount = s.loopCount := by rw [s.abort_eq]
  intro j low alive
  obtain ⟨_, same⟩ := s.abort_loops h' j
  rw [same] at alive
  obtain ⟨y, there, awaits⟩ := covers j (count ▸ low) alive
  refine ⟨y, there, awaits.congr fun k => ?_⟩
  obtain ⟨_, same⟩ := s.abort_loops h' k
  rw [prevOf, same, prevOf]

namespace Linked

/-- The loops stay as they are; what a pause stops is one of them. -/
theorem moved (linked : Linked s) (loops : s'.loops = s.loops) (count : s'.loopCount = s.loopCount)
    (running : s'.running = s.running)
    (stopping : ∀ i, .stopping (some i) ∈ s'.calls → .stopping (some i) ∈ s.calls ∨
      s.running = some i) : Linked s' := by
  obtain ⟨account', sourced', loops', loopCount', running', intent', calls', quiet'⟩ := s'
  dsimp only at loops count running stopping
  subst loops count running
  exact ⟨linked.prev, linked.running, fun i mem => (stopping i mem).elim (linked.stopping i)
    (linked.running i), linked.covered⟩

/-- A commit moves no loop. -/
theorem store (linked : Linked s) (account : Account δ κ) : Linked { s with account } :=
  linked.moved rfl rfl rfl fun _ => .inl

theorem goes (linked : Linked s) (k : Nat) {c : Call κ} (other : ∀ h, c ≠ .stopping h) :
    Linked (s.goes k c) :=
  linked.moved rfl rfl rfl fun _ mem =>
    .inl ((List.mem_or_eq_of_mem_set mem).resolve_right fun same => other _ same.symm)

theorem call (linked : Linked s) {c : Call κ} (other : ∀ h, c = .stopping h → h = s.running) :
    Linked (s.call c) := by
  refine linked.moved rfl rfl rfl fun i mem => ?_
  rcases List.mem_append.1 mem with old | new
  · exact .inl old
  · exact .inr (other _ (List.mem_singleton.1 new).symm).symm

theorem reach (linked : Linked s) {i : Nat} {point : Point δ κ}
    (active : (s.loops i).finished = false)
    (free : (s.loops i).waits = true → s.free i = true) : Linked (s.reach i point) := by
  have finished : ∀ {j}, (s.loops j).finished = true → ((s.reach i point).loops j).finished = true := by
    intro j finished
    have other : j ≠ i := fun same => by rw [same, active] at finished; cases finished
    rwa [s.reach_other other]
  refine ⟨fun j low k before => ?_, linked.running, linked.stopping,
    linked.covered.reach active point⟩
  have link : (s.loops j).prev = some k := (prevOf_reach s i point j).symm.trans before
  obtain ⟨lower, begins⟩ := linked.prev j low k link
  refine ⟨lower, fun begun' => finished ?_⟩
  by_cases here : j = i
  · subst here
    cases waits : (s.loops j).waits with
    | false => exact begins waits
    | true =>
        have done := free waits
        rwa [AccountLoops.free, link] at done
  · rw [s.reach_other here] at begun'
    exact begins begun'

theorem abort (linked : Linked s) (h : Option Nat) : Linked (s.abort h) := by
  have covered := linked.covered.abort h
  have fields := s.abort_eq h
  rw [fields] at covered ⊢
  refine ⟨fun i low j before => ?_, linked.running, linked.stopping, covered⟩
  obtain ⟨_, same⟩ := s.abort_loops h i
  obtain ⟨_, same'⟩ := s.abort_loops h j
  simp only [same, same'] at before ⊢
  exact linked.prev i low j before

/-- A loop that is over leaves the map. -/
theorem drop (linked : Linked s) {i : Nat} (low : i < s.loopCount)
    (finished : (s.loops i).finished = true) : Linked (s.drop i) := by
  unfold AccountLoops.drop
  split
  · rename_i entry
    exact ⟨linked.prev, nofun, linked.stopping, linked.ended low (entry ▸ linked.covered) finished⟩
  · exact linked

/-- The new loop waits for the entry's. -/
theorem add (linked : Linked s) : Linked (s.add s.running .waiting) := by
  have old : ∀ {i}, i < s.loopCount → (s.add s.running .waiting).loops i = s.loops i := by
    intro i low
    simp [AccountLoops.add, Nat.ne_of_lt low]
  have new : (s.add s.running .waiting).loops s.loopCount = ⟨s.running, false, .waiting⟩ := by
    simp [AccountLoops.add]
  refine ⟨fun i low j before => ?_, ?_, fun i mem => Nat.lt_succ_of_lt (linked.stopping i mem),
    fun i low active => ⟨s.loopCount, rfl, ?_⟩⟩
  · rcases Nat.lt_succ_iff_lt_or_eq.1 low with low | rfl
    · rw [old low] at before ⊢
      obtain ⟨lower, begun⟩ := linked.prev i low j before
      rw [old (Nat.lt_trans lower low)]
      exact ⟨lower, begun⟩
    · rw [new] at before ⊢
      exact ⟨linked.running j before, nofun⟩
  · intro i entry
    obtain rfl := Option.some.inj entry
    exact Nat.lt_succ_self _
  · rcases Nat.lt_succ_iff_lt_or_eq.1 low with low | rfl
    · rw [old low] at active
      obtain ⟨y, entry, awaits⟩ := linked.covered i low active
      refine .prev (j := y) (congrArg Loop.prev new |>.trans entry) ?_
      exact awaits.congr_below (linked.running y entry)
        (fun i low j before => (linked.prev i low j before).1)
        fun i low => congrArg Loop.prev (old low)
    · exact .refl _

/-- The handle of a run without a source takes an empty place. -/
theorem addOver (linked : Linked s) (ended : ∀ i < s.loopCount, (s.loops i).finished = true) :
    Linked (s.add none .finished) := by
  have old : ∀ {i}, i < s.loopCount → (s.add none .finished).loops i = s.loops i := by
    intro i low
    simp [AccountLoops.add, Nat.ne_of_lt low]
  have new : (s.add none .finished).loops s.loopCount = ⟨none, false, .finished⟩ := by
    simp [AccountLoops.add]
  refine ⟨fun i low j before => ?_, ?_, fun i mem => Nat.lt_succ_of_lt (linked.stopping i mem),
    fun i low active => ?_⟩
  · rcases Nat.lt_succ_iff_lt_or_eq.1 low with low | rfl
    · rw [old low] at before ⊢
      obtain ⟨lower, begun⟩ := linked.prev i low j before
      rw [old (Nat.lt_trans lower low)]
      exact ⟨lower, begun⟩
    · rw [new] at before
      cases before
  · intro i entry
    obtain rfl := Option.some.inj entry
    exact Nat.lt_succ_self _
  · rcases Nat.lt_succ_iff_lt_or_eq.1 low with low | rfl
    · rw [old low, ended i low] at active
      cases active
    · rw [new] at active
      cases active

theorem run (linked : Linked s) (found : s.intent = false → s.sourced = false →
    ∀ i < s.loopCount, (s.loops i).finished = true) : Linked s.run := by
  unfold AccountLoops.run
  split
  · exact linked
  · rename_i accepted
    split
    · have entry : (s.abort s.running).running = s.running := by rw [s.abort_eq]
      have added := (linked.abort s.running).add
      rwa [entry] at added
    · rename_i missing
      exact linked.addOver (found (Bool.eq_false_iff.2 accepted) (Bool.eq_false_iff.2 missing))

end Linked

theorem Call.pauses_of_stopped {c : Call κ} (stopped : c.stopped = true) : c.pauses = true := by
  cases c <;> first | rfl | cases stopped

namespace Paused

theorem store (paused : Paused s) (account : Account δ κ) : Paused { s with account } :=
  ⟨paused.stopping, paused.stopped, paused.quiet⟩

theorem goes (paused : Paused s) (k : Nat) {c : Call κ} (stopping : ∀ h, c ≠ .stopping h)
    (stopped : c.stopped = true → Ended s) : Paused (s.goes k c) := by
  refine ⟨fun h mem => ?_, fun c' mem after => ?_, paused.quiet⟩
  · exact paused.stopping h
      ((List.mem_or_eq_of_mem_set mem).resolve_right fun same => stopping h same.symm)
  · rcases List.mem_or_eq_of_mem_set mem with old | rfl
    · exact paused.stopped c' old after
    · exact stopped after

theorem call (paused : Paused s) {c : Call κ} (stopping : ∀ h, c = .stopping h → Covers s h)
    (fresh : c.stopped = false) : Paused (s.call c) := by
  refine ⟨fun h mem => ?_, fun c' mem after => ?_, paused.quiet⟩
  · rcases List.mem_append.1 mem with old | new
    · exact paused.stopping h old
    · exact stopping h (List.mem_singleton.1 new).symm
  · rcases List.mem_append.1 mem with old | new
    · exact paused.stopped c' old after
    · rw [List.mem_singleton.1 new, fresh] at after
      cases after

theorem reach (paused : Paused s) {i : Nat} (active : (s.loops i).finished = false)
    (point : Point δ κ) : Paused (s.reach i point) :=
  ⟨fun h mem => (paused.stopping h mem).reach active point,
    fun c mem after => (paused.stopped c mem after).reach active point,
    fun quiet => (paused.quiet quiet).reach active point⟩

theorem abort (paused : Paused s) (h : Option Nat) : Paused (s.abort h) := by
  have fields := s.abort_eq h
  refine ⟨fun h' mem => ?_, fun c mem after => ?_, fun quiet => ?_⟩
  · rw [fields] at mem
    exact (paused.stopping h' mem).abort h
  · rw [fields] at mem
    exact (paused.stopped c mem after).abort h
  · rw [fields] at quiet
    exact (paused.quiet quiet).abort h

theorem drop (paused : Paused s) (i : Nat) : Paused (s.drop i) := by
  unfold AccountLoops.drop
  split
  · exact ⟨paused.stopping, paused.stopped, paused.quiet⟩
  · exact paused

/-- An accepted run finds no pause, and ends the quiet. -/
theorem run (paused : Paused s)
    (refuses : s.intent = false → ∀ c ∈ s.calls, c.pauses = false) : Paused s.run := by
  unfold AccountLoops.run
  split
  · exact paused
  · rename_i accepted
    have none : ∀ c ∈ s.calls, c.pauses = false := refuses (Bool.eq_false_iff.2 accepted)
    have added : ∀ (t : AccountLoops δ κ) (prev : Option Nat) (point : Point δ κ),
        t.calls = s.calls → Paused (t.add prev point) := by
      intro t prev point same
      refine ⟨fun h mem => ?_, fun c mem after => ?_, nofun⟩
      · cases none _ (same ▸ mem)
      · cases (Call.pauses_of_stopped after).symm.trans (none c (same ▸ mem))
    split
    · refine added _ _ _ ?_
      rw [s.abort_eq]
    · exact added s _ _ rfl

end Paused

theorem Linked.proceed (linked : Linked s) {k : Nat} {c : Call κ} (there : s.calls[k]? = some c)
    (found : SourceFound s (.proceed k)) (stepped : s.proceed k c = some s') : Linked s' := by
  have mem : c ∈ s.calls := List.mem_of_getElem? there
  cases c with
  | stopping h =>
      cases h with
      | none =>
          obtain rfl := Option.some.inj stepped
          exact linked.goes k nofun
      | some i =>
          simp only [AccountLoops.proceed] at stepped
          split at stepped
          · rename_i finished
            obtain rfl := Option.some.inj stepped
            exact (linked.drop (linked.stopping i mem) finished).goes k nofun
          · cases stepped
  | pausing | resuming | rereading =>
      obtain rfl := Option.some.inj stepped
      exact linked.goes k nofun
  | parking cursor | connecting cursor =>
      obtain rfl := Option.some.inj stepped
      exact (linked.store _).goes k nofun
  | parked stored =>
      obtain rfl := Option.some.inj stepped
      exact (linked.moved rfl rfl rfl fun _ => .inl :
        Linked { s with intent := false, quiet := s.quiet || stored }).goes k nofun
  | configuring =>
      obtain rfl := Option.some.inj stepped
      refine linked.goes k fun h => ?_
      split <;> nofun
  | starting status =>
      obtain rfl := Option.some.inj stepped
      split
      · exact linked.goes k nofun
      · rename_i active
        refine (linked.run fun accepted missing => found ?_ missing).goes k nofun
        simp [accepts, there, active, accepted]
  | returned => cases stepped

theorem Linked.step {a : Act δ κ} (linked : Linked s) (found : SourceFound s a)
    (stepped : step s a = some s') : Linked s' := by
  cases a with
  | register present =>
      obtain rfl := Option.some.inj stepped
      exact linked.moved rfl rfl rfl fun _ => .inl
  | run =>
      obtain rfl := Option.some.inj stepped
      exact linked.run fun accepted missing => found (by simp [accepts, accepted]) missing
  | tick =>
      obtain rfl := Option.some.inj stepped
      split
      · exact linked
      · exact linked.call nofun
  | pause =>
      obtain rfl := Option.some.inj stepped
      have intends : Linked { s with intent := true } := linked.moved rfl rfl rfl fun _ => .inl
      refine (intends.abort s.running).call fun h same => ?_
      obtain rfl := Call.stopping.inj same
      rw [AccountLoops.abort_eq]
  | resume =>
      obtain rfl := Option.some.inj stepped
      exact (linked.moved rfl rfl rfl fun _ => .inl :
        Linked { s with intent := false, quiet := false }).call nofun
  | updateConfig =>
      obtain rfl := Option.some.inj stepped
      exact linked.call nofun
  | loop i act =>
      simp only [PullLoop.step] at stepped
      split at stepped
      · obtain ⟨⟨account, point⟩, turned, rfl⟩ := Option.map_eq_some_iff.1 stepped
        obtain ⟨active, free⟩ := turn_spec turned
        exact (linked.store account).reach active free
      · cases stepped
  | proceed k =>
      obtain ⟨c, there, moved⟩ := Option.bind_eq_some_iff.1 stepped
      exact linked.proceed there found moved
  | throw k =>
      obtain ⟨c, _, thrown⟩ := Option.bind_eq_some_iff.1 stepped
      unfold AccountLoops.throw at thrown
      split at thrown <;> first
        | (obtain rfl := Option.some.inj thrown; exact linked.goes k nofun)
        | cases thrown

theorem Paused.proceed (paused : Paused s) (linked : Linked s) {k : Nat} {c : Call κ}
    (there : s.calls[k]? = some c) (refuses : PauseRefuses s (.proceed k))
    (stepped : s.proceed k c = some s') : Paused s' := by
  have mem : c ∈ s.calls := List.mem_of_getElem? there
  cases c with
  | stopping h =>
      have covers : Covers s h := paused.stopping h mem
      cases h with
      | none =>
          obtain rfl := Option.some.inj stepped
          exact paused.goes k nofun fun _ => covers
      | some i =>
          simp only [AccountLoops.proceed] at stepped
          split at stepped
          · rename_i finished
            obtain rfl := Option.some.inj stepped
            have ended : Ended s := linked.ended (linked.stopping i mem) covers finished
            refine (paused.drop i).goes k nofun fun _ => ?_
            unfold AccountLoops.drop
            split
            · exact ended
            · exact ended
          · cases stepped
  | pausing =>
      obtain rfl := Option.some.inj stepped
      exact paused.goes k nofun fun _ => paused.stopped _ mem rfl
  | parking cursor =>
      obtain rfl := Option.some.inj stepped
      exact (paused.store _).goes k nofun fun _ => paused.stopped _ mem rfl
  | parked stored =>
      obtain rfl := Option.some.inj stepped
      exact (⟨paused.stopping, paused.stopped, fun _ => paused.stopped _ mem rfl⟩ :
        Paused { s with intent := false, quiet := s.quiet || stored }).goes k nofun nofun
  | resuming | rereading =>
      obtain rfl := Option.some.inj stepped
      exact paused.goes k nofun nofun
  | connecting cursor =>
      obtain rfl := Option.some.inj stepped
      exact (paused.store _).goes k nofun nofun
  | configuring =>
      obtain rfl := Option.some.inj stepped
      split
      · exact paused.goes k nofun nofun
      · exact paused.goes k nofun nofun
  | starting status =>
      obtain rfl := Option.some.inj stepped
      split
      · exact paused.goes k nofun nofun
      · rename_i active
        refine (paused.run fun accepted => refuses ?_).goes k nofun nofun
        simp [accepts, there, active, accepted]
  | returned => cases stepped

theorem Paused.step {a : Act δ κ} (paused : Paused s) (linked : Linked s)
    (refuses : PauseRefuses s a) (stepped : PullLoop.step s a = some s') : Paused s' := by
  cases a with
  | register present =>
      obtain rfl := Option.some.inj stepped
      exact ⟨paused.stopping, paused.stopped, paused.quiet⟩
  | run =>
      obtain rfl := Option.some.inj stepped
      exact paused.run fun accepted => refuses (by simp [accepts, accepted])
  | tick =>
      obtain rfl := Option.some.inj stepped
      split
      · exact paused
      · exact paused.call nofun rfl
  | pause =>
      obtain rfl := Option.some.inj stepped
      have intends : Paused { s with intent := true } :=
        ⟨paused.stopping, paused.stopped, paused.quiet⟩
      refine (intends.abort s.running).call (fun h same => ?_) rfl
      obtain rfl := Call.stopping.inj same
      exact Covers.abort (s := { s with intent := true }) linked.covered s.running
  | resume =>
      obtain rfl := Option.some.inj stepped
      exact (⟨paused.stopping, paused.stopped, nofun⟩ :
        Paused { s with intent := false, quiet := false }).call nofun rfl
  | updateConfig =>
      obtain rfl := Option.some.inj stepped
      exact paused.call nofun rfl
  | loop i act =>
      simp only [PullLoop.step] at stepped
      split at stepped
      · obtain ⟨⟨account, point⟩, turned, rfl⟩ := Option.map_eq_some_iff.1 stepped
        exact (paused.store account).reach (turn_spec turned).1 point
      · cases stepped
  | proceed k =>
      obtain ⟨c, there, moved⟩ := Option.bind_eq_some_iff.1 stepped
      exact paused.proceed linked there refuses moved
  | throw k =>
      obtain ⟨c, there, thrown⟩ := Option.bind_eq_some_iff.1 stepped
      have after : c.stopped = true → Ended s := paused.stopped c (List.mem_of_getElem? there)
      unfold AccountLoops.throw at thrown
      split at thrown <;> first
        | (obtain rfl := Option.some.inj thrown; exact paused.goes k nofun fun _ => after rfl)
        | (obtain rfl := Option.some.inj thrown; exact paused.goes k nofun nofun)
        | cases thrown

/-! ## Runs -/

/-- An account nothing was started for. -/
def AccountLoops.idle (account : Account δ κ) : AccountLoops δ κ :=
  ⟨account, true, fun _ => ⟨none, false, .finished⟩, 0, none, false, [], false⟩

theorem Linked.idle (account : Account δ κ) : Linked (.idle account) :=
  ⟨nofun, nofun, nofun, nofun⟩

theorem Paused.idle (account : Account δ κ) : Paused (.idle account) :=
  ⟨nofun, nofun, nofun⟩

theorem runs_linked {account : Account δ κ} {acts : List (Act δ κ)}
    (found : Along step SourceFound (.idle account) acts)
    (ran : runSteps step (.idle account) acts = some s) : Linked s :=
  run_keeps (fun _ _ _ linked found stepped => linked.step found stepped) (.idle account) found ran

theorem runs_paused {account : Account δ κ} {acts : List (Act δ κ)}
    (found : Along step SourceFound (.idle account) acts)
    (refuses : Along step PauseRefuses (.idle account) acts)
    (ran : runSteps step (.idle account) acts = some s) : Paused s := by
  have kept : Linked s ∧ Paused s := run_keeps (c := fun s a => SourceFound s a ∧ PauseRefuses s a)
    (I := fun s => Linked s ∧ Paused s)
    (fun _ _ _ kept met stepped => ⟨kept.1.step met.1 stepped, kept.2.step kept.1 met.2 stepped⟩)
    ⟨.idle account, .idle account⟩ (found.and refuses) ran
  exact kept.2

/-- **A pause is a barrier**, and no two loops are at work at once. -/
theorem pause_stops_loops {account : Account δ κ} {acts : List (Act δ κ)}
    (found : Along step SourceFound (.idle account) acts)
    (ran : runSteps step (.idle account) acts = some s) :
    (∀ i < s.loopCount, ∀ j < s.loopCount,
      (s.loops i).atWork = true → (s.loops j).atWork = true → i = j) ∧
    (Along step PauseRefuses (.idle account) acts → s.quiet = true →
      ∀ i act, step s (.loop i act) = none) := by
  have linked := runs_linked found ran
  refine ⟨fun i low j low' => linked.exclusive low low', fun refuses quiet i act => ?_⟩
  have ended := (runs_paused found refuses ran).quiet quiet
  simp only [step]
  split
  · rename_i low
    cases turned : turn s.account s.intent (s.free i) (s.loops i) act with
    | none => rfl
    | some next =>
        cases (turn_spec turned).1.symm.trans (ended.finished low)
  · rfl

/-! ## A loop nothing stops -/

/-- The loop's pull fails with its extension's host.  Settings are saved before the
host is back: the restart finds no source, and the loop tries again beside it. -/
def unsourcedRun : List (Act Nat Nat) :=
  [.run, .loop 0 .proceed, .loop 0 .proceed, .loop 0 .proceed, .register false, .loop 0 .throw,
    .loop 0 .backOff, .updateConfig, .proceed 0, .proceed 0, .proceed 0, .register true,
    .loop 0 .proceed, .loop 0 .proceed, .loop 0 .proceed,
    .pause, .proceed 1, .proceed 1, .proceed 1, .proceed 1]

/-- What the loop commits after the pause. -/
def latePull : List (Act Nat Nat) :=
  [.loop 0 (.send ⟨[7], some 1, .backfilling⟩), .loop 0 .proceed]

def fresh : Account Nat Nat := ⟨[], none, .connecting⟩

/-- **The pause has resolved**, and the loop it never stopped commits a document, moves
the cursor and takes `paused` back. -/
theorem unsourced_run_leaves_loop :
    ∃ s, runSteps step (.idle fresh) unsourcedRun = some s ∧ s.quiet = true ∧
      s.account = ⟨[], none, .paused⟩ ∧
      ∃ s', runSteps step s latePull = some s' ∧ s'.quiet = true ∧
        s'.account = ⟨[7], some 1, .backfilling⟩ :=
  ⟨_, rfl, rfl, rfl, _, rfl, rfl, rfl⟩

/-- A pause fails to commit while another has its commit on the way. -/
def overlappingPauses : List (Act Nat Nat) :=
  [.pause, .pause, .proceed 0, .proceed 1, .proceed 0, .proceed 1, .throw 0, .proceed 0, .run,
    .loop 0 .proceed, .loop 0 .proceed, .loop 0 .proceed, .proceed 1, .proceed 1]

/-- **The other's run is accepted**, and its loop goes on when the pause has resolved. -/
theorem run_during_pause :
    ∃ s, runSteps step (.idle fresh) overlappingPauses = some s ∧ s.quiet = true ∧
      ∃ s', runSteps step s latePull = some s' ∧ s'.account = ⟨[7], some 1, .backfilling⟩ :=
  ⟨_, rfl, rfl, _, rfl, rfl⟩

/-- A loop runs, a pause stops it, a tick and a run in between are refused or park. -/
def pausedRun : List (Act Nat Nat) :=
  [.run, .loop 0 .proceed, .loop 0 .proceed, .loop 0 .proceed,
    .loop 0 (.send ⟨[3], some 0, .backfilling⟩), .pause, .run, .loop 0 .proceed, .loop 0 .proceed,
    .loop 0 .proceed, .proceed 0, .tick, .proceed 0, .proceed 1, .proceed 0, .proceed 1, .proceed 0]

theorem pause_stops_loops_pausedRun :
    ∃ s, runSteps step (.idle fresh) pausedRun = some s ∧ s.quiet = true ∧
      s.account = ⟨[3], some 0, .paused⟩ ∧ ∀ i act, step s (.loop i act) = none := by
  have run : ∃ s, runSteps step (.idle fresh) pausedRun = some s ∧ s.quiet = true ∧
      s.account = ⟨[3], some 0, .paused⟩ := ⟨_, rfl, rfl, rfl⟩
  obtain ⟨s, ran, quiet, stored⟩ := run
  have found : Along step SourceFound (.idle fresh) pausedRun := by decide
  have refuses : Along step PauseRefuses (.idle fresh) pausedRun := by decide
  exact ⟨s, ran, quiet, stored, (pause_stops_loops found ran).2 refuses quiet⟩

end Kiagent.Engine.PullLoop
