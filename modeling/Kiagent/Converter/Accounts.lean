/-
# Converter.Accounts -- every job is on the books once

The bytes on the books are those of the granted, the queued and the active jobs
(`Ledger`); the child, its timers and the active job go through the phases of `Phase`.

Every removal but one wakes the next waiter: an aborted waiter leaves the space queue,
and the one behind it is left waiting although it fits (`aborted_waiter_wakes_none`).
In a run in which the waiter behind an aborted head does not fit, everything the runner
promises holds (`converter_accounts`).
-/
import Kiagent.Converter.Runner

namespace Kiagent.Converter

open Kiagent.Theory

set_option autoImplicit false

/-! ## Weights -/

def total (js : List Job) : Nat := (js.map Job.bytes).sum

/-- How many of the jobs have bytes. -/
def weighty (js : List Job) : Nat := js.countP fun j => j.bytes ≠ 0

@[simp] theorem total_nil : total [] = 0 := rfl

@[simp] theorem total_cons (j : Job) (js : List Job) : total (j :: js) = j.bytes + total js :=
  List.sum_cons

@[simp] theorem weighty_nil : weighty [] = 0 := rfl

@[simp] theorem weighty_cons (j : Job) (js : List Job) :
    weighty (j :: js) = weighty js + if j.bytes = 0 then 0 else 1 := by
  rw [weighty, weighty, List.countP_cons]
  by_cases empty : j.bytes = 0 <;> simp [empty]

@[simp] theorem total_append (js ks : List Job) : total (js ++ ks) = total js + total ks := by
  rw [total, List.map_append, List.sum_append]
  rfl

@[simp] theorem weighty_append (js ks : List Job) :
    weighty (js ++ ks) = weighty js + weighty ks := List.countP_append

theorem total_perm {js ks : List Job} (perm : js.Perm ks) : total js = total ks :=
  (perm.map Job.bytes).sum_eq

theorem weighty_perm {js ks : List Job} (perm : js.Perm ks) : weighty js = weighty ks :=
  perm.countP_eq _

theorem total_eq_zero {js : List Job} : total js = 0 ↔ weighty js = 0 := by
  simp [total, weighty, List.sum_eq_zero_iff, List.countP_eq_zero]

/-- One job with bytes has all the bytes. -/
theorem exists_total {js : List Job} (one : weighty js ≤ 1) (some : total js ≠ 0) :
    ∃ j ∈ js, j.bytes = total js := by
  induction js with
  | nil => exact absurd rfl some
  | cons j js ih =>
      rw [weighty_cons] at one
      rw [total_cons] at some ⊢
      by_cases empty : j.bytes = 0
      · rw [if_pos empty] at one
        obtain ⟨k, mem, all⟩ := ih (by omega) (by omega)
        exact ⟨k, List.mem_cons_of_mem _ mem, by omega⟩
      · rw [if_neg empty] at one
        have rest : total js = 0 := total_eq_zero.2 (by omega)
        exact ⟨j, List.mem_cons_self .., by omega⟩

/-! ## Space -/

namespace Space

variable {m : Nat} {p : Space} {rest : List Job}

/-- The bytes are those of the granted submissions and of the `rest`; they exceed the
limit only when a single one of these has bytes. -/
structure Ledger (m : Nat) (p : Space) (rest : List Job) : Prop where
  balance : p.queuedBytes = total p.granted + total rest
  limit : p.queuedBytes ≤ m ∨ weighty p.granted + weighty rest ≤ 1

/-- The first waiter does not fit. -/
def Blocked (m : Nat) (p : Space) : Prop :=
  ∀ w ∈ p.spaceWaiters.head?, p.fits m w.bytes = false

theorem Ledger.perm {rest' : List Job} (ledger : Ledger m p rest) (perm : rest.Perm rest') :
    Ledger m p rest' :=
  ⟨total_perm perm ▸ ledger.balance, weighty_perm perm ▸ ledger.limit⟩

/-- What fits may be granted. -/
theorem Ledger.grant {j : Job} (ledger : Ledger m p rest) (fits : p.fits m j.bytes = true)
    (ws : List Job) :
    Ledger m ⟨p.queuedBytes + j.bytes, ws, p.granted ++ [j]⟩ rest := by
  obtain ⟨balance, limit⟩ := ledger
  have granted : total (p.granted ++ [j]) = total p.granted + j.bytes := by simp
  refine ⟨by dsimp only; omega, ?_⟩
  simp only [Space.fits, Bool.or_eq_true, decide_eq_true_eq] at fits
  rcases fits with empty | small
  · have first : weighty p.granted = 0 := total_eq_zero.1 (by omega)
    have second : weighty rest = 0 := total_eq_zero.1 (by omega)
    right
    simp only [weighty_append, weighty_cons, weighty_nil, first, second]
    split <;> omega
  · left
    exact small

theorem wakeLoop_ledger (ws : List Job) (ledger : Ledger m p rest) :
    Ledger m (wakeLoop m ws p) rest := by
  induction ws generalizing p with
  | nil => exact ⟨ledger.balance, ledger.limit⟩
  | cons w ws ih =>
      rw [wakeLoop]
      split
      · rename_i fits
        exact ih (ledger.grant fits p.spaceWaiters)
      · exact ⟨ledger.balance, ledger.limit⟩

theorem wakeLoop_blocked (ws : List Job) (p : Space) : (wakeLoop m ws p).Blocked m := by
  induction ws generalizing p with
  | nil => simp [wakeLoop, Blocked]
  | cons w ws ih =>
      rw [wakeLoop]
      split
      · exact ih _
      · rename_i full
        simpa [Blocked, Space.fits] using full

/-- Granting moves the waiters on in their order. -/
theorem wakeLoop_order (ws : List Job) (p : Space) :
    (wakeLoop m ws p).granted ++ (wakeLoop m ws p).spaceWaiters = p.granted ++ ws := by
  induction ws generalizing p with
  | nil => simp [wakeLoop]
  | cons w ws ih =>
      rw [wakeLoop]
      split
      · rw [ih]
        simp
      · rfl

theorem unreserve_order (bytes : Nat) (p : Space) :
    (p.unreserve m bytes).granted ++ (p.unreserve m bytes).spaceWaiters =
      p.granted ++ p.spaceWaiters :=
  wakeLoop_order p.spaceWaiters { p with queuedBytes := p.queuedBytes - bytes }

theorem unreserve_blocked (bytes : Nat) (p : Space) : (p.unreserve m bytes).Blocked m :=
  wakeLoop_blocked _ _

theorem unreserve_none (bytes : Nat) (none : p.spaceWaiters = []) :
    (p.unreserve m bytes).spaceWaiters = [] := by
  show (wakeLoop m p.spaceWaiters _).spaceWaiters = []
  rw [none, wakeLoop]

/-- Bytes of the rest are given back. -/
theorem Ledger.unreserve {j : Job} (ledger : Ledger m p (j :: rest)) :
    Ledger m (p.unreserve m j.bytes) rest := by
  obtain ⟨balance, limit⟩ := ledger
  apply wakeLoop_ledger
  rw [total_cons] at balance
  rw [weighty_cons] at limit
  refine ⟨by dsimp only; omega, ?_⟩
  dsimp only
  rcases limit with small | one
  · left
    omega
  · right
    omega

/-- A submission goes on, and its bytes count with the rest. -/
theorem Ledger.take {j : Job} {js : List Job} (ledger : Ledger m p rest)
    (granted : p.granted = j :: js) : Ledger m { p with granted := js } (j :: rest) := by
  obtain ⟨balance, limit⟩ := ledger
  rw [granted] at balance limit
  simp only [total_cons, weighty_cons] at balance limit
  refine ⟨by simp only [total_cons]; omega, ?_⟩
  simp only [weighty_cons]
  omega

theorem Ledger.reserve {j : Job} (ledger : Ledger m p rest) :
    Ledger m (p.reserveSpace m j) rest := by
  unfold reserveSpace
  split
  · rename_i fits
    rw [Bool.and_eq_true] at fits
    exact ledger.grant fits.1 p.spaceWaiters
  · exact ⟨ledger.balance, ledger.limit⟩

theorem reserve_blocked {j : Job} (blocked : p.Blocked m) : (p.reserveSpace m j).Blocked m := by
  unfold reserveSpace
  split
  · rename_i fits
    rw [Bool.and_eq_true, List.isEmpty_iff] at fits
    simp [Blocked, fits.2]
  · rename_i full
    intro w head
    cases waiters : p.spaceWaiters with
    | nil =>
        simp only [waiters, List.nil_append, List.head?_cons, Option.mem_some_iff] at head
        subst head
        simpa [waiters, Space.fits] using full
    | cons v vs =>
        apply blocked w
        rw [waiters]
        simpa [waiters] using head

end Space

/-! ## The books -/

namespace Runner

variable {o : ConverterRunnerOptions} {s : Runner} {held : List Job}

/-- The queued jobs and the active one. -/
def jobs (s : Runner) : List Job := s.queue ++ (s.active.map Active.job).toList

/-- The submissions that are not settled. -/
def pending (s : Runner) : List Job := s.space.granted ++ s.space.spaceWaiters ++ s.jobs

/-- The books while the jobs `held` are in the hands of what runs: their bytes count,
and their promises are open. -/
structure Ledger (o : ConverterRunnerOptions) (s : Runner) (held : List Job) : Prop where
  space : s.space.Ledger o.maxQueuedBytes (s.jobs ++ held)
  once : ∀ id, ((s.pending ++ held).map Job.id).count id + (s.settled.map Prod.fst).count id =
    if id < s.submitted then 1 else 0

/-- A held job leaves the books and is settled. -/
theorem Ledger.leave {j : Job} (ledger : Ledger o s (j :: held)) (outcome : Outcome) :
    Ledger o ((s.settle o j).finish j outcome) held := by
  constructor
  · exact (ledger.space.perm List.perm_middle).unreserve
  · intro id
    have once := ledger.once id
    have order := Space.unreserve_order (m := o.maxQueuedBytes) j.bytes s.space
    have same : ((s.settle o j).finish j outcome).pending = s.pending :=
      congrArg (· ++ s.jobs) order
    rw [same]
    show _ + ((s.settled ++ [(j.id, outcome)]).map Prod.fst).count id =
      if id < s.submitted then 1 else 0
    simp only [List.map_append, List.map_cons, List.count_append, List.count_cons, List.map_nil,
      List.count_nil] at once ⊢
    omega

/-- A job taken off the queue is held. -/
theorem Ledger.hold {j : Job} {js : List Job} (ledger : Ledger o s held)
    (perm : s.queue.Perm (j :: js)) : Ledger o { s with queue := js } (j :: held) := by
  have moved : (s.jobs ++ held).Perm (Runner.jobs { s with queue := js } ++ (j :: held)) :=
    ((perm.append_right _).append_right held).trans List.perm_middle.symm
  constructor
  · exact ledger.space.perm moved
  · intro id
    have same := (((moved.append_left (s.space.granted ++ s.space.spaceWaiters)).map
      Job.id).count_eq id)
    rw [← ledger.once id]
    simp only [pending, List.append_assoc] at same ⊢
    rw [same]

theorem Ledger.holdAll (ledger : Ledger o s held) :
    Ledger o { s with queue := [] } (s.queue ++ held) := by
  have moved : (s.jobs ++ held).Perm (Runner.jobs { s with queue := [] } ++ (s.queue ++ held)) := by
    simp only [Runner.jobs, List.nil_append]
    rw [← List.append_assoc]
    exact List.perm_append_comm.append_right held
  constructor
  · exact ledger.space.perm moved
  · intro id
    have same := (((moved.append_left (s.space.granted ++ s.space.spaceWaiters)).map
      Job.id).count_eq id)
    rw [← ledger.once id]
    simp only [pending, List.append_assoc] at same ⊢
    rw [same]

theorem Ledger.failJobs (err : Outcome) {js : List Job} (ledger : Ledger o s (js ++ held)) :
    Ledger o (failJobs o err js s) held := by
  induction js generalizing s with
  | nil => exact ledger
  | cons j js ih => exact ih (ledger.leave err)

theorem Ledger.failQueued (err : Outcome) (ledger : Ledger o s held) :
    Ledger o (s.failQueued o err) held := ledger.holdAll.failJobs err

/-- The active job is held. -/
theorem Ledger.holdActive {a : Active} (ledger : Ledger o s held) (active : s.active = some a) :
    Ledger o { s with active := none } (a.job :: held) := by
  have moved : (s.jobs ++ held) = Runner.jobs { s with active := none } ++ (a.job :: held) := by
    simp [Runner.jobs, active]
  constructor
  · rw [← moved]
    exact ledger.space
  · intro id
    rw [← ledger.once id]
    simp only [pending, List.append_assoc, moved]

theorem Ledger.takeActive {a : Active} (ledger : Ledger o s held) (active : s.active = some a)
    (outcome : Outcome) : Ledger o (s.takeActive o a outcome) held :=
  (ledger.holdActive active).leave outcome

theorem Ledger.startNext (ledger : Ledger o s held) (active : s.active = none) :
    Ledger o s.startNext held := by
  unfold Runner.startNext
  split
  · exact ledger
  · rename_i job rest queue
    have moved : s.jobs.Perm (rest ++ [job]) := by
      simpa [Runner.jobs, active, queue] using (List.perm_append_singleton job rest).symm
    constructor
    · exact ledger.space.perm (moved.append_right held)
    · intro id
      have same := ((((moved.append_right held).append_left
        (s.space.granted ++ s.space.spaceWaiters)).map Job.id).count_eq id)
      rw [← ledger.once id]
      simp only [pending, Runner.jobs, Option.map_some, Option.toList_some,
        List.append_assoc] at same ⊢
      rw [same]

/-! ## What a loop leaves alone -/

theorem failJobs_eq (err : Outcome) (js : List Job) (s : Runner) :
    failJobs o err js s = { s with
      space := js.foldl (fun p j => p.unreserve o.maxQueuedBytes j.bytes) s.space
      settled := s.settled ++ js.map (·.id, err) } := by
  induction js generalizing s with
  | nil => simp [Runner.failJobs]
  | cons j js ih => simp [Runner.failJobs, ih, settle, finish]

theorem failQueued_eq (err : Outcome) (s : Runner) :
    s.failQueued o err = { s with
      queue := []
      space := s.queue.foldl (fun p j => p.unreserve o.maxQueuedBytes j.bytes) s.space
      settled := s.settled ++ s.queue.map (·.id, err) } :=
  failJobs_eq err s.queue { s with queue := [] }

theorem foldl_blocked (js : List Job) {p : Space} (blocked : p.Blocked o.maxQueuedBytes) :
    (js.foldl (fun p j => p.unreserve o.maxQueuedBytes j.bytes) p).Blocked o.maxQueuedBytes := by
  induction js generalizing p with
  | nil => exact blocked
  | cons j js ih => exact ih (Space.unreserve_blocked _ _)

theorem foldl_none (js : List Job) {p : Space} (none : p.spaceWaiters = []) :
    (js.foldl (fun p j => p.unreserve o.maxQueuedBytes j.bytes) p).spaceWaiters = [] := by
  induction js generalizing p with
  | nil => exact none
  | cons j js ih => exact ih (Space.unreserve_none _ none)

/-! ## The phases of the child -/

/-- The timers of each phase, who is active, and since when spawning was allowed. -/
inductive Phase (s : Runner) : Prop where
  | away (state : s.state = .none) (child : s.child = none) (active : s.active = none)
      (start : s.startTimer = false) (term : s.termTimer = none) (kill : s.killTimer = none)
  | starting {c : Nat} (state : s.state = .starting) (child : s.child = some c)
      (active : s.active = none) (available : s.unavailableUntil ≤ s.clock)
      (start : s.startTimer = true) (term : s.termTimer = none) (kill : s.killTimer = none)
  | ready {c : Nat} (state : s.state = .ready) (child : s.child = some c)
      (active : ∀ a, s.active = some a → a.sentTo = some c)
      (available : s.unavailableUntil ≤ s.clock) (start : s.startTimer = false)
      (term : s.termTimer = none) (kill : s.killTimer = none)
  | stopping {c : Nat} (state : s.state = .stopping) (child : s.child = some c)
      (active : s.active = none) (start : s.startTimer = false)
      (timers : (s.termTimer = some c ∧ s.killTimer = none) ∨
        (s.termTimer = none ∧ s.killTimer = some c))

/-- A closed runner has given everything back. -/
def Shut (s : Runner) : Prop :=
  s.closed = true → s.space.spaceWaiters = [] ∧ s.queue = [] ∧ s.active = none

/-- Jobs are queued only behind a child that is not yet, or no longer, able to take one. -/
def Served (s : Runner) : Prop :=
  s.state = .none ∨ (s.state = .ready ∧ s.active = none) → s.queue = []

structure Sound (o : ConverterRunnerOptions) (s : Runner) : Prop where
  ledger : Ledger o s []
  blocked : s.space.Blocked o.maxQueuedBytes
  phase : Phase s
  shut : Shut s

/-- Between two actions. -/
structure Good (o : ConverterRunnerOptions) (s : Runner) : Prop extends Sound o s where
  served : Served s

theorem Phase.same {t : Runner} (phase : Phase s) (state : t.state = s.state)
    (child : t.child = s.child) (active : t.active = s.active)
    (paused : t.unavailableUntil = s.unavailableUntil) (clock : t.clock = s.clock)
    (start : t.startTimer = s.startTimer) (term : t.termTimer = s.termTimer)
    (kill : t.killTimer = s.killTimer) : Phase t := by
  cases phase with
  | away state' child' active' start' term' kill' =>
      exact .away (state.trans state') (child.trans child') (active.trans active')
        (start.trans start') (term.trans term') (kill.trans kill')
  | starting state' child' active' available start' term' kill' =>
      exact .starting (state.trans state') (child.trans child') (active.trans active')
        (by omega) (start.trans start') (term.trans term') (kill.trans kill')
  | ready state' child' active' available start' term' kill' =>
      exact .ready (state.trans state') (child.trans child') (active ▸ active')
        (by omega) (start.trans start') (term.trans term') (kill.trans kill')
  | stopping state' child' active' start' timers =>
      exact .stopping (state.trans state') (child.trans child') (active.trans active')
        (start.trans start') (term ▸ kill ▸ timers)

theorem Phase.ready_of_active {a : Active} (phase : Phase s) (active : s.active = some a) :
    s.state = .ready ∧ ∃ c, s.child = some c ∧ a.sentTo = some c := by
  cases phase with
  | away _ _ inactive => exact absurd (active.symm.trans inactive) (by simp)
  | starting _ _ inactive => exact absurd (active.symm.trans inactive) (by simp)
  | ready state child sent => exact ⟨state, _, child, sent a active⟩
  | stopping _ _ inactive => exact absurd (active.symm.trans inactive) (by simp)

theorem failQueued_sound (err : Outcome) (sound : Sound o s) : Sound o (s.failQueued o err) := by
  refine ⟨sound.ledger.failQueued err, ?_, ?_, ?_⟩
  · rw [failQueued_eq]
    exact foldl_blocked _ sound.blocked
  · rw [failQueued_eq]
    exact sound.phase.same rfl rfl rfl rfl rfl rfl rfl rfl
  · rw [failQueued_eq]
    intro closed
    obtain ⟨waiters, queue, active⟩ := sound.shut closed
    exact ⟨by rw [queue]; exact waiters, rfl, active⟩

theorem failQueued_queue (err : Outcome) (s : Runner) : (s.failQueued o err).queue = [] := by
  rw [failQueued_eq]

/-- Without a child, becoming unavailable empties the queue. -/
theorem unavailable_sound (reason : Unavailable) (sound : Sound o s) (away : s.state = .none) :
    Good o (s.unavailable o reason) := by
  have later : Sound o { s with
      stats := { s.stats with unavailable := s.stats.unavailable + 1 }
      unavailableUntil := s.clock + o.spawnBackoffMs } := by
    refine ⟨⟨sound.ledger.space, sound.ledger.once⟩, sound.blocked, ?_, sound.shut⟩
    cases sound.phase with
    | away state child active start term kill => exact .away state child active start term kill
    | starting state => exact absurd (away.symm.trans state) (by simp)
    | ready state => exact absurd (away.symm.trans state) (by simp)
    | stopping state => exact absurd (away.symm.trans state) (by simp)
  exact { failQueued_sound _ later with served := fun _ => failQueued_queue _ _ }

theorem startNext_good (sound : Sound o s) (ready : s.state = .ready) (idle : s.active = none)
    (waits : s.queue ≠ []) : Good o s.startNext := by
  have ledger := sound.ledger.startNext idle
  have phase := sound.phase
  have shut := sound.shut
  unfold startNext at ledger ⊢
  split
  · contradiction
  · rename_i job rest queue
    simp only [queue] at ledger
    refine ⟨⟨ledger, sound.blocked, ?_, ?_⟩, ?_⟩
    · cases phase with
      | away state => exact absurd (ready.symm.trans state) (by simp)
      | starting state => exact absurd (ready.symm.trans state) (by simp)
      | ready state child _ available start term kill =>
          refine .ready state child ?_ available start term kill
          intro a active
          cases active
          exact child
      | stopping state => exact absurd (ready.symm.trans state) (by simp)
    · intro closed
      exact absurd (shut closed).2.1 waits
    · rintro (away | ⟨_, none⟩)
      · exact absurd (ready.symm.trans away) (by simp)
      · cases none

/-- **The pump leaves nothing queued that could run.** -/
theorem pump_good (spawn : Spawn) (sound : Sound o s) : Good o (s.pump o spawn) := by
  unfold pump
  split
  · rename_i rest
    refine { sound with served := fun _ => ?_ }
    rcases rest with closed | empty
    · exact (sound.shut closed).2.1
    · exact empty
  · rename_i waits
    rw [not_or] at waits
    split
    · rename_i away
      split
      · exact { failQueued_sound _ sound with served := fun _ => failQueued_queue _ _ }
      · rename_i available
        unfold spawnChild
        cases spawn with
        | some message => exact unavailable_sound _ sound away
        | none =>
            cases sound.phase with
            | away _ _ active _ term kill =>
                refine ⟨⟨⟨sound.ledger.space, sound.ledger.once⟩, sound.blocked,
                  .starting rfl rfl active (Nat.le_of_not_lt available) rfl term kill, ?_⟩, ?_⟩
                · intro closed
                  exact absurd closed waits.1
                · rintro (state | ⟨state, _⟩) <;> cases state
            | starting state => exact absurd (away.symm.trans state) (by simp)
            | ready state => exact absurd (away.symm.trans state) (by simp)
            | stopping state => exact absurd (away.symm.trans state) (by simp)
    · rename_i ready
      split
      · rename_i idle
        exact startNext_good sound ready idle waits.2
      · rename_i busy
        refine { sound with served := ?_ }
        rintro (state | ⟨_, idle⟩)
        · exact absurd (ready.symm.trans state) (by simp)
        · exact absurd idle busy
    · rename_i state
      exact { sound with served := by simp [Served, state] }
    · rename_i state
      exact { sound with served := by simp [Served, state] }

/-! ## What each event keeps -/

/-- The counters, the idle timer and the signals do not matter. -/
theorem Sound.aside (sound : Sound o s) (stats : Stats) (idle : Bool) (waiters : Nat)
    (signals : List Nat) :
    Sound o { s with
      stats := stats, idleTimer := idle, exitWaiters := waiters, signals := signals } := by
  refine ⟨⟨sound.ledger.space, sound.ledger.once⟩, sound.blocked, ?_, sound.shut⟩
  exact sound.phase.same rfl rfl rfl rfl rfl rfl rfl rfl

theorem stopping_good {c : Nat} (ledger : Ledger o s []) (blocked : s.space.Blocked o.maxQueuedBytes)
    (shut : Shut s) (active : s.active = none) (child : s.child = some c)
    (running : s.state ≠ .stopping) (kill : s.killTimer = none) : Good o s.beginStop := by
  have going : ¬(s.child = none ∨ s.state = .stopping) := by simp [child, running]
  rw [beginStop, if_neg going]
  refine ⟨⟨⟨ledger.space, ledger.once⟩, blocked, ?_, shut⟩, ?_⟩
  · exact .stopping rfl child active rfl (.inl ⟨child, kill⟩)
  · rintro (state | ⟨state, _⟩) <;> cases state

theorem beginStop_good (sound : Sound o s) (idle : s.active = none)
    (empty : s.child = none → s.queue = []) : Good o s.beginStop := by
  cases sound.phase with
  | away state child =>
      have resting : s.beginStop = s := by rw [beginStop, if_pos (.inl child)]
      rw [resting]
      exact { sound with served := fun _ => empty child }
  | starting state child _ _ _ _ kill =>
      exact stopping_good sound.ledger sound.blocked sound.shut idle child (by simp [state]) kill
  | ready state child _ _ _ _ kill =>
      exact stopping_good sound.ledger sound.blocked sound.shut idle child (by simp [state]) kill
  | stopping state =>
      have resting : s.beginStop = s := by rw [beginStop, if_pos (.inr state)]
      rw [resting]
      refine { sound with served := ?_ }
      rintro (away | ⟨ready, _⟩)
      · exact absurd (state.symm.trans away) (by simp)
      · exact absurd (state.symm.trans ready) (by simp)

/-- Taken from the ready child, the active job is settled and the child is idle. -/
theorem takeActive_sound {a : Active} (sound : Sound o s) (active : s.active = some a)
    (outcome : Outcome) : Sound o (s.takeActive o a outcome) := by
  refine ⟨sound.ledger.takeActive active outcome, Space.unreserve_blocked _ _, ?_, ?_⟩
  · cases sound.phase with
    | away _ _ inactive => exact absurd (active.symm.trans inactive) (by simp)
    | starting _ _ inactive => exact absurd (active.symm.trans inactive) (by simp)
    | ready state child _ available start term kill =>
        exact .ready state child (fun _ none => nomatch none) available start term kill
    | stopping _ _ inactive => exact absurd (active.symm.trans inactive) (by simp)
  · intro closed
    exact absurd (active.symm.trans (sound.shut closed).2.2) (by simp)

theorem onTimeout_good (id : Nat) (good : Good o s) : Good o (s.onTimeout o id) := by
  unfold onTimeout
  split
  · rename_i a active
    split
    · have counted := good.toSound.aside { s.stats with timeouts := s.stats.timeouts + 1 }
        s.idleTimer s.exitWaiters s.signals
      obtain ⟨_, c, child, _⟩ := good.phase.ready_of_active active
      exact beginStop_good (takeActive_sound counted active _) rfl
        fun none => absurd (child.symm.trans none) (by simp)
    · exact good
  · exact good

theorem onReply_good (id : Nat) (outcome : Outcome) (good : Good o s) :
    Good o (s.onReply o id outcome) := by
  unfold onReply
  split
  · rename_i a active
    split
    · have counted := good.toSound.aside { s.stats with jobs := s.stats.jobs + 1 }
        s.idleTimer s.exitWaiters s.signals
      have taken := takeActive_sound counted active outcome
      have ready := (good.phase.ready_of_active active).1
      unfold goOn
      split
      · rename_i waits
        exact startNext_good taken ready rfl waits
      · rename_i empty
        rw [not_not] at empty
        exact { taken.aside _ true _ _ with served := fun _ => empty }
    · exact good
  · exact good

theorem onMessage_good (c : Nat) (reply : ConverterReply) (spawn : Spawn) (good : Good o s) :
    Good o (s.onMessage o c reply spawn) := by
  unfold onMessage
  split
  · exact good
  · cases reply with
    | ready =>
        dsimp only
        split
        · rename_i starting
          apply pump_good
          refine ⟨⟨good.ledger.space, good.ledger.once⟩, good.blocked, ?_, good.shut⟩
          cases good.phase with
          | away state => exact absurd (starting.symm.trans state) (by simp)
          | starting _ child active available _ term kill =>
              refine .ready rfl child ?_ available rfl term kill
              intro a some
              exact absurd (some.symm.trans active) (by simp)
          | ready state => exact absurd (starting.symm.trans state) (by simp)
          | stopping state => exact absurd (starting.symm.trans state) (by simp)
        · exact good
    | ok id result => exact onReply_good id _ good
    | error id name message => exact onReply_good id _ good

/-- When its child is gone, a sound runner without an active job has no child. -/
theorem gone_sound (sound : Sound o s) (idle : s.active = none) :
    Sound o { s.clearStop with child := none, state := .none } :=
  ⟨⟨sound.ledger.space, sound.ledger.once⟩, sound.blocked, .away rfl rfl idle rfl rfl rfl,
    sound.shut⟩

theorem onChildExit_good (c : Nat) (code : Option Int) (spawn : Spawn) (good : Good o s) :
    Good o (s.onChildExit o c code spawn) := by
  unfold onChildExit
  split
  · exact good
  · dsimp only
    apply pump_good
    refine Sound.aside ?_ _ _ 0 _
    unfold crash
    split
    · rename_i a active
      have counted := good.toSound.aside { s.stats with crashes := s.stats.crashes + 1 }
        s.idleTimer s.exitWaiters s.signals
      exact gone_sound (takeActive_sound counted active (.crashed code)) rfl
    · rename_i idle
      have gone := gone_sound good.toSound idle
      split
      · exact (unavailable_sound _ gone rfl).toSound
      · exact gone

theorem cancel_good (id : Nat) (good : Good o s) : Good o (s.cancel o id) := by
  unfold cancel
  split
  · rename_i j found
    have mem : j ∈ s.queue := List.mem_of_find?_eq_some found
    have counted := good.toSound.aside { s.stats with cancels := s.stats.cancels + 1 }
      s.idleTimer s.exitWaiters s.signals
    have ledger := (counted.ledger.hold (List.perm_cons_erase mem)).leave .aborted
    refine ⟨⟨ledger, Space.unreserve_blocked _ _, ?_, ?_⟩, ?_⟩
    · exact good.phase.same rfl rfl rfl rfl rfl rfl rfl rfl
    · intro closed
      exact absurd mem ((good.shut closed).2.1 ▸ List.not_mem_nil)
    · intro able
      exact absurd mem (good.served able ▸ List.not_mem_nil)
  · split
    · rename_i a active
      split
      · have counted := good.toSound.aside { s.stats with cancels := s.stats.cancels + 1 }
          s.idleTimer s.exitWaiters s.signals
        obtain ⟨_, c, child, _⟩ := good.phase.ready_of_active active
        exact beginStop_good (takeActive_sound counted active _) rfl
          fun none => absurd (child.symm.trans none) (by simp)
      · exact good
    · exact good

theorem Ledger.abortWaiter {w : Job} (ledger : Ledger o s []) (mem : w ∈ s.space.spaceWaiters) :
    Ledger o (s.abortWaiter w) [] := by
  refine ⟨⟨ledger.space.balance, ledger.space.limit⟩, ?_⟩
  intro id
  have once := ledger.once id
  have moved := ((List.perm_cons_erase mem).map Job.id).count_eq id
  show ((s.space.granted ++ s.space.spaceWaiters.erase w ++ s.jobs ++ []).map Job.id).count id +
    ((s.settled ++ [(w.id, Outcome.aborted)]).map Prod.fst).count id =
      if id < s.submitted then 1 else 0
  simp only [pending, List.map_append, List.map_cons, List.count_append, List.count_cons,
    List.map_nil, List.count_nil] at once moved ⊢
  omega

/-- The waiter behind an aborted head of the space queue does not fit. -/
def NextWaits (o : ConverterRunnerOptions) (s : Runner) : Action → Prop
  | .abort id =>
      match s.space.spaceWaiters with
      | w :: next :: _ => w.id = id → s.space.fits o.maxQueuedBytes next.bytes = false
      | _ => True
  | _ => True

theorem abort_good (id : Nat) (good : Good o s) (waits : NextWaits o s (.abort id)) :
    Good o (s.abort o id) := by
  have fired := good.toSound.aside s.stats s.idleTimer s.exitWaiters (id :: s.signals)
  unfold abort
  dsimp only
  split
  · rename_i w found
    have mem : w ∈ s.space.spaceWaiters := List.mem_of_find?_eq_some found
    refine ⟨⟨fired.ledger.abortWaiter mem, ?_, ?_, ?_⟩, good.served⟩
    · intro next head
      change next ∈ (s.space.spaceWaiters.erase w).head? at head
      have blocked := good.blocked
      unfold NextWaits at waits
      unfold Space.Blocked at blocked
      show s.space.fits o.maxQueuedBytes next.bytes = false
      cases waiters : s.space.spaceWaiters with
      | nil => simp [waiters] at mem
      | cons v vs =>
          rw [waiters] at head blocked found
          by_cases first : v = w
          · subst first
            rw [List.erase_cons_head] at head
            obtain ⟨us, rfl⟩ := List.head?_eq_some_iff.1 head
            simp only [waiters] at waits
            have named := List.find?_some found
            exact waits (of_decide_eq_true named)
          · rw [List.erase_cons_tail (by simpa using first)] at head
            exact blocked next head
    · exact good.phase.same rfl rfl rfl rfl rfl rfl rfl rfl
    · intro closed
      exact absurd mem ((good.shut closed).1 ▸ List.not_mem_nil)
  · exact cancel_good id { fired with served := good.served }

/-- A new submission has the next number. -/
theorem Ledger.once_new (ledger : Ledger o s []) (id : Nat) :
    (s.pending.map Job.id).count id + (if s.submitted = id then 1 else 0) +
      (s.settled.map Prod.fst).count id = if id < s.submitted + 1 then 1 else 0 := by
  have once := ledger.once id
  rw [List.append_nil] at once
  by_cases last : s.submitted = id
  · rw [if_pos last, if_pos (by omega)]
    rw [if_neg (by omega)] at once
    omega
  · rw [if_neg last]
    by_cases earlier : id < s.submitted
    · rw [if_pos earlier] at once
      rw [if_pos (by omega)]
      omega
    · rw [if_neg earlier] at once
      rw [if_neg (by omega)]
      omega

/-- A submission that is settled at once. -/
theorem refused_good (job : ConverterJob) (outcome : Outcome) (good : Good o s) :
    Good o (finish ⟨s.submitted, job⟩ outcome { s with submitted := s.submitted + 1 }) := by
  refine ⟨⟨⟨good.ledger.space, fun id => ?_⟩, good.blocked,
    good.phase.same rfl rfl rfl rfl rfl rfl rfl rfl, good.shut⟩, good.served⟩
  have new := good.ledger.once_new id
  show ((s.pending ++ []).map Job.id).count id +
    ((s.settled ++ [(s.submitted, outcome)]).map Prod.fst).count id =
      if id < s.submitted + 1 then 1 else 0
  simp only [List.append_nil, List.map_append, List.map_cons, List.count_append,
    List.count_cons, List.map_nil, List.count_nil, beq_iff_eq] at new ⊢
  omega

theorem reserve_order (m : Nat) (j : Job) (p : Space) :
    ((p.reserveSpace m j).granted ++ (p.reserveSpace m j).spaceWaiters).Perm
      (p.granted ++ p.spaceWaiters ++ [j]) := by
  unfold Space.reserveSpace
  split
  · rename_i fits
    rw [Bool.and_eq_true, List.isEmpty_iff] at fits
    simp [fits.2]
  · simp

theorem submit_good (job : ConverterJob) (good : Good o s) : Good o (s.submit o job) := by
  unfold submit
  dsimp only
  split
  · exact refused_good job _ good
  · rename_i running
    split
    · have refused := refused_good job .aborted good
      exact { refused.toSound.aside _ _ _ _ with served := refused.served }
    · split
      · exact refused_good job _ good
      · refine ⟨⟨⟨good.ledger.space.reserve, fun id => ?_⟩, Space.reserve_blocked good.blocked,
          good.phase.same rfl rfl rfl rfl rfl rfl rfl rfl, ?_⟩, good.served⟩
        · have new := good.ledger.once_new id
          have order := ((reserve_order o.maxQueuedBytes ⟨s.submitted, job⟩ s.space).map
            Job.id).count_eq id
          show (((s.space.reserveSpace o.maxQueuedBytes ⟨s.submitted, job⟩).granted ++
            (s.space.reserveSpace o.maxQueuedBytes ⟨s.submitted, job⟩).spaceWaiters ++ s.jobs ++
              []).map Job.id).count id + (s.settled.map Prod.fst).count id =
                if id < s.submitted + 1 then 1 else 0
          simp only [pending, List.append_nil, List.map_append, List.map_cons, List.count_append,
            List.count_cons, List.map_nil, List.count_nil, beq_iff_eq] at new order ⊢
          omega
        · intro closed
          exact absurd closed running

/-- A submission that goes on is held. -/
theorem Ledger.resume {j : Job} {js : List Job} (ledger : Ledger o s [])
    (granted : s.space.granted = j :: js) :
    Ledger o { s with space := { s.space with granted := js } } [j] := by
  constructor
  · have taken := ledger.space.take granted
    rw [List.append_nil] at taken
    exact taken.perm (List.perm_append_singleton j s.jobs).symm
  · intro id
    rw [← ledger.once id]
    show ((js ++ s.space.spaceWaiters ++ s.jobs ++ [j]).map Job.id).count id + _ = _
    simp only [pending, granted, List.map_append, List.map_cons, List.count_append,
      List.count_cons, List.map_nil, List.count_nil]
    omega

theorem Ledger.enqueue {j : Job} (ledger : Ledger o s [j]) :
    Ledger o { s with queue := s.queue ++ [j] } [] := by
  have moved : (s.jobs ++ [j]).Perm (Runner.jobs { s with queue := s.queue ++ [j] } ++ []) := by
    simp only [Runner.jobs, List.append_nil, List.append_assoc]
    exact List.perm_append_comm.append_left s.queue
  constructor
  · exact ledger.space.perm moved
  · intro id
    have same := (((moved.append_left (s.space.granted ++ s.space.spaceWaiters)).map
      Job.id).count_eq id)
    rw [← ledger.once id]
    simp only [pending, List.append_assoc] at same ⊢
    rw [same]

/-- Its reservation given back, a submission is settled. -/
theorem givenBack_good {j : Job} {js : List Job} (outcome : Outcome) (good : Good o s)
    (granted : s.space.granted = j :: js) :
    Good o (finish j outcome
      (unreserve o j.bytes { s with space := { s.space with granted := js } })) := by
  refine ⟨⟨(good.ledger.resume granted).leave outcome, Space.unreserve_blocked _ _,
    good.phase.same rfl rfl rfl rfl rfl rfl rfl rfl, ?_⟩, good.served⟩
  intro closed
  obtain ⟨waiters, queue, active⟩ := good.shut closed
  exact ⟨Space.unreserve_none _ waiters, queue, active⟩

theorem resume_good {j : Job} {js : List Job} (spawn : Spawn) (good : Good o s)
    (granted : s.space.granted = j :: js) :
    Good o (resume o spawn j { s with space := { s.space with granted := js } }) := by
  unfold resume
  split
  · exact givenBack_good _ good granted
  · rename_i running
    split
    · have back := givenBack_good .aborted good granted
      exact { back.toSound.aside _ _ _ _ with served := back.served }
    · apply pump_good
      refine ⟨(good.ledger.resume granted).enqueue, good.blocked,
        good.phase.same rfl rfl rfl rfl rfl rfl rfl rfl, ?_⟩
      intro closed
      exact absurd closed running

theorem Ledger.rejectWaiters (ledger : Ledger o s []) :
    Ledger o { s with closed := true }.rejectWaiters [] := by
  refine ⟨⟨ledger.space.balance, ledger.space.limit⟩, fun id => ?_⟩
  have once := ledger.once id
  show ((s.space.granted ++ [] ++ s.jobs ++ []).map Job.id).count id +
    ((s.settled ++ s.space.spaceWaiters.map (·.id, Outcome.unavailable .stopped)).map
      Prod.fst).count id = if id < s.submitted then 1 else 0
  have ids : (s.space.spaceWaiters.map (·.id, Outcome.unavailable .stopped)).map Prod.fst =
      s.space.spaceWaiters.map Job.id := by simp
  simp only [pending, ids, List.append_nil, List.map_append, List.count_append] at once ⊢
  omega

/-- Nothing is queued, and nothing waits: the active job is settled last. -/
theorem failActive_sound (err : Outcome) (ledger : Ledger o s []) (phase : Phase s)
    (queue : s.queue = []) (waiters : s.space.spaceWaiters = []) :
    Sound o (s.failActive o err) ∧ (s.failActive o err).active = none ∧
      (s.failActive o err).queue = [] := by
  have open_ : Sound o { s with closed := false } :=
    ⟨⟨ledger.space, ledger.once⟩, by simp [Space.Blocked, waiters],
      phase.same rfl rfl rfl rfl rfl rfl rfl rfl, fun closed => nomatch closed⟩
  unfold failActive
  split
  · rename_i a active
    obtain ⟨taken, blocked, phase, _⟩ := takeActive_sound open_ active err
    exact ⟨⟨⟨taken.space, taken.once⟩, blocked, phase.same rfl rfl rfl rfl rfl rfl rfl rfl,
      fun _ => ⟨Space.unreserve_none _ waiters, queue, rfl⟩⟩, rfl, queue⟩
  · rename_i idle
    exact ⟨⟨ledger, by simp [Space.Blocked, waiters], phase, fun _ => ⟨waiters, queue, idle⟩⟩,
      idle, queue⟩

theorem stop_good (good : Good o s) : Good o (s.stop o) := by
  have failed := good.ledger.rejectWaiters.failQueued (.unavailable .stopped)
  have phase : Phase ({ s with closed := true }.rejectWaiters.failQueued o
      (.unavailable .stopped)) := by
    rw [failQueued_eq]
    exact good.phase.same rfl rfl rfl rfl rfl rfl rfl rfl
  have waiters : ({ s with closed := true }.rejectWaiters.failQueued o
      (.unavailable .stopped)).space.spaceWaiters = [] := by
    rw [failQueued_eq]
    exact foldl_none _ rfl
  obtain ⟨sound, idle, empty⟩ := failActive_sound (.unavailable .stopped) failed phase
    (failQueued_queue _ _) waiters
  unfold stop
  dsimp only
  split
  · exact { sound.aside _ false _ _ with served := fun _ => empty }
  · exact beginStop_good (sound.aside _ false _ _) idle fun _ => empty

theorem onStartTimer_good (good : Good o s) (set : s.startTimer = true) :
    Good o (s.onStartTimer o) := by
  cases good.phase with
  | starting state child active _ _ _ kill =>
      have failed := (show Ledger o { s with
          startTimer := false
          stats := { s.stats with unavailable := s.stats.unavailable + 1 }
          unavailableUntil := s.clock + o.spawnBackoffMs } [] from
        ⟨good.ledger.space, good.ledger.once⟩).failQueued
          (.unavailable (.notReady o.startTimeoutMs))
      unfold onStartTimer unavailable
      rw [failQueued_eq] at failed ⊢
      refine stopping_good failed (foldl_blocked _ good.blocked) ?_ active child
        (by rw [state]; simp) kill
      intro closed
      obtain ⟨waiters, _, idle⟩ := good.shut closed
      exact ⟨foldl_none _ waiters, rfl, idle⟩
  | away _ _ _ start => exact absurd (set.symm.trans start) (by simp)
  | ready _ _ _ _ start => exact absurd (set.symm.trans start) (by simp)
  | stopping _ _ _ start => exact absurd (set.symm.trans start) (by simp)

theorem onTermTimer_good {c : Nat} (good : Good o s) (set : s.termTimer = some c) :
    Good o { s with termTimer := none, killTimer := some c } := by
  refine ⟨⟨⟨good.ledger.space, good.ledger.once⟩, good.blocked, ?_, good.shut⟩, good.served⟩
  cases good.phase with
  | stopping state child active start timers =>
      rcases timers with ⟨term, _⟩ | ⟨term, _⟩
      · obtain rfl : c = _ := Option.some.inj (set.symm.trans term)
        exact .stopping state child active start (.inr ⟨rfl, rfl⟩)
      · exact absurd (set.symm.trans term) (by simp)
  | away _ _ _ _ term => exact absurd (set.symm.trans term) (by simp)
  | starting _ _ _ _ _ term => exact absurd (set.symm.trans term) (by simp)
  | ready _ _ _ _ _ term => exact absurd (set.symm.trans term) (by simp)

theorem onKillTimer_good {c : Nat} (spawn : Spawn) (good : Good o s)
    (set : s.killTimer = some c) : Good o (s.onKillTimer o c spawn) := by
  cases good.phase with
  | stopping state child active start timers =>
      rcases timers with ⟨_, kill⟩ | ⟨term, kill⟩
      · exact absurd (set.symm.trans kill) (by simp)
      · obtain rfl : c = _ := Option.some.inj (set.symm.trans kill)
        unfold onKillTimer
        dsimp only
        rw [if_neg (by simp [child])]
        apply pump_good
        exact ⟨⟨good.ledger.space, good.ledger.once⟩, good.blocked,
          .away rfl rfl active start term rfl, good.shut⟩
  | away _ _ _ _ _ kill => exact absurd (set.symm.trans kill) (by simp)
  | starting _ _ _ _ _ _ kill => exact absurd (set.symm.trans kill) (by simp)
  | ready _ _ _ _ _ _ kill => exact absurd (set.symm.trans kill) (by simp)

theorem onIdleTimer_good (good : Good o s) : Good o s.onIdleTimer := by
  have fired := good.toSound.aside s.stats false s.exitWaiters s.signals
  unfold onIdleTimer
  dsimp only
  split
  · rename_i idle
    exact beginStop_good fired idle.2.1 fun _ => idle.2.2
  · exact { fired with served := good.served }

end Runner

open Runner

/-! ## Runs -/

variable {o : ConverterRunnerOptions} {s s' : Runner}

theorem tick_good (ms : Nat) (good : Good o s) : Good o { s with clock := s.clock + ms } := by
  refine ⟨⟨⟨good.ledger.space, good.ledger.once⟩, good.blocked, ?_, good.shut⟩, good.served⟩
  cases good.phase with
  | away state child active start term kill => exact .away state child active start term kill
  | starting state child active available start term kill =>
      exact .starting state child active (Nat.le_add_right_of_le available) start term kill
  | ready state child active available start term kill =>
      exact .ready state child active (Nat.le_add_right_of_le available) start term kill
  | stopping state child active start timers => exact .stopping state child active start timers

theorem step_good (a : Action) (good : Good o s) (waits : NextWaits o s a)
    (taken : step o s a = some s') : Good o s' := by
  cases a with
  | submit job =>
      obtain rfl := Option.some.inj taken
      exact submit_good job good
  | resume spawn =>
      simp only [step] at taken
      split at taken
      · cases taken
      · rename_i j rest granted
        obtain rfl := Option.some.inj taken
        exact resume_good spawn good granted
  | abort id =>
      obtain rfl := Option.some.inj taken
      exact abort_good id good waits
  | message child reply spawn =>
      obtain rfl := Option.some.inj taken
      exact onMessage_good child reply spawn good
  | exit child code spawn =>
      obtain rfl := Option.some.inj taken
      exact onChildExit_good child code spawn good
  | timeout id =>
      simp only [step, Option.ite_none_right_eq_some, Option.some.injEq] at taken
      obtain ⟨_, rfl⟩ := taken
      exact onTimeout_good id good
  | startTimer =>
      simp only [step, Option.ite_none_right_eq_some, Option.some.injEq] at taken
      obtain ⟨set, rfl⟩ := taken
      exact onStartTimer_good good set
  | termTimer =>
      obtain ⟨c, set, rfl⟩ := Option.map_eq_some_iff.1 taken
      exact onTermTimer_good good set
  | killTimer spawn =>
      obtain ⟨c, set, rfl⟩ := Option.map_eq_some_iff.1 taken
      exact onKillTimer_good spawn good set
  | idleTimer =>
      simp only [step, Option.ite_none_right_eq_some, Option.some.injEq] at taken
      obtain ⟨_, rfl⟩ := taken
      exact onIdleTimer_good good
  | stop =>
      obtain rfl := Option.some.inj taken
      exact stop_good good
  | tick ms =>
      obtain rfl := Option.some.inj taken
      exact tick_good ms good

theorem initial_good : Good o Runner.initial := by
  refine ⟨⟨⟨⟨rfl, .inl (Int.natCast_nonneg _)⟩, fun id => ?_⟩, by simp [Space.Blocked, initial],
    .away rfl rfl rfl rfl rfl rfl, fun closed => nomatch closed⟩, fun _ => rfl⟩
  simp [initial, pending, jobs]

/-! ## Its own events come to an end -/

/-- The timers, and the submissions that have their space. -/
def Action.own : Action → Bool
  | .resume _ | .timeout _ | .startTimer | .termTimer | .killTimer _ | .idleTimer => true
  | .submit _ | .abort _ | .message _ _ _ | .exit _ _ _ | .stop | .tick _ => false

/-- How many of its own events the child can still be good for. -/
def Runner.childWork (s : Runner) : Nat :=
  match s.state with
  | .none | .ready => 0
  | .starting => if s.queue = [] then 3 else 4
  | .stopping => (if s.queue = [] then 0 else 4) + if s.termTimer.isSome then 2 else 1

def Space.length (p : Space) : Nat := (p.granted ++ p.spaceWaiters).length

/-- A bound on the runner's own events, if nothing else happens. -/
def Runner.work (s : Runner) : Nat :=
  15 * s.space.length + 7 * s.jobs.length + (if s.idleTimer then 3 else 0) + s.childWork

@[simp] theorem Space.unreserve_length (m bytes : Nat) (p : Space) :
    (p.unreserve m bytes).length = p.length :=
  congrArg List.length (Space.unreserve_order bytes p)

@[simp] theorem foldl_length (js : List Job) (p : Space) :
    (js.foldl (fun p j => p.unreserve o.maxQueuedBytes j.bytes) p).length = p.length := by
  induction js generalizing p with
  | nil => rfl
  | cons j js ih => rw [List.foldl_cons, ih, Space.unreserve_length]

namespace Runner

theorem failQueued_work (err : Outcome) (s : Runner) :
    (s.failQueued o err).work + 7 * s.queue.length ≤ s.work := by
  have empty : ∀ active : Option Active, ∀ queue : List Job,
      (queue ++ (active.map Active.job).toList).length =
        queue.length + (active.map Active.job).toList.length := by simp
  rw [failQueued_eq]
  simp only [work, jobs, foldl_length, childWork, List.nil_append, empty, if_true]
  cases s.state <;> simp only <;> split_ifs <;> omega

theorem settle_work (j : Job) (outcome : Outcome) (s : Runner) :
    ((s.settle o j).finish j outcome).work = s.work := by
  have space : (s.space.unreserve o.maxQueuedBytes j.bytes).length = s.space.length :=
    Space.unreserve_length _ _ _
  show 15 * (s.space.unreserve o.maxQueuedBytes j.bytes).length + _ + _ + _ = _
  rw [space]
  rfl

theorem takeActive_work {a : Active} (active : s.active = some a) (outcome : Outcome) :
    (s.takeActive o a outcome).work + 7 = s.work := by
  rw [takeActive, settle_work]
  have jobs : s.jobs.length = (Runner.jobs { s with active := none }).length + 1 := by
    simp [Runner.jobs, active]
  simp only [work, jobs, childWork]
  omega

theorem beginStop_work (ready : s.state = .ready) :
    s.beginStop.work ≤ s.work + if s.queue = [] then 2 else 6 := by
  unfold beginStop
  split
  · exact Nat.le_add_right _ _
  · rename_i going
    rw [not_or] at going
    have child : s.child.isSome = true := Option.isSome_iff_ne_none.2 going.1
    simp only [work, childWork, child, ready]
    show 15 * s.space.length + 7 * s.jobs.length + _ + _ ≤ _
    split_ifs <;> simp_all

theorem startNext_work (ready : s.state = .ready) (idle : s.active = none) :
    s.startNext.work ≤ s.work := by
  unfold startNext
  split
  · exact Nat.le_refl _
  · rename_i job rest queue
    simp only [work, childWork, ready, jobs, idle, queue]
    simp

theorem pump_work (spawn : Spawn) (s : Runner) :
    (s.pump o spawn).work ≤ s.work + if s.state = .none then 4 else 0 := by
  unfold pump
  split
  · exact Nat.le_add_right _ _
  · rename_i waits
    rw [not_or] at waits
    split
    · rename_i away
      rw [if_pos away]
      split
      · have failed := failQueued_work (o := o) (.unavailable .backingOff) s
        omega
      · unfold spawnChild
        cases spawn with
        | some message =>
            have failed := failQueued_work (o := o) (.unavailable (.spawnFailed message))
              { s with
                stats := { s.stats with unavailable := s.stats.unavailable + 1 }
                unavailableUntil := s.clock + o.spawnBackoffMs }
            exact (Nat.le_of_add_right_le failed).trans (Nat.le_add_right _ _)
        | none =>
            simp only [work, childWork, away, if_neg waits.2]
            rfl
    · rename_i ready
      split
      · rename_i idle
        exact (startNext_work ready idle).trans (Nat.le_add_right _ _)
      · exact Nat.le_add_right _ _
    · exact Nat.le_add_right _ _
    · exact Nat.le_add_right _ _

theorem enqueue_work (j : Job) (s : Runner) :
    Runner.work { s with queue := s.queue ++ [j] } ≤
      s.work + 7 + if s.state = .none then 0 else 4 := by
  have more : (s.queue ++ [j] ++ (s.active.map Active.job).toList).length =
      s.jobs.length + 1 := by
    simp only [jobs, List.length_append, List.length_cons, List.length_nil]
    omega
  simp only [work, Runner.jobs, more, childWork]
  cases s.state <;> simp <;> split_ifs <;> omega

theorem resume_work {j : Job} {js : List Job} (spawn : Spawn) (granted : s.space.granted = j :: js) :
    (resume o spawn j { s with space := { s.space with granted := js } }).work < s.work := by
  have taken : (Runner.work { s with space := { s.space with granted := js } }) + 15 = s.work := by
    have fewer : s.space.length = (Space.length { s.space with granted := js }) + 1 := by
      simp [Space.length, granted]
    simp only [work, fewer, jobs, childWork]
    omega
  unfold resume
  split
  · rw [show (finish j (.unavailable .stopped) (unreserve o j.bytes
      { s with space := { s.space with granted := js } })).work = _ from settle_work j _ _]
    omega
  · split
    · rw [show (finish j .aborted (countCancel (unreserve o j.bytes
        { s with space := { s.space with granted := js } }))).work = _ from settle_work j .aborted _]
      omega
    · have queued := enqueue_work j { s with space := { s.space with granted := js } }
      refine Nat.lt_of_le_of_lt (pump_work spawn _) ?_
      dsimp only at taken queued ⊢
      split_ifs at queued ⊢ <;> omega

theorem onStartTimer_work (good : Good o s) (set : s.startTimer = true) :
    (s.onStartTimer o).work < s.work := by
  cases good.phase with
  | starting state child active _ _ term kill =>
      unfold onStartTimer unavailable
      rw [failQueued_eq]
      have going : ¬(s.child = none ∨ s.state = .stopping) := by simp [child, state]
      rw [beginStop, if_neg going]
      simp only [work, childWork, jobs, foldl_length, state, child, active]
      split_ifs <;> simp_all
      all_goals omega
  | away _ _ _ start => exact absurd (set.symm.trans start) (by simp)
  | ready _ _ _ _ start => exact absurd (set.symm.trans start) (by simp)
  | stopping _ _ _ start => exact absurd (set.symm.trans start) (by simp)

end Runner

namespace Runner

/-- The child is stopped after its active job was taken. -/
theorem takeStop_work {a : Active} (active : s.active = some a) (ready : s.state = .ready)
    (outcome : Outcome) : (s.takeActive o a outcome).beginStop.work < s.work := by
  have taken := takeActive_work (o := o) active outcome
  have stopped := beginStop_work (s := s.takeActive o a outcome) ready
  split_ifs at stopped <;> omega

theorem onTimeout_work {a : Active} (good : Good o s) (active : s.active = some a) :
    (s.onTimeout o a.id).work < s.work := by
  unfold onTimeout
  split
  · rename_i b same
    obtain rfl : a = b := Option.some.inj (active.symm.trans same)
    rw [if_pos rfl]
    exact takeStop_work (s := { s with
      stats := { s.stats with timeouts := s.stats.timeouts + 1 } }) active
      (good.phase.ready_of_active active).1 _
  · rename_i idle
    exact absurd (active.symm.trans idle) (by simp)

theorem onTermTimer_work {c : Nat} (good : Good o s) (set : s.termTimer = some c) :
    Runner.work { s with termTimer := none, killTimer := some c } < s.work := by
  cases good.phase with
  | stopping state => simp [work, childWork, state, set, jobs]
  | away _ _ _ _ term => exact absurd (set.symm.trans term) (by simp)
  | starting _ _ _ _ _ term => exact absurd (set.symm.trans term) (by simp)
  | ready _ _ _ _ _ term => exact absurd (set.symm.trans term) (by simp)

theorem onKillTimer_work {c : Nat} (spawn : Spawn) (good : Good o s)
    (set : s.killTimer = some c) : (s.onKillTimer o c spawn).work < s.work := by
  cases good.phase with
  | stopping state child active start timers =>
      rcases timers with ⟨_, kill⟩ | ⟨term, kill⟩
      · exact absurd (set.symm.trans kill) (by simp)
      · obtain rfl : c = _ := Option.some.inj (set.symm.trans kill)
        have rank : s.childWork = (if s.queue = [] then 0 else 4) + 1 := by
          simp [childWork, state, term]
        have abandoned : (flushExitWaiters { s with
            killTimer := none, child := none, state := .none }).work + s.childWork = s.work := rfl
        unfold onKillTimer
        dsimp only
        rw [if_neg (by simp [child])]
        by_cases empty : s.queue = []
        · rw [pump, if_pos (.inr empty)]
          rw [if_pos empty] at rank
          omega
        · refine Nat.lt_of_le_of_lt (pump_work spawn _) ?_
          rw [if_neg empty] at rank
          split_ifs <;> omega
  | away _ _ _ _ _ kill => exact absurd (set.symm.trans kill) (by simp)
  | starting _ _ _ _ _ _ kill => exact absurd (set.symm.trans kill) (by simp)
  | ready _ _ _ _ _ _ kill => exact absurd (set.symm.trans kill) (by simp)

theorem onIdleTimer_work (set : s.idleTimer = true) : s.onIdleTimer.work < s.work := by
  have fired : (Runner.work { s with idleTimer := false }) + 3 = s.work := by
    simp only [work, set, jobs, childWork]
    simp
    omega
  unfold onIdleTimer
  dsimp only
  split
  · rename_i idle
    have stopped := beginStop_work (s := { s with idleTimer := false }) idle.1
    rw [if_pos idle.2.2] at stopped
    omega
  · omega

end Runner

theorem own_lowers (a : Action) (good : Good o s) (own : a.own = true)
    (taken : step o s a = some s') : s'.work < s.work := by
  cases a with
  | resume spawn =>
      simp only [step] at taken
      split at taken
      · cases taken
      · rename_i j rest granted
        obtain rfl := Option.some.inj taken
        exact resume_work spawn granted
  | timeout id =>
      simp only [step, Option.ite_none_right_eq_some, Option.some.injEq] at taken
      obtain ⟨set, rfl⟩ := taken
      cases active : s.active with
      | none => simp [active] at set
      | some a =>
          obtain rfl : a.id = id := by simpa [active] using set
          exact onTimeout_work good active
  | startTimer =>
      simp only [step, Option.ite_none_right_eq_some, Option.some.injEq] at taken
      obtain ⟨set, rfl⟩ := taken
      exact onStartTimer_work good set
  | termTimer =>
      obtain ⟨c, set, rfl⟩ := Option.map_eq_some_iff.1 taken
      exact onTermTimer_work good set
  | killTimer spawn =>
      obtain ⟨c, set, rfl⟩ := Option.map_eq_some_iff.1 taken
      exact onKillTimer_work spawn good set
  | idleTimer =>
      simp only [step, Option.ite_none_right_eq_some, Option.some.injEq] at taken
      obtain ⟨set, rfl⟩ := taken
      exact onIdleTimer_work set
  | submit _ => cases own
  | abort _ => cases own
  | message _ _ _ => cases own
  | exit _ _ _ => cases own
  | stop => cases own
  | tick _ => cases own

/-- None of the runner's own events is enabled. -/
def Quiet (o : ConverterRunnerOptions) (s : Runner) : Prop :=
  ∀ a : Action, a.own = true → step o s a = none

/-- A runner with no event of its own has nothing left to settle. -/
theorem pending_of_quiet (good : Good o s) (quiet : Quiet o s) : s.pending = [] := by
  have granted : s.space.granted = [] := by
    have refused := quiet (.resume none) rfl
    simp only [step] at refused
    split at refused
    · assumption
    · cases refused
  have idle : s.active = none := by
    cases active : s.active with
    | none => rfl
    | some a =>
        have refused := quiet (.timeout a.id) rfl
        simp [step, active] at refused
  have start : s.startTimer ≠ true := fun set => by
    have refused := quiet .startTimer rfl
    simp [step, set] at refused
  have term : s.termTimer = none := by simpa [step] using quiet .termTimer rfl
  have kill : s.killTimer = none := by simpa [step] using quiet (.killTimer none) rfl
  have empty : s.queue = [] := by
    cases good.phase with
    | away state => exact good.served (.inl state)
    | starting _ _ _ _ set => exact absurd set start
    | ready state => exact good.served (.inr ⟨state, idle⟩)
    | stopping _ _ _ _ timers =>
        rcases timers with ⟨set, _⟩ | ⟨_, set⟩
        · exact absurd (set.symm.trans term) (by simp)
        · exact absurd (set.symm.trans kill) (by simp)
  have jobs : s.jobs = [] := by simp [Runner.jobs, empty, idle]
  have free : s.space.queuedBytes = 0 := by
    rw [good.ledger.space.balance, granted, jobs]
    rfl
  have waiters : s.space.spaceWaiters = [] := by
    have blocked := good.blocked
    unfold Space.Blocked at blocked
    cases waiters : s.space.spaceWaiters with
    | nil => rfl
    | cons w ws =>
        rw [waiters] at blocked
        have full := blocked w rfl
        simp [Space.fits, free] at full
  simp [Runner.pending, granted, waiters, jobs]

/-! ## Crashes and timeouts -/

/-- The child has said ready, and what it cannot finish is not lost to a pause. -/
def Runner.serving (s : Runner) : Prop :=
  s.state = .ready ∨ s.state = .stopping ∧ s.unavailableUntil ≤ s.clock

/-- What a spawn that throws fails. -/
def spawnFailures : Spawn → List Job → List (Nat × Outcome)
  | none, _ => []
  | some message, js => js.map (·.id, .unavailable (.spawnFailed message))

namespace Runner

theorem pump_respawns (spawn : Spawn) (away : s.state = .none)
    (available : s.unavailableUntil ≤ s.clock) (shut : s.closed = true → s.queue = []) :
    (s.pump o spawn).settled = s.settled ++ spawnFailures spawn s.queue ∧
      (spawn = none → (s.pump o spawn).queue = s.queue) := by
  unfold pump
  split
  · rename_i rest
    have empty : s.queue = [] := rest.elim shut fun empty => empty
    rw [empty]
    cases spawn <;> exact ⟨(List.append_nil _).symm, fun _ => rfl⟩
  · rw [away]
    simp only [Nat.not_lt.2 available, if_false]
    unfold spawnChild
    cases spawn with
    | none => exact ⟨(List.append_nil _).symm, fun _ => rfl⟩
    | some message =>
        refine ⟨?_, fun none => nomatch none⟩
        dsimp only
        rw [Runner.unavailable, failQueued_eq]
        rfl

theorem onChildExit_settles {c : Nat} (code : Option Int) (spawn : Spawn) (good : Good o s)
    (child : s.child = some c) (serving : s.serving) :
    (s.onChildExit o c code spawn).settled =
        s.settled ++ (s.active.map fun a => (a.job.id, .crashed code)).toList ++
          spawnFailures spawn s.queue ∧
      (spawn = none → (s.onChildExit o c code spawn).queue = s.queue) := by
  have available : s.unavailableUntil ≤ s.clock := by
    rcases serving with ready | ⟨_, available⟩
    · cases good.phase with
      | away state => exact absurd (ready.symm.trans state) (by simp)
      | starting state => exact absurd (ready.symm.trans state) (by simp)
      | ready _ _ _ available => exact available
      | stopping state => exact absurd (ready.symm.trans state) (by simp)
    · exact available
  have begun : s.state ≠ .starting := by
    rcases serving with ready | ⟨stopping, _⟩
    · simp [ready]
    · simp [stopping]
  unfold onChildExit
  rw [if_neg (by simp [child])]
  dsimp only
  cases active : s.active with
  | none =>
      have crash : crash o code s.state { s.clearStop with child := none, state := .none } =
          { s.clearStop with child := none, state := .none } := by
        simp only [crash, clearStop, active, if_neg begun]
      rw [crash]
      have pumped := pump_respawns (o := o) (s := flushExitWaiters { s.clearStop with
        child := none, state := .none }) spawn rfl available fun closed => (good.shut closed).2.1
      rw [Option.map_none, Option.toList_none, List.append_nil]
      exact pumped
  | some a =>
      simp only [crash, clearStop, active]
      exact pump_respawns (o := o) spawn rfl available fun closed => (good.shut closed).2.1

theorem beginStop_frame (s : Runner) : s.beginStop.settled = s.settled ∧
    s.beginStop.queue = s.queue ∧ s.beginStop.submitted = s.submitted := by
  unfold beginStop
  split <;> exact ⟨rfl, rfl, rfl⟩

theorem beginStop_serving (ready : s.state = .ready) (available : s.unavailableUntil ≤ s.clock) :
    s.beginStop.serving := by
  unfold beginStop
  split
  · exact .inl ready
  · exact .inr ⟨rfl, available⟩

theorem onTimeout_settles {a : Active} (good : Good o s) (active : s.active = some a) :
    (s.onTimeout o a.id).settled = s.settled ++ [(a.job.id, .timedOut o.timeoutMs)] ∧
      (s.onTimeout o a.id).queue = s.queue ∧ (s.onTimeout o a.id).serving := by
  have ready := (good.phase.ready_of_active active).1
  have available : s.unavailableUntil ≤ s.clock := by
    cases good.phase with
    | away state => exact absurd (ready.symm.trans state) (by simp)
    | starting state => exact absurd (ready.symm.trans state) (by simp)
    | ready _ _ _ available => exact available
    | stopping state => exact absurd (ready.symm.trans state) (by simp)
  simp only [onTimeout, active, if_true]
  exact ⟨(beginStop_frame _).1, (beginStop_frame _).2.1, beginStop_serving ready available⟩

end Runner

/-! ## The runner's books -/

/-- What the runner promises of its jobs in a state. -/
structure Accounts (o : ConverterRunnerOptions) (s : Runner) : Prop where
  /-- Every submission is in one place, or settled once. -/
  once : ∀ id, (s.pending.map Job.id).count id + (s.settled.map Prod.fst).count id =
    if id < s.submitted then 1 else 0
  /-- Its own events, in any order, come to an end, and then every submission is settled. -/
  ends : ∀ as s', (∀ a ∈ as, a.own = true) → runSteps (step o) s as = some s' →
    as.length ≤ s.work ∧
      (Quiet o s' → ∀ id < s.submitted, (s'.settled.map Prod.fst).count id = 1)
  /-- The active job is in the ready child it was sent to. -/
  active : ∀ a, s.active = some a → s.state = .ready ∧ ∃ c, s.child = some c ∧ a.sentTo = some c
  balance : s.space.queuedBytes = total s.queue + total (s.active.map Active.job).toList +
    total s.space.granted
  limit : o.maxQueuedBytes < s.space.queuedBytes →
    ∃ j ∈ s.space.granted ++ s.jobs, j.bytes = s.space.queuedBytes
  crash : ∀ c code spawn s', s.child = some c → s.serving →
    step o s (.exit c code spawn) = some s' →
      s'.settled = s.settled ++ (s.active.map fun a => (a.job.id, .crashed code)).toList ++
        spawnFailures spawn s.queue ∧ (spawn = none → s'.queue = s.queue)
  timeout : ∀ a s', s.active = some a → step o s (.timeout a.id) = some s' →
    s'.settled = s.settled ++ [(a.job.id, .timedOut o.timeoutMs)] ∧ s'.queue = s.queue ∧
      s'.serving
  /-- No waiter at the head is left while its bytes fit. -/
  head : s.space.granted = [] →
    ∀ w ∈ s.space.spaceWaiters.head?, s.space.fits o.maxQueuedBytes w.bytes = false
  /-- No job is left while an idle ready child exists. -/
  served : s.state = .ready → s.active = none → s.queue = []

theorem Runner.pump_submitted (spawn : Spawn) (s : Runner) :
    (s.pump o spawn).submitted = s.submitted := by
  unfold pump
  split
  · rfl
  · split
    · split
      · rw [failQueued_eq]
      · unfold spawnChild
        cases spawn with
        | none => rfl
        | some message =>
            dsimp only
            rw [Runner.unavailable, failQueued_eq]
    · split
      · unfold startNext
        split <;> rfl
      · rfl
    · rfl
    · rfl

/-- Its own events never submit. -/
theorem own_submitted (a : Action) (own : a.own = true) (taken : step o s a = some s') :
    s'.submitted = s.submitted := by
  cases a with
  | resume spawn =>
      simp only [step] at taken
      split at taken
      · cases taken
      · obtain rfl := Option.some.inj taken
        unfold resume
        split
        · rfl
        · split
          · rfl
          · exact pump_submitted spawn _
  | timeout id =>
      simp only [step, Option.ite_none_right_eq_some, Option.some.injEq] at taken
      obtain ⟨_, rfl⟩ := taken
      unfold onTimeout
      split
      · split
        · exact (beginStop_frame _).2.2
        · rfl
      · rfl
  | startTimer =>
      simp only [step, Option.ite_none_right_eq_some, Option.some.injEq] at taken
      obtain ⟨_, rfl⟩ := taken
      rw [onStartTimer, (beginStop_frame _).2.2, Runner.unavailable, failQueued_eq]
  | termTimer =>
      obtain ⟨c, _, rfl⟩ := Option.map_eq_some_iff.1 taken
      rfl
  | killTimer spawn =>
      obtain ⟨c, _, rfl⟩ := Option.map_eq_some_iff.1 taken
      unfold onKillTimer
      dsimp only
      split
      · rfl
      · exact pump_submitted spawn _
  | idleTimer =>
      simp only [step, Option.ite_none_right_eq_some, Option.some.injEq] at taken
      obtain ⟨_, rfl⟩ := taken
      unfold onIdleTimer
      dsimp only
      split
      · exact (beginStop_frame _).2.2
      · rfl
  | submit _ => cases own
  | abort _ => cases own
  | message _ _ _ => cases own
  | exit _ _ _ => cases own
  | stop => cases own
  | tick _ => cases own

/-- Its own events alone settle everything, and submit nothing. -/
theorem own_ends {as : List Action} (good : Good o s) (own : ∀ a ∈ as, a.own = true)
    (ran : runSteps (step o) s as = some s') :
    Good o s' ∧ s'.submitted = s.submitted ∧ as.length ≤ s.work := by
  have lowers : ∀ t a t', (Good o t ∧ t.submitted = s.submitted) → a.own = true →
      step o t a = some t' → (Good o t' ∧ t'.submitted = s.submitted) ∧ t'.work < t.work := by
    intro t a t' held own taken
    have waits : NextWaits o t a := by
      cases a with
      | abort _ => cases own
      | _ => trivial
    exact ⟨⟨step_good a held.1 waits taken, (own_submitted a own taken).trans held.2⟩,
      own_lowers a held.1 own taken⟩
  have along := @Along.of_mem _ _ (step o) _ as own s
  have kept := run_keeps (fun t a t' held own taken => (lowers t a t' held own taken).1)
    ⟨good, rfl⟩ along ran
  have bound := run_bounded lowers ⟨good, rfl⟩ along ran
  exact ⟨kept.1, kept.2, by omega⟩

theorem accounts_of_good (good : Good o s) : Accounts o s where
  once id := by
    have once := good.ledger.once id
    rwa [List.append_nil] at once
  ends as s' own ran := by
    obtain ⟨good', submitted, bound⟩ := own_ends good own ran
    refine ⟨bound, fun quiet id earlier => ?_⟩
    have once := good'.ledger.once id
    rw [List.append_nil, pending_of_quiet good' quiet, submitted, if_pos earlier] at once
    simpa using once
  active a active := good.phase.ready_of_active active
  balance := by
    have balance := good.ledger.space.balance
    rw [List.append_nil, Runner.jobs, total_append] at balance
    omega
  limit exceeds := by
    obtain ⟨balance, limit⟩ := good.ledger.space
    rw [List.append_nil] at balance limit
    obtain ⟨j, mem, all⟩ := @exists_total (s.space.granted ++ s.jobs)
      (by rw [weighty_append]; omega) (by rw [total_append]; omega)
    exact ⟨j, mem, by rw [all, total_append, balance]; exact Int.natCast_add _ _⟩
  crash c code spawn s' child serving taken := by
    obtain rfl := Option.some.inj taken
    exact onChildExit_settles code spawn good child serving
  timeout a s' active taken := by
    have set : s.active.any (·.id = a.id) = true := by simp [active]
    simp only [step, set, if_true, Option.some.injEq] at taken
    obtain rfl := taken
    exact onTimeout_settles good active
  head _ := good.blocked
  served ready idle := good.served (.inr ⟨ready, idle⟩)


instance nextWaitsDecidable (o : ConverterRunnerOptions) (s : Runner) :
    (a : Action) → Decidable (NextWaits o s a)
  | .abort id =>
      match waiters : s.space.spaceWaiters with
      | w :: next :: rest =>
          decidable_of_iff (w.id = id → s.space.fits o.maxQueuedBytes next.bytes = false)
            (by simp [NextWaits, waiters])
      | [] => .isTrue (by simp [NextWaits, waiters])
      | [w] => .isTrue (by simp [NextWaits, waiters])
  | .submit _ | .resume _ | .message _ _ _ | .exit _ _ _ | .timeout _ | .startTimer
  | .termTimer | .killTimer _ | .idleTimer | .stop | .tick _ => .isTrue trivial

/-- **The runner keeps its books**: along every run in which the waiter behind an aborted
head of the space queue does not fit. -/
theorem converter_accounts {as : List Action}
    (waits : Along (step o) (NextWaits o) Runner.initial as)
    (ran : runSteps (step o) Runner.initial as = some s) : Accounts o s :=
  accounts_of_good (run_keeps (fun _ a _ good waits taken => step_good a good waits taken)
    initial_good waits ran)

def mebibytes (n : Nat) : ConverterJob := .parsePdfPages (n * 1024 * 1024)

/-- An aborted waiter, a crash, and the next job in the new child. -/
def crashRun : List Action :=
  [.submit (mebibytes 100), .resume none, .message 0 .ready none, .submit (mebibytes 60),
    .submit (mebibytes 50), .abort 1, .exit 0 none none, .resume none, .message 1 .ready none,
    .message 1 (.ok 2 "text") none]

theorem converter_accounts_crash : ∃ s, runSteps (step {}) Runner.initial crashRun = some s ∧
    s.settled = [(1, .aborted), (0, .crashed none), (2, .resolved "text")] ∧ Accounts {} s :=
  ⟨_, rfl, by decide +kernel, @converter_accounts {} _ crashRun (by decide +kernel) rfl⟩

/-- An aborted waiter wakes none: the one behind it fits, and waits. -/
theorem aborted_waiter_wakes_none : ∃ s, runSteps (step {}) Runner.initial
    [.submit (mebibytes 100), .resume none, .message 0 .ready none, .submit (mebibytes 60),
      .submit (mebibytes 20), .abort 1] = some s ∧
    s.space.granted = [] ∧ ∃ w ∈ s.space.spaceWaiters.head?,
      s.space.fits (128 * 1024 * 1024) w.bytes = true :=
  ⟨_, rfl, by decide +kernel, ⟨2, mebibytes 20⟩, by decide +kernel, by decide +kernel⟩

end Kiagent.Converter
