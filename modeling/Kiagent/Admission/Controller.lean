/-
# Admission.Controller -- which background unit may start

The controller grants background units up to a number of slots, holds them back while
a foreground call is in flight or left less than the grace ago, and lets one waiter
through anyway once it has starved.

`now()` is called at many places of one handler, and the clock may tick between two
calls: `Readings` has an answer for every one of them.  A timer is an action that may
come at any time it is armed, early or late.  The cumulative figures that only
`snapshot` reports, and the enrichment lane, are left out.
-/
import Mathlib
import Kiagent.Theory.First

namespace Kiagent.Admission

open Kiagent.Theory

set_option autoImplicit false

inductive UnitKind where
  | ingest
  | convert
  | reconcile
  | redrive
  deriving DecidableEq, Repr

def foregroundGraceMs : ℤ := 300
def maxForegroundWaitMs : ℤ := 10000
def kindAgingMs : ℤ := 5000
def slowModeMaxHoldMs : ℚ := 2000

def rank : UnitKind → ℕ
  | .ingest => 0
  | .convert => 1
  | .reconcile => 2
  | .redrive => 3

/-! ## The state -/

/-- `id` counts the calls of `acquire`: it stands for the waiter's identity. -/
structure Waiter where
  id : ℕ
  kind : UnitKind
  enq : ℤ
  deriving DecidableEq, Repr

/-- A release that was handed out and not called yet, with what its closure remembers. -/
structure AdmittedUnit where
  waiter : Waiter
  escaped : Bool
  t0 : ℤ
  deriving DecidableEq, Repr

/-- The wake timer: when it was set, and the delay it was given. -/
structure Wake where
  set : ℤ
  delay : ℤ
  deriving DecidableEq, Repr

def Wake.due (timer : Wake) : ℤ := timer.set + timer.delay

/-- One admission: who, out of which queue, on which reading of the clock. -/
structure Grant where
  waiter : Waiter
  queue : List Waiter
  t : ℤ
  deriving DecidableEq, Repr

/-- The controller's variables.  `holdTimers` are the slow-mode holds that run, `units`
and `calls` the closures handed out and not yet called; `grants` records what was
admitted. -/
structure State where
  waiters : List Waiter
  idleWaiters : List ℕ
  running : ℕ
  held : ℕ
  escapedRunning : ℕ
  fgInFlight : ℕ
  fgLastLeave : Option ℤ
  wake : Option Wake
  units : List AdmittedUnit
  holdTimers : List ℚ
  calls : List ℕ
  next : ℕ
  grants : List Grant

def State.initial : State where
  waiters := []
  idleWaiters := []
  running := 0
  held := 0
  escapedRunning := 0
  fgInFlight := 0
  fgLastLeave := none
  wake := none
  units := []
  holdTimers := []
  calls := []
  next := 0
  grants := []

/-- What `now()` answers within one handler: `enter` to the handler's own call, `pick n`,
`busy n` and `start n` to those of `pickNext`, of the `foregroundBusy` in it and of
`admit` in the round of `pump` that may be followed by `n` more, `armBusy` and `armNow`
to the two of `armWake`. -/
structure Readings where
  enter : ℤ
  pick : ℕ → ℤ
  busy : ℕ → ℤ
  start : ℕ → ℤ
  armBusy : ℤ
  armNow : ℤ

/-- The clock stands still for the whole handler. -/
def Readings.still (t : ℤ) : Readings := ⟨t, fun _ => t, fun _ => t, fun _ => t, t, t⟩

/-! ## The functions -/

/-- `fgLastLeave` starts at minus infinity, which is `none` here. -/
def foregroundBusy (t : ℤ) (s : State) : Bool :=
  decide (0 < s.fgInFlight) ||
    match s.fgLastLeave with
    | none => false
    | some left => decide (t - left < foregroundGraceMs)

def older (a b : Waiter) : Bool := decide (a.enq < b.enq)

def rankedBefore (a b : Waiter) : Bool :=
  decide (rank a.kind < rank b.kind ∨ (rank a.kind = rank b.kind ∧ a.enq < b.enq))

/-- Which waiter, if any, may start now, and whether it escapes a busy foreground. -/
def pickNext (t tBusy : ℤ) (s : State) : Option (Waiter × Bool) :=
  if foregroundBusy tBusy s then
    if 0 < s.escapedRunning then none
    else
      (firstBest older (s.waiters.filter fun w => decide (maxForegroundWaitMs ≤ t - w.enq))).map
        fun w => (w, true)
  else
    match firstBest older (s.waiters.filter fun w => decide (kindAgingMs ≤ t - w.enq)) with
    | some w => some (w, false)
    | none => (firstBest rankedBefore s.waiters).map fun w => (w, false)

def admitUnit (w : Waiter) (escaped : Bool) (t0 : ℤ) (s : State) : State :=
  { s with
    running := s.running + 1
    escapedRunning := if escaped then s.escapedRunning + 1 else s.escapedRunning
    units := s.units ++ [⟨w, escaped, t0⟩] }

/-- One round of the loop of `pump`: the waiter leaves the queue and is admitted. -/
def takeNext (w : Waiter) (escaped : Bool) (t t0 : ℤ) (s : State) : State :=
  admitUnit w escaped t0
    { s with
      waiters := s.waiters.erase w
      grants := s.grants ++ [⟨w, s.waiters, t⟩] }

/-- The loop of `pump`; every round takes a waiter, so as many rounds as there are waiters
are enough. -/
def pumpRounds (slots : ℕ) (r : Readings) : ℕ → State → State
  | 0, s => s
  | n + 1, s =>
      if s.running < slots ∧ s.waiters ≠ [] then
        match pickNext (r.pick n) (r.busy n) s with
        | none => s
        | some (w, escaped) =>
            pumpRounds slots r n (takeNext w escaped (r.pick n) (r.start n) s)
      else s

/-- The next moment something may change, if there is one: the grace ending, or a waiter's
starvation deadline. -/
def wakeAt (slots : ℕ) (s : State) : WithTop ℤ :=
  let grace : WithTop ℤ :=
    match s.fgInFlight, s.fgLastLeave with
    | 0, some left => ((left + foregroundGraceMs : ℤ) : WithTop ℤ)
    | _, _ => ⊤
  if s.escapedRunning = 0 ∧ s.running < slots then
    s.waiters.foldl (fun moment w => min moment ((w.enq + maxForegroundWaitMs : ℤ) : WithTop ℤ))
      grace
  else grace

def armWake (slots : ℕ) (tBusy tNow : ℤ) (s : State) : State :=
  if s.waiters = [] ∧ s.idleWaiters = [] then { s with wake := none }
  else if foregroundBusy tBusy s then
    match wakeAt slots s with
    | none => { s with wake := none }
    | some moment => { s with wake := some ⟨tNow, max 0 (moment - tNow)⟩ }
  else { s with wake := none }

def pump (slots : ℕ) (r : Readings) (s : State) : State :=
  armWake slots r.armBusy r.armNow (pumpRounds slots r s.waiters.length s)

/-- How long slow mode keeps the slot of a unit that was admitted at `t0`. -/
def holdFor (slots : ℕ) (userActive : Bool) (t0 tNow : ℤ) : ℚ :=
  let factor : ℚ := if slots = 1 then 1 else 1 / 4
  if userActive then min slowModeMaxHoldMs (factor * ((tNow - t0 : ℤ) : ℚ)) else 0

def release (slots : ℕ) (u : AdmittedUnit) (userActive : Bool) (r : Readings) (s : State) :
    State :=
  let s := { s with
    units := s.units.erase u
    escapedRunning := if u.escaped then s.escapedRunning - 1 else s.escapedRunning }
  let hold := holdFor slots userActive u.t0 r.enter
  if 0 < hold then
    { s with held := s.held + 1, holdTimers := s.holdTimers ++ [hold] }
  else
    pump slots r { s with running := s.running - 1 }

def acquire (slots : ℕ) (kind : UnitKind) (r : Readings) (s : State) : State :=
  pump slots r { s with
    waiters := s.waiters ++ [⟨s.next, kind, r.enter⟩]
    next := s.next + 1 }

def onAbort (slots : ℕ) (w : Waiter) (r : Readings) (s : State) : State :=
  armWake slots r.armBusy r.armNow { s with waiters := s.waiters.erase w }

def holdEnds (slots : ℕ) (hold : ℚ) (r : Readings) (s : State) : State :=
  pump slots r { s with
    held := s.held - 1
    running := s.running - 1
    holdTimers := s.holdTimers.erase hold }

def foreground (slots : ℕ) (r : Readings) (s : State) : State :=
  armWake slots r.armBusy r.armNow
    { s with fgInFlight := s.fgInFlight + 1, calls := s.calls ++ [s.next], next := s.next + 1 }

def leave (slots call : ℕ) (r : Readings) (s : State) : State :=
  armWake slots r.armBusy r.armNow
    { s with
      fgInFlight := s.fgInFlight - 1
      fgLastLeave := if s.fgInFlight - 1 = 0 then some r.enter else s.fgLastLeave
      calls := s.calls.erase call }

def foregroundIdle (slots : ℕ) (r : Readings) (s : State) : State :=
  if foregroundBusy r.enter s then
    armWake slots r.armBusy r.armNow
      { s with idleWaiters := s.idleWaiters ++ [s.next], next := s.next + 1 }
  else s

def onWake (slots : ℕ) (r : Readings) (s : State) : State :=
  pump slots r { s with
    wake := none
    idleWaiters := if foregroundBusy r.enter s then s.idleWaiters else [] }

/-! ## The machine -/

/-- `idleEnds` is the cap timer of an idle waiter, or its signal. -/
inductive Act where
  | acquire (kind : UnitKind) (aborted : Bool) (r : Readings)
  | abort (id : ℕ) (r : Readings)
  | release (id : ℕ) (userActive : Bool) (r : Readings)
  | holdEnds (hold : ℚ) (r : Readings)
  | foreground (r : Readings)
  | leave (call : ℕ) (r : Readings)
  | foregroundIdle (r : Readings)
  | idleEnds (entry : ℕ)
  | wakes (r : Readings)

/-- An abort of one who no longer waits, a second release and a second leave do nothing; a
timer that is not armed does not fire. -/
def step (slots : ℕ) (s : State) : Act → Option State
  | .acquire kind aborted r => some (if aborted then s else acquire slots kind r s)
  | .abort id r =>
      match s.waiters.find? (·.id = id) with
      | none => some s
      | some w => some (onAbort slots w r s)
  | .release id userActive r =>
      match s.units.find? (·.waiter.id = id) with
      | none => some s
      | some u => some (release slots u userActive r s)
  | .holdEnds hold r => if hold ∈ s.holdTimers then some (holdEnds slots hold r s) else none
  | .foreground r => some (foreground slots r s)
  | .leave call r => some (if call ∈ s.calls then leave slots call r s else s)
  | .foregroundIdle r => some (foregroundIdle slots r s)
  | .idleEnds entry => some { s with idleWaiters := s.idleWaiters.erase entry }
  | .wakes r => if s.wake.isSome then some (onWake slots r s) else none

end Kiagent.Admission
