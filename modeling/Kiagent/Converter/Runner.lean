/-
# Converter.Runner -- the supervisor of the one converter child

Jobs wait in one queue, bounded by their bytes, for the one child; submissions that
do not fit wait for space before that.  A crash or a timeout fails the active job;
a child that cannot be started fails what is queued and pauses spawning.

An action is what runs until the next `await`.  Between the grant of space and the
continuation of `submit` that queues the job lies one `await`: the job is `granted`.
-/
import Mathlib
import Kiagent.Theory.Runs

namespace Kiagent.Converter

open Kiagent.Theory

set_option autoImplicit false

/-! ## Jobs and how they end -/

/-- Of the bytes a job carries, their number. -/
inductive ConverterJob where
  | parseDetailed (byteLength : Nat)
  | parsePdfPages (byteLength : Nat)
  | rasterizePdf (byteLength : Nat)
  /-- Path-based: no bytes cross the boundary. -/
  | expandPage
  deriving DecidableEq

def ConverterJob.bytes : ConverterJob → Nat
  | parseDetailed byteLength => byteLength
  | parsePdfPages byteLength => byteLength
  | rasterizePdf byteLength => byteLength
  | expandPage => 0

/-- A call of `submit`: a waiter for space, then a job. -/
structure Job where
  id : Nat
  job : ConverterJob
  deriving DecidableEq

def Job.bytes (j : Job) : Nat := j.job.bytes

inductive Unavailable where
  | stopped
  | backingOff
  | spawnFailed (message : String)
  | exited (code : Option Int)
  | notReady (startTimeoutMs : Nat)
  deriving DecidableEq

def codeText : Option Int → String
  | some code => toString code
  | none => "null"

def Unavailable.message : Unavailable → String
  | stopped => "converter stopped"
  | backingOff => "converter unavailable (backing off)"
  | spawnFailed message => "converter unavailable: spawn failed: " ++ message
  | exited code =>
      "converter unavailable: child exited (code " ++ codeText code ++ ") before it was ready"
  | notReady startTimeoutMs =>
      "converter unavailable: child not ready within " ++ toString startTimeoutMs ++ " ms"

inductive Outcome where
  | resolved (result : String)
  /-- The child's own error. -/
  | failed (name message : String)
  | unavailable (reason : Unavailable)
  | crashed (code : Option Int)
  | timedOut (timeoutMs : Nat)
  | aborted
  deriving DecidableEq

inductive ConverterReply where
  | ready
  | ok (id : Nat) (result : String)
  | error (id : Nat) (name message : String)
  deriving DecidableEq

/-! ## Space -/

/-- The bytes on the books, the submissions that wait for space, and those that were
granted it and have not gone on yet. -/
structure Space where
  queuedBytes : Int
  spaceWaiters : List Job
  granted : List Job
  deriving DecidableEq

namespace Space

def fits (maxQueuedBytes : Nat) (p : Space) (bytes : Nat) : Bool :=
  p.queuedBytes = 0 || p.queuedBytes + bytes ≤ maxQueuedBytes

def wakeLoop (maxQueuedBytes : Nat) : List Job → Space → Space
  | [], p => { p with spaceWaiters := [] }
  | w :: ws, p =>
      if p.fits maxQueuedBytes w.bytes then
        wakeLoop maxQueuedBytes ws
          { p with queuedBytes := p.queuedBytes + w.bytes, granted := p.granted ++ [w] }
      else { p with spaceWaiters := w :: ws }

/-- Grants capacity in FIFO order; the bytes are reserved with the grant. -/
def wakeSpaceWaiters (maxQueuedBytes : Nat) (p : Space) : Space :=
  wakeLoop maxQueuedBytes p.spaceWaiters p

def unreserve (maxQueuedBytes : Nat) (bytes : Nat) (p : Space) : Space :=
  wakeSpaceWaiters maxQueuedBytes { p with queuedBytes := p.queuedBytes - bytes }

def reserveSpace (maxQueuedBytes : Nat) (j : Job) (p : Space) : Space :=
  if p.fits maxQueuedBytes j.bytes && p.spaceWaiters.isEmpty then
    { p with queuedBytes := p.queuedBytes + j.bytes, granted := p.granted ++ [j] }
  else { p with spaceWaiters := p.spaceWaiters ++ [j] }

end Space

/-! ## The runner -/

structure ConverterRunnerOptions where
  maxQueuedBytes : Nat := 128 * 1024 * 1024
  timeoutMs : Nat := 120000
  startTimeoutMs : Nat := 20000
  spawnBackoffMs : Nat := 30000

inductive ChildState where
  | none
  | starting
  | ready
  | stopping
  deriving DecidableEq

/-- A job the child has; `sentTo` is the child its request went to. -/
structure Active where
  id : Nat
  job : Job
  sentTo : Option Nat
  deriving DecidableEq

structure Stats where
  jobs : Nat := 0
  crashes : Nat := 0
  timeouts : Nat := 0
  cancels : Nat := 0
  unavailable : Nat := 0
  deriving DecidableEq

structure Runner where
  state : ChildState
  child : Option Nat
  closed : Bool
  nextId : Nat
  unavailableUntil : Nat
  queue : List Job
  space : Space
  active : Option Active
  idleTimer : Bool
  startTimer : Bool
  /-- The child the timer is about. -/
  termTimer : Option Nat
  killTimer : Option Nat
  exitWaiters : Nat
  stats : Stats
  /-- What `now` returns. -/
  clock : Nat
  spawned : Nat
  submitted : Nat
  /-- The submissions whose signal is aborted. -/
  signals : List Nat
  settled : List (Nat × Outcome)
  deriving DecidableEq

def Runner.initial : Runner where
  state := .none
  child := none
  closed := false
  nextId := 1
  unavailableUntil := 0
  queue := []
  space := ⟨0, [], []⟩
  active := none
  idleTimer := false
  startTimer := false
  termTimer := none
  killTimer := none
  exitWaiters := 0
  stats := {}
  clock := 0
  spawned := 0
  submitted := 0
  signals := []
  settled := []

/-- What a call of `spawn` does: it throws with a message, or returns a child. -/
abbrev Spawn := Option String

namespace Runner

variable (o : ConverterRunnerOptions)

def unreserve (bytes : Nat) (s : Runner) : Runner :=
  { s with space := s.space.unreserve o.maxQueuedBytes bytes }

/-- A job leaves the books. -/
def settle (j : Job) (s : Runner) : Runner :=
  { s with space := s.space.unreserve o.maxQueuedBytes j.bytes }

/-- The promise of a submission is resolved or rejected. -/
def finish (j : Job) (outcome : Outcome) (s : Runner) : Runner :=
  { s with settled := s.settled ++ [(j.id, outcome)] }

def countCancel (s : Runner) : Runner :=
  { s with stats := { s.stats with cancels := s.stats.cancels + 1 } }

def failJobs (err : Outcome) : List Job → Runner → Runner
  | [], s => s
  | j :: js, s => failJobs err js ((s.settle o j).finish j err)

def failQueued (err : Outcome) (s : Runner) : Runner :=
  failJobs o err s.queue { s with queue := [] }

def beginStop (s : Runner) : Runner :=
  if s.child = none ∨ s.state = .stopping then s
  else { s with state := .stopping, idleTimer := false, startTimer := false, termTimer := s.child }

def unavailable (reason : Unavailable) (s : Runner) : Runner :=
  failQueued o (.unavailable reason)
    { s with
      stats := { s.stats with unavailable := s.stats.unavailable + 1 }
      unavailableUntil := s.clock + o.spawnBackoffMs }

def flushExitWaiters (s : Runner) : Runner := { s with exitWaiters := 0 }

def clearStop (s : Runner) : Runner :=
  { s with startTimer := false, termTimer := none, killTimer := none }

def startNext (s : Runner) : Runner :=
  match s.queue with
  | [] => s
  | job :: rest =>
      { s with
        idleTimer := false
        queue := rest
        nextId := s.nextId + 1
        active := some ⟨s.nextId, job, s.child⟩ }

def spawnChild (spawn : Spawn) (s : Runner) : Runner :=
  match spawn with
  | some message => s.unavailable o (.spawnFailed message)
  | none =>
      { s with
        child := some s.spawned
        spawned := s.spawned + 1
        state := .starting
        startTimer := true }

def pump (spawn : Spawn) (s : Runner) : Runner :=
  if s.closed ∨ s.queue = [] then s
  else match s.state with
    | .none =>
        if s.clock < s.unavailableUntil then s.failQueued o (.unavailable .backingOff)
        else s.spawnChild o spawn
    | .ready => if s.active = none then s.startNext else s
    | .starting | .stopping => s

/-- The active job is taken from the child. -/
def takeActive (a : Active) (outcome : Outcome) (s : Runner) : Runner :=
  (settle o a.job { s with active := none }).finish a.job outcome

def crash (code : Option Int) (was : ChildState) (s : Runner) : Runner :=
  match s.active with
  | some a =>
      { s with stats := { s.stats with crashes := s.stats.crashes + 1 } }.takeActive o a
        (.crashed code)
  | none => if was = .starting then s.unavailable o (.exited code) else s

def onChildExit (c : Nat) (code : Option Int) (spawn : Spawn) (s : Runner) : Runner :=
  if s.child ≠ some c then s
  else
    let gone := { s.clearStop with child := none, state := .none }
    ((gone.crash o code s.state).flushExitWaiters).pump o spawn

def onTimeout (id : Nat) (s : Runner) : Runner :=
  match s.active with
  | some a =>
      if a.id = id then
        ({ s with stats := { s.stats with timeouts := s.stats.timeouts + 1 } }.takeActive o a
          (.timedOut o.timeoutMs)).beginStop
      else s
  | none => s

/-- After a reply: the next job, or the idle timer. -/
def goOn (s : Runner) : Runner :=
  if s.queue ≠ [] then s.startNext else { s with idleTimer := true }

def onReply (id : Nat) (outcome : Outcome) (s : Runner) : Runner :=
  match s.active with
  | some a =>
      if a.id = id then
        ({ s with stats := { s.stats with jobs := s.stats.jobs + 1 } }.takeActive o a outcome).goOn
      else s
  | none => s

def onMessage (c : Nat) (reply : ConverterReply) (spawn : Spawn) (s : Runner) : Runner :=
  if s.child ≠ some c then s
  else match reply with
    | .ready =>
        if s.state = .starting then { s with startTimer := false, state := .ready }.pump o spawn
        else s
    | .ok id result => s.onReply o id (.resolved result)
    | .error id name message => s.onReply o id (.failed name message)

def cancel (id : Nat) (s : Runner) : Runner :=
  match s.queue.find? (·.id = id) with
  | some j => (settle o j { s.countCancel with queue := s.queue.erase j }).finish j .aborted
  | none =>
      match s.active with
      | some a =>
          if a.job.id = id then (s.countCancel.takeActive o a .aborted).beginStop else s
      | none => s

/-- A waiter leaves the space queue. -/
def abortWaiter (w : Job) (s : Runner) : Runner :=
  finish w .aborted
    { s.countCancel with
      space := { s.space with spaceWaiters := s.space.spaceWaiters.erase w } }

/-- The signal of a submission fires: what its listener does. -/
def abort (id : Nat) (s : Runner) : Runner :=
  let fired := { s with signals := id :: s.signals }
  match s.space.spaceWaiters.find? (·.id = id) with
  | some w => fired.abortWaiter w
  | none => fired.cancel o id

/-- `submit` until it awaits its space. -/
def submit (job : ConverterJob) (s : Runner) : Runner :=
  let j : Job := ⟨s.submitted, job⟩
  let called := { s with submitted := s.submitted + 1 }
  if s.closed then called.finish j (.unavailable .stopped)
  else if j.id ∈ s.signals then called.countCancel.finish j .aborted
  else if s.state = .none ∧ s.clock < s.unavailableUntil then
    called.finish j (.unavailable .backingOff)
  else { called with space := s.space.reserveSpace o.maxQueuedBytes j }

/-- `submit` after that: a stop or an abort in between is seen only here. -/
def resume (spawn : Spawn) (j : Job) (s : Runner) : Runner :=
  if s.closed then (s.unreserve o j.bytes).finish j (.unavailable .stopped)
  else if j.id ∈ s.signals then (s.unreserve o j.bytes).countCancel.finish j .aborted
  else { s with queue := s.queue ++ [j] }.pump o spawn

def rejectWaiters (s : Runner) : Runner :=
  { s with
    space := { s.space with spaceWaiters := [] }
    settled := s.settled ++ s.space.spaceWaiters.map (·.id, .unavailable .stopped) }

def failActive (err : Outcome) (s : Runner) : Runner :=
  match s.active with
  | some a => s.takeActive o a err
  | none => s

def stop (s : Runner) : Runner :=
  let failed := (({ s with closed := true }.rejectWaiters.failQueued o
    (.unavailable .stopped)).failActive o (.unavailable .stopped))
  let idle := { failed with idleTimer := false }
  if idle.child = none then idle
  else { idle with exitWaiters := idle.exitWaiters + 1 }.beginStop

/-- The child has not said ready in time. -/
def onStartTimer (s : Runner) : Runner :=
  ({ s with startTimer := false }.unavailable o (.notReady o.startTimeoutMs)).beginStop

/-- No exit after SIGKILL: the child is abandoned. -/
def onKillTimer (c : Nat) (spawn : Spawn) (s : Runner) : Runner :=
  let fired := { s with killTimer := none }
  if s.child ≠ some c then fired
  else ({ fired with child := none, state := .none }.flushExitWaiters).pump o spawn

def onIdleTimer (s : Runner) : Runner :=
  let fired := { s with idleTimer := false }
  if s.state = .ready ∧ s.active = none ∧ s.queue = [] then fired.beginStop else fired

end Runner

/-! ## Steps -/

/-- What can happen next; the runner's own events are enabled when their timer is set
or a submission has its space. -/
inductive Action where
  | submit (job : ConverterJob)
  | resume (spawn : Spawn)
  | abort (id : Nat)
  | message (child : Nat) (reply : ConverterReply) (spawn : Spawn)
  | exit (child : Nat) (code : Option Int) (spawn : Spawn)
  | timeout (id : Nat)
  | startTimer
  | termTimer
  | killTimer (spawn : Spawn)
  | idleTimer
  | stop
  | tick (ms : Nat)

def step (o : ConverterRunnerOptions) (s : Runner) : Action → Option Runner
  | .submit job => some (s.submit o job)
  | .resume spawn =>
      match s.space.granted with
      | [] => none
      | j :: rest => some (Runner.resume o spawn j
          { s with space := { s.space with granted := rest } })
  | .abort id => some (s.abort o id)
  | .message child reply spawn => some (s.onMessage o child reply spawn)
  | .exit child code spawn => some (s.onChildExit o child code spawn)
  | .timeout id =>
      if s.active.any (·.id = id) then some (s.onTimeout o id) else none
  | .startTimer => if s.startTimer then some (s.onStartTimer o) else none
  | .termTimer => s.termTimer.map fun c => { s with termTimer := none, killTimer := some c }
  | .killTimer spawn => s.killTimer.map fun c => s.onKillTimer o c spawn
  | .idleTimer => if s.idleTimer then some s.onIdleTimer else none
  | .stop => some (s.stop o)
  | .tick ms => some { s with clock := s.clock + ms }

end Kiagent.Converter
