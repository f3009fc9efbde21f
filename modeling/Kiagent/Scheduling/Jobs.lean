/-
# Scheduling.Jobs -- the jobs of the scheduler and their passes

A job is an entry of the `jobs` map.  `register` makes a new record for it each time, with
both flags down, and an earlier record of the id that is still in a pass goes on without
being in the map.  So a record is named by when it was made, and the map by the name.

`fire` is an async function: what it does up to an `await` is one step here, and what comes
after is the step of the answer.  A `Pass` is a call of `fire` that waits.  The trace tells
what was triggered, which runs of `job.run` were started and which of them settled.

`nextRun` of `engine/cadence.ts` is a parameter: it gives times and can throw.
-/
import Kiagent.Theory.Table
import Kiagent.Theory.Runs

namespace Kiagent.Scheduling

set_option autoImplicit false

open Kiagent.Theory

/-! ## Records, passes and waiting calls -/

inductive Cadence
  | every (interval : String)
  | cron (expr : String)
  | manual
  deriving DecidableEq, Repr

inductive Thermal
  | nominal
  | fair
  | serious
  deriving DecidableEq, Repr

structure SchedulerEnv where
  onBattery : Bool
  thermal : Thermal
  deriving DecidableEq, Repr

/-- A row of the durable schedule. -/
structure ScheduleRow where
  jobId : String
  cadence : Cadence
  lastRun : Option Int
  nextRun : Option Int
  deriving DecidableEq, Repr

/-- `id` is the key the record was set under, `run` names the job's function. -/
structure Job where
  id : String
  cadence : Cadence
  run : String
  busy : Bool
  again : Bool
  deriving DecidableEq, Repr

def newJob (id : String) (cadence : Cadence) (run : String) : Job where
  id := id
  cadence := cadence
  run := run
  busy := false
  again := false

/-- An entry of the `jobs` map. -/
structure Entry where
  id : String
  job : Nat
  deriving DecidableEq, Repr

/-- What a pass waits for: the write of the schedule row, which cannot succeed when the row
could not be computed; the promise of `job.run`; its own turn after that. -/
inductive Stage
  | upserting (row : Option ScheduleRow)
  | running (n : Nat)
  | returned
  deriving DecidableEq, Repr

def Stage.isRunning : Stage → Bool
  | .running _ => true
  | _ => false

/-- A call of `fire` inside its loop.  `turn` counts the turns before this one. -/
structure Pass where
  id : String
  job : Nat
  turn : Nat
  stage : Stage
  deriving DecidableEq, Repr

/-- The other calls that wait for the store. -/
inductive Waiting
  | registerRead (id : String) (cadence : Cadence)
  | registerWrite (row : ScheduleRow)
  | deleteRow (id : String)
  | tickRead
  deriving DecidableEq, Repr

/-- `during` tells whether a pass of the id was in flight.  A trigger of an id that is not
registered leaves no event. -/
inductive Event
  | triggered (id : String) (during : Bool)
  | started (id : String) (n : Nat)
  | finished (id : String) (n : Nat)
  deriving DecidableEq, Repr

structure Scheduler where
  records : List Job
  jobs : Table Entry Entry.id
  passes : List Pass
  waiting : List Waiting
  schedule : Table ScheduleRow ScheduleRow.jobId
  runs : Nat
  trace : List Event
  logs : List String

namespace Scheduler

def start : Scheduler where
  records := []
  jobs := .empty
  passes := []
  waiting := []
  schedule := .empty
  runs := 0
  trace := []
  logs := []

/-- The record the map has for an id. -/
def jobOf (s : Scheduler) (id : String) : Option (Nat × Job) :=
  (s.jobs.find id).bind fun e => (s.records[e.job]?).map fun job => (e.job, job)

def inFlight (s : Scheduler) (id : String) : Bool := s.passes.any fun p => p.id = id

/-- The runs of an id that were started and have not settled. -/
def runsOf (s : Scheduler) (id : String) : List Pass :=
  s.passes.filter fun p => p.id = id ∧ p.stage.isRunning = true

def setJob (s : Scheduler) (j : Nat) (f : Job → Job) : Scheduler :=
  { s with records := s.records.modify j f }

/-- The pass of a record goes on to another stage. -/
def setPass (s : Scheduler) (p p' : Pass) : Scheduler :=
  { s with passes := s.passes.map fun q => if q = p then p' else q }

def endPass (s : Scheduler) (p : Pass) : Scheduler :=
  { s with passes := s.passes.filter fun q => q ≠ p }

/-- `jobs.set` of a new record. -/
def setEntry (s : Scheduler) (id : String) (job : Job) : Scheduler :=
  { s with
    records := s.records ++ [job]
    jobs := s.jobs.put { id := id, job := s.records.length } }

def deleteEntry (s : Scheduler) (id : String) : Scheduler := { s with jobs := s.jobs.erase id }

def note (s : Scheduler) (e : Event) : Scheduler := { s with trace := s.trace ++ [e] }

def log (s : Scheduler) (line : String) : Scheduler := { s with logs := s.logs ++ [line] }

def awaits (s : Scheduler) (w : Waiting) : Scheduler := { s with waiting := s.waiting ++ [w] }

def takes (s : Scheduler) (k : Nat) : Scheduler := { s with waiting := s.waiting.eraseIdx k }

end Scheduler

/-! ## The functions -/

section Functions

variable (nextRun : Cadence → Option Int → Int → Except String (Option Int))

/-- The row `runOnce` writes before it runs the job. -/
def turnRow (id : String) (cadence : Cadence) (now : Int) : Option ScheduleRow :=
  match nextRun cadence (some now) now with
  | .ok next => some { jobId := id, cadence := cadence, lastRun := some now, nextRun := next }
  | .error _ => none

/-- The flags go up and the pass begins its first turn, up to the write of the row. -/
def enterLoop (s : Scheduler) (id : String) (j : Nat) (row : Option ScheduleRow) : Scheduler :=
  { s.setJob j fun job => { job with busy := true, again := false } with
    passes := s.passes ++ [{ id := id, job := j, turn := 0, stage := .upserting row }] }

/-- A trigger. -/
def fire (s : Scheduler) (id : String) (now : Int) : Scheduler :=
  match s.jobOf id with
  | none => s
  | some (j, job) =>
      let s' := s.note (.triggered id (s.inFlight id))
      if job.busy then s'.setJob j fun job => { job with again := true }
      else enterLoop s' id j (turnRow nextRun id job.cadence now)

def fireAll (s : Scheduler) (now : Int) : List String → Scheduler
  | [] => s
  | id :: ids => fireAll (fire nextRun s id now) now ids

/-- Whether a tick fires the job. -/
def due (row : Option ScheduleRow) (cadence : Cadence) (now : Int) : Except String Bool :=
  match row.bind (·.nextRun) with
  | some next => .ok (decide (next ≤ now))
  | none => do
      let next ← nextRun cadence (row.bind (·.lastRun)) now
      pure (decide (next.getD now ≤ now))

/-- The jobs a tick fires, in the order of the map.  It stops at a cadence without a next
run, with the error. -/
def dueJobs (s : Scheduler) (now : Int) : List Entry → List String × Option String
  | [] => ([], none)
  | e :: rest =>
      match s.jobOf e.id with
      | none => dueJobs s now rest
      | some (_, job) =>
          if job.cadence = .manual then dueJobs s now rest
          else
            match due nextRun (s.schedule.find e.id) job.cadence now with
            | .error text => ([], some text)
            | .ok false => dueJobs s now rest
            | .ok true =>
                let (ids, error) := dueJobs s now rest
                (e.id :: ids, error)

/-- What a tick fires once it has the durable schedule. -/
def tickFires (s : Scheduler) (now : Int) : List String := (dueJobs nextRun s now s.jobs.rows).1

/-- The row `register` writes; an existing row keeps its times. -/
def registerRow (s : Scheduler) (id : String) (cadence : Cadence) (now : Int) :
    Option ScheduleRow :=
  let existing := s.schedule.find id
  let lastRun := existing.bind (·.lastRun)
  match existing.bind (·.nextRun) with
  | some next => some { jobId := id, cadence := cadence, lastRun := lastRun, nextRun := some next }
  | none =>
      match nextRun cadence lastRun now with
      | .ok next => some { jobId := id, cadence := cadence, lastRun := lastRun, nextRun := next }
      | .error _ => none

/-- The store answers a call other than a pass's. -/
def answer (s : Scheduler) (now : Int) : Waiting → Scheduler
  | .registerRead id cadence =>
      match registerRow nextRun s id cadence now with
      | some row => s.awaits (.registerWrite row)
      | none => s
  | .registerWrite row => { s with schedule := s.schedule.put row }
  | .deleteRow id => { s with schedule := s.schedule.erase id }
  | .tickRead =>
      let s' := fireAll nextRun s now (tickFires nextRun s now)
      match (dueJobs nextRun s now s.jobs.rows).2 with
      | some text => s'.log ("tick failed: " ++ text)
      | none => s'

/-- The store fails a call other than a pass's. -/
def fail (s : Scheduler) (text : String) : Waiting → Scheduler
  | .tickRead => s.log ("tick failed: " ++ text)
  | _ => s

inductive Act
  | register (id : String) (cadence : Cadence) (run : String)
  | unregister (id : String)
  | trigger (id : String) (now : Int)
  | tick (env : SchedulerEnv)
  | answered (k : Nat) (now : Int)
  | failed (k : Nat) (text : String)
  | upserted (id : String) (j : Nat)
  | rejected (id : String) (j : Nat)
  | settled (id : String) (j : Nat) (error : Option String)
  | resumed (id : String) (j : Nat) (now : Int)
  deriving DecidableEq, Repr

/-- The pass of an id on a record. -/
def passOf (s : Scheduler) (id : String) (j : Nat) : Option Pass :=
  s.passes.find? fun p => p.id = id ∧ p.job = j

/-- The write of the row succeeded: the job's function is called. -/
def upserted (s : Scheduler) (p : Pass) (row : ScheduleRow) : Scheduler :=
  { s.setPass p { p with stage := .running s.runs } with
    schedule := s.schedule.put row
    runs := s.runs + 1
    trace := s.trace ++ [.started p.id s.runs] }

/-- The write of the row failed: the loop is left, and `finally` lowers the flag. -/
def rejected (s : Scheduler) (p : Pass) : Scheduler :=
  (s.endPass p).setJob p.job fun job => { job with busy := false }

/-- The promise of the job's function settled; a failure is logged. -/
def settled (s : Scheduler) (p : Pass) (n : Nat) (error : Option String) : Scheduler :=
  let s' := (s.setPass p { p with stage := .returned }).note (.finished p.id n)
  match error with
  | some text => s'.log ("job " ++ p.id ++ " failed: " ++ text)
  | none => s'

/-- The loop's condition. -/
def resumed (s : Scheduler) (p : Pass) (job : Job) (now : Int) : Scheduler :=
  if job.again then
    (s.setPass p { p with
      turn := p.turn + 1, stage := .upserting (turnRow nextRun p.id job.cadence now) }).setJob
        p.job fun job => { job with again := false }
  else rejected s p

def step (s : Scheduler) : Act → Option Scheduler
  | .register id cadence run =>
      some ((s.setEntry id (newJob id cadence run)).awaits (.registerRead id cadence))
  | .unregister id => some ((s.deleteEntry id).awaits (.deleteRow id))
  | .trigger id now => some (fire nextRun s id now)
  | .tick env =>
      if env.onBattery && env.thermal ≠ .nominal then some s else some (s.awaits .tickRead)
  | .answered k now => (s.waiting[k]?).map fun w => answer nextRun (s.takes k) now w
  | .failed k text => (s.waiting[k]?).map fun w => fail (s.takes k) text w
  | .upserted id j =>
      match passOf s id j with
      | some p =>
          match p.stage with
          | .upserting (some row) => some (upserted s p row)
          | _ => none
      | none => none
  | .rejected id j =>
      match passOf s id j with
      | some p =>
          match p.stage with
          | .upserting _ => some (rejected s p)
          | _ => none
      | none => none
  | .settled id j error =>
      match passOf s id j with
      | some p =>
          match p.stage with
          | .running n => some (settled s p n error)
          | _ => none
      | none => none
  | .resumed id j now =>
      match passOf s id j, s.records[j]? with
      | some p, some job =>
          match p.stage with
          | .returned => some (resumed nextRun s p job now)
          | _ => none
      | _, _ => none

end Functions

end Kiagent.Scheduling
