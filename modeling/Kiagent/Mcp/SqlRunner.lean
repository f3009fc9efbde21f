/-
# Mcp.SqlRunner -- the owner of the process a query runs in

A statement can only be stopped by killing the process it runs in.  The runner owns at most
one such child, sends it one statement at a time, and keeps it until its exit is confirmed.

A `World` is the runner's variables, the timers that are armed, and what was done: the
children spawned, the statements sent, the calls and how they were settled.  A turn is one
event: a call, a message of a child, an exit, a timer that fires.  A child exits, and a
timer fires, in a turn of its own.  Log lines are left out, and time: a timer that is armed
may fire at any turn.
-/
import Mathlib
import Kiagent.Theory.Timers

namespace Kiagent.Mcp.SqlRunner

open Theory (Timers)

set_option autoImplicit false

/-! ## The runner's variables -/

inductive RunnerState where
  | none_
  | starting
  | ready
  | stopping
  | stuck
  deriving DecidableEq, Repr

inductive Signal where
  | SIGTERM
  | SIGKILL
  deriving DecidableEq, Repr

def SQL_UNAVAILABLE : String := "query_sql is unavailable right now."

def SQL_STILL_STOPPING : String :=
  "query_sql is still stopping the previous query. Try again in a few seconds."

/-- `ms / 1000`, as it is printed. -/
def seconds (ms : Nat) : String :=
  let digits := ((toString (1000 + ms % 1000)).toList.drop 1).reverse.dropWhile (· = '0')
  toString (ms / 1000) ++ (if digits = [] then "" else "." ++ String.ofList digits.reverse)

def sqlStoppedMessage (timeoutMs : Nat) : String :=
  "query_sql stopped after " ++ seconds timeoutMs ++
    " s. Narrow it: filter by account or created_at, avoid LIKE over markdown, or use search."

structure QuerySqlResult (Row : Type) where
  rows : List Row
  truncated : Bool
  hint : Option String
  deriving DecidableEq

structure SqlRunRecord where
  execMs : Int
  totalMs : Int
  rows : Nat
  bytes : Nat
  truncated : Bool
  timedOut : Bool
  at_ : Nat
  deriving DecidableEq

/-- A call of `exec`; its promise is known by the call's number. -/
structure Job where
  call : Nat
  sql : String
  enqueuedAt : Nat
  deriving DecidableEq

structure Current where
  id : Nat
  job : Job
  startedAt : Nat
  timer : Nat
  deriving DecidableEq

/-- An id that is not a number of the runner's is none. -/
structure ChildReply (Row : Type) where
  t : Option String
  id : Option Nat
  ok : Bool
  message : Option String
  result : Option (QuerySqlResult Row)
  bytes : Option Nat
  execMs : Option Int
  deriving DecidableEq

/-- What a timer calls; the timers of a stop know their child. -/
inductive Callback where
  | idle
  | start
  | term (c : Nat)
  | kill (c : Nat)
  | statement (id : Nat)
  deriving DecidableEq

/-- A statement as it was sent, and the call it is of. -/
structure Statement where
  child : Nat
  id : Nat
  sql : String
  call : Nat
  deriving DecidableEq

structure World (Row : Type) where
  state : RunnerState
  child : Option Nat
  closed : Bool
  nextId : Nat
  timeouts : Nat
  recent : List SqlRunRecord
  queue : List Job
  current : Option Current
  idleTimer : Option Nat
  startTimer : Option Nat
  termTimer : Option Nat
  killTimer : Option Nat
  exitWaiters : List Nat
  -- around the runner
  timers : Timers Callback
  children : List Nat
  spawned : Nat
  asked : List String
  stops : Nat
  kills : List (Nat × Signal)
  sent : List Statement
  answered : List Nat
  timedOut : List Nat
  settled : List (Nat × Except String (QuerySqlResult Row))
  stopped : List Nat

def RECENT : Nat := 64

/-- What a turn takes from outside: the clock, and whether a child can be spawned. -/
structure Env where
  now : Nat
  spawns : Bool

section Functions

variable {Row : Type} (timeoutMs : Nat) (env : Env)

def initial : World Row where
  state := .none_
  child := none
  closed := false
  nextId := 1
  timeouts := 0
  recent := []
  queue := []
  current := none
  idleTimer := none
  startTimer := none
  termTimer := none
  killTimer := none
  exitWaiters := []
  timers := .nothing
  children := []
  spawned := 0
  asked := []
  stops := 0
  kills := []
  sent := []
  answered := []
  timedOut := []
  settled := []
  stopped := []

/-! ## Its functions -/

def record (r : SqlRunRecord) (recent : List SqlRunRecord) : List SqlRunRecord :=
  if RECENT < (recent ++ [r]).length then (recent ++ [r]).tail else recent ++ [r]

def settle (job : Job) (outcome : Except String (QuerySqlResult Row)) (w : World Row) :
    World Row :=
  { w with settled := w.settled ++ [(job.call, outcome)] }

def clearIdle (w : World Row) : World Row :=
  { w with timers := w.timers.clear w.idleTimer, idleTimer := none }

def clearStop (w : World Row) : World Row :=
  { w with
    timers := ((w.timers.clear w.startTimer).clear w.termTimer).clear w.killTimer
    startTimer := none
    termTimer := none
    killTimer := none }

def flushExitWaiters (w : World Row) : World Row :=
  { w with exitWaiters := [], stopped := w.stopped ++ w.exitWaiters }

def failCurrent (err : String) (w : World Row) : World Row :=
  match w.current with
  | none => w
  | some cur =>
      settle cur.job (.error err)
        { w with timers := w.timers.clear (some cur.timer), current := none }

def failQueue (err : String) (w : World Row) : World Row :=
  { w with queue := [], settled := w.settled ++ w.queue.map fun j => (j.call, .error err) }

def failAll (err : String) (w : World Row) : World Row := failQueue err (failCurrent err w)

def armIdle (w : World Row) : World Row :=
  let w := clearIdle w
  { w with timers := w.timers.set .idle, idleTimer := some w.timers.next }

/-- SIGTERM now; the timer it sets is `termFired`. -/
def beginStop (w : World Row) : World Row :=
  match w.child with
  | none => w
  | some c =>
      if w.state = .stopping ∨ w.state = .stuck then w
      else
        let w := clearIdle { w with state := .stopping }
        let w := { w with timers := w.timers.clear w.startTimer, startTimer := none }
        let w := { w with kills := w.kills ++ [(c, Signal.SIGTERM)] }
        { w with timers := w.timers.set (.term c), termTimer := some w.timers.next }

def termFired (c : Nat) (w : World Row) : World Row :=
  let w := { w with kills := w.kills ++ [(c, Signal.SIGKILL)] }
  { w with timers := w.timers.set (.kill c), killTimer := some w.timers.next }

def killFired (w : World Row) : World Row :=
  flushExitWaiters (failAll SQL_UNAVAILABLE { w with state := .stuck })

def idleFired (w : World Row) : World Row :=
  if w.state = .ready ∧ w.current = none ∧ w.queue = [] then beginStop w else w

def startFired (w : World Row) : World Row := beginStop (failAll SQL_UNAVAILABLE w)

def startNext (w : World Row) : World Row :=
  let w := clearIdle w
  match w.queue, w.child with
  | job :: queue, some c =>
      { w with
        queue := queue
        nextId := w.nextId + 1
        timers := w.timers.set (.statement w.nextId)
        current := some ⟨w.nextId, job, env.now, w.timers.next⟩
        sent := w.sent ++ [⟨c, w.nextId, job.sql, job.call⟩] }
  | _, _ => w

def onTimeout (id : Nat) (w : World Row) : World Row :=
  match w.current with
  | none => w
  | some cur =>
      if cur.id ≠ id then w
      else
        let w := { w with
          current := none
          timeouts := w.timeouts + 1
          timedOut := w.timedOut ++ [id]
          recent := record ⟨env.now - cur.startedAt, env.now - cur.job.enqueuedAt, 0, 0, false,
            true, env.now⟩ w.recent }
        beginStop (settle cur.job (.error (sqlStoppedMessage timeoutMs)) w)

/-- What `finish` settles the call with. -/
def ChildReply.outcome (m : ChildReply Row) : Except String (QuerySqlResult Row) :=
  match m.ok, m.result with
  | true, some result => .ok result
  | _, _ => .error (m.message.getD SQL_UNAVAILABLE)

def finish (m : ChildReply Row) (w : World Row) : World Row :=
  match w.current with
  | none => w
  | some cur =>
      let w := { w with
        timers := w.timers.clear (some cur.timer)
        current := none
        answered := w.answered ++ [cur.id]
        recent := match m.ok, m.result with
          | true, some result => record ⟨m.execMs.getD (env.now - cur.startedAt),
              env.now - cur.job.enqueuedAt, result.rows.length, m.bytes.getD 0,
              result.truncated, false, env.now⟩ w.recent
          | _, _ => w.recent }
      let w := settle cur.job m.outcome w
      if w.queue ≠ [] then startNext env w else armIdle w

def spawnChild (w : World Row) : World Row :=
  if env.spawns then
    { w with
      child := some w.spawned
      spawned := w.spawned + 1
      children := w.children ++ [w.spawned]
      state := .starting
      timers := w.timers.set .start
      startTimer := some w.timers.next }
  else failAll SQL_UNAVAILABLE w

def pump (w : World Row) : World Row :=
  if w.closed ∨ w.queue = [] then w
  else if w.state = .none_ then spawnChild env w
  else if w.state = .ready ∧ w.current = none then startNext env w
  else w

/-- The runner is told of the exit of `c`. -/
def onChildExit (c : Nat) (w : World Row) : World Row :=
  if w.child ≠ some c then w
  else
    let was := w.state
    let w := { clearStop w with child := none, state := .none_ }
    let w := if was ≠ .stuck ∧ was ≠ .stopping then failAll SQL_UNAVAILABLE w else w
    pump env (flushExitWaiters w)

def onMessage (c : Nat) (m : ChildReply Row) (w : World Row) : World Row :=
  if w.child ≠ some c then w
  else if m.t = some "ready" ∧ w.state = .starting then
    pump env { w with
      timers := w.timers.clear w.startTimer
      startTimer := none
      state := .ready }
  else if m.t = some "open-error" then beginStop (failAll SQL_UNAVAILABLE w)
  else
    match w.current with
    | none => w
    | some cur => if m.id = some cur.id then finish env m w else w

def exec (sql : String) (w : World Row) : World Row :=
  let job : Job := ⟨w.asked.length, sql, env.now⟩
  let w := { w with asked := w.asked ++ [sql] }
  if w.closed ∨ w.state = .stuck then settle job (.error SQL_UNAVAILABLE) w
  else if w.state = .stopping then settle job (.error SQL_STILL_STOPPING) w
  else pump env { w with queue := w.queue ++ [job] }

def stop (w : World Row) : World Row :=
  let n := w.stops
  let w := failAll SQL_UNAVAILABLE { w with closed := true, stops := n + 1 }
  if w.child = none then { w with stopped := w.stopped ++ [n] }
  else
    let w := beginStop w
    if w.state = .stuck then { w with stopped := w.stopped ++ [n] }
    else { w with exitWaiters := w.exitWaiters ++ [n] }

/-! ## Turns -/

/-- A message may be of a child that is gone. -/
inductive Event (Row : Type) where
  | exec (sql : String)
  | stop
  | message (c : Nat) (m : ChildReply Row)
  | exits (c : Nat)
  | fires (handle : Nat)

def call (k : Callback) (w : World Row) : World Row :=
  match k with
  | .idle => idleFired w
  | .start => startFired w
  | .term c => termFired c w
  | .kill _ => killFired w
  | .statement id => onTimeout timeoutMs env id w

def turn (e : Event Row) (w : World Row) : World Row :=
  match e with
  | .exec sql => exec env sql w
  | .stop => stop w
  | .message c m => onMessage env c m w
  | .exits c =>
      if c ∈ w.children then onChildExit env c { w with children := w.children.erase c } else w
  | .fires handle =>
      match w.timers.callback handle with
      | none => w
      | some k => call timeoutMs env k { w with timers := w.timers.clear (some handle) }

/-- The world after the turns. -/
def run (es : List (Env × Event Row)) : World Row :=
  es.foldl (fun w e => turn timeoutMs e.1 e.2 w) initial

end Functions

end Kiagent.Mcp.SqlRunner
