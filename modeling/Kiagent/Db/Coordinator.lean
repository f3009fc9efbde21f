/-
# Db.Coordinator -- who runs on the database connection, and when

Operations wait in one queue; the pump takes the first that may run, awaits its work
and settles it.  A begin makes its owner's transaction the active one; while it is, only
operations that carry its token may run.  A finish, a release, an expired lease and a
close each end it.

A state lies between two pieces of synchronous code: an action is what runs until the
next `await`.  A call of the pump runs on in its caller's turn, so while the pump is at
`looping` or `selecting` no other action is possible.

Nothing is lost, and nothing is left that could run: `counted_run` and `drained_run`
hold of every run.
-/
import Mathlib
import Kiagent.Theory.Runs

namespace Kiagent.Db.Coordinator

open Kiagent.Theory

set_option autoImplicit false

/-! ## Owners -/

inductive DbOwner where
  | core (handle : Option String) (incarnation : Option Nat)
  | plugin (extensionId : String) (handle : Option String) (incarnation : Option Nat)
  deriving DecidableEq

namespace DbOwner

def handle : DbOwner → Option String
  | core handle _ => handle
  | plugin _ handle _ => handle

def incarnation : DbOwner → Option Nat
  | core _ incarnation => incarnation
  | plugin _ _ incarnation => incarnation

def sameKind : DbOwner → DbOwner → Bool
  | core _ _, core _ _ => true
  | plugin extensionId _ _, plugin extensionId' _ _ => extensionId = extensionId'
  | _, _ => false

/-- An empty handle counts as none. -/
def named (owner : DbOwner) : Bool := owner.handle.any fun handle => handle ≠ ""

end DbOwner

def sameOwner (a b : DbOwner) : Bool :=
  if !a.sameKind b then false
  else if a.named || b.named then a.named && b.named && a.handle = b.handle
  else a.incarnation.isNone || b.incarnation.isNone || a.incarnation = b.incarnation

def ownerKey : DbOwner → String
  | .plugin extensionId handle _ => handle.getD extensionId
  | .core handle _ => handle.getD "core"

/-! ## The coordinator's state -/

abbrev TxToken : Type := Nat

inductive Operation where
  | run
  | begin
  | finish
  deriving DecidableEq

structure Job where
  id : Nat
  owner : DbOwner
  token : Option TxToken
  operation : Operation
  signal : Option Nat
  deriving DecidableEq

structure Active where
  owner : DbOwner
  token : TxToken
  expires : Int
  deriving DecidableEq

inductive Rejection where
  | closed
  | poisoned
  | tokenInvalid
  | cancelled
  | expired
  | released
  deriving DecidableEq

/-- The message and the code of the error. -/
def Rejection.error : Rejection → String × String
  | closed => ("database coordinator is closed", "DB_COORDINATOR_CLOSED")
  | poisoned => ("database owner is unusable after rollback failure", "DB_OWNER_POISONED")
  | tokenInvalid => ("invalid or foreign transaction token", "DB_TX_TOKEN_INVALID")
  | cancelled => ("database operation cancelled", "DB_OPERATION_CANCELLED")
  | expired => ("transaction lease expired", "DB_TX_EXPIRED")
  | released => ("database owner released", "DB_OWNER_RELEASED")

inductive Outcome where
  | resolved
  /-- The work threw. -/
  | failed
  | rejected (reason : Rejection)
  deriving DecidableEq

/-- A rollback, or after it failed the call of `onOwnerFailure`. -/
inductive RollbackPhase where
  | working
  | poisoning
  deriving DecidableEq

/-- A begin whose work failed rolls back before its work is done. -/
inductive JobPhase where
  | working
  | rollback (phase : RollbackPhase)
  | done (outcome : Outcome)
  deriving DecidableEq

inductive Pump where
  | idle
  | looping
  /-- Past the check of the lease. -/
  | selecting
  | expiring (active : Active) (phase : RollbackPhase)
  /-- `started` is the transaction a begin has started. -/
  | running (job : Job) (started : Option Active) (phase : JobPhase)
  deriving DecidableEq

inductive FinishPhase where
  | waiting
  /-- The promise of its job has settled. -/
  | told (outcome : Outcome)
  | rollback (cause : Outcome) (phase : RollbackPhase)
  deriving DecidableEq

/-- A call of `finish` that has not returned. -/
structure Finish where
  id : Nat
  finished : Active
  phase : FinishPhase
  deriving DecidableEq

/-- A call of `release` that rolls back. -/
structure Release where
  id : Nat
  owner : DbOwner
  released : Active
  phase : RollbackPhase
  deriving DecidableEq

inductive Closing where
  | not
  /-- Awaiting `idlePromise`. -/
  | waiting
  | rollback (closing : Active) (phase : RollbackPhase)
  | done
  deriving DecidableEq

/-- How the end of a transaction has begun: its finishing work, or a rollback. -/
inductive End where
  | work (id : Nat)
  | rollback
  deriving DecidableEq

structure State where
  queue : List Job
  active : Option Active
  failedOwners : List String
  pump : Pump
  finishes : List Finish
  releases : List Release
  closing : Closing
  /-- Aborted signals. -/
  aborted : List Nat
  nextId : Nat
  nextToken : Nat
  /-- Tokens that a begin has returned. -/
  handed : List TxToken
  /-- The operations that were enqueued, and how they settled. -/
  enqueued : List Nat
  settled : List (Nat × Outcome)
  /-- The calls of `finish` that enqueued one, and how they returned. -/
  finishing : List Nat
  returned : List (Nat × Outcome)
  /-- The ends of transactions that have begun. -/
  ended : List (TxToken × End)
  deriving DecidableEq

def State.initial : State where
  queue := []
  active := none
  failedOwners := []
  pump := .idle
  finishes := []
  releases := []
  closing := .not
  aborted := []
  nextId := 0
  nextToken := 0
  handed := []
  enqueued := []
  settled := []
  finishing := []
  returned := []
  ended := []

namespace State

def closed (s : State) : Bool := s.closing ≠ .not

/-- The token and the owner are those of the active transaction. -/
def owns (s : State) (owner : DbOwner) (token : TxToken) : Bool :=
  s.active.any fun active => active.token = token && sameOwner owner active.owner

/-- An operation without a token needs none; the token of any other must be good. -/
def admitted (s : State) (owner : DbOwner) (token : Option TxToken) : Bool :=
  token.all fun token => s.owns owner token

/-! ## The parts of the operations -/

/-- Settling the promise of a finish's job resumes the call of `finish`. -/
def settleJob (s : State) (job : Job) (outcome : Outcome) : State :=
  let tell (finish : Finish) : Finish :=
    if finish.id = job.id then { finish with phase := .told outcome } else finish
  let finishes := if job.operation = .finish then s.finishes.map tell else s.finishes
  { s with settled := s.settled ++ [(job.id, outcome)], finishes }

/-- From the end of the queue to its start. -/
def rejectQueued (s : State) (predicate : Job → Bool) (reason : Rejection) : State :=
  let kept := { s with queue := s.queue.filter fun job => !predicate job }
  (s.queue.filter predicate).reverse.foldl (fun s job => s.settleJob job (.rejected reason)) kept

def poisonOwner (s : State) (owner : DbOwner) : State :=
  let failed := { s with failedOwners := s.failedOwners ++ [ownerKey owner] }
  failed.rejectQueued (fun job => sameOwner job.owner owner) .poisoned

/-- A token names one transaction, so equal tokens are the same object. -/
def clearActive (s : State) (target : Active) : State :=
  if s.active.any fun active => active.token = target.token then { s with active := none } else s

def rollbackBegins (s : State) (target : Active) : State :=
  { s with ended := s.ended ++ [(target.token, .rollback)] }

/-- `void pump()`: a pump at work takes no notice. -/
def callPump (s : State) : State :=
  if s.pump = .idle then { s with pump := .looping } else s

def enqueue (s : State) (owner : DbOwner) (token : Option TxToken) (operation : Operation)
    (signal : Option Nat) : State :=
  let job : Job := ⟨s.nextId, owner, token, operation, signal⟩
  let s := { s with nextId := s.nextId + 1, enqueued := s.enqueued ++ [s.nextId] }
  if s.closed then s.settleJob job (.rejected .closed)
  else if s.failedOwners.contains (ownerKey owner) then s.settleJob job (.rejected .poisoned)
  else if !s.admitted owner token then s.settleJob job (.rejected .tokenInvalid)
  else if signal.any fun signal => s.aborted.contains signal then
    s.settleJob job (.rejected .cancelled)
  else { s with queue := s.queue ++ [job] }.callPump

/-! ## The pump -/

/-- The job's turn: its work starts. -/
def start (s : State) (leaseMs now : Int) (job : Job) : State :=
  match job.operation with
  | .run => { s with pump := .running job none .working }
  | .begin =>
      let started : Active := ⟨job.owner, s.nextToken, now + leaseMs⟩
      { s with
        active := some started
        nextToken := s.nextToken + 1
        pump := .running job (some started) .working }
  | .finish =>
      let ends := job.token.toList.map fun token => (token, End.work job.id)
      { s with ended := s.ended ++ ends, pump := .running job none .working }

/-- The job is rejected, and the loop goes on. -/
def refuse (s : State) (job : Job) (reason : Rejection) : State :=
  { s.settleJob job (.rejected reason) with pump := .looping }

/-- What becomes of a job taken from the queue. -/
def take (s : State) (leaseMs now : Int) (job : Job) : State :=
  if !s.admitted job.owner job.token then s.refuse job .tokenInvalid
  else if job.signal.any fun signal => s.aborted.contains signal then s.refuse job .cancelled
  else s.start leaseMs now job

def eligible (s : State) (job : Job) : Bool := job.token.isSome || s.active.isNone

/-- The loop's turn after the check of the lease. -/
def select (s : State) (leaseMs now : Int) : State :=
  match s.queue.find? s.eligible with
  | none => { s with pump := .idle }
  | some job => { s with queue := s.queue.eraseP s.eligible }.take leaseMs now job

def expired (s : State) (now : Int) : Option Active :=
  s.active.filter fun active => active.expires < now

/-- From the head of the loop to the next `await`, or to its end, or to its head. -/
def turn (s : State) (leaseMs now : Int) : State :=
  if s.pump = .selecting then s.select leaseMs now
  else if s.closed then { s with pump := .idle }
  else
    match s.expired now with
    | some active =>
        let s := s.rejectQueued (fun job => job.token = some active.token) .expired
        { s.rollbackBegins active with pump := .expiring active .working }
    | none => s.select leaseMs now

/-- The work of the running job settles. -/
def workSettles (s : State) (ok : Bool) : Option State :=
  let outcome : Outcome := if ok then .resolved else .failed
  match s.pump with
  | .running job started .working =>
      match job.operation, started with
      | .begin, some active =>
          if ok then some { s with pump := .running job started (.done .resolved) }
          else
            let s := s.rollbackBegins active
            some { s with pump := .running job started (.rollback .working) }
      | .finish, _ =>
          let s := s.rejectQueued (fun other => other.token = job.token) .tokenInvalid
          some { s with pump := .running job started (.done outcome) }
      | _, _ => some { s with pump := .running job started (.done outcome) }
  | _ => none

/-- The pump goes on after `await job.work()`. -/
def resume (s : State) : Option State :=
  match s.pump with
  | .running job started (.done outcome) =>
      let s := s.settleJob job outcome
      let handed := if outcome = .resolved then started.toList.map Active.token else []
      some { s with handed := s.handed ++ handed, pump := .looping }
  | _ => none

/-! ## The ends of a transaction -/

/-- Where a rollback runs. -/
inductive Site where
  | pump
  | finish (id : Nat)
  | release (id : Nat)
  | close
  deriving DecidableEq

/-- The rollback at a site: its transaction, the owner that its failure poisons, and
its phase. -/
def rollbackAt (s : State) : Site → Option (Active × DbOwner × RollbackPhase)
  | .pump =>
      match s.pump with
      | .expiring active phase => some (active, active.owner, phase)
      | .running _ (some active) (.rollback phase) => some (active, active.owner, phase)
      | _ => none
  | .finish id =>
      (s.finishes.find? fun finish => finish.id = id).bind fun finish =>
        match finish.phase with
        | .rollback _ phase => some (finish.finished, finish.finished.owner, phase)
        | _ => none
  | .release id =>
      (s.releases.find? fun release => release.id = id).map fun release =>
        (release.released, release.owner, release.phase)
  | .close =>
      match s.closing with
      | .rollback active phase => some (active, active.owner, phase)
      | _ => none

/-- The rollback at the site has thrown. -/
def poisoning (s : State) : Site → State
  | .pump =>
      match s.pump with
      | .expiring active _ => { s with pump := .expiring active .poisoning }
      | .running job started _ => { s with pump := .running job started (.rollback .poisoning) }
      | _ => s
  | .finish id =>
      let poison (finish : Finish) : Finish :=
        match finish.phase with
        | .rollback cause _ =>
            if finish.id = id then { finish with phase := .rollback cause .poisoning } else finish
        | _ => finish
      { s with finishes := s.finishes.map poison }
  | .release id =>
      let poison (release : Release) : Release :=
        if release.id = id then { release with phase := .poisoning } else release
      { s with releases := s.releases.map poison }
  | .close =>
      match s.closing with
      | .rollback active _ => { s with closing := .rollback active .poisoning }
      | _ => s

/-- The `finally` of `finish`. -/
def returnFinish (s : State) (finish : Finish) (outcome : Outcome) : State :=
  let s := s.rejectQueued (fun job => job.token = some finish.finished.token) .tokenInvalid
  let s := s.clearActive finish.finished
  let s := { s with
    finishes := s.finishes.filter fun other => other.id ≠ finish.id
    returned := s.returned ++ [(finish.id, outcome)] }
  s.callPump

def releaseQueued (s : State) (owner : DbOwner) : State :=
  (s.rejectQueued (fun job => sameOwner job.owner owner) .released).callPump

/-- What the site does once its rollback is over. -/
def afterRollback (s : State) (active : Active) : Site → State
  | .pump =>
      match s.pump with
      | .running job started _ =>
          { s.clearActive active with pump := .running job started (.done .failed) }
      | _ => { s.clearActive active with pump := .selecting }
  | .finish id =>
      match s.finishes.find? fun finish => finish.id = id with
      | some finish =>
          match finish.phase with
          | .rollback cause _ => s.returnFinish finish cause
          | _ => s
      | none => s
  | .release id =>
      match s.releases.find? fun release => release.id = id with
      | some release =>
          let s := s.clearActive active
          let s := { s with releases := s.releases.filter fun other => other.id ≠ id }
          s.releaseQueued release.owner
      | none => s
  | .close => { s.clearActive active with closing := .done }

def rollbackSettles (s : State) (site : Site) (ok : Bool) : Option State :=
  (s.rollbackAt site).bind fun (active, owner, phase) =>
    if phase ≠ .working then none
    else if ok then some (s.afterRollback active site)
    else some ((s.poisonOwner owner).poisoning site)

def poisonSettles (s : State) (site : Site) : Option State :=
  (s.rollbackAt site).bind fun (active, _, phase) =>
    if phase ≠ .poisoning then none else some (s.afterRollback active site)

/-- A call of `finish` awaits the operation that is enqueued next. -/
def awaitFinish (s : State) (finished : Active) : State :=
  { s with
    finishes := s.finishes ++ [⟨s.nextId, finished, .waiting⟩]
    finishing := s.finishing ++ [s.nextId] }

def finish (s : State) (owner : DbOwner) (token : TxToken) : State :=
  match s.active with
  | some active =>
      if active.token = token && sameOwner owner active.owner then
        (s.awaitFinish active).enqueue owner (some token) .finish none
      else s
  | none => s

/-- The call of `finish` goes on after `await enqueue(..)`. -/
def finishResumes (s : State) (id : Nat) : Option State :=
  (s.finishes.find? fun finish => finish.id = id).bind fun finish =>
    match finish.phase with
    | .told outcome =>
        let same := s.active.any fun active => active.token = finish.finished.token
        if outcome ≠ .resolved && same then
          let enter (other : Finish) : Finish :=
            if other.id = id then { other with phase := .rollback outcome .working } else other
          let s := s.rollbackBegins finish.finished
          some { s with finishes := s.finishes.map enter }
        else some (s.returnFinish finish outcome)
    | _ => none

def release (s : State) (owner : DbOwner) : State :=
  match s.active with
  | some active =>
      if sameOwner owner active.owner then
        let call : Release := ⟨s.nextId, owner, active, .working⟩
        let s := s.rollbackBegins active
        { s with nextId := s.nextId + 1, releases := s.releases ++ [call] }
      else s.releaseQueued owner
  | none => s.releaseQueued owner

def close (s : State) : State :=
  if s.closed then s
  else
    let emptied := { s with closing := .waiting, queue := [] }
    s.queue.foldl (fun s job => s.settleJob job (.rejected .closed)) emptied

def inFlight (s : State) : Bool :=
  match s.pump with
  | .running _ _ _ => true
  | _ => false

/-- `close` goes on after `await idlePromise`.  A finish whose job has settled goes on
before it: its job settled before the promise did. -/
def closeResumes (s : State) : Option State :=
  let told := s.finishes.any fun finish =>
    match finish.phase with
    | .told _ => true
    | _ => false
  if s.closing ≠ .waiting || s.inFlight || told then none
  else
    match s.active with
    | some active =>
        let s := s.rollbackBegins active
        some { s with closing := .rollback active .working }
    | none => some { s with closing := .done }

def abort (s : State) (signal : Nat) : State :=
  let s := s.rejectQueued (fun job => job.signal = some signal) .cancelled
  { s with aborted := s.aborted ++ [signal] }

/-- A token is random: who has it has it from a begin. -/
def known (s : State) (token : TxToken) : Bool :=
  s.nextToken ≤ token || s.handed.contains token

end State

/-! ## Steps -/

inductive Action where
  | run (owner : DbOwner) (token : Option TxToken) (signal : Option Nat)
  | begin (owner : DbOwner) (signal : Option Nat)
  | finish (owner : DbOwner) (token : TxToken)
  | release (owner : DbOwner)
  | close
  | abort (signal : Nat)
  | timer
  | turn (now : Int)
  | workSettles (ok : Bool)
  | resume
  | rollbackSettles (site : State.Site) (ok : Bool)
  | poisonSettles (site : State.Site)
  | finishResumes (id : Nat)
  | closeResumes
  deriving DecidableEq

def inTurn (s : State) : Bool := s.pump = .looping || s.pump = .selecting

def step (leaseMs : Int) (s : State) (action : Action) : Option State :=
  if inTurn s then
    match action with
    | .turn now => some (s.turn leaseMs now)
    | _ => none
  else
    match action with
    | .run owner token signal =>
        if token.all s.known then some (s.enqueue owner token .run signal) else none
    | .begin owner signal => some (s.enqueue owner none .begin signal)
    | .finish owner token => if s.known token then some (s.finish owner token) else none
    | .release owner => some (s.release owner)
    | .close => some s.close
    | .abort signal => some (s.abort signal)
    | .timer => some s.callPump
    | .turn _ => none
    | .workSettles ok => s.workSettles ok
    | .resume => s.resume
    | .rollbackSettles site ok => s.rollbackSettles site ok
    | .poisonSettles site => s.poisonSettles site
    | .finishResumes id => s.finishResumes id
    | .closeResumes => s.closeResumes

/-! ## What the parts write -/

namespace State

/-- The finishes once these jobs have settled. -/
def tellAll (finishes : List Finish) (jobs : List Job) (outcome : Outcome) : List Finish :=
  jobs.foldl (fun finishes job =>
    if job.operation = .finish then
      finishes.map fun finish =>
        if finish.id = job.id then { finish with phase := .told outcome } else finish
    else finishes) finishes

theorem tellAll_ids (jobs : List Job) (outcome : Outcome) : (finishes : List Finish) →
    (tellAll finishes jobs outcome).map Finish.id = finishes.map Finish.id := by
  induction jobs with
  | nil => intro finishes; rfl
  | cons job jobs ih =>
      intro finishes
      rw [tellAll, List.foldl_cons]
      refine (ih _).trans ?_
      split
      · rw [List.map_map]
        apply List.map_congr_left
        intro finish _
        simp only [Function.comp_apply]
        split <;> rfl
      · rfl

/-- Settling other jobs than those of finishes tells nobody. -/
theorem tellAll_plain {jobs : List Job} (outcome : Outcome)
    (plain : ∀ job ∈ jobs, job.operation ≠ .finish) (finishes : List Finish) :
    tellAll finishes jobs outcome = finishes := by
  induction jobs with
  | nil => rfl
  | cons job jobs ih =>
      rw [tellAll, List.foldl_cons, if_neg (plain job (List.mem_cons_self ..))]
      exact ih fun job mem => plain job (List.mem_cons_of_mem _ mem)

theorem settleJobs_eq (outcome : Outcome) : (jobs : List Job) → (s : State) →
    jobs.foldl (fun s job => s.settleJob job outcome) s =
      { s with
        settled := s.settled ++ jobs.map fun job => (job.id, outcome)
        finishes := tellAll s.finishes jobs outcome }
  | [], s => by simp [tellAll]
  | job :: jobs, s => by
      rw [List.foldl_cons, settleJobs_eq outcome jobs]
      simp [settleJob, tellAll]

theorem rejectQueued_eq (s : State) (p : Job → Bool) (reason : Rejection) :
    s.rejectQueued p reason =
      { s with
        queue := s.queue.filter fun job => !p job
        settled := s.settled ++
          (s.queue.filter p).reverse.map fun job => (job.id, Outcome.rejected reason)
        finishes := tellAll s.finishes (s.queue.filter p).reverse (.rejected reason) } := by
  rw [rejectQueued, settleJobs_eq]

/-- A rejection that meets no finish. -/
theorem rejectQueued_plain {s : State} {p : Job → Bool} (reason : Rejection)
    (plain : ∀ job ∈ s.queue, p job = true → job.operation ≠ .finish) :
    s.rejectQueued p reason =
      { s with
        queue := s.queue.filter fun job => !p job
        settled := s.settled ++
          (s.queue.filter p).reverse.map fun job => (job.id, Outcome.rejected reason) } := by
  rw [rejectQueued_eq, tellAll_plain]
  intro job mem
  obtain ⟨mem, held⟩ := List.mem_filter.1 (List.mem_reverse.1 mem)
  exact plain job mem held

theorem settleJob_plain {s : State} {job : Job} (outcome : Outcome)
    (plain : job.operation ≠ .finish) :
    s.settleJob job outcome = { s with settled := s.settled ++ [(job.id, outcome)] } := by
  rw [settleJob, if_neg plain]

end State

/-! ## What the parts leave -/

namespace State

@[simp] theorem rejectQueued_active (s : State) (p : Job → Bool) (reason : Rejection) :
    (s.rejectQueued p reason).active = s.active := by
  rw [rejectQueued_eq]

@[simp] theorem rejectQueued_pump (s : State) (p : Job → Bool) (reason : Rejection) :
    (s.rejectQueued p reason).pump = s.pump := by
  rw [rejectQueued_eq]

@[simp] theorem rejectQueued_releases (s : State) (p : Job → Bool) (reason : Rejection) :
    (s.rejectQueued p reason).releases = s.releases := by
  rw [rejectQueued_eq]

@[simp] theorem rejectQueued_closing (s : State) (p : Job → Bool) (reason : Rejection) :
    (s.rejectQueued p reason).closing = s.closing := by
  rw [rejectQueued_eq]

@[simp] theorem rejectQueued_nextToken (s : State) (p : Job → Bool) (reason : Rejection) :
    (s.rejectQueued p reason).nextToken = s.nextToken := by
  rw [rejectQueued_eq]

@[simp] theorem rejectQueued_handed (s : State) (p : Job → Bool) (reason : Rejection) :
    (s.rejectQueued p reason).handed = s.handed := by
  rw [rejectQueued_eq]

@[simp] theorem rejectQueued_ended (s : State) (p : Job → Bool) (reason : Rejection) :
    (s.rejectQueued p reason).ended = s.ended := by
  rw [rejectQueued_eq]

@[simp] theorem rejectQueued_queue (s : State) (p : Job → Bool) (reason : Rejection) :
    (s.rejectQueued p reason).queue = s.queue.filter fun job => !p job := by
  rw [rejectQueued_eq]

@[simp] theorem clearActive_queue (s : State) (target : Active) :
    (s.clearActive target).queue = s.queue := by
  unfold clearActive
  split <;> rfl

@[simp] theorem clearActive_pump (s : State) (target : Active) :
    (s.clearActive target).pump = s.pump := by
  unfold clearActive
  split <;> rfl

@[simp] theorem clearActive_finishes (s : State) (target : Active) :
    (s.clearActive target).finishes = s.finishes := by
  unfold clearActive
  split <;> rfl

@[simp] theorem clearActive_releases (s : State) (target : Active) :
    (s.clearActive target).releases = s.releases := by
  unfold clearActive
  split <;> rfl

@[simp] theorem clearActive_closing (s : State) (target : Active) :
    (s.clearActive target).closing = s.closing := by
  unfold clearActive
  split <;> rfl

@[simp] theorem clearActive_nextToken (s : State) (target : Active) :
    (s.clearActive target).nextToken = s.nextToken := by
  unfold clearActive
  split <;> rfl

@[simp] theorem clearActive_handed (s : State) (target : Active) :
    (s.clearActive target).handed = s.handed := by
  unfold clearActive
  split <;> rfl

@[simp] theorem clearActive_ended (s : State) (target : Active) :
    (s.clearActive target).ended = s.ended := by
  unfold clearActive
  split <;> rfl

@[simp] theorem callPump_queue (s : State) : s.callPump.queue = s.queue := by
  unfold callPump
  split <;> rfl

@[simp] theorem callPump_active (s : State) : s.callPump.active = s.active := by
  unfold callPump
  split <;> rfl

@[simp] theorem callPump_finishes (s : State) : s.callPump.finishes = s.finishes := by
  unfold callPump
  split <;> rfl

@[simp] theorem callPump_releases (s : State) : s.callPump.releases = s.releases := by
  unfold callPump
  split <;> rfl

@[simp] theorem callPump_closing (s : State) : s.callPump.closing = s.closing := by
  unfold callPump
  split <;> rfl

@[simp] theorem callPump_nextToken (s : State) : s.callPump.nextToken = s.nextToken := by
  unfold callPump
  split <;> rfl

@[simp] theorem callPump_handed (s : State) : s.callPump.handed = s.handed := by
  unfold callPump
  split <;> rfl

@[simp] theorem callPump_ended (s : State) : s.callPump.ended = s.ended := by
  unfold callPump
  split <;> rfl

theorem callPump_pump (s : State) : s.callPump.pump = if s.pump = .idle then .looping else s.pump := by
  unfold callPump
  split <;> rfl

end State

/-! ## Where the operations are -/

namespace State

def runningIds (s : State) : List Nat :=
  match s.pump with
  | .running job _ _ => [job.id]
  | _ => []

/-- How often an enqueued operation is settled, in the queue, or with the pump. -/
def places (s : State) (id : Nat) : Nat :=
  (s.settled.map Prod.fst).count id + (s.queue.map Job.id).count id + s.runningIds.count id

/-- How often a call of `finish` has returned or is under way. -/
def callPlaces (s : State) (id : Nat) : Nat :=
  (s.returned.map Prod.fst).count id + (s.finishes.map Finish.id).count id

end State

/-- Every enqueued operation is settled once, or waits or runs and is not settled; and
so is every call of `finish`. -/
structure Counted (s : State) : Prop where
  jobs : ∀ id, s.places id = s.enqueued.count id
  calls : ∀ id, s.callPlaces id = s.finishing.count id
  enqueuedNodup : s.enqueued.Nodup
  finishingNodup : s.finishing.Nodup
  enqueuedBelow : ∀ id ∈ s.enqueued, id < s.nextId
  finishingBelow : ∀ id ∈ s.finishing, id < s.nextId

/-- The parts of the state that `Counted` reads are those of `s`. -/
structure Moved (s s' : State) : Prop where
  jobs : ∀ id, s'.places id = s.places id
  calls : ∀ id, s'.callPlaces id = s.callPlaces id
  enqueued : s'.enqueued = s.enqueued
  finishing : s'.finishing = s.finishing
  next : s.nextId ≤ s'.nextId

theorem Counted.moved {s s' : State} (counted : Counted s) (moved : Moved s s') :
    Counted s' where
  jobs id := by rw [moved.jobs, moved.enqueued, counted.jobs]
  calls id := by rw [moved.calls, moved.finishing, counted.calls]
  enqueuedNodup := moved.enqueued ▸ counted.enqueuedNodup
  finishingNodup := moved.finishing ▸ counted.finishingNodup
  enqueuedBelow id mem := lt_of_lt_of_le (counted.enqueuedBelow id (moved.enqueued ▸ mem)) moved.next
  finishingBelow id mem :=
    lt_of_lt_of_le (counted.finishingBelow id (moved.finishing ▸ mem)) moved.next

theorem Moved.trans {s s' s'' : State} (first : Moved s s') (second : Moved s' s'') :
    Moved s s'' where
  jobs id := (second.jobs id).trans (first.jobs id)
  calls id := (second.calls id).trans (first.calls id)
  enqueued := second.enqueued.trans first.enqueued
  finishing := second.finishing.trans first.finishing
  next := le_trans first.next second.next

theorem Moved.refl (s : State) : Moved s s :=
  ⟨fun _ => rfl, fun _ => rfl, rfl, rfl, le_refl _⟩

theorem count_filter_add {ρ : Type} (f : ρ → Nat) (p : ρ → Bool) (rows : List ρ) (id : Nat) :
    ((rows.filter p).map f).count id + ((rows.filter fun r => !p r).map f).count id =
      (rows.map f).count id := by
  rw [← List.count_append, ← List.map_append]
  exact ((List.filter_append_perm p rows).map f).count_eq id

/-- The first element that meets `p`, and the list without it. -/
theorem find_eraseP {ρ : Type} {p : ρ → Bool} {rows : List ρ} {r : ρ}
    (found : rows.find? p = some r) :
    ∃ before after, rows = before ++ r :: after ∧ rows.eraseP p = before ++ after ∧
      p r = true ∧ ∀ x ∈ before, p x = false := by
  obtain ⟨held, before, after, rfl, none⟩ := List.find?_eq_some_iff_append.1 found
  have passed : ∀ x ∈ before, ¬p x = true := by
    intro x mem
    simpa using none x mem
  refine ⟨before, after, rfl, ?_, held, fun x mem => by simpa using passed x mem⟩
  rw [List.eraseP_append_right _ passed, List.eraseP_cons_of_pos held]

theorem moved_rejectQueued (s : State) (p : Job → Bool) (reason : Rejection) :
    Moved s (s.rejectQueued p reason) := by
  rw [State.rejectQueued_eq]
  refine ⟨fun id => ?_, fun id => ?_, rfl, rfl, le_refl _⟩
  · have same := count_filter_add Job.id p s.queue id
    have reversed := ((s.queue.filter p).reverse_perm.map Job.id).count_eq id
    have logged : ((s.queue.filter p).reverse.map fun job =>
        (job.id, Outcome.rejected reason)).map Prod.fst = (s.queue.filter p).reverse.map Job.id := by
      rw [List.map_map]
      rfl
    simp only [State.places, State.runningIds, List.map_append, List.count_append, logged]
    omega
  · simp only [State.callPlaces, State.tellAll_ids]

theorem moved_callPump (s : State) : Moved s s.callPump := by
  unfold State.callPump
  split
  · rename_i idle
    refine ⟨fun id => ?_, fun _ => rfl, rfl, rfl, le_refl _⟩
    simp [State.places, State.runningIds, idle]
  · exact .refl s

theorem moved_clearActive (s : State) (target : Active) : Moved s (s.clearActive target) := by
  unfold State.clearActive
  split
  · exact ⟨fun _ => rfl, fun _ => rfl, rfl, rfl, le_refl _⟩
  · exact .refl s

theorem moved_poisonOwner (s : State) (owner : DbOwner) : Moved s (s.poisonOwner owner) :=
  have failed : Moved s { s with failedOwners := s.failedOwners ++ [ownerKey owner] } :=
    ⟨fun _ => rfl, fun _ => rfl, rfl, rfl, le_refl _⟩
  failed.trans (moved_rejectQueued _ _ _)

theorem moved_releaseQueued (s : State) (owner : DbOwner) : Moved s (s.releaseQueued owner) :=
  (moved_rejectQueued s _ _).trans (moved_callPump _)

theorem moved_poisoning (s : State) (site : State.Site) : Moved s (s.poisoning site) := by
  cases site with
  | pump =>
      simp only [State.poisoning]
      split
      · rename_i active phase here
        exact ⟨fun id => by simp [State.places, State.runningIds, here], fun _ => rfl, rfl, rfl,
          le_refl _⟩
      · rename_i job started phase here
        exact ⟨fun id => by simp [State.places, State.runningIds, here], fun _ => rfl, rfl, rfl,
          le_refl _⟩
      · exact .refl s
  | finish id =>
      refine ⟨fun _ => rfl, fun id' => ?_, rfl, rfl, le_refl _⟩
      simp only [State.poisoning, State.callPlaces, List.map_map]
      congr 2
      apply List.map_congr_left
      intro finish _
      simp only [Function.comp_apply]
      split
      · split <;> rfl
      · rfl
  | release id => exact ⟨fun _ => rfl, fun _ => rfl, rfl, rfl, le_refl _⟩
  | close =>
      simp only [State.poisoning]
      split
      · exact ⟨fun _ => rfl, fun _ => rfl, rfl, rfl, le_refl _⟩
      · exact .refl s

/-- Settling a job leaves its place to the log. -/
theorem places_settleJob (s : State) (job : Job) (outcome : Outcome) (id : Nat) :
    (s.settleJob job outcome).places id = s.places id + [job.id].count id := by
  simp only [State.places, State.settleJob, State.runningIds, List.map_append, List.count_append,
    List.map_cons, List.map_nil]
  omega

theorem callPlaces_settleJob (s : State) (job : Job) (outcome : Outcome) (id : Nat) :
    (s.settleJob job outcome).callPlaces id = s.callPlaces id := by
  have told := State.tellAll_ids [job] outcome s.finishes
  simp only [State.tellAll, List.foldl_cons, List.foldl_nil] at told
  simp only [State.callPlaces, State.settleJob, told]

/-- `s'` is `s` but for a job that has come to a place. -/
structure Placed (id : Nat) (s s' : State) : Prop where
  jobs : ∀ id', s'.places id' = s.places id' + [id].count id'
  calls : ∀ id', s'.callPlaces id' = s.callPlaces id'
  enqueued : s'.enqueued = s.enqueued
  finishing : s'.finishing = s.finishing
  next : s.nextId ≤ s'.nextId

theorem placed_settleJob (s : State) (job : Job) (outcome : Outcome) :
    Placed job.id s (s.settleJob job outcome) :=
  ⟨places_settleJob s job outcome, callPlaces_settleJob s job outcome, rfl, rfl, le_refl _⟩

theorem placed_start (s : State) (leaseMs now : Int) (job : Job) (turning : s.runningIds = []) :
    Placed job.id s (s.start leaseMs now job) := by
  unfold State.start
  split <;> refine ⟨fun id => ?_, fun _ => rfl, rfl, rfl, le_refl _⟩ <;>
    (rw [State.places, State.places, turning]; simp [State.runningIds])

theorem Moved.placed {id : Nat} {s s' s'' : State} (placed : Placed id s s')
    (moved : Moved s' s'') : Placed id s s'' where
  jobs id' := (moved.jobs id').trans (placed.jobs id')
  calls id' := (moved.calls id').trans (placed.calls id')
  enqueued := moved.enqueued.trans placed.enqueued
  finishing := moved.finishing.trans placed.finishing
  next := le_trans placed.next moved.next

theorem placed_take (s : State) (leaseMs now : Int) (job : Job) (turning : s.runningIds = []) :
    Placed job.id s (s.take leaseMs now job) := by
  have refused : ∀ reason, Placed job.id s (s.refuse job reason) := by
    intro reason
    refine Moved.placed (placed_settleJob s job (.rejected reason)) ?_
    refine ⟨fun id => ?_, fun _ => rfl, rfl, rfl, le_refl _⟩
    have still : (s.settleJob job (.rejected reason)).runningIds = [] := turning
    rw [State.places, State.places, still]
    rfl
  unfold State.take
  split
  · exact refused _
  · split
    · exact refused _
    · exact placed_start s leaseMs now job turning

theorem moved_select (s : State) (leaseMs now : Int) (turning : s.runningIds = []) :
    Moved s (s.select leaseMs now) := by
  unfold State.select
  split
  · exact ⟨fun id => by rw [State.places, State.places, turning]; rfl, fun _ => rfl, rfl, rfl,
      le_refl _⟩
  · rename_i job found
    obtain ⟨before, after, queue, erased, _⟩ := find_eraseP found
    have placed := placed_take { s with queue := s.queue.eraseP s.eligible } leaseMs now job turning
    refine ⟨fun id => (placed.jobs id).trans ?_, placed.calls, placed.enqueued, placed.finishing,
      placed.next⟩
    rw [State.places, State.places, erased, queue]
    simp only [List.map_append, List.map_cons, List.count_append, List.count_cons, List.count_nil,
      State.runningIds]
    omega

theorem moved_turn (s : State) (leaseMs now : Int) (turning : s.runningIds = []) :
    Moved s (s.turn leaseMs now) := by
  unfold State.turn
  split
  · exact moved_select s leaseMs now turning
  · split
    · exact ⟨fun id => by rw [State.places, State.places, turning]; rfl, fun _ => rfl, rfl, rfl,
        le_refl _⟩
    · split
      · rename_i active _
        refine (moved_rejectQueued s (fun job => job.token = some active.token) .expired).trans ?_
        refine ⟨fun id => ?_, fun _ => rfl, rfl, rfl, le_refl _⟩
        have still : (s.rejectQueued (fun job => job.token = some active.token)
            .expired).runningIds = [] := by
          rw [State.rejectQueued_eq]
          exact turning
        rw [State.places, State.places, still]
        rfl
      · exact moved_select s leaseMs now turning

/-- The pump keeps the job it runs, whatever becomes of it. -/
theorem moved_phase {s : State} {job : Job} {started : Option Active} {phase : JobPhase}
    (running : s.pump = .running job started phase) (started' : Option Active)
    (phase' : JobPhase) : Moved s { s with pump := .running job started' phase' } :=
  ⟨fun id => by simp [State.places, State.runningIds, running], fun _ => rfl, rfl, rfl, le_refl _⟩

theorem moved_rollbackBegins (s : State) (target : Active) : Moved s (s.rollbackBegins target) :=
  ⟨fun _ => rfl, fun _ => rfl, rfl, rfl, le_refl _⟩

theorem moved_workSettles {s s' : State} {ok : Bool} (settles : s.workSettles ok = some s') :
    Moved s s' := by
  unfold State.workSettles at settles
  dsimp only at settles
  split at settles
  · rename_i job started running
    split at settles
    · split at settles
      · obtain rfl := Option.some.inj settles
        exact moved_phase running _ _
      · rename_i active _ _
        obtain rfl := Option.some.inj settles
        have still : (s.rollbackBegins active).pump = s.pump := rfl
        exact (moved_rollbackBegins s active).trans (moved_phase (still.trans running) _ _)
    · obtain rfl := Option.some.inj settles
      have still : (s.rejectQueued (fun other => other.token = job.token)
          .tokenInvalid).pump = s.pump := by
        rw [State.rejectQueued_eq]
      exact (moved_rejectQueued s _ _).trans (moved_phase (still.trans running) _ _)
    · obtain rfl := Option.some.inj settles
      exact moved_phase running _ _
  · cases settles

theorem moved_resume {s s' : State} (resumes : s.resume = some s') : Moved s s' := by
  unfold State.resume at resumes
  split at resumes
  · rename_i job started outcome running
    obtain rfl := Option.some.inj resumes
    have placed := placed_settleJob s job outcome
    refine ⟨fun id => ?_, placed.calls, placed.enqueued, placed.finishing, placed.next⟩
    have counted := placed.jobs id
    have still : (s.settleJob job outcome).runningIds = [job.id] := by
      simp only [State.runningIds, State.settleJob, running]
    rw [State.places, still] at counted
    rw [State.places]
    simp only [State.runningIds, List.count_nil]
    omega
  · cases resumes

theorem finish_id {s : State} {id : Nat} {finish : Finish}
    (found : s.finishes.find? (fun finish => finish.id = id) = some finish) : finish.id = id := by
  simpa using List.find?_some found

/-- Phases do not count. -/
theorem moved_finishPhases (s : State) (f : Finish → Finish)
    (same : ∀ finish, (f finish).id = finish.id) :
    Moved s { s with finishes := s.finishes.map f } := by
  refine ⟨fun _ => rfl, fun id => ?_, rfl, rfl, le_refl _⟩
  have ids : (s.finishes.map f).map Finish.id = s.finishes.map Finish.id := by
    rw [List.map_map]
    exact List.map_congr_left fun finish _ => same finish
  rw [State.callPlaces, State.callPlaces, ids]

/-- A call that returns was under way once. -/
theorem Counted.returns {s : State} {finish : Finish} (counted : Counted s)
    (mem : finish.id ∈ s.finishes.map Finish.id) (outcome : Outcome) :
    Counted { s with
      finishes := s.finishes.filter fun other => other.id ≠ finish.id
      returned := s.returned ++ [(finish.id, outcome)] } := by
  refine { counted with calls := fun id => ?_ }
  have before := counted.calls id
  have atMost := List.nodup_iff_count_le_one.1 counted.finishingNodup id
  have split := count_filter_add Finish.id (fun other => decide (other.id = finish.id))
    s.finishes id
  have negated : (fun other : Finish => !decide (other.id = finish.id)) =
      fun other => decide (other.id ≠ finish.id) := by
    funext other
    simp
  rw [negated] at split
  simp only [State.callPlaces] at before ⊢
  rw [List.map_append, List.count_append, List.map_cons, List.map_nil, List.count_singleton]
  by_cases here : finish.id = id
  · subst here
    have gone : finish.id ∉ (s.finishes.filter fun other => other.id ≠ finish.id).map
        Finish.id := by
      simp
    have present : 0 < (s.finishes.map Finish.id).count finish.id :=
      List.count_pos_iff.2 mem
    rw [List.count_eq_zero.2 gone]
    simp only [BEq.rfl, if_true]
    omega
  · have kept : id ∉ (s.finishes.filter fun other => other.id = finish.id).map Finish.id := by
      simp only [List.mem_map, List.mem_filter, decide_eq_true_eq, not_exists, not_and]
      rintro other ⟨_, same⟩ isId
      exact here (same.symm.trans isId)
    rw [List.count_eq_zero.2 kept] at split
    have other : (finish.id == id) = false := by simpa using here
    rw [other]
    simp only [Bool.false_eq_true, if_false]
    omega

theorem counted_returnFinish {s : State} {finish : Finish} (counted : Counted s)
    (mem : finish ∈ s.finishes) (outcome : Outcome) :
    Counted (s.returnFinish finish outcome) := by
  have rejected := moved_rejectQueued s
    (fun job => job.token = some finish.finished.token) .tokenInvalid
  have cleared := rejected.trans (moved_clearActive _ finish.finished)
  have ids : finish.id ∈ ((s.rejectQueued (fun job => job.token = some finish.finished.token)
      .tokenInvalid).clearActive finish.finished).finishes.map Finish.id := by
    have same : ((s.rejectQueued (fun job => job.token = some finish.finished.token)
        .tokenInvalid).clearActive finish.finished).finishes.map Finish.id =
        s.finishes.map Finish.id := by
      unfold State.clearActive
      rw [State.rejectQueued_eq]
      split <;> exact State.tellAll_ids _ _ _
    rw [same]
    exact List.mem_map_of_mem mem
  exact ((counted.moved cleared).returns ids outcome).moved (moved_callPump _)

theorem counted_afterRollback {s : State} (counted : Counted s) (active : Active)
    (site : State.Site) : Counted (s.afterRollback active site) := by
  cases site with
  | pump =>
      simp only [State.afterRollback]
      have cleared := moved_clearActive s active
      have still : (s.clearActive active).pump = s.pump := by
        unfold State.clearActive
        split <;> rfl
      split
      · rename_i job started phase running
        exact counted.moved (cleared.trans (moved_phase (still.trans running) _ _))
      · rename_i stopped
        refine counted.moved (cleared.trans ⟨fun id => ?_, fun _ => rfl, rfl, rfl, le_refl _⟩)
        have turning : (s.clearActive active).runningIds = [] := by
          unfold State.runningIds
          rw [still]
          split
          · rename_i running
            exact (stopped _ _ _ running).elim
          · rfl
        rw [State.places, State.places, turning]
        rfl
  | finish id =>
      simp only [State.afterRollback]
      split
      · rename_i finish found
        split
        · exact counted_returnFinish counted (List.mem_of_find?_eq_some found) _
        · exact counted
      · exact counted
  | release id =>
      simp only [State.afterRollback]
      split
      · have dropped : Moved (s.clearActive active)
            { s.clearActive active with
              releases := (s.clearActive active).releases.filter fun other => other.id ≠ id } :=
          ⟨fun _ => rfl, fun _ => rfl, rfl, rfl, le_refl _⟩
        exact counted.moved (((moved_clearActive s active).trans dropped).trans
          (moved_releaseQueued _ _))
      · exact counted
  | close =>
      refine counted.moved ((moved_clearActive s active).trans ?_)
      exact ⟨fun _ => rfl, fun _ => rfl, rfl, rfl, le_refl _⟩

theorem counted_rollbackSettles {s s' : State} {site : State.Site} {ok : Bool}
    (counted : Counted s) (settles : s.rollbackSettles site ok = some s') : Counted s' := by
  obtain ⟨⟨active, owner, phase⟩, _, settles⟩ := Option.bind_eq_some_iff.1 settles
  dsimp only at settles
  split at settles
  · cases settles
  · split at settles
    · obtain rfl := Option.some.inj settles
      exact counted_afterRollback counted active site
    · obtain rfl := Option.some.inj settles
      exact counted.moved ((moved_poisonOwner s owner).trans (moved_poisoning _ site))

theorem counted_poisonSettles {s s' : State} {site : State.Site} (counted : Counted s)
    (settles : s.poisonSettles site = some s') : Counted s' := by
  obtain ⟨⟨active, owner, phase⟩, _, settles⟩ := Option.bind_eq_some_iff.1 settles
  dsimp only at settles
  split at settles
  · cases settles
  · obtain rfl := Option.some.inj settles
    exact counted_afterRollback counted active site

/-- The operation enters the queue, or is settled at once. -/
theorem placed_enqueue (s : State) (owner : DbOwner) (token : Option TxToken)
    (operation : Operation) (signal : Option Nat) :
    Placed s.nextId
      { s with nextId := s.nextId + 1, enqueued := s.enqueued ++ [s.nextId] }
      (s.enqueue owner token operation signal) := by
  have settled : ∀ outcome : Outcome, Placed s.nextId
      { s with nextId := s.nextId + 1, enqueued := s.enqueued ++ [s.nextId] }
      (({ s with nextId := s.nextId + 1, enqueued := s.enqueued ++ [s.nextId] } : State).settleJob
        ⟨s.nextId, owner, token, operation, signal⟩ outcome) :=
    fun outcome => placed_settleJob _ ⟨s.nextId, owner, token, operation, signal⟩ outcome
  unfold State.enqueue
  dsimp only
  split
  · exact settled _
  · split
    · exact settled _
    · split
      · exact settled _
      · split
        · exact settled _
        · refine Moved.placed ?_ (moved_callPump _)
          refine ⟨fun id => ?_, fun _ => rfl, rfl, rfl, le_refl _⟩
          simp only [State.places, State.runningIds, List.map_append, List.map_cons, List.map_nil,
            List.count_append]
          omega

/-- The call of `finish` that enqueues may have taken the operation's id already. -/
theorem counted_enqueue {s : State} (jobs : ∀ id, s.places id = s.enqueued.count id)
    (calls : ∀ id, s.callPlaces id = s.finishing.count id) (enqueuedNodup : s.enqueued.Nodup)
    (finishingNodup : s.finishing.Nodup) (enqueuedBelow : ∀ id ∈ s.enqueued, id < s.nextId)
    (finishingBelow : ∀ id ∈ s.finishing, id < s.nextId + 1) (owner : DbOwner)
    (token : Option TxToken) (operation : Operation) (signal : Option Nat) :
    Counted (s.enqueue owner token operation signal) := by
  have placed := placed_enqueue s owner token operation signal
  have next := placed.next
  have fresh : s.nextId ∉ s.enqueued := fun mem => lt_irrefl _ (enqueuedBelow _ mem)
  refine ⟨fun id => ?_, fun id => ?_, ?_, ?_, fun id mem => ?_, fun id mem => ?_⟩
  · rw [placed.jobs, placed.enqueued, List.count_append]
    exact congrArg (· + _) (jobs id)
  · rw [placed.calls, placed.finishing]
    exact calls id
  · rw [placed.enqueued]
    refine List.nodup_append.2 ⟨enqueuedNodup, List.nodup_singleton _, ?_⟩
    intro a mem b last same
    exact fresh (List.mem_singleton.1 last ▸ same ▸ mem)
  · exact placed.finishing ▸ finishingNodup
  · rw [placed.enqueued] at mem
    simp only at next
    rcases List.mem_append.1 mem with mem | mem
    · have := enqueuedBelow id mem
      omega
    · rw [List.mem_singleton.1 mem]
      omega
  · rw [placed.finishing] at mem
    have := finishingBelow id mem
    simp only at next
    omega

theorem Counted.enqueue {s : State} (counted : Counted s) (owner : DbOwner)
    (token : Option TxToken) (operation : Operation) (signal : Option Nat) :
    Counted (s.enqueue owner token operation signal) :=
  counted_enqueue counted.jobs counted.calls counted.enqueuedNodup counted.finishingNodup
    counted.enqueuedBelow (fun id mem => Nat.lt_succ_of_lt (counted.finishingBelow id mem))
    owner token operation signal

theorem Counted.finish {s : State} (counted : Counted s) (owner : DbOwner) (token : TxToken) :
    Counted (s.finish owner token) := by
  unfold State.finish
  split
  · split
    · rename_i active _ _
      refine counted_enqueue (s := s.awaitFinish active) counted.jobs (fun id => ?_)
        counted.enqueuedNodup ?_ counted.enqueuedBelow ?_ _ _ _ _
      · have before := counted.calls id
        simp only [State.callPlaces, State.awaitFinish] at before ⊢
        rw [List.map_append, List.count_append, List.count_append, ← before]
        exact (Nat.add_assoc ..).symm
      · refine List.nodup_append.2 ⟨counted.finishingNodup, List.nodup_singleton _, ?_⟩
        intro a mem b last same
        have := counted.finishingBelow a mem
        rw [same, List.mem_singleton.1 last] at this
        exact lt_irrefl _ this
      · intro id mem
        rcases List.mem_append.1 mem with mem | mem
        · exact Nat.lt_succ_of_lt (counted.finishingBelow id mem)
        · rw [List.mem_singleton.1 mem]
          exact Nat.lt_succ_self _
    · exact counted
  · exact counted

theorem counted_finishResumes {s s' : State} {id : Nat} (counted : Counted s)
    (resumes : s.finishResumes id = some s') : Counted s' := by
  obtain ⟨finish, found, resumes⟩ := Option.bind_eq_some_iff.1 resumes
  split at resumes
  · dsimp only at resumes
    split at resumes
    · obtain rfl := Option.some.inj resumes
      refine counted.moved ((moved_rollbackBegins s finish.finished).trans ?_)
      refine moved_finishPhases _ _ fun other => ?_
      split <;> rfl
    · obtain rfl := Option.some.inj resumes
      exact counted_returnFinish counted (List.mem_of_find?_eq_some found) _
  · cases resumes

theorem counted_closeResumes {s s' : State} (counted : Counted s)
    (resumes : s.closeResumes = some s') : Counted s' := by
  unfold State.closeResumes at resumes
  dsimp only at resumes
  split at resumes
  · cases resumes
  · split at resumes <;> obtain rfl := Option.some.inj resumes <;>
      exact counted.moved ⟨fun _ => rfl, fun _ => rfl, rfl, rfl, le_refl _⟩

theorem moved_close (s : State) : Moved s s.close := by
  unfold State.close
  split
  · exact .refl s
  · dsimp only
    rw [State.settleJobs_eq]
    refine ⟨fun id => ?_, fun id => ?_, rfl, rfl, le_refl _⟩
    · have logged : (s.queue.map fun job => (job.id, Outcome.rejected .closed)).map Prod.fst =
          s.queue.map Job.id := by
        rw [List.map_map]
        rfl
      simp only [State.places, State.runningIds, List.map_append, List.count_append, logged,
        List.map_nil, List.count_nil]
      omega
    · simp only [State.callPlaces, State.tellAll_ids]

theorem moved_abort (s : State) (signal : Nat) : Moved s (s.abort signal) :=
  (moved_rejectQueued s (fun job => job.signal = some signal) .cancelled).trans
    ⟨fun _ => rfl, fun _ => rfl, rfl, rfl, le_refl _⟩

theorem moved_release (s : State) (owner : DbOwner) : Moved s (s.release owner) := by
  unfold State.release
  split
  · split
    · exact ⟨fun _ => rfl, fun _ => rfl, rfl, rfl, Nat.le_succ _⟩
    · exact moved_releaseQueued s owner
  · exact moved_releaseQueued s owner

theorem runningIds_of_inTurn {s : State} (turning : inTurn s = true) : s.runningIds = [] := by
  simp only [inTurn, Bool.or_eq_true, decide_eq_true_eq] at turning
  rcases turning with here | here <;> simp [State.runningIds, here]

theorem step_counted {leaseMs : Int} {s s' : State} {action : Action} (counted : Counted s)
    (took : step leaseMs s action = some s') : Counted s' := by
  unfold step at took
  split at took
  · rename_i turning
    cases action with
    | turn now =>
        obtain rfl := Option.some.inj took
        exact counted.moved (moved_turn s leaseMs now (runningIds_of_inTurn turning))
    | _ => cases took
  · cases action with
    | run owner token signal =>
        dsimp only at took
        split at took
        · obtain rfl := Option.some.inj took
          exact counted.enqueue ..
        · cases took
    | begin owner signal =>
        obtain rfl := Option.some.inj took
        exact counted.enqueue ..
    | finish owner token =>
        dsimp only at took
        split at took
        · obtain rfl := Option.some.inj took
          exact counted.finish owner token
        · cases took
    | release owner =>
        obtain rfl := Option.some.inj took
        exact counted.moved (moved_release s owner)
    | close =>
        obtain rfl := Option.some.inj took
        exact counted.moved (moved_close s)
    | abort signal =>
        obtain rfl := Option.some.inj took
        exact counted.moved (moved_abort s signal)
    | timer =>
        obtain rfl := Option.some.inj took
        exact counted.moved (moved_callPump s)
    | turn now => cases took
    | workSettles ok => exact counted.moved (moved_workSettles took)
    | resume => exact counted.moved (moved_resume took)
    | rollbackSettles site ok => exact counted_rollbackSettles counted took
    | poisonSettles site => exact counted_poisonSettles counted took
    | finishResumes id => exact counted_finishResumes counted took
    | closeResumes => exact counted_closeResumes counted took

theorem counted_initial : Counted State.initial :=
  ⟨fun _ => rfl, fun _ => rfl, List.nodup_nil, List.nodup_nil, fun _ mem => (by cases mem),
    fun _ mem => (by cases mem)⟩

/-! ## What is left in the queue -/

/-- A pump at rest leaves nothing that may run; a closed coordinator has no queue. -/
structure Drained (s : State) : Prop where
  idle : s.pump = .idle → ∀ job ∈ s.queue, s.eligible job = false
  closed : s.closed = true → s.queue = []

/-- A shorter queue, where the pump does not come to rest and the transaction stays
while it rests. -/
theorem Drained.shrink {s s' : State} (drained : Drained s) (queue : s'.queue ⊆ s.queue)
    (idle : s'.pump = .idle → s.pump = .idle ∧ s'.active = s.active)
    (closed : s'.closed = true → s.closed = true) : Drained s' := by
  refine ⟨fun rest job mem => ?_, fun close => ?_⟩
  · obtain ⟨rested, same⟩ := idle rest
    rw [State.eligible, same]
    exact drained.idle rested job (queue mem)
  · exact List.eq_nil_iff_forall_not_mem.2 fun job mem => by
      have := queue mem
      rw [drained.closed (closed close)] at this
      cases this

section Drained

variable {s : State}

theorem Drained.keep {s' : State} (drained : Drained s) (queue : s'.queue = s.queue)
    (pump : s'.pump = s.pump) (active : s'.active = s.active) (closing : s'.closing = s.closing) :
    Drained s' := by
  refine drained.shrink (queue ▸ List.Subset.refl _) (fun rest => ⟨pump ▸ rest, active⟩) ?_
  rw [State.closed, closing]
  exact id

theorem Drained.busy {s' : State} (drained : Drained s) (queue : s'.queue ⊆ s.queue)
    (pump : s'.pump ≠ .idle) (closing : s'.closing = s.closing) : Drained s' := by
  refine drained.shrink queue (fun rest => absurd rest pump) ?_
  rw [State.closed, closing]
  exact id

theorem drained_rejectQueued (drained : Drained s) (p : Job → Bool) (reason : Rejection) :
    Drained (s.rejectQueued p reason) := by
  refine drained.shrink ?_ (fun rest => ?_) (fun close => ?_)
  · rw [State.rejectQueued_queue]
    exact List.filter_subset_self _
  · exact ⟨by simpa using rest, by simp⟩
  · simpa [State.closed] using close

theorem drained_poisonOwner (drained : Drained s) (owner : DbOwner) :
    Drained (s.poisonOwner owner) := by
  have failed : Drained { s with failedOwners := s.failedOwners ++ [ownerKey owner] } :=
    drained.keep rfl rfl rfl rfl
  exact drained_rejectQueued failed _ _

/-- The pump is called: what it may find in the queue is its own affair. -/
theorem drained_callPump (closed : s.closed = true → s.queue = []) : Drained s.callPump := by
  refine ⟨fun rest => ?_, fun close => ?_⟩
  · rw [State.callPump_pump] at rest
    split at rest
    · cases rest
    · contradiction
  · rw [State.callPump_queue]
    exact closed (by simpa [State.closed] using close)

theorem drained_releaseQueued (closed : s.closed = true → s.queue = []) (owner : DbOwner) :
    Drained (s.releaseQueued owner) := by
  refine drained_callPump fun close => ?_
  rw [State.rejectQueued_queue, closed (by simpa [State.closed] using close)]
  rfl

theorem drained_returnFinish (closed : s.closed = true → s.queue = []) (finish : Finish)
    (outcome : Outcome) : Drained (s.returnFinish finish outcome) := by
  refine drained_callPump fun close => ?_
  simp only [State.clearActive_queue, State.rejectQueued_queue]
  rw [closed (by simpa [State.closed] using close)]
  rfl

theorem drained_enqueue (drained : Drained s) (owner : DbOwner) (token : Option TxToken)
    (operation : Operation) (signal : Option Nat) :
    Drained (s.enqueue owner token operation signal) := by
  unfold State.enqueue
  dsimp only
  split
  · exact drained.keep rfl rfl rfl rfl
  · rename_i accepting
    split
    · exact drained.keep rfl rfl rfl rfl
    · split
      · exact drained.keep rfl rfl rfl rfl
      · split
        · exact drained.keep rfl rfl rfl rfl
        · exact drained_callPump fun close => absurd close accepting

theorem drained_finish (drained : Drained s) (owner : DbOwner) (token : TxToken) :
    Drained (s.finish owner token) := by
  unfold State.finish
  split
  · rename_i active _
    split
    · have awaiting : Drained (s.awaitFinish active) :=
        drained.keep rfl rfl rfl rfl
      exact drained_enqueue awaiting _ _ _ _
    · exact drained
  · exact drained

theorem drained_release (drained : Drained s) (owner : DbOwner) :
    Drained (s.release owner) := by
  unfold State.release
  split
  · split
    · exact drained.keep rfl rfl rfl rfl
    · exact drained_releaseQueued drained.closed owner
  · exact drained_releaseQueued drained.closed owner

theorem drained_close (drained : Drained s) : Drained s.close := by
  unfold State.close
  split
  · exact drained
  · dsimp only
    rw [State.settleJobs_eq]
    exact ⟨fun _ _ mem => (by cases mem), fun _ => rfl⟩

theorem start_pump (s : State) (leaseMs now : Int) (job : Job) :
    (s.start leaseMs now job).pump ≠ .idle ∧ (s.start leaseMs now job).queue = s.queue ∧
      (s.start leaseMs now job).closing = s.closing := by
  unfold State.start
  split <;> exact ⟨fun rest => (by cases rest), rfl, rfl⟩

theorem take_pump (s : State) (leaseMs now : Int) (job : Job) :
    (s.take leaseMs now job).pump ≠ .idle ∧ (s.take leaseMs now job).queue = s.queue ∧
      (s.take leaseMs now job).closing = s.closing := by
  unfold State.take
  split
  · exact ⟨fun rest => (by cases rest), rfl, rfl⟩
  · split
    · exact ⟨fun rest => (by cases rest), rfl, rfl⟩
    · exact start_pump s leaseMs now job

theorem drained_select (drained : Drained s) (leaseMs now : Int) :
    Drained (s.select leaseMs now) := by
  unfold State.select
  split
  · rename_i none
    refine ⟨fun _ job mem => ?_, drained.closed⟩
    have passed := List.find?_eq_none.1 none job mem
    rw [Bool.not_eq_true] at passed
    exact passed
  · rename_i job _
    obtain ⟨busy, queue, closing⟩ :=
      take_pump { s with queue := s.queue.eraseP s.eligible } leaseMs now job
    refine drained.shrink ?_ (fun rest => absurd rest busy) (fun close => ?_)
    · rw [queue]
      exact List.eraseP_subset
    · rw [State.closed, closing] at close
      exact close

theorem drained_turn (drained : Drained s) (leaseMs now : Int) :
    Drained (s.turn leaseMs now) := by
  unfold State.turn
  split
  · exact drained_select drained leaseMs now
  · split
    · rename_i close
      refine ⟨fun _ job mem => ?_, drained.closed⟩
      rw [show ({ s with pump := .idle } : State).queue = s.queue from rfl,
        drained.closed close] at mem
      cases mem
    · split
      · rename_i active _
        have rejected := drained_rejectQueued drained
          (fun job => job.token = some active.token) .expired
        exact rejected.busy (List.Subset.refl _) (fun rest => by cases rest) rfl
      · exact drained_select drained leaseMs now

theorem drained_workSettles {s' : State} {ok : Bool} (drained : Drained s)
    (settles : s.workSettles ok = some s') : Drained s' := by
  unfold State.workSettles at settles
  dsimp only at settles
  split at settles
  · rename_i job started _
    split at settles
    · split at settles <;> obtain rfl := Option.some.inj settles <;>
        exact drained.busy (List.Subset.refl _) (fun rest => by cases rest) rfl
    · obtain rfl := Option.some.inj settles
      have rejected := drained_rejectQueued drained
        (fun other => other.token = job.token) .tokenInvalid
      exact rejected.busy (List.Subset.refl _) (fun rest => by cases rest) rfl
    · obtain rfl := Option.some.inj settles
      exact drained.busy (List.Subset.refl _) (fun rest => by cases rest) rfl
  · cases settles

theorem drained_resume {s' : State} (drained : Drained s) (resumes : s.resume = some s') :
    Drained s' := by
  unfold State.resume at resumes
  split at resumes
  · obtain rfl := Option.some.inj resumes
    exact drained.busy (List.Subset.refl _) (fun rest => by cases rest) rfl
  · cases resumes

theorem drained_afterRollback {active : Active} {owner : DbOwner} {phase : RollbackPhase}
    (drained : Drained s) (site : State.Site)
    (here : s.rollbackAt site = some (active, owner, phase)) :
    Drained (s.afterRollback active site) := by
  have cleared : s.closed = true → (s.clearActive active).queue = [] := by
    intro close
    rw [State.clearActive_queue, drained.closed close]
  cases site with
  | pump =>
      simp only [State.afterRollback]
      split
      · exact ⟨fun rest => (by cases rest), fun close => cleared (by simpa [State.closed] using close)⟩
      · exact ⟨fun rest => (by cases rest), fun close => cleared (by simpa [State.closed] using close)⟩
  | finish id =>
      simp only [State.afterRollback]
      split
      · split
        · exact drained_returnFinish drained.closed _ _
        · exact drained
      · exact drained
  | release id =>
      simp only [State.afterRollback]
      split
      · refine drained_releaseQueued (fun close => ?_) _
        exact cleared (by simpa [State.closed] using close)
      · exact drained
  | close =>
      have close : s.closed = true := by
        simp only [State.rollbackAt] at here
        split at here
        · rename_i closing
          simp [State.closed, closing]
        · cases here
      refine ⟨fun _ job mem => ?_, fun _ => cleared close⟩
      simp only [State.afterRollback, cleared close] at mem
      cases mem

theorem drained_poisoning (drained : Drained s) (site : State.Site) :
    Drained (s.poisoning site) := by
  cases site with
  | pump =>
      simp only [State.poisoning]
      split
      · exact drained.busy (List.Subset.refl _) (fun rest => by cases rest) rfl
      · exact drained.busy (List.Subset.refl _) (fun rest => by cases rest) rfl
      · exact drained
  | finish id => exact drained.keep rfl rfl rfl rfl
  | release id => exact drained.keep rfl rfl rfl rfl
  | close =>
      simp only [State.poisoning]
      split
      · rename_i closing
        refine drained.shrink (List.Subset.refl _) (fun rest => ⟨rest, rfl⟩) fun _ => ?_
        simp [State.closed, closing]
      · exact drained

end Drained

theorem step_drained {leaseMs : Int} {s s' : State} {action : Action} (drained : Drained s)
    (took : step leaseMs s action = some s') : Drained s' := by
  unfold step at took
  split at took
  · cases action with
    | turn now =>
        obtain rfl := Option.some.inj took
        exact drained_turn drained leaseMs now
    | _ => cases took
  · cases action with
    | run owner token signal =>
        dsimp only at took
        split at took
        · obtain rfl := Option.some.inj took
          exact drained_enqueue drained ..
        · cases took
    | begin owner signal =>
        obtain rfl := Option.some.inj took
        exact drained_enqueue drained ..
    | finish owner token =>
        dsimp only at took
        split at took
        · obtain rfl := Option.some.inj took
          exact drained_finish drained owner token
        · cases took
    | release owner =>
        obtain rfl := Option.some.inj took
        exact drained_release drained owner
    | close =>
        obtain rfl := Option.some.inj took
        exact drained_close drained
    | abort signal =>
        obtain rfl := Option.some.inj took
        exact (drained_rejectQueued drained _ _).keep rfl rfl rfl rfl
    | timer =>
        obtain rfl := Option.some.inj took
        exact drained_callPump drained.closed
    | turn now => cases took
    | workSettles ok => exact drained_workSettles drained took
    | resume => exact drained_resume drained took
    | rollbackSettles site ok =>
        obtain ⟨⟨active, owner, phase⟩, here, settles⟩ := Option.bind_eq_some_iff.1 took
        dsimp only at settles
        split at settles
        · cases settles
        · split at settles
          · obtain rfl := Option.some.inj settles
            exact drained_afterRollback drained site here
          · obtain rfl := Option.some.inj settles
            exact drained_poisoning (drained_poisonOwner drained owner) site
    | poisonSettles site =>
        obtain ⟨⟨active, owner, phase⟩, here, settles⟩ := Option.bind_eq_some_iff.1 took
        dsimp only at settles
        split at settles
        · cases settles
        · obtain rfl := Option.some.inj settles
          exact drained_afterRollback drained site here
    | finishResumes id =>
        obtain ⟨finish, _, resumes⟩ := Option.bind_eq_some_iff.1 took
        split at resumes
        · dsimp only at resumes
          split at resumes
          · obtain rfl := Option.some.inj resumes
            exact drained.keep rfl rfl rfl rfl
          · obtain rfl := Option.some.inj resumes
            exact drained_returnFinish drained.closed _ _
        · cases resumes
    | closeResumes =>
        have took : s.closeResumes = some s' := took
        unfold State.closeResumes at took
        dsimp only at took
        split at took
        · cases took
        · rename_i waiting
          have closing : s.closing = .waiting := by
            simp only [Bool.or_eq_true, decide_eq_true_eq, not_or, not_not] at waiting
            exact waiting.1.1
          have close : s.closed = true := by simp [State.closed, closing]
          split at took <;> obtain rfl := Option.some.inj took <;>
            exact drained.shrink (List.Subset.refl _) (fun rest => ⟨rest, rfl⟩) fun _ => close

theorem drained_initial : Drained State.initial :=
  ⟨fun _ _ mem => (by cases mem), fun _ => rfl⟩

end Kiagent.Db.Coordinator
