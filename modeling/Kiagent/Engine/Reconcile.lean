/-
# Engine.Reconcile -- one pass against the source's listing

`reconcilePass` reads the head of the change log, stages the source's listing
ref by ref, takes the diff, and archives in chunks, each admitted on its own.
Commits of the account, the passes of other accounts, a restart of the database
connection and an abort may come between any two steps.

* `archives_only` -- a chunk archives documents that are old, live, not named by
  the listing and without a live parent that is named or newer, and the live
  children of those, whatever the listing says of a child;
* `Over.run` -- a pass that has ended, or was aborted while no chunk was admitted,
  archives nothing more;
* `reconcile_exact` -- with no commit in between, a completed pass archives all of
  them, whatever the chunks, unless the diff found none at the top level.
-/
import Kiagent.Store.Commit
import Kiagent.Store.Reconcile
import Kiagent.Theory.Runs

namespace Kiagent.Engine

open Kiagent.Theory
open Kiagent.Store

set_option autoImplicit false

/-! ## The mass-archive breaker -/

inductive AllowanceKind where
  | full
  | ratio
  deriving DecidableEq, Repr

def massArchiveMinDocs : Nat := 100

/-- Why a diff is refused.  More than half is `massArchiveRatio`. -/
def refusal (allowance : Option AllowanceKind) (c : ReconcileCounts) : Option String :=
  if allowance = some .full then none
  else if c.listedCount = 0 then some "the listing came back empty"
  else if allowance ≠ some .ratio ∧ massArchiveMinDocs < c.deletionCount ∧
      c.liveCount < 2 * c.deletionCount then some "the listing shrank suspiciously"
  else none

def refusalMessage (c : ReconcileCounts) (reason : String) : String :=
  reconcileErrorPrefix ++ "refusing to archive " ++ toString c.deletionCount ++ " of " ++
    toString c.liveCount ++ " documents (" ++ reason ++ "). If this shrinkage is real, " ++
    "re-save the account's settings to apply the cleanup."

def stagingLost (account : AccountId) : String :=
  "reconcile staging lost for " ++ account ++
    " — the DB connection restarted mid-pass; nothing archived"

/-! ## The pass -/

/-- How many refs are handed to the store at a time. -/
def reconcileStageBatch : Nat := 10000

inductive PassResult where
  | aborted
  | crashed
  /-- With the error recorded on the account. -/
  | finished (error : Option String)
  deriving DecidableEq, Repr

/-- Where a pass waits. -/
inductive PassPhase where
  | idle
  | starting (startSeq : Nat)
  /-- The refs not handed to the store yet. -/
  | draining (startSeq : Nat) (batch : List ExternalRef)
  | drained (startSeq : Nat)
  | diffing (startSeq : Nat)
  /-- Before the admission of the next chunk. -/
  | archiving (startSeq : Nat)
  | admitted (startSeq : Nat)
  | ended (result : PassResult)
  deriving DecidableEq, Repr

structure Pass where
  db : Db
  staging : Staging
  phase : PassPhase
  aborted : Bool
  /-- What the listing named so far; the pass keeps no such list. -/
  named : List ExternalRef

/-- What the pass of another account does to the staging. -/
inductive StagingOp where
  | start
  | stage (refs : List ExternalRef)
  | finish

def StagingOp.run (account : AccountId) (st : Staging) : StagingOp → Staging
  | .start => beginPass account st
  | .stage refs => (reconcileStage account refs st).getD st
  | .finish => endPass account st

inductive PassAct where
  | snapshot
  | start
  | list (r : ExternalRef)
  /-- The listing ends, or the drain stops at an abort. -/
  | drain
  | check
  | diff
  | permit
  | chunk (now : Time) (limit : Nat) (pick : List DocumentId)
  /-- The source or the store throws. -/
  | fail (message : String)
  /-- An admission is refused because of the abort. -/
  | stop
  | abort
  | respawn
  | other (account : AccountId) (op : StagingOp)
  | commit (now : Time) (publishedAt : Option Time) (batch : CommitBatch)

/-- A step of the pass itself. -/
def PassAct.own : PassAct → Bool
  | .commit .. => false
  | _ => true

section Step

variable (deps : Deps) (account : AccountId) (allowance : Option AllowanceKind)

def endWith (s : Pass) (result : PassResult) : Pass :=
  { s with staging := endPass account s.staging, phase := .ended result }

/-- One failure path for the whole pass; cancellation is not a failure. -/
def catchPass (s : Pass) (message : String) : Pass :=
  endWith account s
    (if s.aborted then .aborted else .finished (some (reconcileErrorPrefix ++ message)))

def stageBatch (s : Pass) (batch : List ExternalRef) (next : PassPhase) : Pass :=
  match reconcileStage account batch s.staging with
  | some staging => { s with staging, phase := next }
  | none => catchPass account s (stagingLost account)

def diffPass (s : Pass) (startSeq : Nat) : Pass :=
  match reconcileDiff s.db s.staging account startSeq with
  | none => catchPass account s (stagingLost account)
  | some counts =>
      if counts.deletionCount = 0 then endWith account s (.finished none)
      else match refusal allowance counts with
        | some reason => endWith account s (.finished (some (refusalMessage counts reason)))
        | none => { s with phase := .archiving startSeq }

/-- `none`: the store does not answer with these rows. -/
def chunkPass (s : Pass) (startSeq : Nat) (now : Time) (limit : Nat) (pick : List DocumentId) :
    Option Pass :=
  if requirePass account s.staging then
    (reconcileArchiveChunk now account startSeq limit pick s.db s.staging).map fun r =>
      { s with
        db := r.1, staging := r.2.1
        phase := if r.2.2 then .ended (.finished none) else .archiving startSeq }
  else some (catchPass account s (stagingLost account))

def passStep (s : Pass) : PassAct → Option Pass
  | .snapshot =>
      match s.phase with
      | .idle => some { s with phase := .starting s.db.changes.head }
      | _ => none
  | .start =>
      match s.phase with
      | .starting startSeq =>
          some { s with
            staging := beginPass account s.staging, phase := .draining startSeq [], named := [] }
      | _ => none
  | .list r =>
      match s.phase with
      | .draining startSeq batch =>
          let named := { s with named := s.named ++ [r] }
          if batch.length + 1 < reconcileStageBatch then
            some { named with phase := .draining startSeq (batch ++ [r]) }
          else some (stageBatch account named (batch ++ [r]) (.draining startSeq []))
      | _ => none
  | .drain =>
      match s.phase with
      | .draining startSeq batch =>
          if batch = [] then some { s with phase := .drained startSeq }
          else some (stageBatch account s batch (.drained startSeq))
      | _ => none
  | .check =>
      match s.phase with
      | .drained startSeq =>
          -- A partial listing: never diff off it.
          if s.aborted then some (endWith account s .aborted)
          else some { s with phase := .diffing startSeq }
      | _ => none
  | .diff =>
      match s.phase with
      | .diffing startSeq => some (diffPass account allowance s startSeq)
      | _ => none
  | .permit =>
      match s.phase with
      | .archiving startSeq => if s.aborted then none else some { s with phase := .admitted startSeq }
      | _ => none
  | .chunk now limit pick =>
      match s.phase with
      | .admitted startSeq => chunkPass account s startSeq now limit pick
      | _ => none
  | .fail message =>
      match s.phase with
      | .idle | .starting _ => some { s with phase := .ended .crashed }
      | .draining .. | .diffing _ | .admitted _ => some (catchPass account s message)
      | _ => none
  | .stop =>
      match s.phase with
      | .archiving _ => if s.aborted then some (catchPass account s "aborted") else none
      | _ => none
  | .abort => some { s with aborted := true }
  | .respawn => some { s with staging := none }
  | .other a op => if a = account then none else some { s with staging := op.run a s.staging }
  | .commit now publishedAt batch =>
      match commitTx deps now publishedAt batch s.db with
      | .ok r => some { s with db := r.1 }
      | .error _ => none

end Step

/-- Before any pass step; the connection may hold anything. -/
def Pass.start (db : Db) (staging : Staging) : Pass := ⟨db, staging, .idle, false, []⟩

/-! ## What a chunk may archive -/

/-- A live document of the account, no newer than the snapshot and not named, without a
live parent that is newer or named. -/
structure Gone (account : AccountId) (named : List ExternalRef) (startSeq : Nat) (db : Db)
    (d : DocRow) : Prop where
  mem : d ∈ db.documents
  own : d.accountId = account
  live : d.live = true
  old : d.seq ≤ startSeq
  unnamed : d.ref ∉ named
  loose : ∀ p ∈ db.documents, d.parentId = some p.id → p.live = true → p.accountId = account →
    p.seq ≤ startSeq ∧ p.ref ∉ named

/-- Such a document, or a document that hangs from one. -/
def Reached (account : AccountId) (named : List ExternalRef) (startSeq : Nat) (db : Db)
    (d : DocRow) : Prop :=
  Gone account named startSeq db d ∨
    ∃ p, Gone account named startSeq db p ∧ d.parentId = some p.id

section Listing

variable {account : AccountId} {named : List ExternalRef} {startSeq : Nat} {db : Db}
  {st : Staging} (complete : ∀ r, r ∈ named ↔ (account, r) ∈ Staging.listing st)

include complete

theorem listed_iff {d : DocRow} (own : d.accountId = account) :
    listed st d = true ↔ d.ref ∈ named := by
  rw [listed, decide_eq_true_iff, own, complete]

/-- A row the chunk may take is one of these. -/
theorem gone_of_unlisted {d : DocRow} (mem : d ∈ db.documents)
    (old : eligible account startSeq d = true) (out : unlisted db st startSeq d = true) :
    Gone account named startSeq db d := by
  simp only [eligible, Bool.and_eq_true, decide_eq_true_eq] at old
  simp only [unlisted, keptByParent, Bool.and_eq_true, Bool.not_eq_true', List.any_eq_false] at out
  obtain ⟨⟨own, live⟩, low⟩ := old
  refine ⟨mem, own, live, low, fun there => ?_, fun p there parent live' own' => ?_⟩
  · rw [(listed_iff complete own).2 there] at out
    exact absurd out.1 (by simp)
  · have kept := out.2 p there
    simp only [parent, live', Bool.or_eq_true, decide_eq_true_eq,
      listed_iff complete own'] at kept
    exact ⟨Nat.le_of_not_lt fun newer => kept ⟨⟨trivial, trivial⟩, .inl newer⟩,
      fun named => kept ⟨⟨trivial, trivial⟩, .inr named⟩⟩

/-- One of these is a row the chunk may take, when parents are in the account. -/
theorem unlisted_of_gone {d : DocRow} (gone : Gone account named startSeq db d)
    (same : ∀ p ∈ db.documents, d.parentId = some p.id → p.accountId = account) :
    eligible account startSeq d = true ∧ unlisted db st startSeq d = true := by
  constructor
  · simp [eligible, gone.own, gone.live, gone.old]
  · have out : listed st d = false := by
      rw [Bool.eq_false_iff, ne_eq, listed_iff complete gone.own]
      exact gone.unnamed
    simp only [unlisted, keptByParent, out, Bool.not_false, Bool.true_and, Bool.not_eq_true',
      List.any_eq_false]
    intro p there kept
    simp only [Bool.and_eq_true, decide_eq_true_eq, Bool.or_eq_true] at kept
    obtain ⟨⟨parent, live⟩, protects⟩ := kept
    have own := same p there parent
    obtain ⟨low, unnamed⟩ := gone.loose p there parent live own
    rw [listed_iff complete own] at protects
    rcases protects with newer | there'
    · exact absurd low (Nat.not_le.2 newer)
    · exact unnamed there'

end Listing

/-! ## The staging is the listing -/

/-- The refs still on the engine's side, while the listing is in use. -/
def PassPhase.awaiting : PassPhase → Option (List ExternalRef)
  | .draining _ batch => some batch
  | .drained _ | .diffing _ | .archiving _ | .admitted _ => some []
  | _ => none

/-- A connection that still has the pass's marker has everything handed to it. -/
def Staged (account : AccountId) (s : Pass) : Prop :=
  ∀ rest, s.phase.awaiting = some rest → requirePass account s.staging = true →
    ∀ r, r ∈ s.named ↔ (account, r) ∈ Staging.listing s.staging ∨ r ∈ rest

section Invariant

variable {deps : Deps} {account : AccountId} {allowance : Option AllowanceKind}

theorem staged_ended (s : Pass) (result : PassResult) : Staged account (endWith account s result) :=
  fun _ awaits => nomatch awaits

theorem staged_catch (s : Pass) (message : String) :
    Staged account (catchPass account s message) :=
  staged_ended s _

/-- Handing a batch over leaves nothing on the engine's side. -/
theorem staged_batch {s : Pass} {batch : List ExternalRef} {next : PassPhase}
    (staged : requirePass account s.staging = true →
      ∀ r, r ∈ s.named ↔ (account, r) ∈ Staging.listing s.staging ∨ r ∈ batch)
    (awaits : next.awaiting = some []) : Staged account (stageBatch account s batch next) := by
  unfold stageBatch
  split
  · rename_i st stored
    obtain ⟨there, -, listing⟩ := reconcileStage_some stored
    intro rest awaits' _ r
    obtain rfl : [] = rest := Option.some.inj (awaits.symm.trans awaits')
    rw [staged there r, listing]
    simp
  · exact staged_catch _ _

/-- A pass of another account leaves this one's marker and refs as they are. -/
theorem other_staging {a : AccountId} (ne : a ≠ account) (op : StagingOp) (st : Staging)
    (there : requirePass account (op.run a st) = true) :
    requirePass account st = true ∧
      ∀ r, (account, r) ∈ Staging.listing (op.run a st) ↔ (account, r) ∈ Staging.listing st := by
  have off : ¬ account = a := fun h => ne h.symm
  cases op with
  | start =>
      rw [StagingOp.run, requirePass_begin] at there
      refine ⟨by simpa [off] using there, fun r => ?_⟩
      rw [StagingOp.run, mem_beginPass]
      simp [off]
  | stage refs =>
      rw [StagingOp.run] at there ⊢
      cases stored : reconcileStage a refs st with
      | none =>
          rw [stored] at there
          exact ⟨there, fun _ => Iff.rfl⟩
      | some st' =>
          obtain ⟨-, passes, listing⟩ := reconcileStage_some stored
          rw [stored, Option.getD_some, passes] at there
          refine ⟨there, fun r => ?_⟩
          rw [Option.getD_some, listing]
          simp [off]
  | finish =>
      rw [StagingOp.run, requirePass_end] at there
      refine ⟨by simpa [off] using there, fun r => ?_⟩
      rw [StagingOp.run, mem_endPass]
      simp [off]

/-- **What a step other than a commit can do**: something outside the pass, a failure, or
the pass's next step. -/
inductive Moved (account : AccountId) (s : Pass) : Pass → Prop where
  | around (s' : Pass) (db : s'.db = s.db) (phase : s'.phase = s.phase) (named : s'.named = s.named)
      (aborted : s.aborted = true → s'.aborted = true)
      (staging : requirePass account s'.staging = true → requirePass account s.staging = true ∧
        ∀ r, (account, r) ∈ Staging.listing s'.staging ↔ (account, r) ∈ Staging.listing s.staging) :
      Moved account s s'
  | failed (s' : Pass) (result : PassResult) (ne : result ≠ .finished none) (db : s'.db = s.db)
      (phase : s'.phase = .ended result) (before : ∀ r, s.phase ≠ .ended r) : Moved account s s'
  | snapshot (phase : s.phase = .idle) :
      Moved account s { s with phase := .starting s.db.changes.head }
  | start (startSeq : Nat) (phase : s.phase = .starting startSeq) :
      Moved account s { s with
        staging := beginPass account s.staging, phase := .draining startSeq [], named := [] }
  | drain (s' : Pass) (startSeq : Nat) (batch : List ExternalRef)
      (phase : s.phase = .draining startSeq batch) (db : s'.db = s.db)
      (aborted : s'.aborted = s.aborted)
      (next : s'.phase = .drained startSeq ∨ ∃ batch', s'.phase = .draining startSeq batch')
      (staged : Staged account s → Staged account s') : Moved account s s'
  | check (startSeq : Nat) (phase : s.phase = .drained startSeq) :
      Moved account s { s with phase := .diffing startSeq }
  | clean (startSeq : Nat) (phase : s.phase = .diffing startSeq) (counts : ReconcileCounts)
      (found : reconcileDiff s.db s.staging account startSeq = some counts)
      (gone : counts.deletionCount = 0) : Moved account s (endWith account s (.finished none))
  | archive (startSeq : Nat) (phase : s.phase = .diffing startSeq) (counts : ReconcileCounts)
      (found : reconcileDiff s.db s.staging account startSeq = some counts)
      (gone : counts.deletionCount ≠ 0) : Moved account s { s with phase := .archiving startSeq }
  | permit (startSeq : Nat) (phase : s.phase = .archiving startSeq) (calm : s.aborted = false) :
      Moved account s { s with phase := .admitted startSeq }
  | chunk (startSeq : Nat) (phase : s.phase = .admitted startSeq) (now : Time) (limit : Nat)
      (pick : List DocumentId) (there : requirePass account s.staging = true)
      (may : mayPick (candidates s.db s.staging account startSeq) limit pick = true) :
      Moved account s { s with
        db := archiveBatch now s.db pick
        staging := if pick.length < limit then endPass account s.staging else s.staging
        phase := if pick.length < limit then .ended (.finished none) else .archiving startSeq }

theorem moved_catch {s : Pass} (message : String) (before : ∀ r, s.phase ≠ .ended r) :
    Moved account s (catchPass account s message) := by
  refine .failed _ (if s.aborted then .aborted else .finished (some _)) ?_ rfl rfl before
  split <;> simp

/-- Handing a batch over goes on with the drain, or fails. -/
theorem moved_batch {s t : Pass} {startSeq : Nat} {batch handed : List ExternalRef}
    {next : PassPhase} (phase : s.phase = .draining startSeq batch) (db : t.db = s.db)
    (aborted : t.aborted = s.aborted)
    (whole : Staged account s → requirePass account t.staging = true →
      ∀ r, r ∈ t.named ↔ (account, r) ∈ Staging.listing t.staging ∨ r ∈ handed)
    (next' : next = .drained startSeq ∨ next = .draining startSeq []) :
    Moved account s (stageBatch account t handed next) := by
  have awaits : next.awaiting = some [] := by
    rcases next' with rfl | rfl <;> rfl
  have staged : Staged account s → Staged account (stageBatch account t handed next) :=
    fun before => staged_batch (whole before) awaits
  unfold stageBatch at staged ⊢
  split
  · rename_i st stored
    rw [stored] at staged
    refine .drain _ startSeq batch phase db aborted ?_ staged
    exact next'.imp_right fun here => ⟨[], here⟩
  · refine .failed _ (if t.aborted then .aborted else .finished (some _)) ?_ db rfl
      (by simp [phase])
    split <;> simp

theorem passStep_moved {s s' : Pass} {act : PassAct} (own : act.own = true)
    (stepped : passStep deps account allowance s act = some s') : Moved account s s' := by
  cases act with
  | snapshot =>
      simp only [passStep] at stepped
      split at stepped
      · rename_i phase
        obtain rfl := Option.some.inj stepped
        exact .snapshot phase
      · cases stepped
  | start =>
      simp only [passStep] at stepped
      split at stepped
      · rename_i startSeq phase
        obtain rfl := Option.some.inj stepped
        exact .start startSeq phase
      · cases stepped
  | list r =>
      simp only [passStep] at stepped
      split at stepped
      · rename_i startSeq batch phase
        have grown : Staged account s → requirePass account s.staging = true →
            ∀ r', r' ∈ s.named ++ [r] ↔
              (account, r') ∈ Staging.listing s.staging ∨ r' ∈ batch ++ [r] := by
          intro staged there r'
          rw [List.mem_append, List.mem_append, staged batch (by rw [phase]; rfl) there r', or_assoc]
        split at stepped
        · obtain rfl := Option.some.inj stepped
          refine .drain _ startSeq batch phase rfl rfl (.inr ⟨batch ++ [r], rfl⟩) ?_
          intro staged rest awaits there r'
          obtain rfl := Option.some.inj awaits
          exact grown staged there r'
        · obtain rfl := Option.some.inj stepped
          exact moved_batch phase rfl rfl grown (.inr rfl)
      · cases stepped
  | drain =>
      simp only [passStep] at stepped
      split at stepped
      · rename_i startSeq batch phase
        have whole := fun staged : Staged account s => staged batch (by rw [phase]; rfl)
        split at stepped
        · rename_i empty
          obtain rfl := Option.some.inj stepped
          rw [empty] at whole
          refine .drain _ startSeq batch phase rfl rfl (.inl rfl) fun staged rest awaits there r => ?_
          obtain rfl := Option.some.inj awaits
          exact whole staged there r
        · obtain rfl := Option.some.inj stepped
          exact moved_batch phase rfl rfl whole (.inl rfl)
      · cases stepped
  | check =>
      simp only [passStep] at stepped
      split at stepped
      · rename_i startSeq phase
        split at stepped
        · obtain rfl := Option.some.inj stepped
          exact .failed _ .aborted (by simp) rfl rfl (by simp [phase])
        · obtain rfl := Option.some.inj stepped
          exact .check startSeq phase
      · cases stepped
  | diff =>
      simp only [passStep] at stepped
      split at stepped
      · rename_i startSeq phase
        obtain rfl := Option.some.inj stepped
        unfold diffPass
        cases found : reconcileDiff s.db s.staging account startSeq with
        | none => exact moved_catch _ (by simp [phase])
        | some counts =>
            by_cases gone : counts.deletionCount = 0
            · simp only [if_pos gone]
              exact .clean startSeq phase counts found gone
            · simp only [if_neg gone]
              split
              · exact .failed _ _ (by simp) rfl rfl (by simp [phase])
              · exact .archive startSeq phase counts found gone
      · cases stepped
  | permit =>
      simp only [passStep] at stepped
      split at stepped
      · rename_i startSeq phase
        split at stepped
        · cases stepped
        · rename_i calm
          obtain rfl := Option.some.inj stepped
          exact .permit startSeq phase (by simpa using calm)
      · cases stepped
  | chunk now limit pick =>
      simp only [passStep] at stepped
      split at stepped
      · rename_i startSeq phase
        unfold chunkPass at stepped
        split at stepped
        · rename_i there
          obtain ⟨r, answered, rfl⟩ := Option.map_eq_some_iff.1 stepped
          simp only [reconcileArchiveChunk, there, Bool.true_and, Option.ite_none_right_eq_some,
            Option.some.injEq] at answered
          obtain ⟨may, rfl⟩ := answered
          have moved := Moved.chunk startSeq phase now limit pick there may
          by_cases short : pick.length < limit <;> simpa [short] using moved
        · obtain rfl := Option.some.inj stepped
          exact moved_catch _ (by simp [phase])
      · cases stepped
  | fail message =>
      simp only [passStep] at stepped
      split at stepped
      · rename_i phase
        obtain rfl := Option.some.inj stepped
        exact .failed _ .crashed (by simp) rfl rfl (by simp [phase])
      · rename_i phase
        obtain rfl := Option.some.inj stepped
        exact .failed _ .crashed (by simp) rfl rfl (by simp [phase])
      · rename_i phase
        obtain rfl := Option.some.inj stepped
        exact moved_catch _ (by simp [phase])
      · rename_i phase
        obtain rfl := Option.some.inj stepped
        exact moved_catch _ (by simp [phase])
      · rename_i phase
        obtain rfl := Option.some.inj stepped
        exact moved_catch _ (by simp [phase])
      · cases stepped
  | stop =>
      simp only [passStep] at stepped
      split at stepped
      · rename_i phase
        split at stepped
        · obtain rfl := Option.some.inj stepped
          exact moved_catch _ (by simp [phase])
        · cases stepped
      · cases stepped
  | abort =>
      obtain rfl := Option.some.inj stepped
      exact .around _ rfl rfl rfl (fun _ => rfl) fun there => ⟨there, fun _ => Iff.rfl⟩
  | respawn =>
      obtain rfl := Option.some.inj stepped
      exact .around _ rfl rfl rfl id fun there => nomatch there
  | other a op =>
      simp only [passStep] at stepped
      split at stepped
      · cases stepped
      · rename_i ne
        obtain rfl := Option.some.inj stepped
        exact .around _ rfl rfl rfl id (other_staging ne op s.staging)
  | commit now publishedAt batch => cases own

/-- A commit changes the documents only. -/
theorem passStep_commit {s s' : Pass} {act : PassAct} (foreign : act.own = false)
    (stepped : passStep deps account allowance s act = some s') :
    s'.staging = s.staging ∧ s'.phase = s.phase ∧ s'.aborted = s.aborted ∧ s'.named = s.named := by
  cases act with
  | commit now publishedAt batch =>
      simp only [passStep] at stepped
      split at stepped
      · obtain rfl := Option.some.inj stepped
        exact ⟨rfl, rfl, rfl, rfl⟩
      · cases stepped
  | _ => cases foreign

/-- After the drain the connection that has the marker has the whole listing. -/
theorem Staged.complete {s : Pass} (staged : Staged account s) (awaits : s.phase.awaiting = some [])
    (there : requirePass account s.staging = true) (r : ExternalRef) :
    r ∈ s.named ↔ (account, r) ∈ Staging.listing s.staging := by
  rw [staged [] awaits there r]
  simp

theorem Staged.step {s s' : Pass} {act : PassAct} (staged : Staged account s)
    (stepped : passStep deps account allowance s act = some s') : Staged account s' := by
  cases own : act.own with
  | false =>
      obtain ⟨staging, phase, -, named⟩ := passStep_commit own stepped
      unfold Staged
      rw [staging, phase, named]
      exact staged
  | true =>
      -- The phases after the drain await nothing, so the listing is compared as it is.
      have forward : ∀ {phase phase' : PassPhase}, s.phase = phase → phase.awaiting = some [] →
          phase'.awaiting = some [] → Staged account { s with phase := phase' } := by
        intro phase phase' here awaits awaits' rest after there
        obtain rfl := Option.some.inj (awaits'.symm.trans after)
        exact staged [] (by rw [here]; exact awaits) there
      cases passStep_moved own stepped with
      | around _ db phase named aborted staging =>
          intro rest awaits there r
          obtain ⟨before, listing⟩ := staging there
          rw [named, listing]
          exact staged rest (by rw [← phase]; exact awaits) before r
      | failed _ result ne db phase =>
          intro rest awaits
          rw [phase] at awaits
          cases awaits
      | snapshot => exact fun _ awaits => nomatch awaits
      | start =>
          intro rest awaits _ r
          obtain rfl := Option.some.inj awaits
          simp [mem_beginPass]
      | drain _ startSeq batch phase db aborted next kept => exact kept staged
      | check startSeq phase => exact forward phase rfl rfl
      | clean => exact staged_ended s _
      | archive startSeq phase => exact forward phase rfl rfl
      | permit startSeq phase => exact forward phase rfl rfl
      | chunk startSeq phase now limit pick there may =>
          by_cases short : pick.length < limit
          · simp only [if_pos short]
            exact fun _ awaits => nomatch awaits
          · simp only [if_neg short]
            intro rest awaits there'
            obtain rfl := Option.some.inj awaits
            exact staged [] (by rw [phase]; rfl) there'

/-! ## Safety -/

/-- A pass that has ended, or was aborted while no chunk was admitted. -/
def Over (s : Pass) : Prop :=
  (∃ result, s.phase = .ended result) ∨ s.aborted = true ∧ ∀ startSeq, s.phase ≠ .admitted startSeq

theorem Over.step {s s' : Pass} {act : PassAct} (passed : Over s)
    (stepped : passStep deps account allowance s act = some s') : Over s' := by
  cases own : act.own with
  | false =>
      obtain ⟨-, phase, aborted, -⟩ := passStep_commit own stepped
      unfold Over
      rw [phase, aborted]
      exact passed
  | true =>
      -- The pass goes on from no phase it has ended in.
      have going : ∀ {phase : PassPhase}, s.phase = phase → (∀ result, phase ≠ .ended result) →
          s.aborted = true := fun here open' =>
        (passed.resolve_left fun ⟨result, ended⟩ => open' result (here.symm.trans ended)).1
      cases passStep_moved own stepped with
      | around _ db phase named aborted =>
          unfold Over
          rw [phase]
          exact passed.imp_right fun ⟨stopped, before⟩ => ⟨aborted stopped, before⟩
      | failed _ result ne db phase => exact .inl ⟨result, phase⟩
      | snapshot phase => exact .inr ⟨going phase nofun, nofun⟩
      | start startSeq phase => exact .inr ⟨going phase nofun, nofun⟩
      | drain _ startSeq batch phase db aborted next =>
          refine .inr ⟨aborted.trans (going phase nofun), fun q here => ?_⟩
          rcases next with next | ⟨_, next⟩ <;> rw [next] at here <;> cases here
      | check startSeq phase => exact .inr ⟨going phase nofun, nofun⟩
      | clean => exact .inl ⟨_, rfl⟩
      | archive startSeq phase => exact .inr ⟨going phase nofun, nofun⟩
      | permit startSeq phase calm =>
          rw [going phase nofun] at calm
          cases calm
      | chunk startSeq phase =>
          rcases passed with ⟨result, ended⟩ | ⟨-, before⟩
          · rw [phase] at ended
            cases ended
          · exact absurd phase (before startSeq)

/-- What a step of the pass archives. -/
theorem archives_only {s s' : Pass} {act : PassAct} (staged : Staged account s)
    (own : act.own = true) (stepped : passStep deps account allowance s act = some s') :
    s'.db = s.db ∨ ∃ startSeq gone, s.phase = .admitted startSeq ∧ Archived gone s.db s'.db ∧
      ∀ d ∈ s.db.documents, d.id ∈ gone → Reached account s.named startSeq s.db d := by
  cases passStep_moved own stepped with
  | around _ db => exact .inl db
  | failed _ result ne db => exact .inl db
  | drain _ startSeq batch phase db => exact .inl db
  | chunk startSeq phase now limit pick there may =>
      have complete := staged.complete (by rw [phase]; rfl) there
      have picked : ∀ id ∈ pick, ∃ d, d.id = id ∧ Gone account s.named startSeq s.db d := by
        intro id mem
        obtain ⟨d, there, same, old, out⟩ := mem_candidates.1 (mayPick_mem may mem)
        exact ⟨d, same, gone_of_unlisted complete there old out⟩
      refine .inr ⟨startSeq, _, phase, archiveBatch_archived now pick s.db, ?_⟩
      rintro d mem (here | ⟨d', mem', same, live, p, hangs, parent⟩)
      · obtain ⟨d', same, gone⟩ := picked d.id here
        rw [id_injective mem gone.mem same.symm]
        exact .inl gone
      · obtain ⟨p', rfl, gone⟩ := picked p hangs
        rw [← id_injective mem' mem same]
        exact .inr ⟨p', gone, parent⟩
  | _ => exact .inl rfl

/-- A pass that is over archives nothing more. -/
theorem Over.archives_nothing {s s' : Pass} {act : PassAct} (passed : Over s) (own : act.own = true)
    (stepped : passStep deps account allowance s act = some s') : s'.db = s.db := by
  cases passStep_moved own stepped with
  | around _ db => exact db
  | failed _ result ne db => exact db
  | drain _ startSeq batch phase db => exact db
  | chunk startSeq phase =>
      rcases passed with ⟨result, ended⟩ | ⟨-, before⟩
      · rw [phase] at ended
        cases ended
      · exact absurd phase (before startSeq)
  | _ => rfl

/-! ## Exactness -/

/-- Documents hang one level deep, from documents of their own account. -/
def OneLevel (db : Db) : Prop :=
  ∀ d ∈ db.documents, ∀ p ∈ db.documents, d.parentId = some p.id →
    p.accountId = d.accountId ∧ p.parentId = none

/-- The ids of what a chunk may archive. -/
def goneIds (account : AccountId) (named : List ExternalRef) (startSeq : Nat) (db : Db) :
    Set DocumentId :=
  {id | ∃ d, d.id = id ∧ Gone account named startSeq db d}

/-- The diff finds a deletion at the top level. -/
def TopGone (account : AccountId) (named : List ExternalRef) (startSeq : Nat) (db : Db) : Prop :=
  ∃ d, Gone account named startSeq db d ∧ d.parentId = none

/-- What has become of the documents while nothing else was committed. -/
def Undisturbed (account : AccountId) (db : Db) (s : Pass) : Prop :=
  match s.phase with
  | .idle => s.db = db
  | .starting startSeq | .draining startSeq _ | .drained startSeq | .diffing startSeq =>
      s.db = db ∧ startSeq = db.changes.head
  | .archiving startSeq | .admitted startSeq =>
      startSeq = db.changes.head ∧ TopGone account s.named startSeq db ∧
        ∃ picked ⊆ goneIds account s.named startSeq db, Archived (cascaded db picked) db s.db
  | .ended (.finished none) =>
      s.db = db ∧ ¬ TopGone account s.named db.changes.head db ∨
        TopGone account s.named db.changes.head db ∧
          Archived (cascaded db (goneIds account s.named db.changes.head db)) db s.db
  | .ended _ => True

theorem reconcileDiff_requires {db : Db} {st : Staging} {startSeq : Nat} {counts : ReconcileCounts}
    (found : reconcileDiff db st account startSeq = some counts) : requirePass account st = true := by
  unfold reconcileDiff at found
  split at found
  · assumption
  · cases found

/-- The count is of the deletions at the top level. -/
theorem deletionCount_eq_zero {named : List ExternalRef} {startSeq : Nat} {db : Db} {st : Staging}
    {counts : ReconcileCounts} (complete : ∀ r, r ∈ named ↔ (account, r) ∈ Staging.listing st)
    (found : reconcileDiff db st account startSeq = some counts) :
    counts.deletionCount = 0 ↔ ¬ TopGone account named startSeq db := by
  unfold reconcileDiff at found
  split at found
  · obtain rfl := Option.some.inj found
    simp only [List.length_eq_zero_iff, List.filter_eq_nil_iff, List.mem_filter,
      Bool.and_eq_true, Option.isNone_iff_eq_none]
    constructor
    · rintro noneGone ⟨d, gone, top⟩
      obtain ⟨old, out⟩ := unlisted_of_gone complete gone fun p _ parent => by
        rw [top] at parent
        cases parent
      exact noneGone d ⟨gone.mem, old, top⟩ out
    · rintro noTop d ⟨mem, old, top⟩ out
      exact noTop ⟨d, gone_of_unlisted complete mem old out, top⟩
  · cases found

section Chunk

variable {named : List ExternalRef} {startSeq : Nat} {db db' : Db} {st : Staging}
  {picked : Set DocumentId}

/-- **What is left to archive is what was to archive and has not gone**, since nothing
that went protected a document. -/
theorem candidates_iff (complete : ∀ r, r ∈ named ↔ (account, r) ∈ Staging.listing st)
    (level : OneLevel db) (sub : picked ⊆ goneIds account named startSeq db)
    (archived : Archived (cascaded db picked) db db') {id : DocumentId} :
    id ∈ candidates db' st account startSeq ↔
      id ∈ goneIds account named startSeq db ∧ id ∉ cascaded db picked := by
  rw [mem_candidates]
  constructor
  · rintro ⟨d, mem, rfl, old, out⟩
    have gone := gone_of_unlisted complete mem old out
    obtain ⟨mem₀, kept⟩ := archived.origin_live mem gone.live
    refine ⟨⟨d, rfl, mem₀, gone.own, gone.live, gone.old, gone.unnamed, ?_⟩, kept⟩
    intro p there parent live own
    by_cases went : p.id ∈ cascaded db picked
    · rcases went with here | ⟨p', there', same, -, q, hangs, parent'⟩
      · obtain ⟨p', same, gone'⟩ := sub here
        rw [id_injective there gone'.mem same.symm]
        exact ⟨gone'.old, gone'.unnamed⟩
      · -- A child that went has no child of its own.
        have top := (level d mem₀ p there parent).2
        rw [← id_injective there' there same, parent'] at top
        cases top
    · obtain ⟨p', there', -, -, -, -, same⟩ := archived.row there
      have same := same went
      subst same
      exact gone.loose p' there' parent live own
  · rintro ⟨⟨d, rfl, gone⟩, kept⟩
    obtain ⟨d', mem, -, -, -, -, same⟩ := archived.row gone.mem
    have same := same kept
    subst same
    have gone' : Gone account named startSeq db' d' := by
      refine ⟨mem, gone.own, gone.live, gone.old, gone.unnamed, fun p there parent live own => ?_⟩
      exact gone.loose p (archived.origin_live there live).1 parent live own
    refine ⟨d', mem, rfl, unlisted_of_gone complete gone' fun p there parent => ?_⟩
    obtain ⟨p', there', id, natural, -, -, -⟩ := archived.origin there
    have own := (level d' gone.mem p' there' (by rw [← id]; exact parent)).1
    exact ((Prod.mk.inj natural).1.trans own).trans gone.own

/-- Once all of it was picked or went along, all of it has gone. -/
theorem cascaded_all (level : OneLevel db) {more : Set DocumentId}
    (sub : picked ∪ more ⊆ goneIds account named startSeq db)
    (all : ∀ id ∈ goneIds account named startSeq db, id ∈ cascaded db picked ∨ id ∈ more) :
    cascaded db (picked ∪ more) = cascaded db (goneIds account named startSeq db) := by
  refine Set.Subset.antisymm (cascaded_mono db sub) ?_
  rintro id (here | ⟨d, mem, rfl, live, p, hangs, parent⟩)
  · rcases all id here with early | late
    · exact cascaded_mono db Set.subset_union_left early
    · exact .inl (.inr late)
  · rcases all p hangs with (early | ⟨p', mem', rfl, -, q, -, parent'⟩) | late
    · exact .inr ⟨d, mem, rfl, live, p, .inl early, parent⟩
    · have top := (level d mem p' mem' parent).2
      rw [parent'] at top
      cases top
    · exact .inr ⟨d, mem, rfl, live, p, .inr late, parent⟩

end Chunk

/-- With no commit in between, every step goes on from where the documents were. -/
theorem Undisturbed.step {db : Db} {s s' : Pass} {act : PassAct} (level : OneLevel db)
    (staged : Staged account s) (calm : Undisturbed account db s) (own : act.own = true)
    (stepped : passStep deps account allowance s act = some s') : Undisturbed account db s' := by
  cases passStep_moved own stepped with
  | around _ same phase named =>
      unfold Undisturbed at calm ⊢
      rw [phase, same, named]
      exact calm
  | failed _ result ne same phase =>
      unfold Undisturbed
      rw [phase]
      cases result with
      | aborted => trivial
      | crashed => trivial
      | finished error =>
          cases error with
          | none => exact absurd rfl ne
          | some message => trivial
  | snapshot phase =>
      unfold Undisturbed at calm
      rw [phase] at calm
      exact ⟨calm, congrArg (SeqLog.head ∘ Db.changes) calm⟩
  | start startSeq phase =>
      unfold Undisturbed at calm
      rw [phase] at calm
      exact calm
  | drain _ startSeq batch phase same aborted next =>
      unfold Undisturbed at calm ⊢
      rw [phase] at calm
      rcases next with next | ⟨batch', next⟩ <;> rw [next, same] <;> exact calm
  | check startSeq phase =>
      unfold Undisturbed at calm
      rw [phase] at calm
      exact calm
  | clean startSeq phase counts found noDeletion =>
      have complete := staged.complete (by rw [phase]; rfl) (reconcileDiff_requires found)
      unfold Undisturbed at calm
      rw [phase] at calm
      obtain ⟨same, rfl⟩ := calm
      rw [same] at found
      exact .inl ⟨same, (deletionCount_eq_zero complete found).1 noDeletion⟩
  | archive startSeq phase counts found deletions =>
      have complete := staged.complete (by rw [phase]; rfl) (reconcileDiff_requires found)
      unfold Undisturbed at calm
      rw [phase] at calm
      obtain ⟨same, rfl⟩ := calm
      rw [same] at found
      have top := fun noTop => deletions ((deletionCount_eq_zero complete found).2 noTop)
      have nothing : cascaded db ∅ = ∅ := by
        ext id
        simp [cascaded]
      refine ⟨rfl, not_not.1 top, ∅, Set.empty_subset _, ?_⟩
      rw [nothing]
      exact same ▸ Archived.refl db
  | permit startSeq phase =>
      unfold Undisturbed at calm
      rw [phase] at calm
      exact calm
  | chunk startSeq phase now limit pick there may =>
      have complete := staged.complete (by rw [phase]; rfl) there
      unfold Undisturbed at calm
      rw [phase] at calm
      obtain ⟨rfl, top, picked, sub, archived⟩ := calm
      have left : ∀ id, id ∈ candidates s.db s.staging account db.changes.head ↔
          id ∈ goneIds account s.named db.changes.head db ∧ id ∉ cascaded db picked :=
        fun _ => candidates_iff complete level sub archived
      have sub' : picked ∪ {id | id ∈ pick} ⊆ goneIds account s.named db.changes.head db := by
        rintro id (early | late)
        · exact sub early
        · exact ((left id).1 (mayPick_mem may late)).1
      have both := archived.trans (archiveBatch_archived now pick s.db)
      rw [archived.cascaded_union] at both
      by_cases short : pick.length < limit
      · have all : cascaded db (picked ∪ {id | id ∈ pick}) =
            cascaded db (goneIds account s.named db.changes.head db) := by
          refine cascaded_all level sub' fun id gone => ?_
          by_cases went : id ∈ cascaded db picked
          · exact .inl went
          · exact .inr (mem_pick_of_short may short ((left id).2 ⟨gone, went⟩))
        rw [all] at both
        simp only [if_pos short]
        exact .inr ⟨top, both⟩
      · simp only [if_neg short]
        exact ⟨rfl, top, _, sub', both⟩

end Invariant

/-! ## The pass as a whole -/

section Whole

variable {deps : Deps} {account : AccountId} {allowance : Option AllowanceKind}

theorem staged_start (db : Db) (staging : Staging) : Staged account (.start db staging) := by
  intro rest awaits
  cases awaits

theorem staged_run {db : Db} {staging : Staging} {acts : List PassAct} {s : Pass}
    (ran : runSteps (passStep deps account allowance) (.start db staging) acts = some s) :
    Staged account s :=
  run_invariant (I := Staged account) (fun _ _ _ staged stepped => staged.step stepped)
    (staged_start db staging) ran

/-- A completed pass without a commit in between. -/
theorem reconcile_exact {db : Db} {staging : Staging} {acts : List PassAct} {s : Pass}
    (ran : runSteps (passStep deps account allowance) (.start db staging) acts = some s)
    (quiet : ∀ act ∈ acts, act.own = true) (level : OneLevel db)
    (completed : s.phase = .ended (.finished none)) {d : DocRow} (mem : d ∈ db.documents)
    (live : d.live = true) :
    (∃ d' ∈ s.db.documents, d'.id = d.id ∧ d'.live = false) ↔
      TopGone account s.named db.changes.head db ∧
        Reached account s.named db.changes.head db d := by
  have calm := (run_keeps (c := fun _ act => act.own = true)
    (I := fun s => Staged account s ∧ Undisturbed account db s)
    (fun _ _ _ held own stepped => ⟨held.1.step stepped, held.2.step level held.1 own stepped⟩)
    ⟨staged_start db staging, rfl⟩ (Along.of_mem quiet _) ran).2
  unfold Undisturbed at calm
  rw [completed] at calm
  have stays : d ∈ s.db.documents → ¬ ∃ d' ∈ s.db.documents, d'.id = d.id ∧ d'.live = false := by
    rintro there ⟨d', mem', same, dead⟩
    rw [id_injective mem' there same, live] at dead
    cases dead
  rcases calm with ⟨same, noTop⟩ | ⟨top, archived⟩
  · exact ⟨fun archived => absurd archived (stays (same ▸ mem)), fun h => absurd h.1 noTop⟩
  · constructor
    · intro gone
      refine ⟨top, ?_⟩
      by_contra kept
      obtain ⟨d', there, -, -, -, -, unchanged⟩ := archived.row mem
      have unchanged := unchanged fun went => kept (by
        rcases went with ⟨p, same, gone⟩ | ⟨d', mem', same, -, q, ⟨p, same', gone⟩, parent⟩
        · rw [id_injective mem gone.mem same.symm]
          exact .inl gone
        · rw [← id_injective mem' mem same]
          exact .inr ⟨p, gone, by rw [parent, same']⟩)
      subst unchanged
      exact stays there gone
    · rintro ⟨-, reached⟩
      obtain ⟨d', there, same, -, -, dead, -⟩ := archived.row mem
      refine ⟨d', there, same, dead ?_⟩
      rcases reached with gone | ⟨p, gone, parent⟩
      · exact .inl ⟨d, rfl, gone⟩
      · exact .inr ⟨d, mem, rfl, live, p.id, ⟨p, rfl, gone⟩, parent⟩

/-- **What a reconcile pass archives**, whatever comes between its steps. -/
theorem reconcile_safe {db : Db} {staging : Staging} {acts : List PassAct} {s : Pass}
    (ran : runSteps (passStep deps account allowance) (.start db staging) acts = some s) :
    (∀ act s', act.own = true → passStep deps account allowance s act = some s' →
        ∀ d ∈ s.db.documents, d.live = true →
          d ∈ s'.db.documents ∨ ∃ startSeq, s.phase = .admitted startSeq ∧
            Reached account s.named startSeq s.db d) ∧
      (Over s → ∀ acts' s', runSteps (passStep deps account allowance) s acts' = some s' →
        ∀ act s'', act.own = true → passStep deps account allowance s' act = some s'' →
          s''.db = s'.db) ∧
      ((∀ act ∈ acts, act.own = true) → OneLevel db → s.phase = .ended (.finished none) →
        ∀ d ∈ db.documents, d.live = true →
          ((∃ d' ∈ s.db.documents, d'.id = d.id ∧ d'.live = false) ↔
            TopGone account s.named db.changes.head db ∧
              Reached account s.named db.changes.head db d)) := by
  refine ⟨fun act s' own stepped d mem live => ?_, fun passed acts' s' ran' act s'' own stepped => ?_,
    fun quiet level completed d mem live => reconcile_exact ran quiet level completed mem live⟩
  · rcases archives_only (staged_run ran) own stepped with same | ⟨startSeq, gone, phase, archived, only⟩
    · exact .inl (same ▸ mem)
    · by_cases went : d.id ∈ gone
      · exact .inr ⟨startSeq, phase, only d mem went⟩
      · obtain ⟨d', there, -, -, -, -, unchanged⟩ := archived.row mem
        exact .inl (unchanged went ▸ there)
  · have over' := run_invariant (I := Over) (fun _ _ _ passed stepped => passed.step stepped) passed ran'
    exact over'.archives_nothing own stepped

end Whole

/-! ### Messages and attachments -/

def mailRow (id : DocumentId) (seq : Nat) (parentId : Option DocumentId) (archivedAt : Option Time) :
    DocRow :=
  ⟨id, "acc", id, "mail", none, none, none, [], none, parentId, "", seq, none, archivedAt, "[]", 0, 0,
    none⟩

def storedMail (rows : List DocRow) : Db :=
  rows.foldl (fun db d => (db.appendChange .document d.id 0).insertRow .documents d) Db.fresh

/-- A whole pass over this listing, with these chunks. -/
def wholePass (listing : List ExternalRef) (chunks : List (Nat × List DocumentId)) : List PassAct :=
  [.snapshot, .start] ++ listing.map .list ++ [.drain, .check, .diff] ++
    (chunks.map fun c => [.permit, .chunk 0 c.1 c.2]).flatten

def runPass (rows : List DocRow) (listing : List ExternalRef)
    (chunks : List (Nat × List DocumentId)) : Option Pass :=
  runSteps (passStep Deps.spelled "acc" none) (.start (storedMail rows) none)
    (wholePass listing chunks)

/-- How a pass ended, and whether a document is live. -/
def Pass.seen (s : Pass) (id : DocumentId) : PassPhase × Option Bool :=
  (s.phase, (s.db.find .documents [.text id]).map fun (d : DocRow) => d.live)

/-- A message that is gone, with an attachment, and one that is not. -/
def twoMessages : List DocRow :=
  [mailRow "m1" 1 none none, mailRow "a1" 2 (some "m1") none, mailRow "m2" 3 none none]

theorem reconcile_safe_twoMessages :
    ∃ s, runPass twoMessages [⟨"m2", "mail"⟩] [(5000, ["m1", "a1"])] = some s ∧
      s.phase = .ended (.finished none) ∧
      ∀ d ∈ (storedMail twoMessages).documents, d.live = true →
        ((∃ d' ∈ s.db.documents, d'.id = d.id ∧ d'.live = false) ↔
          TopGone "acc" s.named (storedMail twoMessages).changes.head (storedMail twoMessages) ∧
            Reached "acc" s.named (storedMail twoMessages).changes.head (storedMail twoMessages) d) := by
  have seen : (runPass twoMessages [⟨"m2", "mail"⟩] [(5000, ["m1", "a1"])]).map Pass.phase =
      some (.ended (.finished none)) := by
    decide +kernel
  obtain ⟨s, ran, completed⟩ := Option.map_eq_some_iff.1 seen
  have level : OneLevel (storedMail twoMessages) := by
    have rows : (storedMail twoMessages).documents = twoMessages := by decide +kernel
    rw [OneLevel, rows]
    decide
  exact ⟨s, ran, completed, (reconcile_safe ran).2.2 (by decide) level completed⟩

/-- **A child goes with its parent, and goes only then**: an attachment the listing names
is archived with its message; one whose message was archived before stays, not listed as
it is, when no message went; and below a child the chunks decide. -/
theorem child_follows_parent :
    (∃ s, runPass twoMessages [⟨"a1", "mail"⟩, ⟨"m2", "mail"⟩] [(5000, ["m1"])] = some s ∧
      ⟨"a1", "mail"⟩ ∈ s.named ∧ s.seen "a1" = (.ended (.finished none), some false)) ∧
    (∃ s, runPass [mailRow "m1" 1 none (some 0), mailRow "a1" 2 (some "m1") none] [] [] = some s ∧
      s.named = [] ∧ s.seen "a1" = (.ended (.finished none), some true)) ∧
    ∃ s s', runPass (twoMessages ++ [mailRow "b1" 4 (some "a1") none])
        [⟨"a1", "mail"⟩, ⟨"m2", "mail"⟩] [(5000, ["m1"])] = some s ∧
      runPass (twoMessages ++ [mailRow "b1" 4 (some "a1") none])
        [⟨"a1", "mail"⟩, ⟨"m2", "mail"⟩] [(1, ["m1"]), (1, ["b1"]), (1, [])] = some s' ∧
      s.seen "b1" = (.ended (.finished none), some true) ∧
      s'.seen "b1" = (.ended (.finished none), some false) := by
  refine ⟨?_, ?_, ?_⟩
  · have seen : (runPass twoMessages [⟨"a1", "mail"⟩, ⟨"m2", "mail"⟩] [(5000, ["m1"])]).map
        (fun s => (decide (⟨"a1", "mail"⟩ ∈ s.named), s.seen "a1")) =
          some (true, .ended (.finished none), some false) := by
      decide +kernel
    obtain ⟨s, ran, shown⟩ := Option.map_eq_some_iff.1 seen
    obtain ⟨named, dead⟩ := Prod.mk.inj shown
    exact ⟨s, ran, of_decide_eq_true named, dead⟩
  · have seen : (runPass [mailRow "m1" 1 none (some 0), mailRow "a1" 2 (some "m1") none] [] []).map
        (fun s => (s.named, s.seen "a1")) = some ([], .ended (.finished none), some true) := by
      decide +kernel
    obtain ⟨s, ran, shown⟩ := Option.map_eq_some_iff.1 seen
    obtain ⟨named, live⟩ := Prod.mk.inj shown
    exact ⟨s, ran, named, live⟩
  · have atOnce : (runPass (twoMessages ++ [mailRow "b1" 4 (some "a1") none])
        [⟨"a1", "mail"⟩, ⟨"m2", "mail"⟩] [(5000, ["m1"])]).map (Pass.seen · "b1") =
          some (.ended (.finished none), some true) := by
      decide +kernel
    have oneByOne : (runPass (twoMessages ++ [mailRow "b1" 4 (some "a1") none])
        [⟨"a1", "mail"⟩, ⟨"m2", "mail"⟩] [(1, ["m1"]), (1, ["b1"]), (1, [])]).map
          (Pass.seen · "b1") = some (.ended (.finished none), some false) := by
      decide +kernel
    obtain ⟨s, ran, live⟩ := Option.map_eq_some_iff.1 atOnce
    obtain ⟨s', ran', dead⟩ := Option.map_eq_some_iff.1 oneByOne
    exact ⟨s, s', ran, ran', live, dead⟩

end Kiagent.Engine
