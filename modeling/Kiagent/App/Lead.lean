/-
# App.Lead -- the projection's two feeds

`project` keeps one state from two feeds of the change log.  The main feed follows every
change; the lead follows the changes of accounts only, so that a new source shows up while a
backfill is being read.  Each feed reads a window of the log, then row after row what is stored
at that moment, and a batch is applied when the whole window is read.

The main feed leaves out the account changes at or below the last one the lead applied.
-/
import Kiagent.App.Projection
import Kiagent.Store.Announce

namespace Kiagent.App

open Kiagent.Theory Kiagent.Store

set_option autoImplicit false

/-! ## Feeds -/

/-- A change as it was read.  `head` is how far the log went at that moment, or the number of
the row where nothing is read for it. -/
structure Got where
  change : Change
  head : Nat
  deriving DecidableEq, Repr

/-- What a feed is at: it has answered a batch, or it is reading one. -/
inductive Stage where
  | idle
  | queried (rows : List (Nat × ChangeRow))
  | reading (heads : List DocRow) (rows : List (Nat × ChangeRow)) (got : List Got) (high : Nat)
  | ready (got : List Got) (high : Nat)
  deriving DecidableEq, Repr

structure Feed where
  cursor : Nat
  stage : Stage
  deriving DecidableEq, Repr

def leadKinds : List ChangeKind := [.account, .accountRemoved]

def seqOf : Change → Nat
  | .document seq _ | .account seq _ | .purge seq _ | .accountRemoved seq _ => seq

def kindOf : Change → ChangeKind
  | .document .. => .document
  | .account .. => .account
  | .purge .. => .purge
  | .accountRemoved .. => .accountRemoved

/-- The account a change is of. -/
def subjectOf : Change → Option AccountId
  | .account _ a => some a.id
  | .accountRemoved _ id => some id
  | _ => none

/-- The documents of the window, read in one statement. -/
def readHeads (db : Db) (rows : List (Nat × ChangeRow)) : List DocRow :=
  db.documents.filter fun d => rows.any fun e => e.2.kind = .document && e.2.refId = d.id

/-- One row of a window, with what is stored for it. -/
def readRow (db : Db) (heads : List DocRow) (e : Nat × ChangeRow) : Option Got :=
  match e.2.kind with
  | .document => (heads.find? fun d => d.id = e.2.refId).map fun d => ⟨.document e.1 d, e.1⟩
  | .account => (accountAt db e.2.refId).map fun a => ⟨.account e.1 a, db.changes.counter⟩
  | .purge => some ⟨.purge e.1 e.2.refId, e.1⟩
  | .accountRemoved => some ⟨.accountRemoved e.1 e.2.refId, e.1⟩

namespace Feed

/-- The window after the cursor.  With no row in it the feed waits. -/
def query (f : Feed) (db : Db) (kinds : List ChangeKind) : Option Feed :=
  match f.stage with
  | .idle =>
      match feedWindow db f.cursor kinds with
      | [] => some f
      | rows => some { f with stage := .queried rows }
  | _ => none

def heads (f : Feed) (db : Db) : Option Feed :=
  match f.stage with
  | .queried rows =>
      let high := ((rows.getLast?).map Prod.fst).getD f.cursor
      some { f with stage := .reading (readHeads db rows) rows [] high }
  | _ => none

/-- Read the next row; after the last one the batch is ready, or passed over when it is empty. -/
def read (f : Feed) (db : Db) : Option Feed :=
  match f.stage with
  | .reading heads (e :: rows) got high =>
      let got := got ++ (readRow db heads e).toList
      if rows ≠ [] then some { f with stage := .reading heads rows got high }
      else if got = [] then some ⟨high, .idle⟩
      else some { f with stage := .ready got high }
  | _ => none

end Feed

/-! ## The projection -/

/-- `leadFrom` is the head before `init`. -/
inductive Phase where
  | heading
  | starting (leadFrom : Nat)
  | started (leadFrom : Nat)
  | live
  deriving DecidableEq, Repr

/-- `reads` tells of each account how far the log went when its state was read. -/
structure Tails where
  phase : Phase
  state : AppState
  seq : Nat
  lead : Feed
  main : Feed
  leadSeq : Nat
  reads : AccountId → Nat

/-- `past` lists the stores there have been, and `published` what `onDiff` was given. -/
structure Led where
  db : Db
  tails : Tails
  past : List Db
  published : List (AppState × Nat)

def emptyState : AppState := ⟨.empty, []⟩

/-- An attempt begins. -/
def attempt (_ : Unit) : Tails where
  phase := .heading
  state := emptyState
  seq := 0
  lead := ⟨0, .idle⟩
  main := ⟨0, .idle⟩
  leadSeq := 0
  reads := fun _ => 0

def Led.start (db : Db) : Led := ⟨db, attempt (), [db], []⟩

/-- The store after a commit. -/
def Led.commit (s : Led) (db : Db) : Led := { s with db, past := s.past ++ [db] }

def Led.publish (s : Led) (t : Tails) : Led :=
  { s with tails := t, published := s.published ++ [(t.state, t.seq)] }

def readsAfter (reads : AccountId → Nat) (got : List Got) : AccountId → Nat :=
  got.foldl (fun reads g => match subjectOf g.change with
    | some a => Function.update reads a g.head
    | none => reads) reads

def lastSeq (got : List Got) (seq : Nat) : Nat := ((got.getLast?).map fun g => seqOf g.change).getD seq

/-- What the main feed applies of a batch. -/
def unled (leadSeq : Nat) (got : List Got) : List Got :=
  got.filter fun g => leadSeq < seqOf g.change || !decide (kindOf g.change ∈ leadKinds)

namespace Tails

/-- `projection.apply`. -/
def apply (t : Tails) (got : List Got) : Tails :=
  { t with state := App.apply t.state (got.map Got.change), reads := readsAfter t.reads got }

/-- The lead applies its batch. -/
def deliverLead (t : Tails) (got : List Got) (high : Nat) : Tails :=
  { t.apply got with leadSeq := lastSeq got t.leadSeq, lead := ⟨high, .idle⟩ }

/-- The main feed applies its batch. -/
def deliverMain (t : Tails) (got : List Got) (high : Nat) : Tails :=
  { t.apply (unled t.leadSeq got) with seq := lastSeq got t.seq, main := ⟨high, .idle⟩ }

end Tails

inductive LedAct where
  | commit (now : Time) (publishedAt : Option Time) (batch : CommitBatch)
  | connect (now : Time) (source identifier : String)
  /-- Any other write of an account's row. -/
  | write (now : Time) (row : AccountRow)
  | head
  | init
  | live
  | query (lead : Bool)
  | heads (lead : Bool)
  | read (lead : Bool)
  | deliver (lead : Bool)
  /-- A transient error of the store: both feeds end, and the projection starts anew. -/
  | retry

/-- A feed goes on to another stage. -/
def Led.feed (s : Led) (lead : Bool) (next : Feed → Option Feed) : Option Led :=
  if s.tails.phase ≠ .live then none
  else if lead then
    (next s.tails.lead).map fun f => { s with tails := { s.tails with lead := f } }
  else (next s.tails.main).map fun f => { s with tails := { s.tails with main := f } }

def ledStep (deps : Deps) (s : Led) : LedAct → Option Led
  | .commit now publishedAt batch =>
      match commitTx deps now publishedAt batch s.db with
      | .ok r => some (s.commit r.1)
      | .error _ => some s
  | .connect now source identifier =>
      some (s.commit (getOrCreateAccount deps now source identifier s.db).1)
  | .write now row =>
      some (s.commit ((s.db.insertRow .accounts row).appendChange .account row.id now))
  | .head =>
      if s.tails.phase = .heading then
        some { s with tails := { s.tails with phase := .starting s.db.changes.head } }
      else none
  | .init =>
      match s.tails.phase with
      | .starting leadFrom =>
          some { s with tails := { s.tails with
            phase := .started leadFrom
            state := init s.db
            reads := fun _ => s.db.changes.counter } }
      | _ => none
  | .live =>
      match s.tails.phase with
      | .started leadFrom =>
          let seq := s.db.changes.head
          some (s.publish { s.tails with
            phase := .live
            seq := seq
            lead := ⟨leadFrom, .idle⟩
            main := ⟨seq, .idle⟩
            leadSeq := leadFrom })
      | _ => none
  | .query lead =>
      s.feed lead fun f => f.query s.db (if lead then leadKinds else [])
  | .heads lead => s.feed lead fun f => f.heads s.db
  | .read lead => s.feed lead fun f => f.read s.db
  | .deliver lead =>
      if s.tails.phase ≠ .live then none
      else if lead then
        match s.tails.lead.stage with
        | .ready got high => some (s.publish (s.tails.deliverLead got high))
        | _ => none
      else
        match s.tails.main.stage with
        | .ready got high => some (s.publish (s.tails.deliverMain got high))
        | _ => none
  | .retry => some { s with tails := attempt () }

/-! ## The state of one account -/

/-- What a published state shows of an account. -/
def shows (a : AccountId) (s : AppState) : Option AccountRow :=
  (s.accounts.find a).map AccountEntry.account

/-- What is stored of an account, as far as a window may see it. -/
def storedOf (a : AccountId) (db : Db) : Option AccountRow := (accountAt db a).map projected

/-- What a change shows of the account it is of. -/
def shownBy : Change → Option AccountRow
  | .account _ a => some (projected a)
  | _ => none

end Kiagent.App
