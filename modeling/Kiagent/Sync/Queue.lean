/-
# Sync.Queue -- the durable delivery queue and its drain

What a device could not deliver waits in `sync_outbound`, in the order of an
autoincrement id.  A row under a coalesce key replaces the older row of the key in
one transaction.  `drainOnce` reads row after row and sends each to the leader; its
awaits are the steps of a `Drain`, and between any two of them the other operations
run, or the process dies.  `history` records what an observer saw.

* `queue_delivers` -- over every run: the rows of one key, and the rows without a
  key, are sent in the order of their ids; a row leaves the queue only when it was
  acknowledged, discarded or replaced under its key; one request is in flight at a
  time; the last value of a key that was not discarded waits, or is the last one
  sent;
* `discard_drops_replaced` -- a discard takes with it the value its row replaced.
-/
import Kiagent.Theory.Runs
import Kiagent.Theory.SeqLog
import Mathlib

namespace Kiagent.Sync.OutboundQueue

open Kiagent.Theory

set_option autoImplicit false

/-! ## Rows -/

/-- A row of `sync_outbound`; its id is its number. -/
structure OutRow (P : Type) where
  payload : P
  attempts : Nat
  coalesceKey : Option String

abbrev maxHandlerAttempts : Nat := 5

/-- Milliseconds: a growing wait, an hour at most. -/
def backoffMs (attempts : Nat) : Nat := min (30000 * 2 ^ (attempts - 1)) (60 * 60000)

inductive QueueChange where
  | delivered (rowId : Nat) (coalesceKey : Option String)
  | discarded (rowId : Nat) (coalesceKey : Option String)
  | stuck (rowId : Nat) (coalesceKey : Option String)
  deriving DecidableEq

inductive QueueEvent (P : Type) where
  | enqueued (id : Nat) (coalesceKey : Option String) (payload : P)
  /-- A request leaves for the leader, or to this device's own handlers when it leads. -/
  | sent (id : Nat) (coalesceKey : Option String) (payload : P)
  | acknowledged (id : Nat)
  /-- A discard took the row out of the queue. -/
  | discarded (id : Nat)
  | fired (change : QueueChange)
  deriving DecidableEq

/-! ## One drain -/

/-- The answer to a request: done, refused by the handler, or no leader reached. -/
inductive Reply where
  | ok
  | handler
  | noMaster

/-- Where a drain is suspended. -/
inductive DrainPoint (P : Type) where
  /-- The SELECT of the next row is on its way. -/
  | select
  | selected (next : Option (Nat × OutRow P))
  | inFlight (id : Nat) (row : OutRow P)
  /-- The DELETE after an acknowledgement is on its way. -/
  | acknowledged (id : Nat) (row : OutRow P)
  | deleted (id : Nat) (row : OutRow P)
  /-- The UPDATE of the attempts after a refusal is on its way. -/
  | refused (id : Nat) (row : OutRow P)
  | counted (id : Nat) (row : OutRow P)
  /-- The loop is left; the count of what waits is on its way. -/
  | leaving
  | finished (waiting : Option Nat)

structure Drain (P : Type) where
  after : Nat
  /-- A row without a key was held back: so are the later ones. -/
  blockedUnkeyed : Bool
  sent : Nat
  point : DrainPoint P

def Drain.start {P : Type} : Drain P := ⟨0, false, 0, .select⟩

inductive DrainAct where
  | select
  /-- `connected`: this device leads, or has a forwarder. -/
  | look (now : Nat) (connected : Bool)
  | reply (r : Reply)
  /-- The database runs the pending DELETE or UPDATE. -/
  | write
  | resume (now : Nat)
  | count
  /-- The pending statement fails, and the drain with it. -/
  | fail

/-- What one stretch of a drain reads and leaves behind. -/
structure DrainState (P : Type) where
  rows : SeqLog (OutRow P)
  retryAt : Nat → Nat
  drain : Drain P

variable {P : Type}

/-- `WHERE id > ? ORDER BY id LIMIT 1`. -/
def nextQueued (rows : SeqLog (OutRow P)) (after : Nat) : Option (Nat × OutRow P) :=
  rows.entries.find? fun e => after < e.1

/-- The row as it was read: spent, held back, backing off, or sent. -/
def Drain.look (d : Drain P) (retryAt : Nat → Nat) (now : Nat) (connected : Bool) :
    Option (Nat × OutRow P) → Drain P × List (QueueEvent P)
  | none => ({ d with point := .leaving }, [])
  | some (id, row) =>
      if maxHandlerAttempts ≤ row.attempts then ({ d with after := id, point := .select }, [])
      else if row.coalesceKey = none ∧ d.blockedUnkeyed then
        ({ d with after := id, point := .select }, [])
      else if now < retryAt id then
        let blockedUnkeyed := d.blockedUnkeyed || row.coalesceKey.isNone
        ({ d with after := id, blockedUnkeyed, point := .select }, [])
      else if connected then
        ({ d with after := id, point := .inFlight id row },
          [.sent id row.coalesceKey row.payload])
      else ({ d with after := id, point := .leaving }, [])

/-- The refusal is counted: back off, or give the row up where it is. -/
def Drain.backOff (d : Drain P) (id : Nat) (row : OutRow P) : Drain P × List (QueueEvent P) :=
  if row.attempts + 1 < maxHandlerAttempts then
    let blockedUnkeyed := d.blockedUnkeyed || row.coalesceKey.isNone
    ({ d with blockedUnkeyed, point := .select }, [])
  else ({ d with point := .select }, [.fired (.stuck id row.coalesceKey)])

def drainStep (s : DrainState P) (a : DrainAct) : Option (DrainState P × List (QueueEvent P)) :=
  let d := s.drain
  match d.point, a with
  | .select, .select =>
      some ({ s with drain := { d with point := .selected (nextQueued s.rows d.after) } }, [])
  | .selected next, .look now connected =>
      let looked := d.look s.retryAt now connected next
      some ({ s with drain := looked.1 }, looked.2)
  | .inFlight id row, .reply .ok =>
      some ({ s with drain := { d with point := .acknowledged id row } }, [.acknowledged id])
  | .inFlight id row, .reply .handler =>
      some ({ s with drain := { d with point := .refused id row } }, [])
  | .inFlight _ _, .reply .noMaster => some ({ s with drain := { d with point := .leaving } }, [])
  | .acknowledged id row, .write =>
      some ({ s with
        rows := s.rows.filter fun e => e.1 ≠ id
        drain := { d with point := .deleted id row } }, [])
  | .refused id row, .write =>
      let attempts := row.attempts + 1
      some ({ s with
        rows := s.rows.update id fun r => { r with attempts }
        drain := { d with point := .counted id row } }, [])
  | .deleted id row, .resume _ =>
      some ({ s with
        retryAt := Function.update s.retryAt id 0
        drain := { d with sent := d.sent + 1, point := .select } },
        [.fired (.delivered id row.coalesceKey)])
  | .counted id row, .resume now =>
      let backed := d.backOff id row
      some ({ s with
        retryAt := Function.update s.retryAt id (now + backoffMs (row.attempts + 1))
        drain := backed.1 }, backed.2)
  | .leaving, .count =>
      some ({ s with drain := { d with point := .finished (some s.rows.entries.length) } }, [])
  | .select, .fail | .acknowledged _ _, .fail | .refused _ _, .fail | .leaving, .fail =>
      some ({ s with drain := { d with point := .finished none } }, [])
  | _, _ => none

/-! ## The queue -/

/-- A `discardQueued` between its SELECT, its DELETE and its return. -/
structure Discard where
  rowId : Nat
  coalesceKey : String
  deleted : Bool

structure Queue (P : Type) where
  /-- Durable; the rest but the history is lost in a crash. -/
  rows : SeqLog (OutRow P)
  retryAt : Nat → Nat
  /-- `draining` holds a promise. -/
  draining : Bool
  drains : List (Drain P)
  discards : List Discard
  history : List (QueueEvent P)

def Queue.fresh : Queue P := ⟨SeqLog.empty, fun _ => 0, false, [], [], []⟩

inductive QueueAct (P : Type) where
  /-- One transaction: the older row of the key goes, the new one comes. -/
  | enqueue (payload : P) (coalesceKey : Option String)
  /-- The SELECT of `discardQueued`: only a keyed row can be dropped. -/
  | discardQueued (rowId : Nat)
  | discardDelete (i : Nat)
  | discardReturn (i : Nat)
  | drainOutbound
  | drain (i : Nat) (a : DrainAct)
  /-- The `finally` of a drain that has finished. -/
  | drained (i : Nat)
  | crash

/-- The rows that stay when one comes under a key. -/
def otherKey (coalesceKey : Option String) (e : Nat × OutRow P) : Bool :=
  coalesceKey.isNone || e.2.coalesceKey ≠ coalesceKey

def rowKey (rows : SeqLog (OutRow P)) (rowId : Nat) : Option String :=
  (rows.entries.find? fun e => e.1 = rowId).bind fun e => e.2.coalesceKey

/-- One step; `none` where the operation is not at that point. -/
def queueStep (s : Queue P) : QueueAct P → Option (Queue P)
  | .enqueue payload coalesceKey =>
      let kept := s.rows.filter (otherKey coalesceKey)
      some { s with
        rows := kept.append ⟨payload, 0, coalesceKey⟩
        history := s.history ++ [.enqueued kept.next coalesceKey payload] }
  | .discardQueued rowId =>
      match rowKey s.rows rowId with
      | some coalesceKey => some { s with discards := s.discards ++ [⟨rowId, coalesceKey, false⟩] }
      | none => some s
  | .discardDelete i =>
      match s.discards[i]? with
      | some ⟨rowId, coalesceKey, false⟩ =>
          let seen := if rowId ∈ s.rows.entries.map Prod.fst then [.discarded rowId] else []
          some { s with
            rows := s.rows.filter fun e => e.1 ≠ rowId
            discards := s.discards.set i ⟨rowId, coalesceKey, true⟩
            history := s.history ++ seen }
      | _ => none
  | .discardReturn i =>
      match s.discards[i]? with
      | some ⟨rowId, coalesceKey, true⟩ =>
          some { s with
            retryAt := Function.update s.retryAt rowId 0
            discards := s.discards.eraseIdx i
            history := s.history ++ [.fired (.discarded rowId (some coalesceKey))] }
      | _ => none
  | .drainOutbound =>
      if s.draining then some s
      else some { s with draining := true, drains := s.drains ++ [.start] }
  | .drain i a =>
      (s.drains[i]?).bind fun d =>
        (drainStep ⟨s.rows, s.retryAt, d⟩ a).map fun (after, seen) =>
          { s with
            rows := after.rows
            retryAt := after.retryAt
            drains := s.drains.set i after.drain
            history := s.history ++ seen }
  | .drained i =>
      match s.drains[i]? with
      | some ⟨_, _, _, .finished _⟩ =>
          some { s with draining := false, drains := s.drains.eraseIdx i }
      | _ => none
  | .crash => some { s with retryAt := fun _ => 0, draining := false, drains := [], discards := [] }

/-! ## What the history says of the rows -/

/-- The requests sent for a key, or for no key, in order. -/
def sentUnder (coalesceKey : Option String) (history : List (QueueEvent P)) : List (Nat × P) :=
  history.filterMap fun
    | .sent id coalesceKey' payload => if coalesceKey' = coalesceKey then some (id, payload) else none
    | _ => none

theorem mem_sentUnder {key : Option String} {history : List (QueueEvent P)} {id : Nat}
    {payload : P} : (id, payload) ∈ sentUnder key history ↔ .sent id key payload ∈ history := by
  simp only [sentUnder, List.mem_filterMap]
  constructor
  · rintro ⟨event, mem, here⟩
    cases event with
    | sent id' key' payload' =>
        simp only [Option.ite_none_right_eq_some, Option.some.injEq, Prod.mk.injEq] at here
        obtain ⟨rfl, rfl, rfl⟩ := here
        exact mem
    | enqueued | acknowledged | discarded | fired => cases here
  · exact fun mem => ⟨_, mem, if_pos rfl⟩

/-- The row is there under its id, key and payload; its attempts may have changed. -/
def Waits (rows : SeqLog (OutRow P)) (id : Nat) (key : Option String) (payload : P) : Prop :=
  ∃ e ∈ rows.entries, e.1 = id ∧ e.2.coalesceKey = key ∧ e.2.payload = payload

/-- The reasons a row may have left the queue. -/
def Settled (history : List (QueueEvent P)) (id : Nat) (key : Option String) : Prop :=
  .acknowledged id ∈ history ∨ .discarded id ∈ history ∨
    ∃ k id' payload', key = some k ∧ id < id' ∧ .enqueued id' (some k) payload' ∈ history

structure Traced (rows : SeqLog (OutRow P)) (history : List (QueueEvent P)) : Prop where
  positive : ∀ id key payload, .enqueued id key payload ∈ history → 0 < id
  below : ∀ id key payload, .enqueued id key payload ∈ history → id ≤ rows.counter
  once : ∀ id key payload key' payload', .enqueued id key payload ∈ history →
    .enqueued id key' payload' ∈ history → key = key' ∧ payload = payload'
  enqueued : ∀ e ∈ rows.entries, .enqueued e.1 e.2.coalesceKey e.2.payload ∈ history
  newest : ∀ e ∈ rows.entries, ∀ k id payload, e.2.coalesceKey = some k →
    .enqueued id (some k) payload ∈ history → id ≤ e.1
  sent : ∀ id key payload, .sent id key payload ∈ history → .enqueued id key payload ∈ history
  acknowledged : ∀ id, .acknowledged id ∈ history → ∃ key payload, .sent id key payload ∈ history
  fate : ∀ id key payload, .enqueued id key payload ∈ history →
    Waits rows id key payload ∨ Settled history id key
  order : ∀ key, (sentUnder key history).Pairwise fun a b => a.1 ≤ b.1
  /-- An unkeyed row below one that was sent is spent. -/
  passed : ∀ id payload, .sent id none payload ∈ history → ∀ e ∈ rows.entries,
    e.2.coalesceKey = none → e.1 < id → maxHandlerAttempts ≤ e.2.attempts

theorem traced_fresh : Traced (SeqLog.empty : SeqLog (OutRow P)) [] := by
  constructor <;> simp [SeqLog.empty, sentUnder]

theorem Settled.mono {history seen : List (QueueEvent P)} {id : Nat} {key : Option String}
    (settled : Settled history id key) : Settled (history ++ seen) id key := by
  rcases settled with acked | gone | ⟨k, id', payload', same, later, came⟩
  · exact .inl (List.mem_append_left _ acked)
  · exact .inr (.inl (List.mem_append_left _ gone))
  · exact .inr (.inr ⟨k, id', payload', same, later, List.mem_append_left _ came⟩)

theorem sentUnder_append (key : Option String) (history seen : List (QueueEvent P)) :
    sentUnder key (history ++ seen) = sentUnder key history ++ sentUnder key seen :=
  List.filterMap_append ..

/-- Events that enqueue and send nothing. -/
def Quiet (seen : List (QueueEvent P)) : Prop :=
  ∀ event ∈ seen, match event with
    | .enqueued .. | .sent .. => False
    | _ => True

theorem Quiet.enqueued {history seen : List (QueueEvent P)} (quiet : Quiet seen) {id : Nat}
    {key : Option String} {payload : P} (mem : .enqueued id key payload ∈ history ++ seen) :
    .enqueued id key payload ∈ history :=
  (List.mem_append.1 mem).resolve_right fun new => quiet _ new

theorem Quiet.sent {history seen : List (QueueEvent P)} (quiet : Quiet seen) {id : Nat}
    {key : Option String} {payload : P} (mem : .sent id key payload ∈ history ++ seen) :
    .sent id key payload ∈ history :=
  (List.mem_append.1 mem).resolve_right fun new => quiet _ new

theorem Quiet.sentUnder {history seen : List (QueueEvent P)} (quiet : Quiet seen)
    (key : Option String) : sentUnder key (history ++ seen) = sentUnder key history := by
  have none : OutboundQueue.sentUnder key seen = [] :=
    List.eq_nil_iff_forall_not_mem.2 fun ⟨_, _⟩ mem => quiet _ (mem_sentUnder.1 mem)
  rw [sentUnder_append, none, List.append_nil]

namespace Traced

variable {rows rows' : SeqLog (OutRow P)} {history seen : List (QueueEvent P)}

/-- Rows leave with a reason, or have another refusal counted. -/
theorem settle (traced : Traced rows history) (quiet : Quiet seen)
    (acknowledged : ∀ id, .acknowledged id ∈ seen → ∃ key payload, .sent id key payload ∈ history)
    (counter : rows'.counter = rows.counter)
    (old : ∀ e' ∈ rows'.entries, ∃ e ∈ rows.entries, e.1 = e'.1 ∧
      e.2.coalesceKey = e'.2.coalesceKey ∧ e.2.payload = e'.2.payload ∧
      e.2.attempts ≤ e'.2.attempts)
    (gone : ∀ e ∈ rows.entries, Waits rows' e.1 e.2.coalesceKey e.2.payload ∨
      Settled (history ++ seen) e.1 e.2.coalesceKey) : Traced rows' (history ++ seen) where
  positive id key payload mem := traced.positive id key payload (quiet.enqueued mem)
  below id key payload mem := counter ▸ traced.below id key payload (quiet.enqueued mem)
  once id key payload key' payload' mem mem' :=
    traced.once id key payload key' payload' (quiet.enqueued mem) (quiet.enqueued mem')
  enqueued e' mem := by
    obtain ⟨e, there, id, key, payload, -⟩ := old e' mem
    rw [← id, ← key, ← payload]
    exact List.mem_append_left _ (traced.enqueued e there)
  newest e' mem k id payload under came := by
    obtain ⟨e, there, same, key, -, -⟩ := old e' mem
    rw [← same]
    exact traced.newest e there k id payload (key.trans under) (quiet.enqueued came)
  sent id key payload mem := List.mem_append_left _ (traced.sent id key payload (quiet.sent mem))
  acknowledged id mem := by
    have before : ∃ key payload, .sent id key payload ∈ history := by
      rcases List.mem_append.1 mem with old | new
      · exact traced.acknowledged id old
      · exact acknowledged id new
    obtain ⟨key, payload, mem⟩ := before
    exact ⟨key, payload, List.mem_append_left _ mem⟩
  fate id key payload mem := by
    rcases traced.fate id key payload (quiet.enqueued mem) with ⟨e, there, rfl, rfl, rfl⟩ | settled
    · exact gone e there
    · exact .inr settled.mono
  order key := by
    rw [quiet.sentUnder]
    exact traced.order key
  passed id payload mem e' there under before := by
    obtain ⟨e, listed, same, key, -, attempts⟩ := old e' there
    exact Nat.le_trans (traced.passed id payload (quiet.sent mem) e listed (key.trans under)
      (same ▸ before)) attempts

theorem quiet (traced : Traced rows history) (quiet : Quiet seen)
    (acknowledged : ∀ id, .acknowledged id ∈ seen → ∃ key payload, .sent id key payload ∈ history) :
    Traced rows (history ++ seen) :=
  traced.settle quiet acknowledged rfl (fun e mem => ⟨e, mem, rfl, rfl, rfl, Nat.le_refl _⟩)
    fun e mem => .inl ⟨e, mem, rfl, rfl, rfl⟩

/-- A row comes, over the older one of its key. -/
theorem enqueue (traced : Traced rows history) (payload : P) (key : Option String) :
    Traced ((rows.filter (otherKey key)).append ⟨payload, 0, key⟩)
      (history ++ [.enqueued (rows.counter + 1) key payload]) where
  positive id key' payload' mem := by
    rcases List.mem_append.1 mem with old | new
    · exact traced.positive id key' payload' old
    · obtain ⟨rfl, -, -⟩ := QueueEvent.enqueued.inj (List.mem_singleton.1 new)
      exact Nat.succ_pos _
  below id key' payload' mem := by
    rcases List.mem_append.1 mem with old | new
    · exact Nat.le_succ_of_le (traced.below id key' payload' old)
    · obtain ⟨rfl, -, -⟩ := QueueEvent.enqueued.inj (List.mem_singleton.1 new)
      exact Nat.le_refl _
  once id key₁ payload₁ key₂ payload₂ mem₁ mem₂ := by
    rcases List.mem_append.1 mem₁ with old₁ | new₁ <;> rcases List.mem_append.1 mem₂ with old₂ | new₂
    · exact traced.once id key₁ payload₁ key₂ payload₂ old₁ old₂
    · obtain ⟨rfl, -, -⟩ := QueueEvent.enqueued.inj (List.mem_singleton.1 new₂)
      exact absurd (traced.below _ _ _ old₁) (Nat.not_succ_le_self _)
    · obtain ⟨rfl, -, -⟩ := QueueEvent.enqueued.inj (List.mem_singleton.1 new₁)
      exact absurd (traced.below _ _ _ old₂) (Nat.not_succ_le_self _)
    · obtain ⟨rfl, rfl, rfl⟩ := QueueEvent.enqueued.inj (List.mem_singleton.1 new₁)
      obtain ⟨-, rfl, rfl⟩ := QueueEvent.enqueued.inj (List.mem_singleton.1 new₂)
      exact ⟨rfl, rfl⟩
  enqueued e mem := by
    rcases SeqLog.mem_append.1 mem with old | rfl
    · exact List.mem_append_left _ (traced.enqueued e (SeqLog.mem_filter.1 old).1)
    · exact List.mem_append_right _ (List.mem_singleton.2 rfl)
  newest e mem k id payload' under came := by
    rcases SeqLog.mem_append.1 mem with old | rfl
    · obtain ⟨there, other⟩ := SeqLog.mem_filter.1 old
      rcases List.mem_append.1 came with before | new
      · exact traced.newest e there k id payload' under before
      · obtain ⟨-, rfl, -⟩ := QueueEvent.enqueued.inj (List.mem_singleton.1 new)
        simp [otherKey, under] at other
    · rcases List.mem_append.1 came with before | new
      · exact Nat.le_succ_of_le (traced.below id (some k) payload' before)
      · obtain ⟨rfl, -, -⟩ := QueueEvent.enqueued.inj (List.mem_singleton.1 new)
        exact Nat.le_refl _
  sent id key' payload' mem := by
    rcases List.mem_append.1 mem with old | new
    · exact List.mem_append_left _ (traced.sent id key' payload' old)
    · cases List.mem_singleton.1 new
  acknowledged id mem := by
    rcases List.mem_append.1 mem with old | new
    · obtain ⟨key', payload', there⟩ := traced.acknowledged id old
      exact ⟨key', payload', List.mem_append_left _ there⟩
    · cases List.mem_singleton.1 new
  fate id key' payload' mem := by
    rcases List.mem_append.1 mem with old | new
    · rcases traced.fate id key' payload' old with ⟨e, there, rfl, rfl, rfl⟩ | settled
      · by_cases other : otherKey key e = true
        · exact .inl ⟨e, SeqLog.mem_append.2 (.inl (SeqLog.mem_filter.2 ⟨there, other⟩)), rfl, rfl, rfl⟩
        · -- It stands under the key that comes: it is replaced.
          simp only [otherKey, ne_eq, decide_not, Bool.or_eq_true, Bool.not_eq_true',
            decide_eq_false_iff_not, not_or, Bool.not_eq_true, Option.isNone_eq_false_iff,
            not_not] at other
          obtain ⟨k, rfl⟩ := Option.isSome_iff_exists.1 other.1
          exact .inr (.inr (.inr ⟨k, rows.counter + 1, payload, other.2,
            Nat.lt_succ_of_le (rows.below e there),
            List.mem_append_right _ (List.mem_singleton.2 rfl)⟩))
      · exact .inr settled.mono
    · obtain ⟨rfl, rfl, rfl⟩ := QueueEvent.enqueued.inj (List.mem_singleton.1 new)
      exact .inl ⟨_, SeqLog.mem_append.2 (.inr rfl), rfl, rfl, rfl⟩
  order key' := by
    have none : sentUnder key' [.enqueued (rows.counter + 1) key payload] = [] := rfl
    rw [sentUnder_append, none, List.append_nil]
    exact traced.order key'
  passed id payload' mem e there under before := by
    have old : .sent id none payload' ∈ history :=
      (List.mem_append.1 mem).resolve_right fun new => nomatch List.mem_singleton.1 new
    rcases SeqLog.mem_append.1 there with there | rfl
    · exact traced.passed id payload' old e (SeqLog.mem_filter.1 there).1 under before
    · have low := traced.below id none payload' (traced.sent id none payload' old)
      exact absurd (Nat.lt_of_lt_of_le before low) (Nat.not_lt.2 (Nat.le_succ _))

/-- A request is sent: nothing of its key above it was, and what it passes is spent. -/
theorem send (traced : Traced rows history) {id : Nat} {key : Option String} {payload : P}
    (enqueued : .enqueued id key payload ∈ history)
    (last : ∀ m payload', .sent m key payload' ∈ history → m ≤ id)
    (passed : key = none → ∀ e ∈ rows.entries, e.2.coalesceKey = none → e.1 < id →
      maxHandlerAttempts ≤ e.2.attempts) :
    Traced rows (history ++ [.sent id key payload]) where
  positive id' key' payload' mem := traced.positive id' key' payload' <|
    (List.mem_append.1 mem).resolve_right fun new => nomatch List.mem_singleton.1 new
  below id' key' payload' mem := traced.below id' key' payload' <|
    (List.mem_append.1 mem).resolve_right fun new => nomatch List.mem_singleton.1 new
  once id' key₁ payload₁ key₂ payload₂ mem₁ mem₂ := by
    refine traced.once id' key₁ payload₁ key₂ payload₂
      ((List.mem_append.1 mem₁).resolve_right fun new => ?_)
      ((List.mem_append.1 mem₂).resolve_right fun new => ?_) <;> cases List.mem_singleton.1 new
  enqueued e mem := List.mem_append_left _ (traced.enqueued e mem)
  newest e mem k id' payload' under came := traced.newest e mem k id' payload' under <|
    (List.mem_append.1 came).resolve_right fun new => nomatch List.mem_singleton.1 new
  sent id' key' payload' mem := by
    rcases List.mem_append.1 mem with old | new
    · exact List.mem_append_left _ (traced.sent id' key' payload' old)
    · obtain ⟨rfl, rfl, rfl⟩ := QueueEvent.sent.inj (List.mem_singleton.1 new)
      exact List.mem_append_left _ enqueued
  acknowledged id' mem := by
    rcases List.mem_append.1 mem with old | new
    · obtain ⟨key', payload', there⟩ := traced.acknowledged id' old
      exact ⟨key', payload', List.mem_append_left _ there⟩
    · cases List.mem_singleton.1 new
  fate id' key' payload' mem := by
    have old : .enqueued id' key' payload' ∈ history :=
      (List.mem_append.1 mem).resolve_right fun new => nomatch List.mem_singleton.1 new
    exact (traced.fate id' key' payload' old).imp_right Settled.mono
  order key' := by
    rw [sentUnder_append]
    by_cases same : key = key'
    · subst same
      have one : sentUnder key [.sent id key payload] = [(id, payload)] := by simp [sentUnder]
      rw [one, List.pairwise_append]
      refine ⟨traced.order key, List.pairwise_singleton _ _, ?_⟩
      rintro ⟨m, payload'⟩ before b new
      rw [List.mem_singleton.1 new]
      exact last m payload' (mem_sentUnder.1 before)
    · have none : sentUnder key' [.sent id key payload] = [] := by simp [sentUnder, same]
      rw [none, List.append_nil]
      exact traced.order key'
  passed id' payload' mem e there under before := by
    rcases List.mem_append.1 mem with old | new
    · exact traced.passed id' payload' old e there under before
    · obtain ⟨rfl, rfl, -⟩ := QueueEvent.sent.inj (List.mem_singleton.1 new)
      exact passed rfl e there under before

end Traced

/-! ## What a drain knows -/

/-- Unless it holds the unkeyed rows back, those it has gone past are spent. -/
def Cleared (d : Drain P) (rows : SeqLog (OutRow P)) (past : Nat → Prop) : Prop :=
  d.blockedUnkeyed = false → ∀ e ∈ rows.entries, e.2.coalesceKey = none → past e.1 →
    maxHandlerAttempts ≤ e.2.attempts

/-- A row that was read and not yet sent. -/
structure Held (rows : SeqLog (OutRow P)) (history : List (QueueEvent P)) (id : Nat)
    (row : OutRow P) : Prop where
  enqueued : .enqueued id row.coalesceKey row.payload ∈ history
  same : ∀ e ∈ rows.entries, e.1 = id → e.2 = row
  /-- Nothing else takes an unkeyed row away. -/
  unkeyed : row.coalesceKey = none → (id, row) ∈ rows.entries
  last : ∀ k m payload, row.coalesceKey = some k → .sent m (some k) payload ∈ history → m ≤ id

/-- A row whose request has left. -/
structure Tried (rows : SeqLog (OutRow P)) (history : List (QueueEvent P)) (d : Drain P)
    (id : Nat) (row : OutRow P) : Prop where
  after : d.after = id
  sent : .sent id row.coalesceKey row.payload ∈ history
  same : ∀ e ∈ rows.entries, e.1 = id → e.2 = row
  cleared : Cleared d rows (· < id)

def View (rows : SeqLog (OutRow P)) (history : List (QueueEvent P)) (d : Drain P) : Prop :=
  d.after ≤ rows.counter ∧ match d.point with
    | .select | .deleted _ _ => Cleared d rows (· ≤ d.after)
    | .selected (some (id, row)) => Held rows history id row ∧ Cleared d rows (· < id)
    | .inFlight id row | .refused id row => Tried rows history d id row
    | .acknowledged id row => Tried rows history d id row ∧ .acknowledged id ∈ history
    | .counted id row => d.after = id ∧ Cleared d rows (· < id) ∧ ∀ e ∈ rows.entries, e.1 = id →
        e.2.coalesceKey = row.coalesceKey ∧ e.2.attempts = row.attempts + 1
    | .selected none | .leaving | .finished _ => True

/-- What the other operations may do between two steps of a drain. -/
structure Beside (rows rows' : SeqLog (OutRow P)) (history seen : List (QueueEvent P)) : Prop where
  known : ∀ e ∈ rows'.entries, e ∈ rows.entries ∨ rows.counter < e.1
  unkeyed : ∀ e ∈ rows.entries, e.2.coalesceKey = none → e ∈ rows'.entries
  counter : rows.counter ≤ rows'.counter
  sent : ∀ id key payload, .sent id key payload ∉ seen

namespace Beside

variable {rows rows' : SeqLog (OutRow P)} {history seen : List (QueueEvent P)} {d : Drain P}

theorem cleared (beside : Beside rows rows' history seen) {past : Nat → Prop}
    (cleared : Cleared d rows past) (below : ∀ n, past n → n ≤ rows.counter) :
    Cleared d rows' past := by
  intro unblocked e mem under gone
  rcases beside.known e mem with old | new
  · exact cleared unblocked e old under gone
  · exact absurd (below e.1 gone) (Nat.not_le.2 new)

theorem same (beside : Beside rows rows' history seen) {id : Nat} (q : OutRow P → Prop)
    (same : ∀ e ∈ rows.entries, e.1 = id → q e.2) (below : id ≤ rows.counter) :
    ∀ e ∈ rows'.entries, e.1 = id → q e.2 := by
  intro e mem here
  rcases beside.known e mem with old | new
  · exact same e old here
  · exact absurd (here ▸ below) (Nat.not_le.2 new)

theorem held (beside : Beside rows rows' history seen) (traced : Traced rows history) {id : Nat}
    {row : OutRow P} (held : Held rows history id row) : Held rows' (history ++ seen) id row where
  enqueued := List.mem_append_left _ held.enqueued
  same := beside.same (· = row) held.same (traced.below _ _ _ held.enqueued)
  unkeyed free := beside.unkeyed _ (held.unkeyed free) free
  last k m payload under mem := held.last k m payload under <|
    (List.mem_append.1 mem).resolve_right (beside.sent _ _ _)

theorem tried (beside : Beside rows rows' history seen) (traced : Traced rows history) {id : Nat}
    {row : OutRow P} (tried : Tried rows history d id row) :
    Tried rows' (history ++ seen) d id row where
  after := tried.after
  sent := List.mem_append_left _ tried.sent
  same := beside.same (· = row) tried.same (traced.below _ _ _ (traced.sent _ _ _ tried.sent))
  cleared := beside.cleared tried.cleared fun _ low =>
    Nat.le_trans (Nat.le_of_lt low) (traced.below _ _ _ (traced.sent _ _ _ tried.sent))

/-- **A drain's view survives what happens beside it.** -/
theorem view (beside : Beside rows rows' history seen) (traced : Traced rows history)
    (view : View rows history d) : View rows' (history ++ seen) d := by
  obtain ⟨after, there⟩ := view
  refine ⟨Nat.le_trans after beside.counter, ?_⟩
  have upTo : ∀ n, n ≤ d.after → n ≤ rows.counter := fun n low => Nat.le_trans low after
  split <;> rename_i point <;> rw [point] at there
  · exact beside.cleared there upTo
  · exact beside.cleared there upTo
  · exact ⟨beside.held traced there.1, beside.cleared there.2 fun _ low =>
      Nat.le_trans (Nat.le_of_lt low) (traced.below _ _ _ there.1.enqueued)⟩
  · exact beside.tried traced there
  · exact beside.tried traced there
  · exact ⟨beside.tried traced there.1, List.mem_append_left _ there.2⟩
  · obtain ⟨here, cleared, counted⟩ := there
    refine ⟨here, beside.cleared cleared fun n low => ?_, ?_⟩
    · exact upTo n (here ▸ Nat.le_of_lt low)
    · exact beside.same (fun r => r.coalesceKey = _ ∧ r.attempts = _) counted (here ▸ after)
  all_goals trivial

end Beside

/-! ## A step of a drain -/

section Step

variable {rows : SeqLog (OutRow P)} {history : List (QueueEvent P)} {d : Drain P}

theorem quiet_nil : Quiet ([] : List (QueueEvent P)) := fun _ mem => nomatch mem

theorem Traced.nil (traced : Traced rows history) : Traced rows (history ++ []) := by
  rwa [List.append_nil]

theorem nextQueued_some {after id : Nat} {row : OutRow P}
    (next : nextQueued rows after = some (id, row)) :
    (id, row) ∈ rows.entries ∧ after < id ∧ ∀ e ∈ rows.entries, e.1 < id → e.1 ≤ after := by
  obtain ⟨above, before, later, split, passed⟩ := List.find?_eq_some_iff_append.1 next
  refine ⟨?_, of_decide_eq_true above, fun e mem low => ?_⟩
  · rw [split]
    exact List.mem_append_right _ (List.mem_cons_self ..)
  · rw [split] at mem
    rcases List.mem_append.1 mem with first | rest
    · simpa using passed e first
    · -- What stands after it has a higher number.
      have ascending := rows.ascending
      rw [split, List.map_append, List.map_cons, List.pairwise_append, List.pairwise_cons] at ascending
      rcases List.mem_cons.1 rest with rfl | tail
      · exact absurd low (Nat.lt_irrefl _)
      · exact absurd low (Nat.lt_asymm (ascending.2.1.1 e.1 (List.mem_map_of_mem tail)))

theorem held_of_next (traced : Traced rows history) {after id : Nat} {row : OutRow P}
    (next : nextQueued rows after = some (id, row)) : Held rows history id row := by
  obtain ⟨mem, -, -⟩ := nextQueued_some next
  exact
    { enqueued := traced.enqueued _ mem
      same := fun e there same => congrArg Prod.snd (SeqLog.eq_of_number there mem same)
      unkeyed := fun _ => mem
      last := fun k m payload under sent =>
        traced.newest _ mem k m payload under (traced.sent _ _ _ sent) }

/-- Past a row, which is spent, or behind which the unkeyed rows are held back. -/
theorem Cleared.past {id : Nat} {blocked : Bool} {point : DrainPoint P}
    {after sent : Nat} (cleared : Cleared d rows (· < id))
    (same : ∀ e ∈ rows.entries, e.1 = id → e.2.coalesceKey = none → blocked = false →
      maxHandlerAttempts ≤ e.2.attempts)
    (kept : blocked = false → d.blockedUnkeyed = false) :
    Cleared ⟨after, blocked, sent, point⟩ rows (· ≤ id) := by
  intro unblocked e mem under low
  rcases Nat.lt_or_eq_of_le low with below | here
  · exact cleared (kept unblocked) e mem under below
  · exact same e mem here under unblocked

theorem look_keeps {retryAt : Nat → Nat} {now : Nat} {connected : Bool}
    {next : Option (Nat × OutRow P)} (traced : Traced rows history) (view : View rows history d)
    (point : d.point = .selected next) :
    Traced rows (history ++ (d.look retryAt now connected next).2) ∧
      View rows (history ++ (d.look retryAt now connected next).2)
        (d.look retryAt now connected next).1 := by
  obtain ⟨after, there⟩ := view
  rw [point] at there
  cases next with
  | none => exact ⟨traced.nil, after, trivial⟩
  | some found =>
      obtain ⟨id, row⟩ := found
      obtain ⟨held, cleared⟩ := there
      have low : id ≤ rows.counter := traced.below _ _ _ held.enqueued
      simp only [Drain.look]
      split
      · rename_i spent
        refine ⟨traced.nil, low, cleared.past (fun e mem here _ _ => ?_) fun h => h⟩
        rw [held.same e mem here]
        exact spent
      · rename_i unspent
        split
        · rename_i blocked
          refine ⟨traced.nil, low, cleared.past (fun _ _ _ _ unblocked => ?_) fun h => h⟩
          rw [blocked.2] at unblocked
          cases unblocked
        · rename_i unblocked
          split
          · refine ⟨traced.nil, low, cleared.past (fun e mem here under unheld => ?_) fun unheld => ?_⟩
            · rw [held.same e mem here] at under
              simp [under] at unheld
            · simp only [Bool.or_eq_false_iff] at unheld
              exact unheld.1
          · split
            · have unkeyed : row.coalesceKey = none → d.blockedUnkeyed = false := fun free => by
                simpa [free] using unblocked
              have last : ∀ m payload, .sent m row.coalesceKey payload ∈ history → m ≤ id := by
                intro m payload sent
                cases key : row.coalesceKey with
                | some k => exact held.last k m payload key (key ▸ sent)
                | none =>
                    -- Below a row that was sent it would be spent.
                    refine Nat.le_of_not_lt fun above => unspent ?_
                    exact traced.passed m payload (key ▸ sent) _ (held.unkeyed key) key above
              refine ⟨traced.send held.enqueued last fun free => cleared (unkeyed free), low, ?_⟩
              exact ⟨rfl, List.mem_append_right _ (List.mem_singleton.2 rfl), held.same, cleared⟩
            · exact ⟨traced.nil, low, trivial⟩

/-- An event that neither enqueues nor sends nor acknowledges. -/
theorem Traced.fired (traced : Traced rows history) (change : QueueChange) :
    Traced rows (history ++ [.fired change]) := by
  refine traced.quiet (fun event mem => ?_) fun id mem => nomatch List.mem_singleton.1 mem
  obtain rfl := List.mem_singleton.1 mem
  trivial

theorem backOff_keeps {id : Nat} {row : OutRow P} (traced : Traced rows history)
    (view : View rows history d) (point : d.point = .counted id row) :
    Traced rows (history ++ (d.backOff id row).2) ∧
      View rows (history ++ (d.backOff id row).2) (d.backOff id row).1 := by
  obtain ⟨after, there⟩ := view
  rw [point] at there
  obtain ⟨here, cleared, counted⟩ := there
  simp only [Drain.backOff]
  split
  · refine ⟨traced.nil, after, ?_⟩
    rw [← here] at cleared counted
    refine cleared.past (fun e mem same under unheld => ?_) fun unheld => ?_
    · rw [(counted e mem same).1] at under
      simp [under] at unheld
    · simp only [Bool.or_eq_false_iff] at unheld
      exact unheld.1
  · rename_i spent
    refine ⟨traced.fired _, after, ?_⟩
    rw [← here] at cleared counted
    refine cleared.past (fun e mem same _ _ => ?_) fun h => h
    rw [(counted e mem same).2]
    exact Nat.le_of_not_lt spent

theorem Traced.reply (traced : Traced rows history) {id : Nat} {row : OutRow P}
    (tried : Tried rows history d id row) : Traced rows (history ++ [.acknowledged id]) := by
  refine traced.quiet (fun event mem => ?_) fun id' mem => ?_
  · obtain rfl := List.mem_singleton.1 mem
    trivial
  · obtain ⟨rfl⟩ := QueueEvent.acknowledged.inj (List.mem_singleton.1 mem)
    exact ⟨_, _, tried.sent⟩

/-- A row that was acknowledged, or discarded, is deleted. -/
theorem Traced.delete {seen : List (QueueEvent P)} (traced : Traced rows history)
    (quiet : Quiet seen) (unacknowledged : ∀ id, .acknowledged id ∉ seen) {id : Nat}
    (settled : ∀ e ∈ rows.entries, e.1 = id → Settled (history ++ seen) id e.2.coalesceKey) :
    Traced (rows.filter fun e => e.1 ≠ id) (history ++ seen) := by
  refine traced.settle quiet (fun id' mem => absurd mem (unacknowledged id')) rfl
    (fun e mem => ⟨e, (SeqLog.mem_filter.1 mem).1, rfl, rfl, rfl, Nat.le_refl _⟩) fun e mem => ?_
  by_cases here : e.1 = id
  · rw [here]
    exact .inr (settled e mem here)
  · exact .inl ⟨e, SeqLog.mem_filter.2 ⟨mem, by simpa using here⟩, rfl, rfl, rfl⟩

theorem Traced.count (traced : Traced rows history) {id : Nat} {row : OutRow P}
    (tried : Tried rows history d id row) :
    Traced (rows.update id fun r => { r with attempts := row.attempts + 1 }) history := by
  rw [← List.append_nil history]
  refine traced.settle quiet_nil (fun _ mem => nomatch mem) rfl (fun e mem => ?_) fun e mem => ?_
  · rcases SeqLog.mem_update.1 mem with ⟨old, -⟩ | ⟨r, old, rfl⟩
    · exact ⟨e, old, rfl, rfl, rfl, Nat.le_refl _⟩
    · refine ⟨_, old, rfl, rfl, rfl, ?_⟩
      obtain rfl := tried.same _ old rfl
      exact Nat.le_succ _
  · refine .inl ?_
    by_cases here : e.1 = id
    · exact ⟨_, SeqLog.mem_update.2 (.inr ⟨e.2, here ▸ mem, rfl⟩), here.symm, rfl, rfl⟩
    · exact ⟨e, SeqLog.mem_update.2 (.inl ⟨mem, here⟩), rfl, rfl, rfl⟩

/-- **One step of a drain** keeps the rows traced and the drain's view of them. -/
theorem drainStep_keeps {s s' : DrainState P} {a : DrainAct} {seen : List (QueueEvent P)}
    (traced : Traced s.rows history) (view : View s.rows history s.drain)
    (stepped : drainStep s a = some (s', seen)) :
    Traced s'.rows (history ++ seen) ∧ View s'.rows (history ++ seen) s'.drain := by
  unfold drainStep at stepped
  dsimp only at stepped
  split at stepped <;> first
    | (cases stepped; done)
    | (rename_i point
       obtain ⟨rfl, rfl⟩ := Prod.mk.inj (Option.some.inj stepped)
       have whole := view
       obtain ⟨after, there⟩ := view
       rw [point] at there)
  · -- select
    refine ⟨traced.nil, after, ?_⟩
    rw [List.append_nil]
    cases next : nextQueued s.rows s.drain.after with
    | none => trivial
    | some found =>
        obtain ⟨id, row⟩ := found
        obtain ⟨-, -, between⟩ := nextQueued_some next
        exact ⟨held_of_next traced next, fun unheld e mem under low =>
          there unheld e mem under (between e mem low)⟩
  · exact look_keeps traced whole point
  · exact ⟨traced.reply there, after, ⟨there.after, List.mem_append_left _ there.sent, there.same,
      there.cleared⟩, List.mem_append_right _ (List.mem_singleton.2 rfl)⟩
  · rw [List.append_nil]
    exact ⟨traced, after, there.after, there.sent, there.same, there.cleared⟩
  · exact ⟨traced.nil, after, trivial⟩
  · -- the DELETE
    obtain ⟨tried, acknowledged⟩ := there
    refine ⟨traced.delete quiet_nil (fun _ mem => nomatch mem) fun e _ _ =>
      .inl (List.mem_append_left _ acknowledged), after, ?_⟩
    intro unheld e mem under low
    obtain ⟨old, off⟩ := SeqLog.mem_filter.1 mem
    rw [tried.after] at low
    exact tried.cleared unheld e old under (Nat.lt_of_le_of_ne low (by simpa using off))
  · -- the UPDATE
    rw [List.append_nil]
    refine ⟨traced.count there, after, there.after, fun unheld e mem under low => ?_, fun e mem here => ?_⟩
    · rcases SeqLog.mem_update.1 mem with ⟨old, -⟩ | ⟨r, old, rfl⟩
      · exact there.cleared unheld e old under low
      · exact absurd low (Nat.lt_irrefl _)
    · rcases SeqLog.mem_update.1 mem with ⟨-, off⟩ | ⟨r, old, rfl⟩
      · exact absurd here off
      · obtain rfl := there.same _ old rfl
        exact ⟨rfl, rfl⟩
  · exact ⟨traced.fired _, after, there⟩
  · exact backOff_keeps traced whole point
  · exact ⟨traced.nil, after, trivial⟩
  all_goals exact ⟨traced.nil, after, trivial⟩

end Step

/-! ## Runs -/

structure Kept (s : Queue P) : Prop where
  traced : Traced s.rows s.history
  views : ∀ d ∈ s.drains, View s.rows s.history d
  /-- One drain at a time. -/
  alone : s.drains = [] ∨ ∃ d, s.drains = [d] ∧ s.draining = true
  discards : ∀ x ∈ s.discards, ∃ payload,
    .enqueued x.rowId (some x.coalesceKey) payload ∈ s.history

namespace Kept

variable {s s' : Queue P}

theorem fresh : Kept (.fresh : Queue P) :=
  ⟨traced_fresh, fun _ mem => (nomatch mem), .inl rfl, fun _ mem => (nomatch mem)⟩

theorem discards_mono (kept : Kept s) {seen : List (QueueEvent P)} {x : Discard}
    (mem : x ∈ s.discards) :
    ∃ payload, .enqueued x.rowId (some x.coalesceKey) payload ∈ s.history ++ seen := by
  obtain ⟨payload, came⟩ := kept.discards x mem
  exact ⟨payload, List.mem_append_left _ came⟩

theorem enqueue (kept : Kept s) (payload : P) (key : Option String)
    (stepped : queueStep s (.enqueue payload key) = some s') : Kept s' := by
  obtain rfl := Option.some.inj stepped
  have beside : Beside s.rows ((s.rows.filter (otherKey key)).append ⟨payload, 0, key⟩) s.history
      [.enqueued (s.rows.counter + 1) key payload] := by
    refine ⟨fun e mem => ?_, fun e mem under => ?_, Nat.le_succ _, fun id key' payload' mem =>
      nomatch List.mem_singleton.1 mem⟩
    · rcases SeqLog.mem_append.1 mem with old | rfl
      · exact .inl (SeqLog.mem_filter.1 old).1
      · exact .inr (Nat.lt_succ_self _)
    · refine SeqLog.mem_append.2 (.inl (SeqLog.mem_filter.2 ⟨mem, ?_⟩))
      cases key <;> simp [otherKey, under]
  exact ⟨kept.traced.enqueue payload key, fun d mem => beside.view kept.traced (kept.views d mem),
    kept.alone, fun x mem => kept.discards_mono mem⟩

theorem discardQueued (kept : Kept s) (rowId : Nat)
    (stepped : queueStep s (.discardQueued rowId) = some s') : Kept s' := by
  simp only [queueStep] at stepped
  split at stepped
  · rename_i key found
    obtain rfl := Option.some.inj stepped
    refine ⟨kept.traced, kept.views, kept.alone, fun x mem => ?_⟩
    rcases List.mem_append.1 mem with old | new
    · exact kept.discards x old
    · obtain rfl := List.mem_singleton.1 new
      obtain ⟨e, here, under⟩ := Option.bind_eq_some_iff.1 found
      have number : e.1 = rowId := by simpa using List.find?_some here
      have came := kept.traced.enqueued e (List.mem_of_find?_eq_some here)
      rw [under, number] at came
      exact ⟨_, came⟩
  · obtain rfl := Option.some.inj stepped
    exact kept

/-- The discarded row is a keyed one, whoever else has touched it. -/
theorem discardDelete (kept : Kept s) (i : Nat)
    (stepped : queueStep s (.discardDelete i) = some s') : Kept s' := by
  simp only [queueStep] at stepped
  split at stepped
  · rename_i rowId key pending
    obtain rfl := Option.some.inj stepped
    have mem := List.mem_of_getElem? pending
    obtain ⟨payload, came⟩ := kept.discards _ mem
    have quiet : Quiet (if rowId ∈ s.rows.entries.map Prod.fst then
        [(.discarded rowId : QueueEvent P)] else []) := by
      intro event there
      split at there
      · obtain rfl := List.mem_singleton.1 there
        trivial
      · cases there
    have unacknowledged : ∀ id, .acknowledged id ∉ (if rowId ∈ s.rows.entries.map Prod.fst then
        [(.discarded rowId : QueueEvent P)] else []) := by
      intro id there
      split at there
      · cases List.mem_singleton.1 there
      · cases there
    have beside : Beside s.rows (s.rows.filter fun e => e.1 ≠ rowId) s.history
        (if rowId ∈ s.rows.entries.map Prod.fst then [.discarded rowId] else []) := by
      refine ⟨fun e there => .inl (SeqLog.mem_filter.1 there).1, fun e there under => ?_,
        Nat.le_refl _, fun id key' payload' there => quiet _ there⟩
      refine SeqLog.mem_filter.2 ⟨there, decide_eq_true fun here => ?_⟩
      have unkeyed := kept.traced.enqueued e there
      rw [here, under] at unkeyed
      exact nomatch (kept.traced.once _ _ _ _ _ unkeyed came).1
    refine ⟨kept.traced.delete quiet unacknowledged fun e there here => ?_,
      fun d mem => beside.view kept.traced (kept.views d mem), kept.alone, fun x there => ?_⟩
    · rw [if_pos (List.mem_map.2 ⟨e, there, here⟩)]
      exact .inr (.inl (List.mem_append_right _ (List.mem_singleton.2 rfl)))
    · rcases List.mem_or_eq_of_mem_set there with old | rfl
      · exact kept.discards_mono old
      · exact ⟨payload, List.mem_append_left _ came⟩
  · cases stepped

theorem discardReturn (kept : Kept s) (i : Nat)
    (stepped : queueStep s (.discardReturn i) = some s') : Kept s' := by
  simp only [queueStep] at stepped
  split at stepped
  · rename_i rowId key pending
    obtain rfl := Option.some.inj stepped
    have beside : Beside s.rows s.rows s.history [.fired (.discarded rowId (some key))] :=
      ⟨fun e mem => .inl mem, fun e mem _ => mem, Nat.le_refl _, fun _ _ _ mem =>
        nomatch List.mem_singleton.1 mem⟩
    exact ⟨kept.traced.fired _, fun d mem => beside.view kept.traced (kept.views d mem), kept.alone,
      fun x mem => kept.discards_mono (List.mem_of_mem_eraseIdx mem)⟩
  · cases stepped

theorem drainOutbound (kept : Kept s) (stepped : queueStep s .drainOutbound = some s') :
    Kept s' := by
  simp only [queueStep] at stepped
  split at stepped
  · obtain rfl := Option.some.inj stepped
    exact kept
  · rename_i idle
    obtain rfl := Option.some.inj stepped
    have none : s.drains = [] := kept.alone.resolve_right fun ⟨d, _, draining⟩ => idle draining
    refine ⟨kept.traced, fun d mem => ?_, .inr ⟨.start, by rw [none]; rfl, rfl⟩, kept.discards⟩
    rw [none] at mem
    obtain rfl := List.mem_singleton.1 mem
    refine ⟨Nat.zero_le _, fun _ e there _ low => ?_⟩
    have positive := kept.traced.positive _ _ _ (kept.traced.enqueued e there)
    exact absurd positive (Nat.not_lt.2 low)

theorem drain (kept : Kept s) (i : Nat) (a : DrainAct)
    (stepped : queueStep s (.drain i a) = some s') : Kept s' := by
  obtain ⟨d, there, moved⟩ := Option.bind_eq_some_iff.1 stepped
  obtain ⟨⟨after, seen⟩, step, rfl⟩ := Option.map_eq_some_iff.1 moved
  obtain ⟨traced, view⟩ := drainStep_keeps kept.traced (kept.views d (List.mem_of_getElem? there)) step
  -- The drain that moves is the only one.
  obtain ⟨d', only, draining⟩ := kept.alone.resolve_left fun none => by
    rw [none] at there
    cases there
  rw [only] at there
  cases i with
  | zero =>
      have set : s.drains.set 0 after.drain = [after.drain] := by rw [only]; rfl
      refine ⟨traced, fun x mem => ?_, .inr ⟨after.drain, set, draining⟩, fun x mem =>
        kept.discards_mono mem⟩
      have mem : x ∈ s.drains.set 0 after.drain := mem
      rw [set] at mem
      obtain rfl := List.mem_singleton.1 mem
      exact view
  | succ i => cases there

theorem drained (kept : Kept s) (i : Nat) (stepped : queueStep s (.drained i) = some s') :
    Kept s' := by
  simp only [queueStep] at stepped
  split at stepped
  · rename_i there
    obtain rfl := Option.some.inj stepped
    obtain ⟨d', only, -⟩ := kept.alone.resolve_left fun none => by
      rw [none] at there
      cases there
    have erased : s.drains.eraseIdx i = [] := by
      rw [only] at there ⊢
      cases i with
      | zero => rfl
      | succ i => cases there
    exact ⟨kept.traced, fun d mem => kept.views d (List.mem_of_mem_eraseIdx mem), .inl erased,
      kept.discards⟩
  · cases stepped

theorem crash (kept : Kept s) (stepped : queueStep s .crash = some s') : Kept s' := by
  obtain rfl := Option.some.inj stepped
  exact ⟨kept.traced, fun _ mem => (nomatch mem), .inl rfl, fun _ mem => (nomatch mem)⟩

theorem step (kept : Kept s) {a : QueueAct P} (stepped : queueStep s a = some s') : Kept s' := by
  cases a with
  | enqueue payload key => exact kept.enqueue payload key stepped
  | discardQueued rowId => exact kept.discardQueued rowId stepped
  | discardDelete i => exact kept.discardDelete i stepped
  | discardReturn i => exact kept.discardReturn i stepped
  | drainOutbound => exact kept.drainOutbound stepped
  | drain i a => exact kept.drain i a stepped
  | drained i => exact kept.drained i stepped
  | crash => exact kept.crash stepped

end Kept

/-! ## Delivery -/

def Drain.isInFlight (d : Drain P) : Bool :=
  match d.point with
  | .inFlight _ _ => true
  | _ => false

/-- The newest value put into the queue under a key. -/
def LastEnqueued (history : List (QueueEvent P)) (key : String) (id : Nat) (payload : P) : Prop :=
  .enqueued id (some key) payload ∈ history ∧
    ∀ id' payload', .enqueued id' (some key) payload' ∈ history → id' ≤ id

theorem Traced.lastSent {rows : SeqLog (OutRow P)} {history : List (QueueEvent P)}
    (traced : Traced rows history) {key : String} {id : Nat} {payload : P}
    (last : LastEnqueued history key id payload) (acknowledged : .acknowledged id ∈ history) :
    (sentUnder (some key) history).getLast? = some (id, payload) := by
  obtain ⟨key', payload', sent⟩ := traced.acknowledged id acknowledged
  obtain ⟨rfl, rfl⟩ := traced.once _ _ _ _ _ (traced.sent _ _ _ sent) last.1
  have mem := mem_sentUnder.2 sent
  obtain ⟨⟨id', payload''⟩, final⟩ := List.getLast?_isSome.2 (List.ne_nil_of_mem mem) |>
    Option.isSome_iff_exists.1
  -- The last one sent is at least this one, and was enqueued no later.
  have sent' := mem_sentUnder.1 (List.mem_of_getLast? final)
  obtain ⟨before, split⟩ := List.getLast?_eq_some_iff.1 final
  have low := last.2 id' payload'' (traced.sent _ _ _ sent')
  have high : id ≤ id' := by
    have order := traced.order (some key)
    rw [split] at mem order
    rcases List.mem_append.1 mem with earlier | here
    · exact (List.pairwise_append.1 order).2.2 _ earlier _ (List.mem_singleton.2 rfl)
    · exact Nat.le_of_eq (congrArg Prod.fst (List.mem_singleton.1 here))
  obtain rfl := Nat.le_antisymm low high
  obtain ⟨-, rfl⟩ := traced.once _ _ _ _ _ (traced.sent _ _ _ sent') last.1
  exact final

/-- **The queue delivers.** -/
theorem queue_delivers {acts : List (QueueAct P)} {s : Queue P}
    (ran : runSteps queueStep .fresh acts = some s) :
    (∀ key, (sentUnder key s.history).Pairwise fun a b => a.1 ≤ b.1) ∧
      (∀ id key payload, .enqueued id key payload ∈ s.history →
        Waits s.rows id key payload ∨ Settled s.history id key) ∧
      (s.drains.filter Drain.isInFlight).length ≤ 1 ∧
      ∀ key id payload, LastEnqueued s.history key id payload → .discarded id ∉ s.history →
        Waits s.rows id (some key) payload ∨
          (sentUnder (some key) s.history).getLast? = some (id, payload) ∧
            .acknowledged id ∈ s.history := by
  have kept : Kept s := run_invariant (fun _ _ _ kept stepped => kept.step stepped) .fresh ran
  refine ⟨kept.traced.order, kept.traced.fate, ?_, fun key id payload last undiscarded => ?_⟩
  · refine Nat.le_trans (List.length_filter_le _ _) ?_
    rcases kept.alone with none | ⟨d, only, -⟩
    · rw [none]
      exact Nat.zero_le _
    · rw [only]
      exact Nat.le_refl _
  · rcases kept.traced.fate id (some key) payload last.1 with waits | acked | gone | replaced
    · exact .inl waits
    · exact .inr ⟨kept.traced.lastSent last acked, acked⟩
    · exact absurd gone undiscarded
    · obtain ⟨k, id', payload', same, later, came⟩ := replaced
      obtain rfl := Option.some.inj same
      exact absurd later (Nat.not_lt.2 (last.2 id' payload' came))

/-- The values enqueued under a key whose row was not discarded, in order. -/
def undiscarded (key : String) (history : List (QueueEvent P)) : List (Nat × P) :=
  (history.filterMap fun
    | .enqueued id key' payload => if key' = some key then some (id, payload) else none
    | _ => none).filter fun e => history.all fun
      | .discarded id => id ≠ e.1
      | _ => true

/-- A value, the one that replaces it, the replacement discarded, and a whole drain. -/
def discardNewer : List (QueueAct String) :=
  [.enqueue "light" (some "theme"), .enqueue "dark" (some "theme"), .discardQueued 2,
    .discardDelete 0, .discardReturn 0, .drainOutbound, .drain 0 .select, .drain 0 (.look 0 true),
    .drain 0 .count, .drained 0]

/-- **A discard drops the replaced value too**: the queue is empty and at rest, the
last value enqueued that was not discarded was never sent, and its row went
without an acknowledgement. -/
theorem discard_drops_replaced :
    ∃ s, runSteps queueStep .fresh discardNewer = some s ∧ s.rows.entries = [] ∧ s.drains = [] ∧
      s.discards = [] ∧ (undiscarded "theme" s.history).getLast? = some (1, "light") ∧
      (sentUnder (some "theme") s.history).getLast? = none ∧ .acknowledged 1 ∉ s.history := by
  refine ⟨_, rfl, rfl, rfl, rfl, ?_, ?_, ?_⟩ <;> decide

/-- A value is replaced while it is in flight; the drain sends the newer one too. -/
def replacedInFlight : List (QueueAct String) :=
  [.enqueue "light" (some "theme"), .drainOutbound, .drain 0 .select, .drain 0 (.look 0 true),
    .enqueue "dark" (some "theme"), .drainOutbound, .drain 0 (.reply .ok), .drain 0 .write,
    .drain 0 (.resume 0), .drain 0 .select, .drain 0 (.look 0 true), .drain 0 (.reply .ok),
    .drain 0 .write]

theorem queue_delivers_replacedInFlight :
    ∃ s, runSteps queueStep .fresh replacedInFlight = some s ∧
      (Waits s.rows 2 (some "theme") "dark" ∨
        (sentUnder (some "theme") s.history).getLast? = some (2, "dark") ∧
          .acknowledged 2 ∈ s.history) := by
  have run : ∃ s, runSteps queueStep .fresh replacedInFlight = some s ∧ s.rows.counter = 2 ∧
      .enqueued 2 (some "theme") "dark" ∈ s.history ∧ .discarded 2 ∉ s.history :=
    ⟨_, rfl, rfl, by decide, by decide⟩
  obtain ⟨s, ran, counter, came, undiscarded⟩ := run
  have kept : Kept s := run_invariant (fun _ _ _ kept stepped => kept.step stepped) .fresh ran
  refine ⟨s, ran, (queue_delivers ran).2.2.2 "theme" 2 "dark" ⟨came, fun id payload other => ?_⟩
    undiscarded⟩
  exact counter ▸ kept.traced.below _ _ _ other

end Kiagent.Sync.OutboundQueue
