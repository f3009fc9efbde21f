/-
# Platform.Records -- what an endpoint keeps of the calls it makes

Every id an endpoint gives out has its record or its settlement, one of the two and
once (`Books`).  Every event keeps that, as long as the send of a call and of a cancel
does not throw (`Books.step`).  A throw breaks it at once (`Books.broken`): the record
of a call whose send threw outlives its promise, a call whose cancel threw has lost its
record and never settles, and a `dispose` whose cancel threw keeps the records it has
just rejected.
-/
import Kiagent.Platform.Endpoint

namespace Kiagent.Platform

set_option autoImplicit false

universe u

variable {V : Type u}

namespace Endpoint

/-! ## Records -/

/-- What an endpoint holds of the calls it makes. -/
def calls (e : Endpoint V) : Nat × Bool × List Nat × List Nat × List Nat × List (Nat × Cause V) :=
  (e.nextId, e.disposed, e.pending, e.timers, e.listeners, e.settled)

theorem serve_calls (e : Endpoint V) (id : Nat) (request : Request V) (deadline : Option Int)
    (now : Int) (sent : Bool) : (e.serve id request deadline now sent).1.calls = e.calls := by
  unfold serve
  split <;> rfl

theorem onCancel_calls (e : Endpoint V) (id : Nat) : (e.onCancel id).calls = e.calls := by
  unfold onCancel
  split <;> rfl

/-- Every id that was given out has its record or its settlement, one of the two and
once; timers and listeners belong to records. -/
structure Books (e : Endpoint V) : Prop where
  first : 0 < e.nextId
  once : ∀ id, e.pending.count id + (e.settled.map Prod.fst).count id =
    if 0 < id ∧ id < e.nextId then 1 else 0
  timers : ∀ id ∈ e.timers, id ∈ e.pending
  listeners : ∀ id ∈ e.listeners, id ∈ e.pending
  closed : e.disposed = true → e.pending = []

namespace Books

variable {e : Endpoint V}

theorem initial : Books ({} : Endpoint V) :=
  ⟨by simp, fun id => by simp; omega, by simp, by simp, by simp⟩

theorem issued (books : Books e) {id : Nat} (held : id ∈ e.pending) : 0 < id ∧ id < e.nextId := by
  have once := books.once id
  have some := List.count_pos_iff.2 held
  split at once
  · assumption
  · omega

/-- Two endpoints with the same records. -/
theorem of_same {e' : Endpoint V} (books : Books e) (pending : e'.pending = e.pending)
    (settled : e'.settled = e.settled) (nextId : e'.nextId = e.nextId)
    (timers : ∀ id ∈ e'.timers, id ∈ e.timers)
    (listeners : ∀ id ∈ e'.listeners, id ∈ e.listeners)
    (disposed : e'.disposed = e.disposed) : Books e' where
  first := nextId ▸ books.first
  once := by rw [pending, settled, nextId]; exact books.once
  timers id mem := pending ▸ books.timers id (timers id mem)
  listeners id mem := pending ▸ books.listeners id (listeners id mem)
  closed ended := by rw [pending]; exact books.closed (disposed ▸ ended)

theorem of_calls {e' : Endpoint V} (books : Books e) (same : e'.calls = e.calls) : Books e' := by
  simp only [calls, Prod.mk.injEq] at same
  obtain ⟨nextId, disposed, pending, timers, listeners, settled⟩ := same
  exact books.of_same pending settled nextId (fun _ mem => timers ▸ mem)
    (fun _ mem => listeners ▸ mem) disposed

/-- A record leaves with its timer and its listener, and its promise settles. -/
theorem settle_drop (books : Books e) {id : Nat} (held : id ∈ e.pending) (cause : Cause V) :
    Books ((e.drop id).settle id cause) where
  first := books.first
  once other := by
    have once := books.once other
    show (e.pending.filter (· ≠ id)).count other +
      ((e.settled ++ [(id, cause)]).map Prod.fst).count other = _
    rw [List.map_append, List.count_append]
    by_cases same : other = id
    · subst same
      have here := List.count_pos_iff.2 held
      have gone : (e.pending.filter (· ≠ other)).count other = 0 :=
        List.count_eq_zero.2 fun mem => by simpa using (List.mem_filter.1 mem).2
      have issued := books.issued held
      rw [if_pos issued] at once
      show _ = if 0 < other ∧ other < e.nextId then 1 else 0
      rw [if_pos issued, gone]
      simp only [List.map_cons, List.map_nil, List.count_singleton_self]
      omega
    · rw [List.count_filter (by simpa using same)]
      show _ = if 0 < other ∧ other < e.nextId then 1 else 0
      simpa [List.count_singleton, Ne.symm same] using once
  timers other mem := by
    obtain ⟨old, ne⟩ := List.mem_filter.1 mem
    exact List.mem_filter.2 ⟨books.timers other old, ne⟩
  listeners other mem := by
    obtain ⟨old, ne⟩ := List.mem_filter.1 mem
    exact List.mem_filter.2 ⟨books.listeners other old, ne⟩
  closed ended := by
    show e.pending.filter _ = []
    rw [books.closed ended]
    rfl

theorem abort (books : Books e) {id : Nat} {cause : Cause V} {sent : Bool}
    (went : id ∈ e.pending → sent = true) : Books (e.abort id cause sent).1 := by
  unfold Endpoint.abort
  split
  case isTrue held =>
    rw [if_pos (went held)]
    exact books.settle_drop held cause
  case isFalse => exact books

theorem timeout (books : Books e) {id : Nat} {sent : Bool}
    (went : id ∈ e.pending → sent = true) : Books (e.timeout id sent).1 :=
  have fired : Books { e with timers := e.timers.filter (· ≠ id) } :=
    books.of_same rfl rfl rfl (fun _ mem => (List.mem_filter.1 mem).1) (fun _ mem => mem) rfl
  fired.abort went

theorem onAbort (books : Books e) {id : Nat} {sent : Bool}
    (went : id ∈ e.pending → sent = true) : Books (e.onAbort id sent).1 :=
  have called : Books { e with listeners := e.listeners.filter (· ≠ id) } :=
    books.of_same rfl rfl rfl (fun _ mem => mem) (fun _ mem => (List.mem_filter.1 mem).1) rfl
  called.abort went

theorem onReply (books : Books e) (r : ReplyMsg V) : Books (e.onReply r) := by
  unfold Endpoint.onReply
  split
  case isTrue held => exact books.settle_drop held _
  case isFalse => exact books

theorem mem_issued {held marked : List Nat} {mark : Bool} {new id : Nat}
    (all : ∀ id ∈ marked, id ∈ held) (mem : id ∈ if mark then marked ++ [new] else marked) :
    id ∈ held ++ [new] := by
  cases mark with
  | false => exact List.mem_append_left _ (all id mem)
  | true =>
      rcases List.mem_append.1 mem with old | new
      · exact List.mem_append_left _ (all id old)
      · exact List.mem_append_right _ new

theorem call (books : Books e) {ns method : String} {args : List V} {options : CallOptions}
    {now : Int} {failure : Option (RpcError V)}
    (went : e.throws (.call ns method args options now failure) = false) :
    Books (e.call ns method args options now failure).1 := by
  unfold Endpoint.call
  split
  · exact books.of_same rfl rfl rfl (fun _ mem => mem) (fun _ mem => mem) rfl
  · split
    · exact books.of_same rfl rfl rfl (fun _ mem => mem) (fun _ mem => mem) rfl
    · rename_i live unsignalled
      obtain rfl : failure = none := by
        cases failure with
        | none => rfl
        | some error => simp [throws, live, unsignalled] at went
      have first := books.first
      refine ⟨Nat.succ_pos _, fun id => ?_, fun id mem => ?_, fun id mem => ?_, fun ended => ?_⟩
      · have once := books.once id
        show (e.pending ++ [e.nextId]).count id + (e.settled.map Prod.fst).count id =
          if 0 < id ∧ id < e.nextId + 1 then 1 else 0
        rw [List.count_append, List.count_singleton]
        by_cases here : e.nextId = id
        · subst here
          rw [if_neg (by omega)] at once
          rw [if_pos (beq_self_eq_true _), if_pos ⟨first, Nat.lt_succ_self _⟩]
          omega
        · rw [if_neg (by simpa using here), Nat.add_zero, once]
          split <;> split <;> omega
      · exact mem_issued books.timers mem
      · exact mem_issued books.listeners mem
      · exact absurd ended live

theorem dispose (books : Books e) {reason : RpcError V} {stop : Option Nat}
    (went : e.throws (.dispose reason stop) = false) : Books (e.dispose reason stop).1 := by
  unfold Endpoint.dispose
  split
  case isTrue => exact books
  case isFalse live =>
    have all : e.cutShort stop = none := by simpa [throws, live] using went
    simp only [all]
    refine ⟨books.first, fun id => ?_, fun id mem => ?_, fun id mem => ?_, fun _ => rfl⟩
    · have once := books.once id
      show [].count id + ((e.settled ++ e.pending.map _).map Prod.fst).count id = _
      rw [List.map_append, List.map_map, List.count_append]
      have same : e.pending.map (Prod.fst ∘ fun id => (id, Cause.disposed reason)) = e.pending :=
        List.map_id _
      rw [same, List.count_nil, Nat.zero_add, Nat.add_comm]
      exact once
    · have out := (List.mem_filter.1 mem).2
      exact absurd (books.timers id (List.mem_filter.1 mem).1) (by simpa using out)
    · have out := (List.mem_filter.1 mem).2
      exact absurd (books.listeners id (List.mem_filter.1 mem).1) (by simpa using out)

/-- **An event none of whose sends of a call or a cancel throws keeps the records.** -/
theorem step (books : Books e) {event : Event V} {e' : Endpoint V} {out : List (Msg V)}
    (went : e.throws event = false) (stepped : e.step event = some (e', out)) : Books e' := by
  cases event with
  | onCall =>
      cases stepped
      exact books.of_same rfl rfl rfl (fun _ mem => mem) (fun _ mem => mem) rfl
  | call ns method args options now failure =>
      have kept := books.call went
      rw [Option.some.inj stepped] at kept
      exact kept
  | timeout id sent =>
      simp only [Endpoint.step] at stepped
      split at stepped
      · have went : id ∈ e.pending → sent = true := fun held => by
          simpa [throws, held] using went
        have kept := books.timeout went
        rw [Option.some.inj stepped] at kept
        exact kept
      · cases stepped
  | abort id sent =>
      simp only [Endpoint.step] at stepped
      split at stepped
      · have went : id ∈ e.pending → sent = true := fun held => by
          simpa [throws, held] using went
        have kept := books.onAbort went
        rw [Option.some.inj stepped] at kept
        exact kept
      · cases stepped
  | receive msg now sent =>
      simp only [Endpoint.step] at stepped
      split at stepped
      · cases stepped
        exact books
      · cases msg with
        | call id request deadline =>
            have kept := books.of_calls (e.serve_calls id request deadline now sent)
            rw [Option.some.inj stepped] at kept
            exact kept
        | cancel id =>
            cases stepped
            exact books.of_calls (e.onCancel_calls id)
        | reply r =>
            cases stepped
            exact books.onReply r
  | finish t result first second =>
      simp only [Endpoint.step] at stepped
      split at stepped
      · split at stepped
        · cases stepped
          exact books.of_calls rfl
        · cases stepped
      · cases stepped
  | retire t =>
      simp only [Endpoint.step] at stepped
      split at stepped
      · split at stepped
        · cases stepped
          exact books.of_calls rfl
        · cases stepped
      · cases stepped
  | deadline t =>
      simp only [Endpoint.step] at stepped
      split at stepped
      · split at stepped
        · cases stepped
          exact books.of_calls rfl
        · cases stepped
      · cases stepped
  | dispose reason stop =>
      have kept := books.dispose went
      rw [Option.some.inj stepped] at kept
      exact kept

end Books

variable {e e' : Endpoint V} {event : Event V} {out : List (Msg V)}

/-! ## What a throw breaks -/

/-- The number of times the promise of a call was settled. -/
def settlements (e : Endpoint V) (id : Nat) : Nat := (e.settled.map Prod.fst).count id

theorem settlements_ne_zero {id : Nat} {cause : Cause V} (mem : (id, cause) ∈ e.settled) :
    e.settlements id ≠ 0 := fun none =>
  List.count_eq_zero.1 none (List.mem_map_of_mem mem)

/-- A call that waits, or one that has settled once and has nothing left. -/
def Settles (e : Endpoint V) (id : Nat) : Prop :=
  (id ∈ e.pending ∧ e.settlements id = 0) ∨
    (e.settlements id = 1 ∧ id ∉ e.pending ∧ id ∉ e.timers ∧ id ∉ e.listeners)

theorem Books.settles (books : Books e) {id : Nat} (first : 0 < id) (issued : id < e.nextId) :
    e.Settles id := by
  have once := books.once id
  rw [if_pos ⟨first, issued⟩] at once
  by_cases held : id ∈ e.pending
  · have here := List.count_pos_iff.2 held
    exact .inl ⟨held, by unfold settlements; omega⟩
  · have none := List.count_eq_zero.2 held
    exact .inr ⟨by unfold settlements; omega, held, fun mem => held (books.timers id mem),
      fun mem => held (books.listeners id mem)⟩

/-- A record that is gone without a settlement. -/
theorem Books.drop_broken (books : Books e) {id : Nat} (held : id ∈ e.pending)
    (settled : e'.settled = e.settled) (pending : e'.pending = e.pending.filter (· ≠ id)) :
    ¬ e'.Settles id := by
  have once := books.once id
  rw [if_pos (books.issued held)] at once
  have here := List.count_pos_iff.2 held
  have gone : id ∉ e'.pending := fun mem => by
    rw [pending] at mem
    simpa using (List.mem_filter.1 mem).2
  rintro (⟨mem, -⟩ | ⟨settlements, -⟩)
  · exact gone mem
  · unfold Endpoint.settlements at settlements
    rw [settled] at settlements
    omega

/-- **A throw leaves a call that neither waits nor has settled with nothing left.** -/
theorem Books.broken (books : Books e) (threw : e.throws event = true)
    (stepped : e.step event = some (e', out)) :
    ∃ id, 0 < id ∧ id < e'.nextId ∧ ¬ e'.Settles id := by
  cases event with
  | onCall => cases threw
  | call ns method args options now failure =>
      simp only [throws, Bool.and_eq_true, Bool.not_eq_true', decide_eq_true_eq] at threw
      obtain ⟨⟨live, unsignalled⟩, failed⟩ := threw
      obtain ⟨error, rfl⟩ := Option.isSome_iff_exists.1 failed
      simp only [Endpoint.step, Endpoint.call, live, if_neg unsignalled, Bool.false_eq_true, if_false]
        at stepped
      cases stepped
      refine ⟨e.nextId, books.first, Nat.lt_succ_self _, ?_⟩
      rintro (⟨-, none⟩ | ⟨-, out, -⟩)
      · exact settlements_ne_zero
          (List.mem_append_right _ (List.mem_singleton_self (e.nextId, Cause.sendFailed error))) none
      · exact out (List.mem_append_right _ (List.mem_singleton_self _))
  | timeout id sent =>
      simp only [throws, Bool.and_eq_true, decide_eq_true_eq, Bool.not_eq_true'] at threw
      obtain ⟨held, rfl⟩ := threw
      simp only [Endpoint.step, Endpoint.timeout, Endpoint.abort, if_pos held] at stepped
      split at stepped
      · cases stepped
        exact ⟨id, (books.issued held).1, (books.issued held).2, books.drop_broken held rfl rfl⟩
      · cases stepped
  | abort id sent =>
      simp only [throws, Bool.and_eq_true, decide_eq_true_eq, Bool.not_eq_true'] at threw
      obtain ⟨held, rfl⟩ := threw
      simp only [Endpoint.step, Endpoint.onAbort, Endpoint.abort, if_pos held] at stepped
      split at stepped
      · cases stepped
        exact ⟨id, (books.issued held).1, (books.issued held).2, books.drop_broken held rfl rfl⟩
      · cases stepped
  | receive msg now sent => cases threw
  | finish t result first second => cases threw
  | retire t => cases threw
  | deadline t => cases threw
  | dispose reason stop =>
      simp only [throws, Bool.and_eq_true, Bool.not_eq_true'] at threw
      obtain ⟨live, short⟩ := threw
      obtain ⟨sent, cut⟩ := Option.isSome_iff_exists.1 short
      simp only [Endpoint.step, Endpoint.dispose, live, cut, Bool.false_eq_true, if_false] at stepped
      cases stepped
      have some : 0 < e.pending.length := by
        have below := (Option.filter_eq_some_iff.1 cut).2
        have below : sent < e.pending.length := by simpa using below
        omega
      obtain ⟨id, held⟩ := List.exists_mem_of_length_pos some
      refine ⟨id, (books.issued held).1, (books.issued held).2, ?_⟩
      rintro (⟨-, none⟩ | ⟨-, out, -⟩)
      · have mem : (id, Cause.disposed reason) ∈
            e.settled ++ e.pending.map fun id => (id, Cause.disposed reason) :=
          List.mem_append_right _ (List.mem_map_of_mem held)
        exact settlements_ne_zero mem none
      · exact out held

/-! ## What settles a call -/

/-- What an event settles a waiting call by. -/
def Event.cause (event : Event V) (id : Nat) : Option (Cause V) :=
  match event with
  | .timeout other _ => if other = id then some .timedOut else none
  | .abort other _ => if other = id then some .aborted else none
  | .receive (.reply r) _ _ => if r.id = id then some (.reply r) else none
  | .dispose reason _ => some (.disposed reason)
  | _ => none

theorem mem_settle_drop {id other : Nat} {cause c : Cause V} (held : id ∈ e.pending) :
    (other, c) ∈ ((e.drop id).settle id cause).settled ↔
      (other, c) ∈ e.settled ∨ (other ∈ e.pending ∧ id = other ∧ cause = c) := by
  show (other, c) ∈ e.settled ++ [(id, cause)] ↔ _
  rw [List.mem_append, List.mem_singleton, Prod.mk.injEq]
  constructor
  · rintro (old | ⟨rfl, rfl⟩)
    · exact .inl old
    · exact .inr ⟨held, rfl, rfl⟩
  · rintro (old | ⟨-, rfl, rfl⟩)
    · exact .inl old
    · exact .inr ⟨rfl, rfl⟩

theorem mem_abort {id other : Nat} {cause c : Cause V} {sent : Bool}
    (went : id ∈ e.pending → sent = true) :
    (other, c) ∈ (e.abort id cause sent).1.settled ↔
      (other, c) ∈ e.settled ∨ (other ∈ e.pending ∧ id = other ∧ cause = c) := by
  unfold abort
  split
  case isTrue held =>
    rw [if_pos (went held)]
    exact mem_settle_drop held
  case isFalse free =>
    constructor
    · exact .inl
    · rintro (old | ⟨held, rfl, -⟩)
      · exact old
      · exact absurd held free

theorem mem_timeout {id : Nat} {sent : Bool} (other : Nat) (c : Cause V)
    (went : id ∈ e.pending → sent = true) :
    (other, c) ∈ (e.timeout id sent).1.settled ↔
      (other, c) ∈ e.settled ∨ (other ∈ e.pending ∧ id = other ∧ .timedOut = c) :=
  mem_abort (e := { e with timers := e.timers.filter (· ≠ id) }) went

theorem mem_onAbort {id : Nat} {sent : Bool} (other : Nat) (c : Cause V)
    (went : id ∈ e.pending → sent = true) :
    (other, c) ∈ (e.onAbort id sent).1.settled ↔
      (other, c) ∈ e.settled ∨ (other ∈ e.pending ∧ id = other ∧ .aborted = c) :=
  mem_abort (e := { e with listeners := e.listeners.filter (· ≠ id) }) went

theorem call_settled {ns method : String} {args : List V} {options : CallOptions} {now : Int}
    {failure : Option (RpcError V)}
    (went : e.throws (.call ns method args options now failure) = false) :
    (e.call ns method args options now failure).1.settled = e.settled := by
  unfold call
  split
  · rfl
  · split
    · rfl
    · rename_i live unsignalled
      cases failure with
      | none => rfl
      | some error => simp [throws, live, unsignalled] at went

theorem Books.mem_dispose (books : Books e) {reason : RpcError V} {stop : Option Nat}
    (other : Nat) (c : Cause V) (went : e.throws (.dispose reason stop) = false) :
    (other, c) ∈ (e.dispose reason stop).1.settled ↔
      (other, c) ∈ e.settled ∨ (other ∈ e.pending ∧ .disposed reason = c) := by
  unfold Endpoint.dispose
  split
  case isTrue ended => simp [books.closed ended]
  case isFalse live =>
    have all : e.cutShort stop = none := by simpa [throws, live] using went
    simp only [all]
    simp

/-- The events that settle nothing. -/
theorem settled_iff_of_calls (event : Event V) (same : e'.calls = e.calls)
    (none : ∀ id, event.cause id = none)
    (id : Nat) (cause : Cause V) : (id, cause) ∈ e'.settled ↔
      (id, cause) ∈ e.settled ∨ (id ∈ e.pending ∧ event.cause id = some cause) := by
  simp only [calls, Prod.mk.injEq] at same
  rw [same.2.2.2.2.2, none]
  simp

/-- **A call settles when, and only when, an event that settles it meets it waiting.** -/
theorem Books.settled_iff (books : Books e) (went : e.throws event = false)
    (stepped : e.step event = some (e', out)) (id : Nat) (cause : Cause V) :
    (id, cause) ∈ e'.settled ↔
      (id, cause) ∈ e.settled ∨ (id ∈ e.pending ∧ event.cause id = some cause) := by
  cases event with
  | onCall =>
      cases stepped
      exact settled_iff_of_calls _ rfl (fun _ => rfl) id cause
  | call ns method args options now failure =>
      have kept := call_settled went
      rw [Option.some.inj stepped] at kept
      show _ ∈ e'.settled ↔ _
      rw [show e'.settled = e.settled from kept]
      simp [Event.cause]
  | timeout other sent =>
      simp only [Endpoint.step] at stepped
      split at stepped
      · have went : other ∈ e.pending → sent = true := fun held => by
          simpa [throws, held] using went
        have kept := mem_timeout id cause went
        rw [Option.some.inj stepped] at kept
        rw [kept]
        simp [Event.cause]
      · cases stepped
  | abort other sent =>
      simp only [Endpoint.step] at stepped
      split at stepped
      · have went : other ∈ e.pending → sent = true := fun held => by
          simpa [throws, held] using went
        have kept := mem_onAbort id cause went
        rw [Option.some.inj stepped] at kept
        rw [kept]
        simp [Event.cause]
      · cases stepped
  | receive msg now sent =>
      simp only [Endpoint.step] at stepped
      split at stepped
      case isTrue ended =>
        cases stepped
        simp [books.closed ended]
      case isFalse => cases msg with
        | call other request deadline =>
            have kept := settled_iff_of_calls (.receive (.call other request deadline) now sent)
              (e.serve_calls other request deadline now sent) (fun _ => rfl) id cause
            rw [Option.some.inj stepped] at kept
            exact kept
        | cancel other =>
            cases stepped
            exact settled_iff_of_calls _ (e.onCancel_calls other) (fun _ => rfl) id cause
        | reply r =>
            cases stepped
            unfold Endpoint.onReply
            split
            case isTrue held =>
              rw [mem_settle_drop held]
              simp [Event.cause]
            case isFalse free =>
              refine ⟨.inl, ?_⟩
              rintro (old | ⟨held, some⟩)
              · exact old
              · simp only [Event.cause] at some
                split at some
                · rename_i same
                  exact absurd (same ▸ held) free
                · cases some
  | finish t result first second =>
      simp only [Endpoint.step] at stepped
      split at stepped
      · split at stepped
        · cases stepped
          exact settled_iff_of_calls _ rfl (fun _ => rfl) id cause
        · cases stepped
      · cases stepped
  | retire t =>
      simp only [Endpoint.step] at stepped
      split at stepped
      · split at stepped
        · cases stepped
          exact settled_iff_of_calls _ rfl (fun _ => rfl) id cause
        · cases stepped
      · cases stepped
  | deadline t =>
      simp only [Endpoint.step] at stepped
      split at stepped
      · split at stepped
        · cases stepped
          exact settled_iff_of_calls _ rfl (fun _ => rfl) id cause
        · cases stepped
      · cases stepped
  | dispose reason stop =>
      have kept := books.mem_dispose id cause went
      rw [Option.some.inj stepped] at kept
      rw [kept]
      simp [Event.cause]

end Endpoint

end Kiagent.Platform
