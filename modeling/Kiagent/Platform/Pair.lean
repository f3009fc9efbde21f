/-
# Platform.Pair -- two endpoints and what is in flight between them

The messages each side has sent and the other has not received are delivered in any
order, lost, and, if they are replies, repeated.  A run is any interleaving of that with
what happens at the two endpoints.

In such a run, every call that was made waits with its record, or has settled once, by a
reply to its own id or by what ended it, and has left no record, no timer and no listener;
and a handler's signal is aborted when a cancel for its call, its deadline or a disposal
met it running, and at no other time.  This holds after every step if, and only if, no
send of a call or of a cancel throws in the run (`pair_sound_iff`): `call`, `abort` and
`dispose` leave the rest of their work undone when `channel.send` throws in the middle of
it (`timeout_lost`).  The sends of a reply may throw; the callee provides for that.
-/
import Kiagent.Platform.Records
import Kiagent.Platform.Serving
import Kiagent.Theory.Runs

namespace Kiagent.Platform

open Kiagent.Theory

set_option autoImplicit false

universe u

variable {V : Type u}

/-! ## The pair -/

inductive Side where
  | main
  | child
  deriving DecidableEq

def Side.other : Side → Side
  | .main => .child
  | .child => .main

@[simp] theorem Side.other_other (s : Side) : s.other.other = s := by cases s <;> rfl

@[simp] theorem Side.other_ne (s : Side) : s.other ≠ s := by cases s <;> simp [Side.other]

theorem Side.eq_other {s s' : Side} (ne : s' ≠ s) : s' = s.other := by
  cases s <;> cases s' <;> simp_all [Side.other]

structure Pair (V : Type u) where
  ends : Side → Endpoint V := fun _ => {}
  /-- What a side has sent and its peer has not received. -/
  wires : Side → List (Msg V) := fun _ => []
  /-- The replies a side has sent. -/
  told : Side → List (ReplyMsg V) := fun _ => []
  /-- The runs a side's handler should see aborted. -/
  due : Side → Nat → Bool := fun _ _ => false

def replyOf : Msg V → Option (ReplyMsg V)
  | .reply r => some r
  | _ => none

def callOf : Msg V → Option Nat
  | .call id _ _ => some id
  | _ => none

def callIds (msgs : List (Msg V)) : List Nat := msgs.filterMap callOf

inductive Act (V : Type u) where
  /-- Something other than an arrival happens at an endpoint. -/
  | happen (s : Side) (event : Endpoint.Event V)
  /-- A message a side has sent arrives. -/
  | deliver (s : Side) (n : Nat) (now : Int) (sent : Bool)
  | lose (s : Side) (n : Nat)
  /-- A reply is sent once more by what carries it. -/
  | again (s : Side) (n : Nat)

namespace Pair

def isReceive : Endpoint.Event V → Bool
  | .receive .. => true
  | _ => false

/-- The event of an act, and the endpoint it happens at. -/
def occurs (p : Pair V) : Act V → Option (Side × Endpoint.Event V)
  | .happen s event => if isReceive event then none else some (s, event)
  | .deliver s n now sent => (p.wires s)[n]?.map fun msg => (s.other, .receive msg now sent)
  | .lose .. => none
  | .again .. => none

/-- A message leaves what is in flight. -/
def take (p : Pair V) (s : Side) (n : Nat) : Pair V :=
  { p with wires := Function.update p.wires s ((p.wires s).eraseIdx n) }

def put (p : Pair V) (s : Side) (event : Endpoint.Event V) (e : Endpoint V)
    (out : List (Msg V)) : Pair V where
  ends := Function.update p.ends s e
  wires := Function.update p.wires s (p.wires s ++ out)
  told := Function.update p.told s (p.told s ++ out.filterMap replyOf)
  due := Function.update p.due s ((p.ends s).mark event (p.due s))

def act (p : Pair V) (s : Side) (event : Endpoint.Event V) : Option (Pair V) :=
  ((p.ends s).step event).map fun (e, out) => p.put s event e out

def step (p : Pair V) : Act V → Option (Pair V)
  | .happen s event => if isReceive event then none else p.act s event
  | .deliver s n now sent =>
      match (p.wires s)[n]? with
      | some msg => (p.take s n).act s.other (.receive msg now sent)
      | none => none
  | .lose s n => if n < (p.wires s).length then some (p.take s n) else none
  | .again s n =>
      (p.told s)[n]?.map fun r =>
        { p with wires := Function.update p.wires s (p.wires s ++ [.reply r]) }

/-- The send of a call or of a cancel throws. -/
def throws (p : Pair V) (a : Act V) : Bool :=
  match p.occurs a with
  | some (s, event) => (p.ends s).throws event
  | none => false

/-- What an act settles a waiting call of a side by. -/
def cause (p : Pair V) (a : Act V) (s : Side) (id : Nat) : Option (Cause V) :=
  match p.occurs a with
  | some (s', event) => if s' = s then event.cause id else none
  | none => none

/-! ## What holds after a step -/

/-- What the calls and the handlers of both sides may rely on, after the step `a` from `p`. -/
structure Sound (p : Pair V) (a : Act V) (p' : Pair V) : Prop where
  /-- A call waits, or has settled once and has nothing left. -/
  settles : ∀ s id, 0 < id → id < (p'.ends s).nextId → (p'.ends s).Settles id
  /-- It settles when something that settles it meets it waiting. -/
  caused : ∀ s id cause, (id, cause) ∈ (p'.ends s).settled ↔
    (id, cause) ∈ (p.ends s).settled ∨ (id ∈ (p.ends s).pending ∧ p.cause a s id = some cause)
  /-- A reply that settles a call carries its id, and was sent by the other side. -/
  own : ∀ s id r, (id, Cause.reply r) ∈ (p'.ends s).settled → r.id = id ∧ r ∈ p'.told s.other
  /-- No call waits on a disposed endpoint. -/
  closed : ∀ s, (p'.ends s).disposed = true → (p'.ends s).pending = []
  aborted : ∀ s t r, (p'.ends s).runs t = some r → (r.aborted = true ↔ p'.due s t = true)

/-! ## What an event does to the ids -/

theorem callIds_append (ms ns : List (Msg V)) : callIds (ms ++ ns) = callIds ms ++ callIds ns :=
  List.filterMap_append

end Pair

namespace Endpoint

variable {e e' : Endpoint V} {event : Event V} {out : List (Msg V)}

/-- What an event sends, when it is not a call. -/
structure Quiet (e e' : Endpoint V) (out : List (Msg V)) : Prop where
  silent : callIds out = []
  nextId : e'.nextId = e.nextId

theorem callIds_cancels (ids : List Nat) : callIds (ids.map (Msg.cancel (V := V))) = [] := by
  simp [callIds, List.filterMap_map, callOf]

theorem abort_quiet (id : Nat) (cause : Cause V) (sent : Bool) :
    Quiet e (e.abort id cause sent).1 (e.abort id cause sent).2 := by
  unfold abort
  split
  · cases sent <;> exact ⟨rfl, rfl⟩
  · exact ⟨rfl, rfl⟩

theorem timeout_quiet (id : Nat) (sent : Bool) :
    Quiet e (e.timeout id sent).1 (e.timeout id sent).2 :=
  have kept := abort_quiet (e := { e with timers := e.timers.filter (· ≠ id) }) id .timedOut sent
  ⟨kept.silent, kept.nextId⟩

theorem onAbort_quiet (id : Nat) (sent : Bool) :
    Quiet e (e.onAbort id sent).1 (e.onAbort id sent).2 :=
  have kept := abort_quiet (e := { e with listeners := e.listeners.filter (· ≠ id) }) id .aborted
    sent
  ⟨kept.silent, kept.nextId⟩

theorem serve_quiet (id : Nat) (request : Request V) (deadline : Option Int) (now : Int)
    (sent : Bool) : Quiet e (e.serve id request deadline now sent).1
      (e.serve id request deadline now sent).2 := by
  unfold serve
  split
  · exact ⟨rfl, rfl⟩
  · cases sent <;> exact ⟨rfl, rfl⟩

theorem replies_quiet (r : Run V) (result : Except (Thrown V) V) (first second : Option String) :
    callIds (replies r result first second) = [] := by
  unfold replies
  split
  · rfl
  · split <;> rfl
  · rfl
  · rfl

theorem dispose_quiet (reason : RpcError V) (stop : Option Nat) :
    Quiet e (e.dispose reason stop).1 (e.dispose reason stop).2 := by
  unfold dispose
  split
  · exact ⟨rfl, rfl⟩
  · cases e.cutShort stop <;> exact ⟨callIds_cancels _, rfl⟩

/-- An event gives out one id and sends one call under it, or gives out none. -/
theorem step_ids (stepped : e.step event = some (e', out)) :
    (callIds out = [] ∧ e.nextId ≤ e'.nextId) ∨
      (callIds out = [e.nextId] ∧ e'.nextId = e.nextId + 1) := by
  have quiet : Quiet e e' out → (callIds out = [] ∧ e.nextId ≤ e'.nextId) ∨
      (callIds out = [e.nextId] ∧ e'.nextId = e.nextId + 1) := fun quiet =>
    .inl ⟨quiet.silent, Nat.le_of_eq quiet.nextId.symm⟩
  cases event with
  | onCall =>
      cases stepped
      exact quiet ⟨rfl, rfl⟩
  | call ns method args options now failure =>
      simp only [step, call] at stepped
      split at stepped
      · cases stepped
        exact quiet ⟨rfl, rfl⟩
      · split at stepped
        · cases stepped
          exact quiet ⟨rfl, rfl⟩
        · cases failure with
          | some error =>
              cases stepped
              exact .inl ⟨rfl, Nat.le_succ _⟩
          | none =>
              cases stepped
              exact .inr ⟨rfl, rfl⟩
  | timeout id sent =>
      simp only [step] at stepped
      split at stepped
      · have kept := timeout_quiet (e := e) id sent
        rw [Option.some.inj stepped] at kept
        exact quiet kept
      · cases stepped
  | abort id sent =>
      simp only [step] at stepped
      split at stepped
      · have kept := onAbort_quiet (e := e) id sent
        rw [Option.some.inj stepped] at kept
        exact quiet kept
      · cases stepped
  | receive msg now sent =>
      simp only [step] at stepped
      split at stepped
      · cases stepped
        exact quiet ⟨rfl, rfl⟩
      · cases msg with
        | call id request deadline =>
            have kept := serve_quiet (e := e) id request deadline now sent
            rw [Option.some.inj stepped] at kept
            exact quiet kept
        | cancel id =>
            cases stepped
            exact quiet ⟨rfl, congrArg Prod.fst (e.onCancel_calls id)⟩
        | reply r =>
            cases stepped
            refine quiet ⟨rfl, ?_⟩
            unfold onReply
            split <;> rfl
  | finish t result first second =>
      simp only [step] at stepped
      split at stepped
      · split at stepped
        · cases stepped
          exact quiet ⟨replies_quiet .., rfl⟩
        · cases stepped
      · cases stepped
  | retire t =>
      simp only [step] at stepped
      split at stepped
      · split at stepped
        · cases stepped
          exact quiet ⟨rfl, rfl⟩
        · cases stepped
      · cases stepped
  | deadline t =>
      simp only [step] at stepped
      split at stepped
      · split at stepped
        · cases stepped
          exact quiet ⟨rfl, rfl⟩
        · cases stepped
      · cases stepped
  | dispose reason stop =>
      have kept := dispose_quiet (e := e) reason stop
      rw [Option.some.inj stepped] at kept
      exact quiet kept

/-- A run of the endpoint was there, or is that of the call that arrives. -/
theorem step_runs (stepped : e.step event = some (e', out)) {t : Nat} {r : Run V}
    (found : e'.runs t = some r) :
    (∃ old, e.runs t = some old ∧ old.id = r.id) ∨
      ∃ request deadline now sent, event = .receive (.call r.id request deadline) now sent := by
  -- the events that leave the runs as they are
  have same : Served.serving e' = Served.serving e → ∃ old, e.runs t = some old ∧ old.id = r.id := by
    intro same
    simp only [Served.serving, Prod.mk.injEq] at same
    exact ⟨r, by rw [← same.2.2.1, found], rfl⟩
  -- and those that change one run
  have change : ∀ t' f, (∀ r : Run V, (f r).id = r.id) → e'.runs = (e.modifyRun t' f).runs →
      ∃ old, e.runs t = some old ∧ old.id = r.id := by
    intro t' f ids runs
    rw [runs] at found
    rcases Served.modifyRun_runs found with ⟨rfl, old, here, rfl⟩ | ⟨-, here⟩
    · exact ⟨old, here, (ids old).symm⟩
    · exact ⟨r, here, rfl⟩
  cases event with
  | onCall =>
      cases stepped
      exact .inl (same rfl)
  | call ns method args options now failure =>
      have kept := Served.call_serving (e := e) ns method args options now failure
      rw [Option.some.inj stepped] at kept
      exact .inl (same kept)
  | timeout id sent =>
      simp only [step] at stepped
      split at stepped
      · have kept := Served.timeout_serving (e := e) id sent
        rw [Option.some.inj stepped] at kept
        exact .inl (same kept)
      · cases stepped
  | abort id sent =>
      simp only [step] at stepped
      split at stepped
      · have kept := Served.onAbort_serving (e := e) id sent
        rw [Option.some.inj stepped] at kept
        exact .inl (same kept)
      · cases stepped
  | receive msg now sent =>
      simp only [step] at stepped
      split at stepped
      · cases stepped
        exact .inl (same rfl)
      · cases msg with
        | call id request deadline =>
            have kept : (e.serve id request deadline now sent).1 = e' :=
              congrArg Prod.fst (Option.some.inj stepped)
            subst kept
            unfold serve at found
            split at found
            · rcases Served.update_some_cases found with ⟨-, rfl⟩ | ⟨-, here⟩
              · exact .inr ⟨request, deadline, now, sent, rfl⟩
              · exact .inl ⟨r, here, rfl⟩
            · exact .inl ⟨r, found, rfl⟩
        | cancel id =>
            cases stepped
            refine .inl ?_
            cases own : e.owned id with
            | none => exact same (by simp [onCancel, own])
            | some t' => exact change t' abortRun (fun _ => rfl) (by simp [onCancel, own])
        | reply r' =>
            cases stepped
            exact .inl (same (Served.onReply_serving r'))
  | finish t' result first second =>
      simp only [step] at stepped
      split at stepped
      · split at stepped
        · cases stepped
          exact .inl (change t' (fun r => { r with phase := .replied }) (fun _ => rfl) rfl)
        · cases stepped
      · cases stepped
  | retire t' =>
      simp only [step] at stepped
      split at stepped
      · split at stepped
        · cases stepped
          exact .inl (change t' (fun r => { r with phase := .ended, timer := none }) (fun _ => rfl) rfl)
        · cases stepped
      · cases stepped
  | deadline t' =>
      simp only [step] at stepped
      split at stepped
      · split at stepped
        · cases stepped
          exact .inl (change t' (fun r => { abortRun r with timer := none }) (fun _ => rfl) rfl)
        · cases stepped
      · cases stepped
  | dispose reason stop =>
      have kept : (e.dispose reason stop).1 = e' := congrArg Prod.fst (Option.some.inj stepped)
      subst kept
      refine .inl ?_
      unfold dispose at found
      split at found
      · exact ⟨r, found, rfl⟩
      · cases cut : e.cutShort stop with
        | some sent =>
            simp only [cut] at found
            exact ⟨r, found, rfl⟩
        | none =>
            simp only [cut, Option.map_eq_some_iff] at found
            obtain ⟨old, here, rfl⟩ := found
            exact ⟨old, here, by split <;> rfl⟩

end Endpoint

namespace Pair

open Endpoint

/-! ## The invariant -/

/-- The calls of one side, in flight and with a run at the other, each have an id of
their own. -/
structure Line (caller callee : Endpoint V) (wire : List (Msg V)) : Prop where
  nodup : (callIds wire).Nodup
  issued : ∀ id ∈ callIds wire, id < caller.nextId
  apart : ∀ id ∈ callIds wire, ∀ t r, callee.runs t = some r → r.id ≠ id
  served : ∀ t r, callee.runs t = some r → r.id < caller.nextId

structure Inv (p : Pair V) : Prop where
  books : ∀ s, Books (p.ends s)
  served : ∀ s, Served (p.ends s) (p.due s)
  line : ∀ s, Line (p.ends s) (p.ends s.other) (p.wires s)
  replies : ∀ s r, Msg.reply r ∈ p.wires s → r ∈ p.told s
  own : ∀ s id r, (id, Cause.reply r) ∈ (p.ends s).settled → r.id = id ∧ r ∈ p.told s.other

/-- What arrives was sent, and a call that arrives has left what is in flight. -/
structure Arrives (p : Pair V) (s : Side) (event : Event V) : Prop where
  reply : ∀ r now sent, event = .receive (.reply r) now sent → r ∈ p.told s.other
  call : ∀ id request deadline now sent, event = .receive (.call id request deadline) now sent →
    id < (p.ends s.other).nextId ∧ id ∉ callIds (p.wires s.other) ∧
      ∀ t r, (p.ends s).runs t = some r → r.id ≠ id

theorem Line.shrink {caller callee : Endpoint V} {wire wire' : List (Msg V)}
    (line : Line caller callee wire) (fewer : wire'.Sublist wire) : Line caller callee wire' :=
  have ids : (callIds wire').Sublist (callIds wire) := fewer.filterMap callOf
  ⟨line.nodup.sublist ids, fun id mem => line.issued id (ids.subset mem),
    fun id mem => line.apart id (ids.subset mem), line.served⟩

/-- An event of the caller. -/
theorem Line.calls {caller caller' callee : Endpoint V} {wire out : List (Msg V)}
    {event : Event V} (line : Line caller callee wire)
    (stepped : caller.step event = some (caller', out)) :
    Line caller' callee (wire ++ out) := by
  rcases step_ids stepped with ⟨silent, grown⟩ | ⟨one, next⟩
  · have same : callIds (wire ++ out) = callIds wire := by
      rw [callIds_append, silent, List.append_nil]
    exact ⟨same ▸ line.nodup, fun id mem => Nat.lt_of_lt_of_le (line.issued id (same ▸ mem)) grown,
      fun id mem => line.apart id (same ▸ mem),
      fun t r found => Nat.lt_of_lt_of_le (line.served t r found) grown⟩
  · have same : callIds (wire ++ out) = callIds wire ++ [caller.nextId] := by
      rw [callIds_append, one]
    refine ⟨?_, fun id mem => ?_, fun id mem t r found => ?_, fun t r found => ?_⟩
    · rw [same, List.nodup_append]
      refine ⟨line.nodup, List.nodup_singleton _, fun id mem other new => ?_⟩
      have issued := line.issued id mem
      rw [List.mem_singleton.1 new]
      omega
    · rw [same] at mem
      rcases List.mem_append.1 mem with old | new
      · have issued := line.issued id old
        omega
      · rw [List.mem_singleton.1 new, next]
        exact Nat.lt_succ_self _
    · have below := line.served t r found
      rw [same] at mem
      rcases List.mem_append.1 mem with old | new
      · exact line.apart id old t r found
      · rw [List.mem_singleton.1 new]
        omega
    · have below := line.served t r found
      omega

/-- An event of the callee. -/
theorem Line.serves {caller callee callee' : Endpoint V} {wire out : List (Msg V)}
    {event : Event V} (line : Line caller callee wire)
    (call : ∀ id request deadline now sent, event = .receive (.call id request deadline) now sent →
      id < caller.nextId ∧ id ∉ callIds wire)
    (stepped : callee.step event = some (callee', out)) : Line caller callee' wire := by
  refine ⟨line.nodup, line.issued, fun id mem t r found => ?_, fun t r found => ?_⟩
  · rcases step_runs stepped found with ⟨old, here, same⟩ | ⟨request, deadline, now, sent, arrived⟩
    · exact same ▸ line.apart id mem t old here
    · rintro rfl
      exact (call r.id request deadline now sent arrived).2 mem
  · rcases step_runs stepped found with ⟨old, here, same⟩ | ⟨request, deadline, now, sent, arrived⟩
    · exact same ▸ line.served t old here
    · exact (call r.id request deadline now sent arrived).1

theorem cause_reply {event : Event V} {id : Nat} {r : ReplyMsg V}
    (cause : event.cause id = some (.reply r)) :
    r.id = id ∧ ∃ now sent, event = .receive (.reply r) now sent := by
  cases event with
  | receive msg now sent =>
      cases msg with
      | reply r' =>
          simp only [Event.cause] at cause
          split at cause
          · rename_i same
            cases cause
            exact ⟨same, now, sent, rfl⟩
          · cases cause
      | call id request deadline => cases cause
      | cancel id => cases cause
  | timeout other sent =>
      simp only [Event.cause] at cause
      split at cause <;> cases cause
  | abort other sent =>
      simp only [Event.cause] at cause
      split at cause <;> cases cause
  | dispose reason stop => cases cause
  | onCall => cases cause
  | call ns method args options now failure => cases cause
  | finish t result first second => cases cause
  | retire t => cases cause
  | deadline t => cases cause

section Step

variable {p p' : Pair V} {s : Side} {event : Event V}

theorem Inv.initial : Inv ({} : Pair V) where
  books _ := Books.initial
  served _ := Served.initial
  line _ := ⟨List.nodup_nil, by simp [callIds], by simp [callIds], fun _ _ found => by cases found⟩
  replies _ _ mem := by cases mem
  own _ _ _ mem := by cases mem

theorem Inv.act (inv : Inv p) (arrives : Arrives p s event)
    (went : (p.ends s).throws event = false) (acted : p.act s event = some p') : Inv p' := by
  simp only [Pair.act, Option.map_eq_some_iff] at acted
  obtain ⟨⟨e, out⟩, stepped, rfl⟩ := acted
  constructor
  · intro s'
    by_cases same : s' = s
    · subst same
      simpa [put] using (inv.books s').step went stepped
    · simpa [put, Function.update_of_ne same] using inv.books s'
  · intro s'
    by_cases same : s' = s
    · subst same
      have kept := (inv.served s').step went
        (fun id request deadline now sent arrived =>
          (arrives.call id request deadline now sent arrived).2.2) stepped
      simpa [put] using kept
    · simpa [put, Function.update_of_ne same] using inv.served s'
  · intro s'
    by_cases same : s' = s
    · subst same
      simpa [put, Function.update_of_ne (Side.other_ne s')] using (inv.line s').calls stepped
    · obtain rfl := Side.eq_other same
      have line := inv.line s.other
      rw [Side.other_other] at line
      have kept := line.serves (fun id request deadline now sent arrived =>
        have here := arrives.call id request deadline now sent arrived
        ⟨here.1, here.2.1⟩) stepped
      simpa [put, Function.update_of_ne (Side.other_ne s)] using kept
  · intro s' r mem
    by_cases same : s' = s
    · subst same
      simp only [put, Function.update_self, List.mem_append, List.mem_filterMap] at mem ⊢
      exact mem.imp (inv.replies s' r) fun new => ⟨.reply r, new, rfl⟩
    · simp only [put, Function.update_of_ne same] at mem ⊢
      exact inv.replies s' r mem
  · have grown : ∀ s' r, r ∈ p.told s' → r ∈ (p.put s event e out).told s' := by
      intro s' r mem
      by_cases same : s' = s
      · subst same
        simpa [put] using Or.inl mem
      · simpa [put, Function.update_of_ne same] using mem
    intro s' id r mem
    by_cases same : s' = s
    · subst same
      simp only [put, Function.update_self] at mem
      rcases ((inv.books s').settled_iff went stepped id (.reply r)).1 mem with old | ⟨-, cause⟩
      · exact (inv.own s' id r old).imp_right (grown s'.other r)
      · obtain ⟨same, now, sent, rfl⟩ := cause_reply cause
        exact ⟨same, grown s'.other r (arrives.reply r now sent rfl)⟩
    · simp only [put, Function.update_of_ne same] at mem
      exact (inv.own s' id r mem).imp_right (grown s'.other r)

theorem Inv.take (inv : Inv p) (s : Side) (n : Nat) : Inv (p.take s n) where
  books := inv.books
  served := inv.served
  line s' := by
    by_cases same : s' = s
    · subst same
      simpa [Pair.take] using (inv.line s').shrink (List.eraseIdx_sublist ..)
    · simpa [Pair.take, Function.update_of_ne same] using inv.line s'
  replies s' r mem := by
    by_cases same : s' = s
    · subst same
      simp only [Pair.take, Function.update_self] at mem
      exact inv.replies s' r (List.mem_of_mem_eraseIdx mem)
    · simp only [Pair.take, Function.update_of_ne same] at mem
      exact inv.replies s' r mem
  own := inv.own

/-- A message that arrives has left what is in flight. -/
theorem Inv.arrives (inv : Inv p) {n : Nat} {msg : Msg V} (found : (p.wires s)[n]? = some msg)
    (now : Int) (sent : Bool) : Arrives (p.take s n) s.other (.receive msg now sent) := by
  have mem : msg ∈ p.wires s := List.mem_of_getElem? found
  constructor
  · rintro r _ _ ⟨⟩
    rw [Side.other_other]
    exact inv.replies s r mem
  · rintro id request deadline _ _ ⟨⟩
    rw [Side.other_other]
    have called : id ∈ callIds (p.wires s) := List.mem_filterMap.2 ⟨_, mem, rfl⟩
    refine ⟨(inv.line s).issued id called, ?_, (inv.line s).apart id called⟩
    obtain ⟨bound, here⟩ := List.getElem?_eq_some_iff.1 found
    have perm := (List.getElem_cons_eraseIdx_perm bound).filterMap callOf
    rw [here] at perm
    have nodup : (id :: callIds ((p.wires s).eraseIdx n)).Nodup :=
      perm.nodup_iff.2 (inv.line s).nodup
    simpa [Pair.take] using (List.nodup_cons.1 nodup).1

/-- A step is an event at one endpoint, or touches only what is in flight. -/
theorem Inv.step_cases {a : Act V} (inv : Inv p) (stepped : p.step a = some p') :
    (∃ s event q, p.occurs a = some (s, event) ∧ Inv q ∧ q.ends = p.ends ∧ Arrives q s event ∧
      q.act s event = some p') ∨
    (p.occurs a = none ∧ Inv p' ∧ p'.ends = p.ends) := by
  cases a with
  | happen s event =>
      simp only [Pair.step] at stepped
      split at stepped
      · cases stepped
      · rename_i other
        refine .inl ⟨s, event, p, if_neg other, inv, rfl, ⟨?_, ?_⟩, stepped⟩
        · rintro r now sent rfl
          exact absurd rfl other
        · rintro id request deadline now sent rfl
          exact absurd rfl other
  | deliver s n now sent =>
      simp only [Pair.step] at stepped
      split at stepped
      case h_1 msg found =>
        exact .inl ⟨s.other, .receive msg now sent, p.take s n, by simp [occurs, found],
          inv.take s n, rfl, inv.arrives found now sent, stepped⟩
      case h_2 => cases stepped
  | lose s n =>
      simp only [Pair.step] at stepped
      split at stepped
      · cases stepped
        exact .inr ⟨rfl, inv.take s n, rfl⟩
      · cases stepped
  | again s n =>
      simp only [Pair.step, Option.map_eq_some_iff] at stepped
      obtain ⟨r, told, rfl⟩ := stepped
      refine .inr ⟨rfl, ⟨inv.books, inv.served, fun s' => ?_, fun s' r' mem => ?_, inv.own⟩, rfl⟩
      · by_cases same : s' = s
        · subst same
          have ids : callIds (p.wires s' ++ [.reply r]) = callIds (p.wires s') := by
            rw [callIds_append]
            simp [callIds, callOf]
          have line := inv.line s'
          simp only [Function.update_self]
          exact ⟨ids ▸ line.nodup, ids ▸ line.issued, ids ▸ line.apart, line.served⟩
        · simpa [Function.update_of_ne same] using inv.line s'
      · by_cases same : s' = s
        · subst same
          simp only [Function.update_self, List.mem_append, List.mem_singleton] at mem
          rcases mem with old | new
          · exact inv.replies s' r' old
          · cases new
            exact List.mem_of_getElem? told
        · simp only [Function.update_of_ne same] at mem
          exact inv.replies s' r' mem

theorem Inv.step {a : Act V} (inv : Inv p) (went : p.throws a = false)
    (stepped : p.step a = some p') : Inv p' := by
  rcases inv.step_cases stepped with ⟨s, event, q, occurs, inv', ends, arrives, acted⟩ |
    ⟨-, inv', -⟩
  · have went : (q.ends s).throws event = false := by
      simpa [throws, occurs, ends] using went
    exact inv'.act arrives went acted
  · exact inv'

/-- The settlements of a step. -/
theorem Inv.caused {a : Act V} (inv : Inv p) (went : p.throws a = false)
    (stepped : p.step a = some p') (s : Side) (id : Nat) (cause : Cause V) :
    (id, cause) ∈ (p'.ends s).settled ↔ (id, cause) ∈ (p.ends s).settled ∨
      (id ∈ (p.ends s).pending ∧ p.cause a s id = some cause) := by
  rcases inv.step_cases stepped with ⟨s', event, q, occurs, inv', ends, arrives, acted⟩ |
    ⟨occurs, -, ends⟩
  · simp only [Pair.act, Option.map_eq_some_iff] at acted
    obtain ⟨⟨e, out⟩, happened, rfl⟩ := acted
    rw [ends] at happened
    have went : (p.ends s').throws event = false := by simpa [throws, occurs] using went
    by_cases same : s = s'
    · subst same
      simpa [put, Pair.cause, occurs] using
        (inv.books s).settled_iff went happened id cause
    · simp [put, Function.update_of_ne same, Pair.cause, occurs, Ne.symm same, ends]
  · simp [ends, Pair.cause, occurs]

theorem Inv.sound {a : Act V} (inv : Inv p) (went : p.throws a = false)
    (stepped : p.step a = some p') : Sound p a p' :=
  have inv' := inv.step went stepped
  { settles := fun s _ first issued => (inv'.books s).settles first issued
    caused := inv.caused went stepped
    own := inv'.own
    closed := fun s => (inv'.books s).closed
    aborted := fun s => (inv'.served s).aborted }

theorem Inv.unsound {a : Act V} (inv : Inv p) (threw : p.throws a = true)
    (stepped : p.step a = some p') : ¬ Sound p a p' := by
  rcases inv.step_cases stepped with ⟨s, event, q, occurs, inv', ends, -, acted⟩ | ⟨occurs, -⟩
  · simp only [Pair.act, Option.map_eq_some_iff] at acted
    obtain ⟨⟨e, out⟩, happened, rfl⟩ := acted
    have threw : (q.ends s).throws event = true := by simpa [throws, occurs, ends] using threw
    obtain ⟨id, first, issued, broken⟩ := (inv'.books s).broken threw happened
    intro sound
    exact broken (by simpa [put] using sound.settles s id first (by simpa [put] using issued))
  · simp [throws, occurs] at threw

/-- Every step of the run keeps its promises, and none of them throws. -/
theorem Inv.along_iff : {acts : List (Act V)} → {p p' : Pair V} → Inv p →
    runSteps Pair.step p acts = some p' →
    (Along Pair.step (fun p a => ∀ p', p.step a = some p' → Sound p a p') p acts ↔
      Along Pair.step (fun p a => p.throws a = false) p acts)
  | [], _, _, _, _ => Iff.rfl
  | a :: acts, p, p', inv, ran => by
      obtain ⟨q, first, rest⟩ := runSteps_cons.1 ran
      constructor
      · rintro ⟨sound, along⟩
        have went : p.throws a = false := by
          cases threw : p.throws a with
          | false => rfl
          | true => exact absurd (sound q first) (inv.unsound threw first)
        refine ⟨went, fun q' here => ?_⟩
        obtain rfl := Option.some.inj (first.symm.trans here)
        exact ((inv.step went first).along_iff rest).1 (along q first)
      · rintro ⟨went, along⟩
        refine ⟨fun q' here => inv.sound went here, fun q' here => ?_⟩
        obtain rfl := Option.some.inj (first.symm.trans here)
        exact ((inv.step went first).along_iff rest).2 (along q first)

end Step

/-! ## Runs -/

/-- **The calls and the handlers of a run can rely on the endpoints after every step exactly
when no send of a call or of a cancel throws in it.** -/
theorem pair_sound_iff {acts : List (Act V)} {p : Pair V}
    (ran : runSteps Pair.step {} acts = some p) :
    Along Pair.step (fun p a => ∀ p', p.step a = some p' → Sound p a p') {} acts ↔
      Along Pair.step (fun p a => p.throws a = false) {} acts :=
  Inv.initial.along_iff ran

/-- Two calls with a timeout: the first is answered, the second times out, is cancelled at
its handler, and is answered late. -/
def twoCalls : List (Act Unit) :=
  [.happen .child .onCall,
    .happen .main (.call "tool" "list" [] { timeoutMs := some 1000 } 5 none),
    .deliver .main 0 6 true,
    .happen .child (.finish 0 (.ok ()) none none),
    .happen .child (.retire 0),
    .deliver .child 0 8 true,
    .happen .main (.call "tool" "run" [] { timeoutMs := some 1000 } 9 none),
    .deliver .main 0 10 true,
    .happen .main (.timeout 2 true),
    .deliver .main 0 1010 true,
    .happen .child (.finish 1 (.error ⟨"AbortError", some "aborted", some "AbortError", []⟩) none
      none),
    .deliver .child 0 1012 true]

theorem twoCalls_sound :
    Along Pair.step (fun p a => ∀ p', p.step a = some p' → Sound p a p') {} twoCalls ∧
      ∃ p, runSteps Pair.step {} twoCalls = some p ∧
        (p.ends .main).settled = [(1, .reply { id := 1, ok := true, value := some () }),
          (2, .timedOut)] ∧
        ((p.ends .child).runs 1).any Run.aborted = true := by
  have ran : ∃ p, runSteps Pair.step {} twoCalls = some p ∧
      (p.ends .main).settled = [(1, .reply { id := 1, ok := true, value := some () }),
        (2, .timedOut)] ∧ ((p.ends .child).runs 1).any Run.aborted = true :=
    ⟨_, rfl, by decide +kernel, by decide +kernel⟩
  obtain ⟨p, ran, facts⟩ := ran
  exact ⟨(pair_sound_iff ran).2 (by decide +kernel), p, ran, facts⟩

/-- The cancel of a call that times out throws. -/
def lostCall : List (Act Unit) :=
  [.happen .main (.call "tool" "run" [] { timeoutMs := some 1000 } 0 none),
    .happen .main (.timeout 1 false)]

/-- The caller is left waiting: the call has neither a record nor a settlement. -/
theorem timeout_lost : ∃ p, runSteps Pair.step {} lostCall = some p ∧
    (p.ends .main).nextId = 2 ∧ (p.ends .main).pending = [] ∧ (p.ends .main).settlements 1 = 0 ∧
      ¬ (p.ends .main).Settles 1 := by
  refine ⟨_, rfl, rfl, by decide +kernel, by decide +kernel, ?_⟩
  rintro (⟨held, -⟩ | ⟨once, -⟩)
  · exact absurd held (by decide +kernel)
  · exact absurd once (by decide +kernel)

end Pair

end Kiagent.Platform
