/-
# Platform.Serving -- what an endpoint keeps of the calls it serves

The signal of a handler is aborted through its controller.  `mark` collects, beside the
endpoint, the runs that one of three events has met before their end: a cancel for their
call, the timer of their deadline, the disposal of the endpoint.  `Served` says that the
aborted signals are those, and every event keeps it (`Served.step`) as long as a call
arrives under an id of its own and no cancel sent by `dispose` throws.
-/
import Kiagent.Platform.Endpoint

namespace Kiagent.Platform

set_option autoImplicit false

universe u

variable {V : Type u}

namespace Endpoint

/-- The event is one that aborts a run it meets before the run's end. -/
def Event.stops (event : Event V) (t : Nat) (r : Run V) : Bool :=
  decide (r.phase ≠ .ended) &&
    match event with
    | .receive (.cancel id) _ _ => decide (r.id = id)
    | .deadline other => decide (other = t)
    | .dispose _ _ => true
    | _ => false

/-- The runs that have met such an event. -/
def mark (e : Endpoint V) (event : Event V) (due : Nat → Bool) (t : Nat) : Bool :=
  due t || (e.runs t).any (event.stops t)

structure Served (e : Endpoint V) (due : Nat → Bool) : Prop where
  fresh : ∀ t, e.started ≤ t → e.runs t = none ∧ due t = false
  one : ∀ t t' r r', e.runs t = some r → e.runs t' = some r' → r.id = r'.id → t = t'
  owned : ∀ id t, e.owned id = some t → ∃ r, e.runs t = some r ∧ r.id = id ∧ r.phase ≠ .ended
  held : ∀ t r, e.runs t = some r → r.phase ≠ .ended →
    e.owned r.id = some t ∨ (e.disposed = true ∧ r.aborted = true)
  aborted : ∀ t r, e.runs t = some r → (r.aborted = true ↔ due t = true)
  /-- The timer of a deadline is armed until it fires or the run ends. -/
  armed : ∀ t r, e.runs t = some r → r.timer.isSome = true → r.phase ≠ .ended
  watched : ∀ t r, e.runs t = some r → r.deadline.isSome = true → r.phase ≠ .ended →
    r.timer.isSome = true ∨ r.aborted = true
  closed : e.disposed = true → ∀ id, e.owned id = none

namespace Served

variable {e e' : Endpoint V} {due : Nat → Bool}

theorem initial : Served ({} : Endpoint V) fun _ => false where
  fresh _ _ := ⟨rfl, rfl⟩
  one _ _ _ _ found := by cases found
  owned _ _ found := by cases found
  held _ _ found := by cases found
  aborted _ _ found := by cases found
  armed _ _ found := by cases found
  watched _ _ found := by cases found
  closed ended := by cases ended

/-- The runs an endpoint holds, with what may reach them. -/
def serving (e : Endpoint V) : Bool × (Nat → Option Nat) × (Nat → Option (Run V)) × Nat :=
  (e.disposed, e.owned, e.runs, e.started)

theorem of_serving (served : Served e due) (same : serving e' = serving e) : Served e' due := by
  simp only [serving, Prod.mk.injEq] at same
  obtain ⟨disposed, owned, runs, started⟩ := same
  constructor
  · rw [started, runs]; exact served.fresh
  · rw [runs]; exact served.one
  · rw [owned, runs]; exact served.owned
  · rw [owned, runs, disposed]; exact served.held
  · rw [runs]; exact served.aborted
  · rw [runs]; exact served.armed
  · rw [runs]; exact served.watched
  · rw [owned, disposed]; exact served.closed

theorem mark_of_idle {event : Event V} (idle : ∀ t r, event.stops t r = false) :
    e.mark event due = due := by
  funext t
  unfold mark
  cases e.runs t with
  | none => simp
  | some r => simp [idle]

/-- A change of one run that leaves its id. -/
theorem modifyRun_runs {t t' : Nat} {f : Run V → Run V} {r' : Run V}
    (found : (e.modifyRun t f).runs t' = some r') :
    (t' = t ∧ ∃ r, e.runs t = some r ∧ r' = f r) ∨ (t' ≠ t ∧ e.runs t' = some r') := by
  by_cases same : t' = t
  · subst same
    simp only [modifyRun, Function.update_self, Option.map_eq_some_iff] at found
    obtain ⟨r, here, rfl⟩ := found
    exact .inl ⟨rfl, r, here, rfl⟩
  · exact .inr ⟨same, by simpa [modifyRun, Function.update_of_ne same] using found⟩

theorem update_cases {ι α : Type*} [DecidableEq ι] {f : ι → Option α} {i j : ι} {x : Option α}
    {y : α} (found : Function.update f i x j = some y) :
    (j = i ∧ x = some y) ∨ (j ≠ i ∧ f j = some y) := by
  by_cases same : j = i
  · subst same
    exact .inl ⟨rfl, by simpa using found⟩
  · exact .inr ⟨same, by simpa [Function.update_of_ne same] using found⟩

theorem update_some_cases {ι α : Type*} [DecidableEq ι] {f : ι → Option α} {i j : ι} {x y : α}
    (found : Function.update f i (some x) j = some y) :
    (j = i ∧ y = x) ∨ (j ≠ i ∧ f j = some y) :=
  (update_cases found).imp_left fun ⟨same, new⟩ => ⟨same, (Option.some.inj new).symm⟩

/-- What a run may become while it is not over. -/
structure Advance (r r' : Run V) (due : Bool) : Prop where
  id : r'.id = r.id
  deadline : r'.deadline = r.deadline
  phase : r'.phase = .ended ↔ r.phase = .ended
  kept : r.aborted = true → r'.aborted = true
  due : r'.aborted = true ↔ due = true
  armed : r'.timer.isSome = true → r.timer.isSome = true
  watched : r.timer.isSome = true → r'.timer.isSome = true ∨ r'.aborted = true

theorem advance (served : Served e due) {t : Nat} {r : Run V} {f : Run V → Run V}
    {due' : Nat → Bool} (found : e.runs t = some r) (step : Advance r (f r) (due' t))
    (others : ∀ t', t' ≠ t → due' t' = due t') : Served (e.modifyRun t f) due' := by
  -- what a run of the new endpoint was before
  have before : ∀ t' r', (e.modifyRun t f).runs t' = some r' →
      ∃ old, e.runs t' = some old ∧ Advance old r' (due' t') := by
    intro t' r' now
    rcases modifyRun_runs now with ⟨rfl, old, here, rfl⟩ | ⟨ne, here⟩
    · obtain rfl := Option.some.inj (found.symm.trans here)
      exact ⟨r, found, step⟩
    · exact ⟨r', here, rfl, rfl, Iff.rfl, id, by rw [others t' ne]; exact served.aborted t' r' here,
        id, .inl⟩
  constructor
  · intro t' late
    have none := served.fresh t' late
    have ne : t' ≠ t := by
      rintro rfl
      rw [found] at none
      cases none.1
    exact ⟨by simp [modifyRun, Function.update_of_ne ne, none.1], by rw [others t' ne, none.2]⟩
  · intro t₁ t₂ r₁ r₂ first second same
    obtain ⟨old₁, here₁, step₁⟩ := before t₁ r₁ first
    obtain ⟨old₂, here₂, step₂⟩ := before t₂ r₂ second
    exact served.one t₁ t₂ old₁ old₂ here₁ here₂ (step₁.id ▸ step₂.id ▸ same)
  · intro id t' own
    obtain ⟨old, here, rfl, live⟩ := served.owned id t' own
    by_cases same : t' = t
    · subst same
      obtain rfl := Option.some.inj (found.symm.trans here)
      exact ⟨f r, by simp [modifyRun, found], step.id, fun ended => live (step.phase.1 ended)⟩
    · exact ⟨old, by simpa [modifyRun, Function.update_of_ne same] using here, rfl, live⟩
  · intro t' r' now live
    obtain ⟨old, here, step⟩ := before t' r' now
    rw [step.id]
    rcases served.held t' old here fun ended => live (step.phase.2 ended) with own | ⟨ended, gone⟩
    · exact .inl own
    · exact .inr ⟨ended, step.kept gone⟩
  · intro t' r' now
    obtain ⟨old, here, step⟩ := before t' r' now
    exact step.due
  · intro t' r' now some ended
    obtain ⟨old, here, step⟩ := before t' r' now
    exact served.armed t' old here (step.armed some) (step.phase.1 ended)
  · intro t' r' now given live
    obtain ⟨old, here, step⟩ := before t' r' now
    rcases served.watched t' old here (step.deadline ▸ given) fun ended =>
      live (step.phase.2 ended) with armed | gone
    · exact step.watched armed
    · exact .inr (step.kept gone)
  · exact served.closed

/-- A call arrives under an id no run has. -/
theorem serve (served : Served e due) (live : e.disposed = false) {id : Nat}
    (unknown : ∀ t r, e.runs t = some r → r.id ≠ id) (request : Request V)
    (deadline : Option Int) (now : Int) (sent : Bool) :
    Served (e.serve id request deadline now sent).1 due := by
  have unowned : e.owned id = none := by
    rcases own : e.owned id with _ | t
    · rfl
    · obtain ⟨r, found, same, -⟩ := served.owned id t own
      exact absurd same (unknown t r found)
  unfold Endpoint.serve
  split
  case isFalse =>
    refine served.of_serving ?_
    simp [serving, Function.update_eq_self_iff, unowned]
  case isTrue =>
    have empty := served.fresh e.started (Nat.le_refl _)
    constructor
    · intro t late
      have late : e.started + 1 ≤ t := late
      have ne : t ≠ e.started := by omega
      have none := served.fresh t (by omega)
      exact ⟨by simpa [Function.update_of_ne ne] using none.1, none.2⟩
    · intro t t' r r' first second same
      rcases update_some_cases first with ⟨rfl, rfl⟩ | ⟨-, first⟩ <;>
        rcases update_some_cases second with ⟨rfl, rfl⟩ | ⟨-, second⟩
      · rfl
      · exact absurd same.symm (unknown t' r' second)
      · exact absurd same (unknown t r first)
      · exact served.one t t' r r' first second same
    · intro other t own
      rcases update_some_cases own with ⟨rfl, rfl⟩ | ⟨-, own⟩
      · exact ⟨_, Function.update_self .., rfl, by simp⟩
      · obtain ⟨r, found, same, live⟩ := served.owned other t own
        have ne : t ≠ e.started := by
          rintro rfl
          rw [empty.1] at found
          cases found
        exact ⟨r, by simpa [Function.update_of_ne ne] using found, same, live⟩
    · intro t r found running
      rcases update_some_cases found with ⟨rfl, rfl⟩ | ⟨-, found⟩
      · exact .inl (Function.update_self ..)
      · have ne := unknown t r found
        simpa [Function.update_of_ne ne] using served.held t r found running
    · intro t r found
      rcases update_some_cases found with ⟨rfl, rfl⟩ | ⟨-, found⟩
      · simp [empty.2]
      · exact served.aborted t r found
    · intro t r found armed
      rcases update_some_cases found with ⟨rfl, rfl⟩ | ⟨-, found⟩
      · simp
      · exact served.armed t r found armed
    · intro t r found given running
      rcases update_some_cases found with ⟨rfl, rfl⟩ | ⟨-, found⟩
      · exact .inl (by simpa using given)
      · exact served.watched t r found given running
    · intro ended
      exact absurd ended (by simp [live])

theorem cancel (served : Served e due) (live : e.disposed = false) (id : Nat) (now : Int)
    (sent : Bool) : Served (e.onCancel id) (e.mark (.receive (.cancel id) now sent) due) := by
  -- the runs that are marked are those the controller of the call belongs to
  have marks : ∀ t, e.owned id ≠ some t → e.mark (.receive (.cancel id) now sent) due t = due t := by
    intro t other
    unfold mark
    cases found : e.runs t with
    | none => simp
    | some r =>
        have out : ¬ (r.phase ≠ .ended ∧ r.id = id) := by
          rintro ⟨running, rfl⟩
          rcases served.held t r found running with own | ⟨ended, -⟩
          · exact other own
          · exact absurd ended (by simp [live])
        have out : Event.stops (.receive (.cancel id) now sent) t r = false := by
          simpa [Event.stops] using out
        simp [out]
  unfold onCancel
  cases own : e.owned id with
  | none =>
      have same : e.mark (.receive (.cancel id) now sent) due = due :=
        funext fun t => marks t (by simp [own])
      rw [same]
      exact served
  | some t =>
      obtain ⟨r, found, rfl, running⟩ := served.owned id t own
      refine served.advance found
        ⟨rfl, rfl, Iff.rfl, fun _ => rfl, ?_, id, .inl⟩ fun t' ne => marks t' ?_
      · simp [mark, found, Event.stops, running, abortRun]
      · rw [own]
        exact fun same => ne (Option.some.inj same).symm

theorem deadline (served : Served e due) {t : Nat} {r : Run V} (found : e.runs t = some r)
    (armed : r.timer.isSome = true) : Served (e.onDeadline t) (e.mark (.deadline t) due) := by
  refine served.advance (f := fun r => { abortRun r with timer := none }) found
    ⟨rfl, rfl, Iff.rfl, fun _ => rfl, ?_, by simp, fun _ => .inr rfl⟩ fun t' ne => ?_
  · have running := served.armed t r found armed
    simp [mark, found, Event.stops, running, abortRun]
  · unfold mark
    cases e.runs t' with
    | none => simp
    | some r => simp [Event.stops, Ne.symm ne]

theorem finish (served : Served e due) {t : Nat} {r : Run V} (found : e.runs t = some r)
    (running : r.phase = .running) (result : Except (Thrown V) V) (first second : Option String) :
    Served (e.finish t r result first second).1 due :=
  served.advance (f := fun r => { r with phase := .replied }) found
    ⟨rfl, rfl, by simp [running], id, served.aborted t r found, id, .inl⟩ fun _ _ => rfl

theorem retire (served : Served e due) {t : Nat} {r : Run V} (found : e.runs t = some r) :
    Served (e.retire t r) due := by
  have before : ∀ t' r', (e.retire t r).runs t' = some r' →
      (t' = t ∧ r' = { r with phase := .ended, timer := none }) ∨
        (t' ≠ t ∧ e.runs t' = some r') := by
    intro t' r' now
    rcases modifyRun_runs now with ⟨rfl, old, here, rfl⟩ | other
    · obtain rfl := Option.some.inj (found.symm.trans here)
      exact .inl ⟨rfl, rfl⟩
    · exact .inr other
  constructor
  · intro t' late
    have none := served.fresh t' late
    have ne : t' ≠ t := by
      rintro rfl
      rw [found] at none
      cases none.1
    exact ⟨by simp [Endpoint.retire, modifyRun, Function.update_of_ne ne, none.1], none.2⟩
  · intro t₁ t₂ r₁ r₂ first second same
    rcases before t₁ r₁ first with ⟨rfl, rfl⟩ | ⟨-, here₁⟩ <;>
      rcases before t₂ r₂ second with ⟨rfl, rfl⟩ | ⟨-, here₂⟩
    · rfl
    · exact served.one _ _ _ _ found here₂ same
    · exact served.one _ _ _ _ here₁ found same
    · exact served.one _ _ _ _ here₁ here₂ same
  · intro id t' own
    rcases update_cases own with ⟨-, none⟩ | ⟨other, own⟩
    · cases none
    · obtain ⟨old, here, rfl, live⟩ := served.owned id t' own
      have ne : t' ≠ t := by
        rintro rfl
        exact other (by rw [Option.some.inj (here.symm.trans found)])
      exact ⟨old, by simpa [Endpoint.retire, modifyRun, Function.update_of_ne ne] using here, rfl, live⟩
  · intro t' r' now live
    rcases before t' r' now with ⟨rfl, rfl⟩ | ⟨ne, here⟩
    · exact absurd rfl live
    · have other : r'.id ≠ r.id := fun same => ne (served.one t' t r' r here found same)
      simpa [Endpoint.retire, modifyRun, Function.update_of_ne other] using served.held t' r' here live
  · intro t' r' now
    rcases before t' r' now with ⟨rfl, rfl⟩ | ⟨-, here⟩
    · exact served.aborted t' r found
    · exact served.aborted t' r' here
  · intro t' r' now armed
    rcases before t' r' now with ⟨rfl, rfl⟩ | ⟨-, here⟩
    · cases armed
    · exact served.armed t' r' here armed
  · intro t' r' now given live
    rcases before t' r' now with ⟨rfl, rfl⟩ | ⟨-, here⟩
    · exact absurd rfl live
    · exact served.watched t' r' here given live
  · intro ended id
    by_cases same : id = r.id
    · subst same
      exact Function.update_self ..
    · simpa [Endpoint.retire, modifyRun, Function.update_of_ne same] using served.closed ended id

/-- After the disposal every run that is not over has been marked. -/
theorem mark_of_disposed (served : Served e due) (ended : e.disposed = true) (event : Event V) :
    e.mark event due = due := by
  funext t
  unfold mark
  cases found : e.runs t with
  | none => simp
  | some r =>
      by_cases running : r.phase = .ended
      · simp [Event.stops, running]
      · rcases served.held t r found running with own | ⟨-, gone⟩
        · rw [served.closed ended] at own
          cases own
        · simp [(served.aborted t r found).1 gone]

theorem dispose (served : Served e due) {reason : RpcError V} {stop : Option Nat}
    (went : e.throws (.dispose reason stop) = false) :
    Served (e.dispose reason stop).1 (e.mark (.dispose reason stop) due) := by
  unfold Endpoint.dispose
  split
  case isTrue ended =>
    rw [served.mark_of_disposed ended]
    exact served
  case isFalse live =>
    have all : e.cutShort stop = none := by simpa [throws, live] using went
    simp only [all]
    -- the runs that are aborted are those that are not over
    have own : ∀ t r, e.runs t = some r → (e.owned r.id = some t ↔ r.phase ≠ .ended) := by
      intro t r found
      refine ⟨fun own => ?_, fun running => ?_⟩
      · obtain ⟨r', here, -, running⟩ := served.owned r.id t own
        rwa [Option.some.inj (here.symm.trans found)] at running
      · rcases served.held t r found running with own | ⟨ended, -⟩
        · exact own
        · exact absurd ended live
    have before : ∀ t r', ((e.runs t).map fun r =>
        if e.owned r.id = some t then abortRun r else r) = some r' →
        ∃ r, e.runs t = some r ∧ r' = if r.phase ≠ .ended then abortRun r else r := by
      intro t r' now
      obtain ⟨r, found, rfl⟩ := Option.map_eq_some_iff.1 now
      exact ⟨r, found, if_congr (own t r found) rfl rfl⟩
    constructor
    · intro t late
      have none := served.fresh t late
      exact ⟨by simp [none.1], by simp [mark, none.1, none.2]⟩
    · intro t₁ t₂ r₁ r₂ first second same
      obtain ⟨old₁, here₁, rfl⟩ := before t₁ r₁ first
      obtain ⟨old₂, here₂, rfl⟩ := before t₂ r₂ second
      refine served.one t₁ t₂ old₁ old₂ here₁ here₂ ?_
      revert same
      split <;> split <;> exact id
    · intro id t none
      cases none
    · intro t r' now live
      obtain ⟨r, found, rfl⟩ := before t r' now
      split at live
      case isTrue running => exact .inr ⟨rfl, by rw [if_pos running]; rfl⟩
      case isFalse ended => exact absurd live ended
    · intro t r' now
      obtain ⟨r, found, rfl⟩ := before t r' now
      split
      case isTrue running => simp [mark, found, Event.stops, running, abortRun]
      case isFalse ended =>
        rw [served.aborted t r found]
        simp [mark, found, Event.stops, ended]
    · intro t r' now armed
      obtain ⟨r, found, rfl⟩ := before t r' now
      split at armed
      case isTrue running =>
        rw [if_pos running]
        exact running
      case isFalse ended => exact absurd (served.armed t r found armed) ended
    · intro t r' now given live
      obtain ⟨r, found, rfl⟩ := before t r' now
      split at live
      case isTrue running => exact .inr (by rw [if_pos running]; rfl)
      case isFalse ended => exact absurd live ended
    · exact fun _ _ => rfl

theorem call_serving (ns method : String) (args : List V) (options : CallOptions) (now : Int)
    (failure : Option (RpcError V)) :
    serving (e.call ns method args options now failure).1 = serving e := by
  unfold Endpoint.call
  split
  · rfl
  · split
    · rfl
    · cases failure <;> rfl

theorem abort_serving (id : Nat) (cause : Cause V) (sent : Bool) :
    serving (e.abort id cause sent).1 = serving e := by
  unfold abort
  split
  · split <;> rfl
  · rfl

theorem timeout_serving (id : Nat) (sent : Bool) : serving (e.timeout id sent).1 = serving e :=
  abort_serving (e := { e with timers := e.timers.filter (· ≠ id) }) id .timedOut sent

theorem onAbort_serving (id : Nat) (sent : Bool) : serving (e.onAbort id sent).1 = serving e :=
  abort_serving (e := { e with listeners := e.listeners.filter (· ≠ id) }) id .aborted sent

theorem onReply_serving (r : ReplyMsg V) : serving (e.onReply r) = serving e := by
  unfold onReply
  split <;> rfl

/-- **An event keeps the aborted signals those of the marked runs.** -/
theorem step (served : Served e due) {event : Event V} {out : List (Msg V)}
    (went : e.throws event = false)
    (unknown : ∀ id request deadline now sent, event = .receive (.call id request deadline) now sent →
      ∀ t r, e.runs t = some r → r.id ≠ id)
    (stepped : e.step event = some (e', out)) : Served e' (e.mark event due) := by
  cases event with
  | onCall =>
      cases stepped
      rw [mark_of_idle fun _ _ => by simp [Event.stops]]
      exact served.of_serving rfl
  | call ns method args options now failure =>
      have kept := served.of_serving (call_serving ns method args options now failure)
      rw [Option.some.inj stepped] at kept
      rw [mark_of_idle fun _ _ => by simp [Event.stops]]
      exact kept
  | timeout id sent =>
      simp only [Endpoint.step] at stepped
      split at stepped
      · have kept := served.of_serving (timeout_serving id sent)
        rw [Option.some.inj stepped] at kept
        rw [mark_of_idle fun _ _ => by simp [Event.stops]]
        exact kept
      · cases stepped
  | abort id sent =>
      simp only [Endpoint.step] at stepped
      split at stepped
      · have kept := served.of_serving (onAbort_serving id sent)
        rw [Option.some.inj stepped] at kept
        rw [mark_of_idle fun _ _ => by simp [Event.stops]]
        exact kept
      · cases stepped
  | receive msg now sent =>
      simp only [Endpoint.step] at stepped
      split at stepped
      case isTrue ended =>
        cases stepped
        rw [served.mark_of_disposed ended]
        exact served
      case isFalse live =>
        have live : e.disposed = false := by simpa using live
        cases msg with
        | call id request deadline =>
            have kept := served.serve live (unknown id request deadline now sent rfl) request
              deadline now sent
            rw [Option.some.inj stepped] at kept
            rw [mark_of_idle fun _ _ => by simp [Event.stops]]
            exact kept
        | cancel id =>
            cases stepped
            exact served.cancel live id now sent
        | reply r =>
            cases stepped
            rw [mark_of_idle fun _ _ => by simp [Event.stops]]
            exact served.of_serving (onReply_serving r)
  | finish t result first second =>
      simp only [Endpoint.step] at stepped
      split at stepped
      case h_1 r found =>
        split at stepped
        case isTrue running =>
          have kept := served.finish found running result first second
          rw [Option.some.inj stepped] at kept
          rw [mark_of_idle fun _ _ => by simp [Event.stops]]
          exact kept
        case isFalse => cases stepped
      case h_2 => cases stepped
  | retire t =>
      simp only [Endpoint.step] at stepped
      split at stepped
      case h_1 r found =>
        split at stepped
        · cases stepped
          rw [mark_of_idle fun _ _ => by simp [Event.stops]]
          exact served.retire found
        · cases stepped
      case h_2 => cases stepped
  | deadline t =>
      simp only [Endpoint.step] at stepped
      split at stepped
      case h_1 r found =>
        split at stepped
        case isTrue armed =>
          cases stepped
          exact served.deadline found armed
        case isFalse => cases stepped
      case h_2 => cases stepped
  | dispose reason stop =>
      have kept := served.dispose went
      rw [Option.some.inj stepped] at kept
      exact kept

end Served

end Endpoint

end Kiagent.Platform
