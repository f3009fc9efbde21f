/-
# Admission.Schedule -- what holds of every run of the controller

No run admits more than the slots, nor two escapes at a time, and none lets a waiter
pass another of its kind that waited longer (`Books`).

A wakeup can be lost.  `armWake` clears the timer and returns when the foreground is no
longer busy, and an abort calls it without a pump: after the grace, and before the
timer that was due at its end has fired, it leaves the other waiters with a free slot
and no timer (`abort_loses_wakeup`).  The release of an escaped unit into a slow-mode
hold frees the escape, and arms nothing for the waiter that may take it now.  And where
the clock ticks past the end of the grace between a pick and the arming that follows, the
early return is the same.  `Calm` keeps clear of these, and in a run whose steps all meet
it the timer is always armed in time (`schedule_safe`).
-/
import Mathlib
import Kiagent.Theory.Runs
import Kiagent.Admission.Controller

namespace Kiagent.Admission

open Kiagent.Theory

set_option autoImplicit false

variable {slots : ℕ} {s : State} {r : Readings}

/-! ## What the functions leave alone -/

@[simp] theorem armWake_waiters (t t' : ℤ) : (armWake slots t t' s).waiters = s.waiters := by
  unfold armWake
  split_ifs <;> [rfl; (split <;> rfl); rfl]

/-- Arming changes the timer and nothing else. -/
theorem armWake_eq (slots : ℕ) (t t' : ℤ) (s : State) :
    armWake slots t t' s = { s with wake := (armWake slots t t' s).wake } := by
  unfold armWake
  split_ifs <;> [rfl; (split <;> rfl); rfl]

theorem foregroundBusy_congr {s s' : State} (flight : s'.fgInFlight = s.fgInFlight)
    (left : s'.fgLastLeave = s.fgLastLeave) (t : ℤ) : foregroundBusy t s' = foregroundBusy t s := by
  unfold foregroundBusy
  rw [flight, left]

theorem pumpRounds_keeps (slots : ℕ) (r : Readings) (n : ℕ) (s : State) :
    (pumpRounds slots r n s).fgInFlight = s.fgInFlight ∧
      (pumpRounds slots r n s).fgLastLeave = s.fgLastLeave := by
  induction n generalizing s with
  | zero => exact ⟨rfl, rfl⟩
  | succ n ih =>
      unfold pumpRounds
      split
      · split
        · exact ⟨rfl, rfl⟩
        · exact ih (takeNext ..)
      · exact ⟨rfl, rfl⟩

theorem pumpRounds_busy (slots : ℕ) (r : Readings) (n : ℕ) (s : State) (t : ℤ) :
    foregroundBusy t (pumpRounds slots r n s) = foregroundBusy t s :=
  foregroundBusy_congr (pumpRounds_keeps slots r n s).1 (pumpRounds_keeps slots r n s).2 t

/-! ## Who is picked -/

/-- `a` has waited at least as long as `b`: it came earlier on the clock, or at the same
reading and no later. -/
def Waiter.Ahead (a b : Waiter) : Prop := a.enq < b.enq ∨ (a.enq = b.enq ∧ a.id ≤ b.id)

/-- No waiter of the same kind had waited longer, and none at all that had aged. -/
structure Grant.Fair (g : Grant) : Prop where
  sameKind : ∀ w ∈ g.queue, w.kind = g.waiter.kind → g.waiter.Ahead w
  aged : ∀ w ∈ g.queue, kindAgingMs ≤ g.t - w.enq → g.waiter.Ahead w

/-- The queue in the order of arrival. -/
def Ordered (ws : List Waiter) : Prop := ws.Pairwise fun a b => a.id < b.id

theorem older_iff (a b : Waiter) : older a b = true ↔ a.enq < b.enq := by
  rw [older, decide_eq_true_iff]

theorem rankedBefore_iff (a b : Waiter) :
    rankedBefore a b = true ↔ toLex (rank a.kind, a.enq) < toLex (rank b.kind, b.enq) := by
  rw [rankedBefore, decide_eq_true_iff, Prod.Lex.toLex_lt_toLex]

theorem oldest_ahead {ws : List Waiter} (ordered : Ordered ws) {m : Waiter}
    (found : firstBest older ws = some m) : ∀ w ∈ ws, m.Ahead w := by
  intro w mem
  rcases firstBest_least older_iff ordered found w mem with lower | ⟨same, rfl | later⟩
  · exact .inl lower
  · exact .inr ⟨rfl, le_rfl⟩
  · exact .inr ⟨same, later.le⟩

theorem ranked_ahead {ws : List Waiter} (ordered : Ordered ws) {m : Waiter}
    (found : firstBest rankedBefore ws = some m) :
    ∀ w ∈ ws, w.kind = m.kind → m.Ahead w := by
  intro w mem same
  have least := firstBest_least rankedBefore_iff ordered found w mem
  rw [Prod.Lex.toLex_lt_toLex, same] at least
  rcases least with (lower | ⟨-, earlier⟩) | ⟨equal, rfl | later⟩
  · exact absurd lower (lt_irrefl _)
  · exact .inl earlier
  · exact .inr ⟨rfl, le_rfl⟩
  · exact .inr ⟨congrArg (fun p => (ofLex p).2) equal, later.le⟩

theorem Ordered.filter {ws : List Waiter} (ordered : Ordered ws) (p : Waiter → Bool) :
    Ordered (ws.filter p) := List.Pairwise.filter p ordered

theorem pickNext_mem {t tBusy : ℤ} {w : Waiter} {escaped : Bool}
    (picked : pickNext t tBusy s = some (w, escaped)) : w ∈ s.waiters := by
  unfold pickNext at picked
  split at picked
  · split at picked
    · cases picked
    · obtain ⟨m, found, same⟩ := Option.map_eq_some_iff.1 picked
      obtain ⟨rfl, -⟩ := Prod.mk.inj same
      exact List.mem_of_mem_filter (firstBest_mem found)
  · split at picked
    · rename_i m found
      obtain ⟨rfl, -⟩ := Prod.mk.inj (Option.some.inj picked)
      exact List.mem_of_mem_filter (firstBest_mem found)
    · obtain ⟨m, found, same⟩ := Option.map_eq_some_iff.1 picked
      obtain ⟨rfl, -⟩ := Prod.mk.inj same
      exact firstBest_mem found

/-- **The pick is fair**, and an escape is granted only while there is none. -/
theorem pickNext_fair {t tBusy : ℤ} {w : Waiter} {escaped : Bool} (ordered : Ordered s.waiters)
    (picked : pickNext t tBusy s = some (w, escaped)) :
    Grant.Fair ⟨w, s.waiters, t⟩ ∧ (escaped = true → s.escapedRunning = 0) := by
  unfold pickNext at picked
  split at picked
  · split at picked
    · cases picked
    · rename_i none
      obtain ⟨m, found, same⟩ := Option.map_eq_some_iff.1 picked
      obtain ⟨rfl, rfl⟩ := Prod.mk.inj same
      have starved := of_decide_eq_true (List.mem_filter.1 (firstBest_mem found)).2
      -- who has not starved came later than one who has
      have ahead : ∀ w ∈ s.waiters, m.Ahead w := by
        intro w waits
        by_cases also : maxForegroundWaitMs ≤ t - w.enq
        · exact oldest_ahead (ordered.filter _) found w
            (List.mem_filter.2 ⟨waits, decide_eq_true also⟩)
        · exact .inl (by omega)
      exact ⟨⟨fun w waits _ => ahead w waits, fun w waits _ => ahead w waits⟩, fun _ => by omega⟩
  · split at picked
    · rename_i m found
      obtain ⟨rfl, rfl⟩ := Prod.mk.inj (Option.some.inj picked)
      have old := of_decide_eq_true (List.mem_filter.1 (firstBest_mem found)).2
      have ahead : ∀ w ∈ s.waiters, m.Ahead w := by
        intro w waits
        by_cases also : kindAgingMs ≤ t - w.enq
        · exact oldest_ahead (ordered.filter _) found w
            (List.mem_filter.2 ⟨waits, decide_eq_true also⟩)
        · exact .inl (by omega)
      exact ⟨⟨fun w waits _ => ahead w waits, fun w waits _ => ahead w waits⟩, nofun⟩
    · rename_i young
      obtain ⟨m, found, same⟩ := Option.map_eq_some_iff.1 picked
      obtain ⟨rfl, rfl⟩ := Prod.mk.inj same
      refine ⟨⟨ranked_ahead ordered found, fun w waits old => ?_⟩, nofun⟩
      -- an aged waiter would have been found by the loop before
      have empty := firstBest_eq_none.1 young
      exact absurd (List.mem_filter.2 ⟨waits, decide_eq_true old⟩) (empty ▸ List.not_mem_nil)

/-- With a waiter in the queue, only a busy foreground keeps the pick from finding one. -/
theorem pickNext_none {t tBusy : ℤ} (waits : s.waiters ≠ []) (nobody : pickNext t tBusy s = none) :
    foregroundBusy tBusy s = true := by
  unfold pickNext at nobody
  split at nobody
  · assumption
  · split at nobody
    · cases nobody
    · exact absurd (firstBest_eq_none.1 (Option.map_eq_none_iff.1 nobody)) waits

/-! ## The books -/

/-- What the counters count, and what they never exceed. -/
structure Books (slots : ℕ) (s : State) : Prop where
  running : s.running = s.units.length + s.holdTimers.length
  held : s.held = s.holdTimers.length
  escaped : s.escapedRunning = s.units.countP (·.escaped)
  flight : s.fgInFlight = s.calls.length
  bounded : s.running ≤ slots
  oneEscape : s.escapedRunning ≤ 1
  ordered : Ordered s.waiters
  fresh : ∀ w ∈ s.waiters, w.id < s.next
  fair : ∀ g ∈ s.grants, g.Fair

theorem books_initial (slots : ℕ) : Books slots State.initial where
  running := rfl
  held := rfl
  escaped := rfl
  flight := rfl
  bounded := Nat.zero_le _
  oneEscape := Nat.zero_le _
  ordered := List.Pairwise.nil
  fresh := fun _ mem => absurd mem List.not_mem_nil
  fair := fun _ mem => absurd mem List.not_mem_nil

namespace Books

/-- The timer and the idle waiters are in no book. -/
theorem aside (books : Books slots s) (wake : Option Wake) (idle : List ℕ) :
    Books slots { s with wake := wake, idleWaiters := idle } :=
  { books with }

theorem armWake (books : Books slots s) (t t' : ℤ) : Books slots (armWake slots t t' s) := by
  rw [armWake_eq]
  exact books.aside _ _

theorem takeNext (books : Books slots s) (free : s.running < slots) {w : Waiter} {escaped : Bool}
    {t tBusy : ℤ} (picked : pickNext t tBusy s = some (w, escaped)) (t0 : ℤ) :
    Books slots (takeNext w escaped t t0 s) := by
  obtain ⟨fair, alone⟩ := pickNext_fair books.ordered picked
  constructor
  case running =>
    show s.running + 1 = (s.units ++ [_]).length + s.holdTimers.length
    have := books.running
    simp only [List.length_append, List.length_singleton]
    omega
  case held => exact books.held
  case escaped =>
    show (if escaped then s.escapedRunning + 1 else s.escapedRunning) = (s.units ++ [_]).countP _
    rw [List.countP_append, List.countP_singleton, books.escaped]
    split <;> rfl
  case flight => exact books.flight
  case bounded => exact free
  case oneEscape =>
    show (if escaped then s.escapedRunning + 1 else s.escapedRunning) ≤ 1
    split
    case isTrue first => rw [alone first]
    case isFalse => exact books.oneEscape
  case ordered => exact books.ordered.sublist List.erase_sublist
  case fresh => exact fun v mem => books.fresh v (List.mem_of_mem_erase mem)
  case fair =>
    intro g mem
    rcases List.mem_append.1 mem with before | here
    · exact books.fair g before
    · obtain rfl := List.mem_singleton.1 here
      exact fair

theorem pumpRounds (r : Readings) : {n : ℕ} → {s : State} → Books slots s →
    Books slots (pumpRounds slots r n s)
  | 0, _, books => books
  | n + 1, s, books => by
      unfold Admission.pumpRounds
      split
      case isTrue free =>
        split
        · exact books
        · rename_i picked
          exact pumpRounds r (books.takeNext free.1 picked _)
      case isFalse => exact books

theorem pump (books : Books slots s) (r : Readings) : Books slots (pump slots r s) :=
  (books.pumpRounds r).armWake _ _

/-- One who comes last, with a number nobody has. -/
theorem joined (books : Books slots s) (kind : UnitKind) (enq : ℤ) :
    Books slots { s with waiters := s.waiters ++ [⟨s.next, kind, enq⟩], next := s.next + 1 } :=
  { books with
    ordered := by
      refine List.pairwise_append.2
        ⟨books.ordered, List.pairwise_singleton _ _, fun a mem b last => ?_⟩
      obtain rfl := List.mem_singleton.1 last
      exact books.fresh a mem
    fresh := by
      intro w mem
      rcases List.mem_append.1 mem with before | last
      · exact (books.fresh w before).trans (Nat.lt_succ_self _)
      · obtain rfl := List.mem_singleton.1 last
        exact Nat.lt_succ_self _ }

theorem acquire (books : Books slots s) (kind : UnitKind) (r : Readings) :
    Books slots (acquire slots kind r s) :=
  (books.joined kind r.enter).pump r

theorem onAbort (books : Books slots s) (w : Waiter) (r : Readings) :
    Books slots (onAbort slots w r s) := by
  have gone : Books slots { s with waiters := s.waiters.erase w } :=
    { books with
      ordered := books.ordered.sublist List.erase_sublist
      fresh := fun v mem => books.fresh v (List.mem_of_mem_erase mem) }
  exact gone.armWake _ _

/-- A unit that was admitted is given back, whatever comes of its slot. -/
theorem returned (books : Books slots s) {u : AdmittedUnit} (mem : u ∈ s.units) :
    (if u.escaped then s.escapedRunning - 1 else s.escapedRunning) =
      (s.units.erase u).countP (·.escaped) ∧
    (if u.escaped then s.escapedRunning - 1 else s.escapedRunning) ≤ 1 ∧
    (s.units.erase u).length + 1 = s.units.length := by
  have one := books.oneEscape
  refine ⟨?_, by split <;> omega, ?_⟩
  · rw [List.countP_erase, books.escaped]
    by_cases escaped : u.escaped = true
    · rw [if_pos escaped, if_pos ⟨mem, escaped⟩]
    · rw [if_neg escaped, if_neg (fun both => escaped both.2), Nat.sub_zero]
  · rw [List.length_erase_of_mem mem]
    exact Nat.succ_pred_eq_of_pos (List.length_pos_of_mem mem)

theorem release (books : Books slots s) {u : AdmittedUnit} (mem : u ∈ s.units) (userActive : Bool)
    (r : Readings) : Books slots (release slots u userActive r s) := by
  obtain ⟨escapes, most, fewer⟩ := books.returned mem
  have running := books.running
  have held := books.held
  have bounded := books.bounded
  unfold Admission.release
  dsimp only
  split
  case isTrue =>
    constructor
    case running => simp only [List.length_append, List.length_singleton]; omega
    case held => simp only [List.length_append, List.length_singleton]; omega
    case escaped => exact escapes
    case flight => exact books.flight
    case bounded => exact bounded
    case oneEscape => exact most
    case ordered => exact books.ordered
    case fresh => exact books.fresh
    case fair => exact books.fair
  case isFalse =>
    refine Books.pump ?_ r
    constructor
    case running =>
      show s.running - 1 = (s.units.erase u).length + s.holdTimers.length
      omega
    case held => exact held
    case escaped => exact escapes
    case flight => exact books.flight
    case bounded => show s.running - 1 ≤ _; omega
    case oneEscape => exact most
    case ordered => exact books.ordered
    case fresh => exact books.fresh
    case fair => exact books.fair

theorem holdEnds (books : Books slots s) {hold : ℚ} (mem : hold ∈ s.holdTimers) (r : Readings) :
    Books slots (holdEnds slots hold r s) := by
  have running := books.running
  have held := books.held
  have bounded := books.bounded
  have fewer : (s.holdTimers.erase hold).length + 1 = s.holdTimers.length := by
    rw [List.length_erase_of_mem mem]
    exact Nat.succ_pred_eq_of_pos (List.length_pos_of_mem mem)
  have ended : Books slots { s with
      held := s.held - 1, running := s.running - 1, holdTimers := s.holdTimers.erase hold } :=
    { books with
      running := by
        show s.running - 1 = s.units.length + (s.holdTimers.erase hold).length
        omega
      held := by
        show s.held - 1 = (s.holdTimers.erase hold).length
        omega
      bounded := by show s.running - 1 ≤ _; omega }
  exact ended.pump r

theorem foreground (books : Books slots s) (r : Readings) :
    Books slots (foreground slots r s) := by
  have entered : Books slots { s with
      fgInFlight := s.fgInFlight + 1, calls := s.calls ++ [s.next], next := s.next + 1 } :=
    { books with
      flight := by
        show s.fgInFlight + 1 = (s.calls ++ [s.next]).length
        rw [books.flight, List.length_append, List.length_singleton]
      fresh := fun w mem => (books.fresh w mem).trans (Nat.lt_succ_self _) }
  exact entered.armWake _ _

theorem leave (books : Books slots s) {call : ℕ} (mem : call ∈ s.calls) (r : Readings) :
    Books slots (leave slots call r s) := by
  have left : Books slots { s with
      fgInFlight := s.fgInFlight - 1
      fgLastLeave := if s.fgInFlight - 1 = 0 then some r.enter else s.fgLastLeave
      calls := s.calls.erase call } :=
    { books with
      flight := by
        show s.fgInFlight - 1 = (s.calls.erase call).length
        rw [books.flight, List.length_erase_of_mem mem] }
  exact left.armWake _ _

theorem foregroundIdle (books : Books slots s) (r : Readings) :
    Books slots (foregroundIdle slots r s) := by
  unfold Admission.foregroundIdle
  split
  case isTrue =>
    have waits : Books slots { s with
        idleWaiters := s.idleWaiters ++ [s.next], next := s.next + 1 } :=
      { books with fresh := fun w mem => (books.fresh w mem).trans (Nat.lt_succ_self _) }
    exact waits.armWake _ _
  case isFalse => exact books

theorem step (books : Books slots s) {a : Act} {s' : State} (took : step slots s a = some s') :
    Books slots s' := by
  cases a with
  | acquire kind aborted r =>
      obtain rfl := Option.some.inj took
      split
      · exact books
      · exact books.acquire kind r
  | abort id r =>
      simp only [Admission.step] at took
      split at took
      · obtain rfl := Option.some.inj took
        exact books
      · obtain rfl := Option.some.inj took
        exact books.onAbort _ r
  | release id userActive r =>
      simp only [Admission.step] at took
      split at took
      · obtain rfl := Option.some.inj took
        exact books
      · rename_i found
        obtain rfl := Option.some.inj took
        exact books.release (List.mem_of_find?_eq_some found) userActive r
  | holdEnds hold r =>
      obtain ⟨mem, same⟩ := Option.ite_none_right_eq_some.1 took
      obtain rfl := Option.some.inj same
      exact books.holdEnds mem r
  | foreground r =>
      obtain rfl := Option.some.inj took
      exact books.foreground r
  | leave call r =>
      obtain rfl := Option.some.inj took
      split
      case isTrue mem => exact books.leave mem r
      case isFalse => exact books
  | foregroundIdle r =>
      obtain rfl := Option.some.inj took
      exact books.foregroundIdle r
  | idleEnds entry =>
      obtain rfl := Option.some.inj took
      exact books.aside _ _
  | wakes r =>
      obtain ⟨-, same⟩ := Option.ite_none_right_eq_some.1 took
      obtain rfl := Option.some.inj same
      exact (books.aside _ _).pump r

end Books

/-! ## The timer -/

/-- Whenever a slot is free and the pick would find someone at a moment `t`, the timer is
armed: it is due by then, or at once if it was set later. -/
def NoLostWakeup (slots : ℕ) (s : State) : Prop :=
  s.running < slots → ∀ t, (pickNext t t s).isSome →
    ∃ timer, s.wake = some timer ∧ timer.due ≤ max t timer.set

/-- The timer is armed, and due by `moment`. -/
def ArmedBy (s : State) (moment : ℤ) : Prop :=
  ∃ timer ∈ s.wake, timer.due ≤ max moment timer.set

instance (s : State) (moment : ℤ) : Decidable (ArmedBy s moment) :=
  match wake : s.wake with
  | none => .isFalse fun ⟨timer, mem, _⟩ => by rw [wake] at mem; cases mem
  | some timer =>
      decidable_of_iff (timer.due ≤ max moment timer.set)
        ⟨fun due => ⟨timer, wake, due⟩, fun ⟨other, mem, due⟩ => by
          rw [wake] at mem
          exact Option.some.inj mem ▸ due⟩

/-- The timer is due by the starvation deadline of every waiter. -/
def ArmedForAll (s : State) : Prop := ∀ w ∈ s.waiters, ArmedBy s (w.enq + maxForegroundWaitMs)

instance (s : State) : Decidable (ArmedForAll s) :=
  inferInstanceAs (Decidable (∀ w ∈ s.waiters, ArmedBy s (w.enq + maxForegroundWaitMs)))

/-- What a waiter beside a free slot needs: the end of the grace if no call is in flight,
and the deadlines if no escape is. -/
structure Armed (s : State) : Prop where
  grace : s.fgInFlight = 0 → ∃ left ∈ s.fgLastLeave, ArmedBy s (left + foregroundGraceMs)
  deadlines : s.escapedRunning = 0 → ArmedForAll s

/-- The invariant. -/
def Watched (slots : ℕ) (s : State) : Prop := s.waiters ≠ [] → s.running < slots → Armed s

theorem ArmedBy.mono {moment later : ℤ} (armed : ArmedBy s moment) (le : moment ≤ later) :
    ArmedBy s later := by
  obtain ⟨timer, mem, due⟩ := armed
  exact ⟨timer, mem, due.trans (max_le_max_right _ le)⟩

theorem not_busy {t : ℤ} (idle : foregroundBusy t s = false) :
    s.fgInFlight = 0 ∧ ∀ left ∈ s.fgLastLeave, left + foregroundGraceMs ≤ t := by
  rw [foregroundBusy, Bool.or_eq_false_iff, decide_eq_false_iff_not] at idle
  obtain ⟨flight, grace⟩ := idle
  refine ⟨by omega, fun left mem => ?_⟩
  rw [Option.mem_def] at mem
  rw [mem] at grace
  have grace : ¬ t - left < foregroundGraceMs := of_decide_eq_false grace
  omega

theorem busy_left {t : ℤ} (busy : foregroundBusy t s = true) (flight : s.fgInFlight = 0) :
    ∃ left, s.fgLastLeave = some left := by
  cases left : s.fgLastLeave with
  | none =>
      rw [foregroundBusy, flight, left] at busy
      cases busy
  | some moment => exact ⟨moment, rfl⟩

/-- **Nothing is lost while it is watched.** -/
theorem Watched.noLostWakeup (watched : Watched slots s) : NoLostWakeup slots s := by
  intro free t found
  obtain ⟨⟨w, escaped⟩, picked⟩ := Option.isSome_iff_exists.1 found
  unfold pickNext at picked
  split at picked
  case isTrue busy =>
    split at picked
    · cases picked
    · rename_i noEscape
      obtain ⟨m, best, -⟩ := Option.map_eq_some_iff.1 picked
      obtain ⟨mem, starved⟩ := List.mem_filter.1 (firstBest_mem best)
      have starved := of_decide_eq_true starved
      have armed := (watched (List.ne_nil_of_mem mem) free).deadlines (by omega) m mem
      exact armed.mono (by omega)
  case isFalse idle =>
    have waits : s.waiters ≠ [] := by
      rintro empty
      rw [empty] at picked
      cases picked
    obtain ⟨flight, ended⟩ := not_busy (Bool.eq_false_iff.2 idle)
    obtain ⟨left, mem, armed⟩ := (watched waits free).grace flight
    exact armed.mono (ended left mem)

theorem foldl_min_le (ws : List Waiter) (f : Waiter → WithTop ℤ) (top : WithTop ℤ) :
    ws.foldl (fun moment w => min moment (f w)) top ≤ top ∧
      ∀ w ∈ ws, ws.foldl (fun moment w => min moment (f w)) top ≤ f w := by
  induction ws generalizing top with
  | nil => exact ⟨le_rfl, nofun⟩
  | cons w ws ih =>
      obtain ⟨below, all⟩ := ih (min top (f w))
      refine ⟨below.trans (min_le_left _ _), fun v mem => ?_⟩
      rcases List.mem_cons.1 mem with rfl | rest
      · exact below.trans (min_le_right _ _)
      · exact all v rest

/-- The moment `armWake` aims at comes no later than what it is armed for. -/
theorem wakeAt_le (slots : ℕ) (s : State) :
    (∀ left ∈ s.fgLastLeave, s.fgInFlight = 0 →
      wakeAt slots s ≤ ((left + foregroundGraceMs : ℤ) : WithTop ℤ)) ∧
    (s.escapedRunning = 0 → s.running < slots → ∀ w ∈ s.waiters,
      wakeAt slots s ≤ ((w.enq + maxForegroundWaitMs : ℤ) : WithTop ℤ)) := by
  constructor
  · intro left mem flight
    rw [Option.mem_def] at mem
    unfold wakeAt
    rw [flight, mem]
    dsimp only
    split
    · exact (foldl_min_le _ _ _).1
    · exact le_rfl
  · intro noEscape free w mem
    unfold wakeAt
    rw [if_pos ⟨noEscape, free⟩]
    exact (foldl_min_le _ _ _).2 w mem

/-- **Arming in a busy foreground arms for everything.** -/
theorem armWake_watched {tBusy : ℤ} (tNow : ℤ)
    (busy : s.waiters ≠ [] → s.running < slots → foregroundBusy tBusy s = true) :
    Watched slots (armWake slots tBusy tNow s) := by
  rw [armWake_eq]
  intro waits free
  have busy := busy waits free
  have armed : ∀ {moment : ℤ}, wakeAt slots s ≤ (moment : WithTop ℤ) →
      ArmedBy { s with wake := (armWake slots tBusy tNow s).wake } moment := by
    intro moment le
    rw [armWake, if_neg (fun none => waits none.1), if_pos busy]
    cases aims : wakeAt slots s with
    | top =>
        rw [aims] at le
        exact absurd le (WithTop.coe_lt_top moment).not_ge
    | coe first =>
        rw [aims] at le
        have le := WithTop.coe_le_coe.1 le
        exact ⟨⟨tNow, max 0 (first - tNow)⟩, rfl, by
          show tNow + max 0 (first - tNow) ≤ max moment tNow
          omega⟩
  constructor
  case grace =>
    intro flight
    obtain ⟨left, mem⟩ := busy_left busy flight
    exact ⟨left, mem, armed ((wakeAt_le slots s).1 left mem flight)⟩
  case deadlines =>
    intro noEscape w mem
    exact armed ((wakeAt_le slots s).2 noEscape free w mem)

/-- Arming loses a wakeup in the one case where it returns early with a waiter left beside a
free slot. -/
theorem armWake_noLostWakeup_iff (slots : ℕ) (tBusy tNow : ℤ) (s : State) :
    NoLostWakeup slots (armWake slots tBusy tNow s) ↔
      (s.waiters ≠ [] → s.running < slots → foregroundBusy tBusy s = true) := by
  refine ⟨fun safe waits free => ?_, fun busy => (armWake_watched tNow busy).noLostWakeup⟩
  by_contra idle
  have cleared : armWake slots tBusy tNow s = { s with wake := none } := by
    rw [armWake, if_neg (fun none => waits none.1), if_neg idle]
  rw [cleared] at safe
  have found : (pickNext tBusy tBusy { s with wake := none }).isSome := by
    rw [Option.isSome_iff_ne_none]
    intro nobody
    exact idle (pickNext_none waits nobody)
  obtain ⟨timer, armed, -⟩ := safe free tBusy found
  cases armed

/-- The rounds end for want of a slot, of a waiter or of a pick in a busy foreground. -/
theorem pumpRounds_ends (slots : ℕ) (r : Readings) : {n : ℕ} → {s : State} →
    s.waiters.length ≤ n → (pumpRounds slots r n s).waiters ≠ [] →
    (pumpRounds slots r n s).running < slots → ∃ m < n, foregroundBusy (r.busy m) s = true
  | 0, s, fuel, waits, _ => absurd (List.length_eq_zero_iff.1 (Nat.le_zero.1 fuel)) waits
  | n + 1, s, fuel, waits, free => by
      unfold pumpRounds at waits free
      split at waits
      case isTrue more =>
        rw [if_pos more] at free
        cases picked : pickNext (r.pick n) (r.busy n) s with
        | none => exact ⟨n, Nat.lt_succ_self n, pickNext_none more.2 picked⟩
        | some next =>
            obtain ⟨w, escaped⟩ := next
            rw [picked] at waits free
            have fewer : (takeNext w escaped (r.pick n) (r.start n) s).waiters.length ≤ n := by
              show (s.waiters.erase w).length ≤ n
              rw [List.length_erase_of_mem (pickNext_mem picked)]
              omega
            obtain ⟨m, lt, busy⟩ := pumpRounds_ends slots r fewer waits free
            exact ⟨m, lt.trans (Nat.lt_succ_self n), busy⟩
      case isFalse stop =>
        rw [if_neg stop] at free
        exact absurd ⟨free, waits⟩ stop

/-! ## The condition -/

/-- The grace does not run out between a pick of the handler and its arming. -/
def Unbroken (r : Readings) (s : State) : Prop :=
  ∀ n ≤ s.waiters.length, foregroundBusy (r.busy n) s = true → foregroundBusy r.armBusy s = true

instance (r : Readings) (s : State) : Decidable (Unbroken r s) :=
  inferInstanceAs (Decidable (∀ n ≤ s.waiters.length, _ → _))

/-- The steps that lose no wakeup, told from the state before. -/
def Calm (slots : ℕ) (s : State) : Act → Prop
  | .acquire _ _ r => Unbroken r s
  -- another waiter is left with a free slot only in a foreground that is still busy
  | .abort id r => (∃ w ∈ s.waiters, w.id = id) → 1 < s.waiters.length → s.running < slots →
      foregroundBusy r.armBusy s = true
  -- an escape ends in a hold only where the timer suits every waiter already
  | .release id userActive r => ∀ u ∈ s.units, u.waiter.id = id →
      if 0 < holdFor slots userActive u.t0 r.enter then
        u.escaped = true → s.running < slots → ArmedForAll s
      else Unbroken r s
  | .holdEnds _ r => Unbroken r s
  | .foreground _ => True
  -- the grace of the last call does not run out within its leave
  | .leave _ r => s.fgInFlight = 1 → s.waiters ≠ [] → s.running < slots →
      r.armBusy - r.enter < foregroundGraceMs
  | .foregroundIdle r => foregroundBusy r.enter s = true → s.waiters ≠ [] → s.running < slots →
      foregroundBusy r.armBusy s = true
  | .idleEnds _ => True
  | .wakes r => Unbroken r s

instance (slots : ℕ) (s : State) : (a : Act) → Decidable (Calm slots s a)
  | .acquire _ _ _ => inferInstanceAs (Decidable (Unbroken _ _))
  | .abort _ _ => inferInstanceAs (Decidable (_ → _ → _ → _))
  | .release id userActive r => inferInstanceAs (Decidable (∀ u ∈ s.units, u.waiter.id = id →
      if 0 < holdFor slots userActive u.t0 r.enter then
        u.escaped = true → s.running < slots → ArmedForAll s
      else Unbroken r s))
  | .holdEnds _ _ => inferInstanceAs (Decidable (Unbroken _ _))
  | .foreground _ => inferInstanceAs (Decidable True)
  | .leave _ _ => inferInstanceAs (Decidable (_ → _ → _ → _))
  | .foregroundIdle _ => inferInstanceAs (Decidable (_ → _ → _ → _))
  | .idleEnds _ => inferInstanceAs (Decidable True)
  | .wakes _ => inferInstanceAs (Decidable (Unbroken _ _))

theorem pump_watched {s' : State} (unbroken : Unbroken r s)
    (flight : s'.fgInFlight = s.fgInFlight) (left : s'.fgLastLeave = s.fgLastLeave)
    (queue : s'.waiters.length ≤ s.waiters.length + 1) : Watched slots (pump slots r s') := by
  refine armWake_watched r.armNow fun waits free => ?_
  obtain ⟨m, lt, busy⟩ := pumpRounds_ends slots r le_rfl waits free
  rw [foregroundBusy_congr flight left] at busy
  rw [pumpRounds_busy, foregroundBusy_congr flight left]
  exact unbroken m (by omega) busy

theorem Watched.release (watched : Watched slots s) {u : AdmittedUnit} (mem : u ∈ s.units)
    {userActive : Bool} (calm : Calm slots s (.release u.waiter.id userActive r)) :
    Watched slots (release slots u userActive r s) := by
  have calm := calm u mem rfl
  unfold Admission.release
  dsimp only
  split at calm
  case isTrue holds =>
    rw [if_pos holds]
    intro waits free
    have armed := watched waits free
    refine ⟨armed.grace, fun noEscape => ?_⟩
    by_cases escaped : u.escaped = true
    · exact calm escaped free
    · exact armed.deadlines ((if_neg escaped).symm.trans noEscape)
  case isFalse free =>
    rw [if_neg free]
    exact pump_watched calm rfl rfl (Nat.le_succ _)

theorem onAbort_watched {w : Waiter} (mem : w ∈ s.waiters)
    (calm : 1 < s.waiters.length → s.running < slots → foregroundBusy r.armBusy s = true) :
    Watched slots (onAbort slots w r s) := by
  refine armWake_watched _ fun waits free => calm ?_ free
  have left : 0 < (s.waiters.erase w).length := List.length_pos_iff.2 waits
  rw [List.length_erase_of_mem mem] at left
  omega

theorem leave_watched (books : Books slots s) {call : ℕ} (mem : call ∈ s.calls)
    (calm : Calm slots s (.leave call r)) : Watched slots (leave slots call r s) := by
  refine armWake_watched _ fun waits free => ?_
  have open_calls : 0 < s.fgInFlight := by
    rw [books.flight]
    exact List.length_pos_of_mem mem
  rw [foregroundBusy, Bool.or_eq_true]
  by_cases last : s.fgInFlight = 1
  · right
    rw [last]
    exact decide_eq_true (calm last waits free)
  · left
    exact decide_eq_true (show 0 < s.fgInFlight - 1 by omega)

/-- **One step.**  A calm step keeps the timer armed in time. -/
theorem Watched.step (books : Books slots s) (watched : Watched slots s) {a : Act} {s' : State}
    (calm : Calm slots s a) (took : step slots s a = some s') : Watched slots s' := by
  cases a with
  | acquire kind aborted r =>
      obtain rfl := Option.some.inj took
      split
      · exact watched
      · exact pump_watched calm rfl rfl (by simp)
  | abort id r =>
      simp only [Admission.step] at took
      split at took
      · obtain rfl := Option.some.inj took
        exact watched
      · rename_i w found
        obtain rfl := Option.some.inj took
        have same := List.find?_some (p := fun w : Waiter => decide (w.id = id)) found
        have mem := List.mem_of_find?_eq_some found
        exact onAbort_watched mem (calm ⟨w, mem, of_decide_eq_true same⟩)
  | release id userActive r =>
      simp only [Admission.step] at took
      split at took
      · obtain rfl := Option.some.inj took
        exact watched
      · rename_i u found
        obtain rfl := Option.some.inj took
        have same := List.find?_some (p := fun u : AdmittedUnit => decide (u.waiter.id = id)) found
        obtain rfl := of_decide_eq_true same
        exact watched.release (List.mem_of_find?_eq_some found) calm
  | holdEnds hold r =>
      obtain ⟨-, same⟩ := Option.ite_none_right_eq_some.1 took
      obtain rfl := Option.some.inj same
      exact pump_watched calm rfl rfl (Nat.le_succ _)
  | foreground r =>
      obtain rfl := Option.some.inj took
      exact armWake_watched _ fun _ _ => by
        rw [foregroundBusy, decide_eq_true (Nat.succ_pos s.fgInFlight)]
        rfl
  | leave call r =>
      obtain rfl := Option.some.inj took
      split
      case isTrue mem => exact leave_watched books mem calm
      case isFalse => exact watched
  | foregroundIdle r =>
      obtain rfl := Option.some.inj took
      unfold Admission.foregroundIdle
      split
      case isTrue busy => exact armWake_watched _ fun waits free => calm busy waits free
      case isFalse => exact watched
  | idleEnds entry =>
      obtain rfl := Option.some.inj took
      exact fun waits free => ⟨(watched waits free).grace, (watched waits free).deadlines⟩
  | wakes r =>
      obtain ⟨-, same⟩ := Option.ite_none_right_eq_some.1 took
      obtain rfl := Option.some.inj same
      exact pump_watched calm rfl rfl (Nat.le_succ _)

/-! ## Every run -/

/-- **The schedule.**  In every run the units in flight and those a hold keeps a slot for
stay within the slots, at most one unit in flight escaped, and every admission was fair to
the queue it was made from.  A run whose steps all are calm loses no wakeup. -/
theorem schedule_safe {acts : List Act} (ran : runSteps (step slots) State.initial acts = some s) :
    (s.running = s.units.length + s.held ∧ s.running ≤ slots) ∧
    s.units.countP (·.escaped) ≤ 1 ∧
    (∀ g ∈ s.grants, g.Fair) ∧
    (Along (step slots) (Calm slots) State.initial acts → NoLostWakeup slots s) := by
  have books : Books slots s :=
    run_invariant (fun _ _ _ books took => Books.step books took) (books_initial slots) ran
  refine ⟨⟨?_, books.bounded⟩, ?_, books.fair, fun calm => ?_⟩
  · rw [books.held]
    exact books.running
  · rw [← books.escaped]
    exact books.oneEscape
  · have both := run_keeps (I := fun s => Books slots s ∧ Watched slots s)
      (fun s a s' held calm took => ⟨held.1.step took, Watched.step held.1 held.2 calm took⟩)
      ⟨books_initial slots, fun waits => absurd rfl waits⟩ calm ran
    exact both.2.noLostWakeup

/-- Two ingests wait out a foreground call that leaves at 10; the timer is set for 310. -/
def waitingOut : List Act :=
  [.foreground (.still 0), .acquire .ingest false (.still 1), .acquire .ingest false (.still 2),
    .leave 0 (.still 10)]

theorem waitingOut_safe : ∃ s, runSteps (step 1) State.initial waitingOut = some s ∧
    s.wake = some ⟨10, 300⟩ ∧ NoLostWakeup 1 s := by
  obtain ⟨s, ran, armed⟩ : ∃ s, runSteps (step 1) State.initial waitingOut = some s ∧
      s.wake = some ⟨10, 300⟩ := ⟨_, rfl, by decide +kernel⟩
  exact ⟨s, ran, armed, (schedule_safe ran).2.2.2 (by decide +kernel)⟩

/-- **A wakeup is lost.**  At 311 the timer is due and has not fired; the second ingest is
aborted, and nothing will wake the first, though a slot is free. -/
theorem abort_loses_wakeup : ∃ s,
    runSteps (step 1) State.initial (waitingOut ++ [.abort 2 (.still 311)]) = some s ∧
    ¬ NoLostWakeup 1 s := by
  obtain ⟨s, ran, free, found, unarmed⟩ : ∃ s,
      runSteps (step 1) State.initial (waitingOut ++ [.abort 2 (.still 311)]) = some s ∧
      s.running < 1 ∧ (pickNext 311 311 s).isSome ∧ s.wake = none :=
    ⟨_, rfl, by decide +kernel, by decide +kernel, by decide +kernel⟩
  refine ⟨s, ran, fun safe => ?_⟩
  obtain ⟨timer, armed, -⟩ := safe free 311 found
  rw [unarmed] at armed
  cases armed

end Kiagent.Admission
