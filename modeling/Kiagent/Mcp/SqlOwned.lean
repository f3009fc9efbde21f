/-
# Mcp.SqlOwned -- the runner's variables and its timers

Between two turns the runner's state says which child there is, whether a statement runs,
and which timer is armed: of a start while a child starts, of the statement while one runs,
of the signal while a child is to exit (`Kept`).  Every turn keeps this (`kept_turn`), so a
call that waits has a timer behind it.
-/
import Kiagent.Mcp.SqlRunner

namespace Kiagent.Mcp.SqlRunner

open Theory (Timers)

set_option autoImplicit false

variable {Row : Type} {w : World Row}

/-- The calls that are not settled, in the order they are served. -/
def waiting (w : World Row) : List Job := (w.current.map Current.job).toList ++ w.queue

theorem failAll_eq (err : String) (w : World Row) : failAll err w =
    { w with
      queue := []
      current := none
      timers := w.timers.clear (w.current.map Current.timer)
      settled := w.settled ++ (waiting w).map fun job => (job.call, .error err) } := by
  obtain ⟨_, _, _, _, _, _, queue, current, _, _, _, _, _, timers, _⟩ := w
  cases current with
  | none =>
      show _ = ({ timers := timers.clear none, .. } : World Row)
      rw [Timers.clear_none]
      rfl
  | some cur => simp [failAll, failQueue, failCurrent, settle, waiting]

/-! ## What the variables say -/

structure Owned (w : World Row) : Prop where
  alive : w.children = w.child.toList
  named : ∀ c, w.child = some c → c < w.spawned
  childless : w.child = none ↔ w.state = .none_
  running : ∀ cur, w.current = some cur → w.state = .ready
  stuck : w.state = .stuck → w.queue = []
  closed : w.closed = true → w.queue = [] ∧ w.current = none
  waiters : w.exitWaiters ≠ [] → w.state = .stopping

theorem Owned.ended (owned : Owned w) : Owned { w with current := none } :=
  { owned with running := nofun, closed := fun is => ⟨(owned.closed is).1, rfl⟩ }

theorem Owned.failAll (owned : Owned w) (err : String) : Owned (failAll err w) := by
  rw [failAll_eq]
  exact { owned with running := nofun, stuck := fun _ => rfl, closed := fun _ => ⟨rfl, rfl⟩ }

theorem Owned.beginStop (owned : Owned w) (idle : w.current = none) : Owned (beginStop w) := by
  obtain ⟨alive, named, childless, running, stuck, closed, waiters⟩ := owned
  unfold SqlRunner.beginStop clearIdle
  split
  · constructor <;> assumption
  split
  · constructor <;> assumption
  · constructor <;> simp_all

theorem Owned.armIdle (owned : Owned w) : Owned (armIdle w) := { owned with }

theorem Owned.startNext (owned : Owned w) (ready : w.state = .ready) (open_ : w.closed = false)
    (env : Env) : Owned (startNext env w) := by
  obtain ⟨alive, named, childless, running, stuck, closed, waiters⟩ := owned
  unfold SqlRunner.startNext clearIdle
  dsimp only
  split <;> constructor <;> simp_all

theorem Owned.spawnChild (owned : Owned w) (none_ : w.state = .none_) (env : Env) :
    Owned (spawnChild env w) := by
  have failed := owned.failAll SQL_UNAVAILABLE
  obtain ⟨alive, named, childless, running, stuck, closed, waiters⟩ := owned
  unfold SqlRunner.spawnChild
  split
  · constructor <;> simp_all
  · exact failed

/-! ## What its timers are -/

structure Timed (w : World Row) : Prop where
  idle : w.timers.Holds (· = .idle) w.idleTimer
  start : w.timers.Holds (· = .start) w.startTimer
  term : w.timers.Holds (fun k => ∃ c, k = .term c) w.termTimer
  kill : w.timers.Holds (fun k => ∃ c, k = .kill c) w.killTimer
  current : ∀ cur, w.current = some cur →
    w.timers.Holds (· = .statement cur.id) (some cur.timer)
  early : w.state ≠ .stopping → w.state ≠ .stuck → w.killTimer = none
  armed_start : ∀ h, w.timers.Armed h .start → w.startTimer = some h ∧ w.state = .starting
  armed_term : ∀ h c, w.timers.Armed h (.term c) →
    w.termTimer = some h ∧ w.killTimer = none ∧ w.state = .stopping
  armed_kill : ∀ h c, w.timers.Armed h (.kill c) → w.killTimer = some h ∧ w.state = .stopping
  armed_statement : ∀ h id, w.timers.Armed h (.statement id) →
    ∃ cur, w.current = some cur ∧ cur.timer = h ∧ cur.id = id

theorem Timed.cleared (timed : Timed w) (handle : Option Nat) :
    Timed { w with timers := w.timers.clear handle } where
  idle := timed.idle.clear _
  start := timed.start.clear _
  term := timed.term.clear _
  kill := timed.kill.clear _
  current cur is := (timed.current cur is).clear _
  early := timed.early
  armed_start h armed := timed.armed_start h (Timers.armed_clear.mp armed).1
  armed_term h c armed := timed.armed_term h c (Timers.armed_clear.mp armed).1
  armed_kill h c armed := timed.armed_kill h c (Timers.armed_clear.mp armed).1
  armed_statement h id armed := timed.armed_statement h id (Timers.armed_clear.mp armed).1

/-- The statement that runs is over, with its timer. -/
theorem Timed.ended (timed : Timed w) : Timed { w with
    timers := w.timers.clear (w.current.map Current.timer)
    current := none } :=
  { timed.cleared (w.current.map Current.timer) with
    current := nofun
    armed_statement := fun h id armed => by
      obtain ⟨armed, other⟩ := Timers.armed_clear.mp armed
      obtain ⟨cur, is, rfl, -⟩ := timed.armed_statement h id armed
      rw [is] at other
      exact absurd rfl other }

theorem Timed.failAll (timed : Timed w) (err : String) : Timed (failAll err w) := by
  rw [failAll_eq]
  exact { timed.ended with }

theorem Timed.beginStop (timed : Timed w) : Timed (beginStop w) := by
  obtain ⟨idle, start, term, kill, current, early, as, at_, ak, ast⟩ := timed
  unfold SqlRunner.beginStop clearIdle
  split
  · constructor <;> assumption
  split
  · constructor <;> assumption
  · rename_i calm
    rw [not_or] at calm
    have nokill := early calm.1 calm.2
    constructor <;> dsimp only
    · exact Timers.holds_none
    · exact Timers.holds_none
    · exact Timers.holds_set ⟨_, rfl⟩
    · rw [nokill]; exact Timers.holds_none
    · exact fun cur is => (((current cur is).clear _).clear _).set _
    · exact fun no => absurd rfl no
    all_goals (intros; simp_all; try grind)

theorem Timed.armIdle (timed : Timed w) : Timed (armIdle w) := by
  obtain ⟨idle, start, term, kill, current, early, as, at_, ak, ast⟩ := timed
  unfold SqlRunner.armIdle clearIdle
  constructor <;> dsimp only
  · exact Timers.holds_set rfl
  · exact (start.clear _).set _
  · exact (term.clear _).set _
  · exact (kill.clear _).set _
  · exact fun cur is => ((current cur is).clear _).set _
  · exact early
  all_goals (intros; simp_all; try grind)

theorem Timed.startNext (timed : Timed w) (free : w.current = none) (env : Env) :
    Timed (startNext env w) := by
  obtain ⟨idle, start, term, kill, current, early, as, at_, ak, ast⟩ := timed
  unfold SqlRunner.startNext clearIdle
  dsimp only
  split
  · constructor <;> dsimp only
    · exact Timers.holds_none
    · exact (start.clear _).set _
    · exact (term.clear _).set _
    · exact (kill.clear _).set _
    · intro cur is
      cases is
      exact Timers.holds_set rfl
    · exact early
    all_goals (intros; simp_all; try grind)
  · constructor <;> dsimp only
    · exact Timers.holds_none
    · exact start.clear _
    · exact term.clear _
    · exact kill.clear _
    · exact fun cur is => (current cur is).clear _
    · exact early
    all_goals (intros; simp_all; try grind)

theorem Timed.spawnChild (timed : Timed w) (none_ : w.state = .none_) (env : Env) :
    Timed (spawnChild env w) := by
  have failed := timed.failAll SQL_UNAVAILABLE
  obtain ⟨idle, start, term, kill, current, early, as, at_, ak, ast⟩ := timed
  unfold SqlRunner.spawnChild
  split
  · constructor <;> dsimp only
    · exact idle.set _
    · exact Timers.holds_set rfl
    · exact term.set _
    · exact kill.set _
    · exact fun cur is => (current cur is).set _
    · exact fun _ _ => early (by rw [none_]; decide) (by rw [none_]; decide)
    all_goals (intros; simp_all; try grind)
  · exact failed

/-! ## What is waited for -/

/-- A stop has the timer of its signal armed. -/
def Stops (w : World Row) : Prop :=
  w.state = .stopping → ∃ h c,
    w.killTimer = none ∧ w.termTimer = some h ∧ w.timers.Armed h (.term c) ∨
      w.killTimer = some h ∧ w.timers.Armed h (.kill c)

/-- What is waited for has its timer. -/
structure Watched (w : World Row) : Prop where
  starting : w.state = .starting → ∃ h, w.startTimer = some h ∧ w.timers.Armed h .start
  stopping : Stops w
  counted : ∀ cur, w.current = some cur → w.timers.Armed cur.timer (.statement cur.id)

theorem Stops.cleared (stops : Stops w) {handle : Option Nat} {p : Callback → Prop}
    (holds : w.timers.Holds p handle) (term : ∀ c, ¬ p (.term c)) (kill : ∀ c, ¬ p (.kill c)) :
    Stops { w with timers := w.timers.clear handle } := by
  intro is
  obtain ⟨h, c, ⟨no, held, armed⟩ | ⟨held, armed⟩⟩ := stops is
  · exact ⟨h, c, Or.inl ⟨no, held, armed.clear holds (term c)⟩⟩
  · exact ⟨h, c, Or.inr ⟨held, armed.clear holds (kill c)⟩⟩

theorem Timed.current_holds (timed : Timed w) :
    w.timers.Holds (fun k => ∃ id, k = .statement id) (w.current.map Current.timer) := by
  intro h is
  obtain ⟨cur, running, rfl⟩ := Option.map_eq_some_iff.mp is
  obtain ⟨lt, kind⟩ := timed.current cur running _ rfl
  exact ⟨lt, fun k armed => ⟨cur.id, kind k armed⟩⟩

theorem Stops.failAll (stops : Stops w) (timed : Timed w) (err : String) :
    Stops (failAll err w) := by
  rw [failAll_eq]
  exact stops.cleared timed.current_holds nofun nofun

theorem Watched.cleared (watched : Watched w) {handle : Option Nat} {p : Callback → Prop}
    (holds : w.timers.Holds p handle) (start : ¬ p .start) (term : ∀ c, ¬ p (.term c))
    (kill : ∀ c, ¬ p (.kill c))
    (statement : ∀ cur, w.current = some cur → ¬ p (.statement cur.id)) :
    Watched { w with timers := w.timers.clear handle } where
  starting is := by
    obtain ⟨h, held, armed⟩ := watched.starting is
    exact ⟨h, held, armed.clear holds start⟩
  stopping := watched.stopping.cleared holds term kill
  counted cur is := (watched.counted cur is).clear holds (statement cur is)

theorem Watched.ended (watched : Watched w) (timed : Timed w) : Watched { w with
    timers := w.timers.clear (w.current.map Current.timer)
    current := none } := by
  have kept := @Watched.cleared _ { w with current := none }
    ⟨watched.starting, watched.stopping, nofun⟩ _ _ timed.current_holds nofun nofun nofun nofun
  exact ⟨kept.starting, kept.stopping, nofun⟩

theorem Watched.failAll (watched : Watched w) (timed : Timed w) (err : String) :
    Watched (failAll err w) := by
  rw [failAll_eq]
  exact { watched.ended timed with }

theorem Watched.beginStop (owned : Owned w) (timed : Timed w) (free : w.current = none)
    (stops : Stops w) : Watched (beginStop w) := by
  unfold SqlRunner.beginStop clearIdle
  split
  · rename_i gone
    have none_ := owned.childless.mp gone
    exact ⟨fun is => (by rw [none_] at is; cases is), stops, fun cur is => by
      rw [free] at is
      cases is⟩
  split
  · rename_i done
    refine ⟨fun is => ?_, stops, fun cur is => ?_⟩
    · rcases done with done | done <;> (rw [done] at is; cases is)
    · rw [free] at is
      cases is
  · rename_i c is calm
    rw [not_or] at calm
    refine ⟨nofun, fun _ => ⟨_, c, Or.inl ⟨timed.early calm.1 calm.2, rfl, ?_⟩⟩, fun cur is => ?_⟩
    · simp
    · rw [show w.current = none from free] at is
      cases is

theorem Watched.armIdle (watched : Watched w) (timed : Timed w) : Watched (armIdle w) := by
  have kept := watched.cleared timed.idle nofun nofun nofun nofun
  refine ⟨fun is => ?_, fun is => ?_, fun cur is => ?_⟩
  · obtain ⟨h, held, armed⟩ := kept.starting is
    exact ⟨h, held, Timers.armed_set.mpr (Or.inl armed)⟩
  · obtain ⟨h, c, ⟨no, held, armed⟩ | ⟨held, armed⟩⟩ := kept.stopping is
    · exact ⟨h, c, Or.inl ⟨no, held, Timers.armed_set.mpr (Or.inl armed)⟩⟩
    · exact ⟨h, c, Or.inr ⟨held, Timers.armed_set.mpr (Or.inl armed)⟩⟩
  · exact Timers.armed_set.mpr (Or.inl (kept.counted cur is))

theorem Watched.startNext (watched : Watched w) (timed : Timed w) (ready : w.state = .ready)
    (env : Env) : Watched (startNext env w) := by
  have kept := watched.cleared timed.idle nofun nofun nofun nofun
  unfold SqlRunner.startNext clearIdle
  dsimp only
  split
  · refine ⟨fun is => ?_, fun is => ?_, fun cur is => ?_⟩
    · rw [show w.state = .ready from ready] at is
      cases is
    · rw [show w.state = .ready from ready] at is
      cases is
    · cases is
      simp
  · exact ⟨kept.starting, kept.stopping, kept.counted⟩

theorem Watched.spawnChild (watched : Watched w) (timed : Timed w)
    (env : Env) : Watched (spawnChild env w) := by
  have failed := watched.failAll timed SQL_UNAVAILABLE
  unfold SqlRunner.spawnChild
  split
  · refine ⟨fun _ => ⟨_, rfl, by simp⟩, nofun, fun cur is => ?_⟩
    exact Timers.armed_set.mpr (Or.inl (watched.counted cur is))
  · exact failed

/-- No call waits without a child that is to start, run or exit. -/
def Served (w : World Row) : Prop :=
  w.queue ≠ [] → w.state = .starting ∨ w.state = .stopping ∨ ∃ cur, w.current = some cur

theorem served_failAll (err : String) (w : World Row) : Served (failAll err w) :=
  fun queued => absurd rfl queued

theorem startNext_queued {job : Job} {queue : List Job} {c : Nat} (queued : w.queue = job :: queue)
    (is : w.child = some c) (env : Env) : ∃ cur, (startNext env w).current = some cur := by
  unfold SqlRunner.startNext clearIdle
  simp only [queued, is]
  exact ⟨_, rfl⟩

theorem pump_keeps (owned : Owned w) (timed : Timed w) (watched : Watched w) (env : Env) :
    Owned (pump env w) ∧ Timed (pump env w) ∧ Watched (pump env w) ∧ Served (pump env w) := by
  unfold pump
  split
  · rename_i none_
    refine ⟨owned, timed, watched, fun queued => ?_⟩
    rcases none_ with closed | empty
    · exact absurd (owned.closed closed).1 queued
    · exact absurd empty queued
  · rename_i open_
    rw [not_or, Bool.not_eq_true] at open_
    split
    · rename_i none_
      refine ⟨owned.spawnChild none_ env, timed.spawnChild none_ env,
        watched.spawnChild timed env, ?_⟩
      unfold SqlRunner.spawnChild
      split
      · exact fun _ => Or.inl rfl
      · exact served_failAll _ w
    · rename_i child
      split
      · rename_i ready
        refine ⟨owned.startNext ready.1 open_.1 env, timed.startNext ready.2 env,
          watched.startNext timed ready.1 env, fun _ => Or.inr (Or.inr ?_)⟩
        obtain ⟨job, queue, queued⟩ := List.exists_cons_of_ne_nil open_.2
        obtain ⟨c, is⟩ := Option.ne_none_iff_exists'.mp fun gone => child (owned.childless.mp gone)
        exact startNext_queued queued is env
      · rename_i busy
        refine ⟨owned, timed, watched, fun queued => ?_⟩
        cases state : w.state with
        | none_ => exact absurd state child
        | starting => exact Or.inl rfl
        | stopping => exact Or.inr (Or.inl rfl)
        | stuck => exact absurd (owned.stuck state) queued
        | ready =>
            refine Or.inr (Or.inr (Option.ne_none_iff_exists'.mp fun free => busy ⟨state, free⟩))

/-! ## Turns -/

structure Kept (w : World Row) : Prop extends Owned w, Timed w, Watched w where
  served : Served w

theorem kept_initial : Kept (initial : World Row) where
  alive := rfl
  named := nofun
  childless := ⟨fun _ => rfl, fun _ => rfl⟩
  running := nofun
  stuck := nofun
  closed := nofun
  waiters := fun is => absurd rfl is
  idle := Timers.holds_none
  start := Timers.holds_none
  term := Timers.holds_none
  kill := Timers.holds_none
  current := nofun
  early _ _ := rfl
  armed_start := nofun
  armed_term := nofun
  armed_kill := nofun
  armed_statement := nofun
  starting := nofun
  stopping := nofun
  counted := nofun
  served queued := absurd rfl queued

theorem kept_pump (owned : Owned w) (timed : Timed w) (watched : Watched w) (env : Env) :
    Kept (pump env w) := by
  obtain ⟨owned', timed', watched', served⟩ := pump_keeps owned timed watched env
  exact ⟨owned', timed', watched', served⟩

theorem pump_ready (open_ : w.closed = false) (queued : w.queue ≠ []) (ready : w.state = .ready)
    (free : w.current = none) (env : Env) : pump env w = startNext env w := by
  unfold pump
  rw [if_neg (by simp [open_, queued]), if_neg (by rw [ready]; decide), if_pos ⟨ready, free⟩]

theorem kept_startNext (owned : Owned w) (timed : Timed w) (watched : Watched w)
    (ready : w.state = .ready) (free : w.current = none) (queued : w.queue ≠ []) (env : Env) :
    Kept (startNext env w) := by
  have open_ : w.closed = false := by
    rw [← Bool.not_eq_true]
    exact fun closed => queued (owned.closed closed).1
  have kept := kept_pump owned timed watched env
  rwa [pump_ready open_ queued ready free] at kept

theorem kept_finish (kept : Kept w) (m : ChildReply Row) (env : Env) : Kept (finish env m w) := by
  unfold finish settle
  split
  · exact kept
  · rename_i cur is
    have ready := kept.running cur is
    have owned := kept.toOwned.ended
    have timed := kept.toTimed.ended
    have watched := kept.toWatched.ended kept.toTimed
    rw [is] at timed watched
    dsimp only
    split
    · rename_i queued
      refine kept_startNext ?_ ?_ ?_ ?_ ?_ ?_ env
      · exact { owned with }
      · exact { timed with }
      · exact { watched with }
      · exact ready
      · rfl
      · exact queued
    · rename_i empty
      refine {
        toOwned := Owned.armIdle ?_
        toTimed := Timed.armIdle ?_
        toWatched := Watched.armIdle ?_ ?_
        served := fun queued => absurd queued empty }
      · exact { owned with }
      · exact { timed with }
      · exact { watched with }
      · exact { timed with }

theorem beginStop_queue (w : World Row) : (beginStop w).queue = w.queue := by
  unfold beginStop clearIdle
  split
  · rfl
  · split <;> rfl

theorem beginStop_state {c : Nat} (is : w.child = some c)
    (calm : w.state ≠ .stopping ∧ w.state ≠ .stuck) : (beginStop w).state = .stopping := by
  unfold beginStop clearIdle
  simp only [is]
  rw [if_neg (not_or.mpr calm)]

/-- A stop of a runner in which no statement runs. -/
theorem kept_beginStop (owned : Owned w) (timed : Timed w) (stops : Stops w)
    (free : w.current = none) (ready : w.queue ≠ [] → w.state = .ready) : Kept (beginStop w) := by
  refine { owned.beginStop free, timed.beginStop, Watched.beginStop owned timed free stops with
    served := fun queued => Or.inr (Or.inl ?_) }
  rw [beginStop_queue] at queued
  have ready := ready queued
  obtain ⟨c, is⟩ := Option.ne_none_iff_exists'.mp fun gone => by
    rw [owned.childless.mp gone] at ready
    cases ready
  exact beginStop_state is (by rw [ready]; decide)

/-- A stop that fails all that waits. -/
theorem kept_failAll (owned : Owned w) (timed : Timed w) (stops : Stops w) (err : String) :
    Kept (beginStop (failAll err w)) :=
  kept_beginStop (owned.failAll err) (timed.failAll err) (stops.failAll timed err)
    (by rw [failAll_eq]) fun queued => absurd rfl queued

/-- A child that starts has nothing running. -/
theorem Owned.starting (owned : Owned w) (starting : w.state = .starting) :
    w.current = none ∧ w.exitWaiters = [] ∧ w.child ≠ none := by
  refine ⟨?_, ?_, fun gone => ?_⟩
  · by_contra some_
    obtain ⟨cur, is⟩ := Option.ne_none_iff_exists'.mp some_
    exact absurd ((owned.running cur is).symm.trans starting) (by decide)
  · by_contra some_
    exact absurd ((owned.waiters some_).symm.trans starting) (by decide)
  · exact absurd ((owned.childless.mp gone).symm.trans starting) (by decide)

theorem kept_ready (kept : Kept w) (starting : w.state = .starting) (env : Env) :
    Kept (pump env { w with
      timers := w.timers.clear w.startTimer
      startTimer := none
      state := .ready }) := by
  obtain ⟨free, nobody, child⟩ := kept.toOwned.starting starting
  have timed := kept.toTimed.cleared w.startTimer
  have away : ∀ {h k}, (w.timers.clear w.startTimer).Armed h k → w.timers.Armed h k :=
    fun armed => (Timers.armed_clear.mp armed).1
  have calm : w.state ≠ .stopping := by rw [starting]; decide
  refine kept_pump ?_ ?_ ?_ env
  · exact { kept.toOwned with
      childless := ⟨fun gone => absurd gone child, nofun⟩
      running := fun _ _ => rfl
      stuck := nofun
      waiters := fun some_ => absurd nobody some_ }
  · exact { timed with
      start := Timers.holds_none
      early := fun _ _ => timed.early calm (by rw [starting]; decide)
      armed_start := fun h armed => absurd (kept.armed_start h (away armed)).1.symm
        (Timers.armed_clear.mp armed).2
      armed_term := fun h c armed => absurd (kept.armed_term h c (away armed)).2.2 calm
      armed_kill := fun h c armed => absurd (kept.armed_kill h c (away armed)).2 calm }
  · refine ⟨nofun, nofun, fun cur is => ?_⟩
    rw [show w.current = none from free] at is
    cases is

theorem kept_onMessage (kept : Kept w) (c : Nat) (m : ChildReply Row) (env : Env) :
    Kept (onMessage env c m w) := by
  unfold onMessage
  split
  · exact kept
  split
  · rename_i starting
    exact kept_ready kept starting.2 env
  split
  · exact kept_failAll kept.toOwned kept.toTimed kept.stopping _
  split
  · exact kept
  · split
    · exact kept_finish kept m env
    · exact kept

theorem kept_exec (kept : Kept w) (sql : String) (env : Env) : Kept (exec env sql w) := by
  unfold exec settle
  dsimp only
  split
  · exact { kept with }
  · rename_i open_
    split
    · exact { kept with }
    · rw [not_or] at open_
      refine kept_pump ?_ ?_ ?_ env
      · exact { kept.toOwned with
          stuck := fun is => absurd is open_.2
          closed := fun is => absurd is open_.1 }
      · exact { kept.toTimed with }
      · exact { kept.toWatched with }

theorem beginStop_stops {c : Nat} (is : w.child = some c) :
    (beginStop w).state = .stopping ∨ (beginStop w).state = .stuck := by
  unfold beginStop clearIdle
  simp only [is]
  split
  · assumption
  · exact Or.inl rfl

theorem kept_stop (kept : Kept w) : Kept (stop w) := by
  unfold stop
  simp only [failAll_eq]
  have owned := kept.toOwned.ended
  have timed := kept.toTimed.ended
  have watched := kept.toWatched.ended kept.toTimed
  have closed : ∀ (n : Nat) (settled : List (Nat × Except String (QuerySqlResult Row))),
      Owned { w with
        closed := true
        stops := n
        queue := []
        current := none
        timers := w.timers.clear (w.current.map Current.timer)
        settled := settled } :=
    fun n settled => { owned with stuck := fun _ => rfl, closed := fun _ => ⟨rfl, rfl⟩ }
  split
  · exact { closed 0 [], timed, watched with served := fun queued => absurd rfl queued }
  · rename_i child
    obtain ⟨c, is⟩ := Option.ne_none_iff_exists'.mp child
    have stopped := kept_beginStop (closed (w.stops + 1) (w.settled ++ (waiting w).map fun job =>
      (job.call, .error SQL_UNAVAILABLE))) { timed with } watched.stopping rfl
      fun queued => absurd rfl queued
    split
    · exact { stopped with }
    · rename_i open_
      refine { stopped with waiters := fun _ => ?_ }
      refine Or.resolve_right (@beginStop_stops _ _ c ?_) open_
      exact is

/-- No timer of a stop is left when the child is gone. -/
theorem Timed.exited (timed : Timed w) (children : List Nat) :
    Timed { clearStop { w with children := children } with child := none, state := .none_ } := by
  have away : ∀ {h k}, (((w.timers.clear w.startTimer).clear w.termTimer).clear w.killTimer).Armed
      h k → w.timers.Armed h k ∧ some h ≠ w.startTimer ∧ some h ≠ w.termTimer ∧
        some h ≠ w.killTimer := fun armed => by
    simpa only [Timers.armed_clear, and_assoc] using armed
  have kept := ((timed.cleared w.startTimer).cleared w.termTimer).cleared w.killTimer
  exact { kept with
    start := Timers.holds_none
    term := Timers.holds_none
    kill := Timers.holds_none
    early := fun _ _ => rfl
    armed_start := fun h armed =>
      absurd (timed.armed_start h (away armed).1).1.symm (away armed).2.1
    armed_term := fun h c armed =>
      absurd (timed.armed_term h c (away armed).1).1.symm (away armed).2.2.1
    armed_kill := fun h c armed =>
      absurd (timed.armed_kill h c (away armed).1).1.symm (away armed).2.2.2 }

/-- Only a child that is ready runs a statement. -/
theorem Owned.free (owned : Owned w) (busy : w.state ≠ .ready) : w.current = none := by
  by_contra some_
  obtain ⟨cur, is⟩ := Option.ne_none_iff_exists'.mp some_
  exact busy (owned.running cur is)

/-- The child is gone, and nobody waits for it. -/
theorem owned_exited {queue : List Job} {current : Option Current} (free : current = none)
    (closed : w.closed = true → queue = []) :
    Owned { w with
      child := none
      state := .none_
      children := []
      current := current
      exitWaiters := []
      queue := queue } where
  alive := rfl
  named := nofun
  childless := ⟨fun _ => rfl, fun _ => rfl⟩
  running cur is := by
    rw [show current = none from free] at is
    cases is
  stuck := nofun
  closed is := ⟨closed is, free⟩
  waiters some_ := absurd rfl some_

theorem Owned.exit (owned : Owned w) {c : Nat} (mem : c ∈ w.children) :
    w.child = some c ∧ w.children.erase c = [] := by
  have is : w.child = some c := by
    rw [owned.alive] at mem
    exact Option.mem_toList.mp mem
  refine ⟨is, ?_⟩
  rw [owned.alive, is]
  simp

theorem kept_exits (kept : Kept w) {c : Nat} (mem : c ∈ w.children) (env : Env) :
    Kept (onChildExit env c { w with children := w.children.erase c }) := by
  obtain ⟨is, gone⟩ := kept.toOwned.exit mem
  unfold onChildExit
  rw [if_neg (not_not.mpr is)]
  dsimp only
  rw [gone]
  have timed := kept.toTimed.exited []
  split
  · rw [failAll_eq]
    refine kept_pump ?_ ?_ ?_ env
    · exact { @owned_exited _ w _ _ rfl fun _ => rfl with }
    · exact { timed.ended with }
    · exact ⟨nofun, nofun, nofun⟩
  · rename_i stopping
    have free : w.current = none := kept.toOwned.free fun ready => stopping (by
      rw [ready]
      decide)
    refine kept_pump ?_ ?_ ?_ env
    · exact { @owned_exited _ w _ _ free fun closed => (kept.closed closed).1 with }
    · exact { timed with }
    · refine ⟨nofun, nofun, fun cur is => ?_⟩
      rw [show w.current = none from free] at is
      cases is

/-- A timer that fires is of no other kind than the state is waiting for. -/
theorem kept_fires (kept : Kept w) (timeoutMs : Nat) (env : Env) {handle : Nat} {k : Callback}
    (armed : w.timers.Armed handle k) :
    Kept (call timeoutMs env k { w with timers := w.timers.clear (some handle) }) := by
  have owned : Owned { w with timers := w.timers.clear (some handle) } := { kept.toOwned with }
  have timed := kept.toTimed.cleared (some handle)
  have stays : ∀ {p : Callback → Prop}, p k → w.timers.Holds p (some handle) :=
    fun is h same => by
      obtain rfl := Option.some.inj same
      exact ⟨armed.lt, fun k' armed' => armed'.unique armed ▸ is⟩
  cases k with
  | idle =>
    have watched := kept.toWatched.cleared (stays (p := (· = .idle)) rfl) nofun nofun nofun nofun
    show Kept (idleFired _)
    unfold idleFired
    split
    · rename_i calm
      exact kept_beginStop owned timed watched.stopping calm.2.1
        fun queued => absurd calm.2.2 queued
    · exact { owned, timed, watched with served := kept.served }
  | start =>
    have starting := (kept.armed_start _ armed).2
    exact kept_failAll owned timed (fun is => absurd (starting.symm.trans is) (by decide)) _
  | term c =>
    obtain ⟨held, none_, stopping⟩ := kept.armed_term _ c armed
    refine { toOwned := { kept.toOwned with }, toTimed := ?_,
             toWatched := ⟨fun is => ?_, fun _ => ?_, fun cur is => ?_⟩,
             served := fun _ => Or.inr (Or.inl stopping) }
    · exact {
        idle := timed.idle.set _
        start := timed.start.set _
        term := timed.term.set _
        kill := Timers.holds_set ⟨c, rfl⟩
        current := fun cur is => (timed.current cur is).set _
        early := fun other => absurd stopping other
        armed_start := fun h armed => by
          obtain old | ⟨-, new⟩ := Timers.armed_set.mp armed
          · exact timed.armed_start h old
          · cases new
        armed_term := fun h c' armed => by
          obtain old | ⟨-, new⟩ := Timers.armed_set.mp armed
          · obtain ⟨same, -⟩ := timed.armed_term h c' old
            exact absurd (same.symm.trans held) (Timers.armed_clear.mp old).2
          · cases new
        armed_kill := fun h c' armed => by
          obtain old | ⟨rfl, -⟩ := Timers.armed_set.mp armed
          · obtain ⟨same, -⟩ := timed.armed_kill h c' old
            exact absurd (same.symm.trans none_) nofun
          · exact ⟨rfl, stopping⟩
        armed_statement := fun h id armed => by
          obtain old | ⟨-, new⟩ := Timers.armed_set.mp armed
          · exact timed.armed_statement h id old
          · cases new }
    · exact absurd (stopping.symm.trans is) (by decide)
    · exact ⟨_, c, Or.inr ⟨rfl, Timers.armed_set.mpr (Or.inr ⟨rfl, rfl⟩)⟩⟩
    · exact absurd (stopping.symm.trans (kept.running cur is)) (by decide)
  | kill c =>
    obtain ⟨held, stopping⟩ := kept.armed_kill _ c armed
    have stuck : Timed { w with timers := w.timers.clear (some handle), state := .stuck } :=
      { timed with
        early := fun _ other => absurd rfl other
        armed_start := fun h armed =>
          absurd (stopping.symm.trans (timed.armed_start h armed).2) (by decide)
        armed_term := fun h c' armed =>
          absurd (held.symm.trans (timed.armed_term h c' armed).2.1) nofun
        armed_kill := fun h c' armed =>
          absurd ((timed.armed_kill h c' armed).1.symm.trans held) (Timers.armed_clear.mp armed).2 }
    show Kept (killFired _)
    unfold killFired flushExitWaiters
    rw [failAll_eq]
    exact {
      toOwned := { kept.toOwned with
        childless := ⟨fun gone => absurd (stopping.symm.trans (kept.childless.mp gone)) (by decide),
          nofun⟩
        running := nofun
        stuck := fun _ => rfl
        closed := fun _ => ⟨rfl, rfl⟩
        waiters := fun some_ => absurd rfl some_ }
      toTimed := { stuck.ended with }
      toWatched := ⟨nofun, nofun, nofun⟩
      served := fun queued => absurd rfl queued }
  | statement id =>
    obtain ⟨cur, is, rfl, rfl⟩ := kept.armed_statement _ id armed
    have ready := kept.running cur is
    show Kept (onTimeout _ _ _ _)
    unfold onTimeout settle
    simp only [is, ne_eq, not_true_eq_false, if_false]
    have ended := kept.toTimed.ended
    rw [is] at ended
    refine kept_beginStop ?_ ?_ ?_ rfl fun _ => ready
    · exact { kept.toOwned.ended with }
    · exact { ended with }
    · exact fun is => absurd (ready.symm.trans is) (by decide)

/-- **A turn** keeps all of it. -/
theorem kept_turn (kept : Kept w) (timeoutMs : Nat) (env : Env) (e : Event Row) :
    Kept (turn timeoutMs env e w) := by
  cases e with
  | exec sql => exact kept_exec kept sql env
  | stop => exact kept_stop kept
  | message c m => exact kept_onMessage kept c m env
  | exits c =>
      show Kept (if _ then _ else _)
      split
      · rename_i mem
        exact kept_exits kept mem env
      · exact kept
  | fires handle =>
      unfold turn
      dsimp only
      split
      · exact kept
      · rename_i k found
        exact kept_fires kept timeoutMs env (Timers.callback_iff.mp found)

end Kiagent.Mcp.SqlRunner
