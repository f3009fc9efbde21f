/-
# Mcp.SqlAccounts -- the calls of the runner, and the statements it sent

Every call is settled or waits, and no call is both or is settled twice (`Accounted`).  Of the
statements sent to one child all but the last are answered, and one that timed out never is
(`Sent`).  Both are kept by every turn.
-/
import Kiagent.Mcp.SqlOwned

namespace Kiagent.Mcp.SqlRunner

open Theory (Timers)

set_option autoImplicit false

variable {Row : Type} {w : World Row}

/-! ## Calls and their settlements -/

/-- Every call is settled or waits, and so is every stop. -/
structure Accounted (w : World Row) : Prop where
  calls : (w.settled.map Prod.fst ++ (waiting w).map Job.call).Perm (List.range w.asked.length)
  stops : (w.stopped ++ w.exitWaiters).Perm (List.range w.stops)
  jobs : ∀ job ∈ waiting w, w.asked[job.call]? = some job.sql

theorem Accounted.failAll (accounted : Accounted w) (err : String) :
    Accounted (failAll err w) := by
  rw [failAll_eq]
  refine ⟨?_, accounted.stops, nofun⟩
  simp only [waiting, Option.map_none, Option.toList_none, List.append_nil, List.map_nil,
    List.map_append, List.map_map, Function.comp_def]
  simpa only [waiting, List.map_append] using accounted.calls

/-- What a stop leaves as it was. -/
theorem beginStop_frame (w : World Row) : ∃ state idle start term kills timers,
    beginStop w = { w with
      state := state, idleTimer := idle, startTimer := start, termTimer := term
      kills := kills, timers := timers } := by
  unfold beginStop clearIdle
  split
  · exact ⟨_, _, _, _, _, _, rfl⟩
  · split <;> exact ⟨_, _, _, _, _, _, rfl⟩

theorem Accounted.beginStop (accounted : Accounted w) : Accounted (beginStop w) := by
  obtain ⟨_, _, _, _, _, _, same⟩ := beginStop_frame w
  rw [same]
  exact { accounted with }

theorem Accounted.armIdle (accounted : Accounted w) : Accounted (armIdle w) :=
  { accounted with }

theorem startNext_waiting (free : w.current = none) (env : Env) :
    waiting (startNext env w) = waiting w := by
  unfold SqlRunner.startNext clearIdle waiting
  cases queued : w.queue with
  | nil => rfl
  | cons job queue =>
      rw [free]
      cases w.child <;> rfl

theorem Accounted.startNext (accounted : Accounted w) (free : w.current = none) (env : Env) :
    Accounted (startNext env w) := by
  have same := startNext_waiting free env
  have fields : (SqlRunner.startNext env w).settled = w.settled ∧
      (SqlRunner.startNext env w).asked = w.asked ∧
      (SqlRunner.startNext env w).stops = w.stops ∧
      (SqlRunner.startNext env w).stopped = w.stopped ∧
      (SqlRunner.startNext env w).exitWaiters = w.exitWaiters := by
    unfold SqlRunner.startNext clearIdle
    dsimp only
    split <;> exact ⟨rfl, rfl, rfl, rfl, rfl⟩
  obtain ⟨settled, asked, stops, stopped, waiters⟩ := fields
  refine ⟨?_, ?_, ?_⟩
  · rw [settled, same, asked]
    exact accounted.calls
  · rw [stops, stopped, waiters]
    exact accounted.stops
  · rw [same, asked]
    exact accounted.jobs

theorem Accounted.spawnChild (accounted : Accounted w) (env : Env) :
    Accounted (spawnChild env w) := by
  unfold SqlRunner.spawnChild
  split
  · exact { accounted with }
  · exact accounted.failAll _

theorem Accounted.pump (accounted : Accounted w) (env : Env) : Accounted (pump env w) := by
  unfold SqlRunner.pump
  split
  · exact accounted
  split
  · exact accounted.spawnChild env
  split
  · rename_i ready
    exact accounted.startNext ready.2 env
  · exact accounted

/-- The statement that runs is settled. -/
theorem Accounted.settled (accounted : Accounted w) {cur : Current} (is : w.current = some cur)
    (outcome : Except String (QuerySqlResult Row)) :
    Accounted { w with
      current := none
      settled := w.settled ++ [(cur.job.call, outcome)] } := by
  have whole : waiting w = cur.job :: w.queue := by
    unfold waiting
    rw [is]
    rfl
  refine ⟨?_, accounted.stops, fun job mem => ?_⟩
  · have calls := accounted.calls
    rw [whole] at calls
    simpa [waiting] using calls
  · exact accounted.jobs job (whole ▸ List.mem_cons_of_mem _ mem)

theorem Accounted.flush (accounted : Accounted w) : Accounted (flushExitWaiters w) where
  calls := accounted.calls
  stops := by
    rw [flushExitWaiters, List.append_nil]
    exact accounted.stops
  jobs := accounted.jobs

theorem Accounted.initial : Accounted (initial : World Row) :=
  ⟨List.Perm.refl _, List.Perm.refl _, nofun⟩

theorem Accounted.onTimeout (accounted : Accounted w) (timeoutMs : Nat) (env : Env) (id : Nat) :
    Accounted (onTimeout timeoutMs env id w) := by
  unfold SqlRunner.onTimeout settle
  split
  · exact accounted
  · rename_i cur is
    split
    · exact accounted
    · exact Accounted.beginStop { accounted.settled is _ with }

theorem Accounted.finish (accounted : Accounted w) (m : ChildReply Row) (env : Env) :
    Accounted (finish env m w) := by
  unfold SqlRunner.finish settle
  split
  · exact accounted
  · rename_i cur is
    have settled := accounted.settled is m.outcome
    dsimp only
    split
    · refine Accounted.startNext ?_ ?_ env
      · exact { settled with }
      · rfl
    · refine Accounted.armIdle ?_
      exact { settled with }

theorem range_snoc {l : List Nat} {n : Nat} (perm : l.Perm (List.range n)) :
    (l ++ [n]).Perm (List.range (n + 1)) := by
  rw [List.range_succ]
  exact perm.append_right _

theorem later_text {asked : List String} {n : Nat} {text sql : String}
    (found : asked[n]? = some text) : (asked ++ [sql])[n]? = some text := by
  rw [List.getElem?_append_left (List.getElem?_eq_some_iff.mp found).1]
  exact found

theorem Accounted.refused (accounted : Accounted w) (sql err : String) : Accounted { w with
    asked := w.asked ++ [sql]
    settled := w.settled ++ [(w.asked.length, .error err)] } := by
  refine ⟨?_, accounted.stops, fun job mem => later_text (accounted.jobs job mem)⟩
  rw [List.length_append, List.map_append, List.append_assoc]
  refine (List.Perm.append_left _ List.perm_append_comm).trans ?_
  rw [← List.append_assoc]
  exact range_snoc accounted.calls

theorem Accounted.queued (accounted : Accounted w) (sql : String) (now : Nat) : Accounted { w with
    asked := w.asked ++ [sql]
    queue := w.queue ++ [⟨w.asked.length, sql, now⟩] } := by
  refine ⟨?_, accounted.stops, fun job mem => ?_⟩
  · rw [List.length_append]
    have whole := range_snoc accounted.calls
    simp only [waiting, List.map_append, List.append_assoc] at whole ⊢
    exact whole
  · rw [show waiting _ = waiting w ++ [⟨w.asked.length, sql, now⟩] by simp [waiting]] at mem
    rcases List.mem_append.mp mem with old | new
    · exact later_text (accounted.jobs job old)
    · obtain rfl := List.mem_singleton.mp new
      simp

theorem Accounted.exec (accounted : Accounted w) (sql : String) (env : Env) :
    Accounted (exec env sql w) := by
  unfold SqlRunner.exec settle
  dsimp only
  split
  · exact accounted.refused sql _
  split
  · exact accounted.refused sql _
  · exact (accounted.queued sql env.now).pump env

theorem Accounted.stop (accounted : Accounted w) : Accounted (stop w) := by
  have failed := accounted.failAll SQL_UNAVAILABLE
  have stops := range_snoc accounted.stops
  have swapped : (w.stopped ++ [w.stops] ++ w.exitWaiters).Perm (List.range (w.stops + 1)) := by
    rw [List.append_assoc] at stops ⊢
    exact (List.Perm.append_left _ List.perm_append_comm).trans stops
  unfold SqlRunner.stop
  rw [failAll_eq] at failed
  simp only [failAll_eq]
  split
  · exact { failed with stops := swapped }
  · generalize stopping : SqlRunner.beginStop _ = v
    obtain ⟨_, _, _, _, _, _, same⟩ := beginStop_frame (_ : World Row)
    rw [stopping] at same
    subst same
    split
    · exact { failed with stops := swapped }
    · refine { failed with stops := ?_ }
      rw [← List.append_assoc]
      exact stops

theorem Accounted.onMessage (accounted : Accounted w) (c : Nat) (m : ChildReply Row) (env : Env) :
    Accounted (onMessage env c m w) := by
  unfold SqlRunner.onMessage
  split
  · exact accounted
  split
  · refine Accounted.pump ?_ env
    exact { accounted with }
  split
  · exact (accounted.failAll _).beginStop
  split
  · exact accounted
  · split
    · exact accounted.finish m env
    · exact accounted

theorem Accounted.onChildExit (accounted : Accounted w) (c : Nat) (env : Env) :
    Accounted (onChildExit env c w) := by
  unfold SqlRunner.onChildExit
  split
  · exact accounted
  · refine Accounted.pump (Accounted.flush ?_) env
    split
    · refine Accounted.failAll ?_ _
      exact { accounted with }
    · exact { accounted with }

theorem Accounted.call (accounted : Accounted w) (timeoutMs : Nat) (env : Env) (k : Callback) :
    Accounted (call timeoutMs env k w) := by
  cases k with
  | idle =>
      show Accounted (idleFired w)
      unfold idleFired
      split
      · exact accounted.beginStop
      · exact accounted
  | start => exact (accounted.failAll _).beginStop
  | term c => exact { accounted with }
  | kill c =>
      refine Accounted.flush (Accounted.failAll ?_ _)
      exact { accounted with }
  | statement id => exact accounted.onTimeout timeoutMs env id

/-- **A turn** loses no call and settles none twice. -/
theorem Accounted.turn (accounted : Accounted w) (timeoutMs : Nat) (env : Env) (e : Event Row) :
    Accounted (turn timeoutMs env e w) := by
  cases e with
  | exec sql => exact accounted.exec sql env
  | stop => exact accounted.stop
  | message c m => exact accounted.onMessage c m env
  | exits c =>
      show Accounted (if _ then _ else _)
      split
      · refine Accounted.onChildExit ?_ c env
        exact { accounted with }
      · exact accounted
  | fires handle =>
      cases found : w.timers.callback handle with
      | none => simpa only [SqlRunner.turn, found] using accounted
      | some k =>
          simp only [SqlRunner.turn, found]
          refine Accounted.call ?_ timeoutMs env k
          exact { accounted with }

/-! ## Statements and their answers -/

structure Sent (w : World Row) : Prop where
  ids : ∀ s ∈ w.sent, s.id < w.nextId ∧ s.child < w.spawned
  distinct : (w.sent.map Statement.id).Nodup
  order : w.sent.Pairwise fun a b => a.child = b.child → a.id ∈ w.answered
  texts : ∀ s ∈ w.sent, w.asked[s.call]? = some s.sql
  answered : ∀ id ∈ w.answered, id < w.nextId
  given_up : ∀ id ∈ w.timedOut, id < w.nextId
  timedOut : ∀ s ∈ w.sent, s.id ∈ w.timedOut →
    s.id ∉ w.answered ∧ ∃ err, (s.call, .error err) ∈ w.settled
  current : ∀ cur, w.current = some cur → cur.id ∉ w.answered ∧ cur.id ∉ w.timedOut ∧
    ∃ c, w.child = some c ∧ ⟨c, cur.id, cur.job.sql, cur.job.call⟩ ∈ w.sent

/-- A child that starts was sent nothing; one that is ready answered all but what runs. -/
def Free (w : World Row) : Prop :=
  ∀ s ∈ w.sent, w.child = some s.child → w.state ≠ .starting ∧
    (w.state = .ready → s.id ∈ w.answered ∨ ∃ cur, w.current = some cur ∧ cur.id = s.id)

theorem Sent.initial : Sent (initial : World Row) :=
  ⟨nofun, List.nodup_nil, List.Pairwise.nil, nofun, nofun, nofun, nofun, nofun⟩

theorem Sent.failAll (sent : Sent w) (err : String) : Sent (failAll err w) := by
  rw [failAll_eq]
  refine { sent with timedOut := fun s mem out => ?_, current := nofun }
  obtain ⟨open_, err', settled⟩ := sent.timedOut s mem out
  exact ⟨open_, err', List.mem_append_left _ settled⟩

theorem Sent.beginStop (sent : Sent w) : Sent (beginStop w) := by
  obtain ⟨_, _, _, _, _, _, same⟩ := beginStop_frame w
  rw [same]
  exact { sent with }

theorem free_beginStop (w : World Row) : Free (beginStop w) := by
  intro s _ is
  obtain ⟨_, _, _, _, _, _, same⟩ := beginStop_frame w
  have child : w.child = some s.child := by
    rw [same] at is
    exact is
  rcases beginStop_stops child with state | state <;> rw [state] <;> exact ⟨nofun, nofun⟩

theorem Sent.startNext (sent : Sent w) (free : Free w) (owned : Owned w)
    (accounted : Accounted w) (none_ : w.current = none) (ready : w.state = .ready) (env : Env) :
    Sent (startNext env w) := by
  unfold SqlRunner.startNext clearIdle
  dsimp only
  split
  · rename_i job queue c queued is
    have new : ∀ s ∈ w.sent, s.id ≠ w.nextId := fun s mem => Nat.ne_of_lt (sent.ids s mem).1
    refine ⟨?_, ?_, ?_, ?_, ?_, ?_, ?_, ?_⟩ <;> dsimp only
    · intro s mem
      rcases List.mem_append.mp mem with old | last
      · exact ⟨Nat.lt_succ_of_lt (sent.ids s old).1, (sent.ids s old).2⟩
      · obtain rfl := List.mem_singleton.mp last
        exact ⟨Nat.lt_succ_self _, owned.named c is⟩
    · rw [List.map_append, List.nodup_append]
      refine ⟨sent.distinct, List.nodup_singleton _, fun id old id' last same => ?_⟩
      obtain ⟨s, mem, rfl⟩ := List.mem_map.mp old
      obtain rfl := List.mem_singleton.mp last
      exact new s mem same
    · rw [List.pairwise_append]
      refine ⟨sent.order, List.pairwise_singleton _ _, fun s old s' last same => ?_⟩
      obtain rfl := List.mem_singleton.mp last
      rcases (free s old (by rw [is, same])).2 ready with answered | ⟨cur, running, -⟩
      · exact answered
      · rw [none_] at running
        cases running
    · intro s mem
      rcases List.mem_append.mp mem with old | last
      · exact sent.texts s old
      · obtain rfl := List.mem_singleton.mp last
        exact accounted.jobs job (List.mem_append_right _ (queued ▸ List.mem_cons_self))
    · exact fun id mem => Nat.lt_succ_of_lt (sent.answered id mem)
    · exact fun id mem => Nat.lt_succ_of_lt (sent.given_up id mem)
    · intro s mem out
      rcases List.mem_append.mp mem with old | last
      · exact sent.timedOut s old out
      · obtain rfl := List.mem_singleton.mp last
        exact absurd (sent.given_up _ out) (Nat.lt_irrefl _)
    · intro cur running
      cases running
      refine ⟨fun mem => ?_, fun mem => ?_, c, is,
        List.mem_append_right _ (List.mem_singleton_self _)⟩
      · exact absurd (sent.answered _ mem) (Nat.lt_irrefl _)
      · exact absurd (sent.given_up _ mem) (Nat.lt_irrefl _)
  · exact { sent with }

theorem Free.startNext (free : Free w) (none_ : w.current = none) (ready : w.state = .ready)
    (env : Env) : Free (startNext env w) := by
  unfold SqlRunner.startNext clearIdle
  dsimp only
  split
  · intro s mem is
    refine ⟨by rw [show w.state = .ready from ready]; decide, fun _ => ?_⟩
    rcases List.mem_append.mp mem with old | last
    · rcases (free s old is).2 ready with answered | ⟨cur, running, -⟩
      · exact Or.inl answered
      · rw [none_] at running
        cases running
    · obtain rfl := List.mem_singleton.mp last
      exact Or.inr ⟨_, rfl, rfl⟩
  · exact free

theorem Sent.spawnChild (sent : Sent w) (none_ : w.current = none) (env : Env) :
    Sent (spawnChild env w) := by
  unfold SqlRunner.spawnChild
  split
  · exact { sent with
      ids := fun s mem => ⟨(sent.ids s mem).1, Nat.lt_succ_of_lt (sent.ids s mem).2⟩
      current := fun cur running => by
        rw [show w.current = none from none_] at running
        cases running }
  · exact sent.failAll _

theorem free_spawnChild (sent : Sent w) (owned : Owned w) (none_ : w.state = .none_) (env : Env) :
    Free (spawnChild env w) := by
  unfold SqlRunner.spawnChild
  split
  · intro s mem is
    exact absurd (Option.some.inj is).symm (Nat.ne_of_lt (sent.ids s mem).2)
  · rw [failAll_eq]
    intro s _ is
    rw [show w.child = none from owned.childless.mpr none_] at is
    cases is

/-- What a turn keeps of what was sent. -/
structure Books (w : World Row) : Prop extends Sent w where
  free : Free w

theorem Books.pump (books : Books w) (owned : Owned w) (accounted : Accounted w) (env : Env) :
    Books (pump env w) := by
  unfold SqlRunner.pump
  split
  · exact books
  split
  · rename_i none_
    refine { books.toSent.spawnChild ?_ env with
      free := free_spawnChild books.toSent owned none_ env }
    exact owned.free (by rw [none_]; decide)
  split
  · rename_i ready
    exact {
      books.toSent.startNext books.free owned accounted ready.2 ready.1 env with
      free := books.free.startNext ready.2 ready.1 env }
  · exact books

theorem Books.beginStop (sent : Sent w) : Books (beginStop w) :=
  { sent.beginStop with free := free_beginStop w }

/-- The statement of the id that runs. -/
theorem Sent.running (sent : Sent w) {cur : Current} (is : w.current = some cur) {s : Statement}
    (mem : s ∈ w.sent) (same : s.id = cur.id) :
    w.child = some s.child ∧ s.call = cur.job.call ∧ s.sql = cur.job.sql := by
  obtain ⟨-, -, c, child, mem'⟩ := sent.current cur is
  obtain rfl := List.inj_on_of_nodup_map sent.distinct mem mem' same
  exact ⟨child, rfl, rfl⟩

theorem Sent.current_lt (sent : Sent w) {cur : Current} (is : w.current = some cur) :
    cur.id < w.nextId := by
  obtain ⟨-, -, c, -, mem⟩ := sent.current cur is
  exact (sent.ids _ mem).1

theorem Books.onTimeout (books : Books w) (timeoutMs : Nat) (env : Env) (id : Nat) :
    Books (onTimeout timeoutMs env id w) := by
  unfold SqlRunner.onTimeout settle
  split
  · exact books
  · rename_i cur is
    split
    · exact books
    · rename_i same
      rw [not_not] at same
      obtain rfl := same
      obtain ⟨open_, fresh, -⟩ := books.current cur is
      refine Books.beginStop ?_
      exact { books.toSent with
        given_up := fun id mem => by
          rcases List.mem_append.mp mem with old | last
          · exact books.given_up id old
          · obtain rfl := List.mem_singleton.mp last
            exact books.toSent.current_lt is
        timedOut := fun s mem out => by
          rcases List.mem_append.mp out with old | last
          · obtain ⟨open', err, settled⟩ := books.timedOut s mem old
            exact ⟨open', err, List.mem_append_left _ settled⟩
          · have last := List.mem_singleton.mp last
            refine ⟨last ▸ open_, sqlStoppedMessage timeoutMs, List.mem_append_right _ ?_⟩
            rw [(books.toSent.running is mem last).2.1]
            exact List.mem_singleton_self _
        current := nofun }

theorem Books.finish (books : Books w) (owned : Owned w) (accounted : Accounted w)
    (m : ChildReply Row) (env : Env) : Books (finish env m w) := by
  unfold SqlRunner.finish settle
  split
  · exact books
  · rename_i cur is
    obtain ⟨open_, fresh, -⟩ := books.current cur is
    have ready := owned.running cur is
    have settled := accounted.settled is m.outcome
    have sent : Sent { w with
        current := none
        answered := w.answered ++ [cur.id]
        settled := w.settled ++ [(cur.job.call, m.outcome)] } :=
      { books.toSent with
        order := books.order.imp fun first same => List.mem_append_left _ (first same)
        answered := fun id mem => by
          rcases List.mem_append.mp mem with old | last
          · exact books.answered id old
          · obtain rfl := List.mem_singleton.mp last
            exact books.toSent.current_lt is
        timedOut := fun s mem out => by
          obtain ⟨open', err, settled⟩ := books.timedOut s mem out
          refine ⟨fun mem' => ?_, err, List.mem_append_left _ settled⟩
          rcases List.mem_append.mp mem' with old | last
          · exact open' old
          · rw [List.mem_singleton.mp last] at out
            exact fresh out
        current := nofun }
    have free : Free { w with
        current := none
        answered := w.answered ++ [cur.id] } := by
      intro s mem child
      refine ⟨by rw [show w.state = .ready from ready]; decide, fun _ => Or.inl ?_⟩
      rcases (books.free s mem child).2 ready with old | ⟨cur', is', same⟩
      · exact List.mem_append_left _ old
      · obtain rfl := Option.some.inj (is.symm.trans is')
        exact List.mem_append_right _ (List.mem_singleton.mpr same.symm)
    dsimp only
    split
    · refine { Sent.startNext ?_ ?_ ?_ ?_ ?_ ?_ env with free := Free.startNext ?_ ?_ ?_ env }
      · exact { sent with }
      · exact free
      · exact { owned.ended with }
      · exact { settled with }
      · rfl
      · exact ready
      · exact free
      · rfl
      · exact ready
    · exact { sent with free := free }

theorem Books.exec (books : Books w) (owned : Owned w) (accounted : Accounted w) (sql : String)
    (env : Env) : Books (exec env sql w) := by
  have texts : ∀ s ∈ w.sent, (w.asked ++ [sql])[s.call]? = some s.sql := fun s mem =>
    later_text (books.texts s mem)
  have refused : ∀ err : String, Books { w with
      asked := w.asked ++ [sql]
      settled := w.settled ++ [(w.asked.length, .error err)] } := fun err =>
    { books with
      texts := texts
      timedOut := fun s mem out => by
        obtain ⟨open_, err', settled⟩ := books.timedOut s mem out
        exact ⟨open_, err', List.mem_append_left _ settled⟩ }
  unfold SqlRunner.exec settle
  dsimp only
  split
  · exact refused _
  · rename_i open_
    rw [not_or] at open_
    split
    · exact refused _
    · refine Books.pump ?_ ?_ (accounted.queued sql env.now) env
      · exact { books with texts := texts }
      · exact { owned with
          stuck := fun is => absurd is open_.2
          closed := fun is => absurd is open_.1 }

theorem Books.stop (books : Books w) : Books (stop w) := by
  unfold SqlRunner.stop
  have failed : Sent (failAll SQL_UNAVAILABLE { w with closed := true, stops := w.stops + 1 }) := by
    refine Sent.failAll ?_ _
    exact { books.toSent with }
  dsimp only
  generalize SqlRunner.failAll _ _ = v at failed ⊢
  split
  · rename_i gone
    refine { failed with free := fun s _ is => ?_ }
    rw [show v.child = none from gone] at is
    cases is
  · have stopped := Books.beginStop failed
    split <;> exact { stopped with }

theorem Books.onMessage (books : Books w) (owned : Owned w) (accounted : Accounted w) (c : Nat)
    (m : ChildReply Row) (env : Env) : Books (onMessage env c m w) := by
  unfold SqlRunner.onMessage
  split
  · exact books
  split
  · rename_i starting
    obtain ⟨nothing, nobody, child⟩ := owned.starting starting.2
    refine Books.pump ?_ ?_ ?_ env
    · exact { books with
        free := fun s mem is => absurd starting.2 (books.free s mem is).1 }
    · exact { owned with
        childless := ⟨fun gone => absurd gone child, nofun⟩
        running := fun _ _ => rfl
        stuck := nofun
        waiters := fun some_ => absurd nobody some_ }
    · exact { accounted with }
  split
  · exact Books.beginStop (books.toSent.failAll _)
  split
  · exact books
  · split
    · exact books.finish owned accounted m env
    · exact books

theorem Books.onChildExit (books : Books w) (kept : Kept w) (accounted : Accounted w) {c : Nat}
    (mem : c ∈ w.children) (env : Env) :
    Books (onChildExit env c { w with children := w.children.erase c }) := by
  obtain ⟨is, gone⟩ := kept.toOwned.exit mem
  unfold SqlRunner.onChildExit
  rw [if_neg (not_not.mpr is)]
  dsimp only
  rw [gone]
  split
  · have failed : Accounted (SqlRunner.failAll SQL_UNAVAILABLE
        { clearStop { w with children := [] } with child := none, state := .none_ }) := by
      refine Accounted.failAll ?_ _
      exact { accounted with }
    have sent := books.toSent.failAll SQL_UNAVAILABLE
    rw [failAll_eq] at sent failed ⊢
    refine Books.pump ?_ ?_ ?_ env
    · exact { sent with current := nofun, free := nofun }
    · exact { @owned_exited _ w _ _ rfl fun _ => rfl with }
    · exact failed.flush
  · rename_i stopping
    have free : w.current = none := kept.toOwned.free fun ready => stopping (by
      rw [ready]
      decide)
    refine Books.pump ?_ ?_ ?_ env
    · refine { books with current := fun cur is => ?_, free := nofun }
      rw [show w.current = none from free] at is
      cases is
    · exact { @owned_exited _ w _ _ free fun closed => (kept.closed closed).1 with }
    · refine Accounted.flush ?_
      exact { accounted with }

theorem Books.call (books : Books w) (timeoutMs : Nat) (env : Env) (k : Callback) :
    Books (call timeoutMs env k w) := by
  cases k with
  | idle =>
      show Books (idleFired w)
      unfold idleFired
      split
      · exact Books.beginStop books.toSent
      · exact books
  | start => exact Books.beginStop (books.toSent.failAll _)
  | term c => exact { books with }
  | kill c =>
      have failed : Sent (failAll SQL_UNAVAILABLE { w with state := .stuck }) := by
        refine Sent.failAll ?_ _
        exact { books.toSent with }
      show Books (killFired w)
      unfold killFired flushExitWaiters
      refine { failed with free := fun s _ _ => ?_ }
      rw [failAll_eq]
      exact ⟨nofun, nofun⟩
  | statement id => exact books.onTimeout timeoutMs env id

theorem Books.turn (books : Books w) (kept : Kept w) (accounted : Accounted w) (timeoutMs : Nat)
    (env : Env) (e : Event Row) : Books (turn timeoutMs env e w) := by
  cases e with
  | exec sql => exact books.exec kept.toOwned accounted sql env
  | stop => exact books.stop
  | message c m => exact books.onMessage kept.toOwned accounted c m env
  | exits c =>
      show Books (if _ then _ else _)
      split
      · rename_i mem
        exact books.onChildExit kept accounted mem env
      · exact books
  | fires handle =>
      cases found : w.timers.callback handle with
      | none => simpa only [SqlRunner.turn, found] using books
      | some k =>
          simp only [SqlRunner.turn, found]
          refine Books.call ?_ timeoutMs env k
          exact { books with }

end Kiagent.Mcp.SqlRunner
