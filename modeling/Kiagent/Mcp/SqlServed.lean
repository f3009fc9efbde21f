/-
# Mcp.SqlServed -- every call of the runner is served

A call that waits has a timer behind it, of the child that starts, of the statement that
runs, or of the child that is to exit.  When that timer is gone the call is settled or
nearer to its turn (`Waits.turn`), so that it is settled as timers elapse.
`accounts` says what holds of every run.
-/
import Kiagent.Mcp.SqlAccounts

namespace Kiagent.Mcp.SqlRunner

open Theory (Timers Elapse eventually)

set_option autoImplicit false

variable {Row : Type} {w : World Row}

/-! ## Waiting -/

def calls (w : World Row) : List Nat := (waiting w).map Job.call

/-- The calls that are settled. -/
def settledCalls (w : World Row) : List Nat := w.settled.map Prod.fst

structure Waits (k : Nat) (w : World Row) : Prop extends Kept w where
  mem : k ∈ calls w

/-- How far the child is from running the next statement. -/
def phase (w : World Row) : Nat :=
  match w.state with
  | .stopping => if w.killTimer = none then 3 else 2
  | .starting => 1
  | _ => 0

def rank (k : Nat) (w : World Row) : Nat := 4 * (calls w).idxOf k + phase w

/-- The timer behind the calls that wait. -/
def watch (w : World Row) : Option Nat :=
  match w.state with
  | .starting => w.startTimer
  | .stopping => w.killTimer.or w.termTimer
  | _ => w.current.map Current.timer

/-- The call is settled, or nearer to it, or it still waits for the same timer. -/
def Nears (k : Nat) (w w' : World Row) : Prop :=
  k ∈ settledCalls w' ∨ k ∈ calls w' ∧ (rank k w' < rank k w ∨ rank k w' = rank k w ∧ watch w' = watch w)

variable {k : Nat}

theorem Waits.state (waits : Waits k w) :
    w.state = .starting ∨ w.state = .stopping ∨ w.state = .ready ∧ ∃ cur, w.current = some cur := by
  cases is : w.current with
  | some cur => exact Or.inr (Or.inr ⟨waits.running cur is, cur, rfl⟩)
  | none =>
      have queued : w.queue ≠ [] := fun empty => by
        have mem := waits.mem
        simp [calls, waiting, is, empty] at mem
      rcases waits.served queued with starting | stopping | ⟨cur, is'⟩
      · exact Or.inl starting
      · exact Or.inr (Or.inl stopping)
      · rw [is] at is'
        cases is'

theorem Waits.open_ (waits : Waits k w) : w.closed = false := by
  rw [← Bool.not_eq_true]
  intro closed
  obtain ⟨empty, free⟩ := waits.closed closed
  have mem := waits.mem
  simp [calls, waiting, free, empty] at mem

/-- What waits has its timer armed. -/
theorem Waits.watched (waits : Waits k w) :
    ∃ h, watch w = some h ∧ ∃ callback, w.timers.Armed h callback := by
  unfold watch
  rcases waits.state with starting | stopping | ⟨ready, cur, is⟩
  · obtain ⟨h, held, armed⟩ := waits.starting starting
    rw [starting]
    exact ⟨h, held, _, armed⟩
  · obtain ⟨h, c, ⟨none_, held, armed⟩ | ⟨held, armed⟩⟩ := waits.stopping stopping
    · rw [stopping, none_]
      exact ⟨h, held, _, armed⟩
    · rw [stopping, held]
      exact ⟨h, rfl, _, armed⟩
  · rw [ready, is]
    exact ⟨cur.timer, rfl, _, waits.counted cur is⟩

theorem Nears.same {w' : World Row} (mem : k ∈ calls w) (calls_ : calls w' = calls w)
    (state : w'.state = w.state) (start : w'.startTimer = w.startTimer)
    (term : w'.termTimer = w.termTimer) (kill : w'.killTimer = w.killTimer)
    (current : w'.current = w.current) : Nears k w w' := by
  refine Or.inr ⟨calls_ ▸ mem, Or.inr ⟨?_, ?_⟩⟩
  · rw [rank, rank, phase, phase, calls_, state, kill]
  · rw [watch, watch, state, start, term, kill, current]

theorem settled_failAll (mem : k ∈ calls w) (err : String) : k ∈ settledCalls (failAll err w) := by
  obtain ⟨job, inside, rfl⟩ := List.mem_map.mp mem
  rw [failAll_eq]
  exact List.mem_map.mpr ⟨(job.call, .error err), List.mem_append_right _
    (List.mem_map.mpr ⟨job, inside, rfl⟩), rfl⟩

theorem settled_beginStop (w : World Row) : settledCalls (beginStop w) = settledCalls w := by
  obtain ⟨_, _, _, _, _, _, same⟩ := beginStop_frame w
  rw [same]
  rfl

theorem pump_busy (none_ : w.state ≠ .none_) (busy : w.state = .ready → w.current ≠ none)
    (env : Env) : pump env w = w := by
  unfold pump
  split
  · rfl
  · exact if_neg fun ready => busy ready.1 ready.2

theorem pump_empty (empty : w.queue = []) (env : Env) : pump env w = w :=
  if_pos (Or.inr empty)

theorem pump_none (open_ : w.closed = false) (queued : w.queue ≠ []) (none_ : w.state = .none_)
    (env : Env) : pump env w = spawnChild env w := by
  unfold pump
  rw [if_neg (by simp [open_, queued]), if_pos none_]

/-- With no statement running, a call that waits is in the queue. -/
theorem Waits.queued (waits : Waits k w) (free : w.current = none) :
    w.queue ≠ [] ∧ calls w = w.queue.map Job.call := by
  have whole : calls w = w.queue.map Job.call := by
    rw [calls, waiting, free]
    rfl
  refine ⟨fun empty => ?_, whole⟩
  have mem := waits.mem
  rw [whole, empty] at mem
  cases mem

theorem Waits.exec (waits : Waits k w) (sql : String) (env : Env) : Nears k w (exec env sql w) := by
  unfold SqlRunner.exec settle
  dsimp only
  split
  · exact Nears.same waits.mem rfl rfl rfl rfl rfl rfl
  split
  · exact Nears.same waits.mem rfl rfl rfl rfl rfl rfl
  · have busy : w.state ≠ .none_ ∧ (w.state = .ready → w.current ≠ none) := by
      rcases waits.state with state | state | ⟨state, cur, is⟩
      · rw [state]
        exact ⟨nofun, nofun⟩
      · rw [state]
        exact ⟨nofun, nofun⟩
      · rw [state, is]
        exact ⟨nofun, nofun⟩
    rw [@pump_busy _ { w with
        asked := w.asked ++ [sql]
        queue := w.queue ++ [⟨w.asked.length, sql, env.now⟩] } busy.1 busy.2]
    have more : calls { w with
        asked := w.asked ++ [sql]
        queue := w.queue ++ [⟨w.asked.length, sql, env.now⟩] } = calls w ++ [w.asked.length] := by
      simp [calls, waiting]
    refine Or.inr ⟨more ▸ List.mem_append_left _ waits.mem, Or.inr ⟨?_, rfl⟩⟩
    rw [rank, more, List.idxOf_append_of_mem waits.mem]
    rfl

theorem Waits.stop (waits : Waits k w) : Nears k w (stop w) := by
  refine Or.inl ?_
  unfold SqlRunner.stop
  have failed : k ∈ settledCalls (failAll SQL_UNAVAILABLE
      { w with closed := true, stops := w.stops + 1 }) := by
    refine settled_failAll ?_ _
    exact waits.mem
  dsimp only
  generalize SqlRunner.failAll _ _ = v at failed ⊢
  split
  · exact failed
  · have stopped : k ∈ settledCalls (beginStop v) := by rwa [settled_beginStop]
    split <;> exact stopped

/-- The statement that runs is over: it was this call's, or the call is one further. -/
theorem Waits.next (waits : Waits k w) {cur : Current} (is : w.current = some cur) :
    k = cur.job.call ∨ k ∈ w.queue.map Job.call ∧
      (calls w).idxOf k = (w.queue.map Job.call).idxOf k + 1 := by
  have whole : calls w = cur.job.call :: w.queue.map Job.call := by
    rw [calls, waiting, is]
    rfl
  have mem := waits.mem
  rw [whole] at mem ⊢
  by_cases same : k = cur.job.call
  · exact Or.inl same
  · exact Or.inr ⟨(List.mem_cons.mp mem).resolve_left same, List.idxOf_cons_ne _ (Ne.symm same)⟩

theorem startNext_ready (ready : w.state = .ready) (env : Env) :
    (startNext env w).state = .ready := by
  unfold SqlRunner.startNext clearIdle
  dsimp only
  split <;> exact ready

theorem settled_startNext (env : Env) (w : World Row) : settledCalls (startNext env w) = settledCalls w := by
  unfold SqlRunner.startNext clearIdle settledCalls
  dsimp only
  split <;> rfl

theorem Waits.finish (waits : Waits k w) {cur : Current} (is : w.current = some cur)
    (m : ChildReply Row) (env : Env) : Nears k w (finish env m w) := by
  have ready := waits.running cur is
  have before : rank k w = 4 * (calls w).idxOf k := by
    rw [rank, phase, ready]
    rfl
  unfold SqlRunner.finish settle
  rw [is]
  dsimp only
  rcases waits.next is with rfl | ⟨mem, further⟩
  · refine Or.inl ?_
    split
    · rw [settled_startNext]
      exact List.mem_map.mpr ⟨_, List.mem_append_right _ (List.mem_singleton_self _), rfl⟩
    · exact List.mem_map.mpr ⟨_, List.mem_append_right _ (List.mem_singleton_self _), rfl⟩
  · refine Or.inr ?_
    rw [if_pos (fun empty => by rw [show w.queue = [] from empty] at mem; cases mem)]
    have nearer : ∀ v : World Row, v.current = none → v.queue = w.queue → v.state = .ready →
        k ∈ calls (startNext env v) ∧ (rank k (startNext env v) < rank k w ∨
          rank k (startNext env v) = rank k w ∧ watch (startNext env v) = watch w) :=
      fun v free queue ready => by
        have same : calls (startNext env v) = w.queue.map Job.call := by
          rw [calls, startNext_waiting free, waiting, free, queue]
          rfl
        refine ⟨same ▸ mem, Or.inl ?_⟩
        rw [before, further, rank, same, phase, startNext_ready ready]
        dsimp only
        omega
    exact nearer _ rfl rfl ready

theorem phase_le (w : World Row) : phase w ≤ 3 := by
  unfold phase
  split
  · split <;> decide
  · decide
  · decide

theorem beginStop_calls (w : World Row) : calls (beginStop w) = calls w := by
  obtain ⟨_, _, _, _, _, _, same⟩ := beginStop_frame w
  rw [same]
  rfl

theorem Waits.onTimeout (waits : Waits k w) {cur : Current} (is : w.current = some cur)
    (timeoutMs : Nat) (env : Env) : Nears k w
      (onTimeout timeoutMs env cur.id { w with timers := w.timers.clear (some cur.timer) }) := by
  have ready := waits.running cur is
  unfold SqlRunner.onTimeout settle
  simp only [is, ne_eq, not_true_eq_false, if_false]
  rcases waits.next is with rfl | ⟨mem, further⟩
  · refine Or.inl ?_
    rw [settled_beginStop]
    exact List.mem_map.mpr ⟨_, List.mem_append_right _ (List.mem_singleton_self _), rfl⟩
  · refine Or.inr ?_
    have nearer : ∀ v : World Row, calls v = w.queue.map Job.call →
        k ∈ calls (beginStop v) ∧ (rank k (beginStop v) < rank k w ∨
          rank k (beginStop v) = rank k w ∧ watch (beginStop v) = watch w) := fun v whole => by
      rw [beginStop_calls, whole]
      refine ⟨mem, Or.inl ?_⟩
      rw [rank, rank, beginStop_calls, whole, further]
      have least := phase_le (beginStop v)
      omega
    exact nearer _ rfl

theorem Waits.ready (waits : Waits k w) (starting : w.state = .starting) (env : Env) :
    Nears k w (pump env { w with
      timers := w.timers.clear w.startTimer
      startTimer := none
      state := .ready }) := by
  obtain ⟨free, -, -⟩ := waits.toOwned.starting starting
  obtain ⟨queued, whole⟩ := waits.queued free
  have nearer : ∀ v : World Row, v.closed = false → v.queue = w.queue → v.current = none →
      v.state = .ready → Nears k w (pump env v) := fun v open_ queue free' ready => by
    have same : calls (startNext env v) = calls w := by
      rw [whole, calls, startNext_waiting free', waiting, free', queue]
      rfl
    rw [pump_ready open_ (queue ▸ queued) ready free']
    refine Or.inr ⟨same ▸ waits.mem, Or.inl ?_⟩
    rw [rank, rank, same, phase, phase, startNext_ready ready, starting]
    dsimp only
    omega
  exact nearer _ waits.open_ rfl free rfl

theorem Waits.onMessage (waits : Waits k w) (c : Nat) (m : ChildReply Row) (env : Env) :
    Nears k w (onMessage env c m w) := by
  have stays : Nears k w w := Nears.same waits.mem rfl rfl rfl rfl rfl rfl
  unfold SqlRunner.onMessage
  split
  · exact stays
  split
  · rename_i starting
    exact waits.ready starting.2 env
  split
  · refine Or.inl ?_
    rw [settled_beginStop]
    exact settled_failAll waits.mem _
  split
  · exact stays
  · rename_i cur is
    split
    · exact waits.finish is m env
    · exact stays

theorem Waits.onChildExit (waits : Waits k w) {c : Nat} (mem : c ∈ w.children) (env : Env) :
    Nears k w (onChildExit env c { w with children := w.children.erase c }) := by
  obtain ⟨is, gone⟩ := waits.toOwned.exit mem
  unfold SqlRunner.onChildExit
  rw [if_neg (not_not.mpr is)]
  dsimp only
  rw [gone]
  split
  · rw [pump_empty rfl]
    refine Or.inl ?_
    show k ∈ settledCalls (failAll _ _)
    refine settled_failAll ?_ _
    exact waits.mem
  · rename_i calm
    have free : w.current = none := waits.toOwned.free fun ready => calm (by
      rw [ready]
      decide)
    have stopping : w.state = .stopping := by
      rcases waits.state with state | state | ⟨state, -⟩
      · exact absurd (by rw [state]; decide) calm
      · exact state
      · exact absurd (by rw [state]; decide) calm
    obtain ⟨queued, whole⟩ := waits.queued free
    have nearer : ∀ v : World Row, v.closed = false → v.queue = w.queue → calls v = calls w →
        v.state = .none_ → Nears k w (pump env v) := fun v open_ queue same none_ => by
      rw [pump_none open_ (queue ▸ queued) none_]
      unfold spawnChild
      split
      · refine Or.inr ⟨same ▸ waits.mem, Or.inl ?_⟩
        show 4 * (calls v).idxOf k + 1 < _
        rw [same, rank, phase, stopping]
        dsimp only
        split <;> omega
      · exact Or.inl (settled_failAll (same ▸ waits.mem) _)
    exact nearer _ waits.open_ rfl rfl rfl

/-- **A turn** brings a call that waits nearer to its end, unless it leaves its timer. -/
theorem Waits.turn (waits : Waits k w) (timeoutMs : Nat) (env : Env) (e : Event Row) :
    Nears k w (turn timeoutMs env e w) := by
  have stays : ∀ t : Timers Callback, Nears k w { w with timers := t } := fun t =>
    Nears.same waits.mem rfl rfl rfl rfl rfl rfl
  cases e with
  | exec sql => exact waits.exec sql env
  | stop => exact waits.stop
  | message c m => exact waits.onMessage c m env
  | exits c =>
      show Nears k w (if _ then _ else _)
      split
      · rename_i mem
        exact waits.onChildExit mem env
      · exact stays w.timers
  | fires handle =>
      cases found : w.timers.callback handle with
      | none => simpa only [SqlRunner.turn, found] using stays w.timers
      | some callback =>
          simp only [SqlRunner.turn, found]
          have armed := Timers.callback_iff.mp found
          cases callback with
          | idle =>
              show Nears k w (idleFired _)
              unfold idleFired
              split
              · rename_i calm
                exact absurd calm.2.2 (waits.queued calm.2.1).1
              · exact stays _
          | start =>
              refine Or.inl ?_
              show k ∈ settledCalls (beginStop (failAll _ _))
              rw [settled_beginStop]
              refine settled_failAll ?_ _
              exact waits.mem
          | term c =>
              obtain ⟨-, none_, stopping⟩ := waits.armed_term _ c armed
              have before : phase w = 3 := by
                rw [phase, stopping, none_]
                rfl
              have after : ∀ v : World Row, v.state = .stopping → v.killTimer ≠ none →
                  phase v = 2 := fun v state held => by
                rw [phase, state]
                exact if_neg held
              refine Or.inr ⟨waits.mem, Or.inl ?_⟩
              have less : ∀ v : World Row, v.state = .stopping → v.killTimer ≠ none →
                  4 * (calls w).idxOf k + phase v < rank k w := fun v state held => by
                rw [rank, before, after v state held]
                omega
              exact less _ stopping (Option.some_ne_none _)
          | kill c =>
              refine Or.inl ?_
              show k ∈ settledCalls (failAll _ _)
              refine settled_failAll ?_ _
              exact waits.mem
          | statement id =>
              obtain ⟨cur, is, rfl, rfl⟩ := waits.armed_statement _ id armed
              exact waits.onTimeout is timeoutMs env

/-! ## Answers -/

/-- A call is settled with this result. -/
def Won (w : World Row) (k : Nat) (r : QuerySqlResult Row) : Prop := (k, .ok r) ∈ w.settled

variable {r : QuerySqlResult Row}

theorem won_refused {call : Nat} {err : String}
    {settled : List (Nat × Except String (QuerySqlResult Row))}
    (won : (k, .ok r) ∈ settled ++ [(call, .error err)]) : (k, .ok r) ∈ settled := by
  rcases List.mem_append.mp won with old | new
  · exact old
  · cases List.mem_singleton.mp new

theorem won_failAll {err : String} (won : Won (failAll err w) k r) : Won w k r := by
  rw [failAll_eq] at won
  rcases List.mem_append.mp won with old | new
  · exact old
  · obtain ⟨job, -, same⟩ := List.mem_map.mp new
    cases same

theorem beginStop_settled (w : World Row) : (beginStop w).settled = w.settled := by
  obtain ⟨_, _, _, _, _, _, same⟩ := beginStop_frame w
  rw [same]

theorem startNext_settled (env : Env) (w : World Row) :
    (startNext env w).settled = w.settled := by
  unfold SqlRunner.startNext clearIdle
  dsimp only
  split <;> rfl

theorem won_pump {env : Env} (won : Won (pump env w) k r) : Won w k r := by
  unfold SqlRunner.pump at won
  split at won
  · exact won
  split at won
  · unfold SqlRunner.spawnChild at won
    split at won
    · exact won
    · exact won_failAll won
  split at won
  · rwa [Won, startNext_settled] at won
  · exact won

/-- The reply to the statement that runs. -/
structure Replied (w : World Row) (e : Event Row) (k : Nat) (r : QuerySqlResult Row)
    (c : Nat) (m : ChildReply Row) (cur : Current) : Prop where
  event : e = .message c m
  child : w.child = some c
  current : w.current = some cur
  id : m.id = some cur.id
  call : cur.job.call = k
  ok : m.ok = true
  result : m.result = some r

theorem won_finish {env : Env} {m : ChildReply Row} {cur : Current} (is : w.current = some cur)
    (won : Won (finish env m w) k r) :
    Won w k r ∨ cur.job.call = k ∧ m.ok = true ∧ m.result = some r := by
  have settled : (finish env m w).settled = w.settled ++ [(cur.job.call, m.outcome)] := by
    unfold finish settle
    rw [is]
    dsimp only
    split
    · rw [startNext_settled]
    · rfl
  rw [Won, settled] at won
  rcases List.mem_append.mp won with old | new
  · exact Or.inl old
  · obtain ⟨rfl, same⟩ := Prod.mk.inj (List.mem_singleton.mp new)
    refine Or.inr ⟨rfl, ?_⟩
    unfold ChildReply.outcome at same
    split at same
    · rename_i ok result
      cases same
      exact ⟨ok, result⟩
    · cases same

/-- **A result** is the reply of the child to the statement that runs. -/
theorem won_turn {timeoutMs : Nat} {env : Env} {e : Event Row}
    (won : Won (turn timeoutMs env e w) k r) :
    Won w k r ∨ ∃ c m cur, Replied w e k r c m cur := by
  cases e with
  | exec sql =>
      refine Or.inl ?_
      change Won (SqlRunner.exec env sql w) k r at won
      unfold SqlRunner.exec settle at won
      dsimp only at won
      split at won
      · exact won_refused won
      split at won
      · exact won_refused won
      · have won := won_pump won
        exact won
  | stop =>
      refine Or.inl ?_
      have failed : Won (failAll SQL_UNAVAILABLE
          { w with closed := true, stops := w.stops + 1 }) k r → Won w k r := fun won => by
        have won := won_failAll won
        exact won
      change Won (SqlRunner.stop w) k r at won
      unfold SqlRunner.stop at won
      dsimp only at won
      split at won
      · exact failed won
      · have stopped : Won (beginStop (failAll SQL_UNAVAILABLE
            { w with closed := true, stops := w.stops + 1 })) k r := by
          split at won <;> exact won
        rw [Won, beginStop_settled] at stopped
        exact failed stopped
  | message c m =>
      change Won (SqlRunner.onMessage env c m w) k r at won
      unfold SqlRunner.onMessage at won
      split at won
      · exact Or.inl won
      · rename_i child
        rw [not_not] at child
        split at won
        · have won := won_pump won
          exact Or.inl won
        split at won
        · rw [Won, beginStop_settled] at won
          exact Or.inl (won_failAll won)
        split at won
        · exact Or.inl won
        · rename_i cur is
          split at won
          · rename_i same
            rcases won_finish is won with old | ⟨call, ok, result⟩
            · exact Or.inl old
            · exact Or.inr ⟨c, m, cur, rfl, child, is, same, call, ok, result⟩
          · exact Or.inl won
  | exits c =>
      refine Or.inl ?_
      change Won (if _ then _ else _) k r at won
      split at won
      · unfold SqlRunner.onChildExit at won
        dsimp only at won
        split at won
        · exact won
        · have won := won_pump won
          unfold flushExitWaiters at won
          split at won
          · have won := won_failAll won
            exact won
          · exact won
      · exact won
  | fires handle =>
      refine Or.inl ?_
      cases found : w.timers.callback handle with
      | none => simpa only [SqlRunner.turn, found] using won
      | some callback =>
          simp only [SqlRunner.turn, found] at won
          cases callback with
          | idle =>
              change Won (idleFired _) k r at won
              unfold idleFired at won
              split at won
              · rwa [Won, beginStop_settled] at won
              · exact won
          | start =>
              change Won (beginStop (failAll _ _)) k r at won
              rw [Won, beginStop_settled] at won
              have won := won_failAll won
              exact won
          | term c => exact won
          | kill c =>
              change Won (failAll _ _) k r at won
              have won := won_failAll won
              exact won
          | statement id =>
              change Won (SqlRunner.onTimeout _ _ _ _) k r at won
              unfold SqlRunner.onTimeout settle at won
              split at won
              · exact won
              split at won
              · exact won
              · dsimp only at won
                rw [Won, beginStop_settled] at won
                exact won_refused won

/-! ## Runs -/

section Runs

variable (timeoutMs : Nat)

theorem run_snoc (es : List (Env × Event Row)) (e : Env × Event Row) :
    run timeoutMs (es ++ [e]) = turn timeoutMs e.1 e.2 (run timeoutMs es) :=
  List.foldl_append

theorem run_kept (es : List (Env × Event Row)) :
    Kept (run timeoutMs es) ∧ Accounted (run timeoutMs es) ∧ Books (run timeoutMs es) := by
  induction es using List.reverseRecOn with
  | nil => exact ⟨kept_initial, Accounted.initial, { Sent.initial with free := nofun }⟩
  | append_singleton es e ih =>
      obtain ⟨kept, accounted, books⟩ := ih
      rw [run_snoc]
      exact ⟨kept_turn kept timeoutMs e.1 e.2, accounted.turn timeoutMs e.1 e.2,
        books.turn kept accounted timeoutMs e.1 e.2⟩

/-- The reply that a call's result came with, to its own statement. -/
structure Answer (es : List (Env × Event Row)) (k : Nat) (r : QuerySqlResult Row)
    (before : List (Env × Event Row)) (m : ChildReply Row) (s : Statement) : Prop where
  came : ∃ env later, es = before ++ (env, .message s.child m) :: later
  sent : s ∈ (run timeoutMs before).sent
  call : s.call = k
  text : (run timeoutMs before).asked[k]? = some s.sql
  id : m.id = some s.id
  ok : m.ok = true
  result : m.result = some r

theorem won_run (es : List (Env × Event Row)) {k : Nat} {r : QuerySqlResult Row}
    (won : Won (run timeoutMs es) k r) : ∃ before m s, Answer timeoutMs es k r before m s := by
  induction es using List.reverseRecOn with
  | nil => cases won
  | append_singleton es e ih =>
      rw [run_snoc] at won
      rcases won_turn won with old | ⟨c, m, cur, replied⟩
      · obtain ⟨before, m, s, answer⟩ := ih old
        obtain ⟨env, later, rfl⟩ := answer.came
        exact ⟨before, m, s, { answer with came := ⟨env, later ++ [e], by simp⟩ }⟩
      · obtain ⟨-, -, books⟩ := run_kept timeoutMs es
        obtain ⟨-, -, c', child, sent⟩ := books.current cur replied.current
        obtain rfl : c = c' := Option.some.inj (replied.child.symm.trans child)
        refine ⟨es, m, _, ⟨⟨e.1, [], ?_⟩, sent, replied.call, ?_, replied.id, replied.ok,
          replied.result⟩⟩
        · rw [← replied.event]
        · rw [← replied.call]
          exact books.texts _ sent

/-- What holds of the world `w` that the turns `es` lead to. -/
structure Accounts (es : List (Env × Event Row)) (w : World Row) : Prop where
  one_child : w.children.length ≤ 1
  one_statement : ∀ c,
    (w.sent.filter fun s => s.child = c ∧ s.id ∉ w.answered).length ≤ 1
  settled_once : (w.settled.map Prod.fst).Nodup
  settled_asked : ∀ k, k ∈ w.settled.map Prod.fst → k < w.asked.length
  own_result : ∀ k r, (k, .ok r) ∈ w.settled → ∃ before m s, Answer timeoutMs es k r before m s
  timed_out : ∀ s ∈ w.sent, s.id ∈ w.timedOut →
    (∃ err, (s.call, .error err) ∈ w.settled) ∧ ∀ r, (s.call, .ok r) ∉ w.settled
  none_later : w.sent.Pairwise fun s later => s.id ∈ w.timedOut → later.child ≠ s.child
  stops : w.children = [] ∨ w.state = .stuck → ∀ n < w.stops, n ∈ w.stopped
  armed : w.queue ≠ [] → ∃ handle callback, w.timers.Armed handle callback ∧ callback ≠ .idle

/-- In a list whose members exclude each other there is at most one. -/
theorem length_filter_le_one {α : Type} {R : α → α → Prop} {l : List α} (pairs : l.Pairwise R)
    {p : α → Bool} (apart : ∀ a b, R a b → p a = true → p b = true → False) :
    (l.filter p).length ≤ 1 := by
  have pairs' := pairs.filter p
  match found : l.filter p with
  | [] => exact Nat.zero_le _
  | [_] => exact le_refl _
  | a :: b :: rest =>
      have kept : ∀ x ∈ a :: b :: rest, p x = true := fun x mem => by
        rw [← found] at mem
        exact (List.mem_filter.mp mem).2
      rw [found] at pairs'
      exact (apart a b (List.rel_of_pairwise_cons pairs' List.mem_cons_self)
        (kept a List.mem_cons_self) (kept b (List.mem_cons_of_mem _ List.mem_cons_self))).elim

theorem accounts_run (es : List (Env × Event Row)) : Accounts timeoutMs es (run timeoutMs es) := by
  obtain ⟨kept, accounted, books⟩ := run_kept timeoutMs es
  generalize same : run timeoutMs es = w at *
  have nodup : (w.settled.map Prod.fst).Nodup :=
    (List.nodup_append.mp (accounted.calls.nodup_iff.mpr List.nodup_range)).1
  exact {
    one_child := by
      rw [kept.alive]
      cases w.child <;> simp
    one_statement := fun c => length_filter_le_one books.order fun a b first here there => by
      simp only [decide_eq_true_eq] at here there
      exact here.2 (first (here.1.trans there.1.symm))
    settled_once := nodup
    settled_asked := fun k mem =>
      List.mem_range.mp (accounted.calls.subset (List.mem_append_left _ mem))
    own_result := fun k r won => won_run timeoutMs es (by rw [Won, same]; exact won)
    timed_out := fun s mem out => by
      obtain ⟨-, err, settled⟩ := books.timedOut s mem out
      refine ⟨⟨err, settled⟩, fun r won => ?_⟩
      cases congrArg Prod.snd (List.inj_on_of_nodup_map nodup settled won rfl)
    none_later := books.order.imp_of_mem fun mem _ first out same =>
      (books.timedOut _ mem out).1 (first same.symm)
    stops := fun ended n lt => by
      have mem := accounted.stops.symm.subset (List.mem_range.mpr lt)
      rcases List.mem_append.mp mem with stopped | waits
      · exact stopped
      · have stopping := kept.waiters (List.ne_nil_of_mem waits)
        rcases ended with gone | stuck
        · have none_ : w.child = none := by
            rw [kept.alive] at gone
            exact Option.toList_eq_nil_iff.mp gone
          exact absurd ((kept.childless.mp none_).symm.trans stopping) (by decide)
        · exact absurd (stuck.symm.trans stopping) (by decide)
    armed := fun queued => by
      rcases kept.served queued with starting | stopping | ⟨cur, is⟩
      · obtain ⟨h, -, armed⟩ := kept.starting starting
        exact ⟨h, _, armed, nofun⟩
      · obtain ⟨h, c, ⟨-, -, armed⟩ | ⟨-, armed⟩⟩ := kept.stopping stopping
        · exact ⟨h, _, armed, nofun⟩
        · exact ⟨h, _, armed, nofun⟩
      · exact ⟨_, _, kept.counted cur is, nofun⟩ }

/-! ## In the long run -/

/-- The world after so many turns of a run that does not end. -/
def worlds (x : Nat → Env × Event Row) : Nat → World Row
  | 0 => initial
  | n + 1 => turn timeoutMs (x n).1 (x n).2 (worlds x n)

theorem worlds_run (x : Nat → Env × Event Row) (n : Nat) :
    worlds timeoutMs x n = run timeoutMs ((List.range n).map x) := by
  induction n with
  | zero => rfl
  | succ n ih => rw [worlds, ih, List.range_succ, List.map_append, List.map_singleton, run_snoc]

def Armed (w : World Row) (handle : Nat) : Prop := ∃ callback, w.timers.Armed handle callback

theorem served_in_time (x : Nat → Env × Event Row)
    (elapse : Elapse (@Armed Row) (worlds timeoutMs x)) (n k : Nat)
    (asked : k < (worlds timeoutMs x n).asked.length) :
    ∃ m, n ≤ m ∧ k ∈ (worlds timeoutMs x m).settled.map Prod.fst := by
  obtain ⟨kept, accounted, -⟩ := run_kept timeoutMs ((List.range n).map x)
  rw [← worlds_run] at kept accounted
  rcases List.mem_append.mp (accounted.calls.symm.subset (List.mem_range.mpr asked)) with
    settled | waits
  · exact ⟨n, le_refl n, settled⟩
  · refine @eventually _ _ _ _ elapse (Waits k) (fun w => k ∈ settledCalls w) (rank k)
      (fun w => (watch w).getD 0) (fun n waits => ?_) (fun n waits => ?_) n ⟨kept, waits⟩
    · obtain ⟨h, held, armed⟩ := waits.watched
      rw [held]
      exact armed
    · have kept' := kept_turn waits.toKept timeoutMs (x n).1 (x n).2
      rcases waits.turn timeoutMs (x n).1 (x n).2 with done | ⟨mem, nearer⟩
      · exact Or.inl done
      · refine Or.inr ⟨⟨kept', mem⟩, nearer.imp id fun same => ⟨same.1, ?_⟩⟩
        exact congrArg (Option.getD · 0) same.2

/-- **The runner's accounts** are right after every run, and every call is settled in the end
when timers elapse. -/
theorem accounts :
    (∀ es : List (Env × Event Row), Accounts timeoutMs es (run timeoutMs es)) ∧
      ∀ x : Nat → Env × Event Row, Elapse (@Armed Row) (worlds timeoutMs x) →
        ∀ n, ∀ k < (worlds timeoutMs x n).asked.length,
          ∃ m, n ≤ m ∧ k ∈ (worlds timeoutMs x m).settled.map Prod.fst :=
  ⟨accounts_run timeoutMs, fun x elapse n k asked => served_in_time timeoutMs x elapse n k asked⟩

end Runs

/-- One call, its answer, and the stop of the idle child. -/
def oneCall : Nat → Env × Event Nat
  | 0 => (⟨0, true⟩, .exec "select 7")
  | 1 => (⟨1, true⟩, .message 0 ⟨some "ready", none, false, none, none, none, none⟩)
  | 2 => (⟨2, true⟩, .message 0 ⟨none, some 1, true, none, some ⟨[7], false, none⟩, none, none⟩)
  | 3 => (⟨3, true⟩, .fires 2)
  | 4 => (⟨4, true⟩, .exits 0)
  | _ => (⟨5, true⟩, .exits 9)

theorem oneCall_ends (n : Nat) : worlds 10 oneCall (n + 5) = worlds 10 oneCall 5 := by
  induction n with
  | zero => rfl
  | succ n ih =>
      show turn 10 _ (.exits 9) (worlds 10 oneCall (n + 5)) = _
      rw [ih]
      rfl

theorem one_served :
    ∃ m, 1 ≤ m ∧ 0 ∈ (worlds 10 oneCall m).settled.map Prod.fst :=
  (accounts 10).2 oneCall
    (fun n handle _ => ⟨n + 5, Nat.le_add_right n 5, fun ⟨callback, armed⟩ => by
      rw [oneCall_ends] at armed
      cases armed⟩)
    1 0 (by decide)

end Kiagent.Mcp.SqlRunner
