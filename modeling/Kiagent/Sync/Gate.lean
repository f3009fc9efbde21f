/-
# Sync.Gate -- the engine behind the role gate

`gateEngine` puts a proxy between a caller and each handle of the inner engine.
An attach that may not start is held, and `attachHeld` starts it; `closeWriter`
stops what is live and holds it.  A handle that is stopped leaves the live set
before its inner has wound down, and a hold that begins then does not wait for it.

* `stopping_handle_outlives_close`, `restarted_and_held` -- the two ways this shows;
* `gate_keeps_workers` -- in every run whose holds begin while each active inner is
  live, or awaited by a live one, and whose `attachHeld` goes on outside a newer
  hold, each attach runs once or is held once, and nothing is active between a close
  and the next release.
-/
import Kiagent.Theory.Chain
import Kiagent.Theory.Runs
import Mathlib.Data.List.Nodup
import Mathlib.Logic.Function.Basic

namespace Kiagent.Sync.RoleGate

open Kiagent.Theory

set_option autoImplicit false

/-! ## Proxies and inners -/

inductive GatedKind where
  | run (account : String)
  | attach
  deriving DecidableEq

/-- A `GatedHandle`. -/
structure Proxy where
  kind : GatedKind
  stopped : Bool
  inner : Option Nat

/-- A handle of the inner engine.  `stopping`: its `stop` was called; `finished`: its
loop has ended, which every `stop` waits for.  A pull loop waits for the loop of
its account that it replaces. -/
structure Inner where
  proxy : Nat
  prev : Option Nat
  stopping : Bool
  finished : Bool

/-- What is asked on every call. -/
structure Roles where
  readOnly : Bool
  ownsAccount : String → Bool
  ownedByOther : String → Bool

/-- A `closeWriter` that awaits the stops it called. -/
structure Closing where
  id : Nat
  proxies : List Nat
  stops : List Nat

/-- A `release`, of its own or of an `attachHeld`, that awaits a `closeWriter`. -/
structure Waiter where
  closing : Nat
  attaches : Bool

structure Gate where
  roles : Roles
  proxies : Nat → Proxy
  proxyCount : Nat
  inners : Nat → Inner
  innerCount : Nat
  /-- The inner engine's own map: the loop of an account. -/
  running : String → Option Nat
  live : List Nat
  held : List Nat
  runs : String → Option Nat
  holding : Bool
  closing : Option Nat
  closeCount : Nat
  closings : List Closing
  waiters : List Waiter
  /-- Calls of `attachHeld` whose `release` is done and which have not gone on. -/
  attaching : Nat
  /-- A `closeWriter` has resolved, and no `release` since. -/
  closed : Bool

def Gate.initial (roles : Roles) : Gate where
  roles
  proxies _ := ⟨.attach, true, none⟩
  proxyCount := 0
  inners _ := ⟨0, none, true, true⟩
  innerCount := 0
  running _ := none
  live := []
  held := []
  runs _ := none
  holding := false
  closing := none
  closeCount := 0
  closings := []
  waiters := []
  attaching := 0
  closed := false

namespace Gate

/-- `inner.stop()`. -/
def stopInner (g : Gate) (i : Nat) : Gate :=
  { g with inners := Function.update g.inners i { g.inners i with stopping := true } }

def stopInners (g : Gate) (is : List Nat) : Gate := is.foldl stopInner g

def newProxy (g : Gate) (kind : GatedKind) : Gate :=
  { g with
    proxies := Function.update g.proxies g.proxyCount ⟨kind, false, none⟩
    proxyCount := g.proxyCount + 1 }

/-- `start`: the proxy takes the handle the engine gives back, and is live. -/
def start (g : Gate) (p : Nat) (prev : Option Nat) (finished : Bool) : Gate :=
  { g with
    inners := Function.update g.inners g.innerCount ⟨p, prev, false, finished⟩
    innerCount := g.innerCount + 1
    proxies := Function.update g.proxies p { g.proxies p with inner := some g.innerCount }
    live := if p ∈ g.live then g.live else g.live ++ [p] }

/-- How the engine takes a `run`. -/
inductive EngineRun where
  /-- A pull loop, which first stops the one it replaces. -/
  | loop
  /-- A pause or a transition is in flight: an idle handle. -/
  | refused
  /-- No source is registered: the handle is over, and stands in the map. -/
  | noSource

def engineRun (g : Gate) (p : Nat) (account : String) : EngineRun → Gate
  | .loop =>
      let prev := g.running account
      let started := (match prev with
        | some i => g.stopInner i
        | none => g).start p prev false
      { started with running := Function.update g.running account (some g.innerCount) }
  | .refused => g.start p none true
  | .noSource =>
      let started := g.start p none true
      { started with running := Function.update g.running account (some g.innerCount) }

def run (g : Gate) (account : String) (how : EngineRun) : Gate :=
  let p := g.proxyCount
  let made := g.newProxy (.run account)
  if g.holding || g.roles.ownedByOther account then made
  else if g.roles.readOnly && !g.roles.ownsAccount account then made
  else
    let dropped := match g.runs account with
      | some prev => { made with live := made.live.filter (· ≠ prev) }
      | none => made
    { dropped with runs := Function.update g.runs account (some p) }.engineRun p account how

def attach (g : Gate) : Gate :=
  let p := g.proxyCount
  let made := g.newProxy .attach
  if g.holding || g.roles.readOnly then { made with held := made.held ++ [p] }
  else made.start p none false

/-- `GatedHandle.stop`: out of the live set first. -/
def stop (g : Gate) (p : Nat) : Gate :=
  let dropped := { g with
    proxies := Function.update g.proxies p { g.proxies p with stopped := true }
    live := g.live.filter (· ≠ p) }
  match (g.proxies p).inner with
  | some i => dropped.stopInner i
  | none => dropped

/-- The first stretch of `closeNow`: every stop is called before any is awaited. -/
def closeWriter (g : Gate) : Gate :=
  let stops := g.live.filterMap fun p => (g.proxies p).inner
  let stopped := g.stopInners stops
  { stopped with
    holding := true
    closing := some g.closeCount
    closeCount := g.closeCount + 1
    closings := g.closings ++ [⟨g.closeCount, g.live, stops⟩] }

/-- One proxy at the end of `closeNow`. -/
def settle (g : Gate) (p : Nat) : Gate :=
  let holds := (g.proxies p).kind = .attach ∧ (g.proxies p).stopped = false ∧ p ∉ g.held
  { g with
    live := g.live.filter (· ≠ p)
    runs := fun account => if g.runs account = some p then none else g.runs account
    proxies := Function.update g.proxies p { g.proxies p with inner := none }
    held := if holds then g.held ++ [p] else g.held }

def ready (g : Gate) (c : Closing) : Bool := c.stops.all fun i => (g.inners i).finished

/-- The end of `closeNow`, and its `finally`. -/
def endClosing (g : Gate) (c : Closing) : Gate :=
  let settled := c.proxies.foldl settle g
  { settled with
    closings := g.closings.filter fun c' => c'.id ≠ c.id
    closing := if g.closing = some c.id then none else g.closing
    closed := g.holding }

/-- `holding = false`; an `attachHeld` goes on in a turn of its own. -/
def endHold (g : Gate) (attaches : Bool) : Gate :=
  { g with
    holding := false
    closed := false
    attaching := if attaches then g.attaching + 1 else g.attaching }

def startHeld (g : Gate) (p : Nat) : Gate :=
  if (g.proxies p).stopped then g else g.start p none false

/-- `attachHeld` after its `release`. -/
def attachResume (g : Gate) : Gate :=
  let resumed := { g with attaching := g.attaching - 1 }
  if g.roles.readOnly then resumed
  else g.held.foldl startHeld { resumed with held := [] }

end Gate

inductive GateAct where
  | role (roles : Roles)
  | attach
  | run (account : String) (how : Gate.EngineRun)
  | stop (p : Nat)
  /-- A loop of the inner engine ends. -/
  | finished (i : Nat)
  | closeWriter
  | closed (k : Nat)
  | release (attaches : Bool)
  | resume (k : Nat)
  | attachResume

def gateStep (g : Gate) : GateAct → Option Gate
  | .role roles => some { g with roles }
  | .attach => some g.attach
  | .run account how => some (g.run account how)
  | .stop p => if p < g.proxyCount then some (g.stop p) else none
  | .finished i =>
      if i < g.innerCount ∧ ((g.inners i).prev.all fun j => (g.inners j).finished) then
        some { g with inners := Function.update g.inners i { g.inners i with finished := true } }
      else none
  | .closeWriter => some g.closeWriter
  -- Continuations run in the order their promises settle: of two closings that have
  -- settled, the earlier call ends first.
  | .closed k =>
      match g.closings[k]? with
      | some c =>
          if g.ready c ∧ (g.closings.take k).all fun c' => !g.ready c' then some (g.endClosing c)
          else none
      | none => none
  | .release attaches =>
      match g.closing with
      | none => some (g.endHold attaches)
      | some closing => some { g with waiters := g.waiters ++ [⟨closing, attaches⟩] }
  | .resume k =>
      match g.waiters[k]? with
      | some w =>
          if w.closing ∈ g.closings.map Closing.id then none
          else
            match g.closing with
            | none => some ({ g with waiters := g.waiters.eraseIdx k }.endHold w.attaches)
            | some closing => some { g with waiters := g.waiters.set k ⟨closing, w.attaches⟩ }
      | none => none
  | .attachResume => if 0 < g.attaching then some g.attachResume else none

/-! ## What holds between two steps -/

/-- The loop that the stop of another waits for. -/
def prevOf (inners : Nat → Inner) (i : Nat) : Option Nat := (inners i).prev

/-- Who belongs to whom. -/
structure Wired (g : Gate) : Prop where
  owner : ∀ i < g.innerCount, (g.inners i).proxy < g.proxyCount
  prev : ∀ i < g.innerCount, ∀ j, (g.inners i).prev = some j →
    j < i ∧ ((g.inners i).finished = true → (g.inners j).finished = true)
  inner : ∀ p < g.proxyCount, ∀ i, (g.proxies p).inner = some i →
    i < g.innerCount ∧ (g.inners i).proxy = p
  live : ∀ p ∈ g.live, p < g.proxyCount
  running : ∀ account i, g.running account = some i → i < g.innerCount ∧
    (g.proxies (g.inners i).proxy).kind ≠ .attach
  runs : ∀ account p, g.runs account = some p → p < g.proxyCount ∧ (g.proxies p).kind ≠ .attach

/-- The holds: the closings in flight, oldest first, each of which waits for every
loop that is not over. -/
structure Quiesced (g : Gate) : Prop where
  holding : g.closings ≠ [] → g.holding = true
  closing : g.closing = g.closings.getLast?.map Closing.id
  ids : (g.closings.map Closing.id).Nodup
  below : ∀ c ∈ g.closings, c.id < g.closeCount
  members : ∀ c ∈ g.closings, ∀ p ∈ c.proxies, p < g.proxyCount
  stops : ∀ c ∈ g.closings, ∀ y ∈ c.stops, y < g.innerCount
  covered : ∀ c ∈ g.closings, ∀ i < g.innerCount, (g.inners i).finished = false →
    ∃ y ∈ c.stops, Awaits (prevOf g.inners) y i
  closed : g.closed = true → g.holding = true ∧ ∀ i < g.innerCount, (g.inners i).finished = true

/-- The inner `i` serves the proxy and was not told to stop. -/
def Serves (g : Gate) (p i : Nat) : Prop :=
  i < g.innerCount ∧ (g.inners i).proxy = p ∧ (g.inners i).stopping = false

/-- Where the work of an attach is: it runs, it waits, or a closing is stopping it. -/
inductive Placed (g : Gate) (held : List Nat) (p : Nat) : Prop where
  | runs (i : Nat) (live : p ∈ g.live) (free : p ∉ held) (unclosed : ∀ c ∈ g.closings, p ∉ c.proxies)
      (inner : (g.proxies p).inner = some i) (once : ∀ j, Serves g p j ↔ j = i)
  | waits (mem : p ∈ held) (idle : p ∉ g.live) (none : ∀ j, ¬ Serves g p j)
  | stops (live : p ∈ g.live) (free : p ∉ held) (closing : ∃ c ∈ g.closings, p ∈ c.proxies)
      (none : ∀ j, ¬ Serves g p j)

structure Housed (g : Gate) (held : List Nat) : Prop where
  nodup : held.Nodup
  attaches : ∀ p ∈ held, p < g.proxyCount ∧ (g.proxies p).kind = .attach
  placed : ∀ p < g.proxyCount, (g.proxies p).kind = .attach → (g.proxies p).stopped = false →
    Placed g held p

variable {g : Gate} {held : List Nat}

theorem Wired.over_of_awaits (wired : Wired g) {y i : Nat} (awaits : Awaits (prevOf g.inners) y i)
    (inside : y < g.innerCount) (finished : (g.inners y).finished = true) : (g.inners i).finished = true :=
  awaits.carry (p := fun i => (g.inners i).finished = true) inside wired.prev finished

/-- A closing whose stops have settled has waited for everything. -/
theorem Quiesced.all_over (quiesced : Quiesced g) (wired : Wired g) {c : Closing}
    (mem : c ∈ g.closings) (ready : g.ready c = true) :
    ∀ i < g.innerCount, (g.inners i).finished = true := by
  intro i inside
  by_contra active
  obtain ⟨y, stopped, awaits⟩ := quiesced.covered c mem i inside (Bool.eq_false_iff.2 active)
  exact active (Wired.over_of_awaits wired awaits (quiesced.stops c mem y stopped)
    (List.all_eq_true.1 ready y stopped))

theorem Quiesced.unheld (quiesced : Quiesced g) (unheld : g.holding = false) :
    g.closings = [] ∧ g.closed = false := by
  constructor
  · by_contra nonempty
    rw [quiesced.holding nonempty] at unheld
    cases unheld
  · refine Bool.eq_false_iff.2 fun closed => ?_
    rw [(quiesced.closed closed).1] at unheld
    cases unheld

/-- The proxies and inners, what is live and what is closing are the same. -/
structure Gate.Alike (g g' : Gate) : Prop where
  proxies : g'.proxies = g.proxies
  proxyCount : g'.proxyCount = g.proxyCount
  inners : g'.inners = g.inners
  innerCount : g'.innerCount = g.innerCount
  live : g'.live = g.live
  closings : g'.closings = g.closings

theorem Placed.alike {g' : Gate} {p : Nat} (placed : Placed g held p) (alike : g.Alike g') :
    Placed g' held p := by
  have same : ∀ j, Serves g' p j ↔ Serves g p j := fun j => by
    rw [Serves, Serves, alike.inners, alike.innerCount]
  cases placed with
  | runs i live free unclosed inner once =>
      exact .runs i (alike.live ▸ live) free (alike.closings ▸ unclosed) (alike.proxies ▸ inner)
        fun j => (same j).trans (once j)
  | waits mem idle none => exact .waits mem (alike.live ▸ idle) fun j => mt (same j).1 (none j)
  | stops live free closing none =>
      exact .stops (alike.live ▸ live) free (alike.closings ▸ closing) fun j => mt (same j).1 (none j)

theorem Housed.alike {g' : Gate} (housed : Housed g held) (alike : g.Alike g') :
    Housed g' held := by
  refine ⟨housed.nodup, ?_, ?_⟩
  · rw [alike.proxies, alike.proxyCount]
    exact housed.attaches
  · rw [alike.proxies, alike.proxyCount]
    exact fun p low kind unstopped => (housed.placed p low kind unstopped).alike alike

/-! ## Stopping inners -/

@[simp] theorem Gate.stopInners_nil : g.stopInners [] = g := rfl

theorem Gate.stopInners_cons (i : Nat) (is : List Nat) :
    g.stopInners (i :: is) = (g.stopInner i).stopInners is := rfl

/-- Only the inners change, and of an inner only that it was told to stop. -/
theorem Gate.stopInners_eq : (is : List Nat) → (g : Gate) → g.stopInners is =
    { g with inners := fun i =>
        { g.inners i with stopping := (g.inners i).stopping || decide (i ∈ is) } }
  | [], g => by simp
  | x :: is, g => by
      rw [Gate.stopInners_cons, Gate.stopInners_eq is]
      simp only [Gate.stopInner, Gate.mk.injEq, true_and, and_true]
      funext i
      by_cases here : i = x
      · subst here
        simp
      · simp [here]

theorem Gate.stopInner_eq (i : Nat) : g.stopInner i = g.stopInners [i] := rfl

theorem Wired.stopInners (wired : Wired g) (is : List Nat) : Wired (g.stopInners is) := by
  rw [Gate.stopInners_eq]
  exact ⟨wired.owner, wired.prev, wired.inner, wired.live, wired.running, wired.runs⟩

theorem Quiesced.stopInners (quiesced : Quiesced g) (is : List Nat) :
    Quiesced (g.stopInners is) := by
  rw [Gate.stopInners_eq]
  refine ⟨quiesced.holding, quiesced.closing, quiesced.ids, quiesced.below, quiesced.members, quiesced.stops, ?_,
    quiesced.closed⟩
  intro c mem i inside active
  obtain ⟨y, stopped, awaits⟩ := quiesced.covered c mem i inside active
  refine ⟨y, stopped, awaits.congr fun _ => ?_⟩
  rfl

theorem serves_stopInners {is : List Nat} {p i : Nat} :
    Serves (g.stopInners is) p i ↔ Serves g p i ∧ i ∉ is := by
  rw [Gate.stopInners_eq]
  simp only [Serves, Bool.or_eq_false_iff, decide_eq_false_iff_not, and_assoc]

/-- Stopping inners of other proxies leaves an attach where it is. -/
theorem Placed.stopInners {is : List Nat} {p : Nat} (placed : Placed g held p)
    (others : ∀ i ∈ is, ¬ Serves g p i) : Placed (g.stopInners is) held p := by
  have same : ∀ j, Serves (g.stopInners is) p j ↔ Serves g p j := fun j => by
    rw [serves_stopInners]
    exact ⟨And.left, fun serves => ⟨serves, fun mem => others j mem serves⟩⟩
  have fields := Gate.stopInners_eq is g
  cases placed with
  | runs i live free unclosed inner once =>
      refine .runs i ?_ free ?_ ?_ fun j => (same j).trans (once j) <;> rw [fields] <;> assumption
  | waits mem idle none =>
      refine .waits mem ?_ fun j => mt (same j).1 (none j)
      rw [fields]
      exact idle
  | stops live free closing none =>
      refine .stops ?_ free ?_ fun j => mt (same j).1 (none j) <;> rw [fields] <;> assumption

/-! ## Starting -/

theorem start_kind (p q : Nat) (prev : Option Nat) (finished : Bool) :
    ((g.start p prev finished).proxies q).kind = (g.proxies q).kind := by
  by_cases here : q = p
  · subst here
    simp [Gate.start]
  · simp [Gate.start, here]

theorem start_stopped (p q : Nat) (prev : Option Nat) (finished : Bool) :
    ((g.start p prev finished).proxies q).stopped = (g.proxies q).stopped := by
  by_cases here : q = p
  · subst here
    simp [Gate.start]
  · simp [Gate.start, here]

theorem start_inner_ne {p q : Nat} (prev : Option Nat) (finished : Bool) (ne : q ≠ p) :
    ((g.start p prev finished).proxies q).inner = (g.proxies q).inner := by
  simp [Gate.start, ne]

theorem start_inners_ne {p i : Nat} (prev : Option Nat) (finished : Bool) (old : i < g.innerCount) :
    (g.start p prev finished).inners i = g.inners i := by
  simp [Gate.start, Nat.ne_of_lt old]

theorem mem_start_live {p q : Nat} {prev : Option Nat} {finished : Bool} :
    q ∈ (g.start p prev finished).live ↔ q ∈ g.live ∨ q = p := by
  simp only [Gate.start]
  split
  · rename_i there
    exact ⟨.inl, fun h => h.elim (fun h => h) fun same => same ▸ there⟩
  · simp

theorem serves_start {p q j : Nat} {prev : Option Nat} {finished : Bool} :
    Serves (g.start p prev finished) q j ↔ (j = g.innerCount ∧ q = p) ∨ Serves g q j := by
  have count : (g.start p prev finished).innerCount = g.innerCount + 1 := rfl
  unfold Serves
  rw [count]
  rcases Nat.lt_trichotomy j g.innerCount with old | rfl | new
  · rw [start_inners_ne prev finished old]
    constructor
    · rintro ⟨-, rest⟩
      exact .inr ⟨old, rest⟩
    · rintro (⟨rfl, -⟩ | ⟨-, rest⟩)
      · exact absurd old (Nat.lt_irrefl _)
      · exact ⟨Nat.lt_succ_of_lt old, rest⟩
  · have last : (g.start p prev finished).inners g.innerCount = ⟨p, prev, false, finished⟩ := by
      simp [Gate.start]
    rw [last]
    constructor
    · rintro ⟨-, rfl, -⟩
      exact .inl ⟨rfl, rfl⟩
    · rintro (⟨-, rfl⟩ | ⟨low, -⟩)
      · exact ⟨Nat.lt_succ_self _, rfl, rfl⟩
      · exact absurd low (Nat.lt_irrefl _)
  · constructor
    · rintro ⟨low, -⟩
      omega
    · rintro (⟨rfl, -⟩ | ⟨low, -⟩) <;> omega

theorem Wired.start (wired : Wired g) {p : Nat} (inside : p < g.proxyCount) {prev : Option Nat}
    {finished : Bool} (before : ∀ j, prev = some j → j < g.innerCount ∧
      (finished = true → (g.inners j).finished = true)) : Wired (g.start p prev finished) := by
  have count : (g.start p prev finished).innerCount = g.innerCount + 1 := rfl
  have last : (g.start p prev finished).inners g.innerCount = ⟨p, prev, false, finished⟩ := by
    simp [Gate.start]
  constructor
  · intro i low
    rcases Nat.lt_succ_iff_lt_or_eq.1 (count ▸ low) with old | rfl
    · rw [start_inners_ne prev finished old]
      exact wired.owner i old
    · rw [last]
      exact inside
  · intro i low j before'
    rcases Nat.lt_succ_iff_lt_or_eq.1 (count ▸ low) with old | rfl
    · rw [start_inners_ne prev finished old] at before' ⊢
      obtain ⟨lower, follows⟩ := wired.prev i old j before'
      rw [start_inners_ne prev finished (Nat.lt_trans lower old)]
      exact ⟨lower, follows⟩
    · rw [last] at before' ⊢
      obtain ⟨lower, follows⟩ := before j before'
      rw [start_inners_ne prev finished lower]
      exact ⟨lower, follows⟩
  · intro q low i own
    by_cases here : q = p
    · subst here
      have : i = g.innerCount := by simpa [Gate.start, eq_comm] using own
      subst this
      rw [last, count]
      exact ⟨Nat.lt_succ_self _, rfl⟩
    · rw [start_inner_ne prev finished here] at own
      obtain ⟨old, same⟩ := wired.inner q low i own
      rw [start_inners_ne prev finished old, count]
      exact ⟨Nat.lt_succ_of_lt old, same⟩
  · intro q mem
    rcases mem_start_live.1 mem with old | rfl
    · exact wired.live q old
    · exact inside
  · intro account i there
    obtain ⟨old, run⟩ := wired.running account i there
    rw [start_inners_ne prev finished old, start_kind, count]
    exact ⟨Nat.lt_succ_of_lt old, run⟩
  · intro account q there
    rw [start_kind]
    exact wired.runs account q there

/-- Outside a hold nothing waits, so a new loop is nobody's concern. -/
theorem Quiesced.start (quiesced : Quiesced g) (unheld : g.holding = false) (p : Nat)
    (prev : Option Nat) (finished : Bool) : Quiesced (g.start p prev finished) := by
  obtain ⟨none, unclosed⟩ := quiesced.unheld unheld
  refine ⟨quiesced.holding, quiesced.closing, quiesced.ids, quiesced.below, quiesced.members, ?_, ?_, ?_⟩
  · intro c mem
    have mem : c ∈ g.closings := mem
    rw [none] at mem
    cases mem
  · intro c mem
    have mem : c ∈ g.closings := mem
    rw [none] at mem
    cases mem
  · intro closed
    have closed : g.closed = true := closed
    rw [unclosed] at closed
    cases closed

theorem Placed.start_ne {p q : Nat} {prev : Option Nat} {finished : Bool} (ne : q ≠ p)
    (placed : Placed g held q) : Placed (g.start p prev finished) held q := by
  have same : ∀ j, Serves (g.start p prev finished) q j ↔ Serves g q j := fun j => by
    rw [serves_start]
    exact ⟨fun h => h.resolve_left fun new => ne new.2, .inr⟩
  cases placed with
  | runs i live free unclosed inner once =>
      exact .runs i (mem_start_live.2 (.inl live)) free unclosed
        ((start_inner_ne prev finished ne).trans inner) fun j => (same j).trans (once j)
  | waits mem idle none =>
      exact .waits mem (fun live => (mem_start_live.1 live).elim idle ne) fun j => mt (same j).1 (none j)
  | stops live free closing none =>
      exact .stops (mem_start_live.2 (.inl live)) free closing fun j => mt (same j).1 (none j)

/-- A pull loop starts: the attaches stay where they are. -/
theorem Housed.start_run (housed : Housed g held) {p : Nat} (run : (g.proxies p).kind ≠ .attach)
    (prev : Option Nat) (finished : Bool) : Housed (g.start p prev finished) held := by
  refine ⟨housed.nodup, fun q mem => ?_, fun q low kind unstopped => ?_⟩
  · rw [start_kind]
    exact housed.attaches q mem
  · rw [start_kind] at kind
    rw [start_stopped] at unstopped
    exact (housed.placed q low kind unstopped).start_ne fun same => run (same ▸ kind)

/-- The first of the held attaches starts. -/
theorem Housed.start_held {p : Nat} {rest : List Nat} (housed : Housed g (p :: rest))
    (none : g.closings = []) : Housed (g.start p Option.none false) rest := by
  obtain ⟨free, nodup⟩ := List.nodup_cons.1 housed.nodup
  refine ⟨nodup, fun q mem => ?_, fun q low kind unstopped => ?_⟩
  · rw [start_kind]
    exact housed.attaches q (List.mem_cons_of_mem _ mem)
  · rw [start_kind] at kind
    rw [start_stopped] at unstopped
    have placed := housed.placed q low kind unstopped
    by_cases here : q = p
    · subst here
      have unserved : ∀ j, ¬ Serves g q j := by
        cases placed with
        | runs _ _ free => exact absurd (List.mem_cons_self ..) free
        | waits _ _ unserved => exact unserved
        | stops _ free => exact absurd (List.mem_cons_self ..) free
      refine .runs g.innerCount (mem_start_live.2 (.inr rfl)) free (fun c mem => ?_) ?_ fun j => ?_
      · have mem : c ∈ g.closings := mem
        rw [none] at mem
        cases mem
      · simp [Gate.start]
      · rw [serves_start]
        exact ⟨fun h => (h.resolve_right (unserved j)).1, fun new => .inl ⟨new, rfl⟩⟩
    · refine Placed.start_ne here ?_
      cases placed with
      | runs i live unheld unclosed inner once =>
          exact .runs i live (fun mem => unheld (List.mem_cons_of_mem _ mem)) unclosed inner once
      | waits mem idle unserved =>
          exact .waits ((List.mem_cons.1 mem).resolve_left here) idle unserved
      | stops live unheld closing unserved =>
          exact .stops live (fun mem => unheld (List.mem_cons_of_mem _ mem)) closing unserved

/-- A stopped one is skipped. -/
theorem Housed.skip {p : Nat} {rest : List Nat} (housed : Housed g (p :: rest))
    (stopped : (g.proxies p).stopped = true) : Housed g rest := by
  obtain ⟨-, nodup⟩ := List.nodup_cons.1 housed.nodup
  refine ⟨nodup, fun q mem => housed.attaches q (List.mem_cons_of_mem _ mem),
    fun q low kind unstopped => ?_⟩
  have off : q ≠ p := fun same => by
    rw [same, stopped] at unstopped
    cases unstopped
  cases housed.placed q low kind unstopped with
  | runs i live unheld unclosed inner once =>
      exact .runs i live (fun mem => unheld (List.mem_cons_of_mem _ mem)) unclosed inner once
  | waits mem idle unserved => exact .waits ((List.mem_cons.1 mem).resolve_left off) idle unserved
  | stops live unheld closing unserved =>
      exact .stops live (fun mem => unheld (List.mem_cons_of_mem _ mem)) closing unserved

/-! ## New proxies -/

theorem newProxy_old {kind : GatedKind} {q : Nat} (old : q < g.proxyCount) :
    (g.newProxy kind).proxies q = g.proxies q := by
  simp [Gate.newProxy, Nat.ne_of_lt old]

theorem newProxy_last (kind : GatedKind) :
    (g.newProxy kind).proxies g.proxyCount = ⟨kind, false, none⟩ := by
  simp [Gate.newProxy]

theorem Wired.newProxy (wired : Wired g) (kind : GatedKind) : Wired (g.newProxy kind) := by
  have count : (g.newProxy kind).proxyCount = g.proxyCount + 1 := rfl
  constructor
  · intro i low
    exact Nat.lt_succ_of_lt (wired.owner i low)
  · exact wired.prev
  · intro q low i own
    rcases Nat.lt_succ_iff_lt_or_eq.1 (count ▸ low) with old | rfl
    · rw [newProxy_old old] at own
      exact wired.inner q old i own
    · rw [newProxy_last] at own
      cases own
  · intro q mem
    exact Nat.lt_succ_of_lt (wired.live q mem)
  · intro account i there
    obtain ⟨old, run⟩ := wired.running account i there
    refine ⟨old, ?_⟩
    show ((g.newProxy kind).proxies (g.inners i).proxy).kind ≠ .attach
    rw [newProxy_old (wired.owner i old)]
    exact run
  · intro account q there
    obtain ⟨old, run⟩ := wired.runs account q there
    rw [newProxy_old old, count]
    exact ⟨Nat.lt_succ_of_lt old, run⟩

theorem Quiesced.newProxy (quiesced : Quiesced g) (kind : GatedKind) :
    Quiesced (g.newProxy kind) :=
  ⟨quiesced.holding, quiesced.closing, quiesced.ids, quiesced.below,
    fun c mem p proxy => Nat.lt_succ_of_lt (quiesced.members c mem p proxy), quiesced.stops,
    quiesced.covered, quiesced.closed⟩

theorem Placed.newProxy {kind : GatedKind} {q : Nat} (old : q < g.proxyCount)
    (placed : Placed g held q) : Placed (g.newProxy kind) held q := by
  cases placed with
  | runs i live free unclosed inner once =>
      exact .runs i live free unclosed (by rw [newProxy_old old]; exact inner) once
  | waits mem idle none => exact .waits mem idle none
  | stops live free closing none => exact .stops live free closing none

theorem Housed.newRun (housed : Housed g held) (account : String) :
    Housed (g.newProxy (.run account)) held := by
  refine ⟨housed.nodup, fun q mem => ?_, fun q low kind unstopped => ?_⟩
  · obtain ⟨old, kind⟩ := housed.attaches q mem
    rw [newProxy_old old]
    exact ⟨Nat.lt_succ_of_lt old, kind⟩
  · rcases Nat.lt_succ_iff_lt_or_eq.1 low with old | rfl
    · rw [newProxy_old old] at kind unstopped
      exact (housed.placed q old kind unstopped).newProxy old
    · rw [newProxy_last] at kind
      cases kind

/-- A new attach begins among the held ones. -/
theorem Housed.newAttach (housed : Housed g held) (wired : Wired g) :
    Housed (g.newProxy .attach) (g.proxyCount :: held) := by
  have fresh : g.proxyCount ∉ held := fun mem => Nat.lt_irrefl _ (housed.attaches _ mem).1
  refine ⟨List.nodup_cons.2 ⟨fresh, housed.nodup⟩, fun q mem => ?_, fun q low kind unstopped => ?_⟩
  · rcases List.mem_cons.1 mem with rfl | old
    · rw [newProxy_last]
      exact ⟨Nat.lt_succ_self _, rfl⟩
    · obtain ⟨inside, kind⟩ := housed.attaches q old
      rw [newProxy_old inside]
      exact ⟨Nat.lt_succ_of_lt inside, kind⟩
  · rcases Nat.lt_succ_iff_lt_or_eq.1 low with old | rfl
    · rw [newProxy_old old] at kind unstopped
      refine (Placed.newProxy old ?_ : Placed (g.newProxy .attach) _ q)
      have off : q ≠ g.proxyCount := Nat.ne_of_lt old
      cases housed.placed q old kind unstopped with
      | runs i live free unclosed inner once =>
          exact .runs i live (fun mem => (List.mem_cons.1 mem).elim off free) unclosed inner once
      | waits mem idle none => exact .waits (List.mem_cons_of_mem _ mem) idle none
      | stops live free closing none =>
          exact .stops live (fun mem => (List.mem_cons.1 mem).elim off free) closing none
    · exact .waits (List.mem_cons_self ..) (fun live => Nat.lt_irrefl _ (wired.live _ live))
        fun j serves => Nat.lt_irrefl _ (serves.2.1 ▸ wired.owner j serves.1)

theorem Housed.perm {held' : List Nat} (housed : Housed g held) (perm : held.Perm held') :
    Housed g held' := by
  refine ⟨perm.nodup_iff.1 housed.nodup, fun q mem => housed.attaches q (perm.mem_iff.2 mem),
    fun q low kind unstopped => ?_⟩
  cases housed.placed q low kind unstopped with
  | runs i live free unclosed inner once =>
      exact .runs i live (mt perm.mem_iff.2 free) unclosed inner once
  | waits mem idle none => exact .waits (perm.mem_iff.1 mem) idle none
  | stops live free closing none => exact .stops live (mt perm.mem_iff.2 free) closing none

/-! ## Each operation -/

structure Kept (g : Gate) : Prop where
  wired : Wired g
  quiesced : Quiesced g
  housed : Housed g g.held

theorem Kept.attach (kept : Kept g) : Kept g.attach := by
  have wired := kept.wired.newProxy .attach
  have quiesced := kept.quiesced.newProxy .attach
  have housed := kept.housed.newAttach kept.wired
  simp only [Gate.attach]
  split
  · have moved := housed.perm (List.perm_append_singleton g.proxyCount g.held).symm
    exact ⟨⟨wired.owner, wired.prev, wired.inner, wired.live, wired.running, wired.runs⟩,
      ⟨quiesced.holding, quiesced.closing, quiesced.ids, quiesced.below, quiesced.members, quiesced.stops,
        quiesced.covered, quiesced.closed⟩,
      moved.alike ⟨rfl, rfl, rfl, rfl, rfl, rfl⟩⟩
  · rename_i free
    simp only [Bool.or_eq_true, not_or, Bool.not_eq_true] at free
    exact ⟨wired.start (Nat.lt_succ_self _) fun _ none => (nomatch none),
      quiesced.start free.1 _ _ _, housed.start_held (kept.quiesced.unheld free.1).1⟩

theorem Kept.start_run (kept : Kept g) (unheld : g.holding = false) {p : Nat}
    (inside : p < g.proxyCount) (run : (g.proxies p).kind ≠ .attach) {prev : Option Nat}
    {finished : Bool} (before : ∀ j, prev = some j → j < g.innerCount ∧
      (finished = true → (g.inners j).finished = true)) : Kept (g.start p prev finished) :=
  ⟨kept.wired.start inside before, kept.quiesced.start unheld p prev finished,
    kept.housed.start_run run prev finished⟩

theorem Kept.stopInners (kept : Kept g) {is : List Nat} (others : ∀ p < g.proxyCount,
      (g.proxies p).kind = .attach → (g.proxies p).stopped = false → ∀ i ∈ is, ¬ Serves g p i) :
    Kept (g.stopInners is) := by
  refine ⟨kept.wired.stopInners is, kept.quiesced.stopInners is, ?_⟩
  have fields := Gate.stopInners_eq is g
  have same : (g.stopInners is).held = g.held := by rw [fields]
  rw [same]
  refine ⟨kept.housed.nodup, ?_, ?_⟩
  · rw [fields]
    exact kept.housed.attaches
  · intro p low kind unstopped
    rw [fields] at low kind unstopped
    exact (kept.housed.placed p low kind unstopped).stopInners (others p low kind unstopped)

/-- The engine's map names the loop of a pull. -/
theorem Kept.setRunning (kept : Kept g) {i : Nat} (low : i < g.innerCount)
    (run : (g.proxies (g.inners i).proxy).kind ≠ .attach) (account : String) :
    Kept { g with running := Function.update g.running account (some i) } := by
  refine ⟨⟨kept.wired.owner, kept.wired.prev, kept.wired.inner, kept.wired.live, ?_,
    kept.wired.runs⟩, ⟨kept.quiesced.holding, kept.quiesced.closing, kept.quiesced.ids,
    kept.quiesced.below, kept.quiesced.members, kept.quiesced.stops, kept.quiesced.covered, kept.quiesced.closed⟩,
    kept.housed.alike ⟨rfl, rfl, rfl, rfl, rfl, rfl⟩⟩
  intro account' j there
  by_cases same : account' = account
  · subst same
    obtain rfl : i = j := by simpa using there
    exact ⟨low, run⟩
  · have there : g.running account' = some j := by simpa [same] using there
    exact kept.wired.running account' j there

theorem start_last (p : Nat) (prev : Option Nat) (finished : Bool) :
    ((g.start p prev finished).inners g.innerCount).proxy = p := by
  simp [Gate.start]

theorem Kept.engineRun (kept : Kept g) (unheld : g.holding = false) {p : Nat}
    (inside : p < g.proxyCount) (run : (g.proxies p).kind ≠ .attach) (account : String)
    (how : Gate.EngineRun) : Kept (g.engineRun p account how) := by
  have last : ∀ prev finished, ((g.start p prev finished).proxies
      ((g.start p prev finished).inners g.innerCount).proxy).kind ≠ .attach := fun prev finished => by
    rw [start_last, start_kind]
    exact run
  cases how with
  | loop =>
      simp only [Gate.engineRun]
      cases prev : g.running account with
      | none =>
          have started : Kept (g.start p none false) :=
            kept.start_run unheld inside run fun _ none => (nomatch none)
          exact started.setRunning (Nat.lt_succ_self _) (last none false) account
      | some i =>
          -- The loop it replaces is told to stop; no attach is served by it.
          obtain ⟨low, kind⟩ := kept.wired.running account i prev
          have stopped : Kept (g.stopInners [i]) := kept.stopInners fun q _ attach _ j mem serves => by
            obtain rfl := List.mem_singleton.1 mem
            rw [serves.2.1] at kind
            exact kind attach
          have started : Kept ((g.stopInners [i]).start p (some i) false) :=
            stopped.start_run unheld inside run
              fun j same => ⟨Option.some.inj same ▸ low, fun no => nomatch no⟩
          refine started.setRunning (i := g.innerCount) (Nat.lt_succ_self _) ?_ account
          rw [show g.innerCount = (g.stopInners [i]).innerCount from rfl, start_last, start_kind]
          exact run
  | refused => exact kept.start_run unheld inside run fun _ none => (nomatch none)
  | noSource =>
      have started : Kept (g.start p none true) :=
        kept.start_run unheld inside run fun _ none => (nomatch none)
      exact started.setRunning (Nat.lt_succ_self _) (last none true) account

/-- Proxies that are no attach, or that were stopped, leave the live set. -/
theorem Kept.drop (kept : Kept g) {p : Nat} (unneeded : (g.proxies p).kind ≠ .attach ∨
      (g.proxies p).stopped = true) : Kept { g with live := g.live.filter (· ≠ p) } := by
  refine ⟨⟨kept.wired.owner, kept.wired.prev, kept.wired.inner,
    fun q mem => kept.wired.live q (List.mem_of_mem_filter mem), kept.wired.running,
    kept.wired.runs⟩, ⟨kept.quiesced.holding, kept.quiesced.closing, kept.quiesced.ids,
    kept.quiesced.below, kept.quiesced.members, kept.quiesced.stops, kept.quiesced.covered, kept.quiesced.closed⟩,
    ⟨kept.housed.nodup, kept.housed.attaches, fun q low kind unstopped => ?_⟩⟩
  have off : q ≠ p := fun same => by
    subst same
    rcases unneeded with run | stopped
    · exact run kind
    · exact absurd (stopped.symm.trans unstopped) Bool.noConfusion
  have mem : q ∈ g.live.filter (· ≠ p) ↔ q ∈ g.live := by simp [off]
  cases kept.housed.placed q low kind unstopped with
  | runs i live free unclosed inner once => exact .runs i (mem.2 live) free unclosed inner once
  | waits held idle none => exact .waits held (fun live => idle (mem.1 live)) none
  | stops live free closing none => exact .stops (mem.2 live) free closing none

theorem Kept.setRuns (kept : Kept g) {p : Nat} (inside : p < g.proxyCount)
    (run : (g.proxies p).kind ≠ .attach) (account : String) :
    Kept { g with runs := Function.update g.runs account (some p) } := by
  refine ⟨⟨kept.wired.owner, kept.wired.prev, kept.wired.inner, kept.wired.live,
    kept.wired.running, ?_⟩, ⟨kept.quiesced.holding, kept.quiesced.closing, kept.quiesced.ids,
    kept.quiesced.below, kept.quiesced.members, kept.quiesced.stops, kept.quiesced.covered, kept.quiesced.closed⟩,
    kept.housed.alike ⟨rfl, rfl, rfl, rfl, rfl, rfl⟩⟩
  intro account' q there
  by_cases same : account' = account
  · subst same
    obtain rfl : p = q := by simpa using there
    exact ⟨inside, run⟩
  · have there : g.runs account' = some q := by simpa [same] using there
    exact kept.wired.runs account' q there

theorem Kept.run (kept : Kept g) (account : String) (how : Gate.EngineRun) :
    Kept (g.run account how) := by
  have made : Kept (g.newProxy (.run account)) :=
    ⟨kept.wired.newProxy _, kept.quiesced.newProxy _, kept.housed.newRun account⟩
  have inside : g.proxyCount < (g.newProxy (.run account)).proxyCount := Nat.lt_succ_self _
  have kind : ((g.newProxy (.run account)).proxies g.proxyCount).kind ≠ .attach := by
    rw [newProxy_last]
    exact nofun
  simp only [Gate.run]
  split
  · exact made
  · rename_i allowed
    simp only [Bool.or_eq_true, not_or, Bool.not_eq_true] at allowed
    split
    · exact made
    · cases prev : g.runs account with
      | none => exact (made.setRuns inside kind account).engineRun allowed.1 inside kind account how
      | some q =>
          have run := (made.wired.runs account q prev).2
          exact ((made.drop (.inl run)).setRuns inside kind account).engineRun allowed.1 inside kind
            account how

/-- A stopped proxy needs nothing more. -/
theorem Kept.mark (kept : Kept g) (p : Nat) :
    Kept { g with proxies := Function.update g.proxies p { g.proxies p with stopped := true } } := by
  have kind : ∀ q, (Function.update g.proxies p { g.proxies p with stopped := true } q).kind =
      (g.proxies q).kind := fun q => by
    by_cases here : q = p
    · subst here
      simp
    · simp [here]
  have inner : ∀ q, (Function.update g.proxies p { g.proxies p with stopped := true } q).inner =
      (g.proxies q).inner := fun q => by
    by_cases here : q = p
    · subst here
      simp
    · simp [here]
  refine ⟨⟨kept.wired.owner, kept.wired.prev, fun q low i own => ?_, kept.wired.live,
    fun account i there => ?_, fun account q there => ?_⟩,
    ⟨kept.quiesced.holding, kept.quiesced.closing, kept.quiesced.ids, kept.quiesced.below,
      kept.quiesced.members, kept.quiesced.stops, kept.quiesced.covered, kept.quiesced.closed⟩,
    ⟨kept.housed.nodup, fun q mem => ?_, fun q low attach unstopped => ?_⟩⟩
  · exact kept.wired.inner q low i ((inner q).symm.trans own)
  · obtain ⟨low, run⟩ := kept.wired.running account i there
    exact ⟨low, fun attach => run ((kind _).symm.trans attach)⟩
  · obtain ⟨low, run⟩ := kept.wired.runs account q there
    exact ⟨low, fun attach => run ((kind _).symm.trans attach)⟩
  · obtain ⟨low, attach⟩ := kept.housed.attaches q mem
    exact ⟨low, (kind q).trans attach⟩
  · have off : q ≠ p := fun same => by
      subst same
      simp at unstopped
    have unstopped : (g.proxies q).stopped = false := by simpa [off] using unstopped
    cases kept.housed.placed q low ((kind q).symm.trans attach) unstopped with
    | runs i live free unclosed own once =>
        exact .runs i live free unclosed ((inner q).trans own) once
    | waits held idle none => exact .waits held idle none
    | stops live free closing none => exact .stops live free closing none

theorem Kept.stop (kept : Kept g) {p : Nat} (inside : p < g.proxyCount) : Kept (g.stop p) := by
  have marked := kept.mark p
  have dropped := marked.drop (p := p) (.inr (by simp))
  simp only [Gate.stop]
  split
  · rename_i i own
    rw [Gate.stopInner_eq]
    refine dropped.stopInners fun q _ _ unstopped j mem serves => ?_
    obtain rfl := List.mem_singleton.1 mem
    -- What it stops serves the proxy itself.
    obtain rfl : p = q := (kept.wired.inner p inside _ own).2.symm.trans serves.2.1
    simp at unstopped
  · exact dropped

theorem Kept.finished (kept : Kept g) {i : Nat} (inside : i < g.innerCount)
    (after : ((g.inners i).prev.all fun j => (g.inners j).finished) = true) :
    Kept { g with inners := Function.update g.inners i { g.inners i with finished := true } } := by
  have same : ∀ j, (Function.update g.inners i { g.inners i with finished := true } j) =
      { g.inners j with finished := (g.inners j).finished || decide (j = i) } := fun j => by
    by_cases here : j = i
    · subst here
      simp
    · simp [here]
  refine ⟨⟨fun j low => ?_, fun j low k before => ?_, fun q low j own => ?_, kept.wired.live,
    fun account j there => ?_, kept.wired.runs⟩, ⟨kept.quiesced.holding, kept.quiesced.closing,
    kept.quiesced.ids, kept.quiesced.below, kept.quiesced.members, kept.quiesced.stops,
    fun c mem j low active => ?_, fun closed => ?_⟩, ⟨kept.housed.nodup, kept.housed.attaches,
    fun q low kind unstopped => ?_⟩⟩
  · simp only [same]
    exact kept.wired.owner j low
  · simp only [same] at before ⊢
    obtain ⟨lower, follows⟩ := kept.wired.prev j low k before
    refine ⟨lower, fun finished => ?_⟩
    simp only [Bool.or_eq_true, decide_eq_true_eq] at finished ⊢
    rcases finished with finished | rfl
    · exact .inl (follows finished)
    · rw [before] at after
      exact .inl (by simpa using after)
  · simp only [same]
    exact kept.wired.inner q low j own
  · simp only [same]
    exact kept.wired.running account j there
  · simp only [same, Bool.or_eq_false_iff] at active
    obtain ⟨y, stopped, awaits⟩ := kept.quiesced.covered c mem j low active.1
    refine ⟨y, stopped, awaits.congr fun k => ?_⟩
    simp only [prevOf, same]
  · obtain ⟨holding, all⟩ := kept.quiesced.closed closed
    refine ⟨holding, fun j low => ?_⟩
    simp only [same, all j low, Bool.true_or]
  · have serves : ∀ j, Serves { g with
        inners := Function.update g.inners i { g.inners i with finished := true } } q j ↔
        Serves g q j := fun j => by simp only [Serves, same]
    cases kept.housed.placed q low kind unstopped with
    | runs j live free unclosed own once =>
        exact .runs j live free unclosed own fun k => (serves k).trans (once k)
    | waits held idle none => exact .waits held idle fun k => mt (serves k).1 (none k)
    | stops live free closing none => exact .stops live free closing fun k => mt (serves k).1 (none k)

/-! ## Holds -/

/-- Each loop that is not over belongs to a live proxy, or its account's newer loop waits
for it; and an `attachHeld` does not go on under a newer hold. -/
def Orderly (g : Gate) : GateAct → Prop
  | .closeWriter => ∀ i < g.innerCount, (g.inners i).finished = false →
      ∃ p ∈ g.live, ∃ y, (g.proxies p).inner = some y ∧ Awaits (prevOf g.inners) y i
  | .attachResume => g.holding = true →
      g.roles.readOnly = true ∨ ∀ p ∈ g.held, (g.proxies p).stopped = true
  | _ => True

theorem Kept.closeWriter (kept : Kept g) (orderly : Orderly g .closeWriter) :
    Kept g.closeWriter := by
  let stops := g.live.filterMap fun p => (g.proxies p).inner
  have wired := kept.wired.stopInners stops
  have quiesced := kept.quiesced.stopInners stops
  have fields := Gate.stopInners_eq stops g
  have closings : (g.stopInners stops).closings = g.closings := by rw [fields]
  have mem_stops : ∀ {y}, y ∈ stops ↔ ∃ p ∈ g.live, (g.proxies p).inner = some y :=
    List.mem_filterMap
  refine ⟨⟨wired.owner, wired.prev, wired.inner, wired.live, wired.running, wired.runs⟩, ?_, ?_⟩
  · constructor
    · exact fun _ => rfl
    · show some g.closeCount = (g.closings ++ [_]).getLast?.map Closing.id
      rw [List.getLast?_append_cons]
      rfl
    · show ((g.closings ++ [_]).map Closing.id).Nodup
      rw [List.map_append, List.nodup_append]
      refine ⟨kept.quiesced.ids, List.nodup_singleton _, fun id mem id' last => ?_⟩
      obtain ⟨c, there, rfl⟩ := List.mem_map.1 mem
      rw [List.mem_singleton.1 last]
      exact Nat.ne_of_lt (kept.quiesced.below c there)
    · intro c mem
      rcases List.mem_append.1 mem with old | new
      · exact Nat.lt_succ_of_lt (kept.quiesced.below c old)
      · rw [List.mem_singleton.1 new]
        exact Nat.lt_succ_self _
    · intro c mem p proxy
      have count : (g.stopInners stops).proxyCount = g.proxyCount := by rw [fields]
      show p < (g.stopInners stops).proxyCount
      rw [count]
      rcases List.mem_append.1 mem with old | new
      · exact kept.quiesced.members c old p proxy
      · rw [List.mem_singleton.1 new] at proxy
        exact kept.wired.live p proxy
    · intro c mem y stopped
      rcases List.mem_append.1 mem with old | new
      · exact quiesced.stops c (closings ▸ old) y stopped
      · rw [List.mem_singleton.1 new] at stopped
        obtain ⟨p, live, own⟩ := mem_stops.1 stopped
        show y < (g.stopInners stops).innerCount
        rw [fields]
        exact (kept.wired.inner p (kept.wired.live p live) y own).1
    · intro c mem i low active
      rcases List.mem_append.1 mem with old | new
      · exact quiesced.covered c (closings ▸ old) i low active
      · rw [List.mem_singleton.1 new]
        have low : i < (g.stopInners stops).innerCount := low
        have active : ((g.stopInners stops).inners i).finished = false := active
        rw [fields] at low active
        obtain ⟨p, live, y, own, awaits⟩ := orderly i low active
        refine ⟨y, mem_stops.2 ⟨p, live, own⟩, ?_⟩
        show Awaits (prevOf (g.stopInners stops).inners) y i
        rw [fields]
        exact awaits.congr fun _ => rfl
    · exact fun closed => ⟨rfl, (quiesced.closed closed).2⟩
  · have held : g.closeWriter.held = g.held := by
      show (g.stopInners stops).held = _
      rw [fields]
    have proxies : g.closeWriter.proxies = g.proxies := by
      show (g.stopInners stops).proxies = _
      rw [fields]
    have live : g.closeWriter.live = g.live := by
      show (g.stopInners stops).live = _
      rw [fields]
    have count : g.closeWriter.proxyCount = g.proxyCount := by
      show (g.stopInners stops).proxyCount = _
      rw [fields]
    have serves : ∀ p j, Serves g.closeWriter p j ↔ Serves g p j ∧ j ∉ stops := fun p j =>
      serves_stopInners
    refine ⟨held ▸ kept.housed.nodup, fun p mem => ?_, fun p low kind unstopped => ?_⟩
    · rw [held] at mem
      rw [proxies, count]
      exact kept.housed.attaches p mem
    · rw [proxies] at kind unstopped
      rw [count] at low
      rw [held]
      cases kept.housed.placed p low kind unstopped with
      | runs i there free unclosed own once =>
          -- Its inner is one of those the closing stops.
          refine .stops (live ▸ there) free ⟨_, List.mem_append_right _ (List.mem_singleton.2 rfl),
            there⟩ fun j serving => ?_
          obtain ⟨before, unstopped⟩ := (serves p j).1 serving
          obtain rfl := (once j).1 before
          exact unstopped (mem_stops.2 ⟨p, there, own⟩)
      | waits mem idle none =>
          exact .waits mem (live ▸ idle) fun j serving => none j ((serves p j).1 serving).1
      | stops there free closing none =>
          obtain ⟨c, mem, proxy⟩ := closing
          exact .stops (live ▸ there) free ⟨c, List.mem_append_left _ (closings.symm ▸ mem), proxy⟩
            fun j serving => none j ((serves p j).1 serving).1

theorem settle_proxy (p q : Nat) : (g.settle p).proxies q =
    { g.proxies q with inner := if q = p then none else (g.proxies q).inner } := by
  by_cases here : q = p
  · subst here
    simp [Gate.settle]
  · simp [Gate.settle, here]

theorem mem_settle_live {p q : Nat} : q ∈ (g.settle p).live ↔ q ∈ g.live ∧ q ≠ p := by
  simp [Gate.settle]

/-- One proxy of a closing, whose inner was stopped: an attach goes back to the held. -/
theorem Kept.settle (kept : Kept g) {p : Nat} (inside : p < g.proxyCount)
    (unserved : (g.proxies p).kind = .attach → (g.proxies p).stopped = false →
      ∀ j, ¬ Serves g p j) : Kept (g.settle p) := by
  refine ⟨⟨kept.wired.owner, kept.wired.prev, fun q low i own => ?_,
    fun q mem => kept.wired.live q (mem_settle_live.1 mem).1, fun account i there => ?_,
    fun account q there => ?_⟩, ⟨kept.quiesced.holding, kept.quiesced.closing, kept.quiesced.ids,
    kept.quiesced.below, kept.quiesced.members, kept.quiesced.stops, kept.quiesced.covered,
    kept.quiesced.closed⟩, ?_⟩
  · rw [settle_proxy] at own
    by_cases here : q = p
    · simp [here] at own
    · exact kept.wired.inner q low i (by simpa [here] using own)
  · rw [settle_proxy]
    exact kept.wired.running account i there
  · rw [settle_proxy]
    by_cases here : g.runs account = some p
    · simp [Gate.settle, here] at there
    · exact kept.wired.runs account q (by simpa [Gate.settle, here] using there)
  · -- Where the others are is untouched; `p` itself waits, when it is an attach not stopped.
    have others : ∀ held', (∀ q, q ≠ p → (q ∈ held' ↔ q ∈ g.held)) → ∀ q < g.proxyCount, q ≠ p →
        (g.proxies q).kind = .attach → (g.proxies q).stopped = false →
        Placed (g.settle p) held' q := by
      intro held' same q low off kind unstopped
      cases kept.housed.placed q low kind unstopped with
      | runs i live free unclosed own once =>
          refine .runs i (mem_settle_live.2 ⟨live, off⟩) (mt (same q off).1 free) unclosed ?_ once
          rw [settle_proxy]
          simpa [off] using own
      | waits mem idle none =>
          exact .waits ((same q off).2 mem) (fun live => idle (mem_settle_live.1 live).1) none
      | stops live free closing none =>
          exact .stops (mem_settle_live.2 ⟨live, off⟩) (mt (same q off).1 free) closing none
    have attaches : ∀ q ∈ g.held, q < g.proxyCount ∧ ((g.settle p).proxies q).kind = .attach :=
      fun q mem => by
        rw [settle_proxy]
        exact kept.housed.attaches q mem
    by_cases holds : (g.proxies p).kind = .attach ∧ (g.proxies p).stopped = false ∧ p ∉ g.held
    · have held : (g.settle p).held = g.held ++ [p] := if_pos holds
      rw [held]
      refine ⟨?_, fun q mem => ?_, fun q low kind unstopped => ?_⟩
      · rw [List.nodup_append]
        refine ⟨kept.housed.nodup, List.nodup_singleton _, fun q mem q' last same => ?_⟩
        rw [same, List.mem_singleton.1 last] at mem
        exact holds.2.2 mem
      · rcases List.mem_append.1 mem with old | new
        · exact attaches q old
        · rw [List.mem_singleton.1 new, settle_proxy]
          exact ⟨inside, holds.1⟩
      · rw [settle_proxy] at kind unstopped
        by_cases here : q = p
        · subst here
          exact .waits (List.mem_append_right _ (List.mem_singleton.2 rfl))
            (fun live => (mem_settle_live.1 live).2 rfl) (unserved kind unstopped)
        · exact others _ (fun q off => by simp [off]) q low here kind unstopped
    · have held : (g.settle p).held = g.held := if_neg holds
      rw [held]
      refine ⟨kept.housed.nodup, attaches, fun q low kind unstopped => ?_⟩
      rw [settle_proxy] at kind unstopped
      by_cases here : q = p
      · subst here
        have mem : q ∈ g.held := by
          by_contra free
          exact holds ⟨kind, unstopped, free⟩
        exact .waits mem (fun live => (mem_settle_live.1 live).2 rfl) (unserved kind unstopped)
      · exact others _ (fun q _ => Iff.rfl) q low here kind unstopped

/-- What the proxies of a closing leave alone when they are settled. -/
structure AfterSettle (g g' : Gate) (ps : List Nat) : Prop where
  closings : g'.closings = g.closings
  closing : g'.closing = g.closing
  holding : g'.holding = g.holding
  inners : g'.inners = g.inners
  innerCount : g'.innerCount = g.innerCount
  live : ∀ q ∈ g'.live, q ∈ g.live ∧ q ∉ ps

theorem settle_all : (ps : List Nat) → {g : Gate} → Kept g → (∀ p ∈ ps, p < g.proxyCount ∧
      ((g.proxies p).kind = .attach → (g.proxies p).stopped = false → ∀ j, ¬ Serves g p j)) →
    Kept (ps.foldl Gate.settle g) ∧ AfterSettle g (ps.foldl Gate.settle g) ps
  | [], g, kept, _ => ⟨kept, rfl, rfl, rfl, rfl, rfl, fun _ mem => ⟨mem, List.not_mem_nil⟩⟩
  | p :: ps, g, kept, fit => by
      obtain ⟨inside, unserved⟩ := fit p (List.mem_cons_self ..)
      obtain ⟨kept', after⟩ := settle_all ps (kept.settle inside unserved) fun q mem => by
        rw [settle_proxy]
        exact fit q (List.mem_cons_of_mem _ mem)
      refine ⟨kept', after.closings, after.closing, after.holding, after.inners, after.innerCount,
        fun q mem => ?_⟩
      obtain ⟨before, off⟩ := after.live q mem
      obtain ⟨live, ne⟩ := mem_settle_live.1 before
      exact ⟨live, fun there => (List.mem_cons.1 there).elim ne off⟩

/-- A closing ends: it is the oldest, and everything it waited for is over. -/
theorem Kept.closed (kept : Kept g) {k : Nat} {c : Closing} (there : g.closings[k]? = some c)
    (ready : g.ready c = true) (first : ((g.closings.take k).all fun c' => !g.ready c') = true) :
    Kept (g.endClosing c) := by
  have mem := List.mem_of_getElem? there
  have finished := kept.quiesced.all_over kept.wired mem ready
  have holding := kept.quiesced.holding (List.ne_nil_of_mem mem)
  -- Every closing has settled with it, so none comes before it.
  obtain ⟨rest, split⟩ : ∃ rest, g.closings = c :: rest := by
    cases k with
    | zero =>
        obtain ⟨rest, split⟩ := List.head?_eq_some_iff.1 (List.head?_eq_getElem? ▸ there)
        exact ⟨rest, split⟩
    | succ k =>
        cases split : g.closings with
        | nil =>
            rw [split] at mem
            cases mem
        | cons c' rest =>
            rw [split, List.take_succ_cons, List.all_cons, Bool.and_eq_true] at first
            have inside := kept.quiesced.stops c' (split ▸ List.mem_cons_self ..)
            have ready' : g.ready c' = true :=
              List.all_eq_true.2 fun y stopped => finished y (inside y stopped)
            rw [ready'] at first
            exact absurd first.1 Bool.false_ne_true
  obtain ⟨kept', after⟩ := settle_all c.proxies kept fun p proxy => by
    refine ⟨kept.quiesced.members c mem p proxy, fun kind unstopped => ?_⟩
    cases kept.housed.placed p (kept.quiesced.members c mem p proxy) kind unstopped with
    | runs _ _ _ unclosed => exact absurd proxy (unclosed c mem)
    | waits _ _ none => exact none
    | stops _ _ _ none => exact none
  have ids := kept.quiesced.ids
  rw [split, List.map_cons, List.nodup_cons] at ids
  have left : (g.closings.filter fun c' => c'.id ≠ c.id) = rest := by
    have others : ∀ c' ∈ rest, decide (c'.id ≠ c.id) = true := fun c' mem =>
      decide_eq_true fun same => ids.1 (same ▸ List.mem_map_of_mem mem)
    rw [split, List.filter_cons_of_neg (by simp)]
    exact List.filter_eq_self.2 others
  have sub : ∀ c' ∈ rest, c' ∈ (c.proxies.foldl Gate.settle g).closings := fun c' mem => by
    rw [after.closings, split]
    exact List.mem_cons_of_mem _ mem
  have closings : (g.endClosing c).closings = rest := left
  refine ⟨⟨kept'.wired.owner, kept'.wired.prev, kept'.wired.inner, kept'.wired.live,
    kept'.wired.running, kept'.wired.runs⟩, ?_, ?_⟩
  · constructor
    · exact fun _ => after.holding.trans holding
    · rw [closings]
      show (if g.closing = some c.id then none else g.closing) = _
      have current := kept.quiesced.closing
      rw [split] at current
      cases rest with
      | nil => exact if_pos current
      | cons c' rest =>
          rw [List.getLast?_cons_cons] at current
          rw [if_neg, current]
          rw [current]
          intro same
          obtain ⟨last, final, number⟩ := Option.map_eq_some_iff.1 same
          exact ids.1 (number ▸ List.mem_map_of_mem (List.mem_of_getLast? final))
    · rw [closings]
      exact ids.2
    · rw [closings]
      exact fun c' mem => kept'.quiesced.below c' (sub c' mem)
    · rw [closings]
      exact fun c' mem => kept'.quiesced.members c' (sub c' mem)
    · rw [closings]
      exact fun c' mem => kept'.quiesced.stops c' (sub c' mem)
    · rw [closings]
      exact fun c' mem => kept'.quiesced.covered c' (sub c' mem)
    · refine fun _ => ⟨after.holding.trans holding, fun i low => ?_⟩
      have low : i < (c.proxies.foldl Gate.settle g).innerCount := low
      show ((c.proxies.foldl Gate.settle g).inners i).finished = true
      rw [after.innerCount] at low
      rw [after.inners]
      exact finished i low
  · refine ⟨kept'.housed.nodup, kept'.housed.attaches, fun p low kind unstopped => ?_⟩
    cases kept'.housed.placed p low kind unstopped with
    | runs i live free unclosed own once =>
        exact .runs i live free (fun c' mem => unclosed c' (sub c' (closings ▸ mem))) own once
    | waits mem idle none => exact .waits mem idle none
    | stops live free closing none =>
        obtain ⟨c', mem', proxy⟩ := closing
        rw [after.closings, split] at mem'
        rcases List.mem_cons.1 mem' with rfl | later
        · exact absurd proxy (after.live p live).2
        · exact .stops live free ⟨c', closings.symm ▸ later, proxy⟩ none

theorem Kept.endHold (kept : Kept g) (none : g.closing = none) (attaches : Bool) :
    Kept (g.endHold attaches) := by
  have empty : g.closings = [] := by
    have current := kept.quiesced.closing
    rw [none, eq_comm, Option.map_eq_none_iff, List.getLast?_eq_none_iff] at current
    exact current
  refine ⟨⟨kept.wired.owner, kept.wired.prev, kept.wired.inner, kept.wired.live,
    kept.wired.running, kept.wired.runs⟩, ⟨fun some => absurd empty some, kept.quiesced.closing,
    kept.quiesced.ids, kept.quiesced.below, kept.quiesced.members, kept.quiesced.stops,
    kept.quiesced.covered, fun closed => nomatch closed⟩,
    kept.housed.alike ⟨rfl, rfl, rfl, rfl, rfl, rfl⟩⟩

theorem Kept.waiting (kept : Kept g) (waiters : List Waiter) : Kept { g with waiters } :=
  ⟨⟨kept.wired.owner, kept.wired.prev, kept.wired.inner, kept.wired.live, kept.wired.running,
    kept.wired.runs⟩, ⟨kept.quiesced.holding, kept.quiesced.closing, kept.quiesced.ids,
    kept.quiesced.below, kept.quiesced.members, kept.quiesced.stops, kept.quiesced.covered,
    kept.quiesced.closed⟩, kept.housed.alike ⟨rfl, rfl, rfl, rfl, rfl, rfl⟩⟩

/-- The held attaches start, outside a hold, or have all been stopped. -/
theorem startHeld_all : (ps : List Nat) → {g : Gate} → Wired g → Quiesced g → Housed g ps →
    (g.holding = false ∨ ∀ p ∈ ps, (g.proxies p).stopped = true) →
    Wired (ps.foldl Gate.startHeld g) ∧ Quiesced (ps.foldl Gate.startHeld g) ∧
      Housed (ps.foldl Gate.startHeld g) [] ∧ (ps.foldl Gate.startHeld g).held = g.held
  | [], _, wired, quiesced, housed, _ => ⟨wired, quiesced, housed, rfl⟩
  | p :: ps, g, wired, quiesced, housed, free => by
      rw [List.foldl_cons]
      cases stopped : (g.proxies p).stopped with
      | true =>
          have same : g.startHeld p = g := by rw [Gate.startHeld, if_pos stopped]
          rw [same]
          exact startHeld_all ps wired quiesced (housed.skip stopped) <|
            free.imp_right fun all q mem => all q (List.mem_cons_of_mem _ mem)
      | false =>
          have same : g.startHeld p = g.start p none false := by
            rw [Gate.startHeld, if_neg (by rw [stopped]; exact Bool.false_ne_true)]
          have unheld : g.holding = false := free.resolve_right fun all => by
            have marked := all p (List.mem_cons_self ..)
            rw [stopped] at marked
            cases marked
          rw [same]
          exact startHeld_all ps
            (wired.start (housed.attaches p (List.mem_cons_self ..)).1 fun _ none => (nomatch none))
            (quiesced.start unheld p none false) (housed.start_held (quiesced.unheld unheld).1)
            (.inl unheld)

theorem Kept.attachResume (kept : Kept g) (orderly : Orderly g .attachResume) :
    Kept g.attachResume := by
  have resumed : Kept { g with attaching := g.attaching - 1 } :=
    ⟨⟨kept.wired.owner, kept.wired.prev, kept.wired.inner, kept.wired.live, kept.wired.running,
      kept.wired.runs⟩, ⟨kept.quiesced.holding, kept.quiesced.closing, kept.quiesced.ids,
      kept.quiesced.below, kept.quiesced.members, kept.quiesced.stops, kept.quiesced.covered,
      kept.quiesced.closed⟩, kept.housed.alike ⟨rfl, rfl, rfl, rfl, rfl, rfl⟩⟩
  simp only [Gate.attachResume]
  split
  · exact resumed
  · rename_i writable
    have free : g.holding = false ∨ ∀ p ∈ g.held, (g.proxies p).stopped = true := by
      cases holding : g.holding with
      | false => exact .inl rfl
      | true => exact .inr ((orderly holding).resolve_left writable)
    let emptied : Gate := { g with attaching := g.attaching - 1, held := [] }
    obtain ⟨wired, quiesced, housed, held⟩ := startHeld_all g.held (g := emptied)
      ⟨kept.wired.owner, kept.wired.prev, kept.wired.inner, kept.wired.live, kept.wired.running,
        kept.wired.runs⟩ ⟨kept.quiesced.holding, kept.quiesced.closing, kept.quiesced.ids,
        kept.quiesced.below, kept.quiesced.members, kept.quiesced.stops, kept.quiesced.covered,
        kept.quiesced.closed⟩ (kept.housed.alike ⟨rfl, rfl, rfl, rfl, rfl, rfl⟩) free
    exact ⟨wired, quiesced, held.symm ▸ housed⟩

theorem Kept.step {g' : Gate} {a : GateAct} (kept : Kept g) (orderly : Orderly g a)
    (stepped : gateStep g a = some g') : Kept g' := by
  cases a with
  | role roles =>
      obtain rfl := Option.some.inj stepped
      exact ⟨⟨kept.wired.owner, kept.wired.prev, kept.wired.inner, kept.wired.live,
        kept.wired.running, kept.wired.runs⟩, ⟨kept.quiesced.holding, kept.quiesced.closing,
        kept.quiesced.ids, kept.quiesced.below, kept.quiesced.members, kept.quiesced.stops,
        kept.quiesced.covered, kept.quiesced.closed⟩,
        kept.housed.alike ⟨rfl, rfl, rfl, rfl, rfl, rfl⟩⟩
  | attach =>
      obtain rfl := Option.some.inj stepped
      exact kept.attach
  | run account how =>
      obtain rfl := Option.some.inj stepped
      exact kept.run account how
  | stop p =>
      simp only [gateStep] at stepped
      split at stepped
      · rename_i inside
        obtain rfl := Option.some.inj stepped
        exact kept.stop inside
      · cases stepped
  | finished i =>
      simp only [gateStep] at stepped
      split at stepped
      · rename_i ends
        obtain rfl := Option.some.inj stepped
        exact kept.finished ends.1 ends.2
      · cases stepped
  | closeWriter =>
      obtain rfl := Option.some.inj stepped
      exact kept.closeWriter orderly
  | closed k =>
      simp only [gateStep] at stepped
      split at stepped
      · rename_i c there
        split at stepped
        · rename_i ends
          obtain rfl := Option.some.inj stepped
          exact kept.closed there ends.1 ends.2
        · cases stepped
      · cases stepped
  | release attaches =>
      simp only [gateStep] at stepped
      split at stepped
      · rename_i none
        obtain rfl := Option.some.inj stepped
        exact kept.endHold none attaches
      · obtain rfl := Option.some.inj stepped
        exact kept.waiting _
  | resume k =>
      simp only [gateStep] at stepped
      split at stepped
      · split at stepped
        · cases stepped
        · split at stepped
          · rename_i none
            obtain rfl := Option.some.inj stepped
            exact (kept.waiting (g.waiters.eraseIdx k)).endHold none _
          · obtain rfl := Option.some.inj stepped
            exact kept.waiting _
      · cases stepped
  | attachResume =>
      simp only [gateStep] at stepped
      split at stepped
      · obtain rfl := Option.some.inj stepped
        exact kept.attachResume orderly
      · cases stepped

theorem kept_initial (roles : Roles) : Kept (Gate.initial roles) := by
  refine ⟨⟨?_, ?_, ?_, ?_, ?_, ?_⟩, ⟨?_, rfl, List.nodup_nil, ?_, ?_, ?_, ?_, ?_⟩,
    ⟨List.nodup_nil, ?_, ?_⟩⟩ <;> simp [Gate.initial]

/-- **The gate loses no worker and starts none twice**, in every orderly run. -/
theorem gate_keeps_workers {roles : Roles} {acts : List GateAct} {g : Gate}
    (orderly : Along gateStep Orderly (Gate.initial roles) acts)
    (ran : runSteps gateStep (Gate.initial roles) acts = some g) :
    (g.closings = [] → ∀ p < g.proxyCount, (g.proxies p).kind = .attach →
      (g.proxies p).stopped = false →
        (p ∉ g.held ∧ ∃ i, ∀ j, Serves g p j ↔ j = i) ∨
          g.held.count p = 1 ∧ ∀ j, ¬ Serves g p j) ∧
      (g.closed = true → g.holding = true ∧ ∀ i < g.innerCount, (g.inners i).finished = true) := by
  have kept : Kept g := run_keeps (fun _ _ _ kept orderly stepped => kept.step orderly stepped)
    (kept_initial roles) orderly ran
  refine ⟨fun quiet p inside kind unstopped => ?_, kept.quiesced.closed⟩
  cases kept.housed.placed p inside kind unstopped with
  | runs i live free unclosed own once => exact .inl ⟨free, i, once⟩
  | waits mem idle none => exact .inr ⟨List.count_eq_one_of_mem kept.housed.nodup mem, none⟩
  | stops live free closing none =>
      obtain ⟨c, mem, -⟩ := closing
      rw [quiet] at mem
      cases mem

/-! ## Where it fails -/

def leading : Roles := ⟨false, fun _ => false, fun _ => false⟩

/-- **A close that does not wait**: a worker's handle is being stopped when the
writer closes, and the close resolves with the worker still active. -/
theorem stopping_handle_outlives_close :
    ∃ g, runSteps gateStep (Gate.initial leading) [.attach, .stop 0, .closeWriter, .closed 0] =
        some g ∧ g.closings = [] ∧ g.closed = true ∧ g.holding = true ∧
      0 < g.innerCount ∧ (g.inners 0).finished = false :=
  ⟨_, rfl, rfl, rfl, rfl, by decide, rfl⟩

/-- Two attaches; the second is stopped while a first close waits for both, and a
second close does not wait for it. -/
def closedTwice : List GateAct :=
  [.attach, .attach, .closeWriter, .stop 1, .closeWriter, .finished 0, .closed 1, .release true,
    .attachResume, .finished 1, .closed 0]

/-- **A worker both running and held**: it is started again between the ends of the
two closes, and the first of them then holds it. -/
theorem restarted_and_held :
    ∃ g, runSteps gateStep (Gate.initial leading) closedTwice = some g ∧ g.closings = [] ∧
      (g.proxies 0).kind = .attach ∧ (g.proxies 0).stopped = false ∧ Serves g 0 2 ∧ 0 ∈ g.held :=
  ⟨_, rfl, rfl, rfl, rfl, ⟨by decide, rfl, rfl⟩, List.mem_cons_self ..⟩

/-- A worker and a pull loop, closed and held. -/
def heldOnce : List GateAct :=
  [.attach, .run "a" .loop, .closeWriter, .finished 0, .finished 1, .closed 0]

theorem gate_keeps_workers_heldOnce :
    ∃ g, runSteps gateStep (Gate.initial leading) heldOnce = some g ∧
      ((0 ∉ g.held ∧ ∃ i, ∀ j, Serves g 0 j ↔ j = i) ∨ g.held.count 0 = 1 ∧ ∀ j, ¬ Serves g 0 j) ∧
      ∀ i < g.innerCount, (g.inners i).finished = true := by
  have orderly : Along gateStep Orderly (Gate.initial leading) heldOnce := by
    refine ⟨trivial, fun g₁ first => ⟨trivial, fun g₂ second => ⟨?_, fun g₃ _ => ⟨trivial, fun g₄ _ =>
      ⟨trivial, fun g₅ _ => ⟨trivial, fun _ _ => trivial⟩⟩⟩⟩⟩⟩
    -- Both loops belong to live proxies when the writer closes.
    obtain rfl := Option.some.inj first
    obtain rfl := Option.some.inj second
    intro i low _
    have low : i < 2 := low
    rcases Nat.lt_succ_iff_lt_or_eq.1 low with zero | rfl
    · obtain rfl := Nat.lt_one_iff.1 zero
      exact ⟨0, by decide, 0, rfl, .refl 0⟩
    · exact ⟨1, by decide, 1, rfl, .refl 1⟩
  have run : ∃ g, runSteps gateStep (Gate.initial leading) heldOnce = some g ∧ g.closings = [] ∧
      0 < g.proxyCount ∧ (g.proxies 0).kind = .attach ∧ (g.proxies 0).stopped = false ∧
      g.closed = true :=
    ⟨_, rfl, rfl, by decide, rfl, rfl, rfl⟩
  obtain ⟨g, ran, quiet, inside, kind, unstopped, closed⟩ := run
  obtain ⟨placed, finished⟩ := gate_keeps_workers orderly ran
  exact ⟨g, ran, placed quiet 0 inside kind unstopped, (finished closed).2⟩

end Kiagent.Sync.RoleGate
