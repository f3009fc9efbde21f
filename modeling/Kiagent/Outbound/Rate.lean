/-
# Outbound.Rate -- the rate rule of chat-mode sends

`fitsRate` looks at the windows that begin at a send.  It accepts a time exactly when every
hour that holds the time stays within the limit (`fitsRate_iff`), so sends that are each
admitted by it never fill an hour beyond the limit, whatever their order.

`admits` asks the outbox for the send times an hour around the candidate: what was sent, what
is scheduled, what is in flight.  A time further off shares no hour with the candidate.
-/
import Kiagent.Outbound.Outbox
import Kiagent.Theory.Runs
import Kiagent.Theory.Window

namespace Kiagent.Outbound

set_option autoImplicit false

open Kiagent.Theory

/-! ## The rule -/

def HOUR_MS : Int := 60 * 60000

def fitsRate (times : List Int) (t : Int) (limit : ℚ) : Bool :=
  let all := (times ++ [t]).insertionSort (· ≤ ·)
  all.all fun a =>
    decide (a > t) || decide (a ≤ t - HOUR_MS) ||
      decide (((all.filter fun x => decide (a ≤ x) && decide (x < a + HOUR_MS)).length : ℚ) ≤ limit)

/-- A config without a usable number has the default; `none` where `Number` makes no finite
number of it. -/
def sendsPerHourFor (sendsPerHour : Option ℚ) : ℚ :=
  match sendsPerHour with
  | some n => if 0 < n then n else 30
  | none => 30

variable {limit : ℚ} {times : List Int} {t : Int}

theorem sorted_perm (times : List Int) (t : Int) :
    ((times ++ [t]).insertionSort (· ≤ ·)).Perm (t :: times) :=
  (List.perm_insertionSort _ _).trans (List.perm_append_singleton t times)

/-- **Every hour that holds the candidate, wherever it begins.** -/
theorem fitsRate_eq_true : fitsRate times t limit = true ↔
    ∀ a, a ≤ t → t < a + HOUR_MS → (inWindow HOUR_MS a (t :: times) : ℚ) ≤ limit := by
  have same := sorted_perm times t
  have begun : fitsRate times t limit = true ↔ ∀ a ∈ t :: times, a ≤ t → t < a + HOUR_MS →
      (inWindow HOUR_MS a (t :: times) : ℚ) ≤ limit := by
    simp only [fitsRate, List.all_eq_true, same.mem_iff, Bool.or_eq_true, decide_eq_true_eq,
      ← List.countP_eq_length_filter]
    refine forall₂_congr fun a _ => ?_
    rw [← inWindow_perm same, inWindow]
    constructor
    · rintro ((late | early) | fits) upTo holds
      · omega
      · omega
      · exact fits
    · intro fits
      by_cases inside : a ≤ t ∧ t < a + HOUR_MS
      · exact .inr (fits inside.1 inside.2)
      · left
        omega
  rw [begun]
  constructor
  · intro fits a upTo holds
    obtain ⟨b, listed, later, before, fuller⟩ :=
      exists_fuller (w := HOUR_MS) (List.mem_cons_self (a := t) (l := times)) upTo
    calc (inWindow HOUR_MS a (t :: times) : ℚ)
        ≤ inWindow HOUR_MS b (t :: times) := by exact_mod_cast fuller
      _ ≤ limit := fits b listed before (by omega)
  · intro fits a _ upTo holds
    exact fits a upTo holds

/-- Beside times within the limit, a time fits when all of them together are within it. -/
theorem fitsRate_iff (within : WithinRate HOUR_MS limit times) :
    fitsRate times t limit = true ↔ WithinRate HOUR_MS limit (t :: times) := by
  rw [fitsRate_eq_true, withinRate_cons]
  exact ⟨fun fits => ⟨within, fits⟩, fun more => more.2⟩

/-- Sends one after the other, in any order of their times; one that does not fit is not made. -/
def sendAdmitted (limit : ℚ) (times : List Int) : List Int → List Int
  | [] => times
  | t :: ts =>
      if fitsRate times t limit then sendAdmitted limit (t :: times) ts
      else sendAdmitted limit times ts

theorem sendAdmitted_within (ts : List Int) (within : WithinRate HOUR_MS limit times) :
    WithinRate HOUR_MS limit (sendAdmitted limit times ts) := by
  induction ts generalizing times with
  | nil => exact within
  | cons t ts ih =>
      rw [sendAdmitted]
      split
      · next fits => exact ih ((fitsRate_iff within).1 fits)
      · exact ih within

/-! ## The send times of an outbox -/

/-- When a row is sent or is going to be. -/
def sendTimeOf (row : OutboxRow) : Option Int :=
  match row.status with
  | .sent => row.sentAt.map Int.ofNat
  | .draft | .sending => row.sendAt.map Int.ofNat
  | _ => none

def sendTimes (rows : List OutboxRow) (account : String) : List Int :=
  (rows.filter fun row => row.accountId = account).filterMap sendTimeOf

/-- Sent messages and scheduled drafts inside the bounds, and every send in flight. -/
def listSendTimes (rows : List OutboxRow) (account : String) (fromMs toMs now : Int)
    (exceptId : Option String) : List Int :=
  let bounded (ms : Option Int) : Option Int := ms.filter fun x => fromMs ≤ x ∧ x ≤ toMs
  let mine (row : OutboxRow) (status : OutboxStatus) : Bool :=
    row.accountId = account && row.status = status
  (rows.filterMap fun row =>
      if mine row .sent then bounded (row.sentAt.map Int.ofNat) else none) ++
    (rows.filterMap fun row =>
      if mine row .draft && some row.id ≠ exceptId then bounded (row.sendAt.map Int.ofNat)
      else none) ++
    rows.filterMap fun row =>
      if mine row .sending && some row.id ≠ exceptId then
        some ((row.sendAt.map Int.ofNat).getD now)
      else none

def admits (rows : List OutboxRow) (account : String) (limit : ℚ) (now t : Int)
    (exceptId : Option String) : Bool :=
  fitsRate (listSendTimes rows account (t - HOUR_MS) (t + HOUR_MS) now exceptId) t limit

theorem countP_le_three {α : Type} {p q r s : α → Bool} {l : List α}
    (covered : ∀ x ∈ l, p x = true → q x = true ∨ r x = true ∨ s x = true) :
    l.countP p ≤ l.countP q + l.countP r + l.countP s := by
  induction l with
  | nil => simp
  | cons x l ih =>
      have rest := ih fun y mem => covered y (List.mem_cons_of_mem _ mem)
      have this := covered x List.mem_cons_self
      simp only [List.countP_cons]
      split_ifs <;> first | omega | simp_all

theorem sendTimeOf_eq_some {row : OutboxRow} {x : Int} (time : sendTimeOf row = some x) :
    (row.status = .sent ∧ row.sentAt.map Int.ofNat = some x) ∨
      (row.status = .draft ∧ row.sendAt.map Int.ofNat = some x) ∨
      (row.status = .sending ∧ row.sendAt.map Int.ofNat = some x) := by
  rw [sendTimeOf] at time
  split at time
  · next status => exact .inl ⟨status, time⟩
  · next status => exact .inr (.inl ⟨status, time⟩)
  · next status => exact .inr (.inr ⟨status, time⟩)
  · cases time

/-- The other rows of an account, as `admits` counts them: none of an hour that holds the
candidate is missing. -/
theorem inWindow_listSendTimes {rows : List OutboxRow} {account id : String} {now a : Int}
    (upTo : a ≤ t) (holds : t < a + HOUR_MS) :
    inWindow HOUR_MS a (sendTimes (rows.filter fun row => row.id ≠ id) account) ≤
      inWindow HOUR_MS a
        (listSendTimes rows account (t - HOUR_MS) (t + HOUR_MS) now (some id)) := by
  simp only [inWindow, sendTimes, listSendTimes, List.countP_append, List.countP_filterMap,
    List.countP_filter]
  refine countP_le_three fun row _ counted => ?_
  obtain ⟨⟨inside, mine⟩, other⟩ : (((sendTimeOf row).map fun x =>
      decide (a ≤ x) && decide (x < a + HOUR_MS)).getD false = true ∧ row.accountId = account) ∧
      row.id ≠ id := by simpa using counted
  cases time : sendTimeOf row with
  | none => simp [time] at inside
  | some x =>
      obtain ⟨lo, hi⟩ : a ≤ x ∧ x < a + HOUR_MS := by simpa [time] using inside
      have near : t ≤ x + HOUR_MS ∧ x ≤ t + HOUR_MS := by omega
      rcases sendTimeOf_eq_some time with ⟨status, ms⟩ | ⟨status, ms⟩ | ⟨status, ms⟩
      · left
        simp [mine, status, ms, Option.filter_some, near, lo, hi]
      · right; left
        simp [mine, status, other, ms, Option.filter_some, near, lo, hi]
      · right; right
        simp [mine, status, other, ms, lo, hi]

/-- **What the outbox is asked for is enough**: an admitted time and the other rows' times
are within the limit together. -/
theorem admits_within {rows : List OutboxRow} {account id : String} {now : Int}
    (within : WithinRate HOUR_MS limit (sendTimes (rows.filter fun row => row.id ≠ id) account))
    (admitted : admits rows account limit now t (some id) = true) :
    WithinRate HOUR_MS limit (t :: sendTimes (rows.filter fun row => row.id ≠ id) account) := by
  refine withinRate_cons.2 ⟨within, fun a upTo holds => ?_⟩
  have fits := fitsRate_eq_true.1 admitted a upTo holds
  have fewer : inWindow HOUR_MS a (sendTimes (rows.filter fun row => row.id ≠ id) account) ≤
      inWindow HOUR_MS a
        (listSendTimes rows account (t - HOUR_MS) (t + HOUR_MS) now (some id)) :=
    inWindow_listSendTimes upTo holds
  rw [inWindow_cons] at fits ⊢
  exact le_trans (by exact_mod_cast Nat.add_le_add_right fewer _) fits

/-! ## Sends one after the other -/

/-- The rows by their primary key. -/
structure Outbox where
  rows : List OutboxRow
  unique : (rows.map (·.id)).Nodup

namespace Outbox

def find (o : Outbox) (id : String) : Option OutboxRow := o.rows.find? fun row => row.id = id

theorem map_put_id (rows : List OutboxRow) (row : OutboxRow) :
    (rows.map fun r => if r.id = row.id then row else r).map (·.id) = rows.map (·.id) := by
  rw [List.map_map]
  refine List.map_congr_left fun r _ => ?_
  simp only [Function.comp]
  split
  · next same => exact same.symm
  · rfl

def put (o : Outbox) (row : OutboxRow) : Outbox where
  rows := o.rows.map fun r => if r.id = row.id then row else r
  unique := by
    rw [map_put_id]
    exact o.unique

def insert (o : Outbox) (row : OutboxRow) (fresh : row.id ∉ o.rows.map (·.id)) : Outbox where
  rows := row :: o.rows
  unique := List.nodup_cons.2 ⟨fresh, o.unique⟩

def others (o : Outbox) (id : String) : List OutboxRow := o.rows.filter fun row => row.id ≠ id

theorem perm_put (rows : List OutboxRow) (unique : (rows.map (·.id)).Nodup) (row : OutboxRow)
    (here : row.id ∈ rows.map (·.id)) :
    (rows.map fun r => if r.id = row.id then row else r).Perm
      (row :: rows.filter fun r => r.id ≠ row.id) := by
  induction rows with
  | nil => cases here
  | cons r rows ih =>
      obtain ⟨fresh, rest⟩ := List.nodup_cons.1 unique
      by_cases same : r.id = row.id
      · have elsewhere : ∀ s ∈ rows, s.id ≠ row.id := by
          intro s mem clash
          exact fresh (List.mem_map.2 ⟨s, mem, clash.trans same.symm⟩)
        have kept : (rows.map fun s => if s.id = row.id then row else s) = rows := by
          refine (List.map_congr_left fun s mem => ?_).trans (List.map_id _)
          exact if_neg (elsewhere s mem)
        have all : (rows.filter fun s => s.id ≠ row.id) = rows :=
          List.filter_eq_self.2 fun s mem => by simpa using elsewhere s mem
        rw [List.map_cons, if_pos same, kept, List.filter_cons_of_neg (by simpa using same), all]
      · have found : row.id ∈ rows.map (·.id) := by
          rcases List.mem_cons.1 here with head | tail
          · exact absurd head.symm same
          · exact tail
        rw [List.map_cons, if_neg same, List.filter_cons_of_pos (by simpa using same)]
        exact ((ih rest found).cons r).trans (List.Perm.swap ..)

theorem mem_of_find {o : Outbox} {id : String} {row : OutboxRow} (found : o.find id = some row) :
    row ∈ o.rows ∧ row.id = id :=
  ⟨List.mem_of_find?_eq_some found, by simpa using List.find?_some found⟩

theorem perm_find {o : Outbox} {id : String} {row : OutboxRow} (found : o.find id = some row) :
    o.rows.Perm (row :: o.others row.id) := by
  obtain ⟨mem, -⟩ := mem_of_find found
  have same : (o.rows.map fun r => if r.id = row.id then row else r) = o.rows := by
    refine (List.map_congr_left fun r known => ?_).trans (List.map_id _)
    split
    · next clash => exact (List.inj_on_of_nodup_map o.unique known mem clash).symm
    · rfl
  have turned := perm_put o.rows o.unique row (List.mem_map_of_mem mem)
  rwa [same] at turned

end Outbox

theorem sendTimes_perm {rows more : List OutboxRow} (same : rows.Perm more) (account : String) :
    (sendTimes rows account).Perm (sendTimes more account) := (same.filter _).filterMap _

theorem sendTimes_cons (row : OutboxRow) (rows : List OutboxRow) (account : String) :
    sendTimes (row :: rows) account =
      (if row.accountId = account then (sendTimeOf row).toList else []) ++
        sendTimes rows account := by
  rw [sendTimes, sendTimes, List.filter_cons]
  by_cases mine : row.accountId = account
  · cases time : sendTimeOf row <;> simp [mine, time]
  · simp [mine]

/-- No hour of any account holds more sends than the account's limit. -/
def RateKept (limits : String → ℚ) (o : Outbox) : Prop :=
  ∀ account, WithinRate HOUR_MS (limits account) (sendTimes o.rows account)

section Step

variable {limits : String → ℚ} {o : Outbox} {id : String} {row next : OutboxRow}

theorem RateKept.others (kept : RateKept limits o) (id account : String) :
    WithinRate HOUR_MS (limits account) (sendTimes (o.others id) account) :=
  (kept account).sublist ((List.filter_sublist.filter _).filterMap _)

/-- A write keeps the limits where the row's time is gone, is as before, or was admitted. -/
theorem RateKept.put (kept : RateKept limits o) (found : o.find id = some row)
    (sameId : next.id = row.id) (sameAccount : next.accountId = row.accountId)
    (timed : ∀ x, sendTimeOf next = some x → sendTimeOf row = some x ∨
      WithinRate HOUR_MS (limits row.accountId)
        (x :: sendTimes (o.others row.id) row.accountId)) : RateKept limits (o.put next) := by
  intro account
  obtain ⟨mem, -⟩ := Outbox.mem_of_find found
  have here : next.id ∈ o.rows.map (·.id) := by
    rw [sameId]
    exact List.mem_map_of_mem mem
  have turned := sendTimes_perm (Outbox.perm_put o.rows o.unique next here) account
  refine (withinRate_perm turned).2 ?_
  rw [sendTimes_cons, sameId, sameAccount]
  by_cases mine : row.accountId = account
  · subst mine
    rw [if_pos rfl]
    cases time : sendTimeOf next with
    | none => exact kept.others row.id row.accountId
    | some x =>
        rcases timed x time with before | admitted
        · have whole := (withinRate_perm (sendTimes_perm (Outbox.perm_find found)
            row.accountId)).1 (kept row.accountId)
          rwa [sendTimes_cons, if_pos rfl, before] at whole
        · exact admitted
  · rw [if_neg mine]
    exact kept.others row.id account

end Step

/-- The statements that set no send time. -/
def Statement.timeless : Statement → Bool
  | .transition .. => false
  | .schedule sendAt _ => sendAt.isNone
  | _ => true

theorem Statement.apply_id {now : Nat} {row next : OutboxRow} {statement : Statement}
    (applied : statement.apply now row = some next) :
    next.id = row.id ∧ next.accountId = row.accountId := by
  cases statement <;> simp only [Statement.apply] at applied <;>
    first
    | (split at applied
       · cases applied
         exact ⟨rfl, rfl⟩
       · cases applied)
    | (cases applied
       exact ⟨rfl, rfl⟩)
    | (split at applied
       · cases applied
       · cases applied
         exact ⟨rfl, rfl⟩)

theorem Statement.apply_timeless {now : Nat} {row next : OutboxRow} {statement : Statement}
    (timeless : statement.timeless = true) (applied : statement.apply now row = some next) {x : Int}
    (timed : sendTimeOf next = some x) : sendTimeOf row = some x := by
  cases statement <;> simp only [Statement.apply] at applied
  case transition => cases timeless
  case fillSubject | writeMirror =>
    cases applied
    exact timed
  case setMirror =>
    split at applied
    · cases applied
    · cases applied
      exact timed
  case suggest =>
    split at applied
    · cases applied
      exact timed
    · cases applied
  case schedule sendAt note =>
    have cleared : sendAt = none := by simpa [Statement.timeless] using timeless
    split at applied
    · next status =>
      cases applied
      simp [sendTimeOf, status, cleared] at timed
    · cases applied
  -- The rest end the row's life or clear its schedule.
  all_goals
    split at applied
    · next guard =>
      cases applied
      simp [sendTimeOf, guard] at timed
    · cases applied

/-! ## Runs -/

inductive Act where
  /-- A new draft. -/
  | create (id : String) (draft : OutboxDraftInput)
  /-- `schedule_drafts` in chat mode: the schedule is stored if the rate rule admits it. -/
  | schedule (id : String) (ms now : Nat)
  /-- `send_draft`: sent now, if admitted. -/
  | send (id : String) (now : Nat)
  /-- The scheduler sends a due row. -/
  | dispatch (id : String) (now : Nat)
  /-- Any other statement. -/
  | write (id : String) (statement : Statement) (now : Nat)

/-- Taken, then sent. -/
def sendRow (now ms : Nat) (row : OutboxRow) : Option OutboxRow :=
  ((Statement.transition [.draft] .sending {}).apply now row).bind fun sending =>
    (Statement.transition [.sending] .sent { sentAt := some ms }).apply now sending

def step (limits : String → ℚ) (o : Outbox) : Act → Option Outbox
  | .create id draft =>
      if fresh : id ∉ o.rows.map (·.id) then some (o.insert (.create id draft) fresh) else none
  | .schedule id ms now => (o.find id).bind fun row =>
      if admits o.rows row.accountId (limits row.accountId) now ms (some id) then
        ((Statement.schedule (some ms) none).apply now row).map o.put
      else none
  | .send id now => (o.find id).bind fun row =>
      if admits o.rows row.accountId (limits row.accountId) now now (some id) then
        (sendRow now now row).map o.put
      else none
  | .dispatch id now => (o.find id).bind fun row =>
      row.sendAt.bind fun ms => (sendRow now ms row).map o.put
  | .write id statement now => (o.find id).bind fun row =>
      if statement.timeless then (statement.apply now row).map o.put else none

theorem sendRow_eq {now ms : Nat} {row next : OutboxRow} (sent : sendRow now ms row = some next) :
    row.status = .draft ∧ next.id = row.id ∧ next.accountId = row.accountId ∧
      sendTimeOf next = some (ms : Int) := by
  simp only [sendRow, Statement.apply, List.mem_singleton] at sent
  split at sent
  · next status =>
    simp only [Option.bind_some, if_true, Option.some.injEq] at sent
    subst sent
    exact ⟨status, rfl, rfl, rfl⟩
  · cases sent

section

variable {limits : String → ℚ} {o o' : Outbox}

theorem admits_others (kept : RateKept limits o) {id : String} {row : OutboxRow} {now t : Int}
    (found : o.find id = some row)
    (admitted : admits o.rows row.accountId (limits row.accountId) now t (some id) = true) :
    WithinRate HOUR_MS (limits row.accountId)
      (t :: sendTimes (o.others row.id) row.accountId) := by
  obtain ⟨-, rfl⟩ := Outbox.mem_of_find found
  exact admits_within (kept.others row.id row.accountId) admitted

theorem step_rateKept {a : Act} (kept : RateKept limits o) (took : step limits o a = some o') :
    RateKept limits o' := by
  cases a with
  | create id draft =>
      simp only [step] at took
      split at took
      · cases took
        intro account
        have plain : sendTimeOf (.create id draft) = none := rfl
        show WithinRate HOUR_MS (limits account) (sendTimes (.create id draft :: o.rows) account)
        rw [sendTimes_cons, plain, Option.toList_none, ite_self]
        exact kept account
      · cases took
  | schedule id ms now =>
      obtain ⟨row, found, took⟩ := Option.bind_eq_some_iff.1 took
      split at took
      · next admitted =>
        obtain ⟨next, applied, rfl⟩ := Option.map_eq_some_iff.1 took
        obtain ⟨sameId, sameAccount⟩ := Statement.apply_id applied
        refine kept.put found sameId sameAccount fun x timed => .inr ?_
        have time : x = (ms : Int) := by
          simp only [Statement.apply] at applied
          split at applied
          · next status =>
            cases applied
            simpa [sendTimeOf, status] using timed.symm
          · cases applied
        rw [time]
        exact admits_others kept found admitted
      · cases took
  | send id now =>
      obtain ⟨row, found, took⟩ := Option.bind_eq_some_iff.1 took
      split at took
      · next admitted =>
        obtain ⟨next, sent, rfl⟩ := Option.map_eq_some_iff.1 took
        obtain ⟨-, sameId, sameAccount, time⟩ := sendRow_eq sent
        refine kept.put found sameId sameAccount fun x timed => .inr ?_
        obtain rfl : (now : Int) = x := Option.some.inj (time.symm.trans timed)
        exact admits_others kept found admitted
      · cases took
  | dispatch id now =>
      obtain ⟨row, found, took⟩ := Option.bind_eq_some_iff.1 took
      obtain ⟨ms, scheduled, took⟩ := Option.bind_eq_some_iff.1 took
      obtain ⟨next, sent, rfl⟩ := Option.map_eq_some_iff.1 took
      obtain ⟨status, sameId, sameAccount, time⟩ := sendRow_eq sent
      refine kept.put found sameId sameAccount fun x timed => .inl ?_
      rw [← timed, time]
      simp [sendTimeOf, status, scheduled]
  | write id statement now =>
      obtain ⟨row, found, took⟩ := Option.bind_eq_some_iff.1 took
      split at took
      · next timeless =>
        obtain ⟨next, applied, rfl⟩ := Option.map_eq_some_iff.1 took
        obtain ⟨sameId, sameAccount⟩ := Statement.apply_id applied
        exact kept.put found sameId sameAccount fun x timed =>
          .inl (Statement.apply_timeless timeless applied timed)
      · cases took

end

def hourDraft : OutboxDraftInput where
  accountId := "a"
  kind := .reply
  outboundRef := none
  recipientDisplay := "x@y"
  content := ⟨["x@y"], [], [], none, "", []⟩
  threading := none
  expiresAt := 0

/-- With one send an hour: one now, and one an hour later to the millisecond. -/
def hourApart : List Act :=
  [.create "d" hourDraft, .create "e" hourDraft, .send "d" 60000, .schedule "e" 3660000 60000,
    .dispatch "e" 3660000]

end Kiagent.Outbound
