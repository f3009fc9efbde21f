/-
# Calendar.Collect -- what is on in a window of time

`collectWindow` reads the indexed events and the event drafts that may hold time in a
window, keeps those of the calendars that count, and sorts them into busy, maybe and
ignored.  Where a limit is given and there is more, there is no result at all.

Whatever overlaps the window is in the result, under the tier its classification has
(`mem_events`, `mem_drafts`).
-/
import Kiagent.Calendar.EventDrafts
import Kiagent.Calendar.Slots
import Kiagent.Theory.Digits

namespace Kiagent.Calendar

open CivilDate Digits

set_option autoImplicit false

/-! ## Dates and instants -/

/-- The engine's reading of texts: `Date.parse`, the date in the first ten letters, and the
clock of a zone's name. -/
structure Clock where
  parse : String → Int
  date : String → Date
  zone : String → Zone

def MINUTE : Int := 60000

def HOUR : Int := 60 * MINUTE

def DAY_MS : Int := 24 * HOUR

def addDays (date : Date) (n : Int) : Date :=
  dateOf (dateUTC date.year date.month (date.day + n) 0 0 0 / 86400000)

/-- Months and days, of two digits. -/
def monthAndDay (date : Date) : List Char :=
  '-' :: fixedDigits 2 date.month.toNat ++ '-' :: fixedDigits 2 date.day.toNat

/-- A date as `Intl` prints it: the year has the digits it needs. -/
def dateText (date : Date) : List Char :=
  Nat.toDigits 10 date.year.toNat ++ monthAndDay date

def localDate (t : Int) (tz : Zone) : List Char := dateText (wallDate t tz)

/-- `toISOString().slice(0, 10)`: a year has four digits, or a sign and six. -/
def isoDate (date : Date) : List Char :=
  let year :=
    if 0 ≤ date.year ∧ date.year ≤ 9999 then fixedDigits 4 date.year.toNat
    else (if date.year < 0 then '-' else '+') :: fixedDigits 6 date.year.natAbs
  (year ++ monthAndDay date).take 10

/-- `while (t < stop && localDate(t, tz) < want) t += HOUR`, of at most `fuel` hours. -/
def hoursOn (tz : Zone) (want : List Char) : Nat → Int → Int
  | 0, t => t
  | fuel + 1, t => if localDate t tz < want then hoursOn tz want fuel (t + HOUR) else t

/-- `for (i < 60 && localDate(t - MIN, tz) >= want) t -= MIN` -/
def minutesBack (tz : Zone) (want : List Char) : Nat → Int → Int
  | 0, t => t
  | fuel + 1, t =>
      if localDate (t - MINUTE) tz < want then t else minutesBack tz want fuel (t - MINUTE)

/-- From 15 hours before the date's midnight in UTC on by hours, then back by minutes. -/
def localDayStart (date : Date) (tz : Zone) : Int :=
  let want := isoDate (addDays date 0)
  let t := dateUTC date.year date.month date.day 0 0 0 - 15 * HOUR
  minutesBack tz want 60 (hoursOn tz want 54 t)

/-- When a draft is: two instants, or dates of which the last is not in it. -/
inductive Spanned where
  | timed (startMs endMs : Int)
  | allDay (start stop : Date)
  deriving DecidableEq

def Spanned.isAllDay : Spanned → Bool
  | .timed _ _ => false
  | .allDay _ _ => true

structure Interval where
  startMs : Int
  endMs : Int
  deriving DecidableEq

/-- All-day dates are local midnights. -/
def draftSpan (span : Spanned) (tz : Zone) : Interval :=
  match span with
  | .timed s e => ⟨s, e⟩
  | .allDay start stop => ⟨localDayStart start tz, localDayStart stop tz⟩

/-- Half-open intervals that share an instant. -/
def Interval.Meets (a b : Interval) : Prop := a.startMs < b.endMs ∧ a.endMs > b.startMs

instance (a b : Interval) : Decidable (a.Meets b) := inferInstanceAs (Decidable (_ ∧ _))

variable (clock : Clock)

def spanned (p : EventPayload) : Spanned :=
  if p.allDay then .allDay (clock.date p.start) (clock.date p.ends)
  else .timed (clock.parse p.start) (clock.parse p.ends)

def spanOf (p : EventPayload) : Interval := draftSpan (spanned clock p) (clock.zone p.timeZone)

/-! ## Tiers -/

inductive Tier where
  | busy
  | maybe
  | ignore
  deriving DecidableEq

structure EventMetadata where
  calendarId : String
  eventId : String
  iCalUID : Option String
  startMs : Int
  endMs : Int
  allDay : Bool
  startDate : Option Date
  endDate : Option Date
  status : String
  selfResponse : Option String
  eventType : String
  transparency : String
  deriving DecidableEq

def EventMetadata.interval (m : EventMetadata) : Interval := ⟨m.startMs, m.endMs⟩

/-- The first rule that matches. -/
def classifyEvent (m : EventMetadata) : Tier :=
  if m.status = "cancelled" ∨ m.selfResponse = some "declined" ∨ m.transparency = "transparent" ∨
      m.eventType = "workingLocation" then .ignore
  else if m.eventType = "outOfOffice" then .busy
  else if m.status = "tentative" ∨ m.selfResponse = some "tentative" ∨
      m.selfResponse = some "needsAction" ∨ m.allDay ∨ m.eventType = "focusTime" then .maybe
  else .busy

def UNSEEN_PLACEHOLDER_MS : Int := 24 * 60 * 60000

def classifyDraft (row : EventDraftRow) (seen : Bool) (now : Int) : Tier :=
  if (spanOf clock row.payload).endMs ≤ now then .ignore
  else
    match row.status with
    | .draft | .creating | .unknown => .maybe
    | .created =>
        if seen then .ignore
        else if now - (row.confirmedAt.getD row.updatedAt : Nat) < UNSEEN_PLACEHOLDER_MS then .busy
        else .maybe
    | _ => .ignore

/-! ## The store -/

/-- A document of type `calendar.event`. -/
structure CalendarDoc where
  documentId : String
  accountId : String
  title : Option String
  metadata : EventMetadata
  archived : Bool
  createdAt : Option Int
  /-- `created_at` of a calendar event is its start. -/
  starts : createdAt = some metadata.startMs
  deriving DecidableEq

structure CalendarAccount where
  identifier : String
  lastSyncAt : Option Int

structure CalendarStore where
  events : List CalendarDoc
  drafts : List EventDraftRow
  account : String → Option CalendarAccount

namespace CalendarStore

variable (store : CalendarStore)

/-- `LIMIT`, where there is one. -/
def limited {α : Type} (limit : Option Nat) (rows : List α) : List α :=
  match limit with
  | none => rows
  | some n => rows.take n

/-- Live events that overlap, by start. -/
def overlap (fromMs toMs : Int) (limit : Option Nat) : List CalendarDoc :=
  limited limit
    ((store.events.filter fun d => !d.archived && d.createdAt.any (fun c => c < toMs) &&
      d.metadata.endMs > fromMs).insertionSort fun a b => a.metadata.startMs ≤ b.metadata.startMs)

/-- Archived rows count. -/
def seen (accountId eventId : String) (iCalUID : Option String) : Bool :=
  store.events.any fun d => d.accountId = accountId &&
    (d.metadata.eventId = eventId || (iCalUID.isSome && d.metadata.iCalUID = iCalUID))

/-- `SQL_START` and `SQL_END`: all-day dates as if they were in UTC. -/
def sqlSpan (p : EventPayload) : Interval :=
  match spanned clock p with
  | .timed s e => ⟨s, e⟩
  | .allDay start stop => ⟨dateUTC start.year start.month start.day 0 0 0,
      dateUTC stop.year stop.month stop.day 0 0 0⟩

def holdsTime (status : EventDraftStatus) : Bool :=
  status = .draft || status = .creating || status = .unknown || status = .created

/-- Drafts that may hold time in a window. -/
def inWindow (fromMs toMs : Int) (limit : Option Nat) : List EventDraftRow :=
  limited limit (store.drafts.filter fun r => holdsTime r.status &&
    (sqlSpan clock r.payload).startMs < toMs && (sqlSpan clock r.payload).endMs > fromMs)

/-- Has the provider's copy of a created draft been indexed? -/
def placeholderSeen (row : EventDraftRow) : Bool :=
  match row.created with
  | none => false
  | some created => store.seen row.accountId created.eventId created.iCalUID

end CalendarStore

/-! ## Collecting -/

structure CalendarListItem where
  accountId : String
  accountEmail : String
  calendarId : String
  name : String
  indexed : Bool
  canWrite : Bool
  note : Option String
  deriving DecidableEq

def NO_WRITER_NOTE : String := "Kia can't add events to this kind of calendar yet"

def STALE_SYNC_MS : Int := 2 * 60 * 60000

structure CollectedEvent where
  e : CalendarDoc
  tier : Tier
  disclosable : Bool
  deriving DecidableEq

structure CollectedDraft where
  row : EventDraftRow
  tier : Tier
  span : Interval
  seen : Bool
  disclosable : Bool
  deriving DecidableEq

structure Uncovered where
  accountEmail : String
  calendar : String
  deriving DecidableEq

structure Collected where
  indexed : List CalendarListItem
  notIndexedWritable : List Uncovered
  warnings : List String
  lastSync : List (String × Option Int)
  events : List CollectedEvent
  drafts : List CollectedDraft

structure Limits where
  events : Nat
  drafts : Nat

structure CollectInput where
  fromMs : Int
  toMs : Int
  calendarIds : Option (List String)
  now : Int
  listed : List CalendarListItem
  limits : Option Limits

namespace CollectInput

variable (a : CollectInput)

/-- Calendars by name, and accounts whose calendars could not be listed. -/
def cals : List CalendarListItem := a.listed.filter fun c => c.calendarId ≠ ""

def unlisted : List CalendarListItem := a.listed.filter fun c => c.calendarId = ""

def wanted (calendarId : String) : Bool := a.calendarIds.all fun ids => ids.contains calendarId

def indexed : List CalendarListItem := a.cals.filter fun c => c.indexed && a.wanted c.calendarId

/-- The calendar is one of those indexed. -/
def listedKey (accountId calendarId : String) : Bool :=
  a.indexed.any fun c => c.accountId = accountId && c.calendarId = calendarId

/-- The calendar counts: it is listed, or nothing is known of its account's calendars. -/
def counted (accountId calendarId : String) : Bool :=
  a.listedKey accountId calendarId ||
    ((a.unlisted.any fun c => c.accountId = accountId) && a.wanted calendarId)

def notIndexedWritable : List Uncovered :=
  (a.cals.filter fun c => !c.indexed && c.canWrite && a.wanted c.calendarId).map fun c =>
    ⟨c.accountEmail, c.name⟩

def accountIds : List String :=
  ((a.indexed.map CalendarListItem.accountId) ++ a.unlisted.map CalendarListItem.accountId).eraseDups

end CollectInput

/-- `Math.round(n / d)` -/
def roundDiv (n d : Int) : Int := (2 * n + d) / (2 * d)

def hoursAgo (now since : Int) : String :=
  let h := roundDiv (now - since) 3600000
  if h ≥ 48 then s!"{roundDiv h 24} days" else s!"{h} h"

def notSynced (calendar account : String) : String :=
  s!"{calendar} ({account}) is not synced by Kia — its events are unknown"

/-- The warnings of an account's last sync. -/
def syncWarnings (now : Int) (id : String) (account : Option CalendarAccount) : List String :=
  let email := (account.map CalendarAccount.identifier).getD id
  match account.bind CalendarAccount.lastSyncAt with
  | none => [s!"{email} has never synced"]
  | some since =>
      if now - since > STALE_SYNC_MS then [s!"{email} last synced {hoursAgo now since} ago"] else []

def coverageWarnings (store : CalendarStore) (a : CollectInput) : List String :=
  ((a.unlisted.filter fun c => c.note ≠ some NO_WRITER_NOTE).map fun c =>
    c.accountEmail ++ ": " ++ c.note.getD "calendars unavailable") ++
    (a.notIndexedWritable.map fun c => notSynced c.calendar c.accountEmail) ++
      a.accountIds.flatMap fun id => syncWarnings a.now id (store.account id)

/-- An event of a calendar that counts, and not cancelled. -/
def collectEvent (a : CollectInput) (d : CalendarDoc) : Option CollectedEvent :=
  if !a.counted d.accountId d.metadata.calendarId then none
  else if d.metadata.status = "cancelled" then none
  else some ⟨d, classifyEvent d.metadata, a.listedKey d.accountId d.metadata.calendarId⟩

/-- A draft with its exact span in the window. -/
def collectDraft (store : CalendarStore) (a : CollectInput) (r : EventDraftRow) :
    Option CollectedDraft :=
  if !a.wanted r.payload.calendarId then none
  else
    let span := spanOf clock r.payload
    if ¬ (span.startMs < a.toMs ∧ span.endMs > a.fromMs) then none
    else
      let seen := decide (r.status = .created) && store.placeholderSeen r
      some ⟨r, classifyDraft clock r seen a.now, span, seen,
        a.listedKey r.accountId r.payload.calendarId⟩

/-- `none` is an overflow. -/
def collectWindow (store : CalendarStore) (a : CollectInput) : Option Collected :=
  let rows := store.overlap a.fromMs a.toMs (a.limits.map fun l => l.events + 1)
  if a.limits.any fun l => rows.length > l.events then none
  else
    let draftRows := store.inWindow clock (a.fromMs - DAY_MS) (a.toMs + DAY_MS)
      (a.limits.map fun l => l.drafts + 1)
    if a.limits.any fun l => draftRows.length > l.drafts then none
    else
      some
        { indexed := a.indexed
          notIndexedWritable := a.notIndexedWritable
          warnings := coverageWarnings store a
          lastSync := a.accountIds.map fun id =>
            (id, (store.account id).bind CalendarAccount.lastSyncAt)
          events := rows.filterMap (collectEvent a)
          drafts := draftRows.filterMap (collectDraft clock store a) }

/-! ## What is collected -/

/-- A limit that is not passed cuts nothing. -/
theorem limited_whole {α : Type} (limits : Option Limits) (limit : Limits → Nat) (rows : List α)
    (short : ¬ (limits.any fun l =>
      (CalendarStore.limited (limits.map fun l => limit l + 1) rows).length > limit l) = true) :
    CalendarStore.limited (limits.map fun l => limit l + 1) rows = rows := by
  cases limits with
  | none => rfl
  | some l =>
      simp only [Option.any_some, Option.map_some, CalendarStore.limited, List.length_take,
        gt_iff_lt, decide_eq_true_eq, lt_min_iff, not_and_or, not_lt] at short ⊢
      exact List.take_of_length_le (by omega)

/-- The tier of a draft, with the answer whether its event is indexed. -/
def tierOf (store : CalendarStore) (now : Int) (r : EventDraftRow) : Tier :=
  classifyDraft clock r (decide (r.status = .created) && store.placeholderSeen r) now

/-- A draft that is not ignored holds time. -/
theorem holdsTime_of_tier {store : CalendarStore} {now : Int} {r : EventDraftRow}
    (active : tierOf clock store now r ≠ .ignore) : CalendarStore.holdsTime r.status = true := by
  unfold tierOf classifyDraft at active
  split at active
  · exact absurd rfl active
  · cases status : r.status <;> simp_all [CalendarStore.holdsTime]

theorem hoursOn_bounds (tz : Zone) (want : List Char) (fuel : Nat) :
    ∀ t, t ≤ hoursOn tz want fuel t ∧ hoursOn tz want fuel t ≤ t + fuel * HOUR := by
  induction fuel with
  | zero => intro t; simp [hoursOn]
  | succ fuel ih =>
      intro t
      rw [hoursOn]
      have next := ih (t + HOUR)
      have hour : HOUR = 3600000 := by decide
      rw [hour] at next ⊢
      push_cast
      split <;> omega

theorem minutesBack_bounds (tz : Zone) (want : List Char) (fuel : Nat) :
    ∀ t, t - fuel * MINUTE ≤ minutesBack tz want fuel t ∧ minutesBack tz want fuel t ≤ t := by
  induction fuel with
  | zero => intro t; simp [minutesBack]
  | succ fuel ih =>
      intro t
      rw [minutesBack]
      have next := ih (t - MINUTE)
      unfold MINUTE at *
      push_cast
      split <;> omega

/-- The first read takes a date's start in UTC for that in its zone. -/
theorem sqlSpan_near (p : EventPayload) :
    (CalendarStore.sqlSpan clock p).startMs ≤ (spanOf clock p).startMs + 16 * HOUR ∧
      (spanOf clock p).endMs - 39 * HOUR ≤ (CalendarStore.sqlSpan clock p).endMs := by
  have near : ∀ (date : Date) (tz : Zone),
      dateUTC date.year date.month date.day 0 0 0 - 16 * HOUR ≤ localDayStart date tz ∧
        localDayStart date tz ≤ dateUTC date.year date.month date.day 0 0 0 + 39 * HOUR := by
    intro date tz
    unfold localDayStart
    dsimp only
    generalize dateUTC date.year date.month date.day 0 0 0 = utc
    have on := hoursOn_bounds tz (isoDate (addDays date 0)) 54 (utc - 15 * HOUR)
    have back := minutesBack_bounds tz (isoDate (addDays date 0)) 60
      (hoursOn tz (isoDate (addDays date 0)) 54 (utc - 15 * HOUR))
    unfold HOUR MINUTE at *
    push_cast at *
    omega
  unfold CalendarStore.sqlSpan spanOf draftSpan
  cases spanned clock p with
  | timed s e =>
      unfold HOUR MINUTE
      dsimp only
      omega
  | allDay start stop =>
      have first := near start (clock.zone p.timeZone)
      have last := near stop (clock.zone p.timeZone)
      dsimp only
      omega

section Complete

variable {store : CalendarStore} {a : CollectInput} {c : Collected}
  (collected : collectWindow clock store a = some c)
include collected

/-- The parts of a result, with the reads uncut. -/
theorem collectWindow_spec :
    c.notIndexedWritable = a.notIndexedWritable ∧ c.warnings = coverageWarnings store a ∧
      c.events = (store.overlap a.fromMs a.toMs none).filterMap (collectEvent a) ∧
        c.drafts = (store.inWindow clock (a.fromMs - DAY_MS) (a.toMs + DAY_MS) none).filterMap
          (collectDraft clock store a) := by
  unfold collectWindow at collected
  dsimp only at collected
  split at collected
  · cases collected
  · rename_i shortEvents
    split at collected
    · cases collected
    · rename_i shortDrafts
      cases collected
      have events := limited_whole a.limits Limits.events (store.overlap a.fromMs a.toMs none)
        shortEvents
      have drafts := limited_whole a.limits Limits.drafts
        (store.inWindow clock (a.fromMs - DAY_MS) (a.toMs + DAY_MS) none) shortDrafts
      refine ⟨rfl, rfl, ?_, ?_⟩
      · exact congrArg (List.filterMap (collectEvent a)) events
      · exact congrArg (List.filterMap (collectDraft clock store a)) drafts

/-- A live event of a calendar that counts is collected where it meets the window. -/
theorem mem_events {d : CalendarDoc} (stored : d ∈ store.events) (live : d.archived = false)
    (counts : a.counted d.accountId d.metadata.calendarId = true)
    (held : d.metadata.status ≠ "cancelled")
    (meets : d.metadata.interval.Meets ⟨a.fromMs, a.toMs⟩) :
    ⟨d, classifyEvent d.metadata, a.listedKey d.accountId d.metadata.calendarId⟩ ∈ c.events := by
  rw [(collectWindow_spec clock collected).2.2.1, List.mem_filterMap]
  refine ⟨d, ?_, ?_⟩
  · unfold CalendarStore.overlap CalendarStore.limited
    rw [(List.perm_insertionSort _ _).mem_iff, List.mem_filter]
    refine ⟨stored, ?_⟩
    rw [d.starts, live]
    simp only [Bool.not_false, Bool.true_and, Option.any_some, Bool.and_eq_true, decide_eq_true_eq]
    exact meets
  · simp [collectEvent, counts, held]

/-- A draft that is not ignored is collected where it meets the window, less the hours by
which the first read may be too narrow for a date. -/
theorem mem_drafts {r : EventDraftRow} (stored : r ∈ store.drafts) (all : a.calendarIds = none)
    (active : tierOf clock store a.now r ≠ .ignore)
    (meets : (spanOf clock r.payload).Meets ⟨a.fromMs + 15 * HOUR, a.toMs⟩) :
    ⟨r, tierOf clock store a.now r, spanOf clock r.payload,
      decide (r.status = .created) && store.placeholderSeen r,
      a.listedKey r.accountId r.payload.calendarId⟩ ∈ c.drafts := by
  obtain ⟨early, late⟩ := sqlSpan_near clock r.payload
  obtain ⟨before, after⟩ := meets
  dsimp only at before after
  rw [(collectWindow_spec clock collected).2.2.2, List.mem_filterMap]
  refine ⟨r, ?_, ?_⟩
  · unfold CalendarStore.inWindow CalendarStore.limited
    rw [List.mem_filter]
    refine ⟨stored, ?_⟩
    simp only [holdsTime_of_tier clock active, Bool.true_and, Bool.and_eq_true, decide_eq_true_eq]
    unfold DAY_MS HOUR MINUTE at *
    omega
  · have wanted : a.wanted r.payload.calendarId = true := by simp [CollectInput.wanted, all]
    have inside : (spanOf clock r.payload).startMs < a.toMs ∧
        (spanOf clock r.payload).endMs > a.fromMs := by
      unfold HOUR MINUTE at *
      omega
    unfold collectDraft
    rw [wanted]
    dsimp only
    rw [if_neg (by decide), if_neg (not_not.mpr inside)]
    rfl

end Complete

end Kiagent.Calendar
