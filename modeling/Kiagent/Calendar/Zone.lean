/-
# Calendar.Zone -- the instant of a wall time

An event is given in wall time and kept as an instant.  `zonedToUtc` has only the
engine's clock of a zone to go by, so it guesses: it reads the wall time as if it were
UTC, takes the zone's offset there, and then takes the offset again at the instant this
gave.

A wall time that exists is always met (`guess_of_exists`).  One that a clock change skips
is put past the change only where the change is not later than the wall time read as UTC
(`guess_of_gap`), which is how zones ahead of UTC are; behind UTC the second offset is
already the new one, and the instant comes out before the change.
-/
import Kiagent.Theory.CivilDate

namespace Kiagent.Calendar

open CivilDate

set_option autoImplicit false

/-! ## Zones -/

/-- The clock changes with this second. -/
def Changes (offset : Int → Int) (T : Int) : Prop := offset (T - 1) ≠ offset T

/-- Seconds ahead of UTC at each second since the epoch: within 14 hours, and changing at
most once in 48 hours. -/
structure Zone where
  offset : Int → Int
  within (s : Int) : -(14 * 3600) ≤ offset s ∧ offset s ≤ 14 * 3600
  apart (s t : Int) : Changes offset s → Changes offset t → s < t → s + 48 * 3600 ≤ t

structure WallParts where
  y : Int
  m : Int
  d : Int
  h : Int
  mi : Int
  s : Int
  deriving DecidableEq

/-- What a clock shows that is so many seconds past the epoch. -/
def wallOf (clock : Int) : WallParts :=
  let date := dateOf (clock / 86400)
  { y := date.year, m := date.month, d := date.day
    h := clock % 86400 / 3600, mi := clock % 3600 / 60, s := clock % 60 }

/-- The clock of the zone at an instant in milliseconds. -/
def localTime (t : Int) (tz : Zone) : WallParts := wallOf (t / 1000 + tz.offset (t / 1000))

/-- As `Intl` prints it: a year before the first has no sign. -/
def wallParts (t : Int) (tz : Zone) : WallParts :=
  let w := localTime t tz
  { w with y := if w.y ≤ 0 then 1 - w.y else w.y }

/-- `Date.UTC` in milliseconds, with months from 1.  It reads the years 0 to 99 as 1900 to
1999. -/
def dateUTC (y m d h mi s : Int) : Int :=
  let year := if 0 ≤ y ∧ y ≤ 99 then 1900 + y else y
  ((Date.mk year m d).dayNumber * 86400 + h * 3600 + mi * 60 + s) * 1000

def offsetAt (t : Int) (tz : Zone) : Int :=
  let w := wallParts t tz
  dateUTC w.y w.m w.d w.h w.mi w.s - t / 1000 * 1000

def zonedToUtc (y m d h mi : Int) (tz : Zone) : Int :=
  let guess := dateUTC y m d h mi 0
  let first := guess - offsetAt guess tz
  let second := guess - offsetAt first tz
  second

/-! ## One change at most

Offsets around an instant: one before a change and one after it. -/

variable (tz : Zone)

/-- Without a change the offset stays. -/
theorem offset_of_unchanged (offset : Int → Int) (first last : Int) (order : first ≤ last)
    (still : ∀ T, first < T → T ≤ last → ¬ Changes offset T) : offset last = offset first := by
  induction last, order using Int.leInduction with
  | base => rfl
  | succ last order ih =>
      have same := still (last + 1) (by omega) le_rfl
      unfold Changes at same
      rw [not_not, show last + 1 - 1 = last by omega] at same
      rw [← same]
      exact ih fun T after before => still T after (by omega)

/-- The day before and the day after `x` have one change at most. -/
theorem Zone.around (x : Int) :
    ∃ T, x - 86400 < T ∧ T < x + 86400 ∧ ∀ s, x - 86400 ≤ s → s < x + 86400 →
      tz.offset s = if s < T then tz.offset (T - 1) else tz.offset T := by
  by_cases changes : ∃ T, x - 86400 < T ∧ T < x + 86400 ∧ Changes tz.offset T
  · obtain ⟨T, low, high, here⟩ := changes
    refine ⟨T, low, high, fun s first last => ?_⟩
    -- A second change would be two days from this one.
    have only : ∀ U, x - 86400 < U → U < x + 86400 → Changes tz.offset U → U = T := by
      intro U after before there
      rcases lt_trichotomy U T with earlier | same | later
      · have far := tz.apart U T there here earlier
        omega
      · exact same
      · have far := tz.apart T U here there later
        omega
    split
    · rename_i earlier
      exact (offset_of_unchanged tz.offset s (T - 1) (by omega) fun U after before there =>
        absurd (only U (by omega) (by omega) there) (by omega)).symm
    · exact offset_of_unchanged tz.offset T s (by omega) fun U after before there =>
        absurd (only U (by omega) (by omega) there) (by omega)
  · have still : ∀ first last, x - 86400 ≤ first → first ≤ last → last < x + 86400 →
        tz.offset last = tz.offset first := fun first last low order high =>
      offset_of_unchanged tz.offset first last order fun U after before there =>
        changes ⟨U, by omega, by omega, there⟩
    refine ⟨x, by omega, by omega, fun s first last => ?_⟩
    rw [still (x - 86400) s le_rfl first last,
      still (x - 86400) (x - 1) le_rfl (by omega) (by omega),
      still (x - 86400) x le_rfl (by omega) (by omega), ite_self]

/-! ## The two guesses -/

/-- Wall time and instant in seconds, and the offsets as they are. -/
def guess (w : Int) : Int := w - tz.offset (w - tz.offset w)

/-- Clock times skipped when the clock is put forward at `T`. -/
def InGap (T w : Int) : Prop := T + tz.offset (T - 1) ≤ w ∧ w < T + tz.offset T

/-- A wall time that exists is met. -/
theorem guess_of_exists (w : Int) (shown : ∃ s, s + tz.offset s = w) :
    guess tz w + tz.offset (guess tz w) = w := by
  obtain ⟨s, shown⟩ := shown
  obtain ⟨T, -, -, around⟩ := tz.around w
  have here := tz.within s
  have there := tz.within w
  have last := tz.within (w - tz.offset w)
  have atS := around s (by omega) (by omega)
  have atW := around w (by omega) (by omega)
  have atFirst := around (w - tz.offset w) (by omega) (by omega)
  have atLast := around (guess tz w) (by unfold guess; omega) (by unfold guess; omega)
  unfold guess at atLast ⊢
  rw [atFirst] at atLast ⊢
  rw [atLast]
  rw [atW] at atFirst ⊢
  split_ifs at * <;> omega

/-- Whether a skipped wall time is put where the clock before the change has it. -/
theorem guess_of_gap (T w : Int) (gap : InGap tz T w) :
    guess tz w = w - tz.offset (T - 1) ↔ T ≤ w := by
  obtain ⟨start, stop⟩ := gap
  obtain ⟨U, -, -, around⟩ := tz.around w
  have early := tz.within (T - 1)
  have late := tz.within T
  have there := tz.within w
  have atEarly := around (T - 1) (by omega) (by omega)
  have atLate := around T (by omega) (by omega)
  have same : U = T := by
    split_ifs at * <;> omega
  subst same
  have atW := around w (by omega) (by omega)
  have atFirst := around (w - tz.offset w) (by omega) (by omega)
  unfold guess
  rw [atFirst, atW]
  split_ifs <;> omega

/-- Any wall time is shown or skipped. -/
theorem shown_or_skipped (w : Int) : (∃ s, s + tz.offset s = w) ∨ ∃ T, InGap tz T w := by
  obtain ⟨T, low, high, around⟩ := tz.around w
  have early := tz.within (T - 1)
  have late := tz.within T
  by_cases old : w - tz.offset (T - 1) < T
  · have shown := around (w - tz.offset (T - 1)) (by omega) (by omega)
    rw [if_pos old] at shown
    exact Or.inl ⟨w - tz.offset (T - 1), by omega⟩
  · by_cases new : T ≤ w - tz.offset T
    · have shown := around (w - tz.offset T) (by omega) (by omega)
      rw [if_neg (by omega)] at shown
      exact Or.inl ⟨w - tz.offset T, by omega⟩
    · exact Or.inr ⟨T, by omega, by omega⟩

/-! ## Dates on the clock -/

/-- A date and a time of day, to the minute. -/
structure LocalTime where
  date : Date
  h : Int
  mi : Int
  exists_ : date.Valid
  year : 0 ≤ date.year
  hour : 0 ≤ h ∧ h < 24
  minute : 0 ≤ mi ∧ mi < 60

namespace LocalTime

def wall (l : LocalTime) : WallParts := ⟨l.date.year, l.date.month, l.date.day, l.h, l.mi, 0⟩

/-- The wall time read as if it were UTC. -/
def seconds (l : LocalTime) : Int := l.date.dayNumber * 86400 + l.h * 3600 + l.mi * 60

end LocalTime

variable (l : LocalTime)

theorem wallOf_seconds : wallOf l.seconds = l.wall := by
  have hour := l.hour
  have minute := l.minute
  have day : l.seconds / 86400 = l.date.dayNumber := by unfold LocalTime.seconds; omega
  unfold wallOf LocalTime.wall
  rw [day, dateOf_dayNumber l.date l.exists_]
  unfold LocalTime.seconds
  dsimp only
  rw [WallParts.mk.injEq]
  refine ⟨rfl, rfl, rfl, ?_, ?_, ?_⟩ <;> omega

theorem wallOf_injective : Function.Injective wallOf := by
  intro a b same
  unfold wallOf at same
  dsimp only at same
  rw [WallParts.mk.injEq] at same
  obtain ⟨year, month, day, h, mi, s⟩ := same
  have date : a / 86400 = b / 86400 := by
    apply dateOf_injective
    cases hA : dateOf (a / 86400)
    cases hB : dateOf (b / 86400)
    rw [hA, hB] at year month day
    dsimp only at year month day
    rw [year, month, day]
  omega

/-- The zone shows the wall time at `t`. -/
theorem localTime_eq_wall (t : Int) :
    localTime t tz = l.wall ↔ t / 1000 + tz.offset (t / 1000) = l.seconds := by
  unfold localTime
  rw [← wallOf_seconds, wallOf_injective.eq_iff]

/-- A clock past the year 100 is read back as it is. -/
theorem dateUTC_wallOf (clock : Int) (late : -682700 * 86400 ≤ clock) :
    let w := wallOf clock
    dateUTC w.y w.m w.d w.h w.mi w.s = clock * 1000 ∧ 100 ≤ w.y := by
  have year := (dateOf_year_ge (clock / 86400)).1 (by omega)
  have number := dayNumber_dateOf (clock / 86400)
  unfold dateUTC wallOf
  dsimp only
  rw [if_neg (by omega)]
  have date : Date.mk (dateOf (clock / 86400)).year (dateOf (clock / 86400)).month
      (dateOf (clock / 86400)).day = dateOf (clock / 86400) := rfl
  rw [date, number]
  exact ⟨by omega, year⟩

/-- Past the year 100 the difference of the two readings is the offset. -/
theorem offsetAt_eq (t : Int) (late : -682680 * 86400000 ≤ t) :
    offsetAt t tz = tz.offset (t / 1000) * 1000 := by
  have here := tz.within (t / 1000)
  obtain ⟨read, year⟩ := dateUTC_wallOf (t / 1000 + tz.offset (t / 1000)) (by omega)
  unfold offsetAt wallParts localTime
  dsimp only
  rw [if_neg (by omega), read]
  ring

/-- With the guess past the year 100, the two guesses in seconds. -/
theorem zonedToUtc_eq (y m d h mi clock : Int) (read : dateUTC y m d h mi 0 = clock * 1000)
    (late : -682660 * 86400 ≤ clock) : zonedToUtc y m d h mi tz = guess tz clock * 1000 := by
  have here := tz.within clock
  have second : clock * 1000 / 1000 = clock := by omega
  have first : clock * 1000 - tz.offset clock * 1000 = (clock - tz.offset clock) * 1000 := by ring
  have next : (clock - tz.offset clock) * 1000 / 1000 = clock - tz.offset clock := by omega
  unfold zonedToUtc guess
  dsimp only
  rw [read, offsetAt_eq tz (clock * 1000) (by omega), second, first,
    offsetAt_eq tz ((clock - tz.offset clock) * 1000) (by omega), next]
  ring

namespace LocalTime

def toUtc : Int := zonedToUtc l.date.year l.date.month l.date.day l.h l.mi tz

theorem toUtc_eq (recent : 100 < l.date.year) : l.toUtc tz = guess tz l.seconds * 1000 := by
  have day := (dayNumber_bounds l.date l.exists_.1 ⟨l.exists_.2.1, l.exists_.day_le⟩).1 (by omega)
  have hour := l.hour
  have minute := l.minute
  refine zonedToUtc_eq tz _ _ _ _ _ l.seconds ?_ (by unfold seconds; omega)
  unfold dateUTC seconds
  dsimp only
  rw [if_neg (by omega), Int.add_zero]

/-- A year before 100 is read in the twentieth century. -/
theorem toUtc_early (early : l.date.year < 100) : -25700 * 86400000 ≤ l.toUtc tz := by
  have year := l.year
  have hour := l.hour
  have minute := l.minute
  have day := (dayNumber_bounds ⟨1900 + l.date.year, l.date.month, l.date.day⟩ l.exists_.1
    ⟨l.exists_.2.1, l.exists_.day_le⟩).2.1 (by dsimp only; omega)
  generalize number : (Date.mk (1900 + l.date.year) l.date.month l.date.day).dayNumber = n at day
  have read : dateUTC l.date.year l.date.month l.date.day l.h l.mi 0
      = (n * 86400 + l.h * 3600 + l.mi * 60) * 1000 := by
    unfold dateUTC
    dsimp only
    rw [if_pos (by omega), number, Int.add_zero]
  have back := tz.within (n * 86400 + l.h * 3600 + l.mi * 60 -
    tz.offset (n * 86400 + l.h * 3600 + l.mi * 60))
  unfold toUtc
  rw [zonedToUtc_eq tz _ _ _ _ _ _ read (by omega)]
  unfold guess
  omega

end LocalTime

/-! ## The right instant -/

/-- An existing wall time is shown at the instant; a skipped one is as far past the change
as it is past the start of the gap. -/
structure ReadsRight : Prop where
  shown : ∀ t, localTime t tz = l.wall → localTime (l.toUtc tz) tz = l.wall
  skipped : ∀ T, InGap tz T l.seconds →
    l.toUtc tz = (T + (l.seconds - (T + tz.offset (T - 1)))) * 1000 ∧ T * 1000 ≤ l.toUtc tz

/-- **The instant of a wall time is right exactly where no gap holds the wall time whose
change is later than the wall time read as UTC** -- and the year is past 100. -/
theorem toUtc_right_iff (year : l.date.year ≠ 100) :
    ReadsRight tz l ↔ 100 < l.date.year ∧ ∀ T, InGap tz T l.seconds → T ≤ l.seconds := by
  constructor
  · rintro ⟨shown, skipped⟩
    have recent : 100 < l.date.year := by
      by_contra old
      have early : l.date.year < 100 := by omega
      have result := l.toUtc_early tz early
      rcases shown_or_skipped tz l.seconds with ⟨s, here⟩ | ⟨T, gap⟩
      · have back := shown (s * 1000) ((localTime_eq_wall tz l _).mpr
          (by rw [show s * 1000 / 1000 = s by omega]; exact here))
        have clock := tz.within (l.toUtc tz / 1000)
        have late := (dateOf_year_ge
          ((l.toUtc tz / 1000 + tz.offset (l.toUtc tz / 1000)) / 86400)).2 (by omega)
        have year : (localTime (l.toUtc tz) tz).y = l.date.year := by rw [back]; rfl
        unfold localTime wallOf at year
        dsimp only at year
        omega
      · have day := (dayNumber_bounds l.date l.exists_.1
          ⟨l.exists_.2.1, l.exists_.day_le⟩).2.2 (by omega)
        have hour := l.hour
        have minute := l.minute
        have clock := tz.within (T - 1)
        have placed := (skipped T gap).1
        rw [placed] at result
        unfold LocalTime.seconds at result
        omega
    refine ⟨recent, fun T gap => ?_⟩
    rw [← guess_of_gap tz T l.seconds gap]
    have placed := (skipped T gap).1
    rw [l.toUtc_eq tz recent] at placed
    omega
  · rintro ⟨recent, behind⟩
    have result := l.toUtc_eq tz recent
    have second : guess tz l.seconds * 1000 / 1000 = guess tz l.seconds := by omega
    refine ⟨fun t here => ?_, fun T gap => ?_⟩
    · rw [localTime_eq_wall] at here ⊢
      rw [result, second]
      exact guess_of_exists tz l.seconds ⟨_, here⟩
    · have placed := (guess_of_gap tz T l.seconds gap).mpr (behind T gap)
      obtain ⟨start, stop⟩ := gap
      rw [result, placed]
      constructor <;> omega

/-! ## Two mornings

Both clocks are put forward over half past two. -/

/-- A zone with one change. -/
def Zone.single (T before after : Int) (early : -(14 * 3600) ≤ before ∧ before ≤ 14 * 3600)
    (late : -(14 * 3600) ≤ after ∧ after ≤ 14 * 3600) : Zone where
  offset s := if s < T then before else after
  within s := by split <;> assumption
  apart s t hs ht earlier := by
    unfold Changes at hs ht
    dsimp only at hs ht
    split_ifs at hs ht <;> omega

/-- New York in March 2026, from -5 to -4 hours. -/
def newYork : Zone := Zone.single 1772953200 (-18000) (-14400) (by decide) (by decide)

/-- Berlin in March 2026, from 1 to 2 hours. -/
def berlin : Zone := Zone.single 1774746000 3600 7200 (by decide) (by decide)

def marchMorning (d : Int) (valid : (Date.mk 2026 3 d).Valid) : LocalTime :=
  ⟨⟨2026, 3, d⟩, 2, 30, valid, by show (0 : Int) ≤ 2026; decide, by decide, by decide⟩

theorem toUtc_right_berlin : ReadsRight berlin (marchMorning 29 (by decide)) := by
  refine (toUtc_right_iff berlin (marchMorning 29 (by decide)) (by decide)).mpr
    ⟨by decide, fun T gap => ?_⟩
  have read : (marchMorning 29 (by decide)).seconds = 1774751400 := by decide
  rw [read] at gap ⊢
  unfold InGap berlin Zone.single at gap
  dsimp only at gap
  split_ifs at gap <;> omega

/-- In New York the instant is half past one, before the clock was put forward. -/
theorem toUtc_before_gap :
    InGap newYork 1772953200 (marchMorning 8 (by decide)).seconds ∧
      (marchMorning 8 (by decide)).toUtc newYork = 1772951400 * 1000 ∧
      ¬ ReadsRight newYork (marchMorning 8 (by decide)) := by
  have gap : InGap newYork 1772953200 (marchMorning 8 (by decide)).seconds := by
    unfold InGap
    decide
  have result : (marchMorning 8 (by decide)).toUtc newYork = 1772951400 * 1000 := by decide +kernel
  refine ⟨gap, result, fun right => ?_⟩
  have after := (right.skipped 1772953200 gap).2
  rw [result] at after
  omega

end Kiagent.Calendar
