/-
# Calendar.DayStart -- where a day begins

`localDayStart` goes on by hours until the printed date is the one looked for, then back by
minutes as long as it stays.  A clock put back just after midnight shows the new date for a
minute, then the old one again, and the full hours may all miss that minute.

The first minute is met exactly where the clock, once it shows the date, does not leave it
before the next full hour, and the years are ones whose texts are in the order of the dates
(`localDayStart_right`).
-/
import Kiagent.Calendar.Collect

namespace Kiagent.Calendar

open CivilDate Digits

set_option autoImplicit false

/-! ## The day on the clock -/

/-- The day a zone's clock shows, from the epoch's. -/
def localDay (t : Int) (tz : Zone) : Int := (t / 1000 + tz.offset (t / 1000)) / 86400

def wholeMinutes (tz : Zone) (shown : Int → Prop) : Set Int :=
  {t | MINUTE ∣ t ∧ shown (localDay t tz)}

/-- The earliest whole minute of the date, or of a later one where there is none. -/
def IsDayStart (date : Date) (tz : Zone) (t : Int) : Prop :=
  IsLeast (wholeMinutes tz (dateOf · = date)) t ∨
    wholeMinutes tz (dateOf · = date) = ∅ ∧ IsLeast (wholeMinutes tz (date.dayNumber < ·)) t

/-- Midnight of a date in UTC, in milliseconds. -/
def midnight (date : Date) : Int := date.dayNumber * 86400000

variable {tz : Zone} {date : Date}

theorem localDay_bounds (t : Int) (tz : Zone) :
    (t - 50400000) / 86400000 ≤ localDay t tz ∧ localDay t tz ≤ (t + 50400000) / 86400000 := by
  have within := tz.within (t / 1000)
  unfold localDay
  omega

theorem dateOf_eq_iff (valid : date.Valid) (n : Int) : dateOf n = date ↔ n = date.dayNumber := by
  constructor
  · rintro rfl
    exact (dayNumber_dateOf n).symm
  · rintro rfl
    exact dateOf_dayNumber date valid

theorem mem_wholeMinutes_date (valid : date.Valid) (t : Int) :
    t ∈ wholeMinutes tz (dateOf · = date) ↔ MINUTE ∣ t ∧ localDay t tz = date.dayNumber :=
  and_congr_right fun _ => dateOf_eq_iff valid _

/-- A date from this one on is shown, and none before. -/
structure Begins (date : Date) (tz : Zone) (e : Int) : Prop where
  minute : MINUTE ∣ e
  reached : date.dayNumber ≤ localDay e tz
  first : ∀ t, MINUTE ∣ t → t < e → localDay t tz < date.dayNumber

/-- Between two instants less than two days apart there is one change at most, so a later
date is shown before an earlier one only past its own first minute. -/
theorem earlier_of_later {s e : Int} (minute : MINUTE ∣ s) (order : s < e)
    (later : localDay e tz < localDay s tz) :
    ∃ t, MINUTE ∣ t ∧ t < s ∧ localDay t tz = localDay e tz := by
  obtain ⟨T, -, -, around⟩ := tz.around (e / 1000 - 20 * 3600)
  have here := tz.within (s / 1000)
  have there := tz.within (e / 1000)
  have atS := around (s / 1000) (by unfold localDay at later; omega) (by omega)
  have atE := around (e / 1000) (by omega) (by omega)
  -- So many minutes before `s` the clock shows the last minute of the earlier date.
  obtain ⟨m, back⟩ : ∃ m, m = (s / 1000 + tz.offset (s / 1000) -
      (localDay e tz + 1) * 86400) / 60 + 1 := ⟨_, rfl⟩
  have positive : 0 < m := by unfold localDay at *; omega
  refine ⟨s - m * MINUTE, (Int.dvd_sub minute (Int.dvd_mul_left _ _)), ?_, ?_⟩
  · unfold MINUTE
    omega
  · unfold MINUTE at *
    have second : (s - m * 60000) / 1000 = s / 1000 - m * 60 := by omega
    have before := around (s / 1000 - m * 60) (by unfold localDay at *; omega) (by omega)
    unfold localDay at *
    rw [second]
    split_ifs at atS atE before <;> omega

theorem IsDayStart.begins (valid : date.Valid) {e : Int} (start : IsDayStart date tz e) :
    Begins date tz e := by
  rcases start with ⟨member, least⟩ | ⟨none, ⟨minute, shown⟩, least⟩
  · obtain ⟨minute, shown⟩ := (mem_wholeMinutes_date valid e).mp member
    refine ⟨minute, shown.ge, fun t at_minute earlier => ?_⟩
    have other : localDay t tz ≠ date.dayNumber := fun same =>
      absurd (least ((mem_wholeMinutes_date valid t).mpr ⟨at_minute, same⟩)) (by omega)
    by_contra late
    have passed : localDay e tz < localDay t tz := by omega
    obtain ⟨s, whole, before, same⟩ := earlier_of_later at_minute earlier passed
    exact absurd (least ((mem_wholeMinutes_date valid s).mpr ⟨whole, same.trans shown⟩))
      (by omega)
  · refine ⟨minute, shown.le, fun t at_minute earlier => ?_⟩
    have other : localDay t tz ≠ date.dayNumber := fun same =>
      Set.notMem_empty t (none ▸ (mem_wholeMinutes_date valid t).mpr ⟨at_minute, same⟩)
    by_contra late
    exact absurd (least ⟨at_minute, show date.dayNumber < localDay t tz by omega⟩) (by omega)

/-- From 14 hours before midnight in UTC to 38 after. -/
theorem Begins.near {e : Int} (start : Begins date tz e) :
    midnight date - 14 * HOUR ≤ e ∧ e ≤ midnight date + 38 * HOUR := by
  have reached := start.reached
  have bounds := localDay_bounds e tz
  have late := localDay_bounds (midnight date + 38 * HOUR) tz
  have first := start.first (midnight date + 38 * HOUR)
    (by unfold midnight HOUR MINUTE; omega)
  unfold midnight HOUR MINUTE at *
  omega

theorem exists_isDayStart (valid : date.Valid) (tz : Zone) : ∃ e, IsDayStart date tz e := by
  have least : ∀ shown : Int → Prop, (wholeMinutes tz shown).Nonempty →
      (∀ day, shown day → date.dayNumber ≤ day) → ∃ e, IsLeast (wholeMinutes tz shown) e := by
    intro shown some late
    obtain ⟨e, member, first⟩ := Int.exists_least_of_bdd
      (P := fun t => t ∈ wholeMinutes tz shown)
      ⟨midnight date - 14 * HOUR, fun t member => by
        have reached := late _ member.2
        have bounds := localDay_bounds t tz
        unfold midnight HOUR MINUTE
        omega⟩ some
    exact ⟨e, member, first⟩
  rcases (wholeMinutes tz (dateOf · = date)).eq_empty_or_nonempty with none | some
  · obtain ⟨e, first⟩ := least (date.dayNumber < ·)
      ⟨midnight date + 38 * HOUR, by unfold midnight HOUR MINUTE; omega, by
        have bounds := localDay_bounds (midnight date + 38 * HOUR) tz
        unfold midnight HOUR MINUTE at *
        omega⟩ fun day => le_of_lt
    exact ⟨e, Or.inr ⟨none, first⟩⟩
  · obtain ⟨e, first⟩ := least (dateOf · = date) some fun day shown =>
      ((dateOf_eq_iff valid day).mp shown).ge
    exact ⟨e, Or.inl first⟩

/-! ## The two loops -/

theorem hoursOn_spec (tz : Zone) (want : List Char) (fuel : Nat) (t : Int) :
    ∃ k ≤ fuel, hoursOn tz want fuel t = t + k * HOUR ∧
      (∀ j < k, localDate (t + j * HOUR) tz < want) ∧
        (k = fuel ∨ ¬ localDate (t + k * HOUR) tz < want) := by
  induction fuel generalizing t with
  | zero => exact ⟨0, le_rfl, by simp [hoursOn], by simp, Or.inl rfl⟩
  | succ fuel ih =>
      by_cases before : localDate t tz < want
      · obtain ⟨k, fits, result, passed, last⟩ := ih (t + HOUR)
        have shift : ∀ j : Nat, t + HOUR + j * HOUR = t + (j + 1 : Nat) * HOUR := by
          intro j
          push_cast
          ring
        simp only [shift] at result passed last
        refine ⟨k + 1, Nat.succ_le_succ fits, by rw [hoursOn, if_pos before, result], ?_,
          last.imp (congrArg Nat.succ) id⟩
        intro j earlier
        cases j with
        | zero => simpa using before
        | succ j => exact passed j (by omega)
      · exact ⟨0, by omega, by simp [hoursOn, before], by simp, Or.inr (by simpa using before)⟩

theorem minutesBack_spec (tz : Zone) (want : List Char) (fuel : Nat) (t : Int) :
    ∃ k ≤ fuel, minutesBack tz want fuel t = t - k * MINUTE ∧
      (∀ j : Nat, 0 < j → j ≤ k → ¬ localDate (t - j * MINUTE) tz < want) ∧
        (k = fuel ∨ localDate (t - (k + 1 : Nat) * MINUTE) tz < want) := by
  induction fuel generalizing t with
  | zero => exact ⟨0, le_rfl, by simp [minutesBack], by omega, Or.inl rfl⟩
  | succ fuel ih =>
      by_cases before : localDate (t - MINUTE) tz < want
      · exact ⟨0, by omega, by simp [minutesBack, before], by omega,
          Or.inr (by simpa using before)⟩
      · obtain ⟨k, fits, result, passed, last⟩ := ih (t - MINUTE)
        have shift : ∀ j : Nat, t - MINUTE - j * MINUTE = t - (j + 1 : Nat) * MINUTE := by
          intro j
          push_cast
          ring
        simp only [shift] at result passed last
        refine ⟨k + 1, Nat.succ_le_succ fits, by rw [minutesBack, if_neg before, result], ?_,
          last.imp (congrArg Nat.succ) id⟩
        intro j positive upTo
        obtain ⟨j, rfl⟩ : ∃ i, j = i + 1 := ⟨j - 1, by omega⟩
        cases j with
        | zero => simpa using before
        | succ j => exact passed (j + 1) (by omega) (by omega)

/-! ## What the loops see -/

/-- The full hour from an instant on. -/
def nextHour (t : Int) : Int := (t + HOUR - MINUTE) / HOUR * HOUR

/-- The year is read as it is written, the hours before the first minute and the minute
before it print earlier dates, and from the first minute to the full hour no earlier date is
printed. -/
structure Seen (date : Date) (tz : Zone) (e : Int) : Prop where
  recent : 100 ≤ date.year
  hours : ∀ k : Nat, midnight date - 15 * HOUR + k * HOUR < e →
    localDate (midnight date - 15 * HOUR + k * HOUR) tz < isoDate date
  minute : localDate (e - MINUTE) tz < isoDate date
  stays : ∀ t, MINUTE ∣ t → e ≤ t → t ≤ nextHour e → ¬ localDate t tz < isoDate date

theorem localDayStart_recent (valid : date.Valid) (recent : 100 ≤ date.year) (tz : Zone) :
    localDayStart date tz = minutesBack tz (isoDate date) 60
      (hoursOn tz (isoDate date) 54 (midnight date - 15 * HOUR)) := by
  have utc : dateUTC date.year date.month date.day 0 0 0 = midnight date := by
    have same : Date.mk date.year date.month date.day = date := rfl
    unfold dateUTC midnight
    dsimp only
    rw [if_neg (by omega), same]
    omega
  have same : addDays date 0 = date := by
    unfold addDays
    rw [Int.add_zero, utc, midnight, Int.mul_ediv_cancel _ (by decide), dateOf_dayNumber date valid]
  unfold localDayStart
  dsimp only
  rw [same, utc]

/-- A year before 100 is read in the twentieth century. -/
theorem localDayStart_early (valid : date.Valid) (year : 0 ≤ date.year) (early : date.year < 100)
    (tz : Zone) : midnight date + 38 * HOUR < localDayStart date tz := by
  have bounds := dayNumber_bounds date valid.1 ⟨valid.2.1, valid.day_le⟩
  have moved := (dayNumber_bounds ⟨1900 + date.year, date.month, date.day⟩ valid.1
    ⟨valid.2.1, valid.day_le⟩).2.1 (by dsimp only; omega)
  have utc : dateUTC date.year date.month date.day 0 0 0 =
      (Date.mk (1900 + date.year) date.month date.day).dayNumber * 86400000 := by
    unfold dateUTC
    dsimp only
    rw [if_pos (by omega)]
    omega
  have on := hoursOn_bounds tz (isoDate (addDays date 0)) 54
    (dateUTC date.year date.month date.day 0 0 0 - 15 * HOUR)
  have back := minutesBack_bounds tz (isoDate (addDays date 0)) 60
    (hoursOn tz (isoDate (addDays date 0)) 54
      (dateUTC date.year date.month date.day 0 0 0 - 15 * HOUR))
  unfold localDayStart
  dsimp only
  unfold midnight HOUR MINUTE at *
  omega

theorem Seen.found (valid : date.Valid) {e : Int} (start : Begins date tz e)
    (seen : Seen date tz e) : localDayStart date tz = e := by
  obtain ⟨near, -⟩ := start.near
  obtain ⟨minutes, whole⟩ := start.minute
  obtain ⟨k, -, on, passed, stop⟩ := hoursOn_spec tz (isoDate date) 54 (midnight date - 15 * HOUR)
  have last : nextHour e ≤ midnight date + 39 * HOUR := by
    have far := start.near.2
    unfold nextHour midnight HOUR MINUTE at *
    omega
  -- The hour loop ends at the first full hour from `e` on.
  have hour : midnight date - 15 * HOUR + k * HOUR = nextHour e := by
    have low : e ≤ midnight date - 15 * HOUR + k * HOUR := by
      rcases stop with rfl | stop
      · unfold nextHour midnight HOUR MINUTE at *
        omega
      · by_contra before
        exact stop (seen.hours k (by omega))
    by_contra other
    obtain ⟨j, at_hour⟩ : ∃ j : Nat, midnight date - 15 * HOUR + j * HOUR = nextHour e :=
      ⟨((nextHour e - (midnight date - 15 * HOUR)) / HOUR).toNat, by
        unfold nextHour midnight HOUR MINUTE at *
        omega⟩
    have earlier : j < k := by
      unfold nextHour midnight HOUR MINUTE at *
      omega
    have before := passed j earlier
    rw [at_hour] at before
    refine seen.stays _ ?_ ?_ le_rfl before <;> unfold nextHour HOUR MINUTE at * <;> omega
  obtain ⟨m, -, back, kept, final⟩ := minutesBack_spec tz (isoDate date) 60 (nextHour e)
  rw [localDayStart_recent valid seen.recent, on, hour, back]
  have range : e ≤ nextHour e ∧ nextHour e < e + HOUR := by
    unfold nextHour HOUR MINUTE at *
    omega
  have aligned : MINUTE ∣ nextHour e := by unfold nextHour HOUR MINUTE; omega
  obtain ⟨n, away⟩ : ∃ n : Nat, nextHour e - n * MINUTE = e :=
    ⟨((nextHour e - e) / MINUTE).toNat, by unfold HOUR MINUTE at *; omega⟩
  rcases lt_trichotomy m n with short | rfl | far
  · rcases final with rfl | final
    · unfold HOUR MINUTE at *
      omega
    · refine absurd final (seen.stays _ ?_ ?_ ?_) <;> unfold MINUTE at * <;> omega
  · exact away
  · have before := kept (n + 1) (by omega) (by omega)
    rw [show nextHour e - (n + 1 : Nat) * MINUTE = e - MINUTE by push_cast; linarith] at before
    exact absurd seen.minute before

theorem Begins.seen (valid : date.Valid) {e : Int} (recent : 100 ≤ date.year)
    (start : Begins date tz e) (found : localDayStart date tz = e) : Seen date tz e := by
  obtain ⟨near, far⟩ := start.near
  obtain ⟨minutes, whole⟩ := start.minute
  obtain ⟨k, fits, on, passed, stop⟩ :=
    hoursOn_spec tz (isoDate date) 54 (midnight date - 15 * HOUR)
  rw [localDayStart_recent valid recent, on] at found
  obtain ⟨m, most, back, kept, final⟩ := minutesBack_spec tz (isoDate date) 60
    (midnight date - 15 * HOUR + k * HOUR)
  rw [back] at found
  -- A whole hour back would end at a full hour that the first loop passed.
  have less : m < 60 := by
    by_contra whole_hour
    obtain rfl : m = 60 := by omega
    cases k with
    | zero =>
        unfold midnight HOUR MINUTE at *
        omega
    | succ k =>
        have earlier := kept 60 (by decide) le_rfl
        rw [show midnight date - 15 * HOUR + (k + 1 : Nat) * HOUR - (60 : Nat) * MINUTE =
          midnight date - 15 * HOUR + k * HOUR by unfold HOUR; push_cast; ring] at earlier
        exact earlier (passed k (by omega))
  have hour : midnight date - 15 * HOUR + k * HOUR = nextHour e := by
    unfold nextHour midnight HOUR MINUTE at *
    omega
  have reads : ¬ localDate (nextHour e) tz < isoDate date := by
    rw [← hour]
    rcases stop with rfl | stop
    · unfold nextHour midnight HOUR MINUTE at *
      omega
    · exact stop
  rw [hour] at found kept final
  refine ⟨recent, fun j before => passed j ?_, ?_, fun t minute low high => ?_⟩
  · by_contra beyond
    unfold nextHour midnight HOUR MINUTE at *
    omega
  · rcases final with rfl | final
    · omega
    · rwa [show nextHour e - (m + 1 : Nat) * MINUTE = e - MINUTE by push_cast; linarith] at final
  · obtain ⟨j, place⟩ : ∃ j : Nat, t = nextHour e - j * MINUTE :=
      ⟨((nextHour e - t) / MINUTE).toNat, by unfold nextHour HOUR MINUTE at *; omega⟩
    rw [place]
    rcases Nat.eq_zero_or_pos j with rfl | positive
    · simpa using reads
    · exact kept j positive (by unfold MINUTE at *; omega)

/-! ## Years of four digits -/

theorem year_le_iff (y n : Int) :
    y ≤ (dateOf n).year ↔ (Date.mk y 1 1).dayNumber ≤ n := by
  have january : dateOf (Date.mk y 1 1).dayNumber = ⟨y, 1, 1⟩ :=
    dateOf_dayNumber _ (by simp [Date.Valid, monthLength])
  obtain ⟨month, day⟩ := dateOf_ranges n
  rw [← dayKey_le _ n, january]
  unfold dayKey
  dsimp only
  omega

/-- A date and one as `Intl` prints it, both of the years 1000 to 9999. -/
theorem dateText_lt {n m : Int} (first : 1000 ≤ (dateOf n).year ∧ (dateOf n).year ≤ 9999)
    (last : 1000 ≤ (dateOf m).year ∧ (dateOf m).year ≤ 9999) :
    dateText (dateOf n) < isoDate (dateOf m) ↔ n < m := by
  obtain ⟨month, day⟩ := dateOf_ranges n
  obtain ⟨month', day'⟩ := dateOf_ranges m
  have printed : dateText (dateOf n) =
      fixedDigits 4 (dateOf n).year.toNat ++ monthAndDay (dateOf n) := by
    unfold dateText
    rw [toDigits_eq_fixedDigits 3 _ (by omega) (by omega)]
  have wanted : isoDate (dateOf m) =
      fixedDigits 4 (dateOf m).year.toNat ++ monthAndDay (dateOf m) := by
    unfold isoDate
    dsimp only
    rw [if_pos (by omega), List.take_of_length_le (by simp [monthAndDay])]
  have key : n < m ↔ dayKey (dateOf n) < dayKey (dateOf m) := by
    rw [← not_le, ← not_le, dayKey_le]
  rw [printed, wanted, key, append_lt_append (by simp), fixedDigits_lt (by omega) (by omega),
    fixedDigits_inj (by omega) (by omega)]
  unfold monthAndDay
  simp only [List.cons_append, List.cons_lt_cons_self]
  rw [append_lt_append (by simp), List.cons_lt_cons_self, fixedDigits_lt (by omega) (by omega),
    fixedDigits_inj (by omega) (by omega), fixedDigits_lt (by omega) (by omega)]
  unfold dayKey
  omega

/-- Within two days of a date of the years 1001 to 9998. -/
theorem localDate_lt (valid : date.Valid) (low : 1001 ≤ date.year) (high : date.year ≤ 9998)
    {t : Int} (near : date.dayNumber - 2 ≤ localDay t tz ∧ localDay t tz ≤ date.dayNumber + 2) :
    localDate t tz < isoDate date ↔ localDay t tz < date.dayNumber := by
  have same := dateOf_dayNumber date valid
  have start := year_le_iff 1001 date.dayNumber
  have stop := year_le_iff 9999 date.dayNumber
  rw [same] at start stop
  have first := year_le_iff 1000 (localDay t tz)
  have last := year_le_iff 10000 (localDay t tz)
  have starts : (Date.mk 1000 1 1).dayNumber + 2 ≤ (Date.mk 1001 1 1).dayNumber := by decide
  have stops : (Date.mk 9999 1 1).dayNumber + 2 ≤ (Date.mk 10000 1 1).dayNumber := by decide
  have shown : wallDate t tz = dateOf (localDay t tz) := by
    unfold wallDate wallParts localTime wallOf
    dsimp only
    rw [if_neg]
    · rfl
    · show ¬ (dateOf (localDay t tz)).year ≤ 0
      omega
  have compare := dateText_lt (n := localDay t tz) (m := date.dayNumber) (by omega)
    (by rw [same]; omega)
  unfold localDate
  rwa [shown, ← congrArg isoDate same]

/-- From the first minute to the full hour the clock stays on the date or a later one. -/
def Stays (date : Date) (tz : Zone) (e : Int) : Prop :=
  ∀ t, MINUTE ∣ t → e ≤ t → t ≤ nextHour e → date.dayNumber ≤ localDay t tz

theorem Begins.seen_iff (valid : date.Valid) (low : 1001 ≤ date.year) (high : date.year ≤ 9998)
    {e : Int} (start : Begins date tz e) : Seen date tz e ↔ Stays date tz e := by
  obtain ⟨near, far⟩ := start.near
  obtain ⟨minutes, whole⟩ := start.minute
  have compare : ∀ t, midnight date - 15 * HOUR ≤ t → t ≤ midnight date + 39 * HOUR →
      (localDate t tz < isoDate date ↔ localDay t tz < date.dayNumber) := by
    intro t from_start upTo
    have bounds := localDay_bounds t tz
    refine localDate_lt valid low high ?_
    unfold midnight HOUR MINUTE at *
    omega
  have ceiling : nextHour e ≤ midnight date + 39 * HOUR := by
    unfold nextHour midnight HOUR MINUTE at *
    omega
  constructor
  · intro seen t minute after upTo
    have later := seen.stays t minute after upTo
    rw [compare t (by unfold HOUR MINUTE at *; omega) (by omega)] at later
    omega
  · intro stays
    refine ⟨by omega, fun k before => ?_, ?_, fun t minute after upTo => ?_⟩
    · rw [compare _ (by unfold HOUR MINUTE; omega) (by unfold HOUR MINUTE at *; omega)]
      exact start.first _ (by unfold midnight HOUR MINUTE; omega) before
    · rw [compare _ (by unfold HOUR MINUTE at *; omega) (by unfold HOUR MINUTE at *; omega)]
      exact start.first _ (by unfold MINUTE at *; omega) (by unfold MINUTE; omega)
    · have later := stays t minute after upTo
      rw [compare t (by unfold HOUR MINUTE at *; omega) (by omega)]
      omega

/-! ## The start of a day -/

/-- **A day's start is found exactly where the loops see it**, which for the years 1001 to
9998 is where the clock does not leave the date before the next full hour. -/
theorem localDayStart_right (tz : Zone) (date : Date) (valid : date.Valid)
    (year : 0 ≤ date.year) :
    (∃ e, IsDayStart date tz e) ∧
      (IsDayStart date tz (localDayStart date tz) ↔
        ∃ e, IsDayStart date tz e ∧ Seen date tz e) ∧
      (1001 ≤ date.year → date.year ≤ 9998 → ∀ e, IsDayStart date tz e →
        (localDayStart date tz = e ↔ Stays date tz e)) := by
  have seen_of_start : ∀ e, IsDayStart date tz e → localDayStart date tz = e →
      Seen date tz e := by
    intro e start found
    have begins := start.begins valid
    by_cases early : date.year < 100
    · have late := localDayStart_early valid year early tz
      have far := begins.near.2
      omega
    · exact begins.seen valid (by omega) found
  refine ⟨exists_isDayStart valid tz, ⟨fun right => ⟨_, right, seen_of_start _ right rfl⟩, ?_⟩,
    fun low high e start => ?_⟩
  · rintro ⟨e, start, seen⟩
    rw [seen.found valid (start.begins valid)]
    exact start
  · have begins := start.begins valid
    rw [← begins.seen_iff valid low high]
    exact ⟨seen_of_start e start, fun seen => seen.found valid begins⟩

/-! ## Two nights

Samoa skipped the 30th of December 2011.  In Newfoundland the clock was put back an hour at a
minute past midnight. -/

/-- The zones there are: whole minutes, from 12 hours behind to 14 ahead, changed by a day at
most. -/
structure Zone.Civil (tz : Zone) : Prop where
  minutes (s : Int) : 60 ∣ tz.offset s
  behind (s : Int) : -(12 * 3600) ≤ tz.offset s
  change (s : Int) : |tz.offset s - tz.offset (s - 1)| ≤ 24 * 3600

def apia : Zone := Zone.single 1325239200 (-36000) 50400 (by decide) (by decide)

def stJohns : Zone := Zone.single 1162089060 (-9000) (-12600) (by decide) (by decide)

theorem Zone.single_civil (T before after : Int)
    (early : -(14 * 3600) ≤ before ∧ before ≤ 14 * 3600)
    (late : -(14 * 3600) ≤ after ∧ after ≤ 14 * 3600) (minutes : 60 ∣ before ∧ 60 ∣ after)
    (behind : -(12 * 3600) ≤ before ∧ -(12 * 3600) ≤ after)
    (change : |after - before| ≤ 24 * 3600) :
    (Zone.single T before after early late).Civil := by
  rw [abs_le] at change
  constructor <;> intro s <;> unfold Zone.single <;> dsimp only
  · split <;> omega
  · split <;> omega
  · rw [abs_le]
    split_ifs <;> omega

theorem localDayStart_apia :
    apia.Civil ∧ localDayStart ⟨2011, 12, 30⟩ apia = 1325239200000 ∧
      IsDayStart ⟨2011, 12, 30⟩ apia (localDayStart ⟨2011, 12, 30⟩ apia) := by
  have day : (Date.mk 2011 12 30).dayNumber = 15338 := by decide
  have clock : ∀ t, localDay t apia = if t / 1000 < 1325239200 then (t / 1000 - 36000) / 86400
      else (t / 1000 + 50400) / 86400 := by
    intro t
    unfold localDay apia Zone.single
    dsimp only
    split <;> rfl
  have start : IsDayStart ⟨2011, 12, 30⟩ apia 1325239200000 := by
    refine Or.inr ⟨Set.eq_empty_of_forall_notMem fun t shown => ?_, ⟨by decide, ?_⟩,
      fun t ⟨_, shown⟩ => ?_⟩
    · rw [mem_wholeMinutes_date (by decide), day, clock] at shown
      split_ifs at shown <;> omega
    · show (Date.mk 2011 12 30).dayNumber < localDay 1325239200000 apia
      rw [day, clock]
      decide
    · change (Date.mk 2011 12 30).dayNumber < localDay t apia at shown
      rw [day, clock] at shown
      split_ifs at shown <;> omega
  have found := ((localDayStart_right apia ⟨2011, 12, 30⟩ (by decide) (by decide)).2.2
    (by decide) (by decide) _ start).mpr fun t _ after _ => by
      rw [day, clock, if_neg (by omega)]
      omega
  exact ⟨Zone.single_civil _ _ _ _ _ (by decide) (by decide) (by decide), found,
    found.symm ▸ start⟩

/-- The minute from half past two is missed; the start found is an hour later. -/
theorem localDayStart_stJohns :
    stJohns.Civil ∧ IsDayStart ⟨2006, 10, 29⟩ stJohns 1162089000000 ∧
      localDayStart ⟨2006, 10, 29⟩ stJohns = 1162092600000 ∧
      ¬ IsDayStart ⟨2006, 10, 29⟩ stJohns (localDayStart ⟨2006, 10, 29⟩ stJohns) := by
  have day : (Date.mk 2006 10 29).dayNumber = 13450 := by decide
  have clock : ∀ t, localDay t stJohns = if t / 1000 < 1162089060 then (t / 1000 - 9000) / 86400
      else (t / 1000 - 12600) / 86400 := by
    intro t
    unfold localDay stJohns Zone.single
    dsimp only
    split <;> rfl
  have first : (1162089000000 : Int) ∈
      wholeMinutes stJohns (dateOf · = ⟨2006, 10, 29⟩) := by
    rw [mem_wholeMinutes_date (by decide), day, clock]
    decide
  have start : IsDayStart ⟨2006, 10, 29⟩ stJohns 1162089000000 := by
    refine Or.inl ⟨first, fun t shown => ?_⟩
    rw [mem_wholeMinutes_date (by decide), day, clock] at shown
    split_ifs at shown <;> omega
  have found : localDayStart ⟨2006, 10, 29⟩ stJohns = 1162092600000 := by decide +kernel
  refine ⟨Zone.single_civil _ _ _ _ _ (by decide) (by decide) (by decide), start, found, ?_⟩
  rintro (⟨-, least⟩ | ⟨none, -⟩)
  · have bound := least first
    rw [found] at bound
    omega
  · exact Set.notMem_empty _ (none ▸ first)

end Kiagent.Calendar
