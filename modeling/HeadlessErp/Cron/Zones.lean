import HeadlessErp.Cron.LeastRun

/-!
# Wall clocks

The conversions of `packages/scheduler/src/cron.ts` between instants and the wall clock of a time
zone. A zone is its offset as a function of the instant, from the data of `Intl`: `tzWall` prints the
fields of an instant's local time, `tzWallToUtc` guesses the offset of a local time at the instant
that is so many milliseconds and keeps what reads back. It converts exactly where that guess is the
zone's offset at the result, away from the years before 100 (`exactConversion_iff`).
-/

namespace HeadlessErp.Cron

open Calendar Date

/-! ## Zones -/

/-- A time zone: how far its clocks are ahead, at an instant. No zone is a day ahead or behind. -/
structure TimeZone where
  offset : ℤ → ℤ
  bounded : ∀ t, -msPerDay < offset t ∧ offset t < msPerDay

/-- The time on the clocks of a zone, as the instant at which clocks in UTC show it. -/
def TimeZone.clock (zone : TimeZone) (t : ℤ) : ℤ := t + zone.offset t

structure TzWall where
  year : ℤ
  month : ℤ
  day : ℤ
  hour : ℤ
  minute : ℤ
  weekday : ℤ
  deriving DecidableEq, Repr

/-- The numeric year that is printed without its era. -/
def printedYear (y : ℤ) : ℤ := if y ≤ 0 then 1 - y else y

/-- `tzWall`. -/
def tzWall (zone : TimeZone) (ms : ℤ) : TzWall where
  year := printedYear (getUTCFullYear (zone.clock ms))
  month := getUTCMonth (zone.clock ms) + 1
  day := getUTCDate (zone.clock ms)
  hour := getUTCHours (zone.clock ms)
  minute := getUTCMinutes (zone.clock ms)
  weekday := getUTCDay (zone.clock ms)

/-- `tzOffsetMs`: of the offset's text the sign, the hours and the minutes are read. -/
def tzOffsetMs (zone : TimeZone) (ms : ℤ) : ℤ :=
  if zone.offset ms < 0 then -(-zone.offset ms / 60000 * 60000)
  else zone.offset ms / 60000 * 60000

/-- `tzWallToUtc`. -/
def tzWallToUtc (zone : TimeZone) (year month day hour minute : ℤ) : Option ℤ :=
  let nominal := utc year (month - 1) day hour minute
  let utc := nominal - tzOffsetMs zone nominal
  let w := tzWall zone utc
  if w.year ≠ year ∨ w.month ≠ month ∨ w.day ≠ day ∨ w.hour ≠ hour ∨ w.minute ≠ minute then none
  else some utc

/-! ## Exact conversion -/

/-- The clocks of a zone show a local time, in the calendar's years. -/
def HasWall (zone : TimeZone) (t y m d h mi : ℤ) : Prop :=
  getUTCFullYear (zone.clock t) = y ∧ getUTCMonth (zone.clock t) + 1 = m ∧
    getUTCDate (zone.clock t) = d ∧ getUTCHours (zone.clock t) = h ∧
      getUTCMinutes (zone.clock t) = mi

/-- A local time is converted to an instant at which the clocks show it, and to none only where there
is no such instant. -/
def ExactConversion (zone : TimeZone) (y m d h mi : ℤ) : Prop :=
  (∀ u, tzWallToUtc zone y m d h mi = some u → HasWall zone u y m d h mi) ∧
    (tzWallToUtc zone y m d h mi = none → ∀ t, ¬ HasWall zone t y m d h mi)

/-- How far the offset at the result of a conversion is from the one that was guessed. -/
def guessError (zone : TimeZone) (y m d h mi : ℤ) : ℤ :=
  let nominal := utc y (m - 1) d h mi
  zone.offset (nominal - tzOffsetMs zone nominal) - tzOffsetMs zone nominal

section

variable {zone : TimeZone} {t u y m d h mi : ℤ}

theorem tzOffsetMs_bounds (zone : TimeZone) (t : ℤ) :
    -msPerDay < tzOffsetMs zone t ∧ tzOffsetMs zone t < msPerDay := by
  have hbounds := zone.bounded t
  simp only [tzOffsetMs, msPerDay] at hbounds ⊢
  split <;> omega

/-- The clock at the result of a conversion is the local time, but for the error of the guess. -/
theorem clock_guess (zone : TimeZone) (y m d h mi : ℤ) :
    zone.clock (utc y (m - 1) d h mi - tzOffsetMs zone (utc y (m - 1) d h mi)) =
      utc y (m - 1) d h mi + guessError zone y m d h mi := by
  simp only [TimeZone.clock, guessError]
  omega

theorem guessError_bounds (zone : TimeZone) (y m d h mi : ℤ) :
    -2 * msPerDay < guessError zone y m d h mi ∧ guessError zone y m d h mi < 2 * msPerDay := by
  have hbounds := zone.bounded (utc y (m - 1) d h mi - tzOffsetMs zone (utc y (m - 1) d h mi))
  have hguess := tzOffsetMs_bounds zone (utc y (m - 1) d h mi)
  simp only [guessError, msPerDay] at hbounds hguess ⊢
  omega

/-- A local time that the clocks show is a date and a time. -/
theorem HasWall.bounds (hw : HasWall zone t y m d h mi) :
    (1 ≤ m ∧ m ≤ 12) ∧ (1 ≤ d ∧ d ≤ monthLength y (m - 1)) ∧ (0 ≤ h ∧ h ≤ 23) ∧ 0 ≤ mi ∧ mi ≤ 59 := by
  obtain ⟨rfl, rfl, rfl, rfl, rfl⟩ := hw
  obtain ⟨hm, hm'⟩ := month_bounds (day (zone.clock t))
  refine ⟨by unfold getUTCMonth; omega, ?_, getUTCHours_bounds _, getUTCMinutes_bounds _⟩
  rw [show getUTCMonth (zone.clock t) + 1 - 1 = getUTCMonth (zone.clock t) by omega]
  exact date_bounds _

/-- A date and a time in the years of `Date.UTC`. -/
theorem utc_eq (hm : 1 ≤ m) (hm' : m ≤ 12) :
    utc y (m - 1) d h mi = at_ (dayOf (makeFullYear y) (m - 1) d) h mi := by
  rw [utc, makeDay_eq (by omega) (by omega), at_]

/-- The clock at the result is not earlier than the year before. -/
theorem year_clock_guess (zone : TimeZone) (hm : 1 ≤ m) (hm' : m ≤ 12) (hd : 1 ≤ d) (hh : 0 ≤ h) (hmi : 0 ≤ mi) :
    makeFullYear y - 1 ≤ getUTCFullYear (utc y (m - 1) d h mi + guessError zone y m d h mi) := by
  have hfirst := dayFromYear_le_dayOf (y := makeFullYear y) (show 0 ≤ m - 1 by omega) hd
  have herror := (guessError_bounds zone y m d h mi).1
  have hprevious : dayFromYear (makeFullYear y - 1) + 365 ≤ dayFromYear (makeFullYear y) := by
    simp only [dayFromYear]
    omega
  refine le_year ?_
  rw [utc_eq hm hm']
  simp only [day, at_, msPerDay] at herror ⊢
  omega

/-- What is converted reads back, and is of a year that `Date.UTC` and the printed year agree on. -/
theorem tzWallToUtc_eq_some_iff :
    tzWallToUtc zone y m d h mi = some u ↔
      100 ≤ y ∧ u = utc y (m - 1) d h mi - tzOffsetMs zone (utc y (m - 1) d h mi) ∧
        HasWall zone u y m d h mi := by
  have hclock := clock_guess zone y m d h mi
  unfold tzWallToUtc HasWall
  constructor
  · intro hsome
    dsimp only at hsome
    split at hsome
    · cases hsome
    · next hread =>
      cases hsome
      simp only [tzWall, ne_eq, not_or, not_not] at hread
      obtain ⟨hyear, hmonth, hdate, hhour, hminute⟩ := hread
      rw [hclock] at hyear hmonth hdate hhour hminute ⊢
      obtain ⟨hm, hm'⟩ := month_bounds (day (utc y (m - 1) d h mi + guessError zone y m d h mi))
      have hd := (date_bounds (day (utc y (m - 1) d h mi + guessError zone y m d h mi))).1
      have hh := (getUTCHours_bounds (utc y (m - 1) d h mi + guessError zone y m d h mi)).1
      have hmi := (getUTCMinutes_bounds (utc y (m - 1) d h mi + guessError zone y m d h mi)).1
      unfold getUTCMonth at hmonth
      unfold getUTCDate at hdate
      have hlow : makeFullYear y - 1 ≤
          getUTCFullYear (utc y (m - 1) d h mi + guessError zone y m d h mi) :=
        year_clock_guess zone (by omega) (by omega) (by omega) (by omega) (by omega)
      have hhundred : 100 ≤ y ∧
          getUTCFullYear (utc y (m - 1) d h mi + guessError zone y m d h mi) = y := by
        unfold printedYear at hyear
        unfold makeFullYear at hlow
        split at hyear <;> split at hlow <;> omega
      exact ⟨hhundred.1, rfl, hhundred.2, hmonth, hdate, hhour, hminute⟩
  · rintro ⟨hhundred, rfl, hyear, hmonth, hdate, hhour, hminute⟩
    rw [if_neg]
    simp only [tzWall, ne_eq, not_or, not_not]
    refine ⟨?_, hmonth, hdate, hhour, hminute⟩
    rw [hyear, printedYear, if_neg (by omega)]

/-- The clocks show a local time in its minute. -/
theorem hasWall_iff (hy : 100 ≤ y) (hm : 1 ≤ m ∧ m ≤ 12) (hd : 1 ≤ d ∧ d ≤ monthLength y (m - 1))
    (hh : 0 ≤ h ∧ h ≤ 23) (hmi : 0 ≤ mi ∧ mi ≤ 59) :
    HasWall zone t y m d h mi ↔ minuteOf (zone.clock t) = utc y (m - 1) d h mi := by
  obtain ⟨hwhole, hday, hhours, hminutes⟩ := minuteOf_fields (zone.clock t)
  have hyear : ¬ TwoDigit y := by
    unfold TwoDigit
    omega
  rw [utc_eq hm.1 hm.2, makeFullYear_eq hyear]
  constructor
  · rintro ⟨hy, hmonth, hdate, hhour, hminute⟩
    rw [← at_eq hwhole, hday, hhours, hminutes, hhour, hminute, ← hy, ← hmonth, ← hdate]
    rw [show getUTCMonth (zone.clock t) + 1 - 1 = getUTCMonth (zone.clock t) by omega]
    congr 1
    exact (dayOf_date _).symm
  · intro heq
    obtain ⟨hy', hmonth, hdate⟩ := fields_dayOf (show 0 ≤ m - 1 by omega) (show m - 1 ≤ 11 by omega)
      hd.1 hd.2
    rw [heq, day_at hh.1 hh.2 hmi.1 hmi.2] at hday
    rw [heq, getUTCHours_at hh.1 hh.2 hmi.1 hmi.2] at hhours
    rw [heq, getUTCMinutes_at hmi.1 hmi.2] at hminutes
    refine ⟨?_, ?_, ?_, hhours.symm, hminutes.symm⟩
    · rw [getUTCFullYear, ← hday, hy']
    · rw [getUTCMonth, ← hday, hmonth]
      omega
    · rw [getUTCDate, ← hday, hdate]

/-- The conversion of a local time is exact just where no instant has it, or its year is not before
100 and the offset at the result is the one that was guessed, up to seconds. -/
theorem exactConversion_iff (zone : TimeZone) (y m d h mi : ℤ) :
    ExactConversion zone y m d h mi ↔ ((∃ t, HasWall zone t y m d h mi) →
      100 ≤ y ∧ 0 ≤ guessError zone y m d h mi ∧ guessError zone y m d h mi < 60000) := by
  have hclock := clock_guess zone y m d h mi
  have hread (hy : 100 ≤ y) (hwall : ∃ t, HasWall zone t y m d h mi) :
      HasWall zone (utc y (m - 1) d h mi - tzOffsetMs zone (utc y (m - 1) d h mi)) y m d h mi ↔
        0 ≤ guessError zone y m d h mi ∧ guessError zone y m d h mi < 60000 := by
    obtain ⟨t, ht⟩ := hwall
    obtain ⟨hm, hd, hh, hmi⟩ := ht.bounds
    have hnominal := (minuteOf_fields (zone.clock t)).1
    rw [(hasWall_iff hy hm hd hh hmi).1 ht] at hnominal
    rw [hasWall_iff hy hm hd hh hmi, hclock, minuteOf]
    omega
  constructor
  · rintro ⟨-, hnone⟩ hwall
    cases hsome : tzWallToUtc zone y m d h mi with
    | none =>
      obtain ⟨t, ht⟩ := hwall
      exact absurd ht (hnone hsome t)
    | some u =>
      obtain ⟨hy, rfl, hu⟩ := tzWallToUtc_eq_some_iff.1 hsome
      exact ⟨hy, (hread hy hwall).1 hu⟩
  · intro hcondition
    refine ⟨fun u hu => (tzWallToUtc_eq_some_iff.1 hu).2.2, fun hnone t ht => ?_⟩
    obtain ⟨hy, herror⟩ := hcondition ⟨t, ht⟩
    have hsome := tzWallToUtc_eq_some_iff.2 ⟨hy, rfl, (hread hy ⟨t, ht⟩).2 herror⟩
    rw [hnone] at hsome
    cases hsome

/-- The clocks of a zone an hour ahead from seven o'clock UTC on the eighth of March 2026 on. -/
def springForward : TimeZone where
  offset t := if t < at_ 20520 7 0 then -18000000 else -14400000
  bounded t := by
    split <;> decide

/-- At half past seven UTC they show half past three, which is guessed to be half past eight. -/
theorem springForward_not_exact :
    ¬ ∀ (zone : TimeZone) (y m d h mi : ℤ), ExactConversion zone y m d h mi := by
  intro h
  have hwall : HasWall springForward (at_ 20520 7 30) 2026 3 8 3 30 := by
    unfold HasWall
    decide
  obtain ⟨-, -, herror⟩ := (exactConversion_iff _ _ _ _ _ _).1 (h _ _ _ _ _ _) ⟨_, hwall⟩
  revert herror
  decide

end

end HeadlessErp.Cron
