import HeadlessErp.Base.Calendar

/-!
# Dates

The `Date` of the language over integers: an instant is its number of milliseconds from the first of
January 1970. The years that an instant can have are not limited here, as they are by `Date` some
270000 years on either side.
-/

namespace HeadlessErp.Date

open HeadlessErp.Calendar

/-- The milliseconds of a day. -/
def msPerDay : ℤ := 86400000

/-- The day of an instant. -/
def day (t : ℤ) : ℤ := t / msPerDay

def getUTCFullYear (t : ℤ) : ℤ := year (day t)

def getUTCMonth (t : ℤ) : ℤ := month (day t)

def getUTCDate (t : ℤ) : ℤ := date (day t)

def getUTCDay (t : ℤ) : ℤ := weekday (day t)

def getUTCHours (t : ℤ) : ℤ := t / 3600000 % 24

def getUTCMinutes (t : ℤ) : ℤ := t / 60000 % 60

/-- `MakeDay`: months beyond the year are months of other years. -/
def makeDay (y m d : ℤ) : ℤ := dayOf (y + m / 12) (m % 12) d

/-- `MakeFullYear`: the years 0 to 99 are those of the twentieth century. -/
def makeFullYear (y : ℤ) : ℤ := if 0 ≤ y ∧ y ≤ 99 then 1900 + y else y

/-- `Date.UTC(y, m, d, h, mi)`. -/
def utc (y m d h mi : ℤ) : ℤ :=
  makeDay (makeFullYear y) m d * msPerDay + h * 3600000 + mi * 60000

/-- `date.setUTCDate(d)`. -/
def setUTCDate (t d : ℤ) : ℤ :=
  makeDay (getUTCFullYear t) (getUTCMonth t) d * msPerDay + t % msPerDay

/-- `date.setUTCMonth(m)`. -/
def setUTCMonth (t m : ℤ) : ℤ :=
  makeDay (getUTCFullYear t) m (getUTCDate t) * msPerDay + t % msPerDay

/-! ## Instants of a day -/

section

variable {n y m d h mi t : ℤ}

/-- The instant of a day at an hour and a minute. -/
def at_ (n h mi : ℤ) : ℤ := n * msPerDay + h * 3600000 + mi * 60000

theorem day_at (hh : 0 ≤ h) (hh' : h ≤ 23) (hmi : 0 ≤ mi) (hmi' : mi ≤ 59) :
    day (at_ n h mi) = n := by
  simp only [day, at_, msPerDay]
  omega

theorem getUTCHours_at (hh : 0 ≤ h) (hh' : h ≤ 23) (hmi : 0 ≤ mi) (hmi' : mi ≤ 59) :
    getUTCHours (at_ n h mi) = h := by
  simp only [getUTCHours, at_, msPerDay]
  omega

theorem getUTCMinutes_at (hmi : 0 ≤ mi) (hmi' : mi ≤ 59) : getUTCMinutes (at_ n h mi) = mi := by
  simp only [getUTCMinutes, at_, msPerDay]
  omega

/-- A whole minute is one of its day. -/
theorem at_eq (ht : t % 60000 = 0) : at_ (day t) (getUTCHours t) (getUTCMinutes t) = t := by
  simp only [at_, day, getUTCHours, getUTCMinutes, msPerDay]
  omega

theorem getUTCHours_bounds (t : ℤ) : 0 ≤ getUTCHours t ∧ getUTCHours t ≤ 23 := by
  simp only [getUTCHours]
  omega

theorem getUTCMinutes_bounds (t : ℤ) : 0 ≤ getUTCMinutes t ∧ getUTCMinutes t ≤ 59 := by
  simp only [getUTCMinutes]
  omega

theorem makeDay_eq (hm : 0 ≤ m) (hm' : m ≤ 11) : makeDay y m d = dayOf y m d := by
  rw [makeDay, show m / 12 = 0 by omega, show m % 12 = m by omega, add_zero]

theorem makeDay_december : makeDay y 12 d = dayOf (y + 1) 0 d := rfl

/-! ## Midnights -/

theorem day_mul (n : ℤ) : day (n * msPerDay) = n := by
  simp only [day, msPerDay]
  omega

theorem getUTCFullYear_mul (n : ℤ) : getUTCFullYear (n * msPerDay) = year n := by
  rw [getUTCFullYear, day_mul]

theorem getUTCMonth_mul (n : ℤ) : getUTCMonth (n * msPerDay) = month n := by
  rw [getUTCMonth, day_mul]

theorem getUTCDate_mul (n : ℤ) : getUTCDate (n * msPerDay) = date n := by
  rw [getUTCDate, day_mul]

/-- The day before the first of the next month is the last one of a month. -/
theorem makeDay_zero (hm : 0 ≤ m) (hm' : m ≤ 11) :
    makeDay y (m + 1) 0 = dayOf y m (monthLength y m) := by
  have hnext := dayOf_next y m
  have hzero (a b : ℤ) : dayOf a b 0 = dayOf a b 1 - 1 := by
    simp only [dayOf]
    omega
  have hlast : dayOf y m (monthLength y m) = dayOf y m (monthLength y m + 1) - 1 := by
    simp only [dayOf]
    omega
  rcases eq_or_lt_of_le hm' with rfl | hlt
  · rw [show (11 : ℤ) + 1 = 12 from rfl, makeDay_december, hzero, ← dayOf_december, hlast, hnext]
    rfl
  · rw [makeDay_eq (by omega) (by omega), hzero, hlast, hnext]

theorem setUTCDate_eq (n d : ℤ) : setUTCDate (n * msPerDay) d = (n + d - date n) * msPerDay := by
  obtain ⟨hm, hm'⟩ := month_bounds n
  have hday : makeDay (year n) (month n) d = n + d - date n := by
    rw [makeDay_eq hm hm']
    have hn := dayOf_date n
    simp only [dayOf] at hn ⊢
    omega
  rw [setUTCDate, getUTCFullYear_mul, getUTCMonth_mul, hday]
  simp only [msPerDay]
  omega

end

end HeadlessErp.Date
