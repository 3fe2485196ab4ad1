import Mathlib.Data.Int.Basic
import Mathlib.Tactic.Linarith

/-!
# The Gregorian calendar

Days, numbered from the first of January 1970, against years, months and dates of the calendar that
is continued to all years. Months are numbered from 0. Every day is one date (`dayOf_date`) and every
date that exists one day (`fields_dayOf`); later days are later dates.
-/

namespace HeadlessErp.Calendar

/-- The first day of a year. -/
def dayFromYear (y : ℤ) : ℤ :=
  365 * (y - 1970) + (y - 1969) / 4 - (y - 1901) / 100 + (y - 1601) / 400

/-- A leap year. -/
def isLeap (y : ℤ) : Bool := y % 4 = 0 && (y % 100 ≠ 0 || y % 400 = 0)

/-- The year of a day. -/
def year (n : ℤ) : ℤ :=
  let y := 400 * n / 146097 + 1970
  if n < dayFromYear y then y - 1 else if dayFromYear (y + 1) ≤ n then y + 1 else y

/-- The days of a year before its month `m`. -/
def daysBefore (leap : Bool) (m : ℤ) : ℤ :=
  (367 * m + 5) / 12 - if m < 2 then 0 else if leap then 1 else 2

/-- The month that the day `k` of a year is in. -/
def monthOfYear (leap : Bool) (k : ℤ) : ℤ :=
  let k := if k < daysBefore leap 2 then k else if leap then k + 1 else k + 2
  (12 * k + 6) / 367

/-- The days of a month. -/
def monthLength (y m : ℤ) : ℤ := daysBefore (isLeap y) (m + 1) - daysBefore (isLeap y) m

/-- The month of a day. -/
def month (n : ℤ) : ℤ := monthOfYear (isLeap (year n)) (n - dayFromYear (year n))

/-- The date of a day within its month. -/
def date (n : ℤ) : ℤ :=
  n - dayFromYear (year n) - daysBefore (isLeap (year n)) (month n) + 1

/-- The day of the week, from Sunday. -/
def weekday (n : ℤ) : ℤ := (n + 4) % 7

/-- The day of a date. The date may lie outside of the month. -/
def dayOf (y m d : ℤ) : ℤ := dayFromYear y + daysBefore (isLeap y) m + d - 1

/-! ## Years -/

section

variable {y m d n : ℤ}

theorem isLeap_iff : isLeap y = true ↔ y % 4 = 0 ∧ (y % 100 ≠ 0 ∨ y % 400 = 0) := by
  simp [isLeap]

/-- The length of a year. -/
theorem dayFromYear_succ (y : ℤ) :
    dayFromYear (y + 1) = dayFromYear y + if isLeap y = true then 366 else 365 := by
  simp only [dayFromYear, isLeap_iff]
  split <;> omega

theorem dayFromYear_le {y z : ℤ} (h : y ≤ z) : dayFromYear y ≤ dayFromYear z := by
  simp only [dayFromYear]
  omega

/-- Day and year grow together, up to two days. -/
theorem dayFromYear_near {q : ℤ} (hlow : 146097 * q ≤ 400 * n) (hhigh : 400 * n < 146097 * (q + 1)) :
    dayFromYear (q + 1969) ≤ n ∧ n < dayFromYear (q + 1972) := by
  simp only [dayFromYear]
  omega

theorem dayFromYear_year (n : ℤ) :
    dayFromYear (year n) ≤ n ∧ n < dayFromYear (year n + 1) := by
  obtain ⟨hlow, hhigh⟩ := @dayFromYear_near n (400 * n / 146097) (by omega) (by omega)
  have hprev : 400 * n / 146097 + 1969 = 400 * n / 146097 + 1970 - 1 := by omega
  have hnext : 400 * n / 146097 + 1972 = 400 * n / 146097 + 1970 + 1 + 1 := by omega
  rw [hprev] at hlow
  rw [hnext] at hhigh
  unfold year
  simp only
  split
  · next h => exact ⟨hlow, by rwa [sub_add_cancel]⟩
  · next h =>
    split
    · next h' => exact ⟨h', hhigh⟩
    · next h' => exact ⟨not_lt.1 h, not_le.1 h'⟩

/-- A day lies in one year. -/
theorem year_eq (hlow : dayFromYear y ≤ n) (hhigh : n < dayFromYear (y + 1)) : year n = y := by
  have hn := dayFromYear_year n
  rcases lt_trichotomy (year n) y with hlt | heq | hgt
  · have hle := dayFromYear_le (show year n + 1 ≤ y by omega)
    omega
  · exact heq
  · have hle := dayFromYear_le (show y + 1 ≤ year n by omega)
    omega

theorem year_mono {k : ℤ} (h : n ≤ k) : year n ≤ year k := by
  have hn := dayFromYear_year n
  have hk := dayFromYear_year k
  by_contra hlt
  have hle := dayFromYear_le (show year k + 1 ≤ year n by omega)
  omega

theorem le_year (h : dayFromYear y ≤ n) : y ≤ year n := by
  have hn := dayFromYear_year n
  by_contra hlt
  have hle := dayFromYear_le (show year n + 1 ≤ y by omega)
  omega

/-! ## Months -/

theorem daysBefore_zero (leap : Bool) : daysBefore leap 0 = 0 := by
  simp [daysBefore]

/-- The twelve months fill the year. -/
theorem daysBefore_twelve (y : ℤ) :
    daysBefore (isLeap y) 12 = dayFromYear (y + 1) - dayFromYear y := by
  rw [dayFromYear_succ]
  cases isLeap y <;> simp [daysBefore]

/-- Months have 28 to 31 days. -/
theorem monthLength_bounds (leap : Bool) (hm : 0 ≤ m) (hm' : m ≤ 11) :
    28 ≤ daysBefore leap (m + 1) - daysBefore leap m ∧
      daysBefore leap (m + 1) - daysBefore leap m ≤ 31 := by
  cases leap <;> simp only [daysBefore] <;> split <;> split <;> simp <;> omega

theorem daysBefore_mono (leap : Bool) {m k : ℤ} (hm : 0 ≤ m) (hmk : m ≤ k) :
    daysBefore leap m ≤ daysBefore leap k := by
  cases leap <;> simp only [daysBefore] <;> split <;> split <;> simp <;> omega

theorem one_le_monthLength (hm : 0 ≤ m) (hm' : m ≤ 11) : 1 ≤ monthLength y m := by
  have hlength := (monthLength_bounds (isLeap y) hm hm').1
  rw [monthLength]
  omega

theorem dayFromYear_le_dayOf (hm : 0 ≤ m) (hd : 1 ≤ d) : dayFromYear y ≤ dayOf y m d := by
  have hzero := daysBefore_mono (isLeap y) le_rfl hm
  rw [daysBefore_zero] at hzero
  simp only [dayOf]
  omega

theorem monthOfYear_bounds (leap : Bool) {k : ℤ} (hk : 0 ≤ k) (hk' : k < daysBefore leap 12) :
    (0 ≤ monthOfYear leap k ∧ monthOfYear leap k ≤ 11) ∧
      daysBefore leap (monthOfYear leap k) ≤ k ∧ k < daysBefore leap (monthOfYear leap k + 1) := by
  cases leap with
  | false =>
    simp only [daysBefore, Bool.false_eq_true, if_false] at hk'
    simp only [monthOfYear, daysBefore, Bool.false_eq_true, if_false]
    split <;> omega
  | true =>
    simp only [daysBefore, if_true] at hk'
    simp only [monthOfYear, daysBefore, if_true]
    split <;> omega

/-- A day of the year lies in one month. -/
theorem monthOfYear_eq (leap : Bool) {k : ℤ} (hm : 0 ≤ m) (hm' : m ≤ 11)
    (hlow : daysBefore leap m ≤ k) (hhigh : k < daysBefore leap (m + 1)) :
    monthOfYear leap k = m := by
  have hzero := daysBefore_mono leap le_rfl hm
  have htwelve := daysBefore_mono leap (by omega) (show m + 1 ≤ 12 by omega)
  rw [daysBefore_zero] at hzero
  obtain ⟨⟨h0, h11⟩, hle, hlt⟩ := monthOfYear_bounds leap (hzero.trans hlow) (hhigh.trans_le htwelve)
  rcases lt_trichotomy (monthOfYear leap k) m with hlt' | heq | hgt
  · have hmono := daysBefore_mono leap (by omega) (show monthOfYear leap k + 1 ≤ m by omega)
    omega
  · exact heq
  · have hmono := daysBefore_mono leap (by omega) (show m + 1 ≤ monthOfYear leap k by omega)
    omega

/-! ## Dates -/

/-- The day `k` of a year is one of it. -/
theorem dayOfYear_bounds (n : ℤ) :
    0 ≤ n - dayFromYear (year n) ∧
      n - dayFromYear (year n) < daysBefore (isLeap (year n)) 12 := by
  have hn := dayFromYear_year n
  rw [daysBefore_twelve]
  omega

theorem month_bounds (n : ℤ) : 0 ≤ month n ∧ month n ≤ 11 :=
  (monthOfYear_bounds _ (dayOfYear_bounds n).1 (dayOfYear_bounds n).2).1

theorem date_bounds (n : ℤ) : 1 ≤ date n ∧ date n ≤ monthLength (year n) (month n) := by
  obtain ⟨-, hle, hlt⟩ := monthOfYear_bounds _ (dayOfYear_bounds n).1 (dayOfYear_bounds n).2
  simp only [date, monthLength, month]
  omega

/-- Every day is the day of its date. -/
theorem dayOf_date (n : ℤ) : dayOf (year n) (month n) (date n) = n := by
  simp only [dayOf, date]
  omega

/-- A date that exists is in its year, its month and on its date. -/
theorem fields_dayOf (hm : 0 ≤ m) (hm' : m ≤ 11) (hd : 1 ≤ d) (hd' : d ≤ monthLength y m) :
    year (dayOf y m d) = y ∧ month (dayOf y m d) = m ∧ date (dayOf y m d) = d := by
  have hzero := daysBefore_mono (isLeap y) le_rfl hm
  have htwelve := daysBefore_mono (isLeap y) (by omega) (show m + 1 ≤ 12 by omega)
  rw [daysBefore_zero] at hzero
  rw [daysBefore_twelve] at htwelve
  have hyear : year (dayOf y m d) = y := by
    refine year_eq ?_ ?_
    · simp only [dayOf]
      omega
    · simp only [dayOf, monthLength] at hd' ⊢
      omega
  have hmonth : month (dayOf y m d) = m := by
    rw [month, hyear]
    refine monthOfYear_eq _ hm hm' ?_ ?_
    · simp only [dayOf]
      omega
    · simp only [dayOf, monthLength] at hd' ⊢
      omega
  refine ⟨hyear, hmonth, ?_⟩
  rw [date, hyear, hmonth, dayOf]
  omega

theorem year_dayOf (hm : 0 ≤ m) (hm' : m ≤ 11) (hd : 1 ≤ d) (hd' : d ≤ monthLength y m) :
    year (dayOf y m d) = y := (fields_dayOf hm hm' hd hd').1

/-- The day after the last of a month is the first of the next. -/
theorem dayOf_next (y : ℤ) (m : ℤ) :
    dayOf y m (monthLength y m + 1) = dayOf y (m + 1) 1 := by
  simp only [dayOf, monthLength]
  omega

theorem dayOf_december (y : ℤ) : dayOf y 12 1 = dayOf (y + 1) 0 1 := by
  simp only [dayOf, daysBefore_twelve, daysBefore_zero]
  omega

end

end HeadlessErp.Calendar
