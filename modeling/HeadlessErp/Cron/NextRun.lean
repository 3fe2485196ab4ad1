import HeadlessErp.Base.Walk
import HeadlessErp.Cron.Acceptance
import HeadlessErp.Js.Date

/-!
# The next run in UTC

`nextCronRun` of `packages/scheduler/src/cron.ts`: from the day of the instant a minute after the
start, day by day and over the months that do not match, to the first day with a time that does.
-/

namespace HeadlessErp.Cron

open Date

/-- `SEARCH_DAYS`. -/
def searchDays : ℕ := 3660

/-- `new Date(Date.UTC(year, monthIndex + 1, 0)).getUTCDate()`. -/
def daysInMonth (year monthIndex : ℤ) : ℤ := getUTCDate (utc year (monthIndex + 1) 0 0 0)

namespace ParsedField

/-- `field.values?.has(n) ?? false`. -/
def has (f : ParsedField) (n : ℤ) : Bool := (f.values.getD []).contains (.num n)

end ParsedField

/-- The number that a value is. -/
def CronValue.toNum? : CronValue → Option ℤ
  | .num n => some n
  | .inherited _ => none

/-- `sortedValues`, of minutes or hours: their values are numbers. -/
def sortedValues (field : ParsedField) (min max : ℤ) : List ℤ :=
  if field.all then CronValue.countUp max 1 (max + 1 - min).toNat min
  else ((field.values.getD []).filterMap CronValue.toNum?).mergeSort (· ≤ ·)

/-- `domMatches`. -/
def domMatches (field : ParsedField) (year monthIndex day : ℤ) : Bool :=
  if field.all then true
  else if field.has day then true
  else field.lastDayOfMonth && day == daysInMonth year monthIndex

/-- `monthMatches`. -/
def monthMatches (field : ParsedField) (month : ℤ) : Bool := field.all || field.has month

/-- `firstAtOrAfter`. -/
def firstAtOrAfter (sorted : List ℤ) (at_ : ℤ) : Option ℤ := sorted.find? (at_ ≤ ·)

/-- `dayOk`: either of two restricted fields, or both. -/
def dayOk (parsed : ParsedCron) (domOk dowOk : Bool) : Bool :=
  let domRestricted := !parsed.dom.all || parsed.dom.lastDayOfMonth
  let dowRestricted := !parsed.dow.all
  if domRestricted && dowRestricted then domOk || dowOk else domOk && dowOk

/-- The loop over the hours of a day: the first hour with a minute, and that minute. -/
def firstTime (hours minutes : List ℤ) (hMin mMin : ℤ) : Option (ℤ × ℤ) :=
  hours.findSome? fun h =>
    if h < hMin then none
    else (firstAtOrAfter minutes (if h = hMin then mMin else 0)).map fun m => (h, m)

section

variable (parsed : ParsedCron) (hours minutes : List ℤ) (startHour startMinute : ℤ)

/-- The rounds of the loop over the days: `first` is `i === 0`. -/
def searchLoop : ℕ → Bool → ℤ → Option ℤ
  | 0, _, _ => none
  | n + 1, first, d =>
    let year := getUTCFullYear d
    let monthIndex := getUTCMonth d
    let day := getUTCDate d
    if !monthMatches parsed.month (monthIndex + 1) then
      searchLoop n false (setUTCDate d (day + (daysInMonth year monthIndex - day + 1)))
    else
      let domOk := domMatches parsed.dom year monthIndex day
      let dowOk := parsed.dow.all || parsed.dow.has (getUTCDay d)
      if !dayOk parsed domOk dowOk then searchLoop n false (setUTCDate d (day + 1))
      else
        let hMin := if first then startHour else 0
        let mMin := if first then startMinute else 0
        match firstTime hours minutes hMin mMin with
        | some (h, m) => some (utc year monthIndex day h m)
        | none => searchLoop n false (setUTCDate d (day + 1))

end

/-- `nextCronRun`, for an instant. -/
def nextCronRun (cron : String) (start : ℤ) : Option ℤ := do
  let parsed ← parseCron cron
  let hours := sortedValues parsed.hour 0 23
  let minutes := sortedValues parsed.minute 0 59
  if hours = [] ∨ minutes = [] then none
  else
    -- the current minute is not run again
    let start := start + 60000
    searchLoop parsed hours minutes (getUTCHours start) (getUTCMinutes start) searchDays true
      (utc (getUTCFullYear start) (getUTCMonth start) (getUTCDate start) 0 0)

end HeadlessErp.Cron
