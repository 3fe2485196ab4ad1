import Mathlib
import HeadlessErp.Compute.Workdays

/-!
# Spans of dates

`ADD_MONTHS` and `DATEDIF` of `packages/compute/src/functions/datetime.ts`, for whole months and
with the rounding of `Math.round` on exact numbers. The units of `DATEDIF` are computed each on its
own from the years, the months and the dates of the two ends: they fit together just where nothing
has to be borrowed, neither a month from the years nor a day from the months (`decomposes_iff`).
-/

namespace HeadlessErp.Compute

open Calendar Date

/-! ## The functions -/

section

variable {N : Type} (R : DateReader)

/-- `addMonths`, for a whole number of months. -/
def addMonths (date : JsVal N) (months : ℤ) : Except String String :=
  match toDate R date with
  | none => .ok ""
  | some d =>
    let moved := (timeClip (setUTCDate d 1)).bind fun first =>
      timeClip (setUTCMonth first (getUTCMonth first + months))
    let clamped := moved.bind fun t =>
      (timeClip (utc (getUTCFullYear t) (getUTCMonth t + 1) 0 0 0)).bind fun last =>
        timeClip (setUTCDate t (min (getUTCDate d) (getUTCDate last)))
    match clamped with
    | some t => .ok (toIso t)
    | none => .error "Invalid time value"

/-- `Math.round(ms / DAY_MS)`. -/
def roundDays (ms : ℤ) : ℤ := (2 * ms + msPerDay) / (2 * msPerDay)

/-- `toUpperCase`, on the letters of ASCII. -/
def upperUnit (unit : String) : String := String.ofList (unit.toList.map Char.toUpper)

/-- The `switch` of `datedif`, for two instants. -/
def difOf (a b : ℤ) (unit : String) : Option ℤ :=
  let y0 := getUTCFullYear a
  let m0 := getUTCMonth a
  let d0 := getUTCDate a
  let y1 := getUTCFullYear b
  let m1 := getUTCMonth b
  let d1 := getUTCDate b
  match unit with
  | "Y" => some (y1 - y0 - if m1 < m0 ∨ m1 = m0 ∧ d1 < d0 then 1 else 0)
  | "M" => some ((y1 - y0) * 12 + (m1 - m0) - if d1 < d0 then 1 else 0)
  | "D" => some (roundDays (b - a))
  | "YM" => some ((m1 - m0 + 12).tmod 12 - if d1 < d0 then 1 else 0)
  | "YD" => (timeClip (utc y1 m0 d0 0 0)).map fun sameYear => roundDays (b - sameYear)
  | "MD" => (timeClip (utc y1 (m1 + 1) 0 0 0)).map fun monthEnd => d1 - min d0 (getUTCDate monthEnd)
  | _ => none

/-- `datedif`: `none` is `NaN`. -/
def datedif [JsNumber N] (start finish unit : JsVal N) : Option ℤ := do
  let a ← toDate R start
  let b ← toDate R finish
  if b < a then none else difOf a b (upperUnit (unit.orElse (.str "D")).toStr)

end

/-! ## Midnights -/

section

variable {n y m d : ℤ}

theorem timeClip_mul : timeClip (n * msPerDay) =
    if -maxDay ≤ n ∧ n ≤ maxDay then some (n * msPerDay) else none := by
  refine if_congr ?_ rfl rfl
  simp only [maxTime, maxDay, msPerDay]
  omega

theorem timeClip_mul_eq_some {t : ℤ} :
    timeClip (n * msPerDay) = some t ↔ (-maxDay ≤ n ∧ n ≤ maxDay) ∧ t = n * msPerDay := by
  rw [timeClip_mul]
  split
  · next h => simp [h, eq_comm]
  · next h => simp [h]

theorem utc_midnight : utc y m d 0 0 = makeDay (makeFullYear y) m d * msPerDay := by
  rw [utc, zero_mul, add_zero, zero_mul, add_zero]

theorem setUTCMonth_mul (n m : ℤ) :
    setUTCMonth (n * msPerDay) m = makeDay (year n) m (date n) * msPerDay := by
  rw [setUTCMonth, getUTCFullYear_mul, getUTCDate_mul, Int.mul_emod_left, add_zero]

/-- The first of a month, by one of its days. -/
theorem first_eq (n : ℤ) : n + 1 - date n = dayOf (year n) (month n) 1 := by
  have hn := dayOf_date n
  simp only [dayOf] at hn ⊢
  omega

theorem dayOf_eq_first (y m d : ℤ) : dayOf y m d = dayOf y m 1 + d - 1 := by
  simp only [dayOf]
  omega

/-- `Date.UTC` takes no month for a longer one. -/
theorem monthLength_makeFullYear (hm : 0 ≤ m) (hm' : m ≤ 11) :
    monthLength (makeFullYear y) m ≤ monthLength y m := by
  have hleap : isLeap (makeFullYear y) = true → isLeap y = true := by
    rw [isLeap_iff, isLeap_iff, makeFullYear]
    split <;> omega
  have hlength : daysBefore false (m + 1) - daysBefore false m ≤
      daysBefore true (m + 1) - daysBefore true m := by
    simp only [daysBefore, Bool.false_eq_true, if_false, if_true]
    split <;> split <;> omega
  unfold monthLength
  cases hy : isLeap (makeFullYear y) with
  | true => rw [hleap hy]
  | false =>
    cases isLeap y with
    | true => exact hlength
    | false => exact le_rfl

/-! ## Months in their order -/

/-- The number of a day's month. -/
def monthIndex (n : ℤ) : ℤ := 12 * year n + month n

theorem monthIndex_mono {n k : ℤ} (h : n ≤ k) : monthIndex n ≤ monthIndex k := by
  have hyear := year_mono h
  obtain ⟨hn, hn'⟩ := month_bounds n
  obtain ⟨hk, hk'⟩ := month_bounds k
  by_contra hlt
  simp only [monthIndex] at hlt
  have hsame : year n = year k := by omega
  have hmono := daysBefore_mono (isLeap (year k)) (by omega)
    (show month k + 1 ≤ month n by omega)
  have hlast := (date_bounds k).2
  have hfirst := (date_bounds n).1
  have hnext := dayOf_date n
  have hprev := dayOf_date k
  rw [hsame] at hnext
  simp only [monthLength, dayOf] at hlast hnext hprev
  omega

theorem monthIndex_dayOf (hm : 0 ≤ m) (hm' : m ≤ 11) (hd : 1 ≤ d) (hd' : d ≤ monthLength y m) :
    monthIndex (dayOf y m d) = 12 * y + m := by
  obtain ⟨hyear, hmonth, -⟩ := fields_dayOf hm hm' hd hd'
  rw [monthIndex, hyear, hmonth]

/-- The firsts of months are in the order of the months. -/
theorem first_le_first {y' m' : ℤ} (hm : 0 ≤ m) (hm' : m ≤ 11) (hk : 0 ≤ m') (hk' : m' ≤ 11)
    (h : 12 * y + m ≤ 12 * y' + m') : dayOf y m 1 ≤ dayOf y' m' 1 := by
  by_contra hlt
  have hmono := monthIndex_mono (not_le.1 hlt).le
  rw [monthIndex_dayOf hk hk' le_rfl (one_le_monthLength hk hk'),
    monthIndex_dayOf hm hm' le_rfl (one_le_monthLength hm hm')] at hmono
  have hyear : y = y' := by omega
  have hmonth : m = m' := by omega
  subst hyear hmonth
  exact hlt le_rfl

/-- A day of an earlier month is before the first of a later one. -/
theorem lt_first (hm : 0 ≤ m) (hm' : m ≤ 11) (h : monthIndex n < 12 * y + m) :
    n < dayOf y m 1 := by
  by_contra hle
  have hmono := monthIndex_mono (not_lt.1 hle)
  rw [monthIndex_dayOf hm hm' le_rfl (one_le_monthLength hm hm')] at hmono
  omega

end

/-! ## The months after a date -/

section

variable {N : Type} (R : DateReader)

/-- `ADD_MONTHS(start, k)` is the date of a day. -/
def AfterMonths (start : JsVal N) (k n : ℤ) : Prop :=
  ∃ s, addMonths R start k = .ok s ∧ toDate R (.str s : JsVal N) = some (n * msPerDay)

variable {R} {start : JsVal N} {first k n y m : ℤ}

theorem toIso_mul (n : ℤ) : toIso (n * msPerDay) = isoDate n := by
  rw [toIso, day_mul]

/-- `ADD_MONTHS` by the fields of the month that is reached. -/
theorem addMonths_eq (hstart : toDate R start = some (first * msPerDay)) (hm : 0 ≤ m) (hm' : m ≤ 11)
    (hindex : 12 * y + m = monthIndex first + k)
    (hlow : -maxDay ≤ dayOf (year first) (month first) 1 ∧
      dayOf (year first) (month first) 1 ≤ maxDay) :
    addMonths R start k =
      match ((timeClip (dayOf y m 1 * msPerDay)).bind fun _ =>
        (timeClip (dayOf (makeFullYear y) m (monthLength (makeFullYear y) m) * msPerDay)).bind
          fun _ => timeClip
            (dayOf y m (min (date first) (monthLength (makeFullYear y) m)) * msPerDay)) with
      | some t => .ok (toIso t)
      | none => .error "Invalid time value" := by
  obtain ⟨hm0, hm0'⟩ := month_bounds first
  have hstep : timeClip (setUTCDate (first * msPerDay) 1) =
      some (dayOf (year first) (month first) 1 * msPerDay) := by
    rw [setUTCDate_eq, first_eq, timeClip_mul, if_pos hlow]
  have hmoved : setUTCMonth (dayOf (year first) (month first) 1 * msPerDay)
      (getUTCMonth (dayOf (year first) (month first) 1 * msPerDay) + k) =
        dayOf y m 1 * msPerDay := by
    obtain ⟨hyear, hmonth, hdate⟩ := fields_dayOf hm0 hm0' le_rfl
      (one_le_monthLength (y := year first) hm0 hm0')
    rw [getUTCMonth_mul, setUTCMonth_mul, hyear, hmonth, hdate, makeDay]
    simp only [monthIndex] at hindex
    rw [show year first + (month first + k) / 12 = y by omega,
      show (month first + k) % 12 = m by omega]
  obtain ⟨hyear, hmonth, hdate⟩ := fields_dayOf hm hm' le_rfl (one_le_monthLength (y := y) hm hm')
  rw [addMonths, hstart]
  dsimp only
  rw [hstep, Option.bind_some, hmoved]
  cases hclip : timeClip (dayOf y m 1 * msPerDay) with
  | none => rfl
  | some t =>
    obtain ⟨-, rfl⟩ := timeClip_mul_eq_some.1 hclip
    rw [Option.bind_some, Option.bind_some, getUTCFullYear_mul, getUTCMonth_mul, hyear, hmonth,
      utc_midnight, makeDay_zero hm hm']
    cases hlast : timeClip
        (dayOf (makeFullYear y) m (monthLength (makeFullYear y) m) * msPerDay) with
    | none => rfl
    | some t =>
      obtain ⟨-, rfl⟩ := timeClip_mul_eq_some.1 hlast
      rw [Option.bind_some, Option.bind_some, getUTCDate_mul, getUTCDate_mul,
        (fields_dayOf hm hm' (one_le_monthLength hm hm') le_rfl).2.2, setUTCDate_eq, hdate]
      congr 4
      simp only [dayOf]
      omega

/-- The day that many months later, where the month that is reached is in the range of dates. -/
theorem afterMonths_iff (hstart : toDate R start = some (first * msPerDay)) (hm : 0 ≤ m)
    (hm' : m ≤ 11) (hindex : 12 * y + m = monthIndex first + k)
    (hlow : -maxDay ≤ dayOf (year first) (month first) 1 ∧
      dayOf (year first) (month first) 1 ≤ maxDay) :
    AfterMonths R start k n ↔
      ((-maxDay ≤ dayOf y m 1 ∧ dayOf y m 1 ≤ maxDay) ∧
        (-maxDay ≤ dayOf (makeFullYear y) m (monthLength (makeFullYear y) m) ∧
          dayOf (makeFullYear y) m (monthLength (makeFullYear y) m) ≤ maxDay) ∧
        (-maxDay ≤ n ∧ n ≤ maxDay)) ∧
      n = dayOf y m (min (date first) (monthLength (makeFullYear y) m)) := by
  unfold AfterMonths
  rw [addMonths_eq hstart hm hm' hindex hlow]
  constructor
  · rintro ⟨s, hs, hread⟩
    split at hs
    · next t ht =>
      obtain ⟨_, hfirst, ht⟩ := Option.bind_eq_some_iff.1 ht
      obtain ⟨_, hlast, ht⟩ := Option.bind_eq_some_iff.1 ht
      obtain ⟨hrange, rfl⟩ := timeClip_mul_eq_some.1 ht
      rw [← Except.ok.inj hs, toIso_mul] at hread
      have heq := Option.some.inj (hread.symm.trans (R.iso hrange.1 hrange.2))
      rw [mul_left_inj' (by decide)] at heq
      exact ⟨⟨(timeClip_mul_eq_some.1 hfirst).1, (timeClip_mul_eq_some.1 hlast).1,
        heq ▸ hrange⟩, heq⟩
    · cases hs
  · rintro ⟨⟨hfirst, hlast, hrange⟩, rfl⟩
    refine ⟨_, ?_, R.iso hrange.1 hrange.2⟩
    rw [timeClip_mul, if_pos hfirst, timeClip_mul, if_pos hlast, timeClip_mul, if_pos hrange,
      Option.bind_some, Option.bind_some]
    exact congrArg Except.ok (toIso_mul _)

theorem day_range (h : toDate R start = some (n * msPerDay)) : -maxDay ≤ n ∧ n ≤ maxDay := by
  have hrange := range_of_toDate h
  simp only [maxTime, maxDay, msPerDay] at hrange ⊢
  omega

/-- The first of the month of a date is a date where months are added to it. -/
theorem AfterMonths.first_low (hstart : toDate R start = some (first * msPerDay))
    (h : AfterMonths R start k n) : -maxDay ≤ dayOf (year first) (month first) 1 := by
  obtain ⟨s, hs, -⟩ := h
  by_contra hlow
  rw [addMonths, hstart] at hs
  dsimp only at hs
  rw [setUTCDate_eq, first_eq, timeClip_mul, if_neg fun hrange => hlow hrange.1] at hs
  cases hs

theorem first_range (hstart : toDate R start = some (first * msPerDay))
    (hlow : -maxDay ≤ dayOf (year first) (month first) 1) :
    -maxDay ≤ dayOf (year first) (month first) 1 ∧
      dayOf (year first) (month first) 1 ≤ maxDay := by
  have hrange := day_range hstart
  have hfirst := first_eq first
  have hdate := (date_bounds first).1
  omega

/-- A day a number of months later is in that month, and on the same date if the month has it. -/
theorem AfterMonths.fields (hstart : toDate R start = some (first * msPerDay))
    (h : AfterMonths R start k n) :
    monthIndex n = monthIndex first + k ∧
      date n = min (date first) (monthLength (makeFullYear (year n)) (month n)) := by
  obtain ⟨y, m, hm, hm', hindex⟩ : ∃ y m, 0 ≤ m ∧ m ≤ 11 ∧ 12 * y + m = monthIndex first + k :=
    ⟨(monthIndex first + k) / 12, (monthIndex first + k) % 12, by omega, by omega, by omega⟩
  obtain ⟨-, rfl⟩ := (afterMonths_iff hstart hm hm' hindex
    (first_range hstart (h.first_low hstart))).1 h
  have hlow : 1 ≤ min (date first) (monthLength (makeFullYear y) m) :=
    le_min (date_bounds first).1 (one_le_monthLength hm hm')
  have hhigh : min (date first) (monthLength (makeFullYear y) m) ≤ monthLength y m :=
    (min_le_right _ _).trans (monthLength_makeFullYear hm hm')
  obtain ⟨hyear, hmonth, hdate⟩ := fields_dayOf hm hm' hlow hhigh
  exact ⟨(monthIndex_dayOf hm hm' hlow hhigh).trans hindex, by rw [hdate, hyear, hmonth]⟩

/-- There is a day that many months later where its month is one of the range of dates. -/
theorem afterMonths (hstart : toDate R start = some (first * msPerDay)) (hm : 0 ≤ m) (hm' : m ≤ 11)
    (hindex : 12 * y + m = monthIndex first + k) (hyear : makeFullYear y = y)
    (hlow : -maxDay ≤ dayOf (year first) (month first) 1) (hk : 0 ≤ k)
    (hhigh : dayOf y m (monthLength y m) ≤ maxDay) :
    AfterMonths R start k (dayOf y m (min (date first) (monthLength y m))) := by
  obtain ⟨hm0, hm0'⟩ := month_bounds first
  have hfirst : dayOf (year first) (month first) 1 ≤ dayOf y m 1 :=
    first_le_first hm0 hm0' hm hm' (by rw [hindex, monthIndex]; omega)
  have hlength : 1 ≤ monthLength y m := one_le_monthLength hm hm'
  have hmin : 1 ≤ min (date first) (monthLength y m) := le_min (date_bounds first).1 hlength
  have hmin' : min (date first) (monthLength y m) ≤ monthLength y m := min_le_right _ _
  have hlast := dayOf_eq_first y m (monthLength y m)
  have hday := dayOf_eq_first y m (min (date first) (monthLength y m))
  rw [afterMonths_iff hstart hm hm' hindex (first_range hstart hlow), hyear]
  refine ⟨⟨?_, ?_, ?_⟩, rfl⟩ <;> constructor <;> omega

end

/-! ## The units of `DATEDIF` -/

section

variable {N : Type} [JsNumber N] (R : DateReader)

/-- Two texts that are read as midnights, in their order. -/
structure Span (N : Type) (R : DateReader) where
  start : JsVal N
  finish : JsVal N
  first : ℤ
  last : ℤ
  start_read : toDate R start = some (first * msPerDay)
  finish_read : toDate R finish = some (last * msPerDay)
  ordered : first ≤ last

variable {R}

/-- `DATEDIF` of a span in a unit. -/
def Span.dif (s : Span N R) (unit : String) : Option ℤ := datedif R s.start s.finish (.str unit)

/-- `DATEDIF` decomposes a span: the whole years and months, the months after the years, and the
days after either. No later month would still be in the span, but where its date is clamped. -/
structure Span.Decomposed (s : Span N R) (y m ym yd md : ℤ) : Prop where
  years : s.dif "Y" = some y
  months : s.dif "M" = some m
  yearMonths : s.dif "YM" = some ym
  yearDays : s.dif "YD" = some yd
  monthDays : s.dif "MD" = some md
  total : 12 * y + ym = m
  within_year : 0 ≤ ym ∧ ym ≤ 11
  greatest : ∀ k > m, ∀ n, AfterMonths R s.start k n → n ≤ s.last → date n ≠ date s.first
  after_months : 0 ≤ md ∧ AfterMonths R s.start m (s.last - md)
  after_years : 0 ≤ yd ∧ AfterMonths R s.start (12 * y) (s.last - yd)

/-- Nothing is borrowed: the later date has no earlier month and no earlier day of the month. The
date of the start is one of the last year, which is not taken for another one, and the months of
both are in the range of dates. -/
structure Span.Unborrowed (s : Span N R) : Prop where
  month_le : month s.first ≤ month s.last
  date_le : date s.first ≤ date s.last
  date_exists : date s.first ≤ monthLength (year s.last) (month s.first)
  year_kept : makeFullYear (year s.last) = year s.last
  month_low : -maxDay ≤ dayOf (year s.first) (month s.first) 1
  month_high :
    dayOf (year s.last) (month s.last) (monthLength (year s.last) (month s.last)) ≤ maxDay

variable {s : Span N R}

theorem roundDays_mul (n : ℤ) : roundDays (n * msPerDay) = n := by
  simp only [roundDays, msPerDay]
  omega

theorem dif_eq (s : Span N R) (unit : String) :
    s.dif unit = difOf (s.first * msPerDay) (s.last * msPerDay) (upperUnit unit) := by
  have hle : ¬ s.last * msPerDay < s.first * msPerDay := by
    have hordered := s.ordered
    simp only [msPerDay]
    omega
  rw [Span.dif, datedif, s.start_read, s.finish_read, Option.bind_eq_bind, Option.bind_some,
    Option.bind_some, if_neg hle]
  rfl

theorem dif_years : s.dif "Y" = some (year s.last - year s.first -
    if month s.last < month s.first ∨ month s.last = month s.first ∧ date s.last < date s.first
      then 1 else 0) := by
  rw [dif_eq, show upperUnit "Y" = "Y" by decide]
  simp only [difOf, getUTCFullYear_mul, getUTCMonth_mul, getUTCDate_mul]

theorem dif_months : s.dif "M" = some ((year s.last - year s.first) * 12 +
    (month s.last - month s.first) - if date s.last < date s.first then 1 else 0) := by
  rw [dif_eq, show upperUnit "M" = "M" by decide]
  simp only [difOf, getUTCFullYear_mul, getUTCMonth_mul, getUTCDate_mul]

theorem dif_yearMonths : s.dif "YM" = some ((month s.last - month s.first + 12) % 12 -
    if date s.last < date s.first then 1 else 0) := by
  obtain ⟨hm, hm'⟩ := month_bounds s.first
  obtain ⟨hk, hk'⟩ := month_bounds s.last
  rw [dif_eq, show upperUnit "YM" = "YM" by decide,
    ← Int.tmod_eq_emod_of_nonneg (by omega : 0 ≤ month s.last - month s.first + 12)]
  simp only [difOf, getUTCMonth_mul, getUTCDate_mul]

theorem dif_yearDays {yd : ℤ} : s.dif "YD" = some yd ↔
    (-maxDay ≤ dayOf (makeFullYear (year s.last)) (month s.first) (date s.first) ∧
        dayOf (makeFullYear (year s.last)) (month s.first) (date s.first) ≤ maxDay) ∧
      yd = s.last - dayOf (makeFullYear (year s.last)) (month s.first) (date s.first) := by
  obtain ⟨hm, hm'⟩ := month_bounds s.first
  rw [dif_eq, show upperUnit "YD" = "YD" by decide]
  simp only [difOf, getUTCFullYear_mul, getUTCMonth_mul, getUTCDate_mul, utc_midnight,
    makeDay_eq hm hm', timeClip_mul]
  split
  · next h =>
    rw [Option.map_some, ← sub_mul, roundDays_mul]
    simp [h, eq_comm]
  · next h => simp [h]

theorem dif_monthDays {md : ℤ} : s.dif "MD" = some md ↔
    (-maxDay ≤ dayOf (makeFullYear (year s.last)) (month s.last)
          (monthLength (makeFullYear (year s.last)) (month s.last)) ∧
        dayOf (makeFullYear (year s.last)) (month s.last)
          (monthLength (makeFullYear (year s.last)) (month s.last)) ≤ maxDay) ∧
      md = date s.last -
        min (date s.first) (monthLength (makeFullYear (year s.last)) (month s.last)) := by
  obtain ⟨hm, hm'⟩ := month_bounds s.last
  rw [dif_eq, show upperUnit "MD" = "MD" by decide]
  simp only [difOf, getUTCFullYear_mul, getUTCMonth_mul, getUTCDate_mul, utc_midnight,
    makeDay_zero hm hm', timeClip_mul]
  split
  · next h =>
    rw [Option.map_some, getUTCDate_mul,
      (fields_dayOf hm hm' (one_le_monthLength hm hm') le_rfl).2.2]
    simp [h, eq_comm]
  · next h => simp [h]

/-! ## What is borrowed -/

/-- A day that is borrowed from a month counts as many as the whole last month has passed. -/
theorem Span.Decomposed.date_le {y m ym yd md : ℤ} (h : s.Decomposed y m ym yd md) :
    date s.first ≤ date s.last := by
  by_contra hlt
  obtain ⟨hk, hk'⟩ := month_bounds s.last
  have hmonths := Option.some.inj (h.months.symm.trans dif_months)
  rw [if_pos (not_le.1 hlt)] at hmonths
  obtain ⟨hindex, -⟩ := h.after_months.2.fields s.start_read
  -- the months end in the month before the last one
  have hbefore : s.last - md < dayOf (year s.last) (month s.last) 1 :=
    lt_first hk hk' (by rw [hindex, hmonths, monthIndex]; omega)
  obtain ⟨-, hdays⟩ := dif_monthDays.1 h.monthDays
  have hmin : 1 ≤ min (date s.first)
      (monthLength (makeFullYear (year s.last)) (month s.last)) :=
    le_min (date_bounds s.first).1 (one_le_monthLength hk hk')
  have hfirst := first_eq s.last
  omega

/-- The years that `Date.UTC` takes for others are taken for later ones. -/
theorem makeFullYear_or (y : ℤ) : makeFullYear y = y ∨ y + 1 ≤ makeFullYear y := by
  unfold makeFullYear
  split <;> omega

/-- What is left of the year is not negative only after the date of the start. -/
theorem Span.Decomposed.year_month {y m ym yd md : ℤ} (h : s.Decomposed y m ym yd md) :
    makeFullYear (year s.last) = year s.last ∧ month s.first ≤ month s.last := by
  obtain ⟨hm, hm'⟩ := month_bounds s.first
  obtain ⟨hk, hk'⟩ := month_bounds s.last
  have hdays := (dif_yearDays.1 h.yearDays).2
  have hpos := h.after_years.1
  have hfirst := dayOf_eq_first (makeFullYear (year s.last)) (month s.first) (date s.first)
  have hdate := (date_bounds s.first).1
  have hle : 12 * makeFullYear (year s.last) + month s.first ≤ monthIndex s.last := by
    by_contra hlt
    have hbefore := lt_first hm hm' (not_le.1 hlt)
    omega
  simp only [monthIndex] at hle
  rcases makeFullYear_or (year s.last) with heq | hlater
  · exact ⟨heq, by omega⟩
  · omega

theorem Span.Decomposed.unborrowed {y m ym yd md : ℤ} (h : s.Decomposed y m ym yd md) :
    s.Unborrowed := by
  obtain ⟨hyear, hmonth⟩ := h.year_month
  have hdate := h.date_le
  obtain ⟨hm, hm'⟩ := month_bounds s.first
  refine ⟨hmonth, hdate, ?_, hyear, h.after_years.2.first_low s.start_read, ?_⟩
  · -- the years end on the date of the start
    have hyears := Option.some.inj (h.years.symm.trans dif_years)
    rw [if_neg (by omega)] at hyears
    obtain ⟨hindex, hsame⟩ := h.after_years.2.fields s.start_read
    have hdays := (dif_yearDays.1 h.yearDays).2
    obtain ⟨hb, hb'⟩ := month_bounds (s.last - yd)
    have hy : year (s.last - yd) = year s.last := by
      simp only [monthIndex] at hindex
      omega
    have hmn : month (s.last - yd) = month s.first := by
      simp only [monthIndex] at hindex
      omega
    have hday := dayOf_date (s.last - yd)
    rw [hsame, hy, hmn, hyear, dayOf_eq_first] at hday
    rw [hyear, dayOf_eq_first] at hdays
    have hmin : min (Calendar.date s.first) (monthLength (year s.last) (month s.first)) =
      Calendar.date s.first := by omega
    exact min_eq_left_iff.1 hmin
  · have hrange := (dif_monthDays.1 h.monthDays).1
    rw [hyear] at hrange
    exact hrange.2

/-- Where nothing is borrowed, the units are the differences of the fields. -/
theorem Span.Unborrowed.decomposed (h : s.Unborrowed) :
    s.Decomposed (year s.last - year s.first)
      (12 * (year s.last - year s.first) + (month s.last - month s.first))
      (month s.last - month s.first)
      (s.last - dayOf (year s.last) (month s.first) (date s.first))
      (date s.last - date s.first) := by
  obtain ⟨hm, hm'⟩ := month_bounds s.first
  obtain ⟨hk, hk'⟩ := month_bounds s.last
  have hmonth := h.month_le
  have hdate := h.date_le
  have hdates := date_bounds s.first
  have hdates' := date_bounds s.last
  have hordered := year_mono s.ordered
  have hrange := day_range s.start_read
  have hrange' := day_range s.finish_read
  have hfirst := first_eq s.first
  have hlast := first_eq s.last
  have hlow := h.month_low
  have hhigh := h.month_high
  have hend := dayOf_eq_first (year s.last) (month s.last)
    (monthLength (year s.last) (month s.last))
  have hsame := dayOf_eq_first (year s.last) (month s.first) (date s.first)
  have hfirsts : dayOf (year s.first) (month s.first) 1 ≤ dayOf (year s.last) (month s.first) 1 :=
    first_le_first hm hm' hm hm' (by omega)
  have hfirsts' : dayOf (year s.last) (month s.first) 1 ≤ dayOf (year s.last) (month s.last) 1 :=
    first_le_first hm hm' hk hk' (by omega)
  have hbefore : dayOf (year s.last) (month s.first) (date s.first) ≤ s.last := by omega
  refine ⟨?_, ?_, ?_, ?_, ?_, by omega, by omega, ?_, ⟨by omega, ?_⟩, by omega, ?_⟩
  · rw [dif_years, if_neg (by omega), sub_zero]
  · rw [dif_months, if_neg (by omega), sub_zero, mul_comm]
  · rw [dif_yearMonths, if_neg (by omega), sub_zero,
      show (month s.last - month s.first + 12) % 12 = month s.last - month s.first by omega]
  · rw [dif_yearDays, h.year_kept]
    exact ⟨⟨by omega, by omega⟩, rfl⟩
  · rw [dif_monthDays, h.year_kept, min_eq_left (hdate.trans hdates'.2)]
    exact ⟨⟨by omega, hhigh⟩, rfl⟩
  · -- a later month begins after the end of the span
    intro k hk n hn hle
    obtain ⟨hindex, -⟩ := hn.fields s.start_read
    have hmono := monthIndex_mono hle
    simp only [monthIndex] at hindex hmono
    omega
  · have hafter := afterMonths (k := 12 * (year s.last - year s.first) +
      (month s.last - month s.first)) s.start_read hk hk' (by rw [monthIndex]; omega) h.year_kept
      hlow (by omega) hhigh
    rw [min_eq_left (hdate.trans hdates'.2)] at hafter
    have heq : s.last - (date s.last - date s.first) =
        dayOf (year s.last) (month s.last) (date s.first) := by
      have hday := dayOf_eq_first (year s.last) (month s.last) (date s.first)
      omega
    rwa [heq]
  · have hafter := afterMonths (k := 12 * (year s.last - year s.first)) s.start_read hm hm'
      (y := year s.last) (by rw [monthIndex]; omega) h.year_kept hlow (by omega) ?_
    · rw [min_eq_left h.date_exists] at hafter
      rwa [sub_sub_cancel]
    · rcases eq_or_lt_of_le hmonth with heq | hlt
      · rwa [heq]
      · -- an earlier month ends before the last one begins
        have hnext := dayOf_next (year s.last) (month s.first)
        have hle : dayOf (year s.last) (month s.first + 1) 1 ≤
            dayOf (year s.last) (month s.last) 1 :=
          first_le_first (by omega) (by omega) hk hk' (by omega)
        simp only [dayOf] at hnext hle hlast ⊢
        omega

/-- `DATEDIF` decomposes just the spans in which nothing is borrowed. -/
theorem decomposes_iff (s : Span N R) :
    (∃ y m ym yd md, s.Decomposed y m ym yd md) ↔ s.Unborrowed :=
  ⟨fun ⟨_, _, _, _, _, h⟩ => h.unborrowed, fun h => ⟨_, _, _, _, _, h.decomposed⟩⟩

end

/-! ## From January to February -/

/-- From the 15th of January 2026 to the tenth of February. -/
def midwinter : Span (Option Int) isoReader where
  start := .str (isoDate 20468)
  finish := .str (isoDate 20494)
  first := 20468
  last := 20494
  start_read := isoReader.iso (by decide) (by decide)
  finish_read := isoReader.iso (by decide) (by decide)
  ordered := by decide

/-- The days after no whole month are less than none. -/
theorem midwinter_monthDays : midwinter.dif "MD" = some (-5) := by
  rw [dif_monthDays]
  decide

/-- A day is borrowed. -/
theorem midwinter_not_decomposed :
    ¬ ∀ (R : DateReader) (s : Span (Option Int) R), ∃ y m ym yd md, s.Decomposed y m ym yd md := by
  intro h
  obtain ⟨y, m, ym, yd, md, hs⟩ := h isoReader midwinter
  have hmd := Option.some.inj (hs.monthDays.symm.trans midwinter_monthDays)
  have hpos := hs.after_months.1
  omega

end HeadlessErp.Compute
