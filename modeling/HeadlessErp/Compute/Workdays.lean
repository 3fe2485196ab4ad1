import Mathlib
import HeadlessErp.Js.DateText
import HeadlessErp.Js.Value

/-!
# Working days

`NET_WORKDAYS` and `WORKDAY` of `packages/compute/src/functions/datetime.ts`. Both loops go from instant
to instant in steps of a day and end, at the latest, at the ends of the range of dates. A count whose
first date is the later one goes away from the other date, so it counts the days back to the beginning
of the range; the days after a date are counted as they should (`workdays_iff`).
-/

namespace HeadlessErp.Compute

open Calendar Date

section

variable {N : Type} (R : DateReader)

/-- `toDate`. -/
def toDate (v : JsVal N) : Option ℤ :=
  match v with
  | .str s => R.read s
  | _ => none

/-- `toIso`. -/
def toIso (t : ℤ) : String := isoDate (day t)

/-- `holidaySet`. -/
def holidaySet (holidays : JsVal N) : List String :=
  match holidays with
  | .arr xs => (xs.filterMap (toDate R)).map toIso
  | _ => []

/-- The test of both loops. -/
def isWorkday (hol : List String) (t : ℤ) : Bool :=
  getUTCDay t != 0 && getUTCDay t != 6 && !hol.contains (toIso t)

/-- `DAY_MS`, or its negative. -/
def stepOf (back : Bool) : ℤ := if back then -msPerDay else msPerDay

/-- What is left of the range of dates in the direction of the steps. -/
def room (back : Bool) (t : ℤ) : ℕ := (if back then t + maxTime else maxTime - t).toNat

theorem room_lt {back : Bool} {t next : ℤ} (h : timeClip (t + stepOf back) = some next) :
    room back next < room back t := by
  obtain ⟨hrange, rfl⟩ := timeClip_eq_some.1 h
  cases back <;>
    simp only [room, stepOf, msPerDay, Bool.false_eq_true, if_false, if_true] at hrange ⊢ <;> omega

/-- The loop of `netWorkdays`. It ends with an invalid date, too. -/
def countLoop (hol : List String) (target : ℤ) (back : Bool) (cur : ℤ) (count : ℕ) : ℕ :=
  if cur ≤ target then
    let count := if isWorkday hol cur then count + 1 else count
    match _h : timeClip (cur + stepOf back) with
    | some next => countLoop hol target back next count
    | none => count
  else count
termination_by room back cur
decreasing_by exact room_lt ‹_›

/-- `netWorkdays`: `none` is `NaN`. -/
def netWorkdays (start finish holidays : JsVal N) : Option ℕ := do
  let a ← toDate R start
  let b ← toDate R finish
  some (countLoop (holidaySet R holidays) (max a b) (decide (b < a)) (min a b) 0)

/-- The loop of `workday`: the text of an invalid date is a `RangeError`. -/
def workdayLoop (hol : List String) (back : Bool) (cur : ℤ) (remaining : ℕ) : Option ℤ :=
  match remaining with
  | 0 => some cur
  | left + 1 =>
    match _h : timeClip (cur + stepOf back) with
    | some next => workdayLoop hol back next (if isWorkday hol next then left else left + 1)
    | none => none
termination_by room back cur
decreasing_by exact room_lt ‹_›

/-- `workday`, for a whole number of days. -/
def workday (start : JsVal N) (days : ℤ) (holidays : JsVal N) : Except String String :=
  match toDate R start with
  | none => .ok ""
  | some a =>
    match workdayLoop (holidaySet R holidays) (decide (days < 0)) a days.natAbs with
    | some t => .ok (toIso t)
    | none => .error "Invalid time value"

/-! ## Working days -/

/-- A day is no Saturday, no Sunday and not the date of a holiday. -/
def Working (holidays : JsVal N) (n : ℤ) : Prop :=
  weekday n ≠ 0 ∧ weekday n ≠ 6 ∧
    ∀ xs, holidays = .arr xs → ∀ h ∈ xs, ∀ t, toDate R h = some t → day t ≠ n

open Classical in
/-- The working days from a day to another, both included. -/
noncomputable def workdays (holidays : JsVal N) (low high : ℤ) : ℕ :=
  ((Finset.Icc low high).filter (Working R holidays)).card

variable {R} {holidays : JsVal N} {low high n t cur target : ℤ}

theorem isWorkday_iff : isWorkday (holidaySet R holidays) t = true ↔ Working R holidays (day t) := by
  have hholiday : toIso t ∈ holidaySet R holidays ↔
      ∃ xs, holidays = .arr xs ∧ ∃ h ∈ xs, ∃ u, toDate R h = some u ∧ day u = day t := by
    unfold holidaySet
    split
    · next xs =>
      rw [List.mem_map]
      constructor
      · rintro ⟨u, hu, heq⟩
        obtain ⟨h, hmem, hread⟩ := List.mem_filterMap.1 hu
        exact ⟨xs, rfl, h, hmem, u, hread, isoDate_injective heq⟩
      · rintro ⟨xs', heq, h, hmem, u, hread, hday⟩
        cases heq
        exact ⟨u, List.mem_filterMap.2 ⟨h, hmem, hread⟩, congrArg isoDate hday⟩
    · next hnot =>
      refine iff_of_false List.not_mem_nil ?_
      rintro ⟨xs, heq, -⟩
      exact hnot xs heq
  unfold isWorkday Working getUTCDay
  rw [Bool.and_eq_true, Bool.and_eq_true, bne_iff_ne, bne_iff_ne, Bool.not_eq_true',
    ← Bool.not_eq_true, List.contains_iff_mem, hholiday, and_assoc]
  refine and_congr_right fun _ => and_congr_right fun _ => ?_
  push Not
  rfl

theorem workdays_of_lt (h : high < low) : workdays R holidays low high = 0 := by
  rw [workdays, Finset.Icc_eq_empty (not_le.2 h), Finset.filter_empty, Finset.card_empty]

open Classical in
theorem workdays_left (h : low ≤ high) : workdays R holidays low high =
    (if Working R holidays low then 1 else 0) + workdays R holidays (low + 1) high := by
  have hnot : low ∉ (Finset.Icc (low + 1) high).filter (Working R holidays) := by
    simp
  unfold workdays
  rw [← Finset.insert_Icc_add_one_left_eq_Icc h, Finset.filter_insert]
  split
  · rw [Finset.card_insert_of_notMem hnot, add_comm]
  · rw [zero_add]

open Classical in
theorem workdays_right (h : low ≤ high) : workdays R holidays low high =
    workdays R holidays low (high - 1) + if Working R holidays high then 1 else 0 := by
  have hnot : high ∉ (Finset.Icc low (high - 1)).filter (Working R holidays) := by
    simp
  unfold workdays
  rw [← Finset.insert_Icc_sub_one_right_eq_Icc h, Finset.filter_insert]
  split
  · rw [Finset.card_insert_of_notMem hnot]
  · rw [add_zero]

open Classical in
theorem workdays_mono {high' : ℤ} (h : high ≤ high') :
    workdays R holidays low high ≤ workdays R holidays low high' :=
  Finset.card_le_card (Finset.filter_subset_filter (Working R holidays) (Finset.Icc_subset_Icc_right h))

open Classical in
theorem workdays_le (low high : ℤ) : workdays R holidays low high ≤ (high + 1 - low).toNat :=
  (Finset.card_filter_le _ _).trans (Int.card_Icc low high).le

open Classical in
theorem card_le_workdays {days : Finset ℤ}
    (h : ∀ n ∈ days, (low ≤ n ∧ n ≤ high) ∧ Working R holidays n) :
    days.card ≤ workdays R holidays low high :=
  Finset.card_le_card fun n hn => Finset.mem_filter.2 ⟨Finset.mem_Icc.2 (h n hn).1, (h n hn).2⟩

/-! ## The loops -/

theorem day_step (t : ℤ) (back : Bool) :
    day (t + stepOf back) = if back then day t - 1 else day t + 1 := by
  cases back <;> simp only [day, stepOf, msPerDay, Bool.false_eq_true, if_false, if_true] <;> omega

section

variable {hol : List String} {back : Bool} {next : ℤ} {count left : ℕ}

theorem countLoop_stop (h : target < cur) : countLoop hol target back cur count = count := by
  rw [countLoop, if_neg (not_le.2 h)]

theorem countLoop_next (h : cur ≤ target) (hnext : timeClip (cur + stepOf back) = some next) :
    countLoop hol target back cur count =
      countLoop hol target back next (if isWorkday hol cur then count + 1 else count) := by
  rw [countLoop, if_pos h]
  generalize (if isWorkday hol cur then count + 1 else count) = count'
  dsimp only
  split
  · next other hother =>
    rw [hnext] at hother
    cases hother
    rfl
  · next hother =>
    rw [hnext] at hother
    cases hother

theorem countLoop_last (h : cur ≤ target) (hnext : timeClip (cur + stepOf back) = none) :
    countLoop hol target back cur count = if isWorkday hol cur then count + 1 else count := by
  rw [countLoop, if_pos h]
  generalize (if isWorkday hol cur then count + 1 else count) = count'
  dsimp only
  split
  · next other hother =>
    rw [hnext] at hother
    cases hother
  · rfl

theorem workdayLoop_next (hnext : timeClip (cur + stepOf back) = some next) :
    workdayLoop hol back cur (left + 1) =
      workdayLoop hol back next (if isWorkday hol next then left else left + 1) := by
  rw [workdayLoop]
  split
  · next other hother =>
    rw [hnext] at hother
    cases hother
    rfl
  · next hother =>
    rw [hnext] at hother
    cases hother

theorem workdayLoop_last (hnext : timeClip (cur + stepOf back) = none) :
    workdayLoop hol back cur (left + 1) = none := by
  rw [workdayLoop]
  split
  · next other hother =>
    rw [hnext] at hother
    cases hother
  · rfl

end

/-- One count. -/
theorem count_eq (count : ℕ) [Decidable (Working R holidays (day t))] :
    (if isWorkday (holidaySet R holidays) t then count + 1 else count) =
      count + if Working R holidays (day t) then 1 else 0 := by
  by_cases h : Working R holidays (day t)
  · rw [if_pos (isWorkday_iff.2 h), if_pos h]
  · rw [if_neg (mt isWorkday_iff.1 h), if_neg h, add_zero]

open Classical in
/-- Forward to a target within the range: the days of the instants up to it. -/
theorem countLoop_forward (htarget : target ≤ maxTime) (hcur : -maxTime ≤ cur) (count : ℕ) :
    countLoop (holidaySet R holidays) target false cur count =
      count + workdays R holidays (day cur) (day cur + (target - cur) / msPerDay) := by
  induction hroom : room false cur using Nat.strong_induction_on generalizing cur count with
  | h n ih =>
    have hday := day_step cur false
    simp only [stepOf, Bool.false_eq_true, if_false] at hday
    by_cases hle : cur ≤ target
    · rw [workdays_left (by simp only [msPerDay]; omega), ← add_assoc, ← count_eq]
      cases hnext : timeClip (cur + stepOf false) with
      | some next =>
        obtain ⟨hrange, rfl⟩ := timeClip_eq_some.1 hnext
        rw [countLoop_next hle hnext, ih _ (hroom ▸ room_lt hnext) hrange.1 _ rfl]
        simp only [stepOf, Bool.false_eq_true, if_false, hday]
        congr 2
        simp only [msPerDay]
        omega
      | none =>
        have hbeyond := timeClip_eq_none.1 hnext
        simp only [stepOf, Bool.false_eq_true, if_false, msPerDay] at hbeyond
        rw [countLoop_last hle hnext, workdays_of_lt (by simp only [msPerDay]; omega), add_zero]
    · rw [countLoop_stop (not_le.1 hle), workdays_of_lt (by simp only [msPerDay]; omega), add_zero]

open Classical in
/-- Backward from below the target: the days from the beginning of the range. -/
theorem countLoop_backward (hle : cur ≤ target) (hcur : -maxTime ≤ cur) (hcur' : cur ≤ maxTime)
    (count : ℕ) : countLoop (holidaySet R holidays) target true cur count =
      count + workdays R holidays (-maxDay) (day cur) := by
  induction hroom : room true cur using Nat.strong_induction_on generalizing cur count with
  | h n ih =>
    have hday := day_step cur true
    simp only [stepOf, if_true] at hday
    have hfirst : -maxDay ≤ day cur := by
      simp only [maxDay, maxTime, day, msPerDay] at hcur ⊢
      omega
    rw [workdays_right hfirst, add_comm (workdays _ _ _ _), ← add_assoc, ← count_eq]
    cases hnext : timeClip (cur + stepOf true) with
    | some next =>
      obtain ⟨hrange, rfl⟩ := timeClip_eq_some.1 hnext
      rw [countLoop_next hle hnext, ih _ (hroom ▸ room_lt hnext) _ hrange.1 hrange.2 _ rfl]
      · simp only [stepOf, if_true, hday]
      · simp only [stepOf, if_true, msPerDay]
        omega
    | none =>
      have hbeyond := timeClip_eq_none.1 hnext
      simp only [stepOf, if_true, msPerDay, maxTime] at hbeyond hcur hcur'
      rw [countLoop_last hle hnext, workdays_of_lt, add_zero]
      simp only [maxDay, day, msPerDay]
      omega

/-- The last day with an instant of a time of day. -/
def lastDay (t : ℤ) : ℤ := if t % msPerDay = 0 then maxDay else maxDay - 1

theorem lastDay_step (t : ℤ) : lastDay (t + stepOf false) = lastDay t := by
  have hmod : (t + stepOf false) % msPerDay = t % msPerDay := by
    simp only [stepOf, msPerDay, Bool.false_eq_true, if_false]
    omega
  rw [lastDay, hmod, ← lastDay]

theorem day_le_lastDay (h : t ≤ maxTime) : day t ≤ lastDay t := by
  unfold lastDay
  split <;> simp only [day, maxTime, maxDay, msPerDay] at * <;> omega

/-- What the loop finds: the days after the first, up to the last of as many working days. -/
theorem workdayLoop_eq_some {left : ℕ} (hcur : cur ≤ maxTime)
    (h : workdayLoop (holidaySet R holidays) false cur left = some t) :
    day t ≤ lastDay cur ∧ day cur ≤ day t ∧ workdays R holidays (day cur + 1) (day t) = left ∧
      (left ≠ 0 → Working R holidays (day t)) := by
  induction hroom : room false cur using Nat.strong_induction_on generalizing cur left with
  | h n ih =>
    cases left with
    | zero =>
      rw [workdayLoop] at h
      obtain rfl := Option.some.inj h
      exact ⟨day_le_lastDay hcur, le_rfl, workdays_of_lt (by omega), fun hne => absurd rfl hne⟩
    | succ left =>
      cases hnext : timeClip (cur + stepOf false) with
      | none =>
        rw [workdayLoop_last hnext] at h
        cases h
      | some next =>
        obtain ⟨hrange, rfl⟩ := timeClip_eq_some.1 hnext
        have hday := day_step cur false
        rw [if_neg Bool.false_ne_true] at hday
        rw [workdayLoop_next hnext] at h
        obtain ⟨hlast, hle, hcount, hworking⟩ := ih _ (hroom ▸ room_lt hnext) hrange.2 h rfl
        rw [lastDay_step] at hlast
        rw [hday] at hle hcount
        refine ⟨hlast, by omega, ?_, fun _ => ?_⟩
        · rw [workdays_left hle, hcount]
          split
          · next hwork =>
            rw [if_pos (isWorkday_iff.2 (hday.symm ▸ hwork)), add_comm]
          · next hwork =>
            rw [if_neg fun hin => hwork (hday ▸ isWorkday_iff.1 hin), zero_add]
        · by_cases hin : isWorkday (holidaySet R holidays) (cur + stepOf false) = true
          · by_cases hzero : left = 0
            · subst hzero
              rw [if_pos hin, workdayLoop] at h
              obtain rfl := Option.some.inj h
              exact isWorkday_iff.1 hin
            · exact hworking (by rwa [if_pos hin])
          · exact hworking (by rw [if_neg hin]; exact Nat.succ_ne_zero left)

/-- The loop ends where enough working days are left. -/
theorem exists_workdayLoop {left : ℕ} (hcur : -maxTime ≤ cur)
    (h : left ≤ workdays R holidays (day cur + 1) (lastDay cur)) :
    ∃ t, workdayLoop (holidaySet R holidays) false cur left = some t := by
  induction hroom : room false cur using Nat.strong_induction_on generalizing cur left with
  | h n ih =>
    cases left with
    | zero => exact ⟨cur, by rw [workdayLoop]⟩
    | succ left =>
      have hday := day_step cur false
      rw [if_neg Bool.false_ne_true] at hday
      cases hnext : timeClip (cur + stepOf false) with
      | none =>
        have hbeyond := timeClip_eq_none.1 hnext
        simp only [stepOf, Bool.false_eq_true, if_false, msPerDay, maxTime] at hbeyond hcur
        rw [workdays_of_lt] at h
        · exact absurd h (Nat.not_succ_le_zero left)
        · unfold lastDay
          split <;> simp only [maxDay, day, msPerDay] at * <;> omega
      | some next =>
        obtain ⟨hrange, rfl⟩ := timeClip_eq_some.1 hnext
        rw [workdayLoop_next hnext]
        refine ih _ (hroom ▸ room_lt hnext) hrange.1 ?_ rfl
        have hle : day cur + 1 ≤ lastDay cur := by
          rw [← hday, ← lastDay_step]
          exact day_le_lastDay hrange.2
        rw [workdays_left hle] at h
        rw [hday, lastDay_step]
        split at h
        · next hwork =>
          rw [if_pos (isWorkday_iff.2 (hday.symm ▸ hwork))]
          omega
        · next hwork =>
          rw [if_neg fun hin => hwork (hday ▸ isWorkday_iff.1 hin)]
          omega

/-! ## What the functions give -/

section

variable {start finish : JsVal N} {a b d : ℤ} {days : ℕ}

theorem range_of_toDate (h : toDate R start = some a) : -maxTime ≤ a ∧ a ≤ maxTime := by
  unfold toDate at h
  split at h
  · exact R.range h
  · cases h

theorem netWorkdays_eq (ha : toDate R start = some a) (hb : toDate R finish = some b) :
    netWorkdays R start finish holidays = some (if a ≤ b then
      workdays R holidays (day a) (day a + (b - a) / msPerDay)
      else workdays R holidays (-maxDay) (day b)) := by
  obtain ⟨hlow, hlow'⟩ := range_of_toDate ha
  obtain ⟨hhigh, hhigh'⟩ := range_of_toDate hb
  rw [netWorkdays, ha, hb, Option.bind_eq_bind, Option.bind_some, Option.bind_some]
  congr 1
  by_cases hle : a ≤ b
  · rw [max_eq_right hle, min_eq_left hle, decide_eq_false (not_lt.2 hle), if_pos hle,
      countLoop_forward hhigh' hlow, zero_add]
  · have hlt := (not_le.1 hle).le
    rw [max_eq_left hlt, min_eq_right hlt, decide_eq_true (not_le.1 hle), if_neg hle,
      countLoop_backward hlt hhigh hhigh', zero_add]

/-- `NET_WORKDAYS` counts the working days between two dates, in either order. -/
structure CountsDays (R : DateReader) (holidays start finish : JsVal N) (a b : ℤ) : Prop where
  count : netWorkdays R start finish holidays =
    some (workdays R holidays (min (day a) (day b)) (max (day a) (day b)))
  swap : netWorkdays R finish start holidays = netWorkdays R start finish holidays

/-- `WORKDAY` gives a working day after a date, and `NET_WORKDAYS` counts that many from the day after
the date to it. -/
def CountsTo (R : DateReader) (holidays start : JsVal N) (d : ℤ) (days : ℕ) : Prop :=
  ∃ m, workday R start days holidays = .ok (isoDate m) ∧ Working R holidays m ∧ day d < m ∧
    netWorkdays R (.str (isoDate (day d + 1))) (.str (isoDate m)) holidays = some days

/-- The days of the instants from one to another, of which the last may be missed. -/
theorem workdays_instants (h : a < b) :
    workdays R holidays (day a) (day a + (b - a) / msPerDay) = workdays R holidays (day a) (day b) ↔
      a % msPerDay ≤ b % msPerDay ∨ ¬ Working R holidays (day b) := by
  by_cases htime : a % msPerDay ≤ b % msPerDay
  · refine iff_of_true ?_ (.inl htime)
    congr 1
    simp only [day, msPerDay] at htime ⊢
    omega
  · have hlast : day a + (b - a) / msPerDay = day b - 1 := by
      simp only [day, msPerDay] at htime ⊢
      omega
    have hle : day a ≤ day b := by
      simp only [day, msPerDay]
      omega
    rw [hlast, workdays_right hle]
    split
    · next hwork => simp [htime, hwork]
    · next hwork => simp [hwork]

theorem countsDays_of_lt (ha : toDate R start = some a) (hb : toDate R finish = some b) (h : a < b) :
    CountsDays R holidays start finish a b ↔
      (a % msPerDay ≤ b % msPerDay ∨ ¬ Working R holidays (day b)) ∧
        workdays R holidays (-maxDay) (day a) = workdays R holidays (day a) (day b) := by
  have hdays : day a ≤ day b := by
    simp only [day, msPerDay]
    omega
  have hforward : netWorkdays R start finish holidays = _ := netWorkdays_eq ha hb
  have hbackward : netWorkdays R finish start holidays = _ := netWorkdays_eq hb ha
  rw [if_pos h.le] at hforward
  rw [if_neg (not_le.2 h)] at hbackward
  rw [← workdays_instants h]
  constructor
  · rintro ⟨hcount, hswap⟩
    rw [min_eq_left hdays, max_eq_right hdays, hforward] at hcount
    rw [hforward, hbackward] at hswap
    exact ⟨Option.some.inj hcount, (Option.some.inj hswap).trans (Option.some.inj hcount)⟩
  · rintro ⟨hcount, hswap⟩
    refine ⟨?_, ?_⟩
    · rw [min_eq_left hdays, max_eq_right hdays, hforward, hcount]
    · rw [hforward, hbackward, hcount, hswap]

theorem CountsDays.symm (h : CountsDays R holidays start finish a b) :
    CountsDays R holidays finish start b a := by
  refine ⟨?_, h.swap.symm⟩
  rw [h.swap, h.count, min_comm, max_comm]

/-- A count is right in both orders just where the two instants are one, or the later one is not
earlier in its day, or in a day off, and there are as many working days from the beginning of the range
of dates to the earlier one as there are between the two. -/
theorem countsDays_iff (ha : toDate R start = some a) (hb : toDate R finish = some b) :
    CountsDays R holidays start finish a b ↔ a = b ∨
      (min a b % msPerDay ≤ max a b % msPerDay ∨ ¬ Working R holidays (day (max a b))) ∧
        workdays R holidays (-maxDay) (day (min a b)) =
          workdays R holidays (day (min a b)) (day (max a b)) := by
  rcases lt_trichotomy a b with hlt | rfl | hgt
  · rw [min_eq_left hlt.le, max_eq_right hlt.le, countsDays_of_lt ha hb hlt]
    exact (or_iff_right hlt.ne).symm
  · refine iff_of_true ⟨?_, ?_⟩ (.inl rfl)
    · rw [netWorkdays_eq ha hb, if_pos le_rfl, min_self, max_self, sub_self, Int.zero_ediv, add_zero]
    · rw [netWorkdays_eq ha hb, netWorkdays_eq hb ha]
  · rw [min_eq_right hgt.le, max_eq_left hgt.le, ← countsDays_of_lt hb ha hgt, or_iff_right hgt.ne']
    exact ⟨.symm, .symm⟩

theorem workday_eq (hd : toDate R start = some d) :
    workday R start days holidays =
      ((workdayLoop (holidaySet R holidays) false d days).map toIso).elim
        (.error "Invalid time value") .ok := by
  have hforward : decide ((days : ℤ) < 0) = false := decide_eq_false (by omega)
  rw [workday, hd]
  dsimp only
  rw [hforward, Int.natAbs_natCast]
  cases workdayLoop (holidaySet R holidays) false d days <;> rfl

/-- What is counted to a day is the days after a date, just where as many working days are left in the
range of dates. -/
theorem countsTo_iff (hd : toDate R start = some d) (hdays : 1 ≤ days) :
    CountsTo R holidays start d days ↔ days ≤ workdays R holidays (day d + 1) (lastDay d) := by
  obtain ⟨hlow, hhigh⟩ := range_of_toDate hd
  unfold CountsTo
  rw [workday_eq hd]
  constructor
  · rintro ⟨m, hm, -⟩
    cases ht : workdayLoop (holidaySet R holidays) false d days with
    | none =>
      rw [ht] at hm
      cases hm
    | some t =>
      obtain ⟨hlast, -, hcount, -⟩ := workdayLoop_eq_some hhigh ht
      rw [← hcount]
      exact workdays_mono hlast
  · intro hle
    obtain ⟨t, ht⟩ := exists_workdayLoop hlow hle
    obtain ⟨hlast, hfirst, hcount, hworking⟩ := workdayLoop_eq_some hhigh ht
    have hafter : day d + 1 ≤ day t := by
      by_contra hlt
      rw [workdays_of_lt (by omega)] at hcount
      omega
    have hbound : lastDay d ≤ maxDay := by
      unfold lastDay
      split <;> omega
    have hbound' : -maxDay ≤ day d := by
      simp only [maxDay, maxTime, day, msPerDay] at hlow ⊢
      omega
    have hread {n : ℤ} (hn : -maxDay ≤ n) (hn' : n ≤ maxDay) :
        toDate R (.str (isoDate n) : JsVal N) = some (n * msPerDay) := R.iso hn hn'
    have hday (n : ℤ) : day (n * msPerDay) = n := by
      simp only [day, msPerDay]
      omega
    refine ⟨day t, ?_, hworking (by omega), by omega, ?_⟩
    · rw [ht]
      rfl
    · rw [netWorkdays_eq (hread (by omega) (by omega)) (hread (by omega) (by omega)), if_pos]
      · rw [hday, ← hcount]
        congr 2
        simp only [msPerDay]
        omega
      · simp only [msPerDay]
        omega

/-- The functions count working days: exactly when for two dates, and exactly when for the days after a
date. -/
theorem workdays_iff (R : DateReader) (holidays : JsVal N) :
    (∀ (start finish : JsVal N) (a b : ℤ), toDate R start = some a → toDate R finish = some b →
      (CountsDays R holidays start finish a b ↔ a = b ∨
        (min a b % msPerDay ≤ max a b % msPerDay ∨ ¬ Working R holidays (day (max a b))) ∧
          workdays R holidays (-maxDay) (day (min a b)) =
            workdays R holidays (day (min a b)) (day (max a b)))) ∧
    ∀ (start : JsVal N) (d : ℤ) (days : ℕ), toDate R start = some d → 1 ≤ days →
      (CountsTo R holidays start d days ↔
        days ≤ workdays R holidays (day d + 1) (lastDay d)) :=
  ⟨fun _ _ _ _ ha hb => countsDays_iff ha hb, fun _ _ _ hd hdays => countsTo_iff hd hdays⟩

end

end

/-! ## From a Monday to a Tuesday -/

/-- The fifth of January 2026, a Monday. -/
def monday : ℤ := 20458

theorem read_date {n : ℤ} (hlow : -maxDay ≤ n) (hhigh : n ≤ maxDay) :
    toDate isoReader (.str (isoDate n) : JsVal (Option Int)) = some (n * msPerDay) :=
  isoReader.iso hlow hhigh

theorem working_without_holidays {n : ℤ} (h : weekday n ≠ 0) (h' : weekday n ≠ 6) :
    Working isoReader (.null : JsVal (Option Int)) n := by
  refine ⟨h, h', fun xs hxs => ?_⟩
  cases hxs

/-- From a Monday to itself, and to the next working day. -/
theorem workdays_monday :
    CountsDays isoReader (.null : JsVal (Option Int)) (.str (isoDate monday)) (.str (isoDate monday))
        (monday * msPerDay) (monday * msPerDay) ∧
      CountsTo isoReader (.null : JsVal (Option Int)) (.str (isoDate monday)) (monday * msPerDay) 1 := by
  have hread := read_date (n := monday) (by decide) (by decide)
  obtain ⟨hcount, hto⟩ := workdays_iff isoReader (.null : JsVal (Option Int))
  refine ⟨(hcount _ _ _ _ hread hread).2 (.inl rfl), (hto _ _ _ hread le_rfl).2 ?_⟩
  have hday : day (monday * msPerDay) = monday := by decide
  have hlast : monday + 1 ≤ lastDay (monday * msPerDay) := by decide
  rw [hday, workdays_left hlast, if_pos (working_without_holidays (by decide) (by decide))]
  omega

/-- A Monday and the Tuesday after it, and all the working days before them. -/
theorem monday_not_counted :
    ¬ ∀ (R : DateReader) (holidays : JsVal (Option Int)),
      (∀ (start finish : JsVal (Option Int)) (a b : ℤ), toDate R start = some a →
        toDate R finish = some b → CountsDays R holidays start finish a b) ∧
      ∀ (start : JsVal (Option Int)) (d : ℤ) (days : ℕ), toDate R start = some d → 1 ≤ days →
        CountsTo R holidays start d days := by
  intro h
  have hcount := (h isoReader .null).1 _ _ _ _ (read_date (n := monday) (by decide) (by decide))
    (read_date (n := monday + 1) (by decide) (by decide))
  rw [countsDays_iff (read_date (by decide) (by decide)) (read_date (by decide) (by decide))] at hcount
  obtain heq | ⟨-, heq⟩ := hcount
  · exact absurd heq (by decide)
  have hmin : day (min (monday * msPerDay) ((monday + 1) * msPerDay)) = monday := by decide
  have hmax : day (max (monday * msPerDay) ((monday + 1) * msPerDay)) = monday + 1 := by decide
  rw [hmin, hmax] at heq
  -- the Thursday and the Friday before are counted, too
  have hmany : 3 ≤ workdays isoReader (.null : JsVal (Option Int)) (-maxDay) monday := by
    have hthree : ({monday, monday - 3, monday - 4} : Finset ℤ).card = 3 := by decide
    rw [← hthree]
    refine card_le_workdays fun n hn => ?_
    simp only [Finset.mem_insert, Finset.mem_singleton] at hn
    rcases hn with rfl | rfl | rfl
    · exact ⟨by decide, working_without_holidays (by decide) (by decide)⟩
    · exact ⟨by decide, working_without_holidays (by decide) (by decide)⟩
    · exact ⟨by decide, working_without_holidays (by decide) (by decide)⟩
  have hfew : workdays isoReader (.null : JsVal (Option Int)) monday (monday + 1) ≤ _ :=
    workdays_le monday (monday + 1)
  have htwo : (monday + 1 + 1 - monday).toNat = 2 := by decide
  omega

end HeadlessErp.Compute
