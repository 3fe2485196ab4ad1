import HeadlessErp.Cron.NextRun
import Mathlib.Data.List.Sort

/-!
# The minutes that an expression matches

What an expression means: the minutes whose hour, month and day it names, where a day is named by its
date and by its weekday, by either where both are restricted. A day that is matched comes again within
ten years (`DayMatches.again`); the times of a day are those of the sorted hours and minutes, and the
first of them is found (`firstTime_eq_some`, `firstTime_eq_none`).
-/

namespace HeadlessErp.Cron

open Calendar Date

/-! ## Matching -/

/-- A field names a value. -/
def ParsedField.Admits (f : ParsedField) (n : ℤ) : Prop := f.all = true ∨ f.has n = true

instance (f : ParsedField) (n : ℤ) : Decidable (f.Admits n) :=
  inferInstanceAs (Decidable (_ ∨ _))

/-- The day of the month names a day, as `L` names the last. -/
def DomMatches (c : ParsedCron) (n : ℤ) : Prop :=
  c.dom.Admits (date n) ∨
    c.dom.lastDayOfMonth = true ∧ date n = monthLength (year n) (month n)

instance (c : ParsedCron) (n : ℤ) : Decidable (DomMatches c n) :=
  inferInstanceAs (Decidable (_ ∨ _))

/-- The day of the week names a day. -/
def DowMatches (c : ParsedCron) (n : ℤ) : Prop := c.dow.Admits (weekday n)

instance (c : ParsedCron) (n : ℤ) : Decidable (DowMatches c n) :=
  inferInstanceAs (Decidable (_ ∨ _))

/-- An expression matches a day: either of its two fields for days if both are restricted. -/
def DayMatches (c : ParsedCron) (n : ℤ) : Prop :=
  c.month.Admits (month n + 1) ∧
    if c.dom.all = false ∧ c.dow.all = false then DomMatches c n ∨ DowMatches c n
    else DomMatches c n ∧ DowMatches c n

instance (c : ParsedCron) (n : ℤ) : Decidable (DayMatches c n) :=
  inferInstanceAs (Decidable (_ ∧ _))

/-- An expression matches an instant, which is a whole minute. -/
def Matches (c : ParsedCron) (t : ℤ) : Prop :=
  t % 60000 = 0 ∧ c.minute.Admits (getUTCMinutes t) ∧ c.hour.Admits (getUTCHours t) ∧
    DayMatches c (day t)

/-! ## Days come again -/

section

variable {c : ParsedCron} {n y m d : ℤ}

theorem exists_leap (y : ℤ) : ∃ z, y < z ∧ z ≤ y + 8 ∧ isLeap z = true := by
  by_cases h : isLeap (y + 4 - y % 4) = true
  · exact ⟨_, by omega, by omega, h⟩
  · refine ⟨y + 8 - y % 4, by omega, by omega, isLeap_iff.2 ?_⟩
    rw [isLeap_iff] at h
    omega

/-- No month is longer than in a leap year. -/
theorem monthLength_le_leap {z : ℤ} (hz : isLeap z = true) (y : ℤ) (hm : 0 ≤ m) :
    monthLength y m ≤ monthLength z m := by
  simp only [monthLength, daysBefore, hz, if_true]
  cases isLeap y with
  | false =>
    simp only [Bool.false_eq_true, if_false]
    split <;> split <;> omega
  | true =>
    simp only [if_true]
    split <;> split <;> omega

/-- A date of a leap year that follows is a day within ten years. -/
theorem dayOf_near {z : ℤ} (hlow : year n < z) (hhigh : z ≤ year n + 8) (hm : 0 ≤ m) (hm' : m ≤ 11)
    (hd : 1 ≤ d) (hd' : d ≤ monthLength z m) :
    n < dayOf z m d ∧ dayOf z m d ≤ n + 3650 := by
  have hn := dayFromYear_year n
  have hz := dayFromYear_year (dayOf z m d)
  rw [year_dayOf hm hm' hd hd'] at hz
  have hle := dayFromYear_le (show year n + 1 ≤ z by omega)
  have hle' := dayFromYear_le (show z + 1 ≤ year n + 9 by omega)
  have hnine : dayFromYear (year n + 9) ≤ dayFromYear (year n) + 3294 := by
    simp only [dayFromYear]
    omega
  omega

/-- A date within every month of its name comes again. -/
theorem dom_again (h : DomMatches c n) (k : ℤ) :
    ∃ j, k < j ∧ j ≤ k + 3650 ∧ month j = month n ∧ DomMatches c j := by
  obtain ⟨z, hlow, hhigh, hz⟩ := exists_leap (year k)
  obtain ⟨hm, hm'⟩ := month_bounds n
  obtain ⟨hd, hd'⟩ := date_bounds n
  have hlength := monthLength_le_leap hz (year n) hm
  rcases h with hadmits | ⟨hlast, -⟩
  · obtain ⟨-, hmonth, hdate⟩ := fields_dayOf hm hm' hd (hd'.trans hlength)
    obtain ⟨hgt, hle⟩ := dayOf_near hlow hhigh hm hm' hd (hd'.trans hlength)
    exact ⟨_, hgt, hle, hmonth, .inl (hdate.symm ▸ hadmits)⟩
  · have hone : 1 ≤ monthLength z (month n) := (hd.trans hd').trans hlength
    obtain ⟨hyear, hmonth, hdate⟩ := fields_dayOf hm hm' hone le_rfl
    obtain ⟨hgt, hle⟩ := dayOf_near hlow hhigh hm hm' hone le_rfl
    exact ⟨_, hgt, hle, hmonth, .inr ⟨hlast, by rw [hyear, hmonth, hdate]⟩⟩

/-- So does every day of the week in every month. -/
theorem dow_again (h : DowMatches c n) (k : ℤ) :
    ∃ j, k < j ∧ j ≤ k + 3650 ∧ month j = month n ∧ DowMatches c j := by
  obtain ⟨z, hlow, hhigh, hz⟩ := exists_leap (year k)
  obtain ⟨hm, hm'⟩ := month_bounds n
  have hlength := (monthLength_bounds (isLeap z) hm hm').1
  -- the first such day of that month
  let d := 1 + (weekday n - weekday (dayOf z (month n) 1)) % 7
  have hd : 1 ≤ d := by omega
  have hd' : d ≤ monthLength z (month n) := by
    rw [monthLength]
    omega
  obtain ⟨-, hmonth, -⟩ := fields_dayOf hm hm' hd hd'
  obtain ⟨hgt, hle⟩ := dayOf_near hlow hhigh hm hm' hd hd'
  have hweekday : weekday (dayOf z (month n) d) = weekday n := by
    simp only [weekday, dayOf, d]
    omega
  exact ⟨_, hgt, hle, hmonth, by rw [DowMatches, hweekday]; exact h⟩

theorem admits_of_all {f : ParsedField} (h : f.all = true) (n : ℤ) : f.Admits n := .inl h

/-- A day that is matched comes again within ten years. -/
theorem DayMatches.again (h : DayMatches c n) (k : ℤ) :
    ∃ j, k < j ∧ j ≤ k + 3650 ∧ DayMatches c j := by
  obtain ⟨hmonth, hday⟩ := h
  have hsame {j : ℤ} (hj : month j = month n)
      (hrule : if c.dom.all = false ∧ c.dow.all = false then DomMatches c j ∨ DowMatches c j
        else DomMatches c j ∧ DowMatches c j) : DayMatches c j :=
    ⟨hj.symm ▸ hmonth, hrule⟩
  split at hday
  · next hboth =>
    rcases hday with hdom | hdow
    · obtain ⟨j, hgt, hle, hj, hdom⟩ := dom_again hdom k
      exact ⟨j, hgt, hle, hsame hj (by rw [if_pos hboth]; exact .inl hdom)⟩
    · obtain ⟨j, hgt, hle, hj, hdow⟩ := dow_again hdow k
      exact ⟨j, hgt, hle, hsame hj (by rw [if_pos hboth]; exact .inr hdow)⟩
  · next hboth =>
    obtain ⟨hdom, hdow⟩ := hday
    by_cases hall : c.dom.all = true
    · obtain ⟨j, hgt, hle, hj, hdow⟩ := dow_again hdow k
      exact ⟨j, hgt, hle, hsame hj (by
        rw [if_neg hboth]
        exact ⟨.inl (admits_of_all hall _), hdow⟩)⟩
    · have hdowAll : c.dow.all = true := by
        rw [Bool.not_eq_true] at hall
        by_contra hdowAll
        exact hboth ⟨hall, Bool.eq_false_iff.2 hdowAll⟩
      obtain ⟨j, hgt, hle, hj, hdom⟩ := dom_again hdom k
      exact ⟨j, hgt, hle, hsame hj (by
        rw [if_neg hboth]
        exact ⟨hdom, admits_of_all hdowAll _⟩)⟩

end

/-! ## The times of a day -/

section

variable {hours minutes : List ℤ} {hMin mMin h m : ℤ}

/-- The first element from `low` on, of a sorted list. -/
theorem firstAtOrAfter_eq_some {sorted : List ℤ} {low : ℤ} (hsorted : sorted.Pairwise (· ≤ ·))
    (h : firstAtOrAfter sorted low = some m) :
    m ∈ sorted ∧ low ≤ m ∧ ∀ m' ∈ sorted, low ≤ m' → m ≤ m' := by
  obtain ⟨hm, before, after, rfl, hbefore⟩ := List.find?_eq_some_iff_append.1 h
  refine ⟨List.mem_append_right _ List.mem_cons_self, of_decide_eq_true hm, fun m' hm' hlow => ?_⟩
  rcases List.mem_append.1 hm' with hmem | hmem
  · have hnot := hbefore m' hmem
    simp [hlow] at hnot
  · rcases List.mem_cons.1 hmem with rfl | hmem
    · exact le_rfl
    · exact List.rel_of_pairwise_cons (List.pairwise_append.1 hsorted).2.1 hmem

theorem firstAtOrAfter_eq_none {sorted : List ℤ} {low : ℤ}
    (h : firstAtOrAfter sorted low = none) : ∀ m' ∈ sorted, m' < low := by
  intro m' hm'
  have hnot := List.find?_eq_none.1 h m' hm'
  simpa using hnot

/-- The loop's body for an hour without a minute. -/
theorem hour_eq_none (hbounds : ∀ m ∈ minutes, 0 ≤ m ∧ m ≤ 59) (hMin0 : 0 ≤ mMin)
    (h' : (if h < hMin then none
      else (firstAtOrAfter minutes (if h = hMin then mMin else 0)).map fun m => (h, m)) = none) :
    ∀ m ∈ minutes, 60 * h + m < 60 * hMin + mMin := by
  intro m hm
  have hm' := hbounds m hm
  split at h'
  · omega
  · next hle =>
    have hnone := firstAtOrAfter_eq_none (Option.map_eq_none_iff.1 h') m hm
    split at hnone <;> omega

/-- The loop's body for an hour with a minute. -/
theorem hour_eq_some {k : ℤ} (hminutes : minutes.Pairwise (· ≤ ·))
    (hbounds : ∀ m ∈ minutes, 0 ≤ m ∧ m ≤ 59) (hMin59 : mMin ≤ 59)
    (h' : (if k < hMin then none
      else (firstAtOrAfter minutes (if k = hMin then mMin else 0)).map fun m => (k, m)) =
        some (h, m)) :
    k = h ∧ m ∈ minutes ∧ 60 * hMin + mMin ≤ 60 * h + m ∧
      ∀ m' ∈ minutes, 60 * hMin + mMin ≤ 60 * h + m' → m ≤ m' := by
  split at h'
  · cases h'
  · next hle =>
    obtain ⟨m', hfirst, heq⟩ := Option.map_eq_some_iff.1 h'
    obtain ⟨rfl, rfl⟩ := Prod.mk.inj heq
    obtain ⟨hmem, hlow, hleast⟩ := firstAtOrAfter_eq_some hminutes hfirst
    have hm := hbounds _ hmem
    refine ⟨rfl, hmem, ?_, fun m hmem' hm' => hleast m hmem' ?_⟩
    · split at hlow <;> omega
    · have hm'' := hbounds m hmem'
      split <;> omega

/-- The least of the times of a day that are not earlier than a given one. -/
theorem firstTime_eq_some (hhours : hours.Pairwise (· ≤ ·)) (hminutes : minutes.Pairwise (· ≤ ·))
    (hbounds : ∀ m ∈ minutes, 0 ≤ m ∧ m ≤ 59) (hMin0 : 0 ≤ mMin) (hMin59 : mMin ≤ 59)
    (h' : firstTime hours minutes hMin mMin = some (h, m)) :
    h ∈ hours ∧ m ∈ minutes ∧ 60 * hMin + mMin ≤ 60 * h + m ∧
      ∀ h' ∈ hours, ∀ m' ∈ minutes, 60 * hMin + mMin ≤ 60 * h' + m' → 60 * h + m ≤ 60 * h' + m' := by
  obtain ⟨before, k, after, rfl, hk, hbefore⟩ := List.findSome?_eq_some_iff.1 h'
  obtain ⟨rfl, hmem, hlow, hleast⟩ := hour_eq_some hminutes hbounds hMin59 hk
  refine ⟨List.mem_append_right _ List.mem_cons_self, hmem, hlow, fun h hh m' hm' hlow' => ?_⟩
  rcases List.mem_append.1 hh with hh | hh
  · have hlt := hour_eq_none hbounds hMin0 (hbefore h hh) m' hm'
    omega
  · rcases List.mem_cons.1 hh with rfl | hh
    · have hle := hleast m' hm' hlow'
      omega
    · have hle := List.rel_of_pairwise_cons (List.pairwise_append.1 hhours).2.1 hh
      rcases eq_or_lt_of_le hle with rfl | hlt
      · have hle' := hleast m' hm' hlow'
        omega
      · have hm := hbounds m hmem
        have hm'' := hbounds m' hm'
        omega

theorem firstTime_eq_none (hbounds : ∀ m ∈ minutes, 0 ≤ m ∧ m ≤ 59) (hMin0 : 0 ≤ mMin)
    (h' : firstTime hours minutes hMin mMin = none) :
    ∀ h' ∈ hours, ∀ m' ∈ minutes, 60 * h' + m' < 60 * hMin + mMin :=
  fun k hk => hour_eq_none hbounds hMin0 (List.findSome?_eq_none_iff.1 h' k hk)

end

/-! ## Parsed expressions -/

/-- What the search needs of an expression: its sorted times are those that its fields name, and `L`
stands in a restricted field. -/
structure WellFormed (c : ParsedCron) : Prop where
  hours : ∀ h, h ∈ sortedValues c.hour 0 23 ↔ (0 ≤ h ∧ h ≤ 23) ∧ c.hour.Admits h
  minutes : ∀ m, m ∈ sortedValues c.minute 0 59 ↔ (0 ≤ m ∧ m ≤ 59) ∧ c.minute.Admits m
  hours_ne : sortedValues c.hour 0 23 ≠ []
  minutes_ne : sortedValues c.minute 0 59 ≠ []
  last : c.dom.all = true → c.dom.lastDayOfMonth = false

section

variable {f : ParsedField} {min max n : ℤ}

theorem le_of_mem_countUp {hi a b : ℤ} {n : ℕ} (h : b ∈ CronValue.countUp hi 1 n a) : a ≤ b := by
  induction n generalizing a with
  | zero => cases h
  | succ n ih =>
    rw [CronValue.countUp] at h
    split at h
    · rcases List.mem_cons.1 h with rfl | h
      · exact le_rfl
      · have hle := ih h
        omega
    · cases h

theorem pairwise_countUp (hi : ℤ) (n : ℕ) (a : ℤ) :
    (CronValue.countUp hi 1 n a).Pairwise (· ≤ ·) := by
  induction n generalizing a with
  | zero => exact .nil
  | succ n ih =>
    rw [CronValue.countUp]
    split
    · refine List.pairwise_cons.2 ⟨fun b hb => ?_, ih (a + 1)⟩
      have hle := le_of_mem_countUp hb
      omega
    · exact .nil

theorem pairwise_sortedValues (f : ParsedField) (min max : ℤ) :
    (sortedValues f min max).Pairwise (· ≤ ·) := by
  rw [sortedValues]
  split
  · exact pairwise_countUp max _ min
  · exact List.pairwise_mergeSort' (· ≤ ·) _

theorem mem_sortedValues_of_all (hall : f.all = true) :
    n ∈ sortedValues f min max ↔ min ≤ n ∧ n ≤ max := by
  rw [sortedValues, if_pos hall, CronValue.mem_countUp le_rfl (Int.self_le_toNat _)]
  simp

theorem mem_sortedValues_of_not_all (hall : f.all = false) :
    n ∈ sortedValues f min max ↔ f.has n = true := by
  rw [sortedValues, hall, if_neg Bool.false_ne_true, List.mem_mergeSort, List.mem_filterMap,
    ParsedField.has, List.contains_iff_mem]
  constructor
  · rintro ⟨v, hv, hn⟩
    cases v with
    | num m =>
      obtain rfl : m = n := Option.some.inj hn
      exact hv
    | inherited name => cases hn
  · exact fun h => ⟨_, h, rfl⟩

end

section

variable {f : CronField} {t : List Char} {S : Set CronValue} {C : ℤ → Set CronValue} {l : Bool}
  {d : FieldSet} {p : ParsedField}

/-- A number between the bounds of a field. -/
def Within (f : CronField) (v : CronValue) : Prop := ∃ n, v = .num n ∧ f.min ≤ n ∧ n ≤ f.max

theorem exists_num_of_valueOf {v : CronValue} (hnames : f.names = none)
    (h : valueOf t f.names = some v) : ∃ n, v = .num n := by
  rw [hnames, valueOf] at h
  obtain ⟨n, -, rfl⟩ := Option.map_eq_some_iff.1 h
  exact ⟨n, rfl⟩

theorem within_of_counted {lo hi v : CronValue} {k : ℤ} (hlo : lo.lt (.num f.min) = false)
    (hhi : (CronValue.num f.max).lt hi = false) (h : v ∈ counted lo hi k) : Within f v := by
  obtain ⟨a, b, n, rfl, rfl, rfl, han, hnb, -⟩ := h
  have hlo := of_decide_eq_false hlo
  have hhi := of_decide_eq_false hhi
  exact ⟨n, rfl, by omega, by omega⟩

theorem Base.within (h : Base accepted f t S C) (hnames : f.names = none) :
    (∀ v ∈ S, Within f v) ∧ ∀ k, ∀ v ∈ C k, Within f v := by
  have hirrefl (n : ℤ) : (CronValue.num n).lt (.num n) = false := decide_eq_false (lt_irrefl n)
  cases h with
  | star =>
    exact ⟨fun v => within_of_counted (hirrefl _) (hirrefl _),
      fun k v => within_of_counted (hirrefl _) (hirrefl _)⟩
  | value hnumber hmin hmax =>
    obtain ⟨n, rfl⟩ := exists_num_of_valueOf hnames hnumber.2.2
    refine ⟨fun v hv => ?_, fun k v => within_of_counted hmin (hirrefl _)⟩
    obtain rfl := Set.mem_singleton_iff.1 hv
    exact ⟨n, rfl, not_lt.1 (of_decide_eq_false hmin), not_lt.1 (of_decide_eq_false hmax)⟩
  | range _ _ hmin hmax _ =>
    exact ⟨fun v => within_of_counted hmin hmax, fun k v => within_of_counted hmin hmax⟩

theorem Entries.within {tokens : List (List Char)} (h : Entries accepted f tokens S l)
    (hnames : f.names = none) : ∀ v ∈ S, Within f v := by
  induction h with
  | nil => exact fun v hv => absurd hv (Set.notMem_empty v)
  | entry _ _ hentry _ ih =>
    intro v hv
    rcases hv with hv | hv
    · cases hentry with
      | plain hbase => exact (hbase.within hnames).1 v hv
      | step hbase => exact (hbase.within hnames).2 _ v hv
    · exact ih v hv
  | last _ _ ih => exact ih

/-- The sorted values of a field without names are those that it names. -/
theorem mem_sortedValues_of_fieldText (h : FieldText accepted f t d) (hp : p.Means d)
    (hnames : f.names = none) (n : ℤ) :
    n ∈ sortedValues p f.min f.max ↔ (f.min ≤ n ∧ n ≤ f.max) ∧ p.Admits n := by
  obtain ⟨hall, -, hnone, hvalues⟩ := hp
  cases h with
  | all =>
    rw [mem_sortedValues_of_all hall]
    exact ⟨fun h => ⟨h, .inl hall⟩, fun h => h.1⟩
  | list _ _ hentries _ =>
    rw [mem_sortedValues_of_not_all hall]
    refine ⟨fun hn => ⟨?_, .inr hn⟩, fun h => ?_⟩
    · obtain ⟨values, hsome⟩ := Option.isSome_iff_exists.1 (Option.isNone_eq_false_iff.1 hnone)
      rw [ParsedField.has, hsome, List.contains_iff_mem, Option.getD_some, hvalues _ hsome] at hn
      obtain ⟨m, hm, hmin, hmax⟩ := hentries.within hnames _ hn
      obtain rfl := CronValue.num.inj hm
      exact ⟨hmin, hmax⟩
    · rcases h.2 with hall' | hn
      · rw [hall] at hall'
        cases hall'
      · exact hn

/-- Minutes and hours have values. -/
theorem sortedValues_ne_nil (h : FieldText accepted f t d) (hp : p.Means d)
    (hf : f = .minute ∨ f = .hour) : sortedValues p f.min f.max ≠ [] := by
  have hnames : f.names = none := by
    rcases hf with rfl | rfl <;> rfl
  obtain ⟨n, hn⟩ : ∃ n, n ∈ sortedValues p f.min f.max := by
    cases h with
    | all =>
      refine ⟨f.min, (mem_sortedValues_of_all hp.1).2 ⟨le_rfl, ?_⟩⟩
      cases f <;> decide
    | list _ _ hentries hwhole =>
      obtain ⟨v, hv⟩ := hwhole hf
      obtain ⟨n, rfl, -⟩ := hentries.within hnames v hv
      obtain ⟨values, hsome⟩ := Option.isSome_iff_exists.1 (Option.isNone_eq_false_iff.1 hp.2.2.1)
      refine ⟨n, (mem_sortedValues_of_not_all hp.1).2 ?_⟩
      rw [ParsedField.has, hsome, List.contains_iff_mem, Option.getD_some]
      exact (hp.2.2.2 values hsome _).2 hv
  exact List.ne_nil_of_mem hn

end

theorem wellFormed_of_parseCron {text : String} {c : ParsedCron} (h : parseCron text = some c) :
    WellFormed c := by
  obtain ⟨d, ⟨raw, -, hreads⟩, hminute, hhour, hdom, -, -⟩ := reads_of_parseCron h
  refine ⟨mem_sortedValues_of_fieldText (hreads .hour) hhour rfl,
    mem_sortedValues_of_fieldText (hreads .minute) hminute rfl,
    sortedValues_ne_nil (hreads .hour) hhour (.inr rfl),
    sortedValues_ne_nil (hreads .minute) hminute (.inl rfl), fun hall => ?_⟩
  obtain ⟨hall', hlast, -⟩ := hdom
  have hd := hreads .dom
  rw [hall] at hall'
  rw [hlast]
  generalize d .dom = dset at hd hall' ⊢
  generalize lowered (raw .dom) = t at hd
  cases hd with
  | all => rfl
  | list => cases hall'

end HeadlessErp.Cron
