import HeadlessErp.Cron.Matching

/-!
# The least run in UTC

`nextCronRun` finds the least minute after the start that the expression matches, away from the years
0 to 99: `Date.UTC` takes these for years of the twentieth century, for the day that the search begins
with, for the length of a month and for the result (`leastRun_iff`). A search that ends without a
result has seen an expression that matches nothing at all, as every day that is matched comes again
within the window. Run after run are all the minutes that match (`transGen_nextCronRun_iff`).
-/

namespace HeadlessErp.Cron

open Calendar Date Relation

/-- A year that `Date.UTC` takes for another. -/
def TwoDigit (y : ℤ) : Prop := 0 ≤ y ∧ y ≤ 99

/-! ## Dates of the search -/

section

variable {n y m d : ℤ}

theorem makeFullYear_eq (h : ¬ TwoDigit y) : makeFullYear y = y := if_neg h

theorem makeFullYear_twoDigit (h : TwoDigit y) : makeFullYear y = 1900 + y := if_pos h

/-- The day before the first of a month is the last of the month before. -/
theorem daysInMonth_eq (hm : 0 ≤ m) (hm' : m ≤ 11) :
    daysInMonth y m = monthLength (makeFullYear y) m := by
  rw [daysInMonth, utc, zero_mul, add_zero, zero_mul, add_zero, getUTCDate, day_mul,
    makeDay_zero hm hm']
  exact (fields_dayOf hm hm' (one_le_monthLength hm hm') le_rfl).2.2

/-- The instant of a day, by its date. -/
theorem utc_date (h : ¬ TwoDigit (year n)) (hh mi : ℤ) :
    utc (year n) (month n) (date n) hh mi = at_ n hh mi := by
  obtain ⟨hm, hm'⟩ := month_bounds n
  rw [utc, makeFullYear_eq h, makeDay_eq hm hm', dayOf_date, at_]

end

/-! ## The search as a walk -/

section

variable (c : ParsedCron) (hours minutes : List ℤ) (startHour startMinute : ℤ)

/-- The test of a day. -/
def dayTest (d : ℤ) : Bool :=
  monthMatches c.month (getUTCMonth d + 1) &&
    dayOk c (domMatches c.dom (getUTCFullYear d) (getUTCMonth d) (getUTCDate d))
      (c.dow.all || c.dow.has (getUTCDay d))

/-- The loop over the days: a state is whether it is the first day, and the day. -/
def searchWalk : Walk (Bool × ℤ) ℤ where
  position s := day s.2
  look s :=
    if dayTest c s.2 then
      (firstTime hours minutes (if s.1 then startHour else 0) (if s.1 then startMinute else 0)).map
        fun time => utc (getUTCFullYear s.2) (getUTCMonth s.2) (getUTCDate s.2) time.1 time.2
    else none
  next s :=
    (false, setUTCDate s.2 (if monthMatches c.month (getUTCMonth s.2 + 1) then getUTCDate s.2 + 1
      else getUTCDate s.2 +
        (daysInMonth (getUTCFullYear s.2) (getUTCMonth s.2) - getUTCDate s.2 + 1)))

theorem searchLoop_eq (n : ℕ) (first : Bool) (d : ℤ) :
    searchLoop c hours minutes startHour startMinute n first d =
      (searchWalk c hours minutes startHour startMinute).run n (first, d) := by
  induction n generalizing first d with
  | zero => rfl
  | succ n ih =>
    rw [searchLoop, Walk.run]
    simp only [searchWalk, dayTest] at ih ⊢
    by_cases hmonth : monthMatches c.month (getUTCMonth d + 1) = true
    · by_cases hday : dayOk c (domMatches c.dom (getUTCFullYear d) (getUTCMonth d) (getUTCDate d))
          (c.dow.all || c.dow.has (getUTCDay d)) = true
      · simp only [hmonth, hday, Bool.not_true, Bool.false_eq_true, if_false, Bool.and_self, if_true]
        cases firstTime hours minutes (if first then startHour else 0)
            (if first then startMinute else 0) with
        | none =>
          simp only [Option.map_none, Option.none_or]
          exact ih _ _
        | some time => rfl
      · rw [Bool.not_eq_true] at hday
        simp only [hmonth, hday, Bool.not_true, Bool.false_eq_true, if_false, Bool.and_false,
          Bool.not_false, if_true, Option.none_or]
        exact ih _ _
    · rw [Bool.not_eq_true] at hmonth
      simp only [hmonth, Bool.not_false, if_true, Bool.false_and, Bool.false_eq_true, if_false,
        Option.none_or]
      exact ih _ _

end

/-! ## The test of a day -/

section

variable {c : ParsedCron} {n : ℤ}

theorem monthMatches_iff {f : ParsedField} {m : ℤ} : monthMatches f m = true ↔ f.Admits m := by
  rw [monthMatches, Bool.or_eq_true]
  rfl

theorem domMatches_iff (h : ¬ TwoDigit (year n)) :
    domMatches c.dom (year n) (month n) (date n) = true ↔ DomMatches c n := by
  obtain ⟨hm, hm'⟩ := month_bounds n
  rw [domMatches, daysInMonth_eq hm hm', makeFullYear_eq h]
  unfold DomMatches ParsedField.Admits
  split
  · next hall => simp [hall]
  · next hall =>
    split
    · next hhas => simp [hhas]
    · next hhas => simp [hall, hhas]

theorem dayOk_iff (hc : WellFormed c) {domOk dowOk : Bool} :
    dayOk c domOk dowOk = true ↔
      if c.dom.all = false ∧ c.dow.all = false then domOk = true ∨ dowOk = true
      else domOk = true ∧ dowOk = true := by
  have hdom : (!c.dom.all || c.dom.lastDayOfMonth) = !c.dom.all := by
    cases hall : c.dom.all with
    | false => rfl
    | true => rw [hc.last hall]; rfl
  rw [dayOk, hdom]
  cases c.dom.all <;> cases c.dow.all <;> simp

/-- Away from the two-digit years the test of a day is the rule. -/
theorem dayTest_iff (hc : WellFormed c) (h : ¬ TwoDigit (year n)) :
    dayTest c (n * msPerDay) = true ↔ DayMatches c n := by
  have hdow : (c.dow.all || c.dow.has (weekday n)) = true ↔ DowMatches c n := by
    rw [Bool.or_eq_true]
    rfl
  rw [dayTest, getUTCFullYear_mul, getUTCMonth_mul, getUTCDate_mul, getUTCDay, day_mul, Bool.and_eq_true,
    monthMatches_iff, dayOk_iff hc, domMatches_iff h, hdow]
  rfl

end

/-! ## The first minute of a day -/

section

variable {c : ParsedCron} {n low r t : ℤ}

/-- The least minute of a day that the expression matches, not before `low` on the day of it. -/
def hit (c : ParsedCron) (low n : ℤ) : Option ℤ :=
  if DayMatches c n then
    (firstTime (sortedValues c.hour 0 23) (sortedValues c.minute 0 59)
      (if n = day low then getUTCHours low else 0)
      (if n = day low then getUTCMinutes low else 0)).map fun time => at_ n time.1 time.2
  else none

theorem time_bounds (low n : ℤ) :
    0 ≤ (if n = day low then getUTCMinutes low else 0) ∧
      (if n = day low then getUTCMinutes low else 0) ≤ 59 := by
  have hbounds := getUTCMinutes_bounds low
  split <;> omega

/-- A minute is at its day, hour and minute. -/
theorem Matches.eq_at (h : Matches c t) : t = at_ (day t) (getUTCHours t) (getUTCMinutes t) :=
  (at_eq h.1).symm

/-- What a minute of a matched day is. -/
theorem matches_at (hc : WellFormed c) {h m : ℤ} (hday : DayMatches c n)
    (hh : h ∈ sortedValues c.hour 0 23) (hm : m ∈ sortedValues c.minute 0 59) :
    Matches c (at_ n h m) ∧ day (at_ n h m) = n := by
  obtain ⟨⟨h0, h23⟩, hhour⟩ := (hc.hours h).1 hh
  obtain ⟨⟨m0, m59⟩, hminute⟩ := (hc.minutes m).1 hm
  have hdayEq : day (at_ n h m) = n := day_at h0 h23 m0 m59
  refine ⟨⟨?_, ?_, ?_, ?_⟩, hdayEq⟩
  · simp only [at_, msPerDay]
    omega
  · rwa [getUTCMinutes_at m0 m59]
  · rwa [getUTCHours_at h0 h23 m0 m59]
  · rwa [hdayEq]

theorem Matches.times (hc : WellFormed c) (h : Matches c t) :
    getUTCHours t ∈ sortedValues c.hour 0 23 ∧ getUTCMinutes t ∈ sortedValues c.minute 0 59 :=
  ⟨(hc.hours _).2 ⟨getUTCHours_bounds t, h.2.2.1⟩, (hc.minutes _).2 ⟨getUTCMinutes_bounds t, h.2.1⟩⟩

/-- The bound of a day's loop against the instants of the day. -/
theorem bound_le_iff (hlow : low % 60000 = 0) (ht : Matches c t) :
    60 * (if day t = day low then getUTCHours low else 0) +
        (if day t = day low then getUTCMinutes low else 0) ≤
          60 * getUTCHours t + getUTCMinutes t ↔ (day t = day low → low ≤ t) := by
  have hhours := getUTCHours_bounds t
  have hminutes := getUTCMinutes_bounds t
  split
  · next hday =>
    have heq := ht.eq_at
    have heq' := at_eq hlow
    rw [hday] at heq
    simp only [at_] at heq heq'
    constructor
    · intro hle _
      omega
    · intro hle
      have hge := hle hday
      omega
  · next hday =>
    exact ⟨fun _ heq => absurd heq hday, fun _ => by omega⟩

/-- A hit is the least match of its day. -/
theorem hit_eq_some (hc : WellFormed c) (hlow : low % 60000 = 0) (h : hit c low n = some r) :
    (Matches c r ∧ day r = n ∧ (n = day low → low ≤ r)) ∧
      ∀ t, Matches c t → day t = n → (n = day low → low ≤ t) → r ≤ t := by
  rw [hit] at h
  split at h
  · next hday =>
    obtain ⟨⟨hh, mm⟩, htime, rfl⟩ := Option.map_eq_some_iff.1 h
    obtain ⟨hmin, hmin'⟩ := time_bounds low n
    obtain ⟨hmemh, hmemm, hle, hleast⟩ := firstTime_eq_some (pairwise_sortedValues _ _ _)
      (pairwise_sortedValues _ _ _) (fun m hm => ((hc.minutes m).1 hm).1) hmin hmin' htime
    obtain ⟨hmatches, hdayEq⟩ := matches_at hc hday hmemh hmemm
    obtain ⟨⟨h0, h23⟩, -⟩ := (hc.hours hh).1 hmemh
    obtain ⟨⟨m0, m59⟩, -⟩ := (hc.minutes mm).1 hmemm
    refine ⟨⟨hmatches, hdayEq, ?_⟩, fun t ht htday htlow => ?_⟩
    · have hiff := bound_le_iff hlow hmatches
      rw [getUTCHours_at h0 h23 m0 m59, getUTCMinutes_at m0 m59, hdayEq] at hiff
      exact hiff.1 hle
    · obtain ⟨hth, htm⟩ := ht.times hc
      subst htday
      have hge := hleast _ hth _ htm ((bound_le_iff hlow ht).2 htlow)
      calc at_ (day t) hh mm ≤ at_ (day t) (getUTCHours t) (getUTCMinutes t) := by
            simp only [at_]
            omega
        _ = t := ht.eq_at.symm
  · cases h

/-- A day without a hit has no match but before `low`. -/
theorem hit_eq_none (hc : WellFormed c) (hlow : low % 60000 = 0) (h : hit c low n = none)
    (ht : Matches c t) (htday : day t = n) : n = day low ∧ t < low := by
  subst htday
  rw [hit, if_pos ht.2.2.2] at h
  obtain ⟨hmin, hmin'⟩ := time_bounds low (day t)
  obtain ⟨hth, htm⟩ := ht.times hc
  have hlt := firstTime_eq_none (fun m hm => ((hc.minutes m).1 hm).1) hmin
    (Option.map_eq_none_iff.1 h) _ hth _ htm
  have hnot := mt (bound_le_iff hlow ht).2 (not_le.2 hlt)
  rw [Classical.not_imp, not_le] at hnot
  exact hnot

/-- The first hit from `low` on is the least match from `low` on. -/
theorem isLeast_of_hit (hc : WellFormed c) (hlow : low % 60000 = 0) (hn : day low ≤ n)
    (h : hit c low n = some r) (hfirst : ∀ j, day low ≤ j → j < n → hit c low j = none) :
    IsLeast {t | low ≤ t ∧ Matches c t} r := by
  obtain ⟨⟨hmatches, hday, hge⟩, hleast⟩ := hit_eq_some hc hlow h
  have hmono {a b : ℤ} (hab : a ≤ b) : day a ≤ day b := by
    simp only [day, msPerDay]
    omega
  refine ⟨⟨?_, hmatches⟩, ?_⟩
  · rcases eq_or_lt_of_le hn with heq | hlt
    · exact hge heq.symm
    · by_contra hlt'
      have hday' := hmono (le_of_lt (not_le.1 hlt'))
      omega
  · rintro t ⟨hle, ht⟩
    rcases lt_trichotomy (day t) n with hlt | heq | hgt
    · obtain ⟨-, hbefore⟩ := hit_eq_none hc hlow (hfirst _ (hmono hle) hlt) ht rfl
      omega
    · exact hleast t ht heq fun _ => hle
    · by_contra hlt'
      have hday' := hmono (le_of_lt (not_le.1 hlt'))
      omega

/-- Where the expression matches anything there is a first hit, within ten years. -/
theorem exists_hit (hc : WellFormed c) {k : ℤ} (hk : DayMatches c k) (low : ℤ) :
    ∃ n r, day low ≤ n ∧ n ≤ day low + 3650 ∧ hit c low n = some r ∧
      ∀ j, day low ≤ j → j < n → hit c low j = none := by
  obtain ⟨j, hgt, hle, hj⟩ := hk.again (day low)
  have hsome : (hit c low j).isSome = true := by
    rw [hit, if_pos hj, Option.isSome_map, if_neg (by omega), if_neg (by omega)]
    by_contra hnone
    obtain ⟨h, hh⟩ := List.exists_mem_of_ne_nil _ hc.hours_ne
    obtain ⟨m, hm⟩ := List.exists_mem_of_ne_nil _ hc.minutes_ne
    have hlt := firstTime_eq_none (fun m hm => ((hc.minutes m).1 hm).1) le_rfl
      (Option.not_isSome_iff_eq_none.1 hnone) h hh m hm
    have hh' := ((hc.hours h).1 hh).1
    have hm' := ((hc.minutes m).1 hm).1
    omega
  obtain ⟨n, ⟨hn, hsome'⟩, hleast⟩ := Int.exists_least_of_bdd
    (P := fun n => day low ≤ n ∧ (hit c low n).isSome = true) ⟨day low, fun z hz => hz.1⟩
    ⟨j, by omega, hsome⟩
  obtain ⟨r, hr⟩ := Option.isSome_iff_exists.1 hsome'
  refine ⟨n, r, hn, ?_, hr, fun i hi hlt => ?_⟩
  · have hle' := hleast j ⟨by omega, hsome⟩
    omega
  · by_contra hne
    have hle' := hleast i ⟨hi, Option.isSome_iff_ne_none.2 hne⟩
    omega

end

/-! ## The search finds the first hit -/

/-- The whole minute that an instant lies in. -/
def minuteOf (t : ℤ) : ℤ := t / 60000 * 60000

section

variable {c : ParsedCron} {n k start low r : ℤ}

theorem minuteOf_fields (t : ℤ) :
    minuteOf t % 60000 = 0 ∧ day (minuteOf t) = day t ∧
      getUTCHours (minuteOf t) = getUTCHours t ∧ getUTCMinutes (minuteOf t) = getUTCMinutes t := by
  simp only [minuteOf, day, getUTCHours, getUTCMinutes, msPerDay]
  omega

/-- The walk of `nextCronRun`. -/
def runWalk (c : ParsedCron) (start : ℤ) : Walk (Bool × ℤ) ℤ :=
  searchWalk c (sortedValues c.hour 0 23) (sortedValues c.minute 0 59) (getUTCHours start)
    (getUTCMinutes start)

theorem nextCronRun_eq {text : String} (h : parseCron text = some c) (from_ : ℤ) :
    nextCronRun text from_ =
      (runWalk c (from_ + 60000)).run searchDays
        (true, utc (getUTCFullYear (from_ + 60000)) (getUTCMonth (from_ + 60000))
          (getUTCDate (from_ + 60000)) 0 0) := by
  have hc := wellFormed_of_parseCron h
  rw [nextCronRun, h, Option.bind_eq_bind, Option.bind_some]
  simp only [hc.hours_ne, hc.minutes_ne, or_self, if_false]
  exact searchLoop_eq _ _ _ _ _ _ _ _

/-- The states of the walk: days, and the first is the only one marked so. -/
def OnDay (first : ℤ) (s : Bool × ℤ) : Prop :=
  ∃ n, s.2 = n * msPerDay ∧ first ≤ n ∧ (s.1 = true ↔ n = first)

theorem look_eq (hc : WellFormed c) {s : Bool × ℤ} (hs : s.2 = n * msPerDay)
    (hfirst : s.1 = true ↔ n = day start) (hyear : ¬ TwoDigit (year n)) :
    (runWalk c start).look s = hit c (minuteOf start) n := by
  obtain ⟨-, hday, hhours, hminutes⟩ := minuteOf_fields start
  simp only [runWalk, searchWalk, hit, hday, hhours, hminutes, hfirst, hs, getUTCFullYear_mul,
    getUTCMonth_mul, getUTCDate_mul, utc_date hyear, dayTest_iff hc hyear]

/-- Where the walk goes from a day: to the next, or to the first of the next month. -/
theorem next_eq {s : Bool × ℤ} (hs : s.2 = n * msPerDay) (hyear : ¬ TwoDigit (year n)) :
    (runWalk c start).next s =
      (false, (if monthMatches c.month (month n + 1) = true then n + 1
        else n + (monthLength (year n) (month n) - date n + 1)) * msPerDay) := by
  obtain ⟨hm, hm'⟩ := month_bounds n
  simp only [runWalk, searchWalk, hs, getUTCFullYear_mul, getUTCMonth_mul, getUTCDate_mul,
    daysInMonth_eq hm hm', makeFullYear_eq hyear, setUTCDate_eq]
  split
  · rw [show n + (date n + 1) - date n = n + 1 by omega]
  · rw [show n + (date n + (monthLength (year n) (month n) - date n + 1)) - date n =
      n + (monthLength (year n) (month n) - date n + 1) by omega]

/-- The rest of a month is in the same month. -/
theorem month_rest {j : ℤ} (hj : n ≤ j) (hj' : j < n + (monthLength (year n) (month n) - date n + 1)) :
    month j = month n := by
  obtain ⟨hm, hm'⟩ := month_bounds n
  obtain ⟨hd, -⟩ := date_bounds n
  have heq : dayOf (year n) (month n) (date n + (j - n)) = j := by
    have hn := dayOf_date n
    simp only [dayOf] at hn ⊢
    omega
  rw [← heq]
  exact (fields_dayOf hm hm' (by omega) (by omega)).2.1

theorem hit_of_month (low : ℤ) (h : ¬ monthMatches c.month (month n + 1) = true) :
    hit c low n = none := by
  rw [hit, if_neg fun hday : DayMatches c n => h (monthMatches_iff.2 hday.1)]

/-- A walk over days outside of the two-digit years finds the first hit. -/
theorem run_eq_hit (hc : WellFormed c) (hn : day start ≤ k) (hnear : k < day start + 3660)
    (hyears : ∀ j, day start ≤ j → j ≤ k → ¬ TwoDigit (year j))
    (hhit : hit c (minuteOf start) k = some r)
    (hfirst : ∀ j, day start ≤ j → j < k → hit c (minuteOf start) j = none) :
    (runWalk c start).run searchDays (true, day start * msPerDay) = some r := by
  have hposition {s : Bool × ℤ} {n : ℤ} (hs : s.2 = n * msPerDay) :
      (runWalk c start).position s = n := by
    show day s.2 = n
    rw [hs, day_mul]
  have hgrows (n : ℤ) : n < if monthMatches c.month (month n + 1) = true then n + 1
      else n + (monthLength (year n) (month n) - date n + 1) := by
    have hdate := (date_bounds n).2
    split <;> omega
  refine Walk.run_eq_some (I := OnDay (day start)) hhit ?_ ?_ ?_ ?_ ⟨_, rfl, le_rfl, by simp⟩ ?_ ?_ ?_
  · rintro s ⟨n, hs, hn, hmark⟩ hle
    rw [hposition hs] at hle ⊢
    exact look_eq hc hs hmark (hyears n hn hle)
  · rintro s ⟨n, hs, hn, -⟩ hle
    rw [hposition hs] at hle ⊢
    rw [hposition (congrArg Prod.snd (next_eq hs (hyears n hn hle)))]
    exact hgrows n
  · rintro s ⟨n, hs, hn, -⟩ hle - j hj hj'
    rw [hposition hs] at hle hj
    rw [hposition (congrArg Prod.snd (next_eq hs (hyears n hn hle)))] at hj'
    split at hj'
    · omega
    · next hmonth =>
      refine hit_of_month _ ?_
      rw [month_rest hj.le hj']
      exact hmonth
  · rintro s ⟨n, hs, hn, -⟩ hlt -
    rw [hposition hs] at hlt
    have hnext : (runWalk c start).next s = _ := next_eq hs (hyears n hn hlt.le)
    have hgt := hgrows n
    refine ⟨_, congrArg Prod.snd hnext, by omega, ?_⟩
    rw [hnext]
    constructor
    · intro h
      cases h
    · intro h
      omega
  · rw [hposition rfl]
    exact hn
  · rw [hposition rfl]
    exact hfirst
  · rw [hposition rfl]
    simp only [searchDays]
    omega

end

/-! ## What the search cannot find -/

section

variable {c : ParsedCron} {start k r : ℤ} {s : Bool × ℤ}

/-- Where the test takes a day, some day is matched. -/
theorem exists_of_dayTest (hc : WellFormed c) {d : ℤ} (h : dayTest c d = true) :
    ∃ n, DayMatches c n := by
  rw [dayTest, Bool.and_eq_true, monthMatches_iff, dayOk_iff hc] at h
  obtain ⟨hmonth, hday⟩ := h
  have hdom (hdom : domMatches c.dom (getUTCFullYear d) (getUTCMonth d) (getUTCDate d) = true) :
      ∃ n, month n = month (day d) ∧ DomMatches c n := by
    rw [domMatches] at hdom
    split at hdom
    · next hall => exact ⟨day d, rfl, .inl (.inl hall)⟩
    · split at hdom
      · next hhas => exact ⟨day d, rfl, .inl (.inr hhas)⟩
      · rw [Bool.and_eq_true] at hdom
        obtain ⟨hm, hm'⟩ := month_bounds (day d)
        obtain ⟨hd, hd'⟩ := date_bounds (day d)
        obtain ⟨hyear, hmonth, hdate⟩ := fields_dayOf hm hm' (hd.trans hd') le_rfl
        exact ⟨_, hmonth, .inr ⟨hdom.1, by rw [hyear, hmonth, hdate]⟩⟩
  have hdow (hdow : (c.dow.all || c.dow.has (getUTCDay d)) = true) : DowMatches c (day d) := by
    rw [Bool.or_eq_true] at hdow
    exact hdow
  split at hday
  · next hboth =>
    rcases hday with hday | hday
    · obtain ⟨n, hn, hmatches⟩ := hdom hday
      refine ⟨n, hn.symm ▸ hmonth, ?_⟩
      rw [if_pos hboth]
      exact .inl hmatches
    · refine ⟨day d, hmonth, ?_⟩
      rw [if_pos hboth]
      exact .inr (hdow hday)
  · next hboth =>
    by_cases hall : c.dom.all = true
    · refine ⟨day d, hmonth, ?_⟩
      rw [if_neg hboth]
      exact ⟨.inl (.inl hall), hdow hday.2⟩
    · obtain ⟨n, hn, hmatches⟩ := hdom hday.1
      have hdowAll : c.dow.all = true := by
        by_contra hdowAll
        exact hboth ⟨Bool.eq_false_iff.2 hall, Bool.eq_false_iff.2 hdowAll⟩
      refine ⟨n, hn.symm ▸ hmonth, ?_⟩
      rw [if_neg hboth]
      exact ⟨hmatches, .inl hdowAll⟩

/-- An expression that matches no day has no run. -/
theorem run_eq_none (hc : WellFormed c) (hnone : ∀ n, ¬ DayMatches c n) (n : ℕ) :
    (runWalk c start).run n s = none := by
  refine Walk.run_eq_none (I := fun _ => True) (fun s _ => ?_) (fun _ _ => trivial) trivial
  simp only [runWalk, searchWalk]
  rw [if_neg]
  intro htest
  obtain ⟨n, hn⟩ := exists_of_dayTest hc htest
  exact hnone n hn

/-- The day of what is found at a state. -/
theorem day_of_look (hc : WellFormed c) (h : (runWalk c start).look s = some r) :
    day r = dayOf (makeFullYear (year (day s.2))) (month (day s.2)) (date (day s.2)) := by
  simp only [runWalk, searchWalk] at h
  split at h
  · obtain ⟨⟨hh, mm⟩, htime, rfl⟩ := Option.map_eq_some_iff.1 h
    have hbounds := getUTCMinutes_bounds start
    obtain ⟨hmemh, hmemm, -⟩ := firstTime_eq_some (pairwise_sortedValues _ _ _)
      (pairwise_sortedValues _ _ _) (fun m hm => ((hc.minutes m).1 hm).1)
      (by split <;> omega) (by split <;> omega) htime
    obtain ⟨⟨h0, h23⟩, -⟩ := (hc.hours hh).1 hmemh
    obtain ⟨⟨m0, m59⟩, -⟩ := (hc.minutes mm).1 hmemm
    obtain ⟨hm, hm'⟩ := month_bounds (day s.2)
    have hutc : utc (getUTCFullYear s.2) (getUTCMonth s.2) (getUTCDate s.2) hh mm =
        at_ (dayOf (makeFullYear (year (day s.2))) (month (day s.2)) (date (day s.2))) hh mm := by
      rw [utc, getUTCFullYear, getUTCMonth, getUTCDate, makeDay_eq hm hm', at_]
    rw [hutc, day_at h0 h23 m0 m59]
  · cases h

/-- No result is in a two-digit year. -/
theorem year_of_look (hc : WellFormed c) (h : (runWalk c start).look s = some r) :
    ¬ TwoDigit (year (day r)) := by
  rw [day_of_look hc h]
  by_cases htwo : TwoDigit (year (day s.2))
  · have hle := dayFromYear_le_dayOf (y := makeFullYear (year (day s.2)))
      (month_bounds (day s.2)).1 (date_bounds (day s.2)).1
    have hyear := le_year hle
    rw [makeFullYear_twoDigit htwo] at hyear ⊢
    unfold TwoDigit at htwo ⊢
    omega
  · rwa [makeFullYear_eq htwo, dayOf_date]

/-- From a day of the twentieth century or later the search only goes on. -/
theorem le_of_run (hc : WellFormed c) {n : ℕ} {first : Bool} (hk : dayFromYear 1900 ≤ k)
    (h : (runWalk c start).run n (first, k * msPerDay) = some r) : dayFromYear 1900 ≤ day r := by
  have hyear {n : ℤ} (hn : dayFromYear 1900 ≤ n) : ¬ TwoDigit (year n) := by
    have hle := le_year hn
    unfold TwoDigit
    omega
  obtain ⟨s, ⟨n, hs, hn⟩, hlook⟩ := Walk.exists_of_run
    (I := fun s : Bool × ℤ => ∃ n, s.2 = n * msPerDay ∧ dayFromYear 1900 ≤ n) (fun s ⟨n, hs, hn⟩ => by
      refine ⟨_, congrArg Prod.snd (next_eq hs (hyear hn)), ?_⟩
      have hdate := (date_bounds n).2
      split <;> omega) ⟨k, rfl, hk⟩ h
  rw [day_of_look hc hlook, hs, day_mul, makeFullYear_eq (hyear hn), dayOf_date]
  exact hn

end

/-! ## The least run -/

section

variable {text : String} {c : ParsedCron} {from_ t : ℤ}

/-- The next run is the least minute after the start that the expression matches, and there is none
only where the window has none. -/
def LeastRun (text : String) (c : ParsedCron) (from_ : ℤ) : Prop :=
  (∀ r, nextCronRun text from_ = some r → IsLeast {t | from_ < t ∧ Matches c t} r) ∧
    (nextCronRun text from_ = none →
      ∀ t, from_ < t → t ≤ from_ + searchDays * msPerDay → ¬ Matches c t)

/-- The minutes after the start are those from the minute that the search begins with on. -/
theorem after_iff (ht : Matches c t) : from_ < t ↔ minuteOf (from_ + 60000) ≤ t := by
  have hwhole := ht.1
  simp only [minuteOf]
  omega

theorem setOf_after (from_ : ℤ) :
    {t | from_ < t ∧ Matches c t} = {t | minuteOf (from_ + 60000) ≤ t ∧ Matches c t} := by
  ext t
  exact and_congr_left after_iff

/-- Years that lie ten years apart do not reach over the two-digit years. -/
theorem not_twoDigit_between {a b j : ℤ} (ha : ¬ TwoDigit (year a)) (hb : ¬ TwoDigit (year b))
    (haj : a ≤ j) (hjb : j ≤ b) (hnear : b ≤ a + 3650) : ¬ TwoDigit (year j) := by
  have hay := year_mono haj
  have hby := year_mono hjb
  have hlow := (dayFromYear_year a).2
  have hhigh := (dayFromYear_year b).1
  have hspan : dayFromYear 0 + 36000 ≤ dayFromYear 100 := by decide
  intro hj
  unfold TwoDigit at ha hb hj
  have ha' : year a + 1 ≤ 0 := by omega
  have hb' : 100 ≤ year b := by omega
  have hle := dayFromYear_le ha'
  have hle' := dayFromYear_le hb'
  omega

/-- Where the search begins. -/
theorem start_eq (start : ℤ) :
    utc (getUTCFullYear start) (getUTCMonth start) (getUTCDate start) 0 0 =
      dayOf (makeFullYear (year (day start))) (month (day start)) (date (day start)) * msPerDay := by
  obtain ⟨hm, hm'⟩ := month_bounds (day start)
  rw [utc, getUTCFullYear, getUTCMonth, getUTCDate, makeDay_eq hm hm', zero_mul, add_zero, zero_mul,
    add_zero]

/-- The least match after the start, where there is a match at all. -/
theorem exists_least (hc : WellFormed c) {k : ℤ} (hk : DayMatches c k) (from_ : ℤ) :
    ∃ r, IsLeast {t | from_ < t ∧ Matches c t} r ∧
      day (from_ + 60000) ≤ day r ∧ day r ≤ day (from_ + 60000) + 3650 ∧
        hit c (minuteOf (from_ + 60000)) (day r) = some r ∧
          ∀ j, day (from_ + 60000) ≤ j → j < day r →
            hit c (minuteOf (from_ + 60000)) j = none := by
  obtain ⟨hwhole, hday, -, -⟩ := minuteOf_fields (from_ + 60000)
  obtain ⟨n, r, hn, hn', hr, hfirst⟩ := exists_hit hc hk (minuteOf (from_ + 60000))
  have hleast := isLeast_of_hit hc hwhole hn hr hfirst
  obtain ⟨⟨-, rfl, -⟩, -⟩ := hit_eq_some hc hwhole hr
  rw [hday] at hn hn' hfirst
  rw [setOf_after]
  exact ⟨r, hleast, hn, hn', hr, hfirst⟩

/-- The next run is the least match just when the start and the least match are not in the years 0
to 99, or nothing matches. -/
theorem leastRun_iff (h : parseCron text = some c) (from_ : ℤ) :
    LeastRun text c from_ ↔ ∀ t, IsLeast {t | from_ < t ∧ Matches c t} t →
      ¬ TwoDigit (getUTCFullYear (from_ + 60000)) ∧ ¬ TwoDigit (getUTCFullYear t) := by
  have hc := wellFormed_of_parseCron h
  by_cases hmatch : ∃ k, DayMatches c k
  · obtain ⟨k, hk⟩ := hmatch
    obtain ⟨r, hleast, hn, hn', hr, hfirst⟩ := exists_least hc hk from_
    constructor
    · rintro ⟨hfound, hnone⟩ t ht
      obtain rfl := ht.unique hleast
      cases hrun : nextCronRun text from_ with
      | none =>
        refine absurd ht.1.2 (hnone hrun t ht.1.1 ?_)
        simp only [day, msPerDay, searchDays] at hn' ⊢
        omega
      | some r' =>
        obtain rfl := (hfound r' hrun).unique ht
        rw [nextCronRun_eq h] at hrun
        refine ⟨fun htwo => ?_, ?_⟩
        · -- the search began in the twentieth century
          have hstart : dayFromYear 1900 ≤ dayOf (makeFullYear (year (day (from_ + 60000))))
              (month (day (from_ + 60000))) (date (day (from_ + 60000))) := by
            refine le_trans (dayFromYear_le ?_) (dayFromYear_le_dayOf (month_bounds _).1
              (date_bounds _).1)
            have hyear := makeFullYear_twoDigit htwo
            have htwo' : TwoDigit (year (day (from_ + 60000))) := htwo
            simp only [getUTCFullYear] at hyear
            unfold TwoDigit at htwo'
            omega
          rw [start_eq] at hrun
          have hlate := le_of_run hc hstart hrun
          have hearly := (dayFromYear_year (day (from_ + 60000))).2
          have htwo' : TwoDigit (year (day (from_ + 60000))) := htwo
          have hle := dayFromYear_le (show year (day (from_ + 60000)) + 1 ≤ 100 by
            unfold TwoDigit at htwo'
            omega)
          have hspan : dayFromYear 100 + 3650 < dayFromYear 1900 := by decide
          omega
        · obtain ⟨s, -, hlook⟩ := Walk.exists_of_run (I := fun _ => True) (fun _ _ => trivial) trivial
            hrun
          exact year_of_look hc hlook
    · intro hyears
      obtain ⟨hstart, hend⟩ := hyears r hleast
      have hstart' : ¬ TwoDigit (year (day (from_ + 60000))) := hstart
      have hrun : nextCronRun text from_ = some r := by
        rw [nextCronRun_eq h, start_eq, makeFullYear_eq hstart', dayOf_date]
        exact run_eq_hit hc hn (by omega)
          (fun j hj hj' => not_twoDigit_between hstart hend hj hj' hn') hr hfirst
      refine ⟨fun r' hr' => ?_, fun hnone => ?_⟩
      · rw [hrun] at hr'
        obtain rfl := Option.some.inj hr'
        exact hleast
      · rw [hrun] at hnone
        cases hnone
  · have hnone (n : ℤ) : ¬ DayMatches c n := fun hn => hmatch ⟨n, hn⟩
    have hrun : nextCronRun text from_ = none := by
      rw [nextCronRun_eq h]
      exact run_eq_none hc hnone _
    refine iff_of_true ⟨fun r hr => ?_, fun _ t _ _ ht => hnone _ ht.2.2.2⟩ fun t ht =>
      absurd ht.1.2.2.2.2 (hnone _)
    rw [hrun] at hr
    cases hr

/-- `* * * * *`. -/
def everyMinute : ParsedCron :=
  ⟨⟨true, none, false⟩, ⟨true, none, false⟩, ⟨true, none, false⟩, ⟨true, none, false⟩,
    ⟨true, none, false⟩⟩

theorem parse_everyMinute : parseCron "* * * * *" = some everyMinute := rfl

theorem everyMinute_matches (h : t % 60000 = 0) : Matches everyMinute t :=
  ⟨h, .inl rfl, .inl rfl, .inl rfl, .inl (.inl rfl), .inl rfl⟩

/-- Every minute, from the first of January 1970. -/
theorem leastRun_everyMinute : LeastRun "* * * * *" everyMinute 0 := by
  refine (leastRun_iff parse_everyMinute 0).2 fun t ht => ?_
  have hle : t ≤ 60000 := ht.2 ⟨by decide, everyMinute_matches (by decide)⟩
  have hlt : 0 < t := ht.1.1
  have hday : day t = 0 := by
    simp only [day, msPerDay]
    omega
  refine ⟨by unfold TwoDigit; decide, ?_⟩
  rw [getUTCFullYear, hday]
  unfold TwoDigit
  decide

/-- Every minute, from the beginning of the year 50: the next run would be in 1950. -/
theorem year_fifty_not_least :
    ¬ ∀ (text : String) (c : ParsedCron), parseCron text = some c →
      ∀ from_, LeastRun text c from_ := by
  intro h
  have hleast := h _ _ parse_everyMinute (dayFromYear 50 * msPerDay)
  have hfirst : IsLeast {t | dayFromYear 50 * msPerDay < t ∧ Matches everyMinute t}
      (dayFromYear 50 * msPerDay + 60000) := by
    refine ⟨⟨by omega, everyMinute_matches (by decide)⟩, fun t ht => ?_⟩
    have hlt := ht.1
    have hwhole := ht.2.1
    have hstart : dayFromYear 50 * msPerDay % 60000 = 0 := by decide
    omega
  have hyear := ((leastRun_iff parse_everyMinute _).1 hleast _ hfirst).1
  exact hyear (by unfold TwoDigit; decide)

end

/-! ## Run after run -/

section
variable {text : String} {c : ParsedCron} {start t r : ℤ}

/-- From the year 100 on, the next run is the least match after the start. -/
theorem nextCronRun_eq_some_iff (h : parseCron text = some c) (hyear : 100 ≤ getUTCFullYear start) :
    nextCronRun text start = some r ↔ IsLeast {t | start < t ∧ Matches c t} r := by
  have hc := wellFormed_of_parseCron h
  have hlate {s : ℤ} (hs : start ≤ s) : ¬ TwoDigit (getUTCFullYear s) := by
    have hle : getUTCFullYear start ≤ getUTCFullYear s :=
      year_mono (Int.ediv_le_ediv (by decide) hs)
    unfold TwoDigit
    omega
  have hrun {k : ℤ} (hk : DayMatches c k) :
      ∃ r, nextCronRun text start = some r ∧ IsLeast {t | start < t ∧ Matches c t} r := by
    obtain ⟨r, hleast, hn, hn', hr, hfirst⟩ := exists_least hc hk start
    have hstart : ¬ TwoDigit (year (day (start + 60000))) := hlate (by omega)
    refine ⟨r, ?_, hleast⟩
    rw [nextCronRun_eq h, start_eq, makeFullYear_eq hstart, dayOf_date]
    exact run_eq_hit hc hn (by omega)
      (fun j hj hj' => not_twoDigit_between hstart (hlate hleast.1.1.le) hj hj' hn') hr hfirst
  constructor
  · intro hsome
    by_cases hmatch : ∃ k, DayMatches c k
    · obtain ⟨k, hk⟩ := hmatch
      obtain ⟨r', hr', hleast⟩ := hrun hk
      rw [hsome] at hr'
      rwa [Option.some.inj hr']
    · rw [nextCronRun_eq h, run_eq_none hc (fun n hn => hmatch ⟨n, hn⟩) _] at hsome
      cases hsome
  · intro hleast
    obtain ⟨r', hr', hleast'⟩ := hrun hleast.1.2.2.2.2
    rwa [hleast.unique hleast']

/-- Run after run, from the year 100 on, are the minutes that the expression matches, each of them
once and in their order. -/
theorem transGen_nextCronRun_iff (h : parseCron text = some c)
    (hyear : 100 ≤ getUTCFullYear start) :
    TransGen (fun s r => nextCronRun text s = some r) start t ↔ start < t ∧ Matches c t := by
  have hlate {s : ℤ} (hs : start ≤ s) : 100 ≤ getUTCFullYear s :=
    le_trans hyear (year_mono (Int.ediv_le_ediv (by decide) hs))
  constructor
  · intro hruns
    induction hruns with
    | single hrun => exact ((nextCronRun_eq_some_iff h hyear).1 hrun).1
    | tail _ hrun ih =>
      obtain ⟨hlt, hmatch⟩ := ((nextCronRun_eq_some_iff h (hlate ih.1.le)).1 hrun).1
      exact ⟨ih.1.trans hlt, hmatch⟩
  · rintro ⟨hlt, hmatch⟩
    -- by the time that is left after the next run
    induction hn : (t - start).toNat using Nat.strong_induction_on generalizing start with
    | _ n ih =>
      obtain ⟨r, hleast, -⟩ := exists_least (wellFormed_of_parseCron h) hmatch.2.2.2 start
      have hrun := (nextCronRun_eq_some_iff h hyear).2 hleast
      obtain heq | hlt' := (hleast.2 ⟨hlt, hmatch⟩).eq_or_lt
      · exact .single (heq ▸ hrun)
      · have hstart := hleast.1.1
        exact .head hrun (ih (t - r).toNat (by omega) (hlate hstart.le)
          (fun hs => hlate (hstart.le.trans hs)) hlt' rfl)

/-- Every minute, to the end of the first day of January 1970. -/
theorem transGen_everyMinute :
    TransGen (fun s r => nextCronRun "* * * * *" s = some r) 0 86400000 :=
  (transGen_nextCronRun_iff parse_everyMinute (by decide)).2
    ⟨by decide, everyMinute_matches (by decide)⟩

end

end HeadlessErp.Cron
