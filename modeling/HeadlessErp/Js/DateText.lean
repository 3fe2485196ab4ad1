import HeadlessErp.Base.Decimal
import HeadlessErp.Js.Date

/-!
# The range of dates, and their texts

The instants of `Date` (`timeClip`) and the dates of `toISOString`. What `new Date` makes of a text is
up to the language but for the texts of dates, which it reads back: a `DateReader`.
-/

namespace HeadlessErp.Date

open Calendar (year month date dayOf)

/-- The greatest time value. -/
def maxTime : ℤ := 8640000000000000

/-- The day of the greatest time value. -/
def maxDay : ℤ := 100000000

/-- `TimeClip`: beyond the range there is no valid date. -/
def timeClip (t : ℤ) : Option ℤ := if -maxTime ≤ t ∧ t ≤ maxTime then some t else none

/-- The year as `toISOString` writes it. -/
def yearText (y : ℤ) : List Char :=
  if 0 ≤ y ∧ y ≤ 9999 then Decimal.padded 4 y.natAbs
  else (if y < 0 then '-' else '+') :: Decimal.padded 6 y.natAbs

/-- `date.toISOString().split('T')[0]`, for the date of a day. -/
def isoDate (n : ℤ) : String :=
  String.ofList (yearText (year n) ++ ('-' :: Decimal.padded 2 (month n + 1).natAbs ++
    '-' :: Decimal.padded 2 (date n).natAbs))

/-! ## Texts tell dates apart -/

section

variable {n k y z : ℤ} {t : ℤ}

theorem timeClip_eq_some : timeClip t = some k ↔ (-maxTime ≤ t ∧ t ≤ maxTime) ∧ t = k := by
  unfold timeClip
  split
  · next h => simp [h]
  · next h => simp [h]

theorem timeClip_eq_none : timeClip t = none ↔ ¬(-maxTime ≤ t ∧ t ≤ maxTime) := by
  unfold timeClip
  split
  · next h => simp [h]
  · next h => simp [h]

theorem padded_injective {width a b : ℕ} (h : Decimal.padded width a = Decimal.padded width b) :
    a = b := by
  rw [← Decimal.value_padded width a, h, Decimal.value_padded]

theorem head_padded {width a : ℕ} {c : Char} {rest : List Char}
    (h : Decimal.padded width a = c :: rest) : c ≠ '-' ∧ c ≠ '+' := by
  have hdigit : c.isDigit = true :=
    Decimal.isDigit_of_mem_padded (h ▸ List.mem_cons_self : c ∈ Decimal.padded width a)
  constructor <;> rintro rfl <;> cases hdigit

theorem head_sign {width a : ℕ} {rest : List Char}
    (h : Decimal.padded width a = (if y < 0 then '-' else '+') :: rest) : False := by
  have hhead := head_padded h
  split at hhead
  · exact hhead.1 rfl
  · exact hhead.2 rfl

theorem yearText_injective (h : yearText y = yearText z) : y = z := by
  unfold yearText at h
  by_cases hy : 0 ≤ y ∧ y ≤ 9999 <;> by_cases hz : 0 ≤ z ∧ z ≤ 9999
  · rw [if_pos hy, if_pos hz] at h
    have heq := padded_injective h
    omega
  · rw [if_pos hy, if_neg hz] at h
    exact (head_sign h).elim
  · rw [if_neg hy, if_pos hz] at h
    exact (head_sign h.symm).elim
  · rw [if_neg hy, if_neg hz] at h
    obtain ⟨hsign, hdigits⟩ := List.cons.inj h
    have heq := padded_injective hdigits
    split at hsign <;> split at hsign
    · omega
    · exact absurd hsign (by decide)
    · exact absurd hsign (by decide)
    · omega

theorem length_padded_two {a : ℤ} (h : 0 ≤ a) (h' : a ≤ 31) :
    (Decimal.padded 2 a.natAbs).length = 2 :=
  Decimal.length_padded Nat.two_pos (by omega)

/-- Two days with one text are one. -/
theorem isoDate_injective (h : isoDate n = isoDate k) : n = k := by
  have hlist := String.ofList_injective h
  have hmonth (n : ℤ) : (Decimal.padded 2 (month n + 1).natAbs).length = 2 := by
    obtain ⟨hm, hm'⟩ := Calendar.month_bounds n
    exact length_padded_two (by omega) (by omega)
  have hdate (n : ℤ) : (Decimal.padded 2 (date n).natAbs).length = 2 := by
    obtain ⟨hd, hd'⟩ := Calendar.date_bounds n
    obtain ⟨hm, hm'⟩ := Calendar.month_bounds n
    have hlength := (Calendar.monthLength_bounds (Calendar.isLeap (year n)) hm hm').2
    unfold Calendar.monthLength at hd'
    exact length_padded_two (by omega) (by omega)
  obtain ⟨hyear, hrest⟩ := List.append_inj' hlist (by simp [hmonth, hdate])
  obtain ⟨hmonths, hdates⟩ := List.append_inj (List.cons.inj hrest).2 (by simp [hmonth])
  have hm := padded_injective hmonths
  have hd := padded_injective (List.cons.inj hdates).2
  have hmn := (Calendar.month_bounds n).1
  have hmk := (Calendar.month_bounds k).1
  have hdn := (Calendar.date_bounds n).1
  have hdk := (Calendar.date_bounds k).1
  have hyears := yearText_injective hyear
  calc n = dayOf (year n) (month n) (date n) := (Calendar.dayOf_date n).symm
    _ = dayOf (year k) (month k) (date k) := by
      rw [hyears, show month n = month k by omega, show date n = date k by omega]
    _ = k := Calendar.dayOf_date k

end

/-! ## Reading -/

/-- What `new Date` makes of texts: instants of the range, and the first of a day of its date. -/
structure DateReader where
  read : String → Option ℤ
  range : ∀ {s t}, read s = some t → -maxTime ≤ t ∧ t ≤ maxTime
  iso : ∀ {n}, -maxDay ≤ n → n ≤ maxDay → read (isoDate n) = some (n * msPerDay)

open Classical in
/-- The texts of dates alone. -/
noncomputable def isoReader : DateReader where
  read s :=
    if h : ∃ n, (-maxDay ≤ n ∧ n ≤ maxDay) ∧ isoDate n = s then some (h.choose * msPerDay) else none
  range {s t} h := by
    split at h
    · next hs =>
      obtain ⟨hbounds, -⟩ := hs.choose_spec
      obtain rfl := Option.some.inj h
      simp only [maxDay, maxTime, msPerDay] at hbounds ⊢
      omega
    · cases h
  iso {n} hlow hhigh := by
    have hn : ∃ k, (-maxDay ≤ k ∧ k ≤ maxDay) ∧ isoDate k = isoDate n := ⟨n, ⟨hlow, hhigh⟩, rfl⟩
    rw [dif_pos hn, isoDate_injective hn.choose_spec.2]

end HeadlessErp.Date
