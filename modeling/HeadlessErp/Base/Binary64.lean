import Mathlib.Data.Int.Log
import Mathlib.Data.Rat.Floor
import Mathlib.Tactic.FieldSimp
import Mathlib.Tactic.Linarith
import Mathlib.Tactic.NormNum
import Mathlib.Tactic.Positivity

/-!
# Rounding to a double

Exact numbers against the 64-bit floating-point numbers: `round` is the double nearest to a number
that is not negative, of two the even one, and none from the overflow on. For the natural numbers
it is the number itself below 2^53 (`round_natCast_of_lt`), from there on a natural number that is
not smaller (`round_natCast_of_le`), and nothing from 2^1024 - 2^970 on (`round_natCast_eq_none`).
-/

namespace HeadlessErp.Binary64

/-- The integer nearest to `q`, of two the even one. -/
def roundHalfEven (q : ℚ) : ℤ :=
  if q - ⌊q⌋ < 1 / 2 then ⌊q⌋
  else if 1 / 2 < q - ⌊q⌋ then ⌊q⌋ + 1
  else ⌊q⌋ + ⌊q⌋ % 2

/-- The exponent of the last place of the doubles next to `q`. -/
def lastPlace (q : ℚ) : ℤ := max (Int.log 2 q - 52) (-1074)

/-- The doubles next to `q` are multiples of `2 ^ lastPlace q`. -/
def nearest (q : ℚ) : ℚ := roundHalfEven (q / 2 ^ lastPlace q) * 2 ^ lastPlace q

/-- Half a last place of the greatest doubles is `2 ^ topPlace`. -/
@[irreducible] def topPlace : ℕ := 970

/-- The doubles are smaller than 2^1024. -/
def infinity : ℕ := 2 ^ (54 + topPlace)

/-- `q`, which is not negative, as a double. -/
def round (q : ℚ) : Option ℚ := if nearest q < infinity then some (nearest q) else none

/-- Half a last place below 2^1024, from where on numbers are rounded up to it. -/
def overflow : ℕ := infinity - 2 ^ topPlace

/-! ## Rounding to an integer -/

@[simp] theorem roundHalfEven_intCast (m : ℤ) : roundHalfEven m = m := by
  simp [roundHalfEven]

theorem le_roundHalfEven {m : ℤ} {q : ℚ} (h : (m : ℚ) ≤ q) : m ≤ roundHalfEven q := by
  have hfloor : m ≤ ⌊q⌋ := Int.le_floor.2 h
  unfold roundHalfEven
  split_ifs <;> omega

theorem roundHalfEven_le {m : ℤ} {q : ℚ} (h : q < m + 1 / 2) : roundHalfEven q ≤ m := by
  have hlow := Int.floor_le q
  have hfloor : ⌊q⌋ < m + 1 := by
    refine Int.floor_lt.2 ?_
    push_cast
    linarith
  unfold roundHalfEven
  by_cases heq : ⌊q⌋ = m
  · rw [heq, if_pos (by linarith)]
  · split_ifs <;> omega

/-- Half a unit below an even number rounds up. -/
theorem le_roundHalfEven_of_even {m : ℤ} {q : ℚ} (hm : m % 2 = 0) (h : (m : ℚ) - 1 / 2 ≤ q) :
    m ≤ roundHalfEven q := by
  rcases le_or_gt (m : ℚ) q with hle | hlt
  · exact le_roundHalfEven hle
  · have hfloor : ⌊q⌋ = m - 1 := by
      refine Int.floor_eq_iff.2 ⟨?_, ?_⟩
      · push_cast
        linarith
      · push_cast
        linarith
    rw [roundHalfEven, hfloor, if_neg (by push_cast; linarith)]
    split_ifs <;> omega

/-! ## Natural numbers -/

theorem lastPlace_natCast (n : ℕ) : lastPlace n = (Nat.log 2 n : ℤ) - 52 := by
  rw [lastPlace, Int.log_natCast]
  omega

/-- A natural number below 2^53 is a multiple of its last place. -/
theorem nearest_natCast_of_lt {n : ℕ} (h : n < 2 ^ 53) : nearest n = n := by
  have hlog : Nat.log 2 n ≤ 52 := by
    rcases Nat.eq_zero_or_pos n with rfl | hpos
    · simp
    · exact Nat.le_of_lt_succ (Nat.log_lt_of_lt_pow hpos.ne' h)
  obtain ⟨k, hk⟩ : ∃ k : ℕ, lastPlace n = -(k : ℤ) :=
    ⟨52 - Nat.log 2 n, by rw [lastPlace_natCast]; omega⟩
  have hscaled : (n : ℚ) / 2 ^ lastPlace n = ((n * 2 ^ k : ℕ) : ℤ) := by
    rw [hk, zpow_neg, zpow_natCast, div_inv_eq_mul]
    push_cast
    rfl
  rw [nearest, hscaled, roundHalfEven_intCast, hk, zpow_neg, zpow_natCast]
  push_cast
  field_simp

theorem exists_lastPlace {n : ℕ} (h : 2 ^ 53 ≤ n) :
    ∃ e : ℕ, lastPlace n = e + 1 ∧ 2 ^ (53 + e) ≤ n ∧ n < 2 ^ (54 + e) := by
  have hn : n ≠ 0 := by omega
  have hlog : 53 ≤ Nat.log 2 n := Nat.le_log_of_pow_le (by decide) h
  refine ⟨Nat.log 2 n - 53, ?_, ?_, ?_⟩
  · rw [lastPlace_natCast]
    omega
  · rw [Nat.add_sub_cancel' hlog]
    exact Nat.pow_log_le_self 2 hn
  · have h54 : 54 + (Nat.log 2 n - 53) = (Nat.log 2 n).succ := by omega
    rw [h54]
    exact Nat.lt_pow_succ_log_self (by decide) n

/-- The multiple of the last place that a natural number from 2^53 on is rounded to. -/
theorem exists_multiple {n e : ℕ} (he : lastPlace n = e + 1) (hlow : 2 ^ (53 + e) ≤ n) :
    ∃ k : ℕ, 2 ^ 52 ≤ k ∧ nearest n = (k * 2 ^ (e + 1) : ℕ) ∧
      (k : ℤ) = roundHalfEven (n / ((2 ^ (e + 1) : ℕ) : ℚ)) := by
  have hplace : (2 : ℚ) ^ lastPlace n = ((2 ^ (e + 1) : ℕ) : ℚ) := by
    rw [he]
    push_cast
    exact_mod_cast zpow_natCast (2 : ℚ) (e + 1)
  have hpos : (0 : ℚ) < ((2 ^ (e + 1) : ℕ) : ℚ) := by positivity
  have hscaled : ((2 ^ 52 : ℤ) : ℚ) ≤ n / ((2 ^ (e + 1) : ℕ) : ℚ) := by
    rw [le_div_iff₀ hpos]
    have hpow : 2 ^ 52 * 2 ^ (e + 1) ≤ n := by
      rw [← pow_add, show 52 + (e + 1) = 53 + e by omega]
      exact hlow
    exact_mod_cast hpow
  have hle := le_roundHalfEven hscaled
  obtain ⟨k, hk⟩ : ∃ k : ℕ, roundHalfEven (n / ((2 ^ (e + 1) : ℕ) : ℚ)) = k :=
    Int.eq_ofNat_of_zero_le (by linarith)
  refine ⟨k, ?_, ?_, hk.symm⟩
  · rw [hk] at hle
    exact_mod_cast hle
  · rw [nearest, hplace, hk]
    push_cast
    rfl

/-- A number of `54 + e` digits is rounded to the next power of 2 from half a last place below it
on. -/
theorem multiple_lt_iff {n k e : ℕ}
    (hk : (k : ℤ) = roundHalfEven (n / ((2 ^ (e + 1) : ℕ) : ℚ))) :
    k < 2 ^ 53 ↔ n < 2 ^ (54 + e) - 2 ^ e := by
  have hpos : 0 < (2 : ℕ) ^ e := Nat.pow_pos (by decide)
  rw [pow_succ, Nat.mul_comm] at hk
  rw [pow_add]
  generalize (2 : ℕ) ^ e = b at hk hpos ⊢
  have hposq : (0 : ℚ) < ((2 * b : ℕ) : ℚ) := by exact_mod_cast Nat.mul_pos (by decide) hpos
  constructor
  · intro hlt
    by_contra hge
    have hn : (2 ^ 54 * b : ℚ) ≤ n + b := by
      have hle : 2 ^ 54 * b ≤ n + b := by omega
      exact_mod_cast hle
    have hq : (((2 : ℤ) ^ 53 : ℤ) : ℚ) - 1 / 2 ≤ n / ((2 * b : ℕ) : ℚ) := by
      rw [le_div_iff₀ hposq]
      push_cast
      linarith
    have hle := le_roundHalfEven_of_even (by decide) hq
    rw [← hk] at hle
    omega
  · intro hlt
    have hn : (n : ℚ) + b < 2 ^ 54 * b := by
      have hlt : n + b < 2 ^ 54 * b := by omega
      exact_mod_cast hlt
    have hq : n / ((2 * b : ℕ) : ℚ) < (((2 : ℤ) ^ 53 - 1 : ℤ) : ℚ) + 1 / 2 := by
      rw [div_lt_iff₀ hposq]
      push_cast
      linarith
    have hle := roundHalfEven_le hq
    rw [← hk] at hle
    omega

theorem multiple_le {n k e : ℕ} (hhigh : n < 2 ^ (54 + e))
    (hk : (k : ℤ) = roundHalfEven (n / ((2 ^ (e + 1) : ℕ) : ℚ))) : k ≤ 2 ^ 53 := by
  have hposq : (0 : ℚ) < ((2 ^ (e + 1) : ℕ) : ℚ) := by positivity
  have hn : n < 2 ^ 53 * 2 ^ (e + 1) := by
    rw [← pow_add, show 53 + (e + 1) = 54 + e by omega]
    exact hhigh
  have hq : n / ((2 ^ (e + 1) : ℕ) : ℚ) < ((2 ^ 53 : ℤ) : ℚ) + 1 / 2 := by
    rw [div_lt_iff₀ hposq]
    have hnq : (n : ℚ) < 2 ^ 53 * ((2 ^ (e + 1) : ℕ) : ℚ) := by exact_mod_cast hn
    push_cast at hnq ⊢
    linarith
  have hle := roundHalfEven_le hq
  rw [← hk] at hle
  exact_mod_cast hle

/-- The double next to a natural number from 2^53 on. It is below a power of 2 when the number was
so by more than half a last place. -/
theorem nearest_natCast_of_le {n : ℕ} (h : 2 ^ 53 ≤ n) :
    ∃ m : ℕ, 2 ^ 53 ≤ m ∧ nearest n = m ∧
      ∀ p, m < 2 ^ (54 + p) ↔ n < 2 ^ (54 + p) - 2 ^ p := by
  obtain ⟨e, he, hlow, hhigh⟩ := exists_lastPlace h
  obtain ⟨k, hklow, hnearest, hk⟩ := exists_multiple he hlow
  have hleast : 2 ^ (53 + e) ≤ k * 2 ^ (e + 1) := by
    rw [show 53 + e = 52 + (e + 1) by omega, pow_add]
    exact Nat.mul_le_mul_right _ hklow
  refine ⟨k * 2 ^ (e + 1), ?_, hnearest, fun p => ?_⟩
  · exact (Nat.pow_le_pow_right (by decide) (by omega)).trans hleast
  · rcases Nat.lt_trichotomy e p with hlt | rfl | hgt
    · have hn : 2 ^ (54 + e) ≤ 2 ^ (54 + p) - 2 ^ p := by
        have hdouble : 2 ^ (54 + e) ≤ 2 ^ (53 + p) := Nat.pow_le_pow_right (by decide) (by omega)
        have hp : 2 ^ p ≤ 2 ^ (53 + p) := Nat.pow_le_pow_right (by decide) (by omega)
        have hsucc : 2 ^ (54 + p) = 2 * 2 ^ (53 + p) := by
          rw [show 54 + p = 53 + p + 1 by omega, pow_succ, Nat.mul_comm]
        omega
      have hm : k * 2 ^ (e + 1) < 2 ^ (54 + p) := by
        calc k * 2 ^ (e + 1) ≤ 2 ^ 53 * 2 ^ (e + 1) :=
              Nat.mul_le_mul_right _ (multiple_le hhigh hk)
          _ = 2 ^ (54 + e) := by rw [← pow_add, show 53 + (e + 1) = 54 + e by omega]
          _ < 2 ^ (54 + p) := Nat.pow_lt_pow_right (by decide) (by omega)
      exact iff_of_true hm (hhigh.trans_le hn)
    · rw [← multiple_lt_iff hk, show 54 + e = 53 + (e + 1) by omega, pow_add 2 53]
      exact Nat.mul_lt_mul_right (Nat.pow_pos (by decide))
    · have hlarge : 2 ^ (54 + p) ≤ 2 ^ (53 + e) := Nat.pow_le_pow_right (by decide) (by omega)
      exact iff_of_false (Nat.not_lt.2 (hlarge.trans hleast))
        (Nat.not_lt.2 ((Nat.sub_le _ _).trans (hlarge.trans hlow)))

theorem le_overflow : 2 ^ 53 ≤ overflow := by
  have htop : (2 : ℕ) ^ 54 * 2 ^ topPlace = infinity := by rw [infinity, pow_add]
  have hpos : 0 < (2 : ℕ) ^ topPlace := Nat.pow_pos (by decide)
  rw [overflow, ← htop]
  generalize (2 : ℕ) ^ topPlace = b at hpos ⊢
  omega

theorem round_natCast_of_lt {n : ℕ} (h : n < 2 ^ 53) : round n = some (n : ℚ) := by
  have hlt : (n : ℚ) < infinity := by
    exact_mod_cast (h.trans_le le_overflow).trans_le (Nat.sub_le _ _)
  rw [round, nearest_natCast_of_lt h, if_pos hlt]

/-- A natural number from 2^53 on stays a natural number that is not smaller than 2^53. -/
theorem round_natCast_of_le {n : ℕ} (h : 2 ^ 53 ≤ n) (hfinite : n < overflow) :
    ∃ m : ℕ, 2 ^ 53 ≤ m ∧ round n = some (m : ℚ) := by
  obtain ⟨m, hm, hnearest, hpow⟩ := nearest_natCast_of_le h
  have hm' : m < infinity := (hpow topPlace).2 hfinite
  have hlt : (m : ℚ) < infinity := by exact_mod_cast hm'
  exact ⟨m, hm, by rw [round, hnearest, if_pos hlt]⟩

theorem round_natCast_eq_none {n : ℕ} (h : overflow ≤ n) : round n = none := by
  obtain ⟨m, -, hnearest, hpow⟩ := nearest_natCast_of_le (le_overflow.trans h)
  have hge : ¬ (m : ℚ) < infinity := by
    intro hlt
    have hm : m < infinity := by exact_mod_cast hlt
    exact Nat.not_lt.2 h ((hpow topPlace).1 hm)
  rw [round, hnearest, if_neg hge]

end HeadlessErp.Binary64
