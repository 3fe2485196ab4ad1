import Mathlib.Algebra.BigOperators.Group.Finset.Basic
import Mathlib.Algebra.BigOperators.Ring.Finset
import Mathlib.Algebra.Field.Basic
import Mathlib.Tactic.FieldSimp
import Mathlib.Tactic.Ring

/-!
# Annuities

A balance that bears interest, with one payment in each period: at the end of the period or, where
payments are due, at its beginning. The balance after some periods has a closed form (`balance_eq`),
and what the payments leave of it is the sum of their parts that are no interest (`sum_principal`).
-/

namespace HeadlessErp.Annuity

section
variable {K : Type*} [Field K] (rate : K) (due : Bool) (payment : K)

/-- The part of a balance that bears interest in a period. -/
def bearing (b : K) : K := if due then b + payment else b

/-- The balance after a period. -/
def advance (b : K) : K := bearing due payment b * (1 + rate) + if due then 0 else payment

/-- The balance after some periods. -/
def balance (b : K) : ℕ → K
  | 0 => b
  | k + 1 => advance rate due payment (balance b k)

/-- What a payment is at the end of its period. -/
def timing : K := if due then 1 + rate else 1

theorem advance_eq (b : K) :
    advance rate due payment b = b * (1 + rate) + payment * timing rate due := by
  cases due <;> simp only [advance, bearing, timing, if_true, Bool.false_eq_true, if_false] <;> ring

variable {rate}

theorem balance_eq (hrate : rate ≠ 0) (b : K) (k : ℕ) :
    balance rate due payment b k =
      b * (1 + rate) ^ k + payment * (((1 + rate) ^ k - 1) / rate * timing rate due) := by
  induction k with
  | zero => simp [balance]
  | succ k ih =>
    rw [balance, advance_eq, ih, pow_succ]
    field_simp
    ring

variable (rate)

/-- What a period takes off the balance, or adds to it. -/
theorem balance_succ_sub (b : K) (k : ℕ) :
    balance rate due payment b (k + 1) - balance rate due payment b k =
      payment + rate * bearing due payment (balance rate due payment b k) := by
  rw [balance]
  cases due <;> simp only [advance, bearing, if_true, Bool.false_eq_true, if_false] <;> ring

theorem sum_principal (b : K) (n : ℕ) :
    (∑ k ∈ Finset.range n, (payment + rate * bearing due payment (balance rate due payment b k))) =
      balance rate due payment b n - b := by
  induction n with
  | zero => simp [balance]
  | succ n ih =>
    rw [Finset.sum_range_succ, ih, ← balance_succ_sub]
    ring

end

end HeadlessErp.Annuity
