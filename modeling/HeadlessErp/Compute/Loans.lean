import Mathlib
import HeadlessErp.Base.Annuity

/-!
# Loan schedules

The annuity functions of `packages/compute/src/functions/financial.ts`, on exact rationals: `none`
is a number that is not finite. The balance that interest and principal are split by has the future
value added to it, and the interest of payments at the beginning of their periods is that of the
balance before the payment. So a schedule is right without a future value, at the end of the periods
(`Loan.scheduleHolds_iff`).
-/

namespace HeadlessErp.Compute

/-! ## The functions -/

/-- A quotient. -/
def quotient (x y : ℚ) : Option ℚ := if y = 0 then none else some (x / y)

/-- `Math.pow`, for a whole exponent. -/
def power (x : ℚ) (k : ℤ) : Option ℚ := if x = 0 ∧ k < 0 then none else some (x ^ k)

/-- What one more in each period comes to. -/
def annuityFactor (r pvif t : ℚ) : Option ℚ := (quotient (pvif - 1) r).map (· * (1 + r * t))

/-- `pmt`. -/
def pmt (r : ℚ) (n : ℤ) (p f t : ℚ) : Option ℚ :=
  if n = 0 then none
  else if r = 0 then quotient (-(p + f)) n
  else do
    let pvif ← power (1 + r) n
    quotient (-(r * (p * pvif + f))) ((1 + r * t) * (pvif - 1))

/-- `fv`. -/
def fv (r : ℚ) (n : ℤ) (payment p t : ℚ) : Option ℚ := do
  let pvif ← power (1 + r) n
  let fvifa ← if r = 0 then some (n : ℚ) else annuityFactor r pvif t
  some (-(p * pvif + payment * fvifa))

/-- `pv`. -/
def pv (r : ℚ) (n : ℤ) (payment f t : ℚ) : Option ℚ :=
  if r = 0 then some (-(f + payment * n))
  else do
    let pvif ← power (1 + r) n
    let inverse ← quotient 1 pvif
    let pvifa ← (quotient (1 - inverse) r).map (· * (1 + r * t))
    let discounted ← quotient (-f) pvif
    some (discounted - payment * pvifa)

/-- `balanceAfter`. -/
def balanceAfter (p pm r : ℚ) (k : ℤ) (t f : ℚ) : Option ℚ :=
  if r = 0 then some (p + pm * k + f)
  else do
    let pvif ← power (1 + r) k
    let factor ← annuityFactor r pvif t
    some (p * pvif + pm * factor + f)

/-- `ipmt`. -/
def ipmt (r : ℚ) (per n : ℤ) (present f t : ℚ) : Option ℚ :=
  if r = 0 then some 0
  else do
    let pm ← pmt r n present f t
    let bal ← balanceAfter present pm r (per - 1) t f
    some (-(bal * r))

/-- `ppmt`. -/
def ppmt (r : ℚ) (per n : ℤ) (present f t : ℚ) : Option ℚ := do
  let pm ← pmt r n present f t
  let interest ← ipmt r per n present f t
  some (pm - interest)

/-- The sum of a loop over some periods. -/
def sumPeriods (x : ℤ → Option ℚ) (start : ℤ) : ℕ → Option ℚ
  | 0 => some 0
  | k + 1 => do
    let sum ← sumPeriods x start k
    let next ← x (start + k)
    some (sum + next)

/-- The sum of a loop from a period to another, of those of the loan. -/
def cumulative (x : ℤ → Option ℚ) (n start finish : ℤ) : Option ℚ :=
  sumPeriods x (max 1 start) (min n finish + 1 - max 1 start).toNat

/-- `cumipmt`. -/
def cumipmt (r : ℚ) (n : ℤ) (present : ℚ) (start finish : ℤ) (t : ℚ) : Option ℚ :=
  cumulative (fun per => ipmt r per n present 0 t) n start finish

/-- `cumprinc`. -/
def cumprinc (r : ℚ) (n : ℤ) (present : ℚ) (start finish : ℤ) (t : ℚ) : Option ℚ :=
  cumulative (fun per => ppmt r per n present 0 t) n start finish

/-- `loanBalance`. -/
def loanBalance (r : ℚ) (n k : ℤ) (present f t : ℚ) : Option ℚ :=
  if r = 0 then (pmt r n present f t).map fun pm => present + pm * k + f
  else do
    let pvif ← power (1 + r) k
    let factor ← annuityFactor r pvif t
    let pm ← pmt r n present f t
    some (present * pvif + pm * factor + f)

/-! ## Loans -/

/-- A loan over some periods. `due` is the type: payments are made at the beginning of a period. -/
structure Loan where
  rate : ℚ
  periods : ℕ
  present : ℚ
  future : ℚ
  due : Bool
  rate_pos : 0 < rate
  periods_pos : 1 ≤ periods

namespace Loan
variable (L : Loan)

/-- The argument `type`. -/
def type : ℚ := if L.due then 1 else 0

/-- The growth over some periods. -/
def growth (k : ℕ) : ℚ := (1 + L.rate) ^ k

/-- The payment of a period. -/
def payment (future : ℚ) : ℚ :=
  -(L.rate * (L.present * L.growth L.periods + future)) /
    ((1 + L.rate * L.type) * (L.growth L.periods - 1))

/-- What is owed after some periods. -/
def owed (k : ℕ) : ℚ := Annuity.balance L.rate L.due (L.payment L.future) L.present k

/-- The balance on which interest accrues in a period. -/
def bearing (k : ℕ) : ℚ := Annuity.bearing L.due (L.payment L.future) (L.owed (k - 1))

/-- The identities of the functions on a loan with its payment `p`. -/
structure Identities (p : ℚ) : Prop where
  payment : pmt L.rate L.periods L.present L.future L.type = some p
  future : fv L.rate L.periods p L.present L.type = some L.future
  present : pv L.rate L.periods p L.future L.type = some L.present
  interest : ∀ k : ℕ, 1 ≤ k → k ≤ L.periods →
    ipmt L.rate k L.periods L.present L.future L.type = some (-(L.rate * L.bearing k))
  split : ∀ k : ℕ, 1 ≤ k → k ≤ L.periods → ∃ principal interest,
    ppmt L.rate k L.periods L.present L.future L.type = some principal ∧
      ipmt L.rate k L.periods L.present L.future L.type = some interest ∧ principal + interest = p
  principal : sumPeriods (fun per => ppmt L.rate per L.periods L.present L.future L.type) 1
    L.periods = some (-(L.present + L.future))
  balance : ∀ k : ℕ, k ≤ L.periods → ∃ b,
    loanBalance L.rate L.periods k L.present L.future L.type = some b ∧
      fv L.rate k p L.present L.type = some (-b)
  start : loanBalance L.rate L.periods 0 L.present L.future L.type = some L.present
  cumulative : ∃ p₀ interest principal, pmt L.rate L.periods L.present 0 L.type = some p₀ ∧
    cumipmt L.rate L.periods L.present 1 L.periods L.type = some interest ∧
      cumprinc L.rate L.periods L.present 1 L.periods L.type = some principal ∧
        interest + principal = L.periods * p₀

/-- The schedule of a loan fits together. -/
def ScheduleHolds : Prop := ∃ p, L.Identities p

/-! ## What the functions compute -/

theorem growth_pos (k : ℕ) : 0 < L.growth k := by
  have := L.rate_pos
  unfold growth
  positivity

theorem one_lt_growth : 1 < L.growth L.periods :=
  one_lt_pow₀ (by linarith [L.rate_pos]) (Nat.one_le_iff_ne_zero.1 L.periods_pos)

theorem type_pos : 0 < 1 + L.rate * L.type := by
  have := L.rate_pos
  unfold type
  split <;> linarith

theorem timing_eq : Annuity.timing L.rate L.due = 1 + L.rate * L.type := by
  unfold Annuity.timing type
  split <;> ring

theorem power_growth (k : ℕ) : power (1 + L.rate) k = some (L.growth k) := by
  have hpos := L.rate_pos
  rw [power, if_neg (by omega), zpow_natCast]
  rfl

theorem annuityFactor_eq (x : ℚ) :
    annuityFactor L.rate x L.type = some ((x - 1) / L.rate * (1 + L.rate * L.type)) := by
  rw [annuityFactor, quotient, if_neg L.rate_pos.ne', Option.map_some]

theorem pmt_eq (future : ℚ) :
    pmt L.rate L.periods L.present future L.type = some (L.payment future) := by
  have hn : (L.periods : ℤ) ≠ 0 := by
    have := L.periods_pos
    omega
  have hden : (1 + L.rate * L.type) * (L.growth L.periods - 1) ≠ 0 :=
    mul_ne_zero L.type_pos.ne' (by linarith [L.one_lt_growth])
  rw [pmt, if_neg hn, if_neg L.rate_pos.ne', power_growth]
  exact if_neg hden

/-- The payment and the growth of the balance leave the future value. -/
theorem payment_mul (future : ℚ) :
    L.payment future * ((L.growth L.periods - 1) / L.rate * (1 + L.rate * L.type)) =
      -(L.present * L.growth L.periods + future) := by
  have hgrowth : L.growth L.periods - 1 ≠ 0 := by linarith [L.one_lt_growth]
  have htype := L.type_pos.ne'
  have hrate := L.rate_pos.ne'
  unfold payment
  field_simp

theorem owed_eq (k : ℕ) : L.owed k = L.present * L.growth k +
    L.payment L.future * ((L.growth k - 1) / L.rate * (1 + L.rate * L.type)) := by
  rw [owed, Annuity.balance_eq _ _ L.rate_pos.ne', timing_eq]
  rfl

theorem owed_zero : L.owed 0 = L.present := rfl

theorem owed_periods : L.owed L.periods = -L.future := by
  rw [owed_eq, payment_mul]
  ring

theorem fv_eq (k : ℕ) : fv L.rate k (L.payment L.future) L.present L.type = some (-L.owed k) := by
  rw [fv, power_growth]
  simp only [Option.bind_eq_bind, Option.bind_some, if_neg L.rate_pos.ne', annuityFactor_eq,
    owed_eq]

theorem balanceAfter_eq (k : ℕ) :
    balanceAfter L.present (L.payment L.future) L.rate k L.type L.future =
      some (L.owed k + L.future) := by
  rw [balanceAfter, if_neg L.rate_pos.ne', power_growth]
  simp only [Option.bind_eq_bind, Option.bind_some, annuityFactor_eq, owed_eq]

theorem loanBalance_eq (k : ℕ) :
    loanBalance L.rate L.periods k L.present L.future L.type = some (L.owed k + L.future) := by
  rw [loanBalance, if_neg L.rate_pos.ne', power_growth]
  simp only [Option.bind_eq_bind, Option.bind_some, annuityFactor_eq, pmt_eq, owed_eq]

theorem ipmt_eq (k : ℕ) :
    ipmt L.rate (k + 1 : ℕ) L.periods L.present L.future L.type =
      some (-((L.owed k + L.future) * L.rate)) := by
  have hk : ((k + 1 : ℕ) : ℤ) - 1 = k := by omega
  rw [ipmt, if_neg L.rate_pos.ne', pmt_eq]
  simp only [Option.bind_eq_bind, Option.bind_some, hk, balanceAfter_eq]

theorem ppmt_eq (k : ℕ) :
    ppmt L.rate (k + 1 : ℕ) L.periods L.present L.future L.type =
      some (L.payment L.future + (L.owed k + L.future) * L.rate) := by
  rw [ppmt, pmt_eq, ipmt_eq]
  simp only [Option.bind_eq_bind, Option.bind_some, sub_neg_eq_add]

theorem pv_eq : pv L.rate L.periods (L.payment L.future) L.future L.type = some L.present := by
  have hgrowth := (L.growth_pos L.periods).ne'
  have hrate := L.rate_pos.ne'
  rw [pv, if_neg hrate, power_growth]
  simp only [Option.bind_eq_bind, Option.bind_some, quotient, if_neg hgrowth, if_neg hrate,
    Option.map_some]
  have hmul := L.payment_mul L.future
  have hfactor : L.payment L.future *
      ((1 - 1 / L.growth L.periods) / L.rate * (1 + L.rate * L.type)) =
        -(L.present * L.growth L.periods + L.future) / L.growth L.periods := by
    rw [← hmul]
    field_simp
  rw [hfactor]
  congr 1
  field_simp
  ring

/-! ## The schedule -/

theorem sumPeriods_eq {x : ℤ → Option ℚ} {value : ℕ → ℚ}
    (h : ∀ k, x ((k + 1 : ℕ) : ℤ) = some (value k)) (n : ℕ) :
    sumPeriods x 1 n = some (∑ k ∈ Finset.range n, value k) := by
  induction n with
  | zero => rfl
  | succ n ih =>
    have hx : x (1 + (n : ℤ)) = some (value n) := by
      rw [← h n]
      congr 1
      omega
    rw [sumPeriods, ih, hx, Finset.sum_range_succ]
    rfl

theorem cumulative_eq {x : ℤ → Option ℚ} {value : ℕ → ℚ}
    (h : ∀ k, x ((k + 1 : ℕ) : ℤ) = some (value k)) (n : ℕ) :
    cumulative x n 1 n = some (∑ k ∈ Finset.range n, value k) := by
  have hcount : (min (n : ℤ) n + 1 - max 1 1).toNat = n := by omega
  rw [cumulative, hcount, max_self, sumPeriods_eq h]

/-- A payment is nothing where nothing is owed. -/
theorem payment_eq_zero_iff : L.payment 0 = 0 ↔ L.present = 0 := by
  have hden : (1 + L.rate * L.type) * (L.growth L.periods - 1) ≠ 0 :=
    mul_ne_zero L.type_pos.ne' (by linarith [L.one_lt_growth])
  rw [payment, div_eq_zero_iff, or_iff_left hden, neg_eq_zero, add_zero]
  simp only [mul_eq_zero, L.rate_pos.ne', (L.growth_pos L.periods).ne', false_or, or_false]

/-- The schedule of a loan is right just when no future value is left and the payments are made at
the end of their periods, or there is nothing to pay. -/
theorem scheduleHolds_iff : L.ScheduleHolds ↔ L.future = 0 ∧ (L.due = true → L.present = 0) := by
  constructor
  · rintro ⟨p, h⟩
    obtain rfl : L.payment L.future = p :=
      Option.some.inj ((L.pmt_eq L.future).symm.trans h.payment)
    have hfuture : L.future = 0 := by
      have hstart := (L.loanBalance_eq 0).symm.trans h.start
      have hsum := Option.some.inj hstart
      rw [owed_zero] at hsum
      linarith
    refine ⟨hfuture, fun hdue => L.payment_eq_zero_iff.1 ?_⟩
    have hinterest := (L.ipmt_eq 0).symm.trans (h.interest 1 le_rfl L.periods_pos)
    have heq := Option.some.inj hinterest
    have hbearing : L.bearing 1 = L.owed 0 + L.payment L.future := if_pos hdue
    rw [hbearing, hfuture] at heq
    have hmul : L.rate * L.payment 0 = 0 := by linarith
    exact (mul_eq_zero.1 hmul).resolve_left L.rate_pos.ne'
  · rintro ⟨hfuture, hdue⟩
    have hbearing (k : ℕ) : L.bearing (k + 1) = L.owed k := by
      rw [bearing, Nat.add_sub_cancel, Annuity.bearing]
      split
      · next h => rw [hfuture, L.payment_eq_zero_iff.2 (hdue h), add_zero]
      · rfl
    have hipmt (k : ℕ) := L.ipmt_eq k
    have hppmt (k : ℕ) := L.ppmt_eq k
    refine ⟨L.payment L.future, ?_⟩
    constructor
    case payment => exact L.pmt_eq L.future
    case future => rw [fv_eq, owed_periods, neg_neg]
    case present => exact L.pv_eq
    case interest =>
      intro k hk _
      obtain ⟨k, rfl⟩ := Nat.exists_eq_succ_of_ne_zero (Nat.one_le_iff_ne_zero.1 hk)
      rw [Nat.succ_eq_add_one, hipmt, hbearing, hfuture, add_zero, mul_comm]
    case split =>
      intro k hk _
      obtain ⟨k, rfl⟩ := Nat.exists_eq_succ_of_ne_zero (Nat.one_le_iff_ne_zero.1 hk)
      exact ⟨_, _, hppmt k, hipmt k, by ring⟩
    case principal =>
      rw [sumPeriods_eq hppmt]
      have hsum := Annuity.sum_principal L.rate L.due (L.payment L.future) L.present L.periods
      have hterm (k : ℕ) : L.payment L.future + (L.owed k + L.future) * L.rate =
          L.payment L.future + L.rate * Annuity.bearing L.due (L.payment L.future)
            (Annuity.balance L.rate L.due (L.payment L.future) L.present k) := by
        have hk := hbearing k
        rw [bearing, Nat.add_sub_cancel] at hk
        rw [← owed, hk, hfuture]
        ring
      simp only [hterm]
      rw [hsum, ← owed, owed_periods]
      congr 1
      ring
    case balance =>
      intro k _
      refine ⟨L.owed k, ?_, L.fv_eq k⟩
      rw [loanBalance_eq, hfuture, add_zero]
    case start =>
      have hstart := L.loanBalance_eq 0
      rwa [owed_zero, hfuture, add_zero, ← hfuture] at hstart
    case cumulative =>
      rw [hfuture] at hipmt hppmt
      refine ⟨_, _, _, L.pmt_eq 0, cumulative_eq hipmt L.periods, cumulative_eq hppmt L.periods, ?_⟩
      rw [← Finset.sum_add_distrib]
      have hterm (k : ℕ) : -((L.owed k + 0) * L.rate) + (L.payment 0 + (L.owed k + 0) * L.rate) =
          L.payment 0 := by ring
      simp only [hterm, Finset.sum_const, Finset.card_range, nsmul_eq_mul]

end Loan

/-- A year's loan of a hundred at ten per cent that is paid back to the last ten. -/
def residualLoan : Loan where
  rate := 1 / 10
  periods := 1
  present := 100
  future := -10
  due := false
  rate_pos := by norm_num
  periods_pos := le_rfl

/-- The residual value is taken off what is owed at the beginning. -/
theorem not_scheduleHolds_residualLoan : ¬residualLoan.ScheduleHolds := by
  rintro ⟨p, h⟩
  have hstart := (residualLoan.loanBalance_eq 0).symm.trans h.start
  have hsum := Option.some.inj hstart
  rw [Loan.owed_zero] at hsum
  norm_num [residualLoan] at hsum

end HeadlessErp.Compute
