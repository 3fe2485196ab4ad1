import Mathlib

/-!
# Depreciation

`DDB` and `SYD` of `packages/compute/src/functions/financial.ts`, on exact rationals: `none` is
`NaN`. Every period's charge of `DDB` is the last one of a schedule that is computed anew. The
charges are not negative, and what they leave is between the salvage value and the cost
(`depreciates_within`).
-/

namespace HeadlessErp.Compute

/-! ## The functions -/

/-- The loop of `ddb` over some periods: the book value and the last charge. -/
def ddbLoop (rate salvage : ℚ) : ℕ → ℚ × ℚ → ℚ × ℚ
  | 0, s => s
  | periods + 1, (book, _) =>
    let dep := min (book * rate) (book - salvage)
    ddbLoop rate salvage periods (book - dep, dep)

/-- `ddb`. -/
def ddb (cost salvage life : ℚ) (period : ℕ) : Option ℚ :=
  if life = 0 then none else some (ddbLoop (2 / life) salvage period (cost, 0)).2

/-- `syd`. -/
def syd (cost salvage life period : ℚ) : Option ℚ :=
  if life ≤ 0 then none
  else some ((cost - salvage) * (life - period + 1) * 2 / (life * (life + 1)))

/-! ## The declining balance -/

section
variable {rate salvage : ℚ}

theorem ddbLoop_succ (periods : ℕ) (s : ℚ × ℚ) :
    ddbLoop rate salvage (periods + 1) s =
      ddbLoop rate salvage 1 (ddbLoop rate salvage periods s) := by
  induction periods generalizing s with
  | zero => rfl
  | succ periods ih =>
    obtain ⟨book, dep⟩ := s
    rw [ddbLoop, ih]
    rfl

/-- What a period charges is taken off the book value. -/
theorem ddbLoop_one (s : ℚ × ℚ) :
    ddbLoop rate salvage 1 s =
      (s.1 - min (s.1 * rate) (s.1 - salvage), min (s.1 * rate) (s.1 - salvage)) := rfl

/-- The book value is never below the salvage value, and no charge is negative. -/
theorem ddbLoop_within (hrate : 0 ≤ rate) (hsalvage : 0 ≤ salvage) (periods : ℕ) {s : ℚ × ℚ}
    (hs : salvage ≤ s.1 ∧ 0 ≤ s.2) :
    salvage ≤ (ddbLoop rate salvage periods s).1 ∧ 0 ≤ (ddbLoop rate salvage periods s).2 := by
  induction periods with
  | zero => exact hs
  | succ periods ih =>
    obtain ⟨hbook, -⟩ := ih
    rw [ddbLoop_succ, ddbLoop_one]
    constructor
    · have hle := min_le_right ((ddbLoop rate salvage periods s).1 * rate)
        ((ddbLoop rate salvage periods s).1 - salvage)
      linarith
    · exact le_min (mul_nonneg (hsalvage.trans hbook) hrate) (sub_nonneg.2 hbook)

/-- The charges are what the book value loses. -/
theorem sum_ddbLoop (s : ℚ × ℚ) (periods : ℕ) :
    (∑ p ∈ Finset.Icc 1 periods, (ddbLoop rate salvage p s).2) =
      s.1 - (ddbLoop rate salvage periods s).1 := by
  induction periods with
  | zero => simp [ddbLoop]
  | succ periods ih =>
    rw [Finset.sum_Icc_succ_top (by omega), ih, ddbLoop_succ, ddbLoop_one]
    ring

end

/-! ## The sum of the digits -/

theorem sum_digits (life : ℕ) (life' : ℚ) :
    (∑ p ∈ Finset.Icc 1 life, (life' - (p : ℚ) + 1)) * 2 = life * (2 * life' - life + 1) := by
  induction life with
  | zero => simp
  | succ life ih =>
    rw [Finset.sum_Icc_succ_top (by omega), add_mul, ih]
    push_cast
    ring

/-! ## Assets -/

/-- What is depreciated. -/
structure Asset where
  cost : ℚ
  salvage : ℚ
  salvage_nonneg : 0 ≤ salvage
  salvage_le : salvage ≤ cost

/-- The charges of all periods: none is negative, and the book value that they leave is between the
salvage value and the cost. -/
def DeclinesWithin (A : Asset) (life : ℚ) : Prop :=
  ∃ charge : ℕ → ℚ, (∀ p, ddb A.cost A.salvage life p = some (charge p)) ∧
    (∀ p, 0 ≤ charge p) ∧
      ∀ p, A.salvage ≤ A.cost - ∑ i ∈ Finset.Icc 1 p, charge i ∧
        A.cost - ∑ i ∈ Finset.Icc 1 p, charge i ≤ A.cost

/-- The charges of the periods of a life: none is negative, and they sum to what is depreciated. -/
def SumsToBase (A : Asset) (life : ℕ) : Prop :=
  ∃ charge : ℕ → ℚ, (∀ p : ℕ, syd A.cost A.salvage life p = some (charge p)) ∧
    (∀ p ∈ Finset.Icc 1 life, 0 ≤ charge p) ∧
      ∑ p ∈ Finset.Icc 1 life, charge p = A.cost - A.salvage

theorem declinesWithin (A : Asset) {life : ℚ} (hlife : 1 ≤ life) : DeclinesWithin A life := by
  have hrate : 0 ≤ 2 / life := div_nonneg (by norm_num) (by linarith)
  have hloop (p : ℕ) := ddbLoop_within hrate A.salvage_nonneg p (s := (A.cost, 0))
    ⟨A.salvage_le, le_rfl⟩
  refine ⟨fun p => (ddbLoop (2 / life) A.salvage p (A.cost, 0)).2, fun p => ?_, fun p => ?_, ?_⟩
  · exact if_neg (by linarith)
  · exact (hloop p).2
  · intro p
    have hnonneg := Finset.sum_nonneg fun i (_ : i ∈ Finset.Icc 1 p) => (hloop i).2
    rw [sum_ddbLoop] at hnonneg ⊢
    have hbook := (hloop p).1
    constructor <;> linarith

theorem sumsToBase (A : Asset) {life : ℕ} (hlife : 1 ≤ life) : SumsToBase A life := by
  have hpos : (0 : ℚ) < life := by exact_mod_cast hlife
  have hden : (0 : ℚ) < life * (life + 1) := by positivity
  refine ⟨fun p => (A.cost - A.salvage) * ((life : ℚ) - p + 1) * 2 / (life * (life + 1)),
    fun p => if_neg (not_le.2 hpos), fun p hp => ?_, ?_⟩
  · have hle : (p : ℚ) ≤ life := by exact_mod_cast (Finset.mem_Icc.1 hp).2
    have hbase := sub_nonneg.2 A.salvage_le
    have hdigit : (0 : ℚ) ≤ life - p + 1 := by linarith
    positivity
  · have hsum := sum_digits life life
    rw [← Finset.sum_div, div_eq_iff hden.ne', ← Finset.sum_mul, ← Finset.mul_sum, mul_assoc, hsum]
    ring

/-- Depreciation never passes the salvage value. -/
theorem depreciates_within (A : Asset) :
    (∀ life : ℚ, 1 ≤ life → DeclinesWithin A life) ∧ ∀ life : ℕ, 1 ≤ life → SumsToBase A life :=
  ⟨fun _ => declinesWithin A, fun _ => sumsToBase A⟩

/-- A machine that costs a hundred and is worth ten in the end, over a year and a half. -/
theorem depreciates_within_machine :
    DeclinesWithin ⟨100, 10, by norm_num, by norm_num⟩ (3 / 2) ∧
      SumsToBase ⟨100, 10, by norm_num, by norm_num⟩ 5 :=
  ⟨(depreciates_within _).1 _ (by norm_num), (depreciates_within _).2 5 (by norm_num)⟩

end HeadlessErp.Compute
