import Mathlib

/-!
# Progressive taxes

`TAX_BRACKETS` of `packages/compute/src/functions/tax.ts`, on exact rationals: `none` is `NaN`. The
tax is the sum of what the brackets take of the parts of the amount in them (`marginal`). The
function asks for a threshold of zero in the bracket that is listed first, before it sorts them
(`taxedProgressively_iff`).
-/

namespace HeadlessErp.Compute

/-- A bracket: a threshold and a rate. -/
abbrev Bracket := ℚ × ℚ

/-! ## The function -/

/-- The loop of `taxBrackets`, over sorted brackets. -/
def taxLoop (a : ℚ) : List Bracket → ℚ → ℚ
  | [], total => total
  | [(lower, rate)], total => total + max 0 (a - lower) * rate
  | (lower, rate) :: (upper, next) :: pairs, total =>
    let total := total + max 0 (min a upper - lower) * rate
    if a ≤ upper then total else taxLoop a ((upper, next) :: pairs) total

/-- The order of the sort. -/
def notAbove (x y : Bracket) : Bool := x.1 ≤ y.1

/-- The brackets by their thresholds. -/
def sortPairs (pairs : List Bracket) : List Bracket := pairs.mergeSort notAbove

/-- `taxBrackets`. -/
def taxBrackets (a : ℚ) (pairs : List Bracket) : Option ℚ :=
  match pairs with
  | [] => none
  | (first, _) :: _ => if first ≠ 0 then none else some (taxLoop a (sortPairs pairs) 0)

/-! ## The marginal tax -/

/-- The thresholds of some brackets. -/
def thresholds (pairs : List Bracket) : Finset ℚ := (pairs.map (·.1)).toFinset

/-- The rate from a threshold on. Of the brackets of one threshold those that are not listed last
are empty. -/
def rateFrom (pairs : List Bracket) (threshold : ℚ) : ℚ :=
  (((pairs.filter (·.1 = threshold)).getLast?).map (·.2)).getD 0

/-- Where the part of an amount ends that is in the bracket from a threshold on: at the next one or
at the amount. -/
def upperEnd (T : Finset ℚ) (threshold a : ℚ) : ℚ := (T.filter (threshold < ·)).fold min a id

/-- The part of an amount that is in the bracket from a threshold on. -/
def partInside (T : Finset ℚ) (threshold a : ℚ) : ℚ := max 0 (upperEnd T threshold a - threshold)

/-- What the brackets take of an amount. -/
def marginal (pairs : List Bracket) (a : ℚ) : ℚ :=
  ∑ threshold ∈ thresholds pairs,
    rateFrom pairs threshold * partInside (thresholds pairs) threshold a

theorem upperEnd_le (T : Finset ℚ) (threshold a : ℚ) : upperEnd T threshold a ≤ a :=
  ((Finset.le_fold_min _).1 le_rfl).1

theorem upperEnd_le_next {T : Finset ℚ} {threshold next : ℚ} (hnext : next ∈ T)
    (hlt : threshold < next) (a : ℚ) : upperEnd T threshold a ≤ next :=
  ((Finset.le_fold_min _).1 le_rfl).2 next (Finset.mem_filter.2 ⟨hnext, hlt⟩)

theorem le_upperEnd {T : Finset ℚ} {threshold a c : ℚ} (ha : c ≤ a)
    (hT : ∀ next ∈ T, threshold < next → c ≤ next) : c ≤ upperEnd T threshold a :=
  (Finset.le_fold_min _).2 ⟨ha, fun next hnext =>
    hT next (Finset.mem_filter.1 hnext).1 (Finset.mem_filter.1 hnext).2⟩

/-- Nothing of an amount is above it. -/
theorem partInside_eq_zero {T : Finset ℚ} {threshold a : ℚ} (h : a ≤ threshold) :
    partInside T threshold a = 0 :=
  max_eq_left (sub_nonpos.2 ((upperEnd_le T threshold a).trans h))

/-- What a bracket takes does not fall with the amount. -/
theorem partInside_mono (T : Finset ℚ) (threshold : ℚ) : Monotone (partInside T threshold) := by
  intro a b hab
  refine max_le_max le_rfl (sub_le_sub_right ?_ threshold)
  exact le_upperEnd ((upperEnd_le T threshold a).trans hab) fun next hnext hlt =>
    upperEnd_le_next hnext hlt a

theorem continuous_partInside (T : Finset ℚ) (threshold : ℚ) :
    Continuous (partInside T threshold) := by
  have hfold (S : Finset ℚ) : Continuous fun a : ℚ => S.fold min a id := by
    induction S using Finset.induction with
    | empty => exact continuous_id
    | insert next S hnext ih =>
      simp only [Finset.fold_insert hnext]
      exact continuous_const.min ih
  exact continuous_const.max ((hfold _).sub continuous_const)

theorem rateFrom_nonneg {pairs : List Bracket} (h : ∀ b ∈ pairs, 0 ≤ b.2) (threshold : ℚ) :
    0 ≤ rateFrom pairs threshold := by
  unfold rateFrom
  cases hlast : (pairs.filter (·.1 = threshold)).getLast? with
  | none => exact le_rfl
  | some b => exact h b (List.mem_of_mem_filter (List.mem_of_getLast? hlast))

theorem marginal_mono {pairs : List Bracket} (h : ∀ b ∈ pairs, 0 ≤ b.2) :
    Monotone (marginal pairs) := by
  intro a b hab
  refine Finset.sum_le_sum fun threshold _ => ?_
  exact mul_le_mul_of_nonneg_left (partInside_mono _ threshold hab) (rateFrom_nonneg h threshold)

theorem continuous_marginal (pairs : List Bracket) : Continuous (marginal pairs) :=
  continuous_finsetSum _ fun threshold _ =>
    continuous_const.mul (continuous_partInside _ threshold)

/-! ## Sorted brackets -/

/-- Brackets above an amount take nothing of it. -/
theorem marginal_eq_zero {pairs : List Bracket} {a : ℚ} (h : ∀ b ∈ pairs, a ≤ b.1) :
    marginal pairs a = 0 := by
  refine Finset.sum_eq_zero fun threshold hthreshold => ?_
  obtain ⟨b, hb, rfl⟩ := List.mem_map.1 (List.mem_toFinset.1 hthreshold)
  rw [partInside_eq_zero (h b hb), mul_zero]

theorem rateFrom_cons_of_ne {b : Bracket} {threshold : ℚ} (h : b.1 ≠ threshold)
    (pairs : List Bracket) : rateFrom (b :: pairs) threshold = rateFrom pairs threshold := by
  rw [rateFrom, List.filter_cons_of_neg (by simpa using h), rateFrom]

/-- Where a bracket is listed later for the same threshold, the earlier one is empty. -/
theorem rateFrom_cons_of_mem {threshold : ℚ} {pairs : List Bracket}
    (h : threshold ∈ thresholds pairs) (b : Bracket) :
    rateFrom (b :: pairs) threshold = rateFrom pairs threshold := by
  obtain ⟨c, hc, rfl⟩ := List.mem_map.1 (List.mem_toFinset.1 h)
  have hne : pairs.filter (·.1 = c.1) ≠ [] :=
    List.ne_nil_of_mem (List.mem_filter.2 ⟨hc, decide_eq_true rfl⟩)
  unfold rateFrom
  rw [List.filter_cons]
  split
  · rw [List.getLast?_cons_of_ne_nil hne]
  · rfl

/-- A lower bracket takes its part, up to the next threshold. -/
theorem marginal_cons_of_lt {lower rate upper : ℚ} {pairs : List Bracket} (hlt : lower < upper)
    (hmem : upper ∈ thresholds pairs) (hle : ∀ b ∈ pairs, upper ≤ b.1) (a : ℚ) :
    marginal ((lower, rate) :: pairs) a =
      max 0 (min a upper - lower) * rate + marginal pairs a := by
  have hbelow {threshold : ℚ} (h : threshold ∈ thresholds pairs) : upper ≤ threshold := by
    obtain ⟨b, hb, rfl⟩ := List.mem_map.1 (List.mem_toFinset.1 h)
    exact hle b hb
  have hT : thresholds ((lower, rate) :: pairs) = insert lower (thresholds pairs) :=
    List.toFinset_cons
  have hnot : lower ∉ thresholds pairs := fun h => absurd (hbelow h) (not_le.2 hlt)
  have hrate : rateFrom ((lower, rate) :: pairs) lower = rate := by
    have hnone : pairs.filter (·.1 = lower) = [] := by
      refine List.filter_eq_nil_iff.2 fun b hb => ?_
      simpa using (hlt.trans_le (hle b hb)).ne'
    rw [rateFrom, List.filter_cons_of_pos (by simp), hnone]
    rfl
  have hend : upperEnd (insert lower (thresholds pairs)) lower a = min a upper := by
    refine le_antisymm (le_min (upperEnd_le _ _ a) ?_) (le_upperEnd (min_le_left a upper) ?_)
    · exact upperEnd_le_next (Finset.mem_insert_of_mem hmem) hlt a
    · intro next hnext hlow
      have hmem := (Finset.mem_insert.1 hnext).resolve_left hlow.ne'
      exact (min_le_right a upper).trans (hbelow hmem)
  rw [marginal, hT, Finset.sum_insert hnot, hrate, partInside, hend, mul_comm rate]
  congr 1
  refine Finset.sum_congr rfl fun threshold hthreshold => ?_
  have hlow : lower < threshold := hlt.trans_le (hbelow hthreshold)
  have hpart : partInside (insert lower (thresholds pairs)) threshold a =
      partInside (thresholds pairs) threshold a := by
    rw [partInside, upperEnd, Finset.filter_insert, if_neg hlow.le.not_gt, partInside, upperEnd]
  rw [rateFrom_cons_of_ne hlow.ne, hpart]

/-- The last bracket takes all that is above its threshold. -/
theorem marginal_singleton (lower rate a : ℚ) :
    marginal [(lower, rate)] a = max 0 (a - lower) * rate := by
  have hT : thresholds [(lower, rate)] = {lower} := rfl
  have hrate : rateFrom [(lower, rate)] lower = rate := by simp [rateFrom]
  have hend : upperEnd {lower} lower a = a :=
    le_antisymm (upperEnd_le _ _ a) (le_upperEnd le_rfl fun next hnext hlt =>
      absurd (Finset.mem_singleton.1 hnext) hlt.ne')
  rw [marginal, hT, Finset.sum_singleton, hrate, partInside, hend, mul_comm]

/-- An empty bracket takes nothing. -/
theorem marginal_cons_of_mem {lower rate : ℚ} {pairs : List Bracket}
    (h : lower ∈ thresholds pairs) (a : ℚ) :
    marginal ((lower, rate) :: pairs) a = marginal pairs a := by
  have hT : thresholds ((lower, rate) :: pairs) = thresholds pairs :=
    List.toFinset_cons.trans (Finset.insert_eq_of_mem h)
  rw [marginal, hT]
  exact Finset.sum_congr rfl fun threshold hthreshold => by rw [rateFrom_cons_of_mem hthreshold]

/-- The loop sums what sorted brackets take. It stops where the rest takes nothing. -/
theorem taxLoop_eq (a : ℚ) {pairs : List Bracket} (h : pairs.Pairwise fun x y => x.1 ≤ y.1)
    (total : ℚ) : taxLoop a pairs total = total + marginal pairs a := by
  induction pairs generalizing total with
  | nil => exact (add_zero total).symm
  | cons b pairs ih =>
    obtain ⟨lower, rate⟩ := b
    obtain ⟨hle, hsorted⟩ := List.pairwise_cons.1 h
    cases pairs with
    | nil => rw [taxLoop, marginal_singleton]
    | cons c pairs =>
      obtain ⟨upper, next⟩ := c
      have hmem : upper ∈ thresholds ((upper, next) :: pairs) :=
        List.mem_toFinset.2 List.mem_cons_self
      have habove : ∀ b ∈ (upper, next) :: pairs, upper ≤ b.1 :=
        List.forall_mem_cons.2 ⟨le_rfl, (List.pairwise_cons.1 hsorted).1⟩
      have hstep : marginal ((lower, rate) :: (upper, next) :: pairs) a =
          max 0 (min a upper - lower) * rate + marginal ((upper, next) :: pairs) a := by
        rcases (hle _ List.mem_cons_self).lt_or_eq with hlt | heq
        · exact marginal_cons_of_lt hlt hmem habove a
        · have hzero : max 0 (min a upper - lower) = 0 :=
            max_eq_left (sub_nonpos.2 ((min_le_right a upper).trans_eq heq.symm))
          have hlower : lower ∈ thresholds ((upper, next) :: pairs) := by
            rw [show lower = upper from heq]
            exact hmem
          rw [hzero, zero_mul, zero_add, marginal_cons_of_mem hlower]
      rw [taxLoop, hstep]
      split
      · next hstop =>
        rw [marginal_eq_zero fun b hb => hstop.trans (habove b hb), add_zero]
      · rw [ih hsorted, add_assoc]

/-! ## Sorting -/

theorem sortPairs_perm (pairs : List Bracket) : (sortPairs pairs).Perm pairs :=
  List.mergeSort_perm _ _

theorem notAbove_trans (x y z : Bracket) (hxy : notAbove x y = true) (hyz : notAbove y z = true) :
    notAbove x z = true :=
  decide_eq_true ((of_decide_eq_true hxy).trans (of_decide_eq_true hyz))

theorem notAbove_total (x y : Bracket) : (notAbove x y || notAbove y x) = true := by
  simpa [notAbove] using le_total x.1 y.1

theorem sortPairs_sorted (pairs : List Bracket) :
    (sortPairs pairs).Pairwise fun x y => x.1 ≤ y.1 :=
  (List.pairwise_mergeSort notAbove_trans notAbove_total pairs).imp of_decide_eq_true

/-- Brackets of one threshold stay in their order. -/
theorem filter_sortPairs (pairs : List Bracket) (threshold : ℚ) :
    (sortPairs pairs).filter (·.1 = threshold) = pairs.filter (·.1 = threshold) := by
  have hsorted : (pairs.filter (·.1 = threshold)).Pairwise fun x y => notAbove x y = true := by
    refine List.pairwise_of_forall_mem_list fun x hx y hy => ?_
    have hx := of_decide_eq_true (List.mem_filter.1 hx).2
    have hy := of_decide_eq_true (List.mem_filter.1 hy).2
    exact decide_eq_true (hx.trans hy.symm).le
  have hsublist : (pairs.filter (·.1 = threshold)).Sublist (sortPairs pairs) :=
    List.sublist_mergeSort notAbove_trans notAbove_total hsorted List.filter_sublist
  have hfilter := hsublist.filter (·.1 = threshold)
  rw [List.filter_filter] at hfilter
  simp only [Bool.and_self] at hfilter
  exact (hfilter.eq_of_length ((sortPairs_perm pairs).filter _).length_eq.symm).symm

theorem marginal_congr {pairs other : List Bracket} (hperm : other.Perm pairs)
    (hfilter : ∀ threshold, other.filter (·.1 = threshold) = pairs.filter (·.1 = threshold)) :
    marginal other = marginal pairs := by
  have hT : thresholds other = thresholds pairs :=
    List.toFinset_eq_of_perm _ _ (hperm.map _)
  have hrate (threshold : ℚ) : rateFrom other threshold = rateFrom pairs threshold := by
    rw [rateFrom, hfilter, rateFrom]
  funext a
  simp only [marginal, hT, hrate]

/-! ## Progressive taxes -/

/-- The bracket that is listed first has the threshold zero. -/
def StartsAtZero (pairs : List Bracket) : Prop := pairs.head?.map (·.1) = some 0

/-- The function computes what the brackets take. It is continuous, and it does not fall, where no
rate is negative. -/
def TaxedProgressively (pairs : List Bracket) : Prop :=
  ∃ tax : ℚ → ℚ, (∀ a, taxBrackets a pairs = some (tax a)) ∧ (∀ a, tax a = marginal pairs a) ∧
    ((∀ b ∈ pairs, 0 ≤ b.2) → Monotone tax ∧ Continuous tax)

/-- The brackets are listed in another order, those of one threshold in the same. -/
def Reorders (pairs other : List Bracket) : Prop :=
  other.Perm pairs ∧
    ∀ threshold, other.filter (·.1 = threshold) = pairs.filter (·.1 = threshold)

/-- Brackets of which one has the threshold zero. -/
structure Brackets where
  pairs : List Bracket
  zero_mem : ∃ rate, (0, rate) ∈ pairs

theorem taxBrackets_of_startsAtZero {pairs : List Bracket} (h : StartsAtZero pairs) (a : ℚ) :
    taxBrackets a pairs = some (marginal pairs a) := by
  cases pairs with
  | nil => cases h
  | cons b pairs =>
    obtain ⟨first, rate⟩ := b
    have hfirst : first = 0 := Option.some.inj h
    have hloop := taxLoop_eq a (sortPairs_sorted ((first, rate) :: pairs)) 0
    rw [zero_add, marginal_congr (sortPairs_perm _) (filter_sortPairs _)] at hloop
    rw [taxBrackets, if_neg (not_not.2 hfirst), hloop]

theorem taxBrackets_of_not_startsAtZero {pairs : List Bracket} (h : ¬StartsAtZero pairs) (a : ℚ) :
    taxBrackets a pairs = none := by
  cases pairs with
  | nil => rfl
  | cons b pairs =>
    obtain ⟨first, rate⟩ := b
    have hfirst : first ≠ 0 := fun hfirst => h (congrArg some hfirst)
    rw [taxBrackets, if_pos hfirst]

/-- Brackets are taxed progressively just when the one that is listed first has the threshold zero,
and in another order they are taxed alike just when both orders start so, or none. -/
theorem taxedProgressively_iff (B : Brackets) :
    (TaxedProgressively B.pairs ↔ StartsAtZero B.pairs) ∧
      ∀ other, Reorders B.pairs other →
        ((∀ a, taxBrackets a other = taxBrackets a B.pairs) ↔
          (StartsAtZero other ↔ StartsAtZero B.pairs)) := by
  constructor
  · constructor
    · rintro ⟨tax, htax, -⟩
      by_contra h
      have hnone := taxBrackets_of_not_startsAtZero h 0
      rw [htax] at hnone
      cases hnone
    · intro h
      refine ⟨marginal B.pairs, taxBrackets_of_startsAtZero h, fun _ => rfl, fun hrates => ?_⟩
      exact ⟨marginal_mono hrates, continuous_marginal B.pairs⟩
  · rintro other ⟨hperm, hfilter⟩
    by_cases h : StartsAtZero other <;> by_cases h' : StartsAtZero B.pairs
    · refine iff_of_true (fun a => ?_) (iff_of_true h h')
      rw [taxBrackets_of_startsAtZero h, taxBrackets_of_startsAtZero h',
        marginal_congr hperm hfilter]
    · refine iff_of_false (fun hall => ?_) fun hiff => h' (hiff.1 h)
      have hzero := hall 0
      rw [taxBrackets_of_startsAtZero h, taxBrackets_of_not_startsAtZero h'] at hzero
      cases hzero
    · refine iff_of_false (fun hall => ?_) fun hiff => h (hiff.2 h')
      have hzero := hall 0
      rw [taxBrackets_of_not_startsAtZero h, taxBrackets_of_startsAtZero h'] at hzero
      cases hzero
    · refine iff_of_true (fun a => ?_) (iff_of_false h h')
      rw [taxBrackets_of_not_startsAtZero h, taxBrackets_of_not_startsAtZero h']

/-- Five per cent from ten thousand on, listed before the bracket without a tax. -/
def highestFirst : Brackets where
  pairs := [(10000, 1 / 20), (0, 0)]
  zero_mem := ⟨0, List.mem_cons_of_mem _ List.mem_cons_self⟩

theorem not_taxedProgressively_highestFirst : ¬TaxedProgressively highestFirst.pairs := by
  rintro ⟨tax, htax, -⟩
  have hstart : ¬StartsAtZero highestFirst.pairs := by
    norm_num [StartsAtZero, highestFirst]
  have hnone := taxBrackets_of_not_startsAtZero hstart 0
  rw [htax] at hnone
  cases hnone

/-- The other order of these brackets. -/
theorem taxedProgressively_iff_highestFirst :
    (∀ a, taxBrackets a [(0, 0), (10000, 1 / 20)] = taxBrackets a highestFirst.pairs) ↔
      (StartsAtZero [(0, 0), (10000, 1 / 20)] ↔ StartsAtZero highestFirst.pairs) := by
  refine (taxedProgressively_iff highestFirst).2 _ ⟨List.Perm.swap _ _ _, fun threshold => ?_⟩
  by_cases h : threshold = 0
  · subst h
    simp [highestFirst]
  · simp [highestFirst, List.filter_cons, Ne.symm h]

/-! ## What is left of a raise -/

/-- Of a raise the sorted brackets take the highest rate at most. -/
theorem marginal_slope {r a b lower rate : ℚ} {pairs : List Bracket} (hab : a ≤ b)
    (h : ((lower, rate) :: pairs).Pairwise fun x y => x.1 ≤ y.1)
    (hrates : ∀ p ∈ (lower, rate) :: pairs, p.2 ≤ r) :
    marginal ((lower, rate) :: pairs) b - marginal ((lower, rate) :: pairs) a ≤
      r * (max 0 (b - lower) - max 0 (a - lower)) := by
  have hpart {x y : ℚ} (hxy : x ≤ y) (l : ℚ) : 0 ≤ max 0 (y - l) - max 0 (x - l) :=
    sub_nonneg.2 (max_le_max le_rfl (sub_le_sub_right hxy l))
  induction pairs generalizing lower rate with
  | nil =>
    rw [marginal_singleton, marginal_singleton, ← sub_mul, mul_comm]
    exact mul_le_mul_of_nonneg_right (hrates _ List.mem_cons_self) (hpart hab lower)
  | cons c pairs ih =>
    obtain ⟨upper, next⟩ := c
    obtain ⟨hle, hsorted⟩ := List.pairwise_cons.1 h
    have hupper : lower ≤ upper := hle _ List.mem_cons_self
    have habove : ∀ p ∈ (upper, next) :: pairs, upper ≤ p.1 :=
      List.forall_mem_cons.2 ⟨le_rfl, (List.pairwise_cons.1 hsorted).1⟩
    have hstep (x : ℚ) : marginal ((lower, rate) :: (upper, next) :: pairs) x =
        rate * max 0 (min x upper - lower) + marginal ((upper, next) :: pairs) x := by
      have hloop := taxLoop_eq x h 0
      rw [taxLoop] at hloop
      split at hloop
      · next hstop =>
        rw [marginal_eq_zero fun p hp => hstop.trans (habove p hp)]
        linarith
      · rw [taxLoop_eq x hsorted] at hloop
        linarith
    have hsplit (x : ℚ) : max 0 (x - lower) = max 0 (min x upper - lower) + max 0 (x - upper) := by
      rcases le_total x upper with hx | hx
      · rw [min_eq_left hx, max_eq_left (sub_nonpos.2 hx), add_zero]
      · rw [min_eq_right hx, max_eq_right (sub_nonneg.2 hupper), max_eq_right (sub_nonneg.2 hx),
          max_eq_right (sub_nonneg.2 (hupper.trans hx)), add_comm, sub_add_sub_cancel]
    have htail := ih hsorted fun p hp => hrates p (List.mem_cons_of_mem _ hp)
    have hhead := mul_le_mul_of_nonneg_right (hrates _ List.mem_cons_self)
      (hpart (min_le_min_right upper hab) lower)
    rw [hstep, hstep, hsplit a, hsplit b]
    linarith

/-- A raise is taxed at the highest rate at most, so with rates up to one more is left of more. -/
theorem taxBrackets_slope {pairs : List Bracket} (h : StartsAtZero pairs) {r a b : ℚ} (hr : 0 ≤ r)
    (hrates : ∀ p ∈ pairs, p.2 ≤ r) (hab : a ≤ b) : ∃ s t, taxBrackets a pairs = some s ∧
      taxBrackets b pairs = some t ∧ t - s ≤ r * (b - a) := by
  refine ⟨_, _, taxBrackets_of_startsAtZero h a, taxBrackets_of_startsAtZero h b, ?_⟩
  have hperm := sortPairs_perm pairs
  rw [← marginal_congr hperm (filter_sortPairs pairs)]
  have hrates' : ∀ p ∈ sortPairs pairs, p.2 ≤ r := fun p hp => hrates p (hperm.subset hp)
  have hsorted := sortPairs_sorted pairs
  cases hpairs : sortPairs pairs with
  | nil => exact (sub_self _).trans_le (mul_nonneg hr (sub_nonneg.2 hab))
  | cons p rest =>
    rw [hpairs] at hrates' hsorted
    refine (marginal_slope hab hsorted hrates').trans (mul_le_mul_of_nonneg_left ?_ hr)
    have hpart : max 0 (b - p.1) ≤ max 0 (a - p.1) + (b - a) :=
      max_le (add_nonneg (le_max_left _ _) (sub_nonneg.2 hab))
        (by linarith [le_max_right 0 (a - p.1)])
    linarith

theorem taxBrackets_slope_raise : ∃ s t,
    taxBrackets 900 [(0, 1 / 10), (1000, 3 / 10)] = some s ∧
      taxBrackets 1100 [(0, 1 / 10), (1000, 3 / 10)] = some t ∧ t - s ≤ 3 / 10 * (1100 - 900) := by
  have hstart : StartsAtZero [(0, 1 / 10), (1000, 3 / 10)] := rfl
  exact taxBrackets_slope hstart (by norm_num) (by norm_num) (by norm_num)

end HeadlessErp.Compute
