import Mathlib.Data.List.Sort
import Mathlib.Order.Basic

/-!
# Row numbers

What a window function makes of a list of rows: the number of a row in the descending order of a key
(`rowNumber`). Where keys are not shared, the rows up to a number are the greatest ones
(`filter_rowNumber`).
-/

namespace HeadlessErp.Window

variable {α κ : Type} [LinearOrder κ] (key : α → κ)

/-- `ROW_NUMBER() OVER (ORDER BY key DESC)`. -/
def rowNumber (l : List α) (a : α) : ℕ := l.countP (fun b => decide (key a < key b)) + 1

/-- The first rows in descending order. -/
def greatest (limit : ℕ) (l : List α) : List α :=
  (l.mergeSort fun a b => decide (key b ≤ key a)).take limit

variable {key} {l l' : List α} {a : α} {limit : ℕ}

theorem rowNumber_perm (h : l.Perm l') (a : α) : rowNumber key l a = rowNumber key l' a := by
  rw [rowNumber, rowNumber, h.countP_eq]

/-- In descending order the rows up to a number come first. -/
theorem filter_rowNumber_of_sorted (h : l.Pairwise fun a b => key b < key a) (limit : ℕ) :
    l.filter (fun a => decide (rowNumber key l a ≤ limit)) = l.take limit := by
  induction h generalizing limit with
  | nil => rw [List.filter_nil, List.take_nil]
  | @cons a l hlt hl ih =>
    have hhead : rowNumber key (a :: l) a = 1 := by
      rw [rowNumber, List.countP_eq_zero.2, Nat.zero_add]
      intro b hb
      rw [decide_eq_true_eq, not_lt]
      rcases List.mem_cons.1 hb with rfl | hb
      · exact le_rfl
      · exact (hlt b hb).le
    have htail (b : α) (hb : b ∈ l) : rowNumber key (a :: l) b = rowNumber key l b + 1 := by
      rw [rowNumber, rowNumber, List.countP_cons, if_pos (decide_eq_true (hlt b hb))]
    cases limit with
    | zero =>
      rw [List.take_zero, List.filter_eq_nil_iff]
      intro b _
      rw [decide_eq_true_eq, rowNumber]
      omega
    | succ limit =>
      rw [List.take_succ_cons, ← ih limit, List.filter_cons, if_pos (decide_eq_true (by omega))]
      congr 1
      refine List.filter_congr fun b hb => ?_
      rw [htail b hb]
      exact decide_eq_decide.2 Nat.add_le_add_iff_right

theorem pairwise_mergeSort_of_nodup (h : (l.map key).Nodup) :
    (l.mergeSort fun a b => decide (key b ≤ key a)).Pairwise fun a b => key b < key a := by
  have hperm := List.mergeSort_perm l fun a b => decide (key b ≤ key a)
  have hle : (l.mergeSort fun a b => decide (key b ≤ key a)).Pairwise
      fun a b => decide (key b ≤ key a) = true :=
    List.pairwise_mergeSort
      (fun a b c hab hbc => decide_eq_true
        ((of_decide_eq_true hbc).trans (of_decide_eq_true hab)))
      (fun a b => by simpa using le_total (key b) (key a)) l
  have hne := List.pairwise_map.1 ((hperm.map key).nodup_iff.2 h)
  refine (hle.and hne).imp fun hab => ?_
  exact lt_of_le_of_ne (of_decide_eq_true hab.1) (Ne.symm hab.2)

/-- The rows up to a number are the greatest ones. -/
theorem filter_rowNumber (h : (l.map key).Nodup) (limit : ℕ) :
    (l.filter fun a => decide (rowNumber key l a ≤ limit)).Perm (greatest key limit l) := by
  have hperm := List.mergeSort_perm l fun a b => decide (key b ≤ key a)
  rw [greatest, ← filter_rowNumber_of_sorted (pairwise_mergeSort_of_nodup h)]
  simp only [rowNumber_perm hperm]
  exact hperm.symm.filter _

end HeadlessErp.Window
