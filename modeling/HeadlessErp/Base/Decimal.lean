import Mathlib.Data.String.Basic
import Mathlib.Tactic.Ring

/-!
# Decimal numerals

Lists of digits in the order of text, against the numbers they write. Where a numeral is not longer than
another and writes a number greater than the leading digits of it, it comes after it (`lt_of_value_lt`);
so a greater number that is padded to a width it fits comes after it (`lt_padded`).
-/

namespace HeadlessErp.Decimal

/-- The number that digits write. -/
def value (ds : List Char) : Nat := Nat.ofDigitChars 10 ds 0

/-- The digits of a number, padded with zeros to a width. -/
def padded (width n : Nat) : List Char :=
  List.replicate (width - (Nat.toDigits 10 n).length) '0' ++ Nat.toDigits 10 n

theorem value_cons (d : Char) (ds : List Char) :
    value (d :: ds) = 10 ^ ds.length * (d.toNat - 48) + value ds := by
  rw [value, Nat.ofDigitChars_cons, Nat.ofDigitChars_eq_ofDigitChars_zero, Nat.mul_zero,
    Nat.zero_add]
  rfl

@[simp] theorem value_padded (width n : Nat) : value (padded width n) = n := by
  rw [value, padded, Nat.ofDigitChars_append, Nat.ofDigitChars_replicate_zero, Nat.mul_zero,
    Nat.ofDigitChars_ten_toDigits]

theorem isDigit_of_mem_padded {width n : Nat} {d : Char} (h : d ∈ padded width n) :
    d.isDigit = true := by
  obtain h | h := List.mem_append.1 h
  · rw [List.eq_of_mem_replicate h]
    rfl
  · exact Nat.isDigit_of_mem_toDigits (by decide) (by decide) h

theorem length_padded {width n : Nat} (hwidth : 0 < width) (h : n < 10 ^ width) :
    (padded width n).length = width := by
  have hle := (Nat.length_toDigits_le_iff (by decide) hwidth).2 h
  rw [padded, List.length_append, List.length_replicate]
  omega

/-- A digit is a character from 48 on, of less than ten. -/
theorem digit_toNat {d : Char} (h : d.isDigit = true) : 48 ≤ d.toNat ∧ d.toNat - 48 < 10 := by
  simp only [Char.isDigit, Bool.and_eq_true, decide_eq_true_eq] at h
  have hlow : 48 ≤ d.toNat := h.1
  have hhigh : d.toNat ≤ 57 := h.2
  omega

theorem value_lt {ds : List Char} (h : ∀ d ∈ ds, d.isDigit = true) : value ds < 10 ^ ds.length := by
  induction ds with
  | nil => exact Nat.one_pos
  | cons d ds ih =>
    have hrest := ih fun d hd => h d (List.mem_cons_of_mem _ hd)
    obtain ⟨-, hdigit⟩ := digit_toNat (h d List.mem_cons_self)
    calc value (d :: ds) = 10 ^ ds.length * (d.toNat - 48) + value ds := value_cons d ds
      _ < 10 ^ ds.length * (d.toNat - 48) + 10 ^ ds.length := Nat.add_lt_add_left hrest _
      _ = 10 ^ ds.length * (d.toNat - 48 + 1) := by ring
      _ ≤ 10 ^ ds.length * 10 := Nat.mul_le_mul_left _ hdigit
      _ = 10 ^ (d :: ds).length := by rw [List.length_cons, pow_succ]

/-- A numeral comes after a longer one whose leading digits write less. -/
theorem lt_of_value_lt {ds es : List Char} (hds : ∀ d ∈ ds, d.isDigit = true)
    (hes : ∀ d ∈ es, d.isDigit = true) (hlength : es.length ≤ ds.length)
    (h : value ds / 10 ^ (ds.length - es.length) < value es) : ds < es := by
  induction es generalizing ds with
  | nil => exact absurd h (Nat.not_lt_zero _)
  | cons e es ih =>
    cases ds with
    | nil => cases hlength
    | cons d ds =>
      have hle : es.length ≤ ds.length := Nat.le_of_succ_le_succ hlength
      obtain ⟨hdlow, -⟩ := digit_toNat (hds d List.mem_cons_self)
      obtain ⟨helow, -⟩ := digit_toNat (hes e List.mem_cons_self)
      have hes' : ∀ d ∈ es, d.isDigit = true := fun d hd => hes d (List.mem_cons_of_mem _ hd)
      have hds' : ∀ d ∈ ds, d.isDigit = true := fun d hd => hds d (List.mem_cons_of_mem _ hd)
      have hlead : 10 ^ ds.length = 10 ^ (ds.length - es.length) * 10 ^ es.length := by
        rw [← pow_add, Nat.sub_add_cancel hle]
      rw [List.length_cons, List.length_cons, Nat.add_sub_add_right, value_cons, value_cons, hlead,
        Nat.mul_assoc, Nat.mul_add_div (Nat.pow_pos (by decide))] at h
      have hrest := value_lt hes'
      refine List.cons_lt_cons_iff.2 ?_
      obtain hlt | heq | hgt := Nat.lt_trichotomy d.toNat e.toNat
      · exact .inl hlt
      · obtain rfl := Char.toNat_inj.1 heq
        exact .inr ⟨rfl, ih hds' hes' hle (Nat.lt_of_add_lt_add_left h)⟩
      · -- a greater first digit outweighs all the digits after it
        have hstep : 10 ^ es.length * (e.toNat - 48 + 1) ≤ 10 ^ es.length * (d.toNat - 48) :=
          Nat.mul_le_mul_left _ (by omega)
        rw [Nat.mul_add, Nat.mul_one] at hstep
        have hlead : 10 ^ es.length * (d.toNat - 48) < 10 ^ es.length * (e.toNat - 48) + value es :=
          Nat.lt_of_le_of_lt (Nat.le_add_right _ _) h
        omega

/-- A greater number, padded to a width it fits, comes after every numeral that is not shorter. -/
theorem lt_padded {ds : List Char} {width n : Nat} (hwidth : 0 < width)
    (hds : ∀ d ∈ ds, d.isDigit = true) (hlength : width ≤ ds.length) (hvalue : value ds < n)
    (hfits : n < 10 ^ width) : ds < padded width n := by
  have hpadded := length_padded hwidth hfits
  refine lt_of_value_lt hds (fun d hd => isDigit_of_mem_padded hd) (hpadded.le.trans hlength) ?_
  rw [value_padded]
  exact Nat.lt_of_le_of_lt (Nat.div_le_self _ _) hvalue

end HeadlessErp.Decimal
