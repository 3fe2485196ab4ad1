import HeadlessErp.Base.Binary64
import HeadlessErp.Base.Decimal
import HeadlessErp.Expression.Tokenizer
import HeadlessErp.Js.Json
import Mathlib.Data.List.TakeWhile

/-!
# Texts as numbers

`Number(text)` of the language: blanks around the numeral are dropped, no numeral is zero, and a
numeral is written in decimal digits, with a sign, a fraction and an exponent, or with the mark of
another base. Its exact value is rounded to a double. Decimal digits alone are the integer they
write, or an integer from 2^53 on, until they overflow (`integerOf_digits`, `integerOf_large`,
`integerOf_overflow`).
-/

namespace HeadlessErp

/-- `text.trim()`. -/
def trimmed (text : List Char) : List Char :=
  ((text.dropWhile isSpace).reverse.dropWhile isSpace).reverse

/-! ## Numerals -/

/-- `DecimalDigits`. -/
def readDigits (ds : List Char) : Option ℕ :=
  if ds ≠ [] ∧ ds.all isDigit = true then some (Decimal.value ds) else none

/-- `SignedInteger`. -/
def readSignedInteger : List Char → Option ℤ
  | '+' :: ds => (readDigits ds).map Int.ofNat
  | '-' :: ds => (readDigits ds).map fun n => -Int.ofNat n
  | ds => (readDigits ds).map Int.ofNat

/-- `ExponentPart`, which may be left out. -/
def readExponent : List Char → Option ℤ
  | [] => some 0
  | c :: ds => if c = 'e' ∨ c = 'E' then readSignedInteger ds else none

/-- The digits after a decimal point, and what follows them. -/
def readFraction : List Char → List Char × List Char
  | '.' :: ds => (ds.takeWhile isDigit, ds.dropWhile isDigit)
  | cs => ([], cs)

/-- `StrUnsignedDecimalLiteral`, without `Infinity`. -/
def readUnsigned (cs : List Char) : Option ℚ :=
  let whole := cs.takeWhile isDigit
  let (fraction, rest) := readFraction (cs.dropWhile isDigit)
  if whole ++ fraction = [] then none
  else (readExponent rest).map fun e : ℤ =>
    (Decimal.value (whole ++ fraction) : ℚ) * 10 ^ (e - fraction.length)

/-- The base that a mark stands for. -/
def radixOf (mark : Char) : Option ℕ :=
  if mark = 'x' ∨ mark = 'X' then some 16
  else if mark = 'o' ∨ mark = 'O' then some 8
  else if mark = 'b' ∨ mark = 'B' then some 2
  else none

/-- Digits of a base. -/
def readRadix (base : ℕ) (ds : List Char) : Option ℕ :=
  if ds = [] then none
  else ds.foldlM (fun n d => ((Json.hexValue d).filter (· < base)).map (base * n + ·)) 0

/-- `NonDecimalIntegerLiteral`. -/
def readNonDecimal : List Char → Option ℕ
  | '0' :: mark :: ds => (radixOf mark).bind fun base => readRadix base ds
  | _ => none

/-- `StrDecimalLiteral`, rounded. -/
def readDecimal : List Char → Option ℚ
  | '+' :: cs => (readUnsigned cs).bind Binary64.round
  | '-' :: cs => ((readUnsigned cs).bind Binary64.round).map fun q => -q
  | cs => (readUnsigned cs).bind Binary64.round

/-- `Number(text)`, where it is finite. -/
def numberOf (text : List Char) : Option ℚ :=
  let cs := trimmed text
  if cs = [] then some 0
  else ((readNonDecimal cs).bind fun n => Binary64.round n).or (readDecimal cs)

/-- `Number(text)`, where `Number.isInteger` is true of it. -/
def integerOf (text : List Char) : Option ℤ :=
  (numberOf text).bind fun q => if q.den = 1 then some q.num else none

/-! ## Decimal digits -/

section

variable {ds : List Char}

theorem dropWhile_isSpace_of_isDigit (h : ∀ c ∈ ds, isDigit c = true) :
    ds.dropWhile isSpace = ds := by
  cases ds with
  | nil => rfl
  | cons c ds =>
    exact List.dropWhile_cons_of_neg (by simp [isSpace_of_isDigit (h c List.mem_cons_self)])

theorem trimmed_digits (h : ∀ c ∈ ds, isDigit c = true) : trimmed ds = ds := by
  rw [trimmed, dropWhile_isSpace_of_isDigit h,
    dropWhile_isSpace_of_isDigit fun c hc => h c (List.mem_reverse.1 hc), List.reverse_reverse]

/-- No digit is the mark of a base. -/
theorem radixOf_digit {c : Char} (h : isDigit c = true) : radixOf c = none := by
  have hne (m : Char) (hm : isDigit m = false) : c ≠ m := by
    rintro rfl
    rw [h] at hm
    cases hm
  simp [radixOf, hne 'x' rfl, hne 'X' rfl, hne 'o' rfl, hne 'O' rfl, hne 'b' rfl, hne 'B' rfl]

theorem readNonDecimal_digits (h : ∀ c ∈ ds, isDigit c = true) : readNonDecimal ds = none := by
  unfold readNonDecimal
  split
  · next mark rest =>
    have hmark : mark ∈ '0' :: mark :: rest := List.mem_cons_of_mem _ List.mem_cons_self
    rw [radixOf_digit (h mark hmark), Option.bind_none]
  · rfl

theorem readUnsigned_digits (hne : ds ≠ []) (h : ∀ c ∈ ds, isDigit c = true) :
    readUnsigned ds = some (Decimal.value ds : ℚ) := by
  have hdrop : ds.dropWhile isDigit = [] := List.dropWhile_eq_nil_iff.2 h
  have htake : ds.takeWhile isDigit = ds := List.takeWhile_eq_self_iff.2 h
  simp [readUnsigned, hdrop, htake, readFraction, readExponent, hne]

theorem readDecimal_digits (hne : ds ≠ []) (h : ∀ c ∈ ds, isDigit c = true) :
    readDecimal ds = Binary64.round (Decimal.value ds : ℚ) := by
  unfold readDecimal
  split
  · next rest => cases h '+' List.mem_cons_self
  · next rest => cases h '-' List.mem_cons_self
  · rw [readUnsigned_digits hne h, Option.bind_some]

theorem numberOf_digits (hne : ds ≠ []) (h : ∀ c ∈ ds, isDigit c = true) :
    numberOf ds = Binary64.round (Decimal.value ds : ℚ) := by
  rw [numberOf]
  simp only [trimmed_digits h, if_neg hne, readNonDecimal_digits h, Option.bind_none,
    Option.none_or, readDecimal_digits hne h]

theorem integerOf_digits (hne : ds ≠ []) (h : ∀ c ∈ ds, isDigit c = true)
    (hsmall : Decimal.value ds < 2 ^ 53) : integerOf ds = some (Decimal.value ds : ℤ) := by
  rw [integerOf, numberOf_digits hne h, Binary64.round_natCast_of_lt hsmall]
  simp

/-- More digits are an integer as well. -/
theorem integerOf_large (hne : ds ≠ []) (h : ∀ c ∈ ds, isDigit c = true)
    (hlarge : 2 ^ 53 ≤ Decimal.value ds) (hfinite : Decimal.value ds < Binary64.overflow) :
    ∃ m : ℕ, 2 ^ 53 ≤ m ∧ integerOf ds = some (m : ℤ) := by
  obtain ⟨m, hm, hround⟩ := Binary64.round_natCast_of_le hlarge hfinite
  refine ⟨m, hm, ?_⟩
  rw [integerOf, numberOf_digits hne h, hround]
  simp

theorem integerOf_overflow (hne : ds ≠ []) (h : ∀ c ∈ ds, isDigit c = true)
    (hlarge : Binary64.overflow ≤ Decimal.value ds) : integerOf ds = none := by
  rw [integerOf, numberOf_digits hne h, Binary64.round_natCast_eq_none hlarge, Option.bind_none]

end

end HeadlessErp
