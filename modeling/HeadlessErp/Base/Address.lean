import Mathlib.Data.List.Basic
import Mathlib.Tactic.IntervalCases

/-!
# Addresses and their texts

IPv4 addresses in dotted decimal and IPv6 addresses as hosts of URLs write them: the pieces in small
hexadecimal letters, the first of the longest runs of zeros as `::`. What is said of a text here is what
can be seen from its first characters, and which characters it has.
-/

namespace HeadlessErp

/-! ## Pieces -/

/-- A small hexadecimal digit. -/
def isHexLower (c : Char) : Bool := ('0' ≤ c && c ≤ '9') || ('a' ≤ c && c ≤ 'f')

theorem isHexLower_digitChar {d : ℕ} (h : d < 16) : isHexLower d.digitChar = true := by
  interval_cases d <;> rfl

/-- A number of four hexadecimal digits. -/
theorem toDigits_four {n : ℕ} (h : 4096 ≤ n) (h' : n < 65536) :
    Nat.toDigits 16 n = [(n / 4096).digitChar, (n / 256 % 16).digitChar, (n / 16 % 16).digitChar,
      (n % 16).digitChar] := by
  rw [Nat.toDigits_of_base_le (by decide) (by omega), Nat.toDigits_of_base_le (by decide) (by omega),
    Nat.toDigits_of_base_le (by decide) (by omega), Nat.toDigits_of_lt_base (by omega)]
  simp only [Nat.div_div_eq_div_mul, List.cons_append, List.nil_append]

theorem isHexLower_of_mem_toDigits {n : ℕ} {c : Char} (h : c ∈ Nat.toDigits 16 n) :
    isHexLower c = true := by
  induction n using Nat.strong_induction_on with
  | h n ih =>
    by_cases hn : n < 16
    · rw [Nat.toDigits_of_lt_base hn, List.mem_singleton] at h
      exact h ▸ isHexLower_digitChar hn
    · rw [Nat.toDigits_of_base_le (by decide) (by omega), List.mem_append, List.mem_singleton] at h
      obtain h | rfl := h
      · exact ih (n / 16) (by omega) h
      · exact isHexLower_digitChar (by omega)

/-! ## The text of an IPv6 address -/

/-- The zeros at the front. -/
def zeroRun : List ℕ → ℕ
  | 0 :: ps => zeroRun ps + 1
  | _ => 0

/-- The length of the longest run of zeros. -/
def longestRun : List ℕ → ℕ
  | [] => 0
  | p :: ps => max (zeroRun (p :: ps)) (longestRun ps)

/-- The first index of a run of a length. -/
def runAt (length : ℕ) : ℕ → List ℕ → Option ℕ
  | _, [] => none
  | i, p :: ps => if zeroRun (p :: ps) = length then some i else runAt length (i + 1) ps

/-- Where an address is compressed: at the first of the longest runs of more than one zero. -/
def compressAt (ps : List ℕ) : Option ℕ :=
  if longestRun ps ≤ 1 then none else runAt (longestRun ps) 0 ps

/-- The pieces from an index on; `skip` is inside the run that is compressed. -/
def writePieces (compress : Option ℕ) : ℕ → Bool → List ℕ → List Char
  | _, _, [] => []
  | i, skip, p :: ps =>
    if skip && p == 0 then writePieces compress (i + 1) true ps
    else if compress = some i then
      (if i = 0 then [':', ':'] else [':']) ++ writePieces compress (i + 1) true ps
    else
      Nat.toDigits 16 p ++ (if ps.isEmpty then [] else [':']) ++ writePieces compress (i + 1) false ps

/-- The text of an IPv6 address. -/
def ipv6Text (ps : List ℕ) : List Char := writePieces (compressAt ps) 0 false ps

section

variable {p : ℕ} {ps : List ℕ} {c : Char}

theorem char_of_mem_writePieces {compress : Option ℕ} {i : ℕ} {skip : Bool}
    (h : c ∈ writePieces compress i skip ps) : c = ':' ∨ isHexLower c = true := by
  induction ps generalizing i skip with
  | nil => cases h
  | cons p ps ih =>
    rw [writePieces] at h
    split at h
    · exact ih h
    · split at h
      · obtain h | h := List.mem_append.1 h
        · split at h <;> simp at h <;> exact .inl h
        · exact ih h
      · obtain h | h := List.mem_append.1 h
        · obtain h | h := List.mem_append.1 h
          · exact .inr (isHexLower_of_mem_toDigits h)
          · split at h <;> simp at h
            exact .inl h
        · exact ih h

/-- The text has hexadecimal digits and colons. -/
theorem char_of_mem_ipv6Text (h : c ∈ ipv6Text ps) : c = ':' ∨ isHexLower c = true :=
  char_of_mem_writePieces h

theorem le_of_runAt {length i j : ℕ} (h : runAt length i ps = some j) : i ≤ j := by
  induction ps generalizing i with
  | nil => cases h
  | cons p ps ih =>
    rw [runAt] at h
    split at h
    · exact (Option.some.inj h).le
    · exact (Nat.le_succ i).trans (ih h)

/-- A first piece that is not zero is written first. -/
theorem ipv6Text_cons (hp : p ≠ 0) (hps : ps ≠ []) :
    ∃ rest, ipv6Text (p :: ps) = Nat.toDigits 16 p ++ ':' :: rest := by
  have hrun : zeroRun (p :: ps) = 0 := by
    cases p with
    | zero => exact absurd rfl hp
    | succ p => rfl
  have hcompress : compressAt (p :: ps) ≠ some 0 := by
    unfold compressAt
    split
    · exact Option.some_ne_none _ |>.symm
    · next hlong =>
      rw [runAt, if_neg (by omega)]
      intro h
      exact absurd (le_of_runAt h) (Nat.not_succ_le_zero 0)
  rw [ipv6Text, writePieces, Bool.false_and, if_neg Bool.false_ne_true, if_neg hcompress,
    List.isEmpty_eq_false_iff.2 hps, if_neg Bool.false_ne_true, List.append_assoc]
  exact ⟨_, rfl⟩

/-- A first piece that is zero is written, or compressed. -/
theorem ipv6Text_zero_cons (hps : ps ≠ []) :
    ∃ c rest, ipv6Text (0 :: ps) = c :: ':' :: rest ∧ (c = '0' ∨ c = ':') := by
  rw [ipv6Text, writePieces, Bool.false_and, if_neg Bool.false_ne_true]
  split
  · exact ⟨':', _, rfl, .inr rfl⟩
  · rw [List.isEmpty_eq_false_iff.2 hps, if_neg Bool.false_ne_true, Nat.toDigits_zero]
    exact ⟨'0', _, rfl, .inl rfl⟩

theorem colon_mem_ipv6Text (hps : ps ≠ []) : ':' ∈ ipv6Text (p :: ps) := by
  by_cases hp : p = 0
  · subst hp
    obtain ⟨c, rest, heq, -⟩ := ipv6Text_zero_cons hps
    rw [heq]
    exact List.mem_cons_of_mem _ List.mem_cons_self
  · obtain ⟨rest, heq⟩ := ipv6Text_cons hp hps
    rw [heq]
    exact List.mem_append_right _ List.mem_cons_self

end

end HeadlessErp
