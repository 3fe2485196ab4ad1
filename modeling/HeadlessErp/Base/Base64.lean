import Mathlib.Data.List.Basic
import Mathlib.Data.List.DropRight

/-!
# Base64

The base64 text of a list of bytes, padded, and the bytes of such a text. What is encoded is decoded
(`Base64.decode_encode`), and the text is made of the alphabet and the padding
(`Base64.mem_encode`). A browser's `atob` decodes the text without its padding too
(`Base64.decodeForgiving_rdropWhile`).
-/

namespace HeadlessErp.Base64

/-- The digits, in the order of their values. -/
def alphabet : List Char :=
  "ABCDEFGHIJKLMNOPQRSTUVWXYZabcdefghijklmnopqrstuvwxyz0123456789+/".toList

/-- The digit of a value. -/
def digit (n : Nat) : Char := alphabet.getD n '='

/-- The value of a digit. -/
def value (c : Char) : Option Nat := if c ∈ alphabet then some (alphabet.idxOf c) else none

/-- The digits of the bytes, four for three bytes. -/
def encode : List UInt8 → List Char
  | [] => []
  | [a] => [digit (a.toNat / 4), digit (a.toNat % 4 * 16), '=', '=']
  | [a, b] =>
    [digit (a.toNat / 4), digit (a.toNat % 4 * 16 + b.toNat / 16), digit (b.toNat % 16 * 4), '=']
  | a :: b :: c :: rest =>
    digit (a.toNat / 4) :: digit (a.toNat % 4 * 16 + b.toNat / 16) ::
      digit (b.toNat % 16 * 4 + c.toNat / 64) :: digit (c.toNat % 64) :: encode rest

/-- The bytes of a padded text. -/
def decode : List Char → Option (List UInt8)
  | [] => some []
  | a :: b :: c :: d :: rest =>
    match value a, value b, value c, value d with
    | some w, some x, some y, some z =>
      (decode rest).map fun bytes => UInt8.ofNat (w * 4 + x / 16) ::
        UInt8.ofNat (x % 16 * 16 + y / 4) :: UInt8.ofNat (y % 4 * 64 + z) :: bytes
    | some w, some x, some y, none =>
      if d = '=' ∧ rest = [] then
        some [UInt8.ofNat (w * 4 + x / 16), UInt8.ofNat (x % 16 * 16 + y / 4)]
      else none
    | some w, some x, none, none =>
      if c = '=' ∧ d = '=' ∧ rest = [] then some [UInt8.ofNat (w * 4 + x / 16)] else none
    | _, _, _, _ => none
  | _ => none

theorem value_digit {n : Nat} (h : n < 64) : value (digit n) = some n := by
  revert n
  decide

theorem value_padding : value '=' = none := by decide

/-- A byte from the number it stands for. -/
theorem ofNat_eq {a : UInt8} {n : Nat} (h : n = a.toNat) : UInt8.ofNat n = a := by
  rw [h, UInt8.ofNat_toNat]

/-- What is encoded is decoded. -/
theorem decode_encode : ∀ bytes : List UInt8, decode (encode bytes) = some bytes
  | [] => rfl
  | [a] => by
    have ha := a.toNat_lt
    unfold encode decode
    rw [value_digit (by omega), value_digit (by omega), value_padding]
    simp only [and_self, if_true]
    rw [ofNat_eq (a := a) (by omega)]
  | [a, b] => by
    have ha := a.toNat_lt
    have hb := b.toNat_lt
    unfold encode decode
    rw [value_digit (by omega), value_digit (by omega), value_digit (by omega), value_padding]
    simp only [and_self, if_true]
    rw [ofNat_eq (a := a) (by omega), ofNat_eq (a := b) (by omega)]
  | a :: b :: c :: rest => by
    have ha := a.toNat_lt
    have hb := b.toNat_lt
    have hc := c.toNat_lt
    unfold encode decode
    rw [value_digit (by omega), value_digit (by omega), value_digit (by omega),
      value_digit (by omega), decode_encode rest]
    simp only [Option.map_some]
    rw [ofNat_eq (a := a) (by omega), ofNat_eq (a := b) (by omega), ofNat_eq (a := c) (by omega)]

theorem digit_mem {n : Nat} (h : n < 64) : digit n ∈ alphabet := by
  revert n
  decide

/-- A character of the text is a digit or the padding. -/
theorem mem_encode {x : Char} : ∀ {bytes : List UInt8}, x ∈ encode bytes → x ∈ '=' :: alphabet
  | [], h => nomatch h
  | [a], h => by
    have ha := a.toNat_lt
    unfold encode at h
    simp only [List.mem_cons, List.not_mem_nil, or_false] at h ⊢
    obtain rfl | rfl | rfl | rfl := h
    · exact .inr (digit_mem (by omega))
    · exact .inr (digit_mem (by omega))
    · exact .inl rfl
    · exact .inl rfl
  | [a, b], h => by
    have ha := a.toNat_lt
    have hb := b.toNat_lt
    unfold encode at h
    simp only [List.mem_cons, List.not_mem_nil, or_false] at h ⊢
    obtain rfl | rfl | rfl | rfl := h
    · exact .inr (digit_mem (by omega))
    · exact .inr (digit_mem (by omega))
    · exact .inr (digit_mem (by omega))
    · exact .inl rfl
  | a :: b :: c :: rest, h => by
    have ha := a.toNat_lt
    have hb := b.toNat_lt
    have hc := c.toNat_lt
    unfold encode at h
    simp only [List.mem_cons] at h
    obtain rfl | rfl | rfl | rfl | h := h
    · exact List.mem_cons_of_mem _ (digit_mem (by omega))
    · exact List.mem_cons_of_mem _ (digit_mem (by omega))
    · exact List.mem_cons_of_mem _ (digit_mem (by omega))
    · exact List.mem_cons_of_mem _ (digit_mem (by omega))
    · exact mem_encode h

/-- The text is no shorter than the bytes. -/
theorem length_le_encode : ∀ bytes : List UInt8, bytes.length ≤ (encode bytes).length
  | [] => Nat.le_refl 0
  | [_] => by simp [encode]
  | [_, _] => by simp [encode]
  | _ :: _ :: _ :: rest => by
    have h := length_le_encode rest
    unfold encode
    simp only [List.length_cons]
    omega

/-! ## Texts without padding -/

/-- The bytes of a text without padding. -/
def decodeUnpadded : List Char → Option (List UInt8)
  | [] => some []
  | [_] => none
  | [a, b] =>
    match value a, value b with
    | some w, some x => some [UInt8.ofNat (w * 4 + x / 16)]
    | _, _ => none
  | [a, b, c] =>
    match value a, value b, value c with
    | some w, some x, some y =>
      some [UInt8.ofNat (w * 4 + x / 16), UInt8.ofNat (x % 16 * 16 + y / 4)]
    | _, _, _ => none
  | a :: b :: c :: d :: rest =>
    match value a, value b, value c, value d with
    | some w, some x, some y, some z =>
      (decodeUnpadded rest).map fun bytes => UInt8.ofNat (w * 4 + x / 16) ::
        UInt8.ofNat (x % 16 * 16 + y / 4) :: UInt8.ofNat (y % 4 * 64 + z) :: bytes
    | _, _, _, _ => none

/-- The white space that `atob` takes out. -/
def isBlank (c : Char) : Bool := c == ' ' || c == '\t' || c == '\n' || c == '\r' || c.toNat == 12

/-- The text without one or two padding characters at its end. -/
def dropPadding (cs : List Char) : List Char :=
  if "==".toList.isSuffixOf cs then cs.dropLast.dropLast
  else if "=".toList.isSuffixOf cs then cs.dropLast else cs

/-- The bytes that `atob` reads: white space is taken out, and padding from a text whose length is a
multiple of four. -/
def decodeForgiving (cs : List Char) : Option (List UInt8) :=
  let cs := cs.filter (!isBlank ·)
  decodeUnpadded (if cs.length % 4 = 0 then dropPadding cs else cs)

/-- The text without its padding. -/
def unpadded : List UInt8 → List Char
  | [] => []
  | [a] => [digit (a.toNat / 4), digit (a.toNat % 4 * 16)]
  | [a, b] =>
    [digit (a.toNat / 4), digit (a.toNat % 4 * 16 + b.toNat / 16), digit (b.toNat % 16 * 4)]
  | a :: b :: c :: rest =>
    digit (a.toNat / 4) :: digit (a.toNat % 4 * 16 + b.toNat / 16) ::
      digit (b.toNat % 16 * 4 + c.toNat / 64) :: digit (c.toNat % 64) :: unpadded rest

/-- The padding stands behind the digits. -/
theorem encode_eq_append : ∀ bytes : List UInt8,
    ∃ pad : List Char, encode bytes = unpadded bytes ++ pad ∧ ∀ c ∈ pad, c = '='
  | [] => ⟨[], rfl, List.forall_mem_nil _⟩
  | [_] => ⟨['=', '='], rfl, by simp⟩
  | [_, _] => ⟨['='], rfl, by simp⟩
  | a :: b :: c :: rest => by
    obtain ⟨pad, hpad, hall⟩ := encode_eq_append rest
    exact ⟨pad, by simp [encode, unpadded, hpad], hall⟩

/-- The digits of the bytes. -/
theorem mem_unpadded {x : Char} : ∀ {bytes : List UInt8}, x ∈ unpadded bytes → x ∈ alphabet
  | [], h => nomatch h
  | [a], h => by
    have ha := a.toNat_lt
    simp only [unpadded, List.mem_cons, List.not_mem_nil, or_false] at h
    rcases h with rfl | rfl
    · exact digit_mem (by omega)
    · exact digit_mem (by omega)
  | [a, b], h => by
    have ha := a.toNat_lt
    have hb := b.toNat_lt
    simp only [unpadded, List.mem_cons, List.not_mem_nil, or_false] at h
    rcases h with rfl | rfl | rfl
    · exact digit_mem (by omega)
    · exact digit_mem (by omega)
    · exact digit_mem (by omega)
  | a :: b :: c :: rest, h => by
    have ha := a.toNat_lt
    have hb := b.toNat_lt
    have hc := c.toNat_lt
    simp only [unpadded, List.mem_cons] at h
    rcases h with rfl | rfl | rfl | rfl | h
    · exact digit_mem (by omega)
    · exact digit_mem (by omega)
    · exact digit_mem (by omega)
    · exact digit_mem (by omega)
    · exact mem_unpadded h

theorem alphabet_plain {c : Char} (h : c ∈ alphabet) : c ≠ '=' ∧ isBlank c = false := by
  have hall : (alphabet.all fun c => c != '=' && !isBlank c) = true := by decide
  simpa using List.all_eq_true.1 hall c h

/-- The digits are decoded. -/
theorem decodeUnpadded_unpadded : ∀ bytes : List UInt8,
    decodeUnpadded (unpadded bytes) = some bytes
  | [] => rfl
  | [a] => by
    have ha := a.toNat_lt
    simp only [unpadded, decodeUnpadded]
    rw [value_digit (by omega), value_digit (by omega)]
    simp only
    rw [ofNat_eq (a := a) (by omega)]
  | [a, b] => by
    have ha := a.toNat_lt
    have hb := b.toNat_lt
    simp only [unpadded, decodeUnpadded]
    rw [value_digit (by omega), value_digit (by omega), value_digit (by omega)]
    simp only
    rw [ofNat_eq (a := a) (by omega), ofNat_eq (a := b) (by omega)]
  | a :: b :: c :: rest => by
    have ha := a.toNat_lt
    have hb := b.toNat_lt
    have hc := c.toNat_lt
    simp only [unpadded, decodeUnpadded]
    rw [value_digit (by omega), value_digit (by omega), value_digit (by omega),
      value_digit (by omega), decodeUnpadded_unpadded rest]
    simp only [Option.map_some]
    rw [ofNat_eq (a := a) (by omega), ofNat_eq (a := b) (by omega), ofNat_eq (a := c) (by omega)]

/-- A text that does not end in the padding keeps its end. -/
theorem dropPadding_of_ne {cs : List Char} (h : ∀ c ∈ cs, c ≠ '=') : dropPadding cs = cs := by
  have hsuffix : ∀ p : List Char, '=' ∈ p → p.isSuffixOf cs = false := by
    intro p hp
    rw [← Bool.not_eq_true, List.isSuffixOf_iff_suffix]
    exact fun hsub => h '=' (hsub.subset hp) rfl
  rw [dropPadding, hsuffix _ (by decide), hsuffix _ (by decide)]
  rfl

/-- What is encoded is decoded without its padding. -/
theorem decodeForgiving_rdropWhile (bytes : List UInt8) :
    decodeForgiving ((encode bytes).rdropWhile (· == '=')) = some bytes := by
  obtain ⟨pad, hpad, hall⟩ := encode_eq_append bytes
  have hdigits : ∀ c ∈ unpadded bytes, c ≠ '=' ∧ isBlank c = false :=
    fun c hc => alphabet_plain (mem_unpadded hc)
  have hdrop : (encode bytes).rdropWhile (· == '=') = unpadded bytes := by
    rw [hpad, List.rdropWhile, List.reverse_append,
      List.dropWhile_append_of_pos (by simpa using hall)]
    rcases List.eq_nil_or_concat (unpadded bytes) with hnil | ⟨front, last, hlast⟩
    · rw [hnil]
      rfl
    · have hne : last ≠ '=' := (hdigits last (by simp [hlast])).1
      rw [hlast]
      simp [hne]
  rw [hdrop, decodeForgiving]
  have hfilter : (unpadded bytes).filter (!isBlank ·) = unpadded bytes :=
    List.filter_eq_self.2 fun c hc => by simp [(hdigits c hc).2]
  simp only [hfilter, dropPadding_of_ne fun c hc => (hdigits c hc).1, ite_self]
  exact decodeUnpadded_unpadded bytes

end HeadlessErp.Base64
