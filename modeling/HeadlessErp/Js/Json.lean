import HeadlessErp.Js.Record

/-!
# JSON texts

`JSON.parse` for the values of `HeadlessErp.Js.Value`. A text is a list of Unicode characters, so an
escape for half a surrogate pair has no value here. `JSON.parse` gives back what `JSON.stringify`
wrote for a value that has a JSON form (`IsJson`): no undefined member, numbers that their texts
read back to, and no key twice in one object (`Json.parse_toJson`).
-/

namespace HeadlessErp

namespace Json

/-! ## Characters -/

/-- White space between the tokens of a JSON text. -/
def isBlank (c : Char) : Bool := c == ' ' || c == '\t' || c == '\n' || c == '\r'

def skipBlank (cs : List Char) : List Char := cs.dropWhile isBlank

/-- The value of a hexadecimal digit. -/
def hexValue (c : Char) : Option Nat :=
  if c.isDigit then some (c.toNat - '0'.toNat)
  else if 'a' ≤ c ∧ c ≤ 'f' then some (c.toNat - 'a'.toNat + 10)
  else if 'A' ≤ c ∧ c ≤ 'F' then some (c.toNat - 'A'.toNat + 10)
  else none

/-- The code unit of four hexadecimal digits. -/
def readUnit : List Char → Option (Nat × List Char)
  | a :: b :: c :: d :: rest => do
    let a ← hexValue a
    let b ← hexValue b
    let c ← hexValue c
    let d ← hexValue d
    some (a * 4096 + b * 256 + c * 16 + d, rest)
  | _ => none

/-- The character of a `\u` escape: one code unit, or a high and a low surrogate. -/
def readUnicode (cs : List Char) : Option (Char × List Char) := do
  let (unit, rest) ← readUnit cs
  if 0xD800 ≤ unit ∧ unit < 0xDC00 then
    match rest with
    | '\\' :: 'u' :: rest => do
      let (low, rest) ← readUnit rest
      if 0xDC00 ≤ low ∧ low < 0xE000 then
        some (Char.ofNat (0x10000 + (unit - 0xD800) * 0x400 + (low - 0xDC00)), rest)
      else none
    | _ => none
  else if 0xDC00 ≤ unit ∧ unit < 0xE000 then none
  else some (Char.ofNat unit, rest)

/-- The character after a backslash. -/
def unescape : List Char → Option (Char × List Char)
  | [] => none
  | c :: rest =>
    if c = '"' ∨ c = '\\' ∨ c = '/' then some (c, rest)
    else if c = 'b' then some (Char.ofNat 8, rest)
    else if c = 'f' then some (Char.ofNat 12, rest)
    else if c = 'n' then some ('\n', rest)
    else if c = 'r' then some ('\r', rest)
    else if c = 't' then some ('\t', rest)
    else if c = 'u' then readUnicode rest
    else none

/-- The content of a string up to its closing quote, and what follows. -/
def readString : Nat → List Char → Option (List Char × List Char)
  | 0, _ => none
  | _ + 1, [] => none
  | n + 1, c :: cs =>
    if c = '"' then some ([], cs)
    else if c = '\\' then do
      let (ch, rest) ← unescape cs
      let (s, rest) ← readString n rest
      some (ch :: s, rest)
    else if c.toNat < 32 then none
    else do
      let (s, rest) ← readString n cs
      some (c :: s, rest)

/-! ## Numbers -/

def isNumberChar (c : Char) : Bool := c.isDigit || ['-', '+', '.', 'e', 'E'].contains c

/-- The rest of a number after its fraction. -/
def isExponent : List Char → Bool
  | [] => true
  | e :: cs =>
    let digits := if cs.head? = some '-' ∨ cs.head? = some '+' then cs.tail else cs
    (e == 'e' || e == 'E') && !digits.isEmpty && digits.all Char.isDigit

/-- The rest of a number after its integer part. -/
def isFraction : List Char → Bool
  | '.' :: cs => (cs.head?.map Char.isDigit).getD false && isExponent (cs.dropWhile Char.isDigit)
  | cs => isExponent cs

/-- The JSON form of a number. -/
def isNumber (cs : List Char) : Bool :=
  match if cs.head? = some '-' then cs.tail else cs with
  | [] => false
  | c :: cs => c.isDigit && isFraction (if c = '0' then cs else cs.dropWhile Char.isDigit)

/-! ## Values -/

variable {N : Type} [JsNumber N]

def readNumber (cs : List Char) : Option (JsVal N × List Char) :=
  let token := cs.takeWhile isNumberChar
  if isNumber token then
    some (.num (JsNumber.ofString (String.ofList token)), cs.dropWhile isNumberChar)
  else none

/-- A value that is neither a string nor an array nor an object. -/
def readScalar (cs : List Char) : Option (JsVal N × List Char) :=
  if "null".toList.isPrefixOf cs then some (.null, cs.drop 4)
  else if "true".toList.isPrefixOf cs then some (.bool true, cs.drop 4)
  else if "false".toList.isPrefixOf cs then some (.bool false, cs.drop 5)
  else readNumber cs

mutual
/-- A value, and what follows. -/
def readValue : Nat → List Char → Option (JsVal N × List Char)
  | 0, _ => none
  | n + 1, cs =>
    match skipBlank cs with
    | [] => none
    | c :: rest =>
      if c = '"' then do
        let (s, rest) ← readString (rest.length + 1) rest
        some (.str (String.ofList s), rest)
      else if c = '[' then
        let rest := skipBlank rest
        if rest.head? = some ']' then some (.arr [], rest.tail)
        else do
          let (xs, rest) ← readElems n rest
          some (.arr xs, rest)
      else if c = '\x7b' then
        let rest := skipBlank rest
        if rest.head? = some '\x7d' then some (.obj [], rest.tail)
        else do
          let (kvs, rest) ← readMembers n rest
          some (.obj (kvs.foldl (fun r kv => Record.set r kv.1 kv.2) []), rest)
      else readScalar (c :: rest)

/-- The elements of an array up to its closing bracket. -/
def readElems : Nat → List Char → Option (List (JsVal N) × List Char)
  | 0, _ => none
  | n + 1, cs => do
    let (x, rest) ← readValue n cs
    let rest := skipBlank rest
    if rest.head? = some ',' then do
      let (xs, rest) ← readElems n rest.tail
      some (x :: xs, rest)
    else if rest.head? = some ']' then some ([x], rest.tail)
    else none

/-- The members of an object up to its closing brace. -/
def readMembers : Nat → List Char → Option (List (String × JsVal N) × List Char)
  | 0, _ => none
  | n + 1, cs => do
    let rest := skipBlank cs
    if rest.head? = some '"' then do
      let (k, rest) ← readString rest.length rest.tail
      let rest := skipBlank rest
      if rest.head? = some ':' then do
        let (v, rest) ← readValue n rest.tail
        let rest := skipBlank rest
        if rest.head? = some ',' then do
          let (kvs, rest) ← readMembers n rest.tail
          some ((String.ofList k, v) :: kvs, rest)
        else if rest.head? = some '\x7d' then some ([(String.ofList k, v)], rest.tail)
        else none
      else none
    else none
end

/-- `JSON.parse(s)`, with `none` where it throws. -/
def parse (s : String) : Option (JsVal N) := do
  let (v, rest) ← readValue (s.toList.length + 1) s.toList
  if skipBlank rest = [] then some v else none

end Json

/-! ## Values with a JSON form -/

/-- A number that its JSON text reads back to. The sign of zero is not part of the text. -/
def ReadsBack {N : Type} [JsNumber N] (n : N) : Prop :=
  JsNumber.isFinite n = true ∧ Json.isNumber (JsNumber.toString n).toList = true ∧
    (JsNumber.toString n).toList.all Json.isNumberChar = true ∧
    JsNumber.ofString (JsNumber.toString n) = n

/-- A value with a JSON form. -/
inductive IsJson {N : Type} [JsNumber N] : JsVal N → Prop
  | null : IsJson .null
  | bool (b : Bool) : IsJson (.bool b)
  | num {n : N} : ReadsBack n → IsJson (.num n)
  | str (s : String) : IsJson (.str s)
  | arr {xs : List (JsVal N)} : (∀ x ∈ xs, IsJson x) → IsJson (.arr xs)
  | obj {kvs : List (String × JsVal N)} : (kvs.map Prod.fst).Nodup → (∀ kv ∈ kvs, IsJson kv.2) →
      IsJson (.obj kvs)

namespace Json

/-! ## Reading a string back -/

theorem hexValue_digitChar : ∀ d < 16, hexValue (Nat.digitChar d) = some d := by decide

theorem readUnit_hex4 {n : Nat} (h : n < 0x10000) (rest : List Char) :
    readUnit ((hex4 n).toList ++ rest) = some (n, rest) := by
  have h0 : n / 4096 % 16 < 16 := Nat.mod_lt _ (by decide)
  have h1 : n / 256 % 16 < 16 := Nat.mod_lt _ (by decide)
  have h2 : n / 16 % 16 < 16 := Nat.mod_lt _ (by decide)
  have h3 : n % 16 < 16 := Nat.mod_lt _ (by decide)
  rw [hex4, String.toList_ofList]
  simp only [List.map_cons, List.map_nil, List.cons_append, List.nil_append, readUnit,
    hexValue_digitChar _ h0, hexValue_digitChar _ h1, hexValue_digitChar _ h2,
    hexValue_digitChar _ h3, Option.bind_eq_bind, Option.bind_some, Option.some.injEq,
    Prod.mk.injEq, and_true]
  omega

theorem readString_escape {cs rest : List Char} {d : Char} (h : unescape cs = some (d, rest))
    (n : Nat) : readString (n + 1) ('\\' :: cs) =
      (readString n rest).map fun r => (d :: r.1, r.2) := by
  rw [readString, if_neg (by decide), if_pos rfl, h]
  simp only [Option.bind_eq_bind, Option.bind_some]
  cases readString n rest <;> rfl

theorem readString_plain {c : Char} (hquote : c ≠ '"') (hslash : c ≠ '\\') (hcontrol : ¬c.toNat < 32)
    (n : Nat) (rest : List Char) : readString (n + 1) (c :: rest) =
      (readString n rest).map fun r => (c :: r.1, r.2) := by
  rw [readString, if_neg hquote, if_neg hslash, if_neg hcontrol, Option.bind_eq_bind]
  cases readString n rest <;> rfl

theorem ofNat_toNat {c : Char} {n : Nat} (h : c.toNat = n) : Char.ofNat n = c := by
  rw [← h, Char.ofNat_toNat]

theorem unescape_unit {c : Char} (h : c.toNat < 32) (rest : List Char) :
    unescape ('u' :: ((hex4 c.toNat).toList ++ rest)) = some (c, rest) := by
  have hunicode : readUnicode ((hex4 c.toNat).toList ++ rest) = some (c, rest) := by
    rw [readUnicode, readUnit_hex4 (by omega), Option.bind_eq_bind, Option.bind_some]
    simp only
    rw [if_neg (by omega), if_neg (by omega), Char.ofNat_toNat]
  exact hunicode

/-- A character of a JSON string is read back as itself. -/
theorem readString_jsonChar (c : Char) (n : Nat) (rest : List Char) :
    readString (n + 1) ((jsonChar c).toList ++ rest) =
      (readString n rest).map fun r => (c :: r.1, r.2) := by
  unfold jsonChar
  by_cases hquote : c = '"'
  · rw [if_pos hquote, hquote]
    exact readString_escape rfl n
  rw [if_neg hquote]
  by_cases hslash : c = '\\'
  · rw [if_pos hslash, hslash]
    exact readString_escape rfl n
  rw [if_neg hslash]
  by_cases hnewline : c = '\n'
  · rw [if_pos hnewline, hnewline]
    exact readString_escape rfl n
  rw [if_neg hnewline]
  by_cases hreturn : c = '\r'
  · rw [if_pos hreturn, hreturn]
    exact readString_escape rfl n
  rw [if_neg hreturn]
  by_cases htab : c = '\t'
  · rw [if_pos htab, htab]
    exact readString_escape rfl n
  rw [if_neg htab]
  by_cases hback : c.toNat = 8
  · rw [if_pos hback, ← ofNat_toNat hback]
    exact readString_escape rfl n
  rw [if_neg hback]
  by_cases hfeed : c.toNat = 12
  · rw [if_pos hfeed, ← ofNat_toNat hfeed]
    exact readString_escape rfl n
  rw [if_neg hfeed]
  by_cases hcontrol : c.toNat < 32
  · rw [if_pos hcontrol, String.toList_append, List.append_assoc]
    exact readString_escape (unescape_unit hcontrol rest) n
  · rw [if_neg hcontrol, String.toList_singleton]
    exact readString_plain hquote hslash hcontrol n rest

/-- The content of a JSON string is read back up to its closing quote. -/
theorem readString_content (cs rest : List Char) {n : Nat} (h : cs.length < n) :
    readString n (cs.flatMap (fun c => (jsonChar c).toList) ++ '"' :: rest) = some (cs, rest) := by
  induction cs generalizing n with
  | nil =>
    cases n with
    | zero => cases h
    | succ n => rfl
  | cons c cs ih =>
    cases n with
    | zero => cases h
    | succ n =>
      rw [List.flatMap_cons, List.append_assoc, readString_jsonChar,
        ih (Nat.lt_of_succ_lt_succ h)]
      rfl

theorem length_le_content (cs : List Char) :
    cs.length ≤ (cs.flatMap fun c => (jsonChar c).toList).length := by
  induction cs with
  | nil => exact Nat.zero_le _
  | cons c cs ih =>
    have hpos : 0 < (jsonChar c).toList.length := by
      unfold jsonChar
      repeat' split
      all_goals simp
    rw [List.flatMap_cons, List.length_append, List.length_cons]
    omega

/-- The characters of a JSON string. -/
theorem toList_jsonString (s : String) : (jsonString s).toList =
    '"' :: (s.toList.flatMap (fun c => (jsonChar c).toList) ++ ['"']) := by
  simp [jsonString, String.toList_join, List.flatMap_map]

/-! ## Reading a value back -/

variable {N : Type} [JsNumber N]

/-- What follows does not go on with a number. -/
def EndsValue (rest : List Char) : Prop := ∀ c ∈ rest.head?, isNumberChar c = false

/-- The JSON text of a value, one character and then others, that reading gives the value back
from. -/
structure Written (v : JsVal N) (first : Char) (more : List Char) : Prop where
  text : (v.toJson.map String.toList) = some (first :: more)
  blank : isBlank first = false
  bracket : first ≠ ']'
  read : ∀ n rest, more.length < n → EndsValue rest →
    readValue n (first :: (more ++ rest)) = some (v, rest)

theorem skipBlank_cons {c : Char} (h : isBlank c = false) (cs : List Char) :
    skipBlank (c :: cs) = c :: cs := by
  rw [skipBlank, List.dropWhile_cons_of_neg (by simp [h])]

theorem readValue_string (s : String) {n : Nat} (hn : 0 < n) (rest : List Char) :
    (readValue n ((jsonString s).toList ++ rest) : Option (JsVal N × List Char)) =
      some (.str s, rest) := by
  cases n with
  | zero => cases hn
  | succ n =>
    rw [toList_jsonString, List.cons_append, List.append_assoc, readValue,
      skipBlank_cons (by decide)]
    have hlen : s.toList.length < (s.toList.flatMap (fun c => (jsonChar c).toList) ++
        (['"'] ++ rest)).length + 1 := by
      have := length_le_content s.toList
      rw [List.length_append]
      omega
    have hread := readString_content s.toList rest hlen
    rw [List.singleton_append] at hread ⊢
    simp only [if_pos, hread, Option.bind_eq_bind, Option.bind_some, String.ofList_toList]

theorem readValue_scalar {n : Nat} (hn : 0 < n) {c : Char} {cs : List Char}
    (hblank : isBlank c = false) (hquote : c ≠ '"') (hbracket : c ≠ '[') (hbrace : c ≠ '\x7b') :
    (readValue n (c :: cs) : Option (JsVal N × List Char)) = readScalar (c :: cs) := by
  cases n with
  | zero => cases hn
  | succ n =>
    rw [readValue, skipBlank_cons hblank]
    simp only [if_neg hquote, if_neg hbracket, if_neg hbrace]

theorem takeWhile_number {cs rest : List Char} (h : cs.all isNumberChar = true)
    (hrest : EndsValue rest) : (cs ++ rest).takeWhile isNumberChar = cs ∧
      (cs ++ rest).dropWhile isNumberChar = rest := by
  have hnone : rest.takeWhile isNumberChar = [] ∧ rest.dropWhile isNumberChar = rest := by
    cases rest with
    | nil => exact ⟨rfl, rfl⟩
    | cons c rest =>
      have hc := hrest c rfl
      simp [hc]
  have hall : ∀ c ∈ cs, isNumberChar c = true := List.all_eq_true.mp h
  rw [List.takeWhile_append_of_pos hall, List.dropWhile_append_of_pos hall, hnone.1, hnone.2,
    List.append_nil]
  exact ⟨rfl, rfl⟩

theorem exists_of_isNumber {cs : List Char} (h : isNumber cs = true) :
    ∃ c more, cs = c :: more ∧ (c = '-' ∨ c.isDigit = true) := by
  unfold isNumber at h
  cases cs with
  | nil => cases h
  | cons c more =>
    refine ⟨c, more, rfl, ?_⟩
    by_cases hc : c = '-'
    · exact .inl hc
    · rw [List.head?_cons, if_neg (by simpa using hc)] at h
      exact .inr (Bool.and_eq_true_iff.mp h).1

theorem ne_of_number {c d : Char} (h : c = '-' ∨ c.isDigit = true)
    (hd : d ≠ '-' ∧ d.isDigit = false) : c ≠ d := by
  rintro rfl
  obtain rfl | h := h
  · exact hd.1 rfl
  · exact absurd (h.symm.trans hd.2) (by decide)

theorem readNumber_toString {n : N} (h : ReadsBack n) {rest : List Char} (hrest : EndsValue rest) :
    readNumber ((JsNumber.toString n).toList ++ rest) = some (JsVal.num n, rest) := by
  obtain ⟨-, hnumber, hchars, hvalue⟩ := h
  obtain ⟨htake, hdrop⟩ := takeWhile_number hchars hrest
  rw [readNumber]
  simp only [htake, hdrop, hnumber, if_true, String.ofList_toList, hvalue]

theorem isPrefixOf_of_ne {c d : Char} (h : c ≠ d) (word cs : List Char) :
    (d :: word).isPrefixOf (c :: cs) = false := by
  simp [List.isPrefixOf, Ne.symm h]

theorem written_num {n : N} (h : ReadsBack n) : ∃ c more, Written (.num n) c more := by
  obtain ⟨c, more, htext, hc⟩ := exists_of_isNumber h.2.1
  have hblank : isBlank c = false := by
    have h1 := ne_of_number hc (d := ' ') (by decide)
    have h2 := ne_of_number hc (d := '\t') (by decide)
    have h3 := ne_of_number hc (d := '\n') (by decide)
    have h4 := ne_of_number hc (d := '\r') (by decide)
    simp [isBlank, h1, h2, h3, h4]
  refine ⟨c, more, ?_, hblank, ne_of_number hc (by decide), ?_⟩
  · rw [JsVal.toJson, if_pos h.1, Option.map_some, htext]
  · intro m rest hm hrest
    rw [readValue_scalar (Nat.zero_lt_of_lt hm) hblank (ne_of_number hc (by decide))
      (ne_of_number hc (by decide)) (ne_of_number hc (by decide))]
    have hnull : "null".toList.isPrefixOf (c :: (more ++ rest)) = false :=
      isPrefixOf_of_ne (ne_of_number hc (by decide)) _ _
    have htrue : "true".toList.isPrefixOf (c :: (more ++ rest)) = false :=
      isPrefixOf_of_ne (ne_of_number hc (by decide)) _ _
    have hfalse : "false".toList.isPrefixOf (c :: (more ++ rest)) = false :=
      isPrefixOf_of_ne (ne_of_number hc (by decide)) _ _
    rw [readScalar, if_neg (Bool.eq_false_iff.mp hnull), if_neg (Bool.eq_false_iff.mp htrue),
      if_neg (Bool.eq_false_iff.mp hfalse), ← List.cons_append, ← htext]
    exact readNumber_toString h hrest

theorem written_null : Written (.null : JsVal N) 'n' ['u', 'l', 'l'] :=
  ⟨rfl, by decide, by decide, fun n rest hn _ => by
    rw [readValue_scalar (Nat.zero_lt_of_lt hn) (by decide) (by decide) (by decide) (by decide)]
    rfl⟩

theorem written_true : Written (.bool true : JsVal N) 't' ['r', 'u', 'e'] :=
  ⟨rfl, by decide, by decide, fun n rest hn _ => by
    rw [readValue_scalar (Nat.zero_lt_of_lt hn) (by decide) (by decide) (by decide) (by decide)]
    rfl⟩

theorem written_false : Written (.bool false : JsVal N) 'f' ['a', 'l', 's', 'e'] :=
  ⟨rfl, by decide, by decide, fun n rest hn _ => by
    rw [readValue_scalar (Nat.zero_lt_of_lt hn) (by decide) (by decide) (by decide) (by decide)]
    rfl⟩

theorem written_str (s : String) : Written (.str s : JsVal N) '"'
    (s.toList.flatMap (fun c => (jsonChar c).toList) ++ ['"']) := by
  refine ⟨?_, by decide, by decide, fun n rest hn _ => ?_⟩
  · rw [JsVal.toJson, Option.map_some, toList_jsonString]
  · rw [← List.cons_append, ← toList_jsonString]
    exact readValue_string s (Nat.zero_lt_of_lt hn) rest

/-! ### Arrays -/

/-- The characters of a value's JSON text. -/
def chars (v : JsVal N) : List Char := ((v.toJson).getD "null").toList

theorem Written.chars_eq {v : JsVal N} {c : Char} {more : List Char} (h : Written v c more) :
    chars v = c :: more := by
  obtain ⟨s, hs, htext⟩ := Option.map_eq_some_iff.mp h.text
  rw [chars, hs]
  exact htext

theorem toJsonElems_eq (xs : List (JsVal N)) :
    toJsonElems xs = xs.map fun x => (x.toJson).getD "null" := by
  induction xs with
  | nil => rfl
  | cons x xs ih => rw [toJsonElems, ih, List.map_cons]

/-- Some text stands for the value. -/
def IsWritten (v : JsVal N) : Prop := ∃ c more, Written v c more

/-- The elements of an array, joined by commas, begin like their first element and are read back up
to the closing bracket. -/
theorem readElems_join {x : JsVal N} {xs : List (JsVal N)} (h : ∀ y ∈ x :: xs, IsWritten y) :
    ∃ c more, [','].intercalate ((x :: xs).map chars) = c :: more ∧ isBlank c = false ∧ c ≠ ']' ∧
      ∀ n rest, more.length + 1 < n →
        readElems n (c :: (more ++ ']' :: rest)) = some (x :: xs, rest) := by
  induction xs generalizing x with
  | nil =>
    obtain ⟨c, more, hx⟩ := h x List.mem_cons_self
    refine ⟨c, more, ?_, hx.blank, hx.bracket, fun n rest hn => ?_⟩
    · rw [List.map_singleton, List.intercalate_singleton, hx.chars_eq]
    · cases n with
      | zero => cases hn
      | succ n =>
        have hread := hx.read n (']' :: rest) (by omega)
          (fun d hd => by cases hd; decide)
        rw [readElems, hread]
        simp only [Option.bind_eq_bind, Option.bind_some, skipBlank_cons (c := ']') (by decide)]
        rfl
  | cons y ys ih =>
    obtain ⟨c, more, hx⟩ := h x List.mem_cons_self
    obtain ⟨d, more', hjoin, hblank, -, hread'⟩ :=
      @ih y fun z hz => h z (List.mem_cons_of_mem _ hz)
    refine ⟨c, more ++ ',' :: d :: more', ?_, hx.blank, hx.bracket, fun n rest hn => ?_⟩
    · rw [List.map_cons] at hjoin
      rw [List.map_cons, List.map_cons, List.intercalate_cons_cons, hjoin, hx.chars_eq]
      simp
    · cases n with
      | zero => cases hn
      | succ n =>
        simp only [List.length_append, List.length_cons] at hn
        have hread := hx.read n (',' :: d :: (more' ++ ']' :: rest)) (by omega)
          (fun e he => by cases he; decide)
        rw [List.append_assoc, List.cons_append, List.cons_append, readElems, hread]
        simp only [Option.bind_eq_bind, Option.bind_some, skipBlank_cons (c := ',') (by decide),
          List.head?_cons, if_true, List.tail_cons, hread' n rest (by omega)]

theorem written_arr {xs : List (JsVal N)} (h : ∀ x ∈ xs, IsWritten x) : IsWritten (.arr xs) := by
  cases xs with
  | nil =>
    refine ⟨'[', [']'], by simp [JsVal.toJson, toJsonElems], by decide, by decide, fun n rest hn _ => ?_⟩
    cases n with
    | zero => cases hn
    | succ n =>
      rw [readValue, skipBlank_cons (by decide)]
      rfl
  | cons x xs =>
    obtain ⟨c, more, hjoin, hblank, hbracket, hread⟩ := readElems_join h
    refine ⟨'[', c :: (more ++ [']']), ?_, by decide, by decide, fun n rest hn _ => ?_⟩
    · rw [JsVal.toJson, toJsonElems_eq, Option.map_some, String.toList_append, String.toList_append,
        String.toList_intercalate, List.map_map]
      have hcomp : String.toList ∘ (fun x : JsVal N => (x.toJson).getD "null") = chars := rfl
      have hcomma : ",".toList = [','] := rfl
      rw [hcomp, hcomma, hjoin]
      rfl
    · cases n with
      | zero => cases hn
      | succ n =>
        simp only [List.length_append, List.length_cons, List.length_nil] at hn
        rw [readValue, skipBlank_cons (by decide), List.cons_append, List.append_assoc,
          List.singleton_append]
        simp only [if_true, Char.reduceEq, if_false, skipBlank_cons hblank,
          List.head?_cons, Option.some.injEq, if_neg hbracket, hread n rest (by omega),
          Option.bind_eq_bind, Option.bind_some]

/-! ### Objects -/

/-- The characters of a member. -/
def memberChars (kv : String × JsVal N) : List Char := (jsonString kv.1).toList ++ ':' :: chars kv.2

theorem toJsonMembers_eq {kvs : List (String × JsVal N)} (h : ∀ kv ∈ kvs, IsWritten kv.2) :
    (toJsonMembers kvs).map String.toList = kvs.map memberChars := by
  induction kvs with
  | nil => rfl
  | cons kv kvs ih =>
    obtain ⟨k, v⟩ := kv
    obtain ⟨c, more, hv⟩ := h (k, v) List.mem_cons_self
    obtain ⟨s, hs, -⟩ := Option.map_eq_some_iff.mp hv.text
    rw [toJsonMembers, hs]
    simp only [List.map_cons]
    rw [ih fun kv hkv => h kv (List.mem_cons_of_mem _ hkv), memberChars, chars, hs]
    simp

/-- A key and its colon are read back. -/
theorem readMembers_member {kv : String × JsVal N} (h : IsWritten kv.2) {n : Nat} {rest : List Char}
    (hn : (memberChars kv).length < n + 1) (hrest : EndsValue rest) :
    readMembers (n + 1) (memberChars kv ++ rest) =
      if (skipBlank rest).head? = some ',' then
        (readMembers n (skipBlank rest).tail).map fun r => (kv :: r.1, r.2)
      else if (skipBlank rest).head? = some '\x7d' then some ([kv], (skipBlank rest).tail)
      else none := by
  obtain ⟨k, v⟩ := kv
  obtain ⟨c, more, hv⟩ := h
  have hchars : memberChars (k, v) ++ rest = '"' ::
      (k.toList.flatMap (fun c => (jsonChar c).toList) ++ '"' :: ':' :: c :: (more ++ rest)) := by
    rw [memberChars, hv.chars_eq, toList_jsonString]
    simp
  have hkey : k.toList.length < ('"' :: (k.toList.flatMap (fun c => (jsonChar c).toList) ++
      '"' :: ':' :: c :: (more ++ rest))).length := by
    have := length_le_content k.toList
    rw [List.length_cons, List.length_append]
    omega
  have hlen : more.length < n := by
    rw [memberChars, hv.chars_eq, List.length_append, List.length_cons, List.length_cons,
      toList_jsonString, List.length_cons] at hn
    omega
  rw [hchars, readMembers, skipBlank_cons (by decide)]
  simp only [List.head?_cons, if_true, List.tail_cons, readString_content _ _ hkey,
    Option.bind_eq_bind, Option.bind_some, skipBlank_cons (c := ':') (by decide),
    hv.read n rest hlen hrest, String.ofList_toList]
  split
  · cases (readMembers n (skipBlank rest).tail :
      Option (List (String × JsVal N) × List Char)) <;> rfl
  · rfl

/-- The members of an object, joined by commas, begin with a quote and are read back up to the
closing brace. -/
theorem readMembers_join {kv : String × JsVal N} {kvs : List (String × JsVal N)}
    (h : ∀ m ∈ kv :: kvs, IsWritten m.2) : ∀ n rest,
    ([','].intercalate ((kv :: kvs).map memberChars)).length < n →
      readMembers n ([','].intercalate ((kv :: kvs).map memberChars) ++ '\x7d' :: rest) =
        some (kv :: kvs, rest) := by
  induction kvs generalizing kv with
  | nil =>
    intro n rest hn
    rw [List.map_singleton, List.intercalate_singleton] at hn ⊢
    cases n with
    | zero => cases hn
    | succ n =>
      rw [readMembers_member (h kv List.mem_cons_self) hn (fun d hd => by cases hd; decide),
        skipBlank_cons (by decide), List.head?_cons, if_neg (by decide), if_pos rfl]
      rfl
  | cons kv' kvs ih =>
    intro n rest hn
    have ih := @ih kv' fun m hm => h m (List.mem_cons_of_mem _ hm)
    rw [List.map_cons, List.map_cons, List.intercalate_cons_cons, ← List.map_cons] at hn ⊢
    rw [List.append_assoc, List.append_assoc, List.singleton_append]
    simp only [List.length_append, List.length_singleton] at hn
    cases n with
    | zero => cases hn
    | succ n =>
      rw [readMembers_member (h kv List.mem_cons_self) (by omega)
          (fun d hd => by cases hd; decide),
        skipBlank_cons (by decide), List.head?_cons, if_pos rfl, List.tail_cons,
        ih n rest (by omega)]
      rfl

omit [JsNumber N] in
/-- Setting keys that are all new appends them. -/
theorem foldl_set_of_nodup {acc kvs : List (String × JsVal N)}
    (h : ((acc ++ kvs).map Prod.fst).Nodup) :
    kvs.foldl (fun r kv => Record.set r kv.1 kv.2) acc = acc ++ kvs := by
  have hset : ∀ (r : Record N) (k : String) (v : JsVal N), k ∉ r.map Prod.fst →
      Record.set r k v = r ++ [(k, v)] := by
    intro r k v hk
    induction r with
    | nil => rfl
    | cons kv r ih =>
      rw [List.map_cons, List.mem_cons, not_or] at hk
      obtain ⟨k', v'⟩ := kv
      have hne : (k' == k) = false := by simpa using Ne.symm hk.1
      simp only [Record.set, hne, ih hk.2]
      rfl
  induction kvs generalizing acc with
  | nil => rw [List.append_nil]; rfl
  | cons kv kvs ih =>
    have hnew : kv.1 ∉ acc.map Prod.fst := by
      rw [List.map_append, List.map_cons, List.nodup_append] at h
      exact fun hmem => h.2.2 _ hmem _ List.mem_cons_self rfl
    rw [List.foldl_cons, hset acc kv.1 kv.2 hnew, ih (by simpa using h)]
    simp

/-- The members of an object begin with a quote. -/
theorem memberChars_join (kv : String × JsVal N) (kvs : List (String × JsVal N)) :
    ∃ more, [','].intercalate ((kv :: kvs).map memberChars) = '"' :: more := by
  have hmember : ∃ more, memberChars kv = '"' :: more := by
    rw [memberChars, toList_jsonString]
    exact ⟨_, rfl⟩
  obtain ⟨more, hmore⟩ := hmember
  cases kvs with
  | nil => exact ⟨more, by rw [List.map_singleton, List.intercalate_singleton, hmore]⟩
  | cons kv' kvs =>
    rw [List.map_cons, List.map_cons, List.intercalate_cons_cons, hmore]
    exact ⟨_, rfl⟩

theorem written_obj {kvs : List (String × JsVal N)} (hkeys : (kvs.map Prod.fst).Nodup)
    (h : ∀ kv ∈ kvs, IsWritten kv.2) : IsWritten (.obj kvs) := by
  cases kvs with
  | nil =>
    refine ⟨'\x7b', ['\x7d'], by simp [JsVal.toJson, toJsonMembers], by decide, by decide,
      fun n rest hn _ => ?_⟩
    cases n with
    | zero => cases hn
    | succ n =>
      rw [readValue, skipBlank_cons (by decide)]
      rfl
  | cons kv kvs =>
    have hread := readMembers_join h
    obtain ⟨more, hjoin⟩ := memberChars_join kv kvs
    rw [hjoin] at hread
    refine ⟨'\x7b', '"' :: (more ++ ['\x7d']), ?_, by decide, by decide, fun n rest hn _ => ?_⟩
    · rw [JsVal.toJson, Option.map_some, String.toList_append, String.toList_append,
        String.toList_intercalate, toJsonMembers_eq h]
      have hcomma : ",".toList = [','] := rfl
      rw [hcomma, hjoin]
      rfl
    · cases n with
      | zero => cases hn
      | succ n =>
        simp only [List.length_append, List.length_cons, List.length_nil] at hn
        have hread := hread n rest (by rw [List.length_cons]; omega)
        rw [readValue, skipBlank_cons (by decide), List.cons_append, List.append_assoc,
          List.singleton_append]
        rw [List.cons_append] at hread
        simp only [if_true, Char.reduceEq, if_false, skipBlank_cons (c := '"') (by decide),
          List.head?_cons, Option.some.injEq, hread, Option.bind_eq_bind, Option.bind_some,
          @foldl_set_of_nodup N [] _ hkeys, List.nil_append]

/-! ### Every value -/

theorem isWritten_of_isJson {v : JsVal N} (h : IsJson v) : IsWritten v := by
  induction h with
  | null => exact ⟨_, _, written_null⟩
  | bool b =>
    cases b with
    | true => exact ⟨_, _, written_true⟩
    | false => exact ⟨_, _, written_false⟩
  | num h => exact written_num h
  | str s => exact ⟨_, _, written_str s⟩
  | arr _ ih => exact written_arr ih
  | obj hkeys _ ih => exact written_obj hkeys ih

/-- `JSON.parse(JSON.stringify(v))` is `v`. -/
theorem parse_toJson {v : JsVal N} (h : IsJson v) :
    ∃ s, v.toJson = some s ∧ parse s = some v := by
  obtain ⟨c, more, hv⟩ := isWritten_of_isJson h
  obtain ⟨s, hs, htext⟩ := Option.map_eq_some_iff.mp hv.text
  refine ⟨s, hs, ?_⟩
  have hlen : more.length < (c :: more).length + 1 := by
    rw [List.length_cons]
    omega
  have hread := hv.read ((c :: more).length + 1) [] hlen (fun d hd => by cases hd)
  rw [List.append_nil] at hread
  rw [parse, htext, hread]
  rfl

/-- The text of an object with a member has more than its braces. -/
theorem two_lt_length_obj {kvs : List (String × JsVal N)} (h : IsJson (.obj kvs)) (hne : kvs ≠ [])
    {s : String} (hs : (JsVal.obj kvs).toJson = some s) : 2 < s.toList.length := by
  obtain ⟨kv, kvs, rfl⟩ := List.exists_cons_of_ne_nil hne
  cases h with
  | obj hkeys hkvs =>
    have hmembers := toJsonMembers_eq fun kv hkv => isWritten_of_isJson (hkvs kv hkv)
    obtain ⟨more, hjoin⟩ := memberChars_join kv kvs
    have hcomma : ",".toList = [','] := rfl
    rw [JsVal.toJson] at hs
    obtain rfl := Option.some.inj hs
    rw [String.toList_append, String.toList_append, String.toList_intercalate, hmembers, hcomma,
      hjoin]
    simp

/-! ## A text is longer than the string it stands for -/

theorem length_readUnit {cs rest : List Char} {n : Nat} (h : readUnit cs = some (n, rest)) :
    rest.length < cs.length := by
  unfold readUnit at h
  split at h
  · simp only [Option.bind_eq_bind, Option.bind_eq_some_iff, Option.some.injEq,
      Prod.mk.injEq] at h
    obtain ⟨_, _, _, _, _, _, _, _, _, rfl⟩ := h
    simp only [List.length_cons]
    omega
  · cases h

theorem length_readUnicode {cs rest : List Char} {c : Char}
    (h : readUnicode cs = some (c, rest)) : rest.length < cs.length := by
  unfold readUnicode at h
  obtain ⟨⟨n, rest₁⟩, hunit, h⟩ := Option.bind_eq_some_iff.mp h
  have hlen := length_readUnit hunit
  simp only at h
  split at h
  · split at h
    · next rest₂ =>
      obtain ⟨⟨low, rest₃⟩, hlow, h⟩ := Option.bind_eq_some_iff.mp h
      have hlen' := length_readUnit hlow
      simp only at h
      split at h
      · simp only [Option.some.injEq, Prod.mk.injEq] at h
        obtain ⟨-, rfl⟩ := h
        simp only [List.length_cons] at hlen
        omega
      · cases h
    · cases h
  · split at h
    · cases h
    · simp only [Option.some.injEq, Prod.mk.injEq] at h
      obtain ⟨-, rfl⟩ := h
      exact hlen

theorem length_unescape {cs rest : List Char} {c : Char} (h : unescape cs = some (c, rest)) :
    rest.length < cs.length := by
  cases cs with
  | nil => cases h
  | cons d cs =>
    have hkept : ∀ {e : Char}, some (e, cs) = some (c, rest) → rest.length < (d :: cs).length := by
      intro e h
      cases h
      exact Nat.lt_succ_self _
    simp only [unescape] at h
    split at h
    · exact hkept h
    split at h
    · exact hkept h
    split at h
    · exact hkept h
    split at h
    · exact hkept h
    split at h
    · exact hkept h
    split at h
    · exact hkept h
    split at h
    · exact Nat.lt_succ_of_lt (length_readUnicode h)
    · cases h

theorem length_readString {n : Nat} {cs t rest : List Char}
    (h : readString n cs = some (t, rest)) : t.length + rest.length < cs.length := by
  induction n generalizing cs t with
  | zero => cases h
  | succ n ih =>
    cases cs with
    | nil => cases h
    | cons c cs =>
      unfold readString at h
      split at h
      · cases h
        simp
      split at h
      · obtain ⟨⟨d, rest₁⟩, hescape, h⟩ := Option.bind_eq_some_iff.mp h
        obtain ⟨⟨t₁, rest₂⟩, hread, h⟩ := Option.bind_eq_some_iff.mp h
        cases h
        have h1 := length_unescape hescape
        have h2 := ih hread
        simp only [List.length_cons]
        omega
      split at h
      · cases h
      · obtain ⟨⟨t₁, rest₂⟩, hread, h⟩ := Option.bind_eq_some_iff.mp h
        cases h
        have h2 := ih hread
        simp only [List.length_cons]
        omega

/-- A string is read from a longer text. -/
theorem length_readValue {n : Nat} {cs rest : List Char} {t : String}
    (h : readValue n cs = some ((.str t : JsVal N), rest)) : t.toList.length < cs.length := by
  have hblank : (skipBlank cs).length ≤ cs.length := (List.dropWhile_sublist _).length_le
  cases n with
  | zero => cases h
  | succ n =>
    rw [readValue] at h
    cases hcs : skipBlank cs with
    | nil => rw [hcs] at h; cases h
    | cons c rest₀ =>
      rw [hcs] at h hblank
      simp only [List.length_cons] at h hblank
      split at h
      · obtain ⟨⟨s, rest₁⟩, hstring, h⟩ := Option.bind_eq_some_iff.mp h
        have hlen := length_readString hstring
        obtain ⟨rfl, -⟩ : String.ofList s = t ∧ rest₁ = rest := by simpa using h
        rw [String.toList_ofList]
        omega
      split at h
      · split at h
        · cases h
        · obtain ⟨⟨xs, rest₁⟩, -, h⟩ := Option.bind_eq_some_iff.mp h
          cases h
      split at h
      · split at h
        · cases h
        · obtain ⟨⟨kvs, rest₁⟩, -, h⟩ := Option.bind_eq_some_iff.mp h
          cases h
      unfold readScalar readNumber at h
      split at h
      · cases h
      split at h
      · cases h
      split at h
      · cases h
      simp only at h
      split at h
      · cases h
      · cases h

/-- No string is its own JSON text. -/
theorem parse_ne_self (s : String) : (parse s : Option (JsVal N)) ≠ some (.str s) := by
  intro hparse
  obtain ⟨⟨v, rest⟩, hread, hparse⟩ := Option.bind_eq_some_iff.mp hparse
  simp only at hparse
  split at hparse
  · cases hparse
    exact Nat.lt_irrefl _ (length_readValue hread)
  · cases hparse

end Json

end HeadlessErp
