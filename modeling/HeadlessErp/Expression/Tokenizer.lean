import HeadlessErp.Js.Value

/-!
# The expression tokenizer

`tokenize` of `packages/core/src/entity/expression/tokenizer.ts`: it splits an expression into
number, string, identifier, operator and bracket tokens and closes the list with an end token. A
string literal may use either quote, and a backslash takes the next character as it stands.
`quoteLiteral` writes a string as such a literal, and `tokenize_quoteLiteral` reads it back.
-/

namespace HeadlessErp

/-- The token classes. -/
inductive TokenType where
  | num
  | str
  | ident
  | op
  | paren
  | eof
  deriving DecidableEq, Repr

/-- A token. `pos` is the tokenizer's index when the token was pushed: error messages print it. -/
structure Token where
  type : TokenType
  value : String
  pos : Nat
  deriving DecidableEq, Repr

/-! ## Character classes -/

/-- The regular expression `\s`. -/
def isSpace (c : Char) : Bool :=
  let n := c.toNat
  (9 ≤ n && n ≤ 13) || n == 0x20 || n == 0xA0 || n == 0x1680 || (0x2000 ≤ n && n ≤ 0x200A) ||
    n == 0x2028 || n == 0x2029 || n == 0x202F || n == 0x205F || n == 0x3000 || n == 0xFEFF

/-- The regular expression `[0-9]`. -/
def isDigit (c : Char) : Bool := '0' ≤ c && c ≤ '9'

/-- A digit is no white space. -/
theorem isSpace_of_isDigit {c : Char} (h : isDigit c = true) : isSpace c = false := by
  simp only [isDigit, Bool.and_eq_true, decide_eq_true_eq, Char.le_def, UInt32.le_iff_toNat_le] at h
  have h0 : '0'.val.toNat = 48 := rfl
  have h9 : '9'.val.toNat = 57 := rfl
  have hc : c.toNat = c.val.toNat := rfl
  simp only [isSpace, hc, Bool.or_eq_false_iff, Bool.and_eq_false_iff, decide_eq_false_iff_not,
    beq_eq_false_iff_ne]
  omega

/-- The regular expression `[0-9.]`. -/
def isNumChar (c : Char) : Bool := isDigit c || c == '.'

/-- The regular expression `[a-zA-Z_$]`. -/
def isIdentStart (c : Char) : Bool :=
  ('a' ≤ c && c ≤ 'z') || ('A' ≤ c && c ≤ 'Z') || c == '_' || c == '$'

/-- The regular expression `[a-zA-Z0-9_$]`. -/
def isIdentChar (c : Char) : Bool := isIdentStart c || isDigit c

/-! ## Scanning -/

/-- The loop over a string literal's content: the content, what follows the closing quote, and
whether there was one. An unterminated literal ends with the input. -/
def scanString (quote : Char) : List Char → List Char × List Char × Bool
  | [] => ([], [], false)
  | [c] => if c = quote then ([], [], true) else ([c], [], false)
  | c :: d :: rest =>
    if c = quote then ([], d :: rest, true)
    else if c = '\\' then
      let (str, rest') := scanString quote rest
      (d :: str, rest')
    else
      let (str, rest') := scanString quote (d :: rest)
      (c :: str, rest')

/-- The number of UTF-16 code units of a run of characters. -/
def unitLength (cs : List Char) : Nat := (cs.flatMap charUnits).length

/-- The operator a run of input starts with, and the number of characters it takes. Strict equality
is read as loose equality. -/
def scanOp : List Char → Option (TokenType × String × Nat)
  | '=' :: '=' :: '=' :: _ => some (.op, "==", 3)
  | '!' :: '=' :: '=' :: _ => some (.op, "!=", 3)
  | '=' :: '=' :: _ => some (.op, "==", 2)
  | '!' :: '=' :: _ => some (.op, "!=", 2)
  | '<' :: '=' :: _ => some (.op, "<=", 2)
  | '>' :: '=' :: _ => some (.op, ">=", 2)
  | '&' :: '&' :: _ => some (.op, "&&", 2)
  | '|' :: '|' :: _ => some (.op, "||", 2)
  | c :: _ =>
    if c = '(' ∨ c = ')' ∨ c = '[' ∨ c = ']' then some (.paren, String.singleton c, 1)
    else if "+-*/%<>=!,.".toList.contains c then some (.op, String.singleton c, 1)
    else none
  | [] => none

/-- The main loop of `tokenize` over the input that is left, `i` characters in. The fuel bounds the
number of rounds. -/
def tokenizeLoop : Nat → Nat → List Char → List Token
  | 0, _, _ => []
  | _ + 1, _, [] => []
  | fuel + 1, i, c :: cs =>
    if isSpace c then tokenizeLoop fuel (i + 1) cs
    else if isNumChar c && (c != '.' || (cs.head?.map isDigit).getD false) then
      let num := (c :: cs).takeWhile isNumChar
      let i' := i + num.length
      ⟨.num, String.ofList num, i'⟩ :: tokenizeLoop fuel i' ((c :: cs).dropWhile isNumChar)
    else if c = '\'' ∨ c = '"' then
      let (str, rest, closed) := scanString c cs
      -- The index moves past a closing quote even where the input has ended without one.
      let i' := i + 1 + (unitLength cs - unitLength rest) + (if closed then 0 else 1)
      ⟨.str, String.ofList str, i'⟩ :: tokenizeLoop fuel i' rest
    else if isIdentStart c then
      let id := (c :: cs).takeWhile isIdentChar
      let i' := i + id.length
      ⟨.ident, String.ofList id, i'⟩ :: tokenizeLoop fuel i' ((c :: cs).dropWhile isIdentChar)
    else match scanOp (c :: cs) with
      | some (type, value, n) =>
        ⟨type, value, i⟩ :: tokenizeLoop fuel (i + n) ((c :: cs).drop n)
      | none => tokenizeLoop fuel (i + unitLength [c]) cs

/-- `tokenize`. Every round of the loop takes at least one character, so the length is fuel
enough. -/
def tokenize (input : String) : List Token :=
  tokenizeLoop input.toList.length 0 input.toList ++ [⟨.eof, "", jsLength input⟩]

/-! ## Quoted literals -/

/-- The content of a literal in single quotes that stands for a string. -/
def escapeChars : List Char → List Char
  | [] => []
  | c :: cs => if c = '\\' ∨ c = '\'' then '\\' :: c :: escapeChars cs else c :: escapeChars cs

/-- A string written as a literal in single quotes. -/
def quoteLiteral (s : String) : String :=
  String.ofList ('\'' :: escapeChars s.toList ++ ['\''])

/-- Scanning the escaped content of a string stops at the closing quote and returns the string. -/
theorem scanString_escapeChars (cs rest : List Char) :
    scanString '\'' (escapeChars cs ++ '\'' :: rest) = (cs, rest, true) := by
  induction cs with
  | nil => cases rest <;> simp [escapeChars, scanString]
  | cons c cs ih =>
    by_cases hc : c = '\\' ∨ c = '\''
    · rw [escapeChars, if_pos hc]
      simp [scanString, ih]
    · obtain ⟨d, tl, hd⟩ : ∃ d tl, escapeChars cs ++ '\'' :: rest = d :: tl :=
        List.exists_cons_of_ne_nil (by simp)
      rw [escapeChars, if_neg hc, List.cons_append, hd]
      rw [hd] at ih
      rw [not_or] at hc
      simp [scanString, hc.1, hc.2, ih]

/-- A quoted literal on its own is one string token. -/
theorem tokenize_quoteLiteral (s : String) :
    ∃ p n, tokenize (quoteLiteral s) = [⟨.str, s, p⟩, ⟨.eof, "", n⟩] := by
  have hs : (quoteLiteral s).toList = '\'' :: (escapeChars s.toList ++ ['\'']) := by
    simp [quoteLiteral]
  have hscan := scanString_escapeChars s.toList []
  have h1 : isSpace '\'' = false := by decide
  have h2 : isNumChar '\'' = false := by decide
  unfold tokenize
  rw [hs, List.length_cons, tokenizeLoop]
  simp only [h1, h2, hscan, Bool.false_and, Bool.false_eq_true, if_false, true_or, if_true]
  cases h : (escapeChars s.toList ++ ['\'']).length <;> simp [tokenizeLoop]

end HeadlessErp
