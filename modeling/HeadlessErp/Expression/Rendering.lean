import HeadlessErp.Expression.Literal

/-!
# Abstract expressions and their renderings

`Expression` is what an expression means, with `Expression.eval` for its value, and
`Expression.render` writes it with the parentheses that the precedence of its operators needs and no
others. The conditional operator is one of them, though the parser has none: its two symbols are
characters that the tokenizer skips.

`tokenize_render` reads the symbols of an expression without a conditional back from its rendering,
whatever blanks are put between them. Its invariant `Separated` says of every symbol that it ends where
the next one begins, and `Block` that it holds of a part of an expression in every place.
-/

namespace HeadlessErp

/-! ## Symbols -/

/-- A prefix operator. -/
inductive UnaryOp where
  | neg
  | not
  deriving DecidableEq, Repr

/-- An infix operator. -/
inductive BinaryOp where
  | or | and
  | eq | ne | lt | le | gt | ge
  | add | sub
  | mul | div | rem
  deriving DecidableEq, Repr

/-- The spelling of a prefix operator. -/
def UnaryOp.symbol : UnaryOp → String
  | neg => "-"
  | not => "!"

/-- The spelling of an infix operator. -/
def BinaryOp.symbol : BinaryOp → String
  | or => "||"
  | and => "&&"
  | eq => "=="
  | ne => "!="
  | lt => "<"
  | le => "<="
  | gt => ">"
  | ge => ">="
  | add => "+"
  | sub => "-"
  | mul => "*"
  | div => "/"
  | rem => "%"

/-- The precedence of an infix operator. -/
def BinaryOp.level : BinaryOp → Nat
  | or => 1
  | and => 2
  | eq | ne | lt | le | gt | ge => 3
  | add | sub => 4
  | mul | div | rem => 5

/-- The precedence that the left operand needs: comparisons do not associate. -/
def BinaryOp.leftLevel (op : BinaryOp) : Nat := if op.level = 3 then 4 else op.level

/-- What the tokenizer reads as an identifier. -/
structure Identifier where
  first : Char
  rest : List Char
  starts : isIdentStart first = true
  continues : rest.all isIdentChar = true

/-- The characters of an identifier. -/
def Identifier.chars (x : Identifier) : List Char := x.first :: x.rest

/-- The name that an identifier spells. -/
def Identifier.text (x : Identifier) : String := String.ofList x.chars

/-- An identifier that is no keyword. -/
structure FieldName extends Identifier where
  notKeyword : toIdentifier.text ∉ keywords

/-- A decimal numeral. -/
structure Numeral where
  first : Char
  whole : List Char
  fraction : Option (List Char)
  digit : isDigit first = true
  digits : (whole ++ fraction.getD []).all isDigit = true

/-- The characters of a numeral. -/
def Numeral.chars (n : Numeral) : List Char :=
  n.first :: n.whole ++ (n.fraction.map ('.' :: ·)).getD []

/-- The spelling of a numeral. -/
def Numeral.text (n : Numeral) : String := String.ofList n.chars

/-- A string that does not spell an operator or a bracket that the parser looks for where an operand
may begin. -/
structure PlainText where
  text : String
  plain : text ∉ operandSpellings

/-- The symbols that expressions are written with. -/
inductive Lexeme where
  | num (n : Numeral)
  | str (s : PlainText)
  | ident (x : Identifier)
  | unary (op : UnaryOp)
  | binary (op : BinaryOp)
  | dot | comma | question | colon
  | openParen | closeParen | openBracket | closeBracket

/-- The type and the text of the token that a symbol is read as. -/
def Lexeme.spelling : Lexeme → TokenType × String
  | num n => (.num, n.text)
  | str s => (.str, s.text)
  | ident x => (.ident, x.text)
  | unary op => (.op, op.symbol)
  | binary op => (.op, op.symbol)
  | dot => (.op, ".")
  | comma => (.op, ",")
  | question => (.op, "?")
  | colon => (.op, ":")
  | openParen => (.paren, "(")
  | closeParen => (.paren, ")")
  | openBracket => (.paren, "[")
  | closeBracket => (.paren, "]")

/-- The characters of a symbol. Strings are written in single quotes. -/
def Lexeme.chars : Lexeme → List Char
  | num n => n.chars
  | str s => '\'' :: escapeChars s.text.toList ++ ['\'']
  | ident x => x.chars
  | t => t.spelling.2.toList

/-! ## Expressions -/

/-- An abstract expression. A member is taken of a name, and what is called is a name or a member. -/
inductive Expression where
  | number (n : Numeral)
  | text (s : PlainText)
  | bool (b : Bool)
  | null
  | field (x : FieldName)
  | member (base name : Identifier)
  | call (f : Identifier) (args : List Expression)
  | method (base name : Identifier) (args : List Expression)
  | array (items : List Expression)
  | unary (op : UnaryOp) (e : Expression)
  | binary (op : BinaryOp) (a b : Expression)
  | conditional (c a b : Expression)

namespace Expression

/-- The induction over an expression and the expressions in its lists. -/
@[elab_as_elim]
theorem induct {motive : Expression → Prop} (number : ∀ n, motive (number n))
    (text : ∀ s, motive (text s)) (bool : ∀ b, motive (bool b)) (null : motive null)
    (field : ∀ x, motive (field x)) (member : ∀ base name, motive (member base name))
    (call : ∀ f args, (∀ e ∈ args, motive e) → motive (call f args))
    (method : ∀ base name args, (∀ e ∈ args, motive e) → motive (method base name args))
    (array : ∀ items, (∀ e ∈ items, motive e) → motive (array items))
    (unary : ∀ op e, motive e → motive (unary op e))
    (binary : ∀ op a b, motive a → motive b → motive (binary op a b))
    (conditional : ∀ c a b, motive c → motive a → motive b → motive (conditional c a b))
    (e : Expression) : motive e := by
  refine Expression.rec (motive_1 := motive) (motive_2 := fun es => ∀ e ∈ es, motive e) number text
    bool null field member call method array unary binary conditional ?_ ?_ e
  · intro e he
    cases he
  · intro e es he hes e' he'
    rcases List.mem_cons.1 he' with rfl | hmem
    · exact he
    · exact hes e' hmem

/-- The precedence of an expression's outermost operator. -/
def level : Expression → Nat
  | conditional _ _ _ => 0
  | binary op _ _ => op.level
  | unary _ _ => 6
  | _ => 7

mutual

/-- No conditional operator is used. -/
def unconditional : Expression → Bool
  | call _ args | method _ _ args => allUnconditional args
  | array items => allUnconditional items
  | unary _ e => e.unconditional
  | binary _ a b => a.unconditional && b.unconditional
  | conditional _ _ _ => false
  | _ => true

/-- No conditional operator is used in the expressions of a list. -/
def allUnconditional : List Expression → Bool
  | [] => true
  | e :: es => e.unconditional && allUnconditional es

end

/-- The expressions of a list, one by one. -/
theorem unconditional_of_mem {es : List Expression} (h : allUnconditional es = true) {e : Expression}
    (he : e ∈ es) : e.unconditional = true := by
  induction es with
  | nil => cases he
  | cons e' es ih =>
    rw [allUnconditional, Bool.and_eq_true] at h
    rcases List.mem_cons.1 he with rfl | hmem
    · exact h.1
    · exact ih h.2 hmem

end Expression

/-! ## Rendering -/

/-- Parentheses, where they are needed. -/
def parens (needed : Bool) (ls : List Lexeme) : List Lexeme :=
  if needed then .openParen :: ls ++ [.closeParen] else ls

namespace Expression

/-- A word of the language. -/
def keyword (first : Char) (rest : List Char) (h : isIdentStart first = true ∧ rest.all isIdentChar) :
    Lexeme :=
  .ident ⟨first, rest, h.1, h.2⟩

mutual

/-- The symbols of an expression, with the fewest parentheses. -/
def lexemes : Expression → List Lexeme
  | number n => [.num n]
  | text s => [.str s]
  | bool true => [keyword 't' ['r', 'u', 'e'] (by decide)]
  | bool false => [keyword 'f' ['a', 'l', 's', 'e'] (by decide)]
  | null => [keyword 'n' ['u', 'l', 'l'] (by decide)]
  | field x => [.ident x.toIdentifier]
  | member base name => [.ident base, .dot, .ident name]
  | call f args => .ident f :: .openParen :: (commaLexemes args).tail ++ [.closeParen]
  | method base name args =>
    .ident base :: .dot :: .ident name :: .openParen :: (commaLexemes args).tail ++ [.closeParen]
  | array items => .openBracket :: (commaLexemes items).tail ++ [.closeBracket]
  | unary op e => .unary op :: parens (e.level < 6) e.lexemes
  | binary op a b => parens (a.level < op.leftLevel) a.lexemes ++
      .binary op :: parens (b.level < op.level + 1) b.lexemes
  | conditional c a b =>
    parens (c.level < 1) c.lexemes ++ .question :: (a.lexemes ++ .colon :: b.lexemes)

/-- The symbols of the expressions of a list, each with a comma before it. -/
def commaLexemes : List Expression → List Lexeme
  | [] => []
  | e :: es => .comma :: e.lexemes ++ commaLexemes es

end

mutual

/-- How deep the parser nests for an expression: a level for every operand and prefix operator, and
another one for every pair of brackets. -/
def depth : Expression → Nat
  | call _ args | method _ _ args => 2 + depthOfList args
  | array items => 2 + depthOfList items
  | unary _ e => 1 + (if e.level < 6 then e.depth + 2 else e.depth)
  | binary op a b => max (if a.level < op.leftLevel then a.depth + 2 else a.depth)
      (if b.level < op.level + 1 then b.depth + 2 else b.depth)
  | conditional c a b =>
    max (if c.level < 1 then c.depth + 2 else c.depth) (max a.depth b.depth)
  | _ => 1

/-- How deep the parser nests for the expressions of a list. -/
def depthOfList : List Expression → Nat
  | [] => 0
  | e :: es => max e.depth (depthOfList es)

end

end Expression

/-- White space. -/
structure Blank where
  chars : List Char
  spaces : chars.all isSpace = true

/-- Symbols with blanks before, between and after them. -/
def layOut (blanks : Nat → Blank) : List Lexeme → List Char
  | [] => (blanks 0).chars
  | t :: ts => (blanks 0).chars ++ (t.chars ++ layOut (fun i => blanks (i + 1)) ts)

/-- An expression as text. -/
def Expression.render (blanks : Nat → Blank) (e : Expression) : String :=
  String.ofList (layOut blanks e.lexemes)

/-- The rendering of an expression is within the caps on depth, tokens and length. The end token
counts. -/
structure Expression.WithinCaps (blanks : Nat → Blank) (e : Expression) : Prop where
  depth : e.depth ≤ maxDepth
  tokens : e.lexemes.length + 1 ≤ maxExpressionTokens
  length : jsLength (e.render blanks) ≤ maxExpressionLength

/-! ## Evaluation -/

section
variable {N : Type} [JsNumber N]

/-- What a prefix operator computes. -/
def UnaryOp.apply : UnaryOp → JsVal N → JsVal N
  | neg, v => .num (JsNumber.neg (toNumber v))
  | not, v => .bool (!v.truthy)

/-- What an infix operator computes. -/
def BinaryOp.apply : BinaryOp → JsVal N → JsVal N → JsVal N
  | or, l, r => .bool (l.truthy || r.truthy)
  | and, l, r => .bool (l.truthy && r.truthy)
  | eq, l, r => .bool (eqVals l r)
  | ne, l, r => .bool (!eqVals l r)
  | lt, l, r => .bool (compareVals l r == .lt)
  | le, l, r => .bool (compareVals l r != .gt)
  | gt, l, r => .bool (compareVals l r == .gt)
  | ge, l, r => .bool (compareVals l r != .lt)
  | add, l, r => .num (JsNumber.add (toNumber l) (toNumber r))
  | sub, l, r => .num (JsNumber.sub (toNumber l) (toNumber r))
  | mul, l, r => .num (JsNumber.mul (toNumber l) (toNumber r))
  | div, l, r => .num (JsNumber.div (toNumber l) (toNumber r))
  | rem, l, r => .num (JsNumber.rem (toNumber l) (toNumber r))

variable (env : EvalEnv N)

/-- The value of a call: the function is looked up and gets the values of the arguments. -/
def callValue (name : String) (args : List (JsVal N)) : Except ExprError (JsVal N) :=
  (callFunction env name args ⟨0, 0⟩).1

mutual

/-- The value of an expression. Operands and arguments are evaluated from left to right, those of
`&&` and `||` too; of a conditional, the branch that its condition selects. -/
def Expression.eval : Expression → Except ExprError (JsVal N)
  | .number n => .ok (.num (JsNumber.parseFloat n.text))
  | .text s => .ok (.str s.text)
  | .bool b => .ok (.bool b)
  | .null => .ok .null
  | .field x => .ok (resolveIdentifier env x.text)
  | .member base name => .ok (resolveMember env base.text name.text)
  | .call f args => do
    let values ← evalList args
    callValue env f.text values
  | .method base name args => do
    let values ← evalList args
    callValue env (base.text ++ "." ++ name.text) values
  | .array items => do
    let values ← evalList items
    .ok (.arr values)
  | .unary op e => do
    let v ← e.eval
    .ok (op.apply v)
  | .binary op a b => do
    let l ← a.eval
    let r ← b.eval
    .ok (op.apply l r)
  | .conditional c a b => do
    let v ← c.eval
    if v.truthy then a.eval else b.eval

/-- The values of the expressions of a list. -/
def evalList : List Expression → Except ExprError (List (JsVal N))
  | [] => .ok []
  | e :: es => do
    let v ← e.eval
    let vs ← evalList es
    .ok (v :: vs)

end

end

/-! ## Where a symbol ends -/

/-- The symbol ends before the character, or the end of the input. The symbols of the conditional
operator are not read at all. -/
def Lexeme.endsBefore : Lexeme → Option Char → Bool
  | question, _ | colon, _ => false
  | num _, some c => !isNumChar c
  | ident _, some c => !isIdentChar c
  | dot, some c => !isDigit c
  | unary .not, some c | binary .eq, some c | binary .ne, some c | binary .lt, some c
  | binary .gt, some c => c != '='
  | _, _ => true

/-- Every symbol ends where the next one begins. -/
def Separated : List Lexeme → Prop
  | [] => True
  | t :: ts => t.endsBefore (ts.head?.bind (·.chars.head?)) = true ∧ Separated ts

/-- The predicate holds of a list up to where it stops. -/
theorem takeWhile_append_stop {α : Type} {p : α → Bool} {xs ys : List α} (hxs : xs.all p = true)
    (hys : ∀ y ∈ ys.head?, p y = false) :
    (xs ++ ys).takeWhile p = xs ∧ (xs ++ ys).dropWhile p = ys := by
  have hall := List.all_eq_true.1 hxs
  rw [List.takeWhile_append_of_pos hall, List.dropWhile_append_of_pos hall]
  cases ys with
  | nil => simp
  | cons y ys => simp [hys y rfl]

/-- What begins an identifier begins nothing else. -/
theorem identStart_only {c : Char} (h : isIdentStart c = true) :
    isSpace c = false ∧ isNumChar c = false ∧ c ≠ '\'' ∧ c ≠ '"' ∧ c ≠ '=' := by
  have ha : 'a'.val.toNat = 97 := rfl
  have hz : 'z'.val.toNat = 122 := rfl
  have hA : 'A'.val.toNat = 65 := rfl
  have hZ : 'Z'.val.toNat = 90 := rfl
  have h0 : '0'.val.toNat = 48 := rfl
  have h9 : '9'.val.toNat = 57 := rfl
  have hc : c.toNat = c.val.toNat := rfl
  simp only [isIdentStart, Bool.or_eq_true, Bool.and_eq_true, decide_eq_true_eq, beq_iff_eq,
    Char.le_def, UInt32.le_iff_toNat_le] at h
  have hval (d : Char) (hd : c = d) : c.val.toNat = d.val.toNat := by rw [hd]
  have hne (d : Char) (hd : c.val.toNat ≠ d.val.toNat) : c ≠ d := fun he => hd (hval d he)
  rcases h with (h | rfl) | rfl
  · refine ⟨?_, ?_, hne _ ?_, hne _ ?_, hne _ ?_⟩
    · simp only [isSpace, hc, Bool.or_eq_false_iff, Bool.and_eq_false_iff, decide_eq_false_iff_not,
        beq_eq_false_iff_ne]
      omega
    · have hdot := hne '.' (by simp; omega)
      simp only [isNumChar, isDigit, Bool.or_eq_false_iff, Bool.and_eq_false_iff,
        decide_eq_false_iff_not, Char.le_def, UInt32.le_iff_toNat_le, beq_eq_false_iff_ne]
      exact ⟨by omega, hdot⟩
    all_goals simp; omega
  · decide
  · decide

/-! ## Tokenizing -/

/-- Blanks are skipped. -/
theorem tokenizeLoop_blank {blank : List Char} (h : blank.all isSpace = true) (fuel i : Nat)
    (rest : List Char) :
    tokenizeLoop (fuel + blank.length) i (blank ++ rest) = tokenizeLoop fuel (i + blank.length) rest := by
  induction blank generalizing i with
  | nil => rfl
  | cons c blank ih =>
    rw [List.all_cons, Bool.and_eq_true] at h
    rw [List.length_cons, List.cons_append, ← Nat.add_assoc, tokenizeLoop, if_pos h.1, ih h.2]
    congr 1
    omega

/-- The symbol is read as its token, and what follows it is left. -/
def Lexeme.ReadBefore (t : Lexeme) (rest : List Char) : Prop :=
  ∀ fuel i, ∃ p j, tokenizeLoop (fuel + 1) i (t.chars ++ rest) =
    ⟨t.spelling.1, t.spelling.2, p⟩ :: tokenizeLoop fuel j rest

/-- A numeral is read up to where it stops. -/
theorem readBefore_num (n : Numeral) {rest : List Char}
    (h : (Lexeme.num n).endsBefore rest.head? = true) : (Lexeme.num n).ReadBefore rest := by
  intro fuel i
  have hall : n.chars.all isNumChar = true := by
    have hdigits := n.digits
    have hnum {cs : List Char} (hcs : cs.all isDigit = true) : cs.all isNumChar = true :=
      List.all_eq_true.2 fun c hc => by
        unfold isNumChar
        rw [List.all_eq_true.1 hcs c hc]
        rfl
    rw [List.all_append, Bool.and_eq_true] at hdigits
    unfold Numeral.chars
    rw [List.cons_append, List.all_cons, List.all_append, hnum hdigits.1]
    have hfirst : isNumChar n.first = true := by
      unfold isNumChar
      rw [n.digit]
      rfl
    rw [hfirst]
    cases hf : n.fraction with
    | none => rfl
    | some f =>
      have hfraction : f.all isDigit = true := by simpa [hf] using hdigits.2
      show (isNumChar '.' && f.all isNumChar) = true
      rw [hnum hfraction]
      rfl
  have hstop : ∀ c ∈ rest.head?, isNumChar c = false := by
    intro c hc
    rw [Option.mem_def.1 hc] at h
    simpa [Lexeme.endsBefore] using h
  obtain ⟨htake, hdrop⟩ := takeWhile_append_stop hall hstop
  have hspace : isSpace n.first = false := isSpace_of_isDigit n.digit
  have hstart : (isNumChar n.first && (n.first != '.' || (((n.chars ++ rest).tail.head?).map
      isDigit).getD false)) = true := by
    have hdot : n.first ≠ '.' := by
      intro hdot
      have hdigit := n.digit
      rw [hdot] at hdigit
      cases hdigit
    unfold isNumChar
    rw [n.digit]
    simp [hdot]
  have hcons : n.chars ++ rest = n.first :: (n.chars ++ rest).tail := rfl
  refine ⟨i + n.chars.length, i + n.chars.length, ?_⟩
  show tokenizeLoop (fuel + 1) i (n.chars ++ rest) = _
  rw [hcons, tokenizeLoop, if_neg (by simp [hspace]), if_pos hstart, ← hcons, htake, hdrop]
  rfl

/-- An identifier is read up to where it stops. -/
theorem readBefore_ident (x : Identifier) {rest : List Char}
    (h : (Lexeme.ident x).endsBefore rest.head? = true) : (Lexeme.ident x).ReadBefore rest := by
  intro fuel i
  obtain ⟨hspace, hnum, hquote, hdouble, -⟩ := identStart_only x.starts
  have hall : x.chars.all isIdentChar = true := by
    unfold Identifier.chars
    rw [List.all_cons, x.continues]
    unfold isIdentChar
    rw [x.starts]
    rfl
  have hstop : ∀ c ∈ rest.head?, isIdentChar c = false := by
    intro c hc
    rw [Option.mem_def.1 hc] at h
    simpa [Lexeme.endsBefore] using h
  obtain ⟨htake, hdrop⟩ := takeWhile_append_stop hall hstop
  have hcons : x.chars ++ rest = x.first :: (x.chars ++ rest).tail := rfl
  refine ⟨i + x.chars.length, i + x.chars.length, ?_⟩
  show tokenizeLoop (fuel + 1) i (x.chars ++ rest) = _
  rw [hcons, tokenizeLoop, if_neg (by simp [hspace]), if_neg (by simp [hnum]),
    if_neg (not_or.2 ⟨hquote, hdouble⟩), if_pos x.starts, ← hcons, htake, hdrop]
  rfl

/-- A string is read up to its closing quote. -/
theorem readBefore_str (s : PlainText) (rest : List Char) : (Lexeme.str s).ReadBefore rest := by
  intro fuel i
  have hscan := scanString_escapeChars s.text.toList rest
  have h1 : isSpace '\'' = false := by decide
  have h2 : isNumChar '\'' = false := by decide
  have hchars : (Lexeme.str s).chars ++ rest = '\'' :: (escapeChars s.text.toList ++ '\'' :: rest) := by
    simp [Lexeme.chars]
  rw [hchars, tokenizeLoop]
  simp only [h1, h2, hscan, Bool.false_and, Bool.false_eq_true, if_false, true_or, if_true,
    String.ofList_toList]
  exact ⟨_, _, rfl⟩

/-- What begins with an operator is read as the operator that `scanOp` finds. -/
theorem tokenizeLoop_scanOp {c : Char} {cs : List Char} {type : TokenType} {value : String} {n : Nat}
    (hspace : isSpace c = false)
    (hnum : (isNumChar c && (c != '.' || (cs.head?.map isDigit).getD false)) = false)
    (hquote : ¬ (c = '\'' ∨ c = '"')) (hident : isIdentStart c = false)
    (h : scanOp (c :: cs) = some (type, value, n)) (fuel i : Nat) :
    tokenizeLoop (fuel + 1) i (c :: cs) =
      ⟨type, value, i⟩ :: tokenizeLoop fuel (i + n) ((c :: cs).drop n) := by
  rw [tokenizeLoop, if_neg (by simp [hspace]), if_neg (by simp [hnum]), if_neg hquote,
    if_neg (by simp [hident]), h]

/-- A symbol of one character that could begin a longer one, where it does not. -/
theorem scanOp_single {c : Char} {rest : List Char} (hc : c = '!' ∨ c = '<' ∨ c = '>')
    (h : ∀ d ∈ rest.head?, d ≠ '=') : scanOp (c :: rest) = some (.op, String.singleton c, 1) := by
  cases rest with
  | nil => rcases hc with rfl | rfl | rfl <;> rfl
  | cons d rest =>
    have hd : d ≠ '=' := h d rfl
    rcases hc with rfl | rfl | rfl <;> simp [scanOp, hd]

/-- An equality sign that could begin a strict one, where it does not. -/
theorem scanOp_equality {c : Char} {rest : List Char} (hc : c = '=' ∨ c = '!')
    (h : ∀ d ∈ rest.head?, d ≠ '=') :
    scanOp (c :: '=' :: rest) = some (.op, String.ofList [c, '='], 2) := by
  cases rest with
  | nil => rcases hc with rfl | rfl <;> rfl
  | cons d rest =>
    have hd : d ≠ '=' := h d rfl
    rcases hc with rfl | rfl <;> simp [scanOp, hd]

/-- The symbols that the operators and brackets are. -/
def Lexeme.isSymbol : Lexeme → Bool
  | num _ | str _ | ident _ => false
  | _ => true

/-- An operator or a bracket is read up to where it ends. -/
theorem scanOp_symbol {t : Lexeme} {rest : List Char} (ht : t.isSymbol = true)
    (h : t.endsBefore rest.head? = true) :
    scanOp (t.chars ++ rest) = some (t.spelling.1, t.spelling.2, t.chars.length) := by
  have hne {t : Lexeme} (ht : ∀ d, t.endsBefore (some d) = (d != '='))
      (h : t.endsBefore rest.head? = true) : ∀ d ∈ rest.head?, d ≠ '=' := by
    intro d hd
    rw [Option.mem_def.1 hd, ht] at h
    simpa using h
  cases t with
  | num | str | ident => cases ht
  | question | colon => cases h
  | unary op =>
    cases op with
    | neg => rfl
    | not => exact scanOp_single (.inl rfl) (hne (fun _ => rfl) h)
  | binary op =>
    cases op with
    | lt => exact scanOp_single (.inr (.inl rfl)) (hne (fun _ => rfl) h)
    | gt => exact scanOp_single (.inr (.inr rfl)) (hne (fun _ => rfl) h)
    | eq => exact scanOp_equality (.inl rfl) (hne (fun _ => rfl) h)
    | ne => exact scanOp_equality (.inr rfl) (hne (fun _ => rfl) h)
    | _ => rfl
  | _ => rfl

/-- A symbol is read up to where it ends. -/
theorem readBefore {t : Lexeme} {rest : List Char} (h : t.endsBefore rest.head? = true) :
    t.ReadBefore rest := by
  have hsymbol (ht : t.isSymbol = true) {c : Char} {cs : List Char} (hcs : t.chars = c :: cs)
      (hspace : isSpace c = false)
      (hnum : (isNumChar c && (c != '.' || ((cs ++ rest).head?.map isDigit).getD false)) = false)
      (hquote : ¬ (c = '\'' ∨ c = '"')) (hident : isIdentStart c = false) : t.ReadBefore rest := by
    intro fuel i
    have hscan := scanOp_symbol ht h
    have hdrop : (t.chars ++ rest).drop t.chars.length = rest := List.drop_left
    rw [hcs, List.cons_append] at hscan hdrop
    refine ⟨i, i + (c :: cs).length, ?_⟩
    rw [hcs, List.cons_append, tokenizeLoop_scanOp hspace hnum hquote hident hscan, hdrop]
  cases t with
  | num n => exact readBefore_num n h
  | str s => exact readBefore_str s rest
  | ident x => exact readBefore_ident x h
  | dot =>
    refine hsymbol rfl (show Lexeme.dot.chars = ['.'] from rfl) (by decide) ?_ (by decide)
      (by decide)
    cases rest with
    | nil => rfl
    | cons d rest =>
      have hdigit : isDigit d = false := by simpa [Lexeme.endsBefore] using h
      simp [hdigit]
  | question | colon => cases h
  | unary op => cases op <;> exact hsymbol rfl rfl (by decide) rfl (by decide) (by decide)
  | binary op => cases op <;> exact hsymbol rfl rfl (by decide) rfl (by decide) (by decide)
  | _ => exact hsymbol rfl rfl (by decide) rfl (by decide) (by decide)

/-- Every symbol has a first character. -/
theorem Lexeme.exists_chars (t : Lexeme) : ∃ c cs, t.chars = c :: cs := by
  cases t with
  | unary op => cases op <;> exact ⟨_, _, rfl⟩
  | binary op => cases op <;> exact ⟨_, _, rfl⟩
  | _ => exact ⟨_, _, rfl⟩

/-- White space belongs to no symbol. -/
theorem not_symbol_of_isSpace {c : Char} (h : isSpace c = true) :
    isDigit c = false ∧ isNumChar c = false ∧ isIdentChar c = false ∧ c ≠ '=' := by
  have hdigit : isDigit c = false := Bool.eq_false_iff.2 fun hc => by
    rw [isSpace_of_isDigit hc] at h
    cases h
  have hident : isIdentStart c = false := Bool.eq_false_iff.2 fun hc => by
    rw [(identStart_only hc).1] at h
    cases h
  have hdot : c ≠ '.' := by
    rintro rfl
    cases h
  refine ⟨hdigit, ?_, ?_, ?_⟩
  · unfold isNumChar
    rw [hdigit]
    simpa using hdot
  · unfold isIdentChar
    rw [hident, hdigit]
    rfl
  · rintro rfl
    cases h

/-- A symbol that is read at all ends before white space. -/
theorem endsBefore_space {t : Lexeme} {next : Option Char} (h : t.endsBefore next = true) {c : Char}
    (hc : isSpace c = true) : t.endsBefore (some c) = true := by
  obtain ⟨hdigit, hnum, hident, hequal⟩ := not_symbol_of_isSpace hc
  cases t with
  | question | colon => cases h
  | unary op => cases op <;> simp [Lexeme.endsBefore, hequal]
  | binary op => cases op <;> simp [Lexeme.endsBefore, hequal]
  | _ => simp [Lexeme.endsBefore, hdigit, hnum, hident]

/-- A symbol that ends before another one ends before it also with blanks between them. -/
theorem endsBefore_layOut {t : Lexeme} {ts : List Lexeme} (blanks : Nat → Blank)
    (h : t.endsBefore (ts.head?.bind (·.chars.head?)) = true) :
    t.endsBefore (layOut blanks ts).head? = true := by
  have hspaces := (blanks 0).spaces
  cases hblank : (blanks 0).chars with
  | cons c blank =>
    rw [hblank, List.all_cons, Bool.and_eq_true] at hspaces
    have hhead : (layOut blanks ts).head? = some c := by
      cases ts <;> simp [layOut, hblank]
    rw [hhead]
    exact endsBefore_space h hspaces.1
  | nil =>
    cases ts with
    | nil =>
      simp only [layOut, hblank]
      exact h
    | cons u us =>
      obtain ⟨c, cs, hu⟩ := u.exists_chars
      simp only [List.head?_cons, Option.bind_some, hu] at h
      simp only [layOut, hblank, hu, List.nil_append, List.cons_append, List.head?_cons]
      exact h

/-- Symbols that are separated are read back, whatever the blanks between them. -/
theorem tokenizeLoop_layOut {ts : List Lexeme} (h : Separated ts) (blanks : Nat → Blank) {fuel : Nat}
    (i : Nat) (hfuel : (layOut blanks ts).length ≤ fuel) :
    (tokenizeLoop fuel i (layOut blanks ts)).map Token.spelling = ts.map Lexeme.spelling := by
  have hblank := (blanks 0).spaces
  induction ts generalizing blanks fuel i with
  | nil =>
    obtain ⟨n, rfl⟩ := Nat.exists_eq_add_of_le' hfuel
    have hskip := tokenizeLoop_blank hblank n i []
    rw [List.append_nil] at hskip
    show (tokenizeLoop (n + (blanks 0).chars.length) i (blanks 0).chars).map _ = _
    rw [hskip]
    cases n <;> rfl
  | cons t ts ih =>
    obtain ⟨n, rfl⟩ := Nat.exists_eq_add_of_le' hfuel
    obtain ⟨c, cs, hc⟩ := t.exists_chars
    obtain ⟨later, hcons⟩ : ∃ later,
        layOut blanks (t :: ts) = (blanks 0).chars ++ (t.chars ++ layOut later ts) := ⟨_, rfl⟩
    have hlength : (layOut blanks (t :: ts)).length =
        (cs.length + (layOut later ts).length) + 1 + (blanks 0).chars.length := by
      rw [hcons, List.length_append, List.length_append, hc, List.length_cons]
      omega
    rw [hlength, ← Nat.add_assoc, ← Nat.add_assoc, hcons, tokenizeLoop_blank hblank]
    obtain ⟨p, j, hread⟩ := readBefore (endsBefore_layOut later h.1)
      (n + (cs.length + (layOut later ts).length)) (i + (blanks 0).chars.length)
    rw [hread, List.map_cons, List.map_cons,
      ih h.2 later j (by omega) (later 0).spaces]
    rfl

/-! ## The symbols of an expression -/

/-- The symbol may begin an operand. -/
def Lexeme.opens : Lexeme → Bool
  | num _ | str _ | ident _ | unary _ | openParen | openBracket => true
  | _ => false

/-- The symbol may end an operand. -/
def Lexeme.ends : Lexeme → Bool
  | num _ | str _ | ident _ | closeParen | closeBracket => true
  | _ => false

/-- The symbol may follow an operand of the precedence: it is no operator that takes the operand. -/
def Lexeme.follows (level : Nat) : Lexeme → Bool
  | binary op => op.level < level
  | comma | closeParen | closeBracket => true
  | _ => false

/-- What may follow an operand of the precedence. -/
def Follows (level : Nat) (rest : List Lexeme) : Prop := ∀ t ∈ rest.head?, t.follows level = true

/-- More may follow an operand that takes less. -/
theorem Follows.mono {level level' : Nat} {rest : List Lexeme} (h : Follows level rest)
    (hle : level ≤ level') : Follows level' rest := by
  intro t ht
  have hf := h t ht
  cases t with
  | binary op =>
    simp only [Lexeme.follows, decide_eq_true_eq] at hf ⊢
    omega
  | _ => exact hf

/-- The symbols of an operand: they begin as an operand does, and are separated in every place where
one may stand. -/
structure Block (ls : List Lexeme) : Prop where
  opens : ∃ t ts, ls = t :: ts ∧ t.opens = true
  separated : ∀ rest, Follows 6 rest → Separated rest → Separated (ls ++ rest)

/-- An operand ends before what follows it. -/
theorem separated_end {t : Lexeme} {rest : List Lexeme} (ht : t.ends = true) (h : Follows 6 rest)
    (hrest : Separated rest) : Separated (t :: rest) := by
  refine ⟨?_, hrest⟩
  cases rest with
  | nil => cases t <;> first | rfl | cases ht
  | cons u rest =>
    have hu := h u rfl
    have hstop : ∃ c cs, u.chars = c :: cs ∧ isNumChar c = false ∧ isIdentChar c = false := by
      cases u with
      | binary op => cases op <;> exact ⟨_, _, rfl, rfl, rfl⟩
      | comma | closeParen | closeBracket => exact ⟨_, _, rfl, rfl, rfl⟩
      | _ => cases hu
    obtain ⟨c, cs, hc, hnum, hident⟩ := hstop
    rw [List.head?_cons, Option.bind_some, hc, List.head?_cons]
    cases t with
    | num n => simp [Lexeme.endsBefore, hnum]
    | ident x => simp [Lexeme.endsBefore, hident]
    | str | closeParen | closeBracket => rfl
    | _ => cases ht

/-- An operator, an opening bracket or a comma ends before an operand. -/
theorem separated_open {t u : Lexeme} {rest : List Lexeme} (ht : t.ends = false)
    (hdot : t.endsBefore (some '0') = true) (hu : u.opens = true) (hrest : Separated (u :: rest)) :
    Separated (t :: u :: rest) := by
  refine ⟨?_, hrest⟩
  have hne : ∃ c cs, u.chars = c :: cs ∧ c ≠ '=' := by
    cases u with
    | num n =>
      refine ⟨n.first, _, rfl, ?_⟩
      intro he
      have hdigit := n.digit
      rw [he] at hdigit
      cases hdigit
    | ident x => exact ⟨x.first, _, rfl, (identStart_only x.starts).2.2.2.2⟩
    | unary op => cases op <;> exact ⟨_, _, rfl, by decide⟩
    | str | openParen | openBracket => exact ⟨_, _, rfl, by decide⟩
    | _ => cases hu
  obtain ⟨c, cs, hc, hequal⟩ := hne
  rw [List.head?_cons, Option.bind_some, hc, List.head?_cons]
  cases t with
  | num | str | ident | closeParen | closeBracket => cases ht
  | dot | question | colon => cases hdot
  | unary op => cases op <;> simp [Lexeme.endsBefore, hequal]
  | binary op => cases op <;> simp [Lexeme.endsBefore, hequal]
  | _ => rfl

/-- A block after an operator, an opening bracket or a comma. -/
theorem Block.after {t : Lexeme} {ls rest : List Lexeme} (h : Block ls) (ht : t.ends = false)
    (hdot : t.endsBefore (some '0') = true) (hfollows : Follows 6 rest) (hrest : Separated rest) :
    Separated (t :: (ls ++ rest)) := by
  have hls := h.separated rest hfollows hrest
  obtain ⟨u, us, rfl, hu⟩ := h.opens
  exact separated_open ht hdot hu hls

/-- An operand of one symbol. -/
theorem Block.atom {t : Lexeme} (hopens : t.opens = true) (hends : t.ends = true) : Block [t] :=
  ⟨⟨t, [], rfl, hopens⟩, fun _ => separated_end hends⟩

/-- What stands before a closing bracket. -/
theorem separated_close {t : Lexeme} {rest : List Lexeme} (ht : t = .closeParen ∨ t = .closeBracket)
    (h : Follows 6 rest) (hrest : Separated rest) :
    Follows 6 (t :: rest) ∧ Separated (t :: rest) := by
  refine ⟨?_, separated_end ?_ h hrest⟩
  · rintro u ⟨⟩
    rcases ht with rfl | rfl <;> rfl
  · rcases ht with rfl | rfl <;> rfl

/-- An operand in parentheses, where they are needed. -/
theorem Block.parens {ls : List Lexeme} (h : Block ls) (needed : Bool) : Block (parens needed ls) := by
  cases needed with
  | false => exact h
  | true =>
    refine ⟨⟨.openParen, _, rfl, rfl⟩, fun rest hfollows hrest => ?_⟩
    obtain ⟨hf, hs⟩ := separated_close (.inl rfl) hfollows hrest
    show Separated (.openParen :: ls ++ [.closeParen] ++ rest)
    rw [List.append_assoc, List.cons_append, List.singleton_append]
    exact h.after rfl rfl hf hs

/-- A prefix operator. -/
theorem Block.unary {ls : List Lexeme} (h : Block ls) (op : UnaryOp) : Block (.unary op :: ls) :=
  ⟨⟨.unary op, ls, rfl, rfl⟩, fun _ hf hs => h.after rfl (by cases op <;> rfl) hf hs⟩

/-- An infix operator. -/
theorem Block.binary {la lb : List Lexeme} (ha : Block la) (hb : Block lb) (op : BinaryOp) :
    Block (la ++ .binary op :: lb) := by
  refine ⟨?_, fun rest hf hs => ?_⟩
  · obtain ⟨t, ts, rfl, ht⟩ := ha.opens
    exact ⟨t, ts ++ .binary op :: lb, rfl, ht⟩
  · rw [List.append_assoc, List.cons_append]
    refine ha.separated _ ?_ (hb.after rfl (by cases op <;> rfl) hf hs)
    rintro t ⟨⟩
    cases op <;> rfl

/-- The expressions of a list, up to the closing bracket. -/
theorem separated_commaLexemes {es : List Expression} (h : ∀ e ∈ es, Block e.lexemes) {t : Lexeme}
    {rest : List Lexeme} (ht : t = .closeParen ∨ t = .closeBracket) (hf : Follows 6 rest)
    (hs : Separated rest) :
    Follows 6 (Expression.commaLexemes es ++ t :: rest) ∧
      Separated (Expression.commaLexemes es ++ t :: rest) := by
  induction es with
  | nil => exact separated_close ht hf hs
  | cons e es ih =>
    obtain ⟨hf', hs'⟩ := ih fun e' he' => h e' (List.mem_cons_of_mem _ he')
    rw [Expression.commaLexemes, List.cons_append, List.cons_append, List.append_assoc]
    refine ⟨?_, (h e (List.mem_cons_self ..)).after rfl rfl hf' hs'⟩
    rintro u ⟨⟩
    rfl

/-- A bracketed list. -/
theorem separated_list {es : List Expression} (h : ∀ e ∈ es, Block e.lexemes) {t u : Lexeme}
    {rest : List Lexeme} (ht : t = .openParen ∨ t = .openBracket)
    (hu : u = .closeParen ∨ u = .closeBracket) (hf : Follows 6 rest) (hs : Separated rest) :
    Separated (t :: ((Expression.commaLexemes es).tail ++ u :: rest)) := by
  have hends : t.ends = false := by rcases ht with rfl | rfl <;> rfl
  cases es with
  | nil =>
    refine ⟨?_, (separated_close hu hf hs).2⟩
    rcases ht with rfl | rfl <;> rcases hu with rfl | rfl <;> rfl
  | cons e es =>
    have hothers : ∀ e' ∈ es, Block e'.lexemes := fun e' he' => h e' (List.mem_cons_of_mem _ he')
    obtain ⟨hf', hs'⟩ := separated_commaLexemes hothers hu hf hs
    rw [Expression.commaLexemes, List.cons_append, List.tail_cons, List.append_assoc]
    exact (h e (List.mem_cons_self ..)).after hends (by rcases ht with rfl | rfl <;> rfl) hf' hs'

/-- A name before an opening parenthesis. -/
theorem separated_called {f : Identifier} {rest : List Lexeme} (h : Separated (.openParen :: rest)) :
    Separated (.ident f :: .openParen :: rest) :=
  ⟨rfl, h⟩

/-- A member of a name. -/
theorem separated_member {base name : Identifier} {rest : List Lexeme}
    (h : Separated (.ident name :: rest)) :
    Separated (.ident base :: .dot :: .ident name :: rest) := by
  refine ⟨rfl, ?_, h⟩
  have hnum := (identStart_only name.starts).2.1
  unfold isNumChar at hnum
  rw [Bool.or_eq_false_iff] at hnum
  show (!isDigit name.first) = true
  rw [hnum.1]
  rfl

/-- The symbols of an expression without a conditional are a block. -/
theorem Expression.block (e : Expression) (h : e.unconditional = true) : Block e.lexemes := by
  induction e using Expression.induct with
  | number | text | field => exact .atom rfl rfl
  | null => exact .atom rfl rfl
  | bool b => cases b <;> exact .atom rfl rfl
  | member base name =>
    exact ⟨⟨.ident base, _, rfl, rfl⟩, fun rest hf hs => separated_member (separated_end rfl hf hs)⟩
  | call f args ih =>
    refine ⟨⟨.ident f, _, rfl, rfl⟩, fun rest hf hs => ?_⟩
    have hlist := separated_list (fun e he => ih e he (unconditional_of_mem h he)) (.inl rfl) (.inl rfl) hf hs
    simpa [Expression.lexemes] using separated_called hlist
  | method base name args ih =>
    refine ⟨⟨.ident base, _, rfl, rfl⟩, fun rest hf hs => ?_⟩
    have hlist := separated_list (fun e he => ih e he (unconditional_of_mem h he)) (.inl rfl) (.inl rfl) hf hs
    simpa [Expression.lexemes] using separated_member (separated_called hlist)
  | array items ih =>
    refine ⟨⟨.openBracket, _, rfl, rfl⟩, fun rest hf hs => ?_⟩
    have hlist := separated_list (fun e he => ih e he (unconditional_of_mem h he)) (.inr rfl) (.inr rfl) hf hs
    simpa [Expression.lexemes] using hlist
  | unary op e ih => exact ((ih h).parens _).unary op
  | binary op a b iha ihb =>
    rw [Expression.unconditional, Bool.and_eq_true] at h
    exact ((iha h.1).parens _).binary ((ihb h.2).parens _) op
  | conditional => cases h

/-- The tokens of a rendering: the symbols of the expression and the end token. -/
theorem tokenize_render {e : Expression} (h : e.unconditional = true) (blanks : Nat → Blank) :
    (tokenize (e.render blanks)).map Token.spelling =
      e.lexemes.map Lexeme.spelling ++ [(.eof, "")] := by
  have hseparated := (e.block h).separated [] (fun t ht => by cases ht) trivial
  rw [List.append_nil] at hseparated
  unfold tokenize Expression.render
  rw [List.map_append, String.toList_ofList, tokenizeLoop_layOut hseparated blanks 0 (Nat.le_refl _)]
  rfl

end HeadlessErp
