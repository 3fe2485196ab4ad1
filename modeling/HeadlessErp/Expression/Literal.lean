import HeadlessErp.Expression.Parser

/-!
# String literals in expressions

A string literal in operand position should be a constant: an identifier bound to the same string
could stand in its place. The parser compares token values without their types, so a literal that
spells a prefix operator or a closing bracket is read as one where an operand may begin. This
module compares the runs over two token lists that differ in one operand (`Replaces`) and shows
that the four strings `operandSpellings` are the only ones that are not transparent.

The comparison is a relational triple for each level of the parser. Its invariant is that the
position after an operand is never the replaced one: the token before the replaced one opens an
operand, the last token of an operand does not.
-/

namespace HeadlessErp

open StateExcept

/-! ## Replacing an operand -/

/-- The type and the text of a token, without its position. -/
def Token.spelling (t : Token) : TokenType × String := (t.type, t.value)

/-- A token after which an operand begins: an operator or an opening bracket. -/
def Token.opensOperand (t : Token) : Prop :=
  (t.type = .op ∨ t.type = .paren) ∧ t.value ≠ "." ∧ t.value ≠ ")" ∧ t.value ≠ "]"

/-- The `k`th token stands in operand position: it opens the expression or follows a token that
opens an operand, and it is not called and has no member taken. -/
structure OperandAt (ts : List Token) (k : Nat) : Prop where
  before : k = 0 ∨ ∃ t, ts[k - 1]? = some t ∧ t.opensOperand
  after : ∀ t, ts[k + 1]? = some t → t.value ≠ "(" ∧ ¬ (t.value = "." ∧ t.type = .op)

/-- Two token lists differ in the `k`th token only, a literal of `s` in the first and the
identifier `x` in the second. Positions are free: the tokens after it move. -/
structure Replaces (ts₁ ts₂ : List Token) (k : Nat) (s x : String) : Prop where
  literal : ∃ p, ts₁[k]? = some ⟨.str, s, p⟩
  identifier : ∃ p, ts₂[k]? = some ⟨.ident, x, p⟩
  others : ∀ i, i ≠ k → ts₁[i]?.map Token.spelling = ts₂[i]?.map Token.spelling

/-- The names the parser reads as constants. -/
def keywords : List String := ["true", "false", "null"]

/-- The texts the parser looks for where an operand may begin. -/
def operandSpellings : List String := ["-", "!", ")", "]"]

/-- An error without the positions it prints. -/
def ExprError.forgetPos : ExprError → ExprError
  | expected op _ got => expected op 0 got
  | unexpectedToken value _ => unexpectedToken value 0
  | expectedSeparator _ => expectedSeparator 0
  | e => e

/-- Two errors differ at most in the positions they print. -/
def SameError (e₁ e₂ : ExprError) : Prop := e₁.forgetPos = e₂.forgetPos

/-- The parser accepts a run: it returns a value, or a function it called raised an error. -/
def Accepted {α : Type} : Except ExprError α → Prop
  | .ok _ => True
  | .error e => e.isCallError = true

/-- A value is an accepted run. -/
theorem accepted_of_isOk {α : Type} {r : Except ExprError α} (h : r.isOk = true) : Accepted r := by
  cases r
  · cases h
  · trivial

/-- An error of a call is the same with and without positions. -/
theorem SameError.eq_of_isCallError {e₁ e₂ : ExprError} (h : SameError e₁ e₂)
    (hc : e₁.isCallError = true ∨ e₂.isCallError = true) : e₁ = e₂ := by
  unfold SameError at h
  cases e₁ <;> cases e₂ <;> simp_all [ExprError.forgetPos, ExprError.isCallError]

/-! ## Facts about the token lists -/

/-- The operators and brackets are not identifiers. -/
theorem scanOp_type {cs : List Char} {type : TokenType} {value : String} {n : Nat}
    (h : scanOp cs = some (type, value, n)) : type = .op ∨ type = .paren := by
  unfold scanOp at h
  split at h
  case h_9 =>
    split at h
    · cases h; simp
    split at h
    · cases h; simp
    · cases h
  all_goals cases h
  all_goals simp

/-- The identifier tokens of an expression start like an identifier. -/
theorem tokenizeLoop_ident {fuel i : Nat} {cs : List Char} {t : Token}
    (ht : t ∈ tokenizeLoop fuel i cs) (hi : t.type = .ident) :
    ∃ c tl, t.value.toList = c :: tl ∧ isIdentStart c = true := by
  induction fuel generalizing i cs with
  | zero => simp [tokenizeLoop] at ht
  | succ fuel ih =>
    cases cs with
    | nil => simp [tokenizeLoop] at ht
    | cons c cs =>
      rw [tokenizeLoop] at ht
      split at ht
      · exact ih ht
      split at ht
      · rcases List.mem_cons.1 ht with rfl | ht
        · cases hi
        · exact ih ht
      split at ht
      · rcases List.mem_cons.1 ht with rfl | ht
        · cases hi
        · exact ih ht
      split at ht
      · next hc =>
        rcases List.mem_cons.1 ht with rfl | ht
        · have hic : isIdentChar c = true := by simp [isIdentChar, hc]
          exact ⟨c, cs.takeWhile isIdentChar, by simp [hic], hc⟩
        · exact ih ht
      split at ht
      · next type value n hs =>
        rcases List.mem_cons.1 ht with rfl | ht
        · rcases scanOp_type hs with h | h <;> simp [h] at hi
        · exact ih ht
      · exact ih ht

/-- An identifier token of an expression is none of the spellings the parser looks for where an
operand may begin. -/
theorem tokenize_ident {e : String} {t : Token} (ht : t ∈ tokenize e) (hi : t.type = .ident) :
    t.value ∉ operandSpellings := by
  rcases List.mem_append.1 ht with ht | ht
  · obtain ⟨c, tl, hv, hc⟩ := tokenizeLoop_ident ht hi
    intro hmem
    simp only [operandSpellings, List.mem_cons, List.not_mem_nil, or_false] at hmem
    rcases hmem with h | h | h | h <;> rw [h] at hv <;> obtain ⟨rfl, -⟩ := List.cons.inj hv <;>
      revert hc <;> decide
  · rw [List.mem_singleton.1 ht] at hi
    cases hi

/-- A literal is not the last token of an expression. -/
theorem tokenize_str_next {e : String} {k p : Nat} {s : String}
    (hk : (tokenize e)[k]? = some ⟨.str, s, p⟩) : ∃ t, (tokenize e)[k + 1]? = some t := by
  have hlt : k < (tokenize e).length := (List.getElem?_eq_some_iff.1 hk).1
  unfold tokenize at hk hlt ⊢
  rw [List.length_append, List.length_singleton] at hlt
  rcases Nat.lt_or_ge k (tokenizeLoop e.toList.length 0 e.toList).length with h | h
  · exact ⟨_, List.getElem?_eq_getElem (by simp; omega)⟩
  · have hkl : k = (tokenizeLoop e.toList.length 0 e.toList).length := by omega
    rw [List.getElem?_append_right h, hkl, Nat.sub_self] at hk
    cases hk

/-! ## Runs over the two lists -/

/-- A literal operand `s`, other than the four spellings, and an identifier bound to it. -/
structure OperandReplaced {N : Type} (env : EvalEnv N) (ts₁ ts₂ : List Token) (k : Nat)
    (s x : String) : Prop extends Replaces ts₁ ts₂ k s x, OperandAt ts₁ k where
  bound : env.scope x = some (.str s)
  notKeyword : x ∉ keywords
  literalText : s ∉ operandSpellings
  identText : x ∉ operandSpellings
  notLast : ∃ t, ts₁[k + 1]? = some t

section
variable {N : Type} {env : EvalEnv N} {ts₁ ts₂ : List Token} {k : Nat} {s x : String}

/-- Away from the replaced token the lists spell alike. -/
theorem Replaces.lookup (h : Replaces ts₁ ts₂ k s x) {i : Nat} (hi : i ≠ k) :
    (ts₁[i]? = none ∧ ts₂[i]? = none) ∨
      ∃ a b, ts₁[i]? = some a ∧ ts₂[i]? = some b ∧ a.spelling = b.spelling := by
  have ho := h.others i hi
  cases h₁ : ts₁[i]? <;> cases h₂ : ts₂[i]? <;> simp_all

/-- The position after a token that opens no operand is not the replaced one. -/
theorem OperandAt.pos_ne (h : OperandAt ts₁ k) {i : Nat} {a : Token} (ha : ts₁[i]? = some a)
    (hno : ¬ a.opensOperand) : i + 1 ≠ k := by
  rintro rfl
  rcases h.before with h0 | ⟨t, ht, hop⟩
  · omega
  · rw [Nat.add_sub_cancel, ha] at ht
    cases ht
    exact hno hop

/-- Peeking away from the replaced token. -/
theorem peek_off (h : Replaces ts₁ ts₂ k s x) (property : String) :
    RelTriple SameError (fun st => st.pos ≠ k) (peek ts₁ property) (peek ts₂ property)
      fun a b st => a.spelling = b.spelling ∧ st.pos ≠ k ∧ ts₁[st.pos]? = some a := by
  intro st hst
  unfold peek
  rcases h.lookup hst with ⟨h₁, h₂⟩ | ⟨a, b, h₁, h₂, hab⟩
  · rw [h₁, h₂]
    exact .error rfl
  · rw [h₁, h₂]
    exact .ok ⟨hab, hst, h₁⟩

/-- Peeking where an operand may begin: the lists agree on the four spellings, and where they spell
one of them the position is not the replaced one. -/
theorem peek_any (h : OperandReplaced env ts₁ ts₂ k s x) (property : String) :
    RelTriple SameError (fun _ => True) (peek ts₁ property) (peek ts₂ property)
      fun a b st => (∀ op ∈ operandSpellings, (b.value == op) = (a.value == op)) ∧
        (a.value ∈ operandSpellings → st.pos ≠ k ∧ ts₁[st.pos]? = some a) := by
  intro st _
  by_cases hst : st.pos = k
  · obtain ⟨p, hp⟩ := h.literal
    obtain ⟨q, hq⟩ := h.identifier
    unfold peek
    rw [hst, hp, hq]
    refine .ok ⟨fun op hop => ?_, fun hs => absurd hs h.literalText⟩
    rw [beq_false_of_ne (a := x) fun hx => h.identText (hx ▸ hop),
      beq_false_of_ne (a := s) fun hs => h.literalText (hs ▸ hop)]
  · refine ((peek_off h.toReplaces property) st hst).mono fun a b st hab =>
      ⟨fun op _ => ?_, fun _ => hab.2⟩
    rw [(Prod.mk.inj hab.1).2]

/-- Consuming any token, when its value is not used. -/
theorem next_any (h : Replaces ts₁ ts₂ k s x) (property : String) :
    RelTriple SameError (fun _ => True) (next ts₁ property) (next ts₂ property)
      fun _ _ _ => True := by
  intro st _
  unfold next
  by_cases hst : st.pos = k
  · obtain ⟨p, hp⟩ := h.literal
    obtain ⟨q, hq⟩ := h.identifier
    rw [hst, hp, hq]
    exact .ok trivial
  · rcases h.lookup hst with ⟨h₁, h₂⟩ | ⟨a, b, h₁, h₂, -⟩ <;> rw [h₁, h₂]
    · exact .error rfl
    · exact .ok trivial

/-- Consuming a token away from the replaced one. -/
theorem next_off (h : Replaces ts₁ ts₂ k s x) (ho : OperandAt ts₁ k) (property : String)
    (R : Token → Prop) :
    RelTriple SameError (fun st => st.pos ≠ k ∧ ∀ t, ts₁[st.pos]? = some t → R t)
      (next ts₁ property) (next ts₂ property)
      fun a b st => (a.spelling = b.spelling ∧ R a) ∧ (¬ a.opensOperand → st.pos ≠ k) := by
  rintro st ⟨hst, hR⟩
  unfold next
  rcases h.lookup hst with ⟨h₁, h₂⟩ | ⟨a, b, h₁, h₂, hab⟩
  · rw [h₁, h₂]
    exact .error rfl
  · rw [h₁, h₂]
    exact .ok ⟨⟨hab, hR a h₁⟩, ho.pos_ne h₁⟩

/-- The outcome of an operand: one value, and a position off the replaced token. -/
def SameOperand (k : Nat) (a b : JsVal N) (st : PState) : Prop := a = b ∧ st.pos ≠ k

/-- The precondition of the functions that may begin with an operand: none. -/
def AnyPos (_ : PState) : Prop := True

/-- The precondition of the functions that continue after an operand. -/
def OffPos (k : Nat) (st : PState) : Prop := st.pos ≠ k

/-- A left-associative level agrees when its operand does. -/
theorem leftAssoc_off (h : OperandReplaced env ts₁ ts₂ k s x) {isOp : String → Bool}
    {combine : String → JsVal N → JsVal N → JsVal N} {m₁ m₂ : ParserM (JsVal N)}
    (hm : RelTriple SameError AnyPos m₁ m₂ (SameOperand k)) (fuel : Nat) (left : JsVal N) :
    RelTriple SameError (OffPos k) (leftAssoc ts₁ isOp m₁ combine fuel left)
      (leftAssoc ts₂ isOp m₂ combine fuel left) (SameOperand k) := by
  induction fuel generalizing left with
  | zero => exact .fail rfl
  | succ fuel ih =>
    refine (peek_off h.toReplaces "value").bind fun a b => .assume fun hab => ?_
    rw [(Prod.mk.inj hab).2]
    split
    · refine ((next_off h.toReplaces h.toOperandAt "value" fun _ => True).conseq
        (fun st hst => ⟨hst.1, fun _ _ => trivial⟩) fun _ _ _ => id).bind fun op op' =>
          .assume fun hop => ?_
      rw [(Prod.mk.inj hop.1).2]
      refine (hm.conseq (fun _ _ => trivial) fun _ _ _ => id).bind fun r r' => .assume ?_
      rintro rfl
      exact ih _
    · exact .pure fun st hst => ⟨rfl, hst.1⟩

/-- A token that spells a closing bracket opens no operand. -/
theorem Token.not_opensOperand {t : Token} (h : t.value = ")" ∨ t.value = "]" ∨ t.value = ".") :
    ¬ t.opensOperand := by
  rintro ⟨-, h₁, h₂, h₃⟩
  rcases h with h | h | h
  · exact h₂ h
  · exact h₃ h
  · exact h₁ h

/-- Consuming a token that has been peeked at away from the replaced one. -/
theorem next_peeked (h : OperandReplaced env ts₁ ts₂ k s x) (property : String) (a : Token) :
    RelTriple SameError (fun st => st.pos ≠ k ∧ ts₁[st.pos]? = some a)
      (next ts₁ property) (next ts₂ property)
      fun _ _ st => ¬ a.opensOperand → st.pos ≠ k :=
  (next_off h.toReplaces h.toOperandAt property (· = a)).conseq
    (fun _ hst => ⟨hst.1, fun _ ht => Option.some.inj (ht.symm.trans hst.2)⟩)
    fun _ _ _ hQ => hQ.1.2 ▸ hQ.2

/-- A closing parenthesis is expected after an operand. -/
theorem expectOp_off (h : OperandReplaced env ts₁ ts₂ k s x) :
    RelTriple SameError (OffPos k) (expectOp ts₁ ")") (expectOp ts₂ ")")
      fun _ _ st => st.pos ≠ k := by
  refine ((next_off h.toReplaces h.toOperandAt "value" fun _ => True).conseq
    (fun st hst => ⟨hst, fun _ _ => trivial⟩) fun _ _ _ => id).bind fun a b =>
      .assume fun hab => ?_
  have hval := (Prod.mk.inj hab.1).2
  rw [hval]
  split
  · exact .fail rfl
  · next hv =>
    refine .pure fun st hst => hst (Token.not_opensOperand (.inl ?_))
    rw [hval]
    simpa using hv

/-- The array loop agrees when its element does. -/
theorem arrayLoop_any (h : OperandReplaced env ts₁ ts₂ k s x) {m₁ m₂ : ParserM (JsVal N)}
    (hm : RelTriple SameError AnyPos m₁ m₂ (SameOperand k)) (fuel : Nat) (arr : List (JsVal N)) :
    RelTriple SameError AnyPos (arrayLoop ts₁ m₁ fuel arr) (arrayLoop ts₂ m₂ fuel arr)
      (SameOperand k) := by
  induction fuel generalizing arr with
  | zero => exact .fail rfl
  | succ fuel ih =>
    refine hm.bind fun v v' => .assume ?_
    rintro rfl
    refine ((next_off h.toReplaces h.toOperandAt "value" fun _ => True).conseq
      (fun st hst => ⟨hst, fun _ _ => trivial⟩) fun _ _ _ => id).bind fun a b =>
        .assume fun hab => ?_
    have hval := (Prod.mk.inj hab.1).2
    rw [hval]
    split
    · next hv =>
      refine .pure fun st hst => ⟨rfl, hst (Token.not_opensOperand (.inr (.inl ?_)))⟩
      rw [hval]
      simpa using hv
    split
    · refine ((peek_any h "pos").conseq (fun _ _ => trivial) fun _ _ _ => id).bind fun t t' => ?_
      exact .fail rfl
    · refine ((peek_any h "value").conseq (fun _ _ => trivial) fun _ _ _ => id).bind fun t t' =>
        .assume fun ht => ?_
      rw [ht "]" (by decide)]
      split
      · next hv =>
        have hv' : t.value = "]" := by simpa using hv
        refine ((next_peeked h "value" t).conseq (fun st hst => hst (by simp [hv', operandSpellings]))
          fun _ _ _ => id).bind fun u u' => ?_
        exact .pure fun st hst => ⟨rfl, hst (Token.not_opensOperand (.inr (.inl hv')))⟩
      · exact (ih _).conseq (fun _ _ => trivial) fun _ _ _ => id

/-- The argument loop agrees when its argument does. -/
theorem argsLoop_off (h : OperandReplaced env ts₁ ts₂ k s x) {m₁ m₂ : ParserM (JsVal N)}
    (hm : RelTriple SameError AnyPos m₁ m₂ (SameOperand k)) (fuel : Nat) (args : List (JsVal N)) :
    RelTriple SameError (OffPos k) (argsLoop ts₁ m₁ fuel args) (argsLoop ts₂ m₂ fuel args)
      fun a b st => a = b ∧ st.pos ≠ k := by
  induction fuel generalizing args with
  | zero => exact .fail rfl
  | succ fuel ih =>
    refine (peek_off h.toReplaces "value").bind fun a b => .assume fun hab => ?_
    rw [(Prod.mk.inj hab).2]
    split
    · refine ((next_any h.toReplaces "value").conseq (fun _ _ => trivial) fun _ _ _ => id).bind
        fun _ _ => ?_
      refine hm.bind fun v v' => .assume ?_
      rintro rfl
      exact ih _
    · exact .pure fun st hst => ⟨rfl, hst.1⟩

/-- An array literal agrees when its elements do. -/
theorem parseArray_any (h : OperandReplaced env ts₁ ts₂ k s x) {m₁ m₂ : ParserM (JsVal N)}
    (hm : RelTriple SameError AnyPos m₁ m₂ (SameOperand k)) (fuel : Nat) :
    RelTriple SameError AnyPos (parseArray ts₁ m₁ fuel) (parseArray ts₂ m₂ fuel)
      (SameOperand k) := by
  refine (peek_any h "value").bind fun a b => .assume fun hab => ?_
  rw [hab "]" (by decide)]
  split
  · next hv =>
    have hv' : a.value = "]" := by simpa using hv
    refine ((next_peeked h "value" a).conseq (fun st hst => hst (by simp [hv', operandSpellings]))
      fun _ _ _ => id).bind fun u u' => ?_
    exact .pure fun st hst => ⟨rfl, hst (Token.not_opensOperand (.inr (.inl hv')))⟩
  · exact (arrayLoop_any h hm fuel []).conseq (fun _ _ => trivial) fun _ _ _ => id

/-- `leaveNested` keeps the position, so bracketing keeps the outcome of an operand. -/
theorem nested_any {α : Type} {m₁ m₂ : ParserM α}
    (hm : RelTriple SameError AnyPos m₁ m₂ fun a b st => a = b ∧ st.pos ≠ k) :
    RelTriple SameError AnyPos (nested m₁) (nested m₂) fun a b st => a = b ∧ st.pos ≠ k :=
  hm.bracket (fun _ => rfl) (fun _ => id) fun _ _ _ => id

/-- The arguments of a call agree when each argument does. -/
theorem argList_any (h : OperandReplaced env ts₁ ts₂ k s x) {m₁ m₂ : ParserM (JsVal N)}
    (hm : RelTriple SameError AnyPos m₁ m₂ (SameOperand k)) (fuel : Nat) :
    RelTriple SameError AnyPos (argList ts₁ m₁ fuel) (argList ts₂ m₂ fuel)
      fun a b st => a = b ∧ st.pos ≠ k := by
  refine (peek_any h "value").bind fun a b => .assume fun hab => ?_
  rw [bne, bne, hab ")" (by decide)]
  split
  · refine (hm.conseq (fun _ _ => trivial) fun _ _ _ => id).bind fun v v' => .assume ?_
    rintro rfl
    exact argsLoop_off h hm fuel _
  · next hv =>
    have hv' : a.value = ")" := by simpa using hv
    exact .pure fun st hst => ⟨rfl, (hst (by simp [hv', operandSpellings])).1⟩

/-- An argument list agrees when its arguments do. -/
theorem parseArgs_any (h : OperandReplaced env ts₁ ts₂ k s x) {m₁ m₂ : ParserM (JsVal N)}
    (hm : RelTriple SameError AnyPos m₁ m₂ (SameOperand k)) (fuel : Nat) :
    RelTriple SameError AnyPos (parseArgs ts₁ m₁ fuel) (parseArgs ts₂ m₂ fuel)
      fun a b st => a = b ∧ st.pos ≠ k := by
  refine nested_any ((argList_any h hm fuel).bind fun args args' => .assume ?_)
  rintro rfl
  exact (expectOp_off h).bind fun _ _ => .pure fun st hst => ⟨rfl, hst⟩

section
variable [JsNumber N]

/-- A call agrees on equal arguments. -/
theorem callFunction_off (name : String) (args : List (JsVal N)) :
    RelTriple SameError (OffPos k) (callFunction env name args) (callFunction env name args)
      (SameOperand k) := by
  unfold callFunction
  split
  · split
    · exact .pure fun st hst => ⟨rfl, hst⟩
    · exact .fail rfl
  split
  · split
    · exact .pure fun st hst => ⟨rfl, hst⟩
    · exact .fail rfl
  · exact .fail rfl

/-- An identifier agrees with itself. -/
theorem parseIdent_off (h : OperandReplaced env ts₁ ts₂ k s x) {m₁ m₂ : ParserM (JsVal N)}
    (hm : RelTriple SameError AnyPos m₁ m₂ (SameOperand k)) (fuel : Nat) (name : String) :
    RelTriple SameError (OffPos k) (parseIdent env ts₁ m₁ fuel name)
      (parseIdent env ts₂ m₂ fuel name) (SameOperand k) := by
  have hcall (name : String) : RelTriple SameError AnyPos
      (do let args ← parseArgs ts₁ m₁ fuel; callFunction env name args)
      (do let args ← parseArgs ts₂ m₂ fuel; callFunction env name args) (SameOperand k) := by
    refine (parseArgs_any h hm fuel).bind fun args args' => .assume ?_
    rintro rfl
    exact callFunction_off name args
  have hopen (name : String) : RelTriple SameError AnyPos
      (do let _ ← next ts₁ "value"; let args ← parseArgs ts₁ m₁ fuel; callFunction env name args)
      (do let _ ← next ts₂ "value"; let args ← parseArgs ts₂ m₂ fuel; callFunction env name args)
      (SameOperand k) :=
    (next_any h.toReplaces "value").bind fun _ _ => hcall name
  refine (peek_off h.toReplaces "value").bind fun p p' => .assume fun hp => ?_
  obtain ⟨htype, hval⟩ := Prod.mk.inj hp
  rw [hval, htype]
  split
  · next hdot =>
    have hdot' : p.value = "." := by simp_all
    refine (next_peeked h "value" p).bind fun _ _ => ?_
    refine ((next_off h.toReplaces h.toOperandAt "type" fun _ => True).conseq
      (fun st hst => ⟨hst (Token.not_opensOperand (.inr (.inr hdot'))), fun _ _ => trivial⟩)
      fun _ _ _ => id).bind fun m m' => .assume fun hmm => ?_
    obtain ⟨hmtype, hmval⟩ := Prod.mk.inj hmm.1
    rw [hmtype, hmval]
    split
    · exact .fail rfl
    · next hident =>
      have hno : ¬ m.opensOperand := by
        rintro ⟨ht, -⟩
        rw [hmtype] at ht
        simp_all
      refine ((peek_off h.toReplaces "value").conseq (fun st hst => hst hno) fun _ _ _ => id).bind
        fun q q' => .assume fun hq => ?_
      rw [(Prod.mk.inj hq).2]
      split
      · exact (hopen _).conseq (fun _ _ => trivial) fun _ _ _ => id
      · exact .pure fun st hst => ⟨rfl, hst.1⟩
  split
  · exact (hopen _).conseq (fun _ _ => trivial) fun _ _ _ => id
  split
  · exact .pure fun st hst => ⟨rfl, hst.1⟩
  split
  · exact .pure fun st hst => ⟨rfl, hst.1⟩
  split
  · exact .pure fun st hst => ⟨rfl, hst.1⟩
  · exact .pure fun st hst => ⟨rfl, hst.1⟩

/-- The replaced operand itself: the identifier resolves to the literal's string. -/
theorem parseIdent_bound (h : OperandReplaced env ts₁ ts₂ k s x) (m : ParserM (JsVal N))
    (fuel : Nat) {st : PState} (hst : st.pos = k + 1) :
    parseIdent env ts₂ m fuel x st = (.ok (.str s), st) := by
  obtain ⟨t, ht⟩ := h.notLast
  obtain ⟨hparen, hdot⟩ := h.after t ht
  rcases h.toReplaces.lookup (i := k + 1) (by omega) with ⟨h₁, -⟩ | ⟨a, b, h₁, h₂, hab⟩
  · rw [ht] at h₁
    cases h₁
  cases ht.symm.trans h₁
  obtain ⟨htype, hval⟩ := Prod.mk.inj hab
  rw [hval] at hparen hdot
  rw [htype] at hdot
  have hkw := h.notKeyword
  simp only [keywords, List.mem_cons, List.not_mem_nil, or_false, not_or] at hkw
  have hdot' : (b.value == "." && b.type == TokenType.op) = false := by
    simpa using hdot
  unfold parseIdent
  rw [bind_apply]
  unfold peek
  rw [hst, h₂]
  simp [hparen, hdot', hkw, resolveIdentifier, h.bound]

omit [JsNumber N] in
/-- Consuming the first token of an operand: the lists spell it alike, or it is the replaced
one. -/
theorem next_operand (h : OperandReplaced env ts₁ ts₂ k s x) (property : String) :
    RelTriple SameError AnyPos (next ts₁ property) (next ts₂ property)
      fun a b st => (a.spelling = b.spelling ∧ (¬ a.opensOperand → st.pos ≠ k)) ∨
        ((a.spelling = (.str, s) ∧ b.spelling = (.ident, x)) ∧ st.pos = k + 1) := by
  intro st _
  by_cases hst : st.pos = k
  · obtain ⟨p, hp⟩ := h.literal
    obtain ⟨q, hq⟩ := h.identifier
    unfold next
    rw [hst, hp, hq]
    exact .ok (.inr ⟨⟨rfl, rfl⟩, rfl⟩)
  · exact (next_off h.toReplaces h.toOperandAt property (fun _ => True) st
      ⟨hst, fun _ _ => trivial⟩).mono fun _ _ _ hQ => .inl ⟨hQ.1.1, hQ.2⟩

/-- The levels of the precedence ladder agree from every position. -/
structure LadderAgrees (env : EvalEnv N) (ts₁ ts₂ : List Token) (k fuel : Nat) : Prop where
  or : RelTriple SameError AnyPos (parseLogicalOr env ts₁ fuel) (parseLogicalOr env ts₂ fuel)
    (SameOperand k)
  and : RelTriple SameError AnyPos (parseLogicalAnd env ts₁ fuel) (parseLogicalAnd env ts₂ fuel)
    (SameOperand k)
  comparison : RelTriple SameError AnyPos (parseComparison env ts₁ fuel)
    (parseComparison env ts₂ fuel) (SameOperand k)
  additive : RelTriple SameError AnyPos (parseAdditive env ts₁ fuel) (parseAdditive env ts₂ fuel)
    (SameOperand k)
  multiplicative : RelTriple SameError AnyPos (parseMultiplicative env ts₁ fuel)
    (parseMultiplicative env ts₂ fuel) (SameOperand k)
  unary : RelTriple SameError AnyPos (parseUnary env ts₁ fuel) (parseUnary env ts₂ fuel)
    (SameOperand k)
  primary : RelTriple SameError AnyPos (parsePrimary env ts₁ fuel) (parsePrimary env ts₂ fuel)
    (SameOperand k)

omit [JsNumber N] in
/-- A left-associative level over an operand of the ladder. -/
theorem level_any (h : OperandReplaced env ts₁ ts₂ k s x) {isOp : String → Bool}
    {combine : String → JsVal N → JsVal N → JsVal N} {m₁ m₂ : ParserM (JsVal N)}
    (hm : RelTriple SameError AnyPos m₁ m₂ (SameOperand k)) (fuel : Nat) :
    RelTriple SameError AnyPos
      (do let left ← m₁; leftAssoc ts₁ isOp m₁ combine fuel left)
      (do let left ← m₂; leftAssoc ts₂ isOp m₂ combine fuel left) (SameOperand k) := by
  refine hm.bind fun left left' => .assume ?_
  rintro rfl
  exact leftAssoc_off h hm fuel left

/-- A comparison over an operand of the ladder. -/
theorem comparison_any (h : OperandReplaced env ts₁ ts₂ k s x) {fuel : Nat}
    (ih : LadderAgrees env ts₁ ts₂ k fuel) :
    RelTriple SameError AnyPos (parseComparison env ts₁ (fuel + 1))
      (parseComparison env ts₂ (fuel + 1)) (SameOperand k) := by
  rw [parseComparison, parseComparison]
  refine ih.additive.bind fun left left' => .assume ?_
  rintro rfl
  refine (peek_off h.toReplaces "value").bind fun op op' => .assume fun hop => ?_
  rw [(Prod.mk.inj hop).2]
  split
  · refine ((next_any h.toReplaces "value").conseq (fun _ _ => trivial) fun _ _ _ => id).bind
      fun _ _ => ?_
    refine ih.additive.bind fun right right' => .assume ?_
    rintro rfl
    exact .pure fun st hst => ⟨rfl, hst⟩
  · exact .pure fun st hst => ⟨rfl, hst.1⟩

/-- A prefix operator over an operand of the ladder. -/
theorem unary_any (h : OperandReplaced env ts₁ ts₂ k s x) {fuel : Nat}
    (ih : LadderAgrees env ts₁ ts₂ k fuel) :
    RelTriple SameError AnyPos (parseUnary env ts₁ (fuel + 1)) (parseUnary env ts₂ (fuel + 1))
      (SameOperand k) := by
  have hsign (f : JsVal N → JsVal N) : RelTriple SameError AnyPos
      (do let _ ← next ts₁ "value"; let v ← parseUnary env ts₁ fuel; pure (f v))
      (do let _ ← next ts₂ "value"; let v ← parseUnary env ts₂ fuel; pure (f v))
      (SameOperand k) := by
    refine (next_any h.toReplaces "value").bind fun _ _ => ih.unary.bind fun v v' => .assume ?_
    rintro rfl
    exact .pure fun st hst => ⟨rfl, hst⟩
  rw [parseUnary, parseUnary]
  refine nested_any ((peek_any h "value").bind fun a b => .assume fun hab => ?_)
  rw [hab "-" (by decide), hab "!" (by decide)]
  split
  · exact (hsign _).conseq (fun _ _ => trivial) fun _ _ _ => id
  split
  · exact (hsign _).conseq (fun _ _ => trivial) fun _ _ _ => id
  · exact ih.primary.conseq (fun _ _ => trivial) fun _ _ _ => id

/-- An operand that starts with the same token, given the levels below. -/
theorem primary_same (h : OperandReplaced env ts₁ ts₂ k s x) {fuel : Nat}
    (ih : LadderAgrees env ts₁ ts₂ k fuel) {a b : Token} (hab : a.spelling = b.spelling) :
    RelTriple SameError (fun st => ¬ a.opensOperand → st.pos ≠ k)
      (primaryFrom env ts₁ (parseLogicalOr env ts₁ fuel) fuel a)
      (primaryFrom env ts₂ (parseLogicalOr env ts₂ fuel) fuel b) (SameOperand k) := by
  obtain ⟨htype, hval⟩ := Prod.mk.inj hab
  unfold primaryFrom
  rw [htype, hval]
  have hno (hne : b.type ≠ .op ∧ b.type ≠ .paren) : ¬ a.opensOperand := by
    rintro ⟨ht, -⟩
    rw [htype] at ht
    exact ht.elim hne.1 hne.2
  cases hb : b.type with
  | num => exact .pure fun st hst => ⟨rfl, hst (hno (by simp [hb]))⟩
  | str => exact .pure fun st hst => ⟨rfl, hst (hno (by simp [hb]))⟩
  | ident =>
    exact (parseIdent_off h ih.or fuel _).conseq (fun st hst => hst (hno (by simp [hb])))
      fun _ _ _ => id
  | op => exact .fail rfl
  | eof => exact .fail rfl
  | paren =>
    refine (nested_any ?_).conseq (fun _ _ => trivial) fun _ _ _ => id
    split
    · exact parseArray_any h ih.or fuel
    split
    · exact .fail rfl
    · refine ih.or.bind fun v v' => .assume ?_
      rintro rfl
      exact (expectOp_off h).bind fun _ _ => .pure fun st hst => ⟨rfl, hst⟩

/-- An operand, given the levels below. -/
theorem primary_any (h : OperandReplaced env ts₁ ts₂ k s x) {fuel : Nat}
    (ih : LadderAgrees env ts₁ ts₂ k fuel) :
    RelTriple SameError AnyPos (parsePrimary env ts₁ (fuel + 1)) (parsePrimary env ts₂ (fuel + 1))
      (SameOperand k) := by
  rw [parsePrimary, parsePrimary]
  refine (next_operand h "type").bind fun a b => .or (.assume fun hab => primary_same h ih hab)
    (.assume fun hab st hst => ?_)
  obtain ⟨⟨ha, hav⟩, hb, hbv⟩ := hab.imp Prod.mk.inj Prod.mk.inj
  unfold primaryFrom
  rw [ha, hav, hb, hbv]
  simp only
  rw [parseIdent_bound h _ fuel hst]
  exact .ok ⟨rfl, by omega⟩

/-- Every level of the ladder agrees, on every fuel. -/
theorem ladderAgrees (h : OperandReplaced env ts₁ ts₂ k s x) (fuel : Nat) :
    LadderAgrees env ts₁ ts₂ k fuel := by
  induction fuel with
  | zero => exact ⟨.fail rfl, .fail rfl, .fail rfl, .fail rfl, .fail rfl, .fail rfl, .fail rfl⟩
  | succ fuel ih =>
    constructor
    case or => rw [parseLogicalOr, parseLogicalOr]; exact level_any h ih.and fuel
    case and => rw [parseLogicalAnd, parseLogicalAnd]; exact level_any h ih.comparison fuel
    case comparison => exact comparison_any h ih
    case additive => rw [parseAdditive, parseAdditive]; exact level_any h ih.multiplicative fuel
    case multiplicative =>
      rw [parseMultiplicative, parseMultiplicative]
      exact level_any h ih.unary fuel
    case unary => exact unary_any h ih
    case primary => exact primary_any h ih

/-- Two runs over lists of one length end alike. -/
theorem parseWith_same (h : OperandReplaced env ts₁ ts₂ k s x) (fuel : Nat) :
    RelTriple SameError AnyPos (parseWith env ts₁ fuel) (parseWith env ts₂ fuel)
      fun a b _ => a = b := by
  refine (ladderAgrees h fuel).or.bind fun v v' => .assume ?_
  rintro rfl
  refine (peek_off h.toReplaces "type").bind fun t t' => .assume fun ht => ?_
  obtain ⟨htype, hval⟩ := Prod.mk.inj ht
  rw [htype]
  split
  · refine .fail ?_
    rw [hval]
    rfl
  · exact .pure fun _ _ => rfl

end

end

/-- A left-associative level ends at a token that is none of its operators. -/
theorem level_end {N : Type} {ts : List Token} {isOp : String → Bool}
    {combine : String → JsVal N → JsVal N → JsVal N} {m : ParserM (JsVal N)} {fuel : Nat}
    {v : JsVal N} {t : Token} {st st' : PState} (hm : m st = (.ok v, st'))
    (ht : ts[st'.pos]? = some t) (hop : isOp t.value = false) :
    (do let left ← m; leftAssoc ts isOp m combine (fuel + 1) left : ParserM (JsVal N)) st
      = (.ok v, st') := by
  simp only [bind_apply, hm, leftAssoc, peek, ht, hop, Bool.false_eq_true, if_false, pure_apply]

/-- Lists that differ in one token have one length. -/
theorem Replaces.length_eq {ts₁ ts₂ : List Token} {k : Nat} {s x : String}
    (h : Replaces ts₁ ts₂ k s x) : ts₁.length = ts₂.length := by
  have hnone (i : Nat) : ts₁[i]? = none ↔ ts₂[i]? = none := by
    by_cases hi : i = k
    · obtain ⟨p, hp⟩ := h.literal
      obtain ⟨q, hq⟩ := h.identifier
      simp [hi, hp, hq]
    · have ho := h.others i hi
      cases h₁ : ts₁[i]? <;> cases h₂ : ts₂[i]? <;> simp_all
  simp only [List.getElem?_eq_none_iff] at hnone
  have h₁ := (hnone ts₁.length).1 (Nat.le_refl _)
  have h₂ := (hnone ts₂.length).2 (Nat.le_refl _)
  omega

/-! ## Transparency -/

section
variable {N : Type} [JsNumber N] {env : EvalEnv N} {e₁ e₂ : String} {k : Nat} {s x : String}

omit [JsNumber N] in
/-- The tokens of two expressions that differ in one operand. -/
theorem operandReplaced_tokenize (h : Replaces (tokenize e₁) (tokenize e₂) k s x)
    (ho : OperandAt (tokenize e₁) k) (hx : env.scope x = some (.str s)) (hkw : x ∉ keywords)
    (hs : s ∉ operandSpellings) :
    OperandReplaced env (tokenize e₁) (tokenize e₂) k s x := by
  obtain ⟨p, hp⟩ := h.literal
  obtain ⟨q, hq⟩ := h.identifier
  exact { h, ho with
    bound := hx
    notKeyword := hkw
    literalText := hs
    identText := tokenize_ident (List.mem_of_getElem? hq) rfl
    notLast := tokenize_str_next hp }

/-- Replacing a literal operand, other than the four spellings, changes a result at most in the
positions an error prints. -/
theorem parseExpression_replace (h : Replaces (tokenize e₁) (tokenize e₂) k s x)
    (ho : OperandAt (tokenize e₁) k) (hx : env.scope x = some (.str s)) (hkw : x ∉ keywords)
    (hs : s ∉ operandSpellings) :
    parseExpression env e₁ = parseExpression env e₂ ∨
      ∃ err₁ err₂, parseExpression env e₁ = .error err₁ ∧ parseExpression env e₂ = .error err₂ ∧
        SameError err₁ err₂ := by
  have hrun := parseWith_same (operandReplaced_tokenize h ho hx hkw hs)
    (parseFuel (tokenize e₁)) ⟨0, 0⟩ trivial
  have hfuel : parseFuel (tokenize e₂) = parseFuel (tokenize e₁) := by
    unfold parseFuel
    rw [h.length_eq]
  unfold parseExpression parse
  rw [hfuel]
  rcases hrun.result with ⟨a, b, h₁, h₂, rfl⟩ | hE
  · exact .inl (h₁.trans h₂.symm)
  · exact .inr hE

/-- The ladder over a lone literal reads it, unless it is one of the two prefix operators. -/
theorem parseLogicalOr_literal (env : EvalEnv N) (hm : s ≠ "-") (hb : s ≠ "!") (p n fuel : Nat) :
    parseLogicalOr env [⟨.str, s, p⟩, ⟨.eof, "", n⟩] (fuel + 7) ⟨0, 0⟩
      = (.ok (.str s), ⟨1, 0⟩) := by
  have heof : ([⟨.str, s, p⟩, ⟨.eof, "", n⟩] : List Token)[1]? = some ⟨.eof, "", n⟩ := rfl
  have hprimary (d : Nat) : parsePrimary env [⟨.str, s, p⟩, ⟨.eof, "", n⟩] (fuel + 1) ⟨0, d⟩
      = (.ok (.str s), ⟨1, d⟩) := by
    rw [parsePrimary]
    rfl
  have hunary : parseUnary env [⟨.str, s, p⟩, ⟨.eof, "", n⟩] (fuel + 2) ⟨0, 0⟩
      = (.ok (.str s), ⟨1, 0⟩) := by
    rw [parseUnary]
    simp [nested, bracket, enterNested, leaveNested, maxDepth, peek, bind_apply, hprimary, hm, hb]
  have hmul : parseMultiplicative env [⟨.str, s, p⟩, ⟨.eof, "", n⟩] (fuel + 3) ⟨0, 0⟩
      = (.ok (.str s), ⟨1, 0⟩) := by
    rw [parseMultiplicative]
    exact level_end hunary heof (by simp)
  have hadd : parseAdditive env [⟨.str, s, p⟩, ⟨.eof, "", n⟩] (fuel + 4) ⟨0, 0⟩
      = (.ok (.str s), ⟨1, 0⟩) := by
    rw [parseAdditive]
    exact level_end hmul heof (by simp)
  have hcmp : parseComparison env [⟨.str, s, p⟩, ⟨.eof, "", n⟩] (fuel + 5) ⟨0, 0⟩
      = (.ok (.str s), ⟨1, 0⟩) := by
    rw [parseComparison]
    simp [bind_apply, hadd, peek, comparisonOps]
  have hand : parseLogicalAnd env [⟨.str, s, p⟩, ⟨.eof, "", n⟩] (fuel + 6) ⟨0, 0⟩
      = (.ok (.str s), ⟨1, 0⟩) := by
    rw [parseLogicalAnd]
    exact level_end hcmp heof (by simp)
  rw [parseLogicalOr]
  exact level_end hand heof (by simp)

/-- A quoted literal on its own evaluates to its string, unless it is one of the two prefix
operators. -/
theorem parseExpression_quoteLiteral (env : EvalEnv N) (hm : s ≠ "-") (hb : s ≠ "!") :
    parseExpression env (quoteLiteral s) = .ok (.str s) := by
  obtain ⟨p, n, ht⟩ := tokenize_quoteLiteral s
  have hor := parseLogicalOr_literal env hm hb p n 17
  unfold parseExpression parse
  rw [ht]
  simp only [parseWith, parseFuel, List.length_cons, List.length_nil, bind_apply, hor, peek]
  rfl

end

/-- A string is transparent as a literal: in every expression that is accepted with the literal or
with the identifier, an identifier bound to the string can stand for the literal, and the literal
on its own evaluates to the string. -/
def LiteralTransparent (s : String) : Prop :=
  (∀ (N : Type) [JsNumber N] (env : EvalEnv N) (e₁ e₂ : String) (k : Nat) (x : String),
    Replaces (tokenize e₁) (tokenize e₂) k s x → OperandAt (tokenize e₁) k →
    env.scope x = some (.str s) → x ∉ keywords →
    Accepted (parseExpression env e₁) ∨ Accepted (parseExpression env e₂) →
    parseExpression env e₁ = parseExpression env e₂) ∧
  ∀ (N : Type) [JsNumber N] (env : EvalEnv N),
    parseExpression env (quoteLiteral s) = .ok (.str s)

/-- A scope with one string, bound to `x`, and a registry with one function, `f`. -/
def sampleEnv (s : String) : EvalEnv (Option Int) where
  scope name := if name == "x" then some (.str s) else none
  registry name := if name == "f" then some fun args => .ok (.arr args) else none

/-- The literals `'-'` and `'!'` are read as prefix operators without an operand. -/
theorem not_literalTransparent_prefix {s : String} (hs : s = "-" ∨ s = "!") :
    ¬ LiteralTransparent s := by
  intro h
  have h' := congrArg Except.isOk (h.2 (Option Int) (sampleEnv s))
  revert h'
  rcases hs with rfl | rfl <;> decide +kernel

/-- The call `f(')')` has no argument, and its closing parenthesis is left over. -/
theorem not_literalTransparent_paren : ¬ LiteralTransparent ")" := by
  intro h
  have h₁ : tokenize "f(')')" = [⟨.ident, "f", 1⟩, ⟨.paren, "(", 1⟩, ⟨.str, ")", 5⟩,
      ⟨.paren, ")", 5⟩, ⟨.eof, "", 6⟩] := by decide +kernel
  have h₂ : tokenize "f(x)" = [⟨.ident, "f", 1⟩, ⟨.paren, "(", 1⟩, ⟨.ident, "x", 3⟩,
      ⟨.paren, ")", 3⟩, ⟨.eof, "", 4⟩] := by decide +kernel
  have hrep : Replaces (tokenize "f(')')") (tokenize "f(x)") 2 ")" "x" := by
    rw [h₁, h₂]
    refine ⟨⟨5, rfl⟩, ⟨3, rfl⟩, fun i hi => ?_⟩
    match i, hi with
    | 0, _ | 1, _ | 3, _ | 4, _ | _ + 5, _ => rfl
  have hop : OperandAt (tokenize "f(')')") 2 := by
    rw [h₁]
    refine ⟨.inr ⟨_, rfl, .inr rfl, by decide, by decide, by decide⟩, ?_⟩
    rintro t ⟨⟩
    decide
  have hval := congrArg Except.isOk
    (h.1 (Option Int) (sampleEnv ")") _ _ 2 "x" hrep hop (by rfl) (by decide)
      (.inr (accepted_of_isOk (by decide +kernel))))
  revert hval
  decide +kernel

/-- The array `[']']` is empty, and its closing bracket is left over. -/
theorem not_literalTransparent_bracket : ¬ LiteralTransparent "]" := by
  intro h
  have h₁ : tokenize "[']']" = [⟨.paren, "[", 0⟩, ⟨.str, "]", 4⟩, ⟨.paren, "]", 4⟩,
      ⟨.eof, "", 5⟩] := by decide +kernel
  have h₂ : tokenize "[x]" = [⟨.paren, "[", 0⟩, ⟨.ident, "x", 2⟩, ⟨.paren, "]", 2⟩,
      ⟨.eof, "", 3⟩] := by decide +kernel
  have hrep : Replaces (tokenize "[']']") (tokenize "[x]") 1 "]" "x" := by
    rw [h₁, h₂]
    refine ⟨⟨4, rfl⟩, ⟨2, rfl⟩, fun i hi => ?_⟩
    match i, hi with
    | 0, _ | 2, _ | 3, _ | _ + 4, _ => rfl
  have hop : OperandAt (tokenize "[']']") 1 := by
    rw [h₁]
    refine ⟨.inr ⟨_, rfl, .inr rfl, by decide, by decide, by decide⟩, ?_⟩
    rintro t ⟨⟩
    decide
  have hval := congrArg Except.isOk
    (h.1 (Option Int) (sampleEnv "]") _ _ 1 "x" hrep hop (by rfl) (by decide)
      (.inr (accepted_of_isOk (by decide +kernel))))
  revert hval
  decide +kernel

/-- A string is transparent as a literal if and only if it is none of the prefix operators and
closing brackets the parser looks for where an operand may begin. -/
theorem literalTransparent_iff (s : String) : LiteralTransparent s ↔ s ∉ operandSpellings := by
  constructor
  · intro h hmem
    simp only [operandSpellings, List.mem_cons, List.not_mem_nil, or_false] at hmem
    rcases hmem with rfl | rfl | rfl | rfl
    · exact not_literalTransparent_prefix (.inl rfl) h
    · exact not_literalTransparent_prefix (.inr rfl) h
    · exact not_literalTransparent_paren h
    · exact not_literalTransparent_bracket h
  · intro hs
    refine ⟨fun N _ env e₁ e₂ k x hrep hop hx hkw hacc => ?_, fun N _ env => ?_⟩
    · rcases parseExpression_replace hrep hop hx hkw hs with h | ⟨err₁, err₂, h₁, h₂, hE⟩
      · exact h
      · rw [h₁, h₂] at hacc ⊢
        rw [hE.eq_of_isCallError hacc]
    · refine parseExpression_quoteLiteral env ?_ ?_ <;> rintro rfl <;>
        exact hs (by simp [operandSpellings])

/-- The literal `'-'` does not evaluate to its string: there is no string for every literal. -/
theorem not_forall_literalTransparent : ¬ ∀ s, LiteralTransparent s :=
  fun h => not_literalTransparent_prefix (.inl rfl) (h "-")

end HeadlessErp
