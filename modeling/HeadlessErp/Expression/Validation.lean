import HeadlessErp.Expression.Parser

/-!
# Validating an expression when it is saved

Guards and computed actions are validated by evaluating them once, on a scope without data
(`guardErrors`, `computeError`). The parser evaluates both operands of every operator, so which
tokens it consumes and which function it misses do not depend on values: two runs over one token
list on two scopes raise the same error or none (`Alike`). What passes the validation raises no
error on any record.
-/

namespace HeadlessErp

open StateExcept

section
variable {N : Type} [JsNumber N]

/-! ## Validation -/

/-- The functions an expression may call. -/
abbrev Registry (N : Type) := String → Option (List (JsVal N) → Except String (JsVal N))

/-- `validateExpressionComplexity`. -/
def validateExpressionComplexity (expression : String) : Option String :=
  if expression == "" then some "expression must be a non-empty string"
  else if jsLength expression > maxExpressionLength then
    some ("expression too long (" ++ toString (jsLength expression) ++ " chars, max "
      ++ toString maxExpressionLength ++ ")")
  else if (tokenize expression).length > maxExpressionTokens then
    some ("expression has too many tokens (" ++ toString (tokenize expression).length ++ ", max "
      ++ toString maxExpressionTokens ++ ")")
  else none

/-- A scope of empty objects. -/
def emptyScope (names : List String) (name : String) : Option (JsVal N) :=
  if names.contains name then some (.obj []) else none

/-- The errors that `validateDefinition` finds in the guard of a transition. -/
def guardErrors (registry : Registry N) (id guard : String) : List String :=
  if guard == "" then []
  else
    let complexity := (validateExpressionComplexity guard).map fun error =>
      "transition \"" ++ id ++ "\" guard " ++ error
    let evaluation := match evaluateWith ⟨emptyScope ["doc", "user"], registry⟩ guard with
      | .ok _ => none
      | .error e =>
        some ("transition \"" ++ id ++ "\" guard is not a valid expression: " ++ e.message)
    complexity.toList ++ evaluation.toList

/-- The error that `validateRules` finds in the expression of a compute action. -/
def computeError (registry : Registry N) (id expression : String) : Option String :=
  match validateExpressionComplexity expression with
  | some error => some ("rule \"" ++ id ++ "\" compute expression " ++ error)
  | none =>
    match evaluateWith ⟨emptyScope ["doc"], registry⟩ expression with
    | .ok _ => none
    | .error e => some ("rule \"" ++ id ++ "\" compute expression invalid: " ++ e.message)

/-- No function of a registry throws. -/
def Registry.Total (registry : Registry N) : Prop :=
  ∀ name f args, registry name = some f → ∃ v, f args = .ok v

/-! ## Runs on two scopes -/

/-- Run from one state, two computations raise one error or both return, and leave one state. -/
def Alike {α : Type} (m₁ m₂ : ParserM α) : Prop :=
  RelTriple (· = ·) (fun _ => True) m₁ m₂ fun _ _ _ => True

section
variable {α β : Type}

theorem Alike.pure (a b : α) : Alike (Pure.pure a) (Pure.pure b) :=
  RelTriple.pure fun _ _ => trivial

theorem Alike.fail (e : ExprError) : Alike (α := α) (fail e) (fail e) :=
  RelTriple.fail rfl

/-- Sequencing: the rest is alike whatever values the first parts return. -/
theorem Alike.bind {m₁ m₂ : ParserM α} {f₁ f₂ : α → ParserM β} (h : Alike m₁ m₂)
    (hf : ∀ a b, Alike (f₁ a) (f₂ b)) : Alike (m₁ >>= f₁) (m₂ >>= f₂) :=
  RelTriple.bind h hf

/-- A common first part returns one value. -/
theorem Alike.common (m : ParserM α) {f₁ f₂ : α → ParserM β} (hf : ∀ a, Alike (f₁ a) (f₂ a)) :
    Alike (m >>= f₁) (m >>= f₂) := by
  have hsame : RelTriple (· = ·) (fun _ => True) m m fun a b _ => a = b := by
    intro s _
    generalize m s = r
    rcases r with ⟨_ | a, s'⟩
    · exact .error rfl
    · exact .ok rfl
  refine RelTriple.bind hsame fun a b s hab => ?_
  subst hab
  exact hf a s trivial

theorem Alike.nested {m₁ m₂ : ParserM α} (h : Alike m₁ m₂) : Alike (nested m₁) (nested m₂) :=
  RelTriple.bracket (fun _ => rfl) (fun _ => id) h fun _ _ _ => id

end

variable {ts : List Token} {m₁ m₂ : ParserM (JsVal N)}

omit [JsNumber N] in
/-- The loop of a left-associative level. -/
theorem leftAssoc_alike {isOp : String → Bool} {combine : String → JsVal N → JsVal N → JsVal N}
    (hm : Alike m₁ m₂) (fuel : Nat) (left₁ left₂ : JsVal N) :
    Alike (leftAssoc ts isOp m₁ combine fuel left₁) (leftAssoc ts isOp m₂ combine fuel left₂) := by
  induction fuel generalizing left₁ left₂ with
  | zero => exact .fail _
  | succ fuel ih =>
    refine .common (peek ts "value") fun t => ?_
    split
    · exact .common (next ts "value") fun op => hm.bind fun _ _ => ih _ _
    · exact .pure _ _

omit [JsNumber N] in
/-- The loop of an array literal. -/
theorem arrayLoop_alike (hm : Alike m₁ m₂) (fuel : Nat) (arr₁ arr₂ : List (JsVal N)) :
    Alike (arrayLoop ts m₁ fuel arr₁) (arrayLoop ts m₂ fuel arr₂) := by
  induction fuel generalizing arr₁ arr₂ with
  | zero => exact .fail _
  | succ fuel ih =>
    refine hm.bind fun v₁ v₂ => .common (next ts "value") fun sep => ?_
    split
    · exact .pure _ _
    split
    · exact .common (peek ts "pos") fun t => .fail _
    · refine .common (peek ts "value") fun t => ?_
      split
      · exact .common (next ts "value") fun _ => .pure _ _
      · exact ih _ _

omit [JsNumber N] in
/-- The loop of an argument list. -/
theorem argsLoop_alike (hm : Alike m₁ m₂) (fuel : Nat) (args₁ args₂ : List (JsVal N)) :
    Alike (argsLoop ts m₁ fuel args₁) (argsLoop ts m₂ fuel args₂) := by
  induction fuel generalizing args₁ args₂ with
  | zero => exact .fail _
  | succ fuel ih =>
    refine .common (peek ts "value") fun t => ?_
    split
    · exact .common (next ts "value") fun _ => hm.bind fun _ _ => ih _ _
    · exact .pure _ _

omit [JsNumber N] in
/-- An array literal. -/
theorem parseArray_alike (hm : Alike m₁ m₂) (fuel : Nat) :
    Alike (parseArray ts m₁ fuel) (parseArray ts m₂ fuel) := by
  refine .common (peek ts "value") fun t => ?_
  split
  · exact .common (next ts "value") fun _ => .pure _ _
  · exact arrayLoop_alike hm fuel [] []

omit [JsNumber N] in
/-- An argument list. -/
theorem parseArgs_alike (hm : Alike m₁ m₂) (fuel : Nat) :
    Alike (parseArgs ts m₁ fuel) (parseArgs ts m₂ fuel) := by
  have hlist : Alike (argList ts m₁ fuel) (argList ts m₂ fuel) := by
    refine .common (peek ts "value") fun t => ?_
    split
    · exact hm.bind fun v₁ v₂ => argsLoop_alike hm fuel [v₁] [v₂]
    · exact .pure _ _
  exact (hlist.bind fun _ _ => .common (expectOp ts ")") fun _ => .pure _ _).nested

variable {registry : Registry N} {scope₁ scope₂ : String → Option (JsVal N)}

/-- A call: whether the function is known does not depend on its arguments. -/
theorem callFunction_alike (hregistry : registry.Total) (name : String)
    (args₁ args₂ : List (JsVal N)) :
    Alike (callFunction ⟨scope₁, registry⟩ name args₁) (callFunction ⟨scope₂, registry⟩ name args₂) := by
  unfold callFunction
  dsimp only
  cases hname : registry name with
  | some f =>
    obtain ⟨v₁, hv₁⟩ := hregistry name f args₁ hname
    obtain ⟨v₂, hv₂⟩ := hregistry name f args₂ hname
    dsimp only
    rw [hv₁, hv₂]
    exact .pure _ _
  | none =>
    cases mathName name with
    | some m =>
      dsimp only
      split
      · exact .pure _ _
      · exact .fail _
    | none => exact .fail _

/-- What follows an identifier. -/
theorem parseIdent_alike (hregistry : registry.Total) (hm : Alike m₁ m₂) (fuel : Nat)
    (name : String) : Alike (parseIdent ⟨scope₁, registry⟩ ts m₁ fuel name)
      (parseIdent ⟨scope₂, registry⟩ ts m₂ fuel name) := by
  have hcall (name : String) : Alike
      (do let _ ← next ts "value"
          let args ← parseArgs ts m₁ fuel
          callFunction ⟨scope₁, registry⟩ name args)
      (do let _ ← next ts "value"
          let args ← parseArgs ts m₂ fuel
          callFunction ⟨scope₂, registry⟩ name args) :=
    .common (next ts "value") fun _ => (parseArgs_alike hm fuel).bind fun args₁ args₂ =>
      callFunction_alike hregistry name args₁ args₂
  refine .common (peek ts "value") fun p => ?_
  split
  · refine .common (next ts "value") fun _ => .common (next ts "type") fun member => ?_
    split
    · exact .fail _
    · refine .common (peek ts "value") fun q => ?_
      split
      · exact hcall _
      · exact .pure _ _
  split
  · exact hcall _
  split
  · exact .pure _ _
  split
  · exact .pure _ _
  split
  · exact .pure _ _
  · exact .pure _ _

/-- The levels of the ladder are alike on two scopes. -/
structure LadderAlike (registry : Registry N) (scope₁ scope₂ : String → Option (JsVal N))
    (ts : List Token) (fuel : Nat) : Prop where
  or : Alike (parseLogicalOr ⟨scope₁, registry⟩ ts fuel) (parseLogicalOr ⟨scope₂, registry⟩ ts fuel)
  and : Alike (parseLogicalAnd ⟨scope₁, registry⟩ ts fuel)
    (parseLogicalAnd ⟨scope₂, registry⟩ ts fuel)
  comparison : Alike (parseComparison ⟨scope₁, registry⟩ ts fuel)
    (parseComparison ⟨scope₂, registry⟩ ts fuel)
  additive : Alike (parseAdditive ⟨scope₁, registry⟩ ts fuel)
    (parseAdditive ⟨scope₂, registry⟩ ts fuel)
  multiplicative : Alike (parseMultiplicative ⟨scope₁, registry⟩ ts fuel)
    (parseMultiplicative ⟨scope₂, registry⟩ ts fuel)
  unary : Alike (parseUnary ⟨scope₁, registry⟩ ts fuel) (parseUnary ⟨scope₂, registry⟩ ts fuel)
  primary : Alike (parsePrimary ⟨scope₁, registry⟩ ts fuel)
    (parsePrimary ⟨scope₂, registry⟩ ts fuel)

section
variable {fuel : Nat} (ih : LadderAlike registry scope₁ scope₂ ts fuel)
include ih

omit [JsNumber N] in
omit ih in
/-- A left-associative level. -/
theorem level_alike {isOp : String → Bool} {combine : String → JsVal N → JsVal N → JsVal N}
    (hm : Alike m₁ m₂) (fuel : Nat) :
    Alike (do let left ← m₁; leftAssoc ts isOp m₁ combine fuel left)
      (do let left ← m₂; leftAssoc ts isOp m₂ combine fuel left) :=
  hm.bind fun left₁ left₂ => leftAssoc_alike hm fuel left₁ left₂

/-- A comparison, given the levels below. -/
theorem comparison_alike : Alike (parseComparison ⟨scope₁, registry⟩ ts (fuel + 1))
    (parseComparison ⟨scope₂, registry⟩ ts (fuel + 1)) := by
  rw [parseComparison, parseComparison]
  refine ih.additive.bind fun left₁ left₂ => .common (peek ts "value") fun op => ?_
  split
  · exact .common (next ts "value") fun _ => ih.additive.bind fun _ _ => .pure _ _
  · exact .pure _ _

/-- A prefix operator, given the levels below. -/
theorem unary_alike : Alike (parseUnary ⟨scope₁, registry⟩ ts (fuel + 1))
    (parseUnary ⟨scope₂, registry⟩ ts (fuel + 1)) := by
  rw [parseUnary, parseUnary]
  refine Alike.nested (.common (peek ts "value") fun t => ?_)
  split
  · exact .common (next ts "value") fun _ => ih.unary.bind fun _ _ => .pure _ _
  split
  · exact .common (next ts "value") fun _ => ih.unary.bind fun _ _ => .pure _ _
  · exact ih.primary

/-- An operand, given the levels below. -/
theorem primary_alike (hregistry : registry.Total) :
    Alike (parsePrimary ⟨scope₁, registry⟩ ts (fuel + 1))
      (parsePrimary ⟨scope₂, registry⟩ ts (fuel + 1)) := by
  rw [parsePrimary, parsePrimary]
  refine .common (next ts "type") fun t => ?_
  unfold primaryFrom
  cases t.type with
  | num => exact .pure _ _
  | str => exact .pure _ _
  | paren =>
    refine Alike.nested ?_
    split
    · exact parseArray_alike ih.or fuel
    split
    · exact .fail _
    · exact ih.or.bind fun _ _ => .common (expectOp ts ")") fun _ => .pure _ _
  | ident => exact parseIdent_alike hregistry ih.or fuel t.value
  | op => exact .fail _
  | eof => exact .fail _

end

/-- Every level is alike on two scopes. -/
theorem ladderAlike (hregistry : registry.Total) (fuel : Nat) :
    LadderAlike registry scope₁ scope₂ ts fuel := by
  induction fuel with
  | zero => constructor <;> exact .fail .outOfFuel
  | succ fuel ih =>
    constructor
    case or => rw [parseLogicalOr, parseLogicalOr]; exact level_alike ih.and fuel
    case and => rw [parseLogicalAnd, parseLogicalAnd]; exact level_alike ih.comparison fuel
    case comparison => exact comparison_alike ih
    case additive => rw [parseAdditive, parseAdditive]; exact level_alike ih.multiplicative fuel
    case multiplicative =>
      rw [parseMultiplicative, parseMultiplicative]
      exact level_alike ih.unary fuel
    case unary => exact unary_alike ih
    case primary => exact primary_alike ih hregistry

/-- The parser's runs on two scopes raise the same error, or none. -/
theorem parseExpression_alike (hregistry : registry.Total)
    (scope₁ scope₂ : String → Option (JsVal N)) (expression : String) :
    (∃ v₁ v₂, parseExpression ⟨scope₁, registry⟩ expression = .ok v₁ ∧
      parseExpression ⟨scope₂, registry⟩ expression = .ok v₂) ∨
    ∃ e, parseExpression ⟨scope₁, registry⟩ expression = .error e ∧
      parseExpression ⟨scope₂, registry⟩ expression = .error e := by
  have hparse : Alike
      (parseWith ⟨scope₁, registry⟩ (tokenize expression) (parseFuel (tokenize expression)))
      (parseWith ⟨scope₂, registry⟩ (tokenize expression) (parseFuel (tokenize expression))) := by
    refine (ladderAlike hregistry _).or.bind fun v₁ v₂ => .common (peek _ "type") fun t => ?_
    split
    · exact .fail _
    · exact .pure _ _
  obtain ⟨v₁, v₂, h₁, h₂, -⟩ | ⟨e₁, e₂, h₁, h₂, rfl⟩ := (hparse ⟨0, 0⟩ trivial).result
  · exact .inl ⟨v₁, v₂, h₁, h₂⟩
  · exact .inr ⟨e₁, h₁, h₂⟩

/-- Evaluating on two scopes returns or raises the same error. -/
theorem evaluateWith_alike (hregistry : registry.Total)
    (scope₁ scope₂ : String → Option (JsVal N)) (expression : String) :
    (∃ v₁ v₂, evaluateWith ⟨scope₁, registry⟩ expression = .ok v₁ ∧
      evaluateWith ⟨scope₂, registry⟩ expression = .ok v₂) ∨
    ∃ e, evaluateWith ⟨scope₁, registry⟩ expression = .error e ∧
      evaluateWith ⟨scope₂, registry⟩ expression = .error e := by
  unfold evaluateWith
  simp only [bind, Except.bind]
  cases assertComplexity expression with
  | error e => exact .inr ⟨e, rfl, rfl⟩
  | ok _ => exact parseExpression_alike hregistry scope₁ scope₂ expression

/-! ## Soundness -/

/-- A guard without errors evaluates on the scope of the validation. -/
theorem exists_of_guardErrors {id guard : String} (hguard : guard ≠ "")
    (h : guardErrors registry id guard = []) :
    ∃ v, evaluateWith ⟨emptyScope ["doc", "user"], registry⟩ guard = .ok v := by
  unfold guardErrors at h
  rw [if_neg (by simpa using hguard)] at h
  have hevaluation := (List.append_eq_nil_iff.1 h).2
  cases he : evaluateWith ⟨emptyScope ["doc", "user"], registry⟩ guard with
  | ok v => exact ⟨v, rfl⟩
  | error e =>
    rw [he] at hevaluation
    cases hevaluation

/-- A compute action without an error evaluates on the scope of the validation. -/
theorem exists_of_computeError {id expression : String}
    (h : computeError registry id expression = none) :
    ∃ v, evaluateWith ⟨emptyScope ["doc"], registry⟩ expression = .ok v := by
  unfold computeError at h
  cases hcomplexity : validateExpressionComplexity expression with
  | some error =>
    rw [hcomplexity] at h
    cases h
  | none =>
    rw [hcomplexity] at h
    dsimp only at h
    cases he : evaluateWith ⟨emptyScope ["doc"], registry⟩ expression with
    | ok v => exact ⟨v, rfl⟩
    | error e =>
      rw [he] at h
      cases h

/-- A registry with one function, which returns its arguments. -/
def listRegistry : Registry (Option Int) := fun name =>
  if name == "LIST" then some fun args => .ok (.arr args) else none

theorem listRegistry_total : listRegistry.Total := by
  intro name f args h
  unfold listRegistry at h
  split at h
  · cases h
    exact ⟨_, rfl⟩
  · cases h

end

end HeadlessErp
