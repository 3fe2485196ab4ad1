import HeadlessErp.Base.StateExcept
import HeadlessErp.Expression.Tokenizer

/-!
# The expression parser

The recursive-descent evaluator of `packages/core/src/entity/expression/parser.ts`. It evaluates
while it parses: each level of the precedence ladder returns the value of what it has read. The
parser's state is its token position and its nesting depth; both survive an exception, as the
fields of the class do, so a computation returns its state beside its value or error.

The levels recurse on fuel, one unit for every call, and `Parser.parse` starts with more than the
token list can use. Reading past the end token is the type error JavaScript raises for a property
of `undefined`.
-/

namespace HeadlessErp

/-! ## Errors -/

/-- What evaluating an expression can raise. -/
inductive ExprError where
  | tooDeep
  | expected (op : String) (pos : Nat) (got : String)
  | unexpectedToken (value : String) (pos : Nat)
  | unexpected (value : String)
  | expectedMember
  | expectedSeparator (pos : Nat)
  | unknownFunction (name : String)
  | thrown (message : String)
  | typeError (property : String)
  | tooLong (length : Nat)
  | tooManyTokens (count : Nat)
  | outOfFuel
  deriving DecidableEq, Repr

/-- `Parser.MAX_DEPTH`. -/
def maxDepth : Nat := 100

/-- `MAX_EXPRESSION_LENGTH`. -/
def maxExpressionLength : Nat := 2048

/-- `MAX_EXPRESSION_TOKENS`. -/
def maxExpressionTokens : Nat := 256

/-- The text of an error. -/
def ExprError.message : ExprError → String
  | tooDeep => "Expression too deeply nested (max " ++ toString maxDepth ++ " levels)"
  | expected op pos got =>
    "Expected \"" ++ op ++ "\" at position " ++ toString pos ++ ", got \"" ++ got ++ "\""
  | unexpectedToken value pos =>
    "Unexpected token \"" ++ value ++ "\" at position " ++ toString pos
  | unexpected value => "Unexpected \"" ++ value ++ "\""
  | expectedMember => "Expected member name"
  | expectedSeparator pos => "Expected \",\" or \"]\" in array at position " ++ toString pos
  | unknownFunction name => "Unknown function \"" ++ name ++ "\""
  | thrown message => message
  | typeError property =>
    "Cannot read properties of undefined (reading '" ++ property ++ "')"
  | tooLong length =>
    "Expression too long (" ++ toString length ++ " chars, max " ++ toString maxExpressionLength
      ++ ")"
  | tooManyTokens count =>
    "Expression has too many tokens (" ++ toString count ++ ", max "
      ++ toString maxExpressionTokens ++ ")"
  | outOfFuel => ""

/-- An error raised by a call, not by the parser: the expression itself was accepted up to it. -/
def ExprError.isCallError : ExprError → Bool
  | unknownFunction _ | thrown _ => true
  | _ => false

/-! ## The parser's computations -/

/-- The mutable fields of a parser. -/
structure PState where
  pos : Nat
  depth : Nat
  deriving DecidableEq, Repr

/-- A computation of the parser: it throws or returns, and leaves its fields either way. -/
abbrev ParserM : Type → Type := StateExcept ExprError PState

/-- `enterNested`. The increment stands when the check throws. -/
def enterNested (s : PState) : Except ExprError Unit × PState :=
  let s' : PState := { s with depth := s.depth + 1 }
  (if s'.depth > maxDepth then .error .tooDeep else .ok (), s')

/-- `leaveNested`. -/
def leaveNested (s : PState) : PState := { s with depth := s.depth - 1 }

/-- `enterNested`, then the body with `leaveNested` in its `finally`. -/
def nested {α : Type} (m : ParserM α) : ParserM α :=
  StateExcept.bracket enterNested leaveNested m

/-! ## Values -/

/-- The names and functions an expression is evaluated against: the scope's own properties and the
function registry. -/
structure EvalEnv (N : Type) where
  scope : String → Option (JsVal N)
  registry : String → Option (List (JsVal N) → Except String (JsVal N))

section
variable {N : Type} [JsNumber N]

/-- `toNumber`. -/
def toNumber : JsVal N → N
  | .num n => n
  | .bool b => JsNumber.ofInt (if b then 1 else 0)
  | v =>
    let n := v.toNum
    if JsNumber.isNaN n then JsNumber.ofInt 0 else n

/-- The regular expression `^\d{4}-\d{2}-\d{2}`. -/
def startsWithIsoDate (s : String) : Bool :=
  match s.toList with
  | a :: b :: c :: d :: '-' :: e :: f :: '-' :: g :: h :: _ =>
    [a, b, c, d, e, f, g, h].all isDigit
  | _ => false

/-- The three-way result of `a < b ? -1 : a > b ? 1 : 0` on strings. -/
def strOrder (a b : String) : Ordering :=
  if strLt a b then .lt else if strLt b a then .gt else .eq

/-- `compare`: ISO dates as text, numbers as numbers, anything else as text. -/
def compareVals (left right : JsVal N) : Ordering :=
  let ls := (left.orElse (.str "")).toStr
  let rs := (right.orElse (.str "")).toStr
  if startsWithIsoDate ls && startsWithIsoDate rs then strOrder ls rs
  else
    let ln := left.toNum
    let rn := right.toNum
    if !JsNumber.isNaN ln && !JsNumber.isNaN rn then
      if JsNumber.lt ln rn then .lt else if JsNumber.lt rn ln then .gt else .eq
    else strOrder ls rs

/-- `eq`. The identity test that opens the source's function is subsumed by the last line: two
operands that are one value have one text. -/
def eqVals (a b : JsVal N) : Bool :=
  if a.isNullish then b.isNullish
  else if b.isNullish then false
  else
    let an := a.toNum
    let bn := b.toNum
    (!JsNumber.isNaN an && !JsNumber.isNaN bn && JsNumber.eq an bn) || a.toStr == b.toStr

/-- The operators of `parseComparison`. -/
def comparisonOps : List String := ["==", "!=", "<", "<=", ">", ">="]

/-- The `switch` of `parseComparison`. -/
def applyComparison (op : String) (left right : JsVal N) : JsVal N :=
  match op with
  | "==" => .bool (eqVals left right)
  | "!=" => .bool (!eqVals left right)
  | "<" => .bool (compareVals left right == .lt)
  | "<=" => .bool (compareVals left right != .gt)
  | ">" => .bool (compareVals left right == .gt)
  | ">=" => .bool (compareVals left right != .lt)
  | _ => left

/-- The step of the loop of `parseLogicalOr`. -/
def applyOr (_op : String) (left right : JsVal N) : JsVal N :=
  .bool (left.truthy || right.truthy)

/-- The step of the loop of `parseLogicalAnd`. -/
def applyAnd (_op : String) (left right : JsVal N) : JsVal N :=
  .bool (left.truthy && right.truthy)

/-- The step of the loop of `parseAdditive`. -/
def applyAdditive (op : String) (left right : JsVal N) : JsVal N :=
  if op == "+" then .num (JsNumber.add (toNumber left) (toNumber right))
  else .num (JsNumber.sub (toNumber left) (toNumber right))

/-- The step of the loop of `parseMultiplicative`. -/
def applyMultiplicative (op : String) (left right : JsVal N) : JsVal N :=
  if op == "*" then .num (JsNumber.mul (toNumber left) (toNumber right))
  else if op == "/" then .num (JsNumber.div (toNumber left) (toNumber right))
  else .num (JsNumber.rem (toNumber left) (toNumber right))

/-- `Parser.MATH_FUNCTIONS`. -/
def mathFunctions : List String :=
  ["abs", "ceil", "floor", "round", "max", "min", "pow", "sqrt", "sign", "trunc", "exp", "log",
   "log10", "log2", "sin", "cos", "tan", "asin", "acos", "atan", "atan2", "hypot", "cbrt",
   "expm1", "log1p", "sinh", "cosh", "tanh", "asinh", "acosh", "atanh"]

/-- `name.slice(5)` when the name starts with `Math.`. -/
def mathName (name : String) : Option String :=
  if "Math.".toList.isPrefixOf name.toList then some (String.ofList (name.toList.drop 5)) else none

variable (env : EvalEnv N)

/-- `callFunction`. -/
def callFunction (name : String) (args : List (JsVal N)) : ParserM (JsVal N) :=
  match env.registry name with
  | some fn =>
    match fn args with
    | .ok v => pure v
    | .error message => StateExcept.fail (.thrown message)
  | none =>
    match mathName name with
    | some m =>
      if mathFunctions.contains m then pure (.num (JsNumber.math m (args.map toNumber)))
      else StateExcept.fail (.unknownFunction name)
    | none => StateExcept.fail (.unknownFunction name)

/-- `resolveIdentifier`. -/
def resolveIdentifier (name : String) : JsVal N :=
  (env.scope name).getD .undefined

/-- `resolveMember`. -/
def resolveMember (base member : String) : JsVal N :=
  let baseVal := resolveIdentifier env base
  if baseVal.truthy && baseVal.isObject then baseVal.getMember member else .undefined

/-! ## The precedence ladder -/

variable (tokens : List Token)

/-- `this.peek()`, of which some property is read. -/
def peek (property : String) : ParserM Token := fun s =>
  match tokens[s.pos]? with
  | some t => (.ok t, s)
  | none => (.error (.typeError property), s)

/-- `this.next()`, of which some property is read. -/
def next (property : String) : ParserM Token := fun s =>
  match tokens[s.pos]? with
  | some t => (.ok t, { s with pos := s.pos + 1 })
  | none => (.error (.typeError property), { s with pos := s.pos + 1 })

/-- `expectOp`. -/
def expectOp (op : String) : ParserM Unit := do
  let t ← next tokens "value"
  if t.value != op then StateExcept.fail (.expected op t.pos t.value)

/-- The loop of the left-associative levels: while the next token spells one of the level's
operators, read the right operand and combine. -/
def leftAssoc (isOp : String → Bool) (operand : ParserM (JsVal N))
    (combine : String → JsVal N → JsVal N → JsVal N) : Nat → JsVal N → ParserM (JsVal N)
  | 0, _ => StateExcept.fail .outOfFuel
  | fuel + 1, left => do
    let t ← peek tokens "value"
    if isOp t.value then
      let op ← next tokens "value"
      let right ← operand
      leftAssoc isOp operand combine fuel (combine op.value left right)
    else pure left

/-- The loop of `parseArray` after the opening bracket. -/
def arrayLoop (element : ParserM (JsVal N)) : Nat → List (JsVal N) → ParserM (JsVal N)
  | 0, _ => StateExcept.fail .outOfFuel
  | fuel + 1, arr => do
    let v ← element
    let sep ← next tokens "value"
    if sep.value == "]" then pure (.arr (arr ++ [v]))
    else if sep.value != "," then
      let t ← peek tokens "pos"
      StateExcept.fail (.expectedSeparator t.pos)
    else
      let t ← peek tokens "value"
      if t.value == "]" then
        let _ ← next tokens "value"
        pure (.arr (arr ++ [v]))
      else arrayLoop element fuel (arr ++ [v])

/-- The loop of `parseArgs` after the first argument. -/
def argsLoop (argument : ParserM (JsVal N)) : Nat → List (JsVal N) → ParserM (List (JsVal N))
  | 0, _ => StateExcept.fail .outOfFuel
  | fuel + 1, args => do
    let t ← peek tokens "value"
    if t.value == "," then
      let _ ← next tokens "value"
      let v ← argument
      argsLoop argument fuel (args ++ [v])
    else pure args

/-- `parseArray`. -/
def parseArray (element : ParserM (JsVal N)) (fuel : Nat) : ParserM (JsVal N) := do
  let t ← peek tokens "value"
  if t.value == "]" then
    let _ ← next tokens "value"
    pure (.arr [])
  else arrayLoop tokens element fuel []

/-- The arguments of `parseArgs` before the closing parenthesis. -/
def argList (argument : ParserM (JsVal N)) (fuel : Nat) : ParserM (List (JsVal N)) := do
  let t ← peek tokens "value"
  if t.value != ")" then
    let v ← argument
    argsLoop tokens argument fuel [v]
  else pure []

/-- `parseArgs`. -/
def parseArgs (argument : ParserM (JsVal N)) (fuel : Nat) : ParserM (List (JsVal N)) :=
  nested do
    let args ← argList tokens argument fuel
    expectOp tokens ")"
    pure args

/-- The identifier case of `parsePrimary`, after the identifier: member access, a call, a keyword
or a field of the scope. -/
def parseIdent (argument : ParserM (JsVal N)) (fuel : Nat) (name : String) :
    ParserM (JsVal N) := do
  let p ← peek tokens "value"
  if p.value == "." && p.type == .op then
    let _ ← next tokens "value"
    let member ← next tokens "type"
    if member.type != .ident then StateExcept.fail .expectedMember
    else
      let q ← peek tokens "value"
      if q.value == "(" then
        let _ ← next tokens "value"
        let args ← parseArgs tokens argument fuel
        callFunction env (name ++ "." ++ member.value) args
      else pure (resolveMember env name member.value)
  else if p.value == "(" then
    let _ ← next tokens "value"
    let args ← parseArgs tokens argument fuel
    callFunction env name args
  else if name == "true" then pure (.bool true)
  else if name == "false" then pure (.bool false)
  else if name == "null" then pure .null
  else pure (resolveIdentifier env name)

/-- The `switch` of `parsePrimary`, on the token it has consumed. -/
def primaryFrom (expression : ParserM (JsVal N)) (fuel : Nat) (t : Token) : ParserM (JsVal N) :=
  match t.type with
  | .num => pure (.num (JsNumber.parseFloat t.value))
  | .str => pure (.str t.value)
  | .paren => nested do
    if t.value == "[" then parseArray tokens expression fuel
    else if t.value != "(" then StateExcept.fail (.unexpected t.value)
    else
      let value ← expression
      expectOp tokens ")"
      pure value
  | .ident => parseIdent env tokens expression fuel t.value
  | .op | .eof => StateExcept.fail (.unexpectedToken t.value t.pos)

mutual
/-- `parseLogicalOr`. -/
def parseLogicalOr : Nat → ParserM (JsVal N)
  | 0 => StateExcept.fail .outOfFuel
  | fuel + 1 => do
    let left ← parseLogicalAnd fuel
    leftAssoc tokens (· == "||") (parseLogicalAnd fuel) applyOr fuel left

/-- `parseLogicalAnd`. -/
def parseLogicalAnd : Nat → ParserM (JsVal N)
  | 0 => StateExcept.fail .outOfFuel
  | fuel + 1 => do
    let left ← parseComparison fuel
    leftAssoc tokens (· == "&&") (parseComparison fuel) applyAnd fuel left

/-- `parseComparison`. -/
def parseComparison : Nat → ParserM (JsVal N)
  | 0 => StateExcept.fail .outOfFuel
  | fuel + 1 => do
    let left ← parseAdditive fuel
    let op ← peek tokens "value"
    if comparisonOps.contains op.value then
      let _ ← next tokens "value"
      let right ← parseAdditive fuel
      pure (applyComparison op.value left right)
    else pure left

/-- `parseAdditive`. -/
def parseAdditive : Nat → ParserM (JsVal N)
  | 0 => StateExcept.fail .outOfFuel
  | fuel + 1 => do
    let left ← parseMultiplicative fuel
    leftAssoc tokens (["+", "-"].contains ·) (parseMultiplicative fuel) applyAdditive fuel left

/-- `parseMultiplicative`. -/
def parseMultiplicative : Nat → ParserM (JsVal N)
  | 0 => StateExcept.fail .outOfFuel
  | fuel + 1 => do
    let left ← parseUnary fuel
    leftAssoc tokens (["*", "/", "%"].contains ·) (parseUnary fuel) applyMultiplicative fuel left

/-- `parseUnary`. -/
def parseUnary : Nat → ParserM (JsVal N)
  | 0 => StateExcept.fail .outOfFuel
  | fuel + 1 => nested do
    let t ← peek tokens "value"
    if t.value == "-" then
      let _ ← next tokens "value"
      let v ← parseUnary fuel
      pure (.num (JsNumber.neg (toNumber v)))
    else if t.value == "!" then
      let _ ← next tokens "value"
      let v ← parseUnary fuel
      pure (.bool (!v.truthy))
    else parsePrimary fuel

/-- `parsePrimary`. -/
def parsePrimary : Nat → ParserM (JsVal N)
  | 0 => StateExcept.fail .outOfFuel
  | fuel + 1 => do
    let t ← next tokens "type"
    primaryFrom env tokens (parseLogicalOr fuel) fuel t
end

/-- `parse`, run on a fuel. -/
def parseWith (fuel : Nat) : ParserM (JsVal N) := do
  let value ← parseLogicalOr env tokens fuel
  let t ← peek tokens "type"
  if t.type != .eof then StateExcept.fail (.unexpectedToken t.value t.pos)
  else pure value

/-- The fuel a token list can use: eight calls deep for every token. -/
def parseFuel (tokens : List Token) : Nat := 8 * tokens.length + 8

/-- `parse`, from a fresh parser. -/
def parse : Except ExprError (JsVal N) × PState :=
  parseWith env tokens (parseFuel tokens) ⟨0, 0⟩

end

/-! ## Evaluation -/

/-- `assertComplexity`. -/
def assertComplexity (expression : String) : Except ExprError Unit :=
  if jsLength expression > maxExpressionLength then .error (.tooLong (jsLength expression))
  else if (tokenize expression).length > maxExpressionTokens then
    .error (.tooManyTokens (tokenize expression).length)
  else .ok ()

section
variable {N : Type} [JsNumber N] (env : EvalEnv N)

/-- `new Parser(tokenize(expression), scope).parse()`. -/
def parseExpression (expression : String) : Except ExprError (JsVal N) :=
  (parse env (tokenize expression)).1

/-- `evaluateWith`. -/
def evaluateWith (expression : String) : Except ExprError (JsVal N) := do
  assertComplexity expression
  parseExpression env expression

end

end HeadlessErp
