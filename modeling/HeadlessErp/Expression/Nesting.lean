import HeadlessErp.Expression.Totality

/-!
# Where the parser leaves its input or its depth

What an expression's brackets and operators are is read off its tokens from left to right, with a
stack of what is open (`scan`): whether the text is an expression, has a syntax error, opens more than
the parser's depth, or ends where the parser asks for one more token. The last is an array that ends
right after an element: the loop consumes the end token as a separator, and reports the position of
the token behind it. The parser follows the scan, token by token (`LadderTracks`), so it is safe on a
text just where the scan finds neither (`safe_iff`).
-/

namespace HeadlessErp.Nesting

open StateExcept

/-! ## The scan -/

/-- What is open around a place of a text: a prefix operator, or a bracket, with whether the
expression around it has a comparison already. -/
inductive Frame where
  | unary
  | paren (compared : Bool)
  | array (compared : Bool)
  | args (compared : Bool)

/-- What may come: an operand, or something after one; after a name, a dot, and the member behind it;
an element or the end of an array, an argument or the end of the arguments; and what is left to read
after a wrong separator. -/
inductive Mode where
  | operand
  | after
  | name
  | member
  | method
  | element
  | argument
  | separator
  deriving DecidableEq

/-- How a scan ends. -/
inductive Verdict where
  | done
  | syntaxError
  | tooDeep
  | pastEnd
  deriving DecidableEq

/-- The state of a scan. -/
structure Config where
  mode : Mode
  compared : Bool
  stack : List Frame

/-- How many nested calls of the parser stand for a frame. -/
def Frame.levels : Frame → Nat
  | unary => 1
  | _ => 2

/-- The depth of the parser inside a stack. -/
def depthOf : List Frame → Nat
  | [] => 0
  | frame :: stack => depthOf stack + frame.levels

/-- The stack after an operand: the prefix operators before it are applied. -/
def settle : List Frame → List Frame
  | .unary :: stack => settle stack
  | stack => stack

/-- Operators that leave the comparison around them open. -/
def arithmeticOps : List String := ["+", "-", "*", "/", "%"]

/-- Operators behind which another comparison may stand. -/
def logicalOps : List String := ["||", "&&"]

/-- The token at an operand's place. -/
def operandStep (t : Token) (compared : Bool) (stack : List Frame) : Except Verdict Config :=
  if maxDepth < depthOf stack + 1 then .error .tooDeep
  else if t.value == "-" || t.value == "!" then .ok ⟨.operand, compared, .unary :: stack⟩
  else
    match t.type with
    | .num | .str => .ok ⟨.after, compared, settle stack⟩
    | .ident => .ok ⟨.name, compared, stack⟩
    | .paren =>
      if maxDepth < depthOf stack + 2 then .error .tooDeep
      else if t.value == "[" then .ok ⟨.element, false, .array compared :: stack⟩
      else if t.value == "(" then .ok ⟨.operand, false, .paren compared :: stack⟩
      else .error .syntaxError
    | .op | .eof => .error .syntaxError

/-- The token behind an operand that no operator takes up. -/
def closeStep (t : Token) : List Frame → Except Verdict Config
  | [] => .error (if t.type == .eof then .done else .syntaxError)
  | .unary :: _ => .error .syntaxError
  | .paren compared :: stack =>
    if t.value == ")" then .ok ⟨.after, compared, settle stack⟩ else .error .syntaxError
  | .array compared :: stack =>
    if t.value == "]" then .ok ⟨.after, compared, settle stack⟩
    else if t.value == "," then .ok ⟨.element, false, .array compared :: stack⟩
    else .ok ⟨.separator, false, []⟩
  | .args compared :: stack =>
    if t.value == "," then .ok ⟨.operand, false, .args compared :: stack⟩
    else if t.value == ")" then .ok ⟨.after, compared, settle stack⟩
    else .error .syntaxError

/-- The token behind an operand. -/
def afterStep (t : Token) (compared : Bool) (stack : List Frame) : Except Verdict Config :=
  if arithmeticOps.contains t.value then .ok ⟨.operand, compared, stack⟩
  else if logicalOps.contains t.value then .ok ⟨.operand, false, stack⟩
  else if !compared && comparisonOps.contains t.value then .ok ⟨.operand, true, stack⟩
  else closeStep t stack

/-- The parenthesis of a call. -/
def callStep (compared : Bool) (stack : List Frame) : Except Verdict Config :=
  if maxDepth < depthOf stack + 2 then .error .tooDeep
  else .ok ⟨.argument, false, .args compared :: stack⟩

/-- The state after a token, or how the scan ends there. -/
def step (t : Token) (c : Config) : Except Verdict Config :=
  match c.mode with
  | .operand => operandStep t c.compared c.stack
  | .after => afterStep t c.compared c.stack
  | .name =>
    if t.value == "." && t.type == .op then .ok ⟨.member, c.compared, c.stack⟩
    else if t.value == "(" then callStep c.compared c.stack
    else afterStep t c.compared (settle c.stack)
  | .member =>
    if t.type != .ident then .error .syntaxError else .ok ⟨.method, c.compared, c.stack⟩
  | .method =>
    if t.value == "(" then callStep c.compared c.stack
    else afterStep t c.compared (settle c.stack)
  | .element => if t.value == "]" then closeStep t c.stack else operandStep t c.compared c.stack
  | .argument => if t.value != ")" then operandStep t c.compared c.stack else closeStep t c.stack
  | .separator => .error .syntaxError

/-- The scan of a list of tokens. An operand may be too deep before there is a token for it. -/
def scan (c : Config) : List Token → Verdict
  | [] => if c.mode = .operand ∧ maxDepth < depthOf c.stack + 1 then .tooDeep else .pastEnd
  | t :: ts =>
    match step t c with
    | .ok c' => scan c' ts
    | .error v => v

/-- The scan of a text. -/
def verdict (text : String) : Verdict := scan ⟨.operand, false, []⟩ (tokenize text)

/-! ## Safety -/

section
variable {N : Type} [JsNumber N]

/-- The parser is safe on a text: it ends, with a value or an error that is reported, it asks for no
token behind the last one, and its depth is what it was. -/
structure Safe (env : EvalEnv N) (text : String) : Prop where
  ends : (parse env (tokenize text)).1 ≠ .error .outOfFuel
  inside : ∀ property, (parse env (tokenize text)).1 ≠ .error (.typeError property)
  balanced : (parse env (tokenize text)).2.depth = 0

/-- A sub-parser leaves the depth as it was, unless it throws that the nesting is too deep: then it
is one more. -/
structure Restores {α : Type} (m : ParserM α) : Prop where
  same : ∀ s, (m s).1 ≠ .error .tooDeep → (m s).2.depth = s.depth
  more : ∀ s, (m s).1 = .error .tooDeep → (m s).2.depth = s.depth + 1

/-- The sub-parsers of the ladder. -/
def subParsers (env : EvalEnv N) (ts : List Token) (fuel : Nat) : List (ParserM (JsVal N)) :=
  [parseLogicalOr env ts fuel, parseLogicalAnd env ts fuel, parseComparison env ts fuel,
    parseAdditive env ts fuel, parseMultiplicative env ts fuel, parseUnary env ts fuel,
    parsePrimary env ts fuel]

end

/-! ## The depth -/

section
variable {α β : Type} {ts : List Token}

theorem Restores.pure (a : α) : Restores (pure a : ParserM α) := by
  refine ⟨fun s _ => rfl, fun s h => ?_⟩
  cases h

theorem Restores.fail {e : ExprError} (he : e ≠ .tooDeep) : Restores (fail e : ParserM α) := by
  refine ⟨fun s _ => rfl, fun s h => ?_⟩
  cases h
  exact absurd rfl he

theorem Restores.bind {m : ParserM α} {k : α → ParserM β} (hm : Restores m)
    (hk : ∀ a, Restores (k a)) : Restores (m >>= k) := by
  have hparts (s : PState) : (∃ e, (m s).1 = .error e ∧ ((m >>= k) s).1 = .error e ∧
      ((m >>= k) s).2 = (m s).2) ∨
      ∃ a, (m s).1 = .ok a ∧ (m >>= k) s = k a (m s).2 := by
    rcases h : m s with ⟨e | a, s'⟩
    · exact .inl ⟨e, rfl, congrArg Prod.fst (bind_error h), congrArg Prod.snd (bind_error h)⟩
    · exact .inr ⟨a, rfl, bind_ok h⟩
  constructor
  · intro s hne
    obtain ⟨e, hm₁, hfst, hsnd⟩ | ⟨a, hm₁, heq⟩ := hparts s
    · rw [hsnd]
      refine hm.same s fun h => hne ?_
      rw [hm₁] at h
      cases h
      exact hfst
    · rw [heq] at hne ⊢
      rw [(hk a).same _ hne]
      refine hm.same s fun h => ?_
      rw [hm₁] at h
      cases h
  · intro s hdeep
    obtain ⟨e, hm₁, hfst, hsnd⟩ | ⟨a, hm₁, heq⟩ := hparts s
    · rw [hsnd]
      rw [hfst] at hdeep
      cases hdeep
      exact hm.more s hm₁
    · rw [heq] at hdeep ⊢
      rw [(hk a).more _ hdeep, hm.same s]
      intro h
      rw [hm₁] at h
      cases h

theorem Restores.nested {m : ParserM α} (hm : Restores m) : Restores (nested m) := by
  have hrun (s : PState) : (HeadlessErp.nested m s = (.error .tooDeep, ⟨s.pos, s.depth + 1⟩)) ∨
      HeadlessErp.nested m s =
        ((m ⟨s.pos, s.depth + 1⟩).1, leaveNested (m ⟨s.pos, s.depth + 1⟩).2) := by
    by_cases hlt : maxDepth < s.depth + 1
    · refine .inl ?_
      unfold HeadlessErp.nested bracket enterNested
      simp only [gt_iff_lt, if_pos hlt]
    · refine .inr ?_
      unfold HeadlessErp.nested bracket enterNested
      simp only [gt_iff_lt, if_neg hlt]
  constructor
  · intro s hne
    obtain h | h := hrun s
    · rw [h] at hne
      exact absurd rfl hne
    · rw [h] at hne ⊢
      show (m ⟨s.pos, s.depth + 1⟩).2.depth - 1 = s.depth
      rw [hm.same _ hne, Nat.add_sub_cancel]
  · intro s hdeep
    obtain h | h := hrun s
    · rw [h]
    · rw [h] at hdeep ⊢
      show (m ⟨s.pos, s.depth + 1⟩).2.depth - 1 = s.depth + 1
      rw [hm.more _ hdeep, Nat.add_sub_cancel]

theorem Restores.peek (property : String) : Restores (peek ts property) := by
  have hrun (s : PState) : (HeadlessErp.peek ts property s).2 = s ∧
      (HeadlessErp.peek ts property s).1 ≠ .error .tooDeep := by
    unfold HeadlessErp.peek
    cases ts[s.pos]? with
    | none => exact ⟨rfl, fun h => by cases h⟩
    | some t => exact ⟨rfl, fun h => by cases h⟩
  exact ⟨fun s _ => congrArg PState.depth (hrun s).1, fun s h => absurd h (hrun s).2⟩

theorem Restores.next (property : String) : Restores (next ts property) := by
  have hrun (s : PState) : (HeadlessErp.next ts property s).2.depth = s.depth ∧
      (HeadlessErp.next ts property s).1 ≠ .error .tooDeep := by
    unfold HeadlessErp.next
    cases ts[s.pos]? with
    | none => exact ⟨rfl, fun h => by cases h⟩
    | some t => exact ⟨rfl, fun h => by cases h⟩
  exact ⟨fun s _ => (hrun s).1, fun s h => absurd h (hrun s).2⟩

theorem Restores.ite {φ : Prop} [Decidable φ] {m m' : ParserM α} (h : Restores m) (h' : Restores m') :
    Restores (if φ then m else m') := by
  split
  · exact h
  · exact h'

theorem Restores.expectOp (op : String) : Restores (expectOp ts op) :=
  (Restores.next _).bind fun _ => .ite (.fail (by intro h; cases h)) (.pure ())

end

section
variable {N : Type} [JsNumber N] {env : EvalEnv N} {ts : List Token} {m : ParserM (JsVal N)}
  {fuel : Nat}

omit [JsNumber N] in
theorem restores_leftAssoc {isOp : String → Bool} {combine : String → JsVal N → JsVal N → JsVal N}
    (hm : Restores m) (left : JsVal N) : Restores (leftAssoc ts isOp m combine fuel left) := by
  induction fuel generalizing left with
  | zero => exact .fail (by intro h; cases h)
  | succ fuel ih =>
    exact (Restores.peek _).bind fun _ => .ite
      ((Restores.next _).bind fun _ => hm.bind fun _ => ih _) (.pure _)

omit [JsNumber N] in
theorem restores_arrayLoop (hm : Restores m) (arr : List (JsVal N)) :
    Restores (arrayLoop ts m fuel arr) := by
  induction fuel generalizing arr with
  | zero => exact .fail (by intro h; cases h)
  | succ fuel ih =>
    refine hm.bind fun _ => (Restores.next _).bind fun _ => .ite (.pure _) (.ite ?_ ?_)
    · exact (Restores.peek _).bind fun _ => .fail (by intro h; cases h)
    · exact (Restores.peek _).bind fun _ => .ite ((Restores.next _).bind fun _ => .pure _) (ih _)

omit [JsNumber N] in
theorem restores_argsLoop (hm : Restores m) (args : List (JsVal N)) :
    Restores (argsLoop ts m fuel args) := by
  induction fuel generalizing args with
  | zero => exact .fail (by intro h; cases h)
  | succ fuel ih =>
    exact (Restores.peek _).bind fun _ => .ite
      ((Restores.next _).bind fun _ => hm.bind fun _ => ih _) (.pure _)

omit [JsNumber N] in
theorem restores_parseArgs (hm : Restores m) : Restores (parseArgs ts m fuel) := by
  refine .nested (.bind ?_ fun _ => (Restores.expectOp _).bind fun _ => .pure _)
  exact (Restores.peek _).bind fun _ => .ite (hm.bind fun _ => restores_argsLoop hm _) (.pure _)

theorem restores_callFunction (name : String) (args : List (JsVal N)) :
    Restores (callFunction env name args) := by
  unfold callFunction
  split
  · split
    · exact .pure _
    · exact .fail (by intro h; cases h)
  · split
    · exact .ite (.pure _) (.fail (by intro h; cases h))
    · exact .fail (by intro h; cases h)

theorem restores_parseIdent (hm : Restores m) (name : String) :
    Restores (parseIdent env ts m fuel name) := by
  have hcall (name : String) : Restores (do
      let _ ← next ts "value"
      let args ← parseArgs ts m fuel
      callFunction env name args) :=
    (Restores.next _).bind fun _ => (restores_parseArgs hm).bind fun _ => restores_callFunction _ _
  refine (Restores.peek _).bind fun _ => .ite ?_ (.ite (hcall _) ?_)
  · refine (Restores.next _).bind fun _ => (Restores.next _).bind fun _ => .ite
      (.fail (by intro h; cases h)) ?_
    exact (Restores.peek _).bind fun _ => .ite (hcall _) (.pure _)
  · exact .ite (.pure _) (.ite (.pure _) (.ite (.pure _) (.pure _)))

theorem restores_primaryFrom (hm : Restores m) (t : Token) :
    Restores (primaryFrom env ts m fuel t) := by
  unfold primaryFrom
  split
  · exact .pure _
  · exact .pure _
  · refine .nested (.ite ?_ (.ite (.fail (by intro h; cases h)) ?_))
    · exact (Restores.peek _).bind fun _ => .ite
        ((Restores.next _).bind fun _ => .pure _) (restores_arrayLoop hm _)
    · exact hm.bind fun _ => (Restores.expectOp _).bind fun _ => .pure _
  · exact restores_parseIdent hm _
  · exact .fail (by intro h; cases h)
  · exact .fail (by intro h; cases h)

/-- Every sub-parser restores the depth. -/
theorem restores_of_mem (env : EvalEnv N) (ts : List Token) (fuel : Nat) :
    ∀ m ∈ subParsers env ts fuel, Restores m := by
  have hleft {isOp : String → Bool} {combine : String → JsVal N → JsVal N → JsVal N}
      {m : ParserM (JsVal N)} {fuel : Nat} (hm : Restores m) :
      Restores (do let left ← m; leftAssoc ts isOp m combine fuel left) :=
    hm.bind fun left => restores_leftAssoc hm left
  induction fuel with
  | zero =>
    simp only [subParsers, List.forall_mem_cons, parseLogicalOr, parseLogicalAnd, parseComparison,
      parseAdditive, parseMultiplicative, parseUnary, parsePrimary]
    have hfail : Restores (fail .outOfFuel : ParserM (JsVal N)) := .fail (by intro h; cases h)
    exact ⟨hfail, hfail, hfail, hfail, hfail, hfail, hfail, fun _ h => absurd h List.not_mem_nil⟩
  | succ fuel ih =>
    simp only [subParsers, List.forall_mem_cons] at ih ⊢
    obtain ⟨hor, hand, hcomparison, hadditive, hmultiplicative, hunary, hprimary, -⟩ := ih
    simp only [parseLogicalOr, parseLogicalAnd, parseComparison, parseAdditive, parseMultiplicative,
      parseUnary, parsePrimary]
    refine ⟨hleft hand, hleft hcomparison, ?_, hleft hmultiplicative, hleft hunary, ?_, ?_,
      fun _ h => absurd h List.not_mem_nil⟩
    · exact hadditive.bind fun _ => (Restores.peek _).bind fun _ => .ite
        ((Restores.next _).bind fun _ => hadditive.bind fun _ => .pure _) (.pure _)
    · have hsign {f : JsVal N → JsVal N} : Restores (do
          let _ ← next ts "value"
          let v ← parseUnary env ts fuel
          pure (f v)) :=
        (Restores.next _).bind fun _ => hunary.bind fun _ => .pure _
      exact .nested ((Restores.peek _).bind fun _ => .ite hsign (.ite hsign hprimary))
    · exact (Restores.next _).bind fun t => restores_primaryFrom hor t

end

/-! ## Following the scan -/

/-- An error is what a verdict says. What a call throws says nothing of the text; where all calls
return (`quiet`), none throws. -/
def Agrees (quiet : Prop) (v : Verdict) : ExprError → Prop
  | .tooDeep => v = .tooDeep
  | .typeError _ => v = .pastEnd
  | .unknownFunction _ | .thrown _ => ¬quiet
  | .outOfFuel => True
  | _ => v = .syntaxError

/-- The outcome of a computation that starts where a scan has a verdict: a value leaves the depth and
a position of which `Q` holds, an error agrees with the verdict. -/
inductive Tracks {α : Type} (quiet : Prop) (v : Verdict) (d : Nat) (Q : α → Nat → Prop) :
    Except ExprError α × PState → Prop where
  | ok {a : α} {p : Nat} (h : Q a p) : Tracks quiet v d Q (.ok a, ⟨p, d⟩)
  | error {e : ExprError} {s : PState} (h : Agrees quiet v e) : Tracks quiet v d Q (.error e, s)

section
variable {α β : Type} {quiet : Prop} {v : Verdict} {Q R : α → Nat → Prop} {p d : Nat}
  {ts : List Token} {t : Token} {c c' : Config}

theorem Tracks.mono {x : Except ExprError α × PState} (h : Tracks quiet v d R x)
    (hQ : ∀ a p, R a p → Q a p) : Tracks quiet v d Q x := by
  cases h with
  | ok h => exact .ok (hQ _ _ h)
  | error h => exact .error h

theorem Tracks.bind {m : ParserM α} {k : α → ParserM β} {Q : β → Nat → Prop} {s : PState}
    (h : Tracks quiet v d R (m s)) (hk : ∀ a q, R a q → Tracks quiet v d Q (k a ⟨q, d⟩)) :
    Tracks quiet v d Q ((m >>= k) s) := by
  rw [bind_apply]
  generalize m s = x at h ⊢
  cases h with
  | ok h => exact hk _ _ h
  | error h => exact .error h

/-- What an outcome is. -/
theorem Tracks.result {x : Except ExprError α × PState} {R : Prop}
    (h : Tracks quiet v d (fun _ _ => R) x) :
    ((∃ a, x.1 = .ok a) ∧ R) ∨ ∃ e, x.1 = .error e ∧ Agrees quiet v e := by
  cases h with
  | ok h => exact .inl ⟨⟨_, rfl⟩, h⟩
  | error h => exact .inr ⟨_, rfl, h⟩

theorem scan_at (c' : Config) (h : ts[p]? = some t) (hstep : step t c = .ok c') :
    scan c (ts.drop p) = scan c' (ts.drop (p + 1)) := by
  obtain ⟨hlt, rfl⟩ := List.getElem?_eq_some_iff.1 h
  rw [List.drop_eq_getElem_cons hlt, scan, hstep]

theorem scan_stop (h : ts[p]? = some t) (hstep : step t c = .error v) :
    scan c (ts.drop p) = v := by
  obtain ⟨hlt, rfl⟩ := List.getElem?_eq_some_iff.1 h
  rw [List.drop_eq_getElem_cons hlt, scan, hstep]

theorem scan_congr (c' : Config) (h : ts[p]? = some t) (hstep : step t c = step t c') :
    scan c (ts.drop p) = scan c' (ts.drop p) := by
  obtain ⟨hlt, rfl⟩ := List.getElem?_eq_some_iff.1 h
  rw [List.drop_eq_getElem_cons hlt, scan, scan, hstep]

theorem scan_end (hmode : c.mode ≠ .operand) (h : ts[p]? = none) :
    scan c (ts.drop p) = .pastEnd := by
  rw [List.drop_eq_nil_of_le (List.getElem?_eq_none_iff.1 h), scan, if_neg fun h => hmode h.1]

/-- Peeking at a token. -/
theorem Tracks.peek (hend : ts[p]? = none → v = .pastEnd) (property : String) :
    Tracks quiet v d (fun t q => q = p ∧ ts[p]? = some t) (peek ts property ⟨p, d⟩) := by
  unfold HeadlessErp.peek
  dsimp only
  cases h : ts[p]? with
  | some t => exact .ok ⟨rfl, rfl⟩
  | none => exact .error (hend h)

/-- Consuming a token. -/
theorem Tracks.next (hend : ts[p]? = none → v = .pastEnd) (property : String) :
    Tracks quiet v d (fun t q => q = p + 1 ∧ ts[p]? = some t) (next ts property ⟨p, d⟩) := by
  unfold HeadlessErp.next
  dsimp only
  cases h : ts[p]? with
  | some t => exact .ok ⟨rfl, rfl⟩
  | none => exact .error (hend h)

/-- Bracketing: the body runs one deeper, where it may. -/
theorem Tracks.nested {m : ParserM α} (hdeep : maxDepth < d + 1 → v = .tooDeep)
    (h : d + 1 ≤ maxDepth → Tracks quiet v (d + 1) Q (m ⟨p, d + 1⟩)) :
    Tracks quiet v d Q (nested m ⟨p, d⟩) := by
  by_cases hlt : maxDepth < d + 1
  · have hrun : HeadlessErp.nested m ⟨p, d⟩ = (.error .tooDeep, ⟨p, d + 1⟩) := by
      unfold HeadlessErp.nested bracket enterNested
      simp only [gt_iff_lt, if_pos hlt]
    rw [hrun]
    exact .error (hdeep hlt)
  · have hrun : HeadlessErp.nested m ⟨p, d⟩ =
        ((m ⟨p, d + 1⟩).1, leaveNested (m ⟨p, d + 1⟩).2) := by
      unfold HeadlessErp.nested bracket enterNested
      simp only [gt_iff_lt, if_neg hlt]
    rw [hrun]
    have hbody := h (Nat.not_lt.1 hlt)
    generalize m ⟨p, d + 1⟩ = x at hbody ⊢
    cases hbody with
    | ok h => exact .ok h
    | error h => exact .error h

/-- The next token is none of some operators. -/
def Stops (ts : List Token) (ops : List String) (p : Nat) : Prop :=
  ∀ t, ts[p]? = some t → ops.contains t.value = false

/-- A computation reads what takes a scan from one state to another, and stops before some
operators. -/
def Follows (quiet : Prop) (ts : List Token) (m : ParserM α) (c c' : Config) (ops : List String) :
    Prop :=
  ∀ p, Tracks quiet (scan c (ts.drop p)) (depthOf c.stack)
    (fun _ q => scan c (ts.drop p) = scan c' (ts.drop q) ∧ Stops ts ops q)
    (m ⟨p, depthOf c.stack⟩)

end

section
variable {N : Type} {quiet : Prop} {ts : List Token} {m : ParserM (JsVal N)} {f g : Bool}
  {stack : List Frame} {inner ops : List String} {isOp : String → Bool}
  {combine : String → JsVal N → JsVal N → JsVal N}

/-- The loop of a level, whose operators lead the scan back to an operand. -/
theorem tracks_leftAssoc (hm : Follows quiet ts m ⟨.operand, f, stack⟩ ⟨.after, g, stack⟩ inner)
    (hstep : ∀ t : Token, isOp t.value = true →
      step t ⟨.after, g, stack⟩ = .ok ⟨.operand, f, stack⟩)
    (hops : ∀ s, isOp s = false → inner.contains s = false → ops.contains s = false)
    (fuel : Nat) (left : JsVal N) {p : Nat} (hp : Stops ts inner p) :
    Tracks quiet (scan ⟨.after, g, stack⟩ (ts.drop p)) (depthOf stack)
      (fun _ q => scan ⟨.after, g, stack⟩ (ts.drop p) = scan ⟨.after, g, stack⟩ (ts.drop q) ∧
        Stops ts ops q)
      (leftAssoc ts isOp m combine fuel left ⟨p, depthOf stack⟩) := by
  induction fuel generalizing left p with
  | zero => exact .error trivial
  | succ fuel ih =>
    have hend : ts[p]? = none → scan ⟨.after, g, stack⟩ (ts.drop p) = .pastEnd :=
      scan_end (by intro h; cases h)
    refine (Tracks.peek hend _).bind fun t q hq => ?_
    obtain ⟨rfl, ht⟩ := hq
    split
    · next hop =>
      refine (Tracks.next hend _).bind fun op q' hq' => ?_
      obtain ⟨rfl, -⟩ := hq'
      rw [scan_at _ ht (hstep t hop)]
      refine (hm (q + 1)).bind fun right r hr => ?_
      rw [hr.1]
      exact ih _ hr.2
    · next hop =>
      refine .ok ⟨rfl, fun t' ht' => ?_⟩
      rw [ht] at ht'
      cases ht'
      exact hops _ (Bool.eq_false_iff.2 hop) (hp t ht)

/-- A level with left-associative operators. -/
theorem follows_level (hm : Follows quiet ts m ⟨.operand, f, stack⟩ ⟨.after, g, stack⟩ inner)
    (hstep : ∀ t : Token, isOp t.value = true →
      step t ⟨.after, g, stack⟩ = .ok ⟨.operand, f, stack⟩)
    (hops : ∀ s, isOp s = false → inner.contains s = false → ops.contains s = false) (fuel : Nat) :
    Follows quiet ts (do let left ← m; leftAssoc ts isOp m combine fuel left)
      ⟨.operand, f, stack⟩ ⟨.after, g, stack⟩ ops := by
  intro p
  refine (hm p).bind fun left q hq => ?_
  rw [hq.1]
  exact tracks_leftAssoc hm hstep hops fuel left hq.2

/-- The operators of all levels but the comparisons. -/
def infixOps : List String := logicalOps ++ arithmeticOps

theorem afterStep_close {t : Token} (h : infixOps.contains t.value = false) :
    afterStep t true stack = closeStep t stack := by
  have hsplit : arithmeticOps.contains t.value = false ∧ logicalOps.contains t.value = false := by
    simp only [infixOps, List.contains_eq_mem, decide_eq_false_iff_not, List.mem_append,
      not_or] at h ⊢
    exact ⟨h.2, h.1⟩
  unfold afterStep
  rw [hsplit.1, hsplit.2]
  rfl

/-- What stands before a closing bracket: it leads the scan on, and every other token is an error. -/
structure Closes (ts : List Token) (v : Verdict) (op : String) (c' : Config) (p : Nat) : Prop where
  ends : ts[p]? = none → v = .pastEnd
  closed : ∀ t, ts[p]? = some t → t.value = op → v = scan c' (ts.drop (p + 1))
  error : ∀ t, ts[p]? = some t → t.value ≠ op → v = .syntaxError

theorem Closes.expectOp {v : Verdict} {op : String} {c' : Config} {p d : Nat}
    (h : Closes ts v op c' p) :
    Tracks quiet v d (fun _ q => v = scan c' (ts.drop q)) (expectOp ts op ⟨p, d⟩) := by
  refine (Tracks.next h.ends _).bind fun t q hq => ?_
  obtain ⟨rfl, ht⟩ := hq
  split
  · next hne => exact .error (h.error t ht (by simpa using hne))
  · next heq => exact .ok (h.closed t ht (by simpa using heq))

/-- The verdict at a place where some token has to stand. -/
theorem ends_of_mode {mode : Mode} {p : Nat} (hmode : mode ≠ .operand) :
    ts[p]? = none → scan ⟨mode, f, stack⟩ (ts.drop p) = .pastEnd :=
  scan_end hmode

/-- The loop of an array. -/
theorem tracks_arrayLoop
    (hm : Follows quiet ts m ⟨.operand, false, .array f :: stack⟩ ⟨.after, true, .array f :: stack⟩
      infixOps) (fuel : Nat) (arr : List (JsVal N)) (p : Nat) :
    Tracks quiet (scan ⟨.operand, false, .array f :: stack⟩ (ts.drop p))
      (depthOf (.array f :: stack))
      (fun _ q => scan ⟨.operand, false, .array f :: stack⟩ (ts.drop p) =
        scan ⟨.after, f, settle stack⟩ (ts.drop q))
      (arrayLoop ts m fuel arr ⟨p, depthOf (.array f :: stack)⟩) := by
  induction fuel generalizing arr p with
  | zero => exact .error trivial
  | succ fuel ih =>
    refine (hm p).bind fun v q hq => ?_
    obtain ⟨hscan, hstops⟩ := hq
    rw [hscan]
    refine (Tracks.next (ends_of_mode (by decide)) _).bind fun sep r hr => ?_
    obtain ⟨rfl, hsep⟩ := hr
    have hclose : step sep ⟨.after, true, .array f :: stack⟩ = closeStep sep (.array f :: stack) :=
      afterStep_close (hstops sep hsep)
    split
    · next hend =>
      refine .ok (scan_at _ hsep (hclose.trans ?_))
      rw [closeStep, if_pos hend]
    next hend =>
    split
    · next hother =>
      -- the error reports the position of the token behind the separator
      have hcomma : ¬(sep.value == ",") = true := by simpa using hother
      have hseparator : scan ⟨.after, true, .array f :: stack⟩ (ts.drop q) =
          scan ⟨.separator, false, []⟩ (ts.drop (q + 1)) := by
        refine scan_at _ hsep (hclose.trans ?_)
        rw [closeStep, if_neg hend, if_neg hcomma]
      rw [hseparator]
      refine (Tracks.peek (ends_of_mode (by decide)) _).bind fun t r hr => ?_
      obtain ⟨rfl, ht⟩ := hr
      exact .error (scan_stop ht rfl)
    · next hcomma =>
      have hcomma : (sep.value == ",") = true := by simpa using hcomma
      have helement : scan ⟨.after, true, .array f :: stack⟩ (ts.drop q) =
          scan ⟨.element, false, .array f :: stack⟩ (ts.drop (q + 1)) := by
        refine scan_at _ hsep (hclose.trans ?_)
        rw [closeStep, if_neg hend, if_pos hcomma]
      rw [helement]
      refine (Tracks.peek (ends_of_mode (by decide)) _).bind fun t r hr => ?_
      obtain ⟨rfl, ht⟩ := hr
      split
      · next hlast =>
        refine (Tracks.next (ends_of_mode (by decide)) _).bind fun _ r hr => ?_
        obtain ⟨rfl, -⟩ := hr
        refine .ok (scan_at _ ht ?_)
        rw [step, if_pos hlast, closeStep, if_pos hlast]
      · next hmore =>
        rw [scan_congr ⟨.operand, false, .array f :: stack⟩ ht (by
          rw [step, if_neg hmore]
          rfl)]
        exact ih _ _

/-- An array behind its bracket. -/
theorem tracks_parseArray
    (hm : Follows quiet ts m ⟨.operand, false, .array f :: stack⟩ ⟨.after, true, .array f :: stack⟩
      infixOps) (fuel : Nat) (p : Nat) :
    Tracks quiet (scan ⟨.element, false, .array f :: stack⟩ (ts.drop p))
      (depthOf (.array f :: stack))
      (fun _ q => scan ⟨.element, false, .array f :: stack⟩ (ts.drop p) =
        scan ⟨.after, f, settle stack⟩ (ts.drop q))
      (parseArray ts m fuel ⟨p, depthOf (.array f :: stack)⟩) := by
  refine (Tracks.peek (ends_of_mode (by decide)) _).bind fun t r hr => ?_
  obtain ⟨rfl, ht⟩ := hr
  split
  · next hlast =>
    refine (Tracks.next (ends_of_mode (by decide)) _).bind fun _ r hr => ?_
    obtain ⟨rfl, -⟩ := hr
    refine .ok (scan_at _ ht ?_)
    rw [step, if_pos hlast, closeStep, if_pos hlast]
  · next hmore =>
    rw [scan_congr ⟨.operand, false, .array f :: stack⟩ ht (by
      rw [step, if_neg hmore]
      rfl)]
    exact tracks_arrayLoop hm fuel [] r

/-- After an argument, or where there is none. -/
theorem closes_args {p : Nat} (hstops : Stops ts infixOps p)
    (hcomma : ∀ t, ts[p]? = some t → ¬(t.value == ",") = true) :
    Closes ts (scan ⟨.after, true, .args f :: stack⟩ (ts.drop p)) ")" ⟨.after, f, settle stack⟩ p := by
  refine ⟨ends_of_mode (by decide), fun t ht heq => scan_at _ ht ?_, fun t ht hne => scan_stop ht ?_⟩
  · rw [step, afterStep_close (hstops t ht), closeStep, if_neg (hcomma t ht), if_pos (by simpa using heq)]
  · rw [step, afterStep_close (hstops t ht), closeStep, if_neg (hcomma t ht),
      if_neg (by simpa using hne)]

/-- The loop of an argument list. -/
theorem tracks_argsLoop
    (hm : Follows quiet ts m ⟨.operand, false, .args f :: stack⟩ ⟨.after, true, .args f :: stack⟩
      infixOps) (fuel : Nat) (args : List (JsVal N)) {p : Nat} (hp : Stops ts infixOps p) :
    Tracks quiet (scan ⟨.after, true, .args f :: stack⟩ (ts.drop p)) (depthOf (.args f :: stack))
      (fun _ q => Closes ts (scan ⟨.after, true, .args f :: stack⟩ (ts.drop p)) ")"
        ⟨.after, f, settle stack⟩ q)
      (argsLoop ts m fuel args ⟨p, depthOf (.args f :: stack)⟩) := by
  induction fuel generalizing args p with
  | zero => exact .error trivial
  | succ fuel ih =>
    refine (Tracks.peek (ends_of_mode (by decide)) _).bind fun t q hq => ?_
    obtain ⟨rfl, ht⟩ := hq
    split
    · next hcomma =>
      refine (Tracks.next (ends_of_mode (by decide)) _).bind fun _ r hr => ?_
      obtain ⟨rfl, -⟩ := hr
      have hnext : scan ⟨.after, true, .args f :: stack⟩ (ts.drop q) =
          scan ⟨.operand, false, .args f :: stack⟩ (ts.drop (q + 1)) := by
        refine scan_at _ ht ?_
        rw [step, afterStep_close (hp t ht), closeStep, if_pos hcomma]
      rw [hnext]
      refine (hm (q + 1)).bind fun v r hr => ?_
      rw [hr.1]
      exact ih _ hr.2
    · next hcomma =>
      refine .ok (closes_args hp fun t' ht' => ?_)
      rw [ht] at ht'
      cases ht'
      exact hcomma

theorem depthOf_cons (frame : Frame) (stack : List Frame) :
    depthOf (frame :: stack) = depthOf stack + frame.levels := rfl

/-- The arguments of a call, from the parenthesis on. -/
theorem tracks_parseArgs {v : Verdict} {p : Nat} (fuel : Nat)
    (hm : Follows quiet ts m ⟨.operand, false, .args f :: stack⟩ ⟨.after, true, .args f :: stack⟩
      infixOps)
    (hdeep : maxDepth < depthOf stack + 2 → v = .tooDeep)
    (hopen : depthOf stack + 2 ≤ maxDepth →
      v = scan ⟨.argument, false, .args f :: stack⟩ (ts.drop p)) :
    Tracks quiet v (depthOf stack + 1) (fun _ q => v = scan ⟨.after, f, settle stack⟩ (ts.drop q))
      (parseArgs ts m fuel ⟨p, depthOf stack + 1⟩) := by
  refine Tracks.nested hdeep fun hle => ?_
  obtain rfl := hopen hle
  have hdepth : depthOf stack + 1 + 1 = depthOf (.args f :: stack) :=
    (depthOf_cons (.args f) stack).symm
  rw [hdepth]
  refine Tracks.bind (R := fun _ q => Closes ts (scan ⟨.argument, false, .args f :: stack⟩ (ts.drop p))
    ")" ⟨.after, f, settle stack⟩ q) ?_ fun args q hq => hq.expectOp.bind fun _ r hr => .ok hr
  refine (Tracks.peek (ends_of_mode (by decide)) _).bind fun t q hq => ?_
  obtain ⟨rfl, ht⟩ := hq
  split
  · next hmore =>
    rw [scan_congr ⟨.operand, false, .args f :: stack⟩ ht (by
      rw [step, if_pos hmore]
      rfl)]
    refine (hm q).bind fun v r hr => ?_
    rw [hr.1]
    exact tracks_argsLoop hm fuel [v] hr.2
  · next hlast =>
    have hvalue : t.value = ")" := by simpa using hlast
    refine .ok ⟨ends_of_mode (by decide), fun t' ht' _ => ?_, fun t' ht' hne => ?_⟩
    · rw [ht] at ht'
      cases ht'
      refine scan_at _ ht ?_
      rw [step, if_neg hlast, closeStep, hvalue]
      rfl
    · rw [ht] at ht'
      cases ht'
      exact absurd hvalue hne

end

section
variable {N : Type} [JsNumber N] {env : EvalEnv N} {quiet : Prop} {ts : List Token}
  {m : ParserM (JsVal N)} {f : Bool} {stack : List Frame} {fuel : Nat}

/-- All calls return. -/
def Quiet (env : EvalEnv N) : Prop :=
  ∀ name, ∃ fn, env.registry name = some fn ∧ ∀ args, ∃ v, fn args = .ok v

/-- A call returns where it is, or throws. -/
theorem tracks_callFunction {v : Verdict} {Q : Nat → Prop} {p d : Nat} (hquiet : quiet → Quiet env)
    (hp : Q p) (name : String) (args : List (JsVal N)) :
    Tracks quiet v d (fun _ q => Q q) (callFunction env name args ⟨p, d⟩) := by
  unfold callFunction
  cases hfn : env.registry name with
  | some fn =>
    dsimp only
    cases hvalue : fn args with
    | ok value => exact .ok hp
    | error message =>
      refine .error fun hq => ?_
      obtain ⟨fn', hfn', hreturns⟩ := hquiet hq name
      obtain ⟨value, hreturn⟩ := hreturns args
      rw [hfn] at hfn'
      cases hfn'
      rw [hvalue] at hreturn
      cases hreturn
  | none =>
    have hloud : ¬quiet := by
      intro hq
      obtain ⟨fn, hfn', -⟩ := hquiet hq name
      rw [hfn] at hfn'
      cases hfn'
    dsimp only
    cases mathName name with
    | none => exact .error hloud
    | some math =>
      dsimp only
      split
      · exact .ok hp
      · exact .error hloud

/-- What stands behind a name. -/
theorem tracks_parseIdent (hquiet : quiet → Quiet env)
    (hm : Follows quiet ts m ⟨.operand, false, .args f :: stack⟩ ⟨.after, true, .args f :: stack⟩
      infixOps) (name : String) (p : Nat) :
    Tracks quiet (scan ⟨.name, f, stack⟩ (ts.drop p)) (depthOf stack + 1)
      (fun _ q => scan ⟨.name, f, stack⟩ (ts.drop p) = scan ⟨.after, f, settle stack⟩ (ts.drop q))
      (parseIdent env ts m fuel name ⟨p, depthOf stack + 1⟩) := by
  have hcall (v : Verdict) (mode : Mode) (hmode : mode ≠ .operand) (name : String) (t : Token) (q : Nat)
      (hv : v = scan ⟨mode, f, stack⟩ (ts.drop q)) (ht : ts[q]? = some t)
      (hstep : step t ⟨mode, f, stack⟩ = callStep f stack) :
      Tracks quiet v (depthOf stack + 1) (fun _ q => v = scan ⟨.after, f, settle stack⟩ (ts.drop q))
        ((do
          let _ ← next ts "value"
          let args ← parseArgs ts m fuel
          callFunction env name args : ParserM (JsVal N)) ⟨q, depthOf stack + 1⟩) := by
    refine (Tracks.next (fun hend => hv.trans (scan_end hmode hend)) _).bind fun _ r hr => ?_
    obtain ⟨rfl, -⟩ := hr
    refine (tracks_parseArgs fuel hm (fun hdeep => ?_) fun hle => ?_).bind fun args r hr =>
      tracks_callFunction hquiet hr name args
    · refine hv.trans (scan_stop ht (hstep.trans ?_))
      rw [callStep, if_pos hdeep]
    · refine hv.trans (scan_at _ ht (hstep.trans ?_))
      rw [callStep, if_neg (Nat.not_lt.2 hle)]
  refine (Tracks.peek (ends_of_mode (by decide)) _).bind fun t q hq => ?_
  obtain ⟨rfl, ht⟩ := hq
  split
  · next hdot =>
    refine (Tracks.next (ends_of_mode (by decide)) _).bind fun _ r hr => ?_
    obtain ⟨rfl, -⟩ := hr
    rw [scan_at ⟨.member, f, stack⟩ ht (by rw [step, if_pos hdot])]
    refine (Tracks.next (ends_of_mode (by decide)) _).bind fun member r hr => ?_
    obtain ⟨rfl, hmember⟩ := hr
    split
    · next hother => exact .error (scan_stop hmember (by rw [step, if_pos hother]))
    next hident =>
    rw [scan_at ⟨.method, f, stack⟩ hmember (by rw [step, if_neg hident])]
    refine (Tracks.peek (ends_of_mode (by decide)) _).bind fun u r hr => ?_
    obtain ⟨rfl, hu⟩ := hr
    split
    · next hparen => exact hcall _ .method (by decide) _ u _ rfl hu (by rw [step, if_pos hparen])
    · next hparen =>
      refine .ok (scan_congr _ hu ?_)
      rw [step, if_neg hparen]
      rfl
  next hdot =>
  split
  · next hparen =>
    exact hcall _ .name (by decide) _ t _ rfl ht (by rw [step, if_neg hdot, if_pos hparen])
  next hparen =>
  have hvalue : scan ⟨.name, f, stack⟩ (ts.drop q) = scan ⟨.after, f, settle stack⟩ (ts.drop q) := by
    refine scan_congr _ ht ?_
    rw [step, if_neg hdot, if_neg hparen]
    rfl
  split
  · exact .ok hvalue
  split
  · exact .ok hvalue
  split
  · exact .ok hvalue
  · exact .ok hvalue

/-- The levels of the ladder follow the scan. -/
structure LadderTracks (quiet : Prop) (env : EvalEnv N) (ts : List Token) (fuel : Nat) : Prop where
  or (stack : List Frame) (h : settle stack = stack) :
    Follows quiet ts (parseLogicalOr env ts fuel) ⟨.operand, false, stack⟩ ⟨.after, true, stack⟩
      infixOps
  and (stack : List Frame) (h : settle stack = stack) :
    Follows quiet ts (parseLogicalAnd env ts fuel) ⟨.operand, false, stack⟩ ⟨.after, true, stack⟩
      ("&&" :: arithmeticOps)
  comparison (stack : List Frame) (h : settle stack = stack) :
    Follows quiet ts (parseComparison env ts fuel) ⟨.operand, false, stack⟩ ⟨.after, true, stack⟩
      arithmeticOps
  additive (f : Bool) (stack : List Frame) (h : settle stack = stack) :
    Follows quiet ts (parseAdditive env ts fuel) ⟨.operand, f, stack⟩ ⟨.after, f, stack⟩ arithmeticOps
  multiplicative (f : Bool) (stack : List Frame) (h : settle stack = stack) :
    Follows quiet ts (parseMultiplicative env ts fuel) ⟨.operand, f, stack⟩ ⟨.after, f, stack⟩
      ["*", "/", "%"]
  unary (f : Bool) (stack : List Frame) :
    Follows quiet ts (parseUnary env ts fuel) ⟨.operand, f, stack⟩ ⟨.after, f, settle stack⟩ []
  primary (f : Bool) (stack : List Frame) (p : Nat) (t : Token) (ht : ts[p]? = some t)
    (hle : depthOf stack + 1 ≤ maxDepth) (hsign : ¬(t.value == "-" || t.value == "!") = true) :
    Tracks quiet (scan ⟨.operand, f, stack⟩ (ts.drop p)) (depthOf stack + 1)
      (fun _ q => scan ⟨.operand, f, stack⟩ (ts.drop p) = scan ⟨.after, f, settle stack⟩ (ts.drop q))
      (parsePrimary env ts fuel ⟨p, depthOf stack + 1⟩)

/-- A comparison follows the scan: behind its operator, or where there is none, no other one is
read. -/
theorem follows_comparison (ih : LadderTracks quiet env ts fuel) (h : settle stack = stack) :
    Follows quiet ts (parseComparison env ts (fuel + 1)) ⟨.operand, false, stack⟩
      ⟨.after, true, stack⟩ arithmeticOps := by
  have hlogical : ∀ s ∈ comparisonOps, logicalOps.contains s = false := by decide
  intro p
  rw [parseComparison]
  refine (ih.additive false stack h p).bind fun left q hq => ?_
  obtain ⟨hscan, hstops⟩ := hq
  rw [hscan]
  refine (Tracks.peek (ends_of_mode (by decide)) _).bind fun t r hr => ?_
  obtain ⟨rfl, ht⟩ := hr
  split
  · next hop =>
    refine (Tracks.next (ends_of_mode (by decide)) _).bind fun _ r' hr => ?_
    obtain ⟨rfl, -⟩ := hr
    rw [scan_at ⟨.operand, true, stack⟩ ht (by
      rw [step, afterStep, hstops t ht, hlogical _ (List.contains_iff_mem.1 hop), hop]
      rfl)]
    exact (ih.additive true stack h (r + 1)).bind fun right r' hr => .ok hr
  · next hop =>
    refine .ok ⟨scan_congr _ ht ?_, hstops⟩
    show afterStep t false stack = afterStep t true stack
    rw [afterStep, afterStep, hstops t ht, Bool.eq_false_iff.2 hop]
    rfl

theorem scan_deep (hlt : maxDepth < depthOf stack + 1) (l : List Token) :
    scan ⟨.operand, f, stack⟩ l = .tooDeep := by
  cases l with
  | nil => rw [scan, if_pos ⟨rfl, hlt⟩]
  | cons t ts =>
    have hstep : step t ⟨.operand, f, stack⟩ = .error .tooDeep := by
      rw [step, operandStep, if_pos hlt]
    rw [scan, hstep]

/-- A prefix operator follows the scan. -/
theorem follows_unary (ih : LadderTracks quiet env ts fuel) :
    Follows quiet ts (parseUnary env ts (fuel + 1)) ⟨.operand, f, stack⟩ ⟨.after, f, settle stack⟩
      [] := by
  intro p
  rw [parseUnary]
  refine Tracks.nested (fun hlt => scan_deep hlt _) fun hle => ?_
  have hend : ts[p]? = none → scan ⟨.operand, f, stack⟩ (ts.drop p) = .pastEnd := by
    intro hnone
    rw [List.drop_eq_nil_of_le (List.getElem?_eq_none_iff.1 hnone), scan,
      if_neg fun h => Nat.not_lt.2 hle h.2]
  have hsign (g : JsVal N → JsVal N) (t : Token) (ht : ts[p]? = some t)
      (hop : (t.value == "-" || t.value == "!") = true) :
      Tracks quiet (scan ⟨.operand, f, stack⟩ (ts.drop p)) (depthOf stack + 1)
        (fun _ q => scan ⟨.operand, f, stack⟩ (ts.drop p) =
          scan ⟨.after, f, settle stack⟩ (ts.drop q) ∧ Stops ts [] q)
        ((do
          let _ ← next ts "value"
          let v ← parseUnary env ts fuel
          pure (g v) : ParserM (JsVal N)) ⟨p, depthOf stack + 1⟩) := by
    refine (Tracks.next hend _).bind fun _ r hr => ?_
    obtain ⟨rfl, -⟩ := hr
    rw [scan_at ⟨.operand, f, .unary :: stack⟩ ht (by
      rw [step, operandStep, if_neg (Nat.not_lt.2 hle), if_pos hop])]
    have hdepth : depthOf stack + 1 = depthOf (.unary :: stack) := (depthOf_cons .unary stack).symm
    rw [hdepth]
    exact (ih.unary f (.unary :: stack) (p + 1)).bind fun v q hq => .ok hq
  refine (Tracks.peek hend _).bind fun t q hq => ?_
  obtain ⟨rfl, ht⟩ := hq
  split
  · next hminus => exact hsign _ t ht (by rw [hminus, Bool.true_or])
  next hminus =>
  split
  · next hnot => exact hsign _ t ht (by rw [hnot, Bool.or_true])
  · next hnot =>
    refine (ih.primary f stack q t ht hle ?_).mono fun _ r hr => ⟨hr, fun _ _ => rfl⟩
    rw [Bool.eq_false_iff.2 hminus, Bool.eq_false_iff.2 hnot]
    exact Bool.false_ne_true

/-- An operand follows the scan. -/
theorem tracks_primary (hquiet : quiet → Quiet env) (ih : LadderTracks quiet env ts fuel) {p : Nat}
    {t : Token} (ht : ts[p]? = some t) (hle : depthOf stack + 1 ≤ maxDepth)
    (hsign : ¬(t.value == "-" || t.value == "!") = true) :
    Tracks quiet (scan ⟨.operand, f, stack⟩ (ts.drop p)) (depthOf stack + 1)
      (fun _ q => scan ⟨.operand, f, stack⟩ (ts.drop p) = scan ⟨.after, f, settle stack⟩ (ts.drop q))
      (parsePrimary env ts (fuel + 1) ⟨p, depthOf stack + 1⟩) := by
  rw [parsePrimary]
  refine (Tracks.next (fun hnone => ?_) _).bind fun t' q hq => ?_
  · rw [ht] at hnone
    cases hnone
  obtain ⟨rfl, ht'⟩ := hq
  rw [ht] at ht'
  cases ht'
  unfold primaryFrom
  cases htype : t.type with
  | num =>
    refine .ok (scan_at _ ht ?_)
    rw [step, operandStep, if_neg (Nat.not_lt.2 hle), if_neg hsign, htype]
  | str =>
    refine .ok (scan_at _ ht ?_)
    rw [step, operandStep, if_neg (Nat.not_lt.2 hle), if_neg hsign, htype]
  | op =>
    refine .error (scan_stop ht ?_)
    rw [step, operandStep, if_neg (Nat.not_lt.2 hle), if_neg hsign, htype]
  | eof =>
    refine .error (scan_stop ht ?_)
    rw [step, operandStep, if_neg (Nat.not_lt.2 hle), if_neg hsign, htype]
  | ident =>
    rw [scan_at ⟨.name, f, stack⟩ ht (by
      rw [step, operandStep, if_neg (Nat.not_lt.2 hle), if_neg hsign, htype])]
    exact tracks_parseIdent hquiet (ih.or (.args f :: stack) rfl) t.value (p + 1)
  | paren =>
    have hparen : step t ⟨.operand, f, stack⟩ =
        if maxDepth < depthOf stack + 2 then .error .tooDeep
        else if t.value == "[" then .ok ⟨.element, false, .array f :: stack⟩
        else if t.value == "(" then .ok ⟨.operand, false, .paren f :: stack⟩
        else .error .syntaxError := by
      rw [step, operandStep, if_neg (Nat.not_lt.2 hle), if_neg hsign, htype]
    refine Tracks.nested (fun hlt => scan_stop ht (by rw [hparen, if_pos hlt])) fun hle' => ?_
    rw [if_neg (Nat.not_lt.2 hle')] at hparen
    split
    · next hbracket =>
      rw [scan_at ⟨.element, false, .array f :: stack⟩ ht (by rw [hparen, if_pos hbracket]),
        show depthOf stack + 1 + 1 = depthOf (.array f :: stack) from
          (depthOf_cons (.array f) stack).symm]
      exact tracks_parseArray (ih.or (.array f :: stack) rfl) fuel (p + 1)
    next hbracket =>
    rw [if_neg hbracket] at hparen
    split
    · next hother =>
      have hother : ¬(t.value == "(") = true := by simpa using hother
      exact .error (scan_stop ht (by rw [hparen, if_neg hother]))
    · next hopen =>
      have hopen : (t.value == "(") = true := by simpa using hopen
      rw [scan_at ⟨.operand, false, .paren f :: stack⟩ ht (by rw [hparen, if_pos hopen]),
        show depthOf stack + 1 + 1 = depthOf (.paren f :: stack) from
          (depthOf_cons (.paren f) stack).symm]
      refine (ih.or (.paren f :: stack) rfl (p + 1)).bind fun v q hq => ?_
      rw [hq.1]
      have hclose (u : Token) (hu : ts[q]? = some u) :
          step u ⟨.after, true, .paren f :: stack⟩ =
            if u.value == ")" then .ok ⟨.after, f, settle stack⟩ else .error .syntaxError :=
        afterStep_close (hq.2 u hu)
      have hcloses : Closes ts (scan ⟨.after, true, .paren f :: stack⟩ (ts.drop q)) ")"
          ⟨.after, f, settle stack⟩ q := by
        refine ⟨ends_of_mode (by decide), fun u hu heq => scan_at _ hu ?_,
          fun u hu hne => scan_stop hu ?_⟩
        · rw [hclose u hu, if_pos (by simpa using heq)]
        · rw [hclose u hu, if_neg (by simpa using hne)]
      exact hcloses.expectOp.bind fun _ r hr => .ok hr

/-- Every level follows the scan, on every fuel. -/
theorem ladderTracks (hquiet : quiet → Quiet env) (ts : List Token) (fuel : Nat) :
    LadderTracks quiet env ts fuel := by
  have hmultiplicative : ∀ s ∈ ["*", "/", "%"], arithmeticOps.contains s = true := by decide
  have hadditive : ∀ s ∈ ["+", "-"], arithmeticOps.contains s = true := by decide
  induction fuel with
  | zero =>
    constructor
    case primary =>
      intros
      exact .error trivial
    all_goals
      intros
      intro p
      exact .error trivial
  | succ fuel ih =>
    constructor
    case or =>
      intro stack h
      rw [parseLogicalOr]
      refine follows_level (ih.and stack h) (fun t ht => ?_) (fun s hs hinner => ?_) fuel
      · rw [step, afterStep, eq_of_beq ht]
        rfl
      · simp_all [infixOps, logicalOps]
    case and =>
      intro stack h
      rw [parseLogicalAnd]
      refine follows_level (ih.comparison stack h) (fun t ht => ?_) (fun s hs hinner => ?_) fuel
      · rw [step, afterStep, eq_of_beq ht]
        rfl
      · simp_all
    case comparison => exact fun stack h => follows_comparison ih h
    case additive =>
      intro f stack h
      rw [parseAdditive]
      refine follows_level (ih.multiplicative f stack h) (fun t ht => ?_) (fun s hs hinner => ?_) fuel
      · rw [step, afterStep, if_pos (hadditive _ (List.contains_iff_mem.1 ht))]
      · simp_all [arithmeticOps]
    case multiplicative =>
      intro f stack h
      rw [parseMultiplicative]
      have hunary := ih.unary f stack
      rw [h] at hunary
      refine follows_level hunary (fun t ht => ?_) (fun s hs _ => hs) fuel
      rw [step, afterStep, if_pos (hmultiplicative _ (List.contains_iff_mem.1 ht))]
    case unary => exact fun f stack => follows_unary ih
    case primary => exact fun f stack p t ht hle hsign => tracks_primary hquiet ih ht hle hsign

/-- The parser follows the scan to its end. -/
theorem tracks_parse (env : EvalEnv N) (quiet : Prop) (hquiet : quiet → Quiet env) (ts : List Token) :
    Tracks quiet (scan ⟨.operand, false, []⟩ ts) 0
      (fun _ _ => scan ⟨.operand, false, []⟩ ts = .done) (parse env ts) := by
  refine ((ladderTracks hquiet ts (parseFuel ts)).or [] rfl 0).bind fun v q hq => ?_
  have hscan : scan ⟨.operand, false, []⟩ ts = scan ⟨.after, true, []⟩ (ts.drop q) := hq.1
  show Tracks quiet (scan ⟨.operand, false, []⟩ ts) 0 _ _
  rw [hscan]
  refine (Tracks.peek (ends_of_mode (by decide)) _).bind fun t r hr => ?_
  obtain ⟨rfl, ht⟩ := hr
  have hclose : step t ⟨.after, true, []⟩ = .error (if t.type == .eof then .done else .syntaxError) :=
    afterStep_close (hq.2 t ht)
  split
  · next hother =>
    have hother : ¬(t.type == .eof) = true := by simpa using hother
    exact .error (scan_stop ht (by rw [hclose, if_neg hother]))
  · next heof =>
    have heof : (t.type == .eof) = true := by simpa using heof
    exact .ok (scan_stop ht (by rw [hclose, if_pos heof]))

theorem restores_parse : Restores (parseWith env ts fuel) := by
  have hor := restores_of_mem env ts fuel _ List.mem_cons_self
  refine hor.bind fun _ => (Restores.peek _).bind fun _ => .ite (.fail ?_) (.pure _)
  intro h
  cases h

/-- No names, and functions that return `null`. -/
def quietEnv (N : Type) : EvalEnv N := ⟨fun _ => none, fun _ => some fun _ => .ok .null⟩

/-- The parser is safe on a text, whatever it is evaluated against, just where the scan neither opens
too much nor ends behind an element of an open array; and every sub-parser leaves the depth as it
was, but where it throws that the nesting is too deep. -/
theorem safe_iff :
    (∀ text, (∀ env : EvalEnv N, Safe env text) ↔
      verdict text ≠ .tooDeep ∧ verdict text ≠ .pastEnd) ∧
    ∀ (env : EvalEnv N) (ts : List Token) (fuel : Nat), ∀ m ∈ subParsers env ts fuel, Restores m := by
  refine ⟨fun text => ⟨fun h => ?_, fun h env => ?_⟩, restores_of_mem⟩
  · have hsafe := h (quietEnv N)
    have htracks := tracks_parse (quietEnv N) True
      (fun _ name => ⟨_, rfl, fun _ => ⟨_, rfl⟩⟩) (tokenize text)
    obtain ⟨-, hdone⟩ | ⟨e, he, hagrees⟩ := htracks.result
    · rw [verdict, hdone]
      decide
    · have hfuel := hsafe.ends
      have hinside := hsafe.inside
      have hdeep : e ≠ .tooDeep := by
        rintro rfl
        have hdepth := restores_parse.more _ he
        cases hsafe.balanced.symm.trans hdepth
      rw [he] at hfuel hinside
      cases e with
      | tooDeep => exact absurd rfl hdeep
      | typeError property => exact absurd rfl (hinside property)
      | outOfFuel => exact absurd rfl hfuel
      | unknownFunction name => exact absurd trivial hagrees
      | thrown message => exact absurd trivial hagrees
      | _ =>
        have hagrees : verdict text = .syntaxError := hagrees
        rw [hagrees]
        decide
  · have hresult := (tracks_parse env False (fun hquiet => hquiet.elim) (tokenize text)).result
    refine ⟨parse_ne_outOfFuel env _, fun property hpast => ?_, ?_⟩
    · obtain ⟨⟨v, hv⟩, -⟩ | ⟨e, he, hagrees⟩ := hresult
      · rw [hv] at hpast
        cases hpast
      · rw [he] at hpast
        cases hpast
        exact h.2 hagrees
    · refine restores_parse.same _ fun hdeep => ?_
      obtain ⟨⟨v, hv⟩, -⟩ | ⟨e, he, hagrees⟩ := hresult
      · have hv : (parseWith env (tokenize text) (parseFuel (tokenize text)) ⟨0, 0⟩).1 = .ok v := hv
        rw [hv] at hdeep
        cases hdeep
      · have he : (parseWith env (tokenize text) (parseFuel (tokenize text)) ⟨0, 0⟩).1 = .error e := he
        rw [he] at hdeep
        cases hdeep
        exact h.1 hagrees

end

/-- Behind the element of an array that is left open, the parser asks for a token behind the end. -/
theorem not_safe_openArray : ¬Safe (quietEnv (Option Int)) "[1" := by
  intro h
  refine h.inside "pos" ?_
  rfl

end HeadlessErp.Nesting
