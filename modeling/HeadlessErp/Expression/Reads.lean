import HeadlessErp.Expression.Literal
import HeadlessErp.Expression.Validation

/-!
# The names an expression reads

The names whose values an evaluation looks up in the scope (`readNames`): an identifier where an
operand may begin, that is not called, is no member and is not read as a constant. On scopes that
agree on them an expression evaluates alike (`evaluateWith_congr`). An expression that the parser
refuses is read up to where it stops; the names after that are among them.
-/

namespace HeadlessErp

open StateExcept

/-! ## Reading -/

/-- No operand begins after the token. -/
def Token.blocksOperand (t : Token) : Bool :=
  t.type == .num || t.type == .ident || (t.type == .op && t.value == ".")

/-- An identifier is looked up in the scope, with the tokens that follow it. -/
def isRead (name : String) : List Token → Bool
  | [] => false
  | p :: rest =>
    if p.value == "." && p.type == .op then
      match rest with
      | member :: q :: _ => member.type == .ident && q.value != "("
      | _ => false
    else p.value != "(" && !(keywords.contains name)

theorem isRead_of_not_dot {name : String} {p : Token} {rest : List Token}
    (h : ¬(p.value == "." && p.type == .op) = true) :
    isRead name (p :: rest) = (p.value != "(" && !(keywords.contains name)) :=
  if_neg h

/-- The identifiers that are looked up. The flag says that no operand begins here. -/
def readScan : Bool → List Token → List String
  | _, [] => []
  | blocked, t :: rest =>
    (if t.type == .ident && !blocked && isRead t.value rest then [t.value] else []) ++
      readScan t.blocksOperand rest

/-- The names that an expression reads. -/
def readNames (expression : String) : List String := readScan false (tokenize expression)

/-- The token at a position, where an operand may begin. -/
def Opens (tokens : List Token) (p : Nat) : Prop :=
  p = 0 ∨ ∃ t, tokens[p - 1]? = some t ∧ t.blocksOperand = false

theorem mem_readScan {tokens : List Token} {blocked : Bool} {i : Nat} {t : Token}
    (ht : tokens[i]? = some t) (hident : t.type = .ident)
    (hread : isRead t.value (tokens.drop (i + 1)) = true)
    (hopens : i = 0 ∧ blocked = false ∨ i ≠ 0 ∧ Opens tokens i) :
    t.value ∈ readScan blocked tokens := by
  induction tokens generalizing blocked i with
  | nil => cases ht
  | cons u tokens ih =>
    rw [readScan]
    cases i with
    | zero =>
      cases ht
      have hblocked : blocked = false := by
        rcases hopens with ⟨-, h⟩ | ⟨h, -⟩
        · exact h
        · exact absurd rfl h
      rw [List.drop_succ_cons, List.drop_zero] at hread
      rw [hident, hblocked, hread]
      exact List.mem_append_left _ List.mem_cons_self
    | succ i =>
      rw [List.getElem?_cons_succ] at ht
      rw [List.drop_succ_cons] at hread
      refine List.mem_append_right _ (ih ht hread ?_)
      rcases hopens with ⟨h, -⟩ | ⟨-, h | ⟨p, hp, hblocks⟩⟩
      · exact absurd h (Nat.succ_ne_zero i)
      · exact absurd h (Nat.succ_ne_zero i)
      · cases i with
        | zero =>
          cases hp
          exact .inl ⟨rfl, hblocks⟩
        | succ i => exact .inr ⟨Nat.succ_ne_zero i, .inr ⟨p, hp, hblocks⟩⟩

/-- The texts after which the parser looks for an operand. -/
def operandLeads : List String :=
  ["||", "&&", "==", "!=", "<", "<=", ">", ">=", "+", "-", "*", "/", "%", "!", ",", "("]

/-- The number tokens of an expression start like a number. -/
theorem tokenizeLoop_num {fuel i : Nat} {cs : List Char} {t : Token}
    (ht : t ∈ tokenizeLoop fuel i cs) (hnum : t.type = .num) :
    ∃ c tl, t.value.toList = c :: tl ∧ isNumChar c = true := by
  induction fuel generalizing i cs with
  | zero => simp [tokenizeLoop] at ht
  | succ fuel ih =>
    cases cs with
    | nil => simp [tokenizeLoop] at ht
    | cons c cs =>
      rw [tokenizeLoop] at ht
      split at ht
      · exact ih ht
      split at ht
      · next hc =>
        rcases List.mem_cons.1 ht with rfl | ht
        · have hnumchar : isNumChar c = true := (Bool.and_eq_true_iff.1 hc).1
          exact ⟨c, cs.takeWhile isNumChar, by simp [hnumchar], hnumchar⟩
        · exact ih ht
      split at ht
      · rcases List.mem_cons.1 ht with rfl | ht
        · cases hnum
        · exact ih ht
      split at ht
      · rcases List.mem_cons.1 ht with rfl | ht
        · cases hnum
        · exact ih ht
      split at ht
      · next type value n hs =>
        rcases List.mem_cons.1 ht with rfl | ht
        · rcases scanOp_type hs with h | h <;> simp [h] at hnum
        · exact ih ht
      · exact ih ht

/-- The parser looks for an operand after these texts, and one may begin there. -/
theorem blocksOperand_of_lead {e : String} {t : Token} (ht : t ∈ tokenize e)
    (hlead : t.value ∈ operandLeads) : t.blocksOperand = false := by
  have hleads : operandLeads.all (fun s => s != "." &&
      s.toList.head?.all fun c => !isNumChar c && !isIdentStart c) = true := by decide
  obtain ⟨hdot, hhead⟩ := Bool.and_eq_true_iff.1 (List.all_eq_true.1 hleads t.value hlead)
  have hstart {c : Char} {tl : List Char} (hvalue : t.value.toList = c :: tl) :
      isNumChar c = false ∧ isIdentStart c = false := by
    rw [hvalue] at hhead
    simpa using hhead
  have hdot : (t.value == ".") = false := by simpa using hdot
  have hloop : t.type = .num ∨ t.type = .ident → t ∈ tokenizeLoop e.toList.length 0 e.toList := by
    intro htype
    refine (List.mem_append.1 ht).resolve_right fun hend => ?_
    rw [List.mem_singleton.1 hend] at htype
    rcases htype with h | h <;> cases h
  cases htype : t.type with
  | num =>
    obtain ⟨c, tl, hvalue, hc⟩ := tokenizeLoop_num (hloop (.inl htype)) htype
    rw [(hstart hvalue).1] at hc
    cases hc
  | ident =>
    obtain ⟨c, tl, hvalue, hc⟩ := tokenizeLoop_ident (hloop (.inr htype)) htype
    rw [(hstart hvalue).2] at hc
    cases hc
  | str | op | paren | eof => simp [Token.blocksOperand, htype, hdot]

/-! ## Evaluating on two scopes -/

section
variable {N : Type} {tokens : List Token}

theorem bind_same {α β : Type} {m₁ m₂ : ParserM α} {f₁ f₂ : α → ParserM β} {s : PState}
    (h : m₁ s = m₂ s) (hf : ∀ a s', f₁ a s' = f₂ a s') : (m₁ >>= f₁) s = (m₂ >>= f₂) s := by
  rw [bind_apply, bind_apply, h]
  rcases m₂ s with ⟨_ | a, s'⟩
  · rfl
  · exact hf a s'

theorem peek_same {β : Type} {property : String} {f₁ f₂ : Token → ParserM β} {s : PState}
    (h : ∀ t, tokens[s.pos]? = some t → f₁ t s = f₂ t s) :
    (peek tokens property >>= f₁) s = (peek tokens property >>= f₂) s := by
  rw [bind_apply, bind_apply, peek]
  cases ht : tokens[s.pos]? with
  | none => rfl
  | some t => exact h t ht

theorem next_same {β : Type} {property : String} {f₁ f₂ : Token → ParserM β} {s : PState}
    (h : ∀ t, tokens[s.pos]? = some t →
      f₁ t { s with pos := s.pos + 1 } = f₂ t { s with pos := s.pos + 1 }) :
    (next tokens property >>= f₁) s = (next tokens property >>= f₂) s := by
  rw [bind_apply, bind_apply, next]
  cases ht : tokens[s.pos]? with
  | none => rfl
  | some t => exact h t ht

theorem nested_same {α : Type} {m₁ m₂ : ParserM α} {s : PState}
    (h : ∀ s', s'.pos = s.pos → m₁ s' = m₂ s') : nested m₁ s = nested m₂ s := by
  unfold nested bracket enterNested
  simp only
  split
  · rfl
  · next henter =>
    cases (Prod.mk.inj henter).2
    show (_, leaveNested (m₁ ⟨s.pos, s.depth + 1⟩).2) = (_, leaveNested (m₂ ⟨s.pos, s.depth + 1⟩).2)
    rw [h ⟨s.pos, s.depth + 1⟩ rfl]

/-- The computations are alike where an operand may begin. -/
def OperandAlike {α : Type} (tokens : List Token) (m₁ m₂ : ParserM α) : Prop :=
  ∀ s, Opens tokens s.pos → m₁ s = m₂ s

/-- An operand may begin after these texts. -/
def LeadsOpen (tokens : List Token) : Prop :=
  ∀ t ∈ tokens, t.value ∈ operandLeads → t.blocksOperand = false

theorem opens_of_lead (hleads : LeadsOpen tokens) {p : Nat} {t : Token} (ht : tokens[p]? = some t)
    (hlead : t.value ∈ operandLeads) : Opens tokens (p + 1) :=
  .inr ⟨t, ht, hleads t (List.mem_of_getElem? ht) hlead⟩

variable {m₁ m₂ : ParserM (JsVal N)}

theorem leftAssoc_same (hleads : LeadsOpen tokens) (hm : OperandAlike tokens m₁ m₂)
    {isOp : String → Bool} (hop : ∀ s, isOp s = true → s ∈ operandLeads)
    {combine : String → JsVal N → JsVal N → JsVal N} (fuel : Nat) (left : JsVal N) (s : PState) :
    leftAssoc tokens isOp m₁ combine fuel left s =
      leftAssoc tokens isOp m₂ combine fuel left s := by
  induction fuel generalizing left s with
  | zero => rfl
  | succ fuel ih =>
    refine peek_same fun t ht => ?_
    split
    · next hisop =>
      refine next_same fun op _ => bind_same (hm _ ?_) fun right s' => ih _ s'
      exact opens_of_lead hleads ht (hop t.value hisop)
    · rfl

theorem arrayLoop_same (hleads : LeadsOpen tokens) (hm : OperandAlike tokens m₁ m₂) (fuel : Nat)
    (arr : List (JsVal N)) {s : PState} (hs : Opens tokens s.pos) :
    arrayLoop tokens m₁ fuel arr s = arrayLoop tokens m₂ fuel arr s := by
  induction fuel generalizing arr s with
  | zero => rfl
  | succ fuel ih =>
    refine bind_same (hm s hs) fun v s' => next_same fun sep hsep => ?_
    split
    · rfl
    split
    · rfl
    · next hcomma =>
      refine peek_same fun t _ => ?_
      split
      · rfl
      · refine ih _ (opens_of_lead hleads hsep ?_)
        have hvalue : sep.value = "," := by simpa using hcomma
        rw [hvalue]
        decide

theorem argsLoop_same (hleads : LeadsOpen tokens) (hm : OperandAlike tokens m₁ m₂) (fuel : Nat)
    (args : List (JsVal N)) (s : PState) :
    argsLoop tokens m₁ fuel args s = argsLoop tokens m₂ fuel args s := by
  induction fuel generalizing args s with
  | zero => rfl
  | succ fuel ih =>
    refine peek_same fun t ht => ?_
    split
    · next hcomma =>
      refine next_same fun _ _ => bind_same (hm _ ?_) fun v s' => ih _ s'
      refine opens_of_lead hleads ht ?_
      rw [eq_of_beq hcomma]
      decide
    · rfl

theorem parseArray_same (hleads : LeadsOpen tokens) (hm : OperandAlike tokens m₁ m₂) (fuel : Nat) :
    OperandAlike tokens (parseArray tokens m₁ fuel) (parseArray tokens m₂ fuel) := by
  intro s hs
  refine peek_same fun t _ => ?_
  split
  · rfl
  · exact arrayLoop_same hleads hm fuel [] hs

theorem parseArgs_same (hleads : LeadsOpen tokens) (hm : OperandAlike tokens m₁ m₂) (fuel : Nat) :
    OperandAlike tokens (parseArgs tokens m₁ fuel) (parseArgs tokens m₂ fuel) := by
  intro s hs
  refine nested_same fun s' hpos => bind_same ?_ fun args s'' => rfl
  refine peek_same fun t _ => ?_
  split
  · refine bind_same (hm s' (hpos ▸ hs)) fun v s'' => ?_
    exact argsLoop_same hleads hm fuel [v] s''
  · rfl

end

section
variable {N : Type} [JsNumber N] {tokens : List Token} {registry : Registry N}
  {scope₁ scope₂ : String → Option (JsVal N)} {m₁ m₂ : ParserM (JsVal N)}

/-- What follows an identifier, which is the token before. -/
theorem parseIdent_same (hleads : LeadsOpen tokens)
    (hscopes : ∀ name ∈ readScan false tokens, scope₁ name = scope₂ name)
    (hm : OperandAlike tokens m₁ m₂) (fuel : Nat) {i d : Nat} {t : Token}
    (ht : tokens[i]? = some t) (hident : t.type = .ident) (hopens : Opens tokens i) :
    parseIdent ⟨scope₁, registry⟩ tokens m₁ fuel t.value ⟨i + 1, d⟩ =
      parseIdent ⟨scope₂, registry⟩ tokens m₂ fuel t.value ⟨i + 1, d⟩ := by
  have hcall (name : String) {s : PState} (hs : ∀ q, tokens[s.pos]? = some q → q.value = "(") :
      (do let _ ← next tokens "value"
          let args ← parseArgs tokens m₁ fuel
          callFunction ⟨scope₁, registry⟩ name args) s =
      (do let _ ← next tokens "value"
          let args ← parseArgs tokens m₂ fuel
          callFunction ⟨scope₂, registry⟩ name args) s := by
    refine next_same fun q hq => bind_same ?_ fun args s' => rfl
    refine parseArgs_same hleads hm fuel _ (opens_of_lead hleads hq ?_)
    rw [hs q hq]
    decide
  have hread (h : isRead t.value (tokens.drop (i + 1)) = true) :
      resolveIdentifier ⟨scope₁, registry⟩ t.value =
        resolveIdentifier ⟨scope₂, registry⟩ t.value := by
    refine congrArg (·.getD .undefined) (hscopes t.value (mem_readScan ht hident h ?_))
    by_cases hi : i = 0
    · exact .inl ⟨hi, rfl⟩
    · exact .inr ⟨hi, hopens⟩
  have hdrop {p : Token} {j : Nat} (hp : tokens[j]? = some p) :
      tokens.drop j = p :: tokens.drop (j + 1) := by
    obtain ⟨hj, hp⟩ := List.getElem?_eq_some_iff.1 hp
    rw [List.drop_eq_getElem_cons hj, hp]
  refine peek_same fun p hp => ?_
  split
  · next hdot =>
    refine next_same fun _ _ => next_same fun member hmember => ?_
    split
    · rfl
    · next hname =>
      refine peek_same fun q hq => ?_
      split
      · next hcalled =>
        refine hcall _ fun q' hq' => ?_
        obtain rfl := Option.some.inj (hq.symm.trans hq')
        exact eq_of_beq hcalled
      · next hnotcalled =>
        have hname : member.type = .ident := by simpa using hname
        have heq := hread (by
          rw [hdrop hp, hdrop hmember, hdrop hq, isRead, if_pos hdot]
          simpa [hname] using hnotcalled)
        exact congrArg (fun v => (Except.ok v, _)) (by rw [resolveMember, heq]; rfl)
  · next hdot =>
    split
    · next hcalled =>
      refine hcall _ fun q hq => ?_
      obtain rfl := Option.some.inj (hp.symm.trans hq)
      exact eq_of_beq hcalled
    · next hnotcalled =>
      split
      · rfl
      split
      · rfl
      split
      · rfl
      · next htrue hfalse hnull =>
        have heq := hread (by
          rw [hdrop hp, isRead_of_not_dot hdot]
          simp only [beq_iff_eq] at htrue hfalse hnull hnotcalled
          simp [keywords, htrue, hfalse, hnull, hnotcalled])
        exact congrArg (fun v => (Except.ok v, _)) heq

/-- The levels of the ladder are alike on two scopes. -/
structure LadderSame (registry : Registry N) (scope₁ scope₂ : String → Option (JsVal N))
    (tokens : List Token) (fuel : Nat) : Prop where
  or : OperandAlike tokens (parseLogicalOr ⟨scope₁, registry⟩ tokens fuel)
    (parseLogicalOr ⟨scope₂, registry⟩ tokens fuel)
  and : OperandAlike tokens (parseLogicalAnd ⟨scope₁, registry⟩ tokens fuel)
    (parseLogicalAnd ⟨scope₂, registry⟩ tokens fuel)
  comparison : OperandAlike tokens (parseComparison ⟨scope₁, registry⟩ tokens fuel)
    (parseComparison ⟨scope₂, registry⟩ tokens fuel)
  additive : OperandAlike tokens (parseAdditive ⟨scope₁, registry⟩ tokens fuel)
    (parseAdditive ⟨scope₂, registry⟩ tokens fuel)
  multiplicative : OperandAlike tokens (parseMultiplicative ⟨scope₁, registry⟩ tokens fuel)
    (parseMultiplicative ⟨scope₂, registry⟩ tokens fuel)
  unary : OperandAlike tokens (parseUnary ⟨scope₁, registry⟩ tokens fuel)
    (parseUnary ⟨scope₂, registry⟩ tokens fuel)
  primary : OperandAlike tokens (parsePrimary ⟨scope₁, registry⟩ tokens fuel)
    (parsePrimary ⟨scope₂, registry⟩ tokens fuel)

omit [JsNumber N] in
/-- A left-associative level. -/
theorem level_scopes (hleads : LeadsOpen tokens) {isOp : String → Bool}
    (hop : ∀ s, isOp s = true → s ∈ operandLeads)
    {combine : String → JsVal N → JsVal N → JsVal N} (hm : OperandAlike tokens m₁ m₂) (fuel : Nat) :
    OperandAlike tokens (do let left ← m₁; leftAssoc tokens isOp m₁ combine fuel left)
      (do let left ← m₂; leftAssoc tokens isOp m₂ combine fuel left) := by
  intro s hs
  exact bind_same (hm s hs) fun left s' => leftAssoc_same hleads hm hop fuel left s'

section
variable {fuel : Nat} (hleads : LeadsOpen tokens)
  (ih : LadderSame registry scope₁ scope₂ tokens fuel)
include hleads ih

theorem comparison_scopes :
    OperandAlike tokens (parseComparison ⟨scope₁, registry⟩ tokens (fuel + 1))
      (parseComparison ⟨scope₂, registry⟩ tokens (fuel + 1)) := by
  intro s hs
  rw [parseComparison, parseComparison]
  refine bind_same (ih.additive s hs) fun left s' => peek_same fun op hop => ?_
  split
  · next hcomparison =>
    refine next_same fun _ _ => bind_same (ih.additive _ ?_) fun _ _ => rfl
    refine opens_of_lead hleads hop ?_
    have hsub : comparisonOps.all operandLeads.contains = true := by decide
    exact List.contains_iff_mem.1 (List.all_eq_true.1 hsub _ (List.contains_iff_mem.1 hcomparison))
  · rfl

theorem unary_scopes : OperandAlike tokens (parseUnary ⟨scope₁, registry⟩ tokens (fuel + 1))
    (parseUnary ⟨scope₂, registry⟩ tokens (fuel + 1)) := by
  intro s hs
  rw [parseUnary, parseUnary]
  refine nested_same fun s' hpos => peek_same fun t ht => ?_
  have hopens {lead : String} (h : (t.value == lead) = true) (hlead : lead ∈ operandLeads) :
      Opens tokens (s'.pos + 1) :=
    opens_of_lead hleads ht (eq_of_beq h ▸ hlead)
  split
  · next hminus =>
    refine next_same fun _ _ => bind_same (ih.unary _ (hopens hminus ?_)) fun _ _ => rfl
    decide
  split
  · next hnot =>
    refine next_same fun _ _ => bind_same (ih.unary _ (hopens hnot ?_)) fun _ _ => rfl
    decide
  · exact ih.primary s' (hpos ▸ hs)

theorem primary_scopes (hscopes : ∀ name ∈ readScan false tokens, scope₁ name = scope₂ name) :
    OperandAlike tokens (parsePrimary ⟨scope₁, registry⟩ tokens (fuel + 1))
      (parsePrimary ⟨scope₂, registry⟩ tokens (fuel + 1)) := by
  intro s hs
  rw [parsePrimary, parsePrimary]
  refine next_same fun t ht => ?_
  unfold primaryFrom
  cases htype : t.type with
  | num => rfl
  | str => rfl
  | paren =>
    have hopens : Opens tokens (s.pos + 1) := .inr ⟨t, ht, by simp [Token.blocksOperand, htype]⟩
    refine nested_same fun s' hpos => ?_
    have hopens : Opens tokens s'.pos := hpos ▸ hopens
    split
    · exact parseArray_same hleads ih.or fuel s' hopens
    split
    · rfl
    · exact bind_same (ih.or s' hopens) fun _ _ => rfl
  | ident => exact parseIdent_same hleads hscopes ih.or fuel ht htype hs
  | op => rfl
  | eof => rfl

end

/-- Every level is alike on two scopes that agree on the names that are read. -/
theorem ladderSame (hleads : LeadsOpen tokens)
    (hscopes : ∀ name ∈ readScan false tokens, scope₁ name = scope₂ name) (fuel : Nat) :
    LadderSame registry scope₁ scope₂ tokens fuel := by
  have hone {lead : String} (hlead : lead ∈ operandLeads) :
      ∀ s, (s == lead) = true → s ∈ operandLeads := fun s h => eq_of_beq h ▸ hlead
  have hany {ops : List String} (hops : ops.all operandLeads.contains = true) :
      ∀ s, ops.contains s = true → s ∈ operandLeads := fun s h =>
    List.contains_iff_mem.1 (List.all_eq_true.1 hops s (List.contains_iff_mem.1 h))
  induction fuel with
  | zero => constructor <;> exact fun _ _ => rfl
  | succ fuel ih =>
    constructor
    case or =>
      rw [parseLogicalOr, parseLogicalOr]
      exact level_scopes hleads (hone (by decide)) ih.and fuel
    case and =>
      rw [parseLogicalAnd, parseLogicalAnd]
      exact level_scopes hleads (hone (by decide)) ih.comparison fuel
    case comparison => exact comparison_scopes hleads ih
    case additive =>
      rw [parseAdditive, parseAdditive]
      exact level_scopes hleads (hany (by decide)) ih.multiplicative fuel
    case multiplicative =>
      rw [parseMultiplicative, parseMultiplicative]
      exact level_scopes hleads (hany (by decide)) ih.unary fuel
    case unary => exact unary_scopes hleads ih
    case primary => exact primary_scopes hleads ih hscopes

/-- On scopes that agree on the names it reads, an expression evaluates alike. -/
theorem evaluateWith_congr {expression : String}
    (hscopes : ∀ name ∈ readNames expression, scope₁ name = scope₂ name) :
    evaluateWith ⟨scope₁, registry⟩ expression = evaluateWith ⟨scope₂, registry⟩ expression := by
  have hleads : LeadsOpen (tokenize expression) := fun t ht => blocksOperand_of_lead ht
  have hparse : parse ⟨scope₁, registry⟩ (tokenize expression) =
      parse ⟨scope₂, registry⟩ (tokenize expression) :=
    bind_same ((ladderSame hleads hscopes _).or ⟨0, 0⟩ (.inl rfl)) fun _ _ => rfl
  unfold evaluateWith parseExpression
  rw [hparse]

/-- A member and a constant are not looked up, and neither is a name that is called. -/
theorem evaluateWith_congr_list :
    evaluateWith ⟨fun name => if name = "row" then some (.obj [("qty", .num (some 2))]) else none,
        listRegistry⟩ "LIST(row.qty, true)" =
      evaluateWith ⟨fun name => some (if name = "row" then .obj [("qty", .num (some 2))] else .null),
        listRegistry⟩ "LIST(row.qty, true)" := by
  have hreads : readNames "LIST(row.qty, true)" = ["row"] := by decide
  refine evaluateWith_congr fun name hname => ?_
  rw [hreads, List.mem_singleton] at hname
  rw [hname]
  rfl

end

end HeadlessErp
