import Mathlib.Data.List.Infix
import HeadlessErp.Base.Except
import HeadlessErp.Expression.Totality

/-!
# What an expression sees

An identifier resolves an own property of the scope, a call a function of the registry, and a member
access whatever the object has under the name, the members it inherits too. An expression sees data
only, and only the objects' own, exactly where none of its member accesses names an inherited member
(`seesOwnData_iff`).
-/

namespace HeadlessErp

open StateExcept

section
variable {N : Type}

/-! ## Data -/

/-- A value without a function in it. -/
inductive JsVal.IsData : JsVal N → Prop
  | undefined : IsData .undefined
  | null : IsData .null
  | bool (b : Bool) : IsData (.bool b)
  | num (n : N) : IsData (.num n)
  | str (s : String) : IsData (.str s)
  | arr {xs : List (JsVal N)} : (∀ x ∈ xs, IsData x) → IsData (.arr xs)
  | obj {kvs : List (String × JsVal N)} : (∀ kv ∈ kvs, IsData kv.2) → IsData (.obj kvs)

/-- What an expression is evaluated against: a scope of data, and functions that make data of
data. -/
structure DataEnv (N : Type) extends EvalEnv N where
  scope_data : ∀ name v, scope name = some v → v.IsData
  registry_data : ∀ name f args v, registry name = some f → (∀ a ∈ args, a.IsData) →
    f args = .ok v → v.IsData

variable [JsNumber N]

/-! ## Members -/

/-- The own property of a value, as an object. -/
def ownValue : JsVal N → String → JsVal N
  | .obj kvs, member => (JsVal.ownMember kvs member).getD .undefined
  | .arr xs, member =>
    if member == "length" then .num (JsNumber.ofInt xs.length) else .undefined
  | _, _ => .undefined

/-- The value inherits the member from its prototype, and has none of its own under the name. -/
def inherits : JsVal N → String → Bool
  | .obj kvs, member => (JsVal.ownMember kvs member).isNone &&
      (JsVal.objectMembers.contains member || member == "__proto__")
  | .arr _, member => member != "length" && (JsVal.arrayMembers.contains member ||
      JsVal.objectMembers.contains member || member == "__proto__")
  | _, _ => false

/-- A member access resolves the own property just when the member is not inherited. -/
theorem resolveMember_eq_own (env : EvalEnv N) (base member : String) :
    resolveMember env base member = ownValue (resolveIdentifier env base) member ↔
      inherits (resolveIdentifier env base) member = false := by
  unfold resolveMember
  generalize resolveIdentifier env base = v
  cases v with
  | obj kvs =>
    simp only [JsVal.truthy, JsVal.isObject, Bool.and_self, if_true, JsVal.getMember, ownValue,
      inherits]
    cases hown : JsVal.ownMember kvs member with
    | some v => simp
    | none =>
      cases hfunc : JsVal.objectMembers.contains member <;>
        cases hproto : member == "__proto__" <;> simp
  | arr xs =>
    simp only [JsVal.truthy, JsVal.isObject, Bool.and_self, if_true, JsVal.getMember, ownValue,
      inherits]
    cases hlength : member == "length" with
    | true => simp [bne, hlength]
    | false =>
      cases harr : JsVal.arrayMembers.contains member <;>
        cases hfunc : JsVal.objectMembers.contains member <;>
          cases hproto : member == "__proto__" <;> simp [bne, hlength]
  | undefined | null | bool | num | str | func =>
    simp [JsVal.isObject, JsVal.getMember, ownValue, inherits]

/-- The own properties of data are data. -/
theorem isData_ownValue {v : JsVal N} (h : v.IsData) (member : String) :
    (ownValue v member).IsData := by
  cases h with
  | obj h =>
    rw [ownValue, JsVal.ownMember]
    cases hfind : List.find? (fun kv : String × JsVal N => kv.1 == member) _ with
    | none => exact .undefined
    | some kv => exact h kv (List.mem_of_find?_eq_some hfind)
  | arr h =>
    rw [ownValue]
    split
    · exact .num _
    · exact .undefined
  | undefined | null | bool | num | str => exact .undefined

omit [JsNumber N] in
theorem isData_resolveIdentifier (env : DataEnv N) (name : String) :
    (resolveIdentifier env.toEvalEnv name).IsData := by
  rw [resolveIdentifier]
  cases hscope : env.scope name with
  | none => exact .undefined
  | some v => exact env.scope_data name v hscope

/-! ## The member accesses of an expression -/

/-- The member access that some tokens begin with: a name, a dot and a name that is not called. -/
def memberAccess : List Token → Option (String × String)
  | base :: dot :: member :: next :: _ =>
    if base.type = .ident ∧ dot.type = .op ∧ dot.value = "." ∧ member.type = .ident ∧
        next.value ≠ "(" then some (base.value, member.value)
    else none
  | _ => none

/-- The member accesses of an expression. -/
def memberAccesses (tokens : List Token) : List (String × String) :=
  tokens.tails.filterMap memberAccess

theorem mem_memberAccesses {tokens : List Token} {i : Nat} {base dot member next : Token}
    (hbase : tokens[i]? = some base) (hdot : tokens[i + 1]? = some dot)
    (hmember : tokens[i + 2]? = some member) (hnext : tokens[i + 3]? = some next)
    (h : base.type = .ident ∧ dot.type = .op ∧ dot.value = "." ∧ member.type = .ident ∧
      next.value ≠ "(") : (base.value, member.value) ∈ memberAccesses tokens := by
  have hdrop {j : Nat} {t : Token} (ht : tokens[j]? = some t) :
      tokens.drop j = t :: tokens.drop (j + 1) := by
    obtain ⟨hlt, rfl⟩ := List.getElem?_eq_some_iff.1 ht
    exact List.drop_eq_getElem_cons hlt
  have htail : tokens.drop i ∈ tokens.tails := (List.mem_tails _ _).2 (List.drop_suffix i tokens)
  refine List.mem_filterMap.2 ⟨tokens.drop i, htail, ?_⟩
  rw [hdrop hbase, hdrop hdot, hdrop hmember, hdrop hnext, memberAccess, if_pos h]

/-! ## The values of the parser -/

/-- Whatever the computation returns is data. -/
def Yields (m : ParserM (JsVal N)) : Prop :=
  Triple (fun _ => True) (fun _ => True) m fun v _ => v.IsData

/-- Whatever the computation returns is a list of data. -/
def YieldsAll (m : ParserM (List (JsVal N))) : Prop :=
  Triple (fun _ => True) (fun _ => True) m fun vs _ => ∀ v ∈ vs, v.IsData

section
variable {tokens : List Token} {m : ParserM (JsVal N)}

/-- A computation whose value nothing depends on. -/
theorem anyway {α : Type} (m : ParserM α) :
    Triple (fun _ => True) (fun _ => True) m fun _ _ => True := by
  intro s _
  rcases m s with ⟨_ | a, s'⟩ <;> trivial

theorem nested_yields {α : Type} {m : ParserM α} {P : α → Prop}
    (h : Triple (fun _ => True) (fun _ => True) m fun v _ => P v) :
    Triple (fun _ => True) (fun _ => True) (nested m) fun v _ => P v :=
  Triple.bracket (fun _ _ _ => trivial) (fun _ _ => trivial) h fun _ _ => id

omit [JsNumber N] in
/-- The loop of a left-associative level. -/
theorem leftAssoc_yields {isOp : String → Bool} {combine : String → JsVal N → JsVal N → JsVal N}
    (hm : Yields m) (hcombine : ∀ op l r, (combine op l r).IsData) (fuel : Nat) {left : JsVal N}
    (hleft : left.IsData) : Yields (leftAssoc tokens isOp m combine fuel left) := by
  induction fuel generalizing left with
  | zero => exact .fail trivial
  | succ fuel ih =>
    refine (anyway (peek tokens "value")).bind fun t => ?_
    split
    · refine (anyway (next tokens "value")).bind fun op => hm.bind fun right => ?_
      exact (ih (hcombine op.value left right)).conseq (fun _ _ => trivial) fun _ _ => id
    · exact .pure fun _ _ => hleft

omit [JsNumber N] in
/-- A left-associative level. -/
theorem level_yields {isOp : String → Bool} {combine : String → JsVal N → JsVal N → JsVal N}
    (hm : Yields m) (hcombine : ∀ op l r, (combine op l r).IsData) (fuel : Nat) :
    Yields (do let left ← m; leftAssoc tokens isOp m combine fuel left) :=
  hm.bind fun _ s hleft => leftAssoc_yields hm hcombine fuel hleft s trivial

omit [JsNumber N] in
theorem isData_append {vs : List (JsVal N)} (hvs : ∀ v ∈ vs, v.IsData) {v : JsVal N}
    (hv : v.IsData) : ∀ u ∈ vs ++ [v], u.IsData :=
  List.forall_mem_append.2 ⟨hvs, List.forall_mem_singleton.2 hv⟩

omit [JsNumber N] in
/-- The loop of an array literal. -/
theorem arrayLoop_yields (hm : Yields m) (fuel : Nat) {arr : List (JsVal N)}
    (harr : ∀ v ∈ arr, v.IsData) : Yields (arrayLoop tokens m fuel arr) := by
  induction fuel generalizing arr with
  | zero => exact .fail trivial
  | succ fuel ih =>
    refine hm.bind fun v s hv => ?_
    have hnew := isData_append harr hv
    refine ((anyway (next tokens "value")).bind fun sep => ?_) s trivial
    split
    · exact .pure fun _ _ => .arr hnew
    split
    · exact (anyway (peek tokens "pos")).bind fun t => .fail trivial
    · refine (anyway (peek tokens "value")).bind fun t => ?_
      split
      · exact (anyway (next tokens "value")).bind fun _ => .pure fun _ _ => .arr hnew
      · exact ih hnew

omit [JsNumber N] in
/-- The loop of an argument list. -/
theorem argsLoop_yields (hm : Yields m) (fuel : Nat) {args : List (JsVal N)}
    (hargs : ∀ v ∈ args, v.IsData) : YieldsAll (argsLoop tokens m fuel args) := by
  induction fuel generalizing args with
  | zero => exact .fail trivial
  | succ fuel ih =>
    refine (anyway (peek tokens "value")).bind fun t => ?_
    split
    · refine (anyway (next tokens "value")).bind fun _ => hm.bind fun v s hv => ?_
      exact ih (isData_append hargs hv) s trivial
    · exact .pure fun _ _ => hargs

omit [JsNumber N] in
/-- An array literal. -/
theorem parseArray_yields (hm : Yields m) (fuel : Nat) : Yields (parseArray tokens m fuel) := by
  refine (anyway (peek tokens "value")).bind fun t => ?_
  split
  · exact (anyway (next tokens "value")).bind fun _ => .pure fun _ _ => .arr (List.forall_mem_nil _)
  · exact arrayLoop_yields hm fuel (List.forall_mem_nil _)

omit [JsNumber N] in
/-- An argument list. -/
theorem parseArgs_yields (hm : Yields m) (fuel : Nat) : YieldsAll (parseArgs tokens m fuel) := by
  have hlist : YieldsAll (argList tokens m fuel) := by
    refine (anyway (peek tokens "value")).bind fun t => ?_
    split
    · refine hm.bind fun v s hv => ?_
      exact argsLoop_yields hm fuel (List.forall_mem_singleton.2 hv) s trivial
    · exact .pure fun _ _ => List.forall_mem_nil _
  refine nested_yields (hlist.bind fun args s hargs => ?_)
  exact ((anyway (expectOp tokens ")")).bind fun _ => .pure fun _ _ => hargs) s trivial

variable (env : DataEnv N)

/-- A call. -/
theorem callFunction_yields (name : String) {args : List (JsVal N)}
    (hargs : ∀ v ∈ args, v.IsData) : Yields (callFunction env.toEvalEnv name args) := by
  unfold callFunction
  cases hname : env.registry name with
  | some f =>
    dsimp only
    cases hcall : f args with
    | ok v => exact .pure fun _ _ => env.registry_data name f args v hname hargs hcall
    | error message => exact .fail trivial
  | none =>
    cases mathName name with
    | some math =>
      dsimp only
      split
      · exact .pure fun _ _ => .num _
      · exact .fail trivial
    | none => exact .fail trivial

/-- The token that is peeked at. -/
theorem peek_at (property : String) (p : Nat) :
    Triple (fun _ => True) (fun st => st.pos = p) (peek tokens property)
      fun t st => tokens[p]? = some t ∧ st.pos = p := by
  intro st hst
  unfold peek
  cases htoken : tokens[st.pos]? with
  | none => trivial
  | some t => exact ⟨hst ▸ htoken, hst⟩

/-- The token that is consumed. -/
theorem next_at (property : String) (p : Nat) :
    Triple (fun _ => True) (fun st => st.pos = p) (next tokens property)
      fun t st => tokens[p]? = some t ∧ st.pos = p + 1 := by
  intro st hst
  unfold next
  cases htoken : tokens[st.pos]? with
  | none => trivial
  | some t => exact ⟨hst ▸ htoken, congrArg (· + 1) hst⟩

end

/-! ## The ladder -/

section
variable {env : DataEnv N} {tokens : List Token} {m : ParserM (JsVal N)}

/-- No member access of the tokens names an inherited member. -/
def AccessesOwn (env : DataEnv N) (tokens : List Token) : Prop :=
  ∀ access ∈ memberAccesses tokens,
    inherits (resolveIdentifier env.toEvalEnv access.1) access.2 = false

/-- What follows an identifier, which is the token before. -/
theorem parseIdent_yields (hown : AccessesOwn env tokens) (hm : Yields m) (fuel : Nat) {i : Nat}
    {t : Token} (ht : tokens[i]? = some t) (hident : t.type = .ident) :
    Triple (fun _ => True) (fun st => st.pos = i + 1)
      (parseIdent env.toEvalEnv tokens m fuel t.value) fun v _ => v.IsData := by
  have hcall (name : String) (p : Nat) : Triple (fun _ => True) (fun st => st.pos = p)
      (do let _ ← next tokens "value"
          let args ← parseArgs tokens m fuel
          callFunction env.toEvalEnv name args) fun v _ => v.IsData := by
    refine (next_at "value" p).bind fun _ s _ => ?_
    refine (Triple.bind (parseArgs_yields hm fuel) fun args s hargs => ?_) s trivial
    exact callFunction_yields env name hargs s trivial
  refine (peek_at "value" (i + 1)).bind fun dot => .assume fun hdot => ?_
  split
  · next haccess =>
    rw [Bool.and_eq_true, beq_iff_eq, beq_iff_eq] at haccess
    refine (next_at "value" (i + 1)).bind fun _ => .assume fun _ => ?_
    refine (next_at "type" (i + 2)).bind fun member => .assume fun hmember => ?_
    split
    · exact .fail trivial
    · next hname =>
      refine (peek_at "value" (i + 3)).bind fun called => .assume fun hcalled => ?_
      split
      · exact hcall _ _
      · next hnotcalled =>
        refine .pure fun _ _ => ?_
        have hmem := mem_memberAccesses ht hdot hmember hcalled
          ⟨hident, haccess.2, haccess.1, by simpa using hname, by simpa using hnotcalled⟩
        rw [(resolveMember_eq_own _ _ _).2 (hown _ hmem)]
        exact isData_ownValue (isData_resolveIdentifier env t.value) member.value
  split
  · exact hcall _ _
  split
  · exact .pure fun _ _ => .bool true
  split
  · exact .pure fun _ _ => .bool false
  split
  · exact .pure fun _ _ => .null
  · exact .pure fun _ _ => isData_resolveIdentifier env t.value

/-- The levels of the ladder yield data. -/
structure LadderYields (env : DataEnv N) (tokens : List Token) (fuel : Nat) : Prop where
  or : Yields (parseLogicalOr env.toEvalEnv tokens fuel)
  and : Yields (parseLogicalAnd env.toEvalEnv tokens fuel)
  comparison : Yields (parseComparison env.toEvalEnv tokens fuel)
  additive : Yields (parseAdditive env.toEvalEnv tokens fuel)
  multiplicative : Yields (parseMultiplicative env.toEvalEnv tokens fuel)
  unary : Yields (parseUnary env.toEvalEnv tokens fuel)
  primary : Yields (parsePrimary env.toEvalEnv tokens fuel)

section
variable {fuel : Nat} (ih : LadderYields env tokens fuel)
include ih

theorem comparison_yields : Yields (parseComparison env.toEvalEnv tokens (fuel + 1)) := by
  rw [parseComparison]
  refine Triple.bind ih.additive fun left s hleft => ?_
  refine ((anyway (peek tokens "value")).bind fun op => ?_) s trivial
  split
  · refine (anyway (next tokens "value")).bind fun _ => Triple.bind ih.additive fun right => ?_
    refine .pure fun _ _ => ?_
    unfold applyComparison
    split <;> first | exact .bool _ | exact hleft
  · exact .pure fun _ _ => hleft

theorem unary_yields : Yields (parseUnary env.toEvalEnv tokens (fuel + 1)) := by
  rw [parseUnary]
  refine nested_yields ((anyway (peek tokens "value")).bind fun t => ?_)
  split
  · exact (anyway (next tokens "value")).bind fun _ => Triple.bind ih.unary fun _ =>
      .pure fun _ _ => .num _
  split
  · exact (anyway (next tokens "value")).bind fun _ => Triple.bind ih.unary fun _ =>
      .pure fun _ _ => .bool _
  · exact ih.primary

theorem primary_yields (hown : AccessesOwn env tokens) :
    Yields (parsePrimary env.toEvalEnv tokens (fuel + 1)) := by
  rw [parsePrimary]
  intro s _
  refine ((next_at "type" s.pos).bind fun t => .assume fun ht => ?_) s rfl
  unfold primaryFrom
  cases htype : t.type with
  | num => exact .pure fun _ _ => .num _
  | str => exact .pure fun _ _ => .str _
  | paren =>
    have hgroup : Yields (nested do
        if t.value == "[" then parseArray tokens (parseLogicalOr env.toEvalEnv tokens fuel) fuel
        else if t.value != "(" then StateExcept.fail (.unexpected t.value)
        else
          let value ← parseLogicalOr env.toEvalEnv tokens fuel
          expectOp tokens ")"
          pure value) := by
      refine nested_yields ?_
      split
      · exact parseArray_yields ih.or fuel
      split
      · exact .fail trivial
      · refine Triple.bind ih.or fun value s hvalue => ?_
        exact ((anyway (expectOp tokens ")")).bind fun _ => .pure fun _ _ => hvalue) s trivial
    exact hgroup.conseq (fun _ _ => trivial) fun _ _ => id
  | ident => exact parseIdent_yields hown ih.or fuel ht htype
  | op => exact .fail trivial
  | eof => exact .fail trivial

end

/-- Every level yields data. -/
theorem ladderYields (hown : AccessesOwn env tokens) (fuel : Nat) :
    LadderYields env tokens fuel := by
  induction fuel with
  | zero => constructor <;> exact .fail trivial
  | succ fuel ih =>
    constructor
    case or => rw [parseLogicalOr]; exact level_yields ih.and (fun _ _ _ => .bool _) fuel
    case and => rw [parseLogicalAnd]; exact level_yields ih.comparison (fun _ _ _ => .bool _) fuel
    case comparison => exact comparison_yields ih
    case additive =>
      rw [parseAdditive]
      refine level_yields ih.multiplicative (fun op _ _ => ?_) fuel
      unfold applyAdditive
      split <;> exact .num _
    case multiplicative =>
      rw [parseMultiplicative]
      refine level_yields ih.unary (fun op _ _ => ?_) fuel
      unfold applyMultiplicative
      split
      · exact .num _
      split <;> exact .num _
    case unary => exact unary_yields ih
    case primary => exact primary_yields ih hown

end

/-! ## Evaluation -/

/-- The member accesses of the expression resolve own properties only, and an evaluation of it
returns nothing but data. -/
structure SeesOwnData (env : DataEnv N) (expression : String) : Prop where
  own : ∀ access ∈ memberAccesses (tokenize expression),
    resolveMember env.toEvalEnv access.1 access.2 =
      ownValue (resolveIdentifier env.toEvalEnv access.1) access.2
  data : ∀ v, evaluateWith env.toEvalEnv expression = .ok v → v.IsData

/-- What an evaluation returns is data, unless a member access names an inherited member. -/
theorem isData_of_accessesOwn {env : DataEnv N} {expression : String} {v : JsVal N}
    (hown : AccessesOwn env (tokenize expression))
    (hv : evaluateWith env.toEvalEnv expression = .ok v) : v.IsData := by
  obtain ⟨_, -, hparse⟩ := exists_of_bind_eq_ok hv
  have hyields : Yields (parseWith env.toEvalEnv (tokenize expression)
      (parseFuel (tokenize expression))) := by
    refine Triple.bind (ladderYields hown _).or fun value s hvalue => ?_
    refine ((anyway (peek (tokenize expression) "type")).bind fun t => ?_) s trivial
    split
    · exact .fail trivial
    · exact .pure fun _ _ => hvalue
  have hend : parseWith env.toEvalEnv (tokenize expression) (parseFuel (tokenize expression))
      ⟨0, 0⟩ = (.ok v, (parse env.toEvalEnv (tokenize expression)).2) :=
    StateExcept.eq_of_fst_eq hparse
  have hresult := hyields ⟨0, 0⟩ trivial
  rw [hend] at hresult
  exact hresult

/-- An expression sees own data exactly where none of its member accesses names an inherited
member. -/
theorem seesOwnData_iff (env : DataEnv N) (expression : String) :
    SeesOwnData env expression ↔ AccessesOwn env (tokenize expression) := by
  constructor
  · intro h access haccess
    exact (resolveMember_eq_own _ _ _).1 (h.own access haccess)
  · intro hown
    refine ⟨fun access haccess => ?_, fun v hv => isData_of_accessesOwn hown hv⟩
    exact (resolveMember_eq_own _ _ _).2 (hown access haccess)

end

/-- The lines of an order, and no function. -/
def lineScope : DataEnv (Option Int) where
  scope name := if name = "items" then some (.arr []) else none
  registry _ := none
  scope_data name v h := by
    split at h
    · cases h
      exact .arr (List.forall_mem_nil _)
    · cases h
  registry_data name f args v h := by cases h

/-- The constructor of the lines is a function. -/
theorem constructor_of_lines : ¬SeesOwnData lineScope "items.constructor" := by
  intro h
  have heval : evaluateWith lineScope.toEvalEnv "items.constructor" =
      .ok (.func "constructor") := rfl
  cases h.data _ heval

end HeadlessErp
