import HeadlessErp.Entity.Row
import HeadlessErp.Expression.Parser

/-!
# Server rules

The declarative hooks of `apps/api/src/plugins/server-functions/service.ts`: lists of rules that
change a document in place or abort the operation, with the conditions and values of
`packages/core/src/entity/linkage-engine.ts`.
-/

namespace HeadlessErp

/-- The operators of a condition. -/
inductive ConditionOp where
  | eq
  | neq
  | in
  | nin
  | gt
  | gte
  | lt
  | lte
  | contains
  | startsWith
  | isEmpty
  | isNotEmpty
  deriving DecidableEq, Repr

/-- A `ServerHookCondition`. -/
structure HookCondition (N : Type) where
  field : String
  op : ConditionOp
  value : JsVal N := .undefined

/-- What a rule does. -/
inductive RuleAction (N : Type) where
  | abort (message : Option String) (field : Option String)
  | set (target : String) (value : JsVal N)
  | clear (target : String)
  | calculate (target expression : String)

/-- A `ServerHookRule`. -/
structure HookRule (N : Type) where
  id : Option String := none
  condition : Option (HookCondition N) := none
  action : RuleAction N

/-- What a rule's value may be replaced by: the named variables of `_resolveValue`, the names its
expressions see beside the document's, and the functions they call. -/
structure RuleEnv (N : Type) where
  now : String
  today : String
  uuid : String
  timestamp : N
  globals : String → Option (JsVal N)
  registry : String → Option (List (JsVal N) → Except String (JsVal N))

section
variable {N : Type} [JsNumber N] (R : RuleEnv N)

/-- `Number(a) < Number(b)`. -/
def numLt (a b : JsVal N) : Bool := JsNumber.lt a.toNum b.toNum

/-- `Number(a) <= Number(b)`. -/
def numLe (a b : JsVal N) : Bool := numLt a b || JsNumber.eq a.toNum b.toNum

/-- `s.includes(t)`, on the characters. -/
def includesChars (t : List Char) : List Char → Bool
  | [] => t.isEmpty
  | c :: cs => t.isPrefixOf (c :: cs) || includesChars t cs

/-- `_checkCondition`, without a field type. -/
def checkCondition (cond : HookCondition N) (data : Record N) : Bool :=
  let val := (JsVal.obj data).getMember cond.field
  let text (v : JsVal N) := (v.orElse (.str "")).toStr
  let empty := strictEq val .undefined || strictEq val .null || strictEq val (.str "")
  match cond.op with
  | .eq => strictEq val cond.value
  | .neq => !strictEq val cond.value
  | .in =>
    match cond.value with
    | .arr vs => vs.any (strictEq val)
    | _ => false
  | .nin =>
    match cond.value with
    | .arr vs => !vs.any (strictEq val)
    | _ => false
  | .gt => numLt cond.value val
  | .gte => numLe cond.value val
  | .lt => numLt val cond.value
  | .lte => numLe val cond.value
  | .contains => includesChars (text cond.value).toList (text val).toList
  | .startsWith => (text cond.value).toList.isPrefixOf (text val).toList
  | .isEmpty => empty
  | .isNotEmpty => !empty

/-- The scope of a rule's expression over a document. -/
def ruleScope (globals : String → Option (JsVal N)) (data : Record N) : EvalEnv N where
  scope name := (globals name).or (data.get? name)
  registry := R.registry

/-- `_resolveValue`. An expression that fails is kept as the text it is. -/
def resolveValue (value : JsVal N) (data : Record N) : JsVal N :=
  match value with
  | .str "$NOW" => .str R.now
  | .str "$TODAY" => .str R.today
  | .str "$UUID" => .str R.uuid
  | .str "$TIMESTAMP" => .num R.timestamp
  | .str s =>
    if s.toList.head? = some '=' then
      match evaluateWith (ruleScope R R.globals data) (String.ofList (s.toList.drop 1)) with
      | .ok v => v
      | .error _ => .str s
    else .str s
  | v => v

/-- `s || t`. -/
def orText (s : Option String) (t : String) : String :=
  if s.getD "" = "" then t else s.getD ""

/-- A `ServerFunctionResult` that aborts the operation. -/
structure HookAbort where
  message : String
  field : Option String
  deriving DecidableEq, Repr

/-- One rule of `executeRules`: the document after it, and the abort it adds to the results. -/
def executeRule (rule : HookRule N) (doc : Record N) : Record N × Option HookAbort :=
  if rule.condition.any (fun cond => !checkCondition cond doc) then (doc, none)
  else match rule.action with
    | .abort message field =>
      (doc, some ⟨orText message "Operation aborted by server hook", field⟩)
    | .set target value =>
      (if target = "" then doc else doc.set target (resolveValue R value doc), none)
    | .clear target => (if target = "" then doc else doc.erase target, none)
    | .calculate target expression =>
      if target = "" || expression = "" then (doc, none)
      else match evaluateWith (ruleScope R (fun _ => none) doc) expression with
        | .ok v => (doc.set target v, none)
        | .error e =>
          (doc, some ⟨"Hook \"" ++ orText rule.id "calculate" ++ "\" expression error: "
            ++ e.message, none⟩)

/-- `executeHooks`: the rules run to the end, and the first abort is the answer. -/
def executeHooks (rules : List (HookRule N)) (doc : Record N) : Except HookAbort (Record N) :=
  let (doc, aborts) := rules.foldl (fun (doc, aborts) rule =>
    let (doc, abort) := executeRule R rule doc
    (doc, aborts ++ abort.toList)) (doc, ([] : List HookAbort))
  match aborts with
  | [] => .ok doc
  | e :: _ => .error e

end

end HeadlessErp
