import HeadlessErp.Entity.Rules
import HeadlessErp.Query.RowFilter

/-!
# Rules of fields

The rules that a field's schema declares: its default (`packages/core/src/entity/defaults.ts`), its
linkages (`packages/core/src/entity/linkage-engine.ts`) and its validation
(`packages/core/src/entity/validator.ts`). A rule looks at its field and at those it names, and an absent
value passes all but the rules of presence; what a rule has to find in a document to say of it what it
says of a row is `ValidationRule.Sound` and `ValidationRule.Complete`.
-/

namespace HeadlessErp

/-- A `ValidationRule`. -/
inductive ValidationRule (N : Type) where
  | required (message : Option String)
  | min (value : N) (message : Option String)
  | max (value : N) (message : Option String)
  | minLength (value : N) (message : Option String)
  | maxLength (value : N) (message : Option String)
  | regex (pattern : String) (message : Option String)
  | email (message : Option String)
  | url (message : Option String)
  | unique (message : Option String)
  | in (values : Option (List (JsVal N))) (message : Option String)
  | expression (formula message : String)
  | requiredIf (field : String) (value : JsVal N) (message : Option String)

/-- What a `FieldLinkage` does. -/
inductive LinkageAction (N : Type) where
  | setValue (value : JsVal N)
  | clear
  | calculate (expression : String)
  | setOptions

/-- A `FieldLinkage`. -/
structure FieldLinkage (N : Type) where
  target : String
  action : LinkageAction N
  condition : Option (HookCondition N) := none

/-- A field with its rules. -/
structure RuledField (N : Type) extends FieldDefinition N where
  validation : List (ValidationRule N) := []
  linkages : List (FieldLinkage N) := []

/-- What the rules take from the platform: regular expressions, with `none` for an invalid pattern,
`new URL`, and the functions of expressions. -/
structure RulePlatform (N : Type) where
  testRegex : String → String → Option Bool
  isUrl : String → Bool
  registry : String → Option (List (JsVal N) → Except String (JsVal N))

/-- A member that every object has. -/
def isInherited (k : String) : Bool := JsVal.objectMembers.contains k || k == "__proto__"

section
variable {N : Type} [JsNumber N]

/-! ## Defaults -/

/-- `ctx`, of a caller. -/
def defaultContext (auth : Option (AuthContext N)) : Record N :=
  let of (key : String) := (auth.map (·.get key)).getD .undefined
  [("user_id", of "user_id"), ("user_name", of "email"), ("user_email", of "email"),
   ("role_id", of "role_id"), ("role_name", of "role_name")]

/-- `NAMED_DEFAULTS`. -/
def namedDefault (R : RuleEnv N) (ctx : Record N) (name : String) : Option (JsVal N) :=
  let orNull (v : JsVal N) := if v.truthy then v else .null
  match name with
  | "$NOW" => some (.str R.now)
  | "$TODAY" => some (.str R.today)
  | "$UUID" => some (.str R.uuid)
  | "$TIMESTAMP" => some (.num R.timestamp)
  | "$USER_ID" => some (orNull (ctx.get "user_id"))
  | "$USER_NAME" => some (orNull (ctx.get "user_name"))
  | "$USER_EMAIL" => some (orNull (ctx.get "user_email"))
  | "$ROLE_ID" => some (orNull (ctx.get "role_id"))
  | "$ROLE_NAME" => some (orNull (ctx.get "role_name"))
  | "$TENANT" => some (orNull (ctx.get "tenant"))
  | _ => none

/-- `DefaultResolver.resolve`, on a text. -/
def resolveDefaultText (R : RuleEnv N) (ctx : Record N) (s : String) : JsVal N :=
  match namedDefault R ctx s with
  | some v => v
  | none =>
    match afterPrefix "$CURRENT_USER." s with
    | some path => ((JsVal.obj ctx).getMember path).orElse .null
    | none =>
      if s.toList.head? = some '=' then
        match evaluateWith (ruleScope R R.globals ctx) (String.ofList (s.toList.drop 1)) with
        | .ok v => v
        | .error _ => .str s
      else .str s

/-- `DefaultResolver.resolve`. -/
def resolveDefault (R : RuleEnv N) (ctx : Record N) : FieldDefault N → JsVal N
  | .string s => resolveDefaultText R ctx s
  | .number n => .num n
  | .boolean b => .bool b

/-- `DefaultResolver.resolveAll`. -/
def resolveAllDefaults (R : RuleEnv N) (ctx : Record N) (fields : List (RuledField N))
    (data : Record N) : Record N :=
  fields.foldl (fun data f =>
    match f.default with
    | some default =>
      if data.has f.name || isInherited f.name then data
      else data.set f.name (resolveDefault R ctx default)
    | none => data) data

/-! ## Linkages -/

/-- `_checkCondition`: the values are compared as the type of the field stores them. -/
def checkLinkCondition (fieldType : FieldType) (cond : HookCondition N) (data : Record N) : Bool :=
  let val := (JsVal.obj data).getMember cond.field
  let coerce (v : JsVal N) := match coerceValue v fieldType with
    | .ok v => v
    | .error _ => v
  match cond.op with
  | .eq => strictEq (coerce val) (coerce cond.value)
  | .neq => !strictEq (coerce val) (coerce cond.value)
  | .in =>
    match cond.value with
    | .arr vs => vs.any fun v => strictEq (coerce val) (coerce v)
    | _ => false
  | .nin =>
    match cond.value with
    | .arr vs => !vs.any fun v => strictEq (coerce val) (coerce v)
    | _ => false
  | _ => checkCondition cond data

/-- One linkage of a field. An expression that fails is logged only. -/
def applyLinkage (R : RuleEnv N) (fieldType : FieldType) (data : Record N) (link : FieldLinkage N) :
    Record N :=
  if link.condition.any fun cond => !checkLinkCondition fieldType cond data then data
  else match link.action with
    | .setValue value => data.set link.target (resolveValue R value data)
    | .clear => data.erase link.target
    | .calculate expression =>
      if expression = "" then data
      else match evaluateWith (ruleScope R R.globals data) expression with
        | .ok v => data.set link.target v
        | .error _ => data
    | .setOptions => data

/-- `LinkageEngine.evaluate`, without the hints. -/
def evaluateLinkages (R : RuleEnv N) (fields : List (RuledField N)) (data : Record N) : Record N :=
  fields.foldl (fun data f => f.linkages.foldl (applyLinkage R f.type) data) data

/-! ## Validation -/

/-- A `ValidationError`. -/
structure RuleError where
  field : String
  message : String
  rule : String
  deriving DecidableEq, Repr

/-- `value === undefined || value === null || value === ''`. -/
def isEmptyValue (v : JsVal N) : Bool :=
  strictEq v .undefined || strictEq v .null || strictEq v (.str "")

/-- `EMAIL_RE.test`. -/
def isEmail (s : String) : Bool :=
  match s.toList.splitOn '@' with
  | [name, host] => !name.isEmpty && !(name ++ host).any isSpace && (host.drop 1).dropLast.contains '.'
  | _ => false

/-- `values.includes(value)`. -/
def includesValue (values : List (JsVal N)) (value : JsVal N) : Bool :=
  values.any fun v => strictEq v value || match v, value with
    | .num a, .num b => JsNumber.isNaN a && JsNumber.isNaN b
    | _, _ => false

/-- `evaluateBoolean(formula, { value, data })`. -/
def evaluateRule (E : RulePlatform N) (formula : String) (value : JsVal N) (data : Record N) :
    Except ExprError Bool :=
  (·.truthy) <$> evaluateWith
    { scope := fun name => if name = "value" then some value
        else if name = "data" then some (.obj data) else none
      registry := E.registry } formula

/-- `_checkRule`. -/
def checkRule (E : RulePlatform N) (fieldName : String) (rule : ValidationRule N) (value : JsVal N)
    (allData : Record N) : Option RuleError :=
  let fail (message : Option String) (text rule : String) : Option RuleError :=
    some ⟨fieldName, orText message text, rule⟩
  let text := (value.orElse (.str "")).toStr
  match rule with
  | .required message =>
    if isEmptyValue value then fail message (fieldName ++ " is required") "required" else none
  | .min bound message =>
    if isEmptyValue value then none
    else if JsNumber.isNaN value.toNum || JsNumber.lt value.toNum bound then
      fail message (fieldName ++ " must be at least " ++ JsNumber.toString bound) "min"
    else none
  | .max bound message =>
    if isEmptyValue value then none
    else if JsNumber.isNaN value.toNum || JsNumber.lt bound value.toNum then
      fail message (fieldName ++ " must be at most " ++ JsNumber.toString bound) "max"
    else none
  | .minLength bound message =>
    if isEmptyValue value then none
    else if JsNumber.lt (JsNumber.ofInt (jsLength value.toStr)) bound then
      fail message (fieldName ++ " must be at least " ++ JsNumber.toString bound ++ " characters")
        "min_length"
    else none
  | .maxLength bound message =>
    if isEmptyValue value then none
    else if JsNumber.lt bound (JsNumber.ofInt (jsLength value.toStr)) then
      fail message (fieldName ++ " must be at most " ++ JsNumber.toString bound ++ " characters")
        "max_length"
    else none
  | .regex pattern message =>
    if text = "" then none
    else match E.testRegex pattern text with
      | some true => none
      | some false => fail message (fieldName ++ " has an invalid format") "regex"
      | none => some ⟨fieldName, "Invalid regex pattern: " ++ pattern, "regex"⟩
  | .email message =>
    if text = "" || isEmail text then none
    else fail message (fieldName ++ " must be a valid email") "email"
  | .url message =>
    if text = "" || E.isUrl text then none
    else fail message (fieldName ++ " must be a valid URL") "url"
  | .unique message =>
    fail message (fieldName ++ " must be unique — uniqueness is checked against the database")
      "unique"
  | .in values message =>
    match values with
    | some values =>
      if includesValue values value then none
      else fail message (fieldName ++ " must be one of: " ++ ", ".intercalate (values.map (·.toStr)))
        "in"
    | none => none
  | .expression formula message =>
    match evaluateRule E formula value allData with
    | .ok true => none
    | .ok false => some ⟨fieldName, message, "expression"⟩
    | .error e => some ⟨fieldName, "Expression error: " ++ e.message, "expression"⟩
  | .requiredIf field expected message =>
    if strictEq ((JsVal.obj allData).getMember field) expected && isEmptyValue value then
      fail message (fieldName ++ " is required when " ++ field ++ " is " ++ expected.toStr)
        "required_if"
    else none

/-- `validateField`. -/
def validateField (E : RulePlatform N) (fieldName : String) (value : JsVal N)
    (rules : List (ValidationRule N)) (allData : Record N) : List RuleError :=
  rules.filterMap fun rule => checkRule E fieldName rule value allData

/-- `validateAll`. -/
def validateAll (E : RulePlatform N) (fields : List (RuledField N)) (data : Record N) :
    List RuleError :=
  fields.flatMap fun f => validateField E f.name ((JsVal.obj data).getMember f.name) f.validation data

/-- `formatErrors`. -/
def formatErrors (errors : List RuleError) : String :=
  "; ".intercalate (errors.map fun e => "\"" ++ e.field ++ "\": " ++ e.message)

/-- A document satisfies the rules of its fields. -/
def Satisfies (E : RulePlatform N) (fields : List (RuledField N)) (data : Record N) : Prop :=
  ∀ f ∈ fields, ∀ rule ∈ f.validation,
    checkRule E f.name rule ((JsVal.obj data).getMember f.name) data = none

theorem validateAll_eq_nil {E : RulePlatform N} {fields : List (RuledField N)} {data : Record N} :
    validateAll E fields data = [] ↔ Satisfies E fields data := by
  simp only [validateAll, validateField, List.flatMap_eq_nil_iff, List.filterMap_eq_nil_iff, Satisfies]

/-! ## Partial documents -/

/-- What a row that a document is written over has of a name. -/
def MergesAt (doc old row : Record N) (k : String) : Prop :=
  (JsVal.obj row).getMember k =
    if doc.has k then (JsVal.obj doc).getMember k else (JsVal.obj old).getMember k

/-- A formula reads of the data no more than some names. -/
def DependsOn (E : RulePlatform N) (formula : String) (names : List String) : Prop :=
  ∀ value data data', (∀ k ∈ names, (JsVal.obj data).getMember k = (JsVal.obj data').getMember k) →
    evaluateRule E formula value data = evaluateRule E formula value data'

namespace ValidationRule
variable (E : RulePlatform N) (kept : String → Prop) (fieldName : String) (doc old : Record N)

/-- What a rule lets pass of a document written over a row, it lets pass of the result: the names it
reads are stored as they are, and it does not look at one of them in the document whose value only the
row has. -/
def Sound (rule : ValidationRule N) : Prop :=
  kept fieldName ∧ match rule with
  | .required _ => doc.has fieldName = true ∨ isInherited fieldName = false
  | .in values _ => doc.has fieldName = true ∨
      ∀ vs, values = some vs → includesValue vs ((JsVal.obj doc).getMember fieldName) = false
  | .expression formula _ => doc.has fieldName = true ∧
      ∃ names, DependsOn E formula names ∧ ∀ k ∈ names, kept k ∧ doc.has k = true
  | .requiredIf field expected _ => kept field ∧
      (doc.has fieldName = true ∨ isInherited fieldName = false) ∧
      (doc.has fieldName = true → doc.has field = false →
        isEmptyValue ((JsVal.obj doc).getMember fieldName) = true →
          strictEq ((JsVal.obj old).getMember field) expected = false)
  | _ => True

/-- What a rule lets pass of the result, it lets pass of the document. -/
def Complete (rule : ValidationRule N) : Prop :=
  kept fieldName ∧ match rule with
  | .required _ => doc.has fieldName = true
  | .in values _ => doc.has fieldName = true ∨ values = none
  | .expression formula _ => doc.has fieldName = true ∧
      ∃ names, DependsOn E formula names ∧ ∀ k ∈ names, kept k ∧ doc.has k = true
  | .requiredIf field expected _ => kept field ∧
      (doc.has fieldName = true ∨ doc.has field = false ∨
        strictEq ((JsVal.obj doc).getMember field) expected = false) ∧
      (doc.has field = true ∨ strictEq ((JsVal.obj doc).getMember field) expected = false)
  | .unique _ => True
  | _ => doc.has fieldName = true ∨ isInherited fieldName = false

end ValidationRule

/-- A name that an object lacks. -/
theorem getMember_of_not_has {doc : Record N} {k : String} (hk : doc.has k = false)
    (hinherited : isInherited k = false) : (JsVal.obj doc).getMember k = .undefined := by
  have hnone : JsVal.ownMember doc k = none := by
    cases h : doc.get? k with
    | none => exact h
    | some v =>
      rw [Record.has_eq_isSome, h] at hk
      cases hk
  unfold isInherited at hinherited
  obtain ⟨hmember, hproto⟩ := Bool.or_eq_false_iff.1 hinherited
  simp only [JsVal.getMember, hnone, hmember, hproto, Bool.false_eq_true, if_false]

/-- The rules that let an absent value pass, or may. -/
def ValidationRule.skips : ValidationRule N → Bool
  | .required _ | .in _ _ | .expression _ _ | .unique _ => false
  | _ => true

section
variable {E : RulePlatform N} {kept : String → Prop} {fieldName : String} {doc old row : Record N}
  {rule : ValidationRule N}

theorem getMember_of_merges {k : String} (h : MergesAt doc old row k) (hk : doc.has k = true) :
    (JsVal.obj row).getMember k = (JsVal.obj doc).getMember k := by
  rw [h, if_pos hk]

theorem getMember_old_of_merges {k : String} (h : MergesAt doc old row k) (hk : doc.has k = false) :
    (JsVal.obj row).getMember k = (JsVal.obj old).getMember k := by
  rw [h, hk, if_neg Bool.false_ne_true]

/-- Of the data a rule reads the fields it names. -/
theorem checkRule_congr {value : JsVal N} {data data' : Record N}
    (hformula : ∀ formula message, rule = .expression formula message →
      evaluateRule E formula value data = evaluateRule E formula value data')
    (hfield : ∀ field expected message, rule = .requiredIf field expected message →
      (JsVal.obj data).getMember field = (JsVal.obj data').getMember field) :
    checkRule E fieldName rule value data = checkRule E fieldName rule value data' := by
  cases rule with
  | expression formula message =>
    unfold checkRule
    simp only
    rw [hformula formula message rfl]
  | requiredIf field expected message =>
    unfold checkRule
    simp only
    rw [hfield field expected message rfl]
  | _ => rfl

/-- A condition that is not met requires nothing. -/
theorem checkRule_requiredIf {field : String} {expected value : JsVal N} {message : Option String}
    (h : strictEq ((JsVal.obj doc).getMember field) expected = false) :
    checkRule E fieldName (.requiredIf field expected message) value doc = none := by
  unfold checkRule
  simp only
  rw [h]
  rfl

/-- An absent value passes the rules that are not about presence. -/
theorem checkRule_undefined (hskips : rule.skips = true)
    (hfield : ∀ field expected message, rule = .requiredIf field expected message →
      strictEq ((JsVal.obj doc).getMember field) expected = false) :
    checkRule E fieldName rule .undefined doc = none := by
  cases rule with
  | required | «in» | expression | unique => cases hskips
  | requiredIf field expected message => exact checkRule_requiredIf (hfield field expected message rfl)
  | _ => rfl

/-- A rule of presence does not let an absent value pass. -/
theorem ValidationRule.Sound.skips_of_absent (hsound : rule.Sound E kept fieldName doc old)
    (hdoc : checkRule E fieldName rule ((JsVal.obj doc).getMember fieldName) doc = none)
    (habsent : doc.has fieldName = false) (hin : ∀ message, rule ≠ .in none message) :
    rule.skips = true := by
  obtain ⟨-, hrule⟩ := hsound
  cases rule with
  | required message =>
    have hinherited := hrule.resolve_left (by rw [habsent]; exact Bool.false_ne_true)
    rw [getMember_of_not_has habsent hinherited] at hdoc
    cases hdoc
  | «in» values message =>
    have hvalues := hrule.resolve_left (by rw [habsent]; exact Bool.false_ne_true)
    cases values with
    | none => exact absurd rfl (hin message)
    | some vs =>
      unfold checkRule at hdoc
      simp only at hdoc
      rw [hvalues vs rfl, if_neg Bool.false_ne_true] at hdoc
      cases hdoc
  | expression formula message =>
    rw [habsent] at hrule
    exact absurd hrule.1 Bool.false_ne_true
  | unique message => cases hdoc
  | _ => rfl

/-- What a sound rule lets pass of a document, it lets pass of the row. -/
theorem checkRule_of_sound (hmerge : ∀ k, kept k → MergesAt doc old row k)
    (hsound : rule.Sound E kept fieldName doc old)
    (hold : rule.skips = true → doc.has fieldName = false →
      checkRule E fieldName rule ((JsVal.obj old).getMember fieldName) old = none)
    (hdoc : checkRule E fieldName rule ((JsVal.obj doc).getMember fieldName) doc = none) :
    checkRule E fieldName rule ((JsVal.obj row).getMember fieldName) row = none := by
  have hfield := hmerge fieldName hsound.1
  cases hhas : doc.has fieldName with
  | true =>
    rw [getMember_of_merges hfield hhas]
    by_cases hmissing : ∃ field expected message, rule = .requiredIf field expected message ∧
        doc.has field = false
    · -- the row has the other field of the rule
      obtain ⟨field, expected, message, rfl, hother⟩ := hmissing
      obtain ⟨-, hkept, -, hempty⟩ := hsound
      have hold' := getMember_old_of_merges (hmerge field hkept) hother
      unfold checkRule
      simp only
      rw [hold']
      cases hvalue : isEmptyValue ((JsVal.obj doc).getMember fieldName) with
      | true =>
        rw [hempty hhas hother hvalue]
        rfl
      | false =>
        rw [Bool.and_false]
        rfl
    · refine (checkRule_congr ?_ ?_).trans hdoc
      · rintro formula message rfl
        obtain ⟨-, -, names, hdepends, hnames⟩ := hsound
        refine hdepends _ _ _ fun k hk => ?_
        exact getMember_of_merges (hmerge k (hnames k hk).1) (hnames k hk).2
      · rintro field expected message rfl
        cases hother : doc.has field with
        | false => exact absurd ⟨field, expected, message, rfl, hother⟩ hmissing
        | true => exact getMember_of_merges (hmerge field hsound.2.1) hother
  | false =>
    rw [getMember_old_of_merges hfield hhas]
    by_cases hin : ∃ message, rule = .in none message
    · obtain ⟨message, rfl⟩ := hin
      rfl
    have hskips := hsound.skips_of_absent hdoc hhas fun message h => hin ⟨message, h⟩
    have hpasses := hold hskips hhas
    by_cases hother : ∃ field expected message, rule = .requiredIf field expected message ∧
        doc.has field = true
    · obtain ⟨field, expected, message, rfl, hother⟩ := hother
      obtain ⟨-, hkept, hinherited, -⟩ := hsound
      have hinherited := hinherited.resolve_left (by rw [hhas]; exact Bool.false_ne_true)
      rw [getMember_of_not_has hhas hinherited] at hdoc
      have hne : strictEq ((JsVal.obj doc).getMember field) expected = false := by
        cases hexpected : strictEq ((JsVal.obj doc).getMember field) expected with
        | false => rfl
        | true =>
          unfold checkRule at hdoc
          simp only at hdoc
          rw [hexpected] at hdoc
          cases hdoc
      exact checkRule_requiredIf ((getMember_of_merges (hmerge field hkept) hother).symm ▸ hne)
    · refine (checkRule_congr ?_ ?_).trans hpasses
      · rintro formula message rfl
        cases hskips
      · rintro field expected message rfl
        cases hhas' : doc.has field with
        | true => exact absurd ⟨field, expected, message, rfl, hhas'⟩ hother
        | false => exact getMember_old_of_merges (hmerge field hsound.2.1) hhas'

/-- What a complete rule lets pass of the row, it lets pass of the document. -/
theorem checkRule_of_complete (hmerge : ∀ k, kept k → MergesAt doc old row k)
    (hcomplete : rule.Complete E kept fieldName doc)
    (hrow : checkRule E fieldName rule ((JsVal.obj row).getMember fieldName) row = none) :
    checkRule E fieldName rule ((JsVal.obj doc).getMember fieldName) doc = none := by
  obtain ⟨hkept, hrule⟩ := hcomplete
  by_cases hcondition : ∃ field expected message, rule = .requiredIf field expected message ∧
      (doc.has fieldName = false ∨ doc.has field = false)
  · obtain ⟨field, expected, message, rfl, hmissing⟩ := hcondition
    obtain ⟨-, hfield, hother⟩ := hrule
    refine checkRule_requiredIf ?_
    cases hhas : doc.has field with
    | false => exact hother.resolve_left (by rw [hhas]; exact Bool.false_ne_true)
    | true =>
      rw [hhas] at hmissing hfield
      obtain hmissing | hmissing := hmissing
      · rw [hmissing] at hfield
        exact (hfield.resolve_left Bool.false_ne_true).resolve_left (by simp)
      · cases hmissing
  cases hhas : doc.has fieldName with
  | true =>
    rw [getMember_of_merges (hmerge fieldName hkept) hhas] at hrow
    refine (checkRule_congr ?_ ?_).trans hrow
    · rintro formula message rfl
      obtain ⟨-, names, hdepends, hnames⟩ := hrule
      refine hdepends _ _ _ fun k hk => (getMember_of_merges (hmerge k (hnames k hk).1) ?_).symm
      exact (hnames k hk).2
    · rintro field expected message rfl
      cases hother : doc.has field with
      | false => exact absurd ⟨field, expected, message, rfl, .inr hother⟩ hcondition
      | true => exact (getMember_of_merges (hmerge field hrule.1) hother).symm
  | false =>
    rw [hhas] at hrule
    cases rule with
    | required message => cases hrule
    | «in» values message =>
      obtain h | rfl := hrule
      · cases h
      · rfl
    | expression formula message => cases hrule.1
    | unique message => cases hrow
    | requiredIf field expected message =>
      exact absurd ⟨field, expected, message, rfl, .inl hhas⟩ hcondition
    | _ =>
      rw [getMember_of_not_has hhas (hrule.resolve_left Bool.false_ne_true)]
      exact checkRule_undefined rfl (by intro _ _ _ h; cases h)

end

end

end HeadlessErp
