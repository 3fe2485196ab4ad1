import Mathlib.Data.Rat.Init
import HeadlessErp.Entity.Row
import HeadlessErp.Expression.Validation
import HeadlessErp.Query.Sql

/-!
# The fields a collection is created with

`validateFields` and `validateFormulaField` of
`apps/api/src/lib/services/collection-schema.service.ts`, with the checks they take from
`packages/utils/src/validation.ts` and `packages/core/src/entity/computed.ts`. A field is here what
a request or a snapshot says it is (`SchemaField`): its type is a text that may name none.
-/

namespace HeadlessErp

/-- A field of a request or of a stored schema. `attributes` holds what only clients read of it. -/
structure SchemaField (N : Type) where
  name : String
  type : String
  label : Option String := none
  required : Option Bool := none
  default : Option (FieldDefault N) := none
  relatedCollection : Option String := none
  relatedCollections : Option (List String) := none
  foreignKey : Option String := none
  index : Bool := false
  unique : Bool := false
  store : Bool := false
  formula : Option String := none
  formulaType : Option String := none
  resultType : Option String := none
  precision : Option Rat := none
  rounding : Option String := none
  inverseFormula : Option String := none
  inverseTarget : Option String := none
  encrypted : Bool := false
  attributes : List (String × JsVal N) := []

/-- `FIELD_TYPE_NAMES`. -/
def fieldTypeNames : List String :=
  ["text", "longtext", "slug", "password", "integer", "number", "bigint", "currency", "percent",
   "rating", "boolean", "timestamp", "date", "time", "json", "csv", "location", "color", "m2o",
   "o2m", "m2m", "m2a", "file", "image", "select", "uuid", "table", "formula", "text_editor",
   "code", "markdown", "signature", "duration", "barcode", "datetime", "phone", "email", "url",
   "icon", "tags", "progress"]

/-- `RESERVED_SQL_WORDS`. -/
def reservedSqlWords : List String :=
  ["select", "from", "where", "insert", "into", "values", "update", "set", "delete", "create",
   "drop", "alter", "table", "index", "view", "trigger", "in", "on", "as", "and", "or", "not",
   "null", "is", "between", "exists", "escape", "collate", "case", "when", "then", "else", "union",
   "all", "distinct", "group", "order", "having", "limit", "using", "join", "returning", "nothing",
   "add", "primary", "foreign", "references", "check", "unique", "default", "constraint",
   "autoincrement", "commit", "transaction", "to", "current_date", "current_time",
   "current_timestamp", "rowid", "oid"]

/-- `isReservedSqlWord`. -/
def isReservedSqlWord (name : String) : Bool :=
  reservedSqlWords.contains (toLowerCase (jsTrim name))

/-- The names that `validateFields` keeps for the engine. -/
def reservedFieldNames : List String :=
  ["id", "_meta", "data", "doc_status", "display_number", "deleted_at", "deleted_by", "created_by",
   "updated_by", "_owner", "sort"]

/-- What the checks take from the platform: the functions that formulas may call, the prefix of the
tables, and whether the database reads a quoted name that is no column as a text. -/
structure SchemaEnv where
  functions : String → Bool
  tablePrefix : String
  quotedTexts : Bool

/-- A text that is neither absent nor empty. -/
def given (text : Option String) : Bool := text.any (· ≠ "")

/-- Throw a `ValidationError` unless the check holds. -/
def require (holds : Bool) (message : String) : Except ApiError Unit :=
  if holds then .ok () else .error (.validation message none)

theorem holds_of_require {holds : Bool} {message : String}
    (h : require holds message = .ok ()) : holds = true := by
  cases holds with
  | true => rfl
  | false => cases h

/-! ## Formulas -/

/-- `maskStringLiterals`, inside a literal of the quote or outside of every literal. -/
def maskStringLiterals : Option Char → List Char → List Char
  | _, [] => []
  | none, c :: cs =>
    if c = '\'' ∨ c = '"' then ' ' :: maskStringLiterals (some c) cs
    else c :: maskStringLiterals none cs
  | some _, [_] => [' ']
  | some quote, c :: d :: cs =>
    if c = quote then ' ' :: maskStringLiterals none (d :: cs)
    else if c = '\\' then ' ' :: ' ' :: maskStringLiterals (some quote) cs
    else ' ' :: maskStringLiterals (some quote) (d :: cs)

/-- The regular expression `[A-Za-z_$]`. -/
def isChainStart (c : Char) : Bool := isSqlIdentStart c || c == '$'

/-- The matches of `CHAIN_RE`, and whether a bracket opens behind each. The first argument is the
match so far, backwards. -/
def chains : List Char → List Char → List (List Char × Bool)
  | [], [] => []
  | cur, [] => [(cur.reverse, false)]
  | [], c :: cs => if isChainStart c then chains [c] cs else chains [] cs
  | cur, c :: cs =>
    if isChainStart c || isDigit c || (c == '.' && cs.head?.any isChainStart) then
      chains (c :: cur) cs
    else (cur.reverse, c == '(') :: chains [] cs

/-- `isCallableFunction`. -/
def isCallableFunction (env : SchemaEnv) (name : String) : Bool :=
  env.functions name || (mathName name).any mathFunctions.contains

/-- What `validateFormulaReferences` finds wrong with a chain. -/
def chainError (env : SchemaEnv) (allowed : List String) (chain : List Char) (isCall : Bool) :
    Option String :=
  let base := String.ofList (chain.takeWhile (· ≠ '.'))
  if ["true", "false", "null", "Math"].contains base then none
  else if isCall then
    if isCallableFunction env (String.ofList chain) || isCallableFunction env base then none
    else some ("unknown function \"" ++ base ++ "\" in expression")
  else if allowed.contains base then none
  else some ("unknown field \"" ++ base ++ "\" in expression")

/-- `validateFormulaReferences`. -/
def validateFormulaReferences (env : SchemaEnv) (formula : String) (allowed : List String) :
    Option String :=
  (chains [] (maskStringLiterals none formula.toList)).findSome? fun chain =>
    chainError env allowed chain.1 chain.2

section
variable {N : Type}

/-- The checks of one expression of a formula field. -/
def validateFormulaText (env : SchemaEnv) (f : SchemaField N) (allFields : List (SchemaField N))
    (expr : Option String) : Except ApiError Unit :=
  match expr.filter (· ≠ "") with
  | none => .ok ()
  | some expr =>
    match validateExpressionComplexity expr with
    | some error => .error (.validation ("Field \"" ++ f.name ++ "\": " ++ error) none)
    | none =>
      match validateFormulaReferences env expr
          (allFields.map SchemaField.name ++ buildSystemColumnsList {}) with
      | some error => .error (.validation ("Field \"" ++ f.name ++ "\": " ++ error) none)
      | none => .ok ()

/-- The check of the field that the inverse of a formula writes. -/
def validateInverseTarget (f : SchemaField N) (allFields : List (SchemaField N)) :
    Except ApiError Unit :=
  match f.inverseTarget.filter (· ≠ "") with
  | none => .ok ()
  | some name =>
    match allFields.find? (·.name = name) with
    | none => .error (.validation ("Field \"" ++ f.name ++ "\": inverse_target \"" ++ name
        ++ "\" is not a field of this collection") none)
    | some target =>
      require (!(["formula", "o2m", "m2m", "table", "m2a"].contains target.type))
        ("Field \"" ++ f.name
          ++ "\": inverse_target must be a plain (non-formula, non-virtual) field")

/-- `validateFormulaField`. -/
def validateFormulaField (env : SchemaEnv) (f : SchemaField N) (allFields : List (SchemaField N)) :
    Except ApiError Unit := do
  require (!f.store || f.formula.any (jsTrim · ≠ ""))
    ("Field \"" ++ f.name ++ "\": a stored formula requires a \"formula\" expression")
  validateFormulaText env f allFields f.formula
  validateFormulaText env f allFields f.inverseFormula
  require (f.formulaType ≠ some "sql") ("Field \"" ++ f.name
    ++ "\": formula_type \"sql\" is not supported — use \"expression\" (safe evaluator) or "
    ++ "\"lookup\" (relation aggregates)")
  require (!f.store || f.resultType.all ["number", "string", "boolean", "json"].contains)
    ("Field \"" ++ f.name ++ "\": invalid result_type \"" ++ f.resultType.getD ""
      ++ "\" — use number | string | boolean | json")
  require (f.precision.all fun p => p.den = 1 ∧ 0 ≤ p ∧ p ≤ 10)
    ("Field \"" ++ f.name ++ "\": precision must be an integer 0–10")
  require (f.rounding.all ["half_up", "half_even", "up", "down"].contains)
    ("Field \"" ++ f.name ++ "\": invalid rounding \"" ++ f.rounding.getD ""
      ++ "\" — use half_up | half_even | up | down")
  require (!given f.inverseFormula || given f.inverseTarget)
    ("Field \"" ++ f.name ++ "\": inverse_formula requires \"inverse_target\"")
  validateInverseTarget f allFields
  require (!f.encrypted) ("Field \"" ++ f.name
    ++ "\": formula fields cannot be encrypted — encrypt the source fields instead")

/-! ## Fields -/

/-- The check of a field that is a formula. -/
def validateComputed (env : SchemaEnv) (f : SchemaField N) (allFields : List (SchemaField N)) :
    Except ApiError Unit :=
  if f.type = "formula" then validateFormulaField env f allFields else .ok ()

/-- The related collection of an m2m field. -/
def m2mTarget (f : SchemaField N) : Option String :=
  if f.type = "m2m" then f.relatedCollection.filter (· ≠ "") else none

/-- The check that a second m2m field names another related collection. -/
def validateJunction (f : SchemaField N) (m2mToCollection : List (String × String)) :
    Except ApiError Unit :=
  match m2mTarget f with
  | none => .ok ()
  | some related =>
    match m2mToCollection.lookup related with
    | none => .ok ()
    | some first => require (first = f.name) ("m2m field \"" ++ f.name ++ "\" duplicates \""
        ++ first ++ "\": both relate to \"" ++ related ++ "\". Multiple m2m fields between the "
        ++ "same pair of collections share one junction table — use a single m2m field or model "
        ++ "the second direction as an o2m field.")

/-- The checks of one field, after the fields named `seen` and their related collections. -/
def validateSchemaField (env : SchemaEnv) (allFields : List (SchemaField N)) (seen : List String)
    (m2mToCollection : List (String × String)) (f : SchemaField N) : Except ApiError Unit := do
  require (isIdentifier f.name) ("Invalid field name: \"" ++ f.name ++ "\"")
  require (!isReservedSqlWord f.name) ("\"" ++ f.name
    ++ "\" is a reserved SQL keyword and cannot be used as a field name (e.g. use \"check_"
    ++ toLowerCase (jsTrim f.name) ++ "\" or \"" ++ toLowerCase (jsTrim f.name)
    ++ "_time\" instead)")
  require (!seen.contains f.name) ("Duplicate field: \"" ++ f.name ++ "\"")
  require (fieldTypeNames.contains f.type) ("Invalid field type: \"" ++ f.type ++ "\"")
  validateComputed env f allFields
  require (!(["m2o", "o2m", "m2m", "table", "m2a"].contains f.type) || given f.relatedCollection
      || f.relatedCollections.isSome)
    ("Field \"" ++ f.name ++ "\" requires \"related_collection\" or \"related_collections\"")
  require (f.type ≠ "o2m" || given f.foreignKey)
    ("Field \"" ++ f.name ++ "\" requires \"foreign_key\"")
  validateJunction f m2mToCollection
  require (!reservedFieldNames.contains f.name) ("\"" ++ f.name ++ "\" is a reserved field name")

/-- `validateFields`, after the fields named `seen`. -/
def validateFieldsFrom (env : SchemaEnv) (allFields : List (SchemaField N)) :
    List String → List (String × String) → List (SchemaField N) → Except ApiError Unit
  | _, _, [] => .ok ()
  | seen, m2mToCollection, f :: fs => do
    validateSchemaField env allFields seen m2mToCollection f
    validateFieldsFrom env allFields (f.name :: seen)
      ((m2mTarget f).toList.map (·, f.name) ++ m2mToCollection) fs

/-- `validateFields`. -/
def validateFields (env : SchemaEnv) (fields : List (SchemaField N)) : Except ApiError Unit :=
  validateFieldsFrom env fields [] [] fields

theorem not_reserved_of_validateSchemaField {env : SchemaEnv} {allFields : List (SchemaField N)}
    {seen : List String} {m2mToCollection : List (String × String)} {f : SchemaField N}
    (h : validateSchemaField env allFields seen m2mToCollection f = .ok ()) :
    f.name ∉ reservedFieldNames := by
  -- the check of the name is the last one
  rw [validateSchemaField] at h
  obtain ⟨_, -, h⟩ := exists_of_bind_eq_ok h
  obtain ⟨_, -, h⟩ := exists_of_bind_eq_ok h
  obtain ⟨_, -, h⟩ := exists_of_bind_eq_ok h
  obtain ⟨_, -, h⟩ := exists_of_bind_eq_ok h
  obtain ⟨_, -, h⟩ := exists_of_bind_eq_ok h
  obtain ⟨_, -, h⟩ := exists_of_bind_eq_ok h
  obtain ⟨_, -, h⟩ := exists_of_bind_eq_ok h
  obtain ⟨_, -, h⟩ := exists_of_bind_eq_ok h
  simpa using holds_of_require h

theorem not_reserved_of_validateFieldsFrom {env : SchemaEnv} {allFields : List (SchemaField N)}
    {fs : List (SchemaField N)} {seen : List String} {m2mToCollection : List (String × String)}
    (h : validateFieldsFrom env allFields seen m2mToCollection fs = .ok ()) :
    ∀ f ∈ fs, f.name ∉ reservedFieldNames := by
  induction fs generalizing seen m2mToCollection with
  | nil => exact fun f hf => absurd hf List.not_mem_nil
  | cons f fs ih =>
    rw [validateFieldsFrom] at h
    obtain ⟨_, hf, hfs⟩ := exists_of_bind_eq_ok h
    intro g hg
    rcases List.mem_cons.1 hg with rfl | hg
    · exact not_reserved_of_validateSchemaField hf
    · exact ih hfs g hg

/-- No field of a collection has a name that the engine keeps. -/
theorem not_reserved_of_validateFields {env : SchemaEnv} {fields : List (SchemaField N)}
    (h : validateFields env fields = .ok ()) : ∀ f ∈ fields, f.name ∉ reservedFieldNames :=
  not_reserved_of_validateFieldsFrom h

end

end HeadlessErp
