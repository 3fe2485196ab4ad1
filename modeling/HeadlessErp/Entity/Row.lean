import HeadlessErp.Base.Except
import HeadlessErp.Entity.Collection
import HeadlessErp.Expression.Tokenizer
import HeadlessErp.Js.Record

/-!
# Rows

How the fields of a request become the columns of a row: the conversions of
`packages/core/src/entity/field-utils.ts` and `extractChildData` of the child-table service. What
the code takes from the platform (`crypto.randomUUID`, the HTML sanitizer, the key of the column
encryption) is a `Platform`.
-/

namespace HeadlessErp

/-- The errors a service answers a request with. -/
inductive ApiError where
  | validation (message : String) (field : Option String)
  | forbidden (message : String)
  | notFound (entity id : String)
  | conflict (message : String)
  | internal (message : String)
  deriving DecidableEq, Repr

/-- The answer of a request that another write has overtaken. -/
def ApiError.isConflict : ApiError → Bool
  | conflict _ => true
  | _ => false

/-- What a conversion takes from the platform. -/
structure Platform (N : Type) where
  randomUUID : String
  sanitizeHtml : JsVal N → JsVal N
  encrypt : String → JsVal N → JsVal N

/-! ## Texts -/

/-- A character of `s.toLowerCase()`. Beside the letters of the alphabet, the Kelvin sign and the
dotted capital I have lower case forms that begin with one. -/
def lowerChar (c : Char) : List Char :=
  if c.toNat = 0x212A then ['k']
  else if c.toNat = 0x130 then ['i', Char.ofNat 0x307]
  else [c.toLower]

/-- `s.toLowerCase()`, where only the letters of the alphabet matter. -/
def toLowerCase (s : String) : String := String.ofList (s.toList.flatMap lowerChar)

/-- `s.trim()`. -/
def jsTrim (s : String) : String :=
  String.ofList (((s.toList.dropWhile isSpace).reverse.dropWhile isSpace).reverse)

/-- The regular expression `[0-9a-f]`, in either case. -/
def isHexDigit (c : Char) : Bool :=
  isDigit c || ('a' ≤ c && c ≤ 'f') || ('A' ≤ c && c ≤ 'F')

/-- `UUID_V4_RE`. -/
def isUuid (s : String) : Bool :=
  s.toList.length == 36 && s.toList.zipIdx.all fun (c, i) =>
    if [8, 13, 18, 23].contains i then c == '-'
    else if i == 14 then c == '4'
    else if i == 19 then ['8', '9', 'a', 'b', 'A', 'B'].contains c
    else isHexDigit c

/-- `replace(/[^a-z0-9]+/g, '-')`. The flag says that the character before was replaced. -/
def slugChars : Bool → List Char → List Char
  | _, [] => []
  | replaced, c :: cs =>
    if ('a' ≤ c && c ≤ 'z') || isDigit c then c :: slugChars false cs
    else if replaced then slugChars true cs
    else '-' :: slugChars true cs

/-- The slug `splitRowData` makes of a text. -/
def slugify (s : String) : String :=
  let cs := slugChars false (toLowerCase s).toList
  let cs := match cs with
    | '-' :: cs => cs
    | cs => cs
  let cs := if cs.getLast? = some '-' then cs.dropLast else cs
  String.ofList (cs.take 200)

/-! ## Values -/

section
variable {N : Type} [JsNumber N]

/-- `a === b`, for values that were read apart: no two objects of them are one. -/
def strictEq : JsVal N → JsVal N → Bool
  | .undefined, .undefined | .null, .null => true
  | .bool a, .bool b => a == b
  | .num a, .num b => JsNumber.eq a b
  | .str a, .str b => a == b
  | .func a, .func b => a == b
  | _, _ => false

theorem eq_undefined_of_strictEq {v : JsVal N} (h : strictEq v .undefined = true) :
    v = .undefined := by
  cases v <;> first | rfl | cases h

theorem eq_str_of_strictEq {v : JsVal N} {s : String} (h : strictEq v (.str s) = true) :
    v = .str s := by
  cases v with
  | str t => rw [eq_of_beq (show (t == s) = true from h)]
  | undefined | null | bool | num | arr | obj | func => cases h

/-- `coerceValue`. -/
def coerceValue (value : JsVal N) (fieldType : FieldType) : Except ApiError (JsVal N) :=
  if value.isNullish then .ok .null
  else match fieldType with
    | .integer =>
      let num := value.toNum
      .ok (.num (if JsNumber.isNaN num then JsNumber.ofInt 0 else JsNumber.math "floor" [num]))
    | .number =>
      let num := value.toNum
      if JsNumber.isNaN num then
        .error (.validation ("Invalid number value: \"" ++ value.toStr ++ "\"") none)
      else .ok (.num num)
    | .boolean =>
      let one := JsVal.num (JsNumber.ofInt 1 : N)
      let zero := JsVal.num (JsNumber.ofInt 0 : N)
      match value with
      | .bool b => .ok (if b then one else zero)
      | value =>
        if strictEq value one then .ok one
        else if strictEq value zero then .ok zero
        else
          let s := toLowerCase (jsTrim value.toStr)
          .ok (if s == "true" || s == "1" then one else zero)
    | .json =>
      match value with
      | .str s => .ok (.str s)
      | value => .ok ((value.toJson.map JsVal.str).getD .undefined)
    | .uuid =>
      if isUuid value.toStr then .ok (.str value.toStr)
      else .error (.validation ("Invalid UUID value: \"" ++ value.toStr ++ "\"") none)
    | .m2o =>
      if isUuid value.toStr then .ok (.str value.toStr)
      else .error (.validation ("Invalid m2o foreign key UUID: \"" ++ value.toStr ++ "\"") none)
    | _ => .ok (.str value.toStr)

/-! ## Columns -/

/-- `schemaTypeMap.get(key)`: of two fields of one name the later one stands. -/
def schemaType (fields : List (FieldDefinition N)) (key : String) : Option FieldType :=
  (fields.reverse.find? (·.name == key)).map (·.type)

/-- `m2aColumns`. -/
def m2aColumns (fields : List (FieldDefinition N)) : List String :=
  (fields.filter fun f => f.type = .m2a).flatMap fun f => [f.name ++ "_type", f.name ++ "_id"]

/-- One property of the body in `splitRowData`. -/
def splitEntry (P : Platform N) (fields : List (FieldDefinition N))
    (acc : Record N × Record N) (kv : String × JsVal N) :
    Except ApiError (Record N × Record N) :=
  let (key, value) := kv
  let (columns, rest) := acc
  if systemFields.contains key then .ok acc
  else match schemaType fields key with
    | some fieldType =>
      if [FieldType.o2m, .m2m, .table, .formula].contains fieldType then .ok acc
      else do
        let coerced ← coerceValue value fieldType
        let coerced :=
          if fieldType = .textEditor || fieldType = .markdown then P.sanitizeHtml coerced
          else coerced
        .ok (columns.set key coerced, rest)
    | none =>
      if (m2aColumns fields).contains key then .ok (columns.set key value, rest)
      else .ok (columns, rest.set key value)

/-- The columns that are filled in for a field: a slug from its source, a fresh uuid. -/
def fillField (P : Platform N) (body columns : Record N) (f : FieldDefinition N) : Record N :=
  let columns :=
    match f.source with
    | some source =>
      if f.type = .slug && !body.has f.name && source != "" && (columns.get source).truthy then
        columns.set f.name (.str (slugify (columns.get source).toStr))
      else columns
    | none => columns
  if f.type = .uuid && !columns.has f.name then columns.set f.name (.str P.randomUUID)
  else columns

/-- `splitRowData`: the columns, with the `_meta` text of the other properties, and these. -/
def splitRowData (P : Platform N) (body : Record N) (fields : List (FieldDefinition N)) :
    Except ApiError (Record N × Record N) := do
  let (columns, rest) ← body.foldlM (splitEntry P fields) ([], [])
  let columns := fields.foldl (fillField P body) columns
  .ok (columns.set "_meta" (.str ((JsVal.obj rest).toJson.getD "")), rest)

/-- `extractChildData`: the body without its child rows, and these. -/
def extractChildData (body : Record N) (fields : List (FieldDefinition N)) :
    Record N × List (String × List (JsVal N)) :=
  (fields.filter fun f => f.type = .table).foldl (fun (clean, children) f =>
    match clean.get f.name with
    | .arr items => (clean.erase f.name, children ++ [(f.name, items)])
    | _ => (clean, children)) (body, [])

/-- `encryptColumns`. -/
def encryptColumns (P : Platform N) (columns : Record N) (fields : List (FieldDefinition N)) :
    Record N :=
  columns.map fun (k, v) =>
    if fields.any (fun f => f.encrypted && f.name == k) then (k, P.encrypt k v) else (k, v)

/-- The value of a column in the form in which it is stored. -/
def encryptValue (P : Platform N) (fields : List (FieldDefinition N)) (key : String) (v : JsVal N) :
    JsVal N :=
  if fields.any (fun f => f.encrypted && f.name == key) then P.encrypt key v else v

omit [JsNumber N] in
/-- The columns in the form in which they are stored. -/
theorem get?_encryptColumns (P : Platform N) (columns : Record N) (fields : List (FieldDefinition N))
    (key : String) : (encryptColumns P columns fields).get? key =
      (columns.get? key).map (encryptValue P fields key) := by
  have hmap : encryptColumns P columns fields =
      columns.map fun kv => (kv.1, encryptValue P fields kv.1 kv.2) := by
    unfold encryptColumns encryptValue
    refine List.map_congr_left fun kv _ => ?_
    simp only
    split <;> rfl
  rw [hmap, Record.get?_map (encryptValue P fields)]

/-! ## System columns -/

theorem splitEntry_system {P : Platform N} {fields : List (FieldDefinition N)}
    {acc acc' : Record N × Record N} {kv : String × JsVal N}
    (h : splitEntry P fields acc kv = .ok acc') {k : String} (hk : k ∈ systemFields) :
    acc'.1.get? k = acc.1.get? k := by
  obtain ⟨key, value⟩ := kv
  have hne (hkey : ¬ systemFields.contains key = true) : key ≠ k := by
    rintro rfl
    exact hkey (by rwa [List.contains_iff_mem])
  simp only [splitEntry] at h
  split at h
  · cases h
    rfl
  · next hkey =>
    split at h
    · split at h
      · cases h
        rfl
      · obtain ⟨coerced, _, h⟩ := exists_of_bind_eq_ok h
        cases h
        rw [Record.get?_set, if_neg (hne hkey)]
    · split at h
      · cases h
        rw [Record.get?_set, if_neg (hne hkey)]
      · cases h
        rfl

theorem fillField_of_ne {P : Platform N} {body columns : Record N} {f : FieldDefinition N}
    {k : String} (hk : f.name ≠ k) : (fillField P body columns f).get? k = columns.get? k := by
  have hset (columns : Record N) (v : JsVal N) :
      (columns.set f.name v).get? k = columns.get? k := by
    rw [Record.get?_set, if_neg hk]
  unfold fillField
  cases f.source with
  | none =>
    simp only
    split
    · exact hset _ _
    · rfl
  | some source =>
    simp only
    split <;> split <;> simp only [hset]

/-- No request sets a column of the engine, the `_meta` of the row apart. -/
theorem splitRowData_system {P : Platform N} {body columns rest : Record N}
    {fields : List (FieldDefinition N)} (hfields : ∀ f ∈ fields, f.name ∉ systemFieldNames)
    (h : splitRowData P body fields = .ok (columns, rest)) {k : String}
    (hk : k ∈ systemFieldNames) : columns.get? k = none := by
  have hk' : k ∈ systemFields := List.mem_cons_of_mem _ hk
  have hmeta : k ≠ "_meta" := by
    rintro rfl
    revert hk
    decide
  unfold splitRowData at h
  obtain ⟨⟨columns₀, rest₀⟩, hloop, h⟩ := exists_of_bind_eq_ok h
  cases h
  have hloop' : columns₀.get? k = none :=
    foldlM_invariant (I := fun acc => acc.1.get? k = none) hloop rfl fun acc kv acc' _ hacc hstep =>
      (splitEntry_system hstep hk').trans hacc
  rw [Record.get?_set, if_neg (Ne.symm hmeta)]
  refine foldl_invariant (I := fun columns : Record N => columns.get? k = none) hloop'
    fun columns f hf hcolumns => ?_
  rw [fillField_of_ne fun heq => hfields f hf (heq ▸ hk), hcolumns]

end

end HeadlessErp
