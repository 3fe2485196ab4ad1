import HeadlessErp.Base.Pattern
import HeadlessErp.Entity.FieldSelection
import HeadlessErp.Entity.Row
import HeadlessErp.Query.Scope

/-!
# The parameters of a list request

`QueryParser.parse` of `apps/api/src/lib/api/query-parser.ts`, without the page. A request is the list
of its decoded parameters, in their order. The key of a parameter is matched against the regular
expressions of the source one after the other (`KeyPattern.tried`), and each is a `Pattern`.
-/

namespace HeadlessErp

/-! ## Field selections -/

namespace FieldSelection

/-- `emptyFieldSelection`. -/
def empty : FieldSelection := node false [] [] [] 0

/-- `set.add(name)`, for a set in the order of insertion. -/
def addName (names : List String) (name : String) : List String :=
  if names.contains name then names else names ++ [name]

/-- Change the selection of a relation, which is made where there is none. -/
def changeRelation (f : FieldSelection → FieldSelection) (name : String) :
    List (String × FieldSelection) → List (String × FieldSelection)
  | [] => [(name, f empty)]
  | (k, sel) :: relations =>
    if k == name then (k, f sel) :: relations else (k, sel) :: changeRelation f name relations

/-- Leave out the name at the end of a path. -/
def addExclude : List String → FieldSelection → FieldSelection
  | [], sel => sel
  | [name], node all columns excludes relations depth =>
    node all columns (addName excludes name) relations depth
  | name :: path, node all columns excludes relations depth =>
    node all columns excludes (changeRelation (addExclude path) name relations) depth

/-- Select the name at the end of a path; a star on the way selects the columns of its level. -/
def addColumn : List String → FieldSelection → FieldSelection
  | [], sel => sel
  | seg :: path, node all columns excludes relations depth =>
    if seg == "*" then addColumn path (node true columns excludes relations depth)
    else if path.isEmpty then node all (addName columns seg) excludes relations depth
    else node all columns excludes (changeRelation (addColumn path) seg relations) depth

/-- Select the columns and some levels of relations. -/
def expand (levels : Nat) : FieldSelection → FieldSelection
  | node _ columns excludes relations depth =>
    node true columns excludes relations (max depth levels)

end FieldSelection

/-- `MAX_FIELD_SELECTIONS`. -/
def maxFieldSelections : Nat := 100

/-- `MAX_FIELD_PATH_SEGMENTS`. -/
def maxFieldPathSegments : Nat := 8

/-- `MAX_FIELD_EXPAND_DEPTH`. -/
def maxFieldExpandDepth : Nat := 3

/-- The segments of a field path. -/
def fieldSegments (raw : String) : List String := ((splitDots raw).map jsTrim).filter (· ≠ "")

/-- An entry of `?fields=`. -/
def selectField (root : FieldSelection) (raw : String) : Except ApiError FieldSelection :=
  let raw := jsTrim raw
  let excluded := raw.toList.head? == some '-'
  let segs := fieldSegments (if excluded then String.ofList (raw.toList.drop 1) else raw)
  if segs.length > maxFieldPathSegments then
    .error (.validation ("Field path exceeds maximum depth of " ++ toString maxFieldPathSegments
      ++ " segments") none)
  else if excluded then .ok (root.addExclude segs)
  else if !segs.isEmpty && segs.all (· == "*") then
    if segs.length - 1 > maxFieldExpandDepth then
      .error (.validation ("Field expansion depth exceeds maximum of "
        ++ toString maxFieldExpandDepth) none)
    else .ok (root.expand (segs.length - 1))
  else .ok (root.addColumn segs)

/-- `parseFieldSelection`. -/
def parseFieldSelection (fields : List String) : Except ApiError FieldSelection :=
  if fields.length > maxFieldSelections then
    .error (.validation ("Too many field selections (max " ++ toString maxFieldSelections ++ ")") none)
  else fields.foldlM selectField .empty

/-! ## Operators and values -/

/-- The text of an operator. -/
def FilterOperator.text : FilterOperator → String
  | eq => "_eq"
  | neq => "_neq"
  | gt => "_gt"
  | gte => "_gte"
  | lt => "_lt"
  | lte => "_lte"
  | contains => "_contains"
  | icontains => "_icontains"
  | ncontains => "_ncontains"
  | startswith => "_startswith"
  | endswith => "_endswith"
  | .in => "_in"
  | nin => "_nin"
  | null => "_null"
  | nnull => "_nnull"
  | between => "_between"
  | empty => "_empty"
  | nempty => "_nempty"

/-- `VALID_OPERATORS`. -/
def FilterOperator.validOperators : List FilterOperator :=
  [eq, neq, gt, gte, lt, lte, contains, icontains, ncontains, startswith, endswith, .in, nin, null,
    nnull, between, empty, nempty]

/-- The operator a text stands for. -/
def FilterOperator.ofText (s : String) : Option FilterOperator :=
  validOperators.find? (·.text == s)

/-- A text stands for the operator it is the text of. -/
theorem FilterOperator.text_of_ofText {s : String} {op : FilterOperator}
    (h : FilterOperator.ofText s = some op) : op.text = s := by
  have := List.find?_some h
  exact beq_iff_eq.1 this

/-- `rawValue.split(',').map((v) => v.trim())`. -/
def commaParts (raw : String) : List String :=
  ((raw.toList.splitOn ',').map String.ofList).map jsTrim

/-- `parseFilterValue`. -/
def parseFilterValue {N : Type} (raw : String) : FilterOperator → JsVal N
  | .in | .nin => .arr (((commaParts raw).filter (· ≠ "")).map .str)
  | .between =>
    let p := commaParts raw
    let last := if p.length ≥ 2 then 1 else 0
    .arr [.str (p.getD 0 ""), .str (p.getD last "")]
  | .null | .nnull => .null
  | .empty | .nempty => .str ""
  | _ => .str raw

/-- The parser makes a value that fits its operator. -/
theorem fits_parseFilterValue {N : Type} (raw : String) (op : FilterOperator) :
    op.fits (parseFilterValue raw op : JsVal N) = true := by
  cases op <;> simp [FilterOperator.fits, parseFilterValue, JsVal.isText]

/-- `malformedFilter`. -/
def malformedFilter (key : String) (operator : Option String) : ApiError :=
  match operator with
  | none => .validation ("Malformed filter \"" ++ key
      ++ "\" — use filter[field]=value or filter[field][_op]=value") none
  | some op => .validation ("Unsupported filter operator \"" ++ op ++ "\" in \"" ++ key ++ "\"") none

/-- The operator of a key with the value of its parameter. -/
def filterTest {N : Type} (key op raw : String) : Except ApiError (FilterTest N) :=
  match FilterOperator.ofText op with
  | none => .error (malformedFilter key (some op))
  | some operator => .ok ⟨operator, parseFilterValue raw operator, fits_parseFilterValue raw operator⟩

/-! ## Keys -/

/-- The regular expression `\w+`. -/
def isWord (cs : List Char) : Bool := !cs.isEmpty && cs.all isSqlIdentChar

/-- The regular expression `_\w+`. -/
def isOperatorName : List Char → Bool
  | '_' :: cs => isWord cs
  | _ => false

/-- The regular expression `[a-zA-Z][a-zA-Z0-9_]*`. -/
def isFieldText (cs : List Char) : Bool := isGroupField (String.ofList cs)

/-- The regular expression `[a-zA-Z][a-zA-Z0-9_]*(?:\.[a-zA-Z][a-zA-Z0-9_]*)+`. -/
def isPathText (cs : List Char) : Bool :=
  let path := splitDots (String.ofList cs)
  2 ≤ path.length && path.all isGroupField

/-- The regular expression `\d+`. -/
def isDigits (cs : List Char) : Bool := !cs.isEmpty && cs.all isDigit

/-- The regular expression `.`: no line terminator. -/
def isLineChar (c : Char) : Bool := !([0xA, 0xD, 0x2028, 0x2029].contains c.toNat)

/-- The functions of a filter on one part of a date. -/
def filterFunctions : List String :=
  ["year", "month", "day", "hour", "minute", "date", "unixepoch"]

/-- The texts of a group's type. -/
def Joiner.keyText : Joiner → String
  | .and => "_and"
  | .or => "_or"

/-- The regular expressions of `parse`. -/
inductive KeyPattern where
  | aggregate
  | group
  | strftime
  | function
  | bracketed
  | dotted
  | flat
  | bare
  deriving DecidableEq, Repr

/-- A text of a pattern. -/
def Piece.ofString (s : String) : Piece Char := .text s.toList

/-- The end of a key with an operator: `\]\[(_\w+)\]$`. -/
def operatorEnd : Pattern Char := [.ofString "][", .group false isOperatorName, .ofString "]"]

/-- A regular expression. -/
def KeyPattern.pattern : KeyPattern → Pattern Char
  -- /^aggregate\[(\w+)\]$/
  | aggregate => [.ofString "aggregate[", .group false isWord, .ofString "]"]
  -- /^filter\[(_and|_or)\]\[(\d+)\]\[(.+?)\]\[(_\w+)\]$/
  | group => .ofString "filter[" ::
      .group false (fun cs => ["_and", "_or"].contains (String.ofList cs)) :: .ofString "][" ::
      .group false isDigits :: .ofString "][" ::
      .group true (fun cs => !cs.isEmpty && cs.all isLineChar) :: operatorEnd
  -- /^filter\[strftime\(([^,]+),([a-zA-Z][a-zA-Z0-9_]*)\)\]\[(_\w+)\]$/
  | strftime => .ofString "filter[strftime(" ::
      .group false (fun cs => !cs.isEmpty && cs.all (· != ',')) :: .ofString "," ::
      .group false isFieldText :: .ofString ")" :: operatorEnd
  -- /^filter\[(year|month|day|hour|minute|date|unixepoch)\(([a-zA-Z][a-zA-Z0-9_]*)\)\]\[(_\w+)\]$/
  | function => .ofString "filter[" ::
      .group false (fun cs => filterFunctions.contains (String.ofList cs)) :: .ofString "(" ::
      .group false isFieldText :: .ofString ")" :: operatorEnd
  -- /^filter\[([a-zA-Z][a-zA-Z0-9_]*)\]\[([a-zA-Z][a-zA-Z0-9_]*)\]\[(_\w+)\]$/
  | bracketed => .ofString "filter[" :: .group false isFieldText :: .ofString "][" ::
      .group false isFieldText :: operatorEnd
  -- /^filter\[([a-zA-Z][a-zA-Z0-9_]*(?:\.[a-zA-Z][a-zA-Z0-9_]*)+)\]\[(_\w+)\]$/
  | dotted => .ofString "filter[" :: .group false isPathText :: operatorEnd
  -- /^filter\[([a-zA-Z][a-zA-Z0-9_]*)\]\[(_\w+)\]$/
  | flat => .ofString "filter[" :: .group false isFieldText :: operatorEnd
  -- /^filter\[([a-zA-Z][a-zA-Z0-9_]*)\]$/
  | bare => [.ofString "filter[", .group false isFieldText, .ofString "]"]

/-- The order in which `parse` tries them. -/
def KeyPattern.tried : List KeyPattern :=
  [aggregate, group, strftime, function, bracketed, dotted, flat, bare]

/-- The first regular expression that matches a key, and its groups. -/
def matchKey (key : String) : Option (KeyPattern × List String) :=
  KeyPattern.tried.findSome? fun k =>
    (k.pattern.captures key.toList).map fun m => (k, m.map String.ofList)

/-- The key of a filter. -/
def isFilterKey (key : String) : Bool := "filter[".toList.isPrefixOf key.toList

/-! ## Parameters -/

/-- `AGGREGATE_OPS`. -/
def aggregateOps : List (String × AggregateOp) :=
  [("count", .count), ("count_distinct", .countDistinct), ("sum", .sum), ("avg", .avg),
    ("min", .min), ("max", .max)]

/-- `AGGREGATE_OPS[name]`. What is inherited under a name is no operation, and `runAggregate`
counts for it. -/
def aggregateOp (name : String) : Option AggregateOp :=
  match aggregateOps.lookup name with
  | some op => some op
  | none => if inheritedNames.contains name then some .count else none

/-- What a parameter adds to a query. -/
inductive Parameter (N : Type) where
  | ignored
  | aggregate (a : AggregateClause)
  | group (index : String) (type : Joiner) (c : FilterClause N)
  | function (ff : FunctionFilter N)
  | nested (nf : NestedFilterClause N)
  | flat (c : FilterClause N)

/-- The type of a group, by its text. -/
def groupType (text : String) : Joiner := if text == "_or" then .or else .and

section
variable {N : Type}

/-- What the loop of `parse` makes of a parameter. The groups of the match are `m`. -/
def readParameter (key raw : String) : Except ApiError (Parameter N) :=
  match matchKey key with
  | none => if isFilterKey key then .error (malformedFilter key none) else .ok .ignored
  | some (.aggregate, m) =>
    let name := m.getD 0 ""
    match aggregateOp name with
    | some op => .ok (.aggregate ⟨op, raw, name ++ "_" ++ if raw == "*" then "all" else raw⟩)
    | none => .ok .ignored
  | some (.group, m) => do
    let test ← filterTest key (m.getD 3 "") raw
    .ok (.group (m.getD 0 "" ++ "_" ++ m.getD 1 "") (groupType (m.getD 0 "")) ⟨test, m.getD 2 ""⟩)
  | some (.strftime, m) => do
    let test ← filterTest key (m.getD 2 "") raw
    .ok (.function ⟨test, m.getD 1 "", "strftime", [m.getD 0 ""]⟩)
  | some (.function, m) => do
    let test ← filterTest key (m.getD 2 "") raw
    .ok (.function ⟨test, m.getD 1 "", m.getD 0 "", []⟩)
  | some (.bracketed, m) => do
    let test ← filterTest key (m.getD 2 "") raw
    .ok (.nested ⟨test, [m.getD 0 "", m.getD 1 ""]⟩)
  | some (.dotted, m) => do
    let test ← filterTest key (m.getD 1 "") raw
    .ok (.nested ⟨test, splitDots (m.getD 0 "")⟩)
  | some (.flat, m) => do
    let test ← filterTest key (m.getD 1 "") raw
    .ok (.flat ⟨test, m.getD 0 ""⟩)
  | some (.bare, m) =>
    .ok (.flat ⟨⟨.eq, parseFilterValue raw .eq, fits_parseFilterValue raw .eq⟩, m.getD 0 ""⟩)

/-! ## Queries -/

/-- `parsed`, with `groupMap`. -/
structure ParseState (N : Type) where
  parsed : ParsedQuery N
  groupMap : List (String × FilterGroup N) := []

/-- Add clauses to a group of a map, which is made where there is none. -/
def pushClauses {κ : Type} [BEq κ] (k : κ) (type : Joiner) (cs : List (FilterClause N)) :
    List (κ × FilterGroup N) → List (κ × FilterGroup N)
  | [] => [(k, ⟨type, cs⟩)]
  | (k', g) :: map =>
    if k' == k then (k', { g with conditions := g.conditions ++ cs }) :: map
    else (k', g) :: pushClauses k type cs map

/-- What a parameter adds. -/
def ParseState.push (s : ParseState N) : Parameter N → ParseState N
  | .ignored => s
  | .aggregate a => { s with parsed := { s.parsed with aggregate := s.parsed.aggregate ++ [a] } }
  | .group index type c => { s with groupMap := pushClauses index type [c] s.groupMap }
  | .function ff =>
    { s with parsed := { s.parsed with functionFilters := s.parsed.functionFilters ++ [ff] } }
  | .nested nf =>
    { s with parsed := { s.parsed with nestedFilters := s.parsed.nestedFilters ++ [nf] } }
  | .flat c => { s with parsed := { s.parsed with filters := s.parsed.filters ++ [c] } }

/-- `seenGroups`: the groups of one type are one group. -/
def mergeGroups (groupMap : List (String × FilterGroup N)) : List (FilterGroup N) :=
  (groupMap.foldl (fun seen entry => pushClauses entry.2.type entry.2.type entry.2.conditions seen)
    ([] : List (Joiner × FilterGroup N))).map (·.2)

/-- `str.split(',')`, trimmed, without the empty parts. -/
def listParameter (str : String) : List String := (commaParts str).filter (· ≠ "")

/-- An entry of `?sort=`. -/
def parseSort (s : String) : SortClause :=
  match s.toList with
  | '-' :: cs => ⟨String.ofList cs, true⟩
  | _ => ⟨s, false⟩

/-- The parameter is there and not empty. -/
def givenParameter (params : List (String × String)) (name : String) : Option String :=
  (params.lookup name).filter (· ≠ "")

/-- `?groupBy[]=`, or `?groupBy=`. -/
def parseGroupBy (params : List (String × String)) : List String :=
  let values := (params.filter (·.1 == "groupBy[]")).map (·.2)
  if values.isEmpty then ((givenParameter params "groupBy").map listParameter).getD []
  else values.filter (· ≠ "")

/-- `parse`. -/
def QueryParser.parse (params : List (String × String)) : Except ApiError (ParsedQuery N) := do
  let fields := ((givenParameter params "fields").map listParameter).getD []
  let _ ← parseFieldSelection fields
  let sorts := ((givenParameter params "sort").map listParameter).getD [] |>.map parseSort
  let s ← params.foldlM (fun (s : ParseState N) entry => s.push <$> readParameter entry.1 entry.2)
    { parsed := {
        fields
        sorts := sorts.filter (!·.field.toList.contains '.')
        nestedSorts := sorts.filter (·.field.toList.contains '.')
        search := (params.lookup "search").getD ""
        groupBy := parseGroupBy params } }
  .ok { s.parsed with filterGroups := mergeGroups s.groupMap }

/-! ## What a key spells -/

/-- The key `filter[subject][_op]`. -/
def filterKey (subject : String) (op : FilterOperator) : String :=
  "filter[" ++ subject ++ "][" ++ op.text ++ "]"

/-- A parameter is what a key and a text spell. -/
def Parameter.Spelled (key raw : String) : Parameter N → Prop
  | .flat c => isGroupField c.field = true ∧ c.value = parseFilterValue raw c.operator ∧
      (key = filterKey c.field c.operator ∨
        c.operator = .eq ∧ key = "filter[" ++ c.field ++ "]")
  | .nested nf => nf.path.all isGroupField = true ∧ nf.value = parseFilterValue raw nf.operator ∧
      (key = filterKey (".".intercalate nf.path) nf.operator ∨
        ∃ relation field, nf.path = [relation, field] ∧
          key = filterKey (relation ++ "][" ++ field) nf.operator)
  | .function ff => isGroupField ff.field = true ∧ ff.value = parseFilterValue raw ff.operator ∧
      (filterFunctions.contains ff.fn = true ∧ ff.args = [] ∨
        ff.fn = "strftime" ∧ ∃ format, ff.args = [format]) ∧
      key = filterKey (ff.fn ++ "(" ++ ",".intercalate (ff.args ++ [ff.field]) ++ ")") ff.operator
  | .group index type c => c.value = parseFilterValue raw c.operator ∧ ∃ digits : String,
      isDigits digits.toList = true ∧ index = type.keyText ++ "_" ++ digits ∧
      key = filterKey (type.keyText ++ "][" ++ digits ++ "][" ++ c.field) c.operator
  | .ignored | .aggregate _ => False

/-- The parameter is a filter. -/
def Parameter.isFilter : Parameter N → Bool
  | .ignored | .aggregate _ => false
  | .group _ _ _ | .function _ | .nested _ | .flat _ => true

/-- The groups of a match spell the key. -/
theorem spells_of_matchKey {key : String} {k : KeyPattern} {m : List String}
    (h : matchKey key = some (k, m)) :
    ∃ gs, m = gs.map String.ofList ∧ k.pattern.Spells gs key.toList := by
  obtain ⟨k', -, h⟩ := List.exists_of_findSome?_eq_some h
  obtain ⟨gs, hgs, heq⟩ := Option.map_eq_some_iff.1 h
  cases heq
  exact ⟨gs, rfl, Pattern.spells_of_captures hgs⟩

/-- The test of a key has its operator. -/
theorem filterTest_eq_ok {key op raw : String} {test : FilterTest N}
    (h : filterTest key op raw = .ok test) :
    test.operator.text = op ∧ test.value = parseFilterValue raw test.operator := by
  unfold filterTest at h
  split at h
  · cases h
  · next operator hop =>
    cases h
    exact ⟨FilterOperator.text_of_ofText hop, rfl⟩

/-- The end of a key with an operator. -/
theorem spells_operatorEnd {gs : List (List Char)} {l : List Char}
    (h : Pattern.Spells operatorEnd gs l) :
    ∃ op, gs = [op] ∧ l = "][".toList ++ (op ++ "]".toList) := by
  simp only [operatorEnd, Piece.ofString, Pattern.spells_text, Pattern.spells_group,
    Pattern.spells_nil] at h
  obtain ⟨_, rfl, op, _, _, rfl, rfl, -, _, rfl, rfl, rfl⟩ := h
  exact ⟨op, rfl, by simp⟩

/-- A key that ends with an operator. -/
theorem eq_filterKey {key subject op : String} {operator : FilterOperator}
    (h : key.toList = "filter[".toList ++ (subject.toList ++ ("][".toList ++
      (op.toList ++ "]".toList)))) (hop : operator.text = op) :
    key = filterKey subject operator := by
  apply String.toList_inj.1
  rw [h]
  simp [filterKey, hop, String.toList_append]

/-- What the parser makes of the key of a filter is what the key spells. -/
theorem spelled_of_readParameter {key raw : String} {p : Parameter N}
    (h : readParameter key raw = .ok p) (hfilter : isFilterKey key = true ∨ p.isFilter = true) :
    p.Spelled key raw := by
  unfold readParameter at h
  cases hmatch : matchKey key with
  | none =>
    rw [hmatch] at h
    simp only at h
    split at h
    · cases h
    · next hkey =>
      cases h
      exact absurd (hfilter.resolve_right nofun) hkey
  | some km =>
    obtain ⟨k, m⟩ := km
    obtain ⟨gs, rfl, hspells⟩ := spells_of_matchKey hmatch
    rw [hmatch] at h
    cases k with
    | aggregate =>
      -- such a key does not begin like the one of a filter
      obtain ⟨rest, hrest, -⟩ := Pattern.spells_text.1 hspells
      have hkey : isFilterKey key = false := by
        unfold isFilterKey
        rw [hrest]
        rfl
      have hp : p.isFilter = false := by
        simp only at h
        split at h <;> cases h <;> rfl
      simp [hkey, hp] at hfilter
    | group =>
      simp only [KeyPattern.pattern, Piece.ofString, Pattern.spells_text, Pattern.spells_group]
        at hspells
      obtain ⟨_, hkey, type, _, _, rfl, rfl, htype, _, rfl, digits, _, _, rfl, rfl, hdigits, _, rfl,
        field, _, _, rfl, rfl, -, hend⟩ := hspells
      obtain ⟨op, rfl, rfl⟩ := spells_operatorEnd hend
      obtain ⟨test, htest, h⟩ := exists_of_bind_eq_ok h
      cases h
      obtain ⟨hop, hvalue⟩ := filterTest_eq_ok htest
      have htext : (groupType (String.ofList type)).keyText = String.ofList type := by
        simp only [List.contains_cons, List.contains_nil, Bool.or_false, Bool.or_eq_true,
          beq_iff_eq] at htype
        obtain h | h := htype <;> simp [h, groupType, Joiner.keyText]
      have hspelled : key = filterKey (String.ofList type ++ "][" ++ String.ofList digits ++ "]["
          ++ String.ofList field) test.operator := eq_filterKey (by simpa using hkey) hop
      rw [← htext] at hspelled
      exact ⟨hvalue, String.ofList digits, by simpa using hdigits,
        congrArg (· ++ "_" ++ String.ofList digits) htext.symm, hspelled⟩
    | strftime =>
      simp only [KeyPattern.pattern, Piece.ofString, Pattern.spells_text, Pattern.spells_group]
        at hspells
      obtain ⟨_, hkey, format, _, _, rfl, rfl, -, _, rfl, field, _, _, rfl, rfl, hfield, _, rfl,
        hend⟩ := hspells
      obtain ⟨op, rfl, rfl⟩ := spells_operatorEnd hend
      obtain ⟨test, htest, h⟩ := exists_of_bind_eq_ok h
      cases h
      obtain ⟨hop, hvalue⟩ := filterTest_eq_ok htest
      exact ⟨hfield, hvalue, .inr ⟨rfl, _, rfl⟩, eq_filterKey (by simpa using hkey) hop⟩
    | function =>
      simp only [KeyPattern.pattern, Piece.ofString, Pattern.spells_text, Pattern.spells_group]
        at hspells
      obtain ⟨_, hkey, fn, _, _, rfl, rfl, hfn, _, rfl, field, _, _, rfl, rfl, hfield, _, rfl,
        hend⟩ := hspells
      obtain ⟨op, rfl, rfl⟩ := spells_operatorEnd hend
      obtain ⟨test, htest, h⟩ := exists_of_bind_eq_ok h
      cases h
      obtain ⟨hop, hvalue⟩ := filterTest_eq_ok htest
      exact ⟨hfield, hvalue, .inl ⟨hfn, rfl⟩, eq_filterKey (by simpa using hkey) hop⟩
    | bracketed =>
      simp only [KeyPattern.pattern, Piece.ofString, Pattern.spells_text, Pattern.spells_group]
        at hspells
      obtain ⟨_, hkey, relation, _, _, rfl, rfl, hrelation, _, rfl, field, _, _, rfl, rfl, hfield,
        hend⟩ := hspells
      obtain ⟨op, rfl, rfl⟩ := spells_operatorEnd hend
      obtain ⟨test, htest, h⟩ := exists_of_bind_eq_ok h
      cases h
      obtain ⟨hop, hvalue⟩ := filterTest_eq_ok htest
      have hpath : [String.ofList relation, String.ofList field].all isGroupField = true := by
        simp only [List.all_cons, List.all_nil, Bool.and_true, Bool.and_eq_true]
        exact ⟨hrelation, hfield⟩
      exact ⟨hpath, hvalue, .inr ⟨_, _, rfl, eq_filterKey (by simpa using hkey) hop⟩⟩
    | dotted =>
      simp only [KeyPattern.pattern, Piece.ofString, Pattern.spells_text, Pattern.spells_group]
        at hspells
      obtain ⟨_, hkey, path, _, _, rfl, rfl, hpath, hend⟩ := hspells
      obtain ⟨op, rfl, rfl⟩ := spells_operatorEnd hend
      obtain ⟨test, htest, h⟩ := exists_of_bind_eq_ok h
      cases h
      obtain ⟨hop, hvalue⟩ := filterTest_eq_ok htest
      unfold isPathText at hpath
      rw [Bool.and_eq_true] at hpath
      refine ⟨hpath.2, hvalue, .inl ?_⟩
      show key = filterKey (".".intercalate (splitDots (String.ofList path))) _
      rw [intercalate_splitDots]
      exact eq_filterKey (by simpa using hkey) hop
    | flat =>
      simp only [KeyPattern.pattern, Piece.ofString, Pattern.spells_text, Pattern.spells_group]
        at hspells
      obtain ⟨_, hkey, field, _, _, rfl, rfl, hfield, hend⟩ := hspells
      obtain ⟨op, rfl, rfl⟩ := spells_operatorEnd hend
      obtain ⟨test, htest, h⟩ := exists_of_bind_eq_ok h
      cases h
      obtain ⟨hop, hvalue⟩ := filterTest_eq_ok htest
      exact ⟨hfield, hvalue, .inl (eq_filterKey (by simpa using hkey) hop)⟩
    | bare =>
      simp only [KeyPattern.pattern, Piece.ofString, Pattern.spells_text, Pattern.spells_group,
        Pattern.spells_nil] at hspells
      obtain ⟨_, hkey, field, _, _, rfl, rfl, hfield, _, rfl, rfl, rfl⟩ := hspells
      cases h
      refine ⟨hfield, rfl, .inr ⟨rfl, ?_⟩⟩
      apply String.toList_inj.1
      rw [hkey]
      simp [String.toList_append]

/-- The key of a filter. -/
theorem isFilterKey_filterKey (subject : String) (op : FilterOperator) :
    isFilterKey (filterKey subject op) = true := by
  simp [isFilterKey, filterKey, String.toList_append]

/-- Only keys of filters are read as filters. -/
theorem isFilterKey_of_isFilter {key raw : String} {p : Parameter N}
    (h : readParameter key raw = .ok p) (hp : p.isFilter = true) : isFilterKey key = true := by
  have hspelled := spelled_of_readParameter h (.inr hp)
  cases p with
  | ignored => cases hp
  | aggregate a => cases hp
  | flat c =>
    obtain ⟨-, -, rfl | ⟨-, rfl⟩⟩ := hspelled
    · exact isFilterKey_filterKey _ _
    · simp [isFilterKey, String.toList_append]
  | nested nf =>
    obtain ⟨-, -, rfl | ⟨_, _, -, rfl⟩⟩ := hspelled <;> exact isFilterKey_filterKey _ _
  | function ff =>
    obtain ⟨-, -, -, rfl⟩ := hspelled
    exact isFilterKey_filterKey _ _
  | group index type c =>
    obtain ⟨-, _, -, -, rfl⟩ := hspelled
    exact isFilterKey_filterKey _ _

/-! ## What is in a query -/

/-- A filter of a query came from a parameter of a group of this type. -/
def FromGroup (params : List (String × String)) (type : Joiner) (c : FilterClause N) : Prop :=
  ∃ entry ∈ params, ∃ index, readParameter entry.1 entry.2 = .ok (.group index type c)

/-- A query has what a parameter adds. -/
def ParsedQuery.Has (parsed : ParsedQuery N) : Parameter N → Prop
  | .ignored => True
  | .aggregate a => a ∈ parsed.aggregate
  | .group _ type c => ∃ g ∈ parsed.filterGroups, g.type = type ∧ c ∈ g.conditions
  | .function ff => ff ∈ parsed.functionFilters
  | .nested nf => nf ∈ parsed.nestedFilters
  | .flat c => c ∈ parsed.filters

section
variable {κ : Type} [BEq κ] [LawfulBEq κ] {k : κ} {type : Joiner} {cs : List (FilterClause N)}
  {map : List (κ × FilterGroup N)}

/-- What holds of the groups of a map holds after clauses are added. -/
theorem forall_pushClauses {P : κ → FilterGroup N → Prop} (hmap : ∀ e ∈ map, P e.1 e.2)
    (hnew : P k ⟨type, cs⟩)
    (hpush : ∀ g, P k g → P k { g with conditions := g.conditions ++ cs }) :
    ∀ e ∈ pushClauses k type cs map, P e.1 e.2 := by
  induction map with
  | nil =>
    intro e he
    obtain rfl := List.mem_singleton.1 he
    exact hnew
  | cons entry map ih =>
    obtain ⟨k', g⟩ := entry
    obtain ⟨hg, hmap⟩ := List.forall_mem_cons.1 hmap
    unfold pushClauses
    split
    · next hk =>
      obtain rfl := eq_of_beq hk
      exact List.forall_mem_cons.2 ⟨hpush g hg, hmap⟩
    · exact List.forall_mem_cons.2 ⟨hg, ih hmap⟩

omit [LawfulBEq κ] in
/-- A group keeps its clauses when clauses are added to a map. -/
theorem mem_pushClauses_of_mem (k : κ) (type : Joiner) (cs : List (FilterClause N)) {k' : κ}
    {g : FilterGroup N} (h : (k', g) ∈ map) :
    ∃ g', (k', g') ∈ pushClauses k type cs map ∧ ∀ c ∈ g.conditions, c ∈ g'.conditions := by
  induction map with
  | nil => cases h
  | cons entry map ih =>
    obtain ⟨k₀, g₀⟩ := entry
    unfold pushClauses
    split
    · obtain h | h := List.mem_cons.1 h
      · cases h
        exact ⟨_, List.mem_cons_self, fun c hc => List.mem_append_left _ hc⟩
      · exact ⟨g, List.mem_cons_of_mem _ h, fun _ hc => hc⟩
    · obtain h | h := List.mem_cons.1 h
      · cases h
        exact ⟨g, List.mem_cons_self, fun _ hc => hc⟩
      · obtain ⟨g', hg', hcs⟩ := ih h
        exact ⟨g', List.mem_cons_of_mem _ hg', hcs⟩

/-- The clauses that are added are in the group. -/
theorem mem_pushClauses_self (k : κ) (type : Joiner) (cs : List (FilterClause N))
    (map : List (κ × FilterGroup N)) :
    ∃ g, (k, g) ∈ pushClauses k type cs map ∧ ∀ c ∈ cs, c ∈ g.conditions := by
  induction map with
  | nil => exact ⟨⟨type, cs⟩, List.mem_singleton.2 rfl, fun _ hc => hc⟩
  | cons entry map ih =>
    obtain ⟨k', g⟩ := entry
    unfold pushClauses
    split
    · next hk =>
      obtain rfl := eq_of_beq hk
      exact ⟨_, List.mem_cons_self, fun c hc => List.mem_append_right _ hc⟩
    · obtain ⟨g', hg', hcs⟩ := ih
      exact ⟨g', List.mem_cons_of_mem _ hg', hcs⟩

end

/-- A query in the making has what a parameter adds. -/
def ParseState.Has (s : ParseState N) : Parameter N → Prop
  | .group index _ c => ∃ g, (index, g) ∈ s.groupMap ∧ c ∈ g.conditions
  | p => s.parsed.Has p

/-- A parameter adds what it adds. -/
theorem ParseState.has_push (s : ParseState N) (p : Parameter N) : (s.push p).Has p := by
  cases p with
  | ignored => trivial
  | group index type c =>
    obtain ⟨g, hg, hc⟩ := mem_pushClauses_self index type [c] s.groupMap
    exact ⟨g, hg, hc c List.mem_cons_self⟩
  | aggregate a => exact List.mem_append_right _ List.mem_cons_self
  | function ff => exact List.mem_append_right _ List.mem_cons_self
  | nested nf => exact List.mem_append_right _ List.mem_cons_self
  | flat c => exact List.mem_append_right _ List.mem_cons_self

/-- A parameter takes nothing away. -/
theorem ParseState.Has.push {s : ParseState N} {p : Parameter N} (h : s.Has p)
    (p' : Parameter N) : (s.push p').Has p := by
  cases p with
  | ignored => trivial
  | group index type c =>
    obtain ⟨g, hg, hc⟩ := h
    cases p' with
    | group index' type' c' =>
      obtain ⟨g', hg', hsub⟩ := mem_pushClauses_of_mem index' type' [c'] hg
      exact ⟨g', hg', hsub c hc⟩
    | _ => exact ⟨g, hg, hc⟩
  | aggregate a =>
    cases p' with
    | aggregate a' => exact List.mem_append_left _ h
    | _ => exact h
  | function ff =>
    cases p' with
    | function ff' => exact List.mem_append_left _ h
    | _ => exact h
  | nested nf =>
    cases p' with
    | nested nf' => exact List.mem_append_left _ h
    | _ => exact h
  | flat c =>
    cases p' with
    | flat c' => exact List.mem_append_left _ h
    | _ => exact h

/-- After the loop, the query has what every parameter adds. -/
theorem has_of_foldlM {params : List (String × String)} {s s' : ParseState N}
    (h : params.foldlM (fun (s : ParseState N) entry =>
      s.push <$> readParameter entry.1 entry.2) s = .ok s') :
    (∀ p, s.Has p → s'.Has p) ∧
      ∀ entry ∈ params, ∃ p, readParameter entry.1 entry.2 = .ok p ∧ s'.Has p := by
  induction params generalizing s with
  | nil =>
    cases h
    exact ⟨fun _ h => h, nofun⟩
  | cons entry params ih =>
    rw [List.foldlM_cons] at h
    obtain ⟨s₁, hs₁, hrest⟩ := exists_of_bind_eq_ok h
    obtain ⟨p, hp, rfl⟩ := exists_of_map_eq_ok hs₁
    obtain ⟨hkeep, hall⟩ := ih hrest
    refine ⟨fun p' hp' => hkeep p' (hp'.push p), ?_⟩
    exact List.forall_mem_cons.2 ⟨⟨p, hp, hkeep p (s.has_push p)⟩, hall⟩

/-- The groups of a map have the type of their index, and their clauses came from parameters. -/
def GroupsFrom (params : List (String × String)) (index : String) (g : FilterGroup N) : Prop :=
  (∃ digits, index = g.type.keyText ++ "_" ++ digits) ∧ ∀ c ∈ g.conditions, FromGroup params g.type c

omit N in
/-- The type of a group is read off its index. -/
theorem type_of_index {type type' : Joiner} {digits digits' : String}
    (h : type.keyText ++ "_" ++ digits = type'.keyText ++ "_" ++ digits') : type = type' := by
  have h := congrArg String.toList h
  cases type <;> cases type' <;> first | rfl | simp [Joiner.keyText, String.toList_append] at h

/-- A parameter keeps the groups in order. -/
theorem groupsFrom_push {params : List (String × String)} {s : ParseState N} {p : Parameter N}
    {entry : String × String} (hentry : entry ∈ params)
    (hp : readParameter entry.1 entry.2 = .ok p) (h : ∀ e ∈ s.groupMap, GroupsFrom params e.1 e.2) :
    ∀ e ∈ (s.push p).groupMap, GroupsFrom params e.1 e.2 := by
  cases p with
  | group index type c =>
    obtain ⟨-, digits, -, hindex, -⟩ := spelled_of_readParameter hp (.inr rfl)
    have hfrom : FromGroup params type c := ⟨entry, hentry, index, hp⟩
    refine forall_pushClauses h ⟨⟨digits, hindex⟩, List.forall_mem_singleton.2 hfrom⟩ ?_
    rintro g ⟨⟨digits', hindex'⟩, hg⟩
    obtain rfl := type_of_index (hindex.symm.trans hindex')
    exact ⟨⟨digits', hindex'⟩, List.forall_mem_append.2 ⟨hg, List.forall_mem_singleton.2 hfrom⟩⟩
  | _ => exact h

/-- Merging the groups of a type keeps their clauses, and where they came from. -/
theorem mergeGroups_spec {params : List (String × String)} {groupMap : List (String × FilterGroup N)}
    (h : ∀ e ∈ groupMap, GroupsFrom params e.1 e.2) :
    (∀ g ∈ mergeGroups groupMap, ∀ c ∈ g.conditions, FromGroup params g.type c) ∧
      ∀ e ∈ groupMap, ∃ g ∈ mergeGroups groupMap, g.type = e.2.type ∧
        ∀ c ∈ e.2.conditions, c ∈ g.conditions := by
  have hfold := foldl_forall (l := groupMap) (b := ([] : List (Joiner × FilterGroup N)))
    (f := fun seen entry => pushClauses entry.2.type entry.2.type entry.2.conditions seen)
    (I := fun seen => ∀ e ∈ seen, e.2.type = e.1 ∧ ∀ c ∈ e.2.conditions, FromGroup params e.1 c)
    (P := fun e seen => ∃ g, (e.2.type, g) ∈ seen ∧ ∀ c ∈ e.2.conditions, c ∈ g.conditions)
    nofun ?_ ?_
  · obtain ⟨hI, hP⟩ := hfold
    constructor
    · intro g hg c hc
      obtain ⟨e, he, rfl⟩ := List.mem_map.1 hg
      obtain ⟨htype, hfrom⟩ := hI e he
      exact htype ▸ hfrom c hc
    · intro e he
      obtain ⟨g, hg, hsub⟩ := hP e he
      exact ⟨g, List.mem_map.2 ⟨_, hg, rfl⟩, (hI _ hg).1, hsub⟩
  · intro seen e he hseen
    refine ⟨?_, mem_pushClauses_self _ _ _ seen⟩
    refine forall_pushClauses (P := fun type g => g.type = type ∧
      ∀ c ∈ g.conditions, FromGroup params type c) hseen ⟨rfl, (h e he).2⟩ fun g hg => ?_
    exact ⟨hg.1, List.forall_mem_append.2 ⟨hg.2, (h e he).2⟩⟩
  · rintro seen e - - e' ⟨g, hg, hsub⟩
    obtain ⟨g', hg', hsub'⟩ := mem_pushClauses_of_mem e.2.type e.2.type e.2.conditions hg
    exact ⟨g', hg', fun c hc => hsub' c (hsub c hc)⟩

/-- A query that is parsed has what every parameter adds, and its groups have nothing else. -/
theorem parse_spec {params : List (String × String)} {parsed : ParsedQuery N}
    (h : QueryParser.parse params = .ok parsed) :
    (∀ entry ∈ params, ∃ p, readParameter entry.1 entry.2 = .ok p ∧ parsed.Has p) ∧
      ∀ g ∈ parsed.filterGroups, ∀ c ∈ g.conditions, FromGroup params g.type c := by
  unfold QueryParser.parse at h
  obtain ⟨-, -, h⟩ := exists_of_bind_eq_ok h
  obtain ⟨s, hs, h⟩ := exists_of_bind_eq_ok h
  cases h
  have hgroups : ∀ e ∈ s.groupMap, GroupsFrom params e.1 e.2 := by
    refine foldlM_invariant (I := fun s => ∀ e ∈ s.groupMap, GroupsFrom params e.1 e.2) hs nofun ?_
    intro s entry s' hentry hI hstep
    obtain ⟨p, hp, rfl⟩ := exists_of_map_eq_ok hstep
    exact groupsFrom_push hentry hp hI
  obtain ⟨hfrom, hmerged⟩ := mergeGroups_spec hgroups
  refine ⟨fun entry hentry => ?_, hfrom⟩
  obtain ⟨p, hp, hhas⟩ := (has_of_foldlM hs).2 entry hentry
  refine ⟨p, hp, ?_⟩
  cases p with
  | group index type c =>
    obtain ⟨g, hg, hc⟩ := hhas
    obtain ⟨g', hg', htype, hsub⟩ := hmerged _ hg
    obtain ⟨-, digits, -, hindex, -⟩ := spelled_of_readParameter hp (.inr rfl)
    obtain ⟨⟨digits', hindex'⟩, -⟩ := hgroups _ hg
    have htype' : type = g.type := type_of_index (hindex.symm.trans hindex')
    exact ⟨g', hg', htype.trans htype'.symm, hsub c hc⟩
  | _ => exact hhas

/-- A parameter of a request. -/
def FromParameter (params : List (String × String)) (p : Parameter N) : Prop :=
  ∃ entry ∈ params, readParameter entry.1 entry.2 = .ok p

/-- What is in a query that is parsed came from a parameter. -/
structure ParsedFrom (params : List (String × String)) (parsed : ParsedQuery N) : Prop where
  aggregate : ∀ a ∈ parsed.aggregate, FromParameter (N := N) params (.aggregate a)
  filters : ∀ c ∈ parsed.filters, FromParameter params (.flat c)
  nestedFilters : ∀ nf ∈ parsed.nestedFilters, FromParameter params (.nested nf)

/-- A parameter adds nothing else. -/
theorem ParsedFrom.push {params : List (String × String)} {s : ParseState N} {p : Parameter N}
    (h : ParsedFrom params s.parsed) (hp : FromParameter params p) :
    ParsedFrom params (s.push p).parsed := by
  cases p with
  | aggregate a =>
    exact { h with aggregate := List.forall_mem_append.2 ⟨h.aggregate, List.forall_mem_singleton.2 hp⟩ }
  | nested nf =>
    exact { h with
      nestedFilters := List.forall_mem_append.2 ⟨h.nestedFilters, List.forall_mem_singleton.2 hp⟩ }
  | flat c =>
    exact { h with filters := List.forall_mem_append.2 ⟨h.filters, List.forall_mem_singleton.2 hp⟩ }
  | _ => exact ⟨h.aggregate, h.filters, h.nestedFilters⟩

/-- A query that is parsed has nothing that is not asked for. -/
theorem parsedFrom_of_parse {params : List (String × String)} {parsed : ParsedQuery N}
    (h : QueryParser.parse params = .ok parsed) : ParsedFrom params parsed := by
  unfold QueryParser.parse at h
  obtain ⟨-, -, h⟩ := exists_of_bind_eq_ok h
  obtain ⟨s, hs, h⟩ := exists_of_bind_eq_ok h
  cases h
  have hfrom : ParsedFrom params s.parsed := by
    refine foldlM_invariant (I := fun s => ParsedFrom params s.parsed) hs ⟨nofun, nofun, nofun⟩ ?_
    intro s entry s' hentry hI hstep
    obtain ⟨p, hp, rfl⟩ := exists_of_map_eq_ok hstep
    exact hI.push ⟨entry, hentry, hp⟩
  exact ⟨hfrom.aggregate, hfrom.filters, hfrom.nestedFilters⟩

end

end HeadlessErp
