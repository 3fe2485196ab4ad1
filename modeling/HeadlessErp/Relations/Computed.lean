import HeadlessErp.Entity.Row
import HeadlessErp.Expression.Parser

/-!
# Computed fields

The helpers of formula fields (`packages/core/src/entity/computed.ts`): the names an expression
mentions, the formulas that one depends on, what the evaluator's scope has of the rows of a relation,
and the rounding of a result. The columns that a lookup fetches are those of
`apps/api/src/lib/services/computed-field.service.ts`.
-/

namespace HeadlessErp

/-! ## The text of a formula -/

/-- The regular expression `\w`. -/
def isWordChar (c : Char) : Bool := isIdentChar c && c != '$'

/-- A match of `IDENT_RE` where a word may begin: the longest one that ends with a word. -/
def identAt (cs : List Char) : List Char :=
  ((cs.takeWhile isIdentChar).reverse.dropWhile (· == '$')).reverse

/-- `matchAll(IDENT_RE)`. The flag says that the character before is one of a word. -/
def identScan : Nat → Bool → List Char → List String
  | 0, _, _ | _, _, [] => []
  | fuel + 1, before, c :: cs =>
    if isIdentStart c && before != isWordChar c && !(identAt (c :: cs)).isEmpty then
      String.ofList (identAt (c :: cs)) ::
        identScan fuel true (cs.drop ((identAt (c :: cs)).length - 1))
    else identScan fuel (isWordChar c) cs

/-- The identifiers of an expression. -/
def identMatches (formula : String) : List String :=
  identScan formula.length false formula.toList

/-- What follows a relation's name where a text begins with it. -/
def afterName (name : String) (cs : List Char) : Option (List Char) :=
  if name.toList.isPrefixOf cs then some (cs.drop name.length) else none

/-- The member that follows a dot. -/
def memberAfter (cs : List Char) : Option (List Char × List Char) :=
  match cs.dropWhile isSpace with
  | '.' :: cs =>
    let cs := cs.dropWhile isSpace
    let member := cs.takeWhile isIdentChar
    if cs.head?.any isIdentStart then some (member, cs.drop member.length) else none
  | _ => none

/-- `lookupMemberColumns`, for one formula. The flag says that the character before is one of an
identifier. -/
def memberScan (name : String) : Nat → Bool → List Char → List String
  | 0, _, _ | _, _, [] => []
  | fuel + 1, before, c :: cs =>
    match if before then none else (afterName name (c :: cs)).bind memberAfter with
    | some (member, rest) => String.ofList member :: memberScan name fuel true rest
    | none => memberScan name fuel (isIdentChar c) cs

/-- `lookupMemberColumns`. -/
def lookupMemberColumns (formulas : List String) (name : String) : List String :=
  formulas.flatMap fun formula => memberScan name formula.length false formula.toList

/-- A formula has the relation as a value. -/
def bareScan (name : String) : Bool → List Char → Bool
  | _, [] => false
  | before, c :: cs =>
    (!before && (afterName name (c :: cs)).any fun rest =>
      (rest.dropWhile isSpace).head? != some '.') || bareScan name (isIdentChar c) cs

/-- `usesRelationBare`. -/
def usesRelationBare (formulas : List String) (name : String) : Bool :=
  formulas.any fun formula => bareScan name false formula.toList

section
variable {N : Type}

/-! ## References -/

/-- `LOOKUP_RELATION_TYPES`. -/
def FieldType.isLookup : FieldType → Bool
  | .o2m | .m2m | .table | .m2o => true
  | _ => false

/-- `extractLookupRefs`: the names of the relations. -/
def extractLookupRefs (formula : String) (fields : List (FieldDefinition N)) : List String :=
  (identMatches formula).filter fun name => fields.any fun f => f.type.isLookup && f.name = name

/-- `extractFieldRefs`. -/
def extractFieldRefs (formula : String) (fields : List (FieldDefinition N)) : List String :=
  ((identMatches formula).filter fun name => (fieldByName fields name).any fun f =>
    ! [FieldType.o2m, .m2m, .table, .m2a, .formula].contains f.type).eraseDups

/-- The text of a formula that is not empty. -/
def FieldDefinition.formulaText (f : FieldDefinition N) : Option String := f.formula.filter (· != "")

/-- `visit`: the formulas found so far, after those that a name needs. -/
def visitFormula (fields : List (FieldDefinition N)) : Nat →
    List String × List (FieldDefinition N) → String → List String × List (FieldDefinition N)
  | 0, s, _ => s
  | fuel + 1, (visited, out), name =>
    match fieldByName fields name with
    | some f =>
      match f.formulaText with
      | some formula =>
        if f.type ≠ .formula || visited.contains name then (visited, out)
        else
          let deps := (identMatches formula).filter fun name =>
            (fieldByName fields name).any fun f => f.type = .formula && f.formulaText.isSome
          let (visited, out) := deps.foldl (visitFormula fields fuel) (visited ++ [name], out)
          (visited, out ++ [f])
      | none => (visited, out)
    | none => (visited, out)

/-- `resolveFormulaDependencies`: every formula on a path is another one. -/
def resolveFormulaDependencies (fields : List (FieldDefinition N)) (selected : List String) :
    List (FieldDefinition N) :=
  (selected.foldl (visitFormula fields (fields.length + 1)) ([], [])).2

theorem visitFormula_subset {fields : List (FieldDefinition N)} (fuel : Nat)
    {s : List String × List (FieldDefinition N)} (h : ∀ f ∈ s.2, f ∈ fields) (name : String) :
    ∀ f ∈ (visitFormula fields fuel s name).2, f ∈ fields := by
  induction fuel generalizing s name with
  | zero => exact h
  | succ fuel ih =>
    obtain ⟨visited, out⟩ := s
    simp only [visitFormula]
    split
    · next g hg =>
      split
      · split
        · exact h
        · intro f hf
          obtain hf | hf := List.mem_append.1 hf
          · exact foldl_invariant (b := (visited ++ [name], out))
              (I := fun s : List String × List (FieldDefinition N) => ∀ f ∈ s.2, f ∈ fields) h
              (fun s name _ hs => ih hs name) f hf
          · obtain rfl := List.mem_singleton.1 hf
            exact List.mem_reverse.1 (List.mem_of_find?_eq_some hg)
      · exact h
    · exact h

/-- The formulas that are needed are among the given fields. -/
theorem resolveFormulaDependencies_subset {fields : List (FieldDefinition N)}
    {selected : List String} {f : FieldDefinition N}
    (h : f ∈ resolveFormulaDependencies fields selected) : f ∈ fields :=
  foldl_invariant (I := fun s : List String × List (FieldDefinition N) => ∀ f ∈ s.2, f ∈ fields)
    (fun _ hf => absurd hf List.not_mem_nil) (fun _ name _ hs => visitFormula_subset _ hs name) f h

/-! ## Values -/

/-- `buildLookupScope`. -/
def buildLookupScope (rows : List (Record N)) : Record N :=
  ((rows.flatMap fun row : Record N => row.map (·.1)).eraseDups).foldl (fun scope name =>
    scope.set name (.arr (rows.map fun row => (row.get? name).getD .null)))
    [("__rows", .arr (rows.map .obj))]

variable [JsNumber N]

/-- `roundTo`. -/
def roundTo (value precision : N) (mode : RoundingMode) : N :=
  let int (i : Int) : N := JsNumber.ofInt i
  let half : N := JsNumber.parseFloat "0.5"
  let eps : N := JsNumber.parseFloat "1e-9"
  let factor := JsNumber.math "pow" [int 10, precision]
  let scaled := JsNumber.mul value factor
  match mode with
  | .halfEven =>
    let floor := JsNumber.math "floor" [scaled]
    let diff := JsNumber.sub scaled floor
    if JsNumber.lt (JsNumber.add half eps) diff then
      JsNumber.div (JsNumber.add floor (int 1)) factor
    else if JsNumber.lt diff (JsNumber.sub half eps) then JsNumber.div floor factor
    else if JsNumber.eq (JsNumber.rem floor (int 2)) (int 0) then JsNumber.div floor factor
    else JsNumber.div (JsNumber.add floor (int 1)) factor
  | .up => JsNumber.div (JsNumber.math "ceil" [scaled]) factor
  | .down => JsNumber.div (JsNumber.math "floor" [scaled]) factor
  | .halfUp =>
    let sign := if JsNumber.lt scaled (int 0) then int (-1) else int 1
    let nearest := JsNumber.math "floor"
      [JsNumber.add (JsNumber.add (JsNumber.math "abs" [scaled]) half) eps]
    JsNumber.div (JsNumber.mul nearest sign) factor

/-- `applyFormulaPrecision`. -/
def applyFormulaPrecision (value : JsVal N) (f : FieldDefinition N) : JsVal N :=
  match value, f.precision with
  | .num n, some precision =>
    let p := JsNumber.math "max" [JsNumber.ofInt 0,
      JsNumber.math "min" [JsNumber.ofInt 10, JsNumber.math "trunc" [precision]]]
    if JsNumber.eq p (JsNumber.ofInt 0) then .num (JsNumber.math "trunc" [n])
    else .num (roundTo n p (f.rounding.getD .halfUp))
  | v, _ => v

end

end HeadlessErp
