import HeadlessErp.Query.Scope

/-!
# What the operators of a filter say

The conditions that `applyOperator` adds for a column (`operatorClauses`), and what they say of a row:
what the operator says of the column's value (`operatorClauses_holds`). A relation filter adds the
last of a chain of subqueries (`ChainQuery`).
-/

namespace HeadlessErp

section
variable {N : Type} [JsNumber N]

/-! ## One column -/

/-- The condition of a membership test. -/
def membershipClause (column : String) (op : WhereOp) (empty : String) (vs : List (JsVal N)) :
    WhereClause N :=
  if vs.isEmpty then .raw ⟨[.text empty], []⟩ .and
  else if vs.length > 50 then .raw ⟨jsonEachText column op, [jsonList vs]⟩ .and
  else .single column op (.arr vs) .and

/-- The conditions of an operator. -/
def operatorClauses (column : String) (t : FilterTest N) : List (WhereClause N) :=
  match t.operator with
  | .null => [.single column .isNull (.str "") .and]
  | .nnull => [.single column .isNotNull (.str "") .and]
  | .contains | .icontains => [.single column .like (likePattern "%" t.value "%") .and]
  | .ncontains => [.single column .notLike (likePattern "%" t.value "%") .and]
  | .startswith => [.single column .like (likePattern "" t.value "%") .and]
  | .endswith => [.single column .like (likePattern "%" t.value "") .and]
  | .in => [membershipClause column .in "1 = 0" t.value.items]
  | .nin => [membershipClause column .notIn "1 = 1" t.value.items]
  | .between =>
    [.single column .ge (t.value.item 0) .and, .single column .le (t.value.item 1) .and]
  | .empty => [.single column .eq (.str "") .and]
  | .nempty => [.single column .ne (.str "") .and]
  | op => [.single column op.sql t.value .and]

section
variable {column : String} (hcolumn : isIdentifier column = true)
include hcolumn

/-- `where` with an operator adds a condition. -/
theorem where_eq (q : QueryBuilder N) (op : WhereOp) {v : JsVal N} (hv : v ≠ .undefined) :
    q.where column (.str op.text) v = .ok (q.pushWhere (.single column op v .and)) := by
  have hargs : whereArgs q (.str op.text) v = .ok (op, v) := by
    cases v <;> first | exact absurd rfl hv | simp [whereArgs, bind, Except.bind]
  unfold QueryBuilder.where
  rw [sanitizeColumn_of_isColumnName (isColumnName_of_isIdentifier hcolumn), hargs]
  rfl

/-- `whereIn` adds a membership test. -/
theorem whereIn_eq (q : QueryBuilder N) (vs : List (JsVal N)) :
    q.whereIn column vs = .ok (q.pushWhere (membershipClause column .in "1 = 0" vs)) := by
  unfold QueryBuilder.whereIn membershipClause
  rw [sanitizeColumn_of_isColumnName (isColumnName_of_isIdentifier hcolumn)]
  simp only [bind, Except.bind, pushIn_eq]
  split <;> rfl

/-- `whereNotIn` adds a membership test. -/
theorem whereNotIn_eq (q : QueryBuilder N) (vs : List (JsVal N)) :
    q.whereNotIn column vs = .ok (q.pushWhere (membershipClause column .notIn "1 = 1" vs)) := by
  unfold QueryBuilder.whereNotIn membershipClause
  rw [sanitizeIdentifier_of_isIdentifier hcolumn]
  simp only [bind, Except.bind, pushIn_eq]
  split <;> rfl

omit [JsNumber N] hcolumn in
/-- A text is not absent. -/
theorem JsVal.str_ne_undefined (s : String) : (.str s : JsVal N) ≠ .undefined := fun h => by cases h

/-- An operator adds its conditions. -/
theorem applyOperator_eq (q : QueryBuilder N) (t : FilterTest N) :
    applyOperator q column t = .ok { q with wheres := q.wheres ++ operatorClauses column t } := by
  obtain ⟨op, v, hfits⟩ := t
  have hvalue := FilterOperator.ne_undefined_of_fits hfits
  cases op with
  | between =>
    -- the parser makes a pair of texts
    have hitem := fun i => FilterOperator.item_ne_undefined (i := i) hfits
    show (q.where column (.str WhereOp.ge.text) (v.item 0) >>= fun q =>
      q.where column (.str WhereOp.le.text) (v.item 1)) = _
    rw [where_eq hcolumn q .ge (hitem 0 (by omega))]
    refine (where_eq hcolumn _ .le (hitem 1 (by omega))).trans ?_
    simp [QueryBuilder.pushWhere, operatorClauses]
  | null => exact where_eq hcolumn q .isNull (JsVal.str_ne_undefined _)
  | nnull => exact where_eq hcolumn q .isNotNull (JsVal.str_ne_undefined _)
  | contains => exact where_eq hcolumn q .like (JsVal.str_ne_undefined _)
  | icontains => exact where_eq hcolumn q .like (JsVal.str_ne_undefined _)
  | ncontains => exact where_eq hcolumn q .notLike (JsVal.str_ne_undefined _)
  | startswith => exact where_eq hcolumn q .like (JsVal.str_ne_undefined _)
  | endswith => exact where_eq hcolumn q .like (JsVal.str_ne_undefined _)
  | «in» => exact whereIn_eq hcolumn q v.items
  | nin => exact whereNotIn_eq hcolumn q v.items
  | empty => exact where_eq hcolumn q .eq (JsVal.str_ne_undefined _)
  | nempty => exact where_eq hcolumn q .ne (JsVal.str_ne_undefined _)
  | eq => exact where_eq hcolumn q .eq hvalue
  | neq => exact where_eq hcolumn q .ne hvalue
  | gt => exact where_eq hcolumn q .gt hvalue
  | gte => exact where_eq hcolumn q .ge hvalue
  | lt => exact where_eq hcolumn q .lt hvalue
  | lte => exact where_eq hcolumn q .le hvalue

end

omit [JsNumber N] in
/-- A condition is a group. -/
def WhereClause.isGroup : WhereClause N → Bool
  | .group _ _ => true
  | _ => false

omit [JsNumber N] in
@[simp] theorem WhereClause.isGroup_single (column : String) (op : WhereOp) (v : JsVal N)
    (type : Joiner) : (WhereClause.single column op v type).isGroup = false := rfl

/-- A membership test is no group. -/
@[simp] theorem isGroup_membershipClause (column : String) (op : WhereOp) (empty : String)
    (vs : List (JsVal N)) : (membershipClause column op empty vs).isGroup = false := by
  unfold membershipClause
  split
  · rfl
  · split <;> rfl

/-- No condition of an operator is a group. -/
theorem isGroup_operatorClauses (column : String) (t : FilterTest N) :
    ∀ w ∈ operatorClauses column t, w.isGroup = false := by
  obtain ⟨op, v, hfits⟩ := t
  cases op <;> simp [operatorClauses]

variable {Row : Type} {E : SqlEngine N Row}

omit [JsNumber N] in
/-- The parser makes a list of texts for a membership test. -/
theorem FilterOperator.exists_of_fits {op : FilterOperator} {v : JsVal N} (hop : op = .in ∨ op = .nin)
    (h : op.fits v = true) : ∃ vs, v = .arr vs ∧ vs.all JsVal.isText = true := by
  obtain rfl | rfl := hop <;> cases v <;> first | exact ⟨_, rfl, h⟩ | cases h

omit [JsNumber N] in
/-- The parser makes a pair of texts for a range. -/
theorem FilterOperator.exists_pair_of_fits {v : JsVal N}
    (h : FilterOperator.between.fits v = true) : ∃ low high, v = .arr [low, high] := by
  cases v with
  | arr vs =>
    cases vs with
    | nil => cases h
    | cons low vs =>
      cases vs with
      | nil => cases h
      | cons high vs =>
        cases vs with
        | nil => exact ⟨low, high, rfl⟩
        | cons _ _ => cases h
  | _ => cases h

omit [JsNumber N] in
/-- The parser makes the empty text for a test of emptiness. -/
theorem FilterOperator.eq_of_fits {op : FilterOperator} {v : JsVal N}
    (hop : op = .empty ∨ op = .nempty) (h : op.fits v = true) : v = .str "" := by
  obtain rfl | rfl := hop <;> cases v <;> first | exact congrArg _ (eq_of_beq h) | cases h

/-- What a test says of a row's column. -/
def testHolds (E : SqlEngine N Row) (column : String) (t : FilterTest N) (r : Row) : Bool :=
  (E.condition r column (groupTest t).1 (groupTest t).2).isTrue

omit [JsNumber N] in
/-- Texts are scalars. -/
theorem isScalar_of_isText {vs : List (JsVal N)} (h : vs.all JsVal.isText = true) :
    vs.all JsVal.isScalar = true := by
  refine List.all_eq_true.2 fun v hv => ?_
  have htext := List.all_eq_true.1 h v hv
  cases v <;> first | rfl | cases htext

/-- A membership test says that the column's value is one of these, or none of them. -/
theorem membershipClause_holds (hL : E.Lawful) {column : String}
    (hcolumn : isIdentifier column = true) {op : WhereOp} {vs : List (JsVal N)}
    (hop : op = .in ∨ op = .notIn) (hvs : vs.all JsVal.isScalar = true) (r : Row) :
    E.holds [membershipClause column op (if op = .in then "1 = 0" else "1 = 1") vs] r =
      (E.condition r column op (.arr vs)).isTrue := by
  unfold membershipClause
  split
  · next hempty =>
    obtain rfl := List.isEmpty_iff.1 hempty
    obtain rfl | rfl := hop
    · rw [SqlEngine.holds_raw (by rw [if_pos rfl, hL.raw_false]), if_pos rfl, hL.raw_false]
      rfl
    · rw [SqlEngine.holds_raw (by rw [if_neg nofun, hL.raw_true]), if_neg nofun, hL.raw_true]
      rfl
  · split
    · next hlong =>
      have hraw := hL.raw_jsonEach r column op vs hcolumn hop hlong hvs
      rw [SqlEngine.holds_raw (by rw [hraw]), hraw]
    · exact SqlEngine.holds_singleton (j := .and) rfl

/-- The conditions of an operator say what the operator says. -/
theorem operatorClauses_holds (hL : E.Lawful) {column : String}
    (hcolumn : isIdentifier column = true) (t : FilterTest N) (r : Row) :
    ((operatorClauses column t).all fun w => E.holds [w] r) = testHolds E column t r := by
  have hone (op : WhereOp) (v : JsVal N) :
      (([.single column op v .and] : List (WhereClause N)).all fun w => E.holds [w] r)
        = (E.condition r column op v).isTrue := by
    rw [List.all_cons, List.all_nil, Bool.and_true]
    exact SqlEngine.holds_singleton (j := .and) rfl
  obtain ⟨op, v, hfits⟩ := t
  unfold testHolds
  cases op with
  | between =>
    obtain ⟨low, high, rfl⟩ := FilterOperator.exists_pair_of_fits hfits
    show ([.single column .ge low .and, .single column .le high .and].all
      fun w => E.holds [w] r) = (E.condition r column .between (.arr [low, high])).isTrue
    rw [List.all_cons, SqlEngine.holds_singleton (j := .and) rfl, hone .le high]
    simp [SqlEngine.condition]
  | «in» =>
    obtain ⟨vs, rfl, hvs⟩ := FilterOperator.exists_of_fits (.inl rfl) hfits
    show ([membershipClause column .in "1 = 0" vs].all fun w => E.holds [w] r) = _
    rw [List.all_cons, List.all_nil, Bool.and_true]
    exact membershipClause_holds hL hcolumn (.inl rfl) (isScalar_of_isText hvs) r
  | nin =>
    obtain ⟨vs, rfl, hvs⟩ := FilterOperator.exists_of_fits (.inr rfl) hfits
    show ([membershipClause column .notIn "1 = 1" vs].all fun w => E.holds [w] r) = _
    rw [List.all_cons, List.all_nil, Bool.and_true]
    exact membershipClause_holds hL hcolumn (.inr rfl) (isScalar_of_isText hvs) r
  | null => exact hone .isNull _
  | nnull => exact hone .isNotNull _
  | contains => exact hone .like _
  | icontains => exact hone .like _
  | ncontains => exact hone .notLike _
  | startswith => exact hone .like _
  | endswith => exact hone .like _
  | empty =>
    obtain rfl := FilterOperator.eq_of_fits (.inl rfl) hfits
    exact hone .eq _
  | nempty =>
    obtain rfl := FilterOperator.eq_of_fits (.inr rfl) hfits
    exact hone .ne _
  | eq => exact hone .eq _
  | neq => exact hone .ne _
  | gt => exact hone .gt _
  | gte => exact hone .ge _
  | lt => exact hone .lt _
  | lte => exact hone .le _

/-- What an operator adds. -/
theorem addedBy_applyOperator {column : String} (hcolumn : isIdentifier column = true)
    (t : FilterTest N) :
    addedBy (fun q => applyOperator q column t) = some (operatorClauses column t) := by
  show (applyOperator _ column t).toOption.map (·.wheres) = _
  rw [applyOperator_eq hcolumn]
  rfl

/-- The conditions of an operator restrict. -/
theorem isConjunct_operatorClauses (hE : E.ReadsFragments) {column : String}
    (hcolumn : isIdentifier column = true) (t : FilterTest N) :
    ∀ w ∈ operatorClauses column t, E.IsConjunct w :=
  (restricts_applyOperator hE column t).2 _ (addedBy_applyOperator hcolumn t)

/-! ## A chain of relations -/

omit [JsNumber N] in
/-- What the pattern of a field matches is an identifier. -/
theorem isIdentifier_of_isGroupField {s : String} (h : isGroupField s = true) :
    isIdentifier s = true := by
  unfold isGroupField at h
  unfold isIdentifier
  cases hcs : s.toList with
  | nil =>
    rw [hcs] at h
    cases h
  | cons c cs =>
    rw [hcs] at h
    simp only [Bool.and_eq_true] at h ⊢
    refine ⟨?_, h.2⟩
    have halpha : (c.isUpper || c.isLower) = true := h.1
    rw [Bool.or_eq_true] at halpha
    unfold isSqlIdentStart
    rw [Bool.or_eq_true, Bool.or_eq_true]
    obtain hupper | hlower := halpha
    · have hbounds : 'A' ≤ c ∧ c ≤ 'Z' := of_decide_eq_true hupper
      exact .inl (.inr (by simp [hbounds]))
    · exact .inl (.inl hlower)

/-- A query of the ids of the rows of a table that a chain of relations leads to a row that passes a
test. -/
inductive ChainQuery (E : SqlEngine N Row) (leaf : Hop) (t : FilterTest N) :
    List Hop → QueryBuilder N → Prop
  | leaf {q : QueryBuilder N} (table : q.table = leaf.table) (columns : q.columns = ["id"])
      (means : ∀ r, E.holds q.wheres r = testHolds E leaf.field t r) : ChainQuery E leaf t [] q
  | hop {hop : Hop} {hops : List Hop} {sub q : QueryBuilder N} {query : SqlStatement N}
      (rest : ChainQuery E leaf t hops sub) (rendered : sub.toSelect = .ok query)
      (table : q.table = hop.table) (columns : q.columns = ["id"])
      (means : ∀ r, E.holds q.wheres r = (E.inQuery r hop.field query).isTrue) :
      ChainQuery E leaf t (hop :: hops) q

/-- The condition of a relation filter: the relations and the column are those of its path. -/
inductive RelationClause (E : SqlEngine N Row) (collections : List (SchemaEntry N))
    (fields : List (FieldDefinition N)) (table : String) (nf : NestedFilterClause N) :
    WhereClause N → Prop
  | intro {first leaf : Hop} {rest : List Hop} {sub : QueryBuilder N} {query : SqlStatement N}
      (resolved : resolvePath collections fields table nf.path = some (first, rest, leaf))
      (path : (first :: rest).map Hop.field ++ [leaf.field] = nf.path)
      (chain : ChainQuery E leaf nf.toFilterTest rest sub) (rendered : sub.toSelect = .ok query) :
      RelationClause E collections fields table nf (.inQuery first.field false query .and)

omit [JsNumber N] in
/-- The relations of a path are the hops it resolves to. -/
theorem fields_of_resolveHops {collections : List (SchemaEntry N)} {path : List String}
    {fields leafFields : List (FieldDefinition N)} {table leafTable : String} {hops : List Hop}
    (h : resolveHops collections path fields table = some (hops, leafFields, leafTable)) :
    hops.map Hop.field = path := by
  induction path generalizing fields table hops with
  | nil =>
    cases h
    rfl
  | cons name path ih =>
    unfold resolveHops at h
    simp only [Option.bind_eq_bind, Option.bind_eq_some_iff] at h
    obtain ⟨hop, -, slug, -, h⟩ := h
    split at h
    · cases h
    · simp only [Option.bind_eq_some_iff] at h
      obtain ⟨next, -, ⟨hops', leaf⟩, hrest, h⟩ := h
      cases h
      exact congrArg (name :: ·) (ih hrest)

omit [JsNumber N] in
/-- A path is the relations and the column it resolves to. -/
theorem path_of_resolvePath {collections : List (SchemaEntry N)}
    {fields : List (FieldDefinition N)} {table : String} {path : List String} {first leaf : Hop}
    {rest : List Hop} (h : resolvePath collections fields table path = some (first, rest, leaf)) :
    (first :: rest).map Hop.field ++ [leaf.field] = path := by
  unfold resolvePath at h
  simp only [Option.bind_eq_bind, Option.bind_eq_some_iff] at h
  obtain ⟨last, hlast, ⟨hops, leafFields, leafTable⟩, hhops, h⟩ := h
  obtain ⟨relations, rfl⟩ := List.getLast?_eq_some_iff.1 hlast
  rw [List.dropLast_concat] at hhops
  cases hops with
  | nil => cases h
  | cons hop hops =>
    simp only at h
    split at h
    · cases h
      rw [fields_of_resolveHops hhops]
    · cases h

omit [JsNumber N] in
/-- A subquery begins as the ids of its table. -/
theorem idQueryOf_eq_ok {table : String} {q : QueryBuilder N} (h : idQueryOf table = .ok q) :
    q = { table, columns := ["id"] } := by
  obtain ⟨q₀, hq₀, h⟩ := exists_of_bind_eq_ok h
  unfold QueryBuilder.from sanitizeIdentifier at hq₀
  split at hq₀
  · cases hq₀
    have hid : ["id"].mapM (sanitizeColumn · "QueryBuilder.select" true) = .ok ["id"] := by
      rfl
    unfold QueryBuilder.select at h
    rw [hid] at h
    exact (Except.ok.inj h).symm
  · cases hq₀

/-- The subqueries of a relation filter are a chain. -/
theorem chainQuery_of_foldrM {leaf : Hop} {t : FilterTest N} {hops : List Hop}
    {sub sub' : QueryBuilder N} (hfields : ∀ hop ∈ hops, isIdentifier hop.field = true)
    (hsub : ChainQuery E leaf t [] sub)
    (h : hops.foldrM (fun hop sub => do
      let wrap ← idQueryOf hop.table
      wrap.whereInSubquery hop.field false sub) sub = .ok sub') : ChainQuery E leaf t hops sub' := by
  induction hops generalizing sub' with
  | nil =>
    cases h
    exact hsub
  | cons hop hops ih =>
    rw [List.foldrM_cons] at h
    obtain ⟨inner, hinner, h⟩ := exists_of_bind_eq_ok h
    obtain ⟨wrap, hwrap, h⟩ := exists_of_bind_eq_ok h
    obtain rfl := idQueryOf_eq_ok hwrap
    obtain ⟨query, hquery, h⟩ := exists_of_bind_eq_ok h
    obtain ⟨hhop, hhops⟩ := List.forall_mem_cons.1 hfields
    rw [sanitizeIdentifier_of_isIdentifier hhop] at h
    cases h
    exact .hop (ih hhops hinner) hquery rfl rfl fun r => SqlEngine.holds_singleton (j := .and) rfl

/-- A relation filter adds its condition. -/
theorem applyNestedFilter_eq_ok (hE : E.ReadsFragments) (hL : E.Lawful)
    {collections : List (SchemaEntry N)} {fields : List (FieldDefinition N)} {table : String}
    {q q' : QueryBuilder N} {nf : NestedFilterClause N} (hpath : nf.path.all isGroupField = true)
    (h : applyNestedFilter collections fields table q nf = .ok q') :
    ∃ w, RelationClause E collections fields table nf w ∧ q' = q.pushWhere w := by
  unfold applyNestedFilter at h
  split at h
  · cases h
  · next first rest leaf hresolved =>
    have hnames := path_of_resolvePath hresolved
    have hid : ∀ name ∈ (first :: rest).map Hop.field ++ [leaf.field],
        isIdentifier name = true := by
      rw [hnames]
      exact fun name hname => isIdentifier_of_isGroupField (List.all_eq_true.1 hpath name hname)
    rw [List.forall_mem_append, List.forall_mem_singleton, List.forall_mem_map,
      List.forall_mem_cons] at hid
    obtain ⟨⟨hfirst, hrest⟩, hleaf⟩ := hid
    obtain ⟨sub₀, hsub₀, h⟩ := exists_of_bind_eq_ok h
    obtain rfl := idQueryOf_eq_ok hsub₀
    obtain ⟨sub₁, hsub₁, h⟩ := exists_of_bind_eq_ok h
    rw [applyOperator_eq hleaf] at hsub₁
    obtain ⟨sub, hsub, h⟩ := exists_of_bind_eq_ok h
    obtain ⟨query, hquery, h⟩ := exists_of_bind_eq_ok h
    rw [sanitizeIdentifier_of_isIdentifier hfirst] at h
    cases h
    refine ⟨_, .intro hresolved hnames ?_ hquery, rfl⟩
    refine chainQuery_of_foldrM hrest ?_ hsub
    cases hsub₁
    refine .leaf rfl rfl fun r => ?_
    rw [List.nil_append, SqlEngine.holds_conjuncts (isConjunct_operatorClauses hE hleaf _)]
    exact operatorClauses_holds hL hleaf nf.toFilterTest r

end

end HeadlessErp
