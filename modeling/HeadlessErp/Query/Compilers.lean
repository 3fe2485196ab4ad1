import Mathlib.Algebra.GroupWithZero.Nat
import Mathlib.Data.List.Forall2
import HeadlessErp.Query.Operators

/-!
# The three compilers of a filter

A filter on a column reaches a query in three ways: as a flat filter (`applyToQueryBuilder`), in a
filter group (`listItems`), and at the end of a chain of relations (`applyNestedQueries`). Each has a
`switch` over the operators of its own. They say the same of a row (`operatorClauses_holds`), but a
group binds every element of a list where the other two bind a long list as one JSON value, and D1
refuses a statement with more than `maxBoundValues` of them.
-/

namespace HeadlessErp

section
variable {N : Type} [JsNumber N] {Row : Type}

/-! ## The code -/

/-- A table's rows under a flat filter. -/
def flatQuery (names : List String) (table column : String) (t : FilterTest N) :
    Except String (QueryBuilder N) := do
  let q ← QueryBuilder.from table
  applyFilter names q { toFilterTest := t, field := column }

/-- A table's rows under a group of one condition. -/
def groupQuery (names : List String) (table column : String) (t : FilterTest N) :
    Except String (QueryBuilder N) := do
  let q ← QueryBuilder.from table
  applyGroup names q { type := .and, conditions := [{ toFilterTest := t, field := column }] }

/-- A related table's rows under a relation filter. -/
def nestedQuery (table column : String) (t : FilterTest N) : Except String (QueryBuilder N) := do
  let q ← idQueryOf table
  applyOperator q column t

/-- The most values D1 binds in one statement. -/
def maxBoundValues : Nat := 100

/-- What a query selects on D1, in a statement whose other parts bind `others` values. -/
def SqlEngine.selectBounded (E : SqlEngine N Row) (others : Nat) (q : QueryBuilder N)
    (rows : List Row) : Except String (List Row) := do
  let s ← q.toSelect
  if others + s.bindings.length > maxBoundValues then throw "too many SQL variables"
  else E.select q rows

/-- The three ways select the same rows, of every table. -/
def CompilersAgree (others : Nat) (t : FilterTest N) : Prop :=
  ∀ (Row : Type) (E : SqlEngine N Row), E.Lawful → ∀ (names : List String) (table column : String)
    (rows : List Row), isIdentifier table = true → isIdentifier column = true →
    names.contains column = true →
    let flat := flatQuery names table column t >>= fun q => E.selectBounded others q rows
    (groupQuery names table column t >>= fun q => E.selectBounded others q rows) = flat ∧
      (nestedQuery table column t >>= fun q => E.selectBounded others q rows) = flat

/-- A membership test. -/
def FilterOperator.isMembership (op : FilterOperator) : Bool := op = .in || op = .nin

/-! ## What a condition binds -/

/-- A clause renders, with `n` values that can be bound. -/
def Renders (E : SqlEngine N Row) (w : WhereClause N) (n : Nat) : Prop :=
  ∀ idx, ∃ r, buildClause w idx = .ok r ∧ r.bindings.length = n ∧ r.bindings.all E.bindable = true

/-- The number of values that a condition on a column binds. -/
def boundValues (op : WhereOp) (v : JsVal N) : Nat :=
  match op with
  | .in | .notIn => v.items.length
  | .isNull | .isNotNull => 0
  | .between => 2
  | _ => 1

variable {E : SqlEngine N Row} {ws : List (WhereClause N)} {ns : List Nat}

omit [JsNumber N] in
/-- Clauses that render do so together. -/
theorem renderAll_of_renders (h : List.Forall₂ (Renders E) ws ns) (idx : Nat) :
    ∃ ts bs next, renderAll buildClause ws idx = .ok (ts, bs, next) ∧ bs.length = ns.sum := by
  induction h generalizing idx with
  | nil => exact ⟨[], [], idx, rfl, rfl⟩
  | @cons w n ws ns hw _ ih =>
    obtain ⟨r, hr, hlen, -⟩ := hw idx
    obtain ⟨ts, bs, next, hts, hbs⟩ := ih r.nextIdx
    refine ⟨r.sql :: ts, r.bindings ++ bs, next, ?_, ?_⟩
    · rw [renderAll, hr]
      simp only [bind, Except.bind, hts]
    · rw [List.length_append, List.sum_cons, hlen, hbs]

omit [JsNumber N] in
/-- Clauses that render raise no error. -/
theorem check_of_renders (h : List.Forall₂ (Renders E) ws ns) : E.check ws = .ok () := by
  induction h with
  | nil => rfl
  | @cons w n ws ns hw _ ih =>
    obtain ⟨r, hr, -, hbind⟩ := hw 1
    rw [SqlEngine.check, SqlEngine.checkClause, hr]
    simp only [bind, Except.bind, hbind, if_true, pure, Except.pure]
    exact ih

omit [JsNumber N] in
/-- What a query of nothing but conditions selects. -/
theorem select_of_renders (h : List.Forall₂ (Renders E) ws ns) (table : String)
    (columns : List String) (rows : List Row) :
    E.select { table, columns, wheres := ws } rows = .ok (rows.filter (E.holds ws)) := by
  unfold SqlEngine.select
  rw [check_of_renders h]
  rfl

/-- What such a query selects on D1. -/
theorem selectBounded_of_renders (h : List.Forall₂ (Renders E) ws ns) (hne : ws ≠ [])
    (others : Nat) (table : String) (columns : List String) (rows : List Row) :
    E.selectBounded others { table, columns, wheres := ws } rows =
      if others + ns.sum > maxBoundValues then .error "too many SQL variables"
      else .ok (rows.filter (E.holds ws)) := by
  obtain ⟨ts, bs, next, hts, hbs⟩ := renderAll_of_renders h 1
  have hwhere : ∃ sql, buildWhere ws 1 = .ok ⟨sql, bs, next⟩ := by
    unfold buildWhere
    rw [hts]
    cases ws with
    | nil => exact absurd rfl hne
    | cons w ws => exact ⟨_, rfl⟩
  obtain ⟨sql, hsql⟩ := hwhere
  have hselect : ∃ s, QueryBuilder.toSelect { table, columns, wheres := ws } = .ok s ∧
      s.bindings = bs := by
    unfold QueryBuilder.toSelect
    simp only [renderCTE, renderAll, buildJoins, selectIdx, List.isEmpty_nil, if_true, bind,
      Except.bind, List.flatMap_nil, hsql]
    exact ⟨_, rfl, by simp [QueryBuilder.window?]⟩
  obtain ⟨s, hs, hbindings⟩ := hselect
  unfold SqlEngine.selectBounded
  rw [hs]
  simp only [bind, Except.bind, hbindings, hbs]
  split
  · rfl
  · exact select_of_renders h table columns rows

/-- A condition whose value suits its operator renders. -/
theorem renders_single (hE : E.Lawful) {column : String} (hcolumn : isIdentifier column = true)
    {op : WhereOp} {v : JsVal N} (hs : suits op v = true) :
    Renders E (.single column op v .and) (boundValues op v) := by
  intro idx
  obtain ⟨r, hr, hbind⟩ := buildCondition_of_suits (d := ⟨column, op, v⟩) hE
    (isWhereColumn_of_isIdentifier hcolumn) hs idx
  refine ⟨r, hr, ?_, hbind⟩
  unfold buildCondition at hr
  rw [isWhereColumn_of_isIdentifier hcolumn] at hr
  simp only [Bool.not_true, Bool.false_eq_true, if_false] at hr
  cases op with
  | «in» | notIn =>
    cases v with
    | arr vs =>
      cases hr
      rfl
    | _ => cases hr
  | isNull | isNotNull =>
    cases hr
    rfl
  | between =>
    obtain ⟨low, -, hr⟩ := exists_of_bind_eq_ok hr
    obtain ⟨high, -, hr⟩ := exists_of_bind_eq_ok hr
    cases hr
    rfl
  | _ =>
    cases hr
    rfl

/-- A group of one condition binds what the condition does. -/
theorem renders_group (hE : E.Lawful) {column : String} (hcolumn : isIdentifier column = true)
    {op : WhereOp} {v : JsVal N} (hs : suits op v = true) :
    Renders E (.group [⟨column, op, v, .and⟩] .and) (boundValues op v) := by
  intro idx
  obtain ⟨r, hr, hlen, hbind⟩ := renders_single hE hcolumn hs idx
  have hcondition : buildCondition column op v idx = .ok r := hr
  have hgroup : ∃ sql, buildClause (.group [⟨column, op, v, .and⟩] .and) idx =
      .ok ⟨sql, r.bindings ++ [], r.nextIdx⟩ := by
    unfold buildClause buildGroup
    simp only [renderAll, hcondition, bind, Except.bind]
    exact ⟨_, rfl⟩
  obtain ⟨sql, hsql⟩ := hgroup
  exact ⟨_, hsql, by rw [List.append_nil, hlen], by rw [List.append_nil, hbind]⟩

/-- The values a membership test binds as a flat filter. -/
def membershipValues (n : Nat) : Nat := if n > 50 then 1 else n

/-- A membership test renders. -/
theorem renders_membershipClause (hE : E.Lawful) {column : String}
    (hcolumn : isIdentifier column = true) {op : WhereOp} (hop : op = .in ∨ op = .notIn)
    (empty : String) {vs : List (JsVal N)} (hvs : vs.all JsVal.isScalar = true) :
    Renders E (membershipClause column op empty vs) (membershipValues vs.length) := by
  have hsuits : suits op (.arr vs) = true := by
    obtain rfl | rfl := hop <;> exact hvs
  unfold membershipClause membershipValues
  split
  · next hempty =>
    obtain rfl := List.isEmpty_iff.1 hempty
    exact fun idx => ⟨_, rfl, rfl, rfl⟩
  · split
    · intro idx
      refine ⟨_, rfl, rfl, ?_⟩
      have hone : E.bindable (jsonList vs) = true := hE.bindable_scalar _ rfl
      simp [buildRaw, hone]
    · have hsingle := renders_single hE hcolumn hsuits
      obtain rfl | rfl := hop <;> exact hsingle

/-- The values that an operator's conditions bind. -/
def operatorValues (t : FilterTest N) : List Nat :=
  match t.operator with
  | .in | .nin => [membershipValues t.value.items.length]
  | .between => [1, 1]
  | .null | .nnull => [0]
  | _ => [1]

/-- The conditions of an operator render. -/
theorem renders_operatorClauses (hE : E.Lawful) {column : String}
    (hcolumn : isIdentifier column = true) (t : FilterTest N) :
    List.Forall₂ (Renders E) (operatorClauses column t) (operatorValues t) := by
  have hone (op : WhereOp) (v : JsVal N) (hs : suits op v = true) :
      List.Forall₂ (Renders E) [.single column op v .and] [boundValues op v] :=
    .cons (renders_single hE hcolumn hs) .nil
  obtain ⟨op, v, hfits⟩ := t
  cases op with
  | between =>
    cases v with
    | arr vs =>
      obtain ⟨low, high, hpair⟩ := FilterOperator.exists_pair_of_fits hfits
      cases hpair
      obtain ⟨hlow, hhigh⟩ := Bool.and_eq_true_iff.1 hfits
      have hscalar {v : JsVal N} (h : v.isText = true) : v.isScalar = true := by
        cases v <;> first | rfl | cases h
      have hge : suits .ge low = true := hscalar hlow
      have hle : suits .le high = true := hscalar hhigh
      exact .cons (renders_single hE hcolumn hge) (.cons (renders_single hE hcolumn hle) .nil)
    | _ => cases hfits
  | «in» =>
    obtain ⟨vs, rfl, hvs⟩ := FilterOperator.exists_of_fits (.inl rfl) hfits
    exact .cons (renders_membershipClause hE hcolumn (.inl rfl) "1 = 0" (isScalar_of_isText hvs)) .nil
  | nin =>
    obtain ⟨vs, rfl, hvs⟩ := FilterOperator.exists_of_fits (.inr rfl) hfits
    exact .cons (renders_membershipClause hE hcolumn (.inr rfl) "1 = 1" (isScalar_of_isText hvs)) .nil
  | null => exact hone .isNull (.str "") rfl
  | nnull => exact hone .isNotNull (.str "") rfl
  | contains | icontains => exact hone .like (likePattern "%" v "%") rfl
  | ncontains => exact hone .notLike (likePattern "%" v "%") rfl
  | startswith => exact hone .like (likePattern "" v "%") rfl
  | endswith => exact hone .like (likePattern "%" v "") rfl
  | empty => exact hone .eq (.str "") rfl
  | nempty => exact hone .ne (.str "") rfl
  | eq | neq | gt | gte | lt | lte =>
    cases v with
    | str s => first
      | exact hone .eq (.str s) rfl
      | exact hone .ne (.str s) rfl
      | exact hone .gt (.str s) rfl
      | exact hone .ge (.str s) rfl
      | exact hone .lt (.str s) rfl
      | exact hone .le (.str s) rfl
    | _ => cases hfits

/-! ## The three queries -/

/-- The value of a clause in a group suits its operator. -/
theorem suits_groupTest (t : FilterTest N) : suits (groupTest t).1 (groupTest t).2 = true := by
  obtain ⟨op, v, hfits⟩ := t
  cases op with
  | between =>
    obtain ⟨low, high, rfl⟩ := FilterOperator.exists_pair_of_fits hfits
    obtain ⟨hlow, hhigh⟩ := Bool.and_eq_true_iff.1 hfits
    have hscalar {v : JsVal N} (h : v.isText = true) : v.isScalar = true := by
      cases v <;> first | rfl | cases h
    exact Bool.and_eq_true_iff.2 ⟨hscalar hlow, hscalar hhigh⟩
  | «in» =>
    obtain ⟨vs, rfl, hvs⟩ := FilterOperator.exists_of_fits (.inl rfl) hfits
    exact isScalar_of_isText hvs
  | nin =>
    obtain ⟨vs, rfl, hvs⟩ := FilterOperator.exists_of_fits (.inr rfl) hfits
    exact isScalar_of_isText hvs
  | null | nnull => rfl
  | contains | icontains | ncontains | startswith | endswith => rfl
  | empty | nempty | eq | neq | gt | gte | lt | lte =>
    cases v with
    | str s => rfl
    | _ => cases hfits

/-- The values that a group of one condition binds. -/
def groupValues (t : FilterTest N) : Nat := boundValues (groupTest t).1 (groupTest t).2

/-- A group binds what the flat filter does, but for a long list. -/
theorem sum_operatorValues (t : FilterTest N) :
    (operatorValues t).sum =
      if t.operator.isMembership = true ∧ 50 < t.value.items.length then 1 else groupValues t := by
  obtain ⟨op, v, hfits⟩ := t
  cases op with
  | «in» | nin => simp [operatorValues, membershipValues, groupValues, groupTest, boundValues,
      FilterOperator.isMembership, FilterOperator.sql]
  | _ => rfl

section
variable {column : String} (hcolumn : isIdentifier column = true) {table : String}
  (htable : isIdentifier table = true)
include hcolumn

/-- The conditions of an operator are conjuncts. -/
theorem isConjunct_of_lawful (hE : E.Lawful) (t : FilterTest N) :
    ∀ w ∈ operatorClauses column t, E.IsConjunct w := by
  have hmembership {op : WhereOp} (hop : op = .in ∨ op = .notIn) {vs : List (JsVal N)}
      (hvs : vs.all JsVal.isText = true) :
      E.IsConjunct (membershipClause column op (if op = .in then "1 = 0" else "1 = 1") vs) := by
    intro r
    unfold membershipClause
    split
    · obtain rfl | rfl := hop
      · exact ⟨.false, by simp [SqlEngine.clauseChain, hE.raw_false]⟩
      · exact ⟨.true, by simp [SqlEngine.clauseChain, hE.raw_true]⟩
    · split
      · next hlong =>
        have hraw := hE.raw_jsonEach r column op vs hcolumn hop hlong (isScalar_of_isText hvs)
        exact ⟨_, by rw [SqlEngine.clauseChain, hraw]⟩
      · exact ⟨_, rfl⟩
  have hone {op : WhereOp} {v : JsVal N} :
      ∀ w ∈ ([.single column op v .and] : List (WhereClause N)), E.IsConjunct w := by
    intro w hw
    rw [List.mem_singleton.1 hw]
    exact SqlEngine.isConjunct_single column op v
  obtain ⟨op, v, hfits⟩ := t
  cases op with
  | between =>
    intro w hw
    obtain rfl | hw := List.mem_cons.1 hw
    · exact SqlEngine.isConjunct_single column .ge _
    · rw [List.mem_singleton.1 hw]
      exact SqlEngine.isConjunct_single column .le _
  | «in» =>
    obtain ⟨vs, rfl, hvs⟩ := FilterOperator.exists_of_fits (.inl rfl) hfits
    intro w hw
    rw [List.mem_singleton.1 hw]
    exact hmembership (.inl rfl) hvs
  | nin =>
    obtain ⟨vs, rfl, hvs⟩ := FilterOperator.exists_of_fits (.inr rfl) hfits
    intro w hw
    rw [List.mem_singleton.1 hw]
    exact hmembership (.inr rfl) hvs
  | _ => exact hone

/-- A row satisfies the conditions of an operator if it passes its test. -/
theorem holds_operatorClauses (hE : E.Lawful) (t : FilterTest N) :
    E.holds (operatorClauses column t) = testHolds E column t := by
  funext r
  rw [SqlEngine.holds_conjuncts (isConjunct_of_lawful hcolumn hE t)]
  exact operatorClauses_holds hE hcolumn t r

omit hcolumn in
/-- A row satisfies a group of one condition if it passes its test. -/
theorem holds_group (t : FilterTest N) :
    E.holds [.group [⟨column, (groupTest t).1, (groupTest t).2, .and⟩] .and] =
      testHolds E column t := by
  funext r
  rw [SqlEngine.holds_singleton (j := .and) rfl]
  simp [Alternatives.ofChain, Alternatives.value, testHolds]

/-- The conditions of an operator select the rows that pass its test. -/
theorem selectBounded_operatorClauses (hE : E.Lawful) (t : FilterTest N) (others : Nat)
    (columns : List String) (rows : List Row) :
    E.selectBounded others { table, columns, wheres := operatorClauses column t } rows =
      if others + (operatorValues t).sum > maxBoundValues then .error "too many SQL variables"
      else .ok (rows.filter (testHolds E column t)) := by
  have hne : operatorClauses column t ≠ [] := by
    obtain ⟨op, v, hfits⟩ := t
    cases op <;> exact List.cons_ne_nil _ _
  rw [selectBounded_of_renders (renders_operatorClauses hE hcolumn t) hne,
    holds_operatorClauses hcolumn hE t]

/-- A group of one condition selects the rows that pass its test. -/
theorem selectBounded_group (hE : E.Lawful) (t : FilterTest N) (others : Nat) (rows : List Row) :
    E.selectBounded others { table := table, wheres :=
        [.group [⟨column, (groupTest t).1, (groupTest t).2, .and⟩] .and] } rows =
      if others + groupValues t > maxBoundValues then .error "too many SQL variables"
      else .ok (rows.filter (testHolds E column t)) := by
  have hgroup := renders_group (E := E) hE hcolumn (suits_groupTest t)
  rw [selectBounded_of_renders (.cons hgroup .nil) (List.cons_ne_nil _ _), List.sum_singleton,
    holds_group t]
  rfl

include htable

theorem flatQuery_eq {names : List String} (hnames : names.contains column = true)
    (t : FilterTest N) : flatQuery names table column t =
      .ok { table, wheres := operatorClauses column t } := by
  unfold flatQuery QueryBuilder.from applyFilter
  rw [sanitizeIdentifier_of_isIdentifier htable]
  simp only [bind, Except.bind, hnames, if_true, applyOperator_eq hcolumn, List.nil_append]

theorem nestedQuery_eq (t : FilterTest N) : nestedQuery table column t =
    .ok { table, columns := ["id"], wheres := operatorClauses column t } := by
  have hid : sanitizeColumn "id" "QueryBuilder.select" true = .ok "id" := by decide
  unfold nestedQuery idQueryOf QueryBuilder.from QueryBuilder.select
  rw [sanitizeIdentifier_of_isIdentifier htable]
  simp only [bind, Except.bind, List.mapM_cons, List.mapM_nil, hid, pure, Except.pure,
    applyOperator_eq hcolumn, List.nil_append]

omit hcolumn in
theorem groupQuery_eq {names : List String} (hnames : names.contains column = true)
    (t : FilterTest N) : groupQuery names table column t =
      .ok { table := table, wheres := [.group [⟨column, (groupTest t).1, (groupTest t).2, .and⟩] .and] } := by
  unfold groupQuery QueryBuilder.from applyGroup groupCondition QueryBuilder.whereGroup groupClause
  rw [sanitizeIdentifier_of_isIdentifier htable]
  simp only [bind, Except.bind, List.mapM_cons, List.mapM_nil, hnames, if_true, pure, Except.pure,
    List.isEmpty_cons, Bool.false_eq_true, if_false, validateOp_text, Option.getD_some]
  rfl

end

/-- The three ways agree, but for a list that is too long for a group only. -/
theorem compilersAgree_iff (others : Nat) (t : FilterTest N) :
    CompilersAgree others t ↔
      ¬ (t.operator.isMembership = true ∧ 50 < t.value.items.length ∧ others < maxBoundValues ∧
        maxBoundValues < others + t.value.items.length) := by
  have hsum := sum_operatorValues t
  have hvalues : t.operator.isMembership = true → groupValues t = t.value.items.length := by
    obtain ⟨op, v, hfits⟩ := t
    cases op <;> intro hop <;> first | rfl | cases hop
  constructor
  · rintro hagree ⟨hop, hlong, hothers, hmany⟩
    rw [if_pos ⟨hop, hlong⟩] at hsum
    have htable : isIdentifier "t" = true := by decide
    have hcolumn : isIdentifier "c" = true := by decide
    have hnames : ["c"].contains "c" = true := by decide
    have hgroup := (hagree Unit (nullTable N) (nullTable_lawful N) ["c"] "t" "c" [] htable hcolumn
      hnames).1
    rw [groupQuery_eq htable hnames, flatQuery_eq hcolumn htable hnames] at hgroup
    simp only [bind, Except.bind, selectBounded_group hcolumn (nullTable_lawful N),
      selectBounded_operatorClauses hcolumn (nullTable_lawful N), hsum, hvalues hop] at hgroup
    rw [if_pos hmany, if_neg (by omega)] at hgroup
    cases hgroup
  · intro hcondition Row E hE names table column rows htable hcolumn hnames
    dsimp only
    rw [groupQuery_eq htable hnames, flatQuery_eq hcolumn htable hnames,
      nestedQuery_eq hcolumn htable]
    simp only [bind, Except.bind, selectBounded_group hcolumn hE,
      selectBounded_operatorClauses hcolumn hE, and_true]
    have hbound : others + groupValues t > maxBoundValues ↔
        others + (operatorValues t).sum > maxBoundValues := by
      rw [hsum]
      split
      · next hlong =>
        rw [hvalues hlong.1]
        have hfits : ¬ (others < maxBoundValues ∧ maxBoundValues < others + t.value.items.length) :=
          fun h => hcondition ⟨hlong.1, hlong.2, h⟩
        omega
      · exact Iff.rfl
    simp only [hbound]

/-- A list of 101 values in a group is refused; as a flat filter it is not. -/
theorem not_compilersAgree_long :
    ¬ CompilersAgree 0 (⟨.in, .arr (List.replicate 101 (.str "a")), by decide⟩ :
      FilterTest (Option Int)) := by
  intro hagree
  have htable : isIdentifier "t" = true := by decide
  have hcolumn : isIdentifier "c" = true := by decide
  have hnames : ["c"].contains "c" = true := by decide
  have hgroup := (hagree Unit (nullTable _) (nullTable_lawful _) ["c"] "t" "c" [] htable hcolumn
    hnames).1
  rw [groupQuery_eq htable hnames, flatQuery_eq hcolumn htable hnames] at hgroup
  simp only [bind, Except.bind, selectBounded_group hcolumn (nullTable_lawful _),
    selectBounded_operatorClauses hcolumn (nullTable_lawful _)] at hgroup
  rw [if_pos (by decide), if_neg (by decide)] at hgroup
  cases hgroup

end

end HeadlessErp
