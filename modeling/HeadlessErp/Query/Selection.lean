import HeadlessErp.Query.Builder

/-!
# What a query selects

The meaning of a builder's conditions on the rows of its tables. The database is a parameter
(`SqlEngine`): how a stored value compares with a bound one, what raw text and embedded queries say
of a row, and which values can be bound. The conditions of a query are one chain without
parentheses (`Alternatives`): a group is a single condition, raw text is spliced in as it stands.
-/

namespace HeadlessErp

/-! ## The database -/

/-- What the engine relies on the database for. `cmp` compares a row's column with a bound value
and is `none` where either is `NULL`; raw text may hold several conditions joined without
parentheses. -/
structure SqlEngine (N Row : Type) where
  isNull : Row → String → Bool
  cmp : Row → String → JsVal N → Option Ordering
  like : Row → String → JsVal N → Tri
  raw : Row → SqlStatement N → Tri × List (Joiner × Tri)
  inQuery : Row → String → SqlStatement N → Tri
  existsQuery : Row → SqlStatement N → Tri
  bindable : JsVal N → Bool

/-- A value that is neither a list nor an object. -/
def JsVal.isScalar {N : Type} : JsVal N → Bool
  | .null | .bool _ | .num _ | .str _ => true
  | _ => false

section
variable {N Row : Type}

/-- The comparison of a column with a value, as a condition. -/
def SqlEngine.compare (E : SqlEngine N Row) (r : Row) (column : String) (p : Ordering → Bool)
    (v : JsVal N) : Tri :=
  match E.cmp r column v with
  | some o => .ofBool (p o)
  | none => .unknown

/-- `column op value` on a row. Membership is a disjunction of equalities. -/
def SqlEngine.condition (E : SqlEngine N Row) (r : Row) (column : String) (op : WhereOp)
    (value : JsVal N) : Tri :=
  match op, value with
  | .eq, v => E.compare r column (· == .eq) v
  | .ne, v => E.compare r column (· != .eq) v
  | .gt, v => E.compare r column (· == .gt) v
  | .lt, v => E.compare r column (· == .lt) v
  | .ge, v => E.compare r column (· != .lt) v
  | .le, v => E.compare r column (· != .gt) v
  | .like, v => E.like r column v
  | .notLike, v => (E.like r column v).not
  | .in, .arr vs => .any (vs.map (E.compare r column (· == .eq)))
  | .notIn, .arr vs => (Tri.any (vs.map (E.compare r column (· == .eq)))).not
  | .isNull, _ => .ofBool (E.isNull r column)
  | .isNotNull, _ => .ofBool (!E.isNull r column)
  | .between, .arr (low :: high :: _) =>
    (E.compare r column (· != .lt) low).and (E.compare r column (· != .gt) high)
  | _, _ => .unknown

/-- The texts the builder itself writes mean what they say. -/
structure SqlEngine.Lawful [JsNumber N] (E : SqlEngine N Row) : Prop where
  raw_false : ∀ r, E.raw r ⟨[.text "1 = 0"], []⟩ = (.false, [])
  raw_true : ∀ r, E.raw r ⟨[.text "1 = 1"], []⟩ = (.true, [])
  raw_jsonEach : ∀ r column op vs, isIdentifier column = true → (op = .in ∨ op = .notIn) →
    50 < vs.length → vs.all JsVal.isScalar = true →
    E.raw r ⟨jsonEachText column op, [jsonList vs]⟩ = (E.condition r column op (.arr vs), [])
  bindable_scalar : ∀ v, v.isScalar = true → E.bindable v = true

/-! ## Selection -/

/-- The conditions a clause adds to the chain. -/
def SqlEngine.clauseChain (E : SqlEngine N Row) (r : Row) : WhereClause N → List (Joiner × Tri)
  | .single column op value type => [(type, E.condition r column op value)]
  | .group clauses type =>
    [(type, (Alternatives.ofChain
      (clauses.map fun g => (g.type, E.condition r g.column g.op g.value))).value)]
  | .inQuery column negated query type =>
    let t := E.inQuery r column query
    [(type, if negated then t.not else t)]
  | .existsQuery negated query type =>
    let t := E.existsQuery r query
    [(type, if negated then t.not else t)]
  | .raw fragment type => (type, (E.raw r fragment).1) :: (E.raw r fragment).2

/-- The chain of a query's conditions. -/
def SqlEngine.alternatives (E : SqlEngine N Row) (wheres : List (WhereClause N)) (r : Row) :
    Alternatives :=
  .ofChain (wheres.flatMap (E.clauseChain r))

/-- A row satisfies the conditions of a query. -/
def SqlEngine.holds (E : SqlEngine N Row) (wheres : List (WhereClause N)) (r : Row) : Bool :=
  (E.alternatives wheres r).value.isTrue

/-- The errors of a clause: those of its rendering, and the values that cannot be bound. -/
def SqlEngine.checkClause (E : SqlEngine N Row) (w : WhereClause N) : Except String Unit := do
  let r ← buildClause w 1
  if r.bindings.all E.bindable then pure () else throw "D1_TYPE_ERROR"

/-- The errors of a query's conditions. -/
def SqlEngine.check (E : SqlEngine N Row) : List (WhereClause N) → Except String Unit
  | [] => .ok ()
  | w :: ws => do
    E.checkClause w
    E.check ws

/-- The rows, out of the rows of the query's tables, that a query's conditions select. -/
def SqlEngine.select (E : SqlEngine N Row) (q : QueryBuilder N) (rows : List Row) :
    Except String (List Row) := do
  E.check q.wheres
  .ok (rows.filter (E.holds q.wheres))

variable {E : SqlEngine N Row} {ws : List (WhereClause N)} {r : Row}

/-- Every clause adds a condition. -/
theorem SqlEngine.clauseChain_ne_nil (w : WhereClause N) : E.clauseChain r w ≠ [] := by
  cases w <;> simp [clauseChain]

/-- A query with a clause has a condition. -/
theorem SqlEngine.chain_ne_nil (h : ws ≠ []) : ws.flatMap (E.clauseChain r) ≠ [] := by
  cases ws with
  | nil => exact absurd rfl h
  | cons w ws =>
    rw [List.flatMap_cons]
    exact List.append_ne_nil_of_left_ne_nil (clauseChain_ne_nil w) _

/-- A clause that adds one condition with `AND` restricts the last run. -/
theorem SqlEngine.holds_append_and {w : WhereClause N} {t : Tri}
    (hw : E.clauseChain r w = [(.and, t)]) :
    E.holds (ws ++ [w]) r = ((E.alternatives ws r).earlier.isTrue ||
      ((E.alternatives ws r).last.isTrue && t.isTrue)) := by
  unfold holds alternatives
  rw [List.flatMap_append, List.flatMap_singleton, hw]
  by_cases h : ws = []
  · subst h
    simp [Alternatives.ofChain, Alternatives.value]
  · rw [Alternatives.ofChain_append (chain_ne_nil h)]
    simp

/-- A clause that adds one condition with `OR` adds an alternative, unless it is the first. -/
theorem SqlEngine.holds_append_or {w : WhereClause N} {t : Tri}
    (hw : E.clauseChain r w = [(.or, t)]) :
    E.holds (ws ++ [w]) r = ((!ws.isEmpty && E.holds ws r) || t.isTrue) := by
  unfold holds alternatives
  rw [List.flatMap_append, List.flatMap_singleton, hw]
  by_cases h : ws = []
  · subst h
    simp [Alternatives.ofChain, Alternatives.value]
  · have hne : ws.isEmpty = false := by simpa using h
    rw [Alternatives.ofChain_append (chain_ne_nil h), hne]
    simp

/-- A query is true where one of its runs is. -/
theorem SqlEngine.holds_eq (ws : List (WhereClause N)) (r : Row) :
    E.holds ws r = ((E.alternatives ws r).earlier.isTrue || (E.alternatives ws r).last.isTrue) := by
  simp [holds, Alternatives.value]

/-- The errors of a longer list of clauses. -/
theorem SqlEngine.check_append (ws : List (WhereClause N)) (w : WhereClause N) :
    E.check (ws ++ [w]) = (do E.check ws; E.checkClause w) := by
  induction ws with
  | nil =>
    simp only [List.nil_append, check]
    cases E.checkClause w <;> rfl
  | cons v vs ih =>
    simp only [List.cons_append, check, ih]
    cases E.checkClause v <;> rfl

/-- What a query with one more clause selects, when the query before it has no error. -/
theorem SqlEngine.select_pushWhere {q : QueryBuilder N} {w : WhereClause N} {rows : List Row}
    (hq : E.check q.wheres = .ok ()) :
    E.select (q.pushWhere w) rows =
      (do E.checkClause w; .ok (rows.filter (E.holds (q.wheres ++ [w])))) := by
  unfold select QueryBuilder.pushWhere
  simp only [check_append, hq]
  rfl

/-- The database on a table all of whose values are `NULL`: every comparison is unknown, and so is
raw text, other than the two constants. -/
def nullTable (N : Type) : SqlEngine N Unit where
  isNull _ _ := true
  cmp _ _ _ := none
  like _ _ _ := .unknown
  raw _ fragment :=
    if fragment.sql = [.text "1 = 0"] then (.false, [])
    else if fragment.sql = [.text "1 = 1"] then (.true, []) else (.unknown, [])
  inQuery _ _ _ := .unknown
  existsQuery _ _ := .unknown
  bindable := JsVal.isScalar

/-- A disjunction of unknown conditions, at least one of them, is unknown. -/
theorem Tri.any_unknown {α : Type} {l : List α} (h : l ≠ []) :
    Tri.any (l.map fun _ => Tri.unknown) = .unknown := by
  have hor (l : List α) : Tri.unknown.or (Tri.any (l.map fun _ => Tri.unknown)) = .unknown := by
    induction l with
    | nil => rfl
    | cons a l ih =>
      rw [List.map_cons, Tri.any, List.foldr_cons, ← Tri.any, ih]
      rfl
  cases l with
  | nil => exact absurd rfl h
  | cons a l => exact hor l

/-- That database reads the builder's own texts as it should. -/
theorem nullTable_lawful (N : Type) [JsNumber N] : (nullTable N).Lawful where
  raw_false _ := by simp [nullTable]
  raw_true _ := by simp [nullTable]
  raw_jsonEach r column op vs _ hop hlen _ := by
    have hne : vs ≠ [] := by
      rintro rfl
      simp at hlen
    have hany : Tri.any (vs.map ((nullTable N).compare r column (· == .eq))) = .unknown :=
      Tri.any_unknown hne
    rcases hop with rfl | rfl <;> simp [nullTable, jsonEachText, SqlEngine.condition] <;>
      simp [nullTable] at hany <;> rw [hany]
    rfl
  bindable_scalar _ h := h

/-- Two filters of a list agree if and only if their tests agree on its elements. -/
theorem filter_eq_filter_iff {α : Type} {l : List α} {p p' : α → Bool} :
    l.filter p = l.filter p' ↔ ∀ a ∈ l, p a = p' a := by
  refine ⟨fun h a ha => ?_, List.filter_congr⟩
  have hmem : a ∈ l.filter p ↔ a ∈ l.filter p' := by rw [h]
  simp only [List.mem_filter, ha, true_and] at hmem
  exact Bool.eq_iff_iff.2 hmem

end

end HeadlessErp
