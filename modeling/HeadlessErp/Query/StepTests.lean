import HeadlessErp.Query.Compilers

/-!
# Steps of a query and what they say of a row

A step adds conditions to a builder. Where it adds them to every builder, raises no error and says
something of each row (`SqlEngine.StepTests`), the steps of a query say of a row what each of them
says, and the query selects the rows of which all of it is true (`SqlEngine.Tests.select`).
-/

namespace HeadlessErp

section
variable {N Row : Type} {E : SqlEngine N Row} {ws vs : List (WhereClause N)} {p p' : Row → Bool}

/-! ## Steps -/

/-- Conditions that raise no error and say something of each row. -/
def SqlEngine.Tests (E : SqlEngine N Row) (ws : List (WhereClause N)) (p : Row → Bool) : Prop :=
  E.check ws = .ok () ∧ ∀ r, ∃ ts : List Tri,
    ws.flatMap (E.clauseChain r) = ts.map (Joiner.and, ·) ∧ ts.all Tri.isTrue = p r

/-- A step that adds such conditions to every builder. -/
def SqlEngine.StepTests (E : SqlEngine N Row) (step : QueryStep N) (p : Row → Bool) : Prop :=
  ∃ ws, E.Tests ws p ∧ ∀ q, step q = .ok { q with wheres := q.wheres ++ ws }

theorem SqlEngine.Tests.nil : E.Tests [] fun _ => true := ⟨rfl, fun _ => ⟨[], rfl, rfl⟩⟩

theorem check_append_ok (hws : E.check ws = .ok ()) (hvs : E.check vs = .ok ()) :
    E.check (ws ++ vs) = .ok () := by
  induction ws with
  | nil => exact hvs
  | cons w ws ih =>
    obtain ⟨u, hw, hrest⟩ := exists_of_bind_eq_ok hws
    show (do E.checkClause w; E.check (ws ++ vs)) = .ok ()
    rw [hw, ih hrest]
    rfl

theorem SqlEngine.Tests.append (h : E.Tests ws p) (h' : E.Tests vs p') :
    E.Tests (ws ++ vs) fun r => p r && p' r := by
  refine ⟨check_append_ok h.1 h'.1, fun r => ?_⟩
  obtain ⟨ts, hchain, hts⟩ := h.2 r
  obtain ⟨us, hchain', hus⟩ := h'.2 r
  refine ⟨ts ++ us, ?_, ?_⟩
  · rw [List.flatMap_append, List.map_append, hchain, hchain']
  · rw [List.all_append, hts, hus]

/-- The rows that such conditions select. -/
theorem SqlEngine.Tests.select {q : QueryBuilder N} (h : E.Tests q.wheres p) (rows : List Row) :
    E.select q rows = .ok (rows.filter p) := by
  have hholds : E.holds q.wheres = p := by
    funext r
    obtain ⟨ts, hchain, hts⟩ := h.2 r
    unfold SqlEngine.holds SqlEngine.alternatives
    rw [hchain, Alternatives.isTrue_ofChain_and, hts]
  unfold SqlEngine.select
  rw [h.1, hholds]
  rfl

/-- One condition. -/
theorem SqlEngine.Tests.one {w : WhereClause N} {truth : Row → Tri}
    (hcheck : E.checkClause w = .ok ()) (hchain : ∀ r, E.clauseChain r w = [(.and, truth r)]) :
    E.Tests [w] fun r => (truth r).isTrue := by
  refine ⟨?_, fun r => ⟨[truth r], ?_, ?_⟩⟩
  · show (do E.checkClause w; E.check []) = .ok ()
    rw [hcheck]
    rfl
  · rw [List.flatMap_singleton, hchain]
    rfl
  · rw [List.all_cons, List.all_nil, Bool.and_true]

theorem SqlEngine.StepTests.skip : E.StepTests (fun q => .ok q) fun _ => true :=
  ⟨[], .nil, fun q => by rw [List.append_nil]⟩

theorem SqlEngine.StepTests.push {w : WhereClause N} (h : E.Tests [w] p) :
    E.StepTests (fun q => .ok (q.pushWhere w)) p := ⟨[w], h, fun _ => rfl⟩

/-- A step after a step. -/
theorem SqlEngine.StepTests.seq {f g : QueryStep N} (hf : E.StepTests f p) (hg : E.StepTests g p') :
    E.StepTests (fun q => f q >>= g) fun r => p r && p' r := by
  obtain ⟨ws, hws, hf⟩ := hf
  obtain ⟨vs, hvs, hg⟩ := hg
  refine ⟨ws ++ vs, hws.append hvs, fun q => ?_⟩
  show f q >>= g = _
  rw [hf]
  show g _ = _
  rw [hg, List.append_assoc]

/-- A loop of steps. -/
theorem SqlEngine.StepTests.foldlM {α : Type}
    {step : QueryBuilder N → α → Except String (QueryBuilder N)} {test : α → Row → Bool}
    {as : List α} (h : ∀ a ∈ as, E.StepTests (step · a) (test a)) :
    E.StepTests (fun q => as.foldlM step q) fun r => as.all (test · r) := by
  induction as with
  | nil => exact .skip
  | cons a as ih =>
    obtain ⟨ha, has⟩ := List.forall_mem_cons.1 h
    exact ha.seq (ih has)

end

section
variable {N Row : Type} [JsNumber N] {E : SqlEngine N Row} {column : String} {op : WhereOp}
  {v : JsVal N}

/-! ## The conditions of the builder -/

/-- An operator that compares a column with one value. -/
def WhereOp.isComparison : WhereOp → Bool
  | .in | .notIn | .between | .isNull | .isNotNull => false
  | _ => true

omit [JsNumber N] in
theorem suits_of_isComparison (hop : op.isComparison = true) (hv : v.isScalar = true) :
    suits op v = true := by
  cases op <;> first | exact hv | cases hop

omit [JsNumber N] in
theorem ne_undefined_of_isScalar (hv : v.isScalar = true) : v ≠ .undefined := by
  rintro rfl
  cases hv

/-- A condition whose value suits its operator. -/
theorem tests_single (op : WhereOp) (hE : E.Lawful) (hcolumn : isWhereColumn column = true)
    (hs : suits op v = true) :
    E.Tests [.single column op v .and] fun r => (E.condition r column op v).isTrue := by
  refine SqlEngine.Tests.one ?_ fun r => rfl
  obtain ⟨rendered, hr, hbind⟩ := buildCondition_of_suits (d := ⟨column, op, v⟩) hE hcolumn hs 1
  have hclause : buildClause (.single column op v .and) 1 = .ok rendered := hr
  unfold SqlEngine.checkClause
  rw [hclause]
  show (if rendered.bindings.all E.bindable then pure () else throw "D1_TYPE_ERROR") = _
  rw [if_pos hbind]
  rfl

/-- `where` with the text of an operator. -/
theorem stepTests_where (op : WhereOp) (hE : E.Lawful) (hcolumn : isIdentifier column = true)
    (hs : suits op v = true) (hv : v ≠ .undefined) :
    E.StepTests (fun q => q.where column (.str op.text) v)
      fun r => (E.condition r column op v).isTrue :=
  ⟨_, tests_single op hE (isWhereColumn_of_isIdentifier hcolumn) hs,
    fun q => where_eq hcolumn q op hv⟩

/-- A membership test. -/
theorem tests_membershipClause (hE : E.Lawful) (hcolumn : isIdentifier column = true)
    (hop : op = .in ∨ op = .notIn) {vs : List (JsVal N)} (hvs : vs.all JsVal.isScalar = true) :
    E.Tests [membershipClause column op (if op = .in then "1 = 0" else "1 = 1") vs]
      fun r => (E.condition r column op (.arr vs)).isTrue := by
  have hrenders := renders_membershipClause hE hcolumn hop
    (if op = .in then "1 = 0" else "1 = 1") hvs
  refine ⟨check_of_renders (.cons hrenders .nil), fun r => ?_⟩
  have hconjunct : ∃ t, E.clauseChain r
      (membershipClause column op (if op = .in then "1 = 0" else "1 = 1") vs) = [(.and, t)] := by
    unfold membershipClause
    split
    · obtain rfl | rfl := hop
      · exact ⟨.false, by simp [SqlEngine.clauseChain, hE.raw_false]⟩
      · exact ⟨.true, by simp [SqlEngine.clauseChain, hE.raw_true]⟩
    · split
      · next hlong =>
        have hraw := hE.raw_jsonEach r column op vs hcolumn hop hlong hvs
        exact ⟨_, by rw [SqlEngine.clauseChain, hraw]⟩
      · exact ⟨_, rfl⟩
  obtain ⟨t, ht⟩ := hconjunct
  refine ⟨[t], ?_, ?_⟩
  · rw [List.flatMap_singleton, ht]
    rfl
  · have hholds := membershipClause_holds hE hcolumn hop hvs r
    rw [SqlEngine.holds_singleton ht] at hholds
    rw [List.all_cons, List.all_nil, Bool.and_true]
    exact hholds

/-- The test for a column that is empty. -/
theorem stepTests_whereNull (hE : E.Lawful) (hname : isColumnName column = true)
    (hcolumn : isWhereColumn column = true) :
    E.StepTests (fun q => q.whereNull column) fun r => E.isNull r column := by
  have hpush : ∀ q : QueryBuilder N,
      q.whereNull column = .ok (q.pushWhere (.single column .isNull .null .and)) := by
    intro q
    unfold QueryBuilder.whereNull
    rw [sanitizeColumn_of_isColumnName hname]
    rfl
  have htest := tests_single (v := .null) .isNull hE hcolumn rfl
  have hsame : (fun r => (E.condition r column .isNull .null).isTrue) =
      fun r => E.isNull r column := by
    funext r
    exact Tri.isTrue_ofBool _
  rw [hsame] at htest
  exact ⟨_, htest, hpush⟩

omit [JsNumber N] in
/-- A builder begins with its table. -/
theorem from_eq {table : String} (h : isIdentifier table = true) :
    QueryBuilder.from table = .ok ({ table } : QueryBuilder N) := by
  unfold QueryBuilder.from
  rw [sanitizeIdentifier_of_isIdentifier h]
  rfl

end

end HeadlessErp
