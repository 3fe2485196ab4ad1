import HeadlessErp.Query.Selection

/-!
# Row-level filters

`DataFilterService.applyRowFilter` and `checkRowFilterAccess`. A role's row filter is a JSON object
with a list of conditions and a combiner; it is compiled onto the conditions a query already has. A
row filter should only restrict: the query should select the rows it selected before that also
satisfy the filter. This module states what the filter means on its own (`RowFilter.holds`) and
when the compiled query selects those rows.

Three paths of the code disagree with it. A filter of one condition keeps the operator only for the
null tests and for a list; a filter whose combiner is `or` is joined to the query by `OR`; and a
filter joined by `AND` restricts only the last alternative of a query that has several.
-/

namespace HeadlessErp

section
variable {N : Type}

/-! ## The code -/

/-- An `AuthContext`: its own properties. -/
structure AuthContext (N : Type) where
  properties : List (String × JsVal N)

/-- `auth[name]`. -/
def AuthContext.get [JsNumber N] (auth : AuthContext N) (name : String) : JsVal N :=
  (JsVal.obj auth.properties).getMember name

/-- `auth.is_admin` as a test. -/
def AuthContext.isAdmin [JsNumber N] (auth : AuthContext N) : Bool := (auth.get "is_admin").truthy

/-- `value.slice(prefix.length)` when the value starts with the prefix. -/
def afterPrefix (lead s : String) : Option String :=
  if lead.toList.isPrefixOf s.toList then some (String.ofList (s.toList.drop lead.length)) else none

/-- `_resolveVariable`. -/
def resolveVariable [JsNumber N] (value : JsVal N) (auth : AuthContext N) : JsVal N :=
  match value with
  | .str s =>
    if s == "$CURRENT_USER" then auth.get "user_id"
    else match afterPrefix "$CURRENT_USER." s with
      | some path => (auth.get path).orElse value
      | none => value
  | v => v

/-- `operatorMap`. -/
def operatorMap : List (String × WhereOp) :=
  [("eq", .eq), ("neq", .ne), ("gt", .gt), ("gte", .ge), ("lt", .lt), ("lte", .le), ("in", .in),
   ("nin", .notIn), ("null", .isNull), ("nnull", .isNotNull), ("like", .like)]

/-- `operatorMap[op] || op`, where that is a text. -/
def mappedOp [JsNumber N] (op : JsVal N) : Option String :=
  match operatorMap.find? (·.1 == op.toStr), op with
  | some (_, o), _ => some o.text
  | none, .str s => some s
  | none, _ => none

/-- The conditions of a filter's JSON: none where they are missing or no list. -/
def filterConditions [JsNumber N] (filter : JsVal N) : List (JsVal N) :=
  match filter.getMember "conditions" with
  | .arr cs => cs
  | _ => []

/-- The combiner of a filter's JSON. -/
def filterCombiner [JsNumber N] (filter : JsVal N) : Joiner :=
  match filter.getMember "combiner" with
  | .str s => if s == "or" || s == "any" then .or else .and
  | _ => .and

/-- Reading a property of a condition, which may be no object. -/
def readProperty [JsNumber N] (c : JsVal N) (property : String) : Except String (JsVal N) :=
  if c.isNullish then
    .error ("Cannot read properties of " ++ c.toStr ++ " (reading '" ++ property ++ "')")
  else .ok (c.getMember property)

/-- A text that is passed where a column name is expected: anything else has no `split`. -/
def columnText (field : JsVal N) : Except String String :=
  match field with
  | .str s => .ok s
  | _ => .error "id.split is not a function"

/-- An operator that `_applySingleCondition` honours: the null tests, and membership in a list. -/
def honouredOp (op value : JsVal N) : Option WhereOp :=
  match op, value with
  | .str "null", _ | .str "IS NULL", _ => some .isNull
  | .str "nnull", _ | .str "IS NOT NULL", _ => some .isNotNull
  | .str "in", .arr _ => some .in
  | _, _ => none

/-- `_applySingleCondition`. Every operator it does not honour is an equality. -/
def applySingleCondition [JsNumber N] (q : QueryBuilder N) (field op value : JsVal N) :
    Except String (QueryBuilder N) := do
  let column ← columnText field
  match honouredOp op value, value with
  | some .isNull, _ => q.whereNull column
  | some .isNotNull, _ => q.whereNotNull column
  | some _, .arr vs => q.whereIn column vs
  | _, v => q.where column v

/-- A clause of the group that several conditions are compiled to. -/
def groupInput [JsNumber N] (table : String) (combiner : Joiner) (auth : AuthContext N)
    (c : JsVal N) : Except String (GroupInput N) := do
  let field ← readProperty c "field"
  match mappedOp (c.getMember "op") with
  | none => .error (invalidOp table (c.getMember "op").toStr)
  | some op =>
    .ok { column := field.toStr, op, value := resolveVariable (c.getMember "value") auth,
          type := some combiner }

/-- `applyRowFilter`, on what `getRowFilter` returns for the caller's role. -/
def applyRowFilter [JsNumber N] (q : QueryBuilder N) (auth : Option (AuthContext N))
    (filter : Option (JsVal N)) : Except String (QueryBuilder N) :=
  match auth with
  | none => .ok q
  | some auth =>
    if auth.isAdmin then .ok q
    else match filter with
      | none => .ok q
      | some filter =>
        match filterConditions filter with
        | [] => .ok q
        | [cond] => do
          let value := resolveVariable (← readProperty cond "value") auth
          applySingleCondition q (cond.getMember "field") (cond.getMember "op") value
        | conditions => do
          let combiner := filterCombiner filter
          let clauses ← conditions.mapM (groupInput q.table combiner auth)
          q.whereGroup clauses combiner

/-- `checkRowFilterAccess`, over the rows of the collection's table. -/
def checkRowFilterAccess [JsNumber N] {Row : Type} (E : SqlEngine N Row)
    (auth : Option (AuthContext N)) (filter : Option (JsVal N)) (table id : String)
    (rows : List Row) : Except String Unit := do
  match auth with
  | none => .ok ()
  | some a =>
    if a.isAdmin then .ok ()
    else
      let qb ← QueryBuilder.from table
      let qb ← qb.select ["id"]
      let qb ← qb.where "id" (.str id)
      let qb ← applyRowFilter qb auth filter
      match ← E.select qb rows with
      | [] => .error "You do not have access to this record"
      | _ :: _ => .ok ()

end

/-! ## What a filter means -/

/-- A condition of a row filter, read: a column, an operator and a value that suits it. -/
structure ReadCondition (N : Type) where
  column : String
  op : WhereOp
  value : JsVal N

section
variable {N : Type} [JsNumber N]

/-- The values an operator compares with. -/
def suits (op : WhereOp) (value : JsVal N) : Bool :=
  match op, value with
  | .in, .arr vs | .notIn, .arr vs => vs.all JsVal.isScalar
  | .between, .arr [low, high] => low.isScalar && high.isScalar
  | .in, _ | .notIn, _ | .between, _ => false
  | .isNull, _ | .isNotNull, _ => true
  | _, v => v.isScalar

/-- A condition of a filter's JSON, read. The operators are those of the operator map and SQL's
own. -/
def readCondition (auth : AuthContext N) (c : JsVal N) : Option (ReadCondition N) :=
  match c.getMember "field", c.getMember "op" with
  | .str field, .str op =>
    match (mappedOp (.str op : JsVal N)).bind WhereOp.ofText with
    | some o =>
      let value := resolveVariable (c.getMember "value") auth
      if isIdentifier field && suits o value then some ⟨field, o, value⟩
      else none
    | none => none
  | _, _ => none

/-- The conditions that apply to a caller, in JSON: none for an administrator. -/
def appliedConditions (auth : Option (AuthContext N)) (filter : Option (JsVal N)) :
    List (JsVal N) :=
  match auth, filter with
  | some auth, some filter => if auth.isAdmin then [] else filterConditions filter
  | _, _ => []

/-- The read conditions that apply to a caller. -/
def readConditions (auth : Option (AuthContext N)) (filter : Option (JsVal N)) :
    List (ReadCondition N) :=
  match auth with
  | none => []
  | some a => (appliedConditions auth filter).filterMap (readCondition a)

/-- Every condition that applies to a caller can be read. -/
def FilterWellFormed (auth : Option (AuthContext N)) (filter : Option (JsVal N)) : Prop :=
  ∀ a, auth = some a → ∀ c ∈ appliedConditions auth filter, (readCondition a c).isSome = true

variable {Row : Type}

/-- A condition on a row. -/
def ReadCondition.holds (E : SqlEngine N Row) (c : ReadCondition N) (r : Row) : Bool :=
  (E.condition r c.column c.op c.value).isTrue

/-- A row filter on a row: its conditions, joined by its combiner. -/
def filterHolds (E : SqlEngine N Row) (auth : Option (AuthContext N)) (filter : Option (JsVal N))
    (r : Row) : Bool :=
  match readConditions auth filter, filter.map filterCombiner with
  | [], _ => true
  | cs, some .or => cs.any (·.holds E r)
  | cs, _ => cs.all (·.holds E r)

/-- The compiled query selects the rows of the query before it that satisfy the filter. -/
def RowFilterExact (E : SqlEngine N Row) (q : QueryBuilder N) (auth : Option (AuthContext N))
    (filter : Option (JsVal N)) (rows : List Row) : Prop :=
  ∃ q', applyRowFilter q auth filter = .ok q' ∧
    E.select q' rows =
      .ok (rows.filter fun r => E.holds q.wheres r && filterHolds E auth filter r)

/-- When it does. No alternative of the query but the last one selects a row that the filter
rejects; the operator of a single condition is honoured or is an equality on the rows of the last
alternative; and a filter whose several conditions are combined by `or` stands alone or rejects
exactly the rows that the query rejects. -/
def RowFilterAgrees (E : SqlEngine N Row) (wheres : List (WhereClause N))
    (auth : Option (AuthContext N)) (filter : Option (JsVal N)) (rows : List Row) : Prop :=
  match appliedConditions auth filter, readConditions auth filter,
    filter.map filterCombiner with
  | [c], [d], _ =>
    (∀ r ∈ rows, (E.alternatives wheres r).earlier.isTrue = true → d.holds E r = true) ∧
    ((honouredOp (c.getMember "op") d.value).isSome = true ∨
      (E.bindable d.value = true ∧
        ∀ r ∈ rows, (E.alternatives wheres r).earlier.isTrue = false →
          (E.alternatives wheres r).last.isTrue = true →
          (E.condition r d.column .eq d.value).isTrue = d.holds E r))
  | _ :: _ :: _, ds, some .or =>
    wheres = [] ∨ ∀ r ∈ rows, E.holds wheres r = ds.any (·.holds E r)
  | _, ds, _ =>
    ∀ r ∈ rows, (E.alternatives wheres r).earlier.isTrue = true → ds.all (·.holds E r) = true

/-! ## Compiling conditions -/

variable {E : SqlEngine N Row} {auth : AuthContext N} {c : JsVal N} {d : ReadCondition N}

/-- What a condition that can be read looks like. -/
theorem readCondition_eq_some (h : readCondition auth c = some d) :
    c.getMember "field" = .str d.column ∧
    (∃ op, c.getMember "op" = .str op ∧
      (mappedOp (.str op : JsVal N)).bind WhereOp.ofText = some d.op) ∧
    resolveVariable (c.getMember "value") auth = d.value ∧
    isIdentifier d.column = true ∧ suits d.op d.value = true := by
  unfold readCondition at h
  split at h
  · next field op hfield hop =>
    split at h
    · next o ho =>
      simp only [Bool.and_eq_true] at h
      split at h
      · next hs =>
        cases h
        exact ⟨hfield, ⟨op, hop, ho⟩, rfl, hs.1, hs.2⟩
      · cases h
    · cases h
  · cases h

/-- A condition that can be read is an object. -/
theorem readProperty_of_readCondition (h : readCondition auth c = some d) (property : String) :
    readProperty c property = .ok (c.getMember property) := by
  have hfield := (readCondition_eq_some h).1
  unfold readProperty
  cases c <;> first | rfl | (cases hfield)

/-- A condition whose value suits its operator renders, and its values can be bound. -/
theorem buildCondition_of_suits (hE : E.Lawful) (hcol : isWhereColumn d.column = true)
    (hs : suits d.op d.value = true) (idx : Nat) :
    ∃ r, buildCondition d.column d.op d.value idx = .ok r ∧ r.bindings.all E.bindable = true := by
  have hscalar {v : JsVal N} (hv : v.isScalar = true) : E.bindable v = true :=
    hE.bindable_scalar v hv
  have hall {vs : List (JsVal N)} (hv : vs.all JsVal.isScalar = true) :
      vs.all E.bindable = true :=
    List.all_eq_true.2 fun v hm => hscalar (List.all_eq_true.1 hv v hm)
  obtain ⟨column, op, value⟩ := d
  simp only at hcol hs ⊢
  unfold buildCondition
  rw [hcol]
  simp only [Bool.not_true, Bool.false_eq_true, if_false]
  unfold suits at hs
  split at hs
  · exact ⟨_, rfl, hall hs⟩
  · exact ⟨_, rfl, hall hs⟩
  · rw [Bool.and_eq_true] at hs
    exact ⟨_, rfl, by simp [hscalar hs.1, hscalar hs.2]⟩
  · cases hs
  · cases hs
  · cases hs
  · exact ⟨_, rfl, rfl⟩
  · exact ⟨_, rfl, rfl⟩
  · cases op <;> first | exact ⟨_, rfl, by simp [hscalar hs]⟩ | simp_all

/-- The group clause several conditions are compiled to. -/
def filterGroup (ds : List (ReadCondition N)) (combiner : Joiner) : WhereClause N :=
  .group (ds.map fun d => ⟨d.column, d.op, d.value, combiner⟩) combiner

/-- The input of `whereGroup` for conditions that can be read. -/
theorem mapM_groupInput {cs : List (JsVal N)}
    (hcs : ∀ c ∈ cs, (readCondition auth c).isSome = true) (table : String) (combiner : Joiner) :
    cs.mapM (groupInput table combiner auth) = .ok ((cs.filterMap (readCondition auth)).map
      fun d => ⟨d.column, d.op.text, d.value, some combiner⟩) := by
  induction cs with
  | nil => rfl
  | cons c cs ih =>
    obtain ⟨d, hd⟩ := Option.isSome_iff_exists.1 (hcs c List.mem_cons_self)
    obtain ⟨hfield, ⟨op, hop, hmap⟩, hvalue, -⟩ := readCondition_eq_some hd
    obtain ⟨o, ho, hoText⟩ := Option.bind_eq_some_iff.1 hmap
    have hinput : groupInput table combiner auth c =
        .ok ⟨d.column, d.op.text, d.value, some combiner⟩ := by
      unfold groupInput
      rw [readProperty_of_readCondition hd, hop, ho, hfield, hvalue,
        WhereOp.eq_text_of_ofText hoText]
      rfl
    rw [List.mapM_cons, hinput, ih fun b hb => hcs b (List.mem_cons_of_mem c hb),
      List.filterMap_cons, hd]
    rfl

/-- Several conditions that can be read are compiled to their group. -/
theorem compile_group {cs : List (JsVal N)} (hcs : ∀ c ∈ cs, (readCondition auth c).isSome = true)
    (hne : cs.filterMap (readCondition auth) ≠ []) (q : QueryBuilder N) (combiner : Joiner) :
    (do let clauses ← cs.mapM (groupInput q.table combiner auth); q.whereGroup clauses combiner)
      = .ok (q.pushWhere (filterGroup (cs.filterMap (readCondition auth)) combiner)) := by
  rw [mapM_groupInput hcs]
  have hclauses : ((cs.filterMap (readCondition auth)).map fun d =>
      (⟨d.column, d.op.text, d.value, some combiner⟩ : GroupInput N)).mapM
        (groupClause q.table combiner) = .ok ((cs.filterMap (readCondition auth)).map
          fun d => ⟨d.column, d.op, d.value, combiner⟩) := by
    rw [mapM_ok (g := fun c => ⟨c.column, (WhereOp.ofText c.op).getD .eq, c.value,
      c.type.getD combiner⟩), List.map_map]
    · simp [Function.comp_def]
    · intro c hc
      obtain ⟨d, -, rfl⟩ := List.mem_map.1 hc
      simp [groupClause, bind, Except.bind]
  simp only [bind, Except.bind, QueryBuilder.whereGroup, List.isEmpty_map, List.isEmpty_iff, hne,
    if_false, hclauses]
  rfl

/-- The group of conditions that can be read raises no error. -/
theorem checkClause_group (hE : E.Lawful) {cs : List (JsVal N)} (combiner : Joiner) :
    E.checkClause (filterGroup (cs.filterMap (readCondition auth)) combiner) = .ok () := by
  have hitems : ∀ g ∈ (cs.filterMap (readCondition auth)).map
      (fun d => (⟨d.column, d.op, d.value, combiner⟩ : GroupClause N)), ∀ idx,
      ∃ r, buildCondition g.column g.op g.value idx = .ok r ∧
        r.bindings.all E.bindable = true := by
    intro g hg idx
    obtain ⟨d, hd, rfl⟩ := List.mem_map.1 hg
    obtain ⟨c, -, hc⟩ := List.mem_filterMap.1 hd
    obtain ⟨-, -, -, hcol, hs⟩ := readCondition_eq_some hc
    exact buildCondition_of_suits hE (isWhereColumn_of_isIdentifier hcol) hs idx
  obtain ⟨ts, bs, next, hts, hps⟩ := renderAll_ok (p := E.bindable) hitems 1
  simp only [SqlEngine.checkClause, filterGroup, buildClause, buildGroup, hts, bind, Except.bind,
    hps, if_true, pure, Except.pure]

omit [JsNumber N] in
/-- What the group says of a row. -/
theorem clauseChain_group (r : Row) {ds : List (ReadCondition N)} (hne : ds ≠ [])
    (combiner : Joiner) :
    ∃ t, E.clauseChain r (filterGroup ds combiner) = [(combiner, t)] ∧
      t.isTrue = (match combiner with
        | .or => ds.any (·.holds E r)
        | .and => ds.all (·.holds E r)) := by
  have hchain : ds.map (fun d => (combiner, E.condition r d.column d.op d.value))
      = (ds.map fun d => E.condition r d.column d.op d.value).map (combiner, ·) := by
    rw [List.map_map]
    rfl
  refine ⟨_, rfl, ?_⟩
  rw [List.map_map]
  cases combiner with
  | and =>
    refine (congrArg (fun l => (Alternatives.ofChain l).value.isTrue) hchain).trans ?_
    rw [Alternatives.isTrue_ofChain_and, List.all_map]
    rfl
  | or =>
    refine (congrArg (fun l => (Alternatives.ofChain l).value.isTrue) hchain).trans ?_
    rw [Alternatives.isTrue_ofChain_or (by simpa using hne), List.any_map]
    rfl

omit [JsNumber N] in
/-- A raw clause raises no error when its values can be bound. -/
theorem checkClause_raw {fragment : SqlStatement N} (type : Joiner)
    (h : fragment.bindings.all E.bindable = true) :
    E.checkClause (.raw fragment type) = .ok () := by
  simp only [SqlEngine.checkClause, buildClause, buildRaw, bind, Except.bind, h, if_true, pure,
    Except.pure]

/-- Membership in a list of scalars is compiled, at every length of the list. -/
theorem compile_whereIn (hE : E.Lawful) {column : String} {vs : List (JsVal N)}
    (hcol : isIdentifier column = true) (hvs : vs.all JsVal.isScalar = true)
    (q : QueryBuilder N) :
    ∃ w, q.whereIn column vs = .ok (q.pushWhere w) ∧ E.checkClause w = .ok () ∧
      ∀ r, E.clauseChain r w = [(.and, E.condition r column .in (.arr vs))] := by
  unfold QueryBuilder.whereIn
  rw [sanitizeColumn_of_isColumnName (isColumnName_of_isIdentifier hcol)]
  simp only [bind, Except.bind]
  split
  · next hempty =>
    refine ⟨_, rfl, checkClause_raw .and rfl, fun r => ?_⟩
    rw [List.isEmpty_iff.1 hempty, SqlEngine.clauseChain, hE.raw_false]
    rfl
  unfold QueryBuilder.pushIn
  split
  · next hlen =>
    refine ⟨_, rfl, checkClause_raw .and ?_, fun r => ?_⟩
    · rw [List.all_cons, List.all_nil, Bool.and_true]
      exact hE.bindable_scalar (jsonList vs) rfl
    · rw [SqlEngine.clauseChain, hE.raw_jsonEach r column .in vs hcol (.inl rfl) hlen hvs]
  · refine ⟨_, rfl, ?_, fun r => rfl⟩
    obtain ⟨s, hs, hp⟩ := buildCondition_of_suits (d := ⟨column, .in, .arr vs⟩) hE
      (isWhereColumn_of_isIdentifier hcol) hvs 1
    simp only at hs
    simp only [SqlEngine.checkClause, buildClause, hs, bind, Except.bind, hp, if_true, pure,
      Except.pure]

/-- A single condition that can be read, compiled: an operator that is honoured keeps its meaning,
any other becomes an equality. -/
theorem compile_single (hE : E.Lawful) (hd : readCondition auth c = some d) (q : QueryBuilder N) :
    ∃ w, applySingleCondition q (c.getMember "field") (c.getMember "op") d.value
        = .ok (q.pushWhere w) ∧
      ((honouredOp (c.getMember "op") d.value).isSome = true → E.checkClause w = .ok () ∧
        ∀ r, E.clauseChain r w = [(.and, E.condition r d.column d.op d.value)]) ∧
      ((honouredOp (c.getMember "op") d.value).isSome = false →
        (E.checkClause w = .ok () ↔ E.bindable d.value = true) ∧
        ∀ r, E.clauseChain r w = [(.and, E.condition r d.column .eq d.value)]) := by
  obtain ⟨hfield, ⟨op, hop, hmap⟩, -, hname, hs⟩ := readCondition_eq_some hd
  have hcol := isWhereColumn_of_isIdentifier hname
  -- The null tests ignore the value of the condition.
  have hnull {o : WhereOp} (h : o = .isNull ∨ o = .isNotNull)
      (hmap' : (mappedOp (.str op : JsVal N)).bind WhereOp.ofText = some o) :
      E.checkClause (.single d.column o .null .and) = .ok () ∧
        ∀ r, E.clauseChain r (.single d.column o .null .and)
          = [(.and, E.condition r d.column d.op d.value)] := by
    obtain ⟨s, hs, hp⟩ := buildCondition_of_suits (d := ⟨d.column, o, .null⟩) hE hcol
      (by rcases h with rfl | rfl <;> rfl) 1
    simp only at hs
    refine ⟨?_, fun r => ?_⟩
    · simp only [SqlEngine.checkClause, buildClause, hs, bind, Except.bind, hp, if_true, pure,
        Except.pure]
    · rw [Option.some.inj (hmap.symm.trans hmap')]
      rcases h with rfl | rfl <;> rfl
  have hcolumn (context : String) : sanitizeColumn d.column context false = .ok d.column :=
    sanitizeColumn_of_isColumnName (isColumnName_of_isIdentifier hname) context
  rw [hfield, hop]
  unfold applySingleCondition columnText
  simp only [bind, Except.bind]
  cases hon : honouredOp (.str op) d.value with
  | none =>
    refine ⟨.single d.column .eq d.value .and, ?_, nofun, fun _ => ⟨?_, fun r => rfl⟩⟩
    · unfold QueryBuilder.where
      rw [hcolumn]
      rfl
    · simp only [SqlEngine.checkClause, buildClause, buildCondition, hcol, Bool.not_true,
        Bool.false_eq_true, if_false, bind, Except.bind, List.all_cons, List.all_nil,
        Bool.and_true, pure, Except.pure]
      cases E.bindable d.value <;> simp [throw, throwThe, MonadExceptOf.throw]
  | some o =>
    unfold honouredOp at hon
    split at hon
    · next heq =>
      cases hon
      cases heq
      refine ⟨_, ?_, fun _ => hnull (.inl rfl) rfl, nofun⟩
      simp only [QueryBuilder.whereNull, hcolumn, bind, Except.bind]
    · next heq =>
      cases hon
      cases heq
      refine ⟨_, ?_, fun _ => hnull (.inl rfl) rfl, nofun⟩
      simp only [QueryBuilder.whereNull, hcolumn, bind, Except.bind]
    · next heq =>
      cases hon
      cases heq
      refine ⟨_, ?_, fun _ => hnull (.inr rfl) rfl, nofun⟩
      simp only [QueryBuilder.whereNotNull, sanitizeIdentifier_of_isIdentifier hname, bind,
        Except.bind]
    · next heq =>
      cases hon
      cases heq
      refine ⟨_, ?_, fun _ => hnull (.inr rfl) rfl, nofun⟩
      simp only [QueryBuilder.whereNotNull, sanitizeIdentifier_of_isIdentifier hname, bind,
        Except.bind]
    · next vs heq hvs =>
      cases hon
      cases heq
      have hin : d.op = .in := Option.some.inj (hmap.symm.trans rfl)
      rw [hin, hvs] at hs
      obtain ⟨w, hw, hcheck, hchain⟩ := compile_whereIn hE hname hs q
      rw [hin, hvs]
      exact ⟨w, hw, fun _ => ⟨hcheck, hchain⟩, nofun⟩
    · cases hon

/-! ## The compiled query -/

section
variable {auth : Option (AuthContext N)} {filter : Option (JsVal N)} {rows : List Row}
  {q : QueryBuilder N}

/-- A caller to whom conditions apply is no administrator and has a filter. -/
theorem appliedConditions_eq_cons {c : JsVal N} {cs : List (JsVal N)}
    (h : appliedConditions auth filter = c :: cs) :
    ∃ a f, auth = some a ∧ a.isAdmin = false ∧ filter = some f ∧ filterConditions f = c :: cs := by
  unfold appliedConditions at h
  split at h
  · next a f =>
    split at h
    · cases h
    · next ha => exact ⟨a, f, rfl, by simpa using ha, rfl, h⟩
  · cases h

/-- Where no condition applies the query is left as it is. -/
theorem applyRowFilter_of_nil (h : appliedConditions auth filter = []) :
    applyRowFilter q auth filter = .ok q := by
  unfold appliedConditions at h
  unfold applyRowFilter
  split
  · rfl
  split
  · rfl
  split
  · rfl
  · simp_all

/-- Where no condition applies every row satisfies the filter. -/
theorem readConditions_of_nil (h : appliedConditions auth filter = []) :
    readConditions auth filter = [] := by
  unfold readConditions
  rw [h]
  cases auth <;> rfl

/-- Exactness of a query with one more clause, that can raise no error. -/
theorem exact_pushWhere_iff {w : WhereClause N} (hq : E.check q.wheres = .ok ())
    (hw : applyRowFilter q auth filter = .ok (q.pushWhere w)) (hcheck : E.checkClause w = .ok ()) :
    RowFilterExact E q auth filter rows ↔ ∀ r ∈ rows,
      E.holds (q.wheres ++ [w]) r = (E.holds q.wheres r && filterHolds E auth filter r) := by
  rw [← filter_eq_filter_iff]
  unfold RowFilterExact
  rw [hw]
  constructor
  · rintro ⟨q', hq', hsel⟩
    cases hq'
    rw [SqlEngine.select_pushWhere hq, hcheck] at hsel
    exact Except.ok.inj hsel
  · intro h
    refine ⟨_, rfl, ?_⟩
    rw [SqlEngine.select_pushWhere hq, hcheck]
    exact congrArg Except.ok h

/-- A filter without conditions selects the query's rows. -/
theorem rowFilterExact_of_nil (hq : E.check q.wheres = .ok ())
    (h : appliedConditions auth filter = []) : RowFilterExact E q auth filter rows := by
  refine ⟨q, applyRowFilter_of_nil h, ?_⟩
  unfold SqlEngine.select filterHolds
  rw [hq, readConditions_of_nil h]
  simp only [Bool.and_true]
  rfl

/-- Restricting the last of two alternatives restricts both if and only if the earlier one is
restricted already. -/
theorem restrict_iff {e l t : Bool} :
    (e || (l && t)) = ((e || l) && t) ↔ (e = true → t = true) := by
  cases e <;> cases l <;> cases t <;> decide

/-- Restricting the last of two alternatives by another test. -/
theorem replace_iff {e l t u : Bool} : (e || (l && u)) = ((e || l) && t) ↔
    (e = true → t = true) ∧ (e = false → l = true → u = t) := by
  cases e <;> cases l <;> cases t <;> cases u <;> decide

/-- A filter of one condition. -/
theorem rowFilterExact_single_iff (hE : E.Lawful) (hq : E.check q.wheres = .ok ())
    (hf : FilterWellFormed auth filter) {c : JsVal N}
    (h : appliedConditions auth filter = [c]) :
    RowFilterExact E q auth filter rows ↔ RowFilterAgrees E q.wheres auth filter rows := by
  obtain ⟨a, f, rfl, ha, rfl, hcs⟩ := appliedConditions_eq_cons h
  obtain ⟨d, hd⟩ := Option.isSome_iff_exists.1 (hf a rfl c (by rw [h]; exact List.mem_singleton_self c))
  have hread : readConditions (some a) (some f) = [d] := by
    simp [readConditions, h, hd]
  have hholds (r : Row) : filterHolds E (some a) (some f) r = d.holds E r := by
    unfold filterHolds
    rw [hread, Option.map_some]
    cases filterCombiner f
    · exact Bool.and_true _
    · exact Bool.or_false _
  obtain ⟨w, hw, hkept, hlost⟩ := compile_single hE hd q
  have happly : applyRowFilter q (some a) (some f) = .ok (q.pushWhere w) := by
    unfold applyRowFilter
    simp only [ha, Bool.false_eq_true, if_false, hcs, readProperty_of_readCondition hd,
      (readCondition_eq_some hd).2.2.1, bind, Except.bind, hw]
  unfold RowFilterAgrees
  rw [h, hread]
  simp only
  cases hon : (honouredOp (c.getMember "op") d.value).isSome with
  | true =>
    obtain ⟨hcheck, hchain⟩ := hkept hon
    rw [exact_pushWhere_iff hq happly hcheck]
    simp only [SqlEngine.holds_append_and (hchain _), SqlEngine.holds_eq, hholds, true_or,
      and_true]
    exact forall₂_congr fun r _ => restrict_iff
  | false =>
    obtain ⟨hcheck, hchain⟩ := hlost hon
    simp only [Bool.false_eq_true, false_or]
    constructor
    · intro hexact
      have hbind : E.bindable d.value = true := by
        obtain ⟨q', hq', hsel⟩ := hexact
        rw [happly] at hq'
        cases hq'
        rw [SqlEngine.select_pushWhere hq] at hsel
        refine hcheck.1 ?_
        cases hw : E.checkClause w with
        | ok u => rfl
        | error e =>
          rw [hw] at hsel
          cases hsel
      rw [exact_pushWhere_iff hq happly (hcheck.2 hbind)] at hexact
      simp only [SqlEngine.holds_append_and (hchain _), SqlEngine.holds_eq, hholds] at hexact
      have hsplit := fun r hr => replace_iff.1 (hexact r hr)
      exact ⟨fun r hr => (hsplit r hr).1, hbind, fun r hr => (hsplit r hr).2⟩
    · rintro ⟨hearlier, hbind, hlast⟩
      rw [exact_pushWhere_iff hq happly (hcheck.2 hbind)]
      intro r hr
      rw [SqlEngine.holds_append_and (hchain r), SqlEngine.holds_eq, hholds]
      exact replace_iff.2 ⟨hearlier r hr, hlast r hr⟩

/-- A filter of several conditions. -/
theorem rowFilterExact_group_iff (hE : E.Lawful) (hq : E.check q.wheres = .ok ())
    (hf : FilterWellFormed auth filter) {c c' : JsVal N} {cs : List (JsVal N)}
    (h : appliedConditions auth filter = c :: c' :: cs) :
    RowFilterExact E q auth filter rows ↔ RowFilterAgrees E q.wheres auth filter rows := by
  obtain ⟨a, f, rfl, ha, rfl, hcs⟩ := appliedConditions_eq_cons h
  have hsome := hf a rfl
  rw [h] at hsome
  obtain ⟨d, hd⟩ := Option.isSome_iff_exists.1 (hsome c List.mem_cons_self)
  have hread : readConditions (some a) (some f)
      = (c :: c' :: cs).filterMap (readCondition a) := by
    simp [readConditions, h]
  have hne : (c :: c' :: cs).filterMap (readCondition a) ≠ [] := by simp [hd]
  have happly : applyRowFilter q (some a) (some f) = .ok (q.pushWhere
      (filterGroup ((c :: c' :: cs).filterMap (readCondition a)) (filterCombiner f))) := by
    rw [← compile_group hsome hne]
    unfold applyRowFilter
    simp only [ha, Bool.false_eq_true, if_false, hcs]
  rw [exact_pushWhere_iff hq happly (checkClause_group hE _)]
  unfold RowFilterAgrees
  rw [h, hread]
  generalize (c :: c' :: cs).filterMap (readCondition a) = ds at hread hne
  have hholds (r : Row) : filterHolds E (some a) (some f) r = (match filterCombiner f with
      | .or => ds.any (·.holds E r)
      | .and => ds.all (·.holds E r)) := by
    unfold filterHolds
    rw [hread, Option.map_some]
    cases ds with
    | nil => exact absurd rfl hne
    | cons d ds => cases filterCombiner f <;> rfl
  simp only [Option.map_some]
  cases hcomb : filterCombiner f with
  | and =>
    simp only [hcomb] at hholds
    refine forall₂_congr fun r _ => ?_
    obtain ⟨t, ht, htrue⟩ := clauseChain_group (E := E) r hne .and
    rw [SqlEngine.holds_append_and ht, SqlEngine.holds_eq, hholds, htrue]
    exact restrict_iff
  | or =>
    simp only [hcomb] at hholds
    have hor (r : Row) : E.holds (q.wheres ++ [filterGroup ds .or]) r
        = ((!q.wheres.isEmpty && E.holds q.wheres r) || ds.any (·.holds E r)) := by
      obtain ⟨t, ht, htrue⟩ := clauseChain_group (E := E) r hne .or
      rw [SqlEngine.holds_append_or ht, htrue]
    by_cases hw : q.wheres = []
    · refine iff_of_true (fun r _ => ?_) (.inl hw)
      rw [hor, hholds, hw]
      rfl
    · have hempty : q.wheres.isEmpty = false := by simpa using hw
      simp only [hw, false_or]
      refine forall₂_congr fun r _ => ?_
      rw [hor, hholds, hempty]
      cases E.holds q.wheres r <;> cases ds.any (·.holds E r) <;> decide

/-- The compiled query selects the rows of the query before it that satisfy the filter if and only
if `RowFilterAgrees`. -/
theorem rowFilterExact_iff (hE : E.Lawful) (hq : E.check q.wheres = .ok ())
    (hf : FilterWellFormed auth filter) :
    RowFilterExact E q auth filter rows ↔ RowFilterAgrees E q.wheres auth filter rows := by
  match h : appliedConditions auth filter with
  | [] =>
    refine iff_of_true (rowFilterExact_of_nil hq h) ?_
    unfold RowFilterAgrees
    rw [h, readConditions_of_nil h]
    simp
  | [c] => exact rowFilterExact_single_iff hE hq hf h
  | c :: c' :: cs => exact rowFilterExact_group_iff hE hq hf h

/-- The conditions of the query that looks one row up. -/
def idQuery (id : String) : List (WhereClause N) := [.single "id" .eq (.str id) .and]

/-- The query that looks one row up, as the access check builds it. -/
theorem idQuery_built {table : String} (ht : isIdentifier table = true) (id : String) :
    (do let qb ← QueryBuilder.from table; let qb ← qb.select ["id"]; qb.where "id" (.str id))
      = .ok ({ table, columns := ["id"], wheres := idQuery id } : QueryBuilder N) := by
  have hselect : sanitizeColumn "id" "QueryBuilder.select" true = .ok "id" := by rfl
  have hwhere : sanitizeColumn "id" "QueryBuilder.where" false = .ok "id" := by rfl
  simp only [QueryBuilder.from, sanitizeIdentifier_of_isIdentifier ht, bind, Except.bind,
    QueryBuilder.select, List.mapM_cons, List.mapM_nil, hselect, pure, Except.pure,
    QueryBuilder.where, hwhere, whereArgs]
  rfl

/-- The access check of a caller that is no administrator passes if and only if some row has the id
and satisfies the filter, where the compiled query selects the right rows. -/
theorem checkRowFilterAccess_eq_ok {a : AuthContext N} (ha : a.isAdmin = false) {table : String}
    (ht : isIdentifier table = true) {id : String}
    (h : RowFilterExact E { table, columns := ["id"], wheres := idQuery id } (some a) filter rows) :
    checkRowFilterAccess E (some a) filter table id rows = .ok () ↔
      ∃ r ∈ rows, (E.condition r "id" .eq (.str id)).isTrue = true ∧
        filterHolds E (some a) filter r = true := by
  obtain ⟨q', hq', hsel⟩ := h
  have hholds (r : Row) :
      E.holds (idQuery id) r = (E.condition r "id" .eq (.str id)).isTrue := by
    rw [idQuery, ← List.nil_append [_], SqlEngine.holds_append_and rfl]
    rfl
  have hcheck : checkRowFilterAccess E (some a) filter table id rows = (do
      let qb ← (do let qb ← QueryBuilder.from table; let qb ← qb.select ["id"];
                   qb.where "id" (.str id))
      let qb ← applyRowFilter qb (some a) filter
      match ← E.select qb rows with
      | [] => .error "You do not have access to this record"
      | _ :: _ => .ok ()) := by
    unfold checkRowFilterAccess
    simp only [ha, Bool.false_eq_true, if_false]
    cases (QueryBuilder.from table : Except String (QueryBuilder N)) with
    | error e => rfl
    | ok q =>
      simp only [bind, Except.bind]
      cases q.select ["id"] <;> rfl
  rw [hcheck, idQuery_built ht]
  simp only [bind, Except.bind, hq', hsel]
  constructor
  · intro hok
    split at hok
    · cases hok
    · next r rs hrows =>
      have hmem := List.mem_filter.1 (hrows ▸ List.mem_cons_self : r ∈ _)
      rw [Bool.and_eq_true, hholds] at hmem
      exact ⟨r, hmem.1, hmem.2⟩
  · rintro ⟨r, hr, hid, hf⟩
    have hmem : r ∈ rows.filter fun r =>
        E.holds (idQuery id) r && filterHolds E (some a) filter r := by
      rw [List.mem_filter, hholds, hid, hf]
      exact ⟨hr, rfl⟩
    split
    · next hrows =>
      rw [hrows] at hmem
      cases hmem
    · rfl

end

end

/-- A caller without administrator rights. -/
def sampleAuth : AuthContext (Option Int) := ⟨[("user_id", .str "u1"), ("is_admin", .bool false)]⟩

/-- A row filter: a test of each of the columns, and the combiner. -/
def sampleFilter (op combiner : String) (fields : List String) : JsVal (Option Int) :=
  .obj [("combiner", .str combiner),
    ("conditions", .arr (fields.map fun f => .obj [("field", .str f), ("op", .str op)]))]

end HeadlessErp
