import HeadlessErp.Base.Except
import HeadlessErp.Query.Parsed
import HeadlessErp.Query.RowFilter

/-!
# Steps that restrict a query

A query is put together by a chain of builder steps. Most of them only add conditions, the same ones
to every builder (`Adds`), and every condition they add restricts the query on its own
(`SqlEngine.IsConjunct`). What such a chain selects is then the conjunction of what its steps say,
in any order.
-/

namespace HeadlessErp

section
variable {N : Type}

/-- A builder step. -/
abbrev QueryStep (N : Type) := QueryBuilder N → Except String (QueryBuilder N)

/-- A step adds these conditions to every builder, or refuses every builder. -/
def Adds (f : QueryStep N) (cs : Option (List (WhereClause N))) : Prop :=
  ∀ q, (f q).toOption.map (·.wheres) = cs.map (q.wheres ++ ·)

/-- The conditions a step adds. -/
def addedBy (f : QueryStep N) : Option (List (WhereClause N)) :=
  (f { table := "" }).toOption.map (·.wheres)

/-- What a list of items adds, each in its turn. -/
def collect {α β : Type} (cs : α → Option (List β)) : List α → Option (List β)
  | [] => some []
  | a :: as => do
    let bs ← cs a
    let rest ← collect cs as
    some (bs ++ rest)

/-- The elements of what a list of items adds. -/
theorem mem_collect {α β : Type} {cs : α → Option (List β)} {as : List α} {bs : List β}
    (h : collect cs as = some bs) {b : β} :
    b ∈ bs ↔ ∃ a ∈ as, ∃ ds, cs a = some ds ∧ b ∈ ds := by
  induction as generalizing bs with
  | nil =>
    cases h
    simp
  | cons a as ih =>
    simp only [collect, Option.bind_eq_bind, Option.bind_eq_some_iff, Option.some.injEq] at h
    obtain ⟨ds, hds, rest, hrest, rfl⟩ := h
    simp only [List.mem_append, List.mem_cons, exists_eq_or_imp, hds, Option.some.injEq,
      exists_eq_left', ih hrest]

/-- Every item of a list that adds something adds something. -/
theorem collect_isSome {α β : Type} {cs : α → Option (List β)} {as : List α} :
    (collect cs as).isSome = true ↔ ∀ a ∈ as, (cs a).isSome = true := by
  induction as with
  | nil => simp [collect]
  | cons a as ih =>
    simp only [List.forall_mem_cons, ← ih, collect]
    cases cs a <;> cases collect cs as <;> simp

/-- What the items add, checked item by item. -/
theorem all_collect {α β : Type} {cs : α → Option (List β)} {as : List α} {bs : List β}
    (h : collect cs as = some bs) (p : β → Bool) :
    bs.all p = as.all fun a => ((cs a).getD []).all p := by
  induction as generalizing bs with
  | nil =>
    cases h
    rfl
  | cons a as ih =>
    simp only [collect, Option.bind_eq_bind, Option.bind_eq_some_iff, Option.some.injEq] at h
    obtain ⟨ds, hds, rest, hrest, rfl⟩ := h
    simp [hds, ih hrest]

/-- Items that add the same add the same together. -/
theorem collect_congr {α β : Type} {cs ds : α → Option (List β)} {as : List α}
    (h : ∀ a ∈ as, cs a = ds a) : collect cs as = collect ds as := by
  induction as with
  | nil => rfl
  | cons a as ih =>
    rw [collect, collect, h a List.mem_cons_self, ih fun b hb => h b (List.mem_cons_of_mem a hb)]

section
variable {f g : QueryStep N} {cs ds : Option (List (WhereClause N))}

/-- The conditions of a builder that passed a step. -/
theorem Adds.wheres_eq (h : Adds f cs) {q q' : QueryBuilder N} (hq : f q = .ok q') :
    ∃ l, cs = some l ∧ q'.wheres = q.wheres ++ l := by
  have := h q
  rw [hq] at this
  cases cs with
  | none => cases this
  | some l => exact ⟨l, rfl, Option.some.inj this⟩

/-- A step that adds conditions does not refuse a builder. -/
theorem Adds.exists_ok {l : List (WhereClause N)} (h : Adds f (some l)) (q : QueryBuilder N) :
    ∃ q', f q = .ok q' ∧ q'.wheres = q.wheres ++ l := by
  have := h q
  cases hq : f q with
  | error e =>
    rw [hq] at this
    cases this
  | ok q' =>
    rw [hq] at this
    exact ⟨q', rfl, Option.some.inj this⟩

/-- What a step adds is determined. -/
theorem Adds.addedBy_eq (h : Adds f cs) : addedBy f = cs := by
  refine (h { table := "" }).trans ?_
  cases cs <;> rfl

/-- The step that changes nothing. -/
theorem Adds.ok : Adds (N := N) .ok (some []) := fun q => by
  simp [Except.toOption]

/-- One step after another. -/
theorem Adds.bind (hf : Adds f cs) (hg : Adds g ds) :
    Adds (fun q => f q >>= g) (do let c ← cs; let d ← ds; some (c ++ d)) := by
  intro q
  have h := hf q
  simp only
  cases hq : f q with
  | error e =>
    rw [hq] at h
    cases cs with
    | none => rfl
    | some c => cases h
  | ok q' =>
    rw [hq] at h
    cases cs with
    | none => cases h
    | some c =>
      have hw : q'.wheres = q.wheres ++ c := Option.some.inj h
      refine (hg q').trans ?_
      rw [hw]
      cases ds <;> simp

/-- A step for every item of a list. -/
theorem Adds.foldlM {α : Type} {f : QueryBuilder N → α → Except String (QueryBuilder N)}
    {cs : α → Option (List (WhereClause N))} {as : List α}
    (h : ∀ a ∈ as, Adds (fun q => f q a) (cs a)) : Adds (as.foldlM f) (collect cs as) := by
  induction as with
  | nil => exact Adds.ok
  | cons a as ih =>
    exact (h a List.mem_cons_self).bind (ih fun b hb => h b (List.mem_cons_of_mem a hb))

/-- A step that adds one condition, once something that does not depend on the builder is read. -/
theorem Adds.push {α : Type} (e : Except String α) (w : α → WhereClause N) :
    Adds (fun q => do let a ← e; .ok (q.pushWhere (w a)))
      (e.toOption.map fun a => [w a]) := by
  intro q
  cases e <;> rfl

/-- A step that leaves the conditions as they are, once something is read. -/
theorem Adds.keep {α : Type} (e : Except String α) (k : QueryBuilder N → α → QueryBuilder N)
    (hk : ∀ q a, (k q a).wheres = q.wheres) :
    Adds (fun q => do let a ← e; .ok (k q a)) (e.toOption.map fun _ => []) := by
  intro q
  cases e with
  | error e => rfl
  | ok a =>
    exact congrArg some ((hk q a).trans (List.append_nil _).symm)

/-- A step that is chosen by something that does not depend on the builder. -/
theorem Adds.cond {p : Prop} [Decidable p] (hf : p → Adds f cs) (hg : ¬ p → Adds g ds) :
    Adds (fun q => if p then f q else g q) (if p then cs else ds) := by
  by_cases hp : p
  · simpa only [hp, if_true] using hf hp
  · simpa only [hp, if_false] using hg hp

/-- A step that refuses every builder. -/
theorem Adds.error (e : QueryBuilder N → String) : Adds (fun q => .error (e q)) none :=
  fun _ => rfl

end

/-! ## Conjuncts -/

variable {Row : Type} {E : SqlEngine N Row}

/-- A clause that adds one condition to the query, with `AND`. -/
def SqlEngine.IsConjunct (E : SqlEngine N Row) (w : WhereClause N) : Prop :=
  ∀ r, ∃ t, E.clauseChain r w = [(.and, t)]

/-- The first condition a clause adds. -/
def SqlEngine.truth (E : SqlEngine N Row) (r : Row) (w : WhereClause N) : Tri :=
  ((E.clauseChain r w).head?.map (·.2)).getD .true

/-- A query of conjuncts is their conjunction. -/
theorem SqlEngine.holds_conjuncts {ws : List (WhereClause N)} (h : ∀ w ∈ ws, E.IsConjunct w)
    (r : Row) : E.holds ws r = ws.all fun w => E.holds [w] r := by
  have hchain (w : WhereClause N) (hw : w ∈ ws) :
      E.clauseChain r w = [(.and, E.truth r w)] := by
    obtain ⟨t, ht⟩ := h w hw r
    simp [truth, ht]
  have hflat : ws.flatMap (E.clauseChain r) = (ws.map (E.truth r)).map (Joiner.and, ·) := by
    rw [List.flatMap_def, List.map_congr_left hchain, ← List.flatMap_def, ← List.map_eq_flatMap,
      List.map_map]
    rfl
  have hone (w : WhereClause N) (hw : w ∈ ws) : (E.truth r w).isTrue = E.holds [w] r := by
    simp [holds, alternatives, hchain w hw, Alternatives.ofChain, Alternatives.value]
  have hall : E.holds ws r = ws.all (Tri.isTrue ∘ E.truth r) := by
    unfold holds alternatives
    rw [hflat, Alternatives.isTrue_ofChain_and, List.all_map]
  rw [hall, Bool.eq_iff_iff, List.all_eq_true, List.all_eq_true]
  refine forall₂_congr fun w hw => ?_
  rw [← hone w hw]
  rfl

/-- Conditions of one column are conjuncts. -/
theorem SqlEngine.isConjunct_single (column : String) (op : WhereOp) (value : JsVal N) :
    E.IsConjunct (.single column op value .and) := fun _ => ⟨_, rfl⟩

/-- Conditions that restrict a query, each on its own. -/
def SqlEngine.Restricting (E : SqlEngine N Row) (cs : Option (List (WhereClause N))) : Prop :=
  ∀ l, cs = some l → ∀ w ∈ l, E.IsConjunct w

section
variable {cs ds : Option (List (WhereClause N))}

/-- No conditions. -/
theorem SqlEngine.Restricting.nil : E.Restricting (some []) := by
  rintro l ⟨⟩ w hw
  cases hw

/-- One condition, where there is one. -/
theorem SqlEngine.Restricting.one {α : Type} {o : Option α} {w : α → WhereClause N}
    (h : ∀ a, o = some a → E.IsConjunct (w a)) : E.Restricting (o.map fun a => [w a]) := by
  intro l hl v hv
  cases o with
  | none => cases hl
  | some a =>
    cases hl
    cases List.mem_singleton.1 hv
    exact h a rfl

/-- Conditions after conditions. -/
theorem SqlEngine.Restricting.append (hc : E.Restricting cs) (hd : E.Restricting ds) :
    E.Restricting (do let c ← cs; let d ← ds; some (c ++ d)) := by
  intro l hl w hw
  simp only [Option.bind_eq_bind, Option.bind_eq_some_iff, Option.some.injEq] at hl
  obtain ⟨c, rfl, d, rfl, rfl⟩ := hl
  exact (List.mem_append.1 hw).elim (hc c rfl w) (hd d rfl w)

/-- Conditions for every item of a list. -/
theorem SqlEngine.Restricting.collect {α : Type} {cs : α → Option (List (WhereClause N))}
    {as : List α} (h : ∀ a ∈ as, E.Restricting (cs a)) : E.Restricting (collect cs as) := by
  intro l hl w hw
  obtain ⟨a, ha, ds, hds, hm⟩ := (mem_collect hl).1 hw
  exact h a ha ds hds w hm

end

/-- A query without errors is one whose clauses raise none. -/
theorem SqlEngine.check_eq_ok {ws : List (WhereClause N)} :
    E.check ws = .ok () ↔ ∀ w ∈ ws, E.checkClause w = .ok () := by
  induction ws with
  | nil => simp [check]
  | cons w ws ih =>
    rw [check, List.forall_mem_cons, ← ih]
    cases E.checkClause w <;> simp [bind, Except.bind]

/-! ## The steps of a parsed query -/

/-- Every raw text a parsed query is compiled to is one condition, and text can be bound. -/
structure SqlEngine.ReadsFragments [JsNumber N] (E : SqlEngine N Row) : Prop where
  raw_constant : ∀ r (b : Bool), (E.raw r ⟨[.text (if b = true then "1 = 1" else "1 = 0")], []⟩).2 = []
  raw_in : ∀ r col op vs, (E.raw r ⟨jsonEachText col op, [jsonList vs]⟩).2 = []
  raw_search : ∀ r cols pattern, (E.raw r (searchFragment cols pattern)).2 = []
  raw_function : ∀ r (ff : FunctionFilter N) expr, functionExpr ff = .ok (some expr) →
    ∀ s ∈ functionFragments expr ff.toFilterTest, (E.raw r s).2 = []
  bindable_text : ∀ s, E.bindable (.str s) = true

/-- Raw text of one condition is a conjunct. -/
theorem SqlEngine.isConjunct_raw {s : SqlStatement N} (h : ∀ r, (E.raw r s).2 = []) :
    E.IsConjunct (.raw s .and) := fun r => ⟨(E.raw r s).1, by simp [clauseChain, h r]⟩

variable [JsNumber N]

/-- The membership methods add one condition. -/
theorem pushIn_eq (q : QueryBuilder N) (col : String) (op : WhereOp) (vs : List (JsVal N)) :
    q.pushIn col op vs .and = q.pushWhere (if vs.length > 50
      then .raw ⟨jsonEachText col op, [jsonList vs]⟩ .and else .single col op (.arr vs) .and) := by
  unfold QueryBuilder.pushIn QueryBuilder.pushRaw
  split <;> rfl

/-- The condition of a membership test is a conjunct. -/
theorem SqlEngine.ReadsFragments.isConjunct_in (hE : E.ReadsFragments) (col : String)
    (op : WhereOp) (vs : List (JsVal N)) : E.IsConjunct (if vs.length > 50
      then .raw ⟨jsonEachText col op, [jsonList vs]⟩ .and else .single col op (.arr vs) .and) := by
  split
  · exact SqlEngine.isConjunct_raw fun r => hE.raw_in r col op vs
  · exact SqlEngine.isConjunct_single col op (.arr vs)

/-- A step that adds conditions that restrict a query. -/
def SqlEngine.Restricts (E : SqlEngine N Row) (f : QueryStep N) : Prop :=
  Adds f (addedBy f) ∧ E.Restricting (addedBy f)

section
variable {f g : QueryStep N} {cs : Option (List (WhereClause N))}

omit [JsNumber N] in
/-- A step restricts a query when what it adds does. -/
theorem Adds.restricts (h : Adds f cs) (hr : E.Restricting cs) : E.Restricts f := by
  have heq := h.addedBy_eq
  exact ⟨heq ▸ h, heq ▸ hr⟩

omit [JsNumber N] in
/-- One restricting step after another. -/
theorem SqlEngine.Restricts.bind (hf : E.Restricts f) (hg : E.Restricts g) :
    E.Restricts fun q => f q >>= g :=
  (hf.1.bind hg.1).restricts (hf.2.append hg.2)

omit [JsNumber N] in
/-- A step that adds one conjunct. -/
theorem Adds.restricts_push {α : Type} (e : Except String α) {w : α → WhereClause N}
    (h : ∀ a, E.IsConjunct (w a)) :
    E.Restricts (fun q => do let a ← e; .ok (q.pushWhere (w a))) :=
  (Adds.push e w).restricts (.one fun a _ => h a)

end

omit [JsNumber N] in
/-- A step that reads something first, that does not depend on the builder. -/
theorem SqlEngine.Restricts.read {α : Type} {e : Except String α} {k : α → QueryStep N}
    (h : ∀ a, e = .ok a → E.Restricts (k a)) :
    E.Restricts (fun q => do let a ← e; k a q) := by
  cases e with
  | error e => exact (Adds.error fun _ => e).restricts nofun
  | ok a => exact h a rfl

omit [JsNumber N] in
/-- A step that leaves the conditions as they are. -/
theorem SqlEngine.Restricts.keep {k : QueryBuilder N → QueryBuilder N}
    (hk : ∀ q, (k q).wheres = q.wheres) : E.Restricts fun q => .ok (k q) :=
  (Adds.keep (.ok ()) (fun q _ => k q) fun q _ => hk q).restricts .nil

omit [JsNumber N] in
/-- The step that changes nothing. -/
theorem SqlEngine.Restricts.ok : E.Restricts (N := N) .ok := Adds.ok.restricts .nil

omit [JsNumber N] in
/-- A restricting step for every item of a list. -/
theorem SqlEngine.Restricts.foldlM {α : Type}
    {f : QueryBuilder N → α → Except String (QueryBuilder N)} {as : List α}
    (h : ∀ a ∈ as, E.Restricts fun q => f q a) : E.Restricts (as.foldlM f) :=
  (Adds.foldlM fun a ha => (h a ha).1).restricts (.collect fun a ha => (h a ha).2)

/-- `where`, with an operator of the builder. -/
theorem restricts_where {column : String} (op : WhereOp) {v : JsVal N} (hv : v ≠ .undefined) :
    E.Restricts (fun q => q.where column (.str op.text) v) := by
  have h : (fun q : QueryBuilder N => q.where column (.str op.text) v) = (fun q => do
      let col ← sanitizeColumn column "QueryBuilder.where" false
      .ok (q.pushWhere (.single col op v .and))) := by
    funext q
    have hargs : whereArgs q (.str op.text) v = .ok (op, v) := by
      cases v <;> first | exact absurd rfl hv | simp [whereArgs, bind, Except.bind]
    unfold QueryBuilder.where
    rw [hargs]
    rfl
  rw [h]
  exact Adds.restricts_push _ fun col => SqlEngine.isConjunct_single col op v

/-- `where`, with a value alone. -/
theorem restricts_where_eq (column : String) (v : JsVal N) :
    E.Restricts (fun q => q.where column v) :=
  Adds.restricts_push (sanitizeColumn column "QueryBuilder.where" false)
    fun col => SqlEngine.isConjunct_single col .eq v

omit [JsNumber N] in
/-- `whereNull`. -/
theorem restricts_whereNull (column : String) : E.Restricts fun q => q.whereNull column :=
  Adds.restricts_push _ fun _ _ => ⟨_, rfl⟩

omit [JsNumber N] in
/-- `whereNotNull`. -/
theorem restricts_whereNotNull (column : String) : E.Restricts fun q => q.whereNotNull column :=
  Adds.restricts_push _ fun _ _ => ⟨_, rfl⟩

/-- `whereIn`. -/
theorem restricts_whereIn (hE : E.ReadsFragments) (column : String) (vs : List (JsVal N)) :
    E.Restricts fun q => q.whereIn column vs := by
  unfold QueryBuilder.whereIn
  split
  · exact Adds.restricts_push _ fun _ => SqlEngine.isConjunct_raw fun r => hE.raw_constant r false
  · simp only [pushIn_eq]
    exact Adds.restricts_push _ fun col => hE.isConjunct_in col .in vs

/-- `whereNotIn`. -/
theorem restricts_whereNotIn (hE : E.ReadsFragments) (column : String) (vs : List (JsVal N)) :
    E.Restricts fun q => q.whereNotIn column vs := by
  unfold QueryBuilder.whereNotIn
  split
  · exact Adds.restricts_push _ fun _ => SqlEngine.isConjunct_raw fun r => hE.raw_constant r true
  · simp only [pushIn_eq]
    exact Adds.restricts_push _ fun col => hE.isConjunct_in col .notIn vs

omit [JsNumber N] in
/-- The parser makes a value for every operator. -/
theorem FilterOperator.ne_undefined_of_fits {op : FilterOperator} {v : JsVal N}
    (h : op.fits v = true) : v ≠ .undefined := by
  rintro rfl
  cases op <;> cases h

omit [JsNumber N] in
/-- The parser makes a pair of values for a range. -/
theorem FilterOperator.item_ne_undefined {v : JsVal N}
    (h : FilterOperator.between.fits v = true) {i : Nat} (hi : i < 2) : v.item i ≠ .undefined := by
  have htext {v : JsVal N} (hv : v.isText = true) : v ≠ .undefined := by
    rintro rfl
    cases hv
  match v, h with
  | .arr [low, high], h =>
    rw [fits, Bool.and_eq_true] at h
    match i, hi with
    | 0, _ => exact htext h.1
    | 1, _ => exact htext h.2

/-- An operator of a filter. -/
theorem restricts_applyOperator (hE : E.ReadsFragments) (field : String) (t : FilterTest N) :
    E.Restricts fun q => applyOperator q field t := by
  obtain ⟨op, v, hfits⟩ := t
  unfold applyOperator
  split
  · exact restricts_where .isNull nofun
  · exact restricts_where .isNotNull nofun
  · exact restricts_where .like nofun
  · exact restricts_where .like nofun
  · exact restricts_where .notLike nofun
  · exact restricts_where .like nofun
  · exact restricts_where .like nofun
  · exact restricts_whereIn hE field _
  · exact restricts_whereNotIn hE field _
  · next hop =>
    -- the parser makes a pair of texts for `_between`
    obtain rfl : op = .between := hop
    have hitem := fun i => FilterOperator.item_ne_undefined (i := i) hfits
    exact (restricts_where .ge (hitem 0 (by omega))).bind
      (restricts_where .le (hitem 1 (by omega)))
  · exact restricts_where .eq nofun
  · exact restricts_where .ne nofun
  · next op _ _ _ _ _ _ _ _ _ _ _ _ =>
    exact restricts_where _ (FilterOperator.ne_undefined_of_fits hfits)

/-- A flat filter. -/
theorem restricts_applyFilter (hE : E.ReadsFragments) (names : List String) (f : FilterClause N) :
    E.Restricts fun q => applyFilter names q f := by
  unfold applyFilter
  split
  · exact restricts_applyOperator hE f.field f.toFilterTest
  · exact (Adds.error _).restricts nofun

/-- What a sort adds: nothing, where its field is known. -/
def sortAdds (names : List String) (s : SortClause) : Option (List (WhereClause N)) :=
  if names.contains s.field then
    (sanitizeColumn s.field "QueryBuilder.orderBy" false).toOption.map fun _ => []
  else none

omit [JsNumber N] in
/-- A sort. -/
theorem adds_applySort (names : List String) (s : SortClause) :
    Adds (fun q : QueryBuilder N => applySort names q s) (sortAdds names s) :=
  Adds.cond (fun _ => Adds.keep _ (fun q col => { q with
    orderBy := q.orderBy ++ [⟨[.text col], s.desc⟩] }) fun _ _ => rfl) fun _ => Adds.error _

/-- What a projection adds: nothing. -/
def fieldsAdd (names fields : List String) : Option (List (WhereClause N)) :=
  let valid := fields.filter fun f =>
    names.contains f || f == "id" || f == "created_at" || f == "updated_at"
  if valid.isEmpty then some []
  else (valid.mapM (sanitizeColumn · "QueryBuilder.select" true)).toOption.map fun _ => []

omit [JsNumber N] in
/-- The projection of a query. -/
theorem adds_applyFields (names fields : List String) :
    Adds (applyFields (N := N) names fields) (fieldsAdd names fields) :=
  Adds.cond (fun _ => Adds.ok) fun _ => Adds.keep _ (fun q cols => { q with columns := cols })
    fun _ _ => rfl

/-- A relation filter. -/
theorem restricts_applyNestedFilter (collections : List (SchemaEntry N))
    (fields : List (FieldDefinition N)) (table : String) (nf : NestedFilterClause N) :
    E.Restricts fun q => applyNestedFilter collections fields table q nf := by
  unfold applyNestedFilter
  split
  · exact (Adds.error _).restricts nofun
  · refine .read fun _ _ => .read fun _ _ => .read fun _ _ => .read fun query _ => ?_
    exact Adds.restricts_push _ fun _ _ => ⟨_, rfl⟩

omit [JsNumber N] in
/-- A relation sort. -/
theorem restricts_applyNestedSort (collections : List (SchemaEntry N))
    (fields : List (FieldDefinition N)) (table : String) (ns : SortClause) :
    E.Restricts fun q => applyNestedSort collections fields table q ns := by
  unfold applyNestedSort
  split
  · exact .ok
  · exact .read fun _ _ => .keep fun _ => rfl

/-- The relation filters and sorts. -/
theorem restricts_applyNestedQueries (collections : List (SchemaEntry N)) (parsed : ParsedQuery N)
    (fields : List (FieldDefinition N)) (table : String) :
    E.Restricts fun q => applyNestedQueries collections q parsed fields table :=
  (SqlEngine.Restricts.foldlM fun nf _ =>
    restricts_applyNestedFilter collections fields table nf).bind
    (SqlEngine.Restricts.foldlM fun ns _ => restricts_applyNestedSort collections fields table ns)

omit [JsNumber N] in
/-- The columns of a search that is applied are its targets. -/
theorem mapM_sanitizeIdentifier {context : String} {cols cols' : List String}
    (h : cols.mapM (sanitizeIdentifier · context) = .ok cols') : cols' = cols := by
  have hname : ∀ c ∈ cols, sanitizeIdentifier c context = .ok (id c) := by
    intro c hc
    obtain ⟨c', hc'⟩ := ok_of_mapM_eq_ok h c hc
    unfold sanitizeIdentifier at hc' ⊢
    split at hc'
    · next hid => rw [if_pos hid]; rfl
    · cases hc'
  rw [mapM_ok hname, List.map_id] at h
  exact (Except.ok.inj h).symm

/-- What a search adds. -/
def searchAdds (names searchFields : List String) (mode : SearchMode) (term : String) :
    Option (List (WhereClause N)) :=
  let targets := searchTargets names searchFields
  if term == "" || targets.isEmpty then some []
  else (targets.mapM (sanitizeIdentifier · "QueryParser.search")).toOption.map fun cols =>
    [.raw (searchFragment cols (searchPattern mode term)) .and]

omit [JsNumber N] in
/-- A search. -/
theorem adds_applySearch (names searchFields : List String) (mode : SearchMode) (term : String) :
    Adds (applySearch (N := N) names searchFields mode term)
      (searchAdds names searchFields mode term) := by
  unfold applySearch searchAdds
  simp only
  split
  · exact Adds.ok
  · exact Adds.push _ fun cols => .raw (searchFragment cols (searchPattern mode term)) .and

/-- What a filter group adds. -/
def groupAdds (names : List String) (g : FilterGroup N) : Option (List (WhereClause N)) :=
  if g.conditions.all fun c => names.contains c.field then
    some (if g.conditions.isEmpty then [] else
      [.group (g.conditions.map fun c => ⟨c.field, (groupTest c.toFilterTest).1,
        (groupTest c.toFilterTest).2, g.type⟩) .and])
  else none

/-- A filter group. -/
theorem adds_applyGroup (names : List String) (g : FilterGroup N) :
    Adds (fun q => applyGroup names q g) (groupAdds names g) := by
  intro q
  unfold applyGroup groupAdds
  split
  · next hknown =>
    have hconditions : g.conditions.mapM (groupCondition names g.type) = .ok (g.conditions.map
        fun c => ⟨c.field, (groupTest c.toFilterTest).1.text, (groupTest c.toFilterTest).2,
          some g.type⟩) := by
      refine mapM_ok fun c hc => ?_
      simp only [groupCondition, List.all_eq_true.1 hknown c hc, if_true]
    have hclauses (l : List (FilterClause N)) : (l.map fun c => (⟨c.field,
        (groupTest c.toFilterTest).1.text, (groupTest c.toFilterTest).2, some g.type⟩ :
          GroupInput N)).mapM (groupClause q.table .and) = .ok (l.map fun c => ⟨c.field,
            (groupTest c.toFilterTest).1, (groupTest c.toFilterTest).2, g.type⟩) := by
      rw [mapM_ok (g := fun c => ⟨c.column, (WhereOp.ofText c.op).getD .eq, c.value,
        c.type.getD .and⟩), List.map_map]
      · simp [Function.comp_def]
      · intro c hc
        obtain ⟨d, -, rfl⟩ := List.mem_map.1 hc
        simp [groupClause, bind, Except.bind]
    simp only [bind, Except.bind, hconditions, QueryBuilder.whereGroup, List.isEmpty_map, hclauses]
    split
    · simp [Except.toOption]
    · simp [Except.toOption, QueryBuilder.pushWhere]
  · next hknown =>
    cases hconditions : g.conditions.mapM (groupCondition names g.type) with
    | error e => rfl
    | ok clauses =>
      refine absurd (List.all_eq_true.2 fun c hc => ?_) hknown
      obtain ⟨d, hd⟩ := ok_of_mapM_eq_ok hconditions c hc
      unfold groupCondition at hd
      split at hd
      · assumption
      · cases hd

/-- What a function filter adds. -/
def functionAdds (names : List String) (ff : FunctionFilter N) : Option (List (WhereClause N)) :=
  if functionFieldKnown names ff then
    (functionExpr ff).toOption.map fun expr =>
      (expr.elim [] fun e => functionFragments e ff.toFilterTest).map (.raw · .and)
  else some []

/-- A function filter. -/
theorem adds_applyFunctionFilter (names : List String) (ff : FunctionFilter N) :
    Adds (fun q => applyFunctionFilter names q ff) (functionAdds names ff) := by
  have hfold (fs : List (SqlStatement N)) (q : QueryBuilder N) :
      (fs.foldl (fun q s => q.whereRaw s.sql s.bindings) q).wheres
        = q.wheres ++ fs.map (.raw · .and) := by
    induction fs generalizing q with
    | nil => simp
    | cons s fs ih =>
      rw [List.foldl_cons, ih]
      simp [QueryBuilder.whereRaw, QueryBuilder.pushRaw, QueryBuilder.pushWhere]
  intro q
  unfold applyFunctionFilter functionAdds
  split
  · cases functionExpr ff with
    | error e => rfl
    | ok expr =>
      cases expr with
      | none => exact congrArg some (List.append_nil _).symm
      | some e => exact congrArg some (hfold (functionFragments e ff.toFilterTest) q)
  · exact congrArg some (List.append_nil _).symm

end

end HeadlessErp
