import HeadlessErp.Base.Except
import HeadlessErp.Query.Builder

/-!
# Placeholders and bindings

What SQLite binds to the placeholders of a statement of the query builder. A plain `?` is one more
than the largest parameter before it (`SqlText.params`). After any calls on a builder the statements
it emits have the parameters `1, 2, …` from left to right, as many as there are bindings
(`sequential_of_emits`), where raw text has as many placeholders as values, none in a literal, and a
query that is embedded has no values in its raw expressions.
-/

namespace HeadlessErp

variable {N : Type}

/-! ## Parameters -/

/-- The parameters that a text has, behind a largest one. -/
def params : Nat → SqlText → List Nat
  | _, [] => []
  | top, .mark (some n) :: t => n :: params (max top n) t
  | top, .mark none :: t => (top + 1) :: params (top + 1) t
  | top, .text _ :: t | top, .quoted _ :: t => params top t

/-- The parameters of the statement are those of its bindings, in their order. -/
def SqlStatement.Sequential (s : SqlStatement N) : Prop :=
  params 0 s.sql = List.range' 1 s.bindings.length

/-- The placeholders of a text, and what has their spelling in a literal. -/
def SqlText.marks (t : SqlText) : SqlText := t.filter SqlPiece.isAnyMark

/-- Numbered placeholders from a number on. -/
def numbered (idx n : Nat) : SqlText := (List.range' idx n).map fun i => .mark (some i)

/-- Plain placeholders. -/
def plain (n : Nat) : SqlText := List.replicate n (.mark none)

theorem params_marks (top : Nat) (t : SqlText) : params top t.marks = params top t := by
  induction t generalizing top with
  | nil => rfl
  | cons p t ih =>
    cases p with
    | text s => exact ih top
    | mark n => cases n with
      | none => exact congrArg (List.cons _) (ih _)
      | some n => exact congrArg (List.cons _) (ih _)
    | quoted n => exact ih top

/-- Placeholders that are plain, or that have the next number. -/
theorem params_next {f : Nat → Option Nat} (hf : ∀ i, f i = none ∨ f i = some i) (top n : Nat)
    (t : SqlText) : params top ((List.range' (top + 1) n).map (fun i => .mark (f i)) ++ t) =
      List.range' (top + 1) n ++ params (top + n) t := by
  induction n generalizing top with
  | zero => rfl
  | succ n ih =>
    have hhead (u : SqlText) : params top (.mark (f (top + 1)) :: u) =
        (top + 1) :: params (top + 1) u := by
      obtain hnone | hsome := hf (top + 1)
      · rw [hnone, params]
      · rw [hsome, params, Nat.max_eq_right (Nat.le_succ top)]
    rw [List.range'_succ, List.map_cons, List.cons_append, hhead, ih, List.cons_append,
      Nat.add_right_comm top 1 n, Nat.add_assoc top n 1]

theorem params_numbered (top n : Nat) (t : SqlText) :
    params top (numbered (top + 1) n ++ t) = List.range' (top + 1) n ++ params (top + n) t :=
  params_next (fun _ => .inr rfl) top n t

theorem params_plain (top n : Nat) (t : SqlText) :
    params top (plain n ++ t) = List.range' (top + 1) n ++ params (top + n) t := by
  rw [← params_next (fun _ => .inl rfl), List.map_const', List.length_range']
  rfl

theorem numbered_append (idx n m : Nat) :
    numbered idx n ++ numbered (idx + n) m = numbered idx (n + m) := by
  rw [numbered, numbered, numbered, ← List.map_append, List.range'_append_1]

/-! ## Texts -/

@[simp] theorem marks_nil : SqlText.marks [] = [] := rfl

@[simp] theorem marks_text (s : String) (t : SqlText) :
    SqlText.marks (.text s :: t) = t.marks := rfl

@[simp] theorem marks_mark (n : Option Nat) (t : SqlText) :
    SqlText.marks (.mark n :: t) = .mark n :: t.marks := rfl

@[simp] theorem marks_append (t u : SqlText) : SqlText.marks (t ++ u) = t.marks ++ u.marks :=
  List.filter_append t u

@[simp] theorem marks_join (sep : String) : ∀ ts : List SqlText,
    (SqlText.join sep ts).marks = ts.flatMap SqlText.marks
  | [] => rfl
  | [t] => (List.append_nil _).symm
  | t :: u :: ts => by
    calc (SqlText.join sep (t :: u :: ts)).marks
      _ = SqlText.marks (t ++ .text sep :: SqlText.join sep (u :: ts)) := rfl
      _ = t.marks ++ (u :: ts).flatMap SqlText.marks := by
        rw [marks_append, marks_text, marks_join sep (u :: ts)]

theorem marks_flatMap {α : Type} (f : α → SqlText) (l : List α) :
    SqlText.marks (l.flatMap f) = l.flatMap fun a => (f a).marks := List.filter_flatMap

/-- A renumbering that matches the placeholders numbers them from its counter on. -/
theorem renumber_marks {matched : SqlPiece → Bool} (htext : ∀ s, matched (.text s) = false)
    {t : SqlText} {ns : List (Option Nat)} (ht : t.marks = ns.map .mark)
    (hmatched : ∀ n ∈ ns, matched (.mark n) = true) (idx : Nat) :
    (SqlText.renumber matched idx t).1.marks = numbered idx ns.length ∧
      (SqlText.renumber matched idx t).2 = idx + ns.length := by
  induction t generalizing idx ns with
  | nil =>
    obtain rfl := List.map_eq_nil_iff.1 ht.symm
    exact ⟨rfl, rfl⟩
  | cons p t ih =>
    cases p with
    | text s =>
      rw [SqlText.renumber, htext s]
      exact ih ht hmatched idx
    | mark n =>
      cases ns with
      | nil => cases ht
      | cons m ns =>
        obtain ⟨hhead, htail⟩ := List.cons.inj ht
        cases hhead
        obtain ⟨hmarks, hnext⟩ :=
          ih htail (fun m hm => hmatched m (List.mem_cons_of_mem n hm)) (idx + 1)
        rw [SqlText.renumber, hmatched n List.mem_cons_self, List.length_cons, numbered,
          List.range'_succ]
        exact ⟨congrArg _ hmarks, hnext.trans (by omega)⟩
    | quoted n =>
      cases ns with
      | nil => cases ht
      | cons m ns => cases ht

/-! ## Clauses -/

/-- A rendered text that takes the parameters from a number on. -/
structure Rendered.Numbered (idx : Nat) (r : Rendered N) : Prop where
  marks : r.sql.marks = numbered idx r.bindings.length
  next : r.nextIdx = idx + r.bindings.length

/-- Raw text has a placeholder for each of its values, and none in a literal. -/
def SqlStatement.FitsRaw (s : SqlStatement N) : Prop :=
  ∃ ns : List (Option Nat), s.sql.marks = ns.map .mark ∧ ns.length = s.bindings.length

/-- A statement whose placeholders are numbered, one for each of its values. -/
def SqlStatement.Embeds (s : SqlStatement N) : Prop :=
  s.sql.marks = numbered 1 s.bindings.length

theorem numbered_buildRaw {s : SqlStatement N} (h : s.FitsRaw) (idx : Nat) :
    (buildRaw s idx).Numbered idx := by
  obtain ⟨ns, hmarks, hlength⟩ := h
  have hmatched : ∀ n ∈ ns, SqlPiece.isAnyMark (.mark n) = true := fun _ _ => rfl
  obtain ⟨hmarks, hnext⟩ := renumber_marks (fun _ => rfl) hmarks hmatched idx
  rw [hlength] at hmarks hnext
  exact ⟨hmarks, hnext⟩

theorem numbered_buildEmbedded {s : SqlStatement N} (h : s.Embeds) (idx : Nat) :
    (buildEmbedded s idx).Numbered idx := by
  have hmarks : s.sql.marks = ((List.range' 1 s.bindings.length).map some).map .mark := by
    rw [h, numbered, List.map_map]
    rfl
  have hmatched : ∀ n ∈ (List.range' 1 s.bindings.length).map some,
      SqlPiece.isNumbered (.mark n) = true := by
    intro n hn
    obtain ⟨i, -, rfl⟩ := List.mem_map.1 hn
    rfl
  obtain ⟨hmarks, hnext⟩ := renumber_marks (fun _ => rfl) hmarks hmatched idx
  rw [List.length_map, List.length_range'] at hmarks hnext
  exact ⟨hmarks, hnext⟩

theorem Rendered.Numbered.wrap {idx : Nat} {r : Rendered N} (h : r.Numbered idx)
    (before after : String) : (r.wrap before after).Numbered idx :=
  ⟨by simp [Rendered.wrap, h.marks], h.next⟩

theorem flatMap_placeholders (idx n : Nat) :
    (placeholders idx n).flatMap SqlText.marks = numbered idx n := by
  rw [placeholders, List.flatMap_map, numbered, List.map_eq_flatMap]
  rfl

theorem numbered_buildCondition {column : String} {op : WhereOp} {value : JsVal N} {idx : Nat}
    {r : Rendered N} (h : buildCondition column op value idx = .ok r) : r.Numbered idx := by
  have hone (text : String) (v : JsVal N) :
      (⟨[.text text, .mark (some idx)], [v], idx + 1⟩ : Rendered N).Numbered idx :=
    ⟨rfl, rfl⟩
  have hnone (text : String) : (⟨[.text text], [], idx⟩ : Rendered N).Numbered idx := ⟨rfl, rfl⟩
  unfold buildCondition at h
  split at h
  · cases h
  · cases op with
    | «in» | notIn =>
      cases value with
      | arr xs =>
        cases h
        exact ⟨by simp [flatMap_placeholders], rfl⟩
      | _ => cases h
    | isNull | isNotNull =>
      cases h
      exact hnone _
    | between =>
      obtain ⟨low, -, h⟩ := exists_of_bind_eq_ok h
      obtain ⟨high, -, h⟩ := exists_of_bind_eq_ok h
      cases h
      exact ⟨rfl, rfl⟩
    | _ =>
      cases h
      exact hone _ _

/-- Items that render to texts with the next parameters render together so. -/
theorem numbered_renderAll {α : Type} {f : α → Nat → Except String (Rendered N)} {as : List α}
    (hf : ∀ a ∈ as, ∀ idx r, f a idx = .ok r → r.Numbered idx) {idx next : Nat}
    {ts : List SqlText} {bs : List (JsVal N)} (h : renderAll f as idx = .ok (ts, bs, next)) :
    ts.flatMap SqlText.marks = numbered idx bs.length ∧ next = idx + bs.length ∧
      as.length = ts.length := by
  induction as generalizing idx ts bs with
  | nil =>
    cases h
    exact ⟨rfl, rfl, rfl⟩
  | cons a as ih =>
    obtain ⟨r, hr, h⟩ := exists_of_bind_eq_ok h
    obtain ⟨⟨us, cs, last⟩, htail, h⟩ := exists_of_bind_eq_ok h
    cases h
    have hhead := hf a List.mem_cons_self idx r hr
    obtain ⟨hmarks, hnext, hlength⟩ :=
      ih (fun b hb => hf b (List.mem_cons_of_mem a hb)) htail
    rw [hhead.next] at hmarks hnext
    refine ⟨?_, ?_, congrArg _ hlength⟩
    · rw [List.flatMap_cons, hhead.marks, hmarks, List.length_append, numbered_append]
    · rw [hnext, List.length_append, Nat.add_assoc]

theorem marks_joinClauses : ∀ cs : List (Joiner × SqlText),
    (joinClauses cs).marks = (cs.map Prod.snd).flatMap SqlText.marks
  | [] => rfl
  | (j, t) :: cs => by
    rw [joinClauses, marks_append, marks_flatMap, List.map_cons, List.flatMap_cons,
      List.flatMap_map]
    rfl

/-- Clauses with their joiners, between two texts. -/
theorem numbered_joined {α : Type} {f : α → Nat → Except String (Rendered N)}
    (joiner : α → Joiner) {as : List α}
    (hf : ∀ a ∈ as, ∀ idx r, f a idx = .ok r → r.Numbered idx) {idx next : Nat}
    {ts : List SqlText} {bs : List (JsVal N)} (h : renderAll f as idx = .ok (ts, bs, next)) :
    (⟨joinClauses ((as.map joiner).zip ts), bs, next⟩ : Rendered N).Numbered idx := by
  obtain ⟨hmarks, hnext, hlength⟩ := numbered_renderAll hf h
  have hzip : ((as.map joiner).zip ts).map Prod.snd = ts :=
    List.map_snd_zip (Nat.le_of_eq (by rw [List.length_map, hlength]))
  exact ⟨by rw [marks_joinClauses, hzip, hmarks], hnext⟩

/-- What a clause of a query holds: raw text that fits, or a query that can be embedded. -/
def WhereClause.Fits : WhereClause N → Prop
  | .single _ _ _ _ | .group _ _ => True
  | .inQuery _ _ query _ | .existsQuery _ query _ => query.Embeds
  | .raw fragment _ => fragment.FitsRaw

theorem numbered_buildClause {w : WhereClause N} (hw : w.Fits) {idx : Nat} {r : Rendered N}
    (h : buildClause w idx = .ok r) : r.Numbered idx := by
  cases w with
  | single column op value type => exact numbered_buildCondition h
  | group clauses type =>
    obtain ⟨⟨ts, bs, next⟩, hall, h⟩ := exists_of_bind_eq_ok h
    cases h
    have hjoined := numbered_joined GroupClause.type
      (fun _ _ _ _ hg => numbered_buildCondition hg) hall
    exact hjoined.wrap "(" ")"
  | inQuery column negated query type =>
    cases h
    exact (numbered_buildEmbedded hw idx).wrap _ _
  | existsQuery negated query type =>
    cases h
    exact (numbered_buildEmbedded hw idx).wrap _ _
  | raw fragment type =>
    cases h
    exact numbered_buildRaw hw idx

theorem numbered_buildWhere {wheres : List (WhereClause N)} (hw : ∀ w ∈ wheres, w.Fits) {idx : Nat}
    {r : Rendered N} (h : buildWhere wheres idx = .ok r) : r.Numbered idx := by
  obtain ⟨⟨ts, bs, next⟩, hall, h⟩ := exists_of_bind_eq_ok h
  cases wheres with
  | nil =>
    cases h
    exact ⟨rfl, rfl⟩
  | cons w wheres =>
    cases h
    have hjoined := numbered_joined WhereClause.type
      (fun w hmem _ _ hr => numbered_buildClause (hw w hmem) hr) hall
    exact ⟨hjoined.marks, hjoined.next⟩

/-- What a join holds. -/
def JoinClause.Fits : JoinClause N → Prop
  | .table _ _ _ _ => True
  | .raw fragment => fragment.FitsRaw

theorem numbered_buildJoins {joins : List (JoinClause N)} (hj : ∀ j ∈ joins, j.Fits) {idx : Nat}
    {r : Rendered N} (h : buildJoins joins idx = .ok r) : r.Numbered idx := by
  have hone (j : JoinClause N) (hmem : j ∈ joins) (idx : Nat) (r : Rendered N)
      (hr : buildJoin j idx = .ok r) : r.Numbered idx := by
    have hfits := hj j hmem
    cases j with
    | table left table first second =>
      cases hr
      exact ⟨rfl, rfl⟩
    | raw fragment =>
      cases hr
      exact numbered_buildRaw hfits idx
  obtain ⟨⟨ts, bs, next⟩, hall, h⟩ := exists_of_bind_eq_ok h
  cases h
  obtain ⟨hmarks, hnext, -⟩ := numbered_renderAll hone hall
  exact ⟨(marks_flatMap _ ts).trans hmarks, hnext⟩

theorem numbered_renderCTE {ctes : List (Cte N)} (hc : ∀ c ∈ ctes, c.query.Embeds)
    {r : Rendered N} (h : renderCTE ctes = .ok r) : r.Numbered 1 := by
  obtain ⟨⟨ts, bs, next⟩, hall, h⟩ := exists_of_bind_eq_ok h
  obtain ⟨hmarks, hnext, -⟩ := numbered_renderAll (fun c hmem idx r hr => by
    cases hr
    exact (numbered_buildEmbedded (hc c hmem) idx).wrap _ _) hall
  cases ctes with
  | nil =>
    cases h
    exact ⟨rfl, rfl⟩
  | cons c ctes =>
    cases h
    exact ⟨by simp [hmarks], hnext⟩

/-! ## Statements -/

/-- What a builder holds: clauses, joins and definitions that fit, plain placeholders in the raw
expressions, one for each of their values, and none in its orders and windows. -/
structure QueryBuilder.Fits (q : QueryBuilder N) : Prop where
  wheres : ∀ w ∈ q.wheres, w.Fits
  joins : ∀ j ∈ q.joins, j.Fits
  ctes : ∀ c ∈ q.ctes, c.query.Embeds
  raws : q.rawSelects.flatMap SqlText.marks = plain q.rawBindings.length
  orderBy : ∀ o ∈ q.orderBy, o.column.marks = []
  windows : ∀ w ∈ q.windows, w.2.marks = []

theorem flatMap_zipIdx {α : Type} (l : List α) (idx k : Nat) :
    ((l.zipIdx k).flatMap fun p => [SqlPiece.mark (some (idx + p.2))]) =
      numbered (idx + k) l.length := by
  induction l generalizing k with
  | nil => rfl
  | cons a l ih =>
    rw [List.zipIdx_cons, List.flatMap_cons, ih, List.length_cons, numbered, numbered,
      List.range'_succ]
    rfl

/-- Texts with one parameter each. -/
theorem marks_zipIdx {α : Type} {f : α × Nat → SqlText} {k : Nat}
    (hf : ∀ a i, (f (a, i)).marks = [.mark (some (k + i))]) (l : List α) :
    l.zipIdx.flatMap (fun p => (f p).marks) = numbered k l.length := by
  rw [← Nat.add_zero k, ← flatMap_zipIdx l k 0]
  exact congrArg (List.flatMap · l.zipIdx) (funext fun p => hf p.1 p.2)

/-- Texts without parameters. -/
theorem marks_map_nil {α : Type} {f : α → SqlText} {l : List α} (hf : ∀ a ∈ l, (f a).marks = []) :
    (l.map f).flatMap SqlText.marks = [] := by
  rw [List.flatMap_map]
  exact List.flatMap_eq_nil_iff.2 hf

/-- A part of a statement that is left out where there is nothing to write. -/
theorem marks_part (head sep : String) (ts : List SqlText) :
    SqlText.marks (if ts.isEmpty then [] else .text head :: SqlText.join sep ts) =
      ts.flatMap SqlText.marks := by
  cases ts with
  | nil => rfl
  | cons t ts => exact (marks_text _ _).trans (marks_join sep _)

theorem params_sequential (c r m : Nat) :
    params 0 (numbered 1 c ++ (plain r ++ numbered (c + r + 1) m)) =
      List.range' 1 (c + r + m) := by
  have hfirst := params_numbered 0 c (plain r ++ numbered (c + r + 1) m)
  have hlast := params_numbered (c + r) m []
  rw [List.append_nil, params, List.append_nil] at hlast
  rw [Nat.zero_add, Nat.zero_add, params_plain, hlast] at hfirst
  have hright : List.range' (c + 1) r ++ List.range' (c + r + 1) m =
      List.range' (c + 1) (r + m) := by
    rw [Nat.add_right_comm, List.range'_append_1]
  rw [hfirst, hright, Nat.add_comm c 1, List.range'_append_1, Nat.add_assoc]

section
variable [JsNumber N] {q : QueryBuilder N} {s : SqlStatement N}

/-- The placeholders of `toSelect`: those of the definitions, the plain ones of the raw expressions,
and those of the rest. -/
theorem marks_toSelect (hq : q.Fits) (h : q.toSelect = .ok s) : ∃ c m,
    s.sql.marks = numbered 1 c ++
      (plain q.rawBindings.length ++ numbered (c + q.rawBindings.length + 1) m) ∧
    s.bindings.length = c + q.rawBindings.length + m := by
  obtain ⟨cte, hcte, h⟩ := exists_of_bind_eq_ok h
  obtain ⟨joins, hjoins, h⟩ := exists_of_bind_eq_ok h
  obtain ⟨cond, hcond, h⟩ := exists_of_bind_eq_ok h
  cases h
  have hc := numbered_renderCTE hq.ctes hcte
  have hj := numbered_buildJoins hq.joins hjoins
  have hw := numbered_buildWhere hq.wheres hcond
  have hidx : selectIdx cte q.rawBindings = cte.bindings.length + q.rawBindings.length + 1 := by
    unfold selectIdx
    cases hraw : q.rawBindings with
    | nil => exact hc.next.trans (Nat.add_comm _ _)
    | cons v vs => simp
  have hcolumns : (q.columns.map (fun c => [SqlPiece.text c]) ++ q.rawSelects).flatMap
      SqlText.marks = plain q.rawBindings.length := by
    rw [List.flatMap_append, marks_map_nil (fun _ _ => rfl), hq.raws, List.nil_append]
  have hgroup : SqlText.marks (if q.groupBy.isEmpty then []
      else [.text (" GROUP BY " ++ ", ".intercalate q.groupBy)]) = [] := by
    split <;> rfl
  have hhavings (idx : Nat) : SqlText.marks (if q.havings.isEmpty then []
      else .text " HAVING " :: havingText q.havings idx) = numbered idx q.havings.length := by
    refine Eq.trans ?_ (flatMap_zipIdx q.havings idx 0)
    cases q.havings with
    | nil => rfl
    | cons h hs =>
      change (SqlText.join " AND " _).marks = _
      rw [marks_join, List.flatMap_map]
      rfl
  refine ⟨cte.bindings.length,
    joins.bindings.length + cond.bindings.length + q.havings.length + q.window?.length, ?_, ?_⟩
  · simp only [marks_append, marks_text, marks_join, marks_part, hc.marks, hj.marks, hw.marks,
      hcolumns, hgroup, hhavings, hidx, hj.next]
    rw [marks_map_nil (l := q.windows) fun w hw => by simp [hq.windows w hw],
      marks_map_nil (l := q.orderBy) fun o ho => by simp [hq.orderBy o ho],
      marks_flatMap, marks_zipIdx fun _ _ => rfl]
    have hlength : (cte.bindings ++ q.rawBindings ++ joins.bindings ++ cond.bindings).length + 1 =
        cte.bindings.length + q.rawBindings.length + 1 +
          (joins.bindings.length + cond.bindings.length) := by
      simp only [List.length_append]
      omega
    rw [hlength, Nat.add_assoc _ _ q.havings.length, ← numbered_append, ← numbered_append,
      ← numbered_append]
    simp only [List.append_assoc, List.append_nil]
  · simp only [List.length_append, List.length_map]
    omega

theorem sequential_toSelect (hq : q.Fits) (h : q.toSelect = .ok s) : s.Sequential := by
  obtain ⟨c, m, hmarks, hlength⟩ := marks_toSelect hq h
  rw [SqlStatement.Sequential, ← params_marks, hmarks, hlength, params_sequential]

/-- The statement of a builder without raw values can be embedded. -/
theorem embeds_toSelect (hq : q.Fits) (hraw : q.rawBindings = []) (h : q.toSelect = .ok s) :
    s.Embeds := by
  obtain ⟨c, m, hmarks, hlength⟩ := marks_toSelect hq h
  rw [hraw] at hmarks hlength
  rw [SqlStatement.Embeds, hmarks, hlength, ← numbered_append, Nat.add_comm 1]
  rfl

end

section
variable {q : QueryBuilder N} {s : SqlStatement N} {data : List (String × JsVal N)}

theorem sequential_of_numbered {s : SqlStatement N}
    (h : s.sql.marks = numbered 1 s.bindings.length) : s.Sequential := by
  have hparams := params_numbered 0 s.bindings.length []
  rw [SqlStatement.Sequential, ← params_marks, h]
  simpa [params] using hparams

theorem sequential_toCount (hq : q.Fits) (h : q.toCount = .ok s) : s.Sequential := by
  obtain ⟨cte, hcte, h⟩ := exists_of_bind_eq_ok h
  obtain ⟨joins, hjoins, h⟩ := exists_of_bind_eq_ok h
  obtain ⟨cond, hcond, h⟩ := exists_of_bind_eq_ok h
  cases h
  have hc := numbered_renderCTE hq.ctes hcte
  have hj := numbered_buildJoins hq.joins hjoins
  have hw := numbered_buildWhere hq.wheres hcond
  refine sequential_of_numbered ?_
  simp [hc.marks, hj.marks, hw.marks, hj.next, hc.next, numbered_append]

theorem sequential_toDelete (hq : q.Fits) (h : q.toDelete = .ok s) : s.Sequential := by
  obtain ⟨cte, hcte, h⟩ := exists_of_bind_eq_ok h
  obtain ⟨cond, hcond, h⟩ := exists_of_bind_eq_ok h
  cases h
  have hc := numbered_renderCTE hq.ctes hcte
  have hw := numbered_buildWhere hq.wheres hcond
  refine sequential_of_numbered ?_
  simp [hc.marks, hw.marks, hc.next, numbered_append]

theorem sequential_toUpdate (hq : q.Fits) (h : q.toUpdate data = .ok s) : s.Sequential := by
  unfold QueryBuilder.toUpdate at h
  split at h
  · cases h
  obtain ⟨cte, hcte, h⟩ := exists_of_bind_eq_ok h
  obtain ⟨columns, hcolumns, h⟩ := exists_of_bind_eq_ok h
  obtain ⟨cond, hcond, h⟩ := exists_of_bind_eq_ok h
  cases h
  have hc := numbered_renderCTE hq.ctes hcte
  have hw := numbered_buildWhere hq.wheres hcond
  refine sequential_of_numbered ?_
  have hlength := length_of_mapM_eq_ok hcolumns
  simp only [marks_append, marks_text, marks_join, hc.marks, hw.marks, marks_nil, List.append_nil,
    List.append_assoc]
  rw [List.flatMap_map, marks_zipIdx fun _ _ => rfl]
  simp [hc.next, hlength, numbered_append]

theorem sequential_toInsert (hq : q.Fits) (h : q.toInsert data = .ok s) : s.Sequential := by
  unfold QueryBuilder.toInsert at h
  split at h
  · cases h
  obtain ⟨cte, hcte, h⟩ := exists_of_bind_eq_ok h
  obtain ⟨columns, hcolumns, h⟩ := exists_of_bind_eq_ok h
  cases h
  have hc := numbered_renderCTE hq.ctes hcte
  refine sequential_of_numbered ?_
  simp [hc.marks, hc.next, flatMap_placeholders, length_of_mapM_eq_ok hcolumns, numbered_append]

theorem flatMap_rows {α : Type} (rows : List α) (idx width k : Nat) :
    ((rows.zipIdx k).flatMap fun p => numbered (idx + p.2 * width) width) =
      numbered (idx + k * width) (rows.length * width) := by
  induction rows generalizing k with
  | nil => rw [List.length_nil, Nat.zero_mul]; rfl
  | cons row rows ih =>
    have hnext : idx + (k + 1) * width = idx + k * width + width := by
      rw [Nat.succ_mul, Nat.add_assoc]
    rw [List.zipIdx_cons, List.flatMap_cons, ih, hnext, numbered_append, List.length_cons,
      Nat.succ_mul, Nat.add_comm width]

/-- The rows of `toInsertMany`, each with as many placeholders as there are columns. -/
theorem marks_rows {α : Type} {f : α × Nat → SqlText} {k width : Nat}
    (hf : ∀ a i, (f (a, i)).marks = numbered (k + i * width) width) (rows : List α) :
    rows.zipIdx.flatMap (fun p => (f p).marks) = numbered k (rows.length * width) := by
  have hrows := flatMap_rows rows k width 0
  rw [Nat.zero_mul, Nat.add_zero] at hrows
  exact (congrArg (List.flatMap · rows.zipIdx) (funext fun p => hf p.1 p.2)).trans hrows

theorem sequential_toInsertMany {rows : List (List (String × JsVal N))} (hq : q.Fits)
    (h : q.toInsertMany rows = .ok s) : s.Sequential := by
  unfold QueryBuilder.toInsertMany at h
  simp only at h
  split at h
  · cases h
  split at h
  · cases h
  obtain ⟨-, -, h⟩ := exists_of_bind_eq_ok h
  obtain ⟨cte, hcte, h⟩ := exists_of_bind_eq_ok h
  obtain ⟨safe, hsafe, h⟩ := exists_of_bind_eq_ok h
  cases h
  have hc := numbered_renderCTE hq.ctes hcte
  have hlength (columns : List String) : (rows.flatMap fun row =>
      columns.map (rowValue row)).length = rows.length * columns.length := by
    simp [List.map_const', List.sum_replicate_nat]
  refine sequential_of_numbered ?_
  simp only [marks_append, marks_text, marks_join, hc.marks, marks_nil, List.append_nil]
  have hrow (width i : Nat) : SqlText.marks (.text "(" ::
      SqlText.join ", " (placeholders (cte.nextIdx + i * width) width) ++ [.text ")"]) =
      numbered (cte.nextIdx + i * width) width := by
    simp [flatMap_placeholders]
  rw [List.flatMap_map, marks_rows fun _ i => hrow _ i, hc.next, numbered_append,
    List.length_append, hlength]

/-- The branches of a union, renumbered one after the other. -/
theorem marks_unionBranches {ss : List (SqlStatement N)} (h : ∀ s ∈ ss, s.Embeds) (bound : Nat) :
    (unionBranches ss bound).1.flatMap SqlText.marks =
      numbered (bound + 1) (unionBranches ss bound).2.length := by
  induction ss generalizing bound with
  | nil => rfl
  | cons s ss ih =>
    have hhead := numbered_buildEmbedded (h s List.mem_cons_self) (bound + 1)
    have htail := ih (fun s' hs' => h s' (List.mem_cons_of_mem s hs')) (bound + s.bindings.length)
    rw [Nat.add_right_comm] at htail
    change (buildEmbedded s (bound + 1)).sql.marks ++ (unionBranches ss _).1.flatMap _ =
      numbered _ (s.bindings ++ (unionBranches ss _).2).length
    rw [hhead.marks, htail, List.length_append]
    exact numbered_append _ _ _

end

/-! ## Calls -/

section
variable [JsNumber N]

/-- A call on a builder and what it returns. Raw text fits; the expressions of `selectRawWith` have
plain placeholders, and those of `orderByRaw` and `window` none. -/
inductive QueryBuilder.Call (q : QueryBuilder N) : Except String (QueryBuilder N) → Prop where
  | where (column : String) (opOrValue maybeValue : JsVal N) :
    Call q (q.where column opOrValue maybeValue)
  | orWhere (column : String) (opOrValue maybeValue : JsVal N) :
    Call q (q.orWhere column opOrValue maybeValue)
  | whereIn (column : String) (values : List (JsVal N)) : Call q (q.whereIn column values)
  | orWhereIn (column : String) (values : List (JsVal N)) : Call q (q.orWhereIn column values)
  | whereNotIn (column : String) (values : List (JsVal N)) : Call q (q.whereNotIn column values)
  | orWhereNotIn (column : String) (values : List (JsVal N)) : Call q (q.orWhereNotIn column values)
  | whereNull (column : String) : Call q (q.whereNull column)
  | orWhereNull (column : String) : Call q (q.orWhereNull column)
  | whereNotNull (column : String) : Call q (q.whereNotNull column)
  | orWhereNotNull (column : String) : Call q (q.orWhereNotNull column)
  | whereBetween (column : String) (low high : JsVal N) : Call q (q.whereBetween column low high)
  | whereNotBetween (column : String) (low high : JsVal N) :
    Call q (q.whereNotBetween column low high)
  | whereGroup (clauses : List (GroupInput N)) (type : Joiner) : Call q (q.whereGroup clauses type)
  | whereRaw {s : SqlStatement N} : s.FitsRaw → Call q (.ok (q.whereRaw s.sql s.bindings))
  | orWhereRaw {s : SqlStatement N} : s.FitsRaw → Call q (.ok (q.orWhereRaw s.sql s.bindings))
  | join (left : Bool) (table first second : String) (asName : Option String) :
    Call q (q.join left table first second asName)
  | joinRaw {s : SqlStatement N} : s.FitsRaw → Call q (.ok (q.joinRaw s.sql s.bindings))
  | select (columns : List String) : Call q (q.select columns)
  | selectRawWith {s : SqlStatement N} (asName : Option String) :
    s.sql.marks = plain s.bindings.length →
    Call q (.ok (q.selectRawWith s.sql s.bindings asName))
  | selectFn (name : String) (args : List (JsVal N)) : Call q (.ok (q.selectFn name args))
  | groupBy (cols : List String) : Call q (q.setGroupBy cols)
  | having (col op : String) (val : JsVal N) : Call q (q.having col op val)
  | window (name : String) {definition : SqlText} :
    definition.marks = [] → Call q (q.window name definition)
  | orderBy (column : String) (desc : Bool) : Call q (q.addOrderBy column desc)
  | orderByRaw {expression : SqlText} (desc : Bool) :
    expression.marks = [] → Call q (.ok (q.orderByRaw expression desc))
  | clearOrderBy : Call q (.ok q.clearOrderBy)
  | limit (n : Int) : Call q (q.setLimit n)
  | offset (n : Int) : Call q (q.setOffset n)
  | distinct : Call q (.ok { q with distinct := true })
  | returning (enabled : Bool) : Call q (.ok { q with returning := enabled })
  | onConflict (columns : List String) (update : Bool) : Call q (q.onConflict columns update)

/-- The builders that calls lead to. A query that is embedded is built so itself, and has no values
in its raw expressions. -/
inductive QueryBuilder.Built : QueryBuilder N → Prop where
  | from {table : String} {q : QueryBuilder N} : QueryBuilder.from table = .ok q → Built q
  | call {q q' : QueryBuilder N} : Built q → q.Call (.ok q') → Built q'
  | with {q q' sub : QueryBuilder N} {recursive : Bool} {name : String} : Built q → Built sub →
    sub.rawBindings = [] → q.with recursive name sub = .ok q' → Built q'
  | whereInSubquery {q q' sub : QueryBuilder N} {column : String} {negated : Bool} : Built q →
    Built sub → sub.rawBindings = [] → q.whereInSubquery column negated sub = .ok q' → Built q'
  | whereExists {q q' sub : QueryBuilder N} {negated : Bool} {type : Joiner} : Built q →
    Built sub → sub.rawBindings = [] → q.whereExists negated type sub = .ok q' → Built q'

/-- The statements of builders. -/
inductive QueryBuilder.Emits : SqlStatement N → Prop where
  | select {q : QueryBuilder N} {s : SqlStatement N} : q.Built → q.toSelect = .ok s → Emits s
  | count {q : QueryBuilder N} {s : SqlStatement N} : q.Built → q.toCount = .ok s → Emits s
  | insert {q : QueryBuilder N} {s : SqlStatement N} {data : List (String × JsVal N)} : q.Built →
    q.toInsert data = .ok s → Emits s
  | insertMany {q : QueryBuilder N} {s : SqlStatement N} {rows : List (List (String × JsVal N))} :
    q.Built → q.toInsertMany rows = .ok s → Emits s
  | update {q : QueryBuilder N} {s : SqlStatement N} {data : List (String × JsVal N)} : q.Built →
    q.toUpdate data = .ok s → Emits s
  | delete {q : QueryBuilder N} {s : SqlStatement N} : q.Built → q.toDelete = .ok s → Emits s
  | union {queries : List (QueryBuilder N)} {s : SqlStatement N} {all : Bool} :
    (∀ q ∈ queries, q.Built ∧ q.rawBindings = []) → QueryBuilder.union queries all = .ok s → Emits s

theorem forall_mem_concat {α : Type} {p : α → Prop} {l : List α} {a : α} (hl : ∀ b ∈ l, p b)
    (ha : p a) : ∀ b ∈ l ++ [a], p b :=
  List.forall_mem_append.2 ⟨hl, List.forall_mem_singleton.2 ha⟩

omit [JsNumber N] in
theorem fitsRaw_text (text : String) : (⟨[.text text], []⟩ : SqlStatement N).FitsRaw :=
  ⟨[], rfl, rfl⟩

omit [JsNumber N] in
theorem QueryBuilder.Fits.pushWhere {q : QueryBuilder N} (hq : q.Fits) {w : WhereClause N}
    (hw : w.Fits) : (q.pushWhere w).Fits :=
  { hq with wheres := forall_mem_concat hq.wheres hw }

omit [JsNumber N] in
theorem QueryBuilder.Fits.pushJoin {q : QueryBuilder N} (hq : q.Fits) {j : JoinClause N}
    (hj : j.Fits) : ({ q with joins := q.joins ++ [j] } : QueryBuilder N).Fits :=
  { hq with joins := forall_mem_concat hq.joins hj }

omit [JsNumber N] in
theorem QueryBuilder.Fits.pushRawSelect {q : QueryBuilder N} (hq : q.Fits) {t : SqlText}
    {vs : List (JsVal N)} (ht : t.marks = plain vs.length) :
    ({ q with rawSelects := q.rawSelects ++ [t], rawBindings := q.rawBindings ++ vs } :
      QueryBuilder N).Fits :=
  { hq with
    raws := by
      rw [List.flatMap_append, hq.raws, List.flatMap_singleton, ht, List.length_append]
      exact List.replicate_append_replicate }

theorem QueryBuilder.Fits.pushIn {q : QueryBuilder N} (hq : q.Fits) (col : String) (op : WhereOp)
    (values : List (JsVal N)) (type : Joiner) : (q.pushIn col op values type).Fits := by
  unfold QueryBuilder.pushIn
  split
  · exact hq.pushWhere ⟨[none], rfl, rfl⟩
  · exact hq.pushWhere trivial

theorem fits_of_call {q q' : QueryBuilder N} {r : Except String (QueryBuilder N)} (hq : q.Fits)
    (hcall : q.Call r) (h : r = .ok q') : q'.Fits := by
  cases hcall with
  | «where» | orWhere =>
    obtain ⟨col, -, h⟩ := exists_of_bind_eq_ok h
    obtain ⟨⟨op, value⟩, -, h⟩ := exists_of_bind_eq_ok h
    cases h
    exact hq.pushWhere trivial
  | whereNull | orWhereNull | whereNotNull | orWhereNotNull | whereBetween =>
    obtain ⟨col, -, h⟩ := exists_of_bind_eq_ok h
    cases h
    exact hq.pushWhere trivial
  | whereIn | whereNotIn | orWhereNotIn =>
    obtain ⟨col, -, h⟩ := exists_of_bind_eq_ok h
    split at h
    · cases h
      exact hq.pushWhere (fitsRaw_text _)
    · cases h
      exact hq.pushIn _ _ _ _
  | orWhereIn =>
    obtain ⟨col, -, h⟩ := exists_of_bind_eq_ok h
    split at h
    · cases h
      exact hq
    · cases h
      exact hq.pushIn _ _ _ _
  | whereNotBetween =>
    obtain ⟨col, -, h⟩ := exists_of_bind_eq_ok h
    cases h
    exact hq.pushWhere ⟨[none, none], rfl, rfl⟩
  | whereGroup =>
    unfold QueryBuilder.whereGroup at h
    split at h
    · cases h
      exact hq
    · obtain ⟨group, -, h⟩ := exists_of_bind_eq_ok h
      cases h
      exact hq.pushWhere trivial
  | whereRaw hs | orWhereRaw hs =>
    cases h
    exact hq.pushWhere hs
  | join left table first second asName =>
    obtain ⟨safe, -, h⟩ := exists_of_bind_eq_ok h
    cases asName with
    | none =>
      obtain ⟨table, -, h⟩ := exists_of_bind_eq_ok h
      obtain ⟨first, -, h⟩ := exists_of_bind_eq_ok h
      obtain ⟨second, -, h⟩ := exists_of_bind_eq_ok h
      cases h
      exact hq.pushJoin trivial
    | some a =>
      obtain ⟨name, -, h⟩ := exists_of_bind_eq_ok h
      obtain ⟨table, -, h⟩ := exists_of_bind_eq_ok h
      obtain ⟨first, -, h⟩ := exists_of_bind_eq_ok h
      obtain ⟨second, -, h⟩ := exists_of_bind_eq_ok h
      cases h
      exact hq.pushJoin trivial
  | joinRaw hs =>
    cases h
    exact hq.pushJoin hs
  | selectRawWith asName hs =>
    cases h
    exact hq.pushRawSelect (by cases asName <;> simp [hs])
  | selectFn name args =>
    cases h
    refine hq.pushRawSelect ?_
    have hargs : (args.map fun a => if isStar a then [SqlPiece.text "*"] else [.mark none]).flatMap
        SqlText.marks = plain (args.filter (!isStar ·)).length := by
      induction args with
      | nil => rfl
      | cons a args ih => cases ha : isStar a <;> simp [ha, ih, plain, List.replicate_succ]
    simpa using hargs
  | select | groupBy | onConflict =>
    obtain ⟨columns, -, h⟩ := exists_of_bind_eq_ok h
    cases h
    exact { hq with raws := hq.raws }
  | limit n | offset n =>
    by_cases hn : n < 0
    · cases (if_pos hn).symm.trans h
    · cases (if_neg hn).symm.trans h
      exact { hq with raws := hq.raws }
  | having col op val =>
    unfold QueryBuilder.having at h
    split at h
    · cases h
    · obtain ⟨column, -, h⟩ := exists_of_bind_eq_ok h
      cases h
      exact { hq with raws := hq.raws }
  | window name hs =>
    obtain ⟨name, -, h⟩ := exists_of_bind_eq_ok h
    cases h
    exact { hq with windows := forall_mem_concat hq.windows hs }
  | orderBy column desc =>
    obtain ⟨column, -, h⟩ := exists_of_bind_eq_ok h
    cases h
    exact { hq with orderBy := forall_mem_concat hq.orderBy rfl }
  | orderByRaw desc hs =>
    cases h
    exact { hq with orderBy := forall_mem_concat hq.orderBy hs }
  | clearOrderBy =>
    cases h
    exact { hq with orderBy := List.forall_mem_nil _ }
  | distinct | returning =>
    cases h
    exact { hq with raws := hq.raws }

theorem fits_of_built {q : QueryBuilder N} (h : q.Built) : q.Fits := by
  induction h with
  | «from» h =>
    obtain ⟨table, -, h⟩ := exists_of_bind_eq_ok h
    cases h
    have hnone {α : Type} {p : α → Prop} : ∀ a ∈ ([] : List α), p a := List.forall_mem_nil _
    exact ⟨hnone, hnone, hnone, rfl, hnone, hnone⟩
  | call _ hcall ih => exact fits_of_call ih hcall rfl
  | «with» _ _ hplain h ih ihsub =>
    obtain ⟨name, -, h⟩ := exists_of_bind_eq_ok h
    obtain ⟨query, hquery, h⟩ := exists_of_bind_eq_ok h
    cases h
    have hembeds := embeds_toSelect ihsub hplain hquery
    exact { ih with ctes := forall_mem_concat ih.ctes hembeds }
  | whereInSubquery _ _ hplain h ih ihsub =>
    obtain ⟨query, hquery, h⟩ := exists_of_bind_eq_ok h
    obtain ⟨col, -, h⟩ := exists_of_bind_eq_ok h
    cases h
    exact ih.pushWhere (embeds_toSelect ihsub hplain hquery)
  | whereExists _ _ hplain h ih ihsub =>
    obtain ⟨query, hquery, h⟩ := exists_of_bind_eq_ok h
    cases h
    exact ih.pushWhere (embeds_toSelect ihsub hplain hquery)

/-- After any calls on builders, the parameters of a statement are `1, 2, …` from left to right, one
for each binding. -/
theorem sequential_of_emits {s : SqlStatement N} (h : QueryBuilder.Emits s) : s.Sequential := by
  cases h with
  | select hq h => exact sequential_toSelect (fits_of_built hq) h
  | count hq h => exact sequential_toCount (fits_of_built hq) h
  | insert hq h => exact sequential_toInsert (fits_of_built hq) h
  | insertMany hq h => exact sequential_toInsertMany (fits_of_built hq) h
  | update hq h => exact sequential_toUpdate (fits_of_built hq) h
  | delete hq h => exact sequential_toDelete (fits_of_built hq) h
  | @union queries _ _ hq h =>
    unfold QueryBuilder.union at h
    by_cases hn : queries.length < 2
    · simp only [if_pos hn] at h
      cases h
    simp only [if_neg hn] at h
    obtain ⟨statements, hstatements, h⟩ := exists_of_bind_eq_ok h
    cases h
    have hembeds : ∀ s ∈ statements, s.Embeds := by
      intro s hs
      obtain ⟨q, hmem, hselect⟩ := exists_of_mem_mapM hstatements s hs
      exact embeds_toSelect (fits_of_built (hq q hmem).1) (hq q hmem).2 hselect
    exact sequential_of_numbered ((marks_join _ _).trans (marks_unionBranches hembeds 0))

end

/-- The active users. -/
def activeUsers : QueryBuilder (Option Int) :=
  { table := "users", wheres := [.single "active" .eq (.num (some 1)) .and] }

/-- The posts. -/
def allPosts : QueryBuilder (Option Int) := { table := "posts" }

theorem sequential_postsOfActive : ∃ q s,
    allPosts.whereInSubquery "author_id" false activeUsers = .ok q ∧ q.toSelect = .ok s ∧
      s.Sequential := by
  have hposts : allPosts.Built := @QueryBuilder.Built.from _ _ "posts" _ rfl
  have husers : activeUsers.Built :=
    .call (@QueryBuilder.Built.from _ _ "users" _ rfl) (.where "active" (.num (some 1)) .undefined)
  obtain ⟨q, s, hq, hs⟩ : ∃ q s, allPosts.whereInSubquery "author_id" false activeUsers = .ok q ∧
      q.toSelect = .ok s := ⟨_, _, rfl, rfl⟩
  exact ⟨q, s, hq, hs,
    sequential_of_emits (.select (.whereInSubquery hposts husers rfl hq) hs)⟩

end HeadlessErp
