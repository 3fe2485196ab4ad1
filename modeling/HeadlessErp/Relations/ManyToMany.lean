import HeadlessErp.Relations.Junctions

/-!
# The round trip of m2m fields

Where the junction tables of a database are those of one field each (`Apart`), the links of a row in
the junction table of a field are the list that was last written to it, under one time of creation,
and a row that is not there has none. Expansion therefore reads that list, cut at the cap and
without the targets that are not live.
-/

namespace HeadlessErp.M2M

section
variable {env : SchemaEnv} {S : LinkSchemas} {s s' : LinkState} {links links' : List Link}
  {t t' source source' : String} {data : LinkData} {mode : WriteMode} {now : Nat} {f : LinkField}

/-! ## Places -/

theorem isOf_congr (h : sameName t t' = true) : Link.isOf t source = Link.isOf t' source := by
  funext l
  have hiff : sameName l.table t = true ↔ sameName l.table t' = true := by
    rw [sameName_iff, sameName_iff, sameName_iff.1 h]
  rw [Link.isOf, Link.isOf, Bool.eq_iff_iff.2 hiff]

/-- Two places have no link in common. -/
theorem not_isOf_of_ne (h : sameName t t' = false ∨ source ≠ source') {l : Link}
    (hl : l.isOf t source = true) : l.isOf t' source' = false := by
  obtain ⟨htable, hsource⟩ := Bool.and_eq_true_iff.1 hl
  rw [Link.isOf]
  rcases h with hne | hne
  · have hother : sameName l.table t' = false := by
      rw [← Bool.not_eq_true, sameName_iff]
      intro heq
      have hsame : sameName t t' = true := sameName_iff.2 ((sameName_iff.1 htable).symm.trans heq)
      rw [hne] at hsame
      cases hsame
    rw [hother, Bool.false_and]
  · rw [of_decide_eq_true hsource, decide_eq_false hne, Bool.and_false]

/-- Removing the links of a place. -/
theorem linksOf_delete_self (h : sameName t t' = true) :
    linksOf (links.filter fun l => !l.isOf t source) t' source = [] := by
  rw [linksOf, ← isOf_congr h, List.filter_filter, List.filter_eq_nil_iff]
  intro l _
  cases Link.isOf t source l <;> simp

theorem linksOf_delete_of_ne (h : sameName t t' = false ∨ source ≠ source') :
    linksOf (links.filter fun l => !l.isOf t source) t' source' = linksOf links t' source' := by
  rw [linksOf, List.filter_filter]
  refine List.filter_congr fun l _ => ?_
  cases hl : Link.isOf t source l with
  | true => rw [not_isOf_of_ne h hl, Bool.false_and]
  | false => rw [Bool.not_false, Bool.and_true]

/-- A link that is added. -/
theorem linksOf_append_self (h : sameName t t' = true) (target : String) :
    linksOf (links ++ [⟨t, source, target, now⟩]) t' source =
      linksOf links t' source ++ [⟨t, source, target, now⟩] := by
  have hhere : Link.isOf t' source ⟨t, source, target, now⟩ = true := by
    simp [Link.isOf, h]
  rw [linksOf, List.filter_append, List.filter_singleton, hhere]
  rfl

theorem linksOf_append_of_ne {l : Link} (h : sameName l.table t = false ∨ l.source ≠ source) :
    linksOf (links ++ [l]) t source = linksOf links t source := by
  have hself : l.isOf l.table l.source = true := by simp [Link.isOf]
  rw [linksOf, List.filter_append, List.filter_singleton, not_isOf_of_ne h hself]
  exact List.append_nil _

/-! ## Statements -/

/-- What the unique index keeps: no pair is there twice. -/
def Unique (links : List Link) : Prop :=
  ∀ t source, ((linksOf links t source).map Link.target).Nodup

/-- Every statement keeps the index. -/
theorem Unique.execute (h : Unique links) {statement : LinkStatement}
    (hstep : execute links statement = some links') : Unique links' := by
  intro t source
  cases statement with
  | delete table src =>
    obtain rfl := Option.some.inj hstep
    refine (h t source).sublist (List.Sublist.map _ ?_)
    exact List.Sublist.filter _ List.filter_sublist
  | insert l =>
    obtain ⟨table, src, target, now⟩ := l
    simp only [M2M.execute] at hstep
    split at hstep
    · cases hstep
    next hnew =>
    obtain rfl := Option.some.inj hstep
    by_cases hplace : sameName table t = true ∧ src = source
    · obtain ⟨hname, rfl⟩ := hplace
      rw [linksOf_append_self hname, List.map_append]
      refine (h t src).append (List.nodup_singleton _) ?_
      rw [List.map_singleton, List.disjoint_singleton]
      intro hmem
      obtain ⟨l, hl, htarget⟩ := List.mem_map.1 hmem
      refine hnew (List.any_eq_true.2 ⟨l, ?_, decide_eq_true htarget⟩)
      rw [linksOf, isOf_congr hname]
      exact hl
    · rw [linksOf_append_of_ne]
      · exact h t source
      · rcases not_and_or.1 hplace with hne | hne
        · exact .inl (Bool.not_eq_true _ ▸ hne)
        · exact .inr hne

theorem Unique.executeAll (h : Unique links) {statements : List LinkStatement}
    (hstep : executeAll links statements = some links') : Unique links' := by
  induction statements generalizing links with
  | nil => exact Option.some.inj hstep ▸ h
  | cons statement statements ih =>
    obtain ⟨middle, hfirst, hrest⟩ := Option.bind_eq_some_iff.1 hstep
    exact ih (h.execute hfirst) hrest

theorem executeAll_append (a b : List LinkStatement) :
    executeAll links (a ++ b) = (executeAll links a).bind fun links => executeAll links b := by
  unfold executeAll
  rw [List.foldlM_append]
  rfl

/-- Insertions at one place succeed exactly where they keep the pairs distinct. -/
theorem executeAll_inserts {ids : List String} (h : Unique links) :
    executeAll links (ids.map fun target => .insert ⟨t, source, target, now⟩) = some links' ↔
      links' = links ++ ids.map (fun target => ⟨t, source, target, now⟩) ∧
        ((linksOf links t source).map Link.target ++ ids).Nodup := by
  induction ids generalizing links with
  | nil =>
    rw [List.map_nil, List.map_nil, List.append_nil, List.append_nil]
    exact ⟨fun hstep => ⟨(Option.some.inj hstep).symm, h t source⟩, fun ⟨heq, _⟩ => heq ▸ rfl⟩
  | cons target ids ih =>
    have hcons : executeAll links ((target :: ids).map
        fun target => LinkStatement.insert ⟨t, source, target, now⟩) =
        (execute links (.insert ⟨t, source, target, now⟩)).bind fun links =>
          executeAll links (ids.map fun target => .insert ⟨t, source, target, now⟩) := rfl
    rw [hcons]
    by_cases hold : target ∈ (linksOf links t source).map Link.target
    · have hany : (linksOf links t source).any (·.target = target) = true := by
        obtain ⟨l, hl, htarget⟩ := List.mem_map.1 hold
        exact List.any_eq_true.2 ⟨l, hl, decide_eq_true htarget⟩
      have hnone : execute links (.insert ⟨t, source, target, now⟩) = none := if_pos hany
      rw [hnone]
      refine ⟨fun hstep => (by cases hstep), fun ⟨_, hnodup⟩ => ?_⟩
      exact absurd List.mem_cons_self ((List.disjoint_of_nodup_append hnodup) hold)
    · have hany : ¬(linksOf links t source).any (·.target = target) = true := by
        intro hany
        obtain ⟨l, hl, htarget⟩ := List.any_eq_true.1 hany
        exact hold (List.mem_map.2 ⟨l, hl, of_decide_eq_true htarget⟩)
      have hsome : execute links (.insert ⟨t, source, target, now⟩) =
          some (links ++ [⟨t, source, target, now⟩]) := if_neg hany
      rw [hsome, Option.bind_some, ih (h.execute hsome), linksOf_append_self (sameName_self t)]
      simp only [List.map_append, List.map_cons, List.map_nil, List.append_assoc,
        List.cons_append, List.nil_append]

/-- Statements that touch one place leave the others. -/
theorem linksOf_inserts_of_ne {ids : List String}
    (h : sameName t t' = false ∨ source ≠ source') :
    linksOf (links ++ ids.map fun target => ⟨t, source, target, now⟩) t' source' =
      linksOf links t' source' := by
  rw [linksOf, List.filter_append]
  have hnil : (ids.map fun target => (⟨t, source, target, now⟩ : Link)).filter
      (Link.isOf t' source') = [] := by
    rw [List.filter_eq_nil_iff]
    intro l hl
    obtain ⟨target, -, rfl⟩ := List.mem_map.1 hl
    rw [not_isOf_of_ne h (by simp [Link.isOf])]
    exact Bool.false_ne_true
  rw [hnil, List.append_nil]
  rfl

theorem linksOf_inserts {ids : List String} :
    linksOf (links ++ ids.map fun target => ⟨t, source, target, now⟩) t source =
      linksOf links t source ++ ids.map fun target => ⟨t, source, target, now⟩ := by
  rw [linksOf, List.filter_append]
  congr 1
  rw [List.filter_eq_self]
  intro l hl
  obtain ⟨target, -, rfl⟩ := List.mem_map.1 hl
  simp [Link.isOf]

theorem map_target_inserts (ids : List String) :
    (ids.map fun target => (⟨t, source, target, now⟩ : Link)).map Link.target = ids := by
  rw [List.map_map]
  exact List.map_id ids

/-! ## Fields -/

/-- The links of a place before the list of a field is inserted. -/
def cleared (mode : WriteMode) (junction source : String) (links : List Link) : List Link :=
  match mode with
  | .update => links.filter fun l => !l.isOf junction source
  | .create => links

/-- The links of a field after a payload. -/
def fieldLinks (junction : String) (data : LinkData) (source : String) (mode : WriteMode)
    (now : Nat) (f : LinkField) (links : List Link) : List Link :=
  match incoming data mode f.name with
  | none => linksOf links junction source
  | some ids => linksOf (cleared mode junction source links) junction source ++
      ids.map fun target => ⟨junction, source, target, now⟩

theorem Unique.cleared (h : Unique links) : Unique (cleared mode t source links) := by
  cases mode with
  | create => exact h
  | update =>
    have hdelete : M2M.execute links (.delete t source) = some
        (links.filter fun l => !l.isOf t source) := rfl
    exact h.execute hdelete

theorem execute_some {ids : List String} (hids : incoming data mode f.name = some ids) :
    executeAll links (fieldStatements t data source mode now f) =
      executeAll (cleared mode t source links)
        (ids.map fun target => .insert ⟨t, source, target, now⟩) := by
  unfold fieldStatements
  rw [hids]
  cases mode with
  | create => rfl
  | update => rfl

/-- What a field has after a payload depends on its own links. -/
theorem fieldLinks_congr (h : sameName t t' = false)
    (hframe : ∀ u src, sameName t u = false ∨ source ≠ src →
      linksOf links' u src = linksOf links u src) :
    fieldLinks t' data source mode now f links' = fieldLinks t' data source mode now f links := by
  have hlinks := hframe t' source (.inl h)
  unfold fieldLinks
  cases incoming data mode f.name with
  | none => exact hlinks
  | some ids =>
    cases mode with
    | create => exact congrArg (· ++ _) hlinks
    | update =>
      simp only [cleared, linksOf_delete_self (sameName_self t')]

/-- The statements of a field: its links are replaced, and the others stay. -/
theorem execute_field (h : Unique links)
    (hstep : executeAll links (fieldStatements t data source mode now f) = some links') :
    Unique links' ∧ linksOf links' t source = fieldLinks t data source mode now f links ∧
      ∀ t' source', sameName t t' = false ∨ source ≠ source' →
        linksOf links' t' source' = linksOf links t' source' := by
  unfold fieldLinks
  rcases hids : incoming data mode f.name with _ | ids
  · unfold fieldStatements at hstep
    rw [hids] at hstep
    obtain rfl : links = links' := Option.some.inj hstep
    exact ⟨h, rfl, fun _ _ _ => rfl⟩
  rw [execute_some hids] at hstep
  obtain ⟨rfl, -⟩ := (executeAll_inserts h.cleared).1 hstep
  refine ⟨h.cleared.executeAll hstep, linksOf_inserts, fun t' source' hne => ?_⟩
  rw [linksOf_inserts_of_ne hne]
  cases mode with
  | create => rfl
  | update => exact linksOf_delete_of_ne hne

/-- The statements of a field succeed when its links are distinct after them. -/
theorem exists_execute_field (h : Unique links)
    (hnodup : ((fieldLinks t data source mode now f links).map Link.target).Nodup) :
    ∃ links', executeAll links (fieldStatements t data source mode now f) = some links' := by
  unfold fieldLinks at hnodup
  rcases hids : incoming data mode f.name with _ | ids
  · refine ⟨links, ?_⟩
    unfold fieldStatements
    rw [hids]
    rfl
  rw [hids] at hnodup
  rw [execute_some hids]
  refine ⟨_, (executeAll_inserts h.cleared).2 ⟨rfl, ?_⟩⟩
  rw [List.map_append, map_target_inserts] at hnodup
  exact hnodup

/-! ## Payloads -/

/-- The statements of the fields of a payload, whose junction tables are distinct. -/
theorem execute_fields {junction : LinkField → String} {fields : List LinkField}
    (hapart : fields.Pairwise fun f g => sameName (junction f) (junction g) = false)
    (h : Unique links)
    (hstep : executeAll links (fields.flatMap fun f =>
      fieldStatements (junction f) data source mode now f) = some links') :
    Unique links' ∧
      (∀ f ∈ fields, linksOf links' (junction f) source =
        fieldLinks (junction f) data source mode now f links) ∧
      ∀ t' source', (∀ f ∈ fields, sameName (junction f) t' = false) ∨ source ≠ source' →
        linksOf links' t' source' = linksOf links t' source' := by
  induction fields generalizing links with
  | nil =>
    obtain rfl := Option.some.inj hstep
    exact ⟨h, fun f hf => absurd hf List.not_mem_nil, fun _ _ _ => rfl⟩
  | cons f fields ih =>
    obtain ⟨hfirst, hrest⟩ := List.pairwise_cons.1 hapart
    rw [List.flatMap_cons, executeAll_append] at hstep
    obtain ⟨middle, hfield, hfields⟩ := Option.bind_eq_some_iff.1 hstep
    obtain ⟨hunique, hself, hframe⟩ := execute_field h hfield
    obtain ⟨hunique', hall, hframe'⟩ := ih hrest hunique hfields
    refine ⟨hunique', fun g hg => ?_, fun t' source' hne => ?_⟩
    · rcases List.mem_cons.1 hg with rfl | hg
      · rw [hframe' _ _ (.inl fun k hk => ?_), hself]
        rw [sameName_comm]
        exact hfirst k hk
      · rw [hall g hg]
        exact fieldLinks_congr (hfirst g hg) hframe
    · rw [hframe' t' source' (hne.imp_left fun hf g hg => hf g (List.mem_cons_of_mem _ hg))]
      exact hframe t' source' (hne.imp_left fun hf => hf f List.mem_cons_self)

/-- The statements of a payload succeed when the links of every field are distinct after them. -/
theorem exists_execute_fields {junction : LinkField → String} {fields : List LinkField}
    (hapart : fields.Pairwise fun f g => sameName (junction f) (junction g) = false)
    (h : Unique links)
    (hnodup : ∀ f ∈ fields,
      ((fieldLinks (junction f) data source mode now f links).map Link.target).Nodup) :
    ∃ links', executeAll links (fields.flatMap fun f =>
      fieldStatements (junction f) data source mode now f) = some links' := by
  induction fields generalizing links with
  | nil => exact ⟨links, rfl⟩
  | cons f fields ih =>
    obtain ⟨hfirst, hrest⟩ := List.pairwise_cons.1 hapart
    obtain ⟨middle, hfield⟩ := exists_execute_field h (hnodup f List.mem_cons_self)
    obtain ⟨hunique, -, hframe⟩ := execute_field h hfield
    obtain ⟨links', hfields⟩ := ih hrest hunique fun g hg => by
      rw [fieldLinks_congr (hfirst g hg) hframe]
      exact hnodup g (List.mem_cons_of_mem _ hg)
    refine ⟨links', ?_⟩
    rw [List.flatMap_cons, executeAll_append, hfield]
    exact hfields

/-- The field is expanded: its related collection is there. -/
def Expands (S : LinkSchemas) (f : LinkField) : Prop := (S.find? f.relatedCollection).isSome = true

theorem junctionOf_eq {c target : LinkCollection} (h : S.find? f.relatedCollection = some target) :
    junctionOf env S c f = junctionName c.tableName target.tableName := by
  rw [junctionOf, targetTable, h]
  rfl

theorem unique_deleteField {c : LinkCollection} (h : Unique links) :
    Unique (deleteField S c source links f) := by
  unfold deleteField
  split
  · next target _ =>
    have hdelete : execute links (.delete (junctionName c.tableName target.tableName) source) =
      some _ := rfl
    exact h.execute hdelete
  · exact h

theorem linksOf_deleteField_self {c : LinkCollection} (h : Expands S f) :
    linksOf (deleteField S c source links f) (junctionOf env S c f) source = [] := by
  obtain ⟨target, htarget⟩ := Option.isSome_iff_exists.1 h
  rw [junctionOf_eq htarget]
  unfold deleteField
  rw [htarget]
  exact linksOf_delete_self (sameName_self _)

theorem linksOf_deleteField_of_ne {c : LinkCollection}
    (h : sameName (junctionOf env S c f) t' = false ∨ source ≠ source') :
    linksOf (deleteField S c source links f) t' source' = linksOf links t' source' := by
  unfold deleteField
  split
  · next target htarget =>
    rw [junctionOf_eq htarget] at h
    exact linksOf_delete_of_ne h
  · rfl

theorem linksOf_deleteField_eq_nil {c : LinkCollection} (h : linksOf links t source' = []) :
    linksOf (deleteField S c source links f) t source' = [] := by
  unfold deleteField
  split
  · refine List.sublist_nil.1 ?_
    rw [← h]
    exact List.Sublist.filter _ List.filter_sublist
  · exact h

variable (env S source) in
/-- The deletion of a source: the links of the fields that expand go, and those of other places
stay. -/
theorem linksOf_deleteFields (c : LinkCollection) (fields : List LinkField) (h : Unique links) :
    Unique (fields.foldl (deleteField S c source) links) ∧
      (∀ f, f ∈ fields ∧ Expands S f ∨ linksOf links (junctionOf env S c f) source = [] →
        linksOf (fields.foldl (deleteField S c source) links) (junctionOf env S c f) source = []) ∧
      ∀ t' source', (∀ f ∈ fields, sameName (junctionOf env S c f) t' = false) ∨ source ≠ source' →
        linksOf (fields.foldl (deleteField S c source) links) t' source' =
          linksOf links t' source' := by
  induction fields generalizing links with
  | nil =>
    refine ⟨h, ?_, fun _ _ _ => rfl⟩
    rintro f (⟨hf, -⟩ | hnil)
    · exact absurd hf List.not_mem_nil
    · exact hnil
  | cons g fields ih =>
    obtain ⟨hunique, hnil, hframe⟩ := ih (unique_deleteField (f := g) h)
    refine ⟨hunique, fun f hf => hnil f ?_, fun t' source' hne => ?_⟩
    · rcases hf with ⟨hf, hexpands⟩ | hf
      · rcases List.mem_cons.1 hf with rfl | hf
        · exact .inr (linksOf_deleteField_self hexpands)
        · exact .inl ⟨hf, hexpands⟩
      · exact .inr (linksOf_deleteField_eq_nil hf)
    · rw [List.foldl_cons,
        hframe t' source' (hne.imp_left fun hf k hk => hf k (List.mem_cons_of_mem _ hk))]
      exact linksOf_deleteField_of_ne (hne.imp_left fun hf => hf g List.mem_cons_self)

/-! ## The property -/

/-- Each junction table is that of one field of one collection. -/
def Apart (env : SchemaEnv) (S : LinkSchemas) : Prop :=
  ∀ c ∈ S.collections, ∀ f ∈ c.fields, ∀ c' ∈ S.collections, ∀ f' ∈ c'.fields,
    sameName (junctionOf env S c f) (junctionOf env S c' f') = true → c.slug = c'.slug ∧ f = f'

/-- The operation writes the field of the row, or deletes the row. -/
def LinkOp.Touches (op : LinkOp) (slug id name : String) : Prop :=
  match op with
  | .create slug' id' data _ =>
    slug' = slug ∧ id' = id ∧ incoming data .create name ≠ some []
  | .update slug' id' data _ => slug' = slug ∧ id' = id ∧ incoming data .update name ≠ none
  | .hardDelete slug' id' => slug' = slug ∧ id' = id
  | .softDelete _ _ | .restore _ _ => False

/-- The lists of a payload are of distinct ids, in fields that expand. -/
def Distinct (S : LinkSchemas) (c : LinkCollection) (data : LinkData) (mode : WriteMode) : Prop :=
  ∀ f ∈ c.fields, ∀ ids, incoming data mode f.name = some ids →
    ids.Nodup ∧ (ids ≠ [] → Expands S f)

/-- The expansion of a live row gives, once each, the live targets among the first ids of the list
that was last written; a payload of distinct ids is accepted; and an operation leaves the links of
the fields and rows that it does not touch. -/
structure RoundTrip (env : SchemaEnv) (S : LinkSchemas) (s : LinkState) : Prop where
  expand : ∀ c ∈ S.collections, ∀ f ∈ c.fields, ∀ target,
    S.find? f.relatedCollection = some target → ∀ id, s.isLive c.slug id = true →
      resolveM2M env S s c f id = some
        ((((s.written (c.slug, id, f.name)).insertionSort (· ≤ ·)).take m2mLimit).filter
          (s.isLive target.slug)) ∧ (s.written (c.slug, id, f.name)).Nodup
  create : ∀ c ∈ S.collections, ∀ id data now, s.rows (c.slug, id) = none →
    Distinct S c data .create → ∃ s', s.step env S (.create c.slug id data now) = some s'
  update : ∀ c ∈ S.collections, ∀ id data now, s.isLive c.slug id = true →
    Distinct S c data .update → ∃ s', s.step env S (.update c.slug id data now) = some s'
  frame : ∀ op s', s.step env S op = some s' → ∀ c ∈ S.collections, ∀ f ∈ c.fields, ∀ id,
    ¬op.Touches c.slug id f.name →
      linksOf s'.links (junctionOf env S c f) id = linksOf s.links (junctionOf env S c f) id

/-- The links of the fields that expand are the lists that were last written. -/
structure LinkInvariant (env : SchemaEnv) (S : LinkSchemas) (s : LinkState) : Prop where
  unique : Unique s.links
  lists : ∀ c ∈ S.collections, ∀ f ∈ c.fields, Expands S f → ∀ id,
    (linksOf s.links (junctionOf env S c f) id).map Link.target = s.written (c.slug, id, f.name)
  times : ∀ c ∈ S.collections, ∀ f ∈ c.fields, Expands S f → ∀ id, ∃ now,
    ∀ l ∈ linksOf s.links (junctionOf env S c f) id, l.createdAt = now
  absent : ∀ c ∈ S.collections, ∀ id, s.rows (c.slug, id) = none →
    ∀ f, s.written (c.slug, id, f) = []

/-! ## Steps -/

theorem LinkSchemas.mem_of_find? {slug : String} {c : LinkCollection} (h : S.find? slug = some c) :
    c ∈ S.collections ∧ c.slug = slug := by
  unfold find? at h
  have hslug := List.find?_some h
  exact ⟨List.mem_of_find?_eq_some h, of_decide_eq_true hslug⟩

/-- The collections of one slug are one. -/
theorem LinkSchemas.eq_of_slug {c c' : LinkCollection} (hc : c ∈ S.collections)
    (hc' : c' ∈ S.collections) (h : c.slug = c'.slug) : c = c' :=
  List.inj_on_of_nodup_map S.nodup hc hc' h

theorem LinkSchemas.find?_slug {c : LinkCollection} (hc : c ∈ S.collections) :
    S.find? c.slug = some c := by
  rcases hfind : S.find? c.slug with _ | c'
  · exact absurd (decide_eq_true rfl) (List.find?_eq_none.1 hfind c hc)
  · obtain ⟨hc', hslug⟩ := LinkSchemas.mem_of_find? hfind
    rw [LinkSchemas.eq_of_slug hc' hc hslug]

theorem Apart.pairwise (h : Apart env S) {c : LinkCollection} (hc : c ∈ S.collections) :
    c.fields.Pairwise fun f g =>
      sameName (junctionOf env S c f) (junctionOf env S c g) = false := by
  have hnodup : c.fields.Pairwise (· ≠ ·) := List.Nodup.of_map _ c.nodup
  refine hnodup.imp_of_mem fun {f g} hf hg hne => ?_
  rw [← Bool.not_eq_true]
  exact fun hsame => hne (h c hc f hf c hc g hg hsame).2

/-- Another field or another row is another place. -/
theorem Apart.place_ne (h : Apart env S) {c c' : LinkCollection} {f' : LinkField} {id id' : String}
    (hc : c ∈ S.collections) (hc' : c' ∈ S.collections) (hf' : f' ∈ c'.fields)
    (hne : ¬(c'.slug = c.slug ∧ id' = id)) :
    (∀ f ∈ c.fields, sameName (junctionOf env S c f) (junctionOf env S c' f') = false) ∨
      id ≠ id' := by
  by_cases hid : id = id'
  · refine .inl fun f hf => ?_
    rw [← Bool.not_eq_true]
    intro hsame
    exact hne ⟨(h c hc f hf c' hc' f' hf' hsame).1.symm, hid.symm⟩
  · exact .inr hid

/-- What a write leaves. -/
theorem write_eq_some {slug id : String} (happart : Apart env S) (hunique : Unique s.links)
    (h : s.write env S slug id data mode now = some s') :
    ∃ c, S.find? slug = some c ∧ s'.rows = Function.update s.rows (slug, id) (some false) ∧
      s'.written = s.record slug id data mode ∧ Unique s'.links ∧
      (∀ f ∈ c.fields, linksOf s'.links (junctionOf env S c f) id =
        fieldLinks (junctionOf env S c f) data id mode now f s.links) ∧
      ∀ t' id', (∀ f ∈ c.fields, sameName (junctionOf env S c f) t' = false) ∨ id ≠ id' →
        linksOf s'.links t' id' = linksOf s.links t' id' := by
  obtain ⟨c, hfind, h⟩ := Option.bind_eq_some_iff.1 h
  obtain ⟨links', hexecute, h⟩ := Option.bind_eq_some_iff.1 h
  obtain rfl := Option.some.inj h
  obtain ⟨hunique', hfields, hframe⟩ :=
    execute_fields (happart.pairwise (LinkSchemas.mem_of_find? hfind).1) hunique hexecute
  exact ⟨c, hfind, rfl, rfl, hunique', hfields, hframe⟩

/-- A create or an update replaces the lists of its fields. -/
theorem LinkInvariant.write (h : LinkInvariant env S s) (happart : Apart env S) {slug id : String}
    (hnew : mode = .create → s.rows (slug, id) = none)
    (hstep : s.write env S slug id data mode now = some s') : LinkInvariant env S s' := by
  obtain ⟨c, hfind, hrows, hwritten, hunique, hfields, hframe⟩ :=
    write_eq_some happart h.unique hstep
  obtain ⟨hc, rfl⟩ := LinkSchemas.mem_of_find? hfind
  -- a row that is created has no links yet
  have hcleared : ∀ f ∈ c.fields, Expands S f →
      linksOf (cleared mode (junctionOf env S c f) id s.links) (junctionOf env S c f) id = [] := by
    intro f hf hexpands
    cases mode with
    | update => exact linksOf_delete_self (sameName_self _)
    | create =>
      have hlist := h.lists c hc f hf hexpands id
      rw [h.absent c hc id (hnew rfl) f.name] at hlist
      exact List.map_eq_nil_iff.1 hlist
  refine ⟨hunique, fun c' hc' f hf hexpands id' => ?_, fun c' hc' f hf hexpands id' => ?_,
    fun c' hc' id' hnone f => ?_⟩
  · rw [hwritten]
    by_cases hplace : c'.slug = c.slug ∧ id' = id
    · obtain ⟨hslug, rfl⟩ := hplace
      obtain rfl := LinkSchemas.eq_of_slug hc' hc hslug
      rw [hfields f hf, fieldLinks, LinkState.record, if_pos ⟨rfl, rfl⟩]
      rcases incoming data mode f.name with _ | ids
      · exact h.lists c' hc' f hf hexpands id'
      · simp only [hcleared f hf hexpands, List.nil_append, map_target_inserts, Option.getD_some]
    · rw [hframe _ _ (happart.place_ne hc hc' hf hplace), LinkState.record, if_neg hplace]
      exact h.lists c' hc' f hf hexpands id'
  · by_cases hplace : c'.slug = c.slug ∧ id' = id
    · obtain ⟨hslug, rfl⟩ := hplace
      obtain rfl := LinkSchemas.eq_of_slug hc' hc hslug
      rw [hfields f hf, fieldLinks]
      rcases incoming data mode f.name with _ | ids
      · exact h.times c' hc' f hf hexpands id'
      · simp only [hcleared f hf hexpands, List.nil_append]
        refine ⟨now, fun l hl => ?_⟩
        obtain ⟨target, -, rfl⟩ := List.mem_map.1 hl
        rfl
    · rw [hframe _ _ (happart.place_ne hc hc' hf hplace)]
      exact h.times c' hc' f hf hexpands id'
  · rw [hrows] at hnone
    by_cases hplace : c'.slug = c.slug ∧ id' = id
    · rw [hplace.1, hplace.2, Function.update_self] at hnone
      cases hnone
    · have hne : (c'.slug, id') ≠ (c.slug, id) := fun heq => hplace (Prod.mk.inj heq)
      rw [Function.update_of_ne hne] at hnone
      rw [hwritten, LinkState.record, if_neg hplace]
      exact h.absent c' hc' id' hnone f

/-- A soft delete and a restore leave the links. -/
theorem LinkInvariant.setRow (h : LinkInvariant env S s) (k : String × String) (b : Bool) :
    LinkInvariant env S { s with rows := Function.update s.rows k (some b) } := by
  refine ⟨h.unique, h.lists, h.times, fun c hc id hnone f => ?_⟩
  have hnone : Function.update s.rows k (some b) (c.slug, id) = none := hnone
  rcases eq_or_ne (c.slug, id) k with rfl | hne
  · rw [Function.update_self] at hnone
    cases hnone
  · rw [Function.update_of_ne hne] at hnone
    exact h.absent c hc id hnone f

/-- A hard delete leaves no links of the row. -/
theorem LinkInvariant.hardDelete (h : LinkInvariant env S s) (happart : Apart env S)
    {c : LinkCollection} (hc : c ∈ S.collections) (id : String) :
    LinkInvariant env S
      { rows := Function.update s.rows (c.slug, id) none
        links := deleteM2MJunctions S c id s.links
        written := fun k => if k.1 = c.slug ∧ k.2.1 = id then [] else s.written k } := by
  obtain ⟨hunique, hnil, hframe⟩ :=
    linksOf_deleteFields env S id c c.fields h.unique
  refine ⟨hunique, fun c' hc' f hf hexpands id' => ?_, fun c' hc' f hf hexpands id' => ?_,
    fun c' hc' id' hnone f => ?_⟩
  · show (linksOf (deleteM2MJunctions S c id s.links) _ _).map Link.target = ite _ _ _
    by_cases hplace : c'.slug = c.slug ∧ id' = id
    · obtain ⟨hslug, rfl⟩ := hplace
      obtain rfl := LinkSchemas.eq_of_slug hc' hc hslug
      rw [if_pos ⟨rfl, rfl⟩, deleteM2MJunctions, hnil f (.inl ⟨hf, hexpands⟩)]
      rfl
    · rw [if_neg hplace, deleteM2MJunctions, hframe _ _ (happart.place_ne hc hc' hf hplace)]
      exact h.lists c' hc' f hf hexpands id'
  · show ∃ now, ∀ l ∈ linksOf (deleteM2MJunctions S c id s.links) _ _, l.createdAt = now
    by_cases hplace : c'.slug = c.slug ∧ id' = id
    · obtain ⟨hslug, rfl⟩ := hplace
      obtain rfl := LinkSchemas.eq_of_slug hc' hc hslug
      rw [deleteM2MJunctions, hnil f (.inl ⟨hf, hexpands⟩)]
      exact ⟨0, fun l hl => absurd hl List.not_mem_nil⟩
    · rw [deleteM2MJunctions, hframe _ _ (happart.place_ne hc hc' hf hplace)]
      exact h.times c' hc' f hf hexpands id'
  · show (if c'.slug = c.slug ∧ id' = id then [] else s.written (c'.slug, id', f)) = []
    have hnone : Function.update s.rows (c.slug, id) none (c'.slug, id') = none := hnone
    by_cases hplace : c'.slug = c.slug ∧ id' = id
    · rw [if_pos hplace]
    · have hne : (c'.slug, id') ≠ (c.slug, id) := fun heq => hplace (Prod.mk.inj heq)
      rw [Function.update_of_ne hne] at hnone
      rw [if_neg hplace]
      exact h.absent c' hc' id' hnone f

/-- Every operation keeps the invariant. -/
theorem LinkInvariant.step (h : LinkInvariant env S s) (happart : Apart env S) {op : LinkOp}
    (hstep : s.step env S op = some s') : LinkInvariant env S s' := by
  cases op with
  | create slug id data now =>
    simp only [LinkState.step] at hstep
    split at hstep
    next hrow => exact h.write happart (fun _ => hrow) hstep
    · cases hstep
  | update slug id data now =>
    simp only [LinkState.step] at hstep
    split at hstep
    next hrow => exact h.write happart (fun hmode => by cases hmode) hstep
    · cases hstep
  | softDelete slug id =>
    simp only [LinkState.step] at hstep
    split at hstep
    · exact Option.some.inj hstep ▸ h.setRow (slug, id) true
    · cases hstep
  | restore slug id =>
    simp only [LinkState.step] at hstep
    split at hstep
    · exact Option.some.inj hstep ▸ h.setRow (slug, id) false
    · cases hstep
  | hardDelete slug id =>
    simp only [LinkState.step] at hstep
    split at hstep
    · cases hstep
    · obtain ⟨c, hfind, rfl⟩ := Option.map_eq_some_iff.1 hstep
      obtain ⟨hc, rfl⟩ := LinkSchemas.mem_of_find? hfind
      exact h.hardDelete happart hc id

/-! ## The round trip -/

/-- Links of one time are read in the order of their targets. -/
theorem map_target_insertionSort (htimes : ∀ l ∈ links, l.createdAt = now) :
    (links.insertionSort Link.before).map Link.target =
      (links.map Link.target).insertionSort (· ≤ ·) := by
  refine List.map_insertionSort _ _ _ _ fun a ha b hb => ?_
  unfold Link.before
  rw [htimes a ha, htimes b hb]
  simp

theorem LinkInvariant.expand (h : LinkInvariant env S s) {c target : LinkCollection}
    (hc : c ∈ S.collections) (hf : f ∈ c.fields)
    (htarget : S.find? f.relatedCollection = some target) (id : String) :
    resolveM2M env S s c f id = some
      ((((s.written (c.slug, id, f.name)).insertionSort (· ≤ ·)).take m2mLimit).filter
        (s.isLive target.slug)) ∧ (s.written (c.slug, id, f.name)).Nodup := by
  have hexpands : Expands S f := Option.isSome_iff_exists.2 ⟨target, htarget⟩
  obtain ⟨now, htimes⟩ := h.times c hc f hf hexpands id
  have hlist := h.lists c hc f hf hexpands id
  refine ⟨?_, hlist ▸ h.unique _ _⟩
  rw [resolveM2M, htarget, Option.map_some, List.map_take, map_target_insertionSort htimes, hlist]

variable (now) in
/-- A payload of distinct ids is accepted. -/
theorem LinkInvariant.exists_write (h : LinkInvariant env S s) (happart : Apart env S)
    {c : LinkCollection} (hc : c ∈ S.collections) {id : String}
    (hnew : mode = .create → s.rows (c.slug, id) = none) (hdata : Distinct S c data mode) :
    ∃ s', s.write env S c.slug id data mode now = some s' := by
  obtain ⟨links', hexecute⟩ : ∃ links', executeAll s.links (c.fields.flatMap fun f =>
      fieldStatements (junctionOf env S c f) data id mode now f) = some links' := by
    refine exists_execute_fields (happart.pairwise hc) h.unique fun f hf => ?_
    unfold fieldLinks
    rcases hids : incoming data mode f.name with _ | ids
    · exact h.unique _ _
    obtain ⟨hnodup, hexpands⟩ := hdata f hf ids hids
    simp only [List.map_append, map_target_inserts]
    by_cases hempty : ids = []
    · rw [hempty, List.append_nil]
      exact h.unique.cleared _ _
    have hcleared : linksOf (cleared mode (junctionOf env S c f) id s.links)
        (junctionOf env S c f) id = [] := by
      cases mode with
      | update => exact linksOf_delete_self (sameName_self _)
      | create =>
        have hlist := h.lists c hc f hf (hexpands hempty) id
        rw [h.absent c hc id (hnew rfl) f.name] at hlist
        exact List.map_eq_nil_iff.1 hlist
    rw [hcleared]
    exact hnodup
  refine ⟨_, Option.bind_eq_some_iff.2 ⟨c, LinkSchemas.find?_slug hc,
    Option.bind_eq_some_iff.2 ⟨links', hexecute, rfl⟩⟩⟩

/-- A write leaves the fields that it does not bring a list to, and the other rows. -/
theorem LinkInvariant.write_frame (h : LinkInvariant env S s) (happart : Apart env S)
    {slug id id' : String} {c' : LinkCollection} (hc' : c' ∈ S.collections) (hf : f ∈ c'.fields)
    (hstep : s.write env S slug id data mode now = some s')
    (hfree : slug = c'.slug → id = id' →
      incoming data mode f.name = none ∨ mode = .create ∧ incoming data mode f.name = some []) :
    linksOf s'.links (junctionOf env S c' f) id' = linksOf s.links (junctionOf env S c' f) id' := by
  obtain ⟨c, hfind, -, -, -, hfields, hframe⟩ := write_eq_some happart h.unique hstep
  obtain ⟨hc, rfl⟩ := LinkSchemas.mem_of_find? hfind
  by_cases hplace : c'.slug = c.slug ∧ id' = id
  · obtain ⟨hslug, rfl⟩ := hplace
    obtain rfl := LinkSchemas.eq_of_slug hc' hc hslug
    rw [hfields f hf, fieldLinks]
    rcases hfree rfl rfl with hnone | ⟨rfl, hempty⟩
    · rw [hnone]
    · rw [hempty]
      exact List.append_nil _
  · exact hframe _ _ (happart.place_ne hc hc' hf hplace)

theorem LinkInvariant.frame (h : LinkInvariant env S s) (happart : Apart env S) {op : LinkOp}
    (hstep : s.step env S op = some s') {c : LinkCollection} (hc : c ∈ S.collections)
    (hf : f ∈ c.fields) {id : String} (hop : ¬op.Touches c.slug id f.name) :
    linksOf s'.links (junctionOf env S c f) id = linksOf s.links (junctionOf env S c f) id := by
  cases op with
  | create slug id' data now =>
    simp only [LinkState.step] at hstep
    split at hstep
    · refine h.write_frame happart hc hf hstep fun hslug hid => .inr ⟨rfl, ?_⟩
      exact not_not.1 fun hne => hop ⟨hslug, hid, hne⟩
    · cases hstep
  | update slug id' data now =>
    simp only [LinkState.step] at hstep
    split at hstep
    · refine h.write_frame happart hc hf hstep fun hslug hid => .inl ?_
      exact not_not.1 fun hne => hop ⟨hslug, hid, hne⟩
    · cases hstep
  | softDelete slug id' =>
    simp only [LinkState.step] at hstep
    split at hstep
    · obtain rfl := Option.some.inj hstep
      rfl
    · cases hstep
  | restore slug id' =>
    simp only [LinkState.step] at hstep
    split at hstep
    · obtain rfl := Option.some.inj hstep
      rfl
    · cases hstep
  | hardDelete slug id' =>
    simp only [LinkState.step] at hstep
    split at hstep
    · cases hstep
    · obtain ⟨c', hfind, rfl⟩ := Option.map_eq_some_iff.1 hstep
      obtain ⟨hc', rfl⟩ := LinkSchemas.mem_of_find? hfind
      refine (linksOf_deleteFields env S id' c' c'.fields h.unique).2.2 _ _
        (happart.place_ne hc' hc hf ?_)
      exact fun hplace => hop ⟨hplace.1.symm, hplace.2.symm⟩

theorem LinkInvariant.roundTrip (h : LinkInvariant env S s) (happart : Apart env S) :
    RoundTrip env S s where
  expand c hc f hf target htarget id _ := h.expand hc hf htarget id
  create c hc id data now hnone hdata := by
    obtain ⟨s', hs'⟩ := h.exists_write now happart hc (fun _ => hnone) hdata
    refine ⟨s', ?_⟩
    rw [LinkState.step, if_pos hnone]
    exact hs'
  update c hc id data now hlive hdata := by
    obtain ⟨s', hs'⟩ := h.exists_write now happart hc (fun hmode => by cases hmode) hdata
    refine ⟨s', ?_⟩
    rw [LinkState.step, if_pos (of_decide_eq_true hlive)]
    exact hs'
  frame op s' hstep c hc f hf id hop := h.frame happart hstep hc hf hop

theorem linkInvariant_init : LinkInvariant env S {} where
  unique _ _ := List.nodup_nil
  lists _ _ _ _ _ _ := rfl
  times _ _ _ _ _ _ := ⟨0, fun _ hl => absurd hl List.not_mem_nil⟩
  absent _ _ _ _ _ := rfl

end

/-- Every state that operations lead to. -/
theorem linkInvariant_of_reachable {env : SchemaEnv} {S : LinkSchemas} (happart : Apart env S)
    {s : LinkState} (h : (linkSystem env S).Reachable s) : LinkInvariant env S s := by
  refine h.invariant (fun _ hinit => ?_) fun _ _ _ hinv _ hstep => hinv.step happart hstep
  obtain rfl := hinit
  exact linkInvariant_init

/-- The platform of the examples. -/
def linkEnv : SchemaEnv where
  functions := fun _ => false
  tablePrefix := "cms_"
  quotedTexts := false

/-- Posts with tags. -/
def blogSchemas : LinkSchemas where
  collections :=
    [⟨"tags", "cms_tags", [], List.nodup_nil⟩,
     ⟨"posts", "cms_posts", [⟨"tags", "tags"⟩], List.nodup_singleton _⟩]
  nodup := by decide

theorem apart_blogSchemas : Apart linkEnv blogSchemas := by
  intro c hc f hf c' hc' f' hf' _
  rcases List.mem_cons.1 hc with rfl | hc
  · exact absurd hf List.not_mem_nil
  rcases List.mem_cons.1 hc' with rfl | hc'
  · exact absurd hf' List.not_mem_nil
  obtain rfl := List.mem_singleton.1 hc
  obtain rfl := List.mem_singleton.1 hc'
  rw [List.mem_singleton.1 hf, List.mem_singleton.1 hf']
  exact ⟨rfl, rfl⟩

/-- The ids of 51 tags. -/
def manyTags : List String := (List.range 51).map fun n => "t" ++ toString (100 + n)

/-- Rows of a collection without m2m fields, created one after another. -/
theorem reach_creates {env : SchemaEnv} {S : LinkSchemas} {slug : String} {c : LinkCollection}
    (hfind : S.find? slug = some c) (hfields : c.fields = []) {ids : List String} (hids : ids.Nodup)
    {s : LinkState} (hs : (linkSystem env S).Reachable s)
    (hnone : ∀ id ∈ ids, s.rows (slug, id) = none) :
    ∃ s', (linkSystem env S).Reachable s' ∧
      ∀ k, s'.rows k = if k.1 = slug ∧ k.2 ∈ ids then some false else s.rows k := by
  induction ids generalizing s with
  | nil => exact ⟨s, hs, fun k => (if_neg fun h => absurd h.2 List.not_mem_nil).symm⟩
  | cons id ids ih =>
    obtain ⟨hid, hids⟩ := List.nodup_cons.1 hids
    have hstep : (linkSystem env S).step s (.create slug id [] 0) = some
        { rows := Function.update s.rows (slug, id) (some false), links := s.links,
          written := s.record slug id [] .create } := by
      refine (if_pos (hnone id List.mem_cons_self)).trans ?_
      rw [LinkState.write, hfind]
      simp [buildM2MStatements, hfields, executeAll]
    obtain ⟨s', hs', hrows⟩ := ih hids (hs.step True.intro hstep) fun other hother => by
      have hne : (slug, other) ≠ (slug, id) := by
        rintro heq
        obtain ⟨-, rfl⟩ := Prod.mk.inj heq
        exact hid hother
      exact (Function.update_of_ne hne _ _).trans (hnone other (List.mem_cons_of_mem _ hother))
    refine ⟨s', hs', fun k => (hrows k).trans ?_⟩
    by_cases hk : k = (slug, id)
    · rw [hk, if_neg fun h => hid h.2, if_pos ⟨rfl, List.mem_cons_self⟩]
      exact Function.update_self _ _ _
    · have hiff : k.1 = slug ∧ k.2 ∈ id :: ids ↔ k.1 = slug ∧ k.2 ∈ ids := by
        refine and_congr_right fun hslug => ?_
        rw [List.mem_cons]
        exact or_iff_right fun heq => hk (Prod.ext hslug heq)
      simp only [hiff]
      congr 1
      exact Function.update_of_ne hk _ _

end HeadlessErp.M2M
