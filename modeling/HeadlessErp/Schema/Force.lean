import HeadlessErp.Schema.Snapshot

/-!
# Applying a snapshot with force

`POST /snapshot/apply?force=true` deletes the row of every collection it lists and creates the
collection again. The table stays as it is: `CREATE TABLE IF NOT EXISTS` changes none. A collection
is left with a table of its columns exactly when, in the state in which the loop comes to it for the
last time, `createCollection` has nothing to refuse (`Lands`) and the table of its name, or else the
columns it declares, are those of the snapshot (`Offers`).
-/

namespace HeadlessErp

open StateExcept

/-- The last of the items that satisfy a predicate. -/
theorem exists_last {α : Type} {p : α → Prop} {l : List α} (h : ∃ x ∈ l, p x) :
    ∃ pre x post, l = pre ++ x :: post ∧ p x ∧ ∀ y ∈ post, ¬p y := by
  induction l with
  | nil =>
    obtain ⟨x, hx, -⟩ := h
    cases hx
  | cons a l ih =>
    by_cases hl : ∃ x ∈ l, p x
    · obtain ⟨pre, x, post, rfl, hx, hpost⟩ := ih hl
      exact ⟨a :: pre, x, post, rfl, hx, hpost⟩
    · obtain ⟨x, hx, hpx⟩ := h
      rcases List.mem_cons.1 hx with rfl | hx
      · exact ⟨[], x, l, rfl, hpx, fun y hy hpy => hl ⟨y, hy, hpy⟩⟩
      · exact absurd ⟨x, hx, hpx⟩ hl

section
variable {N : Type} {env : SchemaEnv} {db : Catalogue N} {col : SnapshotCollection N}
  {cols : List (SnapshotCollection N)}

/-- The columns of a collection of a snapshot. -/
def SnapshotCollection.columns (col : SnapshotCollection N) : List String :=
  col.fields.flatMap SchemaField.columns

/-- The collection is registered, with a table that has the columns of the snapshot. -/
def Backed (db : Catalogue N) (col : SnapshotCollection N) : Prop :=
  ∃ row ∈ db.schemas, row.slug = col.slug ∧
    ∃ t ∈ db.tables, sameName t.name row.tableName = true ∧ t.Has col.columns

variable [JsNumber N]

/-- `createCollection` has nothing to refuse of a collection whose old row is deleted. -/
structure Lands (env : SchemaEnv) (db : Catalogue N) (col : SnapshotCollection N) : Prop where
  named : jsTrim col.name ≠ ""
  slug : validSlug (jsTrim col.slug) = .ok col.slug
  series : validateSeries col.namingSeries = .ok ()
  fields : validateFields env col.fields = .ok ()
  free : ∀ row ∈ db.schemas, row.slug ≠ col.slug →
    row.name ≠ jsTrim col.name ∧ row.tableName ≠ collectionTable env col.slug
  statements : (provision env (collectionTable env col.slug) col.toInput
    (db.deregister col.slug)).1 = .ok ()

/-- The table of a collection, or else the columns that its fields declare, has the columns. -/
def Offers (env : SchemaEnv) (db : Catalogue N) (col : SnapshotCollection N)
    (columns : List String) : Prop :=
  (∃ t ∈ db.tables, sameName t.name (collectionTable env col.slug) = true ∧ t.Has columns) ∨
    (∀ t ∈ db.tables, sameName t.name (collectionTable env col.slug) = false) ∧
      ∀ c ∈ columns, ∃ d ∈ collectionColumns col.fields {}, sameName d.name c = true

/-- The state in which the loop is after the collections. -/
def reached (env : SchemaEnv) (db : Catalogue N) (cols : List (SnapshotCollection N)) :
    Catalogue N :=
  (applySnapshot env true db cols).1

/-! ## One collection -/

omit [JsNumber N] in
theorem checkInput_eq_ok_iff {name slug : String} :
    checkInput env col.toInput = .ok (name, slug) ↔
      jsTrim col.name ≠ "" ∧ jsTrim col.name = name ∧ validSlug (jsTrim col.slug) = .ok slug ∧
        validateSeries col.namingSeries = .ok () ∧ validateFields env col.fields = .ok () := by
  constructor
  · intro h
    unfold checkInput at h
    obtain ⟨_, hname, h⟩ := exists_of_bind_eq_ok h
    obtain ⟨slug', hslug, h⟩ := exists_of_bind_eq_ok h
    obtain ⟨_, hseries, h⟩ := exists_of_bind_eq_ok h
    obtain ⟨_, hfields, h⟩ := exists_of_bind_eq_ok h
    obtain ⟨rfl, rfl⟩ := Prod.mk.inj (Except.ok.inj h)
    exact ⟨of_decide_eq_true (holds_of_require hname), rfl, hslug, hseries, hfields⟩
  · rintro ⟨hname, rfl, hslug, hseries, hfields⟩
    have hrequire : require (jsTrim col.toInput.name ≠ "") "Collection name is required" = .ok () :=
      if_pos (decide_eq_true hname)
    have hslug' : validSlug ((col.toInput.slug.map jsTrim).getD
        (underscored (jsTrim col.toInput.name))) = .ok slug := hslug
    have hseries' : validateSeries col.toInput.namingSeries = .ok () := hseries
    have hfields' : validateFields env col.toInput.fields = .ok () := hfields
    unfold checkInput
    rw [bind_of_eq_ok hrequire, bind_of_eq_ok hslug', bind_of_eq_ok hseries',
      bind_of_eq_ok hfields']
    rfl

/-- With force a collection is created again once its row is deleted. -/
theorem applyCollection_force (env : SchemaEnv) (db : Catalogue N) (col : SnapshotCollection N) :
    (applyCollection env true db col).1 =
      (createCollection env col.toInput (db.deregister col.slug)).2 := by
  have hdb : (if db.schemas.any (·.slug = col.slug) = true then db.deregister col.slug else db) =
      db.deregister col.slug := by
    split
    · rfl
    next hnone =>
      have hfilter : db.schemas.filter (·.slug ≠ col.slug) = db.schemas := by
        refine List.filter_eq_self.2 fun row hrow => ?_
        simp only [List.any_eq_true, not_exists, not_and, decide_eq_true_eq] at hnone
        exact decide_eq_true (hnone row hrow)
      rw [Catalogue.deregister, hfilter]
  unfold applyCollection
  simp only [Bool.not_true, Bool.and_false, Bool.false_eq_true, if_false]
  rw [hdb]
  rcases createCollection env col.toInput (db.deregister col.slug) with ⟨e | row, db'⟩
  · rfl
  · rfl

/-- What a collection that lands leaves. -/
theorem Lands.reached (h : Lands env db col) :
    (applyCollection env true db col).1 =
      { (provision env (collectionTable env col.slug) col.toInput (db.deregister col.slug)).2 with
        schemas := (db.deregister col.slug).schemas ++
          [col.toInput.row env (jsTrim col.name) col.slug] } := by
  rw [applyCollection_force]
  refine congrArg Prod.snd (createCollection_eq
    (checkInput_eq_ok_iff.2 ⟨h.named, rfl, h.slug, h.series, h.fields⟩) ?_ h.statements)
  intro row hrow
  obtain ⟨hrow, hslug⟩ := List.mem_filter.1 hrow
  have hslug := of_decide_eq_true hslug
  exact ⟨hslug, (h.free row hrow hslug).1, (h.free row hrow hslug).2⟩

/-- A collection only adds tables. It registers under its slug only if it lands, and what it
registers beside has the form of its slug. -/
theorem applyCollection_spec (env : SchemaEnv) (db : Catalogue N) (col : SnapshotCollection N) :
    Extends db.tables (applyCollection env true db col).1.tables ∧
      (∀ row ∈ db.schemas, row.slug ≠ col.slug →
        row ∈ (applyCollection env true db col).1.schemas) ∧
      ∀ row ∈ (applyCollection env true db col).1.schemas,
        (row ∈ db.schemas ∧ row.slug ≠ col.slug) ∨
          validSlug (jsTrim col.slug) = .ok row.slug ∧
            row.tableName = collectionTable env row.slug ∧
            (row.slug = col.slug → Lands env db col) := by
  have hold : ∀ row ∈ (db.deregister col.slug).schemas, row ∈ db.schemas ∧ row.slug ≠ col.slug :=
    fun row hrow => ⟨(List.mem_filter.1 hrow).1, of_decide_eq_true (List.mem_filter.1 hrow).2⟩
  have hkept : ∀ row ∈ db.schemas, row.slug ≠ col.slug →
      row ∈ (db.deregister col.slug).schemas :=
    fun row hrow hslug => List.mem_filter.2 ⟨hrow, decide_eq_true hslug⟩
  rw [applyCollection_force]
  rcases createCollection_cases env col.toInput (db.deregister col.slug) with
    ⟨-, hgrows⟩ | ⟨name, slug, hinput, hfree, hstatements⟩
  · refine ⟨hgrows.tables, fun row hrow hslug => ?_, fun row hrow => ?_⟩
    · rw [hgrows.schemas]
      exact hkept row hrow hslug
    · rw [hgrows.schemas] at hrow
      exact .inl (hold row hrow)
  · rw [createCollection_eq hinput hfree hstatements]
    have hgrows := leads_provision env (collectionTable env slug) col.toInput
      (db.deregister col.slug)
    dsimp only
    refine ⟨hgrows.tables, fun row hrow hslug => List.mem_append_left _ (hkept row hrow hslug),
      fun row hrow => ?_⟩
    rcases List.mem_append.1 hrow with hrow | hrow
    · exact .inl (hold row hrow)
    · obtain rfl := List.mem_singleton.1 hrow
      obtain ⟨hnamed, rfl, hslug, hseries, hfields⟩ := checkInput_eq_ok_iff.1 hinput
      refine .inr ⟨hslug, rfl, fun hsame => ?_⟩
      obtain rfl : slug = col.slug := hsame
      exact ⟨hnamed, hslug, hseries, hfields, fun row hrow hne =>
        (hfree row (hkept row hrow hne)).2, hstatements⟩

theorem Lands.tables (h : Lands env db col) : (applyCollection env true db col).1.tables =
    (provision env (collectionTable env col.slug) col.toInput
      (db.deregister col.slug)).2.tables := by
  rw [h.reached]

theorem Lands.registered (h : Lands env db col) : col.toInput.row env (jsTrim col.name) col.slug ∈
    (applyCollection env true db col).1.schemas := by
  rw [h.reached]
  exact List.mem_append_right _ (List.mem_singleton_self _)

/-! ## Runs -/

theorem reached_append (env : SchemaEnv) (db : Catalogue N)
    (pre post : List (SnapshotCollection N)) :
    reached env db (pre ++ post) = reached env (reached env db pre) post := by
  induction pre generalizing db with
  | nil => rfl
  | cons col pre ih => exact ih (applyCollection env true db col).1

theorem extends_reached (env : SchemaEnv) (db : Catalogue N) (cols : List (SnapshotCollection N)) :
    Extends db.tables (reached env db cols).tables := by
  induction cols generalizing db with
  | nil => exact Extends.rfl
  | cons col cols ih => exact (applyCollection_spec env db col).1.trans (ih _)

/-- The row of a collection that the loop does not come to again stays. -/
theorem mem_schemas_reached {row : SchemaRow N} (hrow : row ∈ db.schemas)
    (hcols : ∀ c ∈ cols, c.slug ≠ row.slug) : row ∈ (reached env db cols).schemas := by
  induction cols generalizing db with
  | nil => exact hrow
  | cons col cols ih =>
    refine ih ?_ fun c hc => hcols c (List.mem_cons_of_mem _ hc)
    exact (applyCollection_spec env db col).2.1 row hrow (hcols col List.mem_cons_self).symm

/-- A row that was not there is of a collection in the list. -/
theorem of_mem_schemas_reached (cols : List (SnapshotCollection N)) {row : SchemaRow N}
    (hrow : row ∈ (reached env db cols).schemas) :
    row ∈ db.schemas ∨ ∃ c ∈ cols, validSlug (jsTrim c.slug) = .ok row.slug := by
  induction cols generalizing db with
  | nil => exact .inl hrow
  | cons col cols ih =>
    rcases ih hrow with hrow | ⟨c, hc, hslug⟩
    · rcases (applyCollection_spec env db col).2.2 row hrow with hrow | hrow
      · exact .inl hrow.1
      · exact .inr ⟨col, List.mem_cons_self, hrow.1⟩
    · exact .inr ⟨c, List.mem_cons_of_mem _ hc, hslug⟩

/-! ## Force -/

/-- The snapshot can be applied to the database with force: the loop's last visit of each collection
lands, and finds or makes a table of its columns. -/
structure Reapplies (env : SchemaEnv) (db : Catalogue N) (cols : List (SnapshotCollection N)) :
    Prop where
  lands : ∀ pre col post, cols = pre ++ col :: post → (∀ c ∈ post, c.slug ≠ col.slug) →
    Lands env (reached env db pre) col
  offers : ∀ pre col post, cols = pre ++ col :: post → (∀ c ∈ post, c.slug ≠ col.slug) →
    ∀ c ∈ cols, c.slug = col.slug → Offers env (reached env db pre) col c.columns

/-- The slugs of collections that are all registered in the end are slugs. -/
theorem validSlug_of_backed (h : ∀ col ∈ cols, Backed (reached env db cols) col) :
    ∀ col ∈ cols, validSlug (jsTrim col.slug) = .ok col.slug := by
  by_contra hbad
  rw [not_forall] at hbad
  obtain ⟨bad, hbad⟩ := hbad
  rw [Classical.not_imp] at hbad
  -- of the collections that are not, the last one is registered by none behind it
  obtain ⟨pre, col, post, rfl, hcol, hpost⟩ :=
    exists_last (p := fun c : SnapshotCollection N => validSlug (jsTrim c.slug) ≠ .ok c.slug)
      ⟨bad, hbad⟩
  have hpost : ∀ c ∈ post, validSlug (jsTrim c.slug) = .ok c.slug :=
    fun c hc => not_not.1 (hpost c hc)
  obtain ⟨row, hrow, hslug, -⟩ := h col (List.mem_append_right _ List.mem_cons_self)
  rw [reached_append] at hrow
  rcases of_mem_schemas_reached post hrow with hrow | ⟨c, hc, hvalid⟩
  · rcases (applyCollection_spec env _ col).2.2 row hrow with ⟨-, hne⟩ | ⟨hvalid, -⟩
    · exact hne hslug
    · rw [hslug] at hvalid
      exact hcol hvalid
  · have hsame : c.slug = col.slug :=
      (Except.ok.inj ((hpost c hc).symm.trans hvalid)).trans hslug
    exact hcol (hsame ▸ hpost c hc)

/-- Force leaves every collection of a snapshot with its columns exactly where it can be applied. -/
theorem backed_iff :
    (∀ col ∈ cols, Backed (reached env db cols) col) ↔ Reapplies env db cols := by
  constructor
  · intro h
    have hslugs := validSlug_of_backed h
    -- a row of a slug that the loop does not come to again is of its last visit
    have hlast : ∀ pre col post, cols = pre ++ col :: post → (∀ c ∈ post, c.slug ≠ col.slug) →
        ∀ row ∈ (reached env db cols).schemas, row.slug = col.slug →
          Lands env (reached env db pre) col ∧ row.tableName = collectionTable env col.slug := by
      rintro pre col post rfl hpost row hrow hslug
      rw [reached_append] at hrow
      rcases of_mem_schemas_reached post hrow with hrow | ⟨c, hc, hvalid⟩
      · rcases (applyCollection_spec env _ col).2.2 row hrow with ⟨-, hne⟩ | ⟨-, htable, hlands⟩
        · exact absurd hslug hne
        · rw [hslug] at htable
          exact ⟨hlands hslug, htable⟩
      · have hmem := hslugs c (List.mem_append_right _ (List.mem_cons_of_mem _ hc))
        exact absurd ((Except.ok.inj (hmem.symm.trans hvalid)).trans hslug) (hpost c hc)
    refine ⟨fun pre col post hcols hpost => ?_, fun pre col post hcols hpost c hc hslug => ?_⟩
    · obtain ⟨row, hrow, hslug, -⟩ :=
        h col (by rw [hcols]; exact List.mem_append_right _ List.mem_cons_self)
      exact (hlast pre col post hcols hpost row hrow hslug).1
    · obtain ⟨row, hrow, hrowslug, t, ht, hname, hhas⟩ := h c hc
      obtain ⟨hlands, htable⟩ := hlast pre col post hcols hpost row hrow (hrowslug.trans hslug)
      rw [htable] at hname
      rw [hcols, reached_append] at ht
      have hmade := table_of_provision hlands.statements
      obtain ⟨u, hu, huname⟩ := hmade.1
      have ht : t ∈ (provision env (collectionTable env col.slug) col.toInput
          ((reached env db pre).deregister col.slug)).2.tables := by
        rw [← hlands.tables] at hu ⊢
        exact (extends_reached env _ post).mem_of_named hu ht
          (sameName_iff.2 ((sameName_iff.1 huname).trans (sameName_iff.1 hname).symm))
      rcases hmade.2 t ht hname with hold | ⟨hfree, hcolumns⟩
      · exact .inl ⟨t, hold, hname, hhas⟩
      · refine .inr ⟨hfree, ?_⟩
        rw [PhysicalTable.Has, hcolumns] at hhas
        exact hhas
  · intro h col hcol
    obtain ⟨pre, last, post, hcols, hslug, hpost⟩ :=
      exists_last (p := fun c : SnapshotCollection N => c.slug = col.slug) ⟨col, hcol, rfl⟩
    have hpost : ∀ c ∈ post, c.slug ≠ last.slug := fun c hc => hslug ▸ hpost c hc
    have hlands := h.lands pre last post hcols hpost
    have hmade := table_of_provision hlands.statements
    have hgrows := leads_provision env (collectionTable env last.slug) last.toInput
      ((reached env db pre).deregister last.slug)
    have hextends := extends_reached env (applyCollection env true (reached env db pre) last).1 post
    have hfinal : reached env db cols =
        reached env (applyCollection env true (reached env db pre) last).1 post := by
      rw [hcols, reached_append]
      rfl
    rw [hfinal]
    refine ⟨last.toInput.row env (jsTrim last.name) last.slug,
      mem_schemas_reached hlands.registered hpost, hslug, ?_⟩
    rcases h.offers pre last post hcols hpost col hcol hslug.symm with
      ⟨t, ht, hname, hhas⟩ | ⟨hfree, hdeclares⟩
    · refine ⟨t, hextends.keeps t ?_, hname, hhas⟩
      rw [hlands.tables]
      exact hgrows.tables.keeps t ht
    · obtain ⟨t, ht, hname⟩ := hmade.1
      refine ⟨t, hextends.keeps t ?_, hname, ?_⟩
      · rw [hlands.tables]
        exact ht
      · rcases hmade.2 t ht hname with hold | ⟨-, hcolumns⟩
        · rw [hfree t hold] at hname
          cases hname
        · rw [PhysicalTable.Has, hcolumns]
          exact hdeclares

end

/-! ## Snapshots -/

/-- Exporting and applying restores the collections, and applying with force leaves each with its
columns, exactly where there are none to restore and the forced snapshot can be applied. -/
theorem snapshots_iff {N : Type} [JsNumber N] (env : SchemaEnv) (db target : Catalogue N)
    (cols : List (SnapshotCollection N)) :
    (RoundTrips env db ∧
      ∀ col ∈ cols, Backed (applySnapshot env true target cols).1 col) ↔
    db.schemas = [] ∧ Reapplies env target cols :=
  and_congr roundTrips_iff backed_iff

/-- The platform of the examples. -/
def schemaEnv : SchemaEnv where
  functions := fun _ => false
  tablePrefix := "cms_"
  quotedTexts := false

/-- A collection with one field, and the system fields of the default. -/
def articlesInput : CreateCollectionInput (Option Int) where
  name := "Articles"
  slug := some "articles"
  fields := [{ name := "title", type := "text" }]

/-- The collection is created, and the application of its export refuses the owner field that the
creation has added. -/
theorem not_roundTrips_articles :
    (createCollection schemaEnv articlesInput {}).1.isOk = true ∧
      (applySnapshot schemaEnv false {}
        (createCollection schemaEnv articlesInput {}).2.exported).2 =
        [("articles", .error (.validation "\"_owner\" is a reserved field name" none))] ∧
      ¬RoundTrips schemaEnv (createCollection schemaEnv articlesInput {}).2 := by
  have hok : (createCollection schemaEnv articlesInput {}).1.isOk = true := by decide +kernel
  have happlied : (applySnapshot schemaEnv false {}
      (createCollection schemaEnv articlesInput {}).2.exported).2 =
      [("articles", .error (.validation "\"_owner\" is a reserved field name" none))] := by
    decide +kernel
  refine ⟨hok, happlied, fun h => ?_⟩
  have herrors := h.1
  rw [happlied] at herrors
  exact herrors _ (List.mem_singleton_self _) _ rfl

end HeadlessErp
