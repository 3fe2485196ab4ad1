import Mathlib.Data.List.Basic
import Mathlib.Data.List.Pairwise
import Mathlib.Tactic.ByContra
import HeadlessErp.Schema.UniqueIndexes

/-!
# The canonical unique indexes

After `syncUniqueIndexes` every column that is to be unique should have one index on it alone, of
the canonical name and shape, and another sweep should change nothing (`Normalises`). The names are
read before the stale indexes are dropped, so that an index of the canonical name and another shape
is dropped and not made again; `normalises_iff` says for which indexes the function does what it
should.
-/

namespace HeadlessErp

/-! ## Names -/

theorem sameName_append (a b c : String) : sameName (a ++ b) (a ++ c) = sameName b c := by
  rw [Bool.eq_iff_iff, sameName_iff, sameName_iff]
  simp

namespace IndexState

variable {s : IndexState}

/-- Indexes of one name are one index. -/
theorem eq_of_sameName {a b : TableIndex} (ha : a ∈ s.indexes) (hb : b ∈ s.indexes)
    (h : sameName a.name b.name = true) : a = b := by
  by_contra hne
  have hsymm : Std.Symm fun x y : TableIndex => sameName x.name y.name = false :=
    ⟨fun x y hxy => by rw [sameName_comm, hxy]⟩
  have hpair := s.distinct.forall ha hb hne
  rw [hpair] at h
  cases h

theorem mem_create {ix other : TableIndex} :
    other ∈ (s.create ix).indexes ↔
      other ∈ s.indexes ∨ other = ix ∧ ∀ a ∈ s.indexes, sameName a.name ix.name = false := by
  unfold create
  split
  · next h =>
    obtain ⟨a, ha, hsame⟩ := h
    constructor
    · exact .inl
    · rintro (h | ⟨-, hfree⟩)
      · exact h
      · rw [hfree a ha] at hsame
        cases hsame
  · next h =>
    have hfree : ∀ a ∈ s.indexes, sameName a.name ix.name = false := fun a ha =>
      Bool.eq_false_iff.2 fun hsame => h ⟨a, ha, hsame⟩
    simp only [List.mem_append, List.mem_singleton]
    exact or_congr_right ⟨fun h => ⟨h, hfree⟩, fun h => h.1⟩

@[simp] theorem constraints_create (ix : TableIndex) :
    (s.create ix).constraints = s.constraints := by
  unfold create
  split <;> rfl

theorem mem_dropStale {name : String} {ix : TableIndex} :
    ix ∈ (s.dropStale name).indexes ↔
      ix ∈ s.indexes ∧ ¬(isIdentifier name = true ∧ sameName ix.name name = true) := by
  unfold dropStale
  split
  · next h => simp [drop, h]
  · next h => simp [h]

@[simp] theorem constraints_dropStale (name : String) :
    (s.dropStale name).constraints = s.constraints := by
  unfold dropStale
  split <;> rfl

/-- What is left after the stale names are dropped. -/
theorem mem_foldl_dropStale {stale : List String} {ix : TableIndex} :
    ix ∈ (stale.foldl dropStale s).indexes ↔ ix ∈ s.indexes ∧
      ∀ name ∈ stale, ¬(isIdentifier name = true ∧ sameName ix.name name = true) := by
  induction stale generalizing s with
  | nil => simp
  | cons name stale ih =>
    rw [List.foldl_cons, ih, mem_dropStale, List.forall_mem_cons, and_assoc]

theorem constraints_foldl_dropStale (stale : List String) :
    (stale.foldl dropStale s).constraints = s.constraints := by
  induction stale generalizing s with
  | nil => rfl
  | cons name stale ih => rw [List.foldl_cons, ih, constraints_dropStale]

theorem mem_foldl_create_of_mem {made : List TableIndex} {ix : TableIndex} (h : ix ∈ s.indexes) :
    ix ∈ (made.foldl create s).indexes := by
  induction made generalizing s with
  | nil => exact h
  | cons a made ih => exact ih (mem_create.2 (.inl h))

/-- An index is made where none has its name. -/
theorem mem_foldl_create {made : List TableIndex} {ix : TableIndex} (hix : ix ∈ made)
    (hfree : ∀ a ∈ s.indexes, sameName a.name ix.name = false)
    (hmade : ∀ a ∈ made, sameName a.name ix.name = true → a = ix) :
    ix ∈ (made.foldl create s).indexes := by
  induction made generalizing s with
  | nil => cases hix
  | cons b made ih =>
    rw [List.foldl_cons]
    by_cases hb : b = ix
    · subst hb
      exact mem_foldl_create_of_mem (mem_create.2 (.inr ⟨rfl, hfree⟩))
    · refine ih ((List.mem_cons.1 hix).resolve_left (Ne.symm hb)) (fun a ha => ?_)
        fun a ha => hmade a (List.mem_cons_of_mem _ ha)
      rcases mem_create.1 ha with ha | ⟨rfl, -⟩
      · exact hfree a ha
      · exact Bool.eq_false_iff.2 fun hsame => hb (hmade _ List.mem_cons_self hsame)

theorem of_mem_foldl_create {made : List TableIndex} {ix : TableIndex}
    (h : ix ∈ (made.foldl create s).indexes) : ix ∈ s.indexes ∨ ix ∈ made := by
  induction made generalizing s with
  | nil => exact .inl h
  | cons a made ih =>
    rcases ih h with h | h
    · rcases mem_create.1 h with h | ⟨rfl, -⟩
      · exact .inl h
      · exact .inr List.mem_cons_self
    · exact .inr (List.mem_cons_of_mem _ h)

theorem constraints_foldl_create (made : List TableIndex) :
    (made.foldl create s).constraints = s.constraints := by
  induction made generalizing s with
  | nil => rfl
  | cons a made ih => rw [List.foldl_cons, ih, constraints_create]

end IndexState

/-! ## Columns -/

section
variable {N : Type}

theorem onLast_append (change : ColumnDef → ColumnDef) (columns : List ColumnDef) (c : ColumnDef) :
    onLast change (columns ++ [c]) = columns ++ [change c] := by
  simp [onLast]

variable [JsNumber N]

/-- A column of the name is declared unique. -/
def DeclaredUnique (columns : List ColumnDef) (name : String) : Prop :=
  ∃ c ∈ columns, c.name = name ∧ c.unique = true

theorem declaredUnique_onLast {columns : List ColumnDef} {name : String} (f : SchemaField N)
    (h : DeclaredUnique columns name) : DeclaredUnique (onLast (constrain f) columns) name := by
  obtain ⟨c, hc, hname, hunique⟩ := h
  rcases List.eq_nil_or_concat' columns with rfl | ⟨init, last, rfl⟩
  · cases hc
  · rw [onLast_append]
    rcases List.mem_append.1 hc with hc | hc
    · exact ⟨c, List.mem_append_left _ hc, hname, hunique⟩
    · obtain rfl := List.mem_singleton.1 hc
      refine ⟨constrain f c, by simp, hname, ?_⟩
      rw [constrain, hunique, Bool.true_or]

/-- A unique field with a column of its own declares the column unique. -/
theorem declaredUnique_collectionColumns {fields : List (SchemaField N)} {f : SchemaField N}
    (hf : f ∈ fields) (hunique : f.unique = true)
    (hcolumn : ∃ type nullable, addColumns f f.name = [{ name := f.name, type, nullable }])
    (o : SystemFieldOptions) : DeclaredUnique (collectionColumns fields o) f.name := by
  have hfold : ∀ columns : List ColumnDef,
      DeclaredUnique (fields.foldl (fun columns g =>
        onLast (constrain g) (columns ++ addColumns g g.name)) columns) f.name := by
    have hkeep : ∀ (gs : List (SchemaField N)) (columns : List ColumnDef),
        DeclaredUnique columns f.name → DeclaredUnique (gs.foldl (fun columns g =>
          onLast (constrain g) (columns ++ addColumns g g.name)) columns) f.name := by
      intro gs
      induction gs with
      | nil => exact fun _ h => h
      | cons g gs ih =>
        intro columns h
        refine ih _ (declaredUnique_onLast g ?_)
        obtain ⟨c, hc, hrest⟩ := h
        exact ⟨c, List.mem_append_left _ hc, hrest⟩
    obtain ⟨before, after, rfl⟩ := List.append_of_mem hf
    intro columns
    rw [List.foldl_append, List.foldl_cons]
    refine hkeep after _ ?_
    obtain ⟨type, nullable, hadd⟩ := hcolumn
    rw [hadd, onLast_append]
    refine ⟨_, List.mem_append_right _ List.mem_cons_self, rfl, ?_⟩
    rw [constrain, hunique, Bool.or_true]
  obtain ⟨c, hc, hrest⟩ := hfold [{ name := "id", type := .text, primaryKey := true }]
  refine ⟨c, ?_, hrest⟩
  rw [collectionColumns, applySystemColumns]
  simp only [List.append_assoc]
  exact List.mem_append_left _ hc

theorem map_name_onLast (f : SchemaField N) (columns : List ColumnDef) :
    (onLast (constrain f) columns).map (·.name) = columns.map (·.name) := by
  rcases List.eq_nil_or_concat' columns with rfl | ⟨init, last, rfl⟩
  · rfl
  · rw [onLast_append, List.map_append, List.map_append]
    rfl

/-- The columns of the fields have the names that the fields give them. -/
theorem map_name_columns (fields : List (SchemaField N)) (columns : List ColumnDef) :
    (fields.foldl (fun columns g => onLast (constrain g) (columns ++ addColumns g g.name))
      columns).map (·.name) =
      columns.map (·.name) ++ fields.flatMap fun g => (addColumns g g.name).map (·.name) := by
  induction fields generalizing columns with
  | nil => simp
  | cons g fields ih =>
    rw [List.foldl_cons, ih, map_name_onLast, List.map_append, List.flatMap_cons,
      List.append_assoc]

omit [JsNumber N] in
theorem ne_of_getLast? {a b : String} (h : a.toList.getLast? ≠ b.toList.getLast?) : a ≠ b :=
  fun heq => h (by rw [heq])

omit [JsNumber N] in
/-- A field that is not the engine's adds no column `deleted_at`. -/
theorem deletedAt_notMem_addColumns {f : SchemaField N} (hf : f.name ≠ "deleted_at") :
    ∀ c ∈ addColumns f f.name, c.name ≠ "deleted_at" := by
  have htype : (f.name ++ "_type").toList.getLast? = some 'e' := by simp
  have hid : (f.name ++ "_id").toList.getLast? = some 'd' := by simp
  intro c hc
  unfold addColumns at hc
  split at hc
  · split at hc
    · rwa [List.mem_singleton.1 hc]
    · rwa [List.mem_singleton.1 hc]
    · rwa [List.mem_singleton.1 hc]
    · rwa [List.mem_singleton.1 hc]
  · split at hc
    · cases hc
    · rwa [List.mem_singleton.1 hc]
    · rcases List.mem_cons.1 hc with rfl | hc
      · exact ne_of_getLast? (by rw [htype]; decide)
      · rw [List.mem_singleton.1 hc]
        exact ne_of_getLast? (by rw [hid]; decide)

/-- The table has a column `deleted_at` where the options say so. -/
theorem any_deletedAt {fields : List (SchemaField N)}
    (hfields : ∀ f ∈ fields, f.name ≠ "deleted_at") (o : SystemFieldOptions) :
    (collectionColumns fields o).any (·.name = "deleted_at") = o.deletedAt := by
  have hnames : "deleted_at" ∉ (fields.foldl (fun columns g =>
      onLast (constrain g) (columns ++ addColumns g g.name))
      [{ name := "id", type := .text, primaryKey := true }]).map (·.name) := by
    rw [map_name_columns, List.mem_append, List.mem_flatMap]
    rintro (h | ⟨f, hf, h⟩)
    · simp at h
    · obtain ⟨c, hc, hname⟩ := List.mem_map.1 h
      exact deletedAt_notMem_addColumns (hfields f hf) c hc hname
  have hnone : (fields.foldl (fun columns g =>
      onLast (constrain g) (columns ++ addColumns g g.name))
      [{ name := "id", type := .text, primaryKey := true }]).any (·.name = "deleted_at") =
      false := by
    rw [List.any_eq_false]
    intro c hc hname
    exact hnames (List.mem_map.2 ⟨c, hc, by simpa using hname⟩)
  rw [collectionColumns, applySystemColumns]
  simp only [List.any_append, hnone, Bool.false_or]
  cases o.docStatus <;> cases o.displayNumber <;> cases o.owner <;> cases o.deletedAt <;>
    cases o.deletedBy <;> cases o.createdBy <;> cases o.updatedBy <;> rfl

end

namespace IndexedTable

variable {N : Type} {T : IndexedTable N} {s : IndexState}

/-! ## Unique columns -/

/-- The columns that are to be unique. -/
def uniqueNames (T : IndexedTable N) : List String := T.uniqueFields.map (·.name)

theorem mem_uniqueNames {c : String} : c ∈ T.uniqueNames ↔
    ∃ f ∈ T.fields, (f.unique = true ∧ f.name ≠ "" ∧
      f.type ∉ ["o2m", "m2m", "table", "formula", "m2a"]) ∧ f.name = c := by
  simp [uniqueNames, uniqueFields, and_assoc]

theorem uniqueCols_eq (T : IndexedTable N) : T.uniqueCols = .ok T.uniqueNames := by
  have hchecked : ∀ f ∈ T.uniqueFields,
      sanitizeIdentifier f.name "backfill.uniqueCol" = .ok f.name := by
    intro f hf
    have hf := List.mem_filter.1 hf
    have hunique : f.unique = true := by
      have := hf.2
      simp only [Bool.and_eq_true] at this
      exact this.1.1
    rw [sanitizeIdentifier, if_pos (T.checked f hf.1 hunique).1]
  rw [uniqueCols, uniqueNames]
  generalize T.uniqueFields = fields at hchecked
  induction fields with
  | nil => rfl
  | cons f fs ih =>
    rw [List.mapM_cons, hchecked f List.mem_cons_self,
      ih fun g hg => hchecked g (List.mem_cons_of_mem _ hg)]
    rfl

theorem notMem_systemColumns {c : String} (hc : c ∈ T.uniqueNames) : c ∉ systemColumns := by
  obtain ⟨f, hf, ⟨hunique, -, -⟩, rfl⟩ := mem_uniqueNames.1 hc
  exact (T.checked f hf hunique).2.1

theorem eq_of_sameName {c d : String} (hc : c ∈ T.uniqueNames) (hd : d ∈ T.uniqueNames)
    (h : sameName c d = true) : c = d := by
  obtain ⟨f, hf, -, rfl⟩ := mem_uniqueNames.1 hc
  obtain ⟨g, hg, -, rfl⟩ := mem_uniqueNames.1 hd
  exact T.distinct f hf g hg h

theorem sameName_uniqueName (T : IndexedTable N) (c d : String) :
    sameName (T.uniqueName c) (T.uniqueName d) = sameName c d := by
  rw [uniqueName, uniqueName, sameName_append]

theorem uniqueName_inj {c d : String} (h : T.uniqueName c = T.uniqueName d) : c = d := by
  have hlist := congrArg String.toList h
  simp only [uniqueName, String.toList_append, List.append_cancel_left_eq] at hlist
  exact String.toList_injective hlist

theorem uniqueIndex_inj {c d : String} {soft soft' : Bool}
    (h : T.uniqueIndex soft c = T.uniqueIndex soft' d) : c = d :=
  uniqueName_inj (congrArg TableIndex.name h)

theorem uniqueName_ne_autoName (T : IndexedTable N) (c : String) (i : Nat) :
    T.uniqueName c ≠ autoName T.name i := by
  intro h
  have hunique : (T.uniqueName c).toList.head? = some 'u' := by
    simp [uniqueName]
  have hdigits : ∀ digits : String,
      ("sqlite_autoindex_" ++ T.name ++ "_" ++ digits).toList.head? = some 's' := by
    intro digits
    simp
  have hauto : (autoName T.name i).toList.head? = some 's' := hdigits _
  rw [h, hauto] at hunique
  exact absurd (Option.some.inj hunique) (by decide)

theorem uniqueName_mem_names {c : String} :
    T.uniqueName c ∈ s.names T.name ↔ ∃ ix ∈ s.indexes, ix.name = T.uniqueName c := by
  rw [IndexState.names, List.mem_append, List.mem_map]
  refine or_iff_left ?_
  rw [List.mem_mapIdx]
  rintro ⟨i, -, h⟩
  exact T.uniqueName_ne_autoName c i h.symm

/-! ## The verdicts -/

/-- The service drops the index. -/
def Drops (T : IndexedTable N) (ix : TableIndex) : Prop :=
  ix.table = T.name ∧ T.verdict T.uniqueNames ix.info = .drop ∧ isIdentifier ix.name = true

/-- A `UNIQUE` of the table itself makes a column unique that is to be unique. -/
def NeedsRebuild (T : IndexedTable N) (s : IndexState) : Prop :=
  ∃ k ∈ s.constraints, k.primaryKey = false ∧ ∃ c ∈ T.uniqueNames, k.columns = [c]

theorem verdict_eq_rebuild_iff {i : Nat} {k : ConstraintIndex} :
    T.verdict T.uniqueNames (k.info T.name i) = .rebuild ↔
      k.primaryKey = false ∧ ∃ c ∈ T.uniqueNames, k.columns = [c] := by
  have hcolumns : indexColumns (k.info T.name i) = k.columns := by
    have hsome : (k.columns.map some).filterMap id = k.columns := by
      rw [List.filterMap_map]
      exact List.filterMap_some
    exact hsome
  unfold verdict
  rw [hcolumns]
  cases hkey : k.primaryKey with
  | true => simp [ConstraintIndex.info, hkey]
  | false =>
    rw [if_neg (by simp [ConstraintIndex.info, hkey])]
    split
    · next c hc =>
      rw [hc]
      by_cases hmem : c ∈ T.uniqueNames
      · have hname : ¬(autoName T.name i = T.uniqueName c) :=
          fun h => T.uniqueName_ne_autoName c i h.symm
        simp [hmem, hname, ConstraintIndex.info, hkey]
      · simp [hmem]
    · next hmany =>
      refine ⟨fun h => (by cases h), ?_⟩
      rintro ⟨-, c, -, hc⟩
      exact absurd hc (hmany c)

theorem verdict_ne_rebuild (ix : TableIndex) : T.verdict T.uniqueNames ix.info ≠ .rebuild := by
  unfold verdict
  split
  · simp
  · split
    · split
      · simp
      · split
        · simp
        · simp [TableIndex.info]
    · simp

theorem verdict_ne_drop {i : Nat} {k : ConstraintIndex} :
    T.verdict T.uniqueNames (k.info T.name i) ≠ .drop := by
  unfold verdict
  split
  · simp
  · next horigin =>
    have hunique : (k.info T.name i).origin = .unique := by
      cases hkey : k.primaryKey <;> simp_all [ConstraintIndex.info]
    split
    · split
      · simp
      · split
        · simp
        · simp
    · simp

theorem any_rebuild_iff : ((s.indexList T.name).any (T.verdict T.uniqueNames · = .rebuild)) = true ↔
    T.NeedsRebuild s := by
  rw [List.any_eq_true, IndexState.indexList]
  constructor
  · rintro ⟨ix, hix, h⟩
    have h : T.verdict T.uniqueNames ix = .rebuild := by simpa using h
    rcases List.mem_append.1 hix with hix | hix
    · obtain ⟨ix, -, rfl⟩ := List.mem_map.1 hix
      exact absurd h (verdict_ne_rebuild ix)
    · obtain ⟨i, hi, rfl⟩ := List.mem_mapIdx.1 hix
      exact ⟨_, List.getElem_mem hi, verdict_eq_rebuild_iff.1 h⟩
  · rintro ⟨k, hk, h⟩
    obtain ⟨i, hi, rfl⟩ := List.getElem_of_mem hk
    refine ⟨s.constraints[i].info T.name i,
      List.mem_append_right _ (List.mem_mapIdx.2 ⟨i, hi, rfl⟩), ?_⟩
    simpa using verdict_eq_rebuild_iff.2 h

/-- The verdict on a unique index of one column. -/
theorem verdict_of_single {ix : TableIndex} {c : String} (hunique : ix.unique = true)
    (hcolumns : ix.columns = [some c]) (hc : c ∈ T.uniqueNames) :
    T.verdict T.uniqueNames ix.info =
      if ix.name = T.uniqueName c ∧ ix.condition.isSome = T.softDeletable then .keep
      else .drop := by
  have hindex : indexColumns ix.info = [c] := by
    rw [indexColumns, TableIndex.info, hcolumns]
    rfl
  unfold verdict
  rw [if_neg (by simp [TableIndex.info, hunique]), hindex]
  dsimp only
  rw [if_neg (by simp [hc])]
  by_cases h : ix.name = T.uniqueName c ∧ ix.condition.isSome = T.softDeletable
  · rw [if_pos h, if_pos (by simp [TableIndex.info, h.1, h.2])]
  · have hother : ¬((decide (ix.info.name = T.uniqueName c) &&
        decide (ix.info.isPartial = T.softDeletable)) = true) := by
      rw [Bool.and_eq_true, decide_eq_true_eq, decide_eq_true_eq]
      exact h
    rw [if_neg h, if_neg hother, if_neg (by simp [TableIndex.info])]

theorem verdict_uniqueIndex (c : String) :
    T.verdict T.uniqueNames (T.uniqueIndex T.softDeletable c).info = .keep := by
  by_cases hc : c ∈ T.uniqueNames
  · rw [verdict_of_single rfl rfl hc, if_pos]
    refine ⟨rfl, ?_⟩
    simp only [uniqueIndex, live]
    split <;> simp_all
  · have hindex : indexColumns (T.uniqueIndex T.softDeletable c).info = [c] := rfl
    unfold verdict
    rw [if_neg (by simp [TableIndex.info, uniqueIndex]), hindex]
    simp [hc]

/-! ## The two loops -/

/-- The names of the indexes that the service drops. -/
def staleNames (T : IndexedTable N) (s : IndexState) : List String :=
  ((s.indexList T.name).filter (T.verdict T.uniqueNames · = .drop)).map (·.name)

theorem mem_staleNames {name : String} : name ∈ T.staleNames s ↔
    ∃ ix ∈ s.indexes, ix.table = T.name ∧ T.verdict T.uniqueNames ix.info = .drop ∧
      ix.name = name := by
  rw [staleNames, List.mem_map]
  constructor
  · rintro ⟨ix, hix, rfl⟩
    obtain ⟨hix, hverdict⟩ := List.mem_filter.1 hix
    have hverdict : T.verdict T.uniqueNames ix = .drop := by simpa using hverdict
    rcases List.mem_append.1 hix with hix | hix
    · obtain ⟨made, hmade, rfl⟩ := List.mem_map.1 hix
      obtain ⟨hmem, htable⟩ := List.mem_filter.1 hmade
      exact ⟨made, hmem, by simpa using htable, hverdict, rfl⟩
    · obtain ⟨i, hi, rfl⟩ := List.mem_mapIdx.1 hix
      exact absurd hverdict verdict_ne_drop
  · rintro ⟨ix, hix, htable, hverdict, rfl⟩
    refine ⟨ix.info, List.mem_filter.2 ⟨List.mem_append_left _ (List.mem_map_of_mem ?_), ?_⟩, rfl⟩
    · exact List.mem_filter.2 ⟨hix, by simpa using htable⟩
    · simpa using hverdict

/-- The indexes after the stale ones are dropped. -/
def dropped (T : IndexedTable N) (s : IndexState) : IndexState :=
  (T.staleNames s).foldl IndexState.dropStale s

theorem mem_dropped {ix : TableIndex} :
    ix ∈ (T.dropped s).indexes ↔ ix ∈ s.indexes ∧ ¬T.Drops ix := by
  rw [dropped, IndexState.mem_foldl_dropStale]
  refine and_congr_right fun hix => ⟨fun h hdrops => ?_, fun h name hname hboth => ?_⟩
  · obtain ⟨htable, hverdict, hident⟩ := hdrops
    exact h ix.name (mem_staleNames.2 ⟨ix, hix, htable, hverdict, rfl⟩)
      ⟨hident, sameName_self _⟩
  · obtain ⟨other, hother, htable, hverdict, rfl⟩ := mem_staleNames.1 hname
    obtain rfl := IndexState.eq_of_sameName hix hother hboth.2
    exact h ⟨htable, hverdict, hboth.1⟩

/-- An index after the loop over the columns was there before or is made by it. -/
theorem of_mem_createMissing {existing columns : List String} {s : IndexState} {ix : TableIndex}
    (h : ix ∈ (T.createMissing existing columns s).indexes) : ix ∈ s.indexes ∨
      ∃ c ∈ columns, ix = T.uniqueIndex T.softDeletable c ∧ T.uniqueName c ∉ existing := by
  induction columns generalizing existing s with
  | nil => exact .inl h
  | cons d columns ih =>
    have hlater : (∃ c ∈ columns, ix = T.uniqueIndex T.softDeletable c ∧
        T.uniqueName c ∉ existing) → ∃ c ∈ d :: columns,
        ix = T.uniqueIndex T.softDeletable c ∧ T.uniqueName c ∉ existing :=
      fun ⟨c, hc, hrest⟩ => ⟨c, List.mem_cons_of_mem _ hc, hrest⟩
    rw [createMissing] at h
    split at h
    · exact (ih h).imp_right hlater
    · next hnew =>
      split at h
      · exact (ih h).imp_right hlater
      · rcases ih h with h | ⟨c, hc, hix, hnot⟩
        · rcases IndexState.mem_create.1 h with h | ⟨rfl, -⟩
          · exact .inl h
          · exact .inr ⟨d, List.mem_cons_self, rfl, by simpa using hnew⟩
        · exact .inr (hlater ⟨c, hc, hix, fun hin => hnot (List.mem_cons_of_mem _ hin)⟩)

theorem mem_createMissing_of_mem {existing columns : List String} {s : IndexState}
    {ix : TableIndex} (h : ix ∈ s.indexes) :
    ix ∈ (T.createMissing existing columns s).indexes := by
  induction columns generalizing existing s with
  | nil => exact h
  | cons d columns ih =>
    rw [createMissing]
    split
    · exact ih h
    · split
      · exact ih h
      · exact ih (IndexState.mem_create.2 (.inl h))

/-- The index of a column is made where its name is free. -/
theorem mem_createMissing {existing columns : List String} {s : IndexState} {c : String}
    (hcolumns : ∀ d ∈ columns, d ∈ T.uniqueNames) (hc : c ∈ columns)
    (hlive : T.duplicated.contains c = false) (hnew : T.uniqueName c ∉ existing)
    (hfree : ∀ a ∈ s.indexes, sameName a.name (T.uniqueName c) = false) :
    T.uniqueIndex T.softDeletable c ∈ (T.createMissing existing columns s).indexes := by
  induction columns generalizing existing s with
  | nil => cases hc
  | cons d columns ih =>
    have hrest : ∀ d ∈ columns, d ∈ T.uniqueNames := fun e he =>
      hcolumns e (List.mem_cons_of_mem _ he)
    rw [createMissing]
    by_cases hd : d = c
    · subst hd
      rw [if_neg (by simpa using hnew), if_neg (by simpa using hlive)]
      exact mem_createMissing_of_mem (IndexState.mem_create.2 (.inr ⟨rfl, hfree⟩))
    · have hc := (List.mem_cons.1 hc).resolve_left (Ne.symm hd)
      have hne : sameName d c = false := Bool.eq_false_iff.2 fun hsame =>
        hd (eq_of_sameName (hcolumns d List.mem_cons_self) (hrest c hc) hsame)
      split
      · exact ih hrest hc hnew hfree
      · split
        · exact ih hrest hc hnew hfree
        · refine ih hrest hc ?_ fun a ha => ?_
          · rw [List.mem_cons, not_or]
            exact ⟨fun h => hd (uniqueName_inj h).symm, hnew⟩
          · rcases IndexState.mem_create.1 ha with ha | ⟨rfl, -⟩
            · exact hfree a ha
            · exact (T.sameName_uniqueName d c).trans hne

theorem constraints_createMissing (existing columns : List String) (s : IndexState) :
    (T.createMissing existing columns s).constraints = s.constraints := by
  induction columns generalizing existing s with
  | nil => rfl
  | cons d columns ih =>
    rw [createMissing]
    split
    · exact ih _ _
    · split
      · exact ih _ _
      · rw [ih, IndexState.constraints_create]

/-- Nothing is made where every name is taken. -/
theorem createMissing_of_mem {existing columns : List String}
    (h : ∀ c ∈ columns, T.uniqueName c ∈ existing) (s : IndexState) :
    T.createMissing existing columns s = s := by
  induction columns with
  | nil => rfl
  | cons d columns ih =>
    rw [createMissing, if_pos (by simpa using h d List.mem_cons_self),
      ih fun c hc => h c (List.mem_cons_of_mem _ hc)]

variable [JsNumber N]

/-! ## A sweep -/

theorem sweep_of_rebuild (h : T.NeedsRebuild s) :
    T.sweep s = if T.rebuilds then .ok (T.rebuildTable s) else .error "rebuild_table" := by
  have hsome : ¬T.uniqueNames.length = 0 := by
    obtain ⟨-, -, -, c, hc, -⟩ := h
    exact fun hnone => List.not_mem_nil (List.eq_nil_of_length_eq_zero hnone ▸ hc)
  rw [sweep, syncUniqueIndexes, uniqueCols_eq]
  simp only [bind, Except.bind]
  rw [if_neg hsome, if_pos (any_rebuild_iff.2 h)]

theorem sweep_of_not_rebuild (h : ¬T.NeedsRebuild s) :
    T.sweep s = .ok (T.createMissing (s.names T.name) T.uniqueNames (T.dropped s)) := by
  have hany : ¬((s.indexList T.name).any (T.verdict T.uniqueNames · = .rebuild)) = true :=
    fun hany => h (any_rebuild_iff.1 hany)
  rw [sweep, syncUniqueIndexes, uniqueCols_eq]
  simp only [bind, Except.bind]
  split
  · next hnone =>
    have hnil := List.eq_nil_of_length_eq_zero hnone
    have hstale : T.staleNames s = [] := by
      rw [List.eq_nil_iff_forall_not_mem]
      intro name hname
      obtain ⟨ix, -, -, hverdict, -⟩ := mem_staleNames.1 hname
      rw [hnil] at hverdict
      unfold verdict at hverdict
      split at hverdict
      · cases hverdict
      · split at hverdict <;> simp at hverdict
    rw [hnil, dropped, hstale]
    rfl
  · rfl

/-! ## The canonical state -/

omit [JsNumber N] in
/-- Every column that is to be unique has one unique index on it alone, the canonical one. -/
def Canonical (T : IndexedTable N) (s : IndexState) : Prop :=
  ∀ c ∈ T.uniqueNames,
    T.uniqueIndex T.softDeletable c ∈ s.indexes ∧
    (∀ ix ∈ s.indexes, ix.table = T.name → ix.unique = true → ix.columns = [some c] →
      ix = T.uniqueIndex T.softDeletable c) ∧
    ∀ k ∈ s.constraints, k.columns ≠ [c]

/-- A sweep that succeeds leaves the canonical state, and a second one changes nothing. -/
def Normalises (T : IndexedTable N) (s : IndexState) : Prop :=
  ∀ s', T.sweep s = .ok s' → T.Canonical s' ∧ T.sweep s' = .ok s'

omit [JsNumber N] in
/-- The indexes that a sweep brings to the canonical state. Where a rebuild is due, rows are deleted
softly and no other table has an index of a canonical name. Elsewhere, for each column, a stale
index can be dropped by its name, and the canonical index is there or its name is free: no index has
the name, and one whose name differs in case only is dropped. -/
def Settles (T : IndexedTable N) (s : IndexState) : Prop :=
  (T.NeedsRebuild s → T.rebuilds = true → T.softDeletable = true ∧
    ∀ c ∈ T.uniqueNames, ∀ ix ∈ s.indexes, sameName ix.name (T.uniqueName c) = true →
      ix.table = T.name ∨ ix.table = T.name ++ "__migrate") ∧
  (¬T.NeedsRebuild s → ∀ c ∈ T.uniqueNames,
    (∀ ix ∈ s.indexes, ix.table = T.name → ix.unique = true → ix.columns = [some c] →
      ix = T.uniqueIndex T.softDeletable c ∨ isIdentifier ix.name = true) ∧
    (T.uniqueIndex T.softDeletable c ∈ s.indexes ∨
      ∀ ix ∈ s.indexes, sameName ix.name (T.uniqueName c) = true →
        ix.name ≠ T.uniqueName c ∧ T.Drops ix))

omit [JsNumber N] in
theorem not_needsRebuild (h : T.Canonical s) : ¬T.NeedsRebuild s := by
  rintro ⟨k, hk, -, c, hc, hcolumns⟩
  exact (h c hc).2.2 k hk hcolumns

/-- A sweep changes nothing in a canonical state without an index to drop. -/
theorem sweep_of_canonical (h : T.Canonical s) (hnone : ∀ ix ∈ s.indexes, ¬T.Drops ix) :
    T.sweep s = .ok s := by
  have hdropped : T.dropped s = s := by
    have hkeep : ∀ (names : List String), (∀ name ∈ names, name ∈ T.staleNames s) →
        names.foldl IndexState.dropStale s = s := by
      intro names
      induction names with
      | nil => exact fun _ => rfl
      | cons name names ih =>
        intro hstale
        obtain ⟨ix, hix, htable, hverdict, hname⟩ :=
          mem_staleNames.1 (hstale name List.mem_cons_self)
        have hident : ¬isIdentifier name = true := fun hident =>
          hnone ix hix ⟨htable, hverdict, hname ▸ hident⟩
        rw [List.foldl_cons, IndexState.dropStale, if_neg hident]
        exact ih fun n hn => hstale n (List.mem_cons_of_mem _ hn)
    exact hkeep _ fun _ => id
  rw [sweep_of_not_rebuild (not_needsRebuild h), hdropped, createMissing_of_mem]
  exact fun c hc => uniqueName_mem_names.2 ⟨_, (h c hc).1, rfl⟩

omit [JsNumber N] in
theorem not_drops_uniqueIndex (c : String) :
    ¬T.Drops (T.uniqueIndex T.softDeletable c) := by
  rintro ⟨-, hverdict, -⟩
  rw [verdict_uniqueIndex] at hverdict
  cases hverdict

/-! ### Without a rebuild -/

/-- What a sweep without a rebuild leaves. -/
def settled (T : IndexedTable N) (s : IndexState) : IndexState :=
  T.createMissing (s.names T.name) T.uniqueNames (T.dropped s)

omit [JsNumber N] in
theorem of_mem_settled {ix : TableIndex} (h : ix ∈ (T.settled s).indexes) :
    (ix ∈ s.indexes ∧ ¬T.Drops ix) ∨ ∃ c ∈ T.uniqueNames,
      ix = T.uniqueIndex T.softDeletable c ∧ T.uniqueName c ∉ s.names T.name :=
  (of_mem_createMissing h).imp_left mem_dropped.1

omit [JsNumber N] in
theorem mem_settled_of_mem {ix : TableIndex} (h : ix ∈ s.indexes) (hdrops : ¬T.Drops ix) :
    ix ∈ (T.settled s).indexes := mem_createMissing_of_mem (mem_dropped.2 ⟨h, hdrops⟩)

omit [JsNumber N] in
theorem not_drops_settled {ix : TableIndex} (h : ix ∈ (T.settled s).indexes) : ¬T.Drops ix := by
  rcases of_mem_settled h with ⟨-, h⟩ | ⟨c, -, rfl, -⟩
  · exact h
  · exact not_drops_uniqueIndex c

omit [JsNumber N] in
theorem constraints_settled : (T.settled s).constraints = s.constraints := by
  rw [settled, constraints_createMissing, dropped, IndexState.constraints_foldl_dropStale]

omit [JsNumber N] in
theorem canonical_settled (hlive : ∀ c ∈ T.uniqueNames, T.duplicated.contains c = false)
    (hrebuild : ¬T.NeedsRebuild s) (h : T.Settles s) : T.Canonical (T.settled s) := by
  intro c hc
  obtain ⟨hstale, hname⟩ := h.2 hrebuild c hc
  have hmem : T.uniqueIndex T.softDeletable c ∈ (T.settled s).indexes := by
    rcases hname with hmem | hfree
    · exact mem_settled_of_mem hmem (not_drops_uniqueIndex c)
    · refine mem_createMissing (fun _ => id) hc (hlive c hc) (fun hin => ?_) fun a ha => ?_
      · obtain ⟨ix, hix, heq⟩ := uniqueName_mem_names.1 hin
        exact (hfree ix hix (heq ▸ sameName_self _)).1 heq
      · obtain ⟨ha, hdrops⟩ := mem_dropped.1 ha
        exact Bool.eq_false_iff.2 fun hsame => hdrops (hfree a ha hsame).2
  refine ⟨hmem, fun ix hix htable hunique hcolumns => ?_, fun k hk hcolumns => ?_⟩
  · have hkeep := not_drops_settled hix
    rcases of_mem_settled hix with ⟨hold, -⟩ | ⟨d, -, rfl, -⟩
    · rcases hstale ix hold htable hunique hcolumns with heq | hident
      · exact heq
      · have hverdict : ¬T.verdict T.uniqueNames ix.info = .drop := fun hverdict =>
          hkeep ⟨htable, hverdict, hident⟩
        rw [verdict_of_single hunique hcolumns hc] at hverdict
        split at hverdict
        · next hsame =>
          exact IndexState.eq_of_sameName hix hmem (by rw [hsame.1]; exact sameName_self _)
        · exact absurd rfl hverdict
    · have hd : d = c := by simpa [uniqueIndex] using hcolumns
      rw [hd]
  · rw [constraints_settled] at hk
    cases hkey : k.primaryKey with
    | true =>
      have hid : c = "id" := by simpa using (hcolumns.symm.trans (s.keyed k hk hkey))
      exact notMem_systemColumns hc (hid ▸ List.mem_cons_self)
    | false => exact hrebuild ⟨k, hk, hkey, c, hc, hcolumns⟩

omit [JsNumber N] in
theorem settles_of_canonical (hrebuild : ¬T.NeedsRebuild s) (h : T.Canonical (T.settled s)) :
    T.Settles s := by
  refine ⟨fun hneeds => absurd hneeds hrebuild, fun _ c hc => ?_⟩
  obtain ⟨hmem, honly, -⟩ := h c hc
  refine ⟨fun ix hix htable hunique hcolumns => ?_, ?_⟩
  · by_cases hident : isIdentifier ix.name = true
    · exact .inr hident
    · exact .inl (honly ix (mem_settled_of_mem hix fun hdrops => hident hdrops.2.2) htable
        hunique hcolumns)
  · rcases of_mem_settled hmem with ⟨hold, -⟩ | ⟨d, -, heq, hnew⟩
    · exact .inl hold
    · obtain rfl := uniqueIndex_inj heq
      refine .inr fun ix hix hsame => ⟨fun hname => ?_, ?_⟩
      · exact hnew (uniqueName_mem_names.2 ⟨ix, hix, hname⟩)
      · by_contra hdrops
        have heq := IndexState.eq_of_sameName (mem_settled_of_mem hix hdrops) hmem hsame
        exact hnew (uniqueName_mem_names.2 ⟨ix, hix, congrArg TableIndex.name heq⟩)

/-! ### With a rebuild -/

omit [JsNumber N] in
theorem deletedAt_systemOptions : T.systemOptions.deletedAt = T.softDeletable := by
  rw [Bool.eq_iff_iff, softDeletable, List.any_eq_true]
  simpa [systemOptions] using T.softDeletable_iff

omit [JsNumber N] in
theorem sameName_idx (suffix c : String) :
    sameName ("idx_" ++ T.name ++ "_" ++ suffix) (T.uniqueName c) = false := by
  rw [Bool.eq_false_iff]
  intro h
  have hlist := congrArg List.head? (sameName_iff.1 h)
  simp [uniqueName] at hlist

omit [JsNumber N] in
/-- The indexes that a rebuild makes: the canonical ones, and others that make no column unique. -/
theorem of_mem_rebuiltIndexes {hadSingleton : Bool} {ix : TableIndex}
    (h : ix ∈ T.rebuiltIndexes hadSingleton) :
    (∃ suffix, ix.name = "idx_" ++ T.name ++ "_" ++ suffix ∧ ix.table = T.name ∧
      (ix.unique = false ∨ ix.columns = [none])) ∨
    ∃ f ∈ T.fields, ix = T.uniqueIndex T.softDeletable f.name := by
  have hplain : ∀ suffix columns, ix = T.plainIndex suffix columns →
      ∃ suffix, ix.name = "idx_" ++ T.name ++ "_" ++ suffix ∧ ix.table = T.name ∧
        (ix.unique = false ∨ ix.columns = [none]) := by
    rintro suffix columns rfl
    exact ⟨suffix, rfl, rfl, .inl rfl⟩
  rcases List.mem_cons.1 h with rfl | h
  · exact .inl (hplain _ _ rfl)
  rw [List.append_assoc, List.mem_append, List.mem_append] at h
  rcases h with h | h | h
  · split at h
    · obtain rfl := List.mem_singleton.1 h
      refine .inl ⟨"singleton", ?_, rfl, .inr rfl⟩
      rw [String.append_assoc]
      rfl
    · cases h
  · obtain ⟨f, hf, h⟩ := List.mem_flatMap.1 h
    unfold fieldIndexes at h
    split at h
    · cases h
    · rcases List.mem_append.1 h with h | h
      · split at h
        · exact .inl (hplain _ _ (List.mem_singleton.1 h))
        · cases h
      · split at h
        · rw [deletedAt_systemOptions] at h
          exact .inr ⟨f, (List.mem_filter.1 hf).1, List.mem_singleton.1 h⟩
        · cases h
  · obtain ⟨columns, -, rfl⟩ := List.mem_map.1 h
    exact .inl (hplain _ _ rfl)

omit [JsNumber N] in
theorem mem_rebuiltIndexes (hadSingleton : Bool) {c : String} (hc : c ∈ T.uniqueNames) :
    T.uniqueIndex T.softDeletable c ∈ T.rebuiltIndexes hadSingleton := by
  have hsystem := notMem_systemColumns hc
  obtain ⟨f, hf, ⟨hunique, hname, htype⟩, rfl⟩ := mem_uniqueNames.1 hc
  have huser : f ∈ T.userFields :=
    List.mem_filter.2 ⟨hf, by simpa [hname] using hsystem⟩
  have hindexes : T.uniqueIndex T.softDeletable f.name ∈ T.fieldIndexes f := by
    simp only [List.mem_cons, not_or, List.not_mem_nil, not_false_eq_true, and_true] at htype
    obtain ⟨ho2m, hm2m, htable, hformula, hm2a⟩ := htype
    unfold fieldIndexes
    rw [if_neg (by simp [ho2m, hm2m, htable, hformula, hm2a]), if_pos hunique,
      deletedAt_systemOptions]
    exact List.mem_append_right _ List.mem_cons_self
  refine List.mem_cons_of_mem _ (List.mem_append_left _ (List.mem_append_right _ ?_))
  exact List.mem_flatMap.2 ⟨f, huser, hindexes⟩

theorem of_mem_rebuildTable {ix : TableIndex} (h : ix ∈ (T.rebuildTable s).indexes) :
    (ix ∈ s.indexes ∧ ix.table ≠ T.name) ∨ ∃ hadSingleton, ix ∈ T.rebuiltIndexes hadSingleton := by
  rcases IndexState.of_mem_foldl_create h with h | h
  · obtain ⟨h, htable⟩ := List.mem_filter.1 h
    rw [Bool.and_eq_true] at htable
    exact .inl ⟨h, by simpa using htable.1⟩
  · exact .inr ⟨_, h⟩

theorem mem_rebuildTable_of_mem {ix : TableIndex} (h : ix ∈ s.indexes)
    (htable : ix.table ≠ T.name) (htemp : ix.table ≠ T.name ++ "__migrate") :
    ix ∈ (T.rebuildTable s).indexes :=
  IndexState.mem_foldl_create_of_mem (List.mem_filter.2 ⟨h, by simp [htable, htemp]⟩)

theorem constraints_rebuildTable : (T.rebuildTable s).constraints = T.rebuiltConstraints := by
  rw [rebuildTable, IndexState.constraints_foldl_create]

theorem not_drops_rebuildTable {ix : TableIndex} (h : ix ∈ (T.rebuildTable s).indexes) :
    ¬T.Drops ix := by
  rcases of_mem_rebuildTable h with ⟨-, htable⟩ | ⟨hadSingleton, hmade⟩
  · exact fun hdrops => htable hdrops.1
  · rcases of_mem_rebuiltIndexes hmade with ⟨suffix, -, -, hunique | hnone⟩ | ⟨f, -, rfl⟩
    · rintro ⟨-, hverdict, -⟩
      unfold verdict at hverdict
      rw [if_pos (by simp [TableIndex.info, hunique])] at hverdict
      cases hverdict
    · rintro ⟨-, hverdict, -⟩
      have hcolumns : indexColumns ix.info = [] := by
        rw [indexColumns, TableIndex.info, hnone]
        rfl
      unfold verdict at hverdict
      rw [hcolumns] at hverdict
      split at hverdict <;> cases hverdict
    · exact not_drops_uniqueIndex f.name

omit [JsNumber N] in
theorem name_ne_deletedAt : ∀ f ∈ T.userFields, f.name ≠ "deleted_at" := by
  intro f hf hname
  have hsystem := (List.mem_filter.1 hf).2
  rw [hname] at hsystem
  exact absurd hsystem (by decide)

theorem canonical_rebuildTable (hsoft : T.softDeletable = true)
    (hfree : ∀ c ∈ T.uniqueNames, ∀ ix ∈ s.indexes, sameName ix.name (T.uniqueName c) = true →
      ix.table = T.name ∨ ix.table = T.name ++ "__migrate") : T.Canonical (T.rebuildTable s) := by
  intro c hc
  refine ⟨?_, fun ix hix htable hunique hcolumns => ?_, fun k hk hcolumns => ?_⟩
  · refine IndexState.mem_foldl_create (mem_rebuiltIndexes _ hc) (fun a ha => ?_)
      fun a ha hsame => ?_
    · obtain ⟨ha, htable⟩ := List.mem_filter.1 ha
      refine Bool.eq_false_iff.2 fun hsame => ?_
      rcases hfree c hc a ha hsame with hname | hname
      · simp [hname] at htable
      · simp [hname] at htable
    · rcases of_mem_rebuiltIndexes ha with ⟨suffix, hname, -⟩ | ⟨g, hg, rfl⟩
      · rw [hname] at hsame
        exact absurd ((sameName_idx suffix c).symm.trans hsame) (by decide)
      · obtain ⟨f, hf, -, rfl⟩ := mem_uniqueNames.1 hc
        rw [T.distinct g hg f hf ((T.sameName_uniqueName g.name f.name).symm.trans hsame)]
  · rcases of_mem_rebuildTable hix with ⟨-, hother⟩ | ⟨hadSingleton, hmade⟩
    · exact absurd htable hother
    · rcases of_mem_rebuiltIndexes hmade with ⟨suffix, -, -, hplain | hnone⟩ | ⟨f, -, rfl⟩
      · rw [hplain] at hunique
        cases hunique
      · rw [hnone] at hcolumns
        cases hcolumns
      · have hf : f.name = c := by simpa [uniqueIndex] using hcolumns
        rw [hf]
  · rw [constraints_rebuildTable] at hk
    rcases List.mem_cons.1 hk with rfl | hk
    · have hid : c = "id" := by simpa using hcolumns.symm
      exact notMem_systemColumns hc (hid ▸ List.mem_cons_self)
    · obtain ⟨column, hcolumn, -⟩ := List.mem_map.1 hk
      have hnone := (List.mem_filter.1 hcolumn).2
      rw [any_deletedAt name_ne_deletedAt, deletedAt_systemOptions, hsoft] at hnone
      simp at hnone

omit [JsNumber N] in
/-- The type of a unique field has a column of its own. -/
theorem exists_addColumns {f : SchemaField N} (htype : f.type ∈ fieldTypeNames)
    (hvirtual : f.type ∉ ["o2m", "m2m", "table", "formula", "m2a"]) :
    ∃ type nullable, addColumns f f.name = [{ name := f.name, type, nullable }] := by
  have hmap : ∀ type ∈ fieldTypeNames, type ∉ ["o2m", "m2m", "table", "formula", "m2a"] →
      (match fieldTypeMap type with | .column _ _ => true | _ => false) = true := by
    decide +kernel
  have hformula : ¬f.type = "formula" := fun h => hvirtual (by rw [h]; decide)
  have hcolumn := hmap _ htype hvirtual
  unfold addColumns
  rw [if_neg (by simp [hformula])]
  split at hcolumn
  · next type nullable hfield => exact ⟨type, nullable, by rw [hfield]⟩
  · cases hcolumn

/-- A rebuilt table without soft deletes is not canonical: it declares its unique columns again. -/
theorem softDeletable_of_canonical (hneeds : T.NeedsRebuild s)
    (h : T.Canonical (T.rebuildTable s)) : T.softDeletable = true := by
  obtain ⟨-, -, -, c, hc, -⟩ := hneeds
  by_contra hsoft
  obtain ⟨f, hf, ⟨hunique, hname, hvirtual⟩, rfl⟩ := mem_uniqueNames.1 hc
  have huser : f ∈ T.userFields :=
    List.mem_filter.2 ⟨hf, by simpa [hname] using notMem_systemColumns hc⟩
  obtain ⟨column, hcolumn, hcolumnName, hcolumnUnique⟩ := declaredUnique_collectionColumns huser
    hunique (exists_addColumns (T.checked f hf hunique).2.2 hvirtual) T.systemOptions
  refine (h f.name hc).2.2 { columns := [column.name], primaryKey := false } ?_
    (by rw [hcolumnName])
  rw [constraints_rebuildTable]
  refine List.mem_cons_of_mem _ (List.mem_map_of_mem (List.mem_filter.2 ⟨hcolumn, ?_⟩))
  rw [any_deletedAt name_ne_deletedAt, deletedAt_systemOptions, hcolumnUnique]
  simpa using hsoft

/-! ### Every sweep -/

/-- Where the live rows have no duplicates, a sweep that succeeds leaves the canonical unique
indexes, and a second one changes nothing, exactly for the indexes that `Settles` describes. -/
theorem normalises_iff (hlive : ∀ c ∈ T.uniqueNames, T.duplicated.contains c = false) :
    T.Normalises s ↔ T.Settles s := by
  by_cases hneeds : T.NeedsRebuild s
  · unfold Normalises
    rw [sweep_of_rebuild hneeds]
    constructor
    · intro h
      refine ⟨fun _ hrebuilds => ?_, fun hnot => absurd hneeds hnot⟩
      rw [if_pos hrebuilds] at h
      have hcanonical := (h _ rfl).1
      refine ⟨softDeletable_of_canonical hneeds hcanonical, fun c hc ix hix hsame => ?_⟩
      by_contra hother
      rw [not_or] at hother
      have heq := IndexState.eq_of_sameName (mem_rebuildTable_of_mem hix hother.1 hother.2)
        (hcanonical c hc).1 hsame
      exact hother.1 (congrArg TableIndex.table heq)
    · intro h s' hs'
      split at hs'
      · next hrebuilds =>
        obtain rfl := Except.ok.inj hs'
        obtain ⟨hsoft, hfree⟩ := h.1 hneeds hrebuilds
        have hcanonical := canonical_rebuildTable hsoft hfree
        exact ⟨hcanonical, sweep_of_canonical hcanonical fun _ => not_drops_rebuildTable⟩
      · cases hs'
  · unfold Normalises
    rw [sweep_of_not_rebuild hneeds]
    constructor
    · exact fun h => settles_of_canonical hneeds (h _ rfl).1
    · intro h s' hs'
      obtain rfl := Except.ok.inj hs'
      have hcanonical : T.Canonical (T.settled s) := canonical_settled hlive hneeds h
      exact ⟨hcanonical, sweep_of_canonical hcanonical fun _ => not_drops_settled⟩

end IndexedTable

/-! ## A collection of contacts -/

/-- The table of contacts, whose addresses are to be unique. -/
def contacts : IndexedTable (Option Int) where
  name := "cms_contacts"
  fields := [{ name := "email", type := "email", unique := true },
    { name := "deleted_at", type := "timestamp" }]
  composites := []
  columns := ["id", "email", "deleted_at"]
  duplicated := []
  rebuilds := true
  softDeletable_iff := by simp
  checked := by
    intro f hf hunique
    rcases List.mem_cons.1 hf with rfl | hf
    · decide
    · rw [List.mem_singleton.1 hf] at hunique
      cases hunique
  distinct := by
    intro f hf g hg h
    simp only [List.mem_cons, List.not_mem_nil, or_false] at hf hg
    rcases hf with rfl | rfl <;> rcases hg with rfl | rfl <;>
      first | rfl | exact absurd h (by decide)

/-- The indexes of a table with one unique index on the whole column of addresses. -/
def fullIndex (name : String) : IndexState where
  indexes := [{ contacts.uniqueIndex false "email" with name := name }]
  constraints := [{ columns := ["id"], primaryKey := true }]
  distinct := List.pairwise_singleton _ _
  keyed := by simp

theorem uniqueNames_contacts : contacts.uniqueNames = ["email"] := by decide

theorem not_needsRebuild_fullIndex (name : String) :
    ¬contacts.NeedsRebuild (fullIndex name) := by
  rintro ⟨k, hk, hkey, -⟩
  rw [List.mem_singleton.1 hk] at hkey
  cases hkey

/-- An index of a legacy name is replaced by the canonical one. -/
theorem contacts_normalise :
    contacts.Normalises (fullIndex "idx_cms_contacts_email_unique") := by
  refine (IndexedTable.normalises_iff fun c _ => rfl).2
    ⟨fun h => absurd h (not_needsRebuild_fullIndex _), fun _ c hc => ⟨?_, .inr ?_⟩⟩
  · intro ix hix _ _ _
    rw [List.mem_singleton.1 hix]
    exact .inr (by decide)
  · intro ix hix hsame
    rw [uniqueNames_contacts, List.mem_singleton] at hc
    rw [List.mem_singleton.1 hix, hc] at hsame
    exact absurd hsame (by decide)

/-- An index of the canonical name over the whole column is dropped and not made again. -/
theorem contacts_not_normalise : ¬contacts.Normalises (fullIndex "uidx_cms_contacts_email") := by
  intro h
  have hneeds := not_needsRebuild_fullIndex "uidx_cms_contacts_email"
  have hsettles := IndexedTable.settles_of_canonical hneeds
    (h _ (IndexedTable.sweep_of_not_rebuild hneeds)).1
  have hemail : "email" ∈ contacts.uniqueNames := by
    rw [uniqueNames_contacts]
    exact List.mem_cons_self
  rcases (hsettles.2 hneeds "email" hemail).2 with hmem | hfree
  · exact absurd (List.mem_singleton.1 hmem) (by decide)
  · exact (hfree _ List.mem_cons_self (by decide)).1 rfl

end HeadlessErp
