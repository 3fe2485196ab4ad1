import Mathlib.Data.List.Pairwise
import HeadlessErp.Base.Program
import HeadlessErp.Entity.Create
import HeadlessErp.Entity.Version
import HeadlessErp.Storage.Encryption

/-!
# Unique fields

The unique indexes of the tables that `createCollection` makes (`SchemaBuilder.createTable` over
`applyFieldDefinitions`), the uniqueness check of `validateFieldConstraints`, and the requests that
write rows as programs over the tables. The indexes compare what is stored. A field whose column holds
the value that is read is unique in every run; of another field (`FieldDefinition.isIndirect`) only
the requests themselves can see to it (`unique_iff_fresh`).
-/

namespace HeadlessErp

/-! ## Unique indexes -/

section
variable {N : Type}

/-- `t.unique()`: the column that was added last. -/
def markUnique (columns : List (String × Bool)) : List (String × Bool) :=
  columns.dropLast ++ (columns.getLast?.map fun c => (c.1, true)).toList

/-- `applyFieldDefinitions`, on one field: its columns, with their `unique` flags. -/
def addFieldColumns (columns : List (String × Bool)) (f : FieldDefinition N) :
    List (String × Bool) :=
  let columns := columns ++ f.columns.map (·, false)
  if f.unique then markUnique columns else columns

/-- The columns that have a unique index. -/
def uniqueColumns (fields : List (FieldDefinition N)) : List String :=
  ((fields.foldl addFieldColumns [("id", false)]).filter (·.2)).map (·.1)

theorem mem_markUnique {columns : List (String × Bool)} {k : String} (h : (k, true) ∈ columns) :
    (k, true) ∈ markUnique columns := by
  obtain rfl | ⟨init, last, rfl⟩ := List.eq_nil_or_concat columns
  · cases h
  · rw [List.concat_eq_append] at h ⊢
    unfold markUnique
    rw [List.dropLast_concat, List.getLast?_concat]
    obtain h | h := List.mem_append.1 h
    · exact List.mem_append_left _ h
    · refine List.mem_append_right _ ?_
      rw [← List.mem_singleton.1 h]
      exact List.mem_cons_self

/-- A column of its own name is indexed where the field is unique. -/
theorem mem_uniqueColumns {fields : List (FieldDefinition N)} {f : FieldDefinition N}
    (hf : f ∈ fields) (hunique : f.unique = true) (hcolumns : f.columns = [f.name]) :
    f.name ∈ uniqueColumns fields := by
  have hkeep (columns : List (String × Bool)) (g : FieldDefinition N) (h : (f.name, true) ∈ columns) :
      (f.name, true) ∈ addFieldColumns columns g := by
    unfold addFieldColumns
    simp only
    split
    · exact mem_markUnique (List.mem_append_left _ h)
    · exact List.mem_append_left _ h
  have hadd (columns : List (String × Bool)) : (f.name, true) ∈ addFieldColumns columns f := by
    unfold addFieldColumns markUnique
    rw [hunique, hcolumns]
    simp
  have hfold : ∀ l : List (FieldDefinition N), f ∈ l → ∀ columns,
      (f.name, true) ∈ l.foldl addFieldColumns columns := by
    intro l
    induction l with
    | nil => exact fun h => absurd h (by simp)
    | cons g l ih =>
      intro h columns
      by_cases hl : f ∈ l
      · exact ih hl _
      · obtain rfl : f = g := (List.mem_cons.1 h).resolve_right hl
        rw [List.foldl_cons]
        exact foldl_invariant (I := fun columns => (f.name, true) ∈ columns) (hadd columns)
          fun columns g _ => hkeep columns g
  exact List.mem_map.2 ⟨_, List.mem_filter.2 ⟨hfold fields hf _, rfl⟩, rfl⟩

end

/-! ## Statements -/

/-- A statement on the table of a collection. -/
inductive Statement (N : Type) where
  | insert (slug : String) (data : Record N)
  | update (slug : String) (p : Record N → Bool) (data : Record N)
  | delete (slug : String) (p : Record N → Bool)

/-- The database and its reads: `blank` is the row of an INSERT that names no column, `same` what an
index takes for one value, and `computedValue` what a read makes of a field without a column. -/
structure UniqueStore (N : Type) [JsNumber N] where
  reads : ReadContext N
  cipher : Cipher
  storage : String → Storage N
  blank : String → Record N
  same : JsVal N → JsVal N → Bool
  computedValue : FieldDefinition N → Record N → JsVal N
  same_self : ∀ v, v.isNullish = false → same v v = true
  blank_columns : ∀ c ∈ reads.all, ∀ k ∈ physicalColumnNames c.info.schemaFields,
    (blank c.slug).has k = true

namespace UniqueStore
variable {N : Type} [JsNumber N] (D : UniqueStore N)

/-- The columns with a unique index of the table of a collection. -/
def indexColumns (slug : String) : List String :=
  match D.reads.collection? slug with
  | some c => uniqueColumns c.info.schemaFields
  | none => []

/-- Two rows have one value in the column of an index. -/
def clash (slug : String) (a b : Record N) : Bool :=
  (D.indexColumns slug).any fun k => !(a.get k).isNullish && D.same (a.get k) (b.get k)

/-- A table satisfies its primary key, and its unique indexes over the live rows. -/
def Indexed (slug : String) (rows : List (Record N)) : Prop :=
  (rows.map rowId).Nodup ∧
    rows.Pairwise fun a b => isLive a = true → isLive b = true → D.clash slug a b = false

instance (slug : String) (rows : List (Record N)) : Decidable (D.Indexed slug rows) :=
  inferInstanceAs (Decidable (_ ∧ _))

/-- The rows that a statement leaves are those of the table unless an index rejects them. -/
def commit (t : Tables N) (slug : String) (rows : List (Record N)) : Except ApiError (Tables N) :=
  if D.Indexed slug rows then .ok (t.modify slug fun _ => rows)
  else .error (.internal "UNIQUE constraint failed")

/-- What a statement does. -/
def execute : Statement N → Tables N → Except ApiError (Tables N)
  | .insert slug data, t => do
    let row ← updateRow (D.storage slug) data (D.blank slug)
    D.commit t slug (t slug ++ [row])
  | .update slug p data, t => do
    let rows ← (t slug).mapM fun row =>
      if p row then updateRow (D.storage slug) data row else .ok row
    D.commit t slug rows
  | .delete slug p, t => .ok (t.modify slug (deleteWhere p))

/-- Tables that satisfy their constraints, whose rows have all columns. -/
def Sound (t : Tables N) : Prop := ∀ c ∈ D.reads.all, D.Indexed c.slug (t c.slug) ∧
  ∀ row ∈ t c.slug, ∀ k ∈ physicalColumnNames c.info.schemaFields, row.has k = true

variable {D}

theorem sound_of_commit {t t' : Tables N} {slug : String} {rows : List (Record N)}
    (hsound : D.Sound t) (hrows : ∀ c ∈ D.reads.all, c.slug = slug → ∀ row ∈ rows,
      ∀ k ∈ physicalColumnNames c.info.schemaFields, row.has k = true)
    (h : D.commit t slug rows = .ok t') : D.Sound t' := by
  unfold commit at h
  split at h
  · next hindexed =>
    cases h
    intro c hc
    by_cases hslug : c.slug = slug
    · rw [hslug, modify_self]
      exact ⟨hindexed, hrows c hc hslug⟩
    · rw [modify_of_ne t hslug]
      exact hsound c hc
  · cases h

/-- A statement leaves the tables sound. -/
theorem sound_of_execute {t t' : Tables N} {statement : Statement N} (hsound : D.Sound t)
    (h : D.execute statement t = .ok t') : D.Sound t' := by
  cases statement with
  | insert slug data =>
    obtain ⟨row, hrow, h⟩ := exists_of_bind_eq_ok h
    refine sound_of_commit hsound ?_ h
    rintro c hc rfl row' hrow' k hk
    obtain hrow' | hrow' := List.mem_append.1 hrow'
    · exact (hsound c hc).2 row' hrow' k hk
    · rw [List.mem_singleton.1 hrow']
      exact has_updateRow hrow (D.blank_columns c hc k hk)
  | update slug p data =>
    obtain ⟨rows, hrows, h⟩ := exists_of_bind_eq_ok h
    refine sound_of_commit hsound ?_ h
    rintro c hc rfl row' hrow' k hk
    obtain ⟨row, hrow, hwritten⟩ := exists_of_mem_mapM hrows row' hrow'
    have hhas := (hsound c hc).2 row hrow k hk
    split at hwritten
    · exact has_updateRow hwritten hhas
    · cases hwritten
      exact hhas
  | delete slug p =>
    cases h
    intro c hc
    by_cases hslug : c.slug = slug
    · subst hslug
      obtain ⟨⟨hids, hindex⟩, hcolumns⟩ := hsound c hc
      rw [modify_self]
      have hsub : (deleteWhere p (t c.slug)).Sublist (t c.slug) := List.filter_sublist
      exact ⟨⟨hids.sublist (hsub.map _), hindex.sublist hsub⟩,
        fun row hrow => hcolumns row (hsub.subset hrow)⟩
    · rw [modify_of_ne t hslug]
      exact hsound c hc

end UniqueStore

/-! ## Values -/

/-- A field whose column may hold the value that is read in more than one form, or in none: the column
is encrypted or decoded, or there is none of the field's name. -/
def FieldDefinition.isIndirect {N : Type} (f : FieldDefinition N) : Bool :=
  f.encrypted || f.type = .json || f.type = .boolean
    || (f.type = .formula && f.resultType = some .boolean) || f.type = .m2a || f.isVirtual

namespace UniqueStore
variable {N : Type} [JsNumber N] (D : UniqueStore N)

/-- The value of a field of a row, as it is read. That of an any-collection reference is the pair of
its columns. -/
def value (c : EntitySchema N) (f : FieldDefinition N) (row : Record N) : JsVal N :=
  let item := FieldEncryption.decryptItem D.cipher c.info.schemaFields
    (D.reads.readRow c.info.schemaFields row)
  if f.isVirtual then D.computedValue f item
  else if f.type = .m2a then
    let type := item.get (f.name ++ "_type")
    let id := item.get (f.name ++ "_id")
    if type.isNullish || id.isNullish then .null else .arr [type, id]
  else item.get f.name

/-- Two rows have one value of a field. -/
def SameValue (c : EntitySchema N) (f : FieldDefinition N) (a b : Record N) : Prop :=
  (D.value c f a).isNullish = false ∧ D.value c f a = D.value c f b

/-- No two live rows have one value of a unique field. -/
def Unique (t : Tables N) : Prop :=
  ∀ c ∈ D.reads.all, ∀ f ∈ c.info.schemaFields, f.unique = true →
    ∀ a ∈ t c.slug, ∀ b ∈ t c.slug, isLive a = true → isLive b = true →
      D.SameValue c f a b → rowId a = rowId b

/-- No row of `t'` that is not one of `t` has a value of an indirect unique field that another live row
has. -/
def Fresh (t t' : Tables N) : Prop :=
  ∀ c ∈ D.reads.all, ∀ f ∈ c.info.schemaFields, f.unique = true → f.isIndirect = true →
    ∀ a ∈ t' c.slug, a ∉ t c.slug → ∀ b ∈ t' c.slug, isLive a = true → isLive b = true →
      D.SameValue c f a b → rowId a = rowId b

variable {D} {c : EntitySchema N} {f : FieldDefinition N}

theorem SameValue.symm {a b : Record N} (h : D.SameValue c f a b) : D.SameValue c f b a :=
  ⟨h.2 ▸ h.1, h.2.symm⟩

omit [JsNumber N] in
theorem collection?_of_mem {S : ReadContext N} (hc : c ∈ S.all) : S.collection? c.slug = some c := by
  unfold ReadContext.collection?
  cases hfind : S.all.find? (·.slug = c.slug) with
  | none => exact absurd (List.find?_eq_none.1 hfind c hc) (by simp)
  | some c' =>
    have hfound := List.find?_some hfind
    have hslug : c'.slug = c.slug := of_decide_eq_true hfound
    rw [List.inj_on_of_nodup_map S.slugs_nodup (List.mem_of_find?_eq_some hfind) hc hslug]

/-- A field that is not indirect has a column, and a read leaves its value. -/
theorem value_of_direct (hc : c ∈ D.reads.all) (hf : f ∈ c.info.schemaFields)
    (hdirect : f.isIndirect = false) {row : Record N}
    (hcolumns : ∀ k ∈ physicalColumnNames c.info.schemaFields, row.has k = true) :
    f.columns = [f.name] ∧ D.value c f row = row.get f.name := by
  unfold FieldDefinition.isIndirect at hdirect
  simp only [Bool.or_eq_false_iff, Bool.and_eq_false_iff, decide_eq_false_iff_not] at hdirect
  obtain ⟨⟨⟨⟨⟨hencrypted, hjson⟩, hboolean⟩, hformula⟩, hm2a⟩, hvirtual⟩ := hdirect
  have hown : f.columns = [f.name] := by
    unfold FieldDefinition.columns
    rw [hvirtual, if_neg Bool.false_ne_true, if_neg hm2a]
  refine ⟨hown, ?_⟩
  have hnames := D.reads.names_nodup c hc
  have hself (g : FieldDefinition N) (hg : g ∈ c.info.schemaFields) (hname : g.name = f.name) :
      g = f := List.inj_on_of_nodup_map hnames hg hf hname
  have hmeta : f.name ≠ "_meta" := D.reads.meta_reserved c hc f hf
  have hhas := hcolumns f.name (List.mem_flatMap.2 ⟨f, hf, hown ▸ List.mem_singleton_self _⟩)
  rw [Record.has_eq_isSome] at hhas
  obtain ⟨v, hv⟩ := Option.isSome_iff_exists.1 hhas
  -- neither the decoding nor the decryption has a field of this name to do
  have hdecode : D.reads.decodeField c.info.schemaFields f.name v = v := by
    have h1 : (c.info.schemaFields.any fun g => g.name = f.name && g.type = .json) = false := by
      rw [List.any_eq_false]
      intro g hg h
      obtain ⟨hname, htype⟩ := Bool.and_eq_true_iff.1 h
      rw [hself g hg (of_decide_eq_true hname)] at htype
      exact hjson (of_decide_eq_true htype)
    have h2 : (c.info.schemaFields.any fun g => g.name = f.name &&
        (g.type = .boolean || (g.type = .formula && g.resultType = some .boolean))) = false := by
      rw [List.any_eq_false]
      intro g hg h
      obtain ⟨hname, htype⟩ := Bool.and_eq_true_iff.1 h
      rw [hself g hg (of_decide_eq_true hname)] at htype
      grind
    unfold ReadContext.decodeField
    rw [h1, h2]
    rfl
  have hplain : (c.info.schemaFields.any fun g => g.encrypted && g.name == f.name) = false := by
    rw [List.any_eq_false]
    intro g hg h
    obtain ⟨hg', hname⟩ := Bool.and_eq_true_iff.1 h
    rw [hself g hg (eq_of_beq hname), hencrypted] at hg'
    exact Bool.false_ne_true hg'
  unfold value
  simp only
  rw [hvirtual, if_neg Bool.false_ne_true, if_neg hm2a, Record.get_eq, get?_decryptItem,
    get?_readRow_column hmeta hv, hdecode, hplain, Option.map_some, if_neg Bool.false_ne_true,
    Record.get_eq, hv]

/-- The index of a field that is not indirect tells the live rows apart. -/
theorem rowId_eq_of_direct {t : Tables N} (hsound : D.Sound t) (hc : c ∈ D.reads.all)
    (hf : f ∈ c.info.schemaFields) (hunique : f.unique = true) (hdirect : f.isIndirect = false)
    {a b : Record N} (ha : a ∈ t c.slug) (hb : b ∈ t c.slug) (halive : isLive a = true)
    (hblive : isLive b = true) (hsame : D.SameValue c f a b) : rowId a = rowId b := by
  obtain ⟨⟨-, hindex⟩, hcolumns⟩ := hsound c hc
  obtain ⟨hown, hvalue⟩ := value_of_direct (D := D) hc hf hdirect (hcolumns a ha)
  obtain ⟨hnull, heq⟩ := hsame
  rw [hvalue] at hnull heq
  rw [(value_of_direct (D := D) hc hf hdirect (hcolumns b hb)).2] at heq
  have hcolumn : f.name ∈ D.indexColumns c.slug := by
    unfold indexColumns
    rw [collection?_of_mem hc]
    exact mem_uniqueColumns hf hunique hown
  have hclash (x y : Record N) (hx : (x.get f.name).isNullish = false)
      (hxy : x.get f.name = y.get f.name) : D.clash c.slug x y = true :=
    List.any_eq_true.2 ⟨_, hcolumn, by rw [hx, ← hxy, D.same_self _ hx]; rfl⟩
  by_contra hne
  let R (x y : Record N) : Prop := isLive x = true → isLive y = true →
    (x.get f.name).isNullish = false → x.get f.name ≠ y.get f.name
  have hsymm : Std.Symm R := ⟨fun x y h hy hx hnull hxy => h hx hy (hxy ▸ hnull) hxy.symm⟩
  have hpair : (t c.slug).Pairwise R := hindex.imp fun h hx hy hnull hxy =>
    absurd (h hx hy) (by rw [hclash _ _ hnull hxy]; simp)
  exact hpair.forall ha hb (fun h => hne (h ▸ rfl)) halive hblive hnull heq

/-- The rows that a statement leaves are unique if and only if it is fresh. -/
theorem unique_iff_of_sound {t t' : Tables N} (hunique : D.Unique t) (hsound : D.Sound t') :
    D.Unique t' ↔ D.Fresh t t' := by
  constructor
  · intro h c hc f hf hfield _ a ha _ b hb halive hblive hsame
    exact h c hc f hf hfield a ha b hb halive hblive hsame
  · intro h c hc f hf hfield a ha b hb halive hblive hsame
    cases hdirect : f.isIndirect with
    | false => exact rowId_eq_of_direct hsound hc hf hfield hdirect ha hb halive hblive hsame
    | true =>
      by_cases hnew : a ∈ t c.slug
      · by_cases hnew' : b ∈ t c.slug
        · exact hunique c hc f hf hfield a hnew b hnew' halive hblive hsame
        · exact (h c hc f hf hfield hdirect b hb hnew' a ha hblive halive hsame.symm).symm
      · exact h c hc f hf hfield hdirect a ha hnew b hb halive hblive hsame

end UniqueStore

/-! ## Requests -/

namespace UniqueStore
variable {N : Type} [JsNumber N] (D : UniqueStore N)

/-- The uniqueness check of `validateFieldConstraints`, on the values of the payload. -/
def assertUnique (c : EntitySchema N) (userData : Record N) (excludeId : Option String)
    (rows : List (Record N)) : Except ApiError Unit :=
  let uniqueFields := c.info.schemaFields.filter fun f =>
    f.unique && !(userData.get f.name).isNullish
  match uniqueFields.find? fun f => !(D.blank c.slug).has f.name with
  | some f => .error (.internal ("no such column: " ++ f.name))
  | none =>
    match uniqueFields.find? fun f => rows.any fun row =>
        D.same (row.get f.name) ((D.storage c.slug).store f.name (userData.get f.name)) && isLive row
          && excludeId.all fun id => !hasId id row with
    | some f =>
      .error (.validation ("\"" ++ f.name ++ "\" must be unique. A record with value \""
        ++ (userData.get f.name).toStr ++ "\" already exists.") (some f.name))
    | none => .ok ()

/-- A program that uses the tables. -/
abbrev TableProgram (N : Type) := Program (Tables N) (Statement N) ApiError

/-- The statements that follow the one of a request: those of its child rows, of its cascades and of
the stored formulas, as the tables are by then. -/
def followUp : List (Tables N → List (Statement N)) → TableProgram N Unit
  | [] => pure ()
  | statements :: rest => do
    Program.runAll (← .ask fun t => .ok (statements t))
    followUp rest

/-- The INSERT of `createItem`. On a legacy table it is tried again without the columns of the user. -/
def insertItemRow (c : EntitySchema N) (data : Record N) : TableProgram N Unit :=
  .exec (.insert c.slug data) fun
    | .error (.internal msg) =>
      if ((data.get "_owner").truthy || (data.get "created_by").truthy)
          && includesChars "no such column".toList (toLowerCase msg).toList then
        .run (.insert c.slug ((data.erase "_owner").erase "created_by"))
      else .done (.error (.internal msg))
    | result => .done result

/-- `createItem`. `freshId` is the id that is drawn for a row whose body has none. -/
def createRequest (c : EntitySchema N) (q : CreateCall N c.info) (isSingleton : Bool)
    (freshId : String) (now : IsoTime) (follow : List (Tables N → List (Statement N))) :
    TableProgram N Unit := do
  let data ← .done (createFields c.slug q)
  let clientId ← .done (bodyFields q.body >>= requestedId)
  match ← .ask fun t => .ok (clientId.bind fun id => (t c.slug).find? (hasId id)) with
  | some row =>
    if (row.get "deleted_at").truthy then
      .done (.error (.validation ("Item with id \"" ++ clientId.getD ""
        ++ "\" exists in trash — restore it or use a new id") none))
  | none =>
    .ask fun t => D.assertUnique c data none (t c.slug)
    let (columns, rest) ← .done (createColumns q data)
    if isSingleton then
      .ask fun t =>
        if (t c.slug).any isLive then
          .error (.validation ("\"" ++ c.slug
            ++ "\" is a singleton collection. Only one record is allowed.") none)
        else .ok ()
    insertItemRow c (insertData q (clientId.getD freshId) columns rest now)
    followUp follow

/-- `updateItem`. Its constraints see the table as it is by then. -/
def updateRequest (c : EntitySchema N) (q : UpdateCall N c.info) (id : String) (now : IsoTime)
    (follow : List (Tables N → List (Statement N))) : TableProgram N Unit := do
  .done (assertRequest c.slug q)
  .done (assertUuid id)
  let existing ← .ask fun t => existingRow t c.slug id
  let prepared ← .ask fun t =>
    let constraints (document : Record N) : Except ApiError Unit := do
      q.constraints document
      D.assertUnique c document (some id) (t c.slug)
    checkUpdate c.slug { q with constraints } existing ((t c.slug).find? (hasId id))
  .run (.update c.slug (hasId id) (updateData q prepared now))
  followUp follow

/-- `softDeleteItem`. On a legacy table its UPDATE is tried again without the column of the user. -/
def softDeleteRequest (c : EntitySchema N) (caller : RequestContext N) (id : String) (now : IsoTime)
    (follow : List (Tables N → List (Statement N))) : TableProgram N Unit := do
  .done (assertGenericWrite c.slug c.info .delete)
  .done (assertUuid id)
  let existing ← .ask fun t => existingRow t c.slug id
  .done (assertNotFrozen c.slug c.info existing)
  .done (caller.access existing)
  .ask fun t => assertNoRestrictiveReferences D.reads.all t c.slug id
  .done (caller.hooks existing)
  let data := softDeleteData c.info caller.userId now
  .exec (.update c.slug (hasId id) data) fun
    | .error e =>
      if (data.get "deleted_by").truthy then
        .run (.update c.slug (hasId id) (data.erase "deleted_by"))
      else .done (.error e)
    | .ok () => .done (.ok ())
  followUp follow

/-- `restoreItem`. -/
def restoreRequest (c : EntitySchema N) (caller : RequestContext N) (id : String) (now : IsoTime)
    (follow : List (Tables N → List (Statement N))) : TableProgram N Unit := do
  .done (assertGenericWrite c.slug c.info .update)
  .done (assertUuid id)
  let existing ← .ask fun t => existingRow t c.slug id
  if (existing.get "deleted_at").truthy then
    .done (assertNotFrozen c.slug c.info existing)
    .done (caller.access existing)
    .run (.update c.slug (hasId id) [("deleted_at", .null), ("updated_at", .str now.text)])
    followUp follow
  else .done (.error (.validation "Item is not trashed" none))

/-- `hardDeleteItem`. -/
def hardDeleteRequest (c : EntitySchema N) (caller : RequestContext N) (id : String)
    (follow : List (Tables N → List (Statement N))) : TableProgram N Unit := do
  .done (assertGenericWrite c.slug c.info .delete)
  .done (assertUuid id)
  let existing ← .ask fun t => existingRow t c.slug id
  .done (assertNotFrozen c.slug c.info existing)
  .done (caller.access existing)
  .run (.delete c.slug (hasId id))
  followUp follow

end UniqueStore

/-- A request for an item of a collection, with the time it reads and the statements that follow its
own. -/
inductive ItemRequest (N : Type) where
  | create (c : EntitySchema N) (q : CreateCall N c.info) (isSingleton : Bool) (freshId : String)
      (now : IsoTime) (follow : List (Tables N → List (Statement N)))
  | update (c : EntitySchema N) (q : UpdateCall N c.info) (id : String) (now : IsoTime)
      (follow : List (Tables N → List (Statement N)))
  | softDelete (c : EntitySchema N) (caller : RequestContext N) (id : String) (now : IsoTime)
      (follow : List (Tables N → List (Statement N)))
  | restore (c : EntitySchema N) (caller : RequestContext N) (id : String) (now : IsoTime)
      (follow : List (Tables N → List (Statement N)))
  | hardDelete (c : EntitySchema N) (caller : RequestContext N) (id : String)
      (follow : List (Tables N → List (Statement N)))

namespace UniqueStore
variable {N : Type} [JsNumber N] (D : UniqueStore N)

/-- What a request does. -/
def program : ItemRequest N → TableProgram N Unit
  | .create c q isSingleton freshId now follow =>
    D.createRequest c q isSingleton freshId now follow
  | .update c q id now follow => D.updateRequest c q id now follow
  | .softDelete c caller id now follow => D.softDeleteRequest c caller id now follow
  | .restore c caller id now follow => restoreRequest c caller id now follow
  | .hardDelete c caller id follow => hardDeleteRequest c caller id follow

variable {ι : Type} [DecidableEq ι] (requests : ι → ItemRequest N)

/-- Requests on sound tables whose unique fields are unique, in any order of their calls. -/
def system : System (Program.Shared ι (Tables N) (Statement N) ApiError Unit) ι :=
  Program.system D.execute (fun t => D.Sound t ∧ D.Unique t) fun i => D.program (requests i)

/-- The call that a request makes next gives no row a value of an indirect unique field that another
live row has. -/
def FreshStep (s : Program.Shared ι (Tables N) (Statement N) ApiError Unit) (i : ι) : Prop :=
  ∀ s', (D.system requests).step s i = some s' → D.Fresh s.state s'.state

variable {D requests}

end UniqueStore

/-! ## Accounts -/

/-- Accounts with an encrypted number. -/
def accountSchema : EntitySchema (Option Int) where
  slug := "accounts"
  name := "Accounts"
  info := {
    tableName := "cms_accounts"
    schemaFields := [{ name := "iban", type := .text, unique := true, encrypted := true },
      { name := "code", type := .text, required := some false, unique := true }]
    systemFieldOptions := {
      docStatus := false, displayNumber := false, createdBy := false, updatedBy := false,
      deletedBy := false, owner := false }
    fields_user := by decide }

/-- Two texts are one value if they are equal. -/
def sameText : JsVal (Option Int) → JsVal (Option Int) → Bool
  | .str a, .str b => a == b
  | a, b => !a.isNullish && !b.isNullish

/-- The row of an INSERT that names no column. -/
def accountBlank : Record (Option Int) :=
  [("id", .null), ("iban", .null), ("code", .null), ("deleted_at", .null), ("_meta", .null),
    ("created_at", .null), ("updated_at", .null)]

/-- The table of the accounts. -/
def accountStore : UniqueStore (Option Int) where
  reads := readOf ⟨[accountSchema], by decide, by decide⟩ (by decide)
  cipher := plainCipher
  storage _ := plainStorage _
  blank _ := accountBlank
  same := sameText
  computedValue _ _ := .null
  same_self v hv := by
    cases v with
    | str s => exact beq_self_eq_true s
    | undefined | null => cases hv
    | bool | num | arr | obj | func => rfl
  blank_columns c hc k hk := by
    rw [List.mem_singleton.1 hc] at hk
    have hall : (physicalColumnNames accountSchema.info.schemaFields).all accountBlank.has = true := rfl
    exact List.all_eq_true.1 hall k hk

/-- A `createItem` of an account, with the nonce that is drawn for its number. -/
def createAccount (nonce : List UInt8) : CreateCall (Option Int) accountSchema.info where
  auth := none
  body := .obj [("iban", .str "DE01")]
  restrictions := none
  platform := FieldEncryption.withKey plainCipher (fun _ => nonce) plainPlatform
  ruleEnv := { now := "", today := "", uuid := "", timestamp := none,
               globals := fun _ => none, registry := fun _ => none }
  document := .ok
  computed _ := []
  displayNumber := none
  computed_stored _ _ hkv := by cases hkv

/-- Two of them, of one number. -/
def accountRequests : Bool → ItemRequest (Option Int)
  | false => .create accountSchema (createAccount [1]) false "a1" ⟨"t8", by decide⟩ []
  | true => .create accountSchema (createAccount [2]) false "a2" ⟨"t8", by decide⟩ []

/-- The row of an account. -/
def accountRow (nonce : List UInt8) (id : String) : Record (Option Int) :=
  [("id", .str id), ("iban", .str (FieldEncryption.encrypt plainCipher nonce "DE01")), ("code", .null),
    ("deleted_at", .null), ("_meta", .str "\x7b\x7d"), ("created_at", .str "t8"),
    ("updated_at", .str "t8")]

/-- The requests on an empty table. -/
def accountStart :
    Program.Shared Bool (Tables (Option Int)) (Statement (Option Int)) ApiError Unit :=
  ⟨fun _ => [], fun i => accountStore.program (accountRequests i)⟩

theorem init_accountStart : (accountStore.system accountRequests).init accountStart := by
  refine ⟨⟨fun c hc => ⟨⟨List.nodup_nil, List.Pairwise.nil⟩, ?_⟩, ?_⟩, rfl⟩
  · intro row hrow
    cases hrow
  · intro c hc f hf hunique a ha
    cases ha

/-- The number is read as it was written. -/
theorem value_accountRow (nonce : List UInt8) (id : String) : accountStore.value accountSchema
    { name := "iban", type := .text, unique := true, encrypted := true } (accountRow nonce id) =
      .str "DE01" := by
  have hread : (accountStore.reads.readRow accountSchema.info.schemaFields
      (accountRow nonce id)).get? "iban" =
        some (.str (FieldEncryption.encrypt plainCipher nonce "DE01")) :=
    get?_readRow_column (by decide) rfl
  show Record.get (FieldEncryption.decryptItem plainCipher accountSchema.info.schemaFields
    (accountStore.reads.readRow accountSchema.info.schemaFields (accountRow nonce id))) "iban" = _
  rw [Record.get_eq, get?_decryptItem, hread, Option.map_some, Option.getD_some]
  exact (if_pos rfl).trans (decryptField_encrypt (by decide))

end HeadlessErp
