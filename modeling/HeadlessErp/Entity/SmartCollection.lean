import Mathlib.Logic.Function.Basic
import HeadlessErp.Base.Transition
import HeadlessErp.Entity.FieldRules
import HeadlessErp.Entity.UpdateFrame
import HeadlessErp.Entity.Version
import HeadlessErp.Storage.Encryption

/-!
# Writes under the rules of fields

`createItem` and `updateItem` of `apps/api/src/lib/services/smart-collection.service.ts`: defaults and
linkages complete the body, the rules of the fields are checked on it, and the service of the
collection stores it. An update checks its rules on the body alone, so that what they say of it is what
they say of the row only where the body has what they look at (`satisfies_of_reach`).
-/

namespace HeadlessErp

/-- A collection whose fields have rules, its table and the reads of it. -/
structure RuledCollection (N : Type) [JsNumber N] where
  schema : EntitySchema N
  fields : List (RuledField N)
  reads : ReadContext N
  cipher : Cipher
  storage : Storage N
  blank : Record N
  platform : RulePlatform N
  schemaFields_eq : schema.info.schemaFields = fields.map (·.toFieldDefinition)
  registered : schema ∈ reads.all
  blank_columns : ∀ k, storesColumn schema.info k = true → blank.has k = true

/-- A write. Its body stands for that of the call. -/
inductive SmartRequest (N : Type) (info : CollectionInfo N) where
  | create (id : String) (call : CreateCall N info) (body : Record N) (now : IsoTime)
  | update (id : String) (call : UpdateCall N info) (body : Record N) (now : IsoTime)

namespace RuledCollection
variable {N : Type} [JsNumber N] (C : RuledCollection N)

/-! ## The service -/

/-- A row as it is read. -/
def view (row : Record N) : Record N :=
  FieldEncryption.decryptItem C.cipher C.schema.info.schemaFields
    (C.reads.readRow C.schema.info.schemaFields row)

/-- The document of a create: the body with its defaults and linkages. -/
def createDocument (call : CreateCall N C.schema.info) (body : Record N) : Record N :=
  evaluateLinkages call.ruleEnv C.fields
    (resolveAllDefaults call.ruleEnv (defaultContext call.auth) C.fields body)

/-- The document of an update: the body with its linkages. -/
def updateDocument (call : UpdateCall N C.schema.info) (body : Record N) : Record N :=
  evaluateLinkages call.ruleEnv C.fields body

/-- The check of the rules. -/
def assertRules (doc : Record N) : Except ApiError Unit :=
  match validateAll C.platform C.fields doc with
  | [] => .ok ()
  | errors => .error (.validation (formatErrors errors) none)

/-- `createItem`. -/
def createItem (id : String) (call : CreateCall N C.schema.info) (body : Record N) (now : IsoTime)
    (row : Option (Record N)) : Except ApiError (Record N) := do
  let doc := C.createDocument call body
  C.assertRules doc
  HeadlessErp.createItem C.schema.slug id C.storage C.blank { call with body := .obj doc } now row

/-- `updateItem`: its answer, and the row after it. -/
def updateItem (id : String) (call : UpdateCall N C.schema.info) (body : Record N) (now : IsoTime)
    (row : Option (Record N)) : Except ApiError (Record N) × Option (Record N) :=
  let doc := C.updateDocument call body
  match C.assertRules doc with
  | .error e => (.error e, row)
  | .ok () =>
    HeadlessErp.updateItem C.schema.slug id C.storage { call with body := .obj doc } now row

/-- The rows by their ids. -/
abbrev Rows (N : Type) := String → Option (Record N)

/-- The rows after a write. -/
def write (rows : Rows N) : SmartRequest N C.schema.info → Rows N
  | .create id call body now =>
    match C.createItem id call body now (rows id) with
    | .ok row => Function.update rows id (some row)
    | .error _ => rows
  | .update id call body now => Function.update rows id (C.updateItem id call body now (rows id)).2

/-! ## What the rules promise -/

/-- A row satisfies the rules of its fields. -/
def Valid (row : Record N) : Prop := Satisfies C.platform C.fields (C.view row)

/-- A write is answered as its rules say: what is stored satisfies them, and an update is not refused
for them where the row merged with its document satisfies them. -/
def Answered (rows : Rows N) : SmartRequest N C.schema.info → Prop
  | .create id call body now => ∀ row, C.createItem id call body now (rows id) = .ok row → C.Valid row
  | .update id call body now => ∀ existing, rows id = some existing →
      (∀ row, (C.updateItem id call body now (some existing)).2 = some row → C.Valid row) ∧
      (Satisfies C.platform C.fields ((C.view existing).assign (C.updateDocument call body)) →
        C.assertRules (C.updateDocument call body) = .ok ())

/-! ## When it holds -/

/-- The value of a column, as it is read. -/
def readBack (key : String) (v : JsVal N) : JsVal N :=
  let v := C.reads.decodeField C.schema.info.schemaFields key v
  if C.schema.info.schemaFields.any (fun f => f.encrypted && f.name == key) then
    FieldEncryption.decryptField C.cipher v
  else v

/-- A field of a document is stored as it is: the policies and hooks leave it in the document that the
columns are taken from, its conversion and its column keep the value, and no value is filled in for one
that is absent. -/
structure Keeps (P : Platform N) (doc document : Record N) (k : String) : Prop where
  column : storesColumn C.schema.info k = true
  untouched : document.get? k = doc.get? k
  value : ∀ v, doc.get? k = some v → ∀ stored,
    storedValue P C.schema.info.schemaFields C.storage k v = .ok stored → C.readBack k stored = v
  absent : doc.get? k = none → ¬FilledIn C.schema.info.schemaFields document k

/-- The rules see of a write what they say of its row. -/
def Sees (rows : Rows N) : SmartRequest N C.schema.info → Prop
  | .create _ call body _ =>
    let doc := C.createDocument call body
    ∀ data document, createFields C.schema.slug { call with body := .obj doc } = .ok data →
      call.document data = .ok document → (document.map (·.1)).Nodup ∧
        ∀ f ∈ C.fields, ∀ rule ∈ f.validation,
          rule.Sound C.platform (C.Keeps call.platform doc document) f.name doc (C.view C.blank) ∧
          (rule.skips = true → doc.has f.name = false → checkRule C.platform f.name rule
            ((JsVal.obj (C.view C.blank)).getMember f.name) (C.view C.blank) = none)
  | .update id call body _ =>
    let doc := C.updateDocument call body
    ∀ existing, rows id = some existing →
      (∀ prepared, checkUpdate C.schema.slug { call with body := .obj doc } existing (some existing) =
          .ok prepared → (prepared.document.map (·.1)).Nodup ∧
        ∀ f ∈ C.fields, ∀ rule ∈ f.validation, rule.Sound C.platform
          (C.Keeps call.platform doc prepared.document) f.name doc (C.view existing)) ∧
      ∀ f ∈ C.fields, ∀ rule ∈ f.validation, rule.Complete C.platform (fun _ => True) f.name doc

/-! ## Rows -/

variable {C}

/-- A column of a row, as it is read. -/
theorem getMember_view {row : Record N} {k : String} {v : JsVal N}
    (hk : storesColumn C.schema.info k = true) (hv : row.get? k = some v) :
    (JsVal.obj (C.view row)).getMember k = C.readBack k v := by
  have hmeta : k ≠ "_meta" := fun h => not_mem_systemFields hk (h ▸ List.mem_cons_self)
  have hget : (C.view row).get? k = some (C.readBack k v) := by
    unfold view
    rw [get?_decryptItem, get?_readRow_column hmeta hv]
    rfl
  have hown : JsVal.ownMember (C.view row) k = some (C.readBack k v) := hget
  simp only [JsVal.getMember, hown]

/-- A row that holds what is kept of a document has of it what the document says, and of the other
names what the row before it has. -/
theorem mergesAt_of_keeps {P : Platform N} {doc document existing row : Record N} {k : String}
    (h : C.Keeps P doc document k) (hexisting : existing.has k = true)
    (hnamed : ∀ v, document.get? k = some v → ∃ stored,
      storedValue P C.schema.info.schemaFields C.storage k v = .ok stored ∧ row.get? k = some stored)
    (hunnamed : document.get? k = none → ¬FilledIn C.schema.info.schemaFields document k →
      row.get? k = existing.get? k) : MergesAt doc (C.view existing) (C.view row) k := by
  unfold MergesAt
  rw [Record.has_eq_isSome] at hexisting ⊢
  cases hdoc : doc.get? k with
  | some v =>
    obtain ⟨stored, hstored, hrow⟩ := hnamed v (h.untouched.trans hdoc)
    have hown : JsVal.ownMember doc k = some v := hdoc
    rw [getMember_view h.column hrow, h.value v hdoc stored hstored]
    simp only [Option.isSome_some, if_true, JsVal.getMember, hown]
  | none =>
    obtain ⟨w, hw⟩ := Option.isSome_iff_exists.1 hexisting
    have hrow := hunnamed (h.untouched.trans hdoc) (h.absent hdoc)
    rw [getMember_view h.column (hrow.trans hw), getMember_view h.column hw]
    rfl

/-- A row with all columns. -/
def HasColumns (C : RuledCollection N) (row : Record N) : Prop :=
  ∀ k, storesColumn C.schema.info k = true → row.has k = true

theorem fieldNames_nodup : (C.schema.info.schemaFields.map (·.name)).Nodup :=
  C.reads.names_nodup C.schema C.registered

/-- The columns of a document: those it names, and none of another that is not filled in. -/
theorem mergesAt_of_split {P : Platform N} {doc document existing row columns rest : Record N}
    {k : String} (h : C.Keeps P doc document k) (hexisting : existing.has k = true)
    (hnames : (document.map (·.1)).Nodup)
    (hsplit : splitRowData P (extractChildData document C.schema.info.schemaFields).1
      C.schema.info.schemaFields = .ok (columns, rest))
    (hrow : row.get? k = ((columns.get? k).map fun value => C.storage.store k
      (encryptValue P C.schema.info.schemaFields k value)).or (existing.get? k)) :
    MergesAt doc (C.view existing) (C.view row) k := by
  refine mergesAt_of_keeps h hexisting (fun v hv => ?_) fun hnone hfilled => ?_
  · have hclean : (extractChildData document C.schema.info.schemaFields).1.get? k = some v := by
      rw [get?_extractChildData fun _ hf htable =>
        ne_of_storesColumn fieldNames_nodup h.column hf htable, hv]
    obtain ⟨value, hvalue, hcolumn⟩ := get?_splitRowData
      (nodup_extractChildData C.schema.info.schemaFields hnames) h.column hsplit hclean
    rw [hcolumn] at hrow
    refine ⟨_, ?_, hrow⟩
    unfold storedValue
    rw [hvalue]
    rfl
  · have hmeta : k ≠ "_meta" := fun hk => not_mem_systemFields h.column (hk ▸ List.mem_cons_self)
    rw [hrow, get?_splitRowData_eq_none (fun _ => has_of_has_extractChildData) hnone hmeta hfilled
      hsplit]
    rfl

/-- The row of a create. -/
theorem createItem_eq_ok {id : String} {call : CreateCall N C.schema.info} {now : IsoTime}
    {row : Record N}
    (h : HeadlessErp.createItem C.schema.slug id C.storage C.blank call now none = .ok row) :
    ∃ data document columns rest, createFields C.schema.slug call = .ok data ∧
      call.document data = .ok document ∧
      splitRowData call.platform (extractChildData document C.schema.info.schemaFields).1
        C.schema.info.schemaFields = .ok (columns, rest) ∧
      (∀ k, C.blank.has k = true → row.has k = true) ∧
      ∀ k, storesColumn C.schema.info k = true → row.get? k =
        ((columns.get? k).map fun value => C.storage.store k
          (encryptValue call.platform C.schema.info.schemaFields k value)).or (C.blank.get? k) := by
  obtain ⟨data, hdata, h⟩ := exists_of_bind_eq_ok h
  obtain ⟨⟨columns, rest⟩, hcolumns, hup⟩ := exists_of_bind_eq_ok h
  obtain ⟨document, hdocument, hcolumns⟩ := exists_of_bind_eq_ok hcolumns
  obtain ⟨⟨split, rest'⟩, hsplit, hcolumns⟩ := exists_of_bind_eq_ok hcolumns
  cases hcolumns
  refine ⟨data, document, split, rest, hdata, hdocument, hsplit, fun k => has_updateRow hup, ?_⟩
  intro k hk
  rw [get?_updateRow hup, get?_insertData (not_mem_systemFields hk), get?_encryptColumns,
    Record.get?_assign, get?_eq_none_of_storesColumn fieldNames_nodup (call.computed_stored _) hk,
    Option.none_or, Option.map_map]
  rfl

/-- The row of an update: as it was, or written. -/
theorem row_of_updateItem {id : String} {call : UpdateCall N C.schema.info} {now : IsoTime}
    {existing row : Record N}
    (h : (HeadlessErp.updateItem C.schema.slug id C.storage call now (some existing)).2 = some row) :
    row = existing ∨ ∃ prepared written,
      checkUpdate C.schema.slug call existing (some existing) = .ok prepared ∧
      updateRow C.storage (updateData call prepared now) existing = .ok written ∧
      (row = written ∨ ∃ doc, updateRow C.storage (call.recomputed doc) written = .ok row) := by
  unfold HeadlessErp.updateItem at h
  cases hrequest : assertRequest C.schema.slug call with
  | error e =>
    rw [hrequest] at h
    exact .inl (Option.some.inj h).symm
  | ok _ =>
    rw [hrequest] at h
    dsimp only at h
    cases hp : checkUpdate C.schema.slug call existing (some existing) with
    | error e =>
      rw [hp] at h
      exact .inl (Option.some.inj h).symm
    | ok p =>
      rw [hp] at h
      dsimp only at h
      cases hup : updateRow C.storage (updateData call p now) existing with
      | error e =>
        rw [hup] at h
        exact .inl (Option.some.inj h).symm
      | ok written =>
        rw [hup] at h
        dsimp only at h
        refine .inr ⟨p, written, rfl, hup, ?_⟩
        split at h
        · exact .inl (Option.some.inj h).symm
        · exact .inl (Option.some.inj h).symm
        · next hre =>
          cases h
          obtain ⟨before, hbefore, hup'⟩ := Updates.recomputedRow_eq_some hre
          cases hbefore
          exact .inr ⟨_, hup'⟩

/-! ## Writes -/

theorem assertRules_eq_ok {doc : Record N} :
    C.assertRules doc = .ok () ↔ Satisfies C.platform C.fields doc := by
  rw [← validateAll_eq_nil]
  unfold assertRules
  split
  · next h => exact ⟨fun _ => h, fun _ => rfl⟩
  · next h => exact ⟨fun hok => (by cases hok), fun hnil => absurd hnil h⟩

/-- A row satisfies the rules that a document satisfies which it is made of. -/
theorem valid_of_satisfies {P : Platform N} {doc document old row : Record N}
    (hdoc : Satisfies C.platform C.fields doc)
    (hmerge : ∀ k, C.Keeps P doc document k → MergesAt doc (C.view old) (C.view row) k)
    (hrules : ∀ f ∈ C.fields, ∀ rule ∈ f.validation,
      rule.Sound C.platform (C.Keeps P doc document) f.name doc (C.view old) ∧
      (rule.skips = true → doc.has f.name = false → checkRule C.platform f.name rule
        ((JsVal.obj (C.view old)).getMember f.name) (C.view old) = none)) : C.Valid row := by
  intro f hf rule hrule
  obtain ⟨hsound, hold⟩ := hrules f hf rule hrule
  exact checkRule_of_sound hmerge hsound hold (hdoc f hf rule hrule)

/-- A create that is seen stores a valid row. -/
theorem valid_of_createItem {rows : Rows N} {id : String} {call : CreateCall N C.schema.info}
    {body : Record N} {now : IsoTime} {row : Record N} (hsees : C.Sees rows (.create id call body now))
    (hrows : ∀ row, rows id = some row → C.Valid row ∧ C.HasColumns row)
    (h : C.createItem id call body now (rows id) = .ok row) : C.Valid row ∧ C.HasColumns row := by
  obtain ⟨_, hrules, h⟩ := exists_of_bind_eq_ok h
  cases hrow : rows id with
  | some existing =>
    rw [hrow] at h
    obtain ⟨data, -, h⟩ := exists_of_bind_eq_ok h
    simp only at h
    split at h
    · cases h
    · cases h
      exact hrows row hrow
  | none =>
    rw [hrow] at h
    obtain ⟨data, document, columns, rest, hdata, hdocument, hsplit, hhas, hget⟩ :=
      createItem_eq_ok h
    obtain ⟨hnames, hsound⟩ := hsees data document hdata hdocument
    refine ⟨valid_of_satisfies (assertRules_eq_ok.1 hrules) (fun k hk => ?_) hsound, fun k hk =>
      hhas k (C.blank_columns k hk)⟩
    exact mergesAt_of_split hk (C.blank_columns k hk.column) hnames hsplit (hget k hk.column)

/-- An update of a row that is not there leaves none. -/
theorem updateItem_none {id : String} {call : UpdateCall N C.schema.info} {body : Record N}
    {now : IsoTime} : (C.updateItem id call body now none).2 = none := by
  unfold updateItem
  dsimp only
  split
  · rfl
  · unfold HeadlessErp.updateItem
    split
    · rfl
    · rfl
    · next h => cases h

/-- An update that is seen leaves a valid row. -/
theorem valid_of_updateItem {rows : Rows N} {id : String} {call : UpdateCall N C.schema.info}
    {body : Record N} {now : IsoTime} {existing row : Record N}
    (hsees : C.Sees rows (.update id call body now)) (hexisting : rows id = some existing)
    (hvalid : C.Valid existing) (hcolumns : C.HasColumns existing)
    (h : (C.updateItem id call body now (some existing)).2 = some row) :
    C.Valid row ∧ C.HasColumns row := by
  unfold updateItem at h
  dsimp only at h
  cases hrules : C.assertRules (C.updateDocument call body) with
  | error e =>
    rw [hrules] at h
    cases h
    exact ⟨hvalid, hcolumns⟩
  | ok _ =>
    rw [hrules] at h
    obtain rfl | ⟨prepared, written, hp, hup, hrow⟩ := row_of_updateItem h
    · exact ⟨hvalid, hcolumns⟩
    obtain ⟨hnames, hsound⟩ := (hsees existing hexisting).1 prepared hp
    refine ⟨valid_of_satisfies (assertRules_eq_ok.1 hrules) (fun k hk => ?_)
      fun f hf rule hrule => ⟨hsound f hf rule hrule, fun _ _ => hvalid f hf rule hrule⟩, ?_⟩
    · obtain ⟨columns, rest, hsplit, hget⟩ :=
        get?_writtenRow fieldNames_nodup hp hup hrow hk.column
      exact mergesAt_of_split hk (hcolumns k hk.column) hnames hsplit hget
    · intro k hk
      have hwritten := has_updateRow hup (hcolumns k hk)
      obtain hrow | ⟨doc, hre⟩ := hrow
      · rw [hrow]
        exact hwritten
      · exact has_updateRow hre hwritten

/-- An update whose rules find in its document what they look at is not refused for them. -/
theorem assertRules_of_complete {doc old : Record N}
    (hcomplete : ∀ f ∈ C.fields, ∀ rule ∈ f.validation,
      rule.Complete C.platform (fun _ => True) f.name doc)
    (hmerged : Satisfies C.platform C.fields (old.assign doc)) : C.assertRules doc = .ok () := by
  have hmerge : ∀ k, True → MergesAt doc old (old.assign doc) k := by
    intro k _
    have hassign : JsVal.ownMember (old.assign doc) k =
        (JsVal.ownMember doc k).or (JsVal.ownMember old k) := Record.get?_assign old doc k
    unfold MergesAt
    rw [Record.has_eq_isSome]
    show _ = if (JsVal.ownMember doc k).isSome = true then _ else _
    cases hdoc : JsVal.ownMember doc k with
    | some v =>
      rw [hdoc, Option.some_or] at hassign
      simp only [JsVal.getMember, hassign, hdoc, Option.isSome_some, if_true]
    | none =>
      rw [hdoc, Option.none_or] at hassign
      simp only [JsVal.getMember, hassign, Option.isSome_none, Bool.false_eq_true, if_false]
  refine assertRules_eq_ok.2 fun f hf rule hrule => ?_
  exact checkRule_of_complete hmerge (hcomplete f hf rule hrule) (hmerged f hf rule hrule)

/-! ## Runs -/

variable (C) in
/-- Writes one after another, from rows that satisfy their rules. -/
def system : System (Rows N) (SmartRequest N C.schema.info) where
  init rows := ∀ id row, rows id = some row → C.Valid row ∧ C.HasColumns row
  step rows request := some (C.write rows request)

end RuledCollection

/-! ## Cases -/

/-- Cases with a title, and a reason once they are closed. -/
def caseFields : List (RuledField (Option Int)) :=
  [{ name := "title", type := .text, validation := [.required none] },
    { name := "status", type := .text, required := some false },
    { name := "reason", type := .text, required := some false,
      validation := [.requiredIf "status" (.str "closed") none] }]

def caseSchema : EntitySchema (Option Int) where
  slug := "cases"
  name := "Cases"
  info := {
    tableName := "cms_cases"
    schemaFields := caseFields.map (·.toFieldDefinition)
    fields_user := by decide }

/-- The row of an INSERT that names no column. -/
def caseBlank : Record (Option Int) :=
  [("id", .null), ("title", .null), ("status", .null), ("reason", .null), ("_meta", .null),
    ("updated_at", .null)]

theorem columns_caseSchema {k : String} (hk : storesColumn caseSchema.info k = true) :
    k = "title" ∨ k = "status" ∨ k = "reason" := by
  by_contra hne
  obtain ⟨h1, h2, h3⟩ : k ≠ "title" ∧ k ≠ "status" ∧ k ≠ "reason" := by simpa using hne
  have htype : schemaType caseSchema.info.schemaFields k = none := by
    unfold schemaType
    simp [caseSchema, caseFields, Ne.symm h1, Ne.symm h2, Ne.symm h3]
  unfold storesColumn at hk
  rw [htype] at hk
  simp [m2aColumns, caseSchema, caseFields] at hk

/-- The cases and their table. -/
def caseCollection : RuledCollection (Option Int) where
  schema := caseSchema
  fields := caseFields
  reads := readOf ⟨[caseSchema], by decide, by decide⟩ (by decide)
  cipher := plainCipher
  storage := plainStorage _
  blank := caseBlank
  platform := { testRegex := fun _ _ => none, isUrl := fun _ => true, registry := fun _ => none }
  schemaFields_eq := rfl
  registered := List.mem_cons_self
  blank_columns k hk := by obtain rfl | rfl | rfl := columns_caseSchema hk <;> rfl

/-- A closed case. -/
def caseRow (title : String) (updatedAt : JsVal (Option Int)) : Record (Option Int) :=
  [("id", .str "c1"), ("title", .str title), ("status", .str "closed"), ("reason", .str "paid"),
    ("_meta", .str "\x7b\x7d"), ("updated_at", updatedAt)]

/-- One closed case. -/
def caseRows : RuledCollection.Rows (Option Int) := fun id =>
  if id = "c1" then some (caseRow "rent" .null) else none

/-- An update of the case. -/
def updateCase (body : Record (Option Int)) : SmartRequest (Option Int) caseSchema.info :=
  .update "c1" (plainCall [] none) body ⟨"t9", by decide⟩

theorem init_caseRows : caseCollection.system.init caseRows := by
  intro id row hrow
  unfold caseRows at hrow
  split at hrow
  · cases hrow
    constructor
    · exact validateAll_eq_nil.1 rfl
    · intro k hk
      obtain rfl | rfl | rfl := columns_caseSchema hk <;> rfl
  · cases hrow

theorem rules_caseFields {f : RuledField (Option Int)} (hf : f ∈ caseFields)
    {rule : ValidationRule (Option Int)} (hrule : rule ∈ f.validation) :
    (f.name = "title" ∧ rule = .required none) ∨
      (f.name = "reason" ∧ rule = .requiredIf "status" (.str "closed") none) := by
  obtain rfl | hf := List.mem_cons.1 hf
  · exact .inl ⟨rfl, List.mem_singleton.1 hrule⟩
  obtain rfl | hf := List.mem_cons.1 hf
  · cases hrule
  · rw [List.mem_singleton.1 hf] at hrule ⊢
    exact .inr ⟨rfl, List.mem_singleton.1 hrule⟩

/-- The table keeps the title as it is. -/
theorem keeps_title {k : String} (hk : storesColumn caseSchema.info k = true) : caseCollection.Keeps
    { randomUUID := "", sanitizeHtml := id, encrypt := fun _ v => v }
    [("title", .str "flat")] [("title", .str "flat")] k where
  column := hk
  untouched := rfl
  value v hv stored hstored := by
    obtain rfl | rfl | rfl := columns_caseSchema hk
    · cases hv
      cases hstored
      rfl
    · cases hv
    · cases hv
  absent _ hfilled := by
    obtain ⟨f, hf, -, htype⟩ := hfilled
    have htext : f.type = .text := by
      obtain rfl | hf := List.mem_cons.1 hf
      · rfl
      obtain rfl | hf := List.mem_cons.1 hf
      · rfl
      · rw [List.mem_singleton.1 hf]
    rw [htext] at htype
    obtain h | ⟨h, -⟩ := htype <;> cases h

/-- The rules see an update of the title. -/
theorem sees_title : caseCollection.Sees caseRows (updateCase [("title", .str "flat")]) := by
  intro existing hexisting
  obtain rfl : caseRow "rent" .null = existing := Option.some.inj hexisting
  constructor
  · intro prepared hprepared
    have hdocument : prepared.document = [("title", .str "flat")] := by
      cases hprepared
      rfl
    rw [hdocument]
    refine ⟨by decide, ?_⟩
    intro f hf rule hrule
    obtain ⟨hname, rfl⟩ | ⟨hname, rfl⟩ := rules_caseFields hf hrule
    · rw [hname]
      exact ⟨keeps_title rfl, .inl rfl⟩
    · rw [hname]
      exact ⟨keeps_title rfl, keeps_title rfl, .inr rfl, fun h => (by cases h)⟩
  · intro f hf rule hrule
    obtain ⟨hname, rfl⟩ | ⟨hname, rfl⟩ := rules_caseFields hf hrule
    · rw [hname]
      exact ⟨trivial, rfl⟩
    · exact ⟨trivial, trivial, .inr (.inl rfl), .inr rfl⟩

end HeadlessErp
