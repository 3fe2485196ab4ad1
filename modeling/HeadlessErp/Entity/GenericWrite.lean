import Mathlib.Data.List.Nodup
import HeadlessErp.Entity.Item

/-!
# What a request chooses of a row

The columns whose values a generic create or update takes from the caller's payload, when no hook is
registered. The payload goes through the guards (`bindActorFields`, `stripFrozenFields`,
`assertWritableFields`), through the inverse formulas, and through `splitRowData`. The guards know the
names of the fields; the later passes write columns of other names, and write to fields again.
-/

namespace HeadlessErp

/-- A generic write: a create, or an update of the row it has read. -/
inductive GenericWrite (N : Type) (info : CollectionInfo N) where
  | create (c : CreateCall N info)
  | update (c : UpdateCall N info) (existing : Record N)

namespace GenericWrite
variable {N : Type} {info : CollectionInfo N}

/-! ## The passes of a request -/

def action : GenericWrite N info → WriteAction
  | create _ => .create
  | update _ _ => .update

def auth : GenericWrite N info → Option (AuthContext N)
  | create c => c.auth
  | update c _ => c.auth

def body : GenericWrite N info → JsVal N
  | create c => c.body
  | update c _ => c.body

def restrictions : GenericWrite N info → Option (List String)
  | create c => c.restrictions
  | update c _ => c.restrictions

def platform : GenericWrite N info → Platform N
  | create c => c.platform
  | update c _ => c.platform

def ruleEnv : GenericWrite N info → RuleEnv N
  | create c => c.ruleEnv
  | update c _ => c.ruleEnv

/-- The row that the inverse formulas see beside the payload. -/
def row : GenericWrite N info → Record N
  | create _ => []
  | update _ existing => existing

/-- The property that is taken out of the payload first: a new row's id, and the requested document
state. -/
def requestKey : GenericWrite N info → String
  | create _ => "id"
  | update _ _ => "doc_status"

variable [JsNumber N]

/-- The caller's fields after the guards and the inverse formulas. -/
def userData (collectionSlug : String) : GenericWrite N info → Except ApiError (Record N)
  | create c => createFields collectionSlug c
  | update c existing => Prod.snd <$> callerFields collectionSlug c existing

/-- The document that the columns are taken from. -/
def document (data : Record N) : GenericWrite N info → Except ApiError (Record N)
  | create c => c.document data
  | update c existing => transformDocument c existing data

/-- No hook, no marketplace plugin and no decision table is registered: what stands between the guards and
the columns only checks. -/
def NoHooks : GenericWrite N info → Prop
  | create c => ∀ data doc, c.document data = .ok doc → doc = data
  | update c _ => (∀ row data doc, c.plugins row data = .ok doc → doc = data) ∧
      (∀ data doc, c.marketplace data = .ok doc → doc = data) ∧ ∀ doc, c.decisionTables doc = .ok none

/-- The payload whose properties become columns. -/
def cleanBody (collectionSlug : String) (w : GenericWrite N info) : Except ApiError (Record N) := do
  let data ← w.userData collectionSlug
  let doc ← w.document data
  .ok (extractChildData doc info.schemaFields).1

/-- The columns of the INSERT or the UPDATE. -/
def written (collectionSlug id : String) (now : IsoTime) :
    GenericWrite N info → Except ApiError (Record N)
  | create c => do
    let data ← createFields collectionSlug c
    let (columns, rest) ← createColumns c data
    .ok (insertData c id columns rest now)
  | update c existing => do
    let p ← prepareUpdate collectionSlug c existing
    .ok (updateData c p now)

end GenericWrite

/-! ## The columns that a payload chooses -/

section
variable {N : Type} {info : CollectionInfo N}

/-- `splitRowData` stores the property of this name as a column. -/
def storesColumn (info : CollectionInfo N) (key : String) : Bool :=
  !systemFields.contains key &&
    match schemaType info.schemaFields key with
    | some fieldType => !([FieldType.o2m, .m2m, .table, .formula].contains fieldType)
    | none => (m2aColumns info.schemaFields).contains key

variable [JsNumber N]

/-- What an inverse formula sets: its target, and the value. -/
def inverseValue (R : RuleEnv N) (fields : List (FieldDefinition N)) (row data : Record N)
    (f : FieldDefinition N) : Option (String × JsVal N) :=
  match f.inverseFormula, f.inverseTarget with
  | some inverse, some target =>
    if f.type != .formula || inverse == "" || target == "" || (data.get f.name).isNullish then none
    else match fields.find? (·.name == target) with
      | none => none
      | some targetField =>
        match evaluateWith (ruleScope R (fun _ => none) (row.assign data)) inverse with
        | .error _ => none
        | .ok v =>
          match coerceValue v targetField.type with
          | .error _ => none
          | .ok v => some (target, v)
  | _, _ => none

theorem applyInverse_eq (R : RuleEnv N) (fields : List (FieldDefinition N)) (row data : Record N)
    (f : FieldDefinition N) : applyInverse R fields row data f =
      match inverseValue R fields row data f with
      | some (target, v) => data.set target v
      | none => data := by
  unfold applyInverse inverseValue
  cases f.inverseFormula with
  | none => rfl
  | some inverse =>
    cases f.inverseTarget with
    | none => rfl
    | some target =>
      simp only
      split
      · rfl
      · cases fields.find? (·.name == target) with
        | none => rfl
        | some targetField =>
          simp only
          cases evaluateWith (ruleScope R (fun _ => none) (row.assign data)) inverse with
          | error _ => rfl
          | ok v =>
            simp only
            cases coerceValue v targetField.type <;> rfl

/-- The targets that the inverse formulas of the fields set, one after another. -/
def inverseTargets (R : RuleEnv N) (fields : List (FieldDefinition N)) (row : Record N) :
    Record N → List (FieldDefinition N) → List String
  | _, [] => []
  | data, f :: fs =>
    match inverseValue R fields row data f with
    | some (target, v) => target :: inverseTargets R fields row (data.set target v) fs
    | none => inverseTargets R fields row data fs

theorem inverseTargets_cons (R : RuleEnv N) (fields : List (FieldDefinition N)) (row data : Record N)
    (f : FieldDefinition N) (fs : List (FieldDefinition N)) :
    inverseTargets R fields row data (f :: fs) =
      match inverseValue R fields row data f with
      | some (target, v) => target :: inverseTargets R fields row (data.set target v) fs
      | none => inverseTargets R fields row data fs := rfl

/-- The source of the slug that `splitRowData` fills in for a field. -/
def slugSource (body columns : Record N) (f : FieldDefinition N) : Option String :=
  match f.source with
  | some source =>
    if f.type = .slug && !body.has f.name && source != "" && (columns.get source).truthy then
      some source
    else none
  | none => none

/-- The slugs that are filled in from a chosen column, for the fields one after another. -/
def chosenSlugs (P : Platform N) (body : Record N) :
    Record N → List String → List (FieldDefinition N) → List String
  | _, _, [] => []
  | columns, chosen, f :: fs =>
    if (slugSource body columns f).any chosen.contains then
      f.name :: chosenSlugs P body (fillField P body columns f) (f.name :: chosen) fs
    else chosenSlugs P body (fillField P body columns f) chosen fs

namespace GenericWrite

/-- The caller's fields after the guards. -/
def guarded (collectionSlug : String) (w : GenericWrite N info) : Except ApiError (Record N) := do
  let body ← bodyFields w.body
  let data ← bindActorFields collectionSlug info w.auth (body.erase w.requestKey) w.action
  let data := stripFrozenFields info data
  assertWritableFields collectionSlug info w.auth w.restrictions data
  .ok data

/-- The targets of the inverse formulas. -/
def targets (w : GenericWrite N info) (data : Record N) : List String :=
  inverseTargets w.ruleEnv info.schemaFields w.row data info.schemaFields

omit [JsNumber N] in
/-- An admin may name an actor. -/
def bindsActors (w : GenericWrite N info) : Bool := !w.auth.any AuthContext.isAdmin

/-- The field of a new row holds the caller's employee. -/
def bound (w : GenericWrite N info) (key : String) : Bool :=
  w.action = .create && w.bindsActors && (appliedActorFields info).contains key

/-- The columns of the properties of the payload, and of the targets of inverse formulas. -/
def chosenKeys (w : GenericWrite N info) (data clean : Record N) : List String :=
  (clean.map (·.1)).filter fun key =>
    storesColumn info key && (!w.bound key || (w.targets data).contains key)

/-- The columns that are written with a value that the payload has chosen. -/
def chosenColumns (collectionSlug : String) (w : GenericWrite N info) :
    Except ApiError (List String) := do
  let data ← w.guarded collectionSlug
  let clean ← w.cleanBody collectionSlug
  let (columns, _) ← clean.foldlM (splitEntry w.platform info.schemaFields) ([], [])
  let keys := w.chosenKeys data clean
  .ok (keys ++ chosenSlugs w.platform clean columns keys info.schemaFields)

/-! ## The property -/

/-- The role may not write the field. -/
def Restricted (w : GenericWrite N info) (fieldName : String) : Prop :=
  ∃ a fields, w.auth = some a ∧ a.isAdmin = false ∧ w.restrictions = some fields ∧
    (∃ f ∈ info.schemaFields, f.name = fieldName) ∧ fieldName ∉ fields

/-- A field that the guards keep from the payload. -/
inductive GuardedField (w : GenericWrite N info) (fieldName : String) : Prop where
  | frozen (h : fieldName ∈ info.writes.frozenFields)
  | restricted (h : w.Restricted fieldName)
  | actor (hbinds : w.bindsActors = true) (h : fieldName ∈ appliedActorFields info)

omit [JsNumber N] in
/-- The columns of an m2a field. -/
def IsM2aColumn (info : CollectionInfo N) (fieldName key : String) : Prop :=
  ∃ f ∈ info.schemaFields, f.type = .m2a ∧ f.name = fieldName ∧
    (key = fieldName ++ "_type" ∨ key = fieldName ++ "_id")

/-- A column that no payload may choose: of a guarded field, of the engine, of a formula. A request
names the id of a new row or the requested document state, and `_meta` holds the properties without a
column. -/
inductive Protected (w : GenericWrite N info) (key : String) : Prop where
  | field (h : w.GuardedField key)
  | m2a {fieldName : String} (h : w.GuardedField fieldName) (hkey : IsM2aColumn info fieldName key)
  | system (h : key ∈ systemFields) (hmeta : key ≠ "_meta") (hrequest : key ≠ w.requestKey)
  | formula (h : schemaType info.schemaFields key = some .formula)

/-- The payload chooses no protected column. -/
def WriteGuarded (collectionSlug : String) (w : GenericWrite N info) : Prop :=
  ∀ chosen, w.chosenColumns collectionSlug = .ok chosen → ∀ key ∈ chosen, ¬ w.Protected key

/-- The guards take the property of this name from the payload. -/
def Taken (w : GenericWrite N info) (key : String) : Prop :=
  key ∈ info.writes.frozenFields ∨ (w.bindsActors = true ∧ key ∈ appliedActorFields info)

/-- An update hands the row to the hooks under this name. -/
def Dropped (w : GenericWrite N info) (key : String) : Prop := w.action = .update ∧ key = "_existing"

/-- What the guards cannot see does not happen: the payload has no column of a guarded m2a field, no
inverse formula sets a protected column, and no protected slug is filled in from a chosen column. -/
structure GuardsCover (collectionSlug : String) (w : GenericWrite N info) : Prop where
  m2a : ∀ body, bodyFields w.body = .ok body → ∀ key, body.has key = true → ¬ w.Taken key →
    ¬ w.Dropped key → storesColumn info key = true → ∀ fieldName, w.GuardedField fieldName →
      ¬ IsM2aColumn info fieldName key
  inverse : ∀ data, w.guarded collectionSlug = .ok data → ∀ key ∈ w.targets data,
    ¬ w.Dropped key → storesColumn info key = true → ¬ w.Protected key
  slug : ∀ data clean columns rest, w.guarded collectionSlug = .ok data →
    w.cleanBody collectionSlug = .ok clean →
    clean.foldlM (splitEntry w.platform info.schemaFields) ([], []) = .ok (columns, rest) →
    ∀ key ∈ chosenSlugs w.platform clean columns (w.chosenKeys data clean) info.schemaFields,
      ¬ w.Protected key

end GenericWrite

/-! ## The names that pass -/

/-- The names that a payload has after the actors are bound. -/
theorem has_bindActorFields {slug : String} {auth : Option (AuthContext N)} {data data' : Record N}
    {action : WriteAction} (h : bindActorFields slug info auth data action = .ok data')
    (key : String) : data'.has key = true ↔
      if auth.any AuthContext.isAdmin = false ∧ key ∈ appliedActorFields info then action ≠ .update
      else data.has key = true := by
  unfold bindActorFields at h
  simp only [Bool.or_eq_true, List.isEmpty_iff] at h
  split at h
  · next hfree =>
    cases h
    rw [if_neg]
    rintro ⟨hadmin, hkey⟩
    obtain hnil | hadmin' := hfree
    · rw [hnil] at hkey
      cases hkey
    · rw [hadmin] at hadmin'
      cases hadmin'
  · next hbinds =>
    have hadmin : auth.any AuthContext.isAdmin = false :=
      Bool.eq_false_iff.2 fun h => hbinds (.inr h)
    split at h
    · next hupdate =>
      cases h
      rw [Record.has_foldl_erase]
      by_cases hkey : key ∈ appliedActorFields info
      · simp [hadmin, hkey, hupdate]
      · simp [hkey]
    · next hupdate =>
      split at h
      · cases h
        rw [Record.has_foldl_set]
        by_cases hkey : key ∈ appliedActorFields info
        · simp [hadmin, hkey, hupdate]
        · simp [hkey]
      · cases h

omit [JsNumber N] in
/-- The names that a payload has after the frozen fields are stripped. -/
theorem has_stripFrozenFields {data : Record N} (key : String) :
    (stripFrozenFields info data).has key = true ↔
      data.has key = true ∧ key ∉ info.writes.frozenFields :=
  Record.has_foldl_erase _ _ _

/-- The fields that pass the restrictions of a role. -/
theorem not_restricted_of_assertWritableFields {slug : String} {a : AuthContext N}
    {fields : List String} {data : Record N} (ha : a.isAdmin = false)
    (h : assertWritableFields slug info (some a) (some fields) data = .ok ()) {key : String}
    (hkey : data.has key = true) {f : FieldDefinition N} (hf : f ∈ info.schemaFields)
    (hname : f.name = key) : key ∈ fields ∨ key ∈ info.actorFields ∨
      key ∈ info.writes.frozenFields := by
  simp only [assertWritableFields, ha, Bool.false_eq_true, if_false] at h
  split at h
  · next hblocked =>
    have hallowed := List.isEmpty_iff.1 hblocked
    rw [List.filter_eq_nil_iff] at hallowed
    have hkey' := hallowed key (Record.mem_keys_iff.2 hkey)
    have hfield : info.schemaFields.any (·.name == key) = true :=
      List.any_eq_true.2 ⟨f, hf, beq_iff_eq.2 hname⟩
    rw [hfield, Bool.true_and, Bool.not_eq_true, Bool.not_eq_false', List.contains_iff_mem] at hkey'
    simp only [List.mem_append, List.mem_cons, List.not_mem_nil, or_false] at hkey'
    obtain ((hfields | hsystem) | hactor) | hfrozen := hkey'
    · exact .inl hfields
    · -- no field has the name of a system field
      refine absurd ?_ (hname ▸ info.fields_user f hf)
      obtain rfl | rfl | rfl := hsystem <;> decide
    · exact .inr (.inl hactor)
    · exact .inr (.inr hfrozen)
  · cases h

/-- The names that a payload has after the inverse formulas. -/
theorem has_applyInverseFormulas (R : RuleEnv N) (all fields : List (FieldDefinition N))
    (row data : Record N) (key : String) :
    (fields.foldl (applyInverse R all row) data).has key = true ↔
      data.has key = true ∨ key ∈ inverseTargets R all row data fields := by
  induction fields generalizing data with
  | nil => simp [inverseTargets]
  | cons f fields ih =>
    rw [List.foldl_cons, ih, applyInverse_eq, inverseTargets_cons]
    cases inverseValue R all row data f with
    | none => rfl
    | some set =>
      obtain ⟨target, v⟩ := set
      simp only [Record.has_set, List.mem_cons]
      constructor
      · rintro ((rfl | h) | h)
        · exact .inr (.inl rfl)
        · exact .inl h
        · exact .inr (.inr h)
      · rintro (h | rfl | h)
        · exact .inl (.inr h)
        · exact .inl (.inl rfl)
        · exact .inr h

omit [JsNumber N] in
/-- The names that a payload has without its child rows. -/
theorem has_extractChildData {body : Record N} {fields : List (FieldDefinition N)} {key : String}
    (hkey : ∀ f ∈ fields, f.type = .table → f.name ≠ key) :
    (extractChildData body fields).1.has key = body.has key := by
  unfold extractChildData
  refine foldl_invariant (I := fun acc : Record N × List (String × List (JsVal N)) =>
    acc.1.has key = body.has key) rfl fun acc f hf hacc => ?_
  obtain ⟨hf, htable⟩ := List.mem_filter.1 hf
  obtain ⟨clean, children⟩ := acc
  simp only
  split
  · rw [Bool.eq_iff_iff, Record.has_erase, ← hacc]
    exact ⟨And.right, fun h => ⟨hkey f hf (of_decide_eq_true htable), h⟩⟩
  · exact hacc

omit [JsNumber N] in
/-- Of distinct fields, the one of a name has the type of the name. -/
theorem schemaType_eq_some {fields : List (FieldDefinition N)} (hnames : (fields.map (·.name)).Nodup)
    {f : FieldDefinition N} (hf : f ∈ fields) : schemaType fields f.name = some f.type := by
  unfold schemaType
  cases hfind : fields.reverse.find? (·.name == f.name) with
  | none =>
    have hne := List.find?_eq_none.1 hfind f (List.mem_reverse.2 hf)
    exact absurd (beq_self_eq_true f.name) hne
  | some g =>
    have hg : g ∈ fields := List.mem_reverse.1 (List.mem_of_find?_eq_some hfind)
    have hname : g.name = f.name := by simpa using List.find?_some hfind
    rw [List.inj_on_of_nodup_map hnames hg hf hname]
    rfl

omit [JsNumber N] in
/-- A property that is stored as a column is no child table. -/
theorem ne_of_storesColumn (hnames : (info.schemaFields.map (·.name)).Nodup) {key : String}
    (hkey : storesColumn info key = true) {f : FieldDefinition N} (hf : f ∈ info.schemaFields)
    (htable : f.type = .table) : f.name ≠ key := by
  rintro rfl
  unfold storesColumn at hkey
  rw [schemaType_eq_some hnames hf, htable] at hkey
  simp at hkey

namespace GenericWrite
variable {w : GenericWrite N info} {slug : String}

/-- The fields after the guards: the names that the payload keeps, and the ones that are bound. -/
theorem guarded_spec {data : Record N} (h : w.guarded slug = .ok data) :
    ∃ body, bodyFields w.body = .ok body ∧
      (∀ key, data.has key = true → w.bound key = true ∨
        body.has key = true ∧ ¬ w.Taken key ∧ ¬ w.Restricted key) ∧
      ∀ key, body.has key = true → key ≠ w.requestKey → ¬ w.Taken key → data.has key = true := by
  obtain ⟨body, hbody, h⟩ := exists_of_bind_eq_ok h
  obtain ⟨bound, hbound, h⟩ := exists_of_bind_eq_ok h
  obtain ⟨_, hassert, h⟩ := exists_of_bind_eq_ok h
  cases h
  have hbinds : w.bindsActors = true ↔ w.auth.any AuthContext.isAdmin = false := by
    simp [bindsActors]
  refine ⟨body, hbody, fun key hkey => ?_, fun key hkey hrequest htaken => ?_⟩
  · have hkey' := has_stripFrozenFields key |>.1 hkey
    obtain ⟨hdata, hfrozen⟩ := hkey'
    rw [has_bindActorFields hbound] at hdata
    split at hdata
    · next hactor =>
      left
      obtain ⟨hadmin, happlied⟩ := hactor
      cases w with
      | create c => simp [GenericWrite.bound, action, hbinds.2 hadmin, happlied]
      | update c existing => exact absurd rfl hdata
    · next hactor =>
      right
      have hnot : ¬ (w.bindsActors = true ∧ key ∈ appliedActorFields info) :=
        fun h => hactor ⟨hbinds.1 h.1, h.2⟩
      refine ⟨(Record.has_erase _ _ _ |>.1 hdata).2, fun h => h.elim hfrozen hnot, ?_⟩
      rintro ⟨a, fields, hauth, ha, hrestrictions, ⟨f, hf, rfl⟩, hfields⟩
      rw [hauth, hrestrictions] at hassert
      obtain h | hactor | h := not_restricted_of_assertWritableFields ha hassert hkey hf rfl
      · exact hfields h
      · refine hnot ⟨by simp [bindsActors, hauth, ha], ?_⟩
        exact List.mem_filter.2 ⟨hactor, List.any_eq_true.2 ⟨f, hf, beq_self_eq_true _⟩⟩
      · exact hfrozen h
  · rw [has_stripFrozenFields, has_bindActorFields hbound, if_neg, Record.has_erase]
    · exact ⟨⟨hrequest.symm, hkey⟩, fun h => htaken (.inl h)⟩
    · exact fun h => htaken (.inr ⟨hbinds.2 h.1, h.2⟩)

theorem guarded_eq_ok {body bound : Record N} (hbody : bodyFields w.body = .ok body)
    (hbound : bindActorFields slug info w.auth (body.erase w.requestKey) w.action = .ok bound)
    (hassert : assertWritableFields slug info w.auth w.restrictions (stripFrozenFields info bound)
      = .ok ()) : w.guarded slug = .ok (stripFrozenFields info bound) := by
  unfold guarded
  rw [hbody]
  show (bindActorFields slug info w.auth (body.erase w.requestKey) w.action >>= _) = _
  rw [hbound]
  show (assertWritableFields slug info w.auth w.restrictions _ >>= _) = _
  rw [hassert]
  rfl

/-- The caller's fields are the guarded ones, with what the inverse formulas set. -/
theorem userData_eq {data : Record N} (h : w.userData slug = .ok data) :
    ∃ guarded, w.guarded slug = .ok guarded ∧
      data = applyInverseFormulas w.ruleEnv info.schemaFields w.row guarded := by
  cases w with
  | create c =>
    obtain ⟨_, -, h⟩ := exists_of_bind_eq_ok h
    obtain ⟨body, hbody, h⟩ := exists_of_bind_eq_ok h
    obtain ⟨bound, hbound, h⟩ := exists_of_bind_eq_ok h
    obtain ⟨_, hassert, h⟩ := exists_of_bind_eq_ok h
    cases h
    exact ⟨_, guarded_eq_ok (w := .create c) hbody hbound hassert, rfl⟩
  | update c existing =>
    obtain ⟨⟨newStatus, data'⟩, hfields, rfl⟩ := exists_of_map_eq_ok h
    obtain ⟨body, hbody, h⟩ := exists_of_bind_eq_ok hfields
    obtain ⟨bound, hbound, h⟩ := exists_of_bind_eq_ok h
    obtain ⟨_, hassert, h⟩ := exists_of_bind_eq_ok h
    cases h
    exact ⟨_, guarded_eq_ok (w := .update c existing) hbody hbound hassert, rfl⟩

/-- Without hooks the document is the caller's fields. -/
theorem document_eq (hooks : w.NoHooks) {data doc : Record N} (h : w.document data = .ok doc) :
    doc = if w.action = .update then data.erase "_existing" else data := by
  cases w with
  | create c => exact hooks data doc h
  | update c existing =>
    obtain ⟨hplugins, hmarketplace, htables⟩ := hooks
    obtain ⟨data₁, h₁, h⟩ := exists_of_bind_eq_ok h
    obtain ⟨data₂, h₂, h⟩ := exists_of_bind_eq_ok h
    rw [hplugins _ _ _ h₁] at h₂
    rw [hmarketplace _ _ h₂] at h
    unfold runDecisionTables at h
    rw [htables] at h
    cases h
    rfl

/-- The names of the properties that become columns. -/
theorem has_cleanBody (hnames : (info.schemaFields.map (·.name)).Nodup) (hooks : w.NoHooks)
    {data clean : Record N} (hdata : w.guarded slug = .ok data) (h : w.cleanBody slug = .ok clean)
    {key : String} (hkey : storesColumn info key = true) :
    clean.has key = true ↔ (data.has key = true ∨ key ∈ w.targets data) ∧ ¬ w.Dropped key := by
  obtain ⟨data', huser, h⟩ := exists_of_bind_eq_ok h
  obtain ⟨doc, hdoc, h⟩ := exists_of_bind_eq_ok h
  cases h
  obtain ⟨guarded, hguarded, rfl⟩ := userData_eq huser
  cases hdata.symm.trans hguarded
  rw [has_extractChildData fun f hf htable => ne_of_storesColumn hnames hkey hf htable,
    document_eq hooks hdoc]
  unfold Dropped targets
  split
  · next hupdate =>
    rw [Record.has_erase, applyInverseFormulas, has_applyInverseFormulas, and_comm]
    simp only [hupdate, true_and, ne_eq, eq_comm]
  · next hcreate =>
    rw [applyInverseFormulas, has_applyInverseFormulas]
    simp only [hcreate, false_and, not_false_eq_true, and_true]

theorem mem_chosenKeys {data clean : Record N} {key : String} :
    key ∈ w.chosenKeys data clean ↔ clean.has key = true ∧ storesColumn info key = true ∧
      (w.bound key = false ∨ key ∈ w.targets data) := by
  unfold chosenKeys
  rw [List.mem_filter, Record.mem_keys_iff]
  simp

/-- Nothing that a payload keeps is bound. -/
theorem bound_eq_false {key : String} (h : ¬ w.Taken key) : w.bound key = false := by
  rw [Bool.eq_false_iff]
  intro hbound
  unfold bound at hbound
  simp only [Bool.and_eq_true, List.contains_iff_mem] at hbound
  exact h (.inr ⟨hbound.1.2, hbound.2⟩)

end GenericWrite

end

end HeadlessErp
