import HeadlessErp.Entity.Transitions

/-!
# One request at a time

`createItem` and `updateItem` of `apps/api/src/lib/services/collection-mutation.service.ts` on the
row of one id, without another request in between.
-/

namespace HeadlessErp

/-- A call of `createItem`, with the id of the request or the one that is drawn for it. `document` is
what the checks, the hooks and the rules make of the caller's fields, `computed` the stored formulas
over it. -/
structure CreateCall (N : Type) (info : CollectionInfo N) where
  auth : Option (AuthContext N)
  body : JsVal N
  restrictions : Option (List String)
  platform : Platform N
  ruleEnv : RuleEnv N
  document : Record N → Except ApiError (Record N)
  computed : Record N → Record N
  displayNumber : Option String
  computed_stored : ∀ doc, ∀ kv ∈ computed doc, ∃ f ∈ info.schemaFields, f.isStored ∧ f.name = kv.1

section
variable {N : Type} [JsNumber N] {info : CollectionInfo N}

/-- The caller's fields after the policies of the collection. -/
def createFields (collectionSlug : String) (c : CreateCall N info) : Except ApiError (Record N) := do
  assertGenericWrite collectionSlug info .create
  let body ← bodyFields c.body
  let data ← bindActorFields collectionSlug info c.auth (body.erase "id") .create
  let data := stripFrozenFields info data
  assertWritableFields collectionSlug info c.auth c.restrictions data
  .ok (applyInverseFormulas c.ruleEnv info.schemaFields [] data)

/-- The columns that `createItem` takes from the document, and the rest. -/
def createColumns (c : CreateCall N info) (data : Record N) :
    Except ApiError (Record N × Record N) := do
  let document ← c.document data
  let (cleanBody, _) := extractChildData document info.schemaFields
  let (columns, rest) ← splitRowData c.platform cleanBody info.schemaFields
  .ok (encryptColumns c.platform (columns.assign (c.computed document)) info.schemaFields, rest)

/-- `insertData`. -/
def insertData (c : CreateCall N info) (id : String) (columns rest : Record N) (now : IsoTime) :
    Record N :=
  let data := Record.assign (Record.assign [("id", .str id)] columns)
    [("_meta", .str ((JsVal.obj rest).toJson.getD "")), ("created_at", .str now.text),
     ("updated_at", .str now.text)]
  let data := if info.systemFieldOptions.docStatus then data.set "doc_status" (.str "draft") else data
  let data := match c.displayNumber with
    | some number => if number = "" then data else data.set "display_number" (.str number)
    | none => data
  let user := (c.auth.map (·.get "user_id")).getD .undefined
  let data := if user.truthy && info.systemFieldOptions.owner then data.set "_owner" user else data
  if user.truthy && info.systemFieldOptions.createdBy then data.set "created_by" user else data

/-- The row of an id after a `createItem` with it: a row that is there is answered as it is. `blank`
is the row of an INSERT that names no column. -/
def createItem (collectionSlug id : String) (T : Storage N) (blank : Record N)
    (c : CreateCall N info) (now : IsoTime) (row : Option (Record N)) :
    Except ApiError (Record N) := do
  let data ← createFields collectionSlug c
  match row with
  | some row =>
    if (row.get "deleted_at").truthy then
      .error (.validation ("Item with id \"" ++ id
        ++ "\" exists in trash — restore it or use a new id") none)
    else .ok row
  | none =>
    let (columns, rest) ← createColumns c data
    updateRow T (insertData c id columns rest now) blank

/-- The answer of `updateItem`, and the row after it. -/
def updateItem (collectionSlug id : String) (T : Storage N) (c : UpdateCall N info)
    (now : IsoTime) (row : Option (Record N)) :
    Except ApiError (Record N) × Option (Record N) :=
  match assertRequest collectionSlug c, row with
  | .error e, _ => (.error e, row)
  | .ok (), none => (.error (.notFound "Item" id), none)
  | .ok (), some existing =>
    match checkUpdate collectionSlug c existing row with
    | .error e => (.error e, row)
    | .ok p =>
      match updateRow T (updateData c p now) existing with
      | .error e => (.error e, row)
      | .ok written =>
        let U : Updates Unit N info := ⟨collectionSlug, id, T, fun _ => c⟩
        match U.recomputedRow () existing p (some written) with
        | .error e => (.error e, some written)
        | .ok none => (.ok written, some written)
        | .ok (some row') => (.ok row', some row')

/-! ## The document state -/

/-- A table gives no text for a document state but for the text itself. -/
def Storage.KeepsStatus (T : Storage N) (status : String) : Prop :=
  ∀ v, T.store "doc_status" v = .str status → v = .str status

/-- A generic request may make the document approved: the transition from its state is a valid one,
and the caller is an admin or may approve. -/
structure MayApproveDirectly (c : UpdateCall N info) (row : Record N) : Prop where
  transition : isValidTransition N (docStatus row) "approved" info.writes.confirmable = .ok true
  canApprove : c.auth.any (!·.isAdmin) = true → c.canBusiness "approve" = true

/-- A write of a checked request that leaves an approved document. -/
theorem mayApproveDirectly_of_write {slug : String} {c : UpdateCall N info} {T : Storage N}
    (hT : T.KeepsStatus "approved") {existing row : Record N} {p : Prepared N} {now : IsoTime}
    (hc : CheckedAgainst slug c existing p)
    (hup : updateRow T (updateData c p now) existing = .ok row)
    (happroved : row.get "doc_status" = .str "approved") :
    existing.get "doc_status" = .str "approved" ∨ MayApproveDirectly c existing := by
  have hdata : (updateData c p now).get? "doc_status" =
      if p.newStatus.truthy then some p.newStatus else none := updateData_docStatus hc.columns
  by_cases htruthy : p.newStatus.truthy = true
  · rw [if_pos htruthy] at hdata
    have hstate : p.newStatus = .str "approved" :=
      hT _ ((get_updateRow_of_some hup hdata).symm.trans happroved)
    have hallowed := docStatusAllowed_of_write hc rfl (fun _ => ⟨_, hstate⟩) hup
    obtain hsame | ⟨state, hset, -, htrans, -, happrove⟩ := hallowed
    · exact .inl (hsame.symm.trans happroved)
    · rw [happroved] at hset
      cases hset
      exact .inr ⟨htrans, fun ha => happrove ha rfl⟩
  · rw [if_neg htruthy] at hdata
    exact .inl ((get_updateRow_of_none hup hdata).symm.trans happroved)

omit [JsNumber N] in
/-- The stored formulas that follow a write leave the document state. -/
theorem docStatus_recomputedRow {ι : Type} {U : Updates ι N info} {i : ι}
    {existing row row' : Record N} {p : Prepared N}
    (h : U.recomputedRow i existing p (some row) = .ok (some row')) :
    row'.get "doc_status" = row.get "doc_status" := by
  obtain ⟨before, hbefore, hup⟩ := Updates.recomputedRow_eq_some h
  cases hbefore
  exact get_updateRow_of_none hup
    (get?_eq_none_of_stored ((U.calls i).recomputed_stored _) (by decide))

/-- An `updateItem` that leaves an approved document. -/
theorem mayApproveDirectly_of_updateItem {slug id : String} {T : Storage N}
    (hT : T.KeepsStatus "approved") {c : UpdateCall N info} {now : IsoTime}
    {row : Option (Record N)} {row' : Record N}
    (h : (updateItem slug id T c now row).2 = some row')
    (happroved : row'.get "doc_status" = .str "approved") :
    ∃ existing, row = some existing ∧
      (existing.get "doc_status" = .str "approved" ∨ MayApproveDirectly c existing) := by
  unfold updateItem at h
  split at h
  · exact ⟨row', h, .inl happroved⟩
  · cases h
  · next existing _ =>
    refine ⟨existing, rfl, ?_⟩
    split at h
    · cases h
      exact .inl happroved
    · next p hp =>
      split at h
      · cases h
        exact .inl happroved
      · next written hup =>
        refine mayApproveDirectly_of_write hT (Updates.checkUpdate_prepared hp) hup ?_
        simp only at h
        split at h
        · cases h
          exact happroved
        · cases h
          exact happroved
        · next hre =>
          cases h
          rw [← docStatus_recomputedRow hre]
          exact happroved

omit [JsNumber N] in
/-- Setting another column. -/
theorem get?_ite_set {r : Record N} {k k' : String} (hk : k ≠ k') (v : JsVal N) (p : Prop)
    [Decidable p] : Record.get? (if p then r.set k v else r) k' = r.get? k' := by
  split
  · rw [Record.get?_set, if_neg hk]
  · rfl

omit [JsNumber N] in
/-- A display number is a column of its own. -/
theorem get?_displayNumber {displayNumber : Option String} {data : Record N} {key : String}
    (hkey : "display_number" ≠ key) :
    Record.get? (match displayNumber with
      | some number => if number = "" then data else data.set "display_number" (.str number)
      | none => data) key = data.get? key := by
  split
  · split
    · rfl
    · rw [Record.get?_set, if_neg hkey]
  · rfl

/-- A column that is none of the engine's in an INSERT. -/
theorem get?_insertData {c : CreateCall N info} {id : String} {columns rest : Record N}
    {now : IsoTime} {key : String} (hkey : key ∉ systemFields) :
    (insertData c id columns rest now).get? key = columns.get? key := by
  have hne {name : String} (hname : name ∈ systemFields) : name ≠ key := fun h => hkey (h ▸ hname)
  have hid : "id" ≠ key := hne (by decide)
  have hmeta : "_meta" ≠ key := hne (by decide)
  have hcreated : "created_at" ≠ key := hne (by decide)
  have hupdated : "updated_at" ≠ key := hne (by decide)
  have hstatus : "doc_status" ≠ key := hne (by decide)
  have hnumber : "display_number" ≠ key := hne (by decide)
  have howner : "_owner" ≠ key := hne (by decide)
  have hcreator : "created_by" ≠ key := hne (by decide)
  have hbase : Record.get? (Record.assign (Record.assign [("id", .str id)] columns)
      [("_meta", .str ((JsVal.obj rest).toJson.getD "")), ("created_at", .str now.text),
       ("updated_at", .str now.text)]) key = columns.get? key := by
    rw [Record.get?_assign, Record.get?_assign]
    simp only [Record.get?_cons, Record.get?_nil, hid, hmeta, hcreated, hupdated, if_false,
      Option.none_or, Option.or_none]
  unfold insertData
  simp only
  rw [get?_ite_set hcreator, get?_ite_set howner, get?_displayNumber hnumber,
    get?_ite_set hstatus, hbase]

/-- A new row is a draft where the collection has document states. -/
theorem insertData_docStatus {c : CreateCall N info} {id : String} {columns rest : Record N}
    {now : IsoTime} (h : columns.get? "doc_status" = none) :
    (insertData c id columns rest now).get? "doc_status" =
      if info.systemFieldOptions.docStatus then some (.str "draft") else none := by
  have hbase : Record.get? (Record.assign (Record.assign [("id", .str id)] columns)
      [("_meta", .str ((JsVal.obj rest).toJson.getD "")), ("created_at", .str now.text),
       ("updated_at", .str now.text)]) "doc_status" = none := by
    rw [Record.get?_assign, Record.get?_assign, h]
    rfl
  unfold insertData
  simp only
  rw [get?_ite_set (by decide), get?_ite_set (by decide), get?_displayNumber (by decide)]
  split
  · rw [Record.get?_set, if_pos rfl]
  · exact hbase

/-- A row that was created is a draft, or has the state of a blank row. -/
theorem docStatus_createItem {slug id : String} {T : Storage N} {blank row : Record N}
    {c : CreateCall N info} {now : IsoTime}
    (h : createItem slug id T blank c now none = .ok row) :
    row.get "doc_status" = .str "draft" ∨ row.get "doc_status" = blank.get "doc_status" := by
  unfold createItem at h
  obtain ⟨data, _, h⟩ := exists_of_bind_eq_ok h
  obtain ⟨⟨columns, rest⟩, hcolumns, hup⟩ := exists_of_bind_eq_ok h
  have hnone : columns.get? "doc_status" = none := by
    unfold createColumns at hcolumns
    obtain ⟨document, _, hcolumns⟩ := exists_of_bind_eq_ok hcolumns
    obtain ⟨⟨split, rest'⟩, hsplit, hcolumns⟩ := exists_of_bind_eq_ok hcolumns
    cases hcolumns
    refine encryptColumns_eq_none ?_
    rw [Record.get?_assign, get?_eq_none_of_stored (c.computed_stored _) (by decide),
      splitRowData_system info.fields_user hsplit (by decide), Option.none_or]
  have hdata : (insertData c id columns rest now).get? "doc_status" =
      if info.systemFieldOptions.docStatus then some (.str "draft") else none :=
    insertData_docStatus hnone
  by_cases hsystem : info.systemFieldOptions.docStatus = true
  · rw [if_pos hsystem] at hdata
    exact .inl ((get_updateRow_of_some hup hdata).trans (T.store_text _ (by decide) _))
  · rw [if_neg hsystem] at hdata
    exact .inr (get_updateRow_of_none hup hdata)

end

end HeadlessErp
