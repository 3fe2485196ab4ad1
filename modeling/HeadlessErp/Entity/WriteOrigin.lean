import HeadlessErp.Entity.RuleMutations
import HeadlessErp.Entity.WriteGuard

/-!
# Where the written columns come from

A column that is written and that the payload has not chosen is the engine's (`origin_of_written`): a
system column, a stored formula, an actor that is bound to the caller, or a slug or uuid that is filled in.
-/

namespace HeadlessErp

section
variable {N : Type} {info : CollectionInfo N} [JsNumber N]

/-! ## Columns and their names -/

/-- A property adds at most its own column. -/
theorem has_splitEntry {P : Platform N} {acc acc' : Record N × Record N} {kv : String × JsVal N}
    (h : splitEntry P info.schemaFields acc kv = .ok acc') {key : String}
    (hkey : acc'.1.has key = true) :
    acc.1.has key = true ∨ kv.1 = key ∧ storesColumn info key = true := by
  by_cases hname : kv.1 = key
  · refine or_iff_not_imp_right.2 fun hstores => ?_
    obtain ⟨name, value⟩ := kv
    obtain rfl : name = key := hname
    simp only [true_and, storesColumn] at hstores
    simp only [splitEntry] at h
    split at h
    · cases h
      exact hkey
    · next hsystem =>
      have hsystem := Bool.eq_false_iff.2 hsystem
      split at h
      · next hty =>
        split at h
        · cases h
          exact hkey
        · next hvirtual =>
          refine absurd ?_ hstores
          rw [hsystem, hty]
          simp only [Bool.eq_false_iff.2 hvirtual, Bool.not_false, Bool.and_self]
      · next hty =>
        split at h
        · next hm2a =>
          refine absurd ?_ hstores
          rw [hsystem, hty]
          simpa using hm2a
        · cases h
          exact hkey
  · rw [Record.has_eq_isSome, get?_splitEntry_of_ne hname h] at hkey
    exact .inl ((Record.has_eq_isSome _ _).trans hkey)

/-- The columns of the properties of a payload. -/
theorem has_foldlM_splitEntry {P : Platform N} {clean : Record N} {acc acc' : Record N × Record N}
    (h : clean.foldlM (splitEntry P info.schemaFields) acc = .ok acc') {key : String}
    (hkey : acc'.1.has key = true) :
    acc.1.has key = true ∨ clean.has key = true ∧ storesColumn info key = true := by
  induction clean generalizing acc with
  | nil =>
    cases h
    exact .inl hkey
  | cons kv clean ih =>
    rw [List.foldlM_cons] at h
    obtain ⟨acc₁, h₁, h⟩ := exists_of_bind_eq_ok h
    unfold Record.has at ih ⊢
    rw [List.any_cons, Bool.or_eq_true, beq_iff_eq, or_and_right, ← or_assoc]
    exact (ih h).imp_left (has_splitEntry h₁)

/-- Only the column of a uuid or of a slug is filled in. -/
theorem uuid_or_slug_of_has_fillField {P : Platform N} {body columns : Record N} {f : FieldDefinition N}
    {key : String} (h : (fillField P body columns f).has key = true) :
    columns.has key = true ∨ f.name = key ∧ (f.type = .uuid ∨ f.type = .slug) := by
  by_cases hname : f.name = key
  · by_cases htype : f.type = .uuid ∨ f.type = .slug
    · exact .inr ⟨hname, htype⟩
    · obtain ⟨huuid, hslug⟩ := not_or.1 htype
      have hsame : fillField P body columns f = columns := by
        unfold fillField
        cases f.source <;> simp [huuid, hslug]
      exact .inl (hsame ▸ h)
  · rw [Record.has_eq_isSome, fillField_of_ne hname] at h
    exact .inl ((Record.has_eq_isSome _ _).trans h)

/-- The columns that are filled in are slugs and uuids. -/
theorem origin_of_foldl_fillField {P : Platform N} {body columns : Record N}
    {fields : List (FieldDefinition N)} {key : String}
    (h : (fields.foldl (fillField P body) columns).has key = true) :
    columns.has key = true ∨ ∃ f ∈ fields, f.name = key ∧ (f.type = .uuid ∨ f.type = .slug) := by
  induction fields generalizing columns with
  | nil => exact .inl h
  | cons f fields ih =>
    obtain h | ⟨g, hg, h⟩ := ih h
    · exact (uuid_or_slug_of_has_fillField h).imp_right fun h => ⟨f, List.mem_cons_self, h⟩
    · exact .inr ⟨g, List.mem_cons_of_mem _ hg, h⟩

namespace GenericWrite
variable {w : GenericWrite N info} {slug : String}

omit [JsNumber N] in
/-- What is laid over the columns of a payload: those of the engine, and the stored formulas. -/
theorem origin_of_laid {columns computed : Record N} {P : Platform N} {written : Record N}
    (hcomputed : ∀ kv ∈ computed, ∃ f ∈ info.schemaFields, f.isStored ∧ f.name = kv.1) {key : String}
    (hwritten : key ∉ systemFields → written.get? key =
      (encryptColumns P (columns.assign computed) info.schemaFields).get? key)
    (h : written.has key = true) : columns.has key = true ∨ key ∈ systemFields ∨
      ∃ f ∈ info.schemaFields, f.isStored ∧ f.name = key := by
  by_cases hsystem : key ∈ systemFields
  · exact .inr (.inl hsystem)
  · rw [Record.has_eq_isSome, hwritten hsystem, get?_encryptColumns, Option.isSome_map,
      ← Record.has_eq_isSome, Record.has_assign] at h
    refine h.imp_right fun h => .inr ?_
    obtain ⟨kv, hkv, rfl⟩ := List.mem_map.1 (Record.mem_keys_iff.2 h)
    exact hcomputed kv hkv

/-- Beside the columns of a payload those of the engine and the stored formulas are written. -/
theorem has_written {id : String} {now : IsoTime} {data clean columns rest : Record N}
    (h : w.written slug id now = .ok data) (hclean : w.cleanBody slug = .ok clean)
    (hsplit : splitRowData w.platform clean info.schemaFields = .ok (columns, rest)) {key : String}
    (hkey : data.has key = true) : columns.has key = true ∨ key ∈ systemFields ∨
      ∃ f ∈ info.schemaFields, f.isStored ∧ f.name = key := by
  obtain ⟨user, huser, hclean⟩ := exists_of_bind_eq_ok hclean
  obtain ⟨doc, hdoc, hclean⟩ := exists_of_bind_eq_ok hclean
  cases hclean
  cases w with
  | create c =>
    obtain ⟨user', huser', h⟩ := exists_of_bind_eq_ok h
    cases huser.symm.trans huser'
    obtain ⟨⟨columns', rest'⟩, hcolumns, h⟩ := exists_of_bind_eq_ok h
    cases h
    obtain ⟨doc', hdoc', hcolumns⟩ := exists_of_bind_eq_ok hcolumns
    cases hdoc.symm.trans hdoc'
    obtain ⟨⟨columns₁, rest₁⟩, hsplit', hcolumns⟩ := exists_of_bind_eq_ok hcolumns
    cases hsplit.symm.trans hsplit'
    cases hcolumns
    exact origin_of_laid (c.computed_stored _) get?_insertData hkey
  | update c existing =>
    obtain ⟨p, hp, h⟩ := exists_of_bind_eq_ok h
    cases h
    obtain ⟨user', columns', rest', huser', hdoc', hsplit', hcolumns⟩ := columns_of_prepareUpdate hp
    have huser : Prod.snd <$> callerFields slug c existing = .ok user := huser
    rw [huser'] at huser
    cases huser
    cases hdoc.symm.trans hdoc'
    cases hsplit.symm.trans hsplit'
    exact origin_of_laid (c.computed_stored _) (fun h => hcolumns ▸ get?_updateData h) hkey

/-- The columns of a payload: those of its properties, and the ones that are filled in. -/
theorem splitRowData_eq_ok {clean columns rest : Record N}
    (h : clean.foldlM (splitEntry w.platform info.schemaFields) ([], []) = .ok (columns, rest)) :
    ∃ filled, splitRowData w.platform clean info.schemaFields = .ok (filled, rest) ∧ ∀ key,
      filled.has key = true ↔
        key = "_meta" ∨ (info.schemaFields.foldl (fillField w.platform clean) columns).has key = true := by
  refine ⟨(info.schemaFields.foldl (fillField w.platform clean) columns).set "_meta"
    (.str ((JsVal.obj rest).toJson.getD "")), ?_, fun key => ?_⟩
  · unfold splitRowData
    rw [h]
    rfl
  · rw [Record.has_set, eq_comm]

/-- A written column that the payload has not chosen is the engine's: a system column, a stored formula,
an actor that is bound to the caller, or a slug or uuid that is filled in. -/
theorem origin_of_written {id : String} {now : IsoTime} {data : Record N}
    (h : w.written slug id now = .ok data) {chosen : List String}
    (hchosen : w.chosenColumns slug = .ok chosen) {key : String} (hkey : data.has key = true) :
    key ∈ chosen ∨ key ∈ systemFields ∨ w.bound key = true ∨
      ∃ f ∈ info.schemaFields, f.name = key ∧ (f.isStored ∨ f.type = .uuid ∨ f.type = .slug) := by
  obtain ⟨guarded, -, hchosen⟩ := exists_of_bind_eq_ok hchosen
  obtain ⟨clean, hclean, hchosen⟩ := exists_of_bind_eq_ok hchosen
  obtain ⟨⟨columns, rest⟩, hsplit, hchosen⟩ := exists_of_bind_eq_ok hchosen
  cases hchosen
  obtain ⟨filled, hfilled, hkeys⟩ := splitRowData_eq_ok hsplit
  obtain hkey | hkey | ⟨f, hf, hstored, hname⟩ := has_written h hclean hfilled hkey
  · obtain rfl | hkey := (hkeys key).1 hkey
    · exact .inr (.inl List.mem_cons_self)
    obtain hkey | ⟨f, hf, hname, hfilled⟩ := origin_of_foldl_fillField hkey
    · obtain hnil | ⟨hin, hstores⟩ := has_foldlM_splitEntry hsplit hkey
      · cases hnil
      · cases hbound : w.bound key with
        | true => exact .inr (.inr (.inl rfl))
        | false =>
          exact .inl (List.mem_append_left _ (mem_chosenKeys.2 ⟨hin, hstores, .inl hbound⟩))
    · exact .inr (.inr (.inr ⟨f, hf, hname, .inr hfilled⟩))
  · exact .inr (.inl hkey)
  · exact .inr (.inr (.inr ⟨f, hf, hname, .inl hstored⟩))

end GenericWrite

end

/-- The payload of the ticket has chosen its subject and the columns of its owner. -/
theorem origin_of_ownedTicket :
    "owner_id" ∈ ["subject", "owner_type", "owner_id"] ∨ "owner_id" ∈ systemFields ∨
      ownedTicket.bound "owner_id" = true ∨ ∃ f ∈ ownedTickets.schemaFields,
        f.name = "owner_id" ∧ (f.isStored ∨ f.type = .uuid ∨ f.type = .slug) := by
  have h : ∃ data, ownedTicket.written "tickets" "t1" ⟨"t0", by decide⟩ = .ok data ∧
      data.has "owner_id" = true := ⟨_, rfl, rfl⟩
  obtain ⟨data, hwritten, hkey⟩ := h
  exact GenericWrite.origin_of_written hwritten rfl hkey

end HeadlessErp
