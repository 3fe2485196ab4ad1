import HeadlessErp.Entity.Create

/-!
# What a failed `createItem` leaves

The row of a request is inserted with its junction rows, and what follows may still throw: the child rows
are inserted one by one, each with values that are converted only then. A request leaves the tables as
they were when it throws just when nothing after the batch fails (`allOrNothing_iff`).
-/

namespace HeadlessErp

/-! ## The number of the rows -/

section
variable {N : Type} {slug : String}

/-- The table of a collection has no fewer rows. -/
def EntityTables.Grows (slug : String) (t t' : EntityTables N) : Prop :=
  (t.rows slug).length ≤ (t'.rows slug).length

instance : Std.Refl (EntityTables.Grows (N := N) slug) := ⟨fun _ => Nat.le_refl _⟩

instance : Trans (EntityTables.Grows (N := N) slug) (EntityTables.Grows slug)
    (EntityTables.Grows slug) := ⟨Nat.le_trans⟩

theorem EntityTables.length_append (t : EntityTables N) (slug' : String) (rows : List (Record N)) :
    ((t.append slug' rows).rows slug).length =
      (t.rows slug).length + if slug' = slug then rows.length else 0 := by
  unfold EntityTables.append Tables.modify
  by_cases h : slug' = slug
  · subst h
    simp
  · simp [h, Function.update_of_ne (Ne.symm h)]

theorem EntityTables.length_updateById (t : EntityTables N) (slug' id : String) (data : Record N) :
    ((t.updateById slug' id data).rows slug).length = (t.rows slug).length := by
  unfold EntityTables.updateById Tables.modify updateWhere
  by_cases h : slug' = slug
  · subst h
    simp
  · simp [Function.update_of_ne (Ne.symm h)]

/-- Inserting keeps the rows. -/
theorem EntityTables.leads_append (slug' : String) (rows : List (Record N)) :
    StateExcept.Leads (EntityTables.Grows slug)
      (.modify (·.append slug' rows) : StateExcept ApiError (EntityTables N) Unit) := by
  intro t
  show (t.rows slug).length ≤ ((t.append slug' rows).rows slug).length
  rw [EntityTables.length_append]
  omega

/-- Updating keeps the rows. -/
theorem EntityTables.leads_updateById (slug' id : String) (data : Record N) :
    StateExcept.Leads (EntityTables.Grows slug)
      (.modify (·.updateById slug' id data) : StateExcept ApiError (EntityTables N) Unit) := by
  intro t
  show (t.rows slug).length ≤ ((t.updateById slug' id data).rows slug).length
  exact Nat.le_of_eq (EntityTables.length_updateById ..).symm

variable {info : CollectionInfo N} (q : CreateRequest N info)

theorem CreateRequest.leads_step (site : CreateSite) :
    StateExcept.Leads (EntityTables.Grows slug) (q.step site) := .ofExcept _

theorem leads_updateParents (updates : List (String × String × Record N)) (k : Nat) :
    StateExcept.Leads (EntityTables.Grows slug) (updateParents q k updates) := by
  induction updates generalizing k with
  | nil => exact .pure ()
  | cons update updates ih =>
    obtain ⟨slug', id, data⟩ := update
    exact (q.leads_step _).bind fun _ =>
      (EntityTables.leads_updateById slug' id data).bind fun _ => ih (k + 1)

variable [JsNumber N]

theorem leads_createRows (child : EntitySchema N) (parentId fieldName : String) (now : IsoTime)
    (items : List (JsVal N)) (k : Nat) : StateExcept.Leads (EntityTables.Grows slug)
      (createRows q child parentId fieldName now k items) := by
  induction items generalizing k with
  | nil => exact .pure ()
  | cons item items ih =>
    exact (StateExcept.Leads.ofExcept _).bind fun _ =>
      (EntityTables.leads_append child.slug _).bind fun _ => ih (k + 1)

theorem leads_createFieldRows {c : EntitySchema N} (all : List (EntitySchema N))
    (q : CreateRequest N c.info) (parentId : String) (now : IsoTime) (fieldName : String)
    (items : List (JsVal N)) : StateExcept.Leads (EntityTables.Grows slug)
      (createFieldRows all c q parentId now fieldName items) := by
  unfold createFieldRows
  split
  · exact .pure ()
  · exact (q.leads_step _).bind fun _ => leads_createRows q _ _ _ _ _ _

theorem leads_createChildData {c : EntitySchema N} (all : List (EntitySchema N))
    (q : CreateRequest N c.info) (parentId : String) (now : IsoTime)
    (childData : List (String × List (JsVal N))) : StateExcept.Leads (EntityTables.Grows slug)
      (createChildData all c q parentId now childData) := by
  induction childData with
  | nil => exact .pure ()
  | cons entry childData ih =>
    exact (leads_createFieldRows all q parentId now entry.1 entry.2).bind fun _ => ih

omit [JsNumber N] in
theorem leads_updateFormulas {c : EntitySchema N} (q : CreateRequest N c.info) (item : NewItem N) :
    StateExcept.Leads (EntityTables.Grows slug) (updateFormulas c q item) := by
  unfold updateFormulas
  split
  · exact .pure _
  · exact (q.leads_step _).bind fun _ => (EntityTables.leads_updateById _ _ _).bind fun _ => .pure _

theorem leads_finishChildren {c : EntitySchema N} (all : List (EntitySchema N))
    (q : CreateRequest N c.info) (item : NewItem N) (now : IsoTime) :
    StateExcept.Leads (EntityTables.Grows slug) (finishChildren all c q item now) := by
  unfold finishChildren
  split
  · exact .pure _
  · exact (q.leads_step _).bind fun _ => (leads_createChildData all q _ _ _).bind fun _ =>
      (q.leads_step _).bind fun _ => leads_updateFormulas q item

omit [JsNumber N] in
theorem CreateRequest.leads_fireWebhook :
    StateExcept.Leads (EntityTables.Grows slug) q.fireWebhook := by
  unfold fireWebhook
  split
  · exact q.leads_step _
  · exact .pure _

/-- What follows the batch removes no row. -/
theorem leads_finishItem {c : EntitySchema N} (all : List (EntitySchema N))
    (q : CreateRequest N c.info) (item : NewItem N) (row : Record N) (now : IsoTime) :
    StateExcept.Leads (EntityTables.Grows slug) (finishItem all c q item row now) :=
  (leads_finishChildren all q item now).bind fun _ => q.leads_fireWebhook.bind fun _ =>
    (q.leads_step _).bind fun _ => (leads_updateParents q _ _).bind fun _ =>
      (q.leads_step _).bind fun _ => .pure _

end

/-! ## When nothing fails after the batch -/

section
variable {N : Type} [JsNumber N]

/-- A property of an item has a value for the column of its field. -/
def Converts (fields : List (FieldDefinition N)) (kv : String × JsVal N) : Prop :=
  systemFieldNames.contains kv.1 = false → ∀ fieldType, schemaType fields kv.1 = some fieldType →
    [FieldType.o2m, .m2m, .table, .formula].contains fieldType = false →
      ∃ v, coerceValue kv.2 fieldType = .ok v

/-- An item of a child table is no object, or it converts and its table takes it. -/
def ChildAccepted {info : CollectionInfo N} (q : CreateRequest N info) (child : EntitySchema N)
    (parentId fieldName : String) (now : IsoTime) (k : Nat) (item : JsVal N) : Prop :=
  ∀ entries, objectEntries item = some entries →
    (∀ kv ∈ entries, Converts child.info.schemaFields kv) ∧
      q.failure (.childInsert fieldName k) = none ∧
      ∀ columns, coerceChildRow child.info.schemaFields entries = .ok columns →
        ∃ row, q.insert child.slug
          (childInsertData (q.childId fieldName k) parentId columns now) = .ok row

/-- The child rows of a field are accepted, where the field has a collection. -/
def FieldAccepted (all : List (EntitySchema N)) (c : EntitySchema N) (q : CreateRequest N c.info)
    (parentId : String) (now : IsoTime) (fieldName : String) (items : List (JsVal N)) : Prop :=
  ∀ child, childTarget all c fieldName = some child → q.failure (.childFields fieldName) = none ∧
    ∀ x ∈ items.zipIdx, ChildAccepted q child parentId fieldName now x.2 x.1

/-- The child rows are accepted, and the UPDATE of the stored formulas over them. -/
structure ChildrenAccepted (all : List (EntitySchema N)) (c : EntitySchema N)
    (q : CreateRequest N c.info) (item : NewItem N) (now : IsoTime) : Prop where
  childMap : q.failure .childMap = none
  rows : ∀ entry ∈ item.childData, FieldAccepted all c q item.id now entry.1 entry.2
  recompute : q.failure .recompute = none
  formulas : q.recomputed item.document ≠ [] → q.failure .formulas = none

/-- Nothing that a request does after the batch fails. -/
structure Finishes (all : List (EntitySchema N)) (c : EntitySchema N) (q : CreateRequest N c.info)
    (item : NewItem N) (now : IsoTime) : Prop where
  children : item.childData ≠ [] → ChildrenAccepted all c q item now
  webhook : q.execCtx = true → q.failure .webhook = none
  parents : q.failure .parents = none
  parent : ∀ k < q.parentUpdates.length, q.failure (.parent k) = none
  redact : q.failure .redact = none

/-- A property of an item is coerced just when it has a value for its column. -/
theorem coerceChildEntry_ok_iff {fields : List (FieldDefinition N)} {acc : Record N × Record N}
    {kv : String × JsVal N} :
    (∃ acc', coerceChildEntry fields acc kv = .ok acc') ↔ Converts fields kv := by
  obtain ⟨key, value⟩ := kv
  obtain ⟨columns, rest⟩ := acc
  unfold coerceChildEntry
  simp only
  split
  · next hsystem => exact ⟨fun _ h => (nomatch hsystem.symm.trans h), fun _ => ⟨_, rfl⟩⟩
  · next hsystem =>
    split
    · next fieldType hty =>
      split
      · next hvirtual =>
        refine ⟨fun _ _ fieldType' hty' h => ?_, fun _ => ⟨_, rfl⟩⟩
        cases hty.symm.trans hty'
        cases hvirtual.symm.trans h
      · next hvirtual =>
        constructor
        · rintro ⟨acc', h⟩ - fieldType' hty' -
          cases hty.symm.trans hty'
          obtain ⟨v, hv, -⟩ := exists_of_bind_eq_ok h
          exact ⟨v, hv⟩
        · intro h
          obtain ⟨v, hv⟩ := h (Bool.eq_false_iff.2 hsystem) fieldType hty
            (Bool.eq_false_iff.2 hvirtual)
          rw [hv]
          exact ⟨_, rfl⟩
    · next hty =>
      refine ⟨fun _ _ fieldType hty' => (nomatch hty.symm.trans hty'), fun _ => ?_⟩
      split <;> exact ⟨_, rfl⟩

/-- An item has columns just when all its properties are coerced. -/
theorem coerceChildRow_ok_iff {fields : List (FieldDefinition N)} {entries : Record N} :
    (∃ columns, coerceChildRow fields entries = .ok columns) ↔ ∀ kv ∈ entries, Converts fields kv := by
  have hloop (acc : Record N × Record N) :
      (∃ acc', entries.foldlM (coerceChildEntry fields) acc = .ok acc') ↔
        ∀ kv ∈ entries, Converts fields kv := by
    induction entries generalizing acc with
    | nil => exact ⟨fun _ _ h => (nomatch h), fun _ => ⟨acc, rfl⟩⟩
    | cons kv entries ih =>
      rw [List.foldlM_cons, List.forall_mem_cons]
      constructor
      · rintro ⟨acc', h⟩
        obtain ⟨acc₁, h₁, h⟩ := exists_of_bind_eq_ok h
        exact ⟨coerceChildEntry_ok_iff.1 ⟨acc₁, h₁⟩, (ih acc₁).1 ⟨acc', h⟩⟩
      · rintro ⟨hkv, hentries⟩
        have hone : ∃ acc₁, coerceChildEntry fields acc kv = .ok acc₁ :=
          coerceChildEntry_ok_iff.2 hkv
        obtain ⟨acc₁, h₁⟩ := hone
        rw [h₁]
        exact (ih acc₁).2 hentries
  refine Iff.trans ⟨?_, ?_⟩ (hloop ([], []))
  · rintro ⟨columns, h⟩
    obtain ⟨acc', hacc', -⟩ := exists_of_bind_eq_ok h
    exact ⟨acc', hacc'⟩
  · rintro ⟨acc', h⟩
    unfold coerceChildRow
    rw [h]
    exact ⟨_, rfl⟩

omit [JsNumber N] in
theorem CreateRequest.await_ok_iff {info : CollectionInfo N} {q : CreateRequest N info}
    {site : CreateSite} : (∃ u, q.await site = .ok u) ↔ q.failure site = none := by
  unfold CreateRequest.await
  cases q.failure site with
  | none => exact ⟨fun _ => rfl, fun _ => ⟨(), rfl⟩⟩
  | some e => exact ⟨fun ⟨_, h⟩ => (nomatch h), nofun⟩

omit [JsNumber N] in
theorem CreateRequest.await_eq_ok {info : CollectionInfo N} {q : CreateRequest N info}
    {site : CreateSite} (h : q.failure site = none) : q.await site = .ok () := by
  unfold CreateRequest.await
  rw [h]

theorem childRowOf_ok_iff {info : CollectionInfo N} {q : CreateRequest N info}
    {child : EntitySchema N} {parentId fieldName : String} {now : IsoTime} {k : Nat}
    {item : JsVal N} :
    (∃ row, childRowOf q child parentId fieldName now k item = .ok row) ↔
      ChildAccepted q child parentId fieldName now k item := by
  unfold childRowOf ChildAccepted
  split
  · next hnone => exact ⟨fun _ _ h => (nomatch hnone.symm.trans h), fun _ => ⟨none, rfl⟩⟩
  · next entries hentries =>
    constructor
    · rintro ⟨row, h⟩ entries' hentries'
      cases hentries.symm.trans hentries'
      obtain ⟨columns, hcolumns, h⟩ := exists_of_bind_eq_ok h
      refine ⟨coerceChildRow_ok_iff.1 ⟨columns, hcolumns⟩, ?_⟩
      split at h
      · next row hrow =>
        obtain ⟨_, hawait, hinsert⟩ := exists_of_bind_eq_ok hrow
        refine ⟨CreateRequest.await_ok_iff.1 ⟨_, hawait⟩, fun columns' hcolumns' => ?_⟩
        cases hcolumns.symm.trans hcolumns'
        exact ⟨row, hinsert⟩
      · cases h
      · cases h
    · intro h
      obtain ⟨hconverts, hawait, hinsert⟩ := h entries hentries
      obtain ⟨columns, hcolumns⟩ := coerceChildRow_ok_iff.2 hconverts
      obtain ⟨row, hrow⟩ := hinsert columns hcolumns
      refine ⟨some row, ?_⟩
      simp only [hcolumns, CreateRequest.await_eq_ok hawait, hrow, bind, Except.bind]

/-! ### The computations -/

omit [JsNumber N] in
theorem CreateRequest.returnsIff_step {info : CollectionInfo N} (q : CreateRequest N info)
    (site : CreateSite) : (q.step site).ReturnsIff (q.failure site = none) :=
  (StateExcept.ReturnsIff.ofExcept _).congr CreateRequest.await_ok_iff

theorem returnsIff_createRows {info : CollectionInfo N} (q : CreateRequest N info)
    (child : EntitySchema N) (parentId fieldName : String) (now : IsoTime)
    (items : List (JsVal N)) (k : Nat) :
    (createRows q child parentId fieldName now k items).ReturnsIff
      (∀ x ∈ items.zipIdx k, ChildAccepted q child parentId fieldName now x.2 x.1) := by
  induction items generalizing k with
  | nil => exact (StateExcept.ReturnsIff.pure ()).congr ⟨fun _ _ h => (nomatch h), fun _ => trivial⟩
  | cons item items ih =>
    have h : (createRows q child parentId fieldName now k (item :: items)).ReturnsIff _ :=
      (StateExcept.ReturnsIff.ofExcept _).bind fun row =>
        (StateExcept.ReturnsIff.modify _).bind fun _ => ih (k + 1)
    refine h.congr ?_
    rw [childRowOf_ok_iff, true_and, List.zipIdx_cons, List.forall_mem_cons]

theorem returnsIff_createFieldRows (all : List (EntitySchema N)) (c : EntitySchema N)
    (q : CreateRequest N c.info) (parentId : String) (now : IsoTime) (fieldName : String)
    (items : List (JsVal N)) :
    (createFieldRows all c q parentId now fieldName items).ReturnsIff
      (FieldAccepted all c q parentId now fieldName items) := by
  unfold createFieldRows FieldAccepted
  cases childTarget all c fieldName with
  | none => exact (StateExcept.ReturnsIff.pure ()).congr ⟨fun _ _ h => (nomatch h), fun _ => trivial⟩
  | some child =>
    refine ((q.returnsIff_step _).bind fun _ => returnsIff_createRows q child _ _ _ items 0).congr ?_
    simp only [Option.some.injEq, forall_eq']

theorem returnsIff_createChildData (all : List (EntitySchema N)) (c : EntitySchema N)
    (q : CreateRequest N c.info) (parentId : String) (now : IsoTime)
    (childData : List (String × List (JsVal N))) :
    (createChildData all c q parentId now childData).ReturnsIff
      (∀ entry ∈ childData, FieldAccepted all c q parentId now entry.1 entry.2) := by
  induction childData with
  | nil => exact (StateExcept.ReturnsIff.pure ()).congr ⟨fun _ _ h => (nomatch h), fun _ => trivial⟩
  | cons entry childData ih =>
    have h : (createChildData all c q parentId now (entry :: childData)).ReturnsIff _ :=
      (returnsIff_createFieldRows all c q parentId now entry.1 entry.2).bind fun _ => ih
    refine h.congr ?_
    rw [List.forall_mem_cons]

omit [JsNumber N] in
theorem returnsIff_updateParents {info : CollectionInfo N} (q : CreateRequest N info)
    (updates : List (String × String × Record N)) (k : Nat) :
    (updateParents q k updates).ReturnsIff
      (∀ j < updates.length, q.failure (.parent (k + j)) = none) := by
  induction updates generalizing k with
  | nil => exact (StateExcept.ReturnsIff.pure ()).congr ⟨fun _ _ h => (nomatch h), fun _ => trivial⟩
  | cons update updates ih =>
    have h : (updateParents q k (update :: updates)).ReturnsIff _ :=
      (q.returnsIff_step _).bind fun _ => (StateExcept.ReturnsIff.modify _).bind fun _ => ih (k + 1)
    have hshift (j : Nat) : k + 1 + j = k + (j + 1) := by omega
    refine h.congr ⟨?_, fun h => ⟨h 0 (Nat.succ_pos _), trivial, fun j hj => ?_⟩⟩
    · rintro ⟨h₀, -, hrest⟩ j hj
      cases j with
      | zero => exact h₀
      | succ j =>
        rw [← hshift]
        exact hrest j (Nat.lt_of_succ_lt_succ hj)
    · rw [hshift]
      exact h (j + 1) (Nat.succ_lt_succ hj)

omit [JsNumber N] in
theorem returnsIff_updateFormulas (c : EntitySchema N) (q : CreateRequest N c.info)
    (item : NewItem N) : (updateFormulas c q item).ReturnsIff
      (q.recomputed item.document ≠ [] → q.failure .formulas = none) := by
  unfold updateFormulas
  split
  · next hnil =>
    exact (StateExcept.ReturnsIff.pure _).congr
      ⟨fun _ hne => absurd (List.isEmpty_iff.1 hnil) hne, fun _ => trivial⟩
  · next hne =>
    refine ((q.returnsIff_step _).bind fun _ => (StateExcept.ReturnsIff.modify _).bind fun _ =>
      .pure _).congr ⟨fun h _ => h.1, fun h => ⟨h fun hnil => hne (List.isEmpty_iff.2 hnil), trivial,
        trivial⟩⟩

theorem returnsIff_finishChildren (all : List (EntitySchema N)) (c : EntitySchema N)
    (q : CreateRequest N c.info) (item : NewItem N) (now : IsoTime) :
    (finishChildren all c q item now).ReturnsIff
      (item.childData ≠ [] → ChildrenAccepted all c q item now) := by
  unfold finishChildren
  split
  · next hnil =>
    exact (StateExcept.ReturnsIff.pure _).congr
      ⟨fun _ hne => absurd (List.isEmpty_iff.1 hnil) hne, fun _ => trivial⟩
  · next hne =>
    refine ((q.returnsIff_step _).bind fun _ => (returnsIff_createChildData all c q _ _ _).bind
      fun _ => (q.returnsIff_step _).bind fun _ => returnsIff_updateFormulas c q item).congr ⟨?_, ?_⟩
    · rintro ⟨hmap, hrows, hre, hformulas⟩ -
      exact ⟨hmap, hrows, hre, hformulas⟩
    · intro h
      obtain ⟨hmap, hrows, hre, hformulas⟩ := h fun hnil => hne (List.isEmpty_iff.2 hnil)
      exact ⟨hmap, hrows, hre, hformulas⟩

omit [JsNumber N] in
theorem CreateRequest.returnsIff_fireWebhook {info : CollectionInfo N} (q : CreateRequest N info) :
    q.fireWebhook.ReturnsIff (q.execCtx = true → q.failure .webhook = none) := by
  unfold fireWebhook
  split
  · next h => exact (q.returnsIff_step _).congr ⟨fun hf _ => hf, fun hf => hf h⟩
  · next h => exact (StateExcept.ReturnsIff.pure ()).congr ⟨fun _ h' => absurd h' h, fun _ => trivial⟩

/-- What follows the batch returns just when nothing of it fails. -/
theorem returnsIff_finishItem (all : List (EntitySchema N)) (c : EntitySchema N)
    (q : CreateRequest N c.info) (item : NewItem N) (row : Record N) (now : IsoTime) :
    (finishItem all c q item row now).ReturnsIff (Finishes all c q item now) := by
  refine ((returnsIff_finishChildren all c q item now).bind fun _ => q.returnsIff_fireWebhook.bind
    fun _ => (q.returnsIff_step _).bind fun _ => (returnsIff_updateParents q _ 0).bind fun _ =>
      (q.returnsIff_step _).bind fun _ => .pure _).congr ⟨?_, ?_⟩
  · rintro ⟨hchildren, hwebhook, hparents, hparent, hredact, -⟩
    refine ⟨hchildren, hwebhook, hparents, fun k hk => ?_, hredact⟩
    rw [← Nat.zero_add k]
    exact hparent k hk
  · rintro ⟨hchildren, hwebhook, hparents, hparent, hredact⟩
    refine ⟨hchildren, hwebhook, hparents, fun k hk => ?_, hredact, trivial⟩
    rw [Nat.zero_add]
    exact hparent k hk

/-! ## The property -/

/-- A call of `createItem` is all or nothing: when it throws, the tables are as before it, and a call with
the same body does after it what it does without it. -/
structure AllOrNothing (all : List (EntitySchema N)) (c : EntitySchema N) (q : CreateRequest N c.info)
    (freshId : String) (now : IsoTime) (t : EntityTables N) : Prop where
  unchanged : ∀ e t', q.createItem all c freshId now t = (.error e, t') → t' = t
  retried : ∀ e t', q.createItem all c freshId now t = (.error e, t') →
    ∀ q' : CreateRequest N c.info, q'.body = q.body → ∀ freshId' now',
      q'.createItem all c freshId' now' t' = q'.createItem all c freshId' now' t

/-- The batch adds a row to the table of the collection. -/
theorem length_insertBatch {c : EntitySchema N} {q : CreateRequest N c.info} {item : NewItem N}
    {now : IsoTime} {t t₁ : EntityTables N} {row : Record N}
    (h : insertBatch c q item now t = .ok (row, t₁)) :
    (t₁.rows c.slug).length = (t.rows c.slug).length + 1 := by
  obtain ⟨row', -, h⟩ := exists_of_bind_eq_ok h
  cases h
  show ((t.append c.slug [row]).rows c.slug).length = _
  rw [EntityTables.length_append, if_pos rfl, List.length_singleton]

/-- A call is all or nothing just when nothing fails after its row has been inserted. -/
theorem allOrNothing_iff (all : List (EntitySchema N)) (c : EntitySchema N)
    (q : CreateRequest N c.info) (freshId : String) (now : IsoTime) (t : EntityTables N) :
    AllOrNothing all c q freshId now t ↔ ∀ item row t₁,
      admitItem c q freshId now t = .ok (.insert item) → insertBatch c q item now t = .ok (row, t₁) →
        Finishes all c q item now := by
  constructor
  · intro h item row t₁ hchecked hbatch
    rw [← returnsIff_finishItem all c q item row now t₁]
    have hrun : q.createItem all c freshId now t = finishItem all c q item row now t₁ := by
      unfold CreateRequest.createItem
      rw [hchecked]
      simp only
      rw [hbatch]
    have hgrows : EntityTables.Grows c.slug t₁ (finishItem all c q item row now t₁).2 :=
      leads_finishItem all q item row now t₁
    rw [← hrun] at hgrows ⊢
    cases hfinish : q.createItem all c freshId now t with
    | mk result t' =>
      cases result with
      | ok answer => exact ⟨answer, rfl⟩
      | error e =>
        -- the row is still there
        have hlength := length_insertBatch hbatch
        rw [hfinish, h.unchanged e t' hfinish] at hgrows
        have hgrows : (t₁.rows c.slug).length ≤ (t.rows c.slug).length := hgrows
        omega
  · intro h
    have hunchanged : ∀ e t', q.createItem all c freshId now t = (.error e, t') → t' = t := by
      intro e t' hrun
      unfold CreateRequest.createItem at hrun
      split at hrun
      · cases hrun
        rfl
      · cases hrun
      · next item hchecked =>
        split at hrun
        · cases hrun
          rfl
        · next row t₁ hbatch =>
          obtain ⟨answer, hanswer⟩ := (returnsIff_finishItem all c q item row now t₁).2
            (h item row t₁ hchecked hbatch)
          rw [hrun] at hanswer
          cases hanswer
    exact ⟨hunchanged, fun e t' hrun _ _ _ _ => by rw [hunchanged e t' hrun]⟩

end

/-! ## An invoice without its items -/

/-- Invoices have items. -/
def invoiceSchema : EntitySchema (Option Int) where
  slug := "invoices"
  name := "Invoices"
  info := {
    tableName := "cms_invoices"
    schemaFields := [{ name := "items", type := .table, relatedCollection := some "invoice_items" }]
    fields_user := by decide }

/-- An item points at its product. -/
def invoiceItemSchema : EntitySchema (Option Int) where
  slug := "invoice_items"
  name := "Invoice items"
  info := {
    tableName := "cms_invoice_items"
    schemaFields := [{ name := "product", type := .m2o, relatedCollection := some "products" }]
    fields_user := by decide }

def invoiceId : String := "3f2b8a10-5c6d-4e7f-8a9b-0c1d2e3f4a5b"

/-- An invoice with one item. No call of the database fails. -/
def invoiceRequest (product : String) : CreateRequest (Option Int) invoiceSchema.info where
  auth := none
  body := .obj [("id", .str invoiceId), ("items", .arr [.obj [("product", .str product)]])]
  restrictions := none
  platform := ⟨invoiceId, id, fun _ v => v⟩
  ruleEnv := { now := "", today := "", uuid := "", timestamp := JsNumber.nan,
               globals := fun _ => none, registry := fun _ => none }
  document := .ok
  computed _ := []
  displayNumber := none
  computed_stored := by
    intro doc kv hkv
    cases hkv
  execCtx := false
  isSingleton := false
  insert _ data := .ok data
  childId _ _ := "child"
  junctionId _ _ := "junction"
  failure _ := none
  recomputed _ := []
  parentUpdates := []
  visible := id

/-- No tables have rows. -/
def noRows : EntityTables (Option Int) := ⟨fun _ => [], fun _ _ => []⟩

/-- The call with the product. -/
def createInvoice (product : String) :
    StateExcept ApiError (EntityTables (Option Int)) (Record (Option Int)) :=
  (invoiceRequest product).createItem [invoiceSchema, invoiceItemSchema] invoiceSchema "fresh"
    ⟨"t0", by decide⟩

/-- What a call with a product that is no id leaves. -/
def brokenInvoice : EntityTables (Option Int) := (createInvoice "SKU-7" noRows).2

/-- The call throws after it has inserted the invoice, and a second one with the same body answers with
that invoice, which has no items. -/
theorem invoice_not_allOrNothing :
    (¬ ∀ (all : List (EntitySchema (Option Int))) (c : EntitySchema (Option Int))
        (q : CreateRequest (Option Int) c.info) (freshId : String) (now : IsoTime)
        (t : EntityTables (Option Int)), AllOrNothing all c q freshId now t) ∧
      (createInvoice "SKU-7" brokenInvoice).1.isOk = true ∧
      ((createInvoice "SKU-7" brokenInvoice).2.rows "invoice_items").length = 0 := by
  refine ⟨fun h => ?_, rfl, rfl⟩
  have hrun : createInvoice "SKU-7" noRows =
      (.error (.validation "Invalid m2o foreign key UUID: \"SKU-7\"" none), brokenInvoice) := rfl
  have hsame : brokenInvoice = noRows := (h _ _ _ _ _ _).unchanged _ _ hrun
  have hlength : (brokenInvoice.rows "invoices").length = 1 := rfl
  rw [hsame] at hlength
  cases hlength

end HeadlessErp
