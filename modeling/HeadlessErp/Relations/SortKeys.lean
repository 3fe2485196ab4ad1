import HeadlessErp.Query.Cursor
import HeadlessErp.Relations.Nested
import HeadlessErp.Storage.Encryption

/-!
# The sort keys in cursors

`listItems` takes its cursors from the items of the response: the rows as the projection, the
relations, the field filter of the role and the decryption have left them
(`apps/api/src/lib/services/collection-query.service.ts`). The database has sorted by the columns.
The two agree where the value of the column is null, or where no pass has dropped or replaced it
(`Kept`).
-/

namespace HeadlessErp

/-! ## The code -/

/-- A list request, without what its query selects: `parsed.limit`, whether it has a cursor, and the
direction it walks in. -/
structure ListRequest where
  selection : Option FieldSelection
  sorts : List SortClause
  limit : Nat
  hasCursor : Bool
  before : Bool
  o2mLimit : Nat
  traceFormulas : Bool

/-- `hasMore`: one more item was read than the page has. -/
def ListRequest.hasMore {α : Type} (r : ListRequest) (items : List α) : Bool :=
  decide (r.limit < items.length)

/-- The page that is cut from the items. -/
def ListRequest.page {α : Type} (r : ListRequest) (items : List α) : List α :=
  let page := if r.hasMore items then items.dropLast else items
  if r.before then page.reverse else page

/-- The item of `next_cursor` and the item of `prev_cursor`: the last and the first of the page. -/
def ListRequest.cursorItems {α : Type} (r : ListRequest) (items : List α) : Option α × Option α :=
  (if r.before || r.hasMore items then (r.page items).getLast? else none,
    if r.before && r.hasMore items || !r.before && r.hasCursor then (r.page items).head? else none)

/-- The items that cursors are taken from. -/
def ListRequest.boundary {α : Type} (r : ListRequest) (items : List α) : List α :=
  (r.cursorItems items).1.toList ++ (r.cursorItems items).2.toList

section
variable {N : Type} [JsNumber N]

/-- `needsDecrypt`. -/
def needsDecrypt (fields : List (FieldDefinition N)) : Option FieldSelection → Bool
  | none => fields.any (·.encrypted)
  | some node =>
    fields.any fun f => f.encrypted && (node.all || node.columns.contains f.name)

/-- The texts of an item's id that a cursor is taken for: `lastId` and `firstId`. -/
def hasIdText (item : Record N) : Bool := (item.get "id").toStr != ""

/-- The values by which the database has sorted a row. -/
def sortKeys (row : Record N) (sorts : List SortClause) : List (JsVal N) :=
  sorts.map fun s => (row.get s.field).orElse .null

/-- The values inside `next_cursor` and `prev_cursor`, each beside the row of the database. -/
def cursors (r : ListRequest) (rows items : List (Record N)) :
    List (Record N × List (JsVal N)) :=
  ((r.boundary (rows.zip items)).filter fun p => hasIdText p.2).map fun p =>
    (p.1, Cursor.sortValues p.2 r.sorts)

namespace ReadContext
variable (S : ReadContext N) (K : Cipher)

/-- The items of a page when the cursors are taken from them. -/
def cursorPage (c : EntitySchema N) (r : ListRequest) (rows : List (Record N)) :
    Except String (List (Record N)) := do
  let items ← S.resolveRelations c r.o2mLimit r.selection r.traceFormulas
    (rows.map (listRow c r.selection))
  let items := items.map fun it => fieldsJs (S.applyFieldFilter it).2
  .ok (if needsDecrypt c.info.schemaFields r.selection then
    items.map (FieldEncryption.decryptItem K c.info.schemaFields) else items)

/-! ## The condition -/

/-- A column's name among those of the statement; an empty list is a star. -/
def projects (c : EntitySchema N) (selection : Option FieldSelection) (k : String) : Bool :=
  let columns := projectColumns c.info.schemaFields c.info.systemFieldOptions selection
  columns.isEmpty || columns.contains k

/-- A relation to one row that a selection expands, under the name of its column. -/
def expandsField (c : EntitySchema N) (node : FieldSelection) (k : String) : Bool :=
  c.info.schemaFields.any fun f =>
    f.name = k && f.type = .m2o && (node.childOf f.name).isSome && (S.target? f).isSome

/-- A relation to one row that a request expands, under the name of its column. -/
def expandsM2O (c : EntitySchema N) (selection : Option FieldSelection) (k : String) : Bool :=
  selection.any fun node =>
    selectionNeedsRelations c.info.schemaFields node && S.expandsField c node k

/-- The value of a sort column reaches the cursor: it is null, or it is projected and readable, it
is not the reference of a relation that is expanded, and not the ciphertext of a field that is
decrypted. -/
def Kept (c : EntitySchema N) (selection : Option FieldSelection) (row : Record N) (k : String) :
    Prop :=
  (row.get k).isNullish = true ∨
    projects c selection k = true ∧ S.readable c.slug k = true ∧
      ∀ s, row.get k = .str s → S.expandsM2O c selection k = false ∧
        (needsDecrypt c.info.schemaFields selection = true →
          c.info.schemaFields.any (fun f => f.encrypted && f.name == k) = true →
            FieldEncryption.isEncrypted s = false)

end ReadContext

/-- A name that ORDER BY finds one column for: a field of that name has a column of its own, no
other field has a column of that name, and it is not the name of the trace. -/
structure SortColumn (c : EntitySchema N) (k : String) : Prop where
  own : ∀ f ∈ c.info.schemaFields, f.name = k → f.columns = [k]
  alone : ∀ f ∈ c.info.schemaFields, k ∈ f.columns → f.name = k
  plain : k ≠ "_formula_trace"

/-! ## Passes that leave a property -/

omit [JsNumber N] in
/-- What every stage keeps, a level keeps. -/
theorem Stage.seq_invariant {I : Item N → Prop} {ss : List (Stage N)}
    (hstep : ∀ s ∈ ss, ∀ page it it', s page it = .ok it' → I it → I it')
    {page : List (Item N)} {it it' : Item N} (h : Stage.seq ss page it = .ok it') (hit : I it) :
    I it' := by
  induction ss generalizing page it with
  | nil =>
    cases h
    exact hit
  | cons s ss ih =>
    simp only [Stage.seq] at h
    obtain ⟨page', -, h⟩ := exists_of_bind_eq_ok h
    obtain ⟨it₁, hit₁, h⟩ := exists_of_bind_eq_ok h
    obtain ⟨hs, hss⟩ := List.forall_mem_cons.1 hstep
    exact ih hss h (hs page it it₁ hit₁ hit)

namespace ReadContext
variable {S : ReadContext N} {c target : EntitySchema N} {f : FieldDefinition N}
  {child node : FieldSelection} {page : List (Item N)} {it it' : Item N} {k : String}

/-- The filter of a relation sets its property, or nothing. -/
theorem recurseAndPrune_invariant {I : Item N → Prop} {deeper : Stage N} {name : String}
    (hset : ∀ x n, I x → I (x.set name n))
    (h : S.recurseAndPrune deeper name target child page it = .ok it') (hit : I it) : I it' := by
  unfold recurseAndPrune at h
  obtain ⟨allowed, -, h⟩ := exists_of_bind_eq_ok h
  dsimp only at h
  split at h
  · obtain ⟨n, -, h⟩ := exists_of_bind_eq_ok h
    cases h
    exact hset it n hit
  · cases h
    exact hit

/-- A relation sets its property, or nothing. -/
theorem relationStage_invariant {I : Item N → Prop}
    {deeper : EntitySchema N → FieldSelection → Stage N} {attach : List (Item N) → Item N → Item N}
    (hattach : ∀ page x, I x → I (attach page x)) (hset : ∀ x n, I x → I (x.set f.name n))
    (h : S.relationStage deeper attach f child target page it = .ok it') (hit : I it) : I it' := by
  refine Stage.seq_invariant (fun s hs page x x' hx hI => ?_) h hit
  rcases List.mem_cons.1 hs with rfl | hs
  · cases hx
    exact hattach page x hI
  · obtain rfl := List.mem_singleton.1 hs
    exact recurseAndPrune_invariant hset hx hI

/-- A field that is expanded sets its property, and an `m2a` field drops its columns. -/
theorem fieldStage_invariant {I : Item N → Prop} {limit : Nat}
    {deeper : EntitySchema N → FieldSelection → Stage N} {stage : Stage N}
    (hset : ∀ x n, I x → I (x.set f.name n))
    (herase : f.type = .m2a → ∀ k ∈ [f.name ++ "_id", f.name ++ "_type"], ∀ x, I x → I (x.erase k))
    (hstage : S.fieldStage limit c node deeper f child = some stage)
    (h : stage page it = .ok it') (hit : I it) : I it' := by
  have harray (rows : String → List (Item N)) (page : List (Item N)) (x : Item N) (hx : I x) :
      I (resolveArray rows f.name page x) := by
    unfold resolveArray
    dsimp only
    split
    · exact hx
    · exact hset x _ hx
  unfold fieldStage at hstage
  cases htype : f.type with
  | m2o =>
    rw [htype] at hstage
    obtain ⟨target, -, rfl⟩ := Option.map_eq_some_iff.1 hstage
    refine relationStage_invariant (fun page x hx => ?_) hset h hit
    unfold resolveM2O
    split
    · exact hset x _ hx
    · exact hx
  | o2m =>
    rw [htype] at hstage
    dsimp only at hstage
    split at hstage
    · obtain ⟨target, -, rfl⟩ := Option.map_eq_some_iff.1 hstage
      exact relationStage_invariant (harray _) hset h hit
    · cases hstage
  | m2m =>
    rw [htype] at hstage
    obtain ⟨target, -, rfl⟩ := Option.map_eq_some_iff.1 hstage
    exact relationStage_invariant (harray _) hset h hit
  | m2a =>
    rw [htype] at hstage
    dsimp only at hstage
    split at hstage
    · obtain rfl := Option.some.inj hstage
      refine Stage.seq_invariant (fun s hs page x x' hx hI => ?_) h hit
      rcases List.mem_cons.1 hs with rfl | hs
      · cases hx
        unfold resolveM2A
        split
        · exact hI
        · split
          · refine herase htype _ (List.mem_cons_of_mem _ List.mem_cons_self) _ ?_
            exact herase htype _ List.mem_cons_self _ (hset x _ hI)
          · exact hI
      · obtain rfl := List.mem_singleton.1 hs
        unfold pruneM2A at hx
        split at hx
        · split at hx
          · exact recurseAndPrune_invariant hset hx hI
          · cases hx
            exact hI
        · cases hx
          exact hI
    · cases hstage
  | table =>
    rw [htype] at hstage
    dsimp only at hstage
    split at hstage
    · obtain rfl := Option.some.inj hstage
      cases htarget : S.target? f with
      | some target =>
        rw [htarget] at h
        exact relationStage_invariant (fun page x hx => hset x _ hx) hset h hit
      | none =>
        rw [htarget] at h
        cases h
        exact hset it _ hit
    · cases hstage
  | _ => rw [htype] at hstage; cases hstage

/-- A field that is expanded keeps the other properties. -/
theorem fieldStage_get? {limit : Nat} {deeper : EntitySchema N → FieldSelection → Stage N}
    {stage : Stage N} (hk : k ≠ f.name)
    (hm2a : f.type = .m2a → k ≠ f.name ++ "_id" ∧ k ≠ f.name ++ "_type")
    (hstage : S.fieldStage limit c node deeper f child = some stage)
    (h : stage page it = .ok it') : it'.get? k = it.get? k := by
  refine fieldStage_invariant (I := fun x => x.get? k = it.get? k) (fun x n hx => ?_)
    (fun htype k' hk' x hx => ?_) hstage h rfl
  · rwa [Item.get?_set, if_neg (Ne.symm hk)]
  · have hne : k' ≠ k := by
      rcases List.mem_cons.1 hk' with rfl | hk'
      · exact (hm2a htype).1.symm
      · rw [List.mem_singleton.1 hk']
        exact (hm2a htype).2.symm
    rwa [Item.get?_erase, if_neg hne]

/-- What the formulas of a level give is under the names of virtual formulas, and the trace. -/
theorem name_of_mem_computeFormulas {trace : Bool} {kv : String × Node N}
    (h : kv ∈ S.computeFormulas c node trace page it) :
    (∃ g ∈ c.info.schemaFields, g.isVirtualFormula = true ∧ g.name = kv.1) ∨
      kv.1 = "_formula_trace" := by
  have hnodes (looked : List (Origin N × Record N)) (scope : Record N) :
      ∀ kv ∈ ((formulaSel c node).foldl (S.computeFormula looked) (scope, [], [])).2.1,
        ∃ g ∈ c.info.schemaFields, g.isVirtualFormula = true ∧ g.name = kv.1 := by
    refine foldl_invariant (I := fun s : Record N × List (String × Node N) × List (JsVal N) =>
      ∀ kv ∈ s.2.1, ∃ g ∈ c.info.schemaFields, g.isVirtualFormula = true ∧ g.name = kv.1)
      (fun kv hkv => (List.not_mem_nil hkv).elim) fun s g hg hs kv hkv => ?_
    obtain ⟨hmem, hp⟩ := List.mem_filter.1 (resolveFormulaDependencies_subset hg)
    rw [Bool.and_eq_true] at hp
    obtain ⟨scope, nodes, traced⟩ := s
    simp only [computeFormula] at hkv
    split at hkv
    · rcases List.mem_append.1 hkv with hkv | hkv
      · exact hs kv hkv
      · obtain rfl := List.mem_singleton.1 hkv
        exact ⟨g, hmem, hp.1, rfl⟩
    · rcases List.mem_append.1 hkv with hkv | hkv
      · exact hs kv hkv
      · obtain rfl := List.mem_singleton.1 hkv
        exact ⟨g, hmem, hp.1, rfl⟩
  unfold computeFormulas at h
  dsimp only at h
  split at h
  · exact (List.not_mem_nil h).elim
  · split at h
    · rcases List.mem_append.1 h with h | h
      · exact .inl (hnodes _ _ kv h)
      · obtain rfl := List.mem_singleton.1 h
        exact .inr rfl
    · exact .inl (hnodes _ _ kv h)

/-- The formulas leave the columns. -/
theorem formulaStage_get? {trace : Bool} (hk : SortColumn c k)
    (h : S.formulaStage c node trace page it = .ok it') : it'.get? k = it.get? k := by
  cases h
  refine (Item.get?_setAll _ k (.value .null) it).2.1 fun n hn => ?_
  rcases name_of_mem_computeFormulas hn with ⟨g, hg, hvirtual, hname⟩ | hname
  · -- a virtual formula has no column
    have hown := hk.own g hg hname
    have hformula : g.isVirtual = true := by
      rw [FieldDefinition.isVirtualFormula, Bool.and_eq_true] at hvirtual
      unfold FieldDefinition.isVirtual
      rw [of_decide_eq_true hvirtual.1]
      exact hvirtual.2
    rw [FieldDefinition.columns, if_pos hformula] at hown
    cases hown
  · exact hk.plain hname

/-- The property of a relation that was resolved: a related object, or none. -/
def Replaced (k : String) (it : Item N) : Prop :=
  (∃ origin fields, it.get? k = some (.object origin fields)) ∨ it.get? k = some (.value .null)

omit [JsNumber N] in
/-- Rows are filtered and resolved further without becoming a column's value. -/
theorem refine_replaced {n n' : Node N} {keep : Item N → Bool}
    {resolve : Item N → Except String (Item N)}
    (hn : (∃ origin fields, n = .object origin fields) ∨ n = .value .null)
    (h : n.refine keep resolve = .ok n') :
    (∃ origin fields, n' = .object origin fields) ∨ n' = .value .null := by
  rcases hn with ⟨origin, fields, rfl⟩ | rfl
  · unfold Node.refine at h
    dsimp only at h
    split at h
    · obtain ⟨⟨origin', fields'⟩, -, h⟩ := exists_of_bind_eq_ok h
      cases h
      exact .inl ⟨_, _, rfl⟩
    · cases h
      exact .inr rfl
  · cases h
    exact .inr rfl

omit [JsNumber N] in
/-- Filtering the rows of a property keeps what a relation has replaced, and the values. -/
theorem set_refine {name : String} {n n' : Node N} {keep : Item N → Bool}
    {resolve : Item N → Except String (Item N)} (hget : it.get? name = some n)
    (h : n.refine keep resolve = .ok n') :
    (Replaced k it → Replaced k (it.set name n')) ∧
      ∀ v : Option (JsVal N), it.get? k = v.map .value →
        (it.set name n').get? k = v.map .value := by
  unfold Replaced
  rw [Item.get?_set]
  by_cases hname : name = k
  · subst hname
    rw [if_pos rfl, hget]
    refine ⟨fun hr => ?_, fun v hv => ?_⟩
    · have hn : (∃ origin fields, n = .object origin fields) ∨ n = .value .null :=
        hr.imp (fun ⟨o, fs, hobj⟩ => ⟨o, fs, Option.some.inj hobj⟩) Option.some.inj
      exact (refine_replaced hn h).imp (fun ⟨o, fs, hobj⟩ => ⟨o, fs, congrArg some hobj⟩)
        (congrArg some)
    · obtain ⟨w, rfl, rfl⟩ := Option.map_eq_some_iff.1 hv.symm
      cases h
      rfl
  · rw [if_neg hname]
    exact ⟨fun hr => hr, fun _ hv => hv⟩

/-- The filter of a relation keeps what was replaced, and the values. -/
theorem recurseAndPrune_self {deeper : Stage N} {name : String}
    (h : S.recurseAndPrune deeper name target child page it = .ok it') :
    (Replaced k it → Replaced k it') ∧
      ∀ v : Option (JsVal N), it.get? k = v.map .value → it'.get? k = v.map .value := by
  unfold recurseAndPrune at h
  obtain ⟨allowed, -, h⟩ := exists_of_bind_eq_ok h
  dsimp only at h
  split at h
  · next n hget =>
    obtain ⟨n', hn', h⟩ := exists_of_bind_eq_ok h
    cases h
    exact set_refine hget hn'
  · cases h
    exact ⟨fun hr => hr, fun _ hv => hv⟩

omit [JsNumber N] in
theorem replaced_iff (k : String) (it : Item N) :
    Replaced k it ↔ (∃ origin fields, it.get? k = some (.object origin fields)) ∨
      it.get? k = some (.value .null) := Iff.rfl

/-- What the stage of an `m2o` field makes of its own column: a text becomes a related object, or
none, and any other value stays. -/
theorem m2oStage_self {limit : Nat} {deeper : EntitySchema N → FieldSelection → Stage N}
    {stage : Stage N} (htype : f.type = .m2o)
    (hstage : S.fieldStage limit c node deeper f child = some stage)
    (h : stage page it = .ok it') :
    (∀ s, it.get? f.name = some (.value (.str s)) → Replaced f.name it') ∧
      (Replaced f.name it → Replaced f.name it') ∧
      ∀ v : Option (JsVal N), it.get? f.name = v.map .value → (∀ s, v ≠ some (.str s)) →
        it'.get? f.name = it.get? f.name := by
  unfold fieldStage at hstage
  rw [htype] at hstage
  obtain ⟨target, -, rfl⟩ := Option.map_eq_some_iff.1 hstage
  unfold relationStage at h
  simp only [Stage.seq] at h
  obtain ⟨page₁, -, h⟩ := exists_of_bind_eq_ok h
  obtain ⟨it₁, hit₁, h⟩ := exists_of_bind_eq_ok h
  obtain ⟨-, -, h⟩ := exists_of_bind_eq_ok h
  obtain ⟨it₂, hit₂, h⟩ := exists_of_bind_eq_ok h
  cases h
  cases hit₁
  obtain ⟨hreplaced, hvalue⟩ := recurseAndPrune_self hit₂
  -- a column without a text is left by the first step
  have hleft (htext : it.text? f.name = none) (columns : Option (List String)) :
      S.resolveM2O columns f target it = it := by
    unfold resolveM2O
    rw [htext]
  refine ⟨fun s hs => hreplaced ?_, fun hr => hreplaced ?_, fun v hv hstr => ?_⟩
  · have htext : it.text? f.name = some s := by rw [Item.text?, hs]; rfl
    unfold resolveM2O Replaced
    rw [htext]
    simp only [Item.get?_set, if_true]
    split
    · exact .inl ⟨_, _, rfl⟩
    · exact .inr rfl
  · have htext : it.text? f.name = none := by
      rcases hr with ⟨origin, fields, hobj⟩ | hnull
      · rw [Item.text?, hobj]
        rfl
      · rw [Item.text?, hnull]
        rfl
    rwa [hleft htext]
  · have htext : it.text? f.name = none := by
      rw [Item.text?, hv]
      rcases v with _ | v
      · rfl
      · cases v with
        | str s => exact (hstr s rfl).elim
        | undefined | null | bool | num | arr | obj | func => rfl
    rw [hleft htext] at hvalue
    exact (hvalue v hv).trans hv.symm

omit [JsNumber N] in
/-- One of the stages replaces the property, and the others keep it. -/
theorem stages_replaced {take : FieldDefinition N → Option (Stage N)}
    {fs : List (FieldDefinition N)} {s : String}
    (hkeep : ∀ g ∈ fs, g.name ≠ k → ∀ stage, take g = some stage → ∀ page it it',
      stage page it = .ok it' → it'.get? k = it.get? k)
    (hself : ∀ g ∈ fs, g.name = k → ∃ stage, take g = some stage ∧ ∀ page it it',
      stage page it = .ok it' → (it.get? k = some (.value (.str s)) → Replaced k it') ∧
        (Replaced k it → Replaced k it'))
    (hmem : ∃ g ∈ fs, g.name = k) (hit : it.get? k = some (.value (.str s)))
    (h : Stage.seq (fs.filterMap take) page it = .ok it') : Replaced k it' := by
  -- what is replaced stays so
  have hlater : ∀ g ∈ fs, ∀ stage, take g = some stage → ∀ page it it',
      stage page it = .ok it' → Replaced k it → Replaced k it' := by
    intro g hg stage hstage page it it' h hr
    by_cases hname : g.name = k
    · obtain ⟨stage', hstage', hstep⟩ := hself g hg hname
      obtain rfl := Option.some.inj (hstage.symm.trans hstage')
      exact (hstep page it it' h).2 hr
    · rw [replaced_iff, hkeep g hg hname stage hstage page it it' h]
      exact hr
  induction fs generalizing page it with
  | nil =>
    obtain ⟨g, hg, -⟩ := hmem
    exact (List.not_mem_nil hg).elim
  | cons g fs ih =>
    have hrest {page : List (Item N)} {it : Item N}
        (h : Stage.seq (fs.filterMap take) page it = .ok it') (hr : Replaced k it) :
        Replaced k it' := by
      refine Stage.seq_invariant (fun stage hstage page it it' hx => ?_) h hr
      obtain ⟨g', hg', htake⟩ := List.mem_filterMap.1 hstage
      exact hlater g' (List.mem_cons_of_mem g hg') stage htake page it it' hx
    by_cases hname : g.name = k
    · obtain ⟨stage, hstage, hstep⟩ := hself g List.mem_cons_self hname
      rw [List.filterMap_cons_some hstage] at h
      simp only [Stage.seq] at h
      obtain ⟨page', -, h⟩ := exists_of_bind_eq_ok h
      obtain ⟨it₁, hit₁, h⟩ := exists_of_bind_eq_ok h
      exact hrest h ((hstep page it it₁ hit₁).1 hit)
    · have hmem' : ∃ g ∈ fs, g.name = k := by
        obtain ⟨g', hg', hname'⟩ := hmem
        rcases List.mem_cons.1 hg' with rfl | hg'
        · exact (hname hname').elim
        · exact ⟨g', hg', hname'⟩
      have hih {page : List (Item N)} {it : Item N} (hit : it.get? k = some (.value (.str s)))
          (h : Stage.seq (fs.filterMap take) page it = .ok it') : Replaced k it' :=
        ih (fun g' hg' => hkeep g' (List.mem_cons_of_mem g hg'))
          (fun g' hg' => hself g' (List.mem_cons_of_mem g hg')) hmem' hit h
          fun g' hg' => hlater g' (List.mem_cons_of_mem g hg')
      cases htake : take g with
      | none =>
        rw [List.filterMap_cons_none htake] at h
        exact hih hit h
      | some stage =>
        rw [List.filterMap_cons_some htake] at h
        simp only [Stage.seq] at h
        obtain ⟨page', -, h⟩ := exists_of_bind_eq_ok h
        obtain ⟨it₁, hit₁, h⟩ := exists_of_bind_eq_ok h
        exact hih ((hkeep g List.mem_cons_self hname stage htake page it it₁ hit₁).trans hit) h

omit [JsNumber N] in
/-- A field whose column has its name has it to itself. -/
theorem relation_of_sortColumn (hk : SortColumn c k) (hf : f ∈ relationFields c) :
    f ∈ c.info.schemaFields ∧ (f.name = k → f.type = .m2o) ∧
      (f.type = .m2a → k ≠ f.name ++ "_id" ∧ k ≠ f.name ++ "_type") := by
  obtain ⟨type, htype, hf⟩ := List.mem_flatMap.1 hf
  obtain ⟨hmem, heq⟩ := List.mem_filter.1 hf
  have heq : f.type = type := of_decide_eq_true heq
  refine ⟨hmem, fun hname => ?_, fun hm2a => ?_⟩
  · have hown := hk.own f hmem hname
    unfold FieldDefinition.columns FieldDefinition.isVirtual at hown
    rcases List.mem_cons.1 htype with rfl | htype
    · exact heq
    · exfalso
      simp only [List.mem_cons, List.not_mem_nil, or_false] at htype
      rcases htype with rfl | rfl | rfl | rfl <;> simp [heq] at hown
  · have hcolumns : f.columns = [f.name ++ "_type", f.name ++ "_id"] := by
      unfold FieldDefinition.columns FieldDefinition.isVirtual
      simp [hm2a]
    obtain ⟨⟨hid, hkind⟩, -⟩ := append_ne f.name
    refine ⟨fun h => hid ?_, fun h => hkind ?_⟩
    · rw [← h]
      exact (hk.alone f hmem (by simp [hcolumns, h])).symm
    · rw [← h]
      exact (hk.alone f hmem (by simp [hcolumns, h])).symm

/-- What a level of relations makes of a sort column: the text of a relation that is expanded is
replaced, and everything else stays. -/
theorem resolveLevel_get? (hc : c ∈ S.all) (hk : SortColumn c k) {limit depth : Nat} {trace : Bool}
    (hdepth : node.levels ≤ depth) {v : Option (JsVal N)} (hit : it.get? k = v.map .value)
    (h : S.resolveLevel limit depth trace c node page it = .ok it') :
    (∀ s, v = some (.str s) → S.expandsField c node k = true → Replaced k it') ∧
      ((∀ s, v = some (.str s) → S.expandsField c node k = false) → it'.get? k = v.map .value) := by
  cases depth with
  | zero =>
    obtain ⟨all, columns, excludes, relations, expandDepth⟩ := node
    simp only [FieldSelection.levels] at hdepth
    omega
  | succ depth =>
    unfold resolveLevel levelStages at h
    simp only [Stage.seq] at h
    obtain ⟨page', -, h⟩ := exists_of_bind_eq_ok h
    obtain ⟨it₁, hit₁, h⟩ := exists_of_bind_eq_ok h
    have hget : it₁.get? k = v.map .value := (formulaStage_get? hk hit₁).trans hit
    let take (f : FieldDefinition N) : Option (Stage N) := (node.childOf f.name).bind
      (S.fieldStage limit c node (S.resolveLevel limit depth false) f)
    have hkeep : ∀ g ∈ relationFields c, g.name ≠ k → ∀ stage, take g = some stage →
        ∀ page it it', stage page it = .ok it' → it'.get? k = it.get? k := by
      intro g hg hname stage hstage page it it' hx
      obtain ⟨child, -, hstage⟩ := Option.bind_eq_some_iff.1 hstage
      exact fieldStage_get? (Ne.symm hname) (relation_of_sortColumn hk hg).2.2 hstage hx
    refine ⟨fun s hs hexpands => ?_, fun hnot => ?_⟩
    · obtain ⟨f, hf, hexpands⟩ := List.any_eq_true.1 hexpands
      simp only [Bool.and_eq_true, decide_eq_true_eq] at hexpands
      obtain ⟨⟨⟨hname, htype⟩, hchild⟩, htarget⟩ := hexpands
      have hfmem : f ∈ relationFields c :=
        List.mem_flatMap.2 ⟨.m2o, List.mem_cons_self, List.mem_filter.2 ⟨hf, decide_eq_true htype⟩⟩
      refine stages_replaced hkeep (fun g hg hgname => ?_) ⟨f, hfmem, hname⟩
        (hget.trans (congrArg (Option.map Node.value) hs)) h
      obtain rfl := eq_of_name hc hf (relation_of_sortColumn hk hg).1 (hname.trans hgname.symm)
      obtain ⟨child, hchild⟩ := Option.isSome_iff_exists.1 hchild
      obtain ⟨target, htarget⟩ := Option.isSome_iff_exists.1 htarget
      have hstage : ∃ stage, S.fieldStage limit c node (S.resolveLevel limit depth false) f child =
          some stage := by
        unfold fieldStage
        rw [htype, htarget]
        exact ⟨_, rfl⟩
      obtain ⟨stage, hstage⟩ := hstage
      have htake : take f = some stage := by
        show (node.childOf f.name).bind _ = some stage
        rw [hchild]
        exact hstage
      refine ⟨stage, htake, fun page it it' hx => ?_⟩
      obtain ⟨htext, hreplaced, -⟩ := m2oStage_self htype hstage hx
      rw [← hname]
      exact ⟨htext s, hreplaced⟩
    · refine Stage.seq_invariant (I := fun x => x.get? k = v.map .value)
        (fun stage hstage page x x' hx hI => ?_) h hget
      obtain ⟨g, hg, hstage⟩ := List.mem_filterMap.1 hstage
      by_cases hname : g.name = k
      · obtain ⟨child, hchild, hstage⟩ := Option.bind_eq_some_iff.1 hstage
        obtain ⟨hgmem, hm2o, -⟩ := relation_of_sortColumn hk hg
        subst hname
        refine ((m2oStage_self (hm2o rfl) hstage hx).2.2 v hI fun s hs => ?_).trans hI
        have hexpands : S.expandsField c node g.name = true := by
          refine List.any_eq_true.2 ⟨g, hgmem, ?_⟩
          unfold fieldStage at hstage
          rw [hm2o rfl] at hstage
          obtain ⟨target, htarget, -⟩ := Option.map_eq_some_iff.1 hstage
          simp [hm2o rfl, hchild, htarget]
        rw [hnot s hs] at hexpands
        cases hexpands
      · exact (hkeep g hg hname stage hstage page x x' hx).trans hI

/-- The row filter on resolved relations keeps what was replaced, and the values. -/
theorem filterResolvedRelations_get? (h : S.filterResolvedRelations c page it = .ok it') :
    (Replaced k it → Replaced k it') ∧
      ∀ v : Option (JsVal N), it.get? k = v.map .value → it'.get? k = v.map .value := by
  unfold filterResolvedRelations at h
  dsimp only at h
  split at h
  · have hall : (Replaced k it → Replaced k it') ∧
        ((∃ v : Option (JsVal N), it.get? k = v.map .value) → it'.get? k = it.get? k) := by
      refine foldlM_invariant (I := fun x => (Replaced k it → Replaced k x) ∧
        ((∃ v : Option (JsVal N), it.get? k = v.map .value) → x.get? k = it.get? k)) h
        ⟨fun hr => hr, fun _ => rfl⟩ fun x r x' _ hI hx => ?_
      obtain ⟨allowed, -, hx⟩ := exists_of_bind_eq_ok hx
      split at hx
      · next n hget =>
        obtain ⟨n', hn', hx⟩ := exists_of_bind_eq_ok hx
        cases hx
        obtain ⟨hreplaced, hvalue⟩ := set_refine (k := k) hget hn'
        exact ⟨fun hr => hreplaced (hI.1 hr),
          fun ⟨v, hv⟩ => (hvalue v ((hI.2 ⟨v, hv⟩).trans hv)).trans hv.symm⟩
      · cases hx
        exact hI
    exact ⟨hall.1, fun v hv => (hall.2 ⟨v, hv⟩).trans hv⟩
  · cases h
    exact ⟨fun hr => hr, fun _ hv => hv⟩

/-- An object stands for its row, however it is resolved. -/
theorem resolveLevel_origin {limit depth : Nat} {trace : Bool}
    (h : S.resolveLevel limit depth trace c node page it = .ok it') : it'.1 = it.1 := by
  cases depth with
  | zero =>
    cases h
    rfl
  | succ depth =>
    unfold resolveLevel levelStages at h
    refine Stage.seq_invariant (I := fun x : Item N => x.1 = it.1)
      (fun s hs page x x' hx hI => ?_) h rfl
    rcases List.mem_cons.1 hs with rfl | hs
    · cases hx
      exact foldl_invariant (I := fun x : Item N => x.1 = it.1) hI fun x _ _ hx => hx
    · obtain ⟨g, -, hstage⟩ := List.mem_filterMap.1 hs
      obtain ⟨child, -, hstage⟩ := Option.bind_eq_some_iff.1 hstage
      exact fieldStage_invariant (I := fun x : Item N => x.1 = it.1) (fun _ _ h => h)
        (fun _ _ _ _ h => h) hstage hx hI

theorem filterResolvedRelations_origin (h : S.filterResolvedRelations c page it = .ok it') :
    it'.1 = it.1 := by
  unfold filterResolvedRelations at h
  dsimp only at h
  split at h
  · refine foldlM_invariant (I := fun x : Item N => x.1 = it.1) h rfl fun x r x' _ hI hx => ?_
    obtain ⟨allowed, -, hx⟩ := exists_of_bind_eq_ok hx
    split at hx
    · obtain ⟨n', -, hx⟩ := exists_of_bind_eq_ok hx
      cases hx
      exact hI
    · cases hx
      exact hI
  · cases h
    rfl

/-! ## Items -/

/-- What the relations of a page make of a row that was read: it stands for the row, and its sort
columns are those of the statement, but for the texts of relations that are expanded. -/
structure Read (S : ReadContext N) (c : EntitySchema N) (selection : Option FieldSelection)
    (row : Record N) (it : Item N) : Prop where
  origin : it.1.collection = c.slug
  replaced : ∀ k, SortColumn c k → ∀ s, row.get? k = some (.str s) →
    projects c selection k = true → S.expandsM2O c selection k = true → Replaced k it
  value : ∀ k, SortColumn c k →
    (∀ s, row.get? k = some (.str s) → projects c selection k = true →
      S.expandsM2O c selection k = false) →
    it.get? k = (if projects c selection k then row.get? k else none).map .value

omit [JsNumber N] in
/-- The columns of a statement. -/
theorem get?_listRow (selection : Option FieldSelection) (row : Record N) :
    (listRow c selection row).get? k =
      (if projects c selection k then row.get? k else none).map .value := by
  rw [listRow, get?_valueFields]
  congr 1
  unfold projects selectColumns
  dsimp only
  cases projectColumns c.info.schemaFields c.info.systemFieldOptions selection with
  | nil => rfl
  | cons column columns =>
    dsimp only
    rw [Record.get?_filter (fun k => (column :: columns).contains k)]
    simp

omit [JsNumber N] in
/-- A row whose relations are not resolved. -/
theorem Read.of_listRow {selection : Option FieldSelection} (row : Record N)
    (hnot : ∀ k, S.expandsM2O c selection k = false) :
    Read S c selection row (listRow c selection row) where
  origin := rfl
  replaced k _ _ _ _ hexpands := by
    rw [hnot k] at hexpands
    cases hexpands
  value k _ _ := get?_listRow selection row

/-- A row whose relations are resolved. -/
theorem Read.of_resolve (hc : c ∈ S.all) {limit : Nat} {trace : Bool} {row : Record N}
    {page page' : List (Item N)} (hneeds : selectionNeedsRelations c.info.schemaFields node = true)
    (h : S.resolveLevel limit node.levels trace c node page (listRow c (some node) row) = .ok it)
    (h' : S.filterResolvedRelations c page' it = .ok it') : Read S c (some node) row it' := by
  have hexpands (k : String) : S.expandsM2O c (some node) k = S.expandsField c node k := by
    show (selectionNeedsRelations c.info.schemaFields node && S.expandsField c node k) = _
    rw [hneeds, Bool.true_and]
  refine ⟨?_, fun k hk s hs hprojects hexp => ?_, fun k hk hnot => ?_⟩
  · rw [filterResolvedRelations_origin h', resolveLevel_origin h]
    rfl
  · have hlevel := (resolveLevel_get? hc hk le_rfl (get?_listRow (some node) row) h).1 s
    rw [if_pos hprojects] at hlevel
    exact (filterResolvedRelations_get? h').1 (hlevel hs (hexpands k ▸ hexp))
  · have hlevel := (resolveLevel_get? hc hk le_rfl (get?_listRow (some node) row) h).2 ?_
    · exact (filterResolvedRelations_get? h').2 _ hlevel
    · intro s hs
      split at hs
      · next hprojects => exact hexpands k ▸ hnot s hs hprojects
      · cases hs

omit [JsNumber N] in
/-- A loop that does not throw gives one result for each element. -/
theorem forall₂_of_mapM {ε α β : Type} {g : α → Except ε β} {l : List α} {l' : List β}
    (h : l.mapM g = .ok l') : List.Forall₂ (fun a b => g a = .ok b) l l' := by
  induction l generalizing l' with
  | nil =>
    cases h
    exact .nil
  | cons a l ih =>
    rw [List.mapM_cons] at h
    obtain ⟨b, hb, h⟩ := exists_of_bind_eq_ok h
    obtain ⟨bs, hbs, h⟩ := exists_of_bind_eq_ok h
    cases h
    exact .cons hb (ih hbs)

omit [JsNumber N] in
/-- Two loops, one after the other. -/
theorem forall₂_comp {α β γ : Type} {R : α → β → Prop} {Q : β → γ → Prop} {P : α → γ → Prop}
    {as : List α} {bs : List β} {cs : List γ} (h : List.Forall₂ R as bs)
    (h' : List.Forall₂ Q bs cs) (hP : ∀ a b c, R a b → Q b c → P a c) : List.Forall₂ P as cs := by
  induction h generalizing cs with
  | nil =>
    cases h'
    exact .nil
  | cons hab _ ih =>
    cases h' with
    | cons hbc hrest => exact .cons (hP _ _ _ hab hbc) (ih hrest)

/-- The rows of a page, once their relations are resolved. -/
theorem resolveRelations_read (hc : c ∈ S.all) {limit : Nat} {trace : Bool}
    {selection : Option FieldSelection} {rows : List (Record N)} {items : List (Item N)}
    (h : S.resolveRelations c limit selection trace (rows.map (listRow c selection)) = .ok items) :
    List.Forall₂ (Read S c selection) rows items := by
  have hunresolved (hnot : ∀ k, S.expandsM2O c selection k = false) :
      List.Forall₂ (Read S c selection) rows (rows.map (listRow c selection)) := by
    rw [List.forall₂_map_right_iff, List.forall₂_same]
    exact fun row _ => .of_listRow row hnot
  unfold resolveRelations at h
  split at h
  · cases h
    exact hunresolved fun _ => rfl
  · next node =>
    split at h
    · next hneeds =>
      obtain ⟨items₁, hitems₁, h⟩ := exists_of_bind_eq_ok h
      exact forall₂_comp (List.forall₂_map_left_iff.1 (forall₂_of_mapM hitems₁))
        (forall₂_of_mapM h) fun _ _ _ hlevel hfilter => .of_resolve hc hneeds hlevel hfilter
    · next hneeds =>
      cases h
      refine hunresolved fun k => ?_
      show (selectionNeedsRelations c.info.schemaFields node && S.expandsField c node k) = false
      rw [Bool.eq_false_iff.2 hneeds, Bool.false_and]

end ReadContext

omit [JsNumber N] in
/-- The properties of an object as a record. -/
theorem get?_fieldsJs (origin : Origin N) (fields : List (String × Node N)) (k : String) :
    (fieldsJs fields).get? k = (Item.get? (origin, fields) k).map Node.js := by
  induction fields with
  | nil => rfl
  | cons kv fields ih =>
    obtain ⟨k', n⟩ := kv
    rw [fieldsJs, Record.get?_cons, Item.get?_cons, ih]
    split <;> rfl

omit [JsNumber N] in
/-- Decryption replaces exactly the texts with the version marker. -/
theorem decryptField_eq_iff {K : Cipher} {s : String} :
    FieldEncryption.decryptField K (.str s : JsVal N) = .str s ↔
      FieldEncryption.isEncrypted s = false := by
  constructor
  · intro h
    by_contra hs
    have hs : FieldEncryption.isEncrypted s = true := by simpa using hs
    unfold FieldEncryption.decryptField at h
    simp only [hs, if_true] at h
    have hmarked := JsVal.str.inj h
    split at hmarked
    · rw [← hmarked] at hs
      revert hs
      decide
    · next hplain =>
      rw [hmarked] at hplain
      exact hplain hs
  · intro hs
    refine decryptField_of_not_isEncrypted fun s' hs' => ?_
    obtain rfl := JsVal.str.inj hs'
    exact hs

/-! ## Cursors -/

namespace ReadContext
variable {S : ReadContext N} {K : Cipher} {c : EntitySchema N} {k : String}

/-- The object of the response that the cursors are taken from. -/
def responseItem (S : ReadContext N) (K : Cipher) (c : EntitySchema N)
    (selection : Option FieldSelection) (it : Item N) : Record N :=
  let item := fieldsJs (S.applyFieldFilter it).2
  if needsDecrypt c.info.schemaFields selection then
    FieldEncryption.decryptItem K c.info.schemaFields item else item

/-- The items of a page are those of its rows. -/
theorem cursorPage_read (hc : c ∈ S.all) {r : ListRequest} {rows items : List (Record N)}
    (h : S.cursorPage K c r rows = .ok items) :
    List.Forall₂ (fun row item => ∃ it, Read S c r.selection row it ∧
      item = S.responseItem K c r.selection it) rows items := by
  unfold cursorPage at h
  obtain ⟨its, hits, h⟩ := exists_of_bind_eq_ok h
  have hread := resolveRelations_read hc hits
  have hitems : items = its.map (S.responseItem K c r.selection) := by
    cases h
    unfold responseItem
    split
    · rw [List.map_map]
      rfl
    · rfl
  rw [hitems, List.forall₂_map_right_iff]
  exact hread.imp fun row it hit => ⟨it, hit, rfl⟩

/-- A value of the response, decrypted where its field is. -/
def responseValue (K : Cipher) (c : EntitySchema N) (selection : Option FieldSelection) (k : String)
    (v : JsVal N) : JsVal N :=
  if needsDecrypt c.info.schemaFields selection &&
      c.info.schemaFields.any (fun f => f.encrypted && f.name == k) then
    FieldEncryption.decryptField K v else v

omit [JsNumber N] in
/-- Only texts are decrypted. -/
theorem responseValue_of_ne {selection : Option FieldSelection} {v : JsVal N}
    (h : ∀ s, v ≠ .str s) : responseValue K c selection k v = v := by
  unfold responseValue
  rw [decryptField_of_not_isEncrypted fun s hs => (h s hs).elim, ite_self]

omit [JsNumber N] in
/-- A text is read as it is, unless it is the ciphertext of a field that is decrypted. -/
theorem responseValue_str_iff {selection : Option FieldSelection} {s : String} :
    responseValue K c selection k (.str s : JsVal N) = .str s ↔
      (needsDecrypt c.info.schemaFields selection = true →
        c.info.schemaFields.any (fun f => f.encrypted && f.name == k) = true →
          FieldEncryption.isEncrypted s = false) := by
  unfold responseValue
  split
  · next h =>
    rw [Bool.and_eq_true] at h
    rw [decryptField_eq_iff]
    exact ⟨fun hs _ _ => hs, fun hs => hs h.1 h.2⟩
  · next h =>
    rw [Bool.and_eq_true] at h
    exact ⟨fun _ hneeds hfield => (h ⟨hneeds, hfield⟩).elim, fun _ => rfl⟩

/-- A property of the response. -/
theorem get?_responseItem {selection : Option FieldSelection} {it : Item N}
    (horigin : it.1.collection = c.slug) :
    (S.responseItem K c selection it).get? k =
      (if S.readable c.slug k then (it.get? k).map Node.js else none).map
        (responseValue K c selection k) := by
  have hfilter : (fieldsJs (S.applyFieldFilter it).2).get? k =
      if S.readable c.slug k then (it.get? k).map Node.js else none := by
    rw [get?_fieldsJs (S.applyFieldFilter it).1]
    show (Item.get? (S.applyFieldFilter it) k).map Node.js = _
    unfold applyFieldFilter
    rw [Item.get?_only, horigin]
    split <;> rfl
  unfold responseItem responseValue
  dsimp only
  split
  · next hneeds =>
    rw [get?_decryptItem, hfilter]
    simp only [hneeds, Bool.true_and]
  · next hneeds =>
    rw [hfilter]
    simp [hneeds]

omit [JsNumber N] in
theorem orElse_of_isNullish {v : JsVal N} (h : v.isNullish = true) : v.orElse .null = .null := by
  unfold JsVal.orElse
  rw [h, if_pos rfl]

omit [JsNumber N] in
theorem orElse_of_not_isNullish {v : JsVal N} (h : v.isNullish = false) : v.orElse .null = v := by
  unfold JsVal.orElse
  rw [h, if_neg Bool.false_ne_true]

/-- A null is read as a null, or not at all. -/
theorem isNullish_item {selection : Option FieldSelection} {row : Record N} {it : Item N}
    (hk : SortColumn c k) (hread : Read S c selection row it)
    (hnull : (row.get k).isNullish = true) :
    ((S.responseItem K c selection it).get k).isNullish = true := by
  have hvalue := hread.value k hk fun s hs _ => by
    rw [Record.get_eq, hs] at hnull
    cases hnull
  rw [Record.get_eq, get?_responseItem hread.origin, hvalue]
  rw [Record.get_eq] at hnull
  split
  · split
    · cases hrow : row.get? k with
      | none => rfl
      | some v =>
        rw [hrow] at hnull
        have hstr : ∀ s, v ≠ .str s := by
          rintro s rfl
          cases hnull
        rw [Option.map_some, Option.map_some, Option.map_some, Node.js, responseValue_of_ne hstr]
        exact hnull
    · rfl
  · rfl

/-- A cursor has the value by which the database has sorted a row exactly where it is kept. -/
theorem carried_iff (hk : SortColumn c k) {selection : Option FieldSelection} {row : Record N}
    {it : Item N} (hread : Read S c selection row it) :
    ((S.responseItem K c selection it).get k).orElse .null = (row.get k).orElse .null ↔
      S.Kept c selection row k := by
  cases hnull : (row.get k).isNullish with
  | true =>
    rw [orElse_of_isNullish hnull, orElse_of_isNullish (isNullish_item hk hread hnull)]
    exact ⟨fun _ => .inl hnull, fun _ => rfl⟩
  | false =>
    obtain ⟨v, hrow⟩ : ∃ v, row.get? k = some v := by
      cases hrow : row.get? k with
      | none =>
        rw [Record.get_eq, hrow] at hnull
        cases hnull
      | some v => exact ⟨v, rfl⟩
    have hget : row.get k = v := by rw [Record.get_eq, hrow]; rfl
    rw [orElse_of_not_isNullish hnull]
    unfold Kept
    rw [hget] at hnull ⊢
    simp only [hnull, Bool.false_eq_true, false_or]
    -- a property that is not there is no value
    have hmissing (h : (S.responseItem K c selection it).get? k = none) :
        ((S.responseItem K c selection it).get k).orElse .null ≠ v := by
      rw [Record.get_eq, h]
      rintro rfl
      cases hnull
    have hitem : (S.responseItem K c selection it).get? k =
        (if S.readable c.slug k then (it.get? k).map Node.js else none).map
          (responseValue K c selection k) := get?_responseItem hread.origin
    cases hprojects : projects c selection k with
    | false =>
      have hvalue := hread.value k hk fun s _ hp => by
        rw [hprojects] at hp
        cases hp
      rw [hvalue, hprojects] at hitem
      refine ⟨fun h => (hmissing ?_ h).elim, fun h => by cases h.1⟩
      rw [hitem]
      split <;> rfl
    | true =>
      cases hreadable : S.readable c.slug k with
      | false =>
        rw [hreadable] at hitem
        exact ⟨fun h => (hmissing hitem h).elim, fun h => by cases h.2.1⟩
      | true =>
        rw [hreadable, if_pos rfl] at hitem
        simp only [true_and]
        -- a value that is read
        have hread' (hvalue : it.get? k = some (.value v)) :
            ((S.responseItem K c selection it).get k).orElse .null = v ↔
              responseValue K c selection k v = v := by
          rw [hvalue] at hitem
          rw [Record.get_eq, hitem]
          show (responseValue K c selection k v).orElse .null = v ↔ _
          have hkept : (responseValue K c selection k v).isNullish = false := by
            unfold responseValue FieldEncryption.decryptField
            cases v with
            | str s => split <;> rfl
            | undefined | null => cases hnull
            | bool | num | arr | obj | func => split <;> rfl
          rw [orElse_of_not_isNullish hkept]
        by_cases hstr : ∃ s, v = .str s
        · obtain ⟨s, rfl⟩ := hstr
          cases hexpands : S.expandsM2O c selection k with
          | true =>
            refine ⟨fun h => ?_, fun h => by cases (h s rfl).1⟩
            exfalso
            revert h
            rcases hread.replaced k hk s hrow hprojects hexpands with ⟨origin, fields, hobj⟩ | hnone
            · rw [hobj] at hitem
              rw [Record.get_eq, hitem, Option.map_some, Option.map_some, Node.js,
                responseValue_of_ne (by intro s h; cases h)]
              intro h
              cases h
            · rw [hnone] at hitem
              rw [Record.get_eq, hitem, Option.map_some, Option.map_some, Node.js,
                responseValue_of_ne (by intro s h; cases h)]
              intro h
              cases h
          | false =>
            have hvalue := hread.value k hk fun _ _ _ => hexpands
            rw [hprojects, if_pos rfl, hrow] at hvalue
            rw [hread' hvalue, responseValue_str_iff]
            refine ⟨fun h s' hs' => ?_, fun h => (h s rfl).2⟩
            obtain rfl := JsVal.str.inj hs'
            exact ⟨rfl, h⟩
        · have hne : ∀ s, v ≠ .str s := fun s hs => hstr ⟨s, hs⟩
          have hvalue := hread.value k hk fun s hs _ =>
            (hne s (Option.some.inj (hrow.symm.trans hs))).elim
          rw [hprojects, if_pos rfl, hrow] at hvalue
          rw [hread' hvalue]
          exact ⟨fun _ s hs => (hne s hs).elim, fun _ => responseValue_of_ne hne⟩

/-- The items of a boundary are items of the page. -/
theorem mem_of_boundary {α : Type} {r : ListRequest} {items : List α} {a : α}
    (h : a ∈ r.boundary items) : a ∈ items := by
  have hpage : ∀ a ∈ r.page items, a ∈ items := by
    intro a ha
    unfold ListRequest.page at ha
    dsimp only at ha
    have hcut : ∀ a ∈ (if r.hasMore items then items.dropLast else items), a ∈ items := by
      intro a ha
      split at ha
      · exact List.dropLast_subset items ha
      · exact ha
    split at ha
    · exact hcut a (List.mem_reverse.1 ha)
    · exact hcut a ha
  unfold ListRequest.boundary ListRequest.cursorItems at h
  rcases List.mem_append.1 h with h | h
  · dsimp only at h
    split at h
    · exact hpage a (List.mem_of_getLast? (Option.mem_toList.1 h))
    · cases h
  · dsimp only at h
    split at h
    · exact hpage a (List.mem_of_head? (Option.mem_toList.1 h))
    · cases h

/-- The boundary of a page of images. -/
theorem boundary_map {α β : Type} (r : ListRequest) (g : α → β) (items : List α) :
    r.boundary (items.map g) = (r.boundary items).map g := by
  have hmore : r.hasMore (items.map g) = r.hasMore items := by
    unfold ListRequest.hasMore
    rw [List.length_map]
  have hpage : r.page (items.map g) = (r.page items).map g := by
    unfold ListRequest.page
    rw [hmore]
    cases r.hasMore items <;> cases r.before <;> simp [List.map_dropLast]
  unfold ListRequest.boundary ListRequest.cursorItems
  rw [hmore, hpage, List.getLast?_map, List.head?_map, List.map_append]
  dsimp only
  congr 1
  · split
    · exact Option.toList_map
    · rfl
  · split
    · exact Option.toList_map
    · rfl

omit [JsNumber N] in
/-- The id of a row is a sort column. -/
theorem sortColumn_id (c : EntitySchema N) : SortColumn c "id" where
  own f hf hname := (name_ne_id hf hname).elim
  alone f hf hmem := by
    unfold FieldDefinition.columns at hmem
    split at hmem
    · cases hmem
    · split at hmem
      · obtain ⟨-, hid, hkind⟩ := append_ne f.name
        rcases List.mem_cons.1 hmem with h | hmem
        · exact (hkind h.symm).elim
        · exact (hid (List.mem_singleton.1 hmem).symm).elim
      · exact (List.mem_singleton.1 hmem).symm
  plain := by decide

/-- Every item of a page has a text for its id. -/
theorem hasIdText_responseItem {selection : Option FieldSelection} {row : Record N} {it : Item N}
    (hrow : row ∈ S.tables c.slug) (hread : Read S c selection row it) :
    hasIdText (S.responseItem K c selection it) = true := by
  obtain ⟨id, hid, hne⟩ := S.id_text c.slug row hrow
  have hnone (p : FieldDefinition N → Bool) (hp : ∀ f, p f = true → f.name = "id") :
      c.info.schemaFields.any p = false :=
    List.any_eq_false.2 fun f hf hpf => name_ne_id hf (hp f hpf)
  have hexpands : S.expandsM2O c selection "id" = false := by
    unfold expandsM2O expandsField
    cases selection with
    | none => rfl
    | some node =>
      rw [Option.any_some, hnone _ fun f hf => by simp at hf; exact hf.1.1.1, Bool.and_false]
  have hvalue := hread.value "id" (sortColumn_id c) fun _ _ _ => hexpands
  have hplain (v : JsVal N) : responseValue K c selection "id" v = v := by
    unfold responseValue
    rw [hnone _ fun f hf => by simp at hf; exact hf.2, Bool.and_false, if_neg Bool.false_ne_true]
  unfold hasIdText
  rw [Record.get_eq, get?_responseItem hread.origin, hvalue, hid,
    readable_system List.mem_cons_self, if_pos rfl]
  split
  · show ((responseValue K c selection "id" (.str id)).toStr != "") = true
    rw [hplain]
    simpa [JsVal.toStr] using hne
  · rfl

/-- The cursors of a list carry the values by which the database has sorted their rows if and only
if these are null, or were neither dropped nor replaced on the way. -/
theorem cursors_true_iff (hc : c ∈ S.all) {r : ListRequest} {rows items : List (Record N)}
    (hrows : ∀ row ∈ rows, row ∈ S.tables c.slug) (hsorts : ∀ s ∈ r.sorts, SortColumn c s.field)
    (h : S.cursorPage K c r rows = .ok items) :
    (∀ p ∈ cursors r rows items, p.2 = sortKeys p.1 r.sorts) ↔
      ∀ row ∈ r.boundary rows, ∀ s ∈ r.sorts, S.Kept c r.selection row s.field := by
  obtain ⟨hlength, hzip⟩ := List.forall₂_iff_zip.1 (cursorPage_read hc h)
  have hboundary : r.boundary rows = (r.boundary (rows.zip items)).map Prod.fst := by
    rw [← boundary_map, List.map_fst_zip hlength.le]
  -- a cursor of one row
  have hpair : ∀ p ∈ r.boundary (rows.zip items), hasIdText p.2 = true ∧
      (Cursor.sortValues p.2 r.sorts = sortKeys p.1 r.sorts ↔
        ∀ s ∈ r.sorts, S.Kept c r.selection p.1 s.field) := by
    rintro ⟨row, item⟩ hp
    obtain ⟨it, hread, rfl⟩ := hzip (mem_of_boundary hp)
    have hrow : row ∈ S.tables c.slug := hrows row (List.of_mem_zip (mem_of_boundary hp)).1
    refine ⟨hasIdText_responseItem hrow hread, ?_⟩
    unfold Cursor.sortValues sortKeys
    rw [List.map_inj_left]
    exact forall₂_congr fun s hs => carried_iff (hsorts s hs) hread
  rw [hboundary, List.forall_mem_map]
  unfold cursors
  rw [List.forall_mem_map]
  constructor
  · intro hcursors p hp
    exact (hpair p hp).2.1 (hcursors p (List.mem_filter.2 ⟨hp, (hpair p hp).1⟩))
  · intro hkept p hp
    obtain ⟨hp, -⟩ := List.mem_filter.1 hp
    exact (hpair p hp).2.2 (hkept p hp)

end ReadContext

end

/-! ## A list of orders by their customers -/

/-- `sort=customer`, after a cursor. -/
def ordersByCustomer (selection : Option FieldSelection) : ListRequest where
  selection := selection
  sorts := [⟨"customer", false⟩]
  limit := 1
  hasCursor := true
  before := false
  o2mLimit := 50
  traceFormulas := false

theorem customer_sortColumn {selection : Option FieldSelection} :
    ∀ s ∈ (ordersByCustomer selection).sorts, SortColumn orderSchema s.field := by
  intro s hs
  obtain rfl := List.mem_singleton.1 hs
  refine ⟨fun f hf _ => ?_, fun f hf _ => ?_, by decide⟩
  · obtain rfl := List.mem_singleton.1 hf
    rfl
  · obtain rfl := List.mem_singleton.1 hf
    rfl

/-- `fields=id`: the column that the list is sorted by is not selected, and the cursor has null. -/
theorem unselected_sort_key :
    ¬ ∀ (N : Type) [JsNumber N] (S : ReadContext N) (K : Cipher) (c : EntitySchema N)
      (r : ListRequest) (rows items : List (Record N)), c ∈ S.all →
      (∀ row ∈ rows, row ∈ S.tables c.slug) → (∀ s ∈ r.sorts, SortColumn c s.field) →
      S.cursorPage K c r rows = .ok items →
      ∀ p ∈ cursors r rows items, p.2 = sortKeys p.1 r.sorts := by
  intro h
  have hcursors := h (Option Int) orderRead plainCipher orderSchema
    (ordersByCustomer (some (.node false ["id"] [] [] 0))) [orderRow] _ List.mem_cons_self
    (fun row hrow => hrow) customer_sortColumn rfl _ List.mem_cons_self
  cases hcursors

/-- A list of all columns. -/
theorem cursors_true_by_customer : ∃ items,
    orderRead.cursorPage plainCipher orderSchema (ordersByCustomer none) [orderRow] = .ok items ∧
      ∀ p ∈ cursors (ordersByCustomer none) [orderRow] items,
        p.2 = sortKeys p.1 (ordersByCustomer none).sorts := by
  have hrows : ∀ row ∈ [orderRow], row ∈ orderRead.tables orderSchema.slug := fun row hrow => hrow
  refine ⟨_, rfl, (ReadContext.cursors_true_iff List.mem_cons_self hrows
    customer_sortColumn rfl).2 fun row hrow s hs => ?_⟩
  obtain rfl := List.mem_singleton.1 hrow
  obtain rfl := List.mem_singleton.1 hs
  exact .inr ⟨by decide, by decide, fun s _ => ⟨rfl, fun hneeds => by cases hneeds⟩⟩

end HeadlessErp
