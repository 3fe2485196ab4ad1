import Mathlib
import HeadlessErp.Relations.Nested
import HeadlessErp.Relations.Resolver

/-!
# References into any collection

`M2AService.resolve` of `apps/api/src/plugins/m2a/service.ts`: the rows of all collections that a
page refers to are looked up by their ids alone. So a page is resolved as its items are just where no
two of them have one id in the columns of a field, but different types of which one has a live row with
the id (`resolves_iff`). With the other relations this is `expandsAlike_iff`.
-/

namespace HeadlessErp.M2AService

open Resolver

variable {N : Type} [JsNumber N] (S : ReadContext N)

/-! ## The service -/

/-- `M2AInfo`, but for the collections that are allowed. -/
structure M2AInfo where
  fieldName : String
  typeCol : String
  idCol : String

/-- The properties of an item that a field is about. -/
def M2AInfo.keys (m : M2AInfo) : List String := [m.fieldName, m.typeCol, m.idCol]

/-- The type and the id of an item, where both are texts. -/
def reference (m : M2AInfo) (item : Record N) : Option (String × String) :=
  match item.get m.typeCol, item.get m.idCol with
  | .str t, .str id => some (t, id)
  | _, _ => none

/-- `byType`. -/
def byType (m : M2AInfo) (items : List (Record N)) : JsMap String (List String) :=
  .grouped (items.filterMap (reference m))

/-- A row of a collection, with the name of the collection. -/
def typed (type : String) (row : Record N) : Record N :=
  (S.mergeRowData row).set "_type" (.str type)

/-- `lookup`. A table that does not exist has no rows. -/
def lookup (m : M2AInfo) (items : List (Record N)) : JsMap String (Record N) :=
  JsMap.empty.setAll ((byType m items).entries.flatMap fun entry =>
    ((S.liveRows entry.1).filter (textIn "id" entry.2)).map fun r =>
      ((r.get "id").toStr, typed S entry.1 r))

/-- What is assigned to an item. -/
def assign (m : M2AInfo) (value : Option (Record N)) (item : Record N) : Record N :=
  ((item.set m.fieldName (value.elim .null .obj)).erase m.idCol).erase m.typeCol

/-- An item of a page, for one field. -/
def resolveItem (m : M2AInfo) (items : List (Record N)) (item : Record N) : Record N :=
  if (byType m items).size = 0 then item
  else
    match item.get m.idCol with
    | .str id => assign m ((lookup S m items).get? id) item
    | _ => item

/-- `resolve`. -/
def resolve (items : List (Record N)) (fields : List M2AInfo) : List (Record N) :=
  fields.foldl (fun its m => its.map (resolveItem S m its)) items

/-! ## What an item refers to -/

/-- The live row of a collection with an id. -/
def liveRow (type id : String) : Option (Record N) :=
  ((S.liveRows type).find? (hasId id)).map (typed S type)

/-- An item whose field is resolved to the live row of its type with its id, or to `null`. -/
def expandItem (m : M2AInfo) (item : Record N) : Record N :=
  match item.get m.idCol with
  | .str id => assign m ((reference m item).bind fun r => liveRow S r.1 id) item
  | _ => item

/-- An item whose fields are all resolved. -/
def expand (fields : List M2AInfo) (item : Record N) : Record N :=
  fields.foldl (fun it m => expandItem S m it) item

/-- A page is resolved as its items are, and each of them to what it refers to. -/
structure Resolves (items : List (Record N)) (fields : List M2AInfo) : Prop where
  page : resolve S items fields = items.map (expand S fields)
  alone : ∀ item ∈ items, resolve S [item] fields = [expand S fields item]

/-- No id is without a type, and no two items have one id and different types of which one has a
live row with the id. -/
structure Unambiguous (m : M2AInfo) (items : List (Record N)) : Prop where
  typed : ∀ item ∈ items, ∀ id, item.get m.idCol = .str id → (reference m item).isSome = true
  one : ∀ i ∈ items, ∀ j ∈ items, ∀ t u id, reference m i = some (t, id) →
    reference m j = some (u, id) → (liveRow S u id).isSome = true → t = u

/-- The fields are about properties of their own. -/
def Apart (fields : List M2AInfo) : Prop := (fields.flatMap M2AInfo.keys).Nodup

/-! ## The lookup table -/

section
variable {S} {m : M2AInfo} {items : List (Record N)} {item row : Record N} {t u id : String}

omit [JsNumber N] in
theorem reference_eq_some : reference m item = some (t, id) ↔
    item.get m.typeCol = .str t ∧ item.get m.idCol = .str id := by
  unfold reference
  constructor
  · intro h
    split at h
    · next t' id' ht hid =>
      cases h
      exact ⟨ht, hid⟩
    · cases h
  · rintro ⟨ht, hid⟩
    rw [ht, hid]

omit [JsNumber N] in
theorem liveRow_eq_some {v : Record N} : liveRow S t id = some v ↔
    ∃ row ∈ S.liveRows t, row.get "id" = .str id ∧ typed S t row = v := by
  unfold liveRow
  rw [Option.map_eq_some_iff]
  constructor
  · rintro ⟨row, hfind, rfl⟩
    exact ⟨row, List.mem_of_find?_eq_some hfind,
      rowId_eq_some.1 (hasId_eq_true.1 (List.find?_some hfind)), rfl⟩
  · rintro ⟨row, hrow, hid, rfl⟩
    exact ⟨row, find?_hasId hrow hid, rfl⟩

omit [JsNumber N] in
/-- A row that is found tells its collection. -/
theorem type_of_liveRow {v : Record N} (h : liveRow S t id = some v) :
    v.get? "_type" = some (.str t) := by
  obtain ⟨row, -, -, rfl⟩ := liveRow_eq_some.1 h
  rw [typed, Record.get?_set, if_pos rfl]

omit [JsNumber N] in
/-- The ids of a type are those that the page refers to. -/
theorem mem_byType : (∃ ids, (t, ids) ∈ (byType m items).entries ∧ id ∈ ids) ↔
    ∃ item ∈ items, reference m item = some (t, id) := by
  have hgroup := JsMap.get?_grouped (k := t) (items.filterMap (reference m))
  have hmem : id ∈ ((items.filterMap (reference m)).filter (·.1 = t)).map (·.2) ↔
      ∃ item ∈ items, reference m item = some (t, id) := by
    simp [List.mem_filterMap]
  rw [← hmem, ← hgroup]
  simp only [← JsMap.get?_eq_some, byType]
  constructor
  · rintro ⟨ids, hids, hid⟩
    rwa [hids]
  · intro hid
    cases hget : (JsMap.grouped (items.filterMap (reference m))).get? t with
    | none =>
      rw [hget] at hid
      exact absurd hid List.not_mem_nil
    | some ids =>
      rw [hget] at hid
      exact ⟨ids, rfl, hid⟩

/-- The entries of the lookup table are the live rows that the page refers to. -/
theorem mem_lookup {v : Record N} :
    (id, v) ∈ ((byType m items).entries.flatMap fun entry =>
      ((S.liveRows entry.1).filter (textIn "id" entry.2)).map fun r =>
        ((r.get "id").toStr, typed S entry.1 r)) ↔
    ∃ item ∈ items, ∃ t, reference m item = some (t, id) ∧ liveRow S t id = some v := by
  simp only [List.mem_flatMap, List.mem_map, List.mem_filter, Prod.mk.injEq, textIn_eq_true]
  constructor
  · rintro ⟨⟨t, ids⟩, hentry, row, ⟨hrow, id', hid', hget⟩, htext, htyped⟩
    obtain rfl : id' = id := by
      rw [hget] at htext
      exact htext
    obtain ⟨item, hitem, href⟩ := mem_byType.1 ⟨ids, hentry, hid'⟩
    exact ⟨item, hitem, t, href, liveRow_eq_some.2 ⟨row, hrow, hget, htyped⟩⟩
  · rintro ⟨item, hitem, t, href, hlive⟩
    obtain ⟨row, hrow, hget, htyped⟩ := liveRow_eq_some.1 hlive
    obtain ⟨ids, hentry, hid⟩ := mem_byType.2 ⟨item, hitem, href⟩
    exact ⟨(t, ids), hentry, row, ⟨hrow, id, hid, hget⟩, congrArg JsVal.toStr hget, htyped⟩

/-- What is looked up is a live row that some item refers to. -/
theorem exists_of_get?_lookup {v : Record N} (h : (lookup S m items).get? id = some v) :
    ∃ item ∈ items, ∃ t, reference m item = some (t, id) ∧ liveRow S t id = some v := by
  rcases JsMap.mem_of_get?_setAll h with hmem | hget
  · exact mem_lookup.1 hmem
  · cases hget

/-- A live row that an item refers to leaves a row under its id. -/
theorem exists_get?_lookup {v : Record N} (hitem : item ∈ items)
    (href : reference m item = some (t, id)) (hlive : liveRow S t id = some v) :
    ∃ w, (lookup S m items).get? id = some w :=
  JsMap.exists_get?_setAll (mem_lookup.2 ⟨item, hitem, t, href, hlive⟩)

omit [JsNumber N] in
theorem size_byType : (byType m items).size = 0 ↔ ∀ item ∈ items, reference m item = none := by
  have hkeys : (byType m items).size = 0 ↔ ∀ k, k ∉ (byType m items).keys := by
    rw [JsMap.size, JsMap.keys, List.length_eq_zero_iff, ← List.eq_nil_iff_forall_not_mem,
      List.map_eq_nil_iff]
  rw [hkeys]
  simp only [byType, JsMap.mem_keys_grouped, List.mem_filterMap]
  constructor
  · intro h item hitem
    cases href : reference m item with
    | none => rfl
    | some r => exact absurd ⟨r, ⟨item, hitem, href⟩, rfl⟩ (h r.1)
  · rintro h k ⟨r, ⟨item, hitem, href⟩, -⟩
    rw [h item hitem] at href
    cases href

/-! ## One field -/

omit [JsNumber N] in
theorem get?_assign {value : Option (Record N)} {k : String} (h : k ∉ m.keys) :
    (assign m value item).get? k = item.get? k := by
  simp only [M2AInfo.keys, List.mem_cons, List.not_mem_nil, or_false, not_or] at h
  obtain ⟨hfield, htype, hid⟩ := h
  rw [assign, Record.get?_erase, if_neg (Ne.symm htype), Record.get?_erase, if_neg (Ne.symm hid),
    Record.get?_set, if_neg (Ne.symm hfield)]

omit [JsNumber N] in
theorem get?_idCol_assign {value : Option (Record N)} :
    (assign m value item).get? m.idCol = none := by
  rw [assign, Record.get?_erase]
  split
  · rfl
  · rw [Record.get?_erase, if_pos rfl]

omit [JsNumber N] in
theorem get?_fieldName_assign {value : Option (Record N)} (hkeys : m.keys.Nodup) :
    (assign m value item).get? m.fieldName = some (value.elim .null .obj) := by
  simp only [M2AInfo.keys, List.nodup_cons, List.mem_cons, List.not_mem_nil, or_false,
    not_or] at hkeys
  rw [assign, Record.get?_erase, if_neg (Ne.symm hkeys.1.1), Record.get?_erase,
    if_neg (Ne.symm hkeys.1.2), Record.get?_set, if_pos rfl]

theorem get?_resolveItem {k : String} (h : k ∉ m.keys) :
    (resolveItem S m items item).get? k = item.get? k := by
  unfold resolveItem
  split
  · rfl
  · split
    · exact get?_assign h
    · rfl

omit [JsNumber N] in
theorem get?_expandItem {k : String} (h : k ∉ m.keys) :
    (expandItem S m item).get? k = item.get? k := by
  unfold expandItem
  split
  · exact get?_assign h
  · rfl

/-- A page without ambiguous references is resolved as its items refer. -/
theorem Unambiguous.resolveItem_eq (h : Unambiguous S m items) (hitem : item ∈ items) :
    resolveItem S m items item = expandItem S m item := by
  unfold resolveItem expandItem
  split
  · next hsize =>
    split
    · next id hid =>
      have hsome := h.typed item hitem id hid
      rw [size_byType.1 hsize item hitem] at hsome
      cases hsome
    · rfl
  · split
    · next id hid =>
      congr 1
      obtain ⟨⟨t, id'⟩, href⟩ := Option.isSome_iff_exists.1 (h.typed item hitem id hid)
      obtain rfl : id = id' := by
        have hid' := (reference_eq_some.1 href).2
        rw [hid] at hid'
        exact JsVal.str.inj hid'
      rw [href, Option.bind_some]
      cases hlookup : (lookup S m items).get? id with
      | none =>
        refine (Option.eq_none_iff_forall_ne_some.2 fun v hv => ?_).symm
        obtain ⟨w, hw⟩ := exists_get?_lookup hitem href hv
        rw [hlookup] at hw
        cases hw
      | some v =>
        obtain ⟨j, hj, u, hrefj, hlive⟩ := exists_of_get?_lookup hlookup
        rw [h.one item hitem j hj t u id href hrefj (by rw [hlive]; rfl)]
        exact hlive.symm
    · rfl

omit [JsNumber N] in
/-- An item by itself is not ambiguous with another one. -/
theorem Unambiguous.singleton (h : Unambiguous S m items) (hitem : item ∈ items) :
    Unambiguous S m [item] := by
  have hsub : [item] ⊆ items := List.cons_subset.2 ⟨hitem, List.nil_subset _⟩
  exact ⟨fun i hi => h.typed i (hsub hi), fun i hi j hj => h.one i (hsub hi) j (hsub hj)⟩

/-- What a field is resolved to tells that no reference is ambiguous. -/
theorem unambiguous_of_get? (hkeys : m.keys.Nodup)
    (hpage : ∀ item ∈ items, (resolveItem S m items item).get? m.fieldName =
      (expandItem S m item).get? m.fieldName)
    (halone : ∀ item ∈ items, (resolveItem S m [item] item).get? m.idCol =
      (expandItem S m item).get? m.idCol) : Unambiguous S m items := by
  have htyped : ∀ item ∈ items, ∀ id, item.get m.idCol = .str id →
      (reference m item).isSome = true := by
    intro item hitem id hid
    by_contra hnone
    have hnone' : ∀ i ∈ [item], reference m i = none := by
      intro i hi
      rw [List.mem_singleton.1 hi]
      exact Option.not_isSome_iff_eq_none.1 hnone
    have hget := halone item hitem
    rw [resolveItem, if_pos (size_byType.2 hnone')] at hget
    unfold expandItem at hget
    rw [hid] at hget
    dsimp only at hget
    rw [get?_idCol_assign] at hget
    rw [Record.get_eq, hget] at hid
    cases hid
  have hsize : ∀ item ∈ items, ∀ r, reference m item = some r →
      (byType m items).size ≠ 0 := by
    intro item hitem r hr hzero
    rw [size_byType.1 hzero item hitem] at hr
    cases hr
  -- what is looked up is what each item with the id refers to
  have hvalue : ∀ item ∈ items, ∀ t id w, reference m item = some (t, id) →
      (lookup S m items).get? id = some w → liveRow S t id = some w := by
    intro item hitem t id w href hw
    have hget := hpage item hitem
    rw [resolveItem, if_neg (hsize item hitem _ href)] at hget
    unfold expandItem at hget
    rw [(reference_eq_some.1 href).2] at hget
    dsimp only at hget
    rw [get?_fieldName_assign hkeys, get?_fieldName_assign hkeys, hw, href,
      Option.bind_some] at hget
    cases hlive : liveRow S t id with
    | none =>
      rw [hlive] at hget
      cases hget
    | some v =>
      rw [hlive] at hget
      cases hget
      rfl
  refine ⟨htyped, fun i hi j hj t u id hrefi hrefj hsome => ?_⟩
  obtain ⟨v, hv⟩ := Option.isSome_iff_exists.1 hsome
  obtain ⟨w, hw⟩ := exists_get?_lookup hj hrefj hv
  have htype := type_of_liveRow (hvalue i hi t id w hrefi hw)
  rw [type_of_liveRow (hvalue j hj u id w hrefj hw)] at htype
  exact (JsVal.str.inj (Option.some.inj htype)).symm

/-! ## Fields one after another -/

/-- Fields apart from one are resolved item by item and leave it as it is. -/
theorem exists_map_resolve (fields : List M2AInfo) (items : List (Record N)) :
    ∃ g : Record N → Record N, resolve S items fields = items.map g ∧
      ∀ item, ∀ k ∉ fields.flatMap M2AInfo.keys, (g item).get? k = item.get? k := by
  induction fields generalizing items with
  | nil => exact ⟨id, (List.map_id _).symm, fun _ _ _ => rfl⟩
  | cons m fields ih =>
    obtain ⟨g, hg, hframe⟩ := ih (items.map (resolveItem S m items))
    refine ⟨fun item => g (resolveItem S m items item), ?_, ?_⟩
    · rw [resolve, List.foldl_cons, ← resolve, hg, List.map_map]
      rfl
    · intro item k hk
      rw [List.flatMap_cons, List.mem_append, not_or] at hk
      rw [hframe _ k hk.2, get?_resolveItem hk.1]

omit [JsNumber N] in
theorem get?_expand {fields : List M2AInfo} {k : String}
    (hk : k ∉ fields.flatMap M2AInfo.keys) (item : Record N) :
    (expand S fields item).get? k = item.get? k := by
  induction fields generalizing item with
  | nil => rfl
  | cons m fields ih =>
    rw [List.flatMap_cons, List.mem_append, not_or] at hk
    rw [expand, List.foldl_cons, ← expand, ih hk.2, get?_expandItem hk.1]

omit [JsNumber N] in
/-- Another field is as ambiguous after one is resolved as before. -/
theorem unambiguous_map {m' : M2AInfo} (h : m'.keys.Disjoint m.keys) :
    Unambiguous S m' (items.map (expandItem S m)) ↔ Unambiguous S m' items := by
  have hget (k : String) (hk : k ∈ m'.keys) (item : Record N) :
      (expandItem S m item).get k = item.get k := by
    rw [Record.get_eq, get?_expandItem fun hmem => h hk hmem, Record.get_eq]
  have href (item : Record N) : reference m' (expandItem S m item) = reference m' item := by
    simp only [reference, hget m'.typeCol (by simp [M2AInfo.keys]),
      hget m'.idCol (by simp [M2AInfo.keys])]
  constructor
  · intro hun
    refine ⟨fun item hitem id hid => ?_, fun i hi j hj t u id hi' hj' => ?_⟩
    · rw [← href]
      exact hun.typed _ (List.mem_map_of_mem hitem) id
        ((hget m'.idCol (by simp [M2AInfo.keys]) item).trans hid)
    · exact hun.one _ (List.mem_map_of_mem hi) _ (List.mem_map_of_mem hj) t u id
        ((href i).trans hi') ((href j).trans hj')
  · intro hun
    refine ⟨List.forall_mem_map.2 fun item hitem id hid => ?_,
      List.forall_mem_map.2 fun i hi => List.forall_mem_map.2 fun j hj t u id hi' hj' => ?_⟩
    · rw [href]
      exact hun.typed item hitem id
        ((hget m'.idCol (by simp [M2AInfo.keys]) item).symm.trans hid)
    · exact hun.one i hi j hj t u id ((href i).symm.trans hi') ((href j).symm.trans hj')

/-- The properties of the first field are not changed by the others. -/
theorem get?_of_resolve {fields : List M2AInfo}
    (h : resolve S items (m :: fields) = items.map (expand S (m :: fields))) {k : String}
    (hk : k ∉ fields.flatMap M2AInfo.keys) (hitem : item ∈ items) :
    (resolveItem S m items item).get? k = (expandItem S m item).get? k := by
  obtain ⟨g, hg, hframe⟩ := exists_map_resolve fields (items.map (resolveItem S m items))
  have heq : g (resolveItem S m items item) = expand S fields (expandItem S m item) := by
    rw [resolve, List.foldl_cons, ← resolve, hg, List.map_map] at h
    exact List.map_inj_left.1 h item hitem
  rw [← hframe _ k hk, heq, get?_expand hk]

/-- A page is resolved as its items are just where no reference is ambiguous. -/
theorem resolves_iff {fields : List M2AInfo} (hapart : Apart fields) :
    Resolves S items fields ↔ ∀ m ∈ fields, Unambiguous S m items := by
  induction fields generalizing items with
  | nil =>
    refine iff_of_true ⟨(List.map_id _).symm, fun _ _ => rfl⟩ fun m hm => ?_
    exact absurd hm List.not_mem_nil
  | cons m fields ih =>
    rw [Apart, List.flatMap_cons, List.nodup_append'] at hapart
    obtain ⟨hkeys, hrest, hdisjoint⟩ := hapart
    have hfield (m' : M2AInfo) (hm' : m' ∈ fields) : m'.keys.Disjoint m.keys :=
      fun k hk' hk => hdisjoint hk (List.mem_flatMap.2 ⟨m', hm', hk'⟩)
    rw [List.forall_mem_cons]
    constructor
    · intro h
      have hun : Unambiguous S m items := by
        refine unambiguous_of_get? hkeys (fun item hitem => ?_) fun item hitem => ?_
        · exact get?_of_resolve h.page (fun hmem => hdisjoint (by simp [M2AInfo.keys]) hmem) hitem
        · exact get?_of_resolve (h.alone item hitem)
            (fun hmem => hdisjoint (by simp [M2AInfo.keys]) hmem) List.mem_cons_self
      have hmap : items.map (resolveItem S m items) = items.map (expandItem S m) :=
        List.map_congr_left fun item hitem => hun.resolveItem_eq hitem
      have hresolves : Resolves S (items.map (expandItem S m)) fields := by
        refine ⟨?_, List.forall_mem_map.2 fun item hitem => ?_⟩
        · have hpage := h.page
          rw [resolve, List.foldl_cons, ← resolve, hmap] at hpage
          rw [hpage, List.map_map]
          rfl
        · have halone : resolve S [resolveItem S m [item] item] fields =
              [expand S (m :: fields) item] := h.alone item hitem
          rw [(hun.singleton hitem).resolveItem_eq List.mem_cons_self] at halone
          exact halone
      exact ⟨hun, fun m' hm' => (unambiguous_map (hfield m' hm')).1 ((ih hrest).1 hresolves m' hm')⟩
    · rintro ⟨hun, hothers⟩
      have hresolves : Resolves S (items.map (expandItem S m)) fields :=
        (ih hrest).2 fun m' hm' => (unambiguous_map (hfield m' hm')).2 (hothers m' hm')
      refine ⟨?_, fun item hitem => ?_⟩
      · have hmap : items.map (resolveItem S m items) = items.map (expandItem S m) :=
          List.map_congr_left fun item hitem => hun.resolveItem_eq hitem
        rw [resolve, List.foldl_cons, ← resolve, hmap, hresolves.page, List.map_map]
        rfl
      · have hone : resolve S [item] (m :: fields) =
            resolve S [resolveItem S m [item] item] fields := rfl
        rw [hone, (hun.singleton hitem).resolveItem_eq List.mem_cons_self]
        exact hresolves.alone _ (List.mem_map_of_mem hitem)

end

/-! ## All the relations of a page -/

/-- A page with the relations that are expanded. -/
structure PageRequest (S : ReadContext N) where
  items : List (Record N)
  m2o : List M2OField
  columns : ColumnsByTable
  o2m : List O2MField
  limit : ℕ
  answers : Answers N
  m2a : List M2AInfo
  ids : HaveIds items
  rows_nodup : RowsNodup S
  apart : Apart m2a

variable {S}

/-- The page is expanded as its items are, and these are expanded as they should. -/
structure PageRequest.ExpandsAlike (p : PageRequest S) : Prop where
  m2o : resolveM2O S p.columns p.items p.m2o = p.items.map (expandM2O S p.columns p.m2o)
  m2o_alone : ∀ item ∈ p.items,
    resolveM2O S p.columns [item] p.m2o = [expandM2O S p.columns p.m2o item]
  o2m : ∃ items', resolveO2M S p.answers p.items p.o2m p.limit = .ok items' ∧
    List.Forall₂ (ExpandsO2M S p.o2m p.limit) p.items items'
  o2m_alone : ∀ item ∈ p.items, ∃ items',
    resolveO2M S p.answers [item] p.o2m p.limit = .ok items' ∧
      List.Forall₂ (ExpandsO2M S p.o2m p.limit) [item] items'
  m2a : Resolves S p.items p.m2a

/-- No id is a property that every object has, where children are fetched, and no reference into any
collection is ambiguous. -/
structure PageRequest.Plain (p : PageRequest S) : Prop where
  ids : p.o2m = [] ∨ ∀ item ∈ p.items, ∀ id, item.get "id" = .str id → id ∉ inheritedNames
  references : ∀ m ∈ p.m2a, Unambiguous S m p.items

omit [JsNumber N] in
theorem haveIds_singleton {items : List (Record N)} (h : HaveIds items) {item : Record N}
    (hitem : item ∈ items) : HaveIds [item] :=
  List.forall_mem_singleton.2 (h item hitem)

/-- A page is expanded as its items are just where its ids and references are plain. -/
theorem expandsAlike_iff (p : PageRequest S) : p.ExpandsAlike ↔ p.Plain := by
  constructor
  · intro h
    refine ⟨?_, (resolves_iff p.apart).1 h.m2a⟩
    by_cases hfields : p.o2m = []
    · exact .inl hfields
    · refine .inr fun item hitem id hid => ?_
      obtain ⟨items', hok, hexpands⟩ := h.o2m_alone item hitem
      exact plain_of_resolveO2M (haveIds_singleton p.ids hitem) hok hexpands hfields hid
  · intro h
    refine ⟨resolveM2O_eq _ _ _, fun item _ => resolveM2O_eq _ _ _, ?_, fun item hitem => ?_,
      (resolves_iff p.apart).2 h.references⟩
    · exact resolveO2M_expands p.rows_nodup p.ids h.ids
    · refine resolveO2M_expands p.rows_nodup (haveIds_singleton p.ids hitem) (h.ids.imp_right ?_)
      exact fun hplain => List.forall_mem_singleton.2 (hplain item hitem)

/-! ## One id in two collections -/

/-- The tables of a post and a page with one id. -/
def postTables (slug : String) : List (Record (Option Int)) :=
  if slug = "posts" ∨ slug = "pages" then [[("id", .str "x1")]] else []

theorem postTables_eq {slug : String} {row : Record (Option Int)} (h : row ∈ postTables slug) :
    row = [("id", .str "x1")] := by
  unfold postTables at h
  split at h
  · exact List.mem_singleton.1 h
  · cases h

theorem postTables_id (slug : String) (row : Record (Option Int)) (h : row ∈ postTables slug) :
    ∃ id, row.get? "id" = some (.str id) ∧ id ≠ "" := by
  rw [postTables_eq h]
  exact ⟨"x1", rfl, by decide⟩

/-- A post and a page. -/
def postAndPage : ReadContext (Option Int) where
  all := []
  slugs_nodup := List.nodup_nil
  names_nodup := List.forall_mem_nil _
  tables := postTables
  junctions _ := []
  engine := textEngine
  auth := none
  rowFilter _ := none
  fieldRestrictions _ := none
  parseJson _ := none
  registry _ := none
  id_text := postTables_id
  id_unique _ _ hrow _ hrow' _ := (postTables_eq hrow).trans (postTables_eq hrow').symm
  meta_reserved := List.forall_mem_nil _

/-- A comment on the post, and one on the page. -/
def commentItems : List (Record (Option Int)) :=
  [[("id", .str "c1"), ("subject_type", .str "posts"), ("subject_id", .str "x1")],
    [("id", .str "c2"), ("subject_type", .str "pages"), ("subject_id", .str "x1")]]

/-- What a comment is on. -/
def subject : M2AInfo := ⟨"subject", "subject_type", "subject_id"⟩

theorem haveIds_commentItems : HaveIds commentItems := by
  refine List.forall_mem_cons.2 ⟨⟨"c1", rfl, by decide⟩, List.forall_mem_singleton.2 ?_⟩
  exact ⟨"c2", rfl, by decide⟩

theorem rowsNodup_postAndPage : RowsNodup postAndPage := by
  intro slug
  simp only [postAndPage, postTables]
  split
  · exact List.nodup_singleton _
  · exact List.nodup_nil

theorem apart_subject : Apart [subject] := by
  unfold Apart
  decide

/-- The page of the comments. -/
def twoComments : PageRequest postAndPage where
  items := commentItems
  m2o := []
  columns := ⟨fun _ => none, fun _ _ h => (Option.some_ne_none _ h.symm).elim⟩
  o2m := []
  limit := 50
  answers := ⟨id, List.Perm.refl⟩
  m2a := [subject]
  ids := haveIds_commentItems
  rows_nodup := rowsNodup_postAndPage
  apart := apart_subject

/-- The post of the first comment is taken for the page. -/
theorem not_expandsAlike_twoComments :
    ¬ ∀ (S : ReadContext (Option Int)) (p : PageRequest S), p.ExpandsAlike := by
  intro h
  have hplain := (expandsAlike_iff twoComments).1 (h postAndPage twoComments)
  have hone := (hplain.references _ List.mem_cons_self).one _ List.mem_cons_self _
    (List.mem_cons_of_mem _ List.mem_cons_self) "posts" "pages" "x1" rfl rfl rfl
  exact absurd hone (by decide)

end HeadlessErp.M2AService
