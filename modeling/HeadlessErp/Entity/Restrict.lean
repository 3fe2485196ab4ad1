import Mathlib.Data.List.Nodup
import HeadlessErp.Base.Transition
import HeadlessErp.Entity.Cascade

/-!
# References that restrict

The operations on the tables, as a transition system. A field that says `cascade_delete: false` is
meant to keep the row it points at from being deleted. The guard of `softDeleteItem` asks for the
live rows that point at the row of the request; the rows that the cascade takes with it, the rows of
`hardDeleteItem` and of a replaced child table are not asked for, and neither are the targets of a row
that is written or restored. `RestrictKept` is the condition under which no reference is broken.
-/

namespace HeadlessErp

open Relation (ReflTransGen)

/-- The tables, and the keys of the rows that have been removed from them. -/
structure StoreState (N : Type) where
  tables : Tables N
  removed : List (String × String)

/-- An operation on the tables. The child rows of a `createItem` or an `updateItem`, and the stored
formulas that follow a write, are operations of their own. -/
inductive StoreAction (N : Type) where
  | create (slug id : String) (d : UserColumns N)
  | update (slug id : String) (request : RequestContext N) (d : UserColumns N)
  | createChildren (slug id fieldName : String) (items : List (String × UserColumns N))
  | replaceChildren (slug id fieldName : String) (items : List (String × UserColumns N))
  | softDelete (slug id : String) (request : RequestContext N) (now : IsoTime)
  | restore (slug id : String) (request : RequestContext N) (now : IsoTime)
  | hardDelete (slug id : String) (request : RequestContext N) (now : IsoTime)
  | recalc (slug id : String) (computed : Record N)

section
variable {N : Type}

/-- The collection of the child rows of a field. -/
def childCollection (all : List (EntitySchema N)) (slug fieldName : String) :
    Except ApiError (Option String) := do
  let c ← getCollection all slug
  .ok (childSlug c all fieldName)

/-- The UPDATE of stored formulas. -/
def writeComputed (all : List (EntitySchema N)) (slug id : String) (computed : Record N)
    (t : Tables N) : Except ApiError (Tables N) := do
  let c ← getCollection all slug
  if computed.all fun kv => c.info.schemaFields.any fun f => f.isStored && f.name = kv.1 then
    .ok (t.modify slug (updateWhere (hasId id) computed))
  else .error (.internal "no such column")

/-- The tables after an operation. -/
def StoreAction.apply [JsNumber N] (all : List (EntitySchema N)) (t : Tables N) :
    StoreAction N → Except ApiError (Tables N)
  | .create slug id d => insertItem all slug id d t
  | .update slug id request d => writeItem all slug id request d t
  | .createChildren slug id fieldName items => do
    match ← childCollection all slug fieldName with
    | some child => .ok (HeadlessErp.createChildren id child items t)
    | none => .ok t
  | .replaceChildren slug id fieldName items => do
    match ← childCollection all slug fieldName with
    | some child => .ok (HeadlessErp.replaceChildren id child items t)
    | none => .ok t
  | .softDelete slug id request now => softDeleteItem all slug id request now t
  | .restore slug id request now => restoreItem all slug id request now t
  | .hardDelete slug id request now => hardDeleteItem all slug id request now t
  | .recalc slug id computed => writeComputed all slug id computed t

/-- A live row has the id. -/
def Tables.Live (t : Tables N) (slug id : String) : Prop :=
  ∃ row ∈ t slug, isLive row = true ∧ rowId row = some id

/-- A row has the id. -/
def Tables.Stored (t : Tables N) (slug id : String) : Prop := ∃ row ∈ t slug, rowId row = some id

namespace StoreState
variable (s : StoreState N) (all : List (EntitySchema N))

/-- The state with other tables. -/
def after (t : Tables N) : StoreState N where
  tables := t
  removed := s.removed ++ (tableKeys all s.tables).filter (!(tableKeys all t).contains ·)

/-- A row that is in the trash, or has been removed. -/
def Deleted (slug id : String) : Prop :=
  ¬ s.tables.Live slug id ∧ (s.tables.Stored slug id ∨ (slug, id) ∈ s.removed)

/-- No live row points at a deleted row with a field that restricts. -/
def RestrictSafe : Prop :=
  ∀ slug c fieldName, (c, fieldName) ∈ restrictMap all slug →
    ∀ row ∈ s.tables c.slug, isLive row = true → ∀ id, row.get fieldName = .str id →
      ¬ s.Deleted slug id

/-- The columns of a row point at no deleted row with a field that restricts. -/
def RefersToKept (slug : String) (row : Record N) : Prop :=
  ∀ target c fieldName, (c, fieldName) ∈ restrictMap all target → c.slug = slug →
    ∀ id, row.get fieldName = .str id → ¬ s.Deleted target id

/-- What a cascade takes with it from a row, the row among it. -/
def Takes (root k : String × String) : Prop := ReflTransGen (CascadesTo all s.tables) root k

/-- The live rows that point at a row with a field that restricts are taken too. -/
def BlockersTaken (root k : String × String) : Prop :=
  ∀ c fieldName, (c, fieldName) ∈ restrictMap all k.1 →
    ∀ row ∈ s.tables c.slug, isLive row = true → row.get fieldName = .str k.2 →
      ∃ id, rowId row = some id ∧ s.Takes all root (c.slug, id)

/-- The condition on an operation. A row that is written or restored points at no deleted row with a
field that restricts. What a deletion takes with it (the row itself, for a hard deletion) is pointed at
by such a field only from rows that it takes too. The child rows that are replaced are not pointed at
by such a field. -/
def RestrictKept : StoreAction N → Prop
  | .create slug _ d => s.RefersToKept all slug d.columns
  | .update slug _ _ d => s.RefersToKept all slug d.columns
  | .createChildren slug id fieldName items =>
    ∀ child, childCollection all slug fieldName = .ok (some child) →
      ∀ item ∈ items, s.RefersToKept all child (childRow id item)
  | .replaceChildren slug id fieldName items =>
    ∀ child, childCollection all slug fieldName = .ok (some child) →
      (∀ item ∈ items, s.RefersToKept all child (childRow id item)) ∧
      ∀ c name, (c, name) ∈ restrictMap all child → ∀ row ∈ s.tables c.slug, isLive row = true →
        ∀ old ∈ s.tables child, textIn "parent_id" [id] old = true →
          ∀ oldId, rowId old = some oldId → row.get name ≠ .str oldId
  | .softDelete slug id _ _ =>
    ∀ k, s.Takes all (slug, id) k → k ≠ (slug, id) → s.BlockersTaken all (slug, id) k
  | .hardDelete slug id _ _ =>
    ∀ k, s.Takes all (slug, id) k → s.BlockersTaken all (slug, id) k
  | .restore slug id _ _ =>
    ∀ row ∈ s.tables slug, rowId row = some id → s.RefersToKept all slug row
  | .recalc _ _ _ => True

end StoreState

/-- The operations on a consistent database. An operation that fails leaves it. -/
def StoreSchema.system [JsNumber N] (D : StoreSchema N) : System (StoreState N) (StoreAction N) where
  init s := s.RestrictSafe D.all
  step s a :=
    match a.apply D.all s.tables with
    | .ok t => some (s.after D.all t)
    | .error _ => some s

/-! ## What keeps the references -/

section
variable {all : List (EntitySchema N)} {s : StoreState N} {t : Tables N} {slug id : String}

theorem mem_inboundFields {flag : Bool} {c : EntitySchema N} {fieldName : String}
    (h : (c, fieldName) ∈ inboundFields all flag slug) :
    c ∈ all ∧ c.slug ≠ slug ∧ ∃ f ∈ c.info.schemaFields, f.name = fieldName ∧ f.type = .m2o ∧
      f.cascadeDelete = some flag ∧ f.relatedCollection = some slug := by
  obtain ⟨c', hc', hmem⟩ := List.mem_flatMap.1 h
  split at hmem
  · cases hmem
  · next hne =>
    obtain ⟨f, hf, heq⟩ := List.mem_map.1 hmem
    cases heq
    obtain ⟨hfields, hp⟩ := List.mem_filter.1 hf
    simp only [Bool.and_eq_true, decide_eq_true_eq] at hp
    exact ⟨hc', hne, f, hfields, rfl, hp.1.1, hp.1.2, hp.2⟩

/-- A field that points at another collection is no column of the engine. -/
theorem ne_of_mem_inboundFields {flag : Bool} {c : EntitySchema N} {fieldName : String}
    (h : (c, fieldName) ∈ inboundFields all flag slug) {k : String} (hk : k ∈ systemFieldNames) :
    k ≠ fieldName := by
  obtain ⟨-, -, f, hf, rfl, -⟩ := mem_inboundFields h
  rintro rfl
  exact c.info.fields_user f hf hk

theorem mem_tableKeys_iff {all : List (EntitySchema N)} {t : Tables N} :
    (slug, id) ∈ tableKeys all t ↔ (∃ c ∈ all, c.slug = slug) ∧ t.Stored slug id := by
  unfold tableKeys Tables.Stored
  rw [List.mem_flatMap]
  constructor
  · rintro ⟨c, hc, hmem⟩
    obtain ⟨id', hid', heq⟩ := List.mem_map.1 hmem
    obtain ⟨row, hrow, hrowId⟩ := List.mem_filterMap.1 hid'
    obtain ⟨rfl, rfl⟩ := Prod.mk.inj heq
    exact ⟨⟨c, hc, rfl⟩, row, hrow, hrowId⟩
  · rintro ⟨⟨c, hc, rfl⟩, row, hrow, hrowId⟩
    exact ⟨c, hc, List.mem_map_of_mem (List.mem_filterMap.2 ⟨row, hrow, hrowId⟩)⟩

/-- An operation that keeps live what the live rows point at, and adds live rows only. -/
theorem StoreState.RestrictSafe.after
    (hrefs : ∀ target c fieldName, (c, fieldName) ∈ restrictMap all target →
      ∀ row ∈ t c.slug, isLive row = true → ∀ x, row.get fieldName = .str x →
        ¬ s.Deleted target x ∧ (s.tables.Live target x → t.Live target x))
    (hstored : ∀ target x, t.Stored target x → s.tables.Stored target x ∨ t.Live target x) :
    (s.after all t).RestrictSafe all := by
  intro target c fieldName hfield row hrow hlive x hx hdeleted
  obtain ⟨hkept, hmono⟩ := hrefs target c fieldName hfield row hrow hlive x hx
  obtain ⟨hnot, hgone⟩ := hdeleted
  have hdead : ¬ s.tables.Live target x := fun h => hnot (hmono h)
  refine hkept ⟨hdead, ?_⟩
  obtain hgone | hgone := hgone
  · obtain hold | hnew := hstored target x hgone
    · exact .inl hold
    · exact absurd hnew hnot
  · obtain hgone | hgone := List.mem_append.1 hgone
    · exact .inr hgone
    · exact .inl (mem_tableKeys_iff.1 (List.mem_filter.1 hgone).1).2

/-- A change of a row leaves its id, and its place in the trash. -/
structure KeepsTrash (f : Record N → Record N) : Prop where
  id : ∀ row, rowId (f row) = rowId row
  live : ∀ row, isLive (f row) = isLive row

/-- Other columns of the rows of a table. -/
theorem StoreState.RestrictSafe.map (h : s.RestrictSafe all) {f : Record N → Record N}
    (hf : KeepsTrash f) (hrefs : ∀ target c fieldName, (c, fieldName) ∈ restrictMap all target →
      c.slug = slug → ∀ row x, (f row).get fieldName = .str x →
        row.get fieldName = .str x ∨ ¬ s.Deleted target x) :
    (s.after all (s.tables.modify slug (·.map f))).RestrictSafe all := by
  refine StoreState.RestrictSafe.after ?_ ?_
  · intro target c fieldName hfield row' hrow' hlive' x hx
    refine ⟨?_, ?_⟩
    · by_cases hc : c.slug = slug
      · rw [hc, modify_self] at hrow'
        obtain ⟨row, hrow, rfl⟩ := List.mem_map.1 hrow'
        obtain hold | hkept := hrefs target c fieldName hfield hc row x hx
        · refine h target c fieldName hfield row (hc ▸ hrow) ?_ x hold
          rw [← hf.live row]
          exact hlive'
        · exact hkept
      · rw [modify_of_ne _ hc] at hrow'
        exact h target c fieldName hfield row' hrow' hlive' x hx
    · rintro ⟨row, hrow, hlive, hid⟩
      by_cases htarget : target = slug
      · subst htarget
        refine ⟨f row, ?_, (hf.live row).trans hlive, (hf.id row).trans hid⟩
        rw [modify_self]
        exact List.mem_map_of_mem hrow
      · exact ⟨row, by rwa [modify_of_ne _ htarget], hlive, hid⟩
  · rintro target x ⟨row', hrow', hid⟩
    refine .inl ?_
    by_cases htarget : target = slug
    · subst htarget
      rw [modify_self] at hrow'
      obtain ⟨row, hrow, rfl⟩ := List.mem_map.1 hrow'
      exact ⟨row, hrow, (hf.id row).symm.trans hid⟩
    · rw [modify_of_ne _ htarget] at hrow'
      exact ⟨row', hrow', hid⟩

/-- New rows, in the place of rows that no live row points at with a field that restricts. -/
theorem StoreState.RestrictSafe.replace (h : s.RestrictSafe all) {g : Record N → Bool}
    {rows : List (Record N)} (hlive : ∀ row ∈ rows, isLive row = true)
    (hrefs : ∀ row ∈ rows, s.RefersToKept all slug row)
    (hgone : ∀ c name, (c, name) ∈ restrictMap all slug → ∀ row ∈ s.tables c.slug,
      isLive row = true → ∀ old ∈ s.tables slug, g old = true →
        ∀ oldId, rowId old = some oldId → row.get name ≠ .str oldId) :
    (s.after all (s.tables.modify slug (deleteWhere g · ++ rows))).RestrictSafe all := by
  have hcases (c : String) (row : Record N)
      (hrow : row ∈ s.tables.modify slug (deleteWhere g · ++ rows) c) :
      row ∈ s.tables c ∨ c = slug ∧ row ∈ rows := by
    by_cases hc : c = slug
    · subst hc
      rw [modify_self] at hrow
      exact (List.mem_append.1 hrow).imp (fun hold => (List.mem_filter.1 hold).1)
        fun hnew => ⟨rfl, hnew⟩
    · rw [modify_of_ne _ hc] at hrow
      exact .inl hrow
  have hkeep (c : String) (row : Record N) (hrow : row ∈ s.tables c)
      (hnot : c = slug → g row = false) :
      row ∈ s.tables.modify slug (deleteWhere g · ++ rows) c := by
    by_cases hc : c = slug
    · subst hc
      rw [modify_self]
      exact List.mem_append_left _ (List.mem_filter.2 ⟨hrow, by simp [hnot rfl]⟩)
    · rwa [modify_of_ne _ hc]
  refine StoreState.RestrictSafe.after ?_ ?_
  · intro target c fieldName hfield row hrow hlive' x hx
    obtain hold | ⟨hc, hnew⟩ := hcases c.slug row hrow
    · refine ⟨h target c fieldName hfield row hold hlive' x hx, ?_⟩
      rintro ⟨r, hr, hrlive, hrid⟩
      refine ⟨r, hkeep target r hr fun htarget => Bool.eq_false_iff.2 fun hr' => ?_, hrlive, hrid⟩
      subst htarget
      exact hgone c fieldName hfield row hold hlive' r hr hr' x hrid hx
    · refine ⟨hrefs row hnew target c fieldName hfield hc x hx, ?_⟩
      rintro ⟨r, hr, hrlive, hrid⟩
      refine ⟨r, hkeep target r hr fun htarget => ?_, hrlive, hrid⟩
      exact absurd (hc.trans htarget.symm) (mem_inboundFields hfield).2.1
  · rintro target x ⟨row, hrow, hid⟩
    obtain hold | ⟨-, hnew⟩ := hcases target row hrow
    · exact .inl ⟨row, hold, hid⟩
    · exact .inr ⟨row, hrow, hlive row hnew, hid⟩

theorem deleteWhere_false (rows : List (Record N)) : deleteWhere (fun _ => false) rows = rows :=
  List.filter_eq_self.2 fun _ _ => rfl

/-- New rows. -/
theorem StoreState.RestrictSafe.append (h : s.RestrictSafe all) {rows : List (Record N)}
    (hlive : ∀ row ∈ rows, isLive row = true) (hrefs : ∀ row ∈ rows, s.RefersToKept all slug row) :
    (s.after all (s.tables.modify slug (· ++ rows))).RestrictSafe all := by
  have hreplace := h.replace (g := fun _ => false) hlive hrefs
    fun _ _ _ _ _ _ _ _ hgone => nomatch hgone
  simp only [deleteWhere_false] at hreplace
  exact hreplace

theorem StoreState.RestrictSafe.unchanged (h : s.RestrictSafe all) :
    (s.after all s.tables).RestrictSafe all :=
  .after (fun target c fieldName hfield row hrow hlive x hx =>
    ⟨h target c fieldName hfield row hrow hlive x hx, fun hl => hl⟩) fun _ _ hs => .inl hs

/-! ## Writes -/

theorem isLive_of_none {row : Record N} (h : row.get? "deleted_at" = none) : isLive row = true := by
  rw [isLive, Record.get_eq, h]
  rfl

/-- Columns that are neither the id nor the trash. -/
theorem keepsTrash_assign {p : Record N → Bool} {d : Record N} (hid : d.get? "id" = none)
    (hdeleted : d.get? "deleted_at" = none) :
    KeepsTrash fun row => if p row then row.assign d else row where
  id row := by
    split
    · unfold rowId
      rw [get_assign_of_none hid]
    · rfl
  live row := by
    split
    · unfold isLive
      rw [get_assign_of_none hdeleted]
    · rfl

/-- A column of a row that was written. -/
theorem get_ite_assign {p : Record N → Bool} {d row : Record N} {k x : String}
    (h : (if p row then row.assign d else row).get k = .str x) :
    row.get k = .str x ∨ d.get k = .str x := by
  split at h
  · rw [Record.get_eq, Record.get?_assign] at h
    cases hd : d.get? k with
    | none =>
      rw [hd, Option.none_or] at h
      exact .inl h
    | some v =>
      rw [hd] at h
      exact .inr (by rw [Record.get_eq, hd]; exact h)
  · exact .inl h

/-- A write of columns that point at no deleted row. -/
theorem StoreState.RestrictSafe.write (h : s.RestrictSafe all) {p : Record N → Bool}
    {d : Record N} (hid : d.get? "id" = none) (hdeleted : d.get? "deleted_at" = none)
    (hrefs : s.RefersToKept all slug d) :
    (s.after all (s.tables.modify slug (updateWhere p d))).RestrictSafe all := by
  refine h.map (keepsTrash_assign hid hdeleted) fun target c fieldName hfield hc row x hx => ?_
  exact (get_ite_assign hx).imp_right fun hd => hrefs target c fieldName hfield hc x hd

theorem StoreState.RestrictSafe.insertItem (h : s.RestrictSafe all) {d : UserColumns N}
    (hrefs : s.RefersToKept all slug d.columns) (hok : insertItem all slug id d s.tables = .ok t) :
    (s.after all t).RestrictSafe all := by
  obtain ⟨c, _, hok⟩ := exists_of_bind_eq_ok hok
  obtain ⟨_, _, hok⟩ := exists_of_bind_eq_ok hok
  split at hok
  · cases hok
  · cases hok
    refine h.append (fun row hrow => ?_) fun row hrow => ?_
    · rw [List.mem_singleton.1 hrow]
      refine isLive_of_none ?_
      rw [UserColumns.row, Record.get?_cons, if_neg (show "id" ≠ "deleted_at" by decide),
        d.deletedAt_none]
    · rw [List.mem_singleton.1 hrow]
      intro target c fieldName hfield hc x hx
      refine hrefs target c fieldName hfield hc x ?_
      have hne : "id" ≠ fieldName := ne_of_mem_inboundFields hfield (by decide)
      rwa [UserColumns.row, Record.get_eq, Record.get?_cons, if_neg hne] at hx

theorem StoreState.RestrictSafe.writeItem [JsNumber N] (h : s.RestrictSafe all) {d : UserColumns N}
    {request : RequestContext N} (hrefs : s.RefersToKept all slug d.columns)
    (hok : writeItem all slug id request d s.tables = .ok t) :
    (s.after all t).RestrictSafe all := by
  obtain ⟨c, _, hok⟩ := exists_of_bind_eq_ok hok
  obtain ⟨_, _, hok⟩ := exists_of_bind_eq_ok hok
  obtain ⟨_, _, hok⟩ := exists_of_bind_eq_ok hok
  obtain ⟨existing, _, hok⟩ := exists_of_bind_eq_ok hok
  obtain ⟨_, _, hok⟩ := exists_of_bind_eq_ok hok
  obtain ⟨_, _, hok⟩ := exists_of_bind_eq_ok hok
  cases hok
  exact h.write d.id_none d.deletedAt_none hrefs

theorem isLive_childRow (parentId : String) (item : String × UserColumns N) :
    isLive (childRow parentId item) = true := by
  refine isLive_of_none ?_
  rw [childRow, Record.get?_assign, item.2.deletedAt_none]
  rfl

theorem StoreState.RestrictSafe.createChildren (h : s.RestrictSafe all)
    {items : List (String × UserColumns N)}
    (hrefs : ∀ item ∈ items, s.RefersToKept all slug (childRow id item)) :
    (s.after all (createChildren id slug items s.tables)).RestrictSafe all := by
  refine h.append (fun row hrow => ?_) fun row hrow => ?_
  · obtain ⟨item, _, rfl⟩ := List.mem_map.1 hrow
    exact isLive_childRow id item
  · obtain ⟨item, hitem, rfl⟩ := List.mem_map.1 hrow
    exact hrefs item hitem

theorem StoreState.RestrictSafe.replaceChildren (h : s.RestrictSafe all)
    {items : List (String × UserColumns N)}
    (hrefs : ∀ item ∈ items, s.RefersToKept all slug (childRow id item))
    (hgone : ∀ c name, (c, name) ∈ restrictMap all slug → ∀ row ∈ s.tables c.slug,
      isLive row = true → ∀ old ∈ s.tables slug, textIn "parent_id" [id] old = true →
        ∀ oldId, rowId old = some oldId → row.get name ≠ .str oldId) :
    (s.after all (replaceChildren id slug items s.tables)).RestrictSafe all := by
  unfold HeadlessErp.replaceChildren HeadlessErp.createChildren
  rw [modify_modify]
  refine h.replace (fun row hrow => ?_) (fun row hrow => ?_) hgone
  · obtain ⟨item, _, rfl⟩ := List.mem_map.1 hrow
    exact isLive_childRow id item
  · obtain ⟨item, hitem, rfl⟩ := List.mem_map.1 hrow
    exact hrefs item hitem

theorem eq_of_getCollection {c c' : EntitySchema N} (hn : (all.map (·.slug)).Nodup)
    (hget : getCollection all slug = .ok c) (hc' : c' ∈ all) (hslug : c'.slug = slug) : c' = c := by
  unfold getCollection at hget
  split at hget
  · next found hfind =>
    cases hget
    have hfound : c.slug = slug := by simpa using List.find?_some hfind
    exact List.inj_on_of_nodup_map hn hc' (List.mem_of_find?_eq_some hfind)
      (hslug.trans hfound.symm)
  · cases hget

/-- Stored formulas are no fields that point at another collection. -/
theorem StoreState.RestrictSafe.writeComputed {D : StoreSchema N} (h : s.RestrictSafe D.all)
    {computed : Record N} (hok : writeComputed D.all slug id computed s.tables = .ok t) :
    (s.after D.all t).RestrictSafe D.all := by
  obtain ⟨c, hc, hok⟩ := exists_of_bind_eq_ok hok
  split at hok
  · next hstored =>
    cases hok
    have hfield (kv : String × JsVal N) (hkv : kv ∈ computed) :
        ∃ f ∈ c.info.schemaFields, f.isStored = true ∧ f.name = kv.1 := by
      obtain ⟨f, hf, hp⟩ := List.any_eq_true.1 (List.all_eq_true.1 hstored kv hkv)
      obtain ⟨hs, hname⟩ := Bool.and_eq_true_iff.1 hp
      exact ⟨f, hf, hs, of_decide_eq_true hname⟩
    have hsystem (k : String) (hk : k ∈ systemFieldNames) : computed.get? k = none :=
      get?_eq_none_of_stored hfield hk
    refine h.write (hsystem _ (by decide)) (hsystem _ (by decide)) ?_
    intro target c' fieldName hrestrict hslug x hx
    obtain ⟨hall, -, f, hf, hname, hm2o, -⟩ := mem_inboundFields hrestrict
    obtain rfl := eq_of_getCollection D.slugs_nodup hc hall hslug
    have hnone : computed.get? fieldName = none := by
      refine Record.get?_eq_none fun kv hkv hkey => ?_
      obtain ⟨g, hg, hgs, hgname⟩ := hfield kv hkv
      have heq : g = f := List.inj_on_of_nodup_map (D.names_nodup c' hall) hg hf
        ((hgname.trans hkey).trans hname.symm)
      rw [heq, FieldDefinition.isStored, hm2o] at hgs
      cases hgs
    rw [Record.get_eq, hnone] at hx
    cases hx
  · cases hok

/-! ## Restores and deletions -/

/-- A row that leaves the trash points at no deleted row. -/
theorem StoreState.RestrictSafe.restoreItem [JsNumber N] (h : s.RestrictSafe all)
    {request : RequestContext N} {now : IsoTime}
    (hrefs : ∀ row ∈ s.tables slug, rowId row = some id → s.RefersToKept all slug row)
    (hok : restoreItem all slug id request now s.tables = .ok t) :
    (s.after all t).RestrictSafe all := by
  obtain ⟨c, _, hok⟩ := exists_of_bind_eq_ok hok
  obtain ⟨_, _, hok⟩ := exists_of_bind_eq_ok hok
  obtain ⟨_, _, hok⟩ := exists_of_bind_eq_ok hok
  obtain ⟨existing, _, hok⟩ := exists_of_bind_eq_ok hok
  split at hok
  · obtain ⟨_, _, hok⟩ := exists_of_bind_eq_ok hok
    obtain ⟨_, _, hok⟩ := exists_of_bind_eq_ok hok
    cases hok
    have hid (row : Record N) : rowId (if hasId id row then row.assign
        [("deleted_at", .null), ("updated_at", .str now.text)] else row) = rowId row := by
      split
      · unfold rowId
        rw [get_assign_of_none rfl]
      · rfl
    refine StoreState.RestrictSafe.after ?_ ?_
    · intro target c' fieldName hfield row' hrow' hlive' x hx
      refine ⟨?_, ?_⟩
      · by_cases hc' : c'.slug = slug
        · rw [hc', modify_self] at hrow'
          obtain ⟨row, hrow, rfl⟩ := mem_updateWhere hrow'
          by_cases hrestored : hasId id row = true
          · -- the restored row
            rw [if_pos hrestored, get_assign_of_none] at hx
            · exact hrefs row hrow (hasId_eq_true.1 hrestored) target c' fieldName hfield hc' x hx
            · have hdel := ne_of_mem_inboundFields hfield (k := "deleted_at") (by decide)
              have hupd := ne_of_mem_inboundFields hfield (k := "updated_at") (by decide)
              simp [Record.get?_cons, hdel, hupd]
          · rw [if_neg hrestored] at hx hlive'
            exact h target c' fieldName hfield row (hc' ▸ hrow) hlive' x hx
        · rw [modify_of_ne _ hc'] at hrow'
          exact h target c' fieldName hfield row' hrow' hlive' x hx
      · rintro ⟨row, hrow, hlive, hrid⟩
        by_cases htarget : target = slug
        · subst htarget
          refine ⟨_, ?_, ?_, (hid row).trans hrid⟩
          · rw [modify_self]
            exact List.mem_map_of_mem hrow
          · split
            · rw [isLive, get_assign_of_some rfl]
              rfl
            · exact hlive
        · exact ⟨row, by rwa [modify_of_ne _ htarget], hlive, hrid⟩
    · rintro target x ⟨row', hrow', hrid⟩
      refine .inl ?_
      by_cases htarget : target = slug
      · subst htarget
        rw [modify_self] at hrow'
        obtain ⟨row, hrow, rfl⟩ := mem_updateWhere hrow'
        exact ⟨row, hrow, (hid row).symm.trans hrid⟩
      · rw [modify_of_ne _ htarget] at hrow'
        exact ⟨row', hrow', hrid⟩
  · cases hok

/-- The tables without one row: in the trash, or removed. -/
structure WithoutRow (t : Tables N) (root : String × String) (t' : Tables N) : Prop where
  live : ∀ c row, row ∈ t' c → isLive row = true → row ∈ t c ∧
    ∀ x, rowId row = some x → (c, x) ≠ root
  kept : ∀ c row, row ∈ t c → (∀ x, rowId row = some x → (c, x) ≠ root) → row ∈ t' c
  stored : ∀ c row', row' ∈ t' c → ∃ row ∈ t c, row.get "id" = row'.get "id"

theorem ne_root_of_not_hasId {c : String} {row : Record N} (hnot : c = slug → hasId id row = false)
    (x : String) (hx : rowId row = some x) : (c, x) ≠ (slug, id) := by
  rintro heq
  obtain ⟨rfl, rfl⟩ := Prod.mk.inj heq
  rw [hasId_eq_true.2 hx] at hnot
  exact Bool.noConfusion (hnot rfl)

theorem not_hasId_of_ne_root {row : Record N}
    (h : ∀ x, rowId row = some x → (slug, x) ≠ (slug, id)) : hasId id row = false :=
  Bool.eq_false_iff.2 fun hid => h id (hasId_eq_true.1 hid) rfl

theorem withoutRow_soft {d : Record N} {text : String}
    (hd : d.get? "deleted_at" = some (.str text)) (hid : d.get? "id" = none) (t : Tables N) :
    WithoutRow t (slug, id) (t.modify slug (updateWhere (hasId id) d)) where
  live c row hrow hlive := by
    by_cases hc : c = slug
    · subst hc
      rw [modify_self] at hrow
      obtain ⟨hmem, hnot⟩ := live_of_updateWhere hd hrow hlive
      exact ⟨hmem, ne_root_of_not_hasId fun _ => hnot⟩
    · rw [modify_of_ne _ hc] at hrow
      exact ⟨hrow, ne_root_of_not_hasId fun heq => absurd heq hc⟩
  kept c row hrow hnot := by
    by_cases hc : c = slug
    · subst hc
      rw [modify_self]
      exact mem_updateWhere_of_not hrow (not_hasId_of_ne_root hnot)
    · rwa [modify_of_ne _ hc]
  stored c row' hrow' := by
    by_cases hc : c = slug
    · subst hc
      rw [modify_self] at hrow'
      obtain ⟨row, hrow, rfl⟩ := mem_updateWhere hrow'
      refine ⟨row, hrow, ?_⟩
      split
      · exact (get_assign_of_none hid).symm
      · rfl
    · rw [modify_of_ne _ hc] at hrow'
      exact ⟨row', hrow', rfl⟩

theorem withoutRow_hard (t : Tables N) :
    WithoutRow t (slug, id) (t.modify slug (deleteWhere (hasId id))) where
  live c row hrow _ := by
    by_cases hc : c = slug
    · subst hc
      rw [modify_self] at hrow
      obtain ⟨hmem, hnot⟩ := List.mem_filter.1 hrow
      exact ⟨hmem, ne_root_of_not_hasId fun _ => by simpa using hnot⟩
    · rw [modify_of_ne _ hc] at hrow
      exact ⟨hrow, ne_root_of_not_hasId fun heq => absurd heq hc⟩
  kept c row hrow hnot := by
    by_cases hc : c = slug
    · subst hc
      rw [modify_self]
      exact List.mem_filter.2 ⟨hrow, by simp [not_hasId_of_ne_root hnot]⟩
    · rwa [modify_of_ne _ hc]
  stored c row' hrow' := by
    by_cases hc : c = slug
    · subst hc
      rw [modify_self] at hrow'
      exact ⟨row', (List.mem_filter.1 hrow').1, rfl⟩
    · rw [modify_of_ne _ hc] at hrow'
      exact ⟨row', hrow', rfl⟩

/-- A cascade takes the same rows once its root is deleted. -/
theorem takes_iff {root k : String × String} (ht : WithoutRow s.tables root t) :
    ReflTransGen (CascadesTo all t) root k ↔ s.Takes all root k := by
  constructor
  · intro hreach
    refine ReflTransGen.mono (fun a b hab => ?_) _ _ hreach
    obtain ⟨c, fieldName, hchild, hslug, row, hrow, hlive, hrest⟩ := hab
    exact ⟨c, fieldName, hchild, hslug, row, (ht.live _ row hrow hlive).1, hlive, hrest⟩
  · intro hreach
    induction hreach with
    | refl => exact .refl
    | @tail b k _ hbk ih =>
      by_cases hk : k = root
      · rw [hk]
      · obtain ⟨c, fieldName, hchild, hslug, row, hrow, hlive, htext, hrowId⟩ := hbk
        refine ih.tail ⟨c, fieldName, hchild, hslug, row, ht.kept _ row hrow fun x hx => ?_, hlive,
          htext, hrowId⟩
        rw [hrowId] at hx
        cases hx
        exact hk

/-- A deletion with its cascade, where what is taken is pointed at only from what is taken. -/
theorem StoreState.RestrictSafe.cascadeDelete (h : s.RestrictSafe all)
    (ht : WithoutRow s.tables (slug, id) t)
    (hblockers : ∀ k, s.Takes all (slug, id) k → s.BlockersTaken all (slug, id) k)
    (mode : CascadeMode) (now : IsoTime) :
    (s.after all (cascadeDelete all mode now slug id t)).RestrictSafe all := by
  obtain ⟨visited, hcascaded, hvisited⟩ := cascadeDelete_cascaded all mode now slug id t
  have htaken (k : String × String) : k ∈ visited ↔ s.Takes all (slug, id) k :=
    (hvisited k).trans (takes_iff ht)
  refine StoreState.RestrictSafe.after ?_ ?_
  · intro target c fieldName hfield row hrow hlive x hx
    obtain ⟨hrow₁, hnot⟩ := hcascaded.live _ row hrow hlive
    obtain ⟨hrow₀, hroot⟩ := ht.live _ row hrow₁ hlive
    refine ⟨h target c fieldName hfield row hrow₀ hlive x hx, ?_⟩
    rintro ⟨r, hr, hrlive, hrid⟩
    -- what a row that is left points at is not taken
    have hleft : ¬ s.Takes all (slug, id) (target, x) := by
      intro htakes
      obtain ⟨y, hy, hrowTaken⟩ := hblockers _ htakes c fieldName hfield row hrow₀ hlive hx
      exact hroot y hy (hnot y hy ((htaken _).2 hrowTaken))
    have hne : ∀ y, rowId r = some y → (target, y) ≠ (slug, id) := by
      intro y hy heq
      rw [hrid] at hy
      cases hy
      exact hleft (heq ▸ .refl)
    refine ⟨r, hcascaded.kept _ r (ht.kept _ r hr hne) fun y hy hv => ?_, hrlive, hrid⟩
    rw [hrid] at hy
    cases hy
    exact absurd ((htaken _).1 hv) hleft
  · rintro target x ⟨row', hrow', hid⟩
    obtain ⟨row₁, hrow₁, heq₁⟩ := hcascaded.stored _ row' hrow'
    obtain ⟨row, hrow, heq⟩ := ht.stored _ row₁ hrow₁
    refine .inl ⟨row, hrow, rowId_eq_some.2 ?_⟩
    rw [heq, heq₁]
    exact rowId_eq_some.1 hid

/-- No live row points at a row whose soft deletion is not refused. -/
theorem not_restricted_of_assert {t : Tables N}
    (h : assertNoRestrictiveReferences all t slug id = .ok ()) {c : EntitySchema N}
    {fieldName : String} (hfield : (c, fieldName) ∈ restrictMap all slug) {row : Record N}
    (hrow : row ∈ t c.slug) (hlive : isLive row = true) : row.get fieldName ≠ .str id := by
  intro hget
  have hblocker : (c.name, ((t c.slug).filter fun row =>
      textIn fieldName [id] row && isLive row).length) ∈ restrictiveReferences all t slug id := by
    refine List.mem_filter.2 ⟨List.mem_map.2 ⟨(c, fieldName), hfield, rfl⟩, ?_⟩
    have hmem : row ∈ (t c.slug).filter fun row => textIn fieldName [id] row && isLive row :=
      List.mem_filter.2 ⟨hrow, Bool.and_eq_true_iff.2
        ⟨textIn_eq_true.2 ⟨id, List.mem_singleton_self id, hget⟩, hlive⟩⟩
    exact decide_eq_true (List.length_pos_of_mem hmem)
  unfold assertNoRestrictiveReferences at h
  dsimp only at h
  split at h
  · next hempty =>
    rw [List.isEmpty_iff, List.map_eq_nil_iff] at hempty
    rw [hempty] at hblocker
    cases hblocker
  · cases h

theorem StoreState.RestrictSafe.softDeleteItem [JsNumber N] (h : s.RestrictSafe all)
    {request : RequestContext N} {now : IsoTime}
    (hblockers : ∀ k, s.Takes all (slug, id) k → k ≠ (slug, id) → s.BlockersTaken all (slug, id) k)
    (hok : softDeleteItem all slug id request now s.tables = .ok t) :
    (s.after all t).RestrictSafe all := by
  obtain ⟨c, _, hok⟩ := exists_of_bind_eq_ok hok
  obtain ⟨_, _, hok⟩ := exists_of_bind_eq_ok hok
  obtain ⟨_, _, hok⟩ := exists_of_bind_eq_ok hok
  obtain ⟨existing, _, hok⟩ := exists_of_bind_eq_ok hok
  obtain ⟨_, _, hok⟩ := exists_of_bind_eq_ok hok
  obtain ⟨_, _, hok⟩ := exists_of_bind_eq_ok hok
  obtain ⟨_, hguard, hok⟩ := exists_of_bind_eq_ok hok
  obtain ⟨_, _, hok⟩ := exists_of_bind_eq_ok hok
  cases hok
  have hdeleted : (softDeleteData c.info request.userId now).get? "deleted_at" =
      some (.str now.text) := rfl
  refine h.cascadeDelete (withoutRow_soft hdeleted ?_ _) (fun k hk => ?_) _ _
  · unfold softDeleteData
    split <;> rfl
  · by_cases hroot : k = (slug, id)
    · -- the guard has asked for the row of the request
      subst hroot
      intro c fieldName hfield row hrow hlive hget
      exact absurd hget (not_restricted_of_assert hguard hfield hrow hlive)
    · exact hblockers k hk hroot

theorem StoreState.RestrictSafe.hardDeleteItem [JsNumber N] (h : s.RestrictSafe all)
    {request : RequestContext N} {now : IsoTime}
    (hblockers : ∀ k, s.Takes all (slug, id) k → s.BlockersTaken all (slug, id) k)
    (hok : hardDeleteItem all slug id request now s.tables = .ok t) :
    (s.after all t).RestrictSafe all := by
  obtain ⟨c, _, hok⟩ := exists_of_bind_eq_ok hok
  obtain ⟨_, _, hok⟩ := exists_of_bind_eq_ok hok
  obtain ⟨_, _, hok⟩ := exists_of_bind_eq_ok hok
  obtain ⟨existing, _, hok⟩ := exists_of_bind_eq_ok hok
  obtain ⟨_, _, hok⟩ := exists_of_bind_eq_ok hok
  obtain ⟨_, _, hok⟩ := exists_of_bind_eq_ok hok
  cases hok
  exact h.cascadeDelete (withoutRow_hard _) hblockers _ _

/-! ## Runs -/

section
variable [JsNumber N]

theorem StoreState.RestrictSafe.apply {D : StoreSchema N} (h : s.RestrictSafe D.all)
    {a : StoreAction N} (hp : s.RestrictKept D.all a) (hok : a.apply D.all s.tables = .ok t) :
    (s.after D.all t).RestrictSafe D.all := by
  cases a with
  | create slug id d => exact h.insertItem hp hok
  | update slug id request d => exact h.writeItem hp hok
  | createChildren slug id fieldName items =>
    obtain ⟨child, hchild, hok⟩ := exists_of_bind_eq_ok hok
    cases child with
    | none =>
      cases hok
      exact h.unchanged
    | some child =>
      cases hok
      exact h.createChildren (hp child hchild)
  | replaceChildren slug id fieldName items =>
    obtain ⟨child, hchild, hok⟩ := exists_of_bind_eq_ok hok
    cases child with
    | none =>
      cases hok
      exact h.unchanged
    | some child =>
      cases hok
      exact h.replaceChildren (hp child hchild).1 (hp child hchild).2
  | softDelete slug id request now => exact h.softDeleteItem hp hok
  | restore slug id request now => exact h.restoreItem hp hok
  | hardDelete slug id request now => exact h.hardDeleteItem hp hok
  | recalc slug id computed => exact h.writeComputed hok

/-- In a run whose operations meet the condition, no live row points at a deleted row with a field
that restricts. -/
theorem restrictSafe_of_reach {D : StoreSchema N} {s : StoreState N}
    (h : D.system.Reach (fun s a => s.RestrictKept D.all a) s) : s.RestrictSafe D.all := by
  refine h.invariant (I := fun s => s.RestrictSafe D.all) (fun _ hinit => hinit) ?_
  intro s a s' hs hp hstep
  simp only [StoreSchema.system] at hstep
  split at hstep
  · next t hok =>
    cases hstep
    exact hs.apply hp hok
  · cases hstep
    exact hs

end

end

end

/-! ## A company -/

/-- The row of a company, of a department of it, and of one of its employees. -/
def companyId : String := "00000000-0000-4000-8000-000000000001"

def departmentId : String := "00000000-0000-4000-8000-000000000002"

def employeeId : String := "00000000-0000-4000-8000-000000000003"

/-- The companies. -/
def companySchema : EntitySchema (Option Int) where
  slug := "companies"
  name := "Companies"
  info := {
    tableName := "cms_companies"
    schemaFields := [{ name := "registered_name", type := .text }]
    fields_user := by decide }

/-- The departments, which go with their company. -/
def departmentSchema : EntitySchema (Option Int) where
  slug := "departments"
  name := "Departments"
  info := {
    tableName := "cms_departments"
    schemaFields := [{ name := "company", type := .m2o, relatedCollection := some "companies",
                       cascadeDelete := some true }]
    fields_user := by decide }

/-- The employees, who keep their department. -/
def employeeSchema : EntitySchema (Option Int) where
  slug := "employees"
  name := "Employees"
  info := {
    tableName := "cms_employees"
    schemaFields := [{ name := "department", type := .m2o, relatedCollection := some "departments",
                       cascadeDelete := some false }]
    fields_user := by decide }

/-- The three collections. -/
def companyStore : StoreSchema (Option Int) where
  all := [companySchema, departmentSchema, employeeSchema]
  slugs_nodup := by decide
  names_nodup c hc := by
    simp only [List.mem_cons, List.not_mem_nil, or_false] at hc
    obtain rfl | rfl | rfl := hc <;> decide

/-- One row of each, with what the row of the employee has as `deleted_at`. -/
def companyState (deletedAt : JsVal (Option Int)) : StoreState (Option Int) where
  tables slug :=
    if slug = "companies" then [[("id", .str companyId), ("deleted_at", .null)]]
    else if slug = "departments" then
      [[("id", .str departmentId), ("company", .str companyId), ("deleted_at", .null)]]
    else if slug = "employees" then
      [[("id", .str employeeId), ("department", .str departmentId), ("deleted_at", deletedAt)]]
    else []
  removed := []

/-- A request that meets no check. -/
def openRequest : RequestContext (Option Int) where
  userId := .undefined
  access _ := .ok ()
  hooks _ := .ok ()

/-- Only the employees keep what they point at. -/
theorem eq_employeeSchema {slug fieldName : String} {c : EntitySchema (Option Int)}
    (h : (c, fieldName) ∈ restrictMap companyStore.all slug) : c = employeeSchema := by
  obtain ⟨hall, -, f, hf, -, -, hflag, -⟩ := mem_inboundFields h
  simp only [companyStore, List.mem_cons, List.not_mem_nil, or_false] at hall
  obtain rfl | rfl | rfl := hall
  · cases List.mem_singleton.1 hf
    cases hflag
  · cases List.mem_singleton.1 hf
    cases hflag
  · rfl

theorem companyState_init (deletedAt : JsVal (Option Int)) :
    companyStore.system.init (companyState deletedAt) := by
  rintro slug c fieldName hfield - - - id - ⟨hnot, hgone⟩
  -- the employee points at the department, which is live
  obtain rfl := eq_employeeSchema hfield
  obtain ⟨-, -, f, hf, rfl, -, -, htarget⟩ := mem_inboundFields hfield
  cases List.mem_singleton.1 hf
  cases htarget
  obtain ⟨department, hmem, hdepartment⟩ | hgone := hgone
  · refine hnot ⟨department, hmem, ?_, hdepartment⟩
    rw [List.mem_singleton.1 hmem]
    rfl
  · cases hgone

/-- A company is deleted: its department goes with it, and the employee of the department stays. -/
theorem employee_without_department :
    ¬ ∀ (D : StoreSchema (Option Int)) (s : StoreState (Option Int)),
        D.system.Reachable s → s.RestrictSafe D.all := by
  intro h
  have hinit : companyStore.system.Reachable (companyState .null) := .init (companyState_init _)
  have hrun : (companyStore.system.run (companyState .null)
      [.softDelete "companies" companyId openRequest ⟨"t1", by decide⟩]).isSome = true := rfl
  have hsafe := h companyStore _ (hinit.run (Option.some_get hrun).symm)
  refine hsafe "departments" employeeSchema "department" List.mem_cons_self
    [("id", .str employeeId), ("department", .str departmentId), ("deleted_at", .null)]
    List.mem_cons_self rfl departmentId rfl ⟨?_, .inl ⟨_, List.mem_cons_self, rfl⟩⟩
  rintro ⟨row, hrow, hlive, -⟩
  cases List.mem_singleton.1 hrow
  cases hlive

/-- The employee has gone before. -/
theorem restrictSafe_of_reach_company : ∃ s,
    companyStore.system.Reach (fun s a => s.RestrictKept companyStore.all a) s ∧
      s.tables "departments" = [[("id", .str departmentId), ("company", .str companyId),
        ("deleted_at", .str "t1"), ("updated_at", .str "t1")]] ∧
      s.RestrictSafe companyStore.all := by
  have h₀ : companyStore.system.Reach (fun s a => s.RestrictKept companyStore.all a)
      (companyState (.str "t0")) := .init (companyState_init _)
  have hkept : (companyState (.str "t0")).RestrictKept companyStore.all
      (.softDelete "companies" companyId openRequest ⟨"t1", by decide⟩) := by
    rintro k - - c fieldName hfield row hrow hlive -
    obtain rfl := eq_employeeSchema hfield
    cases List.mem_singleton.1 hrow
    cases hlive
  have h₁ := h₀.step hkept rfl
  exact ⟨_, h₁, rfl, restrictSafe_of_reach h₁⟩

end HeadlessErp
