import HeadlessErp.Entity.Store

/-!
# What a cascade deletes

`cascadeDelete` goes through the tables level by level and changes them as it goes. What it deletes
are the rows that can be reached, in the tables as they were, from the row that is deleted, through
the live rows of other collections and the fields that cascade (`CascadesTo`).
-/

namespace HeadlessErp

open Relation (ReflTransGen)

section
variable {N : Type} {all : List (EntitySchema N)} {mode : CascadeMode} {now : IsoTime}
  {rows : List (Record N)} {row row' : Record N} {ids : List String} {id slug : String}

/-! ## Statements -/

theorem rowId_eq_some : rowId row = some id ↔ row.get "id" = .str id := by
  unfold rowId
  constructor
  · intro h
    split at h
    · next heq =>
      cases h
      exact heq
    · cases h
  · intro h
    rw [h]

theorem textIn_eq_true {column : String} {texts : List String} :
    textIn column texts row = true ↔ ∃ s ∈ texts, row.get column = .str s := by
  unfold textIn
  constructor
  · intro h
    split at h
    · next s heq => exact ⟨s, List.contains_iff_mem.1 h, heq⟩
    · cases h
  · rintro ⟨s, hs, heq⟩
    rw [heq]
    exact List.contains_iff_mem.2 hs

theorem textIn_id : textIn "id" ids row = true ↔ ∃ id ∈ ids, rowId row = some id := by
  rw [textIn_eq_true]
  exact exists_congr fun id => and_congr_right fun _ => rowId_eq_some.symm

theorem hasId_eq_true : hasId id row = true ↔ rowId row = some id := by
  rw [textIn_id]
  simp

theorem get_assign_of_none {r d : Record N} {k : String} (h : d.get? k = none) :
    (r.assign d).get k = r.get k := by
  rw [Record.get_eq, Record.get_eq, Record.get?_assign, h, Option.none_or]

theorem get_assign_of_some {r d : Record N} {k : String} {v : JsVal N} (h : d.get? k = some v) :
    (r.assign d).get k = v := by
  rw [Record.get_eq, Record.get?_assign, h]
  rfl

theorem mem_updateWhere {p : Record N → Bool} {d : Record N} (h : row' ∈ updateWhere p d rows) :
    ∃ row ∈ rows, row' = if p row then row.assign d else row := by
  obtain ⟨row, hrow, rfl⟩ := List.mem_map.1 h
  exact ⟨row, hrow, rfl⟩

/-- A row that an update is not about stays. -/
theorem mem_updateWhere_of_not {p : Record N → Bool} {d : Record N} (h : row ∈ rows)
    (hp : p row = false) : row ∈ updateWhere p d rows :=
  List.mem_map.2 ⟨row, h, by rw [hp]; rfl⟩

/-- A row that is live after rows were trashed is one of the others. -/
theorem live_of_updateWhere {p : Record N → Bool} {d : Record N} {s : String}
    (hd : d.get? "deleted_at" = some (.str s)) (h : row' ∈ updateWhere p d rows)
    (hlive : isLive row' = true) : row' ∈ rows ∧ p row' = false := by
  obtain ⟨row, hrow, rfl⟩ := mem_updateWhere h
  by_cases hp : p row = true
  · rw [if_pos hp, isLive, get_assign_of_some hd] at hlive
    cases hlive
  · rw [if_neg hp]
    exact ⟨hrow, Bool.eq_false_iff.2 hp⟩

/-- A row that is live after a cascade is one that it left. -/
theorem live_of_cascadeRows (h : row ∈ cascadeRows mode now ids rows) (hlive : isLive row = true) :
    row ∈ rows ∧ textIn "id" ids row = false := by
  cases mode with
  | soft => exact live_of_updateWhere rfl h hlive
  | hard =>
    obtain ⟨hmem, hnot⟩ := List.mem_filter.1 h
    exact ⟨hmem, by simpa using hnot⟩

theorem mem_cascadeRows_of_not (h : row ∈ rows) (hnot : textIn "id" ids row = false) :
    row ∈ cascadeRows mode now ids rows := by
  cases mode with
  | soft => exact mem_updateWhere_of_not h hnot
  | hard => exact List.mem_filter.2 ⟨h, by simpa using hnot⟩

/-- A cascade makes no row, and changes no id. -/
theorem exists_of_mem_cascadeRows (h : row' ∈ cascadeRows mode now ids rows) :
    ∃ row ∈ rows, row.get "id" = row'.get "id" := by
  cases mode with
  | soft =>
    obtain ⟨row, hrow, rfl⟩ := mem_updateWhere h
    refine ⟨row, hrow, ?_⟩
    split
    · exact (get_assign_of_none rfl).symm
    · rfl
  | hard => exact ⟨row', (List.mem_filter.1 h).1, rfl⟩

/-! ## Batches -/

theorem mem_levelKeys {level : List (String × List String)} {k : String × String} :
    k ∈ levelKeys level ↔ ∃ ids, (k.1, ids) ∈ level ∧ k.2 ∈ ids := by
  unfold levelKeys
  rw [List.mem_flatMap]
  constructor
  · rintro ⟨⟨slug, ids⟩, hmem, hk⟩
    obtain ⟨id, hid, rfl⟩ := List.mem_map.1 hk
    exact ⟨ids, hmem, hid⟩
  · rintro ⟨ids, hmem, hk⟩
    exact ⟨(k.1, ids), hmem, List.mem_map.2 ⟨k.2, hk, rfl⟩⟩

theorem mem_levelKeys_addBucket {level : List (String × List String)} {k : String × String} :
    k ∈ levelKeys (addBucket slug ids level) ↔ k ∈ levelKeys level ∨ k.1 = slug ∧ k.2 ∈ ids := by
  induction level with
  | nil =>
    rw [addBucket, mem_levelKeys]
    constructor
    · rintro ⟨ids', hmem, hid⟩
      obtain ⟨rfl, rfl⟩ := Prod.mk.inj (List.mem_singleton.1 hmem)
      exact .inr ⟨rfl, hid⟩
    · rintro (h | ⟨rfl, hid⟩)
      · cases h
      · exact ⟨ids, List.mem_cons_self, hid⟩
  | cons batch level ih =>
    obtain ⟨slug', ids'⟩ := batch
    unfold addBucket
    split
    · next heq =>
      subst heq
      simp only [levelKeys, List.flatMap_cons, List.mem_append, List.mem_map, Prod.ext_iff]
      constructor
      · rintro (⟨id, hid | hid, h₁, h₂⟩ | h)
        · exact .inl (.inl ⟨id, hid, h₁, h₂⟩)
        · exact .inr ⟨h₁.symm, h₂ ▸ hid⟩
        · exact .inl (.inr h)
      · rintro ((⟨id, hid, h₁, h₂⟩ | h) | ⟨h₁, h₂⟩)
        · exact .inl ⟨id, .inl hid, h₁, h₂⟩
        · exact .inr h
        · exact .inl ⟨k.2, .inr h₂, h₁.symm, rfl⟩
    · simp only [levelKeys, List.flatMap_cons, List.mem_append]
      unfold levelKeys at ih
      rw [ih, or_assoc]

theorem mem_freshIds {visited : List (String × String)} {l : List String} :
    id ∈ freshIds slug visited l ↔ id ∈ l ∧ (slug, id) ∉ visited := by
  induction l generalizing visited with
  | nil => simp [freshIds]
  | cons first l ih =>
    unfold freshIds
    split
    · next hvisited =>
      rw [ih, List.mem_cons]
      constructor
      · rintro ⟨hmem, hnot⟩
        exact ⟨.inr hmem, hnot⟩
      · rintro ⟨rfl | hmem, hnot⟩
        · exact absurd hvisited hnot
        · exact ⟨hmem, hnot⟩
    · next hfirst =>
      rw [List.mem_cons, ih, List.mem_cons, List.mem_cons]
      by_cases heq : id = first
      · subst heq
        simp [hfirst]
      · simp [heq]

/-! ## The search -/

/-- The rows that a cascade goes to from a row: the live rows of another collection that point at it
with a field that cascades. -/
def CascadesTo (all : List (EntitySchema N)) (t : Tables N) (parent child : String × String) : Prop :=
  ∃ c fieldName, (c, fieldName) ∈ cascadeMap all parent.1 ∧ c.slug = child.1 ∧
    ∃ row ∈ t child.1, isLive row = true ∧ textIn fieldName [parent.2] row = true ∧
      rowId row = some child.2

/-- The rows that point at a batch with a field have been visited. -/
def FieldDone (t : Tables N) (ids : List String) (child : EntitySchema N × String)
    (s : CascadeState N) : Prop :=
  ∀ id, (∃ row ∈ t child.1.slug, isLive row = true ∧ textIn child.2 ids row = true ∧
    rowId row = some id) → (child.1.slug, id) ∈ s.visited

/-- The tables of a cascade that has visited some rows, out of the tables as they were: the live rows
are those it has not visited, its root apart. -/
structure Cascaded (t : Tables N) (root : String × String) (visited : List (String × String))
    (t' : Tables N) : Prop where
  live : ∀ c row, row ∈ t' c → isLive row = true → row ∈ t c ∧
    ∀ id, rowId row = some id → (c, id) ∈ visited → (c, id) = root
  kept : ∀ c row, row ∈ t c → (∀ id, rowId row = some id → (c, id) ∈ visited → (c, id) = root) →
    row ∈ t' c
  stored : ∀ c row', row' ∈ t' c → ∃ row ∈ t c, row.get "id" = row'.get "id"

theorem Cascaded.refl (t : Tables N) (root : String × String) : Cascaded t root [root] t where
  live _ _ h _ := ⟨h, fun _ _ hid => List.mem_singleton.1 hid⟩
  kept _ _ h _ := h
  stored _ row h := ⟨row, h, rfl⟩

/-- The rows of more ids go. -/
theorem Cascaded.modify {t t' : Tables N} {root : String × String}
    {visited : List (String × String)} (h : Cascaded t root visited t') {fresh : List String}
    (hfresh : ∀ id ∈ fresh, (slug, id) ∉ visited) (hroot : root ∈ visited) :
    Cascaded t root (visited ++ fresh.map (slug, ·)) (t'.modify slug (cascadeRows mode now fresh)) := by
  have hne (id : String) (hid : id ∈ fresh) : (slug, id) ≠ root := by
    intro heq
    exact hfresh id hid (heq ▸ hroot)
  have hvisited (c id : String) : (c, id) ∈ visited ++ fresh.map (slug, ·) ↔
      (c, id) ∈ visited ∨ c = slug ∧ id ∈ fresh := by
    rw [List.mem_append, List.mem_map]
    refine or_congr_right ⟨?_, ?_⟩
    · rintro ⟨id', hid', heq⟩
      obtain ⟨rfl, rfl⟩ := Prod.mk.inj heq
      exact ⟨rfl, hid'⟩
    · rintro ⟨rfl, hid⟩
      exact ⟨id, hid, rfl⟩
  constructor
  · intro c row hrow hlive
    by_cases hc : c = slug
    · subst hc
      rw [modify_self] at hrow
      obtain ⟨hmem, hnot⟩ := live_of_cascadeRows hrow hlive
      obtain ⟨hold, hroot'⟩ := h.live _ row hmem hlive
      refine ⟨hold, fun id hid hv => ?_⟩
      obtain hv | ⟨-, hv⟩ := (hvisited _ id).1 hv
      · exact hroot' id hid hv
      · rw [textIn_id.2 ⟨id, hv, hid⟩] at hnot
        cases hnot
    · rw [modify_of_ne _ hc] at hrow
      obtain ⟨hold, hroot'⟩ := h.live c row hrow hlive
      refine ⟨hold, fun id hid hv => ?_⟩
      obtain hv | ⟨heq, -⟩ := (hvisited c id).1 hv
      · exact hroot' id hid hv
      · exact absurd heq hc
  · intro c row hrow hnot
    have hkept : row ∈ t' c := h.kept c row hrow fun id hid hv =>
      hnot id hid ((hvisited c id).2 (.inl hv))
    by_cases hc : c = slug
    · subst hc
      rw [modify_self]
      refine mem_cascadeRows_of_not hkept (Bool.eq_false_iff.2 fun hin => ?_)
      obtain ⟨id, hmem, hid⟩ := textIn_id.1 hin
      exact hne id hmem (hnot id hid ((hvisited _ id).2 (.inr ⟨rfl, hmem⟩)))
    · rw [modify_of_ne _ hc]
      exact hkept
  · intro c row' hrow'
    by_cases hc : c = slug
    · subst hc
      rw [modify_self] at hrow'
      obtain ⟨row₁, hrow₁, heq₁⟩ := exists_of_mem_cascadeRows hrow'
      obtain ⟨row, hrow, heq⟩ := h.stored _ row₁ hrow₁
      exact ⟨row, hrow, heq.trans heq₁⟩
    · rw [modify_of_ne _ hc] at hrow'
      exact h.stored c row' hrow'

/-- A level that is being expanded: what has been visited beside what was is the next level, and was
reached from this one. -/
structure Expanding (all : List (EntitySchema N)) (t : Tables N) (root : String × String)
    (before : CascadeState N) (s : CascadeState N) : Prop where
  cascaded : Cascaded t root s.visited s.tables
  union : ∀ k, k ∈ s.visited ↔ k ∈ before.visited ∨ k ∈ levelKeys s.level
  fresh : ∀ k ∈ levelKeys s.level, k ∉ before.visited
  reached : ∀ k ∈ levelKeys s.level, ∃ b ∈ levelKeys before.level, CascadesTo all t b k

section
variable {t : Tables N} {root : String × String} {before s : CascadeState N}
  {child : EntitySchema N × String}

theorem subset_cascadeField (s : CascadeState N) :
    s.visited ⊆ (cascadeField mode now ids s child).visited := by
  unfold cascadeField
  dsimp only
  split
  · exact List.Subset.refl _
  · exact List.subset_append_left _ _

/-- The rows a field finds are the live rows that point at the batch, in the tables as they were. -/
theorem mem_children (h : Cascaded t root s.visited s.tables) {c fieldName : String} {id : String}
    (hnot : (c, id) ∉ s.visited) :
    id ∈ ((s.tables c).filter fun row => textIn fieldName ids row && isLive row).filterMap rowId ↔
      ∃ row ∈ t c, isLive row = true ∧ textIn fieldName ids row = true ∧ rowId row = some id := by
  constructor
  · intro hid
    obtain ⟨row, hrow, hrowId⟩ := List.mem_filterMap.1 hid
    obtain ⟨hrow, hp⟩ := List.mem_filter.1 hrow
    obtain ⟨htext, hlive⟩ := Bool.and_eq_true_iff.1 hp
    exact ⟨row, (h.live c row hrow hlive).1, hlive, htext, hrowId⟩
  · rintro ⟨row, hrow, hlive, htext, hrowId⟩
    have hkept : row ∈ s.tables c := h.kept c row hrow fun id' hid' hv => by
      rw [hrowId] at hid'
      cases hid'
      exact absurd hv hnot
    exact List.mem_filterMap.2
      ⟨row, List.mem_filter.2 ⟨hkept, Bool.and_eq_true_iff.2 ⟨htext, hlive⟩⟩, hrowId⟩

/-- One field of one batch of the level. -/
theorem Expanding.field (h : Expanding all t root before s) (hroot : root ∈ before.visited)
    (hids : ∀ id ∈ ids, (slug, id) ∈ levelKeys before.level) (hchild : child ∈ cascadeMap all slug) :
    Expanding all t root before (cascadeField mode now ids s child) ∧
      FieldDone t ids child (cascadeField mode now ids s child) := by
  obtain ⟨c, fieldName⟩ := child
  have hfresh (id : String) : id ∈ freshIds c.slug s.visited
      (((s.tables c.slug).filter fun row => textIn fieldName ids row && isLive row).filterMap rowId) ↔
        (∃ row ∈ t c.slug, isLive row = true ∧ textIn fieldName ids row = true ∧
          rowId row = some id) ∧ (c.slug, id) ∉ s.visited := by
    rw [mem_freshIds]
    exact ⟨fun ⟨hmem, hnot⟩ => ⟨(mem_children h.cascaded hnot).1 hmem, hnot⟩,
      fun ⟨hrow, hnot⟩ => ⟨(mem_children h.cascaded hnot).2 hrow, hnot⟩⟩
  unfold cascadeField
  dsimp only
  split
  · next hempty =>
    refine ⟨h, fun id hrow => ?_⟩
    by_contra hnot
    have hmem := (hfresh id).2 ⟨hrow, hnot⟩
    rw [List.isEmpty_iff.1 hempty] at hmem
    cases hmem
  · refine ⟨⟨?_, ?_, ?_, ?_⟩, ?_⟩
    · exact h.cascaded.modify (fun id hid => ((hfresh id).1 hid).2) ((h.union root).2 (.inl hroot))
    · intro k
      rw [List.mem_append, h.union k, mem_levelKeys_addBucket, or_assoc]
      refine or_congr_right (or_congr_right ?_)
      rw [List.mem_map]
      exact ⟨fun ⟨id, hid, heq⟩ => heq ▸ ⟨rfl, hid⟩, fun ⟨hslug, hid⟩ => ⟨k.2, hid, hslug ▸ rfl⟩⟩
    · intro k hk hbefore
      obtain hk | ⟨hslug, hid⟩ := mem_levelKeys_addBucket.1 hk
      · exact h.fresh k hk hbefore
      · exact ((hfresh k.2).1 hid).2 ((h.union _).2 (.inl (hslug ▸ hbefore)))
    · intro k hk
      obtain hk | ⟨hslug, hid⟩ := mem_levelKeys_addBucket.1 hk
      · exact h.reached k hk
      · obtain ⟨⟨row, hrow, hlive, htext, hrowId⟩, -⟩ := (hfresh k.2).1 hid
        obtain ⟨pid, hpid, hget⟩ := textIn_eq_true.1 htext
        refine ⟨(slug, pid), hids pid hpid, c, fieldName, hchild, hslug.symm, row, hslug ▸ hrow, hlive,
          textIn_eq_true.2 ⟨pid, List.mem_singleton_self pid, hget⟩, hrowId⟩
    · intro id hrow
      by_cases hv : (c.slug, id) ∈ s.visited
      · exact List.mem_append_left _ hv
      · exact List.mem_append_right _ (List.mem_map_of_mem ((hfresh id).2 ⟨hrow, hv⟩))

theorem subset_cascadeFields (s : CascadeState N) (fields : List (EntitySchema N × String)) :
    s.visited ⊆ (fields.foldl (cascadeField mode now ids) s).visited :=
  foldl_invariant (I := fun s' : CascadeState N => s.visited ⊆ s'.visited) (List.Subset.refl _)
    fun s' _ _ h => List.Subset.trans h (subset_cascadeField s')

/-- One batch of the level. -/
theorem Expanding.batch (h : Expanding all t root before s) (hroot : root ∈ before.visited)
    (hids : ∀ id ∈ ids, (slug, id) ∈ levelKeys before.level) :
    Expanding all t root before ((cascadeMap all slug).foldl (cascadeField mode now ids) s) ∧
      ∀ child ∈ cascadeMap all slug,
        FieldDone t ids child ((cascadeMap all slug).foldl (cascadeField mode now ids) s) :=
  foldl_forall (I := Expanding all t root before) (P := FieldDone t ids) h
    (fun _ _ hchild hs => hs.field hroot hids hchild)
    fun s' _ _ _ _ hdone id hrow => subset_cascadeField s' (hdone id hrow)

/-- A level is expanded by the rows that its rows cascade to. -/
theorem cascadeLevel_expands (h : Cascaded t root s.visited s.tables) (hroot : root ∈ s.visited) :
    Cascaded t root (cascadeLevel all mode now s).visited (cascadeLevel all mode now s).tables ∧
      Expands (CascadesTo all t) s.visited (levelKeys s.level) (cascadeLevel all mode now s).visited
        (levelKeys (cascadeLevel all mode now s).level) := by
  have hstart : Expanding all t root s { s with level := [] } :=
    ⟨h, fun k => by simp [levelKeys], fun _ hk => (nomatch hk), fun _ hk => nomatch hk⟩
  have hloop : Expanding all t root s (cascadeLevel all mode now s) ∧ ∀ batch ∈ s.level,
      ∀ child ∈ cascadeMap all batch.1, FieldDone t batch.2 child (cascadeLevel all mode now s) := by
    refine foldl_forall (I := Expanding all t root s)
      (P := fun (batch : String × List String) s =>
        ∀ child ∈ cascadeMap all batch.1, FieldDone t batch.2 child s) hstart ?_ ?_
    · intro _ batch hbatch hs
      exact hs.batch hroot fun id hid => mem_levelKeys.2 ⟨_, hbatch, hid⟩
    · intro s' batch _ _ batch' hdone child hchild id hrow
      exact subset_cascadeFields s' _ (hdone child hchild id hrow)
  obtain ⟨hend, hcomplete⟩ := hloop
  refine ⟨hend.cascaded, hend.union, hend.fresh, hend.reached, ?_⟩
  rintro ⟨pslug, pid⟩ hp ⟨cslug, cid⟩ ⟨c, fieldName, hchild, rfl, row, hrow, hlive, htext, hrowId⟩
  obtain ⟨ids, hbatch, hpid⟩ := mem_levelKeys.1 hp
  refine hcomplete (pslug, ids) hbatch (c, fieldName) hchild cid ⟨row, hrow, hlive, ?_, hrowId⟩
  obtain ⟨pid', hpid', hget⟩ := textIn_eq_true.1 htext
  rw [List.mem_singleton.1 hpid'] at hget
  exact textIn_eq_true.2 ⟨pid, hpid, hget⟩

/-- What a cascade goes to is a row of a table. -/
theorem mem_tableKeys {p k : String × String} (h : CascadesTo all t p k) : k ∈ tableKeys all t := by
  obtain ⟨cslug, cid⟩ := k
  obtain ⟨c, fieldName, hchild, rfl, row, hrow, -, -, hrowId⟩ := h
  have hall : c ∈ all := by
    obtain ⟨c', hc', hmem⟩ := List.mem_flatMap.1 hchild
    split at hmem
    · cases hmem
    · obtain ⟨f, -, heq⟩ := List.mem_map.1 hmem
      cases heq
      exact hc'
  exact List.mem_flatMap.2
    ⟨c, hall, List.mem_map_of_mem (List.mem_filterMap.2 ⟨row, hrow, hrowId⟩)⟩

/-- The states of a cascade from its root. -/
def Searched (t : Tables N) (root : String × String) (s : CascadeState N) : Prop :=
  Cascaded t root s.visited s.tables ∧ root ∈ s.visited

/-- A step of the search expands its level within the tables. -/
theorem cascadeSearch_step (h : Searched t root s) :
    Searched t root ((cascadeSearch all mode now).step s) ∧
    Expands (CascadesTo all t) ((cascadeSearch all mode now).visited s)
      ((cascadeSearch all mode now).level s)
      ((cascadeSearch all mode now).visited ((cascadeSearch all mode now).step s))
      ((cascadeSearch all mode now).level ((cascadeSearch all mode now).step s)) ∧
    ∀ k ∈ (cascadeSearch all mode now).level ((cascadeSearch all mode now).step s),
      k ∈ tableKeys all t := by
  obtain ⟨hcascaded, hexpands⟩ := cascadeLevel_expands h.1 h.2
  refine ⟨⟨hcascaded, (hexpands.union _).2 (.inl h.2)⟩, hexpands, fun k hk => ?_⟩
  obtain ⟨b, -, hb⟩ := hexpands.reached k hk
  exact mem_tableKeys hb

/-- The state in which a cascade ends. -/
def cascadeEnd (all : List (EntitySchema N)) (mode : CascadeMode) (now : IsoTime) (slug id : String)
    (t : Tables N) : CascadeState N :=
  (cascadeSearch all mode now).run ((tableKeys all t).length + 2) ⟨t, [(slug, id)], [(slug, [id])]⟩

theorem searched_start (slug id : String) (t : Tables N) :
    Searched t (slug, id) ⟨t, [(slug, id)], [(slug, [id])]⟩ :=
  ⟨Cascaded.refl t _, List.mem_singleton_self _⟩

/-- A cascade visits what is reached from its root. -/
theorem mem_visited_cascadeEnd {k : String × String} :
    k ∈ (cascadeEnd all mode now slug id t).visited ↔
      ReflTransGen (CascadesTo all t) (slug, id) k := by
  refine (LevelSearch.mem_visited_run (S := cascadeSearch all mode now) (I := Searched t (slug, id))
    (fun _ => cascadeSearch_step) (searched_start slug id t) rfl (Nat.lt_succ_self _) k).trans ?_
  constructor
  · rintro ⟨b, hb, hreach⟩
    rw [List.mem_singleton.1 hb] at hreach
    exact hreach
  · intro hreach
    exact ⟨_, List.mem_singleton_self _, hreach⟩

/-- A cascade deletes the rows that are reached from its root in the tables as they were, and no
other ones. -/
theorem cascadeDelete_cascaded (all : List (EntitySchema N)) (mode : CascadeMode) (now : IsoTime)
    (slug id : String) (t : Tables N) :
    ∃ visited, Cascaded t (slug, id) visited (cascadeDelete all mode now slug id t) ∧
      ∀ k, k ∈ visited ↔ ReflTransGen (CascadesTo all t) (slug, id) k :=
  ⟨(cascadeEnd all mode now slug id t).visited,
    (LevelSearch.run_invariant (S := cascadeSearch all mode now) (I := Searched t (slug, id))
      (fun _ hs => (cascadeSearch_step hs).1) (searched_start slug id t) _).1,
    fun _ => mem_visited_cascadeEnd⟩

end

end

end HeadlessErp
