import Mathlib
import HeadlessErp.Entity.Row
import HeadlessErp.Idp.Differ

/-!
# What the differ tells apart

`SchemaDiffer` of `packages/core/src/entity/schema-differ.ts`, over fields as their texts of JSON have
them: the default of a `json` field may be an object or an array. Attributes are compared by `===`, by
which no two objects that are parsed apart are one. So a diff is empty just where the schemas agree,
unless they agree in an attribute with such a value (`exact_iff`).
-/

namespace HeadlessErp.SchemaDiffer

open Idp (RolePermission PermissionDiff indexed diffPermissions changedFlags)

variable {N : Type} [JsNumber N]

/-! ## The differ -/

/-- A field definition that `_parseSchema` returns. No number of a text of JSON is `NaN`. -/
structure FieldObject (N : Type) [JsNumber N] where
  name : String
  members : Record N
  numbers : ∀ k n, members.get k = .num n → JsNumber.eq n n = true

/-- An `EntitySchema`, with what its `schema_json` parses to. -/
structure Collection (N : Type) [JsNumber N] where
  slug : String
  fields : List (FieldObject N)
  other : Record N := []

/-- A `SchemaSnapshot`. `roles` are the names of the roles. -/
structure Snapshot (N : Type) [JsNumber N] where
  collections : List (Collection N)
  roles : List String := []
  permissions : List RolePermission := []

/-- The `change` of a `FieldDiff`. -/
inductive Change where
  | added
  | removed
  | typeChanged
  | modified
  deriving DecidableEq

/-- A `FieldDiff`. -/
structure FieldDiff (N : Type) where
  field : String
  change : Change
  oldValue : JsVal N := .undefined
  newValue : JsVal N := .undefined

/-- A `SchemaDiff`. -/
structure Diff (N : Type) [JsNumber N] where
  collectionsAdded : List (Collection N)
  collectionsRemoved : List String
  collectionsModified : List (String × List (FieldDiff N))
  rolesAdded : List String
  rolesRemoved : List String
  permissionsChanged : List PermissionDiff
  totalChanges : ℕ
  breakingChanges : List String
  safeToApply : Bool

/-- `JSON.stringify` of a field. -/
def FieldObject.text (f : FieldObject N) : JsVal N :=
  ((JsVal.obj f.members).toJson).elim .undefined .str

/-- `_diffField`. -/
def diffField (current incoming : FieldObject N) : Option (FieldDiff N) :=
  let same (k : String) := strictEq (current.members.get k) (incoming.members.get k)
  if same "required" && same "index" && same "default" then none
  else some ⟨incoming.name, .modified, current.text, incoming.text⟩

/-- `_diffCollection`. -/
def diffCollection (current incoming : Collection N) : List (FieldDiff N) :=
  let currentMap := indexed FieldObject.name current.fields
  let incomingMap := indexed FieldObject.name incoming.fields
  let added := incomingMap.entries.filterMap fun e =>
    if (currentMap.get? e.1).isNone then
      some ⟨e.1, .added, .undefined, e.2.members.get "type"⟩ else none
  let removed := currentMap.entries.filterMap fun e =>
    if (incomingMap.get? e.1).isNone then
      some ⟨e.1, .removed, e.2.members.get "type", .undefined⟩ else none
  let modified := incomingMap.entries.filterMap fun e =>
    (currentMap.get? e.1).bind fun currentField =>
      let oldType := currentField.members.get "type"
      let newType := e.2.members.get "type"
      if !strictEq oldType newType then some ⟨e.1, .typeChanged, oldType, newType⟩
      else diffField currentField e.2
  added ++ removed ++ modified

/-- How `diff` lists a change of a field that is breaking. -/
def FieldDiff.breaking (slug : String) (d : FieldDiff N) : Option String :=
  let text (change : String) := slug ++ "." ++ d.field ++ ": " ++ change ++
    " (was " ++ d.oldValue.toStr ++ ", now " ++ d.newValue.toStr ++ ")"
  match d.change with
  | .removed => some (text "removed")
  | .typeChanged => some (text "type_changed")
  | .added | .modified => none

/-- `diff`. -/
def diff (current incoming : Snapshot N) : Diff N :=
  let currentCols := indexed Collection.slug current.collections
  let incomingCols := indexed Collection.slug incoming.collections
  let added := incoming.collections.filter fun c => (currentCols.get? c.slug).isNone
  let removed := (current.collections.filter fun c =>
    (incomingCols.get? c.slug).isNone).map Collection.slug
  let modified := (incomingCols.entries.map fun e =>
    (e.1, ((currentCols.get? e.1).map (diffCollection · e.2)).getD [])).filter (0 < ·.2.length)
  let breaking := modified.flatMap fun m => m.2.filterMap (FieldDiff.breaking m.1)
  let rolesAdded := incoming.roles.filter fun r => !current.roles.contains r
  let rolesRemoved := current.roles.filter fun r => !incoming.roles.contains r
  let permissions := diffPermissions current.permissions incoming.permissions
  { collectionsAdded := added
    collectionsRemoved := removed
    collectionsModified := modified
    rolesAdded := rolesAdded
    rolesRemoved := rolesRemoved
    permissionsChanged := permissions
    totalChanges := added.length + removed.length + (modified.map (·.2.length)).sum +
      rolesAdded.length + rolesRemoved.length + permissions.length
    breakingChanges := breaking
    safeToApply := breaking.isEmpty && removed.isEmpty }

/-! ## Agreement -/

/-- Values are structurally equal. -/
inductive Same : JsVal N → JsVal N → Prop
  | scalar {v w : JsVal N} (h : strictEq v w = true) : Same v w
  | arr {xs ys : List (JsVal N)} (h : List.Forall₂ Same xs ys) : Same (.arr xs) (.arr ys)
  | obj {xs ys : List (String × JsVal N)}
      (hkeys : ∀ k, (Record.get? xs k).isSome = (Record.get? ys k).isSome)
      (hvalues : ∀ k v w, Record.get? xs k = some v → Record.get? ys k = some w → Same v w) :
      Same (.obj xs) (.obj ys)

/-- The attributes that are compared. -/
def compared : List String := ["type", "required", "index", "default"]

/-- The last element with a key: it is the one that a `Map` keeps. -/
def lastNamed {α : Type} (key : α → String) (xs : List α) (k : String) : Option α :=
  xs.reverse.find? (key · = k)

section
variable (same : JsVal N → JsVal N → Prop)

/-- Two fields have the same compared attributes. -/
def FieldsAgree (f g : FieldObject N) : Prop :=
  ∀ k ∈ compared, same (f.members.get k) (g.members.get k)

/-- Two collections have the same fields. -/
def CollectionsAgree (c d : Collection N) : Prop :=
  ∀ name, Option.Rel (FieldsAgree same) (lastNamed FieldObject.name c.fields name)
    (lastNamed FieldObject.name d.fields name)

/-- Two permissions have the same flags. -/
def FlagsAgree (p q : RolePermission) : Prop :=
  p.canRead = q.canRead ∧ p.canWrite = q.canWrite ∧ p.canCreate = q.canCreate ∧
    p.canDelete = q.canDelete ∧ p.canApprove = q.canApprove ∧ p.canSubmit = q.canSubmit

/-- Two schemas agree, by a comparison of values. -/
structure AgreeBy (a b : Snapshot N) : Prop where
  collections : ∀ slug, Option.Rel (CollectionsAgree same)
    (lastNamed Collection.slug a.collections slug) (lastNamed Collection.slug b.collections slug)
  roles : ∀ r, r ∈ a.roles ↔ r ∈ b.roles
  permissions : ∀ key, Option.Rel FlagsAgree (lastNamed RolePermission.key a.permissions key)
    (lastNamed RolePermission.key b.permissions key)

end

/-- Two schemas agree. -/
abbrev Agree (a b : Snapshot N) : Prop := AgreeBy Same a b

/-- An array or an object. -/
def isNested (v : JsVal N) : Bool :=
  match v with
  | .arr _ | .obj _ => true
  | _ => false

/-- A field that both schemas have has an array or an object in a compared attribute. -/
def SharesNested (a b : Snapshot N) : Prop :=
  ∃ slug c d name f g, lastNamed Collection.slug a.collections slug = some c ∧
    lastNamed Collection.slug b.collections slug = some d ∧
    lastNamed FieldObject.name c.fields name = some f ∧
    lastNamed FieldObject.name d.fields name = some g ∧
    ∃ k ∈ compared, isNested (f.members.get k) = true

/-- A change that a diff lists. -/
def Diff.Lists (d : Diff N) (slug : String) (change : FieldDiff N) : Prop :=
  ∃ changes, (slug, changes) ∈ d.collectionsModified ∧ change ∈ changes

/-- A diff and that of the exchanged schemas. -/
structure Exchanged (d e : Diff N) : Prop where
  collections : d.collectionsAdded.map Collection.slug = e.collectionsRemoved
  fields : ∀ slug field type, d.Lists slug ⟨field, .added, .undefined, type⟩ ↔
    e.Lists slug ⟨field, .removed, type, .undefined⟩
  roles : d.rolesAdded = e.rolesRemoved

/-- A diff is empty just where the schemas agree, and exchanging them exchanges what is added and what
is removed. -/
structure Exact (a b : Snapshot N) : Prop where
  zero : (diff a b).totalChanges = 0 ↔ Agree a b
  added : Exchanged (diff a b) (diff b a)
  removed : Exchanged (diff b a) (diff a b)

/-! ## Lookups -/

section
variable {α : Type} {key : α → String} {xs : List α} {k : String} {x : α}

omit [JsNumber N] in
theorem get?_indexed (key : α → String) (xs : List α) (k : String) :
    (indexed key xs).get? k = lastNamed key xs k := by
  induction xs using List.reverseRecOn with
  | nil => rfl
  | append_singleton xs x ih =>
    rw [indexed, List.foldl_append, ← indexed, List.foldl_cons, List.foldl_nil, JsMap.get?_set, ih]
    unfold lastNamed
    rw [List.reverse_append, List.reverse_singleton, List.singleton_append, List.find?_cons]
    by_cases h : key x = k
    · rw [if_pos h.symm, decide_eq_true h]
    · rw [if_neg (Ne.symm h), decide_eq_false h]

omit [JsNumber N] in
theorem forall_entries (key : α → String) (xs : List α) {P : String → α → Prop} :
    (∀ e ∈ (indexed key xs).entries, P e.1 e.2) ↔ ∀ k x, lastNamed key xs k = some x → P k x := by
  constructor
  · intro h k x hx
    exact h (k, x) (JsMap.get?_eq_some.1 ((get?_indexed key xs k).trans hx))
  · rintro h ⟨k, x⟩ he
    exact h k x ((get?_indexed key xs k).symm.trans (JsMap.get?_eq_some.2 he))

omit [JsNumber N] in
/-- A key that is found is the key of an element, and the key of an element is found. -/
theorem isSome_lastNamed : (lastNamed key xs k).isSome = true ↔ ∃ x ∈ xs, key x = k := by
  simp [lastNamed]

omit [JsNumber N] in
theorem key_of_lastNamed (h : lastNamed key xs k = some x) : key x = k := by
  simpa using List.find?_some h

/-- Two lookups are related just where each finds what the other one does, and all that is found is
related. -/
theorem forall_rel_iff {β : Type} {R : α → β → Prop} {f : String → Option α}
    {g : String → Option β} : (∀ k, Option.Rel R (f k) (g k)) ↔
      (∀ k y, g k = some y → (f k).isSome = true) ∧ (∀ k x, f k = some x → (g k).isSome = true) ∧
        ∀ k x y, f k = some x → g k = some y → R x y := by
  constructor
  · intro h
    refine ⟨fun k y hy => ?_, fun k x hx => ?_, fun k x y hx hy => ?_⟩
    · have hk := h k
      rw [hy] at hk
      cases hf : f k with
      | none =>
        rw [hf] at hk
        cases hk
      | some x => rfl
    · have hk := h k
      rw [hx] at hk
      cases hg : g k with
      | none =>
        rw [hg] at hk
        cases hk
      | some y => rfl
    · have hk := h k
      rw [hx, hy] at hk
      cases hk
      assumption
  · rintro ⟨hleft, hright, hrel⟩ k
    cases hf : f k with
    | none =>
      cases hg : g k with
      | none => exact .none
      | some y =>
        have hsome := hleft k y hg
        rw [hf] at hsome
        cases hsome
    | some x =>
      obtain ⟨y, hy⟩ := Option.isSome_iff_exists.1 (hright k x hf)
      rw [hy]
      exact .some (hrel k x y hf hy)

end

/-! ## Empty diffs -/

section
variable {a b : Snapshot N} {c d : Collection N} {f g : FieldObject N}

/-- Values are equal by `===`. -/
abbrev Strict (v w : JsVal N) : Prop := strictEq v w = true

theorem strict_iff : FieldsAgree Strict f g ↔
    strictEq (f.members.get "type") (g.members.get "type") = true ∧ diffField f g = none := by
  have hcompared : FieldsAgree Strict f g ↔
      strictEq (f.members.get "type") (g.members.get "type") = true ∧
      strictEq (f.members.get "required") (g.members.get "required") = true ∧
      strictEq (f.members.get "index") (g.members.get "index") = true ∧
      strictEq (f.members.get "default") (g.members.get "default") = true := by
    simp [FieldsAgree, compared]
  rw [hcompared, diffField]
  dsimp only
  split
  · next h =>
    rw [Bool.and_eq_true, Bool.and_eq_true] at h
    simp [h.1.1, h.1.2, h.2]
  · next h =>
    rw [Bool.and_eq_true, Bool.and_eq_true, and_assoc] at h
    simp [h]

/-- Two collections have no change just where their fields agree by `===`. -/
theorem diffCollection_eq_nil : diffCollection c d = [] ↔ CollectionsAgree Strict c d := by
  unfold CollectionsAgree
  rw [forall_rel_iff, diffCollection]
  dsimp only
  rw [List.append_eq_nil_iff, List.append_eq_nil_iff, List.filterMap_eq_nil_iff,
    List.filterMap_eq_nil_iff, List.filterMap_eq_nil_iff, and_assoc]
  refine and_congr ?_ (and_congr ?_ ?_)
  · rw [forall_entries FieldObject.name d.fields (P := fun k g => (if
      ((indexed FieldObject.name c.fields).get? k).isNone = true then
        some (⟨k, .added, .undefined, g.members.get "type"⟩ : FieldDiff N) else none) = none)]
    refine forall_congr' fun k => forall_congr' fun g => imp_congr_right fun _ => ?_
    rw [get?_indexed]
    cases lastNamed FieldObject.name c.fields k <;> simp
  · rw [forall_entries FieldObject.name c.fields (P := fun k f => (if
      ((indexed FieldObject.name d.fields).get? k).isNone = true then
        some (⟨k, .removed, f.members.get "type", .undefined⟩ : FieldDiff N) else none) = none)]
    refine forall_congr' fun k => forall_congr' fun g => imp_congr_right fun _ => ?_
    rw [get?_indexed]
    cases lastNamed FieldObject.name d.fields k <;> simp
  · rw [forall_entries FieldObject.name d.fields (P := fun k g =>
      (((indexed FieldObject.name c.fields).get? k).bind fun f =>
        if (!strictEq (f.members.get "type") (g.members.get "type")) = true then
          some ⟨k, .typeChanged, f.members.get "type", g.members.get "type"⟩
        else diffField f g) = none)]
    have hfield (k : String) (f g : FieldObject N) :
        (if (!strictEq (f.members.get "type") (g.members.get "type")) = true then
          some (⟨k, .typeChanged, f.members.get "type", g.members.get "type"⟩ : FieldDiff N)
        else diffField f g) = none ↔ FieldsAgree Strict f g := by
      rw [strict_iff]
      cases strictEq (f.members.get "type") (g.members.get "type") <;> simp
    constructor
    · intro h k f g hf hg
      have hnone := h k g hg
      rw [get?_indexed, hf, Option.bind_some] at hnone
      exact (hfield k f g).1 hnone
    · intro h k g hg
      rw [get?_indexed]
      cases hf : lastNamed FieldObject.name c.fields k with
      | none => rfl
      | some f => exact (hfield k f g).2 (h k f g hf hg)

/-- Two permissions have no changed flag just where their flags agree. -/
theorem changedFlags_eq_nil {p q : RolePermission} : changedFlags p q = [] ↔ FlagsAgree p q := by
  rw [changedFlags, List.filterMap_eq_nil_iff]
  simp [FlagsAgree]

theorem diffPermissions_eq_nil {ps qs : List RolePermission} :
    diffPermissions ps qs = [] ↔ ∀ key, Option.Rel FlagsAgree
      (lastNamed RolePermission.key ps key) (lastNamed RolePermission.key qs key) := by
  have hentry (ps : List RolePermission) (e : String × RolePermission) :
      e ∈ (indexed RolePermission.key ps).entries ↔ lastNamed RolePermission.key ps e.1 = some e.2 := by
    rw [← get?_indexed]
    exact JsMap.get?_eq_some.symm
  rw [forall_rel_iff, diffPermissions]
  dsimp only
  rw [List.append_eq_nil_iff, List.filterMap_eq_nil_iff, List.filterMap_eq_nil_iff]
  constructor
  · rintro ⟨hchanged, hremoved⟩
    have hflags (k : String) (q : RolePermission) (hq : lastNamed RolePermission.key qs k = some q) :
        ∃ p, lastNamed RolePermission.key ps k = some p ∧ FlagsAgree p q := by
      have hnone := hchanged (k, q) ((hentry qs _).2 hq)
      dsimp only at hnone
      rw [get?_indexed] at hnone
      cases hp : lastNamed RolePermission.key ps k with
      | none =>
        rw [hp] at hnone
        cases hnone
      | some p =>
        rw [hp] at hnone
        refine ⟨p, rfl, changedFlags_eq_nil.1 (by_contra fun hne => ?_)⟩
        dsimp only at hnone
        rw [if_neg hne] at hnone
        cases hnone
    refine ⟨fun k q hq => ?_, fun k p hp => ?_, fun k p q hp hq => ?_⟩
    · obtain ⟨p, hp, -⟩ := hflags k q hq
      rw [hp]
      rfl
    · have hnone := hremoved (k, p) ((hentry ps _).2 hp)
      dsimp only at hnone
      rw [get?_indexed] at hnone
      refine Option.isSome_iff_ne_none.2 fun hq => ?_
      rw [hq] at hnone
      cases hnone
    · obtain ⟨p', hp', hagree⟩ := hflags k q hq
      rw [hp] at hp'
      cases hp'
      exact hagree
  · rintro ⟨hsome, hkeys, hflags⟩
    refine ⟨fun e he => ?_, fun e he => ?_⟩
    · have hq := (hentry qs e).1 he
      obtain ⟨p, hp⟩ := Option.isSome_iff_exists.1 (hsome e.1 e.2 hq)
      rw [get?_indexed, hp]
      exact if_pos (changedFlags_eq_nil.2 (hflags e.1 p e.2 hp hq))
    · obtain ⟨q, hq⟩ := Option.isSome_iff_exists.1 (hkeys e.1 e.2 ((hentry ps e).1 he))
      rw [get?_indexed, hq]
      rfl

theorem totalChanges_eq_zero_iff : (diff a b).totalChanges = 0 ↔
    ((diff a b).collectionsAdded = [] ∧ (diff a b).collectionsRemoved = [] ∧
      (diff a b).collectionsModified = []) ∧
    ((diff a b).rolesAdded = [] ∧ (diff a b).rolesRemoved = []) ∧
      (diff a b).permissionsChanged = [] := by
  have hmodified : ((diff a b).collectionsModified.map (·.2.length)).sum = 0 ↔
      (diff a b).collectionsModified = [] := by
    rw [List.sum_eq_zero_iff]
    constructor
    · intro h
      refine List.eq_nil_iff_forall_not_mem.2 fun m hm => ?_
      have hpos : 0 < m.2.length := by simpa using (List.mem_filter.1 hm).2
      exact hpos.ne' (h _ (List.mem_map_of_mem hm))
    · intro h
      rw [h]
      exact fun n hn => absurd hn List.not_mem_nil
  have htotal : (diff a b).totalChanges = (diff a b).collectionsAdded.length +
      (diff a b).collectionsRemoved.length + ((diff a b).collectionsModified.map (·.2.length)).sum +
      (diff a b).rolesAdded.length + (diff a b).rolesRemoved.length +
      (diff a b).permissionsChanged.length := rfl
  rw [htotal]
  simp only [← List.length_eq_zero_iff (l := (diff a b).collectionsAdded),
    ← List.length_eq_zero_iff (l := (diff a b).collectionsRemoved),
    ← List.length_eq_zero_iff (l := (diff a b).rolesAdded),
    ← List.length_eq_zero_iff (l := (diff a b).rolesRemoved),
    ← List.length_eq_zero_iff (l := (diff a b).permissionsChanged), ← hmodified]
  omega

omit [JsNumber N] in
theorem mem_of_lastNamed {α : Type} {key : α → String} {xs : List α} {k : String} {x : α}
    (h : lastNamed key xs k = some x) : x ∈ xs :=
  List.mem_reverse.1 (List.mem_of_find?_eq_some h)

/-- The elements whose keys a map lacks are none just where the keys that are found are in the map. -/
theorem filter_isNone_eq_nil {α β : Type} {key : α → String} {xs : List α} {m : JsMap String β} :
    xs.filter (fun x => (m.get? (key x)).isNone) = [] ↔
      ∀ k x, lastNamed key xs k = some x → (m.get? k).isSome = true := by
  rw [List.filter_eq_nil_iff]
  constructor
  · intro h k x hx
    have hkey := h x (mem_of_lastNamed hx)
    rw [key_of_lastNamed hx, Option.isNone_iff_eq_none] at hkey
    exact Option.isSome_iff_ne_none.2 hkey
  · intro h x hx
    obtain ⟨y, hy⟩ := Option.isSome_iff_exists.1 (isSome_lastNamed.2 ⟨x, hx, rfl⟩)
    rw [Option.isNone_iff_eq_none]
    exact Option.isSome_iff_ne_none.1 (h (key x) y hy)

/-- A diff has no change just where the schemas agree by `===`. -/
theorem totalChanges_eq_zero : (diff a b).totalChanges = 0 ↔ AgreeBy Strict a b := by
  have hcollections : ((diff a b).collectionsAdded = [] ∧ (diff a b).collectionsRemoved = [] ∧
      (diff a b).collectionsModified = []) ↔ ∀ slug, Option.Rel (CollectionsAgree Strict)
        (lastNamed Collection.slug a.collections slug)
        (lastNamed Collection.slug b.collections slug) := by
    rw [forall_rel_iff]
    refine and_congr ?_ (and_congr ?_ ?_)
    · unfold diff
      dsimp only
      rw [filter_isNone_eq_nil]
      simp only [get?_indexed]
    · unfold diff
      dsimp only
      rw [List.map_eq_nil_iff, filter_isNone_eq_nil]
      simp only [get?_indexed]
    · simp only [diff, List.filter_eq_nil_iff, List.forall_mem_map, decide_eq_true_eq, not_lt,
        Nat.le_zero, List.length_eq_zero_iff]
      rw [forall_entries Collection.slug b.collections (P := fun k d =>
        (((indexed Collection.slug a.collections).get? k).map (diffCollection · d)).getD [] = [])]
      simp only [get?_indexed, ← diffCollection_eq_nil]
      constructor
      · intro h k c d hc hd
        have hnil := h k d hd
        rwa [hc] at hnil
      · intro h k d hd
        cases hc : lastNamed Collection.slug a.collections k with
        | none => rfl
        | some c => exact h k c d hc hd
  have hroles : ((diff a b).rolesAdded = [] ∧ (diff a b).rolesRemoved = []) ↔
      ∀ r, r ∈ a.roles ↔ r ∈ b.roles := by
    simp only [diff, List.filter_eq_nil_iff]
    constructor
    · rintro ⟨hadded, hremoved⟩ r
      exact ⟨fun hr => by simpa using hremoved r hr, fun hr => by simpa using hadded r hr⟩
    · intro h
      exact ⟨fun r hr => by simpa using (h r).2 hr, fun r hr => by simpa using (h r).1 hr⟩
  rw [totalChanges_eq_zero_iff]
  have hpermissions : (diff a b).permissionsChanged = [] ↔ _ := diffPermissions_eq_nil
  rw [hcollections, hroles, hpermissions]
  exact ⟨fun h => ⟨h.1, h.2.1, h.2.2⟩, fun h => ⟨h.collections, h.roles, h.permissions⟩⟩

/-! ## Values that are never equal -/

theorem not_nested_of_strict {v w : JsVal N} (h : Strict v w) : isNested v = false := by
  cases v <;> first | rfl | cases h

theorem Same.strict {v w : JsVal N} (h : Same v w) (hscalar : isNested v = false) : Strict v w := by
  cases h with
  | scalar h => exact h
  | arr _ => cases hscalar
  | obj _ _ => cases hscalar

omit [JsNumber N] in
theorem rel_mono {α β : Type} {R R' : α → β → Prop} {x : Option α} {y : Option β}
    (hmono : ∀ x y, R x y → R' x y) (h : Option.Rel R x y) : Option.Rel R' x y := by
  cases h with
  | none => exact .none
  | some h => exact .some (hmono _ _ h)

/-- A diff has no change just where the schemas agree, and no field of both has an array or an object. -/
theorem totalChanges_eq_zero_iff_agree :
    (diff a b).totalChanges = 0 ↔ Agree a b ∧ ¬SharesNested a b := by
  rw [totalChanges_eq_zero]
  constructor
  · intro h
    refine ⟨⟨fun slug => ?_, h.roles, h.permissions⟩, ?_⟩
    · refine rel_mono (fun c d hcd name => ?_) (h.collections slug)
      exact rel_mono (fun f g hfg k hk => .scalar (hfg k hk)) (hcd name)
    · rintro ⟨slug, c, d, name, f, g, hc, hd, hf, hg, k, hk, hnested⟩
      have hcd := h.collections slug
      rw [hc, hd, Option.rel_some_some] at hcd
      have hfg := hcd name
      rw [hf, hg, Option.rel_some_some] at hfg
      rw [not_nested_of_strict (hfg k hk)] at hnested
      cases hnested
  · rintro ⟨h, hscalar⟩
    have hvalues (slug name : String) (c d : Collection N) (f g : FieldObject N)
        (hc : lastNamed Collection.slug a.collections slug = some c)
        (hd : lastNamed Collection.slug b.collections slug = some d)
        (hf : lastNamed FieldObject.name c.fields name = some f)
        (hg : lastNamed FieldObject.name d.fields name = some g) (hfg : FieldsAgree Same f g) :
        FieldsAgree Strict f g := by
      intro k hk
      refine (hfg k hk).strict (Bool.eq_false_iff.2 fun hnested => hscalar ?_)
      exact ⟨slug, c, d, name, f, g, hc, hd, hf, hg, k, hk, hnested⟩
    refine ⟨?_, h.roles, h.permissions⟩
    obtain ⟨hleft, hright, hrel⟩ := forall_rel_iff.1 h.collections
    refine forall_rel_iff.2 ⟨hleft, hright, fun slug c d hc hd => ?_⟩
    obtain ⟨hleft', hright', hrel'⟩ := forall_rel_iff.1 (hrel slug c d hc hd)
    refine forall_rel_iff.2 ⟨hleft', hright', fun name f g hf hg => ?_⟩
    exact hvalues slug name c d f g hc hd hf hg (hrel' name f g hf hg)

/-! ## Exchanged schemas -/

theorem lists_iff {slug : String} {change : FieldDiff N} : (diff a b).Lists slug change ↔
    ∃ c d, lastNamed Collection.slug a.collections slug = some c ∧
      lastNamed Collection.slug b.collections slug = some d ∧ change ∈ diffCollection c d := by
  unfold Diff.Lists diff
  dsimp only
  simp only [List.mem_filter, List.mem_map]
  constructor
  · rintro ⟨changes, ⟨⟨⟨key, d⟩, hd, heq⟩, -⟩, hmem⟩
    obtain ⟨rfl, rfl⟩ := Prod.mk.inj heq
    have hd' := (get?_indexed Collection.slug b.collections key).symm.trans (JsMap.get?_eq_some.2 hd)
    rw [get?_indexed] at hmem
    cases hc : lastNamed Collection.slug a.collections key with
    | none =>
      rw [hc] at hmem
      exact absurd hmem List.not_mem_nil
    | some c =>
      rw [hc] at hmem
      exact ⟨c, d, rfl, hd', hmem⟩
  · rintro ⟨c, d, hc, hd, hmem⟩
    refine ⟨diffCollection c d, ⟨⟨(slug, d), ?_, ?_⟩, ?_⟩, hmem⟩
    · exact JsMap.get?_eq_some.1 ((get?_indexed Collection.slug b.collections slug).trans hd)
    · rw [get?_indexed, hc]
      rfl
    · exact decide_eq_true (List.length_pos_of_mem hmem)

/-- Changes of a field that both collections have neither add nor remove it. -/
theorem modified_of_diffField {change : FieldDiff N} (h : diffField f g = some change) :
    change.change = .modified := by
  unfold diffField at h
  dsimp only at h
  split at h
  · cases h
  · cases h
    rfl

/-- The changes of two collections: added fields, removed fields, and changes of fields of both. -/
theorem mem_diffCollection {change : FieldDiff N} : change ∈ diffCollection c d ↔
    (∃ name g, lastNamed FieldObject.name c.fields name = none ∧
      lastNamed FieldObject.name d.fields name = some g ∧
      change = ⟨name, .added, .undefined, g.members.get "type"⟩) ∨
    (∃ name f, lastNamed FieldObject.name d.fields name = none ∧
      lastNamed FieldObject.name c.fields name = some f ∧
      change = ⟨name, .removed, f.members.get "type", .undefined⟩) ∨
    (∃ name f g, lastNamed FieldObject.name c.fields name = some f ∧
      lastNamed FieldObject.name d.fields name = some g ∧
      (if (!strictEq (f.members.get "type") (g.members.get "type")) = true then
        some ⟨name, .typeChanged, f.members.get "type", g.members.get "type"⟩
      else diffField f g) = some change) := by
  have hentry (fields : List (FieldObject N)) (e : String × FieldObject N) :
      e ∈ (indexed FieldObject.name fields).entries ↔
        lastNamed FieldObject.name fields e.1 = some e.2 := by
    rw [← get?_indexed]
    exact JsMap.get?_eq_some.symm
  have hadded (xs ys : List (FieldObject N)) (made : String → FieldObject N → FieldDiff N) :
      change ∈ (indexed FieldObject.name ys).entries.filterMap (fun e =>
        if ((indexed FieldObject.name xs).get? e.1).isNone = true then some (made e.1 e.2) else none) ↔
      ∃ name g, lastNamed FieldObject.name xs name = none ∧
        lastNamed FieldObject.name ys name = some g ∧ change = made name g := by
    rw [List.mem_filterMap]
    constructor
    · rintro ⟨e, he, hmade⟩
      rw [get?_indexed] at hmade
      split at hmade
      · next hnone =>
        exact ⟨e.1, e.2, Option.isNone_iff_eq_none.1 hnone, (hentry ys e).1 he,
          (Option.some.inj hmade).symm⟩
      · cases hmade
    · rintro ⟨name, g, hnone, hg, rfl⟩
      refine ⟨(name, g), (hentry ys _).2 hg, ?_⟩
      rw [get?_indexed, hnone]
      rfl
  unfold diffCollection
  dsimp only
  rw [List.mem_append, List.mem_append, or_assoc]
  refine or_congr (hadded c.fields d.fields fun name g =>
    ⟨name, .added, .undefined, g.members.get "type"⟩) (or_congr (hadded d.fields c.fields fun name f =>
    ⟨name, .removed, f.members.get "type", .undefined⟩) ?_)
  rw [List.mem_filterMap]
  constructor
  · rintro ⟨e, he, hmade⟩
    rw [get?_indexed] at hmade
    obtain ⟨f, hf, hmade⟩ := Option.bind_eq_some_iff.1 hmade
    exact ⟨e.1, f, e.2, hf, (hentry d.fields e).1 he, hmade⟩
  · rintro ⟨name, f, g, hf, hg, hmade⟩
    refine ⟨(name, g), (hentry d.fields _).2 hg, ?_⟩
    rw [get?_indexed, hf]
    exact hmade

/-- A change of a field of both collections is one of its type, or one that `_diffField` finds. -/
theorem change_of_both {name : String} {change : FieldDiff N}
    (h : (if (!strictEq (f.members.get "type") (g.members.get "type")) = true then
        some ⟨name, .typeChanged, f.members.get "type", g.members.get "type"⟩
      else diffField f g) = some change) :
    change.change = .typeChanged ∨ change.change = .modified := by
  split at h
  · cases h
    exact .inl rfl
  · exact .inr (modified_of_diffField h)

theorem mem_diffCollection_added {field : String} {type : JsVal N} :
    (⟨field, .added, .undefined, type⟩ : FieldDiff N) ∈ diffCollection c d ↔
      lastNamed FieldObject.name c.fields field = none ∧
        ∃ g, lastNamed FieldObject.name d.fields field = some g ∧ g.members.get "type" = type := by
  rw [mem_diffCollection]
  constructor
  · rintro (⟨name, g, hnone, hg, heq⟩ | ⟨name, f, -, -, heq⟩ | ⟨name, f, g, -, -, hboth⟩)
    · obtain ⟨rfl, -, -, rfl⟩ := FieldDiff.mk.inj heq
      exact ⟨hnone, g, hg, rfl⟩
    · cases (FieldDiff.mk.inj heq).2.1
    · cases change_of_both hboth with
      | inl h => cases h
      | inr h => cases h
  · rintro ⟨hnone, g, hg, rfl⟩
    exact .inl ⟨field, g, hnone, hg, rfl⟩

theorem mem_diffCollection_removed {field : String} {type : JsVal N} :
    (⟨field, .removed, type, .undefined⟩ : FieldDiff N) ∈ diffCollection c d ↔
      lastNamed FieldObject.name d.fields field = none ∧
        ∃ f, lastNamed FieldObject.name c.fields field = some f ∧ f.members.get "type" = type := by
  rw [mem_diffCollection]
  constructor
  · rintro (⟨name, g, -, -, heq⟩ | ⟨name, f, hnone, hf, heq⟩ | ⟨name, f, g, -, -, hboth⟩)
    · cases (FieldDiff.mk.inj heq).2.1
    · obtain ⟨rfl, -, rfl, -⟩ := FieldDiff.mk.inj heq
      exact ⟨hnone, f, hf, rfl⟩
    · cases change_of_both hboth with
      | inl h => cases h
      | inr h => cases h
  · rintro ⟨hnone, f, hf, rfl⟩
    exact .inr (.inl ⟨field, f, hnone, hf, rfl⟩)

theorem exchanged : Exchanged (diff a b) (diff b a) := by
  refine ⟨rfl, fun slug field type => ?_, rfl⟩
  rw [lists_iff, lists_iff]
  constructor
  · rintro ⟨c, d, hc, hd, hmem⟩
    exact ⟨d, c, hd, hc, mem_diffCollection_removed.2 (mem_diffCollection_added.1 hmem)⟩
  · rintro ⟨d, c, hd, hc, hmem⟩
    exact ⟨c, d, hc, hd, mem_diffCollection_added.2 (mem_diffCollection_removed.1 hmem)⟩

/-! ## Copies -/

/-- A value is equal to itself, but for an array or an object. -/
theorem strict_self (f : FieldObject N) (k : String) :
    Strict (f.members.get k) (f.members.get k) ↔ isNested (f.members.get k) = false := by
  constructor
  · exact not_nested_of_strict
  · intro h
    have hnumber := f.numbers k
    cases hv : f.members.get k with
    | num n => exact hnumber n hv
    | bool b => exact beq_self_eq_true b
    | str s => exact beq_self_eq_true s
    | func s => exact beq_self_eq_true s
    | undefined => rfl
    | null => rfl
    | arr xs =>
      rw [hv] at h
      cases h
    | obj kvs =>
      rw [hv] at h
      cases h

/-- Without an array or an object, a schema agrees with itself by `===`. -/
theorem agree_self (h : ¬SharesNested a a) : AgreeBy Strict a a := by
  have hfields (slug name : String) (c : Collection N) (f : FieldObject N)
      (hc : lastNamed Collection.slug a.collections slug = some c)
      (hf : lastNamed FieldObject.name c.fields name = some f) : FieldsAgree Strict f f := by
    intro k hk
    refine (strict_self f k).2 (Bool.eq_false_iff.2 fun hnested => h ?_)
    exact ⟨slug, c, c, name, f, f, hc, hc, hf, hf, k, hk, hnested⟩
  refine ⟨fun slug => ?_, fun _ => Iff.rfl, fun key => ?_⟩
  · cases hc : lastNamed Collection.slug a.collections slug with
    | none => exact .none
    | some c =>
      refine .some fun name => ?_
      cases hf : lastNamed FieldObject.name c.fields name with
      | none => exact .none
      | some f => exact .some (hfields slug name c f hc hf)
  · cases lastNamed RolePermission.key a.permissions key with
    | none => exact .none
    | some p => exact .some ⟨rfl, rfl, rfl, rfl, rfl, rfl⟩

end

/-- What a diff says of two schemas is exact unless they agree and a field of both has an array or an
object in a compared attribute; the diff of a schema with a copy of itself is empty just where no
field has one. -/
theorem exact_iff : (∀ a b : Snapshot N, Exact a b ↔ ¬(Agree a b ∧ SharesNested a b)) ∧
    ∀ a : Snapshot N, (diff a a).totalChanges = 0 ↔ ¬SharesNested a a := by
  constructor
  · intro a b
    constructor
    · rintro h ⟨hagree, hnested⟩
      exact (totalChanges_eq_zero_iff_agree.1 (h.zero.2 hagree)).2 hnested
    · intro h
      refine ⟨?_, exchanged, exchanged⟩
      rw [totalChanges_eq_zero_iff_agree]
      exact ⟨fun hboth => hboth.1, fun hagree => ⟨hagree, fun hnested => h ⟨hagree, hnested⟩⟩⟩
  · exact fun a => ⟨fun h => (totalChanges_eq_zero_iff_agree.1 h).2, fun h =>
      totalChanges_eq_zero.2 (agree_self h)⟩

/-- The members of a `json` field whose default is an object. -/
def metaMembers : Record (Option ℤ) :=
  [("name", .str "meta"), ("type", .str "json"), ("default", .obj [("key", .str "value")])]

theorem numbers_metaMembers (k : String) (n : Option ℤ) (h : metaMembers.get k = .num n) :
    JsNumber.eq n n = true := by
  rw [metaMembers, Record.get, Record.get?_cons, Record.get?_cons, Record.get?_cons,
    Record.get?_nil] at h
  split_ifs at h <;> cases h

/-- A schema with one field. -/
def metaSchema : Snapshot (Option ℤ) where
  collections := [⟨"products", [⟨"meta", metaMembers, numbers_metaMembers⟩], []⟩]

/-- A schema with a `json` field whose default is an object differs from a copy of itself. -/
theorem not_exact_metaSchema : ¬Exact metaSchema metaSchema := by
  have htotal : (diff metaSchema metaSchema).totalChanges = 1 := by decide
  have hdefault : Same (.obj [("key", .str "value")] : JsVal (Option ℤ))
      (.obj [("key", .str "value")]) := by
    refine .obj (fun _ => rfl) fun k v w hv hw => ?_
    rw [Record.get?_cons, Record.get?_nil] at hv hw
    split_ifs at hv hw
    cases hv
    cases hw
    exact .scalar rfl
  have hfield (f : FieldObject (Option ℤ)) (hf : f.members = metaMembers) : FieldsAgree Same f f := by
    intro k hk
    rw [hf]
    simp only [compared, List.mem_cons, List.not_mem_nil, or_false] at hk
    obtain rfl | rfl | rfl | rfl := hk
    · exact .scalar rfl
    · exact .scalar rfl
    · exact .scalar rfl
    · exact hdefault
  have hagree : Agree metaSchema metaSchema := by
    refine ⟨fun slug => ?_, fun _ => Iff.rfl, fun _ => .none⟩
    cases hc : lastNamed Collection.slug metaSchema.collections slug with
    | none => exact .none
    | some c =>
      refine .some fun name => ?_
      cases hf : lastNamed FieldObject.name c.fields name with
      | none => exact .none
      | some f =>
        obtain rfl := List.mem_singleton.1 (mem_of_lastNamed hc)
        obtain rfl := List.mem_singleton.1 (mem_of_lastNamed hf)
        exact .some (hfield _ rfl)
  intro h
  rw [h.zero.2 hagree] at htotal
  cases htotal

end HeadlessErp.SchemaDiffer
