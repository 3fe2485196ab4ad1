import HeadlessErp.Entity.FieldSelection
import HeadlessErp.Entity.Store

/-!
# Resolved rows

The objects that `apps/api/src/lib/services/collection-relations.service.ts` makes of rows. An object
keeps the row of the table that it stands for, and the value of a formula the rows that its evaluation
has read, which the code does not: they are what a response is compared with. Every object is a value
of its own, where the code puts one object at every place that refers to its row.
-/

namespace HeadlessErp

/-- A row of the table of a collection. -/
structure Origin (N : Type) where
  collection : String
  row : Record N

/-- What a property of an object holds: a value of the row, the value of a formula with the rows it
was computed from (and what of these the scope had), a related row, or a list of them. -/
inductive Node (N : Type) where
  | value (v : JsVal N)
  | computed (v : JsVal N) (looked : List (Origin N × Record N))
  | object (origin : Origin N) (fields : List (String × Node N))
  | array (objects : List (Origin N × List (String × Node N)))

/-- An object. -/
abbrev Item (N : Type) := Origin N × List (String × Node N)

section
variable {N : Type}

mutual
/-- The JavaScript value of a property. -/
def Node.js : Node N → JsVal N
  | .value v => v
  | .computed v _ => v
  | .object _ fields => .obj (fieldsJs fields)
  | .array objects => .arr (objectsJs objects)

/-- The properties of an object. -/
def fieldsJs : List (String × Node N) → Record N
  | [] => []
  | (k, n) :: fields => (k, n.js) :: fieldsJs fields

/-- The elements of a list of objects. -/
def objectsJs : List (Origin N × List (String × Node N)) → List (JsVal N)
  | [] => []
  | (_, fields) :: objects => .obj (fieldsJs fields) :: objectsJs objects
end

/-- The objects that a property is or has. -/
def Node.objects : Node N → List (Item N)
  | .object origin fields => [(origin, fields)]
  | .array objects => objects
  | _ => []

/-- The properties of a row. -/
def valueFields (row : Record N) : List (String × Node N) := row.map fun kv => (kv.1, .value kv.2)

namespace Item

/-- The own property of a name. -/
def get? (it : Item N) (k : String) : Option (Node N) := (it.2.find? (·.1 == k)).map (·.2)

/-- `item[k] = n`, on the properties. -/
def setField : List (String × Node N) → String → Node N → List (String × Node N)
  | [], k, n => [(k, n)]
  | (k', n') :: fields, k, n =>
    if k' == k then (k, n) :: fields else (k', n') :: setField fields k n

/-- `item[k] = n`. -/
def set (it : Item N) (k : String) (n : Node N) : Item N := (it.1, setField it.2 k n)

/-- `delete item[k]`. -/
def erase (it : Item N) (k : String) : Item N := (it.1, it.2.filter (·.1 != k))

/-- The text that `item[k]` is. -/
def text? (it : Item N) (k : String) : Option String :=
  match (it.get? k).map Node.js with
  | some (.str s) => some s
  | _ => none

/-- The objects that `item[k]` is or has. -/
def objects (it : Item N) (k : String) : List (Item N) := (it.get? k).elim [] Node.objects

/-- The properties that an object may show. -/
def only (keep : String → Bool) (it : Item N) : Item N := (it.1, it.2.filter fun kv => keep kv.1)

variable {it : Item N} {k k' : String} {n : Node N}

@[simp] theorem set_origin : (it.set k n).1 = it.1 := rfl

@[simp] theorem erase_origin : (it.erase k).1 = it.1 := rfl

theorem get?_cons (origin : Origin N) (kv : String × Node N) (fields : List (String × Node N))
    (k : String) :
    get? (origin, kv :: fields) k = if kv.1 = k then some kv.2 else get? (origin, fields) k := by
  unfold get?
  rw [List.find?_cons]
  by_cases h : kv.1 = k
  · simp [h]
  · simp [h, beq_eq_false_iff_ne.mpr h]

theorem get?_set (it : Item N) (k k' : String) (n : Node N) :
    (it.set k n).get? k' = if k = k' then some n else it.get? k' := by
  obtain ⟨origin, fields⟩ := it
  simp only [set]
  induction fields with
  | nil => simp [setField, get?_cons]
  | cons kv fields ih =>
    obtain ⟨k₀, n₀⟩ := kv
    unfold setField
    by_cases h₀ : k₀ = k
    · subst h₀
      by_cases h : k₀ = k' <;> simp [get?_cons, h]
    · simp only [beq_iff_eq, h₀, if_false, get?_cons, ih]
      by_cases h : k₀ = k'
      · subst h
        simp [Ne.symm h₀]
      · simp [h]

theorem get?_filter (origin : Origin N) (p : String → Bool) (fields : List (String × Node N))
    (k : String) :
    get? (origin, fields.filter fun kv => p kv.1) k =
      if p k then get? (origin, fields) k else none := by
  induction fields with
  | nil => simp [get?]
  | cons kv fields ih =>
    rw [List.filter_cons, get?_cons]
    by_cases h : kv.1 = k
    · subst h
      by_cases hp : p kv.1 <;> simp [hp, get?_cons, ih]
    · by_cases hp : p kv.1 <;> simp [hp, get?_cons, ih, h]

theorem get?_erase (it : Item N) (k k' : String) :
    (it.erase k).get? k' = if k = k' then none else it.get? k' := by
  obtain ⟨origin, fields⟩ := it
  rw [erase, get?_filter origin (· != k)]
  by_cases h : k = k'
  · simp [h]
  · simp [h, Ne.symm h]

theorem get?_only (keep : String → Bool) (it : Item N) (k : String) :
    (it.only keep).get? k = if keep k then it.get? k else none :=
  get?_filter it.1 keep it.2 k

theorem get?_append (origin : Origin N) (fields fields' : List (String × Node N)) (k : String) :
    get? (origin, fields ++ fields') k = (get? (origin, fields) k).or (get? (origin, fields') k) := by
  induction fields with
  | nil => rfl
  | cons kv fields ih =>
    rw [List.cons_append, get?_cons, get?_cons, ih]
    split <;> rfl

/-- Properties that are set one after the other. -/
theorem get?_setAll (kvs : List (String × Node N)) (k : String) (n : Node N)
    (it : Item N) : ((kvs.foldl (fun it kv => it.set kv.1 kv.2) it).1 = it.1) ∧
      ((∀ n, (k, n) ∉ kvs) →
        (kvs.foldl (fun it kv => it.set kv.1 kv.2) it).get? k = it.get? k) ∧
      ((kvs.foldl (fun it kv => it.set kv.1 kv.2) it).get? k = some n →
        (k, n) ∈ kvs ∨ it.get? k = some n) := by
  induction kvs generalizing it with
  | nil => exact ⟨rfl, fun _ => rfl, .inr⟩
  | cons kv kvs ih =>
    obtain ⟨k', n'⟩ := kv
    obtain ⟨horigin, hother, hmem⟩ := ih (it.set k' n')
    refine ⟨horigin, fun hk => ?_, fun hget => ?_⟩
    · have hne : k' ≠ k := fun heq => hk n' (heq ▸ List.mem_cons_self)
      rw [List.foldl_cons, hother fun n hn => hk n (List.mem_cons_of_mem _ hn), get?_set, if_neg hne]
    · obtain h | h := hmem hget
      · exact .inl (List.mem_cons_of_mem _ h)
      · rw [get?_set] at h
        split at h
        · next hk =>
          cases h
          exact .inl (hk ▸ List.mem_cons_self)
        · exact .inr h

end Item

/-- The properties of a row are its columns. -/
theorem get?_valueFields (origin : Origin N) (row : Record N) (k : String) :
    Item.get? (origin, valueFields row) k = (row.get? k).map .value := by
  unfold valueFields
  induction row with
  | nil => rfl
  | cons kv row ih =>
    rw [List.map_cons, Item.get?_cons, Record.get?_cons, ih]
    split <;> rfl

/-! ## Pruning -/

/-- The properties that `pruneRow` leaves. -/
def FieldSelection.keeps (node : FieldSelection) (k : String) : Bool :=
  (node.all || k == "id" || node.columns.contains k || node.relations.any (·.1 == k)) &&
    !node.excludes.contains k

/-- `out[k] = row[k]`, where the row has it. -/
def copyField (it : Item N) (out : Item N) (k : String) : Item N :=
  match it.get? k with
  | some n => out.set k n
  | none => out

/-- `pruneRow`. -/
def pruneRow (node : FieldSelection) (it : Item N) : Item N :=
  let out : Item N := (it.1, [("id", (it.get? "id").getD (.value .undefined))])
  let names := if node.all then it.2.map (·.1) else node.columns ++ node.relations.map (·.1)
  node.excludes.foldl Item.erase (names.foldl (copyField it) out)

section
variable {it : Item N} {k : String} {n : Node N}

@[simp] theorem copyField_origin (out : Item N) (k : String) : (copyField it out k).1 = out.1 := by
  unfold copyField
  split <;> rfl

theorem get?_copyField {out : Item N} {k' : String} (h : (copyField it out k').get? k = some n) :
    (k' = k ∧ it.get? k = some n) ∨ out.get? k = some n := by
  unfold copyField at h
  split at h
  · next m hm =>
    rw [Item.get?_set] at h
    split at h
    · next hk =>
      subst hk
      exact .inl ⟨rfl, hm.trans h⟩
    · exact .inr h
  · exact .inr h

theorem get?_eraseAll (excludes : List String) {out : Item N}
    (h : (excludes.foldl Item.erase out).get? k = some n) : k ∉ excludes ∧ out.get? k = some n := by
  induction excludes generalizing out with
  | nil => exact ⟨List.not_mem_nil, h⟩
  | cons e excludes ih =>
    obtain ⟨hk, hout⟩ := ih h
    rw [Item.get?_erase] at hout
    split at hout
    · cases hout
    · next hne => exact ⟨fun hmem => (List.mem_cons.1 hmem).elim (fun heq => hne heq.symm) hk, hout⟩

theorem pruneRow_origin (node : FieldSelection) (it : Item N) : (pruneRow node it).1 = it.1 := by
  have herase (excludes : List String) (out : Item N) :
      (excludes.foldl Item.erase out).1 = out.1 := by
    induction excludes generalizing out with
    | nil => rfl
    | cons e excludes ih => exact ih _
  have hcopy (names : List String) (out : Item N) :
      (names.foldl (copyField it) out).1 = out.1 := by
    induction names generalizing out with
    | nil => rfl
    | cons name names ih => exact (ih _).trans (copyField_origin _ _)
  unfold pruneRow
  rw [herase, hcopy]

/-- What a pruned object has is kept by the selection, and was there before, its id apart. -/
theorem get?_pruneRow {node : FieldSelection} (h : (pruneRow node it).get? k = some n) :
    node.keeps k = true ∧ (it.get? k = some n ∨ n = .value .undefined ∧ k = "id") := by
  obtain ⟨hexcluded, hout⟩ := get?_eraseAll _ h
  have hnames : ∀ names : List String, ∀ out : Item N,
      (names.foldl (copyField it) out).get? k = some n →
        (k ∈ names ∧ it.get? k = some n) ∨ out.get? k = some n := by
    intro names
    induction names with
    | nil => exact fun out h => .inr h
    | cons name names ih =>
      intro out h
      obtain ⟨hk, hit⟩ | h := ih _ h
      · exact .inl ⟨List.mem_cons_of_mem _ hk, hit⟩
      · obtain ⟨rfl, hit⟩ | h := get?_copyField h
        · exact .inl ⟨List.mem_cons_self, hit⟩
        · exact .inr h
  unfold FieldSelection.keeps
  obtain ⟨hk, hit⟩ | hid := hnames _ _ hout
  · refine ⟨?_, .inl hit⟩
    split at hk
    · next hall => simp [hall, hexcluded]
    · obtain hk | hk := List.mem_append.1 hk
      · simp [hk, hexcluded]
      · obtain ⟨kv, hkv, rfl⟩ := List.mem_map.1 hk
        simp only [hexcluded, List.contains_eq_mem, decide_false, Bool.not_false, Bool.and_true,
          Bool.or_eq_true]
        exact .inr (List.any_eq_true.2 ⟨kv, hkv, by simp⟩)
  · rw [Item.get?_cons] at hid
    split at hid
    · next hk =>
      subst hk
      refine ⟨by simp [hexcluded], ?_⟩
      obtain rfl := Option.some.inj hid
      cases hget : it.get? "id" with
      | none => exact .inr ⟨rfl, rfl⟩
      | some m => exact .inl rfl
    · cases hid

end

/-- The objects of a property that are kept, each resolved: a single one that is not becomes `null`. -/
def Node.refine (keep : Item N → Bool) (resolve : Item N → Except String (Item N)) :
    Node N → Except String (Node N)
  | .object origin fields => do
    if keep (origin, fields) then
      let (origin, fields) ← resolve (origin, fields)
      .ok (.object origin fields)
    else .ok (.value .null)
  | .array objects => do
    let objects ← (objects.filter keep).mapM resolve
    .ok (.array objects)
  | n => .ok n

/-- The collection and the id that an `m2a` field of a row refers to. -/
def m2aReference (f : FieldDefinition N) (it : Item N) : Option (String × String) := do
  let type ← it.text? (f.name ++ "_type")
  let id ← it.text? (f.name ++ "_id")
  some (type, id)

end

end HeadlessErp
