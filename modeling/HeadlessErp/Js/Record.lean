import HeadlessErp.Js.Value

/-!
# Records

A `Record<string, unknown>`: a row of a table or the fields of a request, as a list of properties.
A property that is set again keeps its place.
-/

namespace HeadlessErp

/-- A record. -/
abbrev Record (N : Type) := List (String × JsVal N)

namespace Record
variable {N : Type} {r d : Record N} {k k' : String} {v : JsVal N}

/-- The own property of a name. -/
def get? (r : Record N) (k : String) : Option (JsVal N) := JsVal.ownMember r k

/-- `r[k]`. -/
def get (r : Record N) (k : String) : JsVal N := (r.get? k).getD .undefined

/-- `k in r`. -/
def has (r : Record N) (k : String) : Bool := r.any (·.1 == k)

/-- `r[k] = v`. -/
def set : Record N → String → JsVal N → Record N
  | [], k, v => [(k, v)]
  | (k', v') :: r, k, v => if k' == k then (k, v) :: r else (k', v') :: set r k v

/-- `delete r[k]`. -/
def erase (r : Record N) (k : String) : Record N := r.filter (·.1 != k)

/-- `Object.assign(r, d)`, and `{ ...r, ...d }`. -/
def assign (r d : Record N) : Record N :=
  r.map (fun kv => (kv.1, (d.get? kv.1).getD kv.2)) ++ d.filter (fun kv => !r.has kv.1)

@[simp] theorem get?_nil (k : String) : get? ([] : Record N) k = none := rfl

theorem get?_cons (kv : String × JsVal N) (r : Record N) (k : String) :
    get? (kv :: r) k = if kv.1 = k then some kv.2 else get? r k := by
  unfold get? JsVal.ownMember
  rw [List.find?_cons]
  by_cases h : kv.1 = k
  · simp [h]
  · simp [h, beq_eq_false_iff_ne.mpr h]

/-- A property that was set. -/
theorem get?_set (r : Record N) (k k' : String) (v : JsVal N) :
    (r.set k v).get? k' = if k = k' then some v else r.get? k' := by
  induction r with
  | nil => simp [set, get?_cons]
  | cons kv r ih =>
    obtain ⟨k₀, v₀⟩ := kv
    unfold set
    by_cases h₀ : k₀ = k
    · subst h₀
      by_cases h : k₀ = k' <;> simp [get?_cons, h]
    · simp only [beq_iff_eq, h₀, if_false, get?_cons, ih]
      by_cases h : k₀ = k'
      · subst h
        simp [Ne.symm h₀]
      · simp [h]

/-- A property that was erased. -/
theorem get?_erase (r : Record N) (k k' : String) :
    (r.erase k).get? k' = if k = k' then none else r.get? k' := by
  induction r with
  | nil => simp [erase]
  | cons kv r ih =>
    unfold erase at ih ⊢
    rw [List.filter_cons]
    by_cases h : kv.1 = k
    · subst h
      simp only [bne_self_eq_false, Bool.false_eq_true, if_false, ih, get?_cons]
      split <;> rfl
    · simp only [bne_iff_ne, ne_eq, h, not_false_eq_true, if_true, get?_cons, ih]
      by_cases h' : kv.1 = k'
      · subst h'
        simp [Ne.symm h]
      · simp [h']

theorem get?_append (r d : Record N) (k : String) :
    get? (r ++ d) k = (r.get? k).or (d.get? k) := by
  induction r with
  | nil => rfl
  | cons kv r ih =>
    rw [List.cons_append, get?_cons, get?_cons, ih]
    split <;> rfl

/-- The values of a record, changed property by property. -/
theorem get?_map (f : String → JsVal N → JsVal N) (r : Record N) (k : String) :
    get? (r.map fun kv => (kv.1, f kv.1 kv.2)) k = (r.get? k).map (f k) := by
  induction r with
  | nil => rfl
  | cons kv r ih =>
    rw [List.map_cons, get?_cons, get?_cons, ih]
    split
    · next h => rw [h, Option.map_some]
    · rfl

theorem get?_filter (p : String → Bool) (r : Record N) (k : String) :
    get? (r.filter fun kv => p kv.1) k = if p k then r.get? k else none := by
  induction r with
  | nil => simp
  | cons kv r ih =>
    rw [List.filter_cons, get?_cons]
    by_cases h : kv.1 = k
    · subst h
      by_cases hp : p kv.1 <;> simp [hp, get?_cons, ih]
    · by_cases hp : p kv.1 <;> simp [hp, get?_cons, ih, h]

theorem has_eq_isSome (r : Record N) (k : String) : r.has k = (r.get? k).isSome := by
  induction r with
  | nil => rfl
  | cons kv r ih =>
    unfold has at ih ⊢
    rw [List.any_cons, ih, get?_cons]
    by_cases h : kv.1 = k <;> simp [h]

@[simp] theorem has_set (r : Record N) (k k' : String) (v : JsVal N) :
    (r.set k v).has k' = true ↔ k = k' ∨ r.has k' = true := by
  rw [has_eq_isSome, has_eq_isSome, get?_set]
  by_cases h : k = k' <;> simp [h]

@[simp] theorem has_erase (r : Record N) (k k' : String) :
    (r.erase k).has k' = true ↔ k ≠ k' ∧ r.has k' = true := by
  rw [has_eq_isSome, has_eq_isSome, get?_erase]
  by_cases h : k = k' <;> simp [h]

/-- The names of the properties. -/
theorem mem_keys_iff {r : Record N} {k : String} : k ∈ r.map (·.1) ↔ r.has k = true := by
  unfold has
  rw [List.any_eq_true, List.mem_map]
  simp only [beq_iff_eq]

/-- Erasing several properties. -/
theorem has_foldl_erase (names : List String) (r : Record N) (k : String) :
    (names.foldl erase r).has k = true ↔ r.has k = true ∧ k ∉ names := by
  induction names generalizing r with
  | nil => simp
  | cons name names ih =>
    rw [List.foldl_cons, ih, has_erase, List.mem_cons]
    constructor
    · rintro ⟨⟨hne, hr⟩, hnot⟩
      exact ⟨hr, fun h => h.elim (fun h => hne h.symm) hnot⟩
    · rintro ⟨hr, hnot⟩
      exact ⟨⟨fun h => hnot (.inl h.symm), hr⟩, fun h => hnot (.inr h)⟩

/-- Setting several properties. -/
theorem has_foldl_set (names : List String) (v : JsVal N) (r : Record N) (k : String) :
    (names.foldl (fun r name => r.set name v) r).has k = true ↔ r.has k = true ∨ k ∈ names := by
  induction names generalizing r with
  | nil => simp
  | cons name names ih =>
    rw [List.foldl_cons, ih, has_set, List.mem_cons, or_comm (a := name = k), or_assoc,
      eq_comm (a := name)]

/-- A property of a record that another was assigned to. -/
theorem get?_assign (r d : Record N) (k : String) :
    (r.assign d).get? k = (d.get? k).or (r.get? k) := by
  unfold assign
  rw [get?_append, get?_map fun k v => (d.get? k).getD v, get?_filter fun k => !r.has k,
    has_eq_isSome]
  cases r.get? k <;> cases d.get? k <;> simp

@[simp] theorem has_assign (r d : Record N) (k : String) :
    (r.assign d).has k = true ↔ r.has k = true ∨ d.has k = true := by
  rw [has_eq_isSome, has_eq_isSome, has_eq_isSome, get?_assign]
  cases r.get? k <;> cases d.get? k <;> simp

theorem get_eq (r : Record N) (k : String) : r.get k = (r.get? k).getD .undefined := rfl

/-- A property that is nowhere in a record. -/
theorem get?_eq_none (h : ∀ kv ∈ r, kv.1 ≠ k) : r.get? k = none := by
  induction r with
  | nil => rfl
  | cons kv r ih =>
    rw [get?_cons, if_neg (h kv List.mem_cons_self)]
    exact ih fun kv' hkv' => h kv' (List.mem_cons_of_mem kv hkv')

/-! ## Properties of distinct names -/

theorem mem_set {kv : String × JsVal N} (h : kv ∈ r.set k v) :
    kv = (k, v) ∨ kv ∈ r := by
  induction r with
  | nil => exact .inl (List.mem_singleton.1 h)
  | cons kv₀ r ih =>
    obtain ⟨k₀, v₀⟩ := kv₀
    unfold set at h
    split at h
    · exact (List.mem_cons.1 h).imp id (List.mem_cons_of_mem _)
    · rcases List.mem_cons.1 h with h | h
      · exact .inr (List.mem_cons.2 (.inl h))
      · exact (ih h).imp id (List.mem_cons_of_mem _)

/-- Setting a property keeps the names distinct. -/
theorem nodup_set (h : (r.map Prod.fst).Nodup) : ((r.set k v).map Prod.fst).Nodup := by
  induction r with
  | nil => simp [set]
  | cons kv₀ r ih =>
    obtain ⟨k₀, v₀⟩ := kv₀
    rw [List.map_cons, List.nodup_cons] at h
    unfold set
    split
    · next heq =>
      rw [List.map_cons, List.nodup_cons, ← eq_of_beq heq]
      exact h
    · next hne =>
      rw [List.map_cons, List.nodup_cons]
      refine ⟨fun hmem => ?_, ih h.2⟩
      obtain ⟨kv, hkv, hk⟩ := List.mem_map.1 hmem
      rcases mem_set hkv with rfl | hkv
      · exact hne (by simpa using hk.symm)
      · exact h.1 (hk ▸ List.mem_map_of_mem hkv)

theorem get?_of_mem (hkeys : (r.map Prod.fst).Nodup) {kv : String × JsVal N}
    (hkv : kv ∈ r) : r.get? kv.1 = some kv.2 := by
  induction r with
  | nil => cases hkv
  | cons kv₀ r ih =>
    rw [List.map_cons, List.nodup_cons] at hkeys
    rw [get?_cons]
    rcases List.mem_cons.1 hkv with rfl | hkv
    · rw [if_pos rfl]
    · have hne : kv₀.1 ≠ kv.1 := fun heq => hkeys.1 (heq ▸ List.mem_map_of_mem hkv)
      rw [if_neg hne, ih hkeys.2 hkv]

end Record

end HeadlessErp
