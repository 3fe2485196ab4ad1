import Mathlib.Data.List.Nodup

/-!
# Maps and sets

`Map` and `Set` of the language: the keys are distinct and stand in the order in which they were
first set. A map keeps its distinct keys as a field, so a lookup and a membership say the same
(`JsMap.get?_eq_some`).
-/

namespace HeadlessErp

/-! ## Sets -/

/-- A `Set`. -/
structure JsSet (κ : Type) where
  elems : List κ
  nodup : elems.Nodup

namespace JsSet
variable {κ : Type} [DecidableEq κ]

instance : Membership κ (JsSet κ) where
  mem s k := k ∈ s.elems

instance (k : κ) (s : JsSet κ) : Decidable (k ∈ s) := inferInstanceAs (Decidable (k ∈ s.elems))

/-- `new Set()`. -/
def empty : JsSet κ := ⟨[], List.nodup_nil⟩

/-- `size`. -/
def size (s : JsSet κ) : Nat := s.elems.length

/-- `add`. -/
def add (s : JsSet κ) (k : κ) : JsSet κ :=
  if h : k ∈ s.elems then s
  else ⟨s.elems ++ [k], s.nodup.append (List.nodup_singleton k) (by simpa using h)⟩

/-- `delete`. -/
def delete (s : JsSet κ) (k : κ) : JsSet κ := ⟨s.elems.filter (· ≠ k), s.nodup.filter _⟩

omit [DecidableEq κ] in
theorem mem_def {k : κ} {s : JsSet κ} : k ∈ s ↔ k ∈ s.elems := Iff.rfl

omit [DecidableEq κ] in
@[simp] theorem not_mem_empty (k : κ) : k ∉ (empty : JsSet κ) := List.not_mem_nil

@[simp] theorem mem_add {s : JsSet κ} {k k' : κ} : k' ∈ s.add k ↔ k' = k ∨ k' ∈ s := by
  unfold add
  split
  · next h =>
    refine ⟨.inr, ?_⟩
    rintro (rfl | hmem)
    · exact h
    · exact hmem
  · simp [mem_def, or_comm]

@[simp] theorem mem_delete {s : JsSet κ} {k k' : κ} : k' ∈ s.delete k ↔ k' ≠ k ∧ k' ∈ s := by
  simp [mem_def, delete, and_comm]

omit [DecidableEq κ] in
/-- A set has no element just when its size is zero. -/
theorem size_eq_zero {s : JsSet κ} : s.size = 0 ↔ ∀ k, k ∉ s := by
  simp [size, mem_def, List.eq_nil_iff_forall_not_mem]

end JsSet

/-! ## Maps -/

/-- A `Map`. -/
structure JsMap (κ α : Type) where
  entries : List (κ × α)
  nodup : (entries.map (·.1)).Nodup

namespace JsMap
variable {κ α : Type} [DecidableEq κ]

/-- `new Map()`. -/
def empty : JsMap κ α := ⟨[], List.nodup_nil⟩

/-- `size`. -/
def size (m : JsMap κ α) : Nat := m.entries.length

/-- `keys`. -/
def keys (m : JsMap κ α) : List κ := m.entries.map (·.1)

/-- `get`. -/
def get? (m : JsMap κ α) (k : κ) : Option α := m.entries.lookup k

/-- The entry of a key, replaced. -/
def replaced (k : κ) (v : α) (entry : κ × α) : κ × α := if entry.1 = k then (k, v) else entry

omit [DecidableEq κ] in
theorem map_fst_filter_nodup (m : JsMap κ α) (p : κ × α → Bool) :
    ((m.entries.filter p).map (·.1)).Nodup :=
  m.nodup.sublist (List.filter_sublist.map _)

theorem map_fst_replaced (l : List (κ × α)) (k : κ) (v : α) :
    (l.map (replaced k v)).map (·.1) = l.map (·.1) := by
  rw [List.map_map]
  refine List.map_congr_left fun entry _ => ?_
  show (replaced k v entry).1 = entry.1
  unfold replaced
  split
  · next h => exact h.symm
  · rfl

/-- `set`: the value of a key that is there is replaced where it stands. -/
def set (m : JsMap κ α) (k : κ) (v : α) : JsMap κ α :=
  if h : k ∈ m.keys then ⟨m.entries.map (replaced k v), by rw [map_fst_replaced]; exact m.nodup⟩
  else
    ⟨m.entries ++ [(k, v)], by
      rw [List.map_append]
      exact m.nodup.append (List.nodup_singleton k) (by simpa [keys] using h)⟩

/-- `delete`. -/
def delete (m : JsMap κ α) (k : κ) : JsMap κ α :=
  ⟨m.entries.filter (·.1 ≠ k), m.map_fst_filter_nodup _⟩

variable {m : JsMap κ α} {k k' : κ} {v : α}

/-- A key has one value. -/
theorem get?_eq_some : m.get? k = some v ↔ (k, v) ∈ m.entries := by
  obtain ⟨entries, hnodup⟩ := m
  unfold get?
  induction entries with
  | nil => simp
  | cons entry entries ih =>
    obtain ⟨k₀, v₀⟩ := entry
    obtain ⟨hfresh, hrest⟩ := List.nodup_cons.1 hnodup
    by_cases hk : k = k₀
    · subst hk
      have hnot : ¬ (k, v) ∈ entries := fun h => hfresh (List.mem_map.2 ⟨_, h, rfl⟩)
      simp [hnot, eq_comm]
    · have hbeq : (k == k₀) = false := beq_false_of_ne hk
      rw [List.lookup_cons, hbeq]
      simpa [hk] using ih hrest

theorem get?_eq_none : m.get? k = none ↔ k ∉ m.keys := by
  refine ⟨fun h hmem => ?_, fun h => ?_⟩
  · obtain ⟨⟨k₀, v₀⟩, hentry, rfl⟩ := List.mem_map.1 hmem
    rw [get?_eq_some.2 hentry] at h
    cases h
  · cases hv : m.get? k with
    | none => rfl
    | some v => exact absurd (List.mem_map.2 ⟨_, get?_eq_some.1 hv, rfl⟩) h

theorem mem_keys : k ∈ m.keys ↔ ∃ v, m.get? k = some v := by
  rw [← Option.ne_none_iff_exists', Ne, get?_eq_none, not_not]

@[simp] theorem get?_empty : (empty : JsMap κ α).get? k = none := rfl

@[simp] theorem get?_delete : (m.delete k).get? k' = if k' = k then none else m.get? k' := by
  refine Option.ext fun v => ?_
  rw [get?_eq_some]
  split
  · next h => simp [delete, h]
  · next h => simp [delete, h, get?_eq_some]

@[simp] theorem get?_set : (m.set k v).get? k' = if k' = k then some v else m.get? k' := by
  refine Option.ext fun w => ?_
  rw [get?_eq_some]
  unfold set
  split
  · next hk =>
    obtain ⟨old, hold⟩ := mem_keys.1 hk
    rw [List.mem_map]
    split
    · next h =>
      subst h
      constructor
      · rintro ⟨⟨k₀, v₀⟩, -, heq⟩
        unfold replaced at heq
        split at heq
        · exact congrArg some (Prod.mk.inj heq).2
        · next hne => exact absurd (Prod.mk.inj heq).1 hne
      · rintro h
        cases h
        exact ⟨(k', old), get?_eq_some.1 hold, by simp [replaced]⟩
    · next h =>
      rw [get?_eq_some]
      constructor
      · rintro ⟨⟨k₀, v₀⟩, hmem, heq⟩
        unfold replaced at heq
        split at heq
        · exact absurd (Prod.mk.inj heq).1.symm h
        · exact heq ▸ hmem
      · exact fun hmem => ⟨(k', w), hmem, by simp [replaced, h]⟩
  · next hk =>
    rw [List.mem_append, List.mem_singleton, ← get?_eq_some]
    split
    · next h =>
      subst h
      rw [get?_eq_none.2 hk]
      simp [eq_comm]
    · next h => simp [h]

/-- Setting a new key adds it at the end. -/
theorem entries_set (h : m.get? k = none) : (m.set k v).entries = m.entries ++ [(k, v)] := by
  unfold set
  rw [dif_neg (get?_eq_none.1 h)]

theorem mem_keys_set : k' ∈ (m.set k v).keys ↔ k' = k ∨ k' ∈ m.keys := by
  rw [mem_keys, mem_keys, get?_set]
  split
  · next h => exact ⟨fun _ => .inl h, fun _ => ⟨v, rfl⟩⟩
  · next h => exact ⟨.inr, fun hor => hor.resolve_left h⟩

/-! ### Maps filled from a list -/

/-- The entries set one after another. -/
def setAll (m : JsMap κ α) (entries : List (κ × α)) : JsMap κ α :=
  entries.foldl (fun m entry => m.set entry.1 entry.2) m

theorem get?_setAll_of_forall_ne {entries : List (κ × α)} (h : ∀ e ∈ entries, e.1 ≠ k) :
    (m.setAll entries).get? k = m.get? k := by
  induction entries generalizing m with
  | nil => rfl
  | cons e entries ih =>
    rw [setAll, List.foldl_cons, ← setAll, ih fun e he => h e (List.mem_cons_of_mem _ he),
      get?_set, if_neg (Ne.symm (h e List.mem_cons_self))]

/-- A key that is given one value has it, whichever entry comes last. -/
theorem get?_setAll {entries : List (κ × α)} (hmem : (k, v) ∈ entries)
    (hsame : ∀ e ∈ entries, e.1 = k → e.2 = v) : (m.setAll entries).get? k = some v := by
  induction entries generalizing m with
  | nil => cases hmem
  | cons e entries ih =>
    rw [setAll, List.foldl_cons, ← setAll]
    by_cases hrest : ∃ e ∈ entries, e.1 = k
    · obtain ⟨e', he', heq⟩ := hrest
      have hv := hsame e' (List.mem_cons_of_mem _ he') heq
      exact ih (heq ▸ hv ▸ he') fun e he => hsame e (List.mem_cons_of_mem _ he)
    · rw [get?_setAll_of_forall_ne fun e he heq => hrest ⟨e, he, heq⟩, get?_set]
      obtain rfl | hmem := List.mem_cons.1 hmem
      · exact if_pos rfl
      · exact absurd ⟨_, hmem, rfl⟩ hrest

/-- Entries that give a key one value at most are a lookup of it. -/
theorem get?_setAll_eq {entries : List (κ × α)} {o : Option α}
    (h : ∀ v, (k, v) ∈ entries ↔ o = some v) : ((empty : JsMap κ α).setAll entries).get? k = o := by
  cases o with
  | none =>
    refine get?_setAll_of_forall_ne fun e he hk => ?_
    exact (Option.some_ne_none e.2 ((h e.2).1 (hk ▸ he)).symm).elim
  | some v =>
    refine get?_setAll ((h v).2 rfl) fun e he hk => ?_
    exact (Option.some.inj ((h e.2).1 (hk ▸ he))).symm

/-- What a filled map has comes from an entry. -/
theorem mem_of_get?_setAll {entries : List (κ × α)} (h : (m.setAll entries).get? k = some v) :
    (k, v) ∈ entries ∨ m.get? k = some v := by
  induction entries generalizing m with
  | nil => exact .inr h
  | cons e entries ih =>
    rw [setAll, List.foldl_cons, ← setAll] at h
    rcases ih h with hmem | hget
    · exact .inl (List.mem_cons_of_mem _ hmem)
    · rw [get?_set] at hget
      split at hget
      · next hk =>
        subst hk
        obtain rfl := Option.some.inj hget
        exact .inl List.mem_cons_self
      · exact .inr hget

/-- A key with an entry has a value. -/
theorem exists_get?_setAll {entries : List (κ × α)} (h : (k, v) ∈ entries) :
    ∃ w, (m.setAll entries).get? k = some w := by
  induction entries generalizing m v with
  | nil => cases h
  | cons e entries ih =>
    rw [setAll, List.foldl_cons, ← setAll]
    by_cases hrest : ∃ w, (k, w) ∈ entries
    · obtain ⟨w, hw⟩ := hrest
      exact ih hw
    · rw [get?_setAll_of_forall_ne fun e he heq => hrest ⟨e.2, heq ▸ he⟩, get?_set]
      obtain rfl | hmem := List.mem_cons.1 h
      · exact ⟨v, if_pos rfl⟩
      · exact absurd ⟨_, hmem⟩ hrest

section
variable {β : Type} (key : β → κ) (init : β → α) (f : α → β → α)

/-- A map filled from a list: each element updates the value of its key, which starts at `init`. -/
def fill (m : JsMap κ α) (l : List β) : JsMap κ α :=
  l.foldl (fun m b => m.set (key b) (f ((m.get? (key b)).getD (init b)) b)) m

/-- The value of a key comes from the elements with this key. -/
theorem get?_fill (l : List β) (m : JsMap κ α) :
    (fill key init f m l).get? k =
      (l.filter (key · = k)).foldl (fun o b => some (f (o.getD (init b)) b)) (m.get? k) := by
  induction l generalizing m with
  | nil => rfl
  | cons b l ih =>
    rw [fill, List.foldl_cons, ← fill, ih, get?_set, List.filter_cons]
    by_cases h : key b = k
    · subst h
      rw [if_pos rfl, if_pos (decide_eq_true rfl), List.foldl_cons]
    · rw [if_neg (Ne.symm h), if_neg (by simpa using h)]

theorem mem_keys_fill (l : List β) (m : JsMap κ α) :
    k ∈ (fill key init f m l).keys ↔ k ∈ m.keys ∨ ∃ b ∈ l, key b = k := by
  induction l generalizing m with
  | nil => simp [fill]
  | cons b l ih =>
    rw [fill, List.foldl_cons, ← fill, ih, mem_keys_set, List.exists_mem_cons_iff]
    constructor
    · rintro ((rfl | hmem) | hrest)
      · exact .inr (.inl rfl)
      · exact .inl hmem
      · exact .inr (.inr hrest)
    · rintro (hmem | rfl | hrest)
      · exact .inl (.inr hmem)
      · exact .inl (.inl rfl)
      · exact .inr hrest

/-- The values of one key after the first element are updates of the initial value. -/
theorem foldl_some (l : List β) (a : α) :
    l.foldl (fun o b => some (f (o.getD (init b)) b)) (some a) = some (l.foldl f a) := by
  induction l generalizing a with
  | nil => rfl
  | cons b l ih => exact ih _

end

section
variable {β : Type}

/-- The map of lists into which the elements are pushed by their keys. -/
def grouped (l : List (κ × β)) : JsMap κ (List β) :=
  fill (·.1) (fun _ => []) (fun group b => group ++ [b.2]) .empty l

theorem get?_grouped (l : List (κ × β)) :
    ((grouped l).get? k).getD [] = (l.filter (·.1 = k)).map (·.2) := by
  have happend (l : List (κ × β)) (o : Option (List β)) :
      (l.foldl (fun o b => some (o.getD [] ++ [b.2])) o).getD [] = o.getD [] ++ l.map (·.2) := by
    induction l generalizing o with
    | nil => simp
    | cons b l ih =>
      rw [List.foldl_cons, ih, Option.getD_some, List.map_cons, List.append_assoc]
      rfl
  rw [grouped, get?_fill, happend, get?_empty]
  rfl

theorem mem_keys_grouped {l : List (κ × β)} : k ∈ (grouped l).keys ↔ ∃ b ∈ l, b.1 = k := by
  rw [grouped, mem_keys_fill]
  exact or_iff_right List.not_mem_nil

end

end JsMap

end HeadlessErp
