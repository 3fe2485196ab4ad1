/-!
# The cache layer

`CacheLayer` of `packages/core/src/cache/cache-layer.ts`: entries by key in the order of insertion,
and the index of the keys that carry a tag. The index is kept as the pairs of a tag and a key. Every
entry's tags are in the index (`Indexed`), so an invalidated tag leaves no entry that carries it.
-/

namespace HeadlessErp

/-- A `CacheEntry`. -/
structure CacheEntry (α : Type) where
  data : α
  ts : Int
  ttl : Int
  tags : List String

/-- The entries, and the index of the tags. -/
structure CacheLayer (α : Type) where
  store : List (String × CacheEntry α)
  tags : List (String × String)

/-- The characters that `.` does not match. -/
def isLineTerminator (c : Char) : Bool :=
  c = '\n' || c = '\r' || c.toNat = 0x2028 || c.toNat = 0x2029

/-- The match of a text with a pattern: `*` stands for any characters of one line. -/
def globMatch : List Char → List Char → Bool
  | [], s => s.isEmpty
  | p :: ps, [] => p = '*' && globMatch ps []
  | p :: ps, c :: cs =>
    if p = '*' then globMatch ps (c :: cs) || (!isLineTerminator c && globMatch (p :: ps) cs)
    else p = c && globMatch ps cs
  termination_by p s => p.length + s.length

namespace CacheLayer
variable {α : Type} (c : CacheLayer α)

/-- `MAX_SIZE`. -/
def maxSize : Nat := 10000

/-- `store.get`. -/
def entry (key : String) : Option (CacheEntry α) := c.store.lookup key

/-- `delete`: the entry, and its registrations. -/
def delete (key : String) : CacheLayer α :=
  match c.entry key with
  | none => c
  | some e =>
    { store := c.store.filter (·.1 ≠ key)
      tags := c.tags.filter fun (tag, k) => ¬ (k = key ∧ tag ∈ e.tags) }

/-- An entry has outlived its time. -/
def expired (now : Int) (e : CacheEntry α) : Bool := now - e.ts > e.ttl

/-- `get`: an entry that has expired is deleted. -/
def get (key : String) (now : Int) : Option α × CacheLayer α :=
  match c.entry key with
  | none => (none, c)
  | some e => if expired now e then (none, c.delete key) else (some e.data, c)

/-- `delete` of several keys. -/
def deleteAll (keys : List String) : CacheLayer α := keys.foldl delete c

/-- `_enforceSize`: at capacity the expired entries go, and if there are none the oldest one. -/
def enforceSize (now : Int) : CacheLayer α :=
  if c.store.length < maxSize then c
  else
    let c := c.deleteAll ((c.store.filter fun (_, e) => expired now e).map (·.1))
    if c.store.length < maxSize then c
    else c.deleteAll ((c.store.map (·.1)).take 1)

/-- `set`. -/
def set (key : String) (data : α) (ttl : Int) (tags : List String) (now : Int) : CacheLayer α :=
  let c := (c.delete key).enforceSize now
  { store := c.store ++ [(key, ⟨data, now, ttl, tags⟩)]
    tags := c.tags ++ tags.map (·, key) }

/-- `invalidatePattern`. -/
def invalidatePattern (pattern : String) : CacheLayer α :=
  c.deleteAll ((c.store.map (·.1)).filter fun key => globMatch pattern.toList key.toList)

/-- `invalidateTag`. -/
def invalidateTag (tag : String) : CacheLayer α :=
  let c := c.deleteAll ((c.tags.filter (·.1 = tag)).map (·.2))
  { c with tags := c.tags.filter (·.1 ≠ tag) }

/-! ## The index -/

/-- An entry's tags are in the index. -/
def Indexed : Prop := ∀ key e, (key, e) ∈ c.store → ∀ tag ∈ e.tags, (tag, key) ∈ c.tags

variable {c}

theorem entry_mem {key : String} {e : CacheEntry α} (h : c.entry key = some e) :
    (key, e) ∈ c.store := by
  obtain ⟨before, after, hstore, -⟩ := List.lookup_eq_some_iff.1 h
  rw [hstore]
  exact List.mem_append_right _ List.mem_cons_self

theorem not_mem_of_entry_eq_none {key : String} (h : c.entry key = none) (e : CacheEntry α) :
    (key, e) ∉ c.store := by
  intro hmem
  have hne := List.lookup_eq_none_iff.1 h (key, e) hmem
  simp at hne

/-- What is left after a deletion was there before, under another key. -/
theorem mem_delete {key key' : String} {e : CacheEntry α} (h : (key', e) ∈ (c.delete key).store) :
    (key', e) ∈ c.store ∧ key' ≠ key := by
  unfold delete at h
  split at h
  · next hnone =>
    refine ⟨h, ?_⟩
    rintro rfl
    exact not_mem_of_entry_eq_none hnone e h
  · have hmem := List.mem_filter.1 h
    exact ⟨hmem.1, by simpa using hmem.2⟩

theorem Indexed.delete (h : c.Indexed) (key : String) : (c.delete key).Indexed := by
  intro key' e hmem tag htag
  obtain ⟨hold, hne⟩ := mem_delete hmem
  have hindex := h key' e hold tag htag
  unfold CacheLayer.delete
  split
  · exact hindex
  · exact List.mem_filter.2 ⟨hindex, by simp [hne]⟩

theorem mem_deleteAll {keys : List String} {key : String} {e : CacheEntry α}
    (h : (key, e) ∈ (c.deleteAll keys).store) : (key, e) ∈ c.store ∧ key ∉ keys := by
  unfold deleteAll at h
  induction keys generalizing c with
  | nil => exact ⟨h, List.not_mem_nil⟩
  | cons k keys ih =>
    obtain ⟨hmem, hnot⟩ := ih h
    obtain ⟨hold, hne⟩ := mem_delete hmem
    exact ⟨hold, by simp [hne, hnot]⟩

theorem Indexed.deleteAll (h : c.Indexed) (keys : List String) : (c.deleteAll keys).Indexed := by
  unfold CacheLayer.deleteAll
  induction keys generalizing c with
  | nil => exact h
  | cons k keys ih => exact ih (h.delete k)

theorem mem_enforceSize {now : Int} {key : String} {e : CacheEntry α}
    (h : (key, e) ∈ (c.enforceSize now).store) : (key, e) ∈ c.store := by
  unfold enforceSize at h
  split at h
  · exact h
  · dsimp only at h
    split at h
    · exact (mem_deleteAll h).1
    · exact (mem_deleteAll (mem_deleteAll h).1).1

theorem Indexed.enforceSize (h : c.Indexed) (now : Int) : (c.enforceSize now).Indexed := by
  unfold CacheLayer.enforceSize
  split
  · exact h
  · dsimp only
    split
    · exact h.deleteAll _
    · exact (h.deleteAll _).deleteAll _

/-- After a `set`, an entry is the new one, or was there under another key. -/
theorem mem_set {key key' : String} {data : α} {ttl now : Int} {tags : List String}
    {e : CacheEntry α} (h : (key', e) ∈ (c.set key data ttl tags now).store) :
    (key' = key ∧ e = ⟨data, now, ttl, tags⟩) ∨ (key' ≠ key ∧ (key', e) ∈ c.store) := by
  obtain hold | hnew := List.mem_append.1 h
  · obtain ⟨hmem, hne⟩ := mem_delete (mem_enforceSize hold)
    exact .inr ⟨hne, hmem⟩
  · obtain ⟨rfl, rfl⟩ := List.mem_singleton.1 hnew
    exact .inl ⟨rfl, rfl⟩

theorem Indexed.set (h : c.Indexed) (key : String) (data : α) (ttl : Int) (tags : List String)
    (now : Int) : (c.set key data ttl tags now).Indexed := by
  intro key' e hmem tag htag
  obtain hold | hnew := List.mem_append.1 hmem
  · exact List.mem_append_left _ (((h.delete key).enforceSize now) key' e hold tag htag)
  · obtain ⟨rfl, rfl⟩ := List.mem_singleton.1 hnew
    exact List.mem_append_right _ (List.mem_map.2 ⟨tag, htag, rfl⟩)

/-- A hit is the data of an entry. -/
theorem get_eq_some {key : String} {now : Int} {data : α} (h : (c.get key now).1 = some data) :
    ∃ e, (key, e) ∈ c.store ∧ e.data = data := by
  unfold get at h
  split at h
  · cases h
  · next e he =>
    split at h
    · cases h
    · cases h
      exact ⟨e, entry_mem he, rfl⟩

theorem mem_get {key key' : String} {now : Int} {e : CacheEntry α}
    (h : (key', e) ∈ (c.get key now).2.store) : (key', e) ∈ c.store := by
  unfold get at h
  split at h
  · exact h
  · split at h
    · exact (mem_delete h).1
    · exact h

theorem Indexed.get (h : c.Indexed) (key : String) (now : Int) : (c.get key now).2.Indexed := by
  unfold CacheLayer.get
  split
  · exact h
  · split
    · exact h.delete key
    · exact h

/-- No key that a pattern matches is left. -/
theorem mem_invalidatePattern {pattern key : String} {e : CacheEntry α}
    (h : (key, e) ∈ (c.invalidatePattern pattern).store) :
    (key, e) ∈ c.store ∧ globMatch pattern.toList key.toList = false := by
  obtain ⟨hmem, hnot⟩ := mem_deleteAll h
  refine ⟨hmem, Bool.eq_false_iff.2 fun hmatch => hnot ?_⟩
  exact List.mem_filter.2 ⟨List.mem_map.2 ⟨_, hmem, rfl⟩, hmatch⟩

theorem Indexed.invalidatePattern (h : c.Indexed) (pattern : String) :
    (c.invalidatePattern pattern).Indexed := h.deleteAll _

/-- No entry that carries a tag is left. -/
theorem mem_invalidateTag (hc : c.Indexed) {tag key : String} {e : CacheEntry α}
    (h : (key, e) ∈ (c.invalidateTag tag).store) : (key, e) ∈ c.store ∧ tag ∉ e.tags := by
  obtain ⟨hmem, hnot⟩ := mem_deleteAll (c := c) h
  refine ⟨hmem, fun htag => hnot ?_⟩
  exact List.mem_map.2 ⟨(tag, key), List.mem_filter.2 ⟨hc key e hmem tag htag, by simp⟩, rfl⟩

theorem Indexed.invalidateTag (h : c.Indexed) (tag : String) : (c.invalidateTag tag).Indexed := by
  intro key e hmem tag' htag'
  obtain ⟨-, hnot⟩ := mem_invalidateTag h hmem
  have hindex : (tag', key) ∈ (c.deleteAll ((c.tags.filter (·.1 = tag)).map (·.2))).tags :=
    h.deleteAll _ key e hmem tag' htag'
  refine List.mem_filter.2 ⟨hindex, ?_⟩
  have hne : tag' ≠ tag := by
    rintro rfl
    exact hnot htag'
  simpa using hne

end CacheLayer

/-! ## Patterns -/

/-- A `*` may stand for no character. -/
theorem globMatch_skip {p s : List Char} (h : globMatch p s = true) :
    globMatch ('*' :: p) s = true := by
  unfold globMatch
  cases s with
  | nil => simp [h]
  | cons c s => simp [h]

/-- What is left after `*` is one line. -/
theorem globMatch_star {rest : List Char} (h : ∀ c ∈ rest, isLineTerminator c = false) :
    globMatch ['*'] rest = true := by
  induction rest with
  | nil => exact globMatch_skip (by unfold globMatch; rfl)
  | cons c rest ih =>
    unfold globMatch
    rw [if_pos rfl, ih fun c' hc' => h c' (List.mem_cons_of_mem _ hc'), h c List.mem_cons_self]
    exact Bool.or_true _

/-- A text matches itself, read as a pattern, where its rest is one line. -/
theorem globMatch_append (p : List Char) {rest : List Char}
    (h : ∀ c ∈ rest, isLineTerminator c = false) :
    globMatch (p ++ ['*']) (p ++ rest) = true := by
  induction p with
  | nil => exact globMatch_star h
  | cons c p ih =>
    rw [List.cons_append, List.cons_append]
    unfold globMatch
    split
    · next hstar =>
      -- a `*` of the text matches itself
      have hline : isLineTerminator c = false := by rw [hstar]; decide
      rw [hline, hstar, globMatch_skip ih]
      exact Bool.or_true _
    · rw [ih]
      simp

end HeadlessErp
