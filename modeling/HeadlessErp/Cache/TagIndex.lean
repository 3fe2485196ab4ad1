import Mathlib.Data.List.Induction
import HeadlessErp.Base.Except
import HeadlessErp.Cache.Response
import HeadlessErp.Js.Map

/-!
# The cache's store and tag index

`CacheLayer` with its two maps as the class has them: the entries by key, and for every tag the set
of the keys that carry it. An operation changes both. `Agrees` says that they list the same, and
that a tag without a key is not listed; every operation keeps it (`consistent_run`). So after any calls
what `get` finds is what was set last under its key, and nothing has invalidated it since
(`newest_of_get`).
-/

namespace HeadlessErp

/-- The maps of the cache. -/
structure CacheMaps (α : Type) where
  store : JsMap String (CacheEntry α)
  tags : JsMap String (JsSet String)

namespace CacheMaps
variable {α : Type} (c : CacheMaps α)

/-- A new cache. -/
def empty : CacheMaps α := ⟨.empty, .empty⟩

/-- A key leaves the set of a tag, and the tag goes with its last key. -/
def unregister (key : String) (tags : JsMap String (JsSet String)) (tag : String) :
    JsMap String (JsSet String) :=
  match tags.get? tag with
  | none => tags
  | some keys =>
    if (keys.delete key).size = 0 then tags.delete tag else tags.set tag (keys.delete key)

/-- A key joins the set of a tag. -/
def register (key : String) (tags : JsMap String (JsSet String)) (tag : String) :
    JsMap String (JsSet String) :=
  tags.set tag (((tags.get? tag).getD .empty).add key)

/-- `delete`. -/
def delete (key : String) : CacheMaps α :=
  match c.store.get? key with
  | none => c
  | some e => ⟨c.store.delete key, e.tags.foldl (unregister key) c.tags⟩

/-- `get`. -/
def get (key : String) (now : Int) : Option α × CacheMaps α :=
  match c.store.get? key with
  | none => (none, c)
  | some e => if CacheLayer.expired now e then (none, c.delete key) else (some e.data, c)

/-- `has`. -/
def has (key : String) (now : Int) : Bool × CacheMaps α :=
  match c.store.get? key with
  | none => (false, c)
  | some e => if CacheLayer.expired now e then (false, c.delete key) else (true, c)

/-- `clear`. -/
def clear (_ : CacheMaps α) : CacheMaps α := empty

/-- `delete` of several keys. -/
def deleteAll (keys : List String) : CacheMaps α := keys.foldl delete c

/-- `_enforceSize`. -/
def enforceSize (now : Int) : CacheMaps α :=
  if c.store.size < CacheLayer.maxSize then c
  else
    let c := c.deleteAll ((c.store.entries.filter fun (_, e) => CacheLayer.expired now e).map (·.1))
    if c.store.size < CacheLayer.maxSize then c
    else c.deleteAll (c.store.keys.take 1)

/-- What `set` does once there is room for a new key. -/
def insert (key : String) (e : CacheEntry α) : CacheMaps α :=
  ⟨c.store.set key e, e.tags.foldl (register key) c.tags⟩

/-- `set`: the time is read when there is too much in the cache, and again for the entry. -/
def set (key : String) (data : α) (ttl : Option Int) (tags : Option (List String))
    (now later : Int) : CacheMaps α :=
  ((c.delete key).enforceSize now).insert key
    ⟨data, later, ttl.getD 60000, (tags.getD []).eraseDups⟩

/-- `invalidatePattern`. -/
def invalidatePattern (pattern : String) : CacheMaps α :=
  c.deleteAll (c.store.keys.filter fun key => globMatch pattern.toList key.toList)

/-- `invalidateTag`. -/
def invalidateTag (tag : String) : CacheMaps α :=
  match c.tags.get? tag with
  | none => { c with tags := c.tags.delete tag }
  | some keys =>
    if keys.size = 0 then { c with tags := c.tags.delete tag }
    else
      let c := c.deleteAll keys.elems
      { c with tags := c.tags.delete tag }

/-- `invalidateCollection`. -/
def invalidateCollection (slug : String) : CacheMaps α :=
  let c := c.delete ("schema:" ++ slug)
  let c := c.delete ("schema:" ++ slug ++ ":raw")
  let c := c.delete "schemas:all"
  let c := c.delete "schemas:summaries"
  let c := c.invalidatePattern ("perm:*:" ++ slug ++ ":*")
  let c := c.invalidatePattern ("report:" ++ slug ++ ":*")
  let c := c.invalidatePattern ("readc:" ++ slug ++ ":*")
  c.invalidateTag (readDependencyTag slug)

/-- `invalidatePermission`. -/
def invalidatePermission (roleId : String) (collection : Option String) : CacheMaps α :=
  match collection.filter (· != "") with
  | some slug => c.invalidatePattern ("perm:" ++ roleId ++ ":" ++ slug ++ ":*")
  | none => c.invalidatePattern ("perm:" ++ roleId ++ ":*")

/-! ## The two maps agree -/

/-- A key is listed under a tag. -/
def Lists (tags : JsMap String (JsSet String)) (tag key : String) : Prop :=
  ∃ keys, tags.get? tag = some keys ∧ key ∈ keys

/-- No tag without a key is listed. -/
def NoEmpty (tags : JsMap String (JsSet String)) : Prop :=
  ∀ tag keys, tags.get? tag = some keys → ∃ key, key ∈ keys

/-- An entry of a key carries a tag. -/
def Carried (tag key : String) : Prop := ∃ e, c.store.get? key = some e ∧ tag ∈ e.tags

/-- The tag index lists what the entries carry, and no tag without a key. -/
structure Agrees : Prop where
  listed : ∀ tag key, Lists c.tags tag key ↔ c.Carried tag key
  nonempty : NoEmpty c.tags

variable {c}

/-- The set of a tag after a key has left the set of another or of this one. -/
theorem get?_unregister {key tag tag' : String} {tags : JsMap String (JsSet String)}
    {keys : JsSet String} :
    (unregister key tags tag).get? tag' = some keys ↔
      (tag' ≠ tag ∧ tags.get? tag' = some keys) ∨
        (tag' = tag ∧ (∃ k, k ∈ keys) ∧ ∃ old, tags.get? tag = some old ∧ keys = old.delete key) := by
  unfold unregister
  split
  · next hold =>
    by_cases htag : tag' = tag
    · subst htag
      simp [hold]
    · simp [htag]
  · next old hold =>
    by_cases htag : tag' = tag
    · subst htag
      simp only [hold, ne_eq, not_true_eq_false, false_and, false_or, true_and, Option.some.injEq,
        exists_eq_left']
      split
      · next hsize =>
        rw [JsMap.get?_delete, if_pos rfl]
        constructor
        · rintro ⟨⟩
        · rintro ⟨⟨k, hk⟩, rfl⟩
          exact absurd hk (JsSet.size_eq_zero.1 hsize k)
      · next hsize =>
        rw [JsMap.get?_set, if_pos rfl, Option.some.injEq]
        constructor
        · rintro rfl
          refine ⟨?_, rfl⟩
          by_contra hnone
          exact hsize (JsSet.size_eq_zero.2 fun k hk => hnone ⟨k, hk⟩)
        · rintro ⟨-, rfl⟩
          rfl
    · split
      · simp [htag]
      · simp [htag]

theorem noEmpty_unregister {tags : JsMap String (JsSet String)} (h : NoEmpty tags)
    (key tag : String) : NoEmpty (unregister key tags tag) := by
  intro tag' keys hkeys
  obtain ⟨-, hold⟩ | ⟨-, hkey, -⟩ := get?_unregister.1 hkeys
  · exact h tag' keys hold
  · exact hkey

theorem lists_unregister {tags : JsMap String (JsSet String)} {key tag tag' key' : String} :
    Lists (unregister key tags tag) tag' key' ↔
      Lists tags tag' key' ∧ ¬ (tag' = tag ∧ key' = key) := by
  constructor
  · rintro ⟨keys, hkeys, hmem⟩
    obtain ⟨hne, hold⟩ | ⟨rfl, -, old, hold, rfl⟩ := get?_unregister.1 hkeys
    · exact ⟨⟨keys, hold, hmem⟩, fun h => hne h.1⟩
    · obtain ⟨hne, hmem⟩ := JsSet.mem_delete.1 hmem
      exact ⟨⟨old, hold, hmem⟩, fun h => hne h.2⟩
  · rintro ⟨⟨keys, hkeys, hmem⟩, hnot⟩
    by_cases htag : tag' = tag
    · subst htag
      have hmem' : key' ∈ keys.delete key := JsSet.mem_delete.2 ⟨fun h => hnot ⟨rfl, h⟩, hmem⟩
      exact ⟨_, get?_unregister.2 (.inr ⟨rfl, ⟨key', hmem'⟩, keys, hkeys, rfl⟩), hmem'⟩
    · exact ⟨keys, get?_unregister.2 (.inl ⟨htag, hkeys⟩), hmem⟩

theorem noEmpty_foldl_unregister {tags : JsMap String (JsSet String)} (h : NoEmpty tags)
    (key : String) (l : List String) : NoEmpty (l.foldl (unregister key) tags) := by
  induction l generalizing tags with
  | nil => exact h
  | cons tag l ih => exact ih (noEmpty_unregister h key tag)

theorem lists_foldl_unregister {tags : JsMap String (JsSet String)} {key tag key' : String}
    {l : List String} :
    Lists (l.foldl (unregister key) tags) tag key' ↔
      Lists tags tag key' ∧ ¬ (tag ∈ l ∧ key' = key) := by
  induction l generalizing tags with
  | nil => simp
  | cons tag₀ l ih =>
    rw [List.foldl_cons, ih, lists_unregister, List.mem_cons]
    tauto

theorem noEmpty_register {tags : JsMap String (JsSet String)} (h : NoEmpty tags)
    (key tag : String) : NoEmpty (register key tags tag) := by
  intro tag' keys hkeys
  unfold register at hkeys
  rw [JsMap.get?_set] at hkeys
  split at hkeys
  · cases hkeys
    exact ⟨key, JsSet.mem_add.2 (.inl rfl)⟩
  · exact h tag' keys hkeys

theorem lists_register {tags : JsMap String (JsSet String)} {key tag tag' key' : String} :
    Lists (register key tags tag) tag' key' ↔
      Lists tags tag' key' ∨ (tag' = tag ∧ key' = key) := by
  unfold Lists register
  rw [JsMap.get?_set]
  split
  · next h =>
    subst h
    cases hold : tags.get? tag' with
    | none => simp
    | some keys => simp [or_comm]
  · next h => simp [h]

theorem noEmpty_foldl_register {tags : JsMap String (JsSet String)} (h : NoEmpty tags)
    (key : String) (l : List String) : NoEmpty (l.foldl (register key) tags) := by
  induction l generalizing tags with
  | nil => exact h
  | cons tag l ih => exact ih (noEmpty_register h key tag)

theorem lists_foldl_register {tags : JsMap String (JsSet String)} {key tag key' : String}
    {l : List String} :
    Lists (l.foldl (register key) tags) tag key' ↔
      Lists tags tag key' ∨ (tag ∈ l ∧ key' = key) := by
  induction l generalizing tags with
  | nil => simp
  | cons tag₀ l ih =>
    rw [List.foldl_cons, ih, lists_register, List.mem_cons]
    tauto

/-! ## Deletion and insertion -/

/-- A deletion takes the entry of its key from the store. -/
theorem entries_delete (c : CacheMaps α) (key : String) :
    (c.delete key).store.entries = c.store.entries.filter (·.1 ≠ key) := by
  unfold delete
  cases hkey : c.store.get? key with
  | none =>
    refine (List.filter_eq_self.2 fun entry hentry => ?_).symm
    have hnot := JsMap.get?_eq_none.1 hkey
    refine decide_eq_true fun h => hnot ?_
    exact List.mem_map.2 ⟨entry, hentry, h⟩
  | some e => rfl

theorem get?_store_delete (c : CacheMaps α) (key key' : String) :
    (c.delete key).store.get? key' = if key' = key then none else c.store.get? key' := by
  rw [← JsMap.get?_delete]
  unfold JsMap.get?
  rw [entries_delete]
  rfl

theorem Agrees.delete (h : c.Agrees) (key : String) : (c.delete key).Agrees := by
  have hcarried : ∀ tag key', (c.delete key).Carried tag key' ↔
      c.Carried tag key' ∧ key' ≠ key := by
    intro tag key'
    unfold Carried
    rw [get?_store_delete]
    split
    · next heq => simp [heq]
    · next hne => simp [hne]
  refine ⟨fun tag key' => ?_, ?_⟩
  · rw [hcarried]
    unfold CacheMaps.delete
    cases hkey : c.store.get? key with
    | none =>
      rw [h.listed]
      refine ⟨fun hc => ⟨hc, ?_⟩, And.left⟩
      rintro rfl
      obtain ⟨e, he, -⟩ := hc
      rw [hkey] at he
      cases he
    | some e =>
      refine Iff.trans lists_foldl_unregister ?_
      rw [h.listed]
      refine and_congr_right fun hc => ⟨?_, fun hne heq => hne heq.2⟩
      rintro hnot rfl
      obtain ⟨e', he', htag⟩ := hc
      rw [hkey] at he'
      cases he'
      exact hnot ⟨htag, rfl⟩
  · unfold CacheMaps.delete
    cases c.store.get? key with
    | none => exact h.nonempty
    | some e => exact noEmpty_foldl_unregister h.nonempty key e.tags

/-- A new key's entry is added, and listed under its tags. -/
theorem Agrees.insert (h : c.Agrees) {key : String} (hfresh : c.store.get? key = none)
    (e : CacheEntry α) : (c.insert key e).Agrees := by
  refine ⟨fun tag key' => ?_, noEmpty_foldl_register h.nonempty key e.tags⟩
  refine Iff.trans lists_foldl_register ?_
  rw [h.listed]
  unfold Carried CacheMaps.insert
  rw [JsMap.get?_set]
  split
  · next heq =>
    subst heq
    rw [hfresh]
    simp
  · next hne => simp [hne]

/-- Deleting keys takes their entries from the store. -/
theorem entries_deleteAll (c : CacheMaps α) (keys : List String) :
    (c.deleteAll keys).store.entries = c.store.entries.filter (·.1 ∉ keys) := by
  unfold deleteAll
  induction keys generalizing c with
  | nil => simp
  | cons key keys ih =>
    rw [List.foldl_cons, ih, entries_delete, List.filter_filter]
    refine List.filter_congr fun entry _ => ?_
    simp [Bool.and_comm]

theorem Agrees.deleteAll (h : c.Agrees) (keys : List String) : (c.deleteAll keys).Agrees := by
  unfold CacheMaps.deleteAll
  induction keys generalizing c with
  | nil => exact h
  | cons key keys ih => exact ih (h.delete key)

/-! ## Eviction -/

theorem size_delete_le (c : CacheMaps α) (key : String) :
    (c.delete key).store.size ≤ c.store.size := by
  unfold JsMap.size
  rw [entries_delete]
  exact List.length_filter_le _ _

theorem size_deleteAll_le (c : CacheMaps α) (keys : List String) :
    (c.deleteAll keys).store.size ≤ c.store.size := by
  unfold JsMap.size
  rw [entries_deleteAll]
  exact List.length_filter_le _ _

/-- A deleted key is gone, and a key that was not there is not there after a deletion. -/
theorem get?_deleteAll_of_none {key : String} (h : c.store.get? key = none) (keys : List String) :
    (c.deleteAll keys).store.get? key = none := by
  refine JsMap.get?_eq_none.2 fun hmem => JsMap.get?_eq_none.1 h ?_
  unfold JsMap.keys at hmem ⊢
  rw [entries_deleteAll] at hmem
  exact (List.filter_sublist.map _).subset hmem

/-- Taking the oldest key away makes room. -/
theorem size_deleteAll_take_one (c : CacheMaps α) (h : 0 < c.store.size) :
    (c.deleteAll (c.store.keys.take 1)).store.size < c.store.size := by
  obtain ⟨⟨entries, hnodup⟩, tags⟩ := c
  cases entries with
  | nil => cases h
  | cons entry entries =>
    unfold JsMap.size
    rw [entries_deleteAll]
    exact List.length_filter_lt_length_iff_exists.2
      ⟨entry, List.mem_cons_self, by simp [JsMap.keys]⟩

/-- There is room after `_enforceSize`, where there was not too much before. -/
theorem size_enforceSize (h : c.store.size ≤ CacheLayer.maxSize) (now : Int) :
    (c.enforceSize now).store.size < CacheLayer.maxSize := by
  have hpos : 0 < CacheLayer.maxSize := by decide
  unfold enforceSize
  split
  · next hlt => exact hlt
  · dsimp only
    split
    · next hlt => exact hlt
    · next hge =>
      have hle := size_deleteAll_le c
        ((c.store.entries.filter fun (_, e) => CacheLayer.expired now e).map (·.1))
      exact Nat.lt_of_lt_of_le (size_deleteAll_take_one _ (by omega)) (Nat.le_trans hle h)

/-- `_enforceSize` deletes. -/
theorem enforceSize_induction {P : CacheMaps α → Prop} (h : P c)
    (hdelete : ∀ c keys, P c → P (c.deleteAll keys)) (now : Int) : P (c.enforceSize now) := by
  unfold enforceSize
  split
  · exact h
  · dsimp only
    split
    · exact hdelete _ _ h
    · exact hdelete _ _ (hdelete _ _ h)

/-! ## What every operation keeps -/

/-- The maps agree, and there is not too much in them. -/
structure Consistent (c : CacheMaps α) : Prop extends c.Agrees where
  size : c.store.size ≤ CacheLayer.maxSize

theorem consistent_empty : (empty : CacheMaps α).Consistent where
  listed tag key := by simp [Lists, Carried, empty]
  nonempty tag keys h := by cases h
  size := Nat.zero_le _

theorem Consistent.delete (h : c.Consistent) (key : String) : (c.delete key).Consistent :=
  ⟨h.toAgrees.delete key, Nat.le_trans (size_delete_le c key) h.size⟩

theorem Consistent.deleteAll (h : c.Consistent) (keys : List String) :
    (c.deleteAll keys).Consistent :=
  ⟨h.toAgrees.deleteAll keys, Nat.le_trans (size_deleteAll_le c keys) h.size⟩

theorem Consistent.get (h : c.Consistent) (key : String) (now : Int) :
    (c.get key now).2.Consistent := by
  unfold CacheMaps.get
  cases c.store.get? key with
  | none => exact h
  | some e =>
    dsimp only
    split
    · exact h.delete key
    · exact h

theorem Consistent.has (h : c.Consistent) (key : String) (now : Int) :
    (c.has key now).2.Consistent := by
  unfold CacheMaps.has
  cases c.store.get? key with
  | none => exact h
  | some e =>
    dsimp only
    split
    · exact h.delete key
    · exact h

theorem Consistent.set (h : c.Consistent) (key : String) (data : α) (ttl : Option Int)
    (tags : Option (List String)) (now later : Int) :
    (c.set key data ttl tags now later).Consistent := by
  have hfresh : ((c.delete key).enforceSize now).store.get? key = none :=
    enforceSize_induction (P := fun c => c.store.get? key = none)
      (by rw [get?_store_delete, if_pos rfl]) (fun _ keys hc => get?_deleteAll_of_none hc keys) now
  have hroom := size_enforceSize (h.delete key).size now
  have hagrees : ((c.delete key).enforceSize now).Agrees :=
    enforceSize_induction (h.delete key).toAgrees (fun _ keys hc => hc.deleteAll keys) now
  refine ⟨hagrees.insert hfresh _, ?_⟩
  unfold CacheMaps.set CacheMaps.insert JsMap.size
  rw [JsMap.entries_set hfresh, List.length_append]
  exact hroom

/-- A tag that nothing carries has no keys. -/
theorem Agrees.forget (h : c.Agrees) {tag : String} (hnone : ∀ key, ¬ c.Carried tag key) :
    ({ c with tags := c.tags.delete tag } : CacheMaps α).Agrees where
  listed tag' key := by
    refine Iff.trans ?_ (h.listed tag' key)
    unfold Lists
    rw [JsMap.get?_delete]
    split
    · next heq =>
      subst heq
      have hnot := mt (h.listed tag' key).1 (hnone key)
      simpa [Lists] using hnot
    · exact Iff.rfl
  nonempty tag' keys hkeys := by
    rw [JsMap.get?_delete] at hkeys
    split at hkeys
    · cases hkeys
    · exact h.nonempty tag' keys hkeys

/-- A key is listed under a tag just when its entry carries it. -/
theorem Agrees.mem_keys_iff (h : c.Agrees) {tag : String} {keys : JsSet String}
    (hkeys : c.tags.get? tag = some keys) {entry : String × CacheEntry α}
    (hentry : entry ∈ c.store.entries) : entry.1 ∈ keys ↔ tag ∈ entry.2.tags := by
  have hget : c.store.get? entry.1 = some entry.2 := JsMap.get?_eq_some.2 hentry
  constructor
  · intro hmem
    obtain ⟨e, he, htag⟩ := (h.listed tag entry.1).1 ⟨keys, hkeys, hmem⟩
    rw [hget] at he
    cases he
    exact htag
  · intro htag
    obtain ⟨keys', hkeys', hmem⟩ := (h.listed tag entry.1).2 ⟨entry.2, hget, htag⟩
    rw [hkeys] at hkeys'
    cases hkeys'
    exact hmem

/-- `invalidateTag` removes the entries that carry the tag, and no others. -/
theorem Agrees.entries_invalidateTag (h : c.Agrees) (tag : String) :
    (c.invalidateTag tag).store.entries = c.store.entries.filter (tag ∉ ·.2.tags) := by
  have hnone (hnot : ∀ key, ¬ Lists c.tags tag key) :
      c.store.entries = c.store.entries.filter (tag ∉ ·.2.tags) := by
    refine (List.filter_eq_self.2 fun entry hentry => ?_).symm
    have huntagged : tag ∉ entry.2.tags := fun htag =>
      hnot entry.1 ((h.listed tag entry.1).2 ⟨entry.2, JsMap.get?_eq_some.2 hentry, htag⟩)
    exact decide_eq_true huntagged
  unfold invalidateTag
  cases hkeys : c.tags.get? tag with
  | none => exact hnone fun key ⟨keys, hlisted, _⟩ => by rw [hkeys] at hlisted; cases hlisted
  | some keys =>
    dsimp only
    split
    · next hsize =>
      obtain ⟨key, hkey⟩ := h.nonempty tag keys hkeys
      exact absurd hkey (JsSet.size_eq_zero.1 hsize key)
    · refine (entries_deleteAll c keys.elems).trans (List.filter_congr fun entry hentry => ?_)
      have hiff := h.mem_keys_iff hkeys hentry
      exact decide_eq_decide.2 (not_congr hiff)

theorem Agrees.invalidateTag (h : c.Agrees) (tag : String) : (c.invalidateTag tag).Agrees := by
  have hgone : ∀ key, ¬ (c.invalidateTag tag).Carried tag key := by
    rintro key ⟨e, he, htag⟩
    have hmem := JsMap.get?_eq_some.1 he
    rw [h.entries_invalidateTag tag] at hmem
    exact of_decide_eq_true (List.mem_filter.1 hmem).2 htag
  unfold CacheMaps.invalidateTag at hgone ⊢
  cases hkeys : c.tags.get? tag with
  | none =>
    rw [hkeys] at hgone
    exact h.forget hgone
  | some keys =>
    rw [hkeys] at hgone
    dsimp only at hgone ⊢
    split
    · next hsize =>
      rw [if_pos hsize] at hgone
      exact h.forget hgone
    · next hsize =>
      rw [if_neg hsize] at hgone
      exact (h.deleteAll keys.elems).forget hgone

theorem Consistent.invalidateTag (h : c.Consistent) (tag : String) :
    (c.invalidateTag tag).Consistent := by
  refine ⟨h.toAgrees.invalidateTag tag, Nat.le_trans ?_ h.size⟩
  unfold JsMap.size
  rw [h.entries_invalidateTag tag]
  exact List.length_filter_le _ _

theorem Consistent.invalidatePattern (h : c.Consistent) (pattern : String) :
    (c.invalidatePattern pattern).Consistent := h.deleteAll _

theorem Consistent.invalidateCollection (h : c.Consistent) (slug : String) :
    (c.invalidateCollection slug).Consistent := by
  have hschemas := (((h.delete ("schema:" ++ slug)).delete ("schema:" ++ slug ++ ":raw")).delete
    "schemas:all").delete "schemas:summaries"
  have hreports := (hschemas.invalidatePattern ("perm:*:" ++ slug ++ ":*")).invalidatePattern
    ("report:" ++ slug ++ ":*")
  exact (hreports.invalidatePattern ("readc:" ++ slug ++ ":*")).invalidateTag
    (readDependencyTag slug)

theorem Consistent.invalidatePermission (h : c.Consistent) (roleId : String)
    (collection : Option String) : (c.invalidatePermission roleId collection).Consistent := by
  unfold CacheMaps.invalidatePermission
  cases collection.filter (· != "") with
  | none => exact h.invalidatePattern _
  | some slug => exact h.invalidatePattern _

/-- The pattern's match, read off the pattern: a `*` stands for a run of characters of one line. -/
inductive GlobMatches : List Char → List Char → Prop
  | nil : GlobMatches [] []
  | char {c : Char} {p s : List Char} (hc : c ≠ '*') (h : GlobMatches p s) :
      GlobMatches (c :: p) (c :: s)
  | star {p s : List Char} (run : List Char) (hrun : ∀ c ∈ run, isLineTerminator c = false)
      (h : GlobMatches p s) : GlobMatches ('*' :: p) (run ++ s)

theorem globMatch_of_globMatches {p s : List Char} (h : GlobMatches p s) :
    globMatch p s = true := by
  induction h with
  | nil => unfold globMatch; rfl
  | char hc _ ih =>
    unfold globMatch
    rw [if_neg hc, ih]
    simp
  | @star p s run hrun _ ih =>
    induction run with
    | nil => exact globMatch_skip ih
    | cons c run ihrun =>
      have hrest := ihrun fun c' hc' => hrun c' (List.mem_cons_of_mem _ hc')
      rw [List.cons_append]
      unfold globMatch
      rw [if_pos rfl, hrest, hrun c List.mem_cons_self]
      exact Bool.or_true _

theorem globMatches_of_globMatch {p s : List Char} (h : globMatch p s = true) :
    GlobMatches p s := by
  fun_induction globMatch p s with
  | case1 s =>
    cases s with
    | nil => exact .nil
    | cons c s => cases h
  | case2 p ps ih =>
    obtain ⟨hp, hps⟩ := Bool.and_eq_true_iff.1 h
    obtain rfl := of_decide_eq_true hp
    exact .star [] (fun _ hc => absurd hc List.not_mem_nil) (ih hps)
  | case3 ps c cs ih₁ ih₂ =>
    obtain hskip | htake := Bool.or_eq_true_iff.1 h
    · exact .star [] (fun _ hc => absurd hc List.not_mem_nil) (ih₁ hskip)
    · obtain ⟨hline, hrest⟩ := Bool.and_eq_true_iff.1 htake
      cases ih₂ hrest with
      | char hc _ => exact absurd rfl hc
      | @star _ s run hrun hs =>
        refine .star (c :: run) (fun c' hc' => ?_) hs
        obtain rfl | hc' := List.mem_cons.1 hc'
        · simpa using hline
        · exact hrun c' hc'
  | case4 p ps c cs hp ih =>
    obtain ⟨hc, hrest⟩ := Bool.and_eq_true_iff.1 h
    obtain rfl := of_decide_eq_true hc
    exact .char hp (ih hrest)

theorem globMatch_iff {p s : List Char} : globMatch p s = true ↔ GlobMatches p s :=
  ⟨globMatches_of_globMatch, globMatch_of_globMatches⟩

/-- `invalidatePattern` removes the entries whose key matches the pattern, and no others. -/
theorem entries_invalidatePattern (c : CacheMaps α) (pattern : String) :
    (c.invalidatePattern pattern).store.entries =
      c.store.entries.filter fun (key, _) => !globMatch pattern.toList key.toList := by
  unfold invalidatePattern
  rw [entries_deleteAll]
  refine List.filter_congr fun entry hentry => ?_
  have hkey : entry.1 ∈ c.store.keys := List.mem_map.2 ⟨entry, hentry, rfl⟩
  simp [hkey]

/-! ## Runs -/

/-- A call of the cache. -/
inductive CacheCall (α : Type) where
  | get (key : String)
  | has (key : String)
  | set (key : String) (data : α) (ttl : Option Int) (tags : Option (List String))
  | delete (key : String)
  | clear
  | invalidatePattern (pattern : String)
  | invalidateTag (tag : String)
  | invalidateCollection (slug : String)
  | invalidatePermission (roleId : String) (collection : Option String)

/-- What a call makes of the cache; the clock is read up to two times. -/
def call (c : CacheMaps α) (now later : Int) : CacheCall α → CacheMaps α
  | .get key => (c.get key now).2
  | .has key => (c.has key now).2
  | .set key data ttl tags => c.set key data ttl tags now later
  | .delete key => c.delete key
  | .clear => c.clear
  | .invalidatePattern pattern => c.invalidatePattern pattern
  | .invalidateTag tag => c.invalidateTag tag
  | .invalidateCollection slug => c.invalidateCollection slug
  | .invalidatePermission roleId collection => c.invalidatePermission roleId collection

/-- The cache after calls at given times, from a new one. -/
def run (calls : List (Int × Int × CacheCall α)) : CacheMaps α :=
  calls.foldl (fun c (now, later, x) => c.call now later x) empty

theorem Consistent.call (h : c.Consistent) (now later : Int) (x : CacheCall α) :
    (c.call now later x).Consistent := by
  cases x with
  | get key => exact h.get key now
  | has key => exact h.has key now
  | set key data ttl tags => exact h.set key data ttl tags now later
  | delete key => exact h.delete key
  | clear => exact consistent_empty
  | invalidatePattern pattern => exact h.invalidatePattern pattern
  | invalidateTag tag => exact h.invalidateTag tag
  | invalidateCollection slug => exact h.invalidateCollection slug
  | invalidatePermission roleId collection => exact h.invalidatePermission roleId collection

/-- Every call keeps the maps consistent. -/
theorem consistent_run (calls : List (Int × Int × CacheCall α)) : (run calls).Consistent :=
  foldl_invariant (I := fun c : CacheMaps α => c.Consistent) consistent_empty
    fun _ (now, later, x) _ hc => hc.call now later x

/-- After any calls the two maps list the same, there is not too much in them, and an invalidation
removes just the entries that carry its tag or match its pattern. -/
theorem represents_run (calls : List (Int × Int × CacheCall α)) :
    (run calls).Consistent ∧
      (∀ tag, ((run calls).invalidateTag tag).store.entries =
        (run calls).store.entries.filter (tag ∉ ·.2.tags)) ∧
      ∀ pattern entry, entry ∈ ((run calls).invalidatePattern pattern).store.entries ↔
        entry ∈ (run calls).store.entries ∧ ¬ GlobMatches pattern.toList entry.1.toList := by
  have h := consistent_run calls
  refine ⟨h, h.entries_invalidateTag, fun pattern entry => ?_⟩
  rw [entries_invalidatePattern, List.mem_filter, ← globMatch_iff]
  simp

/-! ## What a hit is -/

section
variable {k : String} {e : CacheEntry α}

/-- A call that leaves no entry of a key with these tags as it was. -/
def Drops (k : String) (tags : List String) : CacheCall α → Prop
  | .get _ | .has _ => False
  | .set key _ _ _ | .delete key => key = k
  | .clear => True
  | .invalidatePattern pattern => globMatch pattern.toList k.toList = true
  | .invalidateTag tag => tag ∈ tags
  | .invalidateCollection slug =>
    k ∈ ["schema:" ++ slug, "schema:" ++ slug ++ ":raw", "schemas:all", "schemas:summaries"] ∨
      (∃ pattern ∈ ["perm:*:" ++ slug ++ ":*", "report:" ++ slug ++ ":*", "readc:" ++ slug ++ ":*"],
        globMatch pattern.toList k.toList = true) ∨ readDependencyTag slug ∈ tags
  | .invalidatePermission roleId collection =>
    globMatch ((collection.filter (· != "")).elim ("perm:" ++ roleId ++ ":*") fun slug =>
      "perm:" ++ roleId ++ ":" ++ slug ++ ":*").toList k.toList = true

theorem mem_delete {key : String} :
    (k, e) ∈ (c.delete key).store.entries ↔ (k, e) ∈ c.store.entries ∧ k ≠ key := by
  rw [entries_delete, List.mem_filter, decide_eq_true_iff]

theorem mem_invalidatePattern {pattern : String} :
    (k, e) ∈ (c.invalidatePattern pattern).store.entries ↔
      (k, e) ∈ c.store.entries ∧ ¬ globMatch pattern.toList k.toList = true := by
  rw [entries_invalidatePattern, List.mem_filter]
  simp

theorem Agrees.mem_invalidateTag (h : c.Agrees) {tag : String} :
    (k, e) ∈ (c.invalidateTag tag).store.entries ↔ (k, e) ∈ c.store.entries ∧ tag ∉ e.tags := by
  rw [h.entries_invalidateTag, List.mem_filter, decide_eq_true_iff]

theorem Consistent.mem_invalidateCollection (h : c.Consistent) {slug : String}
    (hmem : (k, e) ∈ (c.invalidateCollection slug).store.entries) :
    (k, e) ∈ c.store.entries ∧ ¬ Drops k e.tags (.invalidateCollection slug : CacheCall α) := by
  have hschemas := (((h.delete ("schema:" ++ slug)).delete ("schema:" ++ slug ++ ":raw")).delete
    "schemas:all").delete "schemas:summaries"
  have hpatterns := ((hschemas.invalidatePattern ("perm:*:" ++ slug ++ ":*")).invalidatePattern
    ("report:" ++ slug ++ ":*")).invalidatePattern ("readc:" ++ slug ++ ":*")
  simp only [CacheMaps.invalidateCollection] at hmem
  simp only [hpatterns.toAgrees.mem_invalidateTag, mem_invalidatePattern, mem_delete] at hmem
  refine ⟨hmem.1.1.1.1.1.1.1.1, ?_⟩
  simp only [Drops, List.mem_cons, List.not_mem_nil, or_false, exists_eq_or_imp, exists_eq_left]
  tauto

/-- After a call an entry is the one it has set, or one that it has not dropped. -/
theorem Consistent.mem_call (h : c.Consistent) {now later : Int} {x : CacheCall α}
    (hmem : (k, e) ∈ (c.call now later x).store.entries) :
    (∃ data ttl tags, x = .set k data ttl tags ∧
      e = ⟨data, later, ttl.getD 60000, (tags.getD []).eraseDups⟩) ∨
    (k, e) ∈ c.store.entries ∧ ¬ Drops k e.tags x := by
  cases x with
  | get key | has key =>
    refine .inr ⟨?_, id⟩
    simp only [CacheMaps.call, CacheMaps.get, CacheMaps.has] at hmem
    split at hmem
    · exact hmem
    split at hmem
    · exact (mem_delete.1 hmem).1
    · exact hmem
  | set key data ttl tags =>
    have hget := JsMap.get?_eq_some.2 hmem
    have hkept (entry : String × CacheEntry α)
        (hentry : entry ∈ ((c.delete key).enforceSize now).store.entries) :
        entry ∈ (c.delete key).store.entries := by
      revert hentry
      refine enforceSize_induction (P := fun c' => entry ∈ c'.store.entries → _) id ?_ now
      intro c' keys hc' hentry
      rw [entries_deleteAll] at hentry
      exact hc' (List.mem_filter.1 hentry).1
    change (JsMap.set _ key _).get? k = some e at hget
    rw [JsMap.get?_set] at hget
    split at hget
    · next heq =>
      subst heq
      exact .inl ⟨data, ttl, tags, rfl, (Option.some.inj hget).symm⟩
    · obtain ⟨hold, hne⟩ := mem_delete.1 (hkept _ (JsMap.get?_eq_some.1 hget))
      exact .inr ⟨hold, fun heq => hne heq.symm⟩
  | delete key =>
    obtain ⟨hold, hne⟩ := mem_delete.1 hmem
    exact .inr ⟨hold, fun heq => hne heq.symm⟩
  | clear => cases hmem
  | invalidatePattern pattern => exact .inr (mem_invalidatePattern.1 hmem)
  | invalidateTag tag => exact .inr (h.toAgrees.mem_invalidateTag.1 hmem)
  | invalidateCollection slug =>
    rw [CacheMaps.call] at hmem
    exact .inr (h.mem_invalidateCollection hmem)
  | invalidatePermission roleId collection =>
    simp only [CacheMaps.call, CacheMaps.invalidatePermission] at hmem
    refine .inr ?_
    simp only [Drops]
    cases hslug : collection.filter (· != "") with
    | none | some slug =>
      simp only [hslug] at hmem
      exact mem_invalidatePattern.1 hmem

/-- After any calls a value that is found was set under its key, has not expired, and nothing since has
set the key again, deleted it, or invalidated its tags or a pattern of the key. -/
theorem newest_of_get {calls : List (Int × Int × CacheCall α)} {now : Int} {data : α}
    (h : ((run calls).get k now).1 = some data) :
    ∃ before after first later ttl tags,
      calls = before ++ (first, later, .set k data ttl tags) :: after ∧
        now - later ≤ ttl.getD 60000 ∧ ∀ x ∈ after, ¬ Drops k ((tags.getD []).eraseDups) x.2.2 := by
  have hset (e : CacheEntry α) (hmem : (k, e) ∈ (run calls).store.entries) :
      ∃ before after first later ttl tags,
        calls = before ++ (first, later, .set k e.data ttl tags) :: after ∧
          e = ⟨e.data, later, ttl.getD 60000, (tags.getD []).eraseDups⟩ ∧
            ∀ x ∈ after, ¬ Drops k e.tags x.2.2 := by
    clear h
    induction calls using List.reverseRecOn with
    | nil => cases hmem
    | append_singleton calls x ih =>
      obtain ⟨first, later, x⟩ := x
      rw [run, List.foldl_append] at hmem
      obtain ⟨data, ttl, tags, rfl, rfl⟩ | ⟨hold, hdrops⟩ := (consistent_run calls).mem_call hmem
      · exact ⟨calls, [], first, later, ttl, tags, rfl, rfl, List.forall_mem_nil _⟩
      · obtain ⟨before, after, first', later', ttl, tags, rfl, he, hafter⟩ := ih hold
        refine ⟨before, after ++ [(first, later, x)], first', later', ttl, tags,
          List.append_assoc _ _ _, he, ?_⟩
        exact List.forall_mem_append.2 ⟨hafter, List.forall_mem_singleton.2 hdrops⟩
  unfold CacheMaps.get at h
  split at h
  · cases h
  · next e he =>
    split at h
    · cases h
    · next hfresh =>
      cases h
      obtain ⟨before, after, first, later, ttl, tags, hcalls, he', hafter⟩ :=
        hset e (JsMap.get?_eq_some.1 he)
      have htags : e.tags = (tags.getD []).eraseDups := congrArg CacheEntry.tags he'
      rw [he'] at hfresh
      rw [htags] at hafter
      exact ⟨before, after, first, later, ttl, tags, hcalls,
        Int.not_lt.1 fun hlt => hfresh (decide_eq_true hlt), hafter⟩

end

/-- A total that is set twice, and an invalidation of another tag. -/
def totalCalls : List (Int × Int × CacheCall Nat) :=
  [(0, 0, .set "report:orders:total" 1 none none),
   (5, 5, .set "report:orders:total" 2 (some 10) (some ["orders"])),
   (6, 6, .invalidateTag "users")]

theorem newest_total : ∃ before after first later ttl tags,
    totalCalls = before ++ (first, later, .set "report:orders:total" 2 ttl tags) :: after ∧
      9 - later ≤ ttl.getD 60000 ∧
        ∀ x ∈ after, ¬ Drops "report:orders:total" ((tags.getD []).eraseDups) x.2.2 :=
  newest_of_get (by decide)

end CacheMaps

end HeadlessErp
