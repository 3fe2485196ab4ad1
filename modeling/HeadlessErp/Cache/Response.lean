import Mathlib.Data.List.GetD
import HeadlessErp.Cache.Dependencies
import HeadlessErp.Cache.Layer
import HeadlessErp.Entity.Collection
import HeadlessErp.Query.RowFilter

/-!
# The response cache

The keys and the tags of cached reads (`packages/core/src/cache/response-cache.ts`), and what
`listItems` and `getItem` make of them. An invalidation leaves no entry of the collection's reads and
no entry that carries its tag.
-/

namespace HeadlessErp

/-! ## Keys -/

/-- `fnv1a`, as a number. -/
def fnv1a (s : String) : UInt32 :=
  (utf16 s).foldl (fun h unit => (h ^^^ UInt32.ofNat unit) * 0x01000193) 0x811c9dc5

/-- A digit of base 36. -/
def digit36 (d : Nat) : Char := "0123456789abcdefghijklmnopqrstuvwxyz".toList.getD d '0'

/-- `toString(36)` of a number below `36 ^ (places + 1)`. -/
def toString36 : Nat → Nat → List Char
  | 0, n => [digit36 n]
  | places + 1, n =>
    if n < 36 then [digit36 n] else toString36 places (n / 36) ++ [digit36 (n % 36)]

/-- `readCacheKey`. -/
def readCacheKey (collection authFp canonUrl : String) : String :=
  "readc:" ++ collection ++ ":" ++ (authFp ++ ":" ++ String.ofList
    (toString36 6 (fnv1a canonUrl).toNat))

/-- `readDependencyTag`. -/
def readDependencyTag (collection : String) : String := "readdep:" ++ collection

/-- `authFingerprint`. -/
def authFingerprint {N : Type} [JsNumber N] (auth : Option (AuthContext N)) : String :=
  match auth with
  | none => "anon"
  | some auth =>
    if (auth.get "user_id").truthy then (auth.get "user_id").toStr
    else if (auth.get "email").truthy then (auth.get "email").toStr
    else "anon"

namespace CacheLayer
variable {α : Type} (c : CacheLayer α)

/-- `storeCached`. -/
def storeCached (key : String) (data : α) (ttlMs : Int) (dependsOn : List String) (now : Int) :
    CacheLayer α := c.set key data ttlMs (dependsOn.map readDependencyTag) now

/-- `invalidateCollectionReads`. -/
def invalidateCollectionReads (collection : String) : CacheLayer α :=
  (c.invalidatePattern ("readc:" ++ collection ++ ":*")).invalidateTag
    (readDependencyTag collection)

end CacheLayer

/-! ## Reads -/

/-- `FULL_ROW_READ_KEY`. -/
def fullRowReadKey : String := "internal:full-row"

/-- What a read asks for: a page, with the text of its query and what the query was parsed to, or
one row. -/
inductive ReadKind where
  | list (search : String) (cursor exportCsv aggregate explain includeTrashed : Bool)
  | item (id fieldsKey : String)

/-- A read, with its caller. -/
structure ReadRequest (N : Type) where
  collection : String
  auth : Option (AuthContext N)
  kind : ReadKind
  fields : Option FieldSelection

/-- The collections with their fields. -/
abbrev Collections (N : Type) := String → Option (CollectionInfo N)

/-- The fields of the collections. -/
def fieldsOf {N : Type} (C : Collections N) (slug : String) : Option (List (FieldDefinition N)) :=
  (C slug).map (·.schemaFields)

namespace ReadRequest
variable {N : Type} [JsNumber N] (C : Collections N) (r : ReadRequest N)

omit [JsNumber N] in
/-- The selection: a list has one of its collection, where it names none. -/
def selection (info : CollectionInfo N) : Option FieldSelection :=
  match r.kind, r.fields with
  | .list .., none => info.listFields
  | _, fields => fields

/-- The text that the key is made of. -/
def canonUrl : String :=
  match r.kind with
  | .list search .. => search
  | .item id fieldsKey => "get/" ++ id ++ (if fieldsKey = "" then "" else "?fields=" ++ fieldsKey)

omit [JsNumber N] in
/-- A read of a kind that is cached. -/
def cacheable : Bool :=
  match r.kind with
  | .list _ cursor exportCsv aggregate explain _ =>
    !cursor && !exportCsv && !aggregate && !explain
  | .item _ fieldsKey => fieldsKey ≠ fullRowReadKey

omit [JsNumber N] in
/-- `dependencies`: nothing where the read is not cached. -/
def dependencies : Option (List String) :=
  match C r.collection with
  | none => none
  | some info =>
    if info.cache.enabled && r.cacheable then
      readDependencies (fieldsOf C) info.schemaFields (r.selection info)
    else none

/-- The key of a cached read. -/
def cacheKey : String := readCacheKey r.collection (authFingerprint r.auth) r.canonUrl

omit [JsNumber N] in
/-- How long an entry lives, in milliseconds. -/
def ttlMs : Int := ((C r.collection).map (·.cache.ttlS * 1000)).getD 0

omit [JsNumber N] in
/-- The collections whose writes drop the read's entry. -/
def watched : List String := r.collection :: (r.dependencies C).getD []

end ReadRequest

/-! ## What an invalidation leaves -/

/-- A text that `.*` matches. -/
def OneLine (s : String) : Prop := ∀ ch ∈ s.toList, isLineTerminator ch = false

theorem oneLine_of_all {s : String} (h : s.toList.all (!isLineTerminator ·) = true) : OneLine s :=
  fun ch hch => by simpa using List.all_eq_true.1 h ch hch

theorem digit36_oneLine (d : Nat) : isLineTerminator (digit36 d) = false := by
  have hall : OneLine "0123456789abcdefghijklmnopqrstuvwxyz" := oneLine_of_all (by decide)
  unfold digit36
  obtain hlt | hge := Nat.lt_or_ge d "0123456789abcdefghijklmnopqrstuvwxyz".toList.length
  · rw [List.getD_eq_getElem _ _ hlt]
    exact hall _ (List.getElem_mem hlt)
  · rw [List.getD_eq_default _ _ hge]
    decide

theorem toString36_oneLine (places n : Nat) :
    ∀ ch ∈ toString36 places n, isLineTerminator ch = false := by
  induction places generalizing n with
  | zero =>
    intro ch hch
    rw [List.mem_singleton.1 hch]
    exact digit36_oneLine n
  | succ places ih =>
    intro ch hch
    unfold toString36 at hch
    split at hch
    · rw [List.mem_singleton.1 hch]
      exact digit36_oneLine n
    · obtain hch | hch := List.mem_append.1 hch
      · exact ih _ ch hch
      · rw [List.mem_singleton.1 hch]
        exact digit36_oneLine _

/-- The pattern of a collection matches the keys of its reads. -/
theorem globMatch_readCacheKey {collection authFp : String} (h : OneLine authFp)
    (canonUrl : String) :
    globMatch ("readc:" ++ collection ++ ":*").toList
      (readCacheKey collection authFp canonUrl).toList = true := by
  have hpattern : ("readc:" ++ collection ++ ":*").toList =
      ("readc:" ++ collection ++ ":").toList ++ ['*'] := by
    simp only [String.toList_append, List.append_assoc]
    rfl
  unfold readCacheKey
  rw [hpattern, String.toList_append (s := "readc:" ++ collection ++ ":")]
  refine globMatch_append _ fun ch hch => ?_
  simp only [String.toList_append, String.toList_ofList, List.mem_append] at hch
  obtain (hch | hch) | hch := hch
  · exact h ch hch
  · have hcolon : OneLine ":" := oneLine_of_all (by decide)
    exact hcolon ch hch
  · exact toString36_oneLine 6 (fnv1a canonUrl).toNat ch hch

namespace CacheLayer
variable {α : Type} {c : CacheLayer α} {key collection : String} {e : CacheEntry α}

theorem Indexed.invalidateCollectionReads (h : c.Indexed) (collection : String) :
    (c.invalidateCollectionReads collection).Indexed :=
  (h.invalidatePattern _).invalidateTag _

/-- An invalidation leaves neither a read of the collection nor one that carries its tag. -/
theorem mem_invalidateCollectionReads (hc : c.Indexed)
    (h : (key, e) ∈ (c.invalidateCollectionReads collection).store) :
    (key, e) ∈ c.store ∧
      globMatch ("readc:" ++ collection ++ ":*").toList key.toList = false ∧
      readDependencyTag collection ∉ e.tags := by
  obtain ⟨hpattern, htag⟩ := mem_invalidateTag (hc.invalidatePattern _) h
  obtain ⟨hmem, hkey⟩ := mem_invalidatePattern hpattern
  exact ⟨hmem, hkey, htag⟩

/-- The invalidations of several collections. -/
def invalidateAll (c : CacheLayer α) (collections : List String) : CacheLayer α :=
  collections.foldl invalidateCollectionReads c

theorem Indexed.invalidateAll (h : c.Indexed) (collections : List String) :
    (c.invalidateAll collections).Indexed := by
  unfold CacheLayer.invalidateAll
  induction collections generalizing c with
  | nil => exact h
  | cons slug collections ih => exact ih (h.invalidateCollectionReads slug)

theorem mem_invalidateAll (hc : c.Indexed) {collections : List String}
    (h : (key, e) ∈ (c.invalidateAll collections).store) :
    (key, e) ∈ c.store ∧ ∀ slug ∈ collections,
      globMatch ("readc:" ++ slug ++ ":*").toList key.toList = false ∧
      readDependencyTag slug ∉ e.tags := by
  unfold invalidateAll at h
  induction collections generalizing c with
  | nil => exact ⟨h, fun slug hslug => nomatch hslug⟩
  | cons slug collections ih =>
    obtain ⟨hmem, hrest⟩ := ih (hc.invalidateCollectionReads slug) h
    obtain ⟨hold, hkey⟩ := mem_invalidateCollectionReads hc hmem
    refine ⟨hold, fun slug' hslug' => ?_⟩
    obtain rfl | hslug' := List.mem_cons.1 hslug'
    · exact hkey
    · exact hrest slug' hslug'

end CacheLayer

/-- What is left after invalidations is of a read that watches none of the collections. -/
theorem ReadRequest.watched_of_mem_invalidateAll {N α : Type} [JsNumber N] {C : Collections N}
    {r : ReadRequest N} {c : CacheLayer α} {e : CacheEntry α} {collections : List String}
    (hc : c.Indexed) (hline : OneLine (authFingerprint r.auth))
    (htags : e.tags = ((r.dependencies C).getD []).map readDependencyTag)
    (h : (r.cacheKey, e) ∈ (c.invalidateAll collections).store) :
    (r.cacheKey, e) ∈ c.store ∧ ∀ slug ∈ collections, slug ∉ r.watched C := by
  obtain ⟨hmem, hrest⟩ := CacheLayer.mem_invalidateAll hc h
  refine ⟨hmem, fun slug hslug hwatched => ?_⟩
  obtain ⟨hkey, htag⟩ := hrest slug hslug
  obtain rfl | hdep := List.mem_cons.1 hwatched
  · rw [cacheKey, globMatch_readCacheKey hline] at hkey
    cases hkey
  · rw [htags] at htag
    exact htag (List.mem_map_of_mem hdep)

end HeadlessErp
