import HeadlessErp.Base.Transition
import HeadlessErp.Js.Map

/-!
# The rate limiter

`checkRateLimit` of `apps/api/src/middleware/rate-limiter.ts`: fixed windows in one map for all
keys, which keeps at most `MAX_STORE_SIZE` entries by dropping its first ones.
-/

namespace HeadlessErp

/-- `RateLimitConfig`: a window in seconds, and the requests it admits. -/
structure RateLimitConfig where
  window : Nat
  max : Nat

/-- An entry of the store. Times are in milliseconds. -/
structure RateEntry where
  count : Nat
  resetAt : Nat
  deriving DecidableEq, Repr

abbrev RateStore := JsMap String RateEntry

/-- `RateLimitCheckResult`. -/
structure RateLimitCheckResult where
  allowed : Bool
  count : Nat
  limit : Nat
  resetAt : Nat
  deriving DecidableEq, Repr

/-- `MAX_STORE_SIZE`. -/
def maxStoreSize : Nat := 10000

/-- `evictOldest`: the first keys of the map go. -/
def evictOldest (store : RateStore) : RateStore :=
  if store.size ≤ maxStoreSize then store
  else (store.keys.take (store.size - maxStoreSize)).foldl JsMap.delete store

/-- The key of a caller. -/
def rateKey (ns ip : String) (userId : Option String) : String :=
  ns ++ ":" ++ ip ++ ":" ++ match userId with
    | some user => if user = "" then "anon" else user
    | none => "anon"

/-- The entry of a key, where its window has not ended. -/
def liveEntry (store : RateStore) (key : String) (now : Nat) : Option RateEntry :=
  match store.get? key with
  | some entry => if entry.resetAt < now then none else some entry
  | none => none

/-- The entry of a window that opens. -/
def freshEntry (config : RateLimitConfig) (now : Nat) : RateEntry where
  count := 0
  resetAt := now + config.window * 1000

/-- The store with an entry for the key, and that entry before the call is counted. -/
def openWindow (config : RateLimitConfig) (key : String) (now : Nat) (store : RateStore) :
    RateStore × RateEntry :=
  match liveEntry store key now with
  | some entry => (store, entry)
  | none => (evictOldest (store.set key (freshEntry config now)), freshEntry config now)

/-- The store after the entry of a key was counted on. The entry is an object of the map, if it is
still there. -/
def countOn (store : RateStore) (key : String) (entry : RateEntry) : RateStore :=
  if (store.get? key).isSome then store.set key entry else store

/-- `checkRateLimit`. -/
def checkRateLimit (ns ip : String) (userId : Option String) (config : RateLimitConfig) (now : Nat)
    (store : RateStore) : RateStore × RateLimitCheckResult :=
  let key := rateKey ns ip userId
  let (store, entry) := openWindow config key now store
  let entry := { entry with count := entry.count + 1 }
  (countOn store key entry,
    { allowed := entry.count ≤ config.max, count := entry.count, limit := config.max,
      resetAt := entry.resetAt })

/-! ## Eviction -/

namespace JsMap
variable {κ α : Type} [DecidableEq κ] {m : JsMap κ α} {k : κ}

theorem get?_foldl_delete (ks : List κ) (m : JsMap κ α) (k : κ) :
    (ks.foldl delete m).get? k = if k ∈ ks then none else m.get? k := by
  induction ks generalizing m with
  | nil => rfl
  | cons k₀ ks ih =>
    rw [List.foldl_cons, ih, get?_delete]
    by_cases hmem : k ∈ ks
    · rw [if_pos hmem, if_pos (List.mem_cons_of_mem k₀ hmem)]
    · rw [if_neg hmem]
      by_cases hk : k = k₀
      · rw [if_pos hk, if_pos (List.mem_cons.2 (.inl hk))]
      · rw [if_neg hk, if_neg (by simp [hk, hmem])]

theorem keys_delete (m : JsMap κ α) (k : κ) : (m.delete k).keys = m.keys.filter (· ≠ k) := by
  unfold keys delete
  rw [List.filter_map]
  rfl

theorem keys_foldl_delete (ks : List κ) (m : JsMap κ α) :
    (ks.foldl delete m).keys = m.keys.filter (· ∉ ks) := by
  induction ks generalizing m with
  | nil => simp
  | cons k₀ ks ih =>
    rw [List.foldl_cons, ih, keys_delete, List.filter_filter]
    refine List.filter_congr fun k _ => ?_
    simp [Bool.and_comm]

/-- Deleting the first keys of a map leaves the others. -/
theorem keys_foldl_delete_take (m : JsMap κ α) (n : Nat) :
    ((m.keys.take n).foldl delete m).keys = m.keys.drop n := by
  have hnodup : (m.keys.take n ++ m.keys.drop n).Nodup := by
    rw [List.take_append_drop]
    exact m.nodup
  have hdisjoint := (List.nodup_append.1 hnodup).2.2
  rw [keys_foldl_delete]
  calc m.keys.filter (· ∉ m.keys.take n)
      = (m.keys.take n ++ m.keys.drop n).filter (· ∉ m.keys.take n) := by
        rw [List.take_append_drop]
    _ = [] ++ m.keys.drop n := by
        rw [List.filter_append]
        congr 1
        · exact List.filter_eq_nil_iff.2 fun k hk => by simpa using hk
        · exact List.filter_eq_self.2 fun k hk => by
            simpa using fun htake => hdisjoint k htake k hk rfl
    _ = m.keys.drop n := List.nil_append _

omit [DecidableEq κ] in
theorem size_eq (m : JsMap κ α) : m.size = m.keys.length := by
  unfold size keys
  rw [List.length_map]

/-- A key that is there stays where it is. -/
theorem keys_set_of_isSome {v : α} (h : (m.get? k).isSome) : (m.set k v).keys = m.keys := by
  have hk : k ∈ m.keys := by
    by_contra hk
    rw [get?_eq_none.2 hk] at h
    cases h
  unfold set
  rw [dif_pos hk]
  exact map_fst_replaced m.entries k v

theorem size_set_of_isSome {v : α} (h : (m.get? k).isSome) : (m.set k v).size = m.size := by
  rw [size_eq, size_eq, keys_set_of_isSome h]

/-- A new key comes last. -/
theorem keys_set_of_none {v : α} (h : m.get? k = none) : (m.set k v).keys = m.keys ++ [k] := by
  unfold keys
  rw [entries_set h, List.map_append]
  rfl

end JsMap

/-- The store holds no more than it may after an eviction. -/
theorem size_evictOldest (store : RateStore) : (evictOldest store).size ≤ maxStoreSize := by
  unfold evictOldest
  split
  · assumption
  · next h =>
    rw [JsMap.size_eq, JsMap.keys_foldl_delete_take, List.length_drop, ← JsMap.size_eq]
    omega

/-- An entry that is left is as it was. -/
theorem get?_evictOldest {store : RateStore} {key : String} {entry : RateEntry}
    (h : (evictOldest store).get? key = some entry) : store.get? key = some entry := by
  unfold evictOldest at h
  split at h
  · exact h
  · rw [JsMap.get?_foldl_delete] at h
    split at h
    · cases h
    · exact h

/-- What an eviction drops after a key was set: at most the first key, and only for a new one. -/
theorem get?_evictOldest_set {store : RateStore} (hsize : store.size ≤ maxStoreSize)
    (key k : String) (entry : RateEntry)
    (hfirst : store.get? key = none → maxStoreSize ≤ store.size →
      ∀ first ∈ store.entries.head?, first.1 ≠ k) :
    (evictOldest (store.set key entry)).get? k = (store.set key entry).get? k := by
  unfold evictOldest
  split
  · rfl
  · next hfull =>
    rw [JsMap.get?_foldl_delete]
    refine if_neg fun hmem => ?_
    cases hkey : store.get? key with
    | some old => exact hfull (by rwa [JsMap.size_set_of_isSome (by rw [hkey]; rfl)])
    | none =>
      have hentries := JsMap.entries_set (v := entry) hkey
      have hset : (store.set key entry).size = store.size + 1 := by
        unfold JsMap.size
        rw [hentries, List.length_append, List.length_singleton]
      have hone : (store.set key entry).size - maxStoreSize = 1 := by omega
      have hstore : maxStoreSize ≤ store.size := by omega
      rw [hone] at hmem
      unfold JsMap.keys at hmem
      rw [hentries] at hmem
      cases hlist : store.entries with
      | nil =>
        have hzero : store.size = 0 := by
          unfold JsMap.size
          rw [hlist]
          rfl
        rw [hzero] at hstore
        exact absurd hstore (by decide)
      | cons first rest =>
        rw [hlist] at hmem
        have hk : k = first.1 := by simpa using hmem
        exact hfirst hkey hstore first (by rw [hlist]; rfl) hk.symm

/-! ## One call -/

section
variable {config : RateLimitConfig} {key k : String} {now : Nat} {store : RateStore}
  {entry e : RateEntry}

theorem keys_countOn : (countOn store key entry).keys = store.keys := by
  unfold countOn
  split
  · next h => exact JsMap.keys_set_of_isSome h
  · rfl

theorem size_countOn : (countOn store key entry).size = store.size := by
  rw [JsMap.size_eq, JsMap.size_eq, keys_countOn]

theorem get?_countOn : (countOn store key entry).get? k =
    if k = key then (store.get? key).map (fun _ => entry) else store.get? k := by
  unfold countOn
  split
  · next h =>
    obtain ⟨e, he⟩ := Option.isSome_iff_exists.1 h
    rw [JsMap.get?_set, he]
    rfl
  · next h =>
    rw [Option.not_isSome_iff_eq_none] at h
    split
    · next hk => rw [hk, h]; rfl
    · rfl

theorem liveEntry_eq_some (h : liveEntry store key now = some e) :
    store.get? key = some e ∧ now ≤ e.resetAt := by
  unfold liveEntry at h
  split at h
  · next e' he =>
    split at h
    · cases h
    · next hlive =>
      cases h
      exact ⟨he, Nat.not_lt.1 hlive⟩
  · cases h

theorem liveEntry_of_le (h : store.get? key = some e) (hlive : now ≤ e.resetAt) :
    liveEntry store key now = some e := by
  unfold liveEntry
  rw [h]
  exact if_neg (Nat.not_lt.2 hlive)

theorem openWindow_of_live (h : liveEntry store key now = some e) :
    openWindow config key now store = (store, e) := by
  unfold openWindow
  rw [h]

theorem openWindow_of_none (h : liveEntry store key now = none) :
    openWindow config key now store =
      (evictOldest (store.set key (freshEntry config now)), freshEntry config now) := by
  unfold openWindow
  rw [h]

/-- An entry of another key was there before. -/
theorem get?_of_openWindow (hk : k ≠ key)
    (h : (openWindow config key now store).1.get? k = some e) : store.get? k = some e := by
  cases hlive : liveEntry store key now with
  | some entry => rwa [openWindow_of_live hlive] at h
  | none =>
    rw [openWindow_of_none hlive] at h
    have hset := get?_evictOldest h
    rwa [JsMap.get?_set, if_neg hk] at hset

theorem size_openWindow (h : store.size ≤ maxStoreSize) :
    (openWindow config key now store).1.size ≤ maxStoreSize := by
  cases hlive : liveEntry store key now with
  | some entry => rwa [openWindow_of_live hlive]
  | none =>
    rw [openWindow_of_none hlive]
    exact size_evictOldest _

end

end HeadlessErp
