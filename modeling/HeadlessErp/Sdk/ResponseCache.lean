import HeadlessErp.Sdk.OfflineQueue

/-!
# The response cache of the client

`ConditionalResponseCache` of `packages/sdk/src/conditional-cache.ts`: the last body of each URL, in
memory and, where the server allows it, on the device. The copy on the device is tagged with the
fingerprint of an account. Each entry carries the account that requested it, which the code does not
store.
-/

namespace HeadlessErp

/-- An entry of the cache, with the account whose request it answers. -/
structure CachedResponse (N : Type) where
  etag : String
  data : JsVal N
  metadata : JsVal N
  storedAt : Option Nat
  maxAgeS : Option N
  account : Option String

/-- The entries of a cache by their URLs, the oldest first. -/
abbrev ResponseStore (N : Type) := List (String × CachedResponse N)

/-- What a storage adapter keeps on the device. -/
structure DeviceStorage (N : Type) where
  entries : ResponseStore N
  fingerprint : Option String

/-- A cache. One without a storage is kept in memory only. -/
structure ResponseCache (N : Type) where
  maxEntries : Nat
  maxPersisted : Nat
  store : ResponseStore N
  storage : Option (DeviceStorage N)
  hydrated : Bool
  fp : Option String

section
variable {N : Type} [JsNumber N]

/-- `isFresh`. -/
def CachedResponse.isFresh (entry : CachedResponse N) (now : Nat) : Bool :=
  match entry.maxAgeS, entry.storedAt with
  | some maxAge, some storedAt =>
    JsNumber.lt (JsNumber.sub (JsNumber.ofInt now) (JsNumber.ofInt storedAt))
      (JsNumber.mul maxAge (JsNumber.ofInt 1000))
  | _, _ => false

/-- `entries.slice(-n)`. -/
def sliceLast (entries : ResponseStore N) (n : Nat) : ResponseStore N :=
  if n = 0 then entries else entries.drop (entries.length - n)

namespace ResponseCache
variable (c : ResponseCache N)

/-- The entry of a URL. -/
def lookup (key : String) : Option (CachedResponse N) :=
  (c.store.find? fun kv => kv.1 == key).map (·.2)

/-- The store with an entry in the last place. -/
def putLast (key : String) (entry : CachedResponse N) : ResponseStore N :=
  (c.store.filter fun kv => kv.1 != key) ++ [(key, entry)]

/-- `get`: an entry that was found becomes the last one. -/
def get (key : String) : Option (CachedResponse N) × ResponseCache N :=
  match c.lookup key with
  | none => (none, c)
  | some entry => (some entry, { c with store := c.putLast key entry })

/-- `persist`. -/
def persist (now : Nat) : ResponseCache N :=
  match c.storage with
  | none => c
  | some _ =>
    let entries := sliceLast (c.store.filter fun kv => kv.2.isFresh now) c.maxPersisted
    { c with storage := some ⟨entries, c.fp⟩ }

/-- `set`. -/
def set (key : String) (entry : CachedResponse N) (now : Nat) : ResponseCache N :=
  let store := c.putLast key entry
  let c := { c with store := store.drop (store.length - c.maxEntries) }
  if entry.maxAgeS.isSome then c.persist now else c

/-- The storage without entries and without a tag. -/
def wipe : ResponseCache N :=
  { c with storage := c.storage.map fun _ => ⟨[], none⟩ }

/-- `clear`. -/
def clear : ResponseCache N :=
  { c.wipe with store := [], hydrated := true, fp := none }

/-- The last part of `hydrate`: the fresh entries of the device are adopted. -/
def adopt (entries : ResponseStore N) (now : Nat) : ResponseCache N :=
  entries.foldl (fun c kv =>
    if kv.2.isFresh now && (c.lookup kv.1).isNone then { c with store := c.store ++ [kv] }
    else c) c

/-- The part of `hydrate` that reads the storage. -/
def readDevice (fingerprint : Option String) (device : DeviceStorage N) (now : Nat) :
    ResponseCache N :=
  if device.fingerprint ≠ none ∧ fingerprint ≠ none ∧ device.fingerprint ≠ fingerprint then c.wipe
  else
    let tag := if device.fingerprint = none then fingerprint else device.fingerprint
    adopt { c with storage := some ⟨device.entries, tag⟩ } device.entries now

/-- `hydrate`. -/
def hydrate (fingerprint : Option String) (now : Nat) : ResponseCache N :=
  match c.storage with
  | none => c
  | some device =>
    if c.hydrated = true ∧ fingerprint = c.fp then c
    else if c.hydrated = true then
      readDevice { c with store := [], fp := fingerprint } fingerprint ⟨[], none⟩ now
    else
      readDevice { c with fp := fingerprint, hydrated := true } fingerprint device now

end ResponseCache

end

end HeadlessErp
