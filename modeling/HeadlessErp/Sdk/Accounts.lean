import HeadlessErp.Sdk.Client

/-!
# Reads of an account

In a run whose events are all safe, what a caller is given without a fresh body answers a request of
the account that is signed in. The permission cache has no account, so it gives the restrictions of
one account to the next.
-/

namespace HeadlessErp

/-! ## The cache -/

section
variable {N : Type} {accounts : List String} {c : ResponseCache N} {entry : CachedResponse N}
  {key : String} {fp : Option String} {now : Nat}

/-- An account with a fingerprint, among those that have signed in. -/
def TaggedBy (fp : Option String) (accounts : List String) (account : Option String) : Prop :=
  account.map fingerprint = fp ∧ ∀ b, account = some b → b ∈ accounts

/-- The entries in memory and on the device belong to the accounts of their tags. -/
structure Tagged (accounts : List String) (c : ResponseCache N) : Prop where
  store : ∀ kv ∈ c.store, TaggedBy c.fp accounts kv.2.account
  device : ∀ device, c.storage = some device →
    ∀ kv ∈ device.entries, TaggedBy device.fingerprint accounts kv.2.account
  unread : c.hydrated = false → c.store = []

theorem TaggedBy.mono {accounts' : List String} {account : Option String}
    (h : TaggedBy fp accounts account) (hsub : ∀ a ∈ accounts, a ∈ accounts') :
    TaggedBy fp accounts' account :=
  ⟨h.1, fun b hb => hsub b (h.2 b hb)⟩

theorem Tagged.mono {accounts' : List String} (h : Tagged accounts c)
    (hsub : ∀ a ∈ accounts, a ∈ accounts') : Tagged accounts' c :=
  ⟨fun kv hkv => (h.store kv hkv).mono hsub,
    fun device hdevice kv hkv => (h.device device hdevice kv hkv).mono hsub, h.unread⟩

theorem mem_putLast {kv : String × CachedResponse N} (h : kv ∈ c.putLast key entry) :
    kv = (key, entry) ∨ kv ∈ c.store := by
  rcases List.mem_append.1 h with h | h
  · exact .inr (List.mem_filter.1 h).1
  · exact .inl (List.mem_singleton.1 h)

theorem exists_of_lookup (h : c.lookup key = some entry) : ∃ kv ∈ c.store, kv.2 = entry := by
  obtain ⟨kv, hfind, hkv⟩ := Option.map_eq_some_iff.1 h
  exact ⟨kv, List.mem_of_find?_eq_some hfind, hkv⟩

theorem mem_sliceLast {entries : ResponseStore N} {n : Nat} {kv : String × CachedResponse N}
    (h : kv ∈ sliceLast entries n) : kv ∈ entries := by
  unfold sliceLast at h
  split at h
  · exact h
  · exact List.mem_of_mem_drop h

/-- `get` keeps the entries. -/
theorem get_cases (c : ResponseCache N) (key : String) :
    (c.get key).1 = c.lookup key ∧ ((c.get key).2 = c ∨
      ∃ entry, c.lookup key = some entry ∧ (c.get key).2 = { c with store := c.putLast key entry })
    := by
  unfold ResponseCache.get
  split
  · next h => exact ⟨h.symm, .inl rfl⟩
  · next entry h => exact ⟨h.symm, .inr ⟨entry, h, rfl⟩⟩

theorem get_fields (c : ResponseCache N) (key : String) :
    (c.get key).2.storage = c.storage ∧ (c.get key).2.hydrated = c.hydrated ∧
    ∀ kv ∈ (c.get key).2.store, ∃ kv' ∈ c.store, kv'.2.account = kv.2.account := by
  obtain ⟨-, heq | ⟨entry, hlookup, heq⟩⟩ := get_cases c key
  · rw [heq]
    exact ⟨rfl, rfl, fun kv hkv => ⟨kv, hkv, rfl⟩⟩
  · rw [heq]
    refine ⟨rfl, rfl, fun kv hkv => ?_⟩
    rcases mem_putLast hkv with rfl | hkv
    · obtain ⟨kv', hkv', rfl⟩ := exists_of_lookup hlookup
      exact ⟨kv', hkv', rfl⟩
    · exact ⟨kv, hkv, rfl⟩

theorem Tagged.get (h : Tagged accounts c) (key : String) : Tagged accounts (c.get key).2 := by
  obtain ⟨-, heq | ⟨entry, hlookup, heq⟩⟩ := get_cases c key
  · rw [heq]
    exact h
  · obtain ⟨kv, hkv, rfl⟩ := exists_of_lookup hlookup
    rw [heq]
    refine ⟨fun kv' hkv' => ?_, h.device, fun hread => ?_⟩
    · rcases mem_putLast hkv' with rfl | hkv'
      · exact h.store kv hkv
      · exact h.store kv' hkv'
    · rw [h.unread hread] at hkv
      exact absurd hkv List.not_mem_nil

theorem clear_storage (c : ResponseCache N) : c.clear.storage = none ↔ c.storage = none :=
  Option.map_eq_none_iff

theorem Tagged.clear : Tagged accounts c.clear := by
  refine ⟨fun kv hkv => absurd hkv List.not_mem_nil, fun device hdevice kv hkv => ?_,
    fun hnot => by cases hnot⟩
  obtain ⟨device', -, hdevice'⟩ := Option.map_eq_some_iff.1 hdevice
  rw [← hdevice'] at hkv
  exact absurd hkv List.not_mem_nil

variable [JsNumber N]

theorem Tagged.persist (h : Tagged accounts c) : Tagged accounts (c.persist now) := by
  unfold ResponseCache.persist
  split
  · exact h
  · refine ⟨h.store, fun device hdevice kv hkv => ?_, h.unread⟩
    cases hdevice
    exact h.store kv (List.mem_filter.1 (mem_sliceLast hkv)).1

/-- A response of the account that the cache is tagged with. -/
theorem Tagged.set (h : Tagged accounts c) (hentry : TaggedBy c.fp accounts entry.account)
    (hread : c.hydrated = true) : Tagged accounts (c.set key entry now) := by
  have hstore : Tagged accounts { c with
      store := (c.putLast key entry).drop ((c.putLast key entry).length - c.maxEntries) } := by
    refine ⟨fun kv hkv => ?_, h.device, fun hnot => ?_⟩
    · rcases mem_putLast (List.mem_of_mem_drop hkv) with rfl | hkv
      · exact hentry
      · exact h.store kv hkv
    · have hnot' : c.hydrated = false := hnot
      rw [hread] at hnot'
      cases hnot'
  unfold ResponseCache.set
  dsimp only
  split
  · exact hstore.persist
  · exact hstore

/-- What `hydrate` adopts. -/
theorem adopt_spec (now : Nat) (entries : ResponseStore N) (c : ResponseCache N) :
    ∃ store, c.adopt entries now = { c with store } ∧
      ∀ kv ∈ store, kv ∈ c.store ∨ kv ∈ entries := by
  unfold ResponseCache.adopt
  induction entries generalizing c with
  | nil => exact ⟨c.store, rfl, fun kv hkv => .inl hkv⟩
  | cons kv entries ih =>
    rw [List.foldl_cons]
    split
    · obtain ⟨store, heq, hmem⟩ := ih { c with store := c.store ++ [kv] }
      refine ⟨store, heq, fun kv' hkv' => ?_⟩
      rcases hmem kv' hkv' with hkv' | hkv'
      · rcases List.mem_append.1 hkv' with hkv' | hkv'
        · exact .inl hkv'
        · rw [List.mem_singleton.1 hkv']
          exact .inr List.mem_cons_self
      · exact .inr (List.mem_cons_of_mem _ hkv')
    · obtain ⟨store, heq, hmem⟩ := ih c
      exact ⟨store, heq, fun kv' hkv' => (hmem kv' hkv').imp_right (List.mem_cons_of_mem _)⟩

/-- A copy of the device with a tag just when an account is signed in, or an empty one. -/
theorem Tagged.readDevice {device : DeviceStorage N} (hread : c.hydrated = true)
    (hempty : c.store = []) (hfp : c.fp = fp) (hstorage : c.storage ≠ none)
    (hdevice : ∀ kv ∈ device.entries, TaggedBy device.fingerprint accounts kv.2.account)
    (hadopt : device.entries = [] ∨ (device.fingerprint = none ↔ fp = none)) :
    Tagged accounts (c.readDevice fp device now) ∧ (c.readDevice fp device now).fp = fp ∧
      (c.readDevice fp device now).hydrated = true ∧
      (c.readDevice fp device now).storage ≠ none := by
  unfold ResponseCache.readDevice
  split
  · refine ⟨⟨fun kv hkv => ?_, fun device' hdevice' kv hkv => ?_, fun hnot => ?_⟩, hfp, hread, ?_⟩
    · have hkv' : kv ∈ c.store := hkv
      rw [hempty] at hkv'
      exact absurd hkv' List.not_mem_nil
    · obtain ⟨-, -, rfl⟩ := Option.map_eq_some_iff.1 hdevice'
      exact absurd hkv List.not_mem_nil
    · exact hempty
    · intro hnone
      exact hstorage (Option.map_eq_none_iff.1 hnone)
  · next hsame =>
    let copy : DeviceStorage N :=
      ⟨device.entries, if device.fingerprint = none then fp else device.fingerprint⟩
    have hadopted := adopt_spec now device.entries { c with storage := some copy }
    obtain ⟨store, heq, hmem⟩ := hadopted
    -- A tag that stays, or is set where nothing is kept, is the fingerprint of the session.
    have htag : ∀ kv ∈ device.entries, TaggedBy fp accounts kv.2.account := by
      intro kv hkv
      rcases hadopt with hnil | hiff
      · rw [hnil] at hkv
        exact absurd hkv List.not_mem_nil
      · have hdev := hdevice kv hkv
        by_cases hnone : device.fingerprint = none
        · rw [hnone] at hdev
          rw [hiff.1 hnone]
          exact hdev
        · have heq : device.fingerprint = fp := by
            by_contra hne
            exact hsame ⟨hnone, fun hnone' => hnone (hiff.2 hnone'), hne⟩
          rw [← heq]
          exact hdev
    rw [heq]
    refine ⟨⟨fun kv hkv => ?_, fun device' hdevice' kv hkv => ?_, fun hnot => ?_⟩, hfp, hread,
      Option.some_ne_none _⟩
    · rcases hmem kv hkv with hkv | hkv
      · have hkv' : kv ∈ c.store := hkv
        rw [hempty] at hkv'
        exact absurd hkv' List.not_mem_nil
      · show TaggedBy c.fp accounts kv.2.account
        rw [hfp]
        exact htag kv hkv
    · cases hdevice'
      have htagged := htag kv hkv
      show TaggedBy (if _ then fp else _) accounts _
      split
      · exact htagged
      · exact hdevice kv hkv
    · have hnot' : c.hydrated = false := hnot
      rw [hread] at hnot'
      cases hnot'

/-- `hydrate`, on a cache with a storage. -/
theorem Tagged.hydrate (h : Tagged accounts c) (now : Nat) (hstorage : c.storage ≠ none)
    (hadopt : c.hydrated = false → ∀ device, c.storage = some device →
      device.entries = [] ∨ (device.fingerprint = none ↔ fp = none)) :
    Tagged accounts (c.hydrate fp now) ∧ (c.hydrate fp now).fp = fp ∧
      (c.hydrate fp now).hydrated = true ∧ (c.hydrate fp now).storage ≠ none := by
  unfold ResponseCache.hydrate
  split
  · next hnone => exact absurd hnone hstorage
  · next device hdevice =>
    split
    · next hsame => exact ⟨h, hsame.2.symm, hsame.1, hstorage⟩
    · split
      · next hread =>
        exact Tagged.readDevice hread rfl rfl hstorage (fun kv hkv => absurd hkv List.not_mem_nil)
          (.inl rfl)
      · next hread =>
        have hread' : c.hydrated = false := by simpa using hread
        exact Tagged.readDevice rfl (h.unread hread') rfl hstorage (h.device device hdevice)
          (hadopt hread' device hdevice)

theorem hydrate_of_memory (h : c.storage = none) : c.hydrate fp now = c := by
  unfold ResponseCache.hydrate
  rw [h]

/-- `set` keeps the tag and the kind of a cache. -/
theorem set_fields (c : ResponseCache N) (key : String) (entry : CachedResponse N) (now : Nat) :
    ((c.set key entry now).storage = none ↔ c.storage = none) ∧
    (c.set key entry now).hydrated = c.hydrated ∧
    ∀ kv ∈ (c.set key entry now).store, kv = (key, entry) ∨ kv ∈ c.store := by
  have hmem : ∀ kv ∈ (c.putLast key entry).drop
      ((c.putLast key entry).length - c.maxEntries), kv = (key, entry) ∨ kv ∈ c.store :=
    fun kv hkv => mem_putLast (List.mem_of_mem_drop hkv)
  unfold ResponseCache.set
  dsimp only
  split
  · unfold ResponseCache.persist
    split
    · exact ⟨Iff.rfl, rfl, hmem⟩
    · next hsome =>
      refine ⟨⟨fun h => (Option.some_ne_none _ h).elim, fun h => ?_⟩, rfl, hmem⟩
      have hsome' : c.storage = some _ := hsome
      rw [h] at hsome'
      cases hsome'
  · exact ⟨Iff.rfl, rfl, hmem⟩

end

/-! ## The client -/

section
variable {ι N : Type} {E : ClientEnv} {s s' : ClientState ι N} {account : Option String}
  {entry : CachedResponse N} {now : Nat}

/-- What is kept belongs to the account that is signed in, or to the account of its tag. -/
structure KeptApart (s : ClientState ι N) : Prop where
  member : ∀ a, s.account = some a → a ∈ s.accounts
  distinct : ∀ a ∈ s.accounts, ∀ b ∈ s.accounts, fingerprint a = fingerprint b → a = b
  perm : ∀ collection entry, s.permCache collection = some entry →
    s.clock - entry.storedAt < permTtlMs → Belongs s.account entry.account
  memory : ∀ c, s.cache = some c → c.storage = none →
    ∀ kv ∈ c.store, Belongs s.account kv.2.account
  tagged : ∀ c, s.cache = some c → c.storage ≠ none → Tagged s.accounts c
  returned : ∀ r ∈ s.returned, Belongs r.signedIn r.account

/-- A cache with a storage has been read from it. -/
def Hydrated (s : ClientState ι N) : Prop :=
  ∀ c, s.cache = some c → c.storage ≠ none → c.hydrated = true

def HasStorage (s : ClientState ι N) : Prop := ∃ c, s.cache = some c ∧ c.storage ≠ none

/-- What a call carries from one await to the next. -/
def PhaseSound (s : ClientState ι N) : ClientPhase N → Prop
  | .idle => True
  | .waiting _ _ cached account => Hydrated s ∧ (∀ b, account = some b → b ∈ s.accounts) ∧
    ∀ entry, cached = some entry → Belongs account entry.account ∧
      (HasStorage s → TaggedBy (account.map fingerprint) s.accounts entry.account)
  | .reading _ _ account => Hydrated s ∧ ∀ b, account = some b → b ∈ s.accounts
  | .retrying .. | .refreshing .. | .settling .. => Hydrated s

/-- A step that leaves the other calls alone. -/
structure LeavesCalls (s s' : ClientState ι N) : Prop where
  accounts : ∀ a ∈ s.accounts, a ∈ s'.accounts
  hydrated : Hydrated s → Hydrated s'
  storage : HasStorage s' → HasStorage s

/-- The invariant of a run of safe events. -/
structure ClientSound (s : ClientState ι N) : Prop where
  kept : KeptApart s
  phase : ∀ i, PhaseSound s (s.phase i)

theorem PhaseSound.leave {phase : ClientPhase N} (h : PhaseSound s phase)
    (hleave : LeavesCalls s s') : PhaseSound s' phase := by
  cases phase with
  | idle => trivial
  | waiting call attempt cached account =>
    obtain ⟨hread, hmember, hcached⟩ := h
    refine ⟨hleave.hydrated hread, fun b hb => hleave.accounts b (hmember b hb),
      fun entry hentry => ?_⟩
    obtain ⟨hbelongs, htagged⟩ := hcached entry hentry
    exact ⟨hbelongs, fun hstorage => (htagged (hleave.storage hstorage)).mono hleave.accounts⟩
  | reading call response account =>
    exact ⟨hleave.hydrated h.1, fun b hb => hleave.accounts b (h.2 b hb)⟩
  | retrying | refreshing | settling => exact hleave.hydrated h

/-- A value that belongs to the account that is signed in is given to a caller. -/
theorem KeptApart.give (h : KeptApart s) (hb : Belongs s.account account) :
    KeptApart (s.give account) := by
  refine { h with returned := fun r hr => ?_ }
  rcases List.mem_cons.1 hr with rfl | hr
  · exact hb
  · exact h.returned r hr

theorem ClientSound.give (h : ClientSound s) (hb : Belongs s.account account) :
    ClientSound (s.give account) :=
  ⟨h.kept.give hb, fun j => (h.phase j).leave ⟨fun _ ha => ha, fun h => h, fun h => h⟩⟩

/-- The runs of `fieldRestrictions` say nothing about what is kept. -/
theorem ClientSound.inflight (h : ClientSound s) (permInflight : String → Option Bool) :
    ClientSound { s with permInflight := permInflight } :=
  ⟨{ h.kept with }, fun j => (h.phase j).leave ⟨fun _ ha => ha, fun h => h, fun h => h⟩⟩

/-- An account signs in. -/
theorem ClientSound.signIn (h : ClientSound s) {token : SessionToken N} (hclock : s.clock = now)
    (hsigns : SignsIn s token now) : ClientSound (s.signIn (some token)) := by
  obtain ⟨hdistinct, hperm, hmemory⟩ := hsigns
  have haccount : ∀ b, (s.signIn (some token)).account = some b → tokenSubjectOf token = b :=
    fun b hb => Option.some.inj hb
  refine ⟨⟨fun a ha => ?_, fun a ha b hb hab => ?_, fun collection entry hentry hfresh b hb => ?_,
    fun c hc hnone kv hkv b hb => ?_, fun c hc hsome => ?_, h.kept.returned⟩, fun j => ?_⟩
  · rw [← haccount a ha]
    exact List.mem_cons_self
  · rcases List.mem_cons.1 ha with rfl | ha
    · rcases List.mem_cons.1 hb with rfl | hb
      · rfl
      · exact (hdistinct b hb hab.symm).symm
    · rcases List.mem_cons.1 hb with rfl | hb
      · exact hdistinct a ha hab
      · exact h.kept.distinct a ha b hb hab
  · rw [← haccount b hb]
    exact hperm collection entry hentry (hclock ▸ hfresh)
  · rw [← haccount b hb]
    exact hmemory c hc hnone kv hkv
  · exact (h.kept.tagged c hc hsome).mono fun a ha => List.mem_cons_of_mem _ ha
  · exact (h.phase j).leave
      ⟨fun a ha => List.mem_cons_of_mem _ ha, fun h => h, fun h => h⟩

/-- No account is signed in any more. -/
theorem ClientSound.signOut (h : ClientSound s) : ClientSound { s with token := none } := by
  have hnone : ∀ b, (none : Option (SessionToken N)).map tokenSubjectOf ≠ some b :=
    fun b hb => by cases hb
  refine ⟨⟨fun a ha => absurd ha (hnone a), h.kept.distinct,
    fun _ _ _ _ b hb => absurd hb (hnone b), fun _ _ _ _ _ b hb => absurd hb (hnone b),
    h.kept.tagged, h.kept.returned⟩,
    fun j => (h.phase j).leave ⟨fun _ ha => ha, fun h => h, fun h => h⟩⟩

theorem ClientSound.logout (h : ClientSound s) :
    ClientSound { s with token := none, cache := s.cache.map ResponseCache.clear } := by
  have hout := h.signOut
  have hcache : ∀ c', s.cache.map ResponseCache.clear = some c' →
      ∃ c, s.cache = some c ∧ c.clear = c' := fun c' hc' => Option.map_eq_some_iff.1 hc'
  refine ⟨{ hout.kept with memory := fun c' hc' _ kv hkv => ?_, tagged := fun c' hc' _ => ?_ },
    fun j => (h.phase j).leave ⟨fun _ ha => ha, fun _ c' hc' _ => ?_, fun ⟨c', hc', hsome⟩ => ?_⟩⟩
  · obtain ⟨c, -, rfl⟩ := hcache c' hc'
    exact absurd hkv List.not_mem_nil
  · obtain ⟨c, -, rfl⟩ := hcache c' hc'
    exact .clear
  · obtain ⟨c, -, rfl⟩ := hcache c' hc'
    rfl
  · obtain ⟨c, hc, rfl⟩ := hcache c' hc'
    exact ⟨c, hc, fun hnone => hsome ((clear_storage c).2 hnone)⟩

/-- After a restart, the device copy keeps its tag. -/
theorem ClientSound.restart (h : ClientSound s) (device : Bool) :
    ClientSound (s.restart device) := by
  have hcache : ∀ c', (s.restart device).cache = some c' → ∃ c, s.cache = some c ∧ c'.store = [] ∧
      c'.storage = c.storage.map fun storage => if device then storage else ⟨[], none⟩ := by
    intro c' hc'
    obtain ⟨c, hc, rfl⟩ := Option.map_eq_some_iff.1 hc'
    exact ⟨c, hc, rfl, rfl⟩
  refine ⟨{ h.kept with perm := fun _ _ hentry => by cases hentry
                        memory := fun c' hc' _ kv hkv => ?_
                        tagged := fun c' hc' hsome => ?_ }, fun j => trivial⟩
  · obtain ⟨c, -, hstore, -⟩ := hcache c' hc'
    rw [hstore] at hkv
    exact absurd hkv List.not_mem_nil
  · obtain ⟨c, hc, hstore, hstorage⟩ := hcache c' hc'
    refine ⟨fun kv hkv => ?_, fun device' hdevice' kv hkv => ?_, fun _ => hstore⟩
    · rw [hstore] at hkv
      exact absurd hkv List.not_mem_nil
    · rw [hstorage] at hdevice'
      obtain ⟨storage, hstored, rfl⟩ := Option.map_eq_some_iff.1 hdevice'
      have hne : c.storage ≠ none := by
        rw [hstored]
        exact Option.some_ne_none _
      cases device with
      | true => exact (h.kept.tagged c hc hne).device storage hstored kv hkv
      | false => exact absurd hkv List.not_mem_nil

/-- The clock goes on. -/
theorem ClientSound.tick (h : ClientSound s) (hle : s.clock ≤ now) :
    ClientSound { s with clock := now } := by
  refine ⟨{ h.kept with perm := fun collection entry hentry hfresh => ?_ },
    fun j => (h.phase j).leave ⟨fun _ ha => ha, fun h => h, fun h => h⟩⟩
  have hfresh' : now - entry.storedAt < permTtlMs := hfresh
  exact h.kept.perm collection entry hentry (by omega)

section
variable [DecidableEq ι] {i : ι} {call : ReadCall N}

theorem ClientSound.goto (h : ClientSound s) {phase : ClientPhase N} (hphase : PhaseSound s phase) :
    ClientSound (s.goto i phase) := by
  have hleave : LeavesCalls s (s.goto i phase) := ⟨fun _ ha => ha, fun h => h, fun h => h⟩
  refine ⟨{ h.kept with }, fun j => ?_⟩
  show PhaseSound _ (Function.update s.phase i phase j)
  by_cases heq : j = i
  · subst heq
    rw [Function.update_self]
    exact hphase.leave hleave
  · rw [Function.update_of_ne heq]
    exact (h.phase j).leave hleave

theorem ClientSound.fail (h : ClientSound s) : ClientSound (s.fail i call) := by
  have hidle : ClientSound (s.goto i .idle) := h.goto trivial
  unfold ClientState.fail
  dsimp only
  split
  · exact hidle
  · exact hidle.inflight _

theorem ClientSound.finish (h : ClientSound s) (hread : Hydrated s) {data : JsVal N} :
    ClientSound (s.finish i call data account) := by
  unfold ClientState.finish
  split
  · exact h.goto trivial
  · exact h.goto hread

end

variable [JsNumber N]

/-- A response that belongs to the account that is signed in, or to the tag of the cache. -/
theorem KeptApart.store (h : KeptApart s) (hread : Hydrated s) {target : String}
    (hmemory : ∀ c, s.cache = some c → c.storage = none → Belongs s.account entry.account)
    (htagged : ∀ c, s.cache = some c → c.storage ≠ none → TaggedBy c.fp s.accounts entry.account) :
    KeptApart (s.store target entry now) ∧ LeavesCalls s (s.store target entry now) := by
  have hcache : ∀ c', (s.store target entry now).cache = some c' →
      ∃ c, s.cache = some c ∧ c' = c.set target entry now := by
    intro c' hc'
    obtain ⟨c, hc, rfl⟩ := Option.map_eq_some_iff.1 hc'
    exact ⟨c, hc, rfl⟩
  refine ⟨{ h with memory := fun c' hc' hnone => ?_, tagged := fun c' hc' hsome => ?_ },
    fun _ ha => ha, fun _ c' hc' hsome => ?_, ?_⟩
  · obtain ⟨c, hc, rfl⟩ := hcache c' hc'
    obtain ⟨hstorage, -, hmem⟩ := set_fields c target entry now
    intro kv hkv
    rcases hmem kv hkv with rfl | hkv
    · exact hmemory c hc (hstorage.1 hnone)
    · exact h.memory c hc (hstorage.1 hnone) kv hkv
  · obtain ⟨c, hc, rfl⟩ := hcache c' hc'
    obtain ⟨hstorage, -, -⟩ := set_fields c target entry now
    have hsome' : c.storage ≠ none := fun hnone => hsome (hstorage.2 hnone)
    exact (h.tagged c hc hsome').set (htagged c hc hsome') (hread c hc hsome')
  · obtain ⟨c, hc, rfl⟩ := hcache c' hc'
    obtain ⟨hstorage, heq, -⟩ := set_fields c target entry now
    rw [heq]
    exact hread c hc fun hnone => hsome (hstorage.2 hnone)
  · rintro ⟨c', hc', hsome⟩
    obtain ⟨c, hc, rfl⟩ := hcache c' hc'
    obtain ⟨hstorage, -, -⟩ := set_fields c target entry now
    exact ⟨c, hc, fun hnone => hsome (hstorage.2 hnone)⟩

theorem ClientSound.store (h : ClientSound s) (hread : Hydrated s) {target : String}
    (hmemory : ∀ c, s.cache = some c → c.storage = none → Belongs s.account entry.account)
    (htagged : ∀ c, s.cache = some c → c.storage ≠ none → TaggedBy c.fp s.accounts entry.account) :
    ClientSound (s.store target entry now) ∧ Hydrated (s.store target entry now) := by
  obtain ⟨hkept, hleave⟩ := h.kept.store hread hmemory htagged
  exact ⟨⟨hkept, fun j => (h.phase j).leave hleave⟩, hleave.hydrated hread⟩

theorem account_usableToken {token : Option (SessionToken N)} {b : String}
    (h : (usableToken token now).map tokenSubjectOf = some b) :
    token.map tokenSubjectOf = some b := by
  obtain ⟨t, ht, hb⟩ := Option.map_eq_some_iff.1 h
  obtain ⟨htoken, -⟩ := Option.filter_eq_some_iff.1 ht
  rw [htoken, ← hb]
  rfl

variable [DecidableEq ι] {i : ι} {call : ReadCall N}

/-- What `requestMeta` does before its request: the cache reads the device for the session, and the
entry of the URL may be taken along. -/
theorem send_cases (E : ClientEnv) (s : ClientState ι N) (i : ι) (call : ReadCall N)
    (attempt : Nat) (conditional : Bool) (now : Nat) : ∃ cache cached,
    s.send E i call attempt conditional now = { s with
      token := usableToken s.token now
      cache := cache
      phase := Function.update s.phase i
        (.waiting call attempt cached ((usableToken s.token now).map tokenSubjectOf)) } ∧
    (∀ c', cache = some c' → ∃ c, s.cache = some c ∧
      ∃ read, read = c.hydrate (accountFingerprint (usableToken s.token now)) now ∧
        (c' = read ∨ ∃ target, c' = (read.get target).2)) ∧
    (∀ entry, cached = some entry → ∃ c, s.cache = some c ∧
      ∃ kv ∈ (c.hydrate (accountFingerprint (usableToken s.token now)) now).store,
        kv.2 = entry) := by
  have hfp : ((usableToken s.token now).map tokenSubjectOf).map fingerprint =
      accountFingerprint (usableToken s.token now) := by
    unfold accountFingerprint
    rw [Option.map_map]
    rfl
  unfold ClientState.send
  dsimp only
  rw [hfp]
  split
  · refine ⟨_, _, rfl, fun c' hc' => ?_, fun entry hentry => ?_⟩
    · obtain ⟨found, hfound, rfl⟩ := Option.map_eq_some_iff.1 hc'
      obtain ⟨read, hread, rfl⟩ := Option.map_eq_some_iff.1 hfound
      obtain ⟨c, hc, rfl⟩ := Option.map_eq_some_iff.1 hread
      exact ⟨c, hc, _, rfl, .inr ⟨_, rfl⟩⟩
    · obtain ⟨found, hfound, hget⟩ := Option.bind_eq_some_iff.1 hentry
      obtain ⟨read, hread, rfl⟩ := Option.map_eq_some_iff.1 hfound
      obtain ⟨c, hc, rfl⟩ := Option.map_eq_some_iff.1 hread
      rw [(get_cases _ _).1] at hget
      exact ⟨c, hc, exists_of_lookup hget⟩
  · refine ⟨_, none, rfl, fun c' hc' => ?_, fun entry hentry => by cases hentry⟩
    obtain ⟨c, hc, rfl⟩ := Option.map_eq_some_iff.1 hc'
    exact ⟨c, hc, _, rfl, .inl rfl⟩

omit [DecidableEq ι] in
/-- The cache of a state after the first part of `requestMeta`. -/
theorem read_spec (h : KeptApart s) (hadopt : Adoptable s s.token now) {c c' read : ResponseCache N}
    (hc : s.cache = some c)
    (hread : read = c.hydrate (accountFingerprint (usableToken s.token now)) now)
    (hc' : c' = read ∨ ∃ target, c' = (read.get target).2) :
    (c.storage = none → c'.storage = none ∧
      ∀ kv ∈ c'.store, Belongs s.account kv.2.account) ∧
    (c.storage ≠ none → Tagged s.accounts c' ∧ c'.hydrated = true ∧ c'.storage ≠ none ∧
      ∀ kv ∈ read.store,
        TaggedBy (accountFingerprint (usableToken s.token now)) s.accounts kv.2.account) := by
  refine ⟨fun hnone => ?_, fun hsome => ?_⟩
  · rw [hydrate_of_memory hnone] at hread
    subst hread
    rcases hc' with rfl | ⟨target, rfl⟩
    · exact ⟨hnone, h.memory _ hc hnone⟩
    · obtain ⟨hstorage, -, hmem⟩ := get_fields read target
      refine ⟨hstorage.trans hnone, fun kv hkv => ?_⟩
      obtain ⟨kv', hkv', heq⟩ := hmem kv hkv
      rw [← heq]
      exact h.memory _ hc hnone kv' hkv'
  · have hadopt' : c.hydrated = false → ∀ device, c.storage = some device → device.entries = [] ∨
        (device.fingerprint = none ↔ accountFingerprint (usableToken s.token now) = none) := by
      intro hnot device hdevice
      refine (hadopt c hc hnot device hdevice).imp_right fun hiff => hiff.trans ?_
      exact Option.map_eq_none_iff.symm
    have hspec := (h.tagged c hc hsome).hydrate now hsome hadopt'
    rw [← hread] at hspec
    obtain ⟨htagged, hfp, hhydrated, hstorage⟩ := hspec
    have hstore := htagged.store
    rw [hfp] at hstore
    rcases hc' with rfl | ⟨target, rfl⟩
    · exact ⟨htagged, hhydrated, hstorage, hstore⟩
    · obtain ⟨hkeep, hkeep', -⟩ := get_fields read target
      exact ⟨htagged.get target, hkeep'.trans hhydrated, hkeep ▸ hstorage, hstore⟩

/-- A request is sent. -/
theorem ClientSound.send (h : ClientSound s) (hadopt : Adoptable s s.token now) {attempt : Nat}
    {conditional : Bool} : ClientSound (s.send E i call attempt conditional now) := by
  obtain ⟨cache, cached, heq, hcache, hcached⟩ := send_cases E s i call attempt conditional now
  have hbelongs : ∀ owner, Belongs s.account owner →
      Belongs ((usableToken s.token now).map tokenSubjectOf) owner :=
    fun owner hb b hb' => hb b (account_usableToken hb')
  have hmember : ∀ b, (usableToken s.token now).map tokenSubjectOf = some b → b ∈ s.accounts :=
    fun b hb => h.kept.member b (account_usableToken hb)
  have hfp : ((usableToken s.token now).map tokenSubjectOf).map fingerprint =
      accountFingerprint (usableToken s.token now) := by
    unfold accountFingerprint
    rw [Option.map_map]
    rfl
  rw [heq]
  have hleave : LeavesCalls s { s with
      token := usableToken s.token now
      cache := cache
      phase := Function.update s.phase i
        (.waiting call attempt cached ((usableToken s.token now).map tokenSubjectOf)) } := by
    refine ⟨fun _ ha => ha, fun _ c' hc' hsome => ?_, fun ⟨c', hc', hsome⟩ => ?_⟩
    · obtain ⟨c, hc, read, hread, hor⟩ := hcache c' hc'
      obtain ⟨hmemory, htagged⟩ := read_spec h.kept hadopt hc hread hor
      exact (htagged fun hnone => hsome (hmemory hnone).1).2.1
    · obtain ⟨c, hc, read, hread, hor⟩ := hcache c' hc'
      exact ⟨c, hc, fun hnone => hsome ((read_spec h.kept hadopt hc hread hor).1 hnone).1⟩
  refine ⟨⟨hmember, h.kept.distinct, fun collection entry hentry hfresh =>
    hbelongs _ (h.kept.perm collection entry hentry hfresh), fun c' hc' hnone kv hkv => ?_,
    fun c' hc' hsome => ?_, h.kept.returned⟩, fun j => ?_⟩
  · obtain ⟨c, hc, read, hread, hor⟩ := hcache c' hc'
    obtain ⟨hmemory, htagged⟩ := read_spec h.kept hadopt hc hread hor
    by_cases hstorage : c.storage = none
    · exact hbelongs _ ((hmemory hstorage).2 kv hkv)
    · exact absurd hnone (htagged hstorage).2.2.1
  · obtain ⟨c, hc, read, hread, hor⟩ := hcache c' hc'
    obtain ⟨hmemory, htagged⟩ := read_spec h.kept hadopt hc hread hor
    exact (htagged fun hnone => hsome (hmemory hnone).1).1
  · show PhaseSound _ (Function.update s.phase i _ j)
    by_cases heq : j = i
    · subst heq
      rw [Function.update_self]
      refine ⟨fun c' hc' hsome => ?_, hmember, fun entry hentry => ?_⟩
      · obtain ⟨c, hc, read, hread, hor⟩ := hcache c' hc'
        obtain ⟨hmemory, htagged⟩ := read_spec h.kept hadopt hc hread hor
        exact (htagged fun hnone => hsome (hmemory hnone).1).2.1
      · obtain ⟨c, hc, kv, hkv, rfl⟩ := hcached entry hentry
        obtain ⟨hmemory, htagged⟩ := read_spec h.kept hadopt hc rfl (.inl rfl)
        refine ⟨?_, fun hstorage => ?_⟩
        · by_cases hnone : c.storage = none
          · exact hbelongs _ ((hmemory hnone).2 kv hkv)
          · -- The entry has the fingerprint of the session, and so its account.
            obtain ⟨htag, hown⟩ := (htagged hnone).2.2.2 kv hkv
            intro b hb
            rw [← hfp, hb] at htag
            obtain ⟨a, ha, hab⟩ := Option.map_eq_some_iff.1 htag
            rw [ha, h.kept.distinct a (hown a ha) b (hmember b hb) hab]
        · obtain ⟨c₁, hc₁, hsome⟩ := hleave.storage hstorage
          rw [hc] at hc₁
          cases hc₁
          rw [hfp]
          exact (htagged hsome).2.2.2 kv hkv
    · rw [Function.update_of_ne heq]
      exact (h.phase j).leave hleave

/-! ## Events -/

theorem Belongs.trans {a b c : Option String} (hab : Belongs a b) (hbc : Belongs b c) :
    Belongs a c := fun x hx => hbc x (hab x hx)

/-- The answer to a request. -/
theorem ClientSound.answer (h : ClientSound s) {response : Option (ServerResponse N)}
    (hadopt : Adoptable s s.token now)
    (hserves : ∀ call attempt entry account,
      s.phase i = .waiting call attempt (some entry) account →
      (∀ r, response = some r → r.status = 304) → Belongs s.account account ∧ Storable s account)
    (hstep : s.answer E i response now = some s') : ClientSound s' := by
  unfold ClientState.answer at hstep
  split at hstep
  · next call attempt cached account hphase =>
    have hcall := h.phase i
    rw [hphase] at hcall
    obtain ⟨hread, hmember, hcached⟩ := hcall
    dsimp only at hstep
    split at hstep
    · split at hstep
      · next entry =>
        split at hstep
        · -- The network has failed, and the entry that was taken along is given.
          cases hstep
          obtain ⟨hbelongs, -⟩ := hserves call attempt entry account hphase fun r hr => by cases hr
          exact (h.give (hbelongs.trans (hcached entry rfl).1)).finish hread
        · cases hstep
          exact h.fail
      · cases hstep
        exact h.fail
    · next response =>
      split at hstep
      · cases hstep
        exact h.goto hread
      · split at hstep
        · cases hstep
          exact h.signOut.goto hread
        · split at hstep
          · next hstatus =>
            split at hstep
            · next entry =>
              -- The body that was kept is confirmed.
              cases hstep
              obtain ⟨hbelongs, hstorable⟩ := hserves call attempt entry account hphase
                fun r hr => by cases hr; exact hstatus
              obtain ⟨howner, htagged⟩ := hcached entry rfl
              have hstored : ∀ target (refreshed : CachedResponse N),
                  refreshed.account = entry.account →
                  ClientSound (s.store target refreshed now) ∧
                    Hydrated (s.store target refreshed now) := by
                intro target refreshed heq
                refine h.store hread (fun c _ _ => ?_) fun c hc hsome => ?_
                · rw [heq]
                  exact hbelongs.trans howner
                · rw [heq, (hstorable c hc).2 hsome]
                  exact htagged ⟨c, hc, hsome⟩
              refine ClientSound.finish (ClientSound.give (hstored _ _ ?_).1 ?_) (hstored _ _ ?_).2
              · rfl
              · exact hbelongs.trans howner
              · rfl
            · split at hstep
              · cases hstep
                exact h.send hadopt
              · cases hstep
                exact h.fail
          · cases hstep
            exact h.goto ⟨hread, hmember⟩
  · cases hstep

/-- The body of a response. -/
theorem ClientSound.read (h : ClientSound s) {body : Option (JsVal N)}
    (hstores : ∀ call response account, s.phase i = .reading call response account →
      upperCase call.options.method = "GET" → Storable s account)
    (hstep : s.read E i body now = some s') : ClientSound s' := by
  unfold ClientState.read at hstep
  split at hstep
  · next call response account hphase =>
    have hcall := h.phase i
    rw [hphase] at hcall
    obtain ⟨hread, hmember⟩ := hcall
    dsimp only at hstep
    split at hstep
    · cases hstep
      exact h.fail
    · cases hstep
      split
      · next hget =>
        have hstorable := hstores call response account hphase hget.1
        have hstored : ∀ target (entry : CachedResponse N), entry.account = account →
            ClientSound (s.store target entry now) ∧ Hydrated (s.store target entry now) := by
          rintro target entry rfl
          exact h.store hread (fun c hc hnone => (hstorable c hc).1 hnone)
            fun c hc hsome => ⟨((hstorable c hc).2 hsome).symm, hmember⟩
        refine ClientSound.finish (hstored _ _ ?_).1 (hstored _ _ ?_).2
        · rfl
        · rfl
      · exact h.finish hread
  · cases hstep

omit [JsNumber N] in
/-- The end of a run of `fieldRestrictions`. -/
theorem ClientSound.settle (h : ClientSound s)
    (hpresent : ∀ collection restrictions account,
      s.phase i = .settling collection restrictions account → Belongs s.account account)
    (hstep : s.settle i now = some s') : ClientSound s' := by
  unfold ClientState.settle at hstep
  split at hstep
  · next collection restrictions account hphase =>
    have hbelongs := hpresent collection restrictions account hphase
    cases hstep
    have hstored : ClientSound { s with
        permCache := Function.update s.permCache collection (some ⟨now, restrictions, account⟩)
        permInflight := Function.update s.permInflight collection none } := by
      refine ⟨{ h.kept with perm := fun collection' entry hentry hfresh => ?_ },
        fun j => (h.phase j).leave ⟨fun _ ha => ha, fun h => h, fun h => h⟩⟩
      have hentry' : Function.update s.permCache collection (some ⟨now, restrictions, account⟩)
        collection' = some entry := hentry
      by_cases heq : collection' = collection
      · subst heq
        rw [Function.update_self] at hentry'
        cases hentry'
        exact hbelongs
      · rw [Function.update_of_ne heq] at hentry'
        exact h.kept.perm collection' entry hentry' hfresh
    split
    · exact (hstored.give hbelongs).goto trivial
    · exact hstored.goto trivial
  · cases hstep

/-- A call of `fieldRestrictions`. -/
theorem ClientSound.fieldRestrictions (h : ClientSound s) (hclock : s.clock = now)
    (hadopt : Adoptable s s.token now) (collection : String) :
    ClientSound (s.fieldRestrictions E i collection now) := by
  unfold ClientState.fieldRestrictions
  dsimp only
  split
  · next entry hfresh =>
    obtain ⟨hentry, hage⟩ := Option.filter_eq_some_iff.1 hfresh
    refine h.give (h.kept.perm collection entry hentry ?_)
    rw [hclock]
    simpa using hage
  · split
    · exact h.inflight _
    · exact (h.inflight (Function.update s.permInflight collection (some false))).send hadopt

/-- Every safe event keeps the invariant. -/
theorem ClientSound.step (h : ClientSound s) {event : Nat × ClientEvent ι N}
    (hsafe : SafeClientEvent s event) (hstep : (clientSystem E).step s event = some s') :
    ClientSound s' := by
  obtain ⟨now, event⟩ := event
  obtain ⟨hclock, hsafe⟩ := hsafe
  have ht : ClientSound { s with clock := now } := h.tick hclock
  have hcall : clientEvent E { s with clock := now } now event = some s' := hstep
  cases event with
  | signIn token =>
    cases hcall
    cases token with
    | none => exact { ht.signOut with }
    | some token => exact ht.signIn rfl hsafe
  | logout =>
    cases hcall
    exact ht.logout
  | restart device =>
    cases hcall
    exact ht.restart device
  | call i call =>
    unfold clientEvent at hcall
    dsimp only at hcall
    split at hcall
    · cases hcall
      exact ht.send hsafe
    · cases hcall
  | restrictions i collection =>
    unfold clientEvent at hcall
    dsimp only at hcall
    split at hcall
    · cases hcall
      exact ht.fieldRestrictions rfl hsafe collection
    · cases hcall
  | answer i response => exact ht.answer hsafe.1 hsafe.2 hcall
  | resume i =>
    unfold clientEvent at hcall
    dsimp only at hcall
    split at hcall
    · cases hcall
      exact ht.send hsafe
    · cases hcall
  | refreshed i token =>
    unfold clientEvent at hcall
    dsimp only at hcall
    split at hcall
    · next token _ =>
      cases hcall
      exact (ht.signIn rfl hsafe.1).send hsafe.2
    · cases hcall
      exact ht.fail
    · cases hcall
  | read i body => exact ht.read hsafe hcall
  | settle i => exact ht.settle hsafe hcall

/-- In a run of safe events, what a caller was given while an account was signed in answers a
request of that account. -/
theorem attributed_of_reach (h : (clientSystem E).Reach SafeClientEvent s) :
    ∀ r ∈ s.returned, ∀ b, r.signedIn = some b → r.account = some b := by
  have hsound : ClientSound s := by
    refine h.invariant (I := ClientSound) ?_ fun s event s' hs hp hstep => hs.step hp hstep
    rintro s ⟨haccounts, hphase, hperm, hreturned, hcache⟩
    refine ⟨⟨fun a ha => ?_, fun a ha b hb _ => ?_, fun collection entry hentry => ?_,
      fun c hc _ kv hkv => ?_, fun c hc _ => ?_, fun r hr => ?_⟩, fun j => ?_⟩
    · rw [haccounts, ha]
      exact List.mem_singleton.2 rfl
    · rw [haccounts, Option.mem_toList] at ha hb
      exact Option.mem_unique ha hb
    · rw [hperm collection] at hentry
      cases hentry
    · rw [(hcache c hc).1] at hkv
      exact absurd hkv List.not_mem_nil
    · obtain ⟨hstore, -, -, hdevice⟩ := hcache c hc
      refine ⟨fun kv hkv => ?_, fun device hsome kv hkv => ?_, fun _ => hstore⟩
      · rw [hstore] at hkv
        exact absurd hkv List.not_mem_nil
      · rw [hdevice device hsome] at hkv
        exact absurd hkv List.not_mem_nil
    · rw [hreturned] at hr
      exact absurd hr List.not_mem_nil
    · rw [hphase j]
      trivial
  exact hsound.kept.returned

theorem reach_event (h : (clientSystem E).Reach SafeClientEvent s) (now : Nat)
    (event : ClientEvent ι N) (hclock : s.clock ≤ now) (hsafe : KeepsApart s now event)
    (hstep : clientEvent E { s with clock := now } now event = some s') :
    (clientSystem E).Reach SafeClientEvent s' := h.step (a := (now, event)) ⟨hclock, hsafe⟩ hstep

end

/-! ## The permission cache -/

/-- A token that is its own account. -/
def plainToken (text : String) : SessionToken (Option Int) where
  text := text
  payload := none

/-- A client without a response cache, before anyone has signed in. -/
def newClient : ClientState Unit (Option Int) where
  token := none
  cache := none
  permCache _ := none
  permInflight _ := none
  phase _ := .idle
  clock := 0
  accounts := []
  returned := []

def clientEnv : ClientEnv where
  baseUrl := "/api"
  attempts := 1
  refreshSession := false

/-- The answer to `fieldRestrictions`, for an account that may see one field. -/
def restrictionsAnswer : List (Nat × ClientEvent Unit (Option Int)) :=
  [(1, .restrictions () "orders"), (2, .answer () (some ⟨200, none, none⟩)),
    (3, .read () (some (.obj [("success", .bool true),
      ("data", .obj [("field_restrictions", .arr [.str "total"])])]))), (4, .settle ())]

/-- Two calls of `fieldRestrictions` in one minute. -/
theorem attributed_restrictions : ∃ s : ClientState Unit (Option Int),
    s.returned = [⟨some "alice", some "alice"⟩] ∧
    ∀ r ∈ s.returned, ∀ b, r.signedIn = some b → r.account = some b := by
  have hnone : ∀ (s : ClientState Unit (Option Int)) token now, s.cache = none →
      Adoptable s token now := by
    intro s token now hcache c hc
    rw [hcache] at hc
    cases hc
  have h0 : (clientSystem clientEnv).Reach SafeClientEvent newClient :=
    .init ⟨rfl, fun _ => rfl, fun _ => rfl, rfl, fun c hc => by cases hc⟩
  have h1 := reach_event h0 0 (.signIn (some (plainToken "alice"))) (Nat.le_refl _)
    ⟨fun a ha => absurd ha List.not_mem_nil, fun _ _ hentry => (by cases hentry),
      fun c hc => (by cases hc)⟩ rfl
  have h2 := reach_event h1 1 (.restrictions () "orders") (Nat.zero_le _) (hnone _ _ _ rfl) rfl
  have h3 := reach_event h2 2 (.answer () (some ⟨200, none, none⟩)) (Nat.le_succ _)
    ⟨hnone _ _ _ rfl, fun _ _ _ _ hphase => by cases hphase⟩ rfl
  have h4 := reach_event h3 3 (.read () (some (.obj [("success", .bool true),
      ("data", .obj [("field_restrictions", .arr [.str "total"])])]))) (Nat.le_succ _)
    (fun _ _ _ _ _ c hc => by cases hc) rfl
  have h5 := reach_event h4 4 (.settle ()) (Nat.le_succ _) (fun _ _ _ hphase => by
    cases hphase
    exact fun b hb => hb) rfl
  have h6 := reach_event h5 5 (.restrictions () "orders") (Nat.le_succ _) (hnone _ _ _ rfl) rfl
  exact ⟨_, rfl, attributed_of_reach h6⟩

/-- The next account gets the restrictions of the one that has logged out. -/
theorem not_attributed_restrictions : ∃ s : ClientState Unit (Option Int),
    (clientSystem clientEnv).Reachable s ∧
    ∃ r ∈ s.returned, r.signedIn = some "bob" ∧ r.account = some "alice" := by
  have hrun : ∃ s : ClientState Unit (Option Int), (clientSystem clientEnv).run newClient
      ((0, .signIn (some (plainToken "alice"))) :: restrictionsAnswer ++
        [(5, .logout), (6, .signIn (some (plainToken "bob"))), (7, .restrictions () "orders")]) =
        some s ∧ s.returned = [⟨some "bob", some "alice"⟩] := ⟨_, rfl, rfl⟩
  obtain ⟨s, hrun, hreturned⟩ := hrun
  have hstart : (clientSystem clientEnv).Reachable newClient :=
    .init ⟨rfl, fun _ => rfl, fun _ => rfl, rfl, fun c hc => by cases hc⟩
  refine ⟨s, hstart.run hrun, ⟨some "bob", some "alice"⟩, ?_, rfl, rfl⟩
  rw [hreturned]
  exact List.mem_singleton.2 rfl

end HeadlessErp
