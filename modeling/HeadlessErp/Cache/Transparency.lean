import Mathlib.Logic.Function.Basic
import HeadlessErp.Base.Transition
import HeadlessErp.Cache.Response
import HeadlessErp.Entity.Row

/-!
# Cached reads and writes

Reads and writes in one isolate, as a transition system. A read looks into the cache, reads the
database and stores what it has read; a write changes collections and drops their cached reads. Every
change of a collection has a number, and so has the newest one whose invalidation has finished. What
an uncached read returns is a function of the rows of the collections (`serve`), and the cache is
transparent where every hit is what that function gives of rows without a finished write missing
(`Transparent`).
-/

namespace HeadlessErp

/-! ## The code -/

/-- The rows of the collections. -/
abbrev Database (Rows : Type) := String → Rows

/-- A write: the collections it changes, the rows it leaves there, and the collections whose reads
it drops. -/
structure WriteCall (Rows : Type) where
  changes : List String
  rows : Database Rows → Database Rows
  invalidates : List String

/-- How far a read has come. A read keeps the numbers of the changes it has seen. -/
inductive ReadPhase (P : Type) where
  | idle
  | missed
  | loaded (seen : String → Nat) (payload : P)
  | returned (payload : P)
  | failed (e : ApiError)

/-- How far a write has come. A write keeps the numbers of the changes at its own. -/
inductive WritePhase where
  | idle
  | written (landed : String → Nat)
  | finished

/-- The reads and the writes of an isolate, and what an uncached read returns. -/
structure CacheCalls (ι κ N Rows P : Type) where
  collections : Collections N
  serve : Database Rows → ReadRequest N → Except ApiError P
  reads : ι → ReadRequest N
  writes : κ → WriteCall Rows

/-- The rows after each change of a collection, how many changes there are, the newest one whose
invalidation has finished, the cache and the calls. -/
structure CacheState (ι κ Rows P : Type) where
  content : String → Nat → Rows
  count : String → Nat
  done : String → Nat
  cache : CacheLayer P
  reading : ι → ReadPhase P
  writing : κ → WritePhase

/-- A step of a read or of a write, or a deletion by what else uses the cache. -/
inductive CacheAction (ι κ : Type) where
  | read (i : ι) (now : Int)
  | write (k : κ)
  | evict (key : String)

namespace CacheState
variable {ι κ Rows P : Type} (s : CacheState ι κ Rows P)

/-- The rows of the collections after given changes. -/
def rowsAt (version : String → Nat) : Database Rows := fun c => s.content c (version c)

/-- The rows of the collections. -/
def db : Database Rows := s.rowsAt s.count

/-- The database after a write. -/
def land (w : WriteCall Rows) : CacheState ι κ Rows P :=
  { s with
    content := fun c n => if c ∈ w.changes ∧ n = s.count c + 1 then w.rows s.db c else s.content c n
    count := fun c => if c ∈ w.changes then s.count c + 1 else s.count c }

/-- The cache after the invalidation of a write. -/
def invalidate (w : WriteCall Rows) (landed : String → Nat) : CacheState ι κ Rows P :=
  { s with
    done := fun c => if c ∈ w.changes then max (s.done c) (landed c) else s.done c
    cache := s.cache.invalidateAll w.invalidates }

end CacheState

namespace CacheCalls
variable {ι κ N Rows P : Type} [JsNumber N] (W : CacheCalls ι κ N Rows P)

omit [JsNumber N] in
/-- The read is cached. -/
def Cached (r : ReadRequest N) : Prop := (r.dependencies W.collections).isSome

instance (r : ReadRequest N) : Decidable (W.Cached r) := inferInstanceAs (Decidable (_ = true))

/-- The lookup of a read. -/
def lookup (cache : CacheLayer P) (r : ReadRequest N) (now : Int) : Option P × CacheLayer P :=
  if W.Cached r then cache.get r.cacheKey now else (none, cache)

/-- The store of a read. -/
def store (cache : CacheLayer P) (r : ReadRequest N) (payload : P) (now : Int) : CacheLayer P :=
  match r.dependencies W.collections with
  | none => cache
  | some deps => cache.storeCached r.cacheKey payload (r.ttlMs W.collections) deps now

/-- The next step of a read: the cache, and the phase the read enters. -/
def stepRead (s : CacheState ι κ Rows P) (r : ReadRequest N) (now : Int) :
    ReadPhase P → Option (CacheLayer P × ReadPhase P)
  | .idle =>
    match W.lookup s.cache r now with
    | (some payload, cache) => some (cache, .returned payload)
    | (none, cache) => some (cache, .missed)
  | .missed =>
    match W.serve s.db r with
    | .error e => some (s.cache, .failed e)
    | .ok payload => some (s.cache, .loaded s.count payload)
  | .loaded _ payload => some (W.store s.cache r payload now, .returned payload)
  | .returned _ | .failed _ => none

/-- The reads and the writes of an isolate that has cached nothing. -/
def system [DecidableEq ι] [DecidableEq κ] : System (CacheState ι κ Rows P) (CacheAction ι κ) where
  init s := (∀ i, s.reading i = .idle) ∧ (∀ k, s.writing k = .idle) ∧ s.cache = ⟨[], []⟩ ∧
    (∀ c, s.count c = 0) ∧ ∀ c, s.done c = 0
  step s
    | .read i now =>
      (W.stepRead s (W.reads i) now (s.reading i)).map fun (cache, ph) =>
        { s with cache, reading := Function.update s.reading i ph }
    | .write k =>
      match s.writing k with
      | .idle =>
        let s' := s.land (W.writes k)
        some { s' with writing := Function.update s.writing k (.written s'.count) }
      | .written landed =>
        let s' := s.invalidate (W.writes k) landed
        some { s' with writing := Function.update s.writing k .finished }
      | .finished => none
    | .evict key => some { s with cache := s.cache.delete key }

omit [JsNumber N] in
/-- A payload is what an uncached read returns of rows that no finished write is missing from. -/
def Fresh (s : CacheState ι κ Rows P) (r : ReadRequest N) (payload : P) : Prop :=
  ∃ version : String → Nat, (∀ c, s.done c ≤ version c ∧ version c ≤ s.count c) ∧
    W.serve (s.rowsAt version) r = .ok payload

/-- Every hit is what an uncached read by its caller returns. -/
def Transparent (s : CacheState ι κ Rows P) : Prop :=
  ∀ i now payload, (W.lookup s.cache (W.reads i) now).1 = some payload →
    W.Fresh s (W.reads i) payload

omit [JsNumber N] in
/-- What a read returns depends on no collection but those whose writes drop its entry. -/
def Covered (r : ReadRequest N) : Prop :=
  ∀ d d' : Database Rows, (∀ c ∈ r.watched W.collections, d c = d' c) → W.serve d r = W.serve d' r

/-- The cached reads under a read's key return what it returns. -/
def Separated (r : ReadRequest N) : Prop :=
  ∀ i, W.Cached (W.reads i) → (W.reads i).cacheKey = r.cacheKey →
    ∀ d, W.serve d (W.reads i) = W.serve d r

/-- The condition on a step. A read that stores what it has read has seen every finished change of
the collections whose writes drop the entry, depends on no other one, shares its key only with reads
that return the same, and is of a caller whose fingerprint is one line; and a write drops the reads
of every collection it changes. -/
def EntryKept (s : CacheState ι κ Rows P) : CacheAction ι κ → Prop
  | .read i _ =>
    match s.reading i with
    | .loaded seen _ => W.Cached (W.reads i) →
      (∀ c ∈ (W.reads i).watched W.collections, s.done c ≤ seen c) ∧ W.Covered (W.reads i) ∧
      W.Separated (W.reads i) ∧ OneLine (authFingerprint (W.reads i).auth)
    | _ => True
  | .write k =>
    match s.writing k with
    | .written _ => (W.writes k).changes ⊆ (W.writes k).invalidates
    | _ => True
  | .evict _ => True

/-! ## The invariant -/

section
variable {W : CacheCalls ι κ N Rows P} {s s' : CacheState ι κ Rows P}

variable (W) in
/-- An entry is what its read returns of rows that no finished change of a watched collection is
missing from. -/
structure GoodEntry (s : CacheState ι κ Rows P) (key : String) (e : CacheEntry P) (i : ι)
    (version : String → Nat) : Prop where
  key : key = (W.reads i).cacheKey
  tags : e.tags = (((W.reads i).dependencies W.collections).getD []).map readDependencyTag
  line : OneLine (authFingerprint (W.reads i).auth)
  covered : W.Covered (W.reads i)
  separated : W.Separated (W.reads i)
  bound : ∀ c, version c ≤ s.count c
  seen : ∀ c ∈ (W.reads i).watched W.collections, s.done c ≤ version c
  served : W.serve (s.rowsAt version) (W.reads i) = .ok e.data

variable (W) in
/-- What holds in every state of a run. -/
structure CacheInv (s : CacheState ι κ Rows P) : Prop where
  indexed : s.cache.Indexed
  entries : ∀ key e, (key, e) ∈ s.cache.store → ∃ i version, W.GoodEntry s key e i version
  loaded : ∀ i seen payload, s.reading i = .loaded seen payload →
    (∀ c, seen c ≤ s.count c) ∧ W.serve (s.rowsAt seen) (W.reads i) = .ok payload
  landed : ∀ k landed, s.writing k = .written landed → ∀ c, landed c ≤ s.count c
  done : ∀ c, s.done c ≤ s.count c

/-- The rows after the changes up to now stay as they are. -/
def Extends (s s' : CacheState ι κ Rows P) : Prop :=
  ∀ c, s.count c ≤ s'.count c ∧ ∀ n ≤ s.count c, s'.content c n = s.content c n

theorem Extends.rowsAt (h : Extends s s') {version : String → Nat}
    (hv : ∀ c, version c ≤ s.count c) : s'.rowsAt version = s.rowsAt version :=
  funext fun c => (h c).2 _ (hv c)

theorem Extends.refl (s : CacheState ι κ Rows P) : Extends s s :=
  fun _ => ⟨Nat.le_refl _, fun _ _ => rfl⟩

theorem extends_land (w : WriteCall Rows) : Extends s (s.land w) := by
  intro c
  constructor
  · show s.count c ≤ if c ∈ w.changes then s.count c + 1 else s.count c
    split <;> omega
  · intro n hn
    show (if c ∈ w.changes ∧ n = s.count c + 1 then w.rows s.db c else s.content c n) = s.content c n
    exact if_neg fun hnew => by omega

/-- An entry stays good where no change of a watched collection is finished. -/
theorem GoodEntry.extends {key : String} {e : CacheEntry P} {i : ι} {version : String → Nat}
    (h : W.GoodEntry s key e i version) (hs : Extends s s')
    (hdone : ∀ c ∈ (W.reads i).watched W.collections, s'.done c = s.done c) :
    W.GoodEntry s' key e i version where
  key := h.key
  tags := h.tags
  line := h.line
  covered := h.covered
  separated := h.separated
  bound c := Nat.le_trans (h.bound c) (hs c).1
  seen c hc := by
    rw [hdone c hc]
    exact h.seen c hc
  served := by
    rw [hs.rowsAt h.bound]
    exact h.served

/-- The hit of a good entry is fresh. -/
theorem GoodEntry.fresh {key : String} {e : CacheEntry P} {i j : ι} {version : String → Nat}
    (h : W.GoodEntry s key e i version) (hdone : ∀ c, s.done c ≤ s.count c)
    (hcached : W.Cached (W.reads j)) (hkey : (W.reads j).cacheKey = key) :
    W.Fresh s (W.reads j) e.data := by
  -- the collections that the entry does not depend on are taken as they are now
  refine ⟨fun c => if c ∈ (W.reads i).watched W.collections then version c else s.count c,
    fun c => ?_, ?_⟩
  · dsimp only
    split
    · next hc => exact ⟨h.seen c hc, h.bound c⟩
    · exact ⟨hdone c, Nat.le_refl _⟩
  · rw [h.separated j hcached (hkey.trans h.key), ← h.served]
    refine h.covered _ _ fun c hc => ?_
    show s.content c (if _ then _ else _) = s.content c (version c)
    rw [if_pos hc]

theorem CacheInv.transparent (h : W.CacheInv s) : W.Transparent s := by
  intro j now payload hhit
  unfold lookup at hhit
  split at hhit
  · next hcached =>
    obtain ⟨e, hmem, rfl⟩ := CacheLayer.get_eq_some hhit
    obtain ⟨i, version, hgood⟩ := h.entries _ e hmem
    exact hgood.fresh h.done hcached rfl
  · cases hhit

/-! ## The steps -/

/-- A step that leaves the database and the writes keeps the invariant where it keeps the entries
good and the payloads true. -/
theorem CacheInv.keep (h : W.CacheInv s) {cache : CacheLayer P} {reading : ι → ReadPhase P}
    (hindexed : cache.Indexed)
    (hentries : ∀ key e, (key, e) ∈ cache.store → (key, e) ∈ s.cache.store ∨
      ∃ i version, W.GoodEntry s key e i version)
    (hloaded : ∀ i seen payload, reading i = .loaded seen payload →
      (∀ c, seen c ≤ s.count c) ∧ W.serve (s.rowsAt seen) (W.reads i) = .ok payload) :
    W.CacheInv { s with cache, reading } where
  indexed := hindexed
  entries key e hmem := by
    obtain hold | ⟨i, version, hgood⟩ := hentries key e hmem
    · obtain ⟨i, version, hgood⟩ := h.entries key e hold
      exact ⟨i, version, hgood.extends (Extends.refl s) fun _ _ => rfl⟩
    · exact ⟨i, version, hgood.extends (Extends.refl s) fun _ _ => rfl⟩
  loaded := hloaded
  landed := h.landed
  done := h.done

theorem mem_lookup {cache : CacheLayer P} {r : ReadRequest N} {now : Int} {key : String}
    {e : CacheEntry P} (h : (key, e) ∈ (W.lookup cache r now).2.store) : (key, e) ∈ cache.store := by
  unfold lookup at h
  split at h
  · exact CacheLayer.mem_get h
  · exact h

theorem indexed_lookup {cache : CacheLayer P} (h : cache.Indexed) (r : ReadRequest N) (now : Int) :
    (W.lookup cache r now).2.Indexed := by
  unfold lookup
  split
  · exact h.get _ _
  · exact h

theorem indexed_store {cache : CacheLayer P} (h : cache.Indexed) (r : ReadRequest N) (payload : P)
    (now : Int) : (W.store cache r payload now).Indexed := by
  unfold store
  split
  · exact h
  · exact h.set _ _ _ _ _

section
variable [DecidableEq ι]

/-- The phase of one read changes. -/
theorem CacheInv.loaded_update (h : W.CacheInv s) {i : ι} {ph : ReadPhase P}
    (hph : ∀ seen payload, ph = .loaded seen payload →
      (∀ c, seen c ≤ s.count c) ∧ W.serve (s.rowsAt seen) (W.reads i) = .ok payload) :
    ∀ j seen payload, Function.update s.reading i ph j = .loaded seen payload →
      (∀ c, seen c ≤ s.count c) ∧ W.serve (s.rowsAt seen) (W.reads j) = .ok payload := by
  intro j seen payload hj
  obtain rfl | hne := eq_or_ne j i
  · rw [Function.update_self] at hj
    exact hph seen payload hj
  · rw [Function.update_of_ne hne] at hj
    exact h.loaded j seen payload hj

/-- A read keeps the invariant. -/
theorem CacheInv.read (h : W.CacheInv s) {i : ι} {now : Int} (hp : W.EntryKept s (.read i now))
    {cache : CacheLayer P} {ph : ReadPhase P}
    (hstep : W.stepRead s (W.reads i) now (s.reading i) = some (cache, ph)) :
    W.CacheInv { s with cache, reading := Function.update s.reading i ph } := by
  cases hphase : s.reading i with
  | idle =>
    rw [hphase] at hstep
    have hindexed : (W.lookup s.cache (W.reads i) now).2.Indexed := indexed_lookup h.indexed _ _
    have hmem : ∀ key e, (key, e) ∈ (W.lookup s.cache (W.reads i) now).2.store →
        (key, e) ∈ s.cache.store := fun _ _ => mem_lookup
    simp only [stepRead] at hstep
    split at hstep
    · next payload cache' hlookup =>
      cases hstep
      rw [hlookup] at hindexed hmem
      exact h.keep hindexed (fun key e he => .inl (hmem key e he)) (h.loaded_update nofun)
    · next cache' hlookup =>
      cases hstep
      rw [hlookup] at hindexed hmem
      exact h.keep hindexed (fun key e he => .inl (hmem key e he)) (h.loaded_update nofun)
  | missed =>
    rw [hphase] at hstep
    simp only [stepRead] at hstep
    split at hstep
    · cases hstep
      exact h.keep h.indexed (fun _ _ he => .inl he) (h.loaded_update nofun)
    · next payload hserve =>
      cases hstep
      refine h.keep h.indexed (fun _ _ he => .inl he) (h.loaded_update fun seen payload' heq => ?_)
      cases heq
      exact ⟨fun _ => Nat.le_refl _, hserve⟩
  | loaded seen payload =>
    rw [hphase] at hstep
    cases hstep
    obtain ⟨hseen, hserved⟩ := h.loaded i seen payload hphase
    refine h.keep (indexed_store h.indexed _ _ _) (fun key e he => ?_) (h.loaded_update nofun)
    unfold store at he
    split at he
    · exact .inl he
    · next deps hdeps =>
      obtain ⟨rfl, rfl⟩ | ⟨-, hold⟩ := CacheLayer.mem_set he
      · -- the entry that is stored has seen what is finished
        have hcached : W.Cached (W.reads i) := by
          show ((W.reads i).dependencies W.collections).isSome
          rw [hdeps]
          rfl
        simp only [EntryKept, hphase] at hp
        obtain ⟨hdone, hcovered, hseparated, hline⟩ := hp hcached
        exact .inr ⟨i, seen, rfl, by rw [hdeps]; rfl, hline, hcovered, hseparated, hseen, hdone,
          hserved⟩
      · exact .inl hold
  | returned payload =>
    rw [hphase] at hstep
    cases hstep
  | failed e =>
    rw [hphase] at hstep
    cases hstep

end

section
variable [DecidableEq κ]

/-- The landing of a write keeps the invariant. -/
theorem CacheInv.land (h : W.CacheInv s) (k : κ) :
    W.CacheInv { s.land (W.writes k) with
      writing := Function.update s.writing k (.written (s.land (W.writes k)).count) } := by
  have hs : Extends s (s.land (W.writes k)) := extends_land _
  refine ⟨h.indexed, fun key e hmem => ?_, fun i seen payload hi => ?_, fun k' landed hk' c => ?_,
    fun c => Nat.le_trans (h.done c) (hs c).1⟩
  · obtain ⟨i, version, hgood⟩ := h.entries key e hmem
    have hland := hgood.extends hs fun _ _ => rfl
    exact ⟨i, version, hland.extends (Extends.refl _) fun _ _ => rfl⟩
  · obtain ⟨hseen, hserved⟩ := h.loaded i seen payload hi
    refine ⟨fun c => Nat.le_trans (hseen c) (hs c).1, ?_⟩
    rw [← hserved, ← hs.rowsAt hseen]
    rfl
  · obtain rfl | hne := eq_or_ne k' k
    · have hk'' : WritePhase.written (s.land (W.writes k')).count = .written landed :=
        (Function.update_self ..).symm.trans hk'
      cases hk''
      exact Nat.le_refl _
    · have hk'' : s.writing k' = .written landed := (Function.update_of_ne hne ..).symm.trans hk'
      exact Nat.le_trans (h.landed k' landed hk'' c) (hs c).1

/-- The invalidation of a write keeps the invariant, where it covers what the write changes. -/
theorem CacheInv.invalidate (h : W.CacheInv s) {k : κ} {landed : String → Nat}
    (hphase : s.writing k = .written landed)
    (hsub : (W.writes k).changes ⊆ (W.writes k).invalidates) :
    W.CacheInv { s.invalidate (W.writes k) landed with
      writing := Function.update s.writing k .finished } := by
  refine ⟨h.indexed.invalidateAll _, fun key e hmem => ?_, h.loaded, fun k' landed' hk' => ?_,
    fun c => ?_⟩
  · obtain ⟨hold, -⟩ := CacheLayer.mem_invalidateAll h.indexed hmem
    obtain ⟨i, version, hgood⟩ := h.entries key e hold
    obtain rfl := hgood.key
    obtain ⟨-, hwatched⟩ := ReadRequest.watched_of_mem_invalidateAll h.indexed hgood.line hgood.tags
      hmem
    refine ⟨i, version, hgood.extends (fun c => ⟨Nat.le_refl _, fun _ _ => rfl⟩) fun c hc => ?_⟩
    exact if_neg fun hchanged => hwatched c (hsub hchanged) hc
  · obtain rfl | hne := eq_or_ne k' k
    · have hk'' : WritePhase.finished = .written landed' := (Function.update_self ..).symm.trans hk'
      cases hk''
    · exact h.landed k' landed' ((Function.update_of_ne hne ..).symm.trans hk')
  · show (if c ∈ (W.writes k).changes then max (s.done c) (landed c) else s.done c) ≤ s.count c
    split
    · exact Nat.max_le.2 ⟨h.done c, h.landed k landed hphase c⟩
    · exact h.done c

end

variable [DecidableEq ι] [DecidableEq κ]

theorem CacheInv.step {a : CacheAction ι κ} (h : W.CacheInv s) (hp : W.EntryKept s a)
    (hstep : W.system.step s a = some s') : W.CacheInv s' := by
  cases a with
  | read i now =>
    obtain ⟨⟨cache, ph⟩, hread, rfl⟩ := Option.map_eq_some_iff.1 hstep
    exact h.read hp hread
  | write k =>
    cases hphase : s.writing k with
    | idle =>
      simp only [system, hphase, Option.some.injEq] at hstep
      subst hstep
      exact h.land k
    | written landed =>
      simp only [system, hphase, Option.some.injEq] at hstep
      simp only [EntryKept, hphase] at hp
      subst hstep
      exact h.invalidate hphase hp
    | finished =>
      simp only [system, hphase] at hstep
      cases hstep
  | evict key =>
    cases hstep
    exact h.keep (h.indexed.delete key) (fun _ _ he => .inl (CacheLayer.mem_delete he).1) h.loaded

theorem CacheInv.init (h : W.system.init s) : W.CacheInv s := by
  obtain ⟨hreading, hwriting, hcache, hcount, hdone⟩ := h
  refine ⟨?_, ?_, ?_, ?_, ?_⟩
  · rw [hcache]
    intro key e hmem
    cases hmem
  · rw [hcache]
    intro key e hmem
    cases hmem
  · intro i seen payload hi
    rw [hreading i] at hi
    cases hi
  · intro k landed hk
    rw [hwriting k] at hk
    cases hk
  · intro c
    rw [hdone c]
    exact Nat.zero_le _

end

/-! ## Transparency -/

end CacheCalls

/-! ## A list of vehicles -/

/-- A collection that is cached. -/
def vehicleInfo : CollectionInfo (Option Int) where
  tableName := "cms_vehicles"
  schemaFields := []
  fields_user _ hf := absurd hf List.not_mem_nil

/-- Reads of the list of the vehicles, and a write that adds one. -/
def vehicleCalls : CacheCalls Bool Unit (Option Int) (List String) (List String) where
  collections _ := some vehicleInfo
  serve d r := .ok (d r.collection)
  reads _ := ⟨"vehicles", none, .list "" false false false false false, none⟩
  writes _ := ⟨["vehicles"], fun d c => "van" :: d c, ["vehicles"]⟩

/-- No vehicle, and no call. -/
def vehicleState : CacheState Bool Unit (List String) (List String) where
  content _ _ := []
  count _ := 0
  done _ := 0
  cache := ⟨[], []⟩
  reading _ := .idle
  writing _ := .idle

theorem vehicleState_init : vehicleCalls.system.init vehicleState :=
  ⟨fun _ => rfl, fun _ => rfl, rfl, fun _ => rfl, fun _ => rfl⟩

/-- The condition on a read that stores what it has read of the vehicles. -/
theorem vehicle_entryKept {s : CacheState Bool Unit (List String) (List String)} {i : Bool}
    {now : Int} {seen : String → Nat} {payload : List String}
    (hphase : s.reading i = .loaded seen payload) (hdone : ∀ c, s.done c ≤ seen c) :
    vehicleCalls.EntryKept s (.read i now) := by
  simp only [CacheCalls.EntryKept, hphase]
  intro _
  refine ⟨fun c _ => hdone c, fun d d' hd => ?_, fun _ _ _ _ => rfl, ?_⟩
  · exact congrArg Except.ok (hd "vehicles" List.mem_cons_self)
  · exact oneLine_of_all (s := "anon") (by decide)

end HeadlessErp
