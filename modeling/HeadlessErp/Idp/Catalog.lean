import Mathlib
import HeadlessErp.Js.Map

/-!
# The catalog and the scorecard

`catalog` and `scorecard` of `apps/api/src/domain-modules/idp/service.ts`: two views of the modules,
of who owns them and of what is deployed. The rows of a table are in the order in which the database
gives them, and percentages are those of exact numbers.

The owner that is shown is one of the lowest rank, of deleted rows as well, and the scorecard counts
deleted deployments. So the two views say what they should just where the rows leave no other choice
(`viewsAgree_iff`).
-/

namespace HeadlessErp.Idp

/-! ## The tables -/

/-- A row of `_modules`. -/
structure ModuleRow where
  id : String
  name : String
  slug : String
  version : String
  isActive : Int := 1
  icon : Option String := none
  iconColor : Option String := none
  bgColor : Option String := none
  deriving DecidableEq

/-- A row of `idp_ownership`. -/
structure OwnershipRow where
  moduleId : String
  ownerId : String
  role : Option String := none
  deleted : Bool := false
  deriving DecidableEq

/-- A row of `idp_environment`. -/
structure EnvironmentRow where
  id : String
  name : String
  kind : Option String := none
  deriving DecidableEq

/-- A row of `idp_deployment`. -/
structure DeploymentRow where
  id : String
  moduleId : String
  environmentId : String
  version : Option String := none
  status : Option String := none
  deployedAt : Option String := none
  deleted : Bool := false
  deriving DecidableEq

/-- What the views read. -/
structure Platform where
  modules : List ModuleRow
  ownership : List OwnershipRow := []
  environments : List EnvironmentRow := []
  deployments : List DeploymentRow := []

/-! ## The catalog -/

/-- `CatalogEnvironment`. -/
structure CatalogEnvironment where
  environmentId : String
  environment : Option String
  kind : Option String
  status : Option String
  version : Option String
  deployedAt : Option String
  deriving DecidableEq

/-- `CatalogEntry`. -/
structure CatalogEntry where
  row : ModuleRow
  owner : Option String
  ownerRole : Option String
  environments : List CatalogEnvironment
  deriving DecidableEq

/-- `roleRank`. -/
def roleRank (role : Option String) : ℕ :=
  match role with
  | some "owner" => 3
  | some "maintainer" => 2
  | some "viewer" => 1
  | _ => 0

/-- A row of the query of deployments, joined to an environment or to none. -/
def catalogEnvironment (d : DeploymentRow) (e : Option EnvironmentRow) : CatalogEnvironment where
  environmentId := d.environmentId
  environment := e.map (·.name)
  kind := e.bind (·.kind)
  status := d.status
  version := d.version
  deployedAt := d.deployedAt

/-- `LEFT JOIN … ON e.id = d.environment_id`, with the module of the deployment. -/
def joined (environments : List EnvironmentRow) (d : DeploymentRow) :
    List (String × CatalogEnvironment) :=
  match environments.filter (·.id = d.environmentId) with
  | [] => [(d.moduleId, catalogEnvironment d none)]
  | es => es.map fun e => (d.moduleId, catalogEnvironment d (some e))

/-- `ORDER BY d.deployed_at DESC, d.id DESC`: a row comes before another. -/
def laterDeployed (a b : DeploymentRow) : Bool :=
  match a.deployedAt, b.deployedAt with
  | some s, some t => t < s || (s == t && b.id ≤ a.id)
  | some _, none => true
  | none, some _ => false
  | none, none => b.id ≤ a.id

/-- The query of deployments. -/
def deploymentQuery (db : Platform) : List (String × CatalogEnvironment) :=
  ((db.deployments.filter fun d => !d.deleted).insertionSort fun a b => laterDeployed a b).flatMap
    (joined db.environments)

/-- The loop that fills `ownerByModule`. -/
def ownerByModule (ownership : List OwnershipRow) : JsMap String OwnershipRow :=
  ownership.foldl (fun m o =>
    match m.get? o.moduleId with
    | some existing =>
      if roleRank o.role < roleRank existing.role then m.set o.moduleId o else m
    | none => m.set o.moduleId o) .empty

/-- The loop that fills `envsByModule`. -/
def envsByModule (rows : List (String × CatalogEnvironment)) :
    JsMap String (List CatalogEnvironment) :=
  .grouped rows

/-- The entry of a module. -/
def catalogEntry (db : Platform) (m : ModuleRow) : CatalogEntry where
  row := m
  owner := ((ownerByModule db.ownership).get? m.id).map (·.ownerId)
  ownerRole := ((ownerByModule db.ownership).get? m.id).bind (·.role)
  environments := ((envsByModule (deploymentQuery db)).get? m.id).getD []

/-- `catalog`. -/
def catalog (db : Platform) : List CatalogEntry :=
  (db.modules.insertionSort fun a b => a.name ≤ b.name).map (catalogEntry db)

/-! ## The scorecard -/

/-- What `scorecard` returns. -/
structure Scorecard where
  total : ℕ
  withOwner : ℕ
  ownerCoveragePct : ℕ
  withLiveDeployment : ℕ
  deployCoveragePct : ℕ
  ownedAndLive : ℕ
  ownedNotLive : ℕ
  unownedLive : ℕ
  unownedNotLive : ℕ
  deriving DecidableEq

/-- `pct`: the percentage `n` of `total`, rounded. -/
def pct (total n : ℕ) : ℕ := if total = 0 then 0 else (200 * n + total) / (2 * total)

/-- The counts over a list, by who is owned and who is live. -/
def Scorecard.count {α : Type} (owned live : α → Bool) (l : List α) : Scorecard where
  total := l.length
  withOwner := l.countP owned
  ownerCoveragePct := pct l.length (l.countP owned)
  withLiveDeployment := l.countP live
  deployCoveragePct := pct l.length (l.countP live)
  ownedAndLive := l.countP fun m => owned m && live m
  ownedNotLive := l.countP fun m => owned m && !live m
  unownedLive := l.countP fun m => !owned m && live m
  unownedNotLive := l.countP fun m => !owned m && !live m

/-- `ownerSet.has`. -/
def inOwnerSet (db : Platform) (m : ModuleRow) : Bool := db.ownership.any (·.moduleId = m.id)

/-- `liveSet.has`. -/
def inLiveSet (db : Platform) (m : ModuleRow) : Bool :=
  (db.deployments.filter (·.status = some "live")).any (·.moduleId = m.id)

/-- `scorecard`. -/
def scorecard (db : Platform) : Scorecard := .count (inOwnerSet db) (inLiveSet db) db.modules

/-! ## What the views should say -/

/-- The live ownership rows of a module. -/
def liveOwnership (db : Platform) (m : ModuleRow) : List OwnershipRow :=
  db.ownership.filter fun o => o.moduleId = m.id && !o.deleted

/-- An owner of the highest role in some rows, or nobody where there are none. -/
def HighestOwner (rows : List OwnershipRow) (owner role : Option String) : Prop :=
  (rows = [] ∧ owner = none ∧ role = none) ∨
    ∃ o ∈ rows, owner = some o.ownerId ∧ role = o.role ∧
      ∀ o' ∈ rows, roleRank o'.role ≤ roleRank o.role

instance (rows : List OwnershipRow) (owner role : Option String) :
    Decidable (HighestOwner rows owner role) :=
  inferInstanceAs (Decidable (_ ∨ _))

/-- The live deployments of a module, with their environments. -/
def liveEnvironments (db : Platform) (m : ModuleRow) : List CatalogEnvironment :=
  ((db.deployments.filter fun d => d.moduleId = m.id && !d.deleted).flatMap
    (joined db.environments)).map (·.2)

/-- An entry with an owner. -/
def CatalogEntry.owned (e : CatalogEntry) : Bool := e.owner.isSome

/-- An entry with a deployment that is live. -/
def CatalogEntry.live (e : CatalogEntry) : Bool := e.environments.any (·.status = some "live")

/-- The two views agree with the tables and with each other. -/
structure ViewsAgree (db : Platform) : Prop where
  modules : ((catalog db).map (·.row)).Perm db.modules
  owners : ∀ e ∈ catalog db, HighestOwner (liveOwnership db e.row) e.owner e.ownerRole
  environments : ∀ e ∈ catalog db, e.environments.Perm (liveEnvironments db e.row)
  counts : scorecard db = .count CatalogEntry.owned CatalogEntry.live (catalog db)
  buckets : (scorecard db).ownedAndLive + (scorecard db).ownedNotLive +
    (scorecard db).unownedLive + (scorecard db).unownedNotLive = db.modules.length

/-- The rows of a module leave one owner to show: there are none; or the live ones are of one rank,
no deleted one is of a lower rank, and the first row of that rank names an owner and a role of a
live one. -/
def OwnerSettled (rows : List OwnershipRow) : Prop :=
  rows = [] ∨ ∃ o ∈ rows, o.deleted = false ∧
    (∀ o' ∈ rows, roleRank o.role ≤ roleRank o'.role) ∧
    (∀ o' ∈ rows, o'.deleted = false → roleRank o'.role ≤ roleRank o.role) ∧
    ∃ first, rows.find? (roleRank ·.role = roleRank o.role) = some first ∧
      first.ownerId = o.ownerId ∧ first.role = o.role

/-- A module with a live deployment has one that is not deleted. -/
def LiveSettled (db : Platform) (m : ModuleRow) : Prop :=
  (∃ d ∈ db.deployments, d.moduleId = m.id ∧ d.status = some "live") →
    ∃ d ∈ db.deployments, d.moduleId = m.id ∧ d.status = some "live" ∧ d.deleted = false

/-! ## The owner that is shown -/

section

variable {db : Platform} {m : ModuleRow} {k : String}

/-- The first element of the least value. -/
theorem argmin_eq_find? {α : Type} (f : α → ℕ) {l : List α} {a : α} (ha : a ∈ l)
    (hle : ∀ b ∈ l, f a ≤ f b) : l.argmin f = l.find? fun b => f b = f a := by
  induction l generalizing a with
  | nil => cases ha
  | cons b l ih =>
    rw [List.argmin_cons, List.find?_cons]
    cases hmin : l.argmin f with
    | none =>
      rw [List.argmin_eq_none] at hmin
      subst hmin
      obtain rfl := List.mem_singleton.1 ha
      simp
    | some c =>
      have hc := List.argmin_mem hmin
      dsimp only
      by_cases hb : f b = f a
      · have hnot : ¬ f c < f b := by
          rw [hb, not_lt]
          exact hle c (List.mem_cons_of_mem _ hc)
        rw [if_neg hnot, decide_eq_true hb]
      · have hmem : a ∈ l := (List.mem_cons.1 ha).resolve_left fun heq => hb (heq ▸ rfl)
        have hca : f c ≤ f a := List.le_of_mem_argmin hmem hmin
        have hab := hle b List.mem_cons_self
        rw [if_pos (by omega), decide_eq_false hb, ← hmin]
        exact ih hmem fun b hb => hle b (List.mem_cons_of_mem _ hb)

/-- The owner of a module is its first row of the lowest rank. -/
theorem get?_ownerByModule (ownership : List OwnershipRow) (k : String) :
    (ownerByModule ownership).get? k =
      (ownership.filter (·.moduleId = k)).argmin (roleRank ·.role) := by
  have hloop (m : JsMap String OwnershipRow) :
      (ownership.foldl (fun m o =>
        match m.get? o.moduleId with
        | some existing =>
          if roleRank o.role < roleRank existing.role then m.set o.moduleId o else m
        | none => m.set o.moduleId o) m).get? k =
      (ownership.filter (·.moduleId = k)).foldl
        (List.argAux fun b c => roleRank b.role < roleRank c.role) (m.get? k) := by
    induction ownership generalizing m with
    | nil => rfl
    | cons o ownership ih =>
      rw [List.foldl_cons, ih, List.filter_cons]
      by_cases hk : o.moduleId = k
      · rw [if_pos (by simpa using hk), List.foldl_cons]
        subst hk
        congr 1
        cases hget : m.get? o.moduleId with
        | none => simp [List.argAux]
        | some existing =>
          simp only [List.argAux]
          split
          · simp
          · exact hget
      · rw [if_neg (by simpa using hk)]
        congr 1
        split
        · split
          · rw [JsMap.get?_set, if_neg (Ne.symm hk)]
          · rfl
        · rw [JsMap.get?_set, if_neg (Ne.symm hk)]
  exact hloop .empty

theorem highestOwner_argmin {rows : List OwnershipRow} :
    HighestOwner (rows.filter fun o => !o.deleted) ((rows.argmin (roleRank ·.role)).map (·.ownerId))
      ((rows.argmin (roleRank ·.role)).bind (·.role)) ↔ OwnerSettled rows := by
  have hlive {o : OwnershipRow} : o ∈ rows.filter (fun o => !o.deleted) ↔
      o ∈ rows ∧ o.deleted = false := by
    simp [List.mem_filter]
  constructor
  · cases hmin : rows.argmin (roleRank ·.role) with
    | none => exact fun _ => .inl (List.argmin_eq_none.1 hmin)
    | some first =>
      rintro (⟨-, hnone, -⟩ | ⟨o, ho, howner, hrole, hmax⟩)
      · cases hnone
      · obtain ⟨hmem, hdeleted⟩ := hlive.1 ho
        replace hrole : first.role = o.role := hrole
        have hleast : ∀ o' ∈ rows, roleRank o.role ≤ roleRank o'.role := fun o' ho' =>
          hrole ▸ List.le_of_mem_argmin (f := (roleRank ·.role)) ho' hmin
        refine .inr ⟨o, hmem, hdeleted, hleast, fun o' ho' hd => hmax o' (hlive.2 ⟨ho', hd⟩),
          first, ?_, Option.some.inj howner, hrole⟩
        rw [← hmin, argmin_eq_find? (roleRank ·.role) hmem hleast]
  · rintro (rfl | ⟨o, hmem, hdeleted, hleast, hmax, first, hfirst, howner, hrole⟩)
    · exact .inl ⟨rfl, rfl, rfl⟩
    · rw [argmin_eq_find? (roleRank ·.role) hmem hleast, hfirst]
      refine .inr ⟨o, hlive.2 ⟨hmem, hdeleted⟩, congrArg some howner, hrole, fun o' ho' => ?_⟩
      obtain ⟨hmem', hdeleted'⟩ := hlive.1 ho'
      exact hmax o' hmem' hdeleted'

/-- The owner that is shown is one of the highest role just where the rows leave one to show. -/
theorem highestOwner_iff :
    HighestOwner (liveOwnership db m) (catalogEntry db m).owner (catalogEntry db m).ownerRole ↔
      OwnerSettled (db.ownership.filter (·.moduleId = m.id)) := by
  have hrows : liveOwnership db m =
      (db.ownership.filter (·.moduleId = m.id)).filter fun o => !o.deleted := by
    rw [liveOwnership, List.filter_filter]
    exact List.filter_congr fun o _ => Bool.and_comm _ _
  rw [hrows, ← highestOwner_argmin, ← get?_ownerByModule]
  rfl

/-! ## The deployments that are shown -/

theorem module_of_mem_joined {environments : List EnvironmentRow} {d : DeploymentRow}
    {row : String × CatalogEnvironment} (h : row ∈ joined environments d) :
    row.1 = d.moduleId ∧ row.2.status = d.status := by
  unfold joined at h
  split at h
  · rw [List.mem_singleton.1 h]
    exact ⟨rfl, rfl⟩
  · obtain ⟨e, -, rfl⟩ := List.mem_map.1 h
    exact ⟨rfl, rfl⟩

theorem joined_ne_nil (environments : List EnvironmentRow) (d : DeploymentRow) :
    joined environments d ≠ [] := by
  unfold joined
  split
  · exact List.cons_ne_nil _ _
  · next h => simpa using h

/-- The rows of a module among the joined ones are those of its deployments. -/
theorem filter_joined (environments : List EnvironmentRow) (l : List DeploymentRow) (k : String) :
    (l.flatMap (joined environments)).filter (·.1 = k) =
      (l.filter (·.moduleId = k)).flatMap (joined environments) := by
  induction l with
  | nil => rfl
  | cons d l ih =>
    rw [List.flatMap_cons, List.filter_append, ih, List.filter_cons]
    by_cases hk : d.moduleId = k
    · rw [if_pos (by simpa using hk), List.flatMap_cons, List.filter_eq_self.2]
      intro row hrow
      simpa [(module_of_mem_joined hrow).1] using hk
    · rw [if_neg (by simpa using hk), List.filter_eq_nil_iff.2, List.nil_append]
      intro row hrow
      simpa [(module_of_mem_joined hrow).1] using hk

/-- The environments of an entry are those of the live deployments of its module. -/
theorem environments_catalogEntry :
    (catalogEntry db m).environments.Perm (liveEnvironments db m) := by
  have hperm := (List.perm_insertionSort (fun a b => laterDeployed a b)
    (db.deployments.filter fun d => !d.deleted)).filter (·.moduleId = m.id)
  have hrows : ((db.deployments.filter fun d => !d.deleted).filter fun d => d.moduleId = m.id) =
      db.deployments.filter fun d => d.moduleId = m.id && !d.deleted :=
    List.filter_filter
  rw [hrows] at hperm
  rw [catalogEntry, envsByModule, JsMap.get?_grouped, deploymentQuery, filter_joined]
  exact (hperm.flatMap_right _).map _

theorem live_catalogEntry : (catalogEntry db m).live = true ↔
    ∃ d ∈ db.deployments, d.moduleId = m.id ∧ d.status = some "live" ∧ d.deleted = false := by
  have hperm : (catalogEntry db m).environments.Perm (liveEnvironments db m) :=
    environments_catalogEntry
  rw [CatalogEntry.live, List.any_eq_true]
  simp only [hperm.mem_iff, liveEnvironments, List.mem_map, List.mem_flatMap, List.mem_filter,
    Bool.and_eq_true, Bool.not_eq_true', decide_eq_true_eq]
  constructor
  · rintro ⟨env, ⟨row, ⟨d, ⟨hd, hmodule, hdeleted⟩, hrow⟩, rfl⟩, hstatus⟩
    exact ⟨d, hd, hmodule, (module_of_mem_joined hrow).2 ▸ hstatus, hdeleted⟩
  · rintro ⟨d, hd, hmodule, hstatus, hdeleted⟩
    obtain ⟨row, hrow⟩ := List.exists_mem_of_ne_nil _ (joined_ne_nil db.environments d)
    exact ⟨row.2, ⟨row, ⟨d, ⟨hd, hmodule, hdeleted⟩, hrow⟩, rfl⟩,
      (module_of_mem_joined hrow).2.trans hstatus⟩

/-! ## The counts -/

theorem inLiveSet_iff : inLiveSet db m = true ↔
    ∃ d ∈ db.deployments, d.moduleId = m.id ∧ d.status = some "live" := by
  simp only [inLiveSet, List.any_eq_true, List.mem_filter, decide_eq_true_eq]
  exact ⟨fun ⟨d, ⟨hd, hstatus⟩, hmodule⟩ => ⟨d, hd, hmodule, hstatus⟩,
    fun ⟨d, hd, hmodule, hstatus⟩ => ⟨d, ⟨hd, hstatus⟩, hmodule⟩⟩

theorem liveSettled_iff :
    LiveSettled db m ↔ (inLiveSet db m = true → (catalogEntry db m).live = true) := by
  rw [inLiveSet_iff, live_catalogEntry]
  rfl

/-- What is live in the catalog is live in the scorecard. -/
theorem inLiveSet_of_live (h : (catalogEntry db m).live = true) : inLiveSet db m = true := by
  obtain ⟨d, hd, hmodule, hstatus, -⟩ := live_catalogEntry.1 h
  exact inLiveSet_iff.2 ⟨d, hd, hmodule, hstatus⟩

theorem owned_catalogEntry : (catalogEntry db m).owned = inOwnerSet db m := by
  rw [CatalogEntry.owned, catalogEntry, get?_ownerByModule, Option.isSome_map, Bool.eq_iff_iff,
    Option.isSome_iff_ne_none, Ne, List.argmin_eq_none, List.filter_eq_nil_iff, inOwnerSet,
    List.any_eq_true]
  push Not
  rfl

section
variable {α β : Type} {owned live owned' live' : α → Bool} {l l' : List α}

theorem Scorecard.count_perm (h : l.Perm l') : count owned live l = count owned live l' := by
  simp only [count, h.length_eq, h.countP_eq]

theorem Scorecard.count_map (owned live : β → Bool) (f : α → β) (l : List α) :
    count owned live (l.map f) = count (fun a => owned (f a)) (fun a => live (f a)) l := by
  simp only [count, List.length_map, List.countP_map]
  rfl

theorem Scorecard.count_congr (howned : ∀ a ∈ l, owned a = owned' a)
    (hlive : ∀ a ∈ l, live a = live' a) : count owned live l = count owned' live' l := by
  have hpairs : l.map (fun a => (owned a, live a)) = l.map fun a => (owned' a, live' a) :=
    List.map_congr_left fun a ha => by rw [howned a ha, hlive a ha]
  calc count owned live l = count Prod.fst Prod.snd (l.map fun a => (owned a, live a)) :=
        (count_map Prod.fst Prod.snd (fun a => (owned a, live a)) l).symm
    _ = count Prod.fst Prod.snd (l.map fun a => (owned' a, live' a)) := by rw [hpairs]
    _ = count owned' live' l := count_map Prod.fst Prod.snd (fun a => (owned' a, live' a)) l

/-- The four buckets hold each element once. -/
theorem Scorecard.sum_buckets (owned live : α → Bool) (l : List α) :
    (count owned live l).ownedAndLive + (count owned live l).ownedNotLive +
      (count owned live l).unownedLive + (count owned live l).unownedNotLive = l.length := by
  simp only [count]
  induction l with
  | nil => rfl
  | cons a l ih =>
    simp only [List.countP_cons, List.length_cons]
    cases owned a <;> cases live a <;> simp <;> omega

/-- A stronger predicate counts as many elements only where the two are one. -/
theorem countP_eq_of_imp {p q : α → Bool} (himp : ∀ a ∈ l, p a = true → q a = true)
    (h : l.countP q = l.countP p) : ∀ a ∈ l, q a = true → p a = true := by
  induction l with
  | nil => exact fun a ha => absurd ha List.not_mem_nil
  | cons b l ih =>
    have hrest := List.countP_mono_left fun a ha => himp a (List.mem_cons_of_mem b ha)
    have hb := himp b List.mem_cons_self
    rw [List.countP_cons, List.countP_cons] at h
    rw [List.forall_mem_cons]
    refine ⟨fun hq => ?_, ih (fun a ha => himp a (List.mem_cons_of_mem b ha)) ?_⟩
    · by_contra hp
      rw [if_pos hq, if_neg hp] at h
      omega
    · split at h <;> split at h <;> first | omega | exact absurd (hb ‹_›) ‹_›

end

theorem perm_catalog : ((catalog db).map (·.row)).Perm db.modules := by
  rw [catalog, List.map_map]
  exact (List.map_id'' (fun _ => rfl) _).symm ▸ List.perm_insertionSort _ _

theorem mem_catalog {e : CatalogEntry} :
    e ∈ catalog db ↔ ∃ m ∈ db.modules, catalogEntry db m = e := by
  rw [catalog, List.mem_map]
  simp only [(List.perm_insertionSort (fun a b : ModuleRow => a.name ≤ b.name) _).mem_iff]

/-- The counts of the catalog, over the modules. -/
theorem count_catalog : Scorecard.count CatalogEntry.owned CatalogEntry.live (catalog db) =
    .count (inOwnerSet db) (fun m => (catalogEntry db m).live) db.modules := by
  rw [catalog, Scorecard.count_map, Scorecard.count_perm (List.perm_insertionSort _ _)]
  exact Scorecard.count_congr (fun m _ => owned_catalogEntry) fun _ _ => rfl

theorem counts_iff : scorecard db = .count CatalogEntry.owned CatalogEntry.live (catalog db) ↔
    ∀ m ∈ db.modules, LiveSettled db m := by
  rw [count_catalog, scorecard]
  simp only [liveSettled_iff]
  constructor
  · intro h
    exact countP_eq_of_imp (fun m _ => inLiveSet_of_live) (congrArg Scorecard.withLiveDeployment h)
  · intro h
    refine Scorecard.count_congr (fun _ _ => rfl) fun m hm => ?_
    rw [Bool.eq_iff_iff]
    exact ⟨h m hm, inLiveSet_of_live⟩

/-- The views agree just where the rows of each module leave one owner to show, and a module with a
live deployment has one that is not deleted. -/
theorem viewsAgree_iff (db : Platform) :
    ViewsAgree db ↔ ∀ m ∈ db.modules,
      OwnerSettled (db.ownership.filter (·.moduleId = m.id)) ∧ LiveSettled db m := by
  constructor
  · intro h m hm
    exact ⟨highestOwner_iff.1 (h.owners _ (mem_catalog.2 ⟨m, hm, rfl⟩)), counts_iff.1 h.counts m hm⟩
  · intro h
    refine ⟨perm_catalog, ?_, ?_, counts_iff.2 fun m hm => (h m hm).2, Scorecard.sum_buckets _ _ _⟩
    · intro e he
      obtain ⟨m, hm, rfl⟩ := mem_catalog.1 he
      exact highestOwner_iff.2 (h m hm).1
    · intro e he
      obtain ⟨m, -, rfl⟩ := mem_catalog.1 he
      exact environments_catalogEntry

end

/-! ## An owner and a viewer -/

/-- A module that one user owns and another one views. -/
def ownedAndViewed : Platform where
  modules := [⟨"m1", "CRM", "crm", "1.0.0", 1, none, none, none⟩]
  ownership := [⟨"m1", "alice", some "owner", false⟩, ⟨"m1", "bob", some "viewer", false⟩]

theorem not_viewsAgree_ownedAndViewed : ¬ ∀ db : Platform, ViewsAgree db := by
  intro h
  have howner := (h ownedAndViewed).owners _ (mem_catalog.2 ⟨_, List.mem_cons_self, rfl⟩)
  revert howner
  decide

end HeadlessErp.Idp
