import HeadlessErp.Idp.Service
import HeadlessErp.Schema.Force

/-!
# Convergence of deployments

The loop of `applySnapshot` leaves a collection that is there as it is, and one that it makes gets
an owner field, which no snapshot it can be made from has. A call that returns therefore leaves the
schemas of its snapshot exactly where they were there before it, and the ledger speaks for the
snapshot exactly where no other one has its checksum (`everyCall_converges_iff`).
-/

namespace HeadlessErp.Idp

open StateExcept

section
variable {N : Type}

/-! ## Schemas -/

/-- The database has the collection, and its fields are those of the snapshot. -/
def HasFields (db : Catalogue N) (col : EntitySchema N) : Prop :=
  ∃ row ∈ db.schemas, row.slug = col.slug ∧
    (currentCollection row).map (·.fields) = .ok col.fields

/-- The row has a field that the engine keeps the owner in. -/
def HasOwner (row : SchemaRow N) : Prop :=
  ∀ col, currentCollection row = .ok col → ∃ f ∈ col.fields, f.name = "_owner"

theorem hasOwner_row (env : SchemaEnv) (col : EntitySchema N) (name slug : String) :
    HasOwner (col.toInput.row env name slug) := by
  intro current hcurrent
  have hkept : (!sys.contains "_owner") = true := by decide
  have hmem : ({ name := "_owner", type := "uuid", label := some "Owner" } : SchemaField N) ∈
      allFields col.toInput := by
    simp [allFields, EntitySchema.toInput]
  obtain rfl := Except.ok.inj hcurrent
  exact ⟨_, List.mem_filter.2 ⟨hmem, hkept⟩, rfl⟩

/-- A row with an owner field has not the fields of a snapshot that keeps clear of it. -/
theorem HasOwner.fields_ne {row : SchemaRow N} (h : HasOwner row) {fs : List (SchemaField N)}
    (hfs : ∀ f ∈ fs, f.name ≠ "_owner") : (currentCollection row).map (·.fields) ≠ .ok fs := by
  intro heq
  rcases hcol : currentCollection row with e | col
  · rw [hcol] at heq
    cases heq
  · rw [hcol] at heq
    obtain ⟨f, hf, hname⟩ := h col hcol
    rw [show col.fields = fs from Except.ok.inj heq] at hf
    exact hfs f hf hname

variable [JsNumber N] {env : IdpEnv N}

/-! ## The loop -/

/-- What one collection of the loop does: nothing, or a row with an owner field. -/
theorem createMissing_eq_ok {col : EntitySchema N} {live : Live N} {status : ApplyStatus}
    (h : (createMissing env col live).1 = .ok status) :
    ((∃ row ∈ live.db.schemas, row.slug = col.slug) ∧ (createMissing env col live).2 = live) ∨
    ((∀ row ∈ live.db.schemas, row.slug ≠ col.slug) ∧ (∀ f ∈ col.fields, f.name ≠ "_owner") ∧
      ∃ row, HasOwner row ∧
        (createMissing env col live).2.db.schemas = live.db.schemas ++ [row]) := by
  unfold createMissing at h ⊢
  split
  · next hthere =>
    obtain ⟨row, hrow, hslug⟩ := List.any_eq_true.1 hthere
    exact .inl ⟨⟨row, hrow, of_decide_eq_true hslug⟩, rfl⟩
  next hthere =>
  rw [if_neg hthere] at h
  refine .inr ⟨fun row hrow hslug => hthere (List.any_eq_true.2 ⟨row, hrow,
    decide_eq_true hslug⟩), ?_⟩
  rcases createCollection_cases env.toSchemaEnv col.toInput live.db with
    ⟨⟨e, he⟩, -⟩ | ⟨name, slug, hinput, hfree, hprovision⟩
  · rw [eq_of_fst_eq he] at h
    cases h
  · rw [createCollection_eq hinput hfree hprovision]
    refine ⟨fun f hf hname => ?_, _, hasOwner_row env.toSchemaEnv col name slug, rfl⟩
    unfold checkInput at hinput
    obtain ⟨_, -, hinput⟩ := exists_of_bind_eq_ok hinput
    obtain ⟨_, -, hinput⟩ := exists_of_bind_eq_ok hinput
    obtain ⟨_, -, hinput⟩ := exists_of_bind_eq_ok hinput
    obtain ⟨_, hfields, -⟩ := exists_of_bind_eq_ok hinput
    refine not_reserved_of_validateFields hfields f hf ?_
    rw [hname]
    decide

theorem createAllMissing_cons {col : EntitySchema N} {cols : List (EntitySchema N)}
    {live : Live N} {results : List (String × ApplyStatus)}
    (h : (createAllMissing env (col :: cols) live).1 = .ok results) :
    (∃ status, (createMissing env col live).1 = .ok status) ∧
      (∃ rest, (createAllMissing env cols (createMissing env col live).2).1 = .ok rest) ∧
      (createAllMissing env (col :: cols) live).2 =
        (createAllMissing env cols (createMissing env col live).2).2 := by
  obtain ⟨status, hstatus, heq⟩ := exists_of_bind_fst_eq_ok h
  have hall : createAllMissing env (col :: cols) live = _ := heq
  rw [hall] at h ⊢
  obtain ⟨rest, hrest, heq⟩ := exists_of_bind_fst_eq_ok h
  exact ⟨⟨status, hstatus⟩, ⟨rest, hrest⟩, (congrArg Prod.snd heq).trans rfl⟩

/-- The rows after the loop are those before it, and rows with an owner field. -/
theorem mem_schemas_createAllMissing {cols : List (EntitySchema N)} {live : Live N}
    {results : List (String × ApplyStatus)} (h : (createAllMissing env cols live).1 = .ok results)
    {row : SchemaRow N} (hrow : row ∈ (createAllMissing env cols live).2.db.schemas) :
    row ∈ live.db.schemas ∨ HasOwner row := by
  induction cols generalizing live results with
  | nil => exact .inl hrow
  | cons col cols ih =>
    obtain ⟨⟨status, hstatus⟩, ⟨rest, hrest⟩, heq⟩ := createAllMissing_cons h
    rw [heq] at hrow
    rcases ih hrest hrow with hrow | howner
    · rcases createMissing_eq_ok hstatus with ⟨-, hsame⟩ | ⟨-, -, new, hnew, hschemas⟩
      · rw [hsame] at hrow
        exact .inl hrow
      · rw [hschemas] at hrow
        rcases List.mem_append.1 hrow with hrow | hrow
        · exact .inl hrow
        · rw [List.mem_singleton.1 hrow]
          exact .inr hnew
    · exact .inr howner

/-- The loop changes nothing, or it leaves a collection without the fields of the snapshot. -/
theorem createAllMissing_eq_ok {cols : List (EntitySchema N)} {live : Live N}
    {results : List (String × ApplyStatus)} (h : (createAllMissing env cols live).1 = .ok results) :
    ((∀ col ∈ cols, ∃ row ∈ live.db.schemas, row.slug = col.slug) ∧
      (createAllMissing env cols live).2 = live) ∨
    ∃ col ∈ cols, (∀ row ∈ live.db.schemas, row.slug ≠ col.slug) ∧
      ¬HasFields (createAllMissing env cols live).2.db col := by
  induction cols generalizing live results with
  | nil => exact .inl ⟨fun col hcol => absurd hcol List.not_mem_nil, rfl⟩
  | cons col cols ih =>
    obtain ⟨⟨status, hstatus⟩, ⟨rest, hrest⟩, heq⟩ := createAllMissing_cons h
    rcases createMissing_eq_ok hstatus with ⟨hthere, hsame⟩ | ⟨hmissing, hclear, -⟩
    · rw [hsame] at hrest heq
      rw [heq]
      rcases ih hrest with ⟨hall, hlive⟩ | ⟨bad, hbad, hrest⟩
      · exact .inl ⟨List.forall_mem_cons.2 ⟨hthere, hall⟩, hlive⟩
      · exact .inr ⟨bad, List.mem_cons_of_mem _ hbad, hrest⟩
    · refine .inr ⟨col, List.mem_cons_self, hmissing, ?_⟩
      rintro ⟨row, hrow, hslug, hfields⟩
      rcases mem_schemas_createAllMissing h hrow with hold | howner
      · exact hmissing row hold hslug
      · exact howner.fields_ne hclear hfields

/-! ## One call -/

/-- The collections that the snapshot lists have its fields, and `planDeployment` reports no change
of them. -/
def Converged (live : Live N) (snapshot : SchemaSnapshot N) : Prop :=
  (∀ col ∈ snapshot.collections, HasFields live.db col) ∧
    ∃ d, plan live snapshot = .ok d ∧ d.collectionsAdded = [] ∧ d.collectionsModified = []

/-- The ledger has a row of the snapshot itself. -/
def Ledgered (live : Live N) (environmentId : String) (snapshot : SchemaSnapshot N) : Prop :=
  ∃ r ∈ live.ledger, r.environmentId = environmentId ∧ r.snapshot = snapshot

theorem converged_record {deploymentId : String} {row : LedgerRow N} {now : Nat} {live : Live N}
    {snapshot : SchemaSnapshot N} :
    Converged (record deploymentId row now live) snapshot ↔ Converged live snapshot := Iff.rfl

/-- The deployment of a call, and the snapshot that is requested. -/
def Call.requested (live : Live N) (call : Call) :
    Except Failure (Deployment N × SchemaSnapshot N) := do
  let dep ← getDeployment live call.deploymentId
  let text ← snapshotOf live dep call
  let snapshot ← parseSnapshot text
  .ok (dep, snapshot)

/-- A call that returns: the ledger has spoken, or the snapshot has been applied. -/
theorem perform_eq_ok {call : Call} {now : Nat} {live : Live N} {answer : Answer N}
    (h : (call.perform env now live).1 = .ok answer) :
    ∃ dep snapshot, call.requested live = .ok (dep, snapshot) ∧
      ((isLedgered env live dep.environmentId snapshot = true ∧
        call.perform env now live =
          (.ok (.alreadyApplied (snapshotChecksum env snapshot)), live)) ∨
      (isLedgered env live dep.environmentId snapshot = false ∧
        ∃ results d, (createAllMissing env snapshot.collections live).1 = .ok results ∧
          call.perform env now live =
            (.ok (.applied (snapshotChecksum env snapshot) results d),
              record dep.id ⟨snapshot, dep.environmentId⟩ now
                (createAllMissing env snapshot.collections live).2))) := by
  unfold Call.perform at h ⊢
  rcases hdep : getDeployment live call.deploymentId with e | dep
  · simp only [hdep] at h
    cases h
  simp only [hdep] at h ⊢
  rcases htext : snapshotOf live dep call with e | text
  · simp only [htext] at h
    cases h
  simp only [htext] at h ⊢
  unfold applySnapshot at h ⊢
  rcases hsnapshot : parseSnapshot text with e | snapshot
  · simp only [hsnapshot] at h
    cases h
  simp only [hsnapshot] at h ⊢
  have hrequested : call.requested live = .ok (dep, snapshot) := by
    unfold Call.requested
    rw [bind_of_eq_ok hdep, bind_of_eq_ok htext, bind_of_eq_ok hsnapshot]
  refine ⟨dep, snapshot, hrequested, ?_⟩
  cases hledger : isLedgered env live dep.environmentId snapshot with
  | true => exact .inl ⟨rfl, if_pos rfl⟩
  | false =>
    rw [hledger, if_neg Bool.false_ne_true] at h
    rw [if_neg Bool.false_ne_true]
    obtain ⟨d, -, heq⟩ := exists_of_bind_fst_eq_ok h
    have hnew : applyNew env dep snapshot call.force now live = _ := heq
    rw [hnew] at h ⊢
    obtain ⟨_, -, heq⟩ := exists_of_bind_fst_eq_ok h
    rw [heq] at h ⊢
    obtain ⟨results, hresults, heq⟩ := exists_of_bind_fst_eq_ok h
    rw [heq]
    exact .inr ⟨rfl, results, d, hresults, rfl⟩

/-- A call that returns has left the schemas as its snapshot lists them, and it has taken the
snapshot for applied only if the ledger has it. -/
def Converges (env : IdpEnv N) (live : Live N) (call : Call) (now : Nat) : Prop :=
  ∀ answer dep snapshot, (call.perform env now live).1 = .ok answer →
    call.requested live = .ok (dep, snapshot) →
    Converged (call.perform env now live).2 snapshot ∧
      ∀ checksum, answer = .alreadyApplied checksum → Ledgered live dep.environmentId snapshot

/-- Before a call that returns there is nothing to apply of its snapshot, and no other snapshot of
the ledger has its checksum without it. -/
def NothingToApply (env : IdpEnv N) (live : Live N) (call : Call) (now : Nat) : Prop :=
  ∀ answer dep snapshot, (call.perform env now live).1 = .ok answer →
    call.requested live = .ok (dep, snapshot) →
    Converged live snapshot ∧ (isLedgered env live dep.environmentId snapshot = true →
      Ledgered live dep.environmentId snapshot)

theorem converges_iff {live : Live N} {call : Call} {now : Nat} :
    Converges env live call now ↔ NothingToApply env live call now := by
  refine forall_congr' fun answer => forall_congr' fun dep => forall_congr' fun snapshot =>
    forall_congr' fun hanswer => forall_congr' fun hrequested => ?_
  obtain ⟨dep', snapshot', hrequested', hcases⟩ := perform_eq_ok hanswer
  obtain ⟨rfl, rfl⟩ := Prod.mk.inj (Except.ok.inj (hrequested.symm.trans hrequested'))
  rcases hcases with ⟨hledger, heq⟩ | ⟨hledger, results, d, hresults, heq⟩
  · -- the ledger has the checksum, and nothing changes
    rw [heq] at hanswer ⊢
    obtain rfl := Except.ok.inj hanswer
    exact and_congr Iff.rfl ⟨fun h _ => h _ rfl, fun h _ _ => h hledger⟩
  · rw [heq] at hanswer ⊢
    obtain rfl := Except.ok.inj hanswer
    refine and_congr (converged_record.trans ?_) ⟨?_, ?_⟩
    · rcases createAllMissing_eq_ok hresults with ⟨-, hsame⟩ | ⟨col, hcol, hmissing, hbad⟩
      · rw [hsame]
      · refine ⟨fun h => absurd (h.1 col hcol) hbad, fun h => ?_⟩
        obtain ⟨row, hrow, hslug, -⟩ := h.1 col hcol
        exact absurd hslug (hmissing row hrow)
    · intro _ htrue
      rw [hledger] at htrue
      cases htrue
    · intro _ checksum heq
      cases heq

/-! ## Runs -/

/-- A call at a time, or whatever else happens to the database. -/
inductive Event (N : Type) where
  | call (call : Call) (now : Nat)
  | change (live : Live N)

/-- The database after an event. -/
def Event.next (env : IdpEnv N) (live : Live N) : Event N → Live N
  | .call c now => (c.perform env now live).2
  | .change live => live

/-- Something holds of every call of a run. -/
def EveryCall (env : IdpEnv N) (P : Live N → Call → Nat → Prop) : Live N → List (Event N) → Prop
  | _, [] => True
  | live, event :: events =>
    (∀ call now, event = .call call now → P live call now) ∧
      EveryCall env P (event.next env live) events

theorem EveryCall.congr {P Q : Live N → Call → Nat → Prop}
    (h : ∀ live call now, P live call now ↔ Q live call now) {live : Live N}
    {events : List (Event N)} : EveryCall env P live events ↔ EveryCall env Q live events := by
  induction events generalizing live with
  | nil => exact Iff.rfl
  | cons event events ih =>
    refine and_congr ?_ ih
    exact forall_congr' fun call => forall_congr' fun now => forall_congr' fun _ => h live call now

end

/-- In every run, the calls that return converge exactly where there was nothing to apply. -/
theorem everyCall_converges_iff {N : Type} [JsNumber N] (env : IdpEnv N) (live : Live N)
    (events : List (Event N)) :
    EveryCall env (Converges env) live events ↔ EveryCall env (NothingToApply env) live events :=
  EveryCall.congr fun _ _ _ => converges_iff

/-- The platform of the example. -/
def idpEnv : IdpEnv (Option Int) where
  toSchemaEnv := schemaEnv
  stringify := fun _ => "{}"

/-- A deployment that brings a collection with a title. -/
def blogDeployment : Deployment (Option Int) :=
  let articles : StoredCollection (Option Int) :=
    { name := "Articles", slug := "articles", fields := some [{ name := "title", type := "text" }] }
  { id := "d1", moduleId := "blog", environmentId := "production",
    snapshotJson := some (.snapshot { collections := [articles] }) }

/-- The deployment is applied to an empty database, and the collection has three fields more than
its snapshot. -/
theorem not_converges_blog :
    ¬EveryCall idpEnv (Converges idpEnv) { deployments := [blogDeployment] }
      [.call (.applyDeployment "d1" false) 0] := by
  intro h
  have hconverges := h.1 _ _ rfl
  obtain ⟨answer, hanswer⟩ : ∃ answer, ((Call.applyDeployment "d1" false).perform idpEnv 0
      { deployments := [blogDeployment] }).1 = .ok answer := by
    have hok : ((Call.applyDeployment "d1" false).perform idpEnv 0
        { deployments := [blogDeployment] }).1.isOk = true := by
      decide +kernel
    rcases hcall : ((Call.applyDeployment "d1" false).perform idpEnv 0
        { deployments := [blogDeployment] }).1 with e | answer
    · rw [hcall] at hok
      cases hok
    · exact ⟨answer, rfl⟩
  obtain ⟨dep, snapshot, hrequested, -⟩ := perform_eq_ok hanswer
  obtain ⟨hfields, -⟩ := (hconverges answer dep snapshot hanswer hrequested).1
  obtain ⟨rfl, rfl⟩ := Prod.mk.inj (Except.ok.inj (hrequested.symm.trans rfl))
  obtain ⟨row, hrow, -, heq⟩ := hfields _ List.mem_cons_self
  have hcount : ∀ r ∈ ((Call.applyDeployment "d1" false).perform idpEnv 0
      { deployments := [blogDeployment] }).2.db.schemas,
      ((currentCollection r).toOption.map (·.fields.length)) = some 4 := by
    decide +kernel
  have hfour := hcount row hrow
  rcases hcol : currentCollection row with e | col
  · rw [hcol] at heq
    cases heq
  · rw [hcol] at heq hfour
    have hone : col.fields.length = 1 := congrArg List.length (Except.ok.inj heq)
    have hall : col.fields.length = 4 := Option.some.inj hfour
    omega

end HeadlessErp.Idp
