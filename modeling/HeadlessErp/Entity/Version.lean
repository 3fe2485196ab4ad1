import HeadlessErp.Entity.Interleaving

/-!
# Optimistic concurrency

Calls that carry one expected version, in any interleaving. The version is compared with the row the
call has read, and the write names the row by its id alone, so a call that was checked before another
one wrote overwrites it. In the runs in which a call only writes a row whose version is still the one
it has read, at most one call succeeds and every other one is answered with a conflict.
-/

namespace HeadlessErp

namespace Updates
variable {ι N : Type} [DecidableEq ι] [JsNumber N] {info : CollectionInfo N}
variable (U : Updates ι N info) {s s' : UpdateState ι N}

/-- At most one call has succeeded, the row is the one it wrote, and the others that have ended were
answered with a conflict. -/
structure OneWinner (s : UpdateState ι N) : Prop where
  unique : ∀ i j row row', s.phase i = .succeeded row → s.phase j = .succeeded row' → i = j
  kept : ∀ i row, s.phase i = .succeeded row → s.row = some row
  conflict : ∀ i e, s.phase i = .failed e → e.isConflict = true

/-- The condition on a step: nothing but its version is wrong with the request, and when it is
written, the row's version is still the one that was read, and not the one of the new write. -/
def VersionKept (s : UpdateState ι N) : UpdateAction ι → Prop
  | .read i => s.row.isSome ∧ assertRequest U.collectionSlug (U.calls i) = .ok ()
  | .check i => ∀ existing, s.phase i = .loaded existing →
    assertAdmitted U.collectionSlug (U.calls i) existing s.row = .ok () ∧
      (isStale (U.calls i).expectedUpdatedAt existing = false →
        ∃ p, prepareUpdate U.collectionSlug (U.calls i) existing = .ok p)
  | .write i now => ∀ existing p, s.phase i = .checked existing p →
    (U.calls i).expectedUpdatedAt ≠ some now.text ∧
      ∃ row, s.row = some row ∧ row.get "updated_at" = existing.get "updated_at" ∧
        ∃ row', updateRow U.storage (updateData (U.calls i) p now) row = .ok row'
  | .finish i => ∀ existing p row, s.phase i = .written existing p row →
    ∃ row', U.recomputedRow i existing p s.row = .ok row'

/-! ## The invariant -/

/-- A row that was written at a time other than the expected version. -/
def WrittenAfter (expected : String) (row : Record N) : Prop :=
  ∃ now : IsoTime, row.get "updated_at" = .str now.text ∧ now.text ≠ expected

/-- The row is the one a single call has written, after the expected version; a call that was
checked has read the expected version; and a call fails with a conflict only. -/
structure VersionInvariant (expected : String) (s : UpdateState ι N) : Prop where
  won : ∀ i row, (s.phase i).wrote = some row → s.row = some row ∧ WrittenAfter expected row
  unique : ∀ i j row row', (s.phase i).wrote = some row → (s.phase j).wrote = some row' → i = j
  fresh : ∀ i existing p, s.phase i = .checked existing p →
    isStale (some expected) existing = false
  conflict : ∀ i e, s.phase i = .failed e → e.isConflict = true

variable {U} {expected : String}

omit [DecidableEq ι] in
theorem VersionInvariant.oneWinner (h : VersionInvariant expected s) : OneWinner s where
  unique i j row row' hi hj := h.unique i j row row' (by rw [hi]; rfl) (by rw [hj]; rfl)
  kept i row hi := (h.won i row (by rw [hi]; rfl)).1
  conflict := h.conflict

/-- A call that writes nothing keeps the invariant, as far as it has read the expected version. -/
theorem VersionInvariant.enter (h : VersionInvariant expected s) {i : ι} {ph : Phase N}
    (hw : ph.wrote = none)
    (hc : ∀ existing p, ph = .checked existing p → isStale (some expected) existing = false)
    (hf : ∀ e, ph = .failed e → e.isConflict = true) :
    VersionInvariant expected (s.enter i ph) := by
  have hold : ∀ j row, ((s.enter i ph).phase j).wrote = some row →
      j ≠ i ∧ (s.phase j).wrote = some row := by
    intro j row hj
    by_cases hji : j = i
    · subst hji
      rw [UpdateState.enter_phase_self, hw] at hj
      cases hj
    · exact ⟨hji, by rwa [UpdateState.enter_phase_of_ne s hji] at hj⟩
  refine ⟨fun j row hj => h.won j row (hold j row hj).2, fun j k row row' hj hk =>
    h.unique j k row row' (hold j row hj).2 (hold k row' hk).2, fun j existing p hj => ?_,
    fun j e hj => ?_⟩
  · obtain ⟨-, hph⟩ | ⟨-, hj⟩ := s.phase_enter hj
    · exact hc existing p hph.symm
    · exact h.fresh j existing p hj
  · obtain ⟨-, hph⟩ | ⟨-, hj⟩ := s.phase_enter hj
    · exact hf e hph.symm
    · exact h.conflict j e hj

/-- A call that is the only one to have written the row keeps the invariant with its next write. -/
theorem VersionInvariant.commit (h : VersionInvariant expected s) {i : ι} {ph : Phase N}
    {before after : Record N} (hw : ph.wrote = some after) (hafter : WrittenAfter expected after)
    (honly : ∀ j row, (s.phase j).wrote = some row → j = i) :
    VersionInvariant expected ((s.commit i before after).enter i ph) := by
  have hcaller : ∀ j row, (((s.commit i before after).enter i ph).phase j).wrote = some row →
      j = i ∧ row = after := by
    intro j row hj
    by_cases hji : j = i
    · subst hji
      rw [UpdateState.enter_phase_self, hw] at hj
      exact ⟨rfl, (Option.some.inj hj).symm⟩
    · rw [UpdateState.enter_phase_of_ne _ hji] at hj
      exact absurd (honly j row hj) hji
  have hph : ∀ q, ph = q → q.wrote = none → False := by
    rintro q rfl hq
    rw [hq] at hw
    cases hw
  refine ⟨fun j row hj => ?_, fun j k row row' hj hk => ?_, fun j existing p hj => ?_,
    fun j e hj => ?_⟩
  · obtain ⟨-, rfl⟩ := hcaller j row hj
    exact ⟨rfl, hafter⟩
  · rw [(hcaller j row hj).1, (hcaller k row' hk).1]
  · obtain ⟨-, hq⟩ | ⟨-, hj⟩ := UpdateState.phase_enter _ hj
    · exact (hph _ hq.symm rfl).elim
    · exact h.fresh j existing p hj
  · obtain ⟨-, hq⟩ | ⟨-, hj⟩ := UpdateState.phase_enter _ hj
    · exact (hph _ hq.symm rfl).elim
    · exact h.conflict j e hj

/-- A row that was written after the expected version is stale for whoever expects that. -/
theorem WrittenAfter.isStale {row : Record N} (h : WrittenAfter expected row) (he : expected ≠ "") :
    HeadlessErp.isStale (some expected) row = true := by
  obtain ⟨now, hnow, hne⟩ := h
  unfold HeadlessErp.isStale
  simp [hnow, JsVal.truthy, JsVal.toStr, he, hne, now.text_ne]

omit [DecidableEq ι] in
/-- A version check looks at the version alone. -/
theorem isStale_congr {row row' : Record N} (h : row.get "updated_at" = row'.get "updated_at")
    (expectedUpdatedAt : Option String) :
    isStale expectedUpdatedAt row = isStale expectedUpdatedAt row' := by
  unfold isStale
  rw [h]

/-- A request that fails its check was overtaken, when nothing else is wrong with it. -/
theorem checkUpdate_error {c : UpdateCall N info} {existing : Record N} {row : Option (Record N)}
    {slug : String} {e : ApiError} (h : checkUpdate slug c existing row = .error e)
    (ha : assertAdmitted slug c existing row = .ok ())
    (hp : HeadlessErp.isStale c.expectedUpdatedAt existing = false →
      ∃ p, prepareUpdate slug c existing = .ok p) : e.isConflict = true := by
  unfold checkUpdate at h
  rw [ha] at h
  unfold assertVersion at h
  cases hs : HeadlessErp.isStale c.expectedUpdatedAt existing with
  | true =>
    rw [hs] at h
    cases h
    rfl
  | false =>
    obtain ⟨p, hp⟩ := hp hs
    rw [hs, hp] at h
    cases h

/-- A request that passes its check has read the version it expects. -/
theorem checkUpdate_fresh {c : UpdateCall N info} {existing : Record N} {row : Option (Record N)}
    {slug : String} {p : Prepared N} (h : checkUpdate slug c existing row = .ok p) :
    HeadlessErp.isStale c.expectedUpdatedAt existing = false := by
  unfold checkUpdate at h
  obtain ⟨_, _, h⟩ := exists_of_bind_eq_ok h
  obtain ⟨_, hv, _⟩ := exists_of_bind_eq_ok h
  unfold assertVersion at hv
  split at hv
  · cases hv
  · next hs => exact Bool.eq_false_iff.2 hs

/-! ## Runs -/

/-- One step under the condition keeps the invariant. -/
theorem VersionInvariant.step (he : expected ≠ "")
    (hexp : ∀ i, (U.calls i).expectedUpdatedAt = some expected) (h : VersionInvariant expected s)
    {a : UpdateAction ι} (ha : U.VersionKept s a) (hstep : U.step s a = some s') :
    VersionInvariant expected s' := by
  cases U.outcome_of_step hstep with
  | refused hph hreq =>
    rw [ha.2] at hreq
    cases hreq
  | missing hph hrow =>
    have hsome := ha.1
    rw [hrow] at hsome
    cases hsome
  | loaded hph hrow => exact h.enter rfl nofun nofun
  | rejected hph hcheck =>
    obtain ⟨hadm, hprep⟩ := ha _ hph
    refine h.enter rfl nofun fun e' heq => ?_
    cases heq
    exact checkUpdate_error hcheck hadm hprep
  | @checked i existing p hph hcheck =>
    refine h.enter rfl (fun existing' p' heq => ?_) nofun
    cases heq
    have hfresh := checkUpdate_fresh hcheck
    rwa [hexp i] at hfresh
  | gone hph hrow =>
    obtain ⟨-, row, hrow', -⟩ := ha _ _ hph
    rw [hrow] at hrow'
    cases hrow'
  | aborted hph hrow hup =>
    obtain ⟨-, row, hrow', -, row', hup'⟩ := ha _ _ hph
    rw [hrow] at hrow'
    cases hrow'
    rw [hup] at hup'
    cases hup'
  | @written i now existing row row' p hph hrow hup =>
    obtain ⟨hnow, row₀, hrow₀, hversion, -⟩ := ha _ _ hph
    rw [hrow] at hrow₀
    cases hrow₀
    refine h.commit rfl ⟨now, ?_, fun heq => hnow (by rw [hexp i, heq])⟩ fun j rowj hj => ?_
    · rw [get_updateRow_of_some hup (updateData_updatedAt (U.calls i) p now)]
      exact U.storage.store_text _ (by decide) _
    · -- whoever has written before left a version that this call has not read
      obtain ⟨hrowj, hafter⟩ := h.won j rowj hj
      rw [hrow] at hrowj
      cases hrowj
      have hstale := hafter.isStale he
      rw [isStale_congr hversion, h.fresh i existing p hph] at hstale
      cases hstale
  | unfinished hph hre =>
    obtain ⟨row', hre'⟩ := ha _ _ _ hph
    rw [hre] at hre'
    cases hre'
  | @finished i existing row p hph hre =>
    have hw : (s.phase i).wrote = some row := by rw [hph]; rfl
    obtain ⟨hrow, hafter⟩ := h.won i row hw
    -- the row is the one the call left: as if it had been written once more
    have hagain : VersionInvariant expected ((s.commit i row row).enter i (.succeeded row)) :=
      h.commit rfl hafter fun j rowj hj => h.unique j i rowj row hj hw
    exact ⟨fun j rowj hj => by rw [UpdateState.enter_row, hrow]; exact hagain.won j rowj hj,
      hagain.unique, hagain.fresh, hagain.conflict⟩
  | @recomputed i existing row before after p hph hrow hup =>
    have hw : (s.phase i).wrote = some row := by rw [hph]; rfl
    obtain ⟨hrow', now, hnow, hne⟩ := h.won i row hw
    rw [hrow] at hrow'
    cases hrow'
    refine h.commit rfl ⟨now, ?_, hne⟩ fun j rowj hj => h.unique j i rowj _ hj hw
    rw [get_updateRow_of_none hup (get?_eq_none_of_stored ((U.calls i).recomputed_stored _) (by decide)),
      hnow]

/-- Of calls that expect one version, at most one succeeds and the others are answered with a
conflict, in every run in which a call only writes a row whose version is still the one it has
read. -/
theorem oneWinner_of_versionKept (he : expected ≠ "")
    (hexp : ∀ i, (U.calls i).expectedUpdatedAt = some expected)
    (h : U.system.Reach U.VersionKept s) : OneWinner s := by
  refine VersionInvariant.oneWinner (h.invariant (I := VersionInvariant expected) ?_ ?_)
  · rintro s ⟨-, hidle, -⟩
    refine ⟨fun i row hi => ?_, fun i j row row' hi hj => ?_, fun i existing p hi => ?_,
      fun i e hi => ?_⟩
    all_goals
      rw [hidle i] at hi
      cases hi
  · intro s a s' hs ha hstep
    exact hs.step he hexp ha hstep

end Updates

/-! ## Two calls -/

/-- A call of a body that meets no hook, rule or restriction. -/
def plainCall {N : Type} [JsNumber N] {info : CollectionInfo N} (body : Record N)
    (expectedUpdatedAt : Option String) : UpdateCall N info where
  auth := none
  body := .obj body
  expectedUpdatedAt := expectedUpdatedAt
  restrictions := none
  canBusiness _ := true
  accessible _ := true
  platform := { randomUUID := "", sanitizeHtml := id, encrypt := fun _ v => v }
  ruleEnv := { now := "", today := "", uuid := "", timestamp := JsNumber.nan,
               globals := fun _ => none, registry := fun _ => none }
  plugins _ data := .ok data
  marketplace data := .ok data
  decisionTables _ := .ok none
  constraints _ := .ok ()
  computed _ := []
  recomputed _ := []
  validateRules := []
  beforeUpdateRules := []
  pluginValidate _ _ := .ok ()
  parseObject _ := none
  replaceChildren _ := .ok ()
  computed_stored := nofun
  recomputed_stored := nofun

/-- A table that keeps every value as it is written. -/
def plainStorage (N : Type) : Storage N where
  store _ v := v
  rejects _ := false
  store_text _ _ _ := rfl

/-- Notes with a title. -/
def notes : CollectionInfo (Option Int) where
  tableName := "notes"
  schemaFields := [{ name := "title", type := .text }]
  fields_user := by decide

/-- A note. -/
def note : Record (Option Int) :=
  [("id", .str "n1"), ("title", .str "a"), ("_meta", .null), ("updated_at", .str "t0")]

/-- Two calls that set the title of one note and expect the version it has. -/
def noteUpdates : Updates Bool (Option Int) notes where
  collectionSlug := "notes"
  id := "n1"
  storage := plainStorage _
  calls i := plainCall [("title", .str (if i then "b" else "c"))] (some "t0")

/-- Before the calls. -/
def noteState : UpdateState Bool (Option Int) where
  row := some note
  phase _ := .idle
  commits := []

/-- Both calls read the note and pass the check; then both write. -/
def noteRun : List (UpdateAction Bool) :=
  [.read true, .read false, .check true, .check false, .write true ⟨"t1", by decide⟩,
   .write false ⟨"t2", by decide⟩, .finish true, .finish false]

/-- Two calls that expect one version both succeed, and the second one overwrites the first. -/
theorem both_calls_succeed :
    ¬ ∀ (ι : Type) (_ : DecidableEq ι) (info : CollectionInfo (Option Int))
        (U : Updates ι (Option Int) info) (expected : String), expected ≠ "" →
        (∀ i, (U.calls i).expectedUpdatedAt = some expected) →
        ∀ s, U.system.Reachable s → Updates.OneWinner s := by
  intro h
  have hinit : noteUpdates.system.Reachable noteState := .init ⟨rfl, fun _ => rfl, rfl⟩
  have hrun : (noteUpdates.system.run noteState noteRun).isSome = true := rfl
  have hwin := h Bool inferInstance notes noteUpdates "t0" (by decide) (fun _ => rfl) _
    (hinit.run (Option.some_get hrun).symm)
  cases hwin.unique true false _ _ rfl rfl

/-- The first call reads, is checked and writes before the second one begins. -/
theorem oneWinner_of_versionKept_notes :
    (∃ s, noteUpdates.system.Reach noteUpdates.VersionKept s ∧
      (s.phase true).wrote.isSome = true ∧ Updates.OneWinner s) := by
  have h₀ : noteUpdates.system.Reach noteUpdates.VersionKept noteState :=
    .init ⟨rfl, fun _ => rfl, rfl⟩
  have hread : noteUpdates.VersionKept noteState (.read true) := ⟨rfl, rfl⟩
  have h₁ := h₀.step hread rfl
  have hcheck : noteUpdates.VersionKept (noteUpdates.read noteState true) (.check true) := by
    intro existing hph
    cases hph
    exact ⟨rfl, fun _ => ⟨_, rfl⟩⟩
  have h₂ := h₁.step hcheck rfl
  have hwrite : noteUpdates.VersionKept
      (noteUpdates.check (noteUpdates.read noteState true) true note)
      (.write true ⟨"t1", by decide⟩) := by
    intro existing p hph
    cases hph
    exact ⟨by decide, note, rfl, rfl, _, rfl⟩
  have h₃ := h₂.step hwrite rfl
  exact ⟨_, h₃, rfl, Updates.oneWinner_of_versionKept (by decide) (fun _ => rfl) h₃⟩

end HeadlessErp
