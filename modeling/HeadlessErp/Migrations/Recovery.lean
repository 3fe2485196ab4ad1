import HeadlessErp.Migrations.Runner

/-!
# Recovery of migrations

What is left to do leads to the same database after every step of a run, but between the batch of a
migration and its record (`Consistent`). A run that is interrupted there applies the migration again, so
the next run recovers where that has no effect (`recovers_of_repeatable`).
-/

namespace HeadlessErp

namespace MigrationRunner
variable {S D : Type} {W : MigrationRunner S D} {target : D} {s s' : MigrationState S D}
  {m : Migration S} {rest : List (Migration S)} {done : List String}

/-! ## What is left to do -/

/-- Where a run has come, what is left to do leads to `target`. -/
def Consistent (W : MigrationRunner S D) (target : D) (s : MigrationState S D) : Prop :=
  match s.phase with
  | .batching m rest _ => s.recorded.isSome ∧ W.pending s = m :: rest ∧
    W.cleanRun (m :: rest) s.db = some target
  | .seeding m rest _ => s.recorded.isSome ∧ W.pending s = m :: rest ∧ m.name = usersMigration ∧
    (W.exec W.seedAdmin s.db).bind (W.cleanRun rest) = some target
  | .recording m rest _ => s.recorded.isSome ∧ W.pending s = m :: rest ∧
    W.cleanRun rest s.db = some target
  | .reading => s.recorded.isSome ∧ W.cleanRun (W.pending s) s.db = some target
  | _ => W.cleanRun (W.pending s) s.db = some target

/-- What holds in every run whose steps are repeatable. -/
structure RecoveryInvariant (W : MigrationRunner S D) (target : D) (s : MigrationState S D) : Prop where
  consistent : W.Consistent target s
  running : s.phase.atRest = false → s.ready = false
  ready : s.ready = true → W.pending s = []

theorem cleanRun_cons (m : Migration S) (rest : List (Migration S)) (db : D) :
    W.cleanRun (m :: rest) db = (W.applyMigration m db).bind (W.cleanRun rest) :=
  List.foldlM_cons

/-- The record of the first migration that is pending leaves the others. -/
theorem pending_record {names : List String} (hnames : s.recorded = some names)
    (hpending : W.pending s = m :: rest) (hrecorded : s'.recorded = some (names ++ [m.name])) :
    W.pending s' = rest := by
  have hsplit : W.pending s' = (W.pending s).filter fun m' => m'.name ≠ m.name := by
    rw [pending, pending, hnames, hrecorded, List.filter_filter]
    refine List.filter_congr fun m' _ => ?_
    simp [and_comm]
  have hdistinct : ((m :: rest).map (·.name)).Nodup := by
    rw [← hpending]
    exact W.distinct.sublist (List.filter_sublist.map _)
  have hfresh := (List.nodup_cons.1 hdistinct).1
  rw [hsplit, hpending, List.filter_cons_of_neg (by simp), List.filter_eq_self]
  intro m' hm'
  exact decide_eq_true fun heq => hfresh (List.mem_map.2 ⟨m', hm', heq⟩)

/-! ## Steps -/

theorem RecoveryInvariant.goOn (h : W.cleanRun rest s.db = some target)
    (hpending : W.pending s = rest) (hrecorded : s.recorded.isSome) (hready : s.ready = false) :
    RecoveryInvariant W target (s.goOn done rest) := by
  cases rest with
  | nil =>
    refine ⟨?_, nofun, fun _ => hpending⟩
    show W.cleanRun (W.pending s) s.db = some target
    rw [hpending]
    exact h
  | cons m rest =>
    refine ⟨⟨hrecorded, hpending, h⟩, fun _ => hready, fun htrue => ?_⟩
    cases hready.symm.trans htrue

/-- What is left to do where a run is interrupted. -/
theorem Consistent.interrupted (h : W.Consistent target s)
    (hrepeatable : W.Repeatable s .crash) : W.cleanRun (W.pending s) s.db = some target := by
  unfold Consistent at h
  unfold Repeatable at hrepeatable
  simp only at hrepeatable
  split at h
  · obtain ⟨-, hpending, hclean⟩ := h
    rw [hpending]
    exact hclean
  · next m rest done hph =>
    obtain ⟨-, hpending, husers, hclean⟩ := h
    rw [hph] at hrepeatable
    rw [hpending, cleanRun_cons, applyMigration, hrepeatable, Option.bind_some, if_pos husers]
    exact hclean
  · next m rest done hph =>
    obtain ⟨-, hpending, hclean⟩ := h
    rw [hph] at hrepeatable
    rw [hpending, cleanRun_cons, hrepeatable]
    exact hclean
  · exact h.2
  · exact h

theorem RecoveryInvariant.atRest (h : RecoveryInvariant W target s) (hrest : s.phase.atRest = true) :
    W.cleanRun (W.pending s) s.db = some target := by
  refine h.consistent.interrupted ?_
  unfold Repeatable
  cases hph : s.phase with
  | seeding => rw [hph] at hrest; cases hrest
  | recording => rw [hph] at hrest; cases hrest
  | _ => trivial

theorem RecoveryInvariant.begin (h : RecoveryInvariant W target s) (hrest : s.phase.atRest = true)
    (live : Bool) : RecoveryInvariant W target (s.begin live) := by
  have hclean := h.atRest hrest
  unfold MigrationState.begin
  split
  · exact ⟨hclean, nofun, h.ready⟩
  · exact ⟨hclean, fun _ => rfl, nofun⟩

theorem RecoveryInvariant.call (h : RecoveryInvariant W target s) (hcall : W.call s = some s') :
    RecoveryInvariant W target s' := by
  have hconsistent := h.consistent
  have hrunning := h.running
  unfold MigrationRunner.call at hcall
  cases hph : s.phase with
  | idle | returned | thrown =>
    rw [hph] at hcall
    cases hcall
  | ensuring =>
    simp only [Consistent, hph] at hconsistent hcall hrunning
    obtain rfl := Option.some.inj hcall
    exact ⟨⟨rfl, hconsistent⟩, fun _ => hrunning rfl, h.ready⟩
  | reading =>
    simp only [Consistent, hph] at hconsistent hcall hrunning
    obtain rfl := Option.some.inj hcall
    exact .goOn hconsistent.2 rfl hconsistent.1 (hrunning rfl)
  | batching m rest done =>
    simp only [Consistent, hph] at hconsistent hcall hrunning
    obtain ⟨hrecorded, hpending, hclean⟩ := hconsistent
    rw [cleanRun_cons, applyMigration] at hclean
    split at hcall
    · next hbatch =>
      rw [hbatch] at hclean
      cases hclean
    · next db hbatch =>
      rw [hbatch, Option.bind_some] at hclean
      obtain rfl := Option.some.inj hcall
      by_cases husers : m.name = usersMigration
      · rw [if_pos husers] at hclean ⊢
        exact ⟨⟨hrecorded, hpending, husers, hclean⟩, fun _ => hrunning rfl, h.ready⟩
      · rw [if_neg husers] at hclean ⊢
        exact ⟨⟨hrecorded, hpending, hclean⟩, fun _ => hrunning rfl, h.ready⟩
  | seeding m rest done =>
    simp only [Consistent, hph] at hconsistent hcall hrunning
    obtain ⟨hrecorded, hpending, husers, hclean⟩ := hconsistent
    split at hcall
    · next hseed =>
      rw [hseed] at hclean
      cases hclean
    · next db hseed =>
      rw [hseed, Option.bind_some] at hclean
      obtain rfl := Option.some.inj hcall
      exact ⟨⟨hrecorded, hpending, hclean⟩, fun _ => hrunning rfl, h.ready⟩
  | recording m rest done =>
    simp only [Consistent, hph] at hconsistent hcall hrunning
    obtain ⟨hrecorded, hpending, hclean⟩ := hconsistent
    split at hcall
    · next hnone =>
      rw [hnone] at hrecorded
      cases hrecorded
    · next names hnames =>
      obtain rfl := Option.some.inj hcall
      refine .goOn hclean (pending_record hnames hpending rfl) rfl ?_
      exact hrunning rfl

theorem RecoveryInvariant.step (h : RecoveryInvariant W target s) {a : MigrationAction}
    (hrepeatable : W.Repeatable s a) (hstep : W.step s a = some s') :
    RecoveryInvariant W target s' := by
  cases a with
  | begin live =>
    simp only [MigrationRunner.step] at hstep
    split at hstep
    · next hrest =>
      obtain rfl := Option.some.inj hstep
      exact h.begin hrest live
    · cases hstep
  | call failure =>
    cases failure with
    | none => exact h.call hstep
    | some e =>
      simp only [MigrationRunner.step] at hstep
      split at hstep
      · cases hstep
      · obtain rfl := Option.some.inj hstep
        exact ⟨h.consistent.interrupted hrepeatable, nofun, h.ready⟩
  | crash =>
    obtain rfl := Option.some.inj hstep
    exact ⟨h.consistent.interrupted hrepeatable, nofun, nofun⟩

/-! ## A run that is not interrupted -/

/-- The calls of a run go through to its end. -/
def Completes (W : MigrationRunner S D) (target : D) (s : MigrationState S D) : Prop :=
  ∃ n s' names, (W.system target).run s (List.replicate n (.call none)) = some s' ∧
    s'.phase = .returned names ∧ s'.db = target ∧ W.pending s' = []

theorem Completes.of_call (hcall : W.call s = some s') (h : W.Completes target s') :
    W.Completes target s := by
  obtain ⟨n, s'', names, hrun, hend⟩ := h
  refine ⟨n + 1, s'', names, ?_, hend⟩
  show ((W.call s).bind fun s => (W.system target).run s (List.replicate n (.call none))) = _
  rw [hcall]
  exact hrun

theorem call_batching {db : D} (hph : s.phase = .batching m rest done)
    (hbatch : W.batch m.up.flatten s.db = some db) :
    W.call s = some { s with
      db, phase := if m.name = usersMigration then .seeding m rest done else .recording m rest done } := by
  rw [MigrationRunner.call, hph]
  simp only [hbatch]

theorem call_seeding {db : D} (hph : s.phase = .seeding m rest done)
    (hseed : W.exec W.seedAdmin s.db = some db) :
    W.call s = some { s with db, phase := .recording m rest done } := by
  rw [MigrationRunner.call, hph]
  simp only [hseed]

theorem call_recording {names : List String} (hph : s.phase = .recording m rest done)
    (hnames : s.recorded = some names) :
    W.call s = some ({ s with recorded := some (names ++ [m.name]) }.goOn (done ++ [m.name]) rest) := by
  rw [MigrationRunner.call, hph]
  simp only [hnames]

/-- The loop, by the migrations that are left. -/
theorem completes_goOn (hclean : W.cleanRun rest s.db = some target) (hpending : W.pending s = rest)
    (hrecorded : s.recorded.isSome) : W.Completes target (s.goOn done rest) := by
  induction rest generalizing s done with
  | nil => exact ⟨0, _, done, rfl, rfl, Option.some.inj hclean, hpending⟩
  | cons m rest ih =>
    obtain ⟨names, hnames⟩ := Option.isSome_iff_exists.1 hrecorded
    rw [cleanRun_cons, applyMigration] at hclean
    obtain ⟨db, happly, hclean⟩ := Option.bind_eq_some_iff.1 hclean
    obtain ⟨db₁, hbatch, hseed⟩ := Option.bind_eq_some_iff.1 happly
    have hnext : W.Completes target
        ({ s with db, recorded := some (names ++ [m.name]) }.goOn (done ++ [m.name]) rest) :=
      ih hclean (pending_record hnames hpending rfl) rfl
    have hrecord : W.Completes target { s with db, phase := .recording m rest done } :=
      hnext.of_call (call_recording rfl hnames)
    split at hseed
    · next husers =>
      have hseeding : W.Completes target { s with db := db₁, phase := .seeding m rest done } :=
        hrecord.of_call (call_seeding rfl hseed)
      refine Completes.of_call (call_batching rfl hbatch) ?_
      rw [if_pos husers]
      exact hseeding
    · next husers =>
      obtain rfl := Option.some.inj hseed
      refine Completes.of_call (call_batching rfl hbatch) ?_
      rw [if_neg husers]
      exact hrecord

theorem RecoveryInvariant.recovers (h : RecoveryInvariant W target s)
    (hrest : s.phase.atRest = true) : W.Recovers s target := by
  intro live
  have hclean := h.atRest hrest
  have hcompletes : W.Completes target (s.begin live) := by
    unfold MigrationState.begin
    split
    · next hready =>
      have hpending := h.ready (Bool.and_eq_true_iff.1 hready).1
      rw [hpending] at hclean
      exact ⟨0, _, [], rfl, rfl, Option.some.inj hclean, hpending⟩
    · exact .of_call rfl (.of_call rfl (completes_goOn hclean rfl rfl))
  obtain ⟨n, s', names, hrun, hend⟩ := hcompletes
  refine ⟨n, s', names, ?_, hend⟩
  show ((W.step s (.begin live)).bind fun s => (W.system target).run s _) = _
  rw [MigrationRunner.step, if_pos hrest]
  exact hrun

/-- A run recovers from every interruption, where a migration that may have been applied and not been
recorded can be applied again without an effect. -/
theorem recovers_of_repeatable (h : (W.system target).Reach W.Repeatable s)
    (hrest : s.phase.atRest = true) : W.Recovers s target := by
  have hinvariant : RecoveryInvariant W target s := by
    refine h.invariant (fun s ⟨hidle, hready, hclean⟩ => ⟨?_, fun _ => hready, fun htrue => ?_⟩)
      fun _ _ _ hs hrepeatable hstep => hs.step hrepeatable hstep
    · simp only [Consistent, hidle]
      exact hclean
    · cases hready.symm.trans htrue
  exact hinvariant.recovers hrest

end MigrationRunner

/-! ## A column that is added -/

/-- The statements of a migration that adds a column. -/
inductive ColumnStatement where
  | addColumn (column : String)
  | seedRole

/-- `006c_schema_version_tracking`, on the columns of `_entity_schemas`. -/
def versionRunner : MigrationRunner ColumnStatement (List String) where
  migrations := [⟨"006c_schema_version_tracking", [[.addColumn "_schema_version"]]⟩]
  exec
    | .addColumn column, columns =>
      if columns.contains column then none else some (columns ++ [column])
    | .seedRole, columns => some columns
  seedAdmin := .seedRole
  distinct := List.nodup_cons.2 ⟨nofun, List.nodup_nil⟩

/-- Before the migration. -/
def unversioned : MigrationState ColumnStatement (List String) := ⟨["id", "slug"], none, false, .idle⟩

theorem unversioned_init :
    (versionRunner.system ["id", "slug", "_schema_version"]).init unversioned :=
  ⟨rfl, rfl, rfl⟩

/-- The isolate is lost between the batch and the record: the column is there, so the batch fails from
then on. -/
theorem unrecorded_migration_blocked :
    ¬ ∀ (S D : Type) (W : MigrationRunner S D) (target : D) (s : MigrationState S D),
        (W.system target).Reachable s → s.phase.atRest = true → W.Recovers s target := by
  intro h
  have hinit : (versionRunner.system ["id", "slug", "_schema_version"]).Reachable unversioned :=
    .init unversioned_init
  have hrun : ((versionRunner.system ["id", "slug", "_schema_version"]).run unversioned
      [.begin false, .call none, .call none, .call none, .crash]).isSome = true := rfl
  obtain ⟨n, s', names, hresult, hreturned, -⟩ :=
    h _ _ versionRunner _ _ (hinit.run (Option.some_get hrun).symm) rfl false
  match n with
  | 0 | 1 | 2 | 3 =>
    obtain rfl := Option.some.inj hresult
    cases hreturned
  | n + 4 => cases hresult

/-- The isolate is lost before the batch. -/
theorem recovers_of_repeatable_version : ∃ s,
    (versionRunner.system ["id", "slug", "_schema_version"]).Reach versionRunner.Repeatable s ∧
      s.recorded = some [] ∧ versionRunner.Recovers s ["id", "slug", "_schema_version"] := by
  have h₀ : (versionRunner.system ["id", "slug", "_schema_version"]).Reach versionRunner.Repeatable
      unversioned := .init unversioned_init
  have h₁ := h₀.step (a := .begin false) (by exact trivial) rfl
  have h₂ := h₁.step (a := .call none) (by exact trivial) rfl
  have h₃ := h₂.step (a := .call none) (by exact trivial) rfl
  have h₄ := h₃.step (a := .crash) (by exact trivial) rfl
  exact ⟨_, h₄, rfl, MigrationRunner.recovers_of_repeatable h₄ rfl⟩

end HeadlessErp
