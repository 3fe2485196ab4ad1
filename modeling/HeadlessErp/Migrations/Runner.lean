import HeadlessErp.Base.Transition

/-!
# The migration runner

`MigrationRunner.runPending` of `packages/core/src/db/migrations.ts`, with one step for each call of the
database. What the statements of a migration do to the database is a parameter; a batch is atomic. The rows
of `_migrations` are kept apart from the rest of the database.
-/

namespace HeadlessErp

/-! ## Runs -/

/-- A `Migration`. A statement that is not in a list is a list of its own. -/
structure Migration (S : Type) where
  name : String
  up : List (List S)

/-- How far a run has come. -/
inductive MigrationPhase (S : Type) where
  | idle
  | ensuring
  | reading
  | batching (m : Migration S) (rest : List (Migration S)) (done : List String)
  | seeding (m : Migration S) (rest : List (Migration S)) (done : List String)
  | recording (m : Migration S) (rest : List (Migration S)) (done : List String)
  | returned (names : List String)
  | thrown (error : String)

/-- The database, the names in `_migrations` where there is the table, `__MIGRATIONS_INIT__`, and the run. -/
structure MigrationState (S D : Type) where
  db : D
  recorded : Option (List String)
  ready : Bool
  phase : MigrationPhase S

/-- A run begins, one of its calls of the database is made, which may fail, or its isolate is lost. -/
inductive MigrationAction where
  | begin (live : Bool)
  | call (failure : Option String)
  | crash

/-- The migrations, what a statement does to the database unless it fails, and the one that seeds the admin
role. -/
structure MigrationRunner (S D : Type) where
  migrations : List (Migration S)
  exec : S → D → Option D
  seedAdmin : S
  /-- The migrations are recorded by their names. -/
  distinct : (migrations.map (·.name)).Nodup

/-- The migration after which the admin role is seeded. -/
def usersMigration : String := "002_users_and_permissions"

/-- No run is going on. -/
def MigrationPhase.atRest {S : Type} : MigrationPhase S → Bool
  | idle | returned _ | thrown _ => true
  | _ => false

namespace MigrationState
variable {S D : Type} (s : MigrationState S D)

/-- A run enters a phase. -/
def enter (ph : MigrationPhase S) : MigrationState S D := { s with phase := ph }

/-- The loop of a run. -/
def goOn (done : List String) : List (Migration S) → MigrationState S D
  | [] => { s with ready := true, phase := .returned done }
  | m :: rest => s.enter (.batching m rest done)

/-- The beginning of `runPending`, up to its first call. A database that is not live is taken for wiped. -/
def begin (live : Bool) : MigrationState S D :=
  if s.ready && live then s.enter (.returned [])
  else { s with ready := false, phase := .ensuring }

end MigrationState

namespace MigrationRunner
variable {S D : Type} (W : MigrationRunner S D) (s : MigrationState S D)

/-- `db.batch`. -/
def batch (statements : List S) (db : D) : Option D :=
  statements.foldlM (fun db statement => W.exec statement db) db

/-- The migrations whose names are not recorded. -/
def pending : List (Migration S) := W.migrations.filter fun m => m.name ∉ s.recorded.getD []

/-- A call of the database that is not failed from outside. -/
def call : Option (MigrationState S D) :=
  match s.phase with
  | .ensuring => some { s with recorded := some (s.recorded.getD []), phase := .reading }
  | .reading => some (s.goOn [] (W.pending s))
  | .batching m rest done =>
    match W.batch m.up.flatten s.db with
    | none => some (s.enter (.thrown s!"migration {m.name} failed"))
    | some db =>
      let next := if m.name = usersMigration then .seeding m rest done else .recording m rest done
      some { s with db, phase := next }
  | .seeding m rest done =>
    match W.exec W.seedAdmin s.db with
    | none => some (s.enter (.thrown "seed failed"))
    | some db => some { s with db, phase := .recording m rest done }
  | .recording m rest done =>
    match s.recorded with
    | none => some (s.enter (.thrown "no such table: _migrations"))
    | some names =>
      some ({ s with recorded := some (names ++ [m.name]) }.goOn (done ++ [m.name]) rest)
  | .idle | .returned _ | .thrown _ => none

/-- A step. A batch that fails leaves nothing behind. -/
def step : MigrationAction → Option (MigrationState S D)
  | .begin live => if s.phase.atRest then some (s.begin live) else none
  | .call none => W.call s
  | .call (some e) => if s.phase.atRest then none else some (s.enter (.thrown e))
  | .crash => some { s with ready := false, phase := .idle }

/-! ## The property -/

/-- A migration that is not interrupted, with the seed. -/
def applyMigration (m : Migration S) (db : D) : Option D :=
  (W.batch m.up.flatten db).bind fun db =>
    if m.name = usersMigration then W.exec W.seedAdmin db else some db

/-- Each migration once, in their order. -/
def cleanRun (ms : List (Migration S)) (db : D) : Option D :=
  ms.foldlM (fun db m => W.applyMigration m db) db

/-- A fresh isolate, on a database that the migrations which are not recorded yet lead to `target`. -/
def system (target : D) : System (MigrationState S D) MigrationAction where
  init s := s.phase = .idle ∧ s.ready = false ∧ W.cleanRun (W.pending s) s.db = some target
  step := W.step

/-- The next run succeeds if it is not interrupted, after each migration has been applied once. -/
def Recovers (target : D) : Prop :=
  ∀ live, ∃ n s' names,
    (W.system target).run s (.begin live :: List.replicate n (.call none)) = some s' ∧
      s'.phase = .returned names ∧ s'.db = target ∧ W.pending s' = []

/-- The condition on a step: a run is interrupted between the batch of a migration and its record only
where the migration could be applied again without an effect. -/
def Repeatable : MigrationAction → Prop
  | .crash | .call (some _) =>
    match s.phase with
    | .seeding m _ _ => W.batch m.up.flatten s.db = some s.db
    | .recording m _ _ => W.applyMigration m s.db = some s.db
    | _ => True
  | _ => True

end MigrationRunner

end HeadlessErp
