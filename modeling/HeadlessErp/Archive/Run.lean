import Mathlib.Logic.Function.Basic
import HeadlessErp.Base.Transition
import HeadlessErp.Entity.Store
import HeadlessErp.Js.Json

/-!
# Archive runs

`POST /run` of `apps/api/src/plugins/archive/plugin.ts`, call by call: for each enabled rule the
table of its collection is looked up, the rows that were trashed long enough ago are read, they are
stored in one R2 object, and then they are deleted one by one. Other requests write between any two
calls, and a run may stop after any of them.
-/

namespace HeadlessErp

inductive ArchiveAction where
  | moveToR2
  | delete
  deriving DecidableEq, Repr

/-- A row of `_archive_rules`. -/
structure ArchiveRule where
  collectionSlug : String
  retentionDays : Int
  action : ArchiveAction
  enabled : Bool
  deriving DecidableEq, Repr

section
variable {ι N : Type} [JsNumber N]

/-- A row of a table, by its primary key. -/
structure TableRow (N : Type) [JsNumber N] where
  row : Record N
  id : String
  id_eq : row.get? "id" = some (.str id)
  json : IsJson (.obj row)

/-- The rules, the names of the tables, and their rows. -/
structure ArchiveDb (N : Type) [JsNumber N] where
  rules : List ArchiveRule
  tableName : String → Option String
  rows : String → List (TableRow N)
  ids_nodup : ∀ table, ((rows table).map (·.id)).Nodup

/-- How far a run has come: the rules that are left, the rule at hand with its table, and the
records that are still to be stored or deleted. -/
inductive ArchivePhase (N : Type) [JsNumber N] where
  | start
  | next (rules : List ArchiveRule)
  | select (rule : ArchiveRule) (cutoff table : String) (rules : List ArchiveRule)
  | store (rule : ArchiveRule) (table : String) (records : List (TableRow N))
      (rules : List ArchiveRule)
  | delete (rule : ArchiveRule) (table : String) (records : List (TableRow N))
      (rules : List ArchiveRule)

/-- A row that a rule has removed from its table. -/
structure Removal (N : Type) [JsNumber N] where
  rule : ArchiveRule
  row : TableRow N

/-- The database, the objects of the bucket, and the runs with the rows they have removed. -/
structure ArchiveState (ι N : Type) [JsNumber N] where
  db : ArchiveDb N
  objects : String → Option String
  phase : ι → ArchivePhase N
  removed : List (Removal N)

/-- What a run takes from the worker: whether there is a bucket, its job id, and the day that lies
some days before a time. -/
structure ArchiveEnv (ι : Type) where
  r2 : Bool
  jobId : ι → String
  cutoff : Nat → Int → String

/-- `deleted_at IS NOT NULL AND deleted_at < ?`. Numbers come before texts. -/
def trashedBefore (cutoff : String) (row : Record N) : Bool :=
  match row.get "deleted_at" with
  | .str s => decide (s < cutoff)
  | .num _ | .bool _ => true
  | _ => false

/-- `schema?.table_name || '_entity_schemas'`. -/
def archivedTable (db : ArchiveDb N) (rule : ArchiveRule) : String :=
  ((db.tableName rule.collectionSlug).filter (· != "")).getD "_entity_schemas"

/-- The key of the object of a run. -/
def archiveKey (table jobId : String) : String := "archive/" ++ table ++ "/" ++ jobId ++ ".json"

/-- `JSON.stringify(records)`. -/
def archiveText (records : List (TableRow N)) : String :=
  ((JsVal.arr (records.map fun record => JsVal.obj record.row)).toJson).getD ""

/-- `DELETE FROM table WHERE id = ?`. -/
def ArchiveDb.deleteRow (db : ArchiveDb N) (table id : String) : ArchiveDb N :=
  { db with
    rows := Function.update db.rows table ((db.rows table).filter (·.id ≠ id))
    ids_nodup := fun table' => by
      by_cases h : table' = table
      · subst h
        rw [Function.update_self]
        exact (db.ids_nodup table').sublist (List.filter_sublist.map _)
      · rw [Function.update_of_ne h]
        exact db.ids_nodup table' }

/-- The state after the phase of a run has changed. -/
def ArchiveState.goto [DecidableEq ι] (s : ArchiveState ι N) (i : ι) (phase : ArchivePhase N) :
    ArchiveState ι N :=
  { s with phase := Function.update s.phase i phase }

/-- The next call of a run. -/
def archiveCall [DecidableEq ι] (E : ArchiveEnv ι) (s : ArchiveState ι N) (i : ι) (now : Nat) :
    Option (ArchiveState ι N) :=
  match s.phase i with
  | .start => some (s.goto i (.next (s.db.rules.filter (·.enabled))))
  | .next [] => none
  | .next (rule :: rules) =>
    some (s.goto i
      (.select rule (E.cutoff now rule.retentionDays) (archivedTable s.db rule) rules))
  | .select rule cutoff table rules =>
    let records := ((s.db.rows table).filter fun r => trashedBefore cutoff r.row).take 1000
    some (s.goto i (if rule.action = .moveToR2 ∧ E.r2 = true then .store rule table records rules
      else .delete rule table records rules))
  | .store rule table records rules =>
    some { s.goto i (.delete rule table records rules) with
      objects := Function.update s.objects (archiveKey table (E.jobId i))
        (some (archiveText records)) }
  | .delete _ _ [] rules => some (s.goto i (.next rules))
  | .delete rule table (record :: records) rules =>
    some { s.goto i (.delete rule table records rules) with
      db := s.db.deleteRow table record.id
      removed := s.removed ++
        ((s.db.rows table).filter (·.id = record.id)).map fun row => ⟨rule, row⟩ }

/-- The next call of a run, or a write of another request. -/
inductive ArchiveEvent (ι N : Type) [JsNumber N] where
  | run (i : ι) (now : Nat)
  | other (write : ArchiveDb N → ArchiveDb N)

/-- Any number of runs among the writes of other requests. -/
def archiveSystem [DecidableEq ι] (E : ArchiveEnv ι) :
    System (ArchiveState ι N) (ArchiveEvent ι N) where
  init s := (∀ i, s.phase i = .start) ∧ s.removed = []
  step s
    | .run i now => archiveCall E s i now
    | .other write => some { s with db := write s.db }

/-- An object of the bucket holds a row. -/
def Archived (objects : String → Option String) (row : Record N) : Prop :=
  ∃ key text records, objects key = some text ∧ Json.parse text = some (.arr records) ∧
    .obj row ∈ records

/-- A rule has read records that it has not deleted yet. -/
def Selected (s : ArchiveState ι N) (i : ι) (rule : ArchiveRule) (table : String)
    (records : List (TableRow N)) : Prop :=
  ∃ rules, s.phase i = .store rule table records rules ∨
    s.phase i = .delete rule table records rules

/-- A row that a rule may delete for a record it has read: it is in the trash, and a rule that moves
has stored it as it is. -/
def Untouched (rule : ArchiveRule) (record row : TableRow N) : Prop :=
  isLive row.row = false ∧ (rule.action = .moveToR2 → row.row = record.row)

/-- What keeps a run from losing a row. Other requests neither restore a row that was read nor, if
it is to be moved, change it. An object that holds records is not replaced. A rule that moves has a
bucket. -/
def SafeEvent (E : ArchiveEnv ι) (s : ArchiveState ι N) : ArchiveEvent ι N → Prop
  | .other write => ∀ i rule table records, Selected s i rule table records →
      ∀ record ∈ records, ∀ row ∈ (write s.db).rows table, row.id = record.id →
        Untouched rule record row
  | .run i _ =>
    match s.phase i with
    | .store _ table _ _ => ∀ text, s.objects (archiveKey table (E.jobId i)) = some text →
        (Json.parse text : Option (JsVal N)) = some (.arr [])
    | .delete rule _ (_ :: _) _ => rule.action = .moveToR2 → E.r2 = true
    | _ => True

end

end HeadlessErp
