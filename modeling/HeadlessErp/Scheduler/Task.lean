import Mathlib.Algebra.Order.Ring.Int
import HeadlessErp.Base.Except
import HeadlessErp.Entity.Row

/-!
# Scheduled tasks

The rows of `_scheduler_tasks` and the statements that write them, of
`packages/scheduler/src/service.ts`. Times are milliseconds of the epoch; the texts the table keeps
of them are read back as the same times. The handlers and the occurrences of a cron expression are
parameters.
-/

namespace HeadlessErp

/-! ## Data -/

/-- A `TaskStatus`. -/
inductive TaskStatus where
  | pending
  | done
  | failed
  | cancelled
  deriving DecidableEq, Repr

/-- A `ScheduledTask`, without its id. -/
structure ScheduledTask where
  type : String
  name : Option String
  payloadJson : String
  status : TaskStatus
  runAt : Int
  repeatMs : Option Int
  cron : Option String
  timezone : String
  maxAttempts : Nat
  attempts : Nat
  runCount : Nat
  lastError : Option String
  lastResult : Option String
  lastRunAt : Option Int
  completedAt : Option Int
  createdAt : Int
  updatedAt : Int
  deriving DecidableEq, Repr

/-- The `payload` of a request: absent, no object, or an object, by its JSON text. -/
inductive PayloadInput where
  | absent
  | notObject
  | object (json : String)

/-- A `ScheduleInput` for a given id. A `runAt` that is no time is `some none`. -/
structure ScheduleInput where
  type : Option String
  name : Option String := none
  payload : PayloadInput := .absent
  runAt : Option (Option Int) := none
  delayMs : Option Int := none
  repeatMs : Option Int := none
  cron : Option String := none
  timezone : Option String := none
  maxAttempts : Option Rat := none

/-- What the worker provides: the registered handlers, the reader of their payloads, which may
throw, and the cron expressions, whose evaluation may throw in a timezone. -/
structure TaskRuntime where
  hasHandler : String → Bool
  payloadError : String → Option String
  isValidCron : String → Bool
  isValidTimeZone : String → Bool
  nextCronRun : String → Int → Except String (Option Int)
  nextCronRunInTz : String → String → Int → Except String (Option Int)

/-! ## Scheduling -/

def schedulerDefaultMaxAttempts : Nat := 5

def schedulerBackoffBaseMs : Int := 30000

def schedulerBackoffCapMs : Int := 3600000

/-- `schedulerBackoffMs`: half a minute, doubled for each attempt up to an hour. -/
def schedulerBackoffMs (attempts : Nat) : Int :=
  if attempts ≤ 1 then schedulerBackoffBaseMs
  else min schedulerBackoffCapMs (schedulerBackoffBaseMs * 2 ^ (attempts - 1))

/-- `new Date(ms).toISOString()`, which throws for a time that no date has. -/
def toISOString (ms : Int) : Except String Int :=
  if ms.natAbs ≤ 8640000000000000 then .ok ms else .error "Invalid time value"

namespace TaskRuntime
variable (R : TaskRuntime)

/-- The checks of `schedule`; the handler's name. -/
def checkInput (input : ScheduleInput) : Except String String := do
  let type := (input.type.map jsTrim).getD ""
  if type = "" then
    .error "type is required — the registered handler name"
  if input.maxAttempts.any fun m => m < 1 || m.den ≠ 1 then
    .error "maxAttempts must be a positive integer"
  if input.payload matches .notObject then
    .error "payload must be an object"
  if let some cron := input.cron then
    if !R.isValidCron cron then .error s!"invalid cron expression \"{cron}\""
  if let some tz := input.timezone then
    if !R.isValidTimeZone tz then
      .error s!"invalid timezone \"{tz}\" — expected an IANA name like \"Asia/Yangon\""
  if !R.hasHandler type then
    .error s!"no handler registered for type \"{type}\" — registerHandler() it first"
  .ok type

/-- The `timezone` of a new task. -/
def timezone (input : ScheduleInput) : String :=
  match (input.timezone.map jsTrim).getD "" with
  | "" => "UTC"
  | tz => tz

/-- The first run: at `runAt`, else at the next occurrence of `cron`, else after `delayMs`. -/
def firstRun (input : ScheduleInput) (now : Int) : Except String Int := do
  let delayed := now + input.delayMs.getD 0
  match input.runAt with
  | some (some ms) => .ok ms
  | some none => .error "invalid runAt — expected an ISO string or epoch ms"
  | none =>
    match input.cron.filter (· ≠ "") with
    | some cron =>
      let tz := timezone input
      let next ← if tz = "UTC" then R.nextCronRun cron delayed
        else R.nextCronRunInTz cron tz delayed
      .ok (next.getD delayed)
    | none => .ok delayed

/-- The row that `schedule` inserts. -/
def newTask (input : ScheduleInput) (now : Int) : Except String ScheduledTask := do
  let type ← R.checkInput input
  let runAt ← (R.firstRun input now).bind toISOString
  .ok {
    type
    name := input.name.map jsTrim
    payloadJson := match input.payload with
      | .object json => json
      | _ => "\x7b\x7d"
    status := .pending
    runAt
    repeatMs := input.repeatMs
    cron := input.cron.map jsTrim
    timezone := timezone input
    maxAttempts := match input.maxAttempts with
      | some m => m.num.toNat
      | none => schedulerDefaultMaxAttempts
    attempts := 0
    runCount := 0
    lastError := none
    lastResult := none
    lastRunAt := none
    completedAt := none
    createdAt := now
    updatedAt := now }

end TaskRuntime

namespace ScheduledTask

/-- The upsert of `schedule`: a row that is there keeps what the conflict clause leaves out. -/
def upsert (row : Option ScheduledTask) (task : ScheduledTask) : ScheduledTask :=
  match row with
  | none => task
  | some row =>
    { task with runCount := row.runCount, lastResult := row.lastResult,
                lastRunAt := row.lastRunAt, createdAt := row.createdAt }

@[simp] theorem upsert_runAt (row : Option ScheduledTask) (task : ScheduledTask) :
    (upsert row task).runAt = task.runAt := by
  cases row <;> rfl

/-- The UPDATE of `cancel`. -/
def cancel (row : ScheduledTask) (now : Int) : ScheduledTask :=
  { row with status := .cancelled, updatedAt := now }

/-- The UPDATE of `retry`. -/
def retry (row : ScheduledTask) (now : Int) : ScheduledTask :=
  { row with status := .pending, attempts := 0, lastError := none, runAt := now, updatedAt := now }

/-- `computeNextRun`: the cron expression, else the interval; none for a task that runs once. -/
def computeNextRun (R : TaskRuntime) (task : ScheduledTask) (now : Int) :
    Except String (Option Int) :=
  match task.cron.filter (· ≠ "") with
  | some cron =>
    if task.timezone ≠ "" ∧ task.timezone ≠ "UTC" then R.nextCronRunInTz cron task.timezone now
    else R.nextCronRun cron now
  | none =>
    match task.repeatMs with
    | some ms => .ok (if 0 < ms then some (now + ms) else none)
    | none => .ok none

/-- How a run ends: with a result and the time of the next run, if there is one, or with an error. -/
inductive Completion where
  | again (nextMs : Int) (result : Option String)
  | finished (result : Option String)
  | failed (error : String)

/-- What `runTask` makes of what its handler returned or threw. -/
def completionOf (R : TaskRuntime) (task : ScheduledTask) (now : Int) :
    Except String (Option String) → Completion
  | .error e => .failed e
  | .ok result =>
    match computeNextRun R task now with
    | .error e => .failed e
    | .ok none => .finished result
    | .ok (some ms) =>
      match toISOString ms with
      | .error e => .failed e
      | .ok nextMs => .again nextMs result

/-- The attempts are used up by the one that was made. -/
def exhausted (task : ScheduledTask) : Bool := task.maxAttempts ≤ task.attempts + 1

/-- The next run after an attempt at `now` has failed. -/
def retryAt (task : ScheduledTask) (now : Int) : Int :=
  now + schedulerBackoffMs (task.attempts + 1)

/-- The time a completion sets for the next run. `task` is the row as the run read it. -/
def nextRunAt (task : ScheduledTask) (now : Int) : Completion → Option Int
  | .again nextMs _ => some nextMs
  | .finished _ => none
  | .failed _ => if task.exhausted then none else some (task.retryAt now)

/-- The UPDATE of a completion. `task` is the row as the run read it, `row` the row it updates. -/
def complete (task row : ScheduledTask) (now : Int) : Completion → ScheduledTask
  | .again nextMs result =>
    { row with status := .pending, runAt := nextMs, attempts := 0, lastError := none,
               lastResult := result, lastRunAt := some now, runCount := row.runCount + 1,
               updatedAt := now }
  | .finished result =>
    { row with status := .done, lastResult := result, lastRunAt := some now,
               completedAt := some now, runCount := row.runCount + 1, updatedAt := now }
  | .failed error =>
    { row with status := .failed, attempts := task.attempts + 1, lastError := some error,
               runAt := if task.exhausted then row.runAt else task.retryAt now,
               lastRunAt := some now, updatedAt := now }

/-- A completion leaves the run time, or sets the one it says. -/
theorem complete_runAt (task row : ScheduledTask) (now : Int) (c : Completion) :
    (complete task row now c).runAt = (task.nextRunAt now c).getD row.runAt := by
  cases c with
  | again | finished => rfl
  | failed error =>
    show (if task.exhausted then row.runAt else task.retryAt now) =
      (if task.exhausted then none else some (task.retryAt now)).getD row.runAt
    split <;> rfl

end ScheduledTask

end HeadlessErp
