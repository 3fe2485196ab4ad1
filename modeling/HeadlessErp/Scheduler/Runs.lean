import Mathlib.Logic.Function.Basic
import HeadlessErp.Base.Transition
import HeadlessErp.Scheduler.Task

/-!
# Runs of a task

The calls of `SchedulerService` and of `runTask` on one task, its row, and the alarm of its Durable
Object. A step is one statement, one alarm request, or the beginning or the end of the handler. The
gate of the object does not hold back other requests while a run waits for the database, so the
steps of all calls come in any order.
-/

namespace HeadlessErp

/-! ## The code -/

/-- Who asks for a run. -/
inductive RunVia where
  | alarm
  | manual
  deriving DecidableEq

/-- The calls on a task: those of the service, a run, and the watchdog's `reconcile`. -/
inductive TaskCall where
  | schedule (input : ScheduleInput)
  | cancel
  | retry
  | run (via : RunVia)
  | reconcile

/-- `skipped` of a `RunOutcome`. -/
inductive RunSkip where
  | notFound
  | notDue
  | cancelled
  | done

/-- A `RunOutcome`. -/
structure RunOutcome where
  status : TaskStatus
  attempts : Nat
  runCount : Nat
  nextRunAt : Option Int
  result : Option String := none
  error : Option String := none
  skipped : Option RunSkip := none

/-- What a call returns. -/
inductive TaskAnswer where
  | task (row : ScheduledTask)
  | found (ok : Bool)
  | ran (outcome : RunOutcome)
  | armed (n : Nat)

/-- What a run has read: the time it began, the number of `schedule` statements that were before,
and the row. -/
structure RunSnapshot where
  now : Int
  seen : Nat
  task : ScheduledTask

open ScheduledTask (Completion)

/-- How far a call has come. -/
inductive TaskPhase where
  | idle
  | upserted (runAt : Int)
  | armed
  | cancelling
  | disarming
  | retrying
  | rearming
  | reconciling (runAt : Int)
  | skipping (alarm : Option Int) (outcome : RunOutcome)
  | loaded (p : RunSnapshot)
  | running (p : RunSnapshot)
  | handled (p : RunSnapshot) (c : Completion)
  | settling (p : RunSnapshot) (c : Completion)
  | returned (answer : TaskAnswer)
  | thrown (error : String)

/-- The call has returned. -/
def TaskPhase.hasReturned : TaskPhase → Bool
  | returned _ => true
  | _ => false

/-- The steps of a call: a statement or an alarm request may fail with an error. -/
inductive TaskStep where
  | begin (now : Int)
  | start
  | finish (result : Except String (Option String))
  | write (failure : Option String) (now : Int)
  | alarm (failure : Option String) (now : Int)
  | read

/-- A run time that a `schedule` has set, with the number of its statement. -/
structure RunTimeSet (ι : Type) where
  caller : ι
  runAt : Int
  stamp : Nat

/-- The row, the alarm and the calls. Beside them, the number of `schedule` statements so far; the
`cancel` that has written since the last `schedule` and the last `retry` that went on; the last
`schedule`, unless a `retry` or a later occurrence has set another run time; and whether a handler
was started after a `cancel` had returned. -/
structure TaskState (ι : Type) where
  row : Option ScheduledTask
  alarm : Option Int
  phase : ι → TaskPhase
  stamp : Nat
  cancelled : Option ι
  scheduled : Option (RunTimeSet ι)
  ranCancelled : Bool

/-- A step of a call, or `prune`. -/
inductive TaskAction (ι : Type) where
  | call (i : ι) (a : TaskStep)
  | prune (cutoff : Int)

/-- The calls on one task. -/
structure TaskCalls (ι : Type) where
  runtime : TaskRuntime
  calls : ι → TaskCall

/-- The outcome of a completion. -/
def RunSnapshot.outcome (p : RunSnapshot) (c : Completion) : RunOutcome :=
  let next := p.task.nextRunAt p.now c
  match c with
  | .again _ result => ⟨.pending, 0, p.task.runCount + 1, next, result, none, none⟩
  | .finished result => ⟨.done, p.task.attempts + 1, p.task.runCount + 1, next, result, none, none⟩
  | .failed e => ⟨.failed, p.task.attempts + 1, p.task.runCount, next, none, some e, none⟩

namespace TaskState
variable {ι : Type} [DecidableEq ι] (s : TaskState ι)

/-- A call enters a phase. -/
def enter (i : ι) (ph : TaskPhase) : TaskState ι :=
  { s with phase := Function.update s.phase i ph }

/-- The statement of `schedule`. -/
def upsert (i : ι) (task : ScheduledTask) : TaskState ι :=
  { s with row := some (ScheduledTask.upsert s.row task), stamp := s.stamp + 1, cancelled := none,
           scheduled := some ⟨i, task.runAt, s.stamp + 1⟩ }

/-- The UPDATE of `cancel`. -/
def cancel (i : ι) (now : Int) : TaskState ι :=
  { s with row := s.row.map (·.cancel now), cancelled := some i }

/-- The UPDATE of `retry`. -/
def retry (now : Int) : TaskState ι :=
  { s with row := s.row.map (·.retry now), scheduled := none }

/-- The UPDATE of a completion. -/
def complete (p : RunSnapshot) (c : Completion) : TaskState ι :=
  { s with
    row := s.row.map (p.task.complete · p.now c)
    scheduled := s.scheduled.filter fun d => (p.task.nextRunAt p.now c).isNone || p.seen < d.stamp }

/-- The handler starts. -/
def startHandler : TaskState ι :=
  { s with ranCancelled := s.ranCancelled || s.cancelled.any fun j => (s.phase j).hasReturned }

/-- What a run does with the row it has read. -/
def load (i : ι) (via : RunVia) (now : Int) : TaskState ι :=
  match s.row with
  | none => s.enter i (.returned (.ran ⟨.cancelled, 0, 0, none, none, none, some .notFound⟩))
  | some task =>
    let skipped (next : Option Int) (why : RunSkip) : RunOutcome :=
      ⟨task.status, task.attempts, task.runCount, next, none, none, some why⟩
    match task.status with
    | .done => s.enter i (.skipping none (skipped none .done))
    | .cancelled => s.enter i (.skipping none (skipped none .cancelled))
    | _ =>
      if via = .alarm ∧ now < task.runAt then
        s.enter i (.skipping (some task.runAt) (skipped (some task.runAt) .notDue))
      else s.enter i (.loaded ⟨now, s.stamp, task⟩)

/-- An error after the handler has ended: a success becomes a failure, and a failure is thrown. -/
def afterError (i : ι) (p : RunSnapshot) (c : Completion) (e : String) : TaskState ι :=
  match c with
  | .failed _ => s.enter i (.thrown e)
  | _ => s.enter i (.handled p (.failed e))

/-- An UPDATE of a call. -/
def write (i : ι) (failure : Option String) (now : Int) : Option (TaskState ι) :=
  match s.phase i, failure with
  | .cancelling, none => some ((s.cancel i now).enter i .disarming)
  | .retrying, none => some ((s.retry now).enter i .rearming)
  | .handled p c, none => some ((s.complete p c).enter i (.settling p c))
  | .cancelling, some e => some (s.enter i (.thrown e))
  | .retrying, some e => some (s.enter i (.thrown e))
  | .handled p c, some e => some (s.afterError i p c e)
  | _, _ => none

/-- An alarm request of a call. The service goes on where its own fail. -/
def requestAlarm (i : ι) (failure : Option String) (now : Int) : Option (TaskState ι) :=
  let set (alarm : Option Int) : TaskState ι :=
    if failure.isNone then { s with alarm } else s
  match s.phase i with
  | .upserted runAt => some ((set (some runAt)).enter i .armed)
  | .disarming => some ((set none).enter i (.returned (.found true)))
  | .rearming => some ((set (some now)).enter i (.returned (.found true)))
  | .reconciling runAt =>
    some ((set (some runAt)).enter i (.returned (.armed (if failure.isNone then 1 else 0))))
  | .skipping target outcome =>
    match failure with
    | none => some ((set target).enter i (.returned (.ran outcome)))
    | some e => some (s.enter i (.thrown e))
  | .settling p c =>
    match failure with
    | none => some ((set (p.task.nextRunAt p.now c)).enter i (.returned (.ran (p.outcome c))))
    | some e => some (s.afterError i p c e)
  | _ => none

end TaskState

namespace TaskCalls
variable {ι : Type} [DecidableEq ι] (T : TaskCalls ι)

/-- The first statement of a call. -/
def begin (s : TaskState ι) (i : ι) (now : Int) : Option (TaskState ι) :=
  match T.calls i with
  | .schedule input =>
    match T.runtime.newTask input now with
    | .error e => some (s.enter i (.thrown e))
    | .ok task => some ((s.upsert i task).enter i (.upserted task.runAt))
  | .cancel =>
    match s.row with
    | none => some (s.enter i (.returned (.found false)))
    | some _ => some (s.enter i .cancelling)
  | .retry =>
    if s.row.any (·.status = .failed) then
      some ({ s with cancelled := none }.enter i .retrying)
    else some (s.enter i (.returned (.found false)))
  | .run .manual => some (s.load i .manual now)
  | .run .alarm =>
    if s.alarm.any (· ≤ now) then some ({ s with alarm := none }.load i .alarm now) else none
  | .reconcile =>
    match s.row.filter fun row => (row.status = .pending ∨ row.status = .failed) ∧
        row.attempts < row.maxAttempts ∧ row.runAt ≤ now with
    | none => some (s.enter i (.returned (.armed 0)))
    | some row => some (s.enter i (.reconciling row.runAt))

/-- The run that has read its row starts the handler. -/
def start (s : TaskState ι) (i : ι) (p : RunSnapshot) : TaskState ι :=
  if T.runtime.hasHandler p.task.type then
    match T.runtime.payloadError p.task.payloadJson with
    | some e => s.enter i (.handled p (.failed e))
    | none => s.startHandler.enter i (.running p)
  else s.enter i (.handled p (.failed s!"no handler registered for type \"{p.task.type}\""))

/-- One step of one call. -/
def stepCall (s : TaskState ι) (i : ι) : TaskStep → Option (TaskState ι)
  | .begin now =>
    match s.phase i with
    | .idle => T.begin s i now
    | _ => none
  | .start =>
    match s.phase i with
    | .loaded p => some (T.start s i p)
    | _ => none
  | .finish result =>
    match s.phase i with
    | .running p =>
      some (s.enter i (.handled p (p.task.completionOf T.runtime p.now result)))
    | _ => none
  | .write failure now => s.write i failure now
  | .alarm failure now => s.requestAlarm i failure now
  | .read =>
    match s.phase i, s.row with
    | .armed, some row => some (s.enter i (.returned (.task row)))
    | .armed, none => some (s.enter i (.thrown "task row missing after schedule"))
    | _, _ => none

/-- The calls, before any of them has begun. -/
def system : System (TaskState ι) (TaskAction ι) where
  init s := (∀ i, s.phase i = .idle) ∧ s.stamp = 0 ∧ s.cancelled = none ∧ s.scheduled = none ∧
    s.ranCancelled = false
  step s
    | .call i a => T.stepCall s i a
    | .prune cutoff => some { s with row := s.row.filter fun row =>
        ¬ ((row.status = .done ∨ row.status = .cancelled) ∧ row.updatedAt < cutoff) }

/-- No handler was started after a `cancel` had returned; the row is neither pending nor done once
the `cancel` has returned; and the row has the run time that a `schedule` has set and returned. -/
structure Effective (s : TaskState ι) : Prop where
  notRun : s.ranCancelled = false
  cancelled : ∀ i row, s.cancelled = some i → (s.phase i).hasReturned = true → s.row = some row →
    row.status ≠ .pending ∧ row.status ≠ .done
  scheduled : ∀ d row, s.scheduled = some d → (s.phase d.caller).hasReturned = true →
    s.row = some row → row.runAt = d.runAt

/-- The condition on a step: no `cancel` has written when a handler starts, when a `retry` writes
and when a run writes its completion; and a completion that sets a run time is of a run that has
read its row after the last `schedule`. -/
def Undisturbed (s : TaskState ι) : TaskAction ι → Prop
  | .call _ .start => s.cancelled = none
  | .call i (.write none _) =>
    match s.phase i with
    | .retrying => s.cancelled = none
    | .handled p c => s.cancelled = none ∧
      ∀ d, s.scheduled = some d → (p.task.nextRunAt p.now c).isSome = true → d.stamp ≤ p.seen
    | _ => True
  | _ => True

/-! ## What a step does -/

/-- Two states differ in the alarm and the phases of the calls only. -/
structure SameTask (s s' : TaskState ι) : Prop where
  row : s'.row = s.row
  cancelled : s'.cancelled = s.cancelled
  scheduled : s'.scheduled = s.scheduled
  ranCancelled : s'.ranCancelled = s.ranCancelled

/-- What a step of a call does, apart from the alarm and the phases. -/
inductive Effect (s : TaskState ι) (i : ι) : TaskStep → TaskState ι → Prop where
  | quiet {a : TaskStep} : Effect s i a s
  | upsert {task : ScheduledTask} {now : Int} : Effect s i (.begin now) (s.upsert i task)
  | cancel {now : Int} : Effect s i (.write none now) (s.cancel i now)
  | resume {now : Int} : Effect s i (.begin now) { s with cancelled := none }
  | retry {now : Int} : s.phase i = .retrying → Effect s i (.write none now) (s.retry now)
  | start : Effect s i .start s.startHandler
  | complete {p : RunSnapshot} {c : Completion} {now : Int} : s.phase i = .handled p c →
    Effect s i (.write none now) (s.complete p c)

theorem sameTask_enter (s : TaskState ι) (i : ι) (ph : TaskPhase) : SameTask s (s.enter i ph) :=
  ⟨rfl, rfl, rfl, rfl⟩

theorem sameTask_load (s : TaskState ι) (i : ι) (via : RunVia) (now : Int) :
    SameTask s (s.load i via now) := by
  unfold TaskState.load
  split
  · exact sameTask_enter s i _
  · dsimp only
    split
    · exact sameTask_enter s i _
    · exact sameTask_enter s i _
    · split
      · exact sameTask_enter s i _
      · exact sameTask_enter s i _

theorem sameTask_afterError (s : TaskState ι) (i : ι) (p : RunSnapshot) (c : Completion)
    (e : String) : SameTask s (s.afterError i p c e) := by
  unfold TaskState.afterError
  split
  · exact sameTask_enter s i _
  · exact sameTask_enter s i _

variable {T} {s s' : TaskState ι} {i : ι} {now : Int}

/-- The first statement of a call inserts or replaces the row, or reads it. -/
theorem begin_effect (h : T.begin s i now = some s') :
    ∃ t, Effect s i (.begin now) t ∧ SameTask t s' := by
  unfold begin at h
  split at h
  · split at h
    · cases h
      exact ⟨s, .quiet, sameTask_enter s i _⟩
    · cases h
      exact ⟨_, .upsert, sameTask_enter _ i _⟩
  · split at h
    · cases h
      exact ⟨s, .quiet, sameTask_enter s i _⟩
    · cases h
      exact ⟨s, .quiet, sameTask_enter s i _⟩
  · split at h
    · cases h
      exact ⟨_, .resume, sameTask_enter _ i _⟩
    · cases h
      exact ⟨s, .quiet, sameTask_enter s i _⟩
  · cases h
    exact ⟨s, .quiet, sameTask_load s i _ now⟩
  · split at h
    · cases h
      obtain ⟨hrow, hcancelled, hscheduled, hran⟩ :=
        sameTask_load { s with alarm := none } i .alarm now
      exact ⟨s, .quiet, hrow, hcancelled, hscheduled, hran⟩
    · cases h
  · split at h
    · cases h
      exact ⟨s, .quiet, sameTask_enter s i _⟩
    · cases h
      exact ⟨s, .quiet, sameTask_enter s i _⟩

/-- Where a run goes from the row it has read. -/
theorem start_effect (T : TaskCalls ι) (s : TaskState ι) (i : ι) (p : RunSnapshot) :
    ∃ t, Effect s i .start t ∧ SameTask t (T.start s i p) := by
  unfold start
  split
  · split
    · exact ⟨s, .quiet, sameTask_enter s i _⟩
    · exact ⟨_, .start, sameTask_enter _ i _⟩
  · exact ⟨s, .quiet, sameTask_enter s i _⟩

/-- An UPDATE is that of a `cancel`, of a `retry` or of a completion. -/
theorem write_effect {failure : Option String} (h : s.write i failure now = some s') :
    ∃ t, Effect s i (.write failure now) t ∧ SameTask t s' := by
  unfold TaskState.write at h
  split at h
  · cases h
    exact ⟨_, .cancel, sameTask_enter _ i _⟩
  · next hph =>
    cases h
    exact ⟨_, .retry hph, sameTask_enter _ i _⟩
  · next hph =>
    cases h
    exact ⟨_, .complete hph, sameTask_enter _ i _⟩
  · cases h
    exact ⟨s, .quiet, sameTask_enter s i _⟩
  · cases h
    exact ⟨s, .quiet, sameTask_enter s i _⟩
  · cases h
    exact ⟨s, .quiet, sameTask_afterError s i _ _ _⟩
  · cases h

/-- An alarm request leaves the row. -/
theorem requestAlarm_sameTask {failure : Option String}
    (h : s.requestAlarm i failure now = some s') : SameTask s s' := by
  have hset (alarm : Option Int) (ph : TaskPhase) :
      SameTask s ((if failure.isNone then { s with alarm } else s).enter i ph) := by
    split <;> exact ⟨rfl, rfl, rfl, rfl⟩
  unfold TaskState.requestAlarm at h
  dsimp only at h
  split at h
  · cases h
    exact hset _ _
  · cases h
    exact hset _ _
  · cases h
    exact hset _ _
  · cases h
    exact hset _ _
  · split at h
    · cases h
      exact hset _ _
    · cases h
      exact sameTask_enter s i _
  · split at h
    · cases h
      exact hset _ _
    · cases h
      exact sameTask_afterError s i _ _ _
  · cases h

/-- What a step of a call does. -/
theorem stepCall_effect {a : TaskStep} (h : T.stepCall s i a = some s') :
    ∃ t, Effect s i a t ∧ SameTask t s' := by
  cases a with
  | begin now =>
    simp only [stepCall] at h
    split at h
    · exact begin_effect h
    · cases h
  | start =>
    simp only [stepCall] at h
    split at h
    · cases h
      exact start_effect T s i _
    · cases h
  | finish result =>
    simp only [stepCall] at h
    split at h
    · cases h
      exact ⟨s, .quiet, sameTask_enter s i _⟩
    · cases h
  | write failure now => exact write_effect h
  | alarm failure now => exact ⟨s, .quiet, requestAlarm_sameTask h⟩
  | read =>
    simp only [stepCall] at h
    split at h
    · cases h
      exact ⟨s, .quiet, sameTask_enter s i _⟩
    · cases h
      exact ⟨s, .quiet, sameTask_enter s i _⟩
    · cases h

/-! ## The invariant -/

/-- What a `cancel` has written stands, and so does the run time of a `schedule`. -/
structure EffectiveInvariant (s : TaskState ι) : Prop where
  notRun : s.ranCancelled = false
  cancelled : ∀ i row, s.cancelled = some i → s.row = some row → row.status = .cancelled
  scheduled : ∀ d row, s.scheduled = some d → s.row = some row → row.runAt = d.runAt

omit [DecidableEq ι] in
theorem EffectiveInvariant.congr (h : EffectiveInvariant s) (hs : SameTask s s') :
    EffectiveInvariant s' where
  notRun := hs.ranCancelled ▸ h.notRun
  cancelled i row hi hrow := h.cancelled i row (hs.cancelled ▸ hi) (hs.row ▸ hrow)
  scheduled d row hd hrow := h.scheduled d row (hs.scheduled ▸ hd) (hs.row ▸ hrow)

omit [DecidableEq ι] in
/-- A step that meets the condition keeps the invariant. -/
theorem EffectiveInvariant.effect (h : EffectiveInvariant s) {a : TaskStep} {t : TaskState ι}
    (hp : Undisturbed s (.call i a)) (he : Effect s i a t) : EffectiveInvariant t := by
  cases he with
  | quiet => exact h
  | @upsert task =>
    refine ⟨h.notRun, fun j row hj => (Option.some_ne_none j hj.symm).elim,
      fun d row hd hrow => ?_⟩
    obtain rfl := Option.some.inj hd
    obtain rfl := Option.some.inj hrow
    exact ScheduledTask.upsert_runAt s.row task
  | cancel =>
    refine ⟨h.notRun, fun j row _ hrow => ?_, fun d row hd hrow => ?_⟩
    · obtain ⟨row, _, rfl⟩ := Option.map_eq_some_iff.1 hrow
      rfl
    · obtain ⟨old, hold, rfl⟩ := Option.map_eq_some_iff.1 hrow
      exact h.scheduled d old hd hold
  | resume =>
    exact ⟨h.notRun, fun j row hj => (Option.some_ne_none j hj.symm).elim, h.scheduled⟩
  | retry hph =>
    have hc : s.cancelled = none := by simpa only [Undisturbed, hph] using hp
    refine ⟨h.notRun, fun j row hj _ => ?_,
      fun d row hd => (Option.some_ne_none d hd.symm).elim⟩
    rw [show (s.retry _).cancelled = s.cancelled from rfl, hc] at hj
    cases hj
  | start =>
    refine ⟨?_, h.cancelled, h.scheduled⟩
    show (s.ranCancelled || s.cancelled.any fun j => (s.phase j).hasReturned) = false
    rw [h.notRun, show s.cancelled = none from hp]
    rfl
  | @complete p c _ hph =>
    obtain ⟨hc, hd⟩ : s.cancelled = none ∧ ∀ d, s.scheduled = some d →
        (p.task.nextRunAt p.now c).isSome = true → d.stamp ≤ p.seen := by
      simpa only [Undisturbed, hph] using hp
    refine ⟨h.notRun, fun j row hj _ => ?_, fun d row hsd hrow => ?_⟩
    · rw [show (s.complete p c).cancelled = s.cancelled from rfl, hc] at hj
      cases hj
    · obtain ⟨hsched, hkept⟩ := Option.filter_eq_some_iff.1 hsd
      obtain ⟨old, hold, rfl⟩ := Option.map_eq_some_iff.1 hrow
      -- a later occurrence that sets a run time has dropped the one of the `schedule`
      have hnext : p.task.nextRunAt p.now c = none := by
        cases hnext : p.task.nextRunAt p.now c with
        | none => rfl
        | some ms =>
          have hle := hd d hsched (by rw [hnext]; rfl)
          rw [hnext] at hkept
          have hlt : p.seen < d.stamp := by simpa using hkept
          omega
      rw [ScheduledTask.complete_runAt, hnext]
      exact h.scheduled d old hsched hold

/-- One step under the condition keeps the invariant. -/
theorem EffectiveInvariant.step {b : TaskAction ι} (h : EffectiveInvariant s)
    (hp : Undisturbed s b) (hstep : T.system.step s b = some s') : EffectiveInvariant s' := by
  cases b with
  | call i a =>
    obtain ⟨t, he, hs⟩ := stepCall_effect hstep
    exact (h.effect hp he).congr hs
  | prune cutoff =>
    cases hstep
    refine ⟨h.notRun, fun j row hj hrow => ?_, fun d row hd hrow => ?_⟩
    · exact h.cancelled j row hj (Option.filter_eq_some_iff.1 hrow).1
    · exact h.scheduled d row hd (Option.filter_eq_some_iff.1 hrow).1

end TaskCalls

/-! ## A cancelled run -/

/-- A runtime whose one handler reads every payload. -/
def sampleRuntime : TaskRuntime where
  hasHandler type := type == "mail"
  payloadError _ := none
  isValidCron _ := true
  isValidTimeZone _ := true
  nextCronRun _ _ := .ok none
  nextCronRunInTz _ _ _ := .ok none

/-- A task that is due at 0, and is repeated where it has an interval. -/
def mailTask (repeatMs : Option Int) : ScheduledTask where
  type := "mail"
  name := none
  payloadJson := "\x7b\x7d"
  status := .pending
  runAt := 0
  repeatMs := repeatMs
  cron := none
  timezone := "UTC"
  maxAttempts := 5
  attempts := 0
  runCount := 0
  lastError := none
  lastResult := none
  lastRunAt := none
  completedAt := none
  createdAt := 0
  updatedAt := 0

/-- Before the calls. -/
def mailState (repeatMs : Option Int) : TaskState Bool where
  row := some (mailTask repeatMs)
  alarm := some 0
  phase _ := .idle
  stamp := 0
  cancelled := none
  scheduled := none
  ranCancelled := false

theorem mailState_init (T : TaskCalls Bool) (repeatMs : Option Int) :
    T.system.init (mailState repeatMs) := ⟨fun _ => rfl, rfl, rfl, rfl, rfl⟩

/-- A run, and a call of the service beside it. -/
def runAnd (call : TaskCall) : TaskCalls Bool where
  runtime := sampleRuntime
  calls i := if i then .run .alarm else call

end HeadlessErp
