import Mathlib.Logic.Function.Basic
import HeadlessErp.Base.Transition
import HeadlessErp.Outbox.Queue

/-!
# Runs of the outbox

The calls of `OutboxService` on its two tables. A step is one statement, or the end of an execution; a
call that takes no further step has crashed where it is.
-/

namespace HeadlessErp

/-! ## The code -/

/-- The calls. -/
inductive OutboxCall where
  | enqueue (type payloadJson : String) (options : OutboxEnqueueOptions)
  | flushDue (limit : Nat)
  | retryDlq (id : String)

/-- What `flushDue` returns. -/
structure FlushSummary where
  processed : Nat
  succeeded : Nat
  failed : Nat
  deadLettered : Nat

/-- What a call returns. -/
inductive OutboxAnswer where
  | enqueued (id : String) (duplicated : Bool)
  | flushed (summary : FlushSummary)
  | retried (ok : Bool)

/-- How far a call has come. A flush has a row that it has selected, and the rows after it. -/
inductive OutboxPhase where
  | idle
  | duplicate (key id : String)
  | executing (row : OutboxEntry) (rest : List OutboxEntry) (summary : FlushSummary)
  | recording (row : OutboxEntry) (rest : List OutboxEntry) (summary : FlushSummary)
  | failing (row : OutboxEntry) (error : String) (rest : List OutboxEntry) (summary : FlushSummary)
  | burying (row : OutboxEntry) (rest : List OutboxEntry) (summary : FlushSummary)
  | restoring (letter : DeadLetter)
  | clearing (letter : DeadLetter)
  | returned (answer : OutboxAnswer)
  | thrown (error : String)

/-- The loop of `flushDue`. -/
def OutboxPhase.next : List OutboxEntry → FlushSummary → OutboxPhase
  | [], summary => .returned (.flushed summary)
  | row :: rest, summary => .executing row rest summary

/-- The steps of a call: its first statement, where `uuid` is what `crypto.randomUUID` gives; the end of
an execution; and a further statement, which may fail with an error. -/
inductive OutboxStep where
  | begin (now : Int) (uuid : String)
  | execute (result : Except String Unit)
  | statement (failure : Option String) (now : Int)

/-- What `execute` comes to: an unknown type is an error. -/
def OutboxEntry.outcome (row : OutboxEntry) (result : Except String Unit) : Except String Unit :=
  if ["plugin", "hook", "webhook"].contains row.type then result
  else .error s!"unknown outbox type \"{row.type}\""

/-- The tables and the calls. Beside them, the effects that were enqueued and those whose execution has
returned. -/
structure OutboxState (ι : Type) where
  entries : List OutboxEntry
  letters : List DeadLetter
  phase : ι → OutboxPhase
  enqueued : List OutboxEffect
  delivered : List OutboxEffect

/-- A step of a call, or `pruneDone` and `pruneDlq`. -/
inductive OutboxAction (ι : Type) where
  | call (i : ι) (a : OutboxStep)
  | pruneDone (cutoff : Int)
  | pruneDlq (cutoff : Int)

/-- The calls on an outbox. -/
structure OutboxCalls (ι : Type) where
  calls : ι → OutboxCall

namespace OutboxState
variable {ι : Type} [DecidableEq ι] (s : OutboxState ι)

/-- A call enters a phase. -/
def enter (i : ι) (ph : OutboxPhase) : OutboxState ι :=
  { s with phase := Function.update s.phase i ph }

/-- The end of an execution. -/
def execute (i : ι) (result : Except String Unit) : Option (OutboxState ι) :=
  match s.phase i with
  | .executing row rest summary =>
    match row.outcome result with
    | .ok () =>
      some ({ s with delivered := row.toOutboxEffect :: s.delivered }.enter i
        (.recording row rest summary))
    | .error e =>
      some (s.enter i (.failing row e rest { summary with failed := summary.failed + 1 }))
  | _ => none

/-- The statement after a failure: `markFailed`, or the INSERT of `deadLetter`. -/
def fail (i : ι) (row : OutboxEntry) (error : String) (rest : List OutboxEntry)
    (summary : FlushSummary) (now : Int) : OutboxState ι :=
  if row.attempts + 1 < outboxMaxAttempts then
    { s with entries := markFailed s.entries row.id (row.attempts + 1) error now }.enter i
      (.next rest summary)
  else
    match insertLetter s.letters (row.letter error now) with
    | some letters => { s with letters }.enter i (.burying row rest summary)
    | none => s.enter i (.thrown "UNIQUE constraint failed: _outbox_dlq.id")

/-- A further statement. One that fails ends the call, but for `markDone`. -/
def statement (i : ι) (failure : Option String) (now : Int) : Option (OutboxState ι) :=
  match s.phase i, failure with
  | .idle, _ | .executing _ _ _, _ | .returned _, _ | .thrown _, _ => none
  | .recording row rest summary, some e =>
    some (s.enter i (.failing row e rest { summary with failed := summary.failed + 1 }))
  | _, some e => some (s.enter i (.thrown e))
  | .duplicate key id, none =>
    let existing := s.entries.find? (·.dedupeKey = some key)
    some (s.enter i (.returned (.enqueued ((existing.map (·.id)).getD id) true)))
  | .recording row rest summary, none =>
    some ({ s with entries := markDone s.entries row.id now }.enter i
      (.next rest { summary with succeeded := summary.succeeded + 1 }))
  | .failing row e rest summary, none => some (s.fail i row e rest summary now)
  | .burying row rest summary, none =>
    some ({ s with entries := s.entries.filter (·.id ≠ row.id) }.enter i
      (.next rest { summary with deadLettered := summary.deadLettered + 1 }))
  | .restoring letter, none =>
    match insertEntry s.entries (letter.entry now) with
    | some entries => some ({ s with entries }.enter i (.clearing letter))
    | none => some (s.enter i (.thrown "UNIQUE constraint failed: _outbox"))
  | .clearing letter, none =>
    some ({ s with letters := s.letters.filter (·.id ≠ letter.id) }.enter i
      (.returned (.retried true)))

end OutboxState

namespace OutboxCalls
variable {ι : Type} [DecidableEq ι] (C : OutboxCalls ι)

/-- The first statement of a call. -/
def begin (s : OutboxState ι) (i : ι) (now : Int) (uuid : String) : Option (OutboxState ι) :=
  match C.calls i with
  | .enqueue type payloadJson options =>
    let row := OutboxEntry.new ⟨uuid, type, payloadJson⟩ options now
    if s.enqueued.any (·.id = uuid) then none
    else
      match insertEntry s.entries row with
      | some entries =>
        some ({ s with entries, enqueued := row.toOutboxEffect :: s.enqueued }.enter i
          (.returned (.enqueued uuid false)))
      | none => some (s.enter i (.duplicate (options.dedupeKey.getD "") uuid))
  | .flushDue limit =>
    let due := dueEntries s.entries now limit
    some (s.enter i (.next due ⟨due.length, 0, 0, 0⟩))
  | .retryDlq id =>
    match s.letters.find? (·.id = id) with
    | some letter => some (s.enter i (.restoring letter))
    | none => some (s.enter i (.returned (.retried false)))

/-- One step of one call. -/
def stepCall (s : OutboxState ι) (i : ι) : OutboxStep → Option (OutboxState ι)
  | .begin now uuid =>
    match s.phase i with
    | .idle => C.begin s i now uuid
    | _ => none
  | .execute result => s.execute i result
  | .statement failure now => s.statement i failure now

/-- The calls, on tables that meet a condition, before any of them has begun. -/
def system (start : OutboxState ι → Prop) : System (OutboxState ι) (OutboxAction ι) where
  init s := (∀ i, s.phase i = .idle) ∧ start s
  step s
    | .call i a => C.stepCall s i a
    | .pruneDone cutoff => some { s with
        entries := s.entries.filter fun row => !(row.status = .done && row.updatedAt < cutoff) }
    | .pruneDlq cutoff => some { s with
        letters := s.letters.filter fun letter => !decide (letter.failedAt < cutoff) }

end OutboxCalls

end HeadlessErp
