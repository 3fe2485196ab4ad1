import Mathlib.Logic.Function.Basic
import HeadlessErp.Base.Transition
import HeadlessErp.Engine.Definition

/-!
# The status of a deployment

The calls of `promote`, `transition`, `applyDeployment` and `rollbackDeployment` of
`apps/api/src/domain-modules/idp/service.ts` on one deployment, and the steps of
`WorkflowEngine.transition` that they share. A step is one statement; the steps of the calls are
interleaved in any order. `moves` and `entered` record what the status column and the workflow have
gone through.
-/

namespace HeadlessErp.Idp

/-! ## The workflow -/

/-- The workflow that `ensureWorkflow` makes where the collection has none. -/
def deploymentWorkflow (id : String) : WorkflowRow where
  id := id
  definition :=
    { name := "Deployment Promotion"
      initial := "draft"
      states := ["draft", "review", "promoted", "live", "rolled_back"]
      transitions :=
        [⟨"submit", "draft", "review", none, [], []⟩,
         ⟨"approve", "review", "promoted", none, [], []⟩,
         ⟨"deploy", "promoted", "live", none, [], []⟩,
         ⟨"reject", "review", "rolled_back", none, [], []⟩,
         ⟨"rollback", "live", "rolled_back", none, [], []⟩]
      enabled := some true }

/-! ## Calls -/

/-- A call on the deployment. -/
inductive BoardCall where
  | promote
  | transition (toState : String)
  | applyDeployment
  | rollbackDeployment
  deriving DecidableEq

/-- A transition that a call drives: by `promote` or not, out of the state it has read, and into
another. -/
structure Move where
  promoted : Bool
  source : String
  target : String
  deriving DecidableEq

/-- Where a call stands. -/
inductive Phase where
  | idle
  /-- before `promote` reads the state -/
  | promoting
  /-- before the engine reads the state -/
  | reading (promoted : Bool) (target : String)
  | committing (m : Move)
  | logging (m : Move)
  | syncing (m : Move)
  | mirroring (m : Move)
  /-- in `applySnapshot`, before the deployment is marked live -/
  | applying
  | notifying
  | done
  deriving DecidableEq

/-- A transition that is committed and not yet mirrored, and whether the history has it. -/
def Phase.pending : Phase → Option (Move × Bool)
  | .logging m => some (m, false)
  | .syncing m | .mirroring m => some (m, true)
  | _ => none

/-- A step of a call. `stop` is an exception or an early answer before anything is written: a guard
or a role that refuses, a manifest that cannot be captured, a snapshot that is blocked or already
applied. -/
inductive BoardStep where
  | start (call : BoardCall)
  | choose
  | read
  | commit
  | log
  | sync (succeeds : Bool)
  | mirror
  | mark
  | notify (succeeds : Bool)
  | stop
  deriving DecidableEq

/-- The deployment in the tables, and where its calls stand. `state` is its row of
`_workflow_states`, and `queued` says that the outbox has the key of its live event. -/
structure Board (ι : Type) where
  status : String
  state : Option String := none
  history : List (String × String) := []
  queued : Bool := false
  events : Nat := 0
  entered : Nat
  moves : List (String × String) := []
  phase : ι → Phase := fun _ => .idle

section
variable {ι : Type}

/-- The workflow's state of the deployment. -/
def Board.current (w : WorkflowRow) (s : Board ι) : String :=
  s.state.getD w.definition.initial

/-- The next state of `promote`. -/
def nextState (current : String) : Option String :=
  [("draft", "review"), ("review", "promoted"), ("promoted", "live")].lookup current

/-- One for an entry into `live`. -/
def entry (state : String) : Nat := if state = "live" then 1 else 0

variable [DecidableEq ι]

/-- The call stands elsewhere. -/
def Board.goto (s : Board ι) (i : ι) (p : Phase) : Board ι :=
  { s with phase := Function.update s.phase i p }

/-- A write of the status column. -/
def Board.setStatus (s : Board ι) (status : String) : Board ι :=
  { s with status := status, moves := s.moves ++ [(s.status, status)] }

/-! ## Steps -/

/-- The first step of a call. -/
def Board.start (s : Board ι) (i : ι) : BoardCall → Board ι
  | .promote => s.goto i .promoting
  | .transition toState => s.goto i (.reading false toState)
  | .applyDeployment | .rollbackDeployment => s.goto i .applying

/-- `promote` reads the state: at a terminal one it does nothing. -/
def Board.choose (w : WorkflowRow) (s : Board ι) (i : ι) : Board ι :=
  match nextState (s.current w) with
  | some next => s.goto i (.reading true next)
  | none => s.goto i .done

/-- The engine reads the state and looks for the transition. -/
def Board.read (w : WorkflowRow) (s : Board ι) (i : ι) (promoted : Bool) (target : String) :
    Board ι :=
  match w.choose s.state target with
  | .ok (current, _) => s.goto i (.committing ⟨promoted, current, target⟩)
  | .error _ => s.goto i .done

/-- `transitionState`: the row is inserted, or updated if it still has the state that was read. -/
def Board.commit (s : Board ι) (i : ι) (m : Move) : Board ι :=
  if s.state.all (· = m.source) then
    { s.goto i (.logging m) with state := some m.target, entered := s.entered + entry m.target }
  else s.goto i .done

/-- `logHistory`. -/
def Board.log (s : Board ι) (i : ι) (m : Move) : Board ι :=
  { s.goto i (.syncing m) with history := s.history ++ [(m.source, m.target)] }

/-- The sync of the workflow's state field, which may be the status column. -/
def Board.sync (w : WorkflowRow) (s : Board ι) (i : ι) (m : Move) (succeeds : Bool) : Board ι :=
  if succeeds && w.definition.stateField = some "status" then
    (s.goto i (.mirroring m)).setStatus m.target
  else s.goto i (.mirroring m)

/-- `mirrorWorkflowStatus`, after which `promote` notifies of a deployment that is live. -/
def Board.mirror (s : Board ι) (i : ι) (m : Move) : Board ι :=
  (s.goto i (if m.promoted && m.target = "live" then .notifying else .done)).setStatus m.target

/-- `applySnapshot` marks the deployment live. -/
def Board.mark (s : Board ι) (i : ι) : Board ι := (s.goto i .notifying).setStatus "live"

/-- `notifyDeployed`: the outbox ignores a key that it has, and a failure is swallowed. -/
def Board.notify (s : Board ι) (i : ι) (succeeds : Bool) : Board ι :=
  if succeeds && !s.queued then
    { s.goto i .done with queued := true, events := s.events + 1 }
  else s.goto i .done

/-- The phases a call may leave before anything is written. -/
def Phase.mayStop : Phase → Bool
  | .promoting | .reading _ _ | .committing _ | .applying => true
  | _ => false

/-- A step of a call, where the call has come to it. -/
def Board.step (w : WorkflowRow) (s : Board ι) (i : ι) (a : BoardStep) : Option (Board ι) :=
  match a, s.phase i with
  | .start call, .idle => some (s.start i call)
  | .choose, .promoting => some (s.choose w i)
  | .read, .reading promoted target => some (s.read w i promoted target)
  | .commit, .committing m => some (s.commit i m)
  | .log, .logging m => some (s.log i m)
  | .sync succeeds, .syncing m => some (s.sync w i m succeeds)
  | .mirror, .mirroring m => some (s.mirror i m)
  | .mark, .applying => some (s.mark i)
  | .notify succeeds, .notifying => some (s.notify i succeeds)
  | .stop, phase => if phase.mayStop then some (s.goto i .done) else none
  | _, _ => none

/-- The calls on a deployment that has just been made. -/
def board (w : WorkflowRow) : System (Board ι) (ι × BoardStep) where
  init s := s = { status := w.definition.initial, entered := entry w.definition.initial }
  step s a := s.step w a.1 a.2

end

end HeadlessErp.Idp
