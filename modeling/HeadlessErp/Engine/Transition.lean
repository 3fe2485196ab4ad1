import Mathlib.Logic.Function.Basic
import HeadlessErp.Base.Transition
import HeadlessErp.Engine.Definition
import HeadlessErp.Outbox.Queue

/-!
# Transition requests

The calls of `WorkflowEngine.transition`, with the tables `_workflow_states`, `_workflow_history` and
`_outbox`. A step is one statement, a call of the entity pipeline, or the hooks, and a call may crash
between any two of them. What the entity pipeline and the hooks come to is the step's.
-/

namespace HeadlessErp

/-! ## Requests -/

/-- A request for a transition of a document. -/
structure TransitionRequest (N : Type) where
  collectionSlug : String
  documentId : String
  toState : String
  auth : Option (AuthContext N)
  comment : Option String := none

/-- A row of `_workflow_history`. -/
structure WorkflowHistoryRow (N : Type) where
  workflowId : String
  collectionSlug : String
  documentId : String
  fromState : String
  toState : String
  byUser : JsVal N
  byEmail : JsVal N
  comment : Option String

/-- What a request has chosen and read: the state it found, the transition, and the document. -/
structure Drive (N : Type) where
  current : String
  transition : WorkflowTransition
  doc : Record N

/-- A field of the document that is set to the new state. -/
inductive SyncTarget where
  | docStatus (mapped : String)
  | stateField (field : String)

/-- What the syncs came to. -/
structure SyncOutcome where
  docStatus : Option String := none
  warnings : List String := []

/-- A `TransitionResult`. -/
structure TransitionResult (N : Type) where
  fromState : String
  toState : String
  doc : Record N
  syncedDocStatus : Option String
  warnings : List String
  sideEffects : List String

/-- How far a call has come. -/
inductive TransitionPhase (N : Type) where
  | idle
  | reading (current : String) (transition : WorkflowTransition)
  | hooking (d : Drive N)
  | committing (d : Drive N)
  | logging (d : Drive N)
  | syncing (d : Drive N) (target : SyncTarget) (todo : List SyncTarget) (outcome : SyncOutcome)
  | enqueuing (d : Drive N) (outcome : SyncOutcome) (plugin : String) (todo ids : List String)
  | looking (d : Drive N) (outcome : SyncOutcome) (key uuid : String) (todo ids : List String)
  | returned (result : TransitionResult N)
  | thrown (error : EngineError)
  | crashed

/-- The steps of a call. -/
inductive TransitionStep (N : Type) where
  | begin
  | read (doc : Except String (Record N))
  | hook (abort : Option String)
  | commit (failure : Option String)
  | log (failure : Option String)
  | sync (result : Except String Unit)
  | enqueue (failure : Option String) (now : Int) (uuid : String)
  | lookup (failure : Option String)
  | crash

/-- A commit: by which call, with what it has read, and how many commits of the document were before it
read the state. -/
structure StateCommit (ι N : Type) where
  caller : ι
  drive : Drive N
  observed : Nat

/-- An effect that a call has created for one of its trigger plugins. -/
structure TriggerEffect (ι : Type) where
  caller : ι
  transition : WorkflowTransition
  plugin : String

/-- The tables and the calls. Beside them, the commits and the effects that were created, the latest
first, and for each call the commits of its document when it read the state. -/
structure EngineState (ι N : Type) where
  states : String → String → Option String
  history : List (WorkflowHistoryRow N)
  entries : List OutboxEntry
  phase : ι → TransitionPhase N
  commits : List (StateCommit ι N)
  created : List (TriggerEffect ι)
  observed : ι → Nat

/-- A step of a call, or what the other calls on the outbox make of its rows. -/
inductive EngineAction (ι N : Type) where
  | call (i : ι) (a : TransitionStep N)
  | outbox (entries : List OutboxEntry)

/-- Requests, with the workflow of each collection and the functions of guard expressions. -/
structure EngineCalls (ι N : Type) where
  workflow : String → WorkflowRow
  requests : ι → TransitionRequest N
  registry : String → Option (List (JsVal N) → Except String (JsVal N))

section
variable {N : Type} [JsNumber N]

/-- The fields that a definition has follow the state. -/
def WorkflowDefinition.syncTargets (d : WorkflowDefinition) (next : String) : List SyncTarget :=
  (((d.docStatusMap.lookup next).filter (· != "")).map .docStatus).toList ++
    ((d.stateField.filter (· != "")).map .stateField).toList

/-- The outcome of a sync. -/
def SyncOutcome.after (o : SyncOutcome) (target : SyncTarget) (result : Except String Unit) :
    SyncOutcome :=
  match target, result with
  | .docStatus mapped, .ok () => { o with docStatus := some mapped }
  | .stateField _, .ok () => o
  | .docStatus mapped, .error e =>
    { o with warnings := o.warnings ++ [s!"doc_status sync to \"{mapped}\" failed: {e}"] }
  | .stateField field, .error e =>
    { o with warnings := o.warnings ++ [s!"state_field \"{field}\" sync failed: {e}"] }

namespace Drive
variable (d : Drive N)

/-- What `transition` returns. -/
def result (o : SyncOutcome) (ids : List String) : TransitionResult N :=
  ⟨d.current, d.transition.toState, d.doc, o.docStatus, o.warnings, ids⟩

/-- The loop of `enqueueTriggerPlugins`. -/
def next (o : SyncOutcome) : List String → List String → TransitionPhase N
  | [], ids => .returned (d.result o ids)
  | plugin :: todo, ids => .enqueuing d o plugin todo ids

/-- The syncs, and the trigger plugins after them. -/
def sync (o : SyncOutcome) : List SyncTarget → TransitionPhase N
  | [] => d.next o d.transition.triggerPlugins []
  | target :: todo => .syncing d target todo o

/-- The dedupe key of a trigger plugin. -/
def dedupeKey (workflowId documentId plugin : String) : String :=
  s!"wf:{workflowId}:{documentId}:{d.current}:{d.transition.toState}:{plugin}"

/-- The effect of a trigger plugin. -/
def effect (workflowId slug plugin uuid : String) : OutboxEffect where
  id := uuid
  type := "plugin"
  payloadJson :=
    let transition : JsVal N := .obj [("from", .str d.current), ("to", .str d.transition.toState),
      ("workflow_id", .str workflowId)]
    let input : JsVal N := .obj [("collection", .str slug), ("event", .str "workflow_transition"),
      ("doc", .obj (d.doc.set "_transition" transition))]
    ((JsVal.obj [("plugin_id", .str plugin), ("input", input)]).toJson).getD ""

end Drive

end

/-- A call takes no further step. -/
def TransitionPhase.ended {N : Type} : TransitionPhase N → Bool
  | returned _ | thrown _ | crashed => true
  | _ => false

/-! ## Steps -/

/-- The UPSERT of `transitionState`: the state, where a row was written. -/
def transitionState (recorded : Option String) (expectedFrom next : String) : Option String :=
  match recorded with
  | none => some next
  | some state => if state = expectedFrom then some next else none

namespace EngineState
variable {ι N : Type} [DecidableEq ι] (s : EngineState ι N)

/-- A call enters a phase. -/
def enter (i : ι) (ph : TransitionPhase N) : EngineState ι N :=
  { s with phase := Function.update s.phase i ph }

/-- The state of a document is written. -/
def setState (slug id state : String) : EngineState ι N :=
  { s with states := Function.update s.states slug (Function.update (s.states slug) id (some state)) }

/-- A call has read the state, after some commits. -/
def observe (i : ι) (n : Nat) : EngineState ι N :=
  { s with observed := Function.update s.observed i n }

/-- A transition is committed. -/
def addCommit (i : ι) (d : Drive N) : EngineState ι N :=
  { s with commits := ⟨i, d, s.observed i⟩ :: s.commits }

end EngineState

namespace EngineCalls
variable {ι N : Type} [DecidableEq ι] [JsNumber N] (W : EngineCalls ι N)

/-- The document of a request. -/
def record (i : ι) : String × String := ((W.requests i).collectionSlug, (W.requests i).documentId)

/-- The commits of a document. -/
def commitsOn (s : EngineState ι N) (r : String × String) : List (StateCommit ι N) :=
  s.commits.filter fun c => W.record c.caller = r

/-- The recorded state of a document. -/
def recorded (s : EngineState ι N) (r : String × String) : Option String := s.states r.1 r.2

/-- The state of a document. -/
def current (s : EngineState ι N) (r : String × String) : String :=
  (recorded s r).getD (W.workflow r.1).definition.initial

/-- The checks that come first, on the state that `getState` reads. -/
def begin (s : EngineState ι N) (i : ι) : EngineState ι N :=
  let r := W.record i
  match (W.workflow r.1).choose (recorded s r) (W.requests i).toState with
  | .error e => s.enter i (.thrown e)
  | .ok (current, t) =>
    (s.observe i (W.commitsOn s r).length).enter i (.reading current t)

/-- The document is read, and the guard and the roles are checked. -/
def read (s : EngineState ι N) (i : ι) (current : String) (t : WorkflowTransition)
    (doc : Except String (Record N)) : EngineState ι N :=
  match doc with
  | .error e => s.enter i (.thrown (.other e))
  | .ok doc =>
    match t.check W.registry doc (W.requests i).auth current (W.requests i).toState with
    | .error e => s.enter i (.thrown e)
    | .ok () => s.enter i (.hooking ⟨current, t, doc⟩)

/-- The commit. -/
def commit (s : EngineState ι N) (i : ι) (d : Drive N) : EngineState ι N :=
  let r := W.record i
  match transitionState (recorded s r) d.current d.transition.toState with
  | some state =>
    ((s.setState r.1 r.2 state).addCommit i d).enter i (.logging d)
  | none => s.enter i (.thrown (.conflict
      s!"Document already left state \"{d.current}\" (concurrent transition) — reload and retry"))

/-- The INSERT of `logHistory`, and what comes after it. -/
def log (s : EngineState ι N) (i : ι) (d : Drive N) : EngineState ι N :=
  let q := W.requests i
  let w := W.workflow q.collectionSlug
  let row : WorkflowHistoryRow N := ⟨w.id, q.collectionSlug, q.documentId, d.current,
    d.transition.toState, authValue q.auth "user_id" .null, authValue q.auth "email" .null, q.comment⟩
  { s with history := s.history ++ [row] }.enter i
    (d.sync {} (w.definition.syncTargets d.transition.toState))

/-- The `enqueue` of a trigger plugin, under an id that no row has. -/
def enqueue (s : EngineState ι N) (i : ι) (d : Drive N) (o : SyncOutcome) (plugin : String)
    (todo ids : List String) (now : Int) (uuid : String) : Option (EngineState ι N) :=
  let q := W.requests i
  let workflowId := (W.workflow q.collectionSlug).id
  let key := d.dedupeKey workflowId q.documentId plugin
  let row := OutboxEntry.new (d.effect workflowId q.collectionSlug plugin uuid)
    { dedupeKey := some key } now
  if s.entries.any (·.id = uuid) then none
  else
    match insertEntry s.entries row with
    | some entries =>
      some ({ s with entries, created := ⟨i, d.transition, plugin⟩ :: s.created }.enter i
        (d.next o todo (ids ++ [uuid])))
    | none => some (s.enter i (.looking d o key uuid todo ids))

/-- One step of one call. An error of `enqueueTriggerPlugins` leaves the rest of its effects. -/
def stepCall (s : EngineState ι N) (i : ι) (a : TransitionStep N) : Option (EngineState ι N) :=
  match s.phase i, a with
  | .idle, .begin => some (W.begin s i)
  | .reading current t, .read doc => some (W.read s i current t doc)
  | .hooking d, .hook none => some (s.enter i (.committing d))
  | .hooking _, .hook (some e) => some (s.enter i (.thrown (.validation e)))
  | .committing d, .commit none => some (W.commit s i d)
  | .committing _, .commit (some e) => some (s.enter i (.thrown (.other e)))
  | .logging d, .log none => some (W.log s i d)
  | .logging _, .log (some e) => some (s.enter i (.thrown (.other e)))
  | .syncing d target todo o, .sync result =>
    some (s.enter i (d.sync (o.after target result) todo))
  | .enqueuing d o plugin todo ids, .enqueue none now uuid =>
    W.enqueue s i d o plugin todo ids now uuid
  | .enqueuing d o _ _ _, .enqueue (some _) _ _ => some (s.enter i (.returned (d.result o [])))
  | .looking d o key uuid todo ids, .lookup none =>
    let existing := s.entries.find? (·.dedupeKey = some key)
    some (s.enter i (d.next o todo (ids ++ [(existing.map (·.id)).getD uuid])))
  | .looking d o _ _ _ _, .lookup (some _) => some (s.enter i (.returned (d.result o [])))
  | ph, .crash => if ph.ended then none else some (s.enter i .crashed)
  | _, _ => none

/-- The requests, on documents that no transition has been recorded of. -/
def system : System (EngineState ι N) (EngineAction ι N) where
  init s := (∀ i, s.phase i = .idle) ∧ (∀ slug id, s.states slug id = none) ∧ s.commits = [] ∧
    s.created = []
  step s
    | .call i a => W.stepCall s i a
    | .outbox entries => some { s with entries }

end EngineCalls

end HeadlessErp
