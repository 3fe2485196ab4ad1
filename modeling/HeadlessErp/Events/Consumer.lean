import Mathlib.Logic.Function.Basic
import HeadlessErp.Base.Transition
import HeadlessErp.Js.Record

/-!
# The consumers of the event queue

`consumeEventBatch` of `packages/events/src/service.ts`, call by call. A consumer claims the
delivery of an event to a subscriber by a row of `_event_deliveries`, delivers, and then marks the
row as done or deletes it. Any number of consumers run at once, on any batches: a batch that comes
again is one more consumer. A consumer that crashes makes no more calls.
-/

namespace HeadlessErp

/-- A well-formed message of the queue. -/
structure EventEnvelope (N : Type) where
  id : String
  topic : String
  payload : JsVal N

/-- What a subscriber does with an event. -/
inductive SubscriberAction where
  | webhook (url : String) (method : Option String)
  | handler (handlerType : String)
  | log
  deriving DecidableEq, Repr

/-- A row of `_event_subscribers`. The action is none where `action_json` cannot be read. -/
structure EventSubscriber where
  id : String
  topic : String
  action : Option SubscriberAction
  enabled : Bool
  deriving DecidableEq, Repr

/-- The `status` of a row of `_event_deliveries`. -/
inductive DeliveryStatus where
  | pending
  | done
  deriving DecidableEq, Repr

/-- An event and a subscriber, the key of `_event_deliveries`. -/
abbrev DeliveryKey := String × String

section
variable {ι N : Type} [JsNumber N]

/-- The event of a message. A message without a text for a topic is dropped. -/
def readEnvelope (body : JsVal N) : Option (EventEnvelope N) :=
  match body with
  | .obj kvs =>
    match Record.get kvs "topic" with
    | .str topic =>
      some { id := (Record.get kvs "id").toStr, topic, payload := Record.get kvs "payload" }
    | _ => none
  | _ => none

/-- The subscribers of an event. -/
def subscribersOf (subscribers : List EventSubscriber) (event : EventEnvelope N) :
    List EventSubscriber :=
  subscribers.filter fun sub => sub.topic == event.topic && sub.enabled

/-- Whether a delivery succeeds. `answer` is what the endpoint or the handler does. -/
def deliver (dispatch : Bool) (action : SubscriberAction) (answer : Bool) : Bool :=
  match action with
  | .webhook .. => answer
  | .handler _ => dispatch && answer
  | .log => true

/-- Where a consumer is: the messages that are left, the subscribers of the event at hand, and the
delivery it has claimed. -/
inductive ConsumerPhase (N : Type) where
  | messages (rest : List (JsVal N))
  | subscribers (event : EventEnvelope N) (subs : List EventSubscriber) (rest : List (JsVal N))
  | deliver (event : EventEnvelope N) (sub : EventSubscriber) (action : SubscriberAction)
      (subs : List EventSubscriber) (rest : List (JsVal N))
  | mark (event : EventEnvelope N) (sub : EventSubscriber) (subs : List EventSubscriber)
      (rest : List (JsVal N))
  | free (event : EventEnvelope N) (sub : EventSubscriber)
  | acknowledged
  | failed

/-- The table of deliveries, the deliveries that were completed, and the consumers. -/
structure EventState (ι N : Type) where
  deliveries : DeliveryKey → Option DeliveryStatus
  completed : List DeliveryKey
  phase : ι → ConsumerPhase N

/-- What the consumers share: the subscribers, and whether handlers can be dispatched. -/
structure EventWorker (ι N : Type) where
  subscribers : List EventSubscriber
  dispatch : Bool
  batch : ι → List (JsVal N)

variable [DecidableEq ι]

/-- The state after the phase of a consumer has changed. -/
def EventState.goto (s : EventState ι N) (i : ι) (phase : ConsumerPhase N) : EventState ι N :=
  { s with phase := Function.update s.phase i phase }

/-- The state after a row of `_event_deliveries` has changed. -/
def EventState.write (s : EventState ι N) (key : DeliveryKey) (row : Option DeliveryStatus) :
    EventState ι N :=
  { s with deliveries := Function.update s.deliveries key row }

/-- The next call of a consumer. `ok` says that the call succeeds. -/
def consumerCall (W : EventWorker ι N) (s : EventState ι N) (i : ι) (ok : Bool) :
    Option (EventState ι N) :=
  match s.phase i with
  | .messages [] => some (s.goto i .acknowledged)
  | .messages (body :: rest) =>
    match readEnvelope body with
    | none => some (s.goto i (.messages rest))
    | some event =>
      some (s.goto i
        (if ok then .subscribers event (subscribersOf W.subscribers event) rest else .failed))
  | .subscribers _ [] rest => some (s.goto i (.messages rest))
  | .subscribers event (sub :: subs) rest =>
    match sub.action with
    | none => some (s.goto i (.subscribers event subs rest))
    | some action =>
      if !ok then some (s.goto i .failed)
      else if (s.deliveries (event.id, sub.id)).isSome then
        some (s.goto i (.subscribers event subs rest))
      else
        some ((s.write (event.id, sub.id) (some .pending)).goto i
          (.deliver event sub action subs rest))
  | .deliver event sub action subs rest =>
    if deliver W.dispatch action ok then
      some { s.goto i (.mark event sub subs rest) with
        completed := (event.id, sub.id) :: s.completed }
    else some (s.goto i (.free event sub))
  | .mark event sub subs rest =>
    if ok then
      let row := (s.deliveries (event.id, sub.id)).map fun _ => .done
      some ((s.write (event.id, sub.id) row).goto i (.subscribers event subs rest))
    else some (s.goto i (.free event sub))
  | .free event sub =>
    some (if ok then (s.write (event.id, sub.id) none).goto i .failed else s.goto i .failed)
  | .acknowledged | .failed => none

/-- The consumers, in any order of their calls. -/
def eventSystem (W : EventWorker ι N) : System (EventState ι N) (ι × Bool) where
  init s := (∀ key, s.deliveries key = none) ∧ s.completed = [] ∧
    ∀ i, s.phase i = .messages (W.batch i)
  step s call := consumerCall W s call.1 call.2

/-- Each subscriber of each event among some messages has a completed delivery. -/
def AllDelivered (W : EventWorker ι N) (completed : List DeliveryKey) (bodies : List (JsVal N)) :
    Prop :=
  ∀ body ∈ bodies, ∀ event, readEnvelope body = some event →
    ∀ sub ∈ subscribersOf W.subscribers event, (event.id, sub.id) ∈ completed

/-- A claim that keeps the promise of the bus: the action of the subscriber can be read, and a row
that is there already belongs to a delivery that is done. -/
def SoundClaim (s : EventState ι N) (call : ι × Bool) : Prop :=
  ∀ event sub subs rest, s.phase call.1 = .subscribers event (sub :: subs) rest →
    sub.action ≠ none ∧ (call.2 = true → s.deliveries (event.id, sub.id) ≠ some .pending)

end

end HeadlessErp
