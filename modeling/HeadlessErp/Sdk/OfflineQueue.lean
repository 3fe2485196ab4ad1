import Mathlib.Logic.Function.Basic
import HeadlessErp.Base.Like
import HeadlessErp.Base.Transition
import HeadlessErp.Sdk.Identity

/-!
# The offline queue

The queue of writes that failed at the network level (`packages/sdk/src/offline.ts`), and the
request of a write (`requestMeta` of `packages/sdk/src/client.ts`). A flush works on the mutations
that are stored when it starts and writes back the ones that are left when it ends. Between two of
its answers, anything else may happen.
-/

namespace HeadlessErp

/-! ## Requests -/

/-- The body of a request: a form, as it is sent, or a value. -/
inductive RequestBody (N : Type) where
  | none
  | form (text : String)
  | json (value : JsVal N)

/-- The headers of a request, as the code writes them. -/
abbrev Headers := List (String × String)

/-- `headers[name] = value`. -/
def setHeader : Headers → String → String → Headers
  | [], name, value => [(name, value)]
  | (name', value') :: headers, name, value =>
    if name' == name then (name, value) :: headers
    else (name', value') :: setHeader headers name value

/-- Two names of one header. -/
def SameName (a b : String) : Prop := foldCase a.toList = foldCase b.toList

instance (a b : String) : Decidable (SameName a b) := inferInstanceAs (Decidable (_ = _))

/-- The values that are written for a header. -/
def headerValues (headers : Headers) (name : String) : List String :=
  (headers.filter fun header => decide (SameName header.1 name)).map (·.2)

/-- The value of a header as it is sent. The values of one name are joined. -/
def headerValue (headers : Headers) (name : String) : Option String :=
  if headerValues headers name = [] then none
  else some (", ".intercalate (headerValues headers name))

/-- A request on the wire. -/
structure HttpRequest where
  method : String
  target : String
  headers : Headers
  body : Option String

/-- The same request, but for the headers that say nothing about the write. -/
def SameRequest (a b : HttpRequest) : Prop :=
  a.method = b.method ∧ a.target = b.target ∧ a.body = b.body ∧
  headerValue a.headers "If-Match" = headerValue b.headers "If-Match" ∧
  headerValue a.headers "Idempotency-Key" = headerValue b.headers "Idempotency-Key"

section
variable {ι N : Type} [JsNumber N]

/-- The options of a request. The query holds the entries of the search parameters. -/
structure RequestOptions (N : Type) where
  method : String
  query : List (String × String)
  body : RequestBody N
  headers : Headers
  headers_nodup : (headers.map (·.1)).Nodup
  idempotencyKey : Option String
  ifMatch : Option String
  noQueue : Bool

/-- A byte in a query string. -/
def encodeByte (byte : UInt8) : String :=
  let c := Char.ofNat byte.toNat
  if c.isAlphanum || ['*', '-', '.', '_'].contains c then String.singleton c
  else if c == ' ' then "+"
  else "%" ++ String.ofList ((Nat.toDigits 16 (256 + byte.toNat)).drop 1 |>.map Char.toUpper)

/-- A name or a value in a query string. -/
def encodeParameter (s : String) : String := String.join (s.toUTF8.toList.map encodeByte)

/-- `URLSearchParams.toString()`. -/
def queryString (query : List (String × String)) : String :=
  "&".intercalate (query.map fun (name, value) =>
    encodeParameter name ++ "=" ++ encodeParameter value)

def loginPaths : List String := ["/auth/telegram", "/auth/login"]

/-- The URL of a request. -/
def requestTarget (baseUrl path : String) (query : List (String × String)) : String :=
  let qs := queryString query
  baseUrl ++ path ++ (if qs ≠ "" then "?" ++ qs else "")

/-- `toUpperCase` of the name of a method. -/
def upperCase (method : String) : String := String.ofList (method.toList.map Char.toUpper)

/-- Whether a request changes something. -/
def isMutation (method : String) : Bool := method != "GET" && method != "HEAD"

/-- The idempotency key of a request. `uuid` is the fresh key for a request without one. -/
def effectiveKey (path : String) (options : RequestOptions N) (uuid : String) : Option String :=
  match options.idempotencyKey with
  | some key => some key
  | none =>
    match options.body with
    | .form _ => none
    | _ =>
      if isMutation (upperCase options.method) && !loginPaths.contains path then some uuid else none

/-- A value that is a non-empty text, written to a header. -/
def setOptional (headers : Headers) (name : String) (value : Option String) : Headers :=
  match value with
  | none => headers
  | some value => if value ≠ "" then setHeader headers name value else headers

/-- The text of a body. -/
def bodyText : RequestBody N → Option String
  | .none => none
  | .form text => some text
  | .json value => value.toJson

/-- The header of a signed-in session. -/
def authorize (headers : Headers) (token : Option (SessionToken N)) : Headers :=
  match token with
  | some token => setHeader headers "Authorization" ("Bearer " ++ token.text)
  | none => headers

/-- The header of a JSON body, where the caller has not set another one. -/
def setContentType (headers : Headers) : RequestBody N → Headers
  | .json _ =>
    if headers.any fun header => header.1 == "Content-Type" && header.2 != "" then headers
    else setHeader headers "Content-Type" "application/json"
  | _ => headers

/-- The request that `requestMeta` makes of its options. -/
def buildRequest (baseUrl path : String) (options : RequestOptions N) (uuid : String)
    (token : Option (SessionToken N)) : HttpRequest :=
  let headers := setContentType options.headers options.body
  let headers := setOptional headers "Idempotency-Key" (effectiveKey path options uuid)
  let headers := setOptional headers "If-Match" options.ifMatch
  { method := upperCase options.method
    target := requestTarget baseUrl path options.query
    headers := if loginPaths.contains path then headers else authorize headers token
    body := bodyText options.body }

/-! ## The queue -/

/-- A write that waits for its replay. -/
structure QueuedMutation (N : Type) where
  id : String
  method : String
  path : String
  body : Option (JsVal N)
  ifMatch : Option String
  idempotencyKey : Option String
  createdAt : Nat

/-- A stored mutation, with its number in the order of the calls of `enqueue`, the account that was
signed in and the write that failed, where the call comes from one. -/
structure Queued (N : Type) where
  mutation : QueuedMutation N
  seq : Nat
  owner : Option String
  origin : Option HttpRequest

/-- The request that replays a mutation. -/
def replayRequest (baseUrl : String) (item : QueuedMutation N) (token : Option (SessionToken N)) :
    HttpRequest :=
  let headers := authorize [("Content-Type", "application/json")] token
  let headers := setOptional headers "If-Match" item.ifMatch
  let headers := setOptional headers "Idempotency-Key" item.idempotencyKey
  { method := item.method
    target := baseUrl ++ item.path
    headers
    body := item.body.bind JsVal.toJson }

/-- What comes of a request: the status of a response, or no response. -/
inductive ReplayOutcome where
  | status (code : Nat)
  | networkError
  deriving DecidableEq, Repr

/-- The replay needs no other attempt. -/
def ReplayOutcome.isDefinitive : ReplayOutcome → Bool
  | .status code => decide (code < 500)
  | .networkError => false

/-- A flush that waits for the answer to the replay of `item`, or no flush. -/
inductive FlushPhase (N : Type) where
  | idle
  | sending (items : List (Queued N)) (item : Queued N) (rest remaining : List (Queued N))

/-- The storage of the queue, the session, the flushes, and what has happened so far. -/
structure QueueState (ι N : Type) where
  items : List (Queued N)
  fingerprint : Option String
  token : Option (SessionToken N)
  phase : ι → FlushPhase N
  enqueued : List (Queued N)
  sent : List (Queued N)
  answered : List Nat

/-- The base URLs of the client and of the queue. -/
structure QueueEnv where
  clientUrl : String
  queueUrl : String

/-- `enqueue`. -/
def QueueState.enqueue (s : QueueState ι N) (mutation : QueuedMutation N)
    (origin : Option HttpRequest) : QueueState ι N :=
  let fp := accountFingerprint s.token
  let item := { mutation, seq := s.enqueued.length, owner := fp, origin }
  let s := { s with enqueued := item :: s.enqueued }
  if s.fingerprint ≠ none ∧ fp ≠ none ∧ s.fingerprint ≠ fp then
    { s with items := [item], fingerprint := fp }
  else if s.fingerprint = none ∧ fp ≠ none then
    { s with items := s.items ++ [item], fingerprint := fp }
  else { s with items := s.items ++ [item] }

variable [DecidableEq ι]

/-- A flush sends the replay of a mutation. -/
def QueueState.send (s : QueueState ι N) (i : ι) (items : List (Queued N)) (item : Queued N)
    (rest remaining : List (Queued N)) : QueueState ι N :=
  { s with
    sent := item :: s.sent
    phase := Function.update s.phase i (.sending items item rest remaining) }

/-- The loop of `flush`, up to its first replay. -/
def QueueState.replay (s : QueueState ι N) (i : ι) : QueueState ι N :=
  match s.items with
  | [] => s
  | item :: rest => s.send i s.items item rest []

/-- The start of `flush`. -/
def QueueState.flush (s : QueueState ι N) (i : ι) : QueueState ι N :=
  let fp := accountFingerprint s.token
  if s.fingerprint ≠ none ∧ fp ≠ none ∧ s.fingerprint ≠ fp then
    if s.items = [] then { s with fingerprint := fp } else s
  else
    let s := if s.fingerprint = none ∧ fp ≠ none then { s with fingerprint := fp } else s
    s.replay i

/-- A call of `flush`. One that runs is not started again. -/
def QueueState.startFlush (s : QueueState ι N) (i : ι) : Option (QueueState ι N) :=
  match s.phase i with
  | .idle => some (s.flush i)
  | .sending .. => none

/-- The answer to a replay, up to the next one or to the end of the flush. -/
def QueueState.answer (s : QueueState ι N) (i : ι) (outcome : ReplayOutcome) :
    Option (QueueState ι N) :=
  match s.phase i with
  | .idle => none
  | .sending items item rest remaining =>
    let s :=
      if outcome.isDefinitive then { s with answered := item.seq :: s.answered } else s
    let remaining := if outcome.isDefinitive then remaining else remaining ++ [item]
    match rest with
    | next :: rest => some (s.send i items next rest remaining)
    | [] =>
      let s := if remaining.length ≠ items.length then { s with items := remaining } else s
      some { s with phase := Function.update s.phase i .idle }

/-- What happens to the queue. A write is one that has just failed at the network level: `token` is
the one it was sent with. -/
inductive QueueEvent (ι N : Type) where
  | session (token : Option (SessionToken N))
  | write (path : String) (options : RequestOptions N) (uuid id : String) (createdAt : Nat)
      (token : Option (SessionToken N))
  | enqueue (mutation : QueuedMutation N)
  | flush (i : ι)
  | answer (i : ι) (outcome : ReplayOutcome)

/-- What `requestMeta` does after a network failure. -/
def QueueState.write (E : QueueEnv) (s : QueueState ι N) (path : String)
    (options : RequestOptions N) (uuid id : String) (createdAt : Nat)
    (token : Option (SessionToken N)) : QueueState ι N :=
  let mutation (body : Option (JsVal N)) : QueuedMutation N :=
    { id, method := upperCase options.method, path, body, ifMatch := options.ifMatch
      idempotencyKey := effectiveKey path options uuid, createdAt }
  let request := buildRequest E.clientUrl path options uuid token
  if !loginPaths.contains path && !options.noQueue && isMutation (upperCase options.method) then
    match options.body with
    | .none => s.enqueue (mutation none) (some request)
    | .json value => s.enqueue (mutation (some value)) (some request)
    | .form _ => s
  else s

/-- The state after an event. -/
def queueStep (E : QueueEnv) (s : QueueState ι N) : QueueEvent ι N → Option (QueueState ι N)
  | .session token => some { s with token }
  | .write path options uuid id createdAt token =>
    some (s.write E path options uuid id createdAt token)
  | .enqueue mutation => some (s.enqueue mutation none)
  | .flush i => s.startFlush i
  | .answer i outcome => s.answer i outcome

/-- The queue, from an empty storage. -/
def queueSystem (E : QueueEnv) : System (QueueState ι N) (QueueEvent ι N) where
  init s := s.items = [] ∧ (∀ i, s.phase i = .idle) ∧ s.enqueued = [] ∧ s.sent = [] ∧
    s.answered = []
  step := queueStep E

end

/-! ## Sound events -/

section
variable {ι N : Type} [JsNumber N] [DecidableEq ι]

/-- Each header of a name among those that the caller gives is replaced by an option. -/
def Replaced (headers : Headers) (name : String) (value : Option String) : Prop :=
  ∀ header ∈ headers, SameName header.1 name → header.1 = name ∧ value ≠ none ∧ value ≠ some ""

/-- An event that keeps the promise of the queue: a write says all that matters in its path, its
body and its options, a flush that replays is the only one, nothing but its last replay fails, and
nothing was stored before it writes back. -/
def SoundQueueEvent (E : QueueEnv) (s : QueueState ι N) : QueueEvent ι N → Prop
  | .session _ | .enqueue _ => True
  | .write path options uuid .. =>
    E.clientUrl = E.queueUrl ∧ options.query = [] ∧
    Replaced options.headers "If-Match" options.ifMatch ∧
    Replaced options.headers "Idempotency-Key" (effectiveKey path options uuid)
  | .flush _ => ∀ j, s.phase j = .idle
  | .answer i outcome => ∀ items item rest remaining,
    s.phase i = .sending items item rest remaining →
      (rest ≠ [] → outcome.isDefinitive = true) ∧
      (rest = [] → s.items = items ∨ items = [item] ∧ outcome.isDefinitive = false)

end

end HeadlessErp
