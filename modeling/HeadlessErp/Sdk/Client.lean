import HeadlessErp.Sdk.ResponseCache

/-!
# The reads of the client

`requestMeta` and `fieldRestrictions` of `packages/sdk/src/client.ts`, from one await to the next,
beside logins, logouts and restarts. `returned` lists what callers were given without a fresh body.
-/

namespace HeadlessErp

/-- A call of `requestMeta`. One that `fieldRestrictions` makes has a collection. -/
structure ReadCall (N : Type) where
  path : String
  options : RequestOptions N
  validate : Option (JsVal N → Option (JsVal N))
  collection : Option String

/-- A response, up to its body. -/
structure ServerResponse (N : Type) where
  status : Nat
  etag : Option String
  offlineMaxAge : Option String

/-- Where a call waits: for the response, for the end of the backoff, for a new session, for the
body of a response, or for the promise of `fieldRestrictions`. -/
inductive ClientPhase (N : Type) where
  | idle
  | waiting (call : ReadCall N) (attempt : Nat) (cached : Option (CachedResponse N))
      (account : Option String)
  | retrying (call : ReadCall N) (attempt : Nat)
  | refreshing (call : ReadCall N) (attempt : Nat)
  | reading (call : ReadCall N) (response : ServerResponse N) (account : Option String)
  | settling (collection : String) (restrictions : Option (List (JsVal N)))
      (account : Option String)

/-- An entry of the permission cache, with the account whose request it answers. -/
structure PermEntry (N : Type) where
  storedAt : Nat
  restrictions : Option (List (JsVal N))
  account : Option String

/-- Data that a caller was given: the account that was signed in, and the account whose request the
data answers. -/
structure Returned where
  signedIn : Option String
  account : Option String
  deriving DecidableEq, Repr

/-- The client, with the accounts that were signed in so far. -/
structure ClientState (ι N : Type) where
  token : Option (SessionToken N)
  cache : Option (ResponseCache N)
  permCache : String → Option (PermEntry N)
  /-- A run of `fieldRestrictions`, and whether another caller waits for it. -/
  permInflight : String → Option Bool
  phase : ι → ClientPhase N
  clock : Nat
  accounts : List String
  returned : List Returned

/-- The options of the client. -/
structure ClientEnv where
  baseUrl : String
  attempts : Nat
  refreshSession : Bool

section
variable {ι N : Type} [JsNumber N]

/-- The account that is signed in. -/
def ClientState.account (s : ClientState ι N) : Option String := s.token.map tokenSubjectOf

/-- `offlineMaxAge`. -/
def offlineMaxAge (header : Option String) : Option N :=
  let seconds : N := JsNumber.ofString (header.getD "")
  if JsNumber.isFinite seconds && JsNumber.lt (JsNumber.ofInt 0) seconds then some seconds else none

/-- A property of a parsed body. -/
def bodyField (body : JsVal N) (name : String) : JsVal N :=
  match body with
  | .obj fields => Record.get fields name
  | _ => .undefined

/-- The restrictions in an answer of `/auth/me`. -/
def restrictionsOf (data : JsVal N) : Option (List (JsVal N)) :=
  match bodyField data "field_restrictions" with
  | .arr fields => some fields
  | _ => none

def transientStatus : List Nat := [408, 429, 502, 503]

def permTtlMs : Nat := 60000

/-- A value is given to a caller without a fresh body. -/
def ClientState.give (s : ClientState ι N) (account : Option String) : ClientState ι N :=
  { s with returned := ⟨s.account, account⟩ :: s.returned }

/-- The response to a read is stored. -/
def ClientState.store (s : ClientState ι N) (target : String) (entry : CachedResponse N)
    (now : Nat) : ClientState ι N :=
  { s with cache := s.cache.map fun c => c.set target entry now }

variable [DecidableEq ι]

def ClientState.goto (s : ClientState ι N) (i : ι) (phase : ClientPhase N) : ClientState ι N :=
  { s with phase := Function.update s.phase i phase }

/-- A call fails. A failed run of `fieldRestrictions` is no longer in flight. -/
def ClientState.fail (s : ClientState ι N) (i : ι) (call : ReadCall N) : ClientState ι N :=
  let s := s.goto i .idle
  match call.collection with
  | none => s
  | some collection =>
    { s with permInflight := Function.update s.permInflight collection none }

/-- A call returns data. -/
def ClientState.finish (s : ClientState ι N) (i : ι) (call : ReadCall N) (data : JsVal N)
    (account : Option String) : ClientState ι N :=
  match call.collection with
  | none => s.goto i .idle
  | some collection => s.goto i (.settling collection (restrictionsOf data) account)

/-- The stored token, unless it has expired. -/
def usableToken (token : Option (SessionToken N)) (now : Nat) : Option (SessionToken N) :=
  token.filter fun token => !isTokenExpired token now

/-- `requestMeta`, up to its request. -/
def ClientState.send (E : ClientEnv) (s : ClientState ι N) (i : ι) (call : ReadCall N)
    (attempt : Nat) (conditional : Bool) (now : Nat) : ClientState ι N :=
  let token := usableToken s.token now
  let account := token.map tokenSubjectOf
  let cache := s.cache.map fun c => c.hydrate (account.map fingerprint) now
  let isRead := upperCase call.options.method == "GET"
  let hasTag := call.options.headers.any fun header => header.1 == "If-None-Match" && header.2 != ""
  let target := requestTarget E.baseUrl call.path call.options.query
  if isRead && conditional && !hasTag then
    let found := cache.map fun c => c.get target
    { s with
      token
      cache := found.map (·.2)
      phase := Function.update s.phase i (.waiting call attempt (found.bind (·.1)) account) }
  else
    { s with
      token
      cache
      phase := Function.update s.phase i (.waiting call attempt none account) }

/-- `requestMeta`, from its response to the next await. No response is a network failure. -/
def ClientState.answer (E : ClientEnv) (s : ClientState ι N) (i : ι)
    (response : Option (ServerResponse N)) (now : Nat) : Option (ClientState ι N) :=
  match s.phase i with
  | .waiting call attempt cached account =>
    let target := requestTarget E.baseUrl call.path call.options.query
    match response with
    | none =>
      match cached with
      | some entry =>
        if s.cache.isSome && entry.isFresh now then
          some ((s.give entry.account).finish i call entry.data entry.account)
        else some (s.fail i call)
      | none => some (s.fail i call)
    | some response =>
      if transientStatus.contains response.status && decide (attempt < E.attempts) then
        some (s.goto i (.retrying call (attempt + 1)))
      else if response.status = 401 ∧ loginPaths.contains call.path = false ∧ attempt = 0 ∧
          E.refreshSession = true then
        some ({ s with token := none }.goto i (.refreshing call (attempt + 1)))
      else if response.status = 304 then
        match cached with
        | some entry =>
          let refreshed := { entry with
            storedAt := some now, maxAgeS := offlineMaxAge response.offlineMaxAge }
          some (((s.store target refreshed now).give entry.account).finish i call entry.data
            entry.account)
        | none =>
          if attempt < E.attempts then some (s.send E i call (attempt + 1) false now)
          else some (s.fail i call)
      else some (s.goto i (.reading call response account))
  | _ => none

/-- The data in the body of a response, or none where `requestMeta` throws. -/
def envelopeData (call : ReadCall N) (response : ServerResponse N) (json : JsVal N) :
    Option (JsVal N) :=
  let failed :=
    match bodyField json "success" with
    | .bool success => !success
    | _ => false
  if decide (200 ≤ response.status ∧ response.status < 300) && json.truthy && !failed then
    match call.validate, bodyField json "data" with
    | none, data => some data
    | _, .undefined => some .undefined
    | some validate, data => validate data
  else none

/-- `requestMeta`, from the body of its response on. No body is one that cannot be read. -/
def ClientState.read (E : ClientEnv) (s : ClientState ι N) (i : ι) (body : Option (JsVal N))
    (now : Nat) : Option (ClientState ι N) :=
  match s.phase i with
  | .reading call response account =>
    let json := body.getD .null
    match envelopeData call response json with
    | none => some (s.fail i call)
    | some result =>
      let etag := response.etag.getD ""
      let entry : CachedResponse N :=
        { etag, data := result, metadata := bodyField json "meta", storedAt := some now
          maxAgeS := offlineMaxAge response.offlineMaxAge, account }
      let target := requestTarget E.baseUrl call.path call.options.query
      let s :=
        if upperCase call.options.method = "GET" ∧ etag ≠ "" then s.store target entry now else s
      some (s.finish i call result account)
  | _ => none

/-- The end of a run of `fieldRestrictions`. -/
def ClientState.settle (s : ClientState ι N) (i : ι) (now : Nat) : Option (ClientState ι N) :=
  match s.phase i with
  | .settling collection restrictions account =>
    let entry := { storedAt := now, restrictions, account }
    let joined := s.permInflight collection = some true
    let s := { s with
      permCache := Function.update s.permCache collection (some entry)
      permInflight := Function.update s.permInflight collection none }
    some ((if joined then s.give account else s).goto i .idle)
  | _ => none

/-- The options of the request of `fieldRestrictions`. -/
def restrictionsCall (collection : String) : ReadCall N where
  path := "/auth/me"
  options :=
    { method := "GET", query := [("collection", collection)], body := .none, headers := []
      headers_nodup := List.nodup_nil, idempotencyKey := none, ifMatch := none, noQueue := false }
  validate := none
  collection := some collection

/-- A call of `fieldRestrictions`. -/
def ClientState.fieldRestrictions (E : ClientEnv) (s : ClientState ι N) (i : ι)
    (collection : String) (now : Nat) : ClientState ι N :=
  let fresh := (s.permCache collection).filter fun entry =>
    decide (now - entry.storedAt < permTtlMs)
  match fresh with
  | some entry => s.give entry.account
  | none =>
    match s.permInflight collection with
    | some _ => { s with permInflight := Function.update s.permInflight collection (some true) }
    | none =>
      let s := { s with permInflight := Function.update s.permInflight collection (some false) }
      s.send E i (restrictionsCall collection) 0 true now

/-- The state after a restart of the process, with what is left on the device. -/
def ClientState.restart (s : ClientState ι N) (device : Bool) : ClientState ι N :=
  { s with
    cache := s.cache.map fun c => { c with
      store := []
      storage := c.storage.map fun storage => if device then storage else ⟨[], none⟩
      hydrated := false
      fp := none }
    permCache := fun _ => none
    permInflight := fun _ => none
    phase := fun _ => .idle }

/-- The state after another token was stored. -/
def ClientState.signIn (s : ClientState ι N) (token : Option (SessionToken N)) : ClientState ι N :=
  { s with
    token
    accounts := (token.map tokenSubjectOf).toList ++ s.accounts }

/-- What happens to a client, with the time. -/
inductive ClientEvent (ι N : Type) where
  | signIn (token : Option (SessionToken N))
  | logout
  | restart (device : Bool)
  | call (i : ι) (call : ReadCall N)
  | restrictions (i : ι) (collection : String)
  | answer (i : ι) (response : Option (ServerResponse N))
  | resume (i : ι)
  | refreshed (i : ι) (token : Option (SessionToken N))
  | read (i : ι) (body : Option (JsVal N))
  | settle (i : ι)

/-- The state after an event. -/
def clientEvent (E : ClientEnv) (s : ClientState ι N) (now : Nat) :
    ClientEvent ι N → Option (ClientState ι N)
  | .signIn token => some (s.signIn token)
  | .logout => some { s with token := none, cache := s.cache.map ResponseCache.clear }
  | .restart device => some (s.restart device)
  | .call i call =>
    match s.phase i with
    | .idle => some (s.send E i { call with collection := none } 0 true now)
    | _ => none
  | .restrictions i collection =>
    match s.phase i with
    | .idle => some (s.fieldRestrictions E i collection now)
    | _ => none
  | .answer i response => s.answer E i response now
  | .resume i =>
    match s.phase i with
    | .retrying call attempt => some (s.send E i call attempt true now)
    | _ => none
  | .refreshed i token =>
    match s.phase i, token with
    | .refreshing call attempt, some token =>
      some ((s.signIn (some token)).send E i call attempt true now)
    | .refreshing call _, none => some (s.fail i call)
    | _, _ => none
  | .read i body => s.read E i body now
  | .settle i => s.settle i now

/-- The client, from its first start on the device. -/
def clientSystem (E : ClientEnv) : System (ClientState ι N) (Nat × ClientEvent ι N) where
  init s := s.accounts = s.account.toList ∧ (∀ i, s.phase i = .idle) ∧
    (∀ collection, s.permCache collection = none) ∧ s.returned = [] ∧
    ∀ c, s.cache = some c → c.store = [] ∧ c.hydrated = false ∧ c.fp = none ∧
      ∀ device, c.storage = some device → device.entries = []
  step s event := clientEvent E { s with clock := event.1 } event.1 event.2

/-! ## Safe events -/

/-- Where an account is signed in, it is the owner of some data. -/
def Belongs (account owner : Option String) : Prop := ∀ b, account = some b → owner = some b

/-- A response to an account can be stored: no other account is signed in, or has read from the
device. -/
def Storable (s : ClientState ι N) (account : Option String) : Prop :=
  ∀ c, s.cache = some c →
    (c.storage = none → Belongs s.account account) ∧
    (c.storage ≠ none → c.fp = account.map fingerprint)

/-- The copy on the device, where it is still to be read, is empty, or it has a tag just when an
account is signed in. -/
def Adoptable (s : ClientState ι N) (token : Option (SessionToken N)) (now : Nat) : Prop :=
  ∀ c, s.cache = some c → c.hydrated = false → ∀ device, c.storage = some device →
    device.entries = [] ∨ (device.fingerprint = none ↔ usableToken token now = none)

/-- An account can sign in: no account on the device shares its fingerprint, and the permissions
and, without a storage, the responses that are kept are its own. -/
def SignsIn (s : ClientState ι N) (token : SessionToken N) (now : Nat) : Prop :=
  (∀ a ∈ s.accounts, fingerprint a = fingerprint (tokenSubjectOf token) →
    a = tokenSubjectOf token) ∧
  (∀ collection entry, s.permCache collection = some entry → now - entry.storedAt < permTtlMs →
    entry.account = some (tokenSubjectOf token)) ∧
  ∀ c, s.cache = some c → c.storage = none → ∀ kv ∈ c.store,
    kv.2.account = some (tokenSubjectOf token)

/-- An event that keeps the accounts apart. -/
def KeepsApart (s : ClientState ι N) (now : Nat) : ClientEvent ι N → Prop
  | .signIn none | .logout | .restart _ | .refreshed _ none => True
  | .signIn (some token) => SignsIn s token now
  | .refreshed _ (some token) => SignsIn s token now ∧ Adoptable s (some token) now
  | .call _ _ | .restrictions _ _ | .resume _ => Adoptable s s.token now
  | .answer i response => Adoptable s s.token now ∧
    ∀ call attempt entry account, s.phase i = .waiting call attempt (some entry) account →
      (∀ r, response = some r → r.status = 304) → Belongs s.account account ∧ Storable s account
  | .read i _ => ∀ call response account, s.phase i = .reading call response account →
      upperCase call.options.method = "GET" → Storable s account
  | .settle i => ∀ collection restrictions account,
      s.phase i = .settling collection restrictions account → Belongs s.account account

/-- An event that keeps the accounts apart, at a time that is not before the last one. -/
def SafeClientEvent (s : ClientState ι N) (event : Nat × ClientEvent ι N) : Prop :=
  s.clock ≤ event.1 ∧ KeepsApart s event.1 event.2

end

end HeadlessErp
