import Mathlib.Data.String.Basic
import Mathlib.Logic.Function.Basic
import HeadlessErp.Base.StampedLog
import HeadlessErp.Base.Transition
import HeadlessErp.Js.Json
import HeadlessErp.Js.Record

/-!
# The version of the authorization data

`authzVersion` (`apps/api/src/lib/services/authz-version.ts`) and the decisions that are cached
under it: `_getCachedUser` and `_getCachedRole` of `auth.service.ts`, `checkBusiness`,
`_getPermissionRow`, `getFieldRestrictions` and `getRowFilter` of `permission-evaluator.ts`. Each
isolate has a cache of its own. A decision runs from one await to the next, beside the other
decisions and the writes.
-/

namespace HeadlessErp

/-! ## Tables -/

/-- The tables that decisions read. -/
inductive AuthzTable where
  | users
  | roles
  | rolePermissions
  deriving DecidableEq, Repr

/-- The rows of the tables. -/
abbrev AuthzTables (N : Type) := AuthzTable → List (Record N)

/-- A statement that writes to one of the tables. -/
inductive AuthzWrite (N : Type) where
  | insert (table : AuthzTable) (row : Record N)
  | update (table : AuthzTable) (id : String) (changes : Record N)
  | delete (table : AuthzTable) (id : String)

section
variable {N : Type} [JsNumber N]

def hasText (name text : String) (row : Record N) : Bool :=
  match row.get name with
  | .str value => value == text
  | _ => false

/-- The tables after a statement. -/
def AuthzWrite.apply (tables : AuthzTables N) : AuthzWrite N → AuthzTables N
  | .insert table row => Function.update tables table (tables table ++ [row])
  | .update table id changes => Function.update tables table
      ((tables table).map fun row => if hasText "id" id row then row.assign changes else row)
  | .delete table id =>
    Function.update tables table ((tables table).filter fun row => !hasText "id" id row)

/-- `Repository.create`. -/
def repositoryCreate (table : AuthzTable) (row : Record N) (now : String) : AuthzWrite N :=
  .insert table (row.assign [("created_at", .str now), ("updated_at", .str now)])

/-- `Repository.update`. -/
def repositoryUpdate (table : AuthzTable) (id : String) (changes : Record N) (now : String) :
    AuthzWrite N := .update table id (changes.assign [("updated_at", .str now)])

/-- The grants of `ensureRolePermissions`. -/
def provisionedGrant : Record N :=
  [("can_read", .num (JsNumber.ofInt 1)), ("can_write", .num (JsNumber.ofInt 1)),
    ("can_create", .num (JsNumber.ofInt 1)), ("can_delete", .num (JsNumber.ofInt 0)),
    ("can_submit", .num (JsNumber.ofInt 1))]

/-- The update of `ensureRolePermissions`, on the row of a role and a collection. -/
def healPermission (id : String) : AuthzWrite N := .update .rolePermissions id provisionedGrant

/-- The times of the rows of a table. -/
def updatedTimes (rows : List (Record N)) : List String :=
  rows.filterMap fun row =>
    match row.get "updated_at" with
    | .str time => some time
    | _ => none

def maxText (a b : String) : String := if a < b then b else a

/-- The version that `authzVersion` reads. -/
def authzStamp (tables : AuthzTables N) : String :=
  match updatedTimes (tables .users) ++ updatedTimes (tables .roles) ++
    updatedTimes (tables .rolePermissions) with
  | [] => "0"
  | time :: times => times.foldl maxText time

/-! ## Decisions -/

/-- What a decision takes from a row of permissions. -/
inductive PermUse where
  | action (name : String)
  | fields
  | rowFilter
  deriving DecidableEq, Repr

/-- What is cached: a user, a role, a row of permissions, or what was taken from one. -/
inductive AuthzEntry where
  | user (id : String)
  | role (id : String)
  | row (roleId slug : String)
  | derived (roleId slug : String) (use : PermUse)
  deriving DecidableEq, Repr

/-- The value of an entry. -/
inductive AuthzValue (N : Type) where
  | record (row : Option (Record N))
  | allowed (answer : Bool)
  | fields (names : Option (List (JsVal N)))
  | filter (condition : Option (JsVal N))

/-- The part of a row that decisions read: a sign-in only writes `last_login`. -/
def authzRow (rows : List (Record N)) (p : Record N → Bool) : Option (Record N) :=
  (rows.find? p).map fun row => row.erase "last_login"

/-- `JSON.parse` of a column that holds a text. -/
def parseColumn (row : Record N) (name : String) : Option (JsVal N) :=
  match row.get name with
  | .str text => if text ≠ "" then Json.parse text else none
  | _ => none

/-- What a decision takes from a row of permissions. -/
def derive (use : PermUse) (row : Option (Record N)) : AuthzValue N :=
  match use, row with
  | .action _, none => .allowed false
  | .action name, some row => .allowed (row.get ("can_" ++ name)).truthy
  | .fields, none => .fields none
  | .fields, some row =>
    match parseColumn row "field_restrictions" with
    | some (.arr names) => .fields (some names)
    | _ => .fields none
  | .rowFilter, none => .filter none
  | .rowFilter, some row =>
    match parseColumn row "row_filters" with
    | some (.arr conditions) => .filter (some (.arr conditions))
    | some (.obj condition) =>
      match Record.get condition "type" with
      | .str "all" => .filter none
      | _ => .filter (some (.obj condition))
    | _ => .filter none

/-- The row that `_getPermissionRow` reads. -/
def permissionRow (tables : AuthzTables N) (roleId slug : String) : Option (Record N) :=
  if roleId = "" then none
  else authzRow (tables .rolePermissions) fun row =>
    hasText "role_id" roleId row && hasText "collection_slug" slug row

/-- The value of an entry, computed from the tables. -/
def authzValue (tables : AuthzTables N) : AuthzEntry → AuthzValue N
  | .user id =>
    .record (if id = "" then none else authzRow (tables .users) (hasText "id" id))
  | .role id =>
    .record (if id = "" then none else authzRow (tables .roles) (hasText "id" id))
  | .row roleId slug => .record (permissionRow tables roleId slug)
  | .derived roleId slug use => derive use (permissionRow tables roleId slug)

/-- The time for which an entry is cached. -/
def entryTtl : AuthzEntry → Nat
  | .user _ | .role _ => 60000
  | .row _ _ | .derived _ _ _ => 15000

def versionTtlMs : Nat := 1000

end

/-! ## Isolates -/

/-- A decision, from one await to the next: it waits for the version, or for a row. The version of
an outer decision is kept while its row of permissions is read. A query is first answered by the
database, and then the answer arrives. -/
inductive AuthzPhase (N : Type) where
  | idle
  | versionAsked (start : Nat) (entry : AuthzEntry) (outer : Option (PermUse × String))
  | versionRead (start : Nat) (entry : AuthzEntry) (outer : Option (PermUse × String))
      (version : String)
  | rowAsked (start : Nat) (entry : AuthzEntry) (outer : Option (PermUse × String))
      (version : String)
  | rowRead (start : Nat) (entry : AuthzEntry) (outer : Option (PermUse × String))
      (version : String) (value : AuthzValue N)
  | decided (start : Nat) (version : Option String)

/-- A decision that was made: when it began, and the value it used. -/
structure AuthzDecision (N : Type) where
  start : Nat
  entry : AuthzEntry
  value : AuthzValue N

/-- The database with all states it went through, the caches of the isolates, and the decisions. -/
structure AuthzState (ι τ N : Type) where
  tables : AuthzTables N
  log : List (LogEntry (AuthzTables N))
  version : ι → Option (String × Nat)
  cached : ι → AuthzEntry → String → Option (AuthzValue N × Nat)
  phase : τ → AuthzPhase N
  decisions : List (AuthzDecision N)
  clock : Nat

/-- The value of an entry of a cache that has not expired. -/
def freshValue {α : Type} (entry : Option (α × Nat)) (ttl now : Nat) : Option α :=
  match entry with
  | some (value, stored) => if now - stored ≤ ttl then some value else none
  | none => none

section
variable {ι τ N : Type} [JsNumber N] [DecidableEq ι] [DecidableEq τ] (isolate : τ → ι)

def AuthzState.goto (s : AuthzState ι τ N) (t : τ) (phase : AuthzPhase N) : AuthzState ι τ N :=
  { s with phase := Function.update s.phase t phase }

/-- An entry is cached. -/
def AuthzState.store (s : AuthzState ι τ N) (i : ι) (entry : AuthzEntry) (version : String)
    (value : AuthzValue N) (now : Nat) : AuthzState ι τ N :=
  let versions := Function.update (s.cached i entry) version (some (value, now))
  { s with cached := Function.update s.cached i (Function.update (s.cached i) entry versions) }

omit [JsNumber N] [DecidableEq τ] in
/-- What is cached after a store: the value, or what was cached. -/
theorem AuthzState.cached_store {s : AuthzState ι τ N} {i i' : ι} {entry entry' : AuthzEntry}
    {version version' : String} {value : AuthzValue N} {now : Nat} {held : AuthzValue N × Nat}
    (h : (s.store i entry version value now).cached i' entry' version' = some held) :
    (i' = i ∧ entry' = entry ∧ version' = version ∧ held = (value, now)) ∨
      s.cached i' entry' version' = some held := by
  have hcached : Function.update s.cached i (Function.update (s.cached i) entry
      (Function.update (s.cached i entry) version (some (value, now)))) i' entry' version' =
      some held := h
  rcases eq_or_ne i' i with rfl | hi
  · rw [Function.update_self] at hcached
    rcases eq_or_ne entry' entry with rfl | hentry
    · rw [Function.update_self] at hcached
      rcases eq_or_ne version' version with rfl | hversion
      · rw [Function.update_self] at hcached
        exact .inl ⟨rfl, rfl, rfl, (Option.some.inj hcached).symm⟩
      · rw [Function.update_of_ne hversion] at hcached
        exact .inr hcached
    · rw [Function.update_of_ne hentry] at hcached
      exact .inr hcached
  · rw [Function.update_of_ne hi] at hcached
    exact .inr hcached

/-- A decision has its value. -/
def AuthzState.decide (s : AuthzState ι τ N) (t : τ) (start : Nat) (entry : AuthzEntry)
    (version : Option String) (value : AuthzValue N) : AuthzState ι τ N :=
  { s.goto t (.decided start version) with
    decisions := ⟨start, entry, value⟩ :: s.decisions }

/-- A value was found: an outer decision takes what it needs from the row, and is cached. -/
def AuthzState.complete (s : AuthzState ι τ N) (t : τ) (start : Nat) (entry : AuthzEntry)
    (outer : Option (PermUse × String)) (version : Option String) (value : AuthzValue N)
    (now : Nat) : AuthzState ι τ N :=
  match outer, entry, value with
  | some (use, version), .row roleId slug, .record row =>
    (s.store (isolate t) (.derived roleId slug use) version (derive use row) now).decide t start
      (.derived roleId slug use) (some version) (derive use row)
  | _, _, _ => s.decide t start entry version value

/-- `_getCachedUser`, `_getCachedRole`, and `_getPermissionRow` with a version. -/
def AuthzState.lookup (s : AuthzState ι τ N) (t : τ) (start : Nat) (entry : AuthzEntry)
    (outer : Option (PermUse × String)) (version : String) (now : Nat) : AuthzState ι τ N :=
  match freshValue (s.cached (isolate t) entry version) (entryTtl entry) now with
  | some value => s.complete isolate t start entry outer (some version) value now
  | none => s.goto t (.rowAsked start entry outer version)

/-- `_getPermissionRow`, for a decision that is cached under a version. -/
def AuthzState.permissionRow (s : AuthzState ι τ N) (t : τ) (start : Nat) (roleId slug : String)
    (outer : PermUse × String) (now : Nat) : AuthzState ι τ N :=
  if roleId = "" then
    s.complete isolate t start (.row roleId slug) (some outer) none (.record none) now
  else
    match freshValue (s.version (isolate t)) versionTtlMs now with
    | some version => s.lookup isolate t start (.row roleId slug) (some outer) version now
    | none => s.goto t (.versionAsked start (.row roleId slug) (some outer))

/-- A decision with a version. -/
def AuthzState.withVersion (s : AuthzState ι τ N) (t : τ) (start : Nat) (entry : AuthzEntry)
    (outer : Option (PermUse × String)) (version : String) (now : Nat) : AuthzState ι τ N :=
  match entry with
  | .derived roleId slug use =>
    match freshValue (s.cached (isolate t) entry version) (entryTtl entry) now with
    | some value => s.decide t start entry (some version) value
    | none => s.permissionRow isolate t start roleId slug (use, version) now
  | entry => s.lookup isolate t start entry outer version now

/-- The entries that are answered without a query. -/
def AuthzEntry.isEmpty : AuthzEntry → Bool
  | .user id | .role id | .row id _ | .derived id _ .fields | .derived id _ .rowFilter => id == ""
  | .derived _ _ (.action _) => false

/-- The value of an entry without an id. -/
def emptyValue : AuthzEntry → AuthzValue N
  | .derived _ _ use => derive use none
  | _ => .record none

/-- A decision begins. -/
def AuthzState.begin (s : AuthzState ι τ N) (t : τ) (entry : AuthzEntry) (now : Nat) :
    AuthzState ι τ N :=
  if entry.isEmpty then s.decide t now entry none (emptyValue entry)
  else
    match freshValue (s.version (isolate t)) versionTtlMs now with
    | some version => s.withVersion isolate t now entry none version now
    | none => s.goto t (.versionAsked now entry none)

/-- The database answers the query of a decision. -/
def AuthzState.query (s : AuthzState ι τ N) (t : τ) : Option (AuthzState ι τ N) :=
  match s.phase t with
  | .versionAsked start entry outer =>
    some (s.goto t (.versionRead start entry outer (authzStamp s.tables)))
  | .rowAsked start entry outer version =>
    some (s.goto t (.rowRead start entry outer version (authzValue s.tables entry)))
  | _ => none

/-- The answer of a query arrives. A query for the version that fails gives the version zero, and
one for a row ends the decision. -/
def AuthzState.answer (s : AuthzState ι τ N) (t : τ) (failed : Bool) (now : Nat) :
    Option (AuthzState ι τ N) :=
  match s.phase t with
  | .versionRead start entry outer version =>
    let version := if failed then "0" else version
    let s := { s with version := Function.update s.version (isolate t) (some (version, now)) }
    some (s.withVersion isolate t start entry outer version now)
  | .rowRead start entry outer version value =>
    if failed then some (s.goto t .idle)
    else some ((s.store (isolate t) entry version value now).complete isolate t start entry outer
      (some version) value now)
  | _ => none

/-- What happens: a write of an isolate, the loss of entries of a cache (they are invalidated, or
make room), and the steps of a decision. The next lookup of a decision uses the version it has. -/
inductive AuthzEvent (ι τ N : Type) where
  | write (statements : List (AuthzWrite N))
  | evict (i : ι) (keepVersion : Bool) (keep : AuthzEntry → String → Bool)
  | begin (t : τ) (entry : AuthzEntry)
  | next (t : τ) (entry : AuthzEntry)
  | query (t : τ)
  | answer (t : τ) (failed : Bool)

/-- The state after an event. -/
def authzEvent (s : AuthzState ι τ N) (now : Nat) : AuthzEvent ι τ N → Option (AuthzState ι τ N)
  | .write statements =>
    let tables := statements.foldl AuthzWrite.apply s.tables
    some { s with tables, log := pushState s.log now tables }
  | .evict i keepVersion keep =>
    some { s with
      version := if keepVersion then s.version else Function.update s.version i none
      cached := Function.update s.cached i fun entry version =>
        if keep entry version then s.cached i entry version else none }
  | .begin t entry =>
    match s.phase t with
    | .idle | .decided _ _ => some (s.begin isolate t entry now)
    | _ => none
  | .next t entry =>
    match s.phase t with
    | .decided start (some version) =>
      some (if entry.isEmpty then s.decide t start entry (some version) (emptyValue entry)
        else s.withVersion isolate t start entry none version now)
    | _ => none
  | .query t => s.query t
  | .answer t failed => s.answer isolate t failed now

/-- The isolates, from the state of some tables. -/
def authzSystem : System (AuthzState ι τ N) (Nat × AuthzEvent ι τ N) where
  init s := s.log = pushState [] s.clock s.tables ∧ (∀ i, s.version i = none) ∧
    (∀ i entry version, s.cached i entry version = none) ∧ (∀ t, s.phase t = .idle) ∧
    s.decisions = []
  step s event := authzEvent isolate { s with clock := event.1 } event.1 event.2

/-- An event that keeps the caches fresh, at a time that is not before the last one: a write that
changes what decisions read gives a version that has not been there, and a version is current when
its query is answered. -/
def FreshEvent (s : AuthzState ι τ N) (event : Nat × AuthzEvent ι τ N) : Prop :=
  s.clock ≤ event.1 ∧
  match event.2 with
  | .write statements => FreshStamp authzStamp authzValue s.log s.tables
      (statements.foldl AuthzWrite.apply s.tables)
  | .answer t failed => ∀ start entry outer version,
      s.phase t = .versionRead start entry outer version →
      failed = false ∧ version = authzStamp s.tables
  | _ => True

end

end HeadlessErp
