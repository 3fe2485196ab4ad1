import HeadlessErp.Authz.Version

/-!
# Changes of permissions beside reads

`setPermission` of `auth.service.ts` and the checks of a read request (`checkBusiness`, then
`getFieldRestrictions` and `getRowFilter` of `permission-evaluator.ts`). A call deletes the row of
the role and the collection and inserts another one, in two statements.
-/

namespace HeadlessErp

/-! ## Calls -/

/-- `SetPermissionInput`. -/
structure SetPermissionInput where
  roleId : String
  collectionSlug : String
  existingId : Option String
  canRead : Option Bool
  canWrite : Option Bool
  canCreate : Option Bool
  canDelete : Option Bool
  canApprove : Option Bool
  canSubmit : Option Bool
  fieldRestrictions : Option String
  rowFilters : Option String
  source : Option String
  sourceModule : Option String

/-- A call of `setPermission`, from one await to the next. After a conflict it starts again. -/
inductive SetPermissionPhase where
  | idle
  | finding (input : SetPermissionInput) (again : Bool)
  | deleting (input : SetPermissionInput) (again : Bool) (id permId : String)
  | creating (input : SetPermissionInput) (again : Bool) (permId : String)
  | created (input : SetPermissionInput)
  | ended

section
variable {N : Type} [JsNumber N]

/-- A boolean, as the database keeps it. -/
def storedFlag (flag : Option Bool) (otherwise : Bool) : JsVal N :=
  .num (JsNumber.ofInt (if flag.getD otherwise then 1 else 0))

def textOrNull : Option String → JsVal N
  | some text => .str text
  | none => .null

/-- The row that `setPermission` creates. -/
def SetPermissionInput.record (input : SetPermissionInput) (permId : String) : Record N :=
  [("id", .str permId), ("role_id", .str input.roleId),
    ("collection_slug", .str input.collectionSlug), ("can_read", storedFlag input.canRead true),
    ("can_write", storedFlag input.canWrite false),
    ("can_create", storedFlag input.canCreate false),
    ("can_delete", storedFlag input.canDelete false),
    ("can_approve", storedFlag input.canApprove false),
    ("can_submit", storedFlag input.canSubmit false),
    ("field_restrictions", textOrNull input.fieldRestrictions),
    ("row_filters", textOrNull input.rowFilters), ("source", .str (input.source.getD "admin")),
    ("source_module", textOrNull input.sourceModule)]

/-- The row of a role and a collection, of which there is one. -/
def ofPair (roleId slug : String) (row : Record N) : Bool :=
  hasText "role_id" roleId row && hasText "collection_slug" slug row

/-- The lookup of `setPermission`: by the id that the caller gave, or by the role and the
collection. -/
def SetPermissionInput.find (input : SetPermissionInput) (again : Bool) (tables : AuthzTables N) :
    Option (Record N) :=
  match input.existingId, again with
  | some id, false =>
    if id ≠ "" then (tables .rolePermissions).find? (hasText "id" id)
    else (tables .rolePermissions).find? (ofPair input.roleId input.collectionSlug)
  | _, _ => (tables .rolePermissions).find? (ofPair input.roleId input.collectionSlug)

def permissionId (row : Record N) : String :=
  match row.get "id" with
  | .str id => id
  | _ => ""

/-- A statement of a call: the phase after it, and what it writes. `uuid` is the id that
`crypto.randomUUID` gives, and `now` the time. -/
def setPermissionStep (tables : AuthzTables N) (uuid now : String) :
    SetPermissionPhase → Option (SetPermissionPhase × Option (AuthzWrite N))
  | .finding input again =>
    match input.find again tables with
    | some row =>
      let id := permissionId row
      some (.deleting input again id (if id = "" then uuid else id), none)
    | none => some (.creating input again uuid, none)
  | .deleting input again id permId =>
    if (tables .rolePermissions).any (hasText "id" id) then
      some (.creating input again permId, some (.delete .rolePermissions id))
    else some (.ended, none)
  | .creating input again permId =>
    -- The primary key, and the unique index on the role and the collection.
    if (tables .rolePermissions).any fun row =>
        hasText "id" permId row || ofPair input.roleId input.collectionSlug row then
      some (if again then .ended else .finding input true, none)
    else
      some (.created input, some (repositoryCreate .rolePermissions (input.record permId) now))
  | .idle | .created _ | .ended => none

end

/-- `invalidateBusinessCache`: what stays cached. -/
def keepsOthers (roleId : String) : AuthzEntry → Bool
  | .row id _ | .derived id _ _ => id != roleId
  | _ => true

/-! ## Requests -/

/-- The isolates, the calls, and what each check of a request answered. A check of a request is a
decision of its own. -/
structure PermissionState (ι ρ ω N : Type) where
  authz : AuthzState ι (ρ × PermUse) N
  call : ω → SetPermissionPhase
  answer : ρ → PermUse → Option (AuthzValue N)

/-- What `checkBusiness` of a read looks up. -/
def readUse : PermUse := .action "read"

def isAllowed {N : Type} : Option (AuthzValue N) → Bool
  | some (.allowed true) => true
  | _ => false

/-- What happens: a call begins, or a statement of it runs; a check of a request begins, the
database answers its query, or the answer arrives; an isolate loses entries of its cache. -/
inductive PermissionEvent (ι ρ ω : Type) where
  | setPermission (w : ω) (input : SetPermissionInput)
  | statement (w : ω) (uuid now : String)
  | begin (q : ρ) (use : PermUse)
  | query (q : ρ) (use : PermUse)
  | answer (q : ρ) (use : PermUse) (failed : Bool)
  | evict (i : ι) (keepVersion : Bool) (keep : AuthzEntry → String → Bool)

section
variable {ι ρ ω N : Type} [JsNumber N] [DecidableEq ι] [DecidableEq ρ] [DecidableEq ω]
  (isolate : ρ → ι) (home : ω → ι) (target : ρ → String × String)

/-- What a check looks up: the role and the collection are those of the request. -/
def checkEntry (q : ρ) (use : PermUse) : AuthzEntry := .derived (target q).1 (target q).2 use

def AuthzState.at (s : AuthzState ι (ρ × PermUse) N) (clock : Nat) :
    AuthzState ι (ρ × PermUse) N := { s with clock }

/-- An event of the isolates. -/
def PermissionState.authzEvent (s : PermissionState ι ρ ω N) (now : Nat)
    (event : AuthzEvent ι (ρ × PermUse) N) : Option (PermissionState ι ρ ω N) :=
  (HeadlessErp.authzEvent (fun t => isolate t.1) (s.authz.at now) now event).map fun authz =>
    { s with authz }

/-- The value of a check that was decided in the last step. -/
def lastAnswer (authz : AuthzState ι (ρ × PermUse) N) (t : ρ × PermUse) : Option (AuthzValue N) :=
  match authz.phase t, authz.decisions with
  | .decided _ _, decision :: _ => some decision.value
  | _, _ => none

/-- The answers after a step of a check: one that has its value has answered. -/
def answered (authz : AuthzState ι (ρ × PermUse) N) (q : ρ) (use : PermUse)
    (answer : ρ → PermUse → Option (AuthzValue N)) : ρ → PermUse → Option (AuthzValue N) :=
  match lastAnswer authz (q, use) with
  | some value => Function.update answer q (Function.update (answer q) use (some value))
  | none => answer

/-- A step of a check. -/
def PermissionState.check (s : PermissionState ι ρ ω N) (now : Nat) (q : ρ) (use : PermUse)
    (event : AuthzEvent ι (ρ × PermUse) N) : Option (PermissionState ι ρ ω N) :=
  (s.authzEvent isolate now event).map fun s =>
    { s with answer := answered s.authz q use s.answer }

/-- A statement of a call. When the row has been created, the isolate of the call drops what it has
cached for the role, and the version. -/
def PermissionState.statement (s : PermissionState ι ρ ω N) (now : Nat) (w : ω)
    (uuid isoNow : String) : Option (PermissionState ι ρ ω N) :=
  match s.call w with
  | .created input =>
    ({ s with call := Function.update s.call w .ended }).authzEvent isolate now
      (.evict (home w) false fun entry _ => keepsOthers input.roleId entry)
  | phase =>
    match setPermissionStep s.authz.tables uuid isoNow phase with
    | some (phase, some write) =>
      ({ s with call := Function.update s.call w phase }).authzEvent isolate now (.write [write])
    | some (phase, none) => some { s with call := Function.update s.call w phase }
    | none => none

/-- The state after an event. The other checks of a request begin when the first one allows it. -/
def permissionEvent (s : PermissionState ι ρ ω N) (now : Nat) :
    PermissionEvent ι ρ ω → Option (PermissionState ι ρ ω N)
  | .setPermission w input =>
    match s.call w with
    | .idle | .ended => some { s with call := Function.update s.call w (.finding input false) }
    | _ => none
  | .statement w uuid isoNow => s.statement isolate home now w uuid isoNow
  | .begin q use =>
    match s.authz.phase (q, use) with
    | .idle =>
      if use = readUse ∨ isAllowed (s.answer q readUse) then
        s.check isolate now q use (.begin (q, use) (checkEntry target q use))
      else none
    | _ => none
  | .query q use => s.check isolate now q use (.query (q, use))
  | .answer q use failed => s.check isolate now q use (.answer (q, use) failed)
  | .evict i keepVersion keep => s.authzEvent isolate now (.evict i keepVersion keep)

/-- The isolates, the calls and the requests, from the state of some tables. -/
def permissionSystem : System (PermissionState ι ρ ω N) (Nat × PermissionEvent ι ρ ω) where
  init s := s.authz.log = pushState [] s.authz.clock s.authz.tables ∧
    (∀ i, s.authz.version i = none) ∧ (∀ i entry version, s.authz.cached i entry version = none) ∧
    (∀ t, s.authz.phase t = .idle) ∧ (∀ w, s.call w = .idle) ∧ ∀ q use, s.answer q use = none
  step s event := permissionEvent isolate home target s event.1 event.2

end

/-! ## Reads -/

section
variable {ι ρ ω N : Type} [JsNumber N]

/-- A state of the tables in which the row of a role and a collection is there, or has not been
there yet. -/
def Settled (log : List (LogEntry (AuthzTables N))) (roleId slug : String)
    (x : LogEntry (AuthzTables N)) : Prop :=
  x ∈ log ∧ ((permissionRow x.state roleId slug).isSome ∨
    ∀ y ∈ log, y.seq ≤ x.seq → permissionRow y.state roleId slug = none)

/-- Readers see each change as one step: the checks of a request that is allowed to read use one row
of permissions, which lets the role read, and nothing is cached from the time between the statements
of a call. -/
structure ReadersAtomic (target : ρ → String × String) (s : PermissionState ι ρ ω N) : Prop where
  served : ∀ q, s.answer q readUse = some (.allowed true) → ∃ x ∈ s.authz.log, ∃ row,
    permissionRow x.state (target q).1 (target q).2 = some row ∧ (row.get "can_read").truthy ∧
    ∀ use value, s.answer q use = some value → value = derive use (some row)
  cached : ∀ i roleId slug version value stored,
    s.authz.cached i (.row roleId slug) version = some (value, stored) →
    ∃ x, Settled s.authz.log roleId slug x ∧ value = .record (permissionRow x.state roleId slug)
  derived : ∀ i roleId slug use version value stored,
    s.authz.cached i (.derived roleId slug use) version = some (value, stored) →
    ∃ x, Settled s.authz.log roleId slug x ∧
      value = derive use (permissionRow x.state roleId slug)

/-- The row of a role and a collection under two versions is the same. -/
def SameRow (log : List (LogEntry (AuthzTables N))) (roleId slug version₀ version : String) :
    Prop :=
  ∃ x y, Settled log roleId slug x ∧ Settled log roleId slug y ∧ authzStamp x.state = version₀ ∧
    authzStamp y.state = version ∧
    permissionRow x.state roleId slug = permissionRow y.state roleId slug

/-- A check works with a version under which the row is the one that the first check of the request
has worked with. -/
def WorksWith (target : ρ → String × String) (s : PermissionState ι ρ ω N) (q : ρ)
    (version : String) : Prop :=
  ∀ start version₀, s.authz.phase (q, readUse) = .decided start (some version₀) →
    SameRow s.authz.log (target q).1 (target q).2 version₀ version

/-- An event at which readers do not meet a change. A statement that leaves a row does not bring
back a version under which this row was another. A row is read while it is the row of the version
that the check works with, and not between the two statements of a call. The checks of a request
work with versions under which the row is the same. -/
def CalmEvent (isolate : ρ → ι) (target : ρ → String × String) (s : PermissionState ι ρ ω N)
    (event : Nat × PermissionEvent ι ρ ω) : Prop :=
  match event.2 with
  | .statement w uuid isoNow => ∀ phase write,
      setPermissionStep s.authz.tables uuid isoNow (s.call w) = some (phase, some write) →
      ∀ roleId slug row, permissionRow (write.apply s.authz.tables) roleId slug = some row →
      ∀ x, Settled s.authz.log roleId slug x →
        authzStamp x.state = authzStamp (write.apply s.authz.tables) →
        permissionRow x.state roleId slug = some row
  | .begin q _ => ∀ version, freshValue (s.authz.version (isolate q)) versionTtlMs event.1 =
      some version → WorksWith target s q version
  | .query q use => ∀ start roleId slug outer version,
      s.authz.phase (q, use) = .rowAsked start (.row roleId slug) outer version →
      ∃ x, Settled s.authz.log roleId slug x ∧ authzStamp x.state = version ∧
        permissionRow x.state roleId slug = permissionRow s.authz.tables roleId slug ∧
        (permissionRow s.authz.tables roleId slug = none →
          ∀ y ∈ s.authz.log, permissionRow y.state roleId slug = none)
  | .answer q use failed => ∀ start entry outer version,
      s.authz.phase (q, use) = .versionRead start entry outer version →
      failed = false ∧ WorksWith target s q version
  | .setPermission _ _ | .evict _ _ _ => True

end

end HeadlessErp
