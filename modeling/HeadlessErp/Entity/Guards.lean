import HeadlessErp.Entity.Row
import HeadlessErp.Query.RowFilter

/-!
# Write guards

The checks of `apps/api/src/lib/services/collection-mutation.service.ts` that stand at the entry of
a generic write, and the document states of `packages/core/src/entity/field-utils.ts`.
-/

namespace HeadlessErp

/-- The kinds of a generic write. -/
inductive WriteAction where
  | create
  | update
  | delete
  deriving DecidableEq, Repr

section
variable {N : Type}

/-- `assertGenericWrite`. -/
def assertGenericWrite (collectionSlug : String) (info : CollectionInfo N) (action : WriteAction) :
    Except ApiError Unit :=
  if info.writes.service then
    .error (.forbidden ("\"" ++ collectionSlug ++ "\" is maintained by its domain service and "
      ++ "cannot be written through the generic entity API"))
  else if info.writes.appendOnly && action != .create then
    .error (.forbidden ("\"" ++ collectionSlug
      ++ "\" is an append-only ledger — its rows are immutable"))
  else .ok ()

/-- The actor fields the collection has. -/
def appliedActorFields (info : CollectionInfo N) : List String :=
  info.actorFields.filter fun f => info.schemaFields.any (·.name == f)

/-- `stripFrozenFields`. -/
def stripFrozenFields (info : CollectionInfo N) (data : Record N) : Record N :=
  info.writes.frozenFields.foldl Record.erase data

variable [JsNumber N]

/-- `bindActorFields`. -/
def bindActorFields (collectionSlug : String) (info : CollectionInfo N)
    (auth : Option (AuthContext N)) (data : Record N) (action : WriteAction) :
    Except ApiError (Record N) :=
  let applied := appliedActorFields info
  if applied.isEmpty || auth.any AuthContext.isAdmin then .ok data
  else if action = .update then .ok (applied.foldl Record.erase data)
  else
    let actor := (auth.map (·.get "employee_id")).getD .null
    if actor.truthy then .ok (applied.foldl (fun data f => data.set f actor) data)
    else .error (.forbidden ("\"" ++ collectionSlug ++ "\" records who filed it — this identity "
      ++ "has no employee directory row, so it cannot file one"))

/-- `assertWritableFields`, on the restrictions of the caller's role. -/
def assertWritableFields (collectionSlug : String) (info : CollectionInfo N)
    (auth : Option (AuthContext N)) (restrictions : Option (List String)) (data : Record N) :
    Except ApiError Unit :=
  match auth, restrictions with
  | some a, some fields =>
    if a.isAdmin then .ok ()
    else
      let allowed := fields ++ ["id", "created_at", "updated_at"] ++ info.actorFields
        ++ info.writes.frozenFields
      let blocked := (data.map (·.1)).filter fun key =>
        info.schemaFields.any (·.name == key) && !allowed.contains key
      if blocked.isEmpty then .ok ()
      else .error (.forbidden ("Your role cannot write field(s) on \"" ++ collectionSlug ++ "\": "
        ++ ", ".intercalate blocked))
  | _, _ => .ok ()

/-- The test of `assertNotFrozen`. -/
def isFrozen (info : CollectionInfo N) (row : Record N) : Bool :=
  info.writes.freezeWhen.any fun (field, values) =>
    !(row.get field).isNullish && values.contains (row.get field).toStr

/-- `assertNotFrozen`. -/
def assertNotFrozen (collectionSlug : String) (info : CollectionInfo N) (row : Record N) :
    Except ApiError Unit :=
  if isFrozen info row then
    let state := (row.get ((info.writes.freezeWhen.map (·.1)).getD "")).toStr
    .error (.forbidden ("\"" ++ collectionSlug ++ "\" rows in state \"" ++ state ++ "\" are frozen "
      ++ "— reverse or amend them through their domain service, not a generic write"))
  else .ok ()

end

/-! ## Document states -/

/-- `VALID_DOC_STATUSES`. -/
def validDocStatuses : List String :=
  ["draft", "submitted", "approved", "cancelled", "confirmed", "pending_review", "rejected"]

/-- The digits of a state that matches `^approved_l(\d+)$`. -/
def approvalLevel (status : String) : Option String :=
  (afterPrefix "approved_l" status).filter fun digits =>
    digits != "" && digits.toList.all isDigit

/-- `isValidDocStatus`. -/
def isValidDocStatus (status : String) : Bool :=
  validDocStatuses.contains status || (approvalLevel status).isSome

/-- `VALID_TRANSITIONS`. -/
def validTransitions : List (String × List String) :=
  [("draft", ["submitted", "cancelled", "pending_review"]), ("submitted", ["approved", "cancelled"]),
   ("approved", ["cancelled"]), ("confirmed", []), ("cancelled", ["draft"]),
   ("pending_review", ["approved", "rejected", "cancelled", "approved_l1"]),
   ("rejected", ["draft", "cancelled"])]

/-- The states a table of transitions names for a state. A name every object inherits has a value
that `includes` is no member of. -/
def transitionsFrom (transitions : List (String × List String)) (status : String) :
    Except ApiError (List String) :=
  match transitions.lookup status with
  | some targets => .ok targets
  | none =>
    if JsVal.objectMembers.contains status || status == "__proto__" then
      .error (.internal "includes is not a function")
    else .ok []

/-- `isValidTransition`. -/
def isValidTransition (N : Type) [JsNumber N] (status target : String) (allowConfirmed : Bool) :
    Except ApiError Bool :=
  if allowConfirmed && status == "draft" && target == "confirmed" then .ok true
  else match approvalLevel status with
    | some level =>
      if ["approved", "rejected", "cancelled"].contains target then .ok true
      else match approvalLevel target with
        | some level' =>
          .ok (JsNumber.lt (JsNumber.ofString level : N) (JsNumber.ofString level'))
        | none => .ok false
    | none => (·.contains target) <$> transitionsFrom validTransitions status

section
variable {N : Type} [JsNumber N]

/-- The document state of a row: a row without one is a draft. -/
def docStatus (row : Record N) : String :=
  if (row.get "doc_status").truthy then (row.get "doc_status").toStr else "draft"

/-- The document-state check of `updateItem`, for a requested state that is a text. `canBusiness` is
what the caller's role may do. -/
def assertDocStatus (collectionSlug : String) (info : CollectionInfo N)
    (auth : Option (AuthContext N)) (canBusiness : String → Bool) (row : Record N)
    (newStatus : String) : Except ApiError Unit :=
  if !isValidDocStatus newStatus then
    .error (.validation ("Invalid doc_status: \"" ++ newStatus ++ "\". Valid: draft, submitted, "
      ++ "approved, cancelled, confirmed, pending_review, rejected") none)
  else do
    let valid ← isValidTransition N (docStatus row) newStatus info.writes.confirmable
    if !valid then
      .error (.validation ("Cannot transition from \"" ++ docStatus row ++ "\" to \"" ++ newStatus
        ++ "\"") none)
    else if auth.any (!·.isAdmin) && newStatus == "submitted" && !canBusiness "submit" then
      .error (.forbidden ("You do not have permission to submit documents in \"" ++ collectionSlug
        ++ "\""))
    else if auth.any (!·.isAdmin) && newStatus == "approved" && !canBusiness "approve" then
      .error (.forbidden ("You do not have permission to approve documents in \"" ++ collectionSlug
        ++ "\""))
    else .ok ()

/-- `String(v ?? '')`. -/
def statusText (v : JsVal N) : String := (v.orElse (.str "")).toStr

/-- The state-machine check of `updateItem`. -/
def assertStatusMachine (sm : StatusMachine) (row data : Record N) : Except ApiError Unit :=
  let next := data.get sm.field
  let current := row.get sm.field
  if strictEq next .undefined then .ok ()
  else if statusText next == statusText current then .ok ()
  else do
    let allowed ← transitionsFrom sm.transitions (statusText current)
    if allowed.contains (statusText next) then .ok ()
    else
      let curLabel := if statusText current = "" then "unknown" else "'" ++ current.toStr ++ "'"
      .error (.validation ("မှတ်တမ်း အခြေအနေ '" ++ curLabel ++ "' မှ '" ++ statusText next
        ++ "' သို့ ပြောင်း၍မရပါ — " ++ " / ".intercalate (sm.transitions.map (·.1))
        ++ " စသည့် ခွင့်ပြုထားသော အကူးအပြောင်းများသာ ရှိပါသည်") (some sm.field))

end

end HeadlessErp
