import HeadlessErp.Entity.Guards

/-!
# Approval slots

`WorkflowService` of `apps/api/src/lib/services/workflow.service.ts`: the levels of a workflow, the
slots of `_approvals`, and the statements of `submit`, `approve` and `reject` on one document. The
ids of the slots, which the code draws at random, are numbers in the order of insertion.
-/

namespace HeadlessErp

/-! ## Data -/

/-- An `ApprovalLevel`. -/
structure ApprovalLevel (N : Type) where
  label : String
  roleName : String
  amountField : Option String := none
  threshold : Option N := none

/-- An `ApprovalWorkflow`. -/
structure ApprovalWorkflow (N : Type) where
  enabled : Bool
  levels : List (ApprovalLevel N)

/-- The `status` of a slot. -/
inductive SlotStatus where
  | pending
  | approved
  | rejected
  deriving DecidableEq, Repr

/-- An `ApprovalRecord`, without the collection and the document. -/
structure ApprovalRecord (N : Type) where
  id : Nat
  level : Nat
  levelLabel : String
  roleName : String
  amount : Option N
  approvedBy : JsVal N
  status : SlotStatus
  comment : Option String
  approvedAt : Option String
  createdAt : String
  updatedAt : String

/-- What a slot is of: its level, label and role. -/
def ApprovalRecord.entry {N : Type} (slot : ApprovalRecord N) : Nat × String × String :=
  (slot.level, slot.levelLabel, slot.roleName)

/-- The document, its slots, and the id of the next one. -/
structure ApprovalStore (N : Type) where
  row : Option (Record N)
  slots : List (ApprovalRecord N)
  nextId : Nat

section
variable {N : Type} [JsNumber N]

/-- `effectiveLevels`: a level with a threshold applies where its amount is above it. -/
def effectiveLevels (workflow : ApprovalWorkflow N) (row : Record N) : List (ApprovalLevel N) :=
  workflow.levels.filter fun lv =>
    match lv.threshold, lv.amountField.filter (· ≠ "") with
    | some threshold, some field =>
      let v := (row.get field).toNum
      JsNumber.isFinite v && JsNumber.lt threshold v
    | _, _ => true

/-- `_amountValue`. -/
def amountValue (row : Record N) (level : ApprovalLevel N) : Option N :=
  (level.amountField.filter (· ≠ "")).bind fun field =>
    let v := (row.get field).toNum
    if JsNumber.isFinite v then some v else none

/-- What the slot of the level at place `i` is of. -/
def levelEntry (lv : ApprovalLevel N) (i : Nat) : Nat × String × String :=
  (i + 1, lv.label, lv.roleName)

/-- The entries of a workflow's levels: the levels are counted from 1. -/
def levelEntries (levels : List (ApprovalLevel N)) : List (Nat × String × String) :=
  levels.zipIdx.map fun (lv, i) => levelEntry lv i

namespace ApprovalStore
variable (s : ApprovalStore N)

/-! ## Statements -/

/-- `_setStatus`. -/
def setStatus (status now : String) : ApprovalStore N :=
  { s with row := s.row.map fun row =>
      (row.set "doc_status" (.str status)).set "updated_at" (.str now) }

/-- The DELETE of `submit`. -/
def deletePending : ApprovalStore N :=
  { s with slots := s.slots.filter (·.status ≠ .pending) }

/-- An INSERT of `submit`. -/
def insertSlot (row : Record N) (lv : ApprovalLevel N) (i : Nat) (now : String) :
    ApprovalStore N :=
  { s with
    slots := s.slots ++ [{
      id := s.nextId
      level := i + 1
      levelLabel := lv.label
      roleName := lv.roleName
      amount := amountValue row lv
      approvedBy := .str ""
      status := .pending
      comment := none
      approvedAt := none
      createdAt := now
      updatedAt := now }]
    nextId := s.nextId + 1 }

/-- The pending slot of the lowest level. -/
def firstPending : List (ApprovalRecord N) → Option (ApprovalRecord N)
  | [] => none
  | slot :: slots =>
    match firstPending slots with
    | some next => if slot.status = .pending ∧ slot.level ≤ next.level then some slot else some next
    | none => if slot.status = .pending then some slot else none

/-- The slot as an approval leaves it. -/
def approved (by_ : JsVal N) (comment : Option String) (now : String) (slot : ApprovalRecord N) :
    ApprovalRecord N :=
  { slot with status := .approved, approvedBy := by_, comment, approvedAt := some now,
              updatedAt := now }

/-- The UPDATE of `approve`. -/
def approveSlot (id : Nat) (by_ : JsVal N) (comment : Option String) (now : String) :
    ApprovalStore N :=
  { s with slots := s.slots.map fun slot =>
      if slot.id = id then approved by_ comment now slot else slot }

/-- The UPDATE of `reject`. -/
def rejectPending (comment : Option String) (now : String) : ApprovalStore N :=
  { s with slots := s.slots.map fun slot =>
      if slot.status = .pending then
        { slot with status := .rejected, comment, updatedAt := now }
      else slot }

/-- `SELECT COUNT(*)` of the pending slots. -/
def pendingCount : Nat := s.slots.countP (·.status = .pending)

/-! ## Checks -/

/-- `comment?.trim() || null`. -/
def trimmed (comment : Option String) : Option String := (comment.map jsTrim).filter (· ≠ "")

/-- The checks of `submit`; the levels that apply. -/
def assertSubmittable (collectionSlug : String) (workflow : Option (ApprovalWorkflow N))
    (auth : Option (AuthContext N)) (canBusiness : String → Bool) (row : Record N) :
    Except ApiError (List (ApprovalLevel N)) :=
  if docStatus row ≠ "draft" then
    .error (.validation ("Only draft documents can be submitted (current: \"" ++ docStatus row
      ++ "\")") none)
  else if auth.any (!·.isAdmin) && !canBusiness "submit" then
    .error (.forbidden ("You do not have permission to submit documents in \"" ++ collectionSlug
      ++ "\""))
  else .ok ((workflow.map (effectiveLevels · row)).getD [])

/-- The check of `approve` and `reject` that the document is under review. -/
def assertPendingReview (participle : String) (row : Record N) : Except ApiError Unit :=
  if strictEq (row.get "doc_status") (.str "pending_review") then .ok ()
  else .error (.validation ("Only documents pending review can be " ++ participle
    ++ " (current: \"" ++ (row.get "doc_status").toStr ++ "\")") none)

/-- The caller may decide a slot: an admin, or the slot's role. -/
def mayDecide (auth : Option (AuthContext N)) (roleName : String) : Bool :=
  auth.all fun a => a.isAdmin || strictEq (a.get "role_name") (.str roleName)

/-- The slot that `approve` decides. -/
def assertApprover (auth : Option (AuthContext N)) (next : Option (ApprovalRecord N)) :
    Except ApiError (ApprovalRecord N) :=
  match next with
  | none => .error (.validation "This document has no pending approval level" none)
  | some next =>
    if mayDecide auth next.roleName then .ok next
    else .error (.forbidden ("Only users with the \"" ++ next.roleName
      ++ "\" role can approve this level"))

/-- What `approve` writes in `approved_by`, a column that is not null. -/
def approverId (auth : Option (AuthContext N)) : Except ApiError (JsVal N) :=
  let id := (auth.map (·.get "user_id")).getD .null
  if id.isNullish then
    .error (.internal "NOT NULL constraint failed: _approvals.approved_by")
  else .ok id

/-- The state after an approval that leaves so many slots pending. -/
def statusAfter (pending : Nat) : String := if pending = 0 then "approved" else "pending_review"

end ApprovalStore

end

end HeadlessErp
