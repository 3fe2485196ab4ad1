import Mathlib.Logic.Function.Basic
import HeadlessErp.Base.Transition
import HeadlessErp.Workflow.Approval

/-!
# Approval rounds

Calls of `submit`, `approve` and `reject` on one document, as a transition system. A step is one
statement of one call, and the code up to its next one. A round begins where a `submit` deletes the
pending slots; the slots that are inserted from then on are its slots, until the next round. Between
the rounds a rejected document may become a draft again.
-/

namespace HeadlessErp

/-! ## The code -/

/-- What a call does. -/
inductive WorkflowRequest where
  | submit
  | approve (comment : Option String)
  | reject (comment : Option String)

/-- A call, with its caller. -/
structure WorkflowCall (N : Type) where
  request : WorkflowRequest
  auth : Option (AuthContext N)
  canBusiness : String → Bool

/-- The calls on one document. -/
structure WorkflowCalls (ι N : Type) where
  collectionSlug : String
  id : String
  workflow : Option (ApprovalWorkflow N)
  calls : ι → WorkflowCall N

/-- How far a call has come. A call that reviews a document keeps the round it has read the document
in, and a call that inserts slots the round it has begun. -/
inductive WorkflowPhase (N : Type) where
  | idle
  | opening (row : Record N) (levels : List (ApprovalLevel N))
  | inserting (round : Nat) (row : Record N) (rest : List (ApprovalLevel N)) (i : Nat)
  | reviewing (round : Nat) (row : Record N)
  | deciding (round : Nat) (row : Record N) (next : ApprovalRecord N)
  | counting (round : Nat) (row : Record N)
  | settling (round : Nat) (row : Record N) (status : String)
  | rejecting (row : Record N)
  | closing (row : Record N) (status : String)
  | returned (row : Record N)
  | failed (e : ApiError)

/-- A round: its number, the first id of its slots, the levels its `submit` has found, that call
while it is under way, and whether a `reject` has made the document rejected. -/
structure Round (ι N : Type) where
  number : Nat
  first : Nat
  levels : List (ApprovalLevel N)
  openedBy : Option ι
  rejected : Bool

/-- The document, its slots and the round. -/
structure RoundStore (ι N : Type) where
  store : ApprovalStore N
  round : Round ι N

/-- The document, its slots, the round and the calls. -/
structure WorkflowState (ι N : Type) where
  core : RoundStore ι N
  phase : ι → WorkflowPhase N

/-- A step of a call, or the reopening of a rejected document. -/
inductive WorkflowAction (ι : Type) where
  | call (i : ι) (now : String)
  | reopen (now : String)

namespace RoundStore
variable {ι N : Type} (c : RoundStore ι N)

/-- The document has a state. -/
def HasStatus (status : String) : Prop :=
  ∃ row, c.store.row = some row ∧ row.get "doc_status" = .str status

/-- The slots of the round. -/
def slots : List (ApprovalRecord N) := c.store.slots.filter (c.round.first ≤ ·.id)

/-- A `submit` begins a round. -/
def beginRound (i : ι) (levels : List (ApprovalLevel N)) : RoundStore ι N where
  store := c.store.deletePending
  round := ⟨c.round.number + 1, c.store.nextId, levels, some i, false⟩

/-- The last write of a `submit`. -/
def endSubmit (round : Nat) (now : String) : RoundStore ι N where
  store := c.store.setStatus "pending_review" now
  round := if round = c.round.number then { c.round with openedBy := none } else c.round

/-- The last write of a `reject`, or of a `submit` without levels. -/
def close (status now : String) : RoundStore ι N where
  store := c.store.setStatus status now
  round := { c.round with rejected := c.round.rejected || status = "rejected" }

end RoundStore

namespace WorkflowCalls
variable {ι N : Type} [DecidableEq ι] [JsNumber N] (W : WorkflowCalls ι N)

omit [DecidableEq ι] in
/-- The first statement of a call, which reads the document. -/
def read (c : RoundStore ι N) (i : ι) : WorkflowPhase N :=
  match c.store.row with
  | none => .failed (.notFound "Item" W.id)
  | some row =>
    match (W.calls i).request with
    | .submit =>
      match ApprovalStore.assertSubmittable W.collectionSlug (W.workflow.filter (·.enabled))
          (W.calls i).auth (W.calls i).canBusiness row with
      | .error e => .failed e
      | .ok [] => .closing row "submitted"
      | .ok levels => .opening row levels
    | .approve _ =>
      match ApprovalStore.assertPendingReview "approved" row with
      | .error e => .failed e
      | .ok () => .reviewing c.round.number row
    | .reject _ =>
      match ApprovalStore.assertPendingReview "rejected" row with
      | .error e => .failed e
      | .ok () => .rejecting row

omit [DecidableEq ι] [JsNumber N] in
/-- The comment of a call. -/
def comment (i : ι) : Option String :=
  match (W.calls i).request with
  | .submit => none
  | .approve comment | .reject comment => ApprovalStore.trimmed comment

omit [DecidableEq ι] in
/-- The next statement of a call. -/
def stepCall (c : RoundStore ι N) (i : ι) (now : String) :
    WorkflowPhase N → Option (RoundStore ι N × WorkflowPhase N)
  | .idle => some (c, W.read c i)
  | .opening row levels =>
    some (c.beginRound i levels, .inserting (c.round.number + 1) row levels 0)
  | .inserting round row (lv :: rest) k =>
    some ({ c with store := c.store.insertSlot row lv k now }, .inserting round row rest (k + 1))
  | .inserting round row [] _ =>
    some (c.endSubmit round now, .returned (row.set "doc_status" (.str "pending_review")))
  | .reviewing round row =>
    match ApprovalStore.assertApprover (W.calls i).auth
        (ApprovalStore.firstPending c.store.slots) with
    | .error e => some (c, .failed e)
    | .ok next => some (c, .deciding round row next)
  | .deciding round row next =>
    match ApprovalStore.approverId (W.calls i).auth with
    | .error e => some (c, .failed e)
    | .ok by_ =>
      some ({ c with store := c.store.approveSlot next.id by_ (W.comment i) now },
        .counting round row)
  | .counting round row =>
    some (c, .settling round row (ApprovalStore.statusAfter c.store.pendingCount))
  | .settling _ row status =>
    some ({ c with store := c.store.setStatus status now },
      .returned (row.set "doc_status" (.str status)))
  | .rejecting row =>
    some ({ c with store := c.store.rejectPending (W.comment i) now }, .closing row "rejected")
  | .closing row status =>
    some (c.close status now, .returned (row.set "doc_status" (.str status)))
  | .returned _ | .failed _ => none

/-- The calls on a document that is neither under review nor approved. -/
def system : System (WorkflowState ι N) (WorkflowAction ι) where
  init s := (∀ i, s.phase i = .idle) ∧ ¬ s.core.HasStatus "pending_review" ∧
    ¬ s.core.HasStatus "approved" ∧ (∀ slot ∈ s.core.store.slots, slot.id < s.core.store.nextId) ∧
    (s.core.store.slots.map (·.id)).Nodup ∧
    s.core.round = ⟨0, s.core.store.nextId, [], none, false⟩
  step s
    | .call i now =>
      (W.stepCall s.core i now (s.phase i)).map fun (core, ph) =>
        { core, phase := Function.update s.phase i ph }
    | .reopen now =>
      if s.core.store.row.any (docStatus · = "rejected") then
        some { s with core := { s.core with store := s.core.store.setStatus "draft" now } }
      else none

omit [DecidableEq ι] in
/-- A slot was approved by a caller with its role, or by an admin. -/
def ApprovedByRole (slot : ApprovalRecord N) : Prop :=
  ∃ i comment, (W.calls i).request = .approve comment ∧
    ApprovalStore.mayDecide (W.calls i).auth slot.roleName = true ∧
    ApprovalStore.approverId (W.calls i).auth = .ok slot.approvedBy

omit [DecidableEq ι] in
/-- An approved document has its round's slots, one for each level, approved by their roles; and a
rejected round does not make it approved. -/
structure RoundSafe (c : RoundStore ι N) : Prop where
  approved : c.HasStatus "approved" → ∀ slot ∈ c.slots, slot.status = .approved ∧
    W.ApprovedByRole slot
  levels : c.HasStatus "approved" →
    c.slots.map ApprovalRecord.entry = levelEntries c.round.levels
  rejected : c.round.rejected = true → ¬ c.HasStatus "approved"

omit [DecidableEq ι] [JsNumber N] in
/-- The condition on a step. A `submit` begins a round on a document that is neither under review
nor approved, and no other one has begun a round while it inserts its slots and writes the state. An
`approve` writes the state in the round in which it has read the document, and writes `approved`
while the document and the slots are not rejected. -/
def RoundKept (s : WorkflowState ι N) : WorkflowAction ι → Prop
  | .call i _ =>
    match s.phase i with
    | .opening _ _ => ¬ s.core.HasStatus "pending_review" ∧ ¬ s.core.HasStatus "approved"
    | .inserting round _ _ _ => round = s.core.round.number
    | .settling round _ status => round = s.core.round.number ∧
      (status = "approved" → s.core.round.rejected = false ∧
        ∀ slot ∈ s.core.slots, slot.status ≠ .rejected)
    | _ => True
  | .reopen _ => True

end WorkflowCalls

/-! ## Statements and slots -/

namespace RoundStore
variable {ι N : Type} {c : RoundStore ι N} {status status' now : String}

theorem hasStatus_setStatus (h : HasStatus { c with store := c.store.setStatus status now } status') :
    status' = status := by
  obtain ⟨row', hrow', hstatus⟩ := h
  obtain ⟨row, _, rfl⟩ := Option.map_eq_some_iff.1 hrow'
  have hget : ((row.set "doc_status" (.str status)).set "updated_at" (.str now)).get "doc_status" =
      .str status := by
    rw [Record.get_eq, Record.get?_set, if_neg (by decide), Record.get?_set, if_pos rfl]
    rfl
  rw [hget] at hstatus
  exact (JsVal.str.inj hstatus).symm

/-- A change of the slots that leaves what they are of. -/
structure KeepsEntries (f : ApprovalRecord N → ApprovalRecord N) : Prop where
  id : ∀ slot, (f slot).id = slot.id
  entry : ∀ slot, (f slot).entry = slot.entry

theorem slots_map {f : ApprovalRecord N → ApprovalRecord N} (hf : KeepsEntries f)
    (c : RoundStore ι N) :
    slots { c with store := { c.store with slots := c.store.slots.map f } } = c.slots.map f := by
  show (c.store.slots.map f).filter (fun slot => c.round.first ≤ slot.id) =
    (c.store.slots.filter fun slot => c.round.first ≤ slot.id).map f
  rw [List.filter_map]
  congr 1
  exact List.filter_congr fun slot _ => by simp [hf.id]

theorem KeepsEntries.map_id {f : ApprovalRecord N → ApprovalRecord N} (hf : KeepsEntries f)
    (l : List (ApprovalRecord N)) : (l.map f).map (·.id) = l.map (·.id) := by
  rw [List.map_map]
  exact List.map_congr_left fun slot _ => hf.id slot

theorem KeepsEntries.map_entry {f : ApprovalRecord N → ApprovalRecord N} (hf : KeepsEntries f)
    (l : List (ApprovalRecord N)) :
    (l.map f).map ApprovalRecord.entry = l.map ApprovalRecord.entry := by
  rw [List.map_map]
  exact List.map_congr_left fun slot _ => hf.entry slot

theorem keepsEntries_approve (id : Nat) (by_ : JsVal N) (comment : Option String) (now : String) :
    KeepsEntries fun slot : ApprovalRecord N =>
      if slot.id = id then ApprovalStore.approved by_ comment now slot else slot := by
  constructor
  · intro slot
    split <;> rfl
  · intro slot
    split <;> rfl

theorem keepsEntries_reject (comment : Option String) (now : String) :
    KeepsEntries fun slot : ApprovalRecord N =>
      if slot.status = .pending then
        { slot with status := .rejected, comment, updatedAt := now }
      else slot := by
  constructor
  · intro slot
    split <;> rfl
  · intro slot
    split <;> rfl

theorem mem_slots {slot : ApprovalRecord N} :
    slot ∈ c.slots ↔ slot ∈ c.store.slots ∧ c.round.first ≤ slot.id := by
  unfold slots
  rw [List.mem_filter]
  simp

/-- The slot that a `submit` inserts. -/
def newSlot (c : RoundStore ι N) [JsNumber N] (row : Record N) (lv : ApprovalLevel N) (k : Nat)
    (now : String) : ApprovalRecord N :=
  ⟨c.store.nextId, k + 1, lv.label, lv.roleName, amountValue row lv, .str "", .pending, none, none,
    now, now⟩

/-- An inserted slot is one of the round. -/
theorem slots_insertSlot [JsNumber N] (h : c.round.first ≤ c.store.nextId) (row : Record N)
    (lv : ApprovalLevel N) (k : Nat) (now : String) :
    slots { c with store := c.store.insertSlot row lv k now } =
      c.slots ++ [c.newSlot row lv k now] := by
  show (c.store.slots ++ [c.newSlot row lv k now]).filter (fun slot => c.round.first ≤ slot.id) = _
  rw [List.filter_append]
  congr 1
  simp [newSlot, h]

/-- A round begins without slots. -/
theorem slots_beginRound (h : ∀ slot ∈ c.store.slots, slot.id < c.store.nextId) (i : ι)
    (levels : List (ApprovalLevel N)) : (c.beginRound i levels).slots = [] := by
  refine List.eq_nil_iff_forall_not_mem.2 fun slot hslot => ?_
  obtain ⟨hslot, hge⟩ := mem_slots.1 hslot
  have hlt := h slot (List.mem_filter.1 hslot).1
  have hge' : c.store.nextId ≤ slot.id := hge
  omega

/-- The ids stay distinct. -/
theorem nodup_insertSlot [JsNumber N] (h : ∀ slot ∈ c.store.slots, slot.id < c.store.nextId)
    (hn : (c.store.slots.map (·.id)).Nodup) (row : Record N) (lv : ApprovalLevel N) (k : Nat)
    (now : String) : ((c.store.insertSlot row lv k now).slots.map (·.id)).Nodup := by
  show ((c.store.slots ++ [c.newSlot row lv k now]).map (·.id)).Nodup
  rw [List.map_append, List.nodup_append]
  refine ⟨hn, List.pairwise_singleton _ _, fun id hid id' hid' => ?_⟩
  obtain ⟨slot, hslot, rfl⟩ := List.mem_map.1 hid
  rw [List.map_singleton, List.mem_singleton] at hid'
  have hlt := h slot hslot
  have hid'' : id' = c.store.nextId := hid'
  omega

end RoundStore

theorem ApprovalStore.firstPending_mem {N : Type} {slots : List (ApprovalRecord N)}
    {next : ApprovalRecord N} (h : firstPending slots = some next) :
    next ∈ slots ∧ next.status = .pending := by
  induction slots with
  | nil => cases h
  | cons slot slots ih =>
    unfold firstPending at h
    split at h
    · next first hfirst =>
      split at h
      · next hslot =>
        cases h
        exact ⟨List.mem_cons_self, hslot.1⟩
      · cases h
        exact (ih hfirst).imp_left (List.mem_cons_of_mem _)
    · split at h
      · next hslot =>
        cases h
        exact ⟨List.mem_cons_self, hslot⟩
      · cases h

theorem ApprovalStore.assertApprover_ok {N : Type} [JsNumber N] {auth : Option (AuthContext N)}
    {first : Option (ApprovalRecord N)} {next : ApprovalRecord N}
    (h : assertApprover auth first = .ok next) :
    first = some next ∧ mayDecide auth next.roleName = true := by
  unfold assertApprover at h
  split at h
  · cases h
  · split at h
    · next hmay =>
      cases h
      exact ⟨rfl, hmay⟩
    · cases h

/-- An approval that leaves the document approved leaves no slot pending. -/
theorem ApprovalStore.statusAfter_approved {pending : Nat} (h : statusAfter pending = "approved") :
    pending = 0 := by
  unfold statusAfter at h
  split at h
  · next hzero => exact hzero
  · exact absurd h (by decide)

theorem ApprovalStore.assertPendingReview_ok {N : Type} [JsNumber N] {participle : String}
    {row : Record N} (h : assertPendingReview participle row = .ok ()) :
    row.get "doc_status" = .str "pending_review" := by
  unfold assertPendingReview at h
  split at h
  · next heq => exact eq_str_of_strictEq heq
  · cases h

end HeadlessErp
