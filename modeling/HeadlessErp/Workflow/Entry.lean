import HeadlessErp.Entity.Item
import HeadlessErp.Workflow.Safety

/-!
# Two ways to an approved document

The requests on one document of a collection with a workflow, one after the other: the generic POST
and PUT of `apps/api/src/routes/entities.ts`, the submit that the PUT hands over to the workflow, and
the workflow's approve and reject. A document becomes approved by the last approval of its round, or
by a generic PUT of a caller who may approve.
-/

namespace HeadlessErp

/-! ## The code -/

/-- The document with its slots and its round, and the approvals so far: the slot that was approved,
and the caller. -/
structure DocumentState (N : Type) where
  core : RoundStore Unit N
  approvals : List (Nat × Option (AuthContext N))

/-- The requests on a document. -/
inductive DocumentRequest (N : Type) (info : CollectionInfo N) where
  | post (c : CreateCall N info)
  | put (c : UpdateCall N info)
  | approve (auth : Option (AuthContext N)) (comment : Option String)
  | reject (auth : Option (AuthContext N)) (comment : Option String)

/-- The routes of one document. `blank` is the row of an INSERT that names no column: no table makes
its rows approved, and no value but the text is read back from it as `approved`. -/
structure DocumentRoutes (N : Type) [JsNumber N] (info : CollectionInfo N) where
  collectionSlug : String
  id : String
  storage : Storage N
  blank : Record N
  workflow : Option (ApprovalWorkflow N)
  blank_status : blank.get "doc_status" ≠ .str "approved"
  keepsStatus : storage.KeepsStatus "approved"

section
variable {N : Type} [JsNumber N]

/-- The INSERTs of `submit`. -/
def insertSlots (c : RoundStore Unit N) (row : Record N) (now : String) :
    List (ApprovalLevel N) → Nat → RoundStore Unit N
  | [], _ => c
  | lv :: rest, k =>
    insertSlots { c with store := c.store.insertSlot row lv k now } row now rest (k + 1)

/-- The row that the workflow finds. -/
def findRow (id : String) (c : RoundStore Unit N) : Except ApiError (Record N) :=
  match c.store.row with
  | some row => .ok row
  | none => .error (.notFound "Item" id)

namespace DocumentRoutes
variable {info : CollectionInfo N} (D : DocumentRoutes N info)

/-- The workflow, where it is enabled. -/
def activeWorkflow : Option (ApprovalWorkflow N) := D.workflow.filter (·.enabled)

/-- `submit`. -/
def submit (c : UpdateCall N info) (now : String) (s : DocumentState N) :
    Except ApiError (DocumentState N) := do
  let row ← findRow D.id s.core
  let levels ← ApprovalStore.assertSubmittable D.collectionSlug D.activeWorkflow c.auth
    c.canBusiness row
  if levels.isEmpty then .ok { s with core := s.core.close "submitted" now }
  else
    let core := insertSlots (s.core.beginRound () levels) row now levels 0
    .ok { s with core := core.endSubmit core.round.number now }

/-- `approve`. -/
def approve (auth : Option (AuthContext N)) (comment : Option String) (now : String)
    (s : DocumentState N) : Except ApiError (DocumentState N) := do
  let row ← findRow D.id s.core
  ApprovalStore.assertPendingReview "approved" row
  let next ← ApprovalStore.assertApprover auth (ApprovalStore.firstPending s.core.store.slots)
  let by_ ← ApprovalStore.approverId auth
  let store := s.core.store.approveSlot next.id by_ (ApprovalStore.trimmed comment) now
  .ok {
    core := { s.core with
      store := store.setStatus (ApprovalStore.statusAfter store.pendingCount) now }
    approvals := s.approvals ++ [(next.id, auth)] }

/-- `reject`. -/
def reject (comment : Option String) (now : String) (s : DocumentState N) :
    Except ApiError (DocumentState N) := do
  let row ← findRow D.id s.core
  ApprovalStore.assertPendingReview "rejected" row
  let store := s.core.store.rejectPending (ApprovalStore.trimmed comment) now
  .ok { s with core := RoundStore.close { s.core with store } "rejected" now }

/-- The body of a PUT asks to submit the document. -/
def asksToSubmit (body : JsVal N) : Bool :=
  match body with
  | .obj kvs => strictEq (Record.get kvs "doc_status") (.str "submitted")
  | _ => false

/-- A row in the place of the document's. -/
def withRow (s : DocumentState N) (row : Option (Record N)) : DocumentState N :=
  { s with core := { s.core with store := { s.core.store with row } } }

/-- The document after a request: one that fails leaves it, but for an update whose child rows fail
after its UPDATE. -/
def handle (s : DocumentState N) (now : IsoTime) : DocumentRequest N info → DocumentState N
  | .post c =>
    match createItem D.collectionSlug D.id D.storage D.blank c now s.core.store.row with
    | .ok row => withRow s (some row)
    | .error _ => s
  | .put c =>
    if asksToSubmit c.body && D.activeWorkflow.isSome then
      (D.submit c now.text s).toOption.getD s
    else withRow s (updateItem D.collectionSlug D.id D.storage c now s.core.store.row).2
  | .approve auth comment => (D.approve auth comment now.text s).toOption.getD s
  | .reject _ comment => (D.reject comment now.text s).toOption.getD s

/-- The requests, on a document that has no slots yet. -/
def system : System (DocumentState N) (DocumentRequest N info × IsoTime) where
  init s := s.core.store.slots = [] ∧ ¬ s.core.HasStatus "approved" ∧
    s.core.round = ⟨0, s.core.store.nextId, [], none, false⟩ ∧ s.approvals = []
  step s a := some (D.handle s a.2 a.1)

/-- Each level of the workflow was approved since the last submission: a slot of the round is the
level's, and is approved. -/
def EveryLevelApproved (c : RoundStore Unit N) : Prop :=
  ∀ workflow, D.activeWorkflow = some workflow → ∀ lv ∈ workflow.levels, ∃ slot ∈ c.slots,
    slot.levelLabel = lv.label ∧ slot.roleName = lv.roleName ∧ slot.status = .approved

end DocumentRoutes

namespace DocumentState
variable (s : DocumentState N)

/-- A slot was approved by an approve request of a caller with its role, or of an admin. -/
def ApprovedByRole (slot : ApprovalRecord N) : Prop :=
  slot.status = .approved ∧ ∃ auth, (slot.id, auth) ∈ s.approvals ∧
    ApprovalStore.mayDecide auth slot.roleName = true ∧
    ApprovalStore.approverId auth = .ok slot.approvedBy

/-- There is one slot for each level that applied when the document was last submitted for approval,
and each was approved since by its role. -/
structure RoundApproved : Prop where
  levels : s.core.slots.map ApprovalRecord.entry = levelEntries s.core.round.levels
  slots : ∀ slot ∈ s.core.slots, s.ApprovedByRole slot

end DocumentState

/-! ## The invariant -/

/-- What is known of the slots: there is one for each level, the pending ones are of the round, and
then none of the round is rejected. -/
structure SlotsOk (c : RoundStore Unit N) (rest : List (ApprovalLevel N)) (k : Nat) : Prop where
  fresh : ∀ slot ∈ c.store.slots, slot.id < c.store.nextId
  nodup : (c.store.slots.map (·.id)).Nodup
  first : c.round.first ≤ c.store.nextId
  pending : ∀ slot ∈ c.store.slots, slot.status = .pending → slot ∈ c.slots ∧
    ∀ slot' ∈ c.slots, slot'.status ≠ .rejected
  levels : c.slots.map ApprovalRecord.entry ++
    (rest.zipIdx k).map (fun (lv, i) => levelEntry lv i) = levelEntries c.round.levels

/-- And every approved slot of the round was approved by its role. -/
structure DocumentInvariant (s : DocumentState N) : Prop where
  slots : SlotsOk s.core [] 0
  decided : ∀ slot ∈ s.core.slots, slot.status = .approved → s.ApprovedByRole slot

/-- A change of the document that leaves the slots and the round's. -/
theorem DocumentInvariant.congr {s s' : DocumentState N} (h : DocumentInvariant s)
    (hslots : s'.core.store.slots = s.core.store.slots)
    (hnext : s'.core.store.nextId = s.core.store.nextId)
    (hfirst : s'.core.round.first = s.core.round.first)
    (hlevels : s'.core.round.levels = s.core.round.levels)
    (happrovals : s'.approvals = s.approvals) : DocumentInvariant s' := by
  have hround : s'.core.slots = s.core.slots := by
    unfold RoundStore.slots
    rw [hslots, hfirst]
  refine ⟨⟨?_, ?_, ?_, ?_, ?_⟩, ?_⟩
  · rw [hslots, hnext]
    exact h.slots.fresh
  · rw [hslots]
    exact h.slots.nodup
  · rw [hfirst, hnext]
    exact h.slots.first
  · rw [hslots, hround]
    exact h.slots.pending
  · rw [hround, hlevels]
    exact h.slots.levels
  · rw [hround]
    intro slot hslot hst
    obtain ⟨hst', auth, hmem, hmay, hby⟩ := h.decided slot hslot hst
    exact ⟨hst', auth, by rw [happrovals]; exact hmem, hmay, hby⟩

/-- One INSERT of `submit`. -/
theorem SlotsOk.insertSlot {c : RoundStore Unit N} {lv : ApprovalLevel N}
    {rest : List (ApprovalLevel N)} {k : Nat} (h : SlotsOk c (lv :: rest) k)
    (hpending : ∀ slot ∈ c.slots, slot.status = .pending) (row : Record N) (now : String) :
    SlotsOk { c with store := c.store.insertSlot row lv k now } rest (k + 1) ∧
      ∀ slot ∈ RoundStore.slots { c with store := c.store.insertSlot row lv k now },
        slot.status = .pending := by
  have hslots := RoundStore.slots_insertSlot h.first row lv k now
  have hall : (c.store.insertSlot row lv k now).slots =
      c.store.slots ++ [c.newSlot row lv k now] := rfl
  have hnew : ∀ slot ∈ c.slots ++ [c.newSlot row lv k now], slot.status = .pending := by
    intro slot hslot
    rw [List.mem_append, List.mem_singleton] at hslot
    obtain hslot | rfl := hslot
    · exact hpending slot hslot
    · rfl
  refine ⟨⟨?_, RoundStore.nodup_insertSlot h.fresh h.nodup row lv k now,
    Nat.le_succ_of_le h.first, ?_, ?_⟩, by rw [hslots]; exact hnew⟩
  · intro slot hslot
    rw [hall, List.mem_append, List.mem_singleton] at hslot
    obtain hslot | rfl := hslot
    · exact Nat.lt_succ_of_lt (h.fresh slot hslot)
    · exact Nat.lt_succ_self _
  · rw [hslots]
    intro slot hslot hst
    refine ⟨?_, fun slot' hslot' => by rw [hnew slot' hslot']; exact nofun⟩
    rw [hall, List.mem_append] at hslot
    rw [List.mem_append]
    exact hslot.imp_left fun hold => (h.pending slot hold hst).1
  · rw [hslots, List.map_append, List.append_assoc]
    exact h.levels

/-- The INSERTs of `submit`. -/
theorem SlotsOk.insertSlots {c : RoundStore Unit N} {rest : List (ApprovalLevel N)} {k : Nat}
    (h : SlotsOk c rest k) (hpending : ∀ slot ∈ c.slots, slot.status = .pending) (row : Record N)
    (now : String) :
    SlotsOk (HeadlessErp.insertSlots c row now rest k) [] 0 ∧
      ∀ slot ∈ (HeadlessErp.insertSlots c row now rest k).slots, slot.status = .pending := by
  induction rest generalizing c k with
  | nil => exact ⟨⟨h.fresh, h.nodup, h.first, h.pending, h.levels⟩, hpending⟩
  | cons lv rest ih =>
    obtain ⟨hone, hpending'⟩ := h.insertSlot hpending row now
    exact ih hone hpending'

omit [JsNumber N] in
/-- The slots after an UPDATE that opens none again. -/
theorem SlotsOk.mapSlots {c c' : RoundStore Unit N} (h : SlotsOk c [] 0)
    {f : ApprovalRecord N → ApprovalRecord N} (hf : RoundStore.KeepsEntries f)
    (hpending : ∀ slot ∈ c.store.slots, (f slot).status = .pending → slot.status = .pending ∧
      ∀ slot' ∈ c.slots, (f slot').status = .rejected → slot'.status = .rejected)
    (hc' : c' = { c with store := { c.store with slots := c.store.slots.map f } }) :
    SlotsOk c' [] 0 := by
  have hslots : c'.slots = c.slots.map f := by
    rw [hc']
    exact RoundStore.slots_map hf c
  refine ⟨?_, ?_, by rw [hc']; exact h.first, ?_, ?_⟩
  · rw [hc']
    intro slot' hslot'
    obtain ⟨slot, hslot, rfl⟩ := List.mem_map.1 hslot'
    rw [hf.id]
    exact h.fresh slot hslot
  · rw [hc']
    rw [hf.map_id]
    exact h.nodup
  · rw [hslots, hc']
    intro slot' hslot' hst
    obtain ⟨slot, hslot, rfl⟩ := List.mem_map.1 hslot'
    obtain ⟨hpend, hrej⟩ := hpending slot hslot hst
    obtain ⟨hround, hnone⟩ := h.pending slot hslot hpend
    refine ⟨List.mem_map_of_mem hround, fun slot'' hslot'' hst'' => ?_⟩
    obtain ⟨slot₀, hslot₀, rfl⟩ := List.mem_map.1 hslot''
    exact hnone slot₀ hslot₀ (hrej slot₀ hslot₀ hst'')
  · rw [hslots, hf.map_entry, hc']
    exact h.levels

namespace DocumentRoutes
variable {info : CollectionInfo N} {D : DocumentRoutes N info} {s s' : DocumentState N}

theorem invariant_submit (h : DocumentInvariant s) {c : UpdateCall N info} {now : String}
    (hsubmit : D.submit c now s = .ok s') : DocumentInvariant s' := by
  unfold submit at hsubmit
  obtain ⟨row, _, hsubmit⟩ := exists_of_bind_eq_ok hsubmit
  obtain ⟨levels, _, hsubmit⟩ := exists_of_bind_eq_ok hsubmit
  simp only at hsubmit
  split at hsubmit
  · cases hsubmit
    exact h.congr rfl rfl rfl rfl rfl
  · cases hsubmit
    have hnone := RoundStore.slots_beginRound h.slots.fresh () levels
    have hbegin : SlotsOk (s.core.beginRound () levels) levels 0 := by
      refine ⟨fun slot hslot => h.slots.fresh slot (List.mem_filter.1 hslot).1,
        h.slots.nodup.sublist (List.filter_sublist.map _), Nat.le_refl _, fun slot hslot hst => ?_,
        ?_⟩
      · have hkept := (List.mem_filter.1 hslot).2
        simp [hst] at hkept
      · rw [hnone]
        rfl
    obtain ⟨hslots, hpending⟩ := hbegin.insertSlots
      (by rw [hnone]; exact fun slot hslot => absurd hslot List.not_mem_nil) row now
    have hdone : DocumentInvariant
        { s with core := insertSlots (s.core.beginRound () levels) row now levels 0 } :=
      ⟨hslots, fun slot hslot hst => by
        rw [hpending slot hslot] at hst
        cases hst⟩
    refine hdone.congr rfl rfl ?_ ?_ rfl
    · unfold RoundStore.endSubmit
      rw [if_pos rfl]
    · unfold RoundStore.endSubmit
      rw [if_pos rfl]

/-- The request that approves a slot. -/
theorem invariant_approve (h : DocumentInvariant s) {auth : Option (AuthContext N)}
    {comment : Option String} {now : String} (happrove : D.approve auth comment now s = .ok s') :
    DocumentInvariant s' ∧ (s'.core.HasStatus "approved" → s'.RoundApproved) := by
  unfold approve at happrove
  obtain ⟨row, _, happrove⟩ := exists_of_bind_eq_ok happrove
  obtain ⟨_, _, happrove⟩ := exists_of_bind_eq_ok happrove
  obtain ⟨next, hnext, happrove⟩ := exists_of_bind_eq_ok happrove
  obtain ⟨by_, hby, happrove⟩ := exists_of_bind_eq_ok happrove
  cases happrove
  obtain ⟨hfirst, hmay⟩ := ApprovalStore.assertApprover_ok hnext
  obtain ⟨hmem, hpend⟩ := ApprovalStore.firstPending_mem hfirst
  obtain ⟨hround, hnone⟩ := h.slots.pending next hmem hpend
  have hf := RoundStore.keepsEntries_approve next.id by_ (ApprovalStore.trimmed comment) now
  let c' : RoundStore Unit N := { s.core with
    store := s.core.store.approveSlot next.id by_ (ApprovalStore.trimmed comment) now }
  have hslots := RoundStore.slots_map hf s.core
  have hok : SlotsOk c' [] 0 := by
    refine SlotsOk.mapSlots h.slots hf (fun slot _ hst => ?_) rfl
    split at hst
    · cases hst
    · refine ⟨hst, fun slot' _ hst' => ?_⟩
      split at hst'
      · cases hst'
      · exact hst'
  have hinv : DocumentInvariant ⟨c', s.approvals ++ [(next.id, auth)]⟩ := by
    refine ⟨hok, fun slot' hslot' hst => ⟨hst, ?_⟩⟩
    obtain ⟨slot, hslot, rfl⟩ := List.mem_map.1 (hslots ▸ hslot')
    dsimp only at hst ⊢
    split at hst
    · next hid =>
      have heq : slot = next := List.inj_on_of_nodup_map h.slots.nodup
        (RoundStore.mem_slots.1 hslot).1 hmem hid
      subst heq
      rw [if_pos rfl]
      exact ⟨auth, List.mem_append_right _ List.mem_cons_self, hmay, hby⟩
    · next hid =>
      rw [if_neg hid]
      obtain ⟨-, auth', hmem', hmay', hby'⟩ := h.decided slot hslot hst
      exact ⟨auth', List.mem_append_left _ hmem', hmay', hby'⟩
  refine ⟨hinv.congr rfl rfl rfl rfl rfl, fun hst => ?_⟩
  have hcount : c'.store.pendingCount = 0 :=
    ApprovalStore.statusAfter_approved (RoundStore.hasStatus_setStatus (c := c') hst).symm
  have hdone : ∀ slot ∈ c'.slots, slot.status = .approved := by
    intro slot' hslot'
    have hnotPending := List.countP_eq_zero.1 hcount slot' (RoundStore.mem_slots.1 hslot').1
    obtain ⟨slot, hslot, rfl⟩ := List.mem_map.1 (hslots ▸ hslot')
    have hnotRejected := hnone slot hslot
    split
    · rfl
    · next hid =>
      rw [if_neg hid] at hnotPending
      cases hstatus : slot.status with
      | approved => rfl
      | pending => simp [hstatus] at hnotPending
      | rejected => exact absurd hstatus hnotRejected
  refine ⟨?_, fun slot hslot => hinv.decided slot hslot (hdone slot hslot)⟩
  have hlevels := hok.levels
  rw [List.zipIdx_nil, List.map_nil, List.append_nil] at hlevels
  exact hlevels

/-- A reject closes every pending slot. -/
theorem invariant_reject (h : DocumentInvariant s) {comment : Option String} {now : String}
    (hreject : D.reject comment now s = .ok s') : DocumentInvariant s' := by
  unfold reject at hreject
  obtain ⟨row, _, hreject⟩ := exists_of_bind_eq_ok hreject
  obtain ⟨_, _, hreject⟩ := exists_of_bind_eq_ok hreject
  cases hreject
  have hf := RoundStore.keepsEntries_reject (N := N) (ApprovalStore.trimmed comment) now
  let c' : RoundStore Unit N :=
    { s.core with store := s.core.store.rejectPending (ApprovalStore.trimmed comment) now }
  have hok : SlotsOk c' [] 0 := by
    refine SlotsOk.mapSlots h.slots hf (fun slot _ hst => ?_) rfl
    split at hst
    · cases hst
    · next hne => exact absurd hst hne
  have hinv : DocumentInvariant ⟨c', s.approvals⟩ := by
    refine ⟨hok, fun slot' hslot' hst => ?_⟩
    obtain ⟨slot, hslot, rfl⟩ := List.mem_map.1 (RoundStore.slots_map hf s.core ▸ hslot')
    split at hst
    · cases hst
    · next hne =>
      rw [if_neg hne]
      exact h.decided slot hslot hst
  exact hinv.congr rfl rfl rfl rfl rfl

/-- Every request keeps the invariant. -/
theorem invariant_handle (h : DocumentInvariant s) (now : IsoTime) (r : DocumentRequest N info) :
    DocumentInvariant (D.handle s now r) := by
  unfold handle
  split
  · split
    · exact h.congr rfl rfl rfl rfl rfl
    · exact h
  · next c =>
    split
    · cases hsubmit : D.submit c now.text s with
      | error e => exact h
      | ok s' => exact invariant_submit h hsubmit
    · exact h.congr rfl rfl rfl rfl rfl
  · next auth comment =>
    cases happrove : D.approve auth comment now.text s with
    | error e => exact h
    | ok s' => exact (invariant_approve h happrove).1
  · next auth comment =>
    cases hreject : D.reject comment now.text s with
    | error e => exact h
    | ok s' => exact invariant_reject h hreject

theorem invariant_of_reachable (h : D.system.Reachable s) : DocumentInvariant s := by
  refine h.invariant (I := DocumentInvariant) (fun s hs => ?_) (fun s a s' hs _ hstep => ?_)
  · obtain ⟨hnone, -, hround, -⟩ := hs
    have hslots : s.core.slots = [] := by
      unfold RoundStore.slots
      rw [hnone]
      rfl
    refine ⟨⟨?_, ?_, ?_, ?_, ?_⟩, ?_⟩
    · rw [hnone]
      exact fun slot hslot => absurd hslot List.not_mem_nil
    · rw [hnone]
      exact List.nodup_nil
    · exact Nat.le_of_eq (congrArg Round.first hround)
    · rw [hnone]
      exact fun slot hslot => absurd hslot List.not_mem_nil
    · rw [hslots, hround]
      rfl
    · rw [hslots]
      exact fun slot hslot => absurd hslot List.not_mem_nil
  · cases hstep
    exact invariant_handle hs a.2 a.1

/-- No submit leaves an approved document. -/
theorem not_hasStatus_submit {c : UpdateCall N info} {now : String}
    (hsubmit : D.submit c now s = .ok s') : ¬ s'.core.HasStatus "approved" := by
  intro hst
  unfold submit at hsubmit
  obtain ⟨row, _, hsubmit⟩ := exists_of_bind_eq_ok hsubmit
  obtain ⟨levels, _, hsubmit⟩ := exists_of_bind_eq_ok hsubmit
  simp only at hsubmit
  split at hsubmit
  · cases hsubmit
    exact absurd (RoundStore.hasStatus_setStatus (c := s.core) hst) (by decide)
  · cases hsubmit
    exact absurd (RoundStore.hasStatus_setStatus
      (c := insertSlots (s.core.beginRound () levels) row now levels 0) hst) (by decide)

theorem not_hasStatus_reject {comment : Option String} {now : String}
    (hreject : D.reject comment now s = .ok s') : ¬ s'.core.HasStatus "approved" := by
  intro hst
  unfold reject at hreject
  obtain ⟨row, _, hreject⟩ := exists_of_bind_eq_ok hreject
  obtain ⟨_, _, hreject⟩ := exists_of_bind_eq_ok hreject
  cases hreject
  exact absurd (RoundStore.hasStatus_setStatus (c := { s.core with
    store := s.core.store.rejectPending (ApprovalStore.trimmed comment) now }) hst) (by decide)

end DocumentRoutes

end

/-! ## A purchase that is approved directly -/

/-- Purchases with an amount. -/
def purchases : CollectionInfo (Option Int) where
  tableName := "purchases"
  schemaFields := [{ name := "amount", type := .integer }]
  fields_user := by decide

/-- The routes of a purchase that a manager approves. -/
def purchaseRoutes : DocumentRoutes (Option Int) purchases where
  collectionSlug := "purchases"
  id := "p1"
  storage := plainStorage _
  blank := []
  workflow := purchaseCalls.workflow
  blank_status := nofun
  keepsStatus _ h := h

/-- A draft. -/
def purchaseDraft : DocumentState (Option Int) where
  core := {
    store := ⟨some [("id", .str "p1"), ("amount", .num (some 5)), ("_meta", .null),
      ("doc_status", .str "draft"), ("updated_at", .str "t0"), ("updated_by", .null)], [], 0⟩
    round := ⟨0, 0, [], none, false⟩ }
  approvals := []

theorem purchaseDraft_init : purchaseRoutes.system.init purchaseDraft := by
  refine ⟨rfl, ?_, rfl, rfl⟩
  rintro ⟨row, hrow, hst⟩
  cases hrow
  exact absurd (JsVal.str.inj hst) (by decide)

/-- A PUT of a clerk, who may submit and approve. -/
def clerkPut (status : String) : DocumentRequest (Option Int) purchases :=
  .put { plainCall [("doc_status", .str status)] none with auth := some (roleAuth "Clerk") }

/-- The time of the requests. -/
def purchaseTime : IsoTime := ⟨"t5", by decide⟩

end HeadlessErp
