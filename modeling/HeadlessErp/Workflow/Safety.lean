import Mathlib.Data.List.Nodup
import HeadlessErp.Workflow.Rounds

/-!
# Safety of the rounds

The invariant of the calls, and from it that an approved document was approved level by level, in
every run in which no write comes too late.
-/

namespace HeadlessErp

namespace WorkflowCalls
variable {ι N : Type} [JsNumber N] (W : WorkflowCalls ι N)

/-! ## The invariant -/

/-- A call has read the document under review: where that was in this round, no `submit` is under
way. -/
structure Reviews (c : RoundStore ι N) (round : Nat) : Prop where
  le : round ≤ c.round.number
  closed : round = c.round.number → c.round.openedBy = none

/-- A call may approve a slot, as it has read it. -/
structure MayApprove (c : RoundStore ι N) (i : ι) (next : ApprovalRecord N) : Prop where
  request : ∃ comment, (W.calls i).request = .approve comment
  mayDecide : ApprovalStore.mayDecide (W.calls i).auth next.roleName = true
  lt : next.id < c.store.nextId
  roleName : ∀ slot ∈ c.store.slots, slot.id = next.id → slot.roleName = next.roleName

/-- A call inserts the slots of the round it has begun, and there are those it has inserted. -/
structure Inserts (c : RoundStore ι N) (i : ι) (round : Nat) (rest : List (ApprovalLevel N))
    (k : Nat) : Prop where
  le : round ≤ c.round.number
  opened : round = c.round.number → c.round.openedBy = some i
  entries : round = c.round.number → c.slots.map ApprovalRecord.entry ++
    (rest.zipIdx k).map (fun (lv, i) => levelEntry lv i) = levelEntries c.round.levels

/-- What is known of a call in a phase. -/
def PhaseOk (c : RoundStore ι N) (i : ι) : WorkflowPhase N → Prop
  | .inserting round _ rest k => Inserts c i round rest k
  | .reviewing round _ => Reviews c round ∧ ∃ comment, (W.calls i).request = .approve comment
  | .counting round _ => Reviews c round
  | .deciding round _ next => Reviews c round ∧ W.MayApprove c i next
  | .settling round _ status => Reviews c round ∧ (round = c.round.number → status = "approved" →
      ∀ slot ∈ c.slots, slot.status ≠ .pending)
  | .closing _ status => status = "submitted" ∨ status = "rejected"
  | _ => True

/-- What is known of the document, the slots and the round. -/
structure CoreOk (c : RoundStore ι N) : Prop where
  fresh : ∀ slot ∈ c.store.slots, slot.id < c.store.nextId
  nodup : (c.store.slots.map (·.id)).Nodup
  first : c.round.first ≤ c.store.nextId
  byRole : ∀ slot ∈ c.slots, slot.status = .approved → W.ApprovedByRole slot
  opened : c.round.openedBy ≠ none → ¬ c.HasStatus "pending_review" ∧ ¬ c.HasStatus "approved"
  complete : c.round.openedBy = none →
    c.slots.map ApprovalRecord.entry = levelEntries c.round.levels
  approved : c.HasStatus "approved" → ∀ slot ∈ c.slots, slot.status = .approved
  rejected : c.round.rejected = true → ¬ c.HasStatus "approved"

/-- A step of a call leads to a document and a phase of which these things are known, and leaves
what is known of the other calls. -/
structure StepOk (c : RoundStore ι N) (i : ι) (c' : RoundStore ι N) (ph : WorkflowPhase N) :
    Prop where
  core : W.CoreOk c'
  self : W.PhaseOk c' i ph
  others : ∀ j ph, j ≠ i → W.PhaseOk c j ph → W.PhaseOk c' j ph

variable {W} {c c' : RoundStore ι N} {i j : ι} {ph : WorkflowPhase N} {now : String}

/-! ## Writes of the document -/

/-- Two documents have the same slots, in the same round. -/
structure SameSlots (c c' : RoundStore ι N) : Prop where
  slots : c'.store.slots = c.store.slots
  nextId : c'.store.nextId = c.store.nextId
  number : c'.round.number = c.round.number
  first : c'.round.first = c.round.first
  levels : c'.round.levels = c.round.levels
  openedBy : c'.round.openedBy = c.round.openedBy

omit [JsNumber N] in
theorem SameSlots.roundSlots (h : SameSlots c c') : c'.slots = c.slots := by
  unfold RoundStore.slots
  rw [h.slots, h.first]

theorem PhaseOk.congr (hs : SameSlots c c') (h : W.PhaseOk c j ph) : W.PhaseOk c' j ph := by
  have hreviews {round : Nat} (h : Reviews c round) : Reviews c' round :=
    ⟨by rw [hs.number]; exact h.le, by rw [hs.number, hs.openedBy]; exact h.closed⟩
  cases ph with
  | inserting round row rest k =>
    refine ⟨?_, ?_, ?_⟩
    · rw [hs.number]
      exact h.le
    · rw [hs.number, hs.openedBy]
      exact h.opened
    · rw [hs.number, hs.roundSlots, hs.levels]
      exact h.entries
  | reviewing => exact ⟨hreviews h.1, h.2⟩
  | counting => exact hreviews h
  | deciding round row next =>
    obtain ⟨hround, hrequest, hmay, hlt, hrole⟩ := h
    exact ⟨hreviews hround, hrequest, hmay, by rw [hs.nextId]; exact hlt,
      by rw [hs.slots]; exact hrole⟩
  | settling round row status =>
    exact ⟨hreviews h.1, by rw [hs.number, hs.roundSlots]; exact h.2⟩
  | closing => exact h
  | idle | opening | rejecting | returned | failed => trivial

/-- A write of the document's state. -/
theorem CoreOk.setStatus (h : W.CoreOk c) (hs : SameSlots c c') {status : String}
    (hstatus : ∀ status', c'.HasStatus status' → status' = status)
    (hreview : status = "pending_review" → c.round.openedBy = none)
    (happroved : status = "approved" → c.round.openedBy = none ∧ c'.round.rejected = false ∧
      ∀ slot ∈ c.slots, slot.status = .approved) : W.CoreOk c' where
  fresh := by
    rw [hs.slots, hs.nextId]
    exact h.fresh
  nodup := by
    rw [hs.slots]
    exact h.nodup
  first := by
    rw [hs.first, hs.nextId]
    exact h.first
  byRole := by
    rw [hs.roundSlots]
    exact h.byRole
  opened := by
    rw [hs.openedBy]
    intro hopen
    exact ⟨fun hst => hopen (hreview (hstatus _ hst).symm),
      fun hst => hopen (happroved (hstatus _ hst).symm).1⟩
  complete := by
    rw [hs.openedBy, hs.roundSlots, hs.levels]
    exact h.complete
  approved hst := by
    rw [hs.roundSlots]
    exact (happroved (hstatus _ hst).symm).2.2
  rejected hrej hst := by
    rw [(happroved (hstatus _ hst).symm).2.1] at hrej
    cases hrej

/-! ## The steps of a submit -/

/-- A `submit` begins a round. -/
theorem stepOk_beginRound (h : W.CoreOk c) (row : Record N) (levels : List (ApprovalLevel N))
    (hreview : ¬ c.HasStatus "pending_review") (happroved : ¬ c.HasStatus "approved") :
    W.StepOk c i (c.beginRound i levels) (.inserting (c.round.number + 1) row levels 0) := by
  have hmem {slot : ApprovalRecord N} (hslot : slot ∈ (c.beginRound i levels).store.slots) :
      slot ∈ c.store.slots := (List.mem_filter.1 hslot).1
  have hslots : (c.beginRound i levels).slots = [] := RoundStore.slots_beginRound h.fresh i levels
  have hreviews {round : Nat} (hround : Reviews c round) :
      Reviews (c.beginRound i levels) round := by
    have hle := hround.le
    refine ⟨Nat.le_succ_of_le hle, fun heq => ?_⟩
    have heq' : round = c.round.number + 1 := heq
    omega
  refine ⟨?_, ⟨Nat.le_refl _, fun _ => rfl, fun _ => ?_⟩, fun j ph hj hph => ?_⟩
  · refine ⟨fun slot hslot => h.fresh slot (hmem hslot), ?_, Nat.le_refl _, ?_,
      fun _ => ⟨hreview, happroved⟩, nofun, fun hst => absurd hst happroved, nofun⟩
    · exact h.nodup.sublist (List.filter_sublist.map _)
    · rw [hslots]
      exact fun slot hslot => absurd hslot List.not_mem_nil
  · rw [hslots]
    rfl
  · cases ph with
    | inserting round row rest k =>
      have hle := hph.le
      have hne : round ≠ (c.beginRound i levels).round.number := by
        show round ≠ c.round.number + 1
        omega
      exact ⟨Nat.le_succ_of_le hle, fun heq => absurd heq hne, fun heq => absurd heq hne⟩
    | reviewing => exact ⟨hreviews hph.1, hph.2⟩
    | counting => exact hreviews hph
    | deciding round row next =>
      obtain ⟨hround, hrequest, hmay, hlt, hrole⟩ := hph
      exact ⟨hreviews hround, hrequest, hmay, hlt, fun slot hslot => hrole slot (hmem hslot)⟩
    | settling round row status =>
      refine ⟨hreviews hph.1, fun _ _ => ?_⟩
      rw [hslots]
      exact fun slot hslot => absurd hslot List.not_mem_nil
    | closing => exact hph
    | idle | opening | rejecting | returned | failed => trivial

/-- A `submit` inserts a slot of its round. -/
theorem stepOk_insertSlot (h : W.CoreOk c) {round : Nat} {row : Record N} {lv : ApprovalLevel N}
    {rest : List (ApprovalLevel N)} {k : Nat} (hph : Inserts c i round (lv :: rest) k)
    (hround : round = c.round.number) :
    W.StepOk c i { c with store := c.store.insertSlot row lv k now }
      (.inserting round row rest (k + 1)) := by
  obtain ⟨hle, hopened, hentries⟩ := hph
  have hopen : c.round.openedBy = some i := hopened hround
  let slot := c.newSlot row lv k now
  let c' : RoundStore ι N := { c with store := c.store.insertSlot row lv k now }
  have hall : c'.store.slots = c.store.slots ++ [slot] := rfl
  have hslots : c'.slots = c.slots ++ [slot] := RoundStore.slots_insertSlot h.first row lv k now
  have hclosed (round' : Nat) (hreviews : Reviews c round') : round' ≠ c.round.number := by
    intro heq
    rw [hreviews.closed heq] at hopen
    cases hopen
  have hreviews {round' : Nat} (hreviews : Reviews c round') : Reviews c' round' :=
    ⟨hreviews.le, hreviews.closed⟩
  show W.StepOk c i c' _
  refine ⟨?_, ⟨hle, fun _ => hopen, fun _ => ?_⟩, fun j ph hj hph => ?_⟩
  · refine ⟨?_, ?_, Nat.le_succ_of_le h.first, ?_, h.opened, ?_, ?_, h.rejected⟩
    · intro slot' hslot'
      rw [hall, List.mem_append, List.mem_singleton] at hslot'
      obtain hslot' | rfl := hslot'
      · exact Nat.lt_succ_of_lt (h.fresh slot' hslot')
      · exact Nat.lt_succ_self _
    · exact RoundStore.nodup_insertSlot h.fresh h.nodup row lv k now
    · rw [hslots]
      intro slot' hslot' happroved
      rw [List.mem_append, List.mem_singleton] at hslot'
      obtain hslot' | rfl := hslot'
      · exact h.byRole slot' hslot' happroved
      · cases happroved
    · intro hnone
      rw [show c'.round.openedBy = c.round.openedBy from rfl, hopen] at hnone
      cases hnone
    · intro hst
      exact absurd hst (h.opened (by rw [hopen]; exact Option.some_ne_none i)).2
  · rw [hslots, List.map_append, List.append_assoc]
    exact hentries hround
  · cases ph with
    | inserting round' row rest k =>
      refine ⟨hph.le, hph.opened, fun heq => ?_⟩
      have hopen' := hph.opened heq
      rw [hopen] at hopen'
      exact absurd (Option.some.inj hopen').symm hj
    | reviewing => exact ⟨hreviews hph.1, hph.2⟩
    | counting => exact hreviews hph
    | deciding round' row next =>
      obtain ⟨hround', hrequest, hmay, hlt, hrole⟩ := hph
      refine ⟨hreviews hround', hrequest, hmay, Nat.lt_succ_of_lt hlt, fun slot' hslot' hid => ?_⟩
      rw [hall, List.mem_append, List.mem_singleton] at hslot'
      obtain hslot' | rfl := hslot'
      · exact hrole slot' hslot' hid
      · have hid' : c.store.nextId = next.id := hid
        omega
    | settling round' row status =>
      exact ⟨hreviews hph.1, fun heq => absurd heq (hclosed round' hph.1)⟩
    | closing => exact hph
    | idle | opening | rejecting | returned | failed => trivial

/-- A `submit` writes the state after its last slot. -/
theorem stepOk_endSubmit (h : W.CoreOk c) {round k : Nat} {row' : Record N}
    (hph : Inserts c i round [] k) (hround : round = c.round.number) :
    W.StepOk c i (c.endSubmit round now) (.returned row') := by
  have hentries : c.slots.map ApprovalRecord.entry = levelEntries c.round.levels := by
    rw [← hph.entries hround]
    exact (List.append_nil _).symm
  let c₁ : RoundStore ι N := { c with round := { c.round with openedBy := none } }
  have hc : c.endSubmit round now = { c₁ with store := c₁.store.setStatus "pending_review" now } := by
    unfold RoundStore.endSubmit
    rw [if_pos hround]
  have hclosed : W.CoreOk c₁ :=
    ⟨h.fresh, h.nodup, h.first, h.byRole, fun hne => absurd rfl hne, fun _ => hentries, h.approved,
      h.rejected⟩
  rw [hc]
  refine ⟨?_, trivial, fun j ph hj hph' => ?_⟩
  · exact hclosed.setStatus ⟨rfl, rfl, rfl, rfl, rfl, rfl⟩
      (fun status' hst => RoundStore.hasStatus_setStatus hst) (fun _ => rfl) nofun
  · have hother : W.PhaseOk c₁ j ph := by
      have hreviews {round' : Nat} (hr : Reviews c round') : Reviews c₁ round' :=
        ⟨hr.le, fun _ => rfl⟩
      cases ph with
      | inserting round' row rest k =>
        refine ⟨hph'.le, fun heq => ?_, hph'.entries⟩
        have hopen := hph'.opened heq
        rw [hph.opened hround] at hopen
        exact absurd (Option.some.inj hopen).symm hj
      | reviewing => exact ⟨hreviews hph'.1, hph'.2⟩
      | counting => exact hreviews hph'
      | deciding => exact ⟨hreviews hph'.1, hph'.2.1, hph'.2.2, hph'.2.3, hph'.2.4⟩
      | settling => exact ⟨hreviews hph'.1, hph'.2⟩
      | closing => exact hph'
      | idle | opening | rejecting | returned | failed => trivial
    exact PhaseOk.congr (c := c₁) ⟨rfl, rfl, rfl, rfl, rfl, rfl⟩ hother

/-! ## Decisions -/

omit [JsNumber N] in
theorem roleName_of_keepsEntries {f : ApprovalRecord N → ApprovalRecord N}
    (hf : RoundStore.KeepsEntries f) (slot : ApprovalRecord N) :
    (f slot).roleName = slot.roleName := congrArg (·.2.2) (hf.entry slot)

/-- An UPDATE of the slots that opens none again. -/
theorem stepOk_mapSlots (h : W.CoreOk c) {f : ApprovalRecord N → ApprovalRecord N}
    (hf : RoundStore.KeepsEntries f)
    (hpending : ∀ slot, (f slot).status = .pending → slot.status = .pending)
    (hbyRole : ∀ slot ∈ c.slots, (f slot).status = .approved → W.ApprovedByRole (f slot))
    (happroved : ∀ slot, slot.status = .approved → (f slot).status = .approved)
    (hc' : c' = { c with store := { c.store with slots := c.store.slots.map f } }) :
    W.CoreOk c' ∧ ∀ j ph, W.PhaseOk c j ph → W.PhaseOk c' j ph := by
  have hslots : c'.slots = c.slots.map f := by
    rw [hc']
    exact RoundStore.slots_map hf c
  have hall : c'.store.slots = c.store.slots.map f := by rw [hc']
  have hnext : c'.store.nextId = c.store.nextId := by rw [hc']
  have hround : c'.round = c.round := by rw [hc']
  have hstatus (status : String) : c'.HasStatus status ↔ c.HasStatus status := by
    rw [hc']
    exact Iff.rfl
  have hentries : c'.slots.map ApprovalRecord.entry = c.slots.map ApprovalRecord.entry := by
    rw [hslots, hf.map_entry]
  have hreviews {round : Nat} (hr : Reviews c round) : Reviews c' round :=
    ⟨by rw [hround]; exact hr.le, by rw [hround]; exact hr.closed⟩
  refine ⟨?_, fun j ph hph => ?_⟩
  · refine ⟨?_, ?_, ?_, ?_, ?_, ?_, ?_, ?_⟩
    · intro slot' hslot'
      rw [hall] at hslot'
      obtain ⟨slot, hslot, rfl⟩ := List.mem_map.1 hslot'
      rw [hf.id, hnext]
      exact h.fresh slot hslot
    · rw [hall, hf.map_id]
      exact h.nodup
    · rw [hround, hnext]
      exact h.first
    · rw [hslots]
      intro slot' hslot' happroved'
      obtain ⟨slot, hslot, rfl⟩ := List.mem_map.1 hslot'
      exact hbyRole slot hslot happroved'
    · rw [hround, hstatus, hstatus]
      exact h.opened
    · rw [hround, hentries]
      exact h.complete
    · rw [hstatus, hslots]
      intro hst slot' hslot'
      obtain ⟨slot, hslot, rfl⟩ := List.mem_map.1 hslot'
      exact happroved slot (h.approved hst slot hslot)
    · rw [hround, hstatus]
      exact h.rejected
  · cases ph with
    | inserting round row rest k =>
      refine ⟨?_, ?_, ?_⟩
      · rw [hround]
        exact hph.le
      · rw [hround]
        exact hph.opened
      · rw [hround, hentries]
        exact hph.entries
    | reviewing => exact ⟨hreviews hph.1, hph.2⟩
    | counting => exact hreviews hph
    | deciding round row next =>
      obtain ⟨hr, hrequest, hmay, hlt, hrole⟩ := hph
      refine ⟨hreviews hr, hrequest, hmay, by rw [hnext]; exact hlt, fun slot' hslot' hid => ?_⟩
      rw [hall] at hslot'
      obtain ⟨slot, hslot, rfl⟩ := List.mem_map.1 hslot'
      rw [roleName_of_keepsEntries hf]
      exact hrole slot hslot (by rwa [hf.id] at hid)
    | settling round row status =>
      refine ⟨hreviews hph.1, fun heq hst => ?_⟩
      rw [hround] at heq
      rw [hslots]
      intro slot' hslot' hpend
      obtain ⟨slot, hslot, rfl⟩ := List.mem_map.1 hslot'
      exact hph.2 heq hst slot hslot (hpending slot hpend)
    | closing => exact hph
    | idle | opening | rejecting | returned | failed => trivial

/-- An `approve` updates the slot it has chosen. -/
theorem stepOk_approveSlot (h : W.CoreOk c) {round : Nat} {row : Record N}
    {next : ApprovalRecord N} {by_ : JsVal N} {comment : Option String}
    (hph : W.PhaseOk c i (.deciding round row next))
    (hby : ApprovalStore.approverId (W.calls i).auth = .ok by_) :
    W.StepOk c i { c with store := c.store.approveSlot next.id by_ comment now }
      (.counting round row) := by
  obtain ⟨hr, ⟨text, hrequest⟩, hmay, hlt, hrole⟩ := hph
  obtain ⟨hcore, hothers⟩ := stepOk_mapSlots h
    (RoundStore.keepsEntries_approve next.id by_ comment now)
    (fun slot hst => by
      split at hst
      · cases hst
      · exact hst)
    (fun slot hslot hst => by
      split at hst
      · next hid =>
        rw [if_pos hid]
        refine ⟨i, text, hrequest, ?_, hby⟩
        show ApprovalStore.mayDecide _ slot.roleName = true
        rw [hrole slot (RoundStore.mem_slots.1 hslot).1 hid]
        exact hmay
      · next hid =>
        rw [if_neg hid]
        exact h.byRole slot hslot hst)
    (fun slot hst => by
      split
      · rfl
      · exact hst) rfl
  exact ⟨hcore, ⟨hr.le, hr.closed⟩, fun j ph _ hph => hothers j ph hph⟩

/-- A `reject` closes the pending slots. -/
theorem stepOk_rejectPending (h : W.CoreOk c) {row : Record N} {comment : Option String} :
    W.StepOk c i { c with store := c.store.rejectPending comment now } (.closing row "rejected") := by
  obtain ⟨hcore, hothers⟩ := stepOk_mapSlots h (RoundStore.keepsEntries_reject comment now)
    (fun slot hst => by
      split at hst
      · cases hst
      · exact hst)
    (fun slot hslot hst => by
      split at hst
      · cases hst
      · next hpend =>
        rw [if_neg hpend]
        exact h.byRole slot hslot hst)
    (fun slot hst => by
      have hne : slot.status ≠ .pending := by rw [hst]; exact nofun
      rw [if_neg hne]
      exact hst) rfl
  exact ⟨hcore, .inr rfl, fun j ph _ hph => hothers j ph hph⟩

/-- The last write of an `approve`. -/
theorem stepOk_settle (h : W.CoreOk c) {round : Nat} {row row' : Record N} {status : String}
    (hph : W.PhaseOk c i (.settling round row status)) (hround : round = c.round.number)
    (hrejected : status = "approved" → c.round.rejected = false ∧
      ∀ slot ∈ c.slots, slot.status ≠ .rejected) :
    W.StepOk c i { c with store := c.store.setStatus status now } (.returned row') := by
  obtain ⟨hr, hpending⟩ := hph
  have hclosed := hr.closed hround
  refine ⟨h.setStatus ⟨rfl, rfl, rfl, rfl, rfl, rfl⟩
    (fun status' hst => RoundStore.hasStatus_setStatus hst) (fun _ => hclosed) (fun hst => ?_),
    trivial, fun j ph _ hph => PhaseOk.congr (c := c) ⟨rfl, rfl, rfl, rfl, rfl, rfl⟩ hph⟩
  obtain ⟨hrej, hslots⟩ := hrejected hst
  refine ⟨hclosed, hrej, fun slot hslot => ?_⟩
  cases hstatus : slot.status with
  | approved => rfl
  | pending => exact absurd hstatus (hpending hround hst slot hslot)
  | rejected => exact absurd hstatus (hslots slot hslot)

/-- The last write of a `reject`, or of a `submit` without levels. -/
theorem stepOk_close (h : W.CoreOk c) {row' : Record N} {status : String}
    (hreview : status ≠ "pending_review") (happroved : status ≠ "approved") :
    W.StepOk c i (c.close status now) (.returned row') := by
  refine ⟨h.setStatus ⟨rfl, rfl, rfl, rfl, rfl, rfl⟩
    (fun status' hst => ?_) (fun hst => absurd hst hreview) (fun hst => absurd hst happroved),
    trivial, fun j ph _ hph => PhaseOk.congr (c := c) ⟨rfl, rfl, rfl, rfl, rfl, rfl⟩ hph⟩
  exact RoundStore.hasStatus_setStatus (c := c) hst

/-! ## Runs -/

/-- The first statement of a call writes nothing. -/
theorem phaseOk_read (h : W.CoreOk c) (i : ι) : W.PhaseOk c i (W.read c i) := by
  unfold read
  split
  · trivial
  · next row hrow =>
    split
    · split
      · trivial
      · exact .inl rfl
      · trivial
    · next comment hrequest =>
      split
      · trivial
      · next hreview =>
        refine ⟨⟨Nat.le_refl _, fun _ => ?_⟩, comment, hrequest⟩
        by_contra hopen
        exact (h.opened hopen).1 ⟨row, hrow, ApprovalStore.assertPendingReview_ok hreview⟩
    · split
      · trivial
      · trivial

/-- One statement of a call, under the condition. -/
theorem stepOk_of_stepCall [DecidableEq ι] {s : WorkflowState ι N} (h : W.CoreOk s.core)
    (hph : W.PhaseOk s.core i (s.phase i)) (hp : RoundKept s (.call i now))
    (hstep : W.stepCall s.core i now (s.phase i) = some (c', ph)) :
    W.StepOk s.core i c' ph := by
  have hquiet {ph : WorkflowPhase N} (hself : W.PhaseOk s.core i ph) : W.StepOk s.core i s.core ph :=
    ⟨h, hself, fun _ _ _ hph => hph⟩
  simp only [RoundKept] at hp
  cases hphase : s.phase i with
  | idle =>
    rw [hphase] at hstep
    cases hstep
    exact hquiet (phaseOk_read h i)
  | opening row levels =>
    rw [hphase] at hstep hp
    cases hstep
    exact stepOk_beginRound h row levels hp.1 hp.2
  | inserting round row rest k =>
    rw [hphase] at hstep hp hph
    cases rest with
    | nil =>
      cases hstep
      exact stepOk_endSubmit h hph hp
    | cons lv rest =>
      cases hstep
      exact stepOk_insertSlot h hph hp
  | reviewing round row =>
    rw [hphase] at hstep hph
    simp only [stepCall] at hstep
    split at hstep
    · cases hstep
      exact hquiet trivial
    · next next hnext =>
      cases hstep
      obtain ⟨hfirst, hmay⟩ := ApprovalStore.assertApprover_ok hnext
      have hmem := (ApprovalStore.firstPending_mem hfirst).1
      refine hquiet ⟨hph.1, hph.2, hmay, h.fresh next hmem, fun slot hslot hid => ?_⟩
      rw [List.inj_on_of_nodup_map h.nodup hslot hmem hid]
  | deciding round row next =>
    rw [hphase] at hstep hph
    simp only [stepCall] at hstep
    split at hstep
    · cases hstep
      exact hquiet trivial
    · next by_ hby =>
      cases hstep
      exact stepOk_approveSlot h hph hby
  | counting round row =>
    rw [hphase] at hstep hph
    cases hstep
    refine hquiet ⟨hph, fun _ hst slot hslot hpend => ?_⟩
    have hcount : s.core.store.pendingCount = 0 := ApprovalStore.statusAfter_approved hst
    have hnone := List.countP_eq_zero.1 hcount slot (RoundStore.mem_slots.1 hslot).1
    simp [hpend] at hnone
  | settling round row status =>
    rw [hphase] at hstep hph hp
    cases hstep
    exact stepOk_settle h hph hp.1 hp.2
  | rejecting row =>
    rw [hphase] at hstep
    cases hstep
    exact stepOk_rejectPending h
  | closing row status =>
    rw [hphase] at hstep hph
    cases hstep
    obtain rfl | rfl := hph
    · exact stepOk_close h (by decide) (by decide)
    · exact stepOk_close h (by decide) (by decide)
  | returned | failed =>
    rw [hphase] at hstep
    cases hstep

/-- Before the calls the round has no slots and no levels. -/
theorem coreOk_init [DecidableEq ι] {s : WorkflowState ι N} (h : W.system.init s) :
    W.CoreOk s.core := by
  obtain ⟨-, -, happroved, hfresh, hnodup, hround⟩ := h
  have hslots : s.core.slots = [] := by
    refine List.eq_nil_iff_forall_not_mem.2 fun slot hslot => ?_
    obtain ⟨hslot, hge⟩ := RoundStore.mem_slots.1 hslot
    have hlt := hfresh slot hslot
    rw [hround] at hge
    exact absurd hlt (Nat.not_lt.2 hge)
  refine ⟨hfresh, hnodup, ?_, ?_, ?_, ?_, fun hst => absurd hst happroved, ?_⟩
  · exact Nat.le_of_eq (congrArg Round.first hround)
  · rw [hslots]
    exact fun slot hslot => absurd hslot List.not_mem_nil
  · rw [hround]
    exact fun hne => absurd rfl hne
  · rw [hslots, hround]
    exact fun _ => rfl
  · rw [hround]
    exact nofun

end WorkflowCalls

/-! ## A rejected purchase -/

/-- Who decides on a purchase. -/
inductive PurchaseCaller where
  | buyer
  | manager
  | controller
  deriving DecidableEq

/-- A caller by its role. -/
def roleAuth (role : String) : AuthContext (Option Int) where
  properties := [("user_id", .str role), ("role_name", .str role), ("is_admin", .bool false)]

/-- Purchases, which a manager approves. -/
def purchaseCalls : WorkflowCalls PurchaseCaller (Option Int) where
  collectionSlug := "purchases"
  id := "p1"
  workflow := some ⟨true, [{ label := "Manager approval", roleName := "Manager" }]⟩
  calls
    | .buyer => ⟨.submit, some (roleAuth "Buyer"), fun _ => true⟩
    | .manager => ⟨.approve none, some (roleAuth "Manager"), fun _ => true⟩
    | .controller => ⟨.reject none, some (roleAuth "Controller"), fun _ => true⟩

/-- A draft, before the calls. -/
def purchaseState : WorkflowState PurchaseCaller (Option Int) where
  core := {
    store := ⟨some [("id", .str "p1"), ("doc_status", .str "draft"), ("updated_at", .str "t0")],
      [], 0⟩
    round := ⟨0, 0, [], none, false⟩ }
  phase _ := .idle

theorem purchase_draft (status : String) (h : status ≠ "draft") :
    ¬ purchaseState.core.HasStatus status := by
  rintro ⟨row, hrow, hst⟩
  cases hrow
  exact h (JsVal.str.inj hst).symm

theorem purchaseState_init : purchaseCalls.system.init purchaseState :=
  ⟨fun _ => rfl, purchase_draft _ (by decide), purchase_draft _ (by decide), nofun, List.nodup_nil,
    rfl⟩

/-- The submit of the purchase. -/
def purchaseSubmit : List (WorkflowAction PurchaseCaller) :=
  [.call .buyer "t1", .call .buyer "t1", .call .buyer "t1", .call .buyer "t1"]

end HeadlessErp
