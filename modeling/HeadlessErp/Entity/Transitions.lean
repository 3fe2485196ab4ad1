import HeadlessErp.Entity.Version

/-!
# Status transitions

Which changes of a row's states the writes of any interleaving of updates make. The transition is
checked against the row a call has read and against the document after the rules; the write goes to
the row as it is by then, with the columns taken from the document before the rules. A write whose
row has kept its states, and which writes the state that was checked, changes them only as the
configured machines allow.
-/

namespace HeadlessErp

section
variable {N : Type} [JsNumber N] {info : CollectionInfo N}

/-! ## Allowed changes -/

/-- The change of a row's document state is allowed: it stays, or the transition is a valid one and
the caller's role may make it. -/
def DocStatusAllowed (c : UpdateCall N info) (before after : Record N) : Prop :=
  after.get "doc_status" = before.get "doc_status" ∨
  ∃ state, after.get "doc_status" = .str state ∧ isValidDocStatus state = true ∧
    isValidTransition N (docStatus before) state info.writes.confirmable = .ok true ∧
    (c.auth.any (!·.isAdmin) = true → state = "submitted" → c.canBusiness "submit" = true) ∧
    (c.auth.any (!·.isAdmin) = true → state = "approved" → c.canBusiness "approve" = true)

/-- The change of a row's status is allowed: it stays, or the machine names the new one. -/
def MachineAllowed (sm : StatusMachine) (before after : Record N) : Prop :=
  statusText (after.get sm.field) = statusText (before.get sm.field) ∨
  ∃ targets, sm.transitions.lookup (statusText (before.get sm.field)) = some targets ∧
    statusText (after.get sm.field) ∈ targets

/-- The changes a write makes to the states of a row are allowed. -/
structure ChangeAllowed (c : UpdateCall N info) (before after : Record N) : Prop where
  docStatus : DocStatusAllowed c before after
  machine : ∀ sm, info.statusMachine = some sm → MachineAllowed sm before after

/-! ## What the checks say -/

/-- The states that can be reached from a state are those the table has for it. -/
theorem lookup_of_transitionsFrom {transitions : List (String × List String)} {status target : String}
    {targets : List String} (h : transitionsFrom transitions status = .ok targets)
    (ht : target ∈ targets) : transitions.lookup status = some targets := by
  unfold transitionsFrom at h
  split at h
  · next heq =>
    cases h
    exact heq
  · split at h
    · cases h
    · cases h
      cases ht

/-- A document that passes the check of the machine has the row's status, or one that the machine
names for it. -/
theorem assertStatusMachine_ok {sm : StatusMachine} {row data : Record N}
    (h : assertStatusMachine sm row data = .ok ()) (hdata : data.get sm.field ≠ .undefined) :
    statusText (data.get sm.field) = statusText (row.get sm.field) ∨
    ∃ targets, sm.transitions.lookup (statusText (row.get sm.field)) = some targets ∧
      statusText (data.get sm.field) ∈ targets := by
  unfold assertStatusMachine at h
  simp only at h
  split at h
  · next heq => exact absurd (eq_undefined_of_strictEq heq) hdata
  · split at h
    · next heq => exact .inl (eq_of_beq heq)
    · obtain ⟨targets, htargets, h⟩ := exists_of_bind_eq_ok h
      split at h
      · next hmem =>
        have hmem' := List.contains_iff_mem.1 hmem
        exact .inr ⟨targets, lookup_of_transitionsFrom htargets hmem', hmem'⟩
      · cases h

/-- A document state that passes its check is valid, reachable from the row's, and the caller's to
set. -/
theorem assertDocStatus_ok {c : UpdateCall N info} {row : Record N} {slug state : String}
    (h : assertDocStatus slug info c.auth c.canBusiness row state = .ok ()) :
    isValidDocStatus state = true ∧
    isValidTransition N (docStatus row) state info.writes.confirmable = .ok true ∧
    (c.auth.any (!·.isAdmin) = true → state = "submitted" → c.canBusiness "submit" = true) ∧
    (c.auth.any (!·.isAdmin) = true → state = "approved" → c.canBusiness "approve" = true) := by
  unfold assertDocStatus at h
  split at h
  · cases h
  · next hvalid =>
    obtain ⟨valid, htrans, h⟩ := exists_of_bind_eq_ok h
    split at h
    · cases h
    · next hok =>
      split at h
      · cases h
      · next hsubmit =>
        split at h
        · cases h
        · next happrove =>
          refine ⟨by simpa using hvalid, by rw [htrans]; simpa using hok, fun ha hs => ?_,
            fun ha hs => ?_⟩
          · simpa [ha, hs] using hsubmit
          · simpa [ha, hs] using happrove

/-- What is known of a request that was prepared against a row: the state it asks for and the
document after the rules were checked against it, and its columns leave the document state alone. -/
structure CheckedAgainst (slug : String) (c : UpdateCall N info) (existing : Record N)
    (p : Prepared N) : Prop where
  newStatus : assertNewStatus slug c existing p.newStatus = .ok ()
  ruled : assertConfigured info existing p.ruled = .ok ()
  columns : p.columns.get? "doc_status" = none

omit [JsNumber N] in
theorem encryptColumns_eq_none {P : Platform N} {columns : Record N}
    {fields : List (FieldDefinition N)} {k : String} (h : columns.get? k = none) :
    (encryptColumns P columns fields).get? k = none := by
  rw [get?_encryptColumns, h, Option.map_none]

theorem prepareUpdate_checked {slug : String} {c : UpdateCall N info} {existing : Record N}
    {p : Prepared N} (h : prepareUpdate slug c existing = .ok p) :
    CheckedAgainst slug c existing p := by
  unfold prepareUpdate at h
  obtain ⟨⟨newStatus, data⟩, _, h⟩ := exists_of_bind_eq_ok h
  obtain ⟨_, hstatus, h⟩ := exists_of_bind_eq_ok h
  simp only at h
  split at h
  · cases h
  · obtain ⟨document, _, h⟩ := exists_of_bind_eq_ok h
    obtain ⟨_, _, h⟩ := exists_of_bind_eq_ok h
    obtain ⟨⟨columns, rest⟩, hsplit, h⟩ := exists_of_bind_eq_ok h
    obtain ⟨validated, _, h⟩ := exists_of_bind_eq_ok h
    obtain ⟨_, _, h⟩ := exists_of_bind_eq_ok h
    obtain ⟨ruled, _, h⟩ := exists_of_bind_eq_ok h
    obtain ⟨_, hruled, h⟩ := exists_of_bind_eq_ok h
    cases h
    refine ⟨hstatus, hruled, encryptColumns_eq_none ?_⟩
    rw [Record.get?_assign, get?_eq_none_of_stored (c.computed_stored _) (by decide),
      splitRowData_system info.fields_user hsplit (by decide), Option.none_or]

/-- What a write puts in the document state: the state the request asks for, where it asks for
one. -/
theorem updateData_docStatus {c : UpdateCall N info} {p : Prepared N} {now : IsoTime}
    (h : p.columns.get? "doc_status" = none) :
    (updateData c p now).get? "doc_status" =
      if p.newStatus.truthy then some p.newStatus else none := by
  have hbase : (p.columns.assign [("_meta", .str p.metaText), ("updated_at", .str now.text)]).get?
      "doc_status" = none := by
    rw [Record.get?_assign, h]
    rfl
  unfold updateData
  simp only
  split <;> split <;> simp [Record.get?_set, hbase]

/-- The write of a checked request, on a row that has kept the document state the call has read. -/
theorem docStatusAllowed_of_write {slug : String} {c : UpdateCall N info} {T : Storage N}
    {existing row row' : Record N} {p : Prepared N} {now : IsoTime}
    (hc : CheckedAgainst slug c existing p) (hkept : docStatus row = docStatus existing)
    (hw : p.newStatus.truthy = true → ∃ state, p.newStatus = .str state)
    (hup : updateRow T (updateData c p now) row = .ok row') : DocStatusAllowed c row row' := by
  have hdata : (updateData c p now).get? "doc_status" =
      if p.newStatus.truthy then some p.newStatus else none := updateData_docStatus hc.columns
  by_cases htruthy : p.newStatus.truthy = true
  · obtain ⟨state, hstate⟩ := hw htruthy
    have hne : state ≠ "" := by
      rintro rfl
      rw [hstate] at htruthy
      cases htruthy
    have hok := hc.newStatus
    unfold assertNewStatus at hok
    rw [hstate] at hok
    simp only [hne, if_false] at hok
    obtain ⟨hvalid, htrans, hsubmit, happrove⟩ := assertDocStatus_ok hok
    rw [if_pos htruthy, hstate] at hdata
    refine .inr ⟨state, ?_, hvalid, by rw [hkept]; exact htrans, hsubmit, happrove⟩
    rw [get_updateRow_of_some hup hdata]
    exact T.store_text _ (by decide) _
  · rw [if_neg htruthy] at hdata
    exact .inl (get_updateRow_of_none hup hdata)

end

namespace Updates
variable {ι N : Type} [DecidableEq ι] [JsNumber N] {info : CollectionInfo N}
variable (U : Updates ι N info) {s s' : UpdateState ι N}

/-- Every write so far has changed the states of the row as allowed. -/
def OnlyAllowedChanges (s : UpdateState ι N) : Prop :=
  ∀ w ∈ s.commits, ChangeAllowed (U.calls w.caller) w.before w.after

/-- A row has the states that a call has read. -/
structure StatesKept (existing row : Record N) : Prop where
  docStatus : docStatus row = docStatus existing
  machine : ∀ sm, info.statusMachine = some sm →
    statusText (row.get sm.field) = statusText (existing.get sm.field)

/-- A write puts nothing in the row's states but what was checked: a document state that is a text,
and in the machine's column the status of the document after the rules. -/
structure WritesChecked (i : ι) (p : Prepared N) (now : IsoTime) : Prop where
  docStatus : p.newStatus.truthy = true → ∃ state, p.newStatus = .str state
  machine : ∀ sm, info.statusMachine = some sm → ∀ v,
    (updateData (U.calls i) p now).get? sm.field = some v →
    p.ruled.get sm.field ≠ .undefined ∧
      statusText (U.storage.store sm.field v) = statusText (p.ruled.get sm.field)

/-- The condition on a step: the row has the states that the call has read, what is written was
checked, and no stored formula writes the machine's column. -/
def StatusChecked (s : UpdateState ι N) : UpdateAction ι → Prop
  | .write i now => ∀ existing p row, s.phase i = .checked existing p → s.row = some row →
    @StatesKept N _ info existing row ∧ U.WritesChecked i p now
  | .finish _ => ∀ sm, info.statusMachine = some sm →
    ∀ f ∈ info.schemaFields, f.isStored = true → f.name ≠ sm.field
  | _ => True

/-! ## The invariant -/

variable {U}

omit [DecidableEq ι] in
/-- The write of a checked request, on a row that has kept the states the call has read. -/
theorem changeAllowed_of_write {i : ι} {existing row row' : Record N} {p : Prepared N}
    {now : IsoTime} (hc : CheckedAgainst U.collectionSlug (U.calls i) existing p)
    (hkept : @StatesKept N _ info existing row) (hw : U.WritesChecked i p now)
    (hup : updateRow U.storage (updateData (U.calls i) p now) row = .ok row') :
    ChangeAllowed (U.calls i) row row' := by
  constructor
  · exact docStatusAllowed_of_write hc hkept.docStatus hw.docStatus hup
  · intro sm hsm
    cases hdata : (updateData (U.calls i) p now).get? sm.field with
    | none => exact .inl (by rw [get_updateRow_of_none hup hdata])
    | some v =>
      obtain ⟨hne, htext⟩ := hw.machine sm hsm v hdata
      have hok := hc.ruled
      unfold assertConfigured at hok
      rw [hsm] at hok
      unfold MachineAllowed
      rw [get_updateRow_of_some hup hdata, htext, hkept.machine sm hsm]
      exact assertStatusMachine_ok hok hne

omit [DecidableEq ι] in
/-- The stored formulas change no state of a row. -/
theorem changeAllowed_of_stored {c : UpdateCall N info} {before after d : Record N}
    (hd : ∀ kv ∈ d, ∃ f ∈ info.schemaFields, f.isStored ∧ f.name = kv.1)
    (hsm : ∀ sm, info.statusMachine = some sm →
      ∀ f ∈ info.schemaFields, f.isStored = true → f.name ≠ sm.field)
    (hup : updateRow U.storage d before = .ok after) : ChangeAllowed c before after := by
  constructor
  · exact .inl (get_updateRow_of_none hup (get?_eq_none_of_stored hd (by decide)))
  · intro sm hsm'
    have hnone : d.get? sm.field = none := by
      refine Record.get?_eq_none fun kv hkv heq => ?_
      obtain ⟨f, hf, hstored, hname⟩ := hd kv hkv
      exact hsm sm hsm' f hf hstored (hname.trans heq)
    exact .inl (by rw [get_updateRow_of_none hup hnone])

variable (U) in
/-- What a call has checked stands against the row it has read, and the writes so far were
allowed. -/
structure StatusInvariant (s : UpdateState ι N) : Prop where
  checked : ∀ i existing p, s.phase i = .checked existing p →
    CheckedAgainst U.collectionSlug (U.calls i) existing p
  allowed : U.OnlyAllowedChanges s

/-- A call that enters another phase keeps the invariant, as far as it has checked its request. -/
theorem StatusInvariant.enter (h : U.StatusInvariant s) {i : ι} {ph : Phase N}
    (hc : ∀ existing p, ph = .checked existing p →
      CheckedAgainst U.collectionSlug (U.calls i) existing p) :
    U.StatusInvariant (s.enter i ph) := by
  refine ⟨fun j existing p hj => ?_, h.allowed⟩
  obtain ⟨rfl, hph⟩ | ⟨-, hj⟩ := s.phase_enter hj
  · exact hc existing p hph.symm
  · exact h.checked j existing p hj

omit [DecidableEq ι] in
/-- An allowed write keeps the invariant. -/
theorem StatusInvariant.commit (h : U.StatusInvariant s) {i : ι} {before after : Record N}
    (hallowed : ChangeAllowed (U.calls i) before after) :
    U.StatusInvariant (s.commit i before after) := by
  refine ⟨h.checked, fun w hw => ?_⟩
  obtain hw | hw := List.mem_append.1 hw
  · exact h.allowed w hw
  · rw [List.mem_singleton] at hw
    subst hw
    exact hallowed

/-- A request that passes its check was prepared against the row it has read. -/
theorem checkUpdate_prepared {c : UpdateCall N info} {existing : Record N} {slug : String}
    {row : Option (Record N)} {p : Prepared N} (h : checkUpdate slug c existing row = .ok p) :
    CheckedAgainst slug c existing p := by
  unfold checkUpdate at h
  obtain ⟨_, _, h⟩ := exists_of_bind_eq_ok h
  obtain ⟨_, _, h⟩ := exists_of_bind_eq_ok h
  exact prepareUpdate_checked h

/-- One step under the condition keeps the invariant. -/
theorem StatusInvariant.step (h : U.StatusInvariant s) {a : UpdateAction ι}
    (ha : U.StatusChecked s a) (hstep : U.step s a = some s') : U.StatusInvariant s' := by
  cases U.outcome_of_step hstep with
  | refused | missing | loaded | rejected | gone | aborted | unfinished | finished =>
    exact h.enter nofun
  | checked hph hcheck =>
    refine h.enter fun existing p heq => ?_
    cases heq
    exact checkUpdate_prepared hcheck
  | written hph hrow hup =>
    obtain ⟨hkept, hw⟩ := ha _ _ _ hph hrow
    exact (h.commit (changeAllowed_of_write (h.checked _ _ _ hph) hkept hw hup)).enter nofun
  | @recomputed i existing row before after p hph hrow hup =>
    exact (h.commit (changeAllowed_of_stored ((U.calls i).recomputed_stored _) ha hup)).enter nofun

/-- The writes change the states of the row only as the machines allow, in every run in which a call
writes a row that has the states it has read, and writes the states that were checked. -/
theorem onlyAllowedChanges_of_statusChecked (h : U.system.Reach U.StatusChecked s) :
    U.OnlyAllowedChanges s := by
  refine (h.invariant (I := U.StatusInvariant) ?_ fun s a s' hs ha hstep => hs.step ha hstep).allowed
  rintro s ⟨-, hidle, hcommits⟩
  refine ⟨fun i existing p hi => ?_, fun w hw => ?_⟩
  · rw [hidle i] at hi
    cases hi
  · rw [hcommits] at hw
    cases hw

end Updates

/-! ## Two calls -/

/-- Tickets: an open one is closed or held, a closed one stays closed. -/
def tickets : CollectionInfo (Option Int) where
  tableName := "tickets"
  schemaFields := [{ name := "state", type := .select }]
  statusMachine := some { field := "state",
                          transitions := [("open", ["closed", "held"]), ("closed", [])] }
  fields_user := by decide

/-- An open ticket. -/
def ticket : Record (Option Int) :=
  [("id", .str "t1"), ("state", .str "open"), ("doc_status", .str "draft"), ("_meta", .null),
   ("updated_at", .str "t0")]

/-- One call closes the ticket, the other one holds it. -/
def ticketUpdates : Updates Bool (Option Int) tickets where
  collectionSlug := "tickets"
  id := "t1"
  storage := plainStorage _
  calls i := plainCall [("state", .str (if i then "closed" else "held"))] none

/-- Before the calls. -/
def ticketState : UpdateState Bool (Option Int) where
  row := some ticket
  phase _ := .idle
  commits := []

/-- Both calls check their change against the open ticket; then both write. -/
def ticketRun : List (UpdateAction Bool) :=
  [.read true, .read false, .check true, .check false, .write true ⟨"t3", by decide⟩,
   .write false ⟨"t4", by decide⟩]

/-- The closed ticket is held: a write changes the status of a row as the machine does not allow. -/
theorem closed_ticket_held :
    ¬ ∀ (ι : Type) (_ : DecidableEq ι) (info : CollectionInfo (Option Int))
        (U : Updates ι (Option Int) info) (s : UpdateState ι (Option Int)),
        U.system.Reachable s → U.OnlyAllowedChanges s := by
  intro h
  have hinit : ticketUpdates.system.Reachable ticketState := .init ⟨rfl, fun _ => rfl, rfl⟩
  have hrun : (ticketUpdates.system.run ticketState ticketRun).isSome = true := rfl
  have hallowed := h Bool inferInstance tickets ticketUpdates _
    (hinit.run (Option.some_get hrun).symm)
  obtain hsame | ⟨targets, hlookup, hmem⟩ :=
    (hallowed _ (.tail _ (.head _))).machine _ rfl
  · revert hsame
    decide
  · cases (show some [] = some targets from hlookup)
    cases hmem

/-- The call that closes the ticket, on its own. -/
theorem onlyAllowedChanges_of_statusChecked_ticket :
    ∃ s, ticketUpdates.system.Reach ticketUpdates.StatusChecked s ∧ s.commits.length = 1 ∧
      ticketUpdates.OnlyAllowedChanges s := by
  have h₀ : ticketUpdates.system.Reach ticketUpdates.StatusChecked ticketState :=
    .init ⟨rfl, fun _ => rfl, rfl⟩
  have h₁ := h₀.step (show ticketUpdates.StatusChecked ticketState (.read true) from trivial) rfl
  have h₂ := h₁.step (show ticketUpdates.StatusChecked _ (.check true) from trivial) rfl
  have hwrite : ticketUpdates.StatusChecked
      (ticketUpdates.check (ticketUpdates.read ticketState true) true ticket)
      (.write true ⟨"t3", by decide⟩) := by
    intro existing p row hph hrow
    cases hph
    cases hrow
    refine ⟨⟨rfl, fun sm _ => rfl⟩, nofun, fun sm hsm v hv => ?_⟩
    cases hsm
    cases hv
    exact ⟨nofun, rfl⟩
  have h₃ := h₂.step hwrite rfl
  exact ⟨_, h₃, rfl, Updates.onlyAllowedChanges_of_statusChecked h₃⟩

end HeadlessErp
