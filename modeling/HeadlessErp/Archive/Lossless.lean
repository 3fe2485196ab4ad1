import Mathlib.Data.List.Nodup
import HeadlessErp.Archive.Run

/-!
# Archiving loses no record

In a run whose events are all safe, a removed row was in the trash when it was deleted, and a row
that a rule has moved is in an object of the bucket. Two rules for one collection share the key of
their objects, so the second one replaces the rows of the first.
-/

namespace HeadlessErp

section
variable {ι N : Type} [JsNumber N] [DecidableEq ι] {E : ArchiveEnv ι} {s s' : ArchiveState ι N}
  {i : ι} {now : Nat} {rule : ArchiveRule} {table : String} {records : List (TableRow N)}

/-! ## Objects -/

/-- The object of a run holds the records it was made of. -/
theorem parse_archiveText (records : List (TableRow N)) :
    Json.parse (archiveText records) = some (.arr (records.map fun record => .obj record.row)) := by
  have hjson : IsJson (.arr (records.map fun record => JsVal.obj record.row)) := by
    refine .arr fun v hv => ?_
    obtain ⟨record, -, rfl⟩ := List.mem_map.1 hv
    exact record.json
  obtain ⟨text, htext, hparse⟩ := Json.parse_toJson hjson
  unfold archiveText
  rw [htext]
  exact hparse

/-- An object that holds no record can be replaced. -/
theorem Archived.update {objects : String → Option String} {row : Record N} {key text : String}
    (h : Archived objects row)
    (hempty : ∀ old, objects key = some old →
      (Json.parse old : Option (JsVal N)) = some (.arr [])) :
    Archived (Function.update objects key (some text)) row := by
  obtain ⟨key', old, rows, hold, hparse, hrow⟩ := h
  by_cases hkey : key' = key
  · subst hkey
    have heq := (hempty old hold).symm.trans hparse
    cases heq
    exact absurd hrow List.not_mem_nil
  · exact ⟨key', old, rows, by rwa [Function.update_of_ne hkey], hparse, hrow⟩

theorem archived_archiveText {objects : String → Option String} {key : String} {record : TableRow N}
    (h : record ∈ records) :
    Archived (Function.update objects key (some (archiveText records))) record.row :=
  ⟨key, archiveText records, _, Function.update_self .., parse_archiveText records,
    List.mem_map.2 ⟨record, h, rfl⟩⟩

/-! ## Rows -/

omit [JsNumber N] in
theorem not_isLive_of_trashedBefore {cutoff : String} {row : Record N}
    (h : trashedBefore cutoff row = true) : isLive row = false := by
  unfold trashedBefore at h
  unfold isLive
  cases hdeleted : row.get "deleted_at" with
  | undefined | null | arr | obj | func =>
    rw [hdeleted] at h
    cases h
  | bool | num | str => rfl

/-- A row that has just been read is untouched. -/
theorem untouched_of_select {db : ArchiveDb N} {cutoff : String} {record row : TableRow N}
    (hrecord : record ∈
      ((db.rows table).filter fun r => trashedBefore cutoff r.row).take 1000)
    (hrow : row ∈ db.rows table) (hid : row.id = record.id) : Untouched rule record row := by
  obtain ⟨hmem, htrashed⟩ := List.mem_filter.1 (List.mem_of_mem_take hrecord)
  obtain rfl : row = record := List.inj_on_of_nodup_map (db.ids_nodup table) hrow hmem hid
  exact ⟨not_isLive_of_trashedBefore htrashed, fun _ => rfl⟩

theorem mem_of_deleteRow {db : ArchiveDb N} {table' id : String} {row : TableRow N}
    (h : row ∈ (db.deleteRow table id).rows table') : row ∈ db.rows table' := by
  unfold ArchiveDb.deleteRow at h
  by_cases heq : table' = table
  · subst heq
    simp only [Function.update_self] at h
    exact (List.mem_filter.1 h).1
  · simpa only [Function.update_of_ne heq] using h

/-! ## One call -/

/-- What a run has selected after its phase has changed. -/
theorem selected_goto {phase : ArchivePhase N} {j : ι}
    (h : Selected (s.goto i phase) j rule table records) :
    (j = i ∧ ∃ rules, phase = .store rule table records rules ∨
        phase = .delete rule table records rules) ∨
      (j ≠ i ∧ Selected s j rule table records) := by
  obtain ⟨rules, h⟩ := h
  unfold ArchiveState.goto at h
  by_cases hj : j = i
  · subst hj
    simp only [Function.update_self] at h
    exact .inl ⟨rfl, rules, h⟩
  · simp only [Function.update_of_ne hj] at h
    exact .inr ⟨hj, rules, h⟩

/-- What holds of the runs and the rows they have removed. -/
structure ArchiveSound (E : ArchiveEnv ι) (s : ArchiveState ι N) : Prop where
  removed : ∀ r ∈ s.removed, isLive r.row.row = false ∧
    (r.rule.action = .moveToR2 → Archived s.objects r.row.row)
  untouched : ∀ i rule table records, Selected s i rule table records →
    ∀ record ∈ records, ∀ row ∈ s.db.rows table, row.id = record.id → Untouched rule record row
  stored : ∀ i rule table records rules, s.phase i = .delete rule table records rules →
    rule.action = .moveToR2 → E.r2 = true → ∀ record ∈ records, Archived s.objects record.row

/-- A phase with nothing to store or delete. -/
def ArchivePhase.Idle : ArchivePhase N → Prop
  | .store .. | .delete .. => False
  | _ => True

/-- A run goes on to a phase with nothing to store or delete. -/
theorem ArchiveSound.goto (h : ArchiveSound E s) {phase : ArchivePhase N} (hidle : phase.Idle) :
    ArchiveSound E (s.goto i phase) where
  removed := h.removed
  untouched j rule table records hsel := by
    rcases selected_goto hsel with ⟨-, rules, rfl | rfl⟩ | ⟨-, hold⟩
    · exact hidle.elim
    · exact hidle.elim
    · exact h.untouched j rule table records hold
  stored j rule table records rules hphase := by
    by_cases hj : j = i
    · subst hj
      unfold ArchiveState.goto at hphase
      simp only [Function.update_self] at hphase
      subst hphase
      exact hidle.elim
    · unfold ArchiveState.goto at hphase
      simp only [Function.update_of_ne hj] at hphase
      exact h.stored j rule table records rules hphase

/-- A run has read the rows of a rule. -/
theorem ArchiveSound.select (h : ArchiveSound E s) {cutoff : String} {rules : List ArchiveRule}
    {phase : ArchivePhase N}
    (hrecords : records = ((s.db.rows table).filter fun r => trashedBefore cutoff r.row).take 1000)
    (hphase : phase = if rule.action = .moveToR2 ∧ E.r2 = true then .store rule table records rules
      else .delete rule table records rules) : ArchiveSound E (s.goto i phase) where
  removed := h.removed
  untouched j rule' table' records' hsel record hrecord row hrow hid := by
    rcases selected_goto hsel with ⟨-, rules', hnew⟩ | ⟨-, hold⟩
    · have hsame : rule' = rule ∧ table' = table ∧ records' = records := by
        split at hphase
        · rcases hnew with hnew | hnew
          · cases hphase.symm.trans hnew
            exact ⟨rfl, rfl, rfl⟩
          · cases hphase.symm.trans hnew
        · rcases hnew with hnew | hnew
          · cases hphase.symm.trans hnew
          · cases hphase.symm.trans hnew
            exact ⟨rfl, rfl, rfl⟩
      obtain ⟨rfl, rfl, rfl⟩ := hsame
      rw [hrecords] at hrecord
      exact untouched_of_select hrecord hrow hid
    · exact h.untouched j rule' table' records' hold record hrecord row hrow hid
  stored j rule' table' records' rules' hnew hmove hr2 record hrecord := by
    unfold ArchiveState.goto at hnew
    by_cases hj : j = i
    · subst hj
      simp only [Function.update_self] at hnew
      -- with a bucket, a rule that moves stores before it deletes
      rw [hphase] at hnew
      split at hnew
      · cases hnew
      · next hstore =>
        cases hnew
        exact absurd ⟨hmove, hr2⟩ hstore
    · simp only [Function.update_of_ne hj] at hnew
      exact h.stored j rule' table' records' rules' hnew hmove hr2 record hrecord

/-- A run has stored the records of a rule, in place of an object without records. -/
theorem ArchiveSound.store (h : ArchiveSound E s) {rules : List ArchiveRule} {key : String}
    (hphase : s.phase i = .store rule table records rules)
    (hempty : ∀ old, s.objects key = some old →
      (Json.parse old : Option (JsVal N)) = some (.arr [])) :
    ArchiveSound E { s.goto i (.delete rule table records rules) with
      objects := Function.update s.objects key (some (archiveText records)) } where
  removed r hr := by
    obtain ⟨hlive, harchived⟩ := h.removed r hr
    exact ⟨hlive, fun hmove => (harchived hmove).update hempty⟩
  untouched j rule' table' records' hsel := by
    have hold : Selected s j rule' table' records' := by
      rcases selected_goto hsel with ⟨rfl, rules', hnew | hnew⟩ | ⟨-, hold⟩
      · cases hnew
      · cases hnew
        exact ⟨rules, .inl hphase⟩
      · exact hold
    exact h.untouched j rule' table' records' hold
  stored j rule' table' records' rules' hnew hmove hr2 record hrecord := by
    unfold ArchiveState.goto at hnew
    by_cases hj : j = i
    · subst hj
      simp only [Function.update_self] at hnew
      cases hnew
      exact archived_archiveText hrecord
    · simp only [Function.update_of_ne hj] at hnew
      exact (h.stored j rule' table' records' rules' hnew hmove hr2 record hrecord).update hempty

/-- A run has deleted one record. -/
theorem ArchiveSound.delete (h : ArchiveSound E s) {rules : List ArchiveRule} {record : TableRow N}
    (hphase : s.phase i = .delete rule table (record :: records) rules)
    (hr2 : rule.action = .moveToR2 → E.r2 = true) :
    ArchiveSound E { s.goto i (.delete rule table records rules) with
      db := s.db.deleteRow table record.id
      removed := s.removed ++
        ((s.db.rows table).filter (·.id = record.id)).map fun row => ⟨rule, row⟩ } where
  removed r hr := by
    rcases List.mem_append.1 hr with hr | hr
    · exact h.removed r hr
    · obtain ⟨row, hrow, rfl⟩ := List.mem_map.1 hr
      obtain ⟨hmem, hid⟩ := List.mem_filter.1 hrow
      obtain ⟨hlive, hsame⟩ := h.untouched i rule table _ ⟨rules, .inr hphase⟩ record
        List.mem_cons_self row hmem (of_decide_eq_true hid)
      refine ⟨hlive, fun hmove => ?_⟩
      show Archived s.objects row.row
      rw [hsame hmove]
      exact h.stored i rule table _ rules hphase hmove (hr2 hmove) record List.mem_cons_self
  untouched j rule' table' records' hsel record' hrecord' row hrow := by
    have hrow' : row ∈ s.db.rows table' := mem_of_deleteRow hrow
    rcases selected_goto hsel with ⟨rfl, rules', hnew | hnew⟩ | ⟨-, hold⟩
    · cases hnew
    · cases hnew
      exact h.untouched j rule table _ ⟨rules, .inr hphase⟩ record'
        (List.mem_cons_of_mem record hrecord') row hrow'
    · exact h.untouched j rule' table' records' hold record' hrecord' row hrow'
  stored j rule' table' records' rules' hnew hmove hr2 record' hrecord' := by
    unfold ArchiveState.goto at hnew
    by_cases hj : j = i
    · subst hj
      simp only [Function.update_self] at hnew
      cases hnew
      exact h.stored j rule table _ rules hphase hmove hr2 record'
        (List.mem_cons_of_mem record hrecord')
    · simp only [Function.update_of_ne hj] at hnew
      exact h.stored j rule' table' records' rules' hnew hmove hr2 record' hrecord'

/-! ## Runs -/

/-- A safe event keeps the runs sound. -/
theorem ArchiveSound.step (h : ArchiveSound E s) {event : ArchiveEvent ι N}
    (hsafe : SafeEvent E s event) (hstep : (archiveSystem E).step s event = some s') :
    ArchiveSound E s' := by
  cases event with
  | other write =>
    cases hstep
    exact ⟨h.removed, hsafe, h.stored⟩
  | run i now =>
    have hcall : archiveCall E s i now = some s' := hstep
    unfold archiveCall at hcall
    split at hcall
    · cases hcall
      exact h.goto trivial
    · cases hcall
    · cases hcall
      exact h.goto trivial
    · cases hcall
      exact h.select rfl rfl
    · next hphase =>
      cases hcall
      simp only [SafeEvent, hphase] at hsafe
      exact h.store hphase hsafe
    · cases hcall
      exact h.goto trivial
    · next hphase =>
      cases hcall
      simp only [SafeEvent, hphase] at hsafe
      exact h.delete hphase hsafe

theorem reach_call (h : (archiveSystem E).Reach (SafeEvent E) s) (i : ι) (now : Nat)
    (hsafe : SafeEvent E s (.run i now)) (hcall : archiveCall E s i now = some s') :
    (archiveSystem E).Reach (SafeEvent E) s' := h.step hsafe hcall

/-- No event both stores and removes. -/
theorem objects_or_removed_of_step {event : ArchiveEvent ι N}
    (hstep : (archiveSystem E).step s event = some s') :
    s'.objects = s.objects ∨ s'.removed = s.removed := by
  cases event with
  | other write =>
    cases hstep
    exact .inl rfl
  | run i now =>
    have hcall : archiveCall E s i now = some s' := hstep
    unfold archiveCall at hcall
    split at hcall
    · cases hcall
      exact .inl rfl
    · cases hcall
    · cases hcall
      exact .inl rfl
    · cases hcall
      exact .inl rfl
    · cases hcall
      exact .inr rfl
    · cases hcall
      exact .inl rfl
    · cases hcall
      exact .inl rfl

/-- In a run whose events are all safe, what is removed was in the trash, and what is moved is in
the bucket, before it is removed and ever after. -/
theorem lossless_of_reach (h : (archiveSystem E).Reach (SafeEvent E) s) :
    (∀ r ∈ s.removed, isLive r.row.row = false ∧
      (r.rule.action = .moveToR2 → Archived s.objects r.row.row)) ∧
    ∀ event s', SafeEvent E s event → (archiveSystem E).step s event = some s' →
      ∀ r ∈ s'.removed, r.rule.action = .moveToR2 → Archived s.objects r.row.row := by
  have hsound : ArchiveSound E s := by
    refine h.invariant (I := ArchiveSound E) ?_ fun s event s' hs hsafe hstep => hs.step hsafe hstep
    rintro s ⟨hstart, hremoved⟩
    refine ⟨fun r hr => ?_, fun i rule table records hsel => ?_,
      fun i rule table records rules hphase => ?_⟩
    · rw [hremoved] at hr
      cases hr
    · obtain ⟨rules, hphase | hphase⟩ := hsel
      · rw [hstart i] at hphase
        cases hphase
      · rw [hstart i] at hphase
        cases hphase
    · rw [hstart i] at hphase
      cases hphase
  refine ⟨hsound.removed, fun event s' hsafe hstep r hr hmove => ?_⟩
  rcases objects_or_removed_of_step hstep with hobjects | hremoved
  · rw [← hobjects]
    exact ((hsound.step hsafe hstep).removed r hr).2 hmove
  · rw [hremoved] at hr
    exact (hsound.removed r hr).2 hmove

end

/-! ## Two rules for one collection -/

/-- A document that was trashed on a day. -/
def trashedDocument (id day : String) : TableRow (Option Int) where
  row := [("id", .str id), ("deleted_at", .str day)]
  id := id
  id_eq := rfl
  json := by
    refine .obj (show ["id", "deleted_at"].Nodup by decide) fun kv hkv => ?_
    rcases List.mem_cons.1 hkv with rfl | hkv
    · exact .str id
    · obtain rfl := List.mem_singleton.1 hkv
      exact .str day

/-- A rule that moves the documents that were trashed so many days ago. -/
def moveDocuments (retentionDays : Int) : ArchiveRule where
  collectionSlug := "documents"
  retentionDays := retentionDays
  action := .moveToR2
  enabled := true

/-- Two documents in the trash, under some rules. -/
def documentDb (rules : List ArchiveRule) : ArchiveDb (Option Int) where
  rules := rules
  tableName slug := if slug = "documents" then some "cms_documents" else none
  rows table := if table = "cms_documents" then
    [trashedDocument "d1" "2020-01-01", trashedDocument "d2" "2024-01-01"] else []
  ids_nodup table := by
    split
    · show ["d1", "d2"].Nodup
      decide
    · exact List.nodup_nil

/-- A worker with a bucket, in the year after the documents were trashed. -/
def archiveWorker : ArchiveEnv Unit where
  r2 := true
  jobId _ := "job"
  cutoff _ days := if days = 1000 then "2022-06-01" else "2025-01-01"

def archiveStart (rules : List ArchiveRule) : ArchiveState Unit (Option Int) where
  db := documentDb rules
  objects _ := none
  phase _ := .start
  removed := []

/-- A run with one rule, after its first deletion. -/
theorem lossless_one_rule : ∃ s : ArchiveState Unit (Option Int),
    s.removed = [⟨moveDocuments 1000, trashedDocument "d1" "2020-01-01"⟩] ∧
    ((∀ r ∈ s.removed, isLive r.row.row = false ∧
      (r.rule.action = .moveToR2 → Archived s.objects r.row.row)) ∧
    ∀ event s', SafeEvent archiveWorker s event →
      (archiveSystem archiveWorker).step s event = some s' →
      ∀ r ∈ s'.removed, r.rule.action = .moveToR2 → Archived s.objects r.row.row) := by
  have h0 : (archiveSystem archiveWorker).Reach (SafeEvent archiveWorker)
    (archiveStart [moveDocuments 1000]) := .init ⟨fun _ => rfl, rfl⟩
  have h1 := reach_call h0 () 0 trivial rfl
  have h2 := reach_call h1 () 0 trivial rfl
  have h3 := reach_call h2 () 0 trivial rfl
  have h4 := reach_call h3 () 0 (fun _ h => by cases h) rfl
  have h5 := reach_call h4 () 0 (fun _ => rfl) rfl
  exact ⟨_, rfl, lossless_of_reach h5⟩

/-- Two rules for one collection: the object with the rows of the first one is replaced by the rows
of the second one. -/
theorem not_lossless_rules : ∃ s : ArchiveState Unit (Option Int),
    (archiveSystem archiveWorker).Reachable s ∧
    ∃ r ∈ s.removed, r.rule.action = .moveToR2 ∧ ¬ Archived s.objects r.row.row := by
  have hrun : ∃ s : ArchiveState Unit (Option Int),
      (archiveSystem archiveWorker).run (archiveStart [moveDocuments 1000, moveDocuments 30])
        (List.replicate 9 (.run () 0)) = some s ∧
      s.removed = [⟨moveDocuments 1000, trashedDocument "d1" "2020-01-01"⟩] ∧
      s.objects = Function.update (Function.update (fun _ => none)
        (archiveKey "cms_documents" "job")
          (some (archiveText [trashedDocument "d1" "2020-01-01"])))
        (archiveKey "cms_documents" "job")
          (some (archiveText [trashedDocument "d2" "2024-01-01"])) := ⟨_, rfl, rfl, rfl⟩
  obtain ⟨s, hrun, hremoved, hobjects⟩ := hrun
  have hstart : (archiveSystem archiveWorker).Reachable
      (archiveStart [moveDocuments 1000, moveDocuments 30]) := .init ⟨fun _ => rfl, rfl⟩
  refine ⟨s, hstart.run hrun, _, by rw [hremoved]; exact List.mem_cons_self, rfl, ?_⟩
  rintro ⟨key, text, records, hobject, hparse, hmem⟩
  rw [hobjects] at hobject
  by_cases hkey : key = archiveKey "cms_documents" "job"
  · subst hkey
    rw [Function.update_self] at hobject
    cases hobject
    rw [parse_archiveText] at hparse
    cases hparse
    have hrow := JsVal.obj.inj (List.mem_singleton.1 hmem)
    have hid : some (JsVal.str "d1") = some (.str "d2") :=
      congrArg (fun row : Record (Option Int) => row.get? "id") hrow
    exact absurd (JsVal.str.inj (Option.some.inj hid)) (by decide)
  · rw [Function.update_of_ne hkey, Function.update_of_ne hkey] at hobject
    cases hobject

end HeadlessErp
