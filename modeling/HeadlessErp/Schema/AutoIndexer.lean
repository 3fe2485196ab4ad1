import Mathlib
import HeadlessErp.Base.Transition
import HeadlessErp.Js.Map
import HeadlessErp.Query.Sql
import HeadlessErp.Schema.UniqueIndexes

/-!
# The index advisor

`SelfTuningIndexAdvisor` of `packages/core/src/db/auto-indexer.ts`, with the database it tunes. The
ledger counts the shapes of the queries, the map `created` remembers the column lists of the indexes
that a pass made, and the journal lists what a pass did. No index of a table is counted twice, so its
budget holds in every run; that a remembered index is there, that it is no declared one, and that the
journal repeats nothing holds in the runs whose passes are `Clear` (`sound_of_reach`).
-/

namespace HeadlessErp.AutoIndexer

/-! ## The advisor -/

/-- `MAX_AUTO_INDEXES_PER_COLLECTION`. -/
def maxAutoIndexesPerCollection : ℕ := 4

/-- `MAX_COLUMNS_PER_INDEX`. -/
def maxColumnsPerIndex : ℕ := 4

/-- `MIN_OBSERVATIONS`. -/
def minObservations : ℕ := 5

/-- `TUNE_INTERVAL_MS`. -/
def tuneIntervalMs : ℤ := 60000

/-- `LEDGER_MAX_ENTRIES`. -/
def ledgerMaxEntries : ℕ := 2000

/-- `MAX_PROBES_PER_PASS`. -/
def maxProbesPerPass : ℕ := 4

/-- A `FilterSignature`. -/
structure FilterSignature where
  filters : List String
  sort : String := ""

/-- An `AutoIndexEntry`. -/
structure AutoIndexEntry where
  table : String
  columns : List String
  signature : String
  createdAt : ℤ

/-- The mode of a pass. -/
inductive Mode where
  | auto
  | propose

/-- The fields of a `SelfTuningIndexAdvisor`. -/
structure Advisor where
  ledger : JsMap String (JsMap String ℕ) := .empty
  prototypes : JsMap String FilterSignature := .empty
  created : JsMap String (JsSet String) := .empty
  journal : List AutoIndexEntry := []
  lastTune : ℤ := 0
  lastMode : Mode := .auto

/-- `columns.join(',')`. -/
def joinCommas (columns : List String) : String := ",".intercalate columns

/-- `key.split(',')`. -/
def splitCommas (key : String) : List String := (key.toList.splitOn ',').map String.ofList

/-- `columnsOf`. -/
def columnsOf (sig : FilterSignature) : List String :=
  (((sig.filters ++ [sig.sort]).filter (· ≠ "")).foldl JsSet.add .empty).elems

/-- `signatureOf`. -/
def signatureOf (sig : FilterSignature) : String := joinCommas (columnsOf sig)

/-- The ledger with room for one more table: the oldest one is dropped where it is full. -/
def evicted (ledger : JsMap String (JsMap String ℕ)) : JsMap String (JsMap String ℕ) :=
  if ledger.size < ledgerMaxEntries then ledger
  else
    match ledger.keys.head? with
    | some oldest => if oldest = "" then ledger else ledger.delete oldest
    | none => ledger

/-- `record`. -/
def record (s : Advisor) (table : String) (sig : FilterSignature) (declared : List (List String)) :
    Advisor :=
  if (columnsOf sig).length < 2 then s
  else
    let key := signatureOf sig
    if key = "" then s
    else if (declared.map joinCommas).contains key then s
    else
      let ledger := match s.ledger.get? table with
        | some _ => s.ledger
        | none => (evicted s.ledger).set table .empty
      let byTable := (ledger.get? table).getD .empty
      let prototypes := match s.prototypes.get? key with
        | some _ => s.prototypes
        | none => s.prototypes.set key sig
      { s with
        ledger := ledger.set table (byTable.set key ((byTable.get? key).getD 0 + 1))
        prototypes := prototypes }

/-- A candidate. -/
structure Candidate where
  table : String
  columns : List String
  count : ℕ
  deriving DecidableEq

/-- The columns and the count of the most observed signature of a table. -/
def best (s : Advisor) (byKey : JsMap String ℕ) : Option (List String × ℕ) :=
  byKey.entries.foldl (fun best e =>
    if (s.prototypes.get? e.1).isNone || e.2 < minObservations then best
    else
      let columns := splitCommas e.1
      if columns.length < 2 then best
      else
        match best with
        | none => some (columns, e.2)
        | some b => if b.2 < e.2 then some (columns, e.2) else best) none

/-- The comparison of `topCandidates`. -/
def Candidate.before (a b : Candidate) : Bool :=
  b.count < a.count || (a.count == b.count && !strLt b.table a.table)

/-- `topCandidates`. -/
def topCandidates (s : Advisor) : List Candidate :=
  (s.ledger.entries.filterMap fun e =>
    (best s e.2).map fun b => ⟨e.1, b.1, b.2⟩).mergeSort Candidate.before

/-! ## The advisor and its database -/

/-- An advisor, the indexes of the database (those that were there, and those that the advisor's
statements have made), and the indexes that the recording calls declared, with their tables. -/
structure World where
  advisor : Advisor := {}
  found : List TableIndex := []
  made : List TableIndex := []
  declared : List (String × List String) := []

/-- What the database answers in a pass: whether a table can be read, whether a plan scans it, and
whether the statement of an index runs; and the clock. -/
structure Answers where
  present : String → Bool
  scans : String → List String → Bool
  creates : TableIndex → Bool
  clock : String → ℤ

namespace World

/-- The indexes of the database. -/
def indexes (w : World) : List TableIndex := w.found ++ w.made

/-- `CREATE INDEX IF NOT EXISTS`. -/
def createIndex (w : World) (ix : TableIndex) : World :=
  if w.indexes.any fun other => sameName other.name ix.name then w
  else { w with made := w.made ++ [ix] }

/-- A signature is added to those that `created` has for a table. -/
def remember (w : World) (table signature : String) : World :=
  let set := (w.advisor.created.get? table).getD .empty
  { w with
    advisor := { w.advisor with created := w.advisor.created.set table (set.add signature) } }

/-- An entry is pushed to the journal. -/
def log (w : World) (e : AutoIndexEntry) : World :=
  { w with advisor := { w.advisor with journal := w.advisor.journal ++ [e] } }

end World

/-- The index of a candidate. -/
def indexFor (table : String) (cols : List String) : TableIndex where
  table := table
  name := "idx_" ++ table ++ "_" ++ "_".intercalate cols
  columns := cols.map some
  unique := false
  condition := none

/-- `tuneOne`. -/
def tuneOne (answers : Answers) (propose : Bool) (w : World) (table : String)
    (columns : List String) : Except String World := do
  let cols ← (columns.take maxColumnsPerIndex).mapM (sanitizeIdentifier · "auto-index.col")
  if cols.length < 2 then .ok w
  else
    let safeTable ← sanitizeIdentifier table "auto-index.table"
    let signature := joinCommas cols
    if (w.advisor.created.get? safeTable).any fun existing =>
        decide (signature ∈ existing) || decide (maxAutoIndexesPerCollection ≤ existing.size) then
      .ok w
    else if !answers.scans safeTable cols then .ok w
    else
      let entry : AutoIndexEntry := ⟨safeTable, cols, signature, answers.clock safeTable⟩
      if propose then .ok (w.log entry)
      else if !answers.creates (indexFor safeTable cols) then .error "the statement failed"
      else .ok (((w.createIndex (indexFor safeTable cols)).remember safeTable signature).log entry)

/-- `tuneOne`, with its errors caught. -/
def tried (answers : Answers) (propose : Bool) (w : World) (c : Candidate) : World :=
  match tuneOne answers propose w c.table c.columns with
  | .ok w' => w'
  | .error _ => w

/-- `existingTables` has a table. -/
def Answers.existing (answers : Answers) (table : String) : Bool :=
  isIdentifier table && answers.present table

/-- The loop of `tune`. -/
def probeAll (answers : Answers) (propose : Bool) : ℕ → World → List Candidate → World
  | _, w, [] => w
  | probes, w, c :: cs =>
    if !answers.existing c.table then probeAll answers propose probes w cs
    else if maxProbesPerPass ≤ probes then w
    else probeAll answers propose (probes + 1) (tried answers propose w c) cs

/-- The time and the mode of a pass. -/
def World.begin (w : World) (now : ℤ) (propose : Bool) : World :=
  { w with
    advisor := { w.advisor with
      lastTune := now
      lastMode := if propose then .propose else .auto } }

/-- `tune`. -/
def tune (answers : Answers) (now : ℤ) (propose : Bool) (w : World) : World :=
  if now - w.advisor.lastTune < tuneIntervalMs then w
  else probeAll answers propose 0 (w.begin now propose) (topCandidates (w.begin now propose).advisor)

/-! ## Runs -/

/-- A call of the advisor. -/
inductive Call where
  | record (table : String) (sig : FilterSignature) (declared : List (List String))
  | tune (now : ℤ) (propose : Bool) (answers : Answers)

/-- The state after a call. -/
def World.call (w : World) : Call → World
  | .record table sig declared =>
    { w with
      advisor := record w.advisor table sig declared
      declared := w.declared ++ declared.map (table, ·) }
  | .tune now propose answers => tune answers now propose w

/-- The calls on an advisor, which starts anew. -/
def system : System World Call where
  init w := w.advisor = {} ∧ w.made = [] ∧ w.declared = []
  step w c := some (w.call c)

/-- `created` has the columns of an index. -/
def Recorded (w : World) (table : String) (cols : List String) : Prop :=
  ∃ signatures, w.advisor.created.get? table = some signatures ∧
    ∃ signature ∈ signatures, splitCommas signature = cols

/-- The database has an index of a table on just these columns. -/
def Exists (w : World) (table : String) (cols : List String) : Prop :=
  ∃ ix ∈ w.indexes, ix.table = table ∧ ix.columns = cols.map some

/-- What the advisor promises. -/
structure Sound (w : World) : Prop where
  budget : ∀ table, (w.made.filter (·.table = table)).length ≤ maxAutoIndexesPerCollection
  existing : ∀ table cols, Recorded w table cols → Exists w table cols
  additional : ∀ table cols, Recorded w table cols → (table, cols) ∉ w.declared
  journal : (w.advisor.journal.map fun e => (e.table, e.columns)).Nodup

/-! ## The condition -/

/-- `tuneOne` goes on with these columns: they are names, the table has no index of them and room for
one, and the plan scans the table. -/
structure Selected (answers : Answers) (w : World) (table : String) (columns cols : List String) :
    Prop where
  taken : cols = columns.take maxColumnsPerIndex
  names : ∀ c ∈ cols, isIdentifier c = true
  many : 2 ≤ cols.length
  room : ∀ signatures, w.advisor.created.get? table = some signatures →
    joinCommas cols ∉ signatures ∧ signatures.size < maxAutoIndexesPerCollection
  scans : answers.scans table cols = true

/-- The journal has no entry of a table and a column list. -/
def Unlisted (w : World) (table : String) (cols : List String) : Prop :=
  ∀ e ∈ w.advisor.journal, (e.table, e.columns) ≠ (table, cols)

/-- The name of an index is not taken, or the table has an index on the same columns. -/
def NameFree (w : World) (table : String) (cols : List String) : Prop :=
  (∃ ix ∈ w.indexes, sameName ix.name (indexFor table cols).name = true) → Exists w table cols

/-- What `tuneOne` goes on with is not in the journal; and what it makes an index of was not declared,
and the name of its index is free. -/
def Clear (answers : Answers) (propose : Bool) (w : World) (c : Candidate) : Prop :=
  ∀ cols, Selected answers w c.table c.columns cols →
    (propose = true → Unlisted w c.table cols) ∧
    (propose = false → answers.creates (indexFor c.table cols) = true →
      Unlisted w c.table cols ∧ (c.table, cols) ∉ w.declared ∧ NameFree w c.table cols)

/-- The candidates of a pass are clear, each in the state it is probed in. -/
def AllClear (answers : Answers) (propose : Bool) : ℕ → World → List Candidate → Prop
  | _, _, [] => True
  | probes, w, c :: cs =>
    if !answers.existing c.table then AllClear answers propose probes w cs
    else if maxProbesPerPass ≤ probes then True
    else Clear answers propose w c ∧
      AllClear answers propose (probes + 1) (tried answers propose w c) cs

/-- The condition on a call: a recording call declares no index that the advisor has recorded, and a
pass is clear. -/
def Meets (w : World) (call : Call) : Prop :=
  match call with
  | .record table _ declared => ∀ cols ∈ declared, ¬Recorded w table cols
  | .tune now propose answers => tuneIntervalMs ≤ now - w.advisor.lastTune →
    AllClear answers propose 0 (w.begin now propose) (topCandidates (w.begin now propose).advisor)

/-! ## Column lists -/

theorem comma_not_mem {name : String} (h : isIdentifier name = true) : ',' ∉ name.toList := by
  intro hmem
  unfold isIdentifier at h
  cases hname : name.toList with
  | nil =>
    rw [hname] at hmem
    cases hmem
  | cons c cs =>
    rw [hname] at h hmem
    obtain ⟨hstart, hrest⟩ := Bool.and_eq_true_iff.1 h
    obtain rfl | hmem := List.mem_cons.1 hmem
    · exact absurd hstart (by decide)
    · exact absurd (List.all_eq_true.1 hrest _ hmem) (by decide)

/-- The columns of an index are read from its signature. -/
theorem splitCommas_joinCommas {cols : List String} (hne : cols ≠ [])
    (hnames : ∀ c ∈ cols, isIdentifier c = true) : splitCommas (joinCommas cols) = cols := by
  have hcomma : ",".toList = [','] := by decide
  unfold splitCommas joinCommas
  rw [String.toList_intercalate, hcomma, List.splitOn_intercalate ',', List.map_map]
  · have hid : String.ofList ∘ String.toList = id := by
      funext c
      simp
    rw [hid, List.map_id]
  · intro l hl
    obtain ⟨c, hc, rfl⟩ := List.mem_map.1 hl
    exact comma_not_mem (hnames c hc)
  · simpa using hne

/-- Names are themselves when they are sanitized. -/
theorem eq_of_sanitized {names cols : List String} {context : String}
    (h : names.mapM (sanitizeIdentifier · context) = .ok cols) :
    cols = names ∧ ∀ c ∈ names, isIdentifier c = true := by
  induction names generalizing cols with
  | nil =>
    cases h
    exact ⟨rfl, fun c hc => absurd hc List.not_mem_nil⟩
  | cons name names ih =>
    rw [List.mapM_cons] at h
    obtain ⟨first, hfirst, h⟩ := exists_of_bind_eq_ok h
    obtain ⟨rest, hrest, h⟩ := exists_of_bind_eq_ok h
    cases h
    obtain ⟨hname, rfl⟩ := sanitizeIdentifier_eq_ok hfirst
    obtain ⟨rfl, hnames⟩ := ih hrest
    exact ⟨rfl, List.forall_mem_cons.2 ⟨hname, hnames⟩⟩

/-! ## What one candidate does -/

section
variable {answers : Answers} {propose : Bool} {w w' : World} {c : Candidate} {table : String}
  {columns cols : List String} {ix : TableIndex} {e : AutoIndexEntry} {signature : String}

/-- What `tuneOne` does: nothing, an entry of the journal, or an index that is remembered and listed. -/
theorem tuneOne_cases (h : tuneOne answers propose w table columns = .ok w') :
    w' = w ∨ ∃ cols e, Selected answers w table columns cols ∧ e.table = table ∧ e.columns = cols ∧
      ((propose = true ∧ w' = w.log e) ∨
        (propose = false ∧ answers.creates (indexFor table cols) = true ∧
          w' = ((w.createIndex (indexFor table cols)).remember table (joinCommas cols)).log e)) := by
  unfold tuneOne at h
  obtain ⟨cols, hcols, h⟩ := exists_of_bind_eq_ok h
  obtain ⟨rfl, hnames⟩ := eq_of_sanitized hcols
  split at h
  · cases h
    exact .inl rfl
  next hmany =>
  obtain ⟨safeTable, htable, hdone⟩ := exists_of_bind_eq_ok h
  obtain rfl := (sanitizeIdentifier_eq_ok htable).2
  clear h
  dsimp only at hdone
  split at hdone
  · cases hdone
    exact .inl rfl
  next hroom =>
  split at hdone
  · cases hdone
    exact .inl rfl
  next hscans =>
  have hselected : Selected answers w safeTable columns (columns.take maxColumnsPerIndex) := by
    refine ⟨rfl, hnames, not_lt.1 hmany, fun signatures hsome => ?_, by simpa using hscans⟩
    rw [hsome, Option.any_some, Bool.or_eq_true, not_or, decide_eq_true_eq, decide_eq_true_eq,
      not_le] at hroom
    exact hroom
  refine .inr ⟨_, ⟨safeTable, columns.take maxColumnsPerIndex,
    joinCommas (columns.take maxColumnsPerIndex), answers.clock safeTable⟩, hselected, rfl, rfl, ?_⟩
  split at hdone
  · next hpropose =>
    cases hdone
    exact .inl ⟨hpropose, rfl⟩
  next hpropose =>
  split at hdone
  · cases hdone
  next hcreates =>
  cases hdone
  exact .inr ⟨Bool.eq_false_iff.2 hpropose, by simpa using hcreates, rfl⟩

/-! ## The invariant -/

/-- The number of signatures that `created` has for a table. -/
def World.remembered (w : World) (table : String) : ℕ :=
  ((w.advisor.created.get? table).getD .empty).size

/-- What every call keeps in every run: no table has more signatures than its budget, nor more indexes
than signatures. -/
structure Budgeted (w : World) : Prop where
  size : ∀ table, w.remembered table ≤ maxAutoIndexesPerCollection
  made : ∀ table, (w.made.filter (·.table = table)).length ≤ w.remembered table

theorem Budgeted.log (h : Budgeted w) : Budgeted (w.log e) := ⟨h.size, h.made⟩

theorem size_add {s : JsSet String} {k : String} (h : k ∉ s) : (s.add k).size = s.size + 1 := by
  have hnot : k ∉ s.elems := h
  unfold JsSet.add JsSet.size
  rw [dif_neg hnot, List.length_append]
  rfl

theorem createIndex_made (w : World) (ix : TableIndex) :
    (w.createIndex ix).made = w.made ∨ (w.createIndex ix).made = w.made ++ [ix] := by
  unfold World.createIndex
  split
  · exact .inl rfl
  · exact .inr rfl

@[simp] theorem createIndex_advisor (w : World) (ix : TableIndex) :
    (w.createIndex ix).advisor = w.advisor := by
  unfold World.createIndex
  split <;> rfl

@[simp] theorem createIndex_declared (w : World) (ix : TableIndex) :
    (w.createIndex ix).declared = w.declared := by
  unfold World.createIndex
  split <;> rfl

theorem remembered_remember (w : World) (table signature t : String)
    (h : signature ∉ (w.advisor.created.get? table).getD .empty) :
    (w.remember table signature).remembered t =
      if t = table then w.remembered table + 1 else w.remembered t := by
  unfold World.remembered World.remember
  rw [JsMap.get?_set]
  split
  · exact size_add h
  · rfl

/-- A selected candidate is new, and the table has room for it. -/
theorem Selected.fresh (h : Selected answers w table columns cols) :
    joinCommas cols ∉ (w.advisor.created.get? table).getD .empty ∧
      w.remembered table < maxAutoIndexesPerCollection := by
  unfold World.remembered
  cases hsome : w.advisor.created.get? table with
  | none => exact ⟨JsSet.not_mem_empty _, by decide⟩
  | some signatures => exact h.room signatures hsome

theorem Budgeted.tuneOne (h : Budgeted w)
    (hw : tuneOne answers propose w table columns = .ok w') : Budgeted w' := by
  obtain rfl | ⟨cols, e, hselected, -, -, ⟨-, rfl⟩ | ⟨-, -, rfl⟩⟩ := tuneOne_cases hw
  · exact h
  · exact h.log
  refine Budgeted.log ?_
  obtain ⟨hfresh, hroom⟩ := hselected.fresh
  have hremembered (t : String) : ((w.createIndex (indexFor table cols)).remember table
      (joinCommas cols)).remembered t =
      if t = table then w.remembered table + 1 else w.remembered t := by
    rw [remembered_remember]
    · unfold World.remembered
      rw [createIndex_advisor]
    · rwa [createIndex_advisor]
  constructor
  · intro t
    rw [hremembered]
    split
    · exact hroom
    · exact h.size t
  · intro t
    have hold := h.made t
    rw [hremembered]
    have hmade : ((w.createIndex (indexFor table cols)).made.filter (·.table = t)).length ≤
        (w.made.filter (·.table = t)).length + if t = table then 1 else 0 := by
      obtain hsame | hmore := createIndex_made w (indexFor table cols)
      · rw [hsame]
        exact Nat.le_add_right _ _
      · rw [hmore, List.filter_append, List.length_append]
        refine Nat.add_le_add_left ?_ _
        split
        · exact List.length_filter_le _ _
        · next hne =>
          have hother : decide ((indexFor table cols).table = t) = false :=
            decide_eq_false (Ne.symm hne)
          rw [List.filter_singleton, hother]
          exact Nat.zero_le _
    refine hmade.trans ?_
    split
    · next heq =>
      subst heq
      exact Nat.add_le_add_right hold 1
    · exact hold

theorem recorded_remember (hne : cols ≠ []) (hnames : ∀ c ∈ cols, isIdentifier c = true) {t : String}
    {recorded : List String} (h : Recorded (w.remember table (joinCommas cols)) t recorded) :
    Recorded w t recorded ∨ (t = table ∧ recorded = cols) := by
  obtain ⟨signatures, hsome, signature, hmem, rfl⟩ := h
  unfold World.remember at hsome
  rw [JsMap.get?_set] at hsome
  split at hsome
  · next heq =>
    subst heq
    obtain rfl := Option.some.inj hsome
    obtain rfl | hmem := JsSet.mem_add.1 hmem
    · exact .inr ⟨rfl, splitCommas_joinCommas hne hnames⟩
    · cases hold : w.advisor.created.get? t with
      | none =>
        rw [hold] at hmem
        exact absurd hmem (JsSet.not_mem_empty _)
      | some old =>
        rw [hold] at hmem
        exact .inl ⟨old, hold, signature, hmem, rfl⟩
  · exact .inl ⟨signatures, hsome, signature, hmem, rfl⟩

theorem mem_indexes_createIndex {other : TableIndex} (h : other ∈ w.indexes) :
    other ∈ (w.createIndex ix).indexes := by
  unfold World.createIndex
  split
  · exact h
  · exact List.mem_append.2 ((List.mem_append.1 h).imp_right fun h => List.mem_append_left _ h)

theorem Exists.createIndex (h : Exists w table cols) : Exists (w.createIndex ix) table cols := by
  obtain ⟨other, hother, heq⟩ := h
  exact ⟨other, mem_indexes_createIndex hother, heq⟩

/-- The statement of an index makes sure of it where its name is free. -/
theorem exists_createIndex (h : NameFree w table cols) :
    Exists (w.createIndex (indexFor table cols)) table cols := by
  by_cases htaken : ∃ ix ∈ w.indexes, sameName ix.name (indexFor table cols).name = true
  · exact (h htaken).createIndex
  · have hany : ¬(w.indexes.any fun ix => sameName ix.name (indexFor table cols).name) = true := by
      rwa [List.any_eq_true]
    unfold World.createIndex
    rw [if_neg hany]
    refine ⟨indexFor table cols, ?_, rfl, rfl⟩
    exact List.mem_append_right _ (List.mem_append_right _ (List.mem_singleton_self _))

theorem nodup_log (h : (w.advisor.journal.map fun e => (e.table, e.columns)).Nodup)
    (hnew : Unlisted w e.table e.columns) :
    ((w.log e).advisor.journal.map fun e => (e.table, e.columns)).Nodup := by
  have hjournal : (w.log e).advisor.journal = w.advisor.journal ++ [e] := rfl
  rw [hjournal, List.map_append]
  refine h.append (List.nodup_singleton _) fun pair hpair hlast => ?_
  obtain ⟨old, hold, rfl⟩ := List.mem_map.1 hpair
  exact hnew old hold (List.mem_singleton.1 hlast)

theorem Sound.tuneOne (h : Sound w) (hbudget : Budgeted w) (hclear : Clear answers propose w c)
    (hw : tuneOne answers propose w c.table c.columns = .ok w') : Sound w' := by
  have hbudget' := hbudget.tuneOne hw
  obtain ⟨table, columns, count⟩ := c
  obtain rfl | ⟨cols, e, hselected, htable, hcols, hdone⟩ := tuneOne_cases hw
  · exact h
  obtain ⟨hproposed, hmade⟩ := hclear cols hselected
  rw [← htable, ← hcols] at hproposed hmade
  obtain ⟨hpropose, rfl⟩ | ⟨hpropose, hcreates, rfl⟩ := hdone
  · exact ⟨h.budget, h.existing, h.additional, nodup_log h.journal (hproposed hpropose)⟩
  subst htable hcols
  obtain ⟨hunlisted, hdeclared, hfree⟩ := hmade hpropose hcreates
  have hne : e.columns ≠ [] := List.ne_nil_of_length_pos (Nat.lt_of_lt_of_le (by decide) hselected.many)
  have hrecorded (t : String) (recorded : List String)
      (hr : Recorded ((w.createIndex (indexFor e.table e.columns)).remember e.table
        (joinCommas e.columns)) t recorded) :
      Recorded w t recorded ∨ (t = e.table ∧ recorded = e.columns) := by
    refine (recorded_remember hne hselected.names hr).imp_left fun hold => ?_
    unfold Recorded at hold
    rwa [createIndex_advisor] at hold
  have hdeclared' : ((w.createIndex (indexFor e.table e.columns)).remember e.table
      (joinCommas e.columns)).declared = w.declared :=
    createIndex_declared w (indexFor e.table e.columns)
  have hjournal : ((w.createIndex (indexFor e.table e.columns)).remember e.table
      (joinCommas e.columns)).advisor.journal = w.advisor.journal := by
    show (w.createIndex (indexFor e.table e.columns)).advisor.journal = w.advisor.journal
    rw [createIndex_advisor]
  refine ⟨fun t => (hbudget'.made t).trans (hbudget'.size t), fun t recorded hr => ?_,
    fun t recorded hr hdecl => ?_, nodup_log ?_ fun old hold => ?_⟩
  · obtain hold | ⟨rfl, rfl⟩ := hrecorded t recorded hr
    · exact (h.existing t recorded hold).createIndex
    · exact exists_createIndex hfree
  · have hdecl : (t, recorded) ∈ w.declared := hdeclared' ▸ hdecl
    obtain hold | ⟨rfl, rfl⟩ := hrecorded t recorded hr
    · exact h.additional t recorded hold hdecl
    · exact hdeclared hdecl
  · rw [hjournal]
    exact h.journal
  · rw [hjournal] at hold
    exact hunlisted old hold

/-! ## Passes and runs -/

/-- The invariant of a run. -/
def Kept (w : World) : Prop := Budgeted w ∧ Sound w

theorem Kept.tried (h : Kept w) (hclear : Clear answers propose w c) :
    Kept (tried answers propose w c) := by
  unfold AutoIndexer.tried
  split
  · next w' hw => exact ⟨h.1.tuneOne hw, h.2.tuneOne h.1 hclear hw⟩
  · exact h

theorem Kept.probeAll {probes : ℕ} {cs : List Candidate} (h : Kept w)
    (hclear : AllClear answers propose probes w cs) : Kept (probeAll answers propose probes w cs) := by
  induction cs generalizing probes w with
  | nil => exact h
  | cons c cs ih =>
    unfold AllClear at hclear
    unfold AutoIndexer.probeAll
    split
    · next hmissing =>
      rw [if_pos hmissing] at hclear
      exact ih h hclear
    next hpresent =>
    rw [if_neg hpresent] at hclear
    split
    · exact h
    · next hprobes =>
      rw [if_neg hprobes] at hclear
      exact ih (h.tried hclear.1) hclear.2

/-- The time and the mode of a pass are no part of the invariant. -/
theorem Kept.begin (h : Kept w) (now : ℤ) (propose : Bool) : Kept (w.begin now propose) :=
  ⟨⟨h.1.size, h.1.made⟩, ⟨h.2.budget, h.2.existing, h.2.additional, h.2.journal⟩⟩

/-- A recording call changes only the ledger and the prototypes. -/
theorem record_frame (s : Advisor) (table : String) (sig : FilterSignature)
    (declared : List (List String)) : (record s table sig declared).created = s.created ∧
      (record s table sig declared).journal = s.journal := by
  unfold record
  split
  · exact ⟨rfl, rfl⟩
  dsimp only
  split
  · exact ⟨rfl, rfl⟩
  split
  · exact ⟨rfl, rfl⟩
  · exact ⟨rfl, rfl⟩

theorem Kept.call (h : Kept w) {call : Call} (hmeets : Meets w call) : Kept (w.call call) := by
  cases call with
  | tune now propose answers =>
    show Kept (AutoIndexer.tune answers now propose w)
    unfold AutoIndexer.tune
    split
    · exact h
    · next hdue => exact (h.begin now propose).probeAll (hmeets (not_lt.1 hdue))
  | record table sig declared =>
    obtain ⟨hcreated, hjournal⟩ := record_frame w.advisor table sig declared
    have hrecorded (t : String) (cols : List String) :
        Recorded (w.call (.record table sig declared)) t cols ↔ Recorded w t cols := by
      unfold Recorded World.call
      rw [hcreated]
    refine ⟨⟨fun t => ?_, fun t => ?_⟩, h.2.budget, fun t cols hr => ?_, fun t cols hr hdecl => ?_, ?_⟩
    · unfold World.remembered World.call
      rw [hcreated]
      exact h.1.size t
    · unfold World.remembered World.call
      rw [hcreated]
      exact h.1.made t
    · exact h.2.existing t cols ((hrecorded t cols).1 hr)
    · obtain hold | hnew := List.mem_append.1 hdecl
      · exact h.2.additional t cols ((hrecorded t cols).1 hr) hold
      · obtain ⟨cols', hcols', heq⟩ := List.mem_map.1 hnew
        obtain ⟨rfl, rfl⟩ := Prod.mk.inj heq
        exact hmeets cols' hcols' ((hrecorded table cols').1 hr)
    · unfold World.call
      rw [hjournal]
      exact h.2.journal

theorem Kept.init (h : system.init w) : Kept w := by
  obtain ⟨hadvisor, hmade, hdeclared⟩ := h
  have hremembered (t : String) : w.remembered t = 0 := by
    unfold World.remembered
    rw [hadvisor]
    rfl
  have hnone (t : String) (cols : List String) : ¬Recorded w t cols := by
    rintro ⟨signatures, hsome, -⟩
    rw [hadvisor] at hsome
    cases hsome
  refine ⟨⟨fun t => ?_, fun t => ?_⟩, fun t => ?_, fun t cols hr => absurd hr (hnone t cols),
    fun t cols hr => absurd hr (hnone t cols), ?_⟩
  · rw [hremembered]
    exact Nat.zero_le _
  · rw [hmade]
    exact Nat.zero_le _
  · rw [hmade]
    exact Nat.zero_le _
  · rw [hadvisor]
    exact List.nodup_nil

end

/-- Every plan scans its table, and every statement runs. -/
def scanning : Answers := ⟨fun _ => true, fun _ _ => true, fun _ => true, fun _ => 0⟩

/-- A list of the invoices of a customer in a city. -/
def listBilled : Call := .record "invoices" ⟨["bill_to", "city"], ""⟩ []

theorem reach_listBilled (n : ℕ) :
    system.Reach Meets ((World.call · listBilled)^[n] {}) ∧
      ((World.call · listBilled)^[n] {}).advisor.journal = [] ∧
      ((World.call · listBilled)^[n] {}).declared = [] ∧
      ((World.call · listBilled)^[n] {}).indexes = [] := by
  induction n with
  | zero => exact ⟨.init ⟨rfl, rfl, rfl⟩, rfl, rfl, rfl⟩
  | succ n ih =>
    obtain ⟨hreach, hjournal, hdeclared, hindexes⟩ := ih
    rw [Function.iterate_succ_apply']
    refine ⟨hreach.step (fun cols hcols => absurd hcols List.not_mem_nil) rfl, ?_, ?_, hindexes⟩
    · exact (record_frame _ _ _ _).2.trans hjournal
    · exact (List.append_nil _).trans hdeclared

/-- Two shapes whose columns are joined to one name, each observed before a pass. -/
def collidingCalls : List Call :=
  List.replicate 5 listBilled ++ [.tune 60000 false scanning] ++
    List.replicate 6 (.record "invoices" ⟨["bill", "to_city"], ""⟩ []) ++ [.tune 120000 false scanning]

end HeadlessErp.AutoIndexer
