import HeadlessErp.Authz.Version

/-!
# Fresh decisions

In a run of fresh events, a decision that begins more than the window of the version after a write
uses a value of the tables as they were at that write or later. A write that leaves the version as
it was, or brings an old one back, is not seen by the isolates that have cached a decision under it.
-/

namespace HeadlessErp

section
variable {N : Type} {log : List (LogEntry (AuthzTables N))} {next : AuthzTables N}
  {v v₀ : String} {time time' now : Nat}

/-! ## Versions -/

/-- The version of a state that is no older than the writes before a time. -/
def VersionSince (log : List (LogEntry (AuthzTables N))) (v : String) (time : Nat) : Prop :=
  ∃ x ∈ log, authzStamp x.state = v ∧ ∀ w ∈ log, w.time < time → w.seq ≤ x.seq

/-- A version of a state, and one of a state that is no older. -/
def NoOlder (log : List (LogEntry (AuthzTables N))) (v₀ v : String) : Prop :=
  ∃ x₀ ∈ log, ∃ x ∈ log, authzStamp x₀.state = v₀ ∧ authzStamp x.state = v ∧ x₀.seq ≤ x.seq

theorem VersionSince.mono (h : VersionSince log v time) (hle : time' ≤ time) :
    VersionSince log v time' := by
  obtain ⟨x, hx, hv, hsince⟩ := h
  exact ⟨x, hx, hv, fun w hw hlt => hsince w hw (Nat.lt_of_lt_of_le hlt hle)⟩

theorem VersionSince.push (h : VersionSince log v time) (hle : time ≤ now) :
    VersionSince (pushState log now next) v time := by
  obtain ⟨x, hx, hv, hsince⟩ := h
  refine ⟨x, List.mem_cons_of_mem _ hx, hv, fun w hw hlt => ?_⟩
  rcases List.mem_cons.1 hw with rfl | hw
  · exact absurd hlt (Nat.not_lt_of_le hle)
  · exact hsince w hw hlt

theorem NoOlder.push (h : NoOlder log v₀ v) : NoOlder (pushState log now next) v₀ v := by
  obtain ⟨x₀, hx₀, x, hx, hrest⟩ := h
  exact ⟨x₀, List.mem_cons_of_mem _ hx₀, x, List.mem_cons_of_mem _ hx, hrest⟩

theorem VersionSince.noOlder_self (h : VersionSince log v time) : NoOlder log v v := by
  obtain ⟨x, hx, hv, -⟩ := h
  exact ⟨x, hx, x, hx, hv, hv, Nat.le_refl _⟩

/-- An entry that has not expired was stored no longer ago than its time to live. -/
theorem freshValue_eq_some {α : Type} {cached : Option (α × Nat)} {ttl : Nat} {value : α}
    (h : freshValue cached ttl now = some value) :
    ∃ stored, cached = some (value, stored) ∧ now - stored ≤ ttl := by
  unfold freshValue at h
  split at h
  case h_1 value' stored =>
    split at h
    · rename_i hage
      cases h
      exact ⟨stored, rfl, hage⟩
    · cases h
  · cases h

end

section
variable {N : Type} [JsNumber N] {log : List (LogEntry (AuthzTables N))}
  {tables next : AuthzTables N} {v v₀ : String} {time now : Nat} {entry : AuthzEntry}
  {value : AuthzValue N}

/-- A value that was read after a version. -/
abbrev ReadSince (log : List (LogEntry (AuthzTables N))) (v : String) (entry : AuthzEntry)
    (value : AuthzValue N) : Prop := ReadAfter authzStamp authzValue log v entry value

/-- The current version is no older than any other. -/
theorem versionSince_current (hlog : StampedLog authzStamp authzValue log tables) :
    VersionSince log (authzStamp tables) time := by
  obtain ⟨e, he, hcurrent, hlast⟩ := hlog.last
  exact ⟨e, he, by rw [hcurrent], fun w hw _ => hlast w hw⟩

theorem noOlder_current (hlog : StampedLog authzStamp authzValue log tables)
    (h : VersionSince log v₀ time) : NoOlder log v₀ (authzStamp tables) := by
  obtain ⟨x₀, hx₀, hv₀, -⟩ := h
  obtain ⟨e, he, hcurrent, hlast⟩ := hlog.last
  exact ⟨x₀, hx₀, e, he, hv₀, by rw [hcurrent], hlast x₀ hx₀⟩

/-! ## Decisions -/

/-- The value of a decision is that of the tables at each write before its window, or later. -/
def DecisionFresh (log : List (LogEntry (AuthzTables N))) (d : AuthzDecision N) : Prop :=
  ∀ w ∈ log, w.time + versionTtlMs < d.start →
    ∃ b ∈ log, w.seq ≤ b.seq ∧ d.value = authzValue b.state d.entry

theorem decisionFresh_of_read {start : Nat} (hlog : StampedLog authzStamp authzValue log tables)
    (hv : VersionSince log v (start - versionTtlMs)) (hread : ReadSince log v entry value) :
    DecisionFresh log ⟨start, entry, value⟩ := by
  intro w hw hlt
  obtain ⟨x, hx, hstamp, hsince⟩ := hv
  obtain ⟨b, hb, hle, hvalue⟩ := hread.serve hlog hx hstamp
  have hlt' : w.time + versionTtlMs < start := hlt
  exact ⟨b, hb, Nat.le_trans (hsince w hw (by omega)) hle, hvalue⟩

/-- An entry without an id has the same value in all tables. -/
theorem emptyValue_eq (h : entry.isEmpty = true) (tables : AuthzTables N) :
    emptyValue entry = authzValue tables entry := by
  cases entry with
  | user id | role id =>
    have hid : id = "" := by simpa [AuthzEntry.isEmpty] using h
    simp [emptyValue, authzValue, hid]
  | row id slug =>
    have hid : id = "" := by simpa [AuthzEntry.isEmpty] using h
    simp [emptyValue, authzValue, permissionRow, hid]
  | derived id slug use =>
    cases use with
    | action => cases h
    | fields | rowFilter =>
      have hid : id = "" := by simpa [AuthzEntry.isEmpty] using h
      simp [emptyValue, authzValue, permissionRow, hid]

theorem decisionFresh_empty {start : Nat} (h : entry.isEmpty = true) :
    DecisionFresh log ⟨start, entry, emptyValue entry⟩ :=
  fun w hw _ => ⟨w, hw, Nat.le_refl _, emptyValue_eq h w.state⟩

theorem DecisionFresh.push {d : AuthzDecision N} (h : DecisionFresh log d) (hle : d.start ≤ now) :
    DecisionFresh (pushState log now next) d := by
  intro w hw hlt
  rcases List.mem_cons.1 hw with rfl | hw
  · have hlt' : now + versionTtlMs < d.start := hlt
    omega
  · obtain ⟨b, hb, hrest⟩ := h w hw hlt
    exact ⟨b, List.mem_cons_of_mem _ hb, hrest⟩

/-- What a decision takes from the value of a row. -/
def takeFrom (use : PermUse) : AuthzValue N → AuthzValue N
  | .record row => derive use row
  | value => value

/-- What a decision takes from a row, cached under the version of the decision. -/
theorem readSince_derived {roleId slug : String} {use : PermUse} {row : Option (Record N)}
    (hlog : StampedLog authzStamp authzValue log tables) (horder : NoOlder log v₀ v)
    (hread : ReadSince log v (.row roleId slug) (.record row)) :
    ReadSince log v₀ (.derived roleId slug use) (derive use row) := by
  obtain ⟨x₀, hx₀, x, hx, hv₀, hv, hle⟩ := horder
  have hold : ReadSince log v₀ (.row roleId slug) (.record row) :=
    hread.older hlog hx₀ hx hv₀ hv hle
  have htake : ∀ tables : AuthzTables N, authzValue tables (.derived roleId slug use) =
      takeFrom use (authzValue tables (.row roleId slug)) := fun _ => rfl
  exact hold.map htake

/-! ## The invariant -/

/-- A version that a decision keeps: it is of the window of the decision, and no newer than the one
that its isolate holds. -/
def KeptVersion (log : List (LogEntry (AuthzTables N))) (held : Option (String × Nat)) (start : Nat)
    (v : String) : Prop :=
  VersionSince log v (start - versionTtlMs) ∧
    ∀ v' stored, held = some (v', stored) → NoOlder log v v'

/-- What a decision carries from one await to the next. -/
def AuthzPhase.Sound (log : List (LogEntry (AuthzTables N))) (held : Option (String × Nat))
    (clock : Nat) : AuthzPhase N → Prop
  | .idle => True
  | .versionAsked start _ outer | .versionRead start _ outer _ =>
    start ≤ clock ∧ ∀ use v₀, outer = some (use, v₀) → KeptVersion log held start v₀
  | .rowAsked start _ outer v =>
    start ≤ clock ∧ KeptVersion log held start v ∧
      ∀ use v₀, outer = some (use, v₀) → KeptVersion log held start v₀ ∧ NoOlder log v₀ v
  | .rowRead start entry outer v value =>
    start ≤ clock ∧ KeptVersion log held start v ∧
      (∀ use v₀, outer = some (use, v₀) → KeptVersion log held start v₀ ∧ NoOlder log v₀ v) ∧
      ReadSince log v entry value
  | .decided start version =>
    start ≤ clock ∧ ∀ v, version = some v → KeptVersion log held start v

/-- A change of the log, the version and the clock that keeps versions and values keeps a phase. -/
theorem AuthzPhase.Sound.imp {log' : List (LogEntry (AuthzTables N))}
    {held held' : Option (String × Nat)} {clock clock' : Nat} {phase : AuthzPhase N}
    (h : phase.Sound log held clock) (hclock : clock ≤ clock')
    (hkept : ∀ start v, start ≤ clock → KeptVersion log held start v →
      KeptVersion log' held' start v)
    (horder : ∀ v₀ v, NoOlder log v₀ v → NoOlder log' v₀ v)
    (hread : ∀ v entry value, ReadSince log v entry value → ReadSince log' v entry value) :
    phase.Sound log' held' clock' := by
  cases phase with
  | idle => trivial
  | versionAsked | versionRead =>
    obtain ⟨hstart, houter⟩ := h
    exact ⟨Nat.le_trans hstart hclock, fun use v₀ heq => hkept _ v₀ hstart (houter use v₀ heq)⟩
  | rowAsked =>
    obtain ⟨hstart, hv, houter⟩ := h
    refine ⟨Nat.le_trans hstart hclock, hkept _ _ hstart hv, fun use v₀ heq => ?_⟩
    obtain ⟨hv₀, hle⟩ := houter use v₀ heq
    exact ⟨hkept _ v₀ hstart hv₀, horder _ _ hle⟩
  | rowRead =>
    obtain ⟨hstart, hv, houter, hvalue⟩ := h
    refine ⟨Nat.le_trans hstart hclock, hkept _ _ hstart hv, fun use v₀ heq => ?_,
      hread _ _ _ hvalue⟩
    obtain ⟨hv₀, hle⟩ := houter use v₀ heq
    exact ⟨hkept _ v₀ hstart hv₀, horder _ _ hle⟩
  | decided =>
    obtain ⟨hstart, hversion⟩ := h
    exact ⟨Nat.le_trans hstart hclock, fun v heq => hkept _ v hstart (hversion v heq)⟩

end

section
variable {ι τ N : Type} [JsNumber N] [DecidableEq ι] [DecidableEq τ] {isolate : τ → ι}
  {s s' : AuthzState ι τ N} {t : τ} {i : ι} {start now : Nat} {entry : AuthzEntry}
  {outer : Option (PermUse × String)} {v : String} {value : AuthzValue N}

/-- The invariant of a run of fresh events. -/
structure AuthzSound (isolate : τ → ι) (s : AuthzState ι τ N) : Prop where
  log : StampedLog authzStamp authzValue s.log s.tables
  version : ∀ i v stored, s.version i = some (v, stored) →
    stored ≤ s.clock ∧ VersionSince s.log v stored
  cached : ∀ i entry v value stored, s.cached i entry v = some (value, stored) →
    ReadSince s.log v entry value
  phase : ∀ t, (s.phase t).Sound s.log (s.version (isolate t)) s.clock
  decisions : ∀ d ∈ s.decisions, d.start ≤ s.clock ∧ DecisionFresh s.log d

omit [DecidableEq ι] [DecidableEq τ] in
/-- A version that is fresh now is of the window of a decision that began by now. -/
theorem AuthzSound.keptVersion (h : AuthzSound isolate s)
    (hfresh : freshValue (s.version i) versionTtlMs now = some v) (hstart : start ≤ now) :
    KeptVersion s.log (s.version i) start v := by
  obtain ⟨stored, hheld, hage⟩ := freshValue_eq_some hfresh
  obtain ⟨-, hv⟩ := h.version i v stored hheld
  refine ⟨hv.mono (by omega), fun v' stored' hheld' => ?_⟩
  rw [hheld] at hheld'
  cases hheld'
  exact hv.noOlder_self

omit [DecidableEq ι] [DecidableEq τ] in
/-- A value that is fresh now was read after its version. -/
theorem AuthzSound.readSince (h : AuthzSound isolate s)
    (hfresh : freshValue (s.cached i entry v) (entryTtl entry) now = some value) :
    ReadSince s.log v entry value := by
  obtain ⟨stored, hcached, -⟩ := freshValue_eq_some hfresh
  exact h.cached i entry v value stored hcached

omit [DecidableEq ι] in
theorem AuthzSound.goto {phase : AuthzPhase N} (h : AuthzSound isolate s)
    (hphase : phase.Sound s.log (s.version (isolate t)) s.clock) :
    AuthzSound isolate (s.goto t phase) := by
  refine ⟨h.log, h.version, h.cached, fun t' => ?_, h.decisions⟩
  show AuthzPhase.Sound s.log _ s.clock (Function.update s.phase t phase t')
  rcases eq_or_ne t' t with rfl | hne
  · rw [Function.update_self]
    exact hphase
  · rw [Function.update_of_ne hne]
    exact h.phase t'

omit [DecidableEq τ] in
theorem AuthzSound.store (h : AuthzSound isolate s) (hread : ReadSince s.log v entry value) :
    AuthzSound isolate (s.store i entry v value now) := by
  refine ⟨h.log, h.version, fun i' entry' v' value' stored hcached => ?_, h.phase, h.decisions⟩
  rcases AuthzState.cached_store hcached with ⟨rfl, rfl, rfl, hheld⟩ | hcached
  · cases hheld
    exact hread
  · exact h.cached _ _ _ _ _ hcached

omit [DecidableEq ι] in
theorem AuthzSound.decide {version : Option String} (h : AuthzSound isolate s)
    (hstart : start ≤ s.clock)
    (hversion : ∀ v, version = some v → KeptVersion s.log (s.version (isolate t)) start v)
    (hfresh : DecisionFresh s.log ⟨start, entry, value⟩) :
    AuthzSound isolate (s.decide t start entry version value) := by
  have hgoto : AuthzSound isolate (s.goto t (.decided start version)) :=
    h.goto ⟨hstart, hversion⟩
  refine ⟨hgoto.log, hgoto.version, hgoto.cached, hgoto.phase, fun d hd => ?_⟩
  rcases List.mem_cons.1 hd with rfl | hd
  · exact ⟨hstart, hfresh⟩
  · exact h.decisions d hd

/-- A decision that finds its value: an outer one caches what it takes from the row. -/
theorem AuthzSound.complete {version : Option String} (h : AuthzSound isolate s)
    (hstart : start ≤ s.clock)
    (hversion : ∀ v, version = some v → KeptVersion s.log (s.version (isolate t)) start v)
    (hfresh : DecisionFresh s.log ⟨start, entry, value⟩)
    (houter : ∀ use v₀ roleId slug row, outer = some (use, v₀) → entry = .row roleId slug →
      value = .record row → KeptVersion s.log (s.version (isolate t)) start v₀ ∧
        ReadSince s.log v₀ (.derived roleId slug use) (derive use row)) :
    AuthzSound isolate (s.complete isolate t start entry outer version value now) := by
  unfold AuthzState.complete
  split
  case h_1 use v₀ roleId slug row =>
    obtain ⟨hkept, hread⟩ := houter use v₀ roleId slug row rfl rfl rfl
    refine (h.store hread).decide hstart (fun v hv => ?_) ?_
    · cases hv
      exact hkept
    · exact decisionFresh_of_read h.log hkept.1 hread
  · exact h.decide hstart hversion hfresh

/-- A value that was read after the version of a decision, which may serve an outer one. -/
theorem AuthzSound.complete_of_read (h : AuthzSound isolate s) (hstart : start ≤ s.clock)
    (hkept : KeptVersion s.log (s.version (isolate t)) start v)
    (houter : ∀ use v₀, outer = some (use, v₀) →
      KeptVersion s.log (s.version (isolate t)) start v₀ ∧ NoOlder s.log v₀ v)
    (hread : ReadSince s.log v entry value) :
    AuthzSound isolate (s.complete isolate t start entry outer (some v) value now) := by
  refine h.complete hstart (fun v' hv' => ?_) (decisionFresh_of_read h.log hkept.1 hread)
    fun use v₀ roleId slug row heq hentry hvalue => ?_
  · cases hv'
    exact hkept
  · obtain ⟨hkept₀, horder⟩ := houter use v₀ heq
    subst hentry hvalue
    exact ⟨hkept₀, readSince_derived h.log horder hread⟩

theorem AuthzSound.lookup (h : AuthzSound isolate s) (hstart : start ≤ s.clock)
    (hkept : KeptVersion s.log (s.version (isolate t)) start v)
    (houter : ∀ use v₀, outer = some (use, v₀) →
      KeptVersion s.log (s.version (isolate t)) start v₀ ∧ NoOlder s.log v₀ v) :
    AuthzSound isolate (s.lookup isolate t start entry outer v now) := by
  unfold AuthzState.lookup
  split
  · rename_i value hvalue
    exact h.complete_of_read hstart hkept houter (h.readSince hvalue)
  · exact h.goto ⟨hstart, hkept, houter⟩

/-- The row of an outer decision, whose version is kept. -/
theorem AuthzSound.permissionRow {roleId slug : String} {use : PermUse} (h : AuthzSound isolate s)
    (hstart : start ≤ s.clock) (hnow : s.clock = now)
    (hkept : KeptVersion s.log (s.version (isolate t)) start v) :
    AuthzSound isolate (s.permissionRow isolate t start roleId slug (use, v) now) := by
  have houter : ∀ use' v₀, some (use, v) = some (use', v₀) →
      KeptVersion s.log (s.version (isolate t)) start v₀ := by
    intro use' v₀ heq
    cases heq
    exact hkept
  unfold AuthzState.permissionRow
  split
  · rename_i hrole
    subst hrole
    have hempty : (AuthzEntry.row "" slug).isEmpty = true := rfl
    refine h.complete hstart (fun _ heq => by cases heq) (decisionFresh_empty hempty)
      fun use' v₀ roleId' slug' row heq hentry hvalue => ⟨houter use' v₀ heq, ?_⟩
    cases hentry
    cases hvalue
    obtain ⟨x, hx, hv, -⟩ := (houter use' v₀ heq).1
    exact h.log.read ⟨x, hx, hv⟩ (.derived "" slug use')
  · split
    · rename_i version hversion
      refine h.lookup hstart (h.keptVersion hversion (hnow ▸ hstart)) fun use' v₀ heq => ?_
      obtain ⟨stored, hheld, -⟩ := freshValue_eq_some hversion
      have hkept₀ := houter use' v₀ heq
      exact ⟨hkept₀, hkept₀.2 version stored hheld⟩
    · exact h.goto ⟨hstart, houter⟩

/-- A decision with its version. -/
theorem AuthzSound.withVersion (h : AuthzSound isolate s) (hstart : start ≤ s.clock)
    (hnow : s.clock = now) (hkept : KeptVersion s.log (s.version (isolate t)) start v)
    (houter : ∀ use v₀, outer = some (use, v₀) →
      KeptVersion s.log (s.version (isolate t)) start v₀ ∧ NoOlder s.log v₀ v) :
    AuthzSound isolate (s.withVersion isolate t start entry outer v now) := by
  unfold AuthzState.withVersion
  split
  · split
    · rename_i value hvalue
      refine h.decide hstart (fun v' hv' => ?_)
        (decisionFresh_of_read h.log hkept.1 (h.readSince hvalue))
      cases hv'
      exact hkept
    · exact h.permissionRow hstart hnow hkept
  · exact h.lookup hstart hkept houter

theorem AuthzSound.begin (h : AuthzSound isolate s) (hnow : s.clock = now) :
    AuthzSound isolate (s.begin isolate t entry now) := by
  have hstart : now ≤ s.clock := Nat.le_of_eq hnow.symm
  unfold AuthzState.begin
  split
  · rename_i hempty
    exact h.decide hstart (fun _ heq => by cases heq) (decisionFresh_empty hempty)
  · split
    · rename_i version hversion
      exact h.withVersion hstart hnow (h.keptVersion hversion (Nat.le_refl _))
        fun _ _ heq => by cases heq
    · exact h.goto ⟨hstart, fun _ _ heq => by cases heq⟩

/-- A decision that follows another one, with the same version. -/
theorem AuthzSound.next (h : AuthzSound isolate s) (hnow : s.clock = now)
    (hphase : s.phase t = .decided start (some v)) :
    AuthzSound isolate (if entry.isEmpty then s.decide t start entry (some v) (emptyValue entry)
      else s.withVersion isolate t start entry none v now) := by
  have hdecided := h.phase t
  rw [hphase] at hdecided
  obtain ⟨hstart, hkept⟩ := hdecided
  split
  · rename_i hempty
    exact h.decide hstart hkept (decisionFresh_empty hempty)
  · exact h.withVersion hstart hnow (hkept v rfl) fun _ _ heq => by cases heq

omit [DecidableEq ι] in
theorem AuthzSound.query (h : AuthzSound isolate s) (hquery : s.query t = some s') :
    AuthzSound isolate s' := by
  unfold AuthzState.query at hquery
  have hphase := h.phase t
  split at hquery
  · rename_i heq
    rw [heq] at hphase
    cases hquery
    exact h.goto hphase
  · rename_i start entry outer version heq
    rw [heq] at hphase
    cases hquery
    obtain ⟨hstart, hkept, houter⟩ := hphase
    obtain ⟨x, hx, hv, -⟩ := hkept.1
    exact h.goto ⟨hstart, hkept, houter, h.log.read ⟨x, hx, hv⟩ entry⟩
  · cases hquery

omit [DecidableEq τ] in
/-- The answer of a query for the version, while this version is current. -/
theorem AuthzSound.newVersion (h : AuthzSound isolate s) (hnow : s.clock = now) :
    AuthzSound isolate { s with
      version := Function.update s.version i (some (authzStamp s.tables, now)) } := by
  refine ⟨h.log, fun i' v stored heq => ?_, h.cached, fun t' => ?_, h.decisions⟩
  · have heq' : Function.update s.version i (some (authzStamp s.tables, now)) i' =
        some (v, stored) := heq
    rcases eq_or_ne i' i with rfl | hne
    · rw [Function.update_self] at heq'
      cases heq'
      exact ⟨Nat.le_of_eq hnow.symm, versionSince_current h.log⟩
    · rw [Function.update_of_ne hne] at heq'
      exact h.version i' v stored heq'
  · show (s.phase t').Sound s.log
      (Function.update s.version i (some (authzStamp s.tables, now)) (isolate t')) s.clock
    rcases eq_or_ne (isolate t') i with rfl | hne
    · rw [Function.update_self]
      refine (h.phase t').imp (Nat.le_refl _) (fun start v _ hkept => ⟨hkept.1, fun v' _ heq => ?_⟩)
        (fun _ _ horder => horder) fun _ _ _ hread => hread
      cases heq
      exact noOlder_current h.log hkept.1
    · rw [Function.update_of_ne hne]
      exact h.phase t'

theorem AuthzSound.answer {failed : Bool} (h : AuthzSound isolate s) (hnow : s.clock = now)
    (hcurrent : ∀ start entry outer version, s.phase t = .versionRead start entry outer version →
      failed = false ∧ version = authzStamp s.tables)
    (hanswer : s.answer isolate t failed now = some s') : AuthzSound isolate s' := by
  unfold AuthzState.answer at hanswer
  have hphase := h.phase t
  split at hanswer
  · rename_i start entry outer version heq
    rw [heq] at hphase
    obtain ⟨rfl, rfl⟩ := hcurrent start entry outer version heq
    obtain ⟨hstart, houter⟩ := hphase
    cases hanswer
    have hnew := h.newVersion (i := isolate t) hnow
    have hkept : ∀ v, VersionSince s.log v (start - versionTtlMs) →
        KeptVersion s.log (Function.update s.version (isolate t)
          (some (authzStamp s.tables, now)) (isolate t)) start v := by
      intro v hv
      refine ⟨hv, fun v' stored heq => ?_⟩
      rw [Function.update_self] at heq
      cases heq
      exact noOlder_current h.log hv
    refine hnew.withVersion hstart hnow (hkept _ (versionSince_current h.log))
      fun use v₀ heq => ⟨hkept v₀ (houter use v₀ heq).1, ?_⟩
    exact noOlder_current h.log (houter use v₀ heq).1
  · rename_i start entry outer version value heq
    rw [heq] at hphase
    obtain ⟨hstart, hkept, houter, hread⟩ := hphase
    split at hanswer
    · cases hanswer
      exact h.goto trivial
    · cases hanswer
      exact (h.store hread).complete_of_read hstart hkept houter hread
  · cases hanswer

omit [DecidableEq ι] [DecidableEq τ] in
/-- A write that gives a version that has not been there, or changes nothing that is read. -/
theorem AuthzSound.write {tables : AuthzTables N} (h : AuthzSound isolate s) (hnow : s.clock = now)
    (hfresh : FreshStamp authzStamp authzValue s.log s.tables tables) :
    AuthzSound isolate { s with tables, log := pushState s.log now tables } := by
  subst hnow
  refine ⟨h.log.push hfresh _, fun i v stored heq => ?_, fun i entry v value stored heq => ?_,
    fun t => ?_, fun d hd => ?_⟩
  · obtain ⟨hle, hv⟩ := h.version i v stored heq
    exact ⟨hle, hv.push hle⟩
  · exact (h.cached i entry v value stored heq).push h.log hfresh
  · refine (h.phase t).imp (Nat.le_refl _) (fun start v hle hkept => ?_)
      (fun _ _ horder => horder.push) fun _ _ _ hread => hread.push h.log hfresh
    exact ⟨hkept.1.push (by omega), fun v' stored heq => (hkept.2 v' stored heq).push⟩
  · obtain ⟨hle, hd⟩ := h.decisions d hd
    exact ⟨hle, hd.push hle⟩

omit [DecidableEq τ] in
theorem AuthzSound.evict {keepVersion : Bool} {keep : AuthzEntry → String → Bool}
    (h : AuthzSound isolate s) : AuthzSound isolate { s with
      version := if keepVersion then s.version else Function.update s.version i none
      cached := Function.update s.cached i fun entry version =>
        if keep entry version then s.cached i entry version else none } := by
  have hversion : ∀ i' held, (if keepVersion then s.version else
      Function.update s.version i none) i' = some held → s.version i' = some held := by
    intro i' held heq
    split at heq
    · exact heq
    · rcases eq_or_ne i' i with rfl | hne
      · rw [Function.update_self] at heq
        cases heq
      · rwa [Function.update_of_ne hne] at heq
  refine ⟨h.log, fun i' v stored heq => h.version i' v stored (hversion i' _ heq),
    fun i' entry v value stored heq => ?_, fun t' => ?_, h.decisions⟩
  · have heq' : Function.update s.cached i (fun entry version =>
        if keep entry version then s.cached i entry version else none) i' entry v =
        some (value, stored) := heq
    rcases eq_or_ne i' i with rfl | hne
    · rw [Function.update_self] at heq'
      split at heq'
      · exact h.cached _ _ _ _ _ heq'
      · cases heq'
    · rw [Function.update_of_ne hne] at heq'
      exact h.cached _ _ _ _ _ heq'
  · exact (h.phase t').imp (Nat.le_refl _)
      (fun start v _ hkept => ⟨hkept.1, fun v' stored heq => hkept.2 v' stored (hversion _ _ heq)⟩)
      (fun _ _ horder => horder) fun _ _ _ hread => hread

omit [DecidableEq ι] [DecidableEq τ] in
theorem AuthzSound.tick {clock : Nat} (h : AuthzSound isolate s) (hle : s.clock ≤ clock) :
    AuthzSound isolate { s with clock } := by
  refine ⟨h.log, fun i v stored heq => ?_, h.cached, fun t => ?_, fun d hd => ?_⟩
  · obtain ⟨hstored, hv⟩ := h.version i v stored heq
    exact ⟨Nat.le_trans hstored hle, hv⟩
  · exact (h.phase t).imp hle (fun _ _ _ hkept => hkept) (fun _ _ horder => horder)
      fun _ _ _ hread => hread
  · obtain ⟨hstart, hd⟩ := h.decisions d hd
    exact ⟨Nat.le_trans hstart hle, hd⟩

omit [DecidableEq ι] [DecidableEq τ] in
theorem authzSound_init (hlog : s.log = pushState [] s.clock s.tables)
    (hversion : ∀ i, s.version i = none) (hcached : ∀ i entry v, s.cached i entry v = none)
    (hphase : ∀ t, s.phase t = .idle) (hdecisions : s.decisions = []) :
    AuthzSound isolate s := by
  refine ⟨?_, fun i v stored heq => ?_, fun i entry v value stored heq => ?_, fun t => ?_,
    fun d hd => ?_⟩
  · rw [hlog]
    exact stampedLog_singleton authzStamp authzValue s.clock s.tables
  · rw [hversion] at heq
    cases heq
  · rw [hcached] at heq
    cases heq
  · rw [hphase]
    trivial
  · rw [hdecisions] at hd
    cases hd

/-- A fresh event keeps the invariant. -/
theorem AuthzSound.event {event : Nat × AuthzEvent ι τ N} (h : AuthzSound isolate s)
    (hfresh : FreshEvent s event)
    (hstep : authzEvent isolate { s with clock := event.1 } event.1 event.2 = some s') :
    AuthzSound isolate s' := by
  obtain ⟨now, event⟩ := event
  obtain ⟨hle, hevent⟩ := hfresh
  have htick : AuthzSound isolate { s with clock := now } := h.tick hle
  cases event with
  | write statements =>
    cases hstep
    exact htick.write rfl hevent
  | evict i keepVersion keep =>
    cases hstep
    exact htick.evict
  | begin t entry =>
    simp only [authzEvent] at hstep
    split at hstep
    · cases hstep
      exact htick.begin rfl
    · cases hstep
      exact htick.begin rfl
    · cases hstep
  | next t entry =>
    simp only [authzEvent] at hstep
    split at hstep
    · rename_i start version hphase
      cases hstep
      exact htick.next rfl hphase
    · cases hstep
  | query t => exact htick.query hstep
  | answer t failed => exact htick.answer rfl hevent hstep

/-- In a run of fresh events, every decision is the decision computed from the tables as they are
after each write that is more than the window of the version before it, or as they are later. -/
theorem fresh_of_reach (h : (authzSystem (N := N) isolate).Reach FreshEvent s) :
    ∀ d ∈ s.decisions, DecisionFresh s.log d := by
  have hsound : AuthzSound isolate s := by
    refine h.invariant (fun s hinit => ?_) fun s event s' hs hfresh hstep => ?_
    · obtain ⟨hlog, hversion, hcached, hphase, hdecisions⟩ := hinit
      exact authzSound_init hlog hversion hcached hphase hdecisions
    · exact hs.event hfresh hstep
  exact fun d hd => (hsound.decisions d hd).2

end

/-! ## Two isolates -/

/-- The tables with the permissions of one role, which may be healed. -/
def grantTables (canRead : Int) (updatedAt : String) : AuthzTables (Option Int)
  | .rolePermissions =>
    [[("id", .str "p1"), ("role_id", .str "r1"), ("collection_slug", .str "orders"),
      ("can_read", .num (some canRead)), ("can_write", .num (some 0)),
      ("can_create", .num (some 0)), ("can_delete", .num (some 0)), ("can_submit", .num (some 0)),
      ("can_approve", .num (some 0)), ("field_restrictions", .null), ("row_filters", .null),
      ("updated_at", .str updatedAt)]]
  | _ => []

/-- The isolates before any decision. -/
def newIsolates : AuthzState Bool Bool (Option Int) where
  tables := grantTables 0 "2024-01-01T00:00:00.000Z"
  log := pushState [] 0 (grantTables 0 "2024-01-01T00:00:00.000Z")
  version _ := none
  cached _ _ _ := none
  phase _ := .idle
  decisions := []
  clock := 0

/-- The role gets the permission to read. -/
def grantRead : AuthzWrite (Option Int) :=
  repositoryUpdate .rolePermissions "p1" [("can_read", .num (some 1))] "2024-01-02T00:00:00.000Z"

/-- Whether the role reads orders. -/
def readOrders : AuthzEntry := .derived "r1" "orders" (.action "read")

/-- A decision of the second isolate, for which nothing is cached. -/
def readOrdersEvents (now : Nat) : List (Nat × AuthzEvent Bool Bool (Option Int)) :=
  [(now, .begin true readOrders), (now, .query true), (now, .answer true false), (now, .query true),
    (now, .answer true false)]

/-- The role may read orders once an administrator has written this. -/
theorem fresh_readOrders : ∃ s : AuthzState Bool Bool (Option Int),
    s.decisions = [⟨6000, readOrders, .allowed true⟩, ⟨0, readOrders, .allowed false⟩] ∧
    ∀ d ∈ s.decisions, DecisionFresh s.log d := by
  have h0 : (authzSystem (id : Bool → Bool)).Reach FreshEvent newIsolates :=
    .init ⟨rfl, fun _ => rfl, fun _ _ _ => rfl, fun _ => rfl, rfl⟩
  have hcurrent : ∀ {s : AuthzState Bool Bool (Option Int)} {start entry outer version},
      s.phase true = .versionRead start entry outer version → version = authzStamp s.tables →
      ∀ start' entry' outer' version', s.phase true = .versionRead start' entry' outer' version' →
        false = false ∧ version' = authzStamp s.tables := by
    intro s start entry outer version hphase hversion start' entry' outer' version' heq
    rw [hphase] at heq
    cases heq
    exact ⟨rfl, hversion⟩
  have hrow : ∀ {s : AuthzState Bool Bool (Option Int)} {start entry outer version value},
      s.phase true = .rowRead start entry outer version value →
      ∀ start' entry' outer' version', s.phase true = .versionRead start' entry' outer' version' →
        false = false ∧ version' = authzStamp s.tables := by
    intro s start entry outer version value hphase start' entry' outer' version' heq
    rw [hphase] at heq
    cases heq
  have h1 := h0.step (a := (0, .begin true readOrders)) ⟨Nat.le_refl _, trivial⟩ rfl
  have h2 := h1.step (a := (0, .query true)) ⟨Nat.le_refl _, trivial⟩ rfl
  have h3 := h2.step (a := (0, .answer true false)) ⟨Nat.le_refl _, hcurrent rfl rfl⟩ rfl
  have h4 := h3.step (a := (0, .query true)) ⟨Nat.le_refl _, trivial⟩ rfl
  have h5 := h4.step (a := (0, .answer true false)) ⟨Nat.le_refl _, hrow rfl⟩ rfl
  have hnew : FreshStamp authzStamp authzValue newIsolates.log newIsolates.tables
      (grantRead.apply newIsolates.tables) := by
    refine .inr fun x hx => ?_
    rw [List.mem_singleton.1 hx]
    decide
  have h6 := h5.step (a := (1000, .write [grantRead])) ⟨Nat.zero_le _, hnew⟩ rfl
  have h7 := h6.step (a := (6000, .begin true readOrders)) ⟨by decide, trivial⟩ rfl
  have h8 := h7.step (a := (6000, .query true)) ⟨Nat.le_refl _, trivial⟩ rfl
  have h9 := h8.step (a := (6000, .answer true false)) ⟨Nat.le_refl _, hcurrent rfl rfl⟩ rfl
  have h10 := h9.step (a := (6000, .query true)) ⟨Nat.le_refl _, trivial⟩ rfl
  have h11 := h10.step (a := (6000, .answer true false)) ⟨Nat.le_refl _, hrow rfl⟩ rfl
  exact ⟨_, rfl, fresh_of_reach h11⟩

/-- A role whose permissions were healed stays without them in the other isolate. -/
theorem not_fresh_healed : ∃ s : AuthzState Bool Bool (Option Int),
    (authzSystem (id : Bool → Bool)).Reachable s ∧ ∃ d ∈ s.decisions, ¬ DecisionFresh s.log d := by
  have hrun : ∃ s : AuthzState Bool Bool (Option Int),
      (authzSystem (id : Bool → Bool)).run newIsolates (readOrdersEvents 0 ++
        [(1000, .write [healPermission "p1"]), (6000, .begin true readOrders),
          (6000, .query true), (6000, .answer true false)]) = some s ∧
      s.decisions = [⟨6000, readOrders, .allowed false⟩, ⟨0, readOrders, .allowed false⟩] ∧
      ∃ healed, s.log = pushState newIsolates.log 1000 healed ∧
        authzValue healed readOrders = .allowed true := ⟨_, rfl, rfl, _, rfl, rfl⟩
  obtain ⟨s, hrun, hdecisions, healed, hlog, hallowed⟩ := hrun
  have hstart : (authzSystem (id : Bool → Bool)).Reachable newIsolates :=
    .init ⟨rfl, fun _ => rfl, fun _ _ _ => rfl, fun _ => rfl, rfl⟩
  refine ⟨s, hstart.run hrun, ⟨6000, readOrders, .allowed false⟩, ?_, fun hfresh => ?_⟩
  · rw [hdecisions]
    exact List.mem_cons_self
  · rw [hlog] at hfresh
    have hlater : 1000 + versionTtlMs < 6000 := by decide
    obtain ⟨b, hb, hle, hvalue⟩ := hfresh ⟨1, 1000, healed⟩ List.mem_cons_self hlater
    rcases List.mem_cons.1 hb with rfl | hb
    · have hdenied : AuthzValue.allowed false = authzValue healed readOrders := hvalue
      rw [hallowed] at hdenied
      cases hdenied
    · rw [List.mem_singleton.1 hb] at hle
      exact Nat.not_succ_le_zero 0 hle

end HeadlessErp
