import HeadlessErp.Authz.Freshness
import HeadlessErp.Authz.SetPermission

/-!
# Reads beside a change of permissions

In a run of calm events, the checks of a request that is allowed to read use one row of permissions,
which lets the role read. Each value that is cached keeps the state of the tables that it was made
from; under one version, the settled states have the same row. Between the two statements of a call,
a check that reads the row finds none, and takes this for no restriction.
-/

namespace HeadlessErp

section
variable {N : Type} {log : List (LogEntry (AuthzTables N))} {next : AuthzTables N}
  {x : LogEntry (AuthzTables N)} {roleId slug v v₀ : String} {now : Nat}

/-! ## Settled states -/

/-- The numbers of a log grow. -/
def Numbered (log : List (LogEntry (AuthzTables N))) : Prop := ∀ x ∈ log, x.seq < log.length

/-- The settled states of a version have the same row. -/
def OneRow (log : List (LogEntry (AuthzTables N))) : Prop :=
  ∀ roleId slug x y, Settled log roleId slug x → Settled log roleId slug y →
    authzStamp x.state = authzStamp y.state →
    permissionRow x.state roleId slug = permissionRow y.state roleId slug

theorem Numbered.push (h : Numbered log) : Numbered (pushState log now next) := by
  intro x hx
  show x.seq < log.length + 1
  rcases List.mem_cons.1 hx with rfl | hx
  · exact Nat.lt_succ_self _
  · exact Nat.lt_succ_of_lt (h x hx)

theorem Settled.push (h : Settled log roleId slug x) (hlog : Numbered log) :
    Settled (pushState log now next) roleId slug x := by
  obtain ⟨hx, hrow⟩ := h
  refine ⟨List.mem_cons_of_mem _ hx, hrow.imp_right fun hnone y hy hle => ?_⟩
  rcases List.mem_cons.1 hy with rfl | hy
  · exact absurd (hlog x hx) (Nat.not_lt_of_le hle)
  · exact hnone y hy hle

/-- A settled state of a longer log is one of the log, or the new one. -/
theorem Settled.of_push (h : Settled (pushState log now next) roleId slug x) :
    Settled log roleId slug x ∨ x = ⟨log.length, now, next⟩ := by
  obtain ⟨hx, hrow⟩ := h
  rcases List.mem_cons.1 hx with rfl | hx
  · exact .inr rfl
  · exact .inl ⟨hx, hrow.imp_right fun hnone y hy => hnone y (List.mem_cons_of_mem _ hy)⟩

theorem SameRow.push (h : SameRow log roleId slug v₀ v) (hlog : Numbered log) :
    SameRow (pushState log now next) roleId slug v₀ v := by
  obtain ⟨x, y, hx, hy, hrest⟩ := h
  exact ⟨x, y, hx.push hlog, hy.push hlog, hrest⟩

/-- The row of two versions with the same row. -/
theorem SameRow.row_eq {y : LogEntry (AuthzTables N)} (h : SameRow log roleId slug v₀ v)
    (hone : OneRow log) (hx : Settled log roleId slug x) (hy : Settled log roleId slug y)
    (hv₀ : authzStamp x.state = v₀) (hv : authzStamp y.state = v) :
    permissionRow y.state roleId slug = permissionRow x.state roleId slug := by
  obtain ⟨x', y', hx', hy', hx₀, hyv, hrow⟩ := h
  calc permissionRow y.state roleId slug
    _ = permissionRow y'.state roleId slug := hone _ _ _ _ hy hy' (hv.trans hyv.symm)
    _ = permissionRow x'.state roleId slug := hrow.symm
    _ = permissionRow x.state roleId slug := hone _ _ _ _ hx' hx (hx₀.trans hv₀.symm)

/-- A statement that brings back no version under which the row it leaves was another. -/
theorem OneRow.push (h : OneRow log) (hlog : Numbered log)
    (hnext : ∀ roleId slug row, permissionRow next roleId slug = some row →
      ∀ x, Settled log roleId slug x → authzStamp x.state = authzStamp next →
      permissionRow x.state roleId slug = some row) : OneRow (pushState log now next) := by
  -- A settled state with the version of the new one, which is settled too, has its row.
  have hnew : ∀ roleId slug x, Settled log roleId slug x →
      Settled (pushState log now next) roleId slug ⟨log.length, now, next⟩ →
      authzStamp x.state = authzStamp next →
      permissionRow x.state roleId slug = permissionRow next roleId slug := by
    intro roleId slug x hx hsettled hstamp
    cases hrow : permissionRow next roleId slug with
    | some row => exact hnext roleId slug row hrow x hx hstamp
    | none =>
      rcases hsettled.2 with hsome | hnone
      · rw [hrow] at hsome
        cases hsome
      · exact hnone x (List.mem_cons_of_mem _ hx.1) (Nat.le_of_lt (hlog x hx.1))
  intro roleId slug x y hx hy hstamp
  rcases hx.of_push with hx' | rfl
  · rcases hy.of_push with hy' | rfl
    · exact h roleId slug x y hx' hy' hstamp
    · exact hnew roleId slug x hx' hy hstamp
  · rcases hy.of_push with hy' | rfl
    · exact (hnew roleId slug y hy' hx hstamp.symm).symm
    · rfl

end

section
variable {N : Type} [JsNumber N] {log : List (LogEntry (AuthzTables N))} {next : AuthzTables N}
  {roleId slug v : String} {now : Nat} {use : PermUse} {value : AuthzValue N}

/-! ## What is cached -/

/-- The value of an entry was made from a settled state of its version, or for no role. -/
def EntryOrigin (log : List (LogEntry (AuthzTables N))) (v : String) :
    AuthzEntry → AuthzValue N → Prop
  | .row roleId slug, value => ∃ x, Settled log roleId slug x ∧ authzStamp x.state = v ∧
      value = .record (permissionRow x.state roleId slug)
  | .derived roleId slug use, value => (roleId = "" ∧ value = derive use none) ∨
      ∃ x, Settled log roleId slug x ∧ authzStamp x.state = v ∧
        value = derive use (permissionRow x.state roleId slug)
  | _, _ => True

theorem EntryOrigin.push {entry : AuthzEntry} (h : EntryOrigin log v entry value)
    (hlog : Numbered log) : EntryOrigin (pushState log now next) v entry value := by
  cases entry with
  | user | role => trivial
  | row =>
    obtain ⟨x, hx, hrest⟩ := h
    exact ⟨x, hx.push hlog, hrest⟩
  | derived =>
    refine h.imp_right ?_
    rintro ⟨x, hx, hrest⟩
    exact ⟨x, hx.push hlog, hrest⟩

/-! ## Checks -/

/-- What a check carries from one await to the next. `works` says which versions it may work with,
and `answered` what it has answered. -/
def CheckPhase (log : List (LogEntry (AuthzTables N))) (works : String → Prop)
    (roleId slug : String) (use : PermUse) (answered : Option (AuthzValue N)) :
    AuthzPhase N → Prop
  | .idle => answered = none
  | .versionAsked _ entry outer | .versionRead _ entry outer _ =>
    answered = none ∧ entry = .derived roleId slug use ∧ outer = none
  | .rowAsked _ entry outer v =>
    answered = none ∧ entry = .row roleId slug ∧ outer = some (use, v) ∧ works v
  | .rowRead _ entry outer v value =>
    answered = none ∧ entry = .row roleId slug ∧ outer = some (use, v) ∧ works v ∧
      EntryOrigin log v entry value
  | .decided _ version => ∃ value, answered = some value ∧
      ((roleId = "" ∧ value = derive use none) ∨ ∃ v, version = some v ∧ works v ∧
        EntryOrigin log v (.derived roleId slug use) value)

/-- A check that has answered has decided: there is no role, or the value was made from the row of a
version that the check may work with. -/
theorem CheckPhase.of_answered {works : String → Prop} {phase : AuthzPhase N}
    (h : CheckPhase log works roleId slug use (some value) phase) :
    (roleId = "" ∧ value = derive use none) ∨ ∃ start v x, phase = .decided start (some v) ∧
      works v ∧ Settled log roleId slug x ∧ authzStamp x.state = v ∧
      value = derive use (permissionRow x.state roleId slug) := by
  cases phase with
  | idle => cases h
  | versionAsked | versionRead | rowAsked | rowRead => cases h.1
  | decided start version =>
    obtain ⟨_, heq, hvalue⟩ := h
    cases heq
    rcases hvalue with hnone | ⟨v, rfl, hv, hnone | ⟨x, hx, hstamp, hvalue⟩⟩
    · exact .inl hnone
    · exact .inl hnone
    · exact .inr ⟨start, v, x, rfl, hv, hx, hstamp, hvalue⟩

theorem CheckPhase.imp {log' : List (LogEntry (AuthzTables N))} {works works' : String → Prop}
    {answered : Option (AuthzValue N)} {phase : AuthzPhase N}
    (h : CheckPhase log works roleId slug use answered phase) (hworks : ∀ v, works v → works' v)
    (horigin : ∀ v entry value, EntryOrigin log v entry value → EntryOrigin log' v entry value) :
    CheckPhase log' works' roleId slug use answered phase := by
  cases phase with
  | idle | versionAsked | versionRead => exact h
  | rowAsked =>
    obtain ⟨hnone, hentry, houter, hv⟩ := h
    exact ⟨hnone, hentry, houter, hworks _ hv⟩
  | rowRead =>
    obtain ⟨hnone, hentry, houter, hv, hvalue⟩ := h
    exact ⟨hnone, hentry, houter, hworks _ hv, horigin _ _ _ hvalue⟩
  | decided =>
    obtain ⟨value, hsome, hvalue⟩ := h
    refine ⟨value, hsome, hvalue.imp_right ?_⟩
    rintro ⟨v, hversion, hv, hmade⟩
    exact ⟨v, hversion, hworks v hv, horigin _ _ _ hmade⟩

end

section
variable {ι ρ N : Type} [JsNumber N] [DecidableEq ι] [DecidableEq ρ] {isolate : ρ → ι}
  {s s' : AuthzState ι (ρ × PermUse) N} {works : String → Prop} {roleId slug v : String}
  {q : ρ} {use : PermUse} {i : ι} {start now : Nat} {value : AuthzValue N}

/-- What is cached was made from settled states. -/
def CacheSound (s : AuthzState ι (ρ × PermUse) N) : Prop :=
  ∀ i entry v value stored, s.cached i entry v = some (value, stored) →
    EntryOrigin s.log v entry value

/-- A step of one check: the tables and the other checks are as before. -/
structure CheckStep (works : String → Prop) (roleId slug : String) (q : ρ) (use : PermUse)
    (s s' : AuthzState ι (ρ × PermUse) N) : Prop where
  log : s'.log = s.log
  tables : s'.tables = s.tables
  others : ∀ t, t ≠ (q, use) → s'.phase t = s.phase t
  cached : CacheSound s'
  phase : CheckPhase s'.log works roleId slug use (lastAnswer s' (q, use)) (s'.phase (q, use))

omit [DecidableEq ι] [DecidableEq ρ] in
theorem CacheSound.fresh {entry : AuthzEntry} {ttl : Nat} (h : CacheSound s)
    (hfresh : freshValue (s.cached i entry v) ttl now = some value) :
    EntryOrigin s.log v entry value := by
  obtain ⟨stored, hcached, -⟩ := freshValue_eq_some hfresh
  exact h i entry v value stored hcached

omit [DecidableEq ρ] in
theorem CacheSound.store {entry : AuthzEntry} (h : CacheSound s)
    (horigin : EntryOrigin s.log v entry value) :
    CacheSound (s.store i entry v value now) := by
  intro i' entry' v' value' stored hcached
  rcases AuthzState.cached_store hcached with ⟨rfl, rfl, rfl, hheld⟩ | hcached
  · cases hheld
    exact horigin
  · exact h _ _ _ _ _ hcached

omit [DecidableEq ι] in
/-- A check that waits. -/
theorem checkStep_goto {phase : AuthzPhase N} (h : CacheSound s)
    (hwaits : ∀ start version, phase ≠ .decided start version)
    (hphase : CheckPhase s.log works roleId slug use none phase) :
    CheckStep works roleId slug q use s (s.goto (q, use) phase) := by
  refine ⟨rfl, rfl, fun t ht => Function.update_of_ne ht _ _, h, ?_⟩
  have hself : (s.goto (q, use) phase).phase (q, use) = phase := Function.update_self ..
  have hnone : lastAnswer (s.goto (q, use) phase) (q, use) = none := by
    unfold lastAnswer
    rw [hself]
    cases phase with
    | decided start version => exact absurd rfl (hwaits start version)
    | idle | versionAsked | versionRead | rowAsked | rowRead => rfl
  rw [hself, hnone]
  exact hphase

omit [DecidableEq ι] in
/-- A check that has its value. -/
theorem checkStep_decide {entry : AuthzEntry} {version : Option String} (h : CacheSound s)
    (hvalue : (roleId = "" ∧ value = derive use none) ∨ ∃ v, version = some v ∧ works v ∧
      EntryOrigin s.log v (.derived roleId slug use) value) :
    CheckStep works roleId slug q use s (s.decide (q, use) start entry version value) := by
  refine ⟨rfl, rfl, fun t ht => Function.update_of_ne ht _ _, h, ?_⟩
  have hself : (s.decide (q, use) start entry version value).phase (q, use) =
      .decided start version := Function.update_self ..
  have hsome : lastAnswer (s.decide (q, use) start entry version value) (q, use) =
      some value := by
    unfold lastAnswer
    rw [hself]
    rfl
  rw [hself, hsome]
  exact ⟨value, rfl, hvalue⟩

omit [DecidableEq ι] [DecidableEq ρ] in
/-- A step after something was cached, or the version was. -/
theorem CheckStep.of_eq {s₁ : AuthzState ι (ρ × PermUse) N}
    (h : CheckStep works roleId slug q use s₁ s') (hlog : s₁.log = s.log)
    (htables : s₁.tables = s.tables) (hphase : s₁.phase = s.phase) :
    CheckStep works roleId slug q use s s' :=
  ⟨h.log.trans hlog, h.tables.trans htables,
    fun t ht => (h.others t ht).trans (congrFun hphase t), h.cached, h.phase⟩

/-- The row of a check was found: the check takes its part, and caches it. -/
theorem checkStep_complete {version : Option String} (h : CacheSound s) (hworks : works v)
    (hrow : EntryOrigin s.log v (.row roleId slug) value) :
    CheckStep works roleId slug q use s (s.complete (fun t => isolate t.1) (q, use) start
      (.row roleId slug) (some (use, v)) version value now) := by
  obtain ⟨x, hx, hv, rfl⟩ := hrow
  have hmade : EntryOrigin s.log v (.derived roleId slug use)
      (derive use (permissionRow x.state roleId slug)) := .inr ⟨x, hx, hv, rfl⟩
  unfold AuthzState.complete
  exact (checkStep_decide (h.store hmade) (.inr ⟨v, rfl, hworks, hmade⟩)).of_eq rfl rfl rfl

/-- The row of a check is looked up in the cache. -/
theorem checkStep_lookup (h : CacheSound s) (hworks : works v) :
    CheckStep works roleId slug q use s (s.lookup (fun t => isolate t.1) (q, use) start
      (.row roleId slug) (some (use, v)) v now) := by
  unfold AuthzState.lookup
  split
  · rename_i value hvalue
    exact checkStep_complete h hworks (h.fresh hvalue)
  · exact checkStep_goto h (fun _ _ heq => by cases heq) ⟨rfl, rfl, rfl, hworks⟩

/-- A check that has its version, which is the one that its isolate holds. -/
theorem checkStep_withVersion (h : CacheSound s) (hworks : works v)
    (hheld : freshValue (s.version (isolate q)) versionTtlMs now = some v) :
    CheckStep works roleId slug q use s (s.withVersion (fun t => isolate t.1) (q, use) start
      (.derived roleId slug use) none v now) := by
  unfold AuthzState.withVersion
  dsimp only
  split
  · rename_i value hvalue
    exact checkStep_decide h (.inr ⟨v, rfl, hworks, h.fresh hvalue⟩)
  · unfold AuthzState.permissionRow
    split
    · rename_i hrole
      subst hrole
      -- A role without a name has no row, in any state.
      have hmade : EntryOrigin s.log v (.derived "" slug use) (derive use (N := N) none) :=
        .inl ⟨rfl, rfl⟩
      exact (checkStep_decide (h.store hmade) (.inl ⟨rfl, rfl⟩)).of_eq rfl rfl rfl
    · rw [hheld]
      exact checkStep_lookup h hworks

/-- A check begins. -/
theorem checkStep_begin (h : CacheSound s)
    (hworks : ∀ v, freshValue (s.version (isolate q)) versionTtlMs now = some v → works v) :
    CheckStep works roleId slug q use s (s.begin (fun t => isolate t.1) (q, use)
      (.derived roleId slug use) now) := by
  unfold AuthzState.begin
  split
  · rename_i hempty
    have hrole : roleId = "" := by
      cases use with
      | action => cases hempty
      | fields | rowFilter => simpa [AuthzEntry.isEmpty] using hempty
    exact checkStep_decide h (.inl ⟨hrole, rfl⟩)
  · split
    · rename_i version hversion
      exact checkStep_withVersion h (hworks version hversion) hversion
    · exact checkStep_goto h (fun _ _ heq => by cases heq) ⟨rfl, rfl, rfl⟩

omit [DecidableEq ι] in
/-- The database answers the query of a check. -/
theorem checkStep_query {answered : Option (AuthzValue N)} (h : CacheSound s)
    (hphase : CheckPhase s.log works roleId slug use answered (s.phase (q, use)))
    (hrow : ∀ start outer v, s.phase (q, use) = .rowAsked start (.row roleId slug) outer v →
      ∃ x, Settled s.log roleId slug x ∧ authzStamp x.state = v ∧
        permissionRow x.state roleId slug = permissionRow s.tables roleId slug)
    (hquery : s.query (q, use) = some s') :
    CheckStep works roleId slug q use s s' := by
  unfold AuthzState.query at hquery
  split at hquery
  · rename_i start entry outer heq
    rw [heq] at hphase
    obtain ⟨-, hentry, houter⟩ := hphase
    cases hquery
    exact checkStep_goto h (fun _ _ heq => by cases heq) ⟨rfl, hentry, houter⟩
  · rename_i start entry outer version heq
    rw [heq] at hphase
    obtain ⟨-, rfl, houter, hworks⟩ := hphase
    obtain ⟨x, hx, hv, hsame⟩ := hrow start outer version heq
    have hmade : EntryOrigin s.log version (.row roleId slug)
        (authzValue s.tables (.row roleId slug)) := by
      refine ⟨x, hx, hv, ?_⟩
      rw [hsame]
      rfl
    cases hquery
    exact checkStep_goto h (fun _ _ heq => by cases heq) ⟨rfl, rfl, houter, hworks, hmade⟩
  · cases hquery

/-- The answer of a query arrives. -/
theorem checkStep_answer {answered : Option (AuthzValue N)} {failed : Bool} (h : CacheSound s)
    (hphase : CheckPhase s.log works roleId slug use answered (s.phase (q, use)))
    (hversion : ∀ start entry outer v, s.phase (q, use) = .versionRead start entry outer v →
      failed = false ∧ works v)
    (hanswer : s.answer (fun t => isolate t.1) (q, use) failed now = some s') :
    CheckStep works roleId slug q use s s' := by
  unfold AuthzState.answer at hanswer
  split at hanswer
  · rename_i start entry outer version heq
    rw [heq] at hphase
    obtain ⟨-, rfl, rfl⟩ := hphase
    obtain ⟨rfl, hworks⟩ := hversion _ _ _ _ heq
    cases hanswer
    let versions := Function.update s.version (isolate q) (some (version, now))
    have hsound : CacheSound { s with version := versions } := h
    have hheld : freshValue (versions (isolate q)) versionTtlMs now = some version := by
      simp [versions, freshValue]
    exact (checkStep_withVersion hsound hworks hheld).of_eq rfl rfl rfl
  · rename_i start entry outer version value heq
    rw [heq] at hphase
    obtain ⟨-, rfl, rfl, hworks, hrow⟩ := hphase
    split at hanswer
    · cases hanswer
      exact checkStep_goto h (fun _ _ heq => by cases heq) rfl
    · cases hanswer
      exact (checkStep_complete (h.store hrow) hworks hrow).of_eq rfl rfl rfl
  · cases hanswer

end

/-! ## Runs -/

section
variable {ι ρ ω N : Type} [JsNumber N] [DecidableEq ι] [DecidableEq ρ] [DecidableEq ω]
  {isolate : ρ → ι} {home : ω → ι} {target : ρ → String × String} {s s' : PermissionState ι ρ ω N}
  {q : ρ} {use : PermUse} {now : Nat}

/-- The versions that a check may work with: the first check of a request may work with any. -/
def MayWork (target : ρ → String × String) (s : PermissionState ι ρ ω N) (q : ρ) (use : PermUse)
    (v : String) : Prop := use = readUse ∨ WorksWith target s q v

/-- The invariant of a run of calm events. -/
structure PermissionSound (target : ρ → String × String) (s : PermissionState ι ρ ω N) :
    Prop where
  last : ∃ e ∈ s.authz.log, e.state = s.authz.tables
  numbered : Numbered s.authz.log
  oneRow : OneRow s.authz.log
  cached : CacheSound s.authz
  phase : ∀ q use, CheckPhase s.authz.log (MayWork target s q use) (target q).1 (target q).2 use
    (s.answer q use) (s.authz.phase (q, use))
  waits : ∀ q use, s.authz.phase (q, use) ≠ .idle →
    use = readUse ∨ isAllowed (s.answer q readUse) = true

omit [JsNumber N] [DecidableEq ι] in
/-- A check that has not answered yet answers what it has decided. -/
theorem answered_self {authz : AuthzState ι (ρ × PermUse) N}
    {answer : ρ → PermUse → Option (AuthzValue N)} (hnone : answer q use = none) :
    answered authz q use answer q use = lastAnswer authz (q, use) := by
  unfold answered
  cases lastAnswer authz (q, use) with
  | some value =>
    dsimp only
    rw [Function.update_self, Function.update_self]
  | none => exact hnone

omit [JsNumber N] [DecidableEq ι] in
theorem answered_of_ne {authz : AuthzState ι (ρ × PermUse) N}
    {answer : ρ → PermUse → Option (AuthzValue N)} {q' : ρ} {use' : PermUse}
    (hne : (q', use') ≠ (q, use)) : answered authz q use answer q' use' = answer q' use' := by
  unfold answered
  cases lastAnswer authz (q, use) with
  | some value =>
    dsimp only
    rcases eq_or_ne q' q with rfl | hq
    · have huse : use' ≠ use := fun heq => hne (by rw [heq])
      rw [Function.update_self, Function.update_of_ne huse]
    · rw [Function.update_of_ne hq]
  | none => rfl

omit [DecidableEq ι] [DecidableEq ω] in
/-- A step of one check keeps the invariant. -/
theorem PermissionSound.check {authz : AuthzState ι (ρ × PermUse) N} (h : PermissionSound target s)
    (hnone : s.answer q use = none)
    (hallowed : use = readUse ∨ isAllowed (s.answer q readUse) = true)
    (hstep : CheckStep (MayWork target s q use) (target q).1 (target q).2 q use s.authz authz) :
    PermissionSound target
      { s with authz := authz, answer := answered authz q use s.answer } := by
  have hworks : ∀ q' use', (q', use') ≠ (q, use) → s.authz.phase (q', use') ≠ .idle →
      (q', readUse) ≠ (q, use) ∨ use' = readUse := by
    intro q' use' hne hphase
    refine (h.waits q' use' hphase).symm.imp_left fun hyes heq => ?_
    obtain ⟨rfl, rfl⟩ := Prod.mk.inj heq
    rw [hnone] at hyes
    cases hyes
  have hmay : ∀ q' use' v, (q', readUse) ≠ (q, use) ∨ use' = readUse →
      MayWork target s q' use' v → MayWork target
        { s with authz := authz, answer := answered authz q use s.answer } q' use' v := by
    intro q' use' v hne hmay
    rcases hne with hne | hread
    · refine hmay.imp_right fun hv start v₀ hdecided => ?_
      have hdecided' : authz.phase (q', readUse) = .decided start (some v₀) := hdecided
      rw [hstep.others _ hne] at hdecided'
      show SameRow authz.log _ _ v₀ v
      rw [hstep.log]
      exact hv start v₀ hdecided'
    · exact .inl hread
  refine ⟨?_, ?_, ?_, hstep.cached, fun q' use' => ?_, fun q' use' hphase => ?_⟩
  · show ∃ e ∈ authz.log, e.state = authz.tables
    rw [hstep.log, hstep.tables]
    exact h.last
  · show Numbered authz.log
    rw [hstep.log]
    exact h.numbered
  · show OneRow authz.log
    rw [hstep.log]
    exact h.oneRow
  · show CheckPhase authz.log _ _ _ _ (answered authz q use s.answer q' use')
      (authz.phase (q', use'))
    rcases eq_or_ne (q', use') (q, use) with heq | hne
    · obtain ⟨rfl, rfl⟩ := Prod.mk.inj heq
      rw [answered_self hnone]
      refine hstep.phase.imp (fun v hv => hmay _ _ v ?_ hv) fun _ _ _ hvalue => hvalue
      rcases eq_or_ne use' readUse with hread | hread
      · exact .inr hread
      · exact .inl fun heq => hread (Prod.mk.inj heq).2.symm
    · rw [answered_of_ne hne, hstep.others _ hne, hstep.log]
      have hold := h.phase q' use'
      rcases eq_or_ne (s.authz.phase (q', use')) .idle with hidle | hidle
      · rw [hidle] at hold ⊢
        exact hold
      · exact hold.imp (fun v hv => hmay _ _ v (hworks q' use' hne hidle) hv)
          fun _ _ _ hvalue => hvalue
  · show use' = readUse ∨ isAllowed (answered authz q use s.answer q' readUse) = true
    have hphase' : authz.phase (q', use') ≠ .idle := hphase
    have hyes : use' = readUse ∨ isAllowed (s.answer q' readUse) = true := by
      rcases eq_or_ne (q', use') (q, use) with heq | hne
      · obtain ⟨rfl, rfl⟩ := Prod.mk.inj heq
        exact hallowed
      · rw [hstep.others _ hne] at hphase'
        exact h.waits q' use' hphase'
    refine hyes.imp_right fun hyes => ?_
    rw [answered_of_ne]
    · exact hyes
    · rintro heq
      obtain ⟨rfl, rfl⟩ := Prod.mk.inj heq
      rw [hnone] at hyes
      cases hyes

omit [DecidableEq ι] [DecidableEq ρ] [DecidableEq ω] in
/-- A write that brings back no version under which a row it leaves was another. -/
theorem PermissionSound.write {tables : AuthzTables N} (h : PermissionSound target s)
    (hcalm : ∀ roleId slug row, permissionRow tables roleId slug = some row →
      ∀ x, Settled s.authz.log roleId slug x → authzStamp x.state = authzStamp tables →
      permissionRow x.state roleId slug = some row) :
    PermissionSound target { s with authz :=
      { s.authz with tables, log := pushState s.authz.log now tables, clock := now } } := by
  refine ⟨⟨_, List.mem_cons_self, rfl⟩, h.numbered.push, h.oneRow.push h.numbered hcalm,
    fun i entry v value stored hcached => ?_, fun q use => ?_, h.waits⟩
  · exact (h.cached i entry v value stored hcached).push h.numbered
  · refine (h.phase q use).imp (fun v hv => hv.imp_right fun hworks start v₀ hdecided => ?_)
      fun v entry value hvalue => hvalue.push h.numbered
    exact (hworks start v₀ hdecided).push h.numbered

omit [DecidableEq ι] [DecidableEq ρ] [DecidableEq ω] in
/-- An isolate that loses entries of its cache. -/
theorem PermissionSound.evict {authz : AuthzState ι (ρ × PermUse) N}
    (h : PermissionSound target s) (htables : authz.tables = s.authz.tables)
    (hlog : authz.log = s.authz.log) (hphase : authz.phase = s.authz.phase)
    (hcached : ∀ i entry v held, authz.cached i entry v = some held →
      s.authz.cached i entry v = some held) :
    PermissionSound target { s with authz } := by
  cases authz
  dsimp only at htables hlog hphase hcached
  subst htables hlog hphase
  exact ⟨h.last, h.numbered, h.oneRow,
    fun i entry v value stored heq => h.cached i entry v value stored (hcached _ _ _ _ heq),
    h.phase, h.waits⟩

omit [DecidableEq ι] [DecidableEq ρ] [DecidableEq ω] in
theorem PermissionSound.withCall {call : ω → SetPermissionPhase} (h : PermissionSound target s) :
    PermissionSound target { s with call } :=
  ⟨h.last, h.numbered, h.oneRow, h.cached, h.phase, h.waits⟩

omit [DecidableEq ω] in
theorem PermissionSound.evictEvent {i : ι} {keepVersion : Bool}
    {keep : AuthzEntry → String → Bool} (h : PermissionSound target s)
    (hstep : s.authzEvent isolate now (.evict i keepVersion keep) = some s') :
    PermissionSound target s' := by
  cases hstep
  refine h.evict rfl rfl rfl fun i' entry v held heq => ?_
  have heq' : Function.update s.authz.cached i (fun entry version =>
      if keep entry version then s.authz.cached i entry version else none) i' entry v =
      some held := heq
  rcases eq_or_ne i' i with rfl | hne
  · rw [Function.update_self] at heq'
    split at heq'
    · exact heq'
    · cases heq'
  · rwa [Function.update_of_ne hne] at heq'

/-- A statement of a call. -/
theorem PermissionSound.statement {w : ω} {uuid isoNow : String} (h : PermissionSound target s)
    (hcalm : CalmEvent isolate target s (now, .statement w uuid isoNow))
    (hstep : s.statement isolate home now w uuid isoNow = some s') :
    PermissionSound target s' := by
  have hcalm' : ∀ phase write,
      setPermissionStep s.authz.tables uuid isoNow (s.call w) = some (phase, some write) → _ :=
    hcalm
  unfold PermissionState.statement at hstep
  split at hstep
  · exact h.withCall.evictEvent hstep
  · split at hstep
    · rename_i phase write heq
      cases hstep
      exact h.withCall.write (hcalm' phase write heq)
    · cases hstep
      exact h.withCall
    · cases hstep

omit [DecidableEq ω] in
/-- A step of a check that has not answered yet. -/
theorem PermissionSound.checked {event : AuthzEvent ι (ρ × PermUse) N}
    (h : PermissionSound target s) (hnone : s.answer q use = none)
    (hallowed : use = readUse ∨ isAllowed (s.answer q readUse) = true)
    (hcheck : ∀ authz, authzEvent (fun t => isolate t.1) (s.authz.at now) now event = some authz →
      CheckStep (MayWork target s q use) (target q).1 (target q).2 q use (s.authz.at now) authz)
    (hstep : s.check isolate now q use event = some s') : PermissionSound target s' := by
  obtain ⟨s₁, hs₁, rfl⟩ := Option.map_eq_some_iff.1 hstep
  obtain ⟨authz, hauthz, rfl⟩ := Option.map_eq_some_iff.1 hs₁
  exact h.check hnone hallowed ((hcheck authz hauthz).of_eq rfl rfl rfl)

/-- A check that has begun, and has no value yet. -/
def Waits (s : PermissionState ι ρ ω N) (t : ρ × PermUse) : Prop :=
  s.authz.phase t ≠ .idle ∧ ∀ start version, s.authz.phase t ≠ .decided start version

omit [DecidableEq ω] in
/-- A step of a check that waits. -/
theorem PermissionSound.continued {event : AuthzEvent ι (ρ × PermUse) N}
    (h : PermissionSound target s)
    (hcheck : ∀ authz, authzEvent (fun t => isolate t.1) (s.authz.at now) now event = some authz →
      Waits s (q, use) ∧ CheckStep (MayWork target s q use) (target q).1 (target q).2 q use
        (s.authz.at now) authz)
    (hstep : s.check isolate now q use event = some s') : PermissionSound target s' := by
  obtain ⟨s₁, hs₁, -⟩ := Option.map_eq_some_iff.1 hstep
  obtain ⟨authz, hauthz, -⟩ := Option.map_eq_some_iff.1 hs₁
  obtain ⟨hbegun, hopen⟩ := (hcheck authz hauthz).1
  have hnone : s.answer q use = none := by
    have hsound := h.phase q use
    cases hcase : s.authz.phase (q, use) with
    | idle => exact absurd hcase hbegun
    | decided start version => exact absurd hcase (hopen start version)
    | versionAsked | versionRead | rowAsked | rowRead =>
      rw [hcase] at hsound
      exact hsound.1
  exact h.checked hnone (h.waits q use hbegun) (fun authz hauthz => (hcheck authz hauthz).2) hstep

omit [DecidableEq ι] [DecidableEq ω] in
theorem waits_of_query {authz : AuthzState ι (ρ × PermUse) N}
    (h : (s.authz.at now).query (q, use) = some authz) : Waits s (q, use) := by
  unfold AuthzState.query at h
  refine ⟨fun heq => ?_, fun start version heq => ?_⟩
  · have heq' : (s.authz.at now).phase (q, use) = .idle := heq
    rw [heq'] at h
    cases h
  · have heq' : (s.authz.at now).phase (q, use) = .decided start version := heq
    rw [heq'] at h
    cases h

omit [DecidableEq ω] in
theorem waits_of_answer {authz : AuthzState ι (ρ × PermUse) N} {failed : Bool}
    (h : (s.authz.at now).answer (fun t => isolate t.1) (q, use) failed now = some authz) :
    Waits s (q, use) := by
  unfold AuthzState.answer at h
  refine ⟨fun heq => ?_, fun start version heq => ?_⟩
  · have heq' : (s.authz.at now).phase (q, use) = .idle := heq
    rw [heq'] at h
    cases h
  · have heq' : (s.authz.at now).phase (q, use) = .decided start version := heq
    rw [heq'] at h
    cases h

/-- A calm event keeps the invariant. -/
theorem PermissionSound.event {event : Nat × PermissionEvent ι ρ ω} (h : PermissionSound target s)
    (hcalm : CalmEvent isolate target s event)
    (hstep : permissionEvent isolate home target s event.1 event.2 = some s') :
    PermissionSound target s' := by
  obtain ⟨now, event⟩ := event
  cases event with
  | setPermission w input =>
    simp only [permissionEvent] at hstep
    split at hstep
    · cases hstep
      exact h.withCall
    · cases hstep
      exact h.withCall
    · cases hstep
  | statement w uuid isoNow => exact h.statement hcalm hstep
  | begin q use =>
    simp only [permissionEvent] at hstep
    split at hstep
    · rename_i hidle
      split at hstep
      · rename_i hallowed
        have hnone := h.phase q use
        rw [hidle] at hnone
        refine h.checked hnone hallowed (fun authz hauthz => ?_) hstep
        have hidle' : (s.authz.at now).phase (q, use) = .idle := hidle
        simp only [authzEvent, hidle', Option.some.injEq] at hauthz
        subst hauthz
        exact checkStep_begin h.cached fun v hv => .inr (hcalm v hv)
      · cases hstep
    · cases hstep
  | query q use =>
    have hcheck : s.check isolate now q use (.query (q, use)) = some s' := hstep
    refine h.continued (fun authz hauthz => ?_) hcheck
    refine ⟨waits_of_query hauthz, ?_⟩
    refine checkStep_query h.cached (h.phase q use) (fun start outer v heq => ?_) hauthz
    obtain ⟨x, hx, hv, hsame, -⟩ := hcalm start _ _ outer v heq
    exact ⟨x, hx, hv, hsame⟩
  | answer q use failed =>
    have hcheck : s.check isolate now q use (.answer (q, use) failed) = some s' := hstep
    refine h.continued (fun authz hauthz => ?_) hcheck
    refine ⟨waits_of_answer hauthz, ?_⟩
    refine checkStep_answer h.cached (h.phase q use) (fun start entry outer v heq => ?_) hauthz
    obtain ⟨hfailed, hworks⟩ := hcalm start entry outer v heq
    exact ⟨hfailed, .inr hworks⟩
  | evict i keepVersion keep => exact h.evictEvent hstep

omit [DecidableEq ι] [DecidableEq ρ] [DecidableEq ω] in
/-- The checks of a request that is allowed to read have the row that allows it. -/
theorem PermissionSound.served (h : PermissionSound target s)
    (hallowed : s.answer q readUse = some (.allowed true)) : ∃ x ∈ s.authz.log, ∃ row,
      permissionRow x.state (target q).1 (target q).2 = some row ∧ (row.get "can_read").truthy ∧
      ∀ use value, s.answer q use = some value → value = derive use (some row) := by
  have hread := h.phase q readUse
  rw [hallowed] at hread
  rcases hread.of_answered with ⟨-, hnone⟩ | ⟨start, v₀, x, hdecided, -, hx, hv₀, hvalue⟩
  · cases hnone
  · cases hrow : permissionRow x.state (target q).1 (target q).2 with
    | none =>
      rw [hrow] at hvalue
      cases hvalue
    | some row =>
      rw [hrow] at hvalue
      have htruthy : true = (row.get "can_read").truthy := AuthzValue.allowed.inj hvalue
      refine ⟨x, hx.1, row, hrow, htruthy.symm, fun use value hanswer => ?_⟩
      have hphase := h.phase q use
      rw [hanswer] at hphase
      rcases hphase.of_answered with ⟨hrole, hnone⟩ | ⟨_, v, y, hdecided', hmay, hy, hv, hvalue'⟩
      · -- There is no row for a role without a name.
        rw [hrole] at hrow
        cases hrow
      · rw [hvalue']
        rcases hmay with rfl | hworks
        · rw [hdecided] at hdecided'
          cases hdecided'
          rw [h.oneRow _ _ y x hy hx (hv.trans hv₀.symm), hrow]
        · rw [(hworks start v₀ hdecided).row_eq h.oneRow hx hy hv₀ hv, hrow]

omit [DecidableEq ι] [DecidableEq ρ] [DecidableEq ω] in
theorem PermissionSound.readersAtomic (h : PermissionSound target s) : ReadersAtomic target s := by
  refine ⟨fun q hallowed => h.served hallowed, fun i roleId slug v value stored hcached => ?_,
    fun i roleId slug use v value stored hcached => ?_⟩
  · obtain ⟨x, hx, -, hvalue⟩ := h.cached i _ v value stored hcached
    exact ⟨x, hx, hvalue⟩
  · rcases h.cached i _ v value stored hcached with ⟨rfl, hvalue⟩ | ⟨x, hx, -, hvalue⟩
    · obtain ⟨e, he, -⟩ := h.last
      exact ⟨e, ⟨he, .inr fun _ _ _ => rfl⟩, hvalue⟩
    · exact ⟨x, hx, hvalue⟩

omit [DecidableEq ι] [DecidableEq ρ] [DecidableEq ω] in
theorem permissionSound_init (hlog : s.authz.log = pushState [] s.authz.clock s.authz.tables)
    (hcached : ∀ i entry version, s.authz.cached i entry version = none)
    (hphase : ∀ t, s.authz.phase t = .idle) (hanswer : ∀ q use, s.answer q use = none) :
    PermissionSound target s := by
  have hmem : ∀ x ∈ s.authz.log, x = ⟨0, s.authz.clock, s.authz.tables⟩ := by
    intro x hx
    rw [hlog] at hx
    exact List.mem_singleton.1 hx
  refine ⟨⟨⟨0, s.authz.clock, s.authz.tables⟩, ?_, rfl⟩, fun x hx => ?_,
    fun roleId slug x y hx hy _ => ?_, fun i entry v value stored heq => ?_, fun q use => ?_,
    fun q use hbegun => absurd (hphase _) hbegun⟩
  · rw [hlog]
    exact List.mem_cons_self
  · rw [hmem x hx, hlog]
    exact Nat.zero_lt_one
  · rw [hmem x hx.1, hmem y hy.1]
  · rw [hcached] at heq
    cases heq
  · rw [hphase, hanswer]
    rfl

/-- In a run of calm events, readers see each change of permissions as one step. -/
theorem readersAtomic_of_reach
    (h : (permissionSystem (N := N) isolate home target).Reach (CalmEvent isolate target) s) :
    ReadersAtomic target s := by
  have hsound : PermissionSound target s := by
    refine h.invariant (fun s hinit => ?_) fun s event s' hs hcalm hstep => hs.event hcalm hstep
    obtain ⟨hlog, -, hcached, hphase, -, hanswer⟩ := hinit
    exact permissionSound_init hlog hcached hphase hanswer
  exact hsound.readersAtomic

end

/-! ## A change beside a read -/

/-- The rows of the user. -/
def ownRows : JsVal (Option Int) :=
  .obj [("conditions", .arr [.obj [("field", .str "owner"), ("op", .str "eq"),
    ("value", .str "$CURRENT_USER")]])]

/-- The role may read the rows that a filter lets through. -/
def readOrdersOf (rowFilters : Option String) : SetPermissionInput :=
  ⟨"r1", "orders", none, some true, none, none, none, none, none, none, rowFilters, none, none⟩

/-- The tables with the permission to read one's own rows. -/
def ownOrders : AuthzTables (Option Int)
  | .rolePermissions => [((readOrdersOf ownRows.toJson).record "p1").assign
      [("created_at", .str "2024-01-01"), ("updated_at", .str "2024-01-01")]]
  | _ => []

/-- An isolate before any request. -/
def newReaders : PermissionState Unit Unit Unit (Option Int) where
  authz := ⟨ownOrders, pushState [] 0 ownOrders, fun _ => none, fun _ _ _ => none, fun _ => .idle,
    [], 0⟩
  call _ := .idle
  answer _ _ := none

/-- Reads of orders by the role. -/
abbrev orderReads : Unit → String × String := fun _ => ("r1", "orders")

/-- The first check of the request, for which nothing is cached. -/
def readChecked : List (Nat × PermissionEvent Unit Unit Unit) :=
  [(0, .begin () readUse), (0, .query () readUse), (0, .answer () readUse false),
    (0, .query () readUse), (0, .answer () readUse false)]

/-- The row is deleted, and the request asks for the row filter. -/
def filteredBetween : List (Nat × PermissionEvent Unit Unit Unit) :=
  [(1, .setPermission () (readOrdersOf none)), (2, .statement () "p2" "2024-01-02"),
    (3, .statement () "p2" "2024-01-02"), (1500, .begin () .rowFilter),
    (1500, .query () .rowFilter), (1500, .answer () .rowFilter false),
    (1500, .query () .rowFilter), (1500, .answer () .rowFilter false)]

theorem derive_ownOrders : ∃ condition, derive .rowFilter (permissionRow ownOrders "r1" "orders") =
    .filter (some condition) := by
  have hjson : IsJson ownRows := by
    refine .obj (by decide) fun kv hkv => ?_
    rw [List.mem_singleton.1 hkv]
    refine .arr fun x hx => ?_
    rw [List.mem_singleton.1 hx]
    refine .obj (by decide) fun kv hkv => ?_
    simp only [List.mem_cons, List.not_mem_nil, or_false] at hkv
    rcases hkv with rfl | rfl | rfl
    · exact .str _
    · exact .str _
    · exact .str _
  obtain ⟨text, htext, hparse⟩ := Json.parse_toJson hjson
  have hne : text ≠ "" := by
    rintro rfl
    cases hparse
  obtain ⟨row, hrow, hfilters⟩ : ∃ row, permissionRow ownOrders "r1" "orders" = some row ∧
      row.get "row_filters" = textOrNull ownRows.toJson := ⟨_, rfl, rfl⟩
  rw [htext] at hfilters
  have hcolumn : parseColumn row "row_filters" = some ownRows := by
    unfold parseColumn
    rw [hfilters]
    dsimp only [textOrNull]
    rw [if_pos hne, hparse]
  rw [hrow]
  simp only [derive]
  rw [hcolumn]
  exact ⟨_, rfl⟩

/-- A role that may read its own rows is served without a filter, between the two statements of a
change. -/
theorem not_readersAtomic_between : ∃ s : PermissionState Unit Unit Unit (Option Int),
    (permissionSystem (fun _ => ()) (fun _ => ()) orderReads).Reachable s ∧
      ¬ ReadersAtomic orderReads s := by
  have hrun : ∃ s : PermissionState Unit Unit Unit (Option Int),
      (permissionSystem (fun _ => ()) (fun _ => ()) orderReads).run newReaders
        (readChecked ++ filteredBetween) = some s ∧
      s.answer () readUse = some (.allowed true) ∧ s.answer () .rowFilter = some (.filter none) ∧
      ∃ gap, s.authz.log = pushState newReaders.authz.log 3 gap ∧
        permissionRow gap "r1" "orders" = none := ⟨_, rfl, rfl, rfl, _, rfl, rfl⟩
  obtain ⟨s, hrun, hallowed, hfilter, gap, hlog, hgap⟩ := hrun
  have hstart : (permissionSystem (fun _ : Unit => ()) (fun _ : Unit => ()) orderReads).Reachable
      newReaders :=
    .init ⟨rfl, fun _ => rfl, fun _ _ _ => rfl, fun _ => rfl, fun _ => rfl, fun _ _ => rfl⟩
  refine ⟨s, hstart.run hrun, fun hatomic => ?_⟩
  obtain ⟨x, hx, row, hrow, -, hsame⟩ := hatomic.served () hallowed
  have hvalue : AuthzValue.filter none = derive .rowFilter (some row) := hsame _ _ hfilter
  rw [hlog] at hx
  rcases List.mem_cons.1 hx with rfl | hx
  · have hnone : permissionRow gap "r1" "orders" = some row := hrow
    rw [hgap] at hnone
    cases hnone
  · rw [List.mem_singleton.1 hx] at hrow
    have hold : permissionRow ownOrders "r1" "orders" = some row := hrow
    obtain ⟨condition, hcondition⟩ := derive_ownOrders
    rw [hold, ← hvalue] at hcondition
    cases hcondition
section
variable {s : PermissionState Unit Unit Unit (Option Int)} {start now : Nat} {use : PermUse}
  {v uuid isoNow : String} {entry : AuthzEntry} {outer : Option (PermUse × String)}

/-- A step of a call that writes nothing. -/
theorem calm_read (h : (setPermissionStep s.authz.tables uuid isoNow (s.call ())).bind Prod.snd =
    none) : CalmEvent (fun _ => ()) orderReads s (now, .statement () uuid isoNow) := by
  intro phase write hstep
  rw [hstep] at h
  cases h

theorem calm_versionAsked (h : s.authz.phase ((), use) = .versionAsked start entry outer) :
    CalmEvent (fun _ => ()) orderReads s (now, .query () use) := by
  intro start' roleId slug outer' v' hphase
  rw [h] at hphase
  cases hphase

theorem calm_versionRead (h : s.authz.phase ((), readUse) = .versionRead start entry outer v) :
    CalmEvent (fun _ => ()) orderReads s (now, .answer () readUse false) := by
  refine fun _ _ _ _ _ => ⟨rfl, fun start' v₀ hdecided => ?_⟩
  rw [h] at hdecided
  cases hdecided

theorem calm_rowRead {value : AuthzValue (Option Int)}
    (h : s.authz.phase ((), use) = .rowRead start entry outer v value) :
    CalmEvent (fun _ => ()) orderReads s (now, .answer () use false) := by
  intro start' entry' outer' v' hphase
  rw [h] at hphase
  cases hphase

/-- The row is read from the state that was written last, and is there. -/
theorem calm_rowAsked {x : LogEntry (AuthzTables (Option Int))}
    (h : s.authz.phase ((), use) = .rowAsked start (.row "r1" "orders") outer v)
    (hx : x ∈ s.authz.log) (hstate : x.state = s.authz.tables)
    (hv : authzStamp s.authz.tables = v)
    (hrow : (permissionRow s.authz.tables "r1" "orders").isSome) :
    CalmEvent (fun _ => ()) orderReads s (now, .query () use) := by
  intro start' roleId slug outer' v' hphase
  rw [h] at hphase
  cases hphase
  refine ⟨x, ⟨hx, .inl ?_⟩, ?_, ?_, fun hnone => ?_⟩
  · rw [hstate]
    exact hrow
  · rw [hstate]
    exact hv
  · rw [hstate]
  · rw [hnone] at hrow
    cases hrow

theorem calm_unversioned (h : s.authz.version () = none) :
    CalmEvent (fun _ => ()) orderReads s (now, .begin () use) := by
  intro v' hfresh
  rw [h] at hfresh
  cases hfresh

/-- A check begins with the version of the first one. -/
theorem calm_begin {x : LogEntry (AuthzTables (Option Int))} {stored : Nat}
    (h : s.authz.phase ((), readUse) = .decided start (some v))
    (hversion : s.authz.version () = some (v, stored)) (hx : x ∈ s.authz.log)
    (hv : authzStamp x.state = v) (hrow : (permissionRow x.state "r1" "orders").isSome) :
    CalmEvent (fun _ => ()) orderReads s (now, .begin () use) := by
  intro v' hfresh start' v₀ hdecided
  obtain ⟨_, heq, -⟩ := freshValue_eq_some hfresh
  rw [hversion] at heq
  rw [h] at hdecided
  cases heq
  cases hdecided
  exact ⟨x, x, ⟨hx, .inl hrow⟩, ⟨hx, .inl hrow⟩, hv, hv, rfl⟩

/-- A statement that leaves no permissions. -/
theorem calm_empty (h : ∀ phase write, setPermissionStep s.authz.tables uuid isoNow (s.call ()) =
    some (phase, some write) → write.apply s.authz.tables .rolePermissions = []) :
    CalmEvent (fun _ => ()) orderReads s (now, .statement () uuid isoNow) := by
  intro phase write hstep roleId slug row hrow
  have hnone : permissionRow (write.apply s.authz.tables) roleId slug = none := by
    unfold permissionRow authzRow
    rw [h phase write hstep]
    exact ite_self _
  rw [hnone] at hrow
  cases hrow

/-- A statement that gives a version that no state has had. -/
theorem calm_newVersion (h : ∀ phase write, setPermissionStep s.authz.tables uuid isoNow
    (s.call ()) = some (phase, some write) →
    ∀ x ∈ s.authz.log, authzStamp x.state ≠ authzStamp (write.apply s.authz.tables)) :
    CalmEvent (fun _ => ()) orderReads s (now, .statement () uuid isoNow) :=
  fun phase write hstep _ _ _ _ x hx hv => absurd hv (h phase write hstep x hx.1)

end

/-- A role whose permission was changed before its request is served by the new row. -/
theorem readersAtomic_changed : ∃ s : PermissionState Unit Unit Unit (Option Int),
    s.answer () readUse = some (.allowed true) ∧ (s.answer () .rowFilter).isSome ∧
      ReadersAtomic orderReads s := by
  have h0 : (permissionSystem (fun _ : Unit => ()) (fun _ : Unit => ()) orderReads).Reach
      (CalmEvent (fun _ => ()) orderReads) newReaders :=
    .init ⟨rfl, fun _ => rfl, fun _ _ _ => rfl, fun _ => rfl, fun _ => rfl, fun _ _ => rfl⟩
  have hset : CalmEvent (fun _ => ()) orderReads newReaders
      (1, .setPermission () (readOrdersOf none)) := trivial
  have h1 := h0.step hset rfl
  have h2 := h1.step (a := (2, .statement () "p2" "2024-01-02")) (calm_read rfl) rfl
  have h3 := h2.step (a := (3, .statement () "p2" "2024-01-02")) (calm_empty ?_) rfl
  have h4 := h3.step (a := (4, .statement () "p2" "2024-01-02")) (calm_newVersion ?_) rfl
  have h5 := h4.step (a := (5, .statement () "p2" "2024-01-02")) (calm_read rfl) rfl
  have h6 := h5.step (a := (6, .begin () readUse)) (calm_unversioned rfl) rfl
  have h7 := h6.step (a := (6, .query () readUse)) (calm_versionAsked rfl) rfl
  have h8 := h7.step (a := (6, .answer () readUse false)) (calm_versionRead rfl) rfl
  have h9 := h8.step (a := (6, .query () readUse))
    (calm_rowAsked rfl List.mem_cons_self rfl rfl rfl) rfl
  have h10 := h9.step (a := (6, .answer () readUse false)) (calm_rowRead rfl) rfl
  have h11 := h10.step (a := (6, .begin () .rowFilter))
    (calm_begin rfl rfl List.mem_cons_self rfl rfl) rfl
  · exact ⟨_, rfl, rfl, readersAtomic_of_reach h11⟩
  · intro phase write hstep
    cases hstep
    intro x hx
    rcases List.mem_cons.1 hx with rfl | hx
    · decide
    · rw [List.mem_singleton.1 hx]
      decide
  · intro phase write hstep
    cases hstep
    rfl
end HeadlessErp
