import HeadlessErp.Engine.Transition

/-!
# Paths of transitions

The committed states of a document. The compare-and-set of `transitionState` compares states, so the
commits are a path in every run (`PathInvariant`); that a state was not left and entered again since a
request read it is a condition on the run (`Unreturned`), under which one request at most commits of
those that have read the same occurrence of a state.
-/

namespace HeadlessErp

namespace EngineCalls
variable {ι N : Type} [JsNumber N] (W : EngineCalls ι N)

/-! ## The property -/

/-- The state that commits lead to, the latest first. -/
def lastState (initial : String) : List (StateCommit ι N) → String
  | [] => initial
  | c :: _ => c.drive.transition.toState

/-- Each commit starts where the one before it has ended. -/
def IsPath (initial : String) : List (StateCommit ι N) → Prop
  | [] => True
  | c :: cs => c.drive.current = lastState initial cs ∧ IsPath initial cs

/-- The request of a call may drive a transition: it is declared, the caller has one of its roles, and
its guard passes on the document that was read. -/
structure Permitted (i : ι) (d : Drive N) : Prop where
  declared : d.transition ∈ (W.workflow (W.requests i).collectionSlug).definition.transitions
  fromState : d.transition.fromState = d.current
  toState : d.transition.toState = (W.requests i).toState
  role : d.transition.roleAllowed (W.requests i).auth = true
  guard : d.transition.guardPasses W.registry d.doc (W.requests i).auth d.current
    d.transition.toState = .ok ()

/-- The history of a document: a path of permitted transitions from the initial state to the state it is
in. Of the requests that read the state after the same commits, one at most has committed. -/
structure PathSafe (s : EngineState ι N) (r : String × String) : Prop where
  path : IsPath (W.workflow r.1).definition.initial (W.commitsOn s r)
  current : W.current s r = lastState (W.workflow r.1).definition.initial (W.commitsOn s r)
  permitted : ∀ c ∈ W.commitsOn s r, W.Permitted c.caller c.drive
  oneWinner : ((W.commitsOn s r).map (·.observed)).Nodup

end EngineCalls

/-- The state that a call has read, until it commits. -/
def TransitionPhase.pending {N : Type} : TransitionPhase N → Option String
  | reading current _ => some current
  | hooking d | committing d => some d.current
  | _ => none

namespace EngineCalls
variable {ι N : Type} [JsNumber N] (W : EngineCalls ι N)

/-- The condition on a step: a commit does not bring a document back to a state that a request which has
not committed yet has read. -/
def Unreturned (s : EngineState ι N) : EngineAction ι N → Prop
  | .call i (.commit none) => ∀ d state, s.phase i = .committing d →
    transitionState (recorded s (W.record i)) d.current d.transition.toState = some state →
    ∀ j, W.record j = W.record i → (s.phase j).pending ≠ some state
  | _ => True

/-! ## What a step does -/

/-- What a call knows of the transition it has chosen. -/
def PhaseOk (i : ι) : TransitionPhase N → Prop
  | .reading current t =>
    t ∈ (W.workflow (W.requests i).collectionSlug).definition.transitions ∧ t.fromState = current ∧
      t.toState = (W.requests i).toState ∧ current ≠ t.toState
  | .hooking d | .committing d => W.Permitted i d ∧ d.current ≠ d.transition.toState
  | _ => True

variable [DecidableEq ι]

/-- A step of a call: it chooses a transition, commits it, or leaves the states and the commits. -/
inductive StepCase (s : EngineState ι N) (i : ι) : TransitionStep N → EngineState ι N → Prop where
  | chosen {current : String} {t : WorkflowTransition} :
    (W.workflow (W.record i).1).choose (recorded s (W.record i)) (W.requests i).toState =
      .ok (current, t) →
    StepCase s i .begin
      ((s.observe i (W.commitsOn s (W.record i)).length).enter i (.reading current t))
  | committed {d : Drive N} {state : String} : s.phase i = .committing d →
    transitionState (recorded s (W.record i)) d.current d.transition.toState = some state →
    StepCase s i (.commit none)
      (((s.setState (W.record i).1 (W.record i).2 state).addCommit i d).enter i (.logging d))
  | quiet {a : TransitionStep N} {s' : EngineState ι N} {ph : TransitionPhase N} :
    s'.states = s.states →
    s'.commits = s.commits → s'.observed = s.observed → s'.phase = Function.update s.phase i ph →
    (W.PhaseOk i (s.phase i) → W.PhaseOk i ph) →
    (∀ state, ph.pending = some state → (s.phase i).pending = some state) → StepCase s i a s'

omit [DecidableEq ι] in
theorem phaseOk_next (i : ι) (d : Drive N) (o : SyncOutcome) (todo ids : List String) :
    W.PhaseOk i (d.next o todo ids) ∧ (d.next o todo ids).pending = none := by
  cases todo <;> exact ⟨trivial, rfl⟩

omit [DecidableEq ι] in
theorem phaseOk_sync (i : ι) (d : Drive N) (o : SyncOutcome) (todo : List SyncTarget) :
    W.PhaseOk i (d.sync o todo) ∧ (d.sync o todo).pending = none := by
  cases todo with
  | nil => exact W.phaseOk_next i d o _ _
  | cons target todo => exact ⟨trivial, rfl⟩

variable {W} {s s' : EngineState ι N} {i : ι} {a : TransitionStep N}

/-- A step that only moves a call on, to a phase that has no transition pending. -/
theorem StepCase.settled {ph : TransitionPhase N} (hstates : s'.states = s.states)
    (hcommits : s'.commits = s.commits) (hobserved : s'.observed = s.observed)
    (hphase : s'.phase = Function.update s.phase i ph) (h : W.PhaseOk i ph ∧ ph.pending = none) :
    W.StepCase s i a s' := by
  refine .quiet hstates hcommits hobserved hphase (fun _ => h.1) fun state hstate => ?_
  rw [h.2] at hstate
  cases hstate

theorem stepCase_begin : W.StepCase s i .begin (W.begin s i) := by
  unfold begin
  simp only
  split
  · exact .settled rfl rfl rfl rfl ⟨trivial, rfl⟩
  · next hchoose => exact .chosen hchoose

theorem stepCase_read {current : String} {t : WorkflowTransition}
    (hph : s.phase i = .reading current t) (doc : Except String (Record N)) :
    W.StepCase s i a (W.read s i current t doc) := by
  unfold read
  split
  · exact .settled rfl rfl rfl rfl ⟨trivial, rfl⟩
  · next doc =>
    split
    · exact .settled rfl rfl rfl rfl ⟨trivial, rfl⟩
    · next hcheck =>
      obtain ⟨hguard, hrole⟩ := WorkflowTransition.check_eq_ok hcheck
      refine .quiet rfl rfl rfl rfl (fun hok => ?_) fun state hstate => ?_
      · rw [hph] at hok
        obtain ⟨hdeclared, hfrom, hto, hne⟩ := hok
        exact ⟨⟨hdeclared, hfrom, hto, hrole, hto ▸ hguard⟩, hne⟩
      · rw [hph]
        exact hstate

theorem stepCase_enqueue {d : Drive N} {o : SyncOutcome} {plugin : String} {todo ids : List String}
    {now : Int} {uuid : String} (h : W.enqueue s i d o plugin todo ids now uuid = some s') :
    W.StepCase s i a s' := by
  unfold enqueue at h
  simp only at h
  split at h
  · cases h
  · split at h
    · obtain rfl := Option.some.inj h
      exact .settled rfl rfl rfl rfl (W.phaseOk_next i d o _ _)
    · obtain rfl := Option.some.inj h
      exact .settled rfl rfl rfl rfl ⟨trivial, rfl⟩

/-- What a step of a call does to the states and the commits. -/
theorem stepCase_of_stepCall (h : W.stepCall s i a = some s') :
    W.StepCase s i a s' := by
  unfold stepCall at h
  split at h
  · obtain rfl := Option.some.inj h
    exact stepCase_begin
  · next hph =>
    obtain rfl := Option.some.inj h
    exact stepCase_read hph _
  · next d hph =>
    obtain rfl := Option.some.inj h
    refine .quiet rfl rfl rfl rfl (fun hok => ?_) fun state hstate => ?_
    · rwa [hph] at hok
    · rw [hph]
      exact hstate
  · obtain rfl := Option.some.inj h
    exact .settled rfl rfl rfl rfl ⟨trivial, rfl⟩
  · next d hph =>
    obtain rfl := Option.some.inj h
    unfold commit
    simp only
    split
    · next hstate => exact .committed hph hstate
    · exact .settled rfl rfl rfl rfl ⟨trivial, rfl⟩
  · obtain rfl := Option.some.inj h
    exact .settled rfl rfl rfl rfl ⟨trivial, rfl⟩
  · obtain rfl := Option.some.inj h
    exact .settled rfl rfl rfl rfl (W.phaseOk_sync i _ _ _)
  · obtain rfl := Option.some.inj h
    exact .settled rfl rfl rfl rfl ⟨trivial, rfl⟩
  · obtain rfl := Option.some.inj h
    exact .settled rfl rfl rfl rfl (W.phaseOk_sync i _ _ _)
  · exact stepCase_enqueue h
  · obtain rfl := Option.some.inj h
    exact .settled rfl rfl rfl rfl ⟨trivial, rfl⟩
  · obtain rfl := Option.some.inj h
    exact .settled rfl rfl rfl rfl (W.phaseOk_next i _ _ _ _)
  · obtain rfl := Option.some.inj h
    exact .settled rfl rfl rfl rfl ⟨trivial, rfl⟩
  · split at h
    · cases h
    · obtain rfl := Option.some.inj h
      exact .settled rfl rfl rfl rfl ⟨trivial, rfl⟩
  · cases h

/-! ## Every run -/

/-- What holds in every run: each history is a path of permitted transitions to the state that is
recorded, and a call that has found no state starts from the initial one. -/
structure PathInvariant (W : EngineCalls ι N) (s : EngineState ι N) : Prop where
  phases : ∀ i, W.PhaseOk i (s.phase i)
  path : ∀ r, IsPath (W.workflow r.1).definition.initial (W.commitsOn s r)
  current : ∀ r, W.current s r = lastState (W.workflow r.1).definition.initial (W.commitsOn s r)
  permitted : ∀ c ∈ s.commits, W.Permitted c.caller c.drive
  initial : ∀ i state, (s.phase i).pending = some state → recorded s (W.record i) = none →
    state = (W.workflow (W.record i).1).definition.initial

omit [JsNumber N] in
/-- The tables after a commit. -/
theorem recorded_commit (W : EngineCalls ι N) (s : EngineState ι N) (i : ι) (d : Drive N)
    (state : String) (ph : TransitionPhase N) (r : String × String) :
    recorded (((s.setState (W.record i).1 (W.record i).2 state).addCommit i d).enter i ph) r =
      if r = W.record i then some state else recorded s r := by
  obtain ⟨slug, id⟩ := r
  show Function.update s.states (W.record i).1 _ slug id = _
  by_cases hslug : slug = (W.record i).1
  · subst hslug
    rw [Function.update_self]
    by_cases hid : id = (W.record i).2
    · subst hid
      rw [Function.update_self, if_pos rfl]
    · rw [Function.update_of_ne hid, if_neg fun h => hid (congrArg Prod.snd h)]
      rfl
  · rw [Function.update_of_ne hslug, if_neg fun h => hslug (congrArg Prod.fst h)]
    rfl

omit [JsNumber N] in
theorem commitsOn_commit (W : EngineCalls ι N) (s : EngineState ι N) (i : ι) (d : Drive N)
    (state : String) (ph : TransitionPhase N) (r : String × String) :
    W.commitsOn (((s.setState (W.record i).1 (W.record i).2 state).addCommit i d).enter i ph) r =
      if r = W.record i then ⟨i, d, s.observed i⟩ :: W.commitsOn s r else W.commitsOn s r := by
  show List.filter _ (⟨i, d, s.observed i⟩ :: s.commits) = _
  rw [List.filter_cons]
  by_cases hr : r = W.record i
  · subst hr
    simp [commitsOn]
  · simp [commitsOn, hr, Ne.symm hr]

omit [DecidableEq ι] in
/-- A compare-and-set that goes through finds the state that was read. -/
theorem PathInvariant.current_eq (h : PathInvariant W s) {d : Drive N} {state : String}
    (hph : s.phase i = .committing d)
    (hstate : transitionState (recorded s (W.record i)) d.current d.transition.toState = some state) :
    W.current s (W.record i) = d.current ∧ state = d.transition.toState := by
  unfold transitionState at hstate
  split at hstate
  · next hnone =>
    have hinitial := h.initial i d.current (by rw [hph]; rfl) hnone
    exact ⟨by rw [EngineCalls.current, hnone, hinitial]; rfl, (Option.some.inj hstate).symm⟩
  · next found hfound =>
    split at hstate
    · next heq =>
      exact ⟨by rw [EngineCalls.current, hfound, ← heq]; rfl, (Option.some.inj hstate).symm⟩
    · cases hstate

omit [JsNumber N] in
/-- The phases of the calls after one has entered a phase. -/
theorem forall_update {P : ι → TransitionPhase N → Prop} (h : ∀ j, P j (s.phase j))
    {ph : TransitionPhase N} (hph : P i ph) (j : ι) : P j (Function.update s.phase i ph j) := by
  obtain rfl | hj := eq_or_ne j i
  · rwa [Function.update_self]
  · rw [Function.update_of_ne hj]
    exact h j

theorem PathInvariant.chosen (h : PathInvariant W s) {current : String} {t : WorkflowTransition}
    (hchoose : (W.workflow (W.record i).1).choose (recorded s (W.record i)) (W.requests i).toState =
      .ok (current, t)) (n : Nat) :
    PathInvariant W ((s.observe i n).enter i (.reading current t)) := by
  obtain ⟨hcurrent, hdeclared, hfrom, hto, hne⟩ := WorkflowRow.choose_eq_ok hchoose
  refine ⟨forall_update h.phases ⟨hdeclared, hfrom, hto, hto ▸ hne⟩, h.path, h.current, h.permitted,
    forall_update (P := fun i ph => ∀ state, ph.pending = some state →
      recorded s (W.record i) = none → state = (W.workflow (W.record i).1).definition.initial)
      h.initial fun state hstate hnone => ?_⟩
  obtain rfl := Option.some.inj hstate
  rw [hcurrent, hnone]
  rfl

theorem PathInvariant.committed (h : PathInvariant W s) {d : Drive N} {state : String}
    (hph : s.phase i = .committing d)
    (hstate : transitionState (recorded s (W.record i)) d.current d.transition.toState = some state) :
    PathInvariant W
      (((s.setState (W.record i).1 (W.record i).2 state).addCommit i d).enter i (.logging d)) := by
  obtain ⟨hcurrent, rfl⟩ := h.current_eq hph hstate
  have hok : W.Permitted i d ∧ d.current ≠ d.transition.toState := by
    have := h.phases i
    rwa [hph] at this
  refine ⟨forall_update h.phases trivial, fun r => ?_, fun r => ?_, fun c hc => ?_, fun j st hj hnone => ?_⟩
  · rw [commitsOn_commit]
    split
    · next hr =>
      subst hr
      exact ⟨hcurrent.symm.trans (h.current _), h.path _⟩
    · exact h.path r
  · rw [commitsOn_commit, EngineCalls.current, recorded_commit]
    split
    · rfl
    · exact h.current r
  · obtain rfl | hc := List.mem_cons.1 hc
    · exact hok.1
    · exact h.permitted c hc
  · rw [recorded_commit] at hnone
    split at hnone
    · cases hnone
    · next hr =>
      have hne : j ≠ i := fun heq => hr (heq ▸ rfl)
      change (Function.update s.phase i _ j).pending = _ at hj
      rw [Function.update_of_ne hne] at hj
      exact h.initial j st hj hnone

theorem PathInvariant.stepCase (h : PathInvariant W s) (hcase : W.StepCase s i a s') :
    PathInvariant W s' := by
  cases hcase with
  | chosen hchoose => exact h.chosen hchoose _
  | committed hph hstate => exact h.committed hph hstate
  | @quiet a s' ph hstates hcommits hobserved hphase hok hpending =>
    have hrecorded (r : String × String) : recorded s' r = recorded s r := by
      rw [recorded, hstates]
      rfl
    have hon (r : String × String) : W.commitsOn s' r = W.commitsOn s r := by
      rw [commitsOn, hcommits]
      rfl
    refine ⟨?_, fun r => hon r ▸ h.path r, fun r => ?_, hcommits ▸ h.permitted, ?_⟩
    · rw [hphase]
      exact forall_update h.phases (hok (h.phases i))
    · rw [hon, EngineCalls.current, hrecorded]
      exact h.current r
    · rw [hphase]
      simp only [hrecorded]
      exact forall_update (P := fun i ph => ∀ state, ph.pending = some state →
        recorded s (W.record i) = none → state = (W.workflow (W.record i).1).definition.initial)
        h.initial fun state hstate => h.initial i state (hpending state hstate)

theorem PathInvariant.step (h : PathInvariant W s) {a : EngineAction ι N}
    (hstep : W.system.step s a = some s') : PathInvariant W s' := by
  cases a with
  | call i a => exact h.stepCase (stepCase_of_stepCall hstep)
  | outbox entries =>
    obtain rfl := Option.some.inj hstep
    exact ⟨h.phases, h.path, h.current, h.permitted, h.initial⟩

theorem pathInvariant_init (h : W.system.init s) : PathInvariant W s := by
  obtain ⟨hidle, hstates, hcommits, -⟩ := h
  have hon (r : String × String) : W.commitsOn s r = [] := by
    rw [commitsOn, hcommits]
    rfl
  refine ⟨fun i => ?_, fun r => ?_, fun r => ?_, fun c hc => ?_, fun i state hstate => ?_⟩
  · rw [hidle i]
    trivial
  · rw [hon]
    trivial
  · rw [hon, EngineCalls.current, recorded, hstates]
    rfl
  · rw [hcommits] at hc
    cases hc
  · rw [hidle i] at hstate
    cases hstate

end EngineCalls

end HeadlessErp
