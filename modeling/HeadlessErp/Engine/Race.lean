import HeadlessErp.Engine.Path

/-!
# Racing requests

A request reads the state of a document after some commits. While it is pending, its document is in that
state with no commit in between, or has left the state with one (`RaceInvariant`): where no commit brings
back a state that is pending, a compare-and-set goes through in the first case only, so of the requests
that have read the same occurrence of a state one at most commits (`pathSafe_of_unreturned`).
-/

namespace HeadlessErp

namespace EngineCalls
variable {ι N : Type} [JsNumber N]

/-- What a pending request has read is still the state, or the document has moved on since. -/
structure RaceInvariant (W : EngineCalls ι N) (s : EngineState ι N) : Prop extends PathInvariant W s where
  raced : ∀ i state, (s.phase i).pending = some state →
    (s.observed i = (W.commitsOn s (W.record i)).length ∧ W.current s (W.record i) = state) ∨
      (s.observed i < (W.commitsOn s (W.record i)).length ∧ W.current s (W.record i) ≠ state)
  earlier : ∀ r, ∀ c ∈ W.commitsOn s r, c.observed < (W.commitsOn s r).length
  oneWinner : ∀ r, ((W.commitsOn s r).map (·.observed)).Nodup

variable {W : EngineCalls ι N} {s s' : EngineState ι N} {i : ι}

theorem RaceInvariant.pathSafe (h : RaceInvariant W s) (r : String × String) : W.PathSafe s r where
  path := h.path r
  current := h.current r
  permitted c hc := h.permitted c (List.mem_filter.1 hc).1
  oneWinner := h.oneWinner r

variable [DecidableEq ι]

/-! ## Steps -/

theorem RaceInvariant.chosen (h : RaceInvariant W s) {current : String} {t : WorkflowTransition}
    (hchoose : (W.workflow (W.record i).1).choose (recorded s (W.record i)) (W.requests i).toState =
      .ok (current, t)) :
    RaceInvariant W
      ((s.observe i (W.commitsOn s (W.record i)).length).enter i (.reading current t)) where
  toPathInvariant := h.toPathInvariant.chosen hchoose _
  earlier := h.earlier
  oneWinner := h.oneWinner
  raced j state hj := by
    change (Function.update s.phase i (.reading current t) j).pending = some state at hj
    show (Function.update s.observed i _ j = _ ∧ _) ∨ (Function.update s.observed i _ j < _ ∧ _)
    obtain rfl | hne := eq_or_ne j i
    · rw [Function.update_self] at hj ⊢
      obtain rfl := Option.some.inj hj
      exact .inl ⟨rfl, (WorkflowRow.choose_eq_ok hchoose).1.symm⟩
    · rw [Function.update_of_ne hne] at hj ⊢
      exact h.raced j state hj

omit [DecidableEq ι] in
/-- The commit is by a request that no other has overtaken. -/
theorem RaceInvariant.observed_eq (h : RaceInvariant W s) {d : Drive N} {state : String}
    (hph : s.phase i = .committing d)
    (hstate : transitionState (recorded s (W.record i)) d.current d.transition.toState = some state) :
    s.observed i = (W.commitsOn s (W.record i)).length := by
  obtain ⟨hcurrent, -⟩ := h.current_eq hph hstate
  obtain ⟨heq, -⟩ | ⟨-, hne⟩ := h.raced i d.current (by rw [hph]; rfl)
  · exact heq
  · exact absurd hcurrent hne

theorem RaceInvariant.committed (h : RaceInvariant W s) {d : Drive N} {state : String}
    (hph : s.phase i = .committing d)
    (hstate : transitionState (recorded s (W.record i)) d.current d.transition.toState = some state)
    (hun : ∀ j, W.record j = W.record i → (s.phase j).pending ≠ some state) :
    RaceInvariant W
      (((s.setState (W.record i).1 (W.record i).2 state).addCommit i d).enter i (.logging d)) := by
  have hobserved := h.observed_eq hph hstate
  refine ⟨h.toPathInvariant.committed hph hstate, fun j st hj => ?_, fun r c hc => ?_, fun r => ?_⟩
  · change (Function.update s.phase i (.logging d) j).pending = some st at hj
    show (s.observed j = _ ∧ _) ∨ (s.observed j < _ ∧ _)
    have hne : j ≠ i := by
      rintro rfl
      rw [Function.update_self] at hj
      cases hj
    rw [Function.update_of_ne hne] at hj
    rw [commitsOn_commit, EngineCalls.current, recorded_commit]
    split
    · next hr =>
      have hle : s.observed j ≤ (W.commitsOn s (W.record j)).length := by
        obtain ⟨heq, -⟩ | ⟨hlt, -⟩ := h.raced j st hj
        · exact heq.le
        · exact hlt.le
      refine .inr ⟨Nat.lt_succ_of_le hle, fun heq => hun j hr ?_⟩
      rw [hj, ← heq]
      rfl
    · exact h.raced j st hj
  · rw [commitsOn_commit] at hc ⊢
    split at hc
    · next hr =>
      subst hr
      rw [if_pos rfl]
      obtain rfl | hc := List.mem_cons.1 hc
      · exact Nat.lt_succ_of_le hobserved.le
      · exact Nat.lt_succ_of_lt (h.earlier _ c hc)
    · next hr =>
      rw [if_neg hr]
      exact h.earlier r c hc
  · rw [commitsOn_commit]
    split
    · next hr =>
      subst hr
      refine List.nodup_cons.2 ⟨fun hmem => ?_, h.oneWinner _⟩
      obtain ⟨c, hc, heq⟩ := List.mem_map.1 hmem
      have hlt := h.earlier _ c hc
      rw [heq, hobserved] at hlt
      exact Nat.lt_irrefl _ hlt
    · exact h.oneWinner r

theorem RaceInvariant.stepCase (h : RaceInvariant W s) {a : TransitionStep N}
    (hun : W.Unreturned s (.call i a)) (hcase : W.StepCase s i a s') : RaceInvariant W s' := by
  have hpath := h.toPathInvariant.stepCase hcase
  cases hcase with
  | chosen hchoose => exact h.chosen hchoose
  | committed hph hstate => exact h.committed hph hstate (hun _ _ hph hstate)
  | @quiet a s' ph hstates hcommits hobserved hphase hok hpending =>
    have hcurrent (r : String × String) : W.current s' r = W.current s r := by
      rw [EngineCalls.current, recorded, hstates]
      rfl
    have hon (r : String × String) : W.commitsOn s' r = W.commitsOn s r := by
      rw [commitsOn, hcommits]
      rfl
    refine ⟨hpath, ?_, fun r => ?_, fun r => ?_⟩
    · simp only [hon, hcurrent, hobserved, hphase]
      exact forall_update (P := fun j ph => ∀ state, ph.pending = some state →
        (s.observed j = (W.commitsOn s (W.record j)).length ∧ W.current s (W.record j) = state) ∨
          (s.observed j < (W.commitsOn s (W.record j)).length ∧ W.current s (W.record j) ≠ state))
        h.raced fun state hstate => h.raced i state (hpending state hstate)
    · rw [hon]
      exact h.earlier r
    · rw [hon]
      exact h.oneWinner r

theorem RaceInvariant.step (h : RaceInvariant W s) {a : EngineAction ι N} (hun : W.Unreturned s a)
    (hstep : W.system.step s a = some s') : RaceInvariant W s' := by
  cases a with
  | call i a => exact h.stepCase hun (stepCase_of_stepCall hstep)
  | outbox entries =>
    have hpath := h.toPathInvariant.step hstep
    obtain rfl := Option.some.inj hstep
    exact ⟨hpath, h.raced, h.earlier, h.oneWinner⟩

theorem raceInvariant_init (h : W.system.init s) : RaceInvariant W s := by
  have hpath := pathInvariant_init h
  obtain ⟨hidle, -, hcommits, -⟩ := h
  have hon (r : String × String) : W.commitsOn s r = [] := by
    rw [commitsOn, hcommits]
    rfl
  refine ⟨hpath, fun i state hstate => ?_, fun r c hc => ?_, fun r => ?_⟩
  · rw [hidle i] at hstate
    cases hstate
  · rw [hon] at hc
    cases hc
  · rw [hon]
    exact List.nodup_nil

/-! ## Runs -/

/-- Where no commit brings back a state that a pending request has read, each history is a path of
permitted transitions, and of the requests racing from a state one at most commits. -/
theorem pathSafe_of_unreturned (h : W.system.Reach W.Unreturned s) (r : String × String) :
    W.PathSafe s r := by
  have hrace : RaceInvariant W s :=
    h.invariant (fun _ => raceInvariant_init) fun _ _ _ hs hun hstep => hs.step hun hstep
  exact hrace.pathSafe r

end EngineCalls

/-! ## A document that is sent back -/

/-- A workflow in which a document can be sent back for changes. -/
def reviewWorkflow : WorkflowRow where
  id := "w1"
  definition := {
    name := "review"
    initial := "draft"
    states := ["draft", "review"]
    transitions := [
      { id := "submit", fromState := "draft", toState := "review", triggerPlugins := ["mail"] },
      { id := "return", fromState := "review", toState := "draft" }] }

/-- Two requests submit a document, and one sends it back. -/
inductive ReviewRequest where
  | submit
  | resubmit
  | sendBack
  deriving DecidableEq

/-- The requests, all on one document. -/
def reviewCalls : EngineCalls ReviewRequest (Option Int) where
  workflow _ := reviewWorkflow
  requests
    | .submit | .resubmit => ⟨"posts", "p1", "review", none, none⟩
    | .sendBack => ⟨"posts", "p1", "draft", none, none⟩
  registry _ := none

/-- Before the requests. -/
def reviewState : EngineState ReviewRequest (Option Int) where
  states _ _ := none
  history := []
  entries := []
  phase _ := .idle
  commits := []
  created := []
  observed _ := 0

theorem reviewState_init : reviewCalls.system.init reviewState :=
  ⟨fun _ => rfl, fun _ _ => rfl, rfl, rfl⟩

/-- A request that has read the state commits. -/
def commitSteps (i : ReviewRequest) : List (EngineAction ReviewRequest (Option Int)) :=
  [.call i (.read (.ok [])), .call i (.hook none), .call i (.commit none)]

/-- Two requests read that a document is a draft. One submits it, it is sent back, and the other one, which
has read the draft before all this, submits it again. -/
theorem stale_request_commits :
    ¬ ∀ (ι N : Type) (_ : JsNumber N) (_ : DecidableEq ι) (W : EngineCalls ι N) (s : EngineState ι N),
        W.system.Reachable s → ∀ r, W.PathSafe s r := by
  intro h
  have hinit : reviewCalls.system.Reachable reviewState := .init reviewState_init
  have hrun : (reviewCalls.system.run reviewState
      ([.call .submit .begin, .call .resubmit .begin] ++ commitSteps .resubmit ++
        [.call .sendBack .begin] ++ commitSteps .sendBack ++ commitSteps .submit)).isSome = true := rfl
  have hsafe := h ReviewRequest (Option Int) _ _ reviewCalls _
    (hinit.run (Option.some_get hrun).symm) ("posts", "p1")
  have hnodup : [0, 1, 0].Nodup := hsafe.oneWinner
  simp at hnodup

/-- Two requests race to submit a document: one commits. -/
theorem pathSafe_of_unreturned_race : ∃ s, reviewCalls.system.Reach reviewCalls.Unreturned s ∧
    s.commits.length = 1 ∧ reviewCalls.PathSafe s ("posts", "p1") := by
  have h₀ : reviewCalls.system.Reach reviewCalls.Unreturned reviewState := .init reviewState_init
  have h₁ := h₀.step (a := .call .submit .begin) (by exact trivial) rfl
  have h₂ := h₁.step (a := .call .resubmit .begin) (by exact trivial) rfl
  have h₃ := h₂.step (a := .call .submit (.read (.ok []))) (by exact trivial) rfl
  have h₄ := h₃.step (a := .call .submit (.hook none)) (by exact trivial) rfl
  have h₅ := h₄.step (a := .call .submit (.commit none)) (by
    intro d state hd hstate j _ hj
    obtain rfl := TransitionPhase.committing.inj hd
    obtain rfl := Option.some.inj hstate
    have hpending : none = some "review" ∨ some "draft" = some "review" := by
      cases j with
      | submit => exact .inr hj
      | resubmit => exact .inr hj
      | sendBack => exact .inl hj
    simp at hpending) rfl
  exact ⟨_, h₅, rfl, EngineCalls.pathSafe_of_unreturned h₅ _⟩

end HeadlessErp
