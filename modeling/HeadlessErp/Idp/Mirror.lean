import HeadlessErp.Idp.Promotion

/-!
# The status mirrors the workflow

In a run in which no transition commits while another one waits for its mirror, and no snapshot
marks a deployment live that the workflow has not brought there, the status column follows the
workflow: at most one transition is between its commit and its mirror, and the column then has the
state it leaves or the state it enters (`Standing`).
-/

namespace HeadlessErp.Idp

section
variable {ι : Type} {w : WorkflowRow} {s s' : Board ι} {i : ι} {m : Move}

/-! ## Paths -/

/-- The workflow has a transition between the states. -/
def Declared (w : WorkflowRow) (source target : String) : Prop :=
  ∃ t ∈ w.definition.transitions, t.fromState = source ∧ t.toState = target

/-- A list of transitions leads from one state to another, each declared. -/
inductive Leads (w : WorkflowRow) : String → List (String × String) → String → Prop where
  | nil (state : String) : Leads w state [] state
  | cons {source target last : String} {history : List (String × String)} :
    Declared w source target → Leads w target history last →
      Leads w source ((source, target) :: history) last

theorem Leads.snoc {first source target : String} {history : List (String × String)}
    (h : Leads w first history source) (hdeclared : Declared w source target) :
    Leads w first (history ++ [(source, target)]) target := by
  induction h with
  | nil state => exact .cons hdeclared (.nil target)
  | cons hstep _ ih => exact .cons hstep (ih hdeclared)

/-- The history leads from the workflow's first state to a state. -/
def Board.LeadsTo (w : WorkflowRow) (s : Board ι) (state : String) : Prop :=
  Leads w w.definition.initial s.history state

/-! ## The property -/

/-- No call is in flight. -/
def Board.Quiet (s : Board ι) : Prop := ∀ i, s.phase i = .idle ∨ s.phase i = .done

/-- The status is the workflow's state, the history is a path to it, each write of the status leaves
it or is a declared transition, and the live events are no more than the entries into `live`. -/
structure Mirrored (w : WorkflowRow) (s : Board ι) : Prop where
  status : s.status = s.current w
  history : s.LeadsTo w (s.current w)
  moves : ∀ x ∈ s.moves, x.1 = x.2 ∨ Declared w x.1 x.2
  events : s.events ≤ s.entered

/-- The condition on a step: a commit finds no transition that waits for its mirror, and the
deployment is marked live where the workflow is. -/
def Orderly [DecidableEq ι] (w : WorkflowRow) (s : Board ι) (a : ι × BoardStep) : Prop :=
  (a.2 = .commit → ∀ j, (s.phase j).pending = none) ∧ (a.2 = .mark → s.current w = "live")

/-! ## The invariant -/

/-- Where the status and the history stand: at the workflow's state, or in the middle of the one
transition that is not mirrored yet. -/
inductive Standing (w : WorkflowRow) (s : Board ι) : Prop where
  | settled (none : ∀ i, (s.phase i).pending = none) (path : s.LeadsTo w (s.current w))
      (status : s.status = s.current w)
  | moving (i : ι) (m : Move) (logged : Bool) (here : (s.phase i).pending = some (m, logged))
      (others : ∀ j, j ≠ i → (s.phase j).pending = none)
      (path : s.LeadsTo w (if logged then m.target else m.source))
      (declared : Declared w m.source m.target) (current : s.current w = m.target)
      (status : s.status = m.source ∨ s.status = m.target)

/-- What holds of the phase of a call. -/
def PhaseHolds (w : WorkflowRow) (s : Board ι) : Phase → Prop
  | .committing m => Declared w m.source m.target ∧
      (s.state = none → m.source = w.definition.initial)
  | .notifying => 0 < s.entered
  | _ => True

/-- The invariant of the orderly runs. -/
structure BoardInvariant (w : WorkflowRow) (s : Board ι) : Prop where
  standing : Standing w s
  phases : ∀ i, PhaseHolds w s (s.phase i)
  moves : ∀ x ∈ s.moves, x.1 = x.2 ∨ Declared w x.1 x.2
  live : s.current w = "live" → 0 < s.entered
  events : s.events ≤ 1 ∧ (s.queued = false → s.events = 0) ∧ (0 < s.events → 0 < s.entered)

/-- A state with no call in flight has what the claim says. -/
theorem BoardInvariant.mirrored (h : BoardInvariant w s) (hquiet : s.Quiet) : Mirrored w s := by
  have hnone : ∀ i, (s.phase i).pending = none := by
    intro i
    rcases hquiet i with hphase | hphase
    · rw [hphase]
      rfl
    · rw [hphase]
      rfl
  refine ⟨?_, ?_, h.moves, ?_⟩
  · cases h.standing with
    | settled _ _ hstatus => exact hstatus
    | moving i m logged hhere =>
      rw [hnone i] at hhere
      cases hhere
  · cases h.standing with
    | settled _ hpath _ => exact hpath
    | moving i m logged hhere =>
      rw [hnone i] at hhere
      cases hhere
  · have := h.events
    omega

/-! ## Frames -/

section
variable [DecidableEq ι]

@[simp] theorem phase_goto_self (p : Phase) : (s.goto i p).phase i = p := Function.update_self ..

theorem phase_goto_of_ne {j : ι} (h : j ≠ i) (p : Phase) : (s.goto i p).phase j = s.phase j :=
  Function.update_of_ne h ..

/-- Nothing is pending of a call that goes from a phase without a write to another. -/
theorem pending_goto {p : Phase} (hold : (s.phase i).pending = none) (hnew : p.pending = none)
    (j : ι) : ((s.goto i p).phase j).pending = (s.phase j).pending := by
  rcases eq_or_ne j i with rfl | hj
  · rw [phase_goto_self, hold, hnew]
  · rw [phase_goto_of_ne hj]

omit [DecidableEq ι] in
/-- The standing depends on the tables and on what is pending. -/
theorem Standing.congr (h : Standing w s) (hstatus : s'.status = s.status)
    (hstate : s'.state = s.state) (hhistory : s'.history = s.history)
    (hpending : ∀ j, (s'.phase j).pending = (s.phase j).pending) : Standing w s' := by
  have hcurrent : s'.current w = s.current w := congrArg (Option.getD · _) hstate
  have hleads : ∀ state, s'.LeadsTo w state ↔ s.LeadsTo w state := fun state => by
    rw [Board.LeadsTo, hhistory, Board.LeadsTo]
  cases h with
  | settled hnone hpath heq =>
    refine .settled (fun j => (hpending j).trans (hnone j)) ?_ ?_
    · rw [hcurrent]
      exact (hleads _).2 hpath
    · rw [hstatus, hcurrent, heq]
  | moving i m logged hhere hothers hpath hdeclared hat heq =>
    refine .moving i m logged ((hpending i).trans hhere)
      (fun j hj => (hpending j).trans (hothers j hj)) ((hleads _).2 hpath) hdeclared
      (hcurrent.trans hat) ?_
    rw [hstatus]
    exact heq

/-- The phases of the other calls keep what they hold of, where no row of the workflow is lost. -/
theorem phases_goto {p : Phase} (h : ∀ j, PhaseHolds w s (s.phase j))
    (hstate : s'.state = none → s.state = none) (hentered : s.entered ≤ s'.entered)
    (hphase : s'.phase = (s.goto i p).phase) (hnew : PhaseHolds w s' p) (j : ι) :
    PhaseHolds w s' (s'.phase j) := by
  rw [hphase]
  rcases eq_or_ne j i with rfl | hj
  · rw [phase_goto_self]
    exact hnew
  rw [phase_goto_of_ne hj]
  have hj := h j
  revert hj
  cases s.phase j with
  | committing m => exact fun hm => ⟨hm.1, fun hnone => hm.2 (hstate hnone)⟩
  | notifying => exact fun hpos => Nat.lt_of_lt_of_le hpos hentered
  | _ => exact fun _ => True.intro

/-- A step that only moves a call from a phase without a write to another. -/
theorem BoardInvariant.goto (h : BoardInvariant w s) {p : Phase}
    (hold : (s.phase i).pending = none) (hnew : p.pending = none) (hp : PhaseHolds w s p) :
    BoardInvariant w (s.goto i p) where
  standing := h.standing.congr rfl rfl rfl (pending_goto hold hnew)
  phases := phases_goto h.phases id (Nat.le_refl _) rfl hp
  moves := h.moves
  live := h.live
  events := h.events

/-! ## Steps -/

theorem BoardInvariant.start (h : BoardInvariant w s) (hphase : s.phase i = .idle)
    (call : BoardCall) : BoardInvariant w (s.start i call) := by
  have hold : (s.phase i).pending = none := by rw [hphase]; rfl
  cases call with
  | promote => exact h.goto hold rfl True.intro
  | transition toState => exact h.goto hold rfl True.intro
  | applyDeployment => exact h.goto hold rfl True.intro
  | rollbackDeployment => exact h.goto hold rfl True.intro

theorem BoardInvariant.choose (h : BoardInvariant w s) (hphase : s.phase i = .promoting) :
    BoardInvariant w (s.choose w i) := by
  have hold : (s.phase i).pending = none := by rw [hphase]; rfl
  unfold Board.choose
  split
  · exact h.goto hold rfl True.intro
  · exact h.goto hold rfl True.intro

/-- The engine reads the state: the transition that it finds is declared, and out of the first state
if the deployment has no row yet. -/
theorem BoardInvariant.read (h : BoardInvariant w s) {promoted : Bool} {target : String}
    (hphase : s.phase i = .reading promoted target) :
    BoardInvariant w (s.read w i promoted target) := by
  have hold : (s.phase i).pending = none := by rw [hphase]; rfl
  unfold Board.read
  split
  · next current t hchoose =>
    obtain ⟨hcurrent, hmem, hsource, htarget, -⟩ := WorkflowRow.choose_eq_ok hchoose
    refine h.goto hold rfl ⟨⟨t, hmem, hsource, htarget⟩, fun hnone => ?_⟩
    rw [hcurrent, hnone]
    rfl
  · exact h.goto hold rfl True.intro

/-- A commit starts a transition, where none waits for its mirror. -/
theorem BoardInvariant.commit (h : BoardInvariant w s) (hphase : s.phase i = .committing m)
    (hnone : ∀ j, (s.phase j).pending = none) : BoardInvariant w (s.commit i m) := by
  have hold : (s.phase i).pending = none := hnone i
  have hphases := h.phases i
  rw [hphase] at hphases
  obtain ⟨hdeclared, hfirst⟩ := hphases
  unfold Board.commit
  split
  next hstate =>
    -- the state is the one that was read
    have hsource : s.current w = m.source := by
      unfold Board.current
      rcases hs : s.state with _ | state
      · exact (hfirst hs).symm
      · rw [hs] at hstate
        exact of_decide_eq_true hstate
    cases h.standing with
    | moving j m' logged hhere =>
      rw [hnone j] at hhere
      cases hhere
    | settled _ hpath hstatus =>
      refine ⟨?_, ?_, h.moves, ?_, ?_⟩
      · refine .moving i m false ?_ (fun j hj => ?_) ?_ hdeclared rfl ?_
        · exact congrArg Phase.pending (phase_goto_self _)
        · exact (congrArg Phase.pending (phase_goto_of_ne hj _)).trans (hnone j)
        · rw [← hsource]
          exact hpath
        · rw [← hsource]
          exact .inl hstatus
      · refine phases_goto h.phases ?_ (Nat.le_add_right _ _) rfl True.intro
        intro hnone
        cases hnone
      · intro hlive
        have htarget : m.target = "live" := hlive
        show 0 < s.entered + entry m.target
        rw [entry, if_pos htarget]
        exact Nat.succ_pos _
      · have hevents := h.events
        show s.events ≤ 1 ∧ (s.queued = false → s.events = 0) ∧
          (0 < s.events → 0 < s.entered + entry m.target)
        exact ⟨hevents.1, hevents.2.1, fun hpos => Nat.add_pos_left (hevents.2.2 hpos) _⟩
  · exact h.goto hold rfl True.intro

omit [DecidableEq ι] in
/-- The transition that is pending is the one of the call. -/
theorem Standing.of_pending {logged : Bool} (h : Standing w s)
    (hpending : (s.phase i).pending = some (m, logged)) :
    (∀ j, j ≠ i → (s.phase j).pending = none) ∧
      s.LeadsTo w (if logged then m.target else m.source) ∧ Declared w m.source m.target ∧
      s.current w = m.target ∧ (s.status = m.source ∨ s.status = m.target) := by
  cases h with
  | settled hnone =>
    rw [hnone i] at hpending
    cases hpending
  | moving j m' logged' hhere hothers hpath hdeclared hcurrent hstatus =>
    rcases eq_or_ne i j with rfl | hij
    · rw [hhere] at hpending
      obtain ⟨rfl, rfl⟩ := Prod.mk.inj (Option.some.inj hpending)
      exact ⟨hothers, hpath, hdeclared, hcurrent, hstatus⟩
    · rw [hothers i hij] at hpending
      cases hpending

theorem BoardInvariant.log (h : BoardInvariant w s) (hphase : s.phase i = .logging m) :
    BoardInvariant w (s.log i m) := by
  have hpending : (s.phase i).pending = some (m, false) := by rw [hphase]; rfl
  obtain ⟨hothers, hpath, hdeclared, hcurrent, hstatus⟩ := h.standing.of_pending hpending
  refine ⟨?_, phases_goto h.phases id (Nat.le_refl _) rfl True.intro, h.moves, h.live, h.events⟩
  refine .moving i m true ?_ (fun j hj => ?_) (hpath.snoc hdeclared) hdeclared hcurrent hstatus
  · exact congrArg Phase.pending (phase_goto_self _)
  · exact (congrArg Phase.pending (phase_goto_of_ne hj _)).trans (hothers j hj)

omit [DecidableEq ι] in
/-- A write of the state that a transition enters leaves the status, or is the transition. -/
theorem moves_setStatus (hmoves : ∀ x ∈ s.moves, x.1 = x.2 ∨ Declared w x.1 x.2)
    (hdeclared : Declared w m.source m.target)
    (hstatus : s.status = m.source ∨ s.status = m.target) :
    ∀ x ∈ s.moves ++ [(s.status, m.target)], x.1 = x.2 ∨ Declared w x.1 x.2 := by
  intro x hx
  rcases List.mem_append.1 hx with hx | hx
  · exact hmoves x hx
  · rw [List.mem_singleton.1 hx]
    rcases hstatus with hsource | htarget
    · exact .inr (hsource ▸ hdeclared)
    · exact .inl htarget

theorem BoardInvariant.sync (h : BoardInvariant w s) (hphase : s.phase i = .syncing m)
    (succeeds : Bool) : BoardInvariant w (s.sync w i m succeeds) := by
  have hpending : (s.phase i).pending = some (m, true) := by rw [hphase]; rfl
  obtain ⟨hothers, hpath, hdeclared, hcurrent, hstatus⟩ := h.standing.of_pending hpending
  have hhere : ((s.goto i (.mirroring m)).phase i).pending = some (m, true) :=
    congrArg Phase.pending (phase_goto_self _)
  have hrest : ∀ j, j ≠ i → ((s.goto i (.mirroring m)).phase j).pending = none := fun j hj =>
    (congrArg Phase.pending (phase_goto_of_ne hj _)).trans (hothers j hj)
  unfold Board.sync
  split
  · refine ⟨.moving i m true hhere hrest hpath hdeclared hcurrent (.inr rfl),
      phases_goto h.phases id (Nat.le_refl _) rfl True.intro, ?_, h.live, h.events⟩
    exact moves_setStatus h.moves hdeclared hstatus
  · exact ⟨.moving i m true hhere hrest hpath hdeclared hcurrent hstatus,
      phases_goto h.phases id (Nat.le_refl _) rfl True.intro, h.moves, h.live, h.events⟩

/-- The mirror settles the transition. -/
theorem BoardInvariant.mirror (h : BoardInvariant w s) (hphase : s.phase i = .mirroring m) :
    BoardInvariant w (s.mirror i m) := by
  have hpending : (s.phase i).pending = some (m, true) := by rw [hphase]; rfl
  obtain ⟨hothers, hpath, hdeclared, hcurrent, hstatus⟩ := h.standing.of_pending hpending
  unfold Board.mirror
  generalize hp : (if (m.promoted && decide (m.target = "live")) = true then Phase.notifying
    else .done) = p
  have hnone : p.pending = none := by
    rw [← hp]
    split
    · rfl
    · rfl
  refine ⟨.settled (fun j => ?_) ?_ hcurrent.symm, ?_, ?_, h.live, h.events⟩
  · rcases eq_or_ne j i with rfl | hj
    · exact (congrArg Phase.pending (phase_goto_self p)).trans hnone
    · exact (congrArg Phase.pending (phase_goto_of_ne hj p)).trans (hothers j hj)
  · have hgoal : s.LeadsTo w (s.current w) := hcurrent ▸ hpath
    exact hgoal
  · refine phases_goto h.phases id (Nat.le_refl _) rfl ?_
    rw [← hp]
    split
    · next hlive =>
      have htarget : m.target = "live" := of_decide_eq_true (Bool.and_eq_true_iff.1 hlive).2
      exact h.live (hcurrent.trans htarget)
    · exact True.intro
  · exact moves_setStatus h.moves hdeclared hstatus

/-- Marking a deployment live leaves the status, or is the transition that waits for its mirror. -/
theorem BoardInvariant.mark (h : BoardInvariant w s) (hphase : s.phase i = .applying)
    (hlive : s.current w = "live") : BoardInvariant w (s.mark i) := by
  have hold : (s.phase i).pending = none := by rw [hphase]; rfl
  have hpending := pending_goto (p := .notifying) hold rfl
  have hphases : ∀ j, PhaseHolds w (s.mark i) ((s.mark i).phase j) :=
    phases_goto h.phases id (Nat.le_refl _) rfl (h.live hlive)
  cases h.standing with
  | settled hnone hpath hstatus =>
    refine ⟨.settled (fun j => (hpending j).trans (hnone j)) hpath hlive.symm, hphases, ?_, h.live,
      h.events⟩
    intro x hx
    rcases List.mem_append.1 hx with hx | hx
    · exact h.moves x hx
    · rw [List.mem_singleton.1 hx]
      exact .inl (hstatus.trans hlive)
  | moving j m logged hhere hothers hpath hdeclared hcurrent hstatus =>
    have htarget : m.target = "live" := hcurrent.symm.trans hlive
    refine ⟨.moving j m logged ((hpending j).trans hhere)
      (fun k hk => (hpending k).trans (hothers k hk)) hpath hdeclared hcurrent (.inr htarget.symm),
      hphases, ?_, h.live, h.events⟩
    have hmoves := moves_setStatus h.moves hdeclared hstatus
    rw [htarget] at hmoves
    exact hmoves

theorem BoardInvariant.notify (h : BoardInvariant w s) (hphase : s.phase i = .notifying)
    (succeeds : Bool) : BoardInvariant w (s.notify i succeeds) := by
  have hold : (s.phase i).pending = none := by rw [hphase]; rfl
  have hentered := h.phases i
  rw [hphase] at hentered
  have hdone : BoardInvariant w (s.goto i .done) := h.goto hold rfl True.intro
  unfold Board.notify
  split
  · next hnew =>
    have hqueued : s.queued = false := by
      simpa using (Bool.and_eq_true_iff.1 hnew).2
    have hzero := h.events.2.1 hqueued
    refine ⟨hdone.standing.congr rfl rfl rfl fun _ => rfl, hdone.phases, h.moves, h.live,
      ?_, ?_, ?_⟩
    · show s.events + 1 ≤ 1
      omega
    · intro hfalse
      cases hfalse
    · exact fun _ => hentered
  · exact hdone

omit [DecidableEq ι] in
/-- A call that may stop has written nothing. -/
theorem pending_of_mayStop {p : Phase} (h : p.mayStop = true) : p.pending = none := by
  cases p with
  | logging m => cases h
  | syncing m => cases h
  | mirroring m => cases h
  | _ => rfl

/-- Every orderly step keeps the invariant. -/
theorem BoardInvariant.step (h : BoardInvariant w s) {a : BoardStep}
    (horderly : Orderly w s (i, a)) (hstep : s.step w i a = some s') : BoardInvariant w s' := by
  unfold Board.step at hstep
  split at hstep
  next hphase => exact Option.some.inj hstep ▸ h.start hphase _
  next hphase => exact Option.some.inj hstep ▸ h.choose hphase
  next hphase => exact Option.some.inj hstep ▸ h.read hphase
  next hphase => exact Option.some.inj hstep ▸ h.commit hphase (horderly.1 rfl)
  next hphase => exact Option.some.inj hstep ▸ h.log hphase
  next hphase => exact Option.some.inj hstep ▸ h.sync hphase _
  next hphase => exact Option.some.inj hstep ▸ h.mirror hphase
  next hphase => exact Option.some.inj hstep ▸ h.mark hphase (horderly.2 rfl)
  next hphase => exact Option.some.inj hstep ▸ h.notify hphase _
  next phase hphase =>
    split at hstep
    · next hstop =>
      exact Option.some.inj hstep ▸ h.goto (pending_of_mayStop hstop) rfl True.intro
    · cases hstep
  next => cases hstep

/-- A deployment that has just been made. -/
theorem boardInvariant_init (hinit : (board w).init s) : BoardInvariant w s := by
  obtain rfl := hinit
  refine ⟨.settled (fun _ => rfl) (.nil _) rfl, fun _ => True.intro, ?_, ?_, ?_⟩
  · intro x hx
    cases hx
  · intro hlive
    have hinitial : w.definition.initial = "live" := hlive
    show 0 < entry w.definition.initial
    rw [entry, if_pos hinitial]
    exact Nat.one_pos
  · exact ⟨Nat.zero_le _, fun _ => rfl, fun h => absurd h (Nat.lt_irrefl 0)⟩

end

end

/-- In a run in which no transition commits before the last one is mirrored, and snapshots mark live
only what the workflow has brought there, the status mirrors the workflow whenever no call is in
flight. -/
theorem mirrored_of_orderly {ι : Type} [DecidableEq ι] {w : WorkflowRow} {s : Board ι}
    (h : (board w).Reach (Orderly w) s) (hquiet : s.Quiet) : Mirrored w s := by
  refine BoardInvariant.mirrored ?_ hquiet
  exact h.invariant (fun _ => boardInvariant_init) fun _ _ _ hinv horderly hstep =>
    hinv.step horderly hstep

/-- A promotion to review that nothing disturbs. -/
theorem mirrored_of_orderly_review : ∃ s : Board Unit,
    s.status = "review" ∧ Mirrored (deploymentWorkflow "w1") s := by
  have hstart : (board (deploymentWorkflow "w1")).Reach (Orderly (deploymentWorkflow "w1"))
      ({ status := "draft", entered := 0 } : Board Unit) := .init rfl
  have hfree : ∀ a : BoardStep, a ≠ .commit → a ≠ .mark → ∀ s : Board Unit,
      Orderly (deploymentWorkflow "w1") s ((), a) := fun a hcommit hmark s =>
    ⟨fun h => absurd h hcommit, fun h => absurd h hmark⟩
  have hbegun := hstart.step (a := ((), .start .promote)) (hfree _ (by decide) (by decide) _) rfl
  have hchosen := hbegun.step (a := ((), .choose)) (hfree _ (by decide) (by decide) _) rfl
  have hread := hchosen.step (a := ((), .read)) (hfree _ (by decide) (by decide) _) rfl
  have hcommitted := hread.step (a := ((), .commit))
    ⟨fun _ _ => rfl, fun h => absurd h (by decide)⟩ rfl
  have hlogged := hcommitted.step (a := ((), .log)) (hfree _ (by decide) (by decide) _) rfl
  have hsynced := hlogged.step (a := ((), .sync true)) (hfree _ (by decide) (by decide) _) rfl
  have hdone := hsynced.step (a := ((), .mirror)) (hfree _ (by decide) (by decide) _) rfl
  exact ⟨_, rfl, mirrored_of_orderly hdone fun _ => .inr rfl⟩

/-- A snapshot is applied to a deployment that is still a draft: its status is `live`, and its
workflow has not moved. -/
theorem not_mirrored_draft : ∃ s : Board Unit, (board (deploymentWorkflow "w1")).Reachable s ∧
    s.Quiet ∧ s.status = "live" ∧ s.current (deploymentWorkflow "w1") = "draft" ∧
      ¬Mirrored (deploymentWorkflow "w1") s := by
  have hsteps : (board (deploymentWorkflow "w1")).run
      ({ status := "draft", entered := 0 } : Board Unit)
      [((), .start .applyDeployment), ((), .mark), ((), .notify true)] = some
        (((Board.start { status := "draft", entered := 0 } () .applyDeployment).mark ()).notify ()
          true) := rfl
  have hrun := System.Reach.run (.init rfl) hsteps
  refine ⟨_, hrun, fun _ => .inr rfl, rfl, rfl, fun h => ?_⟩
  have hstatus := h.status
  revert hstatus
  decide

end HeadlessErp.Idp
