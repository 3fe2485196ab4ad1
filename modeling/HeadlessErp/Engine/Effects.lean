import HeadlessErp.Engine.Race

/-!
# Trigger plugins

The effects that committed transitions create. The dedupe key of `enqueueTriggerPlugins` names the
transition and not its occurrence, and what comes between the commit and the last INSERT may be lost;
where each INSERT finds its key in the outbox just when the same commit has put it there, and no call
stops on the way (`Enqueued`), a trigger plugin has one effect for each commit of its transition.
-/

namespace HeadlessErp

/-! ## The property -/

namespace EngineCalls
variable {ι N : Type} [DecidableEq ι] (W : EngineCalls ι N)

/-- The effects of a document's transition for one plugin. -/
def effectsOn (s : EngineState ι N) (r : String × String) (t : WorkflowTransition) (plugin : String) :
    List (TriggerEffect ι) :=
  s.created.filter fun e => W.record e.caller = r ∧ e.transition = t ∧ e.plugin = plugin

/-- The commits of a document's transition. -/
def commitsOf (s : EngineState ι N) (r : String × String) (t : WorkflowTransition) :
    List (StateCommit ι N) :=
  (W.commitsOn s r).filter fun c => c.drive.transition = t

/-- Once the calls that have committed a transition have ended, each of its trigger plugins has as many
effects as the transition has commits. -/
def EffectsMatch (s : EngineState ι N) : Prop :=
  ∀ r t, ∀ plugin ∈ t.triggerPlugins, (∀ c ∈ W.commitsOf s r t, (s.phase c.caller).ended = true) →
    (W.effectsOn s r t plugin).length = (W.commitsOf s r t).length

end EngineCalls

namespace TransitionPhase
variable {N : Type}

/-- The transition that a call has committed and is working on. -/
def driving : TransitionPhase N → Option (Drive N)
  | logging d | syncing d _ _ _ | enqueuing d _ _ _ _ | looking d _ _ _ _ _ => some d
  | _ => none

/-- The trigger plugins whose effects are still to be created. -/
def remaining : TransitionPhase N → List String
  | logging d | syncing d _ _ _ => d.transition.triggerPlugins
  | enqueuing _ _ plugin todo _ => plugin :: todo
  | looking _ _ _ _ todo _ => todo
  | _ => []

theorem remaining_of_ended {ph : TransitionPhase N} (h : ph.ended = true) : ph.remaining = [] := by
  cases ph with
  | returned | thrown | crashed => rfl
  | _ => cases h

theorem driving_of_ended {ph : TransitionPhase N} (h : ph.ended = true) : ph.driving = none := by
  cases ph with
  | returned | thrown | crashed => rfl
  | _ => cases h

end TransitionPhase

/-- A call has created the effect of a trigger plugin. -/
def EngineState.HasCreated {ι N : Type} (s : EngineState ι N) (i : ι) (plugin : String) : Prop :=
  ∃ e ∈ s.created, e.caller = i ∧ e.plugin = plugin

namespace EngineCalls
variable {ι N : Type} (W : EngineCalls ι N)

/-- The condition on a step: an INSERT finds its dedupe key in the outbox just when the same call has put
it there, and a call that stops after its commit has created all its effects. -/
def Enqueued (s : EngineState ι N) : EngineAction ι N → Prop
  | .call i (.enqueue none _ _) => ∀ d o plugin todo ids, s.phase i = .enqueuing d o plugin todo ids →
    ((∃ row ∈ s.entries, row.dedupeKey = some (d.dedupeKey
      (W.workflow (W.requests i).collectionSlug).id (W.requests i).documentId plugin)) ↔
      s.HasCreated i plugin)
  | .call i (.log (some _)) | .call i (.enqueue (some _) _ _) | .call i (.lookup (some _))
  | .call i .crash => ∀ plugin ∈ (s.phase i).remaining, s.HasCreated i plugin
  | _ => True

/-! ## What a step does -/

/-- A phase that a call goes on to after its commit. -/
structure Follows (s : EngineState ι N) (i : ι) (d : Drive N) (s' : EngineState ι N)
    (ph : TransitionPhase N) : Prop where
  driving : ph.driving = some d ∨ ph.ended = true
  remaining : ∀ plugin ∈ (s.phase i).remaining, plugin ∈ ph.remaining ∨ s'.HasCreated i plugin

variable [DecidableEq ι]

/-- A step of a call: before its commit, the commit, and after it with or without an effect. -/
inductive EffectCase [JsNumber N] (s : EngineState ι N) (i : ι) : EngineState ι N → Prop where
  | early {s' : EngineState ι N} {ph : TransitionPhase N} : (s.phase i).driving = none →
    (s.phase i).ended = false → ph.driving = none → s'.commits = s.commits → s'.created = s.created →
    s'.phase = Function.update s.phase i ph → EffectCase s i s'
  | committed {d : Drive N} {state : String} : s.phase i = .committing d →
    EffectCase s i
      (((s.setState (W.record i).1 (W.record i).2 state).addCommit i d).enter i (.logging d))
  | moved {d : Drive N} {s' : EngineState ι N} {ph : TransitionPhase N} :
    (s.phase i).driving = some d → s'.commits = s.commits → s'.created = s.created →
    s'.phase = Function.update s.phase i ph → Follows s i d s' ph → EffectCase s i s'
  | enqueued {d : Drive N} {plugin : String} {s' : EngineState ι N} {ph : TransitionPhase N} :
    (s.phase i).driving = some d → ¬ s.HasCreated i plugin → s'.commits = s.commits →
    s'.created = ⟨i, d.transition, plugin⟩ :: s.created → s'.phase = Function.update s.phase i ph →
    Follows s i d s' ph → EffectCase s i s'

theorem next_follows (d : Drive N) (o : SyncOutcome) (todo ids : List String) :
    ((d.next o todo ids).driving = some d ∨ (d.next o todo ids).ended = true) ∧
      (d.next o todo ids).remaining = todo := by
  cases todo with
  | nil => exact ⟨.inr rfl, rfl⟩
  | cons plugin todo => exact ⟨.inl rfl, rfl⟩

theorem sync_follows (d : Drive N) (o : SyncOutcome) (todo : List SyncTarget) :
    ((d.sync o todo).driving = some d ∨ (d.sync o todo).ended = true) ∧
      (d.sync o todo).remaining = d.transition.triggerPlugins := by
  cases todo with
  | nil => exact next_follows d o _ _
  | cons target todo => exact ⟨.inl rfl, rfl⟩

variable {W} [JsNumber N] {s s' : EngineState ι N} {i : ι} {d : Drive N}

/-- A call that stops has created its effects. -/
theorem EffectCase.stopped {ph : TransitionPhase N} (hdriving : (s.phase i).driving = some d)
    (hended : ph.ended = true) (h : ∀ plugin ∈ (s.phase i).remaining, s.HasCreated i plugin) :
    W.EffectCase s i (s.enter i ph) :=
  .moved hdriving rfl rfl rfl ⟨.inr hended, fun plugin hplugin => .inr (h plugin hplugin)⟩

theorem effectCase_begin (hph : s.phase i = .idle) : W.EffectCase s i (W.begin s i) := by
  unfold begin
  simp only
  split
  · exact .early (by rw [hph]; rfl) (by rw [hph]; rfl) rfl rfl rfl rfl
  · exact .early (by rw [hph]; rfl) (by rw [hph]; rfl) rfl rfl rfl rfl

theorem effectCase_read {current : String} {t : WorkflowTransition}
    (hph : s.phase i = .reading current t) (doc : Except String (Record N)) :
    W.EffectCase s i (W.read s i current t doc) := by
  have hdriving : (s.phase i).driving = none := by rw [hph]; rfl
  have hended : (s.phase i).ended = false := by rw [hph]; rfl
  unfold read
  split
  · exact .early hdriving hended rfl rfl rfl rfl
  · split
    · exact .early hdriving hended rfl rfl rfl rfl
    · exact .early hdriving hended rfl rfl rfl rfl

theorem effectCase_enqueue {o : SyncOutcome} {plugin : String} {todo ids : List String}
    {now : Int} {uuid : String} (hph : s.phase i = .enqueuing d o plugin todo ids)
    (henqueued : W.Enqueued s (.call i (.enqueue none now uuid)))
    (h : W.enqueue s i d o plugin todo ids now uuid = some s') : W.EffectCase s i s' := by
  have hkey := henqueued d o plugin todo ids hph
  have hdriving : (s.phase i).driving = some d := by rw [hph]; rfl
  have hremaining (p : String) (hp : p ∈ (s.phase i).remaining) : p = plugin ∨ p ∈ todo := by
    rw [hph] at hp
    exact List.mem_cons.1 hp
  unfold enqueue at h
  simp only at h
  split at h
  · cases h
  · next hfresh =>
    split at h
    · next entries hinsert =>
      obtain rfl := Option.some.inj h
      obtain ⟨hnext, htodo⟩ := next_follows d o todo (ids ++ [uuid])
      refine .enqueued hdriving (fun hcreated => ?_) rfl rfl rfl ⟨hnext, fun p hp => ?_⟩
      · obtain ⟨row, hrow, heq⟩ := hkey.2 hcreated
        exact Option.ne_none_iff_exists'.2 ⟨_, hinsert⟩
          (insertEntry_eq_none_iff.2 ⟨row, hrow, .inr ⟨rfl, heq⟩⟩)
      · rw [htodo]
        obtain rfl | hp := hremaining p hp
        · exact .inr ⟨_, List.mem_cons_self, rfl, rfl⟩
        · exact .inl hp
    · next hinsert =>
      obtain rfl := Option.some.inj h
      refine .moved hdriving rfl rfl rfl ⟨.inl rfl, fun p hp => ?_⟩
      obtain rfl | hp := hremaining p hp
      · obtain ⟨row, hrow, hid | ⟨-, heq⟩⟩ := insertEntry_eq_none_iff.1 hinsert
        · exact absurd (List.any_eq_true.2 ⟨row, hrow, decide_eq_true hid⟩) hfresh
        · exact .inr (hkey.1 ⟨row, hrow, heq⟩)
      · exact .inl hp

/-- What a step of a call does to the commits and the effects. -/
theorem effectCase_of_stepCall {a : TransitionStep N} (henqueued : W.Enqueued s (.call i a))
    (h : W.stepCall s i a = some s') : W.EffectCase s i s' := by
  unfold stepCall at h
  split at h
  · next hph =>
    obtain rfl := Option.some.inj h
    exact effectCase_begin hph
  · next hph =>
    obtain rfl := Option.some.inj h
    exact effectCase_read hph _
  · next hph =>
    obtain rfl := Option.some.inj h
    exact .early (by rw [hph]; rfl) (by rw [hph]; rfl) rfl rfl rfl rfl
  · next hph =>
    obtain rfl := Option.some.inj h
    exact .early (by rw [hph]; rfl) (by rw [hph]; rfl) rfl rfl rfl rfl
  · next d hph =>
    obtain rfl := Option.some.inj h
    unfold commit
    simp only
    split
    · exact .committed hph
    · exact .early (by rw [hph]; rfl) (by rw [hph]; rfl) rfl rfl rfl rfl
  · next hph =>
    obtain rfl := Option.some.inj h
    exact .early (by rw [hph]; rfl) (by rw [hph]; rfl) rfl rfl rfl rfl
  · next d hph =>
    obtain rfl := Option.some.inj h
    obtain ⟨hsync, htodo⟩ := sync_follows d {} ((W.workflow
      (W.requests i).collectionSlug).definition.syncTargets d.transition.toState)
    refine .moved (by rw [hph]; rfl) rfl rfl rfl ⟨hsync, fun p hp => .inl ?_⟩
    rw [hph] at hp
    exact htodo.symm ▸ hp
  · next d e hph =>
    obtain rfl := Option.some.inj h
    exact .stopped (by rw [hph]; rfl) rfl henqueued
  · next d target todo o result hph =>
    obtain rfl := Option.some.inj h
    obtain ⟨hsync, htodo⟩ := sync_follows d (o.after target result) todo
    refine .moved (by rw [hph]; rfl) rfl rfl rfl ⟨hsync, fun p hp => .inl ?_⟩
    rw [hph] at hp
    exact htodo.symm ▸ hp
  · next hph => exact effectCase_enqueue hph henqueued h
  · next d o plugin todo ids e now uuid hph =>
    obtain rfl := Option.some.inj h
    exact .stopped (by rw [hph]; rfl) rfl henqueued
  · next d o key uuid todo ids hph =>
    obtain rfl := Option.some.inj h
    obtain ⟨hnext, htodo⟩ := next_follows d o todo
      (ids ++ [((s.entries.find? (·.dedupeKey = some key)).map (·.id)).getD uuid])
    refine .moved (by rw [hph]; rfl) rfl rfl rfl ⟨hnext, fun p hp => .inl ?_⟩
    rw [hph] at hp
    exact htodo.symm ▸ hp
  · next d o key uuid todo ids e hph =>
    obtain rfl := Option.some.inj h
    exact .stopped (by rw [hph]; rfl) rfl henqueued
  · next ph _ =>
    split at h
    · cases h
    · next hended =>
      obtain rfl := Option.some.inj h
      cases hdriving : (s.phase i).driving with
      | none => exact .early hdriving (Bool.eq_false_iff.2 hended) rfl rfl rfl rfl
      | some d => exact .stopped hdriving rfl henqueued
  · cases h

/-! ## The invariant -/

/-- What the commits and the effects are where each effect is enqueued once: a call commits once, the
effects are of commits, and what a commit has not created yet its call still has to create. -/
structure EffectInvariant (W : EngineCalls ι N) (s : EngineState ι N) : Prop where
  callers : (s.commits.map (·.caller)).Nodup
  phases : ∀ c ∈ s.commits,
    (s.phase c.caller).driving = some c.drive ∨ (s.phase c.caller).ended = true
  drives : ∀ i d, (s.phase i).driving = some d → ∃ c ∈ s.commits, c.caller = i ∧ c.drive = d
  owned : ∀ e ∈ s.created, ∃ c ∈ s.commits, c.caller = e.caller ∧ c.drive.transition = e.transition
  once : (s.created.map fun e => (e.caller, e.plugin)).Nodup
  complete : ∀ c ∈ s.commits, ∀ plugin ∈ c.drive.transition.triggerPlugins,
    plugin ∈ (s.phase c.caller).remaining ∨ s.HasCreated c.caller plugin

omit [JsNumber N] in
theorem EffectInvariant.early (h : EffectInvariant W s) {ph : TransitionPhase N}
    (hdriving : (s.phase i).driving = none) (hended : (s.phase i).ended = false)
    (hnext : ph.driving = none) (hcommits : s'.commits = s.commits)
    (hcreated : s'.created = s.created) (hphase : s'.phase = Function.update s.phase i ph) :
    EffectInvariant W s' := by
  have hother (c : StateCommit ι N) (hc : c ∈ s.commits) : s'.phase c.caller = s.phase c.caller := by
    rw [hphase, Function.update_of_ne]
    rintro rfl
    obtain hsome | hend := h.phases c hc
    · rw [hdriving] at hsome
      cases hsome
    · rw [hended] at hend
      cases hend
  have hhas (j : ι) (plugin : String) (hj : s.HasCreated j plugin) : s'.HasCreated j plugin := by
    rw [EngineState.HasCreated, hcreated]
    exact hj
  refine ⟨hcommits ▸ h.callers, ?_, ?_, ?_, hcreated ▸ h.once, ?_⟩
  · rw [hcommits]
    intro c hc
    rw [hother c hc]
    exact h.phases c hc
  · rw [hcommits, hphase]
    exact forall_update (P := fun j ph => ∀ d, ph.driving = some d →
      ∃ c ∈ s.commits, c.caller = j ∧ c.drive = d) h.drives fun d hd => by
        rw [hnext] at hd
        cases hd
  · rw [hcommits, hcreated]
    exact h.owned
  · rw [hcommits]
    intro c hc plugin hplugin
    rw [hother c hc]
    exact (h.complete c hc plugin hplugin).imp_right (hhas _ _)

omit [JsNumber N] in
theorem EffectInvariant.committed (h : EffectInvariant W s) (hph : s.phase i = .committing d)
    (state : String) :
    EffectInvariant W
      (((s.setState (W.record i).1 (W.record i).2 state).addCommit i d).enter i (.logging d)) := by
  have hfresh (c : StateCommit ι N) (hc : c ∈ s.commits) : c.caller ≠ i := by
    rintro rfl
    obtain hsome | hend := h.phases c hc
    · rw [hph] at hsome
      cases hsome
    · rw [hph] at hend
      cases hend
  have hself : Function.update s.phase i (.logging d) i = .logging d := Function.update_self ..
  have hother (c : StateCommit ι N) (hc : c ∈ s.commits) :
      Function.update s.phase i (.logging d) c.caller = s.phase c.caller :=
    Function.update_of_ne (hfresh c hc) ..
  refine ⟨List.nodup_cons.2 ⟨fun hmem => ?_, h.callers⟩, fun c hc => ?_, fun j e hj => ?_,
    fun e he => ?_, h.once, fun c hc plugin hplugin => ?_⟩
  · obtain ⟨c, hc, heq⟩ := List.mem_map.1 hmem
    exact hfresh c hc heq
  · show (Function.update s.phase i _ c.caller).driving = _ ∨
      (Function.update s.phase i _ c.caller).ended = true
    obtain rfl | hc := List.mem_cons.1 hc
    · exact .inl (congrArg TransitionPhase.driving hself)
    · rw [hother c hc]
      exact h.phases c hc
  · change (Function.update s.phase i _ j).driving = some e at hj
    obtain rfl | hne := eq_or_ne j i
    · rw [hself] at hj
      obtain rfl := Option.some.inj hj
      exact ⟨_, List.mem_cons_self, rfl, rfl⟩
    · rw [Function.update_of_ne hne] at hj
      obtain ⟨c, hc, hdrive⟩ := h.drives j e hj
      exact ⟨c, List.mem_cons_of_mem _ hc, hdrive⟩
  · obtain ⟨c, hc, hown⟩ := h.owned e he
    exact ⟨c, List.mem_cons_of_mem _ hc, hown⟩
  · show plugin ∈ (Function.update s.phase i _ c.caller).remaining ∨ _
    obtain rfl | hc := List.mem_cons.1 hc
    · refine .inl ?_
      rw [hself]
      exact hplugin
    · rw [hother c hc]
      exact h.complete c hc plugin hplugin

omit [JsNumber N] in
/-- A step after the commit, which may create an effect of it. -/
theorem EffectInvariant.follows (h : EffectInvariant W s) {ph : TransitionPhase N}
    (hdriving : (s.phase i).driving = some d) (hcommits : s'.commits = s.commits)
    (hsub : ∀ e ∈ s.created, e ∈ s'.created)
    (howned : ∀ e ∈ s'.created, e ∈ s.created ∨ e.caller = i ∧ e.transition = d.transition)
    (honce : (s'.created.map fun e => (e.caller, e.plugin)).Nodup)
    (hphase : s'.phase = Function.update s.phase i ph) (hfollows : Follows s i d s' ph) :
    EffectInvariant W s' := by
  obtain ⟨own, hown, rfl, rfl⟩ := h.drives i d hdriving
  have hunique (c : StateCommit ι N) (hc : c ∈ s.commits) (heq : c.caller = own.caller) : c = own :=
    List.inj_on_of_nodup_map h.callers hc hown heq
  refine ⟨hcommits ▸ h.callers, ?_, ?_, fun e he => ?_, honce, ?_⟩
  · rw [hcommits]
    intro c hc
    rw [hphase]
    obtain heq | hne := eq_or_ne c.caller own.caller
    · obtain rfl := hunique c hc heq
      rw [Function.update_self]
      exact hfollows.driving
    · rw [Function.update_of_ne hne]
      exact h.phases c hc
  · rw [hcommits, hphase]
    exact forall_update (P := fun j ph => ∀ d, ph.driving = some d →
      ∃ c ∈ s.commits, c.caller = j ∧ c.drive = d) h.drives fun d hd => by
        obtain hsome | hend := hfollows.driving
        · obtain rfl := Option.some.inj (hsome.symm.trans hd)
          exact ⟨own, hown, rfl, rfl⟩
        · rw [TransitionPhase.driving_of_ended hend] at hd
          cases hd
  · rw [hcommits]
    obtain he | ⟨hcaller, ht⟩ := howned e he
    · exact h.owned e he
    · exact ⟨own, hown, hcaller.symm, ht.symm⟩
  · rw [hcommits]
    intro c hc plugin hplugin
    have hhas (hcreated : s.HasCreated c.caller plugin) : s'.HasCreated c.caller plugin := by
      obtain ⟨e, he, hcreator⟩ := hcreated
      exact ⟨e, hsub e he, hcreator⟩
    obtain hremaining | hcreated := h.complete c hc plugin hplugin
    · rw [hphase]
      obtain heq | hne := eq_or_ne c.caller own.caller
      · obtain rfl := hunique c hc heq
        rw [Function.update_self]
        exact hfollows.remaining plugin hremaining
      · rw [Function.update_of_ne hne]
        exact .inl hremaining
    · exact .inr (hhas hcreated)

theorem EffectInvariant.stepCase (h : EffectInvariant W s) (hcase : W.EffectCase s i s') :
    EffectInvariant W s' := by
  cases hcase with
  | early hdriving hended hnext hcommits hcreated hphase =>
    exact h.early hdriving hended hnext hcommits hcreated hphase
  | committed hph => exact h.committed hph _
  | moved hdriving hcommits hcreated hphase hfollows =>
    refine h.follows hdriving hcommits ?_ ?_ (hcreated ▸ h.once) hphase hfollows
    · rw [hcreated]
      exact fun _ he => he
    · rw [hcreated]
      exact fun _ he => .inl he
  | @enqueued d plugin s' ph hdriving hnew hcommits hcreated hphase hfollows =>
    refine h.follows hdriving hcommits ?_ ?_ ?_ hphase hfollows
    · rw [hcreated]
      exact fun _ he => List.mem_cons_of_mem _ he
    · rw [hcreated]
      intro e he
      obtain rfl | he := List.mem_cons.1 he
      · exact .inr ⟨rfl, rfl⟩
      · exact .inl he
    · rw [hcreated]
      refine List.nodup_cons.2 ⟨fun hmem => ?_, h.once⟩
      obtain ⟨e, he, heq⟩ := List.mem_map.1 hmem
      obtain ⟨hcaller, hplugin⟩ := Prod.mk.inj heq
      exact hnew ⟨e, he, hcaller, hplugin⟩

theorem EffectInvariant.step (h : EffectInvariant W s) {a : EngineAction ι N}
    (henqueued : W.Enqueued s a) (hstep : W.system.step s a = some s') : EffectInvariant W s' := by
  cases a with
  | call i a => exact h.stepCase (effectCase_of_stepCall henqueued hstep)
  | outbox entries =>
    obtain rfl := Option.some.inj hstep
    exact ⟨h.callers, h.phases, h.drives, h.owned, h.once, h.complete⟩

theorem effectInvariant_init (h : W.system.init s) : EffectInvariant W s := by
  obtain ⟨hidle, -, hcommits, hcreated⟩ := h
  refine ⟨?_, ?_, fun i d hd => ?_, ?_, ?_, ?_⟩
  · rw [hcommits]
    exact List.nodup_nil
  · rw [hcommits]
    nofun
  · rw [hidle i] at hd
    cases hd
  · rw [hcreated]
    nofun
  · rw [hcreated]
    exact List.nodup_nil
  · rw [hcommits]
    nofun

/-! ## Runs -/

omit [DecidableEq ι] [JsNumber N] in
/-- Once their calls have ended, the effects of a trigger plugin and the commits of its transition are by
the same callers. -/
theorem EffectInvariant.effectsMatch (h : EffectInvariant W s) : W.EffectsMatch s := by
  intro r t plugin hplugin hended
  have hcommitters : ((W.commitsOf s r t).map (·.caller)).Nodup :=
    h.callers.sublist (((List.filter_sublist ..).trans (List.filter_sublist ..)).map _)
  have hcreators : ((W.effectsOn s r t plugin).map (·.caller)).Nodup := by
    have hpairs : ((W.effectsOn s r t plugin).map (·.caller)).map (·, plugin) =
        (W.effectsOn s r t plugin).map fun e => (e.caller, e.plugin) := by
      rw [List.map_map]
      refine List.map_congr_left fun e he => ?_
      obtain ⟨-, -, heq⟩ : _ ∧ _ ∧ e.plugin = plugin := by simpa using (List.mem_filter.1 he).2
      exact congrArg _ heq.symm
    refine List.Nodup.of_map (·, plugin) ?_
    rw [hpairs]
    exact h.once.sublist (List.filter_sublist.map _)
  have hsame (i : ι) : i ∈ (W.effectsOn s r t plugin).map (·.caller) ↔
      i ∈ (W.commitsOf s r t).map (·.caller) := by
    constructor
    · intro hi
      obtain ⟨e, he, rfl⟩ := List.mem_map.1 hi
      obtain ⟨he, heq⟩ := List.mem_filter.1 he
      obtain ⟨hr, ht, -⟩ : W.record e.caller = r ∧ e.transition = t ∧ e.plugin = plugin := by
        simpa using heq
      obtain ⟨c, hc, hcaller, htransition⟩ := h.owned e he
      refine List.mem_map.2 ⟨c, ?_, hcaller⟩
      simp only [commitsOf, commitsOn, List.mem_filter, decide_eq_true_eq]
      exact ⟨⟨hc, hcaller.symm ▸ hr⟩, htransition.trans ht⟩
    · intro hi
      obtain ⟨c, hcommit, rfl⟩ := List.mem_map.1 hi
      have hend := hended c hcommit
      simp only [commitsOf, commitsOn, List.mem_filter, decide_eq_true_eq] at hcommit
      obtain ⟨⟨hc, hr⟩, ht⟩ := hcommit
      obtain hremaining | ⟨e, he, hcaller, hp⟩ := h.complete c hc plugin (ht.symm ▸ hplugin)
      · rw [TransitionPhase.remaining_of_ended hend] at hremaining
        cases hremaining
      · obtain ⟨c', hc', hcaller', ht'⟩ := h.owned e he
        obtain rfl := List.inj_on_of_nodup_map h.callers hc' hc (hcaller'.trans hcaller)
        refine List.mem_map.2 ⟨e, ?_, hcaller⟩
        simp only [effectsOn, List.mem_filter, decide_eq_true_eq]
        exact ⟨he, hcaller.symm ▸ hr, ht'.symm.trans ht, hp⟩
  have hperm := (List.perm_ext_iff_of_nodup hcreators hcommitters).2 hsame
  simpa using hperm.length_eq

/-- Where each INSERT goes through just when the same call has not made it yet, and no call stops before
its last one, each trigger plugin has one effect for each commit of its transition. -/
theorem effectsMatch_of_enqueued (h : W.system.Reach W.Enqueued s) : W.EffectsMatch s := by
  have heffects : EffectInvariant W s :=
    h.invariant (fun _ => effectInvariant_init) fun _ _ _ hs henqueued hstep =>
      hs.step henqueued hstep
  exact heffects.effectsMatch

end EngineCalls

/-! ## A second submission -/

/-- A call that has committed goes on to its only trigger plugin. -/
def mailSteps (i : ReviewRequest) (uuid : String) : List (EngineAction ReviewRequest (Option Int)) :=
  [.call i (.log none), .call i (.enqueue none 0 uuid)]

/-- A document is submitted, sent back and submitted again: the second INSERT finds the key of the first
one. -/
theorem resubmission_not_mailed :
    ¬ ∀ (ι N : Type) (_ : JsNumber N) (_ : DecidableEq ι) (W : EngineCalls ι N) (s : EngineState ι N),
        W.system.Reachable s → W.EffectsMatch s := by
  intro h
  have hinit : reviewCalls.system.Reachable reviewState := .init reviewState_init
  have hrun : (reviewCalls.system.run reviewState
      ([.call .submit .begin] ++ commitSteps .submit ++ mailSteps .submit "e1" ++
        [.call .sendBack .begin] ++ commitSteps .sendBack ++ [.call .sendBack (.log none)] ++
        [.call .resubmit .begin] ++ commitSteps .resubmit ++ mailSteps .resubmit "e2" ++
        [.call .resubmit (.lookup none)])).isSome = true := rfl
  have hmatch := h ReviewRequest (Option Int) _ _ reviewCalls _
    (hinit.run (Option.some_get hrun).symm) ("posts", "p1")
    { id := "submit", fromState := "draft", toState := "review", triggerPlugins := ["mail"] } "mail"
    List.mem_cons_self
  have hended := hmatch (List.all_eq_true.1 (Eq.refl true))
  have hlength : 1 = 2 := hended
  cases hlength

/-- A document is submitted once. -/
theorem effectsMatch_of_enqueued_mail : ∃ s, reviewCalls.system.Reach reviewCalls.Enqueued s ∧
    s.commits.length = 1 ∧ s.created.length = 1 ∧ reviewCalls.EffectsMatch s := by
  have h₀ : reviewCalls.system.Reach reviewCalls.Enqueued reviewState := .init reviewState_init
  have h₁ := h₀.step (a := .call .submit .begin) (by exact trivial) rfl
  have h₂ := h₁.step (a := .call .submit (.read (.ok []))) (by exact trivial) rfl
  have h₃ := h₂.step (a := .call .submit (.hook none)) (by exact trivial) rfl
  have h₄ := h₃.step (a := .call .submit (.commit none)) (by exact trivial) rfl
  have h₅ := h₄.step (a := .call .submit (.log none)) (by exact trivial) rfl
  have h₆ := h₅.step (a := .call .submit (.enqueue none 0 "e1")) (by
    intro d o plugin todo ids _
    constructor
    · rintro ⟨row, hrow, -⟩
      cases hrow
    · rintro ⟨e, he, -⟩
      cases he) rfl
  exact ⟨_, h₆, rfl, rfl, EngineCalls.effectsMatch_of_enqueued h₆⟩

end HeadlessErp
