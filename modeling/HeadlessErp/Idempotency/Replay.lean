import HeadlessErp.Idempotency.Run

/-!
# Replay of a result

What the calls that come after a completed execution return. A value is recorded by a statement of
its own: `undefined` is recorded as no text at all, which a later call cannot replay, and when the
statement fails, the key is freed as if the function had failed.
-/

namespace HeadlessErp

namespace KeyedCalls
variable {ι N : Type} [DecidableEq ι] [JsNumber N] (K : KeyedCalls ι N)

/-- A call that has come after an execution ended with a value: it is on its way to the row, it has
returned that value from it, or its isolate has died. -/
def ReplaysOnly (ph : RunPhase N) (value : JsVal N) : Prop :=
  ph = .looking ∨ ph = .returned true value ∨ ph = .crashed

/-- Every call that has come after an execution ended with a value returns that value, and does not
run the function. -/
def Replays (s : KeyState ι N) : Prop :=
  ∀ i value, s.later i = some value → ReplaysOnly (s.phase i) value

/-- The condition on a step: a call does not take over a row that is held, a value that is recorded
survives its text, and the statement does not fail; and no row that is held or done is pruned. -/
def ResultKept (s : KeyState ι N) : KeyAction ι N → Prop
  | .call i (.claim now) => ∀ j since row, (s.phase j).holds = some since → s.row = some row →
    ¬ row.createdAt ≤ now - (K.options i).ttlMs
  | .call i (.record ok _) => ∀ since value, s.phase i = .recording since value →
    ok = true ∧ ∃ text, serializeValue value = some (some text) ∧ K.parse text = value
  | .prune cutoff => ∀ row, s.row = some row →
    (row.status = .done ∨ ∃ j since, (s.phase j).holds = some since) → cutoff ≤ row.updatedAt
  | _ => True

/-! ## The invariant -/

/-- The row holds a value that can be replayed. -/
def Keeps (row : Option KeyRow) (value : JsVal N) : Prop :=
  ∃ r text, row = some r ∧ r.status = .done ∧ r.responseJson = some text ∧ K.parse text = value

/-- Once an execution has ended with a value, the row keeps it, nobody holds the key, and the calls
that came after replay it. -/
structure ReplayInvariant (s : KeyState ι N) : Prop where
  holder : HolderInvariant s
  kept : ∀ value, s.settled = some value →
    K.Keeps s.row value ∧ ∀ i, (s.phase i).holds = none
  later : ∀ i value, s.later i = some value →
    s.settled = some value ∧ ReplaysOnly (s.phase i) value

variable {K} {row row' : Option KeyRow} {i : ι} {ph ph' : RunPhase N} {a : RunStep N}
  {value : JsVal N}

omit [DecidableEq ι] [JsNumber N] in
/-- Nobody gains a key whose row keeps a value. -/
theorem Keeps.not_gained (h : K.Keeps row value) {options : IdempotencyOptions} {r : KeyRow}
    {now : Int} : ¬ KeyGained options row a r now := by
  obtain ⟨r₀, text, rfl, hdone, -, -⟩ := h
  rintro (h | ⟨h, hstatus, -⟩ | ⟨h, hstatus⟩)
  · cases h
  · cases h
    rw [hdone] at hstatus
    cases hstatus
  · cases h
    rw [hdone] at hstatus
    cases hstatus

omit [DecidableEq ι] in
/-- A call of a key whose row keeps a value leaves the row alone, unless it held the key. -/
theorem Keeps.runStep (h : K.Keeps row value) (hph : ph.holds = none)
    (hrun : HeadlessErp.runStep K.parse (K.options i) row ph a = some (row', ph')) :
    row' = row ∧ ph'.holds = none := by
  obtain ⟨r, now, hgained, -⟩ | ⟨rfl, heq | hnone⟩ | ⟨since, hsince, -⟩ := runStep_cases hrun
  · exact absurd hgained h.not_gained
  · exact ⟨rfl, heq.trans hph⟩
  · exact ⟨rfl, hnone⟩
  · rw [hph] at hsince
    cases hsince

omit [DecidableEq ι] in
/-- A call that came after goes on to replay what the row keeps. -/
theorem Keeps.replaysOnly (h : K.Keeps row value) (hph : ReplaysOnly ph value)
    (hrun : HeadlessErp.runStep K.parse (K.options i) row ph a = some (row', ph')) :
    ReplaysOnly ph' value := by
  obtain ⟨⟨status, json, error, created, updated⟩, text, rfl, hdone, hjson, hparse⟩ := h
  dsimp only at hdone hjson
  subst hdone hjson
  obtain rfl | rfl | rfl := hph
  · cases a with
    | lookup =>
      cases hrun
      exact .inr (.inl (by rw [← hparse]; rfl))
    | crash =>
      cases hrun
      exact .inr (.inr rfl)
    | _ => cases hrun
  · cases a with
    | crash =>
      cases hrun
      exact .inr (.inr rfl)
    | _ => cases hrun
  · cases a with
    | crash =>
      cases hrun
      exact .inr (.inr rfl)
    | _ => cases hrun

omit [DecidableEq ι] in
/-- A call that claims a key whose row keeps a value goes on to look at it. -/
theorem Keeps.claim (h : K.Keeps row value) {now : Int}
    (hrun : HeadlessErp.runStep K.parse (K.options i) row ph (.claim now) = some (row', ph')) :
    ph' = .looking := by
  obtain ⟨⟨status, json, error, created, updated⟩, text, rfl, hdone, hjson, hparse⟩ := h
  dsimp only at hdone
  subst hdone
  cases ph <;> cases hrun
  rfl

omit [DecidableEq ι] in
/-- The record of a value that survives its text. -/
theorem runStep_record {since now : Int} {text : String} (hrow : ∃ r, row = some r)
    (hs : serializeValue value = some (some text)) (hparse : K.parse text = value)
    (hrun : HeadlessErp.runStep K.parse (K.options i) row (.recording since value)
      (.record true now) = some (row', ph')) : K.Keeps row' value ∧ ph' = .returned false value := by
  obtain ⟨r, rfl⟩ := hrow
  simp only [HeadlessErp.runStep, hs, if_true] at hrun
  cases hrun
  exact ⟨⟨_, text, rfl, rfl, rfl, hparse⟩, rfl⟩

omit [DecidableEq ι] [JsNumber N] in
theorem settledBy_eq_some (h : settledBy ph a = some value) :
    ∃ since ok now, ph = .recording since value ∧ a = .record ok now := by
  unfold settledBy at h
  split at h
  · cases h
    exact ⟨_, _, _, rfl, rfl⟩
  · cases h

/-- A step of a call keeps what is known of the calls that came after an execution. -/
theorem laterCalls_replay {s : KeyState ι N} (h : K.ReplayInvariant s)
    (hrun : HeadlessErp.runStep K.parse (K.options i) s.row (s.phase i) a = some (row', ph'))
    {j : ι} (hlater : laterCalls s i a j = some value) :
    s.settled = some value ∧ ReplaysOnly (Function.update s.phase i ph' j) value := by
  by_cases hji : j = i
  · subst hji
    rw [Function.update_self]
    cases a with
    | claim now =>
      have hsettled : s.settled = some value := by
        simpa [laterCalls] using hlater
      exact ⟨hsettled, .inl ((h.kept value hsettled).1.claim hrun)⟩
    | lookup | retake | finish | record | recover | crash =>
      obtain ⟨hsettled, hph⟩ := h.later j value hlater
      exact ⟨hsettled, (h.kept value hsettled).1.replaysOnly hph hrun⟩
  · rw [Function.update_of_ne hji]
    refine h.later j value ?_
    cases a with
    | claim now => simpa [laterCalls, Function.update_of_ne hji] using hlater
    | lookup | retake | finish | record | recover | crash => exact hlater

/-- One step under the condition keeps the invariant. -/
theorem ReplayInvariant.step {s s' : KeyState ι N} (h : K.ReplayInvariant s) {b : KeyAction ι N}
    (hb : K.ResultKept s b) (hstep : K.system.step s b = some s') : K.ReplayInvariant s' := by
  cases b with
  | prune cutoff =>
    unfold system at hstep
    dsimp only at hstep
    split at hstep
    · next row hrow =>
      cases hstep
      split
      · next hold =>
        -- the row that is deleted is neither held nor done
        have hnobody : ∀ j since, (s.phase j).holds ≠ some since := by
          intro j since hj
          have hcut := hb row hrow (.inr ⟨j, since, hj⟩)
          omega
        have hsettled : s.settled = none := by
          cases hv : s.settled with
          | none => rfl
          | some value =>
            obtain ⟨⟨r, text, hr, hdone, -, -⟩, -⟩ := h.kept value hv
            rw [hrow] at hr
            cases hr
            have hcut := hb row hrow (.inl hdone)
            omega
        refine ⟨holderInvariant_of_nobody hnobody, fun value hv => ?_, fun j value hj => ?_⟩
        · rw [hsettled] at hv
          cases hv
        · exact h.later j value hj
      · exact h
    · cases hstep
      exact h
  | call i a =>
    obtain ⟨⟨row', ph'⟩, hrun, rfl⟩ := Option.map_eq_some_iff.1 hstep
    have hholder := h.holder.call (s.settled.or (settledBy (s.phase i) a)) (laterCalls s i a) hrun
      fun r now hgained => h.holder.gained hgained (by
        rintro now rfl j since row hj hrow
        exact hb j since row hj hrow)
    refine ⟨hholder, fun value hv => ?_, fun j value hj => ?_⟩
    · dsimp only at hv ⊢
      cases hsettled : s.settled with
      | some value' =>
        rw [hsettled] at hv
        cases hv
        obtain ⟨hkeeps, hnobody⟩ := h.kept value hsettled
        obtain ⟨rfl, hph'⟩ := hkeeps.runStep (hnobody i) hrun
        refine ⟨hkeeps, fun j => ?_⟩
        by_cases hji : j = i
        · subst hji
          rw [Function.update_self, hph']
        · rw [Function.update_of_ne hji, hnobody j]
      | none =>
        -- the holder of the key records its value
        rw [hsettled, Option.none_or] at hv
        obtain ⟨since, ok, now, hph, rfl⟩ := settledBy_eq_some hv
        obtain ⟨rfl, text, hserialize, hparse⟩ := hb since value hph
        have hi : (s.phase i).holds = some since := by rw [hph]; rfl
        obtain ⟨r, hr, -, -⟩ := h.holder.processing i since hi
        rw [hph] at hrun
        obtain ⟨hkeeps, rfl⟩ := runStep_record ⟨r, hr⟩ hserialize hparse hrun
        refine ⟨hkeeps, fun j => ?_⟩
        by_cases hji : j = i
        · subst hji
          rw [Function.update_self]
          rfl
        · rw [Function.update_of_ne hji]
          cases hj : (s.phase j).holds with
          | none => rfl
          | some since' => exact absurd (h.holder.unique j i since' since hj hi) hji
    · obtain ⟨hsettled, hph⟩ := laterCalls_replay h hrun hj
      exact ⟨by rw [hsettled]; rfl, hph⟩

end KeyedCalls

/-! ## Undefined -/

end HeadlessErp
