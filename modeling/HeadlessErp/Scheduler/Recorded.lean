import HeadlessErp.Scheduler.Runs

/-!
# Recorded successes

What becomes of an occurrence of a task after its handler has returned and its completion has been
written. A ledger beside the calls numbers the occurrences: `schedule` begins a new one, and so does
the completion of one that is followed by another. `runTask` has one error path for the handler, the
write and the alarm request, so an alarm that cannot be set makes a failure of a recorded success.
-/

namespace HeadlessErp

/-! ## The ledger -/

/-- The occurrence that the row stands for, the first number that none has, the occurrence each run
has read, those whose success was written, and whether one of these was marked failed or run
afterwards. -/
structure RunLedger (ι : Type) where
  current : Nat
  next : Nat
  taken : ι → Nat
  recorded : List Nat
  failedAfter : Bool
  ranAgain : Bool

open ScheduledTask (Completion)

namespace RunLedger
variable {ι : Type} [DecidableEq ι] (L : RunLedger ι)

/-- Before the calls. -/
def start : RunLedger ι := ⟨0, 1, fun _ => 0, [], false, false⟩

/-- The row stands for a new occurrence. -/
def renew : RunLedger ι := { L with current := L.next, next := L.next + 1 }

/-- A run reads the row. -/
def take (i : ι) : RunLedger ι := { L with taken := Function.update L.taken i L.current }

/-- A run starts the handler. -/
def run (i : ι) : RunLedger ι :=
  { L with ranAgain := L.ranAgain || decide (L.taken i ∈ L.recorded) }

/-- A run writes that its handler has returned. -/
def succeed (i : ι) : RunLedger ι := { L with recorded := L.taken i :: L.recorded }

/-- A run writes a failed attempt, to its occurrence and to the one that the row stands for. -/
def fail (i : ι) : RunLedger ι :=
  { L with failedAfter := L.failedAfter ||
      (decide (L.taken i ∈ L.recorded) || decide (L.current ∈ L.recorded)) }

/-- A run writes its completion. -/
def complete (i : ι) : Completion → RunLedger ι
  | .again _ _ => (L.succeed i).renew
  | .finished _ => L.succeed i
  | .failed _ => L.fail i

/-- What the first statement of a call notes, by the phase it leads to. -/
def begun (i : ι) : TaskPhase → RunLedger ι
  | .upserted _ => L.renew
  | .loaded _ => L.take i
  | _ => L

/-- What the start of a handler notes, by the phase it leads to. -/
def started (i : ι) : TaskPhase → RunLedger ι
  | .running _ => L.run i
  | _ => L

/-- What an UPDATE notes, by the phase it was made in. -/
def written (i : ι) : TaskPhase → RunLedger ι
  | .handled _ c => L.complete i c
  | _ => L

/-- What a step between two states notes. -/
def note (s s' : TaskState ι) : TaskAction ι → RunLedger ι
  | .call i (.begin _) => L.begun i (s'.phase i)
  | .call i .start => L.started i (s'.phase i)
  | .call i (.write none _) => L.written i (s.phase i)
  | _ => L

/-- No recorded success was marked failed, counted as a failed attempt or run again. -/
structure Kept : Prop where
  notFailed : L.failedAfter = false
  notRun : L.ranAgain = false

end RunLedger

/-- A run has read the row and has not written its completion. -/
def TaskPhase.isUnderWay : TaskPhase → Bool
  | loaded _ => true
  | running _ => true
  | handled _ _ => true
  | _ => false

/-- The completion is that of a failed attempt. -/
def ScheduledTask.Completion.isFailed : Completion → Bool
  | .failed _ => true
  | _ => false

namespace TaskCalls
variable {ι : Type} [DecidableEq ι] (T : TaskCalls ι)

/-- The calls on a task with the ledger beside them. -/
def recording : System (TaskState ι × RunLedger ι) (TaskAction ι) where
  init x := T.system.init x.1 ∧ x.2 = RunLedger.start
  step x b := (T.system.step x.1 b).map fun s' => (s', x.2.note x.1 s' b)

/-- The condition on a step: no run begins while another is under way, a `retry` does not write to a
row that is done or cancelled by then, and the alarm request after a written success goes
through. -/
def Exclusive (x : TaskState ι × RunLedger ι) : TaskAction ι → Prop
  | .call i (.begin _) => ∀ via, T.calls i = .run via → ∀ j, (x.1.phase j).isUnderWay = false
  | .call i (.write none _) =>
    match x.1.phase i with
    | .retrying => ∀ row, x.1.row = some row → row.status ≠ .done ∧ row.status ≠ .cancelled
    | _ => True
  | .call i (.alarm (some _) _) =>
    match x.1.phase i with
    | .settling _ c => c.isFailed = true
    | _ => True
  | _ => True

/-! ## What a step notes -/

/-- What a step of the call `i` does to the row, the ledger and whether it is under way. -/
inductive Noted (s s' : TaskState ι) (L : RunLedger ι) (i : ι) : TaskStep → RunLedger ι → Prop where
  | quiet {a : TaskStep} : s'.row = s.row →
    (s'.phase i).isUnderWay = false ∨ (s.phase i).isUnderWay = true → Noted s s' L i a L
  | upsert {now : Int} :
    (s'.phase i).isUnderWay = false → Noted s s' L i (.begin now) L.renew
  | cancel {now : Int} : s'.row = s.row.map (·.cancel now) →
    (s'.phase i).isUnderWay = false → Noted s s' L i (.write none now) L
  | retry {now : Int} : s.phase i = .retrying → s'.row = s.row.map (·.retry now) →
    (s'.phase i).isUnderWay = false → Noted s s' L i (.write none now) L
  | take {row : ScheduledTask} {via : RunVia} {now : Int} : T.calls i = .run via →
    s.row = some row → row.status ≠ .done → row.status ≠ .cancelled → s'.row = s.row →
    Noted s s' L i (.begin now) (L.take i)
  | run : s'.row = s.row → (s.phase i).isUnderWay = true → Noted s s' L i .start (L.run i)
  | complete {p : RunSnapshot} {c : Completion} {now : Int} : (s.phase i).isUnderWay = true →
    s'.row = s.row.map (p.task.complete · p.now c) → (s'.phase i).isUnderWay = false →
    Noted s s' L i (.write none now) (L.complete i c)

variable {T} {s s' : TaskState ι} {L : RunLedger ι} {i : ι} {now : Int}

@[simp] theorem phase_enter (t : TaskState ι) (i : ι) (ph : TaskPhase) :
    (t.enter i ph).phase i = ph := by
  simp [TaskState.enter]

/-- The phases of the other calls stay. -/
theorem phase_enter_of_ne {t : TaskState ι} {ph : TaskPhase} (ht : t.phase = s.phase) :
    ∀ j, j ≠ i → (t.enter i ph).phase j = s.phase j := by
  intro j hj
  rw [← ht]
  exact Function.update_of_ne hj ph t.phase

/-- A step that enters a phase and leaves the row and the ledger. -/
theorem quiet_enter {t : TaskState ι} {ph : TaskPhase} {a : TaskStep} (hrow : t.row = s.row)
    (hphase : t.phase = s.phase) (hway : ph.isUnderWay = false ∨ (s.phase i).isUnderWay = true) :
    T.Noted s (t.enter i ph) L i a L ∧ ∀ j, j ≠ i → (t.enter i ph).phase j = s.phase j :=
  ⟨.quiet hrow (by rwa [phase_enter]), phase_enter_of_ne hphase⟩

/-- A run that has read the row has read one that is neither done nor cancelled. -/
theorem load_noted {via : RunVia} (hcall : T.calls i = .run via) (t : TaskState ι)
    (hrow : t.row = s.row) (hphase : t.phase = s.phase) :
    T.Noted s (t.load i via now) L i (.begin now) (L.begun i ((t.load i via now).phase i)) ∧
      ∀ j, j ≠ i → (t.load i via now).phase j = s.phase j := by
  unfold TaskState.load
  split
  · rw [phase_enter]
    exact quiet_enter hrow hphase (.inl rfl)
  · next task htask =>
    dsimp only
    split
    · rw [phase_enter]
      exact quiet_enter hrow hphase (.inl rfl)
    · rw [phase_enter]
      exact quiet_enter hrow hphase (.inl rfl)
    · next hdone hcancelled =>
      split
      · rw [phase_enter]
        exact quiet_enter hrow hphase (.inl rfl)
      · rw [phase_enter]
        exact ⟨.take hcall (hrow ▸ htask) hdone hcancelled hrow, phase_enter_of_ne hphase⟩

/-- What the first statement of a call notes. -/
theorem begin_noted (h : T.begin s i now = some s') :
    T.Noted s s' L i (.begin now) (L.begun i (s'.phase i)) ∧
      ∀ j, j ≠ i → s'.phase j = s.phase j := by
  unfold TaskCalls.begin at h
  split at h
  · split at h
    · cases h
      rw [phase_enter]
      exact quiet_enter rfl rfl (.inl rfl)
    · cases h
      rw [phase_enter]
      exact ⟨.upsert (by rw [phase_enter]; rfl), phase_enter_of_ne rfl⟩
  · split at h
    · cases h
      rw [phase_enter]
      exact quiet_enter rfl rfl (.inl rfl)
    · cases h
      rw [phase_enter]
      exact quiet_enter rfl rfl (.inl rfl)
  · split at h
    · cases h
      rw [phase_enter]
      exact quiet_enter rfl rfl (.inl rfl)
    · cases h
      rw [phase_enter]
      exact quiet_enter rfl rfl (.inl rfl)
  · next hcall =>
    cases h
    exact load_noted hcall s rfl rfl
  · next hcall =>
    split at h
    · cases h
      exact load_noted hcall { s with alarm := none } rfl rfl
    · cases h
  · split at h
    · cases h
      rw [phase_enter]
      exact quiet_enter rfl rfl (.inl rfl)
    · cases h
      rw [phase_enter]
      exact quiet_enter rfl rfl (.inl rfl)

/-- What the start of a handler notes. -/
theorem start_noted {p : RunSnapshot} (hph : s.phase i = .loaded p) :
    T.Noted s (T.start s i p) L i .start (L.started i ((T.start s i p).phase i)) ∧
      ∀ j, j ≠ i → (T.start s i p).phase j = s.phase j := by
  have hway : (s.phase i).isUnderWay = true := by rw [hph]; rfl
  unfold TaskCalls.start
  split
  · split
    · rw [phase_enter]
      exact quiet_enter rfl rfl (.inr hway)
    · rw [phase_enter]
      exact ⟨.run rfl hway, phase_enter_of_ne rfl⟩
  · rw [phase_enter]
    exact quiet_enter rfl rfl (.inr hway)

/-- An error after the handler keeps the run under way, or ends it. -/
theorem afterError_noted {p : RunSnapshot} {c : Completion} {e : String} {a : TaskStep}
    (hway : c.isFailed = true ∨ (s.phase i).isUnderWay = true) :
    T.Noted s (s.afterError i p c e) L i a L ∧
      ∀ j, j ≠ i → (s.afterError i p c e).phase j = s.phase j := by
  unfold TaskState.afterError
  split
  · exact quiet_enter rfl rfl (.inl rfl)
  · next hc =>
    rcases hway with hfailed | hway
    · cases c with
      | failed e => exact (hc e rfl).elim
      | again | finished => cases hfailed
    · exact quiet_enter rfl rfl (.inr hway)

/-- What an UPDATE notes. -/
theorem write_noted {failure : Option String} (h : s.write i failure now = some s') :
    T.Noted s s' L i (.write failure now) (L.note s s' (.call i (.write failure now))) ∧
      ∀ j, j ≠ i → s'.phase j = s.phase j := by
  unfold TaskState.write at h
  split at h
  · next hph =>
    cases h
    simp only [RunLedger.note, RunLedger.written, hph]
    exact ⟨.cancel rfl (by rw [phase_enter]; rfl), phase_enter_of_ne rfl⟩
  · next hph =>
    cases h
    simp only [RunLedger.note, RunLedger.written, hph]
    exact ⟨.retry hph rfl (by rw [phase_enter]; rfl), phase_enter_of_ne rfl⟩
  · next hph =>
    cases h
    simp only [RunLedger.note, RunLedger.written, hph]
    exact ⟨.complete (by rw [hph]; rfl) rfl (by rw [phase_enter]; rfl), phase_enter_of_ne rfl⟩
  · cases h
    exact quiet_enter rfl rfl (.inl rfl)
  · cases h
    exact quiet_enter rfl rfl (.inl rfl)
  · next hph =>
    cases h
    exact afterError_noted (.inr (by rw [hph]; rfl))
  · cases h

/-- An alarm request notes nothing; that after a written success goes through. -/
theorem requestAlarm_noted {failure : Option String}
    (hp : Exclusive T (s, L) (.call i (.alarm failure now)))
    (h : s.requestAlarm i failure now = some s') :
    T.Noted s s' L i (.alarm failure now) L ∧ ∀ j, j ≠ i → s'.phase j = s.phase j := by
  have hset (alarm : Option Int) {ph : TaskPhase} (hph : ph.isUnderWay = false) :
      T.Noted s ((if failure.isNone then { s with alarm } else s).enter i ph) L i
        (.alarm failure now) L ∧
        ∀ j, j ≠ i →
          ((if failure.isNone then { s with alarm } else s).enter i ph).phase j = s.phase j := by
    refine quiet_enter ?_ ?_ (.inl hph)
    · split <;> rfl
    · split <;> rfl
  unfold TaskState.requestAlarm at h
  dsimp only at h
  split at h
  · cases h
    exact hset _ rfl
  · cases h
    exact hset _ rfl
  · cases h
    exact hset _ rfl
  · cases h
    exact hset _ rfl
  · split at h
    · cases h
      exact hset _ rfl
    · cases h
      exact quiet_enter rfl rfl (.inl rfl)
  · next p c hph =>
    split at h
    · cases h
      exact hset _ rfl
    · next e =>
      cases h
      have hfailed : c.isFailed = true := by simpa only [Exclusive, hph] using hp
      exact afterError_noted (.inl hfailed)
  · cases h

/-- What a step of a call notes, and that it is a step of no other call. -/
theorem stepCall_noted {a : TaskStep} (hp : Exclusive T (s, L) (.call i a))
    (h : T.stepCall s i a = some s') :
    T.Noted s s' L i a (L.note s s' (.call i a)) ∧ ∀ j, j ≠ i → s'.phase j = s.phase j := by
  cases a with
  | begin now =>
    simp only [stepCall] at h
    split at h
    · exact begin_noted h
    · cases h
  | start =>
    simp only [stepCall] at h
    split at h
    · next hph =>
      cases h
      exact start_noted hph
    · cases h
  | finish result =>
    simp only [stepCall] at h
    split at h
    · next hph =>
      cases h
      exact quiet_enter rfl rfl (.inr (by rw [hph]; rfl))
    · cases h
  | write failure now => exact write_noted h
  | alarm failure now => exact requestAlarm_noted hp h
  | read =>
    simp only [stepCall] at h
    split at h
    · cases h
      exact quiet_enter rfl rfl (.inl rfl)
    · cases h
      exact quiet_enter rfl rfl (.inl rfl)
    · cases h

/-! ## The invariant -/

/-- At most one run is under way, of an occurrence that is not recorded, and the row is done or
cancelled where its occurrence is. -/
structure RecordedInvariant (x : TaskState ι × RunLedger ι) : Prop where
  kept : x.2.Kept
  recorded_lt : ∀ n ∈ x.2.recorded, n < x.2.next
  current_lt : x.2.current < x.2.next
  taken_lt : ∀ j, x.2.taken j < x.2.next
  alone : ∀ j k, (x.1.phase j).isUnderWay = true → (x.1.phase k).isUnderWay = true → j = k
  unrecorded : ∀ j, (x.1.phase j).isUnderWay = true →
    x.2.taken j ∉ x.2.recorded ∧ x.2.current ∉ x.2.recorded
  settled : ∀ row, x.1.row = some row → x.2.current ∈ x.2.recorded →
    row.status = .done ∨ row.status = .cancelled

namespace RecordedInvariant

omit [DecidableEq ι] in
/-- A step that leaves the ledger, under which no call gets under way. -/
theorem congr (h : RecordedInvariant (s, L))
    (hway : ∀ j, (s'.phase j).isUnderWay = true → (s.phase j).isUnderWay = true)
    (hrow : ∀ row, s'.row = some row → L.current ∈ L.recorded →
      row.status = .done ∨ row.status = .cancelled) : RecordedInvariant (s', L) where
  kept := h.kept
  recorded_lt := h.recorded_lt
  current_lt := h.current_lt
  taken_lt := h.taken_lt
  alone j k hj hk := h.alone j k (hway j hj) (hway k hk)
  unrecorded j hj := h.unrecorded j (hway j hj)
  settled := hrow

omit [DecidableEq ι] in
/-- A new occurrence. -/
theorem renew (h : RecordedInvariant (s, L)) (hway : ∀ j, (s'.phase j).isUnderWay = true →
    (s.phase j).isUnderWay = true) : RecordedInvariant (s', L.renew) where
  kept := ⟨h.kept.1, h.kept.2⟩
  recorded_lt n hn := Nat.lt_succ_of_lt (h.recorded_lt n hn)
  current_lt := Nat.lt_succ_self L.next
  taken_lt j := Nat.lt_succ_of_lt (h.taken_lt j)
  alone j k hj hk := h.alone j k (hway j hj) (hway k hk)
  unrecorded j hj :=
    ⟨(h.unrecorded j (hway j hj)).1, fun hmem => Nat.lt_irrefl _ (h.recorded_lt _ hmem)⟩
  settled _ _ hmem := (Nat.lt_irrefl _ (h.recorded_lt _ hmem)).elim

omit [DecidableEq ι] in
/-- A success, after which no run is under way. -/
theorem succeed (h : RecordedInvariant (s, L)) (hway : ∀ j, (s.phase j).isUnderWay = false)
    (hrow : ∀ row, s.row = some row → L.current ∈ L.taken i :: L.recorded →
      row.status = .done ∨ row.status = .cancelled) :
    RecordedInvariant (s, L.succeed i) where
  kept := ⟨h.kept.1, h.kept.2⟩
  recorded_lt n hn := by
    rcases List.mem_cons.1 hn with rfl | hn
    · exact h.taken_lt i
    · exact h.recorded_lt n hn
  current_lt := h.current_lt
  taken_lt := h.taken_lt
  alone j _ hj _ := by
    rw [hway j] at hj
    cases hj
  unrecorded j hj := by
    rw [hway j] at hj
    cases hj
  settled := hrow

/-- A step of a call under the condition keeps the invariant. -/
theorem noted (h : RecordedInvariant (s, L)) {a : TaskStep} {L' : RunLedger ι}
    (hp : Exclusive T (s, L) (.call i a)) (hn : T.Noted s s' L i a L')
    (hother : ∀ j, j ≠ i → s'.phase j = s.phase j) : RecordedInvariant (s', L') := by
  -- a call that is not under way after the step adds no run under way
  have hquiet (hi : (s'.phase i).isUnderWay = false ∨ (s.phase i).isUnderWay = true) (j : ι)
      (hj : (s'.phase j).isUnderWay = true) : (s.phase j).isUnderWay = true := by
    by_cases hji : j = i
    · subst hji
      rcases hi with hi | hi
      · rw [hi] at hj
        cases hj
      · exact hi
    · rwa [hother j hji] at hj
  cases hn with
  | quiet hrow hi => exact h.congr (hquiet hi) fun row hr => h.settled row (hrow ▸ hr)
  | upsert hi => exact h.renew (hquiet (.inl hi))
  | cancel hrow hi =>
    refine h.congr (hquiet (.inl hi)) fun row hr _ => .inr ?_
    rw [hrow] at hr
    obtain ⟨row, _, rfl⟩ := Option.map_eq_some_iff.1 hr
    rfl
  | retry hph hrow hi =>
    refine h.congr (hquiet (.inl hi)) fun row hr hmem => ?_
    rw [hrow] at hr
    obtain ⟨old, hold, rfl⟩ := Option.map_eq_some_iff.1 hr
    have hopen : ∀ row, s.row = some row → row.status ≠ .done ∧ row.status ≠ .cancelled := by
      simpa only [Exclusive, hph] using hp
    rcases h.settled old hold hmem with hdone | hcancelled
    · exact ((hopen old hold).1 hdone).elim
    · exact ((hopen old hold).2 hcancelled).elim
  | @take row via now hcall hrow hdone hcancelled hsame =>
    have halone : ∀ j, (s.phase j).isUnderWay = false := hp via hcall
    have hself (j : ι) (hj : (s'.phase j).isUnderWay = true) : j = i := by
      by_contra hji
      rw [hother j hji, halone j] at hj
      cases hj
    have hopen : L.current ∉ L.recorded := by
      intro hmem
      rcases h.settled row hrow hmem with h' | h'
      · exact hdone h'
      · exact hcancelled h'
    refine ⟨⟨h.kept.1, h.kept.2⟩, h.recorded_lt, h.current_lt, fun j => ?_, fun j k hj hk => ?_,
      fun j hj => ⟨?_, hopen⟩, fun row' hr hmem => h.settled row' (hsame ▸ hr) hmem⟩
    · show Function.update L.taken i L.current j < L.next
      by_cases hji : j = i
      · subst hji
        rw [Function.update_self]
        exact h.current_lt
      · rw [Function.update_of_ne hji]
        exact h.taken_lt j
    · rw [hself j hj, hself k hk]
    · obtain rfl := hself j hj
      show Function.update L.taken j L.current j ∉ L.recorded
      rwa [Function.update_self]
  | run hrow hi =>
    have hkept : (L.run i).ranAgain = false := by
      show (L.ranAgain || decide (L.taken i ∈ L.recorded)) = false
      rw [h.kept.notRun, decide_eq_false (h.unrecorded i hi).1]
      rfl
    have hs := h.congr (hquiet (.inr hi)) fun row hr => h.settled row (hrow ▸ hr)
    exact ⟨⟨hs.kept.1, hkept⟩, hs.recorded_lt, hs.current_lt, hs.taken_lt, hs.alone,
      hs.unrecorded, hs.settled⟩
  | @complete p c now hi hrow hend =>
    -- the run that writes is the one under way
    have hnone (j : ι) : (s'.phase j).isUnderWay = false := by
      by_cases hji : j = i
      · rw [hji, hend]
      · refine Bool.eq_false_iff.2 fun hj => hji (h.alone j i ?_ hi)
        rwa [hother j hji] at hj
    cases c with
    | again nextMs result =>
      show RecordedInvariant (s', L.renew.succeed i)
      refine (h.renew (hquiet (.inl hend))).succeed hnone fun row _ hmem => ?_
      rcases List.mem_cons.1 hmem with heq | hmem
      · exact absurd (h.taken_lt i) (heq ▸ Nat.lt_irrefl L.next)
      · exact (Nat.lt_irrefl _ (h.recorded_lt _ hmem)).elim
    | finished result =>
      have hdone (row : ScheduledTask) (hr : s'.row = some row) :
          row.status = .done ∨ row.status = .cancelled := by
        rw [hrow] at hr
        obtain ⟨old, _, rfl⟩ := Option.map_eq_some_iff.1 hr
        exact .inl rfl
      have hs : RecordedInvariant (s', L) := h.congr (hquiet (.inl hend)) fun row hr _ => hdone row hr
      exact hs.succeed hnone fun row hr _ => hdone row hr
    | failed e =>
      obtain ⟨htaken, hcurrent⟩ := h.unrecorded i hi
      have hkept : (L.fail i).failedAfter = false := by
        show (L.failedAfter ||
          (decide (L.taken i ∈ L.recorded) || decide (L.current ∈ L.recorded))) = false
        rw [h.kept.notFailed, decide_eq_false htaken, decide_eq_false hcurrent]
        rfl
      have hs : RecordedInvariant (s', L) := h.congr (hquiet (.inl hend))
        fun row _ hmem => (hcurrent hmem).elim
      exact ⟨⟨hkept, hs.kept.2⟩, hs.recorded_lt, hs.current_lt, hs.taken_lt, hs.alone,
        hs.unrecorded, hs.settled⟩

end RecordedInvariant

/-- One step under the condition keeps the invariant. -/
theorem RecordedInvariant.step {x x' : TaskState ι × RunLedger ι} {b : TaskAction ι}
    (h : RecordedInvariant x) (hp : T.Exclusive x b) (hstep : T.recording.step x b = some x') :
    RecordedInvariant x' := by
  obtain ⟨s, L⟩ := x
  obtain ⟨s', hs, rfl⟩ := Option.map_eq_some_iff.1 hstep
  cases b with
  | call i a =>
    obtain ⟨hn, hother⟩ := stepCall_noted hp hs
    exact h.noted hp hn hother
  | prune cutoff =>
    cases hs
    exact h.congr (fun _ hj => hj)
      fun row hr hmem => h.settled row (Option.filter_eq_some_iff.1 hr).1 hmem

/-- A recorded success stays recorded in every run in which no run of the task begins beside
another, no retry revives a row that is done or cancelled, and every alarm request after a written
success goes through. -/
theorem kept_of_exclusive {x : TaskState ι × RunLedger ι} (h : T.recording.Reach T.Exclusive x) :
    x.2.Kept := by
  have hinv : RecordedInvariant x := by
    refine h.invariant (I := RecordedInvariant) (fun x hx => ?_)
      (fun x b x' hx hp hstep => hx.step hp hstep)
    obtain ⟨s, L⟩ := x
    obtain ⟨⟨hidle, -⟩, rfl⟩ := hx
    have hnone (j : ι) : (s.phase j).isUnderWay = false := by
      rw [hidle j]
      rfl
    refine ⟨⟨rfl, rfl⟩, fun n hn => (List.not_mem_nil hn).elim, Nat.zero_lt_one,
      fun _ => Nat.zero_lt_one, fun j k hj => ?_, fun j hj => ?_,
      fun _ _ hmem => (List.not_mem_nil hmem).elim⟩
    · rw [hnone j] at hj
      cases hj
    · rw [hnone j] at hj
      cases hj
  exact hinv.kept

end TaskCalls

/-! ## A success whose alarm fails -/

/-- The row of a task that is repeated is written, its alarm cannot be set, and the same run marks
the row failed. -/
theorem recorded_success_failed :
    ¬ ∀ (ι : Type) (_ : DecidableEq ι) (T : TaskCalls ι) (x : TaskState ι × RunLedger ι),
        T.recording.Reachable x → x.2.Kept := by
  intro h
  have hinit : (runAnd .reconcile).recording.Reachable (mailState (some 60), RunLedger.start) :=
    .init ⟨mailState_init _ _, rfl⟩
  have hrun : ((runAnd .reconcile).recording.run (mailState (some 60), RunLedger.start)
      [.call true (.begin 0), .call true .start, .call true (.finish (.ok none)),
       .call true (.write none 1), .call true (.alarm (some "alarm failed") 1),
       .call true (.write none 2)]).isSome = true := rfl
  have hkept := h Bool inferInstance (runAnd .reconcile) _ (hinit.run (Option.some_get hrun).symm)
  exact Bool.noConfusion (hkept.notFailed : true = false)

/-- A run that has written its success and set the alarm. -/
theorem kept_of_exclusive_run : ∃ x,
    (runAnd .reconcile).recording.Reach (runAnd .reconcile).Exclusive x ∧
      x.2.recorded = [0] ∧ x.2.Kept := by
  have h₀ : (runAnd .reconcile).recording.Reach (runAnd .reconcile).Exclusive
      (mailState (some 60), RunLedger.start) := .init ⟨mailState_init _ _, rfl⟩
  have h₁ := h₀.step (a := .call true (.begin 0)) (by exact fun _ _ _ => rfl) rfl
  have h₂ := h₁.step (a := .call true .start) (by exact trivial) rfl
  have h₃ := h₂.step (a := .call true (.finish (.ok none))) (by exact trivial) rfl
  have h₄ := h₃.step (a := .call true (.write none 1)) (by exact trivial) rfl
  have h₅ := h₄.step (a := .call true (.alarm none 1)) (by exact trivial) rfl
  exact ⟨_, h₅, rfl, TaskCalls.kept_of_exclusive h₅⟩

end HeadlessErp
