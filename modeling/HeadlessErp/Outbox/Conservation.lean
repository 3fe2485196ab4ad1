import HeadlessErp.Outbox.Runs

/-!
# Conservation

No run whose steps are guarded loses or duplicates an effect. An effect that has not been delivered
stays the one row that it is: the statements that move or update a row are then of effects that have
been delivered (`PhaseOk`), and leave the rows of the others.
-/

namespace HeadlessErp

/-! ## The property -/

namespace OutboxState
variable {ι : Type} (s : OutboxState ι)

/-- Each effect that was enqueued, and has not been delivered, is one row: of `_outbox`, where it can
still be selected, or of `_outbox_dlq`. -/
def Conserved : Prop :=
  ∀ e ∈ s.enqueued, e ∉ s.delivered → selectableCount s.entries e + letterCount s.letters e = 1

/-- Tables with the property: their rows hold effects that were enqueued, each under an id of its own. -/
structure Stored : Prop where
  ids : ∀ e ∈ s.enqueued, ∀ e' ∈ s.enqueued, e.id = e'.id → e = e'
  entries : ∀ row ∈ s.entries, row.toOutboxEffect ∈ s.enqueued
  letters : ∀ letter ∈ s.letters, letter.toOutboxEffect ∈ s.enqueued
  conserved : s.Conserved

/-- The condition on a step: neither `markFailed` nor the INSERT of `deadLetter` or of `retryDlq` is of
an effect that has not been delivered, and `pruneDlq` deletes no such effect. -/
def Guarded : OutboxAction ι → Prop
  | .call i (.statement none _) =>
    match s.phase i with
    | .failing row _ _ _ => row.toOutboxEffect ∈ s.delivered
    | .restoring letter => letter.toOutboxEffect ∈ s.delivered
    | _ => True
  | .pruneDlq cutoff => ∀ letter ∈ s.letters, letter.failedAt < cutoff →
    letter.toOutboxEffect ∈ s.delivered
  | _ => True

end OutboxState

/-- The effects of the rows that a call has read. -/
def OutboxPhase.held : OutboxPhase → List OutboxEffect
  | executing row rest _ | recording row rest _ | failing row _ rest _ | burying row rest _ =>
    row.toOutboxEffect :: rest.map (·.toOutboxEffect)
  | restoring letter | clearing letter => [letter.toOutboxEffect]
  | _ => []

/-- The effect that a call has seen delivered, or has moved. -/
def OutboxPhase.settled : OutboxPhase → Option OutboxEffect
  | recording row _ _ | burying row _ _ => some row.toOutboxEffect
  | clearing letter => some letter.toOutboxEffect
  | _ => none

namespace OutboxState
variable {ι : Type} [DecidableEq ι] {s t : OutboxState ι} {i : ι} {now : Int}

/-- What a call has read was enqueued, and what it has moved was delivered. -/
structure PhaseOk (enqueued delivered : List OutboxEffect) (ph : OutboxPhase) : Prop where
  held : ∀ e ∈ ph.held, e ∈ enqueued
  settled : ∀ e, ph.settled = some e → e ∈ delivered

structure Accounted (s : OutboxState ι) : Prop extends s.Stored where
  phases : ∀ i, PhaseOk s.enqueued s.delivered (s.phase i)

theorem phaseOk_next {enqueued : List OutboxEffect} {rest : List OutboxEntry}
    (h : ∀ row ∈ rest, row.toOutboxEffect ∈ enqueued) (delivered : List OutboxEffect)
    (summary : FlushSummary) : PhaseOk enqueued delivered (.next rest summary) := by
  cases rest with
  | nil => exact ⟨nofun, nofun⟩
  | cons row rest =>
    refine ⟨fun e he => ?_, nofun⟩
    obtain rfl | he := List.mem_cons.1 he
    · exact h row List.mem_cons_self
    · obtain ⟨row', hrow', rfl⟩ := List.mem_map.1 he
      exact h row' (List.mem_cons_of_mem _ hrow')

/-- The rows that a flush has yet to execute. -/
theorem PhaseOk.rest {enqueued delivered : List OutboxEffect} {row : OutboxEntry}
    {rest : List OutboxEntry} {ph : OutboxPhase} (h : PhaseOk enqueued delivered ph)
    (hheld : ph.held = row.toOutboxEffect :: rest.map (·.toOutboxEffect)) :
    row.toOutboxEffect ∈ enqueued ∧ ∀ r ∈ rest, r.toOutboxEffect ∈ enqueued := by
  refine ⟨h.held _ (hheld ▸ List.mem_cons_self), fun r hr => h.held _ ?_⟩
  rw [hheld]
  exact List.mem_cons_of_mem _ (List.mem_map_of_mem hr)

/-- A step of a call: its tables, and the phase that the call enters. -/
theorem Accounted.enter (h : Accounted s) (hstored : t.Stored) (hphase : t.phase = s.phase)
    (henqueued : ∀ e ∈ s.enqueued, e ∈ t.enqueued) (hdelivered : ∀ e ∈ s.delivered, e ∈ t.delivered)
    {ph : OutboxPhase} (hph : PhaseOk t.enqueued t.delivered ph) : Accounted (t.enter i ph) := by
  have hphases (j : ι) : PhaseOk t.enqueued t.delivered (Function.update t.phase i ph j) := by
    obtain rfl | hj := eq_or_ne j i
    · rwa [Function.update_self]
    · rw [Function.update_of_ne hj, hphase]
      obtain ⟨hheld, hsettled⟩ := h.phases j
      exact ⟨fun e he => henqueued e (hheld e he), fun e he => hdelivered e (hsettled e he)⟩
  exact ⟨⟨hstored.ids, hstored.entries, hstored.letters, hstored.conserved⟩, hphases⟩

/-- A call that leaves the tables. -/
theorem Accounted.quiet (h : Accounted s) {ph : OutboxPhase} (hph : PhaseOk s.enqueued s.delivered ph) :
    Accounted (s.enter i ph) :=
  h.enter h.toStored rfl (fun _ he => he) (fun _ he => he) hph

/-! ## Statements -/

omit [DecidableEq ι] in
/-- An effect with the id of one that has been delivered has been delivered. -/
theorem Stored.id_ne (h : s.Stored) {e e' : OutboxEffect} (he : e ∈ s.enqueued)
    (hne : e ∉ s.delivered) (he' : e' ∈ s.enqueued) (hdelivered : e' ∈ s.delivered) :
    e.id ≠ e'.id := by
  intro hid
  obtain rfl := h.ids e he e' he' hid
  exact hne hdelivered

omit [DecidableEq ι] in
theorem Stored.insert (h : s.Stored) {row : OutboxEntry} {entries : List OutboxEntry}
    (hinsert : insertEntry s.entries row = some entries) (hstatus : row.status = .pending)
    (hfresh : ∀ e ∈ s.enqueued, e.id ≠ row.id) :
    ({ s with entries, enqueued := row.toOutboxEffect :: s.enqueued } : OutboxState ι).Stored := by
  obtain ⟨rfl, -⟩ := insertEntry_eq_some hinsert
  have hne : ∀ e ∈ s.enqueued, row.toOutboxEffect ≠ e := by
    rintro e he rfl
    exact hfresh _ he rfl
  refine ⟨?_, ?_, fun letter hletter => List.mem_cons_of_mem _ (h.letters letter hletter), ?_⟩
  · intro e he e' he' hid
    obtain rfl | he := List.mem_cons.1 he
    · obtain rfl | he' := List.mem_cons.1 he'
      · rfl
      · exact absurd hid.symm (hfresh e' he')
    · obtain rfl | he' := List.mem_cons.1 he'
      · exact absurd hid (hfresh e he)
      · exact h.ids e he e' he' hid
  · intro r hr
    obtain hr | hr := List.mem_append.1 hr
    · exact List.mem_cons_of_mem _ (h.entries r hr)
    · obtain rfl := List.mem_singleton.1 hr
      exact List.mem_cons_self
  · intro e he hdelivered
    show selectableCount (s.entries ++ [row]) e + letterCount s.letters e = 1
    obtain rfl | he := List.mem_cons.1 he
    · -- no other row has the new effect
      have hentries : selectableCount s.entries row.toOutboxEffect = 0 :=
        List.countP_eq_zero.2 fun r hr => by
          have := hne _ (h.entries r hr)
          simp [Ne.symm this]
      have hletters : letterCount s.letters row.toOutboxEffect = 0 :=
        List.countP_eq_zero.2 fun r hr => by
          have := hne _ (h.letters r hr)
          simp [Ne.symm this]
      rw [hletters, selectableCount, List.countP_append, List.countP_singleton]
      rw [selectableCount] at hentries
      simp [hentries, hstatus]
    · rw [selectableCount_append (.inl (hne e he))]
      exact h.conserved e he hdelivered

omit [DecidableEq ι] in
theorem Stored.deliver (h : s.Stored) (e : OutboxEffect) :
    ({ s with delivered := e :: s.delivered } : OutboxState ι).Stored :=
  ⟨h.ids, h.entries, h.letters, fun e' he' hne =>
    h.conserved e' he' fun hmem => hne (List.mem_cons_of_mem _ hmem)⟩

omit [DecidableEq ι] in
/-- An `UPDATE` of the row of an effect that has been delivered. -/
theorem Stored.update (h : s.Stored) {row : OutboxEntry} (hrow : row.toOutboxEffect ∈ s.enqueued)
    (hdelivered : row.toOutboxEffect ∈ s.delivered) {f : OutboxEntry → OutboxEntry}
    (hf : ∀ row, (f row).toOutboxEffect = row.toOutboxEffect) :
    ({ s with entries := updateEntry s.entries row.id f } : OutboxState ι).Stored := by
  refine ⟨h.ids, fun r hr => ?_, h.letters, fun e he hne => ?_⟩
  · obtain ⟨hr, -⟩ | ⟨r₀, hr₀, -, rfl⟩ := mem_updateEntry hr
    · exact h.entries r hr
    · rw [hf]
      exact h.entries r₀ hr₀
  · show selectableCount (updateEntry s.entries row.id f) e + _ = 1
    rw [selectableCount_updateEntry hf (h.id_ne he hne hrow hdelivered)]
    exact h.conserved e he hne

omit [DecidableEq ι] in
theorem Stored.markDone (h : s.Stored) {row : OutboxEntry} (hrow : row.toOutboxEffect ∈ s.enqueued)
    (hdelivered : row.toOutboxEffect ∈ s.delivered) (now : Int) :
    ({ s with entries := markDone s.entries row.id now } : OutboxState ι).Stored :=
  h.update hrow hdelivered fun _ => rfl

omit [DecidableEq ι] in
theorem Stored.markFailed (h : s.Stored) {row : OutboxEntry}
    (hrow : row.toOutboxEffect ∈ s.enqueued) (hdelivered : row.toOutboxEffect ∈ s.delivered)
    (attempts : Nat) (error : String) (now : Int) :
    ({ s with entries := markFailed s.entries row.id attempts error now } : OutboxState ι).Stored :=
  h.update hrow hdelivered fun _ => rfl

omit [DecidableEq ι] in
/-- A `DELETE` of rows whose effects have been delivered, or are done. -/
theorem Stored.delete (h : s.Stored) {p : OutboxEntry → Bool}
    (hp : ∀ row ∈ s.entries, p row = false →
      row.toOutboxEffect ∈ s.delivered ∨ row.status ≠ .pending) :
    ({ s with entries := s.entries.filter p } : OutboxState ι).Stored := by
  refine ⟨h.ids, fun r hr => h.entries r (List.mem_filter.1 hr).1, h.letters, fun e he hne => ?_⟩
  show selectableCount (s.entries.filter p) e + _ = 1
  rw [selectableCount_filter fun row hrow heq hstatus => ?_]
  · exact h.conserved e he hne
  · by_contra hfalse
    obtain hmem | hpending := hp row hrow (Bool.eq_false_iff.2 hfalse)
    · exact hne (heq ▸ hmem)
    · exact hpending hstatus

omit [DecidableEq ι] in
theorem Stored.insertLetter (h : s.Stored) {letter : DeadLetter} {letters : List DeadLetter}
    (hinsert : insertLetter s.letters letter = some letters)
    (hletter : letter.toOutboxEffect ∈ s.enqueued)
    (hdelivered : letter.toOutboxEffect ∈ s.delivered) :
    ({ s with letters } : OutboxState ι).Stored := by
  obtain rfl := insertLetter_eq_some hinsert
  refine ⟨h.ids, h.entries, fun l hl => ?_, fun e he hne => ?_⟩
  · obtain hl | hl := List.mem_append.1 hl
    · exact h.letters l hl
    · obtain rfl := List.mem_singleton.1 hl
      exact hletter
  · show _ + letterCount (s.letters ++ [letter]) e = 1
    rw [letterCount_append]
    · exact h.conserved e he hne
    · rintro rfl
      exact hne hdelivered

omit [DecidableEq ι] in
theorem Stored.deleteLetter (h : s.Stored) {p : DeadLetter → Bool}
    (hp : ∀ letter ∈ s.letters, p letter = false → letter.toOutboxEffect ∈ s.delivered) :
    ({ s with letters := s.letters.filter p } : OutboxState ι).Stored := by
  refine ⟨h.ids, h.entries, fun l hl => h.letters l (List.mem_filter.1 hl).1, fun e he hne => ?_⟩
  show _ + letterCount (s.letters.filter p) e = 1
  rw [letterCount_filter fun letter hletter heq => ?_]
  · exact h.conserved e he hne
  · by_contra hfalse
    exact hne (heq ▸ hp letter hletter (Bool.eq_false_iff.2 hfalse))

omit [DecidableEq ι] in
/-- The INSERT of `retryDlq`, of an effect that has been delivered. -/
theorem Stored.restore (h : s.Stored) {row : OutboxEntry} {entries : List OutboxEntry}
    (hinsert : insertEntry s.entries row = some entries) (hrow : row.toOutboxEffect ∈ s.enqueued)
    (hdelivered : row.toOutboxEffect ∈ s.delivered) :
    ({ s with entries } : OutboxState ι).Stored := by
  obtain ⟨rfl, -⟩ := insertEntry_eq_some hinsert
  refine ⟨h.ids, fun r hr => ?_, h.letters, fun e he hne => ?_⟩
  · obtain hr | hr := List.mem_append.1 hr
    · exact h.entries r hr
    · obtain rfl := List.mem_singleton.1 hr
      exact hrow
  · show selectableCount (s.entries ++ [row]) e + _ = 1
    rw [selectableCount_append (.inl ?_)]
    · exact h.conserved e he hne
    · rintro rfl
      exact hne hdelivered

/-! ## Steps -/

variable {C : OutboxCalls ι} {s' : OutboxState ι}

theorem Accounted.begin (h : Accounted s) {uuid : String} (hstep : C.begin s i now uuid = some s') :
    Accounted s' := by
  unfold OutboxCalls.begin at hstep
  split at hstep
  · simp only at hstep
    split at hstep
    · cases hstep
    · next hfresh =>
      have hfresh : ∀ e ∈ s.enqueued, e.id ≠ uuid := by simpa using hfresh
      split at hstep
      · next entries hinsert =>
        obtain rfl := Option.some.inj hstep
        exact h.enter (h.toStored.insert hinsert rfl hfresh) rfl
          (fun e he => List.mem_cons_of_mem _ he) (fun _ he => he) ⟨nofun, nofun⟩
      · obtain rfl := Option.some.inj hstep
        exact h.quiet ⟨nofun, nofun⟩
  · obtain rfl := Option.some.inj hstep
    exact h.quiet (phaseOk_next (fun row hrow => h.entries row (mem_dueEntries hrow).1) _ _)
  · split at hstep
    · next letter hfind =>
      obtain rfl := Option.some.inj hstep
      refine h.quiet ⟨fun e he => ?_, nofun⟩
      obtain rfl := List.mem_singleton.1 he
      exact h.letters letter (List.mem_of_find?_eq_some hfind)
    · obtain rfl := Option.some.inj hstep
      exact h.quiet ⟨nofun, nofun⟩

theorem Accounted.execute (h : Accounted s) {result : Except String Unit}
    (hstep : s.execute i result = some s') : Accounted s' := by
  unfold OutboxState.execute at hstep
  split at hstep
  · next row rest summary hph =>
    have hheld : ∀ e ∈ row.toOutboxEffect :: rest.map (·.toOutboxEffect), e ∈ s.enqueued := by
      have := (h.phases i).held
      rwa [hph] at this
    split at hstep
    · obtain rfl := Option.some.inj hstep
      refine h.enter (h.toStored.deliver row.toOutboxEffect) rfl (fun _ he => he)
        (fun e he => List.mem_cons_of_mem _ he) ⟨hheld, fun e he => ?_⟩
      obtain rfl := Option.some.inj he
      exact List.mem_cons_self
    · obtain rfl := Option.some.inj hstep
      exact h.quiet ⟨hheld, nofun⟩
  · cases hstep

/-- The statement after a failure, of an effect that has been delivered. -/
theorem Accounted.fail (h : Accounted s) {row : OutboxEntry} {error : String}
    {rest : List OutboxEntry} {summary : FlushSummary}
    (hrow : row.toOutboxEffect ∈ s.enqueued) (hrest : ∀ r ∈ rest, r.toOutboxEffect ∈ s.enqueued)
    (hdelivered : row.toOutboxEffect ∈ s.delivered) :
    Accounted (s.fail i row error rest summary now) := by
  unfold OutboxState.fail
  split
  · exact h.enter (h.toStored.markFailed hrow hdelivered _ _ _) rfl (fun _ he => he)
      (fun _ he => he) (phaseOk_next hrest _ _)
  · split
    · next letters hinsert =>
      refine h.enter (h.toStored.insertLetter hinsert hrow hdelivered) rfl (fun _ he => he)
        (fun _ he => he) ⟨fun e he => ?_, fun e he => ?_⟩
      · obtain rfl | he := List.mem_cons.1 he
        · exact hrow
        · obtain ⟨r, hr, rfl⟩ := List.mem_map.1 he
          exact hrest r hr
      · obtain rfl := Option.some.inj he
        exact hdelivered
    · exact h.quiet ⟨nofun, nofun⟩

theorem Accounted.statement (h : Accounted s) {failure : Option String}
    (hguarded : s.Guarded (.call i (.statement failure now)))
    (hstep : s.statement i failure now = some s') : Accounted s' := by
  have hphase := h.phases i
  unfold OutboxState.statement at hstep
  split at hstep
  · cases hstep
  · cases hstep
  · cases hstep
  · cases hstep
  · next row rest summary e hph =>
    obtain rfl := Option.some.inj hstep
    rw [hph] at hphase
    exact h.quiet ⟨hphase.held, nofun⟩
  · obtain rfl := Option.some.inj hstep
    exact h.quiet ⟨nofun, nofun⟩
  · obtain rfl := Option.some.inj hstep
    exact h.quiet ⟨nofun, nofun⟩
  · next row rest summary hph =>
    obtain rfl := Option.some.inj hstep
    rw [hph] at hphase
    obtain ⟨hrow, hrest⟩ := hphase.rest rfl
    exact h.enter (h.toStored.markDone hrow (hphase.settled _ rfl) _) rfl (fun _ he => he)
      (fun _ he => he) (phaseOk_next hrest _ _)
  · next row e rest summary hph =>
    obtain rfl := Option.some.inj hstep
    rw [hph] at hphase
    obtain ⟨hrow, hrest⟩ := hphase.rest rfl
    simp only [Guarded, hph] at hguarded
    exact h.fail hrow hrest hguarded
  · next row rest summary hph =>
    obtain rfl := Option.some.inj hstep
    rw [hph] at hphase
    obtain ⟨hrow, hrest⟩ := hphase.rest rfl
    refine h.enter (h.toStored.delete fun r hr hid => .inl ?_) rfl (fun _ he => he) (fun _ he => he)
      (phaseOk_next hrest _ _)
    have hid : r.id = row.id := by simpa using hid
    obtain heq := h.ids _ (h.entries r hr) _ hrow hid
    exact heq ▸ hphase.settled _ rfl
  · next letter hph =>
    rw [hph] at hphase
    have hletter := hphase.held _ List.mem_cons_self
    simp only [Guarded, hph] at hguarded
    split at hstep
    · next entries hinsert =>
      obtain rfl := Option.some.inj hstep
      refine h.enter (h.toStored.restore hinsert hletter hguarded) rfl (fun _ he => he)
        (fun _ he => he) ⟨hphase.held, fun e he => ?_⟩
      obtain rfl := Option.some.inj he
      exact hguarded
    · obtain rfl := Option.some.inj hstep
      exact h.quiet ⟨nofun, nofun⟩
  · next letter hph =>
    obtain rfl := Option.some.inj hstep
    rw [hph] at hphase
    have hletter := hphase.held _ List.mem_cons_self
    refine h.enter (h.toStored.deleteLetter fun l hl hid => ?_) rfl (fun _ he => he) (fun _ he => he)
      ⟨nofun, nofun⟩
    have hid : l.id = letter.id := by simpa using hid
    obtain heq := h.ids _ (h.letters l hl) _ hletter hid
    exact heq ▸ hphase.settled _ rfl

end OutboxState

open OutboxState (Accounted Stored)

section
variable {ι : Type} [DecidableEq ι] {C : OutboxCalls ι} {s s' : OutboxState ι}

theorem OutboxState.Accounted.step (h : Accounted s) {a : OutboxAction ι} (hguarded : s.Guarded a)
    (hstep : (C.system Stored).step s a = some s') : Accounted s' := by
  cases a with
  | call i a =>
    cases a with
    | begin now uuid =>
      simp only [OutboxCalls.system, OutboxCalls.stepCall] at hstep
      split at hstep
      · exact h.begin hstep
      · cases hstep
    | execute result => exact h.execute hstep
    | statement failure now => exact h.statement hguarded hstep
  | pruneDone cutoff =>
    obtain rfl := Option.some.inj hstep
    refine ⟨h.toStored.delete fun row _ hdone => .inr fun hpending => ?_, h.phases⟩
    simp [hpending] at hdone
  | pruneDlq cutoff =>
    obtain rfl := Option.some.inj hstep
    refine ⟨h.toStored.deleteLetter fun letter hletter hold => hguarded letter hletter ?_, h.phases⟩
    simpa using hold

/-- Each effect that was enqueued and has not been delivered is in one of the tables, once, in every
run whose steps are guarded. -/
theorem conserved_of_guarded (h : (C.system Stored).Reach OutboxState.Guarded s) : s.Conserved := by
  have haccounted : Accounted s := by
    refine h.invariant (fun s ⟨hidle, hstored⟩ => ⟨hstored, fun i => ?_⟩) fun s a s' hs hguarded hstep =>
      hs.step hguarded hstep
    rw [hidle i]
    exact ⟨nofun, nofun⟩
  exact haccounted.conserved

end

/-! ## A webhook that fails -/

/-- A webhook is enqueued, and the outbox is flushed. -/
def webhookCalls : OutboxCalls Bool where
  calls i := if i then .enqueue "webhook" "\x7b\x7d" {} else .flushDue 50

/-- Before the calls. -/
def emptyOutbox : OutboxState Bool where
  entries := []
  letters := []
  phase _ := .idle
  enqueued := []
  delivered := []

theorem emptyOutbox_init : (webhookCalls.system Stored).init emptyOutbox :=
  ⟨fun _ => rfl, ⟨nofun, nofun, nofun, nofun⟩⟩

/-- The webhook fails once: its row is `failed` from then on, which no flush selects. -/
theorem failed_effect_lost :
    ¬ ∀ (ι : Type) (_ : DecidableEq ι) (C : OutboxCalls ι) (s : OutboxState ι),
        (C.system Stored).Reachable s → s.Conserved := by
  intro h
  have hinit : (webhookCalls.system Stored).Reachable emptyOutbox := .init emptyOutbox_init
  have hrun : ((webhookCalls.system Stored).run emptyOutbox
      [.call true (.begin 0 "e1"), .call false (.begin 0 "u"),
       .call false (.execute (.error "webhook responded 500")),
       .call false (.statement none 1)]).isSome = true := rfl
  have hconserved := h Bool inferInstance webhookCalls _ (hinit.run (Option.some_get hrun).symm)
  have hcount : 0 = 1 := hconserved ⟨"e1", "webhook", "\x7b\x7d"⟩ List.mem_cons_self nofun
  cases hcount

/-- The webhook is delivered. -/
theorem conserved_of_guarded_webhook : ∃ s,
    (webhookCalls.system Stored).Reach OutboxState.Guarded s ∧ s.delivered.length = 1 ∧
      s.Conserved := by
  have h₀ : (webhookCalls.system Stored).Reach OutboxState.Guarded emptyOutbox :=
    .init emptyOutbox_init
  have h₁ := h₀.step (a := .call true (.begin 0 "e1")) (by exact trivial) rfl
  have h₂ := h₁.step (a := .call false (.begin 0 "u")) (by exact trivial) rfl
  have h₃ := h₂.step (a := .call false (.execute (.ok ()))) (by exact trivial) rfl
  have h₄ := h₃.step (a := .call false (.statement none 1)) (by exact trivial) rfl
  exact ⟨_, h₄, rfl, conserved_of_guarded h₄⟩

end HeadlessErp
