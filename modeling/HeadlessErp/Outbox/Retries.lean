import HeadlessErp.Outbox.Conservation

/-!
# Retries

Which rows of `_outbox` a later flush selects. A row after a step was there before, is new, or has been
marked (`RowAfter`); `flushDue` selects the pending rows, so the ones that `markFailed` has marked are
not retried.
-/

namespace HeadlessErp

section
variable {ι : Type} [DecidableEq ι] {C : OutboxCalls ι} {s s' : OutboxState ι}

namespace OutboxState

/-- A row that is not done, and has attempts left, is selected once its time has come; one that has
none left is a dead letter. -/
structure Progresses (s : OutboxState ι) : Prop where
  selected : ∀ row ∈ s.entries, row.status ≠ .done → row.attempts < outboxMaxAttempts →
    ∀ now, row.nextAttemptAt ≤ now → row.isDue now = true
  buried : ∀ row ∈ s.entries, outboxMaxAttempts ≤ row.attempts →
    ∃ letter ∈ s.letters, letter.id = row.id

/-- No row has failed, and each has attempts left. -/
def Unfailed (s : OutboxState ι) : Prop :=
  ∀ row ∈ s.entries, row.status ≠ .failed ∧ row.attempts < outboxMaxAttempts

/-- The condition on a step: `markFailed` finds no row. -/
def NoneMarked (s : OutboxState ι) : OutboxAction ι → Prop
  | .call i (.statement none _) =>
    match s.phase i with
    | .failing row _ _ _ => row.attempts + 1 < outboxMaxAttempts → ∀ r ∈ s.entries, r.id ≠ row.id
    | _ => True
  | _ => True

/-- How a row comes to be in `_outbox` after a step. -/
inductive RowAfter (s : OutboxState ι) : OutboxAction ι → OutboxEntry → Prop where
  | kept {a : OutboxAction ι} {row : OutboxEntry} : row ∈ s.entries → RowAfter s a row
  | inserted {a : OutboxAction ι} (e : OutboxEffect) (options : OutboxEnqueueOptions) (now : Int) :
    RowAfter s a (.new e options now)
  | done {a : OutboxAction ι} {row : OutboxEntry} (now : Int) : row ∈ s.entries →
    RowAfter s a { row with status := .done, updatedAt := now }
  | failed {i : ι} {now : Int} {row row' : OutboxEntry} {error : String} {rest : List OutboxEntry}
    {summary : FlushSummary} : s.phase i = .failing row error rest summary →
    row.attempts + 1 < outboxMaxAttempts → row' ∈ s.entries → row'.id = row.id →
    RowAfter s (.call i (.statement none now))
      { row' with status := .failed, attempts := row.attempts + 1, error := some error,
                  nextAttemptAt := now + outboxBackoffMs (row.attempts + 1), updatedAt := now }

omit [DecidableEq ι] in
theorem rowAfter_insert {a : OutboxAction ι} {e : OutboxEffect} {options : OutboxEnqueueOptions}
    {now : Int} {entries : List OutboxEntry} (h : insertEntry s.entries (.new e options now) = some entries)
    {row : OutboxEntry} (hrow : row ∈ entries) : RowAfter s a row := by
  obtain ⟨rfl, -⟩ := insertEntry_eq_some h
  obtain hrow | hrow := List.mem_append.1 hrow
  · exact .kept hrow
  · obtain rfl := List.mem_singleton.1 hrow
    exact .inserted e options now

theorem rowAfter_begin {i : ι} {now : Int} {uuid : String} {a : OutboxAction ι}
    (h : C.begin s i now uuid = some s') {row : OutboxEntry} (hrow : row ∈ s'.entries) :
    RowAfter s a row := by
  unfold OutboxCalls.begin at h
  split at h
  · simp only at h
    split at h
    · cases h
    · split at h
      · next entries hinsert =>
        obtain rfl := Option.some.inj h
        exact rowAfter_insert hinsert hrow
      · obtain rfl := Option.some.inj h
        exact .kept hrow
  · obtain rfl := Option.some.inj h
    exact .kept hrow
  · split at h
    · obtain rfl := Option.some.inj h
      exact .kept hrow
    · obtain rfl := Option.some.inj h
      exact .kept hrow

theorem rowAfter_fail {i : ι} {now : Int} {failed row : OutboxEntry} {error : String}
    {rest : List OutboxEntry} {summary : FlushSummary}
    (hph : s.phase i = .failing failed error rest summary)
    (hrow : row ∈ (s.fail i failed error rest summary now).entries) :
    RowAfter s (.call i (.statement none now)) row := by
  unfold OutboxState.fail at hrow
  split at hrow
  · next hattempts =>
    obtain ⟨hmem, -⟩ | ⟨row₀, hmem, hid, rfl⟩ := mem_updateEntry hrow
    · exact .kept hmem
    · exact .failed hph hattempts hmem hid
  · split at hrow
    · exact .kept hrow
    · exact .kept hrow

theorem rowAfter_statement {i : ι} {failure : Option String} {now : Int}
    (h : s.statement i failure now = some s') {row : OutboxEntry} (hrow : row ∈ s'.entries) :
    RowAfter s (.call i (.statement failure now)) row := by
  unfold OutboxState.statement at h
  split at h
  · cases h
  · cases h
  · cases h
  · cases h
  · obtain rfl := Option.some.inj h
    exact .kept hrow
  · obtain rfl := Option.some.inj h
    exact .kept hrow
  · obtain rfl := Option.some.inj h
    exact .kept hrow
  · obtain rfl := Option.some.inj h
    obtain ⟨hmem, -⟩ | ⟨row₀, hmem, -, rfl⟩ := mem_updateEntry hrow
    · exact .kept hmem
    · exact .done now hmem
  · next hph =>
    obtain rfl := Option.some.inj h
    exact rowAfter_fail hph hrow
  · obtain rfl := Option.some.inj h
    exact .kept (List.mem_filter.1 hrow).1
  · split at h
    · next entries hinsert =>
      obtain rfl := Option.some.inj h
      exact rowAfter_insert hinsert hrow
    · obtain rfl := Option.some.inj h
      exact .kept hrow
  · obtain rfl := Option.some.inj h
    exact .kept hrow

/-- The rows after a step. -/
theorem rowAfter_step {start : OutboxState ι → Prop} {a : OutboxAction ι}
    (h : (C.system start).step s a = some s') {row : OutboxEntry} (hrow : row ∈ s'.entries) :
    RowAfter s a row := by
  cases a with
  | call i a =>
    cases a with
    | begin now uuid =>
      simp only [OutboxCalls.system, OutboxCalls.stepCall] at h
      split at h
      · exact rowAfter_begin h hrow
      · cases h
    | execute result =>
      simp only [OutboxCalls.system, OutboxCalls.stepCall, OutboxState.execute] at h
      split at h
      · split at h
        · obtain rfl := Option.some.inj h
          exact .kept hrow
        · obtain rfl := Option.some.inj h
          exact .kept hrow
      · cases h
    | statement failure now => exact rowAfter_statement h hrow
  | pruneDone cutoff =>
    obtain rfl := Option.some.inj h
    exact .kept (List.mem_filter.1 hrow).1
  | pruneDlq cutoff =>
    obtain rfl := Option.some.inj h
    exact .kept hrow

theorem Unfailed.step {start : OutboxState ι → Prop} (hs : s.Unfailed) {a : OutboxAction ι}
    (hmarked : s.NoneMarked a) (h : (C.system start).step s a = some s') : s'.Unfailed := by
  intro row hrow
  cases rowAfter_step h hrow with
  | kept hmem => exact hs row hmem
  | inserted => exact ⟨nofun, show 0 < outboxMaxAttempts by decide⟩
  | done now hmem => exact ⟨nofun, (hs _ hmem).2⟩
  | failed hph hattempts hmem hid =>
    simp only [NoneMarked, hph] at hmarked
    exact absurd hid (hmarked hattempts _ hmem)

omit [DecidableEq ι] in
theorem Unfailed.progresses (hs : s.Unfailed) : s.Progresses := by
  refine ⟨fun row hrow hdone _ now htime => ?_, fun row hrow hattempts => ?_⟩
  · have hfailed := (hs row hrow).1
    have hpending : row.status = .pending := by
      cases hstatus : row.status with
      | pending => rfl
      | done => exact absurd hstatus hdone
      | failed => exact absurd hstatus hfailed
    simp [OutboxEntry.isDue, hpending, htime]
  · have := (hs row hrow).2
    omega

end OutboxState

/-- Every row that is not done is selected again, in every run in which `markFailed` finds no row. -/
theorem progresses_of_noneMarked (h : (C.system OutboxState.Unfailed).Reach OutboxState.NoneMarked s) :
    s.Progresses := by
  have hunfailed : s.Unfailed :=
    h.invariant (fun s hs => hs.2) fun s a s' hs hmarked hstep => hs.step hmarked hstep
  exact hunfailed.progresses

end

open OutboxState (Unfailed)

/-- The row of a webhook that has failed once is not selected when its time has come. -/
theorem failed_row_not_retried :
    ¬ ∀ (ι : Type) (_ : DecidableEq ι) (C : OutboxCalls ι) (s : OutboxState ι),
        (C.system Unfailed).Reachable s → s.Progresses := by
  intro h
  have hinit : (webhookCalls.system Unfailed).Reachable emptyOutbox := .init ⟨fun _ => rfl, nofun⟩
  have hrun : ((webhookCalls.system Unfailed).run emptyOutbox
      [.call true (.begin 0 "e1"), .call false (.begin 0 "u"),
       .call false (.execute (.error "webhook responded 500")),
       .call false (.statement none 1)]).isSome = true := rfl
  have hprogresses := h Bool inferInstance webhookCalls _ (hinit.run (Option.some_get hrun).symm)
  have hattempts : 1 < outboxMaxAttempts := by decide
  have htime : (60001 : Int) ≤ 60001 := le_refl _
  have hdue : false = true := hprogresses.selected _ List.mem_cons_self nofun hattempts 60001 htime
  cases hdue

/-- A webhook whose time has not come. -/
theorem progresses_of_noneMarked_webhook : ∃ s,
    (webhookCalls.system Unfailed).Reach OutboxState.NoneMarked s ∧ s.entries.length = 1 ∧
      s.Progresses := by
  have h₀ : (webhookCalls.system Unfailed).Reach OutboxState.NoneMarked emptyOutbox :=
    .init ⟨fun _ => rfl, nofun⟩
  have h₁ := h₀.step (a := .call true (.begin 0 "e1")) (by exact trivial) rfl
  have h₂ := h₁.step (a := .call false (.begin (-1) "u")) (by exact trivial) rfl
  exact ⟨_, h₂, rfl, progresses_of_noneMarked h₂⟩

end HeadlessErp
