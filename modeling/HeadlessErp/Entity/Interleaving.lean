import HeadlessErp.Base.Except
import HeadlessErp.Base.Transition
import HeadlessErp.Entity.Update

/-!
# Interleaved updates

Several calls of `updateItem` on one row, as a transition system. A step is one database step of
one call together with the code up to the next: the row is read, the request is checked against what
was read, the row is written, and the child rows follow. The steps of the calls come in any order.
`Outcome` lists what a step can do, and the invariants of this file and of the ones that follow are
derived from it.
-/

namespace HeadlessErp

/-- How far a call has come. -/
inductive Phase (N : Type) where
  | idle
  | loaded (existing : Record N)
  | checked (existing : Record N) (p : Prepared N)
  | written (existing : Record N) (p : Prepared N) (row : Record N)
  | succeeded (row : Record N)
  | failed (e : ApiError)

/-- A write of the row: who wrote it, the row it replaced and the row it left. -/
structure Commit (ι N : Type) where
  caller : ι
  before : Record N
  after : Record N

/-- The row, the calls, and the writes so far. -/
structure UpdateState (ι N : Type) where
  row : Option (Record N)
  phase : ι → Phase N
  commits : List (Commit ι N)

/-- The steps of the calls. A write carries the time it reads. -/
inductive UpdateAction (ι : Type) where
  | read (i : ι)
  | check (i : ι)
  | write (i : ι) (now : IsoTime)
  | finish (i : ι)

/-- Calls of `updateItem` on the row of one id. -/
structure Updates (ι N : Type) (info : CollectionInfo N) where
  collectionSlug : String
  id : String
  storage : Storage N
  calls : ι → UpdateCall N info

/-- The row a call has written, as it left it. -/
def Phase.wrote {N : Type} : Phase N → Option (Record N)
  | written _ _ row | succeeded row => some row
  | _ => none

namespace UpdateState
variable {ι N : Type} [DecidableEq ι] (s : UpdateState ι N)

/-- A call enters a phase. -/
def enter (i : ι) (ph : Phase N) : UpdateState ι N :=
  { s with phase := fun j => if j = i then ph else s.phase j }

omit [DecidableEq ι] in
/-- A call writes the row. -/
def commit (i : ι) (before after : Record N) : UpdateState ι N :=
  { s with row := some after, commits := s.commits ++ [⟨i, before, after⟩] }

@[simp] theorem enter_row (i : ι) (ph : Phase N) : (s.enter i ph).row = s.row := rfl

@[simp] theorem enter_phase_self (i : ι) (ph : Phase N) : (s.enter i ph).phase i = ph :=
  if_pos rfl

theorem enter_phase_of_ne {i j : ι} (h : j ≠ i) (ph : Phase N) :
    (s.enter i ph).phase j = s.phase j := if_neg h

/-- A phase after a call has entered one: that one, or the phase of another call. -/
theorem phase_enter {i j : ι} {ph q : Phase N} (h : (s.enter i ph).phase j = q) :
    (j = i ∧ q = ph) ∨ (j ≠ i ∧ s.phase j = q) := by
  by_cases hj : j = i
  · subst hj
    exact .inl ⟨rfl, by rw [← h, enter_phase_self]⟩
  · exact .inr ⟨hj, by rw [← h, enter_phase_of_ne s hj]⟩

end UpdateState

namespace Updates
variable {ι N : Type} [DecidableEq ι] [JsNumber N] {info : CollectionInfo N}
variable (U : Updates ι N info)

/-- The step that reads the row. -/
def read (s : UpdateState ι N) (i : ι) : UpdateState ι N :=
  match assertRequest U.collectionSlug (U.calls i) with
  | .error e => s.enter i (.failed e)
  | .ok () =>
    match s.row with
    | none => s.enter i (.failed (.notFound "Item" U.id))
    | some row => s.enter i (.loaded row)

/-- The step that checks the request against the row it has read. -/
def check (s : UpdateState ι N) (i : ι) (existing : Record N) : UpdateState ι N :=
  match checkUpdate U.collectionSlug (U.calls i) existing s.row with
  | .error e => s.enter i (.failed e)
  | .ok p => s.enter i (.checked existing p)

/-- The step that writes the row. -/
def write (s : UpdateState ι N) (i : ι) (existing : Record N) (p : Prepared N) (now : IsoTime) :
    UpdateState ι N :=
  match s.row with
  | none => s.enter i (.failed (.notFound "Item" U.id))
  | some row =>
    match updateRow U.storage (updateData (U.calls i) p now) row with
    | .error e => s.enter i (.failed e)
    | .ok row' => (s.commit i row row').enter i (.written existing p row')

/-- The stored formulas over the replaced child rows: the row with their values, where there are
any. -/
def recomputedRow (i : ι) (existing : Record N) (p : Prepared N) (row : Option (Record N)) :
    Except ApiError (Option (Record N)) :=
  if p.childData.isEmpty then .ok none
  else do
    (U.calls i).replaceChildren p.childData
    let computed := (U.calls i).recomputed (existing.assign p.ruled)
    if computed.isEmpty then .ok none
    else match row with
      | none => .ok none
      | some row => some <$> updateRow U.storage computed row

/-- The step that replaces the child rows. -/
def finish (s : UpdateState ι N) (i : ι) (existing : Record N) (p : Prepared N) (row : Record N) :
    UpdateState ι N :=
  match U.recomputedRow i existing p s.row with
  | .error e => s.enter i (.failed e)
  | .ok none => s.enter i (.succeeded row)
  | .ok (some row') => (s.commit i (s.row.getD row) row').enter i (.succeeded row')

/-- One step of one call. -/
def step (s : UpdateState ι N) : UpdateAction ι → Option (UpdateState ι N)
  | .read i =>
    match s.phase i with
    | .idle => some (U.read s i)
    | _ => none
  | .check i =>
    match s.phase i with
    | .loaded existing => some (U.check s i existing)
    | _ => none
  | .write i now =>
    match s.phase i with
    | .checked existing p => some (U.write s i existing p now)
    | _ => none
  | .finish i =>
    match s.phase i with
    | .written existing p row => some (U.finish s i existing p row)
    | _ => none

/-- The calls from an existing row, before any of them has begun. -/
def system : System (UpdateState ι N) (UpdateAction ι) where
  init s := s.row.isSome ∧ (∀ i, s.phase i = .idle) ∧ s.commits = []
  step := U.step

/-- What a step can do. -/
inductive Outcome (s : UpdateState ι N) : UpdateAction ι → UpdateState ι N → Prop where
  | refused {i : ι} {e : ApiError} : s.phase i = .idle →
    assertRequest U.collectionSlug (U.calls i) = .error e → Outcome s (.read i) (s.enter i (.failed e))
  | missing {i : ι} : s.phase i = .idle → s.row = none →
    Outcome s (.read i) (s.enter i (.failed (.notFound "Item" U.id)))
  | loaded {i : ι} {row : Record N} : s.phase i = .idle → s.row = some row →
    Outcome s (.read i) (s.enter i (.loaded row))
  | rejected {i : ι} {existing : Record N} {e : ApiError} : s.phase i = .loaded existing →
    checkUpdate U.collectionSlug (U.calls i) existing s.row = .error e →
    Outcome s (.check i) (s.enter i (.failed e))
  | checked {i : ι} {existing : Record N} {p : Prepared N} : s.phase i = .loaded existing →
    checkUpdate U.collectionSlug (U.calls i) existing s.row = .ok p →
    Outcome s (.check i) (s.enter i (.checked existing p))
  | gone {i : ι} {now : IsoTime} {existing : Record N} {p : Prepared N} :
    s.phase i = .checked existing p → s.row = none →
    Outcome s (.write i now) (s.enter i (.failed (.notFound "Item" U.id)))
  | aborted {i : ι} {now : IsoTime} {existing row : Record N} {p : Prepared N} {e : ApiError} :
    s.phase i = .checked existing p → s.row = some row →
    updateRow U.storage (updateData (U.calls i) p now) row = .error e →
    Outcome s (.write i now) (s.enter i (.failed e))
  | written {i : ι} {now : IsoTime} {existing row row' : Record N} {p : Prepared N} :
    s.phase i = .checked existing p → s.row = some row →
    updateRow U.storage (updateData (U.calls i) p now) row = .ok row' →
    Outcome s (.write i now) ((s.commit i row row').enter i (.written existing p row'))
  | unfinished {i : ι} {existing row : Record N} {p : Prepared N} {e : ApiError} :
    s.phase i = .written existing p row → U.recomputedRow i existing p s.row = .error e →
    Outcome s (.finish i) (s.enter i (.failed e))
  | finished {i : ι} {existing row : Record N} {p : Prepared N} :
    s.phase i = .written existing p row → U.recomputedRow i existing p s.row = .ok none →
    Outcome s (.finish i) (s.enter i (.succeeded row))
  | recomputed {i : ι} {existing row before after : Record N} {p : Prepared N} :
    s.phase i = .written existing p row → s.row = some before →
    updateRow U.storage ((U.calls i).recomputed (existing.assign p.ruled)) before = .ok after →
    Outcome s (.finish i) ((s.commit i before after).enter i (.succeeded after))

omit [DecidableEq ι] [JsNumber N] in
/-- A second write of the row writes the stored formulas over the row it finds. -/
theorem recomputedRow_eq_some {U : Updates ι N info} {i : ι} {existing row' : Record N}
    {p : Prepared N} {row : Option (Record N)}
    (h : U.recomputedRow i existing p row = .ok (some row')) :
    ∃ before, row = some before ∧
      updateRow U.storage ((U.calls i).recomputed (existing.assign p.ruled)) before = .ok row' := by
  unfold recomputedRow at h
  split at h
  · cases h
  · obtain ⟨_, _, h⟩ := exists_of_bind_eq_ok h
    cases row with
    | none =>
      simp only [ite_self] at h
      cases h
    | some before =>
      simp only at h
      split at h
      · cases h
      · refine ⟨before, rfl, ?_⟩
        cases hu : updateRow U.storage ((U.calls i).recomputed (existing.assign p.ruled)) before with
        | error e =>
          rw [hu] at h
          cases h
        | ok after =>
          rw [hu] at h
          cases h
          rfl

/-- Every step is one of the outcomes. -/
theorem outcome_of_step {s s' : UpdateState ι N} {a : UpdateAction ι} (h : U.step s a = some s') :
    U.Outcome s a s' := by
  cases a with
  | read i =>
    simp only [step] at h
    split at h
    · next hph =>
      cases h
      unfold read
      split
      · next hreq => exact .refused hph hreq
      · cases hrow : s.row with
        | none => exact .missing hph hrow
        | some row => exact .loaded hph hrow
    · cases h
  | check i =>
    simp only [step] at h
    split at h
    · next existing hph =>
      cases h
      unfold check
      split
      · next hcheck => exact .rejected hph hcheck
      · next hcheck => exact .checked hph hcheck
    · cases h
  | write i now =>
    simp only [step] at h
    split at h
    · next existing p hph =>
      cases h
      unfold write
      split
      · next hrow => exact .gone hph hrow
      · next row hrow =>
        split
        · next hup => exact .aborted hph hrow hup
        · next hup => exact .written hph hrow hup
    · cases h
  | finish i =>
    simp only [step] at h
    split at h
    · next existing p row hph =>
      cases h
      unfold finish
      split
      · next hre => exact .unfinished hph hre
      · next hre => exact .finished hph hre
      · next row' hre =>
        obtain ⟨before, hbefore, hup⟩ := recomputedRow_eq_some hre
        rw [hbefore, Option.getD_some]
        exact .recomputed hph hbefore hup
    · cases h

end Updates

end HeadlessErp
