import Mathlib.Data.Rat.Floor
import HeadlessErp.Locks.LockObject

/-!
# Running under a lock

`withLock` of `packages/locks/src/service.ts`: acquire the lease with retries, start a timer that
renews it, run the callback, stop the timer, release. A call is one `withLock` with its own owner
(`crypto.randomUUID`). Requests to the lock object are served one at a time at any delay; the
renewals are served at the moment the timer sends them, which is what `Punctual` says of a run.
-/

namespace HeadlessErp

/-! ## The code -/

/-- `ttlMs`, `waitMs` and `timeoutMs`, with their defaults. -/
structure LockOptions where
  ttlMs : Rat := 60000
  waitMs : Rat := 100
  timeoutMs : Rat := 30000

/-- The calls of `withLock` on one lock name, each with its owner. -/
structure LockCalls (ι : Type) where
  name : String
  owner : ι → String
  options : ι → LockOptions
  name_ne : name ≠ ""
  owner_ne : ∀ i, owner i ≠ ""
  owner_injective : ∀ i j, owner i = owner j → i = j

/-- The period of `startRenewer`. -/
def renewInterval (ttlMs : Rat) : Rat := max 1000 (⌊ttlMs / 2⌋ : Int)

/-- How far a call has come. -/
inductive LockPhase where
  | idle
  | requesting (deadline backoff : Rat)
  | refused (deadline backoff : Rat)
  | sleeping (until_ deadline backoff : Rat)
  | granted (expiresAt : Rat)
  | running (nextRenewal : Rat)
  | releasing
  | timedOut
  | done
  deriving DecidableEq

/-- The lock object, the clock and the calls. -/
structure WithLockState (ι : Type) where
  table : LockTable
  clock : Rat
  phase : ι → LockPhase

/-- The steps: a call begins, its acquire request is served, its refusal arrives, it wakes up, its
grant arrives and the callback starts, the timer renews, the callback ends, the release is served. -/
inductive LockStep where
  | begin
  | serve
  | refusal
  | wake
  | start
  | renew
  | finish
  | release

/-- The state after a call's step. -/
def WithLockState.enter {ι : Type} [DecidableEq ι] (s : WithLockState ι) (t : LockTable) (now : Rat)
    (i : ι) (ph : LockPhase) : WithLockState ι where
  table := t
  clock := now
  phase j := if j = i then ph else s.phase j

theorem WithLockState.enter_phase_self {ι : Type} [DecidableEq ι] (s : WithLockState ι)
    (t : LockTable) (now : Rat) (i : ι) (ph : LockPhase) : (s.enter t now i ph).phase i = ph :=
  if_pos rfl

theorem WithLockState.enter_phase_of_ne {ι : Type} [DecidableEq ι] (s : WithLockState ι)
    (t : LockTable) (now : Rat) {i j : ι} (h : j ≠ i) (ph : LockPhase) :
    (s.enter t now i ph).phase j = s.phase j := if_neg h

namespace LockCalls
variable {ι : Type} [DecidableEq ι] (L : LockCalls ι)

/-- The lease of a call, as the lock object grants it. -/
def lease (i : ι) : Rat := leaseMs (some (L.options i).ttlMs)

/-- The period of a call's timer. -/
def interval (i : ι) : Rat := renewInterval (L.options i).ttlMs

/-- What a request leaves of the table. -/
def served (t : LockTable) (now : Rat) (request : LockRequest) : LockTable :=
  (lockFetch t now request).2

/-- One step of one call: the table, and the phase the call enters. -/
def stepCall (t : LockTable) (now : Rat) (i : ι) : LockPhase → LockStep →
    Option (LockTable × LockPhase)
  | .idle, .begin =>
    some (t, .requesting (now + (L.options i).timeoutMs) (L.options i).waitMs)
  | .requesting deadline backoff, .serve =>
    let request := LockRequest.acquire L.name (L.owner i) (some (L.options i).ttlMs)
    match lockFetch t now request with
    | (.acquired _ expiresAt _ _, t) => some (t, .granted expiresAt)
    | (_, t) => some (t, .refused deadline backoff)
  | .refused deadline backoff, .refusal =>
    if deadline ≤ now then some (t, .timedOut)
    else some (t, .sleeping (now + backoff) deadline (min (backoff * 2) 1000))
  | .sleeping until_ deadline backoff, .wake =>
    if until_ ≤ now then some (t, .requesting deadline backoff) else none
  | .granted _, .start => some (t, .running (now + L.interval i))
  | .running nextRenewal, .renew =>
    if now = nextRenewal then
      some (served t now (.renew L.name (L.owner i) (some (L.options i).ttlMs)),
        .running (now + L.interval i))
    else none
  | .running _, .finish => some (t, .releasing)
  | .releasing, .release => some (served t now (.release L.name (L.owner i)), .done)
  | _, _ => none

/-- The calls, from a free lock. -/
def system : System (WithLockState ι) (ι × LockStep × Rat) where
  init s := s.table L.name = none ∧ ∀ i, s.phase i = .idle
  step s a :=
    if a.2.2 < s.clock then none
    else (L.stepCall s.table a.2.2 a.1 (s.phase a.1) a.2.1).map fun (table, ph) =>
      s.enter table a.2.2 a.1 ph

/-- Time does not pass the next renewal of a running call: the timer sends it when it is due, and it
is served at once. -/
def Punctual (s : WithLockState ι) (a : ι × LockStep × Rat) : Prop :=
  ∀ j next, s.phase j = .running next → a.2.2 ≤ next

/-- No two callbacks run. -/
def Exclusive (s : WithLockState ι) : Prop :=
  ∀ i j next next', s.phase i = .running next → s.phase j = .running next' → i = j

/-- A callback starts while the first renewal comes before the end of the lease. -/
def StartsInTime (s : WithLockState ι) (a : ι × LockStep × Rat) : Prop :=
  a.2.1 = .start → ∀ expiresAt, s.phase a.1 = .granted expiresAt →
    a.2.2 + L.interval a.1 < expiresAt

/-! ## The invariant -/

/-- A call that was granted a lease has the row, or its lease has ended; a call whose callback runs
has the row beyond its next renewal, and renews sooner than its lease ends. -/
structure WithLockInvariant (s : WithLockState ι) : Prop where
  granted : ∀ i e, s.phase i = .granted e →
    e ≤ s.clock + L.lease i ∧ (s.table L.name = some ⟨L.owner i, e⟩ ∨ e ≤ s.clock)
  running : ∀ i next, s.phase i = .running next →
    L.interval i < L.lease i ∧ ∃ e, s.table L.name = some ⟨L.owner i, e⟩ ∧ next < e

variable {L} {t t' : LockTable} {now : Rat} {i : ι} {ph ph' : LockPhase} {a : LockStep}

omit [DecidableEq ι] in
/-- An acquire request is refused, or it takes the lock that is free, its own or expired. -/
theorem stepCall_serve {deadline backoff : Rat}
    (h : L.stepCall t now i (.requesting deadline backoff) .serve = some (t', ph')) :
    (t' = t ∧ ph' = .refused deadline backoff) ∨
    (t' = t.put L.name (some ⟨L.owner i, now + L.lease i⟩) ∧ ph' = .granted (now + L.lease i) ∧
      ∀ row, t L.name = some row → row.owner = L.owner i ∨ row.expiresAt ≤ now) := by
  unfold stepCall lockFetch lockAcquire at h
  simp only [L.name_ne, L.owner_ne i, if_false] at h
  cases hrow : t L.name with
  | none =>
    rw [hrow] at h
    cases h
    exact .inr ⟨rfl, rfl, nofun⟩
  | some row =>
    rw [hrow] at h
    simp only at h
    by_cases howner : row.owner = L.owner i
    · rw [if_pos howner] at h
      cases h
      exact .inr ⟨rfl, rfl, fun row' hrow' => by cases hrow'; exact .inl howner⟩
    · rw [if_neg howner] at h
      by_cases hexp : row.expiresAt ≤ now
      · rw [if_pos hexp] at h
        cases h
        exact .inr ⟨rfl, rfl, fun row' hrow' => by cases hrow'; exact .inr hexp⟩
      · rw [if_neg hexp] at h
        cases h
        exact .inl ⟨rfl, rfl⟩

omit [DecidableEq ι] in
/-- A renewal of the owner's own row. -/
theorem served_renew {e : Rat} (hrow : t L.name = some ⟨L.owner i, e⟩) :
    served t now (.renew L.name (L.owner i) (some (L.options i).ttlMs)) =
      t.put L.name (some ⟨L.owner i, now + L.lease i⟩) := by
  simp [served, lockFetch, lockRenew, hrow, lease]

omit [DecidableEq ι] in
/-- A step leaves the row of the lock alone, or the row was the caller's own or had expired. -/
theorem stepCall_row (h : L.stepCall t now i ph a = some (t', ph')) :
    t' L.name = t L.name ∨
      ∀ row, t L.name = some row → row.owner = L.owner i ∨ row.expiresAt ≤ now := by
  have hserved (request : LockRequest) (hreq : request.IsHolderRequest L.name (L.owner i)) :
      served t now request L.name = t L.name ∨
        ∀ row, t L.name = some row → row.owner = L.owner i ∨ row.expiresAt ≤ now := by
    have hout := lockFetch_outcome t now request
    unfold served
    generalize grantOf request (lockFetch t now request).1 = g at hout
    generalize (lockFetch t now request).2 = t' at hout
    cases hout with
    | kept => exact .inl rfl
    | granted _ hheld =>
      obtain ⟨rfl, e, hrow⟩ := hheld _ _ hreq
      refine .inr fun row hrow' => .inl ?_
      rw [hrow] at hrow'
      cases hrow'
      rfl
    | ended hrow hheld =>
      obtain ⟨rfl, rfl⟩ := hheld _ _ hreq
      refine .inr fun row hrow' => .inl ?_
      rw [hrow] at hrow'
      cases hrow'
      rfl
  unfold stepCall at h
  split at h
  · cases h
    exact .inl rfl
  · obtain ⟨rfl, -⟩ | ⟨-, -, hfree⟩ := stepCall_serve (L := L) (t := t) (by unfold stepCall; exact h)
    · exact .inl rfl
    · exact .inr hfree
  · split at h <;> cases h <;> exact .inl rfl
  · split at h
    · cases h
      exact .inl rfl
    · cases h
  · cases h
    exact .inl rfl
  · split at h
    · cases h
      exact hserved _ ⟨rfl, rfl⟩
    · cases h
  · cases h
    exact .inl rfl
  · cases h
    exact hserved _ ⟨rfl, rfl⟩
  · cases h

omit [DecidableEq ι] in
/-- A call is granted a lease from now on. -/
theorem stepCall_granted {e : Rat} (h : L.stepCall t now i ph a = some (t', .granted e)) :
    e = now + L.lease i ∧ t' = t.put L.name (some ⟨L.owner i, e⟩) := by
  have hserve (deadline backoff : Rat)
      (h : L.stepCall t now i (.requesting deadline backoff) .serve = some (t', .granted e)) :
      e = now + L.lease i ∧ t' = t.put L.name (some ⟨L.owner i, e⟩) := by
    obtain ⟨-, hph⟩ | ⟨ht', hph, -⟩ := stepCall_serve h
    · cases hph
    · cases hph
      exact ⟨rfl, ht'⟩
  unfold stepCall at h
  split at h
  case h_2 => exact hserve _ _ h
  all_goals first
    | cases h
    | (split at h <;> cases h)

omit [DecidableEq ι] in
/-- A callback starts when its grant arrives, and goes on when its timer has renewed the lease. -/
theorem stepCall_running {next : Rat} (h : L.stepCall t now i ph a = some (t', .running next)) :
    next = now + L.interval i ∧
      ((∃ e, ph = .granted e ∧ a = .start ∧ t' = t) ∨
        (ph = .running now ∧
          t' = served t now (.renew L.name (L.owner i) (some (L.options i).ttlMs)))) := by
  have hserve (deadline backoff : Rat)
      (h : L.stepCall t now i (.requesting deadline backoff) .serve = some (t', .running next)) :
      False := by
    obtain ⟨-, hph⟩ | ⟨-, hph, -⟩ := stepCall_serve h <;> cases hph
  unfold stepCall at h
  split at h
  case h_2 => exact (hserve _ _ h).elim
  case h_5 e =>
    cases h
    exact ⟨rfl, .inl ⟨e, rfl, rfl, rfl⟩⟩
  case h_6 next' =>
    split at h
    · next hnext =>
      cases h
      exact ⟨rfl, .inr ⟨by rw [hnext], rfl⟩⟩
    · cases h
  all_goals first
    | cases h
    | (split at h <;> cases h)

/-- What a step is made of: the call's own step, at a reading of the clock. -/
theorem system_step {s s' : WithLockState ι} {a : LockStep}
    (h : L.system.step s (i, a, now) = some s') :
    s.clock ≤ now ∧ s'.clock = now ∧
      ∃ ph, L.stepCall s.table now i (s.phase i) a = some (s'.table, ph) ∧
        s'.phase i = ph ∧ ∀ j, j ≠ i → s'.phase j = s.phase j := by
  unfold system at h
  simp only at h
  split at h
  · cases h
  · next hclock =>
    obtain ⟨⟨t', ph⟩, hcall, rfl⟩ := Option.map_eq_some_iff.1 h
    exact ⟨not_lt.1 hclock, rfl, ph, hcall, if_pos rfl, fun j hj => if_neg hj⟩

omit [DecidableEq ι] in
/-- The row of another call's running callback is not the caller's, and has not expired. -/
theorem WithLockInvariant.kept {s : WithLockState ι} (h : L.WithLockInvariant s) {j : ι}
    {next : Rat} (hj : s.phase j = .running next) (hnow : now ≤ next) (hji : j ≠ i)
    (hrow : t' L.name = s.table L.name ∨
      ∀ row, s.table L.name = some row → row.owner = L.owner i ∨ row.expiresAt ≤ now) :
    t' L.name = s.table L.name := by
  obtain ⟨-, e, hown, hlt⟩ := h.running j next hj
  refine hrow.resolve_right fun hfree => ?_
  obtain howner | hexp := hfree _ hown
  · exact hji (L.owner_injective j i howner)
  · exact absurd (lt_of_lt_of_le hlt hexp) (not_lt.2 hnow)

/-- One step of a punctual run whose callbacks start in time keeps the invariant. -/
theorem WithLockInvariant.step {s s' : WithLockState ι} (h : L.WithLockInvariant s)
    {b : ι × LockStep × Rat} (hp : Punctual s b) (hstart : L.StartsInTime s b)
    (hstep : L.system.step s b = some s') : L.WithLockInvariant s' := by
  obtain ⟨i, a, now⟩ := b
  obtain ⟨hclock, hnow, ph, hcall, hself, hothers⟩ := system_step hstep
  have hrow := stepCall_row hcall
  constructor
  · intro j e hj
    rw [hnow]
    by_cases hji : j = i
    · subst hji
      rw [hself] at hj
      rw [hj] at hcall
      obtain ⟨rfl, ht'⟩ := stepCall_granted hcall
      exact ⟨le_refl _, .inl (by rw [ht', LockTable.put_self])⟩
    · -- another call's lease stands until its end
      rw [hothers j hji] at hj
      obtain ⟨hle, hown⟩ := h.granted j e hj
      refine ⟨by linarith, hown.elim (fun hown => ?_) fun hexp => .inr (hexp.trans hclock)⟩
      obtain hsame | hfree := hrow
      · exact .inl (hsame.trans hown)
      · exact (hfree _ hown).elim (fun ho => absurd (L.owner_injective j i ho) hji) .inr
  · intro j next hj
    by_cases hji : j = i
    · subst hji
      rw [hself] at hj
      rw [hj] at hcall
      obtain ⟨rfl, ⟨e, hph, rfl, ht'⟩ | ⟨hph, ht'⟩⟩ := stepCall_running hcall
      · have hlt : now + L.interval j < e := hstart rfl e hph
        obtain ⟨hle, hown⟩ := h.granted j e hph
        have hpos : (0 : Rat) < L.interval j := by
          have h1000 : (1000 : Rat) ≤ L.interval j := le_max_left _ _
          linarith
        rw [ht']
        exact ⟨by linarith, e, hown.resolve_right fun hexp => by linarith, hlt⟩
      · obtain ⟨hlt, e, hown, -⟩ := h.running j now hph
        exact ⟨hlt, now + L.lease j, by rw [ht', served_renew hown, LockTable.put_self],
          by linarith⟩
    · rw [hothers j hji] at hj
      obtain ⟨hlt, e, hown, hne⟩ := h.running j next hj
      exact ⟨hlt, e, (h.kept hj (hp j next hj) hji hrow).trans hown, hne⟩

/-- Callbacks under one lock do not overlap, in every punctual run in which each of them starts
while its first renewal comes before the end of its lease. -/
theorem exclusive_of_startsInTime {s : WithLockState ι}
    (h : L.system.Reach (fun s a => Punctual s a ∧ L.StartsInTime s a) s) : Exclusive s := by
  have hinv : L.WithLockInvariant s := by
    refine h.invariant (I := L.WithLockInvariant) ?_ fun s a s' hs hp hstep =>
      hs.step hp.1 hp.2 hstep
    rintro s ⟨-, hidle⟩
    refine ⟨fun i e hi => ?_, fun i next hi => ?_⟩
    all_goals
      rw [hidle i] at hi
      cases hi
  intro i j next next' hi hj
  obtain ⟨-, e, hown, -⟩ := hinv.running i next hi
  obtain ⟨-, e', hown', -⟩ := hinv.running j next' hj
  rw [hown] at hown'
  exact L.owner_injective i j (congrArg Lease.owner (Option.some.inj hown'))

/-! ## Short leases -/

/-- A call's own step is a step of the system. -/
theorem system_enter {s : WithLockState ι} (hclock : s.clock ≤ now)
    (h : L.stepCall s.table now i (s.phase i) a = some (t', ph)) :
    L.system.step s (i, a, now) = some (s.enter t' now i ph) := by
  unfold system
  simp only [not_lt.2 hclock, if_false, h]
  rfl

omit [DecidableEq ι] in
/-- A lock that is free, or another owner's whose lease has ended, is granted. -/
theorem stepCall_grant {deadline backoff : Rat}
    (hfree : ∀ row, t L.name = some row → row.owner ≠ L.owner i ∧ row.expiresAt ≤ now) :
    L.stepCall t now i (.requesting deadline backoff) .serve =
      some (t.put L.name (some ⟨L.owner i, now + L.lease i⟩), .granted (now + L.lease i)) := by
  unfold stepCall lockFetch lockAcquire
  simp only [L.name_ne, L.owner_ne i, if_false]
  cases hrow : t L.name with
  | none => rfl
  | some row =>
    obtain ⟨howner, hexp⟩ := hfree row hrow
    simp only [howner, hexp, if_false, if_true]
    rfl

variable (L) in
/-- A punctual step, whose callback starts in time if the timer's period is below the lease. -/
def Prompt (s : WithLockState ι) (a : ι × LockStep × Rat) : Prop :=
  Punctual s a ∧ (L.interval a.1 < L.lease a.1 → L.StartsInTime s a)

/-- A call that has not begun can have its callback running at once where the lock is free or its
lease has ended. -/
theorem reach_start (i : ι) (now : Rat) {s : WithLockState ι} (h : L.system.Reach L.Prompt s)
    (hclock : s.clock ≤ now) (hidle : s.phase i = .idle)
    (hfree : ∀ row, s.table L.name = some row → row.owner ≠ L.owner i ∧ row.expiresAt ≤ now)
    (hp : ∀ j next, s.phase j = .running next → now ≤ next) :
    ∃ s', L.system.Reach L.Prompt s' ∧ s'.clock = now ∧
      s'.table L.name = some ⟨L.owner i, now + L.lease i⟩ ∧
      s'.phase i = .running (now + L.interval i) ∧ ∀ j, j ≠ i → s'.phase j = s.phase j := by
  have henter (s : WithLockState ι) (t : LockTable) (ph : LockPhase)
      (hp : ∀ j next, s.phase j = .running next → now ≤ next)
      (hph : ∀ next, ph = .running next → now ≤ next) (j : ι) (next : Rat)
      (hj : (s.enter t now i ph).phase j = .running next) : now ≤ next := by
    by_cases hji : j = i
    · subst hji
      exact hph next (by rwa [WithLockState.enter_phase_self] at hj)
    · exact hp j next (by rwa [WithLockState.enter_phase_of_ne _ _ _ hji] at hj)
  let s₁ := s.enter s.table now i
    (.requesting (now + (L.options i).timeoutMs) (L.options i).waitMs)
  have hp₁ := henter s s.table (.requesting (now + (L.options i).timeoutMs) (L.options i).waitMs)
    hp nofun
  have h₁ : L.system.Reach L.Prompt s₁ :=
    h.step (a := (i, .begin, now)) ⟨hp, fun _ => nofun⟩ (system_enter hclock (by rw [hidle]; rfl))
  let t₂ := s.table.put L.name (some ⟨L.owner i, now + L.lease i⟩)
  let s₂ := s₁.enter t₂ now i (.granted (now + L.lease i))
  have hp₂ := henter s₁ t₂ (.granted (now + L.lease i)) hp₁ nofun
  have h₂ : L.system.Reach L.Prompt s₂ :=
    h₁.step (a := (i, .serve, now)) ⟨hp₁, fun _ => nofun⟩ (system_enter (le_refl _)
      (by rw [WithLockState.enter_phase_self]; exact stepCall_grant hfree))
  have hstart : L.interval i < L.lease i → L.StartsInTime s₂ (i, .start, now) := by
    intro hlt _ e he
    rw [WithLockState.enter_phase_self] at he
    cases he
    exact (add_lt_add_iff_left now).2 hlt
  have h₃ : L.system.Reach L.Prompt (s₂.enter t₂ now i (.running (now + L.interval i))) :=
    h₂.step (a := (i, .start, now)) ⟨hp₂, hstart⟩ (system_enter (le_refl _)
      (by rw [WithLockState.enter_phase_self]; rfl))
  refine ⟨_, h₃, rfl, LockTable.put_self _ _ _, WithLockState.enter_phase_self _ _ _ _ _,
    fun j hj => ?_⟩
  rw [WithLockState.enter_phase_of_ne _ _ _ hj, WithLockState.enter_phase_of_ne _ _ _ hj,
    WithLockState.enter_phase_of_ne _ _ _ hj]

/-- A free lock, before any call. -/
def freshCalls : WithLockState ι where
  table _ := none
  clock := 0
  phase _ := .idle

/-- Where the timer's period is not below the lease, another call takes the lock over before the
first renewal, and two callbacks run. -/
theorem overlap_of_lease_le_interval {j : ι} (hji : j ≠ i) (hle : L.lease i ≤ L.interval i) :
    ∃ s, L.system.Reach Punctual s ∧ ∃ next next', s.phase i = .running next ∧
      s.phase j = .running next' := by
  have h₀ : L.system.Reach L.Prompt freshCalls := .init ⟨rfl, fun _ => rfl⟩
  obtain ⟨s, hs, hclock, hrow, hi, hothers⟩ :=
    reach_start i 0 h₀ (le_refl _) rfl nofun nofun
  have hpos : 0 < L.lease i := lt_of_lt_of_le one_pos (le_max_left _ _)
  obtain ⟨s', hs', -, -, hj', hothers'⟩ := reach_start j (L.lease i) hs
    (by rw [hclock]; exact hpos.le) (hothers j hji)
    (fun row hrow' => by
      rw [hrow] at hrow'
      cases hrow'
      exact ⟨fun ho => hji (L.owner_injective i j ho).symm, by simp⟩)
    (fun k next hk => by
      by_cases hki : k = i
      · subst hki
        rw [hi] at hk
        cases hk
        simpa using hle
      · rw [hothers k hki] at hk
        cases hk)
  exact ⟨s', hs'.mono fun _ _ => And.left, _, _, (hothers' i hji.symm).trans hi, hj'⟩

end LockCalls

/-- Calls with the default options. -/
def defaultCalls : LockCalls Bool where
  name := "l"
  owner i := if i then "a" else "b"
  options _ := {}
  name_ne := by decide
  owner_ne := by decide
  owner_injective := by decide

theorem exclusive_of_startsInTime_default : ∃ s, defaultCalls.system.Reach
    (fun s a => LockCalls.Punctual s a ∧ defaultCalls.StartsInTime s a) s ∧
      (∃ next, s.phase true = .running next) ∧ LockCalls.Exclusive s := by
  have hlt (i : Bool) : defaultCalls.interval i < defaultCalls.lease i := by
    norm_num [LockCalls.interval, renewInterval, LockCalls.lease, leaseMs, defaultCalls]
  have h₀ : defaultCalls.system.Reach defaultCalls.Prompt LockCalls.freshCalls :=
    .init ⟨rfl, fun _ => rfl⟩
  obtain ⟨s, hs, -, -, hi, -⟩ := LockCalls.reach_start true 0 h₀ (le_refl _) rfl
    (by rintro _ ⟨⟩) (by rintro _ _ ⟨⟩)
  have hs' := hs.mono fun s a ha => (⟨ha.1, ha.2 (hlt a.1)⟩ :
    LockCalls.Punctual s a ∧ defaultCalls.StartsInTime s a)
  exact ⟨s, hs', ⟨_, hi⟩, LockCalls.exclusive_of_startsInTime hs'⟩

/-- Two calls with a lease of half a second. -/
def shortCalls : LockCalls Bool where
  name := "l"
  owner i := if i then "a" else "b"
  options _ := { ttlMs := 500 }
  name_ne := by decide
  owner_ne := by decide
  owner_injective := by decide

/-- With a lease of half a second, two callbacks overlap: the timer's period is a second. -/
theorem short_leases_overlap :
    ¬ ∀ (ι : Type) (_ : DecidableEq ι) (L : LockCalls ι), (∀ i, 0 < (L.options i).ttlMs) →
        ∀ s, L.system.Reach LockCalls.Punctual s → LockCalls.Exclusive s := by
  intro h
  have hle : shortCalls.lease true ≤ shortCalls.interval true := by
    have hlease : shortCalls.lease true = 500 := max_eq_right (by norm_num [shortCalls])
    have hinterval : (1000 : Rat) ≤ shortCalls.interval true := le_max_left _ _
    linarith
  obtain ⟨s, hs, next, next', hi, hj⟩ :=
    LockCalls.overlap_of_lease_le_interval (j := false) (by decide) hle
  have heq := h Bool inferInstance shortCalls (fun _ => by norm_num [shortCalls]) s hs _ _ _ _ hi hj
  cases heq

end HeadlessErp
