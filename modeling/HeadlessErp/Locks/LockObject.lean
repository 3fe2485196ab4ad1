import Mathlib.Algebra.Order.Ring.Rat
import Mathlib.Tactic.Linarith
import Mathlib.Tactic.NormNum
import HeadlessErp.Base.Transition

/-!
# The lock object

`LockDO` of `packages/locks/src/do.ts`: the durable object that owns the leases of a lock. It serves
one request at a time, and a request reads the clock once. Times are in milliseconds; a `ttlMs` may
be any number.

`LockState.granted` is what the object has promised: for an owner, the end of the lease it was last
granted and has not released. An acquire or a renewal by the same owner replaces that promise.
-/

namespace HeadlessErp

/-! ## The code -/

/-- A row of the table `locks`, of one lock name. -/
structure Lease where
  owner : String
  expiresAt : Rat
  deriving DecidableEq

/-- The table `locks`. -/
abbrev LockTable := String → Option Lease

/-- The requests of `fetch`. -/
inductive LockRequest where
  | acquire (name owner : String) (ttlMs : Option Rat)
  | release (name owner : String)
  | renew (name owner : String) (ttlMs : Option Rat)
  | status (name : String)

/-- The responses. -/
inductive LockResponse where
  | error (message : String)
  | acquired (owner : String) (expiresAt : Rat) (reentrant stolen : Bool)
  | refused (owner : String) (expiresAt : Rat)
  | released (released : Bool)
  | renewed (renewed : Bool) (expiresAt : Rat)
  | status (lease : Option Lease)

/-- `Math.max(1, ttlMs ?? 60_000)`. -/
def leaseMs (ttlMs : Option Rat) : Rat := max 1 (ttlMs.getD 60000)

/-- A table after a row is written or deleted. -/
def LockTable.put (t : LockTable) (name : String) (lease : Option Lease) : LockTable :=
  fun n => if n = name then lease else t n

/-- `acquire`. -/
def lockAcquire (t : LockTable) (name owner : String) (ttlMs now : Rat) :
    LockResponse × LockTable :=
  if name = "" then (.error "lock name is required", t)
  else if owner = "" then (.error "lock owner is required", t)
  else
    let expiresAt := now + ttlMs
    match t name with
    | none => (.acquired owner expiresAt false false, t.put name (some ⟨owner, expiresAt⟩))
    | some row =>
      if row.owner = owner then
        (.acquired owner expiresAt true false, t.put name (some ⟨owner, expiresAt⟩))
      else if row.expiresAt ≤ now then
        (.acquired owner expiresAt false true, t.put name (some ⟨owner, expiresAt⟩))
      else (.refused row.owner row.expiresAt, t)

/-- `release`. -/
def lockRelease (t : LockTable) (name owner : String) : LockResponse × LockTable :=
  match t name with
  | none => (.released false, t)
  | some row =>
    if row.owner ≠ owner then (.released false, t) else (.released true, t.put name none)

/-- `renew`. -/
def lockRenew (t : LockTable) (name owner : String) (ttlMs now : Rat) : LockResponse × LockTable :=
  match t name with
  | none => (.renewed false 0, t)
  | some row =>
    if row.owner ≠ owner then (.renewed false 0, t)
    else (.renewed true (now + ttlMs), t.put name (some ⟨owner, now + ttlMs⟩))

/-- `status`. -/
def lockStatus (t : LockTable) (name : String) (now : Rat) : LockResponse :=
  match t name with
  | none => .status none
  | some row => if row.expiresAt ≤ now then .status none else .status (some row)

/-- `fetch`. -/
def lockFetch (t : LockTable) (now : Rat) : LockRequest → LockResponse × LockTable
  | .acquire name owner ttlMs => lockAcquire t name owner (leaseMs ttlMs) now
  | .release name owner => lockRelease t name owner
  | .renew name owner ttlMs => lockRenew t name owner (leaseMs ttlMs) now
  | .status name => (lockStatus t name now, t)

/-! ## Runs -/

/-- The object, its last clock reading, and the leases it has granted. -/
structure LockState where
  table : LockTable
  clock : Rat
  granted : String → String → Option Rat

/-- The lease a response grants or ends: the lock, the owner, and the end of the lease. -/
def grantOf : LockRequest → LockResponse → Option (String × String × Option Rat)
  | .acquire name owner _, .acquired _ expiresAt _ _ => some (name, owner, some expiresAt)
  | .renew name owner _, .renewed true expiresAt => some (name, owner, some expiresAt)
  | .release name owner, .released true => some (name, owner, none)
  | _, _ => none

/-- The leases after a response. -/
def updateGranted (granted : String → String → Option Rat)
    (g : Option (String × String × Option Rat)) : String → String → Option Rat :=
  match g with
  | none => granted
  | some (name, owner, lease) => fun n o => if n = name ∧ o = owner then lease else granted n o

/-- A lock object that serves requests at clock readings that do not decrease. -/
def lockSystem : System LockState (LockRequest × Rat) where
  init s := s.table = (fun _ => none) ∧ s.granted = fun _ _ => none
  step s a :=
    if a.2 < s.clock then none
    else
      let (response, table) := lockFetch s.table a.2 a.1
      some { table, clock := a.2, granted := updateGranted s.granted (grantOf a.1 response) }

/-- The request asks to renew or to release an owner's lease. -/
def LockRequest.IsHolderRequest : LockRequest → String → String → Prop
  | .renew name owner _, n, o | .release name owner, n, o => name = n ∧ owner = o
  | _, _, _ => False

/-- At every moment until the next request, one owner at most has a lease that has not expired. -/
def LeasesExclusive (s : LockState) : Prop :=
  ∀ name owner owner' e e', s.granted name owner = some e → s.granted name owner' = some e' →
    ∀ t, s.clock ≤ t → t < e → t < e' → owner = owner'

/-- A renewal or a release that changes the table comes from the owner of the row. -/
def OnlyHolderChanges (s : LockState) : Prop :=
  ∀ request name owner now s', request.IsHolderRequest name owner →
    lockSystem.step s (request, now) = some s' → s'.table ≠ s.table →
    ∃ e, s.table name = some ⟨owner, e⟩ ∧ s.granted name owner = some e ∧
      ∀ owner' e', s.granted name owner' = some e' → now < e' → owner' = owner

/-- A renewal or a release that changes the table comes from the owner of a row that has not
expired. -/
def OnlyUnexpiredHolderChanges (s : LockState) : Prop :=
  ∀ request name owner now s', request.IsHolderRequest name owner →
    lockSystem.step s (request, now) = some s' → s'.table ≠ s.table →
    ∃ e, s.table name = some ⟨owner, e⟩ ∧ now < e

/-! ## The invariant -/

/-- A lease that was granted is the row of its lock, or it has expired; and the row of a lock is a
lease that was granted. -/
structure LeaseInvariant (s : LockState) : Prop where
  row : ∀ name owner e, s.granted name owner = some e →
    s.table name = some ⟨owner, e⟩ ∨ e ≤ s.clock
  granted : ∀ name owner e, s.table name = some ⟨owner, e⟩ → s.granted name owner = some e

/-- What serving a request does to the lock it names. -/
inductive LockOutcome (t : LockTable) (now : Rat) :
    LockRequest → Option (String × String × Option Rat) → LockTable → Prop where
  | kept {request : LockRequest} : LockOutcome t now request none t
  | granted {request : LockRequest} {name owner : String} {e : Rat} :
    (∀ row, t name = some row → row.owner = owner ∨ row.expiresAt ≤ now) →
    (∀ n o, request.IsHolderRequest n o → n = name ∧ ∃ e₀, t name = some ⟨o, e₀⟩) →
    LockOutcome t now request (some (name, owner, some e)) (t.put name (some ⟨owner, e⟩))
  | ended {request : LockRequest} {name owner : String} {e : Rat} :
    t name = some ⟨owner, e⟩ →
    (∀ n o, request.IsHolderRequest n o → n = name ∧ o = owner) →
    LockOutcome t now request (some (name, owner, none)) (t.put name none)

/-- Every request has one of these outcomes. -/
theorem lockFetch_outcome (t : LockTable) (now : Rat) (request : LockRequest) :
    LockOutcome t now request (grantOf request (lockFetch t now request).1)
      (lockFetch t now request).2 := by
  cases request with
  | acquire name owner ttlMs =>
    unfold lockFetch lockAcquire
    simp only
    split
    · exact .kept
    · split
      · exact .kept
      · split
        · next hrow =>
          exact .granted (fun row h => by rw [hrow] at h; cases h) fun _ _ => False.elim
        · next row hrow =>
          split
          · next howner =>
            exact .granted (fun row' h => by rw [hrow] at h; cases h; exact .inl howner)
              fun _ _ => False.elim
          · split
            · next hexp =>
              exact .granted (fun row' h => by rw [hrow] at h; cases h; exact .inr hexp)
                fun _ _ => False.elim
            · exact .kept
  | release name owner =>
    simp only [lockFetch, lockRelease]
    split
    · exact .kept
    · next row hrow =>
      split
      · exact .kept
      · next howner =>
        have howner : row.owner = owner := Decidable.not_not.1 howner
        refine .ended (e := row.expiresAt) (by rw [hrow, ← howner]) ?_
        rintro n o ⟨rfl, rfl⟩
        exact ⟨rfl, rfl⟩
  | renew name owner ttlMs =>
    simp only [lockFetch, lockRenew]
    split
    · exact .kept
    · next row hrow =>
      split
      · exact .kept
      · next howner =>
        have howner : row.owner = owner := Decidable.not_not.1 howner
        refine .granted (fun row' h => by rw [hrow] at h; cases h; exact .inl howner) ?_
        rintro n o ⟨rfl, rfl⟩
        exact ⟨rfl, row.expiresAt, by rw [hrow, ← howner]⟩
  | status name => exact .kept

/-- A step serves a request at a reading of the clock that is not earlier than the last. -/
theorem lockSystem_step {s s' : LockState} {request : LockRequest} {now : Rat}
    (h : lockSystem.step s (request, now) = some s') :
    s.clock ≤ now ∧ s'.clock = now ∧ ∃ g, LockOutcome s.table now request g s'.table ∧
      s'.granted = updateGranted s.granted g := by
  unfold lockSystem at h
  simp only at h
  split at h
  · cases h
  · next hclock =>
    cases h
    exact ⟨not_lt.1 hclock, rfl, _, lockFetch_outcome s.table now request, rfl⟩

theorem LockTable.put_self (t : LockTable) (name : String) (lease : Option Lease) :
    t.put name lease name = lease := if_pos rfl

theorem LockTable.put_of_ne {name n : String} (h : n ≠ name) (t : LockTable)
    (lease : Option Lease) : t.put name lease n = t n := if_neg h

theorem updateGranted_self (granted : String → String → Option Rat) (name owner : String)
    (lease : Option Rat) : updateGranted granted (some (name, owner, lease)) name owner = lease :=
  if_pos ⟨rfl, rfl⟩

theorem updateGranted_of_ne {name owner n o : String} (h : ¬ (n = name ∧ o = owner))
    (granted : String → String → Option Rat) (lease : Option Rat) :
    updateGranted granted (some (name, owner, lease)) n o = granted n o := if_neg h

/-- Serving a request keeps the invariant. -/
theorem LeaseInvariant.step {s s' : LockState} (h : LeaseInvariant s) {a : LockRequest × Rat}
    (hstep : lockSystem.step s a = some s') : LeaseInvariant s' := by
  obtain ⟨request, now⟩ := a
  obtain ⟨hclock, hnow, g, hout, hg⟩ := lockSystem_step hstep
  have hold : ∀ n o e, s.granted n o = some e →
      s.table n = some ⟨o, e⟩ ∨ e ≤ now := fun n o e he =>
    (h.row n o e he).imp_right fun hle => hle.trans hclock
  obtain ⟨table, clock, granted⟩ := s'
  simp only at hnow hg hout
  subst hnow hg
  cases hout with
  | kept => exact ⟨hold, h.granted⟩
  | @granted name owner e hfree _ =>
    constructor
    · intro n o e' he'
      dsimp only at he' ⊢
      by_cases hno : n = name ∧ o = owner
      · obtain ⟨rfl, rfl⟩ := hno
        rw [updateGranted_self] at he'
        cases he'
        exact .inl (LockTable.put_self _ _ _)
      · rw [updateGranted_of_ne hno] at he'
        by_cases hn : n = name
        · -- another owner's lease on the lock that was granted has ended
          subst hn
          refine (hold n o e' he').elim (fun hrow => ?_) .inr
          exact (hfree _ hrow).elim (fun ho => absurd ⟨rfl, ho⟩ hno) .inr
        · rw [LockTable.put_of_ne hn]
          exact hold n o e' he'
    · intro n o e' he'
      dsimp only at he' ⊢
      by_cases hn : n = name
      · subst hn
        rw [LockTable.put_self] at he'
        cases he'
        exact updateGranted_self _ _ _ _
      · rw [LockTable.put_of_ne hn] at he'
        rw [updateGranted_of_ne fun hno => hn hno.1]
        exact h.granted n o e' he'
  | @ended name owner e hrow _ =>
    constructor
    · intro n o e' he'
      dsimp only at he' ⊢
      by_cases hno : n = name ∧ o = owner
      · obtain ⟨rfl, rfl⟩ := hno
        rw [updateGranted_self] at he'
        cases he'
      · rw [updateGranted_of_ne hno] at he'
        by_cases hn : n = name
        · subst hn
          refine (hold n o e' he').elim (fun hrow' => ?_) .inr
          rw [hrow] at hrow'
          cases hrow'
          exact absurd ⟨rfl, rfl⟩ hno
        · rw [LockTable.put_of_ne hn]
          exact hold n o e' he'
    · intro n o e' he'
      dsimp only at he' ⊢
      by_cases hn : n = name
      · subst hn
        rw [LockTable.put_self] at he'
        cases he'
      · rw [LockTable.put_of_ne hn] at he'
        rw [updateGranted_of_ne fun hno => hn hno.1]
        exact h.granted n o e' he'

/-- The invariant holds of every state of a lock object. -/
theorem leaseInvariant_of_reachable {s : LockState} (h : lockSystem.Reachable s) :
    LeaseInvariant s := by
  refine h.invariant (I := LeaseInvariant) ?_ fun s a s' hs _ hstep => hs.step hstep
  rintro s ⟨htable, hgranted⟩
  refine ⟨fun name owner e he => ?_, fun name owner e he => ?_⟩
  · rw [hgranted] at he
    cases he
  · rw [htable] at he
    cases he

/-- Owners with leases that have not expired are one owner: the row names it. -/
theorem LeaseInvariant.owner_unique {s : LockState} (h : LeaseInvariant s)
    {name owner owner' : String} {e e' t : Rat} (he : s.granted name owner = some e)
    (he' : s.granted name owner' = some e') (hclock : s.clock ≤ t) (hlt : t < e) (hlt' : t < e') :
    owner = owner' := by
  obtain hrow | hexp := h.row name owner e he
  · obtain hrow' | hexp' := h.row name owner' e' he'
    · rw [hrow] at hrow'
      cases hrow'
      rfl
    · linarith
  · linarith

/-- At every moment one owner at most has an unexpired lease, and a renewal or a release changes the
table only for the owner of its row, whom nobody else has relieved. -/
theorem leases_safe {s : LockState} (h : lockSystem.Reachable s) :
    LeasesExclusive s ∧ OnlyHolderChanges s := by
  have hinv := leaseInvariant_of_reachable h
  refine ⟨fun name owner owner' e e' he he' t hclock hlt hlt' =>
    hinv.owner_unique he he' hclock hlt hlt', ?_⟩
  intro request name owner now s' hreq hstep hne
  obtain ⟨hclock, _, g, hout, _⟩ := lockSystem_step hstep
  have hrow : ∃ e, s.table name = some ⟨owner, e⟩ := by
    generalize s'.table = t' at hout hne
    cases hout with
    | kept => exact absurd rfl hne
    | granted _ hheld =>
      obtain ⟨rfl, hrow⟩ := hheld name owner hreq
      exact hrow
    | ended hrow hheld =>
      obtain ⟨rfl, rfl⟩ := hheld name owner hreq
      exact ⟨_, hrow⟩
  obtain ⟨e, hrow⟩ := hrow
  refine ⟨e, hrow, hinv.granted _ _ _ hrow, fun owner' e' he' hlt => ?_⟩
  obtain hrow' | hexp := hinv.row name owner' e' he'
  · rw [hrow] at hrow'
    cases hrow'
    rfl
  · linarith

/-! ## An expired holder -/

/-- A lock object that has served no request. -/
def freshLocks : LockState where
  table _ := none
  clock := 0
  granted _ _ := none

/-- The object after an owner was granted a lease. -/
def LockState.grant (s : LockState) (name owner : String) (now e : Rat) : LockState where
  table := s.table.put name (some ⟨owner, e⟩)
  clock := now
  granted := updateGranted s.granted (some (name, owner, some e))

/-- An owner is granted a lease of one millisecond. -/
theorem acquire_fresh : lockSystem.step freshLocks (.acquire "l" "a" (some 1), 0) =
    some (freshLocks.grant "l" "a" 0 1) := by
  simp [lockSystem, lockFetch, lockAcquire, grantOf, leaseMs, freshLocks, LockState.grant]

theorem leases_safe_granted : LeasesExclusive (freshLocks.grant "l" "a" 0 1) ∧
    OnlyHolderChanges (freshLocks.grant "l" "a" 0 1) := by
  have hinit : lockSystem.Reachable freshLocks := .init ⟨rfl, rfl⟩
  exact leases_safe (hinit.step trivial acquire_fresh)

/-- A lease of one millisecond is renewed four milliseconds after its end. -/
theorem expired_holder_renews :
    ¬ ∀ s, lockSystem.Reachable s → LeasesExclusive s ∧ OnlyUnexpiredHolderChanges s := by
  intro h
  have hinit : lockSystem.Reachable freshLocks := .init ⟨rfl, rfl⟩
  have hreach := hinit.step trivial acquire_fresh
  have hrenew : lockSystem.step (freshLocks.grant "l" "a" 0 1) (.renew "l" "a" (some 1), 5) =
      some ((freshLocks.grant "l" "a" 0 1).grant "l" "a" 5 6) := by
    have hsum : (5 + 1 : Rat) = 6 := by norm_num
    simp [lockSystem, lockFetch, lockRenew, grantOf, leaseMs, LockState.grant,
      LockTable.put_self, hsum]
  obtain ⟨e, he, hlt⟩ := (h _ hreach).2 (.renew "l" "a" (some 1)) "l" "a" 5 _ ⟨rfl, rfl⟩ hrenew
    fun heq => by simpa [LockState.grant, LockTable.put_self] using congrFun heq "l"
  have hone : e = 1 := by
    simpa [LockState.grant, LockTable.put_self, eq_comm] using he
  rw [hone] at hlt
  norm_num at hlt

end HeadlessErp
