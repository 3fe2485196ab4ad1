import Mathlib.Logic.Function.Basic
import HeadlessErp.Base.Transition
import HeadlessErp.Js.Value

/-!
# Idempotency keys

`IdempotencyService` of `packages/idempotency/src/service.ts`: calls of `run` on one key, and the
row of that key in `_idempotency_keys`. A step is one statement, or the end of the guarded function.
Times are milliseconds; the texts the table keeps of them are ordered as they are.
-/

namespace HeadlessErp

/-! ## The code -/

/-- The `status` of a key. -/
inductive KeyStatus where
  | processing
  | done
  | failed
  deriving DecidableEq, Repr

/-- A row of `_idempotency_keys`. -/
structure KeyRow where
  status : KeyStatus
  responseJson : Option String
  error : Option String
  createdAt : Int
  updatedAt : Int
  deriving DecidableEq, Repr

/-- `IdempotencyOptions`. -/
structure IdempotencyOptions where
  ttlMs : Int := 86400000
  recordFailures : Bool := true

/-- How far a call of `run` has come. `since` is the time of the statement that gave it the key. -/
inductive RunPhase (N : Type) where
  | idle
  | looking
  | retrying
  | running (since : Int)
  | recording (since : Int) (value : JsVal N)
  | recovering (since : Int) (error : String)
  | returned (replayed : Bool) (value : JsVal N)
  | conflict
  | thrown (error : String)
  | crashed

/-- The key is the call's: its function runs, or what came of it is being recorded. -/
def RunPhase.holds {N : Type} : RunPhase N → Option Int
  | running since | recording since _ | recovering since _ => some since
  | _ => none

/-- The steps of a call: a statement that carries `ok` fails where it is false. -/
inductive RunStep (N : Type) where
  | claim (now : Int)
  | lookup
  | retake (now : Int)
  | finish (result : Except String (JsVal N))
  | record (ok : Bool) (now : Int)
  | recover (ok : Bool) (now : Int)
  | crash

section
variable {N : Type} [JsNumber N]

/-- The claim: `INSERT … ON CONFLICT DO UPDATE` of a stale row. -/
def claimKey (row : Option KeyRow) (now ttlMs : Int) : Option KeyRow :=
  match row with
  | none => some ⟨.processing, none, none, now, now⟩
  | some row =>
    if row.status = .processing ∧ row.createdAt ≤ now - ttlMs then
      some { row with updatedAt := now }
    else none

/-- The second statement of a retry: `UPDATE … WHERE status = 'failed'`. -/
def retakeKey (row : Option KeyRow) (now : Int) : Option KeyRow :=
  match row with
  | some row =>
    if row.status = .failed then some { row with status := .processing, updatedAt := now }
    else none
  | none => none

/-- What the record of a value binds: nothing for `undefined`, and no value for what has no JSON
text, which the database refuses. -/
def serializeValue (value : JsVal N) : Option (Option String) :=
  match value with
  | .undefined => some none
  | value => value.toJson.map some

/-- What a call finds when it does not own the key. -/
def lookupKey (parse : String → JsVal N) (row : Option KeyRow) : RunPhase N :=
  match row with
  | some ⟨.done, some text, _, _, _⟩ => .returned true (parse text)
  | some ⟨.failed, _, _, _, _⟩ => .retrying
  | _ => .conflict

/-- The row after a failure: kept as failed, or deleted. -/
def failKey (row : Option KeyRow) (recordFailures : Bool) (error : String) (now : Int) :
    Option KeyRow :=
  if recordFailures then
    row.map fun row => { row with status := .failed, error := some error, updatedAt := now }
  else none

/-- One step of one call: the key's row, and the phase the call enters. -/
def runStep (parse : String → JsVal N) (options : IdempotencyOptions) (row : Option KeyRow) :
    RunPhase N → RunStep N → Option (Option KeyRow × RunPhase N)
  | .idle, .claim now =>
    match claimKey row now options.ttlMs with
    | some row' => some (some row', .running now)
    | none => some (row, .looking)
  | .looking, .lookup => some (row, lookupKey parse row)
  | .retrying, .retake now =>
    match retakeKey row now with
    | some row' => some (some row', .running now)
    | none => some (row, .conflict)
  | .running since, .finish (.ok value) => some (row, .recording since value)
  | .running since, .finish (.error e) => some (row, .recovering since e)
  | .recording since value, .record ok now =>
    match serializeValue value with
    | none => some (row, .recovering since "unserializable value")
    | some text =>
      if ok then
        some (row.map fun row => { row with status := .done, responseJson := text, error := none,
                                            updatedAt := now }, .returned false value)
      else some (row, .recovering since "database error")
  | .recovering _ e, .recover ok now =>
    some (if ok then failKey row options.recordFailures e now else row, .thrown e)
  | _, .crash => some (row, .crashed)
  | _, _ => none

/-- How a call comes to hold the key, and the row it leaves. -/
inductive KeyGained (options : IdempotencyOptions) (row : Option KeyRow) :
    RunStep N → KeyRow → Int → Prop where
  | fresh {now : Int} : row = none →
    KeyGained options row (.claim now) ⟨.processing, none, none, now, now⟩ now
  | stale {now : Int} {old : KeyRow} : row = some old → old.status = .processing →
    old.createdAt ≤ now - options.ttlMs →
    KeyGained options row (.claim now) { old with updatedAt := now } now
  | retried {now : Int} {old : KeyRow} : row = some old → old.status = .failed →
    KeyGained options row (.retake now) { old with status := .processing, updatedAt := now } now

omit [JsNumber N] in
/-- The key is gained for a row that is being processed from now on. -/
theorem KeyGained.processing {options : IdempotencyOptions} {row : Option KeyRow} {a : RunStep N}
    {row' : KeyRow} {now : Int} (h : KeyGained options row a row' now) :
    row'.status = .processing ∧ row'.updatedAt = now := by
  cases h with
  | fresh => exact ⟨rfl, rfl⟩
  | stale _ hstatus => exact ⟨hstatus, rfl⟩
  | retried => exact ⟨rfl, rfl⟩

/-- What a step does to the key: it is gained, the row stays, or its holder lets it go. -/
theorem runStep_cases {parse : String → JsVal N} {options : IdempotencyOptions}
    {row row' : Option KeyRow} {ph ph' : RunPhase N} {a : RunStep N}
    (h : runStep parse options row ph a = some (row', ph')) :
    (∃ r now, KeyGained options row a r now ∧ row' = some r ∧ ph' = .running now ∧
      ph.holds = none) ∨
    (row' = row ∧ (ph'.holds = ph.holds ∨ ph'.holds = none)) ∨
    ∃ since, ph.holds = some since ∧ ph'.holds = none := by
  have hlookup : (lookupKey parse row).holds = none := by
    unfold lookupKey
    split <;> rfl
  unfold runStep at h
  split at h
  · next now =>
    unfold claimKey at h
    split at h
    · next row₀ hclaim =>
      cases h
      split at hclaim
      · cases hclaim
        exact .inl ⟨_, now, .fresh rfl, rfl, rfl, rfl⟩
      · next old =>
        split at hclaim
        · next hstale =>
          cases hclaim
          exact .inl ⟨_, now, .stale rfl hstale.1 hstale.2, rfl, rfl, rfl⟩
        · cases hclaim
    · cases h
      exact .inr (.inl ⟨rfl, .inr rfl⟩)
  · cases h
    exact .inr (.inl ⟨rfl, .inr hlookup⟩)
  · next now =>
    unfold retakeKey at h
    split at h
    · next row₀ hretake =>
      cases h
      split at hretake
      · next old =>
        split at hretake
        · next hfailed =>
          cases hretake
          exact .inl ⟨_, now, .retried rfl hfailed, rfl, rfl, rfl⟩
        · cases hretake
      · cases hretake
    · cases h
      exact .inr (.inl ⟨rfl, .inr rfl⟩)
  · cases h
    exact .inr (.inl ⟨rfl, .inl rfl⟩)
  · cases h
    exact .inr (.inl ⟨rfl, .inl rfl⟩)
  · next since value ok now =>
    split at h
    · cases h
      exact .inr (.inl ⟨rfl, .inl rfl⟩)
    · split at h
      · cases h
        exact .inr (.inr ⟨since, rfl, rfl⟩)
      · cases h
        exact .inr (.inl ⟨rfl, .inl rfl⟩)
  · next since e ok now =>
    cases h
    exact .inr (.inr ⟨since, rfl, rfl⟩)
  · cases h
    exact .inr (.inl ⟨rfl, .inr rfl⟩)
  · cases h

end

/-! ## Runs -/

/-- Calls of `run` on one key. `parse` is `JSON.parse`. -/
structure KeyedCalls (ι N : Type) where
  options : ι → IdempotencyOptions
  parse : String → JsVal N

/-- The key's row, the calls, and the value of the first execution that has ended with one, with the
calls that have come after that. -/
structure KeyState (ι N : Type) where
  row : Option KeyRow
  phase : ι → RunPhase N
  settled : Option (JsVal N)
  later : ι → Option (JsVal N)

/-- A step of a call, or the deletion of the row if it was last updated before a time. -/
inductive KeyAction (ι N : Type) where
  | call (i : ι) (a : RunStep N)
  | prune (cutoff : Int)

namespace KeyedCalls
variable {ι N : Type} [DecidableEq ι] [JsNumber N] (K : KeyedCalls ι N)

/-- The value of an execution whose outcome is offered to the record. -/
def settledBy (ph : RunPhase N) (a : RunStep N) : Option (JsVal N) :=
  match ph, a with
  | .recording _ value, .record _ _ => some value
  | _, _ => none

/-- The calls that have claimed the key after an execution has ended with a value. -/
def laterCalls (s : KeyState ι N) (i : ι) (a : RunStep N) : ι → Option (JsVal N) :=
  match a with
  | .claim _ => Function.update s.later i s.settled
  | _ => s.later

/-- The calls, on a key nobody has used. -/
def system : System (KeyState ι N) (KeyAction ι N) where
  init s := s.row = none ∧ (∀ i, s.phase i = .idle) ∧ s.settled = none ∧ ∀ i, s.later i = none
  step s
    | .call i a =>
      (runStep K.parse (K.options i) s.row (s.phase i) a).map fun (row, ph) =>
        { row, phase := Function.update s.phase i ph,
          settled := s.settled.or (settledBy (s.phase i) a), later := laterCalls s i a }
    | .prune cutoff =>
      match s.row with
      | some row => some (if row.updatedAt < cutoff then { s with row := none } else s)
      | none => some s

/-- One call at most runs the guarded function. -/
def Exclusive (s : KeyState ι N) : Prop :=
  ∀ i j since since', s.phase i = .running since → s.phase j = .running since' → i = j

/-- No execution has run as long as the stale threshold when another call claims the key or when
rows are pruned. -/
def Timely (s : KeyState ι N) : KeyAction ι N → Prop
  | .call i (.claim now) => ∀ j since, (s.phase j).holds = some since →
    now - since < (K.options i).ttlMs
  | .prune cutoff => ∀ j since, (s.phase j).holds = some since → cutoff ≤ since
  | _ => True

/-- No call claims the key while an execution that a retry or a takeover has started holds it, once
the row's `created_at` is as old as the stale threshold. -/
def FreshClaim (s : KeyState ι N) : KeyAction ι N → Prop
  | .call i (.claim now) => ∀ j since row, (s.phase j).holds = some since → s.row = some row →
    row.createdAt ≠ since → now - (K.options i).ttlMs < row.createdAt
  | _ => True

/-! ## The invariant -/

/-- One call at most holds the key, and then the row says that it is being processed since. -/
structure HolderInvariant (s : KeyState ι N) : Prop where
  unique : ∀ i j since since', (s.phase i).holds = some since → (s.phase j).holds = some since' →
    i = j
  processing : ∀ i since, (s.phase i).holds = some since →
    ∃ row, s.row = some row ∧ row.status = .processing ∧ row.updatedAt = since

variable {K}

omit [DecidableEq ι] [JsNumber N] in
/-- A call that gains the key finds nobody holding it, if no row that is held is stale to it. -/
theorem HolderInvariant.gained {s : KeyState ι N} (h : HolderInvariant s)
    {options : IdempotencyOptions} {a : RunStep N} {row : KeyRow} {now : Int}
    (hgained : KeyGained options s.row a row now)
    (hstale : ∀ now, a = .claim now → ∀ j since row, (s.phase j).holds = some since →
      s.row = some row → ¬ row.createdAt ≤ now - options.ttlMs) (j : ι) :
    (s.phase j).holds = none := by
  cases hj : (s.phase j).holds with
  | none => rfl
  | some since =>
    exfalso
    obtain ⟨r, hr, hstatus, -⟩ := h.processing j since hj
    cases hgained with
    | fresh hrow =>
      rw [hr] at hrow
      cases hrow
    | stale hrow _ hold =>
      rw [hr] at hrow
      cases hrow
      exact hstale now rfl j since r hj hr hold
    | retried hrow hfailed =>
      rw [hr] at hrow
      cases hrow
      rw [hstatus] at hfailed
      cases hfailed

omit [JsNumber N] in
/-- The holder of the key after a call's step: that call, or a call that held it before. -/
theorem holds_update {s : KeyState ι N} {i j : ι} {ph : RunPhase N} {since : Int}
    (h : (Function.update s.phase i ph j).holds = some since) :
    (j = i ∧ ph.holds = some since) ∨ (j ≠ i ∧ (s.phase j).holds = some since) := by
  by_cases hj : j = i
  · subst hj
    rw [Function.update_self] at h
    exact .inl ⟨rfl, h⟩
  · rw [Function.update_of_ne hj] at h
    exact .inr ⟨hj, h⟩

omit [DecidableEq ι] [JsNumber N] in
/-- A key that nobody holds. -/
theorem holderInvariant_of_nobody {s : KeyState ι N}
    (h : ∀ i since, (s.phase i).holds ≠ some since) : HolderInvariant s :=
  ⟨fun i _ since _ hi => absurd hi (h i since), fun i since hi => absurd hi (h i since)⟩

/-- A step of a call keeps the invariant, if the call gains the key only from nobody. -/
theorem HolderInvariant.call {s : KeyState ι N} (h : HolderInvariant s) {i : ι} {a : RunStep N}
    {row : Option KeyRow} {ph : RunPhase N} (settled : Option (JsVal N))
    (later : ι → Option (JsVal N))
    (hrun : runStep K.parse (K.options i) s.row (s.phase i) a = some (row, ph))
    (hfree : ∀ r now, KeyGained (K.options i) s.row a r now → ∀ j, (s.phase j).holds = none) :
    HolderInvariant { row, phase := Function.update s.phase i ph, settled, later } := by
  obtain ⟨r, now, hgained, rfl, rfl, -⟩ | ⟨rfl, hph⟩ | ⟨since, hi, hph⟩ := runStep_cases hrun
  · have hnobody := hfree r now hgained
    have honly : ∀ j since, (Function.update s.phase i (.running now) j).holds = some since →
        j = i ∧ since = now := by
      intro j since hj
      obtain ⟨rfl, hnow⟩ | ⟨-, hother⟩ := holds_update hj
      · exact ⟨rfl, (Option.some.inj hnow).symm⟩
      · rw [hnobody j] at hother
        cases hother
    refine ⟨fun j k since since' hj hk => ?_, fun j since hj => ?_⟩
    · rw [(honly j since hj).1, (honly k since' hk).1]
    · obtain ⟨-, rfl⟩ := honly j since hj
      exact ⟨r, rfl, hgained.processing⟩
  · have hold : ∀ j since, (Function.update s.phase i ph j).holds = some since →
        (s.phase j).holds = some since := by
      intro j since hj
      obtain ⟨rfl, hself⟩ | ⟨-, hother⟩ := holds_update hj
      · obtain heq | hnone := hph
        · rw [← heq, hself]
        · rw [hnone] at hself
          cases hself
      · exact hother
    exact ⟨fun j k since since' hj hk => h.unique j k since since' (hold j since hj)
      (hold k since' hk), fun j since hj => h.processing j since (hold j since hj)⟩
  · -- the holder lets the key go: nobody else held it
    have hnobody : ∀ j since, (Function.update s.phase i ph j).holds ≠ some since := by
      intro j since' hj
      obtain ⟨rfl, hself⟩ | ⟨hne, hother⟩ := holds_update hj
      · rw [hph] at hself
        cases hself
      · exact hne (h.unique j i since' since hother hi)
    exact holderInvariant_of_nobody hnobody

/-- One step under the conditions keeps the invariant. -/
theorem HolderInvariant.step {s s' : KeyState ι N} (h : HolderInvariant s) {a : KeyAction ι N}
    (ht : K.Timely s a) (hf : K.FreshClaim s a) (hstep : K.system.step s a = some s') :
    HolderInvariant s' := by
  cases a with
  | prune cutoff =>
    unfold system at hstep
    dsimp only at hstep
    split at hstep
    · next row hrow =>
      cases hstep
      split
      · next hold =>
        refine holderInvariant_of_nobody fun j since hj => ?_
        obtain ⟨r, hr, -, hupdated⟩ := h.processing j since hj
        rw [hrow] at hr
        cases hr
        have hcut := ht j since hj
        omega
      · exact h
    · cases hstep
      exact h
  | call i a =>
    obtain ⟨⟨row, ph⟩, hrun, rfl⟩ := Option.map_eq_some_iff.1 hstep
    refine h.call _ _ hrun fun r now hgained => h.gained hgained ?_
    rintro now rfl j since row hj hrow hold
    have htime := ht j since hj
    by_cases hcreated : row.createdAt = since
    · omega
    · have hfresh := hf j since row hj hrow hcreated
      omega

/-- The invariant holds at the start. -/
theorem holderInvariant_init {s : KeyState ι N} (h : K.system.init s) : HolderInvariant s := by
  refine holderInvariant_of_nobody fun i since hi => ?_
  rw [h.2.1 i] at hi
  cases hi

/-- One execution at most is in flight, in every run whose executions stay below the stale threshold
and in which no call claims a key whose row is older than the execution that holds it. -/
theorem exclusive_of_freshClaim {s : KeyState ι N}
    (h : K.system.Reach (fun s a => K.Timely s a ∧ K.FreshClaim s a) s) : Exclusive s := by
  have hinv : HolderInvariant s := by
    refine h.invariant (I := HolderInvariant) (fun s hs => holderInvariant_init hs) ?_
    intro s a s' hs hp hstep
    exact hs.step hp.1 hp.2 hstep
  intro i j since since' hi hj
  exact hinv.unique i j since since' (by rw [hi]; rfl) (by rw [hj]; rfl)

end KeyedCalls

/-! ## A retried key -/

/-- Three callers. -/
inductive Caller where
  | first
  | second
  | third
  deriving DecidableEq

/-- Calls with a threshold of ten milliseconds. -/
def sampleKeyed : KeyedCalls Caller (Option Int) where
  options _ := { ttlMs := 10 }
  parse text := if text = "null" then .null else .str text

/-- Before the calls. -/
def sampleKeyState : KeyState Caller (Option Int) where
  row := none
  phase _ := .idle
  settled := none
  later _ := none

/-- The first call fails; the second retries its key, and the third takes over the row, which is as
old as the first call. -/
theorem retried_key_taken_over :
    ¬ ∀ (ι : Type) (_ : DecidableEq ι) (K : KeyedCalls ι (Option Int)) (s : KeyState ι (Option Int)),
        K.system.Reach K.Timely s → KeyedCalls.Exclusive s := by
  intro h
  have h₀ : sampleKeyed.system.Reach sampleKeyed.Timely sampleKeyState :=
    .init ⟨rfl, fun _ => rfl, rfl, fun _ => rfl⟩
  have h₁ := h₀.step (a := .call .first (.claim 0)) (by rintro _ _ ⟨⟩) rfl
  have h₂ := h₁.step (a := .call .first (.finish (.error "e"))) (by exact trivial) rfl
  have h₃ := h₂.step (a := .call .first (.recover true 1)) (by exact trivial) rfl
  have h₄ := h₃.step (a := .call .second (.claim 20)) (by rintro (_ | _ | _) _ ⟨⟩) rfl
  have h₅ := h₄.step (a := .call .second .lookup) (by exact trivial) rfl
  have h₆ := h₅.step (a := .call .second (.retake 20)) (by exact trivial) rfl
  have h₇ := h₆.step (a := .call .third (.claim 21))
    (by rintro (_ | _ | _) _ ⟨⟩; decide) rfl
  cases h Caller inferInstance sampleKeyed _ h₇ .second .third _ _ rfl rfl

theorem exclusive_of_freshClaim_sample : ∃ s, sampleKeyed.system.Reach
    (fun s a => sampleKeyed.Timely s a ∧ sampleKeyed.FreshClaim s a) s ∧
      s.phase .first = .running 0 ∧ s.phase .second = .looking ∧ KeyedCalls.Exclusive s := by
  have h₀ : sampleKeyed.system.Reach
      (fun s a => sampleKeyed.Timely s a ∧ sampleKeyed.FreshClaim s a) sampleKeyState :=
    .init ⟨rfl, fun _ => rfl, rfl, fun _ => rfl⟩
  have h₁ := h₀.step (a := .call .first (.claim 0)) (by exact ⟨by rintro _ _ ⟨⟩, by rintro _ _ _ ⟨⟩⟩) rfl
  have h₂ := h₁.step (a := .call .second (.claim 5))
    (by
      refine ⟨?_, ?_⟩
      · rintro (_ | _ | _) _ ⟨⟩
        decide
      · rintro (_ | _ | _) _ _ ⟨⟩ ⟨⟩ hne
        exact absurd rfl hne) rfl
  exact ⟨_, h₂, rfl, rfl, KeyedCalls.exclusive_of_freshClaim h₂⟩

end HeadlessErp
