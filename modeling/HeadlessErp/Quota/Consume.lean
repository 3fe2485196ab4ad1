import Mathlib.Data.Rat.Floor
import Mathlib.Tactic.Linarith
import HeadlessErp.Base.Transition
import HeadlessErp.Entity.Row

/-!
# Quotas

`QuotaService.consume` of `packages/quota/src/service.ts`. A call reads the clock first and runs its
statement later, and the statement counts the amount whether or not it is still allowed. Over a run
the quota is kept as long as no statement comes after one of a later window, and no call comes that
would fit behind one that was refused.
-/

namespace HeadlessErp

/-! ## The service -/

/-- `QuotaConsumeOptions`. -/
structure QuotaConsumeOptions where
  limit : ℚ
  windowMs : ℚ

/-- `QuotaResult`. -/
structure QuotaResult where
  allowed : Bool
  used : ℚ
  limit : ℚ
  resetAt : ℤ
  deriving DecidableEq

/-- A row of `_quotas`. -/
structure QuotaRow where
  window : ℤ
  used : ℚ
  maxValue : ℚ
  deriving DecidableEq

/-- The bindings of the statement of a call, and the end of its window. -/
structure ConsumeCall where
  key : String
  amount : ℚ
  limit : ℚ
  window : ℤ
  resetAt : ℤ
  deriving DecidableEq

/-- `windowSec`. -/
def windowSec (windowMs : ℚ) : ℤ := max 1 ⌊windowMs / 1000⌋

/-- `consume`, up to its statement. -/
def prepareConsume (key : String) (amount : ℚ) (opts : QuotaConsumeOptions) (nowMs : ℕ) :
    Except String ConsumeCall :=
  if amount < 0 then .error "quota amount must be a finite non-negative number"
  else if jsTrim key = "" then .error "quota key is required"
  else
    let window := (nowMs / 1000 : ℕ) / windowSec opts.windowMs
    .ok { key := jsTrim key, amount, limit := opts.limit, window
          resetAt := (window + 1) * windowSec opts.windowMs * 1000 }

/-- The row that the statement of a call leaves: `INSERT … ON CONFLICT(key) DO UPDATE`. -/
def upsertQuota (row : Option QuotaRow) (c : ConsumeCall) : QuotaRow where
  window := c.window
  used := match row with
    | some r => if r.window = c.window then r.used + c.amount else c.amount
    | none => c.amount
  maxValue := c.limit

/-- What a call returns of the row of its statement. -/
def consumeResult (c : ConsumeCall) (row : QuotaRow) : QuotaResult where
  allowed := decide (row.used ≤ row.maxValue)
  used := row.used
  limit := row.maxValue
  resetAt := c.resetAt

/-! ## Runs -/

/-- A call that was answered. -/
structure QuotaEntry where
  call : ConsumeCall
  result : QuotaResult
  deriving DecidableEq

/-- The entry counts for a window of a key. -/
def QuotaEntry.isOf (e : QuotaEntry) (key : String) (window : ℤ) : Bool :=
  e.call.key = key && e.call.window = window

/-- The rows of `_quotas`, the clock, the calls that have read it, and the answers so far, the last
one first. -/
structure QuotaState where
  rows : String → Option QuotaRow
  now : ℕ
  pending : List ConsumeCall
  answered : List QuotaEntry

/-- A step of some call: it reads the clock, or runs its statement. -/
inductive QuotaAction where
  | start (key : String) (amount : ℚ) (now : ℕ)
  | execute (i : ℕ)

/-- The state after the statement of a call. -/
def executeCall (s : QuotaState) (i : ℕ) (c : ConsumeCall) : QuotaState :=
  let row := upsertQuota (s.rows c.key) c
  { s with
    rows := Function.update s.rows c.key (some row)
    pending := s.pending.eraseIdx i
    answered := ⟨c, consumeResult c row⟩ :: s.answered }

/-- The calls under a clock that does not go back, with one limit and one window length for each
key. -/
def quotaSystem (opts : String → QuotaConsumeOptions) : System QuotaState QuotaAction where
  init s := (∀ key, s.rows key = none) ∧ s.pending = [] ∧ s.answered = []
  step s
    | .start key amount now =>
      if s.now ≤ now then
        match prepareConsume key amount (opts (jsTrim key)) now with
        | .ok c => some { s with now, pending := s.pending ++ [c] }
        | .error _ => some { s with now }
      else none
    | .execute i => s.pending[i]?.map (executeCall s i)

/-- The amounts that were allowed in a window of a key. -/
def allowedAmount (key : String) (window : ℤ) : List QuotaEntry → ℚ
  | [] => 0
  | e :: es =>
    (if e.isOf key window && e.result.allowed then e.call.amount else 0)
      + allowedAmount key window es

/-- The amounts of all calls in a window of a key. -/
def totalAmount (key : String) (window : ℤ) : List QuotaEntry → ℚ
  | [] => 0
  | e :: es => (if e.isOf key window then e.call.amount else 0) + totalAmount key window es

/-- What the quotas promise. -/
structure QuotaKept (opts : String → QuotaConsumeOptions) (answered : List QuotaEntry) : Prop where
  bound : ∀ newer e older, answered = newer ++ e :: older → e.result.allowed = true →
    allowedAmount e.call.key e.call.window (e :: older) ≤ (opts e.call.key).limit
  fits : ∀ newer e older, answered = newer ++ e :: older →
    allowedAmount e.call.key e.call.window older + e.call.amount ≤ (opts e.call.key).limit →
      e.result.allowed = true

/-- A statement comes after none of a later window. If the counter of its window has passed the
limit, the call does not fit into what the allowed ones have left. -/
def KeepsOrder (opts : String → QuotaConsumeOptions) (s : QuotaState) : QuotaAction → Prop
  | .start .. => True
  | .execute i => ∀ c, s.pending[i]? = some c → ∀ r, s.rows c.key = some r →
      r.window ≤ c.window ∧
        (r.window = c.window → r.used ≤ (opts c.key).limit ∨
          (opts c.key).limit < allowedAmount c.key c.window s.answered + c.amount)

/-! ## Sums -/

section
variable {opts : String → QuotaConsumeOptions} {key : String} {window : ℤ}
  {es : List QuotaEntry}

theorem totalAmount_eq_zero (h : ∀ e ∈ es, e.isOf key window = false) :
    totalAmount key window es = 0 := by
  induction es with
  | nil => rfl
  | cons e es ih =>
    rw [totalAmount, h e List.mem_cons_self, ih fun e he => h e (List.mem_cons_of_mem _ he)]
    simp

theorem allowedAmount_le (h : ∀ e ∈ es, 0 ≤ e.call.amount) :
    allowedAmount key window es ≤ totalAmount key window es := by
  induction es with
  | nil => exact le_refl _
  | cons e es ih =>
    have hes := ih fun e he => h e (List.mem_cons_of_mem _ he)
    have he := h e List.mem_cons_self
    rw [allowedAmount, totalAmount]
    rcases e.isOf key window with _ | _
    · simpa using hes
    · rcases e.result.allowed with _ | _
      · simp only [Bool.and_false, Bool.false_eq_true, if_false, if_true]
        linarith
      · simpa using hes

/-- In a window that has refused no call, all amounts were allowed. -/
theorem allowedAmount_eq (h : ∀ e ∈ es, e.isOf key window = true → e.result.allowed = true) :
    allowedAmount key window es = totalAmount key window es := by
  induction es with
  | nil => rfl
  | cons e es ih =>
    rw [allowedAmount, totalAmount, ih fun e he => h e (List.mem_cons_of_mem _ he)]
    rcases hof : e.isOf key window with _ | _
    · simp
    · rw [h e List.mem_cons_self hof]
      simp

/-! ## The invariant -/

/-- A row counts the calls of the last window of its key. While it has not passed the limit, all of
them were allowed. -/
structure Counting (opts : String → QuotaConsumeOptions) (answered : List QuotaEntry)
    (key : String) (r : QuotaRow) : Prop where
  last : ∀ e ∈ answered, e.call.key = key → e.call.window ≤ r.window
  used : r.used = totalAmount key r.window answered
  allowed : r.used ≤ (opts key).limit →
    ∀ e ∈ answered, e.isOf key r.window = true → e.result.allowed = true

/-- What holds in every state of a run that keeps the order. -/
structure QuotaSound (opts : String → QuotaConsumeOptions) (s : QuotaState) : Prop where
  pending : ∀ c ∈ s.pending, 0 ≤ c.amount ∧ c.limit = (opts c.key).limit
  amounts : ∀ e ∈ s.answered, 0 ≤ e.call.amount
  fresh : ∀ key, s.rows key = none → ∀ e ∈ s.answered, e.call.key ≠ key
  counting : ∀ key r, s.rows key = some r → Counting opts s.answered key r
  kept : QuotaKept opts s.answered

theorem prepareConsume_eq_ok {amount : ℚ} {opts : QuotaConsumeOptions} {nowMs : ℕ}
    {c : ConsumeCall} (h : prepareConsume key amount opts nowMs = .ok c) :
    0 ≤ c.amount ∧ c.limit = opts.limit ∧ c.key = jsTrim key := by
  unfold prepareConsume at h
  split at h
  · cases h
  next hamount =>
  split at h
  · cases h
  · obtain rfl := Except.ok.inj h
    exact ⟨not_lt.1 hamount, rfl, rfl⟩

theorem QuotaEntry.isOf_iff {e : QuotaEntry} :
    e.isOf key window = true ↔ e.call.key = key ∧ e.call.window = window := by
  simp [isOf]

/-- The row of a call counts all of its window. -/
theorem used_upsertQuota {s : QuotaState} {c : ConsumeCall} (h : QuotaSound opts s)
    (horder : ∀ r, s.rows c.key = some r → r.window ≤ c.window) :
    (upsertQuota (s.rows c.key) c).used =
      totalAmount c.key c.window s.answered + c.amount := by
  unfold upsertQuota
  rcases hrow : s.rows c.key with _ | r
  · rw [totalAmount_eq_zero fun e he => ?_, zero_add]
    have hne := h.fresh c.key hrow e he
    exact Bool.eq_false_iff.2 fun hof => hne (QuotaEntry.isOf_iff.1 hof).1
  · have hcounting := h.counting c.key r hrow
    by_cases hsame : r.window = c.window
    · simp only [if_pos hsame]
      rw [hcounting.used, hsame]
    · simp only [if_neg hsame]
      rw [totalAmount_eq_zero fun e he => ?_, zero_add]
      refine Bool.eq_false_iff.2 fun hof => ?_
      obtain ⟨hkey, hwindow⟩ := QuotaEntry.isOf_iff.1 hof
      have hlast := hcounting.last e he hkey
      have hle := horder r hrow
      omega

/-- The calls before one in its window were allowed, while the counter has not passed the limit. -/
theorem allowed_of_used_le {s : QuotaState} {c : ConsumeCall} (h : QuotaSound opts s)
    (horder : ∀ r, s.rows c.key = some r → r.window ≤ c.window)
    (hused : ∀ r, s.rows c.key = some r → r.window = c.window → r.used ≤ (opts c.key).limit) :
    ∀ e ∈ s.answered, e.isOf c.key c.window = true → e.result.allowed = true := by
  intro e he hof
  obtain ⟨hkey, hwindow⟩ := QuotaEntry.isOf_iff.1 hof
  rcases hrow : s.rows c.key with _ | r
  · exact absurd hkey (h.fresh c.key hrow e he)
  · have hcounting := h.counting c.key r hrow
    have hlast := hcounting.last e he hkey
    have hsame : r.window = c.window := le_antisymm (horder r hrow) (hwindow ▸ hlast)
    exact hcounting.allowed (hused r hrow hsame) e he (by rw [hsame]; exact hof)

/-! ## Steps and runs -/

theorem QuotaSound.init {s : QuotaState} (h : (quotaSystem opts).init s) : QuotaSound opts s where
  pending c hc := by
    rw [h.2.1] at hc
    cases hc
  amounts e he := by
    rw [h.2.2] at he
    cases he
  fresh key _ e he := by
    rw [h.2.2] at he
    cases he
  counting key r hr := by
    rw [h.1 key] at hr
    cases hr
  kept := by
    rw [h.2.2]
    refine ⟨fun newer e older heq => ?_, fun newer e older heq => ?_⟩
    · cases newer <;> cases heq
    · cases newer <;> cases heq

/-- A call that has read the clock is under the limit of its key. -/
theorem QuotaSound.start {s s' : QuotaState} {amount : ℚ} {now : ℕ} (h : QuotaSound opts s)
    (hstep : (quotaSystem opts).step s (.start key amount now) = some s') : QuotaSound opts s' := by
  simp only [quotaSystem] at hstep
  split at hstep
  · split at hstep
    · next c hc =>
      obtain rfl := Option.some.inj hstep
      obtain ⟨hamount, hlimit, hkey⟩ := prepareConsume_eq_ok hc
      refine ⟨fun d hd => ?_, h.amounts, h.fresh, h.counting, h.kept⟩
      rcases List.mem_append.1 hd with hd | hd
      · exact h.pending d hd
      · obtain rfl := List.mem_singleton.1 hd
        exact ⟨hamount, by rw [hlimit, hkey]⟩
    · obtain rfl := Option.some.inj hstep
      exact ⟨h.pending, h.amounts, h.fresh, h.counting, h.kept⟩
  · cases hstep

/-- The quota is kept by the answer of a call. -/
theorem QuotaKept.cons {answered : List QuotaEntry} {e : QuotaEntry} (h : QuotaKept opts answered)
    (hbound : e.result.allowed = true →
      allowedAmount e.call.key e.call.window (e :: answered) ≤ (opts e.call.key).limit)
    (hfits : allowedAmount e.call.key e.call.window answered + e.call.amount ≤
      (opts e.call.key).limit → e.result.allowed = true) : QuotaKept opts (e :: answered) := by
  refine ⟨fun newer d older heq => ?_, fun newer d older heq => ?_⟩
  · cases newer with
    | nil =>
      obtain ⟨rfl, rfl⟩ := List.cons.inj heq
      exact hbound
    | cons _ newer =>
      obtain ⟨rfl, rfl⟩ := List.cons.inj heq
      exact h.bound newer d older rfl
  · cases newer with
    | nil =>
      obtain ⟨rfl, rfl⟩ := List.cons.inj heq
      exact hfits
    | cons _ newer =>
      obtain ⟨rfl, rfl⟩ := List.cons.inj heq
      exact h.fits newer d older rfl

/-- The statement of a call that keeps the order. -/
theorem QuotaSound.execute {s : QuotaState} {i : ℕ} {c : ConsumeCall} (h : QuotaSound opts s)
    (hc : s.pending[i]? = some c) (hkeeps : KeepsOrder opts s (.execute i)) :
    QuotaSound opts (executeCall s i c) := by
  obtain ⟨hamount, hlimit⟩ := h.pending c (List.mem_of_getElem? hc)
  have horder := fun r hr => (hkeeps c hc r hr).1
  have hused := used_upsertQuota h horder
  generalize hrow : upsertQuota (s.rows c.key) c = row at hused
  have hwindow : row.window = c.window := by rw [← hrow]; rfl
  have hmax : row.maxValue = (opts c.key).limit := by rw [← hrow]; exact hlimit
  have hself : ∀ result, (QuotaEntry.mk c result).isOf c.key c.window = true :=
    fun _ => QuotaEntry.isOf_iff.2 ⟨rfl, rfl⟩
  have htotal : totalAmount c.key c.window (⟨c, consumeResult c row⟩ :: s.answered) = row.used := by
    rw [totalAmount, if_pos (hself _), hused, add_comm]
  have hamounts : ∀ e ∈ (⟨c, consumeResult c row⟩ :: s.answered : List QuotaEntry),
      0 ≤ e.call.amount := List.forall_mem_cons.2 ⟨hamount, h.amounts⟩
  have hallowed : (consumeResult c row).allowed = true ↔ row.used ≤ (opts c.key).limit := by
    rw [← hmax]
    exact decide_eq_true_iff
  unfold executeCall
  rw [hrow]
  refine ⟨fun d hd => h.pending d (List.mem_of_mem_eraseIdx hd), hamounts, fun key hkey e he => ?_,
    fun key r hr => ?_, h.kept.cons (fun hok => ?_) fun hfit => ?_⟩
  · simp only [Function.update_apply] at hkey
    split at hkey
    · cases hkey
    next hne =>
    rcases List.mem_cons.1 he with rfl | he
    · exact Ne.symm hne
    · exact h.fresh key hkey e he
  · simp only [Function.update_apply] at hr
    split at hr
    · next heq =>
      subst heq
      obtain rfl := Option.some.inj hr
      refine ⟨List.forall_mem_cons.2 ⟨fun _ => hwindow.ge, fun e he hkey => ?_⟩, ?_, fun hle => ?_⟩
      · rw [hwindow]
        rcases hold : s.rows c.key with _ | r
        · exact absurd hkey (h.fresh c.key hold e he)
        · exact ((h.counting c.key r hold).last e he hkey).trans (horder r hold)
      · rw [hwindow, htotal]
      · rw [hwindow]
        refine List.forall_mem_cons.2 ⟨fun _ => hallowed.2 hle, ?_⟩
        refine allowed_of_used_le h horder fun r hold hsame => ?_
        have hcounting := (h.counting c.key r hold).used
        rw [hsame] at hcounting
        rw [hcounting]
        linarith
    next hne =>
      obtain ⟨hlast, hcount, hall⟩ := h.counting key r hr
      have hother : ∀ result window, (QuotaEntry.mk c result).isOf key window = false :=
        fun _ _ => Bool.eq_false_iff.2 fun hof => hne (QuotaEntry.isOf_iff.1 hof).1.symm
      refine ⟨List.forall_mem_cons.2 ⟨fun hkey => absurd hkey.symm hne, hlast⟩, ?_, fun hle => ?_⟩
      · rw [totalAmount, hother, hcount]
        simp
      · refine List.forall_mem_cons.2 ⟨fun hof => ?_, hall hle⟩
        rw [hother] at hof
        cases hof
  · calc allowedAmount c.key c.window (⟨c, consumeResult c row⟩ :: s.answered)
        ≤ totalAmount c.key c.window (⟨c, consumeResult c row⟩ :: s.answered) :=
          allowedAmount_le hamounts
      _ = row.used := htotal
      _ ≤ (opts c.key).limit := hallowed.1 hok
  · refine hallowed.2 ?_
    have hall := allowed_of_used_le h horder fun r hold hsame =>
      ((hkeeps c hc r hold).2 hsame).resolve_right (not_lt.2 hfit)
    rw [hused, ← allowedAmount_eq hall]
    exact hfit

end

/-- A limit of ten in a window of one second. -/
def tenASecond (_ : String) : QuotaConsumeOptions := { limit := 10, windowMs := 1000 }

/-- No calls yet. -/
def quotaStart : QuotaState where
  rows _ := none
  now := 0
  pending := []
  answered := []

end HeadlessErp
