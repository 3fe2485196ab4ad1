import Mathlib.Data.List.Dedup
import HeadlessErp.RateLimit.Limiter

/-!
# The bound of a rate limit

What the limiter of `apps/api/src/middleware/rate-limiter.ts` promises over a run of calls: a window
admits no more than its limit, a call is refused only by a full window, and the store stays small. A
window that has ended is renewed where it stands in the map, so the first entry of a full store may
be a window that is still open, and dropping it forgets the calls it has counted. In the runs that
drop only windows that have ended, the limiter keeps its promise.
-/

namespace HeadlessErp

/-- A call of the limiter. -/
structure RateRequest where
  ns : String
  ip : String
  userId : Option String
  now : Nat

def RateRequest.key (r : RateRequest) : String := rateKey r.ns r.ip r.userId

/-- A call that was answered. `opened` says that it opened a window for its key. -/
structure RateCall where
  key : String
  time : Nat
  opened : Bool
  result : RateLimitCheckResult

/-- The store, the clock, and the calls so far, the last one first. -/
structure RateState where
  store : RateStore
  now : Nat
  calls : List RateCall

/-- A call on a store, and its answer. -/
def answerCall (cfg : String → RateLimitConfig) (s : RateState) (r : RateRequest) : RateState :=
  let (store, result) := checkRateLimit r.ns r.ip r.userId (cfg r.key) r.now s.store
  { store, now := r.now
    calls := { key := r.key, time := r.now, opened := (liveEntry s.store r.key r.now).isNone,
               result } :: s.calls }

/-- The limiter under a clock that does not go back, with one configuration for each key. -/
def rateLimiter (cfg : String → RateLimitConfig) : System RateState RateRequest where
  init s := s.store = .empty ∧ s.calls = []
  step s r := if s.now ≤ r.now then some (answerCall cfg s r) else none

/-- The calls of the current window of a key. -/
def counted (key : String) : List RateCall → Nat
  | [] => 0
  | c :: calls =>
    if c.key = key then (if c.opened then 1 else counted key calls + 1) else counted key calls

/-- A call that is allowed before the window of another one ends. -/
def RateCall.admits (c d : RateCall) : Bool :=
  d.key = c.key && d.result.allowed && decide (d.time ≤ c.result.resetAt)

/-- What the limiter promises. -/
structure Bounded (cfg : String → RateLimitConfig) (s : RateState) : Prop where
  window : ∀ newer c older, s.calls = newer ++ c :: older → c.opened = true →
    (newer ++ [c]).countP c.admits ≤ (cfg c.key).max
  refused : ∀ newer c older, s.calls = newer ++ c :: older → c.result.allowed = false →
    (cfg c.key).max ≤ if c.opened then 0 else counted c.key older
  size : s.store.size ≤ maxStoreSize

/-- The keys with a window that has not ended. -/
def openKeys (calls : List RateCall) (now : Nat) : List String :=
  ((calls.filter fun c => c.opened && decide (now ≤ c.result.resetAt)).map (·.key)).dedup

/-- At most as many keys have an open window as the store has room for. -/
def FewOpen (s : RateState) (r : RateRequest) : Prop :=
  (r.key :: openKeys s.calls r.now).dedup.length ≤ maxStoreSize

/-- A new key in a full store drops a window that has ended. -/
def DropsEnded (s : RateState) (r : RateRequest) : Prop :=
  s.store.get? r.key = none → maxStoreSize ≤ s.store.size →
    ∀ entry ∈ s.store.entries.head?, entry.2.resetAt < r.now

section
variable {cfg : String → RateLimitConfig} {s : RateState} {r : RateRequest} {k : String}
  {e : RateEntry}

/-! ## One call -/

/-- The store after a call. -/
theorem store_answerCall : (answerCall cfg s r).store =
    countOn (openWindow (cfg r.key) r.key r.now s.store).1 r.key
      { (openWindow (cfg r.key) r.key r.now s.store).2 with
        count := (openWindow (cfg r.key) r.key r.now s.store).2.count + 1 } := rfl

/-- An entry after a call: the one of the call's key has counted one more, any other was there. -/
theorem get?_answerCall (h : (answerCall cfg s r).store.get? k = some e) :
    (k = r.key ∧ e = { (openWindow (cfg r.key) r.key r.now s.store).2 with
        count := (openWindow (cfg r.key) r.key r.now s.store).2.count + 1 }) ∨
      (k ≠ r.key ∧ s.store.get? k = some e) := by
  rw [store_answerCall, get?_countOn] at h
  split at h
  · next hk =>
    obtain ⟨_, _, heq⟩ := Option.map_eq_some_iff.1 h
    exact .inl ⟨hk, heq.symm⟩
  · next hk => exact .inr ⟨hk, get?_of_openWindow hk h⟩

/-- Where the entry of a call starts to count. -/
theorem openWindow_count : (openWindow (cfg r.key) r.key r.now s.store).2.count =
    if (liveEntry s.store r.key r.now).isNone then 0
    else ((s.store.get? r.key).map (·.count)).getD 0 := by
  cases hlive : liveEntry s.store r.key r.now with
  | some entry =>
    rw [openWindow_of_live hlive, (liveEntry_eq_some hlive).1]
    rfl
  | none =>
    rw [openWindow_of_none hlive]
    rfl

/-! ## Every run -/

/-- The entries count the calls of their windows. -/
def Counts (s : RateState) : Prop :=
  ∀ k e, s.store.get? k = some e → e.count = counted k s.calls

theorem counts_answerCall (h : Counts s) : Counts (answerCall cfg s r) := by
  intro k e he
  rcases get?_answerCall he with ⟨rfl, rfl⟩ | ⟨hk, hold⟩
  · show _ = counted r.key (_ :: s.calls)
    unfold counted
    rw [if_pos rfl]
    simp only [openWindow_count]
    cases hlive : liveEntry s.store r.key r.now with
    | none => rfl
    | some entry =>
      have hget := (liveEntry_eq_some hlive).1
      rw [hget]
      exact congrArg (· + 1) (h _ _ hget)
  · show _ = counted k (_ :: s.calls)
    unfold counted
    rw [if_neg (Ne.symm hk)]
    exact h k e hold

/-- A call is refused only by a full window. -/
theorem refused_answerCall (h : Counts s)
    (hrefused : ((answerCall cfg s r).calls.head?.map (·.result.allowed)) = some false) :
    (cfg r.key).max ≤ if (liveEntry s.store r.key r.now).isNone then 0
      else counted r.key s.calls := by
  have hcount : ¬ (openWindow (cfg r.key) r.key r.now s.store).2.count + 1 ≤ (cfg r.key).max :=
    of_decide_eq_false (Option.some.inj hrefused)
  rw [openWindow_count] at hcount
  cases hlive : liveEntry s.store r.key r.now with
  | none =>
    rw [hlive] at hcount
    simpa using hcount
  | some entry =>
    have hget := (liveEntry_eq_some hlive).1
    rw [hlive, hget] at hcount
    have hentry := h _ _ hget
    show (cfg r.key).max ≤ counted r.key s.calls
    rw [← hentry]
    have : ¬ entry.count + 1 ≤ (cfg r.key).max := hcount
    omega

/-! ## Runs that drop only windows that have ended -/

/-- An open window is in the store, with the calls it has counted. -/
def Kept (s : RateState) : Prop :=
  ∀ newer c older, s.calls = newer ++ c :: older → c.opened = true →
    s.now ≤ c.result.resetAt →
    ∃ e, s.store.get? c.key = some e ∧ e.resetAt = c.result.resetAt ∧
      e.count = (newer ++ [c]).countP (·.key = c.key)

/-- The windows that other keys have open are kept. -/
theorem get?_openWindow_of_ne (hsize : s.store.size ≤ maxStoreSize) (hdrops : DropsEnded s r)
    (hk : k ≠ r.key) (he : s.store.get? k = some e) (hopen : r.now ≤ e.resetAt) :
    (openWindow (cfg r.key) r.key r.now s.store).1.get? k = some e := by
  cases hlive : liveEntry s.store r.key r.now with
  | some entry => rwa [openWindow_of_live hlive]
  | none =>
    rw [openWindow_of_none hlive]
    have hfirst : s.store.get? r.key = none → maxStoreSize ≤ s.store.size →
        ∀ first ∈ s.store.entries.head?, first.1 ≠ k := by
      rintro hnone hfull ⟨k', e'⟩ hhead rfl
      have hended := hdrops hnone hfull _ hhead
      have hmem := JsMap.get?_eq_some.2 (List.mem_of_mem_head? hhead)
      rw [he] at hmem
      cases hmem
      exact absurd hopen (Nat.not_le.2 hended)
    rw [get?_evictOldest_set hsize _ _ _ hfirst, JsMap.get?_set, if_neg hk]
    exact he

/-- The window that a call opens is in the store. -/
theorem get?_openWindow_self (hsize : s.store.size ≤ maxStoreSize)
    (hlive : liveEntry s.store r.key r.now = none) :
    (openWindow (cfg r.key) r.key r.now s.store).1.get? r.key =
      some (openWindow (cfg r.key) r.key r.now s.store).2 := by
  rw [openWindow_of_none hlive]
  have hfirst : s.store.get? r.key = none → maxStoreSize ≤ s.store.size →
      ∀ first ∈ s.store.entries.head?, first.1 ≠ r.key := by
    rintro hnone - ⟨k', e'⟩ hhead rfl
    rw [JsMap.get?_eq_some.2 (List.mem_of_mem_head? hhead)] at hnone
    cases hnone
  rw [get?_evictOldest_set hsize _ _ _ hfirst, JsMap.get?_set, if_pos rfl]

theorem step_of_le (h : s.now ≤ r.now) :
    (rateLimiter cfg).step s r = some (answerCall cfg s r) := if_pos h

/-- The call that was answered last. -/
def lastCall (cfg : String → RateLimitConfig) (s : RateState) (r : RateRequest) : RateCall where
  key := r.key
  time := r.now
  opened := (liveEntry s.store r.key r.now).isNone
  result := (checkRateLimit r.ns r.ip r.userId (cfg r.key) r.now s.store).2

theorem calls_answerCall : (answerCall cfg s r).calls = lastCall cfg s r :: s.calls := rfl

/-- Where a call stands after one more was answered. -/
theorem calls_answerCall_cases {newer older : List RateCall} {c : RateCall}
    (h : (answerCall cfg s r).calls = newer ++ c :: older) :
    (newer = [] ∧ c = lastCall cfg s r ∧ older = s.calls) ∨
      ∃ newer', newer = lastCall cfg s r :: newer' ∧ s.calls = newer' ++ c :: older := by
  rw [calls_answerCall] at h
  cases newer with
  | nil =>
    obtain ⟨hc, holder⟩ := List.cons.inj h
    exact .inl ⟨rfl, hc.symm, holder.symm⟩
  | cons d newer =>
    obtain ⟨hd, hrest⟩ := List.cons.inj h
    exact .inr ⟨newer, by rw [hd], hrest⟩

/-- The entry of the call's key after the call, where it is in the store while the call counts. -/
theorem get?_answerCall_self {entry : RateEntry}
    (h : openWindow (cfg r.key) r.key r.now s.store = (s.store, entry) ∧
        s.store.get? r.key = some entry ∨
      (openWindow (cfg r.key) r.key r.now s.store).1.get? r.key = some entry ∧
        (openWindow (cfg r.key) r.key r.now s.store).2 = entry) :
    (answerCall cfg s r).store.get? r.key = some { entry with count := entry.count + 1 } := by
  have hboth : (openWindow (cfg r.key) r.key r.now s.store).1.get? r.key = some entry ∧
      (openWindow (cfg r.key) r.key r.now s.store).2 = entry := by
    rcases h with ⟨hopen, hget⟩ | h
    · rw [hopen]
      exact ⟨hget, rfl⟩
    · exact h
  rw [store_answerCall, get?_countOn, if_pos rfl, hboth.1, hboth.2]
  rfl

theorem kept_answerCall (h : Kept s) (hsize : s.store.size ≤ maxStoreSize) (hdrops : DropsEnded s r)
    (hclock : s.now ≤ r.now) : Kept (answerCall cfg s r) := by
  intro newer c older hcalls hopened hends
  have hends' : r.now ≤ c.result.resetAt := hends
  rcases calls_answerCall_cases hcalls with ⟨rfl, rfl, rfl⟩ | ⟨newer, rfl, hold⟩
  · -- the call itself opened the window
    have hlive : liveEntry s.store r.key r.now = none := Option.isNone_iff_eq_none.1 hopened
    refine ⟨_, get?_answerCall_self (.inr ⟨get?_openWindow_self hsize hlive, rfl⟩), rfl, ?_⟩
    rw [openWindow_of_none hlive, List.nil_append, List.countP_singleton,
      if_pos (decide_eq_true rfl)]
    rfl
  · obtain ⟨e, hget, hreset, hcount⟩ := h newer c older hold hopened (by omega)
    have hopen : r.now ≤ e.resetAt := by omega
    by_cases hk : c.key = r.key
    · rw [hk] at hget
      have hlive : openWindow (cfg r.key) r.key r.now s.store = (s.store, e) :=
        openWindow_of_live (liveEntry_of_le hget hopen)
      refine ⟨{ e with count := e.count + 1 }, ?_, hreset, ?_⟩
      · rw [hk]
        exact get?_answerCall_self (.inl ⟨hlive, hget⟩)
      · have hlast : decide ((lastCall cfg s r).key = c.key) = true := decide_eq_true hk.symm
        rw [List.cons_append, List.countP_cons, if_pos hlast, ← hcount]
    · refine ⟨e, ?_, hreset, ?_⟩
      · rw [store_answerCall, get?_countOn, if_neg hk]
        exact get?_openWindow_of_ne hsize hdrops hk hget hopen
      · have hlast : ¬ decide ((lastCall cfg s r).key = c.key) = true :=
          fun h => hk (of_decide_eq_true h).symm
        rw [List.cons_append, List.countP_cons, if_neg hlast]
        exact hcount

/-- A call that is allowed was counted within the limit. -/
theorem count_of_allowed (h : (lastCall cfg s r).result.allowed = true) :
    (openWindow (cfg r.key) r.key r.now s.store).2.count + 1 ≤ (cfg r.key).max :=
  of_decide_eq_true h

theorem bounded_answerCall (h : Bounded cfg s) (hcounts : Counts s) (hkept : Kept s)
    (hclock : s.now ≤ r.now) : Bounded cfg (answerCall cfg s r) where
  window newer c older hcalls hopened := by
    rcases calls_answerCall_cases hcalls with ⟨rfl, rfl, rfl⟩ | ⟨newer, rfl, hold⟩
    · rw [List.nil_append, List.countP_singleton]
      split
      · next hadmits =>
        have hallowed : (lastCall cfg s r).result.allowed = true := by
          unfold RateCall.admits at hadmits
          simp only [Bool.and_eq_true] at hadmits
          exact hadmits.1.2
        have := count_of_allowed hallowed
        show 1 ≤ (cfg r.key).max
        omega
      · exact Nat.zero_le _
    · have hbefore := h.window newer c older hold hopened
      rw [List.cons_append]
      by_cases hadmits : c.admits (lastCall cfg s r) = true
      · -- the window is still open, so the call was counted in it
        have hlast := hadmits
        unfold RateCall.admits at hlast
        simp only [Bool.and_eq_true, decide_eq_true_eq] at hlast
        obtain ⟨⟨hkey, hallowed⟩, htime⟩ := hlast
        have hk : r.key = c.key := hkey
        have ht : r.now ≤ c.result.resetAt := htime
        obtain ⟨e, hget, hreset, hcount⟩ := hkept newer c older hold hopened (by omega)
        rw [← hk] at hget
        have hlive : openWindow (cfg r.key) r.key r.now s.store = (s.store, e) :=
          openWindow_of_live (liveEntry_of_le hget (hreset ▸ ht))
        have hmax := count_of_allowed hallowed
        rw [hlive] at hmax
        have hle : (newer ++ [c]).countP c.admits ≤ (newer ++ [c]).countP (·.key = c.key) :=
          List.countP_mono_left fun d _ hd => by
            unfold RateCall.admits at hd
            simp only [Bool.and_eq_true] at hd
            exact hd.1.1
        rw [List.countP_cons_of_pos hadmits, ← hk]
        have : e.count + 1 ≤ (cfg r.key).max := hmax
        omega
      · rw [List.countP_cons_of_neg hadmits]
        exact hbefore
  refused newer c older hcalls hrefused := by
    rcases calls_answerCall_cases hcalls with ⟨rfl, rfl, rfl⟩ | ⟨newer, rfl, hold⟩
    · exact refused_answerCall hcounts (congrArg some hrefused)
    · exact h.refused newer c older hold hrefused
  size := by
    rw [store_answerCall, size_countOn]
    exact size_openWindow h.size

/-- In a run that drops only windows that have ended, the limiter keeps its promise. -/
theorem bounded_of_reach (h : (rateLimiter cfg).Reach DropsEnded s) : Bounded cfg s := by
  have hall : Bounded cfg s ∧ Counts s ∧ Kept s := by
    refine h.invariant (I := fun s => Bounded cfg s ∧ Counts s ∧ Kept s) ?_ ?_
    · rintro s ⟨hstore, hcalls⟩
      have hnone (newer older : List RateCall) (c : RateCall) : s.calls ≠ newer ++ c :: older := by
        intro heq
        rw [hcalls] at heq
        simp at heq
      refine ⟨⟨fun _ _ _ h => absurd h (hnone _ _ _), fun _ _ _ h => absurd h (hnone _ _ _), ?_⟩,
        fun k e he => ?_, fun _ _ _ h => absurd h (hnone _ _ _)⟩
      · rw [hstore]
        exact Nat.zero_le _
      · rw [hstore] at he
        cases he
    · rintro s r s' ⟨hbounded, hcounts, hkept⟩ hdrops hstep
      unfold rateLimiter at hstep
      simp only at hstep
      split at hstep
      · next hclock =>
        cases hstep
        exact ⟨bounded_answerCall hbounded hcounts hkept hclock, counts_answerCall hcounts,
          kept_answerCall hkept hbounded.size hdrops hclock⟩
      · cases hstep
  exact hall.1

end

/-! ## A window that was renewed -/

/-- One request in a second. -/
def oneASecond (_ : String) : RateLimitConfig := { window := 1, max := 1 }

/-- A request of the `n`-th of some addresses. -/
def addressRequest (n now : Nat) : RateRequest where
  ns := "rl0"
  ip := String.ofList (List.replicate n '1')
  userId := none
  now := now

/-- A store after its first request. -/
theorem bounded_first :
    Bounded oneASecond (answerCall oneASecond ⟨.empty, 0, []⟩ (addressRequest 1 0)) := by
  have hstart : (rateLimiter oneASecond).Reach DropsEnded ⟨.empty, 0, []⟩ := .init ⟨rfl, rfl⟩
  have hdrops : DropsEnded ⟨.empty, 0, []⟩ (addressRequest 1 0) :=
    fun _ hfull => absurd hfull (by decide)
  exact bounded_of_reach (hstart.step hdrops rfl)

/-- The first `n` addresses have each sent one request. -/
def filledState : Nat → RateState
  | 0 => ⟨.empty, 0, []⟩
  | n + 1 => answerCall oneASecond (filledState n) (addressRequest n 0)

theorem addressRequest_key_inj {m n now now' : Nat}
    (h : (addressRequest m now).key = (addressRequest n now').key) : m = n := by
  have hlength := congrArg String.length h
  unfold RateRequest.key rateKey addressRequest at hlength
  simp only [String.length_append, String.length_ofList, List.length_replicate] at hlength
  omega

theorem resetAt_oneASecond (key : String) (now : Nat) :
    (freshEntry (oneASecond key) now).resetAt = now + 1000 := by
  simp [freshEntry, oneASecond]

/-- The store while it fills up. -/
structure FilledStore (n : Nat) (s : RateState) : Prop where
  keys : s.store.keys = (List.range n).map fun i => (addressRequest i 0).key
  reset : ∀ k e, s.store.get? k = some e → e.resetAt = 1000
  length : s.calls.length = n
  calls : ∀ c ∈ s.calls, c.result.resetAt = 1000
  now : s.now = 0

/-- The entry of a call that opened a window. -/
theorem openWindow_filled {s : RateState} {r : RateRequest}
    (h : s.store.get? r.key = none) (hnow : r.now = 0) :
    (openWindow (oneASecond r.key) r.key r.now s.store).2.resetAt = 1000 := by
  have hlive : liveEntry s.store r.key r.now = none := by
    unfold liveEntry
    rw [h]
  rw [openWindow_of_none hlive, resetAt_oneASecond, hnow, Nat.zero_add]

theorem filledStore_filled {n : Nat} (h : n ≤ maxStoreSize) : FilledStore n (filledState n) := by
  induction n with
  | zero =>
    exact ⟨rfl, fun k e he => (by cases he), rfl, fun c hc => absurd hc List.not_mem_nil, rfl⟩
  | succ n ih =>
    have hn := ih (by omega)
    generalize hr : addressRequest n 0 = r
    have hnow : r.now = 0 := by rw [← hr]; rfl
    have hnone : (filledState n).store.get? r.key = none := by
      rw [JsMap.get?_eq_none, hn.keys, ← hr]
      intro hmem
      obtain ⟨i, hi, hkey⟩ := List.mem_map.1 hmem
      rw [addressRequest_key_inj hkey] at hi
      exact absurd (List.mem_range.1 hi) (Nat.lt_irrefl n)
    have hlive : liveEntry (filledState n).store r.key r.now = none := by
      unfold liveEntry
      rw [hnone]
    have hstate : filledState (n + 1) = answerCall oneASecond (filledState n) r := by rw [← hr]; rfl
    have hkeys (e : RateEntry) : ((filledState n).store.set r.key e).keys =
        (List.range (n + 1)).map fun i => (addressRequest i 0).key := by
      rw [JsMap.keys_set_of_none hnone, hn.keys, List.range_succ, List.map_append, ← hr]
      rfl
    have hevict (e : RateEntry) :
        evictOldest ((filledState n).store.set r.key e) = (filledState n).store.set r.key e := by
      unfold evictOldest
      rw [JsMap.size_eq, hkeys, List.length_map, List.length_range, if_pos h]
    rw [hstate]
    refine ⟨?_, fun k e he => ?_, congrArg (· + 1) hn.length, fun c hc => ?_, hnow⟩
    · rw [store_answerCall, keys_countOn, openWindow_of_none hlive, hevict, hkeys]
    · rcases get?_answerCall he with ⟨-, rfl⟩ | ⟨-, hold⟩
      · exact openWindow_filled hnone hnow
      · exact hn.reset k e hold
    · rw [calls_answerCall] at hc
      rcases List.mem_cons.1 hc with rfl | hc
      · exact openWindow_filled hnone hnow
      · exact hn.calls c hc

/-- All windows of a full store have ended. -/
theorem openKeys_filled {n : Nat} (h : n ≤ maxStoreSize) (now : Nat) (hnow : 1000 < now)
    (calls : List RateCall) :
    (openKeys (calls ++ (filledState n).calls) now).length ≤ calls.length := by
  have hended : (filledState n).calls.filter
      (fun c => c.opened && decide (now ≤ c.result.resetAt)) = [] := by
    refine List.filter_eq_nil_iff.2 fun c hc hopen => ?_
    rw [(filledStore_filled h).calls c hc] at hopen
    exact absurd (of_decide_eq_true (Bool.and_eq_true_iff.1 hopen).2) (Nat.not_le.2 hnow)
  unfold openKeys
  calc ((((calls ++ (filledState n).calls).filter _).map (·.key)).dedup).length
      ≤ (((calls ++ (filledState n).calls).filter _).map (·.key)).length :=
        (List.dedup_sublist _).length_le
    _ = ((calls.filter _) ++ (filledState n).calls.filter _).length := by
        rw [List.length_map, List.filter_append]
    _ ≤ calls.length := by
        rw [hended, List.append_nil]
        exact List.length_filter_le _ calls

theorem fewOpen_of_length {s : RateState} {r : RateRequest}
    (h : (openKeys s.calls r.now).length + 1 ≤ maxStoreSize) : FewOpen s r :=
  Nat.le_trans (List.dedup_sublist _).length_le (by rw [List.length_cons]; exact h)

/-- The store fills up with windows that are all open at once. -/
theorem reach_filled {n : Nat} (h : n ≤ maxStoreSize) :
    (rateLimiter oneASecond).Reach FewOpen (filledState n) := by
  induction n with
  | zero => exact .init ⟨rfl, rfl⟩
  | succ n ih =>
    have hn := filledStore_filled (n := n) (by omega)
    refine (ih (by omega)).step (a := addressRequest n 0) (fewOpen_of_length ?_) (step_of_le ?_)
    · have hle : (openKeys (filledState n).calls 0).length ≤ (filledState n).calls.length := by
        unfold openKeys
        exact Nat.le_trans (List.dedup_sublist _).length_le
          (by rw [List.length_map]; exact List.length_filter_le _ _)
      rw [hn.length] at hle
      exact Nat.le_trans (Nat.succ_le_succ hle) h
    · rw [hn.now]
      exact Nat.zero_le _

/-- A full store after the first address has come back. -/
def renewedState (n : Nat) : RateState :=
  answerCall oneASecond (filledState n) (addressRequest 0 1001)

/-- The store after a request of a new address. -/
def droppedState (n : Nat) : RateState :=
  answerCall oneASecond (renewedState n) (addressRequest n 1001)

/-- The store after the first address has come once more. -/
def readmittedState (n : Nat) : RateState :=
  answerCall oneASecond (droppedState n) (addressRequest 0 1001)

section
variable {n : Nat} (hn : n = maxStoreSize)
include hn

theorem liveEntry_filled {r : RateRequest} (hr : r.now = 1001) :
    liveEntry (filledState n).store r.key r.now = none := by
  unfold liveEntry
  cases hget : (filledState n).store.get? r.key with
  | none => rfl
  | some e =>
    have hreset := (filledStore_filled (Nat.le_of_eq hn)).reset r.key e hget
    exact if_pos (by omega)

/-- The window is renewed where it stands. -/
theorem keys_renewed : (renewedState n).store.keys =
    (List.range n).map fun i => (addressRequest i 0).key := by
  have hkeys := (filledStore_filled (Nat.le_of_eq hn)).keys
  have hlive := liveEntry_filled hn (r := addressRequest 0 1001) rfl
  have hmem : ((filledState n).store.get? (addressRequest 0 1001).key).isSome := by
    rw [Option.isSome_iff_ne_none, Ne, JsMap.get?_eq_none, not_not, hkeys]
    have hpos : 0 < n := by rw [hn]; exact Nat.succ_pos _
    exact List.mem_map.2 ⟨0, List.mem_range.2 hpos, rfl⟩
  unfold renewedState
  rw [store_answerCall, keys_countOn, openWindow_of_none hlive]
  show (evictOldest _).keys = _
  unfold evictOldest
  rw [JsMap.size_eq, JsMap.keys_set_of_isSome hmem, hkeys, List.length_map, List.length_range,
    if_pos (Nat.le_of_eq hn), JsMap.keys_set_of_isSome hmem, hkeys]

/-- A new address drops the first entry, which is the renewed window. -/
theorem get?_dropped : (droppedState n).store.get? (addressRequest 0 1001).key = none := by
  have hrenewed := keys_renewed hn
  have hnone : (renewedState n).store.get? (addressRequest n 1001).key = none := by
    rw [JsMap.get?_eq_none, hrenewed]
    intro hmem
    obtain ⟨i, hi, hkey⟩ := List.mem_map.1 hmem
    rw [addressRequest_key_inj hkey] at hi
    exact absurd (List.mem_range.1 hi) (Nat.lt_irrefl n)
  have hlive : liveEntry (renewedState n).store (addressRequest n 1001).key
      (addressRequest n 1001).now = none := by
    unfold liveEntry
    rw [hnone]
  have hkeys (e : RateEntry) : ((renewedState n).store.set (addressRequest n 1001).key e).keys =
      (List.range (n + 1)).map fun i => (addressRequest i 0).key := by
    rw [JsMap.keys_set_of_none hnone, hrenewed, List.range_succ, List.map_append]
    rfl
  have hsize (e : RateEntry) :
      ((renewedState n).store.set (addressRequest n 1001).key e).size = n + 1 := by
    rw [JsMap.size_eq, hkeys, List.length_map, List.length_range]
  have hone : n + 1 - maxStoreSize = 1 := by omega
  unfold droppedState
  rw [JsMap.get?_eq_none, store_answerCall, keys_countOn, openWindow_of_none hlive]
  show _ ∉ (evictOldest _).keys
  unfold evictOldest
  rw [hsize, if_neg (by omega), hone, JsMap.keys_foldl_delete_take, hkeys, List.range_succ_eq_map]
  intro hmem
  rw [List.map_cons, List.drop_one, List.tail_cons, List.map_map] at hmem
  obtain ⟨i, -, hkey⟩ := List.mem_map.1 hmem
  exact absurd (addressRequest_key_inj hkey) (Nat.succ_ne_zero i)

end

theorem allowed_of_opened {s : RateState} {r : RateRequest}
    (h : liveEntry s.store r.key r.now = none) :
    (lastCall oneASecond s r).opened = true ∧ (lastCall oneASecond s r).result.allowed = true ∧
      (lastCall oneASecond s r).result.resetAt = r.now + 1000 := by
  have hopen : openWindow (oneASecond r.key) r.key r.now s.store =
      (evictOldest (s.store.set r.key (freshEntry (oneASecond r.key) r.now)),
        freshEntry (oneASecond r.key) r.now) := openWindow_of_none h
  refine ⟨Option.isNone_iff_eq_none.2 h, ?_, ?_⟩
  · show decide ((openWindow _ r.key r.now s.store).2.count + 1 ≤ 1) = true
    rw [hopen]
    rfl
  · show (openWindow _ r.key r.now s.store).2.resetAt = _
    rw [hopen, resetAt_oneASecond]

/-- The window of an address that came back is forgotten while it is open, and the address is
admitted twice. -/
theorem not_bounded_renewed :
    ¬ ∀ cfg s, (rateLimiter cfg).Reach FewOpen s → Bounded cfg s := by
  intro hall
  obtain ⟨n, hn⟩ : ∃ n, n = maxStoreSize := ⟨_, rfl⟩
  have hmax : 3 ≤ maxStoreSize := by decide
  have hfilled := filledStore_filled (Nat.le_of_eq hn)
  have h1 := allowed_of_opened (liveEntry_filled hn (r := addressRequest 0 1001) rfl)
  have h3 := allowed_of_opened (s := droppedState n) (r := addressRequest 0 1001)
    (by unfold liveEntry; rw [get?_dropped hn])
  have hfew (calls : List RateCall) (hlength : calls.length + 1 ≤ 3) :
      (openKeys (calls ++ (filledState n).calls) 1001).length + 1 ≤ maxStoreSize :=
    Nat.le_trans (Nat.succ_le_succ
      (openKeys_filled (Nat.le_of_eq hn) 1001 (by decide) calls)) (Nat.le_trans hlength hmax)
  have hrenewed : (rateLimiter oneASecond).Reach FewOpen (renewedState n) :=
    (reach_filled (Nat.le_of_eq hn)).step (a := addressRequest 0 1001)
      (fewOpen_of_length (hfew [] (by decide)))
      (step_of_le (by rw [hfilled.now]; exact Nat.zero_le _))
  have hdropped : (rateLimiter oneASecond).Reach FewOpen (droppedState n) :=
    hrenewed.step (a := addressRequest n 1001)
      (fewOpen_of_length (hfew [lastCall oneASecond (filledState n) (addressRequest 0 1001)]
        (Nat.le_succ 2))) (step_of_le (Nat.le_refl _))
  have hreach : (rateLimiter oneASecond).Reach FewOpen (readmittedState n) :=
    hdropped.step (a := addressRequest 0 1001)
      (fewOpen_of_length (hfew [lastCall oneASecond (renewedState n) (addressRequest n 1001),
        lastCall oneASecond (filledState n) (addressRequest 0 1001)] (Nat.le_refl 3)))
      (step_of_le (Nat.le_refl _))
  have hwindow := (hall _ _ hreach).window
    [lastCall oneASecond (droppedState n) (addressRequest 0 1001),
      lastCall oneASecond (renewedState n) (addressRequest n 1001)]
    (lastCall oneASecond (filledState n) (addressRequest 0 1001)) _ rfl h1.1
  have hadmits (d : RateCall) (hkey : d.key = (addressRequest 0 1001).key)
      (hallowed : d.result.allowed = true) (htime : d.time = 1001) :
      (lastCall oneASecond (filledState n) (addressRequest 0 1001)).admits d = true := by
    unfold RateCall.admits
    rw [hallowed, htime, h1.2.2, Bool.and_true]
    exact Bool.and_eq_true_iff.2 ⟨decide_eq_true hkey, decide_eq_true (Nat.le_add_right 1001 1000)⟩
  have hself : [lastCall oneASecond (filledState n) (addressRequest 0 1001)].countP
      (lastCall oneASecond (filledState n) (addressRequest 0 1001)).admits = 1 := by
    rw [List.countP_singleton, if_pos (hadmits _ rfl h1.2.1 rfl)]
  rw [List.cons_append, List.countP_cons_of_pos (hadmits _ rfl h3.2.1 rfl), List.countP_append,
    hself] at hwindow
  have hone (key : String) : (oneASecond key).max = 1 := rfl
  rw [hone] at hwindow
  omega

end HeadlessErp
