import HeadlessErp.Events.Consumer

/-!
# Delivery at least once

A delivery that is recorded as done is not made again, in any run. A batch is acknowledged after
each of its events was delivered to each subscriber, in the runs in which no consumer meets the row
of a delivery that is still pending: such a row is taken for a delivery that was made, although it
may be all that a crashed consumer has left.
-/

namespace HeadlessErp

section
variable {ι N : Type} [DecidableEq ι] {s : EventState ι N}

/-! ## Claims -/

/-- The delivery that a consumer has claimed. -/
def ConsumerPhase.claim : ConsumerPhase N → Option DeliveryKey
  | .deliver event sub _ _ _ => some (event.id, sub.id)
  | .mark event sub _ _ => some (event.id, sub.id)
  | .free event sub => some (event.id, sub.id)
  | _ => none

/-- A claimed delivery has a pending row, and one consumer. -/
structure Claimed (s : EventState ι N) : Prop where
  pending : ∀ i key, (s.phase i).claim = some key → s.deliveries key = some .pending
  unique : ∀ i j key, (s.phase i).claim = some key → (s.phase j).claim = some key → i = j

/-- A consumer that claims nothing new. -/
theorem Claimed.goto (h : Claimed s) {i : ι} {phase : ConsumerPhase N}
    (hclaim : ∀ key, phase.claim = some key → (s.phase i).claim = some key) :
    Claimed (s.goto i phase) := by
  have hold : ∀ j key, ((s.goto i phase).phase j).claim = some key →
      (s.phase j).claim = some key := by
    intro j key hj
    unfold EventState.goto at hj
    by_cases heq : j = i
    · subst heq
      simp only [Function.update_self] at hj
      exact hclaim key hj
    · simpa only [Function.update_of_ne heq] using hj
  exact ⟨fun j key hj => h.pending j key (hold j key hj),
    fun j k key hj hk => h.unique j k key (hold j key hj) (hold k key hk)⟩

/-- A consumer that gives its claim up, with what it writes to the row. -/
theorem Claimed.release (h : Claimed s) {i : ι} {key : DeliveryKey} {row : Option DeliveryStatus}
    {phase : ConsumerPhase N} (hkey : (s.phase i).claim = some key) (hphase : phase.claim = none) :
    Claimed ((s.write key row).goto i phase) := by
  have hold : ∀ j key', (((s.write key row).goto i phase).phase j).claim = some key' →
      j ≠ i ∧ (s.phase j).claim = some key' := by
    intro j key' hj
    unfold EventState.goto at hj
    by_cases heq : j = i
    · subst heq
      simp only [Function.update_self] at hj
      rw [hphase] at hj
      cases hj
    · simp only [Function.update_of_ne heq] at hj
      exact ⟨heq, hj⟩
  refine ⟨fun j key' hj => ?_, fun j k key' hj hk => ?_⟩
  · obtain ⟨hne, hj'⟩ := hold j key' hj
    have hdiff : key' ≠ key := by
      intro heq
      rw [← heq] at hkey
      exact hne (h.unique j i key' hj' hkey)
    show Function.update s.deliveries key row key' = _
    rw [Function.update_of_ne hdiff]
    exact h.pending j key' hj'
  · exact h.unique j k key' (hold j key' hj).2 (hold k key' hk).2

/-- A consumer that claims a delivery without a row. -/
theorem Claimed.claim (h : Claimed s) {i : ι} {key : DeliveryKey} {phase : ConsumerPhase N}
    (hnone : s.deliveries key = none) (hphase : phase.claim = some key) :
    Claimed ((s.write key (some .pending)).goto i phase) := by
  have hnot : ∀ j, (s.phase j).claim ≠ some key := by
    intro j hj
    rw [h.pending j key hj] at hnone
    cases hnone
  have hold : ∀ j key', (((s.write key (some .pending)).goto i phase).phase j).claim = some key' →
      (j = i ∧ key' = key) ∨ (j ≠ i ∧ key' ≠ key ∧ (s.phase j).claim = some key') := by
    intro j key' hj
    unfold EventState.goto at hj
    by_cases heq : j = i
    · subst heq
      simp only [Function.update_self] at hj
      rw [hphase] at hj
      exact .inl ⟨rfl, (Option.some.inj hj).symm⟩
    · simp only [Function.update_of_ne heq] at hj
      refine .inr ⟨heq, ?_, hj⟩
      rintro rfl
      exact hnot j hj
  refine ⟨fun j key' hj => ?_, fun j k key' hj hk => ?_⟩
  · show Function.update s.deliveries key (some .pending) key' = _
    rcases hold j key' hj with ⟨-, rfl⟩ | ⟨-, hdiff, hj⟩
    · exact Function.update_self ..
    · rw [Function.update_of_ne hdiff]
      exact h.pending j key' hj
  · rcases hold j key' hj with ⟨rfl, rfl⟩ | ⟨-, hdiff, hj⟩
    · rcases hold k key' hk with ⟨rfl, -⟩ | ⟨-, hdiff, -⟩
      · rfl
      · exact absurd rfl hdiff
    · rcases hold k key' hk with ⟨-, rfl⟩ | ⟨-, -, hk⟩
      · exact absurd rfl hdiff
      · exact h.unique j k key' hj hk

end

section
variable {ι N : Type} [JsNumber N] [DecidableEq ι] {W : EventWorker ι N} {s s' : EventState ι N}
  {call : ι × Bool} {completed completed' : List DeliveryKey} {batch rest : List (JsVal N)}
  {event : EventEnvelope N} {sub : EventSubscriber} {subs : List EventSubscriber}

/-- Every call keeps the claims. -/
theorem Claimed.step (h : Claimed s) (hstep : (eventSystem W).step s call = some s') :
    Claimed s' := by
  have hcall : consumerCall W s call.1 call.2 = some s' := hstep
  unfold consumerCall at hcall
  split at hcall
  · cases hcall
    exact h.goto fun key hkey => by cases hkey
  · split at hcall
    · cases hcall
      exact h.goto fun key hkey => by cases hkey
    · cases hcall
      refine h.goto fun key hkey => ?_
      split at hkey
      · cases hkey
      · cases hkey
  · cases hcall
    exact h.goto fun key hkey => by cases hkey
  · split at hcall
    · cases hcall
      exact h.goto fun key hkey => by cases hkey
    · split at hcall
      · cases hcall
        exact h.goto fun key hkey => by cases hkey
      · split at hcall
        · cases hcall
          exact h.goto fun key hkey => by cases hkey
        · next hrow =>
          cases hcall
          exact h.claim (Option.not_isSome_iff_eq_none.1 hrow) rfl
  · next event sub action subs rest hphase =>
    split at hcall
    · cases hcall
      have hgoto : Claimed (s.goto call.1 (.mark event sub subs rest)) :=
        h.goto fun key hkey => by
          rw [hphase]
          exact hkey
      exact ⟨hgoto.pending, hgoto.unique⟩
    · cases hcall
      exact h.goto fun key hkey => by
        rw [hphase]
        exact hkey
  · next hphase =>
    split at hcall
    · cases hcall
      exact h.release (by rw [hphase]; rfl) rfl
    · cases hcall
      exact h.goto fun key hkey => by rw [hphase]; exact hkey
  · next hphase =>
    cases hcall
    split
    · exact h.release (by rw [hphase]; rfl) rfl
    · exact h.goto fun key hkey => by cases hkey
  · cases hcall
  · cases hcall

theorem claimed_of_reach {p : EventState ι N → ι × Bool → Prop} (h : (eventSystem W).Reach p s) :
    Claimed s := by
  refine h.invariant (I := Claimed) ?_ fun s call s' hs _ hstep => hs.step hstep
  rintro s ⟨-, -, hphase⟩
  refine ⟨fun i key hkey => ?_, fun i j key hkey => ?_⟩
  · rw [hphase i] at hkey
    cases hkey
  · rw [hphase i] at hkey
    cases hkey

/-! ## Progress -/

/-- The messages before the one at hand are delivered, and so is its event to the subscribers that
were served. -/
def Serving (W : EventWorker ι N) (completed : List DeliveryKey) (batch : List (JsVal N))
    (event : EventEnvelope N) (subs : List EventSubscriber) (rest : List (JsVal N)) : Prop :=
  ∃ before body, batch = before ++ body :: rest ∧ AllDelivered W completed before ∧
    readEnvelope body = some event ∧ ∃ served, subscribersOf W.subscribers event = served ++ subs ∧
      ∀ sub ∈ served, (event.id, sub.id) ∈ completed

/-- How much of its batch a consumer has delivered. -/
def Progress (W : EventWorker ι N) (completed : List DeliveryKey) (batch : List (JsVal N)) :
    ConsumerPhase N → Prop
  | .messages rest => ∃ before, batch = before ++ rest ∧ AllDelivered W completed before
  | .subscribers event subs rest => Serving W completed batch event subs rest
  | .deliver event sub _ subs rest => Serving W completed batch event (sub :: subs) rest
  | .mark event sub subs rest =>
    Serving W completed batch event (sub :: subs) rest ∧ (event.id, sub.id) ∈ completed
  | .free _ _ | .failed => True
  | .acknowledged => AllDelivered W completed batch

omit [DecidableEq ι] in
theorem AllDelivered.mono (h : AllDelivered W completed batch)
    (hmono : ∀ key ∈ completed, key ∈ completed') : AllDelivered W completed' batch :=
  fun body hbody event hevent sub hsub => hmono _ (h body hbody event hevent sub hsub)

omit [DecidableEq ι] in
theorem Serving.mono (h : Serving W completed batch event subs rest)
    (hmono : ∀ key ∈ completed, key ∈ completed') :
    Serving W completed' batch event subs rest := by
  obtain ⟨before, body, hbatch, hbefore, hbody, served, hsubs, hserved⟩ := h
  exact ⟨before, body, hbatch, hbefore.mono hmono, hbody, served, hsubs,
    fun sub hsub => hmono _ (hserved sub hsub)⟩

omit [DecidableEq ι] in
theorem Progress.mono {phase : ConsumerPhase N} (h : Progress W completed batch phase)
    (hmono : ∀ key ∈ completed, key ∈ completed') : Progress W completed' batch phase := by
  cases phase with
  | messages rest =>
    obtain ⟨before, hbatch, hbefore⟩ := h
    exact ⟨before, hbatch, hbefore.mono hmono⟩
  | subscribers | deliver => exact Serving.mono h hmono
  | mark => exact ⟨Serving.mono h.1 hmono, hmono _ h.2⟩
  | acknowledged => exact AllDelivered.mono h hmono
  | free | failed => trivial

omit [DecidableEq ι] in
/-- One more subscriber was served. -/
theorem Serving.next (h : Serving W completed batch event (sub :: subs) rest)
    (hsub : (event.id, sub.id) ∈ completed) : Serving W completed batch event subs rest := by
  obtain ⟨before, body, hbatch, hbefore, hbody, served, hsubs, hserved⟩ := h
  refine ⟨before, body, hbatch, hbefore, hbody, served ++ [sub], by simp [hsubs], ?_⟩
  intro sub' hmem
  rcases List.mem_append.1 hmem with hmem | hmem
  · exact hserved sub' hmem
  · rw [List.mem_singleton.1 hmem]
    exact hsub

omit [DecidableEq ι] in
/-- All subscribers of an event were served. -/
theorem Serving.finish (h : Serving W completed batch event [] rest) :
    Progress W completed batch (.messages rest) := by
  obtain ⟨before, body, hbatch, hbefore, hbody, served, hsubs, hserved⟩ := h
  refine ⟨before ++ [body], by simp [hbatch], fun body' hmem event' hevent' => ?_⟩
  rcases List.mem_append.1 hmem with hmem | hmem
  · exact hbefore body' hmem event' hevent'
  · rw [List.mem_singleton.1 hmem, hbody] at hevent'
    cases hevent'
    rw [hsubs, List.append_nil]
    exact hserved

/-- A row that is done belongs to a completed delivery, and each consumer has delivered what it has
left behind. -/
structure Delivered (W : EventWorker ι N) (s : EventState ι N) : Prop where
  recorded : ∀ key, s.deliveries key = some .done → key ∈ s.completed
  progress : ∀ i, Progress W s.completed (W.batch i) (s.phase i)

/-- A consumer goes on, with what it writes. -/
theorem Delivered.next (h : Delivered W s) {i : ι} {phase : ConsumerPhase N}
    (hphase : s'.phase = Function.update s.phase i phase)
    (hmono : ∀ key ∈ s.completed, key ∈ s'.completed)
    (hrecorded : ∀ key, s'.deliveries key = some .done → key ∈ s'.completed)
    (hprogress : Progress W s'.completed (W.batch i) phase) : Delivered W s' := by
  refine ⟨hrecorded, fun j => ?_⟩
  rw [hphase]
  by_cases heq : j = i
  · subst heq
    rw [Function.update_self]
    exact hprogress
  · rw [Function.update_of_ne heq]
    exact (h.progress j).mono hmono

/-- A consumer goes on without a write. -/
theorem Delivered.goto (h : Delivered W s) {i : ι} {phase : ConsumerPhase N}
    (hprogress : Progress W s.completed (W.batch i) phase) : Delivered W (s.goto i phase) :=
  h.next rfl (fun _ hkey => hkey) h.recorded hprogress

/-- A consumer goes on, and changes a row. -/
theorem Delivered.write (h : Delivered W s) {i : ι} {phase : ConsumerPhase N} {key : DeliveryKey}
    {row : Option DeliveryStatus} (hrow : row = some .done → key ∈ s.completed)
    (hprogress : Progress W s.completed (W.batch i) phase) :
    Delivered W ((s.write key row).goto i phase) := by
  refine h.next rfl (fun _ hkey => hkey) (fun key' hdone => ?_) hprogress
  have hdone' : Function.update s.deliveries key row key' = some .done := hdone
  by_cases heq : key' = key
  · subst heq
    rw [Function.update_self] at hdone'
    exact hrow hdone'
  · rw [Function.update_of_ne heq] at hdone'
    exact h.recorded key' hdone'

/-- Every call that makes a sound claim, or none, keeps the deliveries. -/
theorem Delivered.step (h : Delivered W s) (hsound : SoundClaim s call)
    (hstep : (eventSystem W).step s call = some s') : Delivered W s' := by
  have hcall : consumerCall W s call.1 call.2 = some s' := hstep
  have hprogress := h.progress call.1
  unfold consumerCall at hcall
  split at hcall
  · next hphase =>
    rw [hphase] at hprogress
    obtain ⟨before, hbatch, hbefore⟩ := hprogress
    cases hcall
    refine h.goto ?_
    rw [List.append_nil] at hbatch
    rw [hbatch]
    exact hbefore
  · next body rest hphase =>
    rw [hphase] at hprogress
    obtain ⟨before, hbatch, hbefore⟩ := hprogress
    split at hcall
    · next hbody =>
      cases hcall
      refine h.goto ⟨before ++ [body], by simp [hbatch], fun body' hmem event hevent => ?_⟩
      rcases List.mem_append.1 hmem with hmem | hmem
      · exact hbefore body' hmem event hevent
      · rw [List.mem_singleton.1 hmem, hbody] at hevent
        cases hevent
    · next event hbody =>
      cases hcall
      refine h.goto ?_
      split
      · exact ⟨before, body, hbatch, hbefore, hbody, [], rfl,
          fun sub hsub => absurd hsub List.not_mem_nil⟩
      · trivial
  · next event rest hphase =>
    rw [hphase] at hprogress
    cases hcall
    exact h.goto (Serving.finish hprogress)
  · next event sub subs rest hphase =>
    rw [hphase] at hprogress
    obtain ⟨haction, hpending⟩ := hsound event sub subs rest hphase
    split at hcall
    · next hnone => exact absurd hnone haction
    · split at hcall
      · cases hcall
        exact h.goto trivial
      · next hok =>
        split at hcall
        · next hrow =>
          -- The row is not pending, so it was written after the delivery.
          cases hcall
          refine h.goto (Serving.next hprogress (h.recorded _ ?_))
          obtain ⟨status, hstatus⟩ := Option.isSome_iff_exists.1 hrow
          cases status with
          | pending => exact absurd hstatus (hpending (by simpa using hok))
          | done => exact hstatus
        · cases hcall
          exact h.write (fun hdone => by cases hdone) hprogress
  · next event sub action subs rest hphase =>
    rw [hphase] at hprogress
    split at hcall
    · cases hcall
      have hmono : ∀ key ∈ s.completed, key ∈ (event.id, sub.id) :: s.completed :=
        fun key hkey => List.mem_cons_of_mem _ hkey
      exact h.next rfl hmono (fun key hdone => hmono key (h.recorded key hdone))
        ⟨Serving.mono hprogress hmono, List.mem_cons_self⟩
    · cases hcall
      exact h.goto trivial
  · next event sub subs rest hphase =>
    rw [hphase] at hprogress
    obtain ⟨hserving, hcompleted⟩ := hprogress
    split at hcall
    · cases hcall
      exact h.write (fun _ => hcompleted) (hserving.next hcompleted)
    · cases hcall
      exact h.goto trivial
  · cases hcall
    split
    · exact h.write (fun hdone => by cases hdone) trivial
    · exact h.goto trivial
  · cases hcall
  · cases hcall

/-- A row that is done stays so. -/
theorem done_of_step (h : Claimed s) {key : DeliveryKey} (hdone : s.deliveries key = some .done)
    (hstep : (eventSystem W).step s call = some s') : s'.deliveries key = some .done := by
  have hcall : consumerCall W s call.1 call.2 = some s' := hstep
  have hwrite : ∀ key' row, s.deliveries key' ≠ some .done →
      Function.update s.deliveries key' row key = some .done := by
    intro key' row hrow
    have hne : key ≠ key' := by
      rintro rfl
      exact hrow hdone
    rw [Function.update_of_ne hne]
    exact hdone
  have hclaimed : ∀ key', (s.phase call.1).claim = some key' →
      s.deliveries key' ≠ some .done := by
    intro key' hkey'
    rw [h.pending call.1 key' hkey']
    simp
  unfold consumerCall at hcall
  split at hcall
  · cases hcall
    exact hdone
  · split at hcall
    · cases hcall
      exact hdone
    · cases hcall
      exact hdone
  · cases hcall
    exact hdone
  · split at hcall
    · cases hcall
      exact hdone
    · split at hcall
      · cases hcall
        exact hdone
      · split at hcall
        · cases hcall
          exact hdone
        · next hrow =>
          cases hcall
          refine hwrite _ _ ?_
          rw [Option.not_isSome_iff_eq_none.1 hrow]
          simp
  · split at hcall
    · cases hcall
      exact hdone
    · cases hcall
      exact hdone
  · next hphase =>
    split at hcall
    · cases hcall
      exact hwrite _ _ (hclaimed _ (by rw [hphase]; rfl))
    · cases hcall
      exact hdone
  · next hphase =>
    cases hcall
    split
    · exact hwrite _ _ (hclaimed _ (by rw [hphase]; rfl))
    · exact hdone
  · cases hcall
  · cases hcall

/-- In a run with sound claims, a consumer has acknowledged its batch only after all deliveries of
the batch, no consumer delivers what is recorded as done, and the record stays. -/
theorem delivered_of_reach (h : (eventSystem W).Reach SoundClaim s) :
    (∀ i, s.phase i = .acknowledged → AllDelivered W s.completed (W.batch i)) ∧
    (∀ i event sub action subs rest, s.phase i = .deliver event sub action subs rest →
      s.deliveries (event.id, sub.id) ≠ some .done) ∧
    ∀ key call s', s.deliveries key = some .done → (eventSystem W).step s call = some s' →
      s'.deliveries key = some .done := by
  have hdelivered : Delivered W s := by
    refine h.invariant (I := Delivered W) ?_ fun s call s' hs hp hstep => hs.step hp hstep
    rintro s ⟨hnone, hcompleted, hphase⟩
    refine ⟨fun key hdone => ?_, fun i => ?_⟩
    · rw [hnone key] at hdone
      cases hdone
    · rw [hphase i]
      exact ⟨[], rfl, fun body hbody => absurd hbody List.not_mem_nil⟩
  have hclaimed : Claimed s := claimed_of_reach h
  refine ⟨fun i hphase => ?_, fun i event sub action subs rest hphase => ?_,
    fun key call s' hdone hstep => done_of_step hclaimed hdone hstep⟩
  · have hprogress := hdelivered.progress i
    rw [hphase] at hprogress
    exact hprogress
  · rw [hclaimed.pending i (event.id, sub.id) (by rw [hphase]; rfl)]
    simp

end

/-! ## A consumer that crashed -/

/-- A subscriber that logs the orders. -/
def logOrders : EventSubscriber where
  id := "log"
  topic := "orders"
  action := some .log
  enabled := true

/-- The message of an order, and two consumers that get it. -/
def orderWorker : EventWorker Bool (Option Int) where
  subscribers := [logOrders]
  dispatch := false
  batch _ := [.obj [("id", .str "e1"), ("topic", .str "orders")]]

def eventStart : EventState Bool (Option Int) where
  deliveries _ := none
  completed := []
  phase _ := .messages [.obj [("id", .str "e1"), ("topic", .str "orders")]]

/-- A run of one consumer, until it acknowledges the batch. -/
theorem delivered_log_orders : ∃ s : EventState Bool (Option Int),
    s.phase true = .acknowledged ∧
    ((∀ i, s.phase i = .acknowledged → AllDelivered orderWorker s.completed (orderWorker.batch i)) ∧
    (∀ i event sub action subs rest, s.phase i = .deliver event sub action subs rest →
      s.deliveries (event.id, sub.id) ≠ some .done) ∧
    ∀ key call s', s.deliveries key = some .done →
      (eventSystem orderWorker).step s call = some s' → s'.deliveries key = some .done) := by
  have h0 : (eventSystem orderWorker).Reach SoundClaim eventStart :=
    .init ⟨fun _ => rfl, rfl, fun _ => rfl⟩
  have h1 := h0.step (a := (true, true)) (fun _ _ _ _ hphase => by cases hphase) rfl
  have h2 := h1.step (a := (true, true)) (fun _ _ _ _ hphase => by
    cases hphase
    exact ⟨Option.some_ne_none _, fun _ hrow => by cases hrow⟩) rfl
  have h3 := h2.step (a := (true, true)) (fun _ _ _ _ hphase => by cases hphase) rfl
  have h4 := h3.step (a := (true, true)) (fun _ _ _ _ hphase => by cases hphase) rfl
  have h5 := h4.step (a := (true, true)) (fun _ _ _ _ hphase => by cases hphase) rfl
  have h6 := h5.step (a := (true, true)) (fun _ _ _ _ hphase => by cases hphase) rfl
  exact ⟨_, rfl, delivered_of_reach h6⟩

/-- A consumer claims the delivery and crashes. The next one takes the row for a delivery and
acknowledges the batch. -/
theorem not_delivered_crashed : ∃ s : EventState Bool (Option Int),
    (eventSystem orderWorker).Reachable s ∧ s.phase false = .acknowledged ∧
    ¬ AllDelivered orderWorker s.completed (orderWorker.batch false) := by
  have hrun : ∃ s : EventState Bool (Option Int), (eventSystem orderWorker).run eventStart
      [(true, true), (true, true), (false, true), (false, true), (false, true), (false, true)] =
        some s ∧ s.phase false = .acknowledged ∧ s.completed = [] := ⟨_, rfl, rfl, rfl⟩
  obtain ⟨s, hrun, hphase, hcompleted⟩ := hrun
  have hstart : (eventSystem orderWorker).Reachable eventStart :=
    .init ⟨fun _ => rfl, rfl, fun _ => rfl⟩
  refine ⟨s, hstart.run hrun, hphase, fun h => ?_⟩
  rw [hcompleted] at h
  have hmem := h _ (List.mem_singleton.2 rfl) ⟨"e1", "orders", .undefined⟩ rfl logOrders
    (by simp [subscribersOf, orderWorker, logOrders])
  exact absurd hmem List.not_mem_nil

end HeadlessErp
