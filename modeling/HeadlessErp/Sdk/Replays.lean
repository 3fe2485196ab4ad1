import HeadlessErp.Sdk.OfflineQueue

/-!
# Replays of the offline queue

In a run whose events are all sound, a mutation stays in the queue until one of its own replays has
a definitive answer, replays keep the order of the queue, none comes after such an answer, and each
is the request that had failed.
-/

namespace HeadlessErp

/-! ## Headers -/

section
variable {headers : Headers} {name name' value : String}

theorem headerValues_cons (header : String × String) (headers : Headers) (name : String) :
    headerValues (header :: headers) name =
      if SameName header.1 name then header.2 :: headerValues headers name
      else headerValues headers name := by
  unfold headerValues
  by_cases h : SameName header.1 name
  · simp [h]
  · simp [h]

/-- A header that was set leaves the others. -/
theorem headerValues_setHeader_of_ne (h : ¬ SameName name name') :
    headerValues (setHeader headers name value) name' = headerValues headers name' := by
  induction headers with
  | nil =>
    unfold setHeader
    rw [headerValues_cons, if_neg h]
  | cons header headers ih =>
    unfold setHeader
    by_cases heq : header.1 = name
    · rw [if_pos (by simpa using heq), headerValues_cons, headerValues_cons, if_neg h,
        if_neg (heq ▸ h)]
    · rw [if_neg (by simpa using heq), headerValues_cons, headerValues_cons, ih]

theorem headerValues_eq_nil (h : ∀ header ∈ headers, ¬ SameName header.1 name) :
    headerValues headers name = [] := by
  unfold headerValues
  rw [List.filter_eq_nil_iff.2 fun header hmem => by simpa using h header hmem, List.map_nil]

/-- The value of a header that was set, where no other name stands for it. -/
theorem headerValues_setHeader (hnodup : (headers.map (·.1)).Nodup)
    (h : ∀ header ∈ headers, SameName header.1 name → header.1 = name) :
    headerValues (setHeader headers name value) name = [value] := by
  induction headers with
  | nil =>
    unfold setHeader
    rw [headerValues_cons, if_pos (show SameName name name from rfl)]
    rfl
  | cons header headers ih =>
    obtain ⟨hnot, hnodup⟩ := List.nodup_cons.1 hnodup
    unfold setHeader
    by_cases heq : header.1 = name
    · rw [if_pos (by simpa using heq), headerValues_cons,
        if_pos (show SameName name name from rfl), headerValues_eq_nil]
      intro other hother hsame
      refine hnot (List.mem_map.2 ⟨other, hother, ?_⟩)
      exact (h other (List.mem_cons_of_mem _ hother) hsame).trans heq.symm
    · have hother : ¬ SameName header.1 name := fun hsame => heq (h header List.mem_cons_self hsame)
      rw [if_neg (by simpa using heq), headerValues_cons, if_neg hother]
      exact ih hnodup fun other hmem => h other (List.mem_cons_of_mem _ hmem)

theorem mem_setHeader {header : String × String} (h : header ∈ setHeader headers name value) :
    header = (name, value) ∨ header ∈ headers := by
  induction headers with
  | nil => exact .inl (List.mem_singleton.1 h)
  | cons first headers ih =>
    unfold setHeader at h
    by_cases heq : first.1 = name
    · rw [if_pos (by simpa using heq), List.mem_cons] at h
      exact h.imp_right (List.mem_cons_of_mem _)
    · rw [if_neg (by simpa using heq), List.mem_cons] at h
      rcases h with rfl | h
      · exact .inr List.mem_cons_self
      · exact (ih h).imp_right (List.mem_cons_of_mem _)

theorem nodup_setHeader (hnodup : (headers.map (·.1)).Nodup) :
    ((setHeader headers name value).map (·.1)).Nodup := by
  induction headers with
  | nil => exact List.nodup_singleton name
  | cons header headers ih =>
    obtain ⟨hnot, hnodup⟩ := List.nodup_cons.1 hnodup
    unfold setHeader
    by_cases heq : header.1 = name
    · rw [if_pos (by simpa using heq), List.map_cons, List.nodup_cons]
      exact ⟨heq ▸ hnot, hnodup⟩
    · rw [if_neg (by simpa using heq), List.map_cons, List.nodup_cons]
      refine ⟨fun hk => ?_, ih hnodup⟩
      obtain ⟨other, hother, hkey⟩ := List.mem_map.1 hk
      rcases mem_setHeader hother with rfl | hother
      · exact heq hkey.symm
      · exact hnot (List.mem_map.2 ⟨other, hother, hkey⟩)

/-- A header that is only set by an option has the value of the option. -/
theorem headerValue_setOptional {option : Option String} (hnodup : (headers.map (·.1)).Nodup)
    (h : Replaced headers name option) :
    headerValue (setOptional headers name option) name = option.filter (· ≠ "") := by
  have hnone : option = none ∨ option = some "" → headerValue headers name = none := by
    intro hoption
    unfold headerValue
    rw [headerValues_eq_nil, if_pos rfl]
    intro header hmem hsame
    obtain ⟨-, hne, hne'⟩ := h header hmem hsame
    rcases hoption with hoption | hoption
    · exact hne hoption
    · exact hne' hoption
  cases option with
  | none => exact hnone (.inl rfl)
  | some v =>
    by_cases hv : v = ""
    · subst hv
      exact hnone (.inr rfl)
    · have hvalues : headerValues (setHeader headers name v) name = [v] :=
        headerValues_setHeader hnodup fun header hmem hsame => (h header hmem hsame).1
      simp [setOptional, hv, headerValue, hvalues, Option.filter]

/-- A header that was set leaves the options of the others. -/
theorem replaced_setHeader {option : Option String} (h : Replaced headers name option)
    (hne : ¬ SameName name' name) : Replaced (setHeader headers name' value) name option := by
  intro header hheader hsame
  rcases mem_setHeader hheader with rfl | hheader
  · exact absurd hsame hne
  · exact h header hheader hsame

theorem headerValue_setHeader_of_ne (h : ¬ SameName name name') :
    headerValue (setHeader headers name value) name' = headerValue headers name' := by
  unfold headerValue
  rw [headerValues_setHeader_of_ne h]

theorem headerValue_setOptional_of_ne {option : Option String} (h : ¬ SameName name name') :
    headerValue (setOptional headers name option) name' = headerValue headers name' := by
  unfold setOptional
  split
  · rfl
  · split
    · exact headerValue_setHeader_of_ne h
    · rfl

theorem nodup_setOptional {option : Option String} (hnodup : (headers.map (·.1)).Nodup) :
    ((setOptional headers name option).map (·.1)).Nodup := by
  unfold setOptional
  split
  · exact hnodup
  · split
    · exact nodup_setHeader hnodup
    · exact hnodup

theorem replaced_setOptional {option option' : Option String}
    (h : Replaced headers name option) (hne : ¬ SameName name' name) :
    Replaced (setOptional headers name' option') name option := by
  unfold setOptional
  split
  · exact h
  · split
    · exact replaced_setHeader h hne
    · exact h

variable {N : Type} {option : Option String} {token : Option (SessionToken N)}

theorem headerValue_authorize (h : ¬ SameName "Authorization" name) :
    headerValue (authorize headers token) name = headerValue headers name := by
  unfold authorize
  split
  · exact headerValue_setHeader_of_ne h
  · rfl

theorem nodup_authorize (hnodup : (headers.map (·.1)).Nodup) :
    ((authorize headers token).map (·.1)).Nodup := by
  unfold authorize
  split
  · exact nodup_setHeader hnodup
  · exact hnodup

theorem replaced_authorize (h : Replaced headers name option)
    (hne : ¬ SameName "Authorization" name) : Replaced (authorize headers token) name option := by
  unfold authorize
  split
  · exact replaced_setHeader h hne
  · exact h

theorem nodup_setContentType (hnodup : (headers.map (·.1)).Nodup) (body : RequestBody N) :
    ((setContentType headers body).map (·.1)).Nodup := by
  unfold setContentType
  split
  · split
    · exact hnodup
    · exact nodup_setHeader hnodup
  · exact hnodup

theorem replaced_setContentType (h : Replaced headers name option)
    (hne : ¬ SameName "Content-Type" name) (body : RequestBody N) :
    Replaced (setContentType headers body) name option := by
  unfold setContentType
  split
  · split
    · exact h
    · exact replaced_setHeader h hne
  · exact h

end

/-! ## Requests -/

section
variable {N : Type} [JsNumber N]

/-- The headers of the replay that say something about the write. -/
theorem headerValue_replayRequest (baseUrl : String) (item : QueuedMutation N)
    (token : Option (SessionToken N)) :
    headerValue (replayRequest baseUrl item token).headers "If-Match" =
      item.ifMatch.filter (· ≠ "") ∧
    headerValue (replayRequest baseUrl item token).headers "Idempotency-Key" =
      item.idempotencyKey.filter (· ≠ "") := by
  have hstart : ∀ (name : String) (option : Option String), ¬ SameName "Content-Type" name →
      Replaced [("Content-Type", "application/json")] name option := by
    intro name option hne header hheader hsame
    rw [List.mem_singleton.1 hheader] at hsame
    exact absurd hsame hne
  have hnodup : ((authorize [("Content-Type", "application/json")] token).map (·.1)).Nodup :=
    nodup_authorize (List.nodup_singleton _)
  have hmatch : Replaced (authorize [("Content-Type", "application/json")] token) "If-Match"
    item.ifMatch := replaced_authorize (hstart _ _ (by decide)) (by decide)
  have hkey : Replaced (authorize [("Content-Type", "application/json")] token) "Idempotency-Key"
    item.idempotencyKey := replaced_authorize (hstart _ _ (by decide)) (by decide)
  refine ⟨?_, headerValue_setOptional (nodup_setOptional hnodup)
    (replaced_setOptional hkey (by decide))⟩
  exact (headerValue_setOptional_of_ne (by decide)).trans (headerValue_setOptional hnodup hmatch)

/-- The headers of a write that say something about it. -/
theorem headerValue_buildRequest {path uuid : String} {options : RequestOptions N}
    (baseUrl : String) (token : Option (SessionToken N))
    (hmatch : Replaced options.headers "If-Match" options.ifMatch)
    (hkey : Replaced options.headers "Idempotency-Key" (effectiveKey path options uuid)) :
    headerValue (buildRequest baseUrl path options uuid token).headers "If-Match" =
      options.ifMatch.filter (· ≠ "") ∧
    headerValue (buildRequest baseUrl path options uuid token).headers "Idempotency-Key" =
      (effectiveKey path options uuid).filter (· ≠ "") := by
  have hframe : ∀ name, ¬ SameName "Authorization" name →
      headerValue (buildRequest baseUrl path options uuid token).headers name =
        headerValue (setOptional (setOptional (setContentType options.headers options.body)
          "Idempotency-Key" (effectiveKey path options uuid)) "If-Match" options.ifMatch) name := by
    intro name hne
    unfold buildRequest
    show headerValue (if _ then _ else _) name = _
    split
    · rfl
    · exact headerValue_authorize hne
  have hnodup := nodup_setContentType options.headers_nodup options.body
  have hmatch' := replaced_setContentType hmatch (by decide) options.body
  have hkey' := replaced_setContentType hkey (by decide) options.body
  rw [hframe _ (by decide), hframe _ (by decide), headerValue_setOptional (nodup_setOptional hnodup)
    (replaced_setOptional hmatch' (by decide)), headerValue_setOptional_of_ne (by decide),
    headerValue_setOptional hnodup hkey']
  exact ⟨rfl, rfl⟩

/-- The replay of a write without a query is the request that failed. -/
theorem sameRequest_of_write {E : QueueEnv} {path uuid id : String} {options : RequestOptions N}
    {body : Option (JsVal N)} {createdAt : Nat} {token : Option (SessionToken N)}
    (hurl : E.clientUrl = E.queueUrl) (hquery : options.query = [])
    (hmatch : Replaced options.headers "If-Match" options.ifMatch)
    (hkey : Replaced options.headers "Idempotency-Key" (effectiveKey path options uuid))
    (hbody : bodyText options.body = body.bind JsVal.toJson) (token' : Option (SessionToken N)) :
    SameRequest (replayRequest E.queueUrl
      { id, method := upperCase options.method, path, body, ifMatch := options.ifMatch
        idempotencyKey := effectiveKey path options uuid, createdAt } token')
      (buildRequest E.clientUrl path options uuid token) := by
  obtain ⟨hmatch1, hkey1⟩ := headerValue_replayRequest E.queueUrl
    { id, method := upperCase options.method, path, body, ifMatch := options.ifMatch
      idempotencyKey := effectiveKey path options uuid, createdAt } token'
  obtain ⟨hmatch2, hkey2⟩ := headerValue_buildRequest E.clientUrl token hmatch hkey
  refine ⟨rfl, ?_, hbody.symm, hmatch1.trans hmatch2.symm, hkey1.trans hkey2.symm⟩
  show E.queueUrl ++ path = requestTarget E.clientUrl path options.query
  rw [hquery, hurl]
  simp [requestTarget, queryString]

end

/-! ## The queue -/

section
variable {ι N : Type} [JsNumber N] [DecidableEq ι] {E : QueueEnv} {s s' : QueueState ι N}

/-- What the flush that runs has done: the mutations before the one at hand are answered, the others
are not, and what is stored besides came later. -/
structure Sending (s : QueueState ι N) (items : List (Queued N)) (item : Queued N)
    (rest : List (Queued N)) : Prop where
  split : ∃ done, items = done ++ item :: rest ∧ ∀ x ∈ done, x.seq ∈ s.answered
  unanswered : ∀ x ∈ item :: rest, x.seq ∉ s.answered
  sorted : items.Pairwise (·.seq < ·.seq)
  enqueued : ∀ x ∈ items, x ∈ s.enqueued
  stored : ∀ x ∈ s.items, x ∈ items ∨ ((∀ y ∈ items, y.seq < x.seq) ∧ x.seq ∉ s.answered)

/-- The invariant of a run of sound events. -/
structure QueueSound (E : QueueEnv) (s : QueueState ι N) : Prop where
  seq_lt : ∀ x ∈ s.enqueued, x.seq < s.enqueued.length
  answered_lt : ∀ n ∈ s.answered, n < s.enqueued.length
  enqueued : ∀ x ∈ s.items, x ∈ s.enqueued
  sorted : s.items.Pairwise (·.seq < ·.seq)
  same : ∀ x ∈ s.enqueued, ∀ request, x.origin = some request →
    ∀ token, SameRequest (replayRequest E.queueUrl x.mutation token) request
  owner : ∀ x ∈ s.items, x.owner = none ∨ x.owner = s.fingerprint
  idle : (∀ j, s.phase j = .idle) → ∀ x ∈ s.items, x.seq ∉ s.answered
  sending : ∀ i items item rest remaining, s.phase i = .sending items item rest remaining →
    remaining = [] ∧ (∀ j, j ≠ i → s.phase j = .idle) ∧ Sending s items item rest

omit [JsNumber N] [DecidableEq ι] in
/-- What `enqueue` does: the mutation comes last, and the others are kept, unless they are those of
another account. -/
theorem enqueue_cases (s : QueueState ι N) (mutation : QueuedMutation N)
    (origin : Option HttpRequest) : ∃ kept fp,
    s.enqueue mutation origin = { s with
      items := kept ++ [⟨mutation, s.enqueued.length, accountFingerprint s.token, origin⟩]
      fingerprint := fp
      enqueued := ⟨mutation, s.enqueued.length, accountFingerprint s.token, origin⟩ ::
        s.enqueued } ∧
    (accountFingerprint s.token = none ∨ accountFingerprint s.token = fp) ∧
    (kept = [] ∧ s.fingerprint ≠ none ∧ accountFingerprint s.token ≠ none ∧
        s.fingerprint ≠ accountFingerprint s.token ∨
      kept = s.items ∧ (s.fingerprint = none ∨ s.fingerprint = fp)) := by
  unfold QueueState.enqueue
  dsimp only
  split
  · next hother => exact ⟨[], _, rfl, .inr rfl, .inl ⟨rfl, hother⟩⟩
  · next hsame =>
    split
    · next hnone => exact ⟨s.items, _, rfl, .inr rfl, .inr ⟨rfl, .inl hnone.1⟩⟩
    · next hsome =>
      refine ⟨s.items, s.fingerprint, rfl, ?_, .inr ⟨rfl, .inr rfl⟩⟩
      by_cases hfp : accountFingerprint s.token = none
      · exact .inl hfp
      · refine .inr ?_
        by_contra hne
        exact hsame ⟨fun hnone => hsome ⟨hnone, hfp⟩, hfp, fun heq => hne heq.symm⟩

omit [DecidableEq ι] in
/-- A new mutation comes after all others. -/
theorem QueueSound.enqueue (h : QueueSound E s) {mutation : QueuedMutation N}
    {origin : Option HttpRequest}
    (hsame : ∀ request, origin = some request →
      ∀ token, SameRequest (replayRequest E.queueUrl mutation token) request) :
    QueueSound E (s.enqueue mutation origin) := by
  obtain ⟨kept, fp, heq, hnewOwner, hkept⟩ := enqueue_cases s mutation origin
  have hold : ∀ x ∈ kept, x ∈ s.items := by
    rcases hkept with ⟨rfl, -⟩ | ⟨rfl, -⟩
    · exact fun x hx => absurd hx List.not_mem_nil
    · exact fun x hx => hx
  have hsorted : kept.Pairwise (·.seq < ·.seq) := by
    rcases hkept with ⟨rfl, -⟩ | ⟨rfl, -⟩
    · exact List.Pairwise.nil
    · exact h.sorted
  have howner : ∀ x ∈ kept, x.owner = none ∨ x.owner = fp := by
    rcases hkept with ⟨rfl, -⟩ | ⟨rfl, hfp⟩
    · exact fun x hx => absurd hx List.not_mem_nil
    · intro x hx
      rcases h.owner x hx with howner | howner
      · exact .inl howner
      · exact hfp.imp howner.trans howner.trans
  have hnew : s.enqueued.length ∉ s.answered :=
    fun hmem => absurd (h.answered_lt _ hmem) (Nat.lt_irrefl _)
  rw [heq]
  refine ⟨fun x hx => ?_, fun n hn => Nat.lt_succ_of_lt (h.answered_lt n hn), fun x hx => ?_, ?_,
    fun x hx => ?_, fun x hx => ?_, fun hidle x hx => ?_,
    fun i items item rest remaining hsend => ?_⟩
  · rw [List.length_cons]
    rcases List.mem_cons.1 hx with rfl | hx
    · exact Nat.lt_succ_self _
    · exact Nat.lt_succ_of_lt (h.seq_lt x hx)
  · rcases List.mem_append.1 hx with hx | hx
    · exact List.mem_cons_of_mem _ (h.enqueued x (hold x hx))
    · rw [List.mem_singleton.1 hx]
      exact List.mem_cons_self
  · refine List.pairwise_append.2 ⟨hsorted, List.pairwise_singleton _ _, fun x hx y hy => ?_⟩
    rw [List.mem_singleton.1 hy]
    exact h.seq_lt x (h.enqueued x (hold x hx))
  · rcases List.mem_cons.1 hx with rfl | hx
    · exact hsame
    · exact h.same x hx
  · rcases List.mem_append.1 hx with hx | hx
    · exact howner x hx
    · rw [List.mem_singleton.1 hx]
      exact hnewOwner
  · rcases List.mem_append.1 hx with hx | hx
    · exact h.idle hidle x (hold x hx)
    · rw [List.mem_singleton.1 hx]
      exact hnew
  · obtain ⟨hremaining, hothers, hsending⟩ := h.sending i items item rest remaining hsend
    refine ⟨hremaining, hothers, hsending.split, hsending.unanswered, hsending.sorted,
      fun x hx => List.mem_cons_of_mem _ (hsending.enqueued x hx), fun x hx => ?_⟩
    rcases List.mem_append.1 hx with hx | hx
    · exact hsending.stored x (hold x hx)
    · rw [List.mem_singleton.1 hx]
      exact .inr ⟨fun y hy => h.seq_lt y (hsending.enqueued y hy), hnew⟩

omit [JsNumber N] in
/-- What `flush` does: it may adopt the account, and it sends the first mutation or none. -/
theorem flush_cases (s : QueueState ι N) (i : ι) : ∃ fp,
    (fp = s.fingerprint ∨ s.fingerprint = none ∨ s.items = []) ∧
    (s.flush i = { s with fingerprint := fp } ∨ ∃ item rest, s.items = item :: rest ∧
      s.flush i = QueueState.send { s with fingerprint := fp } i s.items item rest []) := by
  have hloop : ∀ s : QueueState ι N, s.replay i = s ∨ ∃ item rest, s.items = item :: rest ∧
      s.replay i = s.send i s.items item rest [] := by
    intro s
    unfold QueueState.replay
    split
    · exact .inl rfl
    · next item rest hitems => exact .inr ⟨item, rest, hitems, rfl⟩
  unfold QueueState.flush
  dsimp only
  split
  · split
    · next hnil => exact ⟨_, .inr (.inr hnil), .inl rfl⟩
    · exact ⟨s.fingerprint, .inl rfl, .inl rfl⟩
  · by_cases hnone : s.fingerprint = none ∧ accountFingerprint s.token ≠ none
    · rw [if_pos hnone]
      exact ⟨accountFingerprint s.token, .inr (.inl hnone.1), hloop _⟩
    · rw [if_neg hnone]
      exact ⟨s.fingerprint, .inl rfl, hloop _⟩

omit [DecidableEq ι] in
/-- The account of the storage may change where no mutation belongs to another one. -/
theorem QueueSound.adopt (h : QueueSound E s) {fp : Option String}
    (hfp : fp = s.fingerprint ∨ s.fingerprint = none ∨ s.items = []) :
    QueueSound E { s with fingerprint := fp } := by
  refine { h with owner := fun x hx => ?_, sending := fun i items item rest remaining hsend => ?_ }
  · rcases hfp with rfl | hnone | hnil
    · exact h.owner x hx
    · rcases h.owner x hx with howner | howner
      · exact .inl howner
      · exact .inl (howner.trans hnone)
    · have hmem : x ∈ s.items := hx
      rw [hnil] at hmem
      exact absurd hmem List.not_mem_nil
  · obtain ⟨hremaining, hothers, hsending⟩ := h.sending i items item rest remaining hsend
    exact ⟨hremaining, hothers, { hsending with }⟩

omit [DecidableEq ι] in
theorem QueueSound.session (h : QueueSound E s) (token : Option (SessionToken N)) :
    QueueSound E { s with token := token } := by
  refine { h with sending := fun i items item rest remaining hsend => ?_ }
  obtain ⟨hremaining, hothers, hsending⟩ := h.sending i items item rest remaining hsend
  exact ⟨hremaining, hothers, { hsending with }⟩

/-- The first replay of the only flush. -/
theorem QueueSound.send (h : QueueSound E s) (hidle : ∀ j, s.phase j = .idle) {i : ι}
    {item : Queued N} {rest : List (Queued N)} (hitems : s.items = item :: rest) :
    QueueSound E (s.send i s.items item rest []) := by
  have hphase : ∀ j, (s.send i s.items item rest []).phase j =
      if j = i then .sending s.items item rest [] else .idle := by
    intro j
    show Function.update s.phase i _ j = _
    by_cases heq : j = i
    · subst heq
      rw [Function.update_self, if_pos rfl]
    · rw [Function.update_of_ne heq, if_neg heq, hidle j]
  refine { h with idle := fun hall => ?_, sending := fun j items item' rest' remaining hsend => ?_ }
  · have hi := hall i
    rw [hphase, if_pos rfl] at hi
    cases hi
  · rw [hphase] at hsend
    split at hsend
    · next heq =>
      cases hsend
      refine ⟨rfl, fun k hk => ?_, ⟨[], hitems, fun x hx => absurd hx List.not_mem_nil⟩, ?_,
        h.sorted, h.enqueued, fun x hx => .inl hx⟩
      · rw [hphase, if_neg (heq ▸ hk)]
      · rw [← hitems]
        exact h.idle hidle
    · cases hsend

omit [JsNumber N] in
theorem pairwise_middle {done rest : List (Queued N)} {item : Queued N}
    (h : (done ++ item :: rest).Pairwise (·.seq < ·.seq)) :
    (∀ x ∈ done, ∀ y ∈ item :: rest, x.seq < y.seq) ∧ ∀ y ∈ rest, item.seq < y.seq :=
  have h' := List.pairwise_append.1 h
  ⟨h'.2.2, (List.pairwise_cons.1 h'.2.1).1⟩

/-- A definitive answer before the last mutation, and the next replay. -/
theorem QueueSound.next (h : QueueSound E s) {i : ι} {items rest : List (Queued N)}
    {item next : Queued N} (hphase : s.phase i = .sending items item (next :: rest) []) :
    QueueSound E
      (QueueState.send { s with answered := item.seq :: s.answered } i items next rest []) := by
  obtain ⟨-, hothers, hsending⟩ := h.sending i items item (next :: rest) [] hphase
  obtain ⟨done, hitems, hdone⟩ := hsending.split
  have hsorted := hsending.sorted
  rw [hitems] at hsorted
  obtain ⟨-, hlater⟩ := pairwise_middle hsorted
  have hitem : item ∈ items := by rw [hitems]; exact List.mem_append_right _ List.mem_cons_self
  refine { h with answered_lt := fun n hn => ?_, idle := fun hall => ?_,
                  sending := fun j items' item' rest' remaining hsend => ?_ }
  · rcases List.mem_cons.1 hn with rfl | hn
    · exact h.seq_lt item (hsending.enqueued item hitem)
    · exact h.answered_lt n hn
  · have hi := hall i
    unfold QueueState.send at hi
    dsimp only at hi
    rw [Function.update_self] at hi
    cases hi
  · unfold QueueState.send at hsend ⊢
    dsimp only at hsend ⊢
    by_cases heq : j = i
    · subst heq
      rw [Function.update_self] at hsend
      cases hsend
      refine ⟨rfl, fun k hk => ?_, ⟨done ++ [item], by simp [hitems], fun x hx => ?_⟩,
        fun x hx hmem => ?_, hsending.sorted, hsending.enqueued, fun x hx => ?_⟩
      · rw [Function.update_of_ne hk]
        exact hothers k hk
      · rcases List.mem_append.1 hx with hx | hx
        · exact List.mem_cons_of_mem _ (hdone x hx)
        · rw [List.mem_singleton.1 hx]
          exact List.mem_cons_self
      · rcases List.mem_cons.1 hmem with hseq | hmem
        · exact absurd (hlater x hx) (by omega)
        · exact hsending.unanswered x (List.mem_cons_of_mem _ hx) hmem
      · refine (hsending.stored x hx).imp_right fun ⟨hlt, hnot⟩ => ⟨hlt, fun hmem => ?_⟩
        rcases List.mem_cons.1 hmem with hseq | hmem
        · exact absurd (hlt item hitem) (by omega)
        · exact hnot hmem
    · rw [Function.update_of_ne heq, hothers j heq] at hsend
      cases hsend

/-- The end of a flush, with the items that it leaves. -/
theorem QueueSound.finish (h : QueueSound E s) {i : ι} {items left : List (Queued N)}
    {item : Queued N} {answered : List Nat} (hphase : s.phase i = .sending items item [] [])
    (hlt : ∀ n ∈ answered, n < s.enqueued.length) (hsorted : left.Pairwise (·.seq < ·.seq))
    (hleft : ∀ x ∈ left, x ∈ s.items ∧ x.seq ∉ answered) :
    QueueSound E { s with
      items := left
      answered := answered
      phase := Function.update s.phase i .idle } := by
  obtain ⟨-, hothers, -⟩ := h.sending i items item [] [] hphase
  refine { h with answered_lt := hlt, sorted := hsorted,
                  enqueued := fun x hx => h.enqueued x (hleft x hx).1,
                  owner := fun x hx => h.owner x (hleft x hx).1,
                  idle := fun _ x hx => (hleft x hx).2,
                  sending := fun j items' item' rest' remaining hsend => ?_ }
  dsimp only at hsend
  by_cases heq : j = i
  · subst heq
    rw [Function.update_self] at hsend
    cases hsend
  · rw [Function.update_of_ne heq, hothers j heq] at hsend
    cases hsend

/-! ## Steps -/

/-- What the queue promises of a step: a mutation of the account that is signed in stays until it
has a definitive answer, a new one is stored, and a replay is the request that failed, with a
definitive answer for all mutations before it and none for itself. -/
structure LosesNothing (E : QueueEnv) (s s' : QueueState ι N) : Prop where
  kept : ∀ x ∈ s.items, x.owner = accountFingerprint s.token →
    x ∈ s'.items ∨ x.seq ∈ s'.answered
  stored : ∀ x ∈ s'.enqueued, x ∉ s.enqueued → x ∈ s'.items
  inOrder : ∀ y, s'.sent = y :: s.sent → ∀ x ∈ s'.items, x.seq < y.seq → x.seq ∈ s'.answered
  once : ∀ y, s'.sent = y :: s.sent → y.seq ∉ s'.answered
  same : ∀ y, s'.sent = y :: s.sent → ∀ request, y.origin = some request →
    ∀ token, SameRequest (replayRequest E.queueUrl y.mutation token) request

omit [DecidableEq ι] in
/-- A step that sends nothing. -/
theorem LosesNothing.of_quiet
    (hkept : ∀ x ∈ s.items, x.owner = accountFingerprint s.token →
      x ∈ s'.items ∨ x.seq ∈ s'.answered)
    (hstored : ∀ x ∈ s'.enqueued, x ∉ s.enqueued → x ∈ s'.items) (hsent : s'.sent = s.sent) :
    LosesNothing E s s' := by
  have hnot : ∀ y, s'.sent ≠ y :: s.sent := by
    intro y heq
    have hlength := congrArg List.length (hsent.symm.trans heq)
    simp at hlength
  exact ⟨hkept, hstored, fun y hy => absurd hy (hnot y), fun y hy => absurd hy (hnot y),
    fun y hy => absurd hy (hnot y)⟩

omit [DecidableEq ι] in
/-- A step that sends a mutation. -/
theorem LosesNothing.of_sent {y : Queued N} (h : QueueSound E s) (hitems : s'.items = s.items)
    (henqueued : s'.enqueued = s.enqueued) (hsent : s'.sent = y :: s.sent) (hy : y ∈ s.enqueued)
    (hbefore : ∀ x ∈ s.items, x.seq < y.seq → x.seq ∈ s'.answered) (honce : y.seq ∉ s'.answered) :
    LosesNothing E s s' := by
  have hself : ∀ y', s'.sent = y' :: s.sent → y' = y := by
    intro y' hy'
    rw [hsent] at hy'
    exact (List.cons.inj hy').1.symm
  refine ⟨fun x hx _ => .inl (hitems ▸ hx), fun x hx hnew => absurd (henqueued ▸ hx) hnew,
    fun y' hy' => ?_, fun y' hy' => ?_, fun y' hy' => ?_⟩
  · rw [hself y' hy', hitems]
    exact hbefore
  · rw [hself y' hy']
    exact honce
  · rw [hself y' hy']
    exact h.same y hy

omit [DecidableEq ι] in
theorem losesNothing_enqueue (h : QueueSound E s) (mutation : QueuedMutation N)
    (origin : Option HttpRequest) : LosesNothing E s (s.enqueue mutation origin) := by
  obtain ⟨kept, fp, heq, -, hkept⟩ := enqueue_cases s mutation origin
  rw [heq]
  refine .of_quiet (fun x hx howner => ?_) (fun x hx hnew => ?_) rfl
  · rcases hkept with ⟨-, hfp, hsome, hne⟩ | ⟨rfl, -⟩
    · rcases h.owner x hx with hx' | hx'
      · exact absurd (howner.symm.trans hx') hsome
      · exact absurd (hx'.symm.trans howner) hne
    · exact .inl (List.mem_append_left _ hx)
  · rcases List.mem_cons.1 hx with rfl | hx
    · exact List.mem_append_right _ List.mem_cons_self
    · exact absurd hx hnew

/-- A flush that starts when no other one runs. -/
theorem QueueSound.flush (h : QueueSound E s) (hidle : ∀ j, s.phase j = .idle) (i : ι) :
    QueueSound E (s.flush i) ∧ LosesNothing E s (s.flush i) := by
  obtain ⟨fp, hfp, heq | ⟨item, rest, hitems, heq⟩⟩ := flush_cases s i
  · rw [heq]
    exact ⟨h.adopt hfp, .of_quiet (fun x hx _ => .inl hx) (fun x hx hnew => absurd hx hnew) rfl⟩
  · rw [heq]
    have hmem : item ∈ s.items := by
      rw [hitems]
      exact List.mem_cons_self
    refine ⟨(h.adopt hfp).send hidle hitems,
      .of_sent h rfl rfl rfl (h.enqueued item hmem) (fun x hx hlt => ?_) (h.idle hidle item hmem)⟩
    have hsorted := h.sorted
    rw [hitems] at hx hsorted
    rcases List.mem_cons.1 hx with rfl | hx
    · exact absurd hlt (Nat.lt_irrefl _)
    · exact absurd ((List.pairwise_cons.1 hsorted).1 x hx) (Nat.lt_asymm hlt)

/-- An answer that is not the last one. -/
theorem QueueSound.answer_next (h : QueueSound E s) {i : ι} {items rest : List (Queued N)}
    {item next : Queued N} (hphase : s.phase i = .sending items item (next :: rest) []) :
    LosesNothing E s
      (QueueState.send { s with answered := item.seq :: s.answered } i items next rest []) := by
  obtain ⟨-, -, hsending⟩ := h.sending i items item (next :: rest) [] hphase
  obtain ⟨done, hitems, hdone⟩ := hsending.split
  have hsorted := hsending.sorted
  rw [hitems] at hsorted
  obtain ⟨-, hlater⟩ := pairwise_middle hsorted
  have hnext : next ∈ items := by
    rw [hitems]
    exact List.mem_append_right _ (List.mem_cons_of_mem _ List.mem_cons_self)
  refine .of_sent h rfl rfl rfl (hsending.enqueued next hnext) (fun x hx hlt => ?_) fun hmem => ?_
  · -- What is stored before the next mutation was in the snapshot, and comes no later than `item`.
    rcases hsending.stored x hx with hx | ⟨hx, -⟩
    · rw [hitems] at hx
      rcases List.mem_append.1 hx with hx | hx
      · exact List.mem_cons_of_mem _ (hdone x hx)
      · rcases List.mem_cons.1 hx with rfl | hx
        · exact List.mem_cons_self
        · have hrest := (List.pairwise_cons.1 (List.pairwise_append.1 hsorted).2.1).2
          rcases List.mem_cons.1 hx with rfl | hx
          · exact absurd hlt (Nat.lt_irrefl _)
          · exact absurd ((List.pairwise_cons.1 hrest).1 x hx) (Nat.lt_asymm hlt)
    · exact absurd (hx next hnext) (Nat.lt_asymm hlt)
  · rcases List.mem_cons.1 hmem with hseq | hmem
    · exact absurd (hlater next List.mem_cons_self) (by omega)
    · exact hsending.unanswered next (List.mem_cons_of_mem _ List.mem_cons_self) hmem

/-- A sound answer. -/
theorem QueueSound.answer (h : QueueSound E s) {i : ι} {outcome : ReplayOutcome}
    (hsound : SoundQueueEvent E s (.answer i outcome)) (hstep : s.answer i outcome = some s') :
    QueueSound E s' ∧ LosesNothing E s s' := by
  unfold QueueState.answer at hstep
  cases hphase : s.phase i with
  | idle =>
    rw [hphase] at hstep
    cases hstep
  | sending items item rest remaining =>
    rw [hphase] at hstep
    obtain ⟨rfl, -, hsending⟩ := h.sending i items item rest remaining hphase
    obtain ⟨hnext, hlast⟩ := hsound items item rest [] hphase
    obtain ⟨done, hitems, hdone⟩ := hsending.split
    cases rest with
    | cons next rest =>
      have hdef : outcome.isDefinitive = true := hnext (List.cons_ne_nil _ _)
      simp only [hdef, if_true, Option.some.injEq] at hstep
      subst hstep
      exact ⟨h.next hphase, h.answer_next hphase⟩
    | nil =>
      have hitem : item.seq ∉ s.answered := hsending.unanswered item List.mem_cons_self
      cases hdef : outcome.isDefinitive with
      | true =>
        -- All of the snapshot is answered, and nothing else is stored.
        have hstored : s.items = items := by
          rcases hlast rfl with hstored | ⟨-, hnot⟩
          · exact hstored
          · rw [hdef] at hnot
            cases hnot
        have hlength : ([] : List (Queued N)).length ≠ items.length := by
          rw [hitems]
          simp
        simp only [hdef, if_true, hlength, ne_eq, not_false_eq_true, Option.some.injEq] at hstep
        subst hstep
        refine ⟨h.finish hphase (fun n hn => ?_) .nil fun x hx => absurd hx List.not_mem_nil,
          .of_quiet (fun x hx _ => .inr ?_) (fun x hx hnew => absurd hx hnew) rfl⟩
        · rcases List.mem_cons.1 hn with rfl | hn
          · exact h.seq_lt item (hsending.enqueued item (by simp [hitems]))
          · exact h.answered_lt n hn
        · rw [hstored, hitems] at hx
          rcases List.mem_append.1 hx with hx | hx
          · exact List.mem_cons_of_mem _ (hdone x hx)
          · rw [List.mem_singleton.1 hx]
            exact List.mem_cons_self
      | false =>
        simp only [hdef, Bool.false_eq_true, if_false, List.nil_append, Option.some.injEq] at hstep
        split at hstep
        · next hlength =>
          -- The mutation at hand is the only one that is left.
          subst hstep
          have hstored : s.items = items := by
            rcases hlast rfl with hstored | ⟨hsingle, -⟩
            · exact hstored
            · exact absurd (by rw [hsingle]) hlength
          refine ⟨h.finish hphase h.answered_lt (List.pairwise_singleton _ _) fun x hx => ?_,
            .of_quiet (fun x hx _ => ?_) (fun x hx hnew => absurd hx hnew) rfl⟩
          · rw [List.mem_singleton.1 hx, hstored, hitems]
            exact ⟨List.mem_append_right _ List.mem_cons_self, hitem⟩
          · rw [hstored, hitems] at hx
            rcases List.mem_append.1 hx with hx | hx
            · exact .inr (hdone x hx)
            · exact .inl hx
        · next hlength =>
          subst hstep
          have hnil : done = [] := by
            rw [hitems] at hlength
            simpa using hlength
          refine ⟨h.finish hphase h.answered_lt h.sorted fun x hx => ⟨hx, ?_⟩,
            .of_quiet (fun x hx _ => .inl hx) (fun x hx hnew => absurd hx hnew) rfl⟩
          rcases hsending.stored x hx with hx | ⟨-, hx⟩
          · rw [hitems, hnil, List.nil_append] at hx
            rw [List.mem_singleton.1 hx]
            exact hitem
          · exact hx

omit [DecidableEq ι] in
/-- A write that failed, and says all that matters in its path, its body and its options. -/
theorem QueueSound.write (h : QueueSound E s) {path uuid id : String} {options : RequestOptions N}
    {createdAt : Nat} {token : Option (SessionToken N)} (hurl : E.clientUrl = E.queueUrl)
    (hquery : options.query = []) (hmatch : Replaced options.headers "If-Match" options.ifMatch)
    (hkey : Replaced options.headers "Idempotency-Key" (effectiveKey path options uuid)) :
    QueueSound E (s.write E path options uuid id createdAt token) ∧
    LosesNothing E s (s.write E path options uuid id createdAt token) := by
  have hquiet : LosesNothing E s s :=
    .of_quiet (fun x hx _ => .inl hx) (fun x hx hnew => absurd hx hnew) rfl
  have henqueue : ∀ body : Option (JsVal N), bodyText options.body = body.bind JsVal.toJson →
      ∀ mutation : QueuedMutation N,
      mutation = { id, method := upperCase options.method, path, body, ifMatch := options.ifMatch
                   idempotencyKey := effectiveKey path options uuid, createdAt } →
      QueueSound E (s.enqueue mutation (some (buildRequest E.clientUrl path options uuid token))) ∧
      LosesNothing E s
        (s.enqueue mutation (some (buildRequest E.clientUrl path options uuid token))) := by
    rintro body hbody mutation rfl
    refine ⟨h.enqueue fun request hrequest token' => ?_, losesNothing_enqueue h _ _⟩
    cases hrequest
    exact sameRequest_of_write hurl hquery hmatch hkey hbody token'
  unfold QueueState.write
  dsimp only
  split
  · split
    · next hbody => exact henqueue none (by rw [hbody]; rfl) _ rfl
    · next value hbody => exact henqueue (some value) (by rw [hbody]; rfl) _ rfl
    · exact ⟨h, hquiet⟩
  · exact ⟨h, hquiet⟩

/-- Every sound step keeps the invariant and loses nothing. -/
theorem QueueSound.step (h : QueueSound E s) {event : QueueEvent ι N}
    (hsound : SoundQueueEvent E s event) (hstep : (queueSystem E).step s event = some s') :
    QueueSound E s' ∧ LosesNothing E s s' := by
  cases event with
  | session token =>
    cases hstep
    exact ⟨h.session token, .of_quiet (fun x hx _ => .inl hx) (fun x hx hnew => absurd hx hnew) rfl⟩
  | write path options uuid id createdAt token =>
    cases hstep
    obtain ⟨hurl, hquery, hmatch, hkey⟩ := hsound
    exact h.write hurl hquery hmatch hkey
  | enqueue mutation =>
    cases hstep
    refine ⟨h.enqueue fun request hrequest => ?_, losesNothing_enqueue h _ _⟩
    cases hrequest
  | flush i =>
    have hflush : s' = s.flush i := by
      have hcall : s.startFlush i = some s' := hstep
      unfold QueueState.startFlush at hcall
      rw [hsound i] at hcall
      exact (Option.some.inj hcall).symm
    rw [hflush]
    exact h.flush hsound i
  | answer i outcome => exact h.answer hsound hstep

/-- In a run of sound events, every sound event loses, reorders and alters nothing. -/
theorem losesNothing_of_reach (h : (queueSystem E).Reach (SoundQueueEvent E) s)
    {event : QueueEvent ι N} (hsound : SoundQueueEvent E s event)
    (hstep : (queueSystem E).step s event = some s') : LosesNothing E s s' := by
  have hqueue : QueueSound E s := by
    refine h.invariant (I := QueueSound E) ?_ fun s event s' hs hp hstep => (hs.step hp hstep).1
    rintro s ⟨hitems, hidle, henqueued, -, hanswered⟩
    refine ⟨?_, ?_, ?_, ?_, ?_, ?_, ?_, fun i items item rest remaining hsend => ?_⟩
    · simp [henqueued]
    · simp [hanswered]
    · simp [hitems]
    · rw [hitems]
      exact .nil
    · simp [henqueued]
    · simp [hitems]
    · simp [hitems]
    · rw [hidle i] at hsend
      cases hsend
  exact (hqueue.step hsound hstep).2

end

/-! ## A write with a query -/

/-- A client and a queue with the same base URL. -/
def apiEnv : QueueEnv where
  clientUrl := "/api"
  queueUrl := "/api"

def emptyQueue : QueueState Unit (Option Int) where
  items := []
  fingerprint := none
  token := none
  phase _ := .idle
  enqueued := []
  sent := []
  answered := []

/-- A deletion with a query. -/
def purgeOptions (query : List (String × String)) : RequestOptions (Option Int) where
  method := "DELETE"
  query := query
  body := .none
  headers := []
  headers_nodup := List.nodup_nil
  idempotencyKey := none
  ifMatch := none
  noQueue := false

/-- The deletion has failed. -/
def purgeFailed (query : List (String × String)) : QueueEvent Unit (Option Int) :=
  .write "/entities/notes/n1" (purgeOptions query) "key" "m1" 0 none

/-- The first replay of a deletion that had failed. -/
theorem losesNothing_delete : ∃ s s' : QueueState Unit (Option Int),
    s'.sent = s.items ∧ s.items ≠ [] ∧ LosesNothing apiEnv s s' := by
  have h0 : (queueSystem apiEnv).Reach (SoundQueueEvent apiEnv) emptyQueue :=
    .init ⟨rfl, fun _ => rfl, rfl, rfl, rfl⟩
  have hwrite : SoundQueueEvent apiEnv emptyQueue (purgeFailed []) :=
    ⟨rfl, rfl, fun _ hmem => absurd hmem List.not_mem_nil,
      fun _ hmem => absurd hmem List.not_mem_nil⟩
  have h1 := h0.step hwrite rfl
  have hflush : SoundQueueEvent apiEnv
      (emptyQueue.write apiEnv "/entities/notes/n1" (purgeOptions []) "key" "m1" 0 none)
      (.flush ()) := fun _ => rfl
  exact ⟨_, _, rfl, List.cons_ne_nil _ _, losesNothing_of_reach h1 hflush rfl⟩

/-- A target with one entry in its query is not the path alone. -/
theorem requestTarget_entry (baseUrl path name value : String) :
    requestTarget baseUrl path [(name, value)] ≠ baseUrl ++ path := by
  intro heq
  have hquery : queryString [(name, value)] =
      encodeParameter name ++ "=" ++ encodeParameter value := by
    simp [queryString]
  have hne : queryString [(name, value)] ≠ "" := by
    intro hnil
    have hlength := congrArg String.length (hquery.symm.trans hnil)
    simp at hlength
  have hlength := congrArg String.length heq
  simp [requestTarget, hne] at hlength

/-- The replay of a deletion with a query is not the request that failed. -/
theorem not_losesNothing_query : ∃ s s' : QueueState Unit (Option Int),
    (queueSystem apiEnv).Reachable s ∧ (queueSystem apiEnv).step s (.flush ()) = some s' ∧
    ¬ LosesNothing apiEnv s s' := by
  have h0 : (queueSystem apiEnv).Reachable emptyQueue :=
    .init ⟨rfl, fun _ => rfl, rfl, rfl, rfl⟩
  have h1 := h0.step (a := purgeFailed [("purge", "1")]) trivial rfl
  refine ⟨_, _, h1, rfl, fun h => ?_⟩
  exact requestTarget_entry _ _ _ _ (h.same _ rfl _ rfl none).2.1.symm

end HeadlessErp
