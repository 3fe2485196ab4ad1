import HeadlessErp.Media.Collector

/-!
# No referenced media is deleted

Each URL of an uploaded key that a stored row mentions is accounted for: the key is registered for
the document, or a write of the document that is still to register it has it (`Registered`). In a
run that keeps this, and in which media are dropped only when the registry and the writes in flight
are clear of their key, nothing that is dropped is mentioned by a row.
-/

namespace HeadlessErp.Media

section
variable {ι N : Type} {s s' : MediaState ι N} {i : ι} {doc : MediaDoc} {item : JsVal N} {k : String}

/-! ## The property and the condition -/

/-- No row of an entity table has mentioned the URL of a key when its row of `_media` was
deleted. -/
def Unmentioned (s : MediaState ι N) : Prop :=
  ∀ x ∈ s.dropped, ∀ doc row, x.2 doc = some row → ¬row.Mentions (mediaUrl x.1)

/-- A write of the document is in flight. -/
def Writing (s : MediaState ι N) (doc : MediaDoc) : Prop :=
  ∃ i item, (s.phase i).writing = some (doc, item)

/-- The key is registered for the document, or a write in flight will register it. -/
def Registered (s : MediaState ι N) (doc : MediaDoc) (k : String) : Prop :=
  (∃ i item, (s.phase i).writing = some (doc, item) ∧ k ∈ extractMediaKeys item) ∨
    (¬Writing s doc ∧ (k, doc) ∈ s.refs)

/-- The condition on a step. A new key is not mentioned yet; the writes of a document do not
overlap, and each reads out of its value every uploaded key whose URL it stores; any other change
of a row stores no URL that is not accounted for; the registry's statements succeed; and media are
dropped when neither the registry nor a write in flight has their key. -/
def Careful (s : MediaState ι N) : MediaStep ι N → Prop
  | .upload uuid filename =>
    ∀ doc row, s.rows doc = some row → ¬row.Mentions (mediaUrl (mediaKey uuid filename))
  | .edit doc row =>
    ∀ r, row = some r → ∀ k ∈ s.media, r.Mentions (mediaUrl k) → Registered s doc k
  | .store _ doc row item _ =>
    ¬Writing s doc ∧ ∀ k ∈ s.media, row.Mentions (mediaUrl k) → k ∈ extractMediaKeys item
  | .hardDelete _ doc _ => ¬Writing s doc
  | .sync _ succeeds => succeeds = true
  | .drop i => ∀ x, (s.phase i).dropping = some x → s.isReferenced x.1 = false ∧
      ∀ j doc item, (s.phase j).writing = some (doc, item) → x.1 ∉ extractMediaKeys item
  | _ => True

/-- The invariant of the careful runs. -/
structure MediaInvariant (s : MediaState ι N) : Prop where
  covered : ∀ doc row k, s.rows doc = some row → k ∈ s.media → row.Mentions (mediaUrl k) →
    Registered s doc k
  single : ∀ i j doc x y, (s.phase i).writing = some (doc, x) →
    (s.phase j).writing = some (doc, y) → i = j
  prior : ∀ i doc item prior, s.phase i = .syncing doc item prior →
    ∀ k, k ∈ prior ↔ (k, doc) ∈ s.refs
  safe : Unmentioned s

/-! ## Frames -/

section
variable [DecidableEq ι]

@[simp] theorem phase_goto_self (p : MediaPhase N) : (s.goto i p).phase i = p :=
  Function.update_self ..

theorem phase_goto_of_ne {j : ι} (h : j ≠ i) (p : MediaPhase N) :
    (s.goto i p).phase j = s.phase j :=
  Function.update_of_ne h ..

/-- A call that changes its phase and not what it writes. -/
theorem writing_goto {p : MediaPhase N} (h : p.writing = (s.phase i).writing) (j : ι) :
    ((s.goto i p).phase j).writing = (s.phase j).writing := by
  rcases eq_or_ne j i with rfl | hj
  · rw [phase_goto_self, h]
  · rw [phase_goto_of_ne hj]

omit [DecidableEq ι] in
/-- What is accounted for depends on the registry and on the writes in flight. -/
theorem registered_congr (hwriting : ∀ j, (s'.phase j).writing = (s.phase j).writing)
    (hrefs : s'.refs = s.refs) : Registered s' doc k ↔ Registered s doc k := by
  unfold Registered Writing
  simp only [hwriting, hrefs]

/-- A step that moves one call, and leaves the tables and what the call writes. -/
theorem MediaInvariant.goto (h : MediaInvariant s) {p : MediaPhase N}
    (hwriting : p.writing = (s.phase i).writing)
    (hprior : ∀ doc item prior, p = .syncing doc item prior →
      ∀ k, k ∈ prior ↔ (k, doc) ∈ s.refs) : MediaInvariant (s.goto i p) where
  covered doc row k hrow hk hmentions :=
    (registered_congr (writing_goto hwriting) rfl).2 (h.covered doc row k hrow hk hmentions)
  single a b doc x y ha hb := by
    rw [writing_goto hwriting] at ha hb
    exact h.single a b doc x y ha hb
  prior j doc item prior hj := by
    rcases eq_or_ne j i with rfl | hne
    · rw [phase_goto_self] at hj
      exact hprior doc item prior hj
    · rw [phase_goto_of_ne hne] at hj
      exact h.prior j doc item prior hj
  safe := h.safe

/-- A call outside of every write goes on to where it writes nothing either. -/
theorem MediaInvariant.idle (h : MediaInvariant s) {p : MediaPhase N}
    (hold : (s.phase i).writing = none) (hnew : p.writing = none) :
    MediaInvariant (s.goto i p) := by
  refine h.goto (hnew.trans hold.symm) fun doc item prior hp => ?_
  rw [hp] at hnew
  cases hnew

/-! ## Steps -/

omit [DecidableEq ι] in
theorem MediaInvariant.upload (h : MediaInvariant s) {key : String}
    (hfresh : ∀ doc row, s.rows doc = some row → ¬row.Mentions (mediaUrl key)) :
    MediaInvariant (s.upload key) where
  covered doc row k hrow hk hmentions := by
    have hk : k ∈ s.media ++ [key] := hk
    rcases List.mem_append.1 hk with hk | hk
    · exact h.covered doc row k hrow hk hmentions
    · rw [List.mem_singleton.1 hk] at hmentions
      exact absurd hmentions (hfresh doc row hrow)
  single := h.single
  prior := h.prior
  safe := h.safe

omit [DecidableEq ι] in
/-- A row is replaced by one whose URLs are accounted for. -/
theorem MediaInvariant.setRow (h : MediaInvariant s) {row : Option (MediaRow N)}
    (hrow : ∀ r, row = some r → ∀ k ∈ s.media, r.Mentions (mediaUrl k) → Registered s doc k) :
    MediaInvariant (s.setRow doc row) where
  covered d r k hr hk hmentions := by
    have hr : Function.update s.rows doc row d = some r := hr
    rcases eq_or_ne d doc with rfl | hne
    · rw [Function.update_self] at hr
      exact hrow r hr k hk hmentions
    · rw [Function.update_of_ne hne] at hr
      exact h.covered d r k hr hk hmentions
  single := h.single
  prior := h.prior
  safe := h.safe

/-- A row is stored by a call, where no write of the document is in flight: its keys are those the
call is going to register. -/
theorem MediaInvariant.stored (h : MediaInvariant s) (hphase : (s.phase i).writing = none)
    (hfree : ¬Writing s doc) {row : Option (MediaRow N)} {registers : Bool}
    (hrow : ∀ r, row = some r → ∀ k ∈ s.media, r.Mentions (mediaUrl k) → k ∈ extractMediaKeys item)
    (hregisters : registers = false → ∀ k, k ∉ extractMediaKeys item) :
    MediaInvariant ((s.setRow doc row).stored i doc item registers) := by
  cases registers with
  | false =>
    refine MediaInvariant.idle (h.setRow fun r hr k hk hmentions => ?_) hphase rfl
    exact absurd (hrow r hr k hk hmentions) (hregisters rfl k)
  | true =>
    have hself : (((s.setRow doc row).goto i (.stored doc item)).phase i).writing =
        some (doc, item) := congrArg MediaPhase.writing (phase_goto_self _)
    have hother : ∀ j, j ≠ i → (((s.setRow doc row).goto i (.stored doc item)).phase j).writing =
        (s.phase j).writing := fun j hj => congrArg MediaPhase.writing (phase_goto_of_ne hj _)
    refine ⟨fun d r k hr hk hmentions => ?_, fun a b d x y ha hb => ?_,
      fun j d x prior hj => ?_, h.safe⟩
    · have hr : Function.update s.rows doc row d = some r := hr
      rcases eq_or_ne d doc with rfl | hne
      · rw [Function.update_self] at hr
        exact .inl ⟨i, item, hself, hrow r hr k hk hmentions⟩
      rw [Function.update_of_ne hne] at hr
      rcases h.covered d r k hr hk hmentions with ⟨j, x, hj, hx⟩ | ⟨hnot, href⟩
      · refine .inl ⟨j, x, ?_, hx⟩
        rcases eq_or_ne j i with rfl | hji
        · rw [hphase] at hj
          cases hj
        · exact (hother j hji).trans hj
      · refine .inr ⟨?_, href⟩
        rintro ⟨j, x, hj⟩
        rcases eq_or_ne j i with rfl | hji
        · exact hne (Prod.mk.inj (Option.some.inj (hself.symm.trans hj))).1.symm
        · exact hnot ⟨j, x, (hother j hji).symm.trans hj⟩
    · -- two calls that write one document, one of them the new one
      rcases eq_or_ne a i with rfl | hai
      · rcases eq_or_ne b a with rfl | hba
        · rfl
        obtain ⟨rfl, -⟩ := Prod.mk.inj (Option.some.inj (hself.symm.trans ha))
        exact absurd ⟨b, y, (hother b hba).symm.trans hb⟩ hfree
      rcases eq_or_ne b i with rfl | hbi
      · obtain ⟨rfl, -⟩ := Prod.mk.inj (Option.some.inj (hself.symm.trans hb))
        exact absurd ⟨a, x, (hother a hai).symm.trans ha⟩ hfree
      · exact h.single a b d x y ((hother a hai).symm.trans ha) ((hother b hbi).symm.trans hb)
    · rcases eq_or_ne j i with rfl | hji
      · have hphase := (phase_goto_self _).symm.trans hj
        cases hphase
      · exact h.prior j d x prior ((phase_goto_of_ne hji _).symm.trans hj)

/-- `syncDoc` reads what is registered. -/
theorem MediaInvariant.readRefs (h : MediaInvariant s) (hphase : s.phase i = .stored doc item) :
    MediaInvariant (s.goto i (.syncing doc item (s.refsOf doc))) := by
  refine h.goto (by rw [hphase]; rfl) fun d x prior hp k => ?_
  cases hp
  unfold MediaState.refsOf
  constructor
  · intro hk
    obtain ⟨r, hr, rfl⟩ := List.mem_map.1 hk
    obtain ⟨hr, hdoc⟩ := List.mem_filter.1 hr
    rw [← of_decide_eq_true hdoc]
    exact hr
  · exact fun hk => List.mem_map.2 ⟨(k, doc), List.mem_filter.2 ⟨hk, decide_eq_true rfl⟩, rfl⟩

omit [DecidableEq ι] in
/-- What a document has in the registry after its keys are replaced. -/
theorem mem_replaced {prior : List String} {r : String × MediaDoc}
    (hprior : ∀ k, k ∈ prior ↔ (k, doc) ∈ s.refs) :
    r ∈ (s.refs.filter fun r => !(r.2 = doc && prior.contains r.1)) ++
        (extractMediaKeys item).elems.map (fun key => (key, doc)) ↔
      if r.2 = doc then r.1 ∈ extractMediaKeys item else r ∈ s.refs := by
  obtain ⟨k, d⟩ := r
  have hnew : (k, d) ∈ (extractMediaKeys item).elems.map (fun key => (key, doc)) ↔
      k ∈ extractMediaKeys item ∧ d = doc := by
    rw [List.mem_map]
    constructor
    · rintro ⟨key, hkey, heq⟩
      obtain ⟨rfl, rfl⟩ := Prod.mk.inj heq
      exact ⟨hkey, rfl⟩
    · rintro ⟨hk, rfl⟩
      exact ⟨k, hk, rfl⟩
  rw [List.mem_append, List.mem_filter, hnew]
  split
  · next hdoc =>
    have hdoc : d = doc := hdoc
    subst hdoc
    refine ⟨?_, fun hk => .inr ⟨hk, rfl⟩⟩
    rintro (⟨href, hkept⟩ | ⟨hk, -⟩)
    · have hmem : k ∈ prior := (hprior k).2 href
      simp [hmem] at hkept
    · exact hk
  · next hdoc =>
    have hdoc : d ≠ doc := hdoc
    simp [hdoc]

/-- The registry of a document is replaced by the keys of the write that ends. -/
theorem MediaInvariant.sync (h : MediaInvariant s) {prior : List String}
    (hphase : s.phase i = .syncing doc item prior) :
    MediaInvariant (s.sync i doc item prior true) := by
  have hprior := h.prior i doc item prior hphase
  have hwriting : (s.phase i).writing = some (doc, item) := by rw [hphase]; rfl
  have hfresh : (true && ((extractMediaKeys item).elems.map fun key => (key, doc)).all
      (!(s.refs.filter fun r => !(r.2 = doc && prior.contains r.1)).contains ·)) = true := by
    rw [Bool.true_and, List.all_eq_true]
    intro r hr
    obtain ⟨key, -, rfl⟩ := List.mem_map.1 hr
    simp [hprior key]
  unfold MediaState.sync
  simp only [hfresh, if_true]
  have hself : ((s.goto i .done).phase i).writing = none :=
    congrArg MediaPhase.writing (phase_goto_self _)
  have hother : ∀ j, j ≠ i → ((s.goto i .done).phase j).writing = (s.phase j).writing :=
    fun j hj => congrArg MediaPhase.writing (phase_goto_of_ne hj _)
  -- the calls that still write are others, and write other documents
  have hstill : ∀ j d x, ((s.goto i .done).phase j).writing = some (d, x) →
      (s.phase j).writing = some (d, x) ∧ d ≠ doc := by
    intro j d x hj
    rcases eq_or_ne j i with rfl | hji
    · rw [hself] at hj
      cases hj
    · rw [hother j hji] at hj
      refine ⟨hj, ?_⟩
      rintro rfl
      exact hji (h.single j i d x item hj hwriting)
  refine ⟨fun d r k hr hk hmentions => ?_, fun a b d x y ha hb => ?_, fun j d x p hj k => ?_,
    h.safe⟩
  · have hold := h.covered d r k hr hk hmentions
    rcases eq_or_ne d doc with rfl | hd
    · refine .inr ⟨?_, (mem_replaced hprior).2 ?_⟩
      · rintro ⟨j, x, hj⟩
        exact (hstill j d x hj).2 rfl
      · rw [if_pos rfl]
        rcases hold with ⟨j, x, hj, hx⟩ | ⟨hnot, -⟩
        · obtain rfl := h.single i j d item x hwriting hj
          obtain ⟨-, rfl⟩ := Prod.mk.inj (Option.some.inj (hwriting.symm.trans hj))
          exact hx
        · exact absurd ⟨i, item, hwriting⟩ hnot
    · rcases hold with ⟨j, x, hj, hx⟩ | ⟨hnot, href⟩
      · refine .inl ⟨j, x, ?_, hx⟩
        rcases eq_or_ne j i with rfl | hji
        · exact absurd (Prod.mk.inj (Option.some.inj (hj.symm.trans hwriting))).1 hd
        · exact (hother j hji).trans hj
      · refine .inr ⟨?_, (mem_replaced hprior).2 ?_⟩
        · rintro ⟨j, x, hj⟩
          exact hnot ⟨j, x, (hstill j d x hj).1⟩
        · rw [if_neg hd]
          exact href
  · exact h.single a b d x y (hstill a d x ha).1 (hstill b d y hb).1
  · have hj : (s.goto i .done).phase j = .syncing d x p := hj
    have hd := (hstill j d x (by rw [hj]; rfl)).2
    have hji : j ≠ i := by
      rintro rfl
      rw [phase_goto_self] at hj
      cases hj
    rw [phase_goto_of_ne hji] at hj
    refine (h.prior j d x p hj k).trans ?_
    refine Iff.trans ?_ (mem_replaced hprior).symm
    rw [if_neg hd]

omit [DecidableEq ι] in
/-- Media are dropped that nothing accounts for: no row mentions them. -/
theorem MediaInvariant.drop (h : MediaInvariant s) {key : String}
    (hunreferenced : s.isReferenced key = false)
    (hunwritten : ∀ j doc item, (s.phase j).writing = some (doc, item) →
      key ∉ extractMediaKeys item) : MediaInvariant (s.drop key) where
  covered doc row k hrow hk hmentions :=
    h.covered doc row k hrow (List.mem_filter.1 hk).1 hmentions
  single := h.single
  prior := h.prior
  safe := by
    intro x hx doc row hrow hmentions
    have hx : x ∈ s.dropped ++ if s.media.contains key then [(key, s.rows)] else [] := hx
    rcases List.mem_append.1 hx with hx | hx
    · exact h.safe x hx doc row hrow hmentions
    · by_cases hkey : s.media.contains key
      · rw [if_pos hkey] at hx
        obtain rfl := List.mem_singleton.1 hx
        rcases h.covered doc row key hrow (List.contains_iff_mem.1 hkey) hmentions with
          ⟨j, item, hj, hitem⟩ | ⟨-, href⟩
        · exact hunwritten j doc item hj hitem
        · have hany : s.isReferenced key = true :=
            List.any_eq_true.2 ⟨_, href, decide_eq_true rfl⟩
          rw [hunreferenced] at hany
          cases hany
      · rw [if_neg hkey] at hx
        exact absurd hx List.not_mem_nil

theorem MediaInvariant.unlink (h : MediaInvariant s) {p : MediaPhase N} {key : String}
    {succeeds : Bool} (hold : (s.phase i).writing = none) (hnew : p.writing = none) :
    MediaInvariant ((s.unlink key succeeds).goto i p) := by
  unfold MediaState.unlink
  split
  · exact MediaInvariant.idle (s := { s with objects := s.objects.filter (· ≠ key) })
      ⟨h.covered, h.single, h.prior, h.safe⟩ hold hnew
  · exact h.idle hold hnew

/-- A call that drops media writes no row. -/
theorem writing_of_dropping {p next : MediaPhase N} {key : String}
    (h : p.dropping = some (key, next)) : p.writing = none ∧ next.writing = none := by
  cases p with
  | found key' =>
    cases h
    exact ⟨rfl, rfl⟩
  | rechecked key' keys =>
    cases h
    exact ⟨rfl, rfl⟩
  | _ => cases h

/-- Every careful step keeps the invariant. -/
theorem MediaInvariant.step (h : MediaInvariant s) {a : MediaStep ι N} (hcareful : Careful s a)
    (hstep : s.step a = some s') : MediaInvariant s' := by
  cases a with
  | upload uuid filename =>
    obtain rfl := Option.some.inj hstep
    exact h.upload hcareful
  | edit doc row =>
    obtain rfl := Option.some.inj hstep
    exact h.setRow hcareful
  | store i doc row item hasMediaFields =>
    simp only [MediaState.step] at hstep
    split at hstep
    next hphase =>
      obtain rfl := Option.some.inj hstep
      refine h.stored (by rw [hphase]; rfl) hcareful.1 (fun r hr => ?_) fun hfalse k hk => ?_
      · obtain rfl := Option.some.inj hr
        exact hcareful.2
      · have hsize : (extractMediaKeys item).size = 0 := by
          simpa using (Bool.or_eq_false_iff.1 hfalse).2
        exact JsSet.size_eq_zero.1 hsize k hk
    · cases hstep
  | hardDelete i doc existing =>
    simp only [MediaState.step] at hstep
    split at hstep
    next hphase =>
      obtain rfl := Option.some.inj hstep
      refine h.stored (by rw [hphase]; rfl) hcareful (fun r hr => ?_) fun _ k hk => ?_
      · cases hr
      · exact absurd (mem_extractMediaKeys.1 hk) List.not_mem_nil
    · cases hstep
  | readRefs i =>
    simp only [MediaState.step] at hstep
    split at hstep
    next hphase =>
      obtain rfl := Option.some.inj hstep
      exact h.readRefs hphase
    · cases hstep
  | sync i succeeds =>
    simp only [MediaState.step] at hstep
    split at hstep
    next hphase =>
      obtain rfl := Option.some.inj hstep
      obtain rfl : succeeds = true := hcareful
      exact h.sync hphase
    · cases hstep
  | deleteIfUnused i key =>
    simp only [MediaState.step] at hstep
    split at hstep
    next hphase =>
      obtain rfl := Option.some.inj hstep
      refine h.idle (by rw [hphase]; rfl) ?_
      split
      · rfl
      · rfl
    · cases hstep
  | find i =>
    simp only [MediaState.step] at hstep
    split at hstep
    next hphase =>
      obtain rfl := Option.some.inj hstep
      refine h.idle (by rw [hphase]; rfl) ?_
      split
      · rfl
      · rfl
    · cases hstep
  | gcUnused i =>
    simp only [MediaState.step] at hstep
    split at hstep
    next hphase =>
      obtain rfl := Option.some.inj hstep
      exact h.idle (by rw [hphase]; rfl) rfl
    · cases hstep
  | recheck i =>
    simp only [MediaState.step] at hstep
    split at hstep
    next hphase =>
      obtain rfl := Option.some.inj hstep
      exact h.idle (by rw [hphase]; rfl) rfl
    next hphase =>
      obtain rfl := Option.some.inj hstep
      refine h.idle (by rw [hphase]; rfl) ?_
      split
      · rfl
      · rfl
    · cases hstep
  | drop i =>
    obtain ⟨⟨key, next⟩, hdropping, rfl⟩ := Option.map_eq_some_iff.1 hstep
    obtain ⟨hunreferenced, hunwritten⟩ := hcareful _ hdropping
    obtain ⟨hold, hnew⟩ := writing_of_dropping hdropping
    exact (h.drop hunreferenced hunwritten).idle hold hnew
  | unlink i succeeds =>
    simp only [MediaState.step] at hstep
    split at hstep
    next hphase =>
      obtain rfl := Option.some.inj hstep
      exact h.unlink (by rw [hphase]; rfl) rfl
    next hphase =>
      obtain rfl := Option.some.inj hstep
      exact h.unlink (by rw [hphase]; rfl) rfl
    · cases hstep

end

theorem mediaInvariant_init : MediaInvariant ({} : MediaState ι N) := by
  refine ⟨fun _ _ _ hrow => ?_, fun _ _ _ _ _ ha => ?_, fun _ _ _ _ hphase => ?_, fun _ hx => ?_⟩
  · cases hrow
  · cases ha
  · cases hphase
  · cases hx

end

/-- In a careful run, no row of an entity table mentions the URL of a key when its row of `_media`
is deleted. -/
theorem unmentioned_of_careful {ι N : Type} [DecidableEq ι] {s : MediaState ι N}
    (h : (mediaSystem ι N).Reach Careful s) : Unmentioned s := by
  refine (h.invariant (fun _ hinit => ?_) fun _ _ _ hinv hcareful hstep =>
    hinv.step hcareful hstep : MediaInvariant s).safe
  obtain rfl := hinit
  exact mediaInvariant_init

/-- An uploaded file that no row uses is collected. -/
theorem unmentioned_of_careful_collected : ∃ s : MediaState Unit (Option Int),
    s.dropped.map Prod.fst = ["f1.png"] ∧ s.objects = [] ∧ Unmentioned s := by
  have hstart : (mediaSystem Unit (Option Int)).Reach Careful {} := .init rfl
  have hfresh : Careful ({} : MediaState Unit (Option Int)) (.upload "f1" "photo.PNG") := by
    intro doc row hrow
    cases hrow
  have huploaded := hstart.step hfresh rfl
  have hbegun := huploaded.step (a := MediaStep.gcUnused ()) True.intro rfl
  have hchecked := hbegun.step (a := MediaStep.recheck ()) True.intro rfl
  have hdropped := hchecked.step (a := MediaStep.drop ()) (fun x hx => ?_) rfl
  · have hunlinked := hdropped.step (a := MediaStep.unlink () true) True.intro rfl
    exact ⟨_, by decide, by decide, unmentioned_of_careful hunlinked⟩
  · cases hx
    exact ⟨rfl, fun j doc item hj => by cases hj⟩

/-- A car with the photo `/api/media/f1.p g`. -/
def blankPhoto : JsVal (Option Int) := .obj [("photo", .str "/api/media/f1.p g")]

/-- The photo of a car is uploaded from `scan.p g`, registered as `f1.p`, and collected. -/
def blankSteps : List (MediaStep Bool (Option Int)) :=
  [.upload "f1" "scan.p g", .store true ("cars", "c1") ⟨blankPhoto, []⟩ blankPhoto true,
   .readRefs true, .sync true true, .gcUnused false, .recheck false, .drop false,
   .unlink false true]

/-- The car still has the URL of the key that is dropped. -/
theorem not_unmentioned_blank : ∃ s : MediaState Bool (Option Int),
    (mediaSystem Bool (Option Int)).Reachable s ∧ s.objects = [] ∧ ¬Unmentioned s := by
  rcases hrun : (mediaSystem Bool (Option Int)).run {} blankSteps with _ | s
  · have hsome : ((mediaSystem Bool (Option Int)).run {} blankSteps).isSome = true := by
      decide +kernel
    rw [hrun] at hsome
    cases hsome
  have hobjects : (((mediaSystem Bool (Option Int)).run {} blankSteps).map (·.objects)) =
      some [] := by
    decide +kernel
  have hdropped : (((mediaSystem Bool (Option Int)).run {} blankSteps).map fun s =>
      s.dropped.map fun x => (x.1, (x.2 ("cars", "c1")).map fun row => texts row.columns)) =
      some [("f1.p g", some ["/api/media/f1.p g"])] := by
    decide +kernel
  rw [hrun] at hobjects hdropped
  refine ⟨s, System.Reach.run (.init rfl) hrun, Option.some.inj hobjects, fun h => ?_⟩
  rcases hlist : s.dropped with _ | ⟨⟨key, rows⟩, rest⟩
  · rw [Option.map_some, hlist] at hdropped
    cases hdropped
  rw [Option.map_some, hlist, List.map_cons] at hdropped
  obtain ⟨hkey, hrow⟩ := Prod.mk.inj (List.cons.inj (Option.some.inj hdropped)).1
  obtain ⟨row, hrow, htexts⟩ := Option.map_eq_some_iff.1 hrow
  refine h (key, rows) (hlist ▸ List.mem_cons_self) _ row hrow ⟨"/api/media/f1.p g", ?_, ?_⟩
  · rw [htexts]
    exact List.mem_cons_self
  · rw [show key = "f1.p g" from hkey]
    exact List.infix_rfl

end HeadlessErp.Media
