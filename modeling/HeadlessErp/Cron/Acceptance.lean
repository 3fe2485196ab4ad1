import HeadlessErp.Cron.Grammar

/-!
# What the cron parser accepts

The parser takes the grammar in its own spelling of numbers, with the sets that it denotes
(`parseCron_of_reads`, `reads_of_parseCron`). The two spellings agree but for numbers that `Number` takes and the comment
does not name, for `L` in a list of minutes or hours, and for steps beyond the doubles; so the parser
takes the documented grammar unless an expression has one of these (`exactlyGrammar_iff`).
-/

namespace HeadlessErp.Cron

/-! ## Cutting -/

section

variable {mark : Char} {t u base : List Char}

theorem cutAt_of_notMem (h : mark ∉ t) : cutAt mark t = (t, none) := by
  have hall : ∀ c ∈ t, (decide (c ≠ mark)) = true :=
    fun c hc => decide_eq_true fun heq => h (heq ▸ hc)
  rw [cutAt, List.takeWhile_eq_self_iff.2 hall, List.dropWhile_eq_nil_iff.2 hall]
  rfl

theorem cutAt_append (h : mark ∉ t) : cutAt mark (t ++ mark :: u) = (t, some u) := by
  have hall : ∀ c ∈ t, (decide (c ≠ mark)) = true :=
    fun c hc => decide_eq_true fun heq => h (heq ▸ hc)
  rw [cutAt, List.takeWhile_append_of_pos hall, List.dropWhile_append_of_pos hall,
    List.takeWhile_cons_of_neg (by simp), List.dropWhile_cons_of_neg (by simp), List.append_nil]
  rfl

/-- A text is cut at its first mark, or has none. -/
theorem cutAt_cases (mark : Char) (t : List Char) :
    (mark ∉ t ∧ cutAt mark t = (t, none)) ∨
      ∃ a u, t = a ++ mark :: u ∧ mark ∉ a ∧ cutAt mark t = (a, some u) := by
  by_cases h : mark ∈ t
  · obtain ⟨a, u, rfl, ha⟩ := List.eq_append_cons_of_mem h
    exact .inr ⟨a, u, rfl, ha, cutAt_append ha⟩
  · exact .inl ⟨h, cutAt_of_notMem h⟩

theorem notMem_of_mem_splitOn {part : List Char} (h : part ∈ t.splitOn mark) : mark ∉ part := by
  induction hn : t.length using Nat.strong_induction_on generalizing t with
  | h n ih =>
    rcases cutAt_cases mark t with ⟨hmark, -⟩ | ⟨a, u, rfl, ha, -⟩
    · rw [List.splitOn_eq_singleton hmark, List.mem_singleton] at h
      rwa [h]
    · rw [List.splitOn_append_cons_self_of_not_mem ha, List.mem_cons] at h
      rcases h with rfl | h
      · exact ha
      · refine ih u.length ?_ h rfl
        rw [← hn, List.length_append, List.length_cons]
        omega

end

/-! ## Counting -/

namespace CronValue

theorem mem_countUp {hi step v : ℤ} (hstep : 1 ≤ step) {n : ℕ} {a : ℤ}
    (hn : hi + 1 - a ≤ n) : v ∈ countUp hi step n a ↔ a ≤ v ∧ v ≤ hi ∧ step ∣ v - a := by
  induction n generalizing a with
  | zero =>
    rw [countUp]
    constructor
    · intro h
      cases h
    · rintro ⟨hle, hhi, -⟩
      omega
  | succ n ih =>
    have hnext := ih (a := a + step) (by omega)
    rw [countUp]
    split
    · next hle =>
      rw [List.mem_cons, hnext]
      constructor
      · rintro (rfl | ⟨hge, hhi, hdvd⟩)
        · exact ⟨le_rfl, hle, by simp⟩
        · refine ⟨by omega, hhi, ?_⟩
          have hsum := dvd_add hdvd (dvd_refl step)
          rwa [show v - (a + step) + step = v - a by ring] at hsum
      · rintro ⟨hge, hhi, hdvd⟩
        rcases eq_or_lt_of_le hge with heq | hlt
        · exact .inl heq.symm
        · have hle : step ≤ v - a := Int.le_of_dvd (by omega) hdvd
          refine .inr ⟨by omega, hhi, ?_⟩
          have hdiff := dvd_sub hdvd (dvd_refl step)
          rwa [show v - a - step = v - (a + step) by ring] at hdiff
    · next hgt =>
      constructor
      · intro h
        cases h
      · rintro ⟨hge, hhi, -⟩
        omega

/-- The loop counts. -/
theorem mem_upTo {lo hi v : CronValue} {step : ℤ} (hstep : 1 ≤ step) :
    v ∈ upTo lo hi step ↔ v ∈ counted lo hi step := by
  constructor
  · intro h
    cases lo with
    | inherited name => cases h
    | num a =>
      cases hi with
      | inherited name => cases h
      | num b =>
        obtain ⟨n, hn, rfl⟩ := List.mem_map.1 h
        obtain ⟨hle, hhi, hdvd⟩ := (mem_countUp hstep (Int.self_le_toNat _)).1 hn
        exact ⟨a, b, n, rfl, rfl, rfl, hle, hhi, hdvd⟩
  · rintro ⟨a, b, n, rfl, rfl, rfl, hle, hhi, hdvd⟩
    exact List.mem_map_of_mem ((mem_countUp hstep (Int.self_le_toNat _)).2 ⟨hle, hhi, hdvd⟩)

end CronValue

/-! ## Entries -/

section

variable {f : CronField} {base token : List Char} {values : List CronValue} {slash : Bool} {k : ℤ}
  {S : Set CronValue} {C : ℤ → Set CronValue}

theorem valueOf_star (f : CronField) : valueOf ['*'] f.names = none := by
  cases f <;> rfl

theorem valueOf_last (f : CronField) : valueOf ['l'] f.names = none := by
  cases f <;> rfl

theorem Base.slash_notMem (h : Base accepted f base S C) : '/' ∉ base := by
  cases h with
  | star => decide
  | value hnumber => exact hnumber.1
  | range hnumber hupper =>
    rw [List.mem_append, List.mem_cons]
    rintro (h | h | h)
    · exact hnumber.1 h
    · cases h
    · exact hupper.1 h

/-- The values of a base, alone or by steps. -/
theorem baseValues_of_base (slash : Bool) (h : Base accepted f base S C) (hk : 1 ≤ k)
    (hplain : slash = false → k = 1) :
    ∃ values, baseValues f.min f.max f.names base slash k = some values ∧
      ∀ v, v ∈ values ↔ v ∈ if slash then C k else S := by
  cases h with
  | star =>
    refine ⟨_, if_pos rfl, fun v => ?_⟩
    rw [CronValue.mem_upTo hk]
    cases slash with
    | true => rfl
    | false => rw [hplain rfl]; rfl
  | @value _ v hnumber hlow hhigh =>
    obtain ⟨-, hdash, hvalue⟩ := hnumber
    have hstar : base ≠ ['*'] := by
      rintro rfl
      rw [valueOf_star] at hvalue
      cases hvalue
    refine ⟨if slash then CronValue.upTo v (.num f.max) k else [v], ?_, fun w => ?_⟩
    · rw [baseValues, if_neg hstar, cutAt_of_notMem hdash]
      simp [hvalue, hlow, hhigh]
    · cases slash with
      | true => exact CronValue.mem_upTo hk
      | false => exact List.mem_singleton
  | @range low high lo hi hnumber hupper hlow hhigh hle =>
    obtain ⟨-, hdash, hvalue⟩ := hnumber
    have hstar : low ++ '-' :: high ≠ ['*'] := by
      intro heq
      have hmem : '-' ∈ ['*'] := heq ▸ List.mem_append_right _ List.mem_cons_self
      cases List.mem_singleton.1 hmem
    refine ⟨CronValue.upTo lo hi k, ?_, fun w => ?_⟩
    · rw [baseValues, if_neg hstar, cutAt_append hdash]
      simp [hvalue, hupper.2, hlow, hhigh, hle]
    · rw [CronValue.mem_upTo hk]
      cases slash with
      | true => rfl
      | false => rw [hplain rfl]; rfl

/-- Nothing else has values. -/
theorem base_of_baseValues (hslash : '/' ∉ base) (hk : 1 ≤ k)
    (hplain : slash = false → k = 1)
    (h : baseValues f.min f.max f.names base slash k = some values) :
    ∃ S C, Base accepted f base S C ∧ ∀ v, v ∈ values ↔ v ∈ if slash then C k else S := by
  have hsame {S C} (hbase : Base accepted f base S C) :
      ∃ S C, Base accepted f base S C ∧ ∀ v, v ∈ values ↔ v ∈ if slash then C k else S := by
    obtain ⟨values', hvalues, hmem⟩ := baseValues_of_base slash hbase hk hplain
    rw [h] at hvalues
    exact ⟨S, C, hbase, Option.some.inj hvalues ▸ hmem⟩
  rw [baseValues] at h
  split at h
  · next hstar =>
    subst hstar
    exact hsame .star
  · rcases cutAt_cases '-' base with ⟨hdash, hcut⟩ | ⟨low, high, rfl, hdash, hcut⟩
    · rw [hcut] at h
      obtain ⟨lo, hlo, h⟩ := Option.bind_eq_some_iff.1 h
      split at h
      · cases h
      · next hbounds =>
        rw [Bool.or_eq_true, not_or, Bool.not_eq_true, Bool.not_eq_true] at hbounds
        exact hsame (.value ⟨hslash, hdash, hlo⟩ hbounds.1 hbounds.2)
    · rw [hcut] at h
      obtain ⟨lo, hlo, h⟩ := Option.bind_eq_some_iff.1 h
      obtain ⟨hi, hhi, h⟩ := Option.bind_eq_some_iff.1 h
      rw [List.mem_append, List.mem_cons, not_or, not_or] at hslash
      split at h
      · cases h
      · next hbounds =>
        simp only [Bool.or_eq_true, not_or, Bool.not_eq_true] at hbounds
        exact hsame (.range ⟨hslash.1, hdash, hlo⟩ ⟨hslash.2.2, hhi⟩ hbounds.1.1 hbounds.1.2
          hbounds.2)

theorem one_le_of_stepOf {t : List Char} (h : stepOf t = some k) : 1 ≤ k := by
  obtain ⟨-, hk⟩ := Option.filter_eq_some_iff.1 h
  exact of_decide_eq_true hk

theorem parseEntry_of_entry (h : Entry accepted f token S) :
    ∃ values, parseEntry f.min f.max f.names token = some values ∧ ∀ v, v ∈ values ↔ v ∈ S := by
  cases h with
  | plain hbase =>
    obtain ⟨values, hvalues, hmem⟩ := baseValues_of_base false hbase le_rfl fun _ => rfl
    refine ⟨values, ?_, hmem⟩
    rw [parseEntry, cutAt_of_notMem hbase.slash_notMem]
    exact hvalues
  | step hbase hstep =>
    obtain ⟨values, hvalues, hmem⟩ := baseValues_of_base true hbase (one_le_of_stepOf hstep)
      fun h => by cases h
    refine ⟨values, ?_, hmem⟩
    rw [parseEntry, cutAt_append hbase.slash_notMem]
    exact Option.bind_eq_some_iff.2 ⟨_, hstep, hvalues⟩

theorem entry_of_parseEntry (h : parseEntry f.min f.max f.names token = some values) :
    ∃ S, Entry accepted f token S ∧ ∀ v, v ∈ values ↔ v ∈ S := by
  rcases cutAt_cases '/' token with ⟨hslash, hcut⟩ | ⟨base, u, rfl, hslash, hcut⟩
  · rw [parseEntry, hcut] at h
    obtain ⟨S, C, hbase, hmem⟩ := base_of_baseValues hslash le_rfl (fun _ => rfl) h
    exact ⟨S, .plain hbase, hmem⟩
  · rw [parseEntry, hcut] at h
    obtain ⟨k, hstep, h⟩ := Option.bind_eq_some_iff.1 h
    obtain ⟨S, C, hbase, hmem⟩ :=
      base_of_baseValues hslash (one_le_of_stepOf hstep) (fun h => by cases h) h
    exact ⟨C k, .step hbase hstep, hmem⟩

end

/-! ## Lists -/

section

variable {f : CronField} {tokens : List (List Char)} {acc : List CronValue × Bool}
  {S : Set CronValue} {l : Bool}

theorem mem_addValue {values : List CronValue} {v w : CronValue} :
    w ∈ addValue values v ↔ w ∈ values ∨ w = v := by
  unfold addValue
  split
  · next h =>
    refine ⟨.inl, ?_⟩
    rintro (hw | rfl)
    · exact hw
    · exact h
  · rw [List.mem_append, List.mem_singleton]

theorem mem_foldl_addValue {values added : List CronValue} {w : CronValue} :
    w ∈ added.foldl addValue values ↔ w ∈ values ∨ w ∈ added := by
  induction added generalizing values with
  | nil => simp
  | cons v added ih => rw [List.foldl_cons, ih, mem_addValue, List.mem_cons, or_assoc]

theorem entry_last : ¬ Entry accepted f ['l'] S := by
  intro h
  obtain ⟨values, hvalues, -⟩ := parseEntry_of_entry h
  have hnone : parseEntry f.min f.max f.names ['l'] = none := by
    have hslash : '/' ∉ ['l'] := by decide
    have hdash : '-' ∉ ['l'] := by decide
    have hstar : ['l'] ≠ ['*'] := by decide
    rw [parseEntry, cutAt_of_notMem hslash]
    simp [baseValues, hstar, cutAt_of_notMem hdash, valueOf_last]
  rw [hnone] at hvalues
  cases hvalues

theorem parseTokens_of_entries (h : Entries accepted f tokens S l) (acc : List CronValue × Bool) :
    ∃ acc', tokens.foldlM (parseToken f.min f.max f.names) acc = some acc' ∧
      acc'.2 = (acc.2 || l) ∧ ∀ v, v ∈ acc'.1 ↔ v ∈ acc.1 ∨ v ∈ S := by
  induction h generalizing acc with
  | nil => exact ⟨acc, rfl, (Bool.or_false _).symm, fun v => by simp⟩
  | @entry t ts S T l hne _ hentry _ ih =>
    obtain ⟨values, hvalues, hmem⟩ := parseEntry_of_entry hentry
    have hlast : t ≠ ['l'] := by
      rintro rfl
      exact entry_last hentry
    obtain ⟨acc', hacc', hl, hmem'⟩ := ih (values.foldl addValue acc.1, acc.2)
    refine ⟨acc', ?_, hl, fun v => ?_⟩
    · rw [List.foldlM_cons, parseToken, if_neg hne, if_neg hlast, hvalues]
      exact hacc'
    · rw [hmem', mem_foldl_addValue, hmem, Set.mem_union, or_assoc]
  | @last ts T l hnames _ ih =>
    obtain ⟨acc', hacc', hl, hmem'⟩ := ih (acc.1, true)
    refine ⟨acc', ?_, ?_, hmem'⟩
    · have hnone : f.names.isSome = false := by
        rw [show f.names = none from hnames]
        rfl
      rw [List.foldlM_cons, parseToken, if_neg (List.cons_ne_nil _ _), if_pos rfl, hnone]
      exact hacc'
    · rw [hl, Bool.true_or, Bool.or_true]

theorem entries_of_parseTokens {acc' : List CronValue × Bool} (hcomma : ∀ t ∈ tokens, ',' ∉ t)
    (h : tokens.foldlM (parseToken f.min f.max f.names) acc = some acc') :
    ∃ S l, Entries accepted f tokens S l ∧ acc'.2 = (acc.2 || l) ∧
      ∀ v, v ∈ acc'.1 ↔ v ∈ acc.1 ∨ v ∈ S := by
  suffices hexists : ∃ S l, Entries accepted f tokens S l by
    obtain ⟨S, l, hentries⟩ := hexists
    obtain ⟨acc'', hacc'', hspec⟩ := parseTokens_of_entries hentries acc
    rw [h] at hacc''
    exact ⟨S, l, hentries, Option.some.inj hacc'' ▸ hspec⟩
  induction tokens generalizing acc with
  | nil => exact ⟨∅, false, .nil⟩
  | cons t ts ih =>
    rw [List.foldlM_cons] at h
    obtain ⟨mid, hmid, h⟩ := Option.bind_eq_some_iff.1 h
    obtain ⟨S, l, hentries⟩ := ih (fun t ht => hcomma t (List.mem_cons_of_mem _ ht)) h
    rw [parseToken] at hmid
    split at hmid
    · cases hmid
    · next hne =>
      split at hmid
      · next hlast =>
        subst hlast
        split at hmid
        · cases hmid
        · next hnames =>
          exact ⟨S, true, .last (Option.not_isSome_iff_eq_none.1 hnames) hentries⟩
      · obtain ⟨values, hvalues, -⟩ := Option.map_eq_some_iff.1 hmid
        obtain ⟨T, hentry, -⟩ := entry_of_parseEntry hvalues
        exact ⟨T ∪ S, l, .entry hne (hcomma t List.mem_cons_self) hentry hentries⟩

theorem comma_notMem_of_entries (h : Entries accepted f tokens S l) : ∀ t ∈ tokens, ',' ∉ t := by
  induction h with
  | nil => exact fun t ht => absurd ht List.not_mem_nil
  | entry _ hcomma _ _ ih => exact List.forall_mem_cons.2 ⟨hcomma, ih⟩
  | last _ _ ih => exact List.forall_mem_cons.2 ⟨by decide, ih⟩

end

/-! ## Fields -/

section

variable {f : CronField} {raw : List Char} {d : FieldSet} {p : ParsedField}

theorem trimmed_of_nonblank (h : ∀ c ∈ raw, isSpace c = false) : trimmed raw = raw := by
  by_cases hne : raw = []
  · rw [hne]
    rfl
  · have hnone : ∀ c ∈ ([] : List Char), isSpace c = true :=
      fun c hc => absurd hc List.not_mem_nil
    have hdrop : ([] ++ (raw ++ [])).dropWhile isSpace = raw ++ [] := dropWhile_gap hnone hne h
    have hend : trimmedEnd (raw ++ []) = raw ++ trimmedEnd [] := trimmedEnd_append hne h
    rw [List.nil_append, List.append_nil] at hdrop
    rw [List.append_nil] at hend
    rw [trimmed_eq, hdrop, hend]
    exact List.append_nil raw

/-- Minutes and hours have values. -/
def Whole (f : CronField) (p : ParsedField) : Prop :=
  f = .minute ∨ f = .hour → p.isEmpty = false

/-- A field is read entry by entry, also a single `L`. -/
theorem parseField_list (hnil : lowered (trimmed raw) ≠ [])
    (hstar : lowered (trimmed raw) ≠ ['*']) :
    parseField raw f.min f.max f.names =
      (((lowered (trimmed raw)).splitOn ',').foldlM (parseToken f.min f.max f.names)
        ([], false)).map fun acc => ⟨false, some acc.1, acc.2⟩ := by
  rw [parseField]
  simp only [if_neg hnil, if_neg hstar]
  split
  · next hlast =>
    rw [hlast, List.splitOn_eq_singleton (by decide), List.foldlM_cons, parseToken,
      if_neg (List.cons_ne_nil _ _), if_pos rfl]
    cases f.names with
    | none => rfl
    | some names => rfl
  · rfl

theorem intercalate_ne_nil {tokens : List (List Char)} (hne : tokens ≠ [])
    (h : ∀ t ∈ tokens, t ≠ []) : [','].intercalate tokens ≠ [] := by
  intro hnil
  obtain ⟨t, ts, rfl⟩ := List.exists_cons_of_ne_nil hne
  cases ts with
  | nil => exact h t List.mem_cons_self (by simpa using hnil)
  | cons u us =>
    rw [List.intercalate_cons_cons] at hnil
    simp at hnil

theorem ne_nil_of_entries {tokens : List (List Char)} {S : Set CronValue} {l : Bool}
    (h : Entries accepted f tokens S l) : ∀ t ∈ tokens, t ≠ [] := by
  induction h with
  | nil => exact fun t ht => absurd ht List.not_mem_nil
  | entry hne _ _ _ ih => exact List.forall_mem_cons.2 ⟨hne, ih⟩
  | last _ _ ih => exact List.forall_mem_cons.2 ⟨List.cons_ne_nil _ _, ih⟩

theorem means_list {acc : List CronValue × Bool} {S : Set CronValue} {l : Bool}
    (hl : acc.2 = l) (hmem : ∀ v, v ∈ acc.1 ↔ v ∈ S) :
    (⟨false, some acc.1, acc.2⟩ : ParsedField).Means ⟨false, S, l⟩ := by
  refine ⟨rfl, hl, rfl, fun values hvalues => ?_⟩
  obtain rfl := Option.some.inj hvalues
  exact hmem

theorem parseField_of_fieldText (hraw : ∀ c ∈ raw, isSpace c = false)
    (h : FieldText accepted f (lowered raw) d) :
    ∃ p, parseField raw f.min f.max f.names = some p ∧ p.Means d ∧ Whole f p := by
  generalize htext : lowered raw = text at h
  cases h with
  | all =>
    refine ⟨⟨true, none, false⟩, ?_, ⟨rfl, rfl, rfl, fun values h => by cases h⟩, fun _ => rfl⟩
    rw [parseField, trimmed_of_nonblank hraw, htext]
    rfl
  | @list tokens S l hne hstar hentries hwhole =>
    have htrim : lowered (trimmed raw) = [','].intercalate tokens := by
      rw [trimmed_of_nonblank hraw, htext]
    obtain ⟨acc, hacc, hl, hmem⟩ := parseTokens_of_entries hentries ([], false)
    have hmem' (v : CronValue) : v ∈ acc.1 ↔ v ∈ S := by
      rw [hmem, or_iff_right List.not_mem_nil]
    refine ⟨⟨false, some acc.1, acc.2⟩, ?_, means_list hl hmem', fun htime => ?_⟩
    · rw [parseField_list (htrim ▸ intercalate_ne_nil hne (ne_nil_of_entries hentries))
        (htrim ▸ hstar), htrim,
        List.splitOn_intercalate ',' (comma_notMem_of_entries hentries) hne, hacc]
      rfl
    · obtain ⟨v, hv⟩ := hwhole htime
      have hne : acc.1 ≠ [] := List.ne_nil_of_mem ((hmem' v).2 hv)
      simpa [ParsedField.isEmpty] using hne

theorem fieldText_of_parseField (hraw : ∀ c ∈ raw, isSpace c = false)
    (h : parseField raw f.min f.max f.names = some p) (hwhole : Whole f p) :
    ∃ d, FieldText accepted f (lowered raw) d ∧ p.Means d := by
  by_cases hnil : lowered (trimmed raw) = []
  · rw [parseField] at h
    simp only [if_pos hnil] at h
    cases h
  · by_cases hstar : lowered (trimmed raw) = ['*']
    · have hall : FieldText accepted f (lowered raw)
          ⟨true, counted (.num f.min) (.num f.max) 1, false⟩ := by
        rw [trimmed_of_nonblank hraw] at hstar
        rw [hstar]
        exact .all
      rw [parseField] at h
      simp only [if_neg hnil, if_pos hstar] at h
      obtain rfl := Option.some.inj h
      exact ⟨_, hall, rfl, rfl, rfl, fun values h => by cases h⟩
    · rw [parseField_list hnil hstar] at h
      obtain ⟨acc, hacc, rfl⟩ := Option.map_eq_some_iff.1 h
      obtain ⟨S, l, hentries, hl, hmem⟩ :=
        entries_of_parseTokens (fun t => notMem_of_mem_splitOn) hacc
      have hmem' (v : CronValue) : v ∈ acc.1 ↔ v ∈ S := by
        rw [hmem, or_iff_right List.not_mem_nil]
      refine ⟨⟨false, S, l⟩, ?_, means_list hl hmem'⟩
      have hjoin : [','].intercalate ((lowered (trimmed raw)).splitOn ',') =
          lowered (trimmed raw) := List.intercalate_splitOn ','
      have htext : lowered (trimmed raw) = lowered raw := by rw [trimmed_of_nonblank hraw]
      rw [← htext, ← hjoin]
      rw [← hjoin] at hstar
      refine .list (List.splitOn_ne_nil _ _) hstar hentries fun htime => ?_
      have hne := hwhole htime
      obtain ⟨v, hv⟩ := List.exists_mem_of_ne_nil acc.1 fun hnil => by
        simp [ParsedField.isEmpty, hnil] at hne
      exact ⟨v, (hmem' v).1 hv⟩

end

/-! ## Expressions -/

section

variable {text : String} {raw : CronField → List Char} {d : CronField → FieldSet} {c : ParsedCron}

theorem Separated.nonblank {text : List Char} {fs : List (List Char)} (h : Separated text fs) :
    ∀ f ∈ fs, f ≠ [] ∧ ∀ c ∈ f, isSpace c = false := by
  induction h with
  | blank => exact fun f hf => absurd hf List.not_mem_nil
  | field _ hne hf _ _ ih => exact List.forall_mem_cons.2 ⟨⟨hne, hf⟩, ih⟩

theorem Fields.nonblank (h : Fields text raw) (f : CronField) :
    raw f ≠ [] ∧ ∀ c ∈ raw f, isSpace c = false := by
  refine Separated.nonblank h (raw f) ?_
  cases f <;> simp

theorem Fields.splitSpaces (h : Fields text raw) :
    splitSpaces (trimmed text.toList) =
      [raw .minute, raw .hour, raw .dom, raw .month, raw .dow] :=
  splitSpaces_trimmed h

theorem mem_sundayZero {values : List CronValue} {v : CronValue} :
    (v ∈ if .num 7 ∈ values then addValue (values.filter (· ≠ .num 7)) (.num 0) else values) ↔
      ∃ w ∈ values, (if w = .num 7 then .num 0 else w) = v := by
  split
  · next h =>
    rw [mem_addValue, List.mem_filter, decide_eq_true_eq]
    constructor
    · rintro (⟨hv, hne⟩ | rfl)
      · exact ⟨v, hv, if_neg hne⟩
      · exact ⟨.num 7, h, if_pos rfl⟩
    · rintro ⟨w, hw, rfl⟩
      by_cases heq : w = .num 7
      · exact .inr (if_pos heq)
      · rw [if_neg heq]
        exact .inl ⟨hw, heq⟩
  · next h =>
    constructor
    · intro hv
      exact ⟨v, hv, if_neg fun heq : v = .num 7 => h (heq ▸ hv)⟩
    · rintro ⟨w, hw, rfl⟩
      rwa [if_neg fun heq : w = .num 7 => h (heq ▸ hw)]

theorem ParsedField.Means.sundayZero {p : ParsedField} {d : FieldSet} (h : p.Means d) :
    p.sundayZero.Means d.sundayZero := by
  obtain ⟨hall, hlast, hnone, hvalues⟩ := h
  refine ⟨hall, hlast, ?_, fun values hmap v => ?_⟩
  · show (p.values.map _).isNone = d.all
    rw [Option.isNone_map, hnone]
  · obtain ⟨values, hsome, rfl⟩ := Option.map_eq_some_iff.1 hmap
    rw [mem_sundayZero]
    simp only [hvalues values hsome]
    rfl

theorem parseCron_of_reads (h : Reads accepted text d) :
    ∃ c, parseCron text = some c ∧ c.Means d := by
  obtain ⟨raw, hfields, hreads⟩ := h
  have hparse (f : CronField) := parseField_of_fieldText (hfields.nonblank f).2 (hreads f)
  obtain ⟨minute, hminute, hminuteMeans, hminuteWhole⟩ := hparse .minute
  obtain ⟨hour, hhour, hhourMeans, hhourWhole⟩ := hparse .hour
  obtain ⟨dom, hdom, hdomMeans, -⟩ := hparse .dom
  obtain ⟨month, hmonth, hmonthMeans, -⟩ := hparse .month
  obtain ⟨dow, hdow, hdowMeans, -⟩ := hparse .dow
  refine ⟨{ minute, hour, dom, month, dow := dow.sundayZero }, ?_, hminuteMeans, hhourMeans,
    hdomMeans, hmonthMeans, hdowMeans.sundayZero⟩
  simp only [CronField.min, CronField.max, CronField.names] at hminute hhour hdom hmonth hdow
  rw [parseCron, hfields.splitSpaces]
  simp [hminute, hhour, hdom, hmonth, hdow, hminuteWhole (.inl rfl), hhourWhole (.inr rfl)]

/-- The parser reads nothing else. -/
theorem reads_of_parseCron (h : parseCron text = some c) :
    ∃ d, Reads accepted text d ∧ c.Means d := by
  unfold parseCron at h
  split at h
  · next minute hour dom month dow hsplit =>
    obtain ⟨pminute, hminute, h⟩ := Option.bind_eq_some_iff.1 h
    obtain ⟨phour, hhour, h⟩ := Option.bind_eq_some_iff.1 h
    obtain ⟨pdom, hdom, h⟩ := Option.bind_eq_some_iff.1 h
    obtain ⟨pmonth, hmonth, h⟩ := Option.bind_eq_some_iff.1 h
    obtain ⟨pdow, hdow, h⟩ := Option.bind_eq_some_iff.1 h
    split at h
    · cases h
    · next hempty =>
      obtain rfl := Option.some.inj h
      rw [Bool.or_eq_true, not_or, Bool.not_eq_true, Bool.not_eq_true] at hempty
      have hne : minute ≠ [] := by
        rintro rfl
        cases hminute
      have hfields : Fields text (byField minute hour dom month dow) :=
        separated_of_splitSpaces hne hsplit
      have hblank (f : CronField) := (hfields.nonblank f).2
      obtain ⟨dminute, hdminute, hmminute⟩ :=
        fieldText_of_parseField (f := .minute) (hblank .minute) hminute fun _ => hempty.1
      obtain ⟨dhour, hdhour, hmhour⟩ :=
        fieldText_of_parseField (f := .hour) (hblank .hour) hhour fun _ => hempty.2
      obtain ⟨ddom, hddom, hmdom⟩ :=
        fieldText_of_parseField (f := .dom) (hblank .dom) hdom fun h => by simp at h
      obtain ⟨dmonth, hdmonth, hmmonth⟩ :=
        fieldText_of_parseField (f := .month) (hblank .month) hmonth fun h => by simp at h
      obtain ⟨ddow, hddow, hmdow⟩ :=
        fieldText_of_parseField (f := .dow) (hblank .dow) hdow fun h => by simp at h
      refine ⟨byField dminute dhour ddom dmonth ddow, ⟨_, hfields, fun f => ?_⟩, hmminute, hmhour,
        hmdom, hmmonth, hmdow.sundayZero⟩
      cases f with
      | minute => exact hdminute
      | hour => exact hdhour
      | dom => exact hddom
      | month => exact hdmonth
      | dow => exact hddow
  · cases h

end

end HeadlessErp.Cron
