import HeadlessErp.Cron.Acceptance

/-!
# The documented spelling

Where the parser keeps to the documented grammar. Numbers in decimal digits and names have the same
value in both spellings, so the parser departs from the grammar in two ways: it takes expressions with
another text for a number or with an `L` outside the days of the month, and it refuses a step that
overflows (`exactlyGrammar_iff`).
-/

namespace HeadlessErp.Cron

/-- Decimal digits. -/
def IsDigits (t : List Char) : Prop := t ≠ [] ∧ ∀ c ∈ t, isDigit c = true

/-- An entry with a number that is not spelled as documented, or an `L` in the wrong field. -/
def LooseToken (f : CronField) (token : List Char) : Prop :=
  if token = ['l'] then f ≠ .dom
  else
    (∃ u ∈ (cutAt '/' token).2, ¬ IsDigits u) ∨
      ((cutAt '/' token).1 ≠ ['*'] ∧
        ((∀ n, ¬ IsNumeral f.names (cutAt '-' (cutAt '/' token).1).1 n) ∨
          ∃ u ∈ (cutAt '-' (cutAt '/' token).1).2, ∀ n, ¬ IsNumeral f.names u n))

/-- An entry with a step that overflows. -/
def LongStep (_ : CronField) (token : List Char) : Prop :=
  ∃ u ∈ (cutAt '/' token).2, IsDigits u ∧ Binary64.overflow ≤ Decimal.value u

/-- Some entry of the expression. -/
def HasToken (P : CronField → List Char → Prop) (text : String) : Prop :=
  ∃ raw, Fields text raw ∧ ∃ f, ∃ token ∈ (lowered (raw f)).splitOn ',', P f token

/-- The parser accepts the text just when the grammar does, with the sets that it denotes. -/
def ExactlyGrammar (text : String) : Prop :=
  ((parseCron text).isSome = true ↔ ∃ d, Reads documented text d) ∧
    ∀ c d, parseCron text = some c → Reads documented text d → c.Means d

/-! ## Numbers -/

section

variable {f : CronField} {t u : List Char} {n k : ℤ}

theorem lowerChar_digit {c : Char} (h : isDigit c = true) : lowerChar c = [c] := by
  simp only [isDigit, Bool.and_eq_true, decide_eq_true_eq, Char.le_def, UInt32.le_iff_toNat_le] at h
  have h0 : '0'.val.toNat = 48 := rfl
  have h9 : '9'.val.toNat = 57 := rfl
  have hA : 'A'.val.toNat = 65 := rfl
  have hc : c.toNat = c.val.toNat := rfl
  have hlower : c.toLower = c := by
    unfold Char.toLower
    refine dif_neg ?_
    simp only [ge_iff_le, UInt32.le_iff_toNat_le]
    omega
  rw [lowerChar, if_neg (by omega), if_neg (by omega), hlower]

theorem lowered_digits (h : ∀ c ∈ t, isDigit c = true) : lowered t = t := by
  induction t with
  | nil => rfl
  | cons c cs ih =>
    rw [lowered, List.flatMap_cons, lowerChar_digit (h c List.mem_cons_self), ← lowered,
      ih fun d hd => h d (List.mem_cons_of_mem _ hd)]
    rfl

/-- A character that is not a digit. -/
def hasLetter (name : String) : Bool := name.toList.any fun c => !isDigit c

theorem ne_of_hasLetter {name : String} (hname : hasLetter name = true)
    (h : ∀ c ∈ t, isDigit c = true) : String.ofList t ≠ name := by
  rintro rfl
  obtain ⟨c, hc, hdigit⟩ := List.any_eq_true.1 hname
  rw [String.toList_ofList] at hc
  rw [h c hc] at hdigit
  cases hdigit

/-- No name is written in digits. -/
theorem memberOf_digits {names : CronNames} (hnames : (names.all (hasLetter ·.1)) = true)
    (h : ∀ c ∈ t, isDigit c = true) : memberOf names (String.ofList t) = none := by
  have hlookup : names.lookup (String.ofList t) = none := by
    rw [List.lookup_eq_none_iff]
    intro e he
    exact bne_iff_ne.2 (ne_of_hasLetter (List.all_eq_true.1 hnames e he) h)
  have hinherited : (inheritedNames.all hasLetter) = true := by rfl
  have hcontains : inheritedNames.contains (String.ofList t) = false := by
    rw [Bool.eq_false_iff]
    intro hmem
    have hname := List.all_eq_true.1 hinherited _ (List.contains_iff_mem.1 hmem)
    exact ne_of_hasLetter hname h rfl
  rw [memberOf, hlookup, hcontains]
  rfl

theorem valueOf_digits (h : IsDigits t) : valueOf t f.names = (integerOf t).map .num := by
  have hmember : f.names.bind (memberOf · (String.ofList t)) = none := by
    cases f with
    | minute | hour | dom => rfl
    | month => exact memberOf_digits rfl h.2
    | dow => exact memberOf_digits rfl h.2
  rw [valueOf, trimmed_digits h.2, lowered_digits h.2]
  simp only [hmember]

/-- The names of a field have their numbers as values. -/
theorem valueOf_name {table : CronNames} (hnames : table ∈ f.names)
    (h : (String.ofList t, n) ∈ table) : valueOf t f.names = some (.num n) := by
  have hall : (table.all fun e =>
      decide (valueOf e.1.toList f.names = some (.num e.2))) = true := by
    cases f with
    | minute | hour | dom => cases hnames
    | month =>
      obtain rfl := Option.some.inj hnames
      rfl
    | dow =>
      obtain rfl := Option.some.inj hnames
      rfl
  have hvalue := of_decide_eq_true (List.all_eq_true.1 hall _ h)
  rwa [String.toList_ofList] at hvalue

/-- The characters between which an expression is cut. -/
def isMark (c : Char) : Bool := c == '/' || c == '-' || c == ','

theorem isMark_digit {c : Char} (h : isDigit c = true) : isMark c = false := by
  have hne (m : Char) (hm : isDigit m = false) : (c == m) = false := by
    rw [beq_eq_false_iff_ne]
    rintro rfl
    rw [h] at hm
    cases hm
  simp [isMark, hne '/' rfl, hne '-' rfl, hne ',' rfl]

theorem IsNumeral.plain (h : IsNumeral f.names t n) : ∀ c ∈ t, isMark c = false := by
  rcases h with ⟨-, hdigits, -⟩ | ⟨table, hnames, hmem⟩
  · exact fun c hc => isMark_digit (hdigits c hc)
  · have hall : (table.all fun e => e.1.toList.all fun c => !isMark c) = true := by
      cases f with
      | minute | hour | dom => cases hnames
      | month =>
        obtain rfl := Option.some.inj hnames
        rfl
      | dow =>
        obtain rfl := Option.some.inj hnames
        rfl
    intro c hc
    have hname := List.all_eq_true.1 (List.all_eq_true.1 hall _ hmem) c
    rw [String.toList_ofList] at hname
    simpa using hname hc

/-- A numeral has its value, as long as that is below 2^53. -/
theorem IsNumeral.valueOf_eq (h : IsNumeral f.names t n) (hsmall : n < 2 ^ 53) :
    valueOf t f.names = some (.num n) := by
  rcases h with ⟨hne, hdigits, rfl⟩ | ⟨table, hnames, hmem⟩
  · rw [valueOf_digits ⟨hne, hdigits⟩, integerOf_digits hne hdigits (by exact_mod_cast hsmall)]
    rfl
  · exact valueOf_name hnames hmem

/-- Beyond, a value of it is not smaller. -/
theorem IsNumeral.large (h : IsNumeral f.names t n) (hlarge : 2 ^ 53 ≤ n) {v : CronValue}
    (hv : valueOf t f.names = some v) : ∃ m : ℤ, 2 ^ 53 ≤ m ∧ v = .num m := by
  rcases h with ⟨hne, hdigits, rfl⟩ | ⟨table, hnames, hmem⟩
  · rw [valueOf_digits ⟨hne, hdigits⟩] at hv
    have hlarge : 2 ^ 53 ≤ Decimal.value t := by exact_mod_cast hlarge
    rcases Nat.lt_or_ge (Decimal.value t) Binary64.overflow with hlt | hge
    · obtain ⟨m, hm, hinteger⟩ := integerOf_large hne hdigits hlarge hlt
      rw [hinteger] at hv
      exact ⟨m, by exact_mod_cast hm, (Option.some.inj hv).symm⟩
    · rw [integerOf_overflow hne hdigits hge] at hv
      cases hv
  · rw [valueOf_name hnames hmem] at hv
    exact ⟨n, hlarge, (Option.some.inj hv).symm⟩

theorem stepOf_digits (h : IsDigits t) (hsmall : Decimal.value t < 2 ^ 53)
    (hpos : 1 ≤ Decimal.value t) : stepOf t = some (Decimal.value t : ℤ) := by
  rw [stepOf, integerOf_digits h.1 h.2 hsmall, Option.filter_some]
  exact if_pos (decide_eq_true (by exact_mod_cast hpos))

end

/-! ## Entries -/

section

variable {s : Spelling} {f : CronField} {t u base token : List Char} {v lo hi : CronValue}
  {n k k' : ℤ} {S : Set CronValue} {C : ℤ → Set CronValue}

theorem field_max_lt (f : CronField) : f.max < 2 ^ 53 := by
  cases f <;> decide

theorem field_min_ge (f : CronField) : 0 ≤ f.min := by
  cases f <;> decide

/-- A value within the bounds of its field is small. -/
theorem lt_of_max (h : (CronValue.num f.max).lt (.num n) = false) : n < 2 ^ 53 := by
  have hle : ¬ f.max < n := of_decide_eq_false h
  have hmax := field_max_lt f
  omega

theorem le_of_lt_eq_false {a b : ℤ} (h : (CronValue.num b).lt (.num a) = false) : a ≤ b :=
  not_lt.1 (of_decide_eq_false h)

/-- Large steps leave the first value alone. -/
theorem counted_large {lo : CronValue} {b : ℤ} (hlow : lo.lt (.num f.min) = false)
    (hb : b < 2 ^ 53) (hk : 2 ^ 53 ≤ k) :
    counted lo (.num b) k = counted lo (.num b) (2 ^ 53) := by
  ext v
  have hiff {a n : ℤ} (ha : lo = .num a) (hle : a ≤ n) (hn : n ≤ b) :
      k ∣ n - a ↔ 2 ^ 53 ∣ n - a := by
    have hmin := field_min_ge f
    rw [ha] at hlow
    have hge := le_of_lt_eq_false hlow
    constructor
    · intro h
      have hzero : n - a = 0 := Int.eq_zero_of_dvd_of_nonneg_of_lt (by omega) (by omega) h
      exact ⟨0, by omega⟩
    · intro h
      have hzero : n - a = 0 := Int.eq_zero_of_dvd_of_nonneg_of_lt (by omega) (by omega) h
      exact ⟨0, by omega⟩
  constructor
  · rintro ⟨a, b', n, ha, hb', hv, hle, hn, hdvd⟩
    obtain rfl := CronValue.num.inj hb'
    exact ⟨a, b, n, ha, rfl, hv, hle, hn, (hiff ha hle hn).1 hdvd⟩
  · rintro ⟨a, b', n, ha, hb', hv, hle, hn, hdvd⟩
    obtain rfl := CronValue.num.inj hb'
    exact ⟨a, b, n, ha, rfl, hv, hle, hn, (hiff ha hle hn).2 hdvd⟩

theorem Base.large (h : Base s f base S C) (hk : 2 ^ 53 ≤ k) : C k = C (2 ^ 53) := by
  cases h with
  | star => exact counted_large (decide_eq_false (lt_irrefl _)) (field_max_lt f) hk
  | value _ hlow _ => exact counted_large hlow (field_max_lt f) hk
  | @range _ _ _ hi _ _ hlow hhigh _ =>
    cases hi with
    | num b => exact counted_large hlow (lt_of_max hhigh) hk
    | inherited name =>
      ext v
      constructor
      · rintro ⟨a, b, n, -, hb, -⟩
        cases hb
      · rintro ⟨a, b, n, -, hb, -⟩
        cases hb

theorem notMem_of_plain {mark : Char} (hmark : isMark mark = true)
    (h : ∀ c ∈ t, isMark c = false) : mark ∉ t := by
  intro hmem
  rw [h mark hmem] at hmark
  cases hmark

/-- The parser reads what stands before a step as documented. -/
theorem Base.accepted_of_documented (h : Base documented f base S C) : Base accepted f base S C := by
  cases h with
  | star => exact .star
  | value hnumber hlow hhigh =>
    obtain ⟨n, rfl, hn⟩ := hnumber
    exact .value ⟨notMem_of_plain rfl hn.plain, notMem_of_plain rfl hn.plain,
      hn.valueOf_eq (lt_of_max hhigh)⟩ hlow hhigh
  | range hnumber hupper hlow hhigh hle =>
    obtain ⟨n, rfl, hn⟩ := hnumber
    obtain ⟨m, rfl, hm⟩ := hupper
    have hsmall := lt_of_max hhigh
    have hnm := le_of_lt_eq_false hle
    exact .range ⟨notMem_of_plain rfl hn.plain, notMem_of_plain rfl hn.plain,
      hn.valueOf_eq (by omega)⟩ ⟨notMem_of_plain rfl hm.plain, hm.valueOf_eq hsmall⟩ hlow hhigh hle

/-- A numeral within the bounds is read as documented. -/
theorem documented_of_valueOf (hn : IsNumeral f.names t n) (hv : valueOf t f.names = some v)
    (hsmall : ∀ m, v = .num m → m < 2 ^ 53) : documented.number f.names t v := by
  rcases lt_or_ge n (2 ^ 53) with hlt | hge
  · rw [hn.valueOf_eq hlt] at hv
    exact ⟨n, (Option.some.inj hv).symm, hn⟩
  · obtain ⟨m, hm, rfl⟩ := hn.large hge hv
    have hlt := hsmall m rfl
    omega

/-- So is what stands before a step, if its numbers are numerals. -/
theorem Base.documented_of_accepted (h : Base accepted f base S C)
    (hlow : base ≠ ['*'] → ∃ n, IsNumeral f.names (cutAt '-' base).1 n)
    (hhigh : base ≠ ['*'] → ∀ u ∈ (cutAt '-' base).2, ∃ n, IsNumeral f.names u n) :
    Base documented f base S C := by
  cases h with
  | star => exact .star
  | @value _ v hnumber hmin hmax =>
    obtain ⟨-, hdash, hv⟩ := hnumber
    have hstar : base ≠ ['*'] := by
      rintro rfl
      rw [valueOf_star] at hv
      cases hv
    obtain ⟨n, hn⟩ := hlow hstar
    rw [cutAt_of_notMem hdash] at hn
    have hsmall (m : ℤ) (hm : v = .num m) : m < 2 ^ 53 := lt_of_max (hm ▸ hmax)
    exact .value (documented_of_valueOf hn hv hsmall) hmin hmax
  | @range low high lo hi hnumber hupper hmin hmax hle =>
    obtain ⟨-, hdash, hlo⟩ := hnumber
    obtain ⟨-, hhi⟩ := hupper
    have hstar : low ++ '-' :: high ≠ ['*'] := by
      intro heq
      have hmem : '-' ∈ ['*'] := heq ▸ List.mem_append_right _ List.mem_cons_self
      cases List.mem_singleton.1 hmem
    rw [cutAt_append hdash] at hlow hhigh
    obtain ⟨n, hn⟩ := hlow hstar
    obtain ⟨m, hm⟩ := hhigh hstar high rfl
    have hupper : documented.upper f.names high hi :=
      documented_of_valueOf hm hhi fun b hb => lt_of_max (hb ▸ hmax)
    obtain ⟨b, rfl, hb⟩ := hupper
    have hsmall (a : ℤ) (ha : lo = .num a) : a < 2 ^ 53 :=
      lt_of_le_of_lt (le_of_lt_eq_false (ha ▸ hle)) (lt_of_max hmax)
    exact .range (documented_of_valueOf hn hlo hsmall) ⟨b, rfl, hb⟩ hmin hmax hle

/-- A step in digits, as the parser reads it. -/
theorem stepOf_cases (h : IsDigits u) :
    stepOf u = some (Decimal.value u : ℤ) ∧ 1 ≤ Decimal.value u ∨
      2 ^ 53 ≤ Decimal.value u ∧ (∃ m, stepOf u = some m ∧ 2 ^ 53 ≤ m) ∨
        stepOf u = none ∧ (Decimal.value u = 0 ∨ Binary64.overflow ≤ Decimal.value u) := by
  rcases Nat.lt_or_ge (Decimal.value u) (2 ^ 53) with hsmall | hlarge
  · rcases Nat.eq_zero_or_pos (Decimal.value u) with hzero | hpos
    · refine .inr (.inr ⟨?_, .inl hzero⟩)
      rw [stepOf, integerOf_digits h.1 h.2 hsmall, hzero]
      rfl
    · exact .inl ⟨stepOf_digits h hsmall hpos, hpos⟩
  · rcases Nat.lt_or_ge (Decimal.value u) Binary64.overflow with hlt | hge
    · obtain ⟨m, hm, hinteger⟩ := integerOf_large h.1 h.2 hlarge hlt
      refine .inr (.inl ⟨hlarge, m, ?_, by exact_mod_cast hm⟩)
      rw [stepOf, hinteger, Option.filter_some]
      exact if_pos (decide_eq_true (by exact_mod_cast le_trans (by decide) hm))
    · refine .inr (.inr ⟨?_, .inr hge⟩)
      rw [stepOf, integerOf_overflow h.1 h.2 hge]
      rfl

theorem Base.documented_slash (h : Base documented f base S C) : '/' ∉ base :=
  h.accepted_of_documented.slash_notMem

theorem Entry.accepted_of_documented (h : Entry documented f token S) (hlong : ¬ LongStep f token) :
    Entry accepted f token S := by
  cases h with
  | plain hbase => exact .plain hbase.accepted_of_documented
  | @step t u S C k hbase hstep =>
    obtain ⟨hne, hdigits, rfl, hpos⟩ := hstep
    rcases stepOf_cases ⟨hne, hdigits⟩ with ⟨hstep, -⟩ | ⟨hlarge, m, hstep, hm⟩ | ⟨-, hbad⟩
    · exact .step hbase.accepted_of_documented hstep
    · have hsame : C (Decimal.value u : ℤ) = C m := by
        rw [hbase.large (by exact_mod_cast hlarge), hbase.large hm]
      rw [hsame]
      exact .step hbase.accepted_of_documented hstep
    · rcases hbad with hzero | hover
      · rw [hzero] at hpos
        cases hpos
      · refine absurd ⟨u, ?_, ⟨hne, hdigits⟩, hover⟩ hlong
        rw [cutAt_append hbase.documented_slash]
        rfl

theorem Entry.documented_of_accepted (h : Entry accepted f token S) (hloose : ¬ LooseToken f token) :
    Entry documented f token S := by
  have hlast : token ≠ ['l'] := by
    rintro rfl
    exact entry_last h
  rw [LooseToken, if_neg hlast] at hloose
  push Not at hloose
  obtain ⟨hdigits, hnumbers⟩ := hloose
  cases h with
  | plain hbase =>
    rw [cutAt_of_notMem hbase.slash_notMem] at hnumbers
    exact .plain (hbase.documented_of_accepted (fun hstar => (hnumbers hstar).1)
      fun hstar => (hnumbers hstar).2)
  | @step t u S C k hbase hstep =>
    rw [cutAt_append hbase.slash_notMem] at hnumbers hdigits
    have hbase' := hbase.documented_of_accepted (fun hstar => (hnumbers hstar).1)
      fun hstar => (hnumbers hstar).2
    have hu := hdigits u rfl
    replace hstep : stepOf u = some k := hstep
    rcases stepOf_cases hu with ⟨hvalue, hpos⟩ | ⟨hlarge, m, hvalue, hm⟩ | ⟨hvalue, -⟩
    · rw [hvalue] at hstep
      obtain rfl := Option.some.inj hstep
      exact .step hbase' ⟨hu.1, hu.2, rfl, by exact_mod_cast hpos⟩
    · rw [hvalue] at hstep
      obtain rfl := Option.some.inj hstep
      have hlarge' : (2 : ℤ) ^ 53 ≤ Decimal.value u := by exact_mod_cast hlarge
      have hsame : C m = C (Decimal.value u : ℤ) := by
        rw [hbase.large hm, hbase.large hlarge']
      rw [hsame]
      exact .step hbase' ⟨hu.1, hu.2, rfl, le_trans (by decide) hlarge'⟩
    · rw [hvalue] at hstep
      cases hstep

/-- An entry of the grammar is neither loose nor empty. -/
theorem Base.numerals (h : Base documented f base S C) (hstar : base ≠ ['*']) :
    (∃ n, IsNumeral f.names (cutAt '-' base).1 n) ∧
      ∀ u ∈ (cutAt '-' base).2, ∃ n, IsNumeral f.names u n := by
  cases h with
  | star => exact absurd rfl hstar
  | value hnumber =>
    obtain ⟨n, -, hn⟩ := hnumber
    rw [cutAt_of_notMem (notMem_of_plain rfl hn.plain)]
    exact ⟨⟨n, hn⟩, fun u hu => by cases hu⟩
  | range hnumber hupper =>
    obtain ⟨n, -, hn⟩ := hnumber
    obtain ⟨m, -, hm⟩ := hupper
    rw [cutAt_append (notMem_of_plain rfl hn.plain)]
    refine ⟨⟨n, hn⟩, fun u hu => ?_⟩
    obtain rfl := Option.some.inj hu
    exact ⟨m, hm⟩

theorem Base.nonempty (h : Base documented f base S C) : S.Nonempty ∧ ∀ k, (C k).Nonempty := by
  cases h with
  | star =>
    have hmem (k : ℤ) : CronValue.num f.min ∈ counted (.num f.min) (.num f.max) k := by
      refine ⟨_, _, _, rfl, rfl, rfl, le_rfl, ?_, by simp⟩
      cases f <;> decide
    exact ⟨⟨_, hmem 1⟩, fun k => ⟨_, hmem k⟩⟩
  | value hnumber _ hmax =>
    obtain ⟨n, rfl, -⟩ := hnumber
    exact ⟨Set.singleton_nonempty _, fun k => ⟨.num n, _, _, _, rfl, rfl, rfl, le_rfl,
      le_of_lt_eq_false hmax, by simp⟩⟩
  | range hnumber hupper _ _ hle =>
    obtain ⟨n, rfl, -⟩ := hnumber
    obtain ⟨m, rfl, -⟩ := hupper
    have hmem (k : ℤ) : CronValue.num n ∈ counted (.num n) (.num m) k :=
      ⟨_, _, _, rfl, rfl, rfl, le_rfl, le_of_lt_eq_false hle, by simp⟩
    exact ⟨⟨_, hmem 1⟩, fun k => ⟨_, hmem k⟩⟩

theorem Entry.nonempty (h : Entry documented f token S) : S.Nonempty := by
  cases h with
  | plain hbase => exact hbase.nonempty.1
  | step hbase => exact hbase.nonempty.2 _

theorem notLong_last (f : CronField) : ¬ LongStep f ['l'] := by
  rintro ⟨u, hu, -⟩
  cases hu

theorem Entry.notLoose (h : Entry documented f token S) : ¬ LooseToken f token := by
  have hlast : token ≠ ['l'] := by
    rintro rfl
    exact entry_last (h.accepted_of_documented (notLong_last f))
  rw [LooseToken, if_neg hlast]
  push Not
  cases h with
  | plain hbase =>
    rw [cutAt_of_notMem hbase.documented_slash]
    exact ⟨fun u hu => (by cases hu), hbase.numerals⟩
  | step hbase hstep =>
    rw [cutAt_append hbase.documented_slash]
    refine ⟨fun u hu => ?_, hbase.numerals⟩
    obtain rfl := Option.some.inj hu
    exact ⟨hstep.1, hstep.2.1⟩

theorem Entry.notLong (h : Entry accepted f token S) : ¬ LongStep f token := by
  rintro ⟨u, hu, hdigits, hlong⟩
  cases h with
  | plain hbase =>
    rw [cutAt_of_notMem hbase.slash_notMem] at hu
    cases hu
  | @step t u' _ _ k hbase hstep =>
    rw [cutAt_append hbase.slash_notMem] at hu
    obtain rfl : u' = u := Option.some.inj hu
    have hnone : stepOf u' = none := by
      rw [stepOf, integerOf_overflow hdigits.1 hdigits.2 hlong]
      rfl
    replace hstep : stepOf u' = some k := hstep
    rw [hnone] at hstep
    cases hstep

end

/-! ## Lists and fields -/

section

variable {f : CronField} {tokens : List (List Char)} {t : List Char} {S : Set CronValue} {l : Bool}
  {d : FieldSet}

theorem Entries.accepted_of_documented (h : Entries documented f tokens S l)
    (hlong : ∀ token ∈ tokens, ¬ LongStep f token) : Entries accepted f tokens S l := by
  induction h with
  | nil => exact .nil
  | entry hne hcomma hentry _ ih =>
    rw [List.forall_mem_cons] at hlong
    exact .entry hne hcomma (hentry.accepted_of_documented hlong.1) (ih hlong.2)
  | last hf _ ih =>
    rw [List.forall_mem_cons] at hlong
    refine .last ?_ (ih hlong.2)
    rw [show f = .dom from hf]
    rfl

theorem Entries.documented_of_accepted (h : Entries accepted f tokens S l)
    (hloose : ∀ token ∈ tokens, ¬ LooseToken f token) : Entries documented f tokens S l := by
  induction h with
  | nil => exact .nil
  | entry hne hcomma hentry _ ih =>
    rw [List.forall_mem_cons] at hloose
    exact .entry hne hcomma (hentry.documented_of_accepted hloose.1) (ih hloose.2)
  | last _ _ ih =>
    rw [List.forall_mem_cons] at hloose
    refine .last ?_ (ih hloose.2)
    have hdom := hloose.1
    rw [LooseToken, if_pos rfl, not_not] at hdom
    exact hdom

theorem Entries.notLoose (h : Entries documented f tokens S l) :
    ∀ token ∈ tokens, ¬ LooseToken f token := by
  induction h with
  | nil => exact fun token htoken => absurd htoken List.not_mem_nil
  | entry _ _ hentry _ ih => exact List.forall_mem_cons.2 ⟨hentry.notLoose, ih⟩
  | last hf _ ih =>
    refine List.forall_mem_cons.2 ⟨?_, ih⟩
    rw [LooseToken, if_pos rfl, not_not]
    exact hf

theorem Entries.notLong (h : Entries accepted f tokens S l) :
    ∀ token ∈ tokens, ¬ LongStep f token := by
  induction h with
  | nil => exact fun token htoken => absurd htoken List.not_mem_nil
  | entry _ _ hentry _ ih => exact List.forall_mem_cons.2 ⟨hentry.notLong, ih⟩
  | last _ _ ih => exact List.forall_mem_cons.2 ⟨notLong_last f, ih⟩

theorem Entries.comma_notMem {s : Spelling} (h : Entries s f tokens S l) :
    ∀ t ∈ tokens, ',' ∉ t := by
  induction h with
  | nil => exact fun t ht => absurd ht List.not_mem_nil
  | entry _ hcomma _ _ ih => exact List.forall_mem_cons.2 ⟨hcomma, ih⟩
  | last _ _ ih => exact List.forall_mem_cons.2 ⟨by decide, ih⟩

/-- A documented list of minutes or hours has values. -/
theorem Entries.nonempty (h : Entries documented f tokens S l) (hne : tokens ≠ [])
    (hf : f ≠ .dom) : S.Nonempty := by
  cases h with
  | nil => exact absurd rfl hne
  | entry _ _ hentry => exact hentry.nonempty.inl
  | last hdom => exact absurd hdom hf

theorem FieldText.accepted_of_documented (h : FieldText documented f t d)
    (hlong : ∀ token ∈ t.splitOn ',', ¬ LongStep f token) : FieldText accepted f t d := by
  cases h with
  | all => exact .all
  | list hne hstar hentries _ =>
    rw [List.splitOn_intercalate ',' hentries.comma_notMem hne] at hlong
    refine .list hne hstar (hentries.accepted_of_documented hlong) fun htime => ?_
    refine hentries.nonempty hne ?_
    rintro rfl
    simp at htime

theorem FieldText.documented_of_accepted (h : FieldText accepted f t d)
    (hloose : ∀ token ∈ t.splitOn ',', ¬ LooseToken f token) : FieldText documented f t d := by
  cases h with
  | all => exact .all
  | list hne hstar hentries _ =>
    rw [List.splitOn_intercalate ',' hentries.comma_notMem hne] at hloose
    exact .list hne hstar (hentries.documented_of_accepted hloose) trivial

theorem FieldText.notLoose (h : FieldText documented f t d) :
    ∀ token ∈ t.splitOn ',', ¬ LooseToken f token := by
  cases h with
  | all =>
    have hstar : Entry documented f ['*'] _ := .plain .star
    rw [List.splitOn_eq_singleton (by decide)]
    exact List.forall_mem_singleton.2 hstar.notLoose
  | list hne _ hentries _ =>
    rw [List.splitOn_intercalate ',' hentries.comma_notMem hne]
    exact hentries.notLoose

theorem FieldText.notLong (h : FieldText accepted f t d) :
    ∀ token ∈ t.splitOn ',', ¬ LongStep f token := by
  cases h with
  | all =>
    have hstar : Entry accepted f ['*'] _ := .plain .star
    rw [List.splitOn_eq_singleton (by decide)]
    exact List.forall_mem_singleton.2 hstar.notLong
  | list hne _ hentries _ =>
    rw [List.splitOn_intercalate ',' hentries.comma_notMem hne]
    exact hentries.notLong

end

/-! ## Expressions -/

section

variable {text : String} {raw raw' : CronField → List Char} {d : CronField → FieldSet}

theorem Fields.unique (h : Fields text raw) (h' : Fields text raw') : raw = raw' := by
  have hsame := h.splitSpaces
  rw [h'.splitSpaces] at hsame
  simp only [List.cons.injEq, and_true] at hsame
  obtain ⟨hminute, hhour, hdom, hmonth, hdow⟩ := hsame
  funext f
  cases f with
  | minute => exact hminute.symm
  | hour => exact hhour.symm
  | dom => exact hdom.symm
  | month => exact hmonth.symm
  | dow => exact hdow.symm

theorem Reads.accepted_of_documented (h : Reads documented text d)
    (hlong : ¬ HasToken LongStep text) : Reads accepted text d := by
  obtain ⟨raw, hfields, hreads⟩ := h
  exact ⟨raw, hfields, fun f => (hreads f).accepted_of_documented
    fun token htoken hstep => hlong ⟨raw, hfields, f, token, htoken, hstep⟩⟩

theorem Reads.documented_of_accepted (h : Reads accepted text d)
    (hloose : ¬ HasToken LooseToken text) : Reads documented text d := by
  obtain ⟨raw, hfields, hreads⟩ := h
  exact ⟨raw, hfields, fun f => (hreads f).documented_of_accepted
    fun token htoken hstep => hloose ⟨raw, hfields, f, token, htoken, hstep⟩⟩

theorem Reads.notLoose (h : Reads documented text d) : ¬ HasToken LooseToken text := by
  obtain ⟨raw, hfields, hreads⟩ := h
  rintro ⟨raw', hfields', f, token, htoken, hloose⟩
  obtain rfl := hfields.unique hfields'
  exact (hreads f).notLoose token htoken hloose

theorem Reads.notLong (h : Reads accepted text d) : ¬ HasToken LongStep text := by
  obtain ⟨raw, hfields, hreads⟩ := h
  rintro ⟨raw', hfields', f, token, htoken, hlong⟩
  obtain rfl := hfields.unique hfields'
  exact (hreads f).notLong token htoken hlong

/-- The parser keeps to the documented grammar unless an expression it takes has a loose entry, or
one that the grammar takes has a step that overflows. -/
theorem exactlyGrammar_iff (text : String) :
    ExactlyGrammar text ↔
      ((∃ d, Reads accepted text d) → ¬ HasToken LooseToken text) ∧
        ((∃ d, Reads documented text d) → ¬ HasToken LongStep text) := by
  constructor
  · rintro ⟨haccepts, -⟩
    constructor
    · rintro ⟨d, hreads⟩
      obtain ⟨c, hc, -⟩ := parseCron_of_reads hreads
      obtain ⟨d', hdocumented⟩ := haccepts.1 (Option.isSome_iff_exists.2 ⟨c, hc⟩)
      exact hdocumented.notLoose
    · intro hreads
      obtain ⟨c, hc⟩ := Option.isSome_iff_exists.1 (haccepts.2 hreads)
      obtain ⟨d', haccepted, -⟩ := reads_of_parseCron hc
      exact haccepted.notLong
  · rintro ⟨hloose, hlong⟩
    refine ⟨⟨fun hsome => ?_, fun hreads => ?_⟩, fun c d hc hreads => ?_⟩
    · obtain ⟨c, hc⟩ := Option.isSome_iff_exists.1 hsome
      obtain ⟨d, haccepted, -⟩ := reads_of_parseCron hc
      exact ⟨d, haccepted.documented_of_accepted (hloose ⟨d, haccepted⟩)⟩
    · obtain ⟨d, hdocumented⟩ := hreads
      obtain ⟨c, hc, -⟩ :=
        parseCron_of_reads (hdocumented.accepted_of_documented (hlong ⟨d, hdocumented⟩))
      exact Option.isSome_iff_exists.2 ⟨c, hc⟩
    · obtain ⟨c', hc', hmeans⟩ :=
        parseCron_of_reads (hreads.accepted_of_documented (hlong ⟨d, hreads⟩))
      rw [hc] at hc'
      exact Option.some.inj hc' ▸ hmeans

end

/-! ## An `L` among the minutes -/

theorem fields_lastMinute :
    Fields "5,L * * * *" (byField ['5', ',', 'L'] ['*'] ['*'] ['*'] ['*']) :=
  separated_of_splitSpaces (by decide) rfl

theorem lastMinute_accepted (f : CronField) :
    FieldText accepted f (lowered (byField ['5', ',', 'L'] ['*'] ['*'] ['*'] ['*'] f))
      (if f = .minute then ⟨false, {.num 5} ∪ ∅, true⟩
        else ⟨true, counted (.num f.min) (.num f.max) 1, false⟩) := by
  cases f with
  | minute =>
    have hfive : IsNumeral (CronField.names .minute) ['5'] 5 :=
      .inl ⟨by decide, List.forall_mem_singleton.2 rfl, rfl⟩
    have hentry : Entry accepted .minute ['5'] {.num 5} :=
      .plain (.value ⟨by decide, by decide, hfive.valueOf_eq (by decide)⟩ rfl rfl)
    have hjoin : [','].intercalate [['5'], ['l']] = ['5', ',', 'l'] := rfl
    have hentries : Entries accepted .minute [['5'], ['l']] ({.num 5} ∪ ∅) true :=
      .entry (by decide) (by decide) hentry (.last rfl .nil)
    have hlist := FieldText.list (by decide) (by decide) hentries fun _ => ⟨.num 5, .inl rfl⟩
    rw [hjoin] at hlist
    exact hlist
  | hour | dom | month | dow => exact .all

/-- `5,L` is taken as a list of minutes. -/
theorem lastMinute_not_exact : ¬ ∀ text : String, ExactlyGrammar text := by
  intro h
  have hreads : Reads accepted "5,L * * * *" _ := ⟨_, fields_lastMinute, lastMinute_accepted⟩
  refine ((exactlyGrammar_iff _).1 (h _)).1 ⟨_, hreads⟩
    ⟨_, fields_lastMinute, .minute, ['l'], ?_, ?_⟩
  · decide
  · rw [LooseToken, if_pos rfl]
    decide

end HeadlessErp.Cron
