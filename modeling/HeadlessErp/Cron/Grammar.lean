import HeadlessErp.Cron.Fields
import Mathlib.Data.Set.Basic

/-!
# The grammar of cron expressions

The grammar that the comment of `packages/scheduler/src/cron.ts` documents, with the sets it
denotes, over two ways to spell its numbers: as it documents them, and as the parser takes them.
-/

namespace HeadlessErp.Cron

/-! ## Texts apart by blanks -/

/-- Texts without blanks, with blanks between and around them. -/
inductive Separated : List Char → List (List Char) → Prop
  | blank {gap : List Char} : (∀ c ∈ gap, isSpace c = true) → Separated gap []
  | field {gap f rest : List Char} {fs : List (List Char)} : (∀ c ∈ gap, isSpace c = true) →
      f ≠ [] → (∀ c ∈ f, isSpace c = false) → (∀ c ∈ rest.head?, isSpace c = true) →
      Separated rest fs → Separated (gap ++ (f ++ rest)) (f :: fs)

section

variable {text gap f rest : List Char} {fs : List (List Char)}

/-- `text.trimEnd()`. -/
def trimmedEnd (text : List Char) : List Char := (text.reverse.dropWhile isSpace).reverse

theorem trimmedEnd_blank (h : ∀ c ∈ text, isSpace c = true) : trimmedEnd text = [] := by
  rw [trimmedEnd, List.dropWhile_eq_nil_iff.2 fun c hc => h c (List.mem_reverse.1 hc)]
  rfl

theorem trimmedEnd_append_of_ne (h : trimmedEnd rest ≠ []) :
    trimmedEnd (text ++ rest) = text ++ trimmedEnd rest := by
  have hdrop : ¬ (rest.reverse.dropWhile isSpace).isEmpty = true := by
    intro hempty
    rw [trimmedEnd, List.isEmpty_iff.1 hempty] at h
    exact h rfl
  rw [trimmedEnd, trimmedEnd, List.reverse_append, List.dropWhile_append, if_neg hdrop,
    List.reverse_append, List.reverse_reverse]

/-- A text without blanks stays in front of what is trimmed. -/
theorem trimmedEnd_append (hne : f ≠ []) (hf : ∀ c ∈ f, isSpace c = false) :
    trimmedEnd (f ++ rest) = f ++ trimmedEnd rest := by
  by_cases h : trimmedEnd rest = []
  · have hdrop : rest.reverse.dropWhile isSpace = [] := List.reverse_eq_nil_iff.1 h
    have hkeep : f.reverse.dropWhile isSpace = f.reverse := by
      cases hrev : f.reverse with
      | nil => exact absurd (List.reverse_eq_nil_iff.1 hrev) hne
      | cons c cs =>
        refine List.dropWhile_cons_of_neg ?_
        rw [hf c (List.mem_reverse.1 (hrev ▸ List.mem_cons_self))]
        exact Bool.false_ne_true
    rw [h, trimmedEnd, List.reverse_append, List.dropWhile_append, hdrop,
      if_pos List.isEmpty_nil, hkeep, List.reverse_reverse, List.append_nil]
  · exact trimmedEnd_append_of_ne h

theorem trimmed_eq : trimmed text = trimmedEnd (text.dropWhile isSpace) := rfl

theorem dropWhile_gap (hgap : ∀ c ∈ gap, isSpace c = true) (hne : f ≠ [])
    (hf : ∀ c ∈ f, isSpace c = false) : (gap ++ (f ++ rest)).dropWhile isSpace = f ++ rest := by
  rw [List.dropWhile_append, if_pos (by rw [List.dropWhile_eq_nil_iff.2 hgap]; rfl)]
  cases f with
  | nil => exact absurd rfl hne
  | cons c cs => exact List.dropWhile_cons_of_neg (by simp [hf c List.mem_cons_self])

theorem splitSpaces_cons {c : Char} {part : List Char} {parts : List (List Char)}
    (hc : isSpace c = false) (h : splitSpaces text = part :: parts) :
    splitSpaces (c :: text) = (c :: part) :: parts := by
  rw [splitSpaces, if_neg (by simp [hc]), h]

theorem splitSpaces_append {part : List Char} {parts : List (List Char)}
    (hf : ∀ c ∈ f, isSpace c = false) (h : splitSpaces text = part :: parts) :
    splitSpaces (f ++ text) = (f ++ part) :: parts := by
  induction f with
  | nil => exact h
  | cons c cs ih =>
    exact splitSpaces_cons (hf c List.mem_cons_self)
      (ih fun d hd => hf d (List.mem_cons_of_mem _ hd))

/-- A run of blanks is one cut. -/
theorem splitSpaces_gap (hgap : ∀ c ∈ gap, isSpace c = true) (hne : gap ≠ [])
    (hrest : ∀ c ∈ rest.head?, isSpace c = false) :
    splitSpaces (gap ++ rest) = [] :: splitSpaces rest := by
  induction gap with
  | nil => exact absurd rfl hne
  | cons c cs ih =>
    rw [List.cons_append, splitSpaces, if_pos (hgap c List.mem_cons_self)]
    cases cs with
    | nil =>
      have hnone : rest.head?.any isSpace = false := by
        cases hhead : rest.head? with
        | none => rfl
        | some d => exact hrest d hhead
      rw [List.nil_append, hnone]
      rfl
    | cons d ds =>
      have hd : ((d :: ds ++ rest).head?.any isSpace) = true :=
        hgap d (List.mem_cons_of_mem _ List.mem_cons_self)
      rw [if_pos hd]
      exact ih (fun e he => hgap e (List.mem_cons_of_mem _ he)) (List.cons_ne_nil d ds)

/-- What follows a field is cut from it where it begins with a blank. -/
theorem splitSpaces_field (hsep : Separated text fs) (hf : ∀ c ∈ f, isSpace c = false)
    (htext : ∀ c ∈ text.head?, isSpace c = true) :
    splitSpaces (f ++ trimmedEnd text) = f :: fs := by
  induction hsep generalizing f with
  | blank hgap =>
    have hsplit := splitSpaces_append hf (show splitSpaces [] = [] :: [] from rfl)
    rw [List.append_nil] at hsplit
    rw [trimmedEnd_blank hgap, List.append_nil, hsplit]
  | @field gap g rest fs hgap hne hg hrest _ ih =>
    have hgapne : gap ≠ [] := by
      rintro rfl
      obtain ⟨c, cs, rfl⟩ := List.exists_cons_of_ne_nil hne
      have hblank := htext c rfl
      rw [hg c List.mem_cons_self] at hblank
      cases hblank
    have hhead : ∀ c ∈ (g ++ trimmedEnd rest).head?, isSpace c = false := by
      obtain ⟨c, cs, rfl⟩ := List.exists_cons_of_ne_nil hne
      intro d hd
      obtain rfl : c = d := Option.some.inj hd
      exact hg c List.mem_cons_self
    have htrim : trimmedEnd (gap ++ (g ++ rest)) = gap ++ (g ++ trimmedEnd rest) := by
      rw [trimmedEnd_append_of_ne (by rw [trimmedEnd_append hne hg]; simp [hne]),
        trimmedEnd_append hne hg]
    have hsplit := splitSpaces_gap hgap hgapne hhead
    rw [ih hg hrest] at hsplit
    rw [htrim, splitSpaces_append hf hsplit, List.append_nil]

/-- `trim` and `split` find the texts apart by blanks. -/
theorem splitSpaces_trimmed {g : List Char} (hsep : Separated text (g :: fs)) :
    splitSpaces (trimmed text) = g :: fs := by
  cases hsep with
  | field hgap hne hg hrest hsep =>
    rw [trimmed_eq, dropWhile_gap hgap hne hg, trimmedEnd_append hne hg]
    exact splitSpaces_field hsep hg hrest

/-- Every text is of that form. -/
theorem exists_separated (text : List Char) : ∃ fs, Separated text fs := by
  induction text with
  | nil => exact ⟨[], .blank fun c hc => absurd hc List.not_mem_nil⟩
  | cons c cs ih =>
    obtain ⟨fs, hsep⟩ := ih
    cases hc : isSpace c with
    | true =>
      have hcons (gap : List Char) (hgap : ∀ d ∈ gap, isSpace d = true) :
          ∀ d ∈ c :: gap, isSpace d = true :=
        List.forall_mem_cons.2 ⟨hc, hgap⟩
      cases hsep with
      | blank hgap => exact ⟨[], .blank (hcons cs hgap)⟩
      | field hgap hne hf hrest hsep => exact ⟨_, .field (hcons _ hgap) hne hf hrest hsep⟩
    | false =>
      have hnone : ∀ d ∈ ([] : List Char), isSpace d = true :=
        fun d hd => absurd hd List.not_mem_nil
      have hsingle : ∀ d ∈ [c], isSpace d = false := fun d hd => List.mem_singleton.1 hd ▸ hc
      have halone (hhead : ∀ d ∈ cs.head?, isSpace d = true) :
          Separated (c :: cs) ([c] :: fs) :=
        .field hnone (List.cons_ne_nil c []) hsingle hhead hsep
      cases hsep with
      | blank hgap => exact ⟨_, halone fun d hd => hgap d (List.mem_of_head? hd)⟩
      | @field gap f rest fs hgap hne hf hrest hsep' =>
        cases gap with
        | nil =>
          have hcons : ∀ d ∈ c :: f, isSpace d = false := List.forall_mem_cons.2 ⟨hc, hf⟩
          exact ⟨_, .field hnone (List.cons_ne_nil c f) hcons hrest hsep'⟩
        | cons d ds =>
          refine ⟨_, halone fun e he => ?_⟩
          obtain rfl : d = e := Option.some.inj he
          exact hgap d List.mem_cons_self

/-- `trim` and `split` find nothing else. -/
theorem separated_of_splitSpaces {g : List Char} (hg : g ≠ [])
    (h : splitSpaces (trimmed text) = g :: fs) : Separated text (g :: fs) := by
  obtain ⟨gs, hsep⟩ := exists_separated text
  cases gs with
  | nil =>
    cases hsep with
    | blank hgap =>
      rw [trimmed_eq, List.dropWhile_eq_nil_iff.2 hgap] at h
      obtain ⟨rfl, rfl⟩ := List.cons.inj h
      exact absurd rfl hg
  | cons g' gs =>
    rw [splitSpaces_trimmed hsep] at h
    rwa [h] at hsep

end

/-! ## Fields -/

/-- The five fields of an expression. -/
inductive CronField where
  | minute
  | hour
  | dom
  | month
  | dow
  deriving DecidableEq, Repr

namespace CronField

def min : CronField → ℤ
  | minute | hour | dow => 0
  | dom | month => 1

def max : CronField → ℤ
  | minute => 59
  | hour => 23
  | dom => 31
  | month => 12
  | dow => 7

def names : CronField → Option CronNames
  | minute | hour | dom => none
  | month => some monthNames
  | dow => some dowNames

end CronField

/-- One thing a field. -/
def byField {α : Type} (minute hour dom month dow : α) : CronField → α
  | .minute => minute
  | .hour => hour
  | .dom => dom
  | .month => month
  | .dow => dow

/-- How numbers are spelled: a number or the lower end of a range, an upper end and a step; which
fields' lists may hold `L`, and which values make up a list. -/
structure Spelling where
  number : Option CronNames → List Char → CronValue → Prop
  upper : Option CronNames → List Char → CronValue → Prop
  step : List Char → ℤ → Prop
  last : CronField → Prop
  whole : CronField → Set CronValue → Prop

/-- From `lo` up to `hi` in steps of `k`. -/
def counted (lo hi : CronValue) (k : ℤ) : Set CronValue :=
  {v | ∃ a b n, lo = .num a ∧ hi = .num b ∧ v = .num n ∧ a ≤ n ∧ n ≤ b ∧ k ∣ n - a}

section

variable (s : Spelling) (f : CronField)

/-- An entry without its step, with the values it has alone and by steps. -/
inductive Base : List Char → Set CronValue → (ℤ → Set CronValue) → Prop
  | star : Base ['*'] (counted (.num f.min) (.num f.max) 1) (counted (.num f.min) (.num f.max))
  | value {t : List Char} {v : CronValue} : s.number f.names t v → v.lt (.num f.min) = false →
      (CronValue.num f.max).lt v = false → Base t {v} (counted v (.num f.max))
  | range {t u : List Char} {lo hi : CronValue} : s.number f.names t lo → s.upper f.names u hi →
      lo.lt (.num f.min) = false → (CronValue.num f.max).lt hi = false → hi.lt lo = false →
      Base (t ++ '-' :: u) (counted lo hi 1) (counted lo hi)

/-- An entry of a list. -/
inductive Entry : List Char → Set CronValue → Prop
  | plain {t : List Char} {S : Set CronValue} {C : ℤ → Set CronValue} : Base s f t S C → Entry t S
  | step {t u : List Char} {S : Set CronValue} {C : ℤ → Set CronValue} {k : ℤ} : Base s f t S C →
      s.step u k → Entry (t ++ '/' :: u) (C k)

/-- The entries of a list, with their values and whether `L` is one. -/
inductive Entries : List (List Char) → Set CronValue → Bool → Prop
  | nil : Entries [] ∅ false
  | entry {t : List Char} {ts : List (List Char)} {S T : Set CronValue} {l : Bool} : t ≠ [] →
      ',' ∉ t → Entry s f t S → Entries ts T l → Entries (t :: ts) (S ∪ T) l
  | last {ts : List (List Char)} {T : Set CronValue} {l : Bool} : s.last f → Entries ts T l →
      Entries (['l'] :: ts) T true

/-- What a field denotes: `all` for a single `*`. -/
structure FieldSet where
  all : Bool
  values : Set CronValue
  last : Bool

/-- A field in small letters. -/
inductive FieldText : List Char → FieldSet → Prop
  | all : FieldText ['*'] ⟨true, counted (.num f.min) (.num f.max) 1, false⟩
  | list {tokens : List (List Char)} {S : Set CronValue} {l : Bool} : tokens ≠ [] →
      [','].intercalate tokens ≠ ['*'] → Entries s f tokens S l → s.whole f S →
      FieldText ([','].intercalate tokens) ⟨false, S, l⟩

/-- Sunday is 0, also where it is written 7. -/
def FieldSet.sundayZero (d : FieldSet) : FieldSet :=
  { d with values := (fun v => if v = .num 7 then .num 0 else v) '' d.values }

/-- The five fields of an expression. -/
def Fields (text : String) (raw : CronField → List Char) : Prop :=
  Separated text.toList [raw .minute, raw .hour, raw .dom, raw .month, raw .dow]

/-- An expression, with the sets of its fields. -/
def Reads (text : String) (d : CronField → FieldSet) : Prop :=
  ∃ raw, Fields text raw ∧ ∀ f, FieldText s f (lowered (raw f)) (d f)

end

/-! ## Two spellings -/

/-- A number: decimal digits, or a name of the field's table. -/
def IsNumeral (names : Option CronNames) (t : List Char) (n : ℤ) : Prop :=
  (t ≠ [] ∧ (∀ c ∈ t, isDigit c = true) ∧ n = Decimal.value t) ∨
    ∃ table ∈ names, (String.ofList t, n) ∈ table

/-- The spelling that the comment documents. -/
def documented : Spelling where
  number names t v := ∃ n, v = .num n ∧ IsNumeral names t n
  upper names t v := ∃ n, v = .num n ∧ IsNumeral names t n
  step t k := t ≠ [] ∧ (∀ c ∈ t, isDigit c = true) ∧ k = Decimal.value t ∧ 1 ≤ k
  last f := f = .dom
  whole _ _ := True

/-- The spelling that the parser takes: an entry is cut at its first slash, the rest of it at its
first dash, and `Number` reads the parts. -/
def accepted : Spelling where
  number names t v := '/' ∉ t ∧ '-' ∉ t ∧ valueOf t names = some v
  upper names t v := '/' ∉ t ∧ valueOf t names = some v
  step t k := stepOf t = some k
  last f := f.names = none
  whole f S := f = .minute ∨ f = .hour → S.Nonempty

/-! ## What the parser returns -/

/-- A parsed field with the set of its values. -/
def ParsedField.Means (p : ParsedField) (d : FieldSet) : Prop :=
  p.all = d.all ∧ p.lastDayOfMonth = d.last ∧ p.values.isNone = d.all ∧
    ∀ values, p.values = some values → ∀ v, v ∈ values ↔ v ∈ d.values

/-- A parsed expression with the sets of its fields. -/
def ParsedCron.Means (c : ParsedCron) (d : CronField → FieldSet) : Prop :=
  c.minute.Means (d .minute) ∧ c.hour.Means (d .hour) ∧ c.dom.Means (d .dom) ∧
    c.month.Means (d .month) ∧ c.dow.Means (d .dow).sundayZero

end HeadlessErp.Cron
