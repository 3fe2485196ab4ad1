import HeadlessErp.Entity.StoredColumns
import HeadlessErp.Js.Json
import HeadlessErp.Relations.Nested

/-!
# The storage codec

What a write makes of a field's value (`coerceValue`), what the column of the field keeps of it, and
what a read makes of the column (`decodeJsonFields`). The columns are those of `FIELD_TYPE_MAP`. The
values that come back as they were are those that the types keep (`FieldType.Keeps`); a json field
keeps its arrays and objects but not its numbers and booleans, and the other fields that are meant to
hold JSON keep texts only (`decodeAt_eq_iff`). A payload that is split into columns and `_meta`
and merged again keeps the entries with such a value (`readBack_iff`).
-/

namespace HeadlessErp

/-! ## Columns -/

/-- The type a column is declared with. -/
inductive ColumnAffinity where
  | text
  | integer
  | real
  deriving DecidableEq, Repr

/-- `FIELD_TYPE_MAP`, for the fields with one column of their own name. A formula is written by the
engine. -/
def FieldType.affinity : FieldType → Option ColumnAffinity
  | .integer | .boolean | .bigint | .duration | .progress => some .integer
  | .number | .currency | .percent | .rating => some .real
  | .o2m | .m2m | .m2a | .table | .formula => none
  | _ => some .text

variable {N : Type} [JsNumber N]

/-- What the columns make of a value: `numeric` is the number that a column of numbers makes of a
text, if it makes one, and `numeral` the text that a column of texts makes of a number. A column of
numbers reads the text of a number as that number. -/
structure ColumnStore (N : Type) [JsNumber N] where
  numeric : String → Option N
  numeral : N → String
  numeric_toString : ∀ n : N, ReadsBack n → numeric (JsNumber.toString n) = some n
  not_nan : ∀ n : N, JsNumber.isFinite n = true → JsNumber.isNaN n = false
  one_eq_one : JsNumber.eq (JsNumber.ofInt 1 : N) (JsNumber.ofInt 1) = true
  zero_eq_zero : JsNumber.eq (JsNumber.ofInt 0 : N) (JsNumber.ofInt 0) = true
  zero_ne_one : JsNumber.eq (JsNumber.ofInt 0 : N) (JsNumber.ofInt 1) = false

/-- The value that a column gives back. -/
def ColumnAffinity.keep (C : ColumnStore N) : ColumnAffinity → JsVal N → JsVal N
  | .text, .num n => .str (C.numeral n)
  | .text, .bool b => .str (if b then "1" else "0")
  | .text, v => v
  | _, .str s => ((C.numeric s).map JsVal.num).getD (.str s)
  | _, .bool b => .num (JsNumber.ofInt (if b then 1 else 0))
  | _, v => v

/-- The column of a property. -/
def columnAffinity (fields : List (FieldDefinition N)) (key : String) : Option ColumnAffinity :=
  if key = "_meta" then some .text
  else match schemaType fields key with
    | some fieldType => fieldType.affinity
    | none => if (m2aColumns fields).contains key then some .text else none

/-- The columns of a row as they are stored. -/
def ColumnStore.row (C : ColumnStore N) (fields : List (FieldDefinition N)) (columns : Record N) :
    Record N :=
  (columns.filter fun kv => (columnAffinity fields kv.1).isSome).map fun kv =>
    (kv.1, ((columnAffinity fields kv.1).map fun a => a.keep C kv.2).getD kv.2)

/-- A column of the stored row. -/
theorem ColumnStore.get?_row (C : ColumnStore N) (fields : List (FieldDefinition N))
    (columns : Record N) (key : String) : (C.row fields columns).get? key =
      (columnAffinity fields key).bind fun a => (columns.get? key).map (a.keep C) := by
  unfold ColumnStore.row
  rw [Record.get?_map fun k v => ((columnAffinity fields k).map fun a => a.keep C v).getD v,
    Record.get?_filter fun k => (columnAffinity fields k).isSome]
  cases columnAffinity fields key with
  | none => rfl
  | some a => rfl

/-! ## The values that a type keeps -/

/-- A text that a read of a json field takes for JSON. -/
def looksLikeJson (s : String) : Bool := ["\x7b", "[", "\""].any (·.toList.isPrefixOf s.toList)

/-- The types whose columns hold numbers and whose values are written as texts. -/
def FieldType.isNumericText (t : FieldType) : Bool :=
  [FieldType.bigint, .duration, .progress, .currency, .percent, .rating].contains t

/-- The values of a type that are read as they were written. -/
def FieldType.Keeps (C : ColumnStore N) (t : FieldType) : JsVal N → Prop
  | .null => True
  | .bool _ => t = .boolean
  | .num n => t = .number ∨ t.isNumericText = true ∨
      (t = .integer ∧ JsNumber.math "floor" [n] = n)
  | .str s =>
    if t = .json then looksLikeJson s = false ∨ (Json.parse s : Option (JsVal N)) = none
    else if t.isNumericText then C.numeric s = none
    else t.affinity = some .text
  | .arr _ | .obj _ => t = .json
  | .undefined | .func _ => False

theorem FieldType.keeps_str {C : ColumnStore N} {t : FieldType} {s : String} :
    t.Keeps C (.str s) ↔
      if t = .json then looksLikeJson s = false ∨ (Json.parse s : Option (JsVal N)) = none
      else if t.isNumericText then C.numeric s = none
      else t.affinity = some .text := Iff.rfl

/-- `decodeJsonFields`, on a value of a type. -/
def decodeAt (S : ReadContext N) (t : FieldType) (v : JsVal N) : JsVal N :=
  match t with
  | .json => S.decodeJson v
  | .boolean => decodeBoolean v
  | _ => v

theorem decodeField_eq (S : ReadContext N) {fields : List (FieldDefinition N)}
    (hnames : (fields.map (·.name)).Nodup) {f : FieldDefinition N} (hf : f ∈ fields)
    (hformula : f.type ≠ .formula) (v : JsVal N) :
    S.decodeField fields f.name v = decodeAt S f.type v := by
  have hany : ∀ p : FieldDefinition N → Bool,
      (fields.any fun g => g.name = f.name && p g) = p f := by
    intro p
    rw [Bool.eq_iff_iff, List.any_eq_true]
    constructor
    · rintro ⟨g, hg, h⟩
      obtain ⟨hname, hp⟩ := Bool.and_eq_true_iff.1 h
      obtain rfl : g = f := List.inj_on_of_nodup_map hnames hg hf (of_decide_eq_true hname)
      exact hp
    · exact fun hp => ⟨f, hf, by simp [hp]⟩
  unfold ReadContext.decodeField decodeAt
  rw [hany fun g => g.type = .json]
  simp only [hany fun g => g.type = .boolean || (g.type = .formula && g.resultType = some .boolean)]
  cases htype : f.type <;> simp_all

/-! ## What the columns give back -/

section Types

variable {C : ColumnStore N} {S : ReadContext N} {t : FieldType} {a : ColumnAffinity}
  {v w : JsVal N}

omit [JsNumber N] in
/-- The columns by their types: those that `coerceValue` knows, and the other texts and numbers. -/
theorem affinity_cases (ha : t.affinity = some a) :
    (t = .integer ∧ a = .integer) ∨ (t = .number ∧ a = .real) ∨ (t = .boolean ∧ a = .integer) ∨
      (t = .json ∧ a = .text) ∨ (t ≠ .json ∧ a = .text) ∨ (t.isNumericText = true ∧ a ≠ .text) := by
  cases t <;> cases ha <;> decide

/-- Another column of texts or numbers is written the text of the value. -/
theorem coerceValue_text (ht : (t ≠ .json ∧ t.affinity = some .text) ∨ t.isNumericText = true)
    (hv : v.isNullish = false) (h : coerceValue v t = .ok w) : w = .str v.toStr := by
  unfold coerceValue at h
  rw [hv] at h
  cases t <;> first
    | (cases h; rfl)
    | (simp only [Bool.false_eq_true, if_false] at h
       split at h
       · cases h; rfl
       · cases h)
    | exact absurd ht (by decide)

theorem decodeAt_of_ne (hjson : t ≠ .json) (hboolean : t ≠ .boolean) (v : JsVal N) :
    decodeAt S t v = v := by
  cases t <;> first | rfl | contradiction

theorem isNullish_of_isJson (hv : IsJson v) (hnull : v ≠ .null) : v.isNullish = false := by
  cases hv <;> first | rfl | exact absurd rfl hnull

/-- The JSON text of a value that is not a string. -/
theorem decodeJson_toJson (hS : S.parseJson = Json.parse) (hv : IsJson v) {s : String}
    (hs : v.toJson = some s) (hlooks : looksLikeJson s = true) : S.decodeJson (.str s) = v := by
  obtain ⟨s', hs', hparse⟩ := Json.parse_toJson hv
  rw [hs] at hs'
  cases hs'
  unfold ReadContext.decodeJson
  simp only
  rw [← looksLikeJson, if_pos hlooks, hS, hparse]
  rfl

theorem looksLikeJson_cons {s : String} {c : Char} {cs : List Char} (h : s.toList = c :: cs) :
    looksLikeJson s = true ↔ c = '\x7b' ∨ c = '[' ∨ c = '"' := by
  have hprefix : ∀ d : Char, (String.singleton d).toList.isPrefixOf s.toList = true ↔ c = d := by
    intro d
    rw [h, String.toList_singleton]
    simp only [List.isPrefixOf, Bool.and_true, beq_iff_eq]
    exact eq_comm
  have h1 := hprefix '\x7b'
  have h2 := hprefix '['
  have h3 := hprefix '"'
  unfold looksLikeJson
  simp only [List.any_cons, List.any_nil, Bool.or_false, Bool.or_eq_true]
  exact or_congr h1 (or_congr h2 h3)

/-- A json field keeps a value other than a string if its text looks like JSON. -/
theorem decodeJson_eq_iff_looks (hS : S.parseJson = Json.parse) (hv : IsJson v)
    (hnull : v ≠ .null) (hstr : ∀ s, v ≠ .str s) (h : coerceValue v .json = .ok w) :
    ∃ s, v.toJson = some s ∧
      (S.decodeJson (ColumnAffinity.text.keep C w) = v ↔ looksLikeJson s = true) := by
  obtain ⟨s, hs, -⟩ := Json.parse_toJson hv
  have hw : w = .str s := by
    unfold coerceValue at h
    rw [isNullish_of_isJson hv hnull] at h
    cases v with
    | str s => exact absurd rfl (hstr s)
    | undefined | null | bool | num | arr | obj | func =>
      simp only [Bool.false_eq_true, if_false, hs] at h
      cases h
      rfl
  subst hw
  refine ⟨s, hs, ?_⟩
  show S.decodeJson (.str s) = v ↔ _
  constructor
  · intro hdecode
    by_cases hlooks : looksLikeJson s = true
    · exact hlooks
    · unfold ReadContext.decodeJson at hdecode
      simp only at hdecode
      rw [← looksLikeJson, if_neg hlooks] at hdecode
      exact absurd hdecode.symm (hstr s)
  · exact decodeJson_toJson hS hv hs

/-- A json field. -/
theorem decodeJson_eq_iff (hS : S.parseJson = Json.parse) (hv : IsJson v)
    (h : coerceValue v .json = .ok w) : S.decodeJson (ColumnAffinity.text.keep C w) = v ↔
      FieldType.json.Keeps C v := by
  by_cases hnull : v = .null
  · subst hnull
    cases h
    exact ⟨fun _ => trivial, fun _ => rfl⟩
  by_cases hstr : ∃ s, v = .str s
  · obtain ⟨s, rfl⟩ := hstr
    cases h
    show S.decodeJson (.str s) = .str s ↔
      (looksLikeJson s = false ∨ (Json.parse s : Option (JsVal N)) = none)
    unfold ReadContext.decodeJson
    simp only
    rw [← looksLikeJson, hS]
    cases hlooks : looksLikeJson s with
    | false => exact ⟨fun _ => .inl rfl, fun _ => rfl⟩
    | true =>
      rw [if_pos rfl]
      cases hparse : (Json.parse s : Option (JsVal N)) with
      | none => exact ⟨fun _ => .inr rfl, fun _ => rfl⟩
      | some x =>
        constructor
        · rintro rfl
          exact absurd hparse (Json.parse_ne_self s)
        · rintro (h | h) <;> cases h
  · obtain ⟨s, hs, hiff⟩ := @decodeJson_eq_iff_looks _ _ C _ _ _ hS hv hnull
      (fun s hs => hstr ⟨s, hs⟩) h
    rw [hiff]
    cases hv with
    | null => exact absurd rfl hnull
    | str s => exact absurd ⟨s, rfl⟩ hstr
    | bool b =>
      obtain rfl : (if b then "true" else "false") = s := Option.some.inj hs
      constructor
      · cases b <;> exact fun h => absurd h (by decide)
      · exact fun (h : FieldType.json = .boolean) => by cases h
    | num hn =>
      obtain ⟨hfinite, hnumber, -⟩ := hn
      rw [JsVal.toJson, if_pos hfinite] at hs
      obtain rfl := Option.some.inj hs
      obtain ⟨c, cs, hcs, hc⟩ := Json.exists_of_isNumber hnumber
      rw [looksLikeJson_cons hcs]
      constructor
      · rintro (rfl | rfl | rfl) <;> exact absurd hc (by decide)
      · rintro (h | h | ⟨h, -⟩) <;> exact absurd h (by decide)
    | arr hxs =>
      obtain rfl := Option.some.inj hs
      refine ⟨fun _ => rfl, fun _ => ?_⟩
      rw [String.append_assoc]
      exact (looksLikeJson_cons String.toList_append).mpr (.inr (.inl rfl))
    | obj hkeys hkvs =>
      obtain rfl := Option.some.inj hs
      refine ⟨fun _ => rfl, fun _ => ?_⟩
      rw [String.append_assoc]
      exact (looksLikeJson_cons String.toList_append).mpr (.inl rfl)

/-- A field of another type whose values are written as texts. -/
theorem keep_eq_iff_of_text (ht : t ≠ .json) (ha : t.affinity = some .text) (hv : IsJson v)
    (h : coerceValue v t = .ok w) : ColumnAffinity.text.keep C w = v ↔ t.Keeps C v := by
  have hother : ∀ {v}, (∀ s, v ≠ .str s) → v.isNullish = false → coerceValue v t = .ok w →
      ColumnAffinity.text.keep C w ≠ v := by
    intro v hstr hnull h heq
    rw [coerceValue_text (.inl ⟨ht, ha⟩) hnull h] at heq
    exact hstr _ heq.symm
  have hnumeric : t.isNumericText = false := by cases t <;> first | rfl | cases ha
  have hnumber : t ≠ .number ∧ t ≠ .integer ∧ t ≠ .boolean := by
    refine ⟨?_, ?_, ?_⟩ <;> rintro rfl <;> cases ha
  cases hv with
  | null =>
    cases h
    exact ⟨fun _ => trivial, fun _ => rfl⟩
  | str s =>
    rw [coerceValue_text (.inl ⟨ht, ha⟩) rfl h]
    refine ⟨fun _ => ?_, fun _ => rfl⟩
    rwa [FieldType.keeps_str, if_neg ht, hnumeric, if_neg Bool.false_ne_true]
  | bool b =>
    exact ⟨fun heq => absurd heq (hother (by simp) rfl h), fun hk => absurd hk hnumber.2.2⟩
  | num hn =>
    refine ⟨fun heq => absurd heq (hother (by simp) rfl h), ?_⟩
    rintro (hk | hk | ⟨hk, -⟩)
    · exact absurd hk hnumber.1
    · exact absurd (hk.symm.trans hnumeric) (by decide)
    · exact absurd hk hnumber.2.1
  | arr hxs => exact ⟨fun heq => absurd heq (hother (by simp) rfl h), fun hk => absurd hk ht⟩
  | obj hkeys hkvs =>
    exact ⟨fun heq => absurd heq (hother (by simp) rfl h), fun hk => absurd hk ht⟩

/-- A field of numbers whose values are written as texts. -/
theorem keep_eq_iff_of_numericText (ht : t.isNumericText = true) (ha : a ≠ .text) (hv : IsJson v)
    (h : coerceValue v t = .ok w) : a.keep C w = v ↔ t.Keeps C v := by
  have hkeep : ∀ s, a.keep C (.str s) = ((C.numeric s).map JsVal.num).getD (.str s) := by
    intro s
    cases a <;> first | rfl | exact absurd rfl ha
  have hne : t ≠ .json ∧ t ≠ .boolean := by
    constructor <;> rintro rfl <;> cases ht
  -- the column gives back a number or a text
  have hother : v.isNullish = false → (∀ n, v ≠ .num n) → (∀ s, v ≠ .str s) →
      a.keep C w ≠ v := by
    intro hnull hnum hstr heq
    rw [coerceValue_text (.inr ht) hnull h, hkeep] at heq
    cases hnumeric : C.numeric v.toStr with
    | none => rw [hnumeric] at heq; exact hstr _ heq.symm
    | some n => rw [hnumeric] at heq; exact hnum _ heq.symm
  cases hv with
  | null =>
    cases h
    refine ⟨fun _ => trivial, fun _ => ?_⟩
    cases a <;> rfl
  | str s =>
    rw [coerceValue_text (.inr ht) rfl h, FieldType.keeps_str, if_neg hne.1, if_pos ht]
    show a.keep C (.str s) = .str s ↔ _
    rw [hkeep]
    cases C.numeric s with
    | none => exact ⟨fun _ => rfl, fun _ => rfl⟩
    | some n => exact ⟨fun h => (by cases h), fun h => by cases h⟩
  | num hn =>
    refine ⟨fun _ => .inr (.inl ht), fun _ => ?_⟩
    rw [coerceValue_text (.inr ht) rfl h, hkeep]
    show ((C.numeric (JsNumber.toString _)).map JsVal.num).getD _ = _
    rw [C.numeric_toString _ hn]
    rfl
  | bool b =>
    exact ⟨fun heq => absurd heq (hother rfl (by simp) (by simp)), fun hk => absurd hk hne.2⟩
  | arr hxs =>
    exact ⟨fun heq => absurd heq (hother rfl (by simp) (by simp)), fun hk => absurd hk hne.1⟩
  | obj hkeys hkvs =>
    exact ⟨fun heq => absurd heq (hother rfl (by simp) (by simp)), fun hk => absurd hk hne.1⟩

/-- An integer field. -/
theorem keep_eq_iff_of_integer (hv : IsJson v) (h : coerceValue v .integer = .ok w) :
    ColumnAffinity.integer.keep C w = v ↔ FieldType.integer.Keeps C v := by
  cases hv with
  | null =>
    cases h
    exact ⟨fun _ => trivial, fun _ => rfl⟩
  | num hn =>
    rename_i n
    cases h
    have hnan : JsNumber.isNaN n = false := C.not_nan n hn.1
    show JsVal.num (if JsNumber.isNaN n = true then _ else JsNumber.math "floor" [n]) = .num n ↔ _
    rw [hnan, if_neg Bool.false_ne_true]
    constructor
    · intro h
      exact .inr (.inr ⟨rfl, (JsVal.num.injEq _ _).mp h⟩)
    · rintro (hk | hk | ⟨-, hk⟩)
      · cases hk
      · cases hk
      · rw [hk]
  | str s =>
    cases h
    refine ⟨fun heq => (by cases heq), fun hk => ?_⟩
    rw [FieldType.keeps_str] at hk
    cases hk
  | bool b => cases h; exact ⟨fun heq => (by cases heq), fun hk => by cases hk⟩
  | arr hxs => cases h; exact ⟨fun heq => (by cases heq), fun hk => by cases hk⟩
  | obj hkeys hkvs => cases h; exact ⟨fun heq => (by cases heq), fun hk => by cases hk⟩

/-- A number field. -/
theorem keep_eq_iff_of_number (hv : IsJson v) (h : coerceValue v .number = .ok w) :
    ColumnAffinity.real.keep C w = v ↔ FieldType.number.Keeps C v := by
  have hw : v ≠ .null → w = .num v.toNum := by
    intro hnull
    unfold coerceValue at h
    rw [isNullish_of_isJson hv hnull] at h
    simp only [Bool.false_eq_true, if_false] at h
    split at h
    · cases h
    · cases h
      rfl
  cases hv with
  | null =>
    cases h
    exact ⟨fun _ => trivial, fun _ => rfl⟩
  | num hn =>
    rw [hw (by simp)]
    exact ⟨fun _ => .inl rfl, fun _ => rfl⟩
  | str s =>
    rw [hw (by simp)]
    refine ⟨fun heq => (by cases heq), fun hk => ?_⟩
    rw [FieldType.keeps_str] at hk
    cases hk
  | bool b => rw [hw (by simp)]; exact ⟨fun heq => (by cases heq), fun hk => by cases hk⟩
  | arr hxs => rw [hw (by simp)]; exact ⟨fun heq => (by cases heq), fun hk => by cases hk⟩
  | obj hkeys hkvs => rw [hw (by simp)]; exact ⟨fun heq => (by cases heq), fun hk => by cases hk⟩

/-- A boolean is stored as one or zero. -/
theorem decodeBoolean_flag (C : ColumnStore N) (b : Bool) :
    decodeBoolean (.num (JsNumber.ofInt (if b then 1 else 0) : N)) = .bool b := by
  unfold decodeBoolean
  simp only
  cases b with
  | true => rw [if_pos rfl, C.one_eq_one, if_pos rfl]
  | false =>
    rw [if_neg Bool.false_ne_true, C.zero_ne_one, if_neg Bool.false_ne_true, C.zero_eq_zero,
      if_pos rfl]

/-- A boolean field stores one or zero. -/
theorem coerceValue_boolean (hnull : v.isNullish = false) (h : coerceValue v .boolean = .ok w) :
    ∃ b : Bool, w = .num (JsNumber.ofInt (if b then 1 else 0)) ∧ ∀ b', v = .bool b' → b = b' := by
  unfold coerceValue at h
  rw [hnull] at h
  cases v with
  | undefined | null => cases hnull
  | bool b =>
    refine ⟨b, ?_, fun b' hb => (JsVal.bool.injEq _ _).mp hb⟩
    cases h
    cases b <;> rfl
  | num | str | arr | obj | func =>
    simp only [Bool.false_eq_true, if_false] at h
    split at h
    · cases h
      exact ⟨true, rfl, fun b' hb => by cases hb⟩
    split at h
    · cases h
      exact ⟨false, rfl, fun b' hb => by cases hb⟩
    split at h
    · cases h
      exact ⟨true, rfl, fun b' hb => by cases hb⟩
    · cases h
      exact ⟨false, rfl, fun b' hb => by cases hb⟩

/-- A boolean field. -/
theorem decodeBoolean_eq_iff (hv : IsJson v) (h : coerceValue v .boolean = .ok w) :
    decodeBoolean (ColumnAffinity.integer.keep C w) = v ↔ FieldType.boolean.Keeps C v := by
  have hflag : v ≠ .null → ∃ b : Bool, decodeBoolean (ColumnAffinity.integer.keep C w) = .bool b ∧
      ∀ b', v = .bool b' → b = b' := by
    intro hnull
    obtain ⟨b, rfl, hb⟩ := coerceValue_boolean (isNullish_of_isJson hv hnull) h
    exact ⟨b, decodeBoolean_flag C b, hb⟩
  cases hv with
  | null =>
    cases h
    exact ⟨fun _ => trivial, fun _ => rfl⟩
  | bool b =>
    obtain ⟨b', hdecode, hb⟩ := hflag (by simp)
    rw [hdecode, hb b rfl]
    exact ⟨fun _ => rfl, fun _ => rfl⟩
  | str s =>
    obtain ⟨b', hdecode, -⟩ := hflag (by simp)
    rw [hdecode, FieldType.keeps_str]
    exact ⟨fun heq => (by cases heq), fun hk => by cases hk⟩
  | num hn =>
    obtain ⟨b', hdecode, -⟩ := hflag (by simp)
    rw [hdecode]
    refine ⟨fun heq => (by cases heq), ?_⟩
    rintro (hk | hk | ⟨hk, -⟩) <;> cases hk
  | arr hxs =>
    obtain ⟨b', hdecode, -⟩ := hflag (by simp)
    rw [hdecode]
    exact ⟨fun heq => (by cases heq), fun hk => by cases hk⟩
  | obj hkeys hkvs =>
    obtain ⟨b', hdecode, -⟩ := hflag (by simp)
    rw [hdecode]
    exact ⟨fun heq => (by cases heq), fun hk => by cases hk⟩

/-- A value that a type accepts is read as it was written if and only if the type keeps it. -/
theorem decodeAt_eq_iff (hS : S.parseJson = Json.parse) (ha : t.affinity = some a) (hv : IsJson v)
    (h : coerceValue v t = .ok w) : decodeAt S t (a.keep C w) = v ↔ t.Keeps C v := by
  obtain ⟨rfl, rfl⟩ | ⟨rfl, rfl⟩ | ⟨rfl, rfl⟩ | ⟨rfl, rfl⟩ | ⟨ht, rfl⟩ | ⟨ht, hne⟩ :=
    affinity_cases ha
  · exact keep_eq_iff_of_integer hv h
  · exact keep_eq_iff_of_number hv h
  · exact decodeBoolean_eq_iff hv h
  · exact decodeJson_eq_iff hS hv h
  · rw [decodeAt_of_ne ht (by rintro rfl; cases ha)]
    exact keep_eq_iff_of_text ht ha hv h
  · rw [decodeAt_of_ne (by rintro rfl; cases ht) (by rintro rfl; cases ht)]
    exact keep_eq_iff_of_numericText ht hne hv h

end Types

/-! ## Splitting and merging -/

/-- The row of a read: `mergeRowData`, then `decodeJsonFields`. -/
def ReadContext.readRow (S : ReadContext N) (fields : List (FieldDefinition N)) (row : Record N) :
    Record N := S.decodeJsonFields fields (S.mergeRowData row)

/-- An entry of a payload that is read as it was written: not of the engine, and in the column of its
field a value that the type keeps (for rich text one that the sanitizer keeps), in a column of an
any-collection reference a value other than a number or a boolean, in `_meta` any value. -/
def KeepsEntry (P : Platform N) (C : ColumnStore N) (fields : List (FieldDefinition N))
    (kv : String × JsVal N) : Prop :=
  kv.1 ∉ systemFields ∧
    match schemaType fields kv.1 with
    | some t =>
      t.affinity.isSome = true ∧
        if t = .textEditor ∨ t = .markdown then
          ∃ s, kv.2 = .str s ∧ P.sanitizeHtml (.str s) = .str s
        else t.Keeps C kv.2
    | none =>
      (m2aColumns fields).contains kv.1 = true →
        (∀ n, kv.2 ≠ .num n) ∧ ∀ b, kv.2 ≠ .bool b

section Split

variable {P : Platform N} {S : ReadContext N} {C : ColumnStore N} {info : CollectionInfo N}
  {body columns rest : Record N}

/-- The entry goes to `_meta`. -/
def isMetaKey (fields : List (FieldDefinition N)) (key : String) : Bool :=
  !systemFields.contains key && (schemaType fields key).isNone && !(m2aColumns fields).contains key

theorem rest_splitEntry {fields : List (FieldDefinition N)} {acc acc' : Record N × Record N}
    {kv : String × JsVal N} (h : splitEntry P fields acc kv = .ok acc') :
    acc'.2 = if isMetaKey fields kv.1 then acc.2.set kv.1 kv.2 else acc.2 := by
  obtain ⟨key, value⟩ := kv
  unfold isMetaKey
  simp only [splitEntry] at h
  split at h
  · next hsystem =>
    cases h
    simp only [hsystem, Bool.not_true, Bool.false_and, Bool.false_eq_true, if_false]
  · next hsystem =>
    split at h
    · next t htype =>
      simp only [htype, Option.isNone_some, Bool.and_false, Bool.false_and, Bool.false_eq_true,
        if_false]
      split at h
      · cases h
        rfl
      · obtain ⟨coerced, -, h⟩ := exists_of_bind_eq_ok h
        cases h
        rfl
    · next htype =>
      split at h
      · next hm2a =>
        cases h
        simp only [hm2a, Bool.not_true, Bool.and_false, Bool.false_eq_true, if_false]
      · next hm2a =>
        cases h
        simp only [Bool.not_eq_true] at hsystem hm2a
        simp only [hsystem, hm2a, htype, Option.isNone_none, Bool.not_false, Bool.and_self, if_true]

theorem rest_splitRowData {fields : List (FieldDefinition N)}
    (h : splitRowData P body fields = .ok (columns, rest)) :
    ∃ columns₀, body.foldlM (splitEntry P fields) ([], []) = .ok (columns₀, rest) ∧
      columns.get? "_meta" = some (.str ((JsVal.obj rest).toJson.getD "")) := by
  obtain ⟨⟨columns₀, rest₀⟩, hloop, h⟩ := exists_of_bind_eq_ok h
  cases h
  exact ⟨columns₀, hloop, by rw [Record.get?_set, if_pos rfl]⟩

/-- `_meta` has a JSON form if the payload has one. -/
theorem isJson_rest (hbody : IsJson (.obj body)) {fields : List (FieldDefinition N)}
    (h : splitRowData P body fields = .ok (columns, rest)) : IsJson (.obj rest) := by
  obtain ⟨columns₀, hloop, -⟩ := rest_splitRowData h
  cases hbody with
  | obj hkeys hvalues =>
    obtain ⟨hnodup, hjson⟩ := foldlM_invariant
      (I := fun acc : Record N × Record N =>
        (acc.2.map Prod.fst).Nodup ∧ ∀ kv ∈ acc.2, IsJson kv.2) hloop
      ⟨List.nodup_nil, by simp⟩ fun acc kv acc' hkv hacc hstep => by
        rw [rest_splitEntry hstep]
        split
        · refine ⟨Record.nodup_set hacc.1, fun kv' hkv' => ?_⟩
          obtain rfl | hkv' := Record.mem_set hkv'
          · exact hvalues kv hkv
          · exact hacc.2 kv' hkv'
        · exact hacc
    exact .obj hnodup hjson

/-- What the entries of a payload leave in `_meta`. -/
theorem get?_foldlM_rest {fields : List (FieldDefinition N)} {acc acc' : Record N × Record N}
    (h : body.foldlM (splitEntry P fields) acc = .ok acc') (hkeys : (body.map Prod.fst).Nodup) :
    (∀ key, key ∉ body.map Prod.fst → acc'.2.get? key = acc.2.get? key) ∧
      ∀ kv ∈ body, acc'.2.get? kv.1 =
        if isMetaKey fields kv.1 then some kv.2 else acc.2.get? kv.1 := by
  induction body generalizing acc with
  | nil =>
    cases h
    exact ⟨fun _ _ => rfl, by simp⟩
  | cons kv body ih =>
    rw [List.foldlM_cons] at h
    obtain ⟨acc₁, hstep, h⟩ := exists_of_bind_eq_ok h
    rw [List.map_cons, List.nodup_cons] at hkeys
    obtain ⟨hother, hbody⟩ := ih h hkeys.2
    have hfirst := rest_splitEntry hstep
    have hne : ∀ key, kv.1 ≠ key → acc₁.2.get? key = acc.2.get? key := by
      intro key hne
      rw [hfirst]
      split
      · rw [Record.get?_set, if_neg hne]
      · rfl
    constructor
    · intro key hkey
      rw [List.map_cons, List.mem_cons, not_or] at hkey
      rw [hother key hkey.2, hne key (Ne.symm hkey.1)]
    · intro kv' hkv'
      rcases List.mem_cons.1 hkv' with rfl | hkv'
      · rw [hother _ hkeys.1, hfirst]
        split
        · rw [Record.get?_set, if_pos rfl]
        · rfl
      · rw [hbody kv' hkv']
        have hname : kv.1 ≠ kv'.1 := fun heq => hkeys.1 (heq ▸ List.mem_map_of_mem hkv')
        rw [hne _ hname]

theorem get?_rest {fields : List (FieldDefinition N)} (hkeys : (body.map Prod.fst).Nodup)
    (h : splitRowData P body fields = .ok (columns, rest)) {kv : String × JsVal N}
    (hkv : kv ∈ body) : rest.get? kv.1 = if isMetaKey fields kv.1 then some kv.2 else none := by
  obtain ⟨columns₀, hloop, -⟩ := rest_splitRowData h
  exact (get?_foldlM_rest hloop hkeys).2 kv hkv

omit [JsNumber N] in
theorem length_le_jsLength (s : String) : s.toList.length ≤ jsLength s := by
  unfold jsLength utf16
  induction s.toList with
  | nil => exact Nat.zero_le _
  | cons c cs ih =>
    have hpos : 0 < (charUnits c).length := by
      unfold charUnits
      split <;> simp
    rw [List.flatMap_cons, List.length_append, List.length_cons]
    omega

/-- `mergeRowData` of a stored row: the columns, then what `_meta` holds. -/
theorem get?_mergeRowData {S : ReadContext N} (hS : S.parseJson = Json.parse) {row : Record N}
    {metaText : String} (hrest : IsJson (.obj rest)) (hmeta : row.get? "_meta" = some (.str metaText))
    (htext : metaText = (JsVal.obj rest).toJson.getD "") (key : String) :
    (S.mergeRowData row).get? key =
      (if "_meta" = key then none else row.get? key).or (rest.get? key) := by
  have hcolumns := Record.get?_erase row "_meta" key
  have hget : row.get "_meta" = .str metaText := by
    rw [Record.get_eq, hmeta]
    rfl
  unfold ReadContext.mergeRowData
  simp only [hget]
  obtain ⟨s, hs, hparse⟩ := Json.parse_toJson hrest
  rw [hs, Option.getD_some] at htext
  subst htext
  by_cases hnil : rest = []
  · subst hnil
    split
    · rw [hS, hparse]
      simp only
      rw [Record.get?_assign, hcolumns]
    · rw [hcolumns, Record.get?_nil, Option.or_none]
  · have hlen : 2 < jsLength metaText := by
      have h1 := Json.two_lt_length_obj hrest hnil hs
      have h2 := length_le_jsLength metaText
      omega
    rw [if_pos hlen, hS, hparse]
    simp only
    rw [Record.get?_assign, hcolumns]

end Split

section Entries

variable {P : Platform N} {S : ReadContext N} {C : ColumnStore N} {target : EntitySchema N}
  {body columns rest : Record N}

/-- A column of texts keeps the values that are neither numbers nor booleans. -/
theorem keep_text_eq_iff {v : JsVal N} :
    ColumnAffinity.text.keep C v = v ↔ (∀ n, v ≠ .num n) ∧ ∀ b, v ≠ .bool b := by
  cases v with
  | num n => exact ⟨fun h => (by cases h), fun h => absurd rfl (h.1 n)⟩
  | bool b => exact ⟨fun h => (by cases h), fun h => absurd rfl (h.2 b)⟩
  | undefined | null | str | arr | obj | func =>
    exact ⟨fun _ => ⟨by simp, by simp⟩, fun _ => rfl⟩

/-- A rich text is stored as the sanitizer leaves it. -/
theorem richText_eq_iff {t : FieldType} {a : ColumnAffinity} {v coerced : JsVal N}
    (hsanitize : ∀ v, ∃ text, P.sanitizeHtml v = .str text) (ht : t = .textEditor ∨ t = .markdown)
    (ha : t.affinity = some a) (h : coerceValue v t = .ok coerced) :
    decodeAt S t (a.keep C (P.sanitizeHtml coerced)) = v ↔
      ∃ s, v = .str s ∧ P.sanitizeHtml (.str s) = .str s := by
  have hjson : t ≠ .json ∧ t ≠ .boolean := by obtain rfl | rfl := ht <;> decide
  have htext : t.affinity = some .text := by obtain rfl | rfl := ht <;> rfl
  obtain rfl : ColumnAffinity.text = a := Option.some.inj (htext.symm.trans ha)
  obtain ⟨text, hsanitized⟩ := hsanitize coerced
  rw [decodeAt_of_ne hjson.1 hjson.2, hsanitized]
  show JsVal.str text = v ↔ _
  constructor
  · rintro rfl
    have hcoerced := coerceValue_text (.inl ⟨hjson.1, htext⟩) rfl h
    rw [hcoerced] at hsanitized
    exact ⟨text, rfl, hsanitized⟩
  · rintro ⟨s, rfl, hs⟩
    have hcoerced := coerceValue_text (.inl ⟨hjson.1, htext⟩) rfl h
    rw [hcoerced] at hsanitized
    exact hsanitized.symm.trans hs

omit [JsNumber N] in
/-- The name of a field is none of the engine. -/
theorem name_not_system (htarget : target ∈ S.all) {f : FieldDefinition N}
    (hf : f ∈ target.info.schemaFields) : f.name ∉ systemFields := by
  intro hmem
  rcases List.mem_cons.1 hmem with hmeta | hmem
  · exact S.meta_reserved target htarget f hf hmeta
  · exact target.info.fields_user f hf hmem

omit [JsNumber N] in
theorem exists_of_schemaType {fields : List (FieldDefinition N)} {key : String} {t : FieldType}
    (h : schemaType fields key = some t) : ∃ f ∈ fields, f.name = key ∧ f.type = t := by
  obtain ⟨f, hfind, rfl⟩ := Option.map_eq_some_iff.1 h
  have hname := List.find?_some hfind
  exact ⟨f, List.mem_reverse.1 (List.mem_of_find?_eq_some hfind), eq_of_beq hname, rfl⟩

/-- A name that no field has is not decoded. -/
theorem decodeField_of_none {fields : List (FieldDefinition N)} {key : String}
    (h : schemaType fields key = none) (v : JsVal N) : S.decodeField fields key v = v := by
  have hany : ∀ p : FieldDefinition N → Bool, (fields.any fun f => f.name = key && p f) = false := by
    intro p
    rw [List.any_eq_false]
    intro f hf
    have hne : f.name ≠ key := by
      rintro rfl
      have hfind := List.find?_eq_none.1 (Option.map_eq_none_iff.1 h) f (List.mem_reverse.2 hf)
      simp at hfind
    simp [hne]
  unfold ReadContext.decodeField
  simp only [hany, Bool.false_eq_true, if_false]

/-- An entry of a payload as it is read: decoded from its column or from `_meta`. -/
theorem get?_readRow (hS : S.parseJson = Json.parse) (hbody : IsJson (.obj body))
    (hsplit : splitRowData P body target.info.schemaFields = .ok (columns, rest))
    {kv : String × JsVal N} (hkv : kv ∈ body) :
    (S.readRow target.info.schemaFields (C.row target.info.schemaFields columns)).get? kv.1 =
      ((if "_meta" = kv.1 then none
        else (columnAffinity target.info.schemaFields kv.1).bind fun a =>
          (columns.get? kv.1).map (a.keep C)).or
        (if isMetaKey target.info.schemaFields kv.1 then some kv.2 else none)).map
          (S.decodeField target.info.schemaFields kv.1) := by
  have hkeys : (body.map Prod.fst).Nodup := by
    cases hbody with
    | obj hkeys _ => exact hkeys
  have hrest := isJson_rest hbody hsplit
  obtain ⟨columns₀, hloop, htext⟩ := rest_splitRowData hsplit
  have hmeta : (C.row target.info.schemaFields columns).get? "_meta" =
      some (.str ((JsVal.obj rest).toJson.getD "")) := by
    rw [C.get?_row, htext]
    rfl
  unfold ReadContext.readRow ReadContext.decodeJsonFields
  rw [Record.get?_map (S.decodeField target.info.schemaFields),
    get?_mergeRowData hS hrest hmeta rfl, C.get?_row, get?_rest hkeys hsplit hkv]

/-- An entry of the engine is not read back. -/
theorem get?_readRow_system (hS : S.parseJson = Json.parse) (hbody : IsJson (.obj body))
    (hsplit : splitRowData P body target.info.schemaFields = .ok (columns, rest))
    {kv : String × JsVal N} (hkv : kv ∈ body) (hsystem : kv.1 ∈ systemFields) :
    (S.readRow target.info.schemaFields (C.row target.info.schemaFields columns)).get? kv.1 =
      none := by
  have hmeta : isMetaKey target.info.schemaFields kv.1 = false := by
    unfold isMetaKey
    rw [List.contains_iff_mem.2 hsystem]
    rfl
  have hcolumn : (if "_meta" = kv.1 then none
      else (columnAffinity target.info.schemaFields kv.1).bind fun a =>
        (columns.get? kv.1).map (a.keep C)) = none := by
    split
    · rfl
    · next hname =>
      have hname' : kv.1 ∈ systemFieldNames :=
        (List.mem_cons.1 hsystem).resolve_left (Ne.symm hname)
      rw [splitRowData_system target.info.fields_user hsplit hname']
      cases columnAffinity target.info.schemaFields kv.1 <;> rfl
  rw [get?_readRow hS hbody hsplit hkv, hmeta, hcolumn]
  rfl

/-- An entry is read as it was written if and only if it is one that is kept. -/
theorem readRow_entry_iff (hS : S.parseJson = Json.parse) (htarget : target ∈ S.all)
    (hsanitize : ∀ v, ∃ text, P.sanitizeHtml v = .str text) (hbody : IsJson (.obj body))
    (hsplit : splitRowData P body target.info.schemaFields = .ok (columns, rest))
    {kv : String × JsVal N} (hkv : kv ∈ body) :
    (S.readRow target.info.schemaFields (C.row target.info.schemaFields columns)).get? kv.1 =
      some kv.2 ↔ KeepsEntry P C target.info.schemaFields kv := by
  have hkeys : (body.map Prod.fst).Nodup := by
    cases hbody with
    | obj hkeys _ => exact hkeys
  have hvalue : IsJson kv.2 := by
    cases hbody with
    | obj _ hvalues => exact hvalues kv hkv
  have hbodyget := Record.get?_of_mem hkeys hkv
  unfold KeepsEntry
  by_cases hsystem : kv.1 ∈ systemFields
  · rw [get?_readRow_system hS hbody hsplit hkv hsystem]
    exact ⟨fun h => (by cases h), fun h => absurd hsystem h.1⟩
  have hname : "_meta" ≠ kv.1 := fun h => hsystem (h ▸ List.mem_cons_self)
  have hstores : storesColumn target.info kv.1 = true → ∃ value,
      columnValue P target.info.schemaFields kv.1 kv.2 = .ok value ∧
        columns.get? kv.1 = some value := fun h => get?_splitRowData hkeys h hsplit hbodyget
  have hcontains : systemFields.contains kv.1 = false := by simpa using hsystem
  rw [get?_readRow hS hbody hsplit hkv, if_neg hname, columnAffinity, if_neg (Ne.symm hname)]
  cases htype : schemaType target.info.schemaFields kv.1 with
  | none =>
    have hdecode := fun v => decodeField_of_none (S := S) htype v
    cases hm2a : (m2aColumns target.info.schemaFields).contains kv.1 with
    | false =>
      have hmeta : isMetaKey target.info.schemaFields kv.1 = true := by
        simp only [isMetaKey, hcontains, htype, hm2a, Option.isNone_none, Bool.not_false,
          Bool.and_self]
      rw [hmeta]
      simp only [Bool.false_eq_true, if_false, Option.bind_none, Option.none_or, if_true,
        Option.map_some, hdecode, false_imp_iff, and_true, true_iff]
      exact hsystem
    | true =>
      have hmeta : isMetaKey target.info.schemaFields kv.1 = false := by
        simp only [isMetaKey, hcontains, htype, hm2a, Bool.not_true, Bool.and_false]
      have hstored : storesColumn target.info kv.1 = true := by
        simp only [storesColumn, hcontains, htype, hm2a, Bool.not_false, Bool.and_self]
      obtain ⟨value, hvalue', hcolumn⟩ := hstores hstored
      obtain rfl : kv.2 = value := by
        unfold columnValue at hvalue'
        rw [htype] at hvalue'
        exact Except.ok.inj hvalue'
      rw [hmeta, hcolumn]
      simp only [if_true, Option.bind_some, Option.map_some, Option.some_or, hdecode,
        Option.some.injEq, true_imp_iff]
      rw [and_iff_right hsystem]
      exact keep_text_eq_iff
  | some t =>
    have hmeta : isMetaKey target.info.schemaFields kv.1 = false := by
      simp only [isMetaKey, htype, Option.isNone_some, Bool.and_false, Bool.false_and]
    rw [hmeta, if_neg Bool.false_ne_true, Option.or_none]
    simp only
    cases haffinity : t.affinity with
    | none =>
      exact ⟨fun h => (by cases h), fun h => absurd h.2.1 (by simp)⟩
    | some a =>
      obtain ⟨f, hf, hfname, rfl⟩ := exists_of_schemaType htype
      have hvirtual : [FieldType.o2m, .m2m, .table, .formula].contains f.type = false := by
        cases htype : f.type <;> rw [htype] at haffinity <;> first | rfl | cases haffinity
      have hstored : storesColumn target.info kv.1 = true := by
        simp only [storesColumn, hcontains, htype, hvirtual, Bool.not_false, Bool.and_self]
      obtain ⟨value, hvalue', hcolumn⟩ := hstores hstored
      rw [hcolumn, Option.bind_some, Option.map_some, Option.map_some, ← hfname,
        decodeField_eq S (S.names_nodup target htarget) hf
          (fun h => by rw [h] at hvirtual; cases hvirtual),
        Option.some.injEq, hfname, and_iff_right hsystem, Option.isSome_some, and_iff_right rfl]
      unfold columnValue at hvalue'
      rw [htype] at hvalue'
      obtain ⟨coerced, hcoerced, hvalue'⟩ := exists_of_bind_eq_ok hvalue'
      by_cases hrich : f.type = .textEditor ∨ f.type = .markdown
      · rw [if_pos hrich]
        rw [if_pos (by simpa using hrich)] at hvalue'
        cases hvalue'
        exact richText_eq_iff hsanitize hrich haffinity hcoerced
      · rw [if_neg hrich]
        rw [if_neg (by simpa using hrich)] at hvalue'
        cases hvalue'
        exact decodeAt_eq_iff hS haffinity hvalue hcoerced

end Entries

/-! ## A collection of settings -/

/-- Columns of integers, where a text in the form of a number is read as one. -/
def integerColumns : ColumnStore (Option Int) where
  numeric s := if Json.isNumber s.toList then some (JsNumber.ofString s) else none
  numeral := JsNumber.toString
  numeric_toString n hn := by rw [if_pos hn.2.1, hn.2.2.2]
  not_nan n hn := by
    cases n with
    | none => cases hn
    | some n => rfl
  one_eq_one := rfl
  zero_eq_zero := rfl
  zero_ne_one := rfl

/-- A platform whose sanitizer leaves every text as it is. -/
def plainPlatform : Platform (Option Int) where
  randomUUID := "5f0c1c5e-9f5c-4b8e-8a57-0d9e8b1f2a3c"
  sanitizeHtml v := .str v.toStr
  encrypt _ v := v

/-- Settings with a json value and a list of tags. -/
def settingsSchema : EntitySchema (Option Int) where
  slug := "settings"
  name := "Settings"
  info := {
    tableName := "cms_settings"
    schemaFields := [{ name := "config", type := .json }, { name := "labels", type := .tags }]
    fields_user := by decide }

/-- A read of the settings. -/
def settingsRead : ReadContext (Option Int) where
  all := [settingsSchema]
  slugs_nodup := by decide
  names_nodup := by decide
  tables _ := []
  junctions _ := []
  engine := textEngine
  auth := none
  rowFilter _ := none
  fieldRestrictions _ := none
  parseJson := Json.parse
  registry _ := none
  id_text _ row hrow := by cases hrow
  id_unique _ row hrow := by cases hrow
  meta_reserved := by decide

end HeadlessErp
