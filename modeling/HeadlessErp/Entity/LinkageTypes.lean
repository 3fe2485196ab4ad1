import Mathlib
import HeadlessErp.Entity.FieldRules

/-!
# The types of linkage conditions

A condition of a linkage names a field, and `_checkCondition` compares its value as the field that
hosts the linkage is stored (`checkLinkCondition`). `comparesAs` compares it as the named field is
stored. The two agree on every condition and document exactly where the two fields are stored in
one way (`linkage_iff`).
-/

namespace HeadlessErp

/-! ## How a type is stored -/

/-- The branches of `coerceValue`. The two references differ in the texts of their errors only. -/
inductive StorageKind where
  | integer | number | boolean | json | reference | text
  deriving DecidableEq

/-- The branch of a type. -/
def FieldType.storageKind : FieldType → StorageKind
  | .integer => .integer
  | .number => .number
  | .boolean => .boolean
  | .json => .json
  | .uuid | .m2o => .reference
  | _ => .text

/-- A type of a branch. -/
def StorageKind.fieldType : StorageKind → FieldType
  | .integer => .integer
  | .number => .number
  | .boolean => .boolean
  | .json => .json
  | .reference => .uuid
  | .text => .text

section
variable {N : Type} [JsNumber N]

/-- A value as a type stores it. What the type refuses is compared as it is. -/
def storedAs (t : FieldType) (v : JsVal N) : JsVal N :=
  match coerceValue v t with
  | .ok v => v
  | .error _ => v

/-- The values are equal, as a type stores them. -/
def equalAs (t : FieldType) (v w : JsVal N) : Bool := strictEq (storedAs t v) (storedAs t w)

/-- What a condition on a field of a type says of the field's value: `eq`, `neq` and `in`. -/
def comparesAs (t : FieldType) (op : ConditionOp) (v value : JsVal N) : Bool :=
  match op with
  | .eq => equalAs t v value
  | .neq => !equalAs t v value
  | .in =>
    match value with
    | .arr ws => ws.any (equalAs t v)
    | _ => false
  | _ => false

theorem storedAs_fieldType (t : FieldType) (v : JsVal N) :
    storedAs t v = storedAs t.storageKind.fieldType v := by
  cases t <;> try rfl
  -- the other reference
  cases hnullish : v.isNullish with
  | true => simp [storedAs, coerceValue, hnullish]
  | false =>
    cases huuid : isUuid v.toStr <;>
      simp [storedAs, coerceValue, hnullish, huuid, FieldType.storageKind, StorageKind.fieldType]

theorem equalAs_of_storageKind {t t' : FieldType} (h : t.storageKind = t'.storageKind)
    (v w : JsVal N) : equalAs t v w = equalAs t' v w := by
  rw [equalAs, equalAs, storedAs_fieldType t, storedAs_fieldType t w, h, ← storedAs_fieldType t',
    ← storedAs_fieldType t']

/-! ## The host's type -/

/-- The operators of equality. -/
def ConditionOp.isEquality (op : ConditionOp) : Bool := op = .eq || op = .neq || op = .in

theorem checkLinkCondition_eq (host : FieldType) (cond : HookCondition N) (data : Record N)
    (h : cond.op.isEquality = true) : checkLinkCondition host cond data =
      comparesAs host cond.op ((JsVal.obj data).getMember cond.field) cond.value := by
  unfold checkLinkCondition comparesAs
  cases hop : cond.op <;> rw [hop] at h <;> first | rfl | cases h

theorem getMember_obj {name : String} (h : isInherited name = false) (data : Record N) :
    (JsVal.obj data).getMember name = data.get name := by
  rw [isInherited, Bool.or_eq_false_iff] at h
  rw [JsVal.getMember, Record.get, Record.get?]
  cases JsVal.ownMember data name with
  | some v => rfl
  | none => simp only [h.1, h.2, Bool.false_eq_true, if_false, Option.getD_none]

/-- Every condition that a host makes on a field says of every document what it says of the field's
value as the field stores it. -/
def HostAgrees (host f : FieldDefinition N) : Prop :=
  ∀ (op : ConditionOp) (value : JsVal N) (data : Record N), op.isEquality = true →
    checkLinkCondition host.type { field := f.name, op, value } data =
      comparesAs f.type op (data.get f.name) value

theorem hostAgrees_of_storageKind {host f : FieldDefinition N}
    (h : host.type.storageKind = f.type.storageKind) (hname : isInherited f.name = false) :
    HostAgrees host f := by
  intro op value data hop
  rw [checkLinkCondition_eq _ _ _ hop, getMember_obj hname]
  have hequal : equalAs (N := N) host.type = equalAs f.type :=
    funext fun v => funext fun w => equalAs_of_storageKind h v w
  simp only [comparesAs, hequal]

/-! ## Values that tell the types apart -/

/-- What the comparisons rest on: the conversion of a text that is no number and of an object is
not a number, zero is a number equal to itself and different from one. -/
structure NumberFacts (N : Type) [JsNumber N] : Prop where
  nan : JsNumber.isNaN (JsNumber.nan : N) = true
  text : JsNumber.isNaN (JsNumber.ofString "true" : N) = true
  zero : JsNumber.isNaN (JsNumber.ofInt 0 : N) = false
  zero_eq_zero : JsNumber.eq (JsNumber.ofInt 0 : N) (JsNumber.ofInt 0) = true
  zero_ne_one : JsNumber.eq (JsNumber.ofInt 0 : N) (JsNumber.ofInt 1) = false

section
variable (facts : NumberFacts N)
include facts

/-- An integer field stores an object and a text that is no number as zero. -/
theorem integer_iff (k : StorageKind) :
    equalAs k.fieldType (.obj [] : JsVal N) (.str "true") = true ↔ k = .integer := by
  have htext : isUuid "true" = false := by decide
  have hobject : isUuid "[object Object]" = false := by decide
  have hlower : toLowerCase (jsTrim "true") = "true" := by decide
  have hlower' : toLowerCase (jsTrim "[object Object]") = "[object object]" := by decide
  cases k <;> simp [equalAs, storedAs, coerceValue, StorageKind.fieldType, JsVal.isNullish,
    JsVal.toNum, strictEq, JsVal.toStr, JsVal.toJson, toJsonMembers, htext, hobject, hlower,
    hlower', facts.nan, facts.text, facts.zero_eq_zero, facts.zero_ne_one]

/-- Of the other types, a boolean field stores an object as false. -/
theorem boolean_iff {k : StorageKind} (hk : k ≠ .integer) :
    equalAs k.fieldType (.obj [] : JsVal N) (.bool false) = true ↔ k = .boolean := by
  have hobject : isUuid "[object Object]" = false := by decide
  have hfalse : isUuid "false" = false := by decide
  have hlower : toLowerCase (jsTrim "[object Object]") = "[object object]" := by decide
  cases k with
  | integer => exact absurd rfl hk
  | _ => simp [equalAs, storedAs, coerceValue, StorageKind.fieldType, JsVal.isNullish, JsVal.toNum,
      strictEq, JsVal.toStr, JsVal.toJson, toJsonMembers, hobject, hfalse, hlower, facts.nan,
      facts.zero, facts.zero_eq_zero]

/-- Of the others, a json field stores an object as its text. -/
theorem json_iff {k : StorageKind} (hk : k ≠ .integer) (hk' : k ≠ .boolean) :
    equalAs k.fieldType (.obj [] : JsVal N) (.str "\x7b\x7d") = true ↔ k = .json := by
  have hobject : isUuid "[object Object]" = false := by decide
  have hbraces : isUuid "\x7b\x7d" = false := by decide
  cases k with
  | integer => exact absurd rfl hk
  | boolean => exact absurd rfl hk'
  | number =>
    cases hnan : JsNumber.isNaN (JsNumber.ofString "\x7b\x7d" : N) <;>
      simp [equalAs, storedAs, coerceValue, StorageKind.fieldType, JsVal.isNullish, JsVal.toNum,
        strictEq, JsVal.toStr, facts.nan, hnan]
  | _ => simp [equalAs, storedAs, coerceValue, StorageKind.fieldType, JsVal.isNullish,
      strictEq, JsVal.toStr, JsVal.toJson, toJsonMembers, hobject, hbraces]

/-- Of the others, a text field stores every object as the same text. -/
theorem text_iff {k : StorageKind} (hk : k = .number ∨ k = .reference ∨ k = .text) :
    equalAs k.fieldType (.obj [] : JsVal N) (.str "[object Object]") = true ↔ k = .text := by
  have hobject : isUuid "[object Object]" = false := by decide
  rcases hk with rfl | rfl | rfl
  · cases hnan : JsNumber.isNaN (JsNumber.ofString "[object Object]" : N) <;>
      simp [equalAs, storedAs, coerceValue, StorageKind.fieldType, JsVal.isNullish, JsVal.toNum,
        strictEq, JsVal.toStr, facts.nan, hnan]
  · simp [equalAs, storedAs, coerceValue, StorageKind.fieldType, JsVal.isNullish, strictEq,
      JsVal.toStr, hobject]
  · simp [equalAs, storedAs, coerceValue, StorageKind.fieldType, JsVal.isNullish, strictEq,
      JsVal.toStr]

/-- A number field stores false as zero, and a reference does not take it. -/
theorem number_iff {k : StorageKind} (hk : k = .number ∨ k = .reference) :
    equalAs k.fieldType (.bool false : JsVal N) (.num (JsNumber.ofInt 0)) = true ↔
      k = .number := by
  have hfalse : isUuid "false" = false := by decide
  rcases hk with rfl | rfl
  · simp [equalAs, storedAs, coerceValue, StorageKind.fieldType, JsVal.isNullish, JsVal.toNum,
      strictEq, facts.zero, facts.zero_eq_zero]
  · cases huuid : isUuid (JsNumber.toString (JsNumber.ofInt 0 : N)) <;>
      simp [equalAs, storedAs, coerceValue, StorageKind.fieldType, JsVal.isNullish, strictEq,
        JsVal.toStr, hfalse, huuid]

/-- Types that are stored in different ways are told apart by a comparison. -/
theorem storageKind_of_equalAs {k k' : StorageKind}
    (h : ∀ v w : JsVal N, equalAs k.fieldType v w = equalAs k'.fieldType v w) : k = k' := by
  have hinteger : k = .integer ↔ k' = .integer := by
    rw [← integer_iff facts k, ← integer_iff facts k', h]
  by_cases hk : k = .integer
  · rw [hk, hinteger.1 hk]
  have hk' : k' ≠ .integer := fun heq => hk (hinteger.2 heq)
  have hboolean : k = .boolean ↔ k' = .boolean := by
    rw [← boolean_iff facts hk, ← boolean_iff facts hk', h]
  by_cases hb : k = .boolean
  · rw [hb, hboolean.1 hb]
  have hb' : k' ≠ .boolean := fun heq => hb (hboolean.2 heq)
  have hjson : k = .json ↔ k' = .json := by
    rw [← json_iff facts hk hb, ← json_iff facts hk' hb', h]
  by_cases hj : k = .json
  · rw [hj, hjson.1 hj]
  have hj' : k' ≠ .json := fun heq => hj (hjson.2 heq)
  have hrest : ∀ {k : StorageKind}, k ≠ .integer → k ≠ .boolean → k ≠ .json →
      k = .number ∨ k = .reference ∨ k = .text := by
    intro k
    cases k <;> simp
  have htext : k = .text ↔ k' = .text := by
    rw [← text_iff facts (hrest hk hb hj), ← text_iff facts (hrest hk' hb' hj'), h]
  by_cases ht : k = .text
  · rw [ht, htext.1 ht]
  have hpair : k = .number ∨ k = .reference := by
    rcases hrest hk hb hj with hn | hr | ht'
    · exact .inl hn
    · exact .inr hr
    · exact absurd ht' ht
  have hpair' : k' = .number ∨ k' = .reference := by
    rcases hrest hk' hb' hj' with hn | hr | ht'
    · exact .inl hn
    · exact .inr hr
    · exact absurd (htext.2 ht') ht
  have hnumber : k = .number ↔ k' = .number := by
    rw [← number_iff facts hpair, ← number_iff facts hpair', h]
  rcases hpair with hn | hr
  · rw [hn, hnumber.1 hn]
  · rcases hpair' with hn | hr'
    · exact hr.trans (absurd (hnumber.2 hn) (by rw [hr]; decide))
    · rw [hr, hr']

end

/-! ## Hosts and fields -/

/-- A member that every object inherits is a function or an object. -/
theorem getMember_inherited {name : String} (h : isInherited name = true) :
    (JsVal.obj ([] : Record N)).getMember name = .func name ∨
      (JsVal.obj ([] : Record N)).getMember name = .obj [] := by
  rw [isInherited, Bool.or_eq_true] at h
  rw [JsVal.getMember]
  simp only [JsVal.ownMember, List.find?_nil, Option.map_none]
  split
  · exact .inl rfl
  · next hother =>
    rw [if_pos (h.resolve_left hother)]
    exact .inr rfl

/-- A boolean field stores what is not null as a number. -/
theorem storedAs_boolean {v : JsVal N} (h : v.isNullish = false) :
    ∃ n, storedAs .boolean v = .num n := by
  have hstored : ∃ n, coerceValue v .boolean = .ok (.num n) := by
    unfold coerceValue
    rw [h]
    cases v with
    | undefined | null => cases h
    | bool b => cases b <;> exact ⟨_, rfl⟩
    | num | str | arr | obj | func =>
      simp only [Bool.false_eq_true, if_false]
      split
      · exact ⟨_, rfl⟩
      split
      · exact ⟨_, rfl⟩
      split
      · exact ⟨_, rfl⟩
      · exact ⟨_, rfl⟩
  obtain ⟨n, hn⟩ := hstored
  exact ⟨n, by rw [storedAs, hn]⟩

/-- It is not stored as null. -/
theorem equalAs_inherited (facts : NumberFacts N) {name : String} (h : isInherited name = true)
    (t : FieldType) : equalAs t ((JsVal.obj ([] : Record N)).getMember name) .null = false := by
  have hnull : storedAs t (.null : JsVal N) = .null := by
    simp [storedAs, coerceValue, JsVal.isNullish]
  rw [equalAs, hnull, storedAs_fieldType]
  rcases getMember_inherited (N := N) h with hmember | hmember
  · rw [hmember]
    cases t.storageKind with
    | reference =>
      cases huuid : isUuid (JsVal.func name : JsVal N).toStr <;>
        simp [storedAs, coerceValue, StorageKind.fieldType, JsVal.isNullish, strictEq, huuid]
    | boolean =>
      obtain ⟨n, hn⟩ := storedAs_boolean (v := (.func name : JsVal N)) rfl
      rw [StorageKind.fieldType, hn]
      rfl
    | _ => simp [storedAs, coerceValue, StorageKind.fieldType, JsVal.isNullish, strictEq,
        JsVal.toNum, JsVal.toJson, facts.nan]
  · have hobject : isUuid "[object Object]" = false := by decide
    rw [hmember]
    cases t.storageKind with
    | boolean =>
      obtain ⟨n, hn⟩ := storedAs_boolean (v := (.obj [] : JsVal N)) rfl
      rw [StorageKind.fieldType, hn]
      rfl
    | _ => simp [storedAs, coerceValue, StorageKind.fieldType, JsVal.isNullish, strictEq,
        JsVal.toNum, JsVal.toStr, JsVal.toJson, toJsonMembers, facts.nan, hobject]

/-- Every condition on a field that another field hosts compares the field's value as the field
stores it, exactly where the two fields are stored in one way and no object inherits a member of the
field's name. -/
theorem linkage_iff (facts : NumberFacts N) (host f : FieldDefinition N) :
    HostAgrees host f ↔
      host.type.storageKind = f.type.storageKind ∧ isInherited f.name = false := by
  constructor
  · intro h
    have hname : isInherited f.name = false := by
      rw [← Bool.not_eq_true]
      intro hinherited
      have hnull := h .eq .null [] rfl
      rw [checkLinkCondition_eq _ _ _ rfl] at hnull
      have hown : comparesAs f.type .eq (Record.get ([] : Record N) f.name) .null = true := by
        simp [comparesAs, equalAs, storedAs, coerceValue, Record.get, JsVal.isNullish, strictEq]
      exact absurd ((equalAs_inherited facts hinherited host.type).symm.trans (hnull.trans hown))
        (by decide)
    refine ⟨storageKind_of_equalAs facts fun v w => ?_, hname⟩
    have hpair := h .eq w [(f.name, v)] rfl
    rw [checkLinkCondition_eq _ _ _ rfl, getMember_obj hname] at hpair
    have hown : Record.get [(f.name, v)] f.name = v := by
      simp [Record.get, Record.get?, JsVal.ownMember]
    simp only [hown, comparesAs] at hpair
    rw [equalAs, equalAs, ← storedAs_fieldType, ← storedAs_fieldType, ← storedAs_fieldType,
      ← storedAs_fieldType]
    exact hpair
  · exact fun h => hostAgrees_of_storageKind h.1 h.2

end

/-! ## A flag that hosts a condition on a status -/

theorem toInt?_true : "true".toInt? = none := by
  rw [String.toInt?_eq_none_iff, ← Bool.not_eq_true, String.isInt_iff, String.isNat_iff]
  rintro (hnat | ⟨t, ht, -⟩)
  · exact absurd (hnat.2.1 't' (by simp)) (by decide)
  · have hlist := congrArg String.toList ht
    rw [String.toList_append] at hlist
    simp at hlist

theorem optionInt_facts : NumberFacts (Option Int) where
  nan := rfl
  text := congrArg Option.isNone toInt?_true
  zero := rfl
  zero_eq_zero := rfl
  zero_ne_one := rfl

/-- A document's status, a text. -/
def statusField : FieldDefinition (Option Int) := { name := "status", type := .text }

/-- A field of texts. -/
def noteField : FieldDefinition (Option Int) := { name := "note", type := .longtext }

/-- A flag. -/
def lockedField : FieldDefinition (Option Int) := { name := "locked", type := .boolean }

theorem noteField_agrees : HostAgrees noteField statusField :=
  (linkage_iff optionInt_facts noteField statusField).2 ⟨rfl, by decide⟩

/-- A flag takes two different texts for equal. -/
theorem lockedField_disagrees : ¬HostAgrees lockedField statusField := by
  intro h
  have hcompare := h .eq (.str "posted") [("status", .str "draft")] rfl
  rw [checkLinkCondition_eq _ _ _ rfl] at hcompare
  revert hcompare
  decide

end HeadlessErp
