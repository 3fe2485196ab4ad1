import HeadlessErp.Base.Like
import HeadlessErp.Query.Compilers

/-!
# Filters on a part of a text

`_contains`, `_icontains`, `_ncontains`, `_startswith` and `_endswith` compare a text with a `LIKE`
pattern that holds the filter's value as it is. A wildcard in the value keeps its meaning there, so
what a filter selects is what its value says literally if and only if the value has none
(`matchesLiterally_iff`).
-/

namespace HeadlessErp

/-! ## The operators -/

/-- The operators that compare a text with a part. -/
inductive LikeOperator where
  | contains
  | icontains
  | ncontains
  | startswith
  | endswith
  deriving DecidableEq, Repr

namespace LikeOperator

/-- The operator of a filter. -/
def operator : LikeOperator → FilterOperator
  | contains => .contains
  | icontains => .icontains
  | ncontains => .ncontains
  | startswith => .startswith
  | endswith => .endswith

/-- The operator with a value. -/
def test (N : Type) (op : LikeOperator) (value : String) : FilterTest N :=
  ⟨op.operator, .str value, by cases op <;> rfl⟩

/-- What the operator says of a text, literally. -/
def literally (op : LikeOperator) (value text : String) : Bool :=
  let v := foldCase value.toList
  let t := foldCase text.toList
  match op with
  | contains | icontains => decide (v <:+: t)
  | ncontains => !decide (v <:+: t)
  | startswith => decide (v <+: t)
  | endswith => decide (v <:+ t)

/-- The pieces of the operator's pattern. -/
def pieces (op : LikeOperator) (value : String) : List LikePiece :=
  let v := value.toList.map .ofChar
  match op with
  | contains | icontains | ncontains => .any :: (v ++ [.any])
  | startswith => v ++ [.any]
  | endswith => .any :: v

/-- What the operator's pattern says of a text. -/
def selects (op : LikeOperator) (value text : String) : Bool :=
  let matched := matchLike (op.pieces value) text.toList
  if op = .ncontains then !matched else matched

end LikeOperator

section
variable {N : Type} [JsNumber N] {Row : Type}

/-- A column holds texts, and the database compares them as SQLite does. -/
def SqlEngine.ReadsText (E : SqlEngine N Row) (column : String) (text : Row → String) : Prop :=
  ∀ r pattern, E.like r column (.str pattern) =
    .ofBool (isLike none pattern.toList (text r).toList)

/-- A filter selects the rows whose text is as it says, literally, in each of its three ways into a
query. -/
def MatchesLiterally (N : Type) [JsNumber N] (op : LikeOperator) (value : String) : Prop :=
  ∀ (Row : Type) (E : SqlEngine N Row), E.Lawful → ∀ (names : List String) (table column : String)
    (text : Row → String) (rows : List Row), E.ReadsText column text → isIdentifier table = true →
    isIdentifier column = true → names.contains column = true →
    let selected := .ok (rows.filter fun r => op.literally value (text r))
    (flatQuery names table column (op.test N value) >>= fun q => E.select q rows) = selected ∧
      (groupQuery names table column (op.test N value) >>= fun q => E.select q rows) = selected ∧
      (nestedQuery table column (op.test N value) >>= fun q => E.select q rows) = selected

/-! ## What a filter selects -/

variable {E : SqlEngine N Row} {column : String} {text : Row → String}

omit [JsNumber N] in
/-- A pattern on a row. -/
theorem isTrue_condition_like (hE : E.ReadsText column text) (pattern : String) (r : Row) :
    (E.condition r column .like (.str pattern)).isTrue =
      matchLike (pattern.toList.map .ofChar) (text r).toList := by
  show (E.like r column (.str pattern)).isTrue = _
  rw [hE r pattern, Tri.isTrue_ofBool, isLike_none]

omit [JsNumber N] in
/-- The negation of a pattern on a row. -/
theorem isTrue_condition_notLike (hE : E.ReadsText column text) (pattern : String) (r : Row) :
    (E.condition r column .notLike (.str pattern)).isTrue =
      !matchLike (pattern.toList.map .ofChar) (text r).toList := by
  show (E.like r column (.str pattern)).not.isTrue = _
  rw [hE r pattern, isLike_none]
  cases matchLike (pattern.toList.map .ofChar) (text r).toList <;> rfl

/-- An operator's test of a row. -/
theorem testHolds_test (hE : E.ReadsText column text) (op : LikeOperator) (value : String) :
    testHolds E column (op.test N value) = fun r => op.selects value (text r) := by
  funext r
  have hboth : ("%" ++ value ++ "%").toList.map LikePiece.ofChar =
      .any :: (value.toList.map .ofChar ++ [.any]) := by
    simp [LikePiece.ofChar]
  have hafter : ("" ++ value ++ "%").toList.map LikePiece.ofChar =
      value.toList.map .ofChar ++ [.any] := by
    simp [LikePiece.ofChar]
  have hbefore : ("%" ++ value ++ "").toList.map LikePiece.ofChar =
      .any :: value.toList.map .ofChar := by
    simp [LikePiece.ofChar]
  cases op with
  | contains | icontains =>
    refine (isTrue_condition_like hE ("%" ++ value ++ "%") r).trans ?_
    rw [hboth]
    rfl
  | ncontains =>
    refine (isTrue_condition_notLike hE ("%" ++ value ++ "%") r).trans ?_
    rw [hboth]
    rfl
  | startswith =>
    refine (isTrue_condition_like hE ("" ++ value ++ "%") r).trans ?_
    rw [hafter]
    rfl
  | endswith =>
    refine (isTrue_condition_like hE ("%" ++ value ++ "") r).trans ?_
    rw [hbefore]
    rfl

/-- The three queries select the rows that match the operator's pattern. -/
theorem select_test (hL : E.Lawful) (hE : E.ReadsText column text) {names : List String}
    {table : String} (htable : isIdentifier table = true) (hcolumn : isIdentifier column = true)
    (hnames : names.contains column = true) (op : LikeOperator) (value : String) (rows : List Row) :
    let selected := .ok (rows.filter fun r => op.selects value (text r))
    (flatQuery names table column (op.test N value) >>= fun q => E.select q rows) = selected ∧
      (groupQuery names table column (op.test N value) >>= fun q => E.select q rows) = selected ∧
      (nestedQuery table column (op.test N value) >>= fun q => E.select q rows) = selected := by
  have hflat := renders_operatorClauses hL hcolumn (op.test N value)
  have hgroup := renders_group hL hcolumn (suits_groupTest (op.test N value))
  dsimp only
  rw [flatQuery_eq hcolumn htable hnames, groupQuery_eq htable hnames,
    nestedQuery_eq hcolumn htable]
  simp only [bind, Except.bind, select_of_renders hflat, select_of_renders (.cons hgroup .nil),
    holds_operatorClauses hcolumn hL, holds_group, testHolds_test hE, and_self]

/-! ## Wildcards in a value -/

omit [JsNumber N] in
/-- Without wildcards a pattern says what its value says literally. -/
theorem selects_eq_literally (op : LikeOperator) {value : String}
    (h : value.toList.all (!isWildcard ·) = true) (text : String) :
    op.selects value text = op.literally value text := by
  unfold LikeOperator.selects LikeOperator.pieces LikeOperator.literally
  dsimp only
  rw [map_ofChar_eq h]
  cases op with
  | contains | icontains => exact Bool.eq_iff_iff.2 (matchLike_contains.trans decide_eq_true_iff.symm)
  | ncontains =>
    rw [if_pos rfl]
    exact congrArg _ (Bool.eq_iff_iff.2 (matchLike_contains.trans decide_eq_true_iff.symm))
  | startswith => exact Bool.eq_iff_iff.2 (matchLike_startsWith.trans decide_eq_true_iff.symm)
  | endswith => exact Bool.eq_iff_iff.2 (matchLike_endsWith.trans decide_eq_true_iff.symm)

omit [JsNumber N] in
/-- A pattern with a wildcard matches a text that its value does not say. -/
theorem exists_selects_ne_literally (op : LikeOperator) {value : String}
    (h : value.toList.all (!isWildcard ·) = false) :
    ∃ text, op.selects value text ≠ op.literally value text := by
  obtain ⟨c, hc, hwild⟩ := List.all_eq_false.1 h
  have hpart := not_infix_filled hc (by simpa using hwild)
  have hmatch := matchLike_filled value.toList
  have hafter : matchLike (value.toList.map .ofChar ++ [.any]) (filled value.toList) = true :=
    matchLike_append.2 ⟨_, [], List.append_nil _, hmatch, matchLike_any_singleton⟩
  have hany {p : List LikePiece} {t : List Char} (hp : matchLike p t = true) :
      matchLike (.any :: p) t = true := matchLike_any.2 ⟨t, List.suffix_refl t, hp⟩
  have hmatched : matchLike (op.pieces value) (filled value.toList) = true := by
    cases op with
    | contains | icontains | ncontains => exact hany hafter
    | startswith => exact hafter
    | endswith => exact hany hmatch
  refine ⟨String.ofList (filled value.toList), ?_⟩
  unfold LikeOperator.selects LikeOperator.literally
  simp only [String.toList_ofList, hmatched]
  cases op with
  | contains | icontains | ncontains => simp [hpart]
  | startswith => simpa using fun hstart => hpart hstart.isInfix
  | endswith => simpa using fun hend => hpart hend.isInfix

/-- A table of texts. -/
def textTable (N : Type) : SqlEngine N String where
  isNull _ _ := false
  cmp _ _ _ := none
  like text _ v :=
    match v with
    | .str pattern => .ofBool (isLike none pattern.toList text.toList)
    | _ => .unknown
  raw _ := (nullTable N).raw ()
  inQuery _ _ _ := .unknown
  existsQuery _ _ := .unknown
  bindable := JsVal.isScalar

/-- That database reads the builder's own texts as it should. -/
theorem textTable_lawful (N : Type) [JsNumber N] : (textTable N).Lawful where
  raw_false _ := (nullTable_lawful N).raw_false ()
  raw_true _ := (nullTable_lawful N).raw_true ()
  raw_jsonEach r column op vs hcolumn hop hlen hvs := by
    have hraw := (nullTable_lawful N).raw_jsonEach () column op vs hcolumn hop hlen hvs
    obtain rfl | rfl := hop <;> exact hraw
  bindable_scalar _ h := h

omit [JsNumber N] in
theorem textTable_readsText (column : String) : (textTable N).ReadsText column id :=
  fun _ _ => rfl

end

end HeadlessErp
