import HeadlessErp.Js.Value

/-!
# SQL text with placeholders

The query builder of `packages/core/src/db/query-builder.ts` emits SQL text and a list of bindings.
Text is kept here as pieces, so that a placeholder is a value and not a spelling: `?` and `?N` where
SQLite reads them, and the same characters inside a quoted literal, where it does not.
`SqlText.numbers` is SQLite's own numbering: `?N` is parameter `N`, and a plain `?` is one more than
the largest parameter so far. `renumberAll` and `renumberNumbered` are the two textual renumberings
of the builder.
-/

namespace HeadlessErp

/-! ## Text -/

/-- A piece of SQL text. `mark` is a placeholder, plain or numbered; `quoted` has the spelling of a
placeholder inside a quoted literal. -/
inductive SqlPiece where
  | text (s : String)
  | mark (n : Option Nat)
  | quoted (n : Option Nat)
  deriving DecidableEq, Repr

/-- A run of SQL text. -/
abbrev SqlText := List SqlPiece

/-- `SqlStatement`: the text, and the values bound to its placeholders. -/
structure SqlStatement (N : Type) where
  sql : SqlText
  bindings : List (JsVal N)

/-- A joined list of texts: `parts.join(sep)`. -/
def SqlText.join (sep : String) : List SqlText → SqlText
  | [] => []
  | [t] => t
  | t :: ts => t ++ .text sep :: SqlText.join sep ts

/-! ## Placeholders -/

/-- The characters the regular expression `\?(\d+)?` matches, in a literal or not. -/
def SqlPiece.isAnyMark : SqlPiece → Bool
  | .text _ => false
  | .mark _ | .quoted _ => true

/-- The characters the regular expression `\?\d+` matches, in a literal or not. -/
def SqlPiece.isNumbered : SqlPiece → Bool
  | .mark (some _) | .quoted (some _) => true
  | _ => false

/-- A placeholder with another number, in a literal or not. -/
def SqlPiece.withNumber (n : Nat) : SqlPiece → SqlPiece
  | .text s => .text s
  | .mark _ => .mark (some n)
  | .quoted _ => .quoted (some n)

/-- `sql.replace(re, () => ?counter++)`: the new text and the counter. -/
def SqlText.renumber (matched : SqlPiece → Bool) : Nat → SqlText → SqlText × Nat
  | counter, [] => ([], counter)
  | counter, p :: t =>
    if matched p then
      let (t', counter') := SqlText.renumber matched (counter + 1) t
      (p.withNumber counter :: t', counter')
    else
      let (t', counter') := SqlText.renumber matched counter t
      (p :: t', counter')

/-- The renumbering of raw fragments, plain placeholders included. -/
def SqlText.renumberAll : Nat → SqlText → SqlText × Nat := SqlText.renumber SqlPiece.isAnyMark

/-- The renumbering of embedded queries, numbered placeholders only. -/
def SqlText.renumberNumbered : Nat → SqlText → SqlText × Nat :=
  SqlText.renumber SqlPiece.isNumbered

/-! ## Identifiers -/

/-- The regular expression `[a-zA-Z_]`. -/
def isSqlIdentStart (c : Char) : Bool :=
  ('a' ≤ c && c ≤ 'z') || ('A' ≤ c && c ≤ 'Z') || c == '_'

/-- The regular expression `[a-zA-Z0-9_]`. -/
def isSqlIdentChar (c : Char) : Bool := isSqlIdentStart c || ('0' ≤ c && c ≤ '9')

/-- `IDENTIFIER_RE`: `^[a-zA-Z_][a-zA-Z0-9_]*$`. -/
def isIdentifier (name : String) : Bool :=
  match name.toList with
  | [] => false
  | c :: cs => isSqlIdentStart c && cs.all isSqlIdentChar

/-- `sanitizeIdentifier`. -/
def sanitizeIdentifier (name : String) (context : String) : Except String String :=
  if isIdentifier name then .ok name
  else .error ("Invalid SQL identifier \"" ++ name ++ "\" in " ++ context)

/-- `name.split('.')`. -/
def splitDots (name : String) : List String := (name.toList.splitOn '.').map String.ofList

/-- Splitting at the dots and joining again. -/
theorem intercalate_splitDots (name : String) : ".".intercalate (splitDots name) = name := by
  have h : ".".toList = ['.'] := by decide
  apply String.toList_inj.1
  rw [String.toList_intercalate, splitDots, List.map_map, h]
  have hid : String.toList ∘ String.ofList = id := by
    funext cs
    simp
  rw [hid, List.map_id, List.intercalate_splitOn]

/-- A segment of a column name; a star is one where it may be. -/
def sanitizeSegment (context : String) (star : Bool) (part : String) : Except String String :=
  if star && part == "*" then .ok "*" else sanitizeIdentifier part context

/-- `_sanitizeColumn`: every segment of a dotted name is an identifier; the last one may be a star
where `allowStar`. -/
def sanitizeColumn (id : String) (context : String) (allowStar : Bool) : Except String String := do
  let parts := splitDots id
  let last := parts.length - 1
  let parts' ← parts.zipIdx.mapM fun p => sanitizeSegment context (allowStar && p.2 == last) p.1
  .ok (".".intercalate parts')

/-- A loop that does not throw maps its list. -/
theorem mapM_ok {ε α β : Type} {f : α → Except ε β} {g : α → β} {l : List α}
    (h : ∀ a ∈ l, f a = .ok (g a)) : l.mapM f = .ok (l.map g) := by
  induction l with
  | nil => rfl
  | cons a l ih =>
    rw [List.mapM_cons, h a List.mem_cons_self, ih fun b hb => h b (List.mem_cons_of_mem a hb)]
    rfl

/-- A column name every segment of which is an identifier. -/
def isColumnName (name : String) : Bool := (splitDots name).all isIdentifier

/-- Sanitizing a column name returns it. -/
theorem sanitizeColumn_of_isColumnName {name : String} (h : isColumnName name = true)
    (context : String) : sanitizeColumn name context false = .ok name := by
  have hparts : (splitDots name).zipIdx.mapM
      (fun p => sanitizeSegment context (false && p.2 == (splitDots name).length - 1) p.1)
        = .ok ((splitDots name).zipIdx.map (·.1)) := by
    refine mapM_ok fun p hp => ?_
    have hmem : p.1 ∈ splitDots name := List.fst_mem_of_mem_zipIdx hp
    simp [sanitizeSegment, sanitizeIdentifier, List.all_eq_true.1 h _ hmem]
  unfold sanitizeColumn
  simp only [hparts, List.zipIdx_map_fst, bind, Except.bind, intercalate_splitDots]

/-- The characters of an identifier. -/
theorem isSqlIdentChar_of_isIdentifier {name : String} (h : isIdentifier name = true) :
    ∀ c ∈ name.toList, isSqlIdentChar c = true := by
  unfold isIdentifier at h
  split at h
  · cases h
  · next c cs hcs =>
    rw [Bool.and_eq_true] at h
    rw [hcs]
    intro d hd
    rcases List.mem_cons.1 hd with rfl | hd
    · simp [isSqlIdentChar, h.1]
    · exact List.all_eq_true.1 h.2 d hd

/-- An identifier has no dot. -/
theorem dot_not_mem_of_isIdentifier {name : String} (h : isIdentifier name = true) :
    '.' ∉ name.toList := fun hm =>
  absurd (isSqlIdentChar_of_isIdentifier h '.' hm) (by decide)

/-- An identifier is one segment. -/
theorem splitDots_of_isIdentifier {name : String} (h : isIdentifier name = true) :
    splitDots name = [name] := by
  unfold splitDots
  rw [List.splitOn_eq_singleton (dot_not_mem_of_isIdentifier h)]
  simp

/-- An identifier is a column name of one segment. -/
theorem isColumnName_of_isIdentifier {name : String} (h : isIdentifier name = true) :
    isColumnName name = true := by
  unfold isColumnName
  rw [splitDots_of_isIdentifier h]
  simp [h]

/-- The name of a column with its table. -/
theorem isColumnName_qualified {table column : String} (htable : isIdentifier table = true)
    (hcolumn : isIdentifier column = true) : isColumnName (table ++ "." ++ column) = true := by
  have hchars : (table ++ "." ++ column).toList =
      ['.'].intercalate [table.toList, column.toList] := by
    simp [List.intercalate]
  have hdots : splitDots (table ++ "." ++ column) = [table, column] := by
    unfold splitDots
    rw [hchars, List.splitOn_intercalate]
    · simp
    · intro l hl
      rcases List.mem_cons.1 hl with rfl | hl
      · exact dot_not_mem_of_isIdentifier htable
      · rw [List.mem_singleton.1 hl]
        exact dot_not_mem_of_isIdentifier hcolumn
    · exact List.cons_ne_nil _ _
  unfold isColumnName
  rw [hdots]
  simp [htable, hcolumn]

/-- Sanitizing an identifier returns it. -/
theorem sanitizeIdentifier_of_isIdentifier {name : String} (h : isIdentifier name = true)
    (context : String) : sanitizeIdentifier name context = .ok name := by
  simp [sanitizeIdentifier, h]

/-- Only an identifier is returned. -/
theorem sanitizeIdentifier_eq_ok {name context name' : String}
    (h : sanitizeIdentifier name context = .ok name') :
    isIdentifier name = true ∧ name' = name := by
  unfold sanitizeIdentifier at h
  split at h
  · next hname =>
    cases h
    exact ⟨hname, rfl⟩
  · cases h

end HeadlessErp
