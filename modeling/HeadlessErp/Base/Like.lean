import Mathlib.Data.List.Infix

/-!
# The patterns of `LIKE`

SQLite's `LIKE` on texts without U+0000: `%` takes any part of a text, `_` one character, and any
other character itself or, if it is an ASCII letter, the same letter in the other case. A pattern
may have an escape character, which makes the next one stand for itself. A concatenation of patterns
matches a concatenation of texts (`matchLike_append`), from which the meaning of a pattern follows
piece by piece.
-/

namespace HeadlessErp

/-- A piece of a pattern. -/
inductive LikePiece where
  | any
  | one
  | char (c : Char)
  deriving DecidableEq, Repr

/-- What an unescaped character of a pattern stands for. -/
def LikePiece.ofChar (c : Char) : LikePiece :=
  if c = '%' then .any else if c = '_' then .one else .char c

/-- The pieces of a pattern. An escape character at its end makes none. -/
def likePieces (escape : Option Char) : List Char → Option (List LikePiece)
  | [] => some []
  | [c] => if escape = some c then none else some [.ofChar c]
  | c :: d :: p =>
    if escape = some c then (likePieces escape p).map (.char d :: ·)
    else (likePieces escape (d :: p)).map (.ofChar c :: ·)

/-- ASCII letters in lower case. -/
def foldCase (t : List Char) : List Char := t.map Char.toLower

/-- A pattern matches a text. -/
def matchLike : List LikePiece → List Char → Bool
  | [], t => t.isEmpty
  | .any :: p, t => t.tails.any (matchLike p)
  | .one :: _, [] | .char _ :: _, [] => false
  | .one :: p, _ :: t => matchLike p t
  | .char c :: p, d :: t => c.toLower == d.toLower && matchLike p t

/-- `text LIKE pattern ESCAPE escape`. -/
def isLike (escape : Option Char) (pattern text : List Char) : Bool :=
  match likePieces escape pattern with
  | some p => matchLike p text
  | none => false

/-! ## Pieces -/

section
variable {p q : List LikePiece} {c : Char} {s t v : List Char}

@[simp] theorem foldCase_append : foldCase (s ++ t) = foldCase s ++ foldCase t := List.map_append

/-- `%` takes any part of a text. -/
theorem matchLike_any : matchLike (.any :: p) t = true ↔ ∃ u, u <:+ t ∧ matchLike p u = true := by
  rw [matchLike, List.any_eq_true]
  simp only [List.mem_tails]

@[simp] theorem matchLike_one : matchLike (.one :: p) t = true ↔
    ∃ d u, t = d :: u ∧ matchLike p u = true := by
  cases t with
  | nil => simp [matchLike]
  | cons d t => simp [matchLike]

@[simp] theorem matchLike_char : matchLike (.char c :: p) t = true ↔
    ∃ d u, t = d :: u ∧ c.toLower = d.toLower ∧ matchLike p u = true := by
  cases t with
  | nil => simp [matchLike]
  | cons d t => simp [matchLike]

/-- A concatenation of patterns matches the concatenations of what they match. -/
theorem matchLike_append : matchLike (p ++ q) t = true ↔
    ∃ s u, s ++ u = t ∧ matchLike p s = true ∧ matchLike q u = true := by
  induction p generalizing t with
  | nil =>
    constructor
    · intro h
      exact ⟨[], t, rfl, rfl, h⟩
    · rintro ⟨s, u, rfl, hs, hu⟩
      obtain rfl := List.isEmpty_iff.1 hs
      exact hu
  | cons piece p ih =>
    cases piece with
    | any =>
      rw [List.cons_append, matchLike_any]
      constructor
      · rintro ⟨u, ⟨r, rfl⟩, hu⟩
        obtain ⟨s, u, rfl, hs, hu⟩ := ih.1 hu
        exact ⟨r ++ s, u, List.append_assoc .., matchLike_any.2 ⟨s, ⟨r, rfl⟩, hs⟩, hu⟩
      · rintro ⟨s, u, rfl, hs, hu⟩
        obtain ⟨s', ⟨r, rfl⟩, hs'⟩ := matchLike_any.1 hs
        exact ⟨s' ++ u, ⟨r, (List.append_assoc ..).symm⟩, ih.2 ⟨s', u, rfl, hs', hu⟩⟩
    | one =>
      rw [List.cons_append, matchLike_one]
      constructor
      · rintro ⟨d, t, rfl, ht⟩
        obtain ⟨s, u, rfl, hs, hu⟩ := ih.1 ht
        exact ⟨d :: s, u, rfl, matchLike_one.2 ⟨d, s, rfl, hs⟩, hu⟩
      · rintro ⟨s, u, rfl, hs, hu⟩
        obtain ⟨d, s, rfl, hs⟩ := matchLike_one.1 hs
        exact ⟨d, s ++ u, rfl, ih.2 ⟨s, u, rfl, hs, hu⟩⟩
    | char c =>
      rw [List.cons_append, matchLike_char]
      constructor
      · rintro ⟨d, t, rfl, hd, ht⟩
        obtain ⟨s, u, rfl, hs, hu⟩ := ih.1 ht
        exact ⟨d :: s, u, rfl, matchLike_char.2 ⟨d, s, rfl, hd, hs⟩, hu⟩
      · rintro ⟨s, u, rfl, hs, hu⟩
        obtain ⟨d, s, rfl, hd, hs⟩ := matchLike_char.1 hs
        exact ⟨d, s ++ u, rfl, hd, ih.2 ⟨s, u, rfl, hs, hu⟩⟩

@[simp] theorem matchLike_any_singleton : matchLike [.any] t = true :=
  matchLike_any.2 ⟨[], List.nil_suffix, rfl⟩

/-- Characters match a text that is theirs, up to the case of ASCII letters. -/
theorem matchLike_chars : matchLike (v.map .char) t = true ↔ foldCase v = foldCase t := by
  induction v generalizing t with
  | nil =>
    cases t with
    | nil => simp [matchLike]
    | cons d t => simp [matchLike, foldCase]
  | cons c v ih =>
    rw [List.map_cons, matchLike_char]
    constructor
    · rintro ⟨d, t, rfl, hd, ht⟩
      exact congrArg₂ List.cons hd (ih.1 ht)
    · intro h
      cases t with
      | nil => cases h
      | cons d t =>
        obtain ⟨hd, ht⟩ := List.cons.inj h
        exact ⟨d, t, rfl, hd, ih.2 ht⟩

/-! ## Texts and their parts -/

/-- `v%`: the text starts with `v`. -/
theorem matchLike_startsWith :
    matchLike (v.map .char ++ [.any]) t = true ↔ foldCase v <+: foldCase t := by
  rw [matchLike_append]
  constructor
  · rintro ⟨s, u, rfl, hs, -⟩
    rw [matchLike_chars.1 hs, foldCase_append]
    exact List.prefix_append _ _
  · rintro ⟨w, hw⟩
    obtain ⟨s, u, rfl, hs, -⟩ := List.map_eq_append_iff.1 hw.symm
    exact ⟨s, u, rfl, matchLike_chars.2 hs.symm, matchLike_any_singleton⟩

/-- `%v`: the text ends with `v`. -/
theorem matchLike_endsWith :
    matchLike (.any :: v.map .char) t = true ↔ foldCase v <:+ foldCase t := by
  rw [matchLike_any]
  constructor
  · rintro ⟨u, ⟨s, rfl⟩, hu⟩
    rw [matchLike_chars.1 hu, foldCase_append]
    exact List.suffix_append _ _
  · rintro ⟨w, hw⟩
    obtain ⟨s, u, rfl, -, hu⟩ := List.map_eq_append_iff.1 hw.symm
    exact ⟨u, List.suffix_append _ _, matchLike_chars.2 hu.symm⟩

/-- `%v%`: the text contains `v`. -/
theorem matchLike_contains :
    matchLike (.any :: (v.map .char ++ [.any])) t = true ↔ foldCase v <:+: foldCase t := by
  rw [matchLike_any]
  constructor
  · rintro ⟨u, ⟨s, rfl⟩, hu⟩
    rw [foldCase_append]
    exact (matchLike_startsWith.1 hu).isInfix.trans (List.suffix_append _ _).isInfix
  · rintro ⟨w, x, hw⟩
    rw [List.append_assoc] at hw
    obtain ⟨s, u, rfl, -, hu⟩ := List.map_eq_append_iff.1 hw.symm
    exact ⟨u, List.suffix_append _ _, matchLike_startsWith.2 ⟨x, hu.symm⟩⟩

end

/-! ## Escaping -/

section
variable {escape : Option Char} {c e : Char} {p t v : List Char}

/-- An unescaped character is a piece. -/
theorem likePieces_cons (h : escape ≠ some c) :
    likePieces escape (c :: p) = (likePieces escape p).map (.ofChar c :: ·) := by
  cases p with
  | nil => exact if_neg h
  | cons d p => rw [likePieces, if_neg h]

/-- A pattern without an escape character has a piece a character. -/
theorem likePieces_none : likePieces none p = some (p.map .ofChar) := by
  induction p with
  | nil => rfl
  | cons c p ih =>
    rw [likePieces_cons (Option.some_ne_none c).symm, ih]
    rfl

/-- A pattern without an escape character on a text. -/
theorem isLike_none : isLike none p t = matchLike (p.map .ofChar) t := by
  rw [isLike, likePieces_none]

/-- The character is a wildcard. -/
def isWildcard (c : Char) : Bool := c == '%' || c == '_'

/-- A character that is no wildcard stands for itself. -/
theorem LikePiece.ofChar_eq_char (h : isWildcard c = false) : LikePiece.ofChar c = .char c := by
  obtain ⟨hany, hone⟩ := Bool.or_eq_false_iff.1 h
  unfold LikePiece.ofChar
  rw [if_neg (by simpa using hany), if_neg (by simpa using hone)]

/-- Without wildcards a pattern is its characters. -/
theorem map_ofChar_eq (h : v.all (!isWildcard ·) = true) : v.map LikePiece.ofChar = v.map .char := by
  refine List.map_congr_left fun c hc => LikePiece.ofChar_eq_char ?_
  simpa using List.all_eq_true.1 h c hc

/-! ## Wildcards -/

/-- A text without wildcards that a pattern matches: each `%` takes nothing, each `_` a space. -/
def filled (p : List Char) : List Char :=
  (p.filter (· != '%')).map fun c => if c = '_' then ' ' else c

/-- A filled pattern has no wildcard. -/
theorem not_isWildcard_of_mem_filled (h : c ∈ filled p) : isWildcard c = false := by
  obtain ⟨d, hd, rfl⟩ := List.mem_map.1 h
  have hany : d ≠ '%' := by simpa using (List.mem_filter.1 hd).2
  split
  · rfl
  · next hone => simp [isWildcard, hany, hone]

/-- A pattern matches itself filled. -/
theorem matchLike_filled (p : List Char) : matchLike (p.map .ofChar) (filled p) = true := by
  induction p with
  | nil => rfl
  | cons c p ih =>
    rw [List.map_cons]
    by_cases hany : c = '%'
    · subst hany
      exact matchLike_any.2 ⟨filled p, List.suffix_refl _, ih⟩
    · have hfilled : filled (c :: p) = (if c = '_' then ' ' else c) :: filled p := by
        rw [filled, List.filter_cons_of_pos (by simpa using hany), List.map_cons]
        rfl
      rw [hfilled, LikePiece.ofChar, if_neg hany]
      split
      · exact matchLike_one.2 ⟨_, _, rfl, ih⟩
      · exact matchLike_char.2 ⟨_, _, rfl, rfl, ih⟩

/-- A wildcard is no letter. -/
theorem toLower_of_isWildcard (h : isWildcard c = true) : c.toLower = c := by
  obtain h | h := Bool.or_eq_true_iff.1 h
  · rw [eq_of_beq h]
    rfl
  · rw [eq_of_beq h]
    rfl

/-- No other character is a wildcard in lower case. -/
theorem isWildcard_of_toLower (h : isWildcard c.toLower = true) : isWildcard c = true := by
  unfold Char.toLower at h
  split at h
  · next hupper =>
    -- the lower case letters have larger codes than the wildcards
    have hlow : 65 ≤ c.val.toNat := hupper.1
    have hhigh : c.val.toNat ≤ 90 := hupper.2
    have hval : (c.val + ('a'.val - 'A'.val)).toNat = c.val.toNat + 32 := by
      have hdiff : ('a'.val - 'A'.val).toNat = 32 := by decide
      rw [UInt32.toNat_add, hdiff]
      exact Nat.mod_eq_of_lt (by omega)
    obtain h | h := Bool.or_eq_true_iff.1 h
    · have hcode : _ = 37 := congrArg (fun d : Char => d.val.toNat) (eq_of_beq h)
      dsimp only at hcode
      omega
    · have hcode : _ = 95 := congrArg (fun d : Char => d.val.toNat) (eq_of_beq h)
      dsimp only at hcode
      omega
  · exact h

/-- A text with a wildcard is no part of itself filled. -/
theorem not_infix_filled (hc : c ∈ v) (hwild : isWildcard c = true) :
    ¬ foldCase v <:+: foldCase (filled v) := by
  intro h
  have hmem : c.toLower ∈ foldCase (filled v) := h.subset (List.mem_map_of_mem hc)
  obtain ⟨d, hd, hlower⟩ := List.mem_map.1 hmem
  rw [toLower_of_isWildcard hwild] at hlower
  have hfilled := isWildcard_of_toLower (c := d) (by rw [hlower, hwild])
  rw [not_isWildcard_of_mem_filled hd] at hfilled
  cases hfilled

end

end HeadlessErp
