import Mathlib.Data.List.Basic

/-!
# Patterns with groups

Patterns that a whole text has to match: fixed texts, and groups that capture a part of the text
(`Pattern.captures`). Of the parts a group may take it takes the longest, or the shortest where it is
lazy, with which the rest of the pattern matches. What is captured spells the text
(`spells_of_captures`).
-/

namespace HeadlessErp

section
variable {α : Type}

/-- The two parts of a list, the shortest first part first. -/
def splits : List α → List (List α × List α)
  | [] => [([], [])]
  | a :: l => ([], a :: l) :: (splits l).map fun s => (a :: s.1, s.2)

/-- The parts of a list make it up. -/
theorem mem_splits {s : List α × List α} {l : List α} : s ∈ splits l ↔ s.1 ++ s.2 = l := by
  obtain ⟨before, after⟩ := s
  induction l generalizing before with
  | nil => simp [splits]
  | cons a l ih =>
    rw [splits, List.mem_cons, List.mem_map]
    constructor
    · rintro (h | ⟨⟨before', after'⟩, hs, h⟩)
      · cases h
        rfl
      · cases h
        exact congrArg (a :: ·) ((ih _).1 hs)
    · intro h
      cases before with
      | nil => exact .inl (Prod.ext rfl h)
      | cons b before =>
        obtain ⟨rfl, hl⟩ := List.cons.inj h
        exact .inr ⟨(before, after), (ih before).2 hl, rfl⟩

/-- A piece of a pattern: a text, or a group that captures a part with a property. -/
inductive Piece (α : Type) where
  | text (t : List α)
  | group (isLazy : Bool) (test : List α → Bool)

/-- A pattern. -/
abbrev Pattern (α : Type) := List (Piece α)

/-- The parts a group tries, in its order. -/
def candidates (isLazy : Bool) (l : List α) : List (List α × List α) :=
  if isLazy then splits l else (splits l).reverse

theorem mem_candidates {isLazy : Bool} {s : List α × List α} {l : List α} :
    s ∈ candidates isLazy l ↔ s.1 ++ s.2 = l := by
  unfold candidates
  split
  · exact mem_splits
  · rw [List.mem_reverse, mem_splits]

/-- The groups of a pattern on a text that it matches. -/
def Pattern.captures [BEq α] : Pattern α → List α → Option (List (List α))
  | [], [] => some []
  | [], _ :: _ => none
  | .text t :: p, l => (l.dropPrefix? t).bind (captures p)
  | .group isLazy test :: p, l => (candidates isLazy l).findSome? fun s =>
      if test s.1 then (captures p s.2).map (s.1 :: ·) else none

/-- These groups spell a text. -/
inductive Pattern.Spells : Pattern α → List (List α) → List α → Prop
  | nil : Spells [] [] []
  | text {t : List α} {p : Pattern α} {gs : List (List α)} {l : List α} (rest : Spells p gs l) :
      Spells (.text t :: p) gs (t ++ l)
  | group {isLazy : Bool} {test : List α → Bool} {p : Pattern α} {gs : List (List α)}
      {g l : List α} (tested : test g = true) (rest : Spells p gs l) :
      Spells (.group isLazy test :: p) (g :: gs) (g ++ l)

namespace Pattern
variable [BEq α] [LawfulBEq α]

/-- What a pattern captures spells the text. -/
theorem spells_of_captures {p : Pattern α} {l : List α} {gs : List (List α)}
    (h : p.captures l = some gs) : p.Spells gs l := by
  induction p generalizing l gs with
  | nil =>
    cases l with
    | nil =>
      cases h
      exact .nil
    | cons a l => cases h
  | cons piece p ih =>
    cases piece with
    | text t =>
      obtain ⟨rest, hrest, hp⟩ := Option.bind_eq_some_iff.1 h
      obtain ⟨t', rfl, ht⟩ := List.dropPrefix?_eq_some_iff.1 hrest
      obtain rfl := eq_of_beq ht
      exact .text (ih hp)
    | group isLazy test =>
      obtain ⟨⟨g, rest⟩, hs, hp⟩ := List.exists_of_findSome?_eq_some h
      obtain rfl := mem_candidates.1 hs
      split at hp
      · next htest =>
        obtain ⟨gs', hgs', rfl⟩ := Option.map_eq_some_iff.1 hp
        exact .group htest (ih hgs')
      · cases hp

end Pattern

/-! ## The texts of a pattern -/

section
variable {p : Pattern α} {gs : List (List α)} {l : List α}

/-- A pattern that begins with a text. -/
theorem Pattern.spells_text {t : List α} :
    Pattern.Spells (.text t :: p) gs l ↔ ∃ rest, l = t ++ rest ∧ Pattern.Spells p gs rest :=
  ⟨fun h => by cases h with | text rest => exact ⟨_, rfl, rest⟩, fun ⟨_, h, rest⟩ => h ▸ .text rest⟩

/-- A pattern that begins with a group. -/
theorem Pattern.spells_group {isLazy : Bool} {test : List α → Bool} :
    Pattern.Spells (.group isLazy test :: p) gs l ↔ ∃ g gs' rest, gs = g :: gs' ∧ l = g ++ rest ∧
      test g = true ∧ Pattern.Spells p gs' rest :=
  ⟨fun h => by cases h with | group tested rest => exact ⟨_, _, _, rfl, rfl, tested, rest⟩,
    fun ⟨_, _, _, h, h', tested, rest⟩ => by
      subst h h'
      exact .group tested rest⟩

/-- The end of a pattern. -/
theorem Pattern.spells_nil : Pattern.Spells [] gs l ↔ gs = [] ∧ l = [] :=
  ⟨fun h => by cases h; exact ⟨rfl, rfl⟩, fun ⟨h, h'⟩ => by subst h h'; exact .nil⟩

end

end

end HeadlessErp
