/-!
# Three-valued conditions

Truth values with an unknown, as a database computes them where a value is missing, and conditions
written one after the other with `AND` and `OR` and no parentheses. `AND` binds tighter, so such a
chain is a disjunction of runs; `Alternatives` keeps the disjunction of all runs but the last, and
the last run. What is appended with `AND` restricts the last run only.
-/

namespace HeadlessErp

/-- A truth value. -/
inductive Tri where
  | true
  | false
  | unknown
  deriving DecidableEq, Repr

namespace Tri

/-- Conjunction: a false operand decides. -/
def and : Tri → Tri → Tri
  | .false, _ | _, .false => .false
  | .true, .true => .true
  | _, _ => .unknown

/-- Disjunction: a true operand decides. -/
def or : Tri → Tri → Tri
  | .true, _ | _, .true => .true
  | .false, .false => .false
  | _, _ => .unknown

/-- Negation. -/
def not : Tri → Tri
  | .true => .false
  | .false => .true
  | .unknown => .unknown

/-- A known truth value. -/
def ofBool (b : Bool) : Tri := if b then .true else .false

/-- A row is selected where its condition is true, not where it is unknown. -/
def isTrue : Tri → Bool
  | .true => Bool.true
  | _ => Bool.false

/-- The conjunction of a list. -/
def all (ts : List Tri) : Tri := ts.foldr and .true

/-- The disjunction of a list. -/
def any (ts : List Tri) : Tri := ts.foldr or .false

@[simp] theorem isTrue_true : Tri.true.isTrue = Bool.true := rfl

@[simp] theorem isTrue_false : Tri.false.isTrue = Bool.false := rfl

@[simp] theorem isTrue_unknown : Tri.unknown.isTrue = Bool.false := rfl

@[simp] theorem isTrue_and (a b : Tri) : (a.and b).isTrue = (a.isTrue && b.isTrue) := by
  cases a <;> cases b <;> rfl

@[simp] theorem isTrue_or (a b : Tri) : (a.or b).isTrue = (a.isTrue || b.isTrue) := by
  cases a <;> cases b <;> rfl

@[simp] theorem isTrue_ofBool (b : Bool) : (ofBool b).isTrue = b := by
  cases b <;> rfl

@[simp] theorem isTrue_all (ts : List Tri) : (all ts).isTrue = ts.all isTrue := by
  induction ts with
  | nil => rfl
  | cons t ts ih => simp [all, ← ih]

@[simp] theorem isTrue_any (ts : List Tri) : (any ts).isTrue = ts.any isTrue := by
  induction ts with
  | nil => rfl
  | cons t ts ih => simp [any, ← ih]

end Tri

/-- How a condition joins the ones before it. -/
inductive Joiner where
  | and
  | or
  deriving DecidableEq, Repr

/-- A chain of conditions read so far: the disjunction of all runs but the last, and the last. -/
structure Alternatives where
  earlier : Tri
  last : Tri

namespace Alternatives

/-- The value of the chain. -/
def value (a : Alternatives) : Tri := a.earlier.or a.last

/-- One more condition: `AND` extends the last run, `OR` opens a new one. -/
def join (a : Alternatives) : Joiner × Tri → Alternatives
  | (.and, t) => ⟨a.earlier, a.last.and t⟩
  | (.or, t) => ⟨a.earlier.or a.last, t⟩

/-- The chain of a list. The joiner of the first condition is not read, and the empty chain is
true. -/
def ofChain : List (Joiner × Tri) → Alternatives
  | [] => ⟨.false, .true⟩
  | (_, t) :: rest => rest.foldl join ⟨.false, t⟩

/-- Appending to a chain that is not empty. -/
theorem ofChain_append {xs : List (Joiner × Tri)} (h : xs ≠ []) (ys : List (Joiner × Tri)) :
    ofChain (xs ++ ys) = ys.foldl join (ofChain xs) := by
  cases xs with
  | nil => exact absurd rfl h
  | cons x xs => simp [ofChain]

/-- A chain that was extended is true where an earlier run is, or its last run and the
extension. -/
@[simp] theorem isTrue_value_join_and (a : Alternatives) (t : Tri) :
    (a.join (.and, t)).value.isTrue = (a.earlier.isTrue || (a.last.isTrue && t.isTrue)) := by
  simp [join, value]

/-- An alternative added with `OR` is true by itself. -/
@[simp] theorem isTrue_value_join_or (a : Alternatives) (t : Tri) :
    (a.join (.or, t)).value.isTrue = (a.value.isTrue || t.isTrue) := by
  simp [join, value]

/-- A chain joined by `AND` alone is a conjunction. -/
theorem isTrue_ofChain_and (ts : List Tri) :
    (ofChain (ts.map (Joiner.and, ·))).value.isTrue = ts.all Tri.isTrue := by
  have hfold (ts : List Tri) (t : Tri) :
      ((ts.map (Joiner.and, ·)).foldl join ⟨.false, t⟩).value.isTrue
        = (t.isTrue && ts.all Tri.isTrue) := by
    induction ts generalizing t with
    | nil => simp [value]
    | cons u us ih => simp [join, ih, Bool.and_assoc]
  cases ts with
  | nil => rfl
  | cons t ts => simpa [ofChain] using hfold ts t

/-- A chain joined by `OR` alone is a disjunction, unless it is empty. -/
theorem isTrue_ofChain_or {ts : List Tri} (h : ts ≠ []) :
    (ofChain (ts.map (Joiner.or, ·))).value.isTrue = ts.any Tri.isTrue := by
  have hfold (ts : List Tri) (a : Alternatives) :
      ((ts.map (Joiner.or, ·)).foldl join a).value.isTrue
        = (a.value.isTrue || ts.any Tri.isTrue) := by
    induction ts generalizing a with
    | nil => simp
    | cons u us ih => simp [ih, Bool.or_assoc]
  cases ts with
  | nil => exact absurd rfl h
  | cons t ts => simpa [ofChain, value] using hfold ts ⟨.false, t⟩

end Alternatives

end HeadlessErp
