import HeadlessErp.Expression.Parser

/-!
# The expression parser always ends

The parser of the source recurses without a bound of its own: every call either consumes a token or
descends one level of the ladder, and reading past the end token throws. `parse_ne_outOfFuel` turns
this into a bound: the fuel `parseFuel` gives the model is never used up, so the model's results are
the source's for every expression.
-/

namespace HeadlessErp

open StateExcept

/-- An error that the source can raise. -/
def NotFuel (e : ExprError) : Prop := e ≠ .outOfFuel

/-- From every position from `p` on, the computation ends, and on success it has consumed a
token. -/
def ReadsFrom {α : Type} (p : Nat) (m : ParserM α) : Prop :=
  ∀ q, p ≤ q → Triple NotFuel (fun st => q ≤ st.pos) m fun _ st => q < st.pos

/-- From every position from `p` on, the computation ends and never goes back. -/
def StaysFrom {α : Type} (p : Nat) (m : ParserM α) : Prop :=
  ∀ q, p ≤ q → Triple NotFuel (fun st => q ≤ st.pos) m fun _ st => q ≤ st.pos

section
variable {N : Type} {ts : List Token} {p fuel : Nat}

/-- A computation that reads from one position on reads from every later one. -/
theorem ReadsFrom.mono {α : Type} {m : ParserM α} (h : ReadsFrom p m) {q : Nat} (hq : p ≤ q) :
    ReadsFrom q m :=
  fun r hr => h r (Nat.le_trans hq hr)

/-- A reading computation does not go back. -/
theorem ReadsFrom.stays {α : Type} {m : ParserM α} (h : ReadsFrom p m) : StaysFrom p m :=
  fun q hq => (h q hq).conseq (fun _ => id) fun _ _ => Nat.le_of_lt

/-- Peeking keeps the state. -/
theorem peek_stays (property : String) (P : PState → Prop) :
    Triple NotFuel P (peek ts property) fun _ st => P st := by
  intro st hst
  unfold peek
  cases ts[st.pos]? with
  | none => exact nofun
  | some t => exact hst

/-- Consuming a token: there was one, and the position moves. -/
theorem next_reads (property : String) (q : Nat) :
    Triple NotFuel (fun st => q ≤ st.pos) (next ts property)
      fun _ st => q < ts.length ∧ q + 1 ≤ st.pos := by
  intro st hst
  unfold next
  cases h : ts[st.pos]? with
  | none => exact nofun
  | some t =>
    have hlt := (List.getElem?_eq_some_iff.1 h).1
    exact ⟨by omega, by simpa using hst⟩

/-- The loop of a left-associative level ends when its fuel exceeds the tokens left. -/
theorem leftAssoc_stays {isOp : String → Bool} {combine : String → JsVal N → JsVal N → JsVal N}
    {m : ParserM (JsVal N)} (hm : ReadsFrom p m) (hf : ts.length - p < fuel) (left : JsVal N) :
    StaysFrom p (leftAssoc ts isOp m combine fuel left) := by
  induction fuel generalizing p left with
  | zero => omega
  | succ fuel ih =>
    intro q hq
    refine (peek_stays "value" _).bind fun t => ?_
    split
    · refine (next_reads "value" q).bind fun op => .assume fun hlt => ?_
      refine (hm (q + 1) (by omega)).bind fun right => ?_
      exact ((ih (hm.mono (by omega : p ≤ q + 1)) (by omega) _) (q + 1) (Nat.le_refl _)).conseq
        (fun _ => Nat.le_of_lt) fun _ _ h => by omega
    · exact .pure fun _ h => h

/-- A left-associative level reads when its operand does. -/
theorem level_reads {isOp : String → Bool} {combine : String → JsVal N → JsVal N → JsVal N}
    {m : ParserM (JsVal N)} (hm : ReadsFrom p m) (hf : ts.length - p < fuel) :
    ReadsFrom p (do let left ← m; leftAssoc ts isOp m combine fuel left) := by
  intro q hq
  refine (hm q hq).bind fun left => ?_
  exact leftAssoc_stays (hm.mono hq) (by omega) left (q + 1) (by omega)

/-- `expectOp` consumes a token. -/
theorem expectOp_reads (op : String) (p : Nat) : ReadsFrom p (expectOp ts op) := by
  intro q _
  refine (next_reads "value" q).bind fun t => .assume fun _ => ?_
  split
  · exact .fail nofun
  · exact .pure fun _ h => h

/-- Bracketing keeps the position. -/
theorem nested_triple {α : Type} {m : ParserM α} {P : Nat → Prop} {Q : α → Nat → Prop}
    (h : Triple NotFuel (fun st => P st.pos) m fun a st => Q a st.pos) :
    Triple NotFuel (fun st => P st.pos) (nested m) fun a st => Q a st.pos := by
  refine Triple.bracket (fun st e he => ?_) (fun _ => id) h fun _ _ => id
  unfold enterNested at he
  simp only at he
  split at he
  · cases he
    exact nofun
  · cases he

/-- The array loop reads when its element does. -/
theorem arrayLoop_stays {m : ParserM (JsVal N)} (hm : ReadsFrom p m) (hf : ts.length - p < fuel)
    (arr : List (JsVal N)) : StaysFrom p (arrayLoop ts m fuel arr) := by
  induction fuel generalizing p arr with
  | zero => omega
  | succ fuel ih =>
    intro q hq
    refine (hm q hq).bind fun v => ?_
    refine (next_reads "value" (q + 1)).bind fun sep => .assume fun hlt => ?_
    split
    · exact .pure fun _ h => by omega
    split
    · exact (peek_stays "pos" _).bind fun t => .fail nofun
    · refine (peek_stays "value" _).bind fun t => ?_
      split
      · exact (next_reads "value" (q + 2)).bind fun _ => .pure fun _ h => by omega
      · exact ((ih (hm.mono (by omega : p ≤ q + 2)) (by omega) _) (q + 2) (Nat.le_refl _)).conseq
          (fun _ => id) fun _ _ h => by omega

/-- The argument loop stays when its argument reads. -/
theorem argsLoop_stays {m : ParserM (JsVal N)} (hm : ReadsFrom p m) (hf : ts.length - p < fuel)
    (args : List (JsVal N)) : StaysFrom p (argsLoop ts m fuel args) := by
  induction fuel generalizing p args with
  | zero => omega
  | succ fuel ih =>
    intro q hq
    refine (peek_stays "value" _).bind fun t => ?_
    split
    · refine (next_reads "value" q).bind fun _ => .assume fun hlt => ?_
      refine (hm (q + 1) (by omega)).bind fun v => ?_
      exact ((ih (hm.mono (by omega : p ≤ q + 1)) (by omega) _) (q + 1) (Nat.le_refl _)).conseq
        (fun _ => Nat.le_of_lt) fun _ _ h => by omega
    · exact .pure fun _ h => h

/-- An array literal. -/
theorem parseArray_stays {m : ParserM (JsVal N)} (hm : ReadsFrom p m)
    (hf : ts.length - p < fuel) : StaysFrom p (parseArray ts m fuel) := by
  intro q hq
  refine (peek_stays "value" _).bind fun t => ?_
  split
  · exact (next_reads "value" q).bind fun _ => .pure fun _ h => by omega
  · exact arrayLoop_stays hm hf [] q hq

/-- An argument list. -/
theorem parseArgs_stays {m : ParserM (JsVal N)} (hm : ReadsFrom p m)
    (hf : ts.length - p < fuel) : StaysFrom p (parseArgs ts m fuel) := by
  intro q hq
  have hlist : Triple NotFuel (fun st => q ≤ st.pos) (argList ts m fuel) fun _ st => q ≤ st.pos := by
    refine (peek_stays "value" _).bind fun t => ?_
    split
    · exact (hm.stays q hq).bind fun v => argsLoop_stays hm hf [v] q hq
    · exact .pure fun _ h => h
  refine nested_triple (P := (q ≤ ·)) (Q := fun _ n => q ≤ n) (hlist.bind fun args => ?_)
  exact ((expectOp_reads ")" q).stays q (Nat.le_refl _)).bind fun _ => .pure fun _ h => h

end

section
variable {N : Type} [JsNumber N] {env : EvalEnv N} {ts : List Token} {p fuel : Nat}

/-- A call keeps the position. -/
theorem callFunction_stays (name : String) (args : List (JsVal N)) (P : PState → Prop) :
    Triple NotFuel P (callFunction env name args) fun _ st => P st := by
  unfold callFunction
  split
  · split
    · exact .pure fun _ => id
    · exact .fail nofun
  split
  · split
    · exact .pure fun _ => id
    · exact .fail nofun
  · exact .fail nofun

/-- What follows an identifier. -/
theorem parseIdent_stays {m : ParserM (JsVal N)} (hm : ReadsFrom p m)
    (hf : ts.length - p < fuel) (name : String) : StaysFrom p (parseIdent env ts m fuel name) := by
  intro q hq
  have hcall (name : String) (r : Nat) (hr : q ≤ r) :
      Triple NotFuel (fun st => r ≤ st.pos)
        (do let _ ← next ts "value"; let args ← parseArgs ts m fuel; callFunction env name args)
        fun _ st => q ≤ st.pos := by
    refine (next_reads "value" r).bind fun _ => .assume fun _ => ?_
    refine (parseArgs_stays hm hf (r + 1) (by omega)).bind fun args => ?_
    exact (callFunction_stays name args _).conseq (fun _ => id) fun _ _ h => by omega
  refine (peek_stays "value" _).bind fun t => ?_
  split
  · refine (next_reads "value" q).bind fun _ => .assume fun _ => ?_
    refine (next_reads "type" (q + 1)).bind fun member => .assume fun _ => ?_
    split
    · exact .fail nofun
    · refine (peek_stays "value" _).bind fun u => ?_
      split
      · exact hcall _ _ (by omega)
      · exact .pure fun _ h => by omega
  split
  · exact hcall _ _ (Nat.le_refl _)
  split
  · exact .pure fun _ => id
  split
  · exact .pure fun _ => id
  split
  · exact .pure fun _ => id
  · exact .pure fun _ => id

/-- The levels of the ladder read, given their fuel. -/
structure LadderReads (env : EvalEnv N) (ts : List Token) (fuel : Nat) : Prop where
  or (r : Nat) (h : 8 * (ts.length - r) + 7 ≤ fuel) : ReadsFrom r (parseLogicalOr env ts fuel)
  and (r : Nat) (h : 8 * (ts.length - r) + 6 ≤ fuel) : ReadsFrom r (parseLogicalAnd env ts fuel)
  comparison (r : Nat) (h : 8 * (ts.length - r) + 5 ≤ fuel) : ReadsFrom r (parseComparison env ts fuel)
  additive (r : Nat) (h : 8 * (ts.length - r) + 4 ≤ fuel) : ReadsFrom r (parseAdditive env ts fuel)
  multiplicative (r : Nat) (h : 8 * (ts.length - r) + 3 ≤ fuel) :
    ReadsFrom r (parseMultiplicative env ts fuel)
  unary (r : Nat) (h : 8 * (ts.length - r) + 2 ≤ fuel) : ReadsFrom r (parseUnary env ts fuel)
  primary (r : Nat) (h : 8 * (ts.length - r) + 1 ≤ fuel) : ReadsFrom r (parsePrimary env ts fuel)

/-- A comparison reads, given the levels below. -/
theorem comparison_reads (ih : LadderReads env ts fuel)
    (h : 8 * (ts.length - p) + 5 ≤ fuel + 1) : ReadsFrom p (parseComparison env ts (fuel + 1)) := by
  rw [parseComparison]
  intro q hq
  have hadd := ih.additive p (by omega)
  refine (hadd q hq).bind fun left => (peek_stays "value" _).bind fun op => ?_
  split
  · refine (next_reads "value" (q + 1)).bind fun _ => .assume fun _ => ?_
    refine (hadd (q + 2) (by omega)).bind fun right => .pure fun _ h => by omega
  · exact .pure fun _ => id

/-- A prefix operator reads, given the levels below: the recursive call has consumed a token. -/
theorem unary_reads (ih : LadderReads env ts fuel)
    (h : 8 * (ts.length - p) + 2 ≤ fuel + 1) : ReadsFrom p (parseUnary env ts (fuel + 1)) := by
  rw [parseUnary]
  intro q hq
  have hsign (f : JsVal N → JsVal N) : Triple NotFuel (fun st => q ≤ st.pos)
      (do let _ ← next ts "value"; let v ← parseUnary env ts fuel; pure (f v))
      fun _ st => q < st.pos := by
    refine (next_reads "value" q).bind fun _ => .assume fun hlt => ?_
    refine (ih.unary (q + 1) (by omega) (q + 1) (Nat.le_refl _)).bind fun v => ?_
    exact .pure fun _ h => by omega
  refine nested_triple (P := (q ≤ ·)) (Q := fun _ n => q < n) ?_
  refine (peek_stays "value" _).bind fun t => ?_
  split
  · exact hsign _
  split
  · exact hsign _
  · exact ih.primary p (by omega) q hq

/-- An operand reads, given the levels below: the nested expression has consumed a token. -/
theorem primary_reads (ih : LadderReads env ts fuel)
    (h : 8 * (ts.length - p) + 1 ≤ fuel + 1) : ReadsFrom p (parsePrimary env ts (fuel + 1)) := by
  rw [parsePrimary]
  intro q hq
  refine (next_reads "type" q).bind fun t => .assume fun hlt => ?_
  have hor := ih.or (q + 1) (by omega)
  unfold primaryFrom
  split
  · exact .pure fun _ => id
  · exact .pure fun _ => id
  · refine nested_triple (P := (q + 1 ≤ ·)) (Q := fun _ n => q < n) ?_
    split
    · exact parseArray_stays hor (by omega) (q + 1) (Nat.le_refl _)
    split
    · exact .fail nofun
    · refine (hor.stays (q + 1) (Nat.le_refl _)).bind fun v => ?_
      exact ((expectOp_reads ")" 0).stays (q + 1) (Nat.zero_le _)).bind fun _ => .pure fun _ => id
  · exact parseIdent_stays hor (by omega) t.value (q + 1) (Nat.le_refl _)
  · exact .fail nofun
  · exact .fail nofun

/-- Every level of the ladder reads, on every fuel that is enough for it. -/
theorem ladderReads (fuel : Nat) : LadderReads env ts fuel := by
  induction fuel with
  | zero => constructor <;> intro p h <;> omega
  | succ fuel ih =>
    constructor <;> intro p h
    case or => rw [parseLogicalOr]; exact level_reads (ih.and p (by omega)) (by omega)
    case and => rw [parseLogicalAnd]; exact level_reads (ih.comparison p (by omega)) (by omega)
    case comparison => exact comparison_reads ih h
    case additive =>
      rw [parseAdditive]
      exact level_reads (ih.multiplicative p (by omega)) (by omega)
    case multiplicative =>
      rw [parseMultiplicative]
      exact level_reads (ih.unary p (by omega)) (by omega)
    case unary => exact unary_reads ih h
    case primary => exact primary_reads ih h

/-- The fuel of `parse` is never used up. -/
theorem parse_ne_outOfFuel (env : EvalEnv N) (ts : List Token) :
    (parse env ts).1 ≠ .error .outOfFuel := by
  have h : Triple NotFuel (fun st => 0 ≤ st.pos) (parseWith env ts (parseFuel ts))
      fun _ st => 0 < st.pos := by
    refine ((ladderReads (parseFuel ts)).or 0 (by unfold parseFuel; omega) 0
      (Nat.le_refl _)).bind fun v => (peek_stays "type" _).bind fun t => ?_
    split
    · exact .fail nofun
    · exact .pure fun _ => id
  have hrun := h ⟨0, 0⟩ (Nat.zero_le _)
  unfold parse
  intro he
  generalize parseWith env ts (parseFuel ts) ⟨0, 0⟩ = r at hrun he
  rcases r with ⟨e | v, st⟩
  · cases he
    exact hrun rfl
  · cases he

end

end HeadlessErp
