import HeadlessErp.Expression.Rendering

/-!
# The grammar of expressions

Parsing the rendering of an expression gives its value (`evaluateWith_render`): every level of the
parser reads the symbols of an operand of its precedence, and stops before what may follow one
(`Reads`). The loop of a left-associative level is followed along the left spine of an expression, so
that it stands after the last operand with the value of all of them (`ReadsSpine`).

The parser has no conditional operator: its symbols are skipped, and an expression with one is an
error (`not_forall_grammarCorrect`).
-/

namespace HeadlessErp

open StateExcept

/-! ## What is left to read -/

/-- From a position on, the tokens spell the symbols, and end. -/
def Remains (tokens : List Token) (p : Nat) (ls : List Lexeme) : Prop :=
  (tokens.drop p).map Token.spelling = ls.map Lexeme.spelling ++ [(.eof, "")]

section
variable {tokens : List Token} {p : Nat} {t : Lexeme} {ls rest : List Lexeme}

/-- A spelling is left: there is a token of it at the position. -/
theorem exists_token {s : TokenType × String} {ss : List (TokenType × String)}
    (h : (tokens.drop p).map Token.spelling = s :: ss) :
    ∃ tok, tokens[p]? = some tok ∧ tok.spelling = s ∧
      (tokens.drop (p + 1)).map Token.spelling = ss := by
  cases hdrop : tokens.drop p with
  | nil =>
    rw [hdrop] at h
    cases h
  | cons tok toks =>
    rw [hdrop, List.map_cons] at h
    obtain ⟨hs, hss⟩ := List.cons.inj h
    refine ⟨tok, ?_, hs, ?_⟩
    · rw [← List.head?_drop, hdrop]
      rfl
    · rw [← List.tail_drop, hdrop]
      exact hss

/-- The next symbol is the token at the position. -/
theorem Remains.cons (h : Remains tokens p (t :: ls)) :
    ∃ tok, tokens[p]? = some tok ∧ tok.spelling = t.spelling ∧ Remains tokens (p + 1) ls :=
  exists_token h

/-- At the end stands the end token. -/
theorem Remains.nil (h : Remains tokens p []) :
    ∃ tok, tokens[p]? = some tok ∧ tok.spelling = (.eof, "") := by
  obtain ⟨tok, htok, hspelling, -⟩ := exists_token h
  exact ⟨tok, htok, hspelling⟩

/-- What is left after some symbols. -/
theorem Remains.append (h : Remains tokens p (ls ++ rest)) :
    Remains tokens (p + ls.length) rest := by
  induction ls generalizing p with
  | nil => exact h
  | cons t ls ih =>
    obtain ⟨_, _, _, hrest⟩ := Remains.cons h
    have hlast := ih hrest
    rw [List.length_cons, Nat.add_comm ls.length, ← Nat.add_assoc]
    exact hlast

end

/-! ## How a computation ends -/

/-- The outcome is the value or the error, and the value leaves the state. -/
def EndsAs {α : Type} (x : Except ExprError α × PState) (r : Except ExprError α) (st : PState) :
    Prop :=
  x.1 = r ∧ ∀ v, r = .ok v → x.2 = st

section
variable {α β : Type} {tokens : List Token} {p q d : Nat} {tok : Token}

/-- A value. -/
theorem EndsAs.ok {v : α} {st : PState} : EndsAs (.ok v, st) (.ok v) st := ⟨rfl, fun _ _ => rfl⟩

/-- An error. -/
theorem EndsAs.error {e : ExprError} {x : Except ExprError α × PState} {st : PState}
    (h : x.1 = .error e) : EndsAs x (.error e) st := by
  refine ⟨h, fun v hv => ?_⟩
  cases hv

/-- Sequencing. -/
theorem EndsAs.bind {m : ParserM α} {k : α → ParserM β} {r : Except ExprError α}
    {f : α → Except ExprError β} {s s' s'' : PState} (h : EndsAs (m s) r s')
    (hk : ∀ v, r = .ok v → EndsAs (k v s') (f v) s'') : EndsAs ((m >>= k) s) (r >>= f) s'' := by
  obtain ⟨hr, hs⟩ := h
  rw [bind_apply]
  generalize m s = x at hr hs ⊢
  obtain ⟨y, st⟩ := x
  cases hr
  cases y with
  | error e => exact .error rfl
  | ok v =>
    cases hs v rfl
    exact hk v rfl

/-- What comes after a value and keeps it. -/
theorem EndsAs.keep {m : ParserM α} {k : α → ParserM α} {r : Except ExprError α} {s s' s'' : PState}
    (h : EndsAs (m s) r s') (hk : ∀ v, EndsAs (k v s') (.ok v) s'') : EndsAs ((m >>= k) s) r s'' := by
  have hend := h.bind fun v _ => hk v
  cases r <;> exact hend

/-- Bracketing. -/
theorem EndsAs.nested {m : ParserM α} {r : Except ExprError α} (h : EndsAs (m ⟨p, d + 1⟩) r ⟨q, d + 1⟩)
    (hd : d + 1 ≤ maxDepth) : EndsAs (nested m ⟨p, d⟩) r ⟨q, d⟩ := by
  have henter : enterNested ⟨p, d⟩ = (.ok (), ⟨p, d + 1⟩) := by
    unfold enterNested
    simp only [gt_iff_lt, if_neg (Nat.not_lt.2 hd)]
  unfold HeadlessErp.nested bracket
  rw [henter]
  refine ⟨h.1, fun v hv => ?_⟩
  show leaveNested (m ⟨p, d + 1⟩).2 = ⟨q, d⟩
  rw [h.2 v hv]
  rfl

/-- Peeking at a token. -/
theorem peek_bind (h : tokens[p]? = some tok) (property : String) (k : Token → ParserM α) :
    (peek tokens property >>= k) ⟨p, d⟩ = k tok ⟨p, d⟩ := by
  rw [bind_apply, peek, h]

/-- Consuming a token. -/
theorem next_bind (h : tokens[p]? = some tok) (property : String) (k : Token → ParserM α) :
    (next tokens property >>= k) ⟨p, d⟩ = k tok ⟨p + 1, d⟩ := by
  rw [bind_apply, next, h]

/-- An expected token. -/
theorem expectOp_bind {op : String} (h : tokens[p]? = some tok) (hop : tok.value = op)
    (k : Unit → ParserM α) : (expectOp tokens op >>= k) ⟨p, d⟩ = k () ⟨p + 1, d⟩ := by
  have hexpect : expectOp tokens op ⟨p, d⟩ = (.ok (), ⟨p + 1, d⟩) := by
    unfold expectOp
    rw [next_bind h, hop, if_neg (by simp)]
    rfl
  rw [bind_apply, hexpect]

end

/-! ## The levels -/

/-- The operators that a level of the parser reads. -/
def levelOps : Nat → String → Bool
  | 1 => (· == "||")
  | 2 => (· == "&&")
  | 3 => comparisonOps.contains
  | 4 => (["+", "-"].contains ·)
  | 5 => (["*", "/", "%"].contains ·)
  | _ => fun _ => false

/-- A level reads the operators of its precedence. -/
theorem levelOps_symbol (op : BinaryOp) (level : Nat) :
    levelOps level op.symbol = (op.level == level) := by
  rcases level with _ | _ | _ | _ | _ | _ | level
  case zero => cases op <;> rfl
  case succ.succ.succ.succ.succ.succ =>
    have hne : op.level ≠ level + 6 := by cases op <;> simp [BinaryOp.level]
    simp [levelOps, hne]
  all_goals cases op <;> decide

/-- What follows an operand is no operator that its level or a higher one reads, and takes no member
of the operand and does not call it. -/
theorem Follows.next {tokens : List Token} {p level : Nat} {rest : List Lexeme}
    (h : Follows level rest) (hrest : Remains tokens p rest) :
    ∃ tok, tokens[p]? = some tok ∧ (∀ higher, level ≤ higher → levelOps higher tok.value = false) ∧
      tok.value ≠ "." ∧ tok.value ≠ "(" := by
  have hno (value : String) (hv : value ∈ ["", ",", ")", "]"]) (higher : Nat) :
      levelOps higher value = false := by
    rcases higher with _ | _ | _ | _ | _ | _ | higher
    case zero => rfl
    case succ.succ.succ.succ.succ.succ => rfl
    all_goals
      revert value
      exact List.forall_mem_cons.2 ⟨by decide, by decide⟩
  have hend {value : String} (hv : value ∈ ["", ",", ")", "]"]) :
      (∀ higher, level ≤ higher → levelOps higher value = false) ∧ value ≠ "." ∧ value ≠ "(" := by
    refine ⟨fun higher _ => hno value hv higher, ?_, ?_⟩ <;>
    · rintro rfl
      revert hv
      decide
  cases rest with
  | nil =>
    obtain ⟨tok, htok, hspelling⟩ := hrest.nil
    have hvalue : tok.value = "" := congrArg Prod.snd hspelling
    exact ⟨tok, htok, hend (by simp [hvalue])⟩
  | cons t rest =>
    obtain ⟨tok, htok, hspelling, -⟩ := hrest.cons
    have hvalue : tok.value = t.spelling.2 := congrArg Prod.snd hspelling
    have ht := h t rfl
    refine ⟨tok, htok, ?_⟩
    rw [hvalue]
    cases t with
    | binary op =>
      have hlevel : op.level < level := by simpa [Lexeme.follows] using ht
      refine ⟨fun higher hle => ?_, by cases op <;> decide, by cases op <;> decide⟩
      show levelOps higher op.symbol = false
      rw [levelOps_symbol]
      simpa using by omega
    | comma | closeParen | closeBracket => exact hend (by decide)
    | _ => cases ht

section
variable {N : Type} [JsNumber N]

/-- What a left-associative level combines two operands with. -/
def levelCombine : Nat → String → JsVal N → JsVal N → JsVal N
  | 1 => applyOr
  | 2 => applyAnd
  | 4 => applyAdditive
  | _ => applyMultiplicative

/-- A left-associative level combines two operands as its operator says. -/
theorem levelCombine_symbol {op : BinaryOp} (h : op.level ≠ 3) (l r : JsVal N) :
    levelCombine op.level op.symbol l r = op.apply l r := by
  cases op <;> first | rfl | exact absurd rfl h

/-- A comparison says what its operator says. -/
theorem applyComparison_symbol {op : BinaryOp} (h : op.level = 3) (l r : JsVal N) :
    applyComparison op.symbol l r = op.apply l r := by
  cases op <;> first | rfl | cases h

variable (env : EvalEnv N) (tokens : List Token)

/-- The level of the parser that reads the operands of a precedence. -/
def parseLevel : Nat → Nat → ParserM (JsVal N)
  | 1 => parseLogicalOr env tokens
  | 2 => parseLogicalAnd env tokens
  | 3 => parseComparison env tokens
  | 4 => parseAdditive env tokens
  | 5 => parseMultiplicative env tokens
  | 6 => parseUnary env tokens
  | _ => parsePrimary env tokens

/-- The levels whose operators associate to the left. -/
def leftLevels : List Nat := [1, 2, 4, 5]

/-- A left-associative level reads an operand of the next one, and then its loop. -/
theorem parseLevel_succ {level : Nat} (h : level ∈ leftLevels) (fuel : Nat) :
    parseLevel env tokens level (fuel + 1) = (do
      let left ← parseLevel env tokens (level + 1) fuel
      leftAssoc tokens (levelOps level) (parseLevel env tokens (level + 1) fuel) (levelCombine level)
        fuel left) := by
  simp only [leftLevels, List.mem_cons, List.not_mem_nil, or_false] at h
  rcases h with rfl | rfl | rfl | rfl
  · exact parseLogicalOr.eq_2 env tokens fuel
  · exact parseLogicalAnd.eq_2 env tokens fuel
  · exact parseAdditive.eq_2 env tokens fuel
  · exact parseMultiplicative.eq_2 env tokens fuel

/-- The level reads the symbols of an operand up to what may follow it, and ends as `r` does. -/
def Reads (level : Nat) (ls : List Lexeme) (depth : Nat) (r : Except ExprError (JsVal N)) : Prop :=
  ∀ rest fuel p d, Follows level rest → Remains tokens p (ls ++ rest) →
    8 * ls.length + (8 - level) ≤ fuel → d + depth ≤ maxDepth →
    EndsAs (parseLevel env tokens level fuel ⟨p, d⟩) r ⟨p + ls.length, d⟩

/-- A left-associative level, with its loop on a number of rounds. -/
def levelLoop (level fuel rounds : Nat) : ParserM (JsVal N) := do
  let left ← parseLevel env tokens (level + 1) fuel
  leftAssoc tokens (levelOps level) (parseLevel env tokens (level + 1) fuel) (levelCombine level)
    rounds left

/-- A left-associative level reads the symbols of operands with its operators between them: its loop
goes on with their value, where they end. -/
def ReadsSpine (level : Nat) (ls : List Lexeme) (depth : Nat) (r : Except ExprError (JsVal N)) :
    Prop :=
  ∀ rest fuel rounds p d, Follows (level + 1) rest → Remains tokens p (ls ++ rest) →
    8 * ls.length + (7 - level) ≤ fuel → ls.length ≤ rounds → d + depth ≤ maxDepth →
    ∃ more, rounds ≤ more + ls.length ∧
      (∀ e, r = .error e → (levelLoop env tokens level fuel rounds ⟨p, d⟩).1 = .error e) ∧
      ∀ v, r = .ok v → levelLoop env tokens level fuel rounds ⟨p, d⟩ =
        leftAssoc tokens (levelOps level) (parseLevel env tokens (level + 1) fuel)
          (levelCombine level) more v ⟨p + ls.length, d⟩

variable {env tokens} {level depth da db : Nat} {ls la lb : List Lexeme}
  {r ra rb : Except ExprError (JsVal N)}

/-- An operand of the next level is a spine of its own. -/
theorem Reads.spine (h : Reads env tokens (level + 1) ls depth r) :
    ReadsSpine env tokens level ls depth r := by
  intro rest fuel rounds p d hf hrest hfuel _ hd
  obtain ⟨hr, hst⟩ := h rest fuel p d hf hrest (by omega) hd
  unfold levelLoop
  rw [bind_apply]
  generalize parseLevel env tokens (level + 1) fuel ⟨p, d⟩ = x at hr hst ⊢
  obtain ⟨y, st⟩ := x
  cases hr
  refine ⟨rounds, Nat.le_add_right _ _, ?_, ?_⟩
  · rintro e rfl
    rfl
  · rintro v rfl
    cases hst v rfl
    rfl

/-- A round of a loop at an operator of its level. -/
theorem leftAssoc_symbol {op : BinaryOp} {tok : Token} {p d : Nat} (hop : op.level ≠ 3)
    (htok : tokens[p]? = some tok) (hvalue : tok.value = op.symbol) (operand : ParserM (JsVal N))
    (rounds : Nat) (l : JsVal N) :
    leftAssoc tokens (levelOps op.level) operand (levelCombine op.level) (rounds + 1) l ⟨p, d⟩ =
      (operand >>= fun r => leftAssoc tokens (levelOps op.level) operand (levelCombine op.level)
        rounds (op.apply l r)) ⟨p + 1, d⟩ := by
  have hmine : levelOps op.level tok.value = true := by
    rw [hvalue, levelOps_symbol, beq_self_eq_true]
  rw [leftAssoc, peek_bind htok, if_pos hmine, next_bind htok]
  simp only [hvalue, levelCombine_symbol hop]

/-- An operator of the level, and an operand of the next one, after a spine. -/
theorem ReadsSpine.step {op : BinaryOp} (ha : ReadsSpine env tokens op.level la da ra)
    (hb : Reads env tokens (op.level + 1) lb db rb) (hop : op.level ≠ 3) :
    ReadsSpine env tokens op.level (la ++ .binary op :: lb) (max da db)
      (do let l ← ra; let r ← rb; .ok (op.apply l r)) := by
  intro rest fuel rounds p d hf hrest hfuel hrounds hd
  rw [List.append_assoc, List.cons_append] at hrest
  rw [List.length_append, List.length_cons] at hfuel hrounds ⊢
  have hfollows : Follows (op.level + 1) (.binary op :: (lb ++ rest)) := by
    rintro t ⟨⟩
    simp [Lexeme.follows]
  obtain ⟨more, hmore, herror, hok⟩ :=
    ha _ fuel rounds p d hfollows hrest (by omega) (by omega) (by omega)
  obtain ⟨tok, htok, hspelling, hrestb⟩ := hrest.append.cons
  have hvalue : tok.value = op.symbol := congrArg Prod.snd hspelling
  obtain ⟨left, rfl⟩ : ∃ left, more = left + 1 := ⟨more - 1, by omega⟩
  obtain ⟨hr, hst⟩ := hb rest fuel (p + la.length + 1) d hf hrestb (by omega) (by omega)
  refine ⟨left, by omega, ?_⟩
  cases ra with
  | error e =>
    refine ⟨fun e' he => herror e' he, fun v hv => ?_⟩
    cases hv
  | ok l =>
    rw [hok l rfl, leftAssoc_symbol hop htok hvalue, bind_apply]
    generalize parseLevel env tokens (op.level + 1) fuel ⟨p + la.length + 1, d⟩ = x at hr hst ⊢
    obtain ⟨y, st⟩ := x
    cases hr
    cases y with
    | error e =>
      refine ⟨fun e' he => he, fun v hv => ?_⟩
      cases hv
    | ok v =>
      cases hst v rfl
      refine ⟨fun e' he => ?_, fun w hw => ?_⟩
      · cases he
      cases hw
      rw [show p + (la.length + (lb.length + 1)) = p + la.length + 1 + lb.length by omega]

/-- A spine that no operator of the level follows. -/
theorem ReadsSpine.reads (hlevel : level ∈ leftLevels) (h : ReadsSpine env tokens level ls depth r) :
    Reads env tokens level ls depth r := by
  intro rest fuel p d hf hrest hfuel hd
  have hlow : level ≤ 5 := by
    simp only [leftLevels, List.mem_cons, List.not_mem_nil, or_false] at hlevel
    omega
  obtain ⟨n, rfl⟩ : ∃ n, fuel = n + 1 := ⟨fuel - 1, by omega⟩
  obtain ⟨more, hmore, herror, hok⟩ :=
    h rest n n p d (hf.mono (Nat.le_succ _)) hrest (by omega) (by omega) hd
  obtain ⟨tok, htok, hno, -⟩ := hf.next hrest.append
  obtain ⟨left, rfl⟩ : ∃ left, more = left + 1 := ⟨more - 1, by omega⟩
  rw [parseLevel_succ env tokens hlevel]
  cases r with
  | error e => exact .error (herror e rfl)
  | ok v =>
    have hrun : leftAssoc tokens (levelOps level) (parseLevel env tokens (level + 1) n)
        (levelCombine level) (left + 1) v ⟨p + ls.length, d⟩ = (.ok v, ⟨p + ls.length, d⟩) := by
      rw [leftAssoc, peek_bind htok, if_neg (by rw [hno level (Nat.le_refl _)]; simp)]
      rfl
    show EndsAs (levelLoop env tokens level n n ⟨p, d⟩) _ _
    rw [hok v rfl, hrun]
    exact .ok

/-! ## The other levels -/

/-- Two operands with a comparison between them. -/
theorem Reads.comparison {op : BinaryOp} (ha : Reads env tokens 4 la da ra)
    (hb : Reads env tokens 4 lb db rb) (hop : op.level = 3) :
    Reads env tokens 3 (la ++ .binary op :: lb) (max da db)
      (do let l ← ra; let r ← rb; .ok (op.apply l r)) := by
  intro rest fuel p d hf hrest hfuel hd
  rw [List.append_assoc, List.cons_append] at hrest
  rw [List.length_append, List.length_cons] at hfuel ⊢
  obtain ⟨n, rfl⟩ : ∃ n, fuel = n + 1 := ⟨fuel - 1, by omega⟩
  have hfollows : Follows 4 (.binary op :: (lb ++ rest)) := by
    rintro t ⟨⟩
    simp [Lexeme.follows, hop]
  obtain ⟨tok, htok, hspelling, hrestb⟩ := hrest.append.cons
  have hvalue : tok.value = op.symbol := congrArg Prod.snd hspelling
  have hmine : comparisonOps.contains tok.value = true := by
    have hlevel := levelOps_symbol op 3
    rw [hop, beq_self_eq_true] at hlevel
    rw [hvalue]
    exact hlevel
  show EndsAs (parseComparison env tokens (n + 1) ⟨p, d⟩) _ _
  rw [parseComparison]
  refine (ha _ n p d hfollows hrest (by omega) (by omega)).bind fun l _ => ?_
  rw [peek_bind htok, if_pos hmine, next_bind htok]
  refine (hb rest n _ d (hf.mono (by omega)) hrestb (by omega) (by omega)).bind fun v _ => ?_
  rw [hvalue, applyComparison_symbol hop,
    show p + (la.length + (lb.length + 1)) = p + la.length + 1 + lb.length by omega]
  exact .ok

/-- A prefix operator. -/
theorem Reads.unary {op : UnaryOp} (h : Reads env tokens 6 ls depth r) :
    Reads env tokens 6 (.unary op :: ls) (1 + depth) (do let v ← r; .ok (op.apply v)) := by
  intro rest fuel p d hf hrest hfuel hd
  rw [List.cons_append] at hrest
  rw [List.length_cons] at hfuel ⊢
  obtain ⟨n, rfl⟩ : ∃ n, fuel = n + 1 := ⟨fuel - 1, by omega⟩
  obtain ⟨tok, htok, hspelling, hrest'⟩ := hrest.cons
  have hvalue : tok.value = op.symbol := congrArg Prod.snd hspelling
  have hread := h rest n (p + 1) (d + 1) hf hrest' (by omega) (by omega)
  show EndsAs (parseUnary env tokens (n + 1) ⟨p, d⟩) _ _
  rw [parseUnary, show p + (ls.length + 1) = p + 1 + ls.length by omega]
  refine EndsAs.nested ?_ (by omega)
  rw [peek_bind htok, hvalue]
  cases op with
  | neg =>
    rw [if_pos (by decide), next_bind htok]
    exact hread.bind fun v _ => .ok
  | not =>
    rw [if_neg (by decide), if_pos (by decide), next_bind htok]
    exact hread.bind fun v _ => .ok

/-- An operand without a prefix operator. -/
theorem Reads.operand {t : Lexeme} (h : Reads env tokens 7 (t :: ls) depth r)
    (ht : t.spelling.2 ≠ "-" ∧ t.spelling.2 ≠ "!") :
    Reads env tokens 6 (t :: ls) (depth + 1) r := by
  intro rest fuel p d hf hrest hfuel hd
  obtain ⟨n, rfl⟩ : ∃ n, fuel = n + 1 := ⟨fuel - 1, by omega⟩
  obtain ⟨tok, htok, hspelling, -⟩ := Remains.cons hrest
  have hvalue : tok.value = t.spelling.2 := congrArg Prod.snd hspelling
  show EndsAs (parseUnary env tokens (n + 1) ⟨p, d⟩) _ _
  rw [parseUnary]
  refine EndsAs.nested ?_ (by omega)
  rw [peek_bind htok, hvalue, if_neg (by simpa using ht.1), if_neg (by simpa using ht.2)]
  exact h rest n p (d + 1) (hf.mono (by omega)) hrest (by omega) (by omega)

/-- An operand of the additive level, where no comparison follows. -/
theorem Reads.noComparison (h : Reads env tokens 4 ls depth r) : Reads env tokens 3 ls depth r := by
  intro rest fuel p d hf hrest hfuel hd
  obtain ⟨n, rfl⟩ : ∃ n, fuel = n + 1 := ⟨fuel - 1, by omega⟩
  obtain ⟨tok, htok, hno, -⟩ := hf.next hrest.append
  have hother : comparisonOps.contains tok.value = false := hno 3 (Nat.le_refl _)
  show EndsAs (parseComparison env tokens (n + 1) ⟨p, d⟩) _ _
  rw [parseComparison]
  refine (h rest n p d (hf.mono (by omega)) hrest (by omega) hd).keep fun v => ?_
  rw [peek_bind htok, if_neg (by rw [hother]; simp)]
  exact .ok

/-- An operand of a higher level, where no operator of the levels between follows. -/
theorem Reads.lower {k : Nat} (h : Reads env tokens (level + k) ls depth r) (hlevel : 1 ≤ level)
    (hk : level + k ≤ 6) : Reads env tokens level ls depth r := by
  induction k with
  | zero => exact h
  | succ k ih =>
    refine ih ?_ (by omega)
    by_cases hthree : level + k = 3
    · rw [← Nat.add_assoc] at h
      rw [hthree] at h ⊢
      exact h.noComparison
    · refine ReadsSpine.reads ?_ (Reads.spine h)
      simp only [leftLevels, List.mem_cons, List.not_mem_nil, or_false]
      omega

/-! ## Operands -/

/-- Parentheses. -/
theorem Reads.parens (h : Reads env tokens 1 ls depth r) :
    Reads env tokens 6 (.openParen :: ls ++ [.closeParen]) (depth + 2) r := by
  rw [List.cons_append]
  suffices hprimary : Reads env tokens 7 (.openParen :: (ls ++ [.closeParen])) (depth + 1) r from
    hprimary.operand ⟨by decide, by decide⟩
  intro rest fuel p d hf hrest hfuel hd
  rw [List.cons_append, List.append_assoc] at hrest
  simp only [List.length_cons, List.length_append, List.length_nil] at hfuel ⊢
  obtain ⟨n, rfl⟩ : ∃ n, fuel = n + 1 := ⟨fuel - 1, by omega⟩
  obtain ⟨tok, htok, hspelling, hrest'⟩ := Remains.cons hrest
  obtain ⟨htype, hvalue⟩ := Prod.mk.inj hspelling
  have hclose : Follows 1 (.closeParen :: rest) := by
    rintro t ⟨⟩
    rfl
  obtain ⟨tok', htok', hspelling', -⟩ := (Remains.append hrest').cons
  show EndsAs (parsePrimary env tokens (n + 1) ⟨p, d⟩) _ _
  rw [parsePrimary, next_bind htok]
  unfold primaryFrom
  simp only [htype, hvalue]
  rw [show p + (ls.length + 1 + 1) = p + 1 + ls.length + 1 by omega]
  refine EndsAs.nested ?_ (by omega)
  rw [if_neg (by decide), if_neg (by decide)]
  refine (h _ n (p + 1) (d + 1) hclose hrest' (by omega) (by omega)).keep fun v => ?_
  have hvalue' : tok'.value = ")" := congrArg Prod.snd hspelling'
  rw [expectOp_bind htok' hvalue']
  exact .ok

/-- A number or a string. -/
theorem Reads.constant {t : Lexeme} {v : JsVal N}
    (h : ∀ tok : Token, tok.spelling = t.spelling → ∀ fuel st,
      primaryFrom env tokens (parseLogicalOr env tokens fuel) fuel tok st = (.ok v, st)) :
    Reads env tokens 7 [t] 0 (.ok v) := by
  intro rest fuel p d hf hrest hfuel hd
  obtain ⟨n, rfl⟩ : ∃ n, fuel = n + 1 := ⟨fuel - 1, by omega⟩
  obtain ⟨tok, htok, hspelling, -⟩ := Remains.cons hrest
  show EndsAs (parsePrimary env tokens (n + 1) ⟨p, d⟩) _ _
  rw [parsePrimary, next_bind htok, h tok hspelling]
  exact .ok

/-- A name that is not called and has no member taken. -/
theorem Reads.name {x : Identifier} {v : JsVal N}
    (h : (if x.text == "true" then pure (.bool true)
      else if x.text == "false" then pure (.bool false)
      else if x.text == "null" then pure .null
      else pure (resolveIdentifier env x.text) : ParserM (JsVal N)) = pure v) :
    Reads env tokens 7 [.ident x] 0 (.ok v) := by
  intro rest fuel p d hf hrest hfuel hd
  obtain ⟨n, rfl⟩ : ∃ n, fuel = n + 1 := ⟨fuel - 1, by omega⟩
  obtain ⟨tok, htok, hspelling, hrest'⟩ := Remains.cons hrest
  obtain ⟨htype, hvalue⟩ := Prod.mk.inj hspelling
  obtain ⟨tok', htok', -, hdot, hopen⟩ := hf.next hrest'
  show EndsAs (parsePrimary env tokens (n + 1) ⟨p, d⟩) _ _
  rw [parsePrimary, next_bind htok]
  unfold primaryFrom
  simp only [htype, hvalue]
  unfold parseIdent
  rw [peek_bind htok', if_neg (by simp [hdot]), if_neg (by simpa using hopen), h]
  exact .ok

/-! ## Lists -/

/-- What begins an operand is not read as a closing bracket, nor, unless it is one, as a prefix
operator. -/
theorem Lexeme.spelling_of_opens {t : Lexeme} (h : t.opens = true) :
    (t.spelling.2 ≠ ")" ∧ t.spelling.2 ≠ "]") ∧
      ((t.spelling.1 == .op) = false → t.spelling.2 ≠ "-" ∧ t.spelling.2 ≠ "!") := by
  have hfirst {c d : Char} {cs ds : List Char} (h : c ≠ d) :
      String.ofList (c :: cs) ≠ String.ofList (d :: ds) := by
    intro he
    exact h (List.cons.inj (String.ofList_injective he)).1
  have hnum (n : Numeral) {d : Char} (hd : isDigit d = false) : n.first ≠ d := by
    rintro rfl
    rw [n.digit] at hd
    cases hd
  have hident (x : Identifier) {d : Char} (hd : isIdentStart d = false) : x.first ≠ d := by
    rintro rfl
    rw [x.starts] at hd
    cases hd
  cases t with
  | num n =>
    exact ⟨⟨hfirst (hnum n (by decide)), hfirst (hnum n (by decide))⟩,
      fun _ => ⟨hfirst (hnum n (by decide)), hfirst (hnum n (by decide))⟩⟩
  | ident x =>
    exact ⟨⟨hfirst (hident x (by decide)), hfirst (hident x (by decide))⟩,
      fun _ => ⟨hfirst (hident x (by decide)), hfirst (hident x (by decide))⟩⟩
  | str s =>
    have hplain := s.plain
    simp only [operandSpellings, List.mem_cons, List.not_mem_nil, or_false, not_or] at hplain
    exact ⟨hplain.2.2, fun _ => ⟨hplain.1, hplain.2.1⟩⟩
  | unary op => exact ⟨by cases op <;> decide, fun hne => by cases hne⟩
  | openParen | openBracket => exact ⟨by decide, fun _ => by decide⟩
  | _ => cases h

/-- What follows an expression in a list. -/
theorem follows_commaLexemes (es : List Expression) {t : Lexeme} (rest : List Lexeme) (level : Nat)
    (ht : t = .closeParen ∨ t = .closeBracket) :
    Follows level (Expression.commaLexemes es ++ t :: rest) := by
  cases es with
  | nil =>
    rintro u ⟨⟩
    rcases ht with rfl | rfl <;> rfl
  | cons e es =>
    rintro u ⟨⟩
    rfl

variable {es : List Expression} {rest : List Lexeme} {fuel rounds p d : Nat}

/-- The level of a whole expression reads the symbols of each expression of a list. -/
def ReadsAll (env : EvalEnv N) (tokens : List Token) (es : List Expression) : Prop :=
  ∀ e ∈ es, Reads env tokens 1 e.lexemes e.depth (e.eval env) ∧
    ∃ t ts, e.lexemes = t :: ts ∧ t.opens = true

/-- The loop over the arguments after the first. -/
theorem argsLoop_commaLexemes (h : ReadsAll env tokens es) (args : List (JsVal N))
    (hrest : Remains tokens p (Expression.commaLexemes es ++ .closeParen :: rest))
    (hfuel : 8 * (Expression.commaLexemes es).length ≤ fuel)
    (hrounds : (Expression.commaLexemes es).length < rounds)
    (hd : d + Expression.depthOfList es ≤ maxDepth) :
    EndsAs (argsLoop tokens (parseLogicalOr env tokens fuel) rounds args ⟨p, d⟩)
      (do let vs ← evalList env es; .ok (args ++ vs))
      ⟨p + (Expression.commaLexemes es).length, d⟩ := by
  induction es generalizing args p rounds with
  | nil =>
    obtain ⟨n, rfl⟩ : ∃ n, rounds = n + 1 := ⟨rounds - 1, by omega⟩
    obtain ⟨tok, htok, hspelling, -⟩ := Remains.cons hrest
    have hvalue : tok.value = ")" := congrArg Prod.snd hspelling
    rw [argsLoop, peek_bind htok, hvalue, if_neg (by decide)]
    show EndsAs _ (.ok (args ++ [])) _
    rw [List.append_nil]
    exact .ok
  | cons e es ih =>
    obtain ⟨n, rfl⟩ : ∃ n, rounds = n + 1 := ⟨rounds - 1, by omega⟩
    rw [Expression.commaLexemes, List.cons_append, List.cons_append, List.append_assoc] at hrest
    rw [Expression.commaLexemes, List.cons_append, List.length_cons, List.length_append] at hfuel hrounds ⊢
    rw [Expression.depthOfList] at hd
    obtain ⟨tok, htok, hspelling, hrest'⟩ := Remains.cons hrest
    have hvalue : tok.value = "," := congrArg Prod.snd hspelling
    rw [argsLoop, peek_bind htok, hvalue, if_pos (by decide), next_bind htok]
    have hvalues : (do let vs ← evalList env (e :: es); Except.ok (args ++ vs)) =
        (do let v ← e.eval env; let vs ← evalList env es; Except.ok ((args ++ [v]) ++ vs)) := by
      rw [evalList]
      cases e.eval env with
      | error => rfl
      | ok v => cases evalList env es <;> simp [bind, Except.bind]
    rw [hvalues, show p + (e.lexemes.length + (Expression.commaLexemes es).length + 1) =
      p + 1 + e.lexemes.length + (Expression.commaLexemes es).length by omega]
    refine ((h e (List.mem_cons_self ..)).1 _ fuel (p + 1) d
      (follows_commaLexemes es rest 1 (.inl rfl)) hrest' (by omega) (by omega)).bind fun v _ => ?_
    exact ih (fun e' he' => h e' (List.mem_cons_of_mem _ he')) (args ++ [v])
      hrest'.append (by omega) (by omega) (by omega)

/-- The arguments of a call, up to the closing parenthesis. -/
theorem parseArgs_list (h : ReadsAll env tokens es)
    (hrest : Remains tokens p ((Expression.commaLexemes es).tail ++ .closeParen :: rest))
    (hfuel : 8 * (Expression.commaLexemes es).tail.length + 8 ≤ fuel)
    (hd : d + 1 + Expression.depthOfList es ≤ maxDepth) :
    EndsAs (parseArgs tokens (parseLogicalOr env tokens fuel) fuel ⟨p, d⟩) (evalList env es)
      ⟨p + (Expression.commaLexemes es).tail.length + 1, d⟩ := by
  obtain ⟨close, hclose, hcloseSpelling, -⟩ := hrest.append.cons
  have hcloseValue : close.value = ")" := congrArg Prod.snd hcloseSpelling
  refine EndsAs.nested ?_ (by omega)
  have hlist : EndsAs (argList tokens (parseLogicalOr env tokens fuel) fuel ⟨p, d + 1⟩)
      (evalList env es) ⟨p + (Expression.commaLexemes es).tail.length, d + 1⟩ := by
    unfold argList
    cases es with
    | nil =>
      have hnow : tokens[p]? = some close := hclose
      rw [peek_bind hnow, hcloseValue, if_neg (by decide)]
      exact .ok
    | cons e es =>
      obtain ⟨hreads, t, ts, hlexemes, hopens⟩ := h e (List.mem_cons_self ..)
      rw [Expression.commaLexemes, List.cons_append, List.tail_cons] at hrest hfuel ⊢
      rw [List.append_assoc] at hrest
      rw [List.length_append] at hfuel ⊢
      rw [Expression.depthOfList] at hd
      have hfirst := hrest
      rw [hlexemes, List.cons_append] at hfirst
      obtain ⟨tok, htok, hspelling, -⟩ := hfirst.cons
      have hvalue : tok.value ≠ ")" := by
        rw [show tok.value = t.spelling.2 from congrArg Prod.snd hspelling]
        exact (Lexeme.spelling_of_opens hopens).1.1
      rw [peek_bind htok, if_pos (by simpa using hvalue), evalList, ← Nat.add_assoc]
      refine (hreads _ fuel p (d + 1) (follows_commaLexemes es rest 1 (.inl rfl)) hrest (by omega)
        (by omega)).bind fun v _ => ?_
      exact argsLoop_commaLexemes (fun e' he' => h e' (List.mem_cons_of_mem _ he')) [v]
        hrest.append (by omega) (by omega) (by omega)
  refine hlist.keep fun vs => ?_
  rw [expectOp_bind hclose hcloseValue]
  exact .ok

/-- The loop over the elements of an array. -/
theorem arrayLoop_list {e : Expression} (h : ReadsAll env tokens (e :: es)) (items : List (JsVal N))
    (hrest : Remains tokens p (e.lexemes ++ (Expression.commaLexemes es ++ .closeBracket :: rest)))
    (hfuel : 8 * (e.lexemes.length + (Expression.commaLexemes es).length) + 7 ≤ fuel)
    (hrounds : (Expression.commaLexemes es).length < rounds)
    (hd : d + Expression.depthOfList (e :: es) ≤ maxDepth) :
    EndsAs (arrayLoop tokens (parseLogicalOr env tokens fuel) rounds items ⟨p, d⟩)
      (do let vs ← evalList env (e :: es); .ok (.arr (items ++ vs)))
      ⟨p + (e.lexemes.length + (Expression.commaLexemes es).length) + 1, d⟩ := by
  induction es generalizing e items p rounds with
  | nil =>
    obtain ⟨n, rfl⟩ : ∃ n, rounds = n + 1 := ⟨rounds - 1, by omega⟩
    obtain ⟨hreads, -⟩ := h e (List.mem_cons_self ..)
    obtain ⟨tok, htok, hspelling, -⟩ := hrest.append.cons
    have hvalue : tok.value = "]" := congrArg Prod.snd hspelling
    rw [Expression.depthOfList, Expression.depthOfList] at hd
    have hvalues : (do let vs ← evalList env [e]; Except.ok (JsVal.arr (items ++ vs))) =
        (do let v ← e.eval env; Except.ok (JsVal.arr (items ++ [v]))) := by
      rw [evalList]
      cases e.eval env <;> rfl
    rw [hvalues, arrayLoop]
    refine (hreads _ fuel p d (follows_commaLexemes [] rest 1 (.inr rfl)) hrest
      (by omega) (by omega)).bind fun v _ => ?_
    rw [next_bind htok, hvalue, if_pos (by decide)]
    exact .ok
  | cons e' es ih =>
    obtain ⟨n, rfl⟩ : ∃ n, rounds = n + 1 := ⟨rounds - 1, by omega⟩
    obtain ⟨hreads, -⟩ := h e (List.mem_cons_self ..)
    obtain ⟨-, t, ts, hlexemes, hopens⟩ := h e' (List.mem_cons_of_mem _ (List.mem_cons_self ..))
    rw [Expression.depthOfList] at hd
    have hnext := hrest.append
    rw [Expression.commaLexemes, List.cons_append, List.cons_append, List.append_assoc] at hnext
    rw [Expression.commaLexemes, List.cons_append, List.length_cons, List.length_append] at hfuel hrounds ⊢
    obtain ⟨tok, htok, hspelling, hrest'⟩ := Remains.cons hnext
    have hvalue : tok.value = "," := congrArg Prod.snd hspelling
    have hfirst := hrest'
    rw [hlexemes, List.cons_append] at hfirst
    obtain ⟨tok', htok', hspelling', -⟩ := hfirst.cons
    have hvalue' : tok'.value ≠ "]" := by
      rw [show tok'.value = t.spelling.2 from congrArg Prod.snd hspelling']
      exact (Lexeme.spelling_of_opens hopens).1.2
    have hvalues : (do let vs ← evalList env (e :: e' :: es); Except.ok (JsVal.arr (items ++ vs))) =
        (do let v ← e.eval env; let vs ← evalList env (e' :: es);
            Except.ok (JsVal.arr ((items ++ [v]) ++ vs))) := by
      rw [evalList]
      cases e.eval env with
      | error => rfl
      | ok v => cases evalList env (e' :: es) <;> simp [bind, Except.bind]
    rw [hvalues, arrayLoop]
    refine (hreads _ fuel p d (follows_commaLexemes (e' :: es) rest 1 (.inr rfl)) hrest
      (by omega) (by omega)).bind fun v _ => ?_
    rw [next_bind htok, hvalue, if_neg (by decide), if_neg (by decide), peek_bind htok',
      if_neg (by simpa using hvalue')]
    rw [show p + (e.lexemes.length + (e'.lexemes.length + (Expression.commaLexemes es).length + 1)) + 1 =
      p + e.lexemes.length + 1 + (e'.lexemes.length + (Expression.commaLexemes es).length) + 1 by omega]
    exact ih (fun e'' he'' => h e'' (List.mem_cons_of_mem _ he'')) (items ++ [v]) hrest' (by omega)
      (by omega) (by omega)

/-- An array, after its opening bracket. -/
theorem parseArray_list (h : ReadsAll env tokens es)
    (hrest : Remains tokens p ((Expression.commaLexemes es).tail ++ .closeBracket :: rest))
    (hfuel : 8 * (Expression.commaLexemes es).tail.length + 8 ≤ fuel)
    (hd : d + Expression.depthOfList es ≤ maxDepth) :
    EndsAs (parseArray tokens (parseLogicalOr env tokens fuel) fuel ⟨p, d⟩)
      (do let vs ← evalList env es; .ok (.arr vs))
      ⟨p + (Expression.commaLexemes es).tail.length + 1, d⟩ := by
  unfold parseArray
  cases es with
  | nil =>
    obtain ⟨tok, htok, hspelling, -⟩ := Remains.cons hrest
    have hvalue : tok.value = "]" := congrArg Prod.snd hspelling
    rw [peek_bind htok, hvalue, if_pos (by decide), next_bind htok]
    exact .ok
  | cons e es =>
    obtain ⟨-, t, ts, hlexemes, hopens⟩ := h e (List.mem_cons_self ..)
    rw [Expression.commaLexemes, List.cons_append, List.tail_cons] at hrest hfuel ⊢
    rw [List.append_assoc] at hrest
    rw [List.length_append] at hfuel ⊢
    have hfirst := hrest
    rw [hlexemes, List.cons_append] at hfirst
    obtain ⟨tok, htok, hspelling, -⟩ := hfirst.cons
    have hvalue : tok.value ≠ "]" := by
      rw [show tok.value = t.spelling.2 from congrArg Prod.snd hspelling]
      exact (Lexeme.spelling_of_opens hopens).1.2
    rw [peek_bind htok, if_neg (by simpa using hvalue)]
    have hrounds : (Expression.commaLexemes es).length < fuel := by omega
    have hall : 8 * (e.lexemes.length + (Expression.commaLexemes es).length) + 7 ≤ fuel := by omega
    exact arrayLoop_list h [] hrest hall hrounds hd

/-! ## Expressions -/

/-- An array. -/
theorem Reads.array (h : ReadsAll env tokens es) :
    Reads env tokens 6 (.openBracket :: (Expression.commaLexemes es).tail ++ [.closeBracket])
      (2 + Expression.depthOfList es) (do let vs ← evalList env es; .ok (.arr vs)) := by
  rw [List.cons_append, Nat.add_comm 2]
  suffices hprimary : Reads env tokens 7
      (.openBracket :: ((Expression.commaLexemes es).tail ++ [.closeBracket]))
      (Expression.depthOfList es + 1) (do let vs ← evalList env es; .ok (.arr vs)) from
    hprimary.operand ⟨by decide, by decide⟩
  intro rest fuel p d hf hrest hfuel hd
  rw [List.cons_append, List.append_assoc] at hrest
  simp only [List.length_cons, List.length_append, List.length_nil] at hfuel ⊢
  obtain ⟨n, rfl⟩ : ∃ n, fuel = n + 1 := ⟨fuel - 1, by omega⟩
  obtain ⟨tok, htok, hspelling, hrest'⟩ := Remains.cons hrest
  obtain ⟨htype, hvalue⟩ := Prod.mk.inj hspelling
  show EndsAs (parsePrimary env tokens (n + 1) ⟨p, d⟩) _ _
  rw [parsePrimary, next_bind htok]
  unfold primaryFrom
  simp only [htype, hvalue]
  rw [show p + ((Expression.commaLexemes es).tail.length + (0 + 1) + 1) =
    p + 1 + (Expression.commaLexemes es).tail.length + 1 by omega]
  refine EndsAs.nested ?_ (by omega)
  rw [if_pos (by decide)]
  exact parseArray_list h hrest' (by omega) (by omega)

/-- A call ends with its value. -/
theorem callFunction_endsAs (name : String) (args : List (JsVal N)) (st : PState) :
    EndsAs (callFunction env name args st) (callValue env name args) st := by
  unfold callValue callFunction
  cases env.registry name with
  | some fn =>
    simp only
    cases fn args <;> exact ⟨rfl, fun _ _ => rfl⟩
  | none =>
    cases mathName name with
    | none => exact ⟨rfl, fun _ _ => rfl⟩
    | some m =>
      simp only
      by_cases hm : mathFunctions.contains m = true
      · rw [if_pos hm]
        exact ⟨rfl, fun _ _ => rfl⟩
      · rw [if_neg hm]
        exact ⟨rfl, fun _ _ => rfl⟩

/-- The call of a name. -/
theorem Reads.call {f : Identifier} (h : ReadsAll env tokens es) :
    Reads env tokens 6 (.ident f :: .openParen :: (Expression.commaLexemes es).tail ++ [.closeParen])
      (2 + Expression.depthOfList es)
      (do let vs ← evalList env es; callValue env f.text vs) := by
  rw [List.cons_append, List.cons_append, Nat.add_comm 2]
  suffices hprimary : Reads env tokens 7
      (.ident f :: .openParen :: ((Expression.commaLexemes es).tail ++ [.closeParen]))
      (Expression.depthOfList es + 1) (do let vs ← evalList env es; callValue env f.text vs) from
    hprimary.operand ((Lexeme.spelling_of_opens rfl).2 rfl)
  intro rest fuel p d hf hrest hfuel hd
  rw [List.cons_append, List.cons_append, List.append_assoc] at hrest
  simp only [List.length_cons, List.length_append, List.length_nil] at hfuel ⊢
  obtain ⟨n, rfl⟩ : ∃ n, fuel = n + 1 := ⟨fuel - 1, by omega⟩
  obtain ⟨tok, htok, hspelling, hrest₁⟩ := Remains.cons hrest
  obtain ⟨htype, hvalue⟩ := Prod.mk.inj hspelling
  obtain ⟨tok', htok', hspelling', hrest₂⟩ := Remains.cons hrest₁
  have hopen : tok'.value = "(" := congrArg Prod.snd hspelling'
  show EndsAs (parsePrimary env tokens (n + 1) ⟨p, d⟩) _ _
  rw [parsePrimary, next_bind htok]
  unfold primaryFrom
  simp only [htype, hvalue]
  unfold parseIdent
  rw [peek_bind htok', hopen, if_neg (by simp), if_pos (by decide), next_bind htok',
    show p + ((Expression.commaLexemes es).tail.length + (0 + 1) + 1 + 1) =
      p + 1 + 1 + (Expression.commaLexemes es).tail.length + 1 by omega]
  refine (parseArgs_list h hrest₂ (by omega) (by omega)).bind fun vs _ => ?_
  exact callFunction_endsAs _ _ _

/-- A member of a name, that is not called. -/
theorem Reads.member {base name : Identifier} :
    Reads env tokens 6 [.ident base, .dot, .ident name] 1
      (.ok (resolveMember env base.text name.text)) := by
  suffices hprimary : Reads env tokens 7 [.ident base, .dot, .ident name] 0
      (.ok (resolveMember env base.text name.text)) from
    hprimary.operand ((Lexeme.spelling_of_opens rfl).2 rfl)
  intro rest fuel p d hf hrest hfuel hd
  obtain ⟨n, rfl⟩ : ∃ n, fuel = n + 1 := ⟨fuel - 1, by omega⟩
  obtain ⟨tok, htok, hspelling, hrest₁⟩ := Remains.cons hrest
  obtain ⟨htype, hvalue⟩ := Prod.mk.inj hspelling
  obtain ⟨dot, hdot, hdotSpelling, hrest₂⟩ := Remains.cons hrest₁
  obtain ⟨hdotType, hdotValue⟩ := Prod.mk.inj hdotSpelling
  obtain ⟨tok', htok', hspelling', hrest₃⟩ := Remains.cons hrest₂
  obtain ⟨htype', hvalue'⟩ := Prod.mk.inj hspelling'
  obtain ⟨after, hafter, -, -, hopen⟩ := hf.next hrest₃
  show EndsAs (parsePrimary env tokens (n + 1) ⟨p, d⟩) _ _
  rw [parsePrimary, next_bind htok]
  unfold primaryFrom
  simp only [htype, hvalue]
  unfold parseIdent
  rw [peek_bind hdot, hdotType, hdotValue, if_pos (by decide), next_bind hdot, next_bind htok',
    htype', if_neg (by decide), peek_bind hafter, if_neg (by simpa using hopen), hvalue']
  exact .ok

/-- The call of a member of a name. -/
theorem Reads.method {base name : Identifier} (h : ReadsAll env tokens es) :
    Reads env tokens 6 (.ident base :: .dot :: .ident name :: .openParen ::
        (Expression.commaLexemes es).tail ++ [.closeParen])
      (2 + Expression.depthOfList es)
      (do let vs ← evalList env es; callValue env (base.text ++ "." ++ name.text) vs) := by
  simp only [List.cons_append]
  rw [Nat.add_comm 2]
  suffices hprimary : Reads env tokens 7 (.ident base :: .dot :: .ident name :: .openParen ::
        ((Expression.commaLexemes es).tail ++ [.closeParen]))
      (Expression.depthOfList es + 1)
      (do let vs ← evalList env es; callValue env (base.text ++ "." ++ name.text) vs) from
    hprimary.operand ((Lexeme.spelling_of_opens rfl).2 rfl)
  intro rest fuel p d hf hrest hfuel hd
  simp only [List.cons_append, List.append_assoc] at hrest
  simp only [List.length_cons, List.length_append, List.length_nil] at hfuel ⊢
  obtain ⟨n, rfl⟩ : ∃ n, fuel = n + 1 := ⟨fuel - 1, by omega⟩
  obtain ⟨tok, htok, hspelling, hrest₁⟩ := Remains.cons hrest
  obtain ⟨htype, hvalue⟩ := Prod.mk.inj hspelling
  obtain ⟨dot, hdot, hdotSpelling, hrest₂⟩ := Remains.cons hrest₁
  obtain ⟨hdotType, hdotValue⟩ := Prod.mk.inj hdotSpelling
  obtain ⟨tok', htok', hspelling', hrest₃⟩ := Remains.cons hrest₂
  obtain ⟨htype', hvalue'⟩ := Prod.mk.inj hspelling'
  obtain ⟨opening, hopening, hopeningSpelling, hrest₄⟩ := Remains.cons hrest₃
  have hopen : opening.value = "(" := congrArg Prod.snd hopeningSpelling
  show EndsAs (parsePrimary env tokens (n + 1) ⟨p, d⟩) _ _
  rw [parsePrimary, next_bind htok]
  unfold primaryFrom
  simp only [htype, hvalue]
  unfold parseIdent
  rw [peek_bind hdot, hdotType, hdotValue, if_pos (by decide), next_bind hdot, next_bind htok',
    htype', if_neg (by decide), peek_bind hopening, hopen, if_pos (by decide), next_bind hopening,
    hvalue', show p + ((Expression.commaLexemes es).tail.length + (0 + 1) + 1 + 1 + 1 + 1) =
      p + 1 + 1 + 1 + 1 + (Expression.commaLexemes es).tail.length + 1 by omega]
  refine (parseArgs_list h hrest₄ (by omega) (by omega)).bind fun vs _ => ?_
  exact callFunction_endsAs _ _ _

/-- An expression where an operand of a precedence stands: in parentheses where they are needed. -/
theorem Reads.placed {own : Nat} (h : Reads env tokens (min own 6) ls depth r) (hown : 1 ≤ own)
    (hlevel : 1 ≤ level ∧ level ≤ 6) :
    Reads env tokens level (HeadlessErp.parens (own < level) ls)
      (if own < level then depth + 2 else depth) r := by
  have hlower {level' : Nat} (h' : 1 ≤ level') (hle : level' ≤ min own 6) :
      Reads env tokens level' ls depth r := by
    obtain ⟨k, hk⟩ := Nat.exists_eq_add_of_le hle
    rw [hk] at h
    exact h.lower h' (by omega)
  by_cases hneeded : own < level
  · have hparens := (hlower (Nat.le_refl 1) (by omega)).parens
    obtain ⟨k, hk⟩ := Nat.exists_eq_add_of_le hlevel.2
    rw [hk] at hparens
    rw [decide_eq_true hneeded, if_pos hneeded]
    exact hparens.lower hlevel.1 (by omega)
  · rw [decide_eq_false hneeded, if_neg hneeded]
    exact hlower hlevel.1 (by omega)

/-- The parser reads the expression at its own level, and along its spine. -/
structure ReadsExpression (env : EvalEnv N) (tokens : List Token) (e : Expression) : Prop where
  reads : Reads env tokens (min e.level 6) e.lexemes e.depth (e.eval env)
  spine : e.level ∈ leftLevels → ReadsSpine env tokens e.level e.lexemes e.depth (e.eval env)

/-- An expression that is no infix operator. -/
theorem ReadsExpression.operand {e : Expression} (hlevel : e.level = 6 ∨ e.level = 7)
    (h : Reads env tokens 6 e.lexemes e.depth (e.eval env)) : ReadsExpression env tokens e := by
  refine ⟨?_, fun hleft => ?_⟩
  · rw [show min e.level 6 = 6 by omega]
    exact h
  · rcases hlevel with hlevel | hlevel <;>
    · rw [hlevel] at hleft
      exact absurd hleft (by decide)

/-- The precedence of an expression without a conditional is that of a level. -/
theorem Expression.one_le_level {e : Expression} (h : e.unconditional = true) : 1 ≤ e.level := by
  cases e with
  | binary op => cases op <;> exact Nat.le_of_ble_eq_true rfl
  | conditional => cases h
  | _ => exact Nat.le_of_ble_eq_true rfl

/-- The left operand of an operator that associates to the left. -/
theorem ReadsExpression.leftOperand {e : Expression} (h : ReadsExpression env tokens e)
    (he : e.unconditional = true) (hlevel : level ∈ leftLevels) :
    ReadsSpine env tokens level (HeadlessErp.parens (e.level < level) e.lexemes)
      (if e.level < level then e.depth + 2 else e.depth) (e.eval env) := by
  have hlow : 1 ≤ level ∧ level ≤ 5 := by
    simp only [leftLevels, List.mem_cons, List.not_mem_nil, or_false] at hlevel
    omega
  by_cases hsame : e.level = level
  · subst hsame
    rw [decide_eq_false (Nat.lt_irrefl _), if_neg (Nat.lt_irrefl _)]
    exact h.spine hlevel
  · have hplaced : Reads env tokens (level + 1) _ _ _ :=
      h.reads.placed (Expression.one_le_level he) ⟨by omega, by omega⟩
    have hiff : e.level < level + 1 ↔ e.level < level := by omega
    simp only [hiff] at hplaced
    exact hplaced.spine

/-- Every expression without a conditional is read. -/
theorem Expression.readsExpression (e : Expression) (h : e.unconditional = true) :
    ReadsExpression env tokens e := by
  have hall {es : List Expression} (ih : ∀ e ∈ es, e.unconditional = true → ReadsExpression env tokens e)
      (hes : allUnconditional es = true) : ReadsAll env tokens es := by
    intro e he
    have huncond := unconditional_of_mem hes he
    have hplaced : Reads env tokens 1 _ _ _ :=
      (ih e he huncond).reads.placed (one_le_level huncond) ⟨Nat.le_refl 1, by omega⟩
    have hlevel : ¬ e.level < 1 := Nat.not_lt.2 (one_le_level huncond)
    rw [decide_eq_false hlevel, if_neg hlevel] at hplaced
    exact ⟨hplaced, (e.block huncond).opens⟩
  induction e using Expression.induct with
  | number n =>
    refine .operand (.inr rfl) ((Reads.constant fun tok htok fuel st => ?_).operand
      ((Lexeme.spelling_of_opens rfl).2 rfl))
    obtain ⟨htype, hvalue⟩ := Prod.mk.inj htok
    unfold primaryFrom
    simp only [htype, hvalue]
    rfl
  | text s =>
    refine .operand (.inr rfl) ((Reads.constant fun tok htok fuel st => ?_).operand
      ((Lexeme.spelling_of_opens rfl).2 rfl))
    obtain ⟨htype, hvalue⟩ := Prod.mk.inj htok
    unfold primaryFrom
    simp only [htype, hvalue]
    rfl
  | bool b =>
    refine .operand (.inr rfl) ?_
    cases b <;> exact (Reads.name rfl).operand ((Lexeme.spelling_of_opens rfl).2 rfl)
  | null =>
    exact .operand (.inr rfl) ((Reads.name rfl).operand ((Lexeme.spelling_of_opens rfl).2 rfl))
  | field x =>
    have hkeyword := x.notKeyword
    simp only [keywords, List.mem_cons, List.not_mem_nil, or_false, not_or] at hkeyword
    refine .operand (.inr rfl) ((Reads.name ?_).operand ((Lexeme.spelling_of_opens rfl).2 rfl))
    simp [hkeyword.1, hkeyword.2.1, hkeyword.2.2]
  | member base name => exact .operand (.inr rfl) Reads.member
  | call f args ih => exact .operand (.inr rfl) (Reads.call (hall ih h))
  | method base name args ih => exact .operand (.inr rfl) (Reads.method (hall ih h))
  | array items ih => exact .operand (.inr rfl) (Reads.array (hall ih h))
  | unary op e ih =>
    exact .operand (.inl rfl)
      ((ih h).reads.placed (one_le_level h) ⟨by omega, Nat.le_refl 6⟩).unary
  | binary op a b iha ihb =>
    rw [unconditional, Bool.and_eq_true] at h
    obtain ⟨ha, hb⟩ := h
    have hlevel : 1 ≤ op.level ∧ op.level ≤ 5 := by cases op <;> decide
    have hmin : min op.level 6 = op.level := by omega
    have hright : Reads env tokens (op.level + 1) _ _ _ :=
      (ihb hb).reads.placed (one_le_level hb) ⟨by omega, by omega⟩
    by_cases hcomparison : op.level = 3
    · have hleft : Reads env tokens 4 _ _ _ :=
        (iha ha).reads.placed (one_le_level ha) ⟨by omega, by omega⟩
      rw [hcomparison] at hright
      have hreads := hleft.comparison hright hcomparison
      refine ⟨?_, fun hleftLevel => ?_⟩
      · show Reads env tokens (min op.level 6) (lexemes (.binary op a b)) (depth (.binary op a b)) _
        rw [hmin, lexemes, depth, eval]
        simpa only [BinaryOp.leftLevel, hcomparison, if_true] using hreads
      · have hno : op.level ∉ leftLevels := by
          rw [hcomparison]
          decide
        exact absurd hleftLevel hno
    · have hmem : op.level ∈ leftLevels := by
        simp only [leftLevels, List.mem_cons, List.not_mem_nil, or_false]
        omega
      have hspine := ((iha ha).leftOperand ha hmem).step hright hcomparison
      have hown : ReadsSpine env tokens op.level (lexemes (.binary op a b))
          (depth (.binary op a b)) (eval env (.binary op a b)) := by
        rw [lexemes, depth, eval]
        simpa only [BinaryOp.leftLevel, hcomparison, if_false] using hspine
      refine ⟨?_, fun _ => hown⟩
      show Reads env tokens (min op.level 6) _ _ _
      rw [hmin]
      exact hown.reads hmem
  | conditional => cases h

/-- Parsing the tokens of an expression gives its value. -/
theorem parse_of_remains {e : Expression} (h : e.unconditional = true)
    (hremains : Remains tokens 0 e.lexemes) (hlength : tokens.length = e.lexemes.length + 1)
    (hdepth : e.depth ≤ maxDepth) : (parse env tokens).1 = e.eval env := by
  have hlevel : ¬ e.level < 1 := Nat.not_lt.2 (Expression.one_le_level h)
  have hreads : Reads env tokens 1 e.lexemes e.depth (e.eval env) := by
    have hplaced : Reads env tokens 1 _ _ _ :=
      (e.readsExpression h).reads.placed (Expression.one_le_level h) ⟨Nat.le_refl 1, by omega⟩
    rw [decide_eq_false hlevel, if_neg hlevel] at hplaced
    exact hplaced
  have hremains' : Remains tokens 0 (e.lexemes ++ []) := by
    rw [List.append_nil]
    exact hremains
  have hfuel : 8 * e.lexemes.length + (8 - 1) ≤ parseFuel tokens := by
    unfold parseFuel
    omega
  obtain ⟨tok, htok, hspelling⟩ := (Remains.append hremains').nil
  have htype : tok.type = .eof := congrArg Prod.fst hspelling
  have hparse : EndsAs (parseLogicalOr env tokens (parseFuel tokens) ⟨0, 0⟩) (e.eval env)
      ⟨0 + e.lexemes.length, 0⟩ :=
    hreads [] (parseFuel tokens) 0 0 (fun t ht => by cases ht) hremains' hfuel (by rw [Nat.zero_add]; exact hdepth)
  have hend : EndsAs (parseWith env tokens (parseFuel tokens) ⟨0, 0⟩) (e.eval env)
      ⟨0 + e.lexemes.length, 0⟩ := by
    unfold parseWith
    refine hparse.keep fun v => ?_
    rw [peek_bind htok, htype, if_neg (by decide)]
    exact .ok
  exact hend.1

end

/-! ## Evaluation -/

/-- The grammar reads the expression as it is written: within the caps its rendering, with whatever
blanks, evaluates to its value, for every scope and registry. -/
def GrammarCorrect (e : Expression) : Prop :=
  ∀ (N : Type) [JsNumber N] (env : EvalEnv N) (blanks : Nat → Blank), e.WithinCaps blanks →
    evaluateWith env (e.render blanks) = e.eval env

/-- The rendering of an expression without a conditional evaluates to the expression's value. -/
theorem evaluateWith_render (e : Expression) (h : e.unconditional = true) : GrammarCorrect e := by
  intro N _ env blanks hcaps
  have htokens := tokenize_render h blanks
  have hlength : (tokenize (e.render blanks)).length = e.lexemes.length + 1 := by
    have hmap := congrArg List.length htokens
    simpa using hmap
  have hcomplexity : assertComplexity (e.render blanks) = .ok () := by
    unfold assertComplexity
    rw [if_neg (Nat.not_lt.2 hcaps.length), if_neg (Nat.not_lt.2 (hlength ▸ hcaps.tokens))]
  unfold evaluateWith parseExpression
  rw [hcomplexity]
  simp only [bind, Except.bind]
  exact parse_of_remains h htokens hlength hcaps.depth

/-- One blank before, between and after any two symbols. -/
def oneBlank : Nat → Blank := fun _ => ⟨[' '], by decide⟩

/-- The expression `!(true && null) || false`. -/
def disjunction : Expression :=
  .binary .or (.unary .not (.binary .and (.bool true) .null)) (.bool false)

/-- A negated conjunction keeps its parentheses, and the disjunction needs none. -/
theorem evaluateWith_render_disjunction :
    disjunction.render oneBlank = " ! ( true && null ) || false " ∧
      evaluateWith (sampleEnv "") (disjunction.render oneBlank) = .ok (.bool true) :=
  ⟨by decide, evaluateWith_render disjunction rfl (Option Int) (sampleEnv "") oneBlank
    ⟨by decide, by decide, by decide⟩⟩

/-- A numeral of one digit. -/
def digitNumeral (c : Char) (h : isDigit c = true) : Numeral := ⟨c, [], none, h, rfl⟩

/-- The expression `true ? 1 : 2`. -/
def conditionalExpression : Expression :=
  .conditional (.bool true) (.number (digitNumeral '1' (by decide)))
    (.number (digitNumeral '2' (by decide)))

/-- The parser has no conditional operator: the rendering of one has a number where the expression
should end. -/
theorem not_forall_grammarCorrect : ¬ ∀ e, GrammarCorrect e := by
  intro h
  have hcaps : conditionalExpression.WithinCaps oneBlank := ⟨by decide, by decide, by decide⟩
  have hrun := h conditionalExpression (Option Int) (sampleEnv "") oneBlank hcaps
  have hok := congrArg Except.isOk hrun
  revert hok
  decide +kernel

end HeadlessErp
