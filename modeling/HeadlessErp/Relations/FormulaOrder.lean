import Mathlib.Data.List.TakeWhile
import HeadlessErp.Base.DepthFirst
import HeadlessErp.Base.RoundSort
import HeadlessErp.Expression.Reads
import HeadlessErp.Relations.Computed

/-!
# The order of formulas

`topoSortStoredFormulas` orders the stored formulas of a schema and `resolveFormulaDependencies`
finds the formulas that a selection needs (`packages/core/src/entity/computed.ts`). Both follow the
names that the text of a formula mentions. An expression may mention a name that it does not read: in
a string, as a member, as a function. The orders are right where no such mention closes a circle
(`formulaOrder_iff`).
-/

namespace HeadlessErp

/-! ## The words of an expression -/

theorem isIdentChar_of_isWordChar {c : Char} (h : isWordChar c = true) : isIdentChar c = true :=
  (Bool.and_eq_true_iff.1 h).1

theorem isWordChar_eq_false {c : Char} (h : isIdentChar c = false) : isWordChar c = false := by
  rw [isWordChar, h, Bool.false_and]

theorem isIdentStart_eq_false {c : Char} (h : isIdentChar c = false) : isIdentStart c = false :=
  (Bool.or_eq_false_iff.1 h).1

/-- The characters end where no identifier goes on. -/
def EndsRun (cs : List Char) : Prop := ∀ c ∈ cs.getLast?, isIdentChar c = false

/-- The characters begin where no identifier goes on. -/
def StartsRun (cs : List Char) : Prop := ∀ c ∈ cs.head?, isIdentChar c = false

theorem takeWhile_run {w ys : List Char} (hw : ∀ c ∈ w, isIdentChar c = true) (hys : StartsRun ys) :
    (w ++ ys).takeWhile isIdentChar = w := by
  rw [List.takeWhile_append_of_pos hw]
  cases ys with
  | nil => simp
  | cons y ys => simp [hys y rfl]

/-- A word is matched where it begins. -/
theorem identAt_word {w ys : List Char} (hw : ∀ c ∈ w, isWordChar c = true) (hys : StartsRun ys) :
    identAt (w ++ ys) = w := by
  rw [identAt, takeWhile_run (fun c hc => isIdentChar_of_isWordChar (hw c hc)) hys]
  have hdrop : w.reverse.dropWhile (· == '$') = w.reverse := by
    cases hrev : w.reverse with
    | nil => rfl
    | cons c cs =>
      have hc : c ∈ w := List.mem_reverse.1 (hrev ▸ List.mem_cons_self)
      have hword := (Bool.and_eq_true_iff.1 (hw c hc)).2
      rw [List.dropWhile_cons_of_neg (by simpa using hword)]
  rw [hdrop, List.reverse_reverse]

/-- A match does not go past a character that is in no identifier. -/
theorem length_identAt_le (xs cs : List Char) {q : Char} (hq : isIdentChar q = false) :
    (identAt (xs ++ q :: cs)).length ≤ xs.length := by
  have htake : ((xs ++ q :: cs).takeWhile isIdentChar).length ≤ xs.length := by
    rw [List.takeWhile_append]
    split
    · simp [hq]
    · exact (List.takeWhile_sublist _).length_le
  unfold identAt
  rw [List.length_reverse]
  refine (List.dropWhile_sublist _).length_le.trans ?_
  rwa [List.length_reverse]

/-- A word that begins here is found. -/
theorem mem_identScan_of_word {fuel : ℕ} {w ys : List Char} (hw : ∀ c ∈ w, isWordChar c = true)
    (hstart : ∀ c ∈ w.head?, isIdentStart c = true) (hne : w ≠ []) (hys : StartsRun ys) :
    String.ofList w ∈ identScan (fuel + 1) false (w ++ ys) := by
  obtain ⟨c, w, rfl⟩ := List.exists_cons_of_ne_nil hne
  have hat : identAt (c :: (w ++ ys)) = c :: w := identAt_word hw hys
  rw [List.cons_append, identScan, if_pos]
  · rw [hat]
    exact List.mem_cons_self
  · simp [hat, hstart c rfl, hw c List.mem_cons_self]

/-- A word that begins after a character that is in no identifier is found. -/
theorem mem_identScan_after {fuel : ℕ} {before : Bool} {xs w ys : List Char} {q : Char}
    (hq : isIdentChar q = false) (hw : ∀ c ∈ w, isWordChar c = true)
    (hstart : ∀ c ∈ w.head?, isIdentStart c = true) (hne : w ≠ []) (hys : StartsRun ys)
    (hfuel : (xs ++ q :: (w ++ ys)).length ≤ fuel) :
    String.ofList w ∈ identScan fuel before (xs ++ q :: (w ++ ys)) := by
  induction fuel generalizing before xs with
  | zero => simp at hfuel
  | succ fuel ih =>
    cases xs with
    | nil =>
      rw [List.nil_append, identScan, if_neg (by simp [isIdentStart_eq_false hq]),
        isWordChar_eq_false hq]
      have hpos : 0 < fuel := by
        have := List.length_pos_iff.2 hne
        simp only [List.nil_append, List.length_cons, List.length_append] at hfuel
        omega
      obtain ⟨fuel, rfl⟩ := Nat.exists_eq_succ_of_ne_zero hpos.ne'
      exact mem_identScan_of_word hw hstart hne hys
    | cons c xs =>
      rw [List.cons_append, identScan]
      split
      · refine List.mem_cons_of_mem _ ?_
        have hle := length_identAt_le (c :: xs) (w ++ ys) hq
        simp only [List.cons_append, List.length_cons] at hle
        rw [List.drop_append_of_le_length (by omega)]
        refine ih ?_
        simp only [List.cons_append, List.length_cons, List.length_append, List.length_drop]
          at hfuel ⊢
        omega
      · refine ih ?_
        simpa using hfuel

/-- A word of an expression is among its matches. -/
theorem mem_identMatches {formula : String} {xs w ys : List Char}
    (htext : formula.toList = xs ++ (w ++ ys)) (hxs : EndsRun xs) (hys : StartsRun ys)
    (hw : ∀ c ∈ w, isWordChar c = true) (hstart : ∀ c ∈ w.head?, isIdentStart c = true)
    (hne : w ≠ []) : String.ofList w ∈ identMatches formula := by
  have hlength : formula.length = (xs ++ (w ++ ys)).length := by
    rw [← htext, String.length_toList]
  rw [identMatches, htext, hlength]
  rcases xs.eq_nil_or_concat with rfl | ⟨xs, q, rfl⟩
  · obtain ⟨c, w, rfl⟩ := List.exists_cons_of_ne_nil hne
    exact mem_identScan_of_word hw hstart hne hys
  · have hq : isIdentChar q = false := hxs q (by simp)
    rw [List.concat_eq_append, List.append_assoc, List.singleton_append]
    exact mem_identScan_after hq hw hstart hne hys le_rfl

/-! ## The names that are read -/

/-- A string literal ends with its quote, or at the end of the text. -/
theorem scanString_spec (quote : Char) (n : ℕ) (cs : List Char) (hn : cs.length ≤ n) :
    ∃ mid, cs = mid ++ (scanString quote cs).2.1 ∧
      ((scanString quote cs).2.1 = [] ∨ mid.getLast? = some quote) := by
  induction n generalizing cs with
  | zero =>
    obtain rfl := List.length_eq_zero_iff.1 (Nat.le_zero.1 hn)
    exact ⟨[], rfl, .inl rfl⟩
  | succ n ih =>
    rcases cs with _ | ⟨c, _ | ⟨d, rest⟩⟩
    · exact ⟨[], rfl, .inl rfl⟩
    · refine ⟨[c], ?_, .inl ?_⟩ <;> by_cases hc : c = quote <;> simp [scanString, hc]
    · simp only [List.length_cons] at hn
      by_cases hquote : c = quote
      · exact ⟨[quote], by simp [scanString, hquote], .inr rfl⟩
      by_cases hescape : c = '\\'
      · obtain ⟨mid, hmid, hend⟩ := ih rest (by omega)
        have hscan : (scanString quote (c :: d :: rest)).2.1 = (scanString quote rest).2.1 := by
          rw [scanString, if_neg hquote, if_pos hescape]
        rw [hscan]
        refine ⟨c :: d :: mid, by simpa using hmid, hend.imp_right fun hlast => ?_⟩
        rw [List.getLast?_cons_cons, List.getLast?_cons, hlast]
        rfl
      · obtain ⟨mid, hmid, hend⟩ := ih (d :: rest) (by simpa using hn)
        have hscan : (scanString quote (c :: d :: rest)).2.1 =
            (scanString quote (d :: rest)).2.1 := by
          rw [scanString, if_neg hquote, if_neg hescape]
        rw [hscan]
        refine ⟨c :: mid, by simpa using hmid, hend.imp_right fun hlast => ?_⟩
        rw [List.getLast?_cons, hlast]
        rfl

/-- An operator ends with a character that is in no identifier. -/
theorem exists_last_of_scanOp {cs : List Char} {type : TokenType} {value : String} {n : ℕ}
    (h : scanOp cs = some (type, value, n)) :
    ∃ initial q, cs.take n = initial ++ [q] ∧ isIdentChar q = false := by
  unfold scanOp at h
  split at h
  case h_9 c _ _ _ _ _ _ _ _ _ =>
    split at h
    · next hparen =>
      cases h
      refine ⟨[], c, rfl, ?_⟩
      rcases hparen with rfl | rfl | rfl | rfl <;> decide
    split at h
    · next hop =>
      cases h
      have hall : "+-*/%<>=!,.".toList.all (fun c => !isIdentChar c) = true := by decide
      exact ⟨[], c, rfl, by simpa using List.all_eq_true.1 hall c (List.contains_iff_mem.1 hop)⟩
    · cases h
  all_goals cases h
  case h_1 => exact ⟨['=', '='], '=', rfl, by decide⟩
  case h_2 => exact ⟨['!', '='], '=', rfl, by decide⟩
  case h_3 => exact ⟨['='], '=', rfl, by decide⟩
  case h_4 => exact ⟨['!'], '=', rfl, by decide⟩
  case h_5 => exact ⟨['<'], '=', rfl, by decide⟩
  case h_6 => exact ⟨['>'], '=', rfl, by decide⟩
  case h_7 => exact ⟨['&'], '&', rfl, by decide⟩
  case h_8 => exact ⟨['|'], '|', rfl, by decide⟩

theorem isIdentChar_of_isSpace {c : Char} (h : isSpace c = true) : isIdentChar c = false := by
  by_contra hident
  have hrange : 48 ≤ c.toNat ∧ c.toNat ≤ 122 ∨ c.toNat = 36 := by
    simp only [isIdentChar, isIdentStart, isDigit, Bool.not_eq_false, Bool.or_eq_true,
      Bool.and_eq_true, decide_eq_true_eq, beq_iff_eq, Char.le_def, UInt32.le_iff_toNat_le]
      at hident
    have hval : c.toNat = c.val.toNat := rfl
    have h0 : '0'.val.toNat = 48 := rfl
    have h9 : '9'.val.toNat = 57 := rfl
    have hA : 'A'.val.toNat = 65 := rfl
    have hZ : 'Z'.val.toNat = 90 := rfl
    have ha : 'a'.val.toNat = 97 := rfl
    have hz : 'z'.val.toNat = 122 := rfl
    rcases hident with (((h | h) | h) | h) | h
    · omega
    · omega
    · exact .inl (by rw [h]; decide)
    · exact .inr (by rw [h]; decide)
    · omega
  simp only [isSpace, Bool.or_eq_true, Bool.and_eq_true, decide_eq_true_eq, beq_iff_eq] at h
  omega

/-- A name that is read stands in the text where no identifier goes on. -/
structure Stands (text name : List Char) : Prop where
  split : ∃ xs ys, text = xs ++ (name ++ ys) ∧ EndsRun xs ∧ StartsRun ys
  start : ∀ c ∈ name.head?, isIdentStart c = true
  nonempty : name ≠ []

theorem startsRun_dropWhile (cs : List Char) : StartsRun (cs.dropWhile isIdentChar) := by
  intro c hc
  have hnot := List.head?_dropWhile_not isIdentChar cs
  rw [Option.mem_def.1 hc] at hnot
  exact hnot

theorem EndsRun.append_singleton {cs : List Char} {c : Char} (hc : isIdentChar c = false) :
    EndsRun (cs ++ [c]) := by
  intro d hd
  rw [List.getLast?_append_of_ne_nil _ (List.cons_ne_nil c []), List.getLast?_singleton] at hd
  obtain rfl := Option.some.inj hd
  exact hc

theorem mem_readScan_cons {blocked : Bool} {t : Token} {rest : List Token} {name : String} :
    name ∈ readScan blocked (t :: rest) ↔
      (t.type = .ident ∧ blocked = false ∧ isRead t.value rest = true ∧ name = t.value) ∨
        name ∈ readScan t.blocksOperand rest := by
  rw [readScan, List.mem_append]
  refine or_congr_left ?_
  split
  · next h =>
    simp only [Bool.and_eq_true, beq_iff_eq, Bool.not_eq_true'] at h
    simp [h]
  · next h =>
    simp only [Bool.and_eq_true, beq_iff_eq, Bool.not_eq_true'] at h
    refine iff_of_false List.not_mem_nil fun hall => h ?_
    exact ⟨⟨hall.1, hall.2.1⟩, hall.2.2.1⟩

theorem mem_readScan_of_not_ident {blocked : Bool} {t : Token} {rest : List Token} {name : String}
    (h : name ∈ readScan blocked (t :: rest)) (ht : t.type ≠ .ident) :
    name ∈ readScan t.blocksOperand rest :=
  (mem_readScan_cons.1 h).resolve_left fun hread => ht hread.1

/-- A name that is read stands in the text. `pre` is what the tokenizer has passed. -/
theorem stands_of_mem_readScan {fuel i : ℕ} {pre cs : List Char} {blocked : Bool} {name : String}
    {last : Token} (hlast : last.type = .eof)
    (h : name ∈ readScan blocked (tokenizeLoop fuel i cs ++ [last]))
    (hpre : blocked = true ∨ EndsRun pre) : Stands (pre ++ cs) name.toList := by
  have hend {blocked : Bool} : name ∉ readScan blocked [last] := by
    simp [readScan, hlast]
  induction fuel generalizing i pre cs blocked with
  | zero => exact absurd h hend
  | succ fuel ih =>
    cases cs with
    | nil => exact absurd h hend
    | cons c cs =>
      have hcut (p : Char → Bool) : pre ++ (c :: cs) =
          (pre ++ (c :: cs).takeWhile p) ++ (c :: cs).dropWhile p := by
        rw [List.append_assoc, List.takeWhile_append_dropWhile]
      rw [tokenizeLoop] at h
      split at h
      · next hspace =>
        rw [List.append_cons]
        exact ih h (.inr (.append_singleton (isIdentChar_of_isSpace hspace)))
      split at h
      · rw [hcut isNumChar]
        exact ih (mem_readScan_of_not_ident h (by simp)) (.inl rfl)
      split at h
      · next hquote =>
        obtain ⟨mid, hmid, hclosed⟩ := scanString_spec c cs.length cs le_rfl
        have h := mem_readScan_of_not_ident h (by simp)
        rcases hclosed with hnil | hlast
        · have hloop (j : ℕ) : tokenizeLoop fuel j [] = [] := by cases fuel <;> rfl
          rw [hnil, hloop] at h
          exact absurd h hend
        · obtain ⟨initial, rfl⟩ := List.getLast?_eq_some_iff.1 hlast
          have htext : pre ++ c :: cs =
              (pre ++ c :: initial) ++ [c] ++ (scanString c cs).2.1 := by
            conv_lhs => rw [hmid]
            simp
          rw [htext]
          refine ih h (.inr (.append_singleton ?_))
          rcases hquote with rfl | rfl <;> decide
      split at h
      · next hstart =>
        have hrun : (c :: cs).takeWhile isIdentChar = c :: cs.takeWhile isIdentChar :=
          List.takeWhile_cons_of_pos (by rw [isIdentChar, hstart, Bool.true_or])
        rcases mem_readScan_cons.1 h with ⟨-, hblocked, -, rfl⟩ | h
        · rw [String.toList_ofList, hrun]
          refine ⟨⟨pre, cs.dropWhile isIdentChar, ?_, ?_, startsRun_dropWhile cs⟩, ?_, ?_⟩
          · rw [List.cons_append, List.takeWhile_append_dropWhile]
          · exact hpre.resolve_left (by rw [hblocked]; exact Bool.false_ne_true)
          · intro d hd
            obtain rfl := Option.some.inj hd
            exact hstart
          · exact List.cons_ne_nil _ _
        · rw [hcut isIdentChar]
          exact ih h (.inl rfl)
      split at h
      · next type value n hop =>
        have h := mem_readScan_of_not_ident h (by rcases scanOp_type hop with h | h <;> simp [h])
        obtain ⟨initial, q, htake, hq⟩ := exists_last_of_scanOp hop
        rw [← List.take_append_drop n (c :: cs), htake, ← List.append_assoc, ← List.append_assoc]
        exact ih h (.inr (.append_singleton hq))
      · next hnum _ hstart _ _ =>
        rw [List.append_cons]
        refine ih h (.inr (.append_singleton ?_))
        have hdigit : isDigit c = false := by
          refine Bool.eq_false_iff.2 fun hdigit => hnum ?_
          have hdot : c ≠ '.' := fun hdot => by simp [hdot, isDigit] at hdigit
          simp [isNumChar, hdigit, hdot]
        rw [isIdentChar, hdigit, Bool.or_false]
        exact Bool.eq_false_iff.2 hstart

/-- A formula mentions the words that it reads. -/
theorem mem_identMatches_of_mem_readNames {formula name : String} (h : name ∈ readNames formula)
    (hword : ∀ c ∈ name.toList, isWordChar c = true) : name ∈ identMatches formula := by
  have hstands : Stands ([] ++ formula.toList) name.toList :=
    stands_of_mem_readScan rfl h (.inr (by simp [EndsRun]))
  obtain ⟨xs, ys, htext, hxs, hys⟩ := hstands.split
  have hmem := mem_identMatches htext hxs hys hword hstands.start hstands.nonempty
  rwa [String.ofList_toList] at hmem

/-! ## The formulas of a schema -/

/-- The names of fields, `/^[a-zA-Z_][a-zA-Z0-9_]*$/`. -/
def isFieldName (name : String) : Bool :=
  name.toList.head?.any (fun c => isIdentStart c && c != '$') && name.toList.all isWordChar

/-- The fields of a schema, as `validateFields` takes them. -/
structure FormulaSchema (N : Type) where
  fields : List (FieldDefinition N)
  distinct : (fields.map (·.name)).Nodup
  named : ∀ f ∈ fields, isFieldName f.name = true

section
variable {N : Type}

/-- The text of the formula of a name. -/
def formulaOf (fields : List (FieldDefinition N)) (name : String) : Option String :=
  (fieldByName fields name).bind fun f => if f.type = .formula then f.formulaText else none

/-- The formulas that one mentions. -/
def mentionsAmong (fields : List (FieldDefinition N)) (name : String) : List String :=
  ((formulaOf fields name).elim [] identMatches).filter fun name => (formulaOf fields name).isSome

/-- The formulas that one reads. -/
def readsAmong (fields : List (FieldDefinition N)) (name : String) : List String :=
  ((formulaOf fields name).elim [] readNames).filter fun name => (formulaOf fields name).isSome

/-- The stored formulas. -/
def storedFormulas (fields : List (FieldDefinition N)) : List (FieldDefinition N) :=
  fields.filter fun f => f.type = .formula && f.store && f.formulaText.isSome

/-- `topoSortStoredFormulas`. -/
def topoSortStoredFormulas (fields : List (FieldDefinition N)) : List (FieldDefinition N) :=
  let stored := storedFormulas fields
  if stored.length ≤ 1 then stored
  else
    (sortByRounds (mentionsAmong stored) (stored.map (·.name)).eraseDups).filterMap
      (fieldByName stored)

/-- No formula that one leads to reads its way back to itself. -/
def AcyclicFrom (reads : String → List String) (name : String) : Prop :=
  ∀ a, LeadsTo reads name a → ∀ b ∈ reads a, ¬LeadsTo reads b a

/-- The stored formulas are ordered: each after those that it reads. -/
def OrdersStored (fields : List (FieldDefinition N)) : Prop :=
  (∀ f ∈ storedFormulas fields, AcyclicFrom (readsAmong (storedFormulas fields)) f.name) →
    (topoSortStoredFormulas fields).Perm (storedFormulas fields) ∧
      (topoSortStoredFormulas fields).Pairwise fun f g =>
        g.name ∉ readsAmong (storedFormulas fields) f.name

/-- The formulas that a selection needs are resolved: each once, after those that it reads. -/
def ResolvesNeeded (fields : List (FieldDefinition N)) : Prop :=
  ∀ selected : List String, (∀ s ∈ selected, AcyclicFrom (readsAmong fields) s) →
    ((resolveFormulaDependencies fields selected).map (·.name)).Nodup ∧
      ∀ s ∈ selected, (formulaOf fields s).isSome → ∀ a, LeadsTo (readsAmong fields) s a →
        a ∈ (resolveFormulaDependencies fields selected).map (·.name) ∧
          ∀ b ∈ readsAmong fields a, ∃ before after,
            (resolveFormulaDependencies fields selected).map (·.name) = before ++ a :: after ∧
              b ∈ before

/-- A formula mentions its way to some that mention one another in a circle. -/
def Circling (fields : List (FieldDefinition N)) (a : String) : Prop :=
  Stuck (mentionsAmong fields) (fields.map (·.name)) a

/-- The schema has such formulas in their order: each after those that it reads. -/
def CirclesOrdered (fields : List (FieldDefinition N)) : Prop :=
  (∀ f ∈ storedFormulas fields, AcyclicFrom (readsAmong (storedFormulas fields)) f.name) →
    ((storedFormulas fields).map (·.name)).Pairwise fun a b =>
      Circling (storedFormulas fields) a → Circling (storedFormulas fields) b →
        b ∉ readsAmong (storedFormulas fields) a

/-- No formula that one reads mentions its way back to it. -/
def NoWayBack (fields : List (FieldDefinition N)) : Prop :=
  ∀ a, AcyclicFrom (readsAmong fields) a → ∀ b ∈ readsAmong fields a,
    ¬LeadsTo (mentionsAmong fields) b a

/-! ## What is read is mentioned -/

theorem isSome_formulaOf {fields : List (FieldDefinition N)} {name : String}
    (h : (formulaOf fields name).isSome) : ∃ f ∈ fields, f.name = name := by
  cases hf : fieldByName fields name with
  | none => simp [formulaOf, hf] at h
  | some f =>
    refine ⟨f, List.mem_reverse.1 (List.mem_of_find?_eq_some hf), ?_⟩
    simpa using List.find?_some hf

/-- A formula mentions the formulas that it reads. -/
theorem readsAmong_subset {fields : List (FieldDefinition N)}
    (hnamed : ∀ f ∈ fields, isFieldName f.name = true) (a : String) :
    ∀ b ∈ readsAmong fields a, b ∈ mentionsAmong fields a := by
  intro b hb
  obtain ⟨hread, hformula⟩ := List.mem_filter.1 hb
  refine List.mem_filter.2 ⟨?_, hformula⟩
  obtain ⟨f, hf, rfl⟩ := isSome_formulaOf hformula
  have hword := List.all_eq_true.1 (Bool.and_eq_true_iff.1 (hnamed f hf)).2
  cases htext : formulaOf fields a with
  | none => simp [htext] at hread
  | some text =>
    rw [htext] at hread
    exact mem_identMatches_of_mem_readNames hread hword

theorem isSome_of_mem_readsAmong {fields : List (FieldDefinition N)} {a b : String}
    (h : b ∈ readsAmong fields a) : (formulaOf fields a).isSome ∧ (formulaOf fields b).isSome := by
  obtain ⟨hread, hformula⟩ := List.mem_filter.1 h
  refine ⟨?_, hformula⟩
  cases htext : formulaOf fields a with
  | none => simp [htext] at hread
  | some text => rfl

theorem AcyclicFrom.of_leadsTo {reads : String → List String} {a b : String}
    (h : AcyclicFrom reads a) (hlead : LeadsTo reads a b) : AcyclicFrom reads b :=
  fun c hc => h c (hlead.trans hc)

/-! ## Resolving -/

/-- A field is a formula with a text. -/
theorem formulaOf_eq_some {fields : List (FieldDefinition N)} {name text : String} :
    formulaOf fields name = some text ↔
      ∃ f, fieldByName fields name = some f ∧ f.type = .formula ∧ f.formulaText = some text := by
  unfold formulaOf
  cases fieldByName fields name with
  | none => simp
  | some f => by_cases htype : f.type = .formula <;> simp [htype]

theorem isSome_formulaOf_eq (fields : List (FieldDefinition N)) (name : String) :
    (fieldByName fields name).any (fun f => f.type = .formula && f.formulaText.isSome) =
      (formulaOf fields name).isSome := by
  unfold formulaOf
  cases fieldByName fields name with
  | none => rfl
  | some f => by_cases htype : f.type = .formula <;> simp [htype]

/-- A visit of a formula, which visits first what it mentions. -/
theorem visitFormula_formula {fields : List (FieldDefinition N)} {fuel : ℕ} {visited : List String}
    {out : List (FieldDefinition N)} {name text : String} {f : FieldDefinition N}
    (hf : fieldByName fields name = some f) (htype : f.type = .formula)
    (htext : f.formulaText = some text) :
    visitFormula fields (fuel + 1) (visited, out) name =
      if visited.contains name then (visited, out)
      else
        (((mentionsAmong fields name).foldl (visitFormula fields fuel) (visited ++ [name], out)).1,
          ((mentionsAmong fields name).foldl (visitFormula fields fuel)
            (visited ++ [name], out)).2 ++ [f]) := by
  have hmentions : mentionsAmong fields name =
      (identMatches text).filter fun name => (formulaOf fields name).isSome := by
    rw [mentionsAmong, formulaOf_eq_some.2 ⟨f, hf, htype, htext⟩]
    rfl
  simp only [visitFormula, hf, htext, htype, isSome_formulaOf_eq, hmentions, ne_eq,
    not_true_eq_false, decide_false, Bool.false_or]

/-- Another name is passed over. -/
theorem visitFormula_other {fields : List (FieldDefinition N)} {fuel : ℕ}
    {s : List String × List (FieldDefinition N)} {name : String}
    (h : (formulaOf fields name).isSome = false) : visitFormula fields fuel s name = s := by
  cases fuel with
  | zero => rfl
  | succ fuel =>
    obtain ⟨visited, out⟩ := s
    cases hf : fieldByName fields name with
    | none => simp only [visitFormula, hf]
    | some f =>
      cases htext : f.formulaText with
      | none => simp only [visitFormula, hf, htext]
      | some text =>
        have htype : f.type ≠ .formula := by
          intro htype
          rw [formulaOf_eq_some.2 ⟨f, hf, htype, htext⟩] at h
          cases h
        simp only [visitFormula, hf, htext, htype, ne_eq, not_false_eq_true, decide_true,
          Bool.true_or, if_true]

/-- The names that are visited, and those of the formulas that are found. -/
def formulaNames (s : List String × List (FieldDefinition N)) : List String × List String :=
  (s.1, s.2.map (·.name))

/-- A visit of a name is one of the formulas that are mentioned. -/
def VisitsAlike (fields : List (FieldDefinition N)) (fuel : ℕ) : Prop :=
  ∀ s name, formulaNames (visitFormula fields fuel s name) =
    if (formulaOf fields name).isSome then visit (mentionsAmong fields) fuel (formulaNames s) name
    else formulaNames s

theorem formulaNames_foldl {fields : List (FieldDefinition N)} {fuel : ℕ}
    (h : VisitsAlike fields fuel) (names : List String)
    (s : List String × List (FieldDefinition N)) :
    formulaNames (names.foldl (visitFormula fields fuel) s) =
      (names.filter fun name => (formulaOf fields name).isSome).foldl
        (visit (mentionsAmong fields) fuel) (formulaNames s) := by
  induction names generalizing s with
  | nil => rfl
  | cons name names ih =>
    rw [List.foldl_cons, ih, h, List.filter_cons]
    split
    · rw [List.foldl_cons]
    · rfl

theorem visitsAlike (fields : List (FieldDefinition N)) (fuel : ℕ) : VisitsAlike fields fuel := by
  induction fuel with
  | zero =>
    intro s name
    rw [visitFormula, visit, ite_self]
  | succ fuel ih =>
    rintro ⟨visited, out⟩ name
    split
    · next hsome =>
      obtain ⟨text, hof⟩ := Option.isSome_iff_exists.1 hsome
      obtain ⟨f, hf, htype, htext⟩ := formulaOf_eq_some.1 hof
      have hname : f.name = name := by simpa using List.find?_some hf
      rw [visitFormula_formula hf htype htext, visit]
      split
      · next hvisited => rw [formulaNames, if_pos hvisited]
      · next hvisited =>
        have hfilter : ((mentionsAmong fields name).filter fun name =>
            (formulaOf fields name).isSome) = mentionsAmong fields name := by
          rw [mentionsAmong, List.filter_filter]
          simp only [Bool.and_self]
        have hfold := formulaNames_foldl ih (mentionsAmong fields name) (visited ++ [name], out)
        rw [hfilter] at hfold
        have hnot : ¬(formulaNames (visited, out)).1.contains name = true := hvisited
        rw [if_neg hnot]
        unfold formulaNames at hfold ⊢
        simp only [List.map_append, List.map_cons, List.map_nil, hname, ← hfold]
    · next hnone => rw [visitFormula_other (Bool.eq_false_iff.2 hnone)]

/-- The formulas that are resolved are those that a search finishes. -/
theorem map_resolveFormulaDependencies (fields : List (FieldDefinition N))
    (selected : List String) :
    (resolveFormulaDependencies fields selected).map (·.name) =
      postOrder (mentionsAmong fields) (fields.length + 1)
        (selected.filter fun name => (formulaOf fields name).isSome) :=
  congrArg Prod.snd (formulaNames_foldl (visitsAlike fields _) selected ([], []))

/-- In a list without repetition what is before an item is not after it. -/
theorem idxOf_lt_of_before {l before after : List String} {a b : String} (hl : l.Nodup)
    (h : l = before ++ a :: after) (hb : b ∈ before) : l.idxOf b < l.idxOf a := by
  subst h
  have ha : a ∉ before := fun ha =>
    (List.nodup_append.1 hl).2.2 a ha a List.mem_cons_self rfl
  rw [List.idxOf_append_of_mem hb, List.idxOf_append_of_notMem ha, List.idxOf_cons_self,
    Nat.add_zero]
  exact List.idxOf_lt_length_of_mem hb

/-- The formulas that a selection needs are resolved just when no formula that one reads mentions
its way back to it. -/
theorem resolvesNeeded_iff (S : FormulaSchema N) :
    ResolvesNeeded S.fields ↔ NoWayBack S.fields := by
  have hsubset := readsAmong_subset S.named
  have hlead {a b : String} (h : LeadsTo (readsAmong S.fields) a b) :
      LeadsTo (mentionsAmong S.fields) a b :=
    Relation.ReflTransGen.mono (fun x y => hsubset x y) a b h
  let items := (S.fields.map (·.name)).filter fun name => (formulaOf S.fields name).isSome
  have hformula {a : String} (h : (formulaOf S.fields a).isSome) : a ∈ items := by
    obtain ⟨f, hf, hname⟩ := isSome_formulaOf h
    exact List.mem_filter.2 ⟨List.mem_map.2 ⟨f, hf, hname⟩, h⟩
  have hitems : ∀ a ∈ items, ∀ b ∈ mentionsAmong S.fields a, b ∈ items := fun a _ b hb =>
    hformula (List.mem_filter.1 hb).2
  have hdepth : items.length < S.fields.length + 1 := by
    refine Nat.lt_succ_of_le ((List.length_filter_le _ _).trans ?_)
    rw [List.length_map]
  have hroots (selected : List String) :
      ∀ a ∈ selected.filter (fun name => (formulaOf S.fields name).isSome), a ∈ items :=
    fun a ha => hformula (List.mem_filter.1 ha).2
  unfold ResolvesNeeded
  simp only [map_resolveFormulaDependencies]
  constructor
  · intro h a hacyclic b hb hback
    obtain ⟨ha, hbsome⟩ := isSome_of_mem_readsAmong hb
    have hstep : LeadsTo (readsAmong S.fields) a b := .single hb
    have hne : a ≠ b := fun heq => hacyclic a .refl b hb (heq ▸ .refl)
    obtain ⟨hnodup, hall⟩ := h [b, a] (by
      refine List.forall_mem_cons.2 ⟨hacyclic.of_leadsTo hstep, ?_⟩
      exact List.forall_mem_singleton.2 hacyclic)
    obtain ⟨-, hbefore⟩ := hall a (List.mem_cons_of_mem b List.mem_cons_self) ha a .refl
    obtain ⟨before, after, heq, hmem⟩ := hbefore b hb
    have hfilter : [b, a].filter (fun name => (formulaOf S.fields name).isSome) = [b, a] := by
      simp [ha, hbsome]
    have hroot := exists_before_root hitems (hfilter ▸ hroots [b, a]) hdepth hback hne
    rw [← hfilter] at hroot
    obtain ⟨before', after', heq', hmem'⟩ := hroot
    have hlt := idxOf_lt_of_before hnodup heq hmem
    have hgt := idxOf_lt_of_before hnodup heq' hmem'
    omega
  · intro h selected hacyclic
    refine ⟨nodup_postOrder hitems (hroots selected) hdepth, fun s hs hsome a ha => ?_⟩
    have hmem := (mem_postOrder_iff hitems (hroots selected) hdepth).2
      ⟨s, List.mem_filter.2 ⟨hs, hsome⟩, hlead ha⟩
    refine ⟨hmem, fun b hb => ?_⟩
    exact exists_before_of_mem hitems (hroots selected) hdepth hmem (hsubset a b hb)
      (h a ((hacyclic s hs).of_leadsTo ha) b hb)

/-! ## Ordering -/

theorem eraseDups_of_nodup {l : List String} (h : l.Nodup) : l.eraseDups = l := by
  induction l with
  | nil => rfl
  | cons a l ih =>
    obtain ⟨ha, hl⟩ := List.nodup_cons.1 h
    have hfilter : (l.filter fun b => !b == a) = l := by
      refine List.filter_eq_self.2 fun b hb => ?_
      have hne : b ≠ a := fun heq => ha (heq ▸ hb)
      simpa using hne
    rw [List.eraseDups_cons, hfilter, ih hl]

theorem pairwise_of_length_le_one {α : Type} {l : List α} {R : α → α → Prop} (h : l.length ≤ 1) :
    l.Pairwise R := by
  rcases l with _ | ⟨a, _ | ⟨b, l⟩⟩
  · exact .nil
  · exact List.pairwise_singleton R a
  · simp at h

/-- The fields of some names, in their order. -/
theorem filterMap_fieldByName {fields : List (FieldDefinition N)} {names : List String}
    (hdistinct : (fields.map (·.name)).Nodup) (hperm : names.Perm (fields.map (·.name))) :
    (names.filterMap (fieldByName fields)).Perm fields ∧
      (names.filterMap (fieldByName fields)).map (·.name) = names := by
  constructor
  · refine (hperm.filterMap _).trans ?_
    rw [List.filterMap_map]
    refine .of_eq ?_
    have hsome : ∀ f ∈ fields, (fieldByName fields ∘ (·.name)) f = some f := fun f hf =>
      fieldByName_eq hdistinct hf
    rw [List.filterMap_congr hsome, List.filterMap_some]
  · rw [List.map_filterMap]
    have hsome : ∀ name ∈ names, (fieldByName fields name).map (·.name) = some name := by
      intro name hname
      obtain ⟨f, hf, rfl⟩ := List.mem_map.1 (hperm.mem_iff.1 hname)
      rw [fieldByName_eq hdistinct hf]
      rfl
    rw [List.filterMap_congr hsome, List.filterMap_some]

/-- The stored formulas are ordered just when the schema has those that mention their way to a
circle in their order. -/
theorem ordersStored_iff (S : FormulaSchema N) :
    OrdersStored S.fields ↔ CirclesOrdered S.fields := by
  let stored := storedFormulas S.fields
  have hsublist : (stored.map (·.name)).Sublist (S.fields.map (·.name)) :=
    List.filter_sublist.map _
  have hdistinct : (stored.map (·.name)).Nodup := S.distinct.sublist hsublist
  have hnamed : ∀ f ∈ stored, isFieldName f.name = true := fun f hf =>
    S.named f (List.mem_of_mem_filter hf)
  have hsort := pairwise_sortByRounds_iff (mentionsAmong stored) hdistinct
    (R := fun a b => b ∈ readsAmong stored a) fun a _ b _ _ h => readsAmong_subset hnamed a b h
  have htopo : (topoSortStoredFormulas S.fields).Perm stored ∧
      ((topoSortStoredFormulas S.fields).Pairwise (fun f g =>
          g.name ∉ readsAmong stored f.name) ↔
        (stored.map (·.name)).Pairwise fun a b =>
          Circling stored a → Circling stored b → b ∉ readsAmong stored a) := by
    by_cases hone : stored.length ≤ 1
    · rw [topoSortStoredFormulas, if_pos hone]
      refine ⟨.refl _, iff_of_true ?_ ?_⟩
      · exact pairwise_of_length_le_one hone
      · exact pairwise_of_length_le_one (by rwa [List.length_map])
    · rw [topoSortStoredFormulas, if_neg hone, eraseDups_of_nodup hdistinct]
      obtain ⟨hperm, hnames⟩ := filterMap_fieldByName hdistinct
        (perm_sortByRounds (mentionsAmong stored) hdistinct)
      have hmap := List.pairwise_map (f := fun f : FieldDefinition N => f.name)
        (R := fun a b => b ∉ readsAmong stored a)
        (l := (sortByRounds (mentionsAmong stored) (stored.map (·.name))).filterMap
          (fieldByName stored))
      rw [hnames] at hmap
      exact ⟨hperm, hmap.symm.trans hsort⟩
  unfold OrdersStored CirclesOrdered
  exact imp_congr_right fun _ => (and_iff_right htopo.1).trans htopo.2

/-- The orders of formulas are right just when the formulas that mention their way to a circle stand
in the order of the schema, and no formula that one reads mentions its way back to it. -/
theorem formulaOrder_iff (S : FormulaSchema N) :
    (OrdersStored S.fields ↔ CirclesOrdered S.fields) ∧
      (ResolvesNeeded S.fields ↔ NoWayBack S.fields) :=
  ⟨ordersStored_iff S, resolvesNeeded_iff S⟩

end

/-- The total of an order reads its tax, and the tax mentions the total in a string. -/
def totalAndTax : FormulaSchema (Option Int) where
  fields := [{ name := "total", type := .formula, formula := some "tax + 1", store := true },
    { name := "tax", type := .formula, formula := some "kind == 'total'", store := true }]
  distinct := by simp
  named := List.forall_mem_cons.2 ⟨by decide, List.forall_mem_singleton.2 (by decide)⟩

/-- The total is computed before the tax. -/
theorem total_before_tax : ¬OrdersStored totalAndTax.fields := by
  intro h
  have hstored : storedFormulas totalAndTax.fields = totalAndTax.fields := rfl
  have htotal : readsAmong totalAndTax.fields "total" = ["tax"] := by decide +kernel
  have htax : readsAmong totalAndTax.fields "tax" = [] := by decide +kernel
  have hsorted : (topoSortStoredFormulas totalAndTax.fields).map (·.name) = ["total", "tax"] := by
    decide +kernel
  have hleaf {a : String} (ha : LeadsTo (readsAmong totalAndTax.fields) "tax" a) : a = "tax" := by
    rcases ha.cases_head with rfl | ⟨b, hb, -⟩
    · rfl
    · rw [htax] at hb
      exact absurd hb List.not_mem_nil
  have hacyclic : ∀ f ∈ totalAndTax.fields, AcyclicFrom (readsAmong totalAndTax.fields) f.name := by
    have htax' : AcyclicFrom (readsAmong totalAndTax.fields) "tax" := by
      intro a ha b hb
      rw [hleaf ha, htax] at hb
      exact absurd hb List.not_mem_nil
    refine List.forall_mem_cons.2 ⟨?_, List.forall_mem_singleton.2 htax'⟩
    intro a ha b hb hback
    rcases ha.cases_head with rfl | ⟨c, hc, hlead⟩
    · rw [htotal] at hb
      rw [List.mem_singleton.1 hb] at hback
      exact absurd (hleaf hback) (by decide)
    · rw [htotal] at hc
      rw [List.mem_singleton.1 hc] at hlead
      exact htax' a hlead b hb hback
  unfold OrdersStored at h
  rw [hstored] at h
  have hpairwise : ((topoSortStoredFormulas totalAndTax.fields).map (·.name)).Pairwise fun a b =>
      b ∉ readsAmong totalAndTax.fields a := List.pairwise_map.2 (h hacyclic).2
  rw [hsorted] at hpairwise
  refine List.rel_of_pairwise_cons hpairwise List.mem_cons_self ?_
  rw [htotal]
  exact List.mem_singleton_self "tax"

end HeadlessErp
