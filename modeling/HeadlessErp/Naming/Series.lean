import Mathlib.Order.Basic
import HeadlessErp.Base.Decimal
import HeadlessErp.Expression.Tokenizer
import HeadlessErp.Js.Value
import HeadlessErp.Query.Sql

/-!
# Naming series

`NamingService.getNextNumber` of `apps/api/src/lib/services/naming.service.ts`: the next number of a series
follows the greatest one in the order of text, and is claimed in `_naming_series`. A call is a step of its
own here, so its three attempts read the same rows.
-/

namespace HeadlessErp

/-! ## Patterns -/

/-- A `ParsedNamingSeries`. -/
structure ParsedNamingSeries where
  /-- The literal prefix, with the dash at its end. -/
  namePrefix : String
  width : Nat
  raw : String
  deriving DecidableEq, Repr

/-- `DEFAULT_NAMING_WIDTH`. -/
def defaultNamingWidth : Nat := 5

/-- `MAX_NAMING_WIDTH`. -/
def maxNamingWidth : Nat := 10

/-- The regular expression `[A-Za-z0-9_-]`. -/
def isSeriesChar (c : Char) : Bool := isSqlIdentChar c || c == '-'

/-- `parseSeries`: `NAMING_SERIES_RE` is `^([A-Za-z0-9_-]+-)(#{0,10})$`. -/
def parseSeries (series : String) : Option ParsedNamingSeries :=
  let hashes := series.toList.reverse.takeWhile (· == '#')
  let literal := (series.toList.reverse.dropWhile (· == '#')).reverse
  if literal.all isSeriesChar && 2 ≤ literal.length && literal.getLast? == some '-' &&
      hashes.length ≤ maxNamingWidth then
    some ⟨String.ofList literal, if hashes.isEmpty then defaultNamingWidth else hashes.length, series⟩
  else none

/-- The width of a series. -/
theorem width_of_parseSeries {series : String} {p : ParsedNamingSeries}
    (h : parseSeries series = some p) : 0 < p.width ∧ p.width ≤ maxNamingWidth := by
  unfold parseSeries at h
  simp only at h
  split at h
  · next hvalid =>
    simp only [Bool.and_eq_true, decide_eq_true_eq] at hvalid
    obtain rfl := Option.some.inj h
    show 0 < (if _ then _ else _) ∧ (if _ then _ else _) ≤ _
    split
    · exact ⟨by decide, by decide⟩
    · next hsome => exact ⟨List.length_pos_of_ne_nil fun hnil => hsome (by rw [hnil]; rfl), hvalid.2⟩
  · cases h

/-! ## Rows -/

/-- `name LIKE 'prefix%'`: an underscore stands for any character, and the case of letters is ignored. -/
def likePrefix : List Char → List Char → Bool
  | [], _ => true
  | _ :: _, [] => false
  | p :: ps, c :: cs => (p == '_' || p.toLower == c.toLower) && likePrefix ps cs

/-- `SELECT display_number … WHERE display_number LIKE 'prefix%' ORDER BY display_number DESC LIMIT 1`. -/
def lastNumber (names : List String) (namePrefix : String) : Option String :=
  (names.filter fun name => likePrefix namePrefix.toList name.toList).max?

theorem likePrefix_append (ps cs : List Char) : likePrefix ps (ps ++ cs) = true := by
  induction ps with
  | nil => rfl
  | cons p ps ih => simp [likePrefix, ih]

/-- The last number is one that matches, and none that matches comes after it. -/
theorem lastNumber_eq_some {names : List String} {namePrefix last : String}
    (h : lastNumber names namePrefix = some last) :
    last ∈ names ∧ likePrefix namePrefix.toList last.toList = true ∧
      ∀ name ∈ names, likePrefix namePrefix.toList name.toList = true → name ≤ last := by
  obtain ⟨hmem, hmax⟩ := List.max?_eq_some_iff.1 h
  obtain ⟨hmem, hlike⟩ := List.mem_filter.1 hmem
  exact ⟨hmem, hlike, fun name hname hmatch => hmax name (List.mem_filter.2 ⟨hname, hmatch⟩)⟩

theorem lastNumber_eq_none {names : List String} {namePrefix : String}
    (h : lastNumber names namePrefix = none) :
    ∀ name ∈ names, likePrefix namePrefix.toList name.toList = false := by
  have hnil := List.max?_eq_none_iff.1 h
  intro name hname
  exact Bool.eq_false_iff.2 (List.filter_eq_nil_iff.1 hnil name hname)

/-! ## Numbers -/

/-- The numbers of the counter. They are exact up to `2 ^ 53`, and are rounded and written as the language
has it from there on. -/
structure CounterFormat where
  round : Nat → Nat
  write : Nat → String
  round_eq : ∀ n, n < 2 ^ 53 → round n = n
  write_eq : ∀ n, n < 2 ^ 53 → write n = n.repr

/-- `s.slice(n)`. Half of a character is none of the characters that are looked for. -/
def sliceUnits : Nat → List Char → List Char
  | _, [] => []
  | 0, cs => cs
  | n + 1, c :: cs =>
    if (charUnits c).length ≤ n + 1 then sliceUnits (n + 1 - (charUnits c).length) cs
    else '\uFFFD' :: cs

/-- The digits that `parseInt(s, 10)` reads, unless the number is negative. -/
def parseIntDigits (cs : List Char) : List Char :=
  match cs.dropWhile isSpace with
  | '-' :: _ => []
  | '+' :: rest => rest.takeWhile Char.isDigit
  | rest => rest.takeWhile Char.isDigit

/-- `s.padStart(width, '0')`. -/
def padStart (width : Nat) (s : String) : String :=
  String.ofList (List.replicate (width - s.length) '0') ++ s

namespace CounterFormat
variable (F : CounterFormat)

/-- `nextNum`. No digits count as zero, and what is less than one as one. -/
def nextNum (namePrefix : String) : Option String → Nat
  | none => 1
  | some last =>
    let ds := parseIntDigits (sliceUnits (jsLength namePrefix) last.toList)
    F.round (max (F.round (Decimal.value ds)) 1 + 1)

/-- `nextNumber`. -/
def nextNumber (p : ParsedNamingSeries) (names : List String) : String :=
  p.namePrefix ++ padStart p.width (F.write (F.nextNum p.namePrefix (lastNumber names p.namePrefix)))

end CounterFormat

/-! ## Claims -/

/-- A row of `_naming_series`. -/
structure NamingClaim where
  table : String
  series : String
  number : String
  deriving DecidableEq, Repr

/-- `_insertClaim`: the rows, where the number is claimed. An absent table is created, and a claim that
cannot be written counts as one. -/
def insertClaim (claims : List NamingClaim) (claim : NamingClaim) (broken : Bool) :
    Option (List NamingClaim) :=
  if broken then some claims
  else if claims.contains claim then none
  else some (claims ++ [claim])

/-- `MAX_RETRIES`. -/
def maxRetries : Nat := 3

/-- The attempts of `getNextNumber`, by how many are left. -/
def claimLoop (F : CounterFormat) (names : List String) (claims : List NamingClaim) (table : String)
    (p : ParsedNamingSeries) (broken : Nat → Bool) : Nat → Except String (String × List NamingClaim)
  | 0 => .error s!"Failed to generate unique display_number for series \"{p.raw}\" after {maxRetries} attempts"
  | left + 1 =>
    let number := F.nextNumber p names
    match insertClaim claims ⟨table, p.raw, number⟩ (broken left) with
    | some claims => .ok (number, claims)
    | none => claimLoop F names claims table p broken left

/-- `getNextNumber`, on the display numbers of the rows of a table. -/
def getNextNumber (F : CounterFormat) (names : List String) (claims : List NamingClaim)
    (table series : String) (broken : Nat → Bool) : Except String (String × List NamingClaim) :=
  match parseSeries series with
  | none => .error s!"Invalid naming series \"{series}\""
  | some p => do
    let table ← sanitizeIdentifier table "NamingService.table"
    claimLoop F names claims table p broken maxRetries

end HeadlessErp
