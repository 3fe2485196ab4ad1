import HeadlessErp.Entity.Row
import HeadlessErp.Js.NumberText

/-!
# The cron parser

`parseCron` of `packages/scheduler/src/cron.ts`. An expression is five fields apart by blanks, and a
field is a list of numbers, ranges and steps. The texts between the separators become numbers by
`Number` or by the field's table of names, where the operator `in` also finds what every object
inherits. The errors' texts are left out: `parseCron` catches each of them.
-/

namespace HeadlessErp.Cron

/-! ## Texts -/

/-- `text.toLowerCase()`. -/
def lowered (text : List Char) : List Char := text.flatMap lowerChar

/-- `text.split(/\s+/)`: a run of blanks is cut at its last one. -/
def splitSpaces : List Char → List (List Char)
  | [] => [[]]
  | c :: cs =>
    if isSpace c = true then
      if (cs.head?.any isSpace) = true then splitSpaces cs else [] :: splitSpaces cs
    else
      match splitSpaces cs with
      | part :: parts => (c :: part) :: parts
      | [] => [[c]]

/-- `text.indexOf(mark)` and the two slices around it. -/
def cutAt (mark : Char) (text : List Char) : List Char × Option (List Char) :=
  (text.takeWhile (· ≠ mark), (text.dropWhile (· ≠ mark)).tail?)

/-! ## Values -/

/-- A value of a field: a number, or the member that every object has under a name. -/
inductive CronValue where
  | num (n : ℤ)
  | inherited (name : String)
  deriving DecidableEq, Repr

namespace CronValue

/-- `a < b`: a member is not a number, and less than nothing. -/
def lt : CronValue → CronValue → Bool
  | num a, num b => decide (a < b)
  | _, _ => false

/-- `for (let v = lo; v <= hi; v += step)`, for at most `n` rounds. -/
def countUp (hi step : ℤ) : ℕ → ℤ → List ℤ
  | 0, _ => []
  | n + 1, v => if v ≤ hi then v :: countUp hi step n (v + step) else []

/-- The values of that loop, which a member does not enter. -/
def upTo : CronValue → CronValue → ℤ → List CronValue
  | num lo, num hi, step => (countUp hi step (hi + 1 - lo).toNat lo).map num
  | _, _, _ => []

end CronValue

/-- A table of names. -/
abbrev CronNames := List (String × ℤ)

/-- `MONTH_NAMES`. -/
def monthNames : CronNames :=
  [("jan", 1), ("feb", 2), ("mar", 3), ("apr", 4), ("may", 5), ("jun", 6), ("jul", 7), ("aug", 8),
    ("sep", 9), ("oct", 10), ("nov", 11), ("dec", 12)]

/-- `DOW_NAMES`. -/
def dowNames : CronNames :=
  [("sun", 0), ("mon", 1), ("tue", 2), ("wed", 3), ("thu", 4), ("fri", 5), ("sat", 6)]

/-- `names[t]`, where `t in names`. -/
def memberOf (names : CronNames) (t : String) : Option CronValue :=
  match names.lookup t with
  | some n => some (.num n)
  | none => if inheritedNames.contains t = true then some (.inherited t) else none

/-- `valueOf`. -/
def valueOf (raw : List Char) (names : Option CronNames) : Option CronValue :=
  let t := lowered (trimmed raw)
  match names.bind (memberOf · (String.ofList t)) with
  | some v => some v
  | none => (integerOf t).map .num

/-- `stepOf`. -/
def stepOf (raw : List Char) : Option ℤ := (integerOf raw).filter (1 ≤ ·)

/-! ## Fields -/

/-- `ParsedField`: `values` is a set in the order of its insertions. -/
structure ParsedField where
  all : Bool
  values : Option (List CronValue)
  lastDayOfMonth : Bool
  deriving DecidableEq, Repr

/-- `values.add(v)`. -/
def addValue (values : List CronValue) (v : CronValue) : List CronValue :=
  if v ∈ values then values else values ++ [v]

/-- The values of an entry without its step: `slash` says whether it has one. -/
def baseValues (min max : ℤ) (names : Option CronNames) (base : List Char) (slash : Bool)
    (step : ℤ) : Option (List CronValue) :=
  if base = ['*'] then some (CronValue.upTo (.num min) (.num max) step)
  else
    match cutAt '-' base with
    | (_, none) => do
      let lo ← valueOf base names
      if lo.lt (.num min) || (CronValue.num max).lt lo then none
      else some (if slash then CronValue.upTo lo (.num max) step else [lo])
    | (low, some high) => do
      let lo ← valueOf low names
      let hi ← valueOf high names
      if lo.lt (.num min) || (CronValue.num max).lt hi || hi.lt lo then none
      else some (CronValue.upTo lo hi step)

/-- What one entry of a list adds. -/
def parseEntry (min max : ℤ) (names : Option CronNames) (token : List Char) :
    Option (List CronValue) := do
  let (base, slash) := cutAt '/' token
  let step ← slash.elim (some 1) stepOf
  baseValues min max names base slash.isSome step

/-- One round of the loop over a list: the values so far, and whether there was an `L`. -/
def parseToken (min max : ℤ) (names : Option CronNames) (acc : List CronValue × Bool)
    (token : List Char) : Option (List CronValue × Bool) :=
  if token = [] then none
  else if token = ['l'] then if names.isSome then none else some (acc.1, true)
  else (parseEntry min max names token).map fun values => (values.foldl addValue acc.1, acc.2)

/-- `parseField`. -/
def parseField (raw : List Char) (min max : ℤ) (names : Option CronNames) : Option ParsedField :=
  let f := lowered (trimmed raw)
  if f = [] then none
  else if f = ['*'] then some ⟨true, none, false⟩
  else if f = ['l'] then if names.isSome then none else some ⟨false, some [], true⟩
  else ((f.splitOn ',').foldlM (parseToken min max names) ([], false)).map fun acc =>
    ⟨false, some acc.1, acc.2⟩

/-! ## Expressions -/

/-- `ParsedCron`. -/
structure ParsedCron where
  minute : ParsedField
  hour : ParsedField
  dom : ParsedField
  month : ParsedField
  dow : ParsedField
  deriving DecidableEq, Repr

namespace ParsedField

/-- `values.delete(7)` and `values.add(0)`, where 7 is a value. -/
def sundayZero (f : ParsedField) : ParsedField :=
  { f with
    values := f.values.map fun values =>
      if .num 7 ∈ values then addValue (values.filter (· ≠ .num 7)) (.num 0) else values }

/-- `isEmpty`. -/
def isEmpty (f : ParsedField) : Bool := !f.all && (f.values.getD []).isEmpty

end ParsedField

/-- `parseCron`. -/
def parseCron (cron : String) : Option ParsedCron :=
  match splitSpaces (trimmed cron.toList) with
  | [minute, hour, dom, month, dow] => do
    let minute ← parseField minute 0 59 none
    let hour ← parseField hour 0 23 none
    let dom ← parseField dom 1 31 none
    let month ← parseField month 1 12 (some monthNames)
    let dow ← parseField dow 0 7 (some dowNames)
    if minute.isEmpty || hour.isEmpty then none
    else some { minute, hour, dom, month, dow := dow.sundayZero }
  | _ => none

end HeadlessErp.Cron
