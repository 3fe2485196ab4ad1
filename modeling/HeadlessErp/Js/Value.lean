/-!
# JavaScript values

The values the engine computes with at run time: request payloads, rows read back from the
database and the operands of the expression evaluator. The number type is a parameter `N` with the
operations the code uses (`JsNumber`), so a statement about values never depends on the
floating-point format. `JsVal.toStr`, `JsVal.toNum` and `JsVal.truthy` are the conversions
`String(v)`, `Number(v)` and `Boolean(v)`.
-/

namespace HeadlessErp

/-! ## Numbers -/

/-- The operations of the JavaScript number type that the engine uses. `ofString` is `Number(s)`,
`eq` is `===`, `math f` is `Math.f`. -/
class JsNumber (N : Type) where
  ofInt : Int → N
  nan : N
  isNaN : N → Bool
  isFinite : N → Bool
  eq : N → N → Bool
  lt : N → N → Bool
  neg : N → N
  add : N → N → N
  sub : N → N → N
  mul : N → N → N
  div : N → N → N
  rem : N → N → N
  parseFloat : String → N
  ofString : String → N
  toString : N → String
  math : String → List N → N

/-- Integers and NaN, for concrete runs. Division truncates, and `Math` is not a number. -/
instance : JsNumber (Option Int) where
  ofInt := some
  nan := none
  isNaN := Option.isNone
  isFinite := Option.isSome
  eq a b := a.isSome && a == b
  lt
    | some a, some b => decide (a < b)
    | _, _ => false
  neg a := (- ·) <$> a
  add a b := (· + ·) <$> a <*> b
  sub a b := (· - ·) <$> a <*> b
  mul a b := (· * ·) <$> a <*> b
  div a b := if b = some 0 then none else Int.tdiv <$> a <*> b
  rem a b := if b = some 0 then none else Int.tmod <$> a <*> b
  parseFloat s := s.toInt?
  ofString s := if s = "" then some 0 else s.toInt?
  toString a := a.elim "NaN" toString
  math _ _ := none

/-! ## Values -/

/-- A JavaScript value. `func` is a built-in function reached through a prototype: data never holds
one, a member access may. -/
inductive JsVal (N : Type) where
  | undefined
  | null
  | bool (b : Bool)
  | num (n : N)
  | str (s : String)
  | arr (xs : List (JsVal N))
  | obj (kvs : List (String × JsVal N))
  | func (name : String)

namespace JsVal

variable {N : Type}

/-- `v === null || v === undefined`. -/
def isNullish : JsVal N → Bool
  | undefined | null => true
  | _ => false

/-- `a ?? b`. -/
def orElse (a b : JsVal N) : JsVal N :=
  if a.isNullish then b else a

mutual
/-- `String(v)`. An array joins its elements with a comma, the nullish ones as empty strings. -/
def toStr [JsNumber N] : JsVal N → String
  | undefined => "undefined"
  | null => "null"
  | bool b => if b then "true" else "false"
  | num n => JsNumber.toString n
  | str s => s
  | arr xs => ",".intercalate (toStrElems xs)
  | obj _ => "[object Object]"
  | func name => "function " ++ name ++ "() \x7b [native code] \x7d"

/-- The strings `Array.prototype.join` puts between its separators. -/
def toStrElems [JsNumber N] : List (JsVal N) → List String
  | [] => []
  | x :: xs => (if x.isNullish then "" else toStr x) :: toStrElems xs
end

/-- `Number(v)`. -/
def toNum [JsNumber N] : JsVal N → N
  | undefined => JsNumber.nan
  | null => JsNumber.ofInt 0
  | bool b => JsNumber.ofInt (if b then 1 else 0)
  | num n => n
  | str s => JsNumber.ofString s
  | arr xs => JsNumber.ofString (toStr (arr xs))
  | obj _ => JsNumber.nan
  | func _ => JsNumber.nan

/-- `Boolean(v)`. -/
def truthy [JsNumber N] : JsVal N → Bool
  | undefined | null => false
  | bool b => b
  | num n => !(JsNumber.isNaN n || JsNumber.eq n (JsNumber.ofInt 0))
  | str s => s != ""
  | arr _ | obj _ | func _ => true

/-- `typeof v === 'object'`. -/
def isObject : JsVal N → Bool
  | null | arr _ | obj _ => true
  | _ => false

/-- The members every object inherits from `Object.prototype`. -/
def objectMembers : List String :=
  ["constructor", "hasOwnProperty", "isPrototypeOf", "propertyIsEnumerable", "toLocaleString",
   "toString", "valueOf", "__defineGetter__", "__defineSetter__", "__lookupGetter__",
   "__lookupSetter__"]

/-- The methods an array inherits from `Array.prototype`. -/
def arrayMembers : List String :=
  ["at", "concat", "copyWithin", "entries", "every", "fill", "filter", "find", "findIndex",
   "findLast", "findLastIndex", "flat", "flatMap", "forEach", "includes", "indexOf", "join", "keys",
   "lastIndexOf", "map", "pop", "push", "reduce", "reduceRight", "reverse", "shift", "slice",
   "some", "sort", "splice", "toReversed", "toSorted", "toSpliced", "unshift", "values", "with"]

/-- The value of an own property of a data object. -/
def ownMember (kvs : List (String × JsVal N)) (member : String) : Option (JsVal N) :=
  (kvs.find? (·.1 == member)).map (·.2)

/-- `base[member]` for a member spelled as an identifier: own properties first, then the prototype
chain. -/
def getMember [JsNumber N] : JsVal N → String → JsVal N
  | obj kvs, member =>
    match ownMember kvs member with
    | some v => v
    | none =>
      if objectMembers.contains member then func member
      else if member == "__proto__" then obj [] else undefined
  | arr xs, member =>
    if member == "length" then num (JsNumber.ofInt xs.length)
    else if arrayMembers.contains member || objectMembers.contains member then func member
    else if member == "__proto__" then arr [] else undefined
  | _, _ => undefined

end JsVal

/-- The names that every object inherits. -/
def inheritedNames : List String :=
  ["constructor", "toString", "toLocaleString", "valueOf", "hasOwnProperty", "isPrototypeOf",
    "propertyIsEnumerable", "__proto__", "__defineGetter__", "__defineSetter__",
    "__lookupGetter__", "__lookupSetter__"]

/-! ## JSON -/

/-- Four hexadecimal digits of a code unit. -/
def hex4 (n : Nat) : String :=
  String.ofList ([n / 4096 % 16, n / 256 % 16, n / 16 % 16, n % 16].map fun d =>
    Nat.digitChar d)

/-- A character inside a JSON string. -/
def jsonChar (c : Char) : String :=
  if c = '"' then "\\\""
  else if c = '\\' then "\\\\"
  else if c = '\n' then "\\n"
  else if c = '\r' then "\\r"
  else if c = '\t' then "\\t"
  else if c.toNat = 8 then "\\b"
  else if c.toNat = 12 then "\\f"
  else if c.toNat < 32 then "\\u" ++ hex4 c.toNat
  else String.singleton c

/-- A JSON string. -/
def jsonString (s : String) : String :=
  "\"" ++ String.join (s.toList.map jsonChar) ++ "\""

mutual
/-- `JSON.stringify(v)`, with `none` for a value it leaves out. -/
def JsVal.toJson {N : Type} [JsNumber N] : JsVal N → Option String
  | .undefined | .func _ => none
  | .null => some "null"
  | .bool b => some (if b then "true" else "false")
  | .num n => some (if JsNumber.isFinite n then JsNumber.toString n else "null")
  | .str s => some (jsonString s)
  | .arr xs => some ("[" ++ ",".intercalate (toJsonElems xs) ++ "]")
  | .obj kvs => some ("\x7b" ++ ",".intercalate (toJsonMembers kvs) ++ "\x7d")

/-- The elements of a JSON array: a value that is left out is written as `null`. -/
def toJsonElems {N : Type} [JsNumber N] : List (JsVal N) → List String
  | [] => []
  | x :: xs => (x.toJson).getD "null" :: toJsonElems xs

/-- The members of a JSON object. -/
def toJsonMembers {N : Type} [JsNumber N] : List (String × JsVal N) → List String
  | [] => []
  | (k, v) :: kvs =>
    match v.toJson with
    | none => toJsonMembers kvs
    | some t => (jsonString k ++ ":" ++ t) :: toJsonMembers kvs
end

/-! ## Strings -/

/-- The UTF-16 code units of a character. -/
def charUnits (c : Char) : List Nat :=
  if c.toNat < 0x10000 then [c.toNat]
  else [0xD800 + (c.toNat - 0x10000) / 0x400, 0xDC00 + (c.toNat - 0x10000) % 0x400]

/-- The UTF-16 code units of a string. -/
def utf16 (s : String) : List Nat := s.toList.flatMap charUnits

/-- `s.length`. -/
def jsLength (s : String) : Nat := (utf16 s).length

/-- `a < b` on strings: lexicographic in the code units. -/
def strLt (a b : String) : Bool := decide (utf16 a < utf16 b)

end HeadlessErp
