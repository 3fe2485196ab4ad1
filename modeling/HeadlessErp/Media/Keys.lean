import Mathlib.Data.List.TakeWhile
import HeadlessErp.Entity.Row
import HeadlessErp.Js.Map

/-!
# Media keys

The key of an uploaded file (`R2Client.upload` of `packages/core/src/storage/r2-client.ts`) and the
keys that `extractMediaKeys` of `apps/api/src/lib/services/media-ref.service.ts` finds in a value.
The extension of a file name may have any characters, and the pattern of a reference takes word
characters, dots and dashes only.
-/

namespace HeadlessErp.Media

/-! ## Uploads -/

/-- `_extractExt`. -/
def extractExt (filename : String) : String :=
  let ext := filename.toList.reverse.takeWhile (· ≠ '.')
  if filename.toList.length ≤ ext.length + 1 then ""
  else toLowerCase (String.ofList ('.' :: ext.reverse))

/-- The key of an upload. -/
def mediaKey (uuid filename : String) : String := uuid ++ extractExt filename

/-- The URL that an upload returns. -/
def mediaUrl (key : String) : String := "/api/media/" ++ key

/-! ## References -/

/-- The regular expression `[\w.-]`. -/
def isKeyChar (c : Char) : Bool :=
  ('a' ≤ c && c ≤ 'z') || ('A' ≤ c && c ≤ 'Z') || ('0' ≤ c && c ≤ '9') || c = '_' || c = '.' ||
    c = '-'

/-- The match of `\/api\/media\/([\w.-]+)` at the start of a text: the key. -/
def keyAt (cs : List Char) : Option (List Char) :=
  if "/api/media/".toList.isPrefixOf cs then
    let key := (cs.drop 11).takeWhile isKeyChar
    if key = [] then none else some key
  else none

/-- The keys of the matches in a text, of which the first characters belong to the last match. -/
def scanKeys : Nat → List Char → List String
  | _, [] => []
  | skip + 1, _ :: cs => scanKeys skip cs
  | 0, c :: cs =>
    match keyAt (c :: cs) with
    | some key => String.ofList key :: scanKeys (10 + key.length) cs
    | none => scanKeys 0 cs

section
variable {N : Type}

mutual

/-- `collect`. -/
def collect : JsVal N → List String
  | .str s => scanKeys 0 s.toList
  | .arr xs => collectElems xs
  | .obj kvs => collectMembers kvs
  | _ => []

/-- The keys in the elements of an array. -/
def collectElems : List (JsVal N) → List String
  | [] => []
  | x :: xs => collect x ++ collectElems xs

/-- The keys in the members of an object. -/
def collectMembers : List (String × JsVal N) → List String
  | [] => []
  | (_, v) :: kvs => collect v ++ collectMembers kvs

end

/-- `extractMediaKeys`. -/
def extractMediaKeys (value : JsVal N) : JsSet String := (collect value).foldl JsSet.add .empty

/-- The keys of a list in a set. -/
theorem mem_foldl_add {keys : List String} {s : JsSet String} {k : String} :
    k ∈ keys.foldl JsSet.add s ↔ k ∈ s ∨ k ∈ keys := by
  induction keys generalizing s with
  | nil => simp
  | cons key keys ih =>
    rw [List.foldl_cons, ih, JsSet.mem_add, List.mem_cons]
    tauto

theorem mem_extractMediaKeys {value : JsVal N} {k : String} :
    k ∈ extractMediaKeys value ↔ k ∈ collect value := by
  rw [extractMediaKeys, mem_foldl_add]
  simp

end

end HeadlessErp.Media
