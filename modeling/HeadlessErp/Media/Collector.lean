import Mathlib.Logic.Function.Basic
import HeadlessErp.Base.Transition
import HeadlessErp.Media.Keys

/-!
# Media and the rows that refer to it

The writers of rows (`apps/api/src/lib/services/collection-mutation.service.ts`), the registry of
references (`media-ref.service.ts`) and the two ways in which media are deleted
(`media.service.ts`), each a call whose statements are interleaved with those of the others. A write
is registered in two steps after the row is stored, from the row the call has in memory. `dropped`
keeps each key whose row of `_media` is deleted, with the entity tables of that time.
-/

namespace HeadlessErp.Media

/-! ## Rows -/

/-- A collection and the id of a document. -/
abbrev MediaDoc : Type := String × String

/-- A row of an entity table: its columns, and the texts of those that are encrypted. -/
structure MediaRow (N : Type) where
  columns : JsVal N
  secrets : List String := []

section
variable {N : Type}

mutual

/-- The texts in a value. -/
def texts : JsVal N → List String
  | .str s => [s]
  | .arr xs => textsElems xs
  | .obj kvs => textsMembers kvs
  | _ => []

/-- The texts in the elements of an array. -/
def textsElems : List (JsVal N) → List String
  | [] => []
  | x :: xs => texts x ++ textsElems xs

/-- The texts in the members of an object. -/
def textsMembers : List (String × JsVal N) → List String
  | [] => []
  | (_, v) :: kvs => texts v ++ textsMembers kvs

end

/-- The URL stands in a text of the row. -/
def MediaRow.Mentions (row : MediaRow N) (url : String) : Prop :=
  ∃ t ∈ texts row.columns ++ row.secrets, url.toList <:+: t.toList

/-! ## Calls -/

/-- Where a call stands. -/
inductive MediaPhase (N : Type) where
  | idle
  /-- a write has stored its row, and is to register the keys of the value -/
  | stored (doc : MediaDoc) (item : JsVal N)
  /-- `syncDoc` has read the keys that are registered -/
  | syncing (doc : MediaDoc) (item : JsVal N) (prior : List String)
  /-- `deleteIfUnused` has found no reference -/
  | checked (key : String)
  | found (key : String)
  | unlinking (key : String)
  /-- `gcUnused` has these keys before it -/
  | collecting (keys : List String)
  | rechecked (key : String) (keys : List String)
  | collected (key : String) (keys : List String)
  | done

/-- A write that is not registered yet: the document, and the value it is registered from. -/
def MediaPhase.writing : MediaPhase N → Option (MediaDoc × JsVal N)
  | .stored doc item | .syncing doc item _ => some (doc, item)
  | _ => none

/-- A step. `store` is the row of a create or an update with the value the call keeps of it, `edit`
every other statement that changes a row: of child tables, of stored formulas, of a soft delete, a
restore or a cascade. -/
inductive MediaStep (ι N : Type) where
  | upload (uuid filename : String)
  | edit (doc : MediaDoc) (row : Option (MediaRow N))
  | store (i : ι) (doc : MediaDoc) (row : MediaRow N) (item : JsVal N) (hasMediaFields : Bool)
  | hardDelete (i : ι) (doc : MediaDoc) (existing : JsVal N)
  | readRefs (i : ι)
  | sync (i : ι) (succeeds : Bool)
  | deleteIfUnused (i : ι) (key : String)
  | find (i : ι)
  | gcUnused (i : ι)
  | recheck (i : ι)
  | drop (i : ι)
  | unlink (i : ι) (succeeds : Bool)

/-- The tables, the bucket, and where the calls stand. -/
structure MediaState (ι N : Type) where
  media : List String := []
  objects : List String := []
  rows : MediaDoc → Option (MediaRow N) := fun _ => none
  refs : List (String × MediaDoc) := []
  dropped : List (String × (MediaDoc → Option (MediaRow N))) := []
  phase : ι → MediaPhase N := fun _ => .idle

section
variable {ι : Type} [DecidableEq ι]

/-- The call stands elsewhere. -/
def MediaState.goto (s : MediaState ι N) (i : ι) (p : MediaPhase N) : MediaState ι N :=
  { s with phase := Function.update s.phase i p }

omit [DecidableEq ι] in
/-- `refsOf`. -/
def MediaState.refsOf (s : MediaState ι N) (doc : MediaDoc) : List String :=
  (s.refs.filter (·.2 = doc)).map Prod.fst

omit [DecidableEq ι] in
/-- `isReferenced`. -/
def MediaState.isReferenced (s : MediaState ι N) (key : String) : Bool :=
  s.refs.any (·.1 = key)

omit [DecidableEq ι] in
/-- The row of a document, replaced. -/
def MediaState.setRow (s : MediaState ι N) (doc : MediaDoc) (row : Option (MediaRow N)) :
    MediaState ι N :=
  { s with rows := Function.update s.rows doc row }

omit [DecidableEq ι] in
/-- `upload`. -/
def MediaState.upload (s : MediaState ι N) (key : String) : MediaState ι N :=
  { s with media := s.media ++ [key], objects := s.objects ++ [key] }

/-- What a write does once its row is stored. -/
def MediaState.stored (s : MediaState ι N) (i : ι) (doc : MediaDoc) (item : JsVal N)
    (registers : Bool) : MediaState ι N :=
  s.goto i (if registers then .stored doc item else .done)

/-- The statements of `syncDoc`, in one batch: the unique index refuses a key that is still
registered, and a failure is swallowed. -/
def MediaState.sync (s : MediaState ι N) (i : ι) (doc : MediaDoc) (item : JsVal N)
    (prior : List String) (succeeds : Bool) : MediaState ι N :=
  let kept := s.refs.filter fun r => !(r.2 = doc && prior.contains r.1)
  let next := (extractMediaKeys item).elems.map fun key => (key, doc)
  if succeeds && next.all (!kept.contains ·) then { s.goto i .done with refs := kept ++ next }
  else s.goto i .done

/-- The keys without a reference. -/
def MediaState.unused (s : MediaState ι N) : List String :=
  s.media.filter fun key => !s.isReferenced key

/-- `DELETE FROM _media WHERE key = ?`. -/
def MediaState.drop (s : MediaState ι N) (key : String) : MediaState ι N :=
  { s with
    media := s.media.filter (· ≠ key)
    dropped := s.dropped ++ if s.media.contains key then [(key, s.rows)] else [] }

/-- The object is removed from the bucket, or stays there when R2 fails. -/
def MediaState.unlink (s : MediaState ι N) (key : String) (succeeds : Bool) : MediaState ι N :=
  if succeeds then { s with objects := s.objects.filter (· ≠ key) } else s

/-- The key that a call is about to drop, and where it goes on. -/
def MediaPhase.dropping : MediaPhase N → Option (String × MediaPhase N)
  | .found key => some (key, .unlinking key)
  | .rechecked key keys => some (key, .collected key keys)
  | _ => none

/-- A step, where the call has come to it. -/
def MediaState.step (s : MediaState ι N) : MediaStep ι N → Option (MediaState ι N)
  | .upload uuid filename => some (s.upload (mediaKey uuid filename))
  | .edit doc row => some (s.setRow doc row)
  | .store i doc row item hasMediaFields =>
    match s.phase i with
    | .idle => some ((s.setRow doc (some row)).stored i doc item
        (hasMediaFields || 0 < (extractMediaKeys item).size))
    | _ => none
  | .hardDelete i doc existing =>
    match s.phase i with
    | .idle => some ((s.setRow doc none).stored i doc (.obj [])
        (0 < (extractMediaKeys existing).size))
    | _ => none
  | .readRefs i =>
    match s.phase i with
    | .stored doc item => some (s.goto i (.syncing doc item (s.refsOf doc)))
    | _ => none
  | .sync i succeeds =>
    match s.phase i with
    | .syncing doc item prior => some (s.sync i doc item prior succeeds)
    | _ => none
  | .deleteIfUnused i key =>
    match s.phase i with
    | .idle => some (s.goto i (if key = "" || s.isReferenced key then .done else .checked key))
    | _ => none
  | .find i =>
    match s.phase i with
    | .checked key => some (s.goto i (if s.media.contains key then .found key else .done))
    | _ => none
  | .gcUnused i =>
    match s.phase i with
    | .idle => some (s.goto i (.collecting s.unused))
    | _ => none
  | .recheck i =>
    match s.phase i with
    | .collecting [] => some (s.goto i .done)
    | .collecting (key :: keys) =>
      some (s.goto i (if s.isReferenced key then .collecting keys else .rechecked key keys))
    | _ => none
  | .drop i => (s.phase i).dropping.map fun (key, next) => (s.drop key).goto i next
  | .unlink i succeeds =>
    match s.phase i with
    | .unlinking key => some ((s.unlink key succeeds).goto i .done)
    | .collected key keys => some ((s.unlink key succeeds).goto i (.collecting keys))
    | _ => none

end

/-- The media of a deployment, from its first day. -/
def mediaSystem (ι N : Type) [DecidableEq ι] : System (MediaState ι N) (MediaStep ι N) where
  init s := s = {}
  step := MediaState.step

end

end HeadlessErp.Media
