import HeadlessErp.Base.Base64
import HeadlessErp.Js.Json
import HeadlessErp.Query.Parsed
import Mathlib.Tactic.IntervalCases

/-!
# The cursors of lists

`encodeKeysetCursor` and `decodeKeysetCursor` of
`apps/api/src/lib/services/collection-query.service.ts`: the values of the sort fields and the id of
a row, as JSON under base64. `btoa` takes the characters up to U+00FF only, and JSON has no text for
a number that is not finite. A cursor gives back the values and the id where these do not occur, and
only there (`decode_encode_iff`).
-/

namespace HeadlessErp.Cursor

variable {N : Type} [JsNumber N]

/-! ## The code -/

/-- `btoa`, which throws on a character beyond U+00FF. -/
def btoa (s : String) : Option String :=
  if s.toList.all (·.toNat < 256) then
    some (String.ofList (Base64.encode (s.toList.map fun c => UInt8.ofNat c.toNat)))
  else none

/-- `atob`, which throws on a text that is not base64. -/
def atob (s : String) : Option String :=
  (Base64.decodeForgiving s.toList).map fun bytes =>
    String.ofList (bytes.map fun b => Char.ofNat b.toNat)

/-- The values of the sort fields of an item. -/
def sortValues (item : Record N) (sorts : List SortClause) : List (JsVal N) :=
  sorts.map fun s => (item.get s.field).orElse .null

/-- `String(item.id ?? '')`. -/
def itemId (item : Record N) : String := ((item.get "id").orElse (.str "")).toStr

/-- `encodeKeysetCursor`, with `none` where it throws. -/
def encodeKeysetCursor (item : Record N) (sorts : List SortClause) : Option String :=
  let payload : JsVal N := .obj [("v", .arr (sortValues item sorts)), ("id", .str (itemId item))]
  (payload.toJson.bind btoa).map fun s => String.ofList (s.toList.rdropWhile (· == '='))

/-- `decodeKeysetCursor`: the values and the id. -/
def decodeKeysetCursor (cursor : String) : Option (List (JsVal N) × String) :=
  match (atob cursor).bind Json.parse with
  | some parsed =>
    match parsed.getMember "v", parsed.getMember "id" with
    | .arr values, .str id => some (values, id)
    | _, _ => none
  | none => none

/-! ## Sort values -/

/-- A value that the database gives of a sort column. A finite number has a text that reads back. -/
inductive IsSortValue : JsVal N → Prop where
  | null : IsSortValue .null
  | num {n : N} : (JsNumber.isFinite n = true → ReadsBack n) → IsSortValue (.num n)
  | str (s : String) : IsSortValue (.str s)

/-- What JSON keeps of a sort value. -/
def jsonForm : JsVal N → JsVal N
  | .num n => if JsNumber.isFinite n then .num n else .null
  | v => v

/-- A text that `btoa` takes. -/
def IsLatin1 (s : String) : Prop := ∀ c ∈ s.toList, c.toNat < 256

/-- A value that a cursor keeps: a text of characters up to U+00FF, or a finite number. -/
def Carries : JsVal N → Prop
  | .str s => IsLatin1 s
  | .num n => JsNumber.isFinite n = true
  | _ => True

section
variable {v : JsVal N} {s : String}

theorem IsSortValue.isJson_jsonForm (h : IsSortValue v) : IsJson (jsonForm v) := by
  cases h with
  | null => exact .null
  | @num n hread =>
    rw [jsonForm]
    split
    · next hfinite => exact .num (hread hfinite)
    · exact .null
  | str s => exact .str s

theorem IsSortValue.toJson_jsonForm (h : IsSortValue v) : (jsonForm v).toJson = v.toJson := by
  cases h with
  | null => rfl
  | @num n hread =>
    rw [jsonForm]
    split
    · rfl
    · next hfinite => rw [JsVal.toJson, JsVal.toJson, if_neg hfinite]
  | str s => rfl

/-! ## Characters -/

theorem btoa_eq_some_iff : (∃ t, btoa s = some t) ↔ IsLatin1 s := by
  unfold btoa IsLatin1
  by_cases h : s.toList.all (·.toNat < 256) = true
  · rw [if_pos h]
    exact ⟨fun _ => by simpa using h, fun _ => ⟨_, rfl⟩⟩
  · rw [if_neg h]
    refine ⟨fun ⟨t, ht⟩ => (by cases ht), fun hall => absurd ?_ h⟩
    simpa using hall

/-- What `btoa` makes of a text, without its padding, gives the text back. -/
theorem atob_btoa {t : String} (h : btoa s = some t) :
    atob (String.ofList (t.toList.rdropWhile (· == '='))) = some s := by
  have hlatin : IsLatin1 s := btoa_eq_some_iff.1 ⟨t, h⟩
  rw [btoa, if_pos (by simpa [IsLatin1] using hlatin)] at h
  obtain rfl := Option.some.inj h
  rw [atob, String.toList_ofList, String.toList_ofList, Base64.decodeForgiving_rdropWhile,
    Option.map_some, List.map_map]
  have hchars : s.toList.map ((fun b : UInt8 => Char.ofNat b.toNat) ∘
      fun c : Char => UInt8.ofNat c.toNat) = s.toList := by
    conv_rhs => rw [← List.map_id s.toList]
    refine List.map_congr_left fun c hc => ?_
    have hmod : c.toNat % 256 = c.toNat := Nat.mod_eq_of_lt (hlatin c hc)
    simp [hmod]
  rw [hchars, String.ofList_toList]

omit [JsNumber N] in
theorem isLatin1_append {t : String} : IsLatin1 (s ++ t) ↔ IsLatin1 s ∧ IsLatin1 t := by
  simp only [IsLatin1, String.toList_append, List.mem_append]
  exact ⟨fun h => ⟨fun c hc => h c (.inl hc), fun c hc => h c (.inr hc)⟩,
    fun h c hc => hc.elim (h.1 c) (h.2 c)⟩

/-- Texts joined by commas. -/
theorem isLatin1_intercalate (texts : List String) :
    IsLatin1 (",".intercalate texts) ↔ ∀ t ∈ texts, IsLatin1 t := by
  have hcomma : ",".toList = [','] := rfl
  simp only [IsLatin1, String.toList_intercalate, hcomma]
  induction texts with
  | nil => simp
  | cons t texts ih =>
    cases texts with
    | nil => simp
    | cons u texts =>
      have hsep : (',' : Char).toNat < 256 := by decide
      rw [List.map_cons, List.map_cons, List.intercalate_cons_cons, ← List.map_cons,
        List.forall_mem_cons]
      simp only [List.mem_append, List.mem_singleton]
      refine ⟨fun h => ⟨fun c hc => h c (.inl (.inl hc)), ih.1 fun c hc => h c (.inr hc)⟩,
        fun h c hc => ?_⟩
      rcases hc with (hc | rfl) | hc
      · exact h.1 c hc
      · exact hsep
      · exact ih.2 h.2 c hc

theorem digitChar_lt (d : Nat) (h : d < 16) : d.digitChar.toNat < 256 := by
  interval_cases d <;> decide

theorem hex4_lt (n : Nat) : ∀ d ∈ (hex4 n).toList, d.toNat < 256 := by
  intro d hd
  rw [hex4, String.toList_ofList] at hd
  obtain ⟨k, hk, rfl⟩ := List.mem_map.1 hd
  have hlt : k < 16 := by
    simp only [List.mem_cons, List.not_mem_nil, or_false] at hk
    omega
  exact digitChar_lt k hlt

/-- Escaping a character leaves it up to U+00FF, or beyond. -/
theorem jsonChar_lt (c : Char) : (∀ d ∈ (jsonChar c).toList, d.toNat < 256) ↔ c.toNat < 256 := by
  unfold jsonChar
  split
  · next h => simp [h]
  · split
    · next h => simp [h]
    · split
      · next h => simp [h]
      · split
        · next h => simp [h]
        · split
          · next h => simp [h]
          · split
            · next h => simp [h]
            · split
              · next h => simp [h]
              · split
                · next h =>
                  refine ⟨fun _ => by omega, fun _ d hd => ?_⟩
                  rw [String.toList_append] at hd
                  rcases List.mem_append.1 hd with hd | hd
                  · have hmark : d = '\\' ∨ d = 'u' := by simpa using hd
                    rcases hmark with rfl | rfl
                    · decide
                    · decide
                  · exact hex4_lt _ d hd
                · simp

theorem isLatin1_jsonString (s : String) : IsLatin1 (jsonString s) ↔ IsLatin1 s := by
  have hquote : ('"' : Char).toNat < 256 := by decide
  simp only [IsLatin1, Json.toList_jsonString]
  constructor
  · intro h c hc
    refine (jsonChar_lt c).1 fun d hd => h d ?_
    refine List.mem_cons_of_mem _ (List.mem_append_left _ ?_)
    exact List.mem_flatMap.2 ⟨c, hc, hd⟩
  · intro h d hd
    rcases List.mem_cons.1 hd with rfl | hd
    · exact hquote
    rcases List.mem_append.1 hd with hd | hd
    · obtain ⟨c, hc, hd⟩ := List.mem_flatMap.1 hd
      exact (jsonChar_lt c).2 (h c hc) d hd
    · rw [List.mem_singleton.1 hd]
      exact hquote

/-- The text of a sort value has no character beyond U+00FF unless the value has. -/
theorem IsSortValue.isLatin1 (h : IsSortValue v) :
    IsLatin1 ((v.toJson).getD "null") ↔ ∀ s, v = .str s → IsLatin1 s := by
  have hnull : IsLatin1 "null" := by
    simp [IsLatin1]
  cases h with
  | null => exact ⟨fun _ s hs => (by cases hs), fun _ => hnull⟩
  | @num n hread =>
    refine ⟨fun _ s hs => (by cases hs), fun _ => ?_⟩
    rw [JsVal.toJson]
    split
    · next hfinite =>
      intro c hc
      have hchar := List.all_eq_true.1 (hread hfinite).2.2.1 c hc
      rw [Json.isNumberChar, Bool.or_eq_true] at hchar
      rcases hchar with hdigit | hother
      · simp only [Char.isDigit, Bool.and_eq_true, decide_eq_true_eq] at hdigit
        have hle : c.toNat ≤ '9'.toNat := hdigit.2
        have hnine : '9'.toNat = 57 := rfl
        omega
      · have hmem : c ∈ ['-', '+', '.', 'e', 'E'] := by simpa using hother
        have hall : (['-', '+', '.', 'e', 'E'].all (·.toNat < 256)) = true := by decide
        simpa using List.all_eq_true.1 hall c hmem
    · exact hnull
  | str s =>
    rw [JsVal.toJson, Option.getD_some, isLatin1_jsonString]
    exact ⟨fun h t ht => (by cases ht; exact h), fun h => h s rfl⟩

end

/-! ## Round trips -/

section
variable {item : Record N} {sorts : List SortClause}

/-- The object of a cursor with the values as JSON keeps them. -/
def keptPayload (values : List (JsVal N)) (id : String) : JsVal N :=
  .obj [("v", .arr (values.map jsonForm)), ("id", .str id)]

theorem toJsonElems_jsonForm {values : List (JsVal N)} (h : ∀ v ∈ values, IsSortValue v) :
    toJsonElems (values.map jsonForm) = toJsonElems values := by
  rw [Json.toJsonElems_eq, Json.toJsonElems_eq, List.map_map]
  refine List.map_congr_left fun v hv => ?_
  show (jsonForm v).toJson.getD "null" = v.toJson.getD "null"
  rw [(h v hv).toJson_jsonForm]

/-- The text of a cursor reads as the values that JSON keeps. -/
theorem exists_text (h : ∀ v ∈ sortValues item sorts, IsSortValue v) : ∃ text,
    encodeKeysetCursor item sorts =
        (btoa text).map (fun s => String.ofList (s.toList.rdropWhile (· == '='))) ∧
      Json.parse text = some (keptPayload (sortValues item sorts) (itemId item)) ∧
      (IsLatin1 text ↔ (∀ v ∈ sortValues item sorts, ∀ s, v = .str s → IsLatin1 s) ∧
        IsLatin1 (itemId item)) := by
  have hjson : IsJson (keptPayload (sortValues item sorts) (itemId item)) := by
    refine .obj (by simp) fun kv hkv => ?_
    rcases List.mem_cons.1 hkv with rfl | hkv
    · refine .arr fun v hv => ?_
      obtain ⟨w, hw, rfl⟩ := List.mem_map.1 hv
      exact (h w hw).isJson_jsonForm
    · rw [List.mem_singleton.1 hkv]
      exact .str _
  obtain ⟨text, htext, hparse⟩ := Json.parse_toJson hjson
  have hv : jsonString "v" ++ ":" = "\"v\":" := by decide
  have hid : jsonString "id" ++ ":" = "\"id\":" := by decide
  have hsame : (JsVal.obj [("v", .arr (sortValues item sorts)),
      ("id", .str (itemId item))]).toJson = some text := by
    rw [← htext, keptPayload]
    simp only [JsVal.toJson, toJsonMembers, toJsonElems_jsonForm h]
  have hshape : text = "\x7b\"v\":[" ++ ",".intercalate (toJsonElems (sortValues item sorts)) ++
      "],\"id\":" ++ jsonString (itemId item) ++ "\x7d" := by
    rw [keptPayload] at htext
    simp only [JsVal.toJson, toJsonMembers, toJsonElems_jsonForm h, Option.some.injEq] at htext
    apply String.toList_inj.1
    rw [← htext, hv, hid]
    simp [String.toList_intercalate]
  refine ⟨text, by rw [encodeKeysetCursor, hsame]; rfl, hparse, ?_⟩
  rw [hshape]
  simp only [isLatin1_append, isLatin1_intercalate, isLatin1_jsonString, Json.toJsonElems_eq,
    List.forall_mem_map]
  have hfirst : IsLatin1 "\x7b\"v\":[" := by simp [IsLatin1]
  have hsecond : IsLatin1 "],\"id\":" := by simp [IsLatin1]
  have hlast : IsLatin1 "\x7d" := by simp [IsLatin1]
  have hvalues : (∀ v ∈ sortValues item sorts, IsLatin1 ((v.toJson).getD "null")) ↔
      ∀ v ∈ sortValues item sorts, ∀ s, v = .str s → IsLatin1 s :=
    forall₂_congr fun v hv => (h v hv).isLatin1
  rw [hvalues]
  exact ⟨fun hall => ⟨hall.1.1.1.2, hall.1.2⟩,
    fun hall => ⟨⟨⟨⟨hfirst, hall.1⟩, hsecond⟩, hall.2⟩, hlast⟩⟩

/-- `btoa` throws where a text has a character beyond U+00FF. -/
theorem encode_eq_none (h : ∀ v ∈ sortValues item sorts, IsSortValue v) {s : String}
    (hs : .str s ∈ sortValues item sorts) (hlatin : ¬IsLatin1 s) :
    encodeKeysetCursor item sorts = none := by
  obtain ⟨text, hencode, -, htext⟩ := exists_text h
  cases hbtoa : btoa text with
  | none => rw [hencode, hbtoa, Option.map_none]
  | some t => exact absurd ((htext.1 (btoa_eq_some_iff.1 ⟨t, hbtoa⟩)).1 _ hs s rfl) hlatin

/-- A cursor gives back its values and its id exactly if no text among them has a character beyond
U+00FF and no number among them is infinite. -/
theorem decode_encode_iff (h : ∀ v ∈ sortValues item sorts, IsSortValue v) :
    (encodeKeysetCursor item sorts).bind decodeKeysetCursor =
        some (sortValues item sorts, itemId item) ↔
      (∀ v ∈ sortValues item sorts, Carries v) ∧ IsLatin1 (itemId item) := by
  obtain ⟨text, hencode, hparse, hlatin⟩ := exists_text h
  rw [hencode]
  cases hbtoa : btoa text with
  | none =>
    have hnot : ¬IsLatin1 text := fun hl => by
      obtain ⟨t, ht⟩ := btoa_eq_some_iff.2 hl
      rw [hbtoa] at ht
      cases ht
    refine ⟨fun hnone => (by cases hnone), fun ⟨hcarries, hid⟩ => absurd (hlatin.2 ⟨?_, hid⟩) hnot⟩
    rintro v hv s rfl
    exact hcarries _ hv
  | some t =>
    have hdecode : decodeKeysetCursor (String.ofList (t.toList.rdropWhile (· == '='))) =
        some ((sortValues item sorts).map jsonForm, itemId item) := by
      rw [decodeKeysetCursor, atob_btoa hbtoa, Option.bind_some, hparse]
      rfl
    rw [Option.map_some, Option.bind_some, hdecode]
    obtain ⟨hstr, hid⟩ := hlatin.1 (btoa_eq_some_iff.1 ⟨t, hbtoa⟩)
    have hfixed : (sortValues item sorts).map jsonForm = sortValues item sorts ↔
        ∀ v ∈ sortValues item sorts, jsonForm v = v := by
      conv_lhs => rhs; rw [← List.map_id (sortValues item sorts)]
      exact List.map_inj_left
    rw [Option.some.injEq, Prod.mk.injEq, hfixed]
    simp only [hid, and_true]
    refine forall₂_congr fun v hv => ?_
    cases h v hv with
    | null => exact ⟨fun _ => trivial, fun _ => rfl⟩
    | str s => exact ⟨fun _ => hstr _ hv s rfl, fun _ => rfl⟩
    | @num n hread =>
      rw [jsonForm, Carries]
      by_cases hfinite : JsNumber.isFinite n = true
      · simp [hfinite]
      · simp [hfinite]

/-- The page boundary of a list by name. -/
def city (name : String) : Record (Option Int) := [("id", .str "c1"), ("name", .str name)]

theorem sortValues_city {name : String} {v : JsVal (Option Int)}
    (hv : v ∈ sortValues (city name) [⟨"name", false⟩]) : IsSortValue v := by
  obtain rfl : v = .str name := List.mem_singleton.1 hv
  exact .str name

/-- A name of Latin-1 characters, with a quote and a separator in it. -/
theorem decode_encode_iff_city :
    (encodeKeysetCursor (city "Sa\"o, |é") [⟨"name", false⟩]).bind decodeKeysetCursor =
      some ([(.str "Sa\"o, |é" : JsVal (Option Int))], "c1") := by
  have hiff : (encodeKeysetCursor (city "Sa\"o, |é") [⟨"name", false⟩]).bind decodeKeysetCursor =
      some (sortValues (city "Sa\"o, |é") [⟨"name", false⟩], itemId (city "Sa\"o, |é")) ↔ _ :=
    decode_encode_iff fun v => sortValues_city
  refine hiff.2 ⟨fun v hv => ?_, ?_⟩
  · obtain rfl : v = .str "Sa\"o, |é" := List.mem_singleton.1 hv
    simp [Carries, IsLatin1]
  · show IsLatin1 "c1"
    simp [IsLatin1]

/-- A name with a character beyond U+00FF has no cursor. -/
theorem not_decode_encode_city : ¬∀ (item : Record (Option Int)) (sorts : List SortClause),
    (∀ v ∈ sortValues item sorts, IsSortValue v) →
      (encodeKeysetCursor item sorts).bind decodeKeysetCursor =
        some (sortValues item sorts, itemId item) := by
  intro h
  have hnone : encodeKeysetCursor (city "Łódź") [⟨"name", false⟩] = none :=
    encode_eq_none (s := "Łódź") (fun v => sortValues_city) List.mem_cons_self
      (by simp [IsLatin1])
  have hround := h (city "Łódź") [⟨"name", false⟩] fun v => sortValues_city
  rw [hnone] at hround
  cases hround

end

end HeadlessErp.Cursor
