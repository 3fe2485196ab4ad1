import HeadlessErp.Base.Base64
import HeadlessErp.Storage.Codec
import Mathlib.Data.String.Basic

/-!
# Encrypted fields

`FieldEncryption` of `apps/api/src/lib/services/field-encryption.service.ts`, `encryptColumns` of the
writes and `decryptItems` of the reads, with a valid key. Only texts are encrypted, a read decodes a
column before it decrypts it, and a decrypted text with the version marker counts as unreadable. A
field is protected (`Protected`) just for the values that these steps leave alone
(`protected_iff_encryptable`).
-/

namespace HeadlessErp

/-! ## The service -/

/-- AES-GCM under the configured key, on UTF-8 texts: with a nonce, to the bytes of the text and a tag
of 16 bytes, and back. What is sealed is opened. -/
structure Cipher where
  sealText : List UInt8 → String → List UInt8
  openText : List UInt8 → List UInt8 → Option String
  openText_sealText : ∀ iv s, openText iv (sealText iv s) = some s
  length_sealText : ∀ iv s, (sealText iv s).length = s.utf8ByteSize + 16

/-- `btoa`, on bytes. -/
def btoa (bytes : List UInt8) : String := String.ofList (Base64.encode bytes)

/-- `atob`, on padded texts. -/
def atob (s : String) : Option (List UInt8) := Base64.decode s.toList

namespace FieldEncryption
variable (K : Cipher)

/-- `isEncrypted`: the text begins with the version marker. -/
def isEncrypted (s : String) : Bool := "v1:".toList.isPrefixOf s.toList

/-- `encrypt`. -/
def encrypt (iv : List UInt8) (plaintext : String) : String :=
  if plaintext = "" then plaintext else "v1:" ++ btoa iv ++ ":" ++ btoa (K.sealText iv plaintext)

/-- `decrypt`. A failure leaves the text as it is. -/
def decrypt (ciphertext : String) : String :=
  if isEncrypted ciphertext then
    match ciphertext.toList.splitOn ':' with
    | _ :: iv :: ct :: _ =>
      match atob (String.ofList iv), atob (String.ofList ct) with
      | some iv, some ct => (K.openText iv ct).getD ciphertext
      | _, _ => ciphertext
    | _ => ciphertext
  else ciphertext

variable {N : Type}

/-- `encryptFields`, on a field. The nonces are drawn for the fields. -/
def encryptField (iv : String → List UInt8) (key : String) (v : JsVal N) : JsVal N :=
  match v with
  | .str s => if s ≠ "" then .str (encrypt K (iv key) s) else v
  | v => v

/-- What replaces a text that could not be decrypted. -/
def unreadable : String := "[encrypted:unreadable]"

/-- `decryptFields` and `flagUndecryptable`, on a field. -/
def decryptField (v : JsVal N) : JsVal N :=
  match v with
  | .str s =>
    let plaintext := if isEncrypted s then decrypt K s else s
    .str (if isEncrypted plaintext then unreadable else plaintext)
  | v => v

/-- A platform that encrypts under the key. -/
def withKey (iv : String → List UInt8) (P : Platform N) : Platform N :=
  { P with encrypt := encryptField K iv }

/-- `decryptItems`, on one item. -/
def decryptItem (fields : List (FieldDefinition N)) (row : Record N) : Record N :=
  row.map fun kv =>
    (kv.1, if fields.any (fun f => f.encrypted && f.name == kv.1) then decryptField K kv.2 else kv.2)

end FieldEncryption

open FieldEncryption

/-! ## Envelopes -/

theorem length_le_utf8ByteSize (s : String) : s.toList.length ≤ s.utf8ByteSize := by
  have h : ∀ cs : List Char, cs.length ≤ (String.ofList cs).utf8ByteSize := by
    intro cs
    rw [String.utf8ByteSize_ofList]
    induction cs with
    | nil => exact Nat.le_refl 0
    | cons c cs ih =>
      have hpos := c.utf8Size_pos
      rw [String.utf8Len_cons, List.length_cons]
      omega
  have hs := h s.toList
  rwa [String.ofList_toList] at hs

section
variable {K : Cipher} {iv : List UInt8} {s : String}

theorem encrypt_toList (hs : s ≠ "") : (encrypt K iv s).toList =
    [':'].intercalate ["v1".toList, Base64.encode iv, Base64.encode (K.sealText iv s)] := by
  rw [encrypt, if_neg hs]
  simp [btoa, List.intercalate]

/-- An envelope has the version marker. -/
theorem isEncrypted_encrypt (hs : s ≠ "") : isEncrypted (encrypt K iv s) = true := by
  rw [isEncrypted, encrypt_toList hs]
  simp [List.intercalate]

/-- An envelope is longer than its text. -/
theorem encrypt_ne (hs : s ≠ "") : encrypt K iv s ≠ s := by
  intro h
  have hlength := congrArg (fun s : String => s.toList.length) h
  have h1 := Base64.length_le_encode (K.sealText iv s)
  have h2 := K.length_sealText iv s
  have h3 := length_le_utf8ByteSize s
  simp only [encrypt_toList hs] at hlength
  simp [List.intercalate] at hlength
  omega

theorem colon_not_mem_encode (bytes : List UInt8) : ':' ∉ Base64.encode bytes :=
  fun h => absurd (Base64.mem_encode h) (by decide)

/-- What is encrypted is decrypted. -/
theorem decrypt_encrypt (hs : s ≠ "") : decrypt K (encrypt K iv s) = s := by
  have hsplit : (encrypt K iv s).toList.splitOn ':' =
      ["v1".toList, Base64.encode iv, Base64.encode (K.sealText iv s)] := by
    rw [encrypt_toList hs]
    refine List.splitOn_intercalate ':' ?_ (List.cons_ne_nil _ _)
    intro part hpart
    rcases List.mem_cons.1 hpart with rfl | hpart
    · decide
    rcases List.mem_cons.1 hpart with rfl | hpart
    · exact colon_not_mem_encode _
    · rw [List.mem_singleton.1 hpart]
      exact colon_not_mem_encode _
  unfold decrypt
  rw [if_pos (isEncrypted_encrypt hs), hsplit]
  simp only [atob, String.toList_ofList, Base64.decode_encode, K.openText_sealText, Option.getD_some]

end

/-! ## Protected fields -/

section
variable {N : Type} [JsNumber N]

section
variable (P : Platform N) (C : ColumnStore N) (S : ReadContext N) (K : Cipher)
  (iv : String → List UInt8) (fields : List (FieldDefinition N)) (columns : Record N)

/-- The row that a write stores under the key. -/
def encryptedRow : Record N := C.row fields (encryptColumns (withKey K iv P) columns fields)

/-- A read of the row. -/
def decryptedItem : Record N :=
  decryptItem K fields (S.readRow fields (encryptedRow P C K iv fields columns))

/-- A column is protected: it does not hold the plaintext of a value that is not empty, but what is
sealed from it, and it is read as it would be without encryption. -/
structure Protected (key : String) (w : JsVal N) : Prop where
  atRest : w ≠ .null → w ≠ .str "" →
    ∃ s, w = .str s ∧ encrypt K (iv key) s ≠ s ∧
      (encryptedRow P C K iv fields columns).get? key = some (.str (encrypt K (iv key) s))
  onRead : (decryptedItem P C S K iv fields columns).get? key =
    (S.readRow fields (C.row fields columns)).get? key

end

/-- The stored values that encryption leaves alone: nothing, the empty text, and a text without the
version marker that a read leaves as it is. -/
def Encryptable (C : ColumnStore N) (t : FieldType) (w : JsVal N) : Prop :=
  w = .null ∨ w = .str "" ∨ ∃ s, w = .str s ∧ isEncrypted s = false ∧ t.Keeps C (.str s)

variable {P : Platform N} {C : ColumnStore N} {S : ReadContext N} {K : Cipher}
  {iv : String → List UInt8} {target : EntitySchema N}

/-! ### Rows -/

/-- A column of a row, as it is read. -/
theorem get?_readRow_column {fields : List (FieldDefinition N)} {row : Record N} {key : String}
    {v : JsVal N} (hmeta : key ≠ "_meta") (hv : row.get? key = some v) :
    (S.readRow fields row).get? key = some (S.decodeField fields key v) := by
  have hrest : (row.erase "_meta").get? key = some v := by
    rw [Record.get?_erase, if_neg (Ne.symm hmeta), hv]
  have hmerge : (S.mergeRowData row).get? key = some v := by
    unfold ReadContext.mergeRowData
    simp only
    split
    · split
      · split
        · rw [Record.get?_assign, hrest, Option.some_or]
        · exact hrest
      · exact hrest
    · exact hrest
  unfold ReadContext.readRow ReadContext.decodeJsonFields
  rw [Record.get?_map (S.decodeField fields), hmerge, Option.map_some]

omit [JsNumber N] in
theorem get?_decryptItem (fields : List (FieldDefinition N)) (row : Record N) (key : String) :
    (decryptItem K fields row).get? key = (row.get? key).map fun v =>
      if fields.any (fun f => f.encrypted && f.name == key) then decryptField K v else v :=
  Record.get?_map (fun key v =>
    if fields.any (fun f => f.encrypted && f.name == key) then decryptField K v else v) row key

variable (P C K iv) in
/-- A column of the row under the key. -/
theorem get?_encryptedRow {fields : List (FieldDefinition N)} {columns : Record N} {key : String}
    {a : ColumnAffinity} {w : JsVal N} (ha : columnAffinity fields key = some a)
    (hw : columns.get? key = some w) :
    (encryptedRow P C K iv fields columns).get? key =
      some (a.keep C (encryptValue (withKey K iv P) fields key w)) := by
  rw [encryptedRow, C.get?_row, ha, Option.bind_some, get?_encryptColumns, hw]
  rfl

theorem get?_row_of_column {fields : List (FieldDefinition N)} {columns : Record N} {key : String}
    {a : ColumnAffinity} {w : JsVal N} (ha : columnAffinity fields key = some a)
    (hw : columns.get? key = some w) : (C.row fields columns).get? key = some (a.keep C w) := by
  rw [C.get?_row, ha, Option.bind_some, hw]
  rfl

/-! ### Values -/

/-- A text that a type has coerced to is coerced to itself. -/
theorem coerceValue_str_self {v : JsVal N} {t : FieldType} {s : String}
    (h : coerceValue v t = .ok (.str s)) : coerceValue (.str s : JsVal N) t = .ok (.str s) := by
  unfold coerceValue at h ⊢
  split at h
  · cases h
  · cases t <;> grind [JsVal.isNullish, JsVal.toStr]

theorem keep_str_cases (C : ColumnStore N) (a : ColumnAffinity) (s : String) :
    a.keep C (.str s) = .str s ∨
      a.keep C (.str s) = ((C.numeric s).map JsVal.num).getD (.str s) := by
  cases a with
  | text => exact .inl rfl
  | integer | real => exact .inr rfl

/-- A text with the version marker is kept by every column. -/
theorem keep_of_isEncrypted (hnumeric : ∀ s, isEncrypted s = true → C.numeric s = none)
    (a : ColumnAffinity) {s : String} (hs : isEncrypted s = true) :
    a.keep C (.str s) = .str s := by
  obtain h | h := keep_str_cases C a s
  · exact h
  · rw [h, hnumeric s hs]
    rfl

/-- And by every read. -/
theorem decodeAt_keep_of_isEncrypted (hnumeric : ∀ s, isEncrypted s = true → C.numeric s = none)
    {t : FieldType} (ht : t ≠ .boolean) (a : ColumnAffinity) {s : String}
    (hs : isEncrypted s = true) : decodeAt S t (a.keep C (.str s)) = .str s := by
  rw [keep_of_isEncrypted hnumeric a hs]
  by_cases hjson : t = .json
  · subst hjson
    obtain ⟨cs, hcs⟩ := List.isPrefixOf_iff_prefix.1 hs
    have hlooks : looksLikeJson s = false := by
      rw [Bool.eq_false_iff, ne_eq, looksLikeJson_cons hcs.symm]
      decide
    show S.decodeJson (.str s) = _
    unfold ReadContext.decodeJson
    simp only
    rw [← looksLikeJson, hlooks]
    rfl
  · exact decodeAt_of_ne hjson ht _

omit [JsNumber N] in
/-- An envelope is opened, unless its text has the version marker. -/
theorem decryptField_encrypt {nonce : List UInt8} {s : String} (hs : s ≠ "") :
    decryptField K (.str (encrypt K nonce s) : JsVal N) =
      .str (if isEncrypted s then unreadable else s) := by
  unfold decryptField
  simp only
  rw [if_pos (isEncrypted_encrypt hs), decrypt_encrypt hs]

omit [JsNumber N] in
/-- What is not a text with the version marker is not decrypted. -/
theorem decryptField_of_not_isEncrypted {v : JsVal N}
    (h : ∀ s, v = .str s → isEncrypted s = false) : decryptField K v = v := by
  cases v with
  | str s =>
    unfold decryptField
    simp only
    rw [h s rfl]
    simp [h s rfl]
  | undefined | null | bool | num | arr | obj | func => rfl

/-- An empty value is read as it is. -/
theorem decryptField_decodeAt_of_empty {t : FieldType} {a : ColumnAffinity} {w : JsVal N}
    (hw : w = .null ∨ w = .str "") :
    decryptField K (decodeAt S t (a.keep C w)) = decodeAt S t (a.keep C w) := by
  refine decryptField_of_not_isEncrypted fun s hs => ?_
  have hdecode : ∀ u : JsVal N, u = .null ∨ u = .str "" ∨ (∃ n, u = .num n) →
      ∀ s, decodeAt S t u = .str s → isEncrypted s = false := by
    rintro u (rfl | rfl | ⟨n, rfl⟩) s hs
    · cases t <;> cases hs
    · cases t <;> cases hs <;> rfl
    · unfold decodeAt at hs
      split at hs
      · cases hs
      · unfold decodeBoolean at hs
        simp only at hs
        split at hs
        · cases hs
        · split at hs <;> cases hs
      · cases hs
  refine hdecode _ ?_ s hs
  obtain rfl | rfl := hw
  · exact .inl (by cases a <;> rfl)
  · obtain h | h := keep_str_cases C a ""
    · exact .inr (.inl h)
    · rw [h]
      cases C.numeric "" with
      | none => exact .inr (.inl rfl)
      | some n => exact .inr (.inr ⟨n, rfl⟩)

/-! ### Protected values -/

omit [JsNumber N] in
variable (P K iv) in
/-- The column of an encrypted field. -/
theorem encryptValue_of_encrypted {fields : List (FieldDefinition N)} {f : FieldDefinition N}
    (hf : f ∈ fields) (hencrypted : f.encrypted = true) (w : JsVal N) :
    (fields.any fun g => g.encrypted && g.name == f.name) = true ∧
      encryptValue (withKey K iv P) fields f.name w = encryptField K iv f.name w := by
  have hany : (fields.any fun g => g.encrypted && g.name == f.name) = true :=
    List.any_eq_true.2 ⟨f, hf, by simp [hencrypted]⟩
  refine ⟨hany, ?_⟩
  unfold encryptValue
  rw [if_pos hany]
  rfl

/-- The column of an encrypted field is protected if and only if its value is encryptable. -/
theorem protected_iff_encryptable (hS : S.parseJson = Json.parse) (htarget : target ∈ S.all)
    (hnumeric : ∀ s, isEncrypted s = true → C.numeric s = none) {f : FieldDefinition N}
    (hf : f ∈ target.info.schemaFields) (hencrypted : f.encrypted = true) {a : ColumnAffinity}
    (ha : f.type.affinity = some a) {columns : Record N} {w : JsVal N}
    (hw : columns.get? f.name = some w)
    (hself : ∀ s, w = .str s → coerceValue (.str s : JsVal N) f.type = .ok (.str s)) :
    Protected P C S K iv target.info.schemaFields columns f.name w ↔ Encryptable C f.type w := by
  have hformula : f.type ≠ .formula := fun h => by rw [h] at ha; cases ha
  have hmeta : f.name ≠ "_meta" := S.meta_reserved target htarget f hf
  have haffinity : columnAffinity target.info.schemaFields f.name = some a := by
    rw [columnAffinity, if_neg hmeta, schemaType_eq_some (S.names_nodup target htarget) hf]
    exact ha
  obtain ⟨hany, hencrypt⟩ := encryptValue_of_encrypted P K iv hf hencrypted w
  have hstored := get?_encryptedRow P C K iv haffinity hw
  rw [hencrypt] at hstored
  have hitem : (decryptedItem P C S K iv target.info.schemaFields columns).get? f.name =
      some (decryptField K (decodeAt S f.type (a.keep C (encryptField K iv f.name w)))) := by
    rw [decryptedItem, get?_decryptItem, get?_readRow_column hmeta hstored,
      decodeField_eq S (S.names_nodup target htarget) hf hformula, Option.map_some, if_pos hany]
  have hplain : (S.readRow target.info.schemaFields
      (C.row target.info.schemaFields columns)).get? f.name =
        some (decodeAt S f.type (a.keep C w)) := by
    rw [get?_readRow_column hmeta (get?_row_of_column haffinity hw),
      decodeField_eq S (S.names_nodup target htarget) hf hformula]
  by_cases hempty : w = .null ∨ w = .str ""
  · -- an empty value is not encrypted
    have hsame : encryptField K iv f.name w = w := by
      obtain rfl | rfl := hempty <;> rfl
    refine ⟨fun _ => hempty.elim .inl fun h => .inr (.inl h), fun _ => ⟨?_, ?_⟩⟩
    · exact fun hnull htext => absurd hempty (not_or.2 ⟨hnull, htext⟩)
    · rw [hitem, hplain, hsame, decryptField_decodeAt_of_empty hempty]
  obtain ⟨hnull, htext⟩ := not_or.1 hempty
  by_cases hstr : ∃ s, w = .str s
  · -- a text is stored as its envelope, which every read hands to the decryption
    obtain ⟨s, rfl⟩ := hstr
    have hs : s ≠ "" := fun h => htext (h ▸ rfl)
    have hcoerced := hself s rfl
    have hboolean : f.type ≠ .boolean := by
      intro h
      rw [h] at hcoerced
      obtain ⟨b, hb, -⟩ := coerceValue_boolean rfl hcoerced
      cases hb
    have henvelope : encryptField K iv f.name (.str s : JsVal N) =
        .str (encrypt K (iv f.name) s) := by
      unfold encryptField
      simp only
      rw [if_pos hs]
    have hkept (b : ColumnAffinity) : decodeAt S f.type (b.keep C (.str (encrypt K (iv f.name) s))) =
        .str (encrypt K (iv f.name) s) :=
      decodeAt_keep_of_isEncrypted hnumeric hboolean b (isEncrypted_encrypt hs)
    rw [henvelope] at hstored hitem
    rw [hkept, decryptField_encrypt hs] at hitem
    have hread : .str (if isEncrypted s then unreadable else s) =
        decodeAt S f.type (a.keep C (.str s)) ↔ isEncrypted s = false ∧ f.type.Keeps C (.str s) := by
      cases hmarked : isEncrypted s with
      | true =>
        rw [decodeAt_keep_of_isEncrypted hnumeric hboolean a hmarked, if_pos rfl]
        refine ⟨fun h => ?_, fun h => absurd h.1 (by simp)⟩
        rw [← JsVal.str.inj h] at hmarked
        exact absurd hmarked (by decide)
      | false =>
        rw [if_neg Bool.false_ne_true, eq_comm, decodeAt_eq_iff hS ha (.str s) hcoerced]
        exact (and_iff_right rfl).symm
    have hrest : (encryptedRow P C K iv target.info.schemaFields columns).get? f.name =
        some (.str (encrypt K (iv f.name) s)) := by
      rw [hstored, keep_of_isEncrypted hnumeric a (isEncrypted_encrypt hs)]
    constructor
    · intro h
      have honRead := h.onRead
      rw [hitem, hplain, Option.some.injEq] at honRead
      exact .inr (.inr ⟨s, rfl, hread.1 honRead⟩)
    · rintro (h | h | ⟨s', h, hmarked, hkeeps⟩)
      · cases h
      · exact absurd h htext
      · cases h
        refine ⟨fun _ _ => ⟨s, rfl, encrypt_ne hs, hrest⟩, ?_⟩
        rw [hitem, hplain, hread.2 ⟨hmarked, hkeeps⟩]
  · -- another value is stored as it is
    constructor
    · intro h
      obtain ⟨s, hs, -⟩ := h.atRest hnull htext
      exact absurd ⟨s, hs⟩ hstr
    · rintro (h | h | ⟨s, hs, -⟩)
      · exact absurd h hnull
      · exact absurd h htext
      · exact absurd ⟨s, hs⟩ hstr

omit [JsNumber N] in
theorem storesColumn_of_affinity {info : CollectionInfo N} {f : FieldDefinition N}
    {a : ColumnAffinity} (ha : f.type.affinity = some a)
    (htype : schemaType info.schemaFields f.name = some f.type) (hsystem : f.name ∉ systemFields) :
    storesColumn info f.name = true := by
  have hvirtual : [FieldType.o2m, .m2m, .table, .formula].contains f.type = false := by
    cases htype : f.type <;> rw [htype] at ha <;> first | rfl | cases ha
  have hcontains : systemFields.contains f.name = false := by simpa using hsystem
  simp only [storesColumn, hcontains, htype, hvirtual, Bool.not_false, Bool.and_self]

/-- A column of an any-collection reference is never encrypted. -/
theorem protected_iff_of_m2a {columns : Record N} {key : String} {w : JsVal N} (hmeta : key ≠ "_meta")
    (htype : schemaType target.info.schemaFields key = none)
    (hcolumn : (m2aColumns target.info.schemaFields).contains key = true)
    (hw : columns.get? key = some w) :
    Protected P C S K iv target.info.schemaFields columns key w ↔ w = .null ∨ w = .str "" := by
  have hany : (target.info.schemaFields.any fun g => g.encrypted && g.name == key) = false := by
    rw [List.any_eq_false]
    intro g hg hgkey
    obtain ⟨-, hname⟩ := Bool.and_eq_true_iff.1 hgkey
    have hfind := List.find?_eq_none.1 (Option.map_eq_none_iff.1 htype) g (List.mem_reverse.2 hg)
    exact hfind hname
  have haffinity : columnAffinity target.info.schemaFields key = some .text := by
    rw [columnAffinity, if_neg hmeta, htype]
    exact if_pos hcolumn
  have hsame : encryptValue (withKey K iv P) target.info.schemaFields key w = w := by
    unfold encryptValue
    rw [hany, if_neg Bool.false_ne_true]
  have hstored := get?_encryptedRow P C K iv haffinity hw
  rw [hsame] at hstored
  constructor
  · intro h
    by_contra hempty
    obtain ⟨hnull, htext⟩ := not_or.1 hempty
    obtain ⟨s, rfl, hne, hrest⟩ := h.atRest hnull htext
    exact hne (JsVal.str.inj (Option.some.inj (hrest.symm.trans hstored)))
  · intro hempty
    refine ⟨fun hnull htext => absurd hempty (not_or.2 ⟨hnull, htext⟩), ?_⟩
    rw [decryptedItem, get?_decryptItem, get?_readRow_column hmeta hstored,
      get?_readRow_column hmeta (get?_row_of_column haffinity hw), hany]
    rfl

end

/-! ## A payroll -/

/-- A cipher that hides nothing: the bytes of the text and an empty tag. -/
def plainCipher : Cipher where
  sealText _ s := s.toByteArray.data.toList ++ List.replicate 16 0
  openText _ bytes := String.fromUTF8? ⟨(bytes.take (bytes.length - 16)).toArray⟩
  openText_sealText iv s := by
    have hbytes : (s.toByteArray.data.toList ++ List.replicate 16 0).take
        ((s.toByteArray.data.toList ++ List.replicate 16 (0 : UInt8)).length - 16) =
          s.toByteArray.data.toList := by
      rw [List.length_append, List.length_replicate, Nat.add_sub_cancel, List.take_left]
    rw [hbytes, Array.toArray_toList]
    exact dif_pos s.isValidUTF8
  length_sealText iv s := by simp

/-- A read of the rows of some collections. -/
def readOf (schema : StoreSchema (Option Int))
    (hmeta : ∀ c ∈ schema.all, ∀ f ∈ c.info.schemaFields, f.name ≠ "_meta") :
    ReadContext (Option Int) :=
  { settingsRead with toStoreSchema := schema, meta_reserved := hmeta }

/-- Payrolls with an account and a flag, both encrypted. -/
def payrollSchema : EntitySchema (Option Int) where
  slug := "payroll"
  name := "Payroll"
  info := {
    tableName := "cms_payroll"
    schemaFields := [{ name := "account", type := .text, encrypted := true },
      { name := "disabled", type := .boolean, encrypted := true }]
    fields_user := by decide }

/-- A read of the payrolls. -/
def payrollRead : ReadContext (Option Int) :=
  { settingsRead with
    all := [payrollSchema]
    slugs_nodup := by decide
    names_nodup := by decide
    meta_reserved := by decide }

/-- No text with the version marker is a number. -/
theorem numeric_of_isEncrypted (s : String) (h : isEncrypted s = true) :
    integerColumns.numeric s = none := by
  obtain ⟨cs, hcs⟩ := List.isPrefixOf_iff_prefix.1 h
  show (if Json.isNumber s.toList then _ else _) = none
  rw [← hcs]
  rfl

end HeadlessErp
