import Mathlib.Data.List.Basic
import HeadlessErp.Audit.Redaction
import HeadlessErp.Js.Json

/-!
# Secrets in the audit tables

Two versions of a document that differ only in what stands under sensitive keys, at any depth, have
the same `redact`. The audit writers write the same rows for all such versions exactly where no
value that they write unmasked holds a sensitive key (`recordMutation_iff`): `log` leaves what lies
more than `maxMaskDepth` levels down as it is (`Leaks`), and the field rows are not masked at all.
-/

namespace HeadlessErp.Audit

variable {N : Type}

/-! ## Values -/

/-- Induction on a value, through its elements and its members. -/
@[elab_as_elim]
theorem value_induction {P : JsVal N → Prop} (undefined : P .undefined) (null : P .null)
    (bool : ∀ b, P (.bool b)) (num : ∀ n, P (.num n)) (str : ∀ s, P (.str s))
    (arr : ∀ xs, (∀ x ∈ xs, P x) → P (.arr xs))
    (obj : ∀ kvs, (∀ kv ∈ kvs, P kv.2) → P (.obj kvs)) (func : ∀ name, P (.func name))
    (v : JsVal N) : P v :=
  @JsVal.rec N P (fun xs => ∀ x ∈ xs, P x) (fun kvs => ∀ kv ∈ kvs, P kv.2) (fun kv => P kv.2)
    undefined null bool num str arr obj func (List.forall_mem_nil _)
    (fun _ _ hx hxs => List.forall_mem_cons.2 ⟨hx, hxs⟩) (List.forall_mem_nil _)
    (fun _ _ hkv hkvs => List.forall_mem_cons.2 ⟨hkv, hkvs⟩) (fun _ _ hv => hv) v

mutual

/-- The value with `r` under every sensitive key, at any depth. -/
def redactWith (r : JsVal N) : JsVal N → JsVal N
  | .arr xs => .arr (redactElems r xs)
  | .obj kvs => .obj (redactMembers r kvs)
  | v => v

/-- `redactWith` on the elements of an array. -/
def redactElems (r : JsVal N) : List (JsVal N) → List (JsVal N)
  | [] => []
  | x :: xs => redactWith r x :: redactElems r xs

/-- `redactWith` on the members of an object. -/
def redactMembers (r : JsVal N) : List (String × JsVal N) → List (String × JsVal N)
  | [] => []
  | (k, v) :: kvs => (k, if isSensitiveKey k then r else redactWith r v) :: redactMembers r kvs

end

/-- What a version of a value shows outside its sensitive keys. -/
def redact (v : JsVal N) : JsVal N := redactWith .null v

mutual

/-- There is a sensitive key in the value. -/
def HasSecret : JsVal N → Prop
  | .arr xs => HasSecretElems xs
  | .obj kvs => HasSecretMembers kvs
  | _ => False

/-- There is a sensitive key in an element. -/
def HasSecretElems : List (JsVal N) → Prop
  | [] => False
  | x :: xs => HasSecret x ∨ HasSecretElems xs

/-- There is a sensitive key among the members or in one of them. -/
def HasSecretMembers : List (String × JsVal N) → Prop
  | [] => False
  | (k, v) :: kvs => (isSensitiveKey k = true ∨ HasSecret v) ∨ HasSecretMembers kvs

end

mutual

/-- There is a sensitive key below the levels that are masked, and under no sensitive key above
them. -/
def Leaks (depth : Nat) : JsVal N → Prop
  | .arr xs => if maxMaskDepth < depth then HasSecretElems xs else LeaksElems (depth + 1) xs
  | .obj kvs => if maxMaskDepth < depth then HasSecretMembers kvs else LeaksMembers (depth + 1) kvs
  | _ => False

/-- `Leaks` of an element. -/
def LeaksElems (depth : Nat) : List (JsVal N) → Prop
  | [] => False
  | x :: xs => Leaks depth x ∨ LeaksElems depth xs

/-- `Leaks` of a member that is written masked. -/
def LeaksMembers (depth : Nat) : List (String × JsVal N) → Prop
  | [] => False
  | (k, v) :: kvs =>
    (k ≠ "__proto__" ∧ isSensitiveKey k = false ∧ Leaks depth v) ∨ LeaksMembers depth kvs

end

/-! ### Elements and members -/

theorem redactElems_eq (r : JsVal N) (xs : List (JsVal N)) :
    redactElems r xs = xs.map (redactWith r) := by
  induction xs with
  | nil => rfl
  | cons x xs ih => rw [redactElems, ih, List.map_cons]

/-- A member of a redacted object. -/
def redactMember (r : JsVal N) (kv : String × JsVal N) : String × JsVal N :=
  (kv.1, if isSensitiveKey kv.1 then r else redactWith r kv.2)

theorem redactMembers_eq (r : JsVal N) (kvs : List (String × JsVal N)) :
    redactMembers r kvs = kvs.map (redactMember r) := by
  induction kvs with
  | nil => rfl
  | cons kv kvs ih => rw [redactMembers, ih, List.map_cons, redactMember]

@[simp] theorem redactWith_arr (r : JsVal N) (xs : List (JsVal N)) :
    redactWith r (.arr xs) = .arr (xs.map (redactWith r)) := by
  rw [redactWith, redactElems_eq]

@[simp] theorem redactWith_obj (r : JsVal N) (kvs : List (String × JsVal N)) :
    redactWith r (.obj kvs) = .obj (kvs.map (redactMember r)) := by
  rw [redactWith, redactMembers_eq]

@[simp] theorem hasSecret_arr (xs : List (JsVal N)) :
    HasSecret (.arr xs) ↔ ∃ x ∈ xs, HasSecret x := by
  rw [HasSecret]
  induction xs with
  | nil => simp [HasSecretElems]
  | cons x xs ih => simp [HasSecretElems, ih]

@[simp] theorem hasSecret_obj (kvs : List (String × JsVal N)) :
    HasSecret (.obj kvs) ↔ ∃ kv ∈ kvs, isSensitiveKey kv.1 = true ∨ HasSecret kv.2 := by
  rw [HasSecret]
  induction kvs with
  | nil => simp [HasSecretMembers]
  | cons kv kvs ih => simp only [HasSecretMembers, ih, List.mem_cons, exists_eq_or_imp]

theorem maskElems_eq (depth : Nat) (xs : List (JsVal N)) :
    maskElems depth xs = xs.map (mask depth) := by
  induction xs with
  | nil => rfl
  | cons x xs ih => rw [maskElems, ih, List.map_cons]

/-- A member of a masked object. -/
def maskMember (depth : Nat) (kv : String × JsVal N) : Option (String × JsVal N) :=
  if kv.1 = "__proto__" then none
  else some (kv.1, if isSensitiveKey kv.1 then .str "[REDACTED]" else mask depth kv.2)

theorem maskMembers_eq (depth : Nat) (kvs : List (String × JsVal N)) :
    maskMembers depth kvs = kvs.filterMap (maskMember depth) := by
  induction kvs with
  | nil => rfl
  | cons kv kvs ih =>
    rw [maskMembers, List.filterMap_cons, maskMember]
    by_cases hproto : kv.1 = "__proto__"
    · rw [if_pos hproto, if_pos hproto, ih]
    · rw [if_neg hproto, if_neg hproto, ih]

theorem leaksElems_iff (depth : Nat) (xs : List (JsVal N)) :
    LeaksElems depth xs ↔ ∃ x ∈ xs, Leaks depth x := by
  induction xs with
  | nil => simp [LeaksElems]
  | cons x xs ih => simp [LeaksElems, ih]

theorem leaksMembers_iff (depth : Nat) (kvs : List (String × JsVal N)) :
    LeaksMembers depth kvs ↔
      ∃ kv ∈ kvs, kv.1 ≠ "__proto__" ∧ isSensitiveKey kv.1 = false ∧ Leaks depth kv.2 := by
  induction kvs with
  | nil => simp [LeaksMembers]
  | cons kv kvs ih => simp only [LeaksMembers, ih, List.mem_cons, exists_eq_or_imp]

/-! ### The two cases of the depth -/

theorem mask_of_deep {depth : Nat} (h : maxMaskDepth < depth) (v : JsVal N) : mask depth v = v := by
  cases v with
  | arr xs => rw [mask, if_pos h]
  | obj kvs => rw [mask, if_pos h]
  | _ => rfl

theorem leaks_of_deep {depth : Nat} (h : maxMaskDepth < depth) (v : JsVal N) :
    Leaks depth v ↔ HasSecret v := by
  cases v with
  | arr xs => rw [Leaks, if_pos h, HasSecret]
  | obj kvs => rw [Leaks, if_pos h, HasSecret]
  | _ => rfl

theorem mask_arr {depth : Nat} (h : ¬maxMaskDepth < depth) (xs : List (JsVal N)) :
    mask depth (.arr xs) = .arr (xs.map (mask (depth + 1))) := by
  rw [mask, if_neg h, maskElems_eq]

theorem mask_obj {depth : Nat} (h : ¬maxMaskDepth < depth) (kvs : List (String × JsVal N)) :
    mask depth (.obj kvs) = .obj (kvs.filterMap (maskMember (depth + 1))) := by
  rw [mask, if_neg h, maskMembers_eq]

theorem leaks_arr {depth : Nat} (h : ¬maxMaskDepth < depth) (xs : List (JsVal N)) :
    Leaks depth (.arr xs) ↔ ∃ x ∈ xs, Leaks (depth + 1) x := by
  rw [Leaks, if_neg h, leaksElems_iff]

theorem leaks_obj {depth : Nat} (h : ¬maxMaskDepth < depth) (kvs : List (String × JsVal N)) :
    Leaks depth (.obj kvs) ↔ ∃ kv ∈ kvs, kv.1 ≠ "__proto__" ∧ isSensitiveKey kv.1 = false ∧
      Leaks (depth + 1) kv.2 := by
  rw [Leaks, if_neg h, leaksMembers_iff]

/-! ## Versions -/

@[simp] theorem redactMember_fst (r : JsVal N) (kv : String × JsVal N) :
    (redactMember r kv).1 = kv.1 := rfl

theorem redactMember_of_sensitive {r : JsVal N} {kv : String × JsVal N}
    (h : isSensitiveKey kv.1 = true) : (redactMember r kv).2 = r := by
  rw [redactMember, if_pos h]

theorem redactMember_of_plain {r : JsVal N} {kv : String × JsVal N}
    (h : isSensitiveKey kv.1 = false) : (redactMember r kv).2 = redactWith r kv.2 := by
  rw [redactMember, if_neg (by simp [h])]

/-- Only the value put in last remains. -/
theorem redactWith_redactWith (r r' v : JsVal N) :
    redactWith r' (redactWith r v) = redactWith r' v := by
  induction v using value_induction with
  | arr xs ih => simpa using ih
  | obj kvs ih =>
    simp only [redactWith_obj, List.map_map, JsVal.obj.injEq]
    refine List.map_congr_left fun kv hkv => ?_
    rw [Function.comp_apply, redactMember, redactMember_fst]
    cases hkey : isSensitiveKey kv.1 with
    | true => simp [redactMember, hkey]
    | false => rw [redactMember_of_plain hkey, ih kv hkv, redactMember, hkey]
  | _ => rfl

theorem hasSecret_redactWith (r v : JsVal N) : HasSecret (redactWith r v) ↔ HasSecret v := by
  induction v using value_induction with
  | arr xs ih =>
    simp only [redactWith_arr, hasSecret_arr, List.mem_map, exists_exists_and_eq_and]
    exact exists_congr fun x => and_congr_right fun hx => ih x hx
  | obj kvs ih =>
    simp only [redactWith_obj, hasSecret_obj, List.mem_map, exists_exists_and_eq_and,
      redactMember_fst]
    refine exists_congr fun kv => and_congr_right fun hkv => ?_
    cases hkey : isSensitiveKey kv.1 with
    | true => simp
    | false => rw [redactMember_of_plain hkey, ih kv hkv]
  | _ => rfl

/-- A value without a sensitive key has no other version. -/
theorem redactWith_of_not_hasSecret {r v : JsVal N} (h : ¬HasSecret v) : redactWith r v = v := by
  induction v using value_induction with
  | arr xs ih =>
    simp only [hasSecret_arr, not_exists, not_and] at h
    rw [redactWith_arr, List.map_congr_left fun x hx => ih x hx (h x hx), List.map_id']
  | obj kvs ih =>
    simp only [hasSecret_obj, not_exists, not_and, not_or, Bool.not_eq_true] at h
    rw [redactWith_obj]
    have hid : ∀ kv ∈ kvs, redactMember r kv = kv := by
      intro kv hkv
      rw [redactMember, if_neg (by simp [h kv hkv]), ih kv hkv (h kv hkv).2]
    rw [List.map_congr_left hid, List.map_id']
  | _ => rfl

theorem leaks_redactWith (r : JsVal N) (depth : Nat) (v : JsVal N) :
    Leaks depth (redactWith r v) ↔ Leaks depth v := by
  by_cases hdeep : maxMaskDepth < depth
  · rw [leaks_of_deep hdeep, leaks_of_deep hdeep, hasSecret_redactWith]
  induction v using value_induction generalizing depth with
  | arr xs ih =>
    simp only [redactWith_arr, leaks_arr hdeep, List.mem_map, exists_exists_and_eq_and]
    refine exists_congr fun x => and_congr_right fun hx => ?_
    by_cases hnext : maxMaskDepth < depth + 1
    · rw [leaks_of_deep hnext, leaks_of_deep hnext, hasSecret_redactWith]
    · exact ih x hx _ hnext
  | obj kvs ih =>
    simp only [redactWith_obj, leaks_obj hdeep, List.mem_map, exists_exists_and_eq_and,
      redactMember_fst]
    refine exists_congr fun kv => and_congr_right fun hkv => and_congr_right fun _ =>
      and_congr_right fun hkey => ?_
    rw [redactMember_of_plain hkey]
    by_cases hnext : maxMaskDepth < depth + 1
    · rw [leaks_of_deep hnext, leaks_of_deep hnext, hasSecret_redactWith]
    · exact ih kv hkv _ hnext
  | _ => rfl

/-- What is masked does not depend on the version, where nothing leaks. -/
theorem mask_redactWith {r : JsVal N} {depth : Nat} {v : JsVal N} (h : ¬Leaks depth v) :
    mask depth (redactWith r v) = mask depth v := by
  induction v using value_induction generalizing depth with
  | arr xs ih =>
    by_cases hdeep : maxMaskDepth < depth
    · rw [redactWith_of_not_hasSecret (by rwa [leaks_of_deep hdeep] at h)]
    · simp only [leaks_arr hdeep, not_exists, not_and] at h
      rw [redactWith_arr, mask_arr hdeep, mask_arr hdeep, List.map_map]
      exact congrArg _ (List.map_congr_left fun x hx => ih x hx (h x hx))
  | obj kvs ih =>
    by_cases hdeep : maxMaskDepth < depth
    · rw [redactWith_of_not_hasSecret (by rwa [leaks_of_deep hdeep] at h)]
    · simp only [leaks_obj hdeep, not_exists, not_and] at h
      rw [redactWith_obj, mask_obj hdeep, mask_obj hdeep, List.filterMap_map]
      refine congrArg _ (List.filterMap_congr fun kv hkv => ?_)
      rw [Function.comp_apply, maskMember, maskMember, redactMember_fst]
      by_cases hproto : kv.1 = "__proto__"
      · rw [if_pos hproto, if_pos hproto]
      · rw [if_neg hproto, if_neg hproto]
        cases hkey : isSensitiveKey kv.1 with
        | true => rfl
        | false => rw [redactMember_of_plain hkey, ih kv hkv (h kv hkv hproto hkey)]
  | _ => rfl

/-! ### Two versions -/

theorem leaks_iff_of_redact {v w : JsVal N} (h : redact v = redact w) (depth : Nat) :
    Leaks depth w ↔ Leaks depth v := by
  rw [← leaks_redactWith .null depth w, ← leaks_redactWith .null depth v]
  exact iff_of_eq (congrArg (Leaks depth) h.symm)

theorem mask_eq_of_redact {v w : JsVal N} (h : redact v = redact w) {depth : Nat}
    (hleaks : ¬Leaks depth v) : mask depth w = mask depth v := by
  have hleaks' : ¬Leaks depth w := by rwa [leaks_iff_of_redact h]
  calc mask depth w = mask depth (redact w) := (mask_redactWith hleaks').symm
    _ = mask depth (redact v) := by rw [h]
    _ = mask depth v := mask_redactWith hleaks

theorem eq_of_redact {v w : JsVal N} (h : redact v = redact w) (hsecret : ¬HasSecret v) :
    w = v := by
  have hsecret' : ¬HasSecret w := by
    rw [← hasSecret_redactWith .null w]
    rw [← hasSecret_redactWith .null v] at hsecret
    unfold redact at h
    rwa [← h]
  calc w = redact w := (redactWith_of_not_hasSecret hsecret').symm
    _ = redact v := h.symm
    _ = v := redactWith_of_not_hasSecret hsecret

/-- Two versions have the same fields, one after the other. -/
theorem filterMap_eq_of_redact {β : Type} {f g : String × JsVal N → Option β}
    {d d' : Record N} (h : redact (.obj d) = redact (.obj d'))
    (hf : ∀ kv ∈ d, ∀ kv', redactMember .null kv = redactMember .null kv' → g kv' = f kv) :
    d'.filterMap g = d.filterMap f := by
  simp only [redact, redactWith_obj, JsVal.obj.injEq] at h
  induction d generalizing d' with
  | nil =>
    rw [List.map_nil, eq_comm, List.map_eq_nil_iff] at h
    rw [h, List.filterMap_nil, List.filterMap_nil]
  | cons kv d ih =>
    obtain ⟨kv', rest, rfl, hkv, hrest⟩ := List.map_eq_cons_iff.1 h.symm
    have hfirst : g kv' = f kv := hf kv List.mem_cons_self kv' hkv.symm
    have hothers := ih (fun kv hkv => hf kv (List.mem_cons_of_mem _ hkv)) hrest.symm
    rw [List.filterMap_cons, List.filterMap_cons, hfirst, hothers]

/-- A member of a version, where its key is not sensitive. -/
theorem getMember_redactWith [JsNumber N] (r : JsVal N) (d : Record N) {k : String}
    (hk : isSensitiveKey k = false) : (redactWith r (.obj d)).getMember k =
      redactWith r ((JsVal.obj d).getMember k) := by
  have hown : JsVal.ownMember (d.map (redactMember r)) k =
      (JsVal.ownMember d k).map (redactWith r) := by
    induction d with
    | nil => rfl
    | cons kv d ih =>
      unfold JsVal.ownMember at ih ⊢
      rw [List.map_cons, List.find?_cons, List.find?_cons, redactMember_fst]
      by_cases hkv : kv.1 = k
      · subst hkv
        simp [redactMember_of_plain hk]
      · have hne : (kv.1 == k) = false := by simpa using hkv
        simp only [hne]
        exact ih
  rw [redactWith_obj, JsVal.getMember, JsVal.getMember, hown]
  cases JsVal.ownMember d k with
  | some v => rfl
  | none =>
    simp only [Option.map_none]
    split
    · rfl
    · split <;> rfl

/-- A version of a masked document. -/
theorem maskedMember_eq {d d' : Record N} (h : redact (.obj d) = redact (.obj d'))
    (hleaks : ¬Leaks 0 (.obj d)) (key : String) :
    maskedMember key (some d') = maskedMember key (some d) := by
  simp only [maskedMember, Option.map_some, mask_eq_of_redact h hleaks]

/-! ## Texts -/

section
variable [JsNumber N]

theorem length_le_intercalate {t : String} {ts : List String} (h : t ∈ ts) :
    t.length ≤ (",".intercalate ts).length := by
  induction ts with
  | nil => cases h
  | cons u ts ih =>
    cases ts with
    | nil =>
      obtain rfl := List.mem_singleton.1 h
      exact Nat.le_of_eq (congrArg String.length String.intercalate_singleton.symm)
    | cons u' ts =>
      rw [String.intercalate_cons_cons, String.length_append, String.length_append]
      rcases List.mem_cons.1 h with rfl | h
      · omega
      · have := ih h
        omega

/-- The JSON text of the value has `n` characters or more. -/
def Shows (n : Nat) (v : JsVal N) : Prop := ∃ t, v.toJson = some t ∧ n ≤ t.length

theorem shows_str (s : String) : Shows s.length (JsVal.str s : JsVal N) := by
  refine ⟨jsonString s, by rw [JsVal.toJson], ?_⟩
  have hcontent := Json.length_le_content s.toList
  rw [← String.length_toList, ← String.length_toList, Json.toList_jsonString, List.length_cons,
    List.length_append]
  omega

theorem shows_arr {n : Nat} {x : JsVal N} {xs : List (JsVal N)} (hx : x ∈ xs) (h : Shows n x) :
    Shows n (.arr xs) := by
  obtain ⟨t, ht, hlen⟩ := h
  have hmem : t ∈ toJsonElems xs := by
    induction xs with
    | nil => cases hx
    | cons y xs ih =>
      rw [toJsonElems]
      rcases List.mem_cons.1 hx with rfl | hx
      · rw [ht]
        exact List.mem_cons_self
      · exact List.mem_cons_of_mem _ (ih hx)
  refine ⟨_, by rw [JsVal.toJson], ?_⟩
  have := length_le_intercalate hmem
  rw [String.length_append, String.length_append]
  omega

theorem shows_obj {n : Nat} {kv : String × JsVal N} {kvs : List (String × JsVal N)} (hkv : kv ∈ kvs)
    (h : Shows n kv.2) : Shows n (.obj kvs) := by
  obtain ⟨t, ht, hlen⟩ := h
  have hmem : jsonString kv.1 ++ ":" ++ t ∈ toJsonMembers kvs := by
    induction kvs with
    | nil => cases hkv
    | cons kv' kvs ih =>
      rw [toJsonMembers]
      rcases List.mem_cons.1 hkv with rfl | hkv
      · rw [ht]
        exact List.mem_cons_self
      · cases kv'.2.toJson with
        | none => exact ih hkv
        | some t' => exact List.mem_cons_of_mem _ (ih hkv)
  refine ⟨_, by rw [JsVal.toJson], ?_⟩
  have := length_le_intercalate hmem
  rw [String.length_append, String.length_append] at this ⊢
  omega

theorem shows_redactWith {v : JsVal N} (h : HasSecret v) (s : String) :
    Shows s.length (redactWith (.str s) v) := by
  induction v using value_induction with
  | arr xs ih =>
    obtain ⟨x, hx, hsecret⟩ := (hasSecret_arr xs).1 h
    rw [redactWith_arr]
    exact shows_arr (List.mem_map_of_mem hx) (ih x hx hsecret)
  | obj kvs ih =>
    obtain ⟨kv, hkv, hsecret⟩ := (hasSecret_obj kvs).1 h
    rw [redactWith_obj]
    refine shows_obj (List.mem_map_of_mem hkv) ?_
    cases hkey : isSensitiveKey kv.1 with
    | true =>
      rw [redactMember_of_sensitive hkey]
      exact shows_str s
    | false =>
      rw [redactMember_of_plain hkey]
      exact ih kv hkv (hsecret.resolve_left (by simp [hkey]))
  | _ => exact absurd h (by simp [HasSecret])

theorem shows_mask {depth : Nat} {v : JsVal N} (h : Leaks depth v) (s : String) :
    Shows s.length (mask depth (redactWith (.str s) v)) := by
  induction v using value_induction generalizing depth with
  | arr xs ih =>
    by_cases hdeep : maxMaskDepth < depth
    · rw [mask_of_deep hdeep]
      exact shows_redactWith ((leaks_of_deep hdeep _).1 h) s
    · obtain ⟨x, hx, hleaks⟩ := (leaks_arr hdeep xs).1 h
      rw [redactWith_arr, mask_arr hdeep, List.map_map]
      exact shows_arr (List.mem_map_of_mem hx) (ih x hx hleaks)
  | obj kvs ih =>
    by_cases hdeep : maxMaskDepth < depth
    · rw [mask_of_deep hdeep]
      exact shows_redactWith ((leaks_of_deep hdeep _).1 h) s
    · obtain ⟨kv, hkv, hproto, hkey, hleaks⟩ := (leaks_obj hdeep kvs).1 h
      rw [redactWith_obj, mask_obj hdeep, List.filterMap_map]
      have hmem : (kv.1, mask (depth + 1) (redactWith (.str s) kv.2)) ∈
          kvs.filterMap (maskMember (depth + 1) ∘ redactMember (.str s)) := by
        refine List.mem_filterMap.2 ⟨kv, hkv, ?_⟩
        rw [Function.comp_apply, maskMember, redactMember_fst, if_neg hproto, hkey,
          redactMember_of_plain hkey]
        rfl
      exact shows_obj hmem (ih kv hkv hleaks)
  | _ => exact absurd h (by simp [Leaks])

/-! ## The rows -/

variable {c : AuditCall} {T : AuditTables}

theorem exists_longer (ts : List (Option String)) :
    ∃ s : String, ∀ t, some t ∈ ts → t.length < s.length := by
  have hbound : ∃ n, ∀ t, some t ∈ ts → t.length ≤ n := by
    induction ts with
    | nil => exact ⟨0, fun t ht => absurd ht List.not_mem_nil⟩
    | cons u ts ih =>
      obtain ⟨n, hn⟩ := ih
      refine ⟨n + (u.getD "").length, fun t ht => ?_⟩
      rcases List.mem_cons.1 ht with rfl | ht
      · rw [Option.getD_some]
        omega
      · have := hn t ht
        omega
  obtain ⟨n, hn⟩ := hbound
  refine ⟨String.ofList (List.replicate (n + 1) 'x'), fun t ht => ?_⟩
  rw [← String.length_toList (s := String.ofList _), String.toList_ofList, List.length_replicate]
  exact Nat.lt_succ_of_le (hn t ht)

theorem recordMutation_create (h : c.auditEnabled = true) (item : Record N) :
    recordMutation c T (.create item) =
      { auditLog := T.auditLog ++ [log c { action := .create, snapshotAfter := some item }]
        fieldAudit := T.fieldAudit ++ logCreate c item } := by
  rw [recordMutation, if_pos h, insertMany_eq]

/-- What an update gives `log`. -/
def updateEntry (newStatus : Option String) (userData existing item : Record N) : LogInput N where
  action := auditAction newStatus
  changes := some userData
  snapshotBefore := some existing
  snapshotAfter := some item

omit [JsNumber N] in
theorem changesPayload_update (mode : SnapshotMode) (newStatus : Option String)
    (userData existing item : Record N) :
    changesPayload mode (updateEntry newStatus userData existing item) =
      (if storeSnap mode (auditAction newStatus) then
          maskedMember "snapshot_before" (some existing) ++
            maskedMember "snapshot_after" (some item)
        else []) ++ maskedMember "fields" (some userData) := rfl

theorem recordMutation_update (h : c.auditEnabled = true) (newStatus : Option String)
    (userData existing item : Record N) :
    recordMutation c T (.update newStatus userData existing item) =
      { auditLog := T.auditLog ++ [log c (updateEntry newStatus userData existing item)]
        fieldAudit := T.fieldAudit ++ logUpdate c existing item } := by
  rw [recordMutation, if_pos h, insertMany_eq]
  rfl

/-! ### The row of the log -/

theorem storeSnap_create (mode : SnapshotMode) :
    storeSnap mode .create = true ↔ mode ≠ .none := by
  cases mode <;> simp [storeSnap]

theorem storeSnap_update (mode : SnapshotMode) (newStatus : Option String) :
    storeSnap mode (auditAction newStatus) = true ↔ mode = .full := by
  have haction : auditAction newStatus ≠ .create := by
    unfold auditAction
    split
    · simp
    · split <;> simp
  cases mode <;> simp [storeSnap, haction]

/-- A member of the payload is part of the text that is written. -/
theorem exists_changes {entry : LogInput N} {kv : String × JsVal N} {n : Nat}
    (hkv : kv ∈ changesPayload c.snapshotMode entry) (h : Shows n kv.2) :
    ∃ t, (log c entry).changes = some t ∧ n ≤ t.length := by
  obtain ⟨t, ht, hlen⟩ := shows_obj hkv h
  refine ⟨t, ?_, hlen⟩
  have hpos := List.length_pos_of_mem hkv
  simp only [log, if_pos hpos, ht]

/-- The version of a document with a text under every sensitive key. -/
def version (s : String) (d : Record N) : Record N := d.map (redactMember (.str s))

omit [JsNumber N] in
theorem redact_version (s : String) (d : Record N) :
    redact (.obj d) = redact (.obj (version s d)) := by
  rw [version, ← redactWith_obj]
  exact (redactWith_redactWith (.str s) .null (.obj d)).symm

/-- A document whose versions are all written with the same text does not leak. -/
theorem not_leaks_of_changes (key : String) {f : String → LogInput N} {entry : LogInput N}
    {d : Record N} (hsame : ∀ s, log c (f s) = log c entry)
    (hmem : ∀ s, (key, mask 0 (.obj (version s d))) ∈ changesPayload c.snapshotMode (f s)) :
    ¬Leaks 0 (.obj d) := by
  intro hleaks
  obtain ⟨s, hs⟩ := exists_longer [(log c entry).changes]
  have hshows : Shows s.length (mask 0 (.obj (version s d))) := by
    rw [version, ← redactWith_obj]
    exact shows_mask hleaks s
  obtain ⟨t, ht, hlen⟩ := exists_changes (hmem s) hshows
  rw [hsame s] at ht
  have := hs t (by rw [ht]; exact List.mem_cons_self)
  omega

/-! ### The rows of the fields -/

theorem isNullish_of_stringify {v : JsVal N} {t : String} (h : stringify v = some t) :
    v.isNullish = false := by
  cases v <;> first | rfl | simp [stringify] at h

theorem stringify_of_hasSecret {v : JsVal N} (h : HasSecret v) : stringify v = v.toJson := by
  cases v <;> first | rfl | exact absurd h (by simp [HasSecret])

theorem stringify_redactWith {v : JsVal N} (h : HasSecret v) (s : String) :
    ∃ t, stringify (redactWith (.str s) v) = some t ∧ s.length ≤ t.length := by
  rw [stringify_of_hasSecret ((hasSecret_redactWith (.str s) v).2 h)]
  exact shows_redactWith h s

theorem stringify_redactMember {kv : String × JsVal N}
    (h : isSensitiveKey kv.1 = true ∨ HasSecret kv.2) (s : String) :
    ∃ t, stringify (redactMember (.str s) kv).2 = some t ∧ s.length ≤ t.length := by
  cases hkey : isSensitiveKey kv.1 with
  | true =>
    rw [redactMember_of_sensitive hkey]
    exact ⟨s, rfl, Nat.le_refl _⟩
  | false =>
    rw [redactMember_of_plain hkey]
    exact stringify_redactWith (h.resolve_left (by simp [hkey])) s

theorem map_valueTo_row (source : FieldAuditSource) (changes : List FieldChange) :
    (changes.mapIdx (FieldChange.row c source)).map (·.valueTo) = changes.map (·.valueTo) := by
  exact List.ext_getElem (by simp) fun i _ _ => by simp [FieldChange.row]

theorem map_valueFrom_row (source : FieldAuditSource) (changes : List FieldChange) :
    (changes.mapIdx (FieldChange.row c source)).map (·.valueFrom) =
      changes.map (·.valueFrom) := by
  exact List.ext_getElem (by simp) fun i _ _ => by simp [FieldChange.row]

/-- A field with a text is written by a create. -/
theorem mem_logCreate {item : Record N} {kv : String × JsVal N} {t : String} (hkv : kv ∈ item)
    (hsystem : kv.1 ∉ systemFields) (ht : stringify kv.2 = some t) :
    some t ∈ (logCreate c item).map (·.valueTo) := by
  rw [logCreate, map_valueTo_row]
  refine List.mem_map.2 ⟨⟨kv.1, none, some t⟩, List.mem_filterMap.2 ⟨kv, hkv, ?_⟩, rfl⟩
  rw [createdField, if_neg (by simpa using hsystem),
    if_neg (by simp [isNullish_of_stringify ht]), ht]

/-- A field whose text changes is written by an update, with both texts. -/
theorem mem_logUpdate {before after : Record N} {kv : String × JsVal N} (hkv : kv ∈ after)
    (hsystem : kv.1 ∉ systemFields)
    (hne : stringify ((JsVal.obj before).getMember kv.1) ≠ stringify kv.2) :
    stringify kv.2 ∈ (logUpdate c before after).map (·.valueTo) ∧
      stringify ((JsVal.obj before).getMember kv.1) ∈
        (logUpdate c before after).map (·.valueFrom) := by
  have hmem : ⟨kv.1, stringify ((JsVal.obj before).getMember kv.1), stringify kv.2⟩ ∈
      after.filterMap (updatedField before) := by
    refine List.mem_filterMap.2 ⟨kv, hkv, ?_⟩
    rw [updatedField, if_neg (by simpa using hsystem)]
    exact if_neg hne
  rw [logUpdate, map_valueTo_row, map_valueFrom_row]
  exact ⟨List.mem_map_of_mem hmem, List.mem_map_of_mem hmem⟩

end

/-! ## Creates and updates -/

/-- Two versions of the documents of one call: what differs stands under sensitive keys. -/
def Mutation.SameBesides : Mutation N → Mutation N → Prop
  | .create item, .create item' => redact (.obj item) = redact (.obj item')
  | .update newStatus userData existing item, .update newStatus' userData' existing' item' =>
    newStatus = newStatus' ∧ redact (.obj userData) = redact (.obj userData') ∧
      redact (.obj existing) = redact (.obj existing') ∧ redact (.obj item) = redact (.obj item')
  | _, _ => False

/-- No value that is written unmasked holds a sensitive key: in the documents of the log, those
below the masked levels, in the fields outside the system columns, all. -/
def Mutation.Plain [JsNumber N] (mode : SnapshotMode) : Mutation N → Prop
  | .create item =>
    (mode ≠ .none → ¬Leaks 0 (.obj item)) ∧
      ∀ kv ∈ item, kv.1 ∉ systemFields → isSensitiveKey kv.1 = false ∧ ¬HasSecret kv.2
  | .update _ userData existing item =>
    ¬Leaks 0 (.obj userData) ∧
      (mode = .full → ¬Leaks 0 (.obj existing) ∧ ¬Leaks 0 (.obj item)) ∧
      ∀ kv ∈ item, kv.1 ∉ systemFields → isSensitiveKey kv.1 = false ∧ ¬HasSecret kv.2 ∧
        ¬HasSecret ((JsVal.obj existing).getMember kv.1)

section
variable [JsNumber N] {c : AuditCall} {T : AuditTables}

omit [JsNumber N] in
theorem fst_eq_of_redact {kv kv' : String × JsVal N}
    (h : redactMember .null kv = redactMember .null kv') : kv'.1 = kv.1 := by
  have hfst := congrArg Prod.fst h
  exact hfst.symm

omit [JsNumber N] in
/-- A field without a secret is the same in every version of the document. -/
theorem member_eq_of_redact {kv kv' : String × JsVal N}
    (h : redactMember .null kv = redactMember .null kv') (hkey : isSensitiveKey kv.1 = false)
    (hsecret : ¬HasSecret kv.2) : kv' = kv := by
  have hfst := fst_eq_of_redact h
  have hsnd := congrArg Prod.snd h
  rw [redactMember_of_plain hkey, redactMember_of_plain (by rw [hfst, hkey])] at hsnd
  exact Prod.ext hfst (eq_of_redact hsnd hsecret)

theorem logCreate_eq {item item' : Record N} (h : redact (.obj item) = redact (.obj item'))
    (hplain : ∀ kv ∈ item, kv.1 ∉ systemFields → isSensitiveKey kv.1 = false ∧ ¬HasSecret kv.2) :
    logCreate c item' = logCreate c item := by
  rw [logCreate, logCreate, filterMap_eq_of_redact h]
  intro kv hkv kv' hversion
  have hfst := fst_eq_of_redact hversion
  by_cases hsystem : kv.1 ∈ systemFields
  · rw [createdField, createdField, if_pos (by simpa [hfst] using hsystem),
      if_pos (by simpa using hsystem)]
  · obtain ⟨hkey, hsecret⟩ := hplain kv hkv hsystem
    rw [member_eq_of_redact hversion hkey hsecret]

theorem getMember_eq_of_redact {d d' : Record N} (h : redact (.obj d) = redact (.obj d'))
    {k : String} (hkey : isSensitiveKey k = false)
    (hsecret : ¬HasSecret ((JsVal.obj d).getMember k)) :
    (JsVal.obj d').getMember k = (JsVal.obj d).getMember k := by
  refine eq_of_redact ?_ hsecret
  rw [redact, redact, ← getMember_redactWith .null d hkey, ← getMember_redactWith .null d' hkey]
  exact congrArg (JsVal.getMember · k) h

theorem logUpdate_eq {existing existing' item item' : Record N}
    (hexisting : redact (.obj existing) = redact (.obj existing'))
    (h : redact (.obj item) = redact (.obj item'))
    (hplain : ∀ kv ∈ item, kv.1 ∉ systemFields → isSensitiveKey kv.1 = false ∧ ¬HasSecret kv.2 ∧
      ¬HasSecret ((JsVal.obj existing).getMember kv.1)) :
    logUpdate c existing' item' = logUpdate c existing item := by
  rw [logUpdate, logUpdate, filterMap_eq_of_redact h]
  intro kv hkv kv' hversion
  have hfst := fst_eq_of_redact hversion
  by_cases hsystem : kv.1 ∈ systemFields
  · rw [updatedField, updatedField, if_pos (by simpa [hfst] using hsystem),
      if_pos (by simpa using hsystem)]
  · obtain ⟨hkey, hsecret, hbefore⟩ := hplain kv hkv hsystem
    rw [member_eq_of_redact hversion hkey hsecret, updatedField, updatedField,
      getMember_eq_of_redact hexisting hkey hbefore]

theorem log_create_eq {item item' : Record N} (h : redact (.obj item) = redact (.obj item'))
    (hplain : c.snapshotMode ≠ .none → ¬Leaks 0 (.obj item)) :
    log c { action := .create, snapshotAfter := some item' } =
      log c { action := .create, snapshotAfter := some item } := by
  have hpayload : changesPayload c.snapshotMode
        ({ action := .create, snapshotAfter := some item' } : LogInput N) =
      changesPayload c.snapshotMode { action := .create, snapshotAfter := some item } := by
    rw [changesPayload, changesPayload]
    by_cases hsnap : storeSnap c.snapshotMode .create = true
    · rw [if_pos hsnap, if_pos hsnap,
        maskedMember_eq h (hplain ((storeSnap_create _).1 hsnap))]
    · rw [if_neg hsnap, if_neg hsnap]
  rw [log, log, hpayload]

theorem log_update_eq {newStatus : Option String}
    {userData userData' existing existing' item item' : Record N}
    (hdata : redact (.obj userData) = redact (.obj userData'))
    (hexisting : redact (.obj existing) = redact (.obj existing'))
    (h : redact (.obj item) = redact (.obj item')) (hplain : ¬Leaks 0 (.obj userData))
    (hsnaps : c.snapshotMode = .full → ¬Leaks 0 (.obj existing) ∧ ¬Leaks 0 (.obj item)) :
    log c (updateEntry newStatus userData' existing' item') =
      log c (updateEntry newStatus userData existing item) := by
  have hpayload : changesPayload c.snapshotMode
        (updateEntry newStatus userData' existing' item') =
      changesPayload c.snapshotMode (updateEntry newStatus userData existing item) := by
    rw [changesPayload_update, changesPayload_update, maskedMember_eq hdata hplain]
    by_cases hsnap : storeSnap c.snapshotMode (auditAction newStatus) = true
    · obtain ⟨hbefore, hafter⟩ := hsnaps ((storeSnap_update _ _).1 hsnap)
      rw [if_pos hsnap, if_pos hsnap, maskedMember_eq hexisting hbefore,
        maskedMember_eq h hafter]
    · rw [if_neg hsnap, if_neg hsnap]
  rw [log, log, hpayload]
  rfl

/-- A plain call writes the same rows in every version. -/
theorem recordMutation_of_plain (henabled : c.auditEnabled = true) {m m' : Mutation N}
    (h : m.SameBesides m') (hplain : m.Plain c.snapshotMode) :
    recordMutation c T m' = recordMutation c T m := by
  cases m with
  | create item =>
    cases m' with
    | update => exact h.elim
    | create item' =>
      rw [recordMutation_create henabled, recordMutation_create henabled,
        log_create_eq h hplain.1, logCreate_eq h hplain.2]
  | update newStatus userData existing item =>
    cases m' with
    | create => exact h.elim
    | update newStatus' userData' existing' item' =>
      obtain ⟨rfl, hdata, hexisting, hitem⟩ := h
      obtain ⟨hleaks, hsnaps, hfields⟩ := hplain
      rw [recordMutation_update henabled, recordMutation_update henabled,
        log_update_eq hdata hexisting hitem hleaks hsnaps,
        logUpdate_eq hexisting hitem hfields]

/-- What a create writes in two versions, where it is the same. -/
theorem create_eq (henabled : c.auditEnabled = true) {item item' : Record N}
    (h : recordMutation c T (.create item') = recordMutation c T (.create item)) :
    log c { action := .create, snapshotAfter := some item' } =
        log c { action := .create, snapshotAfter := some item } ∧
      logCreate c item' = logCreate c item := by
  rw [recordMutation_create henabled, recordMutation_create henabled,
    AuditTables.mk.injEq] at h
  exact ⟨List.singleton_inj.1 (List.append_cancel_left h.1), List.append_cancel_left h.2⟩

/-- What an update writes in two versions, where it is the same. -/
theorem update_eq (henabled : c.auditEnabled = true) {newStatus : Option String}
    {userData userData' existing existing' item item' : Record N}
    (h : recordMutation c T (.update newStatus userData' existing' item') =
      recordMutation c T (.update newStatus userData existing item)) :
    log c (updateEntry newStatus userData' existing' item') =
        log c (updateEntry newStatus userData existing item) ∧
      logUpdate c existing' item' = logUpdate c existing item := by
  rw [recordMutation_update henabled, recordMutation_update henabled,
    AuditTables.mk.injEq] at h
  exact ⟨List.singleton_inj.1 (List.append_cancel_left h.1), List.append_cancel_left h.2⟩

omit [JsNumber N] in
theorem secret_of_not_plain {kv : String × JsVal N}
    (h : ¬(isSensitiveKey kv.1 = false ∧ ¬HasSecret kv.2)) :
    isSensitiveKey kv.1 = true ∨ HasSecret kv.2 := by
  by_contra hnone
  rw [not_or, Bool.not_eq_true] at hnone
  exact h hnone

omit [JsNumber N] in
theorem mem_version {kv : String × JsVal N} {d : Record N} (h : kv ∈ d) (s : String) :
    redactMember (.str s) kv ∈ version s d := List.mem_map_of_mem h

/-- A create that writes the same rows in every version is plain. -/
theorem plain_of_create (henabled : c.auditEnabled = true) {item : Record N}
    (h : ∀ m', (Mutation.create item).SameBesides m' →
      recordMutation c T m' = recordMutation c T (.create item)) :
    (Mutation.create item).Plain c.snapshotMode := by
  have hversion := fun s =>
    create_eq henabled (h (.create (version s item)) (redact_version s item))
  refine ⟨fun hmode => ?_, fun kv hkv hsystem => ?_⟩
  · refine not_leaks_of_changes "snapshot_after" (fun s => (hversion s).1) fun s => ?_
    rw [changesPayload, if_pos ((storeSnap_create _).2 hmode)]
    simp [maskedMember]
  · by_contra hplain
    have hsecret := secret_of_not_plain hplain
    obtain ⟨s, hs⟩ := exists_longer ((logCreate c item).map (·.valueTo))
    obtain ⟨t, ht, hlen⟩ := stringify_redactMember hsecret s
    have hmem := mem_logCreate (c := c) (mem_version hkv s) hsystem ht
    rw [(hversion s).2] at hmem
    have := hs t hmem
    omega

/-- An update that writes the same rows in every version is plain. -/
theorem plain_of_update (henabled : c.auditEnabled = true) {newStatus : Option String}
    {userData existing item : Record N}
    (h : ∀ m', (Mutation.update newStatus userData existing item).SameBesides m' →
      recordMutation c T m' = recordMutation c T (.update newStatus userData existing item)) :
    (Mutation.update newStatus userData existing item).Plain c.snapshotMode := by
  have hdata := fun s => (update_eq henabled (h (.update newStatus (version s userData) existing
    item) ⟨rfl, redact_version s userData, rfl, rfl⟩)).1
  have hexisting := fun s => update_eq henabled (h (.update newStatus userData (version s existing)
    item) ⟨rfl, rfl, redact_version s existing, rfl⟩)
  have hitem := fun s => update_eq henabled (h (.update newStatus userData existing
    (version s item)) ⟨rfl, rfl, rfl, redact_version s item⟩)
  refine ⟨?_, fun hmode => ⟨?_, ?_⟩, fun kv hkv hsystem => ?_⟩
  · refine not_leaks_of_changes "fields" hdata fun s => ?_
    rw [changesPayload_update]
    simp [maskedMember]
  · refine not_leaks_of_changes "snapshot_before" (fun s => (hexisting s).1) fun s => ?_
    rw [changesPayload_update, if_pos ((storeSnap_update _ _).2 hmode)]
    simp [maskedMember]
  · refine not_leaks_of_changes "snapshot_after" (fun s => (hitem s).1) fun s => ?_
    rw [changesPayload_update, if_pos ((storeSnap_update _ _).2 hmode)]
    simp [maskedMember]
  -- a secret of the new value, and one of the old value under a key that is not sensitive
  have hplain : isSensitiveKey kv.1 = false ∧ ¬HasSecret kv.2 := by
    by_contra hplain
    have hsecret := secret_of_not_plain hplain
    obtain ⟨s, hs⟩ := exists_longer (stringify ((JsVal.obj existing).getMember kv.1) ::
      (logUpdate c existing item).map (·.valueTo))
    obtain ⟨t, ht, hlen⟩ := stringify_redactMember hsecret s
    have hne : stringify ((JsVal.obj existing).getMember kv.1) ≠
        stringify (redactMember (.str s) kv).2 := by
      intro heq
      have := hs t (by rw [heq, ht]; exact List.mem_cons_self)
      omega
    have hmem := (mem_logUpdate (c := c) (mem_version hkv s) hsystem hne).1
    rw [(hitem s).2, ht] at hmem
    have := hs t (List.mem_cons_of_mem _ hmem)
    omega
  refine ⟨hplain.1, hplain.2, fun hsecret => ?_⟩
  obtain ⟨s, hs⟩ := exists_longer (stringify kv.2 ::
    (logUpdate c existing item).map (·.valueFrom))
  obtain ⟨t, ht, hlen⟩ := stringify_redactWith hsecret s
  rw [← getMember_redactWith _ _ hplain.1, redactWith_obj] at ht
  have hne : stringify ((JsVal.obj (version s existing)).getMember kv.1) ≠ stringify kv.2 := by
    intro heq
    have := hs t (by rw [← heq, version, ht]; exact List.mem_cons_self)
    omega
  have hmem := (mem_logUpdate (c := c) hkv hsystem hne).2
  rw [(hexisting s).2, version, ht] at hmem
  have := hs t (List.mem_cons_of_mem _ hmem)
  omega

/-- A create or an update writes the same audit rows in all versions of its documents exactly
where no value that is written unmasked holds a sensitive key. -/
theorem recordMutation_iff (c : AuditCall) (T : AuditTables) (m : Mutation N) :
    (∀ m', m.SameBesides m' → recordMutation c T m' = recordMutation c T m) ↔
      (c.auditEnabled = true → m.Plain c.snapshotMode) := by
  constructor
  · intro h henabled
    cases m with
    | create item => exact plain_of_create henabled h
    | update newStatus userData existing item => exact plain_of_update henabled h
  · intro h m' hversion
    by_cases henabled : c.auditEnabled = true
    · exact recordMutation_of_plain henabled hversion (h henabled)
    · cases m <;> cases m' <;> simp only [recordMutation, if_neg henabled]

end

/-! ## A password -/

/-- A create in an audited collection. -/
def passwordCall : AuditCall where
  auditEnabled := true
  snapshotMode := .full
  collectionSlug := "accounts"
  documentId := "a1"
  userId := none
  entryId := "e1"
  rowId i := toString i
  timestamp := "2026-01-01T00:00:00.000Z"

/-- The document of an account with a password. -/
def account (password : String) : Record (Option Int) := [("password", .str password)]

/-- The same create with two passwords writes two different field rows. -/
theorem passwords_are_written :
    (Mutation.create (account "old")).SameBesides (.create (account "new")) ∧
      recordMutation passwordCall ⟨[], []⟩ (.create (account "old")) ≠
        recordMutation passwordCall ⟨[], []⟩ (.create (account "new")) := by
  have hkey : isSensitiveKey "password" = true := by decide
  refine ⟨?_, fun h => ?_⟩
  · simp [Mutation.SameBesides, redact, account, redactMember, hkey]
  · have hrows := (create_eq rfl h).2
    have htexts := congrArg (List.map (·.valueTo)) hrows
    simp [logCreate, account, createdField, systemFields, JsVal.isNullish, FieldChange.row,
      stringify, JsVal.toStr] at htexts

end HeadlessErp.Audit
