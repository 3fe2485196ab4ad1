import Mathlib.Data.List.Nodup
import Mathlib.Logic.Relation
import HeadlessErp.Relations.Resolve

/-!
# Nested reads and permissions

What a read may return of related rows: those that the role's row filter admits, each with the
properties that the role may read (`Authorized`). A level of rows passes `filterLevelRbac` before it is
resolved further, so it returns more where the resolution itself attaches a property that the role may
not read, where the value of a formula has a looked-up row in it, and where the compiled row filter lets
a row through that the filter rejects. `SafeLevel` excludes these, for the levels that a read comes to
(`NextLevel`).
-/

namespace HeadlessErp

open Relation (ReflTransGen)

/-- A value is part of another one. -/
inductive JsVal.Within {N : Type} (w : JsVal N) : JsVal N → Prop where
  | refl : Within w w
  | element {x : JsVal N} {xs : List (JsVal N)} : x ∈ xs → Within w x → Within w (.arr xs)
  | member {kv : String × JsVal N} {kvs : List (String × JsVal N)} : kv ∈ kvs → Within w kv.2 →
    Within w (.obj kvs)

section
variable {N : Type} [JsNumber N] (S : ReadContext N)

namespace ReadContext

/-! ## What a role may see -/

/-- The row filter of the caller's role holds of a row. -/
def Admits (o : Origin N) : Prop :=
  filterHolds S.engine S.auth (S.rowFilter o.collection) o.row = true

/-- Every related row that a property has is one that the caller's role admits, with properties that it
may read. -/
inductive Authorized : Node N → Prop where
  | value (v : JsVal N) : Authorized (.value v)
  | computed {v : JsVal N} {looked : List (Origin N × Record N)} :
    (∀ r ∈ looked, (JsVal.obj r.2).Within v →
      S.Admits r.1 ∧ ∀ kv ∈ r.2, S.readable r.1.collection kv.1 = true) →
    Authorized (.computed v looked)
  | object {origin : Origin N} {fields : List (String × Node N)} : S.Admits origin →
    (∀ k n, Item.get? (origin, fields) k = some n → S.readable origin.collection k = true) →
    (∀ k n, Item.get? (origin, fields) k = some n → Authorized n) → Authorized (.object origin fields)
  | array {objects : List (Origin N × List (String × Node N))} : (∀ it ∈ objects, S.Admits it.1) →
    (∀ it ∈ objects, ∀ k n, Item.get? it k = some n → S.readable it.1.collection k = true) →
    (∀ it ∈ objects, ∀ k n, Item.get? it k = some n → Authorized n) → Authorized (.array objects)

/-- The properties of an object are ones that the role may read, and so is what they have. -/
def ItemAuthorized (it : Item N) : Prop :=
  ∀ k n, it.get? k = some n → S.readable it.1.collection k = true ∧ S.Authorized n

/-! ## The levels of a read -/

/-- A row that is resolved: by what selection, whether its formulas are traced, and which of its
properties the response will show. -/
structure Level (N : Type) where
  collection : EntitySchema N
  node : FieldSelection
  trace : Bool
  shown : String → Bool
  item : Item N

variable (limit : Nat)

/-- A row of a relation is attached to a row, at a property of it. -/
inductive Attaches (c : EntitySchema N) (node : FieldSelection) (it : Item N) :
    FieldDefinition N → EntitySchema N → Item N → Prop where
  | m2o {f : FieldDefinition N} {target : EntitySchema N} {fk : String} {row : Record N} :
    f.type = .m2o → S.target? f = some target → it.text? f.name = some fk →
    S.m2oTarget target fk = some row → Attaches c node it f target
      (S.objectOf target (childTargetProjection (S.targets .m2o c node) target) row)
  | o2m {f : FieldDefinition N} {target : EntitySchema N} {row : Record N} :
    f.type = .o2m → S.target? f = some target → row ∈ S.o2mRows f target (idText it) limit →
    Attaches c node it f target (S.objectOf target none row)
  | m2m {f : FieldDefinition N} {target : EntitySchema N} {row : Record N} :
    f.type = .m2m → S.target? f = some target → row ∈ S.m2mRows c target (idText it) (some limit) →
    Attaches c node it f target
      (S.objectOf target (childTargetProjection (S.targets .m2m c node) target) row)
  | table {f : FieldDefinition N} {target : EntitySchema N} {row : Record N} :
    f.type = .table → S.target? f = some target →
    row ∈ (S.childRows target (((it.get? "id").map Node.js).getD .undefined).toStr).take limit →
    Attaches c node it f target (⟨target.slug, row⟩,
      valueFields (S.decodeJsonFields target.info.schemaFields (childFields row)))

omit [JsNumber N] in
/-- A row has what an `m2a` field refers by: the column of the id, or a field of its name. -/
def HasReference (c : EntitySchema N) (it : Item N) (f : FieldDefinition N) : Prop :=
  (∃ id, it.text? (f.name ++ "_id") = some id) ∨ ∃ g ∈ c.info.schemaFields, g.name = f.name ++ "_id"

omit [JsNumber N] in
/-- A row of a collection is one that an `m2a` field may refer to. -/
def MayRefer (c : EntitySchema N) (it : Item N) (f : FieldDefinition N) (row : Record N) : Prop :=
  (∃ id, it.text? (f.name ++ "_id") = some id ∧ hasId id row = true) ∨
    ∃ g ∈ c.info.schemaFields, g.name = f.name ++ "_id"

/-- A relation that gives every row a property of its name. -/
def Extends (c : EntitySchema N) (it : Item N) (f : FieldDefinition N) : Prop :=
  match f.type with
  | .o2m | .m2m => f.isComplete = true ∧ (S.target? f).isSome
  | .table => f.relatedCollection.any (· != "") = true
  | .m2a => f.relatedCollections.isSome ∧ HasReference c it f
  | _ => False

/-- The next level: the rows of a relation that is shown, as `filterLevelRbac` leaves them. -/
inductive NextLevel (L : Level N) : Level N → Prop where
  | mk {f : FieldDefinition N} {child : FieldSelection} {target : EntitySchema N} {r : Item N} :
    f ∈ L.collection.info.schemaFields → L.node.childOf f.name = some child →
    S.Attaches limit L.collection L.node L.item f target r → L.shown f.name = true →
    child.recurses = true → S.Admits r.1 →
    NextLevel L ⟨target, child, false, child.keeps, S.applyFieldFilter r⟩

/-- The compiled row filter lets a row through only where the filter admits it. -/
def FilterSound (target : EntitySchema N) (row : Record N) : Prop :=
  ∀ ids id allowed, row.get? "id" = some (.str id) → id ∈ ids →
    S.allowedIds target ids = .ok allowed → id ∈ allowed → S.Admits ⟨target.slug, row⟩

/-- The condition on a level. The relations that are attached to its rows, and the formulas that are
computed for them, are shown only where the role may read them; no value of a formula that is shown has
a looked-up row in it that the role may not see; and the row filters of the attached rows are sound. -/
structure SafeLevel (L : Level N) : Prop where
  relations : ∀ f ∈ L.collection.info.schemaFields, (L.node.childOf f.name).isSome →
    S.Extends L.collection L.item f → L.shown f.name = true →
    S.readable L.collection.slug f.name = true
  formulas : ∀ page, L.item ∈ page →
    ∀ kv ∈ S.computeFormulas L.collection L.node L.trace page L.item, L.shown kv.1 = true →
      S.readable L.collection.slug kv.1 = true ∧ S.Authorized kv.2
  attached : ∀ f ∈ L.collection.info.schemaFields, (L.node.childOf f.name).isSome →
    L.shown f.name = true → ∀ target r, S.Attaches limit L.collection L.node L.item f target r →
      S.FilterSound target r.1.row
  referred : ∀ f ∈ L.collection.info.schemaFields, (L.node.childOf f.name).isSome →
    L.shown f.name = true → f.type = .m2a → ∀ target ∈ S.all, ∀ row ∈ S.liveRows target.slug,
      MayRefer L.collection L.item f row → S.FilterSound target row

/-- The condition on a read: every level that it comes to is safe. -/
def SafeRead (c : EntitySchema N) (selection : Option FieldSelection) (trace : Bool)
    (items : List (Item N)) : Prop :=
  ∀ node, selection = some node → ∀ it ∈ items, ∀ L,
    ReflTransGen (S.NextLevel limit) ⟨c, node, trace, S.readable c.slug, it⟩ L → S.SafeLevel limit L

/-- The `_meta` of a row that is read has only properties that the role may read. -/
def SafeMeta (it : Item N) : Prop :=
  S.readable it.1.collection "_meta" = true → ∀ s parsed, it.text? "_meta" = some s →
    S.parseJson s = some (.obj parsed) → ∀ kv ∈ parsed, S.readable it.1.collection kv.1 = true

end ReadContext

end

section
variable {N : Type} [JsNumber N] {S : ReadContext N}

theorem idText_of_text? {it : Item N} {id : String} (h : it.text? "id" = some id) :
    idText it = id := by
  unfold Item.text? at h
  unfold idText
  split at h
  · next s hs =>
    cases h
    rw [hs]
    rfl
  · cases h

namespace ReadContext

theorem readable_system {slug k : String} (h : k ∈ ["id", "created_at", "updated_at"]) :
    S.readable slug k = true := by
  unfold readable visibleFields
  split
  · cases S.fieldRestrictions slug with
    | none => rfl
    | some fields =>
      show (fields ++ ["id", "created_at", "updated_at"]).contains k = true
      rw [List.contains_iff_mem]
      exact List.mem_append_right _ h
  · rfl

/-- Without a role there is no row filter. -/
theorem admits_of_unrestricted (h : S.restricted = false) (o : Origin N) : S.Admits o := by
  have hnone : readConditions S.auth (S.rowFilter o.collection) = [] := by
    unfold restricted at h
    unfold readConditions appliedConditions
    cases hauth : S.auth with
    | none => rfl
    | some a =>
      rw [hauth] at h
      have ha : a.isAdmin = true := by simpa using h
      cases S.rowFilter o.collection with
      | none => rfl
      | some filter => simp [ha]
  unfold Admits filterHolds
  rw [hnone]

/-! ## One relation -/

variable {keep : Item N → Bool} {resolve : Item N → Except String (Item N)} {n n' : Node N}

theorem Authorized.refine (h : n.refine keep resolve = .ok n')
    (hleaf : ∀ v looked, n = .computed v looked → S.Authorized n)
    (hobj : ∀ r ∈ n.objects, keep r = true → ∀ r', resolve r = .ok r' →
      S.Admits r'.1 ∧ S.ItemAuthorized r') : S.Authorized n' := by
  cases n with
  | value v =>
    cases h
    exact .value v
  | computed v looked =>
    cases h
    exact hleaf v looked rfl
  | object origin fields =>
    simp only [Node.refine] at h
    split at h
    · next hkeep =>
      obtain ⟨r', hr', h⟩ := exists_of_bind_eq_ok h
      cases h
      obtain ⟨hadmits, hitem⟩ := hobj _ (List.mem_singleton.2 rfl) hkeep r' hr'
      exact .object hadmits (fun k n hn => (hitem k n hn).1) fun k n hn => (hitem k n hn).2
    · cases h
      exact .value _
  | array objects =>
    obtain ⟨objects', hobjects, h⟩ := exists_of_bind_eq_ok h
    cases h
    have hall : ∀ r' ∈ objects', S.Admits r'.1 ∧ S.ItemAuthorized r' := by
      intro r' hr'
      obtain ⟨r, hr, hresolve⟩ := exists_of_mem_mapM hobjects r' hr'
      obtain ⟨hr, hkeep⟩ := List.mem_filter.1 hr
      exact hobj r hr hkeep r' hresolve
    exact .array (fun r hr => (hall r hr).1) (fun r hr k n hn => ((hall r hr).2 k n hn).1)
      fun r hr k n hn => ((hall r hr).2 k n hn).2

variable {deeper : Stage N} {name : String} {target : EntitySchema N} {child : FieldSelection}
  {page : List (Item N)} {it it' : Item N}

/-- A relation that is resolved changes one property. -/
theorem recurseAndPrune_frame (h : S.recurseAndPrune deeper name target child page it = .ok it') :
    it'.1 = it.1 ∧ ∀ k, k ≠ name → it'.get? k = it.get? k := by
  unfold recurseAndPrune at h
  obtain ⟨allowed, -, h⟩ := exists_of_bind_eq_ok h
  simp only at h
  split at h
  · obtain ⟨n, -, h⟩ := exists_of_bind_eq_ok h
    cases h
    exact ⟨rfl, fun k hk => by rw [Item.get?_set, if_neg (Ne.symm hk)]⟩
  · cases h
    exact ⟨rfl, fun _ _ => rfl⟩

/-- What `filterLevelRbac` leaves of a row. -/
theorem Fetched.applyFieldFilter {r : Item N} (h : S.Fetched target r) {k : String} {n : Node N}
    (hn : (S.applyFieldFilter r).get? k = some n) :
    S.readable r.1.collection k = true ∧ S.Authorized n := by
  unfold ReadContext.applyFieldFilter at hn
  rw [Item.get?_only] at hn
  split at hn
  · next hk =>
    obtain ⟨v, rfl⟩ := h.value k n hn
    exact ⟨hk, .value v⟩
  · cases hn

/-- A relation that a row does not have is not resolved. -/
theorem recurseAndPrune_none (h : S.recurseAndPrune deeper name target child page it = .ok it')
    (hget : it.get? name = none) : it'.get? name = none := by
  unfold recurseAndPrune at h
  obtain ⟨allowed, -, h⟩ := exists_of_bind_eq_ok h
  simp only [hget] at h
  cases h
  exact hget

/-- A row that passes the row filter of its level is one that the role admits. -/
theorem admits_of_allowed {rows : List (Item N)} {allowed : Option (List String)} {r : Item N}
    (h : S.filterLevelRbac target rows = .ok allowed) (hr : r ∈ rows) (hfetched : S.Fetched target r)
    (hsound : S.FilterSound target r.1.row)
    (hkeep : (allowed.all (·.contains (idText r))) = true) : S.Admits r.1 := by
  obtain ⟨id, hrow, hne, htext⟩ := hfetched.id
  have hid : id ∈ (rows.filterMap (·.text? "id")).filter (· != "") :=
    List.mem_filter.2 ⟨List.mem_filterMap.2 ⟨r, hr, htext⟩, by simpa using hne⟩
  have horigin : r.1 = ⟨target.slug, r.1.row⟩ := by rw [← hfetched.origin]
  unfold filterLevelRbac at h
  simp only at h
  split at h
  · obtain ⟨ids, hids, h⟩ := exists_of_bind_eq_ok h
    cases h
    rw [idText_of_text? htext] at hkeep
    rw [horigin]
    exact hsound _ id ids hrow hid hids (by simpa using hkeep)
  · next hnone =>
    refine admits_of_unrestricted (Bool.eq_false_iff.2 fun hrestricted => hnone ?_) r.1
    rw [hrestricted, Bool.true_and, Bool.not_eq_true', List.isEmpty_eq_false_iff]
    exact List.ne_nil_of_mem hid

/-- What a selection keeps of an object is authorized where the object's shown properties are. -/
theorem ItemAuthorized.pruneRow {r : Item N}
    (h : ∀ k n, child.keeps k = true → r.get? k = some n →
      S.readable r.1.collection k = true ∧ S.Authorized n) :
    S.ItemAuthorized (HeadlessErp.pruneRow child r) := by
  intro k n hn
  rw [pruneRow_origin]
  obtain ⟨hkeeps, hn | ⟨rfl, rfl⟩⟩ := get?_pruneRow hn
  · exact h k n hkeeps hn
  · exact ⟨readable_system List.mem_cons_self, .value _⟩

/-- The rows of a relation that is resolved are authorized, where the level below is. -/
theorem recurseAndPrune_authorized (hit : it ∈ page)
    (h : S.recurseAndPrune deeper name target child page it = .ok it')
    (hn : it'.get? name = some n')
    (hleaf : ∀ v looked, it.get? name = some (.computed v looked) →
      S.Authorized (.computed v looked))
    (hobj : ∀ r ∈ it.objects name, S.Fetched target r ∧ S.FilterSound target r.1.row)
    (hdeep : ∀ level, ∀ r ∈ it.objects name, ∀ r', S.Admits r.1 → S.applyFieldFilter r ∈ level →
      deeper level (S.applyFieldFilter r) = .ok r' →
      r'.1 = r.1 ∧ ∀ k n, child.keeps k = true → r'.get? k = some n →
        S.readable r.1.collection k = true ∧ S.Authorized n) : S.Authorized n' := by
  unfold recurseAndPrune at h
  obtain ⟨allowed, hallowed, h⟩ := exists_of_bind_eq_ok h
  simp only at h
  split at h
  · next n hget =>
    obtain ⟨m, hm, h⟩ := exists_of_bind_eq_ok h
    cases h
    rw [Item.get?_set, if_pos rfl] at hn
    cases hn
    have hobjects : it.objects name = n.objects := by
      unfold Item.objects
      rw [hget]
      rfl
    refine .refine hm (fun v looked heq => heq ▸ hleaf v looked (heq ▸ hget)) ?_
    intro r hr hkeep r' hr'
    rw [← hobjects] at hr
    obtain ⟨hfetched, hsound⟩ := hobj r hr
    have hrows : r ∈ (page.flatMap (·.objects name)).filter (·.1.collection = target.slug) :=
      List.mem_filter.2 ⟨List.mem_flatMap.2 ⟨it, hit, hr⟩, by simpa using hfetched.origin⟩
    have hadmits := admits_of_allowed hallowed hrows hfetched hsound hkeep
    obtain ⟨row, hrow, hr'⟩ := exists_of_bind_eq_ok hr'
    cases hr'
    obtain ⟨horigin, hshown⟩ := hdeep _ r hr row hadmits
      (List.mem_map_of_mem (List.mem_filter.2 ⟨hrows, hkeep⟩)) hrow
    refine ⟨by rw [pruneRow_origin, horigin]; exact hadmits, .pruneRow ?_⟩
    rw [horigin]
    exact hshown
  · next hget =>
    cases h
    rw [hget] at hn
    cases hn

/-! ## One level -/

/-- A row as it comes to a level: nothing is attached to it, and what of it is shown the role may
read. -/
structure Level.Fresh (S : ReadContext N) (L : Level N) : Prop where
  mem : L.collection ∈ S.all
  origin : L.item.1.collection = L.collection.slug
  value : ∀ k n, L.item.get? k = some n → ∃ v, n = .value v
  readable : ∀ k n, L.shown k = true → L.item.get? k = some n →
    S.readable L.collection.slug k = true

/-- A row of a level on its way through the stages, after some of the relations. A property of another
name is as it was, or the value of a formula. -/
structure Settled (S : ReadContext N) (L : Level N) (done : List String) (it : Item N) : Prop where
  origin : it.1 = L.item.1
  id : it.get? "id" = L.item.get? "id"
  named : ∀ k ∈ done, ∃ f ∈ L.collection.info.schemaFields, f.name = k
  rest : ∀ k, k ∉ done → ∀ n, it.get? k = some n → L.item.get? k = some n ∨
    ∃ v looked, n = .computed v looked ∧
      ((∃ g ∈ L.collection.info.schemaFields, g.type = .formula ∧ g.name = k) ∨ ∀ s, v ≠ .str s)
  shows : ∀ k n, L.shown k = true → it.get? k = some n →
    S.readable L.collection.slug k = true ∧ S.Authorized n

variable {limit : Nat} {L : Level N} {done : List String} {f : FieldDefinition N}

omit [JsNumber N] in
/-- No field is called as the id is. -/
theorem name_ne_id {c : EntitySchema N} (hf : f ∈ c.info.schemaFields) : f.name ≠ "id" :=
  fun heq => c.info.fields_user f hf (heq ▸ by decide)

/-- The formulas of a safe level. -/
theorem formulaStage_settled (hfresh : L.Fresh S) (hsafe : S.SafeLevel limit L)
    (hpage : L.item ∈ page)
    (h : S.formulaStage L.collection L.node L.trace page L.item = .ok it') : Settled S L [] it' := by
  cases h
  set kvs := S.computeFormulas L.collection L.node L.trace page L.item with hkvs
  have hset (k : String) (n : Node N) := Item.get?_setAll kvs k n L.item
  refine ⟨(hset "id" (.value .null)).1, (hset "id" (.value .null)).2.1 fun n hn => ?_, nofun,
    fun k _ n hn => ?_, fun k n hk hn => ?_⟩
  · obtain ⟨v, looked, -, ⟨g, hg, -, hname⟩ | ⟨hname, -⟩⟩ := mem_computeFormulas hn
    · exact name_ne_id hg hname
    · exact absurd (show "id" = "_formula_trace" from hname) (by decide)
  · obtain hmem | hitem := (hset k n).2.2 hn
    · obtain ⟨v, looked, rfl, hg | ⟨-, hv⟩⟩ := mem_computeFormulas hmem
      · exact .inr ⟨v, looked, rfl, .inl hg⟩
      · exact .inr ⟨v, looked, rfl, .inr hv⟩
    · exact .inl hitem
  · obtain hmem | hitem := (hset k n).2.2 hn
    · exact hsafe.formulas page hpage (k, n) hmem hk
    · obtain ⟨v, rfl⟩ := hfresh.value k n hitem
      exact ⟨hfresh.readable k _ hk hitem, .value v⟩

/-- A property that no relation has set has no objects. -/
theorem Settled.objects_eq_nil (h : Settled S L done it) (hfresh : L.Fresh S) {k : String}
    (hk : k ∉ done) : it.objects k = [] := by
  unfold Item.objects
  cases hget : it.get? k with
  | none => rfl
  | some n =>
    obtain hitem | ⟨v, looked, rfl, -⟩ := h.rest k hk n hget
    · obtain ⟨v, rfl⟩ := hfresh.value k n hitem
      rfl
    · rfl

/-- A text that a property has, which is no formula's, was there when the level began. -/
theorem Settled.text? (h : Settled S L done it) {k s : String} (hk : k ∉ done)
    (hformula : ∀ g ∈ L.collection.info.schemaFields, g.type = .formula → g.name ≠ k)
    (htext : it.text? k = some s) : L.item.text? k = some s := by
  unfold Item.text? at htext ⊢
  split at htext
  · next t ht =>
    cases htext
    obtain ⟨n, hn, hjs⟩ := Option.map_eq_some_iff.1 ht
    obtain hitem | ⟨v, looked, rfl, ⟨g, hg, htype, hname⟩ | hv⟩ := h.rest k hk n hn
    · rw [hitem, Option.map_some, hjs]
    · exact absurd hname (hformula g hg htype)
    · exact absurd hjs (hv _)
  · cases htext

/-- A step for one relation: it sets one property, and may drop others. -/
theorem Settled.of_get? (hs : Settled S L done it) (hf : f ∈ L.collection.info.schemaFields)
    (horigin : it'.1 = it.1) (hid : it'.get? "id" = it.get? "id")
    (hrest : ∀ k, k ≠ f.name → ∀ n, it'.get? k = some n → it.get? k = some n)
    (hshows : ∀ n, L.shown f.name = true → it'.get? f.name = some n →
      S.readable L.collection.slug f.name = true ∧ S.Authorized n) :
    Settled S L (f.name :: done) it' where
  origin := horigin.trans hs.origin
  id := hid.trans hs.id
  named k hk := by
    obtain rfl | hk := List.mem_cons.1 hk
    · exact ⟨f, hf, rfl⟩
    · exact hs.named k hk
  rest k hk n hn := by
    obtain ⟨hne, hk⟩ := not_or.1 (mt List.mem_cons.2 hk)
    exact hs.rest k hk n (hrest k hne n hn)
  shows k n hk hn := by
    by_cases hne : k = f.name
    · subst hne
      exact hshows n hk hn
    · exact hs.shows k n hk (hrest k hne n hn)

omit [JsNumber N] in
/-- The names of the fields of a collection are distinct. -/
theorem eq_of_name {c : EntitySchema N} (hc : c ∈ S.all) {f g : FieldDefinition N}
    (hf : f ∈ c.info.schemaFields) (hg : g ∈ c.info.schemaFields) (h : f.name = g.name) : f = g :=
  List.inj_on_of_nodup_map (S.names_nodup c hc) hf hg h

/-- The stages of a relation of one collection. -/
theorem Settled.relationStage {deeper : EntitySchema N → FieldSelection → Stage N}
    {attach : List (Item N) → Item N → Item N} (hs : Settled S L done it) (hfresh : L.Fresh S)
    (hpage : it ∈ page) (hf : f ∈ L.collection.info.schemaFields) (hdone : f.name ∉ done)
    (hsound : L.shown f.name = true → ∀ r, S.Attaches limit L.collection L.node L.item f target r →
      S.FilterSound target r.1.row)
    (hattach : attach page it = it ∨ ∃ n, attach page it = it.set f.name n ∧
      (L.shown f.name = true → S.readable L.collection.slug f.name = true) ∧
      (∀ v looked, n ≠ .computed v looked) ∧ ∀ r ∈ n.objects, S.Fetched target r ∧
        S.Attaches limit L.collection L.node L.item f target r)
    (hdeeper : ∀ level r r', L.shown f.name = true → S.Fetched target r →
      S.Attaches limit L.collection L.node L.item f target r → S.Admits r.1 →
      S.applyFieldFilter r ∈ level →
      (if child.recurses then deeper target child else fun _ it => .ok it) level
        (S.applyFieldFilter r) = .ok r' →
      r'.1 = r.1 ∧ ∀ k n, child.keeps k = true → r'.get? k = some n →
        S.readable r.1.collection k = true ∧ S.Authorized n)
    (h : S.relationStage deeper attach f child target page it = .ok it') :
    Settled S L (f.name :: done) it' := by
  unfold ReadContext.relationStage at h
  simp only [Stage.seq] at h
  obtain ⟨page₁, hpage₁, h⟩ := exists_of_bind_eq_ok h
  obtain ⟨it₁, hit₁, h⟩ := exists_of_bind_eq_ok h
  obtain ⟨-, -, h⟩ := exists_of_bind_eq_ok h
  obtain ⟨it₂, hit₂, h⟩ := exists_of_bind_eq_ok h
  cases h
  have hmem : it₁ ∈ page₁ := mem_of_mapM_eq_ok hpage₁ hpage hit₁
  cases hit₁
  have hother : (attach page it).1 = it.1 ∧
      ∀ k, k ≠ f.name → (attach page it).get? k = it.get? k := by
    obtain heq | ⟨n, heq, -⟩ := hattach
    · rw [heq]
      exact ⟨rfl, fun _ _ => rfl⟩
    · rw [heq]
      exact ⟨rfl, fun k hk => by rw [Item.get?_set, if_neg (Ne.symm hk)]⟩
  obtain ⟨horigin, hframe⟩ := recurseAndPrune_frame hit₂
  have hget (k : String) (hk : k ≠ f.name) : it'.get? k = it.get? k :=
    (hframe k hk).trans (hother.2 k hk)
  refine hs.of_get? hf (horigin.trans hother.1) (hget "id" (Ne.symm (name_ne_id hf)))
    (fun k hk n hn => hget k hk ▸ hn) fun n hk hn => ?_
  have hobj : ∀ r ∈ (attach page it).objects f.name, S.Fetched target r ∧
      S.Attaches limit L.collection L.node L.item f target r := by
    obtain heq | ⟨n, heq, -, -, hobj⟩ := hattach
    · rw [heq, hs.objects_eq_nil hfresh hdone]
      exact fun r hr => absurd hr List.not_mem_nil
    · have hn : (attach page it).objects f.name = n.objects := by
        rw [heq, Item.objects, Item.get?_set, if_pos rfl]
        rfl
      rw [hn]
      exact hobj
  refine ⟨?_, recurseAndPrune_authorized hmem hit₂ hn (fun v looked hv => ?_)
    (fun r hr => ⟨(hobj r hr).1, hsound hk r (hobj r hr).2⟩) fun level r hr r' hadmits hlevel =>
      hdeeper level r r' hk (hobj r hr).1 (hobj r hr).2 hadmits hlevel⟩
  · obtain heq | ⟨n, -, hread, -⟩ := hattach
    · -- nothing was attached: the property was there
      rw [heq] at hit₂
      cases hit : it.get? f.name with
      | some m => exact (hs.shows f.name m hk hit).1
      | none =>
        rw [recurseAndPrune_none hit₂ hit] at hn
        cases hn
    · exact hread hk
  · obtain heq | ⟨n, heq, -, hne, -⟩ := hattach
    · rw [heq] at hv
      exact (hs.shows f.name _ hk hv).2
    · rw [heq, Item.get?_set, if_pos rfl] at hv
      exact absurd (Option.some.inj hv) (hne v looked)

omit [JsNumber N] in
theorem exists_of_text? {k s : String} (h : it.text? k = some s) : ∃ n, it.get? k = some n := by
  unfold Item.text? at h
  split at h
  · next ht =>
    obtain ⟨n, hn, -⟩ := Option.map_eq_some_iff.1 ht
    exact ⟨n, hn⟩
  · cases h

/-- The row that an `m2o` field attaches. -/
theorem Settled.resolveM2O (hs : Settled S L done it) (hfresh : L.Fresh S)
    (hf : f ∈ L.collection.info.schemaFields) (hdone : f.name ∉ done) (htype : f.type = .m2o)
    (htarget : S.target? f = some target) :
    let columns := childTargetProjection (S.targets .m2o L.collection L.node) target
    S.resolveM2O columns f target it = it ∨ ∃ n, S.resolveM2O columns f target it = it.set f.name n ∧
      (L.shown f.name = true → S.readable L.collection.slug f.name = true) ∧
      (∀ v looked, n ≠ .computed v looked) ∧ ∀ r ∈ n.objects, S.Fetched target r ∧
        S.Attaches limit L.collection L.node L.item f target r := by
  intro columns
  unfold ReadContext.resolveM2O
  split
  · next fk hfk =>
    have htext : L.item.text? f.name = some fk := by
      refine hs.text? hdone (fun g hg hformula hname => ?_) hfk
      obtain rfl := eq_of_name hfresh.mem hg hf hname
      rw [hformula] at htype
      cases htype
    obtain ⟨n, hn⟩ := exists_of_text? htext
    refine .inr ⟨_, rfl, fun hk => hfresh.readable f.name n hk hn, ?_, ?_⟩
    · intro v looked
      split <;> nofun
    · intro r hr
      split at hr
      · next row hrow =>
        obtain rfl := List.mem_singleton.1 hr
        exact ⟨objectOf_fetched (hasId_childTargetProjection _ _) (mem_of_m2oTarget hrow),
          .m2o htype htarget htext hrow⟩
      · cases hr
  · exact .inl rfl

theorem Settled.idText (hs : Settled S L done it) : idText it = idText L.item := by
  unfold HeadlessErp.idText
  rw [hs.id]

/-- The rows that a relation of several rows attaches. -/
theorem Settled.resolveArray (hs : Settled S L done it) {rows : String → List (Item N)}
    (hread : L.shown f.name = true → S.readable L.collection.slug f.name = true)
    (hrows : ∀ r ∈ rows (HeadlessErp.idText L.item), S.Fetched target r ∧
      S.Attaches limit L.collection L.node L.item f target r) :
    resolveArray rows f.name page it = it ∨ ∃ n, resolveArray rows f.name page it = it.set f.name n ∧
      (L.shown f.name = true → S.readable L.collection.slug f.name = true) ∧
      (∀ v looked, n ≠ .computed v looked) ∧ ∀ r ∈ n.objects, S.Fetched target r ∧
        S.Attaches limit L.collection L.node L.item f target r := by
  unfold ReadContext.resolveArray
  simp only
  split
  · exact .inl rfl
  · refine .inr ⟨_, rfl, hread, nofun, fun r hr => ?_⟩
    rw [hs.idText] at hr
    unfold Node.objects at hr
    simp only at hr
    split at hr
    · exact hrows r hr
    · cases hr

/-- The rows that a child table attaches. -/
theorem Settled.resolveChildTable (hs : Settled S L done it) (htype : f.type = .table)
    (htarget : S.target? f = some target)
    (hread : L.shown f.name = true → S.readable L.collection.slug f.name = true) :
    ∃ n, S.resolveChildTable limit f (some target) it = it.set f.name n ∧
      (L.shown f.name = true → S.readable L.collection.slug f.name = true) ∧
      (∀ v looked, n ≠ .computed v looked) ∧ ∀ r ∈ n.objects, S.Fetched target r ∧
        S.Attaches limit L.collection L.node L.item f target r := by
  refine ⟨_, rfl, hread, nofun, fun r hr => ?_⟩
  rw [hs.id] at hr
  obtain ⟨row, hrow, rfl⟩ := List.mem_map.1 hr
  refine ⟨.of_id (mem_of_childRows (List.mem_of_mem_take hrow)) ?_, .table htype htarget hrow⟩
  rw [get?_decodeJsonFields_id, childFields,
    Record.get?_filter fun k => ! ["parent_id", "deleted_at", "_meta", "_ct_rn"].contains k]
  rfl

theorem m2aObject_fetched {row : Record N} (h : row ∈ S.liveRows target.slug) :
    ∃ r : Item N, S.m2aObject target row = .object r.1 r.2 ∧ r.1.row = row ∧ S.Fetched target r := by
  refine ⟨_, rfl, rfl, .of_id (mem_of_liveRows h) ?_⟩
  obtain ⟨id, hid, -⟩ := S.id_text target.slug row (mem_of_liveRows h)
  rw [get?_decodeJsonFields_id, Record.get?_set, if_neg (by decide), get?_mergeRowData_id]
  rw [hid]
  rfl

omit [JsNumber N] in
/-- What the lookup of an `m2a` field has is a live row of its collection. -/
theorem mem_m2aLookup {row : Record N} (h : (target, row) ∈ S.m2aLookup f page) :
    S.collection? target.slug = some target ∧ target ∈ S.all ∧ row ∈ S.liveRows target.slug := by
  obtain ⟨target', htarget', hrow⟩ := List.mem_flatMap.1 h
  obtain ⟨row', hrow', heq⟩ := List.mem_map.1 hrow
  cases heq
  obtain ⟨slug, -, hslug⟩ := List.mem_filterMap.1 htarget'
  obtain ⟨hmem, rfl⟩ := slug_of_collection? hslug
  exact ⟨hslug, hmem, (List.mem_filter.1 hrow').1⟩

/-- The columns of an `m2a` field are not the field itself, and none is the id. -/
theorem append_ne (name : String) :
    (name ++ "_id" ≠ name ∧ name ++ "_type" ≠ name) ∧ name ++ "_id" ≠ "id" ∧ name ++ "_type" ≠ "id" := by
  have hid := String.length_append name "_id"
  have htype := String.length_append name "_type"
  have hlen : "_id".length = 3 ∧ "_type".length = 5 ∧ "id".length = 2 := by decide
  refine ⟨⟨fun h => ?_, fun h => ?_⟩, fun h => ?_, fun h => ?_⟩ <;>
    · have := congrArg String.length h
      omega

/-- A field whose id a row has at an `m2a` field's step had it when the level began, or another field
is called so. -/
theorem Settled.text?_or (hs : Settled S L done it) {k s : String} (h : it.text? k = some s) :
    L.item.text? k = some s ∨ ∃ g ∈ L.collection.info.schemaFields, g.name = k := by
  by_cases hname : ∃ g ∈ L.collection.info.schemaFields, g.name = k
  · exact .inr hname
  · refine .inl (hs.text? (fun hk => hname (hs.named k hk)) (fun g hg _ heq => ?_) h)
    exact hname ⟨g, hg, heq⟩

/-- What an `m2a` field does to a row that refers: the field is set, and its columns are dropped. -/
structure Refers (f : FieldDefinition N) (id : String) (n : Node N) (it it' : Item N) : Prop where
  origin : it'.1 = it.1
  reference : it.text? (f.name ++ "_id") = some id
  self : it'.get? f.name = some n
  id : it'.get? "id" = it.get? "id"
  rest : ∀ k, k ≠ f.name → ∀ m, it'.get? k = some m → it.get? k = some m

omit [JsNumber N] in
theorem Refers.set {c : EntitySchema N} (hf : f ∈ c.info.schemaFields) {id : String}
    (hid : it.text? (f.name ++ "_id") = some id) (n : Node N) :
    Refers f id n it (((it.set f.name n).erase (f.name ++ "_id")).erase (f.name ++ "_type")) := by
  obtain ⟨⟨hneId, hneType⟩, hidId, hidType⟩ := append_ne f.name
  refine ⟨rfl, hid, ?_, ?_, fun k hk m hm => ?_⟩
  · rw [Item.get?_erase, if_neg hneType, Item.get?_erase, if_neg hneId, Item.get?_set, if_pos rfl]
  · rw [Item.get?_erase, if_neg hidType, Item.get?_erase, if_neg hidId, Item.get?_set,
      if_neg (name_ne_id hf)]
  · rw [Item.get?_erase] at hm
    split at hm
    · cases hm
    · rw [Item.get?_erase] at hm
      split at hm
      · cases hm
      · rwa [Item.get?_set, if_neg (Ne.symm hk)] at hm

/-- An `m2a` field that a row refers by is `null` or a live row with the id; else the row is left as it
is. -/
theorem resolveM2A_cases (page : List (Item N)) (it : Item N) {c : EntitySchema N}
    (hf : f ∈ c.info.schemaFields) :
    S.resolveM2A f page it = it ∨ ∃ id n, Refers f id n it (S.resolveM2A f page it) ∧
      (n = .value .null ∨ ∃ target row, n = S.m2aObject target row ∧ hasId id row = true ∧
        S.collection? target.slug = some target ∧ target ∈ S.all ∧ row ∈ S.liveRows target.slug) := by
  unfold resolveM2A
  split
  · exact .inl rfl
  · split
    · next id hid =>
      refine .inr ⟨id, _, .set hf hid _, ?_⟩
      split
      · next target row hfind =>
        obtain ⟨hcollection, hall, hlive⟩ :=
          mem_m2aLookup (List.mem_reverse.1 (List.mem_of_find?_eq_some hfind))
        have hrow : hasId id row = true := by simpa using List.find?_some hfind
        exact .inr ⟨target, row, rfl, hrow, hcollection, hall, hlive⟩
      · exact .inl rfl
    · exact .inl rfl

/-- The filter of `m2a` rows changes one property. -/
theorem pruneM2A_frame (h : S.pruneM2A f child page it = .ok it') :
    it'.1 = it.1 ∧ ∀ k, k ≠ f.name → it'.get? k = it.get? k := by
  unfold pruneM2A at h
  split at h
  · split at h
    · exact recurseAndPrune_frame h
    · cases h
      exact ⟨rfl, fun _ _ => rfl⟩
  · cases h
    exact ⟨rfl, fun _ _ => rfl⟩

/-- A row without the objects of an `m2a` field is left as it is. -/
theorem pruneM2A_of_objects (h : S.pruneM2A f child page it = .ok it') (hnil : it.objects f.name = []) :
    it' = it := by
  unfold pruneM2A at h
  split at h
  · next origin fields hget =>
    rw [Item.objects, hget] at hnil
    cases hnil
  · cases h
    rfl

/-- The row of an `m2a` field is authorized once it is filtered. -/
theorem pruneM2A_authorized {row : Record N} (hpage : it ∈ page)
    (h : S.pruneM2A f child page it = .ok it') (hget : it.get? f.name = some (S.m2aObject target row))
    (hcollection : S.collection? target.slug = some target) (hlive : row ∈ S.liveRows target.slug)
    (hsound : S.FilterSound target row) (hn : it'.get? f.name = some n) : S.Authorized n := by
  obtain ⟨r, hobject, hrow, hfetched⟩ := m2aObject_fetched hlive
  rw [hobject] at hget
  have hobjects : it.objects f.name = [r] := by
    rw [Item.objects, hget]
    rfl
  have hslug : S.collection? r.1.collection = some target := by rw [hfetched.origin, hcollection]
  unfold pruneM2A at h
  rw [hget] at h
  simp only [hslug] at h
  refine recurseAndPrune_authorized hpage h hn (fun v looked hv => ?_) (fun r' hr' => ?_)
    fun level r' hr' r'' hadmits hlevel hr'' => ?_
  · rw [hget] at hv
    cases hv
  · rw [hobjects] at hr'
    obtain rfl := List.mem_singleton.1 hr'
    exact ⟨hfetched, hrow ▸ hsound⟩
  · rw [hobjects] at hr'
    obtain rfl := List.mem_singleton.1 hr'
    cases hr''
    exact ⟨rfl, fun k m _ hm => hfetched.applyFieldFilter hm⟩

/-- The stages of an `m2a` field. -/
theorem Settled.m2aStage (hs : Settled S L done it) (hfresh : L.Fresh S) (hpage : it ∈ page)
    (hf : f ∈ L.collection.info.schemaFields) (hdone : f.name ∉ done)
    (hread : HasReference L.collection L.item f → L.shown f.name = true →
      S.readable L.collection.slug f.name = true)
    (hsound : L.shown f.name = true → ∀ target ∈ S.all, ∀ row ∈ S.liveRows target.slug,
      MayRefer L.collection L.item f row → S.FilterSound target row)
    (h : Stage.seq [fun page it => .ok (S.resolveM2A f page it), S.pruneM2A f child] page it =
      .ok it') : Settled S L (f.name :: done) it' := by
  simp only [Stage.seq] at h
  obtain ⟨page₁, hpage₁, h⟩ := exists_of_bind_eq_ok h
  obtain ⟨it₁, hit₁, h⟩ := exists_of_bind_eq_ok h
  obtain ⟨-, -, h⟩ := exists_of_bind_eq_ok h
  obtain ⟨it₂, hit₂, h⟩ := exists_of_bind_eq_ok h
  cases h
  have hmem : it₁ ∈ page₁ := mem_of_mapM_eq_ok hpage₁ hpage hit₁
  obtain rfl := Except.ok.inj hit₁
  obtain heq | ⟨id, n, hrefers, hn⟩ := resolveM2A_cases (S := S) page it hf
  · -- a row without a reference is left as it is
    rw [heq] at hit₂
    obtain rfl := pruneM2A_of_objects hit₂ (hs.objects_eq_nil hfresh hdone)
    exact hs.of_get? hf rfl rfl (fun _ _ _ hn => hn) fun n hk hn => hs.shows f.name n hk hn
  obtain ⟨horigin, hframe⟩ := pruneM2A_frame hit₂
  have hreference := hs.text?_or hrefers.reference
  refine hs.of_get? hf (horigin.trans hrefers.origin)
    ((hframe "id" (Ne.symm (name_ne_id hf))).trans hrefers.id)
    (fun k hk m hm => hrefers.rest k hk m (hframe k hk ▸ hm)) fun m hk hm => ⟨?_, ?_⟩
  · exact hread (hreference.imp_left fun h => ⟨id, h⟩) hk
  · obtain rfl | ⟨target, row, rfl, hid, hcollection, hall, hlive⟩ := hn
    · have hnil : (S.resolveM2A f page it).objects f.name = [] := by
        rw [Item.objects, hrefers.self]
        rfl
      rw [pruneM2A_of_objects hit₂ hnil, hrefers.self] at hm
      obtain rfl := Option.some.inj hm
      exact .value .null
    · exact pruneM2A_authorized hmem hit₂ hrefers.self hcollection hlive
        (hsound hk target hall row hlive (hreference.imp_left fun h => ⟨id, h, hid⟩)) hm

end ReadContext

end

end HeadlessErp
