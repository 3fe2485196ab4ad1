import HeadlessErp.Relations.Authorized

/-!
# Nested levels

A whole level, and the levels below it: a stage of a level keeps what is shown authorized, for each
kind of relation (`Settled.fieldStage`); a level is then an induction on its stages, and a read one on
its levels (`resolveLevel_settled`).
-/

namespace HeadlessErp

open Relation (ReflTransGen)

section
variable {N : Type} [JsNumber N] {S : ReadContext N}

namespace ReadContext

variable {limit : Nat} {L : Level N} {done : List String} {f : FieldDefinition N}
  {target : EntitySchema N} {child : FieldSelection} {page : List (Item N)} {it it' : Item N}
  {deeper : EntitySchema N → FieldSelection → Stage N} {stage : Stage N}

/-! ## One relation -/

/-- What the levels below a row return is authorized, where it is shown. -/
def DeeperAuthorized (S : ReadContext N) (limit : Nat)
    (deeper : EntitySchema N → FieldSelection → Stage N) (L : Level N) : Prop :=
  ∀ M, S.NextLevel limit L M → M.Fresh S → ∀ page it', M.item ∈ page →
    deeper M.collection M.node page M.item = .ok it' →
    it'.1 = M.item.1 ∧ ∀ k n, M.shown k = true → it'.get? k = some n →
      S.readable M.collection.slug k = true ∧ S.Authorized n

/-- A row of a relation, once it is filtered. -/
theorem Fetched.fresh {r : Item N} (hr : S.Fetched target r) (hmem : target ∈ S.all)
    (node : FieldSelection) (trace : Bool) (shown : String → Bool) :
    (⟨target, node, trace, shown, S.applyFieldFilter r⟩ : Level N).Fresh S := by
  refine ⟨hmem, hr.origin, fun k n hn => ?_, fun k n _ hn => ?_⟩
  · simp only [ReadContext.applyFieldFilter, Item.get?_only] at hn
    split at hn
    · exact hr.value k n hn
    · cases hn
  · exact hr.origin ▸ (hr.applyFieldFilter hn).1

/-- The relation of a field, with what is below it. -/
structure Expanded (S : ReadContext N) (L : Level N) (f : FieldDefinition N) (child : FieldSelection)
    (target : EntitySchema N) : Prop where
  mem : f ∈ L.collection.info.schemaFields
  child : L.node.childOf f.name = some child
  target : S.target? f = some target

/-- A relation of a level, whatever its kind. -/
theorem Settled.relation {attach : List (Item N) → Item N → Item N} (hs : Settled S L done it)
    (hfresh : L.Fresh S) (hsafe : S.SafeLevel limit L) (hpage : it ∈ page)
    (he : Expanded S L f child target) (hdone : f.name ∉ done)
    (hattach : attach page it = it ∨ ∃ n, attach page it = it.set f.name n ∧
      (L.shown f.name = true → S.readable L.collection.slug f.name = true) ∧
      (∀ v looked, n ≠ .computed v looked) ∧ ∀ r ∈ n.objects, S.Fetched target r ∧
        S.Attaches limit L.collection L.node L.item f target r)
    (hdeeper : DeeperAuthorized S limit deeper L)
    (h : S.relationStage deeper attach f child target page it = .ok it') :
    Settled S L (f.name :: done) it' := by
  have hisSome : (L.node.childOf f.name).isSome := Option.isSome_of_eq_some he.child
  refine hs.relationStage hfresh hpage he.mem hdone
    (fun hk r hr => hsafe.attached f he.mem hisSome hk target r hr) hattach ?_ h
  intro level r r' hk hfetched hattaches hadmits hlevel hr'
  split at hr'
  · next hrecurses =>
    have hfresh' := hfetched.fresh (mem_of_target? he.target) child false child.keeps
    obtain ⟨horigin, hshown⟩ := hdeeper _ (.mk he.mem he.child hattaches hk hrecurses hadmits) hfresh'
      level r' hlevel hr'
    exact ⟨horigin, fun k n hkeeps hn => hfetched.origin ▸ hshown k n hkeeps hn⟩
  · obtain rfl := Except.ok.inj hr'
    exact ⟨rfl, fun k n _ hn => hfetched.applyFieldFilter hn⟩

/-- A relation that is expanded, of any kind. -/
theorem Settled.fieldStage (hs : Settled S L done it) (hfresh : L.Fresh S)
    (hsafe : S.SafeLevel limit L) (hpage : it ∈ page) (hf : f ∈ L.collection.info.schemaFields)
    (hchild : L.node.childOf f.name = some child) (hdone : f.name ∉ done)
    (hdeeper : DeeperAuthorized S limit deeper L)
    (hstage : S.fieldStage limit L.collection L.node deeper f child = some stage)
    (h : stage page it = .ok it') : Settled S L (f.name :: done) it' := by
  have hisSome : (L.node.childOf f.name).isSome := Option.isSome_of_eq_some hchild
  have hread (hextends : S.Extends L.collection L.item f) (hk : L.shown f.name = true) :
      S.readable L.collection.slug f.name = true := hsafe.relations f hf hisSome hextends hk
  unfold ReadContext.fieldStage at hstage
  simp only at hstage
  split at hstage
  · next htype =>
    obtain ⟨target, htarget, rfl⟩ := Option.map_eq_some_iff.1 hstage
    rw [htype] at h
    exact hs.relation hfresh hsafe hpage ⟨hf, hchild, htarget⟩ hdone
      (hs.resolveM2O hfresh hf hdone htype htarget) hdeeper h
  · next htype =>
    split at hstage
    · next hcomplete =>
      obtain ⟨target, htarget, rfl⟩ := Option.map_eq_some_iff.1 hstage
      refine hs.relation hfresh hsafe hpage ⟨hf, hchild, htarget⟩ hdone
        (hs.resolveArray (hread ?_) fun r hr => ?_) hdeeper h
      · unfold Extends
        rw [htype]
        exact ⟨hcomplete, Option.isSome_of_eq_some htarget⟩
      · obtain ⟨row, hrow, rfl⟩ := List.mem_map.1 hr
        exact ⟨objectOf_fetched (fun _ h => nomatch h) (mem_of_o2mRows hrow),
          .o2m htype htarget hrow⟩
    · cases hstage
  · next htype =>
    obtain ⟨target, htarget, rfl⟩ := Option.map_eq_some_iff.1 hstage
    rw [htype] at h
    refine hs.relation hfresh hsafe hpage ⟨hf, hchild, htarget⟩ hdone
      (hs.resolveArray (hread ?_) fun r hr => ?_) hdeeper h
    · unfold Extends
      rw [htype]
      refine ⟨?_, Option.isSome_of_eq_some htarget⟩
      rw [FieldDefinition.isComplete, htype]
      rfl
    · obtain ⟨row, hrow, rfl⟩ := List.mem_map.1 hr
      exact ⟨objectOf_fetched (hasId_childTargetProjection _ _) (mem_of_m2mRows hrow),
        .m2m htype htarget hrow⟩
  · next htype =>
    split at hstage
    · next hcollections =>
      obtain rfl := Option.some.inj hstage
      refine hs.m2aStage hfresh hpage hf hdone (fun href => hread ?_) (fun hk => ?_) h
      · unfold Extends
        rw [htype]
        exact ⟨hcollections, href⟩
      · exact hsafe.referred f hf hisSome hk htype
    · cases hstage
  · next htype =>
    split at hstage
    · next hrelated =>
      have hextends : S.Extends L.collection L.item f := by
        unfold Extends
        rw [htype]
        exact hrelated
      obtain rfl := Option.some.inj hstage
      cases htarget : S.target? f with
      | some target =>
        rw [htarget] at h
        exact hs.relation hfresh hsafe hpage ⟨hf, hchild, htarget⟩ hdone
          (.inr (hs.resolveChildTable htype htarget (hread hextends))) hdeeper h
      | none =>
        rw [htarget] at h
        obtain rfl := Except.ok.inj h
        unfold ReadContext.resolveChildTable
        refine hs.of_get? hf rfl ?_ (fun k hk n hn => ?_) fun n hk hn => ⟨hread hextends hk, ?_⟩
        · rw [Item.get?_set, if_neg (name_ne_id hf)]
        · rwa [Item.get?_set, if_neg (Ne.symm hk)] at hn
        · rw [Item.get?_set, if_pos rfl] at hn
          obtain rfl := Option.some.inj hn
          exact .array nofun nofun nofun
    · cases hstage
  · cases hstage

/-! ## A level -/

omit [JsNumber N] in
/-- The relations of a collection are named once. -/
theorem nodup_relationFields {c : EntitySchema N} (hc : c ∈ S.all) :
    ((relationFields c).map (·.name)).Nodup := by
  have hfields := S.names_nodup c hc
  refine List.Nodup.map_on (fun f hf g hg hname => ?_) ?_
  · obtain ⟨_, -, hf⟩ := List.mem_flatMap.1 hf
    obtain ⟨_, -, hg⟩ := List.mem_flatMap.1 hg
    exact eq_of_name hc (List.mem_filter.1 hf).1 (List.mem_filter.1 hg).1 hname
  · refine List.nodup_flatMap.2 ⟨fun type _ => hfields.of_map.filter _, ?_⟩
    refine List.Pairwise.imp (R := (· ≠ ·)) ?_ (by decide)
    intro type type' hne f hf hf'
    have htype : f.type = type := by simpa using (List.mem_filter.1 hf).2
    have htype' : f.type = type' := by simpa using (List.mem_filter.1 hf').2
    exact hne (htype.symm.trans htype')

/-- The relations of a level, one after the other. -/
theorem Settled.stages (hfresh : L.Fresh S) (hsafe : S.SafeLevel limit L)
    (hdeeper : DeeperAuthorized S limit deeper L) {l : List (FieldDefinition N)}
    (hl : ∀ f ∈ l, f ∈ L.collection.info.schemaFields) (hnames : (l.map (·.name)).Nodup)
    (hdone : ∀ f ∈ l, f.name ∉ done) (hs : Settled S L done it) (hpage : it ∈ page)
    (h : Stage.seq (l.filterMap fun f => (L.node.childOf f.name).bind
      (S.fieldStage limit L.collection L.node deeper f)) page it = .ok it') :
    ∃ done, Settled S L done it' := by
  induction l generalizing done page it with
  | nil =>
    obtain rfl := Except.ok.inj h
    exact ⟨done, hs⟩
  | cons f l ih =>
    obtain ⟨hf, hl⟩ := List.forall_mem_cons.1 hl
    obtain ⟨hfdone, hdone⟩ := List.forall_mem_cons.1 hdone
    obtain ⟨hname, hnames⟩ := List.nodup_cons.1 hnames
    rw [List.filterMap_cons] at h
    split at h
    · exact ih hl hnames hdone hs hpage h
    · next stage hstage =>
      obtain ⟨child, hchild, hstage⟩ := Option.bind_eq_some_iff.1 hstage
      obtain ⟨page₁, hpage₁, h⟩ := exists_of_bind_eq_ok h
      obtain ⟨it₁, hit₁, h⟩ := exists_of_bind_eq_ok h
      have hs₁ := hs.fieldStage hfresh hsafe hpage hf hchild hfdone hdeeper hstage hit₁
      refine ih hl hnames (fun g hg hmem => ?_) hs₁ (mem_of_mapM_eq_ok hpage₁ hpage hit₁) h
      obtain heq | hmem := List.mem_cons.1 hmem
      · exact hname (List.mem_map.2 ⟨g, hg, heq⟩)
      · exact hdone g hg hmem

/-- A level, once its formulas and its relations are resolved. -/
theorem level_settled (hfresh : L.Fresh S) (hsafe : S.SafeLevel limit L)
    (hdeeper : DeeperAuthorized S limit deeper L) (hpage : L.item ∈ page)
    (h : Stage.seq (S.levelStages limit L.collection L.node L.trace deeper) page L.item = .ok it') :
    ∃ done, Settled S L done it' := by
  obtain ⟨page₁, hpage₁, h⟩ := exists_of_bind_eq_ok h
  obtain ⟨it₁, hit₁, h⟩ := exists_of_bind_eq_ok h
  have hmem : ∀ f ∈ relationFields L.collection, f ∈ L.collection.info.schemaFields := by
    intro f hf
    obtain ⟨_, -, hf⟩ := List.mem_flatMap.1 hf
    exact (List.mem_filter.1 hf).1
  exact Settled.stages hfresh hsafe hdeeper hmem (nodup_relationFields hfresh.mem)
    (fun _ _ => List.not_mem_nil) (formulaStage_settled hfresh hsafe hpage hit₁)
    (mem_of_mapM_eq_ok hpage₁ hpage hit₁) h

/-- A row whose levels are safe, at any depth. -/
theorem resolveLevel_settled (depth : Nat) (hfresh : L.Fresh S)
    (hsafe : ∀ M, ReflTransGen (S.NextLevel limit) L M → S.SafeLevel limit M) (hpage : L.item ∈ page)
    (h : S.resolveLevel limit depth L.trace L.collection L.node page L.item = .ok it') :
    ∃ done, Settled S L done it' := by
  induction depth generalizing L page it' with
  | zero =>
    obtain rfl := Except.ok.inj h
    refine ⟨[], rfl, rfl, nofun, fun k _ n hn => .inl hn, fun k n hk hn => ?_⟩
    obtain ⟨v, rfl⟩ := hfresh.value k n hn
    exact ⟨hfresh.readable k _ hk hn, .value v⟩
  | succ depth ih =>
    refine level_settled hfresh (hsafe L .refl) (fun M hnext hfresh' page it' hpage h => ?_) hpage h
    have htrace : M.trace = false := by
      cases hnext
      rfl
    rw [← htrace] at h
    obtain ⟨done, hs⟩ := ih hfresh' (fun M' hM' => hsafe M' (.head hnext hM')) hpage h
    exact ⟨hs.origin, hs.shows⟩

/-! ## Reads -/

theorem Authorized.objects {n : Node N} (h : S.Authorized n) {r : Item N} (hr : r ∈ n.objects) :
    S.Admits r.1 ∧ S.ItemAuthorized r := by
  cases h with
  | value => cases hr
  | computed => cases hr
  | object hadmits hread hauth =>
    obtain rfl := List.mem_singleton.1 hr
    exact ⟨hadmits, fun k n hn => ⟨hread k n hn, hauth k n hn⟩⟩
  | array hadmits hread hauth =>
    exact ⟨hadmits r hr, fun k n hn => ⟨hread r hr k n hn, hauth r hr k n hn⟩⟩

/-- A row of a read, once its relations are resolved: it has its `_meta` still, and what the role may
read of it is authorized. -/
structure Resolved (S : ReadContext N) (it it' : Item N) : Prop where
  origin : it'.1 = it.1
  metaText : ∀ s, it'.text? "_meta" = some s → it.text? "_meta" = some s
  shows : ∀ k n, S.readable it.1.collection k = true → it'.get? k = some n → S.Authorized n

/-- The row of a level that starts a read. -/
theorem Settled.resolved (hs : Settled S L done it) (hfresh : L.Fresh S)
    (hshown : L.shown = S.readable L.collection.slug) : Resolved S L.item it where
  origin := hs.origin
  metaText s hmeta := by
    refine hs.text? (fun hdone => ?_) (fun g hg _ => S.meta_reserved L.collection hfresh.mem g hg) hmeta
    obtain ⟨g, hg, hname⟩ := hs.named _ hdone
    exact S.meta_reserved L.collection hfresh.mem g hg hname
  shows k n hk hn := by
    rw [hfresh.origin] at hk
    exact (hs.shows k n (hshown ▸ hk) hn).2

/-- The last filter of the relations. -/
theorem Resolved.filterResolvedRelations {c : EntitySchema N} {it₀ : Item N} (hc : c ∈ S.all)
    (hit : Resolved S it₀ it) (h : S.filterResolvedRelations c page it = .ok it') :
    Resolved S it₀ it' := by
  unfold ReadContext.filterResolvedRelations at h
  simp only at h
  split at h
  · refine foldlM_invariant h hit fun it₁ (f, target) it₂ hmem hit₁ h => ?_
    obtain ⟨allowed, -, h⟩ := exists_of_bind_eq_ok h
    have hf : f ∈ c.info.schemaFields := by
      simp only [relations, List.mem_append, List.mem_filterMap, List.mem_filter] at hmem
      obtain (⟨g, ⟨hg, -⟩, heq⟩ | ⟨g, ⟨hg, -⟩, heq⟩) | ⟨g, ⟨hg, -⟩, heq⟩ := hmem <;>
        · obtain ⟨_, -, heq⟩ := Option.map_eq_some_iff.1 heq
          cases heq
          exact hg
    split at h
    · next n hn =>
      obtain ⟨m, hm, h⟩ := exists_of_bind_eq_ok h
      obtain rfl := Except.ok.inj h
      refine ⟨hit₁.origin, fun s hs => hit₁.metaText s ?_, fun k n' hk hn' => ?_⟩
      · unfold Item.text? at hs ⊢
        rwa [Item.get?_set, if_neg (S.meta_reserved c hc f hf)] at hs
      · rw [Item.get?_set] at hn'
        split at hn'
        · next hname =>
          subst hname
          obtain rfl := Option.some.inj hn'
          have hauth : S.Authorized n := hit₁.shows f.name n hk hn
          refine .refine hm (fun _ _ _ => hauth) fun r hr _ r' hr' => ?_
          obtain rfl := Except.ok.inj hr'
          exact hauth.objects hr
        · exact hit₁.shows k n' hk hn'
    · obtain rfl := Except.ok.inj h
      exact hit₁
  · obtain rfl := Except.ok.inj h
    exact hit

/-- The rows of a read, once their relations are resolved. -/
theorem resolveRelations_resolved {c : EntitySchema N} {selection : Option FieldSelection}
    {trace : Bool} {items items' : List (Item N)} (hc : c ∈ S.all)
    (horigin : ∀ it ∈ items, it.1.collection = c.slug)
    (hvalue : ∀ it ∈ items, ∀ k n, it.get? k = some n → ∃ v, n = .value v)
    (hsafe : S.SafeRead limit c selection trace items)
    (h : S.resolveRelations c limit selection trace items = .ok items') :
    ∀ it' ∈ items', ∃ it ∈ items, Resolved S it it' := by
  have hsame : ∀ it ∈ items, Resolved S it it := by
    intro it hit
    refine ⟨rfl, fun _ h => h, fun k n _ hn => ?_⟩
    obtain ⟨v, rfl⟩ := hvalue it hit k n hn
    exact .value v
  unfold resolveRelations at h
  split at h
  · obtain rfl := Except.ok.inj h
    exact fun it hit => ⟨it, hit, hsame it hit⟩
  · next node =>
    split at h
    · obtain ⟨items₁, hitems₁, h⟩ := exists_of_bind_eq_ok h
      intro it' hit'
      obtain ⟨it₁, hit₁, hit'⟩ := exists_of_mem_mapM h it' hit'
      obtain ⟨it, hit, hit₁⟩ := exists_of_mem_mapM hitems₁ it₁ hit₁
      have hfresh : (⟨c, node, trace, S.readable c.slug, it⟩ : Level N).Fresh S :=
        ⟨hc, horigin it hit, hvalue it hit, fun _ _ hk _ => hk⟩
      obtain ⟨done, hs⟩ := resolveLevel_settled node.levels hfresh (hsafe node rfl it hit) hit hit₁
      exact ⟨it, hit, (hs.resolved hfresh rfl).filterResolvedRelations hc hit'⟩
    · obtain rfl := Except.ok.inj h
      exact fun it hit => ⟨it, hit, hsame it hit⟩

/-- The field filter of the rows that are read. -/
theorem Resolved.applyFieldFilter {it₀ : Item N} (h : Resolved S it₀ it) :
    S.ItemAuthorized (S.applyFieldFilter it) := by
  intro k n hn
  simp only [ReadContext.applyFieldFilter, Item.get?_only, h.origin] at hn
  split at hn
  · next hk => exact ⟨h.origin ▸ hk, h.shows k n hk hn⟩
  · cases hn

/-- The `_meta` of a row is merged into it after the field filter. -/
theorem ItemAuthorized.mergeItem (h : S.ItemAuthorized it)
    (hmeta : ∀ s parsed, it.text? "_meta" = some s → S.parseJson s = some (.obj parsed) →
      ∀ kv ∈ parsed, S.readable it.1.collection kv.1 = true) :
    S.ItemAuthorized (S.mergeItem it) := by
  have hrest : S.ItemAuthorized (it.erase "_meta") := by
    intro k n hn
    rw [Item.get?_erase] at hn
    split at hn
    · cases hn
    · exact h k n hn
  unfold ReadContext.mergeItem
  simp only
  split
  · next s hs =>
    split
    · split
      · next parsed hparsed =>
        intro k n hn
        rw [Item.get?_append, Option.or_eq_some_iff, get?_valueFields] at hn
        obtain hn | ⟨-, hn⟩ := hn
        · obtain ⟨v, hv, rfl⟩ := Option.map_eq_some_iff.1 hn
          refine ⟨?_, .value v⟩
          by_contra hk
          have hnone : Record.get? (parsed.filter fun kv =>
              ((it.erase "_meta").get? kv.1).isNone) k = none := by
            refine Record.get?_eq_none fun kv hkv heq => hk (heq ▸ ?_)
            exact hmeta s parsed hs hparsed kv (List.mem_filter.1 hkv).1
          rw [hnone] at hv
          cases hv
        · exact hrest k n hn
      · exact hrest
    · exact hrest
  · exact hrest

omit [JsNumber N] in
/-- The rows of a list, before their relations are resolved. -/
theorem value_of_listRow {c : EntitySchema N} {selection : Option FieldSelection} {row : Record N}
    {k : String} {n : Node N} (h : (listRow c selection row).get? k = some n) :
    ∃ v, n = .value v := by
  rw [listRow, get?_valueFields] at h
  obtain ⟨v, -, rfl⟩ := Option.map_eq_some_iff.1 h
  exact ⟨v, rfl⟩

/-- The row of a detail, before its relations are resolved. -/
theorem value_of_detailRow {c : EntitySchema N} {selection : Option FieldSelection} {row : Record N}
    {k : String} {n : Node N} (h : (S.detailRow c selection row).get? k = some n) :
    ∃ v, n = .value v := by
  rw [detailRow, objectOf, get?_valueFields] at h
  obtain ⟨v, -, rfl⟩ := Option.map_eq_some_iff.1 h
  exact ⟨v, rfl⟩

/-- What a list of rows returns. -/
theorem listItems_authorized {c : EntitySchema N} {selection : Option FieldSelection} {trace : Bool}
    {rows : List (Record N)} {response : List (Item N)} (hc : c ∈ S.all)
    (hsafe : S.SafeRead limit c selection trace (rows.map (listRow c selection)))
    (hmeta : ∀ row ∈ rows, S.SafeMeta (listRow c selection row))
    (h : S.listItems c limit selection trace rows = .ok response) :
    ∀ it ∈ response, S.ItemAuthorized it := by
  obtain ⟨items, hitems, h⟩ := exists_of_bind_eq_ok h
  obtain rfl := Except.ok.inj h
  intro it hit
  obtain ⟨it₁, hit₁, rfl⟩ := List.mem_map.1 hit
  obtain ⟨it₀, hit₀, hresolved⟩ := resolveRelations_resolved hc (fun it hit => by
    obtain ⟨row, -, rfl⟩ := List.mem_map.1 hit
    rfl) (fun it hit k n hn => by
    obtain ⟨row, -, rfl⟩ := List.mem_map.1 hit
    exact value_of_listRow hn) hsafe hitems it₁ hit₁
  obtain ⟨row, hrow, rfl⟩ := List.mem_map.1 hit₀
  refine hresolved.applyFieldFilter.mergeItem fun s parsed hs hparsed kv hkv => ?_
  obtain ⟨n, hn⟩ := exists_of_text? hs
  have hreadable : S.readable it₁.1.collection "_meta" = true :=
    (hresolved.applyFieldFilter _ n hn).1
  have htext : it₁.text? "_meta" = some s := by
    unfold Item.text? at hs ⊢
    rwa [ReadContext.applyFieldFilter, Item.get?_only, if_pos hreadable] at hs
  show S.readable it₁.1.collection kv.1 = true
  rw [hresolved.origin] at hreadable ⊢
  exact hmeta row hrow hreadable s parsed (hresolved.metaText s htext) hparsed kv hkv

/-- What a detail returns. -/
theorem getItem_authorized {c : EntitySchema N} {selection : Option FieldSelection}
    {row : Record N} {response : List (Item N)} (hc : c ∈ S.all)
    (hsafe : S.SafeRead 50 c selection false [S.detailRow c selection row])
    (h : S.getItem c selection row = .ok response) : ∀ it ∈ response, S.ItemAuthorized it := by
  obtain ⟨items, hitems, h⟩ := exists_of_bind_eq_ok h
  obtain rfl := Except.ok.inj h
  intro it hit
  obtain ⟨it₁, hit₁, rfl⟩ := List.mem_map.1 hit
  obtain ⟨it₀, -, hresolved⟩ := resolveRelations_resolved hc (fun it hit => by
    obtain rfl := List.mem_singleton.1 hit
    rfl) (fun it hit k n hn => by
    obtain rfl := List.mem_singleton.1 hit
    exact value_of_detailRow hn) hsafe hitems it₁ hit₁
  exact hresolved.applyFieldFilter

end ReadContext

end

/-! ## A read of orders -/

/-- The rows of a table, queried by texts. -/
def textEngine : SqlEngine (Option Int) (Record (Option Int)) where
  isNull row column := (row.get column).isNullish
  cmp row column v :=
    match row.get column, v with
    | .str a, .str b => some (if a = b then .eq else if strLt a b then .lt else .gt)
    | _, _ => none
  like _ _ _ := .unknown
  raw _ _ := (.true, [])
  inQuery _ _ _ := .unknown
  existsQuery _ _ := .unknown
  bindable _ := true

/-- Orders of customers. -/
def orderSchema : EntitySchema (Option Int) where
  slug := "orders"
  name := "Orders"
  info := {
    tableName := "orders"
    schemaFields := [{ name := "customer", type := .m2o, relatedCollection := some "customers" }]
    fields_user := by decide }

/-- Customers with the orders that they have placed. -/
def customerSchema : EntitySchema (Option Int) where
  slug := "customers"
  name := "Customers"
  info := {
    tableName := "customers"
    schemaFields := [{ name := "name", type := .text }, { name := "secret", type := .text },
      { name := "orders", type := .o2m, relatedCollection := some "orders",
        foreignKey := some "customer" }]
    fields_user := by decide }

def orderRow : Record (Option Int) := [("id", .str "o1"), ("customer", .str "c1")]

def customerRow : Record (Option Int) :=
  [("id", .str "c1"), ("name", .str "Ann"), ("secret", .str "s")]

/-- A caller who may read the names of customers, and the orders. -/
def orderRead : ReadContext (Option Int) where
  all := [orderSchema, customerSchema]
  slugs_nodup := by decide
  names_nodup := by decide
  tables slug := if slug = "orders" then [orderRow] else if slug = "customers" then [customerRow] else []
  junctions _ := []
  engine := textEngine
  auth := some sampleAuth
  rowFilter _ := none
  fieldRestrictions slug := if slug = "customers" then some ["name"] else none
  parseJson _ := none
  registry _ := none
  id_text := by
    intro slug row hrow
    split at hrow
    · obtain rfl := List.mem_singleton.1 hrow
      exact ⟨"o1", rfl, by decide⟩
    · split at hrow
      · obtain rfl := List.mem_singleton.1 hrow
        exact ⟨"c1", rfl, by decide⟩
      · cases hrow
  id_unique := by
    intro slug row hrow row' hrow' _
    split at hrow
    · rw [if_pos ‹_›] at hrow'
      exact (List.mem_singleton.1 hrow).trans (List.mem_singleton.1 hrow').symm
    · rw [if_neg ‹_›] at hrow'
      split at hrow
      · rw [if_pos ‹_›] at hrow'
        exact (List.mem_singleton.1 hrow).trans (List.mem_singleton.1 hrow').symm
      · cases hrow
  meta_reserved := by decide

/-- `fields=customer.name,customer.orders.id`. -/
def nestedSelection : FieldSelection :=
  .node false [] [] [("customer", .node false ["name"] [] [("orders", .node false ["id"] [] [] 0)] 0)] 0

/-- `fields=customer.name`. -/
def nameSelection : FieldSelection := .node false [] [] [("customer", .node false ["name"] [] [] 0)] 0

end HeadlessErp
