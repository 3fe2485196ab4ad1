import HeadlessErp.Entity.Cascade
import Mathlib.Data.List.Nodup

/-!
# A soft cascade deletes the closure

What a soft cascade leaves, row by row: the rows that are reached from its root have been stamped, each
by one statement, and all other rows are as they were (`cascadeDelete_closure`). A reference of a
collection to itself is not followed, also where it cascades.
-/

namespace HeadlessErp

open Relation (ReflTransGen)

section
variable {N : Type} {all : List (EntitySchema N)} {now : IsoTime} {t : Tables N}
  {root : String × String} {s : CascadeState N} {ids : List String} {slug id : String}

/-! ## The rows as they are left -/

/-- What a soft delete writes. -/
def cascadeStamps (now : IsoTime) : Record N :=
  [("deleted_at", .str now.text), ("updated_at", .str now.text)]

/-- `deleted`: what a cascade has visited after its root. -/
def CascadeState.deleted (s : CascadeState N) : List (String × String) := s.visited.tail

/-- A row of a collection after some rows have been deleted. -/
def stampRow (now : IsoTime) (deleted : List (String × String)) (c : String) (row : Record N) :
    Record N :=
  if (rowId row).any fun x => deleted.contains (c, x) then row.assign (cascadeStamps now) else row

/-- A state of a soft cascade: what it has visited, each once, and the tables with these rows
stamped. -/
structure Stamped (now : IsoTime) (t : Tables N) (root : String × String) (s : CascadeState N) :
    Prop where
  head : s.visited.head? = some root
  nodup : s.visited.Nodup
  tables : ∀ c, s.tables c = (t c).map (stampRow now s.deleted c)

theorem rowId_stamps (row : Record N) : rowId (row.assign (cascadeStamps now)) = rowId row := by
  unfold rowId
  rw [get_assign_of_none rfl]

theorem rowId_stampRow (deleted : List (String × String)) (c : String) (row : Record N) :
    rowId (stampRow now deleted c row) = rowId row := by
  unfold stampRow
  split
  · exact rowId_stamps row
  · rfl

theorem nodup_freshIds {visited : List (String × String)} (l : List String) :
    (freshIds slug visited l).Nodup := by
  induction l generalizing visited with
  | nil => exact .nil
  | cons first l ih =>
    rw [freshIds]
    split
    · exact ih
    · refine List.nodup_cons.2 ⟨fun hmem => ?_, ih⟩
      exact (mem_freshIds.1 hmem).2 List.mem_cons_self

/-- More rows are stamped: those of a collection whose ids are fresh. -/
theorem stampRow_append {deleted : List (String × String)} {fresh : List String}
    (hfresh : ∀ x ∈ fresh, (slug, x) ∉ deleted) (c : String) (row : Record N) :
    stampRow now (deleted ++ fresh.map (slug, ·)) c row =
      if c = slug ∧ textIn "id" fresh row = true then row.assign (cascadeStamps now)
      else stampRow now deleted c row := by
  have hmem (x : String) : (c, x) ∈ deleted ++ fresh.map (slug, ·) ↔
      (c, x) ∈ deleted ∨ c = slug ∧ x ∈ fresh := by
    rw [List.mem_append, List.mem_map]
    refine or_congr_right ⟨?_, ?_⟩
    · rintro ⟨y, hy, heq⟩
      obtain ⟨rfl, rfl⟩ := Prod.mk.inj heq
      exact ⟨rfl, hy⟩
    · rintro ⟨rfl, hx⟩
      exact ⟨x, hx, rfl⟩
  unfold stampRow
  cases hid : rowId row with
  | none =>
    rw [if_neg (c := c = slug ∧ _)]
    · simp
    · rintro ⟨-, htext⟩
      obtain ⟨x, -, hx⟩ := textIn_id.1 htext
      rw [hid] at hx
      cases hx
  | some x =>
    have htext : textIn "id" fresh row = true ↔ x ∈ fresh := by
      rw [textIn_id]
      constructor
      · rintro ⟨y, hy, hy'⟩
        rw [hid] at hy'
        cases hy'
        exact hy
      · exact fun hx => ⟨x, hx, hid⟩
    simp only [Option.any_some, List.contains_iff_mem, hmem, htext]
    by_cases hnew : c = slug ∧ x ∈ fresh
    · rw [if_pos (.inr hnew), if_pos hnew]
    · rw [if_neg hnew]
      simp only [hnew, or_false]

/-! ## Steps -/

theorem Stamped.visited_eq (h : Stamped now t root s) : s.visited = root :: s.deleted :=
  (List.cons_head?_tail (Option.mem_def.2 h.head)).symm

theorem Stamped.mem_deleted (h : Stamped now t root s) {k : String × String} :
    k ∈ s.deleted ↔ k ∈ s.visited ∧ k ≠ root := by
  have hnodup := h.nodup
  rw [h.visited_eq, List.nodup_cons] at hnodup
  rw [h.visited_eq, List.mem_cons]
  constructor
  · exact fun hk => ⟨.inr hk, fun heq => hnodup.1 (heq ▸ hk)⟩
  · rintro ⟨rfl | hk, hne⟩
    · exact absurd rfl hne
    · exact hk

theorem Stamped.start (now : IsoTime) (t : Tables N) (root : String × String)
    (level : List (String × List String)) : Stamped now t root ⟨t, [root], level⟩ where
  head := rfl
  nodup := List.nodup_singleton root
  tables c := by
    have hrow : stampRow (N := N) now [] c = id := by
      funext row
      rw [stampRow, if_neg]
      · rfl
      · simp
    show t c = (t c).map (stampRow now [] c)
    rw [hrow, List.map_id]

/-- The rows that point at a batch with a field are stamped. -/
theorem Stamped.field (h : Stamped now t root s) (child : EntitySchema N × String) :
    Stamped now t root (cascadeField .soft now ids s child) := by
  obtain ⟨c, fieldName⟩ := child
  unfold cascadeField
  dsimp only
  generalize ((s.tables c.slug).filter fun row => textIn fieldName ids row && isLive row).filterMap
    rowId = children
  split
  · exact h
  · have hfresh (x : String) (hx : x ∈ freshIds c.slug s.visited children) :
        (c.slug, x) ∉ s.visited := (mem_freshIds.1 hx).2
    have hdeleted : (s.visited ++ (freshIds c.slug s.visited children).map (c.slug, ·)).tail =
        s.deleted ++ (freshIds c.slug s.visited children).map (c.slug, ·) := by
      rw [h.visited_eq]
      rfl
    refine ⟨?_, ?_, fun c' => ?_⟩
    · rw [List.head?_append, h.head]
      rfl
    · refine h.nodup.append ((nodup_freshIds children).map fun x y heq => (Prod.mk.inj heq).2) ?_
      intro k hk hk'
      obtain ⟨x, hx, rfl⟩ := List.mem_map.1 hk'
      exact hfresh x hx hk
    · have hrow (row : Record N) : stampRow now (s.deleted ++
          (freshIds c.slug s.visited children).map (c.slug, ·)) c' row = _ :=
        stampRow_append (fun x hx hmem => hfresh x hx (h.mem_deleted.1 hmem).1) c' row
      show s.tables.modify c.slug _ c' = (t c').map (stampRow now (List.tail _) c')
      rw [hdeleted]
      by_cases hc : c' = c.slug
      · subst hc
        rw [modify_self, h.tables]
        simp only [cascadeRows, updateWhere, List.map_map]
        refine List.map_congr_left fun row _ => ?_
        rw [hrow, Function.comp_apply, ← cascadeStamps]
        have hid : textIn "id" (freshIds c.slug s.visited children) (stampRow now s.deleted c.slug row)
            = textIn "id" (freshIds c.slug s.visited children) row := by
          rw [Bool.eq_iff_iff, textIn_id, textIn_id, rowId_stampRow]
        rw [hid]
        by_cases htext : textIn "id" (freshIds c.slug s.visited children) row = true
        · obtain ⟨x, hx, hrowId⟩ := textIn_id.1 htext
          have hold : stampRow now s.deleted c.slug row = row := by
            rw [stampRow, if_neg]
            rw [hrowId, Option.any_some, List.contains_iff_mem]
            exact fun hmem => hfresh x hx (h.mem_deleted.1 hmem).1
          rw [if_pos htext, if_pos ⟨rfl, htext⟩, hold]
        · rw [if_neg htext, if_neg fun hboth => htext hboth.2]
      · rw [modify_of_ne _ hc, h.tables]
        refine List.map_congr_left fun row _ => ?_
        rw [hrow, if_neg fun hboth => hc hboth.1]

theorem Stamped.step (h : Stamped now t root s) :
    Stamped now t root (cascadeLevel all .soft now s) := by
  have hstart : Stamped now t root { s with level := [] } := ⟨h.head, h.nodup, h.tables⟩
  refine foldl_invariant (I := Stamped now t root) hstart fun s' batch _ hs => ?_
  exact foldl_invariant (I := Stamped now t root) hs fun s'' child _ hs' => hs'.field child

/-! ## The closure -/

/-- A live row points at another with a field that cascades. -/
def PointsAt (all : List (EntitySchema N)) (t : Tables N) (parent child : String × String) : Prop :=
  ∃ c ∈ all, c.slug = child.1 ∧ ∃ f ∈ c.info.schemaFields, f.type = .m2o ∧ f.cascadeDelete = some true ∧
    f.relatedCollection = some parent.1 ∧ ∃ row ∈ t child.1, isLive row = true ∧
      row.get f.name = .str parent.2 ∧ rowId row = some child.2

/-- The ids of a table are its primary keys. -/
def PrimaryKeys (t : Tables N) : Prop :=
  ∀ c row row' x, row ∈ t c → row' ∈ t c → rowId row = some x → rowId row' = some x → row = row'

open Classical in
/-- A soft cascade has ended, and it has deleted, each once, the live rows beside its root that are
reached from it along a relation of the rows. -/
structure DeletesClosure (R : String × String → String × String → Prop) (now : IsoTime)
    (t : Tables N) (root : String × String) (s : CascadeState N) : Prop where
  ended : levelKeys s.level = []
  once : s.deleted.Nodup
  deleted : ∀ k, k ∈ s.deleted ↔ k ≠ root ∧ ReflTransGen R root k
  tables : ∀ c, s.tables c = (t c).map fun row =>
    if isLive row = true ∧ ∃ x, rowId row = some x ∧ (c, x) ∈ s.deleted then
      row.assign (cascadeStamps now)
    else row

theorem cascadesTo_iff {parent child : String × String} :
    CascadesTo all t parent child ↔ PointsAt all t parent child ∧ child.1 ≠ parent.1 := by
  constructor
  · rintro ⟨c, fieldName, hchild, hslug, row, hrow, hlive, htext, hrowId⟩
    obtain ⟨c', hc', hmem⟩ := List.mem_flatMap.1 hchild
    split at hmem
    · cases hmem
    · next hne =>
      obtain ⟨f, hf, heq⟩ := List.mem_map.1 hmem
      obtain ⟨rfl, rfl⟩ := Prod.mk.inj heq
      obtain ⟨hf, hp⟩ := List.mem_filter.1 hf
      simp only [Bool.and_eq_true, decide_eq_true_eq] at hp
      obtain ⟨x, hx, hget⟩ := textIn_eq_true.1 htext
      obtain rfl := List.mem_singleton.1 hx
      exact ⟨⟨c', hc', hslug, f, hf, hp.1.1, hp.1.2, hp.2, row, hrow, hlive, hget, hrowId⟩,
        hslug ▸ hne⟩
  · rintro ⟨⟨c, hc, hslug, f, hf, htype, hcascade, hrelated, row, hrow, hlive, hget, hrowId⟩, hne⟩
    refine ⟨c, f.name, List.mem_flatMap.2 ⟨c, hc, ?_⟩, hslug, row, hrow, hlive,
      textIn_eq_true.2 ⟨_, List.mem_singleton_self _, hget⟩, hrowId⟩
    rw [if_neg (hslug ▸ hne)]
    refine List.mem_map.2 ⟨f, List.mem_filter.2 ⟨hf, ?_⟩, rfl⟩
    simp [htype, hcascade, hrelated]

/-- What is reached beside the root is a live row. -/
theorem live_of_reached (hkeys : PrimaryKeys t) {c x : String} {row : Record N} (hrow : row ∈ t c)
    (hrowId : rowId row = some x) (hne : (c, x) ≠ root)
    (hreach : ReflTransGen (CascadesTo all t) root (c, x)) : isLive row = true := by
  obtain heq | ⟨parent, -, hlast⟩ := hreach.cases_tail
  · exact absurd heq hne
  · obtain ⟨-, -, -, -, row', hrow', hlive, -, hrowId'⟩ := hlast
    rwa [hkeys c row row' x hrow hrow' hrowId hrowId']

/-- A soft cascade ends, and it has deleted the live rows that are reached through the references of
other collections, each once, and nothing else. -/
theorem cascadeDelete_closure (all : List (EntitySchema N)) (now : IsoTime) (slug id : String)
    (hkeys : PrimaryKeys t) :
    DeletesClosure (fun parent child => PointsAt all t parent child ∧ child.1 ≠ parent.1) now t
      (slug, id) (cascadeEnd all .soft now slug id t) := by
  have hrelation : (fun parent child => PointsAt all t parent child ∧ child.1 ≠ parent.1) =
      CascadesTo all t := by
    funext parent child
    exact propext cascadesTo_iff.symm
  have hstamped : Stamped now t (slug, id) (cascadeEnd all .soft now slug id t) :=
    LevelSearch.run_invariant (S := cascadeSearch all .soft now) (I := Stamped now t (slug, id))
      (fun _ hs => hs.step) (Stamped.start now t (slug, id) _) _
  have hdeleted (k : String × String) : k ∈ (cascadeEnd all .soft now slug id t).deleted ↔
      k ≠ (slug, id) ∧ ReflTransGen (CascadesTo all t) (slug, id) k := by
    rw [hstamped.mem_deleted, mem_visited_cascadeEnd]
    exact And.comm
  rw [hrelation]
  refine ⟨?_, ?_, hdeleted, fun c => ?_⟩
  · refine LevelSearch.level_run (S := cascadeSearch all .soft now) (I := Searched t (slug, id))
      (fun _ => cascadeSearch_step) (searched_start slug id t) (n := (tableKeys all t).length + 1) ?_
    exact Nat.lt_succ_of_le (List.length_filter_le _ _)
  · have hnodup := hstamped.nodup
    rw [hstamped.visited_eq] at hnodup
    exact (List.nodup_cons.1 hnodup).2
  · rw [hstamped.tables]
    refine List.map_congr_left fun row hrow => ?_
    have hcondition : ((rowId row).any fun x =>
        (cascadeEnd all .soft now slug id t).deleted.contains (c, x)) = true ↔
          isLive row = true ∧ ∃ x, rowId row = some x ∧
            (c, x) ∈ (cascadeEnd all .soft now slug id t).deleted := by
      rw [Option.any_eq_true]
      simp only [List.contains_iff_mem]
      refine ⟨fun ⟨x, hx, hmem⟩ => ⟨?_, x, hx, hmem⟩, fun h => h.2⟩
      obtain ⟨hne, hreach⟩ := (hdeleted _).1 hmem
      exact live_of_reached hkeys hrow hx hne hreach
    unfold stampRow
    by_cases h : ((rowId row).any fun x =>
        (cascadeEnd all .soft now slug id t).deleted.contains (c, x)) = true
    · rw [if_pos h, if_pos (hcondition.1 h)]
    · rw [if_neg h, if_neg fun h' => h (hcondition.2 h')]

/-- Departments under departments. -/
def departments : EntitySchema (Option Int) where
  slug := "departments"
  name := "Departments"
  info :=
    { tableName := "departments"
      schemaFields :=
        [{ name := "parent", type := .m2o, relatedCollection := some "departments",
           cascadeDelete := some true }]
      fields_user := List.forall_mem_singleton.2 (by decide) }

/-- Expenses of departments. -/
def expenses : EntitySchema (Option Int) where
  slug := "expenses"
  name := "Expenses"
  info :=
    { tableName := "expenses"
      schemaFields :=
        [{ name := "department", type := .m2o, relatedCollection := some "departments",
           cascadeDelete := some true }]
      fields_user := List.forall_mem_singleton.2 (by decide) }

/-- A department with an expense and a department under it. -/
def company : Tables (Option Int)
  | "departments" =>
    [[("id", .str "a"), ("parent", .null), ("deleted_at", .null)],
      [("id", .str "b"), ("parent", .str "a"), ("deleted_at", .null)]]
  | "expenses" => [[("id", .str "e"), ("department", .str "a"), ("deleted_at", .null)]]
  | _ => []

def newYear : IsoTime := ⟨"2026-01-01T00:00:00.000Z", by decide⟩

theorem company_keys : PrimaryKeys company := by
  intro c row row' x hrow hrow' hrowId hrowId'
  by_cases hdepartments : c = "departments"
  · subst hdepartments
    rcases List.mem_pair.1 hrow with rfl | rfl <;> rcases List.mem_pair.1 hrow' with rfl | rfl
    · rfl
    · rw [← hrowId'] at hrowId
      exact absurd hrowId (by decide)
    · rw [← hrowId'] at hrowId
      exact absurd hrowId (by decide)
    · rfl
  by_cases hexpenses : c = "expenses"
  · subst hexpenses
    rw [List.mem_singleton.1 hrow, List.mem_singleton.1 hrow']
  · simp only [company] at hrow
    cases hrow

/-- With the department goes its expense. -/
theorem company_closure :
    DeletesClosure (fun parent child => PointsAt [departments, expenses] company parent child ∧
        child.1 ≠ parent.1) newYear company ("departments", "a")
      (cascadeEnd [departments, expenses] .soft newYear "departments" "a" company) ∧
    (cascadeEnd [departments, expenses] .soft newYear "departments" "a" company).deleted =
      [("expenses", "e")] :=
  ⟨cascadeDelete_closure [departments, expenses] newYear "departments" "a" company_keys, rfl⟩

/-- Along all references the department under it would be deleted, too. -/
theorem company_not_closed :
    ¬ ∀ (all : List (EntitySchema (Option Int))) (now : IsoTime) (slug id : String)
      (t : Tables (Option Int)), PrimaryKeys t →
        DeletesClosure (PointsAt all t) now t (slug, id) (cascadeEnd all .soft now slug id t) := by
  intro h
  have hclosed := h [departments, expenses] newYear "departments" "a" company company_keys
  have hpoints : PointsAt [departments, expenses] company ("departments", "a") ("departments", "b") :=
    ⟨departments, List.mem_cons_self, rfl, _, List.mem_singleton_self _, rfl, rfl, rfl, _,
      List.mem_cons_of_mem _ (List.mem_singleton_self _), rfl, rfl, rfl⟩
  have hmem := (hclosed.deleted ("departments", "b")).2 ⟨by decide, .single hpoints⟩
  have hdeleted : (cascadeEnd [departments, expenses] .soft newYear "departments" "a"
      company).deleted = [("expenses", "e")] := rfl
  rw [hdeleted, List.mem_singleton] at hmem
  exact absurd hmem (by decide)

end

end HeadlessErp
