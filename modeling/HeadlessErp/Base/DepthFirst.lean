import Mathlib.Data.List.Basic
import Mathlib.Logic.Relation

/-!
# Depth-first search

A depth-first search that lists what it has finished. The items on the path to the one that is
visited are visited and not finished: each of them leads to it. So what an item leads to is finished
before it, or leads back to it (`exists_before_of_mem`), and a search from some items finishes what
they lead to (`mem_postOrder_iff`).
-/

namespace HeadlessErp

open Relation

section
variable {α : Type} [DecidableEq α] (next : α → List α)

/-- A visit, on the items that are visited and those that are finished. `depth` bounds the path. -/
def visit : ℕ → List α × List α → α → List α × List α
  | 0, s, _ => s
  | depth + 1, s, a =>
    if s.1.contains a then s
    else
      let s' := (next a).foldl (visit depth) (s.1 ++ [a], s.2)
      (s'.1, s'.2 ++ [a])

/-- The items that a search from some items finishes, in their order. -/
def postOrder (depth : ℕ) (roots : List α) : List α := (roots.foldl (visit next depth) ([], [])).2

/-- An item leads to another one. -/
abbrev LeadsTo (a b : α) : Prop := ReflTransGen (fun x y => y ∈ next x) a b

/-- The items of a list that are not visited. -/
def unvisited (items visited : List α) : List α := items.filter fun a => !visited.contains a

/-! ## What a visit keeps -/

/-- The items that are finished are visited, once, and so is what they lead to; what one leads to is
before it, or leads back to it. -/
structure PostOrder (s : List α × List α) : Prop where
  visited : ∀ a ∈ s.2, a ∈ s.1
  nodup : s.2.Nodup
  closed : ∀ a ∈ s.2, ∀ b ∈ next a, b ∈ s.1
  order : ∀ before a after, s.2 = before ++ a :: after → ∀ b ∈ next a, b ∈ before ∨ LeadsTo next b a

/-- What a visit of some items adds: they are visited, all that is newly visited is finished, and
they lead to it. -/
structure Visits (items : List α) (s s' : List α × List α) : Prop where
  mono : ∀ a ∈ s.1, a ∈ s'.1
  roots : ∀ a ∈ items, a ∈ s'.1
  finished : ∀ a ∈ s'.1, a ∈ s.1 ∨ a ∈ s'.2
  grows : ∃ new, s'.2 = s.2 ++ new ∧ ∀ a ∈ new, a ∉ s.1 ∧ ∃ r ∈ items, LeadsTo next r a

variable {next} {items : List α}

theorem length_unvisited_le (items : List α) {visited visited' : List α} (h : ∀ a ∈ visited, a ∈ visited') :
    (unvisited items visited').length ≤ (unvisited items visited).length := by
  refine (List.monotone_filter_right items fun a ha => ?_).length_le
  simp only [Bool.not_eq_true', ← Bool.not_eq_true, List.contains_iff_mem] at ha ⊢
  exact fun hmem => ha (h a hmem)

theorem length_unvisited_lt {visited : List α} {a : α} (ha : a ∈ items) (hnot : a ∉ visited) :
    (unvisited items (visited ++ [a])).length < (unvisited items visited).length := by
  have hsplit : (unvisited items (visited ++ [a])) =
      (unvisited items visited).filter fun b => b ≠ a := by
    unfold unvisited
    rw [List.filter_filter]
    refine List.filter_congr fun b _ => ?_
    by_cases hb : b ∈ visited <;> simp [hb]
  rw [hsplit]
  refine List.length_filter_lt_length_iff_exists.2 ⟨a, ?_, by simp⟩
  exact List.mem_filter.2 ⟨ha, by simpa using hnot⟩

omit [DecidableEq α] in
/-- What is finished last. -/
theorem PostOrder.snoc {s : List α × List α} (h : PostOrder next s) {a : α} (ha : a ∈ s.1)
    (hnot : a ∉ s.2) (hnext : ∀ b ∈ next a, b ∈ s.1)
    (hback : ∀ b ∈ next a, b ∈ s.2 ∨ LeadsTo next b a) : PostOrder next (s.1, s.2 ++ [a]) := by
  constructor
  case visited =>
    intro b hb
    rcases List.mem_append.1 hb with hb | hb
    · exact h.visited b hb
    · rw [List.mem_singleton.1 hb]
      exact ha
  case nodup =>
    refine List.nodup_append.2 ⟨h.nodup, List.pairwise_singleton _ a, fun b hb c hc heq => hnot ?_⟩
    rw [← List.mem_singleton.1 hc, ← heq]
    exact hb
  case closed =>
    intro b hb
    rcases List.mem_append.1 hb with hb | hb
    · exact h.closed b hb
    · rw [List.mem_singleton.1 hb]
      exact hnext
  case order =>
    intro before b after heq
    rcases List.eq_nil_or_concat after with rfl | ⟨after, z, rfl⟩
    · obtain ⟨rfl, hb⟩ := List.append_inj' heq rfl
      cases hb
      exact hback
    · have hfront : s.2 ++ [a] = (before ++ b :: after) ++ [z] :=
        Eq.trans heq (by rw [List.append_assoc, List.cons_append, List.concat_eq_append])
      exact h.order before b after (List.append_inj' hfront rfl).1

/-- The items of a state that are visited and not finished lead to some items. -/
def PathsTo (next : α → List α) (s : List α × List α) (roots : List α) : Prop :=
  ∀ a ∈ s.1, a ∉ s.2 → ∀ r ∈ roots, LeadsTo next a r

/-- A visit does what it is to do. -/
def VisitsRight (next : α → List α) (items : List α) (depth : ℕ) : Prop :=
  ∀ s a, PostOrder next s → PathsTo next s [a] → a ∈ items →
    (unvisited items s.1).length < depth →
    PostOrder next (visit next depth s a) ∧ Visits next [a] s (visit next depth s a)

/-- One visit after the other. -/
theorem visits_foldl {depth : ℕ} (hvisit : VisitsRight next items depth) {roots : List α}
    (hroots : ∀ a ∈ roots, a ∈ items) {s : List α × List α} (hs : PostOrder next s)
    (hpaths : PathsTo next s roots) (hdepth : (unvisited items s.1).length < depth) :
    PostOrder next (roots.foldl (visit next depth) s) ∧
      Visits next roots s (roots.foldl (visit next depth) s) := by
  induction roots generalizing s with
  | nil =>
    refine ⟨hs, fun _ ha => ha, List.forall_mem_nil _, fun _ ha => .inl ha, [], ?_, ?_⟩
    · exact (List.append_nil _).symm
    · exact List.forall_mem_nil _
  | cons r roots ih =>
    obtain ⟨hr, hroots⟩ := List.forall_mem_cons.1 hroots
    have hpath : PathsTo next s [r] := fun a ha hnot => List.forall_mem_singleton.2
      (hpaths a ha hnot r List.mem_cons_self)
    obtain ⟨hs', hv⟩ := hvisit s r hs hpath hr hdepth
    obtain ⟨new, hnew, hnewr⟩ := hv.grows
    have hpaths' : PathsTo next (visit next depth s r) roots := by
      intro a ha hnot b hb
      rcases hv.finished a ha with hold | hfinished
      · refine hpaths a hold (fun hmem => hnot ?_) b (List.mem_cons_of_mem r hb)
        rw [hnew]
        exact List.mem_append_left new hmem
      · exact absurd hfinished hnot
    have hdepth' := Nat.lt_of_le_of_lt (length_unvisited_le items hv.mono) hdepth
    obtain ⟨hs'', hw⟩ := ih hroots hs' hpaths' hdepth'
    obtain ⟨new', hnew', hnewr'⟩ := hw.grows
    refine ⟨hs'', ⟨fun a ha => hw.mono a (hv.mono a ha), ?_, ?_, new ++ new', ?_, ?_⟩⟩
    · refine List.forall_mem_cons.2 ⟨hw.mono r (hv.roots r List.mem_cons_self), hw.roots⟩
    · intro a ha
      rcases hw.finished a ha with hold | hfinished
      · rcases hv.finished a hold with hold | hfinished
        · exact .inl hold
        · refine .inr ?_
          rw [List.foldl_cons, hnew']
          exact List.mem_append_left new' hfinished
      · exact .inr hfinished
    · rw [List.foldl_cons, hnew', hnew, List.append_assoc]
    · intro a ha
      rcases List.mem_append.1 ha with ha | ha
      · obtain ⟨hnot, q, hq, hlead⟩ := hnewr a ha
        rw [List.mem_singleton.1 hq] at hlead
        exact ⟨hnot, r, List.mem_cons_self, hlead⟩
      · obtain ⟨hnot, q, hq, hlead⟩ := hnewr' a ha
        exact ⟨fun hold => hnot (hv.mono a hold), q, List.mem_cons_of_mem r hq, hlead⟩

/-- A visit marks the item, visits what it leads to, and finishes it. -/
theorem visitsRight (hitems : ∀ a ∈ items, ∀ b ∈ next a, b ∈ items) (depth : ℕ) :
    VisitsRight next items depth := by
  induction depth with
  | zero => exact fun s a _ _ _ hdepth => absurd hdepth (Nat.not_lt_zero _)
  | succ depth ih =>
    intro s a hs hpaths ha hdepth
    rw [visit]
    split
    · next hvisited =>
      have hmem : a ∈ s.1 := List.contains_iff_mem.1 hvisited
      refine ⟨hs, fun _ hb => hb, List.forall_mem_singleton.2 hmem, fun _ hb => .inl hb, [], ?_, ?_⟩
      · exact (List.append_nil _).symm
      · exact List.forall_mem_nil _
    · next hvisited =>
      have hnot : a ∉ s.1 := fun hmem => hvisited (List.contains_iff_mem.2 hmem)
      have hmarked : PostOrder next (s.1 ++ [a], s.2) :=
        ⟨fun b hb => List.mem_append_left [a] (hs.visited b hb), hs.nodup,
          fun b hb c hc => List.mem_append_left [a] (hs.closed b hb c hc), hs.order⟩
      -- what is visited and not finished leads to the item, and the item to its successors
      have hlead : ∀ b ∈ s.1 ++ [a], b ∉ s.2 → LeadsTo next b a := by
        intro b hb hfinished
        rcases List.mem_append.1 hb with hb | hb
        · exact hpaths b hb hfinished a List.mem_cons_self
        · rw [List.mem_singleton.1 hb]
      have hchildren : PathsTo next (s.1 ++ [a], s.2) (next a) :=
        fun b hb hfinished c hc => (hlead b hb hfinished).tail hc
      have hlt := length_unvisited_lt ha hnot
      obtain ⟨hs', hv⟩ := visits_foldl ih (hitems a ha) hmarked hchildren
        (Nat.lt_of_lt_of_le hlt (Nat.lt_succ_iff.1 hdepth))
      obtain ⟨new, hnew, hnewr⟩ := hv.grows
      have hunfinished : a ∉ ((next a).foldl (visit next depth) (s.1 ++ [a], s.2)).2 := by
        rw [hnew]
        intro hmem
        rcases List.mem_append.1 hmem with hmem | hmem
        · exact hnot (hs.visited a hmem)
        · exact (hnewr a hmem).1 (List.mem_append_right s.1 List.mem_cons_self)
      have hmark := hv.mono a (List.mem_append_right s.1 List.mem_cons_self)
      refine ⟨hs'.snoc hmark hunfinished hv.roots ?_, ?_⟩
      · intro b hb
        rcases hv.finished b (hv.roots b hb) with hold | hfinished
        · by_cases hdone : b ∈ s.2
          · refine .inl ?_
            rw [hnew]
            exact List.mem_append_left new hdone
          · exact .inr (hlead b hold hdone)
        · exact .inl hfinished
      · refine ⟨fun b hb => hv.mono b (List.mem_append_left [a] hb), ?_, ?_, new ++ [a], ?_, ?_⟩
        · exact List.forall_mem_singleton.2 hmark
        · intro b hb
          rcases hv.finished b hb with hold | hfinished
          · rcases List.mem_append.1 hold with hold | hb
            · exact .inl hold
            · rw [List.mem_singleton.1 hb]
              exact .inr (List.mem_append_right _ List.mem_cons_self)
          · exact .inr (List.mem_append_left [a] hfinished)
        · show ((next a).foldl (visit next depth) (s.1 ++ [a], s.2)).2 ++ [a] = s.2 ++ (new ++ [a])
          rw [hnew, List.append_assoc]
        · intro b hb
          rcases List.mem_append.1 hb with hb | hb
          · obtain ⟨hold, c, hc, hcb⟩ := hnewr b hb
            refine ⟨fun hmem => hold (List.mem_append_left [a] hmem), a, List.mem_cons_self, ?_⟩
            exact ReflTransGen.head hc hcb
          · rw [List.mem_singleton.1 hb]
            exact ⟨hnot, a, List.mem_cons_self, ReflTransGen.refl⟩

/-! ## A search -/

section
variable {depth : ℕ} {roots : List α} (hitems : ∀ a ∈ items, ∀ b ∈ next a, b ∈ items)
  (hroots : ∀ a ∈ roots, a ∈ items) (hdepth : items.length < depth)
include hitems hroots hdepth

theorem visits_postOrder :
    PostOrder next (roots.foldl (visit next depth) ([], [])) ∧
      Visits next roots ([], []) (roots.foldl (visit next depth) ([], [])) := by
  refine visits_foldl (visitsRight hitems depth) hroots ?_ (List.forall_mem_nil _) ?_
  · refine ⟨List.forall_mem_nil _, List.nodup_nil, List.forall_mem_nil _, ?_⟩
    intro before a after h
    exact absurd h.symm (List.append_ne_nil_of_right_ne_nil before (List.cons_ne_nil a after))
  · exact Nat.lt_of_le_of_lt (List.length_filter_le _ items) hdepth

/-- A search finishes each item once. -/
theorem nodup_postOrder : (postOrder next depth roots).Nodup :=
  (visits_postOrder hitems hroots hdepth).1.nodup

/-- A search finishes what its roots lead to. -/
theorem mem_postOrder_iff {a : α} :
    a ∈ postOrder next depth roots ↔ ∃ r ∈ roots, LeadsTo next r a := by
  obtain ⟨hs, hv⟩ := visits_postOrder hitems hroots hdepth
  constructor
  · intro ha
    obtain ⟨new, hnew, hnewr⟩ := hv.grows
    rw [postOrder, hnew] at ha
    exact (hnewr a ha).2
  · rintro ⟨r, hr, hlead⟩
    have hfinished : ∀ b ∈ (roots.foldl (visit next depth) ([], [])).1,
        b ∈ postOrder next depth roots :=
      fun b hb => (hv.finished b hb).resolve_left List.not_mem_nil
    induction hlead with
    | refl => exact hfinished r (hv.roots r hr)
    | tail _ hbc ih => exact hfinished _ (hs.closed _ ih _ hbc)

/-- What an item leads to is finished before it, or leads back to it. -/
theorem exists_before_of_mem {a b : α} (ha : a ∈ postOrder next depth roots) (hb : b ∈ next a)
    (hback : ¬LeadsTo next b a) :
    ∃ before after, postOrder next depth roots = before ++ a :: after ∧ b ∈ before := by
  obtain ⟨before, after, heq⟩ := List.append_of_mem ha
  have horder := (visits_postOrder hitems hroots hdepth).1.order before a after heq b hb
  exact ⟨before, after, heq, horder.resolve_right hback⟩

end

/-- What the first root of a search leads to is finished before it. -/
theorem exists_before_root (hitems : ∀ a ∈ items, ∀ b ∈ next a, b ∈ items) {depth : ℕ}
    {root : α} {roots : List α} (hroots : ∀ a ∈ root :: roots, a ∈ items)
    (hdepth : items.length < depth) {a : α} (hlead : LeadsTo next root a) (hne : a ≠ root) :
    ∃ before after, postOrder next depth (root :: roots) = before ++ root :: after ∧
      a ∈ before := by
  obtain ⟨hroot, hroots⟩ := List.forall_mem_cons.1 hroots
  have hone := List.forall_mem_singleton.2 hroot
  obtain ⟨hs, hv⟩ := visits_postOrder hitems hone hdepth
  have ha : a ∈ postOrder next depth [root] :=
    (mem_postOrder_iff hitems hone hdepth).2 ⟨root, List.mem_cons_self, hlead⟩
  obtain ⟨depth, rfl⟩ : ∃ d, depth = d + 1 := ⟨depth - 1, by omega⟩
  have hlast : ∃ before, postOrder next (depth + 1) [root] = before ++ [root] := by
    rw [postOrder, List.foldl_cons, List.foldl_nil, visit, if_neg (by simp)]
    exact ⟨_, rfl⟩
  obtain ⟨before, hbefore⟩ := hlast
  rw [hbefore] at ha
  have hpaths : PathsTo next ([root].foldl (visit next (depth + 1)) ([], [])) roots := by
    intro b hb hnot
    exact absurd ((hv.finished b hb).resolve_left List.not_mem_nil) hnot
  have hroom := Nat.lt_of_le_of_lt (length_unvisited_le items hv.mono)
    (Nat.lt_of_le_of_lt (List.length_filter_le _ items) hdepth)
  obtain ⟨-, hw⟩ := visits_foldl (visitsRight hitems (depth + 1)) hroots hs hpaths hroom
  obtain ⟨new, hnew, -⟩ := hw.grows
  refine ⟨before, new, ?_, (List.mem_append.1 ha).resolve_right fun hmem => ?_⟩
  · rw [postOrder, List.foldl_cons]
    refine Eq.trans hnew ?_
    rw [postOrder] at hbefore
    rw [hbefore, List.append_assoc, List.singleton_append]
  · exact hne (List.mem_singleton.1 hmem)

end

end HeadlessErp
