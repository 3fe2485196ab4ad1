import Mathlib.Logic.Relation

/-!
# Searching level by level

A breadth-first search of a relation: a state has the elements that have been visited and those of
the level that is expanded next. A step that expands a level (`Expands`) makes the fresh successors of
the level the next one. In a finite universe the search ends, and it has visited what can be reached
from where it started (`LevelSearch.mem_visited_run`).
-/

namespace HeadlessErp

open Relation (ReflTransGen)

/-- A search: its step, what it has visited and its level. -/
structure LevelSearch (σ α : Type) where
  step : σ → σ
  visited : σ → List α
  level : σ → List α

/-- A step from one state to another expands the level: the next level is new, reached from the level,
and with what was visited before it is all that is reached from the level. -/
structure Expands {α : Type} (R : α → α → Prop) (visited level visited' level' : List α) : Prop where
  union : ∀ a, a ∈ visited' ↔ a ∈ visited ∨ a ∈ level'
  fresh : ∀ a ∈ level', a ∉ visited
  reached : ∀ a ∈ level', ∃ b ∈ level, R b a
  complete : ∀ b ∈ level, ∀ a, R b a → a ∈ visited'

namespace LevelSearch
variable {σ α : Type} (S : LevelSearch σ α)

/-- The steps of a search until the level is empty, at most `n` of them. -/
def run : Nat → σ → σ
  | 0, s => s
  | n + 1, s => if (S.level s).isEmpty then s else run n (S.step s)

variable {S} {R : α → α → Prop} {I : σ → Prop} {s : σ}

/-- What every step keeps holds after a run. -/
theorem run_invariant (hstep : ∀ s, I s → I (S.step s)) (h : I s) (n : Nat) : I (S.run n s) := by
  induction n generalizing s with
  | zero => exact h
  | succ n ih =>
    unfold run
    split
    · exact h
    · exact ih (hstep s h)

/-- What is visited has been reached from where the search started, and what is not in the level has
its successors visited. -/
structure Explored (S : LevelSearch σ α) (R : α → α → Prop) (start : List α) (s : σ) : Prop where
  started : ∀ a ∈ start, a ∈ S.visited s
  level : ∀ a ∈ S.level s, a ∈ S.visited s
  reached : ∀ a ∈ S.visited s, ∃ b ∈ start, ReflTransGen R b a
  closed : ∀ b ∈ S.visited s, b ∈ S.level s ∨ ∀ a, R b a → a ∈ S.visited s

theorem Explored.step {start : List α} (h : Explored S R start s)
    (hs : Expands R (S.visited s) (S.level s) (S.visited (S.step s)) (S.level (S.step s))) :
    Explored S R start (S.step s) where
  started a ha := (hs.union a).2 (.inl (h.started a ha))
  level a ha := (hs.union a).2 (.inr ha)
  reached a ha := by
    obtain hold | hnew := (hs.union a).1 ha
    · exact h.reached a hold
    · obtain ⟨b, hb, hR⟩ := hs.reached a hnew
      obtain ⟨c, hc, hreach⟩ := h.reached b (h.level b hb)
      exact ⟨c, hc, hreach.tail hR⟩
  closed b hb := by
    obtain hold | hnew := (hs.union b).1 hb
    · obtain hlevel | hclosed := h.closed b hold
      · exact .inr (hs.complete b hlevel)
      · exact .inr fun a hR => (hs.union a).2 (.inl (hclosed a hR))
    · exact .inl hnew

/-- The elements of the universe that have not been visited. -/
def unvisited [DecidableEq α] (S : LevelSearch σ α) (U : List α) (s : σ) : List α :=
  U.filter (· ∉ S.visited s)

/-- A step that finds something leaves less to be visited. -/
theorem unvisited_step_lt [DecidableEq α] {U : List α}
    (hs : Expands R (S.visited s) (S.level s) (S.visited (S.step s)) (S.level (S.step s)))
    (hU : ∀ a ∈ S.level (S.step s), a ∈ U) (hne : S.level (S.step s) ≠ []) :
    (S.unvisited U (S.step s)).length < (S.unvisited U s).length := by
  obtain ⟨a, ha⟩ := List.exists_mem_of_ne_nil _ hne
  have hsplit : S.unvisited U (S.step s) =
      (S.unvisited U s).filter (· ∉ S.visited (S.step s)) := by
    unfold unvisited
    rw [List.filter_filter]
    refine List.filter_congr fun b _ => ?_
    have hmono : b ∈ S.visited s → b ∈ S.visited (S.step s) := fun hb => (hs.union b).2 (.inl hb)
    by_cases hb : b ∈ S.visited (S.step s)
    · simp [hb]
    · have hold : b ∉ S.visited s := fun h => hb (hmono h)
      simp [hb, hold]
  rw [hsplit]
  refine List.length_filter_lt_length_iff_exists.2 ⟨a, ?_, ?_⟩
  · exact List.mem_filter.2 ⟨hU a ha, by simpa using hs.fresh a ha⟩
  · simpa using (hs.union a).2 (.inr ha)

/-- A search in a finite universe ends with an empty level. -/
theorem level_run [DecidableEq α] {U : List α}
    (hstep : ∀ s, I s → I (S.step s) ∧
      Expands R (S.visited s) (S.level s) (S.visited (S.step s)) (S.level (S.step s)) ∧
      ∀ a ∈ S.level (S.step s), a ∈ U)
    (h : I s) {n : Nat} (hn : (S.unvisited U s).length < n) : S.level (S.run (n + 1) s) = [] := by
  induction n generalizing s with
  | zero => omega
  | succ n ih =>
    unfold run
    split
    · next hempty => exact List.isEmpty_iff.1 hempty
    · obtain ⟨hI, hs, hU⟩ := hstep s h
      by_cases hne : S.level (S.step s) = []
      · unfold run
        rw [hne]
        exact hne
      · refine ih hI ?_
        have hlt := unvisited_step_lt hs hU hne
        omega

/-- A search in a finite universe visits what is reached from where it starts, and nothing else. -/
theorem mem_visited_run [DecidableEq α] {U : List α}
    (hstep : ∀ s, I s → I (S.step s) ∧
      Expands R (S.visited s) (S.level s) (S.visited (S.step s)) (S.level (S.step s)) ∧
      ∀ a ∈ S.level (S.step s), a ∈ U)
    (h : I s) (hlevel : S.level s = S.visited s) {n : Nat} (hn : U.length < n) (a : α) :
    a ∈ S.visited (S.run (n + 1) s) ↔ ∃ b ∈ S.visited s, ReflTransGen R b a := by
  have hstart : Explored S R (S.visited s) s := by
    refine ⟨fun _ ha => ha, fun _ ha => hlevel ▸ ha, fun a ha => ⟨a, ha, .refl⟩, fun b hb => ?_⟩
    exact .inl (hlevel ▸ hb)
  have hend : I (S.run (n + 1) s) ∧ Explored S R (S.visited s) (S.run (n + 1) s) :=
    run_invariant (I := fun t => I t ∧ Explored S R (S.visited s) t)
      (fun t ht => ⟨(hstep t ht.1).1, ht.2.step (hstep t ht.1).2.1⟩) ⟨h, hstart⟩ (n + 1)
  obtain ⟨-, hexplored⟩ := hend
  have hempty : S.level (S.run (n + 1) s) = [] :=
    level_run hstep h (Nat.lt_of_le_of_lt (List.length_filter_le _ _) hn)
  constructor
  · exact hexplored.reached a
  · rintro ⟨b, hb, hreach⟩
    -- what is visited is closed under the relation
    induction hreach with
    | refl => exact hexplored.started b hb
    | tail _ hR ih =>
      obtain hlevel' | hclosed := hexplored.closed _ ih
      · rw [hempty] at hlevel'
        cases hlevel'
      · exact hclosed _ hR

end LevelSearch

end HeadlessErp
