import Mathlib.Algebra.BigOperators.Group.List.Lemmas
import Mathlib.Data.Finset.Card
import Mathlib.Data.List.Dedup
import Mathlib.Data.List.Forall2

/-!
# Groups of rows

What `GROUP BY` makes of a list of rows: the keys that occur, each once and in any order (`Groups`). A
sum over the rows is the sum over the groups (`sum_groups`), and a map of the keys to a list without
duplicates is injective on what occurs just when no two keys are merged (`Enumerates.of_image`,
`Enumerates.injective_of_length`).
-/

namespace HeadlessErp

variable {R K α β N : Type}

/-- The list has each element that satisfies the predicate once, and nothing else. -/
structure Enumerates (l : List α) (p : α → Prop) : Prop where
  nodup : l.Nodup
  mem : ∀ a, a ∈ l ↔ p a

/-- The groups of a query, in the order in which the database gives them. -/
structure Groups (rows : List R) (key : R → K) where
  keys : List K
  enumerates : Enumerates keys fun k => ∃ r ∈ rows, key r = k

/-- The groups in the order of their first rows. -/
def Groups.ofRows [DecidableEq K] (rows : List R) (key : R → K) : Groups rows key where
  keys := (rows.map key).dedup
  enumerates := ⟨List.nodup_dedup _, fun k => by rw [List.mem_dedup, List.mem_map]⟩

/-! ## Images -/

/-- A list whose elements are images is the image of a list. -/
theorem exists_map_eq {f : α → β} {p : α → Prop} {keys : List β}
    (h : ∀ k ∈ keys, ∃ a, p a ∧ f a = k) : ∃ l : List α, l.map f = keys ∧ ∀ a ∈ l, p a := by
  induction keys with
  | nil => exact ⟨[], rfl, fun _ ha => absurd ha List.not_mem_nil⟩
  | cons k keys ih =>
    obtain ⟨a, ha, rfl⟩ := h k List.mem_cons_self
    obtain ⟨l, rfl, hl⟩ := ih fun k hk => h k (List.mem_cons_of_mem _ hk)
    refine ⟨a :: l, rfl, fun b hb => ?_⟩
    obtain rfl | hb := List.mem_cons.1 hb
    · exact ha
    · exact hl b hb

namespace Enumerates
variable {f : α → β} {p : α → Prop} {keys : List β} {l : List α}

/-- An enumeration of the images comes from one of the elements, if the map is injective on them. -/
theorem of_image (h : Enumerates keys fun k => ∃ a, p a ∧ f a = k)
    (hf : ∀ a b, p a → p b → f a = f b → a = b) : ∃ l : List α, Enumerates l p ∧ l.map f = keys := by
  obtain ⟨l, rfl, hl⟩ := exists_map_eq fun k hk => (h.mem k).1 hk
  refine ⟨l, ⟨h.nodup.of_map f, fun a => ⟨hl a, fun ha => ?_⟩⟩, rfl⟩
  obtain ⟨b, hb, heq⟩ := List.mem_map.1 ((h.mem (f a)).2 ⟨a, ha, rfl⟩)
  exact hf b a (hl b hb) ha heq ▸ hb

/-- A map that gives as many images as there are elements is injective on them. -/
theorem injective_of_length (hl : Enumerates l p)
    (h : Enumerates keys fun k => ∃ a, p a ∧ f a = k) (hlength : l.length = keys.length)
    {a b : α} (ha : p a) (hb : p b) (heq : f a = f b) : a = b := by
  classical
  have himage : l.toFinset.image f = keys.toFinset := by
    ext k
    simp only [Finset.mem_image, List.mem_toFinset, hl.mem, h.mem]
  have hcard : (l.toFinset.image f).card = l.toFinset.card := by
    rw [himage, List.toFinset_card_of_nodup h.nodup, List.toFinset_card_of_nodup hl.nodup, hlength]
  refine Finset.card_image_iff.1 hcard ?_ ?_ heq
  · exact List.mem_toFinset.2 ((hl.mem a).2 ha)
  · exact List.mem_toFinset.2 ((hl.mem b).2 hb)

end Enumerates

/-- Two lists with the same images are related element by element. -/
theorem forall₂_of_map_eq {γ : Type} {f : α → γ} {g : β → γ} {p : α → β → Prop} {as : List α}
    {bs : List β} (h : as.map f = bs.map g) (hp : ∀ a ∈ as, ∀ b ∈ bs, f a = g b → p a b) :
    List.Forall₂ p as bs := by
  induction as generalizing bs with
  | nil =>
    obtain rfl := List.map_eq_nil_iff.1 h.symm
    exact .nil
  | cons a as ih =>
    obtain ⟨b, bs, rfl, hb, hbs⟩ := List.map_eq_cons_iff.1 h.symm
    exact .cons (hp a List.mem_cons_self b List.mem_cons_self hb.symm)
      (ih hbs.symm fun a ha b hb => hp a (List.mem_cons_of_mem _ ha) b (List.mem_cons_of_mem _ hb))

/-- Lists that are related element by element have the images that related elements share. -/
theorem map_eq_of_forall₂ {γ : Type} {f : α → γ} {g : β → γ} {p : α → β → Prop} {as : List α}
    {bs : List β} (h : List.Forall₂ p as bs) (hp : ∀ a b, p a b → f a = g b) :
    as.map f = bs.map g := by
  induction h with
  | nil => rfl
  | cons hab _ ih => rw [List.map_cons, List.map_cons, hp _ _ hab, ih]

/-- Each element on the left has one on the right. -/
theorem exists_right_of_forall₂ {p : α → β → Prop} {as : List α} {bs : List β}
    (h : List.Forall₂ p as bs) {a : α} (ha : a ∈ as) : ∃ b ∈ bs, p a b := by
  induction h with
  | nil => cases ha
  | cons hab _ ih =>
    obtain rfl | ha := List.mem_cons.1 ha
    · exact ⟨_, List.mem_cons_self, hab⟩
    · obtain ⟨b, hb, hp⟩ := ih ha
      exact ⟨b, List.mem_cons_of_mem _ hb, hp⟩

/-! ## Sums -/

section
variable [AddCommMonoid N] [DecidableEq K]

/-- Only the key itself contributes. -/
theorem sum_map_of_mem {keys : List K} (hnodup : keys.Nodup) {k₀ : K} (h : k₀ ∈ keys) (n : N) :
    (keys.map fun k => if k₀ = k then n else 0).sum = n := by
  induction keys with
  | nil => cases h
  | cons k keys ih =>
    obtain ⟨hfresh, hnodup⟩ := List.nodup_cons.1 hnodup
    rw [List.map_cons, List.sum_cons]
    obtain rfl | hrest := List.mem_cons.1 h
    · have hzero : (keys.map fun k => if k₀ = k then n else 0).sum = 0 := by
        refine List.sum_eq_zero fun m hm => ?_
        obtain ⟨k, hk, rfl⟩ := List.mem_map.1 hm
        have hne : ¬k₀ = k := by
          rintro rfl
          exact hfresh hk
        exact if_neg hne
      rw [if_pos rfl, hzero, add_zero]
    · have hne : ¬k₀ = k := by
        rintro rfl
        exact hfresh hrest
      rw [if_neg hne, zero_add, ih hnodup hrest]

/-- What the rows sum up to is what their groups sum up to. -/
theorem sum_groups (key : R → K) (weight : R → N) {keys : List K} (hnodup : keys.Nodup)
    {rows : List R} (hmem : ∀ r ∈ rows, key r ∈ keys) :
    (keys.map fun k => ((rows.filter (key · = k)).map weight).sum).sum =
      (rows.map weight).sum := by
  induction rows with
  | nil =>
    refine List.sum_eq_zero fun n hn => ?_
    obtain ⟨k, -, rfl⟩ := List.mem_map.1 hn
    rfl
  | cons r rows ih =>
    have hgroup : (fun k => (((r :: rows).filter (key · = k)).map weight).sum) =
        fun k => (if key r = k then weight r else 0) +
          ((rows.filter (key · = k)).map weight).sum := by
      funext k
      rw [List.filter_cons]
      by_cases h : key r = k
      · rw [if_pos (decide_eq_true h), if_pos h, List.map_cons, List.sum_cons]
      · rw [if_neg (by simpa using h), if_neg h, zero_add]
    rw [hgroup, List.sum_map_add, sum_map_of_mem hnodup (hmem r List.mem_cons_self),
      ih fun r hr => hmem r (List.mem_cons_of_mem _ hr), List.map_cons, List.sum_cons]

end

end HeadlessErp
