import Mathlib.Data.List.Basic
import Mathlib.Data.Set.Basic

/-!
# Sorting by rounds

Items that mention one another are put in an order by rounds: a round takes one item after another,
and orders the ones that mention nothing that is left. When a round orders none, what is left
follows as it stands. The items that are left then are the ones that are stuck (`mem_iff_stuck`):
each mentions another one of them. A relation along mentions points backwards in the result just
when it does so among them (`pairwise_sortByRounds_iff`).
-/

namespace HeadlessErp

section
variable {α : Type} [DecidableEq α] (mentions : α → List α)

/-- Nothing is left that the item mentions, itself apart. -/
def isReady (remaining : List α) (a : α) : Bool :=
  (mentions a).all fun d => !remaining.contains d || d == a

/-- The items that are left, those in order, and whether the round has ordered one. -/
structure RoundState (α : Type) where
  remaining : List α
  ordered : List α
  progress : Bool

/-- An item of a round. -/
def sortStep (s : RoundState α) (a : α) : RoundState α :=
  if isReady mentions s.remaining a then ⟨s.remaining.erase a, s.ordered ++ [a], true⟩ else s

/-- A round over what is left. -/
def sortRound (remaining ordered : List α) : RoundState α :=
  remaining.foldl (sortStep mentions) ⟨remaining, ordered, false⟩

/-- Rounds, until one orders nothing. -/
def sortRounds : Nat → List α → List α → List α
  | 0, _, ordered => ordered
  | rounds + 1, remaining, ordered =>
    if remaining.isEmpty then ordered
    else
      let s := sortRound mentions remaining ordered
      if s.progress then sortRounds rounds s.remaining s.ordered else s.ordered ++ s.remaining

/-- The items in the order of the rounds. -/
def sortByRounds (l : List α) : List α := sortRounds mentions (l.length + 1) l []

/-! ## What the rounds keep -/

/-- The items in order mention only earlier ones, and none that is left. -/
structure RoundInvariant (l remaining ordered : List α) : Prop where
  kept : remaining.Sublist l
  perm : (ordered ++ remaining).Perm l
  earlier : ordered.Pairwise fun a b => b ∉ mentions a
  settled : ∀ a ∈ ordered, ∀ b ∈ remaining, b ∉ mentions a

variable {mentions} {l : List α}

theorem not_mem_mentions {remaining : List α} {a b : α} (h : isReady mentions remaining a = true)
    (hb : b ∈ remaining) (hne : b ≠ a) : b ∉ mentions a := by
  intro hmem
  have hall := List.all_eq_true.1 h b hmem
  simp [hb, hne] at hall

theorem exists_mention {remaining : List α} {a : α} (h : isReady mentions remaining a = false) :
    ∃ b ∈ remaining, b ≠ a ∧ b ∈ mentions a := by
  obtain ⟨b, hmem, hb⟩ := List.all_eq_false.1 h
  simp only [Bool.or_eq_true, Bool.not_eq_true', beq_iff_eq, not_or, Bool.not_eq_false,
    List.contains_iff_mem] at hb
  exact ⟨b, hb.1, hb.2, hmem⟩

theorem RoundInvariant.step (hl : l.Nodup) {s : RoundState α}
    (h : RoundInvariant mentions l s.remaining s.ordered) {a : α} (ha : a ∈ s.remaining) :
    RoundInvariant mentions l (sortStep mentions s a).remaining
      (sortStep mentions s a).ordered := by
  unfold sortStep
  split
  · next hready =>
    have hnodup : s.remaining.Nodup := hl.sublist h.kept
    refine ⟨(List.erase_sublist).trans h.kept, ?_, ?_, ?_⟩
    · have hperm : (a :: s.remaining.erase a).Perm s.remaining := (List.perm_cons_erase ha).symm
      rw [List.append_assoc, List.singleton_append]
      exact (hperm.append_left s.ordered).trans h.perm
    · refine List.pairwise_append.2 ⟨h.earlier, List.pairwise_singleton _ _, ?_⟩
      intro b hb c hc
      rw [List.mem_singleton.1 hc]
      exact h.settled b hb a ha
    · intro b hb c hc
      obtain ⟨hne, hc⟩ := (List.Nodup.mem_erase_iff hnodup).1 hc
      rcases List.mem_append.1 hb with hb | hb
      · exact h.settled b hb c hc
      · rw [List.mem_singleton.1 hb]
        exact not_mem_mentions hready hc hne
  · exact h

/-- A round keeps the invariant. It leaves fewer items, or as many as before, of which the ones it
took are not ready. -/
theorem RoundInvariant.foldl (hl : l.Nodup) {items : List α} (hitems : items.Nodup)
    {s : RoundState α} (h : RoundInvariant mentions l s.remaining s.ordered)
    (hleft : ∀ a ∈ items, a ∈ s.remaining) :
    RoundInvariant mentions l (items.foldl (sortStep mentions) s).remaining
        (items.foldl (sortStep mentions) s).ordered ∧
      ((items.foldl (sortStep mentions) s).progress = true ∧
          ((items.foldl (sortStep mentions) s).remaining.length < s.remaining.length ∨
            s.progress = true ∧ (items.foldl (sortStep mentions) s).remaining.length ≤
              s.remaining.length) ∨
        items.foldl (sortStep mentions) s = s ∧
          ∀ a ∈ items, isReady mentions s.remaining a = false) := by
  induction items generalizing s with
  | nil => exact ⟨h, .inr ⟨rfl, List.forall_mem_nil _⟩⟩
  | cons a items ih =>
    obtain ⟨ha, hitems⟩ := List.nodup_cons.1 hitems
    have hmem : a ∈ s.remaining := hleft a List.mem_cons_self
    rw [List.foldl_cons]
    cases hready : isReady mentions s.remaining a with
    | true =>
      have hstep : sortStep mentions s a = ⟨s.remaining.erase a, s.ordered ++ [a], true⟩ := by
        rw [sortStep, if_pos hready]
      have hlt : (s.remaining.erase a).length < s.remaining.length := by
        have hpos := List.length_pos_of_mem hmem
        rw [List.length_erase_of_mem hmem]
        omega
      have hnext := ih hitems (h.step hl hmem) fun b hb => by
        rw [hstep]
        have hne : b ≠ a := fun heq => ha (heq ▸ hb)
        exact (List.mem_erase_of_ne hne).2 (hleft b (List.mem_cons_of_mem a hb))
      rw [hstep] at hnext ⊢
      refine ⟨hnext.1, .inl ?_⟩
      rcases hnext.2 with ⟨hprogress, hless | ⟨-, hle⟩⟩ | ⟨heq, -⟩
      · exact ⟨hprogress, .inl (Nat.lt_trans hless hlt)⟩
      · exact ⟨hprogress, .inl (Nat.lt_of_le_of_lt hle hlt)⟩
      · rw [heq]
        exact ⟨rfl, .inl hlt⟩
    | false =>
      have hstep : sortStep mentions s a = s := by
        rw [sortStep, hready, if_neg Bool.false_ne_true]
      rw [hstep]
      have hnext := ih hitems h fun b hb => hleft b (List.mem_cons_of_mem a hb)
      refine ⟨hnext.1, ?_⟩
      rcases hnext.2 with hprogress | ⟨heq, hrest⟩
      · exact .inl hprogress
      · exact .inr ⟨heq, List.forall_mem_cons.2 ⟨hready, hrest⟩⟩

/-- The rounds end with the items that are in order, and those that are left, of which none is
ready. -/
theorem exists_of_sortRounds (hl : l.Nodup) {rounds : ℕ} {remaining ordered : List α}
    (h : RoundInvariant mentions l remaining ordered) (hrounds : remaining.length < rounds) :
    ∃ good bad, sortRounds mentions rounds remaining ordered = good ++ bad ∧
      RoundInvariant mentions l bad good ∧ ∀ a ∈ bad, isReady mentions bad a = false := by
  induction rounds generalizing remaining ordered with
  | zero => omega
  | succ rounds ih =>
    rw [sortRounds]
    split
    · next hempty =>
      rw [List.isEmpty_iff] at hempty
      subst hempty
      exact ⟨ordered, [], (List.append_nil _).symm, h, List.forall_mem_nil _⟩
    · obtain ⟨hround, hprogress⟩ := RoundInvariant.foldl (s := ⟨remaining, ordered, false⟩) hl
        (hl.sublist h.kept) h fun a ha => ha
      rw [← sortRound] at hround hprogress
      rcases hprogress with ⟨hprogress, hless⟩ | ⟨heq, hnone⟩
      · rw [if_pos hprogress]
        refine ih hround ?_
        rcases hless with hless | ⟨hfalse, -⟩
        · exact Nat.lt_of_lt_of_le hless (Nat.lt_succ_iff.1 hrounds)
        · cases hfalse
      · rw [heq, if_neg Bool.false_ne_true]
        exact ⟨ordered, remaining, rfl, h, hnone⟩

/-! ## The items that are stuck -/

/-- The item belongs to some items each of which mentions another one of them. -/
def Stuck (mentions : α → List α) (l : List α) (a : α) : Prop :=
  ∃ T : Set α, a ∈ T ∧ (∀ t ∈ T, t ∈ l) ∧ ∀ t ∈ T, ∃ u ∈ T, u ≠ t ∧ u ∈ mentions t

omit [DecidableEq α] in
/-- No such item is in order. -/
theorem not_mem_of_stuck {good bad : List α} {T : Set α}
    (hearlier : good.Pairwise fun a b => b ∉ mentions a)
    (hsettled : ∀ a ∈ good, ∀ b ∈ bad, b ∉ mentions a) (hT : ∀ t ∈ T, t ∈ good ++ bad)
    (hstuck : ∀ t ∈ T, ∃ u ∈ T, u ≠ t ∧ u ∈ mentions t) : ∀ a ∈ good, a ∉ T := by
  induction good with
  | nil => exact List.forall_mem_nil _
  | cons a good ih =>
    obtain ⟨hfirst, hearlier⟩ := List.pairwise_cons.1 hearlier
    have ha : a ∉ T := by
      intro ha
      obtain ⟨u, hu, hne, hmentions⟩ := hstuck a ha
      rcases List.mem_append.1 (hT u hu) with hgood | hbad
      · exact hfirst u ((List.mem_cons.1 hgood).resolve_left hne) hmentions
      · exact hsettled a List.mem_cons_self u hbad hmentions
    refine List.forall_mem_cons.2 ⟨ha, ih hearlier (fun b hb => ?_) fun t ht => ?_⟩
    · exact hsettled b (List.mem_cons_of_mem a hb)
    · have hmem := hT t ht
      rw [List.cons_append] at hmem
      exact (List.mem_cons.1 hmem).resolve_left fun heq => ha (heq ▸ ht)

/-- The items that are left are the ones that are stuck. -/
theorem mem_iff_stuck {good bad : List α} (h : RoundInvariant mentions l bad good)
    (hnone : ∀ a ∈ bad, isReady mentions bad a = false) {a : α} : a ∈ bad ↔ Stuck mentions l a := by
  constructor
  · intro ha
    refine ⟨{b | b ∈ bad}, ha, fun t ht => h.kept.subset ht, fun t ht => ?_⟩
    exact exists_mention (hnone t ht)
  · rintro ⟨T, ha, hT, hstuck⟩
    have hmem : ∀ t ∈ T, t ∈ good ++ bad := fun t ht => h.perm.mem_iff.2 (hT t ht)
    refine (List.mem_append.1 (hmem a ha)).resolve_left fun hgood => ?_
    exact not_mem_of_stuck h.earlier h.settled hmem hstuck a hgood ha

/-- The result has the items of the list. -/
theorem perm_sortByRounds (mentions : α → List α) (hl : l.Nodup) : (sortByRounds mentions l).Perm l := by
  have hstart : RoundInvariant mentions l l [] :=
    ⟨List.Sublist.refl l, List.Perm.refl l, List.Pairwise.nil, List.forall_mem_nil _⟩
  obtain ⟨good, bad, hsort, h, -⟩ := exists_of_sortRounds hl hstart (Nat.lt_succ_self l.length)
  rw [sortByRounds, hsort]
  exact h.perm

omit [DecidableEq α] in
theorem pairwise_of_sublist {s : List α} (hs : s.Sublist l) (hl : l.Nodup) {R : α → α → Prop}
    (h : s.Pairwise R) : l.Pairwise fun a b => a ∈ s → b ∈ s → R a b := by
  induction hs with
  | slnil => exact .nil
  | @cons s l a hs ih =>
    obtain ⟨ha, hl⟩ := List.nodup_cons.1 hl
    refine List.pairwise_cons.2 ⟨fun b _ hmem => ?_, ih hl h⟩
    exact absurd (hs.subset hmem) ha
  | @cons_cons s l a hs ih =>
    obtain ⟨ha, hl⟩ := List.nodup_cons.1 hl
    obtain ⟨hfirst, h⟩ := List.pairwise_cons.1 h
    refine List.pairwise_cons.2 ⟨fun b hb _ hmem => ?_, (ih hl h).imp_of_mem ?_⟩
    · exact hfirst b ((List.mem_cons.1 hmem).resolve_left fun heq => ha (heq ▸ hb))
    · intro b c hb hc hR hbs hcs
      exact hR ((List.mem_cons.1 hbs).resolve_left fun heq => ha (heq ▸ hb))
        ((List.mem_cons.1 hcs).resolve_left fun heq => ha (heq ▸ hc))

/-- A relation along mentions points backwards in the result just when it does so among the items
that are stuck, as the list has them. -/
theorem pairwise_sortByRounds_iff (mentions : α → List α) (hl : l.Nodup) {R : α → α → Prop}
    (hR : ∀ a ∈ l, ∀ b ∈ l, a ≠ b → R a b → b ∈ mentions a) :
    (sortByRounds mentions l).Pairwise (fun a b => ¬R a b) ↔
      l.Pairwise fun a b => Stuck mentions l a → Stuck mentions l b → ¬R a b := by
  have hstart : RoundInvariant mentions l l [] :=
    ⟨List.Sublist.refl l, List.Perm.refl l, List.Pairwise.nil, List.forall_mem_nil _⟩
  obtain ⟨good, bad, hsort, h, hnone⟩ := exists_of_sortRounds hl hstart (Nat.lt_succ_self l.length)
  have hmem : ∀ a ∈ good ++ bad, a ∈ l := fun a ha => h.perm.mem_iff.1 ha
  have hdistinct : (good ++ bad).Nodup := h.perm.nodup_iff.2 hl
  obtain ⟨-, -, hapart⟩ := List.nodup_append.1 hdistinct
  have hgood : good.Pairwise fun a b => ¬R a b := by
    refine (h.earlier.and (List.nodup_append.1 hdistinct).1).imp_of_mem ?_
    intro a b ha hb hab hrel
    exact hab.1 (hR a (hmem a (List.mem_append_left bad ha)) b
      (hmem b (List.mem_append_left bad hb)) hab.2 hrel)
  have hcross : ∀ a ∈ good, ∀ b ∈ bad, ¬R a b := by
    intro a ha b hb hrel
    exact h.settled a ha b hb (hR a (hmem a (List.mem_append_left bad ha)) b
      (hmem b (List.mem_append_right good hb)) (hapart a ha b hb) hrel)
  have hbad : (good ++ bad).Pairwise (fun a b => ¬R a b) ↔ bad.Pairwise fun a b => ¬R a b :=
    ⟨fun hall => (List.pairwise_append.1 hall).2.1,
      fun hbad => List.pairwise_append.2 ⟨hgood, hbad, hcross⟩⟩
  have hleft {a : α} : a ∈ bad ↔ Stuck mentions l a := mem_iff_stuck h hnone
  rw [sortByRounds, hsort, hbad]
  constructor
  · intro hpairs
    refine (pairwise_of_sublist h.kept hl hpairs).imp fun hab ha hb => ?_
    exact hab (hleft.2 ha) (hleft.2 hb)
  · intro hpairs
    refine (hpairs.sublist h.kept).imp_of_mem fun ha hb hab => ?_
    exact hab (hleft.1 ha) (hleft.1 hb)

end

end HeadlessErp
