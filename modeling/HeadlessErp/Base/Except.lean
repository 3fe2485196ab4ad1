/-!
# Computations that may throw

What is known of the parts of an `Except` computation that has returned.
-/

namespace HeadlessErp

/-- What is read before the rest of a computation that does not throw. -/
theorem exists_of_bind_eq_ok {ε α β : Type} {x : Except ε α} {f : α → Except ε β} {b : β}
    (h : x >>= f = .ok b) : ∃ a, x = .ok a ∧ f a = .ok b := by
  cases x with
  | error e => cases h
  | ok a => exact ⟨a, rfl, h⟩

theorem bind_of_eq_ok {ε α β : Type} {x : Except ε α} {a : α} (h : x = .ok a)
    (f : α → Except ε β) : x >>= f = f a := by
  rw [h]
  rfl

/-- What is changed of a result. -/
theorem exists_of_map_eq_ok {ε α β : Type} {x : Except ε α} {f : α → β} {b : β}
    (h : f <$> x = .ok b) : ∃ a, x = .ok a ∧ f a = b := by
  cases x with
  | error e => cases h
  | ok a =>
    cases h
    exact ⟨a, rfl, rfl⟩

/-- A loop that does not throw throws at no item. -/
theorem ok_of_mapM_eq_ok {ε α β : Type} {f : α → Except ε β} {l : List α} {l' : List β}
    (h : l.mapM f = .ok l') : ∀ a ∈ l, ∃ b, f a = .ok b := by
  induction l generalizing l' with
  | nil => nofun
  | cons a l ih =>
    rw [List.mapM_cons] at h
    cases ha : f a with
    | error e =>
      rw [ha] at h
      cases h
    | ok b =>
      cases hl : l.mapM f with
      | error e =>
        rw [ha, hl] at h
        cases h
      | ok bs => exact List.forall_mem_cons.2 ⟨⟨b, ha⟩, ih hl⟩

/-- A loop that does not throw returns as many results as there are items. -/
theorem length_of_mapM_eq_ok {ε α β : Type} {f : α → Except ε β} {l : List α} {l' : List β}
    (h : l.mapM f = .ok l') : l'.length = l.length := by
  induction l generalizing l' with
  | nil =>
    cases h
    rfl
  | cons a l ih =>
    rw [List.mapM_cons] at h
    cases ha : f a with
    | error e =>
      rw [ha] at h
      cases h
    | ok b =>
      cases hl : l.mapM f with
      | error e =>
        rw [ha, hl] at h
        cases h
      | ok bs =>
        rw [ha, hl] at h
        cases h
        rw [List.length_cons, List.length_cons, ih hl]

/-- What a loop collects is what its steps return. -/
theorem exists_of_mem_mapM {ε α β : Type} {f : α → Except ε β} {l : List α} {l' : List β}
    (h : l.mapM f = .ok l') : ∀ b ∈ l', ∃ a ∈ l, f a = .ok b := by
  induction l generalizing l' with
  | nil =>
    cases h
    nofun
  | cons a l ih =>
    rw [List.mapM_cons] at h
    obtain ⟨b, hb, h⟩ := exists_of_bind_eq_ok h
    obtain ⟨bs, hbs, h⟩ := exists_of_bind_eq_ok h
    cases h
    intro b' hb'
    obtain rfl | hb' := List.mem_cons.1 hb'
    · exact ⟨a, List.mem_cons_self, hb⟩
    · obtain ⟨a', ha', hf⟩ := ih hbs b' hb'
      exact ⟨a', List.mem_cons_of_mem _ ha', hf⟩

/-- What a step returns is collected. -/
theorem mem_of_mapM_eq_ok {ε α β : Type} {f : α → Except ε β} {l : List α} {l' : List β}
    (h : l.mapM f = .ok l') {a : α} (ha : a ∈ l) {b : β} (hb : f a = .ok b) : b ∈ l' := by
  induction l generalizing l' with
  | nil => cases ha
  | cons a₀ l ih =>
    rw [List.mapM_cons] at h
    obtain ⟨b₀, hb₀, h⟩ := exists_of_bind_eq_ok h
    obtain ⟨bs, hbs, h⟩ := exists_of_bind_eq_ok h
    cases h
    obtain rfl | ha := List.mem_cons.1 ha
    · cases hb₀.symm.trans hb
      exact List.mem_cons_self
    · exact List.mem_cons_of_mem _ (ih hbs ha)

/-- A loop that does not throw throws at no step. -/
theorem ok_of_foldlM_eq_ok {ε α β : Type} {f : β → α → Except ε β} {l : List α} {b b' : β}
    (h : l.foldlM f b = .ok b') : ∀ a ∈ l, ∃ c c', f c a = .ok c' := by
  induction l generalizing b with
  | nil => exact fun a ha => absurd ha List.not_mem_nil
  | cons a l ih =>
    rw [List.foldlM_cons] at h
    obtain ⟨c, hc, h⟩ := exists_of_bind_eq_ok h
    exact List.forall_mem_cons.2 ⟨⟨b, c, hc⟩, ih h⟩

/-- What every step of a loop preserves holds when the loop returns. -/
theorem foldlM_invariant {ε α β : Type} {f : β → α → Except ε β} {l : List α} {b b' : β}
    {I : β → Prop} (h : l.foldlM f b = .ok b') (hb : I b)
    (step : ∀ b a b', a ∈ l → I b → f b a = .ok b' → I b') : I b' := by
  induction l generalizing b with
  | nil =>
    cases h
    exact hb
  | cons a l ih =>
    rw [List.foldlM_cons] at h
    obtain ⟨c, hc, h⟩ := exists_of_bind_eq_ok h
    exact ih h (step b a c List.mem_cons_self hb hc) fun b a b' ha =>
      step b a b' (List.mem_cons_of_mem _ ha)

/-- What every step of a loop preserves holds at its end. -/
theorem foldl_invariant {α β : Type} {f : β → α → β} {l : List α} {b : β} {I : β → Prop}
    (hb : I b) (step : ∀ b, ∀ a ∈ l, I b → I (f b a)) : I (l.foldl f b) := by
  induction l generalizing b with
  | nil => exact hb
  | cons a l ih =>
    exact ih (step b a List.mem_cons_self hb) fun b a ha => step b a (List.mem_cons_of_mem _ ha)

/-- What each step of a loop brings about, and the other steps keep, holds of every element at its
end. -/
theorem foldl_forall {α β : Type} {f : β → α → β} {l : List α} {b : β} {I : β → Prop}
    {P : α → β → Prop} (hb : I b) (step : ∀ b, ∀ a ∈ l, I b → I (f b a) ∧ P a (f b a))
    (keep : ∀ b, ∀ a ∈ l, I b → ∀ a', P a' b → P a' (f b a)) :
    I (l.foldl f b) ∧ ∀ a ∈ l, P a (l.foldl f b) := by
  induction l generalizing b with
  | nil => exact ⟨hb, fun a ha => nomatch ha⟩
  | cons a l ih =>
    obtain ⟨hI, hP⟩ := step b a List.mem_cons_self hb
    have hrest := ih hI (fun b a ha => step b a (List.mem_cons_of_mem _ ha))
      fun b a ha => keep b a (List.mem_cons_of_mem _ ha)
    refine ⟨hrest.1, fun a' ha' => ?_⟩
    obtain rfl | ha' := List.mem_cons.1 ha'
    · -- the later steps keep it
      refine (foldl_invariant (I := fun b => I b ∧ P a' b) ⟨hI, hP⟩ fun b a ha hb => ?_).2
      have ha := List.mem_cons_of_mem a' ha
      exact ⟨(step b a ha hb.1).1, keep b a ha hb.1 a' hb.2⟩
    · exact hrest.2 a' ha'

end HeadlessErp
