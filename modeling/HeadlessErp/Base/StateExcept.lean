/-!
# Computations with a state that survives an exception

`StateExcept ε σ α` is the type of a method that reads and writes the fields of an object and may
throw: the object keeps its fields when an exception passes. `Triple` is the Hoare triple of one
computation. `RelTriple` is the relational triple of two: run from one state that satisfies the
precondition, both throw related errors or both return, and they leave one state, of which the
postcondition holds when they return. Each has one rule for each way computations are built.
-/

namespace HeadlessErp

/-- A computation on a state `σ` that returns an `α` or throws an `ε`. -/
def StateExcept (ε σ α : Type) : Type := σ → Except ε α × σ

namespace StateExcept

variable {ε σ α β γ δ : Type}

instance : Monad (StateExcept ε σ) where
  pure a := fun s => (.ok a, s)
  bind m f := fun s =>
    match m s with
    | (.ok a, s') => f a s'
    | (.error e, s') => (.error e, s')

/-- `throw`. -/
def fail (e : ε) : StateExcept ε σ α := fun s => (.error e, s)

/-- A computation that does not look at the state. -/
def ofExcept (x : Except ε α) : StateExcept ε σ α := fun s => (x, s)

/-- A change of the state. -/
def modify (f : σ → σ) : StateExcept ε σ Unit := fun s => (.ok (), f s)

/-- `enter` the state or throw, run the body, and `leave` the state whichever way the body ends. -/
def bracket (enter : σ → Except ε Unit × σ) (leave : σ → σ) (m : StateExcept ε σ α) :
    StateExcept ε σ α := fun s =>
  match enter s with
  | (.error e, s₁) => (.error e, s₁)
  | (.ok _, s₁) => ((m s₁).1, leave (m s₁).2)

@[simp] theorem pure_apply (a : α) (s : σ) : (pure a : StateExcept ε σ α) s = (.ok a, s) := rfl

@[simp] theorem fail_apply (e : ε) (s : σ) :
    (fail e : StateExcept ε σ α) s = (.error e, s) := rfl

theorem bind_apply (m : StateExcept ε σ α) (f : α → StateExcept ε σ β) (s : σ) :
    (m >>= f) s = match m s with
      | (.ok a, s') => f a s'
      | (.error e, s') => (.error e, s') := rfl

theorem bind_ok {m : StateExcept ε σ α} {f : α → StateExcept ε σ β} {s s' : σ} {a : α}
    (h : m s = (.ok a, s')) : (m >>= f) s = f a s' := by
  rw [bind_apply, h]

theorem bind_error {m : StateExcept ε σ α} {f : α → StateExcept ε σ β} {s s' : σ} {e : ε}
    (h : m s = (.error e, s')) : (m >>= f) s = (.error e, s') := by
  rw [bind_apply, h]

theorem eq_of_fst_eq {r : Except ε α × σ} {x : Except ε α} (h : r.1 = x) : r = (x, r.2) := by
  rw [← h]

/-- What returns has returned from its first part. -/
theorem exists_of_bind_fst_eq_ok {m : StateExcept ε σ α} {f : α → StateExcept ε σ β} {s : σ}
    {b : β} (h : ((m >>= f) s).1 = .ok b) :
    ∃ a, (m s).1 = .ok a ∧ (m >>= f) s = f a (m s).2 := by
  rcases hm : m s with ⟨e | a, s'⟩
  · rw [bind_error hm] at h
    cases h
  · exact ⟨a, rfl, bind_ok hm⟩

/-! ## Triples -/

/-- From every state that satisfies `P` the computation returns with `Q` or throws an error that
satisfies `E`. -/
def Triple (E : ε → Prop) (P : σ → Prop) (m : StateExcept ε σ α) (Q : α → σ → Prop) : Prop :=
  ∀ s, P s → match m s with
    | (.ok a, s') => Q a s'
    | (.error e, _) => E e

section
variable {E : ε → Prop} {P P' : σ → Prop}

/-- Strengthening the precondition and weakening the postcondition. -/
theorem Triple.conseq {m : StateExcept ε σ α} {Q Q' : α → σ → Prop} (h : Triple E P m Q)
    (hP : ∀ s, P' s → P s) (hQ : ∀ a s, Q a s → Q' a s) : Triple E P' m Q' := by
  intro s hs
  have h' := h s (hP s hs)
  revert h'
  rcases m s with ⟨_ | a, s₁⟩
  · exact id
  · exact hQ a s₁

/-- A fact about the values alone may be taken out of the precondition. -/
theorem Triple.assume {φ : Prop} {m : StateExcept ε σ α} {Q : α → σ → Prop}
    (h : φ → Triple E P m Q) : Triple E (fun s => φ ∧ P s) m Q :=
  fun s hs => h hs.1 s hs.2

/-- A return. -/
theorem Triple.pure {Q : α → σ → Prop} {a : α} (h : ∀ s, P s → Q a s) :
    Triple E P (Pure.pure a) Q :=
  h

/-- A throw. -/
theorem Triple.fail {Q : α → σ → Prop} {e : ε} (h : E e) : Triple E P (fail e) Q :=
  fun _ _ => h

/-- Sequencing. -/
theorem Triple.bind {m : StateExcept ε σ α} {f : α → StateExcept ε σ β} {R : α → σ → Prop}
    {Q : β → σ → Prop} (h : Triple E P m R) (hf : ∀ a, Triple E (R a) (f a) Q) :
    Triple E P (m >>= f) Q := by
  intro s hs
  have h' := h s hs
  rw [bind_apply]
  revert h'
  rcases m s with ⟨_ | a, s₁⟩
  · exact id
  · exact hf a s₁

/-- Bracketing: `enter` keeps the precondition or throws an error that satisfies `E`, and the
postcondition survives `leave`. -/
theorem Triple.bracket {m : StateExcept ε σ α} {enter : σ → Except ε Unit × σ} {leave : σ → σ}
    {Q Q' : α → σ → Prop} (hE : ∀ s e, (enter s).1 = .error e → E e)
    (hP : ∀ s, P s → P' (enter s).2) (h : Triple E P' m Q) (hQ : ∀ a s, Q a s → Q' a (leave s)) :
    Triple E P (StateExcept.bracket enter leave m) Q' := by
  intro s hs
  have hs' := hP s hs
  have hs'' := hE s
  unfold StateExcept.bracket
  revert hs' hs''
  rcases enter s with ⟨e | u, s₁⟩
  · exact fun _ he => he e rfl
  · intro hs' _
    have h' := h s₁ hs'
    revert h'
    rcases hm : m s₁ with ⟨_ | a, s₂⟩ <;> simp only [hm]
    · exact id
    · exact hQ a s₂

end

/-! ## Returning -/

/-- From every state, the computation returns just when `φ` holds. -/
def ReturnsIff (m : StateExcept ε σ α) (φ : Prop) : Prop := ∀ s, (∃ a, (m s).1 = .ok a) ↔ φ

/-- A return. -/
theorem ReturnsIff.pure (a : α) : ReturnsIff (Pure.pure a : StateExcept ε σ α) True :=
  fun _ => ⟨fun _ => trivial, fun _ => ⟨a, rfl⟩⟩

/-- A change of the state. -/
theorem ReturnsIff.modify (f : σ → σ) : ReturnsIff (modify f : StateExcept ε σ Unit) True :=
  fun _ => ⟨fun _ => trivial, fun _ => ⟨(), rfl⟩⟩

/-- A computation that does not look at the state. -/
theorem ReturnsIff.ofExcept (x : Except ε α) :
    ReturnsIff (ofExcept x : StateExcept ε σ α) (∃ a, x = .ok a) :=
  fun _ => Iff.rfl

/-- Sequencing. -/
theorem ReturnsIff.bind {m : StateExcept ε σ α} {f : α → StateExcept ε σ β} {φ ψ : Prop}
    (hm : ReturnsIff m φ) (hf : ∀ a, ReturnsIff (f a) ψ) : ReturnsIff (m >>= f) (φ ∧ ψ) := by
  intro s
  have hm := hm s
  rw [bind_apply]
  revert hm
  rcases m s with ⟨e | a, s₁⟩
  · intro hm
    exact ⟨fun ⟨_, h⟩ => (nomatch h), fun h => (nomatch hm.2 h.1)⟩
  · intro hm
    have hφ : φ := hm.1 ⟨a, rfl⟩
    exact (hf a s₁).trans ⟨fun h => ⟨hφ, h⟩, And.right⟩

/-- A condition in other words. -/
theorem ReturnsIff.congr {m : StateExcept ε σ α} {φ ψ : Prop} (hm : ReturnsIff m φ) (h : φ ↔ ψ) :
    ReturnsIff m ψ :=
  fun s => (hm s).trans h

/-! ## Where a computation leads -/

/-- The computation leads along `R`, whether it returns or throws. -/
def Leads (R : σ → σ → Prop) (m : StateExcept ε σ α) : Prop := ∀ s, R s (m s).2

section
variable {R : σ → σ → Prop} [Std.Refl R]

/-- A return. -/
theorem Leads.pure (a : α) : Leads R (Pure.pure a : StateExcept ε σ α) := fun s => Std.Refl.refl s

/-- A computation that does not look at the state. -/
theorem Leads.ofExcept (x : Except ε α) : Leads R (ofExcept x : StateExcept ε σ α) :=
  fun s => Std.Refl.refl s

end

/-- Sequencing. -/
theorem Leads.bind {R : σ → σ → Prop} [Trans R R R] {m : StateExcept ε σ α}
    {f : α → StateExcept ε σ β} (hm : Leads R m) (hf : ∀ a, Leads R (f a)) : Leads R (m >>= f) := by
  intro s
  have hm := hm s
  rw [bind_apply]
  revert hm
  rcases m s with ⟨e | a, s₁⟩
  · exact id
  · exact fun hm => Trans.trans hm (hf a s₁)

/-! ## Relational triples -/

/-- Two outcomes agree: related errors or values, and one state. -/
inductive RelOutcome (E : ε → ε → Prop) (Q : α → β → σ → Prop) :
    Except ε α × σ → Except ε β × σ → Prop where
  | ok {a b s} (h : Q a b s) : RelOutcome E Q (.ok a, s) (.ok b, s)
  | error {e₁ e₂ s} (h : E e₁ e₂) : RelOutcome E Q (.error e₁, s) (.error e₂, s)

/-- From every state that satisfies `P`, the two computations agree. -/
def RelTriple (E : ε → ε → Prop) (P : σ → Prop) (m₁ : StateExcept ε σ α)
    (m₂ : StateExcept ε σ β) (Q : α → β → σ → Prop) : Prop :=
  ∀ s, P s → RelOutcome E Q (m₁ s) (m₂ s)

variable {E : ε → ε → Prop} {P P' : σ → Prop}

/-- Weakening what is known of the values. -/
theorem RelOutcome.mono {Q Q' : α → β → σ → Prop} {r₁ : Except ε α × σ} {r₂ : Except ε β × σ}
    (h : RelOutcome E Q r₁ r₂) (hQ : ∀ a b s, Q a b s → Q' a b s) : RelOutcome E Q' r₁ r₂ := by
  cases h with
  | ok h => exact .ok (hQ _ _ _ h)
  | error h => exact .error h

/-- Outcomes that agree are two values or two errors. -/
theorem RelOutcome.result {Q : α → β → σ → Prop} {r₁ : Except ε α × σ} {r₂ : Except ε β × σ}
    (h : RelOutcome E Q r₁ r₂) :
    (∃ a b, r₁.1 = .ok a ∧ r₂.1 = .ok b ∧ Q a b r₁.2) ∨
      ∃ e₁ e₂, r₁.1 = .error e₁ ∧ r₂.1 = .error e₂ ∧ E e₁ e₂ := by
  cases h with
  | ok h => exact .inl ⟨_, _, rfl, rfl, h⟩
  | error h => exact .inr ⟨_, _, rfl, rfl, h⟩

/-- Strengthening the precondition and weakening the postcondition. -/
theorem RelTriple.conseq {m₁ : StateExcept ε σ α} {m₂ : StateExcept ε σ β}
    {Q Q' : α → β → σ → Prop} (h : RelTriple E P m₁ m₂ Q) (hP : ∀ s, P' s → P s)
    (hQ : ∀ a b s, Q a b s → Q' a b s) : RelTriple E P' m₁ m₂ Q' :=
  fun s hs => (h s (hP s hs)).mono hQ

/-- A fact about the values alone may be taken out of the precondition. -/
theorem RelTriple.assume {φ : Prop} {m₁ : StateExcept ε σ α} {m₂ : StateExcept ε σ β}
    {Q : α → β → σ → Prop} (h : φ → RelTriple E P m₁ m₂ Q) :
    RelTriple E (fun s => φ ∧ P s) m₁ m₂ Q :=
  fun s hs => h hs.1 s hs.2

/-- A disjunctive precondition is split. -/
theorem RelTriple.or {m₁ : StateExcept ε σ α} {m₂ : StateExcept ε σ β} {Q : α → β → σ → Prop}
    (h : RelTriple E P m₁ m₂ Q) (h' : RelTriple E P' m₁ m₂ Q) :
    RelTriple E (fun s => P s ∨ P' s) m₁ m₂ Q :=
  fun s hs => hs.elim (h s) (h' s)

/-- Two returns. -/
theorem RelTriple.pure {Q : α → β → σ → Prop} {a : α} {b : β} (h : ∀ s, P s → Q a b s) :
    RelTriple E P (Pure.pure a) (Pure.pure b) Q :=
  fun s hs => .ok (h s hs)

/-- Two throws. -/
theorem RelTriple.fail {Q : α → β → σ → Prop} {e₁ e₂ : ε} (h : E e₁ e₂) :
    RelTriple E P (fail e₁) (fail e₂) Q :=
  fun _ _ => .error h

/-- Sequencing. -/
theorem RelTriple.bind {m₁ : StateExcept ε σ α} {m₂ : StateExcept ε σ β}
    {f₁ : α → StateExcept ε σ γ} {f₂ : β → StateExcept ε σ δ} {R : α → β → σ → Prop}
    {Q : γ → δ → σ → Prop} (h : RelTriple E P m₁ m₂ R)
    (hf : ∀ a b, RelTriple E (R a b) (f₁ a) (f₂ b) Q) :
    RelTriple E P (m₁ >>= f₁) (m₂ >>= f₂) Q := by
  intro s hs
  have h' := h s hs
  rw [bind_apply, bind_apply]
  generalize m₁ s = r₁ at h' ⊢
  generalize m₂ s = r₂ at h' ⊢
  cases h' with
  | ok h' => exact hf _ _ _ h'
  | error h' => exact .error h'

/-- Bracketing: the postcondition must survive `leave`, and the precondition `enter`. -/
theorem RelTriple.bracket {m₁ : StateExcept ε σ α} {m₂ : StateExcept ε σ β}
    {enter : σ → Except ε Unit × σ} {leave : σ → σ} {Q Q' : α → β → σ → Prop}
    (hE : ∀ e, E e e) (hP : ∀ s, P s → P' (enter s).2) (h : RelTriple E P' m₁ m₂ Q)
    (hQ : ∀ a b s, Q a b s → Q' a b (leave s)) :
    RelTriple E P (StateExcept.bracket enter leave m₁) (StateExcept.bracket enter leave m₂) Q' := by
  intro s hs
  have hs' := hP s hs
  unfold StateExcept.bracket
  revert hs'
  rcases enter s with ⟨e | u, s₁⟩
  · exact fun _ => .error (hE e)
  · intro hs'
    have h' := h s₁ hs'
    simp only
    generalize m₁ s₁ = r₁ at h' ⊢
    generalize m₂ s₁ = r₂ at h' ⊢
    cases h' with
    | ok h' => exact .ok (hQ _ _ _ h')
    | error h' => exact .error h'

end StateExcept

end HeadlessErp
