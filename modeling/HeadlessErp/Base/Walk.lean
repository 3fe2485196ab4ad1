import Mathlib.Algebra.Order.Ring.Int

/-!
# Walking to the first hit

A loop that looks at one state after the other, each at a later position, and returns what it first
finds. Where no position that is jumped over holds anything, it finds the first hit that is near
enough (`Walk.run_eq_some`); what it finds was at a state it came to (`Walk.exists_of_run`).
-/

namespace HeadlessErp

/-- A walk: where a state is, what is found there and which state is next. -/
structure Walk (σ α : Type) where
  position : σ → ℤ
  look : σ → Option α
  next : σ → σ

namespace Walk
variable {σ α : Type} (W : Walk σ α)

/-- At most `n` states of the walk. -/
def run : ℕ → σ → Option α
  | 0, _ => none
  | n + 1, s => (W.look s).or (run n (W.next s))

variable {W} {s : σ} {n : ℕ} {r : α} {I : σ → Prop}

theorem run_eq_none (hlook : ∀ s, I s → W.look s = none) (hnext : ∀ s, I s → I (W.next s))
    (hs : I s) : W.run n s = none := by
  induction n generalizing s with
  | zero => rfl
  | succ n ih => rw [run, hlook s hs, Option.none_or, ih (hnext s hs)]

/-- What is found was at a state of the walk. -/
theorem exists_of_run (hnext : ∀ s, I s → I (W.next s)) (hs : I s) (h : W.run n s = some r) :
    ∃ s, I s ∧ W.look s = some r := by
  induction n generalizing s with
  | zero => cases h
  | succ n ih =>
    rw [run] at h
    rcases Option.or_eq_some_iff.1 h with hlook | ⟨-, hrest⟩
    · exact ⟨s, hs, hlook⟩
    · exact ih (hnext s hs) hrest

/-- The first hit is found, if each state up to it shows what is at its position and none before it
is jumped over. -/
theorem run_eq_some {hit : ℤ → Option α} {k : ℤ} (hhit : hit k = some r)
    (hlook : ∀ s, I s → W.position s ≤ k → W.look s = hit (W.position s))
    (hlater : ∀ s, I s → W.position s ≤ k → W.position s < W.position (W.next s))
    (hjump : ∀ s, I s → W.position s ≤ k → hit (W.position s) = none → ∀ j, W.position s < j →
      j < W.position (W.next s) → hit j = none)
    (hnext : ∀ s, I s → W.position s < k → W.position (W.next s) ≤ k → I (W.next s))
    (hs : I s) (hle : W.position s ≤ k) (hfirst : ∀ j, W.position s ≤ j → j < k → hit j = none)
    (hnear : k - W.position s < n) : W.run n s = some r := by
  induction n generalizing s with
  | zero => omega
  | succ n ih =>
    rw [run, hlook s hs hle]
    rcases eq_or_lt_of_le hle with heq | hlt
    · rw [heq, hhit, Option.some_or]
    · have hnone := hfirst _ le_rfl hlt
      have hgt := hlater s hs hle
      have hle' : W.position (W.next s) ≤ k := by
        by_contra hbeyond
        rw [hjump s hs hle hnone k hlt (by omega)] at hhit
        cases hhit
      rw [hnone, Option.none_or]
      exact ih (hnext s hs hlt hle') hle' (fun j hj => hfirst j (by omega)) (by omega)

end Walk
end HeadlessErp
