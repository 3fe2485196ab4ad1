/-!
# Logs with stamps

A log of the states that a store has gone through. A stamp is a value that is computed from a state,
and a view is what readers see of it. Where each change of the view gives a stamp that no earlier
state has, a value that was read after a stamp is no older than the states with this stamp.
-/

namespace HeadlessErp

/-- A state that was committed, with its number and its time. -/
structure LogEntry (σ : Type) where
  seq : Nat
  time : Nat
  state : σ

section
variable {σ V κ α : Type} {stamp : σ → V} {view : σ → κ → α} {log : List (LogEntry σ)}
  {current next : σ} {v v₀ : V} {k : κ} {value : α} {time : Nat}

/-- The log after a commit. -/
def pushState (log : List (LogEntry σ)) (time : Nat) (state : σ) : List (LogEntry σ) :=
  ⟨log.length, time, state⟩ :: log

/-- A log that ends in a state. The states of one stamp are consecutive, and look the same. -/
structure StampedLog (stamp : σ → V) (view : σ → κ → α) (log : List (LogEntry σ)) (current : σ) :
    Prop where
  last : ∃ e ∈ log, e.state = current ∧ ∀ x ∈ log, x.seq ≤ e.seq
  seq_lt : ∀ x ∈ log, x.seq < log.length
  seq_inj : ∀ x ∈ log, ∀ y ∈ log, x.seq = y.seq → x = y
  convex : ∀ x ∈ log, ∀ y ∈ log, ∀ z ∈ log, stamp x.state = stamp y.state → x.seq ≤ z.seq →
    z.seq ≤ y.seq → stamp z.state = stamp x.state
  same : ∀ x ∈ log, ∀ y ∈ log, stamp x.state = stamp y.state →
    ∀ k, view x.state k = view y.state k

/-- A commit that shows nothing new under the same stamp, or has a stamp of its own. -/
def FreshStamp (stamp : σ → V) (view : σ → κ → α) (log : List (LogEntry σ)) (current next : σ) :
    Prop :=
  (stamp next = stamp current ∧ ∀ k, view next k = view current k) ∨
  ∀ x ∈ log, stamp x.state ≠ stamp next

/-- A value that was read no earlier than the states with a stamp, or from one of them. -/
def ReadAfter (stamp : σ → V) (view : σ → κ → α) (log : List (LogEntry σ)) (v : V) (k : κ)
    (value : α) : Prop :=
  (∃ x ∈ log, stamp x.state = v) ∧ ∃ b ∈ log, value = view b.state k ∧
    ∀ x ∈ log, stamp x.state = v → x.seq ≤ b.seq ∨ stamp b.state = v

/-- A log of one state. -/
theorem stampedLog_singleton (stamp : σ → V) (view : σ → κ → α) (time : Nat) (state : σ) :
    StampedLog stamp view (pushState [] time state) state := by
  have hmem : ∀ x ∈ pushState [] time state, x = ⟨0, time, state⟩ :=
    fun x hx => List.mem_singleton.1 hx
  refine ⟨⟨⟨0, time, state⟩, List.mem_singleton.2 rfl, rfl, fun x hx => ?_⟩, fun x hx => ?_,
    fun x hx y hy _ => ?_, fun x hx y _ z hz _ _ _ => ?_, fun x hx y hy _ k => ?_⟩
  · obtain rfl := hmem x hx
    exact Nat.le_refl _
  · obtain rfl := hmem x hx
    exact Nat.zero_lt_one
  · rw [hmem x hx, hmem y hy]
  · rw [hmem x hx, hmem z hz]
  · rw [hmem x hx, hmem y hy]

/-- A commit with a fresh stamp keeps the log. -/
theorem StampedLog.push (h : StampedLog stamp view log current)
    (hfresh : FreshStamp stamp view log current next) (time : Nat) :
    StampedLog stamp view (pushState log time next) next := by
  obtain ⟨e, he, hcurrent, hlast⟩ := h.last
  have hold : ∀ x ∈ log, x.seq < log.length := h.seq_lt
  -- A state with the stamp of the new one has the stamp of the last one.
  have hstamp : ∀ x ∈ log, stamp x.state = stamp next →
      stamp next = stamp e.state ∧ ∀ k, view next k = view e.state k := by
    intro x hx heq
    rcases hfresh with hsame | hnew
    · rw [hcurrent]
      exact hsame
    · exact absurd heq (hnew x hx)
  refine ⟨⟨_, List.mem_cons_self, rfl, fun x hx => ?_⟩, fun x hx => ?_, fun x hx y hy heq => ?_,
    fun x hx y hy z hz heq hxz hzy => ?_, fun x hx y hy heq k => ?_⟩
  · rcases List.mem_cons.1 hx with rfl | hx
    · exact Nat.le_refl _
    · exact Nat.le_of_lt (hold x hx)
  · show x.seq < log.length + 1
    rcases List.mem_cons.1 hx with rfl | hx
    · exact Nat.lt_succ_self _
    · exact Nat.lt_succ_of_lt (hold x hx)
  · rcases List.mem_cons.1 hx with rfl | hx
    · rcases List.mem_cons.1 hy with rfl | hy
      · rfl
      · exact absurd heq (Nat.ne_of_gt (hold y hy))
    · rcases List.mem_cons.1 hy with rfl | hy
      · exact absurd heq (Nat.ne_of_lt (hold x hx))
      · exact h.seq_inj x hx y hy heq
  · rcases List.mem_cons.1 hz with rfl | hz
    · rcases List.mem_cons.1 hy with rfl | hy
      · exact heq.symm
      · exact absurd hzy (Nat.not_le_of_lt (hold y hy))
    · rcases List.mem_cons.1 hx with rfl | hx
      · exact absurd hxz (Nat.not_le_of_lt (hold z hz))
      · rcases List.mem_cons.1 hy with rfl | hy
        · have hx' := hstamp x hx heq
          exact h.convex x hx e he z hz (heq.trans hx'.1) hxz (hlast z hz)
        · exact h.convex x hx y hy z hz heq hxz hzy
  · rcases List.mem_cons.1 hx with rfl | hx
    · rcases List.mem_cons.1 hy with rfl | hy
      · rfl
      · obtain ⟨hnext, hview⟩ := hstamp y hy heq.symm
        rw [hview k, h.same e he y hy (hnext.symm.trans heq) k]
    · rcases List.mem_cons.1 hy with rfl | hy
      · obtain ⟨hnext, hview⟩ := hstamp x hx heq
        rw [hview k, h.same x hx e he (heq.trans hnext) k]
      · exact h.same x hx y hy heq k

/-- A later commit leaves what was read. -/
theorem ReadAfter.push (h : StampedLog stamp view log current)
    (hfresh : FreshStamp stamp view log current next) (hread : ReadAfter stamp view log v k value) :
    ReadAfter stamp view (pushState log time next) v k value := by
  obtain ⟨⟨x₀, hx₀, hv⟩, b, hb, hvalue, hafter⟩ := hread
  refine ⟨⟨x₀, List.mem_cons_of_mem _ hx₀, hv⟩, b, List.mem_cons_of_mem _ hb, hvalue,
    fun x hx heq => ?_⟩
  rcases List.mem_cons.1 hx with rfl | hx
  · obtain ⟨e, he, hcurrent, hlast⟩ := h.last
    rcases hfresh with ⟨hsame, -⟩ | hnew
    · have hev : stamp e.state = v := by
        rw [hcurrent, ← hsame]
        exact heq
      rcases hafter e he hev with hle | hbv
      · refine .inr ?_
        rw [h.seq_inj b hb e he (Nat.le_antisymm (hlast b hb) hle)]
        exact hev
      · exact .inr hbv
    · exact absurd (hv.trans heq.symm) (hnew x₀ hx₀)
  · exact hafter x hx heq

/-- A value that is read now, for a stamp of some state of the log. -/
theorem StampedLog.read (h : StampedLog stamp view log current) (hv : ∃ x ∈ log, stamp x.state = v)
    (k : κ) : ReadAfter stamp view log v k (view current k) := by
  obtain ⟨e, he, hcurrent, hlast⟩ := h.last
  exact ⟨hv, e, he, by rw [hcurrent], fun x hx _ => .inl (hlast x hx)⟩

/-- What was read after a stamp is what some state shows that is no older than a given one with this
stamp. -/
theorem ReadAfter.serve (h : StampedLog stamp view log current)
    (hread : ReadAfter stamp view log v k value) {x : LogEntry σ} (hx : x ∈ log)
    (hv : stamp x.state = v) : ∃ b ∈ log, x.seq ≤ b.seq ∧ value = view b.state k := by
  obtain ⟨-, b, hb, hvalue, hafter⟩ := hread
  rcases hafter x hx hv with hle | hbv
  · exact ⟨b, hb, hle, hvalue⟩
  · refine ⟨x, hx, Nat.le_refl _, ?_⟩
    rw [hvalue]
    exact h.same b hb x hx (hbv.trans hv.symm) k

/-- What was read after a stamp was also read after an older one. -/
theorem ReadAfter.older (h : StampedLog stamp view log current)
    (hread : ReadAfter stamp view log v k value) {x₀ x : LogEntry σ} (hx₀ : x₀ ∈ log) (hx : x ∈ log)
    (hv₀ : stamp x₀.state = v₀) (hv : stamp x.state = v) (hle : x₀.seq ≤ x.seq) :
    ReadAfter stamp view log v₀ k value := by
  obtain ⟨-, b, hb, hvalue, hafter⟩ := hread
  by_cases heq : stamp x.state = stamp x₀.state
  · have hvv : v = v₀ := hv.symm.trans (heq.trans hv₀)
    subst hvv
    exact ⟨⟨x, hx, hv⟩, b, hb, hvalue, hafter⟩
  · refine ⟨⟨x₀, hx₀, hv₀⟩, b, hb, hvalue, fun y hy hyv => .inl ?_⟩
    -- The states with the older stamp come before `x`.
    have hlt : y.seq < x.seq := Nat.lt_of_not_le fun hnot =>
      heq (h.convex x₀ hx₀ y hy x hx (hv₀.trans hyv.symm) hle hnot)
    rcases hafter x hx hv with hxb | hbv
    · omega
    · refine Nat.le_of_not_lt fun hnot => heq ?_
      have hyx := h.convex b hb x hx y hy (hbv.trans hv.symm) (by omega) (by omega)
      rw [hyv, ← hv₀] at hyx
      exact hv.trans (hbv.symm.trans hyx.symm)

/-- What is computed from a value was read with it. -/
theorem ReadAfter.map {k' : κ} {f : α → α} (hread : ReadAfter stamp view log v k value)
    (hview : ∀ state, view state k' = f (view state k)) :
    ReadAfter stamp view log v k' (f value) := by
  obtain ⟨hv, b, hb, hvalue, hafter⟩ := hread
  exact ⟨hv, b, hb, by rw [hvalue, hview], hafter⟩

end

end HeadlessErp
