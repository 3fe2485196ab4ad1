import Mathlib.Logic.Function.Basic
import HeadlessErp.Base.Transition

/-!
# Programs over a shared database

What a request does between its calls of a database that other requests use too. A call is one query
or one statement, and a statement that fails leaves the database as it is. Programs run in any order
of their calls (`Program.system`), and what every statement preserves holds in every run
(`Program.invariant`).
-/

namespace HeadlessErp

/-- A program: its result, or its next call and what it does with the answer. `σ` are the states of
the database and `τ` the statements. -/
inductive Program (σ τ ε α : Type) where
  | done (result : Except ε α)
  | query (next : σ → Program σ τ ε α)
  | exec (statement : τ) (next : Except ε Unit → Program σ τ ε α)

namespace Program
variable {ι σ τ ε α β : Type}

/-- One program after another. -/
def bind : Program σ τ ε α → (α → Program σ τ ε β) → Program σ τ ε β
  | done (.ok a), k => k a
  | done (.error e), _ => done (.error e)
  | query next, k => query fun s => (next s).bind k
  | exec statement next, k => exec statement fun r => (next r).bind k

instance : Monad (Program σ τ ε) where
  pure a := done (.ok a)
  bind := bind

/-- A query. -/
def ask (f : σ → Except ε α) : Program σ τ ε α := query fun s => done (f s)

/-- A statement whose failure is that of the program. -/
def run (statement : τ) : Program σ τ ε Unit := exec statement done

/-- Statements one after another. -/
def runAll : List τ → Program σ τ ε Unit
  | [] => pure ()
  | statement :: statements => run statement >>= fun _ => runAll statements

/-- The database, and how far the programs have come. -/
structure Shared (ι σ τ ε α : Type) where
  state : σ
  program : ι → Program σ τ ε α

variable [DecidableEq ι] {execute : τ → σ → Except ε σ} {start : σ → Prop}
  {programs : ι → Program σ τ ε α}

/-- The call that a program makes next. -/
def step (execute : τ → σ → Except ε σ) (s : Shared ι σ τ ε α) (i : ι) :
    Option (Shared ι σ τ ε α) :=
  match s.program i with
  | done _ => none
  | query next => some { s with program := Function.update s.program i (next s.state) }
  | exec statement next =>
    match execute statement s.state with
    | .ok state => some ⟨state, Function.update s.program i (next (.ok ()))⟩
    | .error e => some { s with program := Function.update s.program i (next (.error e)) }

/-- Programs on a database, in any order of their calls. -/
def system (execute : τ → σ → Except ε σ) (start : σ → Prop) (programs : ι → Program σ τ ε α) :
    System (Shared ι σ τ ε α) ι where
  init s := start s.state ∧ s.program = programs
  step := step execute

/-- What a call does to the database: nothing, or what its statement does. -/
theorem state_of_step {s s' : Shared ι σ τ ε α} {i : ι} (h : step execute s i = some s') :
    s'.state = s.state ∨ ∃ statement, execute statement s.state = .ok s'.state := by
  unfold step at h
  split at h
  · cases h
  · cases h
    exact .inl rfl
  · next statement next _ =>
    split at h
    · next state hstate =>
      cases h
      exact .inr ⟨statement, hstate⟩
    · cases h
      exact .inl rfl

/-- What every statement preserves holds in every run. -/
theorem invariant {I : σ → Prop} {p : Shared ι σ τ ε α → ι → Prop} {s : Shared ι σ τ ε α}
    (h : (system execute start programs).Reach p s) (hstart : ∀ t, start t → I t)
    (hstep : ∀ t t' statement, I t → execute statement t = .ok t' → I t') : I s.state := by
  refine h.invariant (I := fun s => I s.state) (fun s hs => hstart _ hs.1)
    fun s i s' hs _ hcall => ?_
  obtain hstate | ⟨statement, hstatement⟩ := state_of_step hcall
  · rw [hstate]
    exact hs
  · exact hstep _ _ _ hs hstatement

end Program

end HeadlessErp
