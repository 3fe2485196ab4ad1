import HeadlessErp.Base.Except
import HeadlessErp.Expression.Parser
import HeadlessErp.Js.Record
import HeadlessErp.Query.RowFilter

/-!
# Workflow definitions

The declarative workflows of `apps/api/src/plugins/workflow`, and the checks of
`WorkflowEngine.transition` on them. The functions of guard expressions are a parameter.
-/

namespace HeadlessErp

/-! ## Data -/

/-- A `WorkflowTransition`. An absent list is an empty one. -/
structure WorkflowTransition where
  id : String
  fromState : String
  toState : String
  guard : Option String := none
  roles : List String := []
  triggerPlugins : List String := []
  deriving DecidableEq, Repr

/-- A `WorkflowDefinition`. -/
structure WorkflowDefinition where
  name : String
  initial : String
  states : List String
  transitions : List WorkflowTransition
  docStatusMap : List (String × String) := []
  stateField : Option String := none
  enabled : Option Bool := none

/-- A `WorkflowRow` with its definition. -/
structure WorkflowRow where
  id : String
  enabled : Int := 1
  definition : WorkflowDefinition

/-- The errors of `transition`. -/
inductive EngineError where
  | validation (message : String)
  | forbidden (message : String)
  | conflict (message : String)
  | other (message : String)

/-! ## Checks -/

/-- `findTransition`. -/
def WorkflowDefinition.findTransition (d : WorkflowDefinition) (current next : String) :
    Option WorkflowTransition :=
  d.transitions.find? fun t => t.fromState = current && t.toState = next

/-- `allowedTargets`. -/
def WorkflowDefinition.allowedTargets (d : WorkflowDefinition) (current : String) : List String :=
  (d.transitions.filter (·.fromState = current)).map (·.toState)

/-- The checks before a document is read: the current state, and the transition from it. -/
def WorkflowRow.choose (w : WorkflowRow) (recorded : Option String) (next : String) :
    Except EngineError (String × WorkflowTransition) :=
  let d := w.definition
  let current := recorded.getD d.initial
  if w.enabled = 0 || d.enabled = some false then
    .error (.validation s!"Workflow \"{d.name}\" is disabled")
  else if !d.states.contains next then
    .error (.validation (s!"\"{next}\" is not a state of workflow \"{d.name}\" (states: "
      ++ ", ".intercalate d.states ++ ")"))
  else if current = next then
    .error (.validation s!"Document is already in state \"{next}\"")
  else
    match d.findTransition current next with
    | some t => .ok (current, t)
    | none =>
      let allowed := ", ".intercalate (d.allowedTargets current)
      let allowed := if allowed = "" then "none" else allowed
      .error (.validation s!"Cannot transition \"{current}\" → \"{next}\" (allowed: {allowed})")

section
variable {N : Type} [JsNumber N]

/-- `auth?.[name] ?? fallback`. -/
def authValue (auth : Option (AuthContext N)) (name : String) (fallback : JsVal N) : JsVal N :=
  (auth.elim .undefined (·.get name)).orElse fallback

/-- `userScope`. -/
def userScope (auth : Option (AuthContext N)) : JsVal N :=
  .obj [("user_id", authValue auth "user_id" .null), ("email", authValue auth "email" .null),
    ("role_name", authValue auth "role_name" .null),
    ("is_admin", authValue auth "is_admin" (.bool false))]

/-- What a guard is evaluated against. -/
def guardScope (doc : Record N) (auth : Option (AuthContext N)) (current next : String) : Record N :=
  [("doc", .obj doc), ("user", userScope auth), ("from", .str current), ("to", .str next)]

/-- A caller has one of the roles of a transition, where it names any. -/
def WorkflowTransition.roleAllowed (t : WorkflowTransition) (auth : Option (AuthContext N)) : Bool :=
  t.roles.isEmpty || auth.any (·.isAdmin) || auth.any fun a =>
    match a.get "role_name" with
    | .str role => t.roles.contains role
    | _ => false

/-- The guard of a transition passes on a document. -/
def WorkflowTransition.guardPasses (registry : String → Option (List (JsVal N) → Except String (JsVal N)))
    (t : WorkflowTransition) (doc : Record N) (auth : Option (AuthContext N)) (current next : String) :
    Except EngineError Unit :=
  match t.guard.filter (· != "") with
  | none => .ok ()
  | some guard =>
    match evaluateWith ⟨(guardScope doc auth current next).get?, registry⟩ guard with
    | .error e => .error (.validation
        s!"Guard on \"{current}\" → \"{next}\" failed to evaluate: {e.message}")
    | .ok v =>
      if v.truthy then .ok ()
      else .error (.validation s!"Guard on \"{current}\" → \"{next}\" not satisfied")

/-- The checks once the document is read. -/
def WorkflowTransition.check (registry : String → Option (List (JsVal N) → Except String (JsVal N)))
    (t : WorkflowTransition) (doc : Record N) (auth : Option (AuthContext N)) (current next : String) :
    Except EngineError Unit := do
  t.guardPasses registry doc auth current next
  if t.roleAllowed auth then .ok ()
  else
    let role := (authValue auth "role_name" (.str "none")).toStr
    .error (.forbidden (s!"Transition \"{current}\" → \"{next}\" requires role: "
      ++ " / ".intercalate t.roles ++ s!" (your role: {role})"))

/-- A transition that the checks let through. -/
theorem WorkflowTransition.check_eq_ok
    {registry : String → Option (List (JsVal N) → Except String (JsVal N))} {t : WorkflowTransition}
    {doc : Record N} {auth : Option (AuthContext N)} {current next : String}
    (h : t.check registry doc auth current next = .ok ()) :
    t.guardPasses registry doc auth current next = .ok () ∧ t.roleAllowed auth = true := by
  obtain ⟨⟨⟩, hguard, h⟩ := exists_of_bind_eq_ok h
  refine ⟨hguard, ?_⟩
  split at h
  · next hrole => exact hrole
  · cases h

end

/-- A transition that is chosen is declared. -/
theorem WorkflowRow.choose_eq_ok {w : WorkflowRow} {recorded : Option String} {next current : String}
    {t : WorkflowTransition} (h : w.choose recorded next = .ok (current, t)) :
    current = recorded.getD w.definition.initial ∧ t ∈ w.definition.transitions ∧
      t.fromState = current ∧ t.toState = next ∧ current ≠ next := by
  unfold choose at h
  simp only at h
  split at h
  · cases h
  split at h
  · cases h
  split at h
  · cases h
  · next hne =>
    split at h
    · next t' hfind =>
      cases h
      have hstates : t.fromState = recorded.getD w.definition.initial ∧ t.toState = next := by
        simpa using List.find?_some hfind
      exact ⟨rfl, List.mem_of_find?_eq_some hfind, hstates.1, hstates.2, hne⟩
    · cases h

end HeadlessErp
