import Mathlib.Data.Rat.Init
import HeadlessErp.Base.Except
import HeadlessErp.Base.Transition
import HeadlessErp.Entity.Row

/-!
# The approval hierarchy

`ApprovalService` of `apps/api/src/plugins/approvals/service.ts`, over the routes of its plugin. The
level to approve comes from the request, and the next one is read off the highest level on record,
whether or not the document was rejected since. So an approval completes the hierarchy exactly when
the other levels were approved in the same round (`approve_complete_iff`).
-/

namespace HeadlessErp

namespace ApprovalService

/-! ## The service -/

/-- `ApprovalLevel`. -/
structure ApprovalLevel where
  level : Int
  role : String
  canApproveUpTo : Option Rat
  deriving DecidableEq

/-- What `JSON.parse` makes of `approval_config`: nothing is there, it is no JSON, or it is a value
that may have `levels`. -/
inductive StoredConfig where
  | absent
  | malformed
  | parsed (levels : Option (List ApprovalLevel))

/-- `parseApprovalConfig`. -/
def parseApprovalConfig : StoredConfig → Option (List ApprovalLevel)
  | .absent => some [{ level := 1, role := "Administrator", canApproveUpTo := none }]
  | .malformed => some []
  | .parsed levels => levels

/-- The user of a call, with the name of the role that `_roles` has. -/
structure AuthContext where
  userId : String
  roleName : Option String
  isAdmin : Bool
  deriving DecidableEq

/-- A row of `_approvals`. -/
structure ApprovalRecord where
  collectionSlug : String
  documentId : String
  level : Int
  approvedBy : String
  roleName : String
  amount : Option Rat
  comment : Option String
  deriving DecidableEq

/-- A row with the user whose call has inserted it, and whether the call was `reject`. -/
structure LoggedRecord where
  record : ApprovalRecord
  auth : AuthContext
  rejection : Bool
  deriving DecidableEq

/-- The configuration of a level. -/
def levelConfig (levels : List ApprovalLevel) (level : Int) : Option ApprovalLevel :=
  levels.find? (·.level = level)

/-- `canApprove`. -/
def canApprove (auth : AuthContext) (level : Int) (levels : List ApprovalLevel)
    (amount : Option Rat) : Except ApiError Unit :=
  match levelConfig levels level with
  | none => .error (.forbidden ("Approval level " ++ toString level ++ " not configured"))
  | some config =>
    match auth.roleName with
    | none => .error (.forbidden "User role not found")
    | some name =>
      if !auth.isAdmin && name ≠ config.role then
        .error (.forbidden ("Only " ++ config.role ++ " role can approve at level "
          ++ toString level))
      else match amount, config.canApproveUpTo with
        | some amount, some limit =>
          if limit < amount then
            .error (.forbidden ("Amount " ++ toString amount ++ " exceeds approval limit of "
              ++ toString limit ++ " for " ++ config.role))
          else .ok ()
        | _, _ => .ok ()

/-- The levels on record for a document. -/
def recordedLevels (log : List LoggedRecord) (collectionSlug documentId : String) : List Int :=
  (log.filter fun e => e.record.collectionSlug = collectionSlug
    && e.record.documentId = documentId).map (·.record.level)

/-- The first row by `level DESC`, or 0. -/
def highestLevel : List Int → Int
  | [] => 0
  | level :: levels => levels.foldl max level

/-- `getNextLevel`. -/
def getNextLevel (log : List LoggedRecord) (collectionSlug documentId : String)
    (levels : List ApprovalLevel) : Option Int :=
  let nextLevel := highestLevel (recordedLevels log collectionSlug documentId) + 1
  (levelConfig levels nextLevel).map fun _ => nextLevel

/-- What `approve` returns. -/
structure ApproveResult where
  newStatus : String
  nextLevel : Option Int
  deriving DecidableEq

/-- `approve`: the answer, and the rows after it. -/
def approve (config : StoredConfig) (log : List LoggedRecord) (auth : AuthContext)
    (collectionSlug documentId : String) (level : Int) (comment : Option String)
    (amount : Option Rat) : Except ApiError (ApproveResult × List LoggedRecord) := do
  match parseApprovalConfig config with
  | none => .error (.internal "Cannot read properties of undefined (reading 'find')")
  | some levels =>
    canApprove auth level levels amount
    let record : ApprovalRecord :=
      { collectionSlug, documentId, level, approvedBy := auth.userId
        roleName := auth.roleName.getD "Unknown", amount, comment }
    let log := ⟨record, auth, false⟩ :: log
    let nextLevel := getNextLevel log collectionSlug documentId levels
    .ok (⟨if nextLevel = none then "approved" else "approved_l" ++ toString level, nextLevel⟩, log)

/-- `reject`, of a user who may submit or approve. -/
def reject (log : List LoggedRecord) (auth : AuthContext) (permitted : Bool)
    (collectionSlug documentId : String) (comment : Option String) :
    Except ApiError (List LoggedRecord) :=
  if permitted then
    .ok (⟨{ collectionSlug, documentId, level := 0, approvedBy := auth.userId
            roleName := auth.roleName.getD "Unknown", amount := none
            comment := comment.or (some "Rejected") }, auth, true⟩ :: log)
  else .error (.forbidden "You do not have permission to reject documents in this collection")

/-! ## Runs -/

/-- A call about a document. Submitting it changes its `doc_status` and no row of `_approvals`. -/
inductive ApprovalCall where
  | submit (auth : AuthContext) (documentId : String)
  | approve (auth : AuthContext) (documentId : String) (level : Int) (comment : Option String)
      (amount : Option Rat)
  | reject (auth : AuthContext) (permitted : Bool) (documentId : String)
      (comment : Option String)

/-- The rows of `_approvals` of one collection under any calls, the last row first. A call that
fails changes nothing. -/
def approvals (collectionSlug : String) (config : StoredConfig) :
    System (List LoggedRecord) ApprovalCall where
  init log := log = []
  step log
    | .submit .. => some log
    | .approve auth documentId level comment amount =>
      match ApprovalService.approve config log auth collectionSlug documentId level comment
          amount with
      | .ok (_, log') => some log'
      | .error _ => some log
    | .reject auth permitted documentId comment =>
      match ApprovalService.reject log auth permitted collectionSlug documentId comment with
      | .ok log' => some log'
      | .error _ => some log

/-- The rows of a document since its latest rejection. -/
def round (log : List LoggedRecord) (documentId : String) : List LoggedRecord :=
  (log.filter (·.record.documentId = documentId)).takeWhile (!·.rejection)

/-- The user holds the role of the level, or is an administrator. -/
def Holds (e : LoggedRecord) (config : ApprovalLevel) : Prop :=
  e.auth.isAdmin = true ∨ e.auth.roleName = some config.role

/-- Every configured level was approved by a holder of its role since the latest rejection. -/
def Complete (levels : List ApprovalLevel) (log : List LoggedRecord) (documentId : String) : Prop :=
  ∀ level config, levelConfig levels level = some config →
    ∃ e ∈ round log documentId, e.record.level = level ∧ Holds e config

/-! ## Levels and roles -/

section
variable {collectionSlug documentId : String} {config : StoredConfig} {levels : List ApprovalLevel}
  {log log' : List LoggedRecord} {auth : AuthContext} {level : Int} {comment : Option String}
  {amount : Option Rat} {result : ApproveResult}

/-- Who may approve a level holds its role. -/
theorem holds_of_canApprove (h : canApprove auth level levels amount = .ok ())
    {record : ApprovalRecord} :
    ∃ config, levelConfig levels level = some config ∧ Holds ⟨record, auth, false⟩ config := by
  unfold canApprove at h
  split at h
  · cases h
  next config hconfig =>
  split at h
  · cases h
  next name hname =>
  split at h
  · cases h
  next hrole =>
  refine ⟨config, hconfig, ?_⟩
  rcases hadmin : auth.isAdmin with _ | _
  · rw [hadmin] at hrole
    have hname' : name = config.role := by simpa using hrole
    exact .inr (hname.trans (congrArg some hname'))
  · exact .inl hadmin

/-- What an approval inserts and answers. -/
theorem approve_eq_ok (hlevels : parseApprovalConfig config = some levels)
    (h : approve config log auth collectionSlug documentId level comment amount =
      .ok (result, log')) :
    canApprove auth level levels amount = .ok () ∧
      log' = ⟨{ collectionSlug, documentId, level, approvedBy := auth.userId
                roleName := auth.roleName.getD "Unknown", amount, comment }, auth, false⟩ :: log ∧
      result.newStatus = if getNextLevel log' collectionSlug documentId levels = none then
        "approved" else "approved_l" ++ toString level := by
  unfold approve at h
  rw [hlevels] at h
  obtain ⟨_, hcan, h⟩ := exists_of_bind_eq_ok h
  obtain ⟨rfl, rfl⟩ := Prod.mk.inj (Except.ok.inj h)
  exact ⟨hcan, rfl, rfl⟩

/-- Every approval on record was made by a holder of the role of its level. -/
def Authorized (levels : List ApprovalLevel) (log : List LoggedRecord) : Prop :=
  ∀ e ∈ log, e.rejection = false →
    ∃ config, levelConfig levels e.record.level = some config ∧ Holds e config

theorem authorized_of_reachable (hlevels : parseApprovalConfig config = some levels)
    (h : (approvals collectionSlug config).Reachable log) : Authorized levels log := by
  refine h.invariant (fun log hlog => ?_) fun log call log' hlog _ hstep => ?_
  · obtain rfl := hlog
    exact fun e he => absurd he List.not_mem_nil
  cases call with
  | submit auth documentId =>
    obtain rfl := Option.some.inj hstep
    exact hlog
  | approve auth documentId level comment amount =>
    simp only [approvals] at hstep
    split at hstep
    · next hok =>
      obtain rfl := Option.some.inj hstep
      obtain ⟨hcan, rfl, -⟩ := approve_eq_ok hlevels hok
      exact List.forall_mem_cons.2 ⟨fun _ => holds_of_canApprove hcan, hlog⟩
    · obtain rfl := Option.some.inj hstep
      exact hlog
  | reject auth permitted documentId comment =>
    simp only [approvals] at hstep
    split at hstep
    · next hok =>
      obtain rfl := Option.some.inj hstep
      unfold reject at hok
      split at hok
      · obtain rfl := Except.ok.inj hok
        exact List.forall_mem_cons.2 ⟨fun hkind => Bool.noConfusion hkind, hlog⟩
      · cases hok
    · obtain rfl := Option.some.inj hstep
      exact hlog

/-! ## Completeness -/

/-- The status of one approved level is not that of the document. -/
theorem approvedLevel_ne (level : Int) : "approved_l" ++ toString level ≠ "approved" := by
  intro h
  have hlength := congrArg (·.toList.length) h
  simp only [String.toList_append, List.length_append] at hlength
  have hlong : "approved_l".toList.length = 10 := by decide
  have hshort : "approved".toList.length = 8 := by decide
  omega

/-- The approval of a level belongs to the round. -/
theorem round_cons {record : ApprovalRecord} (h : record.documentId = documentId) :
    round (⟨record, auth, false⟩ :: log) documentId =
      ⟨record, auth, false⟩ :: round log documentId := by
  simp [round, h]

theorem recordedLevels_cons {record : ApprovalRecord} {rejection : Bool}
    (hslug : record.collectionSlug = collectionSlug) (hid : record.documentId = documentId) :
    recordedLevels (⟨record, auth, rejection⟩ :: log) collectionSlug documentId =
      record.level :: recordedLevels log collectionSlug documentId := by
  simp [recordedLevels, hslug, hid]

/-- The level after the highest one, of those on record and the one that is approved. -/
def levelAfter (log : List LoggedRecord) (collectionSlug documentId : String) (level : Int) : Int :=
  highestLevel (level :: recordedLevels log collectionSlug documentId) + 1

/-- An approval is answered `approved` only once every level is approved since the latest rejection,
exactly where the level after the highest one is still to be approved, or the round has all the
other levels. -/
theorem approve_complete_iff (hlevels : parseApprovalConfig config = some levels)
    (hlog : (approvals collectionSlug config).Reachable log)
    (h : approve config log auth collectionSlug documentId level comment amount =
      .ok (result, log')) :
    (result.newStatus = "approved" → Complete levels log' documentId) ↔
      (levelConfig levels (levelAfter log collectionSlug documentId level)).isSome = true ∨
        ∀ other, (levelConfig levels other).isSome = true → other ≠ level →
          ∃ e ∈ round log documentId, e.record.level = other := by
  obtain ⟨hcan, hlog', hstatus⟩ := approve_eq_ok hlevels h
  have hnext : getNextLevel log' collectionSlug documentId levels = none ↔
      levelConfig levels (levelAfter log collectionSlug documentId level) = none := by
    unfold getNextLevel
    rw [hlog', recordedLevels_cons rfl rfl]
    exact Option.map_eq_none_iff
  have happroved : result.newStatus = "approved" ↔
      levelConfig levels (levelAfter log collectionSlug documentId level) = none := by
    rw [hstatus, ← hnext]
    split
    · next hnone => exact ⟨fun _ => hnone, fun _ => rfl⟩
    · next hsome =>
      exact ⟨fun heq => absurd heq (approvedLevel_ne level), fun heq => absurd heq hsome⟩
  rw [happroved, hlog']
  constructor
  · intro hcomplete
    rcases hconfig : levelConfig levels (levelAfter log collectionSlug documentId level) with _ | c
    · refine .inr fun other hother hne => ?_
      obtain ⟨c, hc⟩ := Option.isSome_iff_exists.1 hother
      obtain ⟨e, he, hlevel, -⟩ := hcomplete hconfig other c hc
      rw [round_cons rfl] at he
      rcases List.mem_cons.1 he with rfl | he
      · exact absurd hlevel.symm hne
      · exact ⟨e, he, hlevel⟩
    · exact .inl rfl
  · rintro (hsome | hothers) hnone other c hc
    · rw [hnone] at hsome
      cases hsome
    rw [round_cons rfl]
    by_cases hother : other = level
    · subst hother
      obtain ⟨c', hc', hholds⟩ := holds_of_canApprove hcan
      rw [hc] at hc'
      obtain rfl := Option.some.inj hc'
      exact ⟨_, List.mem_cons_self, rfl, hholds⟩
    · obtain ⟨e, he, hlevel⟩ := hothers other (by rw [hc]; rfl) hother
      have happroval : e.rejection = false := by
        simpa using List.all_eq_true.1 List.all_takeWhile e he
      have hmem : e ∈ log := (List.mem_filter.1 (List.takeWhile_subset _ he)).1
      obtain ⟨c', hc', hholds⟩ := authorized_of_reachable hlevels hlog e hmem happroval
      rw [hlevel, hc] at hc'
      obtain rfl := Option.some.inj hc'
      exact ⟨e, List.mem_cons_of_mem _ he, hlevel, hholds⟩

end

/-- Two levels. -/
def twoLevels : List ApprovalLevel :=
  [{ level := 1, role := "Manager", canApproveUpTo := none },
   { level := 2, role := "Director", canApproveUpTo := none }]

def manager : AuthContext := { userId := "m", roleName := some "Manager", isAdmin := false }

def director : AuthContext := { userId := "d", roleName := some "Director", isAdmin := false }

/-- The approval of the first level by the manager. -/
theorem approve_complete_iff_manager :
    ∃ result log', approve (.parsed (some twoLevels)) [] manager "invoices" "1" 1 none none =
        .ok (result, log') ∧
      ((result.newStatus = "approved" → Complete twoLevels log' "1") ↔
        (levelConfig twoLevels (levelAfter [] "invoices" "1" 1)).isSome = true ∨
          ∀ other, (levelConfig twoLevels other).isSome = true → other ≠ 1 →
            ∃ e ∈ round [] "1", e.record.level = other) := by
  have h : approve (.parsed (some twoLevels)) [] manager "invoices" "1" 1 none none =
      .ok (⟨"approved_l1", some 2⟩, [⟨⟨"invoices", "1", 1, "m", "Manager", none, none⟩, manager,
        false⟩]) := rfl
  exact ⟨_, _, h, approve_complete_iff rfl (.init rfl) h⟩

/-- The director approves the second level of a document at once, and after a rejection. It is
approved though nobody has approved the first level. -/
theorem not_complete_director :
    ∃ result log', approve (.parsed (some twoLevels)) [] director "invoices" "1" 2 none none =
        .ok (result, log') ∧ result.newStatus = "approved" ∧ ¬Complete twoLevels log' "1" := by
  refine ⟨_, _, rfl, by decide, fun h => ?_⟩
  obtain ⟨e, he, hlevel, -⟩ := h 1 _ rfl
  obtain rfl := List.mem_singleton.1 he
  revert hlevel
  decide

end ApprovalService

end HeadlessErp
