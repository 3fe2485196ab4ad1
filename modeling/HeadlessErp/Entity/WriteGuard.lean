import HeadlessErp.Entity.GenericWrite

/-!
# Soundness of the write guards

What a payload keeps through the guards is no protected column but one of an m2a field, whose columns have
names that the guards do not know. Inverse formulas and slugs write after the guards.
-/

namespace HeadlessErp

namespace GenericWrite
variable {N : Type} {info : CollectionInfo N} [JsNumber N] {w : GenericWrite N info} {slug : String}

omit [JsNumber N] in
/-- A column of a request is none of the engine's, and no formula. -/
theorem not_system_of_storesColumn {key : String} (hkey : storesColumn info key = true) :
    key ∉ systemFields ∧ schemaType info.schemaFields key ≠ some .formula := by
  unfold storesColumn at hkey
  rw [Bool.and_eq_true, Bool.not_eq_true', ← Bool.not_eq_true, List.contains_iff_mem] at hkey
  refine ⟨hkey.1, fun h => ?_⟩
  have h' := hkey.2
  rw [h] at h'
  cases h'

/-- A property that the guards leave is a protected column only as one of an m2a field. -/
theorem guardedM2a_of_protected {key : String} (hkey : storesColumn info key = true)
    (htaken : ¬ w.Taken key) (hrestricted : ¬ w.Restricted key) (h : w.Protected key) :
    ∃ fieldName, w.GuardedField fieldName ∧ IsM2aColumn info fieldName key := by
  obtain ⟨hsystem, hformula⟩ := not_system_of_storesColumn hkey
  cases h with
  | field h =>
    cases h with
    | frozen h => exact absurd (.inl h) htaken
    | restricted h => exact absurd h hrestricted
    | actor hbinds h => exact absurd (.inr ⟨hbinds, h⟩) htaken
  | m2a h hkey => exact ⟨_, h, hkey⟩
  | system h => exact absurd h hsystem
  | formula h => exact absurd h hformula

/-- The passes that the request of a write has been through. -/
theorem exists_of_written {id : String} {now : IsoTime} {data : Record N}
    (h : w.written slug id now = .ok data) :
    ∃ guarded clean acc, w.guarded slug = .ok guarded ∧ w.cleanBody slug = .ok clean ∧
      clean.foldlM (splitEntry w.platform info.schemaFields) ([], []) = .ok acc := by
  have hsplit {user doc : Record N} (huser : w.userData slug = .ok user)
      (hdoc : w.document user = .ok doc) {result : Record N × Record N}
      (hcolumns : splitRowData w.platform (extractChildData doc info.schemaFields).1
        info.schemaFields = .ok result) : ∃ guarded clean acc, w.guarded slug = .ok guarded ∧
      w.cleanBody slug = .ok clean ∧
        clean.foldlM (splitEntry w.platform info.schemaFields) ([], []) = .ok acc := by
    obtain ⟨guarded, hguarded, -⟩ := userData_eq huser
    obtain ⟨acc, hacc, -⟩ := exists_of_bind_eq_ok hcolumns
    refine ⟨guarded, _, acc, hguarded, ?_, hacc⟩
    unfold cleanBody
    rw [huser]
    show (w.document user >>= _) = _
    rw [hdoc]
    rfl
  cases w with
  | create c =>
    obtain ⟨user, huser, h⟩ := exists_of_bind_eq_ok h
    obtain ⟨_, hcolumns, -⟩ := exists_of_bind_eq_ok h
    obtain ⟨doc, hdoc, hcolumns⟩ := exists_of_bind_eq_ok hcolumns
    obtain ⟨_, hcolumns, -⟩ := exists_of_bind_eq_ok hcolumns
    exact hsplit huser hdoc hcolumns
  | update c existing =>
    obtain ⟨p, hp, -⟩ := exists_of_bind_eq_ok h
    obtain ⟨⟨newStatus, user⟩, huser, hp⟩ := exists_of_bind_eq_ok hp
    obtain ⟨_, -, hp⟩ := exists_of_bind_eq_ok hp
    split at hp
    · cases hp
    · obtain ⟨doc, hdoc, hp⟩ := exists_of_bind_eq_ok hp
      obtain ⟨_, -, hp⟩ := exists_of_bind_eq_ok hp
      obtain ⟨_, hcolumns, -⟩ := exists_of_bind_eq_ok hp
      refine hsplit ?_ hdoc hcolumns
      show Prod.snd <$> callerFields slug c existing = _
      rw [huser]
      rfl

end GenericWrite

/-! ## A ticket with a frozen owner -/

/-- Tickets have a subject, and an owner that only their service sets. -/
def ownedTickets : CollectionInfo (Option Int) where
  tableName := "cms_tickets"
  schemaFields :=
    [{ name := "subject", type := .text },
     { name := "owner", type := .m2a, relatedCollections := some ["users", "teams"] }]
  writes := { frozenFields := ["owner"] }
  fields_user := by decide

/-- A role that may write the subject only creates a ticket. No hook is registered. -/
def ticketCreate (body : Record (Option Int)) : CreateCall (Option Int) ownedTickets where
  auth := some ⟨[("user_id", .str "u7"), ("is_admin", .bool false)]⟩
  body := .obj body
  restrictions := some ["subject"]
  platform := { randomUUID := "", sanitizeHtml := id, encrypt := fun _ v => v }
  ruleEnv := { now := "", today := "", uuid := "", timestamp := JsNumber.nan,
               globals := fun _ => none, registry := fun _ => none }
  document := .ok
  computed _ := []
  displayNumber := none
  computed_stored := nofun

/-- The payload names the columns of the owner. -/
def ownedTicket : GenericWrite (Option Int) ownedTickets :=
  .create (ticketCreate [("subject", .str "a"), ("owner_type", .str "users"), ("owner_id", .str "u1")])

/-- The payload names the owner, which is stripped. -/
def strippedTicket : GenericWrite (Option Int) ownedTickets :=
  .create (ticketCreate [("subject", .str "a"), ("owner", .str "u1")])

end HeadlessErp
