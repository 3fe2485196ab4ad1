import Mathlib.Algebra.Order.Ring.Int
import Mathlib.Data.List.Count
import Mathlib.Data.List.Sort

/-!
# The outbox tables

The tables `_outbox` and `_outbox_dlq` of `apps/api/src/plugins/outbox`, and the statements of
`OutboxService` on them. Times are milliseconds of the epoch; the texts the tables keep of them are
ordered as they are.
-/

namespace HeadlessErp

/-! ## Data -/

/-- The `status` of an `OutboxEntry`. -/
inductive OutboxStatus where
  | pending
  | done
  | failed
  deriving DecidableEq, Repr

/-- A side effect that was enqueued. -/
structure OutboxEffect where
  id : String
  type : String
  payloadJson : String
  deriving DecidableEq, Repr

/-- An `OutboxEntry`. -/
structure OutboxEntry extends OutboxEffect where
  dedupeKey : Option String
  status : OutboxStatus
  attempts : Nat
  nextAttemptAt : Int
  error : Option String
  createdAt : Int
  updatedAt : Int
  deriving DecidableEq, Repr

/-- A row of `_outbox_dlq`. -/
structure DeadLetter extends OutboxEffect where
  dedupeKey : Option String
  attempts : Nat
  error : Option String
  failedAt : Int
  deriving DecidableEq, Repr

/-- `OutboxEnqueueOptions`. -/
structure OutboxEnqueueOptions where
  dedupeKey : Option String := none
  delayMs : Option Int := none

def outboxMaxAttempts : Nat := 5

def outboxBackoffBaseMs : Int := 60000

/-- `outboxBackoffMs`: a minute, doubled for each attempt up to an hour. -/
def outboxBackoffMs (attempts : Nat) : Int :=
  min (60 * 60000) (outboxBackoffBaseMs * 2 ^ (attempts - 1))

/-! ## Statements -/

/-- The row that `enqueue` inserts. -/
def OutboxEntry.new (effect : OutboxEffect) (options : OutboxEnqueueOptions) (now : Int) :
    OutboxEntry where
  toOutboxEffect := effect
  dedupeKey := options.dedupeKey
  status := .pending
  attempts := 0
  nextAttemptAt := now + options.delayMs.getD 0
  error := none
  createdAt := now
  updatedAt := now

/-- A row with the primary key or the `dedupe_key` of another. -/
def OutboxEntry.conflicts (row other : OutboxEntry) : Bool :=
  other.id = row.id || (row.dedupeKey.isSome && other.dedupeKey = row.dedupeKey)

/-- `INSERT OR IGNORE INTO _outbox`: the rows, where one was inserted. -/
def insertEntry (rows : List OutboxEntry) (row : OutboxEntry) : Option (List OutboxEntry) :=
  if rows.any row.conflicts then none else some (rows ++ [row])

/-- The `WHERE` of `flushDue`. -/
def OutboxEntry.isDue (row : OutboxEntry) (now : Int) : Bool :=
  row.status = .pending && row.nextAttemptAt ≤ now

/-- The rows that `flushDue` selects. -/
def dueEntries (rows : List OutboxEntry) (now : Int) (limit : Nat) : List OutboxEntry :=
  ((rows.filter (·.isDue now)).insertionSort fun a b => a.createdAt ≤ b.createdAt).take limit

/-- An `UPDATE _outbox … WHERE id = ?`. -/
def updateEntry (rows : List OutboxEntry) (id : String) (f : OutboxEntry → OutboxEntry) :
    List OutboxEntry :=
  rows.map fun row => if row.id = id then f row else row

/-- `markDone`. -/
def markDone (rows : List OutboxEntry) (id : String) (now : Int) : List OutboxEntry :=
  updateEntry rows id fun row => { row with status := .done, updatedAt := now }

/-- `markFailed`. -/
def markFailed (rows : List OutboxEntry) (id : String) (attempts : Nat) (error : String) (now : Int) :
    List OutboxEntry :=
  updateEntry rows id fun row =>
    { row with status := .failed, attempts, error := some error,
               nextAttemptAt := now + outboxBackoffMs attempts, updatedAt := now }

/-- The row of `_outbox_dlq` that `deadLetter` inserts. -/
def OutboxEntry.letter (row : OutboxEntry) (error : String) (now : Int) : DeadLetter where
  toOutboxEffect := row.toOutboxEffect
  dedupeKey := row.dedupeKey
  attempts := row.attempts + 1
  error := some error
  failedAt := now

/-- `INSERT INTO _outbox_dlq`. -/
def insertLetter (letters : List DeadLetter) (letter : DeadLetter) : Option (List DeadLetter) :=
  if letters.any (·.id = letter.id) then none else some (letters ++ [letter])

/-- The row that `retryDlq` inserts. -/
def DeadLetter.entry (letter : DeadLetter) (now : Int) : OutboxEntry :=
  .new letter.toOutboxEffect { dedupeKey := letter.dedupeKey } now

/-! ## What the statements keep -/

/-- The rows of `_outbox` that hold an effect and can still be selected. -/
def selectableCount (rows : List OutboxEntry) (e : OutboxEffect) : Nat :=
  rows.countP fun row => row.toOutboxEffect = e && row.status = .pending

/-- The rows of `_outbox_dlq` that hold an effect. -/
def letterCount (letters : List DeadLetter) (e : OutboxEffect) : Nat :=
  letters.countP fun letter => letter.toOutboxEffect = e

section
variable {rows rows' : List OutboxEntry} {letters letters' : List DeadLetter} {row : OutboxEntry}
  {letter : DeadLetter} {e : OutboxEffect} {id : String} {now : Int}

theorem insertEntry_eq_some (h : insertEntry rows row = some rows') :
    rows' = rows ++ [row] ∧ ∀ other ∈ rows, other.id ≠ row.id := by
  unfold insertEntry at h
  split at h
  · cases h
  · next hany =>
    refine ⟨(Option.some.inj h).symm, fun other hother heq => hany ?_⟩
    exact List.any_eq_true.2 ⟨other, hother, by simp [OutboxEntry.conflicts, heq]⟩

/-- An INSERT is ignored just when there is a row with its id or its key. -/
theorem insertEntry_eq_none_iff : insertEntry rows row = none ↔
    ∃ other ∈ rows, other.id = row.id ∨ row.dedupeKey.isSome ∧ other.dedupeKey = row.dedupeKey := by
  simp [insertEntry, OutboxEntry.conflicts, or_iff_not_imp_left]

theorem insertLetter_eq_some (h : insertLetter letters letter = some letters') :
    letters' = letters ++ [letter] := by
  unfold insertLetter at h
  split at h
  · cases h
  · exact (Option.some.inj h).symm

theorem mem_dueEntries {limit : Nat} (h : row ∈ dueEntries rows now limit) :
    row ∈ rows ∧ row.isDue now = true := by
  have hsorted := (List.perm_insertionSort _ _).subset (List.mem_of_mem_take h)
  exact List.mem_filter.1 hsorted

theorem mem_updateEntry {f : OutboxEntry → OutboxEntry} (h : row ∈ updateEntry rows id f) :
    row ∈ rows ∧ row.id ≠ id ∨ ∃ row₀ ∈ rows, row₀.id = id ∧ row = f row₀ := by
  obtain ⟨row₀, hrow₀, rfl⟩ := List.mem_map.1 h
  by_cases hid : row₀.id = id
  · rw [if_pos hid]
    exact .inr ⟨row₀, hrow₀, hid, rfl⟩
  · rw [if_neg hid]
    exact .inl ⟨hrow₀, hid⟩

/-- An `UPDATE` of one row leaves the other effects. -/
theorem selectableCount_updateEntry {f : OutboxEntry → OutboxEntry}
    (hf : ∀ row, (f row).toOutboxEffect = row.toOutboxEffect) (hid : e.id ≠ id) :
    selectableCount (updateEntry rows id f) e = selectableCount rows e := by
  unfold selectableCount updateEntry
  rw [List.countP_map]
  refine List.countP_congr fun row _ => ?_
  simp only [Function.comp_apply]
  split
  · next hrow =>
    have hne : row.toOutboxEffect ≠ e := fun heq => hid (heq ▸ hrow)
    simp [hf, hne]
  · rfl

/-- A `DELETE` that spares the rows of an effect. -/
theorem selectableCount_filter {p : OutboxEntry → Bool}
    (hp : ∀ row ∈ rows, row.toOutboxEffect = e → row.status = .pending → p row = true) :
    selectableCount (rows.filter p) e = selectableCount rows e := by
  unfold selectableCount
  rw [List.countP_filter]
  refine List.countP_congr fun row hrow => ?_
  simp only [Bool.and_eq_true, decide_eq_true_eq, and_iff_left_iff_imp]
  exact fun h => hp row hrow h.1 h.2

theorem letterCount_filter {p : DeadLetter → Bool}
    (hp : ∀ letter ∈ letters, letter.toOutboxEffect = e → p letter = true) :
    letterCount (letters.filter p) e = letterCount letters e := by
  unfold letterCount
  rw [List.countP_filter]
  refine List.countP_congr fun letter hletter => ?_
  simp only [Bool.and_eq_true, decide_eq_true_eq, and_iff_left_iff_imp]
  exact hp letter hletter

theorem selectableCount_append (hrow : row.toOutboxEffect ≠ e ∨ row.status ≠ .pending) :
    selectableCount (rows ++ [row]) e = selectableCount rows e := by
  unfold selectableCount
  rw [List.countP_append, List.countP_singleton, if_neg (by simp; tauto), Nat.add_zero]

theorem letterCount_append (hletter : letter.toOutboxEffect ≠ e) :
    letterCount (letters ++ [letter]) e = letterCount letters e := by
  unfold letterCount
  rw [List.countP_append, List.countP_singleton, if_neg (by simpa using hletter), Nat.add_zero]

end

end HeadlessErp
