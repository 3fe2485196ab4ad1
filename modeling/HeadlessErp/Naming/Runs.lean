import Mathlib.Data.List.TakeWhile
import Mathlib.Logic.Function.Basic
import HeadlessErp.Base.Except
import HeadlessErp.Base.Transition
import HeadlessErp.Naming.Series

/-!
# Runs of a naming series

Numbers are allotted by `getNextNumber`, and the rows they are for are inserted later or not at all. The
next number follows the last one in the order of text, so a call succeeds where that is the order of the
numbers, and nothing that was claimed comes after the last row (`fresh_of_regular`).
-/

namespace HeadlessErp

/-! ## Runs -/

/-- The display numbers of the rows, the claims, and the numbers whose rows are to be inserted. Beside
them, the numbers that rows of a table have had. -/
structure NamingState where
  names : String → List String
  claims : List NamingClaim
  pending : List (String × String)
  issued : String → List String

/-- What happens to the numbers of a table. -/
inductive NamingAction where
  | next (table series : String) (broken : Nat → Bool)
  | insert (table number : String)
  | fail (table number : String)
  | delete (table number : String)

namespace NamingState
variable (s : NamingState)

/-- The row of a number is inserted. -/
def insert (table number : String) : NamingState where
  names := Function.update s.names table (number :: s.names table)
  claims := s.claims
  pending := s.pending.erase (table, number)
  issued := Function.update s.issued table (number :: s.issued table)

/-- A row is deleted for good. -/
def delete (table number : String) : NamingState :=
  { s with names := Function.update s.names table ((s.names table).erase number) }

/-- The calls of `createItem` on the numbers, one after the other. -/
def step (F : CounterFormat) : NamingAction → Option NamingState
  | .next table series broken =>
    match getNextNumber F (s.names table) s.claims table series broken with
    | .ok (number, claims) => some { s with claims, pending := (table, number) :: s.pending }
    | .error _ => some s
  | .insert table number =>
    if s.pending.contains (table, number) then some (s.insert table number) else none
  | .fail table number =>
    if s.pending.contains (table, number) then some { s with pending := s.pending.erase (table, number) }
    else none
  | .delete table number => if number ∈ s.names table then some (s.delete table number) else none

/-! ## The property -/

/-- The next call succeeds, with a number that no row has had. -/
def Fresh (F : CounterFormat) (table series : String) (broken : Nat → Bool) : Prop :=
  ∃ number claims, getNextNumber F (s.names table) s.claims table series broken = .ok (number, claims) ∧
    number ∉ s.issued table

/-- A number that was claimed or issued. -/
def Taken (table number : String) : Prop :=
  number ∈ s.issued table ∨ ∃ series, ⟨table, series, number⟩ ∈ s.claims

/-- A row of the table matches a prefix, and does not come before a number. -/
def Covers (names : List String) (number namePrefix : String) : Prop :=
  ∃ name ∈ names, likePrefix namePrefix.toList name.toList = true ∧ number ≤ name

/-- What was claimed or issued is waiting for its row, or does not come after the rows it matches with. -/
def Covered : Prop :=
  ∀ table number namePrefix, s.Taken table number →
    likePrefix namePrefix.toList number.toList = true →
    (table, number) ∈ s.pending ∨ Covers (s.names table) number namePrefix

/-- Tables to start from: no number is waiting, and no number that was used comes after the rows. -/
def Settled : Prop := s.pending = [] ∧ s.Covered

/-- The rows that match a prefix are its numbers, none of them shorter than a width, and all followed by
one that fits it. -/
def InOrder (names : List String) (p : ParsedNamingSeries) : Prop :=
  ∀ name ∈ names, likePrefix p.namePrefix.toList name.toList = true →
    ∃ ds : List Char, name.toList = p.namePrefix.toList ++ ds ∧ (∀ d ∈ ds, d.isDigit = true) ∧
      p.width ≤ ds.length ∧ Decimal.value ds + 1 < 10 ^ p.width

/-- The condition on a step: a number is allotted where none of its table is waiting for its row and the
rows are in order, an insert fails only of a number that is not claimed or has been issued, and a row is
deleted only where one that matches with it and does not come before it stays. -/
def Regular : NamingAction → Prop
  | .next table series _ => (∀ number, (table, number) ∉ s.pending) ∧
    ∀ p, parseSeries series = some p → InOrder (s.names table) p
  | .insert _ _ => True
  | .fail table number => s.Taken table number → ∀ namePrefix : String,
    likePrefix namePrefix.toList number.toList = true → Covers (s.names table) number namePrefix
  | .delete table number => ∀ namePrefix : String,
    likePrefix namePrefix.toList number.toList = true →
      Covers ((s.names table).erase number) number namePrefix

end NamingState

/-- The runs from given tables. -/
def namingSystem (F : CounterFormat) (start : NamingState → Prop) :
    System NamingState NamingAction where
  init := start
  step s a := s.step F a

/-! ## The next number -/

theorem sliceUnits_append (ps cs : List Char) :
    sliceUnits (ps.flatMap charUnits).length (ps ++ cs) = cs := by
  induction ps with
  | nil => cases cs <;> rfl
  | cons p ps ih =>
    have hpos : 0 < (charUnits p).length := by
      unfold charUnits
      split
      · exact Nat.one_pos
      · exact Nat.two_pos
    rw [List.flatMap_cons, List.length_append, List.cons_append]
    obtain ⟨n, hn⟩ := Nat.exists_eq_succ_of_ne_zero
      (Nat.ne_of_gt (Nat.add_pos_left hpos (ps.flatMap charUnits).length))
    rw [hn, sliceUnits, if_pos (by omega)]
    have hrest : n + 1 - (charUnits p).length = (ps.flatMap charUnits).length := by omega
    rw [hrest, ih]

/-- A digit is no white space and no sign. -/
theorem parseIntDigits_of_isDigit {ds : List Char} (h : ∀ d ∈ ds, d.isDigit = true) :
    parseIntDigits ds = ds := by
  cases ds with
  | nil => rfl
  | cons d ds =>
    have hdigit := h d List.mem_cons_self
    have hspace : isSpace d = false := by
      simp only [Char.isDigit, Bool.and_eq_true, decide_eq_true_eq] at hdigit
      have hlow : 48 ≤ d.toNat := hdigit.1
      have hhigh : d.toNat ≤ 57 := hdigit.2
      simp [isSpace]
      omega
    unfold parseIntDigits
    rw [List.dropWhile_cons_of_neg (by simp [hspace])]
    split
    · next heq =>
      obtain ⟨rfl, -⟩ := List.cons.inj heq
      cases hdigit
    · next heq =>
      obtain ⟨rfl, -⟩ := List.cons.inj heq
      cases hdigit
    · exact List.takeWhile_eq_self_iff.2 h

theorem toList_padStart_repr (width n : Nat) :
    (padStart width n.repr).toList = Decimal.padded width n := by
  simp only [padStart, Decimal.padded, String.toList_append, String.toList_ofList, ← String.length_toList,
    Nat.toList_repr]

section
variable {F : CounterFormat} {s s' : NamingState} {table series number : String}
  {p : ParsedNamingSeries} {broken : Nat → Bool}

/-- The number that follows the last row comes after it. -/
theorem lt_nextNumber (hp : parseSeries series = some p) {names : List String} {last : String}
    (hlast : lastNumber names p.namePrefix = some last) (h : NamingState.InOrder names p) :
    last < F.nextNumber p names := by
  obtain ⟨hpos, hwidth⟩ := width_of_parseSeries hp
  obtain ⟨hmem, hlike, -⟩ := lastNumber_eq_some hlast
  obtain ⟨ds, hds, hdigits, hlength, hfits⟩ := h last hmem hlike
  have hsafe : Decimal.value ds + 1 < 2 ^ 53 := calc
    _ < 10 ^ p.width := hfits
    _ ≤ 10 ^ 10 := Nat.pow_le_pow_right (by decide) hwidth
    _ < 2 ^ 53 := by decide
  have hread : parseIntDigits (sliceUnits (jsLength p.namePrefix) last.toList) = ds := by
    rw [hds, jsLength, utf16, sliceUnits_append, parseIntDigits_of_isDigit hdigits]
  have hten : 10 ^ 1 ≤ 10 ^ p.width := Nat.pow_le_pow_right (by decide) hpos
  have hnum : F.nextNum p.namePrefix (some last) = max (Decimal.value ds) 1 + 1 := by
    have hround := F.round_eq (Decimal.value ds) (by omega)
    simp only [CounterFormat.nextNum, hread, hround]
    exact F.round_eq _ (by omega)
  have hnext : (F.nextNumber p names).toList =
      p.namePrefix.toList ++ Decimal.padded p.width (max (Decimal.value ds) 1 + 1) := by
    rw [CounterFormat.nextNumber, hlast, hnum, F.write_eq _ (by omega), String.toList_append,
      toList_padStart_repr]
  rw [String.lt_iff_toList_lt, hnext, hds]
  exact List.append_left_lt (Decimal.lt_padded hpos hdigits hlength (by omega) (by omega))

/-- No row that matches covers the next number. -/
theorem not_covers_nextNumber (hp : parseSeries series = some p) {names : List String}
    (h : NamingState.InOrder names p) :
    ¬ NamingState.Covers names (F.nextNumber p names) p.namePrefix := by
  rintro ⟨name, hname, hlike, hle⟩
  cases hlast : lastNumber names p.namePrefix with
  | none =>
    rw [lastNumber_eq_none hlast name hname] at hlike
    cases hlike
  | some last =>
    have hlt := lt_nextNumber (F := F) hp hlast h
    have hmax := (lastNumber_eq_some hlast).2.2 name hname hlike
    exact absurd (hle.trans hmax) (not_le.2 hlt)

theorem likePrefix_nextNumber (names : List String) :
    likePrefix p.namePrefix.toList (F.nextNumber p names).toList = true := by
  rw [CounterFormat.nextNumber, String.toList_append]
  exact likePrefix_append _ _

/-! ## Steps -/

/-- The claims after an INSERT. -/
theorem mem_insertClaim {claims claims' : List NamingClaim} {claim : NamingClaim} {failed : Bool}
    (h : insertClaim claims claim failed = some claims') : ∀ c ∈ claims', c ∈ claims ∨ c = claim := by
  unfold insertClaim at h
  split at h
  · obtain rfl := Option.some.inj h
    exact fun c hc => .inl hc
  · split at h
    · cases h
    · obtain rfl := Option.some.inj h
      intro c hc
      exact (List.mem_append.1 hc).imp_right List.mem_singleton.1

theorem mem_claimLoop {names : List String} {claims claims' : List NamingClaim} {left : Nat}
    (h : claimLoop F names claims table p broken left = .ok (number, claims')) :
    ∀ c ∈ claims', c ∈ claims ∨ c.table = table ∧ c.number = number := by
  induction left with
  | zero => cases h
  | succ left ih =>
    simp only [claimLoop] at h
    split at h
    · next claims'' hinsert =>
      obtain ⟨rfl, rfl⟩ := Prod.mk.inj (Except.ok.inj h)
      intro c hc
      obtain hc | rfl := mem_insertClaim hinsert c hc
      · exact .inl hc
      · exact .inr ⟨rfl, rfl⟩
    · exact ih h

/-- A call adds its own claim at most. -/
theorem mem_getNextNumber {names : List String} {claims claims' : List NamingClaim}
    (h : getNextNumber F names claims table series broken = .ok (number, claims')) :
    ∀ c ∈ claims', c ∈ claims ∨ c.table = table ∧ c.number = number := by
  unfold getNextNumber at h
  split at h
  · cases h
  · obtain ⟨safeTable, hsafe, hloop⟩ := exists_of_bind_eq_ok h
    unfold sanitizeIdentifier at hsafe
    split at hsafe
    · obtain rfl := Except.ok.inj hsafe
      exact mem_claimLoop hloop
    · cases hsafe

namespace NamingState

/-- A number stays covered while rows are added. -/
theorem Covers.mono {names names' : List String} {namePrefix : String}
    (h : Covers names number namePrefix) (hsub : ∀ name ∈ names, name ∈ names') :
    Covers names' number namePrefix := by
  obtain ⟨name, hname, hcovers⟩ := h
  exact ⟨name, hsub name hname, hcovers⟩

theorem Covered.next (h : s.Covered) {claims : List NamingClaim}
    (hnext : getNextNumber F (s.names table) s.claims table series broken = .ok (number, claims)) :
    ({ s with claims, pending := (table, number) :: s.pending } : NamingState).Covered := by
  intro t x namePrefix htaken hlike
  have hold (htaken : s.Taken t x) :
      (t, x) ∈ (table, number) :: s.pending ∨ Covers (s.names t) x namePrefix :=
    (h t x namePrefix htaken hlike).imp_left (List.mem_cons_of_mem _)
  obtain hissued | ⟨series', hclaim⟩ := htaken
  · exact hold (.inl hissued)
  · obtain hclaim | ⟨htable, hnumber⟩ := mem_getNextNumber hnext _ hclaim
    · exact hold (.inr ⟨series', hclaim⟩)
    · obtain rfl : t = table := htable
      obtain rfl : x = number := hnumber
      exact .inl List.mem_cons_self

theorem Covered.insert (h : s.Covered) : (s.insert table number).Covered := by
  intro t x namePrefix htaken hlike
  obtain heq | hne := eq_or_ne (t, x) (table, number)
  · obtain ⟨rfl, rfl⟩ := Prod.mk.inj heq
    refine .inr ⟨x, ?_, hlike, le_refl x⟩
    show x ∈ Function.update s.names t _ t
    rw [Function.update_self]
    exact List.mem_cons_self
  · have htaken : s.Taken t x := by
      refine htaken.imp_left fun hissued => ?_
      change x ∈ Function.update s.issued table _ t at hissued
      obtain rfl | ht := eq_or_ne t table
      · rw [Function.update_self] at hissued
        exact (List.mem_cons.1 hissued).resolve_left fun hx => hne (hx ▸ rfl)
      · rwa [Function.update_of_ne ht] at hissued
    refine (h t x namePrefix htaken hlike).imp (fun hpending => ?_) fun hcovers => ?_
    · exact (List.mem_erase_of_ne hne).2 hpending
    · refine hcovers.mono fun name hname => ?_
      show name ∈ Function.update s.names table _ t
      obtain rfl | ht := eq_or_ne t table
      · rw [Function.update_self]
        exact List.mem_cons_of_mem _ hname
      · rwa [Function.update_of_ne ht]

theorem Covered.fail (h : s.Covered) (hregular : s.Regular (.fail table number)) :
    ({ s with pending := s.pending.erase (table, number) } : NamingState).Covered := by
  intro t x namePrefix htaken hlike
  have htaken : s.Taken t x := htaken
  obtain heq | hne := eq_or_ne (t, x) (table, number)
  · obtain ⟨rfl, rfl⟩ := Prod.mk.inj heq
    exact .inr (hregular htaken namePrefix hlike)
  · exact (h t x namePrefix htaken hlike).imp_left (List.mem_erase_of_ne hne).2

theorem Covered.delete (h : s.Covered) (hregular : s.Regular (.delete table number)) :
    (s.delete table number).Covered := by
  intro t x namePrefix htaken hlike
  refine (h t x namePrefix htaken hlike).imp_right fun hcovers => ?_
  show Covers (Function.update s.names table _ t) x namePrefix
  obtain rfl | ht := eq_or_ne t table
  · rw [Function.update_self]
    obtain ⟨name, hname, hmatch, hle⟩ := hcovers
    obtain rfl | hne := eq_or_ne name number
    · obtain ⟨other, hother, hmatch', hle'⟩ := hregular namePrefix hmatch
      exact ⟨other, hother, hmatch', hle.trans hle'⟩
    · exact ⟨name, (List.mem_erase_of_ne hne).2 hname, hmatch, hle⟩
  · rwa [Function.update_of_ne ht]

theorem step_next {claims : List NamingClaim}
    (h : getNextNumber F (s.names table) s.claims table series broken = .ok (number, claims)) :
    s.step F (.next table series broken) =
      some { s with claims, pending := (table, number) :: s.pending } := by
  rw [NamingState.step, h]

theorem step_insert (h : (table, number) ∈ s.pending) :
    s.step F (.insert table number) = some (s.insert table number) :=
  if_pos (List.contains_iff_mem.2 h)

theorem Covered.step (h : s.Covered) {a : NamingAction} (hregular : s.Regular a)
    (hstep : s.step F a = some s') : s'.Covered := by
  cases a with
  | next table series broken =>
    simp only [NamingState.step] at hstep
    split at hstep
    · next hnext =>
      obtain rfl := Option.some.inj hstep
      exact h.next hnext
    · obtain rfl := Option.some.inj hstep
      exact h
  | insert table number =>
    simp only [NamingState.step] at hstep
    split at hstep
    · obtain rfl := Option.some.inj hstep
      exact h.insert
    · cases hstep
  | fail table number =>
    simp only [NamingState.step] at hstep
    split at hstep
    · obtain rfl := Option.some.inj hstep
      exact h.fail hregular
    · cases hstep
  | delete table number =>
    simp only [NamingState.step] at hstep
    split at hstep
    · obtain rfl := Option.some.inj hstep
      exact h.delete hregular
    · cases hstep

/-- Where the rows are in order and no number of the table is waiting, a call succeeds with a new one. -/
theorem Covered.fresh (h : s.Covered) (hp : parseSeries series = some p)
    (htable : isIdentifier table = true) (hregular : s.Regular (.next table series broken)) :
    s.Fresh F table series broken := by
  obtain ⟨hnone, horder⟩ := hregular
  have hnew : ¬ s.Taken table (F.nextNumber p (s.names table)) := by
    intro htaken
    obtain hpending | hcovers := h table _ p.namePrefix htaken (likePrefix_nextNumber _)
    · exact hnone _ hpending
    · exact not_covers_nextNumber hp (horder p hp) hcovers
  have hclaim : ∃ claims, insertClaim s.claims ⟨table, p.raw, F.nextNumber p (s.names table)⟩
      (broken 2) = some claims := by
    unfold insertClaim
    split
    · exact ⟨_, rfl⟩
    · rw [if_neg fun hclaimed => hnew (.inr ⟨p.raw, by simpa using hclaimed⟩)]
      exact ⟨_, rfl⟩
  obtain ⟨claims, hclaim⟩ := hclaim
  refine ⟨_, claims, ?_, fun hissued => hnew (.inl hissued)⟩
  simp only [getNextNumber, hp, sanitizeIdentifier_of_isIdentifier htable]
  show claimLoop F _ _ table p broken 3 = _
  simp only [claimLoop, hclaim]

end NamingState

/-! ## Runs -/

/-- In every run from settled tables whose steps are regular, a call on rows that are in order succeeds,
with a number that no row has had. -/
theorem fresh_of_regular (h : (namingSystem F NamingState.Settled).Reach NamingState.Regular s)
    (hp : parseSeries series = some p) (htable : isIdentifier table = true)
    (hregular : s.Regular (.next table series broken)) : s.Fresh F table series broken := by
  have hcovered : s.Covered :=
    h.invariant (fun _ hstart => hstart.2) fun _ _ _ hs hregular hstep => hs.step hregular hstep
  exact hcovered.fresh hp htable hregular

/-! ## Invoices -/

/-- Counters that stay below `2 ^ 53`. -/
def smallCounter : CounterFormat := ⟨id, Nat.repr, fun _ _ => rfl, fun _ _ => rfl⟩

/-- A table of invoices, from before the series was claimed. -/
def invoices (numbers : List String) : NamingState where
  names _ := numbers
  claims := []
  pending := []
  issued _ := numbers

theorem invoices_settled (numbers : List String) : (invoices numbers).Settled := by
  refine ⟨rfl, fun t x namePrefix htaken hlike => .inr ?_⟩
  obtain hissued | ⟨series, hclaim⟩ := htaken
  · exact ⟨x, hissued, hlike, le_refl x⟩
  · cases hclaim

/-- Each invoice is the next one, and its row is inserted. -/
def NamingState.addInvoice (s : NamingState) (number : String) : NamingState :=
  ({ s with
    claims := s.claims ++ [⟨"cms_invoices", "INV-", number⟩]
    pending := ("cms_invoices", number) :: s.pending } : NamingState).insert "cms_invoices" number

theorem reach_addInvoice {q : NamingState → NamingAction → Prop}
    (h : (namingSystem smallCounter NamingState.Settled).Reach q s)
    (hnext : getNextNumber smallCounter (s.names "cms_invoices") s.claims "cms_invoices" "INV-"
      (fun _ => false) = .ok (number, s.claims ++ [⟨"cms_invoices", "INV-", number⟩]))
    (hregular : q s (.next "cms_invoices" "INV-" fun _ => false))
    (hinsert : ∀ s, q s (.insert "cms_invoices" number)) :
    (namingSystem smallCounter NamingState.Settled).Reach q (s.addInvoice number) := by
  have hallotted := h.step hregular (NamingState.step_next hnext)
  exact hallotted.step (hinsert _) (NamingState.step_insert (F := smallCounter) List.mem_cons_self)

/-- The counter outgrows its width: `INV-99999` stays the last number in the order of text. -/
theorem outgrown_series_blocked :
    ¬ ∀ (F : CounterFormat) (s : NamingState), (namingSystem F NamingState.Settled).Reachable s →
        ∀ table series p broken, parseSeries series = some p → isIdentifier table = true →
          s.Fresh F table series broken := by
  intro h
  have hinit : (namingSystem smallCounter NamingState.Settled).Reachable (invoices ["INV-99999"]) :=
    .init (invoices_settled _)
  have hnext : getNextNumber smallCounter ["INV-99999"] [] "cms_invoices" "INV-" (fun _ => false) =
      .ok ("INV-100000", [⟨"cms_invoices", "INV-", "INV-100000"⟩]) := by decide
  have hrun := reach_addInvoice hinit hnext trivial fun _ => trivial
  obtain ⟨number, claims, hok, -⟩ := h smallCounter _ hrun "cms_invoices" "INV-" ⟨"INV-", 5, "INV-"⟩
    (fun _ => false) (by decide) (by decide)
  have herror : getNextNumber smallCounter ["INV-100000", "INV-99999"]
      [⟨"cms_invoices", "INV-", "INV-100000"⟩] "cms_invoices" "INV-" (fun _ => false) =
        .error "Failed to generate unique display_number for series \"INV-\" after 3 attempts" := by
    decide
  cases herror.symm.trans hok

theorem invoices_inOrder {names : List String} (h : ∀ name ∈ names, name ∈ ["INV-00042", "INV-00041"]) :
    ∀ p, parseSeries "INV-" = some p → NamingState.InOrder names p := by
  intro p hp
  obtain rfl : ⟨"INV-", 5, "INV-"⟩ = p := Option.some.inj (Eq.trans (by decide) hp)
  intro name hname _
  obtain rfl | hname := List.mem_cons.1 (h name hname)
  · exact ⟨['0', '0', '0', '4', '2'], by decide, List.all_eq_true.1 rfl, by decide, by decide⟩
  · obtain rfl := List.mem_singleton.1 hname
    exact ⟨['0', '0', '0', '4', '1'], by decide, List.all_eq_true.1 rfl, by decide, by decide⟩

/-- The invoice after `INV-00042`. -/
theorem fresh_of_regular_invoice : ∃ s,
    (namingSystem smallCounter NamingState.Settled).Reach NamingState.Regular s ∧
      s.names "cms_invoices" = ["INV-00042", "INV-00041"] ∧
      s.Fresh smallCounter "cms_invoices" "INV-" fun _ => false := by
  have hinit : (namingSystem smallCounter NamingState.Settled).Reach NamingState.Regular
      (invoices ["INV-00041"]) := .init (invoices_settled _)
  have hnext : getNextNumber smallCounter ["INV-00041"] [] "cms_invoices" "INV-" (fun _ => false) =
      .ok ("INV-00042", [⟨"cms_invoices", "INV-", "INV-00042"⟩]) := by decide
  have hrun := reach_addInvoice hinit hnext
    ⟨nofun, invoices_inOrder fun _ hname => List.mem_cons_of_mem _ hname⟩ fun _ => trivial
  have hparse : parseSeries "INV-" = some ⟨"INV-", 5, "INV-"⟩ := by decide
  exact ⟨_, hrun, rfl, fresh_of_regular hrun hparse (by decide)
    ⟨nofun, invoices_inOrder fun _ hname => hname⟩⟩

end

end HeadlessErp
