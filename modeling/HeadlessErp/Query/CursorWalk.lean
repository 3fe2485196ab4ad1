import HeadlessErp.Query.FindMany

/-!
# Walking the pages of a repository

A walk calls `findMany` with the cursor of the page before until there is none. A page is cut at an
arbitrary row, and the next one begins strictly beyond the sort value of the last row. So a walk is
complete when each page ends between two different values, and when no null is left behind a page
(`PagesEnd`); `Complete` holds in no other case.
-/

namespace HeadlessErp.Repository

/-! ## Sort values -/

section
variable {V : Type} [LinearOrder V] {d : SortDir} {v w : V} {k k' : WithBot V}

theorem keyLe_refl (d : SortDir) (k : WithBot V) : keyLe d k k = true := by
  cases d <;> simp [keyLe]

theorem keyLe_trans {k'' : WithBot V} (h : keyLe d k k' = true) (h' : keyLe d k' k'' = true) :
    keyLe d k k'' = true := by
  cases d with
  | asc => exact decide_eq_true ((of_decide_eq_true h).trans (of_decide_eq_true h'))
  | desc => exact decide_eq_true ((of_decide_eq_true h').trans (of_decide_eq_true h))

theorem keyLe_total (d : SortDir) (k k' : WithBot V) : (keyLe d k k' || keyLe d k' k) = true := by
  rw [Bool.or_eq_true]
  cases d with
  | asc => exact (le_total k k').imp (fun h => decide_eq_true h) fun h => decide_eq_true h
  | desc => exact (le_total k' k).imp (fun h => decide_eq_true h) fun h => decide_eq_true h

theorem keyLe_antisymm (h : keyLe d k k' = true) (h' : keyLe d k' k = true) : k = k' := by
  cases d with
  | asc => exact le_antisymm (of_decide_eq_true h) (of_decide_eq_true h')
  | desc => exact le_antisymm (of_decide_eq_true h') (of_decide_eq_true h)

/-- What is not behind a value does not follow it. -/
theorem follows_eq_false (h : keyLe d k ↑v = true) : follows d v k = false := by
  cases d with
  | asc => exact decide_eq_false fun hf => absurd (of_decide_eq_true h) (not_le_of_gt hf.2)
  | desc => exact decide_eq_false fun hf => absurd (of_decide_eq_true h) (not_le_of_gt hf.2)

theorem follows_trans (h : follows d v ↑w = true) (h' : follows d w k = true) :
    follows d v k = true := by
  cases d with
  | asc =>
    exact decide_eq_true ⟨(of_decide_eq_true h').1,
      (of_decide_eq_true h).2.trans (of_decide_eq_true h').2⟩
  | desc =>
    exact decide_eq_true ⟨(of_decide_eq_true h').1,
      (of_decide_eq_true h').2.trans (of_decide_eq_true h).2⟩

/-- The sort values in the order of their direction. -/
def sortedKeys (d : SortDir) (ks : List (WithBot V)) : List (WithBot V) := ks.mergeSort (keyLe d)

/-- There is one way to sort values. -/
theorem sortedKeys_eq {ks ks' : List (WithBot V)} (hperm : ks'.Perm ks)
    (hsorted : ks'.Pairwise fun a b => keyLe d a b = true) : sortedKeys d ks = ks' := by
  have htrans (a b c : WithBot V) : keyLe d a b = true → keyLe d b c = true →
      keyLe d a c = true := keyLe_trans
  have hsort : (sortedKeys d ks).Pairwise fun a b => keyLe d a b = true :=
    List.pairwise_mergeSort htrans (keyLe_total d) ks
  exact List.Perm.eq_of_pairwise (fun _ _ _ _ => keyLe_antisymm) hsort hsorted
    ((List.mergeSort_perm ks (keyLe d)).trans hperm.symm)

/-- Each page of `L` rows ends with a value that has a text, and all later values follow it. -/
def PagesEnd (d : SortDir) (text : V → String) (L : Nat) (ks : List (WithBot V)) : Prop :=
  ∀ i, 0 < i → i * L < ks.length →
    ∃ v : V, ks[i * L - 1]? = some ↑v ∧ text v ≠ "" ∧ ∀ k ∈ ks.drop (i * L), follows d v k = true

/-- The first page, and the pages after it. -/
theorem pagesEnd_iff_drop {text : V → String} {L : Nat} {ks : List (WithBot V)} (hL : 0 < L)
    (hlen : L < ks.length) :
    PagesEnd d text L ks ↔
      (∃ v : V, ks[L - 1]? = some ↑v ∧ text v ≠ "" ∧ ∀ k ∈ ks.drop L, follows d v k = true) ∧
        PagesEnd d text L (ks.drop L) := by
  have hshift (i : Nat) (hi : 0 < i) :
      (ks.drop L)[i * L - 1]? = ks[(i + 1) * L - 1]? ∧
        (ks.drop L).drop (i * L) = ks.drop ((i + 1) * L) := by
    have hpos : 0 < i * L := Nat.mul_pos hi hL
    refine ⟨?_, ?_⟩
    · rw [List.getElem?_drop, Nat.succ_mul]
      congr 1
      omega
    · rw [List.drop_drop, Nat.succ_mul]
      congr 1
      omega
  constructor
  · intro h
    refine ⟨by simpa using h 1 Nat.zero_lt_one (by simpa using hlen), fun i hi hlt => ?_⟩
    obtain ⟨hget, hdrop⟩ := hshift i hi
    rw [hget, hdrop]
    refine h (i + 1) (Nat.succ_pos i) ?_
    rw [List.length_drop] at hlt
    rw [Nat.succ_mul]
    omega
  · rintro ⟨hfirst, hrest⟩ i hi hlt
    rcases Nat.lt_or_ge 1 i with hone | hone
    · obtain ⟨j, rfl⟩ := Nat.exists_eq_add_of_lt hone
      obtain ⟨hget, hdrop⟩ := hshift (j + 1) (Nat.succ_pos j)
      have hj : 1 + j + 1 = (j + 1) + 1 := by omega
      rw [hj] at hlt ⊢
      rw [← hget, ← hdrop]
      refine hrest (j + 1) (Nat.succ_pos j) ?_
      rw [List.length_drop]
      rw [Nat.succ_mul] at hlt
      omega
    · obtain rfl : i = 1 := by omega
      rw [Nat.one_mul]
      exact hfirst

end

/-! ## Pages -/

namespace Table
variable {C Row V : Type} [DecidableEq C] [LinearOrder V] (T : Table C Row V)

/-- The rows that meet the conditions of a request. -/
def matching (o : FindManyOptions C V) : List Row :=
  T.rows.filter fun r => (o.where_.map conditionOf).all (T.holds r)

/-- Whether the sort column is among the columns of the returned rows. -/
def selectsKey (o : FindManyOptions C V) : Bool :=
  o.fields.isEmpty || o.fields.any fun f => f = .all ∨ f = .column (T.sortEntry o).1

/-- The sort value of a row. -/
def key (o : FindManyOptions C V) (r : Row) : WithBot V := T.value r (T.sortEntry o).1

/-- The rows of a walk: `findMany` is called with the last cursor, until there is none. -/
def walk : Nat → FindManyOptions C V → Option (List Row)
  | 0, _ => none
  | n + 1, o =>
    match T.findMany o with
    | .error _ => none
    | .ok page =>
      match page.nextCursor with
      | none => some page.data
      | some c => (walk n { o with cursor := some c }).map (page.data ++ ·)

/-- A walk ends, with every matching row exactly once. -/
def Complete (o : FindManyOptions C V) : Prop :=
  ∃ n rows, T.walk n o = some rows ∧ rows.Perm (T.matching o)

/-- The rows that a cursor's value leaves. -/
def remaining (o : FindManyOptions C V) (cur : Option V) : List Row :=
  (T.matching o).filter fun r => cur.all fun v => follows (T.sortEntry o).2 v (T.key o r)

/-- The value of a cursor; the empty text is none. -/
def Reads (c : Option String) (cur : Option V) : Prop :=
  match cur with
  | none => c.filter (· ≠ "") = none
  | some v => c = some (T.text v) ∧ T.text v ≠ ""

variable {T} {o : FindManyOptions C V}

/-- A cursor has the text of a value, of a column that was selected. -/
theorem cursorOf_eq_some {r : Row} {c : String} :
    T.cursorOf o r = some c ↔
      T.selectsKey o = true ∧ ∃ v : V, T.key o r = ↑v ∧ T.text v = c := by
  unfold cursorOf
  split
  · next hsel =>
    rw [show T.selectsKey o = true from hsel, show T.value r (T.sortEntry o).1 = T.key o r from rfl]
    cases T.key o r with
    | bot => simp
    | coe v => simp
  · next hsel =>
    exact ⟨fun h => (Option.some_ne_none c h.symm).elim, fun h => (hsel h.1).elim⟩

omit [DecidableEq C] in
/-- The order of a statement sorts by the first entry. -/
theorem keyLe_of_rowLe {a b : Row} {es : List (C × SortDir)} {e : C × SortDir}
    (h : rowLe T.value (e :: es) a b = true) :
    keyLe e.2 (T.value a e.1) (T.value b e.1) = true := by
  obtain ⟨c, d⟩ := e
  rw [rowLe, Bool.and_eq_true] at h
  exact h.1

omit [DecidableEq C] in
/-- The conditions of a statement leave the rows that the cursor's value leaves. -/
theorem filter_selectOf (hdir : o.dir = .after) {c : Option String} {cur : Option V}
    (hc : T.Reads c cur) (limit : Nat) :
    (T.rows.filter fun r =>
      (T.selectOf { o with cursor := c } limit 0).wheres.all (T.holds r)) = T.remaining o cur := by
  cases cur with
  | none =>
    have hnone : c.filter (· ≠ "") = none := hc
    unfold selectOf remaining matching
    simp only [hnone, Option.all_none, List.filter_true]
  | some v =>
    obtain ⟨rfl, hne⟩ := hc
    have hsome : (some (T.text v)).filter (· ≠ "") = some (T.text v) := by simp [hne]
    have hentry : T.sortEntry { o with cursor := some (T.text v) } = T.sortEntry o := rfl
    unfold selectOf remaining matching key
    rw [List.filter_filter, hentry]
    obtain ⟨col, d⟩ := T.sortEntry o
    refine List.filter_congr fun r _ => ?_
    cases d with
    | asc =>
      simp only [hsome, hdir, List.all_append, List.all_cons, List.all_nil, holds, T.read_text,
        Option.all_some, Bool.and_true]
      exact Bool.and_comm _ _
    | desc =>
      simp only [hsome, hdir, List.all_append, List.all_cons, List.all_nil, holds, T.read_text,
        Option.all_some, Bool.and_true]
      exact Bool.and_comm _ _

omit [DecidableEq C] in
/-- The statement of a page has the limit it was given and is sorted by the sort column first. -/
theorem selectOf_eq (hdir : o.dir = .after) (c : Option String) (limit : Nat) :
    ∃ columns wheres es, T.selectOf { o with cursor := c } limit 0 =
      ⟨columns, wheres, T.sortEntry o :: es, limit, 0⟩ := by
  have hentries : ∃ es, (if o.orderBy.isEmpty then [(T.id, .desc)] else o.orderBy) =
      T.sortEntry o :: es := by
    unfold sortEntry
    cases o.orderBy with
    | nil => exact ⟨[], rfl⟩
    | cons e es => exact ⟨es, rfl⟩
  have hentry : T.sortEntry { o with cursor := c } = T.sortEntry o := rfl
  obtain ⟨es, hes⟩ := hentries
  unfold selectOf
  rw [hentry]
  simp only [hes, hdir]
  generalize T.sortEntry o = e
  cases c.filter (· ≠ "") with
  | none => exact ⟨_, _, es, rfl⟩
  | some t =>
    cases e.2 with
    | asc => exact ⟨_, _, es, rfl⟩
    | desc => exact ⟨_, _, es, rfl⟩

omit [DecidableEq C] [LinearOrder V] in
/-- A page is read from the start. -/
theorem offset_eq_zero (hoff : o.offset = none) (c : Option String) :
    (if (c.filter (· ≠ "")).isSome then (0 : Int) else o.offset.getD 0) = 0 := by
  rw [hoff]
  split <;> rfl

/-- A page: the first rows in the order of the sort column, and a cursor where there are more. -/
theorem findMany_eq_ok (hdir : o.dir = .after) (hoff : o.offset = none) {L : Nat}
    (hlimit : o.limit.getD DEFAULT_PAGE_SIZE = L) {c : Option String} {cur : Option V}
    (hc : T.Reads c cur) :
    ∃ (S : List Row) (page : Page Row), S.Perm (T.remaining o cur) ∧
      (S.Pairwise fun a b => keyLe (T.sortEntry o).2 (T.key o a) (T.key o b) = true) ∧
      T.findMany { o with cursor := c } = .ok page ∧ page.data = S.take L ∧
      page.nextCursor = if L < S.length then (S.take L).getLast?.bind (T.cursorOf o) else none := by
  obtain ⟨columns, wheres, es, hs⟩ := selectOf_eq (T := T) hdir c (L + 1)
  let s : SelectStatement C V := ⟨columns, wheres, T.sortEntry o :: es, L + 1, 0⟩
  have hrows := filter_selectOf hdir hc (L + 1)
  rw [hs] at hrows
  have hall : T.all s = (T.order s (T.remaining o cur)).take (L + 1) := by
    rw [← hrows]
    rfl
  have hsorted : (T.order s (T.remaining o cur)).Pairwise fun a b =>
      keyLe (T.sortEntry o).2 (T.key o a) (T.key o b) = true :=
    (T.order_sorted s _).imp fun hab => keyLe_of_rowLe hab
  generalize hS : T.order s (T.remaining o cur) = S at hall hsorted
  have hoffset := offset_eq_zero hoff c
  have hfetched : T.all (T.selectOf { o with cursor := c } ((L : Int) + 1).toNat 0) =
      S.take (L + 1) := by
    rw [show ((L : Int) + 1).toNat = L + 1 by omega, hs]
    exact hall
  have hmore : decide ((L : Int) < (S.take (L + 1)).length) = decide (L < S.length) := by
    rw [List.length_take]
    exact decide_eq_decide.2 (by omega)
  have hitems : (if decide (L < S.length) then (S.take (L + 1)).dropLast else S.take (L + 1)) =
      S.take L := by
    by_cases hlt : L < S.length
    · simp only [hlt, decide_true, if_true]
      rcases Nat.lt_or_ge (L + 1) S.length with hlt' | hle
      · exact List.dropLast_take hlt'
      · obtain hlen : S.length = L + 1 := by omega
        rw [List.take_of_length_le hle, List.dropLast_eq_take, hlen]
        rfl
    · simp only [hlt, decide_false, Bool.false_eq_true, if_false]
      rw [List.take_of_length_le (by omega), List.take_of_length_le (by omega)]
  have hcursor : T.cursorOf { o with cursor := c } = T.cursorOf o := rfl
  refine ⟨S, ⟨S.take L, L, decide (L < S.length),
    if decide (L < S.length) then (S.take L).getLast?.bind (T.cursorOf o) else none,
    if (c.filter (· ≠ "")).isSome then (S.take L).head?.bind (T.cursorOf o) else none⟩,
    hS ▸ T.order_perm s _, hsorted, ?_, rfl, by simp⟩
  have hneg : ¬ (L : Int) + 1 < 0 := by omega
  unfold findMany
  simp only [hlimit, hneg, hoffset, Int.lt_irrefl, Int.toNat_zero, hfetched, hmore, hitems,
    hcursor]
  simp only [hdir]
  rfl

/-! ## Walks -/

/-- A walk from a cursor: the first page, and the walk from the cursor it returns. -/
theorem walk_succ (hdir : o.dir = .after) (hoff : o.offset = none) {L : Nat}
    (hlimit : o.limit.getD DEFAULT_PAGE_SIZE = L) {c : Option String} {cur : Option V}
    (hc : T.Reads c cur) :
    ∃ S : List Row, S.Perm (T.remaining o cur) ∧
      (S.Pairwise fun a b => keyLe (T.sortEntry o).2 (T.key o a) (T.key o b) = true) ∧
      ∀ n, T.walk (n + 1) { o with cursor := c } =
        (if L < S.length then (S.take L).getLast?.bind (T.cursorOf o) else none).elim
          (some (S.take L))
          fun c' => (T.walk n { o with cursor := some c' }).map (S.take L ++ ·) := by
  obtain ⟨S, page, hperm, hsorted, hpage, hdata, hnext⟩ := findMany_eq_ok hdir hoff hlimit hc
  refine ⟨S, hperm, hsorted, fun n => ?_⟩
  rw [walk, hpage, ← hnext, ← hdata]
  dsimp only
  cases page.nextCursor with
  | none => rfl
  | some c' => rfl

/-- A walk has one result, however many steps it is given. -/
theorem walk_unique {n m : Nat} {rows rows' : List Row} (h : T.walk n o = some rows)
    (h' : T.walk m o = some rows') : rows = rows' := by
  induction n generalizing m o rows rows' with
  | zero => cases h
  | succ n ih =>
    cases m with
    | zero => cases h'
    | succ m =>
      rw [walk] at h h'
      cases hpage : T.findMany o with
      | error e =>
        rw [hpage] at h
        cases h
      | ok page =>
        rw [hpage] at h h'
        dsimp only at h h'
        cases hnext : page.nextCursor with
        | none =>
          rw [hnext] at h h'
          exact Option.some.inj (h.symm.trans h')
        | some c =>
          rw [hnext] at h h'
          obtain ⟨a, ha, rfl⟩ := Option.map_eq_some_iff.1 h
          obtain ⟨b, hb, rfl⟩ := Option.map_eq_some_iff.1 h'
          rw [ih ha hb]

/-- The empty cursor is none. -/
theorem walk_empty (n : Nat) :
    T.walk n { o with cursor := some "" } = T.walk n { o with cursor := none } := by
  cases n with
  | zero => rfl
  | succ n =>
    have hpage : T.findMany { o with cursor := some "" } =
        T.findMany { o with cursor := none } := rfl
    rw [walk, walk, hpage]

omit [DecidableEq C] in
/-- The rows up to the last one of a page are not beyond its value, so that those that are beyond
it are among the others. -/
theorem filter_follows {S : List Row} {L : Nat} {r : Row} {v : V}
    (hsorted : S.Pairwise fun a b => keyLe (T.sortEntry o).2 (T.key o a) (T.key o b) = true)
    (hlast : (S.take L).getLast? = some r) (hv : T.key o r = ↑v) :
    (S.filter fun a => follows (T.sortEntry o).2 v (T.key o a)) =
      (S.drop L).filter fun a => follows (T.sortEntry o).2 v (T.key o a) := by
  have htake : (S.take L).filter (fun a => follows (T.sortEntry o).2 v (T.key o a)) = [] := by
    refine List.filter_eq_nil_iff.2 fun a ha => Bool.eq_false_iff.1 (follows_eq_false ?_)
    rw [← hv]
    obtain ⟨front, hfront⟩ := List.getLast?_eq_some_iff.1 hlast
    have hpw := hsorted.sublist (List.take_sublist L S)
    rw [hfront] at hpw ha
    rcases List.mem_append.1 ha with ha | ha
    · exact (List.pairwise_append.1 hpw).2.2 a ha r List.mem_cons_self
    · rw [List.mem_singleton.1 ha]
      exact keyLe_refl _ _
  rw [← List.take_append_drop L S, List.filter_append, htake, List.nil_append,
    List.take_append_drop]

omit [DecidableEq C] in
/-- The rows that a later cursor leaves are left by an earlier one. -/
theorem filter_remaining {cur : Option V} {r : Row} {v : V} (hr : r ∈ T.remaining o cur)
    (hv : T.key o r = ↑v) :
    ((T.remaining o cur).filter fun a => follows (T.sortEntry o).2 v (T.key o a)) =
      T.remaining o (some v) := by
  unfold remaining
  rw [List.filter_filter]
  refine List.filter_congr fun a _ => ?_
  cases cur with
  | none => rw [Option.all_none, Option.all_some, Bool.and_true]
  | some w =>
    have hw : follows (T.sortEntry o).2 w ↑v = true := hv ▸ (List.mem_filter.1 hr).2
    rw [Option.all_some, Option.all_some, Bool.and_eq_left_iff_imp]
    exact fun hf => follows_trans hw hf

/-- The sort values of the rows that a cursor leaves, in order. -/
def keysFrom (T : Table C Row V) (o : FindManyOptions C V) (cur : Option V) : List (WithBot V) :=
  sortedKeys (T.sortEntry o).2 ((T.remaining o cur).map (T.key o))

omit [DecidableEq C] in
/-- The sort values of a sorted listing. -/
theorem keysFrom_eq {cur : Option V} {S : List Row} (hperm : S.Perm (T.remaining o cur))
    (hsorted : S.Pairwise fun a b => keyLe (T.sortEntry o).2 (T.key o a) (T.key o b) = true) :
    T.keysFrom o cur = S.map (T.key o) :=
  sortedKeys_eq (hperm.map _) (List.pairwise_map.2 hsorted)

omit [DecidableEq C] in
/-- The rows after a page are those that the cursor of its last row leaves, where all of them are
beyond it. -/
theorem drop_perm_remaining {cur : Option V} {S : List Row} {L : Nat} {r : Row} {v : V}
    (hperm : S.Perm (T.remaining o cur))
    (hsorted : S.Pairwise fun a b => keyLe (T.sortEntry o).2 (T.key o a) (T.key o b) = true)
    (hlast : (S.take L).getLast? = some r) (hv : T.key o r = ↑v)
    (hdrop : ∀ a ∈ S.drop L, follows (T.sortEntry o).2 v (T.key o a) = true) :
    (S.drop L).Perm (T.remaining o (some v)) := by
  have hr : r ∈ T.remaining o cur :=
    hperm.subset (List.mem_of_mem_take (List.mem_of_getLast? hlast))
  have hfilter := filter_follows hsorted hlast hv
  rw [List.filter_eq_self.2 hdrop] at hfilter
  rw [← hfilter, ← filter_remaining hr hv]
  exact hperm.filter _

/-- The last row of a page that is not the last one. -/
theorem getLast?_take {S : List Row} {L : Nat} (hL : 0 < L) (hlt : L < S.length) :
    (S.take L).getLast? = S[L - 1]? := by
  rw [List.getLast?_eq_getElem?, List.length_take, Nat.min_eq_left (Nat.le_of_lt hlt),
    List.getElem?_take_of_lt (by omega)]

section
variable (hdir : o.dir = .after) (hoff : o.offset = none) {L : Nat}
  (hlimit : o.limit.getD DEFAULT_PAGE_SIZE = L) (hL : 0 < L)
include hdir hoff hlimit hL

/-- A walk whose pages end between different values returns every row that is left. -/
theorem walk_of_pagesEnd (hsel : L < (T.matching o).length → T.selectsKey o = true) {n : Nat}
    {c : Option String} {cur : Option V} (hc : T.Reads c cur)
    (hlen : (T.remaining o cur).length ≤ n)
    (hends : PagesEnd (T.sortEntry o).2 T.text L (T.keysFrom o cur)) :
    ∃ rows, T.walk (n + 1) { o with cursor := c } = some rows ∧
      rows.Perm (T.remaining o cur) := by
  induction n generalizing c cur with
  | zero =>
    obtain ⟨S, hperm, -, hwalk⟩ := walk_succ hdir hoff hlimit hc
    have hS : S.length ≤ 0 := hperm.length_eq ▸ hlen
    refine ⟨S.take L, ?_, ?_⟩
    · rw [hwalk, if_neg (by omega)]
      rfl
    · rwa [List.take_of_length_le (by omega)]
  | succ n ih =>
    obtain ⟨S, hperm, hsorted, hwalk⟩ := walk_succ hdir hoff hlimit hc
    by_cases hlt : L < S.length
    · have hkeys := keysFrom_eq hperm hsorted
      rw [hkeys] at hends
      obtain ⟨⟨v, hget, hne, hfollow⟩, hrest⟩ :=
        (pagesEnd_iff_drop hL (by rwa [List.length_map])).1 hends
      obtain ⟨r, hr, hv⟩ : ∃ r, S[L - 1]? = some r ∧ T.key o r = ↑v := by
        rwa [List.getElem?_map, Option.map_eq_some_iff] at hget
      have hlast : (S.take L).getLast? = some r := (getLast?_take hL hlt).trans hr
      have hdrop : ∀ a ∈ S.drop L, follows (T.sortEntry o).2 v (T.key o a) = true := by
        intro a ha
        refine hfollow _ ?_
        rw [← List.map_drop]
        exact List.mem_map_of_mem ha
      have hperm' := drop_perm_remaining hperm hsorted hlast hv hdrop
      have hcursor : T.cursorOf o r = some (T.text v) := by
        refine cursorOf_eq_some.2 ⟨hsel ?_, v, hv, rfl⟩
        have hle : (T.remaining o cur).length ≤ (T.matching o).length := List.length_filter_le _ _
        rw [hperm.length_eq] at hlt
        omega
      have hkeys' : T.keysFrom o (some v) = (S.map (T.key o)).drop L := by
        rw [← List.map_drop]
        exact keysFrom_eq hperm' (hsorted.sublist (List.drop_sublist L S))
      have hlen' : (T.remaining o (some v)).length ≤ n := by
        rw [← hperm'.length_eq, List.length_drop, hperm.length_eq]
        omega
      obtain ⟨rows, hrows, hrowsPerm⟩ :=
        @ih (some (T.text v)) (some v) ⟨rfl, hne⟩ hlen' (hkeys'.symm ▸ hrest)
      refine ⟨S.take L ++ rows, ?_, ?_⟩
      · rw [hwalk, if_pos hlt, hlast, Option.bind_some, hcursor, Option.elim_some, hrows]
        rfl
      · refine List.Perm.trans ?_ hperm
        calc (S.take L ++ rows).Perm (S.take L ++ S.drop L) :=
              (hrowsPerm.trans hperm'.symm).append_left _
          _ = S := List.take_append_drop L S
    · refine ⟨S.take L, ?_, ?_⟩
      · rw [hwalk, if_neg hlt]
        rfl
      · rwa [List.take_of_length_le (by omega)]

/-- What a walk from a cursor has done: it has returned one last page, or a page, whose last row
has a cursor, and the rows of the walk from there. -/
theorem walk_inv {n : Nat} {c : Option String} {cur : Option V} {rows : List Row}
    (hc : T.Reads c cur) (h : T.walk (n + 1) { o with cursor := c } = some rows) :
    ∃ S : List Row, S.Perm (T.remaining o cur) ∧
      (S.Pairwise fun a b => keyLe (T.sortEntry o).2 (T.key o a) (T.key o b) = true) ∧
      (rows = S.take L ∨ L < S.length ∧ ∃ (r : Row) (v : V) (rest : List Row),
        S[L - 1]? = some r ∧ T.selectsKey o = true ∧ T.key o r = ↑v ∧ rows = S.take L ++ rest ∧
          T.walk n { o with cursor := some (T.text v) } = some rest) := by
  obtain ⟨S, hperm, hsorted, hwalk⟩ := walk_succ hdir hoff hlimit hc
  rw [hwalk] at h
  refine ⟨S, hperm, hsorted, ?_⟩
  by_cases hlt : L < S.length
  · rw [if_pos hlt, getLast?_take hL hlt] at h
    cases hcursor : S[L - 1]?.bind (T.cursorOf o) with
    | none =>
      rw [hcursor] at h
      exact .inl (Option.some.inj h).symm
    | some c' =>
      rw [hcursor] at h
      obtain ⟨rest, hrest, rfl⟩ := Option.map_eq_some_iff.1 h
      obtain ⟨r, hr, hrc⟩ := Option.bind_eq_some_iff.1 hcursor
      obtain ⟨hsel, v, hv, rfl⟩ := cursorOf_eq_some.1 hrc
      exact .inr ⟨hlt, r, v, rest, hr, hsel, hv, rfl, hrest⟩
  · rw [if_neg hlt] at h
    exact .inl (Option.some.inj h).symm

omit hdir hoff hlimit in
/-- A walk that came back to the empty cursor would return more rows than match. -/
theorem text_ne_empty {N : Nat} {total : List Row}
    (htotal : T.walk N { o with cursor := none } = some total)
    (hcount : total.length = (T.matching o).length) {n : Nat} {S rest : List Row} {v : V}
    (hlt : L < S.length) (hwalk : T.walk n { o with cursor := some (T.text v) } = some rest)
    (hlen : (S.take L ++ rest).length ≤ (T.matching o).length) : T.text v ≠ "" := by
  intro hempty
  rw [hempty, walk_empty] at hwalk
  have hrest := walk_unique hwalk htotal
  rw [List.length_append, List.length_take, hrest, hcount] at hlen
  omega

/-- A walk returns only rows that its cursor leaves, if it returns no more rows than match. -/
theorem mem_of_walk {N : Nat} {total : List Row}
    (htotal : T.walk N { o with cursor := none } = some total)
    (hcount : total.length = (T.matching o).length) {n : Nat} {c : Option String} {cur : Option V}
    {rows : List Row} (hc : T.Reads c cur) (h : T.walk n { o with cursor := c } = some rows)
    (hlen : rows.length ≤ (T.matching o).length) : ∀ a ∈ rows, a ∈ T.remaining o cur := by
  induction n generalizing c cur rows with
  | zero => cases h
  | succ n ih =>
    obtain ⟨S, hperm, -, hrows⟩ := walk_inv hdir hoff hlimit hL hc h
    have hpage : ∀ a ∈ S.take L, a ∈ T.remaining o cur :=
      fun a ha => hperm.subset (List.mem_of_mem_take ha)
    rcases hrows with rfl | ⟨hlt, r, v, rest, hr, -, hv, rfl, hrest⟩
    · exact hpage
    · have hne := text_ne_empty hL htotal hcount hlt hrest hlen
      have hrmem : r ∈ T.remaining o cur := hperm.subset (List.mem_of_getElem? hr)
      intro a ha
      rcases List.mem_append.1 ha with ha | ha
      · exact hpage a ha
      · rw [List.length_append] at hlen
        have hmem := @ih (some (T.text v)) (some v) rest ⟨rfl, hne⟩ hrest (by omega) a ha
        rw [← filter_remaining hrmem hv] at hmem
        exact (List.mem_filter.1 hmem).1

/-- The pages of a walk that returns every row that is left end between different values. -/
theorem pagesEnd_of_walk {N : Nat} {total : List Row}
    (htotal : T.walk N { o with cursor := none } = some total)
    (hcount : total.length = (T.matching o).length) {n : Nat} {c : Option String} {cur : Option V}
    {rows : List Row} (hc : T.Reads c cur) (h : T.walk n { o with cursor := c } = some rows)
    (hrows : rows.Perm (T.remaining o cur)) :
    (L < (T.remaining o cur).length → T.selectsKey o = true) ∧
      PagesEnd (T.sortEntry o).2 T.text L (T.keysFrom o cur) := by
  induction n generalizing c cur rows with
  | zero => cases h
  | succ n ih =>
    obtain ⟨S, hperm, hsorted, hpage⟩ := walk_inv hdir hoff hlimit hL hc h
    have hkeys := keysFrom_eq hperm hsorted
    rcases hpage with rfl | ⟨hlt, r, v, rest, hr, hsel, hv, rfl, hrest⟩
    · -- a walk that ends here has left nothing
      have hle : S.length ≤ L := by
        have hlength := (hrows.trans hperm.symm).length_eq
        rw [List.length_take] at hlength
        omega
      refine ⟨fun hlt => ?_, fun i hi hlt => ?_⟩
      · rw [← hperm.length_eq] at hlt
        omega
      · rw [hkeys, List.length_map] at hlt
        have hLi : L ≤ i * L := Nat.le_mul_of_pos_left L hi
        omega
    · have hle : (T.remaining o cur).length ≤ (T.matching o).length := List.length_filter_le _ _
      have hlen : (S.take L ++ rest).length ≤ (T.matching o).length := hrows.length_eq ▸ hle
      have hne := text_ne_empty hL htotal hcount hlt hrest hlen
      have hcur : T.Reads (some (T.text v)) (some v) := ⟨rfl, hne⟩
      have hlast : (S.take L).getLast? = some r := (getLast?_take hL hlt).trans hr
      -- the rest of the walk has the rows after the page
      have hrestPerm : rest.Perm (S.drop L) := by
        have happend : (S.take L ++ rest).Perm (S.take L ++ S.drop L) := by
          rw [List.take_append_drop]
          exact hrows.trans hperm.symm
        exact (List.perm_append_left_iff _).1 happend
      have hrestLen : rest.length ≤ (T.matching o).length := by
        rw [List.length_append] at hlen
        omega
      have hdrop : ∀ a ∈ S.drop L, follows (T.sortEntry o).2 v (T.key o a) = true := by
        intro a ha
        have hmem := mem_of_walk hdir hoff hlimit hL htotal hcount hcur hrest hrestLen a
          (hrestPerm.symm.subset ha)
        exact (List.mem_filter.1 hmem).2
      have hperm' := drop_perm_remaining hperm hsorted hlast hv hdrop
      have hkeys' : T.keysFrom o (some v) = (S.map (T.key o)).drop L := by
        rw [← List.map_drop]
        exact keysFrom_eq hperm' (hsorted.sublist (List.drop_sublist L S))
      obtain ⟨-, hends⟩ := ih hcur hrest (hrestPerm.trans hperm')
      refine ⟨fun _ => hsel, ?_⟩
      rw [hkeys]
      refine (pagesEnd_iff_drop hL (by rwa [List.length_map])).2 ⟨⟨v, ?_, hne, ?_⟩, hkeys' ▸ hends⟩
      · rw [List.getElem?_map, hr, Option.map_some, hv]
      · intro k hk
        rw [← List.map_drop] at hk
        obtain ⟨a, ha, rfl⟩ := List.mem_map.1 hk
        exact hdrop a ha

end

/-- The condition on a request and the contents of the table: nothing matches, or the limit is
positive and, where there is more than one page, the sort column is selected and each page ends
between different values, none of them null. -/
def PagesApart (T : Table C Row V) (o : FindManyOptions C V) : Prop :=
  let limit := o.limit.getD DEFAULT_PAGE_SIZE
  0 ≤ limit + 1 ∧ (T.matching o = [] ∨ 0 < limit ∧
    (limit < (T.matching o).length → T.selectsKey o = true) ∧
    PagesEnd (T.sortEntry o).2 T.text limit.toNat
      (sortedKeys (T.sortEntry o).2 ((T.matching o).map (T.key o))))

/-- A page of no rows, which has no cursor. -/
theorem findMany_of_not_pos {o : FindManyOptions C V} {limit : Int} (hdir : o.dir = .after)
    (hoff : o.offset = none) (hlimit : o.limit.getD DEFAULT_PAGE_SIZE = limit) (hL : limit ≤ 0)
    (hle : 0 ≤ limit + 1) :
    ∃ page, T.findMany o = .ok page ∧ page.data = [] ∧ page.nextCursor = none := by
  generalize hfetched : T.all (T.selectOf o (limit + 1).toNat (0 : Int).toNat) = fetched
  have hlen : (fetched.length : Int) ≤ limit + 1 := by
    have htake : fetched.length ≤ (T.selectOf o (limit + 1).toNat 0).limit := by
      rw [← hfetched]
      exact List.length_take_le _ _
    obtain ⟨columns, wheres, es, hs⟩ := selectOf_eq (T := T) hdir o.cursor (limit + 1).toNat
    rw [show T.selectOf o (limit + 1).toNat 0 = _ from hs] at htake
    have hnat : fetched.length ≤ (limit + 1).toNat := htake
    omega
  have hitems : (if decide (limit < (fetched.length : Int)) then fetched.dropLast else fetched) =
      [] := by
    split
    · refine List.eq_nil_of_length_eq_zero ?_
      rw [List.length_dropLast]
      omega
    · next hmore =>
      refine List.eq_nil_of_length_eq_zero ?_
      have hge : ¬ limit < (fetched.length : Int) := fun h => hmore (decide_eq_true h)
      omega
  have hoffset := offset_eq_zero hoff o.cursor
  have hneg : ¬ limit + 1 < 0 := by omega
  refine ⟨⟨[], limit, decide (limit < (fetched.length : Int)), none, none⟩, ?_, rfl, rfl⟩
  unfold findMany
  simp only [hlimit, hneg, hoffset, Int.lt_irrefl, hfetched, hitems]
  have hempty : (if PageDir.after = PageDir.before then ([] : List Row).reverse else []) = [] := rfl
  simp only [hdir, hempty, List.getLast?_nil, List.head?_nil, Option.bind_none, ite_self]
  rfl

/-- Without a positive limit no row is returned. -/
theorem walk_of_not_pos {o : FindManyOptions C V} {limit : Int} (hdir : o.dir = .after)
    (hoff : o.offset = none) (hlimit : o.limit.getD DEFAULT_PAGE_SIZE = limit) (hL : limit ≤ 0)
    {n : Nat} {rows : List Row} (h : T.walk n o = some rows) : 0 ≤ limit + 1 ∧ rows = [] := by
  cases n with
  | zero => cases h
  | succ n =>
    rcases Int.lt_or_le (limit + 1) 0 with hneg | hle
    · have hpage : T.findMany o = .error "LIMIT must be a non-negative integer" := by
        unfold findMany
        simp only [hlimit, hneg]
        rfl
      rw [walk, hpage] at h
      cases h
    · obtain ⟨page, hpage, hdata, hnext⟩ := findMany_of_not_pos hdir hoff hlimit hL hle
      rw [walk, hpage] at h
      simp only [hnext, hdata] at h
      exact ⟨hle, (Option.some.inj h).symm⟩

/-- A walk through the pages returns every matching row exactly once if and only if nothing
matches, or the pages end between different values. -/
theorem complete_iff_pagesApart (T : Table C Row V) (fields : List (Field C))
    (where_ : List (C × WhereValue V)) (orderBy : List (C × SortDir)) (limit : Option Int) :
    T.Complete { fields, where_, orderBy, limit } ↔
      T.PagesApart { fields, where_, orderBy, limit } := by
  generalize ho : ({ fields, where_, orderBy, limit } : FindManyOptions C V) = o
  have hdir : o.dir = .after := ho ▸ rfl
  have hoff : o.offset = none := ho ▸ rfl
  have hcursor : { o with cursor := none } = o := ho ▸ rfl
  have hall : T.remaining o none = T.matching o := List.filter_true _
  have hreads : T.Reads none none := rfl
  unfold PagesApart
  generalize hlimit : o.limit.getD DEFAULT_PAGE_SIZE = limit'
  rcases Int.lt_or_le 0 limit' with hpos | hnot
  · obtain ⟨L, rfl⟩ := Int.eq_ofNat_of_zero_le hpos.le
    have hL : 0 < L := Int.natCast_pos.1 hpos
    have hkeys : T.keysFrom o none =
        sortedKeys (T.sortEntry o).2 ((T.matching o).map (T.key o)) := by
      unfold keysFrom
      rw [hall]
    dsimp only
    rw [Int.toNat_natCast, ← hkeys]
    constructor
    · rintro ⟨n, rows, hwalk, hperm⟩
      rw [← hcursor] at hwalk
      rw [← hall] at hperm
      obtain ⟨hsel, hends⟩ := pagesEnd_of_walk hdir hoff hlimit hL hwalk
        (hall ▸ hperm.length_eq) hreads hwalk hperm
      rw [hall] at hsel
      exact ⟨by omega, .inr ⟨hpos, fun hlt => hsel (by omega), hends⟩⟩
    · rintro ⟨-, hnil | ⟨-, hsel, hends⟩⟩
      · have hends : PagesEnd (T.sortEntry o).2 T.text L (T.keysFrom o none) := by
          intro i _ hlt
          rw [hkeys, hnil] at hlt
          simp [sortedKeys] at hlt
        obtain ⟨rows, hwalk, hperm⟩ := walk_of_pagesEnd hdir hoff hlimit hL
          (fun hlt => by rw [hnil] at hlt; exact (Nat.not_lt_zero _ hlt).elim) hreads le_rfl hends
        exact ⟨_, rows, hcursor ▸ hwalk, hall ▸ hperm⟩
      · obtain ⟨rows, hwalk, hperm⟩ := walk_of_pagesEnd hdir hoff hlimit hL
          (fun hlt => hsel (by omega)) hreads le_rfl hends
        exact ⟨_, rows, hcursor ▸ hwalk, hall ▸ hperm⟩
  · constructor
    · rintro ⟨n, rows, hwalk, hperm⟩
      obtain ⟨hle, rfl⟩ := walk_of_not_pos hdir hoff hlimit hnot hwalk
      exact ⟨hle, .inl (List.nil_perm.1 hperm)⟩
    · rintro ⟨hle, hnil | ⟨hpos, -⟩⟩
      · obtain ⟨page, hpage, hdata, hnext⟩ := findMany_of_not_pos (T := T) hdir hoff hlimit hnot hle
        refine ⟨1, [], ?_, hnil ▸ List.Perm.nil⟩
        rw [walk, hpage]
        simp only [hnext, hdata]
      · omega

end Table

/-! ## A page that ends inside a value -/

/-- Rows of equal values are in order, however they are listed. -/
theorem rowLe_of_eq {C Row V : Type} [LinearOrder V] {value : Row → C → WithBot V} {a b : Row}
    (h : ∀ c, value a c = value b c) (es : List (C × SortDir)) : rowLe value es a b = true := by
  induction es with
  | nil => rfl
  | cons e es ih =>
    obtain ⟨c, d⟩ := e
    rw [rowLe, h c, keyLe_refl, ih]
    simp

/-- A table of two rows with one name. -/
def namesakes : Table Unit Bool String where
  id := ()
  rows := [false, true]
  value _ _ := ↑"a"
  text v := v
  read _ t := t
  read_text _ _ := rfl
  order _ l := l
  order_perm _ l := List.Perm.refl l
  order_sorted s _ := by
    refine List.pairwise_of_forall fun a b => ?_
    refine rowLe_of_eq (fun c => ?_) s.orderBy
    rfl

/-- The first page ends between the two rows, and the second row is not beyond the first. -/
theorem namesakes_not_complete :
    ¬ namesakes.Complete { orderBy := [((), .asc)], limit := some 1 } := by
  rintro ⟨n, rows, hwalk, hperm⟩
  have hpages : namesakes.walk 2 { orderBy := [((), .asc)], limit := some 1 } = some [false] := by
    decide
  rw [Table.walk_unique hwalk hpages] at hperm
  exact absurd hperm.length_eq (by decide)

end HeadlessErp.Repository
