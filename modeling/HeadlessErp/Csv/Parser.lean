/-!
# Comma-separated values

A parser of comma-separated text that reads quoted cells, doubled quotes and quoted newlines and
drops the carriage returns between cells, and the text of a table whose cells are written either
as they are or between quotes. Parsing the text of a table gives its cells back if and only if no
bare cell has a character the parser treats specially, every row has a cell, and the last row is
not a single empty bare cell (`parseText_render_iff`).
-/

namespace HeadlessErp

namespace Csv

/-! ## The parser -/

/-- The variables of the parser's loop. -/
structure ParseState where
  rows : List (List (List Char))
  row : List (List Char)
  field : List Char
  inQuotes : Bool

/-- What one character does, apart from a doubled quote. -/
def ParseState.step (s : ParseState) (ch : Char) : ParseState :=
  if s.inQuotes then
    if ch = '"' then { s with inQuotes := false } else { s with field := s.field ++ [ch] }
  else if ch = '"' then { s with inQuotes := true }
  else if ch = ',' then { s with row := s.row ++ [s.field], field := [] }
  else if ch = '\n' then { s with rows := s.rows ++ [s.row ++ [s.field]], row := [], field := [] }
  else if ch ≠ '\r' then { s with field := s.field ++ [ch] }
  else s

/-- The loop over the characters of a text. A quote inside quotes looks at the next character. -/
def parseLoop (s : ParseState) : List Char → ParseState
  | [] => s
  | [ch] => s.step ch
  | ch :: next :: text =>
    if s.inQuotes ∧ ch = '"' ∧ next = '"' then
      parseLoop { s with field := s.field ++ ['"'] } text
    else parseLoop (s.step ch) (next :: text)

/-- The rows at the end of the text: a last line that is not empty is a row too. -/
def ParseState.finish (s : ParseState) : List (List (List Char)) :=
  if s.field.length > 0 || s.row.length > 0 then s.rows ++ [s.row ++ [s.field]] else s.rows

/-- The rows of a text. -/
def parseText (text : List Char) : List (List (List Char)) :=
  (parseLoop ⟨[], [], [], false⟩ text).finish

section Steps

variable {rows : List (List (List Char))} {row : List (List Char)} {field text : List Char}
  {ch : Char}

theorem parseLoop_cons {s : ParseState}
    (h : ¬(s.inQuotes = true ∧ ch = '"' ∧ text.head? = some '"')) :
    parseLoop s (ch :: text) = parseLoop (s.step ch) text := by
  cases text with
  | nil => rfl
  | cons next text =>
    rw [parseLoop, if_neg]
    rintro ⟨hq, hch, hnext⟩
    exact h ⟨hq, hch, congrArg some hnext⟩

/-- Outside of quotes every character is one step. -/
theorem parseLoop_bare : parseLoop ⟨rows, row, field, false⟩ (ch :: text) =
    parseLoop (ParseState.step ⟨rows, row, field, false⟩ ch) text :=
  parseLoop_cons fun h => Bool.false_ne_true h.1

theorem parseLoop_open : parseLoop ⟨rows, row, field, false⟩ ('"' :: text) =
    parseLoop ⟨rows, row, field, true⟩ text := parseLoop_bare

theorem parseLoop_comma : parseLoop ⟨rows, row, field, false⟩ (',' :: text) =
    parseLoop ⟨rows, row ++ [field], [], false⟩ text := parseLoop_bare

theorem parseLoop_newline : parseLoop ⟨rows, row, field, false⟩ ('\n' :: text) =
    parseLoop ⟨rows ++ [row ++ [field]], [], [], false⟩ text := parseLoop_bare

theorem parseLoop_return : parseLoop ⟨rows, row, field, false⟩ ('\r' :: text) =
    parseLoop ⟨rows, row, field, false⟩ text := parseLoop_bare

theorem parseLoop_escaped : parseLoop ⟨rows, row, field, true⟩ ('"' :: '"' :: text) =
    parseLoop ⟨rows, row, field ++ ['"'], true⟩ text := by
  rw [parseLoop, if_pos ⟨rfl, rfl, rfl⟩]

theorem parseLoop_close (h : text.head? ≠ some '"') :
    parseLoop ⟨rows, row, field, true⟩ ('"' :: text) =
      parseLoop ⟨rows, row, field, false⟩ text :=
  parseLoop_cons fun hq => h hq.2.2

theorem parseLoop_quoted (h : ch ≠ '"') : parseLoop ⟨rows, row, field, true⟩ (ch :: text) =
    parseLoop ⟨rows, row, field ++ [ch], true⟩ text := by
  rw [parseLoop_cons fun hq => h hq.2.1, ParseState.step, if_pos rfl, if_neg h]

end Steps

/-- A character that the parser adds to the cell, outside of quotes. -/
def IsPlain (ch : Char) : Prop := ch ≠ '"' ∧ ch ≠ ',' ∧ ch ≠ '\n' ∧ ch ≠ '\r'

instance (ch : Char) : Decidable (IsPlain ch) := inferInstanceAs (Decidable (_ ∧ _))

theorem parseLoop_plain {rows : List (List (List Char))} {row : List (List Char)}
    {field text : List Char} {ch : Char} (h : IsPlain ch) :
    parseLoop ⟨rows, row, field, false⟩ (ch :: text) =
      parseLoop ⟨rows, row, field ++ [ch], false⟩ text := by
  obtain ⟨h1, h2, h3, h4⟩ := h
  rw [parseLoop_bare, ParseState.step, if_neg Bool.false_ne_true, if_neg h1, if_neg h2, if_neg h3,
    if_pos h4]

/-! ## Tables -/

/-- A cell as it is written: its text, bare or between quotes. -/
structure Cell where
  text : List Char
  quoted : Bool

/-- `text.replace(/"/g, '""')`. -/
def escapeQuotes (text : List Char) : List Char :=
  text.flatMap fun ch => if ch = '"' then ['"', '"'] else [ch]

/-- The characters of a cell. -/
def Cell.encode (c : Cell) : List Char :=
  if c.quoted then '"' :: (escapeQuotes c.text ++ ['"']) else c.text

/-- A row, its cells joined by commas. -/
def renderRow (cells : List Cell) : List Char := [','].intercalate (cells.map Cell.encode)

/-- A table, its rows joined by newlines. -/
def render (table : List (List Cell)) : List Char := ['\n'].intercalate (table.map renderRow)

/-- The texts of a table's cells. -/
def texts (table : List (List Cell)) : List (List (List Char)) := table.map (·.map Cell.text)

/-- Each character of the cell is read back as it was written. -/
def Cell.Readable (c : Cell) : Prop := c.quoted = false → ∀ ch ∈ c.text, IsPlain ch

/-- A single empty cell, which is read as no row at the end of a text. -/
def isEmptyLine : List Cell → Bool
  | [c] => c.text.isEmpty
  | _ => false

/-- A table that is read back. -/
structure Survives (table : List (List Cell)) : Prop where
  rows : ∀ cells ∈ table, cells ≠ []
  cells : ∀ cells ∈ table, ∀ c ∈ cells, c.Readable
  last : ∀ cells ∈ table.getLast?, isEmptyLine cells = false

/-! ## Reading a readable cell -/

section Reading

variable {rows : List (List (List Char))} {row : List (List Char)} {field text rest : List Char}

theorem parseLoop_escapeQuotes :
    parseLoop ⟨rows, row, field, true⟩ (escapeQuotes text ++ rest) =
      parseLoop ⟨rows, row, field ++ text, true⟩ rest := by
  induction text generalizing field with
  | nil => rw [List.append_nil]; rfl
  | cons ch text ih =>
    rw [escapeQuotes, List.flatMap_cons, List.append_assoc]
    by_cases h : ch = '"'
    · subst h
      rw [if_pos rfl]
      show parseLoop _ ('"' :: '"' :: (escapeQuotes text ++ rest)) = _
      rw [parseLoop_escaped, ih, List.append_assoc]
      rfl
    · rw [if_neg h]
      show parseLoop _ (ch :: (escapeQuotes text ++ rest)) = _
      rw [parseLoop_quoted h, ih, List.append_assoc]
      rfl

theorem parseLoop_plainText (h : ∀ ch ∈ text, IsPlain ch) :
    parseLoop ⟨rows, row, field, false⟩ (text ++ rest) =
      parseLoop ⟨rows, row, field ++ text, false⟩ rest := by
  induction text generalizing field with
  | nil => rw [List.append_nil]; rfl
  | cons ch text ih =>
    rw [List.cons_append, parseLoop_plain (h ch List.mem_cons_self),
      ih fun c hc => h c (List.mem_cons_of_mem _ hc), List.append_assoc]
    rfl

/-- A readable cell is added to the current field, up to a character that is not a quote. -/
theorem parseLoop_encode {c : Cell} (h : c.Readable) (hrest : rest.head? ≠ some '"') :
    parseLoop ⟨rows, row, [], false⟩ (c.encode ++ rest) =
      parseLoop ⟨rows, row, c.text, false⟩ rest := by
  unfold Cell.encode
  by_cases hq : c.quoted = true
  · rw [if_pos hq, List.cons_append, parseLoop_open, List.append_assoc, parseLoop_escapeQuotes,
      List.nil_append]
    exact parseLoop_close hrest
  · rw [if_neg hq, parseLoop_plainText (h (by simpa using hq)), List.nil_append]

end Reading

/-! ## Rendering, row by row -/

@[simp] theorem renderRow_singleton (c : Cell) : renderRow [c] = c.encode :=
  List.intercalate_singleton

@[simp] theorem renderRow_cons_cons (c d : Cell) (cells : List Cell) :
    renderRow (c :: d :: cells) = c.encode ++ ',' :: renderRow (d :: cells) := by
  simp [renderRow, List.intercalate_cons_cons]

@[simp] theorem render_singleton (cells : List Cell) : render [cells] = renderRow cells :=
  List.intercalate_singleton

@[simp] theorem render_cons_cons (cells cells' : List Cell) (table : List (List Cell)) :
    render (cells :: cells' :: table) = renderRow cells ++ '\n' :: render (cells' :: table) := by
  simp [render, List.intercalate_cons_cons]

/-- Reading a row leaves its last cell in the current field. -/
theorem parseLoop_renderRow {rows : List (List (List Char))} {rest : List Char}
    (hrest : rest.head? ≠ some '"') {c : Cell} {cells : List Cell} {row : List (List Char)}
    (h : ∀ d ∈ c :: cells, d.Readable) :
    ∃ init last, (c :: cells).map Cell.text = init ++ [last] ∧
      parseLoop ⟨rows, row, [], false⟩ (renderRow (c :: cells) ++ rest) =
        parseLoop ⟨rows, row ++ init, last, false⟩ rest := by
  induction cells generalizing c row with
  | nil =>
    refine ⟨[], c.text, rfl, ?_⟩
    rw [renderRow_singleton, parseLoop_encode (h c List.mem_cons_self) hrest, List.append_nil]
  | cons d cells ih =>
    obtain ⟨init, last, htexts, hread⟩ :=
      @ih d (row ++ [c.text]) fun e he => h e (List.mem_cons_of_mem _ he)
    refine ⟨c.text :: init, last, by rw [List.map_cons, htexts, List.cons_append], ?_⟩
    have hsep : (',' :: (renderRow (d :: cells) ++ rest)).head? ≠ some '"' := by simp
    rw [renderRow_cons_cons, List.append_assoc, List.cons_append,
      parseLoop_encode (h c List.mem_cons_self) hsep, parseLoop_comma, hread, List.append_assoc]
    rfl

/-! ## What a prefix of the text settles -/

/-- The rows, the cells of the current row and the characters of the current cell that have been
read stay as they are. -/
def ParseState.Extends (s : ParseState) (final : List (List (List Char))) : Prop :=
  ∃ later, final = s.rows ++ later ∧
    ∀ r ∈ later.head?, ∃ more, s.row ++ [s.field ++ more] <+: r

theorem ParseState.extends_finish (s : ParseState) : s.Extends s.finish := by
  unfold finish
  by_cases h : (s.field.length > 0 || s.row.length > 0) = true
  · rw [if_pos h]
    refine ⟨[s.row ++ [s.field]], rfl, ?_⟩
    intro r hr
    cases hr
    exact ⟨[], (List.append_nil s.field).symm ▸ List.prefix_rfl⟩
  · rw [if_neg h]
    exact ⟨[], (List.append_nil _).symm, fun r hr => by cases hr⟩

/-- A longer field extends the field. -/
theorem ParseState.Extends.of_field {rows : List (List (List Char))} {row : List (List Char)}
    {field added : List Char} {q q' : Bool} {final : List (List (List Char))}
    (h : Extends ⟨rows, row, field ++ added, q'⟩ final) : Extends ⟨rows, row, field, q⟩ final := by
  obtain ⟨later, hfinal, hlater⟩ := h
  refine ⟨later, hfinal, fun r hr => ?_⟩
  obtain ⟨more, hmore⟩ := hlater r hr
  exact ⟨added ++ more, by rwa [← List.append_assoc]⟩

theorem ParseState.Extends.of_step {s : ParseState} {ch : Char} {final : List (List (List Char))}
    (h : (s.step ch).Extends final) : s.Extends final := by
  obtain ⟨rows, row, field, q⟩ := s
  have hsame : ∀ q', Extends ⟨rows, row, field, q'⟩ final → Extends ⟨rows, row, field, q⟩ final :=
    fun q' h => @Extends.of_field _ _ _ [] q q' _ (by rwa [List.append_nil])
  unfold step at h
  split at h
  · split at h
    · exact hsame _ h
    · exact h.of_field
  · split at h
    · exact hsame _ h
    split at h
    · obtain ⟨later, hfinal, hlater⟩ := h
      refine ⟨later, hfinal, fun r hr => ⟨[], ?_⟩⟩
      obtain ⟨more, hmore⟩ := hlater r hr
      rw [List.append_nil]
      exact (List.prefix_append _ _).trans hmore
    split at h
    · obtain ⟨later, hfinal, -⟩ := h
      refine ⟨(row ++ [field]) :: later, by rw [hfinal, List.append_assoc]; rfl, fun r hr => ?_⟩
      cases hr
      exact ⟨[], (List.append_nil field).symm ▸ List.prefix_rfl⟩
    split at h
    · exact h.of_field
    · exact hsame _ h

theorem extends_parseLoop (s : ParseState) (text : List Char) :
    s.Extends (parseLoop s text).finish := by
  induction s, text using parseLoop.induct with
  | case1 s => exact s.extends_finish
  | case2 s ch => exact (s.step ch).extends_finish.of_step
  | case3 s ch next text h ih =>
    rw [parseLoop, if_pos h]
    exact ih.of_field
  | case4 s ch next text h ih =>
    rw [parseLoop, if_neg h]
    exact ih.of_step

/-- The parse has, after these rows and these cells of the next row, a cell of this text. -/
def HasCell (rows : List (List (List Char))) (row : List (List Char)) (expected : List Char)
    (final : List (List (List Char))) : Prop :=
  ∃ r later, final = rows ++ r :: later ∧ row ++ [expected] <+: r

section HasCell

variable {rows final : List (List (List Char))} {row : List (List Char)}
  {expected field field' : List Char} {q : Bool}

theorem HasCell.eq_field_append (h : HasCell rows row expected final)
    (hs : ParseState.Extends ⟨rows, row, field, q⟩ final) : ∃ more, expected = field ++ more := by
  obtain ⟨r, later, hfinal, hr⟩ := h
  obtain ⟨later', hfinal', hlater⟩ := hs
  have hcons : later' = r :: later := List.append_cancel_left (hfinal'.symm.trans hfinal)
  obtain ⟨more, hmore⟩ := hlater r (by rw [hcons]; rfl)
  have heq : row ++ [expected] = row ++ [field ++ more] :=
    (List.prefix_of_prefix_length_le hr hmore (by simp)).eq_of_length (by simp)
  exact ⟨more, by simpa using heq⟩

theorem HasCell.eq_of_comma (h : HasCell rows row expected final)
    (hs : ParseState.Extends ⟨rows, row ++ [field], field', q⟩ final) : expected = field := by
  obtain ⟨r, later, hfinal, hr⟩ := h
  obtain ⟨later', hfinal', hlater⟩ := hs
  have hcons : later' = r :: later := List.append_cancel_left (hfinal'.symm.trans hfinal)
  obtain ⟨more, hmore⟩ := hlater r (by rw [hcons]; rfl)
  have hle : row ++ [field] <+: r := (List.prefix_append _ _).trans hmore
  have heq : row ++ [expected] = row ++ [field] :=
    (List.prefix_of_prefix_length_le hr hle (by simp)).eq_of_length (by simp)
  simpa using heq

theorem HasCell.eq_of_row (h : HasCell rows row expected final) {later : List (List (List Char))}
    (hs : final = rows ++ (row ++ [field]) :: later) : expected = field := by
  obtain ⟨r, later', hfinal, hr⟩ := h
  have hcons := List.append_cancel_left (hs.symm.trans hfinal)
  obtain ⟨hrow, -⟩ := List.cons.inj hcons
  rw [← hrow] at hr
  have heq : row ++ [expected] = row ++ [field] := hr.eq_of_length (by simp)
  simpa using heq

theorem HasCell.eq_of_newline (h : HasCell rows row expected final)
    (hs : ParseState.Extends ⟨rows ++ [row ++ [field]], [], field', q⟩ final) :
    expected = field := by
  obtain ⟨later, hfinal, -⟩ := hs
  exact h.eq_of_row (by rw [hfinal, List.append_assoc]; rfl)

/-- At the end of the text. -/
theorem HasCell.eq_of_finish
    (h : HasCell rows row expected (ParseState.finish ⟨rows, row, field, q⟩)) :
    expected = field := by
  unfold ParseState.finish at h
  split at h
  · exact h.eq_of_row rfl
  · obtain ⟨r, later, hfinal, -⟩ := h
    have hnil := congrArg List.length hfinal
    simp at hnil

end HasCell

/-! ## A bare cell with a special character is not read back -/

/-- A character that the parser may drop: a quote or a carriage return. -/
def IsDropped (ch : Char) : Prop := ch = '"' ∨ ch = '\r'

/-- A cell ends with the text, a comma or a newline. -/
def EndsCell (rest : List Char) : Prop :=
  rest = [] ∨ ∃ rest', rest = ',' :: rest' ∨ rest = '\n' :: rest'

theorem EndsCell.head?_ne {rest : List Char} (h : EndsCell rest) : rest.head? ≠ some '"' := by
  obtain rfl | ⟨rest', rfl | rfl⟩ := h <;> simp

theorem not_isDropped_of_isPlain {ch : Char} (h : IsPlain ch) : ¬IsDropped ch :=
  fun hd => hd.elim h.1 h.2.2.2

/-- The parser is behind: some characters of the cell were consumed and are not in the field, all
of them quotes and carriage returns. A cell that ends here is too short, and so is one that goes on:
its next character would have to be one of them, and adding that one keeps the parser behind. -/
theorem not_hasCell_of_behind {rows : List (List (List Char))} {row : List (List Char)}
    {rest : List Char} (hrest : EndsCell rest) :
    ∀ (left : List Char) {field pending : List Char} {q : Bool}, pending ≠ [] →
      (∀ ch ∈ pending, IsDropped ch) →
      ¬HasCell rows row (field ++ pending ++ left)
        (parseLoop ⟨rows, row, field, q⟩ (left ++ rest)).finish := by
  intro left
  induction hn : left.length using Nat.strongRecOn generalizing left with
  | _ n ih =>
  intro field pending q hne hdropped hcell
  obtain ⟨d, ds, rfl⟩ := List.exists_cons_of_ne_nil hne
  -- the cell cannot end, and the next character of the field is the first pending one
  have hshort : field ++ (d :: ds) ++ left ≠ field := fun heq => by
    have hlen := congrArg List.length heq
    simp at hlen
  have hnext : ∀ {x q'}, ParseState.Extends ⟨rows, row, field ++ [x], q'⟩
      (parseLoop ⟨rows, row, field, q⟩ (left ++ rest)).finish → x = d := by
    intro x q' hs
    obtain ⟨more, hmore⟩ := hcell.eq_field_append hs
    rw [List.append_assoc, List.append_assoc] at hmore
    exact ((List.cons.inj (List.append_cancel_left hmore)).1).symm
  have hd := hdropped d List.mem_cons_self
  have hsep : ∀ x, x = ',' ∨ x = '\n' → x ≠ d := by
    rintro x hx rfl
    obtain rfl | rfl := hx <;> obtain h | h := hd <;> cases h
  cases left with
  | nil =>
    rw [List.nil_append] at hcell hnext
    cases q with
    | false =>
      obtain rfl | ⟨rest', rfl | rfl⟩ := hrest
      · exact hshort hcell.eq_of_finish
      · rw [parseLoop_comma] at hcell
        exact hshort (hcell.eq_of_comma (extends_parseLoop _ _))
      · rw [parseLoop_newline] at hcell
        exact hshort (hcell.eq_of_newline (extends_parseLoop _ _))
    | true =>
      obtain rfl | ⟨rest', rfl | rfl⟩ := hrest
      · exact hshort hcell.eq_of_finish
      · rw [parseLoop_quoted (by decide)] at hnext
        exact hsep ',' (.inl rfl) (hnext (extends_parseLoop _ _))
      · rw [parseLoop_quoted (by decide)] at hnext
        exact hsep '\n' (.inr rfl) (hnext (extends_parseLoop _ _))
  | cons x left =>
    rw [List.cons_append] at hcell hnext
    -- a character that is dropped joins the pending ones
    have hdrop : ∀ q', IsDropped x →
        ¬HasCell rows row (field ++ (d :: ds) ++ x :: left)
          (parseLoop ⟨rows, row, field, q'⟩ (left ++ rest)).finish := by
      intro q' hx
      have heq : field ++ (d :: ds) ++ x :: left = field ++ (d :: ds ++ [x]) ++ left := by simp
      rw [heq]
      refine ih left.length (by simp [← hn]) left rfl (by simp) fun ch hch => ?_
      rcases List.mem_append.mp hch with hch | hch
      · exact hdropped ch hch
      · rwa [List.mem_singleton.mp hch]
    cases q with
    | false =>
      by_cases hquote : x = '"'
      · subst hquote
        rw [parseLoop_open] at hcell
        exact hdrop true (.inl rfl) hcell
      by_cases hcomma : x = ','
      · subst hcomma
        rw [parseLoop_comma] at hcell
        exact hshort (hcell.eq_of_comma (extends_parseLoop _ _))
      by_cases hnewline : x = '\n'
      · subst hnewline
        rw [parseLoop_newline] at hcell
        exact hshort (hcell.eq_of_newline (extends_parseLoop _ _))
      by_cases hreturn : x = '\r'
      · subst hreturn
        rw [parseLoop_return] at hcell
        exact hdrop false (.inr rfl) hcell
      have hplain : IsPlain x := ⟨hquote, hcomma, hnewline, hreturn⟩
      rw [parseLoop_plain hplain] at hnext
      exact not_isDropped_of_isPlain hplain (hnext (extends_parseLoop _ _) ▸ hd)
    | true =>
      by_cases hquote : x = '"'
      · subst hquote
        by_cases hescape : (left ++ rest).head? = some '"'
        · -- a doubled quote adds one
          cases left with
          | nil => exact hrest.head?_ne hescape
          | cons y left =>
            obtain rfl : y = '"' := Option.some.inj hescape
            rw [List.cons_append, parseLoop_escaped] at hcell hnext
            obtain rfl := hnext (extends_parseLoop _ _)
            have heq : field ++ ('"' :: ds) ++ '"' :: '"' :: left =
                field ++ ['"'] ++ (ds ++ ['"', '"']) ++ left := by simp
            rw [heq] at hcell
            refine ih left.length (by rw [← hn, List.length_cons, List.length_cons]; omega) left rfl
              (by simp) ?_ hcell
            intro ch hch
            rcases List.mem_append.mp hch with hch | hch
            · exact hdropped ch (List.mem_cons_of_mem _ hch)
            · exact .inl (by simpa using hch)
        · rw [parseLoop_close hescape] at hcell
          exact hdrop false (.inl rfl) hcell
      · rw [parseLoop_quoted hquote] at hcell hnext
        obtain rfl := hnext (extends_parseLoop _ _)
        have heq : field ++ (x :: ds) ++ x :: left = field ++ [x] ++ (ds ++ [x]) ++ left := by simp
        rw [heq] at hcell
        refine ih left.length (by simp [← hn]) left rfl (by simp) ?_ hcell
        intro ch hch
        rcases List.mem_append.mp hch with hch | hch
        · exact hdropped ch (List.mem_cons_of_mem _ hch)
        · rwa [List.mem_singleton.mp hch]

/-- A bare cell that is read back has plain characters only. -/
theorem plain_of_hasCell {rows : List (List (List Char))} {row : List (List Char)}
    {rest : List Char} (hrest : EndsCell rest) {text field : List Char}
    (h : HasCell rows row (field ++ text)
      (parseLoop ⟨rows, row, field, false⟩ (text ++ rest)).finish) :
    ∀ ch ∈ text, IsPlain ch := by
  induction text generalizing field with
  | nil => intro ch hch; cases hch
  | cons x text ih =>
    rw [List.cons_append] at h
    have hshort : field ++ x :: text ≠ field := fun heq => by simpa using congrArg List.length heq
    have hbehind : ∀ {q}, IsDropped x →
        ¬HasCell rows row (field ++ x :: text)
          (parseLoop ⟨rows, row, field, q⟩ (text ++ rest)).finish := by
      intro q hx
      have heq : field ++ x :: text = field ++ [x] ++ text := by simp
      rw [heq]
      exact not_hasCell_of_behind hrest text (by simp) fun ch hch => by
        rwa [List.mem_singleton.mp hch]
    have hplain : IsPlain x := by
      refine ⟨?_, ?_, ?_, ?_⟩
      · rintro rfl
        exact hbehind (.inl rfl) (by rwa [parseLoop_open] at h)
      · rintro rfl
        rw [parseLoop_comma] at h
        exact hshort (h.eq_of_comma (extends_parseLoop _ _))
      · rintro rfl
        rw [parseLoop_newline] at h
        exact hshort (h.eq_of_newline (extends_parseLoop _ _))
      · rintro rfl
        exact hbehind (.inr rfl) (by rwa [parseLoop_return] at h)
    rw [parseLoop_plain hplain] at h
    intro ch hch
    rcases List.mem_cons.mp hch with rfl | hch
    · exact hplain
    · exact ih (by rwa [List.append_assoc]) ch hch

/-! ## Which tables are read back -/

section Tables

variable {rows : List (List (List Char))} {rest : List Char} {cells cells' : List Cell}
  {table : List (List Cell)}

/-- The cells of a row that is read back are readable. -/
theorem readable_of_row (hrest : EndsCell rest) {later : List (List (List Char))}
    {row : List (List Char)}
    (h : (parseLoop ⟨rows, row, [], false⟩ (renderRow cells ++ rest)).finish =
      rows ++ (row ++ cells.map Cell.text) :: later) :
    ∀ c ∈ cells, c.Readable := by
  induction cells generalizing row with
  | nil => intro c hc; cases hc
  | cons c cells ih =>
    have hfirst : ∀ {rest}, EndsCell rest →
        HasCell rows row c.text (parseLoop ⟨rows, row, [], false⟩ (c.encode ++ rest)).finish →
          c.Readable := by
      intro rest hrest hcell hq
      have hencode : c.encode = c.text := by
        unfold Cell.encode
        rw [if_neg (by simp [hq])]
      rw [hencode] at hcell
      exact @plain_of_hasCell _ _ _ hrest _ [] hcell
    have hcell : HasCell rows row c.text
        (parseLoop ⟨rows, row, [], false⟩ (renderRow (c :: cells) ++ rest)).finish :=
      ⟨_, later, h, by simp⟩
    cases cells with
    | nil =>
      rw [renderRow_singleton] at hcell
      intro d hd
      rw [List.mem_singleton.mp hd]
      exact hfirst hrest hcell
    | cons d cells =>
      have hcomma : EndsCell (',' :: (renderRow (d :: cells) ++ rest)) := .inr ⟨_, .inl rfl⟩
      rw [renderRow_cons_cons, List.append_assoc, List.cons_append] at hcell h
      have hc := hfirst hcomma hcell
      rw [parseLoop_encode hc hcomma.head?_ne, parseLoop_comma] at h
      intro e he
      rcases List.mem_cons.mp he with rfl | he
      · exact hc
      · exact ih (by rw [h, List.append_assoc]; rfl) e he

/-- A row without cells is not read back. -/
theorem ne_nil_of_row (hrest : rest = [] ∨ ∃ rest', rest = '\n' :: rest')
    {later : List (List (List Char))}
    (h : (parseLoop ⟨rows, [], [], false⟩ (renderRow cells ++ rest)).finish =
      rows ++ cells.map Cell.text :: later) : cells ≠ [] := by
  rintro rfl
  obtain rfl | ⟨rest', rfl⟩ := hrest
  · have hlen := congrArg List.length h
    simp [renderRow, parseLoop, ParseState.finish] at hlen
  · have hstate : renderRow [] ++ '\n' :: rest' = '\n' :: rest' := rfl
    rw [hstate, parseLoop_newline] at h
    obtain ⟨more, hmore, -⟩ := extends_parseLoop ⟨rows ++ [[] ++ [[]]], [], [], false⟩ rest'
    rw [hmore, List.append_assoc] at h
    cases List.append_cancel_left h

/-- Reading a row that a newline ends. -/
theorem parseLoop_row_newline (hne : cells ≠ []) (h : ∀ c ∈ cells, c.Readable) :
    parseLoop ⟨rows, [], [], false⟩ (renderRow cells ++ '\n' :: rest) =
      parseLoop ⟨rows ++ [cells.map Cell.text], [], [], false⟩ rest := by
  obtain ⟨c, cells, rfl⟩ := List.exists_cons_of_ne_nil hne
  have hnewline : ('\n' :: rest).head? ≠ some '"' := by simp
  obtain ⟨init, last, htexts, hread⟩ := @parseLoop_renderRow rows _ hnewline c cells [] h
  rw [hread, parseLoop_newline, htexts]
  rfl

/-- Reading the last row. -/
theorem finish_row (hne : cells ≠ []) (h : ∀ c ∈ cells, c.Readable) :
    (parseLoop ⟨rows, [], [], false⟩ (renderRow cells)).finish =
      if isEmptyLine cells then rows else rows ++ [cells.map Cell.text] := by
  obtain ⟨c, cells, rfl⟩ := List.exists_cons_of_ne_nil hne
  obtain ⟨init, last, htexts, hread⟩ := @parseLoop_renderRow rows [] (by simp) c cells [] h
  rw [List.append_nil, List.nil_append] at hread
  rw [hread, htexts, parseLoop, ParseState.finish]
  have hline : isEmptyLine (c :: cells) = (decide (last = []) && decide (init = [])) := by
    cases cells with
    | nil =>
      cases init with
      | nil =>
        obtain rfl : c.text = last := by simpa using htexts
        cases hc : c.text <;> simp [isEmptyLine, hc]
      | cons e init => simpa using congrArg List.length htexts
    | cons d cells =>
      cases init with
      | nil => simpa using congrArg List.length htexts
      | cons e init => simp [isEmptyLine]
  rw [hline]
  by_cases hlast : last = [] <;> by_cases hinit : init = [] <;>
    simp [hlast, hinit, List.length_pos_iff]

theorem survives_singleton :
    Survives [cells] ↔ cells ≠ [] ∧ (∀ c ∈ cells, c.Readable) ∧ isEmptyLine cells = false := by
  constructor
  · rintro ⟨h1, h2, h3⟩
    exact ⟨h1 _ List.mem_cons_self, h2 _ List.mem_cons_self, h3 _ rfl⟩
  · rintro ⟨h1, h2, h3⟩
    refine ⟨?_, ?_, ?_⟩ <;> simpa

theorem survives_cons_cons : Survives (cells :: cells' :: table) ↔
    cells ≠ [] ∧ (∀ c ∈ cells, c.Readable) ∧ Survives (cells' :: table) := by
  have hlast : (cells :: cells' :: table).getLast? = (cells' :: table).getLast? := by
    rw [List.getLast?_cons_cons]
  constructor
  · rintro ⟨h1, h2, h3⟩
    exact ⟨h1 _ List.mem_cons_self, h2 _ List.mem_cons_self,
      fun c hc => h1 c (List.mem_cons_of_mem _ hc), fun c hc => h2 c (List.mem_cons_of_mem _ hc),
      fun c hc => h3 c (hlast ▸ hc)⟩
  · rintro ⟨h1, h2, h3⟩
    exact ⟨List.forall_mem_cons.mpr ⟨h1, h3.rows⟩, List.forall_mem_cons.mpr ⟨h2, h3.cells⟩,
      fun c hc => h3.last c (hlast ▸ hc)⟩

theorem finish_render_iff : (parseLoop ⟨rows, [], [], false⟩ (render table)).finish =
    rows ++ texts table ↔ Survives table := by
  induction table generalizing rows with
  | nil => exact ⟨fun _ => ⟨by simp, by simp, by simp⟩, fun _ => (List.append_nil _).symm⟩
  | cons cells table ih =>
    cases table with
    | nil =>
      rw [render_singleton, survives_singleton]
      have hrest : renderRow cells = renderRow cells ++ [] := (List.append_nil _).symm
      constructor
      · intro h
        have hne : cells ≠ [] := ne_nil_of_row (.inl rfl) (hrest ▸ h)
        have hread : ∀ c ∈ cells, c.Readable :=
          @readable_of_row rows [] cells (.inl rfl) [] [] (hrest ▸ h)
        refine ⟨hne, hread, ?_⟩
        rw [finish_row hne hread] at h
        by_cases hline : isEmptyLine cells = true
        · rw [if_pos hline] at h
          simpa [texts] using congrArg List.length h
        · simpa using hline
      · rintro ⟨hne, hread, hline⟩
        rw [finish_row hne hread, if_neg (by simp [hline])]
        rfl
    | cons cells' table =>
      rw [render_cons_cons, survives_cons_cons]
      constructor
      · intro h
        have hne : cells ≠ [] := ne_nil_of_row (.inr ⟨_, rfl⟩) h
        have hread : ∀ c ∈ cells, c.Readable :=
          @readable_of_row rows _ cells (.inr ⟨_, .inr rfl⟩) _ [] h
        rw [parseLoop_row_newline hne hread] at h
        exact ⟨hne, hread, ih.mp (by rw [h, List.append_assoc]; rfl)⟩
      · rintro ⟨hne, hread, hsurvives⟩
        rw [parseLoop_row_newline hne hread, ih.mpr hsurvives, List.append_assoc]
        rfl

end Tables

/-- The text of a table is read back as its cells if and only if the table survives. -/
theorem parseText_render_iff (table : List (List Cell)) :
    parseText (render table) = texts table ↔ Survives table :=
  @finish_render_iff [] table

end Csv

end HeadlessErp
