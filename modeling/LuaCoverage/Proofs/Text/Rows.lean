import LuaCoverage.Text.Lines

/-!
# Rows of a text

A text is cut into lines wherever it comes from, and so is a text whose characters carry marks.
`rowsOf` cuts a list of anything that holds characters at the places where the text is cut
(`map_rowsOf`). One step of it takes off a row with the line end behind it (`rowsOf_append`), and
every text that is not empty begins with such a row (`exists_row`), so proofs about lines go row by
row.

Proofs that go token by token need a row at every place of a text, its end included. `rows` has one
more row than a text has lines where nothing stands behind the last line end
(`charLines_prefix_rows`), and every text begins with a row of this kind (`exists_rows`).
-/

set_option autoImplicit false

namespace LuaCoverage.Text

variable {α : Type} (key : α → Char)

/-- The rows of a text whose characters are keys. -/
def rowsOf : List α → List (List α)
  | [] => []
  | first :: rest =>
      if key first = '\n' then [] :: rowsOf rest
      else if key first = '\r' ∧ rest.head?.map key = some '\n' then rowsOf rest
      else
        match rowsOf rest with
        | [] => [[first]]
        | row :: rows => (first :: row) :: rows

/-- **The rows of a marked text are its lines with their marks.** -/
theorem map_rowsOf (text : List α) :
    (rowsOf key text).map (List.map key) = charLines (text.map key) := by
  induction text with
  | nil => rfl
  | cons first rest ih =>
      unfold rowsOf
      rw [List.map_cons]
      split
      · rename_i isFeed
        rw [isFeed, charLines, ← ih]
        rfl
      · rename_i notFeed
        split
        · rename_i isReturn
          obtain ⟨next, isHead, isFeed⟩ := Option.map_eq_some_iff.mp isReturn.2
          obtain ⟨later, rfl⟩ := List.head?_eq_some_iff.mp isHead
          rw [ih, isReturn.1, List.map_cons, isFeed, charLines, charLines]
        · rename_i notReturn
          have ownLine : ∀ later, key first = '\r' → rest.map key = '\n' :: later → False := by
            intro later isReturn isRest
            refine notReturn ⟨isReturn, ?_⟩
            rw [← List.head?_map, isRest]
            rfl
          rw [charLines.eq_4 _ _ notFeed ownLine, ← ih]
          cases rowsOf key rest <;> rfl

/-- What stands between a row and the rest of a text: a line feed that no carriage return precedes,
a carriage return with a line feed, or nothing if the text ends there. -/
def IsEnding (row ending rest : List α) : Prop :=
  (∃ feed, ending = [feed] ∧ key feed = '\n' ∧
      ∀ last, row.getLast? = some last → key last ≠ '\r') ∨
    (∃ back feed, ending = [back, feed] ∧ key back = '\r' ∧ key feed = '\n') ∨
    (ending = [] ∧ rest = [] ∧ row ≠ [])

variable {key}

theorem rowsOf_cons {first : α} {rest row : List α} {rows : List (List α)}
    (notFeed : key first ≠ '\n')
    (notReturn : ¬ (key first = '\r' ∧ rest.head?.map key = some '\n'))
    (isRows : rowsOf key rest = row :: rows) :
    rowsOf key (first :: rest) = (first :: row) :: rows := by
  rw [rowsOf, if_neg notFeed, if_neg notReturn, isRows]

/-- **A row and its line end are cut off a text.** -/
theorem rowsOf_append {row ending rest : List α} (noFeed : ∀ item ∈ row, key item ≠ '\n')
    (isEnding : IsEnding key row ending rest) :
    rowsOf key (row ++ ending ++ rest) = row :: rowsOf key rest := by
  induction row with
  | nil =>
      rcases isEnding with ⟨feed, rfl, isFeed, -⟩ | ⟨back, feed, rfl, isReturn, isFeed⟩ |
        ⟨-, -, filled⟩
      · simp [rowsOf, isFeed]
      · simp [rowsOf, isReturn, isFeed]
      · exact absurd rfl filled
  | cons first row ih =>
      have own : key first ≠ '\n' := noFeed first List.mem_cons_self
      have later : ∀ item ∈ row, key item ≠ '\n' :=
        fun item member => noFeed item (List.mem_cons_of_mem _ member)
      cases row with
      | nil =>
          rcases isEnding with ⟨feed, rfl, isFeed, noReturn⟩ | ⟨back, feed, rfl, isReturn, isFeed⟩ |
            ⟨rfl, rfl, -⟩
          · have ends : key first ≠ '\r' := noReturn first rfl
            simp [rowsOf, isFeed, own, ends]
          · simp [rowsOf, isReturn, isFeed, own]
          · simp [rowsOf, own]
      | cons second row =>
          have isEnding' : IsEnding key (second :: row) ending rest := by
            rcases isEnding with ⟨feed, rfl, isFeed, noReturn⟩ | returned | ⟨rfl, rfl, -⟩
            · exact .inl ⟨feed, rfl, isFeed, fun last isLast =>
                noReturn last (by rw [List.getLast?_cons_cons]; exact isLast)⟩
            · exact .inr (.inl returned)
            · exact .inr (.inr ⟨rfl, rfl, List.cons_ne_nil _ _⟩)
          refine rowsOf_cons own ?_ (ih later isEnding')
          rintro ⟨-, isFeed⟩
          exact later second List.mem_cons_self (Option.some.inj isFeed)

/-- **Every text that is not empty begins with a row.** -/
theorem exists_row {text : List Char} (filled : text ≠ []) :
    ∃ row ending rest, text = row ++ ending ++ rest ∧ '\n' ∉ row ∧ IsEnding id row ending rest := by
  induction text with
  | nil => exact absurd rfl filled
  | cons first text ih =>
      by_cases isFeed : first = '\n'
      · subst isFeed
        exact ⟨[], ['\n'], text, rfl, List.not_mem_nil, .inl ⟨'\n', rfl, rfl, nofun⟩⟩
      · cases text with
        | nil =>
            exact ⟨[first], [], [], rfl, by simpa using Ne.symm isFeed,
              .inr (.inr ⟨rfl, rfl, List.cons_ne_nil _ _⟩)⟩
        | cons second text =>
            by_cases isReturn : first = '\r' ∧ second = '\n'
            · obtain ⟨rfl, rfl⟩ := isReturn
              exact ⟨[], ['\r', '\n'], text, rfl, List.not_mem_nil,
                .inr (.inl ⟨'\r', '\n', rfl, rfl, rfl⟩)⟩
            · obtain ⟨row, ending, rest, isText, noFeed, isEnding⟩ := ih (List.cons_ne_nil _ _)
              refine ⟨first :: row, ending, rest, by rw [isText]; rfl, ?_, ?_⟩
              · rw [List.mem_cons, not_or]
                exact ⟨Ne.symm isFeed, noFeed⟩
              · rcases isEnding with ⟨feed, rfl, feedIs, noReturn⟩ | returned | ⟨rfl, rfl, -⟩
                · refine .inl ⟨feed, rfl, feedIs, fun last isLast => ?_⟩
                  cases row with
                  | nil =>
                      obtain rfl : first = last := Option.some.inj isLast
                      obtain ⟨rfl, -⟩ := List.cons.inj isText
                      exact fun back => isReturn ⟨back, feedIs⟩
                  | cons third row =>
                      rw [List.getLast?_cons_cons] at isLast
                      exact noReturn last isLast
                · exact .inr (.inl returned)
                · exact .inr (.inr ⟨rfl, rfl, List.cons_ne_nil _ _⟩)

/-- The first row of a text is its first line. -/
theorem charLines_append {row ending rest : List Char} (noFeed : '\n' ∉ row)
    (isEnding : IsEnding id row ending rest) :
    charLines (row ++ ending ++ rest) = row :: charLines rest := by
  have noFeeds : ∀ item ∈ row, id item ≠ '\n' := fun item member isFeed => noFeed (isFeed ▸ member)
  have cut := rowsOf_append noFeeds isEnding
  have lines := fun text : List Char => map_rowsOf id text
  simp only [List.map_id_fun, List.map_id] at lines
  rw [← lines, cut, lines]

/-! ## Rows up to the end -/

/-- The rows of some characters: their lines, and what stands behind the last line end even if that
is nothing. -/
def rows : List Char → List (List Char)
  | [] => [[]]
  | '\n' :: rest => [] :: rows rest
  | '\r' :: '\n' :: rest => [] :: rows rest
  | first :: rest =>
      match rows rest with
      | [] => [[first]]
      | row :: later => (first :: row) :: later

/-- A character that ends no line is the first of its row. -/
theorem rows_cons {first : Char} {rest row : List Char} {later : List (List Char)}
    (notFeed : first ≠ '\n') (notReturn : first = '\r' → rest.head? ≠ some '\n')
    (isRows : rows rest = row :: later) : rows (first :: rest) = (first :: row) :: later := by
  rw [rows.eq_4 _ _ notFeed, isRows]
  rintro tail rfl rfl
  exact notReturn rfl rfl

/-- A carriage return before a line feed makes no difference. -/
theorem rows_return (rest : List Char) : rows ('\r' :: '\n' :: rest) = rows ('\n' :: rest) := by
  rw [rows, rows]

/-- There is a first row, and the characters begin with it. -/
theorem exists_rows (chars : List Char) :
    ∃ row later, rows chars = row :: later ∧ row <+: chars := by
  fun_induction rows chars with
  | case1 => exact ⟨[], [], rfl, List.nil_prefix⟩
  | case2 rest => exact ⟨[], _, rfl, List.nil_prefix⟩
  | case3 rest => exact ⟨[], _, rfl, List.nil_prefix⟩
  | case4 first rest _ _ isNil ih =>
      obtain ⟨row, later, isRows, -⟩ := ih
      rw [isNil] at isRows
      cases isRows
  | case5 first rest _ _ row later isRows ih =>
      obtain ⟨row', later', isRows', isPrefix⟩ := ih
      obtain ⟨rfl, rfl⟩ := List.cons.inj (isRows.symm.trans isRows')
      exact ⟨_, _, rfl, List.cons_prefix_cons.mpr ⟨rfl, isPrefix⟩⟩

theorem row_prefix {chars row : List Char} {later : List (List Char)}
    (isRows : rows chars = row :: later) : row <+: chars := by
  obtain ⟨row', later', isRows', isPrefix⟩ := exists_rows chars
  obtain ⟨rfl, -⟩ := List.cons.inj (isRows.symm.trans isRows')
  exact isPrefix

/-- Whether some characters end no line. -/
def IsUnbroken (chars : List Char) : Prop := ∀ char ∈ chars, char ≠ '\n' ∧ char ≠ '\r'

/-- Characters that end no line stand before the first row of what follows. -/
theorem rows_append {text rest row : List Char} {later : List (List Char)}
    (unbroken : IsUnbroken text) (isRows : rows rest = row :: later) :
    rows (text ++ rest) = (text ++ row) :: later := by
  induction text with
  | nil => exact isRows
  | cons first text ih =>
      obtain ⟨notFeed, notReturn⟩ := unbroken first List.mem_cons_self
      exact rows_cons notFeed (absurd · notReturn)
        (ih fun char member => unbroken char (List.mem_cons_of_mem _ member))

theorem eq_nil_of_charLines {chars : List Char} (isNil : charLines chars = []) : chars = [] := by
  revert isNil
  fun_cases charLines chars <;> simp

/-- The lines of some characters are their first rows. -/
theorem charLines_prefix_rows (chars : List Char) : charLines chars <+: rows chars := by
  fun_induction rows chars with
  | case1 => exact List.nil_prefix
  | case2 rest ih => exact List.cons_prefix_cons.mpr ⟨rfl, ih⟩
  | case3 rest ih => exact List.cons_prefix_cons.mpr ⟨rfl, ih⟩
  | case4 first rest _ _ isNil ih =>
      obtain ⟨row, later, isRows, -⟩ := exists_rows rest
      rw [isNil] at isRows
      cases isRows
  | case5 first rest notFeed notReturn row later isRows ih =>
      rw [charLines.eq_4 _ _ notFeed notReturn]
      rw [isRows] at ih
      cases isLines : charLines rest with
      | nil =>
          obtain rfl := eq_nil_of_charLines isLines
          obtain ⟨rfl, rfl⟩ := List.cons.inj isRows
          exact List.prefix_refl _
      | cons line lines =>
          rw [isLines, List.cons_prefix_cons] at ih
          exact List.cons_prefix_cons.mpr ⟨by rw [ih.1], ih.2⟩

end LuaCoverage.Text
