import LuaCoverage.Proofs.Analysis.ByteScans
import LuaCoverage.Proofs.Analysis.FragmentLines

/-!
# Lines that are read one by one

Lines are read one after the other, and each leaves nothing to the next but a context. This comes to
the same as cutting the whole text into fragments first. The scan of a line stops wherever the line
does, so what it reads is described from any place of the text on: the rows from there on are read
as the table of the remaining fragments says, with whatever was read on the first row already put
onto its first entry (`Lexical.readingsAfter_tableOf`). The proof goes from the last fragment to the
first. A fragment in long brackets takes a second induction, over its content, because it is the
only one that goes on from row to row.

So for every cut of the text, the type of each line and the context behind it are what the fragments
put there (`Lexical.classifyText_of_cut`).
-/

set_option autoImplicit false

namespace LuaCoverage

/-! ## Rows between line feeds -/

namespace Text

theorem splitOn_feed (rest : List Char) :
    ('\n' :: rest).splitOn '\n' = [] :: rest.splitOn '\n' := by
  simp [List.splitOn, List.splitOnP_cons_eq_if_modifyHead]

/-- Characters without a line feed belong to the row of what is behind them. -/
theorem splitOn_append {text rest row : List Char} {later : List (List Char)}
    (noFeed : '\n' ∉ text) (isRows : rest.splitOn '\n' = row :: later) :
    (text ++ rest).splitOn '\n' = (text ++ row) :: later := by
  induction text with
  | nil => exact isRows
  | cons first text ih =>
      have notFeed : first ≠ '\n' := fun same => noFeed (same ▸ List.mem_cons_self)
      replace ih := ih fun member => noFeed (List.mem_cons_of_mem _ member)
      rw [List.splitOn] at ih ⊢
      rw [List.cons_append, List.splitOnP_cons_eq_if_modifyHead, if_neg (by simpa using notFeed),
        ih]
      rfl

/-- Every text begins with a row. -/
theorem exists_splitOn (chars : List Char) :
    ∃ row later, chars.splitOn '\n' = row :: later ∧ row <+: chars ∧
      (chars.head?.all (· == '\n') = true → row = []) := by
  induction chars with
  | nil => exact ⟨[], [], rfl, List.prefix_rfl, fun _ => rfl⟩
  | cons first rest ih =>
      by_cases isFeed : first = '\n'
      · subst isFeed
        exact ⟨[], _, splitOn_feed rest, List.nil_prefix, fun _ => rfl⟩
      · obtain ⟨row, later, isRows, isPrefix, -⟩ := ih
        have noFeed : '\n' ∉ [first] := fun member => isFeed (List.mem_singleton.mp member).symm
        refine ⟨first :: row, later, splitOn_append noFeed isRows,
          List.cons_prefix_cons.mpr ⟨rfl, isPrefix⟩, fun ends => ?_⟩
        exact absurd (by simpa using ends) isFeed

end Text

namespace Lexical

open Lua (Fragment bracket)
open Lua.Fragment (textOf isCut isSourceCut tableOf onto spread closing Describes)

/-! ## Readings -/

/-- What is read of a line: its type and the reason for it, and the context that it leaves. -/
abbrev Reading := (LineType × Reason) × OpenText

/-- The readings of rows in the context left by the row before. -/
def readings : OpenText → List (List Char) → List Reading
  | _, [] => []
  | context, row :: later => readLine row context :: readings (readLine row context).2 later

/-- The readings of the rows of a text. A first row that begins with a number sign is passed over
like a comment. -/
def readText : List (List Char) → List Reading
  | [] => []
  | first :: later =>
      if first.head? == some '#' then ((.comment, .lineComment), {}) :: readings {} later
      else readings {} (first :: later)

theorem classifyFrom_eq (policy : StructuralPolicy) (context : OpenText) (lines : List String) :
    classifyFrom policy context lines = (readings context (lines.map String.toList)).map
      fun reading => .ofType policy reading.1.1 reading.1.2 := by
  induction lines generalizing context with
  | nil => rfl
  | cons line later ih => exact congrArg (List.cons _) (ih (readLine line.toList context).2)

/-- **The classifications of lines are what is read of them.** -/
theorem classifyText_eq (policy : StructuralPolicy) (lines : List String) :
    classifyText policy lines = (readText (lines.map String.toList)).map
      fun reading => .ofType policy reading.1.1 reading.1.2 := by
  cases lines with
  | nil => rfl
  | cons first later =>
      rw [classifyText, List.map_cons, readText]
      split
      · exact congrArg (List.cons _) (classifyFrom_eq policy {} later)
      · exact classifyFrom_eq policy {} (first :: later)

theorem length_readings (context : OpenText) (rows : List (List Char)) :
    (readings context rows).length = rows.length := by
  induction rows generalizing context with
  | nil => rfl
  | cons row later ih => rw [readings, List.length_cons, ih, List.length_cons]

theorem length_readText (rows : List (List Char)) : (readText rows).length = rows.length := by
  cases rows with
  | nil => rfl
  | cons first later =>
      rw [readText]
      split
      · rw [List.length_cons, length_readings, List.length_cons]
      · exact length_readings {} (first :: later)

/-- The readings of rows of which the first one was read up to where it begins here. -/
def readingsAfter (marks : Marks) : List (List Char) → List Reading
  | [] => []
  | row :: later =>
      ((scan row 0 marks).1.verdict, (scan row 0 marks).2) ::
        readings (scan row 0 marks).2 later

theorem readings_closed (rows : List (List Char)) : readings {} rows = readingsAfter {} rows := by
  cases rows <;> rfl

/-- The readings of rows of which the first one was read up to where it begins here, inside a text
in long brackets. -/
def readingsWithin (context : OpenText) (marks : Marks) : List (List Char) → List Reading
  | [] => []
  | row :: later =>
      ((readOpen context marks row).1.verdict, (readOpen context marks row).2) ::
        readings (readOpen context marks row).2 later

theorem readings_within {context : OpenText} {marks : Marks} (within : IsWithin context marks)
    (rows : List (List Char)) : readings context rows = readingsWithin context marks rows := by
  cases rows with
  | nil => rfl
  | cons row later => rw [readings, readingsWithin, within row]

/-- What is read of the line of an entry. -/
def reading (entry : Marks × OpenText) : Reading := (entry.1.verdict, entry.2)

/-! ## Texts in long brackets -/

section Within

variable {context : OpenText} {inside : Marks} (within : IsWithin context inside)
  {closed : Bool} {content rest : List Char}
  (isContent : Lua.isInBrackets context.level closed content rest = true)
  {below : List (Marks × OpenText)}
  (behind : ∀ marks, readingsWithin context marks
    ((closing closed (bracket ']' context.level) ++ rest).splitOn '\n') =
      (onto marks below).map reading)

include within isContent behind

/-- **A text in long brackets goes on from row to row** up to its end. -/
theorem readingsWithin_content (marks : Marks) :
    readingsWithin context marks
        ((content ++ (closing closed (bracket ']' context.level) ++ rest)).splitOn '\n') =
      (spread marks inside context (content.count '\n') below).map reading := by
  have passed (text : List Char) (isSuffix : text <:+ content) (marks : Marks) :
      readingsWithin context marks
          ((text ++ (closing closed (bracket ']' context.level) ++ rest)).splitOn '\n') =
        (spread marks inside context (text.count '\n') below).map reading := by
    induction text generalizing marks with
    | nil => exact behind marks
    | cons first text ih =>
        have notHere := Lua.not_prefix_of_isInBrackets isContent isSuffix (List.cons_ne_nil _ _)
        replace ih := ih ((List.suffix_cons first text).trans isSuffix)
        rw [List.cons_append] at notHere ⊢
        generalize text ++ (closing closed (bracket ']' context.level) ++ rest) = tail
          at notHere ih ⊢
        by_cases isFeed : first = '\n'
        · subst isFeed
          rw [List.count_cons_self, Text.splitOn_feed]
          show (marks.verdict, context) :: readings context (tail.splitOn '\n') = _
          rw [readings_within within, ih]
          rfl
        · obtain ⟨row, later, isRows, isPrefix, -⟩ := Text.exists_splitOn tail
          have noFeed : '\n' ∉ [first] :=
            fun member => isFeed (List.mem_singleton.mp member).symm
          have isRows' : (first :: tail).splitOn '\n' = (first :: row) :: later :=
            Text.splitOn_append noFeed isRows
          rw [List.count_cons_of_ne isFeed, ← ih, isRows, isRows', readingsWithin, readingsWithin,
            readOpen_cons fun closes =>
              notHere (closes.trans (List.cons_prefix_cons.mpr ⟨rfl, isPrefix⟩))]
  exact passed content List.suffix_rfl marks

end Within

/-! ## Fragments within a row -/

theorem blanks_contains (char : Char) : Lua.blanks.contains char = Text.isAsciiBlank char := by
  rw [Bool.eq_iff_iff]
  simp only [Lua.blanks, Text.isAsciiBlank, List.contains_iff_mem, List.mem_cons, List.not_mem_nil,
    or_false, Bool.or_eq_true, beq_iff_eq]
  tauto

theorem closers_contains (char : Char) : Fragment.closers.contains char = isCloser char := by
  rw [Bool.eq_iff_iff]
  simp only [Fragment.closers, isCloser, List.contains_iff_mem, List.mem_cons, List.not_mem_nil,
    or_false, Bool.or_eq_true, beq_iff_eq, or_assoc]

/-- What a word or a symbol puts on its line. -/
theorem union_own_add {fragment : Fragment} {isStructural : Bool}
    (isOwn : fragment.own = ⟨!isStructural, isStructural, false, false, false⟩) (marks : Marks) :
    marks.union fragment.own = marks.add isStructural := by
  rw [isOwn]
  cases isStructural <;> simp [Marks.union, Marks.add]

/-- What a string puts on its line. -/
theorem union_code (marks : Marks) :
    marks.union { code := true } = { marks with code := true } := by
  simp [Marks.union]

/-- What a comment up to the end of the line puts on it. -/
theorem union_comment (marks : Marks) :
    marks.union { comment := true } = { marks with comment := true } := by
  simp [Marks.union]

/-- What a comment in long brackets puts on its line. -/
theorem union_bracketedComment (marks : Marks) :
    marks.union { comment := true, blockComment := true } =
      { marks with comment := true, blockComment := true } := by
  simp [Marks.union]

/-- The length of a string in quotes. -/
theorem quotedLength_content {quote : Char} {closed : Bool} {content row : List Char}
    (isQuote : quote ≠ '\\') (isContent : Lua.isInQuotes quote closed content = true)
    (ends : closed = false → row = []) :
    quotedLength quote (content ++ (closing closed [quote] ++ row)) =
      (content ++ closing closed [quote]).length := by
  fun_induction Lua.isInQuotes quote closed content with
  | case1 =>
      cases closed with
      | true =>
          show quotedLength quote (quote :: row) = 1
          rw [quotedLength.eq_3 quote quote row fun _ _ same => absurd same isQuote,
            if_pos (beq_self_eq_true quote)]
      | false =>
          rw [ends rfl]
          rfl
  | case2 =>
      obtain rfl : closed = false := by simpa using isContent
      rw [ends rfl]
      simp [quotedLength, closing]
  | case3 escaped content ih =>
      rw [Bool.and_eq_true] at isContent
      rw [List.cons_append, List.cons_append, quotedLength, ih isContent.2]
      rfl
  | case4 first content notLast notEscape ih =>
      rw [Bool.and_eq_true, Bool.and_eq_true, bne_iff_ne] at isContent
      have isPlain : first ≠ '\\' := by
        rintro rfl
        cases content with
        | nil => exact notLast rfl rfl
        | cons next content => exact notEscape next content rfl rfl
      rw [List.cons_append, quotedLength.eq_3 quote first _ fun _ _ same => absurd same isPlain,
        if_neg (by simpa using isContent.1.1), ih isContent.2]
      rfl

theorem noFeed_of_isInQuotes {quote : Char} {closed : Bool} {content : List Char}
    (isContent : Lua.isInQuotes quote closed content = true) : '\n' ∉ content := by
  fun_induction Lua.isInQuotes quote closed content with
  | case1 => exact List.not_mem_nil
  | case2 => decide
  | case3 escaped content ih =>
      rw [Bool.and_eq_true, bne_iff_ne] at isContent
      simp [Ne.symm isContent.1, ih isContent.2]
  | case4 first content _ _ ih =>
      rw [Bool.and_eq_true, Bool.and_eq_true, bne_iff_ne, bne_iff_ne] at isContent
      simp [Ne.symm isContent.1.2, ih isContent.2]

/-- Whether a fragment ends on its row, where given characters are the rest of the row. -/
structure EndsOnRow (fragment : Fragment) (row : List Char) : Prop where
  noFeed : '\n' ∉ fragment.text
  scan_eq : ∀ marks,
    scan (fragment.text ++ row) 0 marks = scan row 0 (marks.union fragment.own)

section Short

variable {rest row : List Char} (isPrefix : row <+: rest)
  (ends : rest.head?.all (· == '\n') = true → row = [])

theorem endsOnRow_blank {char : Char} (fits : (Fragment.blank char).fits rest = true)
    (notFeed : char ≠ '\n') : EndsOnRow (.blank char) row := by
  rw [Fragment.fits, blanks_contains] at fits
  refine ⟨by simpa [Fragment.text] using Ne.symm notFeed, fun marks => ?_⟩
  have isOwn : (Fragment.blank char).own = {} := rfl
  rw [isOwn, Marks.union_none]
  exact scan_blank fits row marks

include isPrefix in
theorem endsOnRow_word {text : List Char} (fits : (Fragment.word text).fits rest = true) :
    EndsOnRow (.word text) row := by
  simp only [Fragment.fits, Bool.and_eq_true, Bool.not_eq_true'] at fits
  obtain ⟨⟨isWord, continues⟩, stops⟩ := fits
  obtain ⟨first, others, rfl⟩ : ∃ first others, text = first :: others := by
    cases text with
    | nil => cases isWord
    | cons first others => exact ⟨first, others, rfl⟩
  have continues' (char : Char) (member : char ∈ first :: others) : continuesWord char = true := by
    rw [continuesWord_eq]
    exact List.all_eq_true.mp continues char member
  have stops' (char : Char) (isHead : row.head? = some char) : continuesWord char = false := by
    rw [continuesWord_eq]
    exact head_row isPrefix stops char isHead
  refine ⟨fun member => absurd (continues' _ member) (by decide), fun marks => ?_⟩
  rw [Fragment.text, List.cons_append, scan_word
    (isPlainStart_of_simple _ (isSimple_of_digit (.inl (continues' _ List.mem_cons_self)))) isWord
    (fun char member => continues' char (List.mem_cons_of_mem _ member)) stops']
  exact congrArg (scan row 0) (union_own_add rfl marks).symm

include isPrefix in
theorem endsOnRow_symbol {char : Char} (fits : (Fragment.symbol char).fits rest = true) :
    EndsOnRow (.symbol char) row := by
  simp only [Fragment.fits, Bool.and_eq_true, Bool.not_eq_true', blanks_contains] at fits
  obtain ⟨⟨⟨⟨notBlank, noWord⟩, noQuote⟩, noComment⟩, noBracket⟩ := fits
  have isPlain : IsPlainStart char row := by
    refine ⟨notBlank, ?_, ?_, openingLevel?_eq_none ?_⟩
    · rintro rfl isHead
      obtain ⟨more, rfl⟩ := isPrefix
      simp [List.head?_append, isHead] at noComment
    · constructor <;> rintro rfl <;> cases noQuote
    · refine Bool.eq_false_iff.mpr fun opens => Bool.eq_false_iff.mp noBracket ?_
      exact Lua.opensBracket_mono (List.cons_prefix_cons.mpr ⟨rfl, isPrefix⟩) opens
  have isOwn : (Fragment.symbol char).own =
      ⟨!isCloser char, isCloser char, false, false, false⟩ := by
    rw [← closers_contains]
    rfl
  refine ⟨fun member => ?_, fun marks => ?_⟩
  · obtain rfl := List.mem_singleton.mp member
    cases notBlank
  · rw [union_own_add isOwn]
    exact scan_symbol isPlain noWord marks

include ends in
theorem endsOnRow_quoted {quote : Char} {content : List Char} {closed : Bool}
    (fits : (Fragment.quoted quote content closed).fits rest = true) :
    EndsOnRow (.quoted quote content closed) row := by
  simp only [Fragment.fits, Bool.and_eq_true, Bool.or_eq_true] at fits
  obtain ⟨⟨isQuote, isContent⟩, stops⟩ := fits
  have isQuote : quote = '"' ∨ quote = '\'' := by
    simpa [Lua.quotes] using isQuote
  have noEscape : quote ≠ '\\' ∧ '\n' ≠ quote := by
    rcases isQuote with rfl | rfl <;> decide
  have isLast (isOpen : closed = false) : row = [] :=
    ends (stops.resolve_left (by simp [isOpen]))
  refine ⟨?_, fun marks => ?_⟩
  · have noFeed := noFeed_of_isInQuotes isContent
    cases closed <;> simp [Fragment.text, closing, noFeed, noEscape.2]
  · have length := quotedLength_content noEscape.1 isContent isLast
    rw [Fragment.text, List.cons_append, scan_quote isQuote, List.append_assoc, length,
      ← List.append_assoc, List.drop_left]
    exact congrArg (scan row 0) (union_code marks).symm

include ends in
theorem endsOnRow_lineComment {content : List Char}
    (fits : (Fragment.lineComment content).fits rest = true) :
    EndsOnRow (.lineComment content) row := by
  simp only [Fragment.fits, Bool.and_eq_true, Bool.not_eq_true'] at fits
  obtain ⟨⟨noFeed, stops⟩, noBracket⟩ := fits
  obtain rfl := ends stops
  refine ⟨?_, fun marks => ?_⟩
  · have noFeed' : '\n' ∉ content :=
      fun member => absurd (List.all_eq_true.mp noFeed _ member) (by decide)
    simp [Fragment.text, noFeed']
  · rw [List.append_nil, Fragment.text, scan_lineComment (openingLevel?_eq_none noBracket)]
    exact congrArg (·, ({} : OpenText)) (union_comment marks).symm

end Short

/-! ## Whole texts -/

section Pieces

variable {first : Fragment} {later : List Fragment}
  (below : ∀ marks, readingsAfter marks ((textOf later).splitOn '\n') =
    (onto marks (tableOf later)).map reading)

include below

/-- **A fragment that ends on its row** puts something on this row. -/
theorem readingsAfter_short (closed : first.isOpen = false)
    (ends : ∀ row rows, (textOf later).splitOn '\n' = row :: rows → EndsOnRow first row)
    (marks : Marks) :
    readingsAfter marks ((textOf (first :: later)).splitOn '\n') =
      (onto marks (tableOf (first :: later))).map reading := by
  obtain ⟨row, rows, isRows, -⟩ := Text.exists_splitOn (textOf later)
  obtain ⟨noFeed, scan_eq⟩ := ends row rows isRows
  have isTable : tableOf (first :: later) = onto first.own (tableOf later) := by
    rw [tableOf, Fragment.feeds, List.count_eq_zero.mpr noFeed, closed]
    rfl
  rw [isTable, Fragment.onto_onto, ← below, isRows, Fragment.textOf_cons,
    Text.splitOn_append noFeed isRows, readingsAfter, readingsAfter, scan_eq]

/-- What is read behind the content of a text in long brackets. -/
theorem readingsWithin_closing {context : OpenText} {closed : Bool} {content : List Char}
    (isContent : Lua.isInBrackets context.level closed content (textOf later) = true)
    (marks : Marks) :
    readingsWithin context marks
        ((closing closed (bracket ']' context.level) ++ textOf later).splitOn '\n') =
      (onto marks (if !closed then [({}, context)] else tableOf later)).map reading := by
  cases closed with
  | true =>
      obtain ⟨row, rows, isRows, -⟩ := Text.exists_splitOn (textOf later)
      have noFeed : '\n' ∉ bracket ']' context.level :=
        List.count_eq_zero.mp (count_bracket (by decide) _)
      have isReading := below marks
      rw [isRows] at isReading
      simp only [closing, if_true, Bool.not_true, Bool.false_eq_true, if_false]
      rw [Text.splitOn_append noFeed isRows, readingsWithin, readOpen_bracket, ← isReading]
      rfl
  | false =>
      simp only [Lua.isInBrackets, Bool.false_eq_true, if_false, Bool.and_eq_true,
        List.isEmpty_iff] at isContent
      rw [isContent.1]
      show [(marks.verdict, context)] = [((marks.union {}).verdict, context)]
      rw [Marks.union_none]

/-- **A fragment in long brackets** puts something on all the rows that it runs over. -/
theorem readingsAfter_long {opening content : List Char} {closed : Bool}
    (isText : first.text =
      opening ++ (content ++ closing closed (bracket ']' first.context.level)))
    (noFeed : '\n' ∉ opening) (isOpen : first.isOpen = !closed)
    (opens : ∀ row marks, scan (opening ++ row) 0 marks =
      readOpen first.context (marks.union first.own) row)
    (within : IsWithin first.context first.carried)
    (isContent : Lua.isInBrackets first.context.level closed content (textOf later) = true)
    (marks : Marks) :
    readingsAfter marks ((textOf (first :: later)).splitOn '\n') =
      (onto marks (tableOf (first :: later))).map reading := by
  have isFeeds : first.feeds = content.count '\n' := by
    rw [Fragment.feeds, isText, List.count_append, List.count_append,
      List.count_eq_zero.mpr noFeed]
    cases closed with
    | true => simp [closing, count_bracket]
    | false => simp [closing]
  have inside := readingsWithin_content within isContent
    (readingsWithin_closing below isContent) (marks.union first.own)
  obtain ⟨row, rows, isRows, -⟩ := Text.exists_splitOn
    (content ++ (closing closed (bracket ']' first.context.level) ++ textOf later))
  rw [isRows] at inside
  rw [tableOf, Fragment.onto_spread, isFeeds, isOpen, ← inside, Fragment.textOf_cons, isText,
    List.append_assoc, List.append_assoc, Text.splitOn_append noFeed isRows, readingsAfter, opens]
  rfl

end Pieces

/-- **Rows are read as the table of their fragments says**, from any place between two fragments
on. The induction is on the fragments, from the last one to the first. -/
theorem readingsAfter_tableOf {pieces : List Fragment} (cut : isCut pieces = true)
    (marks : Marks) :
    readingsAfter marks ((textOf pieces).splitOn '\n') =
      (onto marks (tableOf pieces)).map reading := by
  induction pieces generalizing marks with
  | nil =>
      have isReading : reading (marks.union {}, {}) = (marks.verdict, {}) :=
        congrArg (fun own : Marks => (own.verdict, ({} : OpenText))) (Marks.union_none marks)
      exact congrArg ([·]) isReading.symm
  | cons first later ih =>
  rw [isCut, Bool.and_eq_true] at cut
  obtain ⟨fits, cut⟩ := cut
  replace ih := ih cut
  have rest {row : List Char} {rows : List (List Char)}
      (isRows : (textOf later).splitOn '\n' = row :: rows) :
      row <+: textOf later ∧ ((textOf later).head?.all (· == '\n') = true → row = []) := by
    obtain ⟨row', rows', isRows', facts⟩ := Text.exists_splitOn (textOf later)
    obtain ⟨rfl, -⟩ := List.cons.inj (isRows'.symm.trans isRows)
    exact facts
  cases first with
  | blank char =>
      by_cases isFeed : char = '\n'
      · subst isFeed
        have isTable : tableOf (Fragment.blank '\n' :: later) =
            (({} : Marks), ({} : OpenText)) :: onto {} (tableOf later) := rfl
        rw [isTable, Fragment.onto_none, Fragment.textOf_cons]
        show readingsAfter marks (('\n' :: textOf later).splitOn '\n') = _
        rw [Text.splitOn_feed]
        show (marks.verdict, {}) :: readings {} ((textOf later).splitOn '\n') = _
        rw [readings_closed, ih, Fragment.onto_none, onto, Marks.union_none]
        rfl
      · exact readingsAfter_short ih rfl (fun _ _ _ => endsOnRow_blank fits isFeed) marks
  | word text =>
      exact readingsAfter_short ih rfl (fun _ _ isRows => endsOnRow_word (rest isRows).1 fits) marks
  | symbol char =>
      exact readingsAfter_short ih rfl (fun _ _ isRows => endsOnRow_symbol (rest isRows).1 fits)
        marks
  | quoted quote content closed =>
      exact readingsAfter_short ih rfl (fun _ _ isRows => endsOnRow_quoted (rest isRows).2 fits)
        marks
  | lineComment content =>
      exact readingsAfter_short ih rfl
        (fun _ _ isRows => endsOnRow_lineComment (rest isRows).2 fits) marks
  | bracketed level content closed =>
      have noFeed : '\n' ∉ bracket '[' level :=
        List.count_eq_zero.mp (count_bracket (by decide) level)
      have isText : (Fragment.bracketed level content closed).text =
          bracket '[' level ++ (content ++ closing closed (bracket ']' level)) := rfl
      refine readingsAfter_long ih isText noFeed rfl (fun row marks => ?_) (isWithin_string level)
        fits marks
      rw [scan_bracketed]
      exact congrArg (readOpen _ · row) (union_code marks).symm
  | bracketedComment level content closed =>
      have noFeed : '\n' ∉ '-' :: '-' :: bracket '[' level := by
        simp [List.count_eq_zero.mp (count_bracket (show '[' ≠ '\n' by decide) level)]
      have isText : (Fragment.bracketedComment level content closed).text =
          '-' :: '-' :: bracket '[' level ++ (content ++ closing closed (bracket ']' level)) := rfl
      refine readingsAfter_long ih isText noFeed rfl (fun row marks => ?_) (isWithin_comment level)
        fits marks
      rw [List.cons_append, List.cons_append, scan_bracketedComment]
      exact congrArg (readOpen _ · row) (union_bracketedComment marks).symm
  | firstLine content => cases fits

/-- **The rows of a whole text are read as the table of its fragments says.** -/
theorem readText_tableOf {pieces : List Fragment} (cut : isSourceCut pieces = true) :
    readText ((textOf pieces).splitOn '\n') = (tableOf pieces).map reading := by
  unfold isSourceCut at cut
  split at cut
  · rename_i content later
    rw [Bool.and_eq_true, Bool.and_eq_true] at cut
    obtain ⟨⟨noFeed, ends⟩, cut⟩ := cut
    obtain ⟨row, rows, isRows, -, isEmpty⟩ := Text.exists_splitOn (textOf later)
    obtain rfl := isEmpty ends
    have noFeed : '\n' ∉ '#' :: content := by
      intro member
      rcases List.mem_cons.mp member with isSign | member
      · cases isSign
      · exact absurd (List.all_eq_true.mp noFeed _ member) (by decide)
    -- the first row puts on its line what a comment does
    have isReading := readingsAfter_tableOf cut (Fragment.firstLine content).own
    have isTable : tableOf (.firstLine content :: later) =
        onto (Fragment.firstLine content).own (tableOf later) := by
      rw [tableOf, Fragment.feeds, Fragment.text, List.count_eq_zero.mpr noFeed]
      rfl
    rw [isTable, ← isReading, isRows, Fragment.textOf_cons, Fragment.text,
      Text.splitOn_append noFeed isRows]
    rfl
  · rw [Bool.and_eq_true, bne_iff_ne] at cut
    obtain ⟨row, rows, isRows, isPrefix, -⟩ := Text.exists_splitOn (textOf pieces)
    have noSign : (row.head? == some '#') = false := by
      refine beq_false_of_ne fun isHead => cut.1 ?_
      obtain ⟨more, isText⟩ := isPrefix
      rw [← isText, List.head?_append, isHead]
      rfl
    have isReading := readingsAfter_tableOf cut.2 {}
    rw [Fragment.onto_none, ← readings_closed, isRows] at isReading
    rw [isRows, readText, noSign, ← isReading]
    rfl

/-- Each entry of the table of a whole text says what is on its line. -/
theorem isEntry_of_isSourceCut {pieces : List Fragment} (cut : isSourceCut pieces = true)
    {line : Nat} {entry : Marks × OpenText} (isEntry : (tableOf pieces)[line]? = some entry) :
    Fragment.IsEntry pieces line entry := by
  unfold isSourceCut at cut
  split at cut
  · rw [Bool.and_eq_true] at cut
    exact Fragment.isEntry_cons (fun isOpen => by cases isOpen)
      (Fragment.isEntry_tableOf cut.2) isEntry
  · rw [Bool.and_eq_true] at cut
    exact Fragment.isEntry_tableOf cut.2 line entry isEntry

/-! ## Bytes -/

theorem readings_byteChars (context : OpenText) (rows : List (List Char)) :
    readings context (rows.map Text.byteChars) = readings context rows := by
  induction rows generalizing context with
  | nil => rfl
  | cons row later ih => rw [List.map_cons, readings, readings, readLine_byteChars, ih]

theorem readText_byteChars (rows : List (List Char)) :
    readText (rows.map Text.byteChars) = readText rows := by
  cases rows with
  | nil => rfl
  | cons first later =>
      have sameHead : ((Text.byteChars first).head? == some '#') = (first.head? == some '#') := by
        rw [Bool.eq_iff_iff, beq_iff_eq, beq_iff_eq]
        exact head_byteChars (by decide)
      rw [List.map_cons, readText, readText, sameHead, readings_byteChars, ← List.map_cons,
        readings_byteChars]

/-! ## Lines -/

/-- **Lines are read as the fragments of their whole text say**, whatever the text is. There is a
cut of it, and for every cut each line is of the type that the fragments on it give it and leaves
the context that its end lies inside of. Reading the bytes of the lines comes to the same, and the
words that are taken out of a line there begin and end between its characters. -/
theorem classifyText_of_cut (policy : StructuralPolicy) {lines : List String}
    (unbroken : ∀ line ∈ lines, '\n' ∉ line.toList) :
    let rows := lines.map String.toList
    let bytes := fun line : String => line.toUTF8.toList.map Char.ofUInt8
    classifyText policy lines =
        (readText rows).map (fun reading => .ofType policy reading.1.1 reading.1.2) ∧
      (readText rows).length = lines.length ∧
      (∃ pieces, isSourceCut pieces = true ∧ textOf pieces = ['\n'].intercalate rows) ∧
      (∀ pieces, isSourceCut pieces = true → textOf pieces = ['\n'].intercalate rows →
        ∀ line reading, (readText rows)[line]? = some reading →
          Describes pieces line reading.1.1 reading.2) ∧
      readText (lines.map bytes) = readText rows ∧
      ∀ line ∈ lines, ∀ before word after : List Char,
        bytes line = before ++ (word ++ after) → word ≠ [] →
          (∀ byte ∈ word, continuesWord byte = true) →
            ∃ before' after', line.toList = before' ++ (word ++ after') ∧
              Text.byteChars before' = before ∧ Text.byteChars after' = after := by
  intro rows bytes
  have isBytes (line : String) : bytes line = Text.byteChars line.toList := by
    rw [Text.byteChars, ← List.map_flatMap, ← Text.toList_toUTF8]
  refine ⟨classifyText_eq policy lines, ?length, Fragment.exists_isSourceCut _, ?described, ?bytes,
    fun line _ before word after same filled isWord => ?words⟩
  case length => rw [length_readText, List.length_map]
  case described =>
    intro pieces cut isText line reading isReading
    have some_ : rows ≠ [] := by
      intro nothing
      rw [nothing] at isReading
      cases isReading
    have noFeed (row : List Char) (member : row ∈ rows) : '\n' ∉ row := by
      obtain ⟨own, isLine, rfl⟩ := List.mem_map.mp member
      exact unbroken own isLine
    have isRows : (textOf pieces).splitOn '\n' = rows := by
      rw [isText, List.splitOn_intercalate _ noFeed some_]
    rw [← isRows, readText_tableOf cut, List.getElem?_map] at isReading
    obtain ⟨entry, isEntry, rfl⟩ := Option.map_eq_some_iff.mp isReading
    exact (isEntry_of_isSourceCut cut isEntry).describes
  case bytes =>
    rw [show lines.map bytes = rows.map Text.byteChars by simp [rows, isBytes]]
    exact readText_byteChars rows
  case words =>
    exact exists_of_word isWord filled ((isBytes line).symm.trans same)

/-- A string and a comment that run over several lines. -/
theorem classifyText_of_cut_carried :
    let lines := ["#!lua", "s = [=[ -- \"", "]] é", "]=] --[[ y", "]] end)"]
    (∀ line ∈ lines, '\n' ∉ line.toList) ∧
      ∃ pieces, isSourceCut pieces = true ∧
        textOf pieces = ['\n'].intercalate (lines.map String.toList) ∧
        Describes pieces 0 .comment {} ∧ Describes pieces 1 .code (.string 1) ∧
        Describes pieces 2 .stringContent (.string 1) ∧
        Describes pieces 3 .stringContent (.comment 0) ∧ Describes pieces 4 .structural {} := by
  intro lines
  have unbroken : ∀ line ∈ lines, '\n' ∉ line.toList := by decide +kernel
  obtain ⟨-, -, ⟨pieces, cut, isText⟩, described, -⟩ :=
    classifyText_of_cut .nonExecutable unbroken
  have isRead : readText (lines.map String.toList) =
      [((.comment, .lineComment), {}), ((.code, .statement), .string 1),
        ((.stringContent, .stringContent), .string 1),
        ((.stringContent, .stringContent), .comment 0), ((.structural, .structural), {})] := by
    decide +kernel
  rw [isRead] at described
  exact ⟨unbroken, pieces, cut, isText, described pieces cut isText 0 _ rfl,
    described pieces cut isText 1 _ rfl, described pieces cut isText 2 _ rfl,
    described pieces cut isText 3 _ rfl, described pieces cut isText 4 _ rfl⟩

end Lexical

end LuaCoverage
