import Mathlib.Data.List.TakeWhile
import LuaCoverage.Lexical
import LuaCoverage.Proofs.Syntax.LexicalRules
import LuaCoverage.Proofs.Text.Rows

/-!
# What a scan of lines reads

A scan of lines takes its rows one after the other and carries a context from each to the next, but
the tokens of a source do not keep to rows. So what a scan reads is described from any place on, and
not from the beginning of a row only: characters *show* some types (`Shows`) if these are the types
of their rows, with the first of them raised by whatever stood on that row before. Characters that
show types can be put behind a line feed (`Shows.feed`), behind anything that is read within one row
(`Shows.after`) and behind a text in long brackets (`shows_bracketed`, `shows_bracketedComment`).

What is read within a row is described by the one type that it adds (`Reads`): a word or a symbol,
a numeral, a string in quotes, a comment at the end of the row. A text in long brackets may run over
many rows. On each of them the scan looks for the closing bracket of the row alone, and
`typesWithin_content` says that it finds the first one that the whole text has, since no bracket
lies across a line end.
-/

set_option autoImplicit false

namespace LuaCoverage

/-! ## Types that meet on a line -/

namespace LineType

/-- The type of a line that holds what makes it of one type and of another. -/
def join (first second : LineType) : LineType :=
  if first.rank < second.rank then second else first

theorem join_assoc (first second third : LineType) :
    (first.join second).join third = first.join (second.join third) := by
  cases first <;> cases second <;> cases third <;> rfl

@[simp]
theorem join_blank (own : LineType) : own.join blank = own := by
  cases own <;> rfl

@[simp]
theorem blank_join (own : LineType) : blank.join own = own := by
  cases own <;> rfl

end LineType

open LineType (join)

/-- Types of lines with something more on the first of them. -/
def raise (more : LineType) : List LineType → List LineType
  | [] => [more]
  | first :: later => more.join first :: later

theorem raise_raise (more own : LineType) (types : List LineType) :
    raise more (raise own types) = raise (more.join own) types := by
  cases types with
  | nil => rfl
  | cons first later => rw [raise, raise, raise, LineType.join_assoc]

/-- Types of lines with a token before them that has a number of line ends in it: it makes its first
line of one type and its later lines of another, and on the last of them these lines begin. -/
def laid (first later : LineType) : Nat → List LineType → List LineType
  | 0, types => raise first types
  | feeds + 1, types => first :: laid later later feeds types

theorem raise_laid (more first later : LineType) (feeds : Nat) (types : List LineType) :
    raise more (laid first later feeds types) = laid (more.join first) later feeds types := by
  cases feeds with
  | zero => exact raise_raise more first types
  | succ feeds => rfl

open Text (rows)

namespace Lexical

/-! ## Types of rows -/

/-- The types of rows in the context left by the row before. -/
def typesFrom : OpenText → List (List Char) → List LineType
  | _, [] => []
  | context, row :: later =>
      (readLine row context).1.1 :: typesFrom (readLine row context).2 later

/-- The types of rows of which the first one was read up to where it begins here. -/
def typesAfter (marks : Marks) : List (List Char) → List LineType
  | [] => []
  | row :: later => (scan row 0 marks).1.verdict.1 :: typesFrom (scan row 0 marks).2 later

theorem typesFrom_closed (all : List (List Char)) : typesFrom {} all = typesAfter {} all := by
  cases all <;> rfl

/-- **Some characters show types** if reading their rows gives these, with whatever was on their
first row before raising the first of them. -/
def Shows (chars : List Char) (types : List LineType) : Prop :=
  ∀ marks, typesAfter marks (rows chars) = raise marks.verdict.1 types

theorem shows_nil : Shows [] [.blank] := by
  intro marks
  exact congrArg ([·]) (LineType.join_blank _).symm

/-- Types that are shown are those of the rows. -/
theorem Shows.typesFrom_rows {chars : List Char} {first : LineType} {later : List LineType}
    (shows_ : Shows chars (first :: later)) : typesFrom {} (rows chars) = first :: later := by
  rw [typesFrom_closed, shows_, raise]
  exact congrArg (· :: later) (LineType.blank_join first)

/-- A line feed ends a row. -/
theorem Shows.feed {rest : List Char} {first : LineType} {later : List LineType}
    (shows_ : Shows rest (first :: later)) : Shows ('\n' :: rest) (.blank :: first :: later) := by
  intro marks
  show marks.verdict.1 :: typesFrom {} (rows rest) = _
  rw [shows_.typesFrom_rows, raise, LineType.join_blank]

/-! ## Tokens within a row -/

/-- Scanning some characters before the rest of their row adds one type to the row. -/
def Reads (text rest : List Char) (own : LineType) : Prop :=
  ∀ marks, ∃ marks', scan (text ++ rest) 0 marks = scan rest 0 marks' ∧
    marks'.verdict.1 = marks.verdict.1.join own

theorem Reads.append {first later rest : List Char} {own own' : LineType}
    (reads : Reads first (later ++ rest) own) (reads' : Reads later rest own') :
    Reads (first ++ later) rest (own.join own') := by
  intro marks
  obtain ⟨between, isBetween, verdict⟩ := reads marks
  obtain ⟨after, isAfter, verdict'⟩ := reads' between
  refine ⟨after, ?_, ?_⟩
  · rw [List.append_assoc, isBetween, isAfter]
  · rw [verdict', verdict, LineType.join_assoc]

/-- What is read within a row adds its type to what the rest shows. -/
theorem Shows.after {text rest : List Char} {own : LineType} {types : List LineType}
    (unbroken : Text.IsUnbroken text)
    (reads : ∀ row later, rows rest = row :: later → Reads text row own)
    (shows_ : Shows rest types) : Shows (text ++ rest) (raise own types) := by
  intro marks
  obtain ⟨row, later, isRows, -⟩ := Text.exists_rows rest
  obtain ⟨after, isAfter, verdict⟩ := reads row later isRows marks
  have restTypes := shows_ after
  rw [isRows, typesAfter, verdict, ← raise_raise] at restTypes
  rw [Text.rows_append unbroken isRows, typesAfter, isAfter, restTypes]

/-! ## Characters -/

/-- The letters, by their code points. -/
theorem isAlpha_iff_toNat {char : Char} : char.isAlpha = true ↔
    (65 ≤ char.toNat ∧ char.toNat ≤ 90) ∨ (97 ≤ char.toNat ∧ char.toNat ≤ 122) := by
  show (decide (char.val ≥ 'A'.val ∧ char.val ≤ 'Z'.val)
    || decide (char.val ≥ 'a'.val) && decide (char.val ≤ 'z'.val)) = true ↔ _
  simp [UInt32.le_iff_toNat_le]

theorem continuesWord_eq (char : Char) : continuesWord char = Lua.continuesWord char := by
  unfold continuesWord Lua.continuesWord Lua.isLetter Char.isAlphanum
  cases char.isAlpha <;> cases char.isDigit <;> cases char == '_' <;> rfl

/-- What does not follow some characters does not follow them on their row either. -/
theorem head_row {test : Char → Bool} {row rest : List Char} (isPrefix : row <+: rest)
    (ends : rest.head?.any test = false) (char : Char) (isHead : row.head? = some char) :
    test char = false := by
  obtain ⟨more, rfl⟩ := isPrefix
  rw [List.head?_append, isHead] at ends
  exact ends

/-! ## What a scan does at a character -/

theorem verdict_code (marks : Marks) :
    { marks with code := true }.verdict.1 = marks.verdict.1.join .code := by
  obtain ⟨code, structural, comment, blockComment, carriedString⟩ := marks
  cases code <;> cases structural <;> cases comment <;> cases carriedString <;> rfl

theorem verdict_structural (marks : Marks) :
    { marks with structural := true }.verdict.1 = marks.verdict.1.join .structural := by
  obtain ⟨code, structural, comment, blockComment, carriedString⟩ := marks
  cases code <;> cases structural <;> cases comment <;> cases carriedString <;> rfl

theorem verdict_comment (marks : Marks) (inBrackets : Bool) :
    { marks with comment := true, blockComment := inBrackets }.verdict.1 =
      marks.verdict.1.join .comment := by
  obtain ⟨code, structural, comment, blockComment, carriedString⟩ := marks
  cases code <;> cases structural <;> cases comment <;> cases carriedString <;> rfl

/-- The marks of a line that holds a word or a symbol besides. -/
def Marks.add (marks : Marks) (isStructural : Bool) : Marks :=
  if isStructural then { marks with structural := true } else { marks with code := true }

/-- The type that a word or a symbol adds to a line. -/
def ownType (isStructural : Bool) : LineType := if isStructural then .structural else .code

theorem verdict_add (marks : Marks) (isStructural : Bool) :
    (marks.add isStructural).verdict.1 = marks.verdict.1.join (ownType isStructural) := by
  cases isStructural
  · exact verdict_code marks
  · exact verdict_structural marks

/-- The rest of a token is passed over. -/
theorem scan_pending (chars : List Char) (pending : Nat) (marks : Marks) :
    scan chars pending marks = scan (chars.drop pending) 0 marks := by
  induction chars generalizing pending with
  | nil => cases pending <;> rfl
  | cons first rest ih =>
      cases pending with
      | zero => rfl
      | succ pending => exact ih pending

theorem scan_blank {char : Char} (isBlank : Text.isAsciiBlank char = true) (rest : List Char)
    (marks : Marks) : scan (char :: rest) 0 marks = scan rest 0 marks := by
  rw [scan, if_pos isBlank]

theorem reads_blank {char : Char} (isBlank : Text.isAsciiBlank char = true) (rest : List Char) :
    Reads [char] rest .blank :=
  fun marks => ⟨marks, scan_blank isBlank rest marks, (LineType.join_blank _).symm⟩

/-- Whether a token other than a string, a comment or a blank begins with a character before given
others. -/
structure IsPlainStart (first : Char) (rest : List Char) : Prop where
  notBlank : Text.isAsciiBlank first = false
  notComment : first = '-' → rest.head? ≠ some '-'
  notQuote : first ≠ '"' ∧ first ≠ '\''
  notBracket : openingLevel? (first :: rest) = none

/-- A scan reads a word, or else a single character. -/
theorem scan_plain {first : Char} {rest : List Char} (plain : IsPlainStart first rest)
    (marks : Marks) :
    scan (first :: rest) 0 marks =
      if startsWord first then
        scan rest (rest.takeWhile continuesWord).length
          (marks.add (structuralWords.contains
            (String.ofList (first :: rest.takeWhile continuesWord))))
      else scan rest 0 (marks.add (isCloser first)) := by
  have noComment : (first == '-' && rest.head? == some '-') = false := by
    rw [Bool.and_eq_false_iff, beq_eq_false_iff_ne, beq_eq_false_iff_ne]
    exact Decidable.or_iff_not_imp_left.mpr fun isHyphen =>
      plain.notComment (Decidable.not_not.mp isHyphen)
  have noQuote : (first == '"' || first == '\'') = false := by
    rw [Bool.or_eq_false_iff, beq_eq_false_iff_ne, beq_eq_false_iff_ne]
    exact plain.notQuote
  rw [scan, plain.notBlank, noComment, noQuote, plain.notBracket]
  simp only [Bool.false_eq_true, if_false, Marks.add]
  split
  · split <;> rfl
  · split <;> rfl

/-- A character that begins no word is read by itself. -/
theorem scan_symbol {first : Char} {rest : List Char} (plain : IsPlainStart first rest)
    (noWord : startsWord first = false) (marks : Marks) :
    scan (first :: rest) 0 marks = scan rest 0 (marks.add (isCloser first)) := by
  rw [scan_plain plain, noWord]
  rfl

theorem reads_symbol {first : Char} {rest : List Char} (plain : IsPlainStart first rest)
    (noWord : startsWord first = false) : Reads [first] rest (ownType (isCloser first)) :=
  fun marks => ⟨_, scan_symbol plain noWord marks, verdict_add marks _⟩

/-- A run of characters does not go on where they are followed by something else. -/
theorem takeWhile_append_of_ends {test : Char → Bool} {rest : List Char} (text : List Char)
    (ends : ∀ char, rest.head? = some char → test char = false) :
    (text ++ rest).takeWhile test = text.takeWhile test := by
  have noMore : rest.takeWhile test = [] := by
    cases rest with
    | nil => rfl
    | cons first rest =>
        rw [List.takeWhile_cons, ends first rfl]
        rfl
  rw [List.takeWhile_append]
  split
  · rename_i whole
    rw [noMore, List.append_nil]
    exact ((List.takeWhile_prefix test).eq_of_length whole).symm
  · rfl

/-- What a run of characters leaves of them. -/
theorem drop_length_takeWhile (test : Char → Bool) (text rest : List Char) :
    (text ++ rest).drop (text.takeWhile test).length = text.dropWhile test ++ rest := by
  have whole := List.takeWhile_append_dropWhile (p := test) (l := text)
  rw [← congrArg (· ++ rest) whole, List.append_assoc, List.drop_left]

section Words

variable {first : Char} {others rest : List Char} (plain : IsPlainStart first (others ++ rest))
  (isWord : startsWord first = true) (continues : ∀ char ∈ others, continuesWord char = true)
  (ends : ∀ char, rest.head? = some char → continuesWord char = false)

include plain isWord continues ends

/-- A word is read as a whole. -/
theorem scan_word (marks : Marks) :
    scan (first :: (others ++ rest)) 0 marks =
      scan rest 0 (marks.add (structuralWords.contains (String.ofList (first :: others)))) := by
  rw [scan_plain plain, if_pos isWord, takeWhile_append_of_ends others ends,
    List.takeWhile_eq_self_iff.mpr continues, scan_pending, List.drop_left]

theorem reads_word : Reads (first :: others) rest
    (ownType (structuralWords.contains (String.ofList (first :: others)))) :=
  fun marks => ⟨_, scan_word plain isWord continues ends marks, verdict_add marks _⟩

end Words

/-- The characters that no string, comment or blank begins with. -/
def isSimple (char : Char) : Bool :=
  !List.contains [' ', '\t', '\n', '\x0c', '\r', '-', '"', '\'', '['] char

theorem isPlainStart_of_simple {first : Char} (rest : List Char)
    (simple : isSimple first = true) : IsPlainStart first rest := by
  simp only [isSimple, List.contains_cons, List.contains_nil, Bool.or_false, Bool.not_eq_true',
    Bool.or_eq_false_iff, beq_eq_false_iff_ne] at simple
  obtain ⟨space, tab, feed, page, back, hyphen, double, single, square⟩ := simple
  refine ⟨?_, fun isHyphen => absurd isHyphen hyphen, ⟨double, single⟩, ?_⟩
  · simp [Text.isAsciiBlank, space, tab, feed, page, back]
  · exact openingLevel?.eq_2 _ fun rest isBracket => square (List.cons.inj isBracket).1

/-- Simple characters are read one by one if none of them begins a word. -/
theorem reads_simple {text rest : List Char}
    (simple : ∀ char ∈ text, isSimple char = true ∧ startsWord char = false) :
    Reads text rest ((text.map (ownType ∘ isCloser)).foldr join .blank) := by
  induction text with
  | nil => exact fun marks => ⟨marks, rfl, (LineType.join_blank _).symm⟩
  | cons first text ih =>
      obtain ⟨plain, noWord⟩ := simple first List.mem_cons_self
      exact (reads_symbol (isPlainStart_of_simple _ plain) noWord).append
        (ih fun char member => simple char (List.mem_cons_of_mem _ member))

/-! ## Numerals -/

/-- The characters of a numeral but for the sign of its exponent. -/
def IsDigits (text : List Char) : Prop :=
  ∀ char ∈ text, continuesWord char = true ∨ char = '.'

theorem IsDigits.append {text more : List Char} (digits : IsDigits text)
    (digits' : IsDigits more) : IsDigits (text ++ more) :=
  fun char member => (List.mem_append.mp member).elim (digits char) (digits' char)

theorem isSimple_of_digit {first : Char} (digit : continuesWord first = true ∨ first = '.') :
    isSimple first = true := by
  rw [isSimple, Bool.not_eq_true', ← Bool.not_eq_true, List.contains_iff_mem]
  intro member
  simp only [List.mem_cons, List.not_mem_nil, or_false] at member
  revert digit
  rcases member with rfl | rfl | rfl | rfl | rfl | rfl | rfl | rfl | rfl <;> decide

/-- On a line with code on it digits change nothing, whatever letters are among them. -/
theorem scan_digits {text rest : List Char} (digits : IsDigits text)
    (ends : ∀ char, rest.head? = some char → continuesWord char = false) {marks : Marks}
    (code : marks.code = true) :
    ∃ marks', scan (text ++ rest) 0 marks = scan rest 0 marks' ∧ marks'.code = true := by
  induction isLength : text.length using Nat.strong_induction_on generalizing text marks with
  | _ length ih =>
      cases text with
      | nil => exact ⟨marks, rfl, code⟩
      | cons first text =>
          have plain := isPlainStart_of_simple (text ++ rest)
            (isSimple_of_digit (digits first List.mem_cons_self))
          have later : IsDigits text :=
            fun char member => digits char (List.mem_cons_of_mem _ member)
          have stays : ∀ isStructural, (marks.add isStructural).code = true := by
            intro isStructural
            cases isStructural
            · rfl
            · exact code
          rw [List.length_cons] at isLength
          rw [List.cons_append, scan_plain plain]
          split
          · -- The letters up to the next other character are one word to the scan.
            have shorter := (List.dropWhile_suffix (l := text) continuesWord).length_le
            rw [takeWhile_append_of_ends text ends, scan_pending, drop_length_takeWhile]
            exact ih _ (by omega)
              (fun char member => later char ((List.dropWhile_suffix _).mem member)) (stays _) rfl
          · exact ih _ (by omega) later (stays _) rfl

/-- Digits are code. -/
theorem reads_digits {first : Char} {others rest : List Char}
    (noWord : startsWord first = false) (digits : IsDigits (first :: others))
    (ends : ∀ char, rest.head? = some char → continuesWord char = false) :
    Reads (first :: others) rest .code := by
  intro marks
  have digit := digits first List.mem_cons_self
  have plain := isPlainStart_of_simple (others ++ rest) (isSimple_of_digit digit)
  have noCloser : isCloser first = false := by
    rw [← Bool.not_eq_true]
    intro closes
    simp only [isCloser, Bool.or_eq_true, beq_iff_eq] at closes
    revert digit
    rcases closes with (((rfl | rfl) | rfl) | rfl) | rfl <;> decide
  have later : IsDigits others := fun char member => digits char (List.mem_cons_of_mem _ member)
  obtain ⟨after, isAfter, code⟩ :=
    scan_digits later ends (show { marks with code := true }.code = true from rfl)
  refine ⟨after, ?_, ?_⟩
  · rw [← isAfter, List.cons_append, scan_plain plain, noWord, noCloser]
    rfl
  · rw [← verdict_code]
    simp [Marks.verdict, code]

/-! ## Strings in quotes and comments at the end of a row -/

/-- A string in quotes is passed over. -/
theorem scan_quote {quote : Char} (isQuote : quote = '"' ∨ quote = '\'') (inside : List Char)
    (marks : Marks) : scan (quote :: inside) 0 marks =
      scan (inside.drop (quotedLength quote inside)) 0 { marks with code := true } := by
  have notBlank : Text.isAsciiBlank quote = false := by
    rcases isQuote with rfl | rfl <;> rfl
  have noComment : (quote == '-') = false := by
    rcases isQuote with rfl | rfl <;> rfl
  have quotes : (quote == '"' || quote == '\'') = true := by
    rcases isQuote with rfl | rfl <;> rfl
  rw [scan, notBlank, noComment, quotes]
  simp only [Bool.false_and, Bool.false_eq_true, if_false, if_true]
  rw [scan_pending]

section Quoted

variable {quote : Char} {content rest : List Char} (isQuote : quote = '"' ∨ quote = '\'')
  (length : quotedLength quote (content ++ quote :: rest) = content.length + 1)

include isQuote length

/-- A string in quotes that ends on its row is passed over up to there. -/
theorem scan_quoted (marks : Marks) :
    scan (quote :: (content ++ [quote]) ++ rest) 0 marks =
      scan rest 0 { marks with code := true } := by
  have isText : quote :: (content ++ [quote]) ++ rest = quote :: (content ++ quote :: rest) := by
    simp
  have isRest : (content ++ quote :: rest).drop (content.length + 1) = rest := by
    rw [← List.singleton_append, ← List.append_assoc]
    exact List.drop_left' (by simp)
  rw [isText, scan_quote isQuote, length, isRest]

theorem reads_quoted : Reads (quote :: (content ++ [quote])) rest .code :=
  fun marks => ⟨_, scan_quoted isQuote length marks, verdict_code marks⟩

end Quoted

/-- A comment takes the rest of its row. -/
theorem scan_lineComment {content : List Char} (noBracket : openingLevel? content = none)
    (marks : Marks) :
    scan ('-' :: '-' :: content) 0 marks = ({ marks with comment := true }, {}) := by
  unfold scan
  simp [Text.isAsciiBlank, noBracket]

theorem reads_lineComment {content : List Char} (noBracket : openingLevel? content = none) :
    Reads ('-' :: '-' :: content) [] .comment := by
  intro marks
  refine ⟨_, ?_, verdict_comment marks marks.blockComment⟩
  rw [List.append_nil, scan_lineComment noBracket]
  rfl

/-! ## Long brackets -/

open Lua (bracket)

theorem length_bracket (square : Char) (level : Nat) :
    (bracket square level).length = level + 2 := by
  simp [bracket]

theorem count_bracket {square : Char} (notFeed : square ≠ '\n') (level : Nat) :
    (bracket square level).count '\n' = 0 := by
  rw [List.count_eq_zero]
  simp [bracket, Ne.symm notFeed]

theorem isUnbroken_bracket {square : Char} (notEnd : square ≠ '\n' ∧ square ≠ '\r')
    (level : Nat) : Text.IsUnbroken (bracket square level) := by
  intro char member
  simp only [bracket, List.mem_cons, List.mem_append, List.mem_replicate, List.not_mem_nil,
    or_false] at member
  rcases member with rfl | ⟨-, rfl⟩ | rfl
  · exact notEnd
  · decide
  · exact notEnd

/-- A long bracket is a square bracket that is completed. -/
theorem completes_iff {level : Nat} {square : Char} (notEquals : square ≠ '=')
    {rest : List Char} :
    completes level square rest = true ↔ bracket square level <+: square :: rest := by
  have equals : ∀ char, (char == '=') = true → char = '=' := fun _ => beq_iff_eq.mp
  rw [bracket, List.cons_prefix_cons, completes, Bool.and_eq_true, beq_iff_eq, beq_iff_eq]
  constructor
  · rintro ⟨isLevel, isSquare⟩
    obtain ⟨later, isLater⟩ := List.head?_eq_some_iff.mp isSquare
    have isTake : rest.take level = List.replicate level '=' := by
      rw [← isLevel, ← List.prefix_iff_eq_take.mp (List.takeWhile_prefix _)]
      exact List.eq_replicate_iff.mpr
        ⟨rfl, fun char member => equals char (List.all_eq_true.mp List.all_takeWhile char member)⟩
    refine ⟨rfl, later, ?_⟩
    rw [List.append_assoc, ← isTake, List.singleton_append, ← isLater, List.take_append_drop]
  · rintro ⟨-, later, rfl⟩
    rw [List.append_assoc, takeWhile_append_of_ends, List.takeWhile_eq_self_iff.mpr]
    · simp
    · intro char member
      rw [List.eq_of_mem_replicate member]
      rfl
    · intro char isHead
      obtain rfl : square = char := Option.some.inj isHead
      exact beq_false_of_ne notEquals

theorem openingLevel?_bracket (level : Nat) (rest : List Char) :
    openingLevel? (bracket '[' level ++ rest) = some level := by
  have opens : completes level '[' (List.replicate level '=' ++ ['['] ++ rest) = true :=
    (completes_iff (by decide)).mpr (List.prefix_append _ _)
  have isLevel := opens
  rw [completes, Bool.and_eq_true, beq_iff_eq] at isLevel
  show openingLevel? ('[' :: (List.replicate level '=' ++ ['['] ++ rest)) = _
  unfold openingLevel?
  simp only
  rw [isLevel.1, if_pos opens]

theorem openingLevel?_eq_none {chars : List Char} (noBracket : Lua.opensBracket chars = false) :
    openingLevel? chars = none := by
  unfold openingLevel?
  split
  · rename_i rest
    refine if_neg fun opens => ?_
    have isRest := drop_length_takeWhile (· == '=') rest []
    rw [List.append_nil, List.append_nil] at isRest
    rw [completes, Bool.and_eq_true, isRest] at opens
    exact absurd opens.2 (Bool.eq_false_iff.mp noBracket)
  · rfl

theorem closingLength?_bracket (level : Nat) (rest : List Char) :
    closingLength? level (bracket ']' level ++ rest) = some (level + 2) := by
  have closes : completes level ']' (List.replicate level '=' ++ [']'] ++ rest) = true :=
    (completes_iff (by decide)).mpr (List.prefix_append _ _)
  show closingLength? level (']' :: (List.replicate level '=' ++ [']'] ++ rest)) = _
  rw [closingLength?, closes]
  rfl

/-- A closing bracket that does not begin with a character is found behind it. -/
theorem closingLength?_cons {level : Nat} {first : Char} {rest : List Char}
    (open_ : ¬ bracket ']' level <+: first :: rest) :
    closingLength? level (first :: rest) = (closingLength? level rest).map (· + 1) := by
  rw [closingLength?]
  refine if_neg fun closes => open_ ?_
  rw [Bool.and_eq_true, beq_iff_eq] at closes
  obtain ⟨rfl, closes⟩ := closes
  exact (completes_iff (by decide)).mp closes

/-! ## Texts in long brackets -/

/-- Reads a row from inside a text in long brackets, with the context that stays if it does not
end on the row. -/
def readOpen (context : OpenText) (marks : Marks) (row : List Char) : Marks × OpenText :=
  match closingLength? context.level row with
  | none => (marks, context)
  | some length => scan (row.drop length) 0 marks

/-- The types of rows of which the first one was read up to where it begins here, inside a text in
long brackets. -/
def typesWithin (context : OpenText) (marks : Marks) : List (List Char) → List LineType
  | [] => []
  | row :: later =>
      (readOpen context marks row).1.verdict.1 :: typesFrom (readOpen context marks row).2 later

/-- What rows that begin inside a text in long brackets hold from the beginning. -/
def IsWithin (context : OpenText) (marks : Marks) : Prop :=
  ∀ row, readLine row context =
    ((readOpen context marks row).1.verdict, (readOpen context marks row).2)

theorem isWithin_of_inComment {context : OpenText} (inComment : context.inComment = true) :
    IsWithin context { comment := true, blockComment := true } := by
  intro row
  rw [readLine, if_pos inComment, readOpen]
  cases closingLength? context.level row with
  | none => rfl
  | some length => simp only [scan_pending row length]

theorem isWithin_of_inString {context : OpenText} (noComment : context.inComment = false)
    (inString : context.inString = true) : IsWithin context { carriedString := true } := by
  intro row
  rw [readLine, if_neg (Bool.eq_false_iff.mp noComment), if_pos inString, readOpen]
  cases closingLength? context.level row with
  | none => rfl
  | some length => simp only [scan_pending row length]

theorem isWithin_comment (level : Nat) :
    IsWithin (.comment level) { comment := true, blockComment := true } :=
  isWithin_of_inComment rfl

theorem isWithin_string (level : Nat) : IsWithin (.string level) { carriedString := true } :=
  isWithin_of_inString rfl rfl

theorem typesFrom_within {context : OpenText} {marks : Marks} (within : IsWithin context marks)
    (all : List (List Char)) : typesFrom context all = typesWithin context marks all := by
  cases all with
  | nil => rfl
  | cons row later => rw [typesFrom, typesWithin, within row]

/-- Inside a text in long brackets characters are passed over up to the closing bracket. -/
theorem readOpen_cons {context : OpenText} {marks : Marks} {first : Char} {row : List Char}
    (open_ : ¬ bracket ']' context.level <+: first :: row) :
    readOpen context marks (first :: row) = readOpen context marks row := by
  unfold readOpen
  rw [closingLength?_cons open_]
  cases closingLength? context.level row <;> rfl

theorem readOpen_bracket (context : OpenText) (marks : Marks) (row : List Char) :
    readOpen context marks (bracket ']' context.level ++ row) = scan row 0 marks := by
  unfold readOpen
  rw [closingLength?_bracket]
  exact congrArg (scan · 0 marks) (List.drop_left' (length_bracket _ _))

section Within

variable {context : OpenText} {inside : Marks} (within : IsWithin context inside)
  {rest : List Char} {types : List LineType} (shows_ : Shows rest types)

include within shows_

/-- **A text in long brackets lies on the rows up to its closing bracket**: its first row keeps what
was on it, and the later ones begin inside the text. -/
theorem typesWithin_content {content : List Char}
    (isContent : ¬ bracket ']' context.level <:+:
      content ++ (bracket ']' context.level).dropLast) (marks : Marks) :
    typesWithin context marks (rows (content ++ (bracket ']' context.level ++ rest))) =
      laid marks.verdict.1 inside.verdict.1 (content.count '\n') types := by
  induction content generalizing marks with
  | nil =>
      obtain ⟨row, later, isRows, -⟩ := Text.exists_rows rest
      have restTypes := shows_ marks
      rw [isRows, typesAfter] at restTypes
      rw [List.nil_append, Text.rows_append (isUnbroken_bracket (by decide) _) isRows, typesWithin,
        readOpen_bracket, restTypes]
      rfl
  | cons first content ih =>
      have isContent' : ¬ bracket ']' context.level <:+:
          content ++ (bracket ']' context.level).dropLast :=
        fun occurs => isContent (occurs.trans (List.suffix_cons first _).isInfix)
      replace ih := ih isContent'
      generalize isTail : content ++ (bracket ']' context.level ++ rest) = tail at ih
      rw [List.cons_append, isTail]
      by_cases isFeed : first = '\n'
      · subst isFeed
        rw [List.count_cons_self]
        show marks.verdict.1 :: typesFrom context (rows tail) = _
        rw [typesFrom_within within, ih]
        rfl
      · rw [List.count_cons_of_ne isFeed, ← ih]
        obtain ⟨row, later, isRows, isPrefix⟩ := Text.exists_rows tail
        by_cases isReturn : first = '\r' ∧ tail.head? = some '\n'
        · obtain ⟨rfl, isHead⟩ := isReturn
          obtain ⟨more, rfl⟩ := List.head?_eq_some_iff.mp isHead
          rw [Text.rows_return]
        · have open_ : ¬ bracket ']' context.level <+: first :: row := by
            intro closes
            refine isContent (List.IsPrefix.isInfix (List.prefix_of_prefix_length_le
              (closes.trans (List.cons_prefix_cons.mpr ⟨rfl, isPrefix⟩)) ?_ ?_))
            · rw [← isTail, List.cons_append, List.cons_prefix_cons]
              refine ⟨rfl, List.prefix_append_right_inj content |>.mpr ?_⟩
              exact (List.dropLast_prefix _).trans (List.prefix_append _ _)
            · simp [length_bracket]
          rw [Text.rows_cons isFeed (fun back feed => isReturn ⟨back, feed⟩) isRows, isRows,
            typesWithin, typesWithin, readOpen_cons open_]

end Within

/-- Opening a string in long brackets. -/
theorem scan_bracketed (level : Nat) (row : List Char) (marks : Marks) :
    scan (bracket '[' level ++ row) 0 marks =
      readOpen (.string level) { marks with code := true } row := by
  have opens := openingLevel?_bracket level row
  have isRow : (List.replicate level '=' ++ ['['] ++ row).drop (level + 1) = row :=
    List.drop_left' (by simp)
  rw [bracket, List.cons_append] at opens ⊢
  generalize List.replicate level '=' ++ ['['] ++ row = inner at opens isRow
  rw [scan, opens]
  simp only [isRow, readOpen, OpenText.string]
  cases closingLength? level row with
  | none => rfl
  | some length =>
      have passed : ∀ within : Marks, scan inner (level + 1 + length) within =
          scan (row.drop length) 0 within := by
        intro within
        rw [scan_pending, ← List.drop_drop, isRow]
      exact passed _

/-- Opening a comment in long brackets. -/
theorem scan_bracketedComment (level : Nat) (row : List Char) (marks : Marks) :
    scan ('-' :: '-' :: (bracket '[' level ++ row)) 0 marks =
      readOpen (.comment level) { marks with comment := true, blockComment := true } row := by
  have opens := openingLevel?_bracket level row
  have isRow : (bracket '[' level ++ row).drop (level + 2) = row :=
    List.drop_left' (length_bracket _ _)
  generalize bracket '[' level ++ row = inner at opens isRow
  have isBody : ('-' :: inner).drop 1 = inner := rfl
  rw [scan]
  simp only [isBody, opens, isRow, readOpen, OpenText.comment]
  cases closingLength? level row with
  | none => rfl
  | some length =>
      have passed : ∀ within : Marks, scan ('-' :: inner) (1 + (level + 2) + length) within =
          scan (row.drop length) 0 within := by
        intro within
        rw [scan_pending, ← List.drop_drop, ← List.drop_drop, isBody, isRow]
      exact passed _

section Bracketed

variable {level : Nat} {content rest : List Char} {types : List LineType}
  (isContent : ¬ bracket ']' level <:+: content ++ (bracket ']' level).dropLast)
  (shows_ : Shows rest types)

include isContent shows_

/-- **A string in long brackets** is code on its first row and content on the later ones. -/
theorem shows_bracketed :
    Shows (bracket '[' level ++ (content ++ (bracket ']' level ++ rest)))
      (laid .code .stringContent (content.count '\n') types) := by
  intro marks
  have inside := typesWithin_content (isWithin_string level) shows_ isContent
    { marks with code := true }
  obtain ⟨row, later, isRows, -⟩ := Text.exists_rows (content ++ (bracket ']' level ++ rest))
  rw [show (OpenText.string level).level = level from rfl, isRows] at inside
  rw [Text.rows_append (isUnbroken_bracket (by decide) level) isRows, typesAfter, scan_bracketed,
    raise_laid, ← verdict_code]
  exact inside

/-- **A comment in long brackets** is a comment on all its rows. -/
theorem shows_bracketedComment :
    Shows ('-' :: '-' :: (bracket '[' level ++ (content ++ (bracket ']' level ++ rest))))
      (laid .comment .comment (content.count '\n') types) := by
  intro marks
  have inside := typesWithin_content (isWithin_comment level) shows_ isContent
    { marks with comment := true, blockComment := true }
  obtain ⟨row, later, isRows, -⟩ := Text.exists_rows (content ++ (bracket ']' level ++ rest))
  rw [show (OpenText.comment level).level = level from rfl, isRows] at inside
  have hyphens : Text.IsUnbroken ['-', '-'] := by
    simp [Text.IsUnbroken]
  have opening : '[' ≠ '\n' ∧ '[' ≠ '\r' := by decide
  have isRows' :=
    Text.rows_append hyphens (Text.rows_append (isUnbroken_bracket opening level) isRows)
  rw [List.cons_append, List.cons_append, List.nil_append] at isRows'
  rw [isRows', typesAfter, List.cons_append, List.cons_append, List.nil_append,
    scan_bracketedComment, raise_laid, ← verdict_comment marks true]
  exact inside

end Bracketed

end Lexical

end LuaCoverage
