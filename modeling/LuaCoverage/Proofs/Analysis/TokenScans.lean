import LuaCoverage.Analysis.LineMarks
import LuaCoverage.Proofs.Analysis.LineScans

/-!
# Lines that tokens make

Every token gives a type to the line it begins on and one to the lines it runs over, and with that
a source cut into blanks and tokens has types of lines of its own (`typesOf`), with no scan and no
tree involved. Scanned line by line, the text of the source shows just these (`shows_pieces`). The
proof goes from the last piece to the first: what the rules say of a token (`Token.fits`) is enough
to see what the scan makes of it (`shows_token`), although the scan knows neither symbols of several
characters nor numerals. It reads a numeral as words and signs, which makes no difference because
all of them are code (`IsDigitRuns`), and it never takes a symbol for the beginning of a comment
or a string because the rules take the longest symbol.

Line ends other than a line feed with or without a carriage return, vertical tabs, and strings in
quotes that run over a line end are what the scan reads otherwise than the rules: `IsPlain` leaves
them out.
-/

set_option autoImplicit false

namespace LuaCoverage.Lua

open Lexical
open Text (IsUnbroken)

/-! ## The types that tokens give to lines -/

namespace Token

/-- The type that a token gives to its first line. -/
def firstType : Token → LineType
  | word text => ownType (Analysis.structuralSymbols.contains text)
  | symbol text => ownType (Analysis.structuralSymbols.contains text)
  | numeral _ _ _ => .code
  | quoted _ _ => .code
  | bracketed _ _ => .code
  | lineComment _ => .comment
  | bracketedComment _ _ => .comment
  | firstLine _ => .comment

/-- The type that a token gives to its later lines, if it has any. -/
def laterType : Token → LineType
  | quoted _ _ => .stringContent
  | bracketed _ _ => .stringContent
  | lineComment _ => .comment
  | bracketedComment _ _ => .comment
  | firstLine _ => .comment
  | _ => .code

/-- How many line ends a token has in it. -/
def feeds (token : Token) : Nat := token.text.count '\n'

end Token

/-- The types that pieces give to the lines they make up. -/
def typesOf : List Piece → List LineType
  | [] => [.blank]
  | .blank char :: later => if char = '\n' then .blank :: typesOf later else typesOf later
  | .token token :: later => laid token.firstType token.laterType token.feeds (typesOf later)

theorem exists_typesOf (pieces : List Piece) : ∃ first later, typesOf pieces = first :: later := by
  fun_induction typesOf pieces with
  | case1 => exact ⟨_, _, rfl⟩
  | case2 => exact ⟨_, _, rfl⟩
  | case3 char later _ ih => exact ih
  | case4 token later ih =>
      obtain ⟨first, types, isTypes⟩ := ih
      rw [isTypes]
      cases token.feeds <;> exact ⟨_, _, rfl⟩

/-! ## Characters -/

theorem startsWord_of_isDigit {char : Char} (digit : char.isDigit = true) :
    startsWord char = false := by
  have small : char.toNat ≤ 57 := (Char.isDigit_iff_toNat.mp digit).2
  have notScore : char ≠ '_' := by
    rintro rfl
    exact absurd small (by decide)
  rw [← Bool.not_eq_true, startsWord, Bool.or_eq_true, isAlpha_iff_toNat, beq_iff_eq]
  rintro (letter | isScore)
  · omega
  · exact notScore isScore

theorem continuesWord_of_isHexDigit {char : Char} (digit : char.isHexDigit = true) :
    Lexical.continuesWord char = true := by
  have isAlphanum : char.isAlpha = true ∨ char.isDigit = true := by
    rw [isAlpha_iff_toNat]
    simp [Char.isHexDigit, UInt32.le_iff_toNat_le] at digit
    rcases digit with (decimal | small) | capital
    · exact .inr decimal
    · exact .inl (by omega)
    · exact .inl (by omega)
  rw [Lexical.continuesWord, Char.isAlphanum]
  rcases isAlphanum with own | own <;> simp [own]

theorem continuesWord_of_isDigit {char : Char} (digit : char.isDigit = true) :
    Lexical.continuesWord char = true := by
  simp [Lexical.continuesWord, Char.isAlphanum, digit]

/-! ## The characters of numerals -/

/-- Whether some characters are a run of digits, or two such runs with a sign between them. -/
inductive IsDigitRuns : List Char → Prop
  | single {first : Char} {others : List Char} (noWord : startsWord first = false)
      (digits : IsDigits (first :: others)) : IsDigitRuns (first :: others)
  | signed {first sign digit : Char} {others more : List Char} (noWord : startsWord first = false)
      (digits : IsDigits (first :: others)) (isSign : sign = '+' ∨ sign = '-')
      (isExponent : ∀ char ∈ digit :: more, char.isDigit = true) :
      IsDigitRuns (first :: others ++ sign :: digit :: more)

theorem isDigits_of_isDigit {text : List Char} (all : ∀ char ∈ text, char.isDigit = true) :
    IsDigits text :=
  fun char member => .inl (continuesWord_of_isDigit (all char member))

/-- Digits with an exponent are digits, but for the sign of the exponent. -/
theorem isDigitRuns_append {first : Char} {others marks exponent : List Char}
    (noWord : startsWord first = false) (digits : IsDigits (first :: others))
    (letters : marks.all Lexical.continuesWord = true)
    (isExponent : isExponent marks exponent = true) :
    IsDigitRuns (first :: others ++ exponent) := by
  cases exponent with
  | nil =>
      rw [List.append_nil]
      exact .single noWord digits
  | cons mark rest =>
      simp only [Lua.isExponent, Bool.and_eq_true, Bool.not_eq_true'] at isExponent
      obtain ⟨⟨isMark, isDigits⟩, filled⟩ := isExponent
      have isMark' : IsDigits [mark] := by
        intro char member
        rw [List.mem_singleton.mp member]
        exact .inl (List.all_eq_true.mp letters mark (List.contains_iff_mem.mp isMark))
      have marked := digits.append isMark'
      have isText : first :: others ++ mark :: rest = first :: (others ++ [mark]) ++ rest := by simp
      rw [isText]
      have signed : ∀ sign more, sign = '+' ∨ sign = '-' → more.all Char.isDigit = true →
          more.isEmpty = false → IsDigitRuns (first :: (others ++ [mark]) ++ sign :: more) := by
        intro sign more isSign isDigits filled
        obtain ⟨digit, more, rfl⟩ :=
          List.exists_cons_of_ne_nil (List.isEmpty_eq_false_iff.mp filled)
        exact .signed noWord marked isSign (List.all_eq_true.mp isDigits)
      unfold withoutSign at isDigits filled
      split at isDigits
      · exact signed '+' _ (.inl rfl) isDigits filled
      · exact signed '-' _ (.inr rfl) isDigits filled
      · exact .single noWord
          (marked.append (isDigits_of_isDigit (List.all_eq_true.mp isDigits)))

theorem isDigits_of_isMantissa {isDigit : Char → Bool} {mantissa : List Char}
    (isMantissa : isMantissa isDigit mantissa = true)
    (continues : ∀ char, isDigit char = true → Lexical.continuesWord char = true) :
    IsDigits mantissa := by
  intro char member
  simp only [Lua.isMantissa, Bool.and_eq_true] at isMantissa
  have own := List.all_eq_true.mp isMantissa.1.1 char member
  rw [Bool.or_eq_true, beq_iff_eq] at own
  exact own.imp_left (continues char)

/-- A decimal mantissa begins with a digit or a point. -/
theorem exists_first_of_isMantissa {mantissa : List Char}
    (isMantissa : isMantissa Char.isDigit mantissa = true) :
    ∃ first others, mantissa = first :: others ∧ startsWord first = false := by
  simp only [Lua.isMantissa, Bool.and_eq_true] at isMantissa
  obtain ⟨⟨all, -⟩, some⟩ := isMantissa
  cases mantissa with
  | nil => cases some
  | cons first others =>
      refine ⟨first, others, rfl, ?_⟩
      have own := List.all_eq_true.mp all first List.mem_cons_self
      rw [Bool.or_eq_true, beq_iff_eq] at own
      rcases own with digit | rfl
      · exact startsWord_of_isDigit digit
      · rfl

/-- **A numeral is a run of digits, or two with the sign of the exponent between them.** -/
theorem isDigitRuns_of_isNumeral {radix mantissa exponent : List Char}
    (isNumeral : isNumeral radix mantissa exponent = true) :
    IsDigitRuns (radix ++ (mantissa ++ exponent)) := by
  unfold Lua.isNumeral at isNumeral
  split at isNumeral
  · rename_i noRadix
    rw [Bool.and_eq_true] at isNumeral
    obtain ⟨isMantissa, isExponent⟩ := isNumeral
    have digits := isDigits_of_isMantissa isMantissa fun _ => continuesWord_of_isDigit
    obtain ⟨first, others, rfl, noWord⟩ := exists_first_of_isMantissa isMantissa
    rw [List.isEmpty_iff.mp noRadix, List.nil_append]
    exact isDigitRuns_append noWord digits (by decide) isExponent
  · rw [Bool.and_eq_true, Bool.and_eq_true] at isNumeral
    obtain ⟨⟨isRadix, isMantissa⟩, isExponent⟩ := isNumeral
    have digits := isDigits_of_isMantissa isMantissa fun _ => continuesWord_of_isHexDigit
    have known : ∀ radix ∈ [['0', 'x'], ['0', 'X']],
        radix.head? = some '0' ∧ radix.all Lexical.continuesWord = true := by
      decide
    obtain ⟨isFirst, continues⟩ := known radix (List.contains_iff_mem.mp isRadix)
    obtain ⟨letter, rfl⟩ := List.head?_eq_some_iff.mp isFirst
    have isDigits : IsDigits ('0' :: letter) :=
      fun char member => .inl (List.all_eq_true.mp continues char member)
    rw [← List.append_assoc]
    exact isDigitRuns_append rfl (isDigits.append digits) (by decide) isExponent

/-! ## Words, numerals and symbols -/

section Row

variable {row rest : List Char} (isPrefix : row <+: rest)

include isPrefix

theorem reads_word {text : String} (fits : (Token.word text).fits rest = true) :
    Reads text.toList row (Token.word text).firstType := by
  simp only [Token.fits, Bool.and_eq_true, Bool.not_eq_true'] at fits
  obtain ⟨⟨starts, continues⟩, ends⟩ := fits
  obtain ⟨first, isFirst, letter⟩ := (Option.any_eq_true _ _).mp starts
  obtain ⟨others, isText⟩ := List.head?_eq_some_iff.mp isFirst
  have continues' : ∀ char ∈ first :: others, Lexical.continuesWord char = true := by
    intro char member
    rw [continuesWord_eq]
    exact List.all_eq_true.mp (isText ▸ continues) char member
  have plain := isPlainStart_of_simple (others ++ row)
    (isSimple_of_digit (.inl (continues' first List.mem_cons_self)))
  have reads := Lexical.reads_word plain letter
    (fun char member => continues' char (List.mem_cons_of_mem _ member))
    (fun char isHead => (continuesWord_eq char).trans (head_row isPrefix ends char isHead))
  rw [← isText, String.ofList_toList] at reads
  have sameWords : structuralWords.contains text = Analysis.structuralSymbols.contains text := by
    have known : ∀ word ∈ Analysis.structuralSymbols, word.toList.head?.any isLetter = true →
        word ∈ structuralWords := by
      decide
    have known' : ∀ word ∈ structuralWords, word ∈ Analysis.structuralSymbols := by decide
    rw [Bool.eq_iff_iff, List.contains_iff_mem, List.contains_iff_mem]
    exact ⟨known' text, fun member => known text member starts⟩
  rwa [sameWords] at reads

omit isPrefix in
/-- What a symbol would be the beginning of does not stand there. -/
theorem head_ne_of_longest {text longer : String} {first second : Char}
    (fits : (Token.symbol text).fits rest = true) (isText : text.toList = [first])
    (isLonger : longer.toList = [first, second]) (known : longer ∈ symbols ++ otherBeginnings) :
    rest.head? ≠ some second := by
  intro isHead
  obtain ⟨later, rfl⟩ := List.head?_eq_some_iff.mp isHead
  simp only [Token.fits, Bool.and_eq_true] at fits
  have shorter : text.length < longer.length := by
    rw [← String.length_toList, ← String.length_toList, isText, isLonger]
    exact Nat.lt_succ_self 1
  have starts := List.all_eq_true.mp fits.1.2 longer known
  rw [isText, isLonger, decide_eq_false (Nat.not_le.mpr shorter)] at starts
  simp at starts

omit isPrefix in
/-- A square bracket that neither another nor an equals sign follows opens no long bracket. -/
theorem opensBracket_square (noSquare : row.head? ≠ some '[') (noEquals : row.head? ≠ some '=') :
    opensBracket ('[' :: row) = false := by
  cases row with
  | nil => rfl
  | cons first row =>
      have notEquals : (first == '=') = false :=
        beq_false_of_ne fun same => noEquals (same ▸ rfl)
      rw [Lua.opensBracket, List.dropWhile_cons, notEquals]
      exact beq_false_of_ne noSquare

theorem reads_symbol {text : String} (fits : (Token.symbol text).fits rest = true) :
    Reads text.toList row (Token.symbol text).firstType := by
  have isSymbol : text ∈ symbols := by
    simp only [Token.fits, Bool.and_eq_true] at fits
    exact List.contains_iff_mem.mp fits.1.1
  have notNext : ∀ char, rest.head? ≠ some char → row.head? ≠ some char := by
    intro char notHead isHead
    obtain ⟨more, rfl⟩ := isPrefix
    exact notHead (by rw [List.head?_append, isHead]; rfl)
  have known : ∀ text ∈ symbols, text = "-" ∨ text = "[" ∨
      (text.toList.all (fun char => isSimple char && !startsWord char) = true ∧
        (text.toList.map (ownType ∘ isCloser)).foldr LineType.join .blank =
          ownType (Analysis.structuralSymbols.contains text)) := by
    decide
  rcases known text isSymbol with rfl | rfl | ⟨simple, isType⟩
  · have noHyphen := notNext '-'
      (head_ne_of_longest fits rfl (show "--".toList = ['-', '-'] from rfl) (by decide))
    exact Lexical.reads_symbol ⟨rfl, fun _ => noHyphen, by decide, rfl⟩ rfl
  · have noSquare := notNext '['
      (head_ne_of_longest fits rfl (show "[[".toList = ['[', '['] from rfl) (by decide))
    have noEquals := notNext '='
      (head_ne_of_longest fits rfl (show "[=".toList = ['[', '='] from rfl) (by decide))
    have plain : IsPlainStart '[' row :=
      ⟨rfl, fun isHyphen => absurd isHyphen (by decide), by decide,
        openingLevel?_eq_none (opensBracket_square noSquare noEquals)⟩
    exact Lexical.reads_symbol plain rfl
  · rw [Token.firstType, ← isType]
    refine reads_simple fun char member => ?_
    have own := List.all_eq_true.mp simple char member
    rwa [Bool.and_eq_true, Bool.not_eq_true'] at own

theorem reads_numeral {radix mantissa exponent : List Char}
    (fits : (Token.numeral radix mantissa exponent).fits rest = true) :
    Reads (radix ++ (mantissa ++ exponent)) row .code := by
  simp only [Token.fits, Bool.and_eq_true, Bool.not_eq_true'] at fits
  obtain ⟨isNumeral, ends⟩ := fits
  have ends' : ∀ char, row.head? = some char → Lexical.continuesWord char = false := by
    intro char isHead
    have notNext := head_row isPrefix ends char isHead
    rw [continuesWord_eq]
    exact (Bool.or_eq_false_iff.mp notNext).1
  have runs := isDigitRuns_of_isNumeral isNumeral
  generalize radix ++ (mantissa ++ exponent) = text at runs
  cases runs with
  | single noWord digits => exact reads_digits noWord digits ends'
  | @signed first sign digit others more noWord digits isSign isExponent =>
    have isDigit := isExponent digit List.mem_cons_self
    have moreReads : Reads (digit :: more) row .code :=
      reads_digits (startsWord_of_isDigit isDigit) (isDigits_of_isDigit isExponent) ends'
    have signReads : Reads [sign] (digit :: more ++ row) .code := by
      rcases isSign with rfl | rfl
      · exact Lexical.reads_symbol (isPlainStart_of_simple _ rfl) rfl
      · refine Lexical.reads_symbol ⟨rfl, fun _ isHyphen => ?_, by decide, rfl⟩ rfl
        obtain rfl : digit = '-' := Option.some.inj isHyphen
        cases isDigit
    have firstReads : Reads (first :: others) ([sign] ++ (digit :: more) ++ row) .code := by
      refine reads_digits noWord digits fun char isHead => ?_
      obtain rfl : sign = char := Option.some.inj isHead
      rcases isSign with rfl | rfl <;> rfl
    exact firstReads.append (signReads.append moreReads)

end Row

/-! ## Strings in quotes and comments at the end of a line -/

/-- The scan finds the quote that ends a string, if the string ends on its line. -/
theorem quotedLength_of_isQuotable {quote : Char} (notEscape : quote ≠ '\\') {passing : Bool}
    {content : List Char} (isContent : isQuotable quote passing content = true)
    (noFeed : '\n' ∉ content) (rest : List Char) :
    quotedLength quote (content ++ quote :: rest) = content.length + 1 := by
  fun_induction isQuotable quote passing content with
  | case1 =>
      rw [List.nil_append, quotedLength.eq_3, beq_self_eq_true]
      · rfl
      · rintro _ _ rfl
        exact absurd rfl notEscape
  | case2 => simp at noFeed
  | case3 passing escaped rest' notReturn ih =>
      have noFeed' : '\n' ∉ rest' := fun member => noFeed (by simp [member])
      rw [List.cons_append, List.cons_append, quotedLength, ih isContent noFeed']
      rfl
  | case4 passing char rest' notReturn notEscaped ih =>
      have noFeed' : '\n' ∉ rest' := fun member => noFeed (List.mem_cons_of_mem _ member)
      simp only [Bool.and_eq_true, bne_iff_ne] at isContent
      obtain ⟨⟨⟨notQuote, notBackslash⟩, -⟩, isRest⟩ := isContent
      rw [List.cons_append, quotedLength.eq_3, beq_false_of_ne notQuote, ih isRest noFeed']
      · rfl
      · rintro _ _ rfl
        exact absurd rfl notBackslash

theorem isQuote_of_fits {quote : Char} {content rest : List Char}
    (fits : (Token.quoted quote content).fits rest = true) : quote = '"' ∨ quote = '\'' := by
  simp only [Token.fits, Bool.and_eq_true] at fits
  simpa using fits.1

theorem reads_quoted {quote : Char} {content rest : List Char}
    (fits : (Token.quoted quote content).fits rest = true) (noFeed : '\n' ∉ content)
    (row : List Char) : Reads (quote :: (content ++ [quote])) row .code := by
  have isQuote := isQuote_of_fits fits
  simp only [Token.fits, Bool.and_eq_true] at fits
  refine Lexical.reads_quoted isQuote (quotedLength_of_isQuotable ?_ fits.2 noFeed row)
  rcases isQuote with rfl | rfl <;> decide

/-- Nothing is left on the row behind a comment at its end. -/
theorem row_eq_nil {rest row : List Char} {later : List (List Char)}
    (isRows : Text.rows rest = row :: later) (ends : rest.head?.all isLineEnd = true)
    (returns : rest.head? = some '\r' → rest.tail.head? = some '\n') : row = [] := by
  cases rest with
  | nil => exact (List.cons.inj isRows).1.symm
  | cons first rest =>
      rcases Bool.or_eq_true_iff.mp ends with isFeed | isReturn
      · obtain rfl := beq_iff_eq.mp isFeed
        exact (List.cons.inj isRows).1.symm
      · obtain rfl := beq_iff_eq.mp isReturn
        obtain ⟨more, rfl⟩ := List.head?_eq_some_iff.mp (returns rfl)
        exact (List.cons.inj isRows).1.symm

/-! ## Tokens on one line -/

/-- Whether a token can run over line ends. -/
def Token.isLong : Token → Bool
  | bracketed _ _ => true
  | bracketedComment _ _ => true
  | _ => false

theorem isUnbroken_of_all {text : List Char} (all : text.all (!isLineEnd ·) = true) :
    IsUnbroken text := by
  intro char member
  have noEnd := List.all_eq_true.mp all char member
  simpa [isLineEnd] using noEnd

theorem isUnbroken_of_digits {text : List Char} (digits : IsDigits text) : IsUnbroken text := by
  intro char member
  have digit := digits char member
  constructor <;> rintro rfl <;> revert digit <;> decide

theorem IsDigitRuns.isUnbroken {text : List Char} (runs : IsDigitRuns text) : IsUnbroken text := by
  cases runs with
  | single _ digits => exact isUnbroken_of_digits digits
  | signed _ digits isSign isExponent =>
      intro char member
      rcases List.mem_append.mp member with member | member
      · exact isUnbroken_of_digits digits char member
      · rcases List.mem_cons.mp member with rfl | member
        · rcases isSign with rfl | rfl <;> decide
        · exact isUnbroken_of_digits (isDigits_of_isDigit isExponent) char member

theorem quote_notEnd {quote : Char} {content rest : List Char}
    (fits : (Token.quoted quote content).fits rest = true) : quote ≠ '\n' ∧ quote ≠ '\r' := by
  rcases isQuote_of_fits fits with rfl | rfl <;> decide

/-- **Where strings in quotes end on their lines, only long brackets hold line ends.** -/
theorem isUnbroken_text {token : Token} {rest : List Char} (fits : token.fits rest = true)
    (short : token.isLong = false)
    (quoted : ∀ quote content, token = .quoted quote content → IsUnbroken content) :
    IsUnbroken token.text := by
  cases token with
  | word text =>
      simp only [Token.fits, Bool.and_eq_true] at fits
      refine isUnbroken_of_digits fun char member => .inl ?_
      rw [continuesWord_eq]
      exact List.all_eq_true.mp fits.1.2 char member
  | numeral radix mantissa exponent =>
      simp only [Token.fits, Bool.and_eq_true] at fits
      exact (isDigitRuns_of_isNumeral fits.1).isUnbroken
  | symbol text =>
      simp only [Token.fits, Bool.and_eq_true] at fits
      have known : ∀ text ∈ symbols, text.toList.all (!isLineEnd ·) = true := by decide
      exact isUnbroken_of_all (known text (List.contains_iff_mem.mp fits.1.1))
  | quoted quote content =>
      have isQuote := quote_notEnd fits
      intro char member
      rw [Token.text, List.mem_cons, List.mem_append, List.mem_singleton] at member
      rcases member with rfl | member | rfl
      · exact isQuote
      · exact quoted quote content rfl char member
      · exact isQuote
  | lineComment content =>
      simp only [Token.fits, Bool.and_eq_true] at fits
      intro char member
      rw [Token.text, List.mem_cons, List.mem_cons] at member
      rcases member with rfl | rfl | member
      · decide
      · decide
      · exact isUnbroken_of_all fits.1.1 char member
  | bracketed level content => cases short
  | bracketedComment level content => cases short
  | firstLine content => cases fits

/-! ## Whole sources -/

theorem feeds_bracketed (level : Nat) (content : List Char) :
    (Token.bracketed level content).feeds = content.count '\n' := by
  simp [Token.feeds, Token.text, count_bracket]

theorem feeds_bracketedComment (level : Nat) (content : List Char) :
    (Token.bracketedComment level content).feeds = content.count '\n' := by
  simp [Token.feeds, Token.text, count_bracket]


/-- **A token adds its types to those of the lines behind it.** -/
theorem shows_token {token : Token} {rest : List Char} {types : List LineType}
    (fits : token.fits rest = true)
    (quoted : ∀ quote content, token = .quoted quote content → IsUnbroken content)
    (returns : rest.head? = some '\r' → rest.tail.head? = some '\n')
    (shows_ : Shows rest types) :
    Shows (token.text ++ rest) (laid token.firstType token.laterType token.feeds types) := by
  have oneLine : token.isLong = false →
      (∀ row later, Text.rows rest = row :: later → Reads token.text row token.firstType) →
      Shows (token.text ++ rest) (laid token.firstType token.laterType token.feeds types) := by
    intro short reads
    have unbroken := isUnbroken_text fits short quoted
    have noFeeds : token.feeds = 0 :=
      List.count_eq_zero.mpr fun member => (unbroken _ member).1 rfl
    rw [noFeeds]
    exact shows_.after unbroken reads
  cases token with
  | word text =>
      exact oneLine rfl fun row later isRows => reads_word (Text.row_prefix isRows) fits
  | numeral radix mantissa exponent =>
      exact oneLine rfl fun row later isRows => reads_numeral (Text.row_prefix isRows) fits
  | symbol text =>
      exact oneLine rfl fun row later isRows => reads_symbol (Text.row_prefix isRows) fits
  | quoted quote content =>
      exact oneLine rfl fun row later isRows =>
        reads_quoted fits (fun member => (quoted quote content rfl _ member).1 rfl) row
  | lineComment content =>
      refine oneLine rfl fun row later isRows => ?_
      simp only [Token.fits, Bool.and_eq_true, Bool.not_eq_true'] at fits
      rw [row_eq_nil isRows fits.1.2 returns]
      exact reads_lineComment (openingLevel?_eq_none fits.2)
  | bracketed level content =>
      have shown := shows_bracketed (isBracketable_iff.mp fits) shows_
      rw [feeds_bracketed]
      rwa [← List.append_assoc content, ← List.append_assoc] at shown
  | bracketedComment level content =>
      have shown := shows_bracketedComment (isBracketable_iff.mp fits) shows_
      rw [feeds_bracketedComment]
      rwa [← List.append_assoc content, ← List.append_assoc] at shown
  | firstLine content => cases fits

theorem IsPlain.later {piece : Piece} {later : List Piece} (plain : IsPlain (piece :: later)) :
    IsPlain later where
  quoted quote content member := plain.quoted quote content (List.mem_cons_of_mem _ member)
  returns rest member := by
    refine plain.returns rest ?_
    rw [List.mem_tails] at member ⊢
    exact member.trans (List.suffix_append _ _)
  blanks member := plain.blanks (List.mem_cons_of_mem _ member)

/-- What stands between two quotes ends no line. -/
theorem IsPlain.isUnbroken_content {quote : Char} {content : List Char} {later : List Piece}
    (plain : IsPlain (.token (.quoted quote content) :: later))
    (isQuote : quote ≠ '\n') : IsUnbroken content := by
  have noFeed := plain.quoted quote content List.mem_cons_self
  intro char member
  refine ⟨fun isFeed => noFeed (isFeed ▸ member), ?_⟩
  rintro rfl
  obtain ⟨before, after, rfl⟩ := List.append_of_mem member
  have next := plain.returns ('\r' :: (after ++ [quote] ++ textOf later)) (by
    rw [List.mem_tails]
    exact ⟨quote :: before, by simp [Token.text]⟩) rfl
  cases after with
  | nil => exact isQuote (Option.some.inj next)
  | cons first after =>
      obtain rfl : first = '\n' := Option.some.inj next
      simp at noFeed

/-- **Scanned line by line, a source shows the types that its tokens make.** -/
theorem shows_pieces {pieces : List Piece} (isCut : isCut pieces = true) (plain : IsPlain pieces) :
    Shows (textOf pieces) (typesOf pieces) := by
  induction pieces with
  | nil => exact shows_nil
  | cons piece later ih =>
      cases piece with
      | blank char =>
          rw [Lua.isCut, Bool.and_eq_true] at isCut
          obtain ⟨isBlank, isCut⟩ := isCut
          have shown := ih isCut plain.later
          obtain ⟨first, types, isTypes⟩ := exists_typesOf later
          rw [textOf_blank, typesOf]
          by_cases isFeed : char = '\n'
          · rw [isFeed, if_pos rfl]
            rw [isTypes] at shown ⊢
            exact shown.feed
          · rw [if_neg isFeed]
            by_cases isReturn : char = '\r'
            · subst isReturn
              have next := plain.returns _ ((List.mem_tails _ _).mpr List.suffix_rfl) rfl
              obtain ⟨more, isMore⟩ := List.head?_eq_some_iff.mp next
              rw [textOf_blank, List.tail_cons] at isMore
              rw [isMore] at shown ⊢
              intro marks
              rw [Text.rows_return]
              exact shown marks
            · have unbroken : IsUnbroken [char] := by
                intro other member
                rw [List.mem_singleton.mp member]
                exact ⟨isFeed, isReturn⟩
              have isBlank' : Text.isAsciiBlank char = true := by
                have notTab : char ≠ '\x0b' :=
                  fun isTab => plain.blanks (isTab ▸ List.mem_cons_self)
                simpa [Lua.isBlank, Text.isAsciiBlank, isFeed, isReturn, notTab, or_assoc]
                  using isBlank
              have shown' := shown.after unbroken fun row _ _ => reads_blank isBlank' row
              rw [isTypes, raise, LineType.blank_join, ← isTypes] at shown'
              exact shown'
      | token token =>
          rw [Lua.isCut, Bool.and_eq_true] at isCut
          obtain ⟨fits, isCut⟩ := isCut
          refine shows_token fits ?_ ?_ (ih isCut plain.later)
          · rintro quote content rfl
            exact plain.isUnbroken_content (quote_notEnd fits).1
          · exact plain.later.returns _ ((List.mem_tails _ _).mpr List.suffix_rfl)

end LuaCoverage.Lua
