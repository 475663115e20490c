import LuaCoverage.Proofs.Analysis.LineScans
import LuaCoverage.Proofs.Syntax.Fragments
import LuaCoverage.Proofs.Text.Bytes

/-!
# Scans of bytes

A scan takes a line character by character, but whatever it looks for has seven bits. So it can be
run on the bytes of a line as well: it reads the same (`Lexical.readLine_byteChars`), although it
takes a character of several bytes for as many symbols, and although a backslash takes away the
meaning of the first of these bytes only.

A scan of bytes never stops within a character to look at what it has passed. The only texts that it
takes out of a line are words, and a run of word characters among the bytes begins and ends between
characters of the line (`Lexical.exists_of_word`).
-/

set_option autoImplicit false

namespace LuaCoverage.Lexical

open Text (byteChars IsAscii)
open Lua (bracket opensBracket isBracketable isInBrackets)

/-! ## Bytes of characters with more than seven bits -/

section High

variable {byte : Char} (high : 128 ≤ byte.toNat)

include high

theorem ne_of_high {char : Char} (isAscii : char.toNat < 128) : byte ≠ char := by
  rintro rfl
  omega

theorem isSimple_of_high : isSimple byte = true := by
  simp [isSimple, ne_of_high high]

theorem continuesWord_of_high : continuesWord byte = false := by
  rw [← Bool.not_eq_true, continuesWord, Char.isAlphanum, Bool.or_eq_true, Bool.or_eq_true,
    isAlpha_iff_toNat, Char.isDigit_iff_toNat, beq_iff_eq]
  rintro ((letter | digit) | isScore)
  · omega
  · have small : byte.toNat ≤ 57 := digit.2
    omega
  · exact ne_of_high high (by decide) isScore

theorem startsWord_of_high : startsWord byte = false := by
  have noWord := continuesWord_of_high high
  rw [continuesWord, Char.isAlphanum, Bool.or_eq_false_iff, Bool.or_eq_false_iff] at noWord
  rw [startsWord, noWord.1.1, noWord.2]
  rfl

theorem isCloser_of_high : isCloser byte = false := by
  simp [isCloser, ne_of_high high]

end High

/-- The bytes of a character with more than seven bits are code. -/
theorem scan_high {bytes : List Char} (high : ∀ byte ∈ bytes, 128 ≤ byte.toNat)
    (filled : bytes ≠ []) (rest : List Char) (marks : Marks) :
    scan (bytes ++ rest) 0 marks = scan rest 0 { marks with code := true } := by
  induction bytes generalizing marks with
  | nil => exact absurd rfl filled
  | cons first bytes ih =>
      have own := high first List.mem_cons_self
      rw [List.cons_append, scan_symbol (isPlainStart_of_simple _ (isSimple_of_high own))
        (startsWord_of_high own), isCloser_of_high own]
      by_cases isLast : bytes = []
      · subst isLast
        rfl
      · exact ih (fun byte member => high byte (List.mem_cons_of_mem _ member)) isLast _

/-- They are passed over in a string in quotes. -/
theorem quotedLength_high {bytes : List Char} (high : ∀ byte ∈ bytes, 128 ≤ byte.toNat)
    {quote : Char} (isQuote : quote.toNat < 128) (rest : List Char) :
    quotedLength quote (bytes ++ rest) = quotedLength quote rest + bytes.length := by
  induction bytes with
  | nil => rfl
  | cons first bytes ih =>
      have own := high first List.mem_cons_self
      have noEscape : first ≠ '\\' := ne_of_high own (by decide)
      have noQuote : (first == quote) = false := beq_false_of_ne (ne_of_high own isQuote)
      rw [List.cons_append, quotedLength.eq_3 quote first _ fun _ _ same => absurd same noEscape,
        noQuote, if_neg Bool.false_ne_true,
        ih fun byte member => high byte (List.mem_cons_of_mem _ member), List.length_cons]
      omega

/-! ## Looking ahead -/

theorem isAscii_bracket {square : Char} (isAscii : square.toNat < 128) (level : Nat) :
    IsAscii (bracket square level) := by
  intro char member
  simp only [bracket, List.mem_cons, List.mem_append, List.mem_replicate, List.not_mem_nil,
    or_false] at member
  rcases member with rfl | ⟨-, rfl⟩ | rfl
  · exact isAscii
  · decide
  · exact isAscii

theorem opensBracket_byteChars (chars : List Char) :
    opensBracket (byteChars chars) = opensBracket chars := by
  rw [Bool.eq_iff_iff, Lua.opensBracket_iff, Lua.opensBracket_iff]
  exact exists_congr fun level => Text.prefix_byteChars_iff (isAscii_bracket (by decide) level)

theorem isInBrackets_byteChars (level : Nat) (closed : Bool) (content rest : List Char) :
    isInBrackets level closed (byteChars content) (byteChars rest) =
      isInBrackets level closed content rest := by
  have isAscii := isAscii_bracket (show ']'.toNat < 128 by decide) level
  have filled : bracket ']' level ≠ [] := List.cons_ne_nil _ _
  cases closed with
  | true =>
      have isTail : byteChars (bracket ']' level).dropLast = (bracket ']' level).dropLast :=
        Text.byteChars_eq_self fun char member => isAscii char (List.mem_of_mem_dropLast member)
      show isBracketable level (byteChars content) = isBracketable level content
      rw [Bool.eq_iff_iff, Lua.isBracketable_iff, Lua.isBracketable_iff, ← isTail,
        ← Text.byteChars_append, Text.infix_byteChars_iff isAscii filled, isTail]
  | false =>
      have isEmpty : (byteChars rest).isEmpty = rest.isEmpty := by
        rw [Bool.eq_iff_iff, List.isEmpty_iff, List.isEmpty_iff]
        exact ⟨Text.eq_nil_of_byteChars, fun nothing => by rw [nothing]; rfl⟩
      simp only [isInBrackets, Bool.false_eq_true, if_false, isEmpty,
        Text.infix_byteChars_iff isAscii filled]

theorem head_byteChars {chars : List Char} {char : Char} (isAscii : char.toNat < 128) :
    (byteChars chars).head? = some char ↔ chars.head? = some char := by
  have single : IsAscii [char] := fun other member => List.mem_singleton.mp member ▸ isAscii
  have starts (text : List Char) : text.head? = some char ↔ [char] <+: text := by
    rw [List.head?_eq_some_iff]
    exact exists_congr fun _ => eq_comm
  rw [starts, starts, Text.prefix_byteChars_iff single]

/-! ## Texts in quotes and long brackets -/

/-- **Inside a text in long brackets** a scan passes on to the end of it. -/
theorem readOpen_content {context : OpenText} {closed : Bool} {content rest : List Char}
    (isContent : isInBrackets context.level closed content rest = true) (marks : Marks) :
    readOpen context marks
        (content ++ (Lua.Fragment.closing closed (bracket ']' context.level) ++ rest)) =
      if closed then scan rest 0 marks else (marks, context) := by
  have passed (inside : List Char) (isSuffix : inside <:+ content) :
      readOpen context marks
          (inside ++ (Lua.Fragment.closing closed (bracket ']' context.level) ++ rest)) =
        readOpen context marks
          (Lua.Fragment.closing closed (bracket ']' context.level) ++ rest) := by
    induction inside with
    | nil => rfl
    | cons first inside ih =>
        have notHere :=
          Lua.not_prefix_of_isInBrackets isContent isSuffix (List.cons_ne_nil _ _)
        rw [List.cons_append] at notHere ⊢
        rw [readOpen_cons notHere]
        exact ih ((List.suffix_cons first inside).trans isSuffix)
  rw [passed content List.suffix_rfl]
  cases closed with
  | true => exact readOpen_bracket context marks rest
  | false =>
      simp only [isInBrackets, Bool.false_eq_true, if_false, Bool.and_eq_true,
        List.isEmpty_iff] at isContent
      rw [isContent.1]
      rfl

/-- What is left of the bytes of a line behind a string in quotes. -/
theorem drop_quotedLength_byteChars {quote : Char} (isQuote : quote = '"' ∨ quote = '\'')
    (inside : List Char) :
    (byteChars inside).drop (quotedLength quote (byteChars inside)) =
      byteChars (inside.drop (quotedLength quote inside)) := by
  have isAscii : quote.toNat < 128 := by rcases isQuote with rfl | rfl <;> decide
  have noEscape : quote ≠ '\\' := by rcases isQuote with rfl | rfl <;> decide
  fun_induction quotedLength quote inside with
  | case1 => rfl
  | case2 escaped rest ih =>
      rw [Text.byteChars_cons_ascii (by decide), Text.byteChars_cons]
      rcases Text.cases_byteChars escaped with ⟨-, single⟩ | ⟨-, filled, high⟩
      · rw [single]
        exact ih
      · -- the backslash takes away the meaning of the first byte, and the others have none
        obtain ⟨first, bytes, isBytes⟩ := List.exists_cons_of_ne_nil filled
        rw [isBytes] at high ⊢
        have later : ∀ byte ∈ bytes, 128 ≤ byte.toNat :=
          fun byte member => high byte (List.mem_cons_of_mem _ member)
        rw [List.cons_append, quotedLength, quotedLength_high later isAscii]
        show (bytes ++ byteChars rest).drop _ = _
        rw [Nat.add_comm, ← List.drop_drop, List.drop_left]
        exact ih
  | case3 first rest notEscape isFirst =>
      obtain rfl := eq_of_beq isFirst
      rw [Text.byteChars_cons_ascii isAscii,
        quotedLength.eq_3 first first _ fun _ _ same => absurd same noEscape, if_pos isFirst]
      rfl
  | case4 first rest notEscape notFirst ih =>
      rcases Text.cases_byteChars first with ⟨small, -⟩ | ⟨-, -, high⟩
      · have notEscape' (head : Char) (more : List Char) (isEscape : first = '\\')
            (isRest : byteChars rest = head :: more) : False := by
          cases rest with
          | nil => cases isRest
          | cons next rest => exact notEscape next rest isEscape rfl
        rw [Text.byteChars_cons_ascii small, quotedLength.eq_3 quote first _ notEscape',
          if_neg notFirst]
        exact ih
      · rw [Text.byteChars_cons, quotedLength_high high isAscii, Nat.add_comm, ← List.drop_drop,
          List.drop_left]
        exact ih

/-- Inside a text in long brackets it makes no difference whether bytes are read, if it makes none
behind the text. -/
theorem readOpen_byteChars {inside : List Char}
    (behind : ∀ (rest : List Char) (marks : Marks), rest.length ≤ inside.length →
      scan (byteChars rest) 0 marks = scan rest 0 marks) (context : OpenText) (marks : Marks) :
    readOpen context marks (byteChars inside) = readOpen context marks inside := by
  obtain ⟨content, closed, rest, rfl, isContent⟩ := Lua.exists_isInBrackets context.level inside
  have isClosing : byteChars (Lua.Fragment.closing closed (bracket ']' context.level)) =
      Lua.Fragment.closing closed (bracket ']' context.level) := by
    cases closed with
    | true => exact Text.byteChars_eq_self (isAscii_bracket (by decide) _)
    | false => rfl
  have shorter : rest.length ≤
      (content ++ (Lua.Fragment.closing closed (bracket ']' context.level) ++ rest)).length := by
    simp only [List.length_append]
    omega
  rw [Text.byteChars_append, Text.byteChars_append, isClosing, readOpen_content isContent,
    readOpen_content ((isInBrackets_byteChars ..).trans isContent), behind rest marks shorter]

/-- The rest of a word, up to where it ends. -/
theorem exists_word (chars : List Char) :
    ∃ others rest, chars = others ++ rest ∧ (∀ char ∈ others, continuesWord char = true) ∧
      ∀ char, rest.head? = some char → continuesWord char = false := by
  refine ⟨chars.takeWhile continuesWord, chars.dropWhile continuesWord,
    List.takeWhile_append_dropWhile.symm,
    fun char => List.all_eq_true.mp List.all_takeWhile char, fun char isHead => ?_⟩
  have stops := List.head?_dropWhile_not continuesWord chars
  rw [isHead] at stops
  simpa using stops

/-! ## Scans -/

/-- **A scan of bytes comes to the same as a scan of characters.** The induction is on the length of
what is still to be scanned, with a case for each thing that a scan meets. -/
theorem scan_byteChars (chars : List Char) (marks : Marks) :
    scan (byteChars chars) 0 marks = scan chars 0 marks := by
  induction isLength : chars.length using Nat.strong_induction_on generalizing chars marks with
  | _ length ih =>
  have behind (rest : List Char) (marks : Marks) (shorter : rest.length < chars.length) :
      scan (byteChars rest) 0 marks = scan rest 0 marks :=
    ih rest.length (isLength ▸ shorter) rest marks rfl
  cases chars with
  | nil => rfl
  | cons first later =>
  rcases Text.cases_byteChars first with ⟨small, -⟩ | ⟨large, filled, high⟩
  case inr =>
    rw [Text.byteChars_cons, scan_high high filled, behind later _ (by simp),
      scan_symbol (isPlainStart_of_simple _ (isSimple_of_high large)) (startsWord_of_high large),
      isCloser_of_high large]
    rfl
  case inl =>
  by_cases isBlank : Text.isAsciiBlank first = true
  · rw [Text.byteChars_cons_ascii small, scan_blank isBlank, scan_blank isBlank,
      behind later marks (by simp)]
  by_cases isComment : first = '-' ∧ later.head? = some '-'
  · obtain ⟨rfl, isHyphen⟩ := isComment
    obtain ⟨body, rfl⟩ := List.head?_eq_some_iff.mp isHyphen
    rw [Text.byteChars_cons_ascii small, Text.byteChars_cons_ascii small]
    by_cases opens : opensBracket body = true
    · obtain ⟨level, inside, rfl⟩ := Lua.opensBracket_iff.mp opens
      rw [Text.byteChars_append, Text.byteChars_eq_self (isAscii_bracket (by decide) level),
        scan_bracketedComment, scan_bracketedComment, readOpen_byteChars fun rest marks shorter =>
          behind rest marks (by simp only [List.length_cons, List.length_append]; omega)]
    · rw [Bool.not_eq_true] at opens
      rw [scan_lineComment (openingLevel?_eq_none opens), scan_lineComment
        (openingLevel?_eq_none ((opensBracket_byteChars body).trans opens))]
  by_cases isQuote : first = '"' ∨ first = '\''
  · rw [Text.byteChars_cons_ascii small, scan_quote isQuote, scan_quote isQuote,
      drop_quotedLength_byteChars isQuote, behind _ _ (by
        rw [List.length_drop, List.length_cons]
        omega)]
  by_cases opens : opensBracket (first :: later) = true
  · obtain ⟨level, inside, isText⟩ := Lua.opensBracket_iff.mp opens
    rw [← isText] at behind ⊢
    rw [Text.byteChars_append, Text.byteChars_eq_self (isAscii_bracket (by decide) level),
      scan_bracketed, scan_bracketed, readOpen_byteChars fun rest marks shorter =>
        behind rest marks (by rw [List.length_append, length_bracket]; omega)]
  have plain : IsPlainStart first later ∧ IsPlainStart first (byteChars later) := by
    have noBracket := (opensBracket_byteChars (first :: later)).trans (Bool.eq_false_iff.mpr opens)
    rw [Text.byteChars_cons_ascii small] at noBracket
    rw [Bool.not_eq_true] at isBlank opens
    exact ⟨⟨isBlank, fun isHyphen isHead => isComment ⟨isHyphen, isHead⟩, not_or.mp isQuote,
        openingLevel?_eq_none opens⟩,
      ⟨isBlank, fun isHyphen isHead => isComment ⟨isHyphen, (head_byteChars (by decide)).mp isHead⟩,
        not_or.mp isQuote, openingLevel?_eq_none noBracket⟩⟩
  rw [Text.byteChars_cons_ascii small]
  by_cases isWord : startsWord first = true
  · obtain ⟨others, rest, rfl, continues, ends⟩ := exists_word later
    have isAscii : IsAscii others := by
      intro char member
      by_contra large
      exact Bool.false_ne_true
        ((continuesWord_of_high (by omega)).symm.trans (continues char member))
    have ends' (char : Char) (isHead : (byteChars rest).head? = some char) :
        continuesWord char = false := by
      by_cases isSmall : char.toNat < 128
      · exact ends char ((head_byteChars isSmall).mp isHead)
      · exact continuesWord_of_high (by omega)
    rw [Text.byteChars_append, Text.byteChars_eq_self isAscii] at plain ⊢
    rw [scan_word plain.1 isWord continues ends, scan_word plain.2 isWord continues ends',
      behind rest _ (by
        rw [List.length_cons, List.length_append]
        omega)]
  · rw [Bool.not_eq_true] at isWord
    rw [scan_symbol plain.1 isWord, scan_symbol plain.2 isWord, behind later _ (by simp)]

/-- Whether bytes are read makes no difference inside a text in long brackets, either. -/
theorem readLine_byteChars (line : List Char) (context : OpenText) :
    readLine (byteChars line) context = readLine line context := by
  have inside {marks : Marks} (within : IsWithin context marks) :
      readLine (byteChars line) context = readLine line context := by
    rw [within, within, readOpen_byteChars fun rest marks _ => scan_byteChars rest marks]
  cases inComment : context.inComment with
  | true => exact inside (isWithin_of_inComment inComment)
  | false =>
      cases inString : context.inString with
      | true => exact inside (isWithin_of_inString inComment inString)
      | false =>
          simp only [readLine, inComment, inString, Bool.false_eq_true, if_false, scan_byteChars]

/-- **A word among the bytes of a line begins and ends between characters.** -/
theorem exists_of_word {line before word after : List Char}
    (isWord : ∀ byte ∈ word, continuesWord byte = true) (filled : word ≠ [])
    (same : byteChars line = before ++ (word ++ after)) :
    ∃ before' after', line = before' ++ (word ++ after') ∧ byteChars before' = before ∧
      byteChars after' = after := by
  refine Text.exists_of_byteChars (fun byte member => ?_) filled same
  by_contra large
  exact Bool.false_ne_true ((continuesWord_of_high (by omega)).symm.trans (isWord byte member))

end LuaCoverage.Lexical
