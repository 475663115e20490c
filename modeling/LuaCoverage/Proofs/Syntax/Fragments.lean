import LuaCoverage.Proofs.Syntax.LexicalRules

/-!
# Fragments of any text

A text that is no Lua source at all can still be cut by the lexical rules, as far as strings and
comments go. The rules for this are coarser than those for tokens, and they leave nothing over: a
*fragment* is a blank, a word, a string, a comment, or else a single character. Operators are cut
into their characters, and a numeral into characters and words. A string in quotes ends with its
line at the latest, and a string or comment in long brackets that is never closed takes the rest of
the text.

`Fragment.fits` says that the characters behind a fragment neither belong to it nor make it the
beginning of something else, and `isCut` that every fragment among some fits, so that the rules cut
the text of the fragments at just these places. Every text has such a cut (`exists_isSourceCut`).
-/

set_option autoImplicit false

namespace LuaCoverage.Lua

/-- The blanks that stand for no effect, line feeds included. -/
def blanks : List Char := [' ', '\t', '\n', '\r', '\x0c']

/-- The quotation marks. -/
def quotes : List Char := ['"', '\'']

/-- Whether some characters may stand behind a quotation mark, up to the next one of the same kind
if the string is closed and up to the end of the line if it is not. A backslash takes away the
meaning of the character behind it, though not that of a line end. -/
def isInQuotes (quote : Char) (closed : Bool) : List Char → Bool
  | [] => true
  | ['\\'] => !closed
  | '\\' :: escaped :: rest => escaped != '\n' && isInQuotes quote closed rest
  | first :: rest => first != quote && first != '\n' && isInQuotes quote closed rest

/-- Whether some characters may stand behind an opening long bracket, up to the closing one of its
level if the text in brackets is closed and up to the end of the whole text if it is not. -/
def isInBrackets (level : Nat) (closed : Bool) (content rest : List Char) : Bool :=
  if closed then isBracketable level content
  else rest.isEmpty && !decide (bracket ']' level <:+: content)

/-! ## Fragments -/

/-- A fragment of a text. -/
inductive Fragment where
  /-- A blank or the end of a line. -/
  | blank (char : Char)
  | word (text : List Char)
  /-- Any other character by itself. -/
  | symbol (char : Char)
  /-- A string in quotes, without these. -/
  | quoted (quote : Char) (content : List Char) (closed : Bool)
  /-- A string in long brackets, without these. -/
  | bracketed (level : Nat) (content : List Char) (closed : Bool)
  /-- A comment up to the end of its line, without the hyphens. -/
  | lineComment (content : List Char)
  /-- A comment in long brackets, without the hyphens and these. -/
  | bracketedComment (level : Nat) (content : List Char) (closed : Bool)
  /-- The first line of a text if it is for the operating system, without its number sign. -/
  | firstLine (content : List Char)
  deriving DecidableEq, Repr

namespace Fragment

/-- What closes a text, if it is closed. -/
def closing (closed : Bool) (mark : List Char) : List Char := if closed then mark else []

/-- The characters of a fragment. -/
def text : Fragment → List Char
  | blank char => [char]
  | word text => text
  | symbol char => [char]
  | quoted quote content closed => quote :: (content ++ closing closed [quote])
  | bracketed level content closed =>
      bracket '[' level ++ (content ++ closing closed (bracket ']' level))
  | lineComment content => '-' :: '-' :: content
  | bracketedComment level content closed =>
      '-' :: '-' :: (bracket '[' level ++ (content ++ closing closed (bracket ']' level)))
  | firstLine content => '#' :: content

/-- Whether the rules make a fragment of its characters where given characters follow. What may
stand only at the beginning of a text fits nowhere. -/
def fits (fragment : Fragment) (rest : List Char) : Bool :=
  match fragment with
  | blank char => blanks.contains char
  | word text =>
      text.head?.any isLetter && text.all continuesWord && !rest.head?.any continuesWord
  | symbol char =>
      !blanks.contains char && !isLetter char && !quotes.contains char
        && !(char == '-' && rest.head? == some '-') && !opensBracket (char :: rest)
  | quoted quote content closed =>
      quotes.contains quote && isInQuotes quote closed content
        && (closed || rest.head?.all (· == '\n'))
  | bracketed level content closed => isInBrackets level closed content rest
  | lineComment content =>
      content.all (· != '\n') && rest.head?.all (· == '\n') && !opensBracket content
  | bracketedComment level content closed => isInBrackets level closed content rest
  | firstLine _ => false

end Fragment

/-! ## Cuts -/

namespace Fragment

/-- The characters of some fragments. -/
def textOf (pieces : List Fragment) : List Char := pieces.flatMap text

@[simp]
theorem textOf_nil : textOf [] = [] := rfl

@[simp]
theorem textOf_cons (first : Fragment) (later : List Fragment) :
    textOf (first :: later) = first.text ++ textOf later := rfl

/-- Whether the rules cut the text of some fragments into these. -/
def isCut : List Fragment → Bool
  | [] => true
  | first :: later => first.fits (textOf later) && isCut later

/-- Whether the rules cut a whole text into some fragments: a text that begins with a number sign
begins with a line that is passed over. -/
def isSourceCut : List Fragment → Bool
  | .firstLine content :: later =>
      content.all (· != '\n') && (textOf later).head?.all (· == '\n') && isCut later
  | pieces => (textOf pieces).head? != some '#' && isCut pieces

end Fragment

/-! ## Every text has a cut -/

/-- An opening long bracket, by its level. -/
theorem opensBracket_iff {chars : List Char} :
    opensBracket chars = true ↔ ∃ level, bracket '[' level <+: chars := by
  constructor
  · intro opens
    unfold opensBracket at opens
    split at opens
    · rename_i rest
      obtain ⟨later, isRest⟩ := List.head?_eq_some_iff.mp (beq_iff_eq.mp opens)
      have equals : rest.takeWhile (· == '=') =
          List.replicate (rest.takeWhile (· == '=')).length '=' :=
        List.eq_replicate_iff.mpr ⟨rfl, fun char member =>
          beq_iff_eq.mp (List.all_eq_true.mp List.all_takeWhile char member)⟩
      refine ⟨(rest.takeWhile (· == '=')).length, later, ?_⟩
      rw [bracket, ← equals, List.cons_append, List.append_assoc, List.singleton_append, ← isRest,
        List.takeWhile_append_dropWhile]
    · cases opens
  · rintro ⟨level, later, rfl⟩
    have passed : (List.replicate level '=' ++ '[' :: later).dropWhile (· == '=') =
        '[' :: later := by
      rw [List.dropWhile_append_of_pos fun char member => by
        rw [List.eq_of_mem_replicate member]
        rfl]
      rfl
    rw [bracket, List.cons_append, List.append_assoc, List.singleton_append, opensBracket, passed]
    rfl

/-- What begins with an opening long bracket still does with more behind it. -/
theorem opensBracket_mono {chars more : List Char} (isPrefix : chars <+: more)
    (opens : opensBracket chars = true) : opensBracket more = true := by
  obtain ⟨level, starts⟩ := opensBracket_iff.mp opens
  exact opensBracket_iff.mpr ⟨level, starts.trans isPrefix⟩

/-- **A text in long brackets runs up to the first closing bracket**, or there is none. -/
theorem exists_isInBrackets (level : Nat) (inside : List Char) :
    ∃ content closed rest,
      inside = content ++ (Fragment.closing closed (bracket ']' level) ++ rest) ∧
        isInBrackets level closed content rest = true := by
  have found : (∃ content rest, inside = content ++ (bracket ']' level ++ rest) ∧
      isBracketable level content = true) ∨ ¬ bracket ']' level <:+: inside := by
    induction inside with
    | nil => exact .inr fun occurs => nomatch List.eq_nil_of_infix_nil occurs
    | cons first inside ih =>
        by_cases starts : bracket ']' level <+: first :: inside
        · obtain ⟨rest, isRest⟩ := starts
          refine .inl ⟨[], rest, isRest.symm, isBracketable_iff.mpr fun occurs => ?_⟩
          have shorter := occurs.length_le
          rw [List.nil_append, List.length_dropLast, bracket, List.length_cons] at shorter
          omega
        rcases ih with ⟨content, rest, rfl, isContent⟩ | nowhere
        · refine .inl ⟨first :: content, rest, rfl, isBracketable_iff.mpr fun occurs => ?_⟩
          rcases List.infix_cons_iff.mp occurs with begins | later
          · refine starts (begins.trans (List.cons_prefix_cons.mpr ⟨rfl, ?_⟩))
            exact (List.prefix_append_right_inj content).mpr
              ((List.dropLast_prefix _).trans (List.prefix_append _ _))
          · exact isBracketable_iff.mp isContent later
        · exact .inr fun occurs => (List.infix_cons_iff.mp occurs).elim starts nowhere
  rcases found with ⟨content, rest, rfl, isContent⟩ | nowhere
  · exact ⟨content, true, rest, rfl, isContent⟩
  · refine ⟨inside, false, [], by simp [Fragment.closing], ?_⟩
    simp [isInBrackets, nowhere]

/-- No closing bracket begins within a text in long brackets. -/
theorem not_prefix_of_isInBrackets {level : Nat} {closed : Bool} {content rest : List Char}
    (isContent : isInBrackets level closed content rest = true) {inside : List Char}
    (isSuffix : inside <:+ content) (filled : inside ≠ []) :
    ¬ bracket ']' level <+: inside ++ (Fragment.closing closed (bracket ']' level) ++ rest) := by
  cases closed with
  | true =>
      intro starts
      refine isBracketable_iff.mp isContent ?_
      have begins : bracket ']' level <+: inside ++ (bracket ']' level).dropLast := by
        refine List.prefix_of_prefix_length_le starts
          ((List.prefix_append_right_inj inside).mpr ?_) ?_
        · exact (List.dropLast_prefix _).trans (List.prefix_append _ _)
        · have some_ := List.length_pos_of_ne_nil filled
          simp only [List.length_append, List.length_dropLast]
          omega
      obtain ⟨before, rfl⟩ := isSuffix
      rw [List.append_assoc]
      exact begins.isInfix.trans (List.suffix_append _ _).isInfix
  | false =>
      intro starts
      simp only [isInBrackets, Bool.false_eq_true, if_false, Bool.and_eq_true, List.isEmpty_iff,
        Bool.not_eq_true', decide_eq_false_iff_not] at isContent
      obtain ⟨rfl, nowhere⟩ := isContent
      simp only [Fragment.closing, Bool.false_eq_true, if_false, List.append_nil] at starts
      exact nowhere (starts.isInfix.trans isSuffix.isInfix)

/-- **A string in quotes runs up to the first quotation mark**, or up to the end of its line. -/
theorem exists_isInQuotes (quote : Char) (inside : List Char) :
    ∃ content closed rest, inside = content ++ (Fragment.closing closed [quote] ++ rest) ∧
      isInQuotes quote closed content = true ∧
        (closed || rest.head?.all (· == '\n')) = true := by
  induction isLength : inside.length using Nat.strong_induction_on generalizing inside with
  | _ length ih =>
  cases inside with
  | nil => exact ⟨[], false, [], rfl, rfl, rfl⟩
  | cons first rest =>
      rw [List.length_cons] at isLength
      by_cases isEscape : first = '\\'
      · subst isEscape
        cases rest with
        | nil => exact ⟨['\\'], false, [], rfl, rfl, rfl⟩
        | cons escaped rest =>
            by_cases isFeed : escaped = '\n'
            · subst isFeed
              exact ⟨['\\'], false, '\n' :: rest, rfl, rfl, rfl⟩
            · rw [List.length_cons] at isLength
              obtain ⟨content, closed, later, rfl, isContent, ends⟩ :=
                ih _ (by omega) rest rfl
              refine ⟨'\\' :: escaped :: content, closed, later, rfl, ?_, ends⟩
              rw [isInQuotes, isContent, Bool.and_true, bne_iff_ne]
              exact isFeed
      by_cases isQuote : first = quote
      · subst isQuote
        exact ⟨[], true, rest, rfl, rfl, rfl⟩
      by_cases isFeed : first = '\n'
      · subst isFeed
        exact ⟨[], false, '\n' :: rest, rfl, rfl, rfl⟩
      · obtain ⟨content, closed, later, rfl, isContent, ends⟩ := ih _ (by omega) rest rfl
        refine ⟨first :: content, closed, later, rfl, ?_, ends⟩
        rw [isInQuotes.eq_4 quote closed first content (fun isFirst _ => isEscape isFirst)
          (fun _ _ isFirst _ => isEscape isFirst)]
        simp [isContent, isQuote, isFeed]

namespace Fragment

/-- A fragment that fits anywhere has characters. -/
theorem text_ne_nil {fragment : Fragment} {rest : List Char}
    (fits : fragment.fits rest = true) : fragment.text ≠ [] := by
  cases fragment with
  | word text =>
      rintro isText
      obtain rfl : text = [] := isText
      cases fits
  | _ => nofun

/-- The rest of a line behind some characters. -/
theorem head_dropWhile_feed (chars : List Char) :
    (chars.dropWhile (· != '\n')).head?.all (· == '\n') = true := by
  cases isRest : chars.dropWhile (· != '\n') with
  | nil => rfl
  | cons first rest =>
      have stops := List.head?_dropWhile_not (· != '\n') chars
      rw [isRest, List.head?_cons] at stops
      simpa using stops

/-- **A text that is not empty begins with a fragment.** -/
theorem exists_fits (first : Char) (later : List Char) :
    ∃ fragment rest, first :: later = text fragment ++ rest ∧ fragment.fits rest = true := by
  by_cases isBlank : blanks.contains first = true
  · exact ⟨.blank first, later, rfl, isBlank⟩
  by_cases isComment : first = '-' ∧ later.head? = some '-'
  · obtain ⟨rfl, isHyphen⟩ := isComment
    obtain ⟨body, rfl⟩ := List.head?_eq_some_iff.mp isHyphen
    by_cases opens : opensBracket body = true
    · obtain ⟨level, inside, rfl⟩ := opensBracket_iff.mp opens
      obtain ⟨content, closed, rest, rfl, fits⟩ := exists_isInBrackets level inside
      exact ⟨.bracketedComment level content closed, rest, by simp [text], fits⟩
    · refine ⟨.lineComment (body.takeWhile (· != '\n')), body.dropWhile (· != '\n'), ?_, ?_⟩
      · rw [text, List.cons_append, List.cons_append, List.takeWhile_append_dropWhile]
      · have noBracket : opensBracket (body.takeWhile (· != '\n')) = false :=
          Bool.eq_false_iff.mpr (mt (opensBracket_mono (List.takeWhile_prefix _)) opens)
        rw [fits, List.all_takeWhile, head_dropWhile_feed, noBracket]
        rfl
  by_cases isQuote : quotes.contains first = true
  · obtain ⟨content, closed, rest, rfl, isContent, ends⟩ := exists_isInQuotes first later
    refine ⟨.quoted first content closed, rest, by simp [text], ?_⟩
    rw [fits, isQuote, isContent, ends]
    rfl
  by_cases opens : opensBracket (first :: later) = true
  · obtain ⟨level, inside, isText⟩ := opensBracket_iff.mp opens
    obtain ⟨content, closed, rest, rfl, fits⟩ := exists_isInBrackets level inside
    exact ⟨.bracketed level content closed, rest, by rw [← isText]; simp [text], fits⟩
  by_cases isWord : isLetter first = true
  · refine ⟨.word (first :: later.takeWhile continuesWord), later.dropWhile continuesWord, ?_, ?_⟩
    · rw [text, List.cons_append, List.takeWhile_append_dropWhile]
    · have continues : continuesWord first = true := by rw [continuesWord, isWord]; rfl
      have ends : (later.dropWhile continuesWord).head?.any continuesWord = false := by
        have stops := List.head?_dropWhile_not continuesWord later
        cases isRest : (later.dropWhile continuesWord).head? with
        | none => rfl
        | some next => simpa [isRest] using stops
      rw [fits, List.head?_cons, List.all_cons, continues, List.all_takeWhile, ends]
      simpa using isWord
  · refine ⟨.symbol first, later, rfl, ?_⟩
    have noComment : (first == '-' && later.head? == some '-') = false := by
      rw [← Bool.not_eq_true, Bool.and_eq_true, beq_iff_eq, beq_iff_eq]
      exact isComment
    rw [Bool.not_eq_true] at isBlank isQuote opens isWord
    rw [fits, isBlank, isWord, isQuote, noComment, opens]
    rfl

/-- Every text is cut by the rules. -/
theorem exists_isCut (chars : List Char) :
    ∃ pieces, isCut pieces = true ∧ textOf pieces = chars := by
  induction isLength : chars.length using Nat.strong_induction_on generalizing chars with
  | _ length ih =>
  cases chars with
  | nil => exact ⟨[], rfl, rfl⟩
  | cons first later =>
      obtain ⟨fragment, rest, isText, fits⟩ := exists_fits first later
      have filled := List.length_pos_of_ne_nil (text_ne_nil fits)
      have shorter : rest.length < length := by
        rw [← isLength, isText, List.length_append]
        omega
      obtain ⟨pieces, isCut, rfl⟩ := ih _ shorter rest rfl
      exact ⟨fragment :: pieces, by rw [Fragment.isCut, fits, isCut]; rfl, isText.symm⟩

/-- Some fragments whose text does not begin with a number sign are cut as a whole text if they are
cut at all. -/
theorem isSourceCut_of_isCut {pieces : List Fragment} (isCut : isCut pieces = true)
    (noSign : (textOf pieces).head? ≠ some '#') : isSourceCut pieces = true := by
  unfold isSourceCut
  split
  · exact absurd rfl noSign
  · rw [isCut, Bool.and_true, bne_iff_ne]
    exact noSign

/-- **Every text is cut by the rules**, whatever it begins with. -/
theorem exists_isSourceCut (chars : List Char) :
    ∃ pieces, isSourceCut pieces = true ∧ textOf pieces = chars := by
  by_cases isSign : chars.head? = some '#'
  · obtain ⟨line, rfl⟩ := List.head?_eq_some_iff.mp isSign
    obtain ⟨pieces, isCut, isText⟩ := exists_isCut (line.dropWhile (· != '\n'))
    refine ⟨.firstLine (line.takeWhile (· != '\n')) :: pieces, ?_, ?_⟩
    · rw [isSourceCut, isText, isCut, List.all_takeWhile, head_dropWhile_feed]
      rfl
    · rw [textOf_cons, isText, text, List.cons_append, List.takeWhile_append_dropWhile]
  · obtain ⟨pieces, isCut, rfl⟩ := exists_isCut chars
    exact ⟨pieces, isSourceCut_of_isCut isCut isSign, rfl⟩

end Fragment

end LuaCoverage.Lua
