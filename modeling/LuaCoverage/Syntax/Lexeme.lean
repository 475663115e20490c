import LuaCoverage.Syntax.LongBracket

/-!
# Lengths of tokens

Each function here looks at the characters that are left of a source and says how many of them the
next token of one kind takes. Which kinds are possible at a place is for the grammar to know. Words
are not divided into names and keywords here either, because a word is a keyword only where that
keyword can stand.
-/

set_option autoImplicit false

namespace LuaCoverage.Syntax.Lexeme

/-! ## Characters -/

/-- The characters that may stand between tokens. -/
def isBlank (char : Char) : Bool :=
  char == ' ' || char == '\t' || char == '\n' || char == '\x0b' || char == '\x0c' || char == '\r'

/-- The control characters of Unicode. -/
def isControl (char : Char) : Bool :=
  char.toNat < 0x20 || (0x7f ≤ char.toNat && char.toNat < 0xa0)

/-- The characters that belong to operators, punctuation and strings. -/
def punctuation : List Char := "+-*/%^#&~|<>=()\x7b\x7d[];:,.\\'\"".toList

/-- The characters that may continue a word. -/
def continuesWord (char : Char) : Bool :=
  !isControl char && !isBlank char && !punctuation.contains char

/-- The characters that may start a word. -/
def startsWord (char : Char) : Bool := continuesWord char && !char.isDigit

/-- The word that starts here; no characters if none does. -/
def word : List Char → List Char
  | [] => []
  | first :: rest => if startsWord first then first :: rest.takeWhile continuesWord else []

/-! ## Numbers -/

/-- The digits of hexadecimal numbers. -/
def isHexDigit (char : Char) : Bool :=
  char.isDigit || ('a' ≤ char && char ≤ 'f') || ('A' ≤ char && char ≤ 'F')

/-- How many characters the suffix of a whole number takes, if one is there. -/
def wholeSuffix? (chars : List Char) : Option Nat :=
  match (chars.take 3).map Char.toLower with
  | ['u', 'l', 'l'] => some 3
  | 'l' :: 'l' :: _ => some 2
  | _ => none

/-- How many characters an exponent takes; none if it is not complete. -/
def exponentLength (mark : Char) (chars : List Char) : Nat :=
  match chars with
  | first :: rest =>
      if first.toLower == mark then
        let sign := match rest with
          | '+' :: _ => 1
          | '-' :: _ => 1
          | _ => 0
        let digits := ((rest.drop sign).takeWhile Char.isDigit).length
        if digits = 0 then 0 else 1 + sign + digits
      else 0
  | [] => 0

/-- How many characters a number takes whose digits are of one kind and whose exponent has a given
mark; none if there is no number. -/
def numeralLength (isDigit : Char → Bool) (mark : Char) (chars : List Char) : Nat :=
  let whole := (chars.takeWhile isDigit).length
  let afterWhole := chars.drop whole
  let fraction := match afterWhole with
    | '.' :: rest => 1 + (rest.takeWhile isDigit).length
    | _ => 0
  if whole = 0 ∧ fraction < 2 then 0
  else
    let mantissa := whole + fraction
    let power := exponentLength mark (chars.drop mantissa)
    let scaled := mantissa + power
    let imaginary := if (chars.drop scaled).head?.map Char.toLower == some 'i' then 1 else 0
    match wholeSuffix? afterWhole with
    | some suffix =>
        if whole = 0 then scaled + imaginary else max (whole + suffix) (scaled + imaginary)
    | none => scaled + imaginary

/-- How many characters the number that starts here takes; none if no number starts here. -/
def numberLength (chars : List Char) : Nat :=
  let decimal := numeralLength Char.isDigit 'e' chars
  match chars with
  | '0' :: mark :: rest =>
      if mark == 'x' || mark == 'X' then
        let digits := numeralLength isHexDigit 'p' rest
        if digits = 0 then decimal else 2 + digits
      else decimal
  | _ => decimal

/-! ## Comments -/

/-- How many characters the bracketed comment takes that starts here. The outer answer is missing if
none starts, the inner one if it is never closed. -/
def bracketedCommentLength? : List Char → Option (Option Nat)
  | '-' :: '-' :: rest =>
      (BracketedText.atStart? rest).map fun text => text.map fun text => text.length + 2
  | _ => none

/-- How many characters the bracketed comment takes that starts here after blanks. The answers are
missing as above. -/
def innerCommentLength? (chars : List Char) : Option (Option Nat) :=
  let blanks := (chars.takeWhile isBlank).length
  (bracketedCommentLength? (chars.drop blanks)).map fun length => length.map (· + blanks)

/-- A bracketed comment takes at least its two hyphens. -/
theorem two_le_of_bracketedComment {chars : List Char} {length : Nat}
    (found : bracketedCommentLength? chars = some (some length)) :
    2 ≤ length ∧ 2 ≤ chars.length := by
  unfold bracketedCommentLength? at found
  split at found
  · rename_i rest
    cases opened : BracketedText.atStart? rest with
    | none => simp [opened] at found
    | some closed =>
        cases closed with
        | none => simp [opened] at found
        | some text =>
            simp only [opened, Option.map_some, Option.some.injEq] at found
            simp only [List.length_cons]
            omega
  · simp at found

/-- After a bracketed comment fewer characters are left. -/
theorem length_drop_lt_of_innerComment {chars : List Char} {length : Nat}
    (found : innerCommentLength? chars = some (some length)) :
    (chars.drop length).length < chars.length := by
  unfold innerCommentLength? at found
  generalize (chars.takeWhile isBlank).length = blanks at found
  cases comment : bracketedCommentLength? (chars.drop blanks) with
  | none => simp [comment] at found
  | some closed =>
      cases closed with
      | none => simp [comment] at found
      | some inner =>
          have bounds := two_le_of_bracketedComment comment
          simp only [comment, Option.map_some, Option.some.injEq] at found
          simp only [List.length_drop] at bounds ⊢
          omega

/-- The characters up to the end of the line. -/
def restOfLine (chars : List Char) : List Char :=
  chars.takeWhile fun char => char != '\n' && char != '\r'

/-- The rest of a line is no longer than all that is left. -/
theorem length_restOfLine_le (chars : List Char) : (restOfLine chars).length ≤ chars.length :=
  (List.takeWhile_prefix _).length_le

/-- How many characters remain of some line comments of which each stands inside the one before, in
the characters after the two hyphens of the innermost one. Before the text of a line comment there
may be bracketed comments, and these may stand on later lines. Two hyphens alone up to the end of
the line are not its text but a further line comment inside it. -/
def lineCommentsLength? (nested : Nat) (chars : List Char) : Option Nat :=
  match nested with
  | 0 => some 0
  | outer + 1 =>
      match found : innerCommentLength? chars with
      | some none => none
      | some (some length) =>
          have := length_drop_lt_of_innerComment found
          (lineCommentsLength? (outer + 1) (chars.drop length)).map (· + length)
      | none =>
          if hyphens : restOfLine chars = ['-', '-'] then
            (lineCommentsLength? (outer + 2) (chars.drop 2)).map (· + 2)
          else
            let text := (restOfLine chars).length
            (lineCommentsLength? outer (chars.drop text)).map (· + text)
termination_by chars.length + nested
decreasing_by
  · omega
  · have enough := length_restOfLine_le chars
    simp only [hyphens, List.length_cons, List.length_nil] at enough
    simp only [List.length_drop]
    omega
  · simp only [List.length_drop]
    omega

/-- How many characters a single opening bracket and the equals signs after it take, if they stand
here. -/
def openingPartLength : List Char → Nat
  | '[' :: rest => 1 + (rest.takeWhile (· == '=')).length
  | _ => 0

/-- How many characters the comment that starts here takes. Where a string could stand as well, what
looks like the beginning of a long bracket may come before a bracketed comment and belongs to it.
The outer answer is missing if no comment starts, the inner one if it is never closed. -/
def commentLength? (beforeString : Bool) (chars : List Char) : Option (Option Nat) :=
  let lead := if beforeString then openingPartLength chars else 0
  match bracketedCommentLength? (chars.drop lead) with
  | some length => some (length.map (· + lead))
  | none =>
      match chars with
      | '-' :: '-' :: rest =>
          some ((lineCommentsLength? 1 rest).map (· + 2))
      | _ => none

/-! ## Strings -/

/-- How many characters an escape takes after its backslash; none if it is not a known one. -/
def escapeLength? : List Char → Option Nat
  | [] => none
  | 'x' :: first :: second :: _ => if isHexDigit first && isHexDigit second then some 3 else none
  | 'u' :: '\x7b' :: rest =>
      let digits := (rest.takeWhile isHexDigit).length
      if digits ≠ 0 ∧ (rest.drop digits).head? = some '\x7d' then some (3 + digits) else none
  | 'z' :: rest => some (1 + (rest.takeWhile isBlank).length)
  | first :: rest =>
      if first.isDigit then some (1 + ((rest.take 2).takeWhile Char.isDigit).length)
      else if "\nabfnrtv\\'\"".toList.contains first then some 1
      else none

/-- A part of a quoted string, by its length: text, or a comment with the blanks before it. -/
inductive QuotedPart where
  | text (length : Nat)
  | comment (length : Nat)
  deriving DecidableEq, Repr

/-- How many characters a part of a quoted string takes. -/
def QuotedPart.length : QuotedPart → Nat
  | text length => length
  | comment length => length

/-- The parts of a quoted string up to its closing quote, in the characters after its opening quote.
A bracketed comment may begin where a part begins, so before any text and after an escape. -/
def quotedParts? (quote : Char) : Nat → List Char → Option (List QuotedPart)
  | 0, _ => none
  | bound + 1, chars =>
      match innerCommentLength? chars with
      | some none => none
      | some (some length) => do
          let later ← quotedParts? quote bound (chars.drop length)
          return .comment length :: later
      | none =>
          match chars with
          | [] => none
          | '\\' :: rest => do
              let escaped ← escapeLength? rest
              let later ← quotedParts? quote bound (rest.drop escaped)
              return .text (escaped + 1) :: later
          | first :: rest =>
              if first == quote then some []
              else
                let run := 1 + (rest.takeWhile fun char => char != quote && char != '\\').length
                do
                  let later ← quotedParts? quote bound ((first :: rest).drop run)
                  return .text run :: later

/-- A string by the lengths of its opening delimiter, its content and its closing delimiter, where
the content is missing if nothing is there. Comments at the edges count with the delimiters. -/
structure StringShape where
  opening : Nat
  content : Option Nat
  closing : Nat
  deriving DecidableEq, Repr

/-- Whether a part of a quoted string is a comment. -/
def QuotedPart.isComment : QuotedPart → Bool
  | text _ => false
  | comment _ => true

/-- The total length of some parts of a quoted string. -/
def totalLength (parts : List QuotedPart) : Nat :=
  parts.foldl (fun total part => total + part.length) 0

/-- The shape of a quoted string with given parts. -/
def StringShape.ofParts (parts : List QuotedPart) : StringShape :=
  let leading := parts.takeWhile QuotedPart.isComment
  let rest := parts.dropWhile QuotedPart.isComment
  let trailing := (rest.reverse.takeWhile QuotedPart.isComment).reverse
  let content := rest.take (rest.length - trailing.length)
  ⟨1 + totalLength leading,
   if content.isEmpty then none else some (totalLength content),
   totalLength trailing + 1⟩

/-- The shape of the string that starts here. The outer answer is missing if none starts, the inner
one if it is not well formed. -/
def stringShape? : List Char → Option (Option StringShape)
  | [] => none
  | first :: rest =>
      if first == '"' || first == '\'' then
        some ((quotedParts? first (rest.length + 1) rest).map StringShape.ofParts)
      else
        (BracketedText.atStart? (first :: rest)).map fun text => text.map fun text =>
          ⟨text.opening, some text.content, text.closing⟩

end LuaCoverage.Syntax.Lexeme
