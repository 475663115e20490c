import LuaCoverage.Line
import LuaCoverage.Text.Lines

/-!
# Classifying lines by their text

A source that does not parse is still classified, line by line, from what each line holds: comments,
strings, block keywords, closing punctuation, anything else. A bracketed comment or string may run
over many lines, so the scan of a line starts in the context that the line before left and ends in a
context of its own. Nothing else is carried along, hence any line can be scanned again on its own.

The scan is a structural recursion over the characters of a line. At the start of a token it
decides, by looking ahead, how many characters the token has; the rest of the token is then passed
over.
-/

set_option autoImplicit false

namespace LuaCoverage

/-- The context that one line leaves to the next: whether a bracketed comment or string is open, and
with how many equals signs between its brackets. -/
structure OpenText where
  inComment : Bool := false
  inString : Bool := false
  level : Nat := 0
  deriving DecidableEq, Repr

namespace OpenText

/-- The context inside a bracketed comment. -/
def comment (level : Nat) : OpenText := ⟨true, false, level⟩

/-- The context inside a bracketed string. -/
def string (level : Nat) : OpenText := ⟨false, true, level⟩

/-- Whether anything is open. -/
def isOpen (context : OpenText) : Bool := context.inComment || context.inString

end OpenText

namespace Lexical

/-! ## Looking ahead -/

/-- Whether a bracket of a given level is completed here: as many equals signs, then the bracket. -/
def completes (level : Nat) (bracket : Char) (chars : List Char) : Bool :=
  (chars.takeWhile (· == '=')).length == level && (chars.drop level).head? == some bracket

/-- The level of the long bracket that opens here. It takes two characters more than its level. -/
def openingLevel? : List Char → Option Nat
  | '[' :: rest =>
      let level := (rest.takeWhile (· == '=')).length
      if completes level '[' rest then some level else none
  | _ => none

/-- How many characters there are up to the end of the closing bracket of a given level. -/
def closingLength? (level : Nat) : List Char → Option Nat
  | [] => none
  | first :: rest =>
      if first == ']' && completes level ']' rest then some (level + 2)
      else (closingLength? level rest).map (· + 1)

/-- How many characters a quoted string has after its opening quote. A string that does not end on
its line takes the rest of the line. -/
def quotedLength (quote : Char) : List Char → Nat
  | [] => 0
  | '\\' :: _ :: rest => quotedLength quote rest + 2
  | first :: rest => if first == quote then 1 else quotedLength quote rest + 1

/-- The characters that may start a word. -/
def startsWord (char : Char) : Bool := char.isAlpha || char == '_'

/-- The characters that may continue a word. -/
def continuesWord (char : Char) : Bool := char.isAlphanum || char == '_'

/-- The words that carry no effect of their own when they stand alone on a line. -/
def structuralWords : List String := ["end", "else", "then", "do", "repeat"]

/-- The punctuation that carries no effect of its own when it stands alone on a line. -/
def isCloser (char : Char) : Bool :=
  char == ')' || char == ']' || char == '}' || char == ',' || char == ';'

/-! ## What a line holds -/

/-- What a scan has met on a line so far. -/
structure Marks where
  code : Bool := false
  structural : Bool := false
  comment : Bool := false
  blockComment : Bool := false
  /-- The line begins inside a bracketed string. -/
  carriedString : Bool := false
  deriving DecidableEq, Repr

/-- The type of a line that holds what the marks say, and the reason for it. -/
def Marks.verdict (marks : Marks) : LineType × Reason :=
  if marks.code then (.code, .statement)
  else if marks.structural then (.structural, .structural)
  else if marks.carriedString then (.stringContent, .stringContent)
  else if marks.comment then (.comment, if marks.blockComment then .blockComment else .lineComment)
  else (.blank, .blank)

/-- Scans the characters of a line outside strings and comments. The number says how many characters
of the current token are still to be passed over. -/
def scan : List Char → Nat → Marks → Marks × OpenText
  | [], _, marks => (marks, {})
  | _ :: rest, pending + 1, marks => scan rest pending marks
  | first :: rest, 0, marks =>
      if Text.isAsciiBlank first then scan rest 0 marks
      else if first == '-' && rest.head? == some '-' then
        let body := rest.drop 1
        match openingLevel? body with
        | none => ({ marks with comment := true }, {})
        | some level =>
            let within := { marks with comment := true, blockComment := true }
            match closingLength? level (body.drop (level + 2)) with
            | none => (within, .comment level)
            | some length => scan rest (1 + (level + 2) + length) within
      else if first == '"' || first == '\'' then
        scan rest (quotedLength first rest) { marks with code := true }
      else
        match openingLevel? (first :: rest) with
        | some level =>
            let within := { marks with code := true }
            match closingLength? level (rest.drop (level + 1)) with
            | none => (within, .string level)
            | some length => scan rest ((level + 1) + length) within
        | none =>
            if startsWord first then
              let others := rest.takeWhile continuesWord
              if structuralWords.contains (String.ofList (first :: others)) then
                scan rest others.length { marks with structural := true }
              else scan rest others.length { marks with code := true }
            else if isCloser first then scan rest 0 { marks with structural := true }
            else scan rest 0 { marks with code := true }

/-- Scans a line in the context left by the line before. A comment or string that is open and does
not end on the line takes the whole of it. -/
def readLine (line : List Char) (context : OpenText) : (LineType × Reason) × OpenText :=
  if context.inComment then
    match closingLength? context.level line with
    | none => ((.comment, .blockComment), context)
    | some length =>
        let (marks, next) := scan line length { comment := true, blockComment := true }
        (marks.verdict, next)
  else if context.inString then
    match closingLength? context.level line with
    | none => ((.stringContent, .stringContent), context)
    | some length =>
        let (marks, next) := scan line length { carriedString := true }
        (marks.verdict, next)
  else
    let (marks, next) := scan line 0 {}
    (marks.verdict, next)

end Lexical

/-- The type of a line in the context left by the line before, and the context it leaves. -/
def typeLine (line : String) (context : OpenText) : LineType × OpenText :=
  let (verdict, next) := Lexical.readLine line.toList context
  (verdict.1, next)

/-- The type of a line that stands alone. -/
def typeLoneLine (line : String) : LineType := (typeLine line {}).1

/-- The classifications of lines from a given context on. -/
def classifyFrom (policy : StructuralPolicy) : OpenText → List String → List Classification
  | _, [] => []
  | context, line :: rest =>
      let (verdict, next) := Lexical.readLine line.toList context
      .ofType policy verdict.1 verdict.2 :: classifyFrom policy next rest

/-- The classifications of all lines of a text. A first line that starts with a number sign is for
the operating system and not part of the program. -/
def classifyText (policy : StructuralPolicy) : List String → List Classification
  | [] => []
  | first :: rest =>
      if first.toList.head? == some '#' then
        .ofType policy .comment .lineComment :: classifyFrom policy {} rest
      else classifyFrom policy {} (first :: rest)

end LuaCoverage
