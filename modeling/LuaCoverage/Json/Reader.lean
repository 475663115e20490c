import LuaCoverage.Json.Value

/-!
# Reading JSON documents

`parse` reads a whole text as one document. It accepts exactly the JSON grammar: the four blanks, no
leading zeros, no raw control characters inside a string, only the known escapes, nothing after the
document. Lexemes are checked here and not interpreted, so a number of any size and a lone surrogate
escape are still part of a readable document.

A document nests by arrays and objects, and each step of the recursion from one document to a part
of it or to the next part uses up at least half a character of the text. `parse` allots twice the
length of the text, so the bound is never what stops it.
-/

set_option autoImplicit false

namespace LuaCoverage.Json

/-- The four characters that may stand between the parts of a document. -/
def isBlank (char : Char) : Bool :=
  char == ' ' || char == '\n' || char == '\t' || char == '\r'

/-- What is left of a text after its leading blanks. -/
def skipBlanks (text : List Char) : List Char := text.dropWhile isBlank

/-! ## Lexemes -/

/-- Reads the characters of a string up to its closing quote, without interpreting them. -/
def stringLexeme? : List Char → Option (List Char × List Char)
  | [] => none
  | '"' :: rest => some ([], rest)
  | '\\' :: 'u' :: a :: b :: c :: d :: rest =>
      if (hexQuad? a b c d).isSome then do
        let (lexeme, later) ← stringLexeme? rest
        return ('\\' :: 'u' :: a :: b :: c :: d :: lexeme, later)
      else none
  | '\\' :: letter :: rest =>
      if (shortEscape? letter).isSome then do
        let (lexeme, later) ← stringLexeme? rest
        return ('\\' :: letter :: lexeme, later)
      else none
  | char :: rest =>
      if char.toNat < 0x20 then none
      else do
        let (lexeme, later) ← stringLexeme? rest
        return (char :: lexeme, later)

/-- Reads one digit or more. -/
def digitRun? (text : List Char) : Option (List Char × List Char) :=
  match text.span Char.isDigit with
  | ([], _) => none
  | (digits, rest) => some (digits, rest)

/-- Reads the integer part of a number: a single zero, or digits that do not start with one. -/
def integerPart? : List Char → Option (List Char × List Char)
  | '0' :: rest => if rest.head?.any Char.isDigit then none else some (['0'], rest)
  | text => digitRun? text

/-- Reads the fraction of a number, if one is there. -/
def fractionPart? : List Char → Option (List Char × List Char)
  | '.' :: rest => do
      let (digits, later) ← digitRun? rest
      return ('.' :: digits, later)
  | text => some ([], text)

/-- Reads the sign of an exponent, if one is there. -/
def exponentSign : List Char → List Char × List Char
  | '+' :: rest => (['+'], rest)
  | '-' :: rest => (['-'], rest)
  | text => ([], text)

/-- Reads the exponent of a number, if one is there. -/
def exponentPart? : List Char → Option (List Char × List Char)
  | first :: rest =>
      if first = 'e' ∨ first = 'E' then do
        let (sign, unsigned) := exponentSign rest
        let (digits, later) ← digitRun? unsigned
        return (first :: sign ++ digits, later)
      else some ([], first :: rest)
  | [] => some ([], [])

/-- Reads a number without its sign. -/
def unsignedLexeme? (text : List Char) : Option (List Char × List Char) := do
  let (integer, afterInteger) ← integerPart? text
  let (fraction, afterFraction) ← fractionPart? afterInteger
  let (exponent, rest) ← exponentPart? afterFraction
  return (integer ++ fraction ++ exponent, rest)

/-- Reads a number. -/
def numberLexeme? : List Char → Option (List Char × List Char)
  | '-' :: rest => do
      let (lexeme, later) ← unsignedLexeme? rest
      return ('-' :: lexeme, later)
  | text => unsignedLexeme? text

/-- Reads a given word. -/
def word? (word : List Char) (text : List Char) : Option (List Char) :=
  if word.isPrefixOf text then some (text.drop word.length) else none

/-! ## Documents -/

mutual

/-- Reads one document and returns what follows it. -/
def readValue : Nat → List Char → Option (Value × List Char)
  | 0, _ => none
  | bound + 1, text =>
      match skipBlanks text with
      | '\x7b' :: rest =>
          match skipBlanks rest with
          | '\x7d' :: later => some (.object [], later)
          | start => do
              let (members, later) ← readMembers bound start
              return (.object members, later)
      | '[' :: rest =>
          match skipBlanks rest with
          | ']' :: later => some (.array [], later)
          | start => do
              let (items, later) ← readItems bound start
              return (.array items, later)
      | '"' :: rest => do
          let (lexeme, later) ← stringLexeme? rest
          return (.string (String.ofList lexeme), later)
      | 'n' :: rest => (word? "ull".toList rest).map fun later => (.null, later)
      | 't' :: rest => (word? "rue".toList rest).map fun later => (.bool true, later)
      | 'f' :: rest => (word? "alse".toList rest).map fun later => (.bool false, later)
      | start => do
          let (lexeme, later) ← numberLexeme? start
          return (.number (String.ofList lexeme), later)

/-- Reads the items of an array, one or more, and the bracket that closes it. -/
def readItems : Nat → List Char → Option (List Value × List Char)
  | 0, _ => none
  | bound + 1, text => do
      let (item, afterItem) ← readValue bound text
      match skipBlanks afterItem with
      | ',' :: rest => do
          let (items, later) ← readItems bound rest
          return (item :: items, later)
      | ']' :: later => some ([item], later)
      | _ => none

/-- Reads the members of an object, one or more, and the brace that closes it. -/
def readMembers : Nat → List Char → Option (List (String × Value) × List Char)
  | 0, _ => none
  | bound + 1, text =>
      match skipBlanks text with
      | '"' :: start => do
          let (name, afterName) ← stringLexeme? start
          match skipBlanks afterName with
          | ':' :: rest => do
              let (value, afterValue) ← readValue bound rest
              let member := (String.ofList name, value)
              match skipBlanks afterValue with
              | ',' :: next => do
                  let (members, later) ← readMembers bound next
                  return (member :: members, later)
              | '\x7d' :: later => some ([member], later)
              | _ => none
          | _ => none
      | _ => none

end

/-- Reads a text that is one document with nothing but blanks around it. -/
def parse (text : String) : Option Value := do
  let chars := text.toList
  let (document, rest) ← readValue (2 * chars.length + 2) chars
  if (skipBlanks rest).isEmpty then some document else none

end LuaCoverage.Json
