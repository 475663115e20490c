/-!
# JSON documents by lexeme

Configurations, snapshots and replay scripts are JSON documents. This module holds such a document
as it is written: a number and a string keep their *lexeme*, the characters that stand in the text
(for a string, those between the quotes). Reading a document and writing it again is then the
identity on documents, and every question of what a lexeme *means* is asked separately and only
where somebody wants to know: `naturalOf?` for numbers, `decodeText?` for strings. A string with a
lone surrogate escape, for instance, is a correct document as long as nobody asks for its text.

`escapeText` and `decodeText?` are the two sides of the quoting rule: quotation mark and reverse
solidus take a solidus, the five short escapes stand for themselves, every other control character
is written by its number, and all other characters are written as they are.
-/

set_option autoImplicit false

namespace LuaCoverage.Json

/-- A JSON document; numbers, strings and member names are kept as lexemes. -/
inductive Value where
  | null
  | bool (value : Bool)
  | number (lexeme : String)
  | string (lexeme : String)
  | array (items : List Value)
  | object (members : List (String × Value))

/-! ## What a string lexeme says -/

/-- The value of a hexadecimal digit. -/
def hexValue? (char : Char) : Option Nat :=
  if '0' ≤ char ∧ char ≤ '9' then some (char.toNat - '0'.toNat)
  else if 'a' ≤ char ∧ char ≤ 'f' then some (char.toNat - 'a'.toNat + 10)
  else if 'A' ≤ char ∧ char ≤ 'F' then some (char.toNat - 'A'.toNat + 10)
  else none

/-- The value of four hexadecimal digits. -/
def hexQuad? (a b c d : Char) : Option Nat := do
  let first ← hexValue? a
  let second ← hexValue? b
  let third ← hexValue? c
  let fourth ← hexValue? d
  return ((first * 16 + second) * 16 + third) * 16 + fourth

/-- The character that a two-character escape stands for. -/
def shortEscape? : Char → Option Char
  | '"' => some '"'
  | '\\' => some '\\'
  | '/' => some '/'
  | 'b' => some '\x08'
  | 'f' => some '\x0c'
  | 'n' => some '\n'
  | 'r' => some '\r'
  | 't' => some '\t'
  | _ => none

/-- A piece of a string lexeme: a character, or a sixteen-bit code given by its number. -/
inductive Piece where
  | char (char : Char)
  | code (code : Nat)

/-- The pieces of a string lexeme. -/
def pieces? : List Char → Option (List Piece)
  | [] => some []
  | '\\' :: 'u' :: a :: b :: c :: d :: rest => do
      let code ← hexQuad? a b c d
      let later ← pieces? rest
      return .code code :: later
  | '\\' :: letter :: rest => do
      let char ← shortEscape? letter
      let later ← pieces? rest
      return .char char :: later
  | char :: rest => do
      let later ← pieces? rest
      return .char char :: later

/-- Whether a sixteen-bit code is the first half of a surrogate pair. -/
def isLeadingHalf (code : Nat) : Bool := 0xD800 ≤ code && code < 0xDC00

/-- Whether a sixteen-bit code is the second half of a surrogate pair. -/
def isTrailingHalf (code : Nat) : Bool := 0xDC00 ≤ code && code < 0xE000

/-- The characters of a sequence of pieces; a surrogate half without its other half says nothing. -/
def joinPieces? : List Piece → Option (List Char)
  | [] => some []
  | .char char :: rest => do
      let later ← joinPieces? rest
      return char :: later
  | .code leading :: .code trailing :: rest =>
      if isLeadingHalf leading then
        if isTrailingHalf trailing then do
          let later ← joinPieces? rest
          return Char.ofNat (0x10000 + (leading - 0xD800) * 0x400 + (trailing - 0xDC00)) :: later
        else none
      else if isTrailingHalf leading then none
      else do
        let later ← joinPieces? (.code trailing :: rest)
        return Char.ofNat leading :: later
  | .code code :: rest =>
      if isLeadingHalf code || isTrailingHalf code then none
      else do
        let later ← joinPieces? rest
        return Char.ofNat code :: later

/-- The characters that a string lexeme stands for. -/
def decodeChars? (lexeme : List Char) : Option (List Char) := do
  joinPieces? (← pieces? lexeme)

/-- The text that a string lexeme stands for. -/
def decodeText? (lexeme : String) : Option String :=
  (decodeChars? lexeme.toList).map String.ofList

/-! ## The lexeme that says a text -/

/-- The lowercase hexadecimal digit of a number below sixteen. -/
def hexLetter (value : Nat) : Char :=
  if value < 10 then Char.ofNat ('0'.toNat + value) else Char.ofNat ('a'.toNat + (value - 10))

/-- How one character is written inside a string. -/
def escapeChar (char : Char) : List Char :=
  if char = '"' then ['\\', '"']
  else if char = '\\' then ['\\', '\\']
  else if char = '\x08' then ['\\', 'b']
  else if char = '\x0c' then ['\\', 'f']
  else if char = '\n' then ['\\', 'n']
  else if char = '\r' then ['\\', 'r']
  else if char = '\t' then ['\\', 't']
  else if char.toNat < 0x20 then
    ['\\', 'u', '0', '0', hexLetter (char.toNat / 16), hexLetter (char.toNat % 16)]
  else [char]

/-- How characters are written inside a string. -/
def escapeChars (chars : List Char) : List Char := chars.flatMap escapeChar

/-- The lexeme of a text. -/
def escapeText (text : String) : String := String.ofList (escapeChars text.toList)

/-! ## What a number lexeme says -/

/-- The value of a lexeme that consists of digits. -/
def digitsValue (digits : List Char) : Nat :=
  digits.foldl (fun value digit => value * 10 + (digit.toNat - '0'.toNat)) 0

/-- The natural number that a lexeme writes with digits only, below a bound. A sign, a fraction or
an exponent makes another kind of number, whatever its value. -/
def naturalOf? (bound : Nat) (lexeme : List Char) : Option Nat :=
  match lexeme with
  | [] => none
  | first :: rest =>
      if (first :: rest).all Char.isDigit && (first != '0' || rest.isEmpty) then
        let value := digitsValue (first :: rest)
        if value < bound then some value else none
      else none

/-! ## Building documents -/

namespace Value

/-- The document that is a text. -/
def ofString (text : String) : Value := .string (escapeText text)

/-- The document that is a natural number. -/
def ofNat (value : Nat) : Value := .number (toString value)

/-- The document that lists other documents. -/
def ofList {α : Type} (document : α → Value) (items : List α) : Value :=
  .array (items.map document)

/-- The document of something that may be missing: null stands for nothing. -/
def ofOption {α : Type} (document : α → Value) : Option α → Value
  | none => .null
  | some item => document item

/-- The document with named members, in the order given. -/
def ofMembers (members : List (String × Value)) : Value :=
  .object (members.map fun member => (escapeText member.1, member.2))

end Value

end LuaCoverage.Json
