/-!
# Lines of a text

Coverage is counted per line, so every part of the library has to cut a text at the same places.
A line ends at a line feed, and a carriage return directly before that line feed belongs to the line
end; a carriage return anywhere else is an ordinary character. What follows the last line feed is a
line of its own exactly when it is not empty.

`lines` is a structural recursion over the characters, so a proof about it follows the text.
-/

set_option autoImplicit false

namespace LuaCoverage.Text

/-- The lines of a character sequence, without their line ends. -/
def charLines : List Char → List (List Char)
  | [] => []
  | '\n' :: rest => [] :: charLines rest
  | '\r' :: '\n' :: rest => [] :: charLines rest
  | first :: rest =>
      match charLines rest with
      | [] => [[first]]
      | line :: lines => (first :: line) :: lines

/-- The lines of a text, without their line ends. -/
def lines (text : String) : List String :=
  (charLines text.toList).map String.ofList

/-- The number of bytes that a character sequence takes in UTF-8. -/
def utf8Length (chars : List Char) : Nat :=
  chars.foldl (fun total char => total + char.utf8Size) 0

/-- White space in the sense of ASCII: space, tab, line feed, form feed and carriage return. -/
def isAsciiBlank (char : Char) : Bool :=
  char == ' ' || char == '\t' || char == '\n' || char == '\x0c' || char == '\r'

/-- White space in the sense of Unicode. -/
def isWhiteSpace (char : Char) : Bool :=
  let code := char.toNat
  (0x09 ≤ code && code ≤ 0x0d) || code == 0x20 || code == 0x85 || code == 0xa0 || code == 0x1680
    || (0x2000 ≤ code && code ≤ 0x200a) || code == 0x2028 || code == 0x2029 || code == 0x202f
    || code == 0x205f || code == 0x3000

/-- A character sequence without white space at its ends. -/
def trimmed (chars : List Char) : List Char :=
  ((chars.dropWhile isWhiteSpace).reverse.dropWhile isWhiteSpace).reverse

/-- A text widened on the right with blanks to a number of characters. -/
def padRight (width : Nat) (text : String) : String :=
  text ++ String.ofList (List.replicate (width - text.length) ' ')

/-- A text widened on the left with blanks to a number of characters. -/
def padLeft (width : Nat) (text : String) : String :=
  String.ofList (List.replicate (width - text.length) ' ') ++ text

end LuaCoverage.Text
