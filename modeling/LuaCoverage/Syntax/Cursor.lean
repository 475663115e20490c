import LuaCoverage.Syntax.Tree
import LuaCoverage.Syntax.Lexeme

/-!
# Reading tokens

A cursor is a place in a source together with the characters from there on. The grammar is built
from *parts*: functions that read something at a cursor and return the trees of what they read,
comments included, with the cursor after it. A part that reads a token first passes over the blanks
and comments before it; a part that reads nothing leaves the cursor where it is. This is what puts a
comment into the innermost construct that has tokens on both sides of it: the comment is read by the
part that reads the token after it, and a construct is enclosed around its parts only after its own
first token was reached.

A cursor also remembers whether the token after it could be a string, since this decides what a
comment looks like there. The grammar says so where an expression or the arguments of a call may
follow; passing over blanks and comments does not change it, and reading a token ends it.
-/

set_option autoImplicit false

namespace LuaCoverage.Syntax

/-- A place in a source, with the characters that are left from there and their number. -/
structure Cursor where
  rest : List Char
  left : Nat
  position : Position
  left_eq : left = rest.length
  /-- Whether the next token could be a string. -/
  beforeString : Bool := false

namespace Cursor

/-- The cursor at the start of some characters. -/
def start (chars : List Char) : Cursor := ⟨chars, chars.length, Position.start, rfl, false⟩

/-- The same place, where the next token could be a string. -/
def expectString (cursor : Cursor) : Cursor := { cursor with beforeString := true }

/-- The cursor after a number of characters, where no string is expected. -/
def advance (cursor : Cursor) (count : Nat) : Cursor where
  rest := cursor.rest.drop count
  left := cursor.left - count
  position := cursor.position.advance (cursor.rest.take count)
  left_eq := by rw [cursor.left_eq, List.length_drop]

/-- The leaf made of a number of characters, and the cursor after it. -/
def leaf (cursor : Cursor) (kind : Leaf) (count : Nat) : Node × Cursor :=
  let after := cursor.advance count
  (.leaf kind ⟨cursor.position, after.position⟩, after)

/-- The cursor after a number of characters that do not change what token is expected next. -/
def pass (cursor : Cursor) (count : Nat) : Cursor :=
  { cursor.advance count with beforeString := cursor.beforeString }

/-- The cursor after the blanks at its place. -/
def skipBlanks (cursor : Cursor) : Cursor :=
  cursor.pass (cursor.rest.takeWhile Lexeme.isBlank).length

/-- Reads comments as long as there are any, with the blanks around them. -/
def commentsUpTo : Nat → Cursor → Option (List Node × Cursor)
  | 0, _ => none
  | bound + 1, cursor =>
      let start := cursor.skipBlanks
      match Lexeme.commentLength? start.beforeString start.rest with
      | none => some ([], start)
      | some none => none
      | some (some length) => do
          let after := start.pass length
          let (later, final) ← commentsUpTo bound after
          return (.leaf .comment ⟨start.position, after.position⟩ :: later, final)

/-- The comments before the next token, and the cursor at that token. There is no answer if a
comment is never closed. -/
def toToken (cursor : Cursor) : Option (List Node × Cursor) :=
  commentsUpTo (cursor.left + 1) cursor

/-- Whether nothing but blanks and comments is left. -/
def atEnd (cursor : Cursor) : Bool := cursor.rest.isEmpty

/-- The word at a cursor. -/
def word (cursor : Cursor) : String := String.ofList (Lexeme.word cursor.rest)

/-- Whether a given text stands at a cursor. -/
def startsWith (cursor : Cursor) (text : String) : Bool := text.toList.isPrefixOf cursor.rest

end Cursor

/-- Reads something at a cursor: the trees of it and the cursor after it, or no answer if the source
cannot be read on. -/
abbrev Part := Cursor → Option (List Node × Cursor)

/-- Reads one tree at a cursor that stands at a token. -/
abbrev Item := Cursor → Option (Node × Cursor)

namespace Part

/-- Reads nothing. -/
def nothing : Part := fun cursor => some ([], cursor)

/-- Reads one tree, and before it the comments that lead up to it. -/
def one (item : Item) : Part := fun cursor => do
  let (comments, start) ← cursor.toToken
  let (node, after) ← item start
  return (comments ++ [node], after)

/-- Reads nothing, at a place where a string is expected. -/
def expectString : Part := fun cursor => some ([], cursor.expectString)

/-- Reads one part after the other. -/
def sequence : List Part → Part
  | [] => nothing
  | part :: rest => fun cursor => do
      let (first, between) ← part cursor
      let (later, after) ← sequence rest between
      return (first ++ later, after)

/-- Reads a part if the next token passes a test, and nothing otherwise. -/
def whenNext (test : Cursor → Bool) (part : Part) : Part := fun cursor => do
  let (_, start) ← cursor.toToken
  if test start then part cursor else some ([], cursor)

/-- Reads a part again and again, as long as the next token passes a test. -/
def repeatUpTo (test : Cursor → Bool) (part : Part) : Nat → Part
  | 0 => fun _ => none
  | bound + 1 => whenNext test fun cursor => do
      let (first, between) ← part cursor
      let (later, after) ← repeatUpTo test part bound between
      return (first ++ later, after)

/-- Reads a part as long as the next token passes a test. The part has to read at least one
character, so it is not read more often than there are characters. -/
def repeated (test : Cursor → Bool) (part : Part) : Part := fun cursor =>
  repeatUpTo test part (cursor.left + 1) cursor

end Part

namespace Item

/-- Reads a construct with given parts. -/
def construct (kind : Construct) (parts : List Part) : Item := fun cursor => do
  let (children, after) ← Part.sequence parts cursor
  return (.enclose kind children, after)

/-- Reads on from a tree to a construct of which it is the first part. -/
def extend (kind : Construct) (base : Node) (parts : List Part) : Item := fun cursor => do
  let (children, after) ← Part.sequence parts cursor
  return (.enclose kind (base :: children), after)

/-- Reads an operator or a punctuation mark. -/
def symbol (text : String) : Item := fun cursor =>
  if cursor.startsWith text then some (cursor.leaf (.symbol text) text.length) else none

/-- Reads a given word as a keyword. -/
def keyword (text : String) : Item := fun cursor =>
  if cursor.word == text then some (cursor.leaf (.symbol text) text.length) else none

/-- Reads any word as a leaf of a given kind. -/
def anyWord (kind : Leaf) : Item := fun cursor =>
  match Lexeme.word cursor.rest with
  | [] => none
  | _ :: others => some (cursor.leaf kind (others.length + 1))

/-- Reads any word as a name. -/
def name : Item := anyWord .name

end Item

/-- Reads an operator or a punctuation mark, and the comments before it. -/
def Part.symbol (text : String) : Part := Part.one (Item.symbol text)

/-- Reads a keyword, and the comments before it. -/
def Part.keyword (text : String) : Part := Part.one (Item.keyword text)

/-- Reads a name, and the comments before it. -/
def Part.name : Part := Part.one Item.name

end LuaCoverage.Syntax
