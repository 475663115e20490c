/-!
# Concrete syntax trees

A Lua source that parses is held as its concrete syntax tree: every token of the source is a leaf,
in the order of the text, comments included. The leaves are what lines are classified by; the nodes
above them are what blocks, functions and statements are read off from.

A comment belongs to the innermost construct that has tokens of its own both before and after it. A
construct therefore begins and ends with a token and never with a comment.
-/

set_option autoImplicit false

namespace LuaCoverage.Syntax

/-- A place in a text: the byte, the line counted from one, and the byte within the line. -/
structure Position where
  byte : Nat
  line : Nat
  column : Nat
  deriving DecidableEq, Repr

/-- The beginning of every text. -/
def Position.start : Position := ⟨0, 1, 0⟩

/-- The place after one more character. -/
def Position.next (position : Position) (char : Char) : Position :=
  if char = '\n' then ⟨position.byte + char.utf8Size, position.line + 1, 0⟩
  else ⟨position.byte + char.utf8Size, position.line, position.column + char.utf8Size⟩

/-- The place after more characters. -/
def Position.advance (position : Position) (chars : List Char) : Position :=
  chars.foldl Position.next position

/-- A stretch of a text. -/
structure Span where
  first : Position
  last : Position
  deriving DecidableEq, Repr

namespace Span

/-- The last line that a stretch occupies. A line end that the stretch takes in does not make it
occupy the line after it. -/
def lastLine (span : Span) : Nat :=
  if span.last.column = 0 ∧ span.first.line < span.last.line then span.last.line - 1
  else span.last.line

/-- Whether a stretch holds no text. -/
def isEmpty (span : Span) : Bool := span.first.byte == span.last.byte

/-- The text that a stretch holds, out of the text it was taken from. -/
def text (span : Span) (source : String) : String :=
  String.Pos.Raw.extract source ⟨span.first.byte⟩ ⟨span.last.byte⟩

end Span

/-- The kinds of tokens. -/
inductive Leaf where
  /-- A keyword, an operator or a punctuation mark, given by its text. -/
  | symbol (text : String)
  | name
  | constant
  | number
  /-- A string of any form. The stretch between its delimiters is missing when nothing is there. -/
  | string (content : Option Span)
  | varargs
  | breakStatement
  | comment
  /-- A first line for the operating system. -/
  | shebang
  deriving DecidableEq, Repr

/-- The kinds of nodes that have parts. -/
inductive Construct where
  | chunk
  | block
  | emptyStatement
  | assignment
  | labelStatement
  | gotoStatement
  | doStatement
  | whileStatement
  | repeatStatement
  | ifStatement
  | elseIfArm
  | elseArm
  | forStatement
  | numericClause
  | genericClause
  | returnStatement
  | localDeclaration
  | modifier
  | variableList
  | expressionList
  | functionDeclaration
  | functionExpression
  | parameters
  | call
  | arguments
  | dotIndex
  | bracketIndex
  | methodIndex
  | parenthesized
  | tableConstructor
  | field
  | binary
  | unary
  deriving DecidableEq, Repr

/-- A concrete syntax tree. -/
inductive Node where
  | leaf (kind : Leaf) (span : Span)
  | inner (construct : Construct) (span : Span) (children : List Node)

namespace Node

/-- The stretch of text that a tree covers. -/
def span : Node → Span
  | leaf _ span => span
  | inner _ span _ => span

/-- The parts of a tree. -/
def children : Node → List Node
  | leaf _ _ => []
  | inner _ _ children => children

/-- The first line of a tree. -/
def firstLine (node : Node) : Nat := node.span.first.line

/-- The last line of a tree. -/
def lastLine (node : Node) : Nat := node.span.lastLine

/-- The text of a tree, out of the text it was parsed from. -/
def text (node : Node) (source : String) : String := node.span.text source

/-- The stretch from the first to the last of some trees. -/
def around (nodes : List Node) : Span :=
  match nodes.head?, nodes.getLast? with
  | some first, some last => ⟨first.span.first, last.span.last⟩
  | _, _ => ⟨Position.start, Position.start⟩

/-- The tree of a construct with given parts. -/
def enclose (construct : Construct) (children : List Node) : Node :=
  inner construct (around children) children

/-- Whether a tree is an instance of a construct. -/
def isConstruct (construct : Construct) : Node → Bool
  | leaf _ _ => false
  | inner own _ _ => own == construct

/-- Whether a tree is a given keyword, operator or punctuation mark. -/
def isSymbol (text : String) : Node → Bool
  | leaf (.symbol own) _ => own == text
  | _ => false

/-- Whether a tree is a comment. -/
def isComment : Node → Bool
  | leaf .comment _ => true
  | _ => false

/-- Whether a tree is more than a keyword, an operator or a punctuation mark. -/
def isNamed : Node → Bool
  | leaf (.symbol _) _ => false
  | _ => true

/-- The parts of a tree that say something: neither symbols nor comments. -/
def constituents (node : Node) : List Node :=
  node.children.filter fun child => child.isNamed && !child.isComment

end Node

end LuaCoverage.Syntax
