import LuaCoverage.Line
import LuaCoverage.Syntax.Tree

/-!
# Classifying lines by tokens

Every token of a syntax tree marks the lines it lies on: most tokens mark their first line as code,
block keywords and closing punctuation mark it as structural, a string marks its first line as code
and the others as string content, and a comment marks all its lines as comment. A line that several
tokens mark takes the mark of highest rank, so the order in which the tokens are met does not
matter.
-/

set_option autoImplicit false

namespace LuaCoverage.Analysis

open Syntax

/-- The keywords and punctuation marks that only delimit structure. -/
def structuralSymbols : List String :=
  ["end", "else", "then", "do", "repeat", ")", "]", "\x7d", ",", ";"]

/-- The lines from one to another, both included. -/
def linesBetween (first last : Nat) : List Nat :=
  (List.range (last + 1 - first)).map (first + ·)

/-- The marks of one token. A token without text marks nothing. -/
def leafMarks (kind : Leaf) (span : Span) : List (Nat × LineType) :=
  match kind with
  | .comment | .shebang =>
      (linesBetween span.first.line span.lastLine).map fun line => (line, .comment)
  | .string _ =>
      (span.first.line, .code)
        :: (linesBetween (span.first.line + 1) span.lastLine).map fun line => (line, .stringContent)
  | .symbol text =>
      if span.isEmpty then []
      else if structuralSymbols.contains text then [(span.first.line, .structural)]
      else [(span.first.line, .code)]
  | _ => if span.isEmpty then [] else [(span.first.line, .code)]

mutual

/-- The marks of all tokens of a tree. -/
def marks : Node → List (Nat × LineType)
  | .leaf kind span => leafMarks kind span
  | .inner _ _ children => marksAll children

/-- The marks of all tokens of some trees. -/
def marksAll : List Node → List (Nat × LineType)
  | [] => []
  | node :: rest => marks node ++ marksAll rest

end

/-- The reason for a mark. -/
def markReason : LineType → Reason
  | .code => .syntaxCode
  | .comment => .syntaxComment
  | .stringContent => .syntaxString
  | .structural => .syntaxStructural
  | .blank => .blank

/-- Line types with one more mark: a mark of higher rank replaces what a line had. -/
def addMark (marked : LineMap LineType) (mark : Nat × LineType) : LineMap LineType :=
  match marked[mark.1]? with
  | none => marked.insert mark.1 mark.2
  | some existing =>
      if existing.rank < mark.2.rank then marked.insert mark.1 mark.2 else marked

/-- The type of each line that a token of the tree marks. -/
def lineTypes (tree : Node) : LineMap LineType := (marks tree).foldl addMark ∅

end LuaCoverage.Analysis
