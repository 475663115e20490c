import LuaCoverage.Analysis.Basic
import LuaCoverage.Json.Record

/-!
# The words of documents

A document names an alternative by a word. Each type of alternatives has a list of its members and a
word for each; reading a word looks for the member that has it. No two members of a type share a
word, so reading a written word gives the member back.
-/

set_option autoImplicit false

namespace LuaCoverage

open Json

/-- The member of a list that has a given word. -/
def memberNamed? {α : Type} (members : List α) (word : α → String) (text : String) : Option α :=
  members.find? fun member => word member == text

namespace LineType

/-- All line types. -/
def all : List LineType := [code, comment, blank, structural, stringContent]

/-- The word for a line type in documents. -/
def word : LineType → String
  | code => "code"
  | comment => "comment"
  | blank => "blank"
  | structural => "structural"
  | stringContent => "string_content"

/-- The document of a line type. -/
def toJson (lineType : LineType) : Value := .ofString lineType.word

/-- Reads a line type. -/
def ofJson? : Value → Option LineType := Value.choice? (memberNamed? all word)

end LineType

namespace Reason

/-- All reasons. -/
def all : List Reason :=
  [syntaxCode, syntaxComment, syntaxString, syntaxStructural, blank, lineComment, blockComment,
   stringContent, structural, statement, observedHit]

/-- The word for a reason in documents. -/
def word : Reason → String
  | syntaxCode => "syntax_code"
  | syntaxComment => "syntax_comment"
  | syntaxString => "syntax_string"
  | syntaxStructural => "syntax_structural"
  | blank => "blank"
  | lineComment => "line_comment"
  | blockComment => "block_comment"
  | stringContent => "string_content"
  | structural => "structural"
  | statement => "statement"
  | observedHit => "observed_hit"

/-- The document of a reason. -/
def toJson (reason : Reason) : Value := .ofString reason.word

/-- Reads a reason. -/
def ofJson? : Value → Option Reason := Value.choice? (memberNamed? all word)

end Reason

namespace StructuralPolicy

/-- All policies. -/
def all : List StructuralPolicy := [nonExecutable, executable]

/-- The word for a policy in documents. -/
def word : StructuralPolicy → String
  | nonExecutable => "non_executable"
  | executable => "executable"

/-- The document of a policy. -/
def toJson (policy : StructuralPolicy) : Value := .ofString policy.word

/-- Reads a policy. -/
def ofJson? : Value → Option StructuralPolicy := Value.choice? (memberNamed? all word)

end StructuralPolicy

namespace BlockKind

/-- All kinds of blocks. -/
def all : List BlockKind := [function, conditional, forLoop, whileLoop, doBlock, repeatLoop]

/-- The document of a kind of block. -/
def toJson (kind : BlockKind) : Value := .ofString kind.label

/-- Reads a kind of block. -/
def ofJson? : Value → Option BlockKind := Value.choice? (memberNamed? all label)

end BlockKind

namespace Branch

/-- All arms. -/
def all : List Branch := [thenArm, elseIfArm, elseArm]

/-- The word for an arm in documents. -/
def word : Branch → String
  | thenArm => "then"
  | elseIfArm => "else_if"
  | elseArm => "else"

/-- The document of an arm. -/
def toJson (branch : Branch) : Value := .ofString branch.word

/-- Reads an arm. -/
def ofJson? : Value → Option Branch := Value.choice? (memberNamed? all word)

end Branch

namespace FunctionKind

/-- All kinds of functions. -/
def all : List FunctionKind := [globalFunction, localFunction, method, anonymous]

/-- The word for a kind of function in documents. -/
def word : FunctionKind → String
  | globalFunction => "global"
  | localFunction => "local"
  | method => "method"
  | anonymous => "anonymous"

/-- The document of a kind of function. -/
def toJson (kind : FunctionKind) : Value := .ofString kind.word

/-- Reads a kind of function. -/
def ofJson? : Value → Option FunctionKind := Value.choice? (memberNamed? all word)

end FunctionKind

namespace Quality

/-- All qualities. -/
def all : List Quality := [full, heuristic, untracked]

/-- The word for a quality in documents. -/
def word : Quality → String
  | full => "full"
  | heuristic => "heuristic"
  | untracked => "untracked"

/-- The document of a quality. -/
def toJson (quality : Quality) : Value := .ofString quality.word

/-- Reads a quality. -/
def ofJson? : Value → Option Quality := Value.choice? (memberNamed? all word)

end Quality

/-- The word for a degradation in documents. -/
def Degradation.word : Degradation → String
  | .parseError => "parse_error"
  | .tooLarge => "too_large"

end LuaCoverage
