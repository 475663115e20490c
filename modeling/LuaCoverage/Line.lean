import Std.Data.ExtTreeMap
import Std.Data.ExtTreeSet

/-!
# Lines

What the library knows about one line of a Lua source: the type of its text, why it was given that
type, and the hits recorded on it. Lines are numbered from one.

The three flags of a record are meant to imply each other: a covered line was executed, and an
executed line can be executed. Nothing here enforces that. A record that was made from a hit alone,
before any analysis of the file was at hand, is *provisional*: its type is a guess that a later
analysis settles.
-/

set_option autoImplicit false

namespace LuaCoverage

/-- Line-indexed data, ordered by line number. -/
abbrev LineMap (α : Type) := Std.ExtTreeMap Nat α

/-- A set of line numbers. -/
abbrev LineSet := Std.ExtTreeSet Nat

/-- What the text of a line holds, as far as coverage is concerned. -/
inductive LineType where
  | code
  | comment
  | blank
  /-- Nothing but block keywords or closing punctuation. -/
  | structural
  /-- The inside or the last line of a string that began on an earlier line. -/
  | stringContent
  deriving DecidableEq, Repr

namespace LineType

/-- The word for a line type in reports. -/
def label : LineType → String
  | code => "code"
  | comment => "comment"
  | blank => "blank"
  | structural => "structural"
  | stringContent => "string"

/-- The order in which the marks of several tokens on one line give way to each other. -/
def rank : LineType → Nat
  | code => 4
  | structural => 3
  | stringContent => 2
  | comment => 1
  | blank => 0

end LineType

/-- Why a line was given its type. The first four reasons come from a syntax tree, the others from
the text of the line alone. -/
inductive Reason where
  /-- A token of a statement or an expression starts on the line. -/
  | syntaxCode
  /-- Only comments are on the line. -/
  | syntaxComment
  /-- The line lies inside a string of several lines. -/
  | syntaxString
  /-- Only block keywords and closing punctuation are on the line. -/
  | syntaxStructural
  | blank
  | lineComment
  /-- The line lies in, opens or closes a bracketed comment. -/
  | blockComment
  | stringContent
  | structural
  /-- The text of the line holds part of a statement. -/
  | statement
  /-- A hit was seen on the line before any analysis was available. -/
  | observedHit
  deriving DecidableEq, Repr

/-- Whether lines with nothing but block keywords count as executable. -/
inductive StructuralPolicy where
  | nonExecutable
  | executable
  deriving DecidableEq, Repr

/-- Whether a line of this type can be executed. -/
def LineType.isExecutable (policy : StructuralPolicy) : LineType → Bool
  | .code => true
  | .structural => policy = .executable
  | .comment | .blank | .stringContent => false

/-- The verdict of an analysis on one line. -/
structure Classification where
  lineType : LineType
  executable : Bool
  reason : Reason
  deriving DecidableEq, Repr

/-- The classification of a line of a given type. -/
def Classification.ofType (policy : StructuralPolicy) (lineType : LineType) (reason : Reason) :
    Classification :=
  ⟨lineType, lineType.isExecutable policy, reason⟩

/-- The coverage state of one line. -/
structure LineRecord where
  executable : Bool
  executed : Bool
  covered : Bool
  executionCount : UInt64
  lineType : LineType
  reason : Reason
  provisional : Bool
  deriving DecidableEq, Repr

namespace LineRecord

/-- The record of an analyzed line without any hit. -/
def ofClassification (verdict : Classification) : LineRecord :=
  ⟨verdict.executable, false, false, 0, verdict.lineType, verdict.reason, false⟩

/-- The record of a line known only from a hit. In a file that was analyzed such a line lies outside
the text and cannot be executed. -/
def unclassified (analyzed : Bool) : LineRecord :=
  ⟨!analyzed, false, false, 0, .code, .observedHit, true⟩

/-- The record after one more execution of the line. -/
def hit (record : LineRecord) : LineRecord :=
  { record with executed := true, executionCount := record.executionCount + 1 }

end LineRecord

end LuaCoverage
