import LuaCoverage.Line

/-!
# Control-flow blocks and functions

A block is a stretch of lines that is entered as a whole: a function body, a loop, a `do` block, an
`if` statement, or one arm of it. Blocks of a file are numbered from one; the number zero stands for
the main chunk, which is the parent of every outermost block and never has a record of its own.

A block *contains* every line from its first to its last. It *owns* a line when running that line
shows that the block runs. The two differ for a function of several lines: its header runs where the
function is defined and not where it is called.
-/

set_option autoImplicit false

namespace LuaCoverage

/-- The number of a block within one file. -/
abbrev BlockId := Nat

/-- The main chunk, parent of every outermost block. -/
def BlockId.root : BlockId := 0

/-- Whether a number stands for the main chunk. -/
def BlockId.isRoot (id : BlockId) : Bool := id == BlockId.root

/-- How a block is named in reports. -/
def BlockId.label (id : BlockId) : String :=
  if BlockId.isRoot id then "root" else "b" ++ toString id

/-- Block-indexed data, ordered by block number. -/
abbrev BlockMap (α : Type) := Std.ExtTreeMap BlockId α

/-- A set of block numbers. -/
abbrev BlockSet := Std.ExtTreeSet BlockId

/-- The kind of statement or expression that a block stands for. -/
inductive BlockKind where
  | function
  | conditional
  | forLoop
  | whileLoop
  | doBlock
  | repeatLoop
  deriving DecidableEq, Repr

/-- The word for a kind of block in reports. -/
def BlockKind.label : BlockKind → String
  | .function => "function"
  | .conditional => "if"
  | .forLoop => "for"
  | .whileLoop => "while"
  | .doBlock => "do"
  | .repeatLoop => "repeat"

/-- Which arm of an `if` statement a block stands for. -/
inductive Branch where
  | thenArm
  | elseIfArm
  | elseArm
  deriving DecidableEq, Repr

/-- One block of a file. -/
structure BlockRecord where
  id : BlockId
  kind : BlockKind
  branch : Option Branch
  startLine : Nat
  endLine : Nat
  parentId : Option BlockId
  children : BlockSet
  executed : Bool
  executionCount : UInt64
  deriving DecidableEq

namespace BlockRecord

/-- A block that has not run and has no children yet. -/
def fresh (id : BlockId) (kind : BlockKind) (branch : Option Branch) (parent : BlockId)
    (startLine endLine : Nat) : BlockRecord :=
  ⟨id, kind, branch, startLine, endLine, some parent, ∅, false, 0⟩

/-- Whether a line lies between the first and the last line of the block. -/
def spansLine (record : BlockRecord) (line : Nat) : Bool :=
  record.startLine ≤ line && line ≤ record.endLine

/-- Whether running a line shows that the block runs. -/
def mayOwnLine (record : BlockRecord) (line : Nat) : Bool :=
  if record.kind = .function ∧ record.startLine < record.endLine then
    record.startLine < line && line ≤ record.endLine
  else record.spansLine line

/-- How many lines the block extends beyond its first. -/
def span (record : BlockRecord) : Nat := record.endLine - record.startLine

/-- The record after the block was entered once more. -/
def enter (record : BlockRecord) : BlockRecord :=
  { record with executed := true, executionCount := record.executionCount + 1 }

/-- The record after a sign that the block runs: an entry is counted only if none was before. -/
def witness (record : BlockRecord) : BlockRecord :=
  { record with
    executed := true
    executionCount := if record.executionCount = 0 then 1 else record.executionCount }

end BlockRecord

/-- How a function is defined. -/
inductive FunctionKind where
  | globalFunction
  | localFunction
  | method
  | anonymous
  deriving DecidableEq, Repr

/-- One function of a file. -/
structure FunctionRecord where
  id : Nat
  name : Option String
  kind : FunctionKind
  startLine : Nat
  endLine : Nat
  executed : Bool
  executionCount : UInt64
  deriving DecidableEq, Repr

/-- The record after one more call of the function. -/
def FunctionRecord.call (record : FunctionRecord) : FunctionRecord :=
  { record with executed := true, executionCount := record.executionCount + 1 }

/-- How much the data on a file can be trusted. -/
inductive Quality where
  /-- Lines were classified from a syntax tree. -/
  | full
  /-- Lines were classified from their text alone. -/
  | heuristic
  /-- The source was unavailable, or its instrumentation failed. -/
  | untracked
  deriving DecidableEq, Repr

/-- How far a quality is from the best one. -/
def Quality.rank : Quality → Nat
  | .full => 0
  | .heuristic => 1
  | .untracked => 2

end LuaCoverage
