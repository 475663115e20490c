import LuaCoverage.Lexical
import LuaCoverage.Analysis.LineMarks
import LuaCoverage.Analysis.Outline
import LuaCoverage.Block.Resolver
import LuaCoverage.Syntax.Grammar

/-!
# Static analysis

The analysis of a source says, without running it, which lines can run, which blocks and functions
there are, and where statements start. It never fails. A source that parses is classified by its
tokens, and only lines without any token fall back to the classification by text; a source that does
not parse, or that is too large to try, is classified by text alone and has neither blocks nor
functions.

The blocks of an outline come with inner blocks first. Adding them to a table in this order makes
every block but the outermost wait for its parent, and leaves nothing to repair.
-/

set_option autoImplicit false

namespace LuaCoverage

/-- Why a source was classified without a syntax tree. -/
inductive Degradation where
  | parseError
  | tooLarge
  deriving DecidableEq, Repr

/-- The words for a degradation in messages. -/
def Degradation.description : Degradation → String
  | .parseError => "parse error"
  | .tooLarge => "file too large"

/-- What an analysis depends on besides the source. -/
structure AnalysisSettings where
  policy : StructuralPolicy
  /-- Sources of more bytes are not parsed. -/
  maxFileBytes : Nat
  deriving DecidableEq, Repr

/-- Everything that is known about one source without running it. -/
structure Analysis where
  fileId : String
  /-- The classification of every line, from the first line on. -/
  lines : List Classification
  blocks : BlockTable
  functions : List FunctionRecord
  executable : LineSet
  statements : List Statement
  conditions : List Condition
  functionBodies : List FunctionBody
  requires : List String
  degraded : Option Degradation
  /-- What it took to make the block table consistent. -/
  blockFixes : RepairReport
  deriving DecidableEq

namespace Analysis

/-- Whether the source was parsed. -/
def parsed (analysis : Analysis) : Bool := analysis.degraded.isNone

/-- The classification of a line; there is none outside the source. -/
def classification? (analysis : Analysis) (line : Nat) : Option Classification :=
  if line = 0 then none else analysis.lines[line - 1]?

/-- Whether a line can run. -/
def isExecutable (analysis : Analysis) (line : Nat) : Bool := analysis.executable.contains line

/-- The quality of data that rests on the analysis. -/
def quality (analysis : Analysis) : Quality := if analysis.parsed then .full else .heuristic

/-- The lines that can run. -/
def executableLines (lines : List Classification) : LineSet :=
  (lines.zipIdx 1).foldl
    (fun executable entry => if entry.1.executable then executable.insert entry.2 else executable) ∅

/-- Classifications with those lines replaced that tokens mark. -/
def overlay (policy : StructuralPolicy) (types : LineMap LineType) (lines : List Classification) :
    List Classification :=
  (lines.zipIdx 1).map fun entry =>
    match types[entry.2]? with
    | none => entry.1
    | some lineType => .ofType policy lineType (markReason lineType)

/-- The table of some blocks, added in order, and how many waiting children their parents found. -/
def tableOf (blocks : List BlockRecord) : BlockTable × Nat :=
  blocks.foldl
    (fun progress block =>
      let (table, resolved) := progress.1.insert block
      (table, progress.2 + resolved))
    (BlockTable.empty, 0)

/-- The analysis of a source without a syntax tree. -/
def withoutTree (settings : AnalysisSettings) (source fileId : String) (reason : Degradation) :
    Analysis :=
  let lines := classifyText settings.policy (Text.lines source)
  { fileId := fileId
    lines := lines
    blocks := .empty
    functions := []
    executable := executableLines lines
    statements := []
    conditions := []
    functionBodies := []
    requires := []
    degraded := some reason
    blockFixes := {} }

/-- The analysis of a source with a given syntax tree. -/
def ofTree (settings : AnalysisSettings) (source fileId : String) (tree : Syntax.Node) : Analysis :=
  let lines := overlay settings.policy (lineTypes tree)
    (classifyText settings.policy (Text.lines source))
  let outline := Outline.ofTree source tree
  let (table, resolved) := tableOf outline.blocks
  let (settled, fixes) := table.resolve
  { fileId := fileId
    lines := lines
    blocks := settled
    functions := outline.functions
    executable := executableLines lines
    statements := outline.statements
    conditions := outline.conditions
    functionBodies := outline.bodies
    requires := outline.requires.eraseDups
    degraded := none
    blockFixes := { fixes with pendingResolved := resolved + fixes.pendingResolved } }

end Analysis

/-- The analysis of a source. -/
def analyze (settings : AnalysisSettings) (source fileId : String) : Analysis :=
  if settings.maxFileBytes < source.utf8ByteSize then
    .withoutTree settings source fileId .tooLarge
  else
    match Syntax.parse? source with
    | none => .withoutTree settings source fileId .parseError
    | some tree => .ofTree settings source fileId tree

end LuaCoverage
