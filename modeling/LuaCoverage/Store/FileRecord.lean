import LuaCoverage.Analysis.Basic
import LuaCoverage.Store.LineIndex

/-!
# The coverage of one file

A file record collects the lines, blocks and functions of one file with the hits on them. It carries
a line index that was made from them; an operation that changes what the index depends on makes a
new one (`reindex`), and the recording of hits only reads it.

A hit says how much is known about where it came from: only the line, the block that was running, or
nothing but that the line is part of a statement that was already credited.
-/

set_option autoImplicit false

namespace LuaCoverage

/-- Counts over one file, or over all files. -/
structure Summary where
  files : Nat := 0
  executableLines : Nat := 0
  executedLines : Nat := 0
  coveredLines : Nat := 0
  totalBlocks : Nat := 0
  executedBlocks : Nat := 0
  totalFunctions : Nat := 0
  executedFunctions : Nat := 0
  deriving DecidableEq, Repr

/-- The counts over two sets of files together. -/
def Summary.add (first second : Summary) : Summary :=
  ⟨first.files + second.files, first.executableLines + second.executableLines,
   first.executedLines + second.executedLines, first.coveredLines + second.coveredLines,
   first.totalBlocks + second.totalBlocks, first.executedBlocks + second.executedBlocks,
   first.totalFunctions + second.totalFunctions,
   first.executedFunctions + second.executedFunctions⟩

/-- The coverage state of one file. -/
structure FileRecord where
  path : String
  /-- The lines of the source, if it was available. -/
  source : List String := []
  lines : LineMap LineRecord := ∅
  blocks : BlockTable := .empty
  functions : Std.ExtTreeMap Nat FunctionRecord := ∅
  /-- Whether the file was seen, tracked or not. -/
  discovered : Bool := true
  /-- Whether hits on the file are recorded. -/
  active : Bool := false
  quality : Quality := .untracked
  instrumented : Bool := false
  index : LineIndex := {}
  deriving DecidableEq

/-- How a hit is credited to blocks. -/
inductive Attribution where
  /-- Only the line is known. -/
  | line
  /-- The block that ran the line is known. -/
  | block (id : BlockId)
  /-- The statement was credited before. -/
  | lineOnly
  deriving DecidableEq, Repr

namespace FileRecord

/-- Whether an analysis of the file was adopted. -/
def isAnalyzed (file : FileRecord) : Bool := file.quality != .untracked

/-- Whether some line still waits for an analysis to settle it. -/
def isProvisional (file : FileRecord) : Bool :=
  file.lines.any fun _ record => record.provisional

/-- The block that a hit on a line is attributed to. -/
def ownerOf (file : FileRecord) (line : Nat) : Option BlockId := file.index.owner[line]?

/-- The record with an index made from what it holds now. -/
def reindex (file : FileRecord) : FileRecord :=
  { file with index := .build file.lines file.blocks file.functions }

/-- The counts over one file. -/
def summary (file : FileRecord) : Summary :=
  let runnable := file.lines.values.filter LineRecord.executable
  let executed := runnable.filter LineRecord.executed
  { files := if file.active then 1 else 0
    executableLines := runnable.length
    executedLines := executed.length
    coveredLines := (executed.filter LineRecord.covered).length
    totalBlocks := file.blocks.blocks.size
    executedBlocks := (file.blocks.blocks.values.filter BlockRecord.executed).length
    totalFunctions := file.functions.size
    executedFunctions := (file.functions.values.filter FunctionRecord.executed).length }

/-! ## Structure -/

/-- The record with the blocks and functions of an analysis. Blocks and functions that it has
already keep their hits. -/
def adoptOutline (file : FileRecord) (analysis : Analysis) : FileRecord :=
  let blocks := analysis.blocks.blocks.values.foldl
    (fun table block => (table.insert block).1) file.blocks
  let functions := analysis.functions.foldl
    (fun known function => known.insertIfNew function.id function) file.functions
  { file with blocks := blocks, functions := functions, quality := analysis.quality }.reindex

/-- The record with the lines of an analysis. Lines that it has already stay as they are. -/
def adoptLines (file : FileRecord) (lines : List Classification) : FileRecord :=
  { file with
    lines := (lines.zipIdx 1).foldl
      (fun known entry => known.insertIfNew entry.2 (.ofClassification entry.1)) file.lines }

/-- The record of a file that is tracked from now on with an analysis of its source. A file that was
analyzed before stays as it is. -/
def register (file : FileRecord) (source : String) (analysis : Analysis) : FileRecord :=
  if file.active && file.isAnalyzed then file
  else
    let described := { file with source := Text.lines source }.adoptLines analysis.lines
    { described with active := true, discovered := true }.adoptOutline analysis

/-! ## Hits -/

/-- The record of a line, made up if the line is not known. -/
def lineOrUnclassified (file : FileRecord) (line : Nat) : LineRecord :=
  (file.lines[line]?).getD (.unclassified file.isAnalyzed)

/-- Credits a hit of which only the line is known: the blocks it enters, and the owner of the
line. -/
def creditLine (index : LineIndex) (line : Nat) (table : BlockTable) : BlockTable :=
  let entered := index.entered line
  let after := entered.foldl BlockTable.enterBlock table
  match index.owner[line]? with
  | none => after
  | some owner => if entered.contains owner then after else after.witnessBlock owner

/-- Credits a hit in a known block: the block, which is entered on its first line that can run, and
the blocks that the statement opens. -/
def creditBlock (index : LineIndex) (line : Nat) (id : BlockId) (table : BlockTable) : BlockTable :=
  let isEntry := index.entry[id]? == some line && !index.headed.contains id
  let after := if isEntry then table.enterBlock id else table.witnessBlock id
  (index.opened id line).foldl BlockTable.enterBlock after

/-- The record after one execution of a line. -/
def hit (file : FileRecord) (line : Nat) (attribution : Attribution) : FileRecord :=
  let counted :=
    { file with lines := file.lines.insert line (file.lineOrUnclassified line).hit }
  match attribution with
  | .line => { counted with blocks := creditLine file.index line file.blocks }
  | .block id => { counted with blocks := creditBlock file.index line id file.blocks }
  | .lineOnly => counted

/-- The record after a call of the function that starts on a line; nothing happens if none does. -/
def call (file : FileRecord) (line : Nat) : Option FileRecord := do
  let id ← file.index.functionAt[line]?
  if file.functions.contains id then
    some { file with functions := file.functions.modify id FunctionRecord.call }
  else none

/-- The record after a call of the function that lies on one line alone; nothing happens if none
does. -/
def callInline (file : FileRecord) (line : Nat) : Option FileRecord := do
  let id ← file.index.inlineFunction[line]?
  if file.blocks.blocks.contains id then some { file with blocks := file.blocks.enterBlock id }
  else none

/-- The record with an executed line that can run marked as covered; no answer for any other
line. -/
def cover (file : FileRecord) (line : Nat) : Option FileRecord := do
  let record ← file.lines[line]?
  if record.executed && record.executable then
    some { file with lines := file.lines.insert line { record with covered := true } }
  else none

/-! ## Consistency -/

/-- A line record without marks that its other marks do not allow. -/
def enforceLine (record : LineRecord) : LineRecord :=
  let executed := record.executed && record.executable
  { record with executed := executed, covered := record.covered && executed }

/-- The record with marks cleared that contradict others, and how many lines that changed. -/
def enforce (file : FileRecord) : FileRecord × Nat :=
  ({ file with lines := file.lines.map fun _ record => enforceLine record },
   (file.lines.values.filter fun record => enforceLine record != record).length)

/-- The record with its block table repaired. -/
def resolveBlocks (file : FileRecord) : FileRecord × RepairReport :=
  let (table, report) := file.blocks.resolve
  ({ file with blocks := table }.reindex, report)

end FileRecord

end LuaCoverage
