import LuaCoverage.Store.FileRecord

/-!
# Merging coverage

Coverage of one file that was collected in two places is put together by adding counts and uniting
flags. What one side knows from an analysis settles what the other side only guessed. The quality of
the result is the worse of the two among the sides that tracked the file.
-/

set_option autoImplicit false

namespace LuaCoverage

/-- Our record of a line with theirs added. Their classification counts if ours is a guess and
theirs is not. -/
def LineRecord.merge (ours theirs : LineRecord) : LineRecord :=
  let settled :=
    if ours.provisional && !theirs.provisional then
      { ours with
        executable := theirs.executable
        lineType := theirs.lineType
        reason := theirs.reason
        provisional := false }
    else ours
  { settled with
    executed := settled.executed || theirs.executed
    covered := settled.covered || theirs.covered
    executionCount := settled.executionCount + theirs.executionCount }

/-- Our record of a block with the hits of theirs added. -/
def BlockRecord.merge (ours theirs : BlockRecord) : BlockRecord :=
  { ours with
    executed := ours.executed || theirs.executed
    executionCount := ours.executionCount + theirs.executionCount }

/-- Our record of a function with the calls of theirs added. -/
def FunctionRecord.merge (ours theirs : FunctionRecord) : FunctionRecord :=
  { ours with
    executed := ours.executed || theirs.executed
    executionCount := ours.executionCount + theirs.executionCount }

/-- Our block table with one of their blocks added. -/
def BlockTable.mergeBlock (table : BlockTable) (theirs : BlockRecord) : BlockTable :=
  if table.blocks.contains theirs.id then
    table.modifyBlock theirs.id fun ours => ours.merge theirs
  else (table.insert theirs).1

namespace FileRecord

/-- The quality of a file that was collected in two places. -/
def mergedQuality (ours theirs : FileRecord) : Quality :=
  if theirs.active && (!ours.active || ours.quality.rank < theirs.quality.rank) then theirs.quality
  else ours.quality

/-- Our record of a file with theirs added. -/
def merge (ours theirs : FileRecord) : FileRecord :=
  { ours with
    quality := mergedQuality ours theirs
    discovered := ours.discovered || theirs.discovered
    active := ours.active || theirs.active
    instrumented := ours.instrumented || theirs.instrumented
    source := if ours.source.isEmpty then theirs.source else ours.source
    lines := ours.lines.mergeWith (fun _ left right => left.merge right) theirs.lines
    blocks := theirs.blocks.blocks.values.foldl BlockTable.mergeBlock ours.blocks
    functions :=
      ours.functions.mergeWith (fun _ left right => left.merge right) theirs.functions }.reindex

end FileRecord

end LuaCoverage
