import LuaCoverage.Store.FileRecord

/-!
# Settling records against an analysis

Hits can be recorded where nothing can run: before any analysis was at hand, in a file that was only
classified by text, or by a host that reports the `end` of a block. Settling a file against an
analysis clears such marks and ends all guesses. It only ever lowers marks and counts.
-/

set_option autoImplicit false

namespace LuaCoverage

namespace LineRecord

/-- The record without a guess: a provisional record takes the classification of the line. -/
def settle (record : LineRecord) (verdict : Classification) : LineRecord :=
  if record.provisional then
    { record with
      executable := verdict.executable
      lineType := verdict.lineType
      reason := verdict.reason
      provisional := false }
  else record

/-- The record without marks that the classification of the line does not allow. -/
def strip (record : LineRecord) (verdict : Classification) : LineRecord :=
  if !verdict.executable && (record.executed || record.covered) then
    { record with
      executed := false
      covered := false
      executionCount := 0
      lineType := verdict.lineType
      reason := verdict.reason }
  else record

/-- The record of a line outside the source. -/
def outside : LineRecord := ⟨false, false, false, 0, .blank, .blank, false⟩

/-- The record of a line, settled against its classification if the source has the line. A line that
was not executed is not covered. -/
def reclassify (record : LineRecord) (verdict : Option Classification) : LineRecord :=
  let settled := match verdict with
    | none => outside
    | some found => (record.settle found).strip found
  { settled with covered := settled.covered && settled.executed }

end LineRecord

namespace FileRecord

/-- The file settled against an analysis of its source, and how many line records changed. -/
def reclassify (file : FileRecord) (analysis : Analysis) : FileRecord × Nat :=
  ({ file with
      lines := file.lines.map fun line record =>
        record.reclassify (analysis.classification? line) },
   (file.lines.toList.filter fun entry =>
      entry.2.reclassify (analysis.classification? entry.1) != entry.2).length)

end FileRecord

end LuaCoverage
