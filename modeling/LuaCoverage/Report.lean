import LuaCoverage.Document.Words
import LuaCoverage.Store.Basic
import LuaCoverage.Text.Lines
import LuaCoverage.Text.Percentage

/-!
# Reports

Plain texts about a store: the counts over all files, a table with one row per file, and the lines
that can run but did not.

Unexecuted lines are gathered into ranges. A range goes on over blank lines, comments and other
lines that hold no code of their own, and also over line numbers without a record; a line that ran
ends it, and so does a line of code that cannot run. A range begins and ends with an unexecuted
line.
-/

set_option autoImplicit false

namespace LuaCoverage

/-! ## Unexecuted lines -/

/-- Whether a line can run and did not. -/
def LineRecord.isMissed (record : LineRecord) : Bool := record.executable && !record.executed

/-- Whether a range of unexecuted lines goes on over a line. -/
def LineRecord.isPassedOver (record : LineRecord) : Bool :=
  !record.executable && record.lineType != .code

/-- The ranges of unexecuted lines, where one may be open already. -/
def missedFrom : Option (Nat × Nat) → List (Nat × LineRecord) → List (Nat × Nat)
  | range, [] => range.toList
  | range, (line, record) :: rest =>
      if record.isMissed then
        match range with
        | none => missedFrom (some (line, line)) rest
        | some (start, _) => missedFrom (some (start, line)) rest
      else if record.isPassedOver then missedFrom range rest
      else range.toList ++ missedFrom none rest

/-- The ranges of unexecuted lines of a file, by first and last line. -/
def FileRecord.missedRanges (file : FileRecord) : List (Nat × Nat) :=
  missedFrom none file.lines.toList

/-- The unexecuted lines of a file. -/
def FileRecord.missedLines (file : FileRecord) : List Nat :=
  (file.lines.toList.filter fun entry => entry.2.isMissed).map Prod.fst

namespace Report

/-- The text of ranges of lines. -/
def ranges (lines : List (Nat × Nat)) : String :=
  ", ".intercalate (lines.map fun range =>
    if range.1 = range.2 then toString range.1
    else toString range.1 ++ "-" ++ toString range.2)

/-! ## Counts -/

/-- The text of a rate as a percentage, without the sign. -/
def percentage (some total : Nat) : String := Text.oneDecimal (Text.rate some total * 100.0)

/-- A row of the counts: some among a total, with the rate. -/
def countRow (label : String) (some total : Nat) : String :=
  label ++ toString some ++ "/" ++ toString total ++ " (" ++ percentage some total ++ "%)\n"

/-- The text of the counts over files. Blocks and functions are left out where there are none. -/
def counts (summary : Summary) : String :=
  "Files:      " ++ toString summary.files ++ "\n"
    ++ countRow "Executed:   " summary.executedLines summary.executableLines
    ++ countRow "Covered:    " summary.coveredLines summary.executableLines
    ++ (if 0 < summary.totalBlocks then
          countRow "Blocks:     " summary.executedBlocks summary.totalBlocks
        else "")
    ++ if 0 < summary.totalFunctions then
        countRow "Functions:  " summary.executedFunctions summary.totalFunctions
      else ""

/-! ## Files -/

/-- A row of the table of files. -/
def fileRow (name quality executable executed rate : String) : String :=
  Text.padRight 56 name ++ " " ++ Text.padLeft 9 quality ++ " " ++ Text.padLeft 8 executable ++ " "
    ++ Text.padLeft 8 executed ++ " " ++ Text.padLeft 8 rate ++ "\n"

/-- The word for the quality of a file's data; a file that is not tracked has none. -/
def qualityWord (file : FileRecord) : String :=
  if file.active then file.quality.word else Quality.untracked.word

/-- The row of one file. -/
def rowOf (file : FileRecord) : String :=
  let summary := file.summary
  fileRow file.path (qualityWord file) (toString summary.executableLines)
    (toString summary.executedLines)
    (percentage summary.executedLines summary.executableLines ++ "%")

/-- A key by which files with lower execution rates come first. The bits of nonnegative numbers are
in the order of the numbers. -/
def rateKey (file : FileRecord) : Nat :=
  let summary := file.summary
  (Text.rate summary.executedLines summary.executableLines).toBits.toNat

/-- The table of all files, by path or with the lowest execution rates first. -/
def files (store : CoverageStore) (byRate : Bool) : String :=
  let all := store.files.values
  let rows :=
    if byRate then all.mergeSort fun first second => rateKey first ≤ rateKey second else all
  fileRow "FILE" "QUALITY" "LINES" "EXEC" "RATE"
    ++ String.ofList (List.replicate 93 '-') ++ "\n"
    ++ String.join (rows.map rowOf)

/-! ## One file -/

/-- The word for what became of a line that can run. -/
def stateWord (record : LineRecord) : String :=
  if record.covered then "covered" else if record.executed then "hit" else "missed"

/-- A row of the table of lines. -/
def lineRow (line count state : String) : String :=
  Text.padLeft 6 line ++ "  " ++ Text.padLeft 10 count ++ "  " ++ Text.padRight 7 state ++ "\n"

/-- The table of the lines of a file that can run. -/
def lines (file : FileRecord) : String :=
  let runnable := file.lines.toList.filter fun entry => entry.2.executable
  lineRow "LINE" "COUNT" "STATE" ++ String.ofList (List.replicate 27 '-') ++ "\n"
    ++ String.join (runnable.map fun entry =>
      lineRow (toString entry.1) (toString entry.2.executionCount) (stateWord entry.2))

/-- The lines of a file that can run but did not, where the file goes by a given name. -/
def unexecuted (name : String) (file : FileRecord) : String :=
  let missing := file.missedLines
  if missing.isEmpty then "All executable lines ran in '" ++ name ++ "'\n"
  else
    "Unexecuted lines in '" ++ name ++ "':\n"
      ++ "  " ++ ranges file.missedRanges ++ "\n"
      ++ "  (" ++ toString missing.length ++ " lines)\n"

/-- What is said of one file of a store, in a given way. -/
def ofFile (store : CoverageStore) (name : String) (describe : FileRecord → String) : String :=
  match store.files[name]? with
  | none => "No coverage data for '" ++ name ++ "'\n"
  | some file => describe file

end Report

end LuaCoverage
