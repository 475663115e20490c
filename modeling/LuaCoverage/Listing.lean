import LuaCoverage.Document.Words
import LuaCoverage.Instrument.SourceMap
import LuaCoverage.Text.Lines

/-!
# Listings

Plain texts about one source: how an analysis classifies its lines and which blocks, functions and
required modules it found, and where the lines of an instrumented source came from.
-/

set_option autoImplicit false

namespace LuaCoverage.Listing

open Text

/-- A line of dashes. -/
def rule (width : Nat) : String := String.ofList (List.replicate width '-') ++ "\n"

/-! ## Analyses -/

/-- How a source was classified. -/
def verdict (analysis : Analysis) : String :=
  match analysis.degraded with
  | none => "  parsed\n"
  | some reason => "  lexical classification only (" ++ reason.description ++ ")\n"

/-- A row of the table of lines. -/
def lineRow (line lineType executable reason text : String) : String :=
  padLeft 6 line ++ "  " ++ padRight 11 lineType ++ " " ++ padRight 4 executable ++ " "
    ++ padRight 18 reason ++ " " ++ text ++ "\n"

/-- The rows of some classified lines, from a line number on. -/
def lineRows : Nat → List Classification → List String → String
  | line, verdict :: verdicts, text :: texts =>
      lineRow (toString line) verdict.lineType.label (if verdict.executable then "yes" else "no")
        verdict.reason.word text
      ++ lineRows (line + 1) verdicts texts
  | _, _, _ => ""

/-- The row of a block. -/
def blockRow (block : BlockRecord) : String :=
  let parent := match block.parentId with
    | none => "-"
    | some id => BlockId.label id
  "  " ++ padRight 8 (BlockId.label block.id) ++ " " ++ padRight 9 block.kind.label ++ " "
    ++ padLeft 5 (toString block.startLine) ++ "-" ++ padRight 5 (toString block.endLine)
    ++ " parent " ++ parent ++ "\n"

/-- The row of a function. -/
def functionRow (function : FunctionRecord) : String :=
  "  " ++ padRight 24 (function.name.getD "<anonymous>") ++ " " ++ padRight 9 function.kind.word
    ++ " " ++ padLeft 5 (toString function.startLine) ++ "-" ++ toString function.endLine ++ "\n"

/-- A titled part of a listing, left out where it has no rows. -/
def part (title : String) (rows : List String) : String :=
  if rows.isEmpty then "" else "\n" ++ title ++ ":\n" ++ String.join rows

/-- The listing of an analysis. -/
def ofAnalysis (source : String) (analysis : Analysis) : String :=
  analysis.fileId ++ "\n" ++ verdict analysis
    ++ lineRow "LINE" "TYPE" "EXEC" "REASON" "SOURCE" ++ rule 60
    ++ lineRows 1 analysis.lines (Text.lines source)
    ++ part "Blocks" (analysis.blocks.blocks.values.map blockRow)
    ++ part "Functions" (analysis.functions.map functionRow)
    ++ if analysis.requires.isEmpty then ""
      else "\nRequires: " ++ ", ".intercalate analysis.requires ++ "\n"

/-! ## Source maps -/

/-- A row of the table of a source map. -/
def mapRow (output source : String) : String :=
  padLeft 6 output ++ "  " ++ padLeft 8 source ++ "\n"

/-- The listing of a source map. -/
def ofSourceMap (map : SourceMap) : String :=
  mapRow "OUTPUT" "ORIGINAL" ++ rule 16
    ++ String.join (map.entries.map fun entry => mapRow (toString entry.1) (toString entry.2))

end LuaCoverage.Listing
