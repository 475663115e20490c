import LuaCoverage.Document.Records

/-!
# Source maps

A source map tells, for every line of an instrumented text, the line of the source that it came
from. An injected line counts as coming from the line of the statement it precedes, so a map never
decreases, and the last of the output lines that come from one source line is the one that holds its
text.

Looking up an output line is a plain index. Looking up a source line is a binary search for the
place where the map grows past it.
-/

set_option autoImplicit false

namespace LuaCoverage

/-- For each output line, from the first on, the source line it came from. -/
structure SourceMap where
  lines : Array Nat
  deriving DecidableEq

namespace SourceMap

/-- The map of a text whose lines were not moved. -/
def identity (count : Nat) : SourceMap := ⟨((List.range count).map (· + 1)).toArray⟩

/-- The source line of an output line. -/
def sourceLine? (map : SourceMap) (output : Nat) : Option Nat :=
  if output = 0 then none else map.lines[output - 1]?

/-- Searches a stretch of the map for the first entry beyond a given line, where all entries before
the stretch are not beyond it and all entries after it are. The stretch at least halves in every
step. -/
def firstBeyond (map : SourceMap) (line : Nat) : Nat → Nat → Nat → Nat
  | 0, low, _ => low
  | steps + 1, low, size =>
      if size = 0 then low
      else
        let half := size / 2
        let middle := low + half
        if map.lines.getD middle 0 ≤ line then
          map.firstBeyond line steps (middle + 1) (size - half - 1)
        else map.firstBeyond line steps low half

/-- How many entries of the map are not beyond a given line. -/
def partitionPoint (map : SourceMap) (line : Nat) : Nat :=
  map.firstBeyond line map.lines.size 0 map.lines.size

/-- The output line that holds the text of a source line. -/
def outputLine? (map : SourceMap) (line : Nat) : Option Nat :=
  let point := map.partitionPoint line
  if point ≠ 0 ∧ map.lines[point - 1]? = some line then some point else none

/-- Each output line with its source line. -/
def entries (map : SourceMap) : List (Nat × Nat) :=
  (map.lines.toList.zipIdx 1).map fun entry => (entry.2, entry.1)

/-- The document of a source map. -/
def toJson (map : SourceMap) : Json.Value :=
  .ofMembers [("original", .ofList Json.Value.ofNat map.lines.toList)]

/-- Reads a source map. -/
def ofJson? (document : Json.Value) : Option SourceMap := do
  let [field] ← document.fields? ["original"] | none
  let lines ← Json.Value.required (Json.Value.list? Json.Value.nat32?) field
  return ⟨lines.toArray⟩

end SourceMap

end LuaCoverage
