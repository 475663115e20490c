import LuaCoverage.Document.Records
import LuaCoverage.Json.Writer
import LuaCoverage.Error
import LuaCoverage.Store.Basic

/-!
# Snapshots

A snapshot is the document of a store: the counts over all files, and for each file everything that
collecting has found. It may say when it was made. Line indexes are not written, because they follow
from the rest; reading a snapshot makes them anew. Nor are the counts read, for the same reason.
-/

set_option autoImplicit false

namespace LuaCoverage

open Json

/-! ## Summaries -/

/-- The document of the counts over files. -/
def Summary.toJson (summary : Summary) : Value :=
  .ofMembers
    [("files", .ofNat summary.files), ("executable_lines", .ofNat summary.executableLines),
     ("executed_lines", .ofNat summary.executedLines),
     ("covered_lines", .ofNat summary.coveredLines), ("total_blocks", .ofNat summary.totalBlocks),
     ("executed_blocks", .ofNat summary.executedBlocks),
     ("total_functions", .ofNat summary.totalFunctions),
     ("executed_functions", .ofNat summary.executedFunctions)]

/-- Reads the counts over files. -/
def Summary.ofJson? (document : Value) : Option Summary := do
  let [files, executableLines, executedLines, coveredLines, totalBlocks, executedBlocks,
      totalFunctions, executedFunctions] ←
    document.fields? ["files", "executable_lines", "executed_lines", "covered_lines",
      "total_blocks", "executed_blocks", "total_functions", "executed_functions"] | none
  return {
    files := ← Value.required Value.nat64? files
    executableLines := ← Value.required Value.nat64? executableLines
    executedLines := ← Value.required Value.nat64? executedLines
    coveredLines := ← Value.required Value.nat64? coveredLines
    totalBlocks := ← Value.required Value.nat64? totalBlocks
    executedBlocks := ← Value.required Value.nat64? executedBlocks
    totalFunctions := ← Value.required Value.nat64? totalFunctions
    executedFunctions := ← Value.required Value.nat64? executedFunctions }

/-! ## Files -/

/-- The document of a file record. -/
def FileRecord.toJson (file : FileRecord) : Value :=
  .ofMembers
    [("path", .ofString file.path), ("source", .ofList Value.ofString file.source),
     ("lines", numberedToJson LineRecord.toJson file.lines), ("blocks", file.blocks.toJson),
     ("functions", numberedToJson FunctionRecord.toJson file.functions),
     ("discovered", .bool file.discovered), ("active", .bool file.active),
     ("quality", file.quality.toJson), ("instrumented", .bool file.instrumented)]

/-- Reads a file record, without a line index. -/
def FileRecord.ofJson? (document : Value) : Option FileRecord := do
  let [path, source, lines, blocks, functions, discovered, active, quality, instrumented] ←
    document.fields? ["path", "source", "lines", "blocks", "functions", "discovered", "active",
      "quality", "instrumented"] | none
  return {
    path := ← Value.required Value.text? path
    source := ← Value.required (Value.list? Value.text?) source
    lines := ← Value.required (numberedOfJson? LineRecord.ofJson?) lines
    blocks := ← Value.required BlockTable.ofJson? blocks
    functions := ← Value.required (numberedOfJson? FunctionRecord.ofJson?) functions
    discovered := ← Value.required Value.bool? discovered
    active := ← Value.required Value.bool? active
    quality := ← Value.required Quality.ofJson? quality
    instrumented := ← Value.required Value.bool? instrumented }

namespace CoverageStore

/-! ## Stores -/

/-- The members of the snapshot of a store. -/
def snapshotMembers (store : CoverageStore) : List (String × Value) :=
  [("summary", store.summary.toJson),
   ("files", .ofMembers (store.files.toList.map fun entry => (entry.1, entry.2.toJson)))]

/-- The snapshot of a store. -/
def snapshot (store : CoverageStore) : Value := .ofMembers store.snapshotMembers

/-- The snapshot of a store that says when it was made. -/
def snapshotAt (store : CoverageStore) (time : String) : Value :=
  .ofMembers (("generated_at", .ofString time) :: store.snapshotMembers)

/-- Reads a store from a snapshot; anything but the files is skipped. -/
def ofSnapshot? (document : Value) : Option CoverageStore := do
  let [files] ← document.fields? ["files"] | none
  let entries ← Value.required (Value.entries? decodeText? FileRecord.ofJson?) files
  return ⟨entries.foldl (fun map entry => map.insert entry.1 entry.2.reindex) ∅⟩

/-- The text of the snapshot of a store. -/
def render (store : CoverageStore) : String := store.snapshot.renderIn .indented

/-- The text of the snapshot of a store that says when it was made. -/
def renderAt (store : CoverageStore) (time : String) : String :=
  (store.snapshotAt time).renderIn .indented

/-- Reads a store from the text of a snapshot. -/
def parse (text : String) : Except CoverageError CoverageStore :=
  match (Json.parse text).bind ofSnapshot? with
  | some store => .ok store
  | none => .error .document

end CoverageStore

end LuaCoverage
