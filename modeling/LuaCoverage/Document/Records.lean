import LuaCoverage.Document.Words

/-!
# Records as documents

The records of lines, blocks and functions are written as objects with one member per field and read
by the rules for records. Maps by number become objects whose member names are the numbers, in
increasing order; sets of numbers become increasing lists. Reading a map or a set accepts any order,
and of two entries of one key the later counts.
-/

set_option autoImplicit false

namespace LuaCoverage

open Json

/-! ## Numbers, sets and maps -/

/-- The document of a hit count. -/
def countToJson (count : UInt64) : Value := .ofNat count.toNat

/-- Reads a hit count. -/
def countOfJson? (document : Value) : Option UInt64 := document.nat64?.map UInt64.ofNat

/-- The document of a set of numbers. -/
def numbersToJson (numbers : Std.ExtTreeSet Nat) : Value := .ofList Value.ofNat numbers.toList

/-- Reads a set of numbers. -/
def numbersOfJson? (document : Value) : Option (Std.ExtTreeSet Nat) :=
  (document.list? Value.nat32?).map fun numbers =>
    numbers.foldl (fun set number => set.insert number) ∅

/-- The document of a map by number. -/
def numberedToJson {α : Type} (item : α → Value) (entries : Std.ExtTreeMap Nat α) : Value :=
  .ofMembers (entries.toList.map fun entry => (toString entry.1, item entry.2))

/-- Reads a map by number. -/
def numberedOfJson? {α : Type} (item? : Value → Option α) (document : Value) :
    Option (Std.ExtTreeMap Nat α) :=
  (document.entries? Value.nat32Key? item?).map fun entries =>
    entries.foldl (fun map entry => map.insert entry.1 entry.2) ∅

/-! ## Lines -/

/-- The document of a line record. -/
def LineRecord.toJson (record : LineRecord) : Value :=
  .ofMembers
    [("executable", .bool record.executable), ("executed", .bool record.executed),
     ("covered", .bool record.covered), ("execution_count", countToJson record.executionCount),
     ("line_type", record.lineType.toJson), ("reason", record.reason.toJson),
     ("provisional", .bool record.provisional)]

/-- Reads a line record. -/
def LineRecord.ofJson? (document : Value) : Option LineRecord := do
  let [executable, executed, covered, executionCount, lineType, reason, provisional] ←
    document.fields? ["executable", "executed", "covered", "execution_count", "line_type", "reason",
      "provisional"] | none
  return {
    executable := ← Value.required Value.bool? executable
    executed := ← Value.required Value.bool? executed
    covered := ← Value.required Value.bool? covered
    executionCount := ← Value.required countOfJson? executionCount
    lineType := ← Value.required LineType.ofJson? lineType
    reason := ← Value.required Reason.ofJson? reason
    provisional := ← Value.required Value.bool? provisional }

/-! ## Blocks -/

/-- The document of a block record. -/
def BlockRecord.toJson (record : BlockRecord) : Value :=
  .ofMembers
    [("id", .ofNat record.id), ("kind", record.kind.toJson),
     ("branch", .ofOption Branch.toJson record.branch), ("start_line", .ofNat record.startLine),
     ("end_line", .ofNat record.endLine), ("parent_id", .ofOption Value.ofNat record.parentId),
     ("children", numbersToJson record.children), ("executed", .bool record.executed),
     ("execution_count", countToJson record.executionCount)]

/-- Reads a block record. -/
def BlockRecord.ofJson? (document : Value) : Option BlockRecord := do
  let [id, kind, branch, startLine, endLine, parentId, children, executed, executionCount] ←
    document.fields? ["id", "kind", "branch", "start_line", "end_line", "parent_id", "children",
      "executed", "execution_count"] | none
  return {
    id := ← Value.required Value.nat32? id
    kind := ← Value.required BlockKind.ofJson? kind
    branch := ← Value.optional Branch.ofJson? branch
    startLine := ← Value.required Value.nat32? startLine
    endLine := ← Value.required Value.nat32? endLine
    parentId := ← Value.optional Value.nat32? parentId
    children := ← Value.required numbersOfJson? children
    executed := ← Value.required Value.bool? executed
    executionCount := ← Value.required countOfJson? executionCount }

/-- The document of a block table. -/
def BlockTable.toJson (table : BlockTable) : Value :=
  .ofMembers
    [("blocks", numberedToJson BlockRecord.toJson table.blocks),
     ("root_children", numbersToJson table.rootChildren),
     ("pending", numberedToJson numbersToJson table.pending),
     ("orphans", numberedToJson Value.ofNat table.orphans)]

/-- Reads a block table. -/
def BlockTable.ofJson? (document : Value) : Option BlockTable := do
  let [blocks, rootChildren, pending, orphans] ←
    document.fields? ["blocks", "root_children", "pending", "orphans"] | none
  return {
    blocks := ← Value.required (numberedOfJson? BlockRecord.ofJson?) blocks
    rootChildren := ← Value.required numbersOfJson? rootChildren
    pending := ← Value.required (numberedOfJson? numbersOfJson?) pending
    orphans := ← Value.required (numberedOfJson? Value.nat32?) orphans }

/-- The document of a report on a repair. -/
def RepairReport.toJson (report : RepairReport) : Value :=
  .ofMembers
    [("relationships_fixed", .ofNat report.relationshipsFixed),
     ("pending_resolved", .ofNat report.pendingResolved),
     ("orphans_reattached", .ofNat report.orphansReattached)]

/-! ## Functions -/

/-- The document of a function record. -/
def FunctionRecord.toJson (record : FunctionRecord) : Value :=
  .ofMembers
    [("id", .ofNat record.id), ("name", .ofOption Value.ofString record.name),
     ("kind", record.kind.toJson), ("start_line", .ofNat record.startLine),
     ("end_line", .ofNat record.endLine), ("executed", .bool record.executed),
     ("execution_count", countToJson record.executionCount)]

/-- Reads a function record. -/
def FunctionRecord.ofJson? (document : Value) : Option FunctionRecord := do
  let [id, name, kind, startLine, endLine, executed, executionCount] ←
    document.fields? ["id", "name", "kind", "start_line", "end_line", "executed",
      "execution_count"] | none
  return {
    id := ← Value.required Value.nat32? id
    name := ← Value.optional Value.text? name
    kind := ← Value.required FunctionKind.ofJson? kind
    startLine := ← Value.required Value.nat32? startLine
    endLine := ← Value.required Value.nat32? endLine
    executed := ← Value.required Value.bool? executed
    executionCount := ← Value.required countOfJson? executionCount }

/-! ## Analyses -/

/-- The document of a classification. -/
def Classification.toJson (verdict : Classification) : Value :=
  .array [verdict.lineType.toJson, .bool verdict.executable, verdict.reason.toJson]

/-- The document of a statement start. -/
def Statement.toJson (start : Statement) : Value :=
  .ofMembers
    [("line", .ofNat start.line), ("end_line", .ofNat start.endLine), ("byte", .ofNat start.byte),
     ("block", .ofNat start.block)]

/-- The document of a condition. -/
def Condition.toJson (condition : Condition) : Value :=
  .ofMembers
    [("line", .ofNat condition.line), ("end_line", .ofNat condition.endLine),
     ("start_byte", .ofNat condition.startByte), ("end_byte", .ofNat condition.endByte),
     ("block", .ofNat condition.block)]

/-- The document of the start of a function's body. -/
def FunctionBody.toJson (start : FunctionBody) : Value :=
  .ofMembers [("line", .ofNat start.line), ("byte", .ofNat start.byte)]

/-- The members of the document of an analysis. -/
def Analysis.members (analysis : Analysis) : List (String × Value) :=
  [("file_id", .ofString analysis.fileId),
   ("lines", .ofList Classification.toJson analysis.lines),
   ("blocks", analysis.blocks.toJson),
   ("functions", .ofList FunctionRecord.toJson analysis.functions),
   ("executable", numbersToJson analysis.executable),
   ("statements", .ofList Statement.toJson analysis.statements),
   ("conditions", .ofList Condition.toJson analysis.conditions),
   ("function_bodies", .ofList FunctionBody.toJson analysis.functionBodies),
   ("requires", .ofList Value.ofString analysis.requires),
   ("degraded", .ofOption (fun reason => .ofString reason.word) analysis.degraded),
   ("block_fixes", analysis.blockFixes.toJson)]

end LuaCoverage
