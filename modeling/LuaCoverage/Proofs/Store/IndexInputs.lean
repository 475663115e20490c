import Mathlib.Data.List.Sort
import LuaCoverage.Proofs.Store.MergedRecords
import LuaCoverage.Store.LineIndex

/-!
# What a line index depends on

A line index is a function of lines, blocks and functions, but it does not look at all of them. It
sees of a line whether it can run, and that only where some block may own the line; of a block its
kind, its place and its parent; of a function where it starts. Neither hits nor child sets matter.

So an index is the same for a table of which only the descriptions are kept
(`LineIndex.build_described`), and for lines of which the same ones can run wherever a block may own
them (`LineIndex.build_congr`).
-/

set_option autoImplicit false

namespace LuaCoverage

/-! ## Descriptions -/

/-- The table with the descriptions of its blocks and nothing else. -/
def BlockTable.described (table : BlockTable) : BlockTable :=
  { blocks := table.blocks.map fun _ record => record.description }

/-- Functions with nothing but their descriptions. -/
def describedFunctions (functions : Std.ExtTreeMap Nat FunctionRecord) :
    Std.ExtTreeMap Nat FunctionRecord :=
  functions.map fun _ record => record.description

namespace BlockTable

variable (table : BlockTable)

theorem values_described : table.described.blocks.values =
    table.blocks.values.map BlockRecord.description :=
  values_map _ _

theorem getElem?_described (id : BlockId) :
    table.described.blocks[id]? = (table.blocks[id]?).map BlockRecord.description :=
  Std.ExtTreeMap.getElem?_map

theorem size_described : table.described.blocks.size = table.blocks.size :=
  Std.ExtTreeMap.size_map

theorem parentOf_described (id : BlockId) : table.described.parentOf id = table.parentOf id := by
  rw [parentOf, getElem?_described, parentOf]
  cases table.blocks[id]? <;> rfl

theorem climb_described (steps : Nat) (seen : List BlockId) (parent : Option BlockId) :
    table.described.climb steps seen parent = table.climb steps seen parent := by
  induction steps generalizing seen parent with
  | zero => rfl
  | succ steps ih =>
      cases parent with
      | none => rfl
      | some parent => rw [climb, climb, ih, parentOf_described]

theorem ancestors_described (id : BlockId) : table.described.ancestors id = table.ancestors id := by
  rw [ancestors, climb_described, size_described, parentOf_described, ancestors]

end BlockTable

namespace LineIndex

section Described

variable (table : BlockTable) (entry : BlockMap Nat) (block : BlockRecord) (line : Nat)

theorem armsAt_described (blocks : List BlockRecord) :
    armsAt (blocks.map BlockRecord.description) line = armsAt blocks line := by
  rw [armsAt, List.filter_map, List.map_map]
  rfl

theorem sharesLine_described :
    sharesLine table.described block.description line = sharesLine table block line := by
  simp only [sharesLine, BlockTable.ancestors_described, BlockTable.values_described,
    armsAt_described]
  rfl

theorem isDoubtful_described : isDoubtful table.described entry block.description line =
    isDoubtful table entry block line := by
  rw [isDoubtful, sharesLine_described]
  rfl

theorem isUndecidableWithin_described (steps : Nat) (id : Option BlockId) :
    isUndecidableWithin table.described entry line steps id =
      isUndecidableWithin table entry line steps id := by
  induction steps generalizing id with
  | zero => rfl
  | succ steps ih =>
      cases id with
      | none => rfl
      | some id =>
          rw [isUndecidableWithin, isUndecidableWithin, BlockTable.getElem?_described]
          cases table.blocks[id]? with
          | none => rfl
          | some record =>
              simp only [Option.map_some, isDoubtful_described, ih]
              rfl

theorem isUndecidable_described (id : BlockId) :
    isUndecidable table.described entry id line = isUndecidable table entry id line := by
  rw [isUndecidable, isUndecidableWithin_described, BlockTable.size_described, isUndecidable]

theorem addBlock_described (index : LineIndex) :
    addBlock table.described index block.description = addBlock table index block := by
  unfold addBlock
  simp only [isUndecidable_described]
  rfl

theorem paint_described (runnableLines : List Nat) (painted : LineMap BlockId) :
    paint table.described entry runnableLines painted block.description =
      paint table entry runnableLines painted block := by
  unfold paint
  simp only [isUndecidable_described]
  rfl

theorem owners_described (runnableLines : List Nat) :
    owners table.described entry runnableLines = owners table entry runnableLines := by
  -- a description has the same place in the order of painting as its block
  let wider (first second : BlockRecord) : Bool :=
    second.span < first.span || (first.span == second.span && first.id ≤ second.id)
  have sorted : (table.blocks.values.map BlockRecord.description).mergeSort wider =
      (table.blocks.values.mergeSort wider).map BlockRecord.description := by
    have keeps : ∀ first ∈ table.blocks.values, ∀ second ∈ table.blocks.values,
        wider first second = wider first.description second.description := fun _ _ _ _ => rfl
    exact (List.map_mergeSort keeps).symm
  rw [owners, BlockTable.values_described, sorted, List.foldl_map]
  simp only [paint_described]
  rfl

theorem entries_described (runnableLines : List Nat) (blocks : List BlockRecord) :
    entries runnableLines (blocks.map BlockRecord.description) = entries runnableLines blocks := by
  rw [entries, List.foldl_map]
  rfl

end Described

/-- The index of the lines that can run, of blocks, and of the first functions on lines. -/
def assemble (runnableLines : List Nat) (table : BlockTable) (starts : LineMap Nat) : LineIndex :=
  let blocks := table.blocks.values
  let start : LineIndex := { entry := entries runnableLines blocks, functionAt := starts }
  { blocks.foldl (addBlock table) start with owner := owners table start.entry runnableLines }

theorem assemble_described (runnableLines : List Nat) (table : BlockTable)
    (starts : LineMap Nat) :
    assemble runnableLines table.described starts = assemble runnableLines table starts := by
  unfold assemble
  simp only [BlockTable.values_described, entries_described, owners_described, List.foldl_map,
    addBlock_described]

theorem functionStarts_described (functions : Std.ExtTreeMap Nat FunctionRecord) :
    functionStarts (describedFunctions functions).values = functionStarts functions.values := by
  rw [functionStarts, describedFunctions, values_map, List.foldl_map]
  rfl

/-- An index is assembled from the lines that can run. -/
theorem build_eq_assemble (lines : LineMap LineRecord) (table : BlockTable)
    (functions : Std.ExtTreeMap Nat FunctionRecord) : build lines table functions =
      assemble (runnable lines) table (functionStarts functions.values) := rfl

/-- **An index sees of blocks and functions only what describes them.** -/
theorem build_described (lines : LineMap LineRecord) (table : BlockTable)
    (functions : Std.ExtTreeMap Nat FunctionRecord) :
    build lines table.described (describedFunctions functions) = build lines table functions := by
  rw [build_eq_assemble, functionStarts_described, assemble_described, build_eq_assemble]

/-! ## Lines -/

/-- Whether a line can run. -/
def canRun (lines : LineMap LineRecord) (line : Nat) : Bool :=
  (lines[line]?).any LineRecord.executable

theorem mem_runnable {lines : LineMap LineRecord} {line : Nat} :
    line ∈ runnable lines ↔ canRun lines line = true := by
  rw [runnable, canRun, Option.any_eq_true, List.mem_map]
  constructor
  · rintro ⟨⟨line, record⟩, member, rfl⟩
    obtain ⟨listed, executable⟩ := List.mem_filter.mp member
    exact ⟨record, Std.ExtTreeMap.mem_toList_iff_getElem?_eq_some.mp listed, executable⟩
  · rintro ⟨record, found, executable⟩
    exact ⟨(line, record), List.mem_filter.mpr
      ⟨Std.ExtTreeMap.mem_toList_iff_getElem?_eq_some.mpr found, executable⟩, rfl⟩

theorem sortedLT_runnable (lines : LineMap LineRecord) : (runnable lines).SortedLT := by
  have ordered : (lines.toList.map Prod.fst).Pairwise (· < ·) := by
    rw [Std.ExtTreeMap.map_fst_toList_eq_keys]
    exact Std.ExtTreeMap.ordered_keys.imp Nat.compare_eq_lt.mp
  exact List.sortedLT_iff_pairwise.mpr (ordered.sublist (List.filter_sublist.map Prod.fst))

/-- The first line of a block that can run is the first of those it owns. -/
theorem find?_runnable_congr {runnable runnable' : List Nat} {owns : Nat → Bool}
    (same : runnable.filter owns = runnable'.filter owns) :
    runnable.find? owns = runnable'.find? owns := by
  rw [← List.head?_filter, same, List.head?_filter]

/-- Each block sees only those of the lines it may own. -/
theorem assemble_congr {table : BlockTable} {runnable runnable' : List Nat}
    (same : ∀ block ∈ table.blocks.values,
      runnable.filter block.mayOwnLine = runnable'.filter block.mayOwnLine)
    (starts : LineMap Nat) :
    assemble runnable table starts = assemble runnable' table starts := by
  have entry : entries runnable table.blocks.values = entries runnable' table.blocks.values :=
    List.foldl_ext _ _ _ fun found block member => by
      rw [find?_runnable_congr (same block member)]
  have owner : ∀ entry : BlockMap Nat, owners table entry runnable = owners table entry runnable' :=
    fun entry => List.foldl_ext _ _ _ fun painted block member => by
      have filtered := congrArg (List.filter fun line => !isUndecidable table entry block.id line)
        (same block (List.mem_mergeSort.mp member))
      simp only [List.filter_filter, Bool.and_comm] at filtered
      rw [paint, paint, filtered]
  rw [assemble, assemble, entry, owner]

/-- **An index sees of a line whether it can run**, and that only where some block may own it. -/
theorem build_congr {lines lines' : LineMap LineRecord} {table : BlockTable}
    (same : ∀ block ∈ table.blocks.values, ∀ line : Nat, block.mayOwnLine line = true →
      canRun lines line = canRun lines' line) (functions : Std.ExtTreeMap Nat FunctionRecord) :
    build lines table functions = build lines' table functions := by
  rw [build_eq_assemble, build_eq_assemble]
  refine assemble_congr (fun block member => ?_) _
  have sorted : ∀ lines : LineMap LineRecord,
      ((runnable lines).filter block.mayOwnLine).SortedLT := fun lines =>
    List.sortedLT_iff_pairwise.mpr ((sortedLT_runnable lines).pairwise.sublist List.filter_sublist)
  refine (sorted lines).eq_of_mem_iff (sorted lines') fun line => ?_
  rw [List.mem_filter, List.mem_filter, mem_runnable, mem_runnable]
  exact and_congr_left fun owned => by rw [same block member line owned]

end LineIndex

end LuaCoverage
