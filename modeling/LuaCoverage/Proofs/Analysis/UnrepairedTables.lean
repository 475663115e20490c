import Mathlib.Data.List.Perm.Subperm
import LuaCoverage.Proofs.Analysis.AnalyzedTables
import LuaCoverage.Proofs.Instrument.FunctionExtents

/-!
# Tables that need no repair

The table of an outline is a tree as it was built (`consistent_tableOf`), so a repair has nothing to
do with it. What an analysis says about a source that parses is therefore what the outline says
about it: the numbers from one on without a gap (`keys_ofTree`), every block on the lines of its
parent, every statement and every condition on the lines of its block (`spans_of_mem_places`), and
functions that go with the blocks of functions one by one (`functions_ofTree`).
-/

set_option autoImplicit false

namespace LuaCoverage

open Syntax

/-- Whether lines belong to a block of a table, or to the main chunk, which is on all lines. -/
def BlockTable.Spans (table : BlockTable) (id : BlockId) (firstLine lastLine : Nat) : Prop :=
  id = BlockId.root ∨ ∃ block, table.blocks[id]? = some block ∧
    block.startLine ≤ firstLine ∧ lastLine ≤ block.endLine

/-- An analysis whose block table is a tree that did not have to be repaired, with everything else
in its place in this tree. -/
structure Analysis.Unrepaired (analysis : Analysis) : Prop where
  numbers : analysis.blocks.blocks.keys = List.range' 1 analysis.blocks.blocks.size
  parents : ∀ (id : BlockId) (block : BlockRecord), analysis.blocks.blocks[id]? = some block →
    block.id = id ∧ ∃ parent, block.parentId = some parent ∧ parent < id ∧
      analysis.blocks.Spans parent block.startLine block.endLine
  children : ∀ owner child,
    analysis.blocks.Lists owner child ↔ analysis.blocks.parentOf child = some owner
  nothingWaits : analysis.blocks.pending = ∅ ∧ analysis.blocks.orphans = ∅
  nothingFixed : analysis.blockFixes.relationshipsFixed = 0 ∧
    analysis.blockFixes.orphansReattached = 0
  statements : ∀ statement ∈ analysis.statements,
    analysis.blocks.Spans statement.block statement.line statement.endLine
  conditions : ∀ condition ∈ analysis.conditions,
    analysis.blocks.Spans condition.block condition.line condition.endLine
  /-- Functions and blocks of functions both come in the order of their numbers. -/
  functions : analysis.functions.Pairwise (fun first later => first.id < later.id) ∧
    (analysis.functions.map fun function => (function.startLine, function.endLine)) =
      analysis.blocks.functionBlocks.map fun block => (block.startLine, block.endLine)

section Parsed

variable {source : String} {tree : Node} (parsed : parse? source = some tree)

include parsed

/-- **The numbers of the blocks** of an outline, in some order. -/
theorem Outline.numbers_of_parse :
    ((Outline.ofTree source tree).blocks.map BlockRecord.id).Perm
      (List.range' 1 (Outline.ofTree source tree).blocks.length) := by
  have distinct := (declarable_of_parse parsed).distinct
  obtain ⟨isBlocks, next, sited⟩ := sited_of_parse parsed
  have count := sited.count
  rw [← List.length_map Prod.fst, isBlocks] at count
  have inRange : (ofTree source tree).blocks.map BlockRecord.id ⊆
      List.range' 1 (ofTree source tree).blocks.length := by
    intro id member
    obtain ⟨block, isBlock, rfl⟩ := List.mem_map.mp member
    rw [← isBlocks] at isBlock
    obtain ⟨site, isSite, rfl⟩ := List.mem_map.mp isBlock
    rw [List.mem_range'_1, ← count]
    exact sited.range site isSite
  refine (List.subperm_of_subset distinct inRange).perm_of_length_le ?_
  rw [List.length_range', List.length_map]

section OfTree

variable (settings : AnalysisSettings) (fileId : String)

/-- What a block of an outline spans, the stored block spans as well. -/
theorem spans_of_declared {declared : BlockRecord}
    (member : declared ∈ (Outline.ofTree source tree).blocks) {firstLine lastLine : Nat}
    (starts : declared.startLine ≤ firstLine) (ends : lastLine ≤ declared.endLine) :
    (Analysis.ofTree settings source fileId tree).blocks.Spans declared.id firstLine lastLine := by
  have records := bare_ofTree parsed settings fileId declared.id
  rw [(declaredBlock_eq_some (Outline.declarable_of_parse parsed)).mpr ⟨member, rfl⟩] at records
  obtain ⟨block, stored, same⟩ := Option.map_eq_some_iff.mp records
  have begins : block.startLine = declared.startLine := (congrArg BlockRecord.startLine same :)
  have stops : block.endLine = declared.endLine := (congrArg BlockRecord.endLine same :)
  exact .inr ⟨block, stored, begins ▸ starts, stops ▸ ends⟩

/-- **Every place lies on the lines of its block.** -/
theorem spans_of_mem_places {place : Instrument.Candidate}
    (member : place ∈ (Outline.ofTree source tree).places) :
    (Analysis.ofTree settings source fileId tree).blocks.Spans place.block place.line
      place.endLine := by
  obtain ⟨high, final, layout⟩ := Outline.layout_of_parse parsed
  obtain ⟨scope, known, same, starts, ends⟩ := layout.place_scope place member
  rw [← same]
  rcases known with isRoot | ⟨block, isBlock, rfl⟩
  · exact .inl isRoot
  · exact spans_of_declared parsed settings fileId isBlock starts ends

/-- **The blocks of an analysis are numbered** from one on, without a gap. -/
theorem keys_ofTree :
    (Analysis.ofTree settings source fileId tree).blocks.blocks.keys =
      List.range' 1 (Analysis.ofTree settings source fileId tree).blocks.blocks.size := by
  let stored := (Analysis.ofTree settings source fileId tree).blocks.blocks
  let declared := (Outline.ofTree source tree).blocks
  have numbers : ∀ id, id ∈ stored.keys ↔ id ∈ List.range' 1 declared.length := by
    intro id
    rw [Std.ExtTreeMap.mem_keys, BlockTable.mem_blocks_iff_bare, bare_ofTree parsed,
      Option.isSome_map, Option.isSome_iff_exists,
      ← (Outline.numbers_of_parse parsed).mem_iff, List.mem_map]
    simp only [declaredBlock_eq_some (Outline.declarable_of_parse parsed)]
  have ascending : stored.keys.Pairwise fun one other => one < other :=
    Std.ExtTreeMap.ordered_keys.imp Nat.compare_eq_lt.mp
  have isRange : stored.keys = List.range' 1 declared.length :=
    @eq_of_ascending _ id _ _ ascending List.pairwise_lt_range' numbers
  have size := congrArg List.length isRange
  rw [Std.ExtTreeMap.length_keys, List.length_range'] at size
  rw [size]
  exact isRange

/-- **Functions and blocks of functions** of an analysis are on the same lines, one by one. -/
theorem functions_ofTree :
    let analysis := Analysis.ofTree settings source fileId tree
    analysis.functions.Pairwise (fun first later => first.id < later.id) ∧
      (analysis.functions.map fun function => (function.startLine, function.endLine)) =
        analysis.blocks.functionBlocks.map fun block => (block.startLine, block.endLine) := by
  intro analysis
  obtain ⟨high, final, layout⟩ := Outline.layout_of_parse parsed
  obtain ⟨pairs, paired⟩ := layout.exists_paired
  have isFunctions : analysis.functions = pairs.map Prod.fst :=
    (ofTree_functions settings source fileId tree).trans paired.functions.symm
  have filed : analysis.blocks.Filed :=
    ofTree_blocks_eq parsed settings fileId ▸ (consistent_tableOf parsed).filed
  have isBlocks := map_description_functionBlocks parsed paired filed rfl
  have lines := congrArg (List.map fun block : BlockRecord => (block.startLine, block.endLine))
    isBlocks
  rw [List.map_map, List.map_map] at lines
  refine ⟨isFunctions ▸ List.pairwise_map.mpr (paired.ascending.imp And.left), ?_⟩
  rw [isFunctions, List.map_map]
  refine Eq.trans (List.map_congr_left fun pair member => ?_) lines.symm
  exact Prod.ext (paired.lines pair member).1 (paired.lines pair member).2

/-- The analysis of a source with a tree that parsed needed no repair. -/
theorem unrepaired_ofTree : (Analysis.ofTree settings source fileId tree).Unrepaired := by
  have consistent := consistent_tableOf parsed
  have unflagged :=
    (BlockTable.linked_tableOf (Outline.declarable_of_parse parsed)).1.unflagged
  have isBlocks := ofTree_blocks_eq parsed settings fileId
  have consistent' : (Analysis.ofTree settings source fileId tree).blocks.Consistent :=
    isBlocks ▸ consistent
  refine
    { numbers := keys_ofTree parsed settings fileId
      parents := fun id block stored => ⟨consistent'.filed.own id block stored, ?_⟩
      children := fun owner child => consistent'.lists_iff
      nothingWaits := ⟨consistent'.settled, isBlocks ▸ unflagged⟩
      nothingFixed := ?_
      statements := fun statement member => ?_
      conditions := fun condition member => ?_
      functions := functions_ofTree parsed settings fileId }
  · obtain ⟨declared, member, rfl, same⟩ := exists_declared_of_described parsed rfl stored
    obtain ⟨parent, hangs, less, known⟩ := Outline.exists_parent_of_parse parsed member
    have hangs' : block.parentId = some parent :=
      (congrArg BlockRecord.parentId same).symm.trans hangs
    refine ⟨parent, hangs', less, ?_⟩
    rcases known with isRoot | ⟨above, isAbove, rfl⟩
    · exact .inl isRoot
    · obtain ⟨starts, ends⟩ := Outline.nested_of_parse parsed member isAbove hangs
      have begins : declared.startLine = block.startLine := (congrArg BlockRecord.startLine same :)
      have stops : declared.endLine = block.endLine := (congrArg BlockRecord.endLine same :)
      exact spans_of_declared parsed settings fileId isAbove (begins ▸ starts) (stops ▸ ends)
  · simp only [Analysis.ofTree, consistent.resolve_eq, and_self]
  · rw [ofTree_statements] at member
    exact spans_of_mem_places parsed settings fileId (Outline.mem_places_of_statement
      (List.mem_map_of_mem member))
  · rw [ofTree_conditions] at member
    exact spans_of_mem_places parsed settings fileId (Outline.mem_places_of_condition
      (List.mem_map_of_mem member))

end OfTree

end Parsed

/-- **The block table of a source that parses is a tree as it was built.** Its numbers are those
from one on; each block hangs off the main chunk, or off a block with a smaller number on whose
lines it lies, and is a child of that and of nothing else; nothing waits, nothing is flagged, and
the repair had no entry to change and no block to move. Every statement and every condition is in
the main chunk or in a block on whose lines it lies, and the functions are on the lines of the
blocks of functions, in the order of both numbers. -/
theorem analyze_unrepaired (settings : AnalysisSettings) (source fileId : String)
    (parsed : (analyze settings source fileId).degraded = none) :
    (analyze settings source fileId).Unrepaired := by
  obtain ⟨tree, isParsed, isAnalysis⟩ := exists_tree_of_parsed parsed
  rw [isAnalysis]
  exact unrepaired_ofTree isParsed settings fileId

/-- In a chain of arms the block of `else` hangs off that of `elseif`, which is listed before it. -/
theorem analyze_unrepaired_chain :
    let analysis := analyze ⟨.nonExecutable, 100⟩
      "if a then\n  x()\nelseif b then\n  y()\nelse\n  z()\nend\n" "p"
    analysis.degraded = none ∧ analysis.blocks.blocks.keys = [1, 2, 3, 4, 5] ∧
      analysis.blocks.parentOf 5 = some 3 ∧ analysis.Unrepaired := by
  intro analysis
  have parsed : analysis.degraded = none := by decide +kernel
  exact ⟨parsed, by decide +kernel, by decide +kernel, analyze_unrepaired _ _ _ parsed⟩

end LuaCoverage
