import LuaCoverage.Proofs.Analysis.BlockSites
import LuaCoverage.Proofs.Block.Union

/-!
# The records of sites

An outline lists the blocks of a source with inner blocks first, so most blocks are added to a table
before their parents and wait for them. The numbers of the sites are all different, none of them is
that of the main chunk, and every parent is a site with a smaller number or the main chunk. So all
parents come in the end, and no chain of parents runs in a circle: the table is a tree before
anything is repaired (`consistent_tableOf`), and a repair leaves it as it is. The blocks of an
analysis are therefore exactly the blocks of the outline, each under the parent that the outline
gives it (`bare_ofTree`).
-/

set_option autoImplicit false

namespace LuaCoverage

open ParentChain Syntax

/-! ## Chains that descend -/

/-- A chain of parents with smaller and smaller numbers does not come back. -/
theorem ParentChain.not_onCircle_of_descends {up : BlockId → Option BlockId}
    (descends : ∀ id parent, up id = some parent → parent < id) (id : BlockId) :
    ¬ OnCircle up id := by
  have below : ∀ (steps : Nat) (id other : BlockId), ancestor up (steps + 1) id = some other →
      other < id := by
    intro steps
    induction steps with
    | zero =>
        intro id other reached
        rw [ancestor_one] at reached
        exact descends id other reached
    | succ steps ih =>
        intro id other reached
        rw [ancestor_succ] at reached
        obtain ⟨parent, isParent, reached⟩ := Option.bind_eq_some_iff.mp reached
        exact Nat.lt_trans (ih parent other reached) (descends id parent isParent)
  rintro ⟨steps, back⟩
  exact Nat.lt_irrefl id (below steps id id back)

namespace Outline

variable {source : String} {tree : Node}

/-- No two blocks of an outline share a number, and none has that of the main chunk. -/
theorem declarable_of_parse (parsed : parse? source = some tree) :
    Declarable (ofTree source tree).blocks := by
  obtain ⟨isBlocks, next, sited⟩ := sited_of_parse parsed
  rw [← isBlocks]
  refine ⟨?_, fun block member => ?_⟩
  · rw [List.map_map]
    exact sited.distinct
  · obtain ⟨site, isSite, rfl⟩ := List.mem_map.mp member
    exact Nat.ne_of_gt (sited.range site isSite).1

/-- Every block of an outline has its parent in it, with a smaller number. -/
theorem exists_parent_of_parse (parsed : parse? source = some tree) {block : BlockRecord}
    (member : block ∈ (ofTree source tree).blocks) :
    ∃ parent, block.parentId = some parent ∧ parent < block.id ∧
      (parent = BlockId.root ∨ ∃ other ∈ (ofTree source tree).blocks, other.id = parent) := by
  obtain ⟨isBlocks, next, sited⟩ := sited_of_parse parsed
  rw [← isBlocks] at member ⊢
  obtain ⟨site, isSite, rfl⟩ := List.mem_map.mp member
  obtain ⟨parent, isParent, below, known⟩ := sited.parents site isSite
  refine ⟨parent, isParent, below, known.imp_right ?_⟩
  rintro ⟨other, isOther, same⟩
  exact ⟨other.1, List.mem_map_of_mem isOther, same⟩

end Outline

/-! ## Adding blocks to an empty table -/

/-- **Blocks that are added to an empty table** are stored as they were declared, at their parents
or waiting for them. -/
theorem BlockTable.linked_tableOf {blocks : List BlockRecord} (declarable : Declarable blocks) :
    (Analysis.tableOf blocks).1.Linked ∧ ∀ id, (Analysis.tableOf blocks).1.bare id =
      (declaredBlock blocks id).map BlockRecord.bare := by
  induction blocks using List.reverseRecOn with
  | nil => exact ⟨linked_empty, fun _ => rfl⟩
  | append_singleton blocks last ih =>
      have apart := declarable.distinct
      rw [List.map_append, List.nodup_append] at apart
      have new : ∀ other ∈ blocks, other.id ≠ last.id := fun other member =>
        apart.2.2 _ (List.mem_map_of_mem member) _ (by simp)
      have notRoot := declarable.noRoot last (by simp)
      obtain ⟨linked, records⟩ := ih
        ⟨apart.1, fun other member => declarable.noRoot other (List.mem_append_left _ member)⟩
      have fresh : last.id ∉ (Analysis.tableOf blocks).1.blocks := by
        rw [mem_blocks_iff_bare, records, declaredBlock_eq_none.mpr new]
        exact Bool.false_ne_true
      have added : (Analysis.tableOf (blocks ++ [last])).1 =
          ((Analysis.tableOf blocks).1.insert last).1 := by
        rw [Analysis.tableOf, List.foldl_append]
        rfl
      rw [added]
      refine ⟨linked.insert notRoot fresh, fun id => ?_⟩
      rw [linked.bare_insert notRoot fresh, records, declaredBlock_append new]
      split <;> rfl

section Parsed

variable {source : String} {tree : Node} (parsed : parse? source = some tree)

include parsed

/-- **The table of an outline is a tree** before anything is repaired. -/
theorem consistent_tableOf :
    (Analysis.tableOf (Outline.ofTree source tree).blocks).1.Consistent := by
  have declarable := Outline.declarable_of_parse parsed
  obtain ⟨linked, records⟩ := BlockTable.linked_tableOf declarable
  generalize (Analysis.tableOf (Outline.ofTree source tree).blocks).1 = table at linked records
  have inside {id : BlockId} : id ∈ table.blocks ↔
      ∃ block ∈ (Outline.ofTree source tree).blocks, block.id = id := by
    rw [BlockTable.mem_blocks_iff_bare, records, Option.isSome_map, Option.isSome_iff_exists]
    simp only [declaredBlock_eq_some declarable]
  have parentOf {block : BlockRecord} (member : block ∈ (Outline.ofTree source tree).blocks) :
      table.parentOf block.id = block.parentId := by
    rw [BlockTable.parentOf_eq_bind_bare, records,
      (declaredBlock_eq_some declarable).mpr ⟨member, rfl⟩]
    rfl
  -- the parent of a block is the one that its site names
  have known {id parent : BlockId} (named : table.parentOf id = some parent) :
      parent < id ∧ (parent = BlockId.root ∨ parent ∈ table.blocks) := by
    obtain ⟨block, member, rfl⟩ := inside.mp (BlockTable.mem_blocks_of_parentOf named)
    obtain ⟨parent', isParent, less, known⟩ := Outline.exists_parent_of_parse parsed member
    obtain rfl := Option.some.inj (isParent.symm.trans ((parentOf member).symm.trans named))
    exact ⟨less, known.imp_right inside.mpr⟩
  have parentsExist : table.ParentsExist := fun _ _ named => (known named).2
  refine ⟨linked.filed, fun id member => ?_, parentsExist, linked.aligned, ?_,
    linked.pending_eq parentsExist⟩
  · obtain ⟨block, isBlock, rfl⟩ := inside.mp member
    obtain ⟨parent, isParent, -⟩ := Outline.exists_parent_of_parse parsed isBlock
    exact ⟨parent, (parentOf isBlock).trans isParent⟩
  · exact not_onCircle_of_descends fun _ _ named => (known named).1

/-- The blocks of an analysis are stored as they were added. -/
theorem ofTree_blocks_eq (settings : AnalysisSettings) (fileId : String) :
    (Analysis.ofTree settings source fileId tree).blocks =
      (Analysis.tableOf (Outline.ofTree source tree).blocks).1 := by
  rw [ofTree_blocks, (consistent_tableOf parsed).resolve_eq]

/-- **The blocks of an analysis are those of the outline**, under the same parents. -/
theorem bare_ofTree (settings : AnalysisSettings) (fileId : String) (id : BlockId) :
    (Analysis.ofTree settings source fileId tree).blocks.bare id =
      (declaredBlock (Outline.ofTree source tree).blocks id).map BlockRecord.bare := by
  rw [ofTree_blocks_eq parsed]
  exact (BlockTable.linked_tableOf (Outline.declarable_of_parse parsed)).2 id

end Parsed

end LuaCoverage
