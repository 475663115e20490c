import LuaCoverage.Proofs.Block.Consistency

/-!
# Blocks around a block

What stands around a block is its parent and what stands around that (`BlockTable.Encloses`). In a
consistent table the walk up from a block finds exactly this, apart from the main chunk, which has
no record (`Consistent.mem_ancestors_iff`).
-/

set_option autoImplicit false

namespace LuaCoverage

namespace BlockTable

open ParentChain

/-- Whether a block stands around another one: it is its parent, or stands around its parent. -/
inductive Encloses (table : BlockTable) (outer : BlockId) : BlockId → Prop where
  | parent {id : BlockId} (hangs : table.parentOf id = some outer) : Encloses table outer id
  | above {id parent : BlockId} (hangs : table.parentOf id = some parent)
      (around : Encloses table outer parent) : Encloses table outer id

namespace Encloses

variable {table : BlockTable} {outer id : BlockId}

theorem mem_blocks (encloses : table.Encloses outer id) : id ∈ table.blocks := by
  cases encloses with
  | parent hangs => exact mem_blocks_of_parentOf hangs
  | above hangs => exact mem_blocks_of_parentOf hangs

/-- What stands around a block is its parent or stands around it. -/
theorem iff_of_parentOf {parent : BlockId} (hangs : table.parentOf id = some parent) :
    table.Encloses outer id ↔ outer = parent ∨ table.Encloses outer parent := by
  constructor
  · intro encloses
    cases encloses with
    | parent hangs' => exact .inl (Option.some.inj (hangs'.symm.trans hangs))
    | above hangs' around => exact .inr (Option.some.inj (hangs'.symm.trans hangs) ▸ around)
  · rintro (rfl | around)
    · exact .parent hangs
    · exact .above hangs around

end Encloses

namespace Consistent

variable {table : BlockTable}

/-- Nothing stands around the main chunk. -/
theorem not_encloses_root (consistent : table.Consistent) (outer : BlockId) :
    ¬ table.Encloses outer BlockId.root := fun encloses =>
  consistent.filed.noRoot encloses.mem_blocks

/-- A climb from a block finds what stands around it, if it may take as many steps as it needs and
has not been there. -/
theorem mem_climb_iff (consistent : table.Consistent) {length : Nat} :
    ∀ {id : BlockId} {steps : Nat} {seen : List BlockId},
      table.chain (length + 1) id = some BlockId.root → length < steps →
      (∀ less other, less < length → table.chain (less + 1) id = some other → other ∉ seen) →
      ∀ outer, outer ∈ table.climb steps seen (table.parentOf id) ↔
        table.Encloses outer id ∧ outer ≠ BlockId.root := by
  induction length with
  | zero =>
      intro id steps seen reached bound unseen outer
      obtain ⟨more, rfl⟩ : ∃ more, steps = more + 1 := ⟨steps - 1, by omega⟩
      have hangs : table.parentOf id = some BlockId.root := (ancestor_one id).symm.trans reached
      have stops : table.climb (more + 1) seen (some BlockId.root) = [] := by
        simp [climb, BlockId.isRoot]
      rw [hangs, stops, Encloses.iff_of_parentOf hangs]
      refine iff_of_false List.not_mem_nil ?_
      rintro ⟨rfl | around, notRoot⟩
      · exact notRoot rfl
      · exact consistent.not_encloses_root outer around
  | succ length ih =>
      intro id steps seen reached bound unseen outer
      obtain ⟨more, rfl⟩ : ∃ more, steps = more + 1 := ⟨steps - 1, by omega⟩
      obtain ⟨parent, hangs, later⟩ := ancestor_succ_eq_some.mp reached
      have notRoot : parent ≠ BlockId.root := by
        rintro rfl
        simp [ancestor_succ, parentOf_eq_none_of_not_mem consistent.filed.noRoot] at later
      have fresh : parent ∉ seen :=
        unseen 0 parent (Nat.succ_pos _) ((ancestor_one id).trans hangs)
      have climbs : table.climb (more + 1) seen (some parent) =
          parent :: table.climb more (parent :: seen) (table.parentOf parent) := by
        simp [climb, BlockId.isRoot, notRoot, fresh]
      have above := @ih parent more (parent :: seen) later (Nat.lt_of_succ_lt_succ bound) ?_ outer
      · rw [hangs, climbs, List.mem_cons, above, Encloses.iff_of_parentOf hangs, or_and_right]
        refine or_congr_left ⟨?_, And.left⟩
        rintro rfl
        exact ⟨rfl, notRoot⟩
      · intro less other small reached' member
        rcases List.mem_cons.mp member with rfl | old
        · exact consistent.acyclic other ⟨less, reached'⟩
        · exact unseen (less + 1) other (Nat.succ_lt_succ small)
            (ancestor_succ_eq_some.mpr ⟨parent, hangs, reached'⟩) old

/-- **The walk up from a block finds what stands around it**, apart from the main chunk. -/
theorem mem_ancestors_iff (consistent : table.Consistent) {id outer : BlockId} :
    outer ∈ table.ancestors id ↔ table.Encloses outer id ∧ outer ≠ BlockId.root := by
  by_cases member : id ∈ table.blocks
  · obtain ⟨length, bound, reached⟩ := consistent.exists_chain_root member
    refine consistent.mem_climb_iff reached (Nat.lt_succ_of_lt bound) ?_ outer
    intro less other _ reached' isSeen
    obtain rfl := List.mem_singleton.mp isSeen
    exact consistent.acyclic other ⟨less, reached'⟩
  · have alone : table.ancestors id = [] := by
      rw [ancestors, parentOf_eq_none_of_not_mem member, climb]
    rw [alone]
    exact iff_of_false List.not_mem_nil fun around => member around.1.mem_blocks

end Consistent

end BlockTable

end LuaCoverage
