import LuaCoverage.Proofs.Block.ReachedTables

/-!
# What is reported and what is repaired

`inconsistencies` only looks at a table: at how often a block is listed, at the child set of the
parent that it names, and at the last block of its chain of parents, which is cut at the first
repetition. `resolve` goes through four passes that change the table. On every reached table the two
agree (`inconsistencies_eq_nil_iff_resolve`): nothing is reported exactly if a repair has nothing to
do, and each block that a repair gives another parent is reported.

A repair of a reached table moves blocks for two reasons only, circles and missing parents. A chain
that starts on a circle never leaves it, so its last block names a parent other than the main chunk
and the block is reported. A missing parent has no child set that could list its child.
-/

set_option autoImplicit false

namespace LuaCoverage

namespace BlockTable

open ParentChain

variable {table : BlockTable}

/-! ## Reports -/

theorem mem_inconsistencies_iff (filed : table.Filed) {id : BlockId} :
    id ∈ table.inconsistencies ↔ ∃ record, table.blocks[id]? = some record ∧
      (table.listings id ≠ 1 ∨ table.parentLists record = false ∨
        table.chainIsOpen record = true) := by
  have reported : ∀ record : BlockRecord,
      (table.listings record.id != 1 || !table.parentLists record || table.chainIsOpen record) =
          true ↔
        table.listings record.id ≠ 1 ∨ table.parentLists record = false ∨
          table.chainIsOpen record = true := by
    intro record
    simp [or_assoc]
  unfold inconsistencies
  simp only [List.mem_map, List.mem_filter, reported]
  constructor
  · rintro ⟨record, ⟨value, reason⟩, rfl⟩
    obtain ⟨key, found⟩ := mem_values_iff.mp value
    obtain rfl : record.id = key := filed.own key record found
    exact ⟨record, found, reason⟩
  · rintro ⟨record, found, reason⟩
    obtain rfl : record.id = id := filed.own id record found
    exact ⟨record, ⟨mem_values_iff.mpr ⟨_, found⟩, reason⟩, rfl⟩

/-- Whoever a climb reaches lies on the chain of its start. -/
theorem exists_chain_of_mem_climb {steps : Nat} {seen : List BlockId} {id other : BlockId}
    (member : other ∈ table.climb steps seen (table.parentOf id)) :
    ∃ further, table.chain (further + 1) id = some other := by
  induction steps generalizing seen id with
  | zero => cases member
  | succ steps ih =>
      cases named : table.parentOf id with
      | none =>
          rw [named] at member
          cases member
      | some parent =>
          rw [named, climb] at member
          split at member
          · cases member
          · rcases List.mem_cons.mp member with rfl | above
            · exact ⟨0, (ancestor_one id).trans named⟩
            · obtain ⟨further, reached⟩ := ih above
              exact ⟨further + 1, ancestor_succ_eq_some.mpr ⟨parent, named, reached⟩⟩

/-- **The chain of a block on a circle ends at a block that names another parent.** -/
theorem chainIsOpen_of_onCircle (noRoot : BlockId.root ∉ table.blocks) {record : BlockRecord}
    (found : table.blocks[record.id]? = some record)
    (circle : OnCircle table.parentOf record.id) : table.chainIsOpen record = true := by
  -- a block on a circle names a parent on it, which is not the main chunk
  have above : ∀ {id : BlockId}, OnCircle table.parentOf id →
      ∃ parent, table.parentOf id = some parent ∧ BlockId.isRoot parent = false := by
    intro id onIt
    obtain ⟨parent, -, named, -⟩ := onIt.exists_ancestor 1
    refine ⟨parent, (ancestor_one id).symm.trans named, ?_⟩
    rw [← Bool.not_eq_true, BlockId.isRoot_iff]
    rintro rfl
    exact not_onCircle_of_no_parent (parentOf_eq_none_of_not_mem noRoot) (onIt.of_ancestor named)
  obtain ⟨parent, named, notRoot⟩ := above circle
  unfold chainIsOpen
  rw [Bool.or_eq_true]
  by_cases itself : parent = record.id
  · left
    rw [← parentOf_of_getElem? found, named, itself]
    exact beq_self_eq_true _
  · right
    have climbs : table.ancestors record.id =
        parent :: table.climb table.blocks.size [parent, record.id] (table.parentOf parent) := by
      simp [ancestors, named, climb, notRoot, itself]
    have nonempty : table.ancestors record.id ≠ [] := by
      rw [climbs]
      exact List.cons_ne_nil _ _
    obtain ⟨further, reached⟩ := exists_chain_of_mem_climb (List.getLast_mem nonempty)
    obtain ⟨next, isNext, nextNotRoot⟩ := above (circle.of_ancestor reached)
    rw [List.getLast?_eq_some_getLast nonempty, Option.bind_some, isNext]
    simp [nextNotRoot]

theorem mem_inconsistencies_of_onCircle (filed : table.Filed) {id : BlockId}
    (circle : OnCircle table.parentOf id) : id ∈ table.inconsistencies := by
  obtain ⟨parent, -, named, -⟩ := circle.exists_ancestor 1
  have member := mem_blocks_of_parentOf ((ancestor_one id).symm.trans named)
  obtain ⟨record, found⟩ := mem_map_iff.mp member
  obtain rfl : record.id = id := filed.own id record found
  exact (mem_inconsistencies_iff filed).mpr
    ⟨record, found, .inr (.inr (chainIsOpen_of_onCircle filed.noRoot found circle))⟩

theorem mem_inconsistencies_of_lacksParent (filed : table.Filed) {id : BlockId}
    (lacks : table.LacksParent id) : id ∈ table.inconsistencies := by
  obtain ⟨record, found⟩ := mem_map_iff.mp lacks.1
  refine (mem_inconsistencies_iff filed).mpr ⟨record, found, .inr (.inl ?_)⟩
  have named := parentOf_of_getElem? found
  unfold parentLists
  cases asked : record.parentId with
  | none => rfl
  | some parent =>
      obtain ⟨notRoot, missing⟩ := lacks.2 parent (named.trans asked)
      have nobody : table.childrenOf parent = none := by
        rw [Option.eq_none_iff_forall_ne_some]
        intro children own
        exact (exists_childrenOf.mp ⟨children, own⟩).elim notRoot missing
      simp only [nobody, Option.any_none]

/-! ## Repairs -/

/-- **A table whose relations are in order is consistent if nothing is reported.** -/
theorem Related.consistent (related : table.Related) (none : table.inconsistencies = []) :
    table.Consistent := by
  have filed := related.filed
  have unreported : ∀ id, id ∉ table.inconsistencies := by
    rw [none]
    exact fun _ => List.not_mem_nil
  have parents : table.ParentsExist := by
    intro id parent named
    by_contra missing
    obtain ⟨notRoot, absent⟩ := not_or.mp missing
    refine unreported id (mem_inconsistencies_of_lacksParent filed
      ⟨mem_blocks_of_parentOf named, fun other named' => ?_⟩)
    obtain rfl : parent = other := Option.some.inj (named.symm.trans named')
    exact ⟨notRoot, absent⟩
  refine ⟨filed, fun id member => ?_, parents, related.aligned, fun id circle => ?_,
    related.pending_eq parents⟩
  · by_contra nameless
    refine unreported id (mem_inconsistencies_of_lacksParent filed ⟨member, fun parent named => ?_⟩)
    exact absurd ⟨parent, named⟩ nameless
  · exact unreported id (mem_inconsistencies_of_onCircle filed circle)

/-- **A repair moves blocks on circles and blocks without a parent, and no others.** -/
theorem Related.onCircle_or_lacksParent_of_moved (related : table.Related) {id : BlockId}
    (moved : table.resolve.1.parentOf id ≠ table.parentOf id) :
    OnCircle table.parentOf id ∨ table.LacksParent id := by
  have filed := related.filed
  have syncedBare : table.repairSynced.bare = table.bare := by
    rw [repairSynced, bare_alignChildren, attachWaiting_of_missing fun _ => related.waits]
  have syncedParents := parentOf_congr syncedBare
  obtain ⟨opened, -⟩ := opened_openCycles filed.repairSynced.noRoot
  obtain ⟨-, kept, -⟩ := rehangOrphans_spec (filed.repairSynced.of_profile opened.profile)
  have sameBlocks := mem_blocks_congr (opened.profile.trans (profile_congr syncedBare))
  rw [parentOf_congr (bare_resolve table), repairRooted] at moved
  generalize table.repairSynced.openCycles.1 = cut at opened kept sameBlocks moved
  rcases opened.block id with ⟨uncut, -⟩ | ⟨⟨circle, -⟩, -, -⟩
  · right
    have sameParent : cut.parentOf id = table.parentOf id := by
      rw [parentOf_eq_bind_bare, uncut, syncedBare, ← parentOf_eq_bind_bare]
    have lacks : cut.LacksParent id := by
      by_contra has
      refine moved ?_
      rw [parentOf_eq_bind_bare, (kept id has).1, ← parentOf_eq_bind_bare, sameParent]
    refine ⟨(sameBlocks id).mp lacks.1, fun parent named => ?_⟩
    obtain ⟨notRoot, missing⟩ := lacks.2 parent (sameParent.trans named)
    exact ⟨notRoot, mt (sameBlocks parent).mpr missing⟩
  · rw [syncedParents] at circle
    exact .inl circle

/-- **What is reported and what is repaired.** In every reached table, nothing is reported exactly
if a repair changes nothing and says that it had nothing to do; and every block to which a repair
gives another parent is reported. -/
theorem inconsistencies_eq_nil_iff_resolve (reached : table.Reached) :
    (table.inconsistencies = [] ↔ table.resolve = (table, {})) ∧
      ∀ id, table.resolve.1.parentOf id ≠ table.parentOf id → id ∈ table.inconsistencies := by
  have related := reached.related
  refine ⟨⟨fun none => (related.consistent none).resolve_eq, fun unchanged => ?_⟩,
    fun id moved => ?_⟩
  · have consistent := consistent_resolve related.filed
    rw [unchanged] at consistent
    exact consistent.inconsistencies_eq_nil
  · rcases related.onCircle_or_lacksParent_of_moved moved with circle | lacks
    · exact mem_inconsistencies_of_onCircle related.filed circle
    · exact mem_inconsistencies_of_lacksParent related.filed lacks

/-- A circle of two that its own repair cut and a change closed again, a block that waits, and a
block under itself. -/
def reclosed : BlockTable :=
  let block (id : BlockId) (parent : Option BlockId) : BlockRecord :=
    ⟨id, .doBlock, none, id, id + 1, parent, ∅, false, 0⟩
  let circle := ((empty.insert (block 1 (some 2))).1.insert (block 2 (some 1))).1.resolve.1
  let closed := circle.setParent 1 (some 2)
  ((closed.insert (block 3 (some 9))).1.insert (block 4 none)).1.setParent 4 (some 4)

/-- A repair of this table gives blocks 1, 3 and 4 another parent, and they are reported. -/
theorem inconsistencies_eq_nil_iff_resolve_reclosed :
    reclosed.Reached ∧ 1 ∈ reclosed.inconsistencies ∧ 3 ∈ reclosed.inconsistencies ∧
      4 ∈ reclosed.inconsistencies ∧ reclosed.resolve ≠ (reclosed, {}) := by
  have reached : reclosed.Reached := by
    unfold reclosed
    exact .setParent _ _ (.insert _ (.insert _ (.setParent _ _
      (.repair (.insert _ (.insert _ .empty))))))
  obtain ⟨none, moved⟩ := inconsistencies_eq_nil_iff_resolve reached
  have reported : 1 ∈ reclosed.inconsistencies := moved 1 (by decide +kernel)
  refine ⟨reached, reported, moved 3 (by decide +kernel), moved 4 (by decide +kernel), ?_⟩
  rw [ne_eq, ← none]
  exact List.ne_nil_of_mem reported

end BlockTable

end LuaCoverage
