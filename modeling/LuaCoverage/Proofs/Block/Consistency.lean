import LuaCoverage.Proofs.Block.Repair

/-!
# What a repair leaves behind

A consistent table is a tree below the main chunk: each chain of parents ends there
(`Consistent.exists_chain_root`) and each block is listed by its parent and nowhere else
(`Consistent.lists_iff`). No pass of a repair has anything to do with such a table
(`Consistent.resolve_eq`), and nothing about it is inconsistent
(`Consistent.inconsistencies_eq_nil`). `resolve_consistent` puts this together with what a repair
does.
-/

set_option autoImplicit false

namespace LuaCoverage

namespace BlockTable

open ParentChain

namespace Consistent

variable {table : BlockTable}

/-- No block of a consistent table lacks a parent. -/
theorem not_lacksParent (consistent : table.Consistent) (id : BlockId) :
    ¬ table.LacksParent id := by
  rintro ⟨member, missing⟩
  obtain ⟨parent, named⟩ := consistent.hasParent id member
  obtain ⟨notRoot, notThere⟩ := missing parent named
  exact (consistent.parentsExist id parent named).elim notRoot notThere

/-- **A consistent table needs no repair.** -/
theorem resolve_eq (consistent : table.Consistent) : table.resolve = (table, {}) := by
  have attached : table.attachWaiting = (table, 0) := by
    unfold attachWaiting
    rw [consistent.settled]
    rfl
  have aligned := alignChildren_of_aligned consistent.filed.noRoot consistent.aligned
    consistent.parentsExist
  have uncut : table.openCycles = (table, 0) := by
    have noneCut : ∀ ids : List BlockId, ids.foldl (fun (progress : BlockTable × Nat) id =>
        if progress.1.isCyclic id then
          (progress.1.hangUnderRoot id (progress.1.parentOf id), progress.2 + 1)
        else progress) (table, 0) = (table, 0) := by
      intro ids
      induction ids with
      | nil => rfl
      | cons first rest ih =>
          rw [List.foldl_cons, if_neg, ih]
          exact fun cyclic => consistent.acyclic first
            ((isCyclic_iff consistent.filed.noRoot first).mp cyclic)
    exact noneCut _
  have unmoved : table.rehangOrphans = (table, 0) := by
    have none : table.blocks.values.filter table.lacksParent = [] := by
      rw [List.filter_eq_nil_iff]
      intro record value lacks
      obtain ⟨key, found⟩ := mem_values_iff.mp value
      exact consistent.not_lacksParent key ((lacksParent_iff found).mp lacks)
    unfold rehangOrphans
    rw [none]
    simp only [List.foldl_nil, List.length_nil, ← consistent.settled]
  unfold resolve
  simp [attached, aligned, uncut, unmoved]

/-- Every chain of parents of a consistent table ends at the main chunk, within as many steps as
there are blocks. -/
theorem exists_chain_root (consistent : table.Consistent) {id : BlockId}
    (member : id ∈ table.blocks) :
    ∃ steps, steps < table.blocks.size ∧ table.chain (steps + 1) id = some BlockId.root := by
  have parents : ∀ id ∈ table.blocks.keys, ∃ parent, table.parentOf id = some parent :=
    fun id key => consistent.hasParent id (Std.ExtTreeMap.mem_keys.mp key)
  obtain ⟨steps, other, bound, reached, outside⟩ :=
    exists_ancestor_outside parents consistent.acyclic (Std.ExtTreeMap.mem_keys.mpr member)
  rw [Std.ExtTreeMap.length_keys] at bound
  refine ⟨steps, bound, ?_⟩
  obtain ⟨before, first, later⟩ := exists_ancestor_of_le (Nat.le_succ steps) reached
  rw [show steps.succ - steps = 1 by omega, ancestor_one] at later
  rcases consistent.parentsExist before other later with rfl | there
  · exact reached
  · exact absurd (Std.ExtTreeMap.mem_keys.mpr there) outside

/-- A consistent table lists a number under its parent and nowhere else. -/
theorem lists_iff (consistent : table.Consistent) {owner child : BlockId} :
    table.Lists owner child ↔ table.parentOf child = some owner := by
  constructor
  · rintro ⟨children, own, listed⟩
    exact (consistent.aligned owner children own child).mp listed
  · intro named
    have owned : ∃ children, table.childrenOf owner = some children := by
      unfold childrenOf
      rcases consistent.parentsExist child owner named with rfl | member
      · exact ⟨table.rootChildren, if_pos rfl⟩
      · split
        · exact ⟨_, rfl⟩
        · obtain ⟨record, found⟩ := mem_map_iff.mp member
          exact ⟨record.children, by rw [found]; rfl⟩
    obtain ⟨children, own⟩ := owned
    exact ⟨children, own, (consistent.aligned owner children own child).mpr named⟩

/-! ## Nothing is inconsistent -/

theorem rootLists_iff (consistent : table.Consistent) (id : BlockId) :
    table.rootChildren.contains id = true ↔ table.parentOf id = some BlockId.root := by
  rw [Std.ExtTreeSet.contains_iff_mem]
  exact consistent.aligned BlockId.root table.rootChildren rfl id

theorem blockLists_iff (consistent : table.Consistent) {owner : BlockId} {record : BlockRecord}
    (found : table.blocks[owner]? = some record) (id : BlockId) :
    record.children.contains id = true ↔ table.parentOf id = some owner := by
  rw [Std.ExtTreeSet.contains_iff_mem]
  refine consistent.aligned owner record.children ?_ id
  have notRoot : owner ≠ BlockId.root := by
    rintro rfl
    exact consistent.filed.noRoot (mem_map_iff.mpr ⟨record, found⟩)
  rw [childrenOf, if_neg (by simpa [BlockId.isRoot] using notRoot), found]
  rfl

/-- Among the records exactly the one of an existing parent lists a block. -/
theorem length_filter_lists (consistent : table.Consistent) {id parent : BlockId}
    (named : table.parentOf id = some parent) :
    (table.blocks.values.filter fun record => record.children.contains id).length =
      if parent = BlockId.root then 0 else 1 := by
  have lists : ∀ entry ∈ table.blocks.toList,
      entry.2.children.contains id = true ↔ (entry.1 == parent) = true := by
    intro entry member
    rw [consistent.blockLists_iff (Std.ExtTreeMap.mem_toList_iff_getElem?_eq_some.mp member), named,
      Option.some.injEq, beq_iff_eq, eq_comm]
  have counted : (table.blocks.values.filter fun record => record.children.contains id).length =
      table.blocks.keys.count parent := by
    rw [← List.countP_eq_length_filter, values_eq_map_toList, List.countP_map,
      ← Std.ExtTreeMap.map_fst_toList_eq_keys, List.count, List.countP_map]
    exact List.countP_congr lists
  rw [counted]
  split
  · rename_i isRoot
    rw [List.count_eq_zero]
    exact fun key => consistent.filed.noRoot (isRoot ▸ Std.ExtTreeMap.mem_keys.mp key)
  · rename_i notRoot
    refine List.count_eq_one_of_mem Std.ExtTreeMap.nodup_keys (Std.ExtTreeMap.mem_keys.mpr ?_)
    exact (consistent.parentsExist id parent named).resolve_left notRoot

theorem chainIsOpen_eq_false (consistent : table.Consistent) {id : BlockId} {record : BlockRecord}
    (found : table.blocks[id]? = some record) : table.chainIsOpen record = false := by
  have own : record.id = id := consistent.filed.own id record found
  obtain ⟨steps, bound, reached⟩ :=
    consistent.exists_chain_root (mem_map_iff.mpr ⟨record, found⟩)
  have unseen : ∀ less other, less < steps → table.chain (less + 1) id = some other →
      other ∉ [id] := by
    intro less other _ reached' member
    obtain rfl : other = id := List.mem_singleton.mp member
    exact consistent.acyclic other ⟨less, reached'⟩
  have topmost := parentOf_getLast_climb consistent.filed.noRoot consistent.acyclic reached
    (show steps < table.blocks.size + 1 by omega) unseen
  have notOwn : (record.parentId == some record.id) = false := by
    rw [beq_eq_false_iff_ne]
    intro same
    rw [own, ← parentOf_of_getElem? found] at same
    exact consistent.acyclic id ⟨0, (ancestor_one id).trans same⟩
  unfold chainIsOpen
  rw [notOwn, Bool.false_or, own, ancestors]
  cases climbed : (table.climb (table.blocks.size + 1) [id] (table.parentOf id)).getLast? with
  | none => rfl
  | some last =>
      have parent := topmost last (by rw [List.getLast?_cons, climbed]; rfl)
      rw [Option.bind_some, parent]
      rfl

/-- **A consistent table has no inconsistencies.** -/
theorem inconsistencies_eq_nil (consistent : table.Consistent) : table.inconsistencies = [] := by
  unfold inconsistencies
  rw [List.map_eq_nil_iff, List.filter_eq_nil_iff]
  intro record value
  obtain ⟨id, found⟩ := mem_values_iff.mp value
  obtain rfl : record.id = id := consistent.filed.own id record found
  obtain ⟨parent, named⟩ := consistent.hasParent record.id (mem_map_iff.mpr ⟨record, found⟩)
  have once : table.listings record.id = 1 := by
    unfold listings
    rw [consistent.length_filter_lists named]
    by_cases isRoot : parent = BlockId.root
    · rw [if_pos ((consistent.rootLists_iff record.id).mpr (named.trans (congrArg some isRoot))),
        if_pos isRoot]
    · rw [if_neg, if_neg isRoot]
      intro listed
      exact isRoot (Option.some.inj
        (named.symm.trans ((consistent.rootLists_iff record.id).mp listed)))
  have agrees : table.parentLists record = true := by
    obtain ⟨children, own, listed⟩ := consistent.lists_iff.mpr named
    rw [parentLists, ← parentOf_of_getElem? found, named]
    simp only [own, Option.any_some]
    exact Std.ExtTreeSet.contains_iff_mem.mpr listed
  simp [once, agrees, consistent.chainIsOpen_eq_false found]

end Consistent

/-- **What a repair leaves behind**, whatever parents, child sets, waiting children and flags the
table had before. Every block has the main chunk or an existing block as its parent, is listed once,
by its parent, and reaches the main chunk; no child set lists anything else; nothing waits and
nothing is inconsistent. A second repair reports nothing and changes nothing. Records keep all that
is not a relation. -/
theorem resolve_consistent (table : BlockTable) (filed : table.Filed) :
    let settled := table.resolve.1
    (∀ id ∈ settled.blocks, ∃ parent, settled.parentOf id = some parent ∧
      (parent = BlockId.root ∨ parent ∈ settled.blocks)) ∧
    (∀ id ∈ settled.blocks, ∃! owner, settled.Lists owner id) ∧
    (∀ owner child, settled.Lists owner child →
      child ∈ settled.blocks ∧ settled.parentOf child = some owner) ∧
    (∀ id ∈ settled.blocks, ∃ steps, settled.chain steps id = some BlockId.root) ∧
    settled.pending = ∅ ∧ settled.inconsistencies = [] ∧ settled.resolve = (settled, {}) ∧
    settled.profile = table.profile := by
  have consistent := consistent_resolve filed
  refine ⟨?_, ?_, ?_, ?_, consistent.settled, consistent.inconsistencies_eq_nil,
    consistent.resolve_eq, profile_resolve table⟩
  · intro id member
    obtain ⟨parent, named⟩ := consistent.hasParent id member
    exact ⟨parent, named, consistent.parentsExist id parent named⟩
  · intro id member
    obtain ⟨parent, named⟩ := consistent.hasParent id member
    refine ⟨parent, consistent.lists_iff.mpr named, fun owner lists => ?_⟩
    exact Option.some.inj ((consistent.lists_iff.mp lists).symm.trans named)
  · intro owner child lists
    have named := consistent.lists_iff.mp lists
    exact ⟨mem_blocks_of_parentOf named, named⟩
  · intro id member
    obtain ⟨steps, -, reached⟩ := consistent.exists_chain_root member
    exact ⟨steps + 1, reached⟩

/-- A table with a missing parent, no parent, a block under itself, a circle of three with a chain
leading into it, wrong entries in child sets, and wrong flags. -/
def tangled : BlockTable :=
  let group (numbers : List BlockId) : BlockSet := .ofList numbers
  let block (id : BlockId) (parent : Option BlockId) (children : List BlockId) :=
    (id, (⟨id, .doBlock, none, id, id + 1, parent, group children, false, 0⟩ : BlockRecord))
  { blocks := .ofList
      [block 1 (some 9) [], block 2 none [], block 3 (some 3) [], block 4 (some 5) [],
       block 5 (some 6) [], block 6 (some 4) [8], block 7 (some 4) [], block 8 (some 0) [1, 77]]
    rootChildren := group [5, 99]
    pending := .ofList [(8, group [1]), (9, group [1])]
    orphans := .ofList [(7, 8), (50, 8)] }

/-- The tangled table meets the condition, and its repair moves four blocks. -/
theorem resolve_consistent_tangled :
    tangled.Filed ∧ tangled.resolve.2.orphansReattached = 4 ∧
      tangled.resolve.1.inconsistencies = [] ∧
      tangled.resolve.1.resolve = (tangled.resolve.1, {}) := by
  have filed : tangled.Filed := Filed.of_entries (by decide +kernel)
  obtain ⟨-, -, -, -, -, none, again, -⟩ := resolve_consistent tangled filed
  exact ⟨filed, by decide +kernel, none, again⟩

end BlockTable

end LuaCoverage
