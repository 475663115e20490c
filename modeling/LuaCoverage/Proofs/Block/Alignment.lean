import LuaCoverage.Proofs.Block.Relations

/-!
# Child sets in line with the parents

`alignChildren` computes for every number the blocks whose records name it, makes these the child
sets, and lets the others wait. The result is *aligned*: a child set lists exactly the blocks whose
records name its owner. Bringing an aligned table in line again changes nothing and counts nothing,
provided that no record names a missing block.
-/

set_option autoImplicit false

namespace LuaCoverage

namespace BlockTable

/-- Every record is filed under its own number, and none under that of the main chunk. -/
structure Filed (table : BlockTable) : Prop where
  own : ∀ (id : BlockId) (record : BlockRecord), table.blocks[id]? = some record → record.id = id
  noRoot : BlockId.root ∉ table.blocks

/-- Whether the child set of a block, or of the main chunk, lists a number. -/
def Lists (table : BlockTable) (owner child : BlockId) : Prop :=
  ∃ children, table.childrenOf owner = some children ∧ child ∈ children

/-- Every child set lists exactly the blocks whose records name its owner. -/
def Aligned (table : BlockTable) : Prop :=
  ∀ owner children, table.childrenOf owner = some children →
    ∀ child, child ∈ children ↔ table.parentOf child = some owner

/-- Every parent that a record names is the main chunk or has a record. -/
def ParentsExist (table : BlockTable) : Prop :=
  ∀ id parent, table.parentOf id = some parent → parent = BlockId.root ∨ parent ∈ table.blocks

theorem Filed.of_profile {before after : BlockTable} (filed : before.Filed)
    (same : after.profile = before.profile) : after.Filed where
  own := by
    intro id record found
    have profiles := congrFun same id
    rw [profile, found, profile] at profiles
    cases stored : before.blocks[id]? with
    | none => simp [stored] at profiles
    | some old =>
        rw [stored] at profiles
        have equal : record.profile = old.profile := Option.some.inj profiles
        have ids : record.profile.id = old.profile.id := by rw [equal]
        exact ids.trans (filed.own id old stored)
  noRoot := fun member => filed.noRoot ((mem_blocks_congr same _).mp member)

/-- Filing can be read off the entries of a table. -/
theorem Filed.of_entries {table : BlockTable}
    (entries : ∀ entry ∈ table.blocks.toList, entry.2.id = entry.1 ∧ entry.1 ≠ BlockId.root) :
    table.Filed where
  own := fun id record found =>
    (entries (id, record) (Std.ExtTreeMap.mem_toList_iff_getElem?_eq_some.mpr found)).1
  noRoot := by
    intro member
    obtain ⟨record, found⟩ := mem_map_iff.mp member
    exact (entries (BlockId.root, record)
      (Std.ExtTreeMap.mem_toList_iff_getElem?_eq_some.mpr found)).2 rfl

/-- The parent that a filed record names. -/
theorem parentOf_of_getElem? {table : BlockTable} {id : BlockId} {record : BlockRecord}
    (found : table.blocks[id]? = some record) : table.parentOf id = record.parentId := by
  rw [parentOf, found]
  rfl

/-! ## Grouping by parents -/

/-- Adds one block to the group of the parent that its record names. -/
def groupUnder (grouped : BlockMap BlockSet) (id : BlockId) (record : BlockRecord) :
    BlockMap BlockSet :=
  match record.parentId with
  | none => grouped
  | some parent => grouped.alter parent fun group => some ((group.getD ∅).insert id)

theorem childrenByParent_eq (table : BlockTable) :
    table.childrenByParent =
      table.blocks.toList.foldl (fun grouped entry => groupUnder grouped entry.1 entry.2) ∅ := by
  unfold childrenByParent
  rw [Std.ExtTreeMap.foldl_eq_foldl_toList]
  rfl

theorem mem_named_groupUnder {grouped : BlockMap BlockSet} {id parent child : BlockId}
    {record : BlockRecord} :
    child ∈ named (groupUnder grouped id record) parent ↔
      child ∈ named grouped parent ∨ child = id ∧ record.parentId = some parent := by
  unfold groupUnder named
  split
  · rename_i noParent
    simp [noParent]
  · rename_i own isOwn
    simp only [Std.ExtTreeMap.getElem?_alter, Std.LawfulEqCmp.compare_eq_iff_eq, isOwn,
      Option.some.injEq]
    by_cases same : own = parent
    · subst same
      simp only [if_true, Option.getD_some, Std.ExtTreeSet.mem_insert,
        Std.LawfulEqCmp.compare_eq_iff_eq, and_true]
      rw [or_comm, eq_comm]
    · simp [same]

theorem mem_groupUnder {grouped : BlockMap BlockSet} {id parent : BlockId} {record : BlockRecord}
    (member : parent ∈ groupUnder grouped id record) :
    parent ∈ grouped ∨ record.parentId = some parent := by
  unfold groupUnder at member
  split at member
  · exact .inl member
  · rename_i own isOwn
    by_cases same : own = parent
    · exact .inr (isOwn.trans (congrArg some same))
    · simp only [Std.ExtTreeMap.mem_alter, Std.LawfulEqCmp.compare_eq_iff_eq, same, if_false]
        at member
      exact .inl member

/-- **The group of a number holds the blocks whose records name it.** -/
theorem mem_named_childrenByParent {table : BlockTable} {parent child : BlockId} :
    child ∈ named table.childrenByParent parent ↔ table.parentOf child = some parent := by
  have folded : ∀ (entries : List (BlockId × BlockRecord)) (grouped : BlockMap BlockSet),
      child ∈ named (entries.foldl (fun grouped entry => groupUnder grouped entry.1 entry.2)
          grouped) parent ↔
        child ∈ named grouped parent ∨
          ∃ record, (child, record) ∈ entries ∧ record.parentId = some parent := by
    intro entries
    induction entries with
    | nil => simp
    | cons first rest ih =>
        intro grouped
        rw [List.foldl_cons, ih, mem_named_groupUnder]
        constructor
        · rintro ((old | ⟨rfl, names⟩) | ⟨record, member, names⟩)
          · exact .inl old
          · exact .inr ⟨first.2, List.mem_cons_self, names⟩
          · exact .inr ⟨record, List.mem_cons_of_mem _ member, names⟩
        · rintro (old | ⟨record, member, names⟩)
          · exact .inl (.inl old)
          · rcases List.mem_cons.mp member with rfl | later
            · exact .inl (.inr ⟨rfl, names⟩)
            · exact .inr ⟨record, later, names⟩
  rw [childrenByParent_eq, folded]
  constructor
  · rintro (none | ⟨record, member, names⟩)
    · simp [named] at none
    · rwa [parentOf_of_getElem? (Std.ExtTreeMap.mem_toList_iff_getElem?_eq_some.mp member)]
  · intro names
    obtain ⟨record, found⟩ := mem_map_iff.mp (mem_blocks_of_parentOf names)
    rw [parentOf_of_getElem? found] at names
    exact .inr ⟨record, Std.ExtTreeMap.mem_toList_iff_getElem?_eq_some.mpr found, names⟩

/-- Only numbers that some record names have a group. -/
theorem exists_parentOf_of_mem_childrenByParent {table : BlockTable} {parent : BlockId}
    (member : parent ∈ table.childrenByParent) : ∃ child, table.parentOf child = some parent := by
  have folded : ∀ (entries : List (BlockId × BlockRecord)) (grouped : BlockMap BlockSet),
      parent ∈ entries.foldl (fun grouped entry => groupUnder grouped entry.1 entry.2) grouped →
        parent ∈ grouped ∨ ∃ entry ∈ entries, entry.2.parentId = some parent := by
    intro entries
    induction entries with
    | nil => exact fun _ => .inl
    | cons first rest ih =>
        intro grouped member
        rw [List.foldl_cons] at member
        rcases ih _ member with old | ⟨entry, later, names⟩
        · rcases mem_groupUnder old with older | names
          · exact .inl older
          · exact .inr ⟨first, List.mem_cons_self, names⟩
        · exact .inr ⟨entry, List.mem_cons_of_mem _ later, names⟩
  rw [childrenByParent_eq] at member
  rcases folded _ _ member with none | ⟨⟨child, record⟩, entry, names⟩
  · simp at none
  · exact ⟨child, (parentOf_of_getElem?
      (Std.ExtTreeMap.mem_toList_iff_getElem?_eq_some.mp entry)).trans names⟩

/-! ## Bringing child sets in line -/

theorem getElem?_blocks_alignChildren (table : BlockTable) (id : BlockId) :
    table.alignChildren.1.blocks[id]? = (table.blocks[id]?).map fun record =>
      { record with children := settledChildren table.childrenByParent id record.children } := by
  unfold alignChildren
  rw [Std.ExtTreeMap.getElem?_map]

@[simp]
theorem bare_alignChildren (table : BlockTable) : table.alignChildren.1.bare = table.bare := by
  funext id
  rw [bare, getElem?_blocks_alignChildren, bare, Option.map_map]
  rfl

@[simp]
theorem orphans_alignChildren (table : BlockTable) :
    table.alignChildren.1.orphans = table.orphans := rfl

/-- **After bringing the child sets in line they say what the records say.** -/
theorem aligned_alignChildren (table : BlockTable) : table.alignChildren.1.Aligned := by
  intro owner children listed child
  rw [parentOf_congr (bare_alignChildren table)]
  unfold childrenOf at listed
  split at listed
  · rename_i isRoot
    obtain rfl : owner = BlockId.root := by simpa [BlockId.isRoot] using isRoot
    obtain rfl : named table.childrenByParent BlockId.root = children := Option.some.inj listed
    exact mem_named_childrenByParent
  · rename_i notRoot
    rw [getElem?_blocks_alignChildren, Option.map_map] at listed
    cases stored : table.blocks[owner]? with
    | none => simp [stored] at listed
    | some record =>
        rw [stored] at listed
        obtain rfl : settledChildren table.childrenByParent owner record.children = children :=
          Option.some.inj listed
        rw [settledChildren, if_neg notRoot]
        exact mem_named_childrenByParent

/-- When every named parent exists, nothing has to wait. -/
theorem awaitMissing_of_parentsExist {table : BlockTable} (parents : table.ParentsExist) :
    table.awaitMissing table.childrenByParent = table.pending := by
  unfold awaitMissing
  rw [Std.ExtTreeMap.foldl_eq_foldl_toList]
  have present : ∀ entry ∈ table.childrenByParent.toList,
      (BlockId.isRoot entry.1 || table.blocks.contains entry.1) = true := by
    rintro ⟨parent, group⟩ entry
    obtain ⟨child, names⟩ := exists_parentOf_of_mem_childrenByParent
      (mem_map_iff.mpr ⟨group, Std.ExtTreeMap.mem_toList_iff_getElem?_eq_some.mp entry⟩)
    rcases parents child parent names with rfl | member
    · rfl
    · rw [Bool.or_eq_true]
      exact .inr (Std.ExtTreeMap.contains_iff_mem.mpr member)
  generalize table.pending = pending
  generalize table.childrenByParent.toList = entries at present
  induction entries generalizing pending with
  | nil => rfl
  | cons first rest ih =>
      rw [List.foldl_cons, if_pos (present first List.mem_cons_self)]
      exact ih pending fun entry member => present entry (List.mem_cons_of_mem _ member)

/-- A set that lists the children of a number is the group of that number. -/
theorem named_eq_of_lists {table : BlockTable} {owner : BlockId} {children : BlockSet}
    (lists : ∀ child, child ∈ children ↔ table.parentOf child = some owner) :
    named table.childrenByParent owner = children := by
  apply Std.ExtTreeSet.ext_mem
  intro child
  rw [mem_named_childrenByParent, lists]

@[simp]
theorem entriesChanged_self (children : BlockSet) : entriesChanged children children = 0 := by
  have nothing : (children.filter fun child => !children.contains child) = ∅ := by
    apply Std.ExtTreeSet.ext_mem
    intro child
    simp [Std.ExtTreeSet.mem_filter]
  rw [entriesChanged, nothing]
  rfl

/-- **A table that is in line stays as it is**, and the count says so. -/
theorem alignChildren_of_aligned {table : BlockTable} (noRoot : BlockId.root ∉ table.blocks)
    (aligned : table.Aligned) (parents : table.ParentsExist) :
    table.alignChildren = (table, 0) := by
  have settled : ∀ id record, table.blocks[id]? = some record →
      settledChildren table.childrenByParent id record.children = record.children := by
    intro id record found
    have notRoot : BlockId.isRoot id = false := by
      cases isRoot : BlockId.isRoot id with
      | false => rfl
      | true =>
          obtain rfl : id = BlockId.root := by simpa [BlockId.isRoot] using isRoot
          exact absurd (mem_map_iff.mpr ⟨record, found⟩) noRoot
    rw [settledChildren, notRoot, if_neg Bool.false_ne_true]
    refine named_eq_of_lists (aligned id record.children ?_)
    rw [childrenOf, notRoot, if_neg Bool.false_ne_true, found]
    rfl
  have rootSettled : named table.childrenByParent BlockId.root = table.rootChildren :=
    named_eq_of_lists (aligned BlockId.root table.rootChildren rfl)
  have sameBlocks : (table.blocks.map fun id record =>
      { record with children := settledChildren table.childrenByParent id record.children }) =
        table.blocks := by
    apply Std.ExtTreeMap.ext_getElem?
    intro id
    rw [Std.ExtTreeMap.getElem?_map]
    cases stored : table.blocks[id]? with
    | none => rfl
    | some record => rw [Option.map_some, settled id record stored]
  have noChange : ∀ entries : List (BlockId × BlockRecord),
      (∀ entry ∈ entries, table.blocks[entry.1]? = some entry.2) →
      entries.foldl (fun count entry => count + entriesChanged entry.2.children
        (settledChildren table.childrenByParent entry.1 entry.2.children)) 0 = 0 := by
    intro entries
    induction entries with
    | nil => exact fun _ => rfl
    | cons first rest ih =>
        intro stored
        rw [List.foldl_cons, settled _ _ (stored first List.mem_cons_self), entriesChanged_self]
        exact ih fun entry member => stored entry (List.mem_cons_of_mem _ member)
  have count := noChange table.blocks.toList fun entry member =>
    Std.ExtTreeMap.mem_toList_iff_getElem?_eq_some.mp member
  unfold alignChildren
  simp only [sameBlocks, rootSettled, awaitMissing_of_parentsExist parents, entriesChanged_self,
    count]

/-- **Tables whose child sets are in line are told apart by what the child sets follow from.** -/
theorem eq_of_aligned {first second : BlockTable} (filed : first.Filed) (aligned : first.Aligned)
    (aligned' : second.Aligned) (bare : first.bare = second.bare)
    (pending : first.pending = second.pending) (orphans : first.orphans = second.orphans) :
    first = second := by
  have parents := parentOf_congr bare
  have sameBlocks : first.blocks = second.blocks := by
    apply Std.ExtTreeMap.ext_getElem?
    intro id
    have bareAt := congrFun bare id
    unfold BlockTable.bare at bareAt
    cases stored : first.blocks[id]? with
    | none =>
        rw [stored] at bareAt
        exact (Option.map_eq_none_iff.mp bareAt.symm).symm
    | some one =>
        rw [stored] at bareAt
        obtain ⟨two, stored', same⟩ := Option.map_eq_some_iff.mp bareAt.symm
        have notRoot : ¬ BlockId.isRoot id = true := by
          intro isRoot
          obtain rfl : id = BlockId.root := by simpa [BlockId.isRoot] using isRoot
          exact filed.noRoot (mem_map_iff.mpr ⟨one, stored⟩)
        have children : one.children = two.children := by
          apply Std.ExtTreeSet.ext_mem
          intro child
          rw [aligned id one.children (by rw [childrenOf, if_neg notRoot, stored]; rfl), parents,
            aligned' id two.children (by rw [childrenOf, if_neg notRoot, stored']; rfl)]
        rw [stored']
        refine congrArg some ?_
        calc one = { one.bare with children := one.children } := rfl
          _ = { two.bare with children := two.children } := by rw [same, children]
          _ = two := rfl
  have sameRoot : first.rootChildren = second.rootChildren := by
    apply Std.ExtTreeSet.ext_mem
    intro child
    rw [aligned BlockId.root first.rootChildren rfl, parents,
      aligned' BlockId.root second.rootChildren rfl]
  obtain ⟨blocks, rootChildren, waiting, flags⟩ := first
  obtain ⟨blocks', rootChildren', waiting', flags'⟩ := second
  simp only at sameBlocks sameRoot pending orphans
  rw [sameBlocks, sameRoot, pending, orphans]

end BlockTable

end LuaCoverage
