import LuaCoverage.Proofs.Block.ArrivalOrder
import LuaCoverage.Store.Merge

/-!
# Putting block tables together

The blocks of one table are added to another one in the order of their numbers, so a block may come
before its parent and waits for it. While this goes on the table is `Linked`: its child sets list
exactly the blocks whose records name their owner, and exactly those blocks wait whose parents are
missing. Adding a block keeps this (`Linked.insert`), whichever blocks are there already, as long as
nothing is flagged.

When all blocks are there, no parent is missing, so nothing waits and the table is `Settled`: it is
determined by its records without their child sets. Putting two settled tables together therefore
comes down to putting the records of each block together (`bare_union`).
-/

set_option autoImplicit false

namespace LuaCoverage

theorem BlockId.isRoot_iff {id : BlockId} : BlockId.isRoot id = true ↔ id = BlockId.root := by
  simp [BlockId.isRoot]

namespace BlockTable

/-- The records after a change of one of them. -/
theorem getElem?_modifyBlock (table : BlockTable) (id other : BlockId)
    (change : BlockRecord → BlockRecord) :
    (table.modifyBlock id change).blocks[other]? =
      if id = other then (table.blocks[other]?).map change else table.blocks[other]? := by
  simp only [modifyBlock, Std.ExtTreeMap.getElem?_modify, Std.LawfulEqCmp.compare_eq_iff_eq]
  split
  · rename_i same
    rw [same]
  · rfl

/-! ## Listing children -/

/-- The main chunk and the blocks with a record are those that have a child set. -/
theorem exists_childrenOf {table : BlockTable} {owner : BlockId} :
    (∃ children, table.childrenOf owner = some children) ↔
      owner = BlockId.root ∨ owner ∈ table.blocks := by
  unfold childrenOf
  by_cases isRoot : owner = BlockId.root
  · subst isRoot
    exact ⟨fun _ => .inl rfl, fun _ => ⟨table.rootChildren, rfl⟩⟩
  · rw [if_neg (mt BlockId.isRoot_iff.mp isRoot), mem_map_iff]
    simp [isRoot, Option.map_eq_some_iff]

theorem owner_of_lists {table : BlockTable} {owner child : BlockId}
    (lists : table.Lists owner child) : owner = BlockId.root ∨ owner ∈ table.blocks := by
  obtain ⟨children, own, -⟩ := lists
  exact exists_childrenOf.mp ⟨children, own⟩

/-- Child sets are in line if each of them lists the blocks that name its owner. -/
theorem aligned_iff {table : BlockTable} :
    table.Aligned ↔ ∀ owner, owner = BlockId.root ∨ owner ∈ table.blocks → ∀ child,
      table.Lists owner child ↔ table.parentOf child = some owner := by
  constructor
  · intro aligned owner isOwner child
    obtain ⟨children, own⟩ := exists_childrenOf.mpr isOwner
    refine ⟨?_, fun named => ⟨children, own, (aligned owner children own child).mpr named⟩⟩
    rintro ⟨others, own', listed⟩
    exact (aligned owner others own' child).mp listed
  · intro lists owner children own child
    rw [← lists owner (exists_childrenOf.mp ⟨children, own⟩) child]
    refine ⟨fun listed => ⟨children, own, listed⟩, ?_⟩
    rintro ⟨others, own', listed⟩
    obtain rfl : children = others := Option.some.inj (own.symm.trans own')
    exact listed

section Lists

variable (table : BlockTable) {owner other child parent : BlockId}

/-- Entering a child in the set of a block. -/
theorem lists_addChild (notRoot : parent ≠ BlockId.root) :
    (table.modifyBlock parent fun record =>
        { record with children := record.children.insert child }).Lists owner other ↔
      table.Lists owner other ∨ owner = parent ∧ parent ∈ table.blocks ∧ other = child := by
  unfold Lists childrenOf
  by_cases isRoot : owner = BlockId.root
  · subst isRoot
    simp [BlockId.isRoot, modifyBlock, notRoot.symm]
  · simp only [if_neg (mt BlockId.isRoot_iff.mp isRoot), modifyBlock,
      Std.ExtTreeMap.getElem?_modify, Std.LawfulEqCmp.compare_eq_iff_eq]
    by_cases same : parent = owner
    · subst same
      cases stored : table.blocks[parent]? with
      | none => simp [mem_map_iff, stored]
      | some record =>
          have present : parent ∈ table.blocks := mem_map_iff.mpr ⟨record, stored⟩
          simp only [if_true, Option.map_some, Option.some.injEq, exists_eq_left',
            Std.ExtTreeSet.mem_insert, Std.LawfulEqCmp.compare_eq_iff_eq, present, true_and]
          rw [or_comm, eq_comm]
    · have different : ¬ owner = parent := fun equal => same equal.symm
      simp [same, different]

/-- A linked child is listed by its parent, if that exists. -/
theorem lists_link (named : Option BlockId) :
    (table.link child named).Lists owner other ↔ table.Lists owner other ∨
      named = some owner ∧ other = child ∧ (owner = BlockId.root ∨ owner ∈ table.blocks) := by
  cases named with
  | none => simp [link]
  | some parent =>
      rw [Option.some.injEq, link]
      by_cases isRoot : parent = BlockId.root
      · subst isRoot
        rw [if_pos (BlockId.isRoot_iff.mpr rfl)]
        unfold Lists childrenOf
        by_cases chunk : owner = BlockId.root
        · subst chunk
          simp only [BlockId.isRoot, beq_self_eq_true, if_true, Option.some.injEq, exists_eq_left',
            Std.ExtTreeSet.mem_insert, Std.LawfulEqCmp.compare_eq_iff_eq, true_and, true_or,
            and_true]
          rw [or_comm, eq_comm]
        · have notChunk := mt BlockId.isRoot_iff.mp chunk
          have different : ¬ BlockId.root = owner := fun equal => chunk equal.symm
          simp [notChunk, different]
      · rw [if_neg (mt BlockId.isRoot_iff.mp isRoot)]
        split
        · rename_i contained
          have present := Std.ExtTreeMap.contains_iff_mem.mp contained
          rw [lists_addChild table isRoot]
          refine or_congr_right ⟨?_, ?_⟩
          · rintro ⟨rfl, -, rfl⟩
            exact ⟨rfl, rfl, .inr present⟩
          · rintro ⟨rfl, rfl, -⟩
            exact ⟨rfl, present, rfl⟩
        · rename_i missing
          refine ⟨.inl, ?_⟩
          rintro (lists | ⟨rfl, -, chunk | present⟩)
          · exact lists
          · exact absurd chunk isRoot
          · exact absurd (Std.ExtTreeMap.contains_iff_mem.mpr present) missing

/-- Adopting children enters those that name their parent. -/
theorem lists_adoptNamed (notRoot : parent ≠ BlockId.root) (present : parent ∈ table.blocks)
    (children : List BlockId) :
    (table.adoptNamed parent children).Lists owner other ↔ table.Lists owner other ∨
      owner = parent ∧ other ∈ children ∧ table.parentOf other = some parent := by
  induction children generalizing table with
  | nil => simp [adoptNamed]
  | cons first rest ih =>
      have unfolded : table.adoptNamed parent (first :: rest) =
          (table.adoptNamed parent [first]).adoptNamed parent rest := rfl
      have sameBare := bare_adoptNamed table parent [first]
      have present' : parent ∈ (table.adoptNamed parent [first]).blocks :=
        (mem_blocks_congr (profile_congr sameBare) parent).mpr present
      rw [unfolded, ih _ present', parentOf_congr sameBare]
      have single : (table.adoptNamed parent [first]).Lists owner other ↔
          table.Lists owner other ∨
            owner = parent ∧ other = first ∧ table.parentOf other = some parent := by
        unfold adoptNamed
        rw [List.foldl_cons, List.foldl_nil]
        split
        · rename_i named
          rw [lists_addChild table notRoot]
          refine or_congr_right ⟨?_, ?_⟩
          · rintro ⟨rfl, -, rfl⟩
            exact ⟨rfl, rfl, named⟩
          · rintro ⟨rfl, rfl, -⟩
            exact ⟨rfl, present, rfl⟩
        · rename_i unnamed
          refine ⟨.inl, ?_⟩
          rintro (lists | ⟨-, rfl, named⟩)
          · exact lists
          · exact absurd named unnamed
      rw [single, List.mem_cons]
      tauto

end Lists

/-! ## Tables under construction -/

/-- The children that wait for a parent. -/
def waitingFor (table : BlockTable) (parent : BlockId) : BlockSet := (table.pending[parent]?).getD ∅

/-- A linked child waits for its parent if that is missing. -/
theorem mem_waitingFor_link (table : BlockTable) (child : BlockId) (named : Option BlockId)
    {parent other : BlockId} :
    other ∈ (table.link child named).waitingFor parent ↔ other ∈ table.waitingFor parent ∨
      named = some parent ∧ other = child ∧ parent ≠ BlockId.root ∧ parent ∉ table.blocks := by
  cases named with
  | none => simp [link]
  | some own =>
      rw [Option.some.injEq, link]
      split
      · rename_i chunk
        refine ⟨.inl, ?_⟩
        rintro (waits | ⟨rfl, -, notRoot, -⟩)
        · exact waits
        · exact absurd (BlockId.isRoot_iff.mp chunk) notRoot
      · rename_i notChunk
        split
        · rename_i contained
          refine ⟨.inl, ?_⟩
          rintro (waits | ⟨rfl, -, -, missing⟩)
          · exact waits
          · exact absurd (Std.ExtTreeMap.contains_iff_mem.mp contained) missing
        · rename_i missing
          have absent : own ∉ table.blocks := by simpa using missing
          have notRoot : own ≠ BlockId.root := fun chunk => notChunk (BlockId.isRoot_iff.mpr chunk)
          simp only [waitingFor, await, Std.ExtTreeMap.getElem?_alter,
            Std.LawfulEqCmp.compare_eq_iff_eq]
          by_cases same : own = parent
          · subst same
            simp only [if_true, Option.getD_some, Std.ExtTreeSet.mem_insert,
              Std.LawfulEqCmp.compare_eq_iff_eq, true_and, notRoot, ne_eq, not_false_eq_true,
              absent, and_true]
            rw [or_comm, eq_comm]
          · simp [same]

/-- Whoever is waited for after a child was linked was waited for before, or by the child. -/
theorem awaited_link {table : BlockTable} {child : BlockId} {named : Option BlockId}
    (awaited : ∀ parent ∈ table.pending, ∃ other, other ∈ table.waitingFor parent) :
    ∀ parent ∈ (table.link child named).pending,
      ∃ other, other ∈ (table.link child named).waitingFor parent := by
  intro parent member
  have old : parent ∈ table.pending → ∃ other, other ∈ (table.link child named).waitingFor parent :=
    fun before => (awaited parent before).imp fun other waits =>
      (mem_waitingFor_link table child named).mpr (.inl waits)
  cases named with
  | none => exact old member
  | some own =>
      by_cases same : own = parent ∧ own ≠ BlockId.root ∧ own ∉ table.blocks
      · obtain ⟨rfl, notRoot, missing⟩ := same
        exact ⟨child, (mem_waitingFor_link table child _).mpr (.inr ⟨rfl, rfl, notRoot, missing⟩)⟩
      · refine old ?_
        rw [link] at member
        split at member
        · exact member
        · rename_i notChunk
          split at member
          · exact member
          · rename_i missing
            have different : ¬ own = parent := fun equal =>
              same ⟨equal, fun chunk => notChunk (BlockId.isRoot_iff.mpr chunk),
                by simpa using missing⟩
            simpa [await, Std.ExtTreeMap.mem_alter, different] using member

/-- What holds of a table while blocks are added to it: child sets list the blocks that name their
owner, exactly those blocks wait whose parents are missing, and nothing is flagged. -/
structure Linked (table : BlockTable) : Prop where
  filed : table.Filed
  aligned : table.Aligned
  waits : ∀ parent child, child ∈ table.waitingFor parent ↔
    table.parentOf child = some parent ∧ parent ≠ BlockId.root ∧ parent ∉ table.blocks
  awaited : ∀ parent ∈ table.pending, ∃ child, child ∈ table.waitingFor parent
  unflagged : table.orphans = ∅

/-- A table in which no parent is missing, and nothing is flagged. -/
structure Settled (table : BlockTable) : Prop where
  linked : table.Linked
  parentsExist : table.ParentsExist

theorem linked_empty : Linked empty where
  filed := ⟨fun _ _ none => by simp [empty] at none, Std.ExtTreeMap.not_mem_empty⟩
  aligned := by
    intro owner children own child
    have nobody : empty.parentOf child = none := rfl
    rw [nobody]
    refine iff_of_false (fun member => ?_) nofun
    rcases exists_childrenOf.mp ⟨children, own⟩ with rfl | inside
    · obtain rfl : empty.rootChildren = children := Option.some.inj own
      exact Std.ExtTreeSet.not_mem_empty member
    · exact Std.ExtTreeMap.not_mem_empty inside
  waits := fun parent child =>
    iff_of_false Std.ExtTreeSet.not_mem_empty fun named => nomatch named.1
  awaited := fun _ member => absurd member Std.ExtTreeMap.not_mem_empty
  unflagged := rfl

namespace Linked

variable {table : BlockTable}

/-- When no parent is missing, nothing waits. -/
theorem pending_eq (linked : table.Linked) (parents : table.ParentsExist) : table.pending = ∅ := by
  apply Std.ExtTreeMap.ext_getElem?
  intro parent
  rw [Std.ExtTreeMap.getElem?_empty]
  cases found : table.pending[parent]? with
  | none => rfl
  | some children =>
      obtain ⟨child, waits⟩ := linked.awaited parent (mem_map_iff.mpr ⟨children, found⟩)
      obtain ⟨named, notRoot, missing⟩ := (linked.waits parent child).mp waits
      exact ((parents child parent named).elim notRoot missing).elim

section Inserting

variable {record : BlockRecord}

/-- The table with a new block at its parent, before it takes those that wait for it. -/
def entered (table : BlockTable) (record : BlockRecord) : BlockTable :=
  ((table.stored record).link record.id record.parentId).adoptNamed record.id record.children.toList

/-- With nothing flagged, a new block takes the blocks that wait for it and no others. -/
theorem insert_eq (linked : table.Linked) (notRoot : record.id ≠ BlockId.root)
    (fresh : record.id ∉ table.blocks) :
    (table.insert record).1 =
      ({ entered table record with pending := (entered table record).pending.erase record.id } :
        BlockTable).adoptNamed record.id ((entered table record).waitingFor record.id).toList := by
  rw [BlockTable.insert_eq notRoot fresh, settleWaiting]
  have noFlags : (entered table record).orphans = ∅ := by
    rw [entered, (adoptNamed_frame _ _ _).1, orphans_link]
    exact linked.unflagged
  have nobody : ∀ current : BlockTable, current.orphans = ∅ →
      (current.orphans.toList.filter fun entry => entry.2 == record.id).map Prod.fst = [] := by
    intro current empty
    rw [empty]
    rfl
  simp only
  rw [nobody]
  · rfl
  · rw [(adoptNamed_frame _ _ _).1]
    exact noFlags

/-- A new block leaves the records of the others as they are. -/
theorem bare_insert (linked : table.Linked) (notRoot : record.id ≠ BlockId.root)
    (fresh : record.id ∉ table.blocks) (id : BlockId) :
    (table.insert record).1.bare id =
      if record.id = id then some record.bare else table.bare id := by
  have noFlag : ¬ table.orphans[id]? = some record.id := by
    rw [linked.unflagged]
    exact nofun
  rw [BlockTable.bare_insert notRoot fresh]
  simp only [if_neg noFlag]

theorem bare_entered (linked : table.Linked) (notRoot : record.id ≠ BlockId.root)
    (fresh : record.id ∉ table.blocks) :
    (entered table record).bare = (table.insert record).1.bare := by
  funext id
  rw [entered, bare_linked, linked.bare_insert notRoot fresh]

theorem parentOf_insert (linked : table.Linked) (notRoot : record.id ≠ BlockId.root)
    (fresh : record.id ∉ table.blocks) (id : BlockId) :
    (table.insert record).1.parentOf id =
      if record.id = id then record.parentId else table.parentOf id := by
  rw [parentOf_eq_bind_bare, linked.bare_insert notRoot fresh, parentOf_eq_bind_bare]
  split <;> rfl

theorem mem_blocks_stored (id : BlockId) :
    id ∈ (table.stored record).blocks ↔ record.id = id ∨ id ∈ table.blocks := by
  rw [mem_blocks_iff_bare, bare_stored, mem_blocks_iff_bare]
  by_cases same : record.id = id <;> simp [same]

theorem mem_blocks_insert (linked : table.Linked) (notRoot : record.id ≠ BlockId.root)
    (fresh : record.id ∉ table.blocks) (id : BlockId) :
    id ∈ (table.insert record).1.blocks ↔ record.id = id ∨ id ∈ table.blocks := by
  rw [mem_blocks_iff_bare, linked.bare_insert notRoot fresh, mem_blocks_iff_bare]
  by_cases same : record.id = id <;> simp [same]

/-- A new record lists nobody yet. -/
theorem lists_stored (notRoot : record.id ≠ BlockId.root) (fresh : record.id ∉ table.blocks)
    {owner child : BlockId} :
    (table.stored record).Lists owner child ↔ table.Lists owner child := by
  by_cases same : record.id = owner
  · subst same
    refine iff_of_false ?_ fun lists => (owner_of_lists lists).elim notRoot fresh
    rintro ⟨children, own, listed⟩
    have empty : (∅ : BlockSet) = children := by
      simpa [childrenOf, mt BlockId.isRoot_iff.mp notRoot, stored] using own
    subst empty
    exact Std.ExtTreeSet.not_mem_empty listed
  · have kept : (table.stored record).childrenOf owner = table.childrenOf owner := by
      simp only [childrenOf, stored, Std.ExtTreeMap.getElem?_insert,
        Std.LawfulEqCmp.compare_eq_iff_eq, if_neg same]
    rw [Lists, kept]
    exact Iff.rfl

/-- Who waits before a new block takes its own. -/
theorem mem_waitingFor_entered {parent child : BlockId} :
    child ∈ (entered table record).waitingFor parent ↔ child ∈ table.waitingFor parent ∨
      record.parentId = some parent ∧ child = record.id ∧ parent ≠ BlockId.root ∧
        ¬ (record.id = parent ∨ parent ∈ table.blocks) := by
  rw [entered, waitingFor, (adoptNamed_frame _ _ _).2, ← waitingFor, mem_waitingFor_link,
    mem_blocks_stored]
  exact Iff.rfl

/-- **Who is listed after a new block was added**: whoever was listed, the block itself at its
parent, and below the block those it claims and those that waited, as far as they name it. -/
theorem lists_insert (linked : table.Linked) (notRoot : record.id ≠ BlockId.root)
    (fresh : record.id ∉ table.blocks) {owner child : BlockId} :
    (table.insert record).1.Lists owner child ↔
      table.Lists owner child ∨
        (record.parentId = some owner ∧ child = record.id ∧
          (owner = BlockId.root ∨ owner ∈ (table.insert record).1.blocks)) ∨
        (owner = record.id ∧ (table.insert record).1.parentOf child = some record.id ∧
          (child ∈ record.children ∨ child ∈ table.waitingFor record.id)) := by
  have own : record.id ∈ (entered table record).blocks := by
    rw [mem_blocks_congr (profile_congr (linked.bare_entered notRoot fresh)),
      linked.mem_blocks_insert notRoot fresh]
    exact .inl rfl
  have linkedOwn : record.id ∈ ((table.stored record).link record.id record.parentId).blocks := by
    rw [mem_blocks_congr (profile_congr (bare_link _ _ _)), mem_blocks_stored]
    exact .inl rfl
  have waits : child ∈ (entered table record).waitingFor record.id ↔
      child ∈ table.waitingFor record.id := by
    rw [mem_waitingFor_entered]
    exact or_iff_left fun itself => itself.2.2.2 (.inl rfl)
  have parents : (entered table record).parentOf child = (table.insert record).1.parentOf child :=
    congrFun (parentOf_congr (linked.bare_entered notRoot fresh)) child
  have linkedParents : ((table.stored record).link record.id record.parentId).parentOf child =
      (entered table record).parentOf child :=
    (congrFun (parentOf_congr (bare_adoptNamed _ _ _)) child).symm
  have taken : (table.insert record).1.Lists owner child ↔
      (entered table record).Lists owner child ∨
        owner = record.id ∧ child ∈ ((entered table record).waitingFor record.id).toList ∧
          (entered table record).parentOf child = some record.id := by
    rw [linked.insert_eq notRoot fresh]
    exact lists_adoptNamed
      { entered table record with pending := (entered table record).pending.erase record.id }
      notRoot own _
  have claimed : (entered table record).Lists owner child ↔
      (table.Lists owner child ∨ record.parentId = some owner ∧ child = record.id ∧
        (owner = BlockId.root ∨ owner ∈ (table.insert record).1.blocks)) ∨
      owner = record.id ∧ child ∈ record.children.toList ∧
        (entered table record).parentOf child = some record.id := by
    rw [← linkedParents, entered, lists_adoptNamed _ notRoot linkedOwn, lists_link,
      lists_stored notRoot fresh, mem_blocks_stored, linked.mem_blocks_insert notRoot fresh]
  rw [taken, claimed, Std.ExtTreeSet.mem_toList, Std.ExtTreeSet.mem_toList, waits, parents]
  constructor
  · rintro (((old | entry) | ⟨here, claims, names⟩) | ⟨here, waited, names⟩)
    · exact .inl old
    · exact .inr (.inl entry)
    · exact .inr (.inr ⟨here, names, .inl claims⟩)
    · exact .inr (.inr ⟨here, names, .inr waited⟩)
  · rintro (old | entry | ⟨here, names, claims | waited⟩)
    · exact .inl (.inl (.inl old))
    · exact .inl (.inl (.inr entry))
    · exact .inl (.inr ⟨here, claims, names⟩)
    · exact .inr ⟨here, waited, names⟩

/-- Who waits after a new block was added. -/
theorem mem_waitingFor_insert (linked : table.Linked) (notRoot : record.id ≠ BlockId.root)
    (fresh : record.id ∉ table.blocks) {parent child : BlockId} :
    child ∈ (table.insert record).1.waitingFor parent ↔ record.id ≠ parent ∧
      (child ∈ table.waitingFor parent ∨ record.parentId = some parent ∧ child = record.id ∧
        parent ≠ BlockId.root ∧ ¬ (record.id = parent ∨ parent ∈ table.blocks)) := by
  rw [linked.insert_eq notRoot fresh, waitingFor, (adoptNamed_frame _ _ _).2]
  simp only [Std.ExtTreeMap.getElem?_erase, Std.LawfulEqCmp.compare_eq_iff_eq]
  by_cases same : record.id = parent
  · subst same
    simp
  · rw [if_neg same, ← waitingFor, mem_waitingFor_entered]
    simp [same]

/-- **Adding a new block keeps a table linked.** -/
theorem insert (linked : table.Linked) (notRoot : record.id ≠ BlockId.root)
    (fresh : record.id ∉ table.blocks) : (table.insert record).1.Linked := by
  have parents := linked.parentOf_insert notRoot fresh
  have blocks := linked.mem_blocks_insert notRoot fresh
  have nameless : table.parentOf record.id = none := parentOf_eq_none_of_not_mem fresh
  have others : ∀ {child parent : BlockId}, table.parentOf child = some parent →
      record.id ≠ child := by
    rintro child parent named rfl
    rw [nameless] at named
    cases named
  refine ⟨⟨?own, ?noRoot⟩, aligned_iff.mpr ?aligned, ?waits, ?awaited, ?unflagged⟩
  case own =>
    intro id stored found
    have bareAt := linked.bare_insert notRoot fresh id
    rw [bare, found] at bareAt
    split at bareAt
    · rename_i same
      exact (congrArg BlockRecord.id (Option.some.inj bareAt)).trans same
    · obtain ⟨old, stored', same⟩ := Option.map_eq_some_iff.mp bareAt.symm
      exact (congrArg BlockRecord.id same).symm.trans (linked.filed.own id old stored')
  case noRoot =>
    rw [blocks]
    exact not_or.mpr ⟨notRoot, linked.filed.noRoot⟩
  case aligned =>
    intro owner isOwner child
    rw [linked.lists_insert notRoot fresh]
    constructor
    · rintro (old | ⟨named, rfl, -⟩ | ⟨rfl, named, -⟩)
      · have named := (aligned_iff.mp linked.aligned owner (owner_of_lists old) child).mp old
        rw [parents, if_neg (others named), named]
      · rw [parents, if_pos rfl, named]
      · exact named
    · intro named
      by_cases itself : record.id = child
      · subst itself
        rw [parents, if_pos rfl] at named
        exact .inr (.inl ⟨named, rfl, isOwner⟩)
      · have old : table.parentOf child = some owner := by rwa [parents, if_neg itself] at named
        by_cases below : owner = record.id
        · subst below
          exact .inr (.inr ⟨rfl, named, .inr ((linked.waits _ _).mpr ⟨old, notRoot, fresh⟩)⟩)
        · have wasOwner : owner = BlockId.root ∨ owner ∈ table.blocks := by
            refine isOwner.imp_right fun inside => ?_
            exact ((blocks owner).mp inside).resolve_left fun same => below same.symm
          exact .inl ((aligned_iff.mp linked.aligned owner wasOwner child).mpr old)
  case waits =>
    intro parent child
    rw [linked.mem_waitingFor_insert notRoot fresh, linked.waits, parents, blocks, not_or]
    constructor
    · rintro ⟨differs, ⟨named, chunk, missing⟩ | ⟨named, rfl, chunk, missing⟩⟩
      · exact ⟨by rw [if_neg (others named), named], chunk, differs, missing⟩
      · exact ⟨by rw [if_pos rfl, named], chunk, missing⟩
    · rintro ⟨named, chunk, differs, missing⟩
      refine ⟨differs, ?_⟩
      split at named
      · rename_i itself
        exact .inr ⟨named, itself.symm, chunk, differs, missing⟩
      · exact .inl ⟨named, chunk, missing⟩
  case awaited =>
    intro parent member
    have waitedFor : record.id ≠ parent ∧ parent ∈ (entered table record).pending := by
      rw [linked.insert_eq notRoot fresh, (adoptNamed_frame _ _ _).2] at member
      simpa using member
    have entering : parent ∈
        ((table.stored record).link record.id record.parentId).pending := by
      rw [entered, (adoptNamed_frame _ _ _).2] at waitedFor
      exact waitedFor.2
    have awaited : ∀ other ∈ (table.stored record).pending,
        ∃ child, child ∈ (table.stored record).waitingFor other := linked.awaited
    obtain ⟨child, waits⟩ := awaited_link awaited parent entering
    refine ⟨child, (linked.mem_waitingFor_insert notRoot fresh).mpr ⟨waitedFor.1, ?_⟩⟩
    rwa [mem_waitingFor_link, mem_blocks_stored] at waits
  case unflagged =>
    apply Std.ExtTreeMap.ext_getElem?
    intro id
    rw [BlockTable.orphans_insert notRoot fresh, linked.unflagged]
    split <;> rfl

end Inserting

end Linked

/-! ## Changing records in place -/

section Changing

variable {table : BlockTable} {id : BlockId} {change : BlockRecord → BlockRecord}

/-- Changing records other than in their parents changes no parent. -/
theorem parentOf_modifyBlock (parents : ∀ record, (change record).parentId = record.parentId) :
    (table.modifyBlock id change).parentOf = table.parentOf := by
  funext other
  rw [parentOf, getElem?_modifyBlock, parentOf]
  split
  · cases table.blocks[other]? with
    | none => rfl
    | some record => exact parents record
  · rfl

theorem childrenOf_modifyBlock (children : ∀ record, (change record).children = record.children) :
    (table.modifyBlock id change).childrenOf = table.childrenOf := by
  funext other
  rw [childrenOf, getElem?_modifyBlock, childrenOf]
  split
  · rfl
  · split
    · cases table.blocks[other]? with
      | none => rfl
      | some record => exact congrArg some (children record)
    · rfl

theorem mem_blocks_modifyBlock {other : BlockId} :
    other ∈ (table.modifyBlock id change).blocks ↔ other ∈ table.blocks :=
  Std.ExtTreeMap.mem_modify

/-- A change of a record that concerns neither its number nor its relations leaves a table
linked. -/
theorem Linked.modifyBlock (linked : table.Linked) (ids : ∀ record, (change record).id = record.id)
    (parents : ∀ record, (change record).parentId = record.parentId)
    (children : ∀ record, (change record).children = record.children) :
    (table.modifyBlock id change).Linked := by
  refine ⟨⟨?own, ?noRoot⟩, ?aligned, ?waits, linked.awaited, linked.unflagged⟩
  case own =>
    intro other record found
    rw [getElem?_modifyBlock] at found
    split at found
    · obtain ⟨old, stored, rfl⟩ := Option.map_eq_some_iff.mp found
      exact (ids old).trans (linked.filed.own other old stored)
    · exact linked.filed.own other record found
  case noRoot =>
    rw [mem_blocks_modifyBlock]
    exact linked.filed.noRoot
  case aligned =>
    intro owner others own child
    rw [childrenOf_modifyBlock children] at own
    rw [parentOf_modifyBlock parents]
    exact linked.aligned owner others own child
  case waits =>
    intro parent child
    rw [parentOf_modifyBlock parents, mem_blocks_modifyBlock]
    exact linked.waits parent child

theorem Settled.modifyBlock (settled : table.Settled)
    (ids : ∀ record, (change record).id = record.id)
    (parents : ∀ record, (change record).parentId = record.parentId)
    (children : ∀ record, (change record).children = record.children) :
    (table.modifyBlock id change).Settled where
  linked := settled.linked.modifyBlock ids parents children
  parentsExist := by
    intro other parent named
    rw [parentOf_modifyBlock parents] at named
    rw [mem_blocks_modifyBlock]
    exact settled.parentsExist other parent named

end Changing

/-! ## Adding the hits of another table -/

section Merging

variable {table : BlockTable}

theorem bare_merge (ours theirs : BlockRecord) :
    (ours.merge theirs).bare = ours.bare.merge theirs.bare := rfl

/-- Adding one of their blocks keeps a table linked. -/
theorem Linked.mergeBlock (linked : table.Linked) {theirs : BlockRecord}
    (notRoot : theirs.id ≠ BlockId.root) : (table.mergeBlock theirs).Linked := by
  unfold BlockTable.mergeBlock
  split
  · exact linked.modifyBlock (fun _ => rfl) (fun _ => rfl) fun _ => rfl
  · rename_i missing
    exact linked.insert notRoot (by simpa using missing)

/-- Adding one of their blocks adds their hits to ours. -/
theorem Linked.bare_mergeBlock (linked : table.Linked) {theirs : BlockRecord}
    (notRoot : theirs.id ≠ BlockId.root) (id : BlockId) :
    (table.mergeBlock theirs).bare id =
      if theirs.id = id then (table.bare id).merge BlockRecord.merge (some theirs.bare)
      else table.bare id := by
  unfold BlockTable.mergeBlock
  split
  · rename_i contained
    obtain ⟨ours, stored⟩ := mem_map_iff.mp (Std.ExtTreeMap.contains_iff_mem.mp contained)
    simp only [bare, getElem?_modifyBlock]
    split
    · rename_i same
      rw [← same, stored, Option.map_some, Option.map_some, bare_merge]
      rfl
    · rfl
  · rename_i missing
    have fresh : theirs.id ∉ table.blocks := by simpa using missing
    rw [linked.bare_insert notRoot fresh]
    split
    · rename_i same
      have absent : table.bare id = none := by
        rw [← same, ← Option.not_isSome_iff_eq_none, ← mem_blocks_iff_bare]
        exact fresh
      rw [absent, Option.merge_none_left]
    · rfl

theorem declaredBlock_cons (first : BlockRecord) (rest : List BlockRecord) (id : BlockId) :
    declaredBlock (first :: rest) id =
      if first.id = id then some first else declaredBlock rest id := by
  rw [declaredBlock, List.find?_cons]
  by_cases same : first.id = id
  · simp [same]
  · rw [if_neg same, beq_eq_false_iff_ne.mpr same]
    rfl

/-- **Adding blocks with distinct numbers one after another** adds the hits of each to ours. -/
theorem Linked.foldl_mergeBlock {records : List BlockRecord} (declarable : Declarable records)
    (linked : table.Linked) :
    (records.foldl BlockTable.mergeBlock table).Linked ∧
      ∀ id, (records.foldl BlockTable.mergeBlock table).bare id =
        (table.bare id).merge BlockRecord.merge
          ((declaredBlock records id).map BlockRecord.bare) := by
  induction records generalizing table with
  | nil => exact ⟨linked, fun id => Option.merge_none_right.symm⟩
  | cons first rest ih =>
      obtain ⟨fresh, distinct⟩ := List.nodup_cons.mp declarable.distinct
      have notRoot := declarable.noRoot first List.mem_cons_self
      obtain ⟨kept, added⟩ := ih
        ⟨distinct, fun record member => declarable.noRoot record (List.mem_cons_of_mem _ member)⟩
        (linked.mergeBlock notRoot)
      refine ⟨kept, fun id => ?_⟩
      rw [List.foldl_cons, added, linked.bare_mergeBlock notRoot, declaredBlock_cons]
      by_cases same : first.id = id
      · -- no later block has the number of the first one
        have absent : declaredBlock rest id = none :=
          declaredBlock_eq_none.mpr fun record member itself =>
            fresh (List.mem_map.mpr ⟨record, member, itself.trans same.symm⟩)
        rw [if_pos same, if_pos same, absent]
        exact Option.merge_none_right
      · rw [if_neg same, if_neg same]

end Merging

/-! ## Whole tables -/

section Tables

variable {table ours theirs : BlockTable}

/-- The blocks of a table are declared by their records. -/
theorem Filed.declarable (filed : table.Filed) : Declarable table.blocks.values where
  distinct := by
    have ids : table.blocks.values.map BlockRecord.id = table.blocks.keys := by
      rw [values_eq_map_toList, ← Std.ExtTreeMap.map_fst_toList_eq_keys, List.map_map]
      refine List.map_congr_left fun entry member => ?_
      exact filed.own _ _ (Std.ExtTreeMap.mem_toList_iff_getElem?_eq_some.mp member)
    rw [ids]
    exact Std.ExtTreeMap.nodup_keys
  noRoot := by
    intro record member isRoot
    obtain ⟨id, stored⟩ := mem_values_iff.mp member
    obtain rfl : record.id = id := filed.own id record stored
    exact filed.noRoot (mem_map_iff.mpr ⟨record, isRoot ▸ stored⟩)

theorem Filed.declaredBlock_values (filed : table.Filed) (id : BlockId) :
    declaredBlock table.blocks.values id = table.blocks[id]? := by
  apply Option.ext
  intro record
  rw [declaredBlock_eq_some filed.declarable, mem_values_iff]
  constructor
  · rintro ⟨⟨key, stored⟩, rfl⟩
    rwa [filed.own key record stored]
  · intro stored
    exact ⟨⟨id, stored⟩, filed.own id record stored⟩

/-- Our table with the blocks of another one added. -/
def union (ours theirs : BlockTable) : BlockTable :=
  theirs.blocks.values.foldl BlockTable.mergeBlock ours

theorem Linked.union (linked : ours.Linked) (filed : theirs.Filed) : (ours.union theirs).Linked :=
  (linked.foldl_mergeBlock filed.declarable).1

/-- **The records of two tables together** are those of each block together. -/
theorem Linked.bare_union (linked : ours.Linked) (filed : theirs.Filed) (id : BlockId) :
    (ours.union theirs).bare id =
      (ours.bare id).merge BlockRecord.merge (theirs.bare id) := by
  rw [BlockTable.union, (linked.foldl_mergeBlock filed.declarable).2, filed.declaredBlock_values]
  rfl

/-- Settled tables are equal if their records are, child sets apart. -/
theorem Settled.eq_of_bare (settled : ours.Settled) (settled' : theirs.Settled)
    (same : ours.bare = theirs.bare) : ours = theirs := by
  refine eq_of_aligned settled.linked.filed settled.linked.aligned settled'.linked.aligned same
    ?_ ?_
  · rw [settled.linked.pending_eq settled.parentsExist,
      settled'.linked.pending_eq settled'.parentsExist]
  · rw [settled.linked.unflagged, settled'.linked.unflagged]

/-- **Two settled tables together are settled.** -/
theorem Settled.union (settled : ours.Settled) (settled' : theirs.Settled) :
    (ours.union theirs).Settled where
  linked := settled.linked.union settled'.linked.filed
  parentsExist := by
    have records := settled.linked.bare_union settled'.linked.filed
    have blocks : ∀ id,
        id ∈ (ours.union theirs).blocks ↔ id ∈ ours.blocks ∨ id ∈ theirs.blocks := by
      intro id
      rw [mem_blocks_iff_bare, records, mem_blocks_iff_bare, mem_blocks_iff_bare]
      cases ours.bare id <;> cases theirs.bare id <;> simp
    intro id parent named
    rw [blocks]
    rw [parentOf_eq_bind_bare, records] at named
    cases own : ours.bare id with
    | none =>
        rw [own, Option.merge_none_left, ← parentOf_eq_bind_bare] at named
        exact (settled'.parentsExist id parent named).imp_right .inr
    | some record =>
        refine (settled.parentsExist id parent ?_).imp_right .inl
        rw [parentOf_eq_bind_bare, own]
        cases other : theirs.bare id <;> rw [own, other] at named <;> exact named

theorem settled_empty : Settled empty where
  linked := linked_empty
  parentsExist := fun _ _ none => nomatch none

theorem consistent_empty : Consistent empty where
  filed := linked_empty.filed
  hasParent := fun _ member => absurd member Std.ExtTreeMap.not_mem_empty
  parentsExist := settled_empty.parentsExist
  aligned := linked_empty.aligned
  acyclic := fun _ => ParentChain.not_onCircle_of_no_parent rfl
  settled := rfl

/-- A consistent table with nothing flagged is settled. -/
theorem settled_of_consistent (consistent : table.Consistent) (unflagged : table.orphans = ∅) :
    table.Settled where
  linked :=
    { filed := consistent.filed
      aligned := consistent.aligned
      waits := by
        intro parent child
        have nobody : child ∉ table.waitingFor parent := by
          rw [waitingFor, consistent.settled]
          exact Std.ExtTreeSet.not_mem_empty
        refine iff_of_false nobody fun waits => ?_
        exact (consistent.parentsExist child parent waits.1).elim waits.2.1 waits.2.2
      awaited := by
        rw [consistent.settled]
        exact fun _ member => absurd member Std.ExtTreeMap.not_mem_empty
      unflagged := unflagged }
  parentsExist := consistent.parentsExist

end Tables

end BlockTable

end LuaCoverage
