import LuaCoverage.Proofs.Block.Union
import LuaCoverage.Proofs.Document.FaithfulReading

/-!
# Tables that can be reached

A table is *reached* if it comes from the empty one by adding blocks and renewing their
descriptions, by setting parents to anything whatever, by repairs, and by writing the table down and
reading it back, in any order (`Reached`).

Parents, child sets and waiting children agree in every such table (`Reached.related`). Flags are
left out of this: `link`, `unlink` and `modifyBlock` do not look at them, so with the flags taken
off a table goes through the same changes, except that blocks which ask for a parent do not go back
to it. That is one `setParent` for each of them, and `Linked.setParent` shows that setting parents
keeps a table linked.
-/

set_option autoImplicit false

namespace LuaCoverage

namespace BlockTable

/-! ## Unlinking -/

section Unlinking

variable (table : BlockTable) (child : BlockId)

/-- An unlinked child is missing from the child set of its parent, and from no other. -/
theorem childrenOf_unlink (parent owner : BlockId) :
    (table.unlink child (some parent)).childrenOf owner =
      (table.childrenOf owner).map fun children =>
        if parent = owner then children.erase child else children := by
  rw [unlink]
  by_cases chunk : parent = BlockId.root
  · subst chunk
    rw [if_pos (BlockId.isRoot_iff.mpr rfl)]
    unfold childrenOf
    by_cases isRoot : owner = BlockId.root
    · subst isRoot
      rfl
    · have different : ¬ BlockId.root = owner := fun same => isRoot same.symm
      simp [different, mt BlockId.isRoot_iff.mp isRoot, Function.comp_def]
  · rw [if_neg (mt BlockId.isRoot_iff.mp chunk)]
    unfold childrenOf
    by_cases isRoot : owner = BlockId.root
    · subst isRoot
      simp [BlockId.isRoot, modifyBlock, chunk]
    · simp only [if_neg (mt BlockId.isRoot_iff.mp isRoot), getElem?_modifyBlock]
      split <;> simp [Option.map_map, Function.comp_def]

theorem lists_unlink (named : Option BlockId) {owner other : BlockId} :
    (table.unlink child named).Lists owner other ↔
      table.Lists owner other ∧ ¬ (named = some owner ∧ other = child) := by
  cases named with
  | none => simp [unlink]
  | some parent =>
      rw [Option.some.injEq, Lists, childrenOf_unlink, Lists]
      by_cases same : parent = owner
      · subst same
        simp only [if_true, Option.map_eq_some_iff, exists_exists_and_eq_and, true_and,
          Std.ExtTreeSet.mem_erase, ne_eq, Std.LawfulEqCmp.compare_eq_iff_eq]
        constructor
        · rintro ⟨children, own, differs, listed⟩
          exact ⟨⟨children, own, listed⟩, fun equal => differs equal.symm⟩
        · rintro ⟨⟨children, own, listed⟩, differs⟩
          exact ⟨children, own, fun equal => differs equal.symm, listed⟩
      · simp [same]

/-- What waits after a child was unlinked. -/
theorem pending_unlink (parent other : BlockId) :
    (table.unlink child (some parent)).pending[other]? =
      if parent = other ∧ parent ≠ BlockId.root then
        (table.pending[other]?).bind fun waiting =>
          if (waiting.erase child).isEmpty then none else some (waiting.erase child)
      else table.pending[other]? := by
  rw [unlink]
  by_cases chunk : parent = BlockId.root
  · rw [if_pos (BlockId.isRoot_iff.mpr chunk), if_neg fun both => both.2 chunk]
  · rw [if_neg (mt BlockId.isRoot_iff.mp chunk)]
    simp only [Std.ExtTreeMap.getElem?_alter, Std.LawfulEqCmp.compare_eq_iff_eq]
    by_cases same : parent = other
    · subst same
      rw [if_pos rfl, if_pos ⟨rfl, chunk⟩]
      rfl
    · rw [if_neg same, if_neg fun both => same both.1]
      rfl

theorem mem_waitingFor_unlink (named : Option BlockId) {parent other : BlockId} :
    other ∈ (table.unlink child named).waitingFor parent ↔
      other ∈ table.waitingFor parent ∧
        ¬ (named = some parent ∧ parent ≠ BlockId.root ∧ other = child) := by
  cases named with
  | none => simp [unlink]
  | some own =>
      rw [Option.some.injEq, waitingFor, pending_unlink, waitingFor]
      by_cases same : own = parent ∧ own ≠ BlockId.root
      · obtain ⟨rfl, chunk⟩ := same
        rw [if_pos ⟨rfl, chunk⟩]
        cases table.pending[own]? with
        | none => simp
        | some waiting =>
            have remaining : other ∈ waiting.erase child ↔ other ∈ waiting ∧ ¬ other = child := by
              rw [Std.ExtTreeSet.mem_erase, and_comm, ne_eq, Std.LawfulEqCmp.compare_eq_iff_eq,
                eq_comm]
            simp only [Option.bind_some, Option.getD_some, true_and, chunk, ne_eq,
              not_false_eq_true]
            split
            · rename_i none
              rw [← remaining]
              refine iff_of_false Std.ExtTreeSet.not_mem_empty fun member => ?_
              rw [Std.ExtTreeSet.isEmpty_iff.mp none] at member
              exact Std.ExtTreeSet.not_mem_empty member
            · exact remaining
      · rw [if_neg same]
        refine (and_iff_left ?_).symm
        rintro ⟨rfl, chunk, -⟩
        exact same ⟨rfl, chunk⟩

/-- Whoever is waited for after a child was unlinked is still waited for by another one. -/
theorem awaited_unlink {table : BlockTable} (child : BlockId) (named : Option BlockId)
    (awaited : ∀ parent ∈ table.pending, ∃ other, other ∈ table.waitingFor parent) :
    ∀ parent ∈ (table.unlink child named).pending,
      ∃ other, other ∈ (table.unlink child named).waitingFor parent := by
  intro parent member
  cases named with
  | none => exact awaited parent member
  | some own =>
      obtain ⟨remaining, found⟩ := mem_map_iff.mp member
      simp only [waitingFor, found, Option.getD_some]
      rw [pending_unlink] at found
      split at found
      · obtain ⟨waiting, -, kept⟩ := Option.bind_eq_some_iff.mp found
        split at kept
        · cases kept
        · rename_i nonempty
          obtain rfl := Option.some.inj kept
          by_contra nobody
          exact nonempty (Std.ExtTreeSet.isEmpty_iff.mpr
            (Std.ExtTreeSet.eq_empty_iff_forall_not_mem.mpr (not_exists.mp nobody)))
      · have waits := awaited parent (mem_map_iff.mpr ⟨remaining, found⟩)
        simpa only [waitingFor, found, Option.getD_some] using waits

end Unlinking

/-! ## Setting parents -/

section Setting

variable {table : BlockTable} {child : BlockId} {record : BlockRecord} {parent : Option BlockId}

/-- Setting the parent of an existing block: it is unlinked, renamed and linked again. -/
theorem setParent_eq (unflagged : table.orphans = ∅) (found : table.blocks[child]? = some record) :
    table.setParent child parent =
      ((table.unlink child record.parentId).modifyBlock child
        (BlockRecord.under parent)).link child parent := by
  unfold setParent
  rw [found]
  have flags : ((table.unlink child record.parentId).modifyBlock child fun own =>
      { own with parentId := parent }).orphans.erase child = ∅ := by
    rw [modifyBlock, orphans_unlink, unflagged, Std.ExtTreeMap.erase_empty]
  have same : ((table.unlink child record.parentId).modifyBlock child fun own =>
      { own with parentId := parent }).orphans = ∅ := by
    rw [modifyBlock, orphans_unlink, unflagged]
  simp only [flags]
  rw [← same]
  rfl

theorem lists_setParent (unflagged : table.orphans = ∅)
    (found : table.blocks[child]? = some record) {owner other : BlockId} :
    (table.setParent child parent).Lists owner other ↔
      (table.Lists owner other ∧ ¬ (record.parentId = some owner ∧ other = child)) ∨
        parent = some owner ∧ other = child ∧ (owner = BlockId.root ∨ owner ∈ table.blocks) := by
  have blocks := mem_blocks_congr (profile_congr (bare_unlink table child record.parentId)) owner
  rw [setParent_eq unflagged found, lists_link, Lists,
    childrenOf_modifyBlock fun _ => (rfl : (BlockRecord.under parent _).children = _),
    mem_blocks_modifyBlock, blocks, ← lists_unlink]
  exact Iff.rfl

theorem mem_waitingFor_setParent (unflagged : table.orphans = ∅)
    (found : table.blocks[child]? = some record) {owner other : BlockId} :
    other ∈ (table.setParent child parent).waitingFor owner ↔
      (other ∈ table.waitingFor owner ∧
          ¬ (record.parentId = some owner ∧ owner ≠ BlockId.root ∧ other = child)) ∨
        parent = some owner ∧ other = child ∧ owner ≠ BlockId.root ∧ owner ∉ table.blocks := by
  have blocks := mem_blocks_congr (profile_congr (bare_unlink table child record.parentId)) owner
  rw [setParent_eq unflagged found, mem_waitingFor_link, mem_blocks_modifyBlock, blocks,
    ← mem_waitingFor_unlink]
  exact Iff.rfl

/-- **Setting a parent keeps a table linked**, whatever the parent is. -/
theorem Linked.setParent (linked : table.Linked) (child : BlockId) (parent : Option BlockId) :
    (table.setParent child parent).Linked := by
  cases found : table.blocks[child]? with
  | none =>
      have same : table.setParent child parent = table := by
        unfold BlockTable.setParent
        rw [found]
      rwa [same]
  | some record =>
      have present : child ∈ table.blocks := mem_map_iff.mpr ⟨record, found⟩
      have blocks := mem_blocks_congr (profile_setParent table child parent)
      have named : table.parentOf child = record.parentId := parentOf_of_getElem? found
      have own : (table.setParent child parent).parentOf child = parent := by
        rw [parentOf_setParent, if_pos ⟨rfl, present⟩]
      have others : ∀ {other : BlockId}, other ≠ child →
          (table.setParent child parent).parentOf other = table.parentOf other := by
        intro other differs
        rw [parentOf_setParent, if_neg fun both => differs both.1.symm]
      refine ⟨linked.filed.of_profile (profile_setParent _ _ _), aligned_iff.mpr ?aligned, ?waits,
        ?awaited, ?unflagged⟩
      case aligned =>
        intro owner isOwner other
        rw [blocks] at isOwner
        rw [lists_setParent linked.unflagged found,
          aligned_iff.mp linked.aligned owner isOwner other]
        by_cases same : other = child
        · subst same
          rw [named, own]
          simp [isOwner]
        · simp [same, others same]
      case waits =>
        intro owner other
        rw [mem_waitingFor_setParent linked.unflagged found, linked.waits, blocks]
        by_cases same : other = child
        · subst same
          rw [named, own]
          tauto
        · simp [same, others same]
      case awaited =>
        have unlinked := awaited_unlink child record.parentId linked.awaited
        rw [setParent_eq linked.unflagged found]
        exact awaited_link unlinked
      case unflagged =>
        rw [setParent_eq linked.unflagged found, orphans_link, BlockTable.modifyBlock,
          orphans_unlink, linked.unflagged]

theorem Linked.foldl_setParent (linked : table.Linked) (parent : Option BlockId)
    (children : List BlockId) :
    (children.foldl (fun current child => current.setParent child parent) table).Linked := by
  induction children generalizing table with
  | nil => exact linked
  | cons first rest ih => exact ih (linked.setParent first parent)

/-- **Renewing the description of a block keeps a table linked.** -/
theorem Linked.refresh (linked : table.Linked) (existing renewed : BlockRecord) :
    (table.refresh existing renewed).Linked := by
  unfold BlockTable.refresh
  extract_lets described
  have renamed : described.Linked :=
    linked.modifyBlock (fun _ => rfl) (fun _ => rfl) fun _ => rfl
  split
  · exact renamed.setParent _ _
  · exact renamed

end Setting

/-! ## Flags apart -/

/-- The table with all flags taken off. -/
def flagless (table : BlockTable) : BlockTable := { table with orphans := ∅ }

section Flagless

variable (table : BlockTable) (child id : BlockId)

theorem flagless_modifyBlock (change : BlockRecord → BlockRecord) :
    (table.modifyBlock id change).flagless = table.flagless.modifyBlock id change := rfl

theorem flagless_link (named : Option BlockId) :
    (table.link child named).flagless = table.flagless.link child named := by
  cases named with
  | none => rfl
  | some parent =>
      rw [link, link, apply_ite flagless, apply_ite flagless]
      rfl

theorem flagless_unlink (named : Option BlockId) :
    (table.unlink child named).flagless = table.flagless.unlink child named := by
  cases named with
  | none => rfl
  | some parent =>
      rw [unlink, unlink, apply_ite flagless]
      rfl

theorem flagless_setParent (parent : Option BlockId) :
    (table.setParent child parent).flagless = table.flagless.setParent child parent := by
  cases found : table.blocks[child]? with
  | none =>
      have found' : table.flagless.blocks[child]? = none := found
      unfold setParent
      rw [found, found']
  | some record =>
      have found' : table.flagless.blocks[child]? = some record := found
      rw [setParent_eq rfl found', ← flagless_unlink, ← flagless_modifyBlock, ← flagless_link]
      unfold setParent
      rw [found]
      simp only [flagless_link]
      rfl

theorem flagless_adoptNamed (children : List BlockId) :
    (table.adoptNamed id children).flagless = table.flagless.adoptNamed id children := by
  induction children generalizing table with
  | nil => rfl
  | cons first rest ih =>
      have step : ∀ table : BlockTable, table.adoptNamed id (first :: rest) =
          (table.adoptNamed id [first]).adoptNamed id rest := fun _ => rfl
      rw [step, step, ih]
      refine congrArg (adoptNamed · id rest) ?_
      simp only [adoptNamed, List.foldl_cons, List.foldl_nil]
      rw [apply_ite flagless]
      rfl

/-- Setting one parent for several blocks, flags apart. -/
theorem flagless_foldl_setParent (parent : Option BlockId) (children : List BlockId) :
    (children.foldl (fun current child => current.setParent child parent) table).flagless =
      children.foldl (fun current child => current.setParent child parent) table.flagless := by
  induction children generalizing table with
  | nil => rfl
  | cons first rest ih => rw [List.foldl_cons, List.foldl_cons, ih, flagless_setParent]

/-- Attaching what waits, flags apart: the flagged blocks that ask get their parent as well. -/
theorem flagless_settleWaiting :
    (table.settleWaiting id).1.flagless =
      ((table.orphans.toList.filter fun entry => entry.2 == id).map Prod.fst).foldl
        (fun current orphan => current.setParent orphan (some id))
        (table.flagless.settleWaiting id).1 := by
  have nobody : (table.flagless.settleWaiting id).1 =
      ({ table.flagless with pending := table.pending.erase id } : BlockTable).adoptNamed id
        (table.waitingFor id).toList := by
    unfold settleWaiting
    simp only [(adoptNamed_frame _ _ _).1]
    rfl
  rw [nobody]
  unfold settleWaiting
  simp only [flagless_foldl_setParent, flagless_adoptNamed, (adoptNamed_frame _ _ _).1]
  rfl

/-- Adding a new block, flags apart. -/
theorem flagless_insert {record : BlockRecord} (notRoot : record.id ≠ BlockId.root)
    (fresh : record.id ∉ table.blocks) :
    (table.insert record).1.flagless =
      ((table.orphans.toList.filter fun entry => entry.2 == record.id).map Prod.fst).foldl
        (fun current orphan => current.setParent orphan (some record.id))
        (table.flagless.insert record).1 := by
  have fresh' : record.id ∉ table.flagless.blocks := fresh
  rw [insert_eq notRoot fresh, insert_eq notRoot fresh',
    flagless_settleWaiting, flagless_adoptNamed, flagless_link, (adoptNamed_frame _ _ _).1,
    orphans_link]
  rfl

end Flagless

/-! ## Reached tables -/

/-- Flags apart, the table is linked: parents, child sets and waiting children agree. -/
def Related (table : BlockTable) : Prop := table.flagless.Linked

/-- Whether a table is consistent does not depend on its flags. -/
theorem Consistent.flagless {table : BlockTable} (consistent : table.Consistent) :
    table.flagless.Consistent :=
  ⟨⟨consistent.filed.own, consistent.filed.noRoot⟩, consistent.hasParent,
    consistent.parentsExist, consistent.aligned, consistent.acyclic, consistent.settled⟩

namespace Related

variable {table : BlockTable}

theorem filed (related : table.Related) : table.Filed := ⟨related.1.own, related.1.noRoot⟩

theorem aligned (related : table.Related) : table.Aligned := related.2

/-- Whoever is waited for is missing. -/
theorem waits (related : table.Related) {parent : BlockId} (waited : parent ∈ table.pending) :
    parent ∉ table.blocks := by
  obtain ⟨child, member⟩ := Linked.awaited related parent waited
  exact ((Linked.waits related parent child).mp member).2.2

/-- When no parent is missing, nothing waits. -/
theorem pending_eq (related : table.Related) (parents : table.ParentsExist) : table.pending = ∅ :=
  have linked : table.flagless.Linked := related
  linked.pending_eq parents

theorem setParent (related : table.Related) (child : BlockId) (parent : Option BlockId) :
    (table.setParent child parent).Related := by
  rw [Related, flagless_setParent]
  exact Linked.setParent related child parent

/-- **Adding a block, or renewing its description, keeps the relations of a table in order.** -/
theorem insert (related : table.Related) (record : BlockRecord) :
    (table.insert record).1.Related := by
  by_cases isRoot : record.id = BlockId.root
  · have same : (table.insert record).1 = table := by
      rw [BlockTable.insert, if_pos (BlockId.isRoot_iff.mpr isRoot)]
    rwa [same]
  · by_cases fresh : record.id ∈ table.blocks
    · obtain ⟨existing, found⟩ := mem_map_iff.mp fresh
      have renewed : (table.insert record).1.flagless =
          table.flagless.refresh existing record := by
        rw [BlockTable.insert, if_neg (mt BlockId.isRoot_iff.mp isRoot), found]
        simp only [refresh, apply_ite flagless, flagless_setParent, flagless_modifyBlock]
      rw [Related, renewed]
      exact Linked.refresh related existing record
    · rw [Related, flagless_insert table isRoot fresh]
      exact (Linked.insert related isRoot fresh).foldl_setParent _ _

/-- **A repair leaves the relations of a table in order**, even if they were not. -/
theorem resolve (filed : table.Filed) : table.resolve.1.Related :=
  (settled_of_consistent (consistent_resolve filed).flagless rfl).linked

end Related

/-- The tables that come from the empty one by the operations on tables. -/
inductive Reached : BlockTable → Prop where
  | empty : Reached BlockTable.empty
  | insert {table : BlockTable} (record : BlockRecord) :
      Reached table → Reached (table.insert record).1
  | setParent {table : BlockTable} (child : BlockId) (parent : Option BlockId) :
      Reached table → Reached (table.setParent child parent)
  | repair {table : BlockTable} : Reached table → Reached table.resolve.1
  /-- The table is written as a text, and the text is read. -/
  | reload {table again : BlockTable} : Reached table →
      (Json.parse table.toJson.render).bind BlockTable.ofJson? = some again → Reached again

/-- **What is read from the text of a table is the table.** -/
theorem eq_of_reload {table again : BlockTable}
    (reads : (Json.parse table.toJson.render).bind BlockTable.ofJson? = some again) :
    again = table := by
  have parsed : Json.parse table.toJson.render = some table.toJson :=
    Json.parse_renderIn .compact table.canonical_toJson
  rw [parsed, Option.bind_some] at reads
  exact BlockTable.faithful table again reads

/-- **Parents, child sets and waiting children agree in every reached table.** -/
theorem Reached.related {table : BlockTable} (reached : table.Reached) : table.Related := by
  induction reached with
  | empty => exact linked_empty
  | insert record _ related => exact related.insert record
  | setParent child parent _ related => exact related.setParent child parent
  | repair _ related => exact .resolve related.filed
  | reload _ reads related => exact eq_of_reload reads ▸ related

end BlockTable

end LuaCoverage
