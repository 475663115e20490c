import LuaCoverage.Proofs.Block.Alignment

/-!
# The passes of a repair

A repair attaches what waits, brings the child sets in line, opens the circles, moves the blocks
without an existing parent under the main chunk, and brings the child sets in line again if it moved
anything. Each pass is described by the parents, the flags and the waiting children that it leaves,
and all of them together leave a table that is `Consistent`, whatever it was like before, as long as
its records are filed under their own numbers (`consistent_resolve`).

Only the blocks with the smallest numbers on their circles are cut loose (`Opened`): the blocks are
visited in ascending order, and once one block of a circle was moved the circle is gone.
-/

set_option autoImplicit false

namespace LuaCoverage

namespace BlockTable

open ParentChain

/-! ## Moving a block under the main chunk -/

/-- What a block that is moved under the main chunk is flagged with. -/
def askedFor (id : BlockId) : Option BlockId → BlockId
  | none => BlockId.root
  | some parent => if parent = id then BlockId.root else parent

section Hanging

variable (table : BlockTable) (id : BlockId) (wanted : Option BlockId)

theorem bare_hangUnderRoot (other : BlockId) :
    (table.hangUnderRoot id wanted).bare other =
      if id = other then (table.bare other).map (BlockRecord.under (some BlockId.root))
      else table.bare other :=
  bare_setParent table id (some BlockId.root) other

@[simp]
theorem profile_hangUnderRoot : (table.hangUnderRoot id wanted).profile = table.profile :=
  profile_setParent table id (some BlockId.root)

theorem parentOf_hangUnderRoot (other : BlockId) :
    (table.hangUnderRoot id wanted).parentOf other =
      if id = other ∧ other ∈ table.blocks then some BlockId.root else table.parentOf other :=
  parentOf_setParent table id (some BlockId.root) other

theorem orphans_hangUnderRoot (other : BlockId) :
    (table.hangUnderRoot id wanted).orphans[other]? =
      if id = other then some (askedFor id wanted) else table.orphans[other]? := by
  have asked : (table.hangUnderRoot id wanted).orphans =
      (table.setParent id (some BlockId.root)).orphans.insert id (askedFor id wanted) := by
    cases wanted <;> rfl
  simp only [asked, Std.ExtTreeMap.getElem?_insert, Std.LawfulEqCmp.compare_eq_iff_eq,
    orphans_setParent]
  by_cases same : id = other
  · rw [if_pos same, if_pos same]
  · rw [if_neg same, if_neg same, if_neg fun both => same both.1]

theorem mem_pending_hangUnderRoot {waitedFor : BlockId}
    (member : waitedFor ∈ (table.hangUnderRoot id wanted).pending) : waitedFor ∈ table.pending :=
  mem_pending_setParent (.inl rfl) member

end Hanging

/-! ## Opening circles -/

/-- Moves one block under the main chunk if it is on a circle. -/
def openCycleAt (table : BlockTable) (id : BlockId) : BlockTable :=
  if table.isCyclic id then table.hangUnderRoot id (table.parentOf id) else table

/-- The table that results from opening circles is a fold, and the count is zero only if no block
was moved. -/
theorem openCycles_eq (table : BlockTable) :
    table.openCycles.1 = table.blocks.keys.foldl openCycleAt table ∧
      (table.openCycles.2 = 0 → table.openCycles.1 = table) := by
  have folded : ∀ (ids : List BlockId) (progress : BlockTable × Nat),
      let final := ids.foldl (fun progress id =>
        if progress.1.isCyclic id then
          (progress.1.hangUnderRoot id (progress.1.parentOf id), progress.2 + 1)
        else progress) progress
      final.1 = ids.foldl openCycleAt progress.1 ∧ progress.2 ≤ final.2 ∧
        (final.2 = progress.2 → final.1 = progress.1) := by
    intro ids
    induction ids with
    | nil => exact fun _ => ⟨rfl, Nat.le_refl _, fun _ => rfl⟩
    | cons first rest ih =>
        intro progress
        simp only [List.foldl_cons]
        by_cases cyclic : progress.1.isCyclic first = true
        · rw [if_pos cyclic, openCycleAt, if_pos cyclic]
          obtain ⟨same, grows, -⟩ :=
            ih (progress.1.hangUnderRoot first (progress.1.parentOf first), progress.2 + 1)
          simp only at same grows
          exact ⟨same, by omega, fun none => absurd none (by omega)⟩
        · rw [if_neg cyclic, openCycleAt, if_neg cyclic]
          exact ih progress
  obtain ⟨same, -, unchanged⟩ := folded table.blocks.keys (table, 0)
  exact ⟨same, unchanged⟩

/-- A table that differs from another one by blocks that were cut loose: each of them had the
smallest number on its circle, is under the main chunk now and is flagged. -/
structure Opened (before after : BlockTable) : Prop where
  profile : after.profile = before.profile
  waits : ∀ waitedFor, waitedFor ∈ after.pending → waitedFor ∈ before.pending
  block : ∀ id, (after.bare id = before.bare id ∧ after.orphans[id]? = before.orphans[id]?) ∨
    (LeastOnCircle before.parentOf id ∧
      after.bare id = (before.bare id).map (BlockRecord.under (some BlockId.root)) ∧
      after.orphans[id]? = some (askedFor id (before.parentOf id)))

theorem Opened.refl (table : BlockTable) : Opened table table :=
  ⟨rfl, fun _ => id, fun _ => .inl ⟨rfl, rfl⟩⟩

theorem Opened.redirected {before after : BlockTable} (opened : Opened before after)
    (id : BlockId) :
    after.parentOf id = before.parentOf id ∨ after.parentOf id = some BlockId.root := by
  rcases opened.block id with ⟨same, -⟩ | ⟨⟨circle, -⟩, moved, -⟩
  · exact .inl (by rw [parentOf_eq_bind_bare, same, ← parentOf_eq_bind_bare])
  · right
    obtain ⟨parent, -, named, -⟩ := circle.exists_ancestor 1
    obtain ⟨record, stored⟩ :=
      Option.isSome_iff_exists.mp (mem_blocks_iff_bare.mp (mem_blocks_of_parentOf
        ((ancestor_one id).symm.trans named)))
    rw [parentOf_eq_bind_bare, moved, stored]
    rfl

/-- Cutting one more block loose: the visited blocks are on no circle any more, and all that have a
parent are visited or have a greater number. -/
theorem Opened.openCycleAt {before after : BlockTable} (noRoot : BlockId.root ∉ before.blocks)
    (opened : Opened before after) {visited : BlockId → Prop} {id : BlockId}
    (open_ : ∀ other, visited other → ¬ OnCircle after.parentOf other)
    (ahead : ∀ other ∈ before.blocks, visited other ∨ id ≤ other) :
    Opened before (after.openCycleAt id) ∧
      ∀ other, visited other ∨ other = id → ¬ OnCircle (after.openCycleAt id).parentOf other := by
  have noRootNow : BlockId.root ∉ after.blocks :=
    fun member => noRoot ((mem_blocks_congr opened.profile _).mp member)
  have top := parentOf_eq_none_of_not_mem noRootNow
  unfold BlockTable.openCycleAt
  by_cases cyclic : after.isCyclic id = true
  · rw [if_pos cyclic]
    have circle : OnCircle after.parentOf id := (isCyclic_iff noRootNow id).mp cyclic
    have member : id ∈ after.blocks := by
      obtain ⟨parent, -, named, -⟩ := circle.exists_ancestor 1
      exact mem_blocks_of_parentOf ((ancestor_one id).symm.trans named)
    have moved := parentOf_hangUnderRoot after id (after.parentOf id)
    have rootStays : (after.hangUnderRoot id (after.parentOf id)).parentOf BlockId.root = none := by
      rw [moved, if_neg, top]
      rintro ⟨-, inside⟩
      exact noRootNow inside
    -- a block that was cut loose before is under the main chunk, hence on no circle
    have untouched : after.bare id = before.bare id := by
      rcases opened.block id with ⟨same, -⟩ | ⟨-, hung, -⟩
      · exact same
      · refine absurd circle (not_onCircle_of_root top ?_)
        obtain ⟨record, stored⟩ := Option.isSome_iff_exists.mp (mem_blocks_iff_bare.mp member)
        rw [hung] at stored
        obtain ⟨old, -, rfl⟩ := Option.map_eq_some_iff.mp stored
        rw [parentOf_eq_bind_bare, hung, stored]
        rfl
    have sameParent : after.parentOf id = before.parentOf id := by
      rw [parentOf_eq_bind_bare, untouched, ← parentOf_eq_bind_bare]
    have least : LeastOnCircle before.parentOf id := by
      refine ⟨circle.of_redirected top opened.redirected, ?_⟩
      intro steps other reached
      rw [← circle.ancestor_redirected top opened.redirected] at reached
      have onIt : OnCircle after.parentOf other := circle.of_ancestor reached
      obtain ⟨parent, -, named, -⟩ := onIt.exists_ancestor 1
      have inside : other ∈ before.blocks := (mem_blocks_congr opened.profile _).mp
        (mem_blocks_of_parentOf ((ancestor_one other).symm.trans named))
      rcases ahead other inside with old | le
      · exact absurd onIt (open_ other old)
      · exact le
    refine ⟨⟨?_, ?_, ?_⟩, ?_⟩
    · rw [profile_hangUnderRoot, opened.profile]
    · exact fun waitedFor later =>
        opened.waits waitedFor (mem_pending_hangUnderRoot _ _ _ later)
    · intro other
      rw [bare_hangUnderRoot, orphans_hangUnderRoot]
      by_cases same : id = other
      · subst same
        rw [if_pos rfl, if_pos rfl, untouched, sameParent]
        exact .inr ⟨least, rfl, rfl⟩
      · rw [if_neg same, if_neg same]
        exact opened.block other
    · intro other old circle'
      have redirected : ∀ block, (after.hangUnderRoot id (after.parentOf id)).parentOf block =
          after.parentOf block ∨
          (after.hangUnderRoot id (after.parentOf id)).parentOf block = some BlockId.root := by
        intro block
        rw [moved]
        split
        · exact .inr rfl
        · exact .inl rfl
      rcases old with old | rfl
      · exact open_ other old (circle'.of_redirected rootStays redirected)
      · refine not_onCircle_of_root rootStays ?_ circle'
        rw [moved, if_pos ⟨rfl, member⟩]
  · rw [if_neg cyclic]
    refine ⟨opened, ?_⟩
    rintro other (old | rfl)
    · exact open_ other old
    · exact fun circle => cyclic ((isCyclic_iff noRootNow other).mpr circle)

/-- **Opening the circles leaves none, and cuts each at its smallest block.** -/
theorem opened_openCycles {table : BlockTable} (noRoot : BlockId.root ∉ table.blocks) :
    Opened table table.openCycles.1 ∧ ∀ id, ¬ OnCircle table.openCycles.1.parentOf id := by
  have folded : ∀ (rest : List BlockId) (visited : BlockId → Prop) (current : BlockTable),
      rest.Pairwise (fun first later => compare first later = .lt) →
      (∀ other ∈ table.blocks, visited other ∨ other ∈ rest) → Opened table current →
      (∀ other, visited other → ¬ OnCircle current.parentOf other) →
      Opened table (rest.foldl openCycleAt current) ∧
        ∀ other ∈ table.blocks, ¬ OnCircle (rest.foldl openCycleAt current).parentOf other := by
    intro rest
    induction rest with
    | nil =>
        intro visited current _ all opened open_
        refine ⟨opened, fun other member => open_ other ?_⟩
        rcases all other member with old | none
        · exact old
        · simp at none
    | cons first rest ih =>
        intro visited current ordered all opened open_
        obtain ⟨smallest, ordered⟩ := List.pairwise_cons.mp ordered
        have ahead : ∀ other ∈ table.blocks, visited other ∨ first ≤ other := by
          intro other member
          rcases all other member with old | later
          · exact .inl old
          · rcases List.mem_cons.mp later with rfl | later
            · exact .inr (Nat.le_refl _)
            · exact .inr (Nat.le_of_lt (Nat.compare_eq_lt.mp (smallest other later)))
        obtain ⟨opened, open_⟩ := opened.openCycleAt noRoot open_ ahead
        refine ih (fun other => visited other ∨ other = first) _ ordered ?_ opened open_
        intro other member
        rcases all other member with old | later
        · exact .inl (.inl old)
        · rcases List.mem_cons.mp later with rfl | later
          · exact .inl (.inr rfl)
          · exact .inr later
  have all : ∀ other ∈ table.blocks, False ∨ other ∈ table.blocks.keys :=
    fun other member => .inr (Std.ExtTreeMap.mem_keys.mpr member)
  obtain ⟨opened, open_⟩ := folded table.blocks.keys (fun _ => False) table
    Std.ExtTreeMap.ordered_keys all (Opened.refl table) fun _ none => none.elim
  rw [(openCycles_eq table).1]
  refine ⟨opened, fun id circle => open_ id ?_ circle⟩
  obtain ⟨parent, -, named, -⟩ := circle.exists_ancestor 1
  exact (mem_blocks_congr opened.profile _).mp
    (mem_blocks_of_parentOf ((ancestor_one id).symm.trans named))

/-! ## Missing parents -/

/-- Whether a block has a record that names no parent, or a missing one. -/
def LacksParent (table : BlockTable) (id : BlockId) : Prop :=
  id ∈ table.blocks ∧ ∀ parent, table.parentOf id = some parent →
    parent ≠ BlockId.root ∧ parent ∉ table.blocks

theorem lacksParent_iff {table : BlockTable} {id : BlockId} {record : BlockRecord}
    (found : table.blocks[id]? = some record) :
    table.lacksParent record = true ↔ table.LacksParent id := by
  have member : id ∈ table.blocks := mem_map_iff.mpr ⟨record, found⟩
  unfold lacksParent LacksParent
  rw [parentOf_of_getElem? found]
  cases record.parentId with
  | none => simp [member]
  | some parent =>
      have contained : table.blocks.contains parent = false ↔ parent ∉ table.blocks := by
        rw [← Bool.not_eq_true, Std.ExtTreeMap.contains_iff_mem]
      simp [member, BlockId.isRoot, contained]

/-- Moving several blocks under the main chunk, each flagged with what it asked for. -/
theorem foldl_hangUnderRoot (wanted : BlockId → Option BlockId) (records : List BlockRecord)
    (asks : ∀ record ∈ records, record.parentId = wanted record.id) (table : BlockTable) :
    let parked := records.foldl
      (fun current record => current.hangUnderRoot record.id record.parentId) table
    (∀ id, id ∈ records.map BlockRecord.id →
      parked.bare id = (table.bare id).map (BlockRecord.under (some BlockId.root)) ∧
        parked.orphans[id]? = some (askedFor id (wanted id))) ∧
    (∀ id, id ∉ records.map BlockRecord.id →
      parked.bare id = table.bare id ∧ parked.orphans[id]? = table.orphans[id]?) := by
  induction records generalizing table with
  | nil => exact ⟨fun _ none => absurd none List.not_mem_nil, fun _ _ => ⟨rfl, rfl⟩⟩
  | cons first rest ih =>
      obtain ⟨moved, kept⟩ := ih (fun record member => asks record (List.mem_cons_of_mem _ member))
        (table.hangUnderRoot first.id first.parentId)
      simp only [List.foldl_cons, List.map_cons, List.mem_cons]
      refine ⟨?_, ?_⟩
      · intro id member
        by_cases later : id ∈ rest.map BlockRecord.id
        · obtain ⟨bare, flag⟩ := moved id later
          rw [bare, bare_hangUnderRoot]
          refine ⟨?_, flag⟩
          split
          · rw [Option.map_map]
            rfl
          · rfl
        · obtain rfl : id = first.id := member.resolve_right later
          obtain ⟨bare, flag⟩ := kept first.id later
          rw [bare, flag, bare_hangUnderRoot, orphans_hangUnderRoot, if_pos rfl, if_pos rfl,
            asks first List.mem_cons_self]
          exact ⟨rfl, rfl⟩
      · intro id missing
        obtain ⟨notFirst, notLater⟩ := not_or.mp missing
        obtain ⟨bare, flag⟩ := kept id notLater
        have other : ¬ first.id = id := fun same => notFirst same.symm
        rw [bare, flag, bare_hangUnderRoot, orphans_hangUnderRoot, if_neg other, if_neg other]
        exact ⟨rfl, rfl⟩

/-- **Every block without an existing parent is moved under the main chunk and flagged with the
parent it named; the others stay, and nothing waits.** -/
theorem rehangOrphans_spec {table : BlockTable} (filed : table.Filed) :
    (∀ id, table.LacksParent id →
      table.rehangOrphans.1.bare id =
          (table.bare id).map (BlockRecord.under (some BlockId.root)) ∧
        table.rehangOrphans.1.orphans[id]? = some (askedFor id (table.parentOf id))) ∧
    (∀ id, ¬ table.LacksParent id →
      table.rehangOrphans.1.bare id = table.bare id ∧
        table.rehangOrphans.1.orphans[id]? = table.orphans[id]?) ∧
    table.rehangOrphans.1.pending = ∅ ∧
    (table.rehangOrphans.2 = 0 → table.rehangOrphans.1 = { table with pending := ∅ }) := by
  have ids : ∀ id, id ∈ (table.blocks.values.filter table.lacksParent).map BlockRecord.id ↔
      table.LacksParent id := by
    intro id
    rw [List.mem_map]
    constructor
    · rintro ⟨record, member, rfl⟩
      obtain ⟨value, lacks⟩ := List.mem_filter.mp member
      obtain ⟨key, found⟩ := mem_values_iff.mp value
      obtain rfl : record.id = key := filed.own key record found
      exact (lacksParent_iff found).mp lacks
    · rintro lacks
      obtain ⟨record, found⟩ := mem_map_iff.mp lacks.1
      exact ⟨record, List.mem_filter.mpr ⟨mem_values_iff.mpr ⟨id, found⟩,
        (lacksParent_iff found).mpr lacks⟩, filed.own id record found⟩
  have asks : ∀ record ∈ table.blocks.values.filter table.lacksParent,
      record.parentId = table.parentOf record.id := by
    intro record member
    obtain ⟨key, found⟩ := mem_values_iff.mp (List.mem_filter.mp member).1
    obtain rfl : record.id = key := filed.own key record found
    exact (parentOf_of_getElem? found).symm
  obtain ⟨moved, kept⟩ := foldl_hangUnderRoot table.parentOf _ asks table
  refine ⟨fun id lacks => moved id ((ids id).mpr lacks),
    fun id has => kept id fun member => has ((ids id).mp member), rfl, ?_⟩
  intro count
  have none : table.blocks.values.filter table.lacksParent = [] := List.length_eq_zero_iff.mp count
  unfold rehangOrphans
  rw [none]
  rfl

/-! ## The whole repair -/

@[simp]
theorem profile_attachWaiting (table : BlockTable) :
    table.attachWaiting.1.profile = table.profile := by
  unfold attachWaiting
  refine List.foldlRecOn
    (motive := fun progress : BlockTable × Nat => progress.1.profile = table.profile) _ _ rfl ?_
  intro progress kept parent _
  rw [profile_settleWaiting, kept]

/-- Nothing that waits is attached if it waits for missing blocks only. -/
theorem attachWaiting_of_missing {table : BlockTable}
    (waits : ∀ waitedFor ∈ table.pending, waitedFor ∉ table.blocks) :
    table.attachWaiting = (table, 0) := by
  have none : (table.pending.keys.filter fun parent => table.blocks.contains parent) = [] := by
    rw [List.filter_eq_nil_iff]
    intro parent key contained
    exact waits parent (Std.ExtTreeMap.mem_keys.mp key)
      (Std.ExtTreeMap.contains_iff_mem.mp contained)
  rw [attachWaiting, none]
  rfl

/-- What a repair leaves behind: a tree below the main chunk whose child sets are in line, where
nothing waits. -/
structure Consistent (table : BlockTable) : Prop where
  filed : table.Filed
  hasParent : ∀ id ∈ table.blocks, ∃ parent, table.parentOf id = some parent
  parentsExist : table.ParentsExist
  aligned : table.Aligned
  acyclic : ∀ id, ¬ OnCircle table.parentOf id
  settled : table.pending = ∅

/-- The table between the second and the third pass of a repair. -/
def repairSynced (table : BlockTable) : BlockTable := table.attachWaiting.1.alignChildren.1

/-- The table after the fourth pass of a repair. -/
def repairRooted (table : BlockTable) : BlockTable :=
  table.repairSynced.openCycles.1.rehangOrphans.1

theorem resolve_fst_cases (table : BlockTable) :
    table.resolve.1 = table.repairRooted.alignChildren.1 ∨
      table.repairSynced.openCycles.2 + table.repairSynced.openCycles.1.rehangOrphans.2 = 0 ∧
        table.resolve.1 = table.repairRooted := by
  unfold resolve
  simp only
  split
  · exact .inl rfl
  · rename_i none
    refine .inr ⟨?_, rfl⟩
    unfold repairSynced
    omega

theorem bare_resolve (table : BlockTable) :
    table.resolve.1.bare = table.repairRooted.bare := by
  rcases resolve_fst_cases table with again | ⟨-, same⟩
  · rw [again, bare_alignChildren]
  · rw [same]

theorem orphans_resolve (table : BlockTable) :
    table.resolve.1.orphans = table.repairRooted.orphans := by
  rcases resolve_fst_cases table with again | ⟨-, same⟩
  · rw [again, orphans_alignChildren]
  · rw [same]

theorem Filed.repairSynced {table : BlockTable} (filed : table.Filed) :
    table.repairSynced.Filed :=
  filed.of_profile (by
    rw [BlockTable.repairSynced, profile_congr (bare_alignChildren _), profile_attachWaiting])

theorem profile_openCycles (table : BlockTable) :
    table.openCycles.1.profile = table.profile := by
  rw [(openCycles_eq table).1]
  refine List.foldlRecOn
    (motive := fun current : BlockTable => current.profile = table.profile) _ _ rfl ?_
  intro current same id _
  rw [openCycleAt]
  split
  · rw [profile_hangUnderRoot, same]
  · exact same

theorem profile_rehangOrphans (table : BlockTable) :
    table.rehangOrphans.1.profile = table.profile := by
  refine List.foldlRecOn
    (motive := fun current : BlockTable => current.profile = table.profile) _ _ rfl ?_
  intro current same record _
  rw [profile_hangUnderRoot, same]

/-- A repair changes nothing but relations, whatever the table is like. -/
theorem profile_resolve (table : BlockTable) : table.resolve.1.profile = table.profile := by
  rw [profile_congr (bare_resolve table), repairRooted, profile_rehangOrphans, profile_openCycles,
    repairSynced, profile_congr (bare_alignChildren _), profile_attachWaiting]

/-- After the fourth pass every block has an existing parent and no chain runs in a circle. -/
theorem repairRooted_spec {table : BlockTable} (filed : table.Filed) :
    (∀ id ∈ table.repairRooted.blocks, ∃ parent, table.repairRooted.parentOf id = some parent) ∧
      table.repairRooted.ParentsExist ∧
      (∀ id, ¬ OnCircle table.repairRooted.parentOf id) ∧ table.repairRooted.pending = ∅ := by
  obtain ⟨opened, acyclic⟩ := opened_openCycles filed.repairSynced.noRoot
  have filedOpen := filed.repairSynced.of_profile opened.profile
  obtain ⟨moved, kept, settled, -⟩ := rehangOrphans_spec filedOpen
  have sameBlocks := mem_blocks_congr (profile_rehangOrphans table.repairSynced.openCycles.1)
  have hung : ∀ id, table.repairSynced.openCycles.1.LacksParent id →
      table.repairRooted.parentOf id = some BlockId.root := by
    intro id lacks
    obtain ⟨record, stored⟩ := Option.isSome_iff_exists.mp (mem_blocks_iff_bare.mp lacks.1)
    rw [repairRooted, parentOf_eq_bind_bare, (moved id lacks).1, stored]
    rfl
  have stays : ∀ id, ¬ table.repairSynced.openCycles.1.LacksParent id →
      table.repairRooted.parentOf id = table.repairSynced.openCycles.1.parentOf id := by
    intro id has
    rw [repairRooted, parentOf_eq_bind_bare, (kept id has).1, ← parentOf_eq_bind_bare]
  refine ⟨?_, ?_, ?_, settled⟩
  · intro id member
    by_cases lacks : table.repairSynced.openCycles.1.LacksParent id
    · exact ⟨_, hung id lacks⟩
    · rw [stays id lacks]
      by_contra none
      refine lacks ⟨(sameBlocks id).mp member, fun parent named => ?_⟩
      exact absurd ⟨parent, named⟩ none
  · intro id parent named
    by_cases lacks : table.repairSynced.openCycles.1.LacksParent id
    · exact .inl (Option.some.inj ((hung id lacks).symm.trans named)).symm
    · rw [stays id lacks] at named
      by_contra missing
      obtain ⟨notRoot, notThere⟩ := not_or.mp missing
      refine lacks ⟨mem_blocks_of_parentOf named, fun other named' => ?_⟩
      obtain rfl : parent = other := Option.some.inj (named.symm.trans named')
      exact ⟨notRoot, fun member => notThere ((sameBlocks parent).mpr member)⟩
  · intro id circle
    have top : table.repairRooted.parentOf BlockId.root = none :=
      parentOf_eq_none_of_not_mem fun member => filedOpen.noRoot ((sameBlocks _).mp member)
    refine acyclic id (circle.of_redirected top fun other => ?_)
    by_cases lacks : table.repairSynced.openCycles.1.LacksParent other
    · exact .inr (hung other lacks)
    · exact .inl (stays other lacks)

/-- **A repair makes a table consistent.** -/
theorem consistent_resolve {table : BlockTable} (filed : table.Filed) :
    table.resolve.1.Consistent := by
  obtain ⟨hasParent, parentsExist, acyclic, settled⟩ := repairRooted_spec filed
  have sameParents := parentOf_congr (bare_resolve table)
  have sameBlocks := mem_blocks_congr (profile_congr (bare_resolve table))
  refine ⟨filed.of_profile (profile_resolve table), ?_, ?_, ?_, ?_, ?_⟩
  · intro id member
    rw [sameParents]
    exact hasParent id ((sameBlocks id).mp member)
  · intro id parent named
    rw [sameParents] at named
    exact (parentsExist id parent named).imp_right (sameBlocks parent).mpr
  · rcases resolve_fst_cases table with again | ⟨nothing, same⟩
    · rw [again]
      exact aligned_alignChildren _
    · -- nothing was moved, so the child sets are those of the second pass
      have filedOpen : table.repairSynced.openCycles.1.Filed :=
        filed.repairSynced.of_profile (opened_openCycles filed.repairSynced.noRoot).1.profile
      have unmoved := (rehangOrphans_spec filedOpen).2.2.2 (by omega)
      have uncut := (openCycles_eq table.repairSynced).2 (by omega)
      rw [same, repairRooted, unmoved, uncut]
      exact aligned_alignChildren table.attachWaiting.1
  · rw [sameParents]
    exact acyclic
  · rcases resolve_fst_cases table with again | ⟨-, same⟩
    · rw [again]
      exact (awaitMissing_of_parentsExist parentsExist).trans settled
    · rw [same]
      exact settled

end BlockTable

end LuaCoverage
