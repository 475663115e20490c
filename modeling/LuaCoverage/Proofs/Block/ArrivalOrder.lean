import LuaCoverage.Proofs.Block.Consistency

/-!
# Blocks in any order of arrival

A table is built from an empty one by adding blocks, with repairs in between at any time. An early
repair puts blocks whose parents have not arrived under the main chunk; a later arrival takes them
back, and may close a circle that the next repair has to cut. None of this is visible in the end:
once all blocks have arrived, one more repair yields a table that depends on the declared blocks
only (`resolve_build`).

The invariant is `Grown`: in between, every block either has its declared parent, or sits under the
main chunk, is flagged with what it declared, and has a reason to sit there. A reason is that no
parent has arrived, or that the block is the smallest of a declared circle. The second kind is never
lost, because what arrives later does not change a circle that is complete; the first kind is lost
exactly when the flag is answered.
-/

set_option autoImplicit false

namespace LuaCoverage

open ParentChain

/-! ## Declared blocks -/

/-- The declared block with a number. -/
def declaredBlock (known : List BlockRecord) (id : BlockId) : Option BlockRecord :=
  known.find? fun record => record.id == id

/-- The parent that the declared block with a number names. -/
def declaredParent (known : List BlockRecord) (id : BlockId) : Option BlockId :=
  (declaredBlock known id).bind BlockRecord.parentId

/-- Whether a number names no parent that is declared. -/
def Parentless (known : List BlockRecord) (id : BlockId) : Prop :=
  ∀ parent, declaredParent known id = some parent →
    parent ≠ BlockId.root ∧ declaredBlock known parent = none

/-- Whether a declared block ends up under the main chunk, whatever parent it names. -/
def Displaced (known : List BlockRecord) (id : BlockId) : Prop :=
  Parentless known id ∨ LeastOnCircle (declaredParent known) id

/-- No two declared blocks share a number, and none has that of the main chunk. -/
structure Declarable (known : List BlockRecord) : Prop where
  distinct : (known.map BlockRecord.id).Nodup
  noRoot : ∀ record ∈ known, record.id ≠ BlockId.root

section Declared

variable {known : List BlockRecord}

theorem declaredBlock_eq_some (declarable : Declarable known) {id : BlockId}
    {record : BlockRecord} :
    declaredBlock known id = some record ↔ record ∈ known ∧ record.id = id := by
  unfold declaredBlock
  constructor
  · intro found
    exact ⟨List.mem_of_find?_eq_some found, by simpa using List.find?_some found⟩
  · rintro ⟨member, rfl⟩
    obtain ⟨found, isFound⟩ : ∃ found, known.find? (fun other => other.id == record.id) =
        some found := Option.isSome_iff_exists.mp
          (List.find?_isSome.mpr ⟨record, member, by simp⟩)
    have sameId : found.id = record.id := by simpa using List.find?_some isFound
    rw [isFound, List.inj_on_of_nodup_map declarable.distinct
      (List.mem_of_find?_eq_some isFound) member sameId]

theorem declaredBlock_eq_none {id : BlockId} :
    declaredBlock known id = none ↔ ∀ record ∈ known, record.id ≠ id := by
  unfold declaredBlock
  simp [List.find?_eq_none]

theorem declaredBlock_root (declarable : Declarable known) :
    declaredBlock known BlockId.root = none :=
  declaredBlock_eq_none.mpr declarable.noRoot

/-- The declared blocks do not depend on the order in which they are listed. -/
theorem declaredBlock_perm {other : List BlockRecord} (declarable : Declarable known)
    (order : other.Perm known) : declaredBlock other = declaredBlock known := by
  have declarable' : Declarable other :=
    ⟨(order.map BlockRecord.id).nodup_iff.mpr declarable.distinct,
      fun record member => declarable.noRoot record (order.mem_iff.mp member)⟩
  funext id
  apply Option.ext
  intro record
  rw [declaredBlock_eq_some declarable, declaredBlock_eq_some declarable', order.mem_iff]

theorem declaredBlock_append {record : BlockRecord} {id : BlockId}
    (fresh : ∀ other ∈ known, other.id ≠ record.id) :
    declaredBlock (known ++ [record]) id =
      if record.id = id then some record else declaredBlock known id := by
  unfold declaredBlock
  rw [List.find?_append, List.find?_cons]
  by_cases same : record.id = id
  · have missing : known.find? (fun other => other.id == id) = none :=
      declaredBlock_eq_none.mpr (same ▸ fresh)
    simp [missing, same]
  · have differs : (record.id == id) = false := beq_eq_false_iff_ne.mpr same
    simp [differs, same]

/-- A further block leaves the parents of the others as they are. -/
theorem declaredParent_append {record : BlockRecord} {id : BlockId}
    (fresh : ∀ other ∈ known, other.id ≠ record.id) :
    declaredParent (known ++ [record]) id =
      if record.id = id then record.parentId else declaredParent known id := by
  unfold declaredParent
  rw [declaredBlock_append fresh]
  split <;> rfl

/-- A reason to sit under the main chunk that concerns what has arrived is not lost by a later
arrival, unless the missing parent arrives. -/
theorem Displaced.append {record : BlockRecord} {id : BlockId}
    (fresh : ∀ other ∈ known, other.id ≠ record.id) (differs : record.id ≠ id)
    (unanswered : declaredParent known id ≠ some record.id) (displaced : Displaced known id) :
    Displaced (known ++ [record]) id := by
  rcases displaced with missing | least
  · left
    intro parent named
    rw [declaredParent_append fresh, if_neg differs] at named
    obtain ⟨notRoot, absent⟩ := missing parent named
    refine ⟨notRoot, ?_⟩
    rw [declaredBlock_append fresh, if_neg, absent]
    rintro rfl
    exact unanswered named
  · right
    refine least.extended fun other parent named => ?_
    rw [declaredParent_append fresh, if_neg, named]
    rintro rfl
    have none : declaredBlock known record.id = none := declaredBlock_eq_none.mpr fresh
    simp [declaredParent, none] at named

end Declared

/-! ## Building a table -/

/-- One step of building a table. -/
inductive BuildStep where
  | add (record : BlockRecord)
  | repair

namespace BuildStep

/-- The table after one step. -/
def perform (table : BlockTable) : BuildStep → BlockTable
  | .add record => (table.insert record).1
  | .repair => table.resolve.1

/-- The block that a step adds. -/
def added : BuildStep → Option BlockRecord
  | .add record => some record
  | .repair => none

end BuildStep

/-- The table after a list of steps, from an empty one. -/
def build (steps : List BuildStep) : BlockTable :=
  steps.foldl BuildStep.perform BlockTable.empty

/-- The blocks that a list of steps adds. -/
def arrivals (steps : List BuildStep) : List BlockRecord := steps.filterMap BuildStep.added

namespace BlockTable

/-- What holds of a table that was built from declared blocks, repairs in between included. -/
structure Grown (known : List BlockRecord) (table : BlockTable) : Prop where
  profile : ∀ id, table.profile id = (declaredBlock known id).map BlockRecord.profile
  unflagged : ∀ id, declaredBlock known id = none → table.orphans[id]? = none
  block : ∀ id record, declaredBlock known id = some record →
    (table.orphans[id]? = none ∧ table.parentOf id = record.parentId) ∨
    (table.orphans[id]? = some (askedFor id record.parentId) ∧
      table.parentOf id = some BlockId.root ∧ Displaced known id)
  waits : ∀ waitedFor ∈ table.pending, waitedFor ∉ table.blocks

namespace Grown

variable {known : List BlockRecord} {table : BlockTable}

theorem mem_blocks_iff (grown : Grown known table) (id : BlockId) :
    id ∈ table.blocks ↔ (declaredBlock known id).isSome := by
  rw [mem_blocks_iff_profile, grown.profile, Option.isSome_map]

theorem filed (grown : Grown known table) (declarable : Declarable known) : table.Filed where
  own := by
    intro id record stored
    have profiles := grown.profile id
    rw [BlockTable.profile, stored] at profiles
    obtain ⟨declared, found, same⟩ := Option.map_eq_some_iff.mp profiles.symm
    have own := ((declaredBlock_eq_some declarable).mp found).2
    calc record.id = record.profile.id := rfl
      _ = declared.profile.id := by rw [same]
      _ = id := own
  noRoot := by
    rw [grown.mem_blocks_iff, declaredBlock_root declarable]
    exact Bool.false_ne_true

/-- Parents differ from the declared ones by being the main chunk. -/
theorem redirected (grown : Grown known table) (id : BlockId) :
    table.parentOf id = declaredParent known id ∨ table.parentOf id = some BlockId.root := by
  cases found : declaredBlock known id with
  | none =>
      left
      have missing : id ∉ table.blocks := by
        rw [grown.mem_blocks_iff, found]
        exact Bool.false_ne_true
      rw [parentOf_eq_none_of_not_mem missing, declaredParent, found]
      rfl
  | some record =>
      rcases grown.block id record found with ⟨-, same⟩ | ⟨-, hung, -⟩
      · left
        rw [same, declaredParent, found]
        rfl
      · exact .inr hung

end Grown

theorem grown_empty : Grown [] empty where
  profile := fun _ => rfl
  unflagged := fun _ _ => rfl
  block := fun _ _ none => nomatch none
  waits := fun _ member => absurd member Std.ExtTreeMap.not_mem_empty

/-! ## Adding a block -/

section Adding

variable {table : BlockTable} {record : BlockRecord}

/-- A new block is stored without children before its relations are entered. -/
def stored (table : BlockTable) (record : BlockRecord) : BlockTable :=
  { table with blocks := table.blocks.insert record.id { record with children := ∅ } }

theorem insert_eq (notRoot : record.id ≠ BlockId.root) (fresh : record.id ∉ table.blocks) :
    table.insert record =
      (((table.stored record).link record.id record.parentId).adoptNamed record.id
        record.children.toList).settleWaiting record.id := by
  have notChunk : BlockId.isRoot record.id = false := by simpa [BlockId.isRoot] using notRoot
  have missing : table.blocks[record.id]? = none := by
    cases found : table.blocks[record.id]? with
    | none => rfl
    | some old => exact absurd (mem_map_iff.mpr ⟨old, found⟩) fresh
  unfold insert
  rw [notChunk, missing]
  rfl

theorem bare_stored (id : BlockId) :
    (table.stored record).bare id =
      if record.id = id then some record.bare else table.bare id := by
  unfold stored bare
  simp only [Std.ExtTreeMap.getElem?_insert, Std.LawfulEqCmp.compare_eq_iff_eq]
  split <;> rfl

/-- The table just before a new block takes what waited for it. -/
theorem bare_linked (id : BlockId) :
    (((table.stored record).link record.id record.parentId).adoptNamed record.id
      record.children.toList).bare id =
        if record.id = id then some record.bare else table.bare id := by
  rw [bare_adoptNamed, bare_link, bare_stored]

/-- **A new block has its declared parent, and takes the flagged blocks that asked for it.** -/
theorem bare_insert (notRoot : record.id ≠ BlockId.root) (fresh : record.id ∉ table.blocks)
    (id : BlockId) :
    (table.insert record).1.bare id =
      let kept := if record.id = id then some record.bare else table.bare id
      if table.orphans[id]? = some record.id then
        kept.map (BlockRecord.under (some record.id))
      else kept := by
  rw [insert_eq notRoot fresh, bare_settleWaiting, bare_linked, (adoptNamed_frame _ _ _).1,
    orphans_link]
  rfl

theorem orphans_insert (notRoot : record.id ≠ BlockId.root) (fresh : record.id ∉ table.blocks)
    (id : BlockId) :
    (table.insert record).1.orphans[id]? =
      if table.orphans[id]? = some record.id ∧ (record.id = id ∨ id ∈ table.blocks) then none
      else table.orphans[id]? := by
  have present : id ∈ (((table.stored record).link record.id record.parentId).adoptNamed record.id
      record.children.toList).blocks ↔ record.id = id ∨ id ∈ table.blocks := by
    rw [mem_blocks_iff_bare, bare_linked, mem_blocks_iff_bare]
    by_cases same : record.id = id <;> simp [same]
  simp only [insert_eq notRoot fresh, orphans_settleWaiting, present, (adoptNamed_frame _ _ _).1,
    orphans_link]
  rfl

theorem parentOf_insert (notRoot : record.id ≠ BlockId.root) (fresh : record.id ∉ table.blocks)
    (noFlag : table.orphans[record.id]? = none) (id : BlockId) :
    (table.insert record).1.parentOf id =
      if record.id = id then record.parentId
      else if table.orphans[id]? = some record.id ∧ id ∈ table.blocks then some record.id
      else table.parentOf id := by
  simp only [parentOf_eq_bind_bare, bare_insert notRoot fresh, mem_blocks_iff_bare]
  by_cases same : record.id = id
  · subst same
    simp [noFlag]
  · by_cases asks : table.orphans[id]? = some record.id
    · cases bareRecord : table.bare id <;> simp [same, asks, BlockRecord.under]
    · simp [same, asks]

theorem profile_insert (notRoot : record.id ≠ BlockId.root) (fresh : record.id ∉ table.blocks)
    (noFlag : table.orphans[record.id]? = none) (id : BlockId) :
    (table.insert record).1.profile id =
      if record.id = id then some record.profile else table.profile id := by
  rw [profile_eq_map_bare, bare_insert notRoot fresh, profile_eq_map_bare]
  by_cases same : record.id = id
  · subst same
    simp [noFlag]
  · simp only [if_neg same]
    split
    · rw [Option.map_map]
      rfl
    · rfl

theorem mem_pending_insert (notRoot : record.id ≠ BlockId.root) (fresh : record.id ∉ table.blocks)
    {waitedFor : BlockId} (member : waitedFor ∈ (table.insert record).1.pending) :
    waitedFor ≠ record.id ∧ (waitedFor ∈ table.pending ∨ waitedFor ∉ table.blocks) := by
  rw [insert_eq notRoot fresh] at member
  have present : record.id ∈ (((table.stored record).link record.id record.parentId).adoptNamed
      record.id record.children.toList).blocks := by
    rw [mem_blocks_iff_bare, bare_linked, if_pos rfl]
    rfl
  obtain ⟨linked, different⟩ := mem_pending_settleWaiting present member
  rw [(adoptNamed_frame _ _ _).2] at linked
  refine ⟨different, ?_⟩
  rcases mem_pending_link _ _ _ linked with old | ⟨-, missing⟩
  · exact .inl old
  · refine .inr fun inside => missing ?_
    rw [mem_blocks_iff_bare, bare_stored, if_neg different.symm]
    exact mem_blocks_iff_bare.mp inside

end Adding

theorem askedFor_eq_iff {id wanted : BlockId} {parent : Option BlockId}
    (notRoot : wanted ≠ BlockId.root) :
    askedFor id parent = wanted ↔ parent = some wanted ∧ wanted ≠ id := by
  unfold askedFor
  cases parent with
  | none => simp [notRoot.symm]
  | some own =>
      by_cases same : own = id
      · subst same
        simp only [if_true, Option.some.injEq]
        constructor
        · exact fun isRoot => absurd isRoot.symm notRoot
        · rintro ⟨rfl, differs⟩
          exact absurd rfl differs
      · simp only [if_neg same, Option.some.injEq]
        constructor
        · rintro rfl
          exact ⟨rfl, same⟩
        · exact And.left

namespace Grown

variable {known : List BlockRecord} {table : BlockTable}

/-- **Adding a block keeps the invariant**: who asked for it goes back to it. -/
theorem add {record : BlockRecord} (declarable : Declarable (known ++ [record]))
    (grown : Grown known table) : Grown (known ++ [record]) (table.insert record).1 := by
  have notRoot : record.id ≠ BlockId.root := declarable.noRoot record (by simp)
  have fresh : ∀ other ∈ known, other.id ≠ record.id := by
    have apart := declarable.distinct
    rw [List.map_append, List.nodup_append] at apart
    exact fun other member => apart.2.2 _ (List.mem_map_of_mem member) _ (by simp)
  have unknown : declaredBlock known record.id = none := declaredBlock_eq_none.mpr fresh
  have absent : record.id ∉ table.blocks := by
    rw [grown.mem_blocks_iff, unknown]
    exact Bool.false_ne_true
  have noFlag : table.orphans[record.id]? = none := grown.unflagged record.id unknown
  have parents := parentOf_insert notRoot absent noFlag
  have sameProfile := profile_insert notRoot absent noFlag
  refine ⟨?_, ?_, ?_, ?_⟩
  · intro id
    rw [sameProfile, declaredBlock_append fresh, grown.profile]
    split <;> rfl
  · intro id missing
    rw [declaredBlock_append fresh] at missing
    split at missing
    · cases missing
    · rw [orphans_insert notRoot absent, grown.unflagged id missing, ite_self]
  · intro id declared found
    rw [orphans_insert notRoot absent, parents]
    rw [declaredBlock_append fresh] at found
    split at found
    · rename_i same
      subst same
      obtain rfl : record = declared := Option.some.inj found
      left
      rw [noFlag, ite_self, if_pos rfl]
      exact ⟨rfl, rfl⟩
    · rename_i differs
      have present : id ∈ table.blocks := by
        rw [grown.mem_blocks_iff, found]
        rfl
      have named : declaredParent known id = declared.parentId := by
        rw [declaredParent, found]
        rfl
      rw [if_neg differs]
      rcases grown.block id declared found with ⟨noFlag', same⟩ | ⟨flag, hung, displaced⟩
      · left
        rw [noFlag', ite_self, if_neg (fun asks => nomatch asks.1)]
        exact ⟨rfl, same⟩
      · simp only [flag, Option.some.injEq, askedFor_eq_iff notRoot]
        by_cases answered : declared.parentId = some record.id
        · left
          rw [if_pos ⟨⟨answered, differs⟩, .inr present⟩, if_pos ⟨⟨answered, differs⟩, present⟩]
          exact ⟨rfl, answered.symm⟩
        · right
          rw [if_neg fun asks => answered asks.1.1, if_neg fun asks => answered asks.1.1]
          exact ⟨rfl, hung, displaced.append fresh differs (named ▸ answered)⟩
  · intro waitedFor member inside
    obtain ⟨differs, before⟩ := mem_pending_insert notRoot absent member
    rw [mem_blocks_iff_profile, sameProfile, if_neg differs.symm, ← mem_blocks_iff_profile]
      at inside
    rcases before with waits | missing
    · exact grown.waits waitedFor waits inside
    · exact missing inside

/-- Nothing that waits can be attached, since it waits for missing blocks only. -/
theorem attachWaiting_eq (grown : Grown known table) : table.attachWaiting = (table, 0) :=
  attachWaiting_of_missing grown.waits

/-- **A repair keeps the invariant**: whom it moves has a reason to be moved. -/
theorem repair (declarable : Declarable known) (grown : Grown known table) :
    Grown known table.resolve.1 := by
  have filed := grown.filed declarable
  have consistent := consistent_resolve filed
  obtain ⟨opened, -⟩ := opened_openCycles filed.repairSynced.noRoot
  obtain ⟨moved, kept, -⟩ :=
    rehangOrphans_spec (filed.repairSynced.of_profile opened.profile)
  -- the first two passes change nothing but child sets
  have syncedBare : table.repairSynced.bare = table.bare := by
    rw [repairSynced, bare_alignChildren, grown.attachWaiting_eq]
  have syncedFlags : table.repairSynced.orphans = table.orphans := by
    rw [repairSynced, orphans_alignChildren, grown.attachWaiting_eq]
  have syncedParents := parentOf_congr syncedBare
  have sameBlocks := mem_blocks_congr (opened.profile.trans (profile_congr syncedBare))
  have top : table.parentOf BlockId.root = none := parentOf_eq_none_of_not_mem filed.noRoot
  generalize cutTable : table.repairSynced.openCycles.1 = cut at opened moved kept sameBlocks
  have finalParents : ∀ id, table.resolve.1.parentOf id = (cut.rehangOrphans.1).parentOf id := by
    intro id
    rw [parentOf_congr (bare_resolve table), repairRooted, cutTable]
  have finalFlags : table.resolve.1.orphans = (cut.rehangOrphans.1).orphans := by
    rw [orphans_resolve, repairRooted, cutTable]
  refine ⟨?_, ?_, ?_, ?_⟩
  · rw [profile_resolve]
    exact grown.profile
  · intro id missing
    have absent : id ∉ table.blocks := by
      rw [grown.mem_blocks_iff, missing]
      exact Bool.false_ne_true
    have stays : ¬ cut.LacksParent id := fun lacks => absent ((sameBlocks id).mp lacks.1)
    rw [finalFlags, (kept id stays).2]
    rcases opened.block id with ⟨-, same⟩ | ⟨⟨circle, -⟩, -, -⟩
    · rw [same, syncedFlags]
      exact grown.unflagged id missing
    · rw [syncedParents] at circle
      exact absurd circle (not_onCircle_of_no_parent (parentOf_eq_none_of_not_mem absent))
  · intro id record found
    have named : declaredParent known id = record.parentId := by
      rw [declaredParent, found]
      rfl
    have present : (table.bare id).isSome := by
      rw [← mem_blocks_iff_bare, grown.mem_blocks_iff, found]
      rfl
    obtain ⟨bareRecord, isBare⟩ := Option.isSome_iff_exists.mp present
    rw [finalFlags, finalParents]
    rcases opened.block id with ⟨same, sameFlag⟩ | ⟨least, hung, flag⟩
    · have sameParent : cut.parentOf id = table.parentOf id := by
        rw [parentOf_eq_bind_bare, same, syncedBare, ← parentOf_eq_bind_bare]
      by_cases lacks : cut.LacksParent id
      · -- a block without an existing parent is not under the main chunk, hence not flagged
        rcases grown.block id record found with ⟨-, declared⟩ | ⟨-, underRoot, -⟩
        · right
          obtain ⟨bare, newFlag⟩ := moved id lacks
          refine ⟨by rw [newFlag, sameParent, declared], ?_, .inl ?_⟩
          · rw [parentOf_eq_bind_bare, bare, same, syncedBare, isBare]
            rfl
          · intro parent isParent
            rw [named, ← declared, ← sameParent] at isParent
            obtain ⟨notRoot, missing⟩ := lacks.2 parent isParent
            rw [sameBlocks, grown.mem_blocks_iff, Option.not_isSome_iff_eq_none] at missing
            exact ⟨notRoot, missing⟩
        · exact absurd rfl (lacks.2 BlockId.root (sameParent.trans underRoot)).1
      · obtain ⟨bare, oldFlag⟩ := kept id lacks
        rw [oldFlag, sameFlag, syncedFlags, parentOf_eq_bind_bare, bare, ← parentOf_eq_bind_bare,
          sameParent]
        exact grown.block id record found
    · rw [syncedParents] at least flag
      rw [syncedBare, isBare] at hung
      have underRoot : cut.parentOf id = some BlockId.root := by
        rw [parentOf_eq_bind_bare, hung]
        rfl
      have stays : ¬ cut.LacksParent id := fun lacks => (lacks.2 BlockId.root underRoot).1 rfl
      obtain ⟨bare, oldFlag⟩ := kept id stays
      rcases grown.block id record found with ⟨-, declared⟩ | ⟨-, wasHung, -⟩
      · right
        refine ⟨by rw [oldFlag, flag, declared], ?_, .inr ?_⟩
        · rw [parentOf_eq_bind_bare, bare, ← parentOf_eq_bind_bare, underRoot]
        · exact least.of_redirected top grown.redirected
      · exact absurd least.1 (not_onCircle_of_root top wasHung)
  · intro waitedFor member
    rw [consistent.settled] at member
    exact absurd member Std.ExtTreeMap.not_mem_empty

/-- **After a repair every block with a reason to sit under the main chunk sits there.** A circle of
declared parents must have been cut somewhere, and it can only have been cut at its smallest
block. -/
theorem flagged_of_displaced (grown : Grown known table) (consistent : table.Consistent)
    {id : BlockId} {record : BlockRecord} (found : declaredBlock known id = some record)
    (displaced : Displaced known id) :
    table.orphans[id]? = some (askedFor id record.parentId) ∧
      table.parentOf id = some BlockId.root := by
  have named : declaredParent known id = record.parentId := by
    rw [declaredParent, found]
    rfl
  rcases grown.block id record found with ⟨noFlag, declared⟩ | ⟨flag, hung, -⟩
  · exfalso
    rcases displaced with missing | least
    · have present : id ∈ table.blocks := by
        rw [grown.mem_blocks_iff, found]
        rfl
      obtain ⟨parent, isParent⟩ := consistent.hasParent id present
      obtain ⟨notRoot, absent⟩ := missing parent (by rw [named, ← declared, isParent])
      rcases consistent.parentsExist id parent isParent with isRoot | exists_
      · exact notRoot isRoot
      · rw [grown.mem_blocks_iff, absent] at exists_
        exact Bool.false_ne_true exists_
    · obtain ⟨steps, other, reached, cut⟩ : ∃ steps other,
          ancestor (declaredParent known) steps id = some other ∧
            table.parentOf other ≠ declaredParent known other := by
        by_contra uncut
        obtain ⟨round, back⟩ := least.1
        refine consistent.acyclic id ⟨round, ?_⟩
        rw [ancestor_congr (fun steps other reached => ?_) (round + 1), back]
        by_contra differs
        exact uncut ⟨steps, other, reached, differs⟩
      have onIt := least.1.of_ancestor reached
      obtain ⟨above, -, isAbove, -⟩ := onIt.exists_ancestor 1
      rw [ancestor_one] at isAbove
      obtain ⟨otherRecord, otherFound, otherNamed⟩ := Option.bind_eq_some_iff.mp isAbove
      rcases grown.block other otherRecord otherFound with
        ⟨-, same⟩ | ⟨flag, -, parentless | least'⟩
      · exact cut (by rw [same, declaredParent, otherFound]; rfl)
      · obtain ⟨-, absent⟩ := parentless above isAbove
        obtain ⟨next, -, isNext, -⟩ := onIt.exists_ancestor 2
        obtain ⟨passed, isPassed, later⟩ := ancestor_succ_eq_some.mp isNext
        obtain rfl : above = passed := Option.some.inj (isAbove.symm.trans isPassed)
        simp [declaredParent, absent] at later
      · obtain rfl := least.eq_of_ancestor least' reached
        rw [noFlag] at flag
        cases flag
  · exact ⟨flag, hung⟩

end Grown

/-- **Whatever the order and wherever repairs stand, building keeps the invariant.** -/
theorem grown_build (steps : List BuildStep) (declarable : Declarable (arrivals steps)) :
    Grown (arrivals steps) (build steps) := by
  induction steps using List.reverseRecOn with
  | nil => exact grown_empty
  | append_singleton steps last ih =>
      have built : build (steps ++ [last]) = last.perform (build steps) := List.foldl_append
      cases last with
      | add record =>
          have more : arrivals (steps ++ [.add record]) = arrivals steps ++ [record] :=
            List.filterMap_append
          rw [more] at declarable ⊢
          have earlier : Declarable (arrivals steps) :=
            ⟨by
              have distinct := declarable.distinct
              rw [List.map_append] at distinct
              exact distinct.of_append_left,
             fun other member => declarable.noRoot other (List.mem_append_left _ member)⟩
          rw [built]
          exact (ih earlier).add declarable
      | repair =>
          have same : arrivals (steps ++ [.repair]) = arrivals steps := by
            simp [arrivals, BuildStep.added]
          rw [same] at declarable ⊢
          rw [built]
          exact (ih declarable).repair declarable

/-- What one more repair makes of a table that was built from declared blocks. -/
theorem Grown.resolve_block {known : List BlockRecord} {table : BlockTable}
    (declarable : Declarable known) (grown : Grown known table) {record : BlockRecord}
    (member : record ∈ known) :
    table.resolve.1.profile record.id = some record.profile ∧
      (Displaced known record.id ∧ table.resolve.1.parentOf record.id = some BlockId.root ∧
          table.resolve.1.orphans[record.id]? = some (askedFor record.id record.parentId) ∨
        ¬ Displaced known record.id ∧ table.resolve.1.parentOf record.id = record.parentId ∧
          table.resolve.1.orphans[record.id]? = none) := by
  have final := grown.repair declarable
  have found : declaredBlock known record.id = some record :=
    (declaredBlock_eq_some declarable).mpr ⟨member, rfl⟩
  refine ⟨by rw [final.profile, found]; rfl, ?_⟩
  by_cases displaced : Displaced known record.id
  · obtain ⟨flag, hung⟩ := final.flagged_of_displaced
      (consistent_resolve (grown.filed declarable)) found displaced
    exact .inl ⟨displaced, hung, flag⟩
  · rcases final.block record.id record found with ⟨noFlag, declared⟩ | ⟨-, -, reason⟩
    · exact .inr ⟨displaced, declared, noFlag⟩
    · exact absurd reason displaced

/-- Two tables that were built from the same blocks are repaired to the same table. -/
theorem Grown.resolve_eq {known : List BlockRecord} {first second : BlockTable}
    (declarable : Declarable known) (grown : Grown known first) (grown' : Grown known second) :
    first.resolve.1 = second.resolve.1 := by
  have final := grown.repair declarable
  have final' := grown'.repair declarable
  have consistent := consistent_resolve (grown.filed declarable)
  have consistent' := consistent_resolve (grown'.filed declarable)
  have profiles : first.resolve.1.profile = second.resolve.1.profile :=
    funext fun id => (final.profile id).trans (final'.profile id).symm
  have relations : ∀ id, first.resolve.1.parentOf id = second.resolve.1.parentOf id ∧
      first.resolve.1.orphans[id]? = second.resolve.1.orphans[id]? := by
    intro id
    cases found : declaredBlock known id with
    | none =>
        have absent := mt (final.mem_blocks_iff id).mp (by rw [found]; exact Bool.false_ne_true)
        have absent' := mt (final'.mem_blocks_iff id).mp (by rw [found]; exact Bool.false_ne_true)
        rw [parentOf_eq_none_of_not_mem absent, parentOf_eq_none_of_not_mem absent',
          final.unflagged id found, final'.unflagged id found]
        exact ⟨rfl, rfl⟩
    | some record =>
        obtain ⟨member, rfl⟩ := (declaredBlock_eq_some declarable).mp found
        obtain ⟨-, one⟩ := grown.resolve_block declarable member
        obtain ⟨-, two⟩ := grown'.resolve_block declarable member
        rcases one with ⟨displaced, parent, flag⟩ | ⟨placed, parent, flag⟩ <;>
          rcases two with ⟨displaced', parent', flag'⟩ | ⟨placed', parent', flag'⟩
        · rw [parent, parent', flag, flag']
          exact ⟨rfl, rfl⟩
        · exact absurd displaced placed'
        · exact absurd displaced' placed
        · rw [parent, parent', flag, flag']
          exact ⟨rfl, rfl⟩
  refine eq_of_aligned consistent.filed consistent.aligned consistent'.aligned ?_ ?_ ?_
  · exact bare_congr profiles (funext fun id => (relations id).1)
  · rw [consistent.settled, consistent'.settled]
  · exact Std.ExtTreeMap.ext_getElem? fun id => (relations id).2

theorem Grown.congr {known other : List BlockRecord} {table : BlockTable}
    (same : declaredBlock other = declaredBlock known) (grown : Grown other table) :
    Grown known table := by
  have sameParents : declaredParent other = declaredParent known := by
    funext id
    rw [declaredParent, declaredParent, same]
  obtain ⟨profile, unflagged, block, waits⟩ := grown
  simp only [Displaced, Parentless, same, sameParents] at profile unflagged block
  exact ⟨profile, unflagged, block, waits⟩

/-- **The order in which blocks arrive does not matter, nor does when repairs happen in between.**
After all blocks have arrived and one more repair, every block has its declared parent, except those
that name no parent or one that never arrived and those that are the smallest of a declared circle.
These sit under the main chunk, and exactly these are flagged, each with the parent it declared: the
main chunk if it declared none or itself. Nothing waits, and every other history of the same blocks
ends with the same table. -/
theorem resolve_build (records : List BlockRecord) (declarable : Declarable records)
    (steps : List BuildStep) (order : (arrivals steps).Perm records) :
    let final := (build steps).resolve.1
    (∀ record ∈ records, final.profile record.id = some record.profile ∧
      (Displaced records record.id ∧ final.parentOf record.id = some BlockId.root ∧
          final.orphans[record.id]? = some (askedFor record.id record.parentId) ∨
        ¬ Displaced records record.id ∧ final.parentOf record.id = record.parentId ∧
          final.orphans[record.id]? = none)) ∧
    (∀ id, (∀ record ∈ records, record.id ≠ id) →
      id ∉ final.blocks ∧ final.orphans[id]? = none) ∧
    final.pending = ∅ ∧ final.Aligned ∧
    ∀ other : List BuildStep, (arrivals other).Perm records → (build other).resolve.1 = final := by
  have grownOf : ∀ script : List BuildStep, (arrivals script).Perm records →
      Grown records (build script) := by
    intro script order
    have scripted : Declarable (arrivals script) :=
      ⟨(order.map BlockRecord.id).nodup_iff.mpr declarable.distinct,
        fun record member => declarable.noRoot record (order.mem_iff.mp member)⟩
    exact (grown_build script scripted).congr (declaredBlock_perm declarable order)
  have grown := grownOf steps order
  have final := grown.repair declarable
  have consistent := consistent_resolve (grown.filed declarable)
  refine ⟨fun record member => grown.resolve_block declarable member, ?_, consistent.settled,
    consistent.aligned, fun other order => (grownOf other order).resolve_eq declarable grown⟩
  intro id missing
  have undeclared : declaredBlock records id = none := declaredBlock_eq_none.mpr missing
  refine ⟨?_, final.unflagged id undeclared⟩
  rw [final.mem_blocks_iff, undeclared]
  exact Bool.false_ne_true

/-- Blocks with a circle of two, a missing parent, no parent, and a block under itself. -/
def scattered : List BlockRecord :=
  let block (id : BlockId) (parent : Option BlockId) : BlockRecord :=
    ⟨id, .doBlock, none, id, id + 1, parent, ∅, false, 0⟩
  [block 1 (some 3), block 2 none, block 3 (some 1), block 4 (some 9), block 5 (some 5),
    block 6 (some 4)]

/-- The scattered blocks added from the last to the first, with a repair after each. -/
def interrupted : List BuildStep :=
  scattered.reverse.flatMap fun record => [.add record, .repair]

/-- Adding the scattered blocks backwards with repairs in between ends as adding them in order. -/
theorem resolve_build_scattered :
    Declarable scattered ∧ (arrivals interrupted).Perm scattered ∧
      (build interrupted).resolve.1.orphans.toList = [(1, 3), (2, 0), (4, 9), (5, 0)] ∧
      (build (scattered.map .add)).resolve.1 = (build interrupted).resolve.1 := by
  have declarable : Declarable scattered := ⟨by decide +kernel, by decide +kernel⟩
  have order : (arrivals interrupted).Perm scattered := by decide +kernel
  obtain ⟨-, -, -, -, unique⟩ := resolve_build scattered declarable interrupted order
  exact ⟨declarable, order, by decide +kernel, unique _ (by decide +kernel)⟩

end BlockTable

end LuaCoverage
