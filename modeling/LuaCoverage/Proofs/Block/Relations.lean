import LuaCoverage.Proofs.Block.ParentChain
import LuaCoverage.Proofs.OrderedMap

/-!
# What the operations of a block table change

Child sets follow from parents, so an operation is described by what it does to everything else: the
*bare* records, which are the records without their child sets, the flags, and the list of those who
wait. `link`, `unlink` and `adoptNamed` leave all bare records alone, and `setParent` changes one
parent. What a record says besides its parent and its children is its *profile*, which no operation
on existing blocks changes.

Each operation has one lemma on bare records and one on each other part that it changes; the repair
and the insertion are analysed through these lemmas only.
-/

set_option autoImplicit false

namespace LuaCoverage

namespace BlockRecord

/-- A record without its child set. -/
def bare (record : BlockRecord) : BlockRecord := { record with children := ∅ }

/-- What a record says besides its parent and its children. -/
def profile (record : BlockRecord) : BlockRecord := { record with parentId := none, children := ∅ }

/-- The record under another parent. -/
def under (parent : Option BlockId) (record : BlockRecord) : BlockRecord :=
  { record with parentId := parent }

@[simp]
theorem parentId_bare (record : BlockRecord) : record.bare.parentId = record.parentId := rfl

@[simp]
theorem profile_bare (record : BlockRecord) : record.bare.profile = record.profile := rfl

@[simp]
theorem under_under (first later : Option BlockId) (record : BlockRecord) :
    (record.under first).under later = record.under later := rfl

end BlockRecord

namespace BlockTable

/-- The record of a block without its child set. -/
def bare (table : BlockTable) (id : BlockId) : Option BlockRecord :=
  (table.blocks[id]?).map BlockRecord.bare

/-- What the record of a block says besides its relations. -/
def profile (table : BlockTable) (id : BlockId) : Option BlockRecord :=
  (table.blocks[id]?).map BlockRecord.profile

theorem parentOf_eq_bind_bare (table : BlockTable) (id : BlockId) :
    table.parentOf id = (table.bare id).bind BlockRecord.parentId := by
  unfold parentOf bare
  cases table.blocks[id]? <;> rfl

theorem profile_eq_map_bare (table : BlockTable) (id : BlockId) :
    table.profile id = (table.bare id).map BlockRecord.profile := by
  unfold profile bare
  cases table.blocks[id]? <;> rfl

theorem mem_blocks_iff_bare {table : BlockTable} {id : BlockId} :
    id ∈ table.blocks ↔ (table.bare id).isSome := by
  rw [bare, Option.isSome_map, Std.ExtTreeMap.mem_iff_isSome_getElem?]

theorem mem_blocks_iff_profile {table : BlockTable} {id : BlockId} :
    id ∈ table.blocks ↔ (table.profile id).isSome := by
  rw [profile, Option.isSome_map, Std.ExtTreeMap.mem_iff_isSome_getElem?]

theorem parentOf_congr {before after : BlockTable} (same : after.bare = before.bare) :
    after.parentOf = before.parentOf := by
  funext id
  rw [parentOf_eq_bind_bare, parentOf_eq_bind_bare, same]

theorem profile_congr {before after : BlockTable} (same : after.bare = before.bare) :
    after.profile = before.profile := by
  funext id
  rw [profile_eq_map_bare, profile_eq_map_bare, same]

/-- A bare record is a profile and a parent. -/
theorem bare_congr {first second : BlockTable} (profiles : first.profile = second.profile)
    (parents : first.parentOf = second.parentOf) : first.bare = second.bare := by
  funext id
  have sameProfile := congrFun profiles id
  have sameParent := congrFun parents id
  unfold profile at sameProfile
  unfold parentOf at sameParent
  unfold bare
  cases stored : first.blocks[id]? <;> cases stored' : second.blocks[id]? <;>
    rw [stored, stored'] at sameProfile sameParent
  · cases sameProfile
  · cases sameProfile
  · rename_i one two
    have described : one.profile = two.profile := Option.some.inj sameProfile
    have named : one.parentId = two.parentId := sameParent
    refine congrArg some ?_
    calc one.bare = one.profile.under one.parentId := rfl
      _ = two.profile.under two.parentId := by rw [described, named]
      _ = two.bare := rfl

theorem mem_blocks_congr {before after : BlockTable} (same : after.profile = before.profile)
    (id : BlockId) : id ∈ after.blocks ↔ id ∈ before.blocks := by
  rw [mem_blocks_iff_profile, mem_blocks_iff_profile, same]

/-! ## The basic changes -/

section Basic

variable (table : BlockTable) (child : BlockId) (parent : Option BlockId)

/-- A change of one record that concerns its child set only. -/
theorem bare_modifyBlock (id : BlockId) {change : BlockRecord → BlockRecord}
    (keeps : ∀ record, (change record).bare = record.bare) :
    (table.modifyBlock id change).bare = table.bare := by
  funext other
  simp only [bare, modifyBlock, Std.ExtTreeMap.getElem?_modify, Std.LawfulEqCmp.compare_eq_iff_eq]
  split
  · rename_i same
    subst same
    cases table.blocks[id]? with
    | none => rfl
    | some record => exact congrArg some (keeps record)
  · rfl

@[simp]
theorem bare_link : (table.link child parent).bare = table.bare := by
  unfold link
  split
  · rfl
  · split
    · rfl
    · split
      · exact bare_modifyBlock table _ fun _ => rfl
      · rfl

@[simp]
theorem bare_unlink : (table.unlink child parent).bare = table.bare := by
  unfold unlink
  split
  · rfl
  · split
    · rfl
    · exact bare_modifyBlock table _ fun _ => rfl

@[simp]
theorem orphans_link : (table.link child parent).orphans = table.orphans := by
  unfold link
  repeat' split
  all_goals rfl

@[simp]
theorem orphans_unlink : (table.unlink child parent).orphans = table.orphans := by
  unfold unlink
  repeat' split
  all_goals rfl

/-- Only a missing parent is waited for. -/
theorem mem_pending_link {waitedFor : BlockId} :
    waitedFor ∈ (table.link child parent).pending →
      waitedFor ∈ table.pending ∨ parent = some waitedFor ∧ waitedFor ∉ table.blocks := by
  unfold link
  split
  · exact .inl
  · rename_i named
    split
    · exact .inl
    · split
      · exact .inl
      · rename_i missing
        intro member
        simp only [await, Std.ExtTreeMap.mem_alter] at member
        by_cases same : named = waitedFor
        · subst same
          exact .inr ⟨rfl, by simpa using missing⟩
        · simp only [Std.LawfulEqCmp.compare_eq_iff_eq, if_neg same] at member
          exact .inl member

theorem mem_pending_unlink {waitedFor : BlockId} :
    waitedFor ∈ (table.unlink child parent).pending → waitedFor ∈ table.pending := by
  unfold unlink
  split
  · exact id
  · rename_i named
    split
    · exact id
    · intro member
      simp only [Std.ExtTreeMap.mem_alter, Std.LawfulEqCmp.compare_eq_iff_eq] at member
      split at member
      · rename_i same
        subst same
        cases waiting : table.pending[named]? with
        | none => simp [modifyBlock, waiting] at member
        | some set => exact mem_map_iff.mpr ⟨set, waiting⟩
      · exact member

end Basic

/-! ## Setting a parent -/

theorem bare_setParent (table : BlockTable) (child : BlockId) (parent : Option BlockId)
    (id : BlockId) :
    (table.setParent child parent).bare id =
      if child = id then (table.bare id).map (BlockRecord.under parent) else table.bare id := by
  unfold setParent
  split
  · rename_i missing
    split
    · rename_i same
      subst same
      simp [bare, missing]
    · rfl
  · rename_i record _
    rw [bare_link]
    have unlinked := congrFun (bare_unlink table child record.parentId) id
    unfold bare at unlinked ⊢
    simp only [modifyBlock, Std.ExtTreeMap.getElem?_modify, Std.LawfulEqCmp.compare_eq_iff_eq]
    split
    · rename_i same
      subst same
      rw [← unlinked, Option.map_map, Option.map_map]
      rfl
    · exact unlinked

theorem parentOf_setParent (table : BlockTable) (child : BlockId) (parent : Option BlockId)
    (id : BlockId) :
    (table.setParent child parent).parentOf id =
      if child = id ∧ id ∈ table.blocks then parent else table.parentOf id := by
  simp only [parentOf_eq_bind_bare, bare_setParent, mem_blocks_iff_bare]
  by_cases same : child = id
  · cases bareRecord : table.bare id <;> simp [same, BlockRecord.under]
  · simp [same]

@[simp]
theorem profile_setParent (table : BlockTable) (child : BlockId) (parent : Option BlockId) :
    (table.setParent child parent).profile = table.profile := by
  funext id
  rw [profile_eq_map_bare, bare_setParent, profile_eq_map_bare]
  split
  · rw [Option.map_map]
    rfl
  · rfl

theorem orphans_setParent (table : BlockTable) (child : BlockId) (parent : Option BlockId)
    (id : BlockId) :
    (table.setParent child parent).orphans[id]? =
      if child = id ∧ id ∈ table.blocks then none else table.orphans[id]? := by
  unfold setParent
  split
  · rename_i missing
    have absent : ¬ (child = id ∧ id ∈ table.blocks) := by
      rintro ⟨rfl, member⟩
      obtain ⟨record, found⟩ := mem_map_iff.mp member
      rw [missing] at found
      cases found
    rw [if_neg absent]
  · rename_i record found
    rw [orphans_link]
    simp only [modifyBlock, orphans_unlink, Std.ExtTreeMap.getElem?_erase,
      Std.LawfulEqCmp.compare_eq_iff_eq]
    by_cases same : child = id
    · subst same
      rw [if_pos rfl, if_pos ⟨rfl, mem_map_iff.mpr ⟨record, found⟩⟩]
    · rw [if_neg same, if_neg fun both => same both.1]

/-- A block that gets an existing parent, or the main chunk, does not wait for it. -/
theorem mem_pending_setParent {table : BlockTable} {child parent waitedFor : BlockId}
    (present : parent = BlockId.root ∨ parent ∈ table.blocks)
    (member : waitedFor ∈ (table.setParent child (some parent)).pending) :
    waitedFor ∈ table.pending := by
  unfold setParent at member
  split at member
  · exact member
  · rename_i record found
    rcases mem_pending_link _ _ _ member with old | ⟨same, missing⟩
    · exact mem_pending_unlink _ _ _ old
    · obtain rfl : parent = waitedFor := Option.some.inj same
      rcases present with rfl | present
      · -- linking to the main chunk leaves the list of those who wait alone
        simp only [link, BlockId.isRoot, beq_self_eq_true, if_true] at member
        exact mem_pending_unlink _ _ _ member
      · refine absurd ?_ missing
        have same : (table.unlink child record.parentId).profile = table.profile :=
          profile_congr (bare_unlink _ _ _)
        exact Std.ExtTreeMap.mem_modify.mpr ((mem_blocks_congr same parent).mpr present)

/-- Setting one parent for several blocks. -/
theorem bare_foldl_setParent (parent : Option BlockId) (children : List BlockId)
    (table : BlockTable) (id : BlockId) :
    (children.foldl (fun current child => current.setParent child parent) table).bare id =
      if id ∈ children then (table.bare id).map (BlockRecord.under parent) else table.bare id := by
  induction children generalizing table with
  | nil => simp
  | cons first rest ih =>
      rw [List.foldl_cons, ih, bare_setParent]
      by_cases here : first = id
      · subst here
        cases table.bare first <;> simp
      · have elsewhere : ¬ id = first := fun same => here same.symm
        simp [here, elsewhere]

theorem orphans_foldl_setParent (parent : Option BlockId) (children : List BlockId)
    (table : BlockTable) (id : BlockId) :
    (children.foldl (fun current child => current.setParent child parent) table).orphans[id]? =
      if id ∈ children ∧ id ∈ table.blocks then none else table.orphans[id]? := by
  induction children generalizing table with
  | nil => simp
  | cons first rest ih =>
      have same := mem_blocks_congr (profile_setParent table first parent) id
      simp only [List.foldl_cons, ih, orphans_setParent, same]
      by_cases here : first = id
      · subst here
        by_cases member : first ∈ table.blocks <;> simp [member]
      · have elsewhere : ¬ id = first := fun same => here same.symm
        simp [here, elsewhere]

/-! ## Attaching what waits -/

@[simp]
theorem bare_adoptNamed (table : BlockTable) (parent : BlockId) (children : List BlockId) :
    (table.adoptNamed parent children).bare = table.bare := by
  unfold adoptNamed
  induction children generalizing table with
  | nil => rfl
  | cons first rest ih =>
      rw [List.foldl_cons, ih]
      split
      · exact bare_modifyBlock table _ fun _ => rfl
      · rfl

/-- Adopting children changes nothing but the child set of their parent. -/
theorem adoptNamed_frame (table : BlockTable) (parent : BlockId) (children : List BlockId) :
    (table.adoptNamed parent children).orphans = table.orphans ∧
      (table.adoptNamed parent children).pending = table.pending := by
  unfold adoptNamed
  induction children generalizing table with
  | nil => exact ⟨rfl, rfl⟩
  | cons first rest ih =>
      rw [List.foldl_cons]
      split
      · exact ih _
      · exact ih _

/-- The flagged blocks that ask for a block. -/
theorem mem_asking_iff {table : BlockTable} {wanted id : BlockId} :
    id ∈ (table.orphans.toList.filter fun entry => entry.2 == wanted).map Prod.fst ↔
      table.orphans[id]? = some wanted := by
  rw [List.mem_map]
  constructor
  · rintro ⟨⟨key, value⟩, member, rfl⟩
    obtain ⟨entry, asks⟩ := List.mem_filter.mp member
    obtain rfl : value = wanted := by simpa using asks
    exact Std.ExtTreeMap.mem_toList_iff_getElem?_eq_some.mp entry
  · intro found
    exact ⟨(id, wanted), List.mem_filter.mpr
      ⟨Std.ExtTreeMap.mem_toList_iff_getElem?_eq_some.mpr found, by simp⟩, rfl⟩

/-- The flagged blocks that asked for a block are put under it. -/
theorem bare_settleWaiting (table : BlockTable) (wanted id : BlockId) :
    (table.settleWaiting wanted).1.bare id =
      if table.orphans[id]? = some wanted then
        (table.bare id).map (BlockRecord.under (some wanted))
      else table.bare id := by
  unfold settleWaiting
  simp only [bare_foldl_setParent, bare_adoptNamed, mem_asking_iff, (adoptNamed_frame _ _ _).1]
  rfl

theorem orphans_settleWaiting (table : BlockTable) (wanted id : BlockId) :
    (table.settleWaiting wanted).1.orphans[id]? =
      if table.orphans[id]? = some wanted ∧ id ∈ table.blocks then none
      else table.orphans[id]? := by
  unfold settleWaiting
  have same : ∀ (pending : BlockMap BlockSet) (children : List BlockId),
      (({ table with pending := pending } : BlockTable).adoptNamed wanted children).profile =
        table.profile := fun pending children =>
    profile_congr (bare_adoptNamed { table with pending := pending } wanted children)
  simp only [orphans_foldl_setParent, mem_blocks_congr (same _ _), mem_asking_iff,
    (adoptNamed_frame _ _ _).1]

@[simp]
theorem profile_settleWaiting (table : BlockTable) (wanted : BlockId) :
    (table.settleWaiting wanted).1.profile = table.profile := by
  funext id
  rw [profile_eq_map_bare, bare_settleWaiting, profile_eq_map_bare]
  split
  · rw [Option.map_map]
    rfl
  · rfl

/-- After a block was settled nothing waits that did not wait before, and nothing waits for it. -/
theorem mem_pending_settleWaiting {table : BlockTable} {wanted waitedFor : BlockId}
    (present : wanted ∈ table.blocks)
    (member : waitedFor ∈ (table.settleWaiting wanted).1.pending) :
    waitedFor ∈ table.pending ∧ waitedFor ≠ wanted := by
  unfold settleWaiting at member
  have folded : ∀ (children : List BlockId) (current : BlockTable), wanted ∈ current.blocks →
      waitedFor ∈ (children.foldl (fun current orphan => current.setParent orphan (some wanted))
        current).pending → waitedFor ∈ current.pending := by
    intro children
    induction children with
    | nil => exact fun _ _ => id
    | cons first rest ih =>
        intro current inside later
        have sameProfile := profile_setParent current first (some wanted)
        have still := (mem_blocks_congr sameProfile _).mpr inside
        exact mem_pending_setParent (.inr inside) (ih _ still later)
  have inside : ∀ (other : BlockTable) (children : List BlockId), wanted ∈ other.blocks →
      wanted ∈ (other.adoptNamed wanted children).blocks := by
    intro other children there
    have same := profile_congr (bare_adoptNamed other wanted children)
    exact (mem_blocks_congr same wanted).mpr there
  have before := folded _ _
    (inside { table with pending := table.pending.erase wanted } _ present) member
  rw [(adoptNamed_frame _ _ _).2] at before
  obtain ⟨different, old⟩ := Std.ExtTreeMap.mem_erase.mp before
  refine ⟨old, ?_⟩
  rintro rfl
  exact different (Std.LawfulEqCmp.compare_eq_iff_eq.mpr rfl)

end BlockTable

end LuaCoverage
