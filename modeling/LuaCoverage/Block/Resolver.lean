import LuaCoverage.Block.Table

/-!
# Repairing block tables

A table is consistent when every block sits in exactly one child set, that of the parent its record
names, and every chain of parents ends at the main chunk. Tables that come from a snapshot, or that
grew in an unlucky order, need not be. `resolve` repairs them in four passes: it attaches what waits
for blocks that exist, makes every child set say what the parents in the records say, cuts each
chain of parents that runs in a circle, and moves blocks without an existing parent under the main
chunk. The last two passes flag what they move and change parents, after which the child sets are
brought in line once more.

`inconsistencies` lists what a repair would have to touch, without touching it.
-/

set_option autoImplicit false

namespace LuaCoverage

/-- What one repair had to do. -/
structure RepairReport where
  /-- Entries of child sets that were added or removed. -/
  relationshipsFixed : Nat := 0
  /-- Waiting children that were attached to a parent. -/
  pendingResolved : Nat := 0
  /-- Blocks that were moved under the main chunk. -/
  orphansReattached : Nat := 0
  deriving DecidableEq, Repr

/-- The report on two repairs together. -/
def RepairReport.add (first second : RepairReport) : RepairReport :=
  ⟨first.relationshipsFixed + second.relationshipsFixed,
   first.pendingResolved + second.pendingResolved,
   first.orphansReattached + second.orphansReattached⟩

namespace BlockTable

/-! ## Waiting children -/

/-- Attaches everything that waits for a block that exists. -/
def attachWaiting (table : BlockTable) : BlockTable × Nat :=
  (table.pending.keys.filter fun parent => table.blocks.contains parent).foldl
    (fun progress parent =>
      let (attached, count) := progress.1.settleWaiting parent
      (attached, progress.2 + count))
    (table, 0)

/-! ## Child sets -/

/-- For each number, the blocks whose records name it as their parent. -/
def childrenByParent (table : BlockTable) : BlockMap BlockSet :=
  table.blocks.foldl
    (fun grouped id record =>
      match record.parentId with
      | none => grouped
      | some parent => grouped.alter parent fun group => some ((group.getD ∅).insert id))
    ∅

/-- The blocks whose records name a number as their parent. -/
def named (grouped : BlockMap BlockSet) (parent : BlockId) : BlockSet :=
  (grouped[parent]?).getD ∅

/-- The child set that a block should have. A record that is filed under the number of the main
chunk only loses entries, because the children of the main chunk are kept apart from it. -/
def settledChildren (grouped : BlockMap BlockSet) (id : BlockId) (children : BlockSet) : BlockSet :=
  if BlockId.isRoot id then children.filter fun child => (named grouped id).contains child
  else named grouped id

/-- In how many entries two sets differ. -/
def entriesChanged (before after : BlockSet) : Nat :=
  (before.filter fun child => !after.contains child).size
    + (after.filter fun child => !before.contains child).size

/-- The children that wait for a parent without a record, added to those that already wait. -/
def awaitMissing (table : BlockTable) (grouped : BlockMap BlockSet) : BlockMap BlockSet :=
  grouped.foldl
    (fun pending parent group =>
      if BlockId.isRoot parent || table.blocks.contains parent then pending
      else pending.alter parent fun waiting =>
        some (group.foldl (fun set child => set.insert child) (waiting.getD ∅)))
    table.pending

/-- Makes every child set list exactly the blocks whose records name its owner, and counts the
entries that changed. -/
def alignChildren (table : BlockTable) : BlockTable × Nat :=
  let grouped := table.childrenByParent
  let changedBlocks := table.blocks.toList.foldl
    (fun count entry =>
      count + entriesChanged entry.2.children (settledChildren grouped entry.1 entry.2.children))
    0
  let changedRoot := entriesChanged table.rootChildren (named grouped BlockId.root)
  ({ table with
      blocks := table.blocks.map fun id record =>
        { record with children := settledChildren grouped id record.children }
      rootChildren := named grouped BlockId.root
      pending := table.awaitMissing grouped },
    changedBlocks + changedRoot)

/-! ## Circles and missing parents -/

/-- Moves a block under the main chunk and flags it with the parent it asked for. A block that named
no parent, or itself, asked for the main chunk. -/
def hangUnderRoot (table : BlockTable) (id : BlockId) (wanted : Option BlockId) : BlockTable :=
  let moved := table.setParent id (some BlockId.root)
  let asked := match wanted with
    | none => BlockId.root
    | some parent => if parent = id then BlockId.root else parent
  { moved with orphans := moved.orphans.insert id asked }

/-- Whether a chain of parents comes back to a given block. -/
def comesBack (table : BlockTable) (id : BlockId) : Nat → Option BlockId → Bool
  | 0, _ => false
  | _ + 1, none => false
  | steps + 1, some parent =>
      if BlockId.isRoot parent then false
      else parent == id || table.comesBack id steps (table.parentOf parent)

/-- Whether the chain of parents of a block comes back to it. A circle is not longer than the
table. -/
def isCyclic (table : BlockTable) (id : BlockId) : Bool :=
  table.comesBack id (table.blocks.size + 2) (table.parentOf id)

/-- Moves a block under the main chunk for every circle, and counts them. -/
def openCycles (table : BlockTable) : BlockTable × Nat :=
  table.blocks.keys.foldl
    (fun progress id =>
      if progress.1.isCyclic id then
        (progress.1.hangUnderRoot id (progress.1.parentOf id), progress.2 + 1)
      else progress)
    (table, 0)

/-- Whether a record names no parent, or one without a record. -/
def lacksParent (table : BlockTable) (record : BlockRecord) : Bool :=
  match record.parentId with
  | none => true
  | some parent => !BlockId.isRoot parent && !table.blocks.contains parent

/-- Moves every block without an existing parent under the main chunk, and counts them. Nothing
waits afterwards. -/
def rehangOrphans (table : BlockTable) : BlockTable × Nat :=
  let unresolved := table.blocks.values.filter table.lacksParent
  let parked := unresolved.foldl
    (fun current record => current.hangUnderRoot record.id record.parentId) table
  ({ parked with pending := ∅ }, unresolved.length)

/-! ## The repair -/

/-- Repairs a table and reports what that took. A second repair has nothing to do. -/
def resolve (table : BlockTable) : BlockTable × RepairReport :=
  let (attached, pendingResolved) := table.attachWaiting
  let (synced, firstFixed) := attached.alignChildren
  let (acyclic, broken) := synced.openCycles
  let (rooted, reattached) := acyclic.rehangOrphans
  let moved := broken + reattached
  if 0 < moved then
    let (settled, secondFixed) := rooted.alignChildren
    (settled, ⟨firstFixed + secondFixed, pendingResolved, moved⟩)
  else (rooted, ⟨firstFixed, pendingResolved, moved⟩)

/-! ## What a repair would touch -/

/-- How often a number is listed in the child sets of a table, that of the main chunk included. -/
def listings (table : BlockTable) (id : BlockId) : Nat :=
  (if table.rootChildren.contains id then 1 else 0)
    + (table.blocks.values.filter fun record => record.children.contains id).length

/-- Whether the child set of the parent that a record names lists the record. -/
def parentLists (table : BlockTable) (record : BlockRecord) : Bool :=
  match record.parentId with
  | none => false
  | some parent => (table.childrenOf parent).any fun children => children.contains record.id

/-- Whether the chain of parents of a record ends at a block that still names another parent. -/
def chainIsOpen (table : BlockTable) (record : BlockRecord) : Bool :=
  record.parentId == some record.id
    || ((table.ancestors record.id).getLast?.bind table.parentOf).any
        fun parent => !BlockId.isRoot parent

/-- The blocks that a repair would have to touch, in the order of the table. -/
def inconsistencies (table : BlockTable) : List BlockId :=
  (table.blocks.values.filter fun record =>
    table.listings record.id != 1 || !table.parentLists record || table.chainIsOpen record).map
      BlockRecord.id

end BlockTable

end LuaCoverage
