import LuaCoverage.Block.Record

/-!
# Tables of blocks

The blocks of a file refer to their parents by number, and a block may be added before its parent.
It then *waits*: the table keeps the numbers of waiting children under the number of the missing
parent and attaches them in the moment the parent is added.

A block that a repair moved under the main chunk, because its parent was missing or because its
chain of parents ran in a circle, is *flagged* with the parent it asked for. When that parent is
added after all, the block goes back to it.

Each operation changes the table only through `link`, `unlink` and `modifyBlock`, so what an
operation does to the child sets can be read off from what these three do.
-/

set_option autoImplicit false

namespace LuaCoverage

/-- The blocks of one file and the relations between them. -/
structure BlockTable where
  blocks : BlockMap BlockRecord := ∅
  rootChildren : BlockSet := ∅
  /-- For each missing parent, the children that wait for it. -/
  pending : BlockMap BlockSet := ∅
  /-- For each flagged block, the parent it asked for. -/
  orphans : BlockMap BlockId := ∅
  deriving DecidableEq

namespace BlockTable

/-- The table without any block. -/
def empty : BlockTable := {}

/-! ## Looking up -/

/-- The parent that the record of a block names. -/
def parentOf (table : BlockTable) (id : BlockId) : Option BlockId :=
  (table.blocks[id]?).bind BlockRecord.parentId

/-- The children of a block, or of the main chunk. -/
def childrenOf (table : BlockTable) (id : BlockId) : Option BlockSet :=
  if BlockId.isRoot id then some table.rootChildren
  else (table.blocks[id]?).map BlockRecord.children

/-- How many children wait for a missing parent. -/
def pendingLength (table : BlockTable) : Nat :=
  table.pending.values.foldl (fun count waiting => count + waiting.size) 0

/-- The blocks that a repair moved under the main chunk. -/
def flagged (table : BlockTable) : List BlockId := table.orphans.keys

/-- The parents from a given one upwards, as far as they are neither the main chunk nor among those
already seen. -/
def climb (table : BlockTable) : Nat → List BlockId → Option BlockId → List BlockId
  | 0, _, _ => []
  | _ + 1, _, none => []
  | steps + 1, seen, some parent =>
      if BlockId.isRoot parent || seen.contains parent then []
      else parent :: table.climb steps (parent :: seen) (table.parentOf parent)

/-- The chain of parents of a block, nearest first, up to the main chunk or to the first repetition.
Every parent but the last has a record, so the chain is not longer than the table and one more. -/
def ancestors (table : BlockTable) (id : BlockId) : List BlockId :=
  table.climb (table.blocks.size + 1) [id] (table.parentOf id)

/-! ## Changing relations -/

/-- The table with the record of one block changed. -/
def modifyBlock (table : BlockTable) (id : BlockId) (change : BlockRecord → BlockRecord) :
    BlockTable :=
  { table with blocks := table.blocks.modify id change }

/-- The table in which a child waits for a missing parent. -/
def await (table : BlockTable) (child parent : BlockId) : BlockTable :=
  { table with
    pending := table.pending.alter parent fun waiting => some ((waiting.getD ∅).insert child) }

/-- The table with a child entered at its parent, or waiting for it. -/
def link (table : BlockTable) (child : BlockId) : Option BlockId → BlockTable
  | none => table
  | some parent =>
      if BlockId.isRoot parent then
        { table with rootChildren := table.rootChildren.insert child }
      else if table.blocks.contains parent then
        table.modifyBlock parent fun record =>
          { record with children := record.children.insert child }
      else table.await child parent

/-- The table with a child removed from its parent, and no longer waiting for it. -/
def unlink (table : BlockTable) (child : BlockId) : Option BlockId → BlockTable
  | none => table
  | some parent =>
      if BlockId.isRoot parent then
        { table with rootChildren := table.rootChildren.erase child }
      else
        let detached := table.modifyBlock parent fun record =>
          { record with children := record.children.erase child }
        { detached with
          pending := detached.pending.alter parent fun waiting => do
            let remaining := (← waiting).erase child
            if remaining.isEmpty then none else some remaining }

/-- The table in which an existing block has another parent; the block is no longer flagged. A block
that does not exist leaves the table as it is. -/
def setParent (table : BlockTable) (child : BlockId) (parent : Option BlockId) : BlockTable :=
  match table.blocks[child]? with
  | none => table
  | some record =>
      let detached := table.unlink child record.parentId
      let renamed := detached.modifyBlock child fun own => { own with parentId := parent }
      let unflagged := { renamed with orphans := renamed.orphans.erase child }
      unflagged.link child parent

/-! ## Adding blocks -/

/-- The table with those of the given blocks entered under a parent whose records name it. -/
def adoptNamed (table : BlockTable) (parent : BlockId) (children : List BlockId) : BlockTable :=
  children.foldl
    (fun current child =>
      if current.parentOf child = some parent then
        current.modifyBlock parent fun record =>
          { record with children := record.children.insert child }
      else current)
    table

/-- Attaches what waited for a block: first the children that wait for it, then the flagged blocks
that asked for it. The second component counts them. -/
def settleWaiting (table : BlockTable) (id : BlockId) : BlockTable × Nat :=
  let waiting := ((table.pending[id]?).getD ∅).toList
  let ready := waiting.filter fun child => table.parentOf child = some id
  let attached := { table with pending := table.pending.erase id }.adoptNamed id waiting
  let asking := (attached.orphans.toList.filter fun entry => entry.2 == id).map Prod.fst
  (asking.foldl (fun current orphan => current.setParent orphan (some id)) attached,
    ready.length + asking.length)

/-- The table with the description of an existing block renewed. Its hits and its children stay. -/
def refresh (table : BlockTable) (existing renewed : BlockRecord) : BlockTable :=
  let described := table.modifyBlock renewed.id fun record =>
    { record with
      kind := renewed.kind
      branch := renewed.branch
      startLine := renewed.startLine
      endLine := renewed.endLine }
  if renewed.parentId.isSome ∧ renewed.parentId ≠ existing.parentId then
    described.setParent renewed.id renewed.parentId
  else described

/-- Adds a block, or renews its description. The children that a new record claims count only as far
as the records of the children agree. The second component counts the children that waited. -/
def insert (table : BlockTable) (record : BlockRecord) : BlockTable × Nat :=
  if BlockId.isRoot record.id then (table, 0)
  else
    match table.blocks[record.id]? with
    | some existing => (table.refresh existing record, 0)
    | none =>
        let bare := { record with children := ∅ }
        let stored := { table with blocks := table.blocks.insert record.id bare }
        let linked := stored.link record.id record.parentId
        (linked.adoptNamed record.id record.children.toList).settleWaiting record.id

/-- The record of an execution in one block. -/
def enterBlock (table : BlockTable) (id : BlockId) : BlockTable :=
  table.modifyBlock id BlockRecord.enter

/-- The record of a sign that one block runs. -/
def witnessBlock (table : BlockTable) (id : BlockId) : BlockTable :=
  table.modifyBlock id BlockRecord.witness

end BlockTable

end LuaCoverage
