import LuaCoverage.Block.Table

/-!
# What a hit on a line shows

A hit on a line shows that the innermost block around the line ran, but only where that block is not
in doubt. Running a line says nothing about a block, or about anything inside it, when the line
holds the header of a function, when it holds the condition that picks one arm of an `if`, or when
two arms share it of which at most one ran. Such a block is *undecidable* at the line.

A line index tabulates, for the lines and blocks of one file, which block owns each line, which
blocks are entered at which line, which blocks a statement opens, and which function starts where.
It is a function of the lines that can run, the blocks and the functions at the time it is made.
-/

set_option autoImplicit false

namespace LuaCoverage

/-- The look-ups that hits on one file need. -/
structure LineIndex where
  /-- For a line, the innermost block that a hit there shows to run. -/
  owner : LineMap BlockId := ∅
  /-- For a block, the first line it owns that can run. -/
  entry : BlockMap Nat := ∅
  /-- For a line, the blocks that a hit there enters. -/
  enteredAt : LineMap (List BlockId) := ∅
  /-- For a line, the blocks that a statement there opens, each after the block the statement runs
  in. -/
  opens : LineMap (List (BlockId × BlockId)) := ∅
  /-- The opened blocks whose header is on their first line that can run. -/
  headed : BlockSet := ∅
  /-- For a line, the first function that starts there. -/
  functionAt : LineMap Nat := ∅
  /-- For a line, the last block of a function that lies on that line alone. -/
  inlineFunction : LineMap BlockId := ∅
  deriving DecidableEq

namespace LineIndex

/-- The numbers of the lines that can run. -/
def runnable (lines : LineMap LineRecord) : List Nat :=
  (lines.toList.filter fun entry => entry.2.executable).map Prod.fst

/-- For each block, the first line it owns that can run. -/
def entries (runnableLines : List Nat) (blocks : List BlockRecord) : BlockMap Nat :=
  blocks.foldl
    (fun found block =>
      match runnableLines.find? block.mayOwnLine with
      | none => found
      | some line => found.insert block.id line)
    ∅

/-- The arms of `if` statements that contain a line. -/
def armsAt (blocks : List BlockRecord) (line : Nat) : List BlockId :=
  (blocks.filter fun block => block.branch.isSome && block.spansLine line).map BlockRecord.id

/-- Whether a line holds the condition that picks an arm: the first line of its parent that can
run. -/
def isPickedAt (entry : BlockMap Nat) (block : BlockRecord) (line : Nat) : Bool :=
  (block.parentId.bind fun parent => entry[parent]?) == some line

/-- Whether an arm shares a line with an arm that is neither around it nor inside it. -/
def sharesLine (table : BlockTable) (block : BlockRecord) (line : Nat) : Bool :=
  let around := table.ancestors block.id
  (armsAt table.blocks.values line).any fun other =>
    other != block.id && !around.contains other && !(table.ancestors other).contains block.id

/-- Whether a line says nothing about a block of its own accord. -/
def isDoubtful (table : BlockTable) (entry : BlockMap Nat) (block : BlockRecord) (line : Nat) :
    Bool :=
  (block.kind = .function && block.startLine == line)
    || (block.branch.isSome && (isPickedAt entry block line || sharesLine table block line))

/-- Whether a block, or one around it that still contains the line, is doubtful at the line. No
chain of parents without repetition has more blocks than the table. -/
def isUndecidableWithin (table : BlockTable) (entry : BlockMap Nat) (line : Nat) :
    Nat → Option BlockId → Bool
  | 0, _ => false
  | _ + 1, none => false
  | steps + 1, some id =>
      match table.blocks[id]? with
      | none => false
      | some block =>
          if block.spansLine line then
            isDoubtful table entry block line
              || isUndecidableWithin table entry line steps
                  (block.parentId.filter fun parent => !BlockId.isRoot parent)
          else false

/-- Whether running a line says nothing about whether a block runs. -/
def isUndecidable (table : BlockTable) (entry : BlockMap Nat) (id : BlockId) (line : Nat) : Bool :=
  isUndecidableWithin table entry line table.blocks.size (some id)

/-- A list-valued table with one more item under a key. -/
def addAt {α : Type} (table : LineMap (List α)) (line : Nat) (item : α) : LineMap (List α) :=
  table.alter line fun items => some (items.getD [] ++ [item])

/-- Adds what a block contributes at the first line it owns that can run. -/
def addBlock (table : BlockTable) (index : LineIndex) (block : BlockRecord) : LineIndex :=
  match index.entry[block.id]? with
  | none => index
  | some line =>
      let entered :=
        if isUndecidable table index.entry block.id line then index
        else { index with enteredAt := addAt index.enteredAt line block.id }
      if block.kind = .function then
        if block.startLine = block.endLine then
          { entered with inlineFunction := entered.inlineFunction.insert block.startLine block.id }
        else entered
      else if block.branch.isNone then
        { entered with
          opens := addAt entered.opens line (block.parentId.getD BlockId.root, block.id)
          headed :=
            if block.startLine = line then entered.headed.insert block.id else entered.headed }
      else entered

/-- Makes a block the owner of the lines where it is decidable. -/
def paint (table : BlockTable) (entry : BlockMap Nat) (runnableLines : List Nat)
    (owners : LineMap BlockId) (block : BlockRecord) : LineMap BlockId :=
  (runnableLines.filter fun line =>
    block.mayOwnLine line && !isUndecidable table entry block.id line).foldl
      (fun painted line => painted.insert line block.id) owners

/-- The owners of lines. Wider blocks are painted first, so the innermost one stays. -/
def owners (table : BlockTable) (entry : BlockMap Nat) (runnableLines : List Nat) :
    LineMap BlockId :=
  (table.blocks.values.mergeSort fun first second =>
    second.span < first.span || (first.span == second.span && first.id ≤ second.id)).foldl
      (paint table entry runnableLines) ∅

/-- The first function that starts on each line. -/
def functionStarts (functions : List FunctionRecord) : LineMap Nat :=
  functions.foldl (fun starts function => starts.insertIfNew function.startLine function.id) ∅

/-- The index of lines, blocks and functions. -/
def build (lines : LineMap LineRecord) (table : BlockTable)
    (functions : Std.ExtTreeMap Nat FunctionRecord) : LineIndex :=
  let runnableLines := runnable lines
  let blocks := table.blocks.values
  let start : LineIndex :=
    { entry := entries runnableLines blocks
      functionAt := functionStarts functions.values }
  let filled := blocks.foldl (addBlock table) start
  { filled with owner := owners table start.entry runnableLines }

/-- The blocks that a hit on a line enters. -/
def entered (index : LineIndex) (line : Nat) : List BlockId := (index.enteredAt[line]?).getD []

/-- The blocks that a statement on a line opens when it runs in a given block. -/
def opened (index : LineIndex) (block : BlockId) (line : Nat) : List BlockId :=
  (((index.opens[line]?).getD []).filter fun pair => pair.1 == block).map Prod.snd

end LineIndex

end LuaCoverage
