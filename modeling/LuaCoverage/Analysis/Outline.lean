import LuaCoverage.Block.Record
import LuaCoverage.Syntax.Tree

/-!
# Outlines

The outline of a source lists what its syntax tree says about control flow: the blocks with their
parents, the functions, where statements start, the conditions that are evaluated apart from any
statement start, where function bodies start, and the modules that are required by a literal name.

A walk over the tree hands out the numbers of blocks and functions in the order in which it reaches
them. A block is listed when it is left, so its inner blocks are listed before it. An `if` statement
is a block with its first arm as a child; each `elseif` hangs off the conditional before it and has
an arm of its own; `else` hangs off the last conditional.
-/

set_option autoImplicit false

namespace LuaCoverage

/-- Where a statement starts, and the innermost block it runs in. -/
structure Statement where
  line : Nat
  endLine : Nat
  byte : Nat
  block : BlockId
  deriving DecidableEq, Repr

/-- A condition that is evaluated apart from any statement start, and the block that its evaluation
enters. -/
structure Condition where
  line : Nat
  endLine : Nat
  startByte : Nat
  endByte : Nat
  block : BlockId
  deriving DecidableEq, Repr

/-- The place after a function's parameter list, and the line that the function starts on. -/
structure FunctionBody where
  line : Nat
  byte : Nat
  deriving DecidableEq, Repr

/-- What a syntax tree says about control flow. -/
structure Outline where
  blocks : List BlockRecord := []
  functions : List FunctionRecord := []
  statements : List Statement := []
  conditions : List Condition := []
  bodies : List FunctionBody := []
  requires : List String := []

namespace Outline

open Syntax

/-- One outline after another. -/
def append (first later : Outline) : Outline :=
  ⟨first.blocks ++ later.blocks, first.functions ++ later.functions,
   first.statements ++ later.statements, first.conditions ++ later.conditions,
   first.bodies ++ later.bodies, first.requires ++ later.requires⟩

/-- The numbers that a walk hands out next. -/
structure Counters where
  nextBlock : Nat
  nextFunction : Nat
  deriving DecidableEq, Repr

/-- Part of a walk over a tree: takes the numbers that come next, and returns what it found and the
numbers that come next after it. -/
abbrev Walk := Counters → Outline × Counters

namespace Walk

/-- Finds nothing. -/
def nothing : Walk := fun counters => ({}, counters)

/-- Finds something without walking on. -/
def found (outline : Outline) : Walk := fun counters => (outline, counters)

/-- One walk and then another. -/
def andThen (first later : Walk) : Walk := fun counters =>
  let (before, between) := first counters
  let (after, final) := later between
  (before.append after, final)

/-- Takes the number of a new block. -/
def withBlock (walk : BlockId → Walk) : Walk := fun counters =>
  walk counters.nextBlock { counters with nextBlock := counters.nextBlock + 1 }

/-- Takes the number of a new function. -/
def withFunction (walk : Nat → Walk) : Walk := fun counters =>
  walk counters.nextFunction { counters with nextFunction := counters.nextFunction + 1 }

end Walk

/-! ## What single nodes say -/

/-- The statements that never run on their own. -/
def isInert : Node → Bool
  | .leaf .comment _ => true
  | .leaf .shebang _ => true
  | .inner .emptyStatement _ _ => true
  | .inner .labelStatement _ _ => true
  | _ => false

/-- The start of a statement, if the node is one that runs. -/
def statementStart (block : BlockId) (node : Node) : Outline :=
  if node.isNamed && !isInert node then
    { statements := [⟨node.firstLine, node.lastLine, node.span.first.byte, block⟩] }
  else {}

/-- The span of a condition. -/
def conditionSpan (block : BlockId) : Option Node → Outline
  | none => {}
  | some node =>
      { conditions :=
          [⟨node.firstLine, node.lastLine, node.span.first.byte, node.span.last.byte, block⟩] }

/-- The block that a node stands for. -/
def blockOf (id : BlockId) (kind : BlockKind) (branch : Option Branch) (parent : BlockId)
    (firstLine lastLine : Nat) : Outline :=
  { blocks := [.fresh id kind branch parent firstLine lastLine] }

/-- The kind of block that a loop or a `do` block is. -/
def loopKind? : Construct → Option BlockKind
  | .forStatement => some .forLoop
  | .whileStatement => some .whileLoop
  | .repeatStatement => some .repeatLoop
  | .doStatement => some .doBlock
  | _ => none

/-- The name of a declared function, and how it is declared. -/
def declaredIdentity (source : String) (node : Node) : Option String × FunctionKind :=
  let name := node.constituents.head?
  let kind :=
    if node.children.head?.any (Node.isSymbol "local") then .localFunction
    else if name.any (Node.isConstruct .methodIndex) then .method
    else .globalFunction
  (name.map fun part => part.text source, kind)

/-- The name that a construct lends to a function that stands directly in it: the key of a table
field, or the only variable that an assignment assigns to. An expression list passes on the name it
was lent. -/
def lentName (source : String) (lent : Option String) (node : Node) : Option String :=
  match node with
  | .inner .field _ children =>
      if children.any (Node.isSymbol "=") then
        node.constituents.head?.map fun key => key.text source
      else none
  | .inner .assignment _ children =>
      match (children.filter Node.isNamed).head?.map fun targets =>
        targets.children.filter Node.isNamed with
      | some [target] => some (target.text source)
      | _ => none
  | .inner .expressionList _ _ => lent
  | _ => none

/-- A text without the quotation marks at its ends. -/
def trimQuotes (text : String) : String :=
  let isQuote (char : Char) : Bool := char == '"' || char == '\''
  String.ofList ((text.toList.dropWhile isQuote).reverse.dropWhile isQuote).reverse

/-- The name that a string stands for when a module is required by it; an empty quoted string stands
for none. -/
def literalName (source : String) : Node → Option String
  | .leaf (.string (some content)) _ => some (content.text source)
  | .leaf (.string none) span =>
      let raw := span.text source
      let trimmed := trimQuotes raw
      if trimmed != "" && trimmed.utf8ByteSize < raw.utf8ByteSize then some trimmed else none
  | _ => none

/-- The module that a call requires by a literal name, if it is such a call. -/
def requiredModule (source : String) (node : Node) : Outline :=
  if node.constituents.head?.any fun callee => callee.text source == "require" then
    match (node.children.find? (Node.isConstruct .arguments)).map fun arguments =>
      arguments.children.filter Node.isNamed with
    | some [only] => { requires := (literalName source only).toList }
    | _ => {}
  else {}

/-- The last line of the arms of an `if` statement after the first; that of the statement if there
are none. -/
def chainEnd (node : Node) : Nat :=
  let isArm (child : Node) : Bool := child.isConstruct .elseIfArm || child.isConstruct .elseArm
  ((node.children.filter isArm).map Node.lastLine).max?.getD node.lastLine

/-! ## The walk -/

/-- The walk over a block: takes a number for it, walks over its inside, and lists it. -/
def blockWalk (parent : BlockId) (node : Node) (kind : BlockKind) (branch : Option Branch)
    (inside : BlockId → Walk) : Walk :=
  .withBlock fun id =>
    .andThen (inside id)
      (.found (blockOf id kind branch parent node.firstLine node.lastLine))

/-- The walk over a function: lists the function before its inside and its block after it. -/
def functionWalk (parent : BlockId) (node : Node) (name : Option String) (kind : FunctionKind)
    (inside : BlockId → Walk) : Walk :=
  blockWalk parent node .function none fun id =>
    .withFunction fun number =>
      let parameters := (node.children.find? (Node.isConstruct .parameters)).toList
      let bodies := parameters.map fun part =>
        FunctionBody.mk node.firstLine part.span.last.byte
      .andThen
        (.found
          { functions := [⟨number, name, kind, node.firstLine, node.lastLine, false, 0⟩]
            bodies := bodies })
        (inside id)

section Walking

variable (source : String)

mutual

/-- Walks over a tree in a given block. A function that is an expression takes the lent name. -/
def walk (lent : Option String) (parent : BlockId) : Node → Walk
  | .leaf _ _ => Walk.nothing
  | .inner construct span children =>
      let node := Node.inner construct span children
      match construct with
      | .chunk | .block => walkStatements parent children
      | .ifStatement =>
          blockWalk parent node .conditional none fun id => walkArms id (chainEnd node) id children
      | .functionDeclaration =>
          let (name, kind) := declaredIdentity source node
          functionWalk parent node name kind fun id => walkAll none id children
      | .functionExpression =>
          functionWalk parent node lent .anonymous fun id => walkAll none id children
      | .call =>
          .andThen (.found (requiredModule source node)) (walkAll none parent children)
      | _ =>
          match loopKind? construct with
          | some kind =>
              blockWalk parent node kind none fun id =>
                .andThen
                  (.found (if construct = .repeatStatement then
                    conditionSpan id node.constituents.getLast? else {}))
                  (walkAll none id children)
          | none => walkAll (lentName source lent node) parent children

/-- Walks over trees that stand side by side. -/
def walkAll (lent : Option String) (parent : BlockId) : List Node → Walk
  | [] => Walk.nothing
  | node :: rest => .andThen (walk lent parent node) (walkAll lent parent rest)

/-- Walks over the statements of a block. -/
def walkStatements (parent : BlockId) : List Node → Walk
  | [] => Walk.nothing
  | node :: rest =>
      .andThen (.found (statementStart parent node))
        (.andThen (walk none parent node) (walkStatements parent rest))

/-- Walks over the parts of an `if` statement; `owner` is the conditional that the next arm hangs
off. -/
def walkArms (ifId : BlockId) (endOfChain : Nat) (owner : BlockId) : List Node → Walk
  | [] => Walk.nothing
  | .inner .block span statements :: rest =>
      let body := Node.inner .block span statements
      .andThen
        (blockWalk ifId body .conditional (some .thenArm) fun id => walkStatements id statements)
        (walkArms ifId endOfChain owner rest)
  | .inner .elseIfArm span parts :: rest =>
      let arm := Node.inner .elseIfArm span parts
      .withBlock fun id =>
        .andThen (.found (conditionSpan id arm.constituents.head?))
          (.andThen (walkArmParts id parts)
            (.andThen
              (.found (blockOf id .conditional (some .elseIfArm) owner arm.firstLine endOfChain))
              (walkArms ifId endOfChain id rest)))
  | .inner .elseArm span parts :: rest =>
      let arm := Node.inner .elseArm span parts
      .andThen
        (blockWalk owner arm .conditional (some .elseArm) fun id => walkAll none id parts)
        (walkArms ifId endOfChain owner rest)
  | node :: rest =>
      .andThen (walk none ifId node) (walkArms ifId endOfChain owner rest)

/-- Walks over the parts of an `elseif` arm; its statements form an arm of their own. -/
def walkArmParts (id : BlockId) : List Node → Walk
  | [] => Walk.nothing
  | .inner .block span statements :: rest =>
      let body := Node.inner .block span statements
      .andThen
        (blockWalk id body .conditional (some .thenArm) fun armId =>
          walkStatements armId statements)
        (walkArmParts id rest)
  | node :: rest => .andThen (walk none id node) (walkArmParts id rest)

end

end Walking

/-- The outline of a source with a given syntax tree. Blocks and functions are numbered from one. -/
def ofTree (source : String) (tree : Node) : Outline :=
  (walk source none BlockId.root tree ⟨1, 1⟩).1

end Outline

end LuaCoverage
