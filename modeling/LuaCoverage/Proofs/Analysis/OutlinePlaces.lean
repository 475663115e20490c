import LuaCoverage.Analysis.Outline
import LuaCoverage.Proofs.Syntax.GrammarTiling

/-!
# Where outlines point

Everything an outline says about places comes from trees below the one that is walked over: the
stretch of a statement, a condition or a parameter list is the stretch of such a tree, and a
function starts where such a tree starts. A property that passes from trees to their parts therefore
holds of all of them (`from_walk`, by induction along the walk). The property in question is
`Placed`: the tree is proper and its leaves are among those that tile the source.

The walk lists blocks and functions without any hit on them.
-/

set_option autoImplicit false

namespace LuaCoverage

open Syntax

namespace Outline

/-! ## Outlines that come from trees -/

/-- The places that an outline lists are those of trees with a property, and nothing has run yet. -/
structure From (holds : Node → Prop) (outline : Outline) : Prop where
  statements : ∀ statement ∈ outline.statements, ∃ node, holds node ∧
    statement.line = node.firstLine ∧ statement.endLine = node.lastLine ∧
      statement.byte = node.span.first.byte
  conditions : ∀ condition ∈ outline.conditions, ∃ node, holds node ∧
    condition.line = node.firstLine ∧ condition.endLine = node.lastLine ∧
      condition.startByte = node.span.first.byte ∧ condition.endByte = node.span.last.byte
  bodies : ∀ body ∈ outline.bodies, ∃ node, holds node ∧ body.byte = node.span.last.byte
  functions : ∀ function ∈ outline.functions, function.executed = false ∧
    function.executionCount = 0 ∧ ∃ node, holds node ∧ function.startLine = node.firstLine
  blocks : ∀ block ∈ outline.blocks, block.executed = false ∧ block.executionCount = 0

/-- Whatever numbers a walk starts with, it lists places of trees with a property. -/
def Walk.From (holds : Node → Prop) (walk : Walk) : Prop :=
  ∀ counters, Outline.From holds (walk counters).1

section From

variable {holds : Node → Prop}

/-- An outline without places, blocks and functions. -/
theorem from_of_empty {outline : Outline} (statements : outline.statements = [])
    (conditions : outline.conditions = []) (bodies : outline.bodies = [])
    (functions : outline.functions = []) (blocks : outline.blocks = []) : From holds outline where
  statements := fun _ member => absurd (statements ▸ member) List.not_mem_nil
  conditions := fun _ member => absurd (conditions ▸ member) List.not_mem_nil
  bodies := fun _ member => absurd (bodies ▸ member) List.not_mem_nil
  functions := fun _ member => absurd (functions ▸ member) List.not_mem_nil
  blocks := fun _ member => absurd (blocks ▸ member) List.not_mem_nil

/-- A block that is listed has not run. -/
theorem from_blockOf (id : BlockId) (kind : BlockKind) (branch : Option Branch) (parent : BlockId)
    (firstLine lastLine : Nat) : From holds (blockOf id kind branch parent firstLine lastLine) where
  statements := fun _ member => absurd member List.not_mem_nil
  conditions := fun _ member => absurd member List.not_mem_nil
  bodies := fun _ member => absurd member List.not_mem_nil
  functions := fun _ member => absurd member List.not_mem_nil
  blocks := by
    intro block member
    obtain rfl := List.mem_singleton.mp member
    exact ⟨rfl, rfl⟩

theorem From.append {first later : Outline} (found : From holds first)
    (found' : From holds later) : From holds (first.append later) where
  statements := fun statement member =>
    (List.mem_append.mp member).elim (found.statements statement) (found'.statements statement)
  conditions := fun condition member =>
    (List.mem_append.mp member).elim (found.conditions condition) (found'.conditions condition)
  bodies := fun body member =>
    (List.mem_append.mp member).elim (found.bodies body) (found'.bodies body)
  functions := fun function member =>
    (List.mem_append.mp member).elim (found.functions function) (found'.functions function)
  blocks := fun block member =>
    (List.mem_append.mp member).elim (found.blocks block) (found'.blocks block)

theorem from_statementStart (block : BlockId) {node : Node} (own : holds node) :
    From holds (statementStart block node) := by
  unfold statementStart
  split
  · refine ⟨fun statement member => ?_, fun _ none => absurd none List.not_mem_nil,
      fun _ none => absurd none List.not_mem_nil, fun _ none => absurd none List.not_mem_nil,
      fun _ none => absurd none List.not_mem_nil⟩
    obtain rfl := List.mem_singleton.mp member
    exact ⟨node, own, rfl, rfl, rfl⟩
  · exact from_of_empty rfl rfl rfl rfl rfl

theorem from_conditionSpan (block : BlockId) {found : Option Node}
    (own : ∀ node, found = some node → holds node) : From holds (conditionSpan block found) := by
  cases found with
  | none => exact from_of_empty rfl rfl rfl rfl rfl
  | some node =>
      refine ⟨fun _ none => absurd none List.not_mem_nil, fun condition member => ?_,
        fun _ none => absurd none List.not_mem_nil, fun _ none => absurd none List.not_mem_nil,
        fun _ none => absurd none List.not_mem_nil⟩
      obtain rfl := List.mem_singleton.mp member
      exact ⟨node, own node rfl, rfl, rfl, rfl, rfl⟩

theorem from_requiredModule (source : String) (node : Node) :
    From holds (requiredModule source node) := by
  unfold requiredModule
  split
  · split <;> exact from_of_empty rfl rfl rfl rfl rfl
  · exact from_of_empty rfl rfl rfl rfl rfl

namespace Walk

theorem from_nothing : Walk.From holds nothing := fun _ => from_of_empty rfl rfl rfl rfl rfl

theorem from_found {outline : Outline} (own : Outline.From holds outline) :
    Walk.From holds (found outline) := fun _ => own

theorem From.andThen {first later : Walk} (own : Walk.From holds first)
    (own' : Walk.From holds later) : Walk.From holds (first.andThen later) :=
  fun counters => (own counters).append (own' (first counters).2)

theorem from_withBlock {walk : BlockId → Walk} (own : ∀ id, Walk.From holds (walk id)) :
    Walk.From holds (withBlock walk) := fun counters => own counters.nextBlock _

theorem from_withFunction {walk : Nat → Walk} (own : ∀ number, Walk.From holds (walk number)) :
    Walk.From holds (withFunction walk) := fun counters => own counters.nextFunction _

end Walk

theorem from_blockWalk (parent : BlockId) (node : Node) (kind : BlockKind) (branch : Option Branch)
    {inside : BlockId → Walk} (own : ∀ id, Walk.From holds (inside id)) :
    Walk.From holds (blockWalk parent node kind branch inside) :=
  Walk.from_withBlock fun id =>
    (own id).andThen (Walk.from_found (from_blockOf _ _ _ _ _ _))

/-- The only places that a function adds to those inside it are its start and the end of its
parameter list. -/
theorem from_functionWalk (parent : BlockId) {node : Node} (name : Option String)
    (kind : FunctionKind) {inside : BlockId → Walk} (itself : holds node)
    (parts : ∀ child ∈ node.children, holds child) (own : ∀ id, Walk.From holds (inside id)) :
    Walk.From holds (functionWalk parent node name kind inside) := by
  refine from_blockWalk _ _ _ _ fun id => Walk.from_withFunction fun number => ?_
  refine Walk.From.andThen (Walk.from_found ⟨fun _ none => absurd none List.not_mem_nil,
    fun _ none => absurd none List.not_mem_nil, fun body member => ?_, fun function member => ?_,
    fun _ none => absurd none List.not_mem_nil⟩) (own id)
  · obtain ⟨part, isPart, rfl⟩ := List.mem_map.mp member
    exact ⟨part, parts part (List.mem_of_find?_eq_some (Option.mem_toList.mp isPart)), rfl⟩
  · obtain rfl := List.mem_singleton.mp member
    exact ⟨rfl, rfl, node, itself, rfl⟩

end From

/-! ## Along the walk -/

section Walking

set_option linter.unusedSectionVars false

variable {holds : Node → Prop}
  (closed : ∀ node, holds node → ∀ child ∈ node.children, holds child) (source : String)

/-- A constituent is a part. -/
theorem mem_children_of_head {node part : Node} (isHead : node.constituents.head? = some part) :
    part ∈ node.children :=
  (List.mem_filter.mp (List.mem_of_head? isHead)).1

theorem mem_children_of_getLast {node part : Node}
    (isLast : node.constituents.getLast? = some part) : part ∈ node.children :=
  (List.mem_filter.mp (List.mem_of_getLast? isLast)).1

include closed

mutual

/-- **All places that a walk lists are those of trees with a property**, if the tree has it and
parts inherit it. -/
theorem from_walk (lent : Option String) (parent : BlockId) : (node : Node) → holds node →
    Walk.From holds (walk source lent parent node)
  | .leaf _ _, _ => by
      rw [walk]
      exact Walk.from_nothing
  | .inner construct span children, own => by
      have parts := closed _ own
      unfold walk
      simp only
      split
      · exact from_walkStatements parent children parts
      · exact from_walkStatements parent children parts
      · exact from_blockWalk _ _ _ _ fun id => from_walkArms id _ id children parts
      · exact from_functionWalk _ _ _ own parts fun id => from_walkAll none id children parts
      · exact from_functionWalk _ _ _ own parts fun id => from_walkAll none id children parts
      · exact (Walk.from_found (from_requiredModule source _)).andThen
          (from_walkAll none parent children parts)
      · split
        · refine from_blockWalk _ _ _ _ fun id => Walk.From.andThen (Walk.from_found ?_)
            (from_walkAll none id children parts)
          split
          · exact from_conditionSpan id fun part isLast =>
              parts part (mem_children_of_getLast isLast)
          · exact from_of_empty rfl rfl rfl rfl rfl
        · exact from_walkAll _ parent children parts

theorem from_walkAll (lent : Option String) (parent : BlockId) : (nodes : List Node) →
    (∀ node ∈ nodes, holds node) → Walk.From holds (walkAll source lent parent nodes)
  | [], _ => by
      rw [walkAll]
      exact Walk.from_nothing
  | node :: rest, own => by
      rw [walkAll]
      exact (from_walk lent parent node (own node List.mem_cons_self)).andThen
        (from_walkAll lent parent rest fun other member =>
          own other (List.mem_cons_of_mem _ member))

theorem from_walkStatements (parent : BlockId) : (nodes : List Node) →
    (∀ node ∈ nodes, holds node) → Walk.From holds (walkStatements source parent nodes)
  | [], _ => by
      rw [walkStatements]
      exact Walk.from_nothing
  | node :: rest, own => by
      rw [walkStatements]
      have here := own node List.mem_cons_self
      exact (Walk.from_found (from_statementStart parent here)).andThen
        ((from_walk none parent node here).andThen
          (from_walkStatements parent rest fun other member =>
            own other (List.mem_cons_of_mem _ member)))

theorem from_walkArms (ifId : BlockId) (endOfChain : Nat) (owner : BlockId) :
    (nodes : List Node) → (∀ node ∈ nodes, holds node) →
    Walk.From holds (walkArms source ifId endOfChain owner nodes)
  | [], _ => by
      rw [walkArms]
      exact Walk.from_nothing
  | .leaf kind span :: rest, own => by
      rw [walkArms]
      · exact (from_walk none ifId _ (own _ List.mem_cons_self)).andThen
          (from_walkArms ifId endOfChain owner rest fun other member =>
            own other (List.mem_cons_of_mem _ member))
      all_goals exact fun _ _ same => nomatch same
  | .inner construct span inside :: rest, own => by
      have parts := closed _ (own _ List.mem_cons_self)
      have later := fun owner => from_walkArms ifId endOfChain owner rest fun other member =>
        own other (List.mem_cons_of_mem _ member)
      by_cases isBlock : construct = .block
      · subst isBlock
        rw [walkArms]
        exact (from_blockWalk _ _ _ _ fun id => from_walkStatements id inside parts).andThen
          (later owner)
      by_cases isElseIf : construct = .elseIfArm
      · subst isElseIf
        rw [walkArms]
        refine Walk.from_withBlock fun id => Walk.From.andThen (Walk.from_found ?_)
          ((from_walkArmParts id inside parts).andThen
            (Walk.From.andThen (Walk.from_found (from_blockOf _ _ _ _ _ _)) (later id)))
        exact from_conditionSpan id fun part isHead => parts part (mem_children_of_head isHead)
      by_cases isElse : construct = .elseArm
      · subst isElse
        rw [walkArms]
        exact (from_blockWalk _ _ _ _ fun id => from_walkAll none id inside parts).andThen
          (later owner)
      rw [walkArms]
      · exact (from_walk none ifId _ (own _ List.mem_cons_self)).andThen (later owner)
      · exact fun _ _ same => isBlock (Node.inner.inj same).1
      · exact fun _ _ same => isElseIf (Node.inner.inj same).1
      · exact fun _ _ same => isElse (Node.inner.inj same).1

theorem from_walkArmParts (id : BlockId) : (nodes : List Node) → (∀ node ∈ nodes, holds node) →
    Walk.From holds (walkArmParts source id nodes)
  | [], _ => by
      rw [walkArmParts]
      exact Walk.from_nothing
  | .leaf kind span :: rest, own => by
      rw [walkArmParts]
      · exact (from_walk none id _ (own _ List.mem_cons_self)).andThen
          (from_walkArmParts id rest fun other member => own other (List.mem_cons_of_mem _ member))
      · exact fun _ _ same => nomatch same
  | .inner construct span inside :: rest, own => by
      have parts := closed _ (own _ List.mem_cons_self)
      have later := from_walkArmParts id rest fun other member =>
        own other (List.mem_cons_of_mem _ member)
      by_cases isBlock : construct = .block
      · subst isBlock
        rw [walkArmParts]
        exact (from_blockWalk _ _ _ _ fun id => from_walkStatements id inside parts).andThen later
      rw [walkArmParts]
      · exact (from_walk none id _ (own _ List.mem_cons_self)).andThen later
      · exact fun _ _ same => isBlock (Node.inner.inj same).1

end

end Walking

/-- Every part of a block that runs on its own is listed as a statement. -/
theorem mem_walkStatements (source : String) (parent : BlockId) {nodes : List Node} {node : Node}
    (member : node ∈ nodes) (named : node.isNamed = true) (runs : isInert node = false)
    (counters : Counters) :
    ⟨node.firstLine, node.lastLine, node.span.first.byte, parent⟩ ∈
      (walkStatements source parent nodes counters).1.statements := by
  induction nodes generalizing counters with
  | nil => exact absurd member List.not_mem_nil
  | cons first rest ih =>
      rw [walkStatements]
      rcases List.mem_cons.mp member with rfl | member
      · refine List.mem_append_left _ ?_
        simp [statementStart, named, runs]
      · exact List.mem_append_right _ (List.mem_append_right _ (ih member _))

/-- Asides in front of the statements of a block change nothing. -/
theorem walkStatements_asides (source : String) (parent : BlockId) {asides : List Node}
    (all : ∀ node ∈ asides, IsAside node) (nodes : List Node) :
    walkStatements source parent (asides ++ nodes) = walkStatements source parent nodes := by
  induction asides with
  | nil => rfl
  | cons first rest ih =>
      have skipped : walkStatements source parent (first :: (rest ++ nodes)) =
          walkStatements source parent (rest ++ nodes) := by
        funext counters
        rcases all first List.mem_cons_self with ⟨span, rfl⟩ | ⟨span, rfl⟩ <;>
          simp [walkStatements, walk, statementStart, isInert, Node.isNamed, Walk.andThen,
            Walk.found, Walk.nothing, append]
      rw [List.cons_append, skipped]
      exact ih fun node member => all node (List.mem_cons_of_mem _ member)

end Outline

/-! ## Trees inside a source -/

namespace Syntax

/-- A proper tree whose leaves are among those that tile a source behind some characters. -/
def Placed (source : List Char) (node : Node) : Prop :=
  Proper node ∧ ∃ before text first later, source = before ++ text ∧
    Tiled (Position.start.advance before) text (first ++ node.leaves ++ later)

theorem Placed.of_mem_children {source : List Char} {node child : Node}
    (placed : Placed source node) (member : child ∈ node.children) : Placed source child := by
  obtain ⟨proper, before, text, first, later, isSource, tiled⟩ := placed
  refine ⟨proper.of_mem_children member, before, text, ?_⟩
  cases node with
  | leaf kind span => exact absurd member List.not_mem_nil
  | inner construct span children =>
      obtain ⟨front, back, rfl⟩ := List.append_of_mem member
      refine ⟨first ++ leavesAll front, leavesAll back ++ later, isSource, ?_⟩
      have leaves : (Node.inner construct span (front ++ child :: back)).leaves =
          leavesAll front ++ (child.leaves ++ leavesAll back) := by
        rw [Node.leaves, leavesAll_append, leavesAll_cons]
      rw [leaves] at tiled
      simpa only [List.append_assoc] using tiled

/-- A stretch of a source that begins and ends as a token does. -/
def Located (source : List Char) (span : Span) : Prop :=
  ∃ before text after, source = before ++ text ++ after ∧ isInk text = true ∧
    span = ⟨Position.start.advance before, Position.start.advance (before ++ text)⟩

/-- **The stretch of a placed tree is where its leaves are.** -/
theorem Placed.located {source : List Char} {node : Node} (placed : Placed source node) :
    Located source node.span := by
  obtain ⟨proper, before, text, first, later, rfl, tiled⟩ := placed
  obtain ⟨front, back, isFront, isBack, isSpan⟩ := proper.span_eq
  obtain ⟨start, rest, rfl, -, behind⟩ := (List.append_assoc .. ▸ tiled :
    Tiled _ _ (first ++ (node.leaves ++ later))).exists_cut
  obtain ⟨inside, final, rfl, own, -⟩ := behind.exists_cut
  obtain ⟨lead, ink, tail, rfl, isInk, starts, ends⟩ := own.exists_covered isFront isBack
  refine ⟨before ++ start ++ lead, ink, tail ++ final, by simp only [List.append_assoc], isInk, ?_⟩
  rw [isSpan, starts, ends]
  simp only [← Position.advance_append, List.append_assoc]

/-- A stretch that ends as a token does occupies the line it ends on, which is not before the one it
begins on. -/
theorem Located.lines {source : List Char} {span : Span} (located : Located source span) :
    span.lastLine = span.last.line ∧ span.first.line ≤ span.lastLine := by
  obtain ⟨before, text, after, -, isInk, rfl⟩ := located
  obtain ⟨-, last, isLast, notFeed, -⟩ := isInk_iff.mp isInk
  obtain ⟨front, rfl⟩ := List.getLast?_eq_some_iff.mp isLast
  have column : 0 < (Position.start.advance (before ++ (front ++ [last]))).column := by
    rw [← List.append_assoc]
    exact Position.start.column_advance_concat notFeed
  have isLastLine : Span.lastLine ⟨Position.start.advance before,
      Position.start.advance (before ++ (front ++ [last]))⟩ =
      (Position.start.advance (before ++ (front ++ [last]))).line := by
    rw [Span.lastLine, if_neg]
    exact fun ended => Nat.ne_of_gt column ended.1
  refine ⟨isLastLine, ?_⟩
  rw [isLastLine, Position.advance_append]
  exact Position.line_le_advance _ _

/-- The leaves of a placed tree begin on its lines. -/
theorem Placed.lines_of_mem_leaves {source : List Char} {node : Node} (placed : Placed source node)
    {leaf : Leaf × Span} (member : leaf ∈ node.leaves) :
    node.firstLine ≤ leaf.2.first.line ∧ leaf.2.first.line ≤ node.lastLine := by
  have ends := placed.located.lines.1
  obtain ⟨proper, before, text, first, later, rfl, tiled⟩ := placed
  obtain ⟨front, back, isFront, isBack, isSpan⟩ := proper.span_eq
  obtain ⟨start, rest, rfl, -, behind⟩ := (List.append_assoc .. ▸ tiled :
    Tiled _ _ (first ++ (node.leaves ++ later))).exists_cut
  obtain ⟨inside, final, rfl, own, -⟩ := behind.exists_cut
  rw [Node.firstLine, Node.lastLine, ends, isSpan]
  exact ⟨own.head_line_le isFront member, own.line_le_getLast isBack member⟩

end Syntax

end LuaCoverage
