import Mathlib.Data.List.Nodup
import LuaCoverage.Proofs.Analysis.ParsedSource
import LuaCoverage.Proofs.Syntax.Conditionals

/-!
# The trees that blocks stand for

Every block of an outline stands for a tree: a loop, a function, an `if` statement or one of its
arms. `blockTrees` lists these trees in the order in which the outline lists the blocks, so a block
and its tree make a *site*. What a walk says about its sites (`Sited`) does not depend on the number
that it starts with: the numbers are all different and are used up one after the other, every block
names a parent with a smaller number, which is a site as well or was there before, and an arm hangs
off a conditional whose condition ends on no later line than the arm begins on (`Selects`).

The last of these rests on two facts about trees. The condition of a conditional stands in front of
its arms (`Conditioned`), and what stands in front begins and ends on no later lines
(`Placed.pairwise_children`).
-/

set_option autoImplicit false

namespace LuaCoverage

open Syntax

namespace Syntax

/-! ## What stands in front -/

/-- No leaf begins on a line before the end of the leaves in front of it. -/
theorem Tiled.last_line_le {position : Position} {chars : List Char}
    {first later : List (Leaf × Span)} (tiled : Tiled position chars (first ++ later))
    {last leaf : Leaf × Span} (isLast : first.getLast? = some last) (member : leaf ∈ later) :
    last.2.last.line ≤ leaf.2.first.line := by
  obtain ⟨front, rest, rfl, tiledFront, behind⟩ := tiled.exists_cut
  obtain ⟨head, isHead⟩ : ∃ head, first.head? = some head :=
    Option.isSome_iff_exists.mp
      (List.isSome_head?.mpr fun empty => by rw [empty] at isLast; cases isLast)
  obtain ⟨before, text, after, rfl, -, -, ends⟩ := tiledFront.exists_covered isHead isLast
  refine Nat.le_trans ?_ (behind.line_le member)
  rw [ends, Position.advance_append _ (before ++ text)]
  exact Position.line_le_advance _ _

/-- No leaf ends on a line after the end of the last one. -/
theorem Tiled.last_line_le_getLast {position : Position} {chars : List Char}
    {leaves : List (Leaf × Span)} (tiled : Tiled position chars leaves) {last leaf : Leaf × Span}
    (isLast : leaves.getLast? = some last) (member : leaf ∈ leaves) :
    leaf.2.last.line ≤ last.2.last.line := by
  obtain ⟨front, back, rfl⟩ := List.append_of_mem member
  cases back with
  | nil =>
      rw [List.getLast?_concat] at isLast
      obtain rfl := Option.some.inj isLast
      exact Nat.le_refl _
  | cons next back =>
      have cut : front ++ leaf :: next :: back = (front ++ [leaf]) ++ next :: back := by simp
      rw [cut] at tiled isLast
      have isNext : next ∈ next :: back := List.mem_cons_self
      exact Nat.le_trans (tiled.last_line_le List.getLast?_concat isNext)
        (tiled.line_le_getLast isLast (List.mem_append_right _ isNext))

/-- Trees that tile a text begin on no earlier line than the trees in front of them end on. -/
theorem pairwise_of_tiled {source : List Char} {nodes : List Node} {position : Position}
    {chars : List Char} (placed : ∀ node ∈ nodes, Placed source node)
    (tiled : Tiled position chars (leavesAll nodes)) :
    nodes.Pairwise fun front behind => front.lastLine ≤ behind.firstLine := by
  induction nodes generalizing position chars with
  | nil => exact .nil
  | cons node rest ih =>
      have own := placed node List.mem_cons_self
      rw [leavesAll_cons] at tiled
      obtain ⟨before, after, -, -, behind⟩ := tiled.exists_cut
      refine .cons (fun other member => ?_)
        (ih (fun other member => placed other (List.mem_cons_of_mem _ member)) behind)
      obtain ⟨_, last, -, isLast, isSpan⟩ := own.1.span_eq
      obtain ⟨first, _, isFirst, -, isSpan'⟩ :=
        (placed other (List.mem_cons_of_mem _ member)).1.span_eq
      obtain ⟨front, back, rfl⟩ := List.append_of_mem member
      have isLeaf : first ∈ leavesAll (front ++ other :: back) := by
        rw [leavesAll_append, leavesAll_cons]
        exact List.mem_append_right _ (List.mem_append_left _ (List.mem_of_head? isFirst))
      rw [Node.lastLine, own.located.lines.1, isSpan, Node.firstLine, isSpan']
      exact tiled.last_line_le isLast isLeaf

/-- **Parts of a tree begin on no earlier line than the parts in front of them end on.** -/
theorem Placed.pairwise_children {source : List Char} {node : Node} (placed : Placed source node) :
    node.children.Pairwise fun front behind => front.lastLine ≤ behind.firstLine := by
  cases node with
  | leaf kind span => exact .nil
  | inner construct span children =>
      have parts : ∀ child ∈ children, Placed source child := fun _ member =>
        placed.of_mem_children member
      obtain ⟨-, before, text, first, later, -, tiled⟩ := placed
      obtain ⟨start, rest, -, -, behind⟩ := (List.append_assoc .. ▸ tiled :
        Tiled _ _ (first ++ ((Node.inner construct span children).leaves ++ later))).exists_cut
      obtain ⟨inside, final, -, own, -⟩ := behind.exists_cut
      exact pairwise_of_tiled parts own

/-- A part of a tree lies on its lines. -/
theorem Placed.lines_of_mem_children {source : List Char} {node child : Node}
    (placed : Placed source node) (member : child ∈ node.children) :
    node.firstLine ≤ child.firstLine ∧ child.lastLine ≤ node.lastLine := by
  have inside := placed.of_mem_children member
  have ends := placed.located.lines.1
  have ends' := inside.located.lines.1
  obtain ⟨first', last', isFirst', isLast', isSpan'⟩ := inside.1.span_eq
  have isLeaf : ∀ leaf ∈ child.leaves, leaf ∈ node.leaves := by
    intro leaf isLeaf
    cases node with
    | leaf kind span => exact absurd member List.not_mem_nil
    | inner construct span children =>
        obtain ⟨front, back, rfl⟩ := List.append_of_mem member
        rw [Node.leaves, leavesAll_append, leavesAll_cons]
        exact List.mem_append_right _ (List.mem_append_left _ isLeaf)
  have starts := (placed.lines_of_mem_leaves (isLeaf first' (List.mem_of_head? isFirst'))).1
  obtain ⟨proper, before, text, first, later, -, tiled⟩ := placed
  obtain ⟨front, back, isFront, isBack, isSpan⟩ := proper.span_eq
  obtain ⟨start, rest, -, -, behind⟩ := (List.append_assoc .. ▸ tiled :
    Tiled _ _ (first ++ (node.leaves ++ later))).exists_cut
  obtain ⟨inner, final, -, own, -⟩ := behind.exists_cut
  refine ⟨?_, ?_⟩
  · rw [Node.firstLine, Node.firstLine, isSpan'] at *
    exact starts
  · rw [Node.lastLine, Node.lastLine, ends, ends', isSpan, isSpan']
    exact own.last_line_le_getLast isBack (isLeaf last' (List.mem_of_getLast? isLast'))

/-- **The condition of a conditional** is on its lines, and ends on no later line than any of its
arms begins on. -/
theorem Conditioned.exists_condition_before {source : List Char} {construct : Construct}
    {span : Span} {children : List Node}
    (conditioned : Conditioned (.inner construct span children))
    (placed : Placed source (.inner construct span children))
    (isConditional : construct.isConditional = true) :
    ∃ condition, (Node.inner construct span children).condition? = some condition ∧
      (Node.inner construct span children).firstLine ≤ condition.firstLine ∧
      condition.firstLine ≤ condition.lastLine ∧
      condition.lastLine ≤ (Node.inner construct span children).lastLine ∧
      ∀ arm ∈ children, arm.isArm = true → condition.lastLine ≤ arm.firstLine := by
  obtain ⟨front, condition, rest, rfl, isCondition, notArm, noArm⟩ :=
    conditioned.exists_condition rfl isConditional
  have member : condition ∈ front ++ condition :: rest :=
    List.mem_append_right _ List.mem_cons_self
  have itself : Placed source condition := placed.of_mem_children member
  obtain ⟨starts, ends⟩ := placed.lines_of_mem_children member
  refine ⟨condition, isCondition, starts, itself.located.lines.2, ends, fun arm isPart isArm => ?_⟩
  · have ordered := (List.pairwise_append.mp placed.pairwise_children).2.1
    rcases List.mem_append.mp isPart with inFront | behind
    · cases isArm.symm.trans (noArm arm inFront)
    · rcases List.mem_cons.mp behind with rfl | behind
      · cases isArm.symm.trans notArm
      · exact (List.pairwise_cons.mp ordered).1 arm behind

end Syntax

namespace Outline

/-! ## The trees -/

mutual

/-- The trees that the blocks in a tree stand for, inner blocks first. -/
def blockTrees : Node → List Node
  | .leaf _ _ => []
  | .inner construct span children =>
      let node := Node.inner construct span children
      match construct with
      | .ifStatement => armTrees children ++ [node]
      | .functionDeclaration | .functionExpression => blockTreesAll children ++ [node]
      | _ =>
          match loopKind? construct with
          | some _ => blockTreesAll children ++ [node]
          | none => blockTreesAll children

/-- The trees that the blocks in trees that stand side by side stand for. -/
def blockTreesAll : List Node → List Node
  | [] => []
  | node :: rest => blockTrees node ++ blockTreesAll rest

/-- The trees that the blocks in the parts of an `if` statement stand for. -/
def armTrees : List Node → List Node
  | [] => []
  | .inner .block span statements :: rest =>
      (blockTreesAll statements ++ [.inner .block span statements]) ++ armTrees rest
  | .inner .elseIfArm span parts :: rest =>
      (armPartTrees parts ++ [.inner .elseIfArm span parts]) ++ armTrees rest
  | .inner .elseArm span parts :: rest =>
      (blockTreesAll parts ++ [.inner .elseArm span parts]) ++ armTrees rest
  | node :: rest => blockTrees node ++ armTrees rest

/-- The trees that the blocks in the parts of an `elseif` arm stand for. -/
def armPartTrees : List Node → List Node
  | [] => []
  | .inner .block span statements :: rest =>
      (blockTreesAll statements ++ [.inner .block span statements]) ++ armPartTrees rest
  | node :: rest => blockTrees node ++ armPartTrees rest

end

theorem blockTrees_of_loop {construct : Construct} {kind : BlockKind}
    (isLoop : loopKind? construct = some kind) (span : Span) (children : List Node) :
    blockTrees (.inner construct span children) =
      blockTreesAll children ++ [.inner construct span children] := by
  cases construct <;> first | rfl | cases isLoop

theorem blockTrees_of_not_loop {construct : Construct} (notLoop : loopKind? construct = none)
    (notIf : construct ≠ .ifStatement) (notFunction : construct ≠ .functionDeclaration)
    (notFunction' : construct ≠ .functionExpression) (span : Span) (children : List Node) :
    blockTrees (.inner construct span children) = blockTreesAll children := by
  cases construct <;> first | rfl | contradiction

/-- Asides in front of the statements of a source contain no blocks. -/
theorem blockTrees_chunk {asides : List Node} (all : ∀ node ∈ asides, IsAside node) (span : Span)
    (body : List Node) : blockTrees (.inner .chunk span (asides ++ body)) = blockTreesAll body := by
  have none : blockTreesAll (asides ++ body) = blockTreesAll body := by
    induction asides with
    | nil => rfl
    | cons first rest ih =>
        have leaf : blockTrees first = [] := by
          rcases all first List.mem_cons_self with ⟨span, rfl⟩ | ⟨span, rfl⟩ <;> rw [blockTrees]
        rw [List.cons_append, blockTreesAll, leaf]
        exact ih fun node member => all node (List.mem_cons_of_mem _ member)
  exact none

section Holds

set_option linter.unusedSectionVars false

variable {holds : Node → Prop}

/-- A property of all trees of two lists. -/
theorem holds_append {first later : List Node} (all : ∀ tree ∈ first, holds tree)
    (all' : ∀ tree ∈ later, holds tree) : ∀ tree ∈ first ++ later, holds tree :=
  fun tree member => (List.mem_append.mp member).elim (all tree) (all' tree)

variable (closed : ∀ node, holds node → ∀ child ∈ node.children, holds child)

include closed

mutual

/-- **The trees that blocks stand for have a property** that the whole tree has and parts
inherit. -/
theorem holds_blockTrees : (node : Node) → holds node → ∀ tree ∈ blockTrees node, holds tree
  | .leaf _ _, _ => fun _ none => absurd none List.not_mem_nil
  | .inner construct span children, own => by
      have parts := closed _ own
      have inside := holds_blockTreesAll children parts
      have whole := holds_append inside (List.forall_mem_singleton.mpr own)
      unfold blockTrees
      simp only
      split
      · exact holds_append (holds_armTrees children parts) (List.forall_mem_singleton.mpr own)
      · exact whole
      · exact whole
      · split
        · exact whole
        · exact inside

theorem holds_blockTreesAll : (nodes : List Node) → (∀ node ∈ nodes, holds node) →
    ∀ tree ∈ blockTreesAll nodes, holds tree
  | [], _ => fun _ none => absurd none List.not_mem_nil
  | node :: rest, own => by
      obtain ⟨head, tail⟩ := List.forall_mem_cons.mp own
      exact holds_append (holds_blockTrees node head) (holds_blockTreesAll rest tail)

theorem holds_armTrees : (nodes : List Node) → (∀ node ∈ nodes, holds node) →
    ∀ tree ∈ armTrees nodes, holds tree
  | [], _ => fun _ none => absurd none List.not_mem_nil
  | .leaf kind span :: rest, own => by
      obtain ⟨head, tail⟩ := List.forall_mem_cons.mp own
      rw [armTrees]
      · exact holds_append (holds_blockTrees _ head) (holds_armTrees rest tail)
      all_goals exact fun _ _ same => nomatch same
  | .inner construct span inside :: rest, own => by
      obtain ⟨head, tail⟩ := List.forall_mem_cons.mp own
      have parts := closed _ head
      have later := holds_armTrees rest tail
      have last := List.forall_mem_singleton.mpr head
      by_cases isBlock : construct = .block
      · subst isBlock
        exact holds_append (holds_append (holds_blockTreesAll inside parts) last) later
      by_cases isElseIf : construct = .elseIfArm
      · subst isElseIf
        exact holds_append (holds_append (holds_armPartTrees inside parts) last) later
      by_cases isElse : construct = .elseArm
      · subst isElse
        exact holds_append (holds_append (holds_blockTreesAll inside parts) last) later
      rw [armTrees]
      · exact holds_append (holds_blockTrees _ head) later
      · exact fun _ _ same => isBlock (Node.inner.inj same).1
      · exact fun _ _ same => isElseIf (Node.inner.inj same).1
      · exact fun _ _ same => isElse (Node.inner.inj same).1

theorem holds_armPartTrees : (nodes : List Node) → (∀ node ∈ nodes, holds node) →
    ∀ tree ∈ armPartTrees nodes, holds tree
  | [], _ => fun _ none => absurd none List.not_mem_nil
  | .leaf kind span :: rest, own => by
      obtain ⟨head, tail⟩ := List.forall_mem_cons.mp own
      rw [armPartTrees]
      · exact holds_append (holds_blockTrees _ head) (holds_armPartTrees rest tail)
      · exact fun _ _ same => nomatch same
  | .inner construct span inside :: rest, own => by
      obtain ⟨head, tail⟩ := List.forall_mem_cons.mp own
      have later := holds_armPartTrees rest tail
      by_cases isBlock : construct = .block
      · subst isBlock
        exact holds_append (holds_append (holds_blockTreesAll inside (closed _ head))
          (List.forall_mem_singleton.mpr head)) later
      rw [armPartTrees]
      · exact holds_append (holds_blockTrees _ head) later
      · exact fun _ _ same => isBlock (Node.inner.inj same).1

end

end Holds

/-- A block of an outline, and the tree that it stands for. -/
abbrev Site := BlockRecord × Node

/-- The sites of a source with a given syntax tree. -/
def sites (source : String) (tree : Node) : List Site :=
  (ofTree source tree).blocks.zip (blockTrees tree)

/-! ## What is said about sites -/

/-- Whether a block hangs off a conditional: one whose condition lies on its lines, and ends on no
later line than the block begins on. -/
structure Selects (owner : Site) (block : BlockRecord) : Prop where
  parent : block.parentId = some owner.1.id
  kind : owner.1.kind = .conditional
  isConditional : owner.2.isConditional = true
  condition : ∃ condition, owner.2.condition? = some condition ∧
    owner.1.startLine ≤ condition.firstLine ∧ condition.firstLine ≤ condition.lastLine ∧
    condition.lastLine ≤ owner.1.endLine ∧ condition.lastLine ≤ block.startLine

/-- What holds of the sites of part of a walk that was handed some numbers. Parents without a site
and conditionals without one were there before. -/
structure Sited (outer : BlockId → Prop) (hangs : BlockRecord → Prop) (first next : Nat)
    (sites : List Site) : Prop where
  count : next = first + sites.length
  range : ∀ site ∈ sites, first ≤ site.1.id ∧ site.1.id < next
  distinct : (sites.map fun site => site.1.id).Nodup
  begins : ∀ site ∈ sites, site.1.startLine = site.2.firstLine
  parents : ∀ site ∈ sites, ∃ parent, site.1.parentId = some parent ∧ parent < site.1.id ∧
    (outer parent ∨ ∃ other ∈ sites, other.1.id = parent)
  arms : ∀ site ∈ sites, site.1.branch.isSome = true →
    hangs site.1 ∨ ∃ owner ∈ sites, Selects owner site.1

namespace Sited

variable {outer outer' : BlockId → Prop} {hangs hangs' : BlockRecord → Prop}
  {first between next : Nat} {sites sites' : List Site}

theorem nil (outer : BlockId → Prop) (hangs : BlockRecord → Prop) (first : Nat) :
    Sited outer hangs first first [] :=
  have none : ∀ site : Site, site ∉ [] := fun _ => List.not_mem_nil
  ⟨rfl, fun _ member => absurd member (none _), .nil, fun _ member => absurd member (none _),
    fun _ member => absurd member (none _), fun _ member => absurd member (none _)⟩

theorem le (sited : Sited outer hangs first next sites) : first ≤ next := by
  rw [sited.count]
  exact Nat.le_add_right _ _

theorem mono (sited : Sited outer hangs first next sites) (more : ∀ id, outer id → outer' id)
    (more' : ∀ block, hangs block → hangs' block) : Sited outer' hangs' first next sites where
  count := sited.count
  range := sited.range
  distinct := sited.distinct
  begins := sited.begins
  parents := fun site member =>
    have ⟨parent, isParent, before, known⟩ := sited.parents site member
    ⟨parent, isParent, before, known.imp_left (more parent)⟩
  arms := fun site member isArm => (sited.arms site member isArm).imp_left (more' site.1)

/-- **Sites and later ones.** What the later ones take as given may be among the earlier ones. -/
theorem append (sited : Sited outer hangs first between sites)
    (sited' : Sited outer' hangs' between next sites')
    (near : ∀ id, outer' id → outer id ∨ ∃ site ∈ sites, site.1.id = id)
    (picked : ∀ block, hangs' block → hangs block ∨ ∃ owner ∈ sites, Selects owner block) :
    Sited outer hangs first next (sites ++ sites') where
  count := by rw [sited'.count, sited.count, List.length_append, Nat.add_assoc]
  range := by
    intro site member
    rcases List.mem_append.mp member with early | late
    · obtain ⟨low, high⟩ := sited.range site early
      exact ⟨low, Nat.lt_of_lt_of_le high sited'.le⟩
    · obtain ⟨low, high⟩ := sited'.range site late
      exact ⟨Nat.le_trans sited.le low, high⟩
  distinct := by
    rw [List.map_append]
    refine sited.distinct.append sited'.distinct fun id early late => ?_
    obtain ⟨site, isSite, rfl⟩ := List.mem_map.mp early
    obtain ⟨site', isSite', same⟩ := List.mem_map.mp late
    have low := (sited.range site isSite).2
    exact absurd (sited'.range site' isSite').1 (Nat.not_le_of_lt (same ▸ low))
  begins := fun site member =>
    (List.mem_append.mp member).elim (sited.begins site) (sited'.begins site)
  parents := by
    intro site member
    rcases List.mem_append.mp member with early | late
    · obtain ⟨parent, isParent, before, known⟩ := sited.parents site early
      refine ⟨parent, isParent, before, known.imp_right ?_⟩
      rintro ⟨other, isOther, same⟩
      exact ⟨other, List.mem_append_left _ isOther, same⟩
    · obtain ⟨parent, isParent, before, known⟩ := sited'.parents site late
      refine ⟨parent, isParent, before, ?_⟩
      rcases known with given | ⟨other, isOther, same⟩
      · refine (near parent given).imp_right ?_
        rintro ⟨other, isOther, same⟩
        exact ⟨other, List.mem_append_left _ isOther, same⟩
      · exact .inr ⟨other, List.mem_append_right _ isOther, same⟩
  arms := by
    intro site member isArm
    rcases List.mem_append.mp member with early | late
    · refine (sited.arms site early isArm).imp_right ?_
      rintro ⟨owner, isOwner, selects⟩
      exact ⟨owner, List.mem_append_left _ isOwner, selects⟩
    · rcases sited'.arms site late isArm with given | ⟨owner, isOwner, selects⟩
      · refine (picked site.1 given).imp_right ?_
        rintro ⟨owner, isOwner, selects⟩
        exact ⟨owner, List.mem_append_left _ isOwner, selects⟩
      · exact .inr ⟨owner, List.mem_append_right _ isOwner, selects⟩

/-- **A block behind those inside it.** It has a smaller number, which these take as given. -/
theorem block {parent : BlockId} {kind : BlockKind} {branch : Option Branch} {node : Node}
    {lastLine : Nat} (inside : Sited (· = first) hangs' (first + 1) next sites)
    (given : outer parent) (before : parent < first)
    (arm : branch.isSome = true → hangs (.fresh first kind branch parent node.firstLine lastLine))
    (picked : ∀ block, hangs' block →
      Selects (.fresh first kind branch parent node.firstLine lastLine, node) block) :
    Sited outer hangs first next
      (sites ++ [(.fresh first kind branch parent node.firstLine lastLine, node)]) where
  count := by rw [inside.count, List.length_append, List.length_singleton]; omega
  range := by
    intro site member
    rcases List.mem_append.mp member with early | own
    · obtain ⟨low, high⟩ := inside.range site early
      exact ⟨Nat.le_of_lt low, high⟩
    · obtain rfl := List.mem_singleton.mp own
      exact ⟨Nat.le_refl _, inside.le⟩
  distinct := by
    rw [List.map_append]
    refine inside.distinct.append (List.nodup_singleton _) fun id early own => ?_
    obtain ⟨site, isSite, rfl⟩ := List.mem_map.mp early
    have same : site.1.id = first := List.mem_singleton.mp own
    exact absurd (inside.range site isSite).1 (by rw [same]; exact Nat.not_succ_le_self first)
  begins := by
    intro site member
    rcases List.mem_append.mp member with early | own
    · exact inside.begins site early
    · obtain rfl := List.mem_singleton.mp own
      rfl
  parents := by
    intro site member
    rcases List.mem_append.mp member with early | own
    · obtain ⟨above, isAbove, less, known⟩ := inside.parents site early
      refine ⟨above, isAbove, less, .inr ?_⟩
      rcases known with rfl | ⟨other, isOther, same⟩
      · exact ⟨_, List.mem_append_right _ List.mem_cons_self, rfl⟩
      · exact ⟨other, List.mem_append_left _ isOther, same⟩
    · obtain rfl := List.mem_singleton.mp own
      exact ⟨parent, rfl, before, .inl given⟩
  arms := by
    intro site member isArm
    rcases List.mem_append.mp member with early | own
    · right
      rcases inside.arms site early isArm with given | ⟨owner, isOwner, selects⟩
      · exact ⟨_, List.mem_append_right _ List.mem_cons_self, picked site.1 given⟩
      · exact ⟨owner, List.mem_append_left _ isOwner, selects⟩
    · obtain rfl := List.mem_singleton.mp own
      exact .inl (arm isArm)

end Sited

/-! ## Sites of walks -/

/-- Whatever numbers a walk starts with, its blocks stand for given trees. -/
def Walk.Lists (outer : BlockId → Prop) (hangs : BlockRecord → Prop) (trees : List Node)
    (walk : Walk) : Prop :=
  ∀ counters, (∀ id, outer id → id < counters.nextBlock) → ∃ sites : List Site,
    (walk counters).1.blocks = sites.map Prod.fst ∧ trees = sites.map Prod.snd ∧
      Sited outer hangs counters.nextBlock (walk counters).2.nextBlock sites

namespace Walk

variable {outer outer' : BlockId → Prop} {hangs hangs' : BlockRecord → Prop}
  {trees trees' : List Node} {walk later : Walk}

theorem lists_nothing : Lists outer hangs [] nothing :=
  fun _ _ => ⟨[], rfl, rfl, .nil _ _ _⟩

theorem lists_found {outline : Outline} (noBlocks : outline.blocks = []) :
    Lists outer hangs [] (found outline) :=
  fun _ _ => ⟨[], noBlocks, rfl, .nil _ _ _⟩

theorem Lists.mono (lists : Lists outer hangs trees walk) (more : ∀ id, outer id → outer' id)
    (more' : ∀ block, hangs block → hangs' block) : Lists outer' hangs' trees walk := by
  intro counters known
  obtain ⟨sites, isBlocks, isTrees, sited⟩ := lists counters fun id given =>
    known id (more id given)
  exact ⟨sites, isBlocks, isTrees, sited.mono more more'⟩

/-- **Two walks in a row**, of which the later takes nothing more as given. -/
theorem Lists.andThen (lists : Lists outer hangs trees walk)
    (lists' : Lists outer hangs trees' later) :
    Lists outer hangs (trees ++ trees') (walk.andThen later) := by
  intro counters known
  obtain ⟨sites, isBlocks, rfl, sited⟩ := lists counters known
  obtain ⟨sites', isBlocks', rfl, sited'⟩ := lists' (walk counters).2 fun id given =>
    Nat.lt_of_lt_of_le (known id given) sited.le
  refine ⟨sites ++ sites', ?_, (List.map_append ..).symm, sited.append sited' (fun _ => .inl)
    fun _ => .inl⟩
  rw [List.map_append, ← isBlocks, ← isBlocks']
  rfl

/-- A walk behind one that lists no blocks. -/
theorem Lists.behind {outline : Outline} (noBlocks : outline.blocks = [])
    (lists : Lists outer hangs trees walk) :
    Lists outer hangs trees ((found outline).andThen walk) :=
  (lists_found noBlocks).andThen lists

theorem lists_withFunction {walk : Nat → Walk}
    (lists : ∀ number, Lists outer hangs trees (walk number)) :
    Lists outer hangs trees (withFunction walk) :=
  fun counters known => lists counters.nextFunction _ known

end Walk

section Blocks

variable {outer : BlockId → Prop} {hangs : BlockRecord → Prop} {trees : List Node}
  {kind : BlockKind} {branch : Option Branch} {parent : BlockId} {node : Node}

/-- **A block and what is inside it.** -/
theorem lists_blockWalk {hangs' : BlockId → BlockRecord → Prop} {inside : BlockId → Walk}
    (lists : ∀ id, Walk.Lists (· = id) (hangs' id) trees (inside id)) (given : outer parent)
    (arm : ∀ id, branch.isSome = true →
      hangs (.fresh id kind branch parent node.firstLine node.lastLine))
    (picked : ∀ id block, hangs' id block →
      Selects (.fresh id kind branch parent node.firstLine node.lastLine, node) block) :
    Walk.Lists outer hangs (trees ++ [node]) (blockWalk parent node kind branch inside) := by
  intro counters known
  obtain ⟨sites, isBlocks, rfl, sited⟩ := lists counters.nextBlock
    { counters with nextBlock := counters.nextBlock + 1 } fun id same => same ▸ Nat.lt_succ_self _
  let own := BlockRecord.fresh counters.nextBlock kind branch parent node.firstLine node.lastLine
  refine ⟨sites ++ [(own, node)], ?_, by rw [List.map_append]; rfl,
    sited.block given (known parent given) (arm _) (picked _)⟩
  rw [List.map_append, ← isBlocks]
  rfl

/-- A block that is no arm, and inside which no arm hangs off it. -/
theorem lists_plainBlock {inside : BlockId → Walk}
    (lists : ∀ id, Walk.Lists (· = id) (fun _ => False) trees (inside id)) (given : outer parent) :
    Walk.Lists outer hangs (trees ++ [node]) (blockWalk parent node kind none inside) :=
  lists_blockWalk lists given (fun _ isArm => absurd isArm Bool.false_ne_true)
    fun _ _ never => never.elim

/-- An arm, inside which no arm hangs off it. -/
theorem lists_armBlock {branch : Branch} {inside : BlockId → Walk}
    (lists : ∀ id, Walk.Lists (· = id) (fun _ => False) trees (inside id)) (given : outer parent)
    (hanging : ∀ id,
      hangs (.fresh id .conditional (some branch) parent node.firstLine node.lastLine)) :
    Walk.Lists outer hangs (trees ++ [node])
      (blockWalk parent node .conditional (some branch) inside) :=
  lists_blockWalk lists given (fun id _ => hanging id) fun _ _ never => never.elim

theorem lists_functionWalk {inside : BlockId → Walk} (name : Option String) (kind : FunctionKind)
    (lists : ∀ id, Walk.Lists (· = id) (fun _ => False) trees (inside id)) (given : outer parent) :
    Walk.Lists outer hangs (trees ++ [node]) (functionWalk parent node name kind inside) :=
  lists_plainBlock (fun id => Walk.lists_withFunction fun _ => (lists id).behind rfl) given

/-- **A block and what is inside it, and then what takes it as given.** -/
theorem lists_blockBefore {outer' : BlockId → BlockId → Prop}
    {hangs' later' : BlockId → BlockRecord → Prop} {trees' : List Node}
    {header : BlockId → Outline} {inside later : BlockId → Walk} {lastLine : Nat}
    (noBlocks : ∀ id, (header id).blocks = [])
    (lists : ∀ id, Walk.Lists (· = id) (hangs' id) trees (inside id))
    (lists' : ∀ id, Walk.Lists (outer' id) (later' id) trees' (later id)) (given : outer parent)
    (near : ∀ id other, outer' id other → outer other ∨ other = id)
    (arm : ∀ id, branch.isSome = true →
      hangs (.fresh id kind branch parent node.firstLine lastLine))
    (picked : ∀ id block, hangs' id block →
      Selects (.fresh id kind branch parent node.firstLine lastLine, node) block)
    (pickedLater : ∀ id block, later' id block → hangs block ∨
      Selects (.fresh id kind branch parent node.firstLine lastLine, node) block) :
    Walk.Lists outer hangs ((trees ++ [node]) ++ trees')
      (.withBlock fun id => .andThen (.found (header id)) (.andThen (inside id)
        (.andThen (.found (blockOf id kind branch parent node.firstLine lastLine))
          (later id)))) := by
  intro counters known
  let own := BlockRecord.fresh counters.nextBlock kind branch parent node.firstLine lastLine
  obtain ⟨sites, isBlocks, rfl, sited⟩ := lists counters.nextBlock
    { counters with nextBlock := counters.nextBlock + 1 } fun id same => same ▸ Nat.lt_succ_self _
  have whole : Sited outer hangs counters.nextBlock _ (sites ++ [(own, node)]) :=
    sited.block given (known parent given) (arm _) (picked _)
  have isOwn : (own, node) ∈ sites ++ [(own, node)] :=
    List.mem_append_right _ List.mem_cons_self
  obtain ⟨sites', isBlocks', rfl, sited'⟩ := lists' counters.nextBlock
    (inside counters.nextBlock { counters with nextBlock := counters.nextBlock + 1 }).2
    fun id isOuter => by
      rcases near _ id isOuter with before | rfl
      · exact Nat.lt_of_lt_of_le (known id before) whole.le
      · exact (whole.range _ isOwn).2
  refine ⟨(sites ++ [(own, node)]) ++ sites', ?_, ?_, whole.append sited' (fun id isOuter => ?_)
    fun block hanging => ?_⟩
  · rw [List.map_append, List.map_append, ← isBlocks, ← isBlocks', List.append_assoc]
    exact congrArg (· ++ _) (noBlocks counters.nextBlock)
  · rw [List.map_append, List.map_append]
    rfl
  · exact (near _ id isOuter).imp_right fun same => ⟨_, isOwn, same.symm⟩
  · exact (pickedLater _ block hanging).imp_right fun selects => ⟨_, isOwn, selects⟩

end Blocks

section Walking

set_option linter.unusedSectionVars false

variable {text : List Char} (source : String)

/-- No arm hangs off what was there before. -/
abbrev HangsNot : BlockRecord → Prop := fun _ => False

/-- Whether a block hangs off one of two others and does not begin before a line. -/
def HangsOff (ifId owner : BlockId) (limit : Nat) (block : BlockRecord) : Prop :=
  (block.parentId = some ifId ∨ block.parentId = some owner) ∧ limit ≤ block.startLine

/-- A number in a list is not above the greatest one. -/
theorem le_max?_getD {numbers : List Nat} {number : Nat} (member : number ∈ numbers)
    (default : Nat) : number ≤ numbers.max?.getD default := by
  obtain ⟨greatest, isGreatest⟩ : ∃ greatest, numbers.max? = some greatest :=
    Option.isSome_iff_exists.mp (List.isSome_max?_of_mem member)
  rw [isGreatest, Option.getD_some]
  exact (List.max?_eq_some_iff.mp isGreatest).2 _ member

/-- No arm behind the first ends below the arms of its `if` statement. -/
theorem le_chainEnd {node arm : Node} (member : arm ∈ node.children)
    (isArm : (arm.isConstruct .elseIfArm || arm.isConstruct .elseArm) = true) :
    arm.lastLine ≤ chainEnd node :=
  le_max?_getD (List.mem_map_of_mem (List.mem_filter.mpr ⟨member, isArm⟩)) _

mutual

/-- **The sites of a walk over a tree** all hang together, and no arm is left over. -/
theorem lists_walk (lent : Option String) (parent : BlockId) : (node : Node) →
    Placed text node → Conditioned node →
    Walk.Lists (· = parent) HangsNot (blockTrees node) (walk source lent parent node)
  | .leaf _ _, _, _ => by
      rw [walk, blockTrees]
      exact Walk.lists_nothing
  | .inner construct span children, placed, conditioned => by
      have placed' : ∀ child ∈ children, Placed text child := fun _ member =>
        placed.of_mem_children member
      have conditioned' : ∀ child ∈ children, Conditioned child := fun _ member =>
        conditioned.of_mem_children member
      unfold walk
      simp only
      split
      · exact lists_walkStatements parent children placed' conditioned'
      · exact lists_walkStatements parent children placed' conditioned'
      · obtain ⟨condition, isCondition, starts, lines, ends, before⟩ :=
          conditioned.exists_condition_before placed rfl
        have chain : ∀ arm ∈ children, arm.isConstruct .elseIfArm = true →
            arm.lastLine ≤ chainEnd (.inner .ifStatement span children) :=
          fun _ member isArm => le_chainEnd member (by rw [isArm]; rfl)
        have arms : ∀ id, Walk.Lists (· = id) (HangsOff id id condition.lastLine)
            (armTrees children)
            (walkArms source id (chainEnd (.inner .ifStatement span children)) id children) :=
          fun id => (lists_walkArms id _ id condition.lastLine children placed' conditioned'
            placed.pairwise_children before chain).mono (fun _ same => (or_self _).mp same)
              fun _ hanging => hanging
        exact lists_blockWalk arms rfl (fun _ isArm => absurd isArm Bool.false_ne_true)
          fun id block hanging => ⟨(or_self _).mp hanging.1, rfl, rfl, condition, isCondition,
            starts, lines, ends, hanging.2⟩
      · exact lists_functionWalk _ _
          (fun id => lists_walkAll none id children placed' conditioned') rfl
      · exact lists_functionWalk _ _
          (fun id => lists_walkAll none id children placed' conditioned') rfl
      · refine Walk.Lists.behind ?_ (lists_walkAll none parent children placed' conditioned')
        rw [requiredModule]
        split
        · split <;> rfl
        · rfl
      · rename_i notIf notFunction notFunction' _
        split
        · rename_i kind isLoop
          rw [blockTrees_of_loop isLoop]
          refine lists_plainBlock (fun id => Walk.Lists.behind ?_
            (lists_walkAll none id children placed' conditioned')) rfl
          split
          · cases (Node.inner construct span children).constituents.getLast? <;> rfl
          · rfl
        · rename_i notLoop
          rw [blockTrees_of_not_loop notLoop notIf notFunction notFunction']
          exact lists_walkAll _ parent children placed' conditioned'

theorem lists_walkAll (lent : Option String) (parent : BlockId) : (nodes : List Node) →
    (∀ node ∈ nodes, Placed text node) → (∀ node ∈ nodes, Conditioned node) →
    Walk.Lists (· = parent) HangsNot (blockTreesAll nodes) (walkAll source lent parent nodes)
  | [], _, _ => by
      rw [walkAll, blockTreesAll]
      exact Walk.lists_nothing
  | node :: rest, placed, conditioned => by
      rw [walkAll, blockTreesAll]
      exact (lists_walk lent parent node (placed node List.mem_cons_self)
        (conditioned node List.mem_cons_self)).andThen (lists_walkAll lent parent rest
          (fun other member => placed other (List.mem_cons_of_mem _ member))
          fun other member => conditioned other (List.mem_cons_of_mem _ member))

theorem lists_walkStatements (parent : BlockId) : (nodes : List Node) →
    (∀ node ∈ nodes, Placed text node) → (∀ node ∈ nodes, Conditioned node) →
    Walk.Lists (· = parent) HangsNot (blockTreesAll nodes) (walkStatements source parent nodes)
  | [], _, _ => by
      rw [walkStatements, blockTreesAll]
      exact Walk.lists_nothing
  | node :: rest, placed, conditioned => by
      rw [walkStatements, blockTreesAll]
      refine Walk.Lists.behind ?_ ((lists_walk none parent node (placed node List.mem_cons_self)
        (conditioned node List.mem_cons_self)).andThen (lists_walkStatements parent rest
          (fun other member => placed other (List.mem_cons_of_mem _ member))
          fun other member => conditioned other (List.mem_cons_of_mem _ member)))
      rw [statementStart]
      split <;> rfl

/-- An arm hangs off the `if` statement or off the last conditional before it. -/
theorem lists_walkArms (ifId : BlockId) (endOfChain : Nat) (owner : BlockId) (limit : Nat) :
    (nodes : List Node) → (∀ node ∈ nodes, Placed text node) →
    (∀ node ∈ nodes, Conditioned node) →
    (nodes.Pairwise fun front behind => front.lastLine ≤ behind.firstLine) →
    (∀ arm ∈ nodes, arm.isArm = true → limit ≤ arm.firstLine) →
    (∀ arm ∈ nodes, arm.isConstruct .elseIfArm = true → arm.lastLine ≤ endOfChain) →
    Walk.Lists (fun id => id = ifId ∨ id = owner) (HangsOff ifId owner limit) (armTrees nodes)
      (walkArms source ifId endOfChain owner nodes)
  | [], _, _, _, _, _ => by
      rw [walkArms, armTrees]
      exact Walk.lists_nothing
  | .leaf kind span :: rest, placed, conditioned, ordered, after, chain => by
      rw [walkArms, armTrees]
      · exact ((lists_walk none ifId _ (placed _ List.mem_cons_self)
          (conditioned _ List.mem_cons_self)).mono (fun _ => .inl)
            fun _ never => never.elim).andThen
            (lists_walkArms ifId endOfChain owner limit rest
              (fun other member => placed other (List.mem_cons_of_mem _ member))
              (fun other member => conditioned other (List.mem_cons_of_mem _ member))
              (List.pairwise_cons.mp ordered).2
              (fun arm member => after arm (List.mem_cons_of_mem _ member))
              fun arm member => chain arm (List.mem_cons_of_mem _ member))
      all_goals exact fun _ _ same => nomatch same
  | .inner construct span inside :: rest, placed, conditioned, ordered, after, chain => by
      have itself := placed _ List.mem_cons_self
      have itself' := conditioned _ List.mem_cons_self
      have parts : ∀ child ∈ inside, Placed text child := fun _ member =>
        itself.of_mem_children member
      have parts' : ∀ child ∈ inside, Conditioned child := fun _ member =>
        itself'.of_mem_children member
      have lines := itself.located.lines.2
      have following := (List.pairwise_cons.mp ordered).1
      have after' : ∀ arm ∈ rest, arm.isArm = true → limit ≤ arm.firstLine := fun arm member =>
        after arm (List.mem_cons_of_mem _ member)
      have later := fun owner limit after => lists_walkArms ifId endOfChain owner limit rest
        (fun other member => placed other (List.mem_cons_of_mem _ member))
        (fun other member => conditioned other (List.mem_cons_of_mem _ member))
        (List.pairwise_cons.mp ordered).2 after
        fun arm member => chain arm (List.mem_cons_of_mem _ member)
      by_cases isBlock : construct = .block
      · subst isBlock
        rw [walkArms, armTrees]
        refine Walk.Lists.andThen ?_ (later owner limit after')
        exact lists_armBlock (fun id => lists_walkStatements id inside parts parts') (.inl rfl)
          fun id => ⟨.inl rfl, after _ List.mem_cons_self rfl⟩
      by_cases isElseIf : construct = .elseIfArm
      · subst isElseIf
        obtain ⟨condition, isCondition, starts, lines', ends, before⟩ :=
          itself'.exists_condition_before itself rfl
        have ends' := chain _ List.mem_cons_self rfl
        have begins := after _ List.mem_cons_self rfl
        rw [walkArms, armTrees]
        -- what follows hangs off this arm, which ends below its condition
        refine lists_blockBefore (fun id => ?_)
          (fun id => lists_walkArmParts id condition.lastLine inside parts parts' before)
          (fun id => later id _ fun arm member _ => following arm member) (.inr rfl)
          (fun id other known => ?_)
          (fun id _ => ⟨.inr rfl, begins⟩)
          (fun id block hanging => ⟨(or_self _).mp hanging.1, rfl, rfl, condition, isCondition,
            starts, lines', Nat.le_trans ends ends', hanging.2⟩)
          fun id block hanging => ?_
        · rw [Node.condition?] at isCondition
          rw [isCondition]
          rfl
        · exact known.imp .inl fun same => same
        · obtain ⟨onIf | onArm, below⟩ := hanging
          · exact .inl ⟨.inl onIf, Nat.le_trans begins (Nat.le_trans lines below)⟩
          · exact .inr ⟨onArm, rfl, rfl, condition, isCondition, starts, lines',
              Nat.le_trans ends ends', Nat.le_trans ends below⟩
      by_cases isElse : construct = .elseArm
      · subst isElse
        rw [walkArms, armTrees]
        refine Walk.Lists.andThen ?_ (later owner limit after')
        exact lists_armBlock (fun id => lists_walkAll none id inside parts parts') (.inr rfl)
          fun id => ⟨.inr rfl, after _ List.mem_cons_self rfl⟩
      rw [walkArms, armTrees]
      · exact ((lists_walk none ifId _ itself itself').mono (fun _ => .inl)
          fun _ never => never.elim).andThen (later owner limit after')
      all_goals
        intro _ _ same
        obtain ⟨same, -, -⟩ := Node.inner.inj same
        contradiction

theorem lists_walkArmParts (id : BlockId) (limit : Nat) : (nodes : List Node) →
    (∀ node ∈ nodes, Placed text node) → (∀ node ∈ nodes, Conditioned node) →
    (∀ arm ∈ nodes, arm.isArm = true → limit ≤ arm.firstLine) →
    Walk.Lists (· = id) (HangsOff id id limit) (armPartTrees nodes) (walkArmParts source id nodes)
  | [], _, _, _ => by
      rw [walkArmParts, armPartTrees]
      exact Walk.lists_nothing
  | .leaf kind span :: rest, placed, conditioned, after => by
      rw [walkArmParts, armPartTrees]
      · exact ((lists_walk none id _ (placed _ List.mem_cons_self)
          (conditioned _ List.mem_cons_self)).mono (fun _ same => same)
            fun _ never => never.elim).andThen
            (lists_walkArmParts id limit rest
              (fun other member => placed other (List.mem_cons_of_mem _ member))
              (fun other member => conditioned other (List.mem_cons_of_mem _ member))
              fun arm member => after arm (List.mem_cons_of_mem _ member))
      all_goals exact fun _ _ same => nomatch same
  | .inner construct span inside :: rest, placed, conditioned, after => by
      have itself := placed _ List.mem_cons_self
      have itself' := conditioned _ List.mem_cons_self
      have later := lists_walkArmParts id limit rest
        (fun other member => placed other (List.mem_cons_of_mem _ member))
        (fun other member => conditioned other (List.mem_cons_of_mem _ member))
        fun arm member => after arm (List.mem_cons_of_mem _ member)
      by_cases isBlock : construct = .block
      · subst isBlock
        rw [walkArmParts, armPartTrees]
        refine Walk.Lists.andThen ?_ later
        exact lists_armBlock (fun inner => lists_walkStatements inner inside
          (fun _ member => itself.of_mem_children member)
          fun _ member => itself'.of_mem_children member) rfl
          fun _ => ⟨.inl rfl, after _ List.mem_cons_self rfl⟩
      rw [walkArmParts, armPartTrees]
      · exact ((lists_walk none id _ itself itself').mono (fun _ same => same)
          fun _ never => never.elim).andThen later
      all_goals
        intro _ _ same
        obtain ⟨same, -, -⟩ := Node.inner.inj same
        contradiction

end

end Walking

/-! ## The sites of a source -/

section OfTree

variable {source : String} {tree : Node}

/-- **The sites of a source that parses** hang together, and nothing but the main chunk is taken as
given. -/
theorem sited_of_parse (parsed : parse? source = some tree) :
    (sites source tree).map Prod.fst = (ofTree source tree).blocks ∧
      ∃ next, Sited (· = BlockId.root) HangsNot 1 next (sites source tree) := by
  obtain ⟨before, text, asides, body, span, isSource, rfl, all, tiled, proper⟩ :=
    exists_tiled_of_parse parsed
  have placed : ∀ node ∈ body, Placed source.toList node := fun node member =>
    placed_of_mem isSource tiled member (proper node member).1
  have conditioned : ∀ node ∈ body, Conditioned node := fun node member =>
    (conditioned_of_parse parsed).of_mem_children (List.mem_append_right asides member)
  have isOutline := ofTree_chunk source all span body
  obtain ⟨found, isBlocks, isTrees, sited⟩ := lists_walkStatements source BlockId.root body placed
    conditioned ⟨1, 1⟩ fun id same => same ▸ Nat.zero_lt_one
  have same : sites source (.inner .chunk span (asides ++ body)) = found := by
    rw [sites, isOutline, blockTrees_chunk all, isBlocks, isTrees]
    exact (List.zip_of_prod rfl rfl).symm
  rw [same, isOutline, isBlocks]
  exact ⟨rfl, _, sited⟩

/-- The trees of sites lie in the source. -/
theorem placed_of_mem_sites (parsed : parse? source = some tree) {site : Site}
    (member : site ∈ sites source tree) : Placed source.toList site.2 := by
  obtain ⟨before, text, asides, body, span, isSource, rfl, all, tiled, proper⟩ :=
    exists_tiled_of_parse parsed
  have isTree := (List.of_mem_zip (a := site.1) (b := site.2) member).2
  rw [blockTrees_chunk all] at isTree
  refine holds_blockTreesAll (fun _ placed _ member => placed.of_mem_children member) body ?_ _
    isTree
  exact fun node isNode => placed_of_mem isSource tiled isNode (proper node isNode).1

end OfTree

end Outline

end LuaCoverage
