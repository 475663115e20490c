import LuaCoverage.Proofs.Analysis.BlockSites

/-!
# How an outline is laid out

A walk over a tree takes numbers and lists what it finds in one pass, and what it finds inside a
block it lists between the header of the block and its record. `Layout` is the shape that this gives
an outline: which parts stand in which order, on which lines, under which blocks, and with which
numbers. Every walk over a placed tree has it (`lays_walk`), and so has the outline of every source
that parses (`layout_of_parse`). What follows from the shape is proved by induction on it, apart
from the tree.

Here this is that blocks take the numbers that were handed out (`Layout.block_range`), that
everything lies on the lines of the walk (`Layout.block_lines`), and that a block lies on the lines
of its parent (`Layout.exists_scope`).
-/

set_option autoImplicit false

namespace LuaCoverage.Outline

open Syntax

/-- A block that others may hang off: its number and its lines. -/
structure Scope where
  id : BlockId
  firstLine : Nat
  lastLine : Nat

/-- The scope that a block on the lines of a tree is. -/
abbrev scopeAt (node : Node) (id : BlockId) : Scope := ⟨id, node.firstLine, node.lastLine⟩

/-- The scope that a block is. -/
def scopeOf (block : BlockRecord) : Scope := ⟨block.id, block.startLine, block.endLine⟩

/-- Whether a scope is one of some scopes, or a block of an outline. -/
def Scope.Known (scopes : Scope → Prop) (outline : Outline) (scope : Scope) : Prop :=
  scopes scope ∨ ∃ block ∈ outline.blocks, scopeOf block = scope

namespace Scope.Known

variable {scopes : Scope → Prop} {scope : Scope} {own : BlockRecord} {first later : Outline}

theorem before (known : Known scopes first scope) : Known scopes (first.append later) scope :=
  known.imp_right fun ⟨block, found, same⟩ => ⟨block, List.mem_append_left _ found, same⟩

theorem behind (known : Known scopes later scope) : Known scopes (first.append later) scope :=
  known.imp_right fun ⟨block, found, same⟩ => ⟨block, List.mem_append_right _ found, same⟩

/-- What is known inside a block that is listed behind its inside. -/
theorem ofInside (isOwn : own ∈ later.blocks) (known : Known (· = scopeOf own) first scope) :
    Known scopes (first.append later) scope := by
  rcases known with rfl | found
  · exact .inr ⟨own, List.mem_append_right _ isOwn, rfl⟩
  · exact before (.inr found)

/-- What is known behind a block that further ones may hang off. -/
theorem ofBehind (isOwn : own ∈ first.blocks)
    (known : Known (fun other => scopes other ∨ other = scopeOf own) later scope) :
    Known scopes (first.append later) scope := by
  rcases known with (known | rfl) | found
  · exact .inl known
  · exact .inr ⟨own, List.mem_append_left _ isOwn, rfl⟩
  · exact behind (.inr found)

end Scope.Known

/-- The shape of an outline that a walk finds on some lines, under some scopes, between two states
of the counters. -/
inductive Layout :
    (Scope → Prop) → Nat → Nat → Counters → Outline → Counters → Prop where
  /-- Nothing that is numbered or has a place. -/
  | aside {scopes : Scope → Prop} {low high : Nat} {counters : Counters} {outline : Outline}
      (blocks : outline.blocks = []) (functions : outline.functions = [])
      (statements : outline.statements = []) (conditions : outline.conditions = [])
      (lines : low ≤ high) : Layout scopes low high counters outline counters
  | andThen {scopes : Scope → Prop} {low middle high : Nat} {counters between final : Counters}
      {outline outline' : Outline} (first : Layout scopes low middle counters outline between)
      (later : Layout scopes middle high between outline' final) :
      Layout scopes low high counters (outline.append outline') final
  /-- Part of the lines. -/
  | within {scopes : Scope → Prop} {low low' high high' : Nat} {counters final : Counters}
      {outline : Outline} (inside : Layout scopes low' high' counters outline final)
      (starts : low ≤ low') (ends : high' ≤ high) : Layout scopes low high counters outline final
  /-- A statement, and what is inside it. -/
  | statement {scopes : Scope → Prop} {low high : Nat} {counters final : Counters}
      {outline : Outline} {scope : Scope} (byte : Nat) (known : scopes scope)
      (nests : scope.firstLine ≤ low ∧ high ≤ scope.lastLine)
      (inside : Layout scopes low high counters outline final) :
      Layout scopes low high counters
        (append { statements := [⟨low, high, byte, scope.id⟩] } outline) final
  /-- A condition, and what stands before it, in it and behind it. -/
  | condition {scopes : Scope → Prop} {low first last high : Nat} {counters final : Counters}
      {outline : Outline} {scope : Scope} (byte endByte : Nat) (known : scopes scope)
      (nests : scope.firstLine ≤ first ∧ last ≤ scope.lastLine)
      (starts : low ≤ first) (ends : last ≤ high)
      (inside : Layout scopes low high counters outline final)
      (apart : ∀ block ∈ outline.blocks, block.endLine ≤ first ∨ last ≤ block.startLine ∨
        first ≤ block.startLine ∧ block.endLine ≤ last) :
      Layout scopes low high counters
        (append { conditions := [⟨first, last, byte, endByte, scope.id⟩] } outline) final
  /-- A block that is not that of a function, what is inside it, and what may hang off it. -/
  | block {scopes : Scope → Prop} {low middle last high : Nat} {counters between final : Counters}
      {outline outline' : Outline} {scope : Scope} {kind : BlockKind} (branch : Option Branch)
      (plain : kind ≠ .function) (known : scopes scope) (starts : scope.firstLine ≤ low)
      (lines : low ≤ last) (ends : last ≤ scope.lastLine) (reach : middle ≤ last)
      (bound : last ≤ high)
      (inside : Layout (· = ⟨counters.nextBlock, low, last⟩) low middle
        { counters with nextBlock := counters.nextBlock + 1 } outline between)
      (later : Layout (fun other => scopes other ∨ other = ⟨counters.nextBlock, low, last⟩) middle
        high between outline' final) :
      Layout scopes low high counters
        ((outline.append (blockOf counters.nextBlock kind branch scope.id low last)).append
          outline')
        final
  /-- A function, and what is inside it. -/
  | function {scopes : Scope → Prop} {low high : Nat} {counters final : Counters}
      {outline : Outline} {scope : Scope} (name : Option String) (kind : FunctionKind)
      (bodies : List FunctionBody) (known : scopes scope) (starts : scope.firstLine ≤ low)
      (lines : low ≤ high) (ends : high ≤ scope.lastLine)
      (inside : Layout (· = ⟨counters.nextBlock, low, high⟩) low high
        ⟨counters.nextBlock + 1, counters.nextFunction + 1⟩ outline final) :
      Layout scopes low high counters
        ((append { functions := [⟨counters.nextFunction, name, kind, low, high, false, 0⟩]
                   bodies := bodies } outline).append
          (blockOf counters.nextBlock .function none scope.id low high))
        final

namespace Layout

variable {scopes : Scope → Prop} {low high : Nat} {counters final : Counters} {outline : Outline}

/-! ## Numbers and lines -/

theorem counters_le (layout : Layout scopes low high counters outline final) :
    counters.nextBlock ≤ final.nextBlock ∧ counters.nextFunction ≤ final.nextFunction := by
  induction layout with
  | aside => exact ⟨Nat.le_refl _, Nat.le_refl _⟩
  | andThen first later ih ih' =>
      exact ⟨Nat.le_trans ih.1 ih'.1, Nat.le_trans ih.2 ih'.2⟩
  | within inside starts ends ih => exact ih
  | statement byte known nests inside ih => exact ih
  | condition byte endByte known nests starts ends inside apart ih => exact ih
  | block branch plain known starts lines ends reach bound inside later ih ih' =>
      exact ⟨Nat.le_trans (Nat.le_of_succ_le ih.1) ih'.1, Nat.le_trans ih.2 ih'.2⟩
  | function name kind bodies known starts lines ends inside ih =>
      exact ⟨Nat.le_of_succ_le ih.1, Nat.le_of_succ_le ih.2⟩

/-- **Blocks take the numbers** that were handed out. -/
theorem block_range (layout : Layout scopes low high counters outline final) :
    ∀ block ∈ outline.blocks, counters.nextBlock ≤ block.id ∧ block.id < final.nextBlock := by
  induction layout with
  | aside blocks => exact fun _ member => absurd (blocks ▸ member) List.not_mem_nil
  | andThen first later ih ih' =>
      intro block member
      rcases List.mem_append.mp member with early | late
      · exact ⟨(ih block early).1, Nat.lt_of_lt_of_le (ih block early).2 later.counters_le.1⟩
      · exact ⟨Nat.le_trans first.counters_le.1 (ih' block late).1, (ih' block late).2⟩
  | within inside starts ends ih => exact ih
  | statement byte known nests inside ih => exact ih
  | condition byte endByte known nests starts ends inside apart ih => exact ih
  | block branch plain known starts lines ends reach bound inside later ih ih' =>
      have opened := inside.counters_le.1
      have closed := later.counters_le.1
      intro block member
      rcases List.mem_append.mp member with early | late
      · rcases List.mem_append.mp early with early | own
        · exact ⟨Nat.le_of_succ_le (ih block early).1, Nat.lt_of_lt_of_le (ih block early).2 closed⟩
        · obtain rfl := List.mem_singleton.mp own
          exact ⟨Nat.le_refl _, Nat.lt_of_lt_of_le opened closed⟩
      · exact ⟨Nat.le_trans (Nat.le_of_succ_le opened) (ih' block late).1, (ih' block late).2⟩
  | function name kind bodies known starts lines ends inside ih =>
      intro block member
      rcases List.mem_append.mp member with early | own
      · exact ⟨Nat.le_of_succ_le (ih block early).1, (ih block early).2⟩
      · obtain rfl := List.mem_singleton.mp own
        exact ⟨Nat.le_refl _, inside.counters_le.1⟩

theorem lines_le (layout : Layout scopes low high counters outline final) : low ≤ high := by
  induction layout with
  | aside blocks functions statements conditions lines => exact lines
  | andThen first later ih ih' => exact Nat.le_trans ih ih'
  | within inside starts ends ih => exact Nat.le_trans starts (Nat.le_trans ih ends)
  | statement byte known nests inside ih => exact ih
  | condition byte endByte known nests starts ends inside apart ih => exact ih
  | block branch plain known starts lines ends reach bound inside later ih ih' =>
      exact Nat.le_trans lines bound
  | function name kind bodies known starts lines ends inside ih => exact lines

/-- **Blocks lie on the lines of the walk** that found them. -/
theorem block_lines (layout : Layout scopes low high counters outline final) :
    ∀ block ∈ outline.blocks,
      low ≤ block.startLine ∧ block.startLine ≤ block.endLine ∧ block.endLine ≤ high := by
  induction layout with
  | aside blocks => exact fun _ member => absurd (blocks ▸ member) List.not_mem_nil
  | andThen first later ih ih' =>
      intro block member
      rcases List.mem_append.mp member with early | late
      · obtain ⟨starts, lines, ends⟩ := ih block early
        exact ⟨starts, lines, Nat.le_trans ends later.lines_le⟩
      · obtain ⟨starts, lines, ends⟩ := ih' block late
        exact ⟨Nat.le_trans first.lines_le starts, lines, ends⟩
  | within inside starts ends ih =>
      intro block member
      obtain ⟨starts', lines, ends'⟩ := ih block member
      exact ⟨Nat.le_trans starts starts', lines, Nat.le_trans ends' ends⟩
  | statement byte known nests inside ih => exact ih
  | condition byte endByte known nests starts ends inside apart ih => exact ih
  | block branch plain known starts lines ends reach bound inside later ih ih' =>
      intro block member
      rcases List.mem_append.mp member with early | late
      · rcases List.mem_append.mp early with early | own
        · obtain ⟨starts', lines', ends'⟩ := ih block early
          exact ⟨starts', lines', Nat.le_trans ends' later.lines_le⟩
        · obtain rfl := List.mem_singleton.mp own
          exact ⟨Nat.le_refl _, lines, bound⟩
      · obtain ⟨starts', lines', ends'⟩ := ih' block late
        exact ⟨Nat.le_trans inside.lines_le starts', lines', ends'⟩
  | function name kind bodies known starts lines ends inside ih =>
      intro block member
      rcases List.mem_append.mp member with early | own
      · exact ih block early
      · obtain rfl := List.mem_singleton.mp own
        exact ⟨Nat.le_refl _, lines, Nat.le_refl _⟩

/-- **A block lies on the lines of its parent**, which is one of the scopes or was found as well. -/
theorem exists_scope (layout : Layout scopes low high counters outline final) :
    ∀ block ∈ outline.blocks, ∃ scope : Scope, scope.Known scopes outline ∧
      block.parentId = some scope.id ∧ scope.firstLine ≤ block.startLine ∧
      block.endLine ≤ scope.lastLine := by
  induction layout with
  | aside blocks => exact fun _ member => absurd (blocks ▸ member) List.not_mem_nil
  | andThen first later ih ih' =>
      intro block member
      rcases List.mem_append.mp member with early | late
      · exact (ih block early).imp fun _ holds => holds.imp_left .before
      · exact (ih' block late).imp fun _ holds => holds.imp_left .behind
  | within inside starts ends ih => exact ih
  | statement byte known nests inside ih => exact ih
  | condition byte endByte known nests starts ends inside apart ih => exact ih
  | @block scopes low middle last high counters between final outline outline' scope kind branch
      plain known starts lines ends reach bound inside later ih ih' =>
      let own := BlockRecord.fresh counters.nextBlock kind branch scope.id low last
      have isOwn : own ∈ (blockOf counters.nextBlock kind branch scope.id low last).blocks :=
        List.mem_cons_self
      intro block member
      rcases List.mem_append.mp member with early | late
      · rcases List.mem_append.mp early with early | isBlock
        · exact (ih block early).imp fun _ holds => holds.imp_left fun known =>
            (Scope.Known.ofInside isOwn known).before
        · obtain rfl := List.mem_singleton.mp isBlock
          exact ⟨scope, .inl known, rfl, starts, ends⟩
      · exact (ih' block late).imp fun _ holds => holds.imp_left <|
          Scope.Known.ofBehind (List.mem_append_right _ isOwn)
  | @function scopes low high counters final outline scope name kind bodies known starts lines ends
      inside ih =>
      let own := BlockRecord.fresh counters.nextBlock .function none scope.id low high
      have isOwn : own ∈ (blockOf counters.nextBlock .function none scope.id low high).blocks :=
        List.mem_cons_self
      intro block member
      rcases List.mem_append.mp member with early | isBlock
      · exact (ih block early).imp fun _ holds => holds.imp_left fun known =>
          Scope.Known.ofInside isOwn known.behind
      · obtain rfl := List.mem_singleton.mp isBlock
        exact ⟨scope, .inl known, rfl, starts, ends⟩

end Layout

/-! ## Walks -/

/-- Whatever numbers a walk starts with, what it finds has the shape of a layout. -/
def Walk.Lays (scopes : Scope → Prop) (low high : Nat) (walk : Walk) : Prop :=
  ∀ counters, Layout scopes low high counters (walk counters).1 (walk counters).2

/-- Whatever numbers a walk starts with, every block that it finds lies on the lines of one of some
trees. -/
def Walk.Covers (nodes : List Node) (walk : Walk) : Prop :=
  ∀ counters, ∀ block ∈ (walk counters).1.blocks, ∃ node ∈ nodes,
    node.firstLine ≤ block.startLine ∧ block.endLine ≤ node.lastLine

theorem append_assoc (first second third : Outline) :
    (first.append second).append third = first.append (second.append third) := by
  simp only [append, List.append_assoc]

theorem append_empty (outline : Outline) : outline.append {} = outline := by
  simp only [append, List.append_nil]

namespace Walk

variable {scopes : Scope → Prop} {low middle high : Nat} {walk later : Walk} {node : Node}
  {nodes nodes' : List Node}

theorem lays_nothing (lines : low ≤ high) : Lays scopes low high nothing :=
  fun _ => .aside rfl rfl rfl rfl lines

theorem Lays.andThen (lays : Lays scopes low middle walk) (lays' : Lays scopes middle high later) :
    Lays scopes low high (walk.andThen later) :=
  fun counters => .andThen (lays counters) (lays' (walk counters).2)

/-- A walk behind something without numbers and places. -/
theorem Lays.behind {outline : Outline} (lays : Lays scopes low high walk)
    (blocks : outline.blocks = []) (functions : outline.functions = [])
    (statements : outline.statements = []) (conditions : outline.conditions = []) :
    Lays scopes low high ((found outline).andThen walk) :=
  fun counters => .andThen (.aside blocks functions statements conditions (Nat.le_refl _))
    (lays counters)

theorem Lays.within {low' high' : Nat} (lays : Lays scopes low' high' walk) (starts : low ≤ low')
    (ends : high' ≤ high) : Lays scopes low high walk :=
  fun counters => .within (lays counters) starts ends

theorem covers_nothing : Covers [] nothing := fun _ _ none => absurd none List.not_mem_nil

theorem Lays.covers (lays : Lays scopes node.firstLine node.lastLine walk) :
    Covers [node] walk := fun counters block member =>
  have lines := (lays counters).block_lines block member
  ⟨node, List.mem_cons_self, lines.1, lines.2.2⟩

theorem Covers.andThen (covers : Covers nodes walk) (covers' : Covers nodes' later) :
    Covers (nodes ++ nodes') (walk.andThen later) := by
  intro counters block member
  rcases List.mem_append.mp member with early | late
  · obtain ⟨node, isNode, lines⟩ := covers counters block early
    exact ⟨node, List.mem_append_left _ isNode, lines⟩
  · obtain ⟨node, isNode, lines⟩ := covers' _ block late
    exact ⟨node, List.mem_append_right _ isNode, lines⟩

/-- A statement in front of the walk over it. -/
theorem Lays.statement {scope : Scope} (lays : Lays scopes node.firstLine node.lastLine walk)
    (known : scopes scope) (starts : scope.firstLine ≤ node.firstLine)
    (ends : node.lastLine ≤ scope.lastLine) :
    Lays scopes node.firstLine node.lastLine
      ((found (statementStart scope.id node)).andThen walk) := by
  unfold statementStart
  split
  · exact fun counters => .statement _ known ⟨starts, ends⟩ (lays counters)
  · exact lays.behind rfl rfl rfl rfl

end Walk

section Blocks

variable {scopes : Scope → Prop} {scope : Scope} {node : Node} {kind : BlockKind}
  {branch : Option Branch}

theorem lays_blockWalk {inside : BlockId → Walk} (plain : kind ≠ .function) (known : scopes scope)
    (starts : scope.firstLine ≤ node.firstLine) (ends : node.lastLine ≤ scope.lastLine)
    (lays : ∀ id, Walk.Lays (· = ⟨id, node.firstLine, node.lastLine⟩) node.firstLine node.lastLine
      (inside id)) :
    Walk.Lays scopes node.firstLine node.lastLine (blockWalk scope.id node kind branch inside) := by
  intro counters
  have layout := lays counters.nextBlock { counters with nextBlock := counters.nextBlock + 1 }
  have whole := Layout.block branch plain known starts layout.lines_le ends (Nat.le_refl _)
    (Nat.le_refl _) layout
    (.aside (rfl : ({} : Outline).blocks = []) rfl rfl rfl (Nat.le_refl _))
  rw [append_empty] at whole
  exact whole

theorem lays_functionWalk {inside : BlockId → Walk} (name : Option String) (kind : FunctionKind)
    (known : scopes scope) (starts : scope.firstLine ≤ node.firstLine)
    (ends : node.lastLine ≤ scope.lastLine)
    (lays : ∀ id, Walk.Lays (· = ⟨id, node.firstLine, node.lastLine⟩) node.firstLine node.lastLine
      (inside id)) :
    Walk.Lays scopes node.firstLine node.lastLine
      (functionWalk scope.id node name kind inside) := by
  intro counters
  have layout := lays counters.nextBlock ⟨counters.nextBlock + 1, counters.nextFunction + 1⟩
  exact .function name kind _ known starts layout.lines_le ends layout

/-- A block with something in front of its inside, and then what may hang off it. -/
theorem lays_blockBefore {header : BlockId → Outline} {inside later : BlockId → Walk}
    {last high : Nat} (plain : kind ≠ .function) (known : scopes scope)
    (starts : scope.firstLine ≤ node.firstLine) (ends : last ≤ scope.lastLine)
    (reach : node.lastLine ≤ last) (bound : last ≤ high)
    (lays : ∀ id, Walk.Lays (· = ⟨id, node.firstLine, last⟩) node.firstLine node.lastLine
      ((Walk.found (header id)).andThen (inside id)))
    (lays' : ∀ id, Walk.Lays (fun other => scopes other ∨ other = ⟨id, node.firstLine, last⟩)
      node.lastLine high (later id)) :
    Walk.Lays scopes node.firstLine high
      (.withBlock fun id => .andThen (.found (header id)) (.andThen (inside id)
        (.andThen (.found (blockOf id kind branch scope.id node.firstLine last)) (later id)))) := by
  intro counters
  have layout := lays counters.nextBlock { counters with nextBlock := counters.nextBlock + 1 }
  have whole := Layout.block branch plain known starts (Nat.le_trans layout.lines_le reach) ends
    reach bound layout (lays' counters.nextBlock _)
  rw [Walk.andThen, Walk.found] at whole
  simp only [append_assoc] at whole
  exact whole

end Blocks

/-! ## Along the walk -/

/-- Placed trees that stand side by side on some lines. -/
structure InOrder (text : List Char) (low high : Nat) (nodes : List Node) : Prop where
  placed : ∀ node ∈ nodes, Placed text node
  inside : ∀ node ∈ nodes, low ≤ node.firstLine ∧ node.lastLine ≤ high
  ordered : nodes.Pairwise fun front behind => front.lastLine ≤ behind.firstLine
  lines : low ≤ high

section InOrder

variable {text : List Char} {low high : Nat} {node : Node} {rest : List Node}

/-- The parts of a placed tree stand side by side. -/
theorem inOrder_children (placed : Placed text node) :
    InOrder text node.firstLine node.lastLine node.children where
  placed _ := placed.of_mem_children
  inside _ := placed.lines_of_mem_children
  ordered := placed.pairwise_children
  lines := by
    have ends := placed.located.lines
    rw [Node.firstLine, Node.lastLine]
    exact ends.2

theorem InOrder.head (inOrder : InOrder text low high (node :: rest)) :
    Placed text node ∧ low ≤ node.firstLine ∧ node.firstLine ≤ node.lastLine ∧
      node.lastLine ≤ high :=
  have placed := inOrder.placed node List.mem_cons_self
  have inside := inOrder.inside node List.mem_cons_self
  ⟨placed, inside.1, (inOrder_children placed).lines, inside.2⟩

theorem InOrder.tail (inOrder : InOrder text low high (node :: rest)) :
    InOrder text node.lastLine high rest where
  placed other member := inOrder.placed other (List.mem_cons_of_mem _ member)
  inside other member := ⟨(List.pairwise_cons.mp inOrder.ordered).1 other member,
    (inOrder.inside other (List.mem_cons_of_mem _ member)).2⟩
  ordered := (List.pairwise_cons.mp inOrder.ordered).2
  lines := (inOrder.inside node List.mem_cons_self).2

/-- Of two trees that stand side by side one ends before the other begins. -/
theorem InOrder.apart {nodes : List Node} (inOrder : InOrder text low high nodes)
    {first second : Node} (member : first ∈ nodes) (member' : second ∈ nodes) :
    first.lastLine ≤ second.firstLine ∨ second.lastLine ≤ first.firstLine ∨ first = second := by
  let Apart (first second : Node) : Prop :=
    first.lastLine ≤ second.firstLine ∨ second.lastLine ≤ first.firstLine ∨ first = second
  have forward : nodes.Pairwise Apart := inOrder.ordered.imp fun less => .inl less
  have backward : nodes.Pairwise (flip Apart) := inOrder.ordered.imp fun less => .inr (.inl less)
  exact forward.forall_of_forall_of_flip (fun _ _ => .inr (.inr rfl)) backward member member'

end InOrder

section Walking

set_option linter.unusedSectionVars false

variable {text : List Char} (source : String)

/-- A condition in front of the walk that passes it. -/
theorem lays_condition (scopes : Scope → Prop) {scope : Scope} {low high : Nat}
    {found : Option Node} {nodes : List Node} {walk : Walk} (inOrder : InOrder text low high nodes)
    (known : scopes scope) (opens : scope.firstLine ≤ low) (closes : high ≤ scope.lastLine)
    (isPart : ∀ node, found = some node → node ∈ nodes)
    (lays : Walk.Lays scopes low high walk) (covers : Walk.Covers nodes walk) :
    Walk.Lays scopes low high ((Walk.found (conditionSpan scope.id found)).andThen walk) := by
  cases found with
  | none => exact lays.behind rfl rfl rfl rfl
  | some node =>
      intro counters
      have member := isPart node rfl
      obtain ⟨starts, ends⟩ := inOrder.inside node member
      refine .condition _ _ known ⟨Nat.le_trans opens starts, Nat.le_trans ends closes⟩ starts ends
        (lays counters) fun block isBlock => ?_
      obtain ⟨other, isOther, starts', ends'⟩ := covers counters block isBlock
      rcases inOrder.apart isOther member with before | behind | rfl
      · exact .inl (Nat.le_trans ends' before)
      · exact .inr (.inl (Nat.le_trans behind starts'))
      · exact .inr (.inr ⟨starts', ends'⟩)

/-- The arms of an `if` statement end on its lines. -/
theorem chainEnd_le {node : Node} (placed : Placed text node) : chainEnd node ≤ node.lastLine := by
  let later (child : Node) : Bool := child.isConstruct .elseIfArm || child.isConstruct .elseArm
  have isEnd : chainEnd node =
      (((node.children.filter later).map Node.lastLine).max?).getD node.lastLine := rfl
  rw [isEnd]
  cases isMax : ((node.children.filter later).map Node.lastLine).max? with
  | none => exact Nat.le_refl _
  | some last =>
      obtain ⟨arm, isArm, rfl⟩ := List.mem_map.mp (List.max?_eq_some_iff.mp isMax).1
      exact (placed.lines_of_mem_children (List.mem_filter.mp isArm).1).2

mutual

/-- **Every walk over a placed tree** has the shape of a layout. -/
theorem lays_walk (lent : Option String) (scopes : Scope → Prop) {scope : Scope}
    (known : scopes scope) : (node : Node) → Placed text node →
    scope.firstLine ≤ node.firstLine → node.lastLine ≤ scope.lastLine →
    Walk.Lays scopes node.firstLine node.lastLine (walk source lent scope.id node)
  | .leaf _ _, placed, _, _ => by
      rw [walk]
      exact Walk.lays_nothing (inOrder_children placed).lines
  | .inner construct span children, placed, starts, ends => by
      have parts := inOrder_children placed
      let own := scopeAt (.inner construct span children)
      have inside (id : BlockId) := lays_walkAll none (· = own id) (rfl : own id = own id)
        children parts (Nat.le_refl _) (Nat.le_refl _)
      unfold walk
      simp only
      split
      · exact lays_walkStatements scopes known children parts starts ends
      · exact lays_walkStatements scopes known children parts starts ends
      · have arms : ∀ arm ∈ children,
            (arm.isConstruct .elseIfArm || arm.isConstruct .elseArm) = true →
            arm.lastLine ≤ chainEnd (.inner .ifStatement span children) := fun _ member isArm =>
          le_chainEnd member isArm
        exact lays_blockWalk (by decide) known starts ends fun id =>
          lays_walkArms (· = own id) (rfl : own id = own id) (rfl : own id = own id) _ children
            parts (Nat.le_refl _) (Nat.le_refl _) (Nat.le_refl _) (chainEnd_le placed)
            (chainEnd_le placed) arms
      · exact lays_functionWalk _ _ known starts ends fun id => (inside id).1
      · exact lays_functionWalk _ _ known starts ends fun id => (inside id).1
      · refine Walk.Lays.behind (lays_walkAll none scopes known children parts starts ends).1
          ?_ ?_ ?_ ?_
        all_goals
          rw [requiredModule]
          repeat' split
          all_goals rfl
      · split
        · rename_i kind isLoop
          have plain : kind ≠ .function := by
            rintro rfl
            cases construct <;> cases isLoop
          refine lays_blockWalk plain known starts ends fun id => ?_
          split
          · exact lays_condition (· = own id) parts (rfl : own id = own id) (Nat.le_refl _)
              (Nat.le_refl _) (fun _ => mem_children_of_getLast) (inside id).1 (inside id).2
          · exact (inside id).1.behind rfl rfl rfl rfl
        · exact (lays_walkAll _ scopes known children parts starts ends).1

theorem lays_walkAll (lent : Option String) (scopes : Scope → Prop) {scope : Scope}
    (known : scopes scope) {low high : Nat} : (nodes : List Node) → InOrder text low high nodes →
    scope.firstLine ≤ low → high ≤ scope.lastLine →
    Walk.Lays scopes low high (walkAll source lent scope.id nodes) ∧
      Walk.Covers nodes (walkAll source lent scope.id nodes)
  | [], inOrder, _, _ => by
      rw [walkAll]
      exact ⟨Walk.lays_nothing inOrder.lines, Walk.covers_nothing⟩
  | node :: rest, inOrder, starts, ends => by
      obtain ⟨placed, begins, lines, stops⟩ := inOrder.head
      have lays := lays_walk lent scopes known node placed (Nat.le_trans starts begins)
        (Nat.le_trans stops ends)
      obtain ⟨lays', covers⟩ := lays_walkAll lent scopes known rest inOrder.tail
        (Nat.le_trans starts (Nat.le_trans begins lines)) ends
      rw [walkAll]
      exact ⟨(lays.within begins (Nat.le_refl _)).andThen lays', lays.covers.andThen covers⟩

theorem lays_walkStatements (scopes : Scope → Prop) {scope : Scope} (known : scopes scope)
    {low high : Nat} : (nodes : List Node) → InOrder text low high nodes →
    scope.firstLine ≤ low → high ≤ scope.lastLine →
    Walk.Lays scopes low high (walkStatements source scope.id nodes)
  | [], inOrder, _, _ => by
      rw [walkStatements]
      exact Walk.lays_nothing inOrder.lines
  | node :: rest, inOrder, starts, ends => by
      obtain ⟨placed, begins, lines, stops⟩ := inOrder.head
      have opens := Nat.le_trans starts begins
      have closes := Nat.le_trans stops ends
      have lays := (lays_walk none scopes known node placed opens closes).statement known opens
        closes
      have lays' := lays_walkStatements scopes known rest inOrder.tail
        (Nat.le_trans starts (Nat.le_trans begins lines)) ends
      intro counters
      have layout := ((lays.within begins (Nat.le_refl _)).andThen lays') counters
      rw [walkStatements]
      simp only [Walk.andThen, Walk.found, append_assoc] at layout ⊢
      exact layout

/-- An arm hangs off the `if` statement or off the last conditional before it. -/
theorem lays_walkArms (scopes : Scope → Prop) {ifScope owner : Scope} (known : scopes ifScope)
    (known' : scopes owner) (endOfChain : Nat) {low high : Nat} : (nodes : List Node) →
    InOrder text low high nodes → ifScope.firstLine ≤ low → high ≤ ifScope.lastLine →
    owner.firstLine ≤ low → endOfChain ≤ owner.lastLine → endOfChain ≤ high →
    (∀ arm ∈ nodes, (arm.isConstruct .elseIfArm || arm.isConstruct .elseArm) = true →
      arm.lastLine ≤ endOfChain) →
    Walk.Lays scopes low high (walkArms source ifScope.id endOfChain owner.id nodes)
  | [], inOrder, _, _, _, _, _, _ => by
      rw [walkArms]
      exact Walk.lays_nothing inOrder.lines
  | .leaf kind span :: rest, inOrder, starts, ends, starts', ends', bound, chain => by
      obtain ⟨placed, begins, lines, stops⟩ := inOrder.head
      rw [walkArms]
      · exact ((lays_walk none scopes known _ placed (Nat.le_trans starts begins)
          (Nat.le_trans stops ends)).within begins (Nat.le_refl _)).andThen
          (lays_walkArms scopes known known' endOfChain rest inOrder.tail
            (Nat.le_trans starts (Nat.le_trans begins lines)) ends
            (Nat.le_trans starts' (Nat.le_trans begins lines)) ends' bound
            fun arm member => chain arm (List.mem_cons_of_mem _ member))
      all_goals exact fun _ _ same => nomatch same
  | .inner construct span inside :: rest, inOrder, starts, ends, starts', ends', bound, chain => by
      obtain ⟨placed, begins, lines, stops⟩ := inOrder.head
      have parts := inOrder_children placed
      have later (scopes : Scope → Prop) (known : scopes ifScope) {owner : Scope}
          (known' : scopes owner) (starts' : owner.firstLine ≤ _) (ends' : _ ≤ owner.lastLine) :=
        lays_walkArms scopes known known' endOfChain rest inOrder.tail
          (Nat.le_trans starts (Nat.le_trans begins lines)) ends starts' ends' bound
          fun arm member => chain arm (List.mem_cons_of_mem _ member)
      have later' := later scopes known known' (Nat.le_trans starts' (Nat.le_trans begins lines))
        ends'
      by_cases isBlock : construct = .block
      · subst isBlock
        let own := scopeAt (.inner .block span inside)
        rw [walkArms]
        refine Walk.Lays.andThen (Walk.Lays.within ?_ begins (Nat.le_refl _)) later'
        exact lays_blockWalk (by decide) known (Nat.le_trans starts begins)
          (Nat.le_trans stops ends) fun id => lays_walkStatements (· = own id)
            (rfl : own id = own id) inside parts (Nat.le_refl _) (Nat.le_refl _)
      by_cases isElseIf : construct = .elseIfArm
      · subst isElseIf
        let own (id : BlockId) : Scope :=
          ⟨id, (Node.inner .elseIfArm span inside).firstLine, endOfChain⟩
        have reach := chain _ List.mem_cons_self rfl
        rw [walkArms]
        -- what follows hangs off this arm, which is taken to end with the last one
        refine Walk.Lays.within (lays_blockBefore (by decide) known' (Nat.le_trans starts' begins)
          ends' reach bound (fun id => ?_) fun id => ?_) begins (Nat.le_refl _)
        · obtain ⟨lays, covers⟩ := lays_walkArmParts (· = own id) (rfl : own id = own id) inside
            parts (Nat.le_refl _) reach
          exact lays_condition (· = own id) parts (rfl : own id = own id) (Nat.le_refl _) reach
            (fun _ => mem_children_of_head) lays covers
        · exact later (fun other => scopes other ∨ other = own id) (.inl known)
            (.inr rfl : scopes (own id) ∨ own id = own id) lines (Nat.le_refl _)
      by_cases isElse : construct = .elseArm
      · subst isElse
        let own := scopeAt (.inner .elseArm span inside)
        have reach := chain _ List.mem_cons_self rfl
        rw [walkArms]
        refine Walk.Lays.andThen (Walk.Lays.within ?_ begins (Nat.le_refl _)) later'
        exact lays_blockWalk (by decide) known' (Nat.le_trans starts' begins)
          (Nat.le_trans reach ends') fun id => (lays_walkAll none (· = own id)
            (rfl : own id = own id) inside parts (Nat.le_refl _) (Nat.le_refl _)).1
      rw [walkArms]
      · exact ((lays_walk none scopes known _ placed (Nat.le_trans starts begins)
          (Nat.le_trans stops ends)).within begins (Nat.le_refl _)).andThen later'
      · exact fun _ _ same => isBlock (Node.inner.inj same).1
      · exact fun _ _ same => isElseIf (Node.inner.inj same).1
      · exact fun _ _ same => isElse (Node.inner.inj same).1

theorem lays_walkArmParts (scopes : Scope → Prop) {scope : Scope} (known : scopes scope)
    {low high : Nat} : (nodes : List Node) → InOrder text low high nodes →
    scope.firstLine ≤ low → high ≤ scope.lastLine →
    Walk.Lays scopes low high (walkArmParts source scope.id nodes) ∧
      Walk.Covers nodes (walkArmParts source scope.id nodes)
  | [], inOrder, _, _ => by
      rw [walkArmParts]
      exact ⟨Walk.lays_nothing inOrder.lines, Walk.covers_nothing⟩
  | .leaf kind span :: rest, inOrder, starts, ends => by
      obtain ⟨placed, begins, lines, stops⟩ := inOrder.head
      have lays := lays_walk none scopes known _ placed (Nat.le_trans starts begins)
        (Nat.le_trans stops ends)
      obtain ⟨lays', covers⟩ := lays_walkArmParts scopes known rest inOrder.tail
        (Nat.le_trans starts (Nat.le_trans begins lines)) ends
      rw [walkArmParts]
      · exact ⟨(lays.within begins (Nat.le_refl _)).andThen lays', lays.covers.andThen covers⟩
      · exact fun _ _ same => nomatch same
  | .inner construct span inside :: rest, inOrder, starts, ends => by
      obtain ⟨placed, begins, lines, stops⟩ := inOrder.head
      obtain ⟨lays', covers⟩ := lays_walkArmParts scopes known rest inOrder.tail
        (Nat.le_trans starts (Nat.le_trans begins lines)) ends
      by_cases isBlock : construct = .block
      · subst isBlock
        let own := scopeAt (.inner .block span inside)
        have lays : Walk.Lays scopes _ _ (blockWalk scope.id (.inner .block span inside)
            .conditional (some .thenArm) fun id => walkStatements source id inside) :=
          lays_blockWalk (by decide) known (Nat.le_trans starts begins) (Nat.le_trans stops ends)
            fun id => lays_walkStatements (· = own id) (rfl : own id = own id) inside
              (inOrder_children placed) (Nat.le_refl _) (Nat.le_refl _)
        rw [walkArmParts]
        exact ⟨(lays.within begins (Nat.le_refl _)).andThen lays', lays.covers.andThen covers⟩
      · have lays := lays_walk none scopes known _ placed (Nat.le_trans starts begins)
          (Nat.le_trans stops ends)
        rw [walkArmParts]
        · exact ⟨(lays.within begins (Nat.le_refl _)).andThen lays', lays.covers.andThen covers⟩
        · exact fun _ _ same => isBlock (Node.inner.inj same).1

end

end Walking

/-! ## The layout of a source -/

/-- The scope of the main chunk, which has no lines of its own. -/
def IsChunk (scope : Scope) : Prop := scope.id = BlockId.root

/-- **The outline of a source that parses** has the shape of a layout. -/
theorem layout_of_parse {source : String} {tree : Node} (parsed : parse? source = some tree) :
    ∃ high final, Layout IsChunk 0 high ⟨1, 1⟩ (ofTree source tree) final := by
  obtain ⟨before, text, asides, body, span, isSource, rfl, all, tiled, proper⟩ :=
    exists_tiled_of_parse parsed
  have placed : ∀ node ∈ body, Placed source.toList node := fun node member =>
    placed_of_mem isSource tiled member (proper node member).1
  let high := ((body.map Node.lastLine).max?).getD 0
  have inOrder : InOrder source.toList 0 high body :=
    { placed := placed
      inside := fun node member =>
        ⟨Nat.zero_le _, le_max?_getD (List.mem_map_of_mem member) 0⟩
      ordered := pairwise_of_tiled placed tiled
      lines := Nat.zero_le _ }
  rw [ofTree_chunk source all span body]
  have lays := lays_walkStatements source IsChunk (rfl : IsChunk ⟨BlockId.root, 0, high⟩) body
    inOrder (Nat.le_refl _) (Nat.le_refl _)
  exact ⟨high, _, lays ⟨1, 1⟩⟩

end LuaCoverage.Outline
