import Mathlib.Data.List.Basic
import LuaCoverage.Proofs.Analysis.ParsedSource

/-!
# An outline misses no place

`Holds` says which places of a tree an outline should list, by looking at the tree alone: every part
of the main chunk or of a block that runs on its own, wherever the block stands, and the conditions
of `repeat` loops and of `elseif` arms. A walk hands the parts of a construct on to five functions,
some of which give the parts of an arm a block of their own. Whichever way a part is handed on, the
places in it are listed (`reaches_walk`, by induction along the walk), so the analysis of a source
that parses lists them all (`listed_ofTree`).
-/

set_option autoImplicit false

namespace LuaCoverage.Outline

open Syntax

/-- A tree whose place an outline lists. -/
inductive Place where
  /-- A statement that runs on its own. -/
  | statement (node : Node)
  /-- A condition that is evaluated apart from any statement start. -/
  | condition (node : Node)

/-- Whether a place is among some statements and conditions, in whatever block. -/
def Place.ListedIn (statements : List Statement) (conditions : List Condition) : Place → Prop
  | .statement node => ∃ block,
      ⟨node.firstLine, node.lastLine, node.span.first.byte, block⟩ ∈ statements
  | .condition node => ∃ block,
      ⟨node.firstLine, node.lastLine, node.span.first.byte, node.span.last.byte, block⟩ ∈ conditions

/-- The places in a tree. -/
inductive Holds : Place → Node → Prop where
  | statement {construct : Construct} {span : Span} {children : List Node} {node : Node}
      (isBody : construct = .chunk ∨ construct = .block) (member : node ∈ children)
      (named : node.isNamed = true) (runs : isInert node = false) :
      Holds (.statement node) (.inner construct span children)
  | untilCondition {span : Span} {children : List Node} {node : Node}
      (isLast : (Node.inner .repeatStatement span children).constituents.getLast? = some node) :
      Holds (.condition node) (.inner .repeatStatement span children)
  | elseIfCondition {span : Span} {children : List Node} {arm node : Node} (member : arm ∈ children)
      (isArm : arm.isConstruct .elseIfArm = true) (isFirst : arm.constituents.head? = some node) :
      Holds (.condition node) (.inner .ifStatement span children)
  | inside {place : Place} {construct : Construct} {span : Span} {children : List Node}
      {child : Node} (member : child ∈ children) (holds : Holds place child) :
      Holds place (.inner construct span children)

/-- Whatever numbers a walk starts with, it lists a place. -/
def Walk.Reaches (place : Place) (walk : Walk) : Prop :=
  ∀ counters, place.ListedIn (walk counters).1.statements (walk counters).1.conditions

namespace Walk

variable {place : Place} {first later : Walk}

theorem Reaches.before (reaches : first.Reaches place) : (first.andThen later).Reaches place := by
  intro counters
  cases place with
  | statement node => exact (reaches counters).imp fun _ => List.mem_append_left _
  | condition node => exact (reaches counters).imp fun _ => List.mem_append_left _

theorem Reaches.behind (reaches : later.Reaches place) : (first.andThen later).Reaches place := by
  intro counters
  cases place with
  | statement node => exact (reaches (first counters).2).imp fun _ => List.mem_append_right _
  | condition node => exact (reaches (first counters).2).imp fun _ => List.mem_append_right _

theorem reaches_withBlock {walk : BlockId → Walk} (reaches : ∀ id, (walk id).Reaches place) :
    (withBlock walk).Reaches place := fun counters => reaches counters.nextBlock _

theorem reaches_withFunction {walk : Nat → Walk} (reaches : ∀ number, (walk number).Reaches place) :
    (withFunction walk).Reaches place := fun counters => reaches counters.nextFunction _

theorem reaches_conditionSpan (block : BlockId) {found : Option Node} {node : Node}
    (isFound : found = some node) :
    (Walk.found (conditionSpan block found)).Reaches (.condition node) := by
  subst isFound
  exact fun _ => ⟨block, List.mem_cons_self⟩

end Walk

section Walking

variable {place : Place}

theorem reaches_blockWalk (parent : BlockId) (node : Node) (kind : BlockKind)
    (branch : Option Branch) {inside : BlockId → Walk} (reaches : ∀ id, (inside id).Reaches place) :
    (blockWalk parent node kind branch inside).Reaches place :=
  Walk.reaches_withBlock fun id => (reaches id).before

theorem reaches_functionWalk (parent : BlockId) (node : Node) (name : Option String)
    (kind : FunctionKind) {inside : BlockId → Walk} (reaches : ∀ id, (inside id).Reaches place) :
    (functionWalk parent node name kind inside).Reaches place :=
  reaches_blockWalk _ _ _ _ fun id => Walk.reaches_withFunction fun _ => (reaches id).behind

/-- What a construct that is no body, no loop and no `if` statement holds, a part of it holds. -/
theorem Holds.exists_child {construct : Construct} {span : Span} {children : List Node}
    (holds : Holds place (.inner construct span children))
    (notBody : construct ≠ .chunk ∧ construct ≠ .block) (notIf : construct ≠ .ifStatement)
    (notRepeat : construct ≠ .repeatStatement) : ∃ child ∈ children, Holds place child := by
  cases holds with
  | statement isBody => exact absurd isBody (not_or.mpr notBody)
  | untilCondition => exact absurd rfl notRepeat
  | elseIfCondition => exact absurd rfl notIf
  | inside member holds => exact ⟨_, member, holds⟩

/-- Whether a place is the condition of an arm. -/
def IsArmCondition (place : Place) (arm : Node) : Prop :=
  arm.isConstruct .elseIfArm = true ∧
    ∃ node, arm.constituents.head? = some node ∧ place = .condition node

/-- What an `if` statement holds is the condition of one of its arms, or a part of it holds it. -/
theorem Holds.arm_cases {span : Span} {children : List Node}
    (holds : Holds place (.inner .ifStatement span children)) :
    ∃ child ∈ children, Holds place child ∨ IsArmCondition place child := by
  cases holds with
  | statement isBody => simp at isBody
  | elseIfCondition member isArm isFirst => exact ⟨_, member, .inr ⟨isArm, _, isFirst, rfl⟩⟩
  | inside member holds => exact ⟨_, member, .inl holds⟩

variable (source : String)

/-- What a body holds is one of its statements, which are all listed, or a part of it holds it. -/
theorem Holds.reaches_body {construct : Construct} {span : Span} {nodes : List Node}
    (holds : Holds place (.inner construct span nodes))
    (isBody : construct = .chunk ∨ construct = .block) {parent : BlockId}
    (inside : (∃ node ∈ nodes, Holds place node) →
      (walkStatements source parent nodes).Reaches place) :
    (walkStatements source parent nodes).Reaches place := by
  cases holds with
  | statement _ member named runs =>
      exact fun counters => ⟨parent, mem_walkStatements source parent member named runs counters⟩
  | untilCondition => simp at isBody
  | elseIfCondition => simp at isBody
  | inside member holds => exact inside ⟨_, member, holds⟩

mutual

/-- **A walk lists all places in a tree.** -/
theorem reaches_walk (lent : Option String) (parent : BlockId) : (node : Node) →
    Holds place node → (walk source lent parent node).Reaches place
  | .leaf _ _, holds => nomatch holds
  | .inner construct span children, holds => by
      have body (isBody : construct = .chunk ∨ construct = .block) :=
        holds.reaches_body source isBody (reaches_walkStatements parent children)
      unfold walk
      simp only
      split
      · exact body (.inl rfl)
      · exact body (.inr rfl)
      · exact reaches_blockWalk _ _ _ _ fun id => reaches_walkArms id _ id children holds.arm_cases
      · have found := holds.exists_child ⟨nofun, nofun⟩ nofun nofun
        exact reaches_functionWalk _ _ _ _ fun id => reaches_walkAll none id children found
      · have found := holds.exists_child ⟨nofun, nofun⟩ nofun nofun
        exact reaches_functionWalk _ _ _ _ fun id => reaches_walkAll none id children found
      · have found := holds.exists_child ⟨nofun, nofun⟩ nofun nofun
        exact (reaches_walkAll none parent children found).behind
      · rename_i notChunk notBlock notIf notDeclaration notExpression notCall
        split
        · refine reaches_blockWalk _ _ _ _ fun id => ?_
          cases holds with
          | statement isBody => exact absurd isBody (not_or.mpr ⟨notChunk, notBlock⟩)
          | untilCondition isLast =>
              rw [if_pos rfl]
              exact (Walk.reaches_conditionSpan id isLast).before
          | elseIfCondition => exact absurd rfl notIf
          | inside member holds =>
              exact (reaches_walkAll none id children ⟨_, member, holds⟩).behind
        · rename_i notLoop
          have notRepeat : construct ≠ .repeatStatement := by
            rintro rfl
            cases notLoop
          exact reaches_walkAll _ parent children
            (holds.exists_child ⟨notChunk, notBlock⟩ notIf notRepeat)

theorem reaches_walkAll (lent : Option String) (parent : BlockId) : (nodes : List Node) →
    (∃ node ∈ nodes, Holds place node) → (walkAll source lent parent nodes).Reaches place
  | [], found => by simp at found
  | first :: rest, found => by
      rw [walkAll]
      rcases (List.exists_mem_cons_iff _ _ _).mp found with holds | found
      · exact (reaches_walk lent parent first holds).before
      · exact (reaches_walkAll lent parent rest found).behind

theorem reaches_walkStatements (parent : BlockId) : (nodes : List Node) →
    (∃ node ∈ nodes, Holds place node) → (walkStatements source parent nodes).Reaches place
  | [], found => by simp at found
  | first :: rest, found => by
      rw [walkStatements]
      rcases (List.exists_mem_cons_iff _ _ _).mp found with holds | found
      · exact (reaches_walk none parent first holds).before.behind
      · exact (reaches_walkStatements parent rest found).behind.behind

/-- Of the parts of an `if` statement, the condition of an `elseif` arm is listed as well. -/
theorem reaches_walkArms (ifId : BlockId) (endOfChain : Nat) (owner : BlockId) :
    (nodes : List Node) → (∃ node ∈ nodes, Holds place node ∨ IsArmCondition place node) →
    (walkArms source ifId endOfChain owner nodes).Reaches place
  | [], found => by simp at found
  | .leaf kind span :: rest, found => by
      rw [walkArms]
      · rcases (List.exists_mem_cons_iff _ _ _).mp found with here | found
        · exact nomatch here.resolve_right fun isCondition => nomatch isCondition.1
        · exact (reaches_walkArms ifId endOfChain owner rest found).behind
      all_goals exact fun _ _ same => nomatch same
  | .inner construct span inside :: rest, found => by
      have later (owner : BlockId) := reaches_walkArms ifId endOfChain owner rest
      by_cases isBlock : construct = .block
      · subst isBlock
        rw [walkArms]
        rcases (List.exists_mem_cons_iff _ _ _).mp found with here | found
        · have holds := here.resolve_right fun isCondition => nomatch isCondition.1
          exact (reaches_blockWalk _ _ _ _ fun id =>
            holds.reaches_body source (.inr rfl) (reaches_walkStatements id inside)).before
        · exact (later owner found).behind
      by_cases isElseIf : construct = .elseIfArm
      · subst isElseIf
        rw [walkArms]
        refine Walk.reaches_withBlock fun id => ?_
        rcases (List.exists_mem_cons_iff _ _ _).mp found with here | found
        · rcases here with holds | ⟨-, condition, isFirst, rfl⟩
          · have found := holds.exists_child ⟨nofun, nofun⟩ nofun nofun
            exact (reaches_walkArmParts id inside found).before.behind
          · exact (Walk.reaches_conditionSpan id isFirst).before
        · exact (later id found).behind.behind.behind
      by_cases isElse : construct = .elseArm
      · subst isElse
        rw [walkArms]
        rcases (List.exists_mem_cons_iff _ _ _).mp found with here | found
        · have holds := here.resolve_right fun isCondition => nomatch isCondition.1
          have found := holds.exists_child ⟨nofun, nofun⟩ nofun nofun
          exact (reaches_blockWalk _ _ _ _ fun id => reaches_walkAll none id inside found).before
        · exact (later owner found).behind
      rw [walkArms]
      · rcases (List.exists_mem_cons_iff _ _ _).mp found with here | found
        · rcases here with holds | ⟨isArm, -⟩
          · exact (reaches_walk none ifId _ holds).before
          · exact absurd (beq_iff_eq.mp isArm) isElseIf
        · exact (later owner found).behind
      · exact fun _ _ same => isBlock (Node.inner.inj same).1
      · exact fun _ _ same => isElseIf (Node.inner.inj same).1
      · exact fun _ _ same => isElse (Node.inner.inj same).1

theorem reaches_walkArmParts (id : BlockId) : (nodes : List Node) →
    (∃ node ∈ nodes, Holds place node) → (walkArmParts source id nodes).Reaches place
  | [], found => by simp at found
  | .leaf kind span :: rest, found => by
      rw [walkArmParts]
      · rcases (List.exists_mem_cons_iff _ _ _).mp found with holds | found
        · exact nomatch holds
        · exact (reaches_walkArmParts id rest found).behind
      · exact fun _ _ same => nomatch same
  | .inner construct span inside :: rest, found => by
      have later := reaches_walkArmParts id rest
      by_cases isBlock : construct = .block
      · subst isBlock
        rw [walkArmParts]
        rcases (List.exists_mem_cons_iff _ _ _).mp found with holds | found
        · exact (reaches_blockWalk _ _ _ _ fun armId =>
            holds.reaches_body source (.inr rfl) (reaches_walkStatements armId inside)).before
        · exact (later found).behind
      rw [walkArmParts]
      · rcases (List.exists_mem_cons_iff _ _ _).mp found with holds | found
        · exact (reaches_walk none id _ holds).before
        · exact (later found).behind
      · exact fun _ _ same => isBlock (Node.inner.inj same).1

end

end Walking

end LuaCoverage.Outline

namespace LuaCoverage

/-- **The analysis of a source lists all places in its tree.** -/
theorem listed_ofTree (settings : AnalysisSettings) (source fileId : String)
    {tree : Syntax.Node} {place : Outline.Place} (holds : Outline.Holds place tree) :
    place.ListedIn (Analysis.ofTree settings source fileId tree).statements
      (Analysis.ofTree settings source fileId tree).conditions := by
  rw [ofTree_statements, ofTree_conditions]
  exact Outline.reaches_walk source none BlockId.root tree holds ⟨1, 1⟩

end LuaCoverage
