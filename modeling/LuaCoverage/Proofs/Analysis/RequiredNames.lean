import Mathlib.Data.List.Basic
import LuaCoverage.Proofs.Analysis.ParsedSource

/-!
# Names that a source requires

A source requires a module by a literal name if its tree has, anywhere, a call of what is spelled
`require` with a string as its only argument (`Outline.Requires`). The walk that lists these names
goes through the arms of `if` statements by functions of their own, but it leaves out no part of a
tree and enters none twice: the names that it lists are those of the calls in the tree, in the order
of the text (`Outline.requires_walk`).

So the names in the analysis of a source are exactly the literal names that its tree requires, and a
source that does not parse, or is too large to try, has none (`mem_requires_analyze`).
-/

set_option autoImplicit false

namespace LuaCoverage

namespace Outline

open Syntax

/-- Whether a call in a tree requires a module by a literal name. -/
inductive Requires (source name : String) : Node → Prop where
  | call {span : Span} {children : List Node} {callee arguments literal : Node}
      (isCallee : (Node.inner .call span children).constituents.head? = some callee)
      (spelled : callee.text source = "require")
      (isArguments : children.find? (Node.isConstruct .arguments) = some arguments)
      (only : arguments.children.filter Node.isNamed = [literal])
      (isName : literalName source literal = some name) :
      Requires source name (.inner .call span children)
  | inside {construct : Construct} {span : Span} {children : List Node} {child : Node}
      (member : child ∈ children) (requires : Requires source name child) :
      Requires source name (.inner construct span children)

section Names

variable (source : String)

mutual

/-- The literal names that the calls in a tree require, in the order of the text. -/
def requiredNames : Node → List String
  | .leaf _ _ => []
  | .inner construct span children =>
      (if construct = .call then (requiredModule source (.inner construct span children)).requires
        else []) ++ requiredNamesAll children

/-- The literal names that the calls in trees side by side require. -/
def requiredNamesAll : List Node → List String
  | [] => []
  | node :: rest => requiredNames node ++ requiredNamesAll rest

end

/-! ## The walk -/

/-- Whether a walk lists some names, whatever numbers it starts with. -/
def Walk.Names (names : List String) (walk : Walk) : Prop :=
  ∀ counters, (walk counters).1.requires = names

namespace Walk

variable {first later : Walk} {names more : List String}

theorem names_nothing : Walk.nothing.Names [] := fun _ => rfl

theorem names_found {outline : Outline} (listed : outline.requires = names) :
    (Walk.found outline).Names names := fun _ => listed

theorem Names.andThen (before : first.Names names) (behind : later.Names more) :
    (first.andThen later).Names (names ++ more) := fun counters =>
  congr (congrArg List.append (before counters)) (behind (first counters).2)

/-- Something without names before a walk. -/
theorem Names.behind {outline : Outline} (nameless : outline.requires = [])
    (listed : later.Names names) : ((Walk.found outline).andThen later).Names names :=
  (names_found nameless).andThen listed

theorem names_withBlock {walk : BlockId → Walk} (inside : ∀ id, (walk id).Names names) :
    (withBlock walk).Names names := fun counters => inside counters.nextBlock _

theorem names_withFunction {walk : Nat → Walk} (inside : ∀ number, (walk number).Names names) :
    (withFunction walk).Names names := fun counters => inside counters.nextFunction _

end Walk

theorem requires_statementStart (block : BlockId) (node : Node) :
    (statementStart block node).requires = [] := by
  unfold statementStart
  split <;> rfl

theorem requires_conditionSpan (block : BlockId) (found : Option Node) :
    (conditionSpan block found).requires = [] := by
  cases found <;> rfl

section Parts

variable {names : List String} (parent : BlockId) (node : Node)

theorem names_blockWalk (kind : BlockKind) (branch : Option Branch) {inside : BlockId → Walk}
    (listed : ∀ id, (inside id).Names names) :
    (blockWalk parent node kind branch inside).Names names := by
  refine Walk.names_withBlock fun id => ?_
  have block := (listed id).andThen (Walk.names_found
    (show (blockOf id kind branch parent node.firstLine node.lastLine).requires = [] from rfl))
  rwa [List.append_nil] at block

theorem names_functionWalk (name : Option String) (kind : FunctionKind)
    {inside : BlockId → Walk} (listed : ∀ id, (inside id).Names names) :
    (functionWalk parent node name kind inside).Names names :=
  names_blockWalk parent node _ _ fun id => Walk.names_withFunction fun _ =>
    (listed id).behind rfl

end Parts

/-- A construct that is no call requires what its parts require. -/
theorem requiredNames_inner (construct : Construct) (span : Span) (children : List Node)
    (notCall : construct ≠ .call) :
    requiredNames source (.inner construct span children) = requiredNamesAll source children := by
  rw [requiredNames, if_neg notCall, List.nil_append]

mutual

/-- **A walk lists the names of all calls in a tree**, in the order of the text. -/
theorem names_walk (lent : Option String) (parent : BlockId) : (node : Node) →
    (walk source lent parent node).Names (requiredNames source node)
  | .leaf _ _ => by
      rw [walk, requiredNames]
      exact Walk.names_nothing
  | .inner construct span children => by
      unfold walk
      simp only
      split
      · rw [requiredNames_inner source .chunk span children nofun]
        exact names_walkStatements parent children
      · rw [requiredNames_inner source .block span children nofun]
        exact names_walkStatements parent children
      · rw [requiredNames_inner source .ifStatement span children nofun]
        exact names_blockWalk parent _ _ _ fun id => names_walkArms id _ id children
      · rw [requiredNames_inner source .functionDeclaration span children nofun]
        exact names_functionWalk parent _ _ _ fun id => names_walkAll none id children
      · rw [requiredNames_inner source .functionExpression span children nofun]
        exact names_functionWalk parent _ _ _ fun id => names_walkAll none id children
      · rw [requiredNames, if_pos rfl]
        exact (Walk.names_found rfl).andThen (names_walkAll none parent children)
      · rename_i notCall
        rw [requiredNames_inner source construct span children notCall]
        split
        · refine names_blockWalk parent _ _ _ fun id => ?_
          refine (names_walkAll none id children).behind ?_
          split
          · exact requires_conditionSpan id _
          · rfl
        · exact names_walkAll _ parent children

theorem names_walkAll (lent : Option String) (parent : BlockId) : (nodes : List Node) →
    (walkAll source lent parent nodes).Names (requiredNamesAll source nodes)
  | [] => by
      rw [walkAll, requiredNamesAll]
      exact Walk.names_nothing
  | first :: rest => by
      rw [walkAll, requiredNamesAll]
      exact (names_walk lent parent first).andThen (names_walkAll lent parent rest)

theorem names_walkStatements (parent : BlockId) : (nodes : List Node) →
    (walkStatements source parent nodes).Names (requiredNamesAll source nodes)
  | [] => by
      rw [walkStatements, requiredNamesAll]
      exact Walk.names_nothing
  | first :: rest => by
      rw [walkStatements, requiredNamesAll]
      exact ((names_walk none parent first).andThen (names_walkStatements parent rest)).behind
        (requires_statementStart parent first)

theorem names_walkArms (ifId : BlockId) (endOfChain : Nat) (owner : BlockId) :
    (nodes : List Node) →
    (walkArms source ifId endOfChain owner nodes).Names (requiredNamesAll source nodes)
  | [] => by
      rw [walkArms, requiredNamesAll]
      exact Walk.names_nothing
  | .leaf kind span :: rest => by
      rw [walkArms, requiredNamesAll]
      · exact (names_walk none ifId _).andThen (names_walkArms ifId endOfChain owner rest)
      all_goals exact fun _ _ same => nomatch same
  | .inner construct span inside :: rest => by
      have later (owner : BlockId) := names_walkArms ifId endOfChain owner rest
      rw [requiredNamesAll]
      by_cases isBlock : construct = .block
      · subst isBlock
        rw [walkArms, requiredNames_inner source .block span inside nofun]
        exact (names_blockWalk _ _ _ _ fun id => names_walkStatements id inside).andThen
          (later owner)
      by_cases isElseIf : construct = .elseIfArm
      · subst isElseIf
        rw [walkArms, requiredNames_inner source .elseIfArm span inside nofun]
        exact Walk.names_withBlock fun id =>
          ((names_walkArmParts id inside).andThen ((later id).behind rfl)).behind
            (requires_conditionSpan id _)
      by_cases isElse : construct = .elseArm
      · subst isElse
        rw [walkArms, requiredNames_inner source .elseArm span inside nofun]
        exact (names_blockWalk _ _ _ _ fun id => names_walkAll none id inside).andThen
          (later owner)
      rw [walkArms]
      · exact (names_walk none ifId _).andThen (later owner)
      · exact fun _ _ same => isBlock (Node.inner.inj same).1
      · exact fun _ _ same => isElseIf (Node.inner.inj same).1
      · exact fun _ _ same => isElse (Node.inner.inj same).1

theorem names_walkArmParts (id : BlockId) : (nodes : List Node) →
    (walkArmParts source id nodes).Names (requiredNamesAll source nodes)
  | [] => by
      rw [walkArmParts, requiredNamesAll]
      exact Walk.names_nothing
  | .leaf kind span :: rest => by
      rw [walkArmParts, requiredNamesAll]
      · exact (names_walk none id _).andThen (names_walkArmParts id rest)
      · exact fun _ _ same => nomatch same
  | .inner construct span inside :: rest => by
      have later := names_walkArmParts id rest
      rw [requiredNamesAll]
      by_cases isBlock : construct = .block
      · subst isBlock
        rw [walkArmParts, requiredNames_inner source .block span inside nofun]
        exact (names_blockWalk _ _ _ _ fun armId => names_walkStatements armId inside).andThen later
      rw [walkArmParts]
      · exact (names_walk none id _).andThen later
      · exact fun _ _ same => isBlock (Node.inner.inj same).1

end

/-! ## The calls -/

/-- What a call requires. -/
theorem mem_requiredModule {name : String} {node : Node} :
    name ∈ (requiredModule source node).requires ↔
      ∃ callee arguments literal, node.constituents.head? = some callee ∧
        callee.text source = "require" ∧
        node.children.find? (Node.isConstruct .arguments) = some arguments ∧
        arguments.children.filter Node.isNamed = [literal] ∧
        literalName source literal = some name := by
  constructor
  · intro member
    unfold requiredModule at member
    split at member
    · rename_i spelled
      obtain ⟨callee, isCallee, spelled⟩ := (Option.any_eq_true _ _).mp spelled
      split at member
      · rename_i only isOnly
        obtain ⟨arguments, isArguments, single⟩ := Option.map_eq_some_iff.mp isOnly
        exact ⟨callee, arguments, only, isCallee, eq_of_beq spelled, isArguments, single,
          Option.mem_toList.mp member⟩
      · cases member
    · cases member
  · rintro ⟨callee, arguments, literal, isCallee, spelled, isArguments, only, isName⟩
    unfold requiredModule
    rw [isCallee, Option.any_some, spelled, if_pos (beq_self_eq_true _), isArguments,
      Option.map_some, only]
    exact Option.mem_toList.mpr isName

mutual

/-- **The names that a tree requires are those of its calls.** -/
theorem mem_requiredNames {name : String} : (node : Node) →
    (name ∈ requiredNames source node ↔ Requires source name node)
  | .leaf _ _ => by
      rw [requiredNames]
      exact iff_of_false List.not_mem_nil nofun
  | .inner construct span children => by
      rw [requiredNames, List.mem_append, mem_requiredNamesAll children]
      constructor
      · rintro (here | ⟨child, member, requires⟩)
        · split at here
          · rename_i isCall
            subst isCall
            obtain ⟨_, _, _, isCallee, spelled, isArguments, only, isName⟩ :=
              (mem_requiredModule source).mp here
            exact .call isCallee spelled isArguments only isName
          · cases here
        · exact .inside member requires
      · intro requires
        cases requires with
        | call isCallee spelled isArguments only isName =>
            rw [if_pos rfl]
            exact .inl ((mem_requiredModule source).mpr
              ⟨_, _, _, isCallee, spelled, isArguments, only, isName⟩)
        | inside member requires => exact .inr ⟨_, member, requires⟩

theorem mem_requiredNamesAll {name : String} : (nodes : List Node) →
    (name ∈ requiredNamesAll source nodes ↔ ∃ node ∈ nodes, Requires source name node)
  | [] => by
      rw [requiredNamesAll]
      simp
  | first :: rest => by
      rw [requiredNamesAll, List.mem_append, mem_requiredNames first, mem_requiredNamesAll rest,
        List.exists_mem_cons_iff]

end

end Names

end Outline

/-- Whether a source requires a module by a literal name, as far as it is parsed. -/
def RequiresName (settings : AnalysisSettings) (source name : String) : Prop :=
  source.utf8ByteSize ≤ settings.maxFileBytes ∧
    ∃ tree, Syntax.parse? source = some tree ∧ Outline.Requires source name tree

/-- **The names in an analysis** are the literal names that the calls in the tree require. -/
theorem mem_requires_analyze {settings : AnalysisSettings} {source fileId name : String} :
    name ∈ (analyze settings source fileId).requires ↔ RequiresName settings source name := by
  unfold analyze RequiresName
  by_cases tooLarge : settings.maxFileBytes < source.utf8ByteSize
  · rw [if_pos tooLarge]
    exact iff_of_false List.not_mem_nil fun fits => absurd fits.1 (Nat.not_le.mpr tooLarge)
  rw [if_neg tooLarge]
  cases Syntax.parse? source with
  | none => exact iff_of_false List.not_mem_nil fun requires => by simp at requires
  | some tree =>
      have listed : (Analysis.ofTree settings source fileId tree).requires =
          (Outline.requiredNames source tree).eraseDups := by
        rw [← Outline.names_walk source none BlockId.root tree ⟨1, 1⟩]
        simp only [Analysis.ofTree, Outline.ofTree]
      simp only [listed, List.mem_eraseDups, Outline.mem_requiredNames, Option.some.injEq,
        exists_eq_left', Nat.le_of_not_lt tooLarge, true_and]

/-- A source that requires a module parses. -/
theorem RequiresName.parsed {settings : AnalysisSettings} {source name : String}
    (requires : RequiresName settings source name) (fileId : String) :
    (analyze settings source fileId).parsed = true := by
  obtain ⟨fits, tree, isParsed, -⟩ := requires
  rw [analyze, if_neg (Nat.not_lt.mpr fits), isParsed]
  rfl

end LuaCoverage
