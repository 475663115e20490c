import LuaCoverage.Proofs.Syntax.Reading
import LuaCoverage.Syntax.Grammar

/-!
# Where conditionals have their conditions

A conditional is an `if` statement or an `elseif` arm of one. Whatever the grammar reads, every
conditional in it has a condition: its first constituent, which is an expression and therefore none
of the arms that the condition picks from. A tree in which this is so is `Conditioned`, and all
trees of a source that parses are (`conditioned_of_parse`).

The proof goes through the grammar as the readers are built from each other. All of them but two
enclose what their parts give, so there is nothing to show but that the parts give conditioned trees
(`Item.gives_construct`); the readers of the two conditionals are taken apart up to the condition.
-/

set_option autoImplicit false

namespace LuaCoverage.Syntax

/-! ## Conditioned trees -/

namespace Construct

/-- Whether the instances of a construct pick between arms by a condition. -/
def isConditional : Construct → Bool
  | ifStatement | elseIfArm => true
  | _ => false

/-- Whether the instances of a construct can be arms. -/
def isArm : Construct → Bool
  | block | elseIfArm | elseArm => true
  | _ => false

end Construct

namespace Node

/-- Whether a tree can be an arm of an `if` statement. -/
def isArm : Node → Bool
  | leaf _ _ => false
  | inner construct _ _ => construct.isArm

/-- Whether a tree is a conditional. -/
def isConditional : Node → Bool
  | leaf _ _ => false
  | inner construct _ _ => construct.isConditional

/-- Whether a tree is one of the constituents of what it is a part of. -/
def isConstituent (node : Node) : Bool := node.isNamed && !node.isComment

/-- The condition of a conditional. -/
def condition? (node : Node) : Option Node := node.constituents.head?

theorem isConstituent_of_isArm {node : Node} (arm : node.isArm = true) :
    node.isConstituent = true := by
  cases node with
  | leaf kind span => cases arm
  | inner construct span children => rfl

/-- The condition stands behind parts that are no constituents. -/
theorem condition?_eq_some {construct : Construct} {span : Span} {front rest : List Node}
    {condition : Node} (bare : ∀ node ∈ front, node.isConstituent = false)
    (isCondition : condition.isConstituent = true) :
    (inner construct span (front ++ condition :: rest)).condition? = some condition := by
  have nothing : front.filter isConstituent = [] :=
    List.filter_eq_nil_iff.mpr fun node member => by rw [bare node member]; exact Bool.false_ne_true
  show (List.filter isConstituent (front ++ condition :: rest)).head? = some condition
  rw [List.filter_append, nothing, List.nil_append, List.filter_cons_of_pos isCondition,
    List.head?_cons]

end Node

/-- Whether a tree can be a condition: a constituent that is no arm. -/
structure IsOperand (node : Node) : Prop where
  constituent : node.isConstituent = true
  notArm : node.isArm = false

/-- A tree in which every conditional has a condition in front of its arms. -/
inductive Conditioned : Node → Prop
  | leaf (kind : Leaf) (span : Span) : Conditioned (.leaf kind span)
  | plain {construct : Construct} {children : List Node} (span : Span)
      (notConditional : construct.isConditional = false)
      (parts : ∀ child ∈ children, Conditioned child) :
      Conditioned (.inner construct span children)
  | conditional {construct : Construct} {front rest : List Node} {condition : Node} (span : Span)
      (bare : ∀ node ∈ front, node.isConstituent = false) (isCondition : IsOperand condition)
      (parts : ∀ child ∈ front ++ condition :: rest, Conditioned child) :
      Conditioned (.inner construct span (front ++ condition :: rest))

theorem Conditioned.of_mem_children {node child : Node} (conditioned : Conditioned node)
    (member : child ∈ node.children) : Conditioned child := by
  cases conditioned with
  | leaf kind span => exact absurd member List.not_mem_nil
  | plain span _ parts => exact parts child member
  | conditional span _ _ parts => exact parts child member

/-- **A conditional has a condition**, and all its arms stand behind it. -/
theorem Conditioned.exists_condition {node : Node} (conditioned : Conditioned node)
    {construct : Construct} {span : Span} {children : List Node}
    (isNode : node = .inner construct span children)
    (isConditional : construct.isConditional = true) :
    ∃ front condition rest, children = front ++ condition :: rest ∧
      node.condition? = some condition ∧ condition.isArm = false ∧
      ∀ arm ∈ front, arm.isArm = false := by
  cases conditioned with
  | leaf kind span => cases isNode
  | plain span notConditional parts =>
      obtain ⟨rfl, -, -⟩ := Node.inner.inj isNode
      cases isConditional.symm.trans notConditional
  | conditional span bare isCondition parts =>
      obtain ⟨-, -, rfl⟩ := Node.inner.inj isNode
      refine ⟨_, _, _, rfl, Node.condition?_eq_some bare isCondition.constituent,
        isCondition.notArm, fun arm member => Bool.eq_false_iff.mpr fun isArm => ?_⟩
      cases (bare arm member).symm.trans (Node.isConstituent_of_isArm isArm)

/-! ## What parts and readers give -/

/-- Whatever the part reads has a property. -/
def Part.Gives (holds : Node → Prop) (part : Part) : Prop :=
  ∀ cursor nodes after, part cursor = some (nodes, after) → ∀ node ∈ nodes, holds node

/-- Whatever the reader reads has a property. -/
def Item.Gives (holds : Node → Prop) (item : Item) : Prop :=
  ∀ cursor node after, item cursor = some (node, after) → holds node

/-- All parts of a list give trees with a property. -/
def Part.AllGive (holds : Node → Prop) (parts : List Part) : Prop :=
  ∀ part ∈ parts, part.Gives holds

namespace Part

variable {holds : Node → Prop}

theorem AllGive.nil : AllGive holds [] := fun _ member => absurd member List.not_mem_nil

theorem AllGive.cons {part : Part} {rest : List Part} (gives : part.Gives holds)
    (later : AllGive holds rest) : AllGive holds (part :: rest) := by
  intro other member
  rcases List.mem_cons.mp member with rfl | member
  · exact gives
  · exact later other member

theorem gives_nothing : nothing.Gives holds := by
  intro cursor nodes after found
  obtain ⟨rfl, -⟩ := Prod.mk.inj (Option.some.inj found)
  exact fun _ member => absurd member List.not_mem_nil

theorem gives_expectString : expectString.Gives holds := by
  intro cursor nodes after found
  obtain ⟨rfl, -⟩ := Prod.mk.inj (Option.some.inj found)
  exact fun _ member => absurd member List.not_mem_nil

/-- Comments in front of a tree do no harm. -/
theorem gives_one (leaf : ∀ kind span, holds (.leaf kind span)) {item : Item}
    (gives : item.Gives holds) : (one item).Gives holds := by
  intro cursor nodes after found node member
  obtain ⟨⟨comments, start⟩, isStart, found⟩ := Option.bind_eq_some_iff.mp found
  obtain ⟨⟨own, final⟩, isOwn, found⟩ := Option.bind_eq_some_iff.mp found
  obtain ⟨rfl, -⟩ := Prod.mk.inj (Option.some.inj found)
  rcases List.mem_append.mp member with comment | same
  · obtain ⟨span, rfl⟩ := (Cursor.read_toToken isStart).2 node comment
    exact leaf .comment span
  · obtain rfl := List.mem_singleton.mp same
    exact gives start node final isOwn

/-- Two parts in a row, as `sequence` and `repeatUpTo` read them. -/
theorem gives_pair {first later : Part} (gives : first.Gives holds) (gives' : later.Gives holds) :
    Part.Gives holds fun cursor => do
      let (before, between) ← first cursor
      let (behind, after) ← later between
      return (before ++ behind, after) := by
  intro cursor nodes after found node member
  obtain ⟨⟨before, between⟩, isBefore, found⟩ := Option.bind_eq_some_iff.mp found
  obtain ⟨⟨behind, final⟩, isBehind, found⟩ := Option.bind_eq_some_iff.mp found
  obtain ⟨rfl, -⟩ := Prod.mk.inj (Option.some.inj found)
  rcases List.mem_append.mp member with inFirst | inLater
  · exact gives cursor before between isBefore node inFirst
  · exact gives' between behind final isBehind node inLater

theorem gives_sequence {parts : List Part} (all : AllGive holds parts) :
    (sequence parts).Gives holds := by
  induction parts with
  | nil => exact gives_nothing
  | cons part rest ih =>
      exact gives_pair (all part List.mem_cons_self)
        (ih fun other member => all other (List.mem_cons_of_mem _ member))

theorem gives_whenNext {test : Cursor → Bool} {part : Part} (gives : part.Gives holds) :
    (whenNext test part).Gives holds := by
  intro cursor nodes after found
  obtain ⟨⟨comments, start⟩, -, found⟩ := Option.bind_eq_some_iff.mp found
  simp only at found
  split at found
  · exact gives cursor nodes after found
  · exact gives_nothing cursor nodes after found

theorem gives_repeated {test : Cursor → Bool} {part : Part} (gives : part.Gives holds) :
    (repeated test part).Gives holds := by
  have upTo : ∀ bound, (repeatUpTo test part bound).Gives holds := by
    intro bound
    induction bound with
    | zero =>
        intro cursor nodes after found
        cases found
    | succ bound ih => exact gives_whenNext (gives_pair gives ih)
  exact fun cursor => upTo (cursor.left + 1) cursor

end Part

namespace Item

/-- A reader that goes on from what another one gave. -/
theorem gives_andThen {first : Item} {later : Node → Item} {holds holds' : Node → Prop}
    (gives : first.Gives holds) (more : ∀ base, holds base → (later base).Gives holds') :
    Item.Gives holds' (fun cursor => do
      let (base, between) ← first cursor
      later base between) := by
  intro cursor node after found
  obtain ⟨⟨base, between⟩, isBase, found⟩ := Option.bind_eq_some_iff.mp found
  exact more base (gives cursor base between isBase) between node after found

theorem gives_symbol (text : String) : (symbol text).Gives Conditioned := by
  intro cursor node after found
  unfold symbol at found
  split at found
  · obtain ⟨rfl, -⟩ := Prod.mk.inj (Option.some.inj found)
    exact .leaf _ _
  · cases found

theorem gives_keyword (text : String) : (keyword text).Gives Conditioned := by
  intro cursor node after found
  unfold keyword at found
  split at found
  · obtain ⟨rfl, -⟩ := Prod.mk.inj (Option.some.inj found)
    exact .leaf _ _
  · cases found

theorem gives_anyWord (kind : Leaf) : (anyWord kind).Gives Conditioned := by
  intro cursor node after found
  unfold anyWord at found
  split at found
  · cases found
  · obtain ⟨rfl, -⟩ := Prod.mk.inj (Option.some.inj found)
    exact .leaf _ _

/-- **A construct of conditioned parts is conditioned**, if it is no conditional. -/
theorem gives_construct {kind : Construct} {parts : List Part}
    (notConditional : kind.isConditional = false) (all : Part.AllGive Conditioned parts) :
    (construct kind parts).Gives Conditioned := by
  intro cursor node after found
  obtain ⟨⟨children, final⟩, isChildren, found⟩ := Option.bind_eq_some_iff.mp found
  obtain ⟨rfl, -⟩ := Prod.mk.inj (Option.some.inj found)
  exact .plain _ notConditional (Part.gives_sequence all cursor children final isChildren)

theorem gives_extend {kind : Construct} {base : Node} {parts : List Part}
    (notConditional : kind.isConditional = false) (own : Conditioned base)
    (all : Part.AllGive Conditioned parts) : (extend kind base parts).Gives Conditioned := by
  intro cursor node after found
  obtain ⟨⟨children, final⟩, isChildren, found⟩ := Option.bind_eq_some_iff.mp found
  obtain ⟨rfl, -⟩ := Prod.mk.inj (Option.some.inj found)
  refine .plain _ notConditional fun child member => ?_
  rcases List.mem_cons.mp member with rfl | member
  · exact own
  · exact Part.gives_sequence all cursor children final isChildren child member

end Item

theorem Part.gives_conditioned {item : Item} (gives : item.Gives Conditioned) :
    (Part.one item).Gives Conditioned := Part.gives_one .leaf gives

theorem Part.gives_symbol (text : String) : (Part.symbol text).Gives Conditioned :=
  gives_conditioned (Item.gives_symbol text)

theorem Part.gives_keyword (text : String) : (Part.keyword text).Gives Conditioned :=
  gives_conditioned (Item.gives_keyword text)

theorem Part.gives_name : Part.name.Gives Conditioned :=
  gives_conditioned (Item.gives_anyWord .name)

/-- What the proof asks of the readers of what constructs nest in. -/
structure Parsers.Gives (inner : Parsers) : Prop where
  expression : ∀ limit, (inner.expression limit).Gives Conditioned
  operand : ∀ limit, (inner.expression limit).Gives IsOperand
  statements : ∀ closers, (inner.statements closers).Gives Conditioned

namespace Grammar

open Part (AllGive)

/-! ## Tokens with a shape of their own -/

theorem gives_stringLiteral : stringLiteral.Gives Conditioned := by
  intro cursor node after found
  obtain ⟨outer, -, found⟩ := Option.bind_eq_some_iff.mp found
  obtain ⟨shape, -, found⟩ := Option.bind_eq_some_iff.mp found
  obtain ⟨rfl, -⟩ := Prod.mk.inj (Option.some.inj found)
  exact .leaf _ _

theorem gives_varargs : Item.Gives Conditioned fun cursor =>
    if cursor.startsWith "..." then some (cursor.leaf .varargs 3) else none := by
  intro cursor node after found
  simp only at found
  split at found
  · obtain ⟨rfl, -⟩ := Prod.mk.inj (Option.some.inj found)
    exact .leaf _ _
  · cases found

theorem gives_binaryOperator {cursor : Cursor} {operator : Item} {strength : Strength}
    (found : binaryOperator? cursor = some (operator, strength)) : operator.Gives Conditioned := by
  unfold binaryOperator? at found
  split at found
  · obtain ⟨rfl, -⟩ := Prod.mk.inj (Option.some.inj found)
    exact Item.gives_symbol _
  · obtain ⟨word, -, isItem⟩ := Option.map_eq_some_iff.mp found
    obtain ⟨rfl, -⟩ := Prod.mk.inj isItem
    exact Item.gives_keyword _

theorem gives_unaryOperator {cursor : Cursor} {operator : Item}
    (found : unaryOperator? cursor = some operator) : operator.Gives Conditioned := by
  unfold unaryOperator? at found
  split at found
  · obtain rfl := Option.some.inj found
    exact Item.gives_keyword "not"
  · obtain ⟨text, -, rfl⟩ := Option.map_eq_some_iff.mp found
    exact Item.gives_symbol text

theorem gives_commaSeparated {part : Part} (gives : part.Gives Conditioned) :
    (commaSeparated part).Gives Conditioned :=
  Part.gives_sequence (.cons gives (.cons (Part.gives_repeated
    (Part.gives_sequence (.cons (Part.gives_symbol ",") (.cons gives .nil)))) .nil))

/-! ## Expressions -/

section Expressions

variable {inner : Parsers} (gives : inner.Gives)

include gives

theorem gives_expressionPart : (expressionPart inner).Gives Conditioned :=
  Part.gives_sequence (.cons Part.gives_expectString
    (.cons (Part.gives_conditioned (gives.expression 0)) .nil))

theorem gives_body (closers : List String) : (body inner closers).Gives Conditioned := by
  intro cursor nodes after found node member
  obtain ⟨⟨comments, start⟩, isStart, found⟩ := Option.bind_eq_some_iff.mp found
  obtain ⟨⟨statements, final⟩, isStatements, found⟩ := Option.bind_eq_some_iff.mp found
  simp only at found
  split at found
  · obtain ⟨rfl, -⟩ := Prod.mk.inj (Option.some.inj found)
    exact absurd member List.not_mem_nil
  · obtain ⟨rfl, -⟩ := Prod.mk.inj (Option.some.inj found)
    rcases List.mem_append.mp member with comment | same
    · obtain ⟨span, rfl⟩ := (Cursor.read_toToken isStart).2 node comment
      exact .leaf .comment span
    · obtain rfl := List.mem_singleton.mp same
      exact .plain _ rfl (gives.statements closers start statements final isStatements)

omit gives in
theorem gives_parameters : parameters.Gives Conditioned := by
  refine Item.gives_construct rfl (.cons (Part.gives_symbol "(")
    (.cons (Part.gives_whenNext ?_) (.cons (Part.gives_symbol ")") .nil)))
  intro cursor nodes after found
  obtain ⟨⟨listed, final⟩, isListed, found⟩ := Option.bind_eq_some_iff.mp found
  simp only at found
  split at found
  · cases found
  · obtain ⟨rfl, -⟩ := Prod.mk.inj (Option.some.inj found)
    refine gives_commaSeparated ?_ cursor listed final isListed
    intro cursor nodes after found
    obtain ⟨⟨comments, start⟩, -, found⟩ := Option.bind_eq_some_iff.mp found
    simp only at found
    split at found
    · exact Part.gives_conditioned gives_varargs cursor nodes after found
    · exact Part.gives_name cursor nodes after found

theorem gives_functionParts : AllGive Conditioned (functionParts inner) :=
  .cons (Part.gives_conditioned gives_parameters)
    (.cons (gives_body gives ["end"]) (.cons (Part.gives_keyword "end") .nil))

theorem gives_functionExpression : (functionExpression inner).Gives Conditioned :=
  Item.gives_construct rfl (.cons (Part.gives_keyword "function") (gives_functionParts gives))

theorem gives_tableField : (tableField inner).Gives Conditioned := by
  have value := gives_expressionPart gives
  intro cursor node after found
  unfold tableField at found
  split at found
  · exact Item.gives_construct rfl (.cons (Part.gives_symbol "[") (.cons value
      (.cons (Part.gives_symbol "]") (.cons (Part.gives_symbol "=") (.cons value .nil)))))
      cursor node after found
  · simp only at found
    split at found
    · cases found
    · exact Item.gives_construct rfl (.cons Part.gives_name (.cons Part.gives_expectString
        (.cons (Part.gives_symbol "=") (.cons value .nil)))) cursor node after found
    · exact Item.gives_construct rfl (.cons value .nil) cursor node after found

theorem gives_tableConstructor : (tableConstructor inner).Gives Conditioned := by
  have separator : Item.Gives Conditioned fun cursor =>
      if atComma cursor then Item.symbol "," cursor else Item.symbol ";" cursor := by
    intro cursor node after found
    simp only at found
    split at found
    · exact Item.gives_symbol "," cursor node after found
    · exact Item.gives_symbol ";" cursor node after found
  have field := Part.gives_conditioned (gives_tableField gives)
  refine Item.gives_construct rfl (.cons (Part.gives_symbol "\x7b") (.cons Part.gives_expectString
    (.cons (Part.gives_whenNext (Part.gives_sequence (.cons field (.cons ?_ .nil))))
      (.cons (Part.gives_symbol "\x7d") .nil))))
  exact Part.gives_repeated (Part.gives_sequence (.cons (Part.gives_conditioned separator)
    (.cons Part.gives_expectString (.cons (Part.gives_whenNext field) .nil))))

theorem gives_arguments : (arguments inner).Gives Conditioned := by
  intro cursor node after found
  unfold arguments at found
  split at found
  · exact Item.gives_construct rfl (.cons (Part.gives_symbol "(") (.cons Part.gives_expectString
      (.cons (Part.gives_whenNext (gives_commaSeparated (gives_expressionPart gives)))
        (.cons (Part.gives_symbol ")") .nil)))) cursor node after found
  · split at found
    · exact Item.gives_construct rfl
        (.cons (Part.gives_conditioned (gives_tableConstructor gives)) .nil) cursor node after found
    · exact Item.gives_construct rfl (.cons (Part.gives_conditioned gives_stringLiteral) .nil)
        cursor node after found

theorem gives_suffixes (bound : Nat) {base : Node} (own : Conditioned base) :
    (suffixes inner bound base).Gives Conditioned := by
  induction bound generalizing base with
  | zero =>
      intro cursor node after found
      cases found
  | succ bound ih =>
      have later : ∀ node, Conditioned node → (suffixes inner bound node).Gives Conditioned :=
        fun _ own => ih own
      have call : AllGive Conditioned [Part.one (arguments inner)] :=
        .cons (Part.gives_conditioned (gives_arguments gives)) .nil
      intro cursor node after found
      obtain ⟨⟨comments, start⟩, -, found⟩ := Option.bind_eq_some_iff.mp found
      simp only at found
      split at found
      · exact Item.gives_andThen (Item.gives_extend (by rfl) own (.cons (Part.gives_symbol ".")
          (.cons Part.gives_name .nil))) later _ node after found
      · split at found
        · exact Item.gives_andThen (Item.gives_extend (by rfl) own (.cons (Part.gives_symbol "[")
            (.cons (gives_expressionPart gives) (.cons (Part.gives_symbol "]") .nil)))) later
              _ node after found
        · split at found
          · obtain ⟨⟨method, between⟩, isMethod, found⟩ := Option.bind_eq_some_iff.mp found
            have own := Item.gives_extend rfl own (.cons (Part.gives_symbol ":")
              (.cons Part.gives_name .nil)) _ method between isMethod
            exact Item.gives_andThen (Item.gives_extend (by rfl) own
              (.cons Part.gives_expectString call)) later between node after found
          · split at found
            · exact Item.gives_andThen (Item.gives_extend (by rfl) own call) later _ node after
                found
            · obtain ⟨rfl, -⟩ := Prod.mk.inj (Option.some.inj found)
              exact own

theorem gives_indexable : (indexable inner).Gives Conditioned := by
  have later : ∀ base, Conditioned base → Item.Gives Conditioned fun place =>
      suffixes inner (place.left + 1) base place :=
    fun _ own place => gives_suffixes gives (place.left + 1) own place
  intro cursor node after found
  unfold indexable at found
  simp only at found
  split at found
  · exact Item.gives_andThen (Item.gives_construct (by rfl) (.cons (Part.gives_symbol "(")
      (.cons (gives_expressionPart gives) (.cons (Part.gives_symbol ")") .nil)))) later
      cursor node after found
  · exact Item.gives_andThen (Item.gives_anyWord .name) later cursor node after found

theorem gives_operand : (operand inner).Gives Conditioned := by
  intro cursor node after found
  unfold operand at found
  simp only at found
  split at found
  · obtain ⟨rfl, -⟩ := Prod.mk.inj (Option.some.inj found)
    exact .leaf _ _
  · split at found
    · rename_i starts
      exact gives_varargs cursor node after ((if_pos starts).trans found)
    · split at found
      · exact gives_stringLiteral cursor node after found
      · split at found
        · exact gives_tableConstructor gives cursor node after found
        · split at found
          · exact gives_functionExpression gives cursor node after found
          · split at found
            · exact Item.gives_anyWord .constant cursor node after found
            · exact gives_indexable gives cursor node after found

theorem gives_operations (limit bound : Nat) {left : Node} (own : Conditioned left) :
    (operations inner limit bound left).Gives Conditioned := by
  induction bound generalizing left with
  | zero =>
      intro cursor node after found
      cases found
  | succ bound ih =>
      intro cursor node after found
      obtain ⟨⟨comments, start⟩, -, found⟩ := Option.bind_eq_some_iff.mp found
      simp only at found
      split at found
      · obtain ⟨rfl, -⟩ := Prod.mk.inj (Option.some.inj found)
        exact own
      · rename_i operator strength isOperator
        split at found
        · exact Item.gives_andThen (Item.gives_extend (by rfl) own
            (.cons (Part.gives_conditioned (gives_binaryOperator isOperator))
              (.cons Part.gives_expectString
                (.cons (Part.gives_conditioned (gives.expression strength.right)) .nil))))
            (fun _ own => ih own) cursor node after found
        · obtain ⟨rfl, -⟩ := Prod.mk.inj (Option.some.inj found)
          exact own

theorem gives_expression (limit : Nat) : (expression inner limit).Gives Conditioned := by
  have later : ∀ left, Conditioned left → Item.Gives Conditioned fun place =>
      operations inner limit (place.left + 1) left place :=
    fun _ own place => gives_operations gives limit (place.left + 1) own place
  intro cursor node after found
  unfold expression at found
  simp only at found
  split at found
  · rename_i operator isOperator
    exact Item.gives_andThen (Item.gives_construct (by rfl)
      (.cons (Part.gives_conditioned (gives_unaryOperator isOperator))
        (.cons Part.gives_expectString (.cons (Part.gives_conditioned (gives.expression _)) .nil))))
      later cursor node after found
  · exact Item.gives_andThen (gives_operand gives) later cursor node after found

theorem gives_expressionList : (expressionList inner).Gives Conditioned :=
  Item.gives_construct rfl (.cons (gives_commaSeparated (gives_expressionPart gives)) .nil)

theorem gives_expressionListPart : (expressionListPart inner).Gives Conditioned :=
  Part.gives_sequence (.cons Part.gives_expectString
    (.cons (Part.gives_conditioned (gives_expressionList gives)) .nil))

end Expressions

/-! ## Expressions are no arms -/

theorem isOperand_construct {kind : Construct} (notArm : kind.isArm = false) {parts : List Part} :
    (Item.construct kind parts).Gives IsOperand := by
  intro cursor node after found
  obtain ⟨⟨children, final⟩, -, found⟩ := Option.bind_eq_some_iff.mp found
  obtain ⟨rfl, -⟩ := Prod.mk.inj (Option.some.inj found)
  exact ⟨rfl, notArm⟩

theorem isOperand_extend {kind : Construct} (notArm : kind.isArm = false) {base : Node}
    {parts : List Part} : (Item.extend kind base parts).Gives IsOperand := by
  intro cursor node after found
  obtain ⟨⟨children, final⟩, -, found⟩ := Option.bind_eq_some_iff.mp found
  obtain ⟨rfl, -⟩ := Prod.mk.inj (Option.some.inj found)
  exact ⟨rfl, notArm⟩

theorem isOperand_leaf {kind : Leaf} (constituent : ∀ span, (Node.leaf kind span).isConstituent)
    (span : Span) : IsOperand (.leaf kind span) := ⟨constituent span, rfl⟩

theorem isOperand_anyWord {kind : Leaf}
    (constituent : ∀ span, (Node.leaf kind span).isConstituent) :
    (Item.anyWord kind).Gives IsOperand := by
  intro cursor node after found
  unfold Item.anyWord at found
  split at found
  · cases found
  · obtain ⟨rfl, -⟩ := Prod.mk.inj (Option.some.inj found)
    exact isOperand_leaf constituent _

theorem isOperand_stringLiteral : stringLiteral.Gives IsOperand := by
  intro cursor node after found
  obtain ⟨outer, -, found⟩ := Option.bind_eq_some_iff.mp found
  obtain ⟨shape, -, found⟩ := Option.bind_eq_some_iff.mp found
  obtain ⟨rfl, -⟩ := Prod.mk.inj (Option.some.inj found)
  exact isOperand_leaf (fun _ => rfl) _

variable (inner : Parsers)

theorem isOperand_suffixes (bound : Nat) {base : Node} (own : IsOperand base) :
    (suffixes inner bound base).Gives IsOperand := by
  induction bound generalizing base with
  | zero =>
      intro cursor node after found
      cases found
  | succ bound ih =>
      have later : ∀ node, IsOperand node → (suffixes inner bound node).Gives IsOperand :=
        fun _ own => ih own
      intro cursor node after found
      obtain ⟨⟨comments, start⟩, -, found⟩ := Option.bind_eq_some_iff.mp found
      simp only at found
      split at found
      · exact Item.gives_andThen (isOperand_extend (by rfl)) later _ node after found
      · split at found
        · exact Item.gives_andThen (isOperand_extend (by rfl)) later _ node after found
        · split at found
          · obtain ⟨⟨method, between⟩, -, found⟩ := Option.bind_eq_some_iff.mp found
            exact Item.gives_andThen (isOperand_extend (by rfl)) later between node after found
          · split at found
            · exact Item.gives_andThen (isOperand_extend (by rfl)) later _ node after found
            · obtain ⟨rfl, -⟩ := Prod.mk.inj (Option.some.inj found)
              exact own

theorem isOperand_indexable : (indexable inner).Gives IsOperand := by
  have later : ∀ base, IsOperand base → Item.Gives IsOperand fun place =>
      suffixes inner (place.left + 1) base place :=
    fun _ own place => isOperand_suffixes inner (place.left + 1) own place
  intro cursor node after found
  unfold indexable at found
  simp only at found
  split at found
  · exact Item.gives_andThen (isOperand_construct (by rfl)) later cursor node after found
  · exact Item.gives_andThen (isOperand_anyWord fun _ => rfl) later cursor node after found

theorem isOperand_operand : (operand inner).Gives IsOperand := by
  intro cursor node after found
  unfold operand at found
  simp only at found
  split at found
  · obtain ⟨rfl, -⟩ := Prod.mk.inj (Option.some.inj found)
    exact isOperand_leaf (fun _ => rfl) _
  · split at found
    · obtain ⟨rfl, -⟩ := Prod.mk.inj (Option.some.inj found)
      exact isOperand_leaf (fun _ => rfl) _
    · split at found
      · exact isOperand_stringLiteral cursor node after found
      · split at found
        · exact isOperand_construct rfl cursor node after found
        · split at found
          · exact isOperand_construct rfl cursor node after found
          · split at found
            · exact isOperand_anyWord (fun _ => rfl) cursor node after found
            · exact isOperand_indexable inner cursor node after found

theorem isOperand_operations (limit bound : Nat) {left : Node} (own : IsOperand left) :
    (operations inner limit bound left).Gives IsOperand := by
  induction bound generalizing left with
  | zero =>
      intro cursor node after found
      cases found
  | succ bound ih =>
      intro cursor node after found
      obtain ⟨⟨comments, start⟩, -, found⟩ := Option.bind_eq_some_iff.mp found
      simp only at found
      split at found
      · obtain ⟨rfl, -⟩ := Prod.mk.inj (Option.some.inj found)
        exact own
      · split at found
        · exact Item.gives_andThen (isOperand_extend (by rfl)) (fun _ own => ih own) cursor node
            after found
        · obtain ⟨rfl, -⟩ := Prod.mk.inj (Option.some.inj found)
          exact own

/-- **An expression is a constituent of what it is a part of, and no arm.** -/
theorem isOperand_expression (limit : Nat) : (expression inner limit).Gives IsOperand := by
  have later : ∀ left, IsOperand left → Item.Gives IsOperand fun place =>
      operations inner limit (place.left + 1) left place :=
    fun _ own place => isOperand_operations inner limit (place.left + 1) own place
  intro cursor node after found
  unfold expression at found
  simp only at found
  split at found
  · exact Item.gives_andThen (isOperand_construct (by rfl)) later cursor node after found
  · exact Item.gives_andThen (isOperand_operand inner) later cursor node after found

/-! ## Statements -/

section Statements

variable {inner} (gives : inner.Gives)

include gives

omit gives in
/-- A keyword and the comments before it are no constituents. -/
theorem isConstituent_keyword {text : String} {cursor after : Cursor} {nodes : List Node}
    (found : Part.keyword text cursor = some (nodes, after)) :
    ∀ node ∈ nodes, node.isConstituent = false := by
  intro node member
  obtain ⟨⟨comments, start⟩, isStart, found⟩ := Option.bind_eq_some_iff.mp found
  obtain ⟨⟨own, final⟩, isOwn, found⟩ := Option.bind_eq_some_iff.mp found
  obtain ⟨rfl, -⟩ := Prod.mk.inj (Option.some.inj found)
  rcases List.mem_append.mp member with comment | same
  · obtain ⟨span, rfl⟩ := (Cursor.read_toToken isStart).2 node comment
    rfl
  · obtain rfl := List.mem_singleton.mp same
    unfold Item.keyword at isOwn
    split at isOwn
    · obtain ⟨rfl, -⟩ := Prod.mk.inj (Option.some.inj isOwn)
      rfl
    · cases isOwn

/-- What is read where an expression is expected is one, with the comments before it. -/
theorem exists_expression {cursor after : Cursor} {nodes : List Node}
    (found : expressionPart inner cursor = some (nodes, after)) :
    ∃ comments condition, nodes = comments ++ [condition] ∧
      (∀ node ∈ comments, ∃ span, node = .leaf .comment span) ∧ IsOperand condition := by
  obtain ⟨⟨value, behind⟩, isValue, found⟩ := Option.bind_eq_some_iff.mp found
  obtain ⟨rfl, -⟩ := Prod.mk.inj (Option.some.inj found)
  obtain ⟨⟨read, final⟩, isRead, isValue⟩ := Option.bind_eq_some_iff.mp isValue
  obtain ⟨rfl, -⟩ := Prod.mk.inj (Option.some.inj isValue)
  obtain ⟨⟨comments, start⟩, isStart, isRead⟩ := Option.bind_eq_some_iff.mp isRead
  obtain ⟨⟨condition, place⟩, isCondition, isRead⟩ := Option.bind_eq_some_iff.mp isRead
  obtain ⟨rfl, -⟩ := Prod.mk.inj (Option.some.inj isRead)
  exact ⟨comments, condition, by simp, (Cursor.read_toToken isStart).2,
    gives.operand 0 start condition place isCondition⟩

/-- **A conditional is conditioned**: its keyword and comments are followed by an expression. -/
theorem gives_conditional (kind : Construct) (keyword : String) {rest : List Part}
    (all : AllGive Conditioned rest) : (Item.construct kind
      (Part.keyword keyword :: expressionPart inner :: rest)).Gives Conditioned := by
  intro cursor node after found
  obtain ⟨⟨children, final⟩, isChildren, found⟩ := Option.bind_eq_some_iff.mp found
  obtain ⟨rfl, -⟩ := Prod.mk.inj (Option.some.inj found)
  have parts := Part.gives_sequence
    (.cons (Part.gives_keyword keyword) (.cons (gives_expressionPart gives) all))
    cursor children final isChildren
  obtain ⟨⟨first, between⟩, isFirst, isChildren⟩ := Option.bind_eq_some_iff.mp isChildren
  obtain ⟨⟨later, place⟩, isLater, isChildren⟩ := Option.bind_eq_some_iff.mp isChildren
  obtain ⟨rfl, -⟩ := Prod.mk.inj (Option.some.inj isChildren)
  obtain ⟨⟨value, behind⟩, isValue, isLater⟩ := Option.bind_eq_some_iff.mp isLater
  obtain ⟨⟨arms, last⟩, -, isLater⟩ := Option.bind_eq_some_iff.mp isLater
  obtain ⟨rfl, -⟩ := Prod.mk.inj (Option.some.inj isLater)
  obtain ⟨comments, condition, rfl, all, isCondition⟩ := exists_expression gives isValue
  have bare : ∀ node ∈ first ++ comments, node.isConstituent = false := by
    intro node member
    rcases List.mem_append.mp member with inFirst | comment
    · exact isConstituent_keyword isFirst node inFirst
    · obtain ⟨span, rfl⟩ := all node comment
      rfl
  have regroup : first ++ (comments ++ [condition] ++ arms) =
      (first ++ comments) ++ condition :: arms := by simp
  rw [regroup] at parts ⊢
  exact .conditional _ bare isCondition parts

theorem gives_ifStatement : (ifStatement inner).Gives Conditioned := by
  have arm := gives_body gives armClosers
  have then_ := Part.gives_keyword "then"
  refine gives_conditional gives .ifStatement "if" (.cons then_ (.cons arm
    (.cons (Part.gives_repeated ?_) (.cons (Part.gives_whenNext ?_)
      (.cons (Part.gives_keyword "end") .nil)))))
  · exact Part.gives_conditioned
      (gives_conditional gives .elseIfArm "elseif" (.cons then_ (.cons arm .nil)))
  · exact Part.gives_conditioned (Item.gives_construct rfl
      (.cons (Part.gives_keyword "else") (.cons (gives_body gives ["end"]) .nil)))

theorem gives_assignable : (assignable inner).Gives Conditioned := by
  intro cursor node after found
  obtain ⟨⟨target, final⟩, isTarget, found⟩ := Option.bind_eq_some_iff.mp found
  simp only at found
  split at found
  · obtain ⟨rfl, -⟩ := Prod.mk.inj (Option.some.inj found)
    exact gives_indexable gives cursor target final isTarget
  · cases found

theorem gives_callOrAssignment : (callOrAssignment inner).Gives Conditioned := by
  intro cursor node after found
  obtain ⟨⟨base, between⟩, isBase, found⟩ := Option.bind_eq_some_iff.mp found
  have own := gives_indexable gives cursor base between isBase
  simp only at found
  split at found
  · obtain ⟨rfl, -⟩ := Prod.mk.inj (Option.some.inj found)
    exact own
  · split at found
    · have more : AllGive Conditioned [Part.repeated atComma
          (Part.sequence [Part.symbol ",", Part.one (assignable inner)])] :=
        .cons (Part.gives_repeated (Part.gives_sequence (.cons (Part.gives_symbol ",")
          (.cons (Part.gives_conditioned (gives_assignable gives)) .nil)))) .nil
      have value : AllGive Conditioned [Part.symbol "=", expressionListPart inner] :=
        .cons (Part.gives_symbol "=") (.cons (gives_expressionListPart gives) .nil)
      exact Item.gives_andThen (Item.gives_extend (by rfl) own more)
        (fun _ own => Item.gives_extend (by rfl) own value) between node after found
    · cases found

omit gives in
theorem gives_attributedName : attributedName.Gives Conditioned :=
  Part.gives_sequence (.cons Part.gives_name (.cons (Part.gives_whenNext
    (Part.gives_conditioned (Item.gives_construct rfl (.cons (Part.gives_symbol "<")
      (.cons Part.gives_name (.cons (Part.gives_symbol ">") .nil)))))) .nil))

theorem gives_localVariables : (localVariables inner).Gives Conditioned := by
  intro cursor node after found
  obtain ⟨⟨names, between⟩, isNames, found⟩ := Option.bind_eq_some_iff.mp found
  obtain ⟨⟨comments, start⟩, -, found⟩ := Option.bind_eq_some_iff.mp found
  have own := Item.gives_construct rfl (.cons (gives_commaSeparated gives_attributedName) .nil)
    cursor names between isNames
  simp only at found
  split at found
  · exact Item.gives_extend rfl own (.cons (Part.gives_symbol "=")
      (.cons (gives_expressionListPart gives) .nil)) between node after found
  · obtain ⟨rfl, -⟩ := Prod.mk.inj (Option.some.inj found)
    exact own

theorem gives_localDeclaration : (localDeclaration inner).Gives Conditioned := by
  intro cursor node after found
  obtain ⟨⟨keyword, afterKeyword⟩, -, found⟩ := Option.bind_eq_some_iff.mp found
  obtain ⟨⟨comments, start⟩, -, found⟩ := Option.bind_eq_some_iff.mp found
  simp only at found
  split at found
  · exact Item.gives_construct rfl (.cons (Part.gives_keyword "local")
      (.cons (Part.gives_keyword "function") (.cons Part.gives_name (gives_functionParts gives))))
      cursor node after found
  · exact Item.gives_construct rfl (.cons (Part.gives_keyword "local")
      (.cons (Part.gives_conditioned (gives_localVariables gives)) .nil)) cursor node after found

omit gives in
theorem gives_dottedName (bound : Nat) {base : Node} (own : Conditioned base) :
    (dottedName bound base).Gives Conditioned := by
  induction bound generalizing base with
  | zero =>
      intro cursor node after found
      cases found
  | succ bound ih =>
      intro cursor node after found
      obtain ⟨⟨comments, start⟩, -, found⟩ := Option.bind_eq_some_iff.mp found
      simp only at found
      split at found
      · exact Item.gives_andThen (Item.gives_extend (by rfl) own (.cons (Part.gives_symbol ".")
          (.cons Part.gives_name .nil))) (fun _ own => ih own) cursor node after found
      · split at found
        · exact Item.gives_extend rfl own (.cons (Part.gives_symbol ":")
            (.cons Part.gives_name .nil)) cursor node after found
        · obtain ⟨rfl, -⟩ := Prod.mk.inj (Option.some.inj found)
          exact own

theorem gives_functionDeclaration : (functionDeclaration inner).Gives Conditioned := by
  have name : functionName.Gives Conditioned :=
    Item.gives_andThen (Item.gives_anyWord .name)
      fun base own place => gives_dottedName (place.left + 1) own place
  exact Item.gives_construct rfl (.cons (Part.gives_keyword "function")
    (.cons (Part.gives_conditioned name) (gives_functionParts gives)))

theorem gives_forClause : (forClause inner).Gives Conditioned := by
  have value := gives_expressionPart gives
  have comma := Part.gives_symbol ","
  intro cursor node after found
  obtain ⟨⟨name, afterName⟩, isName, found⟩ := Option.bind_eq_some_iff.mp found
  obtain ⟨⟨comments, start⟩, -, found⟩ := Option.bind_eq_some_iff.mp found
  have own := Item.gives_anyWord .name cursor name afterName isName
  simp only at found
  split at found
  · exact Item.gives_extend rfl own (.cons (Part.gives_symbol "=") (.cons value (.cons comma
      (.cons value (.cons (Part.gives_whenNext (Part.gives_sequence
        (.cons comma (.cons value .nil)))) .nil))))) afterName node after found
  · have names : AllGive Conditioned
        [Part.repeated atComma (Part.sequence [Part.symbol ",", Part.name])] :=
      .cons (Part.gives_repeated (Part.gives_sequence (.cons comma
        (.cons Part.gives_name .nil)))) .nil
    have values : AllGive Conditioned [Part.keyword "in", expressionListPart inner] :=
      .cons (Part.gives_keyword "in") (.cons (gives_expressionListPart gives) .nil)
    exact Item.gives_andThen (Item.gives_extend (by rfl) own names)
      (fun _ own => Item.gives_extend (by rfl) own values) afterName node after found

theorem gives_statement : (statement inner).Gives Conditioned := by
  have value := gives_expressionPart gives
  have inside := gives_body gives ["end"]
  have end_ := Part.gives_keyword "end"
  have do_ := Part.gives_keyword "do"
  have label := Part.gives_symbol "::"
  intro cursor node after found
  unfold statement at found
  split at found
  · exact Item.gives_construct rfl (.cons (Part.gives_symbol ";") .nil) cursor node after found
  · split at found
    · exact Item.gives_construct rfl (.cons label (.cons Part.gives_name (.cons label .nil)))
        cursor node after found
    · split at found
      · exact Item.gives_anyWord .breakStatement cursor node after found
      · exact Item.gives_construct rfl
          (.cons (Part.gives_keyword "goto") (.cons Part.gives_name .nil)) cursor node after found
      · exact Item.gives_construct rfl (.cons do_ (.cons inside (.cons end_ .nil)))
          cursor node after found
      · exact Item.gives_construct rfl (.cons (Part.gives_keyword "while")
          (.cons value (.cons do_ (.cons inside (.cons end_ .nil))))) cursor node after found
      · exact Item.gives_construct rfl (.cons (Part.gives_keyword "repeat")
          (.cons (gives_body gives ["until"]) (.cons (Part.gives_keyword "until")
            (.cons value .nil)))) cursor node after found
      · exact gives_ifStatement gives cursor node after found
      · exact Item.gives_construct rfl (.cons (Part.gives_keyword "for")
          (.cons (Part.gives_conditioned (gives_forClause gives))
            (.cons do_ (.cons inside (.cons end_ .nil))))) cursor node after found
      · exact gives_functionDeclaration gives cursor node after found
      · exact gives_localDeclaration gives cursor node after found
      · exact gives_callOrAssignment gives cursor node after found

theorem gives_returnStatement (closers : List String) :
    (returnStatement inner closers).Gives Conditioned :=
  Item.gives_construct rfl (.cons (Part.gives_keyword "return") (.cons Part.gives_expectString
    (.cons (Part.gives_whenNext (gives_expressionListPart gives))
      (.cons (Part.gives_whenNext (Part.gives_symbol ";")) .nil))))

theorem gives_statements (bound : Nat) (closers : List String) :
    (statements inner closers bound).Gives Conditioned := by
  induction bound generalizing closers with
  | zero =>
      intro cursor nodes after found
      cases found
  | succ bound ih =>
      intro cursor nodes after found node member
      obtain ⟨⟨comments, start⟩, isStart, found⟩ := Option.bind_eq_some_iff.mp found
      have comment : ∀ node ∈ comments, Conditioned node := by
        intro node member
        obtain ⟨span, rfl⟩ := (Cursor.read_toToken isStart).2 node member
        exact .leaf .comment span
      simp only at found
      split at found
      · obtain ⟨rfl, -⟩ := Prod.mk.inj (Option.some.inj found)
        exact absurd member List.not_mem_nil
      · split at found
        · obtain ⟨⟨final, place⟩, isFinal, found⟩ := Option.bind_eq_some_iff.mp found
          obtain ⟨rfl, -⟩ := Prod.mk.inj (Option.some.inj found)
          rcases List.mem_append.mp member with inComments | same
          · exact comment node inComments
          · obtain rfl := List.mem_singleton.mp same
            exact gives_returnStatement gives _ start node place isFinal
        · obtain ⟨⟨first, between⟩, isFirst, found⟩ := Option.bind_eq_some_iff.mp found
          obtain ⟨⟨later, place⟩, isLater, found⟩ := Option.bind_eq_some_iff.mp found
          obtain ⟨rfl, -⟩ := Prod.mk.inj (Option.some.inj found)
          rcases List.mem_append.mp member with inComments | member
          · exact comment node inComments
          · rcases List.mem_cons.mp member with rfl | inLater
            · exact gives_statement gives start node between isFirst
            · exact ih _ between later place isLater node inLater

end Statements

end Grammar

/-! ## All levels -/

theorem Parsers.Gives.deeper {inner : Parsers} (gives : inner.Gives) : inner.deeper.Gives where
  expression := fun limit => Grammar.gives_expression gives limit
  operand := fun limit => Grammar.isOperand_expression inner limit
  statements := fun closers cursor =>
    Grammar.gives_statements gives (cursor.left + 1) closers cursor

theorem Parsers.gives_level (levels : Nat) : (Parsers.level levels).Gives := by
  induction levels with
  | zero =>
      refine ⟨?_, ?_, ?_⟩
      · intro limit cursor node after found
        cases found
      · intro limit cursor node after found
        cases found
      · intro closers cursor nodes after found
        cases found
  | succ levels ih => exact ih.deeper

/-- **All trees of a source that parses are conditioned.** -/
theorem conditioned_of_parse {source : String} {tree : Node} (parsed : parse? source = some tree) :
    Conditioned tree := by
  unfold parse? at parsed
  simp only at parsed
  split at parsed
  · cases parsed
  · obtain ⟨⟨children, after⟩, isChildren, parsed⟩ := Option.bind_eq_some_iff.mp parsed
    obtain ⟨⟨comments, final⟩, isComments, parsed⟩ := Option.bind_eq_some_iff.mp parsed
    simp only at parsed
    split at parsed
    · obtain rfl := Option.some.inj parsed
      have first : shebang.Gives Conditioned := by
        refine Part.gives_whenNext (Part.gives_conditioned fun cursor node after found => ?_)
        obtain ⟨rfl, -⟩ := Prod.mk.inj (Option.some.inj found)
        exact .leaf _ _
      have all := Part.gives_sequence (.cons first
        (.cons ((Parsers.gives_level ((Cursor.ofSource source).left + 1)).statements []) .nil))
        _ _ _ isChildren
      refine .plain _ rfl fun node member => ?_
      rcases List.mem_append.mp member with inside | comment
      · exact all node inside
      · obtain ⟨span, rfl⟩ := (Cursor.read_toToken isComments).2 node comment
        exact .leaf .comment span
    · cases parsed

end LuaCoverage.Syntax
