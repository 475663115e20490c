import LuaCoverage.Proofs.Syntax.Reading
import LuaCoverage.Syntax.Grammar

/-!
# Parsing keeps the text

Every reader of the grammar is sound when the readers one level further inside are, so all levels
are. The tree of a source that parses therefore tiles the source: apart from a mark for the encoding
and a first line for the operating system, the leaves below the chunk are the tokens and comments of
the text in their order (`exists_tiled_of_parse`).
-/

set_option autoImplicit false

namespace LuaCoverage.Syntax

/-- What the grammar asks of the readers of what constructs nest in. -/
structure Parsers.Sound (inner : Parsers) : Prop where
  expression : ∀ limit, (inner.expression limit).Sound
  statements : ∀ closers, (inner.statements closers).Sound
  /-- No statement is a mere symbol. -/
  named : ∀ closers cursor nodes after, inner.statements closers cursor = some (nodes, after) →
    ∀ node ∈ nodes, node.isNamed

namespace Grammar

open Part (AllSound)

/-! ## Tokens with a shape of their own -/

theorem sound_stringLiteral : stringLiteral.Sound := by
  intro cursor node after found
  obtain ⟨outer, isOuter, found⟩ := Option.bind_eq_some_iff.mp found
  obtain ⟨shape, rfl, found⟩ := Option.bind_eq_some_iff.mp found
  obtain ⟨rfl, rfl⟩ := Prod.mk.inj (Option.some.inj found)
  refine ⟨Read.leaf _ (Lexeme.isInk_string isOuter) ?_ ?_, .leaf _ _⟩
  · simp only [Cursor.advance, List.drop_drop]
  · simp only [Cursor.advance, ← Position.advance_append, List.take_add, List.drop_drop]

theorem ink_binaryOperators : ∀ operator ∈ binaryOperators, isInk operator.1.toList = true := by
  decide

theorem filled_binaryWords : ∀ operator ∈ binaryWords, operator.1.toList ≠ [] := by
  decide

theorem sound_binaryOperator {cursor : Cursor} {operator : Item} {strength : Strength}
    (found : binaryOperator? cursor = some (operator, strength)) : operator.Sound := by
  unfold binaryOperator? at found
  split at found
  · rename_i text own isFound
    obtain ⟨rfl, -⟩ := Prod.mk.inj (Option.some.inj found)
    exact Item.sound_symbol text (ink_binaryOperators _ (List.mem_of_find?_eq_some isFound))
  · obtain ⟨word, isFound, isItem⟩ := Option.map_eq_some_iff.mp found
    obtain ⟨rfl, -⟩ := Prod.mk.inj isItem
    exact Item.sound_keyword word.1 (filled_binaryWords _ (List.mem_of_find?_eq_some isFound))

theorem sound_unaryOperator {cursor : Cursor} {operator : Item}
    (found : unaryOperator? cursor = some operator) : operator.Sound := by
  unfold unaryOperator? at found
  split at found
  · obtain rfl := Option.some.inj found
    exact Item.sound_keyword "not" (by decide)
  · obtain ⟨text, isFound, rfl⟩ := Option.map_eq_some_iff.mp found
    have ink : ∀ text ∈ ["#", "-", "~"], isInk text.toList = true := by decide
    exact Item.sound_symbol text (ink text (List.mem_of_find?_eq_some isFound))

/-- A leaf of a fixed text is read soundly where that text stands. -/
theorem sound_varargs : Item.Sound fun cursor =>
    if cursor.startsWith "..." then some (cursor.leaf .varargs 3) else none := by
  intro cursor node after found
  simp only at found
  split at found
  · rename_i starts
    refine Item.read_leaf ?_ (Option.some.inj found)
    have isPrefix : "...".toList <+: cursor.rest := List.isPrefixOf_iff_prefix.mp starts
    have taken : cursor.rest.take 3 = "...".toList := (List.prefix_iff_eq_take.mp isPrefix).symm
    rw [taken]
    decide
  · cases found

theorem firm_commaSeparated {part : Part} (firm : part.Firm) : (commaSeparated part).Firm :=
  Part.firm_sequence firm
    (.cons (Part.sound_repeated (Part.sound_sequence
      (.cons (Part.firm_symbol "," (by decide)).sound (.cons firm.sound .nil)))) .nil)

/-! ## Expressions -/

section Expressions

variable {inner : Parsers} (sound : inner.Sound)

include sound

theorem firm_expressionPart : (expressionPart inner).Firm :=
  Part.firm_sequence_of_rest Part.sound_expectString
    (Part.firm_sequence (Part.firm_one (sound.expression 0)) .nil)

theorem sound_body (closers : List String) : (body inner closers).Sound := by
  intro cursor nodes after found
  obtain ⟨⟨comments, start⟩, isStart, found⟩ := Option.bind_eq_some_iff.mp found
  obtain ⟨⟨statements, final⟩, isStatements, found⟩ := Option.bind_eq_some_iff.mp found
  simp only at found
  split at found
  · exact Part.sound_nothing cursor nodes after found
  · rename_i filled
    obtain ⟨rfl, rfl⟩ := Prod.mk.inj (Option.some.inj found)
    obtain ⟨readComments, all⟩ := Cursor.read_toToken isStart
    obtain ⟨read, proper⟩ := sound.statements closers start statements final isStatements
    rw [leavesAll_append, leavesAll_cons, leavesAll_nil, List.append_nil, leaves_enclose]
    refine ⟨readComments.trans read, fun node member => ?_⟩
    rcases List.mem_append.mp member with comment | same
    · exact proper_of_comments all node comment
    · obtain rfl := List.mem_singleton.mp same
      exact .enclose .block (fun empty => filled (by rw [empty]; rfl)) proper

omit sound in
theorem sound_parameters : parameters.Sound := by
  refine Item.sound_construct (Part.firm_symbol "(" (by decide))
    (.cons (Part.sound_whenNext ?_) (.cons (Part.firm_symbol ")" (by decide)).sound .nil))
  intro cursor nodes after found
  obtain ⟨⟨listed, final⟩, isListed, found⟩ := Option.bind_eq_some_iff.mp found
  simp only at found
  split at found
  · cases found
  · obtain ⟨rfl, rfl⟩ := Prod.mk.inj (Option.some.inj found)
    refine (firm_commaSeparated ?_).sound cursor listed final isListed
    refine ⟨fun cursor nodes after found => ?_, fun cursor nodes after found => ?_⟩
    all_goals
      obtain ⟨⟨comments, start⟩, -, found⟩ := Option.bind_eq_some_iff.mp found
      simp only at found
      split at found
    · exact (Part.firm_one sound_varargs).sound cursor nodes after found
    · exact Part.firm_name.sound cursor nodes after found
    · exact (Part.firm_one sound_varargs).filled cursor nodes after found
    · exact Part.firm_name.filled cursor nodes after found

theorem sound_functionParts : AllSound (functionParts inner) :=
  .cons (Part.firm_one sound_parameters).sound
    (.cons (sound_body sound ["end"]) (.cons (Part.firm_keyword "end" (by decide)).sound .nil))

theorem sound_functionExpression : (functionExpression inner).Sound :=
  Item.sound_construct (Part.firm_keyword "function" (by decide)) (sound_functionParts sound)

theorem sound_tableField : (tableField inner).Sound := by
  have value := (firm_expressionPart sound).sound
  intro cursor node after found
  unfold tableField at found
  split at found
  · exact Item.sound_construct (Part.firm_symbol "[" (by decide))
      (.cons value (.cons (Part.firm_symbol "]" (by decide)).sound
        (.cons (Part.firm_symbol "=" (by decide)).sound (.cons value .nil))))
      cursor node after found
  · simp only at found
    split at found
    · cases found
    · exact Item.sound_construct Part.firm_name
        (.cons Part.sound_expectString (.cons (Part.firm_symbol "=" (by decide)).sound
          (.cons value .nil)))
        cursor node after found
    · exact Item.sound_construct (firm_expressionPart sound) .nil cursor node after found

theorem sound_tableConstructor : (tableConstructor inner).Sound := by
  have separator : Item.Sound fun cursor =>
      if atComma cursor then Item.symbol "," cursor else Item.symbol ";" cursor := by
    intro cursor node after found
    simp only at found
    split at found
    · exact Item.sound_symbol "," (by decide) cursor node after found
    · exact Item.sound_symbol ";" (by decide) cursor node after found
  have field := Part.firm_one (sound_tableField sound)
  refine Item.sound_construct (Part.firm_symbol "\x7b" (by decide))
    (.cons Part.sound_expectString
      (.cons (Part.sound_whenNext (Part.sound_sequence (.cons field.sound (.cons ?_ .nil))))
        (.cons (Part.firm_symbol "\x7d" (by decide)).sound .nil)))
  exact Part.sound_repeated (Part.sound_sequence
    (.cons (Part.firm_one separator).sound (.cons Part.sound_expectString
      (.cons (Part.sound_whenNext field.sound) .nil))))

theorem sound_arguments : (arguments inner).Sound := by
  intro cursor node after found
  unfold arguments at found
  split at found
  · exact Item.sound_construct (Part.firm_symbol "(" (by decide))
      (.cons Part.sound_expectString
        (.cons (Part.sound_whenNext (firm_commaSeparated (firm_expressionPart sound)).sound)
          (.cons (Part.firm_symbol ")" (by decide)).sound .nil)))
      cursor node after found
  · split at found
    · exact Item.sound_construct (Part.firm_one (sound_tableConstructor sound)) .nil cursor node
        after found
    · exact Item.sound_construct (Part.firm_one sound_stringLiteral) .nil cursor node after found

theorem extends_suffixes (bound : Nat) (base : Node) :
    Item.Extends base (suffixes inner bound base) := by
  induction bound generalizing base with
  | zero =>
      intro cursor node after found
      cases found
  | succ bound ih =>
      have value := (firm_expressionPart sound).sound
      intro cursor node after found
      obtain ⟨⟨comments, start⟩, -, found⟩ := Option.bind_eq_some_iff.mp found
      -- expecting a string takes in nothing, so the cursor may be replaced
      show ∃ more, node.leaves = base.leaves ++ more ∧ Read cursor.expectString more after ∧
        (Proper base → Proper node)
      simp only at found
      generalize cursor.expectString = place at found ⊢
      split at found
      · exact (Item.extends_extend (.cons (Part.firm_symbol "." (by decide)).sound
          (.cons Part.firm_name.sound .nil))).trans ih place node after found
      · split at found
        · exact (Item.extends_extend (.cons (Part.firm_symbol "[" (by decide)).sound
            (.cons value (.cons (Part.firm_symbol "]" (by decide)).sound .nil)))).trans ih
            place node after found
        · split at found
          · refine Item.Extends.trans (Item.extends_extend
              (.cons (Part.firm_symbol ":" (by decide)).sound (.cons Part.firm_name.sound .nil)))
              (fun method => Item.Extends.trans (Item.extends_extend ?_) ih) place node after found
            exact .cons Part.sound_expectString
              (.cons (Part.firm_one (sound_arguments sound)).sound .nil)
          · split at found
            · exact (Item.extends_extend
                (.cons (Part.firm_one (sound_arguments sound)).sound .nil)).trans ih
                  place node after found
            · exact Item.extends_refl base place node after found

theorem sound_indexable : (indexable inner).Sound := by
  have later : ∀ base, Item.Extends base fun cursor =>
      suffixes inner (cursor.left + 1) base cursor :=
    fun base cursor => extends_suffixes sound (cursor.left + 1) base cursor
  intro cursor node after found
  unfold indexable at found
  simp only at found
  split at found
  · refine (Item.sound_construct (Part.firm_symbol "(" (by decide)) ?_).andExtends later
      cursor node after found
    exact .cons (firm_expressionPart sound).sound
      (.cons (Part.firm_symbol ")" (by decide)).sound .nil)
  · exact Item.sound_name.andExtends later cursor node after found

theorem sound_operand : (operand inner).Sound := by
  intro cursor node after found
  unfold operand at found
  simp only at found
  split at found
  · rename_i isNumber
    refine Item.read_leaf ?_ (Option.some.inj found)
    refine (Lexeme.unbroken_numberLength cursor.rest).isInk fun empty => ?_
    rcases List.take_eq_nil_iff.mp empty with none | noChars
    · exact isNumber none
    · rw [noChars] at isNumber
      exact isNumber rfl
  · split at found
    · rename_i starts
      exact sound_varargs cursor node after ((if_pos starts).trans found)
    · split at found
      · exact sound_stringLiteral cursor node after found
      · split at found
        · exact sound_tableConstructor sound cursor node after found
        · split at found
          · exact sound_functionExpression sound cursor node after found
          · split at found
            · exact Item.sound_anyWord .constant cursor node after found
            · exact sound_indexable sound cursor node after found

theorem extends_operations (limit bound : Nat) (left : Node) :
    Item.Extends left (operations inner limit bound left) := by
  induction bound generalizing left with
  | zero =>
      intro cursor node after found
      cases found
  | succ bound ih =>
      intro cursor node after found
      obtain ⟨⟨comments, start⟩, -, found⟩ := Option.bind_eq_some_iff.mp found
      simp only at found
      split at found
      · exact Item.extends_refl left cursor node after found
      · rename_i operator strength isOperator
        split at found
        · exact (Item.extends_extend (.cons (Part.firm_one (sound_binaryOperator isOperator)).sound
            (.cons Part.sound_expectString
              (.cons (Part.firm_one (sound.expression strength.right)).sound .nil)))).trans ih
            cursor node after found
        · exact Item.extends_refl left cursor node after found

theorem sound_expression (limit : Nat) : (expression inner limit).Sound := by
  have later : ∀ left, Item.Extends left fun cursor =>
      operations inner limit (cursor.left + 1) left cursor :=
    fun left cursor => extends_operations sound limit (cursor.left + 1) left cursor
  intro cursor node after found
  unfold expression at found
  simp only at found
  split at found
  · rename_i operator isOperator
    refine (Item.sound_construct (Part.firm_one (sound_unaryOperator isOperator)) ?_).andExtends
      later cursor node after found
    exact .cons Part.sound_expectString (.cons (Part.firm_one (sound.expression _)).sound .nil)
  · exact (sound_operand sound).andExtends later cursor node after found

theorem sound_expressionList : (expressionList inner).Sound :=
  Item.sound_construct (firm_commaSeparated (firm_expressionPart sound)) .nil

theorem firm_expressionListPart : (expressionListPart inner).Firm :=
  Part.firm_sequence_of_rest Part.sound_expectString
    (Part.firm_sequence (Part.firm_one (sound_expressionList sound)) .nil)

end Expressions

/-! ## Statements -/

section Statements

variable {inner : Parsers} (sound : inner.Sound)

include sound

theorem sound_assignable : (assignable inner).Sound := by
  intro cursor node after found
  obtain ⟨⟨target, final⟩, isTarget, found⟩ := Option.bind_eq_some_iff.mp found
  simp only at found
  split at found
  · obtain ⟨rfl, rfl⟩ := Prod.mk.inj (Option.some.inj found)
    exact sound_indexable sound cursor target final isTarget
  · cases found

/-- From what is indexed or called to a statement. -/
theorem extends_callOrAssignment (base : Node) : Item.Extends base fun cursor =>
    if base.isConstruct .call then some (base, cursor)
    else if isAssignable base then do
      let (targets, between) ← Item.extend .variableList base
        [Part.repeated atComma (Part.sequence [Part.symbol ",", Part.one (assignable inner)])]
        cursor
      Item.extend .assignment targets [Part.symbol "=", expressionListPart inner] between
    else none := by
  intro cursor node after found
  simp only at found
  split at found
  · exact Item.extends_refl base cursor node after found
  · split at found
    · refine Item.Extends.trans (Item.extends_extend (.cons (Part.sound_repeated ?_) .nil))
        (fun targets => Item.extends_extend ?_) cursor node after found
      · exact Part.sound_sequence (.cons (Part.firm_symbol "," (by decide)).sound
          (.cons (Part.firm_one (sound_assignable sound)).sound .nil))
      · exact .cons (Part.firm_symbol "=" (by decide)).sound
          (.cons (firm_expressionListPart sound).sound .nil)
    · cases found

theorem sound_callOrAssignment : (callOrAssignment inner).Sound := by
  intro cursor node after found
  obtain ⟨⟨base, between⟩, isBase, found⟩ := Option.bind_eq_some_iff.mp found
  obtain ⟨read, proper⟩ := sound_indexable sound cursor base between isBase
  obtain ⟨more, isMore, read', proper'⟩ :=
    extends_callOrAssignment sound base between node after found
  exact ⟨isMore ▸ read.trans read', proper' proper⟩

omit sound in
theorem firm_attributedName : attributedName.Firm :=
  Part.firm_sequence Part.firm_name
    (.cons (Part.sound_whenNext (Part.firm_one
      (Item.sound_construct (Part.firm_symbol "<" (by decide))
        (.cons Part.firm_name.sound (.cons (Part.firm_symbol ">" (by decide)).sound .nil)))).sound)
      .nil)

theorem sound_localVariables : (localVariables inner).Sound := by
  intro cursor node after found
  obtain ⟨⟨names, between⟩, isNames, found⟩ := Option.bind_eq_some_iff.mp found
  obtain ⟨⟨comments, start⟩, -, found⟩ := Option.bind_eq_some_iff.mp found
  obtain ⟨read, proper⟩ := Item.sound_construct (firm_commaSeparated firm_attributedName) .nil
    cursor names between isNames
  have continued : ∃ more, node.leaves = names.leaves ++ more ∧ Read between more after ∧
      (Proper names → Proper node) := by
    simp only at found
    split at found
    · exact Item.extends_extend (.cons (Part.firm_symbol "=" (by decide)).sound
        (.cons (firm_expressionListPart sound).sound .nil)) between node after found
    · exact Item.extends_refl names between node after found
  obtain ⟨more, isMore, read', proper'⟩ := continued
  exact ⟨isMore ▸ read.trans read', proper' proper⟩

theorem sound_localDeclaration : (localDeclaration inner).Sound := by
  intro cursor node after found
  obtain ⟨⟨keyword, afterKeyword⟩, -, found⟩ := Option.bind_eq_some_iff.mp found
  obtain ⟨⟨comments, start⟩, -, found⟩ := Option.bind_eq_some_iff.mp found
  have isLocal := Part.firm_keyword "local" (by decide)
  simp only at found
  split at found
  · exact Item.sound_construct isLocal (.cons (Part.firm_keyword "function" (by decide)).sound
      (.cons Part.firm_name.sound (sound_functionParts sound))) cursor node after found
  · exact Item.sound_construct isLocal
      (.cons (Part.firm_one (sound_localVariables sound)).sound .nil) cursor node after found

omit sound in
theorem extends_dottedName (bound : Nat) (base : Node) :
    Item.Extends base (dottedName bound base) := by
  induction bound generalizing base with
  | zero =>
      intro cursor node after found
      cases found
  | succ bound ih =>
      intro cursor node after found
      obtain ⟨⟨comments, start⟩, -, found⟩ := Option.bind_eq_some_iff.mp found
      simp only at found
      split at found
      · exact (Item.extends_extend (.cons (Part.firm_symbol "." (by decide)).sound
          (.cons Part.firm_name.sound .nil))).trans ih cursor node after found
      · split at found
        · exact Item.extends_extend (.cons (Part.firm_symbol ":" (by decide)).sound
            (.cons Part.firm_name.sound .nil)) cursor node after found
        · exact Item.extends_refl base cursor node after found

theorem sound_functionDeclaration : (functionDeclaration inner).Sound := by
  have name : functionName.Sound := by
    intro cursor node after found
    exact Item.sound_name.andExtends
      (fun base place => extends_dottedName (place.left + 1) base place) cursor node after found
  exact Item.sound_construct (Part.firm_keyword "function" (by decide))
    (.cons (Part.firm_one name).sound (sound_functionParts sound))

theorem sound_forClause : (forClause inner).Sound := by
  have value := (firm_expressionPart sound).sound
  have comma := (Part.firm_symbol "," (by decide)).sound
  intro cursor node after found
  obtain ⟨⟨name, afterName⟩, isName, found⟩ := Option.bind_eq_some_iff.mp found
  obtain ⟨⟨comments, start⟩, -, found⟩ := Option.bind_eq_some_iff.mp found
  obtain ⟨read, proper⟩ := Item.sound_name cursor name afterName isName
  have continued : ∃ more, node.leaves = name.leaves ++ more ∧ Read afterName more after ∧
      (Proper name → Proper node) := by
    simp only at found
    split at found
    · refine Item.extends_extend (.cons (Part.firm_symbol "=" (by decide)).sound (.cons value
        (.cons comma (.cons value (.cons (Part.sound_whenNext ?_) .nil))))) afterName node after
        found
      exact Part.sound_sequence (.cons comma (.cons value .nil))
    · refine Item.Extends.trans (Item.extends_extend (.cons (Part.sound_repeated ?_) .nil))
        (fun names => Item.extends_extend ?_) afterName node after found
      · exact Part.sound_sequence (.cons comma (.cons Part.firm_name.sound .nil))
      · exact .cons (Part.firm_keyword "in" (by decide)).sound
          (.cons (firm_expressionListPart sound).sound .nil)
  obtain ⟨more, isMore, read', proper'⟩ := continued
  exact ⟨isMore ▸ read.trans read', proper' proper⟩

theorem sound_ifStatement : (ifStatement inner).Sound := by
  have value := (firm_expressionPart sound).sound
  have arm := sound_body sound armClosers
  have then_ := (Part.firm_keyword "then" (by decide)).sound
  refine Item.sound_construct (Part.firm_keyword "if" (by decide))
    (.cons value (.cons then_ (.cons arm (.cons (Part.sound_repeated ?_)
      (.cons (Part.sound_whenNext ?_) (.cons (Part.firm_keyword "end" (by decide)).sound .nil))))))
  · exact (Part.firm_one (Item.sound_construct (Part.firm_keyword "elseif" (by decide))
      (.cons value (.cons then_ (.cons arm .nil))))).sound
  · exact (Part.firm_one (Item.sound_construct (Part.firm_keyword "else" (by decide))
      (.cons (sound_body sound ["end"]) .nil))).sound

theorem sound_statement : (statement inner).Sound := by
  have value := (firm_expressionPart sound).sound
  have inside := sound_body sound ["end"]
  have end_ := (Part.firm_keyword "end" (by decide)).sound
  have do_ := Part.firm_keyword "do" (by decide)
  have name := Part.firm_name.sound
  have label := Part.firm_symbol "::" (by decide)
  intro cursor node after found
  unfold statement at found
  split at found
  · exact Item.sound_construct (Part.firm_symbol ";" (by decide)) .nil cursor node after found
  · split at found
    · exact Item.sound_construct label (.cons name (.cons label.sound .nil)) cursor node after found
    · split at found
      · exact Item.sound_anyWord .breakStatement cursor node after found
      · exact Item.sound_construct (Part.firm_keyword "goto" (by decide)) (.cons name .nil)
          cursor node after found
      · exact Item.sound_construct do_ (.cons inside (.cons end_ .nil)) cursor node after found
      · exact Item.sound_construct (Part.firm_keyword "while" (by decide))
          (.cons value (.cons do_.sound (.cons inside (.cons end_ .nil)))) cursor node after found
      · exact Item.sound_construct (Part.firm_keyword "repeat" (by decide))
          (.cons (sound_body sound ["until"]) (.cons (Part.firm_keyword "until" (by decide)).sound
            (.cons value .nil))) cursor node after found
      · exact sound_ifStatement sound cursor node after found
      · exact Item.sound_construct (Part.firm_keyword "for" (by decide))
          (.cons (Part.firm_one (sound_forClause sound)).sound
            (.cons do_.sound (.cons inside (.cons end_ .nil)))) cursor node after found
      · exact sound_functionDeclaration sound cursor node after found
      · exact sound_localDeclaration sound cursor node after found
      · exact sound_callOrAssignment sound cursor node after found

theorem sound_returnStatement (closers : List String) : (returnStatement inner closers).Sound :=
  Item.sound_construct (Part.firm_keyword "return" (by decide))
    (.cons Part.sound_expectString
      (.cons (Part.sound_whenNext (firm_expressionListPart sound).sound)
        (.cons (Part.sound_whenNext (Part.firm_symbol ";" (by decide)).sound) .nil)))

omit sound in
theorem isNamed_construct {kind : Construct} {parts : List Part} {cursor after : Cursor}
    {node : Node} (found : Item.construct kind parts cursor = some (node, after)) :
    node.isNamed = true := by
  obtain ⟨⟨children, final⟩, -, found⟩ := Option.bind_eq_some_iff.mp found
  obtain ⟨rfl, -⟩ := Prod.mk.inj (Option.some.inj found)
  rfl

omit sound in
theorem isNamed_extend {kind : Construct} {base : Node} {parts : List Part} {cursor after : Cursor}
    {node : Node} (found : Item.extend kind base parts cursor = some (node, after)) :
    node.isNamed = true := by
  obtain ⟨⟨children, final⟩, -, found⟩ := Option.bind_eq_some_iff.mp found
  obtain ⟨rfl, -⟩ := Prod.mk.inj (Option.some.inj found)
  rfl

omit sound in
theorem isNamed_callOrAssignment {cursor after : Cursor} {node : Node}
    (found : callOrAssignment inner cursor = some (node, after)) : node.isNamed = true := by
  obtain ⟨⟨base, between⟩, -, found⟩ := Option.bind_eq_some_iff.mp found
  simp only at found
  split at found
  · rename_i isCall
    obtain ⟨rfl, -⟩ := Prod.mk.inj (Option.some.inj found)
    cases base with
    | leaf kind span => cases isCall
    | inner construct span children => rfl
  · split at found
    · obtain ⟨⟨targets, afterTargets⟩, -, found⟩ := Option.bind_eq_some_iff.mp found
      exact isNamed_extend found
    · cases found

omit sound in
theorem isNamed_localDeclaration {cursor after : Cursor} {node : Node}
    (found : localDeclaration inner cursor = some (node, after)) : node.isNamed = true := by
  obtain ⟨⟨keyword, afterKeyword⟩, -, found⟩ := Option.bind_eq_some_iff.mp found
  obtain ⟨⟨comments, start⟩, -, found⟩ := Option.bind_eq_some_iff.mp found
  simp only at found
  split at found <;> exact isNamed_construct found

omit sound in
theorem isNamed_statement {cursor after : Cursor} {node : Node}
    (found : statement inner cursor = some (node, after)) : node.isNamed = true := by
  unfold statement at found
  split at found
  · exact isNamed_construct found
  · split at found
    · exact isNamed_construct found
    · split at found
      · unfold Item.anyWord at found
        split at found
        · cases found
        · obtain ⟨rfl, -⟩ := Prod.mk.inj (Option.some.inj found)
          rfl
      · exact isNamed_construct found
      · exact isNamed_construct found
      · exact isNamed_construct found
      · exact isNamed_construct found
      · exact isNamed_construct found
      · exact isNamed_construct found
      · exact isNamed_construct found
      · exact isNamed_localDeclaration found
      · exact isNamed_callOrAssignment found

omit sound in
theorem isNamed_of_comments {comments : List Node}
    (all : ∀ node ∈ comments, ∃ span, node = .leaf .comment span) :
    ∀ node ∈ comments, node.isNamed = true := by
  intro node member
  obtain ⟨span, rfl⟩ := all node member
  rfl

/-- Statements are read soundly, and none of them is a mere symbol. -/
theorem sound_statements (bound : Nat) (closers : List String) :
    (statements inner closers bound).Sound ∧
      ∀ cursor nodes after, statements inner closers bound cursor = some (nodes, after) →
        ∀ node ∈ nodes, node.isNamed = true := by
  have together : ∀ cursor nodes after,
      statements inner closers bound cursor = some (nodes, after) →
      Read cursor (leavesAll nodes) after ∧
        ∀ node ∈ nodes, Proper node ∧ node.isNamed = true := by
    induction bound generalizing closers with
    | zero =>
        intro cursor nodes after found
        cases found
    | succ bound ih =>
        intro cursor nodes after found
        obtain ⟨⟨comments, start⟩, isStart, found⟩ := Option.bind_eq_some_iff.mp found
        obtain ⟨readComments, all⟩ := Cursor.read_toToken isStart
        have commentOk : ∀ node ∈ comments, Proper node ∧ node.isNamed = true :=
          fun node member =>
            ⟨proper_of_comments all node member, isNamed_of_comments all node member⟩
        simp only at found
        split at found
        · obtain ⟨rfl, rfl⟩ := Prod.mk.inj (Option.some.inj found)
          exact ⟨Read.refl cursor, fun _ none => absurd none List.not_mem_nil⟩
        · split at found
          · obtain ⟨⟨final, place⟩, isFinal, found⟩ := Option.bind_eq_some_iff.mp found
            obtain ⟨rfl, rfl⟩ := Prod.mk.inj (Option.some.inj found)
            obtain ⟨read, proper⟩ := sound_returnStatement sound _ start final place isFinal
            rw [leavesAll_append, leavesAll_cons, leavesAll_nil, List.append_nil]
            refine ⟨readComments.trans read, fun node member => ?_⟩
            rcases List.mem_append.mp member with comment | same
            · exact commentOk node comment
            · obtain rfl := List.mem_singleton.mp same
              exact ⟨proper, isNamed_construct isFinal⟩
          · obtain ⟨⟨first, between⟩, isFirst, found⟩ := Option.bind_eq_some_iff.mp found
            obtain ⟨⟨later, place⟩, isLater, found⟩ := Option.bind_eq_some_iff.mp found
            obtain ⟨rfl, rfl⟩ := Prod.mk.inj (Option.some.inj found)
            obtain ⟨read, proper⟩ := sound_statement sound start first between isFirst
            obtain ⟨read', rest⟩ := ih _ between later place isLater
            rw [leavesAll_append, leavesAll_cons]
            refine ⟨readComments.trans (read.trans read'), fun node member => ?_⟩
            rcases List.mem_append.mp member with comment | member
            · exact commentOk node comment
            · rcases List.mem_cons.mp member with rfl | member
              · exact ⟨proper, isNamed_statement isFirst⟩
              · exact rest node member
  refine ⟨fun cursor nodes after found => ?_, fun cursor nodes after found node member => ?_⟩
  · obtain ⟨read, all⟩ := together cursor nodes after found
    exact ⟨read, fun node member => (all node member).1⟩
  · exact ((together cursor nodes after found).2 node member).2

end Statements

end Grammar

/-! ## All levels -/

theorem Parsers.Sound.deeper {inner : Parsers} (sound : inner.Sound) : inner.deeper.Sound where
  expression := fun limit => Grammar.sound_expression sound limit
  statements := fun closers cursor =>
    (Grammar.sound_statements sound (cursor.left + 1) closers).1 cursor
  named := fun closers cursor =>
    (Grammar.sound_statements sound (cursor.left + 1) closers).2 cursor

theorem Parsers.sound_level (levels : Nat) : (Parsers.level levels).Sound := by
  induction levels with
  | zero =>
      refine ⟨?_, ?_, ?_⟩
      · intro limit cursor node after found
        cases found
      · intro closers cursor nodes after found
        cases found
      · intro closers cursor nodes after found
        cases found
  | succ levels ih => exact ih.deeper

/-! ## Whole sources -/

/-- A tree that is no part of the program: a comment or a first line for the operating system. -/
def IsAside (node : Node) : Prop :=
  (∃ span, node = .leaf .shebang span) ∨ ∃ span, node = .leaf .comment span

theorem exists_of_shebang {cursor after : Cursor} {nodes : List Node}
    (found : shebang cursor = some (nodes, after)) :
    (∃ taken, cursor.rest = taken ++ after.rest ∧ after.position = cursor.position.advance taken) ∧
      ∀ node ∈ nodes, IsAside node := by
  obtain ⟨⟨comments, start⟩, -, found⟩ := Option.bind_eq_some_iff.mp found
  simp only at found
  split at found
  · obtain ⟨⟨comments, start⟩, isStart, found⟩ := Option.bind_eq_some_iff.mp found
    obtain ⟨rfl, rfl⟩ := Prod.mk.inj (Option.some.inj found)
    obtain ⟨⟨taken, isRest, isPosition, -⟩, all⟩ := Cursor.read_toToken isStart
    generalize (start.rest.takeWhile fun char => char != '\n').length = length
    refine ⟨⟨taken ++ start.rest.take length, ?_, ?_⟩, ?_⟩
    · rw [isRest, List.append_assoc]
      exact congrArg (taken ++ ·) (List.take_append_drop length start.rest).symm
    · rw [Position.advance_append, ← isPosition]
      rfl
    · intro node member
      rcases List.mem_append.mp member with comment | same
      · exact .inr (all node comment)
      · obtain rfl := List.mem_singleton.mp same
        exact .inl ⟨_, rfl⟩
  · obtain ⟨rfl, rfl⟩ := Prod.mk.inj (Option.some.inj found)
    exact ⟨⟨[], rfl, rfl⟩, fun _ none => absurd none List.not_mem_nil⟩

theorem exists_of_ofSource (source : String) :
    ∃ mark, source.toList = mark ++ (Cursor.ofSource source).rest ∧
      (Cursor.ofSource source).position = Position.start.advance mark := by
  unfold Cursor.ofSource
  simp only
  split
  · exact ⟨source.toList.take 1, (List.take_append_drop 1 source.toList).symm, rfl⟩
  · exact ⟨[], rfl, rfl⟩

/-- **A tree that was parsed tiles its source.** Only what stands before the program is left out: a
mark for the encoding, a first line for the operating system, and comments before that line. -/
theorem exists_tiled_of_parse {source : String} {tree : Node} (parsed : parse? source = some tree) :
    ∃ before text asides body span, source.toList = before ++ text ∧
      tree = .inner .chunk span (asides ++ body) ∧ (∀ node ∈ asides, IsAside node) ∧
      Tiled (Position.start.advance before) text (leavesAll body) ∧
      ∀ node ∈ body, Proper node ∧ node.isNamed = true := by
  unfold parse? at parsed
  simp only at parsed
  split at parsed
  · cases parsed
  · obtain ⟨⟨children, after⟩, isChildren, parsed⟩ := Option.bind_eq_some_iff.mp parsed
    obtain ⟨⟨comments, final⟩, isComments, parsed⟩ := Option.bind_eq_some_iff.mp parsed
    obtain ⟨⟨asides, between⟩, isAsides, isChildren⟩ := Option.bind_eq_some_iff.mp isChildren
    obtain ⟨⟨statements, nothing⟩, isStatements, isChildren⟩ :=
      Option.bind_eq_some_iff.mp isChildren
    obtain ⟨rfl, rfl⟩ := Prod.mk.inj (Option.some.inj isChildren)
    obtain ⟨⟨behind, last⟩, isBehind, isStatements⟩ := Option.bind_eq_some_iff.mp isStatements
    obtain ⟨⟨none, place⟩, isNothing, isStatements⟩ := Option.bind_eq_some_iff.mp isStatements
    obtain ⟨rfl, rfl⟩ := Prod.mk.inj (Option.some.inj isNothing)
    obtain ⟨rfl, rfl⟩ := Prod.mk.inj (Option.some.inj isStatements)
    simp only at parsed
    split at parsed
    · rename_i atEnd
      obtain rfl := Option.some.inj parsed
      obtain ⟨mark, isSource, isStart⟩ := exists_of_ofSource source
      obtain ⟨⟨taken, isRest, isPosition⟩, aside⟩ := exists_of_shebang isAsides
      have levels := Parsers.sound_level ((Cursor.ofSource source).left + 1)
      obtain ⟨read, proper⟩ := levels.statements [] between behind last isBehind
      obtain ⟨read', all⟩ := Cursor.read_toToken isComments
      obtain ⟨text, isText, -, tiled⟩ := read.trans read'
      have noRest : final.rest = [] := List.isEmpty_iff.mp atEnd
      rw [noRest, List.append_nil] at isText
      refine ⟨mark ++ taken, text, asides, behind ++ comments, ⟨Position.start, final.position⟩,
        ?_, ?_, aside, ?_, ?_⟩
      · rw [isSource, isRest, isText, List.append_assoc]
      · rw [List.append_nil, List.append_assoc]
      · rw [Position.advance_append, ← isStart, ← isPosition, leavesAll_append]
        exact tiled
      · intro node member
        rcases List.mem_append.mp member with inside | comment
        · exact ⟨proper node inside, levels.named [] between behind last isBehind node inside⟩
        · exact ⟨proper_of_comments all node comment, Grammar.isNamed_of_comments all node comment⟩
    · cases parsed

end LuaCoverage.Syntax
