import LuaCoverage.Proofs.Syntax.Lexemes
import LuaCoverage.Syntax.Cursor

/-!
# What the parts of a grammar take in

Reading from one cursor to another takes in some characters, and what was read are trees whose
leaves tile these (`Read`). A part is *sound* when this holds of whatever it reads and all its trees
are proper, and *firm* when moreover it never reads nothing. The combinators of the grammar build
sound parts from sound ones; a construct whose first part is firm is a proper tree, because it then
has parts. A reader that goes on from a tree adds leaves behind those of the tree (`Extends`).
-/

set_option autoImplicit false

namespace LuaCoverage.Syntax

/-! ## From one cursor to another -/

/-- What reading from one cursor to another takes in is tiled by some leaves. -/
def Read (cursor : Cursor) (leaves : List (Leaf × Span)) (after : Cursor) : Prop :=
  ∃ taken, cursor.rest = taken ++ after.rest ∧ after.position = cursor.position.advance taken ∧
    Tiled cursor.position taken leaves

namespace Read

theorem refl (cursor : Cursor) : Read cursor [] cursor := ⟨[], rfl, rfl, .nil rfl⟩

theorem trans {cursor between after : Cursor} {first later : List (Leaf × Span)}
    (read : Read cursor first between) (read' : Read between later after) :
    Read cursor (first ++ later) after := by
  obtain ⟨taken, isRest, isPosition, tiled⟩ := read
  obtain ⟨taken', isRest', isPosition', tiled'⟩ := read'
  refine ⟨taken ++ taken', ?_, ?_, tiled.append (isPosition ▸ tiled')⟩
  · rw [isRest, isRest', List.append_assoc]
  · rw [isPosition', isPosition, Position.advance_append]

/-- Expecting a string takes in nothing. -/
theorem expectString (cursor : Cursor) : Read cursor [] cursor.expectString :=
  ⟨[], rfl, rfl, .nil rfl⟩

/-- A cursor that was advanced over something shaped as a token took in one leaf. -/
theorem leaf {cursor after : Cursor} {count : Nat} (kind : Leaf)
    (ink : isInk (cursor.rest.take count))
    (isRest : after.rest = cursor.rest.drop count)
    (isPosition : after.position = cursor.position.advance (cursor.rest.take count)) :
    Read cursor [(kind, ⟨cursor.position, after.position⟩)] after := by
  refine ⟨cursor.rest.take count, ?_, isPosition, ?_⟩
  · rw [isRest, List.take_append_drop]
  · have tiled : Tiled cursor.position ([] ++ cursor.rest.take count ++ [])
        [(kind, ⟨cursor.position.advance [],
          cursor.position.advance ([] ++ cursor.rest.take count)⟩)] :=
      .cons rfl ink (.nil rfl)
    rw [List.append_nil, List.nil_append, ← isPosition] at tiled
    exact tiled

theorem skipBlanks (cursor : Cursor) : Read cursor [] cursor.skipBlanks := by
  refine ⟨cursor.rest.takeWhile Lexeme.isBlank, ?_, ?_, .nil List.all_takeWhile⟩
  · show cursor.rest = _ ++ cursor.rest.drop (cursor.rest.takeWhile Lexeme.isBlank).length
    exact (List.prefix_iff_eq_append.mp (List.takeWhile_prefix Lexeme.isBlank)).symm
  · show cursor.position.advance _ = _
    rw [← List.prefix_iff_eq_take.mp (List.takeWhile_prefix Lexeme.isBlank)]

end Read

/-! ## Comments -/

theorem Cursor.read_commentsUpTo {bound : Nat} {cursor final : Cursor} {comments : List Node}
    (found : cursor.commentsUpTo bound = some (comments, final)) :
    Read cursor (leavesAll comments) final ∧
      ∀ node ∈ comments, ∃ span, node = .leaf .comment span := by
  induction bound generalizing cursor comments with
  | zero => cases found
  | succ bound ih =>
      unfold Cursor.commentsUpTo at found
      simp only at found
      split at found
      · obtain ⟨rfl, rfl⟩ := Prod.mk.inj (Option.some.inj found)
        exact ⟨Read.skipBlanks cursor, fun _ member => absurd member List.not_mem_nil⟩
      · cases found
      · rename_i length isComment
        obtain ⟨⟨later, end_⟩, isLater, isAll⟩ := Option.bind_eq_some_iff.mp found
        obtain ⟨rfl, rfl⟩ := Prod.mk.inj (Option.some.inj isAll)
        obtain ⟨read, all⟩ := ih isLater
        have one : Read cursor.skipBlanks _ (cursor.skipBlanks.pass length) :=
          Read.leaf .comment (Lexeme.isInk_comment isComment) rfl rfl
        refine ⟨((Read.skipBlanks cursor).trans one).trans read, ?_⟩
        intro node member
        rcases List.mem_cons.mp member with rfl | member
        · exact ⟨_, rfl⟩
        · exact all node member

/-- **On the way to the next token there are only blanks and comments.** -/
theorem Cursor.read_toToken {cursor start : Cursor} {comments : List Node}
    (found : cursor.toToken = some (comments, start)) :
    Read cursor (leavesAll comments) start ∧
      ∀ node ∈ comments, ∃ span, node = .leaf .comment span :=
  Cursor.read_commentsUpTo found

theorem proper_of_comments {comments : List Node}
    (all : ∀ node ∈ comments, ∃ span, node = .leaf .comment span) :
    ∀ node ∈ comments, Proper node := by
  intro node member
  obtain ⟨span, rfl⟩ := all node member
  exact .leaf .comment span

/-! ## Sound parts and readers -/

/-- Whatever the part reads is proper and tiles what was taken in. -/
def Part.Sound (part : Part) : Prop :=
  ∀ cursor nodes after, part cursor = some (nodes, after) →
    Read cursor (leavesAll nodes) after ∧ ∀ node ∈ nodes, Proper node

/-- A sound part that never reads nothing. -/
structure Part.Firm (part : Part) : Prop where
  sound : part.Sound
  filled : ∀ cursor nodes after, part cursor = some (nodes, after) → nodes ≠ []

/-- Whatever the reader reads is proper and tiles what was taken in. -/
def Item.Sound (item : Item) : Prop :=
  ∀ cursor node after, item cursor = some (node, after) →
    Read cursor node.leaves after ∧ Proper node

/-- Whatever the reader reads continues a tree and is proper if that tree is. -/
def Item.Extends (base : Node) (item : Item) : Prop :=
  ∀ cursor node after, item cursor = some (node, after) →
    ∃ more, node.leaves = base.leaves ++ more ∧ Read cursor more after ∧
      (Proper base → Proper node)

/-- All parts of a list are sound. -/
def Part.AllSound (parts : List Part) : Prop := ∀ part ∈ parts, part.Sound

namespace Part

theorem AllSound.nil : AllSound [] := fun _ member => absurd member List.not_mem_nil

theorem AllSound.cons {part : Part} {rest : List Part} (sound : part.Sound)
    (later : AllSound rest) : AllSound (part :: rest) := by
  intro other member
  rcases List.mem_cons.mp member with rfl | member
  · exact sound
  · exact later other member

theorem sound_nothing : nothing.Sound := by
  intro cursor nodes after found
  obtain ⟨rfl, rfl⟩ := Prod.mk.inj (Option.some.inj found)
  exact ⟨Read.refl cursor, fun _ member => absurd member List.not_mem_nil⟩

theorem sound_expectString : expectString.Sound := by
  intro cursor nodes after found
  obtain ⟨rfl, rfl⟩ := Prod.mk.inj (Option.some.inj found)
  exact ⟨Read.expectString cursor, fun _ member => absurd member List.not_mem_nil⟩

theorem firm_one {item : Item} (sound : item.Sound) : (one item).Firm := by
  constructor
  · intro cursor nodes after found
    obtain ⟨⟨comments, start⟩, isStart, found⟩ := Option.bind_eq_some_iff.mp found
    obtain ⟨⟨node, final⟩, isNode, found⟩ := Option.bind_eq_some_iff.mp found
    obtain ⟨rfl, rfl⟩ := Prod.mk.inj (Option.some.inj found)
    obtain ⟨readComments, all⟩ := Cursor.read_toToken isStart
    obtain ⟨readNode, proper⟩ := sound start node final isNode
    refine ⟨?_, ?_⟩
    · rw [leavesAll_append, leavesAll_cons, leavesAll_nil, List.append_nil]
      exact readComments.trans readNode
    · intro other member
      rcases List.mem_append.mp member with comment | same
      · exact proper_of_comments all other comment
      · obtain rfl := List.mem_singleton.mp same
        exact proper
  · intro cursor nodes after found
    obtain ⟨⟨comments, start⟩, -, found⟩ := Option.bind_eq_some_iff.mp found
    obtain ⟨⟨node, final⟩, -, found⟩ := Option.bind_eq_some_iff.mp found
    obtain ⟨rfl, rfl⟩ := Prod.mk.inj (Option.some.inj found)
    simp

/-- Two parts in a row, as `sequence` and `repeatUpTo` read them. -/
theorem sound_pair {first later : Part} (sound : first.Sound) (sound' : later.Sound) :
    Part.Sound fun cursor => do
      let (before, between) ← first cursor
      let (behind, after) ← later between
      return (before ++ behind, after) := by
  intro cursor nodes after found
  obtain ⟨⟨before, between⟩, isBefore, found⟩ := Option.bind_eq_some_iff.mp found
  obtain ⟨⟨behind, final⟩, isBehind, found⟩ := Option.bind_eq_some_iff.mp found
  obtain ⟨rfl, rfl⟩ := Prod.mk.inj (Option.some.inj found)
  obtain ⟨read, proper⟩ := sound cursor before between isBefore
  obtain ⟨read', proper'⟩ := sound' between behind final isBehind
  rw [leavesAll_append]
  refine ⟨read.trans read', fun node member => ?_⟩
  exact (List.mem_append.mp member).elim (proper node) (proper' node)

theorem sound_sequence {parts : List Part} (all : AllSound parts) : (sequence parts).Sound := by
  induction parts with
  | nil => exact sound_nothing
  | cons part rest ih =>
      exact sound_pair (all part List.mem_cons_self)
        (ih fun other member => all other (List.mem_cons_of_mem _ member))

theorem firm_sequence {part : Part} {rest : List Part} (firm : part.Firm) (all : AllSound rest) :
    (sequence (part :: rest)).Firm := by
  refine ⟨sound_sequence (.cons firm.sound all), ?_⟩
  intro cursor nodes after found
  obtain ⟨⟨before, between⟩, isBefore, found⟩ := Option.bind_eq_some_iff.mp found
  obtain ⟨⟨behind, final⟩, -, found⟩ := Option.bind_eq_some_iff.mp found
  obtain ⟨rfl, rfl⟩ := Prod.mk.inj (Option.some.inj found)
  exact List.append_ne_nil_of_left_ne_nil (firm.filled cursor before between isBefore) _

/-- A part stays firm behind one that may read nothing. -/
theorem firm_sequence_of_rest {part : Part} {rest : List Part} (sound : part.Sound)
    (firm : (sequence rest).Firm) : (sequence (part :: rest)).Firm := by
  refine ⟨sound_pair sound firm.sound, ?_⟩
  intro cursor nodes after found
  obtain ⟨⟨before, between⟩, -, found⟩ := Option.bind_eq_some_iff.mp found
  obtain ⟨⟨behind, final⟩, isBehind, found⟩ := Option.bind_eq_some_iff.mp found
  obtain ⟨rfl, rfl⟩ := Prod.mk.inj (Option.some.inj found)
  exact List.append_ne_nil_of_right_ne_nil _ (firm.filled between behind final isBehind)

theorem sound_whenNext {test : Cursor → Bool} {part : Part} (sound : part.Sound) :
    (whenNext test part).Sound := by
  intro cursor nodes after found
  obtain ⟨⟨comments, start⟩, -, found⟩ := Option.bind_eq_some_iff.mp found
  simp only at found
  split at found
  · exact sound cursor nodes after found
  · exact sound_nothing cursor nodes after found

theorem sound_repeatUpTo {test : Cursor → Bool} {part : Part} (sound : part.Sound) (bound : Nat) :
    (repeatUpTo test part bound).Sound := by
  induction bound with
  | zero =>
      intro cursor nodes after found
      cases found
  | succ bound ih => exact sound_whenNext (sound_pair sound ih)

theorem sound_repeated {test : Cursor → Bool} {part : Part} (sound : part.Sound) :
    (repeated test part).Sound :=
  fun cursor => sound_repeatUpTo sound (cursor.left + 1) cursor

end Part

namespace Item

/-- **A construct whose first part is firm is proper.** -/
theorem sound_construct {kind : Construct} {part : Part} {rest : List Part} (firm : part.Firm)
    (all : Part.AllSound rest) : (construct kind (part :: rest)).Sound := by
  intro cursor node after found
  obtain ⟨⟨children, final⟩, isChildren, found⟩ := Option.bind_eq_some_iff.mp found
  obtain ⟨rfl, rfl⟩ := Prod.mk.inj (Option.some.inj found)
  have whole := Part.firm_sequence firm all
  obtain ⟨read, proper⟩ := whole.sound cursor children final isChildren
  exact ⟨read, .enclose kind (whole.filled cursor children final isChildren) proper⟩

theorem extends_extend {kind : Construct} {base : Node} {parts : List Part}
    (all : Part.AllSound parts) : Extends base (extend kind base parts) := by
  intro cursor node after found
  obtain ⟨⟨children, final⟩, isChildren, found⟩ := Option.bind_eq_some_iff.mp found
  obtain ⟨rfl, rfl⟩ := Prod.mk.inj (Option.some.inj found)
  obtain ⟨read, proper⟩ := Part.sound_sequence all cursor children final isChildren
  refine ⟨leavesAll children, rfl, read, fun properBase => ?_⟩
  refine .enclose kind (List.cons_ne_nil base children) fun child member => ?_
  rcases List.mem_cons.mp member with rfl | member
  · exact properBase
  · exact proper child member

/-- Reading nothing more continues a tree. -/
theorem extends_refl (base : Node) : Extends base fun cursor => some (base, cursor) := by
  intro cursor node after found
  obtain ⟨rfl, rfl⟩ := Prod.mk.inj (Option.some.inj found)
  exact ⟨[], (List.append_nil _).symm, Read.refl cursor, id⟩

/-- Two continuations in a row. -/
theorem Extends.trans {base : Node} {first : Item} {later : Node → Item}
    (extends_ : Extends base first) (extends' : ∀ node, Extends node (later node)) :
    Extends base (fun cursor => do
      let (node, between) ← first cursor
      later node between) := by
  intro cursor node after found
  obtain ⟨⟨between, place⟩, isBetween, found⟩ := Option.bind_eq_some_iff.mp found
  obtain ⟨more, isMore, read, proper⟩ := extends_ cursor between place isBetween
  obtain ⟨more', isMore', read', proper'⟩ := extends' between place node after found
  exact ⟨more ++ more', by rw [isMore', isMore, List.append_assoc], read.trans read',
    proper' ∘ proper⟩

/-- A tree and a continuation of it. -/
theorem Sound.andExtends {first : Item} {later : Node → Item} (sound : first.Sound)
    (extends_ : ∀ node, Extends node (later node)) :
    Item.Sound (fun cursor => do
      let (node, between) ← first cursor
      later node between) := by
  intro cursor node after found
  obtain ⟨⟨base, place⟩, isBase, found⟩ := Option.bind_eq_some_iff.mp found
  obtain ⟨read, proper⟩ := sound cursor base place isBase
  obtain ⟨more, isMore, read', proper'⟩ := extends_ base place node after found
  exact ⟨isMore ▸ read.trans read', proper' proper⟩

/-! ## Single tokens -/

/-- A leaf that is shaped as a token is read soundly. -/
theorem read_leaf {cursor after : Cursor} {node : Node} {kind : Leaf} {count : Nat}
    (ink : isInk (cursor.rest.take count))
    (found : cursor.leaf kind count = (node, after)) :
    Read cursor node.leaves after ∧ Proper node := by
  obtain ⟨rfl, rfl⟩ := Prod.mk.inj found
  exact ⟨Read.leaf kind ink rfl rfl, .leaf kind _⟩

theorem sound_symbol (text : String) (ink : isInk text.toList = true) :
    (symbol text).Sound := by
  intro cursor node after found
  unfold symbol at found
  split at found
  · rename_i starts
    refine read_leaf ?_ (Option.some.inj found)
    have isPrefix : text.toList <+: cursor.rest := List.isPrefixOf_iff_prefix.mp starts
    rw [← String.length_toList, ← List.prefix_iff_eq_take.mp isPrefix]
    exact ink
  · cases found

theorem sound_keyword (text : String) (filled : text.toList ≠ []) : (keyword text).Sound := by
  intro cursor node after found
  unfold keyword at found
  split at found
  · rename_i isWord
    refine read_leaf ?_ (Option.some.inj found)
    have same : Lexeme.word cursor.rest = text.toList := by
      rw [← beq_iff_eq.mp isWord, Cursor.word, String.toList_ofList]
    have taken := (Lexeme.word_eq_take cursor.rest).1
    rw [← String.length_toList, ← same, ← taken]
    exact Lexeme.isInk_word (same ▸ filled)
  · cases found

theorem sound_anyWord (kind : Leaf) : (anyWord kind).Sound := by
  intro cursor node after found
  unfold anyWord at found
  split at found
  · cases found
  · rename_i first others isWord
    refine read_leaf ?_ (Option.some.inj found)
    have taken := (Lexeme.word_eq_take cursor.rest).1
    have filled : Lexeme.word cursor.rest ≠ [] := by
      rw [isWord]
      exact List.cons_ne_nil _ _
    have ink := Lexeme.isInk_word filled
    rw [taken, isWord, List.length_cons] at ink
    exact ink

theorem sound_name : name.Sound := sound_anyWord .name

end Item

theorem Part.firm_symbol (text : String) (ink : isInk text.toList = true) :
    (Part.symbol text).Firm := firm_one (Item.sound_symbol text ink)

theorem Part.firm_keyword (text : String) (filled : text.toList ≠ []) :
    (Part.keyword text).Firm := firm_one (Item.sound_keyword text filled)

theorem Part.firm_name : Part.name.Firm := firm_one Item.sound_name

end LuaCoverage.Syntax
