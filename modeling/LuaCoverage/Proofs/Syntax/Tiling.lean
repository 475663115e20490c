import LuaCoverage.Syntax.Lexeme
import LuaCoverage.Syntax.Tree
import LuaCoverage.Proofs.Text.Bytes

/-!
# Trees that tile a text

The leaves of a syntax tree are the tokens and comments of the text it was read from, in their order
and with nothing but blanks between them. `Tiled` says this of a list of leaves and a text. A tree
is `Proper` when each of its constructs has parts and covers exactly these, and then the stretch of
a tree is determined by its leaves: it begins where the first of them begins and ends where the last
one ends (`Proper.span_eq`).

The text between these two places neither begins with a blank nor ends with a line end
(`Tiled.exists_covered`).
-/

set_option autoImplicit false

namespace LuaCoverage.Syntax

/-! ## Positions -/

namespace Position

variable (position : Position)

theorem advance_append (first later : List Char) :
    position.advance (first ++ later) = (position.advance first).advance later :=
  List.foldl_append

/-- Advancing passes the bytes of the characters. -/
theorem byte_advance (chars : List Char) :
    (position.advance chars).byte = position.byte + Text.utf8Length chars := by
  induction chars generalizing position with
  | nil => rfl
  | cons char rest ih =>
      rw [show position.advance (char :: rest) = (position.next char).advance rest from rfl, ih,
        Text.utf8Length_cons, ← Nat.add_assoc]
      unfold next
      split <;> rfl

/-- Advancing passes a line with every line feed. -/
theorem line_advance (chars : List Char) :
    (position.advance chars).line = position.line + chars.count '\n' := by
  induction chars generalizing position with
  | nil => rfl
  | cons char rest ih =>
      rw [show position.advance (char :: rest) = (position.next char).advance rest from rfl, ih]
      unfold next
      by_cases isFeed : char = '\n'
      · subst isFeed
        simp
        omega
      · simp [isFeed]

/-- Later positions are not on earlier lines. -/
theorem line_le_advance (more : List Char) : position.line ≤ (position.advance more).line := by
  rw [line_advance]
  exact Nat.le_add_right _ _

/-- The column is behind the last line feed: it is zero only at the start of a line. -/
theorem column_advance_concat {chars : List Char} {last : Char} (notFeed : last ≠ '\n') :
    0 < (position.advance (chars ++ [last])).column := by
  rw [advance_append]
  unfold advance
  simp only [List.foldl_cons, List.foldl_nil, next, if_neg notFeed]
  exact Nat.add_pos_right _ last.utf8Size_pos

end Position

/-! ## Leaves -/

mutual

/-- The leaves of a tree, in their order. -/
def Node.leaves : Node → List (Leaf × Span)
  | .leaf kind span => [(kind, span)]
  | .inner _ _ children => leavesAll children

/-- The leaves of some trees, in their order. -/
def leavesAll : List Node → List (Leaf × Span)
  | [] => []
  | node :: rest => node.leaves ++ leavesAll rest

end

@[simp]
theorem leavesAll_nil : leavesAll [] = [] := rfl

@[simp]
theorem leavesAll_cons (node : Node) (rest : List Node) :
    leavesAll (node :: rest) = node.leaves ++ leavesAll rest := rfl

theorem leavesAll_append (first later : List Node) :
    leavesAll (first ++ later) = leavesAll first ++ leavesAll later := by
  induction first with
  | nil => rfl
  | cons node rest ih =>
      rw [List.cons_append, leavesAll_cons, ih, leavesAll_cons, List.append_assoc]

@[simp]
theorem leaves_enclose (construct : Construct) (children : List Node) :
    (Node.enclose construct children).leaves = leavesAll children := rfl

/-! ## Tiled texts -/

/-- Whether some characters begin with something that is no blank and do not end with a line end. -/
def isInk (chars : List Char) : Bool :=
  chars.head?.any (fun first => !Lexeme.isBlank first)
    && chars.getLast?.any fun last => last != '\n' && last != '\r'

theorem isInk_iff {chars : List Char} :
    isInk chars = true ↔ (∃ first, chars.head? = some first ∧ Lexeme.isBlank first = false) ∧
      ∃ last, chars.getLast? = some last ∧ last ≠ '\n' ∧ last ≠ '\r' := by
  unfold isInk
  cases chars.head? <;> cases chars.getLast? <;> simp

/-- What begins as a token and what ends as one make up something that does both. -/
theorem isInk_append {first between last : List Char} (starts : isInk first) (ends : isInk last) :
    isInk (first ++ (between ++ last)) := by
  obtain ⟨⟨head, isHead, notBlank⟩, -⟩ := isInk_iff.mp starts
  obtain ⟨-, final, isFinal, notEnd⟩ := isInk_iff.mp ends
  refine isInk_iff.mpr ⟨⟨head, ?_, notBlank⟩, final, ?_, notEnd⟩
  · rw [List.head?_append, isHead]
    rfl
  · rw [List.getLast?_append, List.getLast?_append, isFinal]
    rfl

/-- Whether some leaves are the tokens and comments of a text that begins at a position. -/
inductive Tiled : Position → List Char → List (Leaf × Span) → Prop
  | nil {position : Position} {blanks : List Char} (blank : blanks.all Lexeme.isBlank) :
      Tiled position blanks []
  | cons {position : Position} {blanks text rest : List Char} {kind : Leaf}
      {leaves : List (Leaf × Span)} (blank : blanks.all Lexeme.isBlank) (ink : isInk text)
      (later : Tiled (position.advance (blanks ++ text)) rest leaves) :
      Tiled position (blanks ++ text ++ rest)
        ((kind, ⟨position.advance blanks, position.advance (blanks ++ text)⟩) :: leaves)

namespace Tiled

variable {position : Position} {chars : List Char}

theorem blanks_before {blanks : List Char} {leaves : List (Leaf × Span)}
    (blank : blanks.all Lexeme.isBlank) (tiled : Tiled (position.advance blanks) chars leaves) :
    Tiled position (blanks ++ chars) leaves := by
  cases tiled with
  | nil blank' => exact .nil (by rw [List.all_append, blank, blank', Bool.and_self])
  | @cons _ blanks' text rest kind leaves blank' ink later =>
      rw [← Position.advance_append, ← Position.advance_append]
      rw [← Position.advance_append] at later
      have moved : blanks ++ (blanks' ++ text ++ rest) = blanks ++ blanks' ++ text ++ rest := by
        simp only [List.append_assoc]
      rw [moved, ← List.append_assoc]
      refine .cons (by rw [List.all_append, blank, blank', Bool.and_self]) ink ?_
      rwa [List.append_assoc]

/-- Texts that are tiled one after the other are tiled together. -/
theorem append {first later : List (Leaf × Span)} {before after : List Char}
    (tiled : Tiled position before first) (tiled' : Tiled (position.advance before) after later) :
    Tiled position (before ++ after) (first ++ later) := by
  induction tiled with
  | nil blank => exact tiled'.blanks_before blank
  | @cons position blanks text rest kind leaves blank ink _ ih =>
      rw [List.append_assoc (blanks ++ text)]
      refine .cons blank ink (ih ?_)
      rwa [← Position.advance_append]

/-- A tiled text can be cut between any two leaves. -/
theorem exists_cut {first later : List (Leaf × Span)}
    (tiled : Tiled position chars (first ++ later)) :
    ∃ before after, chars = before ++ after ∧ Tiled position before first ∧
      Tiled (position.advance before) after later := by
  induction first generalizing position chars with
  | nil => exact ⟨[], chars, rfl, .nil rfl, tiled⟩
  | cons leaf first ih =>
      cases tiled with
      | @cons _ blanks text rest kind _ blank ink tail =>
          obtain ⟨before, after, rfl, tiledBefore, tiledAfter⟩ := ih tail
          refine ⟨blanks ++ text ++ before, after, by simp only [List.append_assoc],
            .cons blank ink tiledBefore, ?_⟩
          rwa [Position.advance_append]

/-- **A tiled text is covered from the beginning of its first leaf to the end of its last one**, and
what these cover begins and ends as a token does. -/
theorem exists_covered {leaves : List (Leaf × Span)} (tiled : Tiled position chars leaves)
    {first last : Leaf × Span} (isFirst : leaves.head? = some first)
    (isLast : leaves.getLast? = some last) :
    ∃ before text after, chars = before ++ text ++ after ∧ isInk text ∧
      first.2.first = position.advance before ∧
      last.2.last = position.advance (before ++ text) := by
  induction tiled generalizing first with
  | nil _ => cases isFirst
  | @cons position blanks text rest kind leaves blank ink later ih =>
      obtain rfl : _ = first := Option.some.inj isFirst
      cases leaves with
      | nil =>
          obtain rfl : _ = last := Option.some.inj isLast
          exact ⟨blanks, text, rest, rfl, ink, rfl, rfl⟩
      | cons next leaves =>
          rw [List.getLast?_cons_cons] at isLast
          obtain ⟨before, text', after, rfl, ink', -, ends⟩ := ih rfl isLast
          refine ⟨blanks, text ++ (before ++ text'), after, by simp only [List.append_assoc],
            isInk_append ink ink', rfl, ?_⟩
          rw [ends, ← Position.advance_append]
          simp only [List.append_assoc]

/-- The leaves of a tiled text do not begin on lines before it. -/
theorem line_le {leaves : List (Leaf × Span)} (tiled : Tiled position chars leaves)
    {leaf : Leaf × Span} (member : leaf ∈ leaves) : position.line ≤ leaf.2.first.line := by
  induction tiled with
  | nil _ => exact absurd member List.not_mem_nil
  | cons blank ink later ih =>
      rcases List.mem_cons.mp member with rfl | member
      · exact Position.line_le_advance _ _
      · exact Nat.le_trans (Position.line_le_advance _ _) (ih member)

/-- No leaf begins on a line before the first one. -/
theorem head_line_le {leaves : List (Leaf × Span)} (tiled : Tiled position chars leaves)
    {first leaf : Leaf × Span} (isFirst : leaves.head? = some first) (member : leaf ∈ leaves) :
    first.2.first.line ≤ leaf.2.first.line := by
  cases tiled with
  | nil _ => cases isFirst
  | cons blank ink later =>
      obtain rfl : _ = first := Option.some.inj isFirst
      rcases List.mem_cons.mp member with rfl | member
      · exact Nat.le_refl _
      · rw [Position.advance_append] at later
        exact Nat.le_trans (Position.line_le_advance _ _) (later.line_le member)

/-- No leaf begins on a line after the end of the last one. -/
theorem line_le_getLast {leaves : List (Leaf × Span)} (tiled : Tiled position chars leaves)
    {last leaf : Leaf × Span} (isLast : leaves.getLast? = some last) (member : leaf ∈ leaves) :
    leaf.2.first.line ≤ last.2.last.line := by
  induction tiled generalizing leaf with
  | nil _ => cases isLast
  | @cons position blanks text rest kind leaves blank ink later ih =>
      have own : (position.advance blanks).line ≤ (position.advance (blanks ++ text)).line := by
        rw [Position.advance_append]
        exact Position.line_le_advance _ _
      cases leaves with
      | nil =>
          obtain rfl : _ = last := Option.some.inj isLast
          obtain rfl := List.mem_singleton.mp member
          exact own
      | cons next leaves =>
          rw [List.getLast?_cons_cons] at isLast
          rcases List.mem_cons.mp member with rfl | member
          · have next := ih isLast List.mem_cons_self
            exact Nat.le_trans own (Nat.le_trans (later.line_le List.mem_cons_self) next)
          · exact ih isLast member

end Tiled

/-! ## Proper trees -/

/-- A tree each of whose constructs has parts and covers exactly these. -/
inductive Proper : Node → Prop
  | leaf (kind : Leaf) (span : Span) : Proper (.leaf kind span)
  | enclose (construct : Construct) {children : List Node} (filled : children ≠ [])
      (proper : ∀ child ∈ children, Proper child) : Proper (.enclose construct children)

theorem Proper.of_mem_children {node child : Node} (proper : Proper node)
    (member : child ∈ node.children) : Proper child := by
  cases proper with
  | leaf kind span => exact absurd member List.not_mem_nil
  | enclose construct _ proper => exact proper child member

/-- **A proper tree begins with its first leaf and ends with its last one.** -/
theorem Proper.span_eq {node : Node} (proper : Proper node) :
    ∃ first last, node.leaves.head? = some first ∧ node.leaves.getLast? = some last ∧
      node.span = ⟨first.2.first, last.2.last⟩ := by
  induction proper with
  | leaf kind span => exact ⟨(kind, span), (kind, span), rfl, rfl, rfl⟩
  | @enclose construct children filled proper ih =>
      obtain ⟨front, rest, rfl⟩ := List.exists_cons_of_ne_nil filled
      obtain ⟨before, back, isBack⟩ := List.eq_nil_or_concat (front :: rest) |>.resolve_left filled
      obtain ⟨first, _, isFirst, _, frontSpan⟩ := ih front List.mem_cons_self
      obtain ⟨_, last, _, isLast, backSpan⟩ := ih back (by rw [isBack]; simp)
      refine ⟨first, last, ?_, ?_, ?_⟩
      · rw [leaves_enclose, leavesAll_cons, List.head?_append, isFirst]
        rfl
      · rw [leaves_enclose, isBack, List.concat_eq_append, leavesAll_append, leavesAll_cons,
          leavesAll_nil, List.append_nil, List.getLast?_append, isLast]
        rfl
      · have ends : (front :: rest).getLast? = some back := by
          rw [isBack, List.concat_eq_append, List.getLast?_concat]
        show Node.around (front :: rest) = _
        unfold Node.around
        rw [List.head?_cons, ends]
        simp only [frontSpan, backSpan]

end LuaCoverage.Syntax
