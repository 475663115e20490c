import LuaCoverage.Proofs.Analysis.MarkedLines
import LuaCoverage.Proofs.Analysis.TokenScans

/-!
# Two ways to classify lines

Lines are classified by their text where a source does not parse and by the tokens of its tree where
it does, and a source that is finished while it is edited passes from one to the other. On a source
that parses both give the same (`classifyText_agrees`), if the tree has the tokens of the lexical
rules for its leaves and the source keeps to one form of line ends and blanks.

Both are compared with the types that the tokens make by themselves (`typesOf`). Classified by text,
the lines of a source have these types because a scan shows them (`map_classifyText_prefix`); the
rows of the scan may be one more than the lines, when nothing stands behind the last line end.
Marked by a tree, a line has the heaviest of its marks (`getD_lineTypes`), and with a tree that
follows the rules this is the type that the tokens make, or blank if no token marks it
(`heaviest_marks`).
-/

set_option autoImplicit false

namespace LuaCoverage

open Syntax Lua

namespace Analysis

/-! ## The heaviest mark of a line -/

/-- The type that all marks of a line make together. -/
def heaviest (line : Nat) : List (Nat × LineType) → LineType
  | [] => .blank
  | mark :: later =>
      if mark.1 = line then mark.2.join (heaviest line later) else heaviest line later

theorem getD_addMark (marked : LineMap LineType) (mark : Nat × LineType) (line : Nat) :
    (addMark marked mark)[line]?.getD .blank =
      if mark.1 = line then (marked[line]?.getD .blank).join mark.2
      else marked[line]?.getD .blank := by
  have inserted : (marked.insert mark.1 mark.2)[line]?.getD .blank =
      if mark.1 = line then mark.2 else marked[line]?.getD .blank := by
    rw [Std.ExtTreeMap.getElem?_insert]
    by_cases same : mark.1 = line
    · rw [if_pos same, if_pos (Std.LawfulEqCmp.compare_eq_iff_eq.mpr same)]
      rfl
    · rw [if_neg same, if_neg (mt Std.LawfulEqCmp.compare_eq_iff_eq.mp same)]
  unfold addMark
  by_cases same : mark.1 = line
  · subst same
    cases found : marked[mark.1]? with
    | none =>
        rw [inserted, if_pos rfl, if_pos rfl]
        exact (LineType.blank_join _).symm
    | some existing =>
        rw [if_pos rfl]
        show (if existing.rank < mark.2.rank then _ else _)[mark.1]?.getD _ = existing.join mark.2
        unfold LineType.join
        split
        · rw [inserted, if_pos rfl]
        · rw [found]
          rfl
  · rw [if_neg same] at inserted ⊢
    split
    · exact inserted
    · split
      · exact inserted
      · rfl

/-- **The line types of a tree are its heaviest marks.** -/
theorem getD_lineTypes (tree : Node) (line : Nat) :
    (lineTypes tree)[line]?.getD .blank = heaviest line (marks tree) := by
  suffices general : ∀ (all : List (Nat × LineType)) (marked : LineMap LineType),
      (all.foldl addMark marked)[line]?.getD .blank =
        (marked[line]?.getD .blank).join (heaviest line all) by
    rw [lineTypes, general]
    simp
  intro all
  induction all with
  | nil => exact fun marked => (LineType.join_blank _).symm
  | cons mark later ih =>
      intro marked
      rw [List.foldl_cons, ih, getD_addMark, heaviest]
      split
      · rw [LineType.join_assoc]
      · rfl

/-! ## The marks of tokens -/

/-- The type of a line among the types of lines that begin with a given one. -/
def typeAt (line : Nat) : Nat → List LineType → LineType
  | _, [] => .blank
  | first, own :: later => if first = line then own else typeAt line (first + 1) later

theorem typeAt_of_lt {line first : Nat} (before : line < first) (types : List LineType) :
    typeAt line first types = .blank := by
  induction types generalizing first with
  | nil => rfl
  | cons own later ih =>
      rw [typeAt, if_neg (Nat.ne_of_gt before), ih (Nat.lt_succ_of_lt before)]

theorem typeAt_add (first index : Nat) (types : List LineType) :
    typeAt (first + index) first types = types[index]?.getD .blank := by
  induction types generalizing first index with
  | nil => rfl
  | cons own later ih =>
      cases index with
      | zero => exact if_pos rfl
      | succ index =>
          rw [typeAt, if_neg (by omega), show first + (index + 1) = first + 1 + index by omega, ih]
          rfl

/-- The marks of a token that begins on a line and has a number of line ends in it. -/
def laidMarks (first later : LineType) (line : Nat) : Nat → List (Nat × LineType)
  | 0 => [(line, first)]
  | feeds + 1 => (line, first) :: laidMarks later later (line + 1) feeds

theorem map_linesBetween (own : LineType) (line feeds : Nat) :
    (linesBetween line (line + feeds)).map (fun line => (line, own)) =
      laidMarks own own line feeds := by
  induction feeds generalizing line with
  | zero =>
      rw [linesBetween, Nat.add_zero, Nat.add_sub_cancel_left]
      rfl
  | succ feeds ih =>
      have isNext : linesBetween line (line + (feeds + 1)) =
          line :: linesBetween (line + 1) (line + 1 + feeds) := by
        simp only [linesBetween, ← List.range'_eq_map_range]
        rw [show line + (feeds + 1) + 1 - line = feeds + 1 + 1 by omega,
          show line + 1 + feeds + 1 - (line + 1) = feeds + 1 by omega, List.range'_succ]
      rw [isNext, List.map_cons, ih]
      rfl

/-- **The marks of a token add its types to those of the lines behind it.** -/
theorem heaviest_laidMarks {line : Nat} {types : List LineType} {marks : List (Nat × LineType)}
    (first later : LineType) (start feeds : Nat)
    (isLater : heaviest line marks = typeAt line (start + feeds) types) :
    heaviest line (laidMarks first later start feeds ++ marks) =
      typeAt line start (laid first later feeds types) := by
  induction feeds generalizing start first with
  | zero =>
      rw [laidMarks, List.cons_append, List.nil_append, heaviest, isLater, Nat.add_zero]
      cases types with
      | nil => simp [laid, raise, typeAt]
      | cons own types =>
          simp only [laid, raise, typeAt]
          split <;> rfl
  | succ feeds ih =>
      have isLater' := ih later (start + 1) (by rw [isLater]; congr 1; omega)
      rw [laidMarks, List.cons_append, heaviest, isLater', laid, typeAt]
      split
      · rename_i same
        rw [typeAt_of_lt (by omega), LineType.join_blank]
      · rfl

/-! ## The marks of a tree that follows the lexical rules -/

theorem lastLine_advance (position : Position) {text : List Char}
    (ends : text.getLast? ≠ some '\n') :
    Span.lastLine ⟨position, position.advance text⟩ = position.line + text.count '\n' := by
  unfold Span.lastLine
  simp only
  rw [if_neg, Position.line_advance]
  rintro ⟨noColumn, broken⟩
  rcases List.eq_nil_or_concat text with rfl | ⟨before, last, rfl⟩
  · exact absurd broken (Nat.lt_irrefl _)
  · rw [List.concat_eq_append] at noColumn ends
    have notFeed : last ≠ '\n' := by
      rintro rfl
      exact ends List.getLast?_concat
    exact absurd noColumn (Nat.ne_of_gt (position.column_advance_concat notFeed))

theorem isEmpty_advance (position : Position) {text : List Char} (filled : text ≠ []) :
    Span.isEmpty ⟨position, position.advance text⟩ = false := by
  obtain ⟨first, rest, rfl⟩ := List.exists_cons_of_ne_nil filled
  have positive := first.utf8Size_pos
  refine beq_false_of_ne (Nat.ne_of_lt ?_)
  rw [Position.byte_advance, Text.utf8Length_cons]
  exact Nat.lt_add_of_pos_right (Nat.add_pos_left positive _)

/-- The marks of a comment. -/
theorem leafMarks_comment {kind : Leaf} (isAside : kind = .comment ∨ kind = .shebang)
    (position : Position) {text : List Char} (ends : text.getLast? ≠ some '\n') :
    leafMarks kind ⟨position, position.advance text⟩ =
      laidMarks .comment .comment position.line (text.count '\n') := by
  rw [← map_linesBetween, ← lastLine_advance position ends]
  rcases isAside with rfl | rfl <;> rfl

/-- The marks of a string. -/
theorem leafMarks_string (content : Option Span) (position : Position) {text : List Char}
    (ends : text.getLast? ≠ some '\n') :
    leafMarks (.string content) ⟨position, position.advance text⟩ =
      laidMarks .code .stringContent position.line (text.count '\n') := by
  unfold leafMarks
  simp only
  rw [lastLine_advance position ends]
  cases text.count '\n' with
  | zero => simp [laidMarks, linesBetween]
  | succ feeds =>
      rw [show position.line + (feeds + 1) = position.line + 1 + feeds by omega, map_linesBetween]
      rfl

/-- The mark of a leaf that lies on one line. -/
def MarksOnce (kind : Leaf) (own : LineType) : Prop :=
  ∀ span : Span, span.isEmpty = false → leafMarks kind span = [(span.first.line, own)]

theorem leafMarks_once {kind : Leaf} {own : LineType} (once : MarksOnce kind own)
    (later : LineType) (position : Position) {text : List Char} (filled : text ≠ [])
    (unbroken : Text.IsUnbroken text) :
    leafMarks kind ⟨position, position.advance text⟩ =
      laidMarks own later position.line (text.count '\n') := by
  rw [once _ (isEmpty_advance position filled),
    List.count_eq_zero.mpr fun member => (unbroken _ member).1 rfl]
  rfl

theorem marksOnce_symbol (text : String) :
    MarksOnce (.symbol text) (Lexical.ownType (structuralSymbols.contains text)) := by
  intro span filled
  unfold leafMarks Lexical.ownType
  simp only
  rw [filled]
  cases structuralSymbols.contains text <;> rfl

theorem marksOnce_code {kind : Leaf}
    (isCode : kind ∈ [.name, .constant, .number, .varargs, .breakStatement]) :
    MarksOnce kind .code := by
  intro span filled
  simp only [List.mem_cons, List.not_mem_nil, or_false] at isCode
  unfold leafMarks
  rw [filled]
  rcases isCode with rfl | rfl | rfl | rfl | rfl <;> rfl

theorem marksOnce_word {text : String} {kind : Leaf}
    (starts : text.toList.head?.any isLetter = true)
    (isLeaf : (Token.word text).isLeaf kind = true) :
    MarksOnce kind (Token.word text).firstType := by
  have isCode : text ∉ structuralSymbols →
      kind ∈ [.name, .constant, .number, .varargs, .breakStatement] →
      MarksOnce kind (Token.word text).firstType := by
    intro noSymbol isCode
    rw [Token.firstType, Bool.eq_false_iff.mpr (mt List.contains_iff_mem.mp noSymbol)]
    exact marksOnce_code isCode
  cases kind with
  | symbol keyword =>
      simp only [Token.isLeaf, Bool.and_eq_true, beq_iff_eq] at isLeaf
      rw [isLeaf.1]
      exact marksOnce_symbol keyword
  | name =>
      refine isCode (fun member => ?_) (by simp)
      have known : ∀ word ∈ structuralSymbols, word.toList.head?.any isLetter = true →
          reservedWords.contains word = true := by
        decide
      rw [Token.isLeaf, known text member starts] at isLeaf
      cases isLeaf
  | constant =>
      have known : ∀ word ∈ constants, word ∉ structuralSymbols := by decide
      exact isCode (known text (List.contains_iff_mem.mp isLeaf)) (by simp)
  | breakStatement =>
      obtain rfl := beq_iff_eq.mp isLeaf
      exact isCode (by decide) (by simp)
  | _ => cases isLeaf

theorem marksOnce_symbol_token {text : String} {kind : Leaf}
    (isLeaf : (Token.symbol text).isLeaf kind = true) :
    MarksOnce kind (Token.symbol text).firstType := by
  cases kind with
  | symbol own =>
      obtain rfl := beq_iff_eq.mp isLeaf
      exact marksOnce_symbol text
  | varargs =>
      obtain rfl := beq_iff_eq.mp isLeaf
      exact marksOnce_code (by simp)
  | _ => cases isLeaf

theorem text_ne_nil {token : Token} {rest : List Char} (fits : token.fits rest = true) :
    token.text ≠ [] := by
  cases token with
  | word text =>
      simp only [Token.fits, Bool.and_eq_true] at fits
      intro isNil
      rw [show text.toList = [] from isNil] at fits
      cases fits.1.1
  | numeral radix mantissa exponent =>
      simp only [Token.fits, Bool.and_eq_true] at fits
      intro isNil
      have runs := isDigitRuns_of_isNumeral fits.1
      rw [show radix ++ (mantissa ++ exponent) = [] from isNil] at runs
      cases runs
  | symbol text =>
      simp only [Token.fits, Bool.and_eq_true] at fits
      have known : ∀ text ∈ symbols, text.toList ≠ [] := by decide
      exact known text (List.contains_iff_mem.mp fits.1.1)
  | bracketed level content => simp [Token.text, bracket]
  | firstLine content => cases fits
  | _ => exact List.cons_ne_nil _ _

/-- No token ends with a line feed. -/
theorem getLast?_text_ne {token : Token} {rest : List Char} (fits : token.fits rest = true)
    (quoted : ∀ quote content, token = .quoted quote content → Text.IsUnbroken content) :
    token.text.getLast? ≠ some '\n' := by
  have short : token.isLong = false → token.text.getLast? ≠ some '\n' := fun short isLast =>
    (isUnbroken_text fits short quoted _ (List.mem_of_getLast? isLast)).1 rfl
  have closing : ∀ before level, (before ++ bracket ']' level).getLast? = some ']' := by
    intro before level
    rw [bracket, ← List.cons_append, ← List.append_assoc, List.getLast?_concat]
  cases token with
  | bracketed level content =>
      rw [Token.text, ← List.append_assoc, closing]
      decide
  | bracketedComment level content =>
      rw [Token.text, ← List.append_assoc, ← List.cons_append, ← List.cons_append, closing]
      decide
  | _ => exact short rfl

/-- **The leaf of a token marks the lines on which the token lies.** -/
theorem leafMarks_eq {token : Token} {kind : Leaf} {rest : List Char} (position : Position)
    (isLeaf : token.isLeaf kind = true) (fits : token.fits rest = true)
    (quoted : ∀ quote content, token = .quoted quote content → Text.IsUnbroken content) :
    leafMarks kind ⟨position, position.advance token.text⟩ =
      laidMarks token.firstType token.laterType position.line token.feeds := by
  have unbroken := isUnbroken_text fits
  have filled := text_ne_nil fits
  have ends := getLast?_text_ne fits quoted
  cases token with
  | word text =>
      simp only [Token.fits, Bool.and_eq_true] at fits
      exact leafMarks_once (marksOnce_word fits.1.1 isLeaf) _ _ filled (unbroken rfl quoted)
  | numeral radix mantissa exponent =>
      cases kind with
      | number => exact leafMarks_once (marksOnce_code (by simp)) _ _ filled (unbroken rfl quoted)
      | _ => cases isLeaf
  | symbol text =>
      exact leafMarks_once (marksOnce_symbol_token isLeaf) _ _ filled (unbroken rfl quoted)
  | quoted quote content =>
      cases kind with
      | string inside => exact leafMarks_string inside position ends
      | _ => cases isLeaf
  | bracketed level content =>
      cases kind with
      | string inside => exact leafMarks_string inside position ends
      | _ => cases isLeaf
  | lineComment content =>
      cases kind with
      | comment => exact leafMarks_comment (.inl rfl) position ends
      | _ => cases isLeaf
  | bracketedComment level content =>
      cases kind with
      | comment => exact leafMarks_comment (.inl rfl) position ends
      | _ => cases isLeaf
  | firstLine content => cases fits

/-- **The marks of the leaves are the types that the pieces make.** -/
theorem heaviest_leaves {pieces : List Piece} (isCut : isCut pieces = true)
    (plain : IsPlain pieces) {leaves : List (Leaf × Span)} {position : Position}
    (areLeaves : AreLeaves leaves (tokensFrom position pieces)) (line : Nat) :
    heaviest line (leaves.flatMap fun leaf => leafMarks leaf.1 leaf.2) =
      typeAt line position.line (typesOf pieces) := by
  induction pieces generalizing leaves position with
  | nil =>
      cases areLeaves
      show LineType.blank = if position.line = line then LineType.blank else .blank
      rw [ite_self]
  | cons piece later ih =>
      cases piece with
      | blank char =>
          rw [Lua.isCut, Bool.and_eq_true] at isCut
          rw [ih isCut.2 plain.later areLeaves, typesOf]
          unfold Position.next
          split
          · show typeAt line (position.line + 1) (typesOf later) =
              if position.line = line then .blank else typeAt line (position.line + 1) _
            split
            · exact typeAt_of_lt (by omega) _
            · rfl
          · rfl
      | token token =>
          rw [Lua.isCut, Bool.and_eq_true] at isCut
          obtain ⟨fits, isCut⟩ := isCut
          cases areLeaves with
          | @cons leaf _ leaves _ own areLater =>
              obtain ⟨kind, span⟩ := leaf
              obtain ⟨rfl, isLeaf⟩ := own
              rw [List.flatMap_cons, leafMarks_eq position isLeaf fits ?_]
              · refine heaviest_laidMarks _ _ _ _ ?_
                rw [ih isCut plain.later areLater, Position.line_advance]
                rfl
              · rintro quote content rfl
                exact plain.isUnbroken_content (quote_notEnd fits).1

/-- **The marks of a tree that follows the lexical rules are the types that its tokens make.** -/
theorem heaviest_marks {source : String} {pieces : List Piece} {tree : Node}
    (tokenizes : Tokenizes source pieces tree) (plain : IsPlain pieces) (line : Nat) :
    heaviest line (marks tree) = typeAt line 1 (typesOf pieces) := by
  obtain ⟨-, isCut, areLeaves⟩ := tokenizes
  rw [marks_eq]
  generalize tree.leaves = leaves at areLeaves
  rcases cases_of_isSourceCut isCut with ⟨content, later, rfl, noFeed, isCut', -⟩ | ⟨-, isCut'⟩
  · cases areLeaves with
    | @cons leaf _ leaves _ own areLater =>
        obtain ⟨kind, span⟩ := leaf
        obtain ⟨rfl, isLeaf⟩ := own
        have isAside : kind = .shebang := by
          cases kind with
          | shebang => rfl
          | _ => cases isLeaf
        have ends : (Token.firstLine content).text.getLast? ≠ some '\n' := by
          intro isLast
          rcases List.mem_cons.mp (List.mem_of_getLast? isLast) with isSign | member
          · cases isSign
          · exact noFeed member
        rw [List.flatMap_cons, leafMarks_comment (.inr isAside) Position.start ends]
        refine heaviest_laidMarks _ _ _ _ ?_
        rw [heaviest_leaves isCut' plain.later areLater, Position.line_advance]
  · exact heaviest_leaves isCut' plain areLeaves line

end Analysis

/-! ## Lines by their text -/

open Lexical (typesFrom)

theorem map_classifyFrom (policy : StructuralPolicy) (context : OpenText)
    (all : List (List Char)) :
    (classifyFrom policy context (all.map String.ofList)).map Classification.lineType =
      typesFrom context all := by
  induction all generalizing context with
  | nil => rfl
  | cons row later ih =>
      rw [List.map_cons, classifyFrom, List.map_cons, String.toList_ofList, ih]
      rfl

theorem typesFrom_prefix {first all : List (List Char)} (isPrefix : first <+: all)
    (context : OpenText) : typesFrom context first <+: typesFrom context all := by
  induction first generalizing context all with
  | nil => exact List.nil_prefix
  | cons row later ih =>
      obtain ⟨more, rfl⟩ := isPrefix
      exact List.cons_prefix_cons.mpr ⟨rfl, ih (List.prefix_append later more) _⟩

/-- The first row of a source ends before the first line feed. -/
theorem exists_first_row {content rest : List Char} {later : List (List Char)}
    (noFeed : '\n' ∉ content) (isRows : Text.rows rest = [] :: later) :
    ∃ row, Text.rows (content ++ rest) = row :: later := by
  induction content with
  | nil => exact ⟨[], isRows⟩
  | cons first content ih =>
      rw [List.mem_cons, not_or] at noFeed
      obtain ⟨row, isRow⟩ := ih noFeed.2
      by_cases isReturn : first = '\r' ∧ (content ++ rest).head? = some '\n'
      · obtain ⟨rfl, isHead⟩ := isReturn
        obtain ⟨more, isMore⟩ := List.head?_eq_some_iff.mp isHead
        rw [List.cons_append, isMore, Text.rows_return, ← isMore]
        exact ⟨row, isRow⟩
      · exact ⟨first :: row, Text.rows_cons (Ne.symm noFeed.1)
          (fun back feed => isReturn ⟨back, feed⟩) isRow⟩

/-- **Classified by its text, a source has the types that its tokens make.** -/
theorem map_classifyText_prefix {source : String} {pieces : List Piece}
    (isText : source.toList = textOf pieces) (isSource : isSourceCut pieces = true)
    (plain : IsPlain pieces) (policy : StructuralPolicy) :
    (classifyText policy (Text.lines source)).map Classification.lineType <+: typesOf pieces := by
  have isPrefix := Text.charLines_prefix_rows (textOf pieces)
  have shown : ∀ {later}, isCut later = true → IsPlain later →
      typesFrom {} (Text.rows (textOf later)) = typesOf later := by
    intro later isCut plain
    obtain ⟨first, types, isTypes⟩ := exists_typesOf later
    have shown := shows_pieces isCut plain
    rw [isTypes] at shown ⊢
    exact shown.typesFrom_rows
  rw [Text.lines, isText]
  generalize Text.charLines (textOf pieces) = lines at isPrefix
  cases lines with
  | nil => exact List.nil_prefix
  | cons line lines =>
      rw [List.map_cons, classifyText, String.toList_ofList]
      rcases cases_of_isSourceCut isSource with ⟨content, later, rfl, noFeed, isCut', isLater⟩ |
        ⟨noSign, isCut'⟩
      · have noFeeds : (Token.firstLine content).feeds = 0 := by
          refine List.count_eq_zero.mpr fun member => ?_
          rcases List.mem_cons.mp member with isSign | member
          · cases isSign
          · exact noFeed member
        obtain ⟨behind, isBehind, isTypes⟩ : ∃ behind,
            Text.rows (textOf later) = [] :: behind ∧
              raise .comment (typesOf later) = .comment :: typesFrom {} behind := by
          rcases isLater with rfl | ⟨more, rfl⟩
          · exact ⟨[], rfl, rfl⟩
          · rw [Lua.isCut, Bool.and_eq_true] at isCut'
            refine ⟨Text.rows (textOf more), rfl, ?_⟩
            rw [shown isCut'.2 plain.later.later]
            rfl
        obtain ⟨row, isRow⟩ := exists_first_row noFeed isBehind
        have isRow' : Text.rows (textOf (.token (.firstLine content) :: later)) =
            ('#' :: row) :: behind :=
          Text.rows_cons (by decide) (fun isReturn => absurd isReturn (by decide)) isRow
        rw [isRow', List.cons_prefix_cons] at isPrefix
        obtain ⟨rfl, isPrefix⟩ := isPrefix
        rw [List.head?_cons, if_pos (beq_self_eq_true (some '#')), List.map_cons,
          map_classifyFrom, typesOf, noFeeds]
        show _ <+: raise .comment (typesOf later)
        rw [isTypes]
        exact List.cons_prefix_cons.mpr ⟨rfl, typesFrom_prefix isPrefix _⟩
      · rw [if_neg, ← List.map_cons, map_classifyFrom, ← shown isCut' plain]
        · exact typesFrom_prefix isPrefix _
        · intro isSign
          obtain ⟨row, later, isRows, more, isMore⟩ := Text.exists_rows (textOf pieces)
          rw [isRows, List.cons_prefix_cons] at isPrefix
          rw [isPrefix.1, beq_iff_eq] at isSign
          rw [← isMore, List.head?_append, isSign] at noSign
          exact noSign rfl

/-! ## Agreement -/

/-- The verdicts of a classification by text allow a line to run just as its type does. -/
theorem executable_of_classifyText {policy : StructuralPolicy} {lines : List String}
    {own : Classification} (member : own ∈ classifyText policy lines) :
    own.executable = own.lineType.isExecutable policy := by
  have general : ∀ (lines : List String) (context : OpenText),
      ∀ own ∈ classifyFrom policy context lines,
        own.executable = own.lineType.isExecutable policy := by
    intro lines
    induction lines with
    | nil => exact fun _ _ none => absurd none List.not_mem_nil
    | cons line later ih =>
        intro context own member
        rw [classifyFrom] at member
        rcases List.mem_cons.mp member with rfl | member
        · rfl
        · exact ih _ own member
  cases lines with
  | nil => exact absurd member List.not_mem_nil
  | cons line later =>
      rw [classifyText] at member
      split at member
      · rcases List.mem_cons.mp member with rfl | member
        · rfl
        · exact general later _ own member
      · exact general _ _ own member

theorem lookup_overlay (policy : StructuralPolicy) (types : LineMap LineType)
    (lines : List Classification) (index : Nat) :
    (Analysis.overlay policy types lines)[index]? = lines[index]?.map fun own =>
      match types[index + 1]? with
      | none => own
      | some lineType => .ofType policy lineType (Analysis.markReason lineType) := by
  rw [Analysis.overlay, List.getElem?_map, List.getElem?_zipIdx, Option.map_map, Nat.add_comm 1]
  rfl

/-- Marks that repeat what lines have already change no type and no permission to run. -/
theorem map_overlay {α : Type} {policy : StructuralPolicy} {types : LineMap LineType}
    {lines : List Classification} (view : Classification → α)
    (same : ∀ index own lineType, lines[index]? = some own → types[index + 1]? = some lineType →
      view (.ofType policy lineType (Analysis.markReason lineType)) = view own) :
    (Analysis.overlay policy types lines).map view = lines.map view := by
  refine List.ext_getElem? fun index => ?_
  rw [List.getElem?_map, List.getElem?_map, lookup_overlay, Option.map_map]
  cases isOwn : lines[index]? with
  | none => rfl
  | some own =>
      rw [Option.map_some, Option.map_some, Function.comp_apply]
      split
      · rfl
      · rename_i lineType isMarked
        rw [same index own lineType isOwn isMarked]

/-- **The classification by text and the one by tokens agree** on every source that parses, if the
tree follows the lexical rules and the source keeps to one form of line ends and blanks: they give
every line the same type, and allow the same lines to run. -/
theorem classifyText_agrees (settings : AnalysisSettings) (source fileId : String)
    {pieces : List Piece} {tree : Node} (isParsed : parse? source = some tree)
    (tokenizes : Tokenizes source pieces tree) (plain : IsPlain pieces) :
    (classifyText settings.policy (Text.lines source)).map Classification.lineType =
        (analyze settings source fileId).lines.map Classification.lineType ∧
      (classifyText settings.policy (Text.lines source)).map Classification.executable =
        (analyze settings source fileId).lines.map Classification.executable := by
  by_cases tooLarge : settings.maxFileBytes < source.utf8ByteSize
  · rw [analyze, if_pos tooLarge]
    exact ⟨rfl, rfl⟩
  · rw [analyze, if_neg tooLarge, isParsed]
    simp only [ofTree_lines]
    have byText := map_classifyText_prefix tokenizes.isText tokenizes.isCut plain settings.policy
    have sameType : ∀ (index : Nat) (own : Classification) (lineType : LineType),
        (classifyText settings.policy (Text.lines source))[index]? = some own →
        (Analysis.lineTypes tree)[index + 1]? = some lineType → lineType = own.lineType := by
      intro index own lineType isOwn isMarked
      have byToken := Analysis.getD_lineTypes tree (index + 1)
      rw [isMarked, Analysis.heaviest_marks tokenizes plain, Nat.add_comm,
        Analysis.typeAt_add] at byToken
      have isType : (typesOf pieces)[index]? = some own.lineType := by
        obtain ⟨more, isMore⟩ := byText
        have found := congrArg (Option.map Classification.lineType) isOwn
        rw [← List.getElem?_map] at found
        obtain ⟨inside, -⟩ := List.getElem?_eq_some_iff.mp found
        rwa [← isMore, List.getElem?_append_left inside]
      rw [isType] at byToken
      exact byToken
    refine ⟨(map_overlay _ fun index own lineType isOwn isMarked => ?_).symm,
      (map_overlay _ fun index own lineType isOwn isMarked => ?_).symm⟩
    · exact sameType index own lineType isOwn isMarked
    · rw [executable_of_classifyText (List.mem_of_getElem? isOwn),
        ← sameType index own lineType isOwn isMarked]
      rfl

/-- A source that has a line of every type, with long brackets of two levels, a comment behind a
string, an escaped quote and the exponent of a numeral in it. -/
def mixedSource : String :=
  "#!lua\nlocal s = [=[a]]\nb\n]=] -- c\n--[[ d\n]]\nwhile s do\n f('q\\'', 1e-3)\r\n\nend\n"

/-- What the lexical rules cut the source into. -/
def mixedPieces : List Piece :=
  [.token (.firstLine "!lua".toList), .blank '\n', .token (.word "local"), .blank ' ',
   .token (.word "s"), .blank ' ', .token (.symbol "="), .blank ' ',
   .token (.bracketed 1 "a]]\nb\n".toList), .blank ' ', .token (.lineComment " c".toList),
   .blank '\n', .token (.bracketedComment 0 " d\n".toList), .blank '\n', .token (.word "while"),
   .blank ' ', .token (.word "s"), .blank ' ', .token (.word "do"), .blank '\n', .blank ' ',
   .token (.word "f"), .token (.symbol "("), .token (.quoted '\'' "q\\'".toList),
   .token (.symbol ","), .blank ' ', .token (.numeral [] "1".toList "e-3".toList),
   .token (.symbol ")"), .blank '\r', .blank '\n', .blank '\n', .token (.word "end"),
   .blank '\n']

set_option maxRecDepth 20000 in
/-- The two classifications agree on that source. -/
theorem classifyText_agrees_mixed :
    (∃ tree, parse? mixedSource = some tree ∧ Tokenizes mixedSource mixedPieces tree) ∧
      IsPlain mixedPieces ∧
      (classifyText .nonExecutable (Text.lines mixedSource)).map Classification.lineType =
        (analyze ⟨.nonExecutable, 100⟩ mixedSource "p").lines.map Classification.lineType ∧
      (classifyText .nonExecutable (Text.lines mixedSource)).map Classification.lineType =
        [.comment, .code, .stringContent, .stringContent, .comment, .comment, .code, .code, .blank,
         .structural] := by
  have parses : (parse? mixedSource).any (fun tree =>
      decide (AreLeaves tree.leaves (tokensFrom Position.start mixedPieces))) = true := by
    decide +kernel
  obtain ⟨tree, isParsed, areLeaves⟩ := (Option.any_eq_true _ _).mp parses
  have tokenizes : Tokenizes mixedSource mixedPieces tree :=
    ⟨by decide +kernel, by decide +kernel, of_decide_eq_true areLeaves⟩
  have plain : IsPlain mixedPieces := by
    refine ⟨fun quote content member => ?_, by decide +kernel, by decide +kernel⟩
    simp [mixedPieces] at member
    rw [member.2]
    decide
  exact ⟨⟨tree, isParsed, tokenizes⟩, plain,
    (classifyText_agrees ⟨.nonExecutable, 100⟩ mixedSource "p" isParsed tokenizes plain).1,
    by decide +kernel⟩

end LuaCoverage
