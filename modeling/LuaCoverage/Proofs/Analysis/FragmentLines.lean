import LuaCoverage.Lexical
import LuaCoverage.Proofs.Syntax.Fragments

/-!
# What fragments put on lines

A fragment begins on the line that the text before it ends on, and it runs over as many more lines
as it has line ends in it (`Fragment.BeginsOn`). This settles what is on a line: code, a structural
word or a closing mark, a comment, a string that an earlier line began, and whether the end of the
line lies inside a text in long brackets (`Fragment.Describes`).

To get there from a scan, the same is written down as a table with one entry for each line
(`Fragment.tableOf`), which goes from the last fragment to the first: a fragment puts something on
its own first line, something on the lines that it runs over, and what lies below it is moved down
by as many lines. Each entry of the table says what is on its line (`Fragment.describes_tableOf`).
-/

set_option autoImplicit false

namespace LuaCoverage

/-- What a line holds by two parts of it. -/
def Lexical.Marks.union (first second : Lexical.Marks) : Lexical.Marks where
  code := first.code || second.code
  structural := first.structural || second.structural
  comment := first.comment || second.comment
  blockComment := first.blockComment || second.blockComment
  carriedString := first.carriedString || second.carriedString

open Lexical (Marks)

@[simp]
theorem Lexical.Marks.union_none (marks : Marks) : marks.union {} = marks := by
  simp [Marks.union]

@[simp]
theorem Lexical.Marks.none_union (marks : Marks) : Marks.union {} marks = marks := by
  simp [Marks.union]

theorem Lexical.Marks.union_assoc (first second third : Marks) :
    (first.union second).union third = first.union (second.union third) := by
  simp [Marks.union, Bool.or_assoc]

namespace Lua.Fragment

/-! ## Kinds of fragments -/

/-- The words that carry no effect of their own. -/
def structuralWords : List String := ["end", "else", "then", "do", "repeat"]

/-- The marks that close something or separate its parts. -/
def closers : List Char := [')', ']', '}', ',', ';']

/-- Whether a fragment carries no effect of its own, although it is no blank and no comment. -/
def isStructural : Fragment → Bool
  | word text => structuralWords.contains (String.ofList text)
  | symbol char => closers.contains char
  | _ => false

/-- Whether a fragment is part of a statement. -/
def isCode : Fragment → Bool
  | word text => !structuralWords.contains (String.ofList text)
  | symbol char => !closers.contains char
  | quoted _ _ _ => true
  | bracketed _ _ _ => true
  | _ => false

def isComment : Fragment → Bool
  | lineComment _ => true
  | bracketedComment _ _ _ => true
  | firstLine _ => true
  | _ => false

def isBracketedComment : Fragment → Bool
  | bracketedComment _ _ _ => true
  | _ => false

def isBracketed : Fragment → Bool
  | bracketed _ _ _ => true
  | _ => false

/-- Whether a fragment in long brackets is never closed. -/
def isOpen : Fragment → Bool
  | bracketed _ _ closed => !closed
  | bracketedComment _ _ closed => !closed
  | _ => false

/-- The context inside a fragment. -/
def context : Fragment → OpenText
  | bracketed level _ _ => .string level
  | bracketedComment level _ _ => .comment level
  | _ => {}

/-- How many line ends a fragment has in it. -/
def feeds (fragment : Fragment) : Nat := fragment.text.count '\n'

/-! ## What is on a line -/

section Lines

variable (pieces : List Fragment) (line : Nat)

/-- Whether a fragment begins on a line. Lines are counted from zero. -/
def BeginsOn (fragment : Fragment) : Prop :=
  ∃ before after, pieces = before ++ fragment :: after ∧ (textOf before).count '\n' = line

/-- Whether some of a fragment is on a line. -/
def LiesOn (fragment : Fragment) : Prop :=
  ∃ first, BeginsOn pieces first fragment ∧ first ≤ line ∧ line ≤ first + fragment.feeds

/-- Whether a line begins inside a fragment. -/
def IsCarriedTo (fragment : Fragment) : Prop :=
  ∃ first, BeginsOn pieces first fragment ∧ first < line ∧ line ≤ first + fragment.feeds

/-- Whether a line ends inside a fragment. -/
def RunsPast (fragment : Fragment) : Prop :=
  ∃ first, BeginsOn pieces first fragment ∧ first ≤ line ∧
    (line < first + fragment.feeds ∨ fragment.isOpen = true)

/-- Whether some code begins on a line. What is carried over from earlier lines does not count. -/
def HasCode : Prop := ∃ fragment, BeginsOn pieces line fragment ∧ fragment.isCode = true

/-- Whether a structural word or a closing mark is on a line. -/
def HasStructural : Prop := ∃ fragment, BeginsOn pieces line fragment ∧ fragment.isStructural = true

/-- Whether a line begins inside a string in long brackets. -/
def HasCarriedString : Prop :=
  ∃ level content closed, IsCarriedTo pieces line (.bracketed level content closed)

/-- Whether some of a comment is on a line. -/
def HasComment : Prop := ∃ fragment, LiesOn pieces line fragment ∧ fragment.isComment = true

/-- Whether a line ends inside a comment in long brackets of a level. -/
def EndsInComment (level : Nat) : Prop :=
  ∃ content closed, RunsPast pieces line (.bracketedComment level content closed)

/-- Whether a line ends inside a string in long brackets of a level. -/
def EndsInString (level : Nat) : Prop :=
  ∃ content closed, RunsPast pieces line (.bracketed level content closed)

/-- **What a line of some fragments is**: its type goes by the first thing that is on it, in the
order of the fields, and the context that it leaves is what its end lies inside of. -/
structure Describes (lineType : LineType) (next : OpenText) : Prop where
  code : lineType = .code ↔ HasCode pieces line
  structural : lineType = .structural ↔ ¬ HasCode pieces line ∧ HasStructural pieces line
  stringContent : lineType = .stringContent ↔
    ¬ HasCode pieces line ∧ ¬ HasStructural pieces line ∧ HasCarriedString pieces line
  comment : lineType = .comment ↔
    ¬ HasCode pieces line ∧ ¬ HasStructural pieces line ∧ ¬ HasCarriedString pieces line ∧
      HasComment pieces line
  blank : lineType = .blank ↔
    ¬ HasCode pieces line ∧ ¬ HasStructural pieces line ∧ ¬ HasCarriedString pieces line ∧
      ¬ HasComment pieces line
  inComment : ∀ level, next = .comment level ↔ EndsInComment pieces line level
  inString : ∀ level, next = .string level ↔ EndsInString pieces line level
  nothingOpen : next = {} ↔
    ∀ level, ¬ EndsInComment pieces line level ∧ ¬ EndsInString pieces line level

end Lines

theorem not_beginsOn_nil (line : Nat) (fragment : Fragment) : ¬ BeginsOn [] line fragment := by
  rintro ⟨before, after, isEmpty, -⟩
  exact absurd isEmpty.symm (by simp)

/-- What begins behind a fragment begins that much further down. -/
theorem beginsOn_cons {first fragment : Fragment} {later : List Fragment} {line : Nat} :
    BeginsOn (first :: later) line fragment ↔
      (fragment = first ∧ line = 0) ∨
        ∃ below, BeginsOn later below fragment ∧ line = first.feeds + below := by
  constructor
  · rintro ⟨before, after, isPieces, rfl⟩
    cases before with
    | nil =>
        obtain ⟨rfl, -⟩ := List.cons.inj isPieces
        exact .inl ⟨rfl, rfl⟩
    | cons own before =>
        obtain ⟨rfl, rfl⟩ := List.cons.inj isPieces
        refine .inr ⟨_, ⟨before, after, rfl, rfl⟩, ?_⟩
        rw [textOf_cons, List.count_append, feeds]
  · rintro (⟨rfl, rfl⟩ | ⟨below, ⟨before, after, rfl, rfl⟩, rfl⟩)
    · exact ⟨[], later, rfl, rfl⟩
    · exact ⟨first :: before, after, rfl, by rw [textOf_cons, List.count_append, feeds]⟩

/-! ## Tables -/

/-- What a fragment puts on its first line. -/
def own (fragment : Fragment) : Marks where
  code := fragment.isCode
  structural := fragment.isStructural
  comment := fragment.isComment
  blockComment := fragment.isBracketedComment

/-- What a fragment puts on the lines that it runs over. -/
def carried (fragment : Fragment) : Marks where
  comment := fragment.isComment
  blockComment := fragment.isBracketedComment
  carriedString := fragment.isBracketed

/-- What a fragment puts on the line so many lines below its first one. -/
def marksAt (fragment : Fragment) : Nat → Marks
  | 0 => fragment.own
  | _ + 1 => fragment.carried

theorem marksAt_eq (fragment : Fragment) (line : Nat) :
    fragment.marksAt line = if line = 0 then fragment.own else fragment.carried := by
  cases line <;> rfl

/-- A table of lines with something more on the first of them. -/
def onto (more : Marks) : List (Marks × OpenText) → List (Marks × OpenText)
  | [] => []
  | (marks, next) :: later => (more.union marks, next) :: later

/-- A table with a fragment above it that has a number of line ends in it. -/
def spread (own carried : Marks) (inside : OpenText) :
    Nat → List (Marks × OpenText) → List (Marks × OpenText)
  | 0, below => onto own below
  | feeds + 1, below => (own, inside) :: spread carried carried inside feeds below

/-- The table of the lines of some fragments. -/
def tableOf : List Fragment → List (Marks × OpenText)
  | [] => [({}, {})]
  | first :: later =>
      spread first.own first.carried first.context first.feeds
        (if first.isOpen then [({}, first.context)] else tableOf later)

theorem onto_onto (more own : Marks) (below : List (Marks × OpenText)) :
    onto more (onto own below) = onto (more.union own) below := by
  cases below with
  | nil => rfl
  | cons first later => rw [onto, onto, onto, Marks.union_assoc]

theorem onto_none (below : List (Marks × OpenText)) : onto {} below = below := by
  cases below with
  | nil => rfl
  | cons first later => rw [onto, Marks.none_union]

theorem onto_spread (more own carried : Marks) (inside : OpenText) (feeds : Nat)
    (below : List (Marks × OpenText)) :
    onto more (spread own carried inside feeds below) =
      spread (more.union own) carried inside feeds below := by
  cases feeds with
  | zero => exact onto_onto more own below
  | succ feeds => rfl

/-- **The entries of a table with a fragment above it**: those of the lines that end inside the
fragment, that of the line it ends on, and those below. -/
theorem getElem?_spread (fragment : Fragment) (own : Marks) (feeds line : Nat)
    (below : List (Marks × OpenText)) :
    (spread own fragment.carried fragment.context feeds below)[line]? =
      if line < feeds then some (if line = 0 then own else fragment.carried, fragment.context)
      else (below[line - feeds]?).map fun entry =>
        if line = feeds then
          ((if line = 0 then own else fragment.carried).union entry.1, entry.2)
        else entry := by
  induction feeds generalizing own line with
  | zero =>
      rw [spread, if_neg (Nat.not_lt_zero line), Nat.sub_zero]
      cases below with
      | nil => rfl
      | cons first later =>
          cases line with
          | zero => rfl
          | succ line => simp [onto]
  | succ feeds ih =>
      rw [spread]
      cases line with
      | zero => simp
      | succ line =>
          rw [List.getElem?_cons_succ, ih, Nat.add_sub_add_right]
          simp

/-! ## The entries of a table -/

/-- A property of marks that a line has by one of its parts. -/
structure IsFlag (flag : Marks → Bool) : Prop where
  none : flag {} = false
  union : ∀ first second, flag (first.union second) = (flag first || flag second)

/-- Whether some fragment puts on a line what has a property. -/
def Marked (flag : Marks → Bool) (pieces : List Fragment) (line : Nat) : Prop :=
  ∃ fragment first, BeginsOn pieces first fragment ∧ first ≤ line ∧
    line ≤ first + fragment.feeds ∧ flag (fragment.marksAt (line - first)) = true

/-- Whether a line ends inside a fragment with a context. -/
def LeftIn (next : OpenText) (pieces : List Fragment) (line : Nat) : Prop :=
  ∃ fragment, RunsPast pieces line fragment ∧ fragment.context = next

theorem marked_cons {flag : Marks → Bool} {first : Fragment} {later : List Fragment} {line : Nat} :
    Marked flag (first :: later) line ↔
      (line ≤ first.feeds ∧ flag (first.marksAt line) = true) ∨
        (first.feeds ≤ line ∧ Marked flag later (line - first.feeds)) := by
  constructor
  · rintro ⟨fragment, start, begins, above, reaches, isMarked⟩
    rcases beginsOn_cons.mp begins with ⟨rfl, rfl⟩ | ⟨below, begins', rfl⟩
    · exact .inl ⟨by omega, isMarked⟩
    · refine .inr ⟨by omega, fragment, below, begins', by omega, by omega, ?_⟩
      rwa [Nat.sub_sub]
  · rintro (⟨reaches, isMarked⟩ | ⟨above, fragment, below, begins, above', reaches, isMarked⟩)
    · exact ⟨first, 0, beginsOn_cons.mpr (.inl ⟨rfl, rfl⟩), Nat.zero_le _, by omega, isMarked⟩
    · refine ⟨fragment, first.feeds + below, beginsOn_cons.mpr (.inr ⟨below, begins, rfl⟩),
        by omega, by omega, ?_⟩
      rwa [← Nat.sub_sub]

theorem leftIn_cons {next : OpenText} {first : Fragment} {later : List Fragment} {line : Nat} :
    LeftIn next (first :: later) line ↔
      ((line < first.feeds ∨ first.isOpen = true) ∧ first.context = next) ∨
        (first.feeds ≤ line ∧ LeftIn next later (line - first.feeds)) := by
  constructor
  · rintro ⟨fragment, ⟨start, begins, above, past⟩, isContext⟩
    rcases beginsOn_cons.mp begins with ⟨rfl, rfl⟩ | ⟨below, begins', rfl⟩
    · exact .inl ⟨past.imp_left (by omega), isContext⟩
    · exact .inr ⟨by omega, fragment, ⟨below, begins', by omega, past.imp_left (by omega)⟩,
        isContext⟩
  · rintro (⟨past, isContext⟩ | ⟨above, fragment, ⟨below, begins, above', past⟩, isContext⟩)
    · exact ⟨first, ⟨0, beginsOn_cons.mpr (.inl ⟨rfl, rfl⟩), Nat.zero_le _,
        past.imp_left (by omega)⟩, isContext⟩
    · exact ⟨fragment, ⟨first.feeds + below, beginsOn_cons.mpr (.inr ⟨below, begins, rfl⟩),
        by omega, past.imp_left (by omega)⟩, isContext⟩

/-- Whether an entry of a table says what is on a line of some fragments. -/
structure IsEntry (pieces : List Fragment) (line : Nat) (entry : Marks × OpenText) : Prop where
  marks : ∀ flag, IsFlag flag → (flag entry.1 = true ↔ Marked flag pieces line)
  inside : ∀ next, next ≠ {} → (entry.2 = next ↔ LeftIn next pieces line)

theorem not_marked_nil (flag : Marks → Bool) (line : Nat) : ¬ Marked flag [] line :=
  fun ⟨_, _, begins, _⟩ => not_beginsOn_nil _ _ begins

theorem not_leftIn_nil (next : OpenText) (line : Nat) : ¬ LeftIn next [] line :=
  fun ⟨_, ⟨_, begins, _⟩, _⟩ => not_beginsOn_nil _ _ begins

theorem isEntry_nil : IsEntry [] 0 ({}, {}) where
  marks flag isFlag := iff_of_false (by simp [isFlag.none]) (not_marked_nil flag 0)
  inside next notEmpty := iff_of_false (Ne.symm notEmpty) (not_leftIn_nil next 0)

/-- **A fragment above a table.** Nothing stands below a fragment that is never closed. -/
theorem isEntry_cons {first : Fragment} {later : List Fragment}
    (last : first.isOpen = true → later = [])
    (below : ∀ line entry, (tableOf later)[line]? = some entry → IsEntry later line entry)
    {line : Nat} {entry : Marks × OpenText}
    (isEntry : (tableOf (first :: later))[line]? = some entry) :
    IsEntry (first :: later) line entry := by
  rw [tableOf, getElem?_spread] at isEntry
  by_cases ends : line < first.feeds
  · rw [if_pos ends] at isEntry
    obtain rfl := Option.some.inj isEntry
    refine ⟨fun flag isFlag => ?_, fun next notEmpty => ?_⟩
    · rw [marked_cons, or_iff_left fun behind => absurd behind.1 (by omega),
        and_iff_right (by omega), marksAt_eq]
    · rw [leftIn_cons, or_iff_left fun behind => absurd behind.1 (by omega),
        and_iff_right (.inl ends)]
  · rw [if_neg ends] at isEntry
    obtain ⟨lower, isLower, same⟩ := Option.map_eq_some_iff.mp isEntry
    rw [← marksAt_eq] at same
    -- the lines of a fragment that is never closed are the last ones
    have cases_ : (IsEntry later (line - first.feeds) lower ∧ first.isOpen = false) ∨
        (lower = ({}, first.context) ∧ later = [] ∧ line = first.feeds ∧ first.isOpen = true) := by
      split at isLower
      · rename_i isOpen
        rw [List.getElem?_singleton] at isLower
        split at isLower
        · exact .inr ⟨(Option.some.inj isLower).symm, last isOpen, by omega, isOpen⟩
        · cases isLower
      · rename_i isClosed
        exact .inl ⟨below _ _ isLower, Bool.eq_false_iff.mpr isClosed⟩
    rcases cases_ with ⟨isLower, isClosed⟩ | ⟨rfl, rfl, isLast, isOpen⟩
    · have inside : entry.2 = lower.2 := by rw [← same]; split <;> rfl
      refine ⟨fun flag isFlag => ?_, fun next notEmpty => ?_⟩
      · rw [marked_cons, and_iff_right (show first.feeds ≤ line by omega),
          ← isLower.marks flag isFlag, ← same]
        split
        · rename_i isLast
          rw [isFlag.union, Bool.or_eq_true, and_iff_right (Nat.le_of_eq isLast)]
        · exact (or_iff_right fun reaches => absurd reaches.1 (by omega)).symm
      · rw [leftIn_cons, inside, isLower.inside next notEmpty, isClosed,
          and_iff_right (show first.feeds ≤ line by omega)]
        simp [ends]
    · rw [if_pos isLast, Marks.union_none] at same
      subst same
      refine ⟨fun flag isFlag => ?_, fun next notEmpty => ?_⟩
      · rw [marked_cons, or_iff_left fun behind => not_marked_nil _ _ behind.2,
          and_iff_right (Nat.le_of_eq isLast)]
      · rw [leftIn_cons, or_iff_left fun behind => not_leftIn_nil _ _ behind.2,
          and_iff_right (.inr isOpen)]

/-- Fragments without any characters are none. -/
theorem eq_nil_of_textOf {pieces : List Fragment} (isCut : isCut pieces = true)
    (nothing : textOf pieces = []) : pieces = [] := by
  cases pieces with
  | nil => rfl
  | cons first later =>
      rw [Fragment.isCut, Bool.and_eq_true] at isCut
      exact absurd (List.append_eq_nil_iff.mp nothing).1 (text_ne_nil isCut.1)

/-- Nothing stands behind a fragment that is never closed. -/
theorem eq_nil_of_isOpen {first : Fragment} {later : List Fragment} (isCut : isCut later = true)
    (fits : first.fits (textOf later) = true) (isOpen : first.isOpen = true) : later = [] := by
  have nothing {level : Nat} {closed : Bool} {content rest : List Char}
      (fits : isInBrackets level closed content rest = true) (isOpen : (!closed) = true) :
      rest = [] := by
    rw [isInBrackets, if_neg (by simpa using isOpen), Bool.and_eq_true] at fits
    exact List.isEmpty_iff.mp fits.1
  cases first with
  | bracketed level content closed => exact eq_nil_of_textOf isCut (nothing fits isOpen)
  | bracketedComment level content closed => exact eq_nil_of_textOf isCut (nothing fits isOpen)
  | _ => cases isOpen

/-- **Each entry of the table says what is on its line.** -/
theorem isEntry_tableOf {pieces : List Fragment} (isCut : isCut pieces = true) (line : Nat)
    (entry : Marks × OpenText) (isEntry : (tableOf pieces)[line]? = some entry) :
    IsEntry pieces line entry := by
  induction pieces generalizing line entry with
  | nil =>
      rw [tableOf, List.getElem?_singleton] at isEntry
      split at isEntry
      · rename_i isFirst
        obtain rfl := Option.some.inj isEntry
        exact isFirst ▸ isEntry_nil
      · cases isEntry
  | cons first later ih =>
      rw [Fragment.isCut, Bool.and_eq_true] at isCut
      exact isEntry_cons (eq_nil_of_isOpen isCut.2 isCut.1) (ih isCut.2) isEntry

/-! ## What the entries say -/

section Flags

variable {flag : Marks → Bool} {pieces : List Fragment} {line : Nat}

theorem marked_iff_own (onlyOwn : ∀ fragment : Fragment, flag fragment.carried = false) :
    Marked flag pieces line ↔
      ∃ fragment, BeginsOn pieces line fragment ∧ flag fragment.own = true := by
  constructor
  · rintro ⟨fragment, first, begins, above, -, isMarked⟩
    cases isBelow : line - first with
    | zero =>
        obtain rfl : first = line := by omega
        rw [isBelow] at isMarked
        exact ⟨fragment, begins, isMarked⟩
    | succ below =>
        rw [isBelow, marksAt, onlyOwn] at isMarked
        cases isMarked
  · rintro ⟨fragment, begins, isMarked⟩
    refine ⟨fragment, line, begins, Nat.le_refl line, Nat.le_add_right _ _, ?_⟩
    rwa [Nat.sub_self]

theorem marked_iff_carried (onlyCarried : ∀ fragment : Fragment, flag fragment.own = false) :
    Marked flag pieces line ↔
      ∃ fragment, IsCarriedTo pieces line fragment ∧ flag fragment.carried = true := by
  constructor
  · rintro ⟨fragment, first, begins, above, reaches, isMarked⟩
    cases isBelow : line - first with
    | zero =>
        rw [isBelow, marksAt, onlyCarried] at isMarked
        cases isMarked
    | succ below =>
        rw [isBelow] at isMarked
        exact ⟨fragment, ⟨first, begins, by omega, reaches⟩, isMarked⟩
  · rintro ⟨fragment, ⟨first, begins, above, reaches⟩, isMarked⟩
    refine ⟨fragment, first, begins, Nat.le_of_lt above, reaches, ?_⟩
    rwa [marksAt_eq, if_neg (by omega)]

theorem marked_iff_both (both : ∀ fragment : Fragment, flag fragment.carried = flag fragment.own) :
    Marked flag pieces line ↔
      ∃ fragment, LiesOn pieces line fragment ∧ flag fragment.own = true := by
  have same (fragment : Fragment) (below : Nat) :
      flag (fragment.marksAt below) = flag fragment.own := by
    cases below with
    | zero => rfl
    | succ below => exact both fragment
  constructor
  · rintro ⟨fragment, first, begins, above, reaches, isMarked⟩
    exact ⟨fragment, ⟨first, begins, above, reaches⟩, same fragment _ ▸ isMarked⟩
  · rintro ⟨fragment, ⟨first, begins, above, reaches⟩, isMarked⟩
    exact ⟨fragment, first, begins, above, reaches, (same fragment _).trans isMarked⟩

end Flags

section Entries

variable {pieces : List Fragment} {line : Nat}

theorem leftIn_comment_iff {level : Nat} :
    LeftIn (.comment level) pieces line ↔ EndsInComment pieces line level := by
  constructor
  · rintro ⟨fragment, past, isContext⟩
    cases fragment with
    | bracketedComment own content closed =>
        cases isContext
        exact ⟨content, closed, past⟩
    | _ => cases isContext
  · rintro ⟨content, closed, past⟩
    exact ⟨_, past, rfl⟩

theorem leftIn_string_iff {level : Nat} :
    LeftIn (.string level) pieces line ↔ EndsInString pieces line level := by
  constructor
  · rintro ⟨fragment, past, isContext⟩
    cases fragment with
    | bracketed own content closed =>
        cases isContext
        exact ⟨content, closed, past⟩
    | _ => cases isContext
  · rintro ⟨content, closed, past⟩
    exact ⟨_, past, rfl⟩

/-- A context that a line is left in is that of a comment or of a string. -/
theorem LeftIn.cases_of_ne {next : OpenText} (left : LeftIn next pieces line)
    (notEmpty : next ≠ {}) :
    ∃ level, EndsInComment pieces line level ∨ EndsInString pieces line level := by
  obtain ⟨fragment, past, rfl⟩ := left
  cases fragment with
  | bracketedComment level content closed => exact ⟨level, .inl ⟨content, closed, past⟩⟩
  | bracketed level content closed => exact ⟨level, .inr ⟨content, closed, past⟩⟩
  | _ => exact absurd rfl notEmpty

/-- **An entry describes its line.** -/
theorem IsEntry.describes {entry : Marks × OpenText} (isEntry : IsEntry pieces line entry) :
    Describes pieces line entry.1.verdict.1 entry.2 := by
  have code : entry.1.code = true ↔ HasCode pieces line :=
    (isEntry.marks Marks.code ⟨rfl, fun _ _ => rfl⟩).trans (marked_iff_own fun _ => rfl)
  have structural : entry.1.structural = true ↔ HasStructural pieces line :=
    (isEntry.marks Marks.structural ⟨rfl, fun _ _ => rfl⟩).trans (marked_iff_own fun _ => rfl)
  have comment : entry.1.comment = true ↔ HasComment pieces line :=
    (isEntry.marks Marks.comment ⟨rfl, fun _ _ => rfl⟩).trans (marked_iff_both fun _ => rfl)
  have stringContent : entry.1.carriedString = true ↔ HasCarriedString pieces line := by
    rw [isEntry.marks Marks.carriedString ⟨rfl, fun _ _ => rfl⟩, marked_iff_carried fun _ => rfl]
    constructor
    · rintro ⟨fragment, isCarried, isBracketed⟩
      cases fragment with
      | bracketed level content closed => exact ⟨level, content, closed, isCarried⟩
      | _ => cases isBracketed
    · rintro ⟨level, content, closed, isCarried⟩
      exact ⟨_, isCarried, rfl⟩
  have inComment (level : Nat) : entry.2 = .comment level ↔ EndsInComment pieces line level :=
    (isEntry.inside (.comment level) nofun).trans leftIn_comment_iff
  have inString (level : Nat) : entry.2 = .string level ↔ EndsInString pieces line level :=
    (isEntry.inside (.string level) nofun).trans leftIn_string_iff
  refine ⟨?code, ?structural, ?stringContent, ?comment, ?blank, inComment, inString, ?nothingOpen⟩
  case nothingOpen =>
    constructor
    · intro nothing level
      rw [← inComment, ← inString, nothing]
      exact ⟨nofun, nofun⟩
    · intro nowhere
      by_contra notEmpty
      obtain ⟨level, ends⟩ := ((isEntry.inside _ notEmpty).mp rfl).cases_of_ne notEmpty
      exact ends.elim (nowhere level).1 (nowhere level).2
  all_goals
    simp only [← code, ← structural, ← stringContent, ← comment, Marks.verdict]
    cases entry.1.code <;> cases entry.1.structural <;> cases entry.1.carriedString <;>
      cases entry.1.comment <;> simp

end Entries

end Lua.Fragment

end LuaCoverage
