import Mathlib.Data.List.Infix
import LuaCoverage.Proofs.Syntax.Tiling

/-!
# The lexical rules of Lua

Which characters of a Lua source belong together is settled before any grammar comes in. The rules
for it are stated here by themselves, with no regard to how sources are read: a source is cut into
*pieces*, and a piece is a blank or a token. `Token.fits` says that a token is well formed and that
the characters behind it neither belong to it nor make it the beginning of something else, and
`isCut` says that every token among some pieces fits, so that the rules cut the text of the pieces
at just these places. A byte order mark is no piece.

A syntax tree follows the rules (`Tokenizes`) if its leaves are the tokens of its source, each at
its place and of the kind that the rules give it.
-/

set_option autoImplicit false

namespace LuaCoverage.Lua

open Syntax

/-! ## Characters and words -/

/-- The characters that may stand between tokens. -/
def isBlank (char : Char) : Bool := [' ', '\t', '\n', '\x0b', '\x0c', '\r'].contains char

/-- The characters that end a line. -/
def isLineEnd (char : Char) : Bool := char == '\n' || char == '\r'

/-- The characters that may start a word. -/
def isLetter (char : Char) : Bool := char.isAlpha || char == '_'

/-- The characters that may continue a word. -/
def continuesWord (char : Char) : Bool := isLetter char || char.isDigit

/-- The words that are no names. -/
def reservedWords : List String :=
  ["and", "break", "do", "else", "elseif", "end", "false", "for", "function", "if", "in", "local",
   "nil", "not", "or", "repeat", "return", "then", "true", "until", "while"]

/-- The words that may be keywords. One of them is a name in some versions of the language. -/
def keywords : List String := "goto" :: reservedWords

/-- The words for constants. -/
def constants : List String := ["nil", "true", "false"]

/-- The operators and punctuation marks. -/
def symbols : List String :=
  ["+", "-", "*", "/", "%", "^", "#", "&", "~", "|", "<<", ">>", "//", "==", "~=", "<=", ">=", "<",
   ">", "=", "(", ")", "\x7b", "\x7d", "[", "]", "::", ";", ":", ",", ".", "..", "..."]

/-- What begins with a symbol and is none: a comment, and the beginnings of long brackets. -/
def otherBeginnings : List String := ["--", "[[", "[="]

/-! ## Numerals -/

/-- Whether some characters are digits with at most one point among them. -/
def isMantissa (isDigit : Char → Bool) (chars : List Char) : Bool :=
  chars.all (fun char => isDigit char || char == '.') && chars.count '.' ≤ 1 && chars.any isDigit

/-- Some characters without a sign at their beginning. -/
def withoutSign : List Char → List Char
  | '+' :: rest => rest
  | '-' :: rest => rest
  | chars => chars

/-- Whether some characters are an exponent with one of some marks, or none at all. -/
def isExponent (marks : List Char) : List Char → Bool
  | [] => true
  | mark :: rest =>
      marks.contains mark && (withoutSign rest).all Char.isDigit && !(withoutSign rest).isEmpty

/-- Whether three stretches are the prefix, the mantissa and the exponent of a numeral. -/
def isNumeral (radix mantissa exponent : List Char) : Bool :=
  if radix.isEmpty then isMantissa Char.isDigit mantissa && isExponent ['e', 'E'] exponent
  else [['0', 'x'], ['0', 'X']].contains radix && isMantissa Char.isHexDigit mantissa
    && isExponent ['p', 'P'] exponent

/-! ## Strings and comments -/

/-- Whether some characters may stand between two quotes of one kind. A backslash takes away the
meaning of the character after it, a line end among others, and after `\z` blanks of any kind are
passed over. -/
def isQuotable (quote : Char) : Bool → List Char → Bool
  | _, [] => true
  | _, '\\' :: '\r' :: '\n' :: rest => isQuotable quote false rest
  | _, '\\' :: escaped :: rest => isQuotable quote (escaped == 'z') rest
  | passing, char :: rest =>
      char != quote && char != '\\' && (!isLineEnd char || passing)
        && isQuotable quote (passing && isBlank char) rest

/-- The long bracket of a level that is made of a given square bracket. -/
def bracket (square : Char) (level : Nat) : List Char :=
  square :: (List.replicate level '=' ++ [square])

/-- Whether some characters begin with an opening long bracket. -/
def opensBracket : List Char → Bool
  | '[' :: rest => (rest.dropWhile (· == '=')).head? == some '['
  | _ => false

/-- Whether some characters, followed by the closing bracket of a level, run just up to that
bracket: there is no such bracket before it. -/
def isBracketable (level : Nat) (content : List Char) : Bool :=
  !decide (bracket ']' level <:+: content ++ (bracket ']' level).dropLast)

theorem isBracketable_iff {level : Nat} {content : List Char} :
    isBracketable level content = true ↔
      ¬ bracket ']' level <:+: content ++ (bracket ']' level).dropLast := by
  simp [isBracketable]

/-! ## Tokens -/

/-- A token. -/
inductive Token where
  | word (text : String)
  | numeral (radix mantissa exponent : List Char)
  | symbol (text : String)
  /-- A string in quotes, without these. -/
  | quoted (quote : Char) (content : List Char)
  /-- A string in long brackets, without these. -/
  | bracketed (level : Nat) (content : List Char)
  /-- A comment up to the end of its line, without the hyphens. -/
  | lineComment (content : List Char)
  /-- A comment in long brackets, without the hyphens and these. -/
  | bracketedComment (level : Nat) (content : List Char)
  /-- The first line of a source if it is for the operating system, without its number sign. -/
  | firstLine (content : List Char)
  deriving DecidableEq, Repr

namespace Token

/-- The characters of a token. -/
def text : Token → List Char
  | word text => text.toList
  | numeral radix mantissa exponent => radix ++ (mantissa ++ exponent)
  | symbol text => text.toList
  | quoted quote content => quote :: (content ++ [quote])
  | bracketed level content => bracket '[' level ++ (content ++ bracket ']' level)
  | lineComment content => '-' :: '-' :: content
  | bracketedComment level content =>
      '-' :: '-' :: (bracket '[' level ++ (content ++ bracket ']' level))
  | firstLine content => '#' :: content

/-- Whether the rules make a token of its characters where given characters follow. What may stand
only at the beginning of a source fits nowhere. -/
def fits (token : Token) (rest : List Char) : Bool :=
  match token with
  | word text =>
      text.toList.head?.any isLetter && text.toList.all continuesWord
        && !rest.head?.any continuesWord
  | numeral radix mantissa exponent =>
      isNumeral radix mantissa exponent
        && !rest.head?.any fun char => continuesWord char || char == '.'
  | symbol text =>
      symbols.contains text
        && (symbols ++ otherBeginnings).all (fun longer =>
          longer.length ≤ text.length || !longer.toList.isPrefixOf (text.toList ++ rest))
        && !(text == "." && rest.head?.any Char.isDigit)
  | quoted quote content => ['"', '\''].contains quote && isQuotable quote false content
  | bracketed level content => isBracketable level content
  | lineComment content =>
      content.all (!isLineEnd ·) && rest.head?.all isLineEnd && !opensBracket content
  | bracketedComment level content => isBracketable level content
  | firstLine _ => false

/-- Whether a token is what a leaf of a given kind stands for. -/
def isLeaf : Token → Leaf → Bool
  | word text, .symbol keyword => text == keyword && keywords.contains text
  | word text, .name => !reservedWords.contains text
  | word text, .constant => constants.contains text
  | word text, .breakStatement => text == "break"
  | numeral _ _ _, .number => true
  | symbol text, .symbol own => text == own
  | symbol text, .varargs => text == "..."
  | quoted _ _, .string _ => true
  | bracketed _ _, .string _ => true
  | lineComment _, .comment => true
  | bracketedComment _ _, .comment => true
  | firstLine _, .shebang => true
  | _, _ => false

end Token

/-! ## Sources -/

/-- A piece of a source. -/
inductive Piece where
  | blank (char : Char)
  | token (token : Token)
  deriving DecidableEq, Repr

/-- The characters of a piece. -/
def Piece.text : Piece → List Char
  | blank char => [char]
  | token own => own.text

/-- The characters of some pieces. -/
def textOf (pieces : List Piece) : List Char := pieces.flatMap Piece.text

@[simp]
theorem textOf_nil : textOf [] = [] := rfl

@[simp]
theorem textOf_blank (char : Char) (later : List Piece) :
    textOf (.blank char :: later) = char :: textOf later := rfl

@[simp]
theorem textOf_token (token : Token) (later : List Piece) :
    textOf (.token token :: later) = token.text ++ textOf later := rfl

/-- Whether the rules cut the text of some pieces into these. -/
def isCut : List Piece → Bool
  | [] => true
  | .blank char :: later => isBlank char && isCut later
  | .token token :: later => token.fits (textOf later) && isCut later

/-- Whether the rules cut a whole source into some pieces: a source that begins with a number sign
begins with a line that is not part of the program. -/
def isSourceCut : List Piece → Bool
  | [.token (.firstLine content)] => content.all (· != '\n')
  | .token (.firstLine content) :: .blank '\n' :: later => content.all (· != '\n') && isCut later
  | pieces => (textOf pieces).head? != some '#' && isCut pieces

/-- A source begins with a line for the operating system or is cut by the rules as a whole. -/
theorem cases_of_isSourceCut {pieces : List Piece} (isSource : isSourceCut pieces = true) :
    (∃ content later, pieces = .token (.firstLine content) :: later ∧ '\n' ∉ content ∧
        isCut later = true ∧ (later = [] ∨ ∃ more, later = .blank '\n' :: more)) ∨
      ((textOf pieces).head? ≠ some '#' ∧ isCut pieces = true) := by
  have noFeed : ∀ {content : List Char}, content.all (· != '\n') = true → '\n' ∉ content :=
    fun all member => absurd (List.all_eq_true.mp all _ member) (by decide)
  unfold isSourceCut at isSource
  split at isSource
  · exact .inl ⟨_, [], rfl, noFeed isSource, rfl, .inl rfl⟩
  · rename_i content more
    rw [Bool.and_eq_true] at isSource
    exact .inl ⟨content, _, rfl, noFeed isSource.1, isSource.2, .inr ⟨more, rfl⟩⟩
  · rw [Bool.and_eq_true, bne_iff_ne] at isSource
    exact .inr isSource

/-- The tokens among some pieces, with the stretches they take up from a position on. -/
def tokensFrom : Position → List Piece → List (Token × Span)
  | _, [] => []
  | position, .blank char :: later => tokensFrom (position.next char) later
  | position, .token token :: later =>
      (token, ⟨position, position.advance token.text⟩)
        :: tokensFrom (position.advance token.text) later

/-- Whether leaves are tokens, each at its place and of the kind that the rules give it. -/
abbrev AreLeaves (leaves : List (Leaf × Span)) (tokens : List (Token × Span)) : Prop :=
  List.Forall₂ (fun leaf token => leaf.2 = token.2 ∧ token.1.isLeaf leaf.1 = true) leaves tokens

/-- **A tree follows the lexical rules**: its leaves are the tokens into which the rules cut its
source. -/
structure Tokenizes (source : String) (pieces : List Piece) (tree : Node) : Prop where
  isText : source.toList = textOf pieces
  isCut : isSourceCut pieces = true
  areLeaves : AreLeaves tree.leaves (tokensFrom Position.start pieces)

/-- Whether a source keeps to one form of line ends and blanks: no string in quotes runs past the
end of its line, a carriage return stands only before a line feed, and no blank between tokens is a
vertical tab. -/
structure IsPlain (pieces : List Piece) : Prop where
  quoted : ∀ quote content, .token (.quoted quote content) ∈ pieces → '\n' ∉ content
  returns : ∀ rest ∈ (textOf pieces).tails, rest.head? = some '\r' → rest.tail.head? = some '\n'
  blanks : .blank '\x0b' ∉ pieces

end LuaCoverage.Lua
