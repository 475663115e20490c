/-!
# Texts in long brackets

A long bracket is a pair of square brackets of one kind with equals signs between them, and the
number of these is its level. A text in long brackets runs from an opening bracket to the first
closing one that matches it, whatever stands in between. Levels are counted in eight bits, so two
brackets match if their levels agree up to a multiple of `levelRange`.
-/

set_option autoImplicit false

namespace LuaCoverage.Syntax

/-- A text in long brackets, by the lengths of its opening bracket, its content and its closing
bracket. -/
structure BracketedText where
  opening : Nat
  content : Nat
  closing : Nat
  deriving DecidableEq, Repr

namespace BracketedText

/-- How many levels are told apart. -/
def levelRange : Nat := 256

/-- How many characters a bracketed text takes. -/
def length (text : BracketedText) : Nat := text.opening + text.content + text.closing

/-- How many characters the long bracket takes that starts here and is made of a given square
bracket. -/
def bracketLength? (square : Char) : List Char → Option Nat
  | [] => none
  | first :: rest =>
      let level := (rest.takeWhile (· == '=')).length
      if first == square && (rest.drop level).head? == some square then some (level + 2) else none

/-- Whether brackets of given lengths match. -/
def bracketsMatch (opening closing : Nat) : Bool := opening % levelRange == closing % levelRange

/-- The length of the closing bracket that stands here, if it matches an opening one of a given
length. -/
def matchingLength? (opening : Nat) (chars : List Char) : Option Nat :=
  (bracketLength? ']' chars).filter (bracketsMatch opening)

/-- The text whose opening bracket has a given length, from the characters after that bracket. -/
def ofInside? (opening : Nat) : List Char → Option BracketedText
  | [] => none
  | first :: rest =>
      match matchingLength? opening (first :: rest) with
      | some closing => some ⟨opening, 0, closing⟩
      | none => (ofInside? opening rest).map fun text => { text with content := text.content + 1 }

/-- The bracketed text that starts here. The outer answer is missing if no long bracket opens, the
inner one if it is never closed. -/
def atStart? (chars : List Char) : Option (Option BracketedText) :=
  (bracketLength? '[' chars).map fun opening => ofInside? opening (chars.drop opening)

end BracketedText

end LuaCoverage.Syntax
