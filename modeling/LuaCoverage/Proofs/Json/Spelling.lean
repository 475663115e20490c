import LuaCoverage.Json.Writer
import Mathlib.Data.List.TakeDrop

/-!
# Lexemes that say a text or a number

A text is written by escaping its characters one by one, and a natural number by its digits. Reading
finds the lexeme again wherever it stands (`stringLexeme?_escapeChars`, `numberLexeme?_toDigits`),
and the lexeme says what was written (`decodeText?_escapeText`, `naturalOf?_toDigits`).

There are three ways in which a character is escaped, and every step on escaped characters goes by
these three (`escapeChar_cases`). What may follow a number is anything that could not be part of it
(`Delimited`).
-/

set_option autoImplicit false

namespace LuaCoverage.Json

/-! ## Texts -/

/-- The value of a hexadecimal letter, in the second half of an escape by number. -/
theorem hexQuad?_hexLetter : ∀ code < 0x20,
    hexQuad? '0' '0' (hexLetter (code / 16)) (hexLetter (code % 16)) = some code := by
  decide

/-- A character is escaped by a letter, by its number, or not at all. -/
theorem escapeChar_cases (char : Char) :
    (∃ letter, escapeChar char = ['\\', letter] ∧ shortEscape? letter = some char) ∨
    (∃ high low, escapeChar char = ['\\', 'u', '0', '0', high, low] ∧
      hexQuad? '0' '0' high low = some char.toNat ∧ char.toNat < 0x20) ∨
    (escapeChar char = [char] ∧ char ≠ '"' ∧ char ≠ '\\' ∧ 0x20 ≤ char.toNat) := by
  have short : ∀ (letter : Char) {special : Char}, shortEscape? letter = some special →
      char = special → escapeChar special = ['\\', letter] →
      ∃ letter, escapeChar char = ['\\', letter] ∧ shortEscape? letter = some char := by
    rintro letter special stands rfl escaped
    exact ⟨letter, escaped, stands⟩
  by_cases quote : char = '"'
  · exact .inl (short '"' rfl quote rfl)
  by_cases solidus : char = '\\'
  · exact .inl (short '\\' rfl solidus rfl)
  by_cases backspace : char = '\x08'
  · exact .inl (short 'b' rfl backspace rfl)
  by_cases formFeed : char = '\x0c'
  · exact .inl (short 'f' rfl formFeed rfl)
  by_cases lineFeed : char = '\n'
  · exact .inl (short 'n' rfl lineFeed rfl)
  by_cases carriageReturn : char = '\r'
  · exact .inl (short 'r' rfl carriageReturn rfl)
  by_cases tab : char = '\t'
  · exact .inl (short 't' rfl tab rfl)
  simp only [escapeChar, if_neg quote, if_neg solidus, if_neg backspace, if_neg formFeed,
    if_neg lineFeed, if_neg carriageReturn, if_neg tab]
  by_cases control : char.toNat < 0x20
  · rw [if_pos control]
    exact .inr (.inl ⟨_, _, rfl, hexQuad?_hexLetter _ control, control⟩)
  · rw [if_neg control]
    exact .inr (.inr ⟨rfl, quote, solidus, Nat.le_of_not_lt control⟩)

/-- The letter of a short escape does not announce a number. -/
theorem ne_u_of_shortEscape? {letter char : Char} (stands : shortEscape? letter = some char) :
    letter ≠ 'u' := by
  rintro rfl
  cases stands

/-- An escaped character is part of a string. -/
theorem stringLexeme?_escapeChar (char : Char) (text : List Char) :
    stringLexeme? (escapeChar char ++ text) =
      (stringLexeme? text).map fun found => (escapeChar char ++ found.1, found.2) := by
  rcases escapeChar_cases char with ⟨letter, escaped, stands⟩ | ⟨high, low, escaped, number, -⟩ |
    ⟨escaped, quote, solidus, printable⟩
  · rw [escaped]
    simp [stringLexeme?, stands, ne_u_of_shortEscape? stands, Option.map_eq_bind, Function.comp_def]
  · rw [escaped]
    simp [stringLexeme?, number, Option.map_eq_bind, Function.comp_def]
  · rw [escaped]
    simp [stringLexeme?, solidus, Nat.not_lt_of_le printable, Option.map_eq_bind,
      Function.comp_def]

/-- **Reading finds an escaped text** up to the quotation mark after it. -/
theorem stringLexeme?_escapeChars (chars rest : List Char) :
    stringLexeme? (escapeChars chars ++ '"' :: rest) = some (escapeChars chars, rest) := by
  induction chars with
  | nil => rfl
  | cons char chars ih =>
      have first : escapeChars (char :: chars) = escapeChar char ++ escapeChars chars :=
        List.flatMap_cons
      rw [first, List.append_assoc, stringLexeme?_escapeChar, ih, Option.map_some]

/-- The piece of an escaped character stands for the character. -/
theorem exists_piece (char : Char) : ∃ piece : Piece,
    (∀ text, pieces? (escapeChar char ++ text) =
      (pieces? text).map fun later => piece :: later) ∧
    ∀ later, joinPieces? (piece :: later) =
      (joinPieces? later).map fun chars => char :: chars := by
  have plain : ∀ later, joinPieces? (.char char :: later) =
      (joinPieces? later).map fun chars => char :: chars := fun later => by
    rw [joinPieces?]
    cases joinPieces? later <;> rfl
  rcases escapeChar_cases char with ⟨letter, escaped, stands⟩ |
    ⟨high, low, escaped, number, small⟩ | ⟨escaped, quote, solidus, printable⟩
  · refine ⟨.char char, fun text => ?_, plain⟩
    rw [escaped]
    simp [pieces?, stands, ne_u_of_shortEscape? stands, Option.map_eq_bind, Function.comp_def]
  · have notLeading : isLeadingHalf char.toNat = false := by simp [isLeadingHalf]; omega
    have notTrailing : isTrailingHalf char.toNat = false := by simp [isTrailingHalf]; omega
    refine ⟨.code char.toNat, fun text => ?_, fun later => ?_⟩
    · rw [escaped]
      simp [pieces?, number, Option.map_eq_bind, Function.comp_def]
    · -- what follows matters only to the first half of a pair
      have same : Char.ofNat char.toNat = char := Char.ofNat_toNat char
      rcases later with _ | ⟨_ | trailing, later⟩ <;>
        simp [joinPieces?, notLeading, notTrailing, same, Option.map_eq_bind, Function.comp_def]
  · refine ⟨.char char, fun text => ?_, plain⟩
    rw [escaped]
    simp [pieces?, solidus, Option.map_eq_bind, Function.comp_def]

theorem decodeChars?_escapeChars (chars : List Char) :
    decodeChars? (escapeChars chars) = some chars := by
  suffices pieces : ∃ pieces, pieces? (escapeChars chars) = some pieces ∧
      joinPieces? pieces = some chars by
    obtain ⟨pieces, cut, joined⟩ := pieces
    rw [decodeChars?, cut]
    exact joined
  induction chars with
  | nil => exact ⟨[], rfl, rfl⟩
  | cons char chars ih =>
      obtain ⟨later, cut, joined⟩ := ih
      obtain ⟨piece, cuts, joins⟩ := exists_piece char
      have first : escapeChars (char :: chars) = escapeChar char ++ escapeChars chars :=
        List.flatMap_cons
      exact ⟨piece :: later, by rw [first, cuts, cut, Option.map_some],
        by rw [joins, joined, Option.map_some]⟩

/-- **An escaped text says the text.** -/
@[simp]
theorem decodeText?_escapeText (text : String) : decodeText? (escapeText text) = some text := by
  rw [decodeText?, escapeText, String.toList_ofList, decodeChars?_escapeChars, Option.map_some,
    String.ofList_toList]

/-! ## Numbers -/

/-- The digits of a number start with a zero only if that is all of them. -/
theorem toDigits_cases (number : Nat) : Nat.toDigits 10 number = ['0'] ∨
    ∃ first rest, Nat.toDigits 10 number = first :: rest ∧ first ≠ '0' := by
  induction number using Nat.strongRecOn with
  | _ number ih =>
      by_cases small : number < 10
      · rw [Nat.toDigits_of_lt_base small]
        by_cases zero : number = 0
        · exact .inl (by rw [zero]; rfl)
        · exact .inr ⟨_, [], rfl, by simpa using zero⟩
      · have base : 10 ≤ number := Nat.le_of_not_lt small
        rw [Nat.toDigits_of_base_le (by decide) base]
        rcases ih (number / 10) (by omega) with zero | ⟨first, rest, digits, nonzero⟩
        · have isZero := congrArg (Nat.ofDigitChars 10 · 0) zero
          simp only [Nat.ofDigitChars_ten_toDigits] at isZero
          have : number / 10 = 0 := isZero
          omega
        · exact .inr ⟨first, rest ++ [(number % 10).digitChar], by rw [digits]; rfl, nonzero⟩

theorem isDigit_of_mem_toDigits {number : Nat} {digit : Char}
    (member : digit ∈ Nat.toDigits 10 number) : digit.isDigit = true :=
  Nat.isDigit_of_mem_toDigits (by decide) (by decide) member

/-- **The digits of a number say the number**, if it is below the bound. -/
theorem naturalOf?_toDigits {bound number : Nat} (below : number < bound) :
    naturalOf? bound (Nat.toDigits 10 number) = some number := by
  have value : digitsValue (Nat.toDigits 10 number) = number := by
    have folded : digitsValue (Nat.toDigits 10 number) =
        Nat.ofDigitChars 10 (Nat.toDigits 10 number) 0 := by
      rw [digitsValue, Nat.ofDigitChars_eq_foldl]
      exact congrArg (List.foldl · 0 _) (funext fun _ => funext fun _ => by rw [Nat.mul_comm])
    rw [folded, Nat.ofDigitChars_ten_toDigits]
  have digits : (Nat.toDigits 10 number).all Char.isDigit = true :=
    List.all_eq_true.mpr fun _ => isDigit_of_mem_toDigits
  rcases toDigits_cases number with zero | ⟨first, rest, split, nonzero⟩
  · rw [zero] at value ⊢
    simp [naturalOf?, value, below]
  · rw [split] at value digits ⊢
    simp [naturalOf?, value, digits, nonzero, below]

/-- A text that does not go on with a number that stands before it. -/
def Delimited (text : List Char) : Prop :=
  ∀ char, text.head? = some char →
    char.isDigit = false ∧ char ≠ '.' ∧ char ≠ 'e' ∧ char ≠ 'E'

theorem delimited_nil : Delimited [] := fun _ none => nomatch none

theorem delimited_cons {char : Char} {rest : List Char}
    (ends : (char.isDigit || char == '.' || char == 'e' || char == 'E') = false) :
    Delimited (char :: rest) := by
  rintro first ⟨⟩
  simpa only [Bool.or_eq_false_iff, beq_eq_false_iff_ne, and_assoc] using ends

/-- A run of digits ends where a number ends. -/
theorem span_isDigit {digits rest : List Char} (all : ∀ digit ∈ digits, digit.isDigit = true)
    (delimited : Delimited rest) : (digits ++ rest).span Char.isDigit = (digits, rest) := by
  have ends : rest.takeWhile Char.isDigit = [] ∧ rest.dropWhile Char.isDigit = rest := by
    cases rest with
    | nil => exact ⟨rfl, rfl⟩
    | cons char rest => simp [(delimited char rfl).1]
  rw [List.span_eq_takeWhile_dropWhile, List.takeWhile_append_of_pos all,
    List.dropWhile_append_of_pos all, ends.1, ends.2, List.append_nil]

section Numbers

variable {rest : List Char}

/-- All digits of a number are its integer part. -/
theorem integerPart?_toDigits (number : Nat) (delimited : Delimited rest) :
    integerPart? (Nat.toDigits 10 number ++ rest) = some (Nat.toDigits 10 number, rest) := by
  have digits : ∀ digit ∈ Nat.toDigits 10 number, digit.isDigit = true :=
    fun _ => isDigit_of_mem_toDigits
  have run := span_isDigit digits delimited
  rcases toDigits_cases number with zero | ⟨first, later, split, nonzero⟩
  · rw [zero]
    cases rest with
    | nil => rfl
    | cons char rest => simp [integerPart?, (delimited char rfl).1]
  · rw [split] at run ⊢
    rw [List.cons_append, integerPart?.eq_def]
    split
    · rename_i same
      exact absurd (List.cons.inj same).1 nonzero
    · rw [digitRun?, ← List.cons_append, run]

/-- Where a number ends, no fraction begins. -/
theorem fractionPart?_of_delimited (delimited : Delimited rest) :
    fractionPart? rest = some ([], rest) := by
  cases rest with
  | nil => rfl
  | cons char rest =>
      obtain ⟨-, point, -⟩ := delimited char rfl
      rw [fractionPart?.eq_def]
      split
      · rename_i same
        exact absurd (List.cons.inj same).1 point
      · rfl

/-- Where a number ends, no exponent begins. -/
theorem exponentPart?_of_delimited (delimited : Delimited rest) :
    exponentPart? rest = some ([], rest) := by
  cases rest with
  | nil => rfl
  | cons char rest =>
      obtain ⟨-, -, small, large⟩ := delimited char rfl
      rw [exponentPart?, if_neg (not_or.mpr ⟨small, large⟩)]

/-- **Reading finds the digits of a number** up to where it ends. -/
theorem numberLexeme?_toDigits (number : Nat) (delimited : Delimited rest) :
    numberLexeme? (Nat.toDigits 10 number ++ rest) = some (Nat.toDigits 10 number, rest) := by
  have unsigned : unsignedLexeme? (Nat.toDigits 10 number ++ rest) =
      some (Nat.toDigits 10 number, rest) := by
    rw [unsignedLexeme?, integerPart?_toDigits number delimited]
    simp [fractionPart?_of_delimited delimited, exponentPart?_of_delimited delimited]
  rw [numberLexeme?.eq_def]
  split
  · rename_i minus same
    -- a sign is not a digit
    have head : '-' ∈ Nat.toDigits 10 number := by
      rcases toDigits_cases number with zero | ⟨first, later, split, -⟩
      · rw [zero] at same
        cases (List.cons.inj same).1
      · rw [split] at same ⊢
        exact (List.cons.inj same).1 ▸ List.mem_cons_self
    exact absurd (isDigit_of_mem_toDigits head) (by decide)
  · exact unsigned

end Numbers

end LuaCoverage.Json
