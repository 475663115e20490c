import Mathlib.Data.List.TakeWhile
import LuaCoverage.Json.Value
import LuaCoverage.Proofs.Syntax.LexicalRules

/-!
# Reading short strings

What a string in quotes stands for is a matter of bytes: Lua reads a source byte by byte, and the
value of a string is a sequence of bytes. The reader is stated here by itself, for the versions 5.1
to 5.4 of the language (`readString`). They differ in what may follow a backslash (`escape?`): the
first version lets every character stand for itself that means nothing else, the later ones refuse
these and know escapes for blanks, for hexadecimal numbers and for code points instead.
-/

set_option autoImplicit false

namespace LuaCoverage.Lua

/-- A version of the language. -/
inductive Version where
  | lua51
  | lua52
  | lua53
  | lua54
  deriving DecidableEq, Repr

/-- The letters that name a control character behind a backslash, each with its byte. -/
def namedEscapes : List (Char × UInt8) :=
  [('a', 7), ('b', 8), ('f', 12), ('n', 10), ('r', 13), ('t', 9), ('v', 11)]

/-- The number that some digits write. -/
def decimalValue (digits : List UInt8) : Nat :=
  digits.foldl (fun value digit => 10 * value + (digit.toNat - '0'.toNat)) 0

/-- The number that some hexadecimal digits write. -/
def hexadecimalValue (digits : List UInt8) : Nat :=
  digits.foldl (fun value digit => 16 * value + (Json.hexValue? (Char.ofUInt8 digit)).getD 0) 0

/-- The bytes of a code point, of up to 31 bits. -/
def codeBytes (code : Nat) : List UInt8 :=
  let spread (lead continued : Nat) :=
    UInt8.ofNat (lead + (code >>> (6 * continued))) ::
      (List.range continued).reverse.map fun place =>
        UInt8.ofNat (0x80 + (code >>> (6 * place)) % 64)
  if code < 0x80 then spread 0 0
  else if code < 0x800 then spread 0xc0 1
  else if code < 0x10000 then spread 0xe0 2
  else if code < 0x200000 then spread 0xf0 3
  else if code < 0x4000000 then spread 0xf8 4
  else spread 0xfc 5

/-- The greatest code point that an escape may name. -/
def Version.codeLimit : Version → Option Nat
  | lua51 => none
  | lua52 => none
  | lua53 => some 0x10ffff
  | lua54 => some 0x7fffffff

def isDigit (byte : UInt8) : Bool := (Char.ofUInt8 byte).isDigit

def isHexDigit (byte : UInt8) : Bool := (Char.ofUInt8 byte).isHexDigit

/-- What the bytes behind a backslash stand for, and how many of them belong to the escape. -/
def escape? (version : Version) : List UInt8 → Option (List UInt8 × Nat)
  | [] => none
  | byte :: rest =>
      let char := Char.ofUInt8 byte
      if let some named := namedEscapes.lookup char then some ([named], 1)
      else if isLineEnd char then
        -- the two line ends may come together, in either order
        let isPair := rest.head?.any fun next => isLineEnd (Char.ofUInt8 next) && next != byte
        some ([10], if isPair then 2 else 1)
      else if char.isDigit then
        let digits := ((byte :: rest).take 3).takeWhile isDigit
        if decimalValue digits ≤ 255 then
          some ([UInt8.ofNat (decimalValue digits)], digits.length)
        else none
      else if version = .lua51 ∨ ['\\', '"', '\''].contains char then some ([byte], 1)
      else
        match char with
        | 'z' => some ([], 1 + (rest.takeWhile fun next => isBlank (Char.ofUInt8 next)).length)
        | 'x' =>
            let digits := (rest.take 2).takeWhile isHexDigit
            if digits.length = 2 then some ([UInt8.ofNat (hexadecimalValue digits)], 3) else none
        | 'u' => do
            let limit ← version.codeLimit
            let inside ← if rest.head? = some '\x7b'.toUInt8 then some rest.tail else none
            let digits := inside.takeWhile isHexDigit
            let isClosed := inside[digits.length]? = some '\x7d'.toUInt8
            if digits ≠ [] ∧ isClosed ∧ hexadecimalValue digits ≤ limit then
              some (codeBytes (hexadecimalValue digits), digits.length + 3)
            else none
        | _ => none

/-- Reads the content of a string up to its closing quote, after passing over some bytes that belong
to the escape before them. Gives the value of the content and what follows the quote. -/
def readContent (version : Version) (quote : UInt8) :
    Nat → List UInt8 → Option (List UInt8 × List UInt8)
  | _, [] => none
  | passed + 1, _ :: rest => readContent version quote passed rest
  | 0, byte :: rest =>
      if byte = quote then some ([], rest)
      else if isLineEnd (Char.ofUInt8 byte) then none
      else if byte = '\\'.toUInt8 then do
        let (value, width) ← escape? version rest
        let (content, after) ← readContent version quote width rest
        return (value ++ content, after)
      else do
        let (content, after) ← readContent version quote 0 rest
        return (byte :: content, after)

/-- Reads a string in quotes. Gives its value and what follows it. -/
def readString (version : Version) : List UInt8 → Option (List UInt8 × List UInt8)
  | [] => none
  | quote :: rest =>
      if ['"', '\''].contains (Char.ofUInt8 quote) then readContent version quote 0 rest else none

/-! ## What stretches of a content stand for -/

section Content

variable {version : Version} {quote : UInt8}

theorem readContent_passed (passed rest : List UInt8) :
    readContent version quote passed.length (passed ++ rest) =
      readContent version quote 0 rest := by
  induction passed with
  | nil => rfl
  | cons byte passed ih => exact ih

/-- Whether a stretch of a content stands for some bytes, whatever follows it. -/
def StandsFor (version : Version) (quote : UInt8) (spelled value : List UInt8) : Prop :=
  ∀ rest, readContent version quote 0 (spelled ++ rest) =
    (readContent version quote 0 rest).map fun read => (value ++ read.1, read.2)

theorem StandsFor.nil : StandsFor version quote [] [] := fun _ => Option.map_id'.symm

theorem StandsFor.append {spelled spelled' value value' : List UInt8}
    (first : StandsFor version quote spelled value)
    (later : StandsFor version quote spelled' value') :
    StandsFor version quote (spelled ++ spelled') (value ++ value') := by
  intro rest
  rw [List.append_assoc, first, later, Option.map_map]
  simp only [Function.comp_def, List.append_assoc]

/-- What stands for items one by one stands for all of them. -/
theorem StandsFor.flatMap {α : Type} {spell value : α → List UInt8} {items : List α}
    (each : ∀ item ∈ items, StandsFor version quote (spell item) (value item)) :
    StandsFor version quote (items.flatMap spell) (items.flatMap value) := by
  induction items with
  | nil => exact .nil
  | cons item items ih =>
      exact (each item List.mem_cons_self).append
        (ih fun other member => each other (List.mem_cons_of_mem _ member))

/-- A byte that means nothing in a content. -/
def IsOrdinary (quote byte : UInt8) : Prop :=
  byte ≠ quote ∧ isLineEnd (Char.ofUInt8 byte) = false ∧ byte ≠ '\\'.toUInt8

/-- Bytes that mean nothing in a content stand for themselves. -/
theorem standsFor_ordinary {bytes : List UInt8} (ordinary : ∀ byte ∈ bytes, IsOrdinary quote byte) :
    StandsFor version quote bytes bytes := by
  have each : ∀ byte ∈ bytes, StandsFor version quote [byte] [byte] := by
    intro byte member rest
    obtain ⟨notQuote, noEnd, noEscape⟩ := ordinary byte member
    rw [List.singleton_append, readContent, if_neg notQuote, noEnd, if_neg Bool.false_ne_true,
      if_neg noEscape]
    cases readContent version quote 0 rest <;> rfl
  simpa only [List.flatMap_singleton'] using StandsFor.flatMap each

/-- An escape stands for what it says. -/
theorem standsFor_escape (spelled : List UInt8) {value : List UInt8}
    (notQuote : '\\'.toUInt8 ≠ quote)
    (spells : ∀ rest, escape? version (spelled ++ rest) = some (value, spelled.length)) :
    StandsFor version quote ('\\'.toUInt8 :: spelled) value := by
  intro rest
  rw [List.cons_append, readContent, if_neg notQuote, if_neg (by decide), if_pos rfl, spells]
  simp only [Option.bind_eq_bind, Option.bind_some, readContent_passed]
  cases readContent version quote 0 rest <;> rfl

/-- The whole of a string in quotes is read, and nothing behind it. -/
theorem readString_of_standsFor (isQuote : ['"', '\''].contains (Char.ofUInt8 quote) = true)
    {spelled value : List UInt8} (stands : StandsFor version quote spelled value)
    (rest : List UInt8) :
    readString version (quote :: (spelled ++ quote :: rest)) = some (value, rest) := by
  rw [readString, if_pos isQuote, stands, readContent, if_pos rfl, Option.map_some,
    List.append_nil]

end Content

/-- Three digits stand for the byte with their number, even if a digit follows. -/
theorem escape?_digits (version : Version) {digits : List UInt8} (three : digits.length = 3)
    (areDigits : ∀ digit ∈ digits, isDigit digit = true) (bound : decimalValue digits ≤ 255)
    (rest : List UInt8) :
    escape? version (digits ++ rest) =
      some ([UInt8.ofNat (decimalValue digits)], digits.length) := by
  have all : digits.takeWhile isDigit = digits := List.takeWhile_eq_self_iff.mpr areDigits
  obtain ⟨first, second, third, rfl⟩ := List.length_eq_three.mp three
  have isDecimal : (Char.ofUInt8 first).isDigit = true :=
    areDigits first List.mem_cons_self
  have unnamed : namedEscapes.lookup (Char.ofUInt8 first) = none := by
    refine List.lookup_eq_none_iff.mpr fun entry member => ?_
    have noDigit : ∀ entry ∈ namedEscapes, entry.1.isDigit = false := by decide
    rw [bne_iff_ne]
    intro same
    rw [same, noDigit entry member] at isDecimal
    cases isDecimal
  have noEnd : isLineEnd (Char.ofUInt8 first) = false := by
    rw [isLineEnd, Bool.or_eq_false_iff, beq_eq_false_iff_ne, beq_eq_false_iff_ne]
    constructor
    all_goals
      intro same
      rw [same] at isDecimal
      revert isDecimal
      decide
  have taken : (first :: (second :: third :: [] ++ rest)).take 3 = [first, second, third] := rfl
  rw [List.cons_append, escape?]
  simp only [unnamed, noEnd, isDecimal, taken, all, if_pos bound]
  rfl

end LuaCoverage.Lua
