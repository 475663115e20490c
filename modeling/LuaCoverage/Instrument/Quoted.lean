/-!
# Quoted names

Injected calls carry the name of their file as a string literal in double quotes. Quotation mark and
backslash take a backslash, line ends are written as the escapes `\n` and `\r`, and every other
control character of ASCII is written by its number in three digits; all else stands as it is. The
literal therefore never contains a line end, and a digit after a number cannot be taken for part of
it.
-/

set_option autoImplicit false

namespace LuaCoverage.Instrument

/-- A decimal digit. -/
def decimalDigit (value : Nat) : Char := Char.ofNat ('0'.toNat + value % 10)

/-- How one character of a name is written inside the literal. -/
def quoteChar (char : Char) : List Char :=
  if char = '\\' then ['\\', '\\']
  else if char = '"' then ['\\', '"']
  else if char = '\n' then ['\\', 'n']
  else if char = '\r' then ['\\', 'r']
  else if char.toNat < 0x20 ∨ char.toNat = 0x7f then
    ['\\', decimalDigit (char.toNat / 100), decimalDigit (char.toNat / 10), decimalDigit char.toNat]
  else [char]

/-- The literal of a name. -/
def quoteChars (name : List Char) : List Char := '"' :: name.flatMap quoteChar ++ ['"']

/-- The literal of a name, as a text. -/
def quote (name : String) : String := String.ofList (quoteChars name.toList)

end LuaCoverage.Instrument
