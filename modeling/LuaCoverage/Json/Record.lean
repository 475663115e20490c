import LuaCoverage.Json.Value

/-!
# Reading typed values from documents

A typed value is read from a document by rules that leave nothing to interpretation. A count is a
number lexeme of digits, below the bound of its kind. A choice is a string naming one of its
alternatives, or an object whose only member has that name and the value null. A record is an object
whose members name its fields, each at most once, or an array that lists the values of its fields in
order; members with other names are skipped unread.

`fields?` does the part that all records share: it lines the values of a document up with a list of
field names. What is left to a record's own reader is to read each value.
-/

set_option autoImplicit false

namespace LuaCoverage.Json.Value

/-- Reads a truth value. -/
def bool? : Value → Option Bool
  | .bool value => some value
  | _ => none

/-- Reads a natural number below a bound. -/
def natBelow? (bound : Nat) : Value → Option Nat
  | .number lexeme => naturalOf? bound lexeme.toList
  | _ => none

/-- Reads a natural number of at most 32 bits. -/
def nat32? (document : Value) : Option Nat := natBelow? 4294967296 document

/-- Reads a natural number of at most 64 bits. -/
def nat64? (document : Value) : Option Nat := natBelow? 18446744073709551616 document

/-- Reads a text. -/
def text? : Value → Option String
  | .string lexeme => decodeText? lexeme
  | _ => none

/-- Reads the items of an array. -/
def list? {α : Type} (item? : Value → Option α) : Value → Option (List α)
  | .array items => items.mapM item?
  | _ => none

/-- Reads something that may be missing: null stands for nothing. -/
def orNull? {α : Type} (item? : Value → Option α) : Value → Option (Option α)
  | .null => some none
  | document => (item? document).map some

/-- Reads a choice between named alternatives. -/
def choice? {α : Type} (named? : String → Option α) : Value → Option α
  | .string lexeme => do named? (← decodeText? lexeme)
  | .object [(name, .null)] => do named? (← decodeText? name)
  | _ => none

/-- Reads the entries of an object whose member names stand for keys. -/
def entries? {κ α : Type} (key? : String → Option κ) (item? : Value → Option α) :
    Value → Option (List (κ × α))
  | .object members => members.mapM fun member => do
      let key ← key? member.1
      let item ← item? member.2
      return (key, item)
  | _ => none

/-- The lexeme of a member name that is a natural number of at most 32 bits. -/
def nat32Key? (name : String) : Option Nat := naturalOf? 4294967296 name.toList

/-! ## Records -/

/-- The value of the only member with a given name, or nothing if there is none; two members of one
name make the record unreadable. -/
def single? (name : String) (members : List (String × Value)) : Option (Option Value) :=
  match members.filter fun member => member.1 == name with
  | [] => some none
  | [member] => some (some member.2)
  | _ => none

/-- The values of a record's fields in the order of the field names. An object names them; an array
lists them, and may stop early only where `mayStop` allows it. -/
def alignedFields? (mayStop : Bool) (names : List String) : Value → Option (List (Option Value))
  | .object members => do
      let named ← members.mapM fun member => (decodeText? member.1).map fun name => (name, member.2)
      names.mapM fun name => single? name named
  | .array items =>
      if items.length = names.length ∨ (mayStop ∧ items.length < names.length) then
        some (names.zipIdx.map fun place => items[place.2]?)
      else none
  | _ => none

/-- The values of a record's fields, every one of which an array has to list. -/
def fields? (names : List String) (document : Value) : Option (List (Option Value)) :=
  alignedFields? false names document

/-- Reads a field that has to be there. -/
def required {α : Type} (item? : Value → Option α) (field : Option Value) : Option α := do
  item? (← field)

/-- Reads a field that may be missing or null. -/
def optional {α : Type} (item? : Value → Option α) : Option Value → Option (Option α)
  | none => some none
  | some document => orNull? item? document

/-- Reads a field that has a value of its own when it is missing. -/
def withDefault {α : Type} (preset : α) (item? : Value → Option α) : Option Value → Option α
  | none => some preset
  | some document => item? document

end LuaCoverage.Json.Value
