import LuaCoverage.Json.Reader

/-!
# Writing JSON documents

A document is written by its lexemes, with blanks between its parts as a *layout* has them. The
compact layout has none. The indented layout begins a line with every part of an array or an object,
and with the bracket that closes it, two blanks deeper than the line of the bracket that opens it;
an array or an object without parts stays on its line. Whatever the layout, only blanks are added,
so a reader that skips them finds the same document.
-/

set_option autoImplicit false

namespace LuaCoverage.Json

/-- The blanks that are written between the parts of a document. -/
structure Layout where
  /-- What stands before each part of an array or an object, by its depth, and before its end. -/
  gap : Nat → List Char
  /-- What stands after the colon of a member. -/
  afterColon : List Char
  gapBlank : ∀ depth, (gap depth).all isBlank
  afterColonBlank : afterColon.all isBlank

/-- The layout without any blanks. -/
def Layout.compact : Layout where
  gap _ := []
  afterColon := []
  gapBlank _ := rfl
  afterColonBlank := rfl

/-- The layout with a line for every part. -/
def Layout.indented : Layout where
  gap depth := '\n' :: List.replicate (2 * depth) ' '
  afterColon := [' ']
  gapBlank depth := by
    rw [List.all_cons, List.all_replicate, show isBlank '\n' = true from rfl,
      show isBlank ' ' = true from rfl]
    split <;> rfl
  afterColonBlank := rfl

/-- What stands before the bracket that closes an array or an object. -/
def Layout.closing (layout : Layout) (depth : Nat) (isEmpty : Bool) : List Char :=
  if isEmpty then [] else layout.gap depth

mutual

/-- The characters of a document at a given depth. -/
def writtenIn (layout : Layout) : Nat → Value → List Char
  | _, .null => "null".toList
  | _, .bool true => "true".toList
  | _, .bool false => "false".toList
  | _, .number lexeme => lexeme.toList
  | _, .string lexeme => '"' :: lexeme.toList ++ ['"']
  | depth, .array items =>
      '[' :: writtenItems layout (depth + 1) items ++ layout.closing depth items.isEmpty ++ [']']
  | depth, .object members =>
      '\x7b' :: writtenMembers layout (depth + 1) members
        ++ layout.closing depth members.isEmpty ++ ['\x7d']

/-- The characters of the items of an array. -/
def writtenItems (layout : Layout) : Nat → List Value → List Char
  | _, [] => []
  | depth, [item] => layout.gap depth ++ writtenIn layout depth item
  | depth, item :: next :: rest =>
      layout.gap depth ++ writtenIn layout depth item
        ++ ',' :: writtenItems layout depth (next :: rest)

/-- The characters of the members of an object. -/
def writtenMembers (layout : Layout) : Nat → List (String × Value) → List Char
  | _, [] => []
  | depth, [(name, value)] =>
      layout.gap depth ++ '"' :: name.toList ++ '"' :: ':' :: layout.afterColon
        ++ writtenIn layout depth value
  | depth, (name, value) :: next :: rest =>
      layout.gap depth ++ '"' :: name.toList ++ '"' :: ':' :: layout.afterColon
        ++ writtenIn layout depth value ++ ',' :: writtenMembers layout depth (next :: rest)

end

/-- The text of a document in a given layout. -/
def Value.renderIn (layout : Layout) (document : Value) : String :=
  String.ofList (writtenIn layout 0 document)

/-- The text of a document without any blanks. -/
def Value.render (document : Value) : String := document.renderIn .compact

end LuaCoverage.Json
