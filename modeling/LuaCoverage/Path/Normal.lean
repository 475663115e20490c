import Std.Data.ExtTreeMap

/-!
# Normal paths

Every file has one key: its absolute path with forward slashes, without empty segments, and with the
segments `.` and `..` folded away. The folding is on the text alone, so a `..` at the top stays at
the top. A relative path is taken from a root directory; a backslash in the path separates segments,
one in the root belongs to a segment.
-/

set_option autoImplicit false

namespace LuaCoverage

/-- Path-indexed data, ordered by path. -/
abbrev PathMap (α : Type) := Std.ExtTreeMap String α

namespace Path

/-- The segments of a path, split at forward slashes. -/
def segments (path : List Char) : List (List Char) :=
  path.splitOn '/'

/-- Adds one segment to segments that are given innermost first. -/
def foldSegment (folded : List (List Char)) (segment : List Char) : List (List Char) :=
  if segment = [] ∨ segment = ['.'] then folded
  else if segment = ['.', '.'] then folded.tail
  else segment :: folded

/-- The segments of a path with the empty ones and the dots folded away. -/
def foldSegments (path : List Char) : List (List Char) :=
  ((segments path).foldl foldSegment []).reverse

/-- The absolute path with given segments. -/
def ofSegments (parts : List (List Char)) : List Char :=
  '/' :: ['/'].intercalate parts

/-- A path with forward slashes only. -/
def forwardSlashes (path : List Char) : List Char :=
  path.map fun char => if char = '\\' then '/' else char

/-- Whether a path starts at the top of the file system. -/
def isAbsolute (path : List Char) : Bool := path.head? == some '/'

/-- A path taken from a root directory, unless it is absolute. -/
def joined (root path : List Char) : List Char :=
  if isAbsolute path then path else root ++ '/' :: path

/-- The characters of the key of a path. -/
def normalChars (root path : List Char) : List Char :=
  ofSegments (foldSegments (joined root (forwardSlashes path)))

/-- The key of a path that is taken from a root directory. -/
def normalize (root path : String) : String :=
  String.ofList (normalChars root.toList path.toList)

end Path

end LuaCoverage
