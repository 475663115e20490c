/-!
# Path patterns

A pattern is matched against the UTF-8 bytes of a whole path. A question mark stands for one byte
and a star for any number of bytes, neither of them a slash; a class in brackets stands for one byte
out of a set; alternatives in braces may nest. Two stars that fill a whole segment stand for any
number of segments.

`Pattern.parse` reads a pattern into tokens and `Pattern.matchesPath` interprets them. A token is
interpreted as a function of what has to match the rest of the path, which keeps the recursion
structural in the tokens. One restriction comes on top: a last segment of two dots is not the name
of a file and has no extension, whatever its characters are.
-/

set_option autoImplicit false

namespace LuaCoverage.Path

/-- What is wrong with a pattern. -/
inductive PatternError where
  | unclosedClass
  | invalidRange (low high : Char)
  | unopenedGroup
  | unclosedGroup
  | danglingEscape
  deriving DecidableEq, Repr

/-- The description of what is wrong with a pattern. -/
def PatternError.description : PatternError → String
  | .unclosedClass => "unclosed character class; missing ']'"
  | .invalidRange low high =>
      "invalid range; '" ++ String.singleton low ++ "' > '" ++ String.singleton high ++ "'"
  | .unopenedGroup =>
      "unopened alternate group; missing '\x7b' (maybe escape '\x7d' with '[\x7d]'?)"
  | .unclosedGroup =>
      "unclosed alternate group; missing '\x7d' (maybe escape '\x7b' with '[\x7b]'?)"
  | .danglingEscape => "dangling '\\'"

/-- A token of a pattern. -/
inductive Token where
  | literal (char : Char)
  | anyByte
  /-- Any number of bytes within a segment. -/
  | anyBytes
  /-- Any number of leading segments, with the slash after them. -/
  | leadingSegments
  /-- A slash and anything after it. -/
  | trailingSegments
  /-- A slash, or any number of segments between two slashes. -/
  | innerSegments
  /-- One byte out of the bytes of some characters and ranges, or not out of them. -/
  | byteClass (negated : Bool) (ranges : List (Char × Char))
  | group (branches : List (List Token))

/-- A pattern that was read. -/
abbrev Pattern := List Token

namespace Pattern

/-! ## Reading -/

/-- A class that is being read. -/
structure ClassDraft where
  /-- The characters and ranges so far, the last one first. -/
  ranges : List (Char × Char) := []
  /-- Whether a hyphen after the last character waits for the other end of a range. -/
  inRange : Bool := false

/-- A class with one more character, which may be the other end of a range. -/
def ClassDraft.add (draft : ClassDraft) (char : Char) : Except PatternError ClassDraft :=
  match draft.inRange, draft.ranges with
  | true, (low, _) :: earlier =>
      if char < low then .error (.invalidRange low char)
      else .ok ⟨(low, char) :: earlier, false⟩
  | _, ranges => .ok ⟨(char, char) :: ranges, false⟩

/-- The characters and ranges of a finished class. A hyphen that waits stands for itself. -/
def ClassDraft.finish (draft : ClassDraft) : List (Char × Char) :=
  (if draft.inRange then ('-', '-') :: draft.ranges else draft.ranges).reverse

/-- Reads a class up to its closing bracket, and counts the characters it takes. A bracket or a
hyphen in the first place stands for itself. -/
def readClass : List Char → Bool → ClassDraft → Nat → Except PatternError (List (Char × Char) × Nat)
  | [], _, _, _ => .error .unclosedClass
  | char :: rest, isFirst, draft, count =>
      if char = ']' ∧ !isFirst then .ok (draft.finish, count + 1)
      else if char = '-' ∧ !isFirst ∧ !draft.inRange then
        readClass rest false { draft with inRange := true } (count + 1)
      else
        match draft.add char with
        | .error problem => .error problem
        | .ok next => readClass rest false next (count + 1)

/-- A group that is being read, together with the tokens before it. -/
structure OpenGroup where
  /-- The finished branches of the group, the last one first. -/
  branches : List (List Token)
  /-- The tokens before the group, the last one first. -/
  before : List Token

/-- A pattern that is being read. -/
structure Draft where
  /-- The tokens of the current branch, the last one first. -/
  current : List Token := []
  /-- The groups around the current branch, the innermost first. -/
  groups : List OpenGroup := []

/-- A draft with one more token. -/
def Draft.push (draft : Draft) (token : Token) : Draft :=
  { draft with current := token :: draft.current }

/-- A draft with the last token of the current branch replaced, unless it already stands for
segments at the same end. -/
def Draft.replaceLast (draft : Draft) (token : Token) : Draft :=
  match draft.current with
  | .leadingSegments :: _ => draft
  | .trailingSegments :: _ => draft
  | _ :: earlier => { draft with current := token :: earlier }
  | [] => draft.push token

/-- Two stars within a segment, which say no more than one. -/
def Draft.pushStars (draft : Draft) : Draft := (draft.push .anyBytes).push .anyBytes

/-- A draft after two stars, and how many of the characters after the stars belong to them. What
they stand for depends on the character before and the characters after them. -/
def Draft.pushTwoStars (draft : Draft) (previous : Option Char) (rest : List Char) : Draft × Nat :=
  let next := rest.head?
  let inGroup := !draft.groups.isEmpty
  if draft.current.isEmpty then
    if next = none then (draft.push .leadingSegments, 0)
    else if next = some '/' then (draft.push .leadingSegments, 1)
    else (draft.pushStars, 0)
  else
    let opensSegment := previous = some '/'
      || (inGroup && (previous = some ',' || previous = some '\x7b'))
    if !opensSegment then (draft.pushStars, 0)
    else if next = none || (inGroup && (next = some ',' || next = some '\x7d')) then
      (draft.replaceLast .trailingSegments, 0)
    else if next = some '/' then (draft.replaceLast .innerSegments, 1)
    else (draft.pushStars, 0)

/-- A draft after an opening brace. -/
def Draft.openGroup (draft : Draft) : Draft :=
  ⟨[], ⟨[], draft.current⟩ :: draft.groups⟩

/-- A draft after a comma, which separates branches inside a group only. -/
def Draft.nextBranch (draft : Draft) : Draft :=
  match draft.groups with
  | [] => draft.push (.literal ',')
  | innermost :: outer =>
      ⟨[], { innermost with branches := draft.current.reverse :: innermost.branches } :: outer⟩

/-- A draft after a closing brace. -/
def Draft.closeGroup (draft : Draft) : Except PatternError Draft :=
  match draft.groups with
  | [] => .error .unopenedGroup
  | innermost :: outer =>
      let branches := (draft.current.reverse :: innermost.branches).reverse
      .ok ⟨.group branches :: innermost.before, outer⟩

/-- Reads the characters of a pattern. The number says how many of them are already accounted for,
the optional character is the one before. -/
def readChars : List Char → Nat → Option Char → Draft → Except PatternError Draft
  | [], _, _, draft => .ok draft
  | char :: rest, taken + 1, _, draft => readChars rest taken (some char) draft
  | char :: rest, 0, previous, draft =>
      match char with
      | '?' => readChars rest 0 (some char) (draft.push .anyByte)
      | '*' =>
          if rest.head? = some '*' then
            let (next, extra) := draft.pushTwoStars previous (rest.drop 1)
            readChars rest (1 + extra) (some char) next
          else readChars rest 0 (some char) (draft.push .anyBytes)
      | '[' =>
          let negated := rest.head? = some '!' ∨ rest.head? = some '^'
          let skipped := if negated then 1 else 0
          match readClass (rest.drop skipped) true {} 0 with
          | .error problem => .error problem
          | .ok (ranges, count) =>
              readChars rest (skipped + count) (some char) (draft.push (.byteClass negated ranges))
      | '\x7b' => readChars rest 0 (some char) draft.openGroup
      | '\x7d' =>
          match draft.closeGroup with
          | .error problem => .error problem
          | .ok next => readChars rest 0 (some char) next
      | ',' => readChars rest 0 (some char) draft.nextBranch
      | '\\' =>
          match rest.head? with
          | none => .error .danglingEscape
          | some escaped => readChars rest 1 (some char) (draft.push (.literal escaped))
      | other => readChars rest 0 (some char) (draft.push (.literal other))

/-- Reads a pattern. -/
def parse (text : String) : Except PatternError Pattern :=
  match readChars text.toList 0 none {} with
  | .error problem => .error problem
  | .ok draft => if draft.groups.isEmpty then .ok draft.current.reverse else .error .unclosedGroup

/-! ## Matching -/

/-- The bytes of a character. -/
def charBytes (char : Char) : List UInt8 := (String.singleton char).toUTF8.toList

/-- The slash that separates segments. -/
def slash : UInt8 := 47

/-- Whether a byte belongs to a character or range of a class. Of two characters in a range, the
last byte of the lower and the first byte of the upper delimit the bytes; their other bytes belong
to the class one by one. -/
def inRange (byte : UInt8) (range : Char × Char) : Bool :=
  let low := charBytes range.1
  let high := charBytes range.2
  if range.1 = range.2 then low.contains byte
  else
    low.dropLast.contains byte || high.tail.contains byte
      || (low.getLast?.any (· ≤ byte) && high.head?.any (byte ≤ ·))

/-- Whether some end of a path matches, where the part before it has no slash. -/
def afterSegmentBytes (next : List UInt8 → Bool) : List UInt8 → Bool
  | [] => next []
  | byte :: rest => next (byte :: rest) || (byte != slash && afterSegmentBytes next rest)

/-- Whether some end of a path that follows a slash matches. -/
def afterAnySlash (next : List UInt8 → Bool) : List UInt8 → Bool
  | [] => false
  | byte :: rest => (byte == slash && next rest) || afterAnySlash next rest

/-- Whether some end of a path matches. -/
def afterAnyBytes (next : List UInt8 → Bool) : List UInt8 → Bool
  | [] => next []
  | byte :: rest => next (byte :: rest) || afterAnyBytes next rest

/-- What follows a given beginning of a path. -/
def afterBytes? : List UInt8 → List UInt8 → Option (List UInt8)
  | [], path => some path
  | _ :: _, [] => none
  | expected :: others, byte :: rest => if expected = byte then afterBytes? others rest else none

mutual

/-- Whether a token puts no condition on a path: a group without any branch that does. -/
def isVoid : Token → Bool
  | .group branches => branchesVoid branches
  | _ => false

/-- Whether all tokens of a branch put no condition on a path. -/
def branchVoid : List Token → Bool
  | [] => true
  | token :: rest => isVoid token && branchVoid rest

/-- Whether all branches of a group put no condition on a path. -/
def branchesVoid : List (List Token) → Bool
  | [] => true
  | branch :: rest => branchVoid branch && branchesVoid rest

end

mutual

/-- Whether a path starts with what a token stands for, such that the rest matches. -/
def matchToken (next : List UInt8 → Bool) : Token → List UInt8 → Bool
  | .literal char, path => (afterBytes? (charBytes char) path).any next
  | .anyByte, path =>
      match path with
      | [] => false
      | byte :: rest => byte != slash && next rest
  | .anyBytes, path => afterSegmentBytes next path
  | .leadingSegments, path => next path || afterAnySlash next path
  | .trailingSegments, path => path.head? == some slash && afterAnyBytes next path.tail
  | .innerSegments, path =>
      path.head? == some slash && (next path.tail || afterAnySlash next path.tail)
  | .byteClass negated ranges, path =>
      match path with
      | [] => false
      | byte :: rest => (ranges.any (inRange byte) != negated) && next rest
  | .group branches, path =>
      if branchesVoid branches then next path else matchSome next branches path

/-- Whether a path starts with what a branch stands for, such that the rest matches. -/
def matchBranch (next : List UInt8 → Bool) : List Token → List UInt8 → Bool
  | [], path => next path
  | token :: rest, path => matchToken (fun later => matchBranch next rest later) token path

/-- Whether a path starts with what one of some branches stands for, such that the rest matches. A
branch without any condition does not count. -/
def matchSome (next : List UInt8 → Bool) : List (List Token) → List UInt8 → Bool
  | [], _ => false
  | branch :: rest, path =>
      (!branchVoid branch && matchBranch next branch path) || matchSome next rest path

end

/-- Whether a pattern is nothing but two stars, which match every path. -/
def isUniversal : Pattern → Bool
  | [.leadingSegments] => true
  | _ => false

/-! ## The segment of two dots -/

/-- The character that a token stands for, if it stands for one. -/
def literal? : Token → Option Char
  | .literal char => some char
  | _ => none

/-- Whether a pattern is a text that a path has to be, or that whole segments at the end of a path
have to be. For the latter the text has more than one segment. -/
def isText : Pattern → Bool
  | .leadingSegments :: rest =>
      rest.all (fun token => (literal? token).isSome) && rest.any (literal? · == some '/')
  | tokens => tokens.all fun token => (literal? token).isSome

/-- Whether a pattern ends in a dot and characters after it, all of them literal and in one
segment. -/
def endsInExtension (pattern : Pattern) : Bool :=
  (pattern.reverse.takeWhile fun token => (literal? token).any (· != '/')).any
    (literal? · == some '.')

/-- Whether the last segment of a path is two dots. -/
def leadsUp (path : List UInt8) : Bool :=
  path.reverse.takeWhile (· != slash) == "..".toUTF8.toList

/-- Whether a pattern and a path are at odds because two dots, which lead to the directory above,
are not the name of a file. Such a segment has no extension, hence a pattern with an extension does
not match it, unless the pattern is a text. -/
def deniesLeadingUp (pattern : Pattern) (path : List UInt8) : Bool :=
  endsInExtension pattern && !isText pattern && leadsUp path

/-- Whether a pattern matches a path. -/
def matchesPath (pattern : Pattern) (path : String) : Bool :=
  let bytes := path.toUTF8.toList
  isUniversal pattern || (!deniesLeadingUp pattern bytes && matchBranch List.isEmpty pattern bytes)

end Pattern

end LuaCoverage.Path
