import LuaCoverage.Syntax.Cursor

/-!
# The grammar of Lua

The grammar is that of Lua 5.4 with three liberties. A word is a keyword only where that keyword can
stand, and a name everywhere else; all the keywords that close blocks count after a statement inside
a block, whatever the kind of the block. Names may contain any character that has no other use.
Semicolons and `break` may stand between any two statements.

Constructs nest through expressions and statements only. `Parsers` holds the readers of these two;
every other reader is a plain function of the readers one level further inside, and `Parsers.level`
ties the knot. Something that is nested deeper has more characters before it, so as many levels as
the source has characters are enough.
-/

set_option autoImplicit false

namespace LuaCoverage.Syntax

/-- The readers of what constructs nest in. -/
structure Parsers where
  /-- Reads an expression whose operators bind more tightly than a given strength. -/
  expression : Nat → Item
  /-- Reads statements up to one of some keywords that close a block, or up to the end. -/
  statements : List String → Part

namespace Grammar

/-! ## Names and operators -/

/-- The keywords that can start an expression. -/
def expressionKeywords : List String := ["nil", "false", "true", "function", "not"]

/-- The strengths with which an operator between two expressions binds to its left and to its
right. -/
structure Strength where
  left : Nat
  right : Nat

/-- The operators between two expressions, the longer before their beginnings. -/
def binaryOperators : List (String × Strength) :=
  [("==", ⟨3, 3⟩), ("~=", ⟨3, 3⟩), ("<=", ⟨3, 3⟩), (">=", ⟨3, 3⟩), ("<<", ⟨7, 7⟩), (">>", ⟨7, 7⟩),
   ("//", ⟨11, 11⟩), ("..", ⟨9, 8⟩), ("<", ⟨3, 3⟩), (">", ⟨3, 3⟩), ("|", ⟨4, 4⟩), ("~", ⟨5, 5⟩),
   ("&", ⟨6, 6⟩), ("+", ⟨10, 10⟩), ("-", ⟨10, 10⟩), ("*", ⟨11, 11⟩), ("/", ⟨11, 11⟩),
   ("%", ⟨11, 11⟩), ("^", ⟨14, 13⟩)]

/-- The words that are operators between two expressions. -/
def binaryWords : List (String × Strength) := [("or", ⟨1, 1⟩), ("and", ⟨2, 2⟩)]

/-- The strength with which an operator before an expression binds. -/
def unaryStrength : Nat := 12

/-- The operator between two expressions that stands at a cursor. -/
def binaryOperator? (cursor : Cursor) : Option (Item × Strength) :=
  match binaryOperators.find? fun operator => cursor.startsWith operator.1 with
  | some (text, strength) => some (Item.symbol text, strength)
  | none =>
      (binaryWords.find? fun operator => cursor.word == operator.1).map fun operator =>
        (Item.keyword operator.1, operator.2)

/-- The operator before an expression that stands at a cursor. -/
def unaryOperator? (cursor : Cursor) : Option Item :=
  if cursor.word == "not" then some (Item.keyword "not")
  else (["#", "-", "~"].find? cursor.startsWith).map Item.symbol

/-! ## Tokens with a shape of their own -/

/-- Reads a string. -/
def stringLiteral : Item := fun cursor => do
  let shape ← (← Lexeme.stringShape? cursor.rest)
  let inside := cursor.advance shape.opening
  let closing := inside.advance (shape.content.getD 0)
  let after := closing.advance shape.closing
  let content := shape.content.map fun _ => Span.mk inside.position closing.position
  return (.leaf (.string content) ⟨cursor.position, after.position⟩, after)

/-- Whether a string starts at a cursor. -/
def atString (cursor : Cursor) : Bool := (Lexeme.stringShape? cursor.rest).isSome

/-- Whether a single bracket stands at a cursor, and not the beginning of a string. -/
def atBracket (cursor : Cursor) : Bool := cursor.startsWith "[" && !atString cursor

/-- Whether a comma stands at a cursor. -/
def atComma (cursor : Cursor) : Bool := cursor.startsWith ","

/-- Reads a part, and more of it after commas. -/
def commaSeparated (part : Part) : Part :=
  Part.sequence [part, Part.repeated atComma (Part.sequence [Part.symbol ",", part])]

/-! ## Expressions -/

section Expressions

variable (inner : Parsers)

/-- Reads a whole expression. -/
def wholeExpression : Item := inner.expression 0

/-- Reads a whole expression, and the comments before it. -/
def expressionPart : Part := Part.sequence [Part.expectString, Part.one (wholeExpression inner)]

/-- Reads the statements of a block, up to one of the keywords that close it. A block without
statements leaves nothing. -/
def body (closers : List String) : Part := fun cursor => do
  let (comments, start) ← cursor.toToken
  let (statements, after) ← inner.statements closers start
  if statements.isEmpty then some ([], cursor)
  else some (comments ++ [.enclose .block statements], after)

/-- Reads the parameters of a function. -/
def parameters : Item :=
  let ellipsis : Part := Part.one fun cursor =>
    if cursor.startsWith "..." then some (cursor.leaf .varargs 3) else none
  let atEllipsis (cursor : Cursor) : Bool := cursor.startsWith "..."
  let parameter : Part := fun cursor => do
    let (_, start) ← cursor.toToken
    if atEllipsis start then ellipsis cursor else Part.name cursor
  Item.construct .parameters
    [Part.symbol "(",
     Part.whenNext (fun start => !start.startsWith ")") fun cursor => do
       let (listed, after) ← commaSeparated parameter cursor
       let early := (listed.filter Node.isNamed).dropLast.any fun node =>
         match node with
         | .leaf .varargs _ => true
         | _ => false
       if early then none else some (listed, after),
     Part.symbol ")"]

/-- The parts of a function after its keyword and name. -/
def functionParts : List Part :=
  [Part.one parameters, body inner ["end"], Part.keyword "end"]

/-- Reads a function that is an expression. -/
def functionExpression : Item :=
  Item.construct .functionExpression (Part.keyword "function" :: functionParts inner)

/-- Whether an equals sign stands at a cursor, and not a comparison. -/
def atEquals (cursor : Cursor) : Bool := cursor.startsWith "=" && !cursor.startsWith "=="

/-- Reads one field of a table. A name is the key of the field if an equals sign follows. -/
def tableField : Item := fun cursor =>
  if atBracket cursor then
    Item.construct .field
      [Part.symbol "[", expressionPart inner, Part.symbol "]", Part.symbol "=",
        expressionPart inner]
      cursor
  else
    let isKeyed : Option Bool := do
      if cursor.word == "" ∨ expressionKeywords.contains cursor.word then some false
      else
        let (_, afterName) ← Item.name cursor
        let (_, start) ← afterName.expectString.toToken
        some (atEquals start)
    match isKeyed with
    | none => none
    | some true =>
        Item.construct .field
          [Part.name, Part.expectString, Part.symbol "=", expressionPart inner] cursor
    | some false => Item.construct .field [expressionPart inner] cursor

/-- Reads a table. Fields are separated by commas and semicolons, and one may follow the last. -/
def tableConstructor : Item :=
  let separator : Part := Part.one fun cursor =>
    if atComma cursor then Item.symbol "," cursor else Item.symbol ";" cursor
  let atField (cursor : Cursor) : Bool := !cursor.startsWith "\x7d" && !cursor.atEnd
  let moreFields : Part := Part.repeated (fun cursor => atComma cursor || cursor.startsWith ";")
    (Part.sequence
      [separator, Part.expectString, Part.whenNext atField (Part.one (tableField inner))])
  Item.construct .tableConstructor
    [Part.symbol "\x7b", Part.expectString,
     Part.whenNext atField (Part.sequence [Part.one (tableField inner), moreFields]),
     Part.symbol "\x7d"]

/-- Whether the arguments of a call start at a cursor. -/
def atArguments (cursor : Cursor) : Bool :=
  cursor.startsWith "(" || cursor.startsWith "\x7b" || atString cursor

/-- Reads the arguments of a call: a list in parentheses, one table, or one string. -/
def arguments : Item := fun cursor =>
  if cursor.startsWith "(" then
    Item.construct .arguments
      [Part.symbol "(", Part.expectString,
       Part.whenNext (fun start => !start.startsWith ")") (commaSeparated (expressionPart inner)),
       Part.symbol ")"]
      cursor
  else if cursor.startsWith "\x7b" then
    Item.construct .arguments [Part.one (tableConstructor inner)] cursor
  else Item.construct .arguments [Part.one stringLiteral] cursor

/-- Reads on from something that can be indexed and called, as far as indices and calls follow. -/
def suffixes : Nat → Node → Item
  | 0, _ => fun _ => none
  | bound + 1, base => fun cursor => do
      let cursor := cursor.expectString
      let (_, start) ← cursor.toToken
      if start.startsWith "." && !start.startsWith ".." then
        let (indexed, after) ← Item.extend .dotIndex base [Part.symbol ".", Part.name] cursor
        suffixes bound indexed after
      else if atBracket start then
        let (indexed, after) ← Item.extend .bracketIndex base
          [Part.symbol "[", expressionPart inner, Part.symbol "]"] cursor
        suffixes bound indexed after
      else if start.startsWith ":" && !start.startsWith "::" then
        let (method, between) ← Item.extend .methodIndex base [Part.symbol ":", Part.name] cursor
        let (called, after) ← Item.extend .call method
          [Part.expectString, Part.one (arguments inner)] between
        suffixes bound called after
      else if atArguments start then
        let (called, after) ← Item.extend .call base [Part.one (arguments inner)] cursor
        suffixes bound called after
      else some (base, cursor)

/-- Reads a name or an expression in parentheses, with the indices and calls that follow. -/
def indexable : Item := fun cursor => do
  let (base, after) ←
    if cursor.startsWith "(" then
      Item.construct .parenthesized
        [Part.symbol "(", expressionPart inner, Part.symbol ")"] cursor
    else Item.name cursor
  suffixes inner (after.left + 1) base after

/-- Reads an expression without operators. -/
def operand : Item := fun cursor =>
  let number := Lexeme.numberLength cursor.rest
  if number ≠ 0 then some (cursor.leaf .number number)
  else if cursor.startsWith "..." then some (cursor.leaf .varargs 3)
  else if atString cursor then stringLiteral cursor
  else if cursor.startsWith "\x7b" then tableConstructor inner cursor
  else if cursor.word == "function" then functionExpression inner cursor
  else if ["nil", "false", "true"].contains cursor.word then Item.anyWord .constant cursor
  else indexable inner cursor

/-- Reads on from an operand, as far as operators follow that bind more tightly than a strength. -/
def operations (limit : Nat) : Nat → Node → Item
  | 0, _ => fun _ => none
  | bound + 1, left => fun cursor => do
      let (_, start) ← cursor.toToken
      match binaryOperator? start with
      | none => some (left, cursor)
      | some (operator, strength) =>
          if limit < strength.left then
            let (combined, after) ← Item.extend .binary left
              [Part.one operator, Part.expectString, Part.one (inner.expression strength.right)]
              cursor
            operations limit bound combined after
          else some (left, cursor)

/-- Reads an expression whose operators bind more tightly than a strength. -/
def expression (limit : Nat) : Item := fun cursor => do
  let (left, after) ← match unaryOperator? cursor with
    | some operator =>
        Item.construct .unary
          [Part.one operator, Part.expectString, Part.one (inner.expression unaryStrength)] cursor
    | none => operand inner cursor
  operations inner limit (after.left + 1) left after

/-- Reads a list of expressions. -/
def expressionList : Item :=
  Item.construct .expressionList [commaSeparated (expressionPart inner)]

/-- Reads a list of expressions, and the comments before it. -/
def expressionListPart : Part := Part.sequence [Part.expectString, Part.one (expressionList inner)]

end Expressions

/-! ## Statements -/

section Statements

variable (inner : Parsers)

/-- Whether a tree can be assigned to. -/
def isAssignable : Node → Bool
  | .leaf .name _ => true
  | .inner .dotIndex _ _ => true
  | .inner .bracketIndex _ _ => true
  | _ => false

/-- Reads something that can be assigned to. -/
def assignable : Item := fun cursor => do
  let (target, after) ← indexable inner cursor
  if isAssignable target then some (target, after) else none

/-- Reads a call, or an assignment to one or more variables. -/
def callOrAssignment : Item := fun cursor => do
  let (base, after) ← indexable inner cursor
  if base.isConstruct .call then some (base, after)
  else if isAssignable base then
    let moreTargets : Part :=
      Part.repeated atComma (Part.sequence [Part.symbol ",", Part.one (assignable inner)])
    let (targets, afterTargets) ← Item.extend .variableList base [moreTargets] after
    Item.extend .assignment targets
      [Part.symbol "=", expressionListPart inner] afterTargets
  else none

/-- Reads a name that a local declaration introduces, with its modifier. -/
def attributedName : Part :=
  Part.sequence
    [Part.name,
     Part.whenNext (fun cursor => cursor.startsWith "<")
       (Part.one (Item.construct .modifier [Part.symbol "<", Part.name, Part.symbol ">"]))]

/-- Reads a local declaration of variables after its keyword. -/
def localVariables : Item := fun cursor => do
  let (names, after) ← Item.construct .variableList [commaSeparated attributedName] cursor
  let (_, start) ← after.toToken
  if start.startsWith "=" then
    Item.extend .assignment names [Part.symbol "=", expressionListPart inner] after
  else some (names, after)

/-- Reads a local declaration of a function or of variables. -/
def localDeclaration : Item := fun cursor => do
  let (_, afterKeyword) ← Item.keyword "local" cursor
  let (_, start) ← afterKeyword.toToken
  if start.word == "function" then
    Item.construct .functionDeclaration
      (Part.keyword "local" :: Part.keyword "function" :: Part.name :: functionParts inner) cursor
  else
    Item.construct .localDeclaration [Part.keyword "local", Part.one (localVariables inner)] cursor

/-- Reads on from a name, as far as dots and further names follow. -/
def dottedName : Nat → Node → Item
  | 0, _ => fun _ => none
  | bound + 1, base => fun cursor => do
      let (_, start) ← cursor.toToken
      if start.startsWith "." then
        let (indexed, after) ← Item.extend .dotIndex base [Part.symbol ".", Part.name] cursor
        dottedName bound indexed after
      else if start.startsWith ":" then
        Item.extend .methodIndex base [Part.symbol ":", Part.name] cursor
      else some (base, cursor)

/-- Reads the name of a function that is not local. -/
def functionName : Item := fun cursor => do
  let (base, after) ← Item.name cursor
  dottedName (after.left + 1) base after

/-- Reads the declaration of a function that is not local. -/
def functionDeclaration : Item :=
  Item.construct .functionDeclaration
    (Part.keyword "function" :: Part.one functionName :: functionParts inner)

/-- Reads the header of a loop over numbers or over the values of an iterator. -/
def forClause : Item := fun cursor => do
  let (name, afterName) ← Item.name cursor
  let (_, start) ← afterName.toToken
  if start.startsWith "=" then
    Item.extend .numericClause name
      [Part.symbol "=", expressionPart inner, Part.symbol ",", expressionPart inner,
       Part.whenNext atComma (Part.sequence [Part.symbol ",", expressionPart inner])]
      afterName
  else
    let moreNames : Part := Part.repeated atComma (Part.sequence [Part.symbol ",", Part.name])
    let (names, afterNames) ← Item.extend .variableList name [moreNames] afterName
    Item.extend .genericClause names
      [Part.keyword "in", expressionListPart inner] afterNames

/-- The keywords that close an arm of an `if` statement but the last. -/
def armClosers : List String := ["elseif", "else", "end"]

/-- Reads an `if` statement. -/
def ifStatement : Item :=
  let elseIfArm : Item := Item.construct .elseIfArm
    [Part.keyword "elseif", expressionPart inner, Part.keyword "then", body inner armClosers]
  let elseArm : Item := Item.construct .elseArm [Part.keyword "else", body inner ["end"]]
  Item.construct .ifStatement
    [Part.keyword "if", expressionPart inner, Part.keyword "then", body inner armClosers,
     Part.repeated (fun cursor => cursor.word == "elseif") (Part.one elseIfArm),
     Part.whenNext (fun cursor => cursor.word == "else") (Part.one elseArm),
     Part.keyword "end"]

/-- Reads the statement that starts at a cursor; there is no answer if none does. -/
def statement : Item := fun cursor =>
  if cursor.startsWith ";" then Item.construct .emptyStatement [Part.symbol ";"] cursor
  else if cursor.startsWith "::" then
    Item.construct .labelStatement [Part.symbol "::", Part.name, Part.symbol "::"] cursor
  else
    match cursor.word with
    | "break" => Item.anyWord .breakStatement cursor
    | "goto" => Item.construct .gotoStatement [Part.keyword "goto", Part.name] cursor
    | "do" =>
        Item.construct .doStatement
          [Part.keyword "do", body inner ["end"], Part.keyword "end"] cursor
    | "while" =>
        Item.construct .whileStatement
          [Part.keyword "while", expressionPart inner, Part.keyword "do", body inner ["end"],
           Part.keyword "end"]
          cursor
    | "repeat" =>
        Item.construct .repeatStatement
          [Part.keyword "repeat", body inner ["until"], Part.keyword "until", expressionPart inner]
          cursor
    | "if" => ifStatement inner cursor
    | "for" =>
        Item.construct .forStatement
          [Part.keyword "for", Part.one (forClause inner), Part.keyword "do", body inner ["end"],
           Part.keyword "end"]
          cursor
    | "function" => functionDeclaration inner cursor
    | "local" => localDeclaration inner cursor
    | _ => callOrAssignment inner cursor

/-- The keywords that close blocks. -/
def blockClosers : List String := ["end", "else", "elseif", "until"]

/-- The words that are closing keywords after a statement or a `return`, among statements that start
with given closing keywords: all of them inside a block, and none outside. -/
def laterClosers (closers : List String) : List String :=
  if closers.isEmpty then [] else blockClosers

/-- Reads a return statement. Its expressions are missing if the block or the statement ends
first. -/
def returnStatement (closers : List String) : Item :=
  let atValue (cursor : Cursor) : Bool :=
    !cursor.atEnd && !cursor.startsWith ";" && !closers.contains cursor.word
  Item.construct .returnStatement
    [Part.keyword "return", Part.expectString,
     Part.whenNext atValue (expressionListPart inner),
     Part.whenNext (fun cursor => cursor.startsWith ";") (Part.symbol ";")]

/-- Whether a statement can start at a cursor. -/
def atStatement (closers : List String) (cursor : Cursor) : Bool :=
  !closers.contains cursor.word
    && (cursor.word != "" || cursor.startsWith ";" || cursor.startsWith "::"
      || cursor.startsWith "(")

/-- Reads statements up to a closing keyword. A return statement is the last. -/
def statements (closers : List String) : Nat → Part
  | 0 => fun _ => none
  | bound + 1 => fun cursor => do
      let (comments, start) ← cursor.toToken
      if !atStatement closers start then some ([], cursor)
      else if start.word == "return" then
        let (final, after) ← returnStatement inner (laterClosers closers) start
        some (comments ++ [final], after)
      else
        let (first, between) ← statement inner start
        let (later, after) ← statements (laterClosers closers) bound between
        some (comments ++ first :: later, after)

end Statements

end Grammar

/-! ## Tying the knot -/

namespace Parsers

/-- Readers that read nothing. -/
def none : Parsers := ⟨fun _ _ => Option.none, fun _ _ => Option.none⟩

/-- Readers that read one level more than given ones. -/
def deeper (inner : Parsers) : Parsers :=
  ⟨fun limit => Grammar.expression inner limit,
   fun closers cursor => Grammar.statements inner closers (cursor.left + 1) cursor⟩

/-- Readers of a number of levels. -/
def level : Nat → Parsers
  | 0 => none
  | levels + 1 => (level levels).deeper

end Parsers

/-! ## Whole sources -/

/-- Reads a first line for the operating system, if one is there. -/
def shebang : Part :=
  Part.whenNext (fun cursor => cursor.startsWith "#") (Part.one fun cursor =>
    some (cursor.leaf .shebang (cursor.rest.takeWhile fun char => char != '\n').length))

/-- The cursor at the beginning of a source, after the mark that tells its encoding. -/
def Cursor.ofSource (source : String) : Cursor :=
  let start := Cursor.start source.toList
  if start.startsWith "\ufeff" then start.advance 1 else start

/-- The syntax tree of a source, or no answer if the source does not parse. -/
def parse? (source : String) : Option Node := do
  if source.toList.contains '\x00' then failure
  let start := Cursor.ofSource source
  let parsers := Parsers.level (start.left + 1)
  let (children, after) ← Part.sequence [shebang, parsers.statements []] start
  let (comments, final) ← after.toToken
  if final.atEnd then
    some (.inner .chunk ⟨Position.start, final.position⟩ (children ++ comments))
  else failure

end LuaCoverage.Syntax
