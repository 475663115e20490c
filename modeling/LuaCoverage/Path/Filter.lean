import LuaCoverage.Config
import LuaCoverage.Error
import LuaCoverage.Path.Normal

/-!
# Which files are tracked

A source identifier that a host reports names a file only if it starts with an at sign. A file is
tracked if its key, or its key relative to the root, matches one of the patterns to include, or if
there are none, and matches none of the patterns to exclude. A filter remembers its decisions, one
for each path it was asked about.
-/

set_option autoImplicit false

namespace LuaCoverage.Path

/-- A text cut after forty characters. -/
def abbreviate (text : String) : String :=
  let chars := text.toList
  if 40 < chars.length then String.ofList (chars.take 40) ++ "..." else text

/-- The key of the file that a source identifier names. -/
def ofSourceId (root sourceId : String) : Except CoverageError String :=
  match sourceId.toList with
  | '@' :: [] => .error (.resolution sourceId .emptyFileName)
  | '@' :: path => .ok (normalize root (String.ofList path))
  | '=' :: _ => .error (.resolution (abbreviate sourceId) .namedChunk)
  | _ => .error (.resolution (abbreviate sourceId) .inlineChunk)

/-- Reads patterns, up to the first that is not well formed. -/
def parsePatterns : List String → Except CoverageError (List Pattern)
  | [] => .ok []
  | text :: rest => do
      let pattern ← (Pattern.parse text).mapError (.pattern text)
      let later ← parsePatterns rest
      return pattern :: later

/-- Whether one of some patterns matches a path. -/
def matchesAny (patterns : List Pattern) (path : String) : Bool :=
  patterns.any fun pattern => pattern.matchesPath path

/-- The rule by which files are tracked, with the decisions made so far. -/
structure Filter where
  root : String
  included : List Pattern
  excluded : List Pattern
  decided : PathMap Bool := ∅

namespace Filter

/-- The filter of a configuration, without any decision yet. -/
def ofConfig (config : Config) : Except CoverageError Filter := do
  let included ← parsePatterns config.includePatterns
  let excluded ← parsePatterns config.excludePatterns
  return { root := normalize config.root ".", included := included, excluded := excluded }

/-- A path relative to a root directory, if it lies inside it. -/
def relativeTo (root path : String) : Option String :=
  let base := (root.toList.reverse.dropWhile (· == '/')).reverse
  if base.isPrefixOf path.toList then
    match path.toList.drop base.length with
    | '/' :: first :: rest => some (String.ofList (first :: rest))
    | _ => none
  else none

/-- Whether one of some patterns matches a path or the same path relative to the root. -/
def matchesEither (filter : Filter) (patterns : List Pattern) (path : String) : Bool :=
  matchesAny patterns path || (relativeTo filter.root path).any (matchesAny patterns)

/-- Whether the rule says that a file is tracked. -/
def rule (filter : Filter) (path : String) : Bool :=
  (filter.included.isEmpty || filter.matchesEither filter.included path)
    && !filter.matchesEither filter.excluded path

/-- Decides whether a file is tracked, and remembers the decision. -/
def decide (filter : Filter) (path : String) : Bool × Filter :=
  match filter.decided[path]? with
  | some decision => (decision, filter)
  | none =>
      let decision := filter.rule path
      (decision, { filter with decided := filter.decided.insert path decision })

end Filter

end LuaCoverage.Path
