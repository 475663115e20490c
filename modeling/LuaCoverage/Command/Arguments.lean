import LuaCoverage.Command.Basic

/-!
# Arguments of the command line

Options may stand anywhere among the arguments. What is left names the command and what it works on.
Options that a command has no use for are accepted and have no effect.
-/

set_option autoImplicit false

namespace LuaCoverage

/-- The options of a command line. -/
structure Options where
  /-- The file that holds the configuration. -/
  config : Option String := none
  /-- The file that a snapshot is written to. -/
  output : Option String := none
  strategy : String := "trace"
  showsMap : Bool := false
  byRate : Bool := false
  deriving DecidableEq, Repr

/-- What a command line asks for. -/
inductive Action where
  | run (command : Command)
  /-- Show how much the cache of instrumented sources holds. -/
  | cacheStats
  /-- Drop every entry of the cache. -/
  | cacheClear
  deriving DecidableEq, Repr

/-- How the program is used. -/
def usage : String :=
  "\n".intercalate
    ["Usage: covlua [--config FILE] COMMAND", "Commands:",
     "  analyze FILE", "  instrument FILE [--sourcemap]",
     "  replay SCRIPT [--strategy STRATEGY] [--output FILE]",
     "  summary SNAPSHOT", "  files SNAPSHOT [--sort-by-rate]",
     "  lines SNAPSHOT SOURCE_FILE", "  unexecuted SNAPSHOT SOURCE_FILE",
     "  merge SNAPSHOT... [--output FILE]", "  cache stats", "  cache clear"]

namespace Options

/-- Separates the options from the other arguments. There is no result for an option that is not
known or lacks its value. -/
def collect : List String → Option (Options × List String)
  | [] => some ({}, [])
  | "--config" :: value :: rest => do
      let (options, others) ← collect rest
      return ({ options with config := some value }, others)
  | "--output" :: value :: rest => do
      let (options, others) ← collect rest
      return ({ options with output := some value }, others)
  | "--strategy" :: value :: rest => do
      let (options, others) ← collect rest
      return ({ options with strategy := value }, others)
  | "--sourcemap" :: rest => do
      let (options, others) ← collect rest
      return ({ options with showsMap := true }, others)
  | "--sort-by-rate" :: rest => do
      let (options, others) ← collect rest
      return ({ options with byRate := true }, others)
  | argument :: rest =>
      if argument.startsWith "--" then none
      else do
        let (options, others) ← collect rest
        return (options, argument :: others)

/-- What the arguments besides the options ask for. There is no result if they are no command. -/
def action? (options : Options) : List String → Option (Except CommandError Action)
  | ["analyze", file] => some (.ok (.run (.analyze file)))
  | ["instrument", file] => some (.ok (.run (.instrument file options.showsMap)))
  | ["replay", script] =>
      some (match Strategy.parse? options.strategy with
        | some strategy => .ok (.run (.replay script strategy))
        | none => .error (.badStrategy options.strategy))
  | ["summary", snapshot] => some (.ok (.run (.summary snapshot)))
  | ["files", snapshot] => some (.ok (.run (.files snapshot options.byRate)))
  | ["lines", snapshot, file] => some (.ok (.run (.lines snapshot file)))
  | ["unexecuted", snapshot, file] => some (.ok (.run (.unexecuted snapshot file)))
  | "merge" :: snapshot :: rest => some (.ok (.run (.merge (snapshot :: rest))))
  | ["cache", "stats"] => some (.ok .cacheStats)
  | ["cache", "clear"] => some (.ok .cacheClear)
  | _ => none

end Options

/-! ## Sources of a replayed program -/

namespace ScriptEntry

/-- The files that an event names, or may name. -/
def paths (rules : LoaderRules) : ScriptEntry → List String
  | report (.line source _) => (Path.ofSourceId rules.root source).toOption.toList
  | report (.call source _) => (Path.ofSourceId rules.root source).toOption.toList
  | report (.hit file _ _) => [file]
  | report (.enter file _) => [file]
  | load (.module name) => rules.candidates name
  | load (.file path) => [Path.normalize rules.root path]
  | assertion _ => []

/-- The files that a replayed script may ask for, when some sources are at hand: those that its
events name, and those where modules may lie that the sources require. -/
def wanted (rules : LoaderRules) (events : List ScriptEntry) (sources : PathMap String) :
    List String :=
  events.flatMap (paths rules)
    ++ sources.toList.flatMap fun entry =>
      (analyze rules.settings entry.2 entry.1).requires.flatMap rules.candidates

end ScriptEntry

end LuaCoverage
