import LuaCoverage.Command.Arguments
import Std.Time

/-!
# The command line

Reads the files that a command names, runs the command, and prints or writes what it gives.
Everything else is decided by the command and its arguments.
-/

set_option autoImplicit false

namespace LuaCoverage

/-- The text of a file, if it can be read. -/
def readText? (file : String) : IO (Option String) := do
  try return some (← IO.FS.readFile file) catch _ => return none

/-- The texts of those files that can be read, added to others. -/
def readTexts (files : List String) (texts : PathMap String) : IO (PathMap String) :=
  files.foldlM
    (fun known file => do
      match ← readText? file with
      | some text => return known.insert file text
      | none => return known)
    texts

/-- The sources that a replayed script may ask for. Sources that were read may name further ones. -/
partial def readSources (rules : LoaderRules) (events : List ScriptEntry)
    (asked : Std.ExtTreeSet String) (sources : PathMap String) : IO (PathMap String) := do
  let fresh := (ScriptEntry.wanted rules events sources).filter fun path => !asked.contains path
  if fresh.isEmpty then return sources
  readSources rules events (asked.insertMany fresh) (← readTexts fresh sources)

/-- Opens the cache in a file; a file that is missing is a new cache. -/
def openCache (file : String) : IO (Except CoverageError SourceCache) := do
  match ← readText? file with
  | none => return SourceCache.opened {}
  | some text =>
      match (Json.parse text).bind SourceCache.ofJson? with
      | some cache => return cache.opened
      | none => return .error .storage

/-- Writes a cache to its file. -/
def saveCache (file : String) (cache : SourceCache) : IO Unit :=
  IO.FS.writeFile file (cache.toJson.render ++ "\n")

/-- Prints the message of a failure. -/
def complain (message : String) : IO UInt32 := do
  IO.eprintln ("Error: " ++ message)
  return 1

/-- The present time, as snapshots bear it. -/
def presentTime : IO String := do
  let wall := Std.Time.WallTime.ofTimestamp (← Std.Time.Timestamp.now) Std.Time.TimeZone.UTC.offset
  return (Std.Time.PlainDateTime.ofWallTime wall).format "uuuu-MM-dd'T'HH:mm:ss.SSSSSSSSS'+00:00'"

/-- Prints a snapshot, or writes it to a file. -/
def deliver (output : Option String) (snapshot : String) : IO UInt32 := do
  match output with
  | none => IO.println snapshot
  | some file => IO.FS.writeFile file snapshot
  return 0

/-- Replays a script with the sources and the cache that it may use. -/
def runReplay (workspace : Workspace) (config : Config) (script : String) (strategy : Strategy)
    (output : Option String) : IO UInt32 := do
  let sources ←
    match workspace.readScript script, LoaderRules.ofConfig config with
    | .ok events, .ok rules => readSources rules events ∅ ∅
    | _, _ => pure ∅
  let disk ←
    match config.cachePath with
    | none => pure none
    | some file => Except.toOption <$> openCache file
  let used := { workspace with sources := sources, disk := disk }
  match Command.replayed used config script strategy with
  | .error problem => complain problem.message
  | .ok session =>
      match config.cachePath, session.disk with
      | some file, some cache => saveCache file cache
      | _, _ => pure ()
      deliver output (used.write session.store)

/-- Runs a command. -/
def runCommand (config : Config) (options : Options) (command : Command) : IO UInt32 := do
  let workspace : Workspace :=
    { files := ← readTexts command.inputs ∅, sources := ∅, time := ← presentTime }
  match command with
  | .replay script strategy => runReplay workspace config script strategy options.output
  | .merge _ =>
      match command.run workspace config with
      | .ok snapshot => deliver options.output snapshot
      | .error problem => complain problem.message
  | _ =>
      match command.run workspace config with
      | .ok text =>
          IO.print text
          return 0
      | .error problem => complain problem.message

/-- Shows or clears the cache that the configuration names. -/
def runCache (config : Config) (clears : Bool) : IO UInt32 := do
  match config.cachePath with
  | none => complain CommandError.noCachePath.message
  | some file =>
      match ← openCache file with
      | .error _ => complain "Failed to open cache database"
      | .ok cache =>
          if clears then
            let (cleared, count) := cache.clear
            saveCache file cleared
            IO.print (SourceCache.clearedText count)
          else IO.print cache.statsText
          return 0

/-- The configuration that the options name, with the present directory as the preset root. -/
def readConfig (options : Options) : IO (Except CommandError Config) := do
  let presets : Config := { root := (← IO.currentDir).toString }
  match options.config with
  | none => return .ok presets
  | some file =>
      let workspace : Workspace := { files := ← readTexts [file] ∅, sources := ∅ }
      return workspace.readConfig presets file

/-- Does what a command line asks for. -/
def runArguments (arguments : List String) : IO UInt32 := do
  match Options.collect arguments with
  | none => complain usage
  | some (options, rest) =>
      match options.action? rest with
      | none => complain usage
      | some (.error problem) => complain problem.message
      | some (.ok action) =>
          match ← readConfig options with
          | .error problem => complain problem.message
          | .ok config =>
              match action with
              | .run command => runCommand config options command
              | .cacheStats => runCache config false
              | .cacheClear => runCache config true

end LuaCoverage

def main (arguments : List String) : IO UInt32 := LuaCoverage.runArguments arguments
