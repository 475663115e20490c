import LuaCoverage.Listing
import LuaCoverage.Report
import LuaCoverage.Session.Replay

/-!
# Commands

Every command is a function from the texts of the files that it names to the text that it prints, or
to an error. The sources of a replayed program are given apart from these, because they go by the
keys of their paths and not by the names that a user types.
-/

set_option autoImplicit false

namespace LuaCoverage

/-- Why a command failed. -/
inductive CommandError where
  /-- A file that was named cannot be read. -/
  | unreadable (file : String)
  | badConfig (file : String)
  | badSnapshot (file : String)
  | badScript (file : String)
  | badStrategy (name : String)
  /-- The configuration does not say where sources are cached. -/
  | noCachePath
  | failed (problem : CoverageError)
  deriving DecidableEq, Repr

/-- The message of a failed command. -/
def CommandError.message : CommandError → String
  | unreadable file => "Failed to read " ++ file
  | badConfig file => "Invalid config " ++ file
  | badSnapshot file => "Invalid coverage snapshot " ++ file
  | badScript file => "Invalid replay script " ++ file
  | badStrategy name => Strategy.unknownMessage name
  | noCachePath => "No cache_path set in the configuration"
  | failed problem => problem.message

/-- What a command works with. -/
structure Workspace where
  /-- The texts of files, by the names that a user gives. -/
  files : PathMap String
  /-- The texts of sources, by the keys of their paths. -/
  sources : PathMap String
  /-- What is kept between runs. -/
  disk : Option SourceCache := none
  /-- The time that snapshots bear, if there is a clock. -/
  time : Option String := none

namespace Workspace

/-- The text of a file. -/
def read (workspace : Workspace) (file : String) : Except CommandError String :=
  match workspace.files[file]? with
  | some text => .ok text
  | none => .error (.unreadable file)

/-- The configuration in a file. -/
def readConfig (workspace : Workspace) (presets : Config) (file : String) :
    Except CommandError Config := do
  match (Json.parse (← workspace.read file)).bind (Config.ofJson? presets) with
  | some config => return config
  | none => throw (.badConfig file)

/-- The store whose snapshot is in a file. -/
def readSnapshot (workspace : Workspace) (file : String) : Except CommandError CoverageStore := do
  (CoverageStore.parse (← workspace.read file)).mapError fun _ => .badSnapshot file

/-- The text of the snapshot of a store. -/
def write (workspace : Workspace) (store : CoverageStore) : String :=
  match workspace.time with
  | none => store.render
  | some time => store.renderAt time

/-- The replay script in a file. -/
def readScript (workspace : Workspace) (file : String) :
    Except CommandError (List ScriptEntry) := do
  match ScriptEntry.script? (← workspace.read file) with
  | some events => return events
  | none => throw (.badScript file)

end Workspace

/-- A command. -/
inductive Command where
  /-- Show how each line of a source is classified. -/
  | analyze (file : String)
  /-- Print the instrumented form of a source, or the map of its lines. -/
  | instrument (file : String) (showsMap : Bool)
  /-- Run a script of recorded events through a session and print the snapshot. -/
  | replay (script : String) (strategy : Strategy)
  /-- Show the counts of a snapshot. -/
  | summary (snapshot : String)
  /-- List the files of a snapshot. -/
  | files (snapshot : String) (byRate : Bool)
  /-- Show the lines of a file that can run. -/
  | lines (snapshot file : String)
  /-- Show the lines of a file that can run but did not. -/
  | unexecuted (snapshot file : String)
  /-- Put snapshots together and print the result. -/
  | merge (snapshots : List String)
  deriving DecidableEq, Repr

namespace Command

/-- The files that a command reads by name. -/
def inputs : Command → List String
  | analyze file => [file]
  | instrument file _ => [file]
  | replay script _ => [script]
  | summary snapshot => [snapshot]
  | files snapshot _ => [snapshot]
  | lines snapshot _ => [snapshot]
  | unexecuted snapshot _ => [snapshot]
  | merge snapshots => snapshots

/-- The source in a file, with its analysis under the key of its path. -/
def analyzed (workspace : Workspace) (config : Config) (file : String) :
    Except CommandError (String × Analysis) := do
  let source ← workspace.read file
  return (source, LuaCoverage.analyze config.analysisSettings source
    (Path.normalize config.root file))

/-- The instrumented form of the source in a file. -/
def instrumented (workspace : Workspace) (config : Config) (file : String) :
    Except CommandError Instrumented := do
  let (source, analysis) ← analyzed workspace config file
  (instrumentWith (.ofConfig config) source analysis.fileId analysis).mapError .failed

/-- The session after a replayed script. -/
def replayed (workspace : Workspace) (config : Config) (script : String) (strategy : Strategy) :
    Except CommandError Session := do
  let events ← workspace.readScript script
  let session ← (Session.ofConfig config strategy workspace.disk).mapError .failed
  return session.replay workspace.sources events

/-- The store that snapshots make together. -/
def merged (workspace : Workspace) (snapshots : List String) :
    Except CommandError CoverageStore :=
  snapshots.foldlM
    (fun store file => do return store.merge (← workspace.readSnapshot file)) .empty

/-- What a command prints. -/
def run (workspace : Workspace) (config : Config) : Command → Except CommandError String
  | analyze file => do
      let (source, analysis) ← analyzed workspace config file
      return Listing.ofAnalysis source analysis
  | instrument file showsMap => do
      let out ← instrumented workspace config file
      return if showsMap then Listing.ofSourceMap out.sourceMap else out.text
  | replay script strategy => do
      return workspace.write (← replayed workspace config script strategy).store
  | summary snapshot => do return Report.counts (← workspace.readSnapshot snapshot).summary
  | files snapshot byRate => do return Report.files (← workspace.readSnapshot snapshot) byRate
  | lines snapshot file => do
      return Report.ofFile (← workspace.readSnapshot snapshot) file Report.lines
  | unexecuted snapshot file => do
      return Report.ofFile (← workspace.readSnapshot snapshot) file (Report.unexecuted file)
  | merge snapshots => do return workspace.write (← merged workspace snapshots)

end Command

end LuaCoverage
