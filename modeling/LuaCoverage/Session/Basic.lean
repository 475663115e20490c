import LuaCoverage.Session.Instrumentation

/-!
# Sessions

A session is what a test runner drives: it starts and stops runs, hands on what the host reports,
answers loads of modules, and links assertions to the lines on their call stacks. Between runs a
session ignores events, but it still answers loads and links assertions.

Stopping a run settles the store: files are analyzed that could not be before, block tables are
repaired, line records are settled against the analyses, and marks that contradict others are
cleared.
-/

set_option autoImplicit false

namespace LuaCoverage

/-- How a session observes its runs. -/
inductive Observer where
  | trace
  | instrument (instrumentation : Instrumentation)

namespace Observer

/-- The strategy of an observer. -/
def strategy : Observer → Strategy
  | trace => .trace
  | instrument _ => .instrument

/-- The observer at the start of a run. -/
def cleared : Observer → Observer
  | trace => trace
  | instrument instrumentation => instrument instrumentation.cleared

/-- Records an event. -/
def record (observer : Observer) (recording : Recording) (sources : PathMap String)
    (event : Event) : Recording :=
  match observer with
  | trace => recording.onTraced sources event
  | instrument instrumentation => instrumentation.record recording sources event

/-- The line of the source that a line of the running text came from. -/
def sourceLine? (observer : Observer) (file : String) (line : Nat) : Option Nat :=
  match observer with
  | trace => some line
  | instrument instrumentation => instrumentation.sourceLine? file line

/-- The observer of a strategy under a configuration, with what is kept between runs. -/
def ofConfig (config : Config) (disk : Option SourceCache) :
    Strategy → Except CoverageError Observer
  | .trace => .ok trace
  | .instrument => do
      let loader ← Loader.ofConfig config disk
      return instrument { loader := loader }

end Observer

/-- What stopping a run did. -/
structure RunReport where
  files : Nat
  fixes : RepairReport
  /-- Line records that the analyses changed. -/
  reclassified : Nat
  /-- Line records that contradicted themselves even so. -/
  repaired : Nat
  events : EventCounts
  deriving DecidableEq, Repr

/-- The document of what stopping a run did. -/
def RunReport.toJson (report : RunReport) : Json.Value :=
  .ofMembers
    [("files", .ofNat report.files),
     ("relationships_fixed", .ofNat report.fixes.relationshipsFixed),
     ("pending_resolved", .ofNat report.fixes.pendingResolved),
     ("orphans_reattached", .ofNat report.fixes.orphansReattached),
     ("reclassified", .ofNat report.reclassified), ("invariant_repairs", .ofNat report.repaired),
     ("events", report.events.toJson)]

/-- A coverage session. -/
structure Session where
  observer : Observer
  recording : Recording
  running : Bool := false

/-- A load that a session is asked to answer. -/
inductive LoadRequest where
  /-- The program requires a module. -/
  | module (name : String)
  /-- The host runs a file. -/
  | file (path : String)
  deriving DecidableEq, Repr

namespace Session

/-- The session of a configuration, with what is kept between runs. The root directory has to be
absolute. -/
def ofConfig (config : Config) (strategy : Strategy) (disk : Option SourceCache) :
    Except CoverageError Session := do
  let observer ← Observer.ofConfig config disk strategy
  if !Path.isAbsolute config.root.toList then throw (.relativeRoot config.root)
  let filter ← Path.Filter.ofConfig config
  return {
    observer := observer
    recording := { rules := ⟨config.root, filter, config.analysisSettings⟩ } }

/-- The coverage that was found. -/
def store (session : Session) : CoverageStore := session.recording.store

/-- What the session keeps between runs. -/
def disk (session : Session) : Option SourceCache :=
  match session.observer with
  | .trace => none
  | .instrument instrumentation => instrumentation.loader.disk

/-- Starts a run, which drops what an earlier run found. -/
def start (session : Session) : Session × Hooks :=
  ({ observer := session.observer.cleared
     recording := session.recording.cleared
     running := true },
   session.observer.strategy.hooks)

/-- Hands on an event. -/
def observe (session : Session) (sources : PathMap String) (event : Event) : Session :=
  if session.running then
    { session with recording := session.observer.record session.recording sources event }
  else session

/-- Answers a load, if the strategy does. -/
def intercept (session : Session) (sources : PathMap String) (request : LoadRequest) :
    Session × Option LoadAnswer :=
  match session.observer with
  | .trace => (session, none)
  | .instrument instrumentation =>
      let answer (loader : Loader) : Loader × LoadAnswer :=
        match request with
        | .module name => loader.load sources name
        | .file path => loader.loadFile sources path
      let ((next, recording), interception) :=
        instrumentation.intercept session.recording answer
      ({ session with observer := .instrument next, recording := recording }, some interception)

/-- The file that a frame of a call stack names, by a source identifier or by a path. -/
def frameFile? (session : Session) (file : String) : Option String :=
  let root := session.recording.rules.root
  match file.toList.head? with
  | some '@' => (Path.ofSourceId root file).toOption
  | some '=' => (Path.ofSourceId root file).toOption
  | _ => some (Path.normalize root file)

/-- The file and the line of its source that a frame stands for. -/
def target? (session : Session) (frame : Frame) : Option (String × Nat) := do
  let path ← session.frameFile? frame.file
  let line ← session.observer.sourceLine? path frame.line
  return (path, line)

/-- Covers the lines on the call stack of an assertion. -/
def link (session : Session) (frames : List Frame) : Session × Linkage :=
  let (store, report) := session.store.linkFrames (frames.map session.target?)
  ({ session with recording := session.recording.withStore store }, report)

/-- Stops a run and settles the store. -/
def stop (session : Session) (sources : PathMap String) : Session × RunReport :=
  let retried := session.recording.analyzeProvisional sources
  let (resolved, fixes) := retried.store.resolveAll
  let (settled, reclassified) := (retried.withStore resolved).reclassify
  let (store, repaired) := settled.store.clearContradictions
  ({ session with recording := settled.withStore store, running := false },
   { files := store.files.size
     fixes := fixes
     reclassified := reclassified
     repaired := repaired
     events := session.recording.counters })

end Session

end LuaCoverage
