import LuaCoverage.Path.Filter
import LuaCoverage.Session.Event
import LuaCoverage.Store.Reclassify

/-!
# Recording a run

A recording holds what one run has found so far: the store, and for each file that came up the
decision whether it is tracked and its analysis. The first event on a file decides. A file that is
not to be tracked is only noted; a file whose source cannot be read is tracked without an analysis,
and its hits are provisional until the source can be read at the end of the run.

An event on a line is recorded if the file is tracked and the line can run, as far as is known.
-/

set_option autoImplicit false

namespace LuaCoverage

/-- What a recording goes by. -/
structure TrackingRules where
  root : String
  filter : Path.Filter
  settings : AnalysisSettings

/-- What a run has found so far. -/
structure Recording where
  rules : TrackingRules
  store : CoverageStore := .empty
  /-- The files that came up, and whether they are tracked. -/
  decided : PathMap Bool := ∅
  analyses : PathMap Analysis := ∅
  counters : EventCounts := {}

namespace Recording

/-- The recording without anything found. -/
def cleared (recording : Recording) : Recording := { rules := recording.rules }

/-! ## Files -/

/-- The recording with its store changed. -/
def withStore (recording : Recording) (store : CoverageStore) : Recording :=
  { recording with store := store }

/-- Tracks a file with an analysis of its source. -/
def adopt (recording : Recording) (path source : String) (analysis : Analysis) : Recording :=
  { recording with
    store := recording.store.track path source analysis
    decided := recording.decided.insert path true
    analyses := recording.analyses.insert path analysis }

/-- Notes a file that is not tracked, although it is not excluded. -/
def dismiss (recording : Recording) (path : String) : Recording :=
  { recording with
    store := (recording.store.note path).modifyFile path fun file =>
      { file with quality := .untracked }
    decided := recording.decided.insert path false }

/-- Notes a file that came up for the first time, and says whether it is tracked. -/
def meet (recording : Recording) (sources : PathMap String) (path : String) :
    Recording × Bool :=
  if recording.rules.filter.rule path then
    match sources[path]? with
    | some source =>
        (recording.adopt path source (analyze recording.rules.settings source path), true)
    | none => (recording.withStore (recording.store.trackUnanalyzed path), true)
  else (recording.withStore (recording.store.note path), false)

/-- Whether a file is tracked. The first time a file comes up decides. -/
def decideOn (recording : Recording) (sources : PathMap String) (path : String) :
    Recording × Bool :=
  match recording.decided[path]? with
  | some decision => (recording, decision)
  | none =>
      let (next, decision) := recording.meet sources path
      ({ next with decided := next.decided.insert path decision }, decision)

/-- Analyzes a file whose source could not be read before, if it can be read now. -/
def analyzeLate (recording : Recording) (sources : PathMap String) (path : String) : Recording :=
  if recording.analyses.contains path then recording
  else
    match sources[path]? with
    | some source => recording.adopt path source (analyze recording.rules.settings source path)
    | none => recording

/-! ## Events -/

/-- Counts an event as recorded or ignored. -/
def counted (recording : Recording) (recorded : Bool) : Recording :=
  let counters := recording.counters
  { recording with
    counters :=
      if recorded then { counters with recorded := counters.recorded + 1 }
      else { counters with ignored := counters.ignored + 1 } }

/-- Counts an event on a source that names no file. -/
def skipped (recording : Recording) : Recording :=
  { recording with
    counters := { recording.counters with skipped := recording.counters.skipped + 1 } }

/-- Whether a line of a file can run, as far as is known. -/
def mayRun (recording : Recording) (path : String) (line : Nat) : Bool :=
  match recording.analyses[path]? with
  | some analysis => analysis.isExecutable line
  | none => true

/-- Records what the store makes of an event, and says whether it was recorded. -/
def conclude (recording : Recording) (outcome : CoverageStore × Bool) : Recording × Bool :=
  ((recording.withStore outcome.1).counted outcome.2, outcome.2)

/-- Records an execution of a line, credited in a given way. -/
def onHit (recording : Recording) (sources : PathMap String) (path : String) (line : Nat)
    (attribution : Attribution) : Recording × Bool :=
  let (next, tracked) := recording.decideOn sources path
  if tracked && next.mayRun path line then next.conclude (next.store.hit path line attribution)
  else (next.counted false, false)

/-- Records an entry of a function of a file that came up before. -/
def onEntry (recording : Recording) (path : String) (line : Nat) : Recording × Bool :=
  recording.conclude (recording.store.call path line)

/-- Records a call of a function. The call of a whole chunk is ignored. -/
def onCall (recording : Recording) (sources : PathMap String) (path : String) (line : Nat) :
    Recording × Bool :=
  if line = 0 then (recording.counted false, false)
  else
    let (next, tracked) := recording.decideOn sources path
    if tracked then next.onEntry path line else (next.counted false, false)

/-- Records what a hook reported about a source, if the source names a file. -/
def onSource (recording : Recording) (source : String) (record : String → Recording) : Recording :=
  match Path.ofSourceId recording.rules.root source with
  | .ok path => record path
  | .error _ => recording.skipped

/-- Records a call that a hook reported. The block of a function that lies on one line alone is
credited with the call, because no line event tells it from its surroundings. -/
def onHookedCall (recording : Recording) (sources : PathMap String) (line : Nat)
    (path : String) : Recording :=
  let (next, called) := recording.onCall sources path line
  if called then next.withStore (next.store.callInline path line).1 else next

/-- Records an event of a run that is observed through hooks. Instrumented sources may run among
others. -/
def onTraced (recording : Recording) (sources : PathMap String) : Event → Recording
  | .line source line =>
      recording.onSource source fun path => (recording.onHit sources path line .line).1
  | .call source line => recording.onSource source (recording.onHookedCall sources line)
  | .hit file line block => (recording.onHit sources file line (.block block)).1
  | .enter file line => (recording.onCall sources file line).1

/-! ## The end of a run -/

/-- Analyzes the files whose hits are still provisional, where their sources can be read now. -/
def analyzeProvisional (recording : Recording) (sources : PathMap String) : Recording :=
  let waiting := recording.store.files.toList.filter fun entry =>
    entry.2.active && entry.2.isProvisional
  waiting.foldl (fun next entry => next.analyzeLate sources entry.1) recording

/-- A file settled against its analysis, if there is one, and how many line records changed. -/
def settledFile (recording : Recording) (path : String) (file : FileRecord) : FileRecord × Nat :=
  match recording.analyses[path]? with
  | some analysis => file.reclassify analysis
  | none => (file, 0)

/-- Settles every file that has an analysis against it, and counts the line records that changed. -/
def reclassify (recording : Recording) : Recording × Nat :=
  let files := recording.store.files
  (recording.withStore ⟨files.map fun path file => (recording.settledFile path file).1⟩,
   files.foldl (fun changed path file => changed + (recording.settledFile path file).2) 0)

end Recording

end LuaCoverage
