import LuaCoverage.Module.Loader
import LuaCoverage.Session.Recording

/-!
# Observing instrumented sources

Under this strategy the host asks for every module it loads. What the loader has instrumented is
adopted into the recording, along with modules that were instrumented because others require them,
and the instrumented form is remembered: its source map leads lines of the running text back, and
its sites say which further lines a hit accounts for.

The loader outlives a run. Only what was adopted is forgotten when a run starts.
-/

set_option autoImplicit false

namespace LuaCoverage

/-- The lines that a hit on a line in a block accounts for besides the line. -/
def Instrumented.continuation (out : Instrumented) (line : Nat) (block : BlockId) : List Nat :=
  match out.sites.find? fun site => site.line == line && site.block == block with
  | some site => site.continuation
  | none => []

/-- A loader, with the instrumented sources that the present run has adopted. -/
structure Instrumentation where
  loader : Loader
  adopted : PathMap Instrumented := ∅

namespace Instrumentation

/-- Forgets what was adopted. -/
def cleared (instrumentation : Instrumentation) : Instrumentation :=
  { loader := instrumentation.loader }

/-- Adopts an instrumented file, unless an instrumented form of it was adopted before. -/
def adopt (progress : Instrumentation × Recording) (loaded : InstrumentedModule) :
    Instrumentation × Recording :=
  let (instrumentation, recording) := progress
  if instrumentation.adopted.contains loaded.path then progress
  else
    let registered := recording.adopt loaded.path loaded.source loaded.analysis
    ({ instrumentation with
        adopted := instrumentation.adopted.insert loaded.path loaded.instrumented },
     registered.withStore (registered.store.modifyFile loaded.path fun file =>
       { file with instrumented := true }))

/-- Notes a file that the loader gave up, unless the store has it. -/
def noteAborted (recording : Recording) (path : String) : Recording :=
  if recording.store.files.contains path then recording else recording.dismiss path

/-- Brings a recording up to date with what the loader has done. -/
def catchUp (instrumentation : Instrumentation) (recording : Recording) :
    Instrumentation × Recording :=
  let (next, registered) :=
    instrumentation.loader.cache.values.foldl adopt (instrumentation, recording)
  (next, next.loader.aborted.toList.foldl noteAborted registered)

/-- Notes a file that is served as it is. -/
def noteUnchanged (recording : Recording) : LoadAnswer → Recording
  | .unchanged _ path _ .failed => recording.dismiss path
  | .unchanged _ path _ .depthLimit => recording.dismiss path
  | .unchanged _ path _ .excluded => recording.withStore (recording.store.note path)
  | _ => recording

/-- Answers a load in a given way, and notes in the recording what came of it. -/
def intercept (instrumentation : Instrumentation) (recording : Recording)
    (answer : Loader → Loader × LoadAnswer) :
    (Instrumentation × Recording) × LoadAnswer :=
  let (loader, interception) := answer instrumentation.loader
  let (next, synced) := { instrumentation with loader := loader }.catchUp recording
  ((next, noteUnchanged synced interception), interception)

/-- The lines that a hit on a file accounts for besides its line. -/
def continuation (instrumentation : Instrumentation) (file : String) (line : Nat)
    (block : BlockId) : List Nat :=
  match instrumentation.adopted[file]? with
  | some out => out.continuation line block
  | none => []

/-- Records an event. Hooks are not installed, so their events are ignored. -/
def record (instrumentation : Instrumentation) (recording : Recording)
    (sources : PathMap String) : Event → Recording
  | .hit file line block =>
      let (next, recorded) := recording.onHit sources file line (.block block)
      if recorded then
        next.withStore ((instrumentation.continuation file line block).foldl
          (fun store other => (store.hit file other .lineOnly).1) next.store)
      else next
  | .enter file line => (recording.onEntry file line).1
  | .line _ _ => recording.counted false
  | .call _ _ => recording.counted false

/-- The line of the source that a line of the running text came from. -/
def sourceLine? (instrumentation : Instrumentation) (file : String) (line : Nat) : Option Nat :=
  match instrumentation.adopted[file]? with
  | some out => out.sourceMap.sourceLine? line
  | none => some line

end Instrumentation

end LuaCoverage
