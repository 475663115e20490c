import LuaCoverage.Store.Assertion

/-!
# What a host reports

A run is observed in one of two ways: the host reports the lines and calls that its interpreter
hooks see, or instrumented sources report their own execution. Either way the library receives
events. Hooks name a source as the interpreter does, with a source identifier; injected calls name
the file they were injected into.
-/

set_option autoImplicit false

namespace LuaCoverage

/-- How a run is observed. -/
inductive Strategy where
  /-- Through the interpreter's line and call hooks. -/
  | trace
  /-- Through calls in instrumented sources. -/
  | instrument
  deriving DecidableEq, Repr

namespace Strategy

/-- The word for a strategy. -/
def word : Strategy → String
  | trace => "trace"
  | instrument => "instrument"

/-- The document of a strategy. -/
def toJson (strategy : Strategy) : Json.Value := .ofString strategy.word

/-- Reads a strategy. -/
def ofJson? : Json.Value → Option Strategy :=
  Json.Value.choice? (memberNamed? [trace, instrument] word)

/-- Reads the name of a strategy as a user types it, in letters of either case. -/
def parse? (text : String) : Option Strategy :=
  let name := text.map Char.toLower
  if name = "trace" then some trace
  else if name = "instrument" || name = "instrumentation" then some instrument
  else none

/-- The message for a text that names no strategy. -/
def unknownMessage (text : String) : String := "Unknown strategy: " ++ text

end Strategy

/-- The interpreter hooks that a host has to install. -/
structure Hooks where
  line : Bool
  call : Bool
  deriving DecidableEq, Repr

/-- Whether no hook has to be installed. -/
def Hooks.isEmpty (hooks : Hooks) : Bool := !hooks.line && !hooks.call

/-- The hooks that a strategy needs. -/
def Strategy.hooks : Strategy → Hooks
  | .trace => ⟨true, true⟩
  | .instrument => ⟨false, false⟩

/-- Something that happens while a program runs. -/
inductive Event where
  /-- The line hook saw a line of a source. -/
  | line (source : String) (line : Nat)
  /-- The call hook saw a call of the function that starts on a line; line 0 stands for a whole
  chunk. -/
  | call (source : String) (line : Nat)
  /-- An injected call reported a line and a block. -/
  | hit (file : String) (line : Nat) (block : BlockId)
  /-- An injected call reported that the function that starts on a line was entered. -/
  | enter (file : String) (line : Nat)
  deriving DecidableEq, Repr

/-- What became of the events of a run. -/
structure EventCounts where
  recorded : Nat := 0
  /-- Events on files that are not tracked or lines that cannot run. -/
  ignored : Nat := 0
  /-- Events on sources that name no file. -/
  skipped : Nat := 0
  deriving DecidableEq, Repr

/-- The document of hooks. -/
def Hooks.toJson (hooks : Hooks) : Json.Value :=
  .ofMembers [("line", .bool hooks.line), ("call", .bool hooks.call)]

/-- The document of what became of events. -/
def EventCounts.toJson (counters : EventCounts) : Json.Value :=
  .ofMembers
    [("recorded", .ofNat counters.recorded), ("ignored", .ofNat counters.ignored),
     ("skipped", .ofNat counters.skipped)]

end LuaCoverage
