import LuaCoverage.Config
import LuaCoverage.Error
import LuaCoverage.Instrument.Quoted
import LuaCoverage.Instrument.SourceMap

/-!
# Instrumenting sources

Instrumenting a source weaves calls of a tracker into it: one ahead of every statement that can run,
one into every condition that is evaluated apart from a statement start, and one at the top of every
function body. The calls carry file, line and block as literals.

A *site* is a place that reports a line and a block. No two sites report the same; the conditions
come first, then the statements in the order of the text. Lines that can run but start nothing are
*continuations*: they are reported by the site whose statement or condition spans them most closely.

A statement that starts its line gets its call on a line of its own before it. All other calls go
inline and add no line, so the source map follows from counting the calls on lines of their own.

Weaving keeps apart what belongs to the source and what was injected (`Piece`). Dropping the
injected pieces gives the source back by construction.
-/

set_option autoImplicit false

namespace LuaCoverage

open Json

/-- How a source is instrumented. -/
structure InstrumentSettings where
  /-- The global table that injected calls go through. -/
  trackerName : String
  /-- Whether function bodies report that they were entered. -/
  trackFunctions : Bool := true
  deriving DecidableEq, Repr

/-- The options of a configuration. -/
def InstrumentSettings.ofConfig (config : Config) : InstrumentSettings :=
  { trackerName := config.trackerName }

/-- A place that reports a line and a block. -/
structure Site where
  line : Nat
  block : BlockId
  /-- The other lines that a report from the site accounts for. -/
  continuation : List Nat
  deriving DecidableEq, Repr

/-- An instrumented source. -/
structure Instrumented where
  text : String
  sourceMap : SourceMap
  sites : List Site
  /-- The lines that some site accounts for. -/
  hitLines : LineSet
  /-- The lines on which functions start that report being entered. -/
  functionLines : LineSet
  deriving DecidableEq

namespace Instrument

/-! ## Choosing sites -/

/-- Where the call of a site goes. -/
inductive Placement where
  /-- Around the condition between two bytes. -/
  | condition (startByte endByte : Nat)
  /-- Ahead of the statement at a byte. -/
  | statement (byte : Nat)
  deriving DecidableEq, Repr

/-- A place that a call could go to. -/
structure Candidate where
  line : Nat
  endLine : Nat
  block : BlockId
  placement : Placement
  deriving DecidableEq, Repr

/-- All places that a call could go to: the conditions, then the statements. -/
def candidates (analysis : Analysis) : List Candidate :=
  (analysis.conditions.map fun condition =>
    ⟨condition.line, condition.endLine, condition.block,
     .condition condition.startByte condition.endByte⟩)
  ++ analysis.statements.map fun start =>
    ⟨start.line, start.endLine, start.block, .statement start.byte⟩

/-- The candidates without those that report what an earlier one reports. -/
def withoutRepeats : List Candidate → List Candidate → List Candidate
  | _, [] => []
  | earlier, candidate :: rest =>
      let isRepeat :=
        earlier.any fun other => other.line == candidate.line && other.block == candidate.block
      if isRepeat then withoutRepeats earlier rest
      else candidate :: withoutRepeats (candidate :: earlier) rest

/-- The places that calls go to. -/
def chosen (analysis : Analysis) : List Candidate :=
  withoutRepeats []
    ((candidates analysis).filter fun candidate => analysis.isExecutable candidate.line)

/-! ## Continuation lines -/

/-- The lines that can run but on which no chosen place lies. -/
def uncovered (analysis : Analysis) (places : List Candidate) : List Nat :=
  analysis.executable.toList.filter fun line => !places.any fun place => place.line == line

/-- Whether a line lies in the span of a place. -/
def spans (place : Candidate) (line : Nat) : Bool := place.line ≤ line && line ≤ place.endLine

/-- The number of the place, among places numbered from `index` on, whose span contains a line most
closely; of two spans of one length, the later. -/
def closest (line : Nat) : List Candidate → Nat → Option (Nat × Nat) → Option Nat
  | [], _, best => best.map Prod.snd
  | place :: rest, index, best =>
      let size := place.endLine - place.line
      let isCloser := match best with
        | none => true
        | some (least, _) => size ≤ least
      if spans place line && isCloser then closest line rest (index + 1) (some (size, index))
      else closest line rest (index + 1) best

/-- The sites at the chosen places, with their continuation lines. -/
def sites (analysis : Analysis) (places : List Candidate) : List Site :=
  let owners := (uncovered analysis places).map fun line => (line, closest line places 0 none)
  places.zipIdx.map fun entry =>
    ⟨entry.1.line, entry.1.block,
     (owners.filter fun owner => owner.2 == some entry.2).map Prod.fst⟩

/-- The lines that some site accounts for. -/
def hitLines (found : List Site) : LineSet :=
  found.foldl
    (fun lines site =>
      site.continuation.foldl (fun set line => set.insert line) (lines.insert site.line))
    ∅

/-! ## Calls -/

/-- The call that reports a line and a block. -/
def hitCall (tracker literal : String) (line : Nat) (block : BlockId) : String :=
  tracker ++ ".hit(" ++ literal ++ ", " ++ toString line ++ ", " ++ toString block ++ ")"

/-- The call that reports that a function was entered, as a statement. -/
def enterCall (tracker literal : String) (line : Nat) : String :=
  " " ++ tracker ++ ".enter(" ++ literal ++ ", " ++ toString line ++ ");"

/-- A text that goes in at a byte of the source. -/
structure Insertion where
  byte : Nat
  text : String
  /-- The line before which the text is a line of its own. -/
  ownLine : Option Nat
  deriving DecidableEq, Repr

/-- The characters of a source before a byte that stand on the same line. -/
def lineBefore : List Char → Nat → Nat → List Char → List Char
  | [], _, _, line => line.reverse
  | char :: rest, byte, stop, line =>
      if stop ≤ byte then line.reverse
      else lineBefore rest (byte + char.utf8Size) stop (if char = '\n' then [] else char :: line)

/-- What goes into a source for a chosen place. -/
def insertionsFor (source tracker literal : String) (place : Candidate) : List Insertion :=
  let call := hitCall tracker literal place.line place.block
  match place.placement with
  | .condition startByte endByte =>
      [⟨startByte, "(" ++ call ++ " or true) and (", none⟩, ⟨endByte, ")", none⟩]
  | .statement byte =>
      let indent := lineBefore source.toList 0 byte []
      if indent.all Text.isWhiteSpace then
        [⟨byte - (String.ofList indent).utf8ByteSize,
          String.ofList indent ++ call ++ ";\n", some place.line⟩]
      else [⟨byte, call ++ "; ", none⟩]

/-- What goes into a source for the functions that report being entered. -/
def enterInsertions (tracker literal : String) (bodies : List FunctionBody) : List Insertion :=
  bodies.map fun body => ⟨body.byte, enterCall tracker literal body.line, none⟩

/-! ## Weaving -/

/-- A piece of an instrumented source. -/
inductive Piece where
  | source (char : Char)
  | injected (text : String)
  deriving DecidableEq, Repr

/-- The characters of a piece. -/
def Piece.chars : Piece → List Char
  | source char => [char]
  | injected text => text.toList

/-- Weaves insertions, in the order of their bytes, into the characters from a byte on. -/
def weave : List Insertion → Nat → List Char → List Piece
  | insertions, _, [] => insertions.map fun insertion => .injected insertion.text
  | insertions, byte, char :: rest =>
      let (here, later) := insertions.span fun insertion => insertion.byte ≤ byte
      (here.map fun insertion => .injected insertion.text)
        ++ .source char :: weave later (byte + char.utf8Size) rest

/-- The pieces of an instrumented source. Insertions at one byte keep their order. -/
def pieces (source : String) (insertions : List Insertion) : List Piece :=
  weave (insertions.mergeSort fun first second => first.byte ≤ second.byte) 0 source.toList

/-- The source map after insertions into a text of some lines. -/
def mapAfter (lineCount : Nat) (insertions : List Insertion) : SourceMap :=
  ⟨((List.range lineCount).flatMap fun index =>
      let line := index + 1
      let added := (insertions.filter fun insertion => insertion.ownLine == some line).length
      List.replicate (added + 1) line).toArray⟩

/-! ## The transform -/

/-- Whether a text can name a global variable. -/
def isName (text : String) : Bool :=
  match text.toList with
  | [] => false
  | first :: rest =>
      Lexical.startsWord first && rest.all Lexical.continuesWord

/-- Everything that goes into a source. -/
def insertions (options : InstrumentSettings) (source : String) (analysis : Analysis)
    (fileId : String) (places : List Candidate) : List Insertion :=
  let literal := quote fileId
  places.flatMap (insertionsFor source options.trackerName literal)
    ++ if options.trackFunctions then
        enterInsertions options.trackerName literal analysis.functionBodies
      else []

/-- The instrumented form of a source that parsed. -/
def transform (options : InstrumentSettings) (source fileId : String) (analysis : Analysis) :
    Instrumented :=
  let places := chosen analysis
  let found := sites analysis places
  let all := insertions options source analysis fileId places
  { text := String.ofList ((pieces source all).flatMap Piece.chars)
    sourceMap := mapAfter (Text.lines source).length all
    sites := found
    hitLines := hitLines found
    functionLines :=
      if options.trackFunctions then
        analysis.functionBodies.foldl (fun lines body => lines.insert body.line) ∅
      else ∅ }

end Instrument

/-- Instruments a source with a given analysis. The source must have parsed, and the tracker's name
must be one that calls can go through. -/
def instrumentWith (options : InstrumentSettings) (source fileId : String) (analysis : Analysis) :
    Except CoverageError Instrumented :=
  match analysis.degraded with
  | some reason => .error (.instrumentation fileId (.noTree reason))
  | none =>
      if Instrument.isName options.trackerName then
        .ok (Instrument.transform options source fileId analysis)
      else .error (.instrumentation fileId (.badTracker options.trackerName))

/-- Analyzes and instruments a source. -/
def instrument (settings : AnalysisSettings) (options : InstrumentSettings)
    (source fileId : String) : Except CoverageError Instrumented :=
  instrumentWith options source fileId (analyze settings source fileId)

/-! ## Documents -/

/-- The document of a site. -/
def Site.toJson (site : Site) : Value :=
  .ofMembers
    [("line", .ofNat site.line), ("block", .ofNat site.block),
     ("continuation", .ofList Value.ofNat site.continuation)]

/-- Reads a site. -/
def Site.ofJson? (document : Value) : Option Site := do
  let [line, block, continuation] ← document.fields? ["line", "block", "continuation"] | none
  return {
    line := ← Value.required Value.nat32? line
    block := ← Value.required Value.nat32? block
    continuation := ← Value.required (Value.list? Value.nat32?) continuation }

/-- The document of all that an instrumented source holds besides its text. -/
def Instrumented.metadata (out : Instrumented) : Value :=
  .ofMembers
    [("sourcemap", out.sourceMap.toJson), ("sites", .ofList Site.toJson out.sites),
     ("hit_lines", numbersToJson out.hitLines), ("function_lines", numbersToJson out.functionLines)]

/-- Reads an instrumented source with a given text from all that it holds besides. -/
def Instrumented.ofMetadata? (text : String) (document : Value) : Option Instrumented := do
  let [sourceMap, sites, hitLines, functionLines] ←
    document.fields? ["sourcemap", "sites", "hit_lines", "function_lines"] | none
  return {
    text := text
    sourceMap := ← Value.required SourceMap.ofJson? sourceMap
    sites := ← Value.required (Value.list? Site.ofJson?) sites
    hitLines := ← Value.required numbersOfJson? hitLines
    functionLines := ← Value.required numbersOfJson? functionLines }

end LuaCoverage
