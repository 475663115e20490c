import LuaCoverage.Json.DoubleRange
import LuaCoverage.Session.Basic
import LuaCoverage.Store.Snapshot

/-!
# Replaying recorded events

A replay script lists what a host reported during a run, and replaying it drives a session in the
same way. An event is an object whose member `event` says which kind it is; the other members belong
to the kind. The same can be given as an array that starts with the kind.

Which members an event has is known only after its kind was found, so an event is held in memory as
a whole before it is read. This restricts even the parts that nobody asks for: their texts must be
texts, their numbers must be within the range of double precision, and a script must not nest too
deeply.
-/

set_option autoImplicit false

namespace LuaCoverage

open Json

/-! ## Documents that can be held in memory -/

namespace Json

mutual

/-- Whether a document can be held in memory, where arrays and objects may nest so many deep. -/
def isHeld (levels : Nat) : Value → Bool
  | .null => true
  | .bool _ => true
  | .number lexeme => isInDoubleRange lexeme.toList
  | .string lexeme => (decodeText? lexeme).isSome
  | .array items =>
      match levels with
      | 0 => false
      | inner + 1 => areHeld inner items
  | .object members =>
      match levels with
      | 0 => false
      | inner + 1 => areMembersHeld inner members

/-- Whether all of some documents can be held in memory. -/
def areHeld (levels : Nat) : List Value → Bool
  | [] => true
  | item :: rest => isHeld levels item && areHeld levels rest

/-- Whether all of some members can be held in memory. -/
def areMembersHeld (levels : Nat) : List (String × Value) → Bool
  | [] => true
  | (name, value) :: rest =>
      (decodeText? name).isSome && isHeld levels value && areMembersHeld levels rest

end

end Json

/-! ## Events -/

/-- An entry of a replay script. -/
inductive ScriptEntry where
  | report (event : Event)
  | load (request : LoadRequest)
  /-- An assertion was evaluated on a call stack. -/
  | assertion (frames : List Frame)
  deriving DecidableEq, Repr

namespace ScriptEntry

/-- The kind of an event and the document of the rest. -/
def tagged? : Value → Option (String × Value)
  | .object members => do
      let named ← members.mapM fun member => (decodeText? member.1).map fun name => (name, member)
      let kind ← Value.single? "event" (named.map fun entry => (entry.1, entry.2.2))
      let word ← (← kind).text?
      return (word,
        .object ((named.filter fun entry => entry.1 != "event").map fun entry => entry.2))
  | .array (kind :: items) => do return (← kind.text?, .array items)
  | _ => none

/-- Reads two members of an event, a text and a line number. -/
def place? (names : List String) (document : Value) : Option (String × Nat) := do
  let [text, line] ← document.fields? names | none
  return (← Value.required Value.text? text, ← Value.required Value.nat32? line)

/-- Reads the only member of an event. -/
def only? {α : Type} (item? : Value → Option α) (name : String) (document : Value) : Option α := do
  let [field] ← document.fields? [name] | none
  Value.required item? field

/-- Reads the report of a hit. Without a block it is one at the top level. -/
def hitOfJson? (document : Value) : Option Event := do
  let [file, line, block] ← document.alignedFields? true ["file", "line", "block"] | none
  return .hit (← Value.required Value.text? file) (← Value.required Value.nat32? line)
    (← Value.withDefault BlockId.root Value.nat32? block)

/-- Reads an event of a given kind. -/
def ofKind? (kind : String) (document : Value) : Option ScriptEntry :=
  match kind with
  | "line" => (place? ["source", "line"] document).map fun place => .report (.line place.1 place.2)
  | "call" =>
      (place? ["source", "line_defined"] document).map fun place => .report (.call place.1 place.2)
  | "hit" => (hitOfJson? document).map report
  | "enter" => (place? ["file", "line"] document).map fun place => .report (.enter place.1 place.2)
  | "require" => (only? Value.text? "module" document).map fun name => .load (.module name)
  | "dofile" => (only? Value.text? "path" document).map fun path => .load (.file path)
  | "assert" => (only? (Value.list? Frame.ofJson?) "frames" document).map assertion
  | _ => none

/-- How deeply a script may nest. -/
def nestingLimit : Nat := 127

/-- Reads an event of a script. The script itself is one level of nesting. -/
def ofJson? (document : Value) : Option ScriptEntry := do
  if isHeld (nestingLimit - 1) document then
    let (kind, rest) ← tagged? document
    ofKind? kind rest
  else none

/-- Reads a replay script. -/
def script? (text : String) : Option (List ScriptEntry) :=
  (Json.parse text).bind (Value.list? ofJson?)

end ScriptEntry

namespace Session

/-- A session after one event of a script. -/
def replayEntry (session : Session) (sources : PathMap String) : ScriptEntry → Session
  | .report event => session.observe sources event
  | .load request => (session.intercept sources request).1
  | .assertion frames => (session.link frames).1

/-- A session after a run that consists of the events of a script. -/
def replay (session : Session) (sources : PathMap String) (events : List ScriptEntry) : Session :=
  ((events.foldl (fun next event => next.replayEntry sources event) session.start.1).stop sources).1

end Session

end LuaCoverage
