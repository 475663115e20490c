import LuaCoverage.Document.Records
import LuaCoverage.Store.Basic

/-!
# Linking assertions to lines

When an assertion is evaluated, the lines on its call stack are covered by it. Each frame of the
stack is traced back to a file and a line of its source; a frame that cannot be traced back, or
whose line was not executed or cannot be, is skipped.
-/

set_option autoImplicit false

namespace LuaCoverage

/-- A frame of a call stack: the file as the host reports it, and the line that was running. -/
structure Frame where
  file : String
  line : Nat
  deriving DecidableEq, Repr

/-- What became of the frames of a call stack. -/
structure Linkage where
  covered : Nat := 0
  skipped : Nat := 0
  deriving DecidableEq, Repr

/-- Covers the line of one frame, given where the frame leads. -/
def CoverageStore.linkFrame (store : CoverageStore) (report : Linkage)
    (target : Option (String × Nat)) : CoverageStore × Linkage :=
  match target with
  | none => (store, { report with skipped := report.skipped + 1 })
  | some (path, line) =>
      match store.cover path line with
      | (next, true) => (next, { report with covered := report.covered + 1 })
      | (next, false) => (next, { report with skipped := report.skipped + 1 })

/-- Covers the lines of frames, given where they lead. -/
def CoverageStore.linkFrames (store : CoverageStore) (targets : List (Option (String × Nat))) :
    CoverageStore × Linkage :=
  targets.foldl (fun progress target => progress.1.linkFrame progress.2 target) (store, {})

/-- Reads a frame. -/
def Frame.ofJson? (document : Json.Value) : Option Frame := do
  let [file, line] ← document.fields? ["file", "line"] | none
  return {
    file := ← Json.Value.required Json.Value.text? file
    line := ← Json.Value.required Json.Value.nat32? line }

/-- The document of what became of frames. -/
def Linkage.toJson (report : Linkage) : Json.Value :=
  .ofMembers [("covered", .ofNat report.covered), ("skipped", .ofNat report.skipped)]

end LuaCoverage
