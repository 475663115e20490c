import LuaCoverage.Analysis.Basic
import LuaCoverage.Proofs.Analysis.OutlinePlaces

/-!
# Sources that parse

An analysis that is not degraded comes from a syntax tree (`exists_tree_of_parsed`). The body of
that tree tiles the source behind a byte order mark and the shebang line, so all that the analysis
lists lies in the source as tokens do (`analyze_liesIn`).
-/

set_option autoImplicit false

namespace LuaCoverage

open Syntax

variable {settings : AnalysisSettings} {source fileId : String}

/-- An analysis that is not degraded comes from a tree. -/
theorem exists_tree_of_parsed (parsed : (analyze settings source fileId).degraded = none) :
    ∃ tree, parse? source = some tree ∧
      analyze settings source fileId = .ofTree settings source fileId tree := by
  unfold analyze at parsed ⊢
  split at parsed
  · cases parsed
  · rename_i fits
    rw [if_neg fits]
    cases isParsed : parse? source with
    | none =>
        rw [isParsed] at parsed
        cases parsed
    | some tree => exact ⟨tree, rfl, rfl⟩

/-- The parts of a body that tiles a source lie in it. -/
theorem placed_of_mem {source before text : List Char} {body : List Node} {node : Node}
    (isSource : source = before ++ text)
    (tiled : Tiled (Position.start.advance before) text (leavesAll body)) (member : node ∈ body)
    (proper : Proper node) : Placed source node := by
  obtain ⟨front, back, rfl⟩ := List.append_of_mem member
  refine ⟨proper, before, text, leavesAll front, leavesAll back, isSource, ?_⟩
  rw [leavesAll_append, leavesAll_cons, ← List.append_assoc] at tiled
  exact tiled

/-- The outline of a tree for a source is that of its body. -/
theorem ofTree_chunk (source : String) {asides : List Node} (all : ∀ node ∈ asides, IsAside node)
    (span : Span) (body : List Node) :
    Outline.ofTree source (.inner .chunk span (asides ++ body)) =
      (Outline.walkStatements source BlockId.root body ⟨1, 1⟩).1 := by
  rw [Outline.ofTree, Outline.walk, Outline.walkStatements_asides source _ all]

/-- **The places of an outline are those of trees in the source.** -/
theorem from_ofTree {tree : Node} (isParsed : parse? source = some tree) :
    Outline.From (Placed source.toList) (Outline.ofTree source tree) := by
  obtain ⟨before, text, asides, body, span, isSource, rfl, all, tiled, proper⟩ :=
    exists_tiled_of_parse isParsed
  rw [ofTree_chunk source all]
  exact Outline.from_walkStatements (fun _ placed _ member => placed.of_mem_children member) source
    _ body (fun node member => placed_of_mem isSource tiled member (proper node member).1) _

section OfTree

variable (settings : AnalysisSettings) (source fileId : String) (tree : Node)

@[simp]
theorem ofTree_lines : (Analysis.ofTree settings source fileId tree).lines =
    Analysis.overlay settings.policy (Analysis.lineTypes tree)
      (classifyText settings.policy (Text.lines source)) := by
  simp only [Analysis.ofTree]

@[simp]
theorem ofTree_executable : (Analysis.ofTree settings source fileId tree).executable =
    Analysis.executableLines (Analysis.ofTree settings source fileId tree).lines := by
  simp only [Analysis.ofTree]

@[simp]
theorem ofTree_statements : (Analysis.ofTree settings source fileId tree).statements =
    (Outline.ofTree source tree).statements := by
  simp only [Analysis.ofTree]

@[simp]
theorem ofTree_conditions : (Analysis.ofTree settings source fileId tree).conditions =
    (Outline.ofTree source tree).conditions := by
  simp only [Analysis.ofTree]

@[simp]
theorem ofTree_functionBodies : (Analysis.ofTree settings source fileId tree).functionBodies =
    (Outline.ofTree source tree).bodies := by
  simp only [Analysis.ofTree]

@[simp]
theorem ofTree_functions : (Analysis.ofTree settings source fileId tree).functions =
    (Outline.ofTree source tree).functions := by
  simp only [Analysis.ofTree]

@[simp]
theorem ofTree_blocks : (Analysis.ofTree settings source fileId tree).blocks =
    (Analysis.tableOf (Outline.ofTree source tree).blocks).1.resolve.1 := by
  simp only [Analysis.ofTree]

end OfTree

/-- What an analysis lists lies in a source as tokens do. -/
structure Analysis.LiesIn (source : List Char) (analysis : Analysis) : Prop where
  statements : ∀ statement ∈ analysis.statements, ∃ span, Located source span ∧
    statement.line = span.first.line ∧ statement.endLine = span.lastLine ∧
    statement.byte = span.first.byte
  conditions : ∀ condition ∈ analysis.conditions, ∃ span, Located source span ∧
    condition.line = span.first.line ∧ condition.endLine = span.lastLine ∧
    condition.startByte = span.first.byte ∧ condition.endByte = span.last.byte
  bodies : ∀ body ∈ analysis.functionBodies, ∃ span, Located source span ∧
    body.byte = span.last.byte

/-- **All that the analysis of a parsed source lists lies in it.** -/
theorem analyze_liesIn (parsed : (analyze settings source fileId).degraded = none) :
    (analyze settings source fileId).LiesIn source.toList := by
  obtain ⟨tree, isParsed, isAnalysis⟩ := exists_tree_of_parsed parsed
  have places := from_ofTree isParsed
  rw [isAnalysis]
  refine ⟨fun statement member => ?_, fun condition member => ?_, fun body member => ?_⟩
  · rw [ofTree_statements] at member
    obtain ⟨node, placed, place⟩ := places.statements statement member
    exact ⟨node.span, placed.located, place⟩
  · rw [ofTree_conditions] at member
    obtain ⟨node, placed, place⟩ := places.conditions condition member
    exact ⟨node.span, placed.located, place⟩
  · rw [ofTree_functionBodies] at member
    obtain ⟨node, placed, place⟩ := places.bodies body member
    exact ⟨node.span, placed.located, place⟩

end LuaCoverage
