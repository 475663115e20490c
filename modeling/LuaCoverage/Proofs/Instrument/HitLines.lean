import LuaCoverage.Proofs.Analysis.MarkedLines
import LuaCoverage.Proofs.Instrument.Faithful

/-!
# Which lines calls account for

A line that can run is accounted for exactly when it lies in the span of a statement or a condition
that begins on a line that can run and is the first to report that line in its block
(`mem_hitLines_instrument`). A statement that begins on the line of an earlier one in the same block
gets no call, so its other lines are lost unless something else spans them.

Lines that no statement and no condition spans are rare among those that can run: every token of a
parsed source belongs to a statement of its body, so such a line either holds no token or belongs to
a label or an empty statement outside all blocks (`spanned_or_stray`).
-/

set_option autoImplicit false

namespace LuaCoverage.Instrument

open Syntax

/-- A line that some call accounts for: it lies in the span of a statement or a condition that
begins on a line that can run, and nothing before reports the same line and block. -/
def Reported (analysis : Analysis) (line : Nat) : Prop :=
  ∃ front place back, candidates analysis = front ++ place :: back ∧ spans place line = true ∧
    analysis.isExecutable place.line = true ∧ ∀ other ∈ front, ¬ ReportsSame other place

/-- A line without any token, or one of a label or an empty statement outside all blocks. -/
def Stray (source : String) (line : Nat) : Prop :=
  ∃ tree, parse? source = some tree ∧ ((Analysis.lineTypes tree)[line]? = none ∨
    ∃ node ∈ tree.children,
      (node.isConstruct .emptyStatement = true ∨ node.isConstruct .labelStatement = true) ∧
        node.firstLine ≤ line ∧ line ≤ node.lastLine)

theorem spans_iff {place : Candidate} {line : Nat} :
    spans place line = true ↔ place.line ≤ line ∧ line ≤ place.endLine := by
  rw [spans, Bool.and_eq_true, decide_eq_true_iff, decide_eq_true_iff]

theorem mem_leavesAll {leaf : Leaf × Span} {nodes : List Node} (member : leaf ∈ leavesAll nodes) :
    ∃ node ∈ nodes, leaf ∈ node.leaves := by
  induction nodes with
  | nil => exact absurd member List.not_mem_nil
  | cons first rest ih =>
      rcases List.mem_append.mp member with own | other
      · exact ⟨first, List.mem_cons_self, own⟩
      · obtain ⟨node, isNode, isLeaf⟩ := ih other
        exact ⟨node, List.mem_cons_of_mem _ isNode, isLeaf⟩

/-- What never runs on its own and holds a token other than a comment is a label or an empty
statement. -/
theorem construct_of_isInert {node : Node} (inert : Outline.isInert node = true)
    {leaf : Leaf × Span} (member : leaf ∈ node.leaves) (notComment : leaf.1 ≠ .comment)
    (notShebang : leaf.1 ≠ .shebang) :
    node.isConstruct .emptyStatement = true ∨ node.isConstruct .labelStatement = true := by
  cases node with
  | leaf kind span =>
      obtain rfl := List.mem_singleton.mp member
      cases kind with
      | comment => exact absurd rfl notComment
      | shebang => exact absurd rfl notShebang
      | _ => cases inert
  | inner construct span children =>
      cases construct with
      | emptyStatement => exact .inl rfl
      | labelStatement => exact .inr rfl
      | _ => cases inert

section Instrument

variable {settings : AnalysisSettings} {source fileId : String}

/-- **Every line that can run lies in the span of a statement or a condition**, unless it holds no
token or belongs to a label or an empty statement outside all blocks. -/
theorem spanned_or_stray (parsed : (analyze settings source fileId).degraded = none) {line : Nat}
    (runs : (analyze settings source fileId).isExecutable line = true) :
    (∃ place ∈ candidates (analyze settings source fileId), spans place line = true) ∨
      Stray source line := by
  obtain ⟨tree, isParsed, isAnalysis⟩ := exists_tree_of_parsed parsed
  rw [isAnalysis] at runs ⊢
  rw [Analysis.isExecutable, ← Std.ExtTreeSet.mem_iff_contains, ofTree_executable, ofTree_lines]
    at runs
  rcases Analysis.exists_leaf_of_executable runs with tokenless | ⟨leaf, isLeaf, notComment,
    notShebang, isLine⟩
  · exact .inr ⟨tree, isParsed, .inl tokenless⟩
  obtain ⟨before, text, asides, body, span, isSource, rfl, all, tiled, proper⟩ :=
    exists_tiled_of_parse isParsed
  rw [Node.leaves, leavesAll_append] at isLeaf
  rcases List.mem_append.mp isLeaf with inAside | inBody
  · obtain ⟨node, isNode, inNode⟩ := mem_leavesAll inAside
    rcases all node isNode with ⟨own, rfl⟩ | ⟨own, rfl⟩
    · obtain rfl := List.mem_singleton.mp inNode
      exact absurd rfl notShebang
    · obtain rfl := List.mem_singleton.mp inNode
      exact absurd rfl notComment
  · obtain ⟨node, isNode, inNode⟩ := mem_leavesAll inBody
    have placed := placed_of_mem isSource tiled isNode (proper node isNode).1
    have lines := placed.lines_of_mem_leaves inNode
    rw [isLine] at lines
    cases inert : Outline.isInert node with
    | false =>
        have isStatement := Outline.mem_walkStatements source BlockId.root isNode
          (proper node isNode).2 inert ⟨1, 1⟩
        rw [← ofTree_chunk source all span, ← ofTree_statements settings source fileId]
          at isStatement
        exact .inl ⟨_, List.mem_append_right _ (List.mem_map_of_mem isStatement),
          spans_iff.mpr lines⟩
    | true =>
        exact .inr ⟨_, isParsed, .inr ⟨node, List.mem_append_right _ isNode,
          construct_of_isInert inert inNode notComment notShebang, lines⟩⟩

/-- No place ends before the line it begins on. -/
theorem line_le_endLine {analysis : Analysis} {source : List Char} (lies : analysis.LiesIn source)
    {place : Candidate} (member : place ∈ candidates analysis) : place.line ≤ place.endLine := by
  rcases List.mem_append.mp member with ofCondition | ofStatement
  · obtain ⟨condition, isCondition, rfl⟩ := List.mem_map.mp ofCondition
    obtain ⟨span, located, isLine, isEnd, -⟩ := lies.conditions condition isCondition
    simp only [isLine, isEnd]
    exact located.lines.2
  · obtain ⟨start, isStart, rfl⟩ := List.mem_map.mp ofStatement
    obtain ⟨span, located, isLine, isEnd, -⟩ := lies.statements start isStart
    simp only [isLine, isEnd]
    exact located.lines.2

theorem mem_hitLines_iff_reported {analysis : Analysis} {source : List Char}
    (lies : analysis.LiesIn source) {line : Nat} :
    line ∈ hitLines (sites analysis (chosen analysis)) ↔
      analysis.isExecutable line = true ∧ Reported analysis line := by
  rw [mem_hitLines_chosen fun place member => line_le_endLine lies member]
  refine and_congr_right fun _ => ?_
  constructor
  · rintro ⟨place, member, inside⟩
    obtain ⟨runs, front, back, split, news⟩ := mem_chosen_iff.mp member
    exact ⟨front, place, back, split, inside, runs, news⟩
  · rintro ⟨front, place, back, split, inside, runs, news⟩
    exact ⟨place, mem_chosen_iff.mpr ⟨runs, front, back, split, news⟩, inside⟩

/-- **What begins on a line that can run is reported**: the first place that reports the same is
chosen. -/
theorem exists_site_reporting {analysis : Analysis} {place : Candidate}
    (member : place ∈ candidates analysis) (runs : analysis.isExecutable place.line = true) :
    ∃ site ∈ sites analysis (chosen analysis),
      site.line = place.line ∧ site.block = place.block := by
  let same := fun other : Candidate => other.line == place.line && other.block == place.block
  have isSame : ∀ {other}, same other = true ↔ ReportsSame other place := by
    intro other
    simp only [same, ReportsSame, Bool.and_eq_true, beq_iff_eq]
  obtain ⟨first, isFirst⟩ : ∃ first, (candidates analysis).find? same = some first := by
    rw [← Option.isSome_iff_exists, List.find?_isSome]
    exact ⟨place, member, isSame.mpr ⟨rfl, rfl⟩⟩
  obtain ⟨reports, front, back, split, news⟩ := List.find?_eq_some_iff_append.mp isFirst
  obtain ⟨isLine, isBlock⟩ := isSame.mp reports
  have isChosen : first ∈ chosen analysis := by
    refine mem_chosen_iff.mpr ⟨isLine ▸ runs, front, back, split, ?_⟩
    intro other inFront sameAsFirst
    have notSame := news other inFront
    rw [isSame.mpr ⟨sameAsFirst.1.trans isLine, sameAsFirst.2.trans isBlock⟩] at notSame
    cases notSame
  obtain ⟨site, isSite, onLine, inBlock⟩ := exists_site analysis isChosen
  exact ⟨site, isSite, onLine.trans isLine, inBlock.trans isBlock⟩

/-- A line that can run has a site if a statement or a condition begins on it. -/
theorem exists_site_of_begins {analysis : Analysis} {place : Candidate}
    (member : place ∈ candidates analysis) (runs : analysis.isExecutable place.line = true) :
    ∃ site ∈ sites analysis (chosen analysis), site.line = place.line := by
  obtain ⟨site, isSite, onLine, -⟩ := exists_site_reporting member runs
  exact ⟨site, isSite, onLine⟩

/-- **Which lines calls account for.** The lines that sites account for are those that can run and
are reported. A line that can run on which a statement or a condition begins has a site of its own,
and only stray lines lie in the span of no statement and no condition at all. -/
theorem mem_hitLines_instrument {options : InstrumentSettings}
    (parsed : (analyze settings source fileId).degraded = none)
    (valid : isName options.trackerName = true) :
    let analysis := analyze settings source fileId
    ∃ out, instrument settings options source fileId = .ok out ∧ ∀ line,
      (line ∈ out.hitLines ↔ ∃ site ∈ out.sites, line = site.line ∨ line ∈ site.continuation) ∧
      (line ∈ out.hitLines ↔ analysis.isExecutable line = true ∧ Reported analysis line) ∧
      (analysis.isExecutable line = true → (∃ place ∈ candidates analysis, place.line = line) →
        ∃ site ∈ out.sites, site.line = line) ∧
      (analysis.isExecutable line = true →
        (∃ place ∈ candidates analysis, spans place line = true) ∨ Stray source line) := by
  refine ⟨_, instrument_eq fileId parsed valid, fun line => ⟨mem_hitLines_iff,
    mem_hitLines_iff_reported (analyze_liesIn parsed), ?_, spanned_or_stray parsed⟩⟩
  rintro runs ⟨place, member, rfl⟩
  exact exists_site_of_begins member runs

set_option maxRecDepth 20000 in
/-- The second line of a call is accounted for by the statement that the call is. -/
theorem mem_hitLines_instrument_call :
    (analyze ⟨.nonExecutable, 100⟩ "f(\n1)\n" "p").degraded = none ∧ isName "cov" = true ∧
      ∃ out, instrument ⟨.nonExecutable, 100⟩ ⟨"cov", true⟩ "f(\n1)\n" "p" = .ok out ∧
        2 ∈ out.hitLines := by
  have parsed : (analyze ⟨.nonExecutable, 100⟩ "f(\n1)\n" "p").degraded = none := by decide +kernel
  have valid : isName "cov" = true := by decide
  have places : candidates (analyze ⟨.nonExecutable, 100⟩ "f(\n1)\n" "p") =
      [⟨1, 2, 0, .statement 0⟩] := by decide +kernel
  obtain ⟨out, isOut, found⟩ := @mem_hitLines_instrument _ _ "p" ⟨"cov", true⟩ parsed valid
  refine ⟨parsed, valid, out, isOut, (found 2).2.1.mpr ⟨by decide +kernel, ?_⟩⟩
  exact ⟨[], _, [], places, rfl, by decide +kernel, fun _ none => absurd none List.not_mem_nil⟩

set_option maxRecDepth 20000 in
/-- The second line of a statement that begins on the line of another is not accounted for, although
it can run. -/
theorem not_mem_hitLines_second :
    (analyze ⟨.nonExecutable, 100⟩ "a = 1; b = f(\n1)\n" "p").degraded = none ∧
      isName "cov" = true ∧
      (analyze ⟨.nonExecutable, 100⟩ "a = 1; b = f(\n1)\n" "p").isExecutable 2 = true ∧
      ∃ out, instrument ⟨.nonExecutable, 100⟩ ⟨"cov", true⟩ "a = 1; b = f(\n1)\n" "p" = .ok out ∧
        2 ∉ out.hitLines := by
  have parsed : (analyze ⟨.nonExecutable, 100⟩ "a = 1; b = f(\n1)\n" "p").degraded = none := by
    decide +kernel
  have valid : isName "cov" = true := by decide
  exact ⟨parsed, valid, by decide +kernel, _, instrument_eq "p" parsed valid, by decide +kernel⟩

end Instrument

end LuaCoverage.Instrument
