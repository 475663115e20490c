import LuaCoverage.Proofs.Analysis.UnrunAnalysis
import LuaCoverage.Proofs.Instrument.FunctionExtents
import LuaCoverage.Proofs.Instrument.HitLines

/-!
# Who reports the lines of a function's body

A line that starts nothing is reported by the site whose span of it is the shortest, and of several
with that length by the last. Nothing makes this a site in the function whose body the line is in:
if the statement there got no call, or if the line belongs to no statement that runs, then the
shortest span left may be that of the statement that defines the function.

Which it is can be told from the places with calls (`Keeps`): the line stays in the function exactly
if one of its places spans the line and is not beaten from outside. That takes a place outside on
exactly the lines of the function, so a place in it that is shorter than the function is safe, and
so is a statement, which comes later than all that is around it
(`continuation_in_function_iff`).
-/

set_option autoImplicit false

namespace LuaCoverage

open Syntax

namespace Instrument

/-- Whether a call goes ahead of a statement. -/
def Candidate.isStatement (place : Candidate) : Bool :=
  match place.placement with
  | .condition _ _ => false
  | .statement _ => true

/-- Whether a function keeps the report of a line to itself: one of its chosen places spans the
line, and it is a statement, or has fewer lines than the function, or no chosen statement outside
the function has exactly its lines. -/
def Keeps (analysis : Analysis) (function : BlockRecord) (line : Nat) : Prop :=
  ∃ place ∈ chosen analysis, analysis.blocks.Within function.id place.block ∧
    spans place line = true ∧
    (place.isStatement = true ∨
      place.endLine - place.line < function.endLine - function.startLine ∨
      ∀ other ∈ chosen analysis, other.isStatement = true → other.line = function.startLine →
        other.endLine = function.endLine → analysis.blocks.Within function.id other.block)

/-! ## The place that spans a line of a body most closely -/

section Owners

open Outline

variable {function : BlockRecord} {limit line : Nat} {outline : Outline}

/-- How the order of two places bears on a function: conditions come first, and of two conditions
or two statements, one outside the function that comes later than one in it lies behind it. -/
structure Ranked (function : BlockRecord) (limit : Nat) (first later : Candidate) : Prop where
  sorts : first.isStatement = true → later.isStatement = true
  behind : first.isStatement = later.isStatement → function.Owns limit first.block →
    ¬ function.Owns limit later.block → function.endLine ≤ later.line

theorem isStatement_of_mem {place : Candidate} (member : place ∈ outline.statementPlaces) :
    place.isStatement = true := by
  obtain ⟨start, -, rfl⟩ := List.mem_map.mp member
  rfl

theorem isStatement_of_mem_conditions {place : Candidate}
    (member : place ∈ outline.conditionPlaces) : place.isStatement = false := by
  obtain ⟨condition, -, rfl⟩ := List.mem_map.mp member
  rfl

theorem pairwise_ranked (bounds : Bounds function limit outline) :
    outline.places.Pairwise (Ranked function limit) := by
  refine List.pairwise_append.mpr ⟨?_, ?_, fun first member later member' => ?_⟩
  · refine bounds.conditions.ordered.imp_of_mem fun member member' behind => ⟨?_, fun _ => behind⟩
    rw [isStatement_of_mem_conditions member]
    exact nofun
  · refine bounds.statements.ordered.imp_of_mem fun member member' behind => ⟨?_, fun _ => behind⟩
    exact fun _ => isStatement_of_mem member'
  · refine ⟨fun _ => isStatement_of_mem member', ?_⟩
    rw [isStatement_of_mem_conditions member, isStatement_of_mem member']
    exact nofun

/-- What is in a function lies on its lines, and what spans a line between its first and its last
from outside lies around it. -/
theorem bounds_of_spans (bounds : Bounds function limit outline) {place : Candidate}
    (member : place ∈ outline.places) (inside : spans place line = true)
    (starts : function.startLine < line) (ends : line < function.endLine) :
    (function.Owns limit place.block →
      function.startLine ≤ place.line ∧ place.endLine ≤ function.endLine) ∧
    (¬ function.Owns limit place.block →
      place.line ≤ function.startLine ∧ function.endLine ≤ place.endLine) := by
  have around (beside : Beside function place) :
      place.line ≤ function.startLine ∧ function.endLine ≤ place.endLine := by
    obtain ⟨begins, stops⟩ := spans_iff.mp inside
    rcases beside with before | behind | around
    · exact absurd (Nat.le_trans stops before) (Nat.not_le_of_lt starts)
    · exact absurd (Nat.le_trans behind begins) (Nat.not_le_of_lt ends)
    · exact around
  rcases List.mem_append.mp member with isCondition | isStatement
  · exact ⟨bounds.conditions.inside place isCondition,
      fun foreign => around (bounds.conditions.outside place isCondition foreign)⟩
  · exact ⟨bounds.statements.inside place isStatement,
      fun foreign => around (bounds.statements.outside place isStatement foreign)⟩

/-- **Whether the place that spans a line of a body most closely is in the function.** -/
theorem owns_owner_iff (bounds : Bounds function limit outline) {front back : List Candidate}
    {owner : Candidate} (kept : (front ++ owner :: back).Sublist outline.places)
    (isOwner : IsOwner line front owner back) (starts : function.startLine < line)
    (ends : line < function.endLine) :
    function.Owns limit owner.block ↔ ∃ place ∈ front ++ owner :: back,
      function.Owns limit place.block ∧ spans place line = true ∧
      (place.isStatement = true ∨
        place.endLine - place.line < function.endLine - function.startLine ∨
        ∀ other ∈ front ++ owner :: back, other.isStatement = true →
          other.line = function.startLine → other.endLine = function.endLine →
          function.Owns limit other.block) := by
  obtain ⟨-, behind, early⟩ := List.pairwise_append.mp ((pairwise_ranked bounds).sublist kept)
  have isOwn : owner ∈ front ++ owner :: back := List.mem_append_right _ List.mem_cons_self
  constructor
  · intro owned
    refine ⟨owner, isOwn, owned, isOwner.spans, ?_⟩
    by_cases isStatement : owner.isStatement = true
    · exact .inl isStatement
    by_cases shorter : owner.endLine - owner.line < function.endLine - function.startLine
    · exact .inr (.inl shorter)
    refine .inr (.inr fun other member isStatement' isLine isEnd => ?_)
    rcases List.mem_append.mp member with inFront | atOrBehind
    · exact absurd ((early other inFront owner List.mem_cons_self).sorts isStatement') isStatement
    rcases List.mem_cons.mp atOrBehind with rfl | inBack
    · exact owned
    -- a statement on the lines of the function spans the line as closely, and comes later
    · refine absurd (isOwner.less other inBack ?_) ?_
      · exact spans_iff.mpr ⟨isLine ▸ Nat.le_of_lt starts, isEnd ▸ Nat.le_of_lt ends⟩
      · rwa [isLine, isEnd]
  · rintro ⟨place, member, owned, inside, safe⟩
    by_contra foreign
    obtain ⟨begins, stops⟩ := (bounds_of_spans bounds (kept.subset isOwn) isOwner.spans starts
      ends).2 foreign
    obtain ⟨begins', stops'⟩ := (bounds_of_spans bounds (kept.subset member) inside starts
      ends).1 owned
    -- the place lies inside the owner, so it is no longer, and has to come first
    have inFront : place ∈ front := by
      rcases List.mem_append.mp member with inFront | atOrBehind
      · exact inFront
      rcases List.mem_cons.mp atOrBehind with rfl | inBack
      · exact absurd owned foreign
      · have less := isOwner.less place inBack inside
        omega
    have atMost := isOwner.atMost place inFront inside
    have ranked := early place inFront owner List.mem_cons_self
    have differs : place.isStatement ≠ owner.isStatement := fun same =>
      absurd (ranked.behind same owned foreign) (by omega)
    have isStatement : owner.isStatement = true ∧ place.isStatement = false := by
      cases isStatement : place.isStatement with
      | true => exact absurd (isStatement.trans (ranked.sorts isStatement).symm) differs
      | false => exact ⟨Bool.eq_true_of_not_eq_false fun same =>
          differs (isStatement.trans same.symm), rfl⟩
    rcases safe with isStatement' | shorter | alone
    · exact Bool.false_ne_true (isStatement.2.symm.trans isStatement')
    · omega
    · exact foreign (alone owner isOwn isStatement.1 (by omega) (by omega))

end Owners

/-! ## Continuation lines in bodies -/

section Instrument

variable {settings : AnalysisSettings} {source fileId : String} {options : InstrumentSettings}

/-- A part of a function ends on no earlier line than the function begins on. -/
theorem startLine_le_of_mem_sites {tree : Node} (isParsed : parse? source = some tree)
    {function : BlockRecord} {node part : Node}
    (isSite : (function, node) ∈ Outline.sites source tree) (isPart : part ∈ node.children) :
    function.startLine ≤ part.lastLine := by
  obtain ⟨-, next, sited⟩ := Outline.sited_of_parse isParsed
  have placed := Outline.placed_of_mem_sites isParsed isSite
  calc function.startLine = node.firstLine := sited.begins _ isSite
    _ ≤ part.firstLine := (placed.lines_of_mem_children isPart).1
    _ ≤ part.lastLine := (Outline.inOrder_children (placed.of_mem_children isPart)).lines

/-- A continuation line strictly between the first and the last line of a function. -/
theorem within_iff_keeps {tree : Node} (isParsed : parse? source = some tree)
    {function : BlockRecord} (isBlock : function ∈ (Outline.ofTree source tree).blocks)
    (isFunction : function.kind = .function) {analysis : Analysis}
    (isAnalysis : analysis = .ofTree settings source fileId tree) {site : Site}
    (member : site ∈ sites analysis (chosen analysis)) {line : Nat}
    (continues : line ∈ site.continuation) (starts : function.startLine < line)
    (ends : line < function.endLine) :
    analysis.blocks.Within function.id site.block ↔ Keeps analysis function line := by
  obtain ⟨limit, less, bounds⟩ := Outline.exists_bounds_of_parse isParsed isBlock isFunction
  have parents : Outline.HasParents analysis.blocks (Outline.ofTree source tree) :=
    isAnalysis ▸ Outline.hasParents_ofTree isParsed
  have kept : (chosen analysis).Sublist (Outline.ofTree source tree).places := by
    have sublist := chosen_sublist analysis
    rwa [isAnalysis, Outline.candidates_ofTree, ← isAnalysis] at sublist
  have within {place : Candidate} (isChosen : place ∈ chosen analysis) :
      function.Owns limit place.block ↔ analysis.blocks.Within function.id place.block :=
    Outline.owns_iff_within isParsed parents bounds less
      (Outline.block_of_mem_places isParsed (kept.subset isChosen))
  obtain ⟨-, front, owner, back, split, -, sameBlock, isOwner⟩ :=
    exists_owner_of_continues member continues
  have owns := owns_owner_iff bounds (split ▸ kept) isOwner starts ends
  rw [← split] at owns
  rw [← sameBlock, ← within (split ▸ List.mem_append_right _ List.mem_cons_self), owns, Keeps]
  refine exists_congr fun place => and_congr_right fun isChosen => ?_
  refine and_congr (within isChosen) (and_congr_right fun _ => or_congr_right (or_congr_right ?_))
  exact forall_congr' fun other => forall_congr' fun isChosen' =>
    forall_congr' fun _ => forall_congr' fun _ => forall_congr' fun _ => within isChosen'

/-- **Who reports the lines of a function's body.** A line behind the parameter list of a function
and before its last line, if it is a continuation of a site, is one of a site in the function
exactly if the function keeps it: if one of its places with a call spans the line and is a
statement, or is shorter than the function, or no statement with a call outside the function is on
exactly its lines. -/
theorem continuation_in_function_iff (parsed : (analyze settings source fileId).degraded = none)
    (valid : isName options.trackerName = true) :
    let analysis := analyze settings source fileId
    ∃ tree out, parse? source = some tree ∧
      instrument settings options source fileId = .ok out ∧
      ∀ (function : BlockRecord) (node parameters : Node),
        (function, node) ∈ Outline.sites source tree → function.kind = .function →
        parameters ∈ node.children → parameters.isConstruct .parameters = true →
        ∀ site ∈ out.sites, ∀ line ∈ site.continuation,
          parameters.lastLine < line → line < function.endLine →
          (analysis.blocks.Within function.id site.block ↔ Keeps analysis function line) := by
  obtain ⟨tree, isParsed, isAnalysis⟩ := exists_tree_of_parsed parsed
  refine ⟨tree, _, isParsed, instrument_eq fileId parsed valid, ?_⟩
  intro function node parameters isSite isFunction isPart _ site member line continues starts ends
  have isBlock : function ∈ (Outline.ofTree source tree).blocks :=
    (Outline.sited_of_parse isParsed).1 ▸ List.mem_map_of_mem (f := Prod.fst) isSite
  exact within_iff_keeps isParsed isBlock isFunction isAnalysis member continues
    (Nat.lt_of_le_of_lt (startLine_le_of_mem_sites isParsed isSite isPart) starts) ends

/-- Whether some function of a tree has a number and a line between its parameter list and its last
line. -/
def hasBodyLine (source : String) (id : BlockId) (line : Nat) (tree : Node) : Bool :=
  (Outline.sites source tree).any fun site =>
    site.1.kind == .function && site.1.id == id && decide (line < site.1.endLine) &&
      site.2.children.any fun part =>
        part.isConstruct .parameters && decide (part.lastLine < line)

theorem exists_of_hasBodyLine {tree : Node} {id : BlockId} {line : Nat}
    (has : hasBodyLine source id line tree = true) :
    ∃ function node parameters, (function, node) ∈ Outline.sites source tree ∧
      function.kind = .function ∧ function.id = id ∧ parameters ∈ node.children ∧
      parameters.isConstruct .parameters = true ∧ parameters.lastLine < line ∧
      line < function.endLine := by
  obtain ⟨⟨function, node⟩, isSite, found⟩ := List.any_eq_true.mp has
  simp only [Bool.and_eq_true, beq_iff_eq, decide_eq_true_eq, List.any_eq_true] at found
  obtain ⟨⟨⟨isFunction, isId⟩, ends⟩, parameters, isPart, isParameters, starts⟩ := found
  exact ⟨function, node, parameters, isSite, isFunction, isId, isPart, isParameters, starts, ends⟩

set_option maxRecDepth 20000 in
/-- The second line of a statement that is alone on its first stays in the function. -/
theorem continuation_in_function_call :
    let source := "local f = function()\n  b = g(\n  1)\nend\n"
    let analysis := analyze ⟨.nonExecutable, 100⟩ source "p"
    analysis.degraded = none ∧ isName "cov" = true ∧
      ∃ tree out function node parameters site, parse? source = some tree ∧
        instrument ⟨.nonExecutable, 100⟩ ⟨"cov", true⟩ source "p" = .ok out ∧
        (function, node) ∈ Outline.sites source tree ∧ function.kind = .function ∧
        parameters ∈ node.children ∧ parameters.isConstruct .parameters = true ∧
        parameters.lastLine < 3 ∧ 3 < function.endLine ∧ site ∈ out.sites ∧
        3 ∈ site.continuation ∧ analysis.blocks.Within function.id site.block := by
  intro source analysis
  have parsed : analysis.degraded = none := by decide +kernel
  have valid : isName "cov" = true := by decide
  have isChosen : chosen analysis =
      [⟨1, 4, 0, .statement 0⟩, ⟨2, 3, 1, .statement 23⟩] := by decide +kernel
  have isSites : sites analysis (chosen analysis) = [⟨1, 0, []⟩, ⟨2, 1, [3]⟩] := by
    decide +kernel
  have has : (parse? source).any (hasBodyLine source 1 3) = true := by decide +kernel
  obtain ⟨tree, out, isParsed, made, inFunction⟩ :=
    @continuation_in_function_iff _ _ "p" ⟨"cov", true⟩ parsed valid
  rw [isParsed] at has
  obtain ⟨function, node, parameters, isSite, isFunction, isId, isPart, isParameters, starts,
    ends⟩ := exists_of_hasBodyLine has
  obtain rfl := Except.ok.inj (made.symm.trans (instrument_eq "p" parsed valid))
  have member : (⟨2, 1, [3]⟩ : Site) ∈ sites analysis (chosen analysis) := by
    rw [isSites]
    exact List.mem_cons_of_mem _ List.mem_cons_self
  refine ⟨parsed, valid, tree, _, function, node, parameters, _, isParsed, made, isSite, isFunction,
    isPart, isParameters, starts, ends, member, List.mem_cons_self, ?_⟩
  refine (inFunction function node parameters isSite isFunction isPart isParameters _ member 3
    List.mem_cons_self starts ends).mpr
      ⟨⟨2, 3, 1, .statement 23⟩, ?_, .inl isId.symm, rfl, .inl rfl⟩
  exact isChosen ▸ List.mem_cons_of_mem _ List.mem_cons_self

set_option maxRecDepth 20000 in
/-- The second line of a statement that begins on the line of another is reported by the statement
that defines the function. -/
theorem continuation_outside_function :
    let source := "local f = function()\n  a = 1; b = g(\n  1)\nend\n"
    let analysis := analyze ⟨.nonExecutable, 100⟩ source "p"
    analysis.degraded = none ∧ isName "cov" = true ∧
      ∃ tree out function node parameters site, parse? source = some tree ∧
        instrument ⟨.nonExecutable, 100⟩ ⟨"cov", true⟩ source "p" = .ok out ∧
        (function, node) ∈ Outline.sites source tree ∧ function.kind = .function ∧
        parameters ∈ node.children ∧ parameters.isConstruct .parameters = true ∧
        parameters.lastLine < 3 ∧ 3 < function.endLine ∧ site ∈ out.sites ∧
        3 ∈ site.continuation ∧ ¬ analysis.blocks.Within function.id site.block := by
  intro source analysis
  have parsed : analysis.degraded = none := by decide +kernel
  have valid : isName "cov" = true := by decide
  have isSites : sites analysis (chosen analysis) = [⟨1, 0, [3]⟩, ⟨2, 1, []⟩] := by
    decide +kernel
  have has : (parse? source).any (hasBodyLine source 1 3) = true := by decide +kernel
  obtain ⟨tree, isParsed, -⟩ := exists_tree_of_parsed parsed
  rw [isParsed] at has
  obtain ⟨function, node, parameters, isSite, isFunction, isId, isPart, isParameters, starts,
    ends⟩ := exists_of_hasBodyLine has
  have member : (⟨1, 0, [3]⟩ : Site) ∈ sites analysis (chosen analysis) := by
    rw [isSites]
    exact List.mem_cons_self
  refine ⟨parsed, valid, tree, _, function, node, parameters, _, isParsed,
    instrument_eq "p" parsed valid, isSite, isFunction, isPart, isParameters, starts, ends, member,
    List.mem_cons_self, ?_⟩
  rintro (isOwn | encloses)
  · exact Nat.zero_ne_one (isOwn.trans isId)
  · exact (blocks_analyze ..).1.not_encloses_root _ encloses

end Instrument

end Instrument

end LuaCoverage
