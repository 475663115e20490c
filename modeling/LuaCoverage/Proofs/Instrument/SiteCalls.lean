import Mathlib.Algebra.BigOperators.Group.List.Basic
import LuaCoverage.Proofs.Analysis.ListedPlaces
import LuaCoverage.Proofs.Instrument.CallTexts
import LuaCoverage.Proofs.Instrument.HitLines

/-!
# Sites and their calls

Conditions and statements compete for sites: of all that report the same line and block only the
first is chosen. This is enough for every statement and every condition on a line that can run,
because another one then reports for it what it would report itself
(`exists_site_reporting`). A chosen place adds one call, and no two chosen places report the same,
so each site has exactly one call, however the calls were woven in (`callCount_transform`).

A continuation line belongs to the one place that a search over all chosen places finds, so no two
sites list it (`apart_continuations`); the place spans the line, and no site is on it.
-/

set_option autoImplicit false

namespace LuaCoverage.Instrument

open Syntax

/-! ## One call for each site -/

/-- How often the hit call for a line and a block was injected. -/
def callCount (tracker literal : String) (woven : List Piece) (line : Nat) (block : BlockId) :
    Nat :=
  ((injectedTexts woven).map fun text =>
    occurrences (hitCall tracker literal line block).toList text.toList).sum

/-- How many of some places report a line and a block. -/
def reportCount (places : List Candidate) (line : Nat) (block : BlockId) : Nat :=
  places.countP fun place => place.line = line ∧ place.block = block

section Calls

variable {options : InstrumentSettings} (valid : isName options.trackerName = true)
  (source fileId : String) (analysis : Analysis) (line : Nat) (block : BlockId)

include valid

/-- **As many calls are injected as places report.** -/
theorem callCount_pieces (places : List Candidate) :
    callCount options.trackerName (quote fileId)
      (pieces source (insertions options source analysis fileId places)) line block =
    reportCount places line block := by
  let count (insertion : Insertion) : Nat :=
    occurrences (hitCall options.trackerName (quote fileId) line block).toList insertion.text.toList
  have ofPlaces : ∀ places : List Candidate,
      ((places.flatMap (insertionsFor source options.trackerName (quote fileId))).map count).sum =
        reportCount places line block := by
    intro places
    induction places with
    | nil => rfl
    | cons place rest ih =>
        have own : ((insertionsFor source options.trackerName (quote fileId) place).map count).sum =
            if place.line = line ∧ place.block = block then 1 else 0 :=
          sum_occurrences_insertionsFor valid fileId line block source place
        rw [List.flatMap_cons, List.map_append, List.sum_append, own, ih, reportCount, reportCount,
          List.countP_cons, Nat.add_comm]
        simp only [decide_eq_true_eq]
  have ofBodies : ((enterInsertions options.trackerName (quote fileId)
      analysis.functionBodies).map count).sum = 0 := by
    refine List.sum_eq_zero fun number member => ?_
    obtain ⟨insertion, isEnter, rfl⟩ := List.mem_map.mp member
    obtain ⟨body, -, rfl⟩ := List.mem_map.mp isEnter
    exact occurrences_enterCall valid fileId line block body.line
  have permuted := (injectedTexts_pieces source
    (insertions options source analysis fileId places)).map fun text =>
      occurrences (hitCall options.trackerName (quote fileId) line block).toList text.toList
  rw [callCount, permuted.sum_nat, List.map_map, insertions]
  show (List.map count _).sum = _
  rw [List.map_append, List.sum_append, ofPlaces]
  split
  · rw [ofBodies]
    rfl
  · rfl

end Calls

/-- Of places that do not report the same, one at most reports a line and a block. -/
theorem reportCount_eq_one {places : List Candidate} {place : Candidate}
    (apart : places.Pairwise fun first later => ¬ ReportsSame first later)
    (member : place ∈ places) : reportCount places place.line place.block = 1 := by
  obtain ⟨front, back, rfl⟩ := List.append_of_mem member
  obtain ⟨-, apartBehind, apartFront⟩ := List.pairwise_append.mp apart
  have none : ∀ others : List Candidate, (∀ other ∈ others, ¬ ReportsSame other place) →
      reportCount others place.line place.block = 0 := fun others differ =>
    List.countP_eq_zero.mpr fun other isOther reports =>
      differ other isOther (by simpa [ReportsSame] using reports)
  have inFront := none front fun other isFront => apartFront other isFront place List.mem_cons_self
  have behind := none back fun other isBack same =>
    (List.pairwise_cons.mp apartBehind).1 other isBack ⟨same.1.symm, same.2.symm⟩
  rw [reportCount] at inFront behind ⊢
  rw [List.countP_append, List.countP_cons, inFront, behind]
  simp

/-! ## Continuation lines -/

/-- **No line is a continuation of two sites.** -/
theorem apart_continuations (analysis : Analysis) (places : List Candidate) :
    (sites analysis places).Pairwise fun first later =>
      ∀ line ∈ first.continuation, line ∉ later.continuation := by
  have numbered : places.zipIdx.Pairwise fun first later => first.2 ≠ later.2 := by
    have numbers : (places.zipIdx.map Prod.snd).Nodup := by
      rw [List.zipIdx_map_snd]
      exact List.nodup_range'
    exact List.pairwise_map.mp numbers
  refine List.pairwise_map.mpr (numbered.imp fun {first later} differ line inFirst inLater => ?_)
  obtain ⟨owner, isOwner, rfl⟩ := List.mem_map.mp inFirst
  obtain ⟨owner', isOwner', sameLine⟩ := List.mem_map.mp inLater
  obtain ⟨isOwned, isFirst⟩ := List.mem_filter.mp isOwner
  obtain ⟨isOwned', isLater⟩ := List.mem_filter.mp isOwner'
  obtain ⟨line, -, rfl⟩ := List.mem_map.mp isOwned
  obtain ⟨line', -, rfl⟩ := List.mem_map.mp isOwned'
  obtain rfl : line' = line := sameLine
  exact differ (Option.some.inj ((beq_iff_eq.mp isFirst).symm.trans (beq_iff_eq.mp isLater)))

/-! ## The sites of an instrumented source -/

/-- The sites report the lines and blocks of the places. -/
theorem exists_place_of_site {analysis : Analysis} {places : List Candidate} {site : Site}
    (member : site ∈ sites analysis places) :
    ∃ place ∈ places, place.line = site.line ∧ place.block = site.block := by
  obtain ⟨⟨place, index⟩, isEntry, rfl⟩ := List.mem_map.mp member
  exact ⟨place, List.mem_of_getElem? (List.mem_zipIdx_iff_getElem?.mp isEntry), rfl, rfl⟩

section Instrument

variable {settings : AnalysisSettings} {options : InstrumentSettings} {source fileId : String}

/-- **Sites and their calls**, of every source that parses under every name of the tracker that is
accepted. No two sites report the same line and block, and all are on lines that can run. What the
tree of the source has in the way of statements and of `elseif` and `until` conditions is listed,
and whatever of it begins on a line that can run has a site with its line and block. The hit call of
each site is injected exactly once, and that for another line or block not at all. A continuation of
a site can run, has no site of its own, lies in the span of the place that the site is for, and is a
continuation of no other site. All lines that sites account for can run. -/
theorem sites_called_once (parsed : (analyze settings source fileId).degraded = none)
    (valid : isName options.trackerName = true) :
    let analysis := analyze settings source fileId
    let woven := pieces source (insertions options source analysis fileId (chosen analysis))
    let calls := callCount options.trackerName (quote fileId) woven
    ∃ out tree, instrument settings options source fileId = .ok out ∧
      out.text = String.ofList (woven.flatMap Piece.chars) ∧ parse? source = some tree ∧
      out.sites.Pairwise (fun first later =>
        ¬ (first.line = later.line ∧ first.block = later.block)) ∧
      (∀ site ∈ out.sites, analysis.isExecutable site.line = true) ∧
      (∀ place, Outline.Holds place tree →
        place.ListedIn analysis.statements analysis.conditions) ∧
      (∀ start ∈ analysis.statements, analysis.isExecutable start.line = true →
        ∃ site ∈ out.sites, site.line = start.line ∧ site.block = start.block) ∧
      (∀ condition ∈ analysis.conditions, analysis.isExecutable condition.line = true →
        ∃ site ∈ out.sites, site.line = condition.line ∧ site.block = condition.block) ∧
      (∀ site ∈ out.sites, calls site.line site.block = 1) ∧
      (∀ line block, (∀ site ∈ out.sites, ¬ (site.line = line ∧ site.block = block)) →
        calls line block = 0) ∧
      (∀ site ∈ out.sites, ∀ line ∈ site.continuation, analysis.isExecutable line = true ∧
        (∀ other ∈ out.sites, other.line ≠ line) ∧
        ∃ place ∈ chosen analysis, place.line = site.line ∧ place.block = site.block ∧
          place.line ≤ line ∧ line ≤ place.endLine) ∧
      out.sites.Pairwise (fun first later => ∀ line ∈ first.continuation,
        line ∉ later.continuation) ∧
      ∀ line ∈ out.hitLines, analysis.isExecutable line = true := by
  intro analysis woven calls
  obtain ⟨tree, isParsed, isAnalysis⟩ := exists_tree_of_parsed parsed
  have made : instrument settings options source fileId =
      .ok (transform options source fileId analysis) := instrument_eq fileId parsed valid
  have fits := fits_instrumentWith made
  have counted : ∀ line block, calls line block = reportCount (chosen analysis) line block :=
    fun line block => callCount_pieces valid source fileId analysis line block _
  have reported : ∀ place ∈ candidates analysis, analysis.isExecutable place.line = true →
      ∃ site ∈ sites analysis (chosen analysis),
        site.line = place.line ∧ site.block = place.block := fun place member runs =>
    exists_site_reporting member runs
  refine ⟨_, tree, made, rfl, isParsed, fits.proper.apart,
    fun site isSite => fits.runs site isSite site.line (.inl rfl), fun place holds => ?listed,
    fun start isStart => reported _ (List.mem_append_right _ (List.mem_map_of_mem isStart)),
    fun condition isCondition =>
      reported _ (List.mem_append_left _ (List.mem_map_of_mem isCondition)),
    fun site isSite => ?once, fun line block silent => ?never,
    fun site isSite line continues =>
      ⟨fits.runs site isSite line (.inr continues), ?alone, ?inside⟩,
    apart_continuations analysis (chosen analysis), fun line accounted => ?runs⟩
  case listed =>
    have listed := listed_ofTree settings source fileId holds
    rwa [← isAnalysis] at listed
  case once =>
    obtain ⟨place, isPlace, isLine, isBlock⟩ := exists_place_of_site isSite
    rw [counted, ← isLine, ← isBlock]
    exact reportCount_eq_one (pairwise_withoutRepeats _ _) isPlace
  case never =>
    rw [counted]
    refine List.countP_eq_zero.mpr fun place isPlace reports => ?_
    obtain ⟨site, isSite, isLine, isBlock⟩ := exists_site analysis isPlace
    obtain ⟨sameLine, sameBlock⟩ : place.line = line ∧ place.block = block := by
      simpa using reports
    exact silent site isSite ⟨isLine.trans sameLine, isBlock.trans sameBlock⟩
  case alone =>
    intro other isOther
    obtain ⟨place, isPlace, isLine, -⟩ := exists_place_of_site isOther
    obtain ⟨isUncovered, -⟩ := exists_owner_of_continues isSite continues
    exact isLine ▸ (mem_uncovered_iff.mp isUncovered).2 place isPlace
  case inside =>
    obtain ⟨-, front, owner, back, split, isLine, isBlock, isOwner⟩ :=
      exists_owner_of_continues isSite continues
    obtain ⟨starts, ends⟩ := spans_iff.mp isOwner.spans
    exact ⟨owner, split ▸ List.mem_append_right _ List.mem_cons_self, isLine, isBlock, starts, ends⟩
  case runs =>
    obtain ⟨site, isSite, accounts⟩ := mem_hitLines_iff.mp accounted
    exact fits.runs site isSite line accounts

set_option maxRecDepth 20000 in
/-- A loop whose body and condition begin on one line, in one block: the condition has the site, and
its call is there once. -/
theorem sites_called_once_loop :
    let source := "repeat f() until a or\n b\n"
    let analysis := analyze ⟨.nonExecutable, 100⟩ source "p"
    let woven := pieces source (insertions ⟨"cov", true⟩ source analysis "p" (chosen analysis))
    analysis.degraded = none ∧ isName "cov" = true ∧
      ∃ out, instrument ⟨.nonExecutable, 100⟩ ⟨"cov", true⟩ source "p" = .ok out ∧
        ∃ site ∈ out.sites, site.line = 1 ∧ site.block = 1 ∧
          callCount "cov" (quote "p") woven 1 1 = 1 := by
  intro source analysis woven
  have parsed : analysis.degraded = none := by decide +kernel
  have valid : isName "cov" = true := by decide
  have condition : (⟨1, 2, 17, 24, 1⟩ : Condition) ∈ analysis.conditions := by decide +kernel
  obtain ⟨out, -, made, -, -, -, -, -, -, conditions, once, -⟩ :=
    @sites_called_once ⟨.nonExecutable, 100⟩ ⟨"cov", true⟩ source "p" parsed valid
  obtain ⟨site, isSite, isLine, isBlock⟩ := conditions _ condition (by decide +kernel)
  have called := once site isSite
  rw [isLine, isBlock] at called
  exact ⟨parsed, valid, out, made, site, isSite, isLine, isBlock, called⟩

end Instrument

end LuaCoverage.Instrument
