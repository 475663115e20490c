import LuaCoverage.Proofs.Instrument.Calls

/-!
# Instrumented sources are faithful

An instrumented source is its source with calls woven in, and its map finds every line of the source
again (`instrument_faithful`). Dropping what was injected gives the source back; the map has an
entry for every line of the text and never decreases; the output line that is looked up for a line
holds that line, with what was inserted into it.

The other output lines that come from the same line stand before it. They are calls on lines of
their own, unless the line is `Crowded`: then the parentheses that open around a condition at its
beginning come apart from the condition, because the line of a call is put in between.
-/

set_option autoImplicit false

namespace LuaCoverage.Instrument

open Text

/-- The texts that were injected. -/
def injectedTexts (pieces : List Piece) : List String :=
  pieces.filterMap fun
    | .source _ => none
    | .injected text => some text

theorem injectedTexts_append (first later : List Piece) :
    injectedTexts (first ++ later) = injectedTexts first ++ injectedTexts later :=
  List.filterMap_append ..

theorem injectedTexts_map (insertions : List Insertion) :
    injectedTexts (insertions.map fun insertion => .injected insertion.text) =
      insertions.map Insertion.text := by
  rw [injectedTexts, List.filterMap_map]
  exact congrFun List.filterMap_eq_map insertions

/-- Weaving injects every insertion, in order. -/
theorem injectedTexts_weave (insertions : List Insertion) (byte : Nat) (chars : List Char) :
    injectedTexts (weave insertions byte chars) = insertions.map Insertion.text := by
  induction chars generalizing insertions byte with
  | nil => exact injectedTexts_map insertions
  | cons char rest ih =>
      rw [weave, List.span_eq_takeWhile_dropWhile]
      simp only
      rw [injectedTexts_append, injectedTexts_map,
        show ∀ later, injectedTexts (.source char :: later) = injectedTexts later from fun _ => rfl,
        ih, ← List.map_append, List.takeWhile_append_dropWhile]

/-- **Every insertion is injected once.** -/
theorem injectedTexts_pieces (source : String) (insertions : List Insertion) :
    (injectedTexts (pieces source insertions)).Perm (insertions.map Insertion.text) := by
  rw [pieces, injectedTexts_weave]
  exact (List.mergeSort_perm insertions _).map _

/-- The map after insertions, line by line. -/
theorem mapAfter_eq (count : Nat) (insertions : List Insertion) :
    mapAfter count insertions = ⟨((List.range' 1 count).flatMap fun line =>
      List.replicate (ownCount insertions line + 1) line).toArray⟩ := by
  rw [mapAfter, List.range'_eq_map_range, List.flatMap_map]
  congr 3
  funext index
  rw [Nat.add_comm 1 index]
  rfl

/-- The characters of an instrumented source, each marked with whether it was injected. -/
def woven (options : InstrumentSettings) (source fileId : String) (analysis : Analysis) :
    List Glyph :=
  glyphsOf (pieces source (insertions options source analysis fileId (chosen analysis)))

/-- The lines of marked characters. -/
def wovenRows (glyphs : List Glyph) : List (List Glyph) := rowsOf Glyph.char glyphs

theorem lines_ofList (glyphs : List Glyph) :
    Text.lines (String.ofList (glyphs.map Glyph.char)) =
      (wovenRows glyphs).map fun row => String.ofList (row.map Glyph.char) := by
  rw [Text.lines, String.toList_ofList, ← map_rowsOf, List.map_map]
  rfl

section Faithful

variable {settings : AnalysisSettings} {options : InstrumentSettings} {source : String}
  (fileId : String)

theorem instrument_eq (parsed : (analyze settings source fileId).degraded = none)
    (valid : isName options.trackerName = true) :
    instrument settings options source fileId =
      .ok (transform options source fileId (analyze settings source fileId)) := by
  rw [instrument, instrumentWith, parsed]
  exact if_pos valid

variable {analysis : Analysis}

/-- The characters of the transformed source are woven. -/
theorem text_transform (options : InstrumentSettings) (source fileId : String)
    (analysis : Analysis) : (transform options source fileId analysis).text =
      String.ofList ((woven options source fileId analysis).map Glyph.char) := by
  rw [woven, map_char_glyphsOf]
  rfl

/-- The rows of the transformed source lie over the lines of the source as its map says. -/
theorem laid_transform (lies : analysis.LiesIn source.toList)
    (valid : isName options.trackerName = true) :
    sourceChars (woven options source fileId analysis) = source.toList ∧
      ∃ entries, (transform options source fileId analysis).sourceMap = ⟨entries.toArray⟩ ∧
        Laid (RowsAhead (IsOwnCall options.trackerName (quote fileId)
            (sites analysis (chosen analysis)))
            (insertions options source analysis fileId (chosen analysis)))
          sourceChars 1 (charLines source.toList)
          (wovenRows (woven options source fileId analysis)) entries := by
  have fit := fitting_insertions fileId lies valid
  have laid := fit.laid_woven (fun line chars => IsOwnCall.head?_ne valid)
    (show source.toList = [] ++ source.toList from rfl) (show AtLineStart [] from nofun)
  have isWoven : woven options source fileId analysis =
      glyphsOf (insertedAt (insertions options source analysis fileId (chosen analysis)) 0 ++
        spread (insertions options source analysis fileId (chosen analysis)) 0 source.toList) := by
    rw [woven, pieces_eq fit.inside]
  refine ⟨?_, _, ?_, isWoven ▸ laid⟩
  · rw [isWoven, glyphsOf_append, sourceChars_append, sourceChars_insertedAt, sourceChars_spread]
    rfl
  · have lineCount : (Text.lines source).length = (charLines source.toList).length :=
      List.length_map _
    rw [transform]
    simp only
    rw [mapAfter_eq, lineCount]
    rfl

/-- All output lines that come from a line, apart from the one that holds it, are injected calls for
it that stand before it. -/
def OnlyCallsAhead (options : InstrumentSettings) (fileId : String) (out : Instrumented)
    (rows : List (List Glyph)) (line output : Nat) : Prop :=
  ∀ other, out.sourceMap.sourceLine? other = some line → other ≠ output →
    other < output ∧ ∃ row, rows[other - 1]? = some row ∧
      IsCall (IsOwnCall options.trackerName (quote fileId) out.sites) line row

/-- **Each line of the source is found in the text.** Exactly if it is not crowded, all other output
lines that come from it are calls ahead of it. -/
theorem exists_outputLine (lies : analysis.LiesIn source.toList)
    (valid : isName options.trackerName = true) {index : Nat} {line : String}
    (found : (Text.lines source)[index]? = some line) :
    let out := transform options source fileId analysis
    let rows := wovenRows (woven options source fileId analysis)
    ∃ output row, out.sourceMap.outputLine? (index + 1) = some output ∧ output ≤ rows.length ∧
      out.sourceMap.sourceLine? output = some (index + 1) ∧
      rows[output - 1]? = some row ∧ String.ofList (sourceChars row) = line ∧
      (OnlyCallsAhead options fileId out rows (index + 1) output ↔
        ¬ Crowded source (chosen analysis) (index + 1)) := by
  intro out rows
  obtain ⟨-, entries, isMap, laid⟩ := laid_transform fileId lies valid
  rw [Text.lines, List.getElem?_map, Option.map_eq_some_iff] at found
  obtain ⟨chars, isLine, rfl⟩ := found
  obtain ⟨output, before, row, isOutput, bound, isSource, isRow, rfl, ahead, others, theirs⟩ :=
    laid.exists_lookup isLine
  rw [show out.sourceMap = _ from isMap]
  refine ⟨output, row, isOutput, bound, isSource, isRow, rfl, ?_⟩
  rw [← crowdedAt_iff fileId lies valid]
  constructor
  · intro only crowded
    obtain ⟨item, isItem, notCall⟩ := ahead.2 crowded
    obtain ⟨other, differs, fromLine, isOther⟩ := theirs item isItem
    obtain ⟨-, row', isRow', isCall⟩ := only other (isMap ▸ fromLine) differs
    obtain rfl : row' = item := Option.some.inj (isRow'.symm.trans isOther)
    exact notCall isCall
  · intro notCrowded other fromLine differs
    obtain ⟨less, item, isItem, isOther⟩ := others other (isMap ▸ fromLine) differs
    exact ⟨less, item, isOther, ahead.1 notCrowded item isItem⟩

/-- **An instrumented source is its source with calls woven in, line by line.** Dropping what was
injected gives the source back, the map has an entry for each line of the text and never decreases,
and each line of the source is found in the text, at a line that holds it. Exactly on the lines that
are not crowded, all other output lines that come from a line are calls ahead of it. -/
theorem instrument_faithful (parsed : (analyze settings source fileId).degraded = none)
    (valid : isName options.trackerName = true) :
    let analysis := analyze settings source fileId
    let added := insertions options source analysis fileId (chosen analysis)
    let glyphs := woven options source fileId analysis
    let rows := wovenRows glyphs
    ∃ out, instrument settings options source fileId = .ok out ∧
      out.text = String.ofList (glyphs.map Glyph.char) ∧
      String.ofList (sourceChars glyphs) = source ∧
      (injectedTexts (pieces source added)).Perm (added.map Insertion.text) ∧
      Text.lines out.text = rows.map (fun row => String.ofList (row.map Glyph.char)) ∧
      out.sourceMap.lines.size = (Text.lines out.text).length ∧
      out.sourceMap.lines.toList.Pairwise (· ≤ ·) ∧
      ∀ index line, (Text.lines source)[index]? = some line →
        ∃ output row, out.sourceMap.outputLine? (index + 1) = some output ∧
          output ≤ (Text.lines out.text).length ∧
          out.sourceMap.sourceLine? output = some (index + 1) ∧
          rows[output - 1]? = some row ∧ String.ofList (sourceChars row) = line ∧
          (OnlyCallsAhead options fileId out rows (index + 1) output ↔
            ¬ Crowded source (chosen analysis) (index + 1)) := by
  intro analysis added glyphs rows
  have lies : analysis.LiesIn source.toList := analyze_liesIn parsed
  obtain ⟨kept, entries, isMap, laid⟩ := laid_transform fileId lies valid
  have isText := text_transform options source fileId analysis
  have outLines : Text.lines (transform options source fileId analysis).text =
      rows.map fun row => String.ofList (row.map Glyph.char) := by
    rw [isText, lines_ofList]
  have count :
      (Text.lines (transform options source fileId analysis).text).length = rows.length := by
    rw [outLines, List.length_map]
  refine ⟨_, instrument_eq _ parsed valid, isText, ?_, injectedTexts_pieces source added, outLines,
    ?_, ?_, fun index line found => ?_⟩
  · rw [kept, String.ofList_toList]
  · rw [count, isMap]
    exact laid.length_eq
  · rw [isMap]
    exact laid.pairwise
  · rw [count]
    exact exists_outputLine fileId lies valid found

set_option maxRecDepth 20000 in
/-- In a source without conditions of that kind every line comes through. -/
theorem instrument_faithful_plain :
    (analyze ⟨.nonExecutable, 100⟩ "x = 1\nf(x)\n" "p").degraded = none ∧ isName "cov" = true ∧
      ∃ out, instrument ⟨.nonExecutable, 100⟩ ⟨"cov", true⟩ "x = 1\nf(x)\n" "p" = .ok out ∧
        ∃ output, out.sourceMap.outputLine? 2 = some output ∧
          OnlyCallsAhead ⟨"cov", true⟩ "p" out (wovenRows (woven ⟨"cov", true⟩ "x = 1\nf(x)\n" "p"
            (analyze ⟨.nonExecutable, 100⟩ "x = 1\nf(x)\n" "p"))) 2 output := by
  have parsed : (analyze ⟨.nonExecutable, 100⟩ "x = 1\nf(x)\n" "p").degraded = none := by
    decide +kernel
  have places : chosen (analyze ⟨.nonExecutable, 100⟩ "x = 1\nf(x)\n" "p") =
      [⟨1, 1, 0, .statement 0⟩, ⟨2, 2, 0, .statement 6⟩] := by decide +kernel
  have valid : isName "cov" = true := by decide
  have notCrowded : ¬ Crowded "x = 1\nf(x)\n"
      (chosen (analyze ⟨.nonExecutable, 100⟩ "x = 1\nf(x)\n" "p")) 2 := by
    rw [places]
    rintro ⟨condition, member, statement, -, first, last, byte, placement, -⟩
    simp only [List.mem_cons, List.not_mem_nil, or_false] at member
    rcases member with rfl | rfl <;> cases placement
  obtain ⟨out, isOut, -, -, -, -, -, -, found⟩ :=
    @instrument_faithful _ ⟨"cov", true⟩ _ "p" parsed valid
  obtain ⟨output, row, isOutput, -, -, -, -, only⟩ := found 1 "f(x)" (by decide +kernel)
  exact ⟨parsed, valid, out, isOut, output, isOutput, only.mpr notCrowded⟩

set_option maxRecDepth 20000 in
/-- A crowded line: a name of Unicode's white space is the condition of a loop, and a statement
follows on its line. -/
theorem not_onlyCallsAhead_crowded :
    (analyze ⟨.nonExecutable, 100⟩ "repeat until\n\u00a0 y = 2\n" "p").degraded = none ∧
      isName "cov" = true ∧
      ∃ out, instrument ⟨.nonExecutable, 100⟩ ⟨"cov", true⟩ "repeat until\n\u00a0 y = 2\n" "p" =
          .ok out ∧
        ∃ output, out.sourceMap.outputLine? 2 = some output ∧
          ¬ OnlyCallsAhead ⟨"cov", true⟩ "p" out
            (wovenRows (woven ⟨"cov", true⟩ "repeat until\n\u00a0 y = 2\n" "p"
              (analyze ⟨.nonExecutable, 100⟩ "repeat until\n\u00a0 y = 2\n" "p"))) 2 output := by
  have parsed : (analyze ⟨.nonExecutable, 100⟩ "repeat until\n\u00a0 y = 2\n" "p").degraded =
      none := by
    decide +kernel
  have places : chosen (analyze ⟨.nonExecutable, 100⟩ "repeat until\n\u00a0 y = 2\n" "p") =
      [⟨2, 2, 1, .condition 13 15⟩, ⟨1, 2, 0, .statement 0⟩, ⟨2, 2, 0, .statement 16⟩] := by
    decide +kernel
  have valid : isName "cov" = true := by decide
  have crowded : Crowded "repeat until\n\u00a0 y = 2\n"
      (chosen (analyze ⟨.nonExecutable, 100⟩ "repeat until\n\u00a0 y = 2\n" "p")) 2 := by
    rw [places]
    exact ⟨_, List.mem_cons_self, _, List.mem_cons_of_mem _ (List.mem_cons_of_mem _
      List.mem_cons_self), 13, 15, 16, rfl, rfl, rfl, by decide +kernel, by decide +kernel⟩
  obtain ⟨output, row, isOutput, -, -, -, -, only⟩ :=
    @exists_outputLine ⟨"cov", true⟩ _ "p" _ (analyze_liesIn parsed) valid 1 "\u00a0 y = 2"
      (by decide +kernel)
  exact ⟨parsed, valid, _, instrument_eq _ parsed valid, output, isOutput,
    fun isOnly => only.mp isOnly crowded⟩

end Faithful

end LuaCoverage.Instrument
