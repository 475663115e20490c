import LuaCoverage.Proofs.Instrument.LineMaps
import LuaCoverage.Proofs.Instrument.Weaving
import LuaCoverage.Proofs.Text.Rows

/-!
# The rows of a woven text

Every character of a woven text is marked with whether it was injected. Dropping what was injected
leaves the source (`sourceChars_spread`). `Fitting` says what insertions have to satisfy so that the
lines survive: a call inside a line holds no line end and does not stand in one, a call on a line of
its own stands at the beginning of the line it precedes, and of several calls at one byte those
inside the line come first.

Then the rows of the woven text lie over the lines of the source as the map says (`laid_woven`). The
rows ahead of a line are the calls of their own, with one exception: when the line itself begins
with an injected piece, this piece ends up in the first of these rows (`CrowdedAt`).
-/

set_option autoImplicit false

namespace LuaCoverage.Instrument

open Text

/-! ## Marked characters -/

/-- A character of an instrumented text. -/
structure Glyph where
  char : Char
  /-- Whether the character belongs to a call and not to the source. -/
  injected : Bool
  deriving DecidableEq, Repr

/-- The characters of a piece, marked. -/
def Piece.glyphs : Piece → List Glyph
  | .source char => [⟨char, false⟩]
  | .injected text => text.toList.map fun char => ⟨char, true⟩

/-- The characters of some pieces, marked. -/
def glyphsOf (pieces : List Piece) : List Glyph := pieces.flatMap Piece.glyphs

/-- What is left of marked characters when the injected ones are dropped. -/
def sourceChars (glyphs : List Glyph) : List Char :=
  (glyphs.filter fun glyph => !glyph.injected).map Glyph.char

@[simp]
theorem glyphsOf_nil : glyphsOf [] = [] := rfl

@[simp]
theorem glyphsOf_cons (piece : Piece) (rest : List Piece) :
    glyphsOf (piece :: rest) = piece.glyphs ++ glyphsOf rest := List.flatMap_cons

@[simp]
theorem glyphsOf_append (first later : List Piece) :
    glyphsOf (first ++ later) = glyphsOf first ++ glyphsOf later := List.flatMap_append

@[simp]
theorem sourceChars_append (first later : List Glyph) :
    sourceChars (first ++ later) = sourceChars first ++ sourceChars later := by
  rw [sourceChars, List.filter_append, List.map_append, sourceChars, sourceChars]

theorem map_char_glyphsOf (pieces : List Piece) :
    (glyphsOf pieces).map Glyph.char = pieces.flatMap Piece.chars := by
  induction pieces with
  | nil => rfl
  | cons piece rest ih =>
      rw [glyphsOf_cons, List.map_append, ih, List.flatMap_cons]
      cases piece with
      | source char => rfl
      | injected text => simp [Piece.glyphs, Piece.chars, Function.comp_def]

theorem sourceChars_of_injected {glyphs : List Glyph}
    (all : ∀ glyph ∈ glyphs, glyph.injected = true) : sourceChars glyphs = [] := by
  have none : glyphs.filter (fun glyph => !glyph.injected) = [] := by
    rw [List.filter_eq_nil_iff]
    intro glyph member
    simp [all glyph member]
  rw [sourceChars, none]
  rfl

theorem injected_of_mem_insertedAt {insertions : List Insertion} {byte : Nat} {glyph : Glyph}
    (member : glyph ∈ glyphsOf (insertedAt insertions byte)) :
    glyph.injected = true ∧ ∃ insertion ∈ insertions, insertion.byte = byte ∧
      glyph.char ∈ insertion.text.toList := by
  obtain ⟨piece, isPiece, inPiece⟩ := List.mem_flatMap.mp member
  obtain ⟨insertion, isHere, rfl⟩ := List.mem_map.mp isPiece
  obtain ⟨char, isChar, rfl⟩ := List.mem_map.mp inPiece
  obtain ⟨inside, isByte⟩ := List.mem_filter.mp isHere
  exact ⟨rfl, insertion, inside, beq_iff_eq.mp isByte, isChar⟩

theorem sourceChars_insertedAt (insertions : List Insertion) (byte : Nat) :
    sourceChars (glyphsOf (insertedAt insertions byte)) = [] :=
  sourceChars_of_injected fun _ member => (injected_of_mem_insertedAt member).1

theorem sourceChars_spread (insertions : List Insertion) (byte : Nat) (chars : List Char) :
    sourceChars (glyphsOf (spread insertions byte chars)) = chars := by
  induction chars generalizing byte with
  | nil => rfl
  | cons char rest ih =>
      rw [spread, glyphsOf_cons, glyphsOf_append, sourceChars_append, sourceChars_append,
        sourceChars_insertedAt, ih]
      rfl

/-- The last character of what is left was the last one if that was not injected. -/
theorem getLast?_sourceChars {glyphs : List Glyph} {last : Glyph}
    (isLast : glyphs.getLast? = some last) (own : last.injected = false) :
    (sourceChars glyphs).getLast? = some last.char := by
  obtain ⟨front, rfl⟩ := List.getLast?_eq_some_iff.mp isLast
  have single : sourceChars [last] = [last.char] := by simp [sourceChars, own]
  rw [sourceChars_append, single, List.getLast?_concat]

/-! ## Insertions that fit -/

/-- Whether a place behind some characters is the beginning of a line. -/
def AtLineStart (before : List Char) : Prop := ∀ last, before.getLast? = some last → last = '\n'

/-- An insertion inside a line: it holds no line end, and the source goes on with a character of the
line ahead of it or behind it. At the beginning of a line it opens a parenthesis. -/
structure Inline (source : List Char) (insertion : Insertion) : Prop where
  text : ∀ char ∈ insertion.text.toList, char ≠ '\n' ∧ char ≠ '\r'
  place : ∃ before after, source = before ++ after ∧ insertion.byte = utf8Length before ∧
    ((∃ next, after.head? = some next ∧ next ≠ '\n' ∧ next ≠ '\r' ∧
        (AtLineStart before → insertion.text.toList.head? = some '(')) ∨
      ∃ last, before.getLast? = some last ∧ last ≠ '\n' ∧ last ≠ '\r')

/-- An insertion that is a line of its own, at the beginning of a line that is not the end of the
source; what it holds ahead of its line end is a call for that line. -/
def OwnLine (call : Nat → List Char → Prop) (source : List Char) (line : Nat)
    (insertion : Insertion) : Prop :=
  ∃ before after body, source = before ++ after ∧ insertion.byte = utf8Length before ∧
    AtLineStart before ∧ after ≠ [] ∧ line = 1 + before.count '\n' ∧
    insertion.text.toList = body ++ ['\n'] ∧ '\n' ∉ body ∧ body.getLast? = some ';' ∧ call line body

/-- Insertions under which the lines of a source survive. -/
structure Fitting (call : Nat → List Char → Prop) (source : List Char)
    (insertions : List Insertion) : Prop where
  inline : ∀ insertion ∈ insertions, insertion.ownLine = none → Inline source insertion
  own : ∀ insertion ∈ insertions, ∀ line, insertion.ownLine = some line →
    OwnLine call source line insertion
  order : ∀ byte, ∃ inside ahead,
    insertions.filter (fun insertion => insertion.byte == byte) = inside ++ ahead ∧
      (∀ insertion ∈ inside, insertion.ownLine = none) ∧
      ∀ insertion ∈ ahead, insertion.ownLine ≠ none

/-- A line that calls of its own precede and that itself begins with an insertion. -/
def CrowdedAt (insertions : List Insertion) (line : Nat) : Prop :=
  ∃ own ∈ insertions, ∃ inside ∈ insertions, own.ownLine = some line ∧ inside.ownLine = none ∧
    inside.byte = own.byte

/-- Two beginnings of lines with the same lines before them are the same. -/
theorem eq_of_count_eq {first second rest rest' : List Char}
    (same : first ++ rest = second ++ rest') (start : AtLineStart first)
    (start' : AtLineStart second) (lines : first.count '\n' = second.count '\n') :
    first = second := by
  have shorter : ∀ {short long : List Char}, short <+: long → AtLineStart long →
      short.count '\n' = long.count '\n' → short = long := by
    rintro short long ⟨tail, rfl⟩ atStart counts
    rcases List.eq_nil_or_concat tail with rfl | ⟨front, last, rfl⟩
    · rw [List.append_nil]
    · rw [List.concat_eq_append, ← List.append_assoc] at atStart counts
      obtain rfl : last = '\n' := atStart last List.getLast?_concat
      rw [List.count_append, List.count_append, List.count_singleton_self] at counts
      omega
  rcases List.prefix_or_prefix_of_prefix (List.prefix_append first rest)
    (same ▸ List.prefix_append second rest') with before | after
  · exact shorter before start' lines
  · exact (shorter after start lines.symm).symm

namespace Fitting

variable {call : Nat → List Char → Prop} {source : List Char} {insertions : List Insertion}

/-- Every insertion stands at a byte of the source. -/
theorem inside (fit : Fitting call source insertions) : ∀ insertion ∈ insertions,
    ∃ before after, source = before ++ after ∧ insertion.byte = utf8Length before := by
  intro insertion member
  cases own : insertion.ownLine with
  | none =>
      obtain ⟨before, after, isSource, isByte, -⟩ := (fit.inline insertion member own).place
      exact ⟨before, after, isSource, isByte⟩
  | some line =>
      obtain ⟨before, after, body, isSource, isByte, -⟩ := fit.own insertion member line own
      exact ⟨before, after, isSource, isByte⟩

variable {done rest : List Char}

/-- What is known of an insertion inside a line that stands at a given place. -/
theorem inline_at (fit : Fitting call source insertions) (split : source = done ++ rest)
    {insertion : Insertion} (member : insertion ∈ insertions) (own : insertion.ownLine = none)
    (here : insertion.byte = utf8Length done) :
    (∃ next, rest.head? = some next ∧ next ≠ '\n' ∧ next ≠ '\r' ∧
        (AtLineStart done → insertion.text.toList.head? = some '(')) ∨
      ∃ last, done.getLast? = some last ∧ last ≠ '\n' ∧ last ≠ '\r' := by
  obtain ⟨before, after, isSource, isByte, place⟩ := (fit.inline insertion member own).place
  obtain rfl : before = done :=
    eq_of_utf8Length_eq (isSource.symm.trans split) (isByte.symm.trans here)
  obtain rfl := List.append_cancel_left (isSource.symm.trans split)
  exact place

/-- A line of its own stands exactly ahead of the line it belongs to. -/
theorem ownLine_iff (fit : Fitting call source insertions) (split : source = done ++ rest)
    (start : AtLineStart done) {insertion : Insertion} (member : insertion ∈ insertions)
    (own : insertion.ownLine ≠ none) :
    insertion.ownLine = some (1 + done.count '\n') ↔ insertion.byte = utf8Length done := by
  obtain ⟨line, isOwn⟩ := Option.ne_none_iff_exists'.mp own
  obtain ⟨before, after, body, isSource, isByte, start', -, isLine, -⟩ :=
    fit.own insertion member line isOwn
  rw [isOwn, isByte, Option.some.injEq, isLine]
  constructor
  · intro lines
    rw [eq_of_count_eq (isSource.symm.trans split) start' start (by omega)]
  · intro bytes
    rw [eq_of_utf8Length_eq (isSource.symm.trans split) bytes]

/-- Where a character of a line stands ahead, there is no line of its own. -/
theorem own_eq_none (fit : Fitting call source insertions) (split : source = done ++ rest)
    (behind : ¬ AtLineStart done) {insertion : Insertion} (member : insertion ∈ insertions)
    (here : insertion.byte = utf8Length done) : insertion.ownLine = none := by
  cases own : insertion.ownLine with
  | none => rfl
  | some line =>
      obtain ⟨before, after, body, isSource, isByte, start, -⟩ := fit.own insertion member line own
      rw [eq_of_utf8Length_eq (isSource.symm.trans split) (isByte.symm.trans here)] at start
      exact absurd start behind

end Fitting

/-! ## What stands inside a line -/

/-- A character behind a byte is the source's own or belongs to an insertion further on. -/
theorem mem_glyphsOf_spread {insertions : List Insertion} {byte : Nat} {chars : List Char}
    {glyph : Glyph} (member : glyph ∈ glyphsOf (spread insertions byte chars)) :
    (glyph.injected = false ∧ glyph.char ∈ chars) ∨
      (glyph.injected = true ∧ ∃ before after, chars = before ++ after ∧ before ≠ [] ∧
        ∃ insertion ∈ insertions, insertion.byte = byte + utf8Length before ∧
          glyph.char ∈ insertion.text.toList) := by
  induction chars generalizing byte with
  | nil => exact absurd member List.not_mem_nil
  | cons char rest ih =>
      rw [spread, glyphsOf_cons, glyphsOf_append] at member
      rcases List.mem_append.mp member with own | member
      · obtain rfl := List.mem_singleton.mp own
        exact .inl ⟨rfl, List.mem_cons_self⟩
      rcases List.mem_append.mp member with here | later
      · obtain ⟨injected, insertion, inside, isByte, isChar⟩ := injected_of_mem_insertedAt here
        exact .inr ⟨injected, [char], rest, rfl, List.cons_ne_nil _ _, insertion, inside,
          by simpa using isByte, isChar⟩
      · rcases ih later with ⟨own, isChar⟩ | ⟨injected, before, after, rfl, -, insertion, inside,
          isByte, isChar⟩
        · exact .inl ⟨own, List.mem_cons_of_mem _ isChar⟩
        · exact .inr ⟨injected, char :: before, after, rfl, List.cons_ne_nil _ _, insertion, inside,
            by rw [isByte, utf8Length_cons, Nat.add_assoc], isChar⟩

/-- Behind a character other than a line end no line begins. -/
theorem not_atLineStart {done before : List Char} (filled : before ≠ []) (noFeed : '\n' ∉ before) :
    ¬ AtLineStart (done ++ before) := by
  intro start
  rcases List.eq_nil_or_concat before with rfl | ⟨front, last, rfl⟩
  · exact filled rfl
  · rw [List.concat_eq_append] at start noFeed
    have isFeed := start last (by rw [← List.append_assoc, List.getLast?_concat])
    exact noFeed (List.mem_append_right _ (List.mem_singleton.mpr isFeed.symm))

/-- **Inside a line no line ends**, and what is inserted there holds no carriage return either. -/
theorem Fitting.inside_row {call : Nat → List Char → Prop} {source : List Char}
    {insertions : List Insertion} (fit : Fitting call source insertions) {done row rest : List Char}
    (split : source = done ++ (row ++ rest)) (noFeed : '\n' ∉ row) {glyph : Glyph}
    (member : glyph ∈ glyphsOf (spread insertions (utf8Length done) row)) :
    glyph.char ≠ '\n' ∧ (glyph.injected = true → glyph.char ≠ '\r') := by
  rcases mem_glyphsOf_spread member with ⟨own, isChar⟩ | ⟨-, before, after, rfl, filled, insertion,
    inside, isByte, isChar⟩
  · exact ⟨fun same => noFeed (same ▸ isChar), fun injected => nomatch own.symm.trans injected⟩
  · have noFeed' : '\n' ∉ before := fun feed => noFeed (List.mem_append_left _ feed)
    have split' : source = (done ++ before) ++ (after ++ rest) := by
      rw [split]
      simp only [List.append_assoc]
    have none := fit.own_eq_none split' (not_atLineStart filled noFeed') inside
      (by rw [isByte, utf8Length_append])
    have kept := (fit.inline insertion inside none).text _ isChar
    exact ⟨kept.1, fun _ => kept.2⟩

/-! ## What stands at the beginning of a line -/

/-- What belongs to a call on a line of its own, ahead of its line end. -/
def IsCall (call : Nat → List Char → Prop) (line : Nat) (row : List Glyph) : Prop :=
  (∀ glyph ∈ row, glyph.injected = true) ∧ call line (row.map Glyph.char)

/-- The rows ahead of a line: calls for it, unless the line itself begins with an insertion, which
then stands in one of them. -/
def RowsAhead (call : Nat → List Char → Prop) (insertions : List Insertion) (line : Nat)
    (rows : List (List Glyph)) : Prop :=
  (¬ CrowdedAt insertions line → ∀ row ∈ rows, IsCall call line row) ∧
    (CrowdedAt insertions line → ∃ row ∈ rows, ¬ IsCall call line row)

/-- How many calls of their own precede a line. -/
def ownCount (insertions : List Insertion) (line : Nat) : Nat :=
  (insertions.filter fun insertion => insertion.ownLine == some line).length

/-- The characters of inserted texts, marked. -/
def injectedGlyphs (texts : List Insertion) : List Glyph :=
  glyphsOf (texts.map fun insertion => .injected insertion.text)

theorem injectedGlyphs_cons (first : Insertion) (rest : List Insertion) :
    injectedGlyphs (first :: rest) =
      (first.text.toList.map fun char => ⟨char, true⟩) ++ injectedGlyphs rest := rfl

theorem mem_injectedGlyphs {texts : List Insertion} {glyph : Glyph}
    (member : glyph ∈ injectedGlyphs texts) :
    glyph.injected = true ∧ ∃ insertion ∈ texts, glyph.char ∈ insertion.text.toList := by
  obtain ⟨piece, isPiece, inPiece⟩ := List.mem_flatMap.mp member
  obtain ⟨insertion, isHere, rfl⟩ := List.mem_map.mp isPiece
  obtain ⟨char, isChar, rfl⟩ := List.mem_map.mp inPiece
  exact ⟨rfl, insertion, isHere, isChar⟩

/-- Calls on lines of their own make up rows; what stands ahead of them goes into the first. -/
theorem exists_rowsOf_ahead {call : Nat → List Char → Prop} {line : Nat} {ahead : List Insertion}
    (own : ∀ insertion ∈ ahead, ∃ body, insertion.text.toList = body ++ ['\n'] ∧ '\n' ∉ body ∧
      body.getLast? = some ';' ∧ call line body)
    (filled : ahead ≠ []) {lead : List Glyph} (noFeed : ∀ glyph ∈ lead, glyph.char ≠ '\n')
    (later : List Glyph) :
    ∃ first rows, rowsOf Glyph.char (lead ++ (injectedGlyphs ahead ++ later)) =
        (lead ++ first) :: rows ++ rowsOf Glyph.char later ∧
      rows.length + 1 = ahead.length ∧ IsCall call line first ∧
      ∀ row ∈ rows, IsCall call line row := by
  induction ahead generalizing lead with
  | nil => exact absurd rfl filled
  | cons insertion ahead ih =>
      obtain ⟨body, isText, noFeed', isLast, isCall⟩ := own insertion List.mem_cons_self
      obtain ⟨front, isBody⟩ := List.getLast?_eq_some_iff.mp isLast
      let row : List Glyph := body.map fun char => ⟨char, true⟩
      have ownCall : IsCall call line row := by
        refine ⟨fun glyph member => ?_, by simpa [row, Function.comp_def] using isCall⟩
        obtain ⟨char, -, rfl⟩ := List.mem_map.mp member
        rfl
      have cut : ∀ later, rowsOf Glyph.char (lead ++ row ++ [⟨'\n', true⟩] ++ later) =
          (lead ++ row) :: rowsOf Glyph.char later := by
        intro later
        refine rowsOf_append (fun glyph member => ?_) (.inl ⟨_, rfl, rfl, fun last ends => ?_⟩)
        · rcases List.mem_append.mp member with isLead | isRow
          · exact noFeed glyph isLead
          · obtain ⟨char, isChar, rfl⟩ := List.mem_map.mp isRow
            exact fun same => noFeed' (same ▸ isChar)
        · obtain rfl : (⟨';', true⟩ : Glyph) = last := by
            simpa [row, isBody] using ends
          decide
      have split : ∀ later, lead ++ (injectedGlyphs (insertion :: ahead) ++ later) =
          lead ++ row ++ [⟨'\n', true⟩] ++ (injectedGlyphs ahead ++ later) := by
        intro later
        rw [injectedGlyphs_cons, isText, List.map_append]
        simp only [List.append_assoc]
        rfl
      rw [split, cut]
      by_cases alone : ahead = []
      · subst alone
        exact ⟨row, [], rfl, rfl, ownCall, fun _ none => absurd none List.not_mem_nil⟩
      · obtain ⟨first, rows, isRows, length, isFirst, all⟩ :=
          ih (fun other member => own other (List.mem_cons_of_mem _ member)) alone
            (show ∀ glyph ∈ ([] : List Glyph), glyph.char ≠ '\n' from
              fun _ none => absurd none List.not_mem_nil)
        rw [List.nil_append] at isRows
        refine ⟨row, first :: rows, by rw [isRows]; rfl, by simp [length], ownCall, ?_⟩
        exact List.forall_mem_cons.mpr ⟨isFirst, all⟩

namespace Fitting

variable {call : Nat → List Char → Prop} {source : List Char} {insertions : List Insertion}
  {done rest : List Char}

/-- **At the beginning of a line stand insertions that open parentheses in it, and behind them the
calls ahead of it.** -/
theorem exists_inserted (fit : Fitting call source insertions) (split : source = done ++ rest)
    (start : AtLineStart done) :
    ∃ inside ahead, glyphsOf (insertedAt insertions (utf8Length done)) =
        injectedGlyphs inside ++ injectedGlyphs ahead ∧
      (∀ insertion ∈ inside, (∀ char ∈ insertion.text.toList, char ≠ '\n' ∧ char ≠ '\r') ∧
        insertion.text.toList.head? = some '(' ∧
        ∃ next, rest.head? = some next ∧ next ≠ '\n' ∧ next ≠ '\r') ∧
      (∀ insertion ∈ ahead, rest ≠ [] ∧ ∃ body, insertion.text.toList = body ++ ['\n'] ∧
        '\n' ∉ body ∧ body.getLast? = some ';' ∧ call (1 + done.count '\n') body) ∧
      ownCount insertions (1 + done.count '\n') = ahead.length ∧
      (CrowdedAt insertions (1 + done.count '\n') ↔ inside ≠ [] ∧ ahead ≠ []) := by
  obtain ⟨inside, ahead, isSplit, isInside, isAhead⟩ := fit.order (utf8Length done)
  have here : ∀ insertion, insertion ∈ inside ++ ahead ↔
      insertion ∈ insertions ∧ insertion.byte = utf8Length done := by
    intro insertion
    rw [← isSplit, List.mem_filter, beq_iff_eq]
  refine ⟨inside, ahead, ?_, ?_, ?_, ?_, ?_⟩
  · rw [insertedAt, isSplit, List.map_append, glyphsOf_append]
    rfl
  · intro insertion member
    obtain ⟨isInsertion, isByte⟩ := (here insertion).mp (List.mem_append_left _ member)
    have own := isInside insertion member
    refine ⟨(fit.inline insertion isInsertion own).text, ?_⟩
    rcases fit.inline_at split isInsertion own isByte with
      ⟨next, isNext, notFeed, notReturn, opens⟩ | ⟨last, isLast, notFeed, -⟩
    · exact ⟨opens start, next, isNext, notFeed, notReturn⟩
    · exact absurd (start last isLast) notFeed
  · intro insertion member
    obtain ⟨isInsertion, isByte⟩ := (here insertion).mp (List.mem_append_right _ member)
    have own := (fit.ownLine_iff split start isInsertion (isAhead insertion member)).mpr isByte
    obtain ⟨before, after, body, isSource, isByte', -, filled, isLine, isBody⟩ :=
      fit.own insertion isInsertion _ own
    obtain rfl := eq_of_utf8Length_eq (isSource.symm.trans split) (isByte'.symm.trans isByte)
    obtain rfl := List.append_cancel_left (isSource.symm.trans split)
    exact ⟨filled, body, isBody⟩
  · have counted : insertions.filter (fun insertion =>
        insertion.ownLine == some (1 + done.count '\n')) = ahead := by
      have restricted : insertions.filter (fun insertion =>
          insertion.ownLine == some (1 + done.count '\n')) =
          (insertions.filter fun insertion => insertion.byte == utf8Length done).filter
            fun insertion => insertion.ownLine == some (1 + done.count '\n') := by
        rw [List.filter_filter]
        refine List.filter_congr fun insertion member => ?_
        rw [Bool.eq_iff_iff, Bool.and_eq_true, beq_iff_eq, beq_iff_eq]
        refine ⟨fun own => ⟨own, ?_⟩, And.left⟩
        exact (fit.ownLine_iff split start member (by rw [own]; exact Option.some_ne_none _)).mp own
      rw [restricted, isSplit, List.filter_append]
      have skipped : inside.filter (fun insertion =>
          insertion.ownLine == some (1 + done.count '\n')) = [] := by
        rw [List.filter_eq_nil_iff]
        intro insertion member
        rw [isInside insertion member]
        exact Bool.false_ne_true
      have all : ahead.filter (fun insertion =>
          insertion.ownLine == some (1 + done.count '\n')) = ahead := by
        rw [List.filter_eq_self]
        intro insertion member
        obtain ⟨isInsertion, isByte⟩ := (here insertion).mp (List.mem_append_right _ member)
        rw [beq_iff_eq]
        exact (fit.ownLine_iff split start isInsertion (isAhead insertion member)).mpr isByte
      rw [skipped, all, List.nil_append]
    rw [ownCount, counted]
  · constructor
    · rintro ⟨own, isOwn, inner, isInner, isLine, isInline, same⟩
      have filled : own.ownLine ≠ none := by rw [isLine]; exact Option.some_ne_none _
      have isByte := (fit.ownLine_iff split start isOwn filled).mp isLine
      have placed : ∀ insertion ∈ insertions, insertion.byte = utf8Length done →
          insertion ∈ inside ∨ insertion ∈ ahead :=
        fun insertion member byte => List.mem_append.mp ((here insertion).mpr ⟨member, byte⟩)
      constructor
      · rcases placed inner isInner (same.trans isByte) with member | member
        · exact List.ne_nil_of_mem member
        · exact absurd isInline (isAhead inner member)
      · rcases placed own isOwn isByte with member | member
        · exact absurd (isInside own member) filled
        · exact List.ne_nil_of_mem member
    · rintro ⟨filled, filled'⟩
      obtain ⟨inner, isInner⟩ := List.exists_mem_of_ne_nil _ filled
      obtain ⟨own, isOwn⟩ := List.exists_mem_of_ne_nil _ filled'
      obtain ⟨member, isByte⟩ := (here inner).mp (List.mem_append_left _ isInner)
      obtain ⟨member', isByte'⟩ := (here own).mp (List.mem_append_right _ isOwn)
      exact ⟨own, member', inner, member,
        (fit.ownLine_iff split start member' (isAhead own isOwn)).mpr isByte',
        isInside inner isInner, isByte.trans isByte'.symm⟩

/-! ## Line by line -/

/-- The last character of a row does not make its line end longer. -/
theorem isEnding_feed {row : List Char} {front : List Glyph} (kept : sourceChars front = row)
    (inside : ∀ glyph ∈ front, glyph.injected = true → glyph.char ≠ '\r')
    (noReturn : ∀ last, row.getLast? = some last → last ≠ '\r') :
    ∀ last, front.getLast? = some last → last.char ≠ '\r' := by
  intro last isLast
  by_cases injected : last.injected = true
  · exact inside last (List.mem_of_getLast? isLast) injected
  · rw [Bool.not_eq_true] at injected
    exact noReturn _ (kept ▸ getLast?_sourceChars isLast injected)

/-- **The line end behind a row ends it**, whatever was inserted into it, and the next line begins
there unless the text ends. -/
theorem rowsOf_row (fit : Fitting call source insertions) {row ending : List Char}
    (split : source = done ++ row ++ (ending ++ rest)) (isEnding : IsEnding id row ending rest)
    {front : List Glyph} (kept : sourceChars front = row)
    (inside : ∀ glyph ∈ front, glyph.char ≠ '\n' ∧ (glyph.injected = true → glyph.char ≠ '\r')) :
    (rest = [] ∧ rowsOf Glyph.char (front ++
        glyphsOf (spread insertions (utf8Length (done ++ row)) (ending ++ rest))) = [front]) ∨
      (ending ≠ [] ∧ (∃ middle, done ++ row ++ ending = done ++ row ++ middle ++ ['\n'] ∧
          '\n' ∉ middle) ∧
        rowsOf Glyph.char (front ++
          glyphsOf (spread insertions (utf8Length (done ++ row)) (ending ++ rest))) =
        front :: rowsOf Glyph.char (glyphsOf
          (insertedAt insertions (utf8Length (done ++ row ++ ending)) ++
            spread insertions (utf8Length (done ++ row ++ ending)) rest))) := by
  have noFeed : ∀ glyph ∈ front, glyph.char ≠ '\n' := fun glyph member => (inside glyph member).1
  rcases isEnding with ⟨feed, rfl, rfl, noReturn⟩ | ⟨back, feed, rfl, rfl, rfl⟩ | ⟨rfl, rfl, filled⟩
  · refine .inr ⟨List.cons_ne_nil _ _, ⟨[], by rw [List.append_nil], List.not_mem_nil⟩, ?_⟩
    have isEnd : IsEnding Glyph.char front [⟨'\n', false⟩] (glyphsOf
        (insertedAt insertions (utf8Length (done ++ row ++ ['\n'])) ++
          spread insertions (utf8Length (done ++ row ++ ['\n'])) rest)) :=
      .inl ⟨_, rfl, rfl, isEnding_feed kept (fun glyph member => (inside glyph member).2) noReturn⟩
    rw [← rowsOf_append noFeed isEnd]
    simp [spread, Piece.glyphs, Nat.add_assoc]
  · refine .inr ⟨List.cons_ne_nil _ _, ⟨['\r'], by simp, by decide⟩, ?_⟩
    have isEnd : IsEnding Glyph.char front [⟨'\r', false⟩, ⟨'\n', false⟩] (glyphsOf
        (insertedAt insertions (utf8Length (done ++ row ++ ['\r', '\n'])) ++
          spread insertions (utf8Length (done ++ row ++ ['\r', '\n'])) rest)) :=
      .inr (.inl ⟨_, _, rfl, rfl, rfl⟩)
    rw [← rowsOf_append noFeed isEnd]
    have between : insertedAt insertions (utf8Length (done ++ row) + '\r'.utf8Size) = [] := by
      have split' : source = (done ++ row ++ ['\r']) ++ ('\n' :: rest) := by
        rw [split]
        simp
      rw [insertedAt, List.map_eq_nil_iff, List.filter_eq_nil_iff]
      intro insertion member here
      have isByte : insertion.byte = utf8Length (done ++ row ++ ['\r']) := by
        simpa [Nat.add_assoc] using here
      have notStart : ¬ AtLineStart (done ++ row ++ ['\r']) := by
        intro start
        exact absurd (start '\r' List.getLast?_concat) (by decide)
      have own := fit.own_eq_none split' notStart member isByte
      rcases fit.inline_at split' member own isByte with ⟨next, isNext, notFeed, -⟩ |
        ⟨last, isLast, -, notReturn⟩
      · exact notFeed (Option.some.inj isNext).symm
      · rw [List.getLast?_concat] at isLast
        exact notReturn (Option.some.inj isLast).symm
    simp only [List.cons_append, List.nil_append, spread, between, glyphsOf_cons, Piece.glyphs]
    simp only [List.append_assoc, List.cons_append, List.nil_append, utf8Length_append,
      utf8Length_cons, utf8Length_nil, Nat.add_zero, Nat.add_assoc, glyphsOf_append]
  · refine .inl ⟨rfl, ?_⟩
    have isEnd : IsEnding Glyph.char front [] [] := by
      refine .inr (.inr ⟨rfl, rfl, ?_⟩)
      rintro rfl
      exact filled kept.symm
    have cut := rowsOf_append noFeed isEnd
    simpa [spread, rowsOf] using cut

/-- At the end of the source, behind a line end, nothing is inserted. -/
theorem insertedAt_end (fit : Fitting call source insertions) (split : source = done)
    (start : AtLineStart done) : glyphsOf (insertedAt insertions (utf8Length done)) = [] := by
  have split' : source = done ++ [] := split.trans (List.append_nil _).symm
  obtain ⟨inside, ahead, isInserted, isInside, isAhead, -⟩ := fit.exists_inserted split' start
  have noInside : inside = [] := by
    refine List.eq_nil_iff_forall_not_mem.mpr fun insertion member => ?_
    obtain ⟨-, -, next, isNext, -⟩ := isInside insertion member
    cases isNext
  have noAhead : ahead = [] :=
    List.eq_nil_iff_forall_not_mem.mpr fun insertion member => (isAhead insertion member).1 rfl
  rw [isInserted, noInside, noAhead]
  rfl

/-- **The rows up to the end of a line**: the calls ahead of it, and then the line with what was
inserted into it. What is inserted at its beginning goes into the first row there is. -/
theorem exists_rowsOf_line (fit : Fitting call source insertions)
    (never : ∀ line chars, call line chars → chars.head? ≠ some '(') {row : List Char}
    (split : source = done ++ (row ++ rest)) (start : AtLineStart done) (noFeed : '\n' ∉ row)
    (tail : List Glyph) :
    ∃ before front, rowsOf Glyph.char (glyphsOf (insertedAt insertions (utf8Length done)) ++
          (glyphsOf (spread insertions (utf8Length done) row) ++ tail)) =
        before ++ rowsOf Glyph.char (front ++ tail) ∧
      sourceChars front = row ∧
      (∀ glyph ∈ front, glyph.char ≠ '\n' ∧ (glyph.injected = true → glyph.char ≠ '\r')) ∧
      ownCount insertions (1 + done.count '\n') = before.length ∧
      RowsAhead call insertions (1 + done.count '\n') before := by
  obtain ⟨inside, ahead, isInserted, isInside, isAhead, count, crowded⟩ :=
    fit.exists_inserted split start
  let middle := glyphsOf (spread insertions (utf8Length done) row)
  have isMiddle : ∀ glyph ∈ middle, glyph.char ≠ '\n' ∧
      (glyph.injected = true → glyph.char ≠ '\r') :=
    fun glyph member => fit.inside_row split noFeed member
  have isLead : ∀ glyph ∈ injectedGlyphs inside, glyph.char ≠ '\n' ∧
      (glyph.injected = true → glyph.char ≠ '\r') := by
    intro glyph member
    obtain ⟨-, insertion, isInsertion, isChar⟩ := mem_injectedGlyphs member
    have kept := (isInside insertion isInsertion).1 _ isChar
    exact ⟨kept.1, fun _ => kept.2⟩
  have keptMiddle : sourceChars middle = row := sourceChars_spread insertions _ row
  rw [isInserted, List.append_assoc, count]
  by_cases none : ahead = []
  · refine ⟨[], injectedGlyphs inside ++ middle, ?_, ?_, ?_, congrArg List.length none, ?_, ?_⟩
    · rw [none, List.append_assoc]
      rfl
    · rw [sourceChars_append, keptMiddle,
        sourceChars_of_injected fun glyph member => (mem_injectedGlyphs member).1, List.nil_append]
    · exact List.forall_mem_append.mpr ⟨isLead, isMiddle⟩
    · exact fun _ row member => absurd member List.not_mem_nil
    · exact fun isCrowded => absurd none (crowded.mp isCrowded).2
  · obtain ⟨first, others, isRows, length, isFirst, isOther⟩ :=
      exists_rowsOf_ahead (fun insertion member => (isAhead insertion member).2) none
        (fun glyph member => (isLead glyph member).1) (middle ++ tail)
    refine ⟨(injectedGlyphs inside ++ first) :: others, middle, isRows, keptMiddle, isMiddle,
      length.symm, fun notCrowded => ?_, fun isCrowded => ?_⟩
    · have noInside : inside = [] := by
        by_contra filled
        exact notCrowded (crowded.mpr ⟨filled, none⟩)
      rw [noInside]
      exact List.forall_mem_cons.mpr ⟨isFirst, isOther⟩
    · refine ⟨_, List.mem_cons_self, fun isCall => never _ _ isCall.2 ?_⟩
      obtain ⟨opener, others, rfl⟩ := List.exists_cons_of_ne_nil (crowded.mp isCrowded).1
      obtain ⟨more, isText⟩ :=
        List.head?_eq_some_iff.mp (isInside opener List.mem_cons_self).2.1
      rw [injectedGlyphs_cons, isText]
      rfl

/-- **The rows of the woven text lie over the lines of the source** from the beginning of any line
on, as the map says. The induction is on what is left of the source: one step takes off a line. -/
theorem laid_woven (fit : Fitting call source insertions)
    (never : ∀ line chars, call line chars → chars.head? ≠ some '(')
    (split : source = done ++ rest) (start : AtLineStart done) :
    Laid (RowsAhead call insertions) sourceChars (1 + done.count '\n') (charLines rest)
      (rowsOf Glyph.char (glyphsOf (insertedAt insertions (utf8Length done) ++
        spread insertions (utf8Length done) rest)))
      ((List.range' (1 + done.count '\n') (charLines rest).length).flatMap fun line =>
        List.replicate (ownCount insertions line + 1) line) := by
  induction length : rest.length using Nat.strongRecOn generalizing done rest with
  | ind size ih =>
      by_cases empty : rest = []
      · subst empty
        rw [glyphsOf_append, fit.insertedAt_end (split.trans (List.append_nil _)) start]
        exact Laid.nil _
      obtain ⟨row, ending, later, rfl, noFeed, isEnding⟩ := exists_row empty
      rw [List.append_assoc] at split
      have split' : source = done ++ row ++ (ending ++ later) :=
        split.trans (List.append_assoc ..).symm
      have woven : glyphsOf (insertedAt insertions (utf8Length done) ++
          spread insertions (utf8Length done) (row ++ ending ++ later)) =
          glyphsOf (insertedAt insertions (utf8Length done)) ++
            (glyphsOf (spread insertions (utf8Length done) row) ++
              glyphsOf (spread insertions (utf8Length (done ++ row)) (ending ++ later))) := by
        rw [glyphsOf_append, List.append_assoc row, spread_append, glyphsOf_append,
          utf8Length_append]
      obtain ⟨before, front, rows, kept, isFront, count, rowsAhead⟩ :=
        fit.exists_rowsOf_line never split start noFeed
          (glyphsOf (spread insertions (utf8Length (done ++ row)) (ending ++ later)))
      rw [woven, rows, charLines_append noFeed isEnding, List.length_cons, List.range'_succ,
        List.flatMap_cons, count]
      rcases fit.rowsOf_row split' isEnding kept isFront with ⟨rfl, isRows⟩ |
        ⟨filled, ⟨between, isEnd, noFeed'⟩, isRows⟩
      · rw [isRows]
        exact Laid.cons rowsAhead kept (Laid.nil _)
      · have lines : (done ++ row ++ ending).count '\n' = done.count '\n' + 1 := by
          rw [isEnd]
          simp [List.count_append, List.count_eq_zero.mpr noFeed, List.count_eq_zero.mpr noFeed']
        have start' : AtLineStart (done ++ row ++ ending) := by
          intro last isLast
          rw [isEnd, List.getLast?_concat] at isLast
          exact (Option.some.inj isLast).symm
        have shorter : later.length < size := by
          have := List.length_pos_iff.mpr filled
          simp only [List.length_append] at length
          omega
        have split'' : source = done ++ row ++ ending ++ later :=
          split'.trans (List.append_assoc ..).symm
        have laid := ih _ shorter split'' start' rfl
        rw [lines, ← Nat.add_assoc] at laid
        rw [isRows]
        exact Laid.cons rowsAhead kept laid

end Fitting

end LuaCoverage.Instrument
