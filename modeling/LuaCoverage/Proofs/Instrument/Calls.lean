import LuaCoverage.Proofs.Analysis.ParsedSource
import LuaCoverage.Proofs.Instrument.Sites
import LuaCoverage.Proofs.Instrument.WovenRows

/-!
# The calls that go into a source

The text of a call is a single line: the tracker's name is a name, the literal of the file escapes
line ends, and numbers are digits (`oneLine_hitCall`). The places are where tokens of the source
begin or end. Both together make the insertions fit the source (`fitting_insertions`), and the only
ones at the beginning of a line are openers of conditions and calls on lines of their own.
-/

set_option autoImplicit false

namespace LuaCoverage.Instrument

open Syntax Text

/-! ## Texts without line ends -/

/-- Characters without line ends. -/
def OneLine (chars : List Char) : Prop := ∀ char ∈ chars, char ≠ '\n' ∧ char ≠ '\r'

instance (chars : List Char) : Decidable (OneLine chars) :=
  List.decidableBAll (fun char => char ≠ '\n' ∧ char ≠ '\r') chars

theorem OneLine.append {first later : List Char} (single : OneLine first)
    (single' : OneLine later) : OneLine (first ++ later) :=
  List.forall_mem_append.mpr ⟨single, single'⟩

/-- A name consists of characters that words go on with. -/
theorem continuesWord_of_isName {name : String} (valid : isName name = true) :
    ∀ char ∈ name.toList, Lexical.continuesWord char = true := by
  unfold isName at valid
  cases isText : name.toList with
  | nil => exact fun _ none => absurd none List.not_mem_nil
  | cons first rest =>
      rw [isText, Bool.and_eq_true, List.all_eq_true] at valid
      obtain ⟨starts, continues⟩ := valid
      refine List.forall_mem_cons.mpr ⟨?_, continues⟩
      simp only [Lexical.startsWord, Lexical.continuesWord, Char.isAlphanum, Bool.or_eq_true]
        at starts ⊢
      exact starts.imp_left .inl

theorem oneLine_of_isName {name : String} (valid : isName name = true) : OneLine name.toList := by
  intro char member
  have continues := continuesWord_of_isName valid char member
  constructor
  all_goals
    rintro rfl
    revert continues
    decide

theorem decimalDigit_ne (value : Nat) :
    decimalDigit value ≠ '\n' ∧ decimalDigit value ≠ '\r' := by
  have digits : ∀ digit < 10,
      Char.ofNat ('0'.toNat + digit) ≠ '\n' ∧ Char.ofNat ('0'.toNat + digit) ≠ '\r' := by decide
  exact digits _ (Nat.mod_lt _ (by decide))

theorem oneLine_quoteChar (char : Char) : OneLine (quoteChar char) := by
  unfold quoteChar
  split
  · decide
  split
  · decide
  split
  · decide
  split
  · decide
  split
  · intro other member
    rcases List.mem_cons.mp member with rfl | member
    · decide
    · simp only [List.mem_cons, List.not_mem_nil, or_false] at member
      rcases member with rfl | rfl | rfl <;> exact decimalDigit_ne _
  · rename_i notFeed notReturn _
    intro other member
    obtain rfl := List.mem_singleton.mp member
    exact ⟨notFeed, notReturn⟩

/-- The literal of a file's name holds no line end, whatever the name holds. -/
theorem oneLine_quote (name : String) : OneLine (quote name).toList := by
  have inside : OneLine (name.toList.flatMap quoteChar) := by
    intro char member
    obtain ⟨own, -, inside⟩ := List.mem_flatMap.mp member
    exact oneLine_quoteChar own char inside
  have opened : OneLine ('"' :: name.toList.flatMap quoteChar) :=
    List.forall_mem_cons.mpr ⟨by decide, inside⟩
  rw [quote, String.toList_ofList, quoteChars]
  exact opened.append (by decide)

theorem isDigit_of_mem_toString {number : Nat} {char : Char}
    (member : char ∈ (toString number).toList) : char.isDigit = true := by
  rw [show toString number = Nat.repr number from rfl, Nat.toList_repr] at member
  exact Nat.isDigit_of_mem_toDigits (by decide) (by decide) member

theorem oneLine_toString (number : Nat) : OneLine (toString number).toList := by
  intro char member
  have digit := isDigit_of_mem_toString member
  constructor
  all_goals
    rintro rfl
    revert digit
    decide

section Calls

variable {tracker : String} (valid : isName tracker = true) (name : String) (line : Nat)

include valid

theorem oneLine_hitCall (block : BlockId) :
    OneLine (hitCall tracker (quote name) line block).toList := by
  simp only [hitCall, String.toList_append]
  exact ((((((oneLine_of_isName valid).append (by decide)).append (oneLine_quote name)).append
    (by decide)).append (oneLine_toString line)).append (by decide)).append (oneLine_toString block)
      |>.append (by decide)

theorem oneLine_enterCall : OneLine (enterCall tracker (quote name) line).toList := by
  simp only [enterCall, String.toList_append]
  exact (((((by decide : OneLine " ".toList).append (oneLine_of_isName valid)).append
    (by decide)).append (oneLine_quote name)).append (by decide)).append (oneLine_toString line)
      |>.append (by decide)

/-- A call begins with the tracker's name. -/
theorem head?_hitCall (block : BlockId) :
    ∃ first, (hitCall tracker (quote name) line block).toList.head? = some first ∧
      Lexical.startsWord first = true := by
  unfold isName at valid
  cases isText : tracker.toList with
  | nil =>
      rw [isText] at valid
      cases valid
  | cons first rest =>
      rw [isText, Bool.and_eq_true] at valid
      refine ⟨first, ?_, valid.1⟩
      simp only [hitCall, String.toList_append, isText, List.cons_append]
      rfl

end Calls

/-! ## Places in the source -/

theorem start_of_located {source : List Char} {span : Span} (located : Located source span) :
    ∃ before after, source = before ++ after ∧ span.first.byte = utf8Length before ∧
      span.first.line = 1 + before.count '\n' ∧
      ∃ next, after.head? = some next ∧ next ≠ '\n' ∧ next ≠ '\r' := by
  obtain ⟨before, text, after, isSource, isInk, rfl⟩ := located
  obtain ⟨⟨next, isHead, noBlank⟩, -⟩ := isInk_iff.mp isInk
  refine ⟨before, text ++ after, by rw [isSource, List.append_assoc], ?_, ?_, next, ?_, ?_, ?_⟩
  · rw [Position.byte_advance]
    exact Nat.zero_add _
  · rw [Position.line_advance]
    rfl
  · rw [List.head?_append, isHead]
    rfl
  all_goals
    rintro rfl
    revert noBlank
    decide

theorem end_of_located {source : List Char} {span : Span} (located : Located source span) :
    ∃ before after, source = before ++ after ∧ span.last.byte = utf8Length before ∧
      ∃ last, before.getLast? = some last ∧ last ≠ '\n' ∧ last ≠ '\r' := by
  obtain ⟨before, text, after, isSource, isInk, rfl⟩ := located
  obtain ⟨-, last, isLast, notEnd⟩ := isInk_iff.mp isInk
  refine ⟨before ++ text, after, isSource, ?_, last, ?_, notEnd⟩
  · rw [Position.byte_advance]
    exact Nat.zero_add _
  · rw [List.getLast?_append, isLast]
    rfl

/-- The characters before a place on its line are those behind the last line feed. -/
theorem lineBefore_eq (front rest line : List Char) (byte : Nat) (noFeed : '\n' ∉ line) :
    ∃ start, line.reverse ++ front =
        start ++ lineBefore (front ++ rest) byte (byte + utf8Length front) line ∧
      AtLineStart start ∧
      '\n' ∉ lineBefore (front ++ rest) byte (byte + utf8Length front) line := by
  induction front generalizing byte line with
  | nil =>
      have here : lineBefore ([] ++ rest) byte (byte + utf8Length []) line = line.reverse := by
        cases rest with
        | nil => rfl
        | cons char rest =>
            rw [List.nil_append, utf8Length_nil, lineBefore,
              if_pos (Nat.le_of_eq (Nat.add_zero byte))]
      rw [here, List.append_nil]
      refine ⟨[], rfl, nofun, ?_⟩
      rwa [List.mem_reverse]
  | cons char front ih =>
      have behind : ¬ byte + utf8Length (char :: front) ≤ byte := by
        have := char.utf8Size_pos
        rw [utf8Length_cons]
        omega
      rw [List.cons_append, lineBefore, if_neg behind, utf8Length_cons, ← Nat.add_assoc]
      by_cases isFeed : char = '\n'
      · rw [if_pos isFeed]
        obtain ⟨start, split, atStart, noFeed'⟩ := ih [] (byte + char.utf8Size) List.not_mem_nil
        rw [List.reverse_nil, List.nil_append] at split
        refine ⟨line.reverse ++ char :: start, ?_, ?_, noFeed'⟩
        · rw [List.append_assoc, List.cons_append, ← split]
        · intro last isLast
          rcases List.eq_nil_or_concat start with rfl | ⟨front', other, rfl⟩
          · rw [List.getLast?_concat] at isLast
            exact (Option.some.inj isLast).symm.trans isFeed
          · rw [List.concat_eq_append] at isLast atStart
            rw [← List.cons_append, ← List.append_assoc, List.getLast?_concat] at isLast
            exact (Option.some.inj isLast) ▸ atStart other List.getLast?_concat
      · rw [if_neg isFeed]
        have noFeed' : '\n' ∉ char :: line := by
          rw [List.mem_cons, not_or]
          exact ⟨Ne.symm isFeed, noFeed⟩
        obtain ⟨start, split, rest⟩ := ih (char :: line) (byte + char.utf8Size) noFeed'
        refine ⟨start, ?_, rest⟩
        rw [← split, List.reverse_cons, List.append_assoc]
        rfl

/-- The blanks and other characters between the beginning of a line and a byte. -/
def indentAt (source : String) (byte : Nat) : List Char := lineBefore source.toList 0 byte []

/-- The line that a place lies on begins behind a line end, and what stands between has none. -/
theorem exists_indentAt {source : String} {before after : List Char}
    (split : source.toList = before ++ after) :
    ∃ start, before = start ++ indentAt source (utf8Length before) ∧ AtLineStart start ∧
      '\n' ∉ indentAt source (utf8Length before) := by
  have found := lineBefore_eq before after [] 0 List.not_mem_nil
  rw [← split, Nat.zero_add] at found
  exact found

/-! ## Where insertions go -/

/-- A call on a line of its own ahead of a line, as it stands there. -/
def IsOwnCall (tracker literal : String) (sites : List Site) (line : Nat) (chars : List Char) :
    Prop :=
  ∃ site ∈ sites, site.line = line ∧ ∃ indent : List Char, indent.all isWhiteSpace = true ∧
    chars = indent ++ ((hitCall tracker literal line site.block).toList ++ [';'])

/-- No call on a line of its own begins with a parenthesis. -/
theorem IsOwnCall.head?_ne {tracker name : String} (valid : isName tracker = true)
    {sites : List Site} {line : Nat} {chars : List Char}
    (isCall : IsOwnCall tracker (quote name) sites line chars) : chars.head? ≠ some '(' := by
  obtain ⟨site, -, -, indent, blank, rfl⟩ := isCall
  cases indent with
  | nil =>
      obtain ⟨first, isFirst, starts⟩ := head?_hitCall valid name line site.block
      rw [List.nil_append, List.head?_append, isFirst]
      rintro opens
      obtain rfl : first = '(' := Option.some.inj opens
      revert starts
      decide
  | cons first indent =>
      rw [List.cons_append, List.head?_cons]
      rintro opens
      obtain rfl : first = '(' := Option.some.inj opens
      rw [List.all_cons, Bool.and_eq_true] at blank
      exact absurd blank.1 (by decide)

/-- An insertion inside a line that does not begin the line. -/
structure Behind (source : List Char) (insertion : Insertion) : Prop where
  inline : Inline source insertion
  own : insertion.ownLine = none
  place : ∃ before after, source = before ++ after ∧ insertion.byte = utf8Length before ∧
    ¬ AtLineStart before

/-- What opens the parentheses around a condition. -/
def opener (tracker literal : String) (place : Candidate) (byte : Nat) : Insertion :=
  ⟨byte, "(" ++ hitCall tracker literal place.line place.block ++ " or true) and (", none⟩

/-- The call on a line of its own for a statement at a byte. -/
def ownCall (source tracker literal : String) (place : Candidate) (byte : Nat) : Insertion :=
  ⟨byte - (String.ofList (indentAt source byte)).utf8ByteSize,
    String.ofList (indentAt source byte) ++ hitCall tracker literal place.line place.block ++ ";\n",
    some place.line⟩

/-- What goes in where a token ends does not begin a line. -/
theorem behind_of_end {source : List Char} {span : Span} (located : Located source span)
    {text : String} (single : OneLine text.toList) :
    Behind source ⟨span.last.byte, text, none⟩ := by
  obtain ⟨before, after, split, isByte, last, isLast, notEnd⟩ := end_of_located located
  refine ⟨⟨single, before, after, split, isByte, .inr ⟨last, isLast, notEnd⟩⟩, rfl, before, after,
    split, isByte, fun start => notEnd.1 (start last isLast)⟩

section Placing

variable {source tracker : String} {analysis : Analysis} (lies : analysis.LiesIn source.toList)
  (valid : isName tracker = true) (name : String) {place : Candidate} {insertion : Insertion}

include lies valid

/-- Of the two insertions for a condition only the first may begin a line. -/
theorem opener_or_behind {condition : Condition} (member : condition ∈ analysis.conditions)
    (placement : place.placement = .condition condition.startByte condition.endByte)
    (isHere : insertion ∈ insertionsFor source tracker (quote name) place) :
    (insertion = opener tracker (quote name) place condition.startByte ∧
        Inline source.toList insertion) ∨ Behind source.toList insertion := by
  obtain ⟨span, located, -, -, isStart, isEnd⟩ := lies.conditions condition member
  unfold insertionsFor at isHere
  simp only [placement, List.mem_cons, List.not_mem_nil, or_false] at isHere
  rcases isHere with rfl | rfl
  · refine .inl ⟨rfl, ?_, ?_⟩
    · simp only [String.toList_append]
      exact ((by decide : OneLine "(".toList).append (oneLine_hitCall valid name _ _)).append
        (by decide)
    · obtain ⟨before, after, split, isByte, -, next, isNext, notFeed, notReturn⟩ :=
        start_of_located located
      refine ⟨before, after, split, isStart.trans isByte, .inl ⟨next, isNext, notFeed, notReturn,
        fun _ => ?_⟩⟩
      simp only [String.toList_append, List.append_assoc]
      rfl
  · rw [isEnd]
    exact .inr (behind_of_end located (by decide))

/-- The insertion for a statement is a line of its own or does not begin a line. -/
theorem own_or_behind {sites : List Site} {start : Statement} (member : start ∈ analysis.statements)
    (placement : place.placement = .statement start.byte) (isLine : place.line = start.line)
    (isSite : ∃ site ∈ sites, site.line = place.line ∧ site.block = place.block)
    (isHere : insertion ∈ insertionsFor source tracker (quote name) place) :
    ((indentAt source start.byte).all isWhiteSpace = true ∧
        insertion = ownCall source tracker (quote name) place start.byte ∧
        OwnLine (IsOwnCall tracker (quote name) sites) source.toList place.line insertion) ∨
      Behind source.toList insertion := by
  obtain ⟨span, located, isFirst, -, isStart⟩ := lies.statements start member
  obtain ⟨before, after, split, isByte, lines, next, isNext, notFeed, notReturn⟩ :=
    start_of_located located
  obtain ⟨front, isBefore, atStart, noFeed⟩ := exists_indentAt split
  have isPlace : start.byte = utf8Length before := isStart.trans isByte
  rw [← isPlace] at isBefore noFeed
  have oneCall := oneLine_hitCall valid name place.line place.block
  unfold insertionsFor at isHere
  simp only [placement] at isHere
  split at isHere
  · rename_i blank
    obtain rfl := List.mem_singleton.mp isHere
    refine .inl ⟨blank, rfl, front, indentAt source start.byte ++ after,
      indentAt source start.byte ++ ((hitCall tracker (quote name) place.line place.block).toList ++
        [';']), ?_, ?_, atStart, ?_, ?_, ?_, ?_, ?_, ?_⟩
    · rw [split, isBefore, List.append_assoc]
    · have bytes := congrArg utf8Length isBefore
      rw [utf8Length_append] at bytes
      simp only [utf8ByteSize_ofList]
      rw [show lineBefore source.toList 0 start.byte [] = indentAt source start.byte from rfl]
      omega
    · intro none
      rw [(List.append_eq_nil_iff.mp none).2] at isNext
      cases isNext
    · rw [isLine, isFirst, lines, isBefore, List.count_append, List.count_eq_zero.mpr noFeed,
        Nat.add_zero]
    · simp only [String.toList_append, String.toList_ofList, List.append_assoc]
      rfl
    · intro feed
      rcases List.mem_append.mp feed with inIndent | feed
      · exact noFeed inIndent
      rcases List.mem_append.mp feed with inCall | inEnd
      · exact (oneCall _ inCall).1 rfl
      · exact absurd inEnd (by decide)
    · rw [← List.append_assoc, List.getLast?_concat]
    · obtain ⟨site, isSite, sameLine, sameBlock⟩ := isSite
      refine ⟨site, isSite, sameLine, _, blank, ?_⟩
      rw [sameBlock]
      rfl
  · rename_i notBlank
    obtain rfl := List.mem_singleton.mp isHere
    have notStart : ¬ AtLineStart before := by
      rw [isBefore]
      refine not_atLineStart ?_ noFeed
      intro none
      have blank : lineBefore source.toList 0 start.byte [] = [] := none
      rw [blank] at notBlank
      exact notBlank rfl
    refine .inr ⟨⟨?_, before, after, split, isPlace, .inl ⟨next, isNext, notFeed, notReturn,
      fun start => absurd start notStart⟩⟩, rfl, before, after, split, isPlace, notStart⟩
    simp only [String.toList_append]
    exact oneCall.append (by decide)

/-- What reports that functions were entered does not begin lines. -/
theorem behind_of_enter (isHere :
    insertion ∈ enterInsertions tracker (quote name) analysis.functionBodies) :
    Behind source.toList insertion := by
  obtain ⟨body, member, rfl⟩ := List.mem_map.mp isHere
  obtain ⟨span, located, isByte⟩ := lies.bodies body member
  rw [isByte]
  exact behind_of_end located (oneLine_enterCall valid name body.line)

end Placing

/-! ## All insertions -/

/-- Insertions that may begin lines only where they open parentheses, and behind them others that
begin lines only where they are lines of their own, come in the right order at every byte. -/
theorem exists_order (source : List Char) {first later : List Insertion}
    (inside : ∀ insertion ∈ first, insertion.ownLine = none)
    (place : ∀ insertion ∈ later, ∃ before after, source = before ++ after ∧
      insertion.byte = utf8Length before ∧ (insertion.ownLine ≠ none ↔ AtLineStart before))
    (byte : Nat) :
    ∃ inner ahead, (first ++ later).filter (fun insertion => insertion.byte == byte) =
        inner ++ ahead ∧
      (∀ insertion ∈ inner, insertion.ownLine = none) ∧
      ∀ insertion ∈ ahead, insertion.ownLine ≠ none := by
  by_cases found : ∃ own ∈ later, own.byte = byte ∧ own.ownLine ≠ none
  · obtain ⟨own, isLater, isByte, isOwn⟩ := found
    obtain ⟨before, after, split, isPlace, starts⟩ := place own isLater
    refine ⟨_, _, List.filter_append _ _, fun insertion member => ?_, fun insertion member => ?_⟩
    · exact inside insertion (List.mem_filter.mp member).1
    · obtain ⟨isLater', isByte'⟩ := List.mem_filter.mp member
      obtain ⟨before', after', split', isPlace', starts'⟩ := place insertion isLater'
      refine starts'.mpr ?_
      have same : utf8Length before' = utf8Length before := by
        rw [← isPlace, ← isPlace', isByte]
        exact beq_iff_eq.mp isByte'
      rw [eq_of_utf8Length_eq (split'.symm.trans split) same]
      exact starts.mp isOwn
  · refine ⟨_, [], (List.append_nil _).symm, fun insertion member => ?_,
      fun _ none => absurd none List.not_mem_nil⟩
    obtain ⟨member, isByte⟩ := List.mem_filter.mp member
    rcases List.mem_append.mp member with isFirst | isLater
    · exact inside insertion isFirst
    · by_contra isOwn
      exact found ⟨insertion, isLater, beq_iff_eq.mp isByte, isOwn⟩

theorem Behind.place_iff {source : List Char} {insertion : Insertion}
    (behind : Behind source insertion) : ∃ before after, source = before ++ after ∧
      insertion.byte = utf8Length before ∧ (insertion.ownLine ≠ none ↔ AtLineStart before) := by
  obtain ⟨before, after, split, isByte, notStart⟩ := behind.place
  exact ⟨before, after, split, isByte, fun own => absurd behind.own own,
    fun start => absurd start notStart⟩

/-- A line at whose beginning parentheses open around a condition, while a statement further on in
it gets a call on a line of its own: all that stands between is white space of Unicode, which a name
may consist of. -/
def Crowded (source : String) (places : List Candidate) (line : Nat) : Prop :=
  ∃ condition ∈ places, ∃ statement ∈ places, ∃ first last byte,
    condition.placement = .condition first last ∧ statement.placement = .statement byte ∧
      statement.line = line ∧ (indentAt source byte).all isWhiteSpace = true ∧
      first = byte - utf8Length (indentAt source byte)

section All

variable (source : String) (options : InstrumentSettings) (analysis : Analysis) (fileId : String)

/-- An insertion that opens parentheses around a condition. -/
def IsOpener (insertion : Insertion) : Prop :=
  ∃ place ∈ chosen analysis, ∃ first last, place.placement = .condition first last ∧
    insertion = opener options.trackerName (quote fileId) place first ∧
    Inline source.toList insertion

/-- An insertion that is a line of its own ahead of a statement. -/
def IsOwn (insertion : Insertion) : Prop :=
  ∃ place ∈ chosen analysis, ∃ byte, place.placement = .statement byte ∧
    (indentAt source byte).all isWhiteSpace = true ∧
    insertion = ownCall source options.trackerName (quote fileId) place byte ∧
    OwnLine (IsOwnCall options.trackerName (quote fileId) (sites analysis (chosen analysis)))
      source.toList place.line insertion

variable {source options analysis} (lies : analysis.LiesIn source.toList)
  (valid : isName options.trackerName = true)

include lies valid

/-- **Openers of conditions come before the lines of their own**, and all else does not begin
lines. -/
theorem exists_insertions :
    ∃ first later,
      insertions options source analysis fileId (chosen analysis) = first ++ later ∧
      (∀ insertion ∈ first, IsOpener source options analysis fileId insertion ∨
        Behind source.toList insertion) ∧
      ∀ insertion ∈ later, IsOwn source options analysis fileId insertion ∨
        Behind source.toList insertion := by
  obtain ⟨conditions, statements, isChosen, ofConditions, ofStatements⟩ := exists_chosen analysis
  have isPlace : ∀ {place}, place ∈ conditions ∨ place ∈ statements → place ∈ chosen analysis :=
    fun found => isChosen ▸ List.mem_append.mpr found
  let goesIn := insertionsFor source options.trackerName (quote fileId)
  let enters := if options.trackFunctions then
    enterInsertions options.trackerName (quote fileId) analysis.functionBodies else []
  refine ⟨conditions.flatMap goesIn, statements.flatMap goesIn ++ enters, ?_,
    fun insertion member => ?_, fun insertion member => ?_⟩
  · rw [insertions, isChosen, List.flatMap_append, List.append_assoc]
  · obtain ⟨place, isCondition, isHere⟩ := List.mem_flatMap.mp member
    obtain ⟨condition, isCondition', placement⟩ := ofConditions place isCondition
    refine (opener_or_behind lies valid fileId isCondition' placement isHere).imp_left ?_
    rintro ⟨isOpener, inline⟩
    exact ⟨place, isPlace (.inl isCondition), _, _, placement, isOpener, inline⟩
  · rcases List.mem_append.mp member with ofPlace | ofBody
    · obtain ⟨place, isStatement, isHere⟩ := List.mem_flatMap.mp ofPlace
      obtain ⟨start, isStart, placement, isLine⟩ := ofStatements place isStatement
      refine (own_or_behind lies valid fileId isStart placement isLine
        (exists_site analysis (isPlace (.inr isStatement))) isHere).imp_left ?_
      rintro ⟨blank, isOwn, own⟩
      exact ⟨place, isPlace (.inr isStatement), _, placement, blank, isOwn, own⟩
    · refine .inr (behind_of_enter lies valid fileId ?_)
      cases tracks : options.trackFunctions with
      | false => exact absurd ofBody (by simp [enters, tracks])
      | true => simpa [enters, tracks] using ofBody

/-- **What goes into a parsed source fits it.** -/
theorem fitting_insertions :
    Fitting (IsOwnCall options.trackerName (quote fileId) (sites analysis (chosen analysis)))
      source.toList (insertions options source analysis fileId (chosen analysis)) := by
  obtain ⟨first, later, isAll, isFirst, isLater⟩ := exists_insertions fileId lies valid
  rw [isAll]
  refine ⟨fun insertion member inside => ?_, fun insertion member line own => ?_,
    exists_order source.toList (fun insertion member => ?_) fun insertion member => ?_⟩
  · rcases List.mem_append.mp member with member | member
    · rcases isFirst insertion member with ⟨_, _, _, _, _, -, inline⟩ | behind
      · exact inline
      · exact behind.inline
    · rcases isLater insertion member with ⟨_, _, _, _, _, rfl, -⟩ | behind
      · cases inside
      · exact behind.inline
  · rcases List.mem_append.mp member with member | member
    · rcases isFirst insertion member with ⟨_, _, _, _, _, rfl, -⟩ | behind
      · cases own
      · cases behind.own.symm.trans own
    · rcases isLater insertion member with ⟨_, _, _, _, _, rfl, isOwn⟩ | behind
      · obtain rfl := Option.some.inj own
        exact isOwn
      · cases behind.own.symm.trans own
  · rcases isFirst insertion member with ⟨_, _, _, _, _, rfl, -⟩ | behind
    · rfl
    · exact behind.own
  · rcases isLater insertion member with ⟨_, _, _, _, _, rfl, isOwn⟩ | behind
    · obtain ⟨before, after, body, split, isByte, start, -⟩ := isOwn
      exact ⟨before, after, split, isByte, fun _ => start, fun _ => nofun⟩
    · exact behind.place_iff

/-- Where insertions crowd at the beginning of a line, parentheses open around a condition. -/
theorem crowdedAt_iff (line : Nat) :
    CrowdedAt (insertions options source analysis fileId (chosen analysis)) line ↔
      Crowded source (chosen analysis) line := by
  constructor
  · rintro ⟨own, isOwn, inside, isInside, isLine, isInline, same⟩
    obtain ⟨first, later, isAll, isFirst, isLater⟩ := exists_insertions fileId lies valid
    obtain ⟨statement, isStatement, byte, placement, blank, rfl, before, after, body, split, isByte,
        start, -⟩ : IsOwn source options analysis fileId own := by
      rcases List.mem_append.mp (isAll ▸ isOwn) with member | member
      · rcases isFirst own member with ⟨_, _, _, _, _, rfl, -⟩ | behind
        · cases isLine
        · cases behind.own.symm.trans isLine
      · exact (isLater own member).resolve_right fun behind => nomatch behind.own.symm.trans isLine
    have notBehind : ¬ Behind source.toList inside := by
      intro behind
      obtain ⟨before', after', split', isByte', notStart⟩ := behind.place
      have bytes := isByte'.symm.trans (same.trans isByte)
      rw [eq_of_utf8Length_eq (split'.symm.trans split) bytes] at notStart
      exact notStart start
    rcases List.mem_append.mp (isAll ▸ isInside) with member | member
    · obtain ⟨condition, isCondition, startByte, endByte, placement', rfl, -⟩ :=
        (isFirst inside member).resolve_right notBehind
      refine ⟨condition, isCondition, statement, isStatement, startByte, endByte, byte, placement',
        placement, Option.some.inj isLine, blank, ?_⟩
      rw [← utf8ByteSize_ofList]
      exact same
    · rcases isLater inside member with ⟨_, _, _, _, _, rfl, -⟩ | behind
      · cases isInline
      · exact absurd behind notBehind
  · rintro ⟨condition, isCondition, statement, isStatement, first, last, byte, placement,
      placement', rfl, blank, isFirst⟩
    refine ⟨ownCall source options.trackerName (quote fileId) statement byte, ?_,
      opener options.trackerName (quote fileId) condition first, ?_, rfl, rfl, ?_⟩
    · refine List.mem_append_left _ (List.mem_flatMap.mpr ⟨statement, isStatement, ?_⟩)
      have blank' : (lineBefore source.toList 0 byte []).all isWhiteSpace = true := blank
      simp only [insertionsFor, placement', blank', if_true]
      exact List.mem_singleton.mpr rfl
    · refine List.mem_append_left _ (List.mem_flatMap.mpr ⟨condition, isCondition, ?_⟩)
      simp only [insertionsFor, placement]
      exact List.mem_cons_self
    · rw [← utf8ByteSize_ofList] at isFirst
      exact isFirst

end All

end LuaCoverage.Instrument
