import LuaCoverage.Proofs.Syntax.Tiling

/-!
# Where tokens begin and end

Whatever the lengths of tokens are computed from, a token begins with a character that is no blank,
and its last character is no line end. For words and numbers both hold because no blank is in them
at all. Strings and bracketed comments end with their closing delimiter, and a line comment ends
before the line end, or with a bracketed comment inside it.
-/

set_option autoImplicit false

namespace LuaCoverage.Syntax.Lexeme

/-! ## Stretches without blanks -/

/-- Whether a number of characters holds no blank. -/
def Unbroken (count : Nat) (chars : List Char) : Prop :=
  ∀ char ∈ chars.take count, isBlank char = false

theorem unbroken_zero (chars : List Char) : Unbroken 0 chars :=
  fun _ member => absurd member List.not_mem_nil

theorem Unbroken.add {first later : Nat} {chars : List Char} (unbroken : Unbroken first chars)
    (unbroken' : Unbroken later (chars.drop first)) : Unbroken (first + later) chars := by
  intro char member
  rw [List.take_add, List.mem_append] at member
  exact member.elim (unbroken char) (unbroken' char)

theorem Unbroken.max {first second : Nat} {chars : List Char} (unbroken : Unbroken first chars)
    (unbroken' : Unbroken second chars) : Unbroken (max first second) chars := by
  rcases Nat.le_total first second with less | more
  · rwa [Nat.max_eq_right less]
  · rwa [Nat.max_eq_left more]

theorem unbroken_takeWhile {test : Char → Bool} (chars : List Char)
    (noBlank : ∀ char, test char = true → isBlank char = false) :
    Unbroken (chars.takeWhile test).length chars := by
  intro char member
  rw [← List.prefix_iff_eq_take.mp (List.takeWhile_prefix test)] at member
  exact noBlank char (List.all_eq_true.mp List.all_takeWhile char member)

theorem unbroken_one {first : Char} {rest : List Char} (noBlank : isBlank first = false) :
    Unbroken 1 (first :: rest) := by
  intro char member
  obtain rfl : char = first := by simpa using member
  exact noBlank

theorem Unbroken.cons {first : Char} {rest : List Char} {count : Nat}
    (noBlank : isBlank first = false) (unbroken : Unbroken count rest) :
    Unbroken (1 + count) (first :: rest) :=
  (unbroken_one noBlank).add unbroken

theorem isBlank_iff {char : Char} :
    isBlank char = true ↔
      char = ' ' ∨ char = '\t' ∨ char = '\n' ∨ char = '\x0b' ∨ char = '\x0c' ∨ char = '\r' := by
  simp [isBlank, or_assoc]

/-- Something without blanks begins and ends as a token does. -/
theorem Unbroken.isInk {count : Nat} {chars : List Char} (unbroken : Unbroken count chars)
    (filled : chars.take count ≠ []) : isInk (chars.take count) = true := by
  have inside : ∀ char ∈ chars.take count, char ≠ '\n' ∧ char ≠ '\r' := by
    intro char member
    have noBlank := unbroken char member
    constructor
    · rintro rfl
      exact absurd noBlank (by decide)
    · rintro rfl
      exact absurd noBlank (by decide)
  refine isInk_iff.mpr ⟨⟨_, List.head?_eq_some_head filled, unbroken _ (List.head_mem filled)⟩,
    _, List.getLast?_eq_some_getLast filled, inside _ (List.getLast_mem filled)⟩

/-! ## Words -/

theorem isBlank_of_continuesWord {char : Char} (continues : continuesWord char = true) :
    isBlank char = false := by
  unfold continuesWord at continues
  simp only [Bool.and_eq_true, Bool.not_eq_true'] at continues
  exact continues.1.2

theorem word_eq_take (chars : List Char) :
    word chars = chars.take (word chars).length ∧ Unbroken (word chars).length chars := by
  cases chars with
  | nil => exact ⟨rfl, unbroken_zero []⟩
  | cons first rest =>
      by_cases starts : startsWord first = true
      · have continues : continuesWord first = true := (Bool.and_eq_true _ _ ▸ starts).1
        have isWord : word (first :: rest) = first :: rest.takeWhile continuesWord := if_pos starts
        rw [isWord, List.length_cons]
        constructor
        · rw [List.take_succ_cons,
            ← List.prefix_iff_eq_take.mp (List.takeWhile_prefix continuesWord)]
        · rw [Nat.add_comm]
          exact Unbroken.cons (isBlank_of_continuesWord continues)
            (unbroken_takeWhile rest fun _ => isBlank_of_continuesWord)
      · have noWord : word (first :: rest) = [] := if_neg starts
        rw [noWord]
        exact ⟨rfl, unbroken_zero _⟩

theorem isInk_word {chars : List Char} (filled : word chars ≠ []) : isInk (word chars) = true := by
  obtain ⟨taken, unbroken⟩ := word_eq_take chars
  rw [taken] at filled ⊢
  exact unbroken.isInk filled

/-! ## Numbers -/

theorem isBlank_of_isDigit {char : Char} (digit : char.isDigit = true) : isBlank char = false := by
  rw [← Bool.not_eq_true, isBlank_iff]
  rintro (rfl | rfl | rfl | rfl | rfl | rfl) <;> exact absurd digit (by decide)

theorem isBlank_of_isHexDigit {char : Char} (digit : isHexDigit char = true) :
    isBlank char = false := by
  rw [← Bool.not_eq_true, isBlank_iff]
  rintro (rfl | rfl | rfl | rfl | rfl | rfl) <;> exact absurd digit (by decide)

/-- A character whose small form is no blank is none itself. -/
theorem isBlank_of_toLower {char small : Char} (same : char.toLower = small)
    (noBlank : isBlank small = false) : isBlank char = false := by
  rw [← Bool.not_eq_true, isBlank_iff]
  rintro (rfl | rfl | rfl | rfl | rfl | rfl) <;> subst same <;> exact absurd noBlank (by decide)

theorem unbroken_exponentLength {mark : Char} (noBlank : isBlank mark = false)
    (chars : List Char) : Unbroken (exponentLength mark chars) chars := by
  cases chars with
  | nil => exact unbroken_zero []
  | cons first rest =>
      obtain ⟨sign, signInk, length⟩ : ∃ sign, Unbroken sign rest ∧
          exponentLength mark (first :: rest) =
            if first.toLower == mark then
              if ((rest.drop sign).takeWhile Char.isDigit).length = 0 then 0
              else 1 + sign + ((rest.drop sign).takeWhile Char.isDigit).length
            else 0 := by
        refine ⟨_, ?_, rfl⟩
        split
        · exact unbroken_one (by decide)
        · exact unbroken_one (by decide)
        · exact unbroken_zero rest
      rw [length]
      split
      · rename_i isMark
        have firstInk := isBlank_of_toLower (beq_iff_eq.mp isMark) noBlank
        split
        · exact unbroken_zero _
        · rw [Nat.add_assoc]
          exact Unbroken.cons firstInk
            (signInk.add (unbroken_takeWhile _ fun _ => isBlank_of_isDigit))
      · exact unbroken_zero _

theorem unbroken_wholeSuffix {chars : List Char} {count : Nat}
    (suffix : wholeSuffix? chars = some count) : Unbroken count chars := by
  unfold wholeSuffix? at suffix
  split at suffix
  · rename_i letters
    obtain rfl : 3 = count := Option.some.inj suffix
    intro char member
    have lower : char.toLower ∈ (chars.take 3).map Char.toLower := List.mem_map_of_mem member
    rw [letters] at lower
    refine isBlank_of_toLower rfl ?_
    rcases List.mem_cons.mp lower with same | rest
    · rw [same]
      decide
    · rw [List.eq_of_mem_replicate (show char.toLower ∈ List.replicate 2 'l' from rest)]
      decide
  · rename_i tail letters
    obtain rfl : 2 = count := Option.some.inj suffix
    intro char member
    have lower : char.toLower ∈ (chars.take 2).map Char.toLower := List.mem_map_of_mem member
    have two : (chars.take 2).map Char.toLower = ['l', 'l'] := by
      have cut := congrArg (List.take 2) letters
      rwa [← List.map_take, List.take_take, List.take_succ_cons, List.take_succ_cons,
        List.take_zero] at cut
    rw [two] at lower
    refine isBlank_of_toLower rfl ?_
    rw [List.eq_of_mem_replicate (show char.toLower ∈ List.replicate 2 'l' from lower)]
    decide
  · cases suffix

/-- How many characters a number takes whose fraction takes a given number of them. -/
def lengthWithFraction (isDigit : Char → Bool) (mark : Char) (chars : List Char) (fraction : Nat) :
    Nat :=
  let whole := (chars.takeWhile isDigit).length
  if whole = 0 ∧ fraction < 2 then 0
  else
    let scaled := whole + fraction + exponentLength mark (chars.drop (whole + fraction))
    let imaginary := if (chars.drop scaled).head?.map Char.toLower == some 'i' then 1 else 0
    match wholeSuffix? (chars.drop whole) with
    | some suffix =>
        if whole = 0 then scaled + imaginary else max (whole + suffix) (scaled + imaginary)
    | none => scaled + imaginary

section Numeral

variable {isDigit : Char → Bool} {mark : Char} (noBlank : isBlank mark = false)
  (digitInk : ∀ char, isDigit char = true → isBlank char = false)

include noBlank digitInk

theorem unbroken_lengthWithFraction {chars : List Char} {fraction : Nat}
    (fractionInk : Unbroken fraction (chars.drop (chars.takeWhile isDigit).length)) :
    Unbroken (lengthWithFraction isDigit mark chars fraction) chars := by
  have wholeInk := unbroken_takeWhile chars digitInk
  unfold lengthWithFraction
  simp only
  generalize (chars.takeWhile isDigit).length = whole at wholeInk fractionInk
  have mantissaInk := wholeInk.add fractionInk
  have exponentInk := unbroken_exponentLength noBlank (chars.drop (whole + fraction))
  have scaledInk := mantissaInk.add exponentInk
  generalize whole + fraction + exponentLength mark (chars.drop (whole + fraction)) = scaled
    at scaledInk ⊢
  have imaginaryInk : Unbroken
      (if (chars.drop scaled).head?.map Char.toLower == some 'i' then 1 else 0)
      (chars.drop scaled) := by
    split
    · rename_i isUnit
      obtain ⟨first, isFirst, small⟩ := Option.map_eq_some_iff.mp (beq_iff_eq.mp isUnit)
      obtain ⟨rest, isCons⟩ := List.head?_eq_some_iff.mp isFirst
      rw [isCons]
      exact unbroken_one (isBlank_of_toLower small (by decide))
    · exact unbroken_zero _
  split
  · exact unbroken_zero _
  · split
    · rename_i suffix isSuffix
      split
      · exact scaledInk.add imaginaryInk
      · exact (wholeInk.add (unbroken_wholeSuffix isSuffix)).max (scaledInk.add imaginaryInk)
    · exact scaledInk.add imaginaryInk

theorem unbroken_numeralLength (chars : List Char) :
    Unbroken (numeralLength isDigit mark chars) chars := by
  obtain ⟨fraction, fractionInk, length⟩ : ∃ fraction,
      Unbroken fraction (chars.drop (chars.takeWhile isDigit).length) ∧
        numeralLength isDigit mark chars = lengthWithFraction isDigit mark chars fraction := by
    refine ⟨_, ?_, rfl⟩
    split
    · rename_i rest isDot
      rw [isDot]
      exact Unbroken.cons (by decide) (unbroken_takeWhile rest digitInk)
    · exact unbroken_zero _
  rw [length]
  exact unbroken_lengthWithFraction noBlank digitInk fractionInk

end Numeral

/-- **A number holds no blank.** -/
theorem unbroken_numberLength (chars : List Char) : Unbroken (numberLength chars) chars := by
  have decimal := unbroken_numeralLength (by decide : isBlank 'e' = false)
    (fun _ => isBlank_of_isDigit) chars
  unfold numberLength
  simp only
  split
  · rename_i mark rest
    split
    · rename_i isHex
      split
      · exact decimal
      · have markInk : isBlank mark = false := by
          rw [Bool.or_eq_true, beq_iff_eq, beq_iff_eq] at isHex
          rcases isHex with rfl | rfl <;> decide
        have digits := unbroken_numeralLength (by decide : isBlank 'p' = false)
          (fun _ => isBlank_of_isHexDigit) rest
        rw [show 2 + numeralLength isHexDigit 'p' rest =
          1 + (1 + numeralLength isHexDigit 'p' rest) by omega]
        exact Unbroken.cons (by decide) (Unbroken.cons markInk digits)
    · exact decimal
  · exact decimal

/-! ## Stretches that end on their line -/

/-- Whether a number of characters ends with one that ends no line. -/
def EndsInk (count : Nat) (chars : List Char) : Prop :=
  ∃ last, (chars.take count).getLast? = some last ∧ last ≠ '\n' ∧ last ≠ '\r'

theorem EndsInk.after {first later : Nat} {chars : List Char}
    (ends : EndsInk later (chars.drop first)) : EndsInk (first + later) chars := by
  obtain ⟨last, isLast, notEnd⟩ := ends
  refine ⟨last, ?_, notEnd⟩
  rw [List.take_add, List.getLast?_append, isLast]
  rfl

theorem EndsInk.add {first later : Nat} {chars : List Char} (ends : EndsInk first chars)
    (ends' : later = 0 ∨ EndsInk later (chars.drop first)) : EndsInk (first + later) chars := by
  rcases ends' with rfl | ends'
  · exact ends
  · exact ends'.after

theorem endsInk_succ {count : Nat} {chars : List Char} {last : Char}
    (isNext : (chars.drop count).head? = some last) (notEnd : last ≠ '\n' ∧ last ≠ '\r') :
    EndsInk (count + 1) chars := by
  refine EndsInk.after ⟨last, ?_, notEnd⟩
  obtain ⟨rest, isCons⟩ := List.head?_eq_some_iff.mp isNext
  rw [isCons]
  rfl

/-- What begins with no blank and ends on its line is shaped as a token. -/
theorem EndsInk.isInk {count : Nat} {chars : List Char} {first : Char} (ends : EndsInk count chars)
    (isFirst : chars.head? = some first) (noBlank : isBlank first = false) :
    isInk (chars.take count) = true := by
  refine isInk_iff.mpr ⟨⟨first, ?_, noBlank⟩, ends⟩
  obtain ⟨last, isLast, -⟩ := ends
  cases count with
  | zero => cases isLast
  | succ count =>
      obtain ⟨rest, rfl⟩ := List.head?_eq_some_iff.mp isFirst
      rfl

/-! ## Bracketed texts -/

theorem endsInk_bracketLength {square : Char} (notEnd : square ≠ '\n' ∧ square ≠ '\r')
    {chars : List Char} {length : Nat}
    (found : BracketedText.bracketLength? square chars = some length) :
    EndsInk length chars ∧ chars.head? = some square := by
  cases chars with
  | nil => cases found
  | cons first rest =>
      unfold BracketedText.bracketLength? at found
      simp only at found
      generalize (rest.takeWhile (· == '=')).length = level at found
      split at found
      · rename_i isBracket
        obtain rfl : level + 2 = length := Option.some.inj found
        rw [Bool.and_eq_true, beq_iff_eq, beq_iff_eq] at isBracket
        obtain ⟨rfl, closes⟩ := isBracket
        refine ⟨?_, rfl⟩
        rw [show level + 2 = (level + 1) + 1 by rfl]
        exact endsInk_succ closes notEnd
      · cases found

theorem endsInk_ofInside {opening : Nat} {chars : List Char} {text : BracketedText}
    (found : BracketedText.ofInside? opening chars = some text) :
    text.opening = opening ∧ EndsInk (text.content + text.closing) chars := by
  induction chars generalizing text with
  | nil => cases found
  | cons first rest ih =>
      unfold BracketedText.ofInside? at found
      split at found
      · rename_i closing closes
        obtain rfl := Option.some.inj found
        refine ⟨rfl, ?_⟩
        rw [Nat.zero_add]
        exact (endsInk_bracketLength (by decide) (Option.eq_some_of_filter_eq_some closes)).1
      · obtain ⟨later, isLater, rfl⟩ := Option.map_eq_some_iff.mp found
        obtain ⟨sameOpening, ends⟩ := ih isLater
        refine ⟨sameOpening, ?_⟩
        rw [show later.content + 1 + later.closing = 1 + (later.content + later.closing) by omega]
        exact EndsInk.after ends

/-- A text in long brackets begins and ends with a bracket. -/
theorem endsInk_bracketedText {chars : List Char} {text : BracketedText}
    (found : BracketedText.atStart? chars = some (some text)) :
    EndsInk text.length chars ∧ chars.head? = some '[' := by
  obtain ⟨opening, opens, inside⟩ := Option.map_eq_some_iff.mp found
  obtain ⟨rfl, ends⟩ := endsInk_ofInside inside
  obtain ⟨-, isFirst⟩ := endsInk_bracketLength (by decide) opens
  refine ⟨?_, isFirst⟩
  rw [BracketedText.length, Nat.add_assoc]
  exact ends.after

/-! ## Comments -/

theorem endsInk_bracketedComment {chars : List Char} {length : Nat}
    (found : bracketedCommentLength? chars = some (some length)) :
    EndsInk length chars ∧ chars.head? = some '-' := by
  unfold bracketedCommentLength? at found
  split at found
  · rename_i rest
    obtain ⟨closed, opened, isLength⟩ := Option.map_eq_some_iff.mp found
    obtain ⟨text, rfl, rfl⟩ := Option.map_eq_some_iff.mp isLength
    refine ⟨?_, rfl⟩
    rw [Nat.add_comm]
    exact EndsInk.after (endsInk_bracketedText opened).1
  · cases found

theorem endsInk_innerComment {chars : List Char} {length : Nat}
    (found : innerCommentLength? chars = some (some length)) : EndsInk length chars := by
  obtain ⟨closed, opened, isLength⟩ := Option.map_eq_some_iff.mp found
  obtain ⟨inner, rfl, rfl⟩ := Option.map_eq_some_iff.mp isLength
  rw [Nat.add_comm]
  exact (endsInk_bracketedComment opened).1.after

theorem restOfLine_eq_take (chars : List Char) :
    restOfLine chars = chars.take (restOfLine chars).length :=
  List.prefix_iff_eq_take.mp (List.takeWhile_prefix _)

theorem endsInk_restOfLine (chars : List Char) :
    (restOfLine chars).length = 0 ∨ EndsInk (restOfLine chars).length chars := by
  by_cases empty : restOfLine chars = []
  · exact .inl (List.length_eq_zero_iff.mpr empty)
  · right
    refine ⟨(restOfLine chars).getLast empty, ?_, ?_⟩
    · rw [← restOfLine_eq_take]
      exact List.getLast?_eq_some_getLast empty
    · have inside : (restOfLine chars).all (fun char => char != '\n' && char != '\r') = true :=
        List.all_takeWhile
      simpa using List.all_eq_true.mp inside _ (List.getLast_mem empty)

/-- **A line comment ends before the line end**, or with a bracketed comment inside it. -/
theorem endsInk_lineComments (nested : Nat) (chars : List Char) {length : Nat}
    (found : lineCommentsLength? nested chars = some length) :
    length = 0 ∨ EndsInk length chars := by
  fun_induction lineCommentsLength? nested chars generalizing length with
  | case1 => exact .inl (Option.some.inj found).symm
  | case2 => cases found
  | case3 chars outer inner isInner _ ih =>
      obtain ⟨later, isLater, rfl⟩ := Option.map_eq_some_iff.mp found
      rw [Nat.add_comm]
      exact .inr ((endsInk_innerComment isInner).add (ih isLater))
  | case4 chars outer _ hyphens ih =>
      obtain ⟨later, isLater, rfl⟩ := Option.map_eq_some_iff.mp found
      have two : EndsInk 2 chars := by
        have taken := restOfLine_eq_take chars
        rw [hyphens] at taken
        exact ⟨'-', taken ▸ rfl, by decide⟩
      rw [Nat.add_comm]
      exact .inr (two.add (ih isLater))
  | case5 chars outer =>
      rename_i ih
      obtain ⟨later, isLater, rfl⟩ := Option.map_eq_some_iff.mp found
      rw [Nat.add_comm]
      rcases endsInk_restOfLine chars with none | ends
      · rcases ih isLater with rfl | later
        · exact .inl none
        · exact .inr later.after
      · exact .inr (ends.add (ih isLater))

/-- **A comment begins with no blank and ends on its line.** -/
theorem isInk_comment {beforeString : Bool} {chars : List Char} {length : Nat}
    (found : commentLength? beforeString chars = some (some length)) :
    isInk (chars.take length) = true := by
  unfold commentLength? at found
  simp only at found
  generalize isLead : (if beforeString then openingPartLength chars else 0) = lead at found
  split at found
  · rename_i closed bracketed
    obtain ⟨inner, rfl, rfl⟩ := Option.map_eq_some_iff.mp (Option.some.inj found)
    obtain ⟨ends, isFirst⟩ := endsInk_bracketedComment bracketed
    rw [Nat.add_comm]
    by_cases noLead : lead = 0
    · subst noLead
      rw [List.drop_zero] at isFirst
      exact ends.after.isInk isFirst (by decide)
    · have opens : chars.head? = some '[' := by
        subst isLead
        split at noLead
        · unfold openingPartLength at noLead
          split at noLead
          · rfl
          · exact absurd rfl noLead
        · exact absurd rfl noLead
      exact ends.after.isInk opens (by decide)
  · split at found
    · rename_i rest _
      obtain ⟨later, isLater, rfl⟩ := Option.map_eq_some_iff.mp (Option.some.inj found)
      have two : EndsInk 2 ('-' :: '-' :: rest) := ⟨'-', rfl, by decide⟩
      rw [Nat.add_comm]
      exact (two.add (endsInk_lineComments 1 rest isLater)).isInk rfl (by decide)
    · cases found

/-! ## Strings -/

theorem totalLength_cons (part : QuotedPart) (rest : List QuotedPart) :
    totalLength (part :: rest) = part.length + totalLength rest := by
  have shifted : ∀ (parts : List QuotedPart) (start : Nat),
      parts.foldl (fun total part => total + part.length) start = start + totalLength parts := by
    intro parts
    induction parts with
    | nil => exact fun start => rfl
    | cons first parts ih =>
        intro start
        have own : totalLength (first :: parts) = 0 + first.length + totalLength parts := ih _
        rw [List.foldl_cons, ih, own, Nat.zero_add, Nat.add_assoc]
  rw [totalLength, List.foldl_cons, shifted, Nat.zero_add]

theorem totalLength_append (first later : List QuotedPart) :
    totalLength (first ++ later) = totalLength first + totalLength later := by
  induction first with
  | nil => exact (Nat.zero_add _).symm
  | cons part first ih =>
      rw [List.cons_append, totalLength_cons, ih, totalLength_cons, Nat.add_assoc]

/-- The parts of a quoted string reach up to its closing quote. -/
theorem head?_drop_quotedParts {quote : Char} {bound : Nat} {chars : List Char}
    {parts : List QuotedPart} (found : quotedParts? quote bound chars = some parts) :
    (chars.drop (totalLength parts)).head? = some quote := by
  induction bound generalizing chars parts with
  | zero => cases found
  | succ bound ih =>
      have step : ∀ (part : QuotedPart) (later : List QuotedPart),
          quotedParts? quote bound (chars.drop part.length) = some later →
          (chars.drop (totalLength (part :: later))).head? = some quote := by
        intro part later isLater
        rw [totalLength_cons, ← List.drop_drop]
        exact ih isLater
      unfold quotedParts? at found
      split at found
      · cases found
      · rename_i length _
        obtain ⟨later, isLater, isParts⟩ := Option.bind_eq_some_iff.mp found
        obtain rfl := Option.some.inj isParts
        exact step (.comment length) later isLater
      · split at found
        · cases found
        · rename_i rest _
          obtain ⟨escaped, -, continued⟩ := Option.bind_eq_some_iff.mp found
          obtain ⟨later, isLater, isParts⟩ := Option.bind_eq_some_iff.mp continued
          obtain rfl := Option.some.inj isParts
          exact step (.text (escaped + 1)) later isLater
        · rename_i first rest _ _
          split at found
          · rename_i isQuote
            obtain rfl := Option.some.inj found
            rw [beq_iff_eq] at isQuote
            rw [isQuote]
            rfl
          · obtain ⟨later, isLater, isParts⟩ := Option.bind_eq_some_iff.mp found
            obtain rfl := Option.some.inj isParts
            exact step (.text _) later isLater

/-- The delimiters and the content of a quoted string make up all its parts and the two quotes. -/
theorem length_ofParts (parts : List QuotedPart) :
    (StringShape.ofParts parts).opening + (StringShape.ofParts parts).content.getD 0 +
      (StringShape.ofParts parts).closing = 1 + totalLength parts + 1 := by
  unfold StringShape.ofParts
  simp only
  generalize isRest : parts.dropWhile QuotedPart.isComment = rest
  generalize isTrailing : (rest.reverse.takeWhile QuotedPart.isComment).reverse = trailing
  have split : parts = parts.takeWhile QuotedPart.isComment ++ rest := by
    rw [← isRest, List.takeWhile_append_dropWhile]
  have suffix : rest = rest.take (rest.length - trailing.length) ++ trailing := by
    have isSuffix : trailing <:+ rest := by
      rw [← isTrailing, ← List.reverse_prefix, List.reverse_reverse]
      exact List.takeWhile_prefix _
    calc rest = rest.take (rest.length - trailing.length) ++
          rest.drop (rest.length - trailing.length) := (List.take_append_drop _ _).symm
      _ = rest.take (rest.length - trailing.length) ++ trailing := by
          rw [← List.suffix_iff_eq_drop.mp isSuffix]
  have total : totalLength parts = totalLength (parts.takeWhile QuotedPart.isComment) +
      (totalLength (rest.take (rest.length - trailing.length)) + totalLength trailing) := by
    rw [← totalLength_append, ← suffix, ← totalLength_append, ← split]
  have content : (if (rest.take (rest.length - trailing.length)).isEmpty then none
      else some (totalLength (rest.take (rest.length - trailing.length)))).getD 0 =
        totalLength (rest.take (rest.length - trailing.length)) := by
    split
    · rename_i empty
      rw [List.isEmpty_iff.mp empty]
      rfl
    · rfl
  rw [content, total]
  omega

/-- **A string begins and ends with its delimiters.** -/
theorem isInk_string {chars : List Char} {shape : StringShape}
    (found : stringShape? chars = some (some shape)) :
    isInk (chars.take (shape.opening + shape.content.getD 0 + shape.closing)) = true := by
  cases chars with
  | nil => cases found
  | cons first rest =>
      unfold stringShape? at found
      simp only at found
      split at found
      · rename_i isQuote
        obtain ⟨parts, isParts, rfl⟩ := Option.map_eq_some_iff.mp (Option.some.inj found)
        have closes := head?_drop_quotedParts isParts
        rw [Bool.or_eq_true, beq_iff_eq, beq_iff_eq] at isQuote
        have quoteInk : isBlank first = false ∧ first ≠ '\n' ∧ first ≠ '\r' := by
          rcases isQuote with rfl | rfl <;> decide
        rw [length_ofParts]
        refine EndsInk.isInk (endsInk_succ ?_ quoteInk.2) rfl quoteInk.1
        rw [Nat.add_comm, List.drop_succ_cons]
        exact closes
      · obtain ⟨closed, opened, isShape⟩ := Option.map_eq_some_iff.mp found
        obtain ⟨text, rfl, rfl⟩ := Option.map_eq_some_iff.mp isShape
        obtain ⟨ends, isFirst⟩ := endsInk_bracketedText opened
        exact ends.isInk isFirst (by decide)

end LuaCoverage.Syntax.Lexeme
