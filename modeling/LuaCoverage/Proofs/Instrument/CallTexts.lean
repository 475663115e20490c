import Mathlib.Algebra.Ring.Nat
import Mathlib.Data.List.Infix
import LuaCoverage.Proofs.Instrument.Calls

/-!
# Calls in injected texts

How often a text occurs in another is counted over all places, whatever else stands around it
(`occurrences`). An injected text carries the literal of the file's name once and no quotation mark
besides, so a call can only occur where that literal is (`eq_of_call_eq`). What stands before the
literal then tells a hit call from a call that reports a function, and the two numbers behind it
tell one hit call from another. So the call for a line and a block occurs once in what goes in for a
place that reports them, and not at all in anything else that goes in
(`sum_occurrences_insertionsFor`, `occurrences_enterCall`).
-/

set_option autoImplicit false

namespace LuaCoverage.Instrument

/-! ## Occurrences -/

/-- How often characters occur in others. -/
def occurrences (part text : List Char) : Nat := text.tails.countP fun tail => part.isPrefixOf tail

theorem occurrences_eq_zero {part text : List Char}
    (never : ∀ before after, text ≠ before ++ part ++ after) : occurrences part text = 0 := by
  refine List.countP_eq_zero.mpr fun tail isTail starts => ?_
  obtain ⟨before, rfl⟩ := (List.mem_tails tail text).mp isTail
  obtain ⟨after, rfl⟩ := List.isPrefixOf_iff_prefix.mp starts
  exact never before after (List.append_assoc ..).symm

/-- A part that occurs in one place only occurs once. -/
theorem occurrences_eq_one {part before after : List Char}
    (only : ∀ before' after', before ++ part ++ after = before' ++ part ++ after' →
      before' = before) : occurrences part (before ++ part ++ after) = 1 := by
  induction before with
  | nil =>
      rw [List.nil_append] at only ⊢
      have starts : part.isPrefixOf (part ++ after) = true :=
        List.isPrefixOf_iff_prefix.mpr (List.prefix_append _ _)
      cases isText : part ++ after with
      | nil =>
          rw [isText] at starts
          simp [occurrences, starts]
      | cons first rest =>
          have later : occurrences part rest = 0 := occurrences_eq_zero fun before' after' same =>
            List.cons_ne_nil first before' (only (first :: before') after' (by
              rw [isText, same]
              rfl))
          rw [isText] at starts
          rw [occurrences, List.tails, List.countP_cons, if_pos starts]
          exact congrArg (· + 1) later
  | cons first before ih =>
      have notHere : part.isPrefixOf (first :: (before ++ part ++ after)) = false := by
        refine Bool.eq_false_iff.mpr fun starts => ?_
        obtain ⟨after', same⟩ := List.isPrefixOf_iff_prefix.mp starts
        exact List.cons_ne_nil first before (only [] after' same.symm).symm
      have later : occurrences part (before ++ part ++ after) = 1 := ih fun before' after' same =>
        (List.cons.inj (only (first :: before') after' (congrArg (first :: ·) same))).2
      rw [List.cons_append, List.cons_append, occurrences, List.tails, List.countP_cons, notHere]
      exact later

/-- What stands before the first of its kind is told from the rest. -/
theorem append_cons_inj {char : Char} {front front' rest rest' : List Char}
    (notIn : char ∉ front) (notIn' : char ∉ front')
    (same : front ++ char :: rest = front' ++ char :: rest') : front = front' ∧ rest = rest' := by
  induction front generalizing front' with
  | nil =>
      cases front' with
      | nil => exact ⟨rfl, (List.cons.inj same).2⟩
      | cons first front' => exact absurd ((List.cons.inj same).1 ▸ List.mem_cons_self) notIn'
  | cons first front ih =>
      cases front' with
      | nil => exact absurd ((List.cons.inj same).1 ▸ List.mem_cons_self) notIn
      | cons first' front' =>
          obtain ⟨rfl, behind⟩ := List.cons.inj same
          obtain ⟨rfl, isRest⟩ := ih (fun member => notIn (List.mem_cons_of_mem _ member))
            (fun member => notIn' (List.mem_cons_of_mem _ member)) behind
          exact ⟨rfl, isRest⟩

/-! ## What tells calls apart -/

/-- Characters without a quotation mark. -/
def Unquoted (chars : List Char) : Prop := '"' ∉ chars

instance (chars : List Char) : Decidable (Unquoted chars) := inferInstanceAs (Decidable (¬ _))

theorem Unquoted.append {first later : List Char} (unquoted : Unquoted first)
    (unquoted' : Unquoted later) : Unquoted (first ++ later) :=
  fun member => (List.mem_append.mp member).elim unquoted unquoted'

theorem unquoted_of_all {test : Char → Bool} (excludes : test '"' = false) {chars : List Char}
    (all : ∀ char ∈ chars, test char = true) : Unquoted chars :=
  fun member => Bool.false_ne_true (excludes.symm.trans (all _ member))

theorem unquoted_toString (number : Nat) : Unquoted (toString number).toList :=
  unquoted_of_all (by decide) fun _ => isDigit_of_mem_toString

theorem toString_inj {first second : Nat}
    (same : (toString first).toList = (toString second).toList) : first = second := by
  have read := congrArg (Nat.ofDigitChars 10 · 0) same
  simpa [Nat.toString_eq_ofList_toDigits] using read

/-- What stands before the literal of the file in a hit call. -/
def callOpening (tracker : String) : List Char := tracker.toList ++ ".hit(".toList

/-- What stands behind the literal of the file in a hit call. -/
def callNumbers (line : Nat) (block : BlockId) : List Char :=
  ", ".toList ++ (toString line).toList ++ ", ".toList ++ (toString block).toList ++ ")".toList

theorem toList_hitCall (tracker literal : String) (line : Nat) (block : BlockId) :
    (hitCall tracker literal line block).toList =
      callOpening tracker ++ literal.toList ++ callNumbers line block := by
  simp only [hitCall, callOpening, callNumbers, String.toList_append, List.append_assoc]

theorem unquoted_callNumbers (line : Nat) (block : BlockId) : Unquoted (callNumbers line block) :=
  ((((by decide : Unquoted ", ".toList).append (unquoted_toString line)).append (by decide)).append
    (unquoted_toString block)).append (by decide)

/-- **The numbers of a call are told from what follows them.** -/
theorem callNumbers_inj {line line' : Nat} {block block' : BlockId} {rest rest' : List Char}
    (same : callNumbers line block ++ rest = callNumbers line' block' ++ rest') :
    line = line' ∧ block = block' := by
  have digits : ∀ (number : Nat) (char : Char), char.isDigit = false →
      char ∉ (toString number).toList := fun number char notDigit member =>
    Bool.false_ne_true (notDigit.symm.trans (isDigit_of_mem_toString member))
  simp only [callNumbers, List.append_assoc] at same
  have behindComma := List.append_cancel_left same
  obtain ⟨isLine, same⟩ := append_cons_inj (digits line ',' rfl) (digits line' ',' rfl) behindComma
  have behindSpace := (List.cons.inj same).2
  obtain ⟨isBlock, -⟩ := append_cons_inj (digits block ')' rfl) (digits block' ')' rfl) behindSpace
  exact ⟨toString_inj isLine, toString_inj isBlock⟩

/-- **Where a call can occur.** Of a text with one literal of the file and no quotation mark
besides, a call can only take up that literal. -/
theorem eq_of_call_eq {opening numbers front back before after : List Char} {name : String}
    (unquoted : Unquoted opening) (unquoted' : Unquoted numbers)
    (plain : Unquoted front) (plain' : Unquoted back)
    (same : front ++ (quote name).toList ++ back =
      before ++ (opening ++ (quote name).toList ++ numbers) ++ after) :
    front = before ++ opening ∧ back = numbers ++ after := by
  have isQuote : (quote name).toList = '"' :: (name.toList.flatMap quoteChar ++ ['"']) := by
    rw [quote, String.toList_ofList, quoteChars]
    rfl
  -- all quotation marks of the text are those of the literal that the call takes up
  have marks := congrArg (List.count '"') same
  have zero : ∀ {chars : List Char}, Unquoted chars → chars.count '"' = 0 := List.count_eq_zero.mpr
  simp only [List.count_append, zero unquoted, zero unquoted', zero plain, zero plain'] at marks
  have noneBefore : Unquoted before := List.count_eq_zero.mp (by omega)
  rw [isQuote] at same
  simp only [List.append_assoc, List.cons_append] at same
  rw [← List.append_assoc before] at same
  obtain ⟨isFront, rest⟩ := append_cons_inj plain (noneBefore.append unquoted) same
  exact ⟨isFront, by simpa using List.append_cancel_left rest⟩

section Counting

variable {tracker : String} (valid : isName tracker = true) (name : String) (line : Nat)
  (block : BlockId)

include valid

theorem unquoted_callOpening : Unquoted (callOpening tracker) :=
  Unquoted.append (unquoted_of_all (by decide) (continuesWord_of_isName valid)) (by decide)

/-- The call for a line and a block occurs in a text with one call exactly if it is that call. -/
theorem occurrences_hitCall {front back : List Char} (plain : Unquoted front)
    (plain' : Unquoted back) (line' : Nat) (block' : BlockId) :
    occurrences (hitCall tracker (quote name) line block).toList
        (front ++ (hitCall tracker (quote name) line' block').toList ++ back) =
      if line' = line ∧ block' = block then 1 else 0 := by
  have opening := unquoted_callOpening valid
  have place : ∀ {before after : List Char},
      front ++ (hitCall tracker (quote name) line' block').toList ++ back =
        before ++ (hitCall tracker (quote name) line block).toList ++ after →
      before = front ∧ line' = line ∧ block' = block := by
    intro before after same
    rw [toList_hitCall, toList_hitCall] at same
    obtain ⟨isFront, isBack⟩ := eq_of_call_eq opening (unquoted_callNumbers line block)
      (plain.append opening) ((unquoted_callNumbers line' block').append plain')
      (by simpa only [List.append_assoc] using same)
    exact ⟨(List.append_cancel_right isFront).symm, callNumbers_inj isBack⟩
  split
  · rename_i isCall
    obtain ⟨rfl, rfl⟩ := isCall
    exact occurrences_eq_one fun before after same => (place same).1
  · rename_i notCall
    exact occurrences_eq_zero fun before after same => notCall (place same).2

/-- No hit call occurs in a call that reports a function. -/
theorem occurrences_enterCall (function : Nat) :
    occurrences (hitCall tracker (quote name) line block).toList
      (enterCall tracker (quote name) function).toList = 0 := by
  refine occurrences_eq_zero fun before after same => ?_
  let front := " ".toList ++ tracker.toList ++ ".enter(".toList
  let back := ", ".toList ++ (toString function).toList ++ ");".toList
  have named : Unquoted tracker.toList :=
    unquoted_of_all (by decide) (continuesWord_of_isName valid)
  have plain : Unquoted front := ((by decide : Unquoted " ".toList).append named).append (by decide)
  have plain' : Unquoted back :=
    ((by decide : Unquoted ", ".toList).append (unquoted_toString function)).append (by decide)
  have isText : (enterCall tracker (quote name) function).toList =
      front ++ (quote name).toList ++ back := by
    simp only [enterCall, front, back, String.toList_append, List.append_assoc]
  rw [isText, toList_hitCall] at same
  obtain ⟨isFront, -⟩ := eq_of_call_eq (unquoted_callOpening valid)
    (unquoted_callNumbers line block) plain plain' same
  -- the two kinds of call differ in the letter before the parenthesis
  have letters := congrArg (fun chars => chars.reverse.take 2) isFront
  simp [front, callOpening] at letters

omit valid in
/-- No hit call occurs in a text without a quotation mark. -/
theorem occurrences_unquoted {text : List Char} (plain : Unquoted text) :
    occurrences (hitCall tracker (quote name) line block).toList text = 0 := by
  refine occurrences_eq_zero fun before after same => plain ?_
  have isQuote : (quote name).toList = '"' :: (name.toList.flatMap quoteChar ++ ['"']) := by
    rw [quote, String.toList_ofList, quoteChars]
    rfl
  rw [same, toList_hitCall, isQuote]
  simp

/-- **What goes in for a place holds the call that it reports, once, and no other hit call.** -/
theorem sum_occurrences_insertionsFor (source : String) (place : Candidate) :
    ((insertionsFor source tracker (quote name) place).map fun insertion =>
        occurrences (hitCall tracker (quote name) line block).toList insertion.text.toList).sum =
      if place.line = line ∧ place.block = block then 1 else 0 := by
  have single (front back : String) (plain : Unquoted front.toList)
      (plain' : Unquoted back.toList) :
      occurrences (hitCall tracker (quote name) line block).toList
        (front ++ hitCall tracker (quote name) place.line place.block ++ back).toList =
      if place.line = line ∧ place.block = block then 1 else 0 := by
    rw [String.toList_append, String.toList_append]
    exact occurrences_hitCall valid name line block plain plain' place.line place.block
  unfold insertionsFor
  split
  · have opener := single "(" " or true) and (" (by decide) (by decide)
    have closer : occurrences (hitCall tracker (quote name) line block).toList ")".toList = 0 :=
      occurrences_unquoted name line block (by decide)
    simp only [List.map_cons, List.map_nil, List.sum_cons, List.sum_nil]
    rw [opener, closer, Nat.add_zero, Nat.add_zero]
  · rename_i byte _
    simp only
    split
    · rename_i blank
      have indent : Unquoted (String.ofList (lineBefore source.toList 0 byte [])).toList := by
        rw [String.toList_ofList]
        exact unquoted_of_all (by decide) (List.all_eq_true.mp blank)
      simpa using single _ ";\n" indent (by decide)
    · simpa using single "" "; " (by decide) (by decide)

end Counting

end LuaCoverage.Instrument
