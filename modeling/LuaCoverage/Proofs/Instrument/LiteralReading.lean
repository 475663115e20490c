import LuaCoverage.Proofs.Instrument.Faithful
import LuaCoverage.Proofs.Syntax.ShortStrings

/-!
# Literals read back

The name of a file comes out of an injected call as it went in: whatever characters the name is made
of, reading its literal as a string gives the bytes of the name, and reading stops at the closing
quote (`quote_reads_back`). This holds for every version of the language, because the literal only
uses escapes that mean the same in all of them. A number is written with all its three digits, so a
digit that follows in the name is not taken for part of it.

Two names therefore never have one literal. And as a literal holds no line end, a call adds a line
to the text only where the source map says so.
-/

set_option autoImplicit false

namespace LuaCoverage.Instrument

open Lua Text

/-- The bytes of a character of seven bits. -/
theorem utf8EncodeChar_of_ascii {char : Char} (isAscii : char.toNat < 128) :
    String.utf8EncodeChar char = [UInt8.ofNat char.toNat] := by
  rw [String.utf8EncodeChar]
  exact if_pos (Nat.le_of_lt_succ isAscii)

/-- Every control character is written with three digits that give its number. -/
theorem control_digits : ∀ code < 128, code < 0x20 ∨ code = 0x7f →
    let digits := [decimalDigit (code / 100), decimalDigit (code / 10), decimalDigit code]
    let bytes := digits.flatMap String.utf8EncodeChar
    bytes.length = 3 ∧ (∀ byte ∈ bytes, isDigit byte = true) ∧ decimalValue bytes = code := by
  decide +kernel

/-- The bytes of a character that is written as it stands mean nothing in a literal. -/
theorem ordinary_of_encoded {char : Char} (notBackslash : char ≠ '\\') (notQuote : char ≠ '"')
    (notFeed : char ≠ '\n') (notReturn : char ≠ '\r') :
    ∀ byte ∈ String.utf8EncodeChar char, IsOrdinary '"'.toUInt8 byte := by
  intro byte member
  have shown : Char.ofUInt8 byte ∈ byteChars [char] := by
    rw [byteChars, List.flatMap_singleton]
    exact List.mem_map_of_mem member
  obtain ⟨noBackslash, noQuote, noFeed, noReturn⟩ : Char.ofUInt8 byte ≠ '\\' ∧
      Char.ofUInt8 byte ≠ '"' ∧ Char.ofUInt8 byte ≠ '\n' ∧ Char.ofUInt8 byte ≠ '\r' := by
    rcases cases_byteChars char with ⟨-, single⟩ | ⟨-, -, high⟩
    · rw [single, List.mem_singleton] at shown
      rw [shown]
      exact ⟨notBackslash, notQuote, notFeed, notReturn⟩
    · have isHigh := high _ shown
      refine ⟨?_, ?_, ?_, ?_⟩
      all_goals
        intro same
        rw [same] at isHigh
        revert isHigh
        decide
  refine ⟨fun same => noQuote (same ▸ rfl), ?_, fun same => noBackslash (same ▸ rfl)⟩
  rw [isLineEnd, beq_false_of_ne noFeed, beq_false_of_ne noReturn, Bool.or_false]

/-- What is written for a character stands for its bytes. -/
theorem standsFor_quoteChar (version : Version) (char : Char) :
    StandsFor version '"'.toUInt8 ((quoteChar char).flatMap String.utf8EncodeChar)
      (String.utf8EncodeChar char) := by
  unfold quoteChar
  split
  case isTrue isBackslash =>
    subst isBackslash
    exact standsFor_escape ['\\'.toUInt8] (by decide) fun _ => by cases version <;> rfl
  split
  case isTrue isQuote =>
    subst isQuote
    exact standsFor_escape ['"'.toUInt8] (by decide) fun _ => by cases version <;> rfl
  split
  case isTrue isFeed =>
    subst isFeed
    exact standsFor_escape ['n'.toUInt8] (by decide) fun _ => rfl
  split
  case isTrue isReturn =>
    subst isReturn
    exact standsFor_escape ['r'.toUInt8] (by decide) fun _ => rfl
  split
  case isTrue isControl =>
    have isAscii : char.toNat < 128 := by omega
    obtain ⟨three, areDigits, value⟩ := control_digits char.toNat isAscii isControl
    rw [utf8EncodeChar_of_ascii isAscii]
    have spells := @escape?_digits version _ three areDigits (by omega)
    rw [value] at spells
    exact standsFor_escape _ (by decide) spells
  case isFalse notBackslash notQuote notFeed notReturn notControl =>
    rw [List.flatMap_singleton]
    exact standsFor_ordinary (ordinary_of_encoded notBackslash notQuote notFeed notReturn)

/-- What is written for a name stands for its bytes. -/
theorem standsFor_quoteChars (version : Version) (name : List Char) :
    StandsFor version '"'.toUInt8 ((name.flatMap quoteChar).flatMap String.utf8EncodeChar)
      (name.flatMap String.utf8EncodeChar) := by
  rw [List.flatMap_assoc]
  exact .flatMap fun char _ => standsFor_quoteChar version char

/-- **Reading a literal gives the bytes of the name** and leaves what follows the literal. -/
theorem readString_quote (version : Version) (name : String) (rest : List UInt8) :
    readString version ((quote name).toUTF8.toList ++ rest) = some (name.toUTF8.toList, rest) := by
  have literal : (quote name).toUTF8.toList ++ rest =
      '"'.toUInt8 :: ((name.toList.flatMap quoteChar).flatMap String.utf8EncodeChar ++
        '"'.toUInt8 :: rest) := by
    rw [toList_toUTF8, quote, String.toList_ofList, quoteChars, List.flatMap_append,
      List.flatMap_cons, List.flatMap_singleton, utf8EncodeChar_of_ascii (by decide),
      List.append_assoc, List.append_assoc]
    rfl
  rw [literal, toList_toUTF8]
  exact readString_of_standsFor (by decide) (standsFor_quoteChars version name.toList) rest

/-- Texts of the same bytes are the same. -/
theorem eq_of_toUTF8_eq {first second : String}
    (same : first.toUTF8.toList = second.toUTF8.toList) : first = second := by
  have toBytes : ∀ text : String,
      text.toByteArray = (text.toList.flatMap String.utf8EncodeChar).toByteArray := fun text => by
    rw [← List.utf8Encode, ← String.toByteArray_ofList, String.ofList_toList]
  rw [toList_toUTF8, toList_toUTF8] at same
  exact String.toByteArray_inj.mp (by rw [toBytes, toBytes, same])

/-- Names with one literal are one name: either is what the literal reads as. -/
theorem eq_of_quote_eq {first second : String} (same : quote first = quote second) :
    first = second := by
  have reads := readString_quote .lua51 first []
  rw [same, readString_quote] at reads
  exact eq_of_toUTF8_eq (Prod.mk.inj (Option.some.inj reads)).1.symm

/-! ## Calls and the lines of the text -/

section Calls

variable {settings : AnalysisSettings} {options : InstrumentSettings} {source name : String}
  {out : Instrumented}

theorem parsed_of_instrument (instrumented : instrument settings options source name = .ok out) :
    (analyze settings source name).degraded = none ∧ isName options.trackerName = true := by
  rw [instrument, instrumentWith] at instrumented
  split at instrumented
  · cases instrumented
  · rename_i parsed
    split at instrumented
    · rename_i valid
      exact ⟨parsed, valid⟩
    · cases instrumented

/-- What is inserted holds one line feed if it is a line of its own, and none otherwise. -/
theorem count_insertion (instrumented : instrument settings options source name = .ok out) :
    let analysis := analyze settings source name
    ∀ insertion ∈ insertions options source analysis name (chosen analysis),
      insertion.text.toList.count '\n' = if insertion.ownLine.isSome then 1 else 0 := by
  intro analysis insertion member
  obtain ⟨parsed, valid⟩ := parsed_of_instrument instrumented
  have fit := fitting_insertions name (analyze_liesIn parsed) valid
  cases own : insertion.ownLine with
  | none =>
      have inline := fit.inline insertion member own
      exact List.count_eq_zero.mpr fun feed => (inline.text _ feed).1 rfl
  | some line =>
      obtain ⟨before, after, body, -, -, -, -, -, isText, noFeed, -⟩ :=
        fit.own insertion member line own
      rw [isText, List.count_append, List.count_eq_zero.mpr noFeed]
      rfl

/-- The map has a source line for each line of the text and for nothing else. -/
theorem isSome_sourceLine? (instrumented : instrument settings options source name = .ok out)
    (output : Nat) : (out.sourceMap.sourceLine? output).isSome ↔
      1 ≤ output ∧ output ≤ (Text.lines out.text).length := by
  obtain ⟨parsed, valid⟩ := parsed_of_instrument instrumented
  rw [instrument_eq name parsed valid] at instrumented
  obtain rfl := Except.ok.inj instrumented
  obtain ⟨-, entries, isMap, laid⟩ := laid_transform name (analyze_liesIn parsed) valid
  rw [text_transform, lines_ofList, List.length_map, ← laid.length_eq, isMap, SourceMap.sourceLine?]
  cases output with
  | zero => exact ⟨nofun, fun bounds => absurd bounds.1 (by decide)⟩
  | succ index =>
      have inside : entries.toArray[index]?.isSome ↔ index < entries.length := by simp
      rw [if_neg index.succ_ne_zero, Nat.add_sub_cancel, inside]
      omega

end Calls

/-- **A literal reads back as the name it was made of**, in every version of the language and
whatever follows it. It holds no line end, and no other name has it. Calls hold no line ends either,
so the lines of an instrumented text are those that its map knows: an insertion adds a line to the
text just if the map counts it as one. -/
theorem quote_reads_back (name : String) :
    (∀ version rest, readString version ((quote name).toUTF8.toList ++ rest) =
      some (name.toUTF8.toList, rest)) ∧
    OneLine (quote name).toList ∧
    (∀ other, quote other = quote name → other = name) ∧
    ∀ settings options source out, instrument settings options source name = .ok out →
      let analysis := analyze settings source name
      (∀ line block, OneLine (hitCall options.trackerName (quote name) line block).toList) ∧
      (∀ line, OneLine (enterCall options.trackerName (quote name) line).toList) ∧
      (∀ insertion ∈ insertions options source analysis name (chosen analysis),
        insertion.text.toList.count '\n' = if insertion.ownLine.isSome then 1 else 0) ∧
      ∀ output, (out.sourceMap.sourceLine? output).isSome ↔
        1 ≤ output ∧ output ≤ (Text.lines out.text).length := by
  refine ⟨fun version rest => readString_quote version name rest, oneLine_quote name,
    fun other => eq_of_quote_eq, fun settings options source out instrumented => ?_⟩
  obtain ⟨-, valid⟩ := parsed_of_instrument instrumented
  exact ⟨fun line block => oneLine_hitCall valid name line block,
    fun line => oneLine_enterCall valid name line, count_insertion instrumented,
    isSome_sourceLine? instrumented⟩

set_option maxRecDepth 20000 in
/-- A name with every character that is not written as it stands, with digits behind the numbers and
letters of several bytes: its literal reads back, and the source of two lines that is instrumented
under it comes to the four lines that the map knows. -/
theorem quote_reads_back_marked :
    let name := "\"\\n\x007\x1b9\x7f0\n\ré€\\"
    (quote name).toList = "\"\\\"\\\\n\\0007\\0279\\1270\\n\\ré€\\\\\"".toList ∧
      readString .lua51 ((quote name).toUTF8.toList ++ ", 1".toUTF8.toList) =
        some (name.toUTF8.toList, ", 1".toUTF8.toList) ∧
      ∃ out, instrument ⟨.nonExecutable, 100⟩ ⟨"cov", true⟩ "x = 1\nf(x)\n" name = .ok out ∧
        (Text.lines out.text).length = 4 := by
  intro name
  obtain ⟨reads, -, -, lines⟩ := quote_reads_back name
  have parsed : (analyze ⟨.nonExecutable, 100⟩ "x = 1\nf(x)\n" name).degraded = none := by
    decide +kernel
  have isOut := @instrument_eq _ ⟨"cov", true⟩ _ name parsed (by decide)
  obtain ⟨-, -, -, mapped⟩ := lines _ _ _ _ isOut
  have four := ((mapped 4).mp (by decide +kernel)).2
  have noFifth := mt (mapped 5).mpr (by decide +kernel)
  exact ⟨by decide +kernel, reads .lua51 _, _, isOut, by omega⟩

end LuaCoverage.Instrument
