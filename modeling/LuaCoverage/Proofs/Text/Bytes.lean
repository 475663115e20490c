import LuaCoverage.Text.Lines

/-!
# Bytes of a text

The bytes of a text are counted character by character, so a place in a text is determined by the
number of bytes before it (`eq_of_utf8Length_eq`). The bytes themselves are those of the characters
one after the other (`toList_toUTF8`).

What is written for characters can also be run on bytes, each taken for the character that has its
number (`byteChars`). Characters of seven bits are found there just where they stand in the text:
a stretch of them among the bytes begins and ends between characters (`exists_of_byteChars`).
-/

set_option autoImplicit false

namespace LuaCoverage.Text

@[simp]
theorem utf8Length_nil : utf8Length [] = 0 := rfl

@[simp]
theorem utf8Length_cons (char : Char) (rest : List Char) :
    utf8Length (char :: rest) = char.utf8Size + utf8Length rest := by
  have shifted : ∀ (chars : List Char) (start : Nat),
      chars.foldl (fun total char => total + char.utf8Size) start = start + utf8Length chars := by
    intro chars
    induction chars with
    | nil => exact fun start => rfl
    | cons first chars ih =>
        intro start
        have own : utf8Length (first :: chars) = 0 + first.utf8Size + utf8Length chars := ih _
        rw [List.foldl_cons, ih, own, Nat.zero_add, Nat.add_assoc]
  rw [utf8Length, List.foldl_cons, shifted, Nat.zero_add]

@[simp]
theorem utf8Length_append (first later : List Char) :
    utf8Length (first ++ later) = utf8Length first + utf8Length later := by
  induction first with
  | nil => rw [List.nil_append, utf8Length_nil, Nat.zero_add]
  | cons char first ih =>
      rw [List.cons_append, utf8Length_cons, ih, utf8Length_cons, Nat.add_assoc]

theorem utf8ByteSize_ofList (chars : List Char) :
    (String.ofList chars).utf8ByteSize = utf8Length chars := by
  induction chars with
  | nil => rfl
  | cons char rest ih =>
      rw [utf8Length_cons, ← ih, show char :: rest = [char] ++ rest by rfl, String.ofList_append,
        String.utf8ByteSize_append, ← String.singleton_eq_ofList, String.utf8ByteSize_singleton]

/-- A place in a text is determined by its byte. -/
theorem eq_of_utf8Length_eq {first second rest rest' : List Char}
    (same : first ++ rest = second ++ rest') (bytes : utf8Length first = utf8Length second) :
    first = second := by
  induction first generalizing second with
  | nil =>
      cases second with
      | nil => rfl
      | cons char second =>
          rw [utf8Length_nil, utf8Length_cons] at bytes
          have := char.utf8Size_pos
          omega
  | cons char first ih =>
      cases second with
      | nil =>
          rw [utf8Length_nil, utf8Length_cons] at bytes
          have := char.utf8Size_pos
          omega
      | cons other second =>
          obtain ⟨rfl, same'⟩ := List.cons.inj same
          rw [utf8Length_cons, utf8Length_cons] at bytes
          rw [ih same' (by omega)]

/-- The bytes from an index on, behind those that were taken already. -/
theorem toList_loop (bytes : ByteArray) (index : Nat) (taken : List UInt8) :
    ByteArray.toList.loop bytes index taken = taken.reverse ++ bytes.data.toList.drop index := by
  fun_induction ByteArray.toList.loop bytes index taken with
  | case1 index taken inside ih =>
      have inside' : index < bytes.data.toList.length := inside
      have byte : bytes.get! index = bytes.data.toList[index] :=
        getElem!_pos bytes.data index inside
      rw [ih, List.drop_eq_getElem_cons inside', byte, List.reverse_cons, List.append_assoc,
        List.singleton_append]
  | case2 index taken outside =>
      have beyond : bytes.data.toList.length ≤ index := Nat.le_of_not_lt outside
      rw [List.drop_eq_nil_of_le beyond, List.append_nil]

/-- **The bytes of a text are those of its characters.** -/
theorem toList_toUTF8 (text : String) :
    text.toUTF8.toList = text.toList.flatMap String.utf8EncodeChar := by
  have bytes : text.toUTF8 = (text.toList.flatMap String.utf8EncodeChar).toByteArray := by
    rw [← List.utf8Encode, ← String.toByteArray_ofList, String.ofList_toList, String.toUTF8]
  rw [ByteArray.toList, toList_loop, bytes, List.reverse_nil, List.nil_append, List.drop_zero,
    List.data_toByteArray]

/-! ## Bytes as characters -/

/-- The bytes of some characters, each as the character that has its number. -/
def byteChars (chars : List Char) : List Char :=
  chars.flatMap fun char => (String.utf8EncodeChar char).map Char.ofUInt8

@[simp]
theorem byteChars_nil : byteChars [] = [] := rfl

theorem byteChars_append (first later : List Char) :
    byteChars (first ++ later) = byteChars first ++ byteChars later := List.flatMap_append

theorem byteChars_cons (char : Char) (rest : List Char) :
    byteChars (char :: rest) = byteChars [char] ++ byteChars rest := byteChars_append [char] rest

theorem toNat_ofUInt8 (byte : UInt8) : (Char.ofUInt8 byte).toNat = byte.toNat := rfl

/-- **A character of seven bits is its own byte**, and every byte of another one has the eighth bit
set. -/
theorem cases_byteChars (char : Char) :
    (char.toNat < 128 ∧ byteChars [char] = [char]) ∨
      (128 ≤ char.toNat ∧ byteChars [char] ≠ [] ∧
        ∀ byte ∈ byteChars [char], 128 ≤ byte.toNat) := by
  have single : byteChars [char] = (String.utf8EncodeChar char).map Char.ofUInt8 :=
    List.flatMap_singleton ..
  have isNat : char.val.toNat = char.toNat := rfl
  by_cases isAscii : char.toNat < 128
  · refine .inl ⟨isAscii, ?_⟩
    have same : Char.ofUInt8 (UInt8.ofNat char.toNat) = char := by
      rw [← Char.toNat_inj, toNat_ofUInt8, UInt8.toNat_ofNat']
      omega
    rw [single, String.utf8EncodeChar]
    simp only [isNat]
    rw [if_pos (by omega), List.map_singleton, same]
  · refine .inr ⟨by omega, by simp [single, String.utf8EncodeChar_ne_nil], fun byte member => ?_⟩
    rw [single, List.mem_map] at member
    obtain ⟨encoded, member, rfl⟩ := member
    rw [toNat_ofUInt8]
    unfold String.utf8EncodeChar at member
    simp only [isNat] at member
    split at member
    · omega
    split at member
    · simp only [List.mem_cons, List.not_mem_nil, or_false] at member
      rcases member with rfl | rfl <;> rw [UInt8.toNat_ofNat'] <;> omega
    split at member
    · simp only [List.mem_cons, List.not_mem_nil, or_false] at member
      rcases member with rfl | rfl | rfl <;> rw [UInt8.toNat_ofNat'] <;> omega
    · simp only [List.mem_cons, List.not_mem_nil, or_false] at member
      rcases member with rfl | rfl | rfl | rfl <;> rw [UInt8.toNat_ofNat'] <;> omega

theorem byteChars_cons_ascii {char : Char} (isAscii : char.toNat < 128) (rest : List Char) :
    byteChars (char :: rest) = char :: byteChars rest := by
  rcases cases_byteChars char with ⟨-, single⟩ | ⟨high, -⟩
  · rw [byteChars_cons, single]
    rfl
  · omega

/-- Whether all characters of a text have seven bits. -/
def IsAscii (text : List Char) : Prop := ∀ char ∈ text, char.toNat < 128

theorem byteChars_eq_self {text : List Char} (isAscii : IsAscii text) : byteChars text = text := by
  induction text with
  | nil => rfl
  | cons char rest ih =>
      rw [byteChars_cons_ascii (isAscii char List.mem_cons_self),
        ih fun other member => isAscii other (List.mem_cons_of_mem _ member)]

theorem eq_nil_of_byteChars {text : List Char} (nothing : byteChars text = []) : text = [] := by
  cases text with
  | nil => rfl
  | cons char rest =>
      rw [byteChars_cons, List.append_eq_nil_iff] at nothing
      rcases cases_byteChars char with ⟨-, single⟩ | ⟨-, filled, -⟩
      · exact nomatch single.symm.trans nothing.1
      · exact absurd nothing.1 filled

/-- A character of seven bits stands among the bytes of a text where it stands in the text. -/
theorem exists_of_byteChars_char {text before after : List Char} {mark : Char}
    (isAscii : mark.toNat < 128) (same : byteChars text = before ++ mark :: after) :
    ∃ before' after', text = before' ++ mark :: after' ∧ byteChars before' = before ∧
      byteChars after' = after := by
  induction text generalizing before with
  | nil => exact absurd same.symm (by simp)
  | cons char rest ih =>
      rcases cases_byteChars char with ⟨small, -⟩ | ⟨-, -, high⟩
      · rw [byteChars_cons_ascii small] at same
        cases before with
        | nil =>
            obtain ⟨rfl, isAfter⟩ := List.cons.inj same
            exact ⟨[], rest, rfl, rfl, isAfter⟩
        | cons own before =>
            obtain ⟨rfl, isRest⟩ := List.cons.inj same
            obtain ⟨before', after', rfl, rfl, isAfter⟩ := ih isRest
            exact ⟨char :: before', after', rfl, byteChars_cons_ascii small before', isAfter⟩
      · -- the mark is none of the bytes of this character, so these come before it
        rw [byteChars_cons] at same
        rcases List.append_eq_append_iff.mp same with ⟨between, rfl, isRest⟩ |
          ⟨between, isOwn, isRest⟩
        · obtain ⟨before', after', rfl, rfl, isAfter⟩ := ih isRest
          exact ⟨char :: before', after', rfl, byteChars_cons char before', isAfter⟩
        · cases between with
          | nil =>
              rw [List.append_nil] at isOwn
              have isRest : byteChars rest = [] ++ mark :: after := isRest.symm
              obtain ⟨before', after', rfl, nothing, isAfter⟩ := ih isRest
              obtain rfl := eq_nil_of_byteChars nothing
              exact ⟨[char], after', rfl, isOwn, isAfter⟩
          | cons first between =>
              obtain ⟨rfl, -⟩ := List.cons.inj isRest
              have isHigh := high mark (by rw [isOwn]; simp)
              omega

/-- What begins the bytes of a text begins the text, if it is made of characters of seven bits. -/
theorem exists_of_byteChars_start {text mark after : List Char} (isAscii : IsAscii mark)
    (same : byteChars text = mark ++ after) :
    ∃ after', text = mark ++ after' ∧ byteChars after' = after := by
  induction mark generalizing text with
  | nil => exact ⟨text, rfl, same⟩
  | cons first mark ih =>
      have same : byteChars text = [] ++ first :: (mark ++ after) := same
      obtain ⟨before, rest, rfl, nothing, isRest⟩ :=
        exists_of_byteChars_char (isAscii first List.mem_cons_self) same
      obtain rfl := eq_nil_of_byteChars nothing
      obtain ⟨after', rfl, isAfter⟩ :=
        ih (fun char member => isAscii char (List.mem_cons_of_mem _ member)) isRest
      exact ⟨after', rfl, isAfter⟩

/-- **Characters of seven bits stand among the bytes of a text where they stand in it.** No stretch
of them begins or ends within a character. -/
theorem exists_of_byteChars {text before mark after : List Char} (isAscii : IsAscii mark)
    (filled : mark ≠ []) (same : byteChars text = before ++ (mark ++ after)) :
    ∃ before' after', text = before' ++ (mark ++ after') ∧ byteChars before' = before ∧
      byteChars after' = after := by
  obtain ⟨first, mark, rfl⟩ := List.exists_cons_of_ne_nil filled
  obtain ⟨before', rest, rfl, isBefore, isRest⟩ :=
    exists_of_byteChars_char (isAscii first List.mem_cons_self) same
  obtain ⟨after', rfl, isAfter⟩ := exists_of_byteChars_start
    (fun char member => isAscii char (List.mem_cons_of_mem _ member)) isRest
  exact ⟨before', after', rfl, isBefore, isAfter⟩

/-- Characters of seven bits begin the bytes of a text just if they begin the text. -/
theorem prefix_byteChars_iff {text mark : List Char} (isAscii : IsAscii mark) :
    mark <+: byteChars text ↔ mark <+: text := by
  constructor
  · rintro ⟨after, same⟩
    obtain ⟨after', rfl, -⟩ := exists_of_byteChars_start isAscii same.symm
    exact List.prefix_append mark after'
  · rintro ⟨after, rfl⟩
    rw [byteChars_append, byteChars_eq_self isAscii]
    exact List.prefix_append mark _

/-- Characters of seven bits occur among the bytes of a text just if they occur in the text. -/
theorem infix_byteChars_iff {text mark : List Char} (isAscii : IsAscii mark) (filled : mark ≠ []) :
    mark <:+: byteChars text ↔ mark <:+: text := by
  constructor
  · rintro ⟨before, after, same⟩
    rw [List.append_assoc] at same
    obtain ⟨before', after', rfl, -⟩ := exists_of_byteChars isAscii filled same.symm
    exact ⟨before', after', List.append_assoc ..⟩
  · rintro ⟨before, after, rfl⟩
    rw [byteChars_append, byteChars_append, byteChars_eq_self isAscii]
    exact ⟨_, _, rfl⟩

end LuaCoverage.Text
