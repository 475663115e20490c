import LuaCoverage.Proofs.Json.Spelling
import Mathlib.Data.List.DropRight

/-!
# Reading what was written

The library builds documents from escaped texts, natural numbers, lists and named members; such a
document is *canonical*. Written in any layout and read again, a canonical document is the same
(`parse_renderIn`).

The proof follows the document. What it says of a part holds wherever the part stands: at any depth,
before anything that does not go on with a number, and for any bound of at least twice the length of
the part. The blanks of the layout are skipped before every part, so they play no role.
-/

set_option autoImplicit false

namespace LuaCoverage.Json

/-! ## Blanks -/

theorem skipBlanks_append {blanks : List Char} (all : blanks.all isBlank = true)
    (text : List Char) : skipBlanks (blanks ++ text) = skipBlanks text :=
  List.dropWhile_append_of_pos (List.all_eq_true.mp all)

theorem skipBlanks_cons {char : Char} {rest : List Char} (ink : isBlank char = false) :
    skipBlanks (char :: rest) = char :: rest :=
  List.dropWhile_cons_of_neg (by simp [ink])

theorem skipBlanks_skipBlanks (text : List Char) :
    skipBlanks (skipBlanks text) = skipBlanks text :=
  List.dropWhile_idempotent _ text

/-- Blanks before a document are skipped. -/
theorem readValue_congr {text text' : List Char} (same : skipBlanks text = skipBlanks text')
    (bound : Nat) : readValue bound text = readValue bound text' := by
  cases bound with
  | zero => rw [readValue, readValue]
  | succ bound => rw [readValue, readValue, same]

theorem readItems_congr {text text' : List Char} (same : skipBlanks text = skipBlanks text')
    (bound : Nat) : readItems bound text = readItems bound text' := by
  cases bound with
  | zero => rw [readItems, readItems]
  | succ bound => rw [readItems, readItems, readValue_congr same]

theorem readMembers_congr {text text' : List Char} (same : skipBlanks text = skipBlanks text')
    (bound : Nat) : readMembers bound text = readMembers bound text' := by
  cases bound with
  | zero => rw [readMembers, readMembers]
  | succ bound => rw [readMembers, readMembers, same]

/-- Blanks, and then something that ends a number. -/
theorem delimited_blanks {blanks : List Char} (all : blanks.all isBlank = true) {rest : List Char}
    (delimited : Delimited rest) : Delimited (blanks ++ rest) := by
  cases blanks with
  | nil => exact delimited
  | cons blank blanks =>
      have isBlank : isBlank blank = true := List.all_eq_true.mp all _ List.mem_cons_self
      simp only [Json.isBlank, Bool.or_eq_true, beq_iff_eq] at isBlank
      rcases isBlank with ((rfl | rfl) | rfl) | rfl <;>
        exact delimited_cons rfl

/-! ## Canonical documents -/

/-- A document that is built from texts, natural numbers, lists and named members. -/
inductive Canonical : Value → Prop where
  | null : Canonical .null
  | bool (value : Bool) : Canonical (.bool value)
  | ofNat (number : Nat) : Canonical (.ofNat number)
  | ofString (text : String) : Canonical (.ofString text)
  | array {items : List Value} (each : ∀ item ∈ items, Canonical item) : Canonical (.array items)
  | ofMembers {members : List (String × Value)} (each : ∀ member ∈ members, Canonical member.2) :
      Canonical (.ofMembers members)

/-- A number has a first digit. -/
theorem exists_firstDigit (number : Nat) : ∃ first rest, Nat.toDigits 10 number = first :: rest ∧
    first.isDigit = true := by
  obtain ⟨first, rest, split⟩ :=
    List.exists_cons_of_ne_nil (show Nat.toDigits 10 number ≠ [] from Nat.toDigits_ne_nil)
  exact ⟨first, rest, split, isDigit_of_mem_toDigits (split ▸ List.mem_cons_self)⟩

/-- A digit is neither a blank nor the beginning of anything but a number. -/
theorem ne_of_isDigit {digit : Char} (isDigit : digit.isDigit = true) : isBlank digit = false ∧
    digit ≠ '\x7b' ∧ digit ≠ '[' ∧ digit ≠ ']' ∧ digit ≠ '"' ∧ digit ≠ 'n' ∧ digit ≠ 't' ∧
    digit ≠ 'f' := by
  have differs : ∀ other : Char, other.isDigit = false → digit ≠ other := by
    rintro other none rfl
    exact Bool.false_ne_true (none.symm.trans isDigit)
  refine ⟨?_, differs _ rfl, differs _ rfl, differs _ rfl, differs _ rfl, differs _ rfl,
    differs _ rfl, differs _ rfl⟩
  simp [isBlank, differs ' ' rfl, differs '\n' rfl, differs '\t' rfl, differs '\r' rfl]

variable {layout : Layout} {document : Value}

/-- A natural number is written by its digits. -/
theorem writtenIn_ofNat (depth number : Nat) :
    writtenIn layout depth (.ofNat number) = Nat.toDigits 10 number := by
  rw [Value.ofNat, writtenIn]
  exact Nat.toList_repr

/-- A canonical document begins with neither a blank nor a closing bracket. -/
theorem Canonical.exists_head (canonical : Canonical document) (layout : Layout) (depth : Nat) :
    ∃ first rest, writtenIn layout depth document = first :: rest ∧ isBlank first = false ∧
      first ≠ ']' := by
  cases canonical with
  | null => exact ⟨'n', _, rfl, rfl, by decide⟩
  | bool value => cases value <;> exact ⟨_, _, rfl, rfl, by decide⟩
  | ofNat number =>
      obtain ⟨first, rest, split, isDigit⟩ := exists_firstDigit number
      obtain ⟨ink, -, -, other, -⟩ := ne_of_isDigit isDigit
      exact ⟨first, rest, (writtenIn_ofNat depth number).trans split, ink, other⟩
  | ofString text => exact ⟨'"', _, rfl, rfl, by decide⟩
  | array each => exact ⟨'[', _, rfl, rfl, by decide⟩
  | ofMembers each => exact ⟨'\x7b', _, rfl, rfl, by decide⟩

/-- What reading is to find: the document, with anything after it that ends a number. -/
def ReadsBack (layout : Layout) (document : Value) : Prop :=
  ∀ (depth bound : Nat) (rest : List Char), 2 * (writtenIn layout depth document).length ≤ bound →
    Delimited rest → readValue bound (writtenIn layout depth document ++ rest) =
      some (document, rest)

/-! ## Items and members -/

theorem Layout.closing_isBlank (layout : Layout) (depth : Nat) (isEmpty : Bool) :
    (layout.closing depth isEmpty).all isBlank = true := by
  unfold closing
  split
  · rfl
  · exact layout.gapBlank depth

/-- The items of an array do not begin with its end. -/
theorem exists_head_writtenItems {items : List Value} (nonempty : items ≠ [])
    (each : ∀ item ∈ items, Canonical item) (depth : Nat) (after : List Char) :
    ∃ first more, skipBlanks (writtenItems layout depth items ++ after) = first :: more ∧
      first ≠ ']' := by
  obtain ⟨item, later, rfl⟩ := List.exists_cons_of_ne_nil nonempty
  obtain ⟨first, rest, begins, ink, other⟩ :=
    (each item List.mem_cons_self).exists_head layout depth
  cases later <;> rw [writtenItems] <;>
    simp only [begins, List.append_assoc, List.cons_append,
      skipBlanks_append (layout.gapBlank depth), skipBlanks_cons ink] <;>
    exact ⟨first, _, rfl, other⟩

/-- The members of an object begin with a name. -/
theorem exists_head_writtenMembers (layout : Layout) {members : List (String × Value)}
    (nonempty : members ≠ []) (depth : Nat) (after : List Char) :
    ∃ more, skipBlanks (writtenMembers layout depth
      (members.map fun member => (escapeText member.1, member.2)) ++ after) = '"' :: more := by
  obtain ⟨member, later, rfl⟩ := List.exists_cons_of_ne_nil nonempty
  cases later <;> simp only [List.map_cons, List.map_nil, writtenMembers] <;>
    simp only [List.append_assoc, List.cons_append, skipBlanks_append (layout.gapBlank depth),
      skipBlanks_cons (show isBlank '"' = false from rfl)] <;>
    exact ⟨_, rfl⟩

/-- **Reading the items of an array**, the bracket after them included. -/
theorem readItems_writtenItems {items : List Value} (nonempty : items ≠ [])
    (each : ∀ item ∈ items, ReadsBack layout item) (depth : Nat) {blanks : List Char}
    (allBlank : blanks.all isBlank = true) (rest : List Char) (bound : Nat)
    (enough : 2 * (writtenItems layout depth items).length + 1 ≤ bound) :
    readItems bound (writtenItems layout depth items ++ (blanks ++ ']' :: rest)) =
      some (items, rest) := by
  induction items generalizing bound with
  | nil => exact absurd rfl nonempty
  | cons item later ih =>
      obtain ⟨bound, rfl⟩ : ∃ less, bound = less + 1 := ⟨bound - 1, by omega⟩
      have gapBlank := layout.gapBlank depth
      have readsItem := each item List.mem_cons_self depth bound
      cases later with
      | nil =>
          rw [writtenItems, List.length_append] at enough
          rw [writtenItems, List.append_assoc, readItems,
            readValue_congr (skipBlanks_append gapBlank _), readsItem _ (by omega)
              (delimited_blanks allBlank
                (delimited_cons rfl))]
          simp only [Option.bind_eq_bind, Option.bind_some, skipBlanks_append allBlank,
            skipBlanks_cons (show isBlank ']' = false from rfl)]
      | cons next later =>
          simp only [writtenItems, List.length_append, List.length_cons] at enough
          simp only [writtenItems, List.append_assoc, List.cons_append]
          rw [readItems, readValue_congr (skipBlanks_append gapBlank _),
            readsItem _ (by omega) (delimited_cons rfl)]
          simp only [Option.bind_eq_bind, Option.bind_some,
            skipBlanks_cons (show isBlank ',' = false from rfl)]
          rw [ih (List.cons_ne_nil _ _) (fun other member =>
            each other (List.mem_cons_of_mem _ member)) bound (by omega)]
          rfl

/-- **Reading the members of an object**, the brace after them included. -/
theorem readMembers_writtenMembers {members : List (String × Value)} (nonempty : members ≠ [])
    (each : ∀ member ∈ members, ReadsBack layout member.2) (depth : Nat) {blanks : List Char}
    (allBlank : blanks.all isBlank = true) (rest : List Char) (bound : Nat)
    (enough : 2 * (writtenMembers layout depth
      (members.map fun member => (escapeText member.1, member.2))).length + 1 ≤ bound) :
    readMembers bound (writtenMembers layout depth
        (members.map fun member => (escapeText member.1, member.2)) ++ (blanks ++ '\x7d' :: rest)) =
      some (members.map fun member => (escapeText member.1, member.2), rest) := by
  have quote : isBlank '"' = false := rfl
  have colon : isBlank ':' = false := rfl
  induction members generalizing bound with
  | nil => exact absurd rfl nonempty
  | cons member later ih =>
      obtain ⟨name, value⟩ := member
      obtain ⟨bound, rfl⟩ : ∃ less, bound = less + 1 := ⟨bound - 1, by omega⟩
      have gapBlank := layout.gapBlank depth
      have readsValue : ∀ rest, 2 * (writtenIn layout depth value).length ≤ bound →
          Delimited rest → readValue bound (writtenIn layout depth value ++ rest) =
            some (value, rest) := each (name, value) List.mem_cons_self depth bound
      -- the name and the colon, whatever follows
      have readsName : ∀ after : List Char,
          stringLexeme? ((escapeText name).toList ++ '"' :: after) =
            some ((escapeText name).toList, after) := by
        intro after
        rw [escapeText, String.toList_ofList, stringLexeme?_escapeChars]
      cases later with
      | nil =>
          simp only [List.map_cons, List.map_nil, writtenMembers, List.length_append,
            List.length_cons] at enough
          simp only [List.map_cons, List.map_nil, writtenMembers, List.append_assoc,
            List.cons_append]
          rw [readMembers, skipBlanks_append gapBlank, skipBlanks_cons quote]
          simp only [readsName, Option.bind_eq_bind, Option.bind_some, skipBlanks_cons colon]
          rw [readValue_congr (skipBlanks_append layout.afterColonBlank _), readsValue _ (by omega)
            (delimited_blanks allBlank (delimited_cons rfl))]
          simp only [Option.bind_some, skipBlanks_append allBlank,
            skipBlanks_cons (show isBlank '\x7d' = false from rfl), String.ofList_toList]
      | cons next later =>
          simp only [List.map_cons, writtenMembers, List.length_append,
            List.length_cons] at enough
          simp only [List.map_cons, writtenMembers, List.append_assoc, List.cons_append]
          rw [readMembers, skipBlanks_append gapBlank, skipBlanks_cons quote]
          simp only [readsName, Option.bind_eq_bind, Option.bind_some, skipBlanks_cons colon]
          rw [readValue_congr (skipBlanks_append layout.afterColonBlank _), readsValue _ (by omega)
            (delimited_cons rfl)]
          simp only [Option.bind_some, skipBlanks_cons (show isBlank ',' = false from rfl)]
          have readsLater := ih (List.cons_ne_nil _ _) (fun other member =>
            each other (List.mem_cons_of_mem _ member)) bound
            (by simp only [List.map_cons]; omega)
          simp only [List.map_cons] at readsLater
          rw [readsLater, Option.bind_some, String.ofList_toList]
          rfl

/-! ## Documents -/

/-- What is written is not empty, so the bound is not used up. -/
theorem readsBack_of_succ (written : ∀ depth : Nat, writtenIn layout depth document ≠ [])
    (reads : ∀ (depth bound : Nat) (rest : List Char),
      2 * (writtenIn layout depth document).length ≤ bound + 1 → Delimited rest →
      readValue (bound + 1) (writtenIn layout depth document ++ rest) = some (document, rest)) :
    ReadsBack layout document := by
  intro depth bound rest enough delimited
  have positive := List.length_pos_of_ne_nil (written depth)
  obtain ⟨bound, rfl⟩ : ∃ less, bound = less + 1 := ⟨bound - 1, by omega⟩
  exact reads depth bound rest enough delimited

theorem readsBack_null : ReadsBack layout .null :=
  readsBack_of_succ (fun _ => List.cons_ne_nil _ _) fun _ _ _ _ _ => rfl

theorem readsBack_bool (value : Bool) : ReadsBack layout (.bool value) := by
  cases value <;> exact readsBack_of_succ (fun _ => List.cons_ne_nil _ _) fun _ _ _ _ _ => rfl

theorem readsBack_ofNat (number : Nat) : ReadsBack layout (.ofNat number) := by
  obtain ⟨first, later, split, isDigit⟩ := exists_firstDigit number
  obtain ⟨ink, ne⟩ := ne_of_isDigit isDigit
  have written : ∀ depth, writtenIn layout depth (.ofNat number) = first :: later :=
    fun depth => (writtenIn_ofNat depth number).trans split
  refine readsBack_of_succ (fun depth => by rw [written]; exact List.cons_ne_nil _ _) ?_
  intro depth bound rest _ delimited
  have lexeme := numberLexeme?_toDigits number delimited
  rw [split] at lexeme
  rw [written, readValue, List.cons_append, skipBlanks_cons ink]
  split <;> rename_i same
  case h_7 =>
    have spelled : String.ofList (first :: later) = toString number := by
      rw [← split, ← Nat.toList_repr, String.ofList_toList]
      rfl
    rw [← List.cons_append, lexeme, Option.bind_eq_bind, Option.bind_some, Value.ofNat, ← spelled]
    rfl
  all_goals simp_all

theorem readsBack_ofString (text : String) : ReadsBack layout (.ofString text) := by
  refine readsBack_of_succ (fun _ => List.cons_ne_nil _ _) fun depth bound rest _ _ => ?_
  have lexeme := stringLexeme?_escapeChars text.toList rest
  rw [Value.ofString, writtenIn, readValue, List.cons_append, List.cons_append,
    skipBlanks_cons (by rfl)]
  simp only [List.append_assoc, List.cons_append, List.nil_append, escapeText,
    String.toList_ofList, lexeme, Option.bind_eq_bind, Option.bind_some]
  rfl

theorem readsBack_array {items : List Value} (each : ∀ item ∈ items, Canonical item)
    (readsEach : ∀ item ∈ items, ReadsBack layout item) : ReadsBack layout (.array items) := by
  refine readsBack_of_succ (fun _ => List.cons_ne_nil _ _) fun depth bound rest enough _ => ?_
  rw [writtenIn] at enough ⊢
  by_cases nonempty : items = []
  · subst nonempty
    rfl
  · obtain ⟨first, more, begins, other⟩ := exists_head_writtenItems nonempty each (depth + 1)
      (layout.closing depth items.isEmpty ++ ']' :: rest)
    have found := readItems_writtenItems nonempty readsEach (depth + 1)
      (layout.closing_isBlank depth items.isEmpty) rest bound
      (by simp only [List.length_append, List.length_cons] at enough; omega)
    rw [readItems_congr (skipBlanks_skipBlanks _).symm] at found
    simp only [List.append_assoc, List.cons_append, List.nil_append]
    rw [readValue, skipBlanks_cons (show isBlank '[' = false from rfl)]
    rw [begins] at found
    simp only [begins]
    split
    · rename_i same
      exact absurd (List.cons.inj same).1 other
    · rw [found]
      rfl

theorem readsBack_ofMembers {members : List (String × Value)}
    (readsEach : ∀ member ∈ members, ReadsBack layout member.2) :
    ReadsBack layout (.ofMembers members) := by
  refine readsBack_of_succ (fun _ => List.cons_ne_nil _ _) fun depth bound rest enough _ => ?_
  rw [Value.ofMembers, writtenIn] at enough ⊢
  by_cases nonempty : members = []
  · subst nonempty
    rfl
  · obtain ⟨more, begins⟩ := exists_head_writtenMembers layout nonempty (depth + 1)
      (layout.closing depth (members.map fun member =>
        (escapeText member.1, member.2)).isEmpty ++ '\x7d' :: rest)
    have found := readMembers_writtenMembers nonempty readsEach (depth + 1)
      (layout.closing_isBlank depth (members.map fun member =>
        (escapeText member.1, member.2)).isEmpty) rest bound
      (by simp only [List.length_append, List.length_cons] at enough; omega)
    rw [readMembers_congr (skipBlanks_skipBlanks _).symm] at found
    simp only [List.append_assoc, List.cons_append, List.nil_append]
    rw [readValue, skipBlanks_cons (show isBlank '\x7b' = false from rfl)]
    rw [begins] at found
    simp only [begins]
    split
    · rename_i same
      cases (List.cons.inj same).1
    · rw [found]
      rfl

/-- **A canonical document is read as what was written.** -/
theorem Canonical.readsBack (canonical : Canonical document) : ReadsBack layout document := by
  induction canonical with
  | null => exact readsBack_null
  | bool value => exact readsBack_bool value
  | ofNat number => exact readsBack_ofNat number
  | ofString text => exact readsBack_ofString text
  | array each ih => exact readsBack_array each ih
  | ofMembers each ih => exact readsBack_ofMembers ih

/-- **Reading undoes writing**, in any layout. -/
theorem parse_renderIn (layout : Layout) (canonical : Canonical document) :
    parse (document.renderIn layout) = some document := by
  have readsBack : ReadsBack layout document := canonical.readsBack
  have read := readsBack 0 (2 * (writtenIn layout 0 document).length + 2) [] (by omega)
    delimited_nil
  rw [List.append_nil] at read
  rw [parse, Value.renderIn, String.toList_ofList]
  simp only [read, Option.bind_eq_bind, Option.bind_some]
  rfl

end LuaCoverage.Json
