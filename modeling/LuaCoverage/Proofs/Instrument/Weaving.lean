import Mathlib.Data.List.TakeDrop
import LuaCoverage.Instrument.Transform
import LuaCoverage.Proofs.Text.Bytes

/-!
# What weaving puts where

Sorting the insertions by their bytes is a detail of how weaving is done. What it amounts to is that
ahead of every character stand the insertions of its byte, in the order in which they were given
(`pieces_eq`). This holds as long as every insertion stands at a byte where a character begins or
the source ends.
-/

set_option autoImplicit false

namespace LuaCoverage.Instrument

open Text

/-! ## Weaving without sorting -/

/-- The pieces that are inserted at a byte, in the order of the insertions. -/
def insertedAt (insertions : List Insertion) (byte : Nat) : List Piece :=
  (insertions.filter fun insertion => insertion.byte == byte).map fun insertion =>
    .injected insertion.text

/-- The pieces from a byte on, behind what is inserted there: every character, and behind it what is
inserted at the byte after it. -/
def spread (insertions : List Insertion) : Nat → List Char → List Piece
  | _, [] => []
  | byte, char :: rest =>
      .source char :: (insertedAt insertions (byte + char.utf8Size)
        ++ spread insertions (byte + char.utf8Size) rest)

theorem spread_append (insertions : List Insertion) (byte : Nat) (first later : List Char) :
    spread insertions byte (first ++ later) =
      spread insertions byte first ++ spread insertions (byte + utf8Length first) later := by
  induction first generalizing byte with
  | nil => rfl
  | cons char first ih =>
      rw [List.cons_append, spread, spread, ih, utf8Length_cons, List.cons_append,
        List.append_assoc, Nat.add_assoc]

/-- What is spread from a byte on depends on the insertions behind that byte only. -/
theorem spread_congr {insertions insertions' : List Insertion} {byte : Nat}
    (same : ∀ later, byte < later → insertedAt insertions later = insertedAt insertions' later)
    (chars : List Char) : spread insertions byte chars = spread insertions' byte chars := by
  induction chars generalizing byte with
  | nil => rfl
  | cons char rest ih =>
      have next : byte < byte + char.utf8Size := Nat.lt_add_of_pos_right char.utf8Size_pos
      rw [spread, spread, same _ next, ih fun later after => same later (Nat.lt_trans next after)]

/-- Among sorted insertions those up to a byte come first. -/
theorem span_eq_filter {insertions : List Insertion} (byte : Nat)
    (sorted : insertions.Pairwise fun first second => first.byte ≤ second.byte) :
    insertions.span (fun insertion => insertion.byte ≤ byte) =
      (insertions.filter (fun insertion => insertion.byte ≤ byte),
        insertions.filter fun insertion => byte < insertion.byte) := by
  rw [List.span_eq_takeWhile_dropWhile]
  induction insertions with
  | nil => rfl
  | cons first rest ih =>
      obtain ⟨least, sorted⟩ := List.pairwise_cons.mp sorted
      have ih := Prod.mk.inj (ih sorted)
      by_cases here : first.byte ≤ byte
      · have notLater : ¬ byte < first.byte := by omega
        simp [here, notLater, ih.1, ih.2]
      · have later : byte < first.byte := by omega
        have allLater : ∀ other ∈ rest, byte < other.byte :=
          fun other member => Nat.lt_of_lt_of_le later (least other member)
        have none : rest.filter (fun insertion => insertion.byte ≤ byte) = [] := by
          rw [List.filter_eq_nil_iff]
          intro other member
          have := allLater other member
          simp
          omega
        have all : rest.filter (fun insertion => byte < insertion.byte) = rest := by
          rw [List.filter_eq_self]
          intro other member
          simpa using allLater other member
        simp [here, later, none, all]

/-- Weaving sorted insertions puts each of them at its byte. -/
theorem weave_eq {insertions : List Insertion} {byte : Nat} {chars : List Char}
    (sorted : insertions.Pairwise fun first second => first.byte ≤ second.byte)
    (inside : ∀ insertion ∈ insertions, ∃ before after, chars = before ++ after ∧
      insertion.byte = byte + utf8Length before) :
    weave insertions byte chars = insertedAt insertions byte ++ spread insertions byte chars := by
  induction chars generalizing insertions byte with
  | nil =>
      have all : insertions.filter (fun insertion => insertion.byte == byte) = insertions := by
        rw [List.filter_eq_self]
        intro insertion member
        obtain ⟨before, after, isNil, isByte⟩ := inside insertion member
        obtain ⟨rfl, -⟩ := List.append_eq_nil_iff.mp isNil.symm
        simpa using isByte
      rw [weave, spread, insertedAt, all, List.append_nil]
  | cons char rest ih =>
      rw [weave, span_eq_filter byte sorted, spread]
      have least : ∀ insertion ∈ insertions, byte ≤ insertion.byte := by
        intro insertion member
        obtain ⟨before, after, -, isByte⟩ := inside insertion member
        omega
      have here : insertions.filter (fun insertion => insertion.byte ≤ byte) =
          insertions.filter fun insertion => insertion.byte == byte := by
        refine List.filter_congr fun insertion member => ?_
        have := least insertion member
        rw [Bool.eq_iff_iff, decide_eq_true_iff, beq_iff_eq]
        omega
      have later : ∀ place, byte < place →
          insertedAt (insertions.filter fun insertion => byte < insertion.byte) place =
            insertedAt insertions place := by
        intro place after
        unfold insertedAt
        rw [List.filter_filter]
        congr 1
        refine List.filter_congr fun insertion _ => ?_
        by_cases same : insertion.byte = place
        · simp [same, after]
        · simp [same]
      have next : byte < byte + char.utf8Size := Nat.lt_add_of_pos_right char.utf8Size_pos
      simp only
      rw [ih (sorted.filter _) ?_, later _ next,
        spread_congr (fun place after => later place (Nat.lt_trans next after)), here]
      · rfl
      intro insertion member
      obtain ⟨member, behind⟩ := List.mem_filter.mp member
      obtain ⟨before, after, isChars, isByte⟩ := inside insertion member
      cases before with
      | nil =>
          rw [utf8Length_nil] at isByte
          simp at behind
          omega
      | cons first before =>
          obtain ⟨rfl, rfl⟩ := List.cons.inj isChars
          refine ⟨before, after, rfl, ?_⟩
          rw [isByte, utf8Length_cons, Nat.add_assoc]

/-- Sorting keeps the order of the insertions at one byte. -/
theorem insertedAt_mergeSort (insertions : List Insertion) (byte : Nat) :
    insertedAt (insertions.mergeSort fun first second => first.byte ≤ second.byte) byte =
      insertedAt insertions byte := by
  unfold insertedAt
  congr 1
  generalize isSorted :
    (insertions.mergeSort fun first second => first.byte ≤ second.byte) = sorted
  have order : sorted.Perm insertions := isSorted ▸ List.mergeSort_perm insertions _
  have kept : (insertions.filter fun insertion => insertion.byte == byte).Sublist sorted := by
    rw [← isSorted]
    refine List.sublist_mergeSort ?_ ?_ ?_ List.filter_sublist
    · intro first second third less less'
      simp only [decide_eq_true_eq] at less less' ⊢
      omega
    · intro first second
      simp only [Bool.or_eq_true, decide_eq_true_eq]
      omega
    · refine List.pairwise_of_forall_mem_list fun first member second member' => ?_
      have isByte := beq_iff_eq.mp (List.mem_filter.mp member).2
      have isByte' := beq_iff_eq.mp (List.mem_filter.mp member').2
      simp [isByte, isByte']
  have filtered := kept.filter fun insertion => insertion.byte == byte
  rw [List.filter_filter] at filtered
  simp only [Bool.and_self] at filtered
  exact (filtered.eq_of_length (order.filter _).length_eq.symm).symm

/-- **Ahead of every character of the source stand the insertions of its byte**, in the order in
which they were given. -/
theorem pieces_eq {source : String} {insertions : List Insertion}
    (inside : ∀ insertion ∈ insertions, ∃ before after, source.toList = before ++ after ∧
      insertion.byte = utf8Length before) :
    pieces source insertions = insertedAt insertions 0 ++ spread insertions 0 source.toList := by
  unfold pieces
  rw [weave_eq, insertedAt_mergeSort,
    spread_congr fun byte _ => insertedAt_mergeSort insertions byte]
  · refine (List.pairwise_mergeSort ?_ ?_ insertions).imp fun less => of_decide_eq_true less
    · intro first second third less less'
      simp only [decide_eq_true_eq] at less less' ⊢
      omega
    · intro first second
      simp only [Bool.or_eq_true, decide_eq_true_eq]
      omega
  · intro insertion member
    obtain ⟨before, after, isSource, isByte⟩ := inside insertion (List.mem_mergeSort.mp member)
    exact ⟨before, after, isSource, by rw [isByte, Nat.zero_add]⟩

end LuaCoverage.Instrument
