import LuaCoverage.Instrument.SourceMap

/-!
# Looking lines up

A map that never decreases falls, for any source line, into the entries that are not beyond that
line and those that are, and the search for a source line finds the place between the two
(`partitionPoint_eq`). A source line leads to this place if that comes from the line
(`outputLine?_eq_some_iff`).

`Laid` describes how the rows of an instrumented text lie: for each line of the source some rows
ahead of it, then the row that holds its text, with as many entries of the map as there are rows.
All that a map is asked for follows from cutting this at one line (`Laid.exists_cut`).
-/

set_option autoImplicit false

namespace LuaCoverage

namespace SourceMap

/-! ## The search -/

theorem firstBeyond_eq {map : SourceMap} {line point : Nat}
    (below : ∀ index, index < point → map.lines.getD index 0 ≤ line)
    (beyond : ∀ index, point ≤ index → index < map.lines.size → line < map.lines.getD index 0)
    (steps low size : Nat) (enough : size ≤ steps) (lowest : low ≤ point)
    (highest : point ≤ low + size) (bound : low + size ≤ map.lines.size) :
    map.firstBeyond line steps low size = point := by
  induction steps generalizing low size with
  | zero =>
      rw [firstBeyond]
      omega
  | succ steps ih =>
      rw [firstBeyond]
      by_cases empty : size = 0
      · rw [if_pos empty]
        omega
      · rw [if_neg empty]
        simp only
        have half : size / 2 < size := Nat.div_lt_self (by omega) (by decide)
        by_cases middle : map.lines.getD (low + size / 2) 0 ≤ line
        · rw [if_pos middle]
          have before : low + size / 2 < point := by
            refine Nat.lt_of_not_le fun after => ?_
            have above := beyond (low + size / 2) after (by omega)
            omega
          exact ih _ _ (by omega) (by omega) (by omega) (by omega)
        · rw [if_neg middle]
          have after : point ≤ low + size / 2 :=
            Nat.le_of_not_lt fun before => middle (below _ before)
          exact ih _ _ (by omega) lowest (by omega) (by omega)

/-- **The search finds the place where a map grows past a line.** -/
theorem partitionPoint_eq {map : SourceMap} {line : Nat} {front back : List Nat}
    (entries : map.lines.toList = front ++ back) (below : ∀ entry ∈ front, entry ≤ line)
    (beyond : ∀ entry ∈ back, line < entry) : map.partitionPoint line = front.length := by
  have size : map.lines.size = front.length + back.length := by
    rw [← Array.length_toList, entries, List.length_append]
  have lookup : ∀ index, map.lines.getD index 0 = ((front ++ back)[index]?).getD 0 := by
    intro index
    rw [← entries, Array.getD_eq_getD_getElem?, Array.getElem?_toList]
  refine firstBeyond_eq ?_ ?_ _ _ _ (Nat.le_refl _) (Nat.zero_le _) (by omega) (by omega)
  · intro index inFront
    rw [lookup, List.getElem?_append_left inFront, List.getElem?_eq_getElem inFront]
    exact below _ (List.getElem_mem inFront)
  · intro index inBack inside
    rw [lookup, List.getElem?_append_right inBack,
      List.getElem?_eq_getElem (show index - front.length < back.length by omega)]
    exact beyond _ (List.getElem_mem _)

/-! ## The lookups -/

variable {map : SourceMap} {line output : Nat}

theorem sourceLine?_eq_some_iff : map.sourceLine? output = some line ↔
    0 < output ∧ map.lines.toList[output - 1]? = some line := by
  unfold sourceLine?
  rw [Array.getElem?_toList]
  split
  · simp [*]
  · simp [Nat.pos_of_ne_zero, *]

/-- What a source line leads to is where the search ends, if that comes from the line. -/
theorem outputLine?_eq_some_iff : map.outputLine? line = some output ↔
    map.partitionPoint line = output ∧ map.sourceLine? output = some line := by
  unfold outputLine?
  simp only [sourceLine?_eq_some_iff, Array.getElem?_toList]
  split
  case isTrue found =>
    rw [Option.some.injEq]
    refine ⟨?_, And.left⟩
    rintro rfl
    exact ⟨rfl, Nat.pos_of_ne_zero found.1, found.2⟩
  case isFalse missing =>
    refine ⟨nofun, ?_⟩
    rintro ⟨rfl, positive, isEntry⟩
    exact absurd ⟨Nat.ne_of_gt positive, isEntry⟩ missing

end SourceMap

namespace Instrument

/-! ## Rows and their lines -/

section Laid

variable {α : Type}

/-- How rows lie over the lines of a source from a given line on: rows ahead of a line, the row that
holds its text, and in the map one entry for each of them. -/
inductive Laid (ahead : Nat → List α → Prop) (kept : α → List Char) :
    Nat → List (List Char) → List α → List Nat → Prop
  | nil (line : Nat) : Laid ahead kept line [] [] []
  | cons {line : Nat} {chars : List Char} {lines : List (List Char)} {before rows : List α}
      {row : α} {entries : List Nat} (isAhead : ahead line before) (isKept : kept row = chars)
      (later : Laid ahead kept (line + 1) lines rows entries) :
      Laid ahead kept line (chars :: lines) (before ++ row :: rows)
        (List.replicate (before.length + 1) line ++ entries)

namespace Laid

variable {ahead : Nat → List α → Prop} {kept : α → List Char} {line : Nat}
  {lines : List (List Char)} {rows : List α} {entries : List Nat}

theorem length_eq (laid : Laid ahead kept line lines rows entries) :
    entries.length = rows.length := by
  induction laid with
  | nil line => rfl
  | cons isAhead isKept later ih =>
      simp only [List.length_append, List.length_replicate, List.length_cons, ih]
      omega

theorem bounds (laid : Laid ahead kept line lines rows entries) :
    ∀ entry ∈ entries, line ≤ entry ∧ entry < line + lines.length := by
  induction laid with
  | nil line => exact fun _ none => absurd none List.not_mem_nil
  | cons isAhead isKept later ih =>
      intro entry member
      rw [List.length_cons]
      rcases List.mem_append.mp member with own | other
      · obtain rfl := List.eq_of_mem_replicate own
        omega
      · have := ih entry other
        omega

/-- The map never decreases. -/
theorem pairwise (laid : Laid ahead kept line lines rows entries) : entries.Pairwise (· ≤ ·) := by
  induction laid with
  | nil line => exact List.Pairwise.nil
  | cons isAhead isKept later ih =>
      rw [List.pairwise_append]
      refine ⟨List.pairwise_replicate.mpr (.inr (Nat.le_refl _)), ih, ?_⟩
      intro entry own other member
      obtain rfl := List.eq_of_mem_replicate own
      have := later.bounds other member
      omega

/-- **The rows of one line stand between those of earlier and those of later lines.** -/
theorem exists_cut (laid : Laid ahead kept line lines rows entries) {index : Nat}
    {chars : List Char} (found : lines[index]? = some chars) :
    ∃ front before row back frontEntries backEntries,
      rows = front ++ (before ++ row :: back) ∧
      entries = frontEntries ++ (List.replicate (before.length + 1) (line + index) ++ backEntries) ∧
      frontEntries.length = front.length ∧ (∀ entry ∈ frontEntries, entry < line + index) ∧
      (∀ entry ∈ backEntries, line + index < entry) ∧ ahead (line + index) before ∧
      kept row = chars := by
  induction laid generalizing index with
  | nil line => cases found
  | @cons line own lines before rows row entries isAhead isKept later ih =>
      cases index with
      | zero =>
          obtain rfl : own = chars := Option.some.inj found
          refine ⟨[], before, row, rows, [], entries, rfl, rfl, rfl,
            fun _ none => absurd none List.not_mem_nil, fun entry member => ?_, isAhead, isKept⟩
          have := later.bounds entry member
          omega
      | succ index =>
          obtain ⟨front, before', row', back, frontEntries, backEntries, rfl, rfl, length, less,
            more, isAhead', isKept'⟩ := ih found
          rw [show line + 1 + index = line + (index + 1) by omega] at less more isAhead' ⊢
          refine ⟨before ++ row :: front, before', row', back,
            List.replicate (before.length + 1) line ++ frontEntries, backEntries, ?_, ?_, ?_, ?_,
            more, isAhead', isKept'⟩
          · simp only [List.append_assoc, List.cons_append]
          · simp only [List.append_assoc]
          · simp only [List.length_append, List.length_replicate, List.length_cons, length]
            omega
          · intro entry member
            rcases List.mem_append.mp member with mine | other
            · obtain rfl := List.eq_of_mem_replicate mine
              omega
            · exact less entry other

/-- **Looking up a source line finds the row with its text**, and the other output lines that come
from it are the rows ahead of that one. -/
theorem exists_lookup (laid : Laid ahead kept 1 lines rows entries) {index : Nat}
    {chars : List Char} (found : lines[index]? = some chars) :
    let map : SourceMap := ⟨entries.toArray⟩
    ∃ output before row, map.outputLine? (index + 1) = some output ∧ output ≤ rows.length ∧
      map.sourceLine? output = some (index + 1) ∧ rows[output - 1]? = some row ∧
      kept row = chars ∧ ahead (index + 1) before ∧
      (∀ other, map.sourceLine? other = some (index + 1) → other ≠ output →
        other < output ∧ ∃ item ∈ before, rows[other - 1]? = some item) ∧
      ∀ item ∈ before, ∃ other, other ≠ output ∧ map.sourceLine? other = some (index + 1) ∧
        rows[other - 1]? = some item := by
  intro map
  obtain ⟨front, before, row, back, frontEntries, backEntries, isRows, isEntries, length, less,
    more, isAhead, isKept⟩ := laid.exists_cut found
  rw [Nat.add_comm 1 index] at isEntries less more isAhead
  have lookup : ∀ place, entries[place]? = some (index + 1) ↔
      front.length ≤ place ∧ place ≤ front.length + before.length := by
    intro place
    rw [isEntries]
    constructor
    · intro isEntry
      rcases Nat.lt_or_ge place frontEntries.length with inFront | pastFront
      · rw [List.getElem?_append_left inFront] at isEntry
        exact absurd (less _ (List.mem_of_getElem? isEntry)) (Nat.lt_irrefl _)
      · rw [List.getElem?_append_right pastFront] at isEntry
        rcases Nat.lt_or_ge (place - frontEntries.length) (before.length + 1) with own | pastOwn
        · omega
        · rw [List.getElem?_append_right (by rwa [List.length_replicate])] at isEntry
          exact absurd (more _ (List.mem_of_getElem? isEntry)) (Nat.lt_irrefl _)
    · rintro ⟨atLeast, atMost⟩
      rw [List.getElem?_append_right (by omega), List.getElem?_append_left
        (by rw [List.length_replicate]; omega), List.getElem?_replicate, if_pos (by omega)]
  have source : ∀ output, map.sourceLine? output = some (index + 1) ↔
      front.length < output ∧ output ≤ front.length + before.length + 1 := by
    intro output
    refine SourceMap.sourceLine?_eq_some_iff.trans ((and_congr_right fun _ => lookup _).trans ?_)
    omega
  have rowAt : ∀ place item, before[place]? = some item →
      rows[front.length + place]? = some item := by
    intro place item isItem
    have inside : place < before.length := (List.getElem?_eq_some_iff.mp isItem).1
    rw [isRows, List.getElem?_append_right (by omega), Nat.add_sub_cancel_left,
      List.getElem?_append_left inside, isItem]
  have ownRow : rows[front.length + before.length]? = some row := by
    rw [isRows, List.getElem?_append_right (by omega), Nat.add_sub_cancel_left,
      List.getElem?_append_right (Nat.le_refl _), Nat.sub_self]
    rfl
  refine ⟨front.length + before.length + 1, before, row, ?_, ?_, (source _).mpr (by omega), ownRow,
    isKept, isAhead, ?_, ?_⟩
  · have point : map.partitionPoint (index + 1) = front.length + before.length + 1 := by
      rw [SourceMap.partitionPoint_eq
        (isEntries.trans (List.append_assoc ..).symm) ?_ more, List.length_append,
        List.length_replicate, length]
      · omega
      · intro entry member
        rcases List.mem_append.mp member with mine | own
        · exact Nat.le_of_lt (less entry mine)
        · exact Nat.le_of_eq (List.eq_of_mem_replicate own)
    exact SourceMap.outputLine?_eq_some_iff.mpr ⟨point, (source _).mpr (by omega)⟩
  · exact (List.getElem?_eq_some_iff.mp ownRow).1
  · intro other isSource differs
    obtain ⟨atLeast, atMost⟩ := (source other).mp isSource
    refine ⟨by omega, ?_⟩
    have inside : other - front.length - 1 < before.length := by omega
    refine ⟨before[other - front.length - 1], List.getElem_mem inside, ?_⟩
    rw [← rowAt _ _ (List.getElem?_eq_getElem inside)]
    congr 1
    omega
  · intro item member
    obtain ⟨place, inside, rfl⟩ := List.getElem_of_mem member
    refine ⟨front.length + place + 1, by omega, (source _).mpr (by omega), ?_⟩
    exact rowAt place _ (List.getElem?_eq_getElem inside)

end Laid

end Laid

end Instrument

end LuaCoverage
