import LuaCoverage.Proofs.Instrument.Faithful
import LuaCoverage.Proofs.Module.StoredForms
import Mathlib.Data.List.Pairwise
import Mathlib.Order.Bounds.Basic

/-!
# Lines looked up both ways

A map that never decreases is looked up in both directions, an output line by its place and a source
line by a binary search. The two directions belong together: the search finds the last of the output
lines that come from a source line, and finds none just if there is none
(`SourceMap.lookups_agree`). Nothing else is asked of a map than that it never decreases, so this
covers entries that repeat, source lines that no output line comes from, entries of zero and the
empty map.

Of the search only one property is used, that an output line is not beyond the place where the
search ends just if its source line is not beyond the line looked for
(`NonDecreasing.le_partitionPoint_iff`).

The maps that arise never decrease: those of texts whose lines were not moved, those of instrumented
texts, and what is read back of the documents of these (`Arises.nonDecreasing`).
-/

set_option autoImplicit false

namespace LuaCoverage

namespace SourceMap

/-- Whether later output lines never come from earlier source lines. -/
def NonDecreasing (map : SourceMap) : Prop := map.lines.toList.Pairwise (· ≤ ·)

variable {map : SourceMap} {line output : Nat}

/-! ## Both lookups -/

/-- Each output line has a source line. -/
theorem exists_sourceLine? (positive : 0 < output) (inside : output ≤ map.lines.toList.length) :
    ∃ line, map.sourceLine? output = some line :=
  ⟨_, sourceLine?_eq_some_iff.mpr ⟨positive, List.getElem?_eq_getElem (by omega)⟩⟩

/-- Numbers that never decrease fall into those that are not beyond a line and those that are. -/
theorem exists_cut_of_pairwise {entries : List Nat} (sorted : entries.Pairwise (· ≤ ·))
    (line : Nat) : ∃ front back, entries = front ++ back ∧ (∀ entry ∈ front, entry ≤ line) ∧
      ∀ entry ∈ back, line < entry := by
  induction entries with
  | nil => exact ⟨[], [], rfl, nofun, nofun⟩
  | cons first rest ih =>
      obtain ⟨least, sorted⟩ := List.pairwise_cons.mp sorted
      rcases Nat.lt_or_ge line first with beyond | below
      · refine ⟨[], first :: rest, rfl, nofun, List.forall_mem_cons.mpr ⟨beyond, ?_⟩⟩
        exact fun entry member => Nat.lt_of_lt_of_le beyond (least entry member)
      · obtain ⟨front, back, rfl, belows, beyonds⟩ := ih sorted
        exact ⟨first :: front, back, rfl, List.forall_mem_cons.mpr ⟨below, belows⟩, beyonds⟩

namespace NonDecreasing

/-- Later output lines come from the same or from later source lines. -/
theorem le_of_le (nonDecreasing : map.NonDecreasing) {output' line' : Nat} (le : output ≤ output')
    (isLine : map.sourceLine? output = some line)
    (isLine' : map.sourceLine? output' = some line') : line ≤ line' := by
  obtain ⟨positive, isEntry⟩ := sourceLine?_eq_some_iff.mp isLine
  obtain ⟨positive', isEntry'⟩ := sourceLine?_eq_some_iff.mp isLine'
  obtain ⟨inside, rfl⟩ := List.getElem?_eq_some_iff.mp isEntry
  obtain ⟨inside', rfl⟩ := List.getElem?_eq_some_iff.mp isEntry'
  exact nonDecreasing.rel_get_of_le (a := ⟨_, inside⟩) (b := ⟨_, inside'⟩)
    (Nat.sub_le_sub_right le 1)

/-- The search ends where a map is cut into the entries that are not beyond a line and those that
are. -/
theorem exists_cut (nonDecreasing : map.NonDecreasing) (line : Nat) : ∃ front back,
    map.lines.toList = front ++ back ∧ (∀ entry ∈ front, entry ≤ line) ∧
      (∀ entry ∈ back, line < entry) ∧ map.partitionPoint line = front.length := by
  obtain ⟨front, back, entries, below, beyond⟩ := exists_cut_of_pairwise nonDecreasing line
  exact ⟨front, back, entries, below, beyond, partitionPoint_eq entries below beyond⟩

/-- The search ends within the map. -/
theorem partitionPoint_le (nonDecreasing : map.NonDecreasing) :
    map.partitionPoint line ≤ map.lines.toList.length := by
  obtain ⟨front, back, entries, -, -, isPoint⟩ := nonDecreasing.exists_cut line
  rw [isPoint, entries, List.length_append]
  exact Nat.le_add_right _ _

/-- **An output line is not beyond where the search ends** just if its source line is not beyond the
line looked for. -/
theorem le_partitionPoint_iff (nonDecreasing : map.NonDecreasing) {other : Nat}
    (isLine : map.sourceLine? output = some other) :
    output ≤ map.partitionPoint line ↔ other ≤ line := by
  obtain ⟨front, back, entries, below, beyond, isPoint⟩ := nonDecreasing.exists_cut line
  obtain ⟨positive, isEntry⟩ := sourceLine?_eq_some_iff.mp isLine
  rw [entries] at isEntry
  rw [isPoint]
  constructor
  · intro le
    rw [List.getElem?_append_left (by omega)] at isEntry
    exact below other (List.mem_of_getElem? isEntry)
  · intro le
    by_contra less
    rw [List.getElem?_append_right (by omega)] at isEntry
    exact Nat.not_lt_of_le le (beyond other (List.mem_of_getElem? isEntry))

/-- **A source line with output lines leads to the last of them**, which is where the search
ends. -/
theorem outputLine?_eq_partitionPoint (nonDecreasing : map.NonDecreasing)
    (isLine : map.sourceLine? output = some line) :
    map.outputLine? line = some (map.partitionPoint line) ∧ output ≤ map.partitionPoint line := by
  have le : output ≤ map.partitionPoint line :=
    (nonDecreasing.le_partitionPoint_iff isLine).mpr (Nat.le_refl line)
  have positive : 0 < map.partitionPoint line :=
    Nat.lt_of_lt_of_le (sourceLine?_eq_some_iff.mp isLine).1 le
  obtain ⟨other, isOther⟩ := exists_sourceLine? positive nonDecreasing.partitionPoint_le
  -- not beyond the line as the search ends there, and not before it as the map never decreases
  obtain rfl : other = line := Nat.le_antisymm
    ((nonDecreasing.le_partitionPoint_iff isOther).mp (Nat.le_refl _))
    (nonDecreasing.le_of_le le isLine isOther)
  exact ⟨outputLine?_eq_some_iff.mpr ⟨rfl, isOther⟩, le⟩

end NonDecreasing

/-! ## The maps that arise -/

/-- How maps come about. -/
inductive Arises : SourceMap → Prop
  | identity (count : Nat) : Arises (.identity count)
  | instrumented {options : InstrumentSettings} {source fileId : String} {analysis : Analysis}
      {out : Instrumented} (made : instrumentWith options source fileId analysis = .ok out) :
      Arises out.sourceMap
  | readBack {map found : SourceMap} (arises : Arises map)
      (reads : ofJson? map.toJson = some found) : Arises found

theorem nonDecreasing_identity (count : Nat) : (identity count).NonDecreasing :=
  List.pairwise_map.mpr
    (List.pairwise_lt_range.imp fun less => Nat.succ_le_succ (Nat.le_of_lt less))

theorem nonDecreasing_mapAfter (count : Nat) (insertions : List Instrument.Insertion) :
    (Instrument.mapAfter count insertions).NonDecreasing := by
  refine List.pairwise_flatMap.mpr ⟨fun index _ => ?_, ?_⟩
  · exact List.pairwise_replicate.mpr (.inr (Nat.le_refl _))
  · refine List.pairwise_lt_range.imp fun less entry isEntry entry' isEntry' => ?_
    rw [List.eq_of_mem_replicate isEntry, List.eq_of_mem_replicate isEntry']
    exact Nat.succ_le_succ (Nat.le_of_lt less)

/-- **A map that arises never decreases.** -/
theorem Arises.nonDecreasing (arises : map.Arises) : map.NonDecreasing := by
  induction arises with
  | identity count => exact nonDecreasing_identity count
  | instrumented made =>
      unfold instrumentWith at made
      split at made
      · cases made
      · split at made
        · cases made
          exact nonDecreasing_mapAfter _ _
        · cases made
  | readBack arises reads ih =>
      obtain rfl := SourceMap.faithful _ _ reads
      exact ih

/-! ## Agreement -/

/-- **The two lookups agree** in every map that never decreases, and each map that arises is one. A
source line leads to the last of the output lines that come from it, and to none just if none does;
so going from a source line to the output and back leads to the same line, and going from an output
line to the source and back never leads before it. Later source lines lead to later output lines. -/
theorem lookups_agree (map : SourceMap) :
    (map.Arises → map.NonDecreasing) ∧
    (map.NonDecreasing →
      (∀ line output, map.outputLine? line = some output ↔
        IsGreatest {other | map.sourceLine? other = some line} output) ∧
      (∀ line, map.outputLine? line = none ↔ ∀ output, map.sourceLine? output ≠ some line) ∧
      (∀ line output, map.outputLine? line = some output → map.sourceLine? output = some line) ∧
      (∀ line output, map.sourceLine? output = some line →
        ∃ last, map.outputLine? line = some last ∧ output ≤ last) ∧
      ∀ line line' output output', line < line' → map.outputLine? line = some output →
        map.outputLine? line' = some output' → output < output') := by
  refine ⟨Arises.nonDecreasing, fun nonDecreasing => ⟨?greatest, ?absent, ?back, ?forth, ?strict⟩⟩
  case greatest =>
    intro line output
    constructor
    · intro leads
      obtain ⟨rfl, isLine⟩ := outputLine?_eq_some_iff.mp leads
      exact ⟨isLine, fun other isOther => (nonDecreasing.outputLine?_eq_partitionPoint isOther).2⟩
    · rintro ⟨isLine, greatest⟩
      obtain ⟨leads, le⟩ := nonDecreasing.outputLine?_eq_partitionPoint isLine
      rw [leads, Nat.le_antisymm (greatest (outputLine?_eq_some_iff.mp leads).2) le]
  case absent =>
    intro line
    constructor
    · intro absent output isLine
      rw [(nonDecreasing.outputLine?_eq_partitionPoint isLine).1] at absent
      cases absent
    · intro noLine
      refine Option.eq_none_iff_forall_ne_some.mpr fun output leads => ?_
      exact noLine output (outputLine?_eq_some_iff.mp leads).2
  case back => exact fun line output leads => (outputLine?_eq_some_iff.mp leads).2
  case forth =>
    exact fun line output isLine => ⟨_, nonDecreasing.outputLine?_eq_partitionPoint isLine⟩
  case strict =>
    intro line line' output output' less leads leads'
    by_contra notLess
    have le := nonDecreasing.le_of_le (Nat.le_of_not_lt notLess)
      (outputLine?_eq_some_iff.mp leads').2 (outputLine?_eq_some_iff.mp leads).2
    exact Nat.not_lt_of_le le less

set_option maxRecDepth 20000 in
/-- A map with an entry of zero, a repeated entry and lines that are skipped, and the map of an
instrumented source. -/
theorem lookups_agree_gaps :
    let map : SourceMap := ⟨#[0, 2, 2, 5]⟩
    map.NonDecreasing ∧ IsGreatest {other | map.sourceLine? other = some 0} 1 ∧
      IsGreatest {other | map.sourceLine? other = some 2} 3 ∧
      (∀ output, map.sourceLine? output ≠ some 3) ∧
      ∃ out, instrument ⟨.nonExecutable, 100⟩ ⟨"cov", true⟩ "x = 1\nf(x)\n" "p" = .ok out ∧
        out.sourceMap.Arises ∧ out.sourceMap.NonDecreasing ∧
        IsGreatest {other | out.sourceMap.sourceLine? other = some 2} 4 := by
  intro map
  have sorted : map.NonDecreasing := by
    unfold NonDecreasing
    decide
  obtain ⟨-, lookups⟩ := lookups_agree map
  obtain ⟨greatest, absent, -⟩ := lookups sorted
  have parsed : (analyze ⟨.nonExecutable, 100⟩ "x = 1\nf(x)\n" "p").degraded = none := by
    decide +kernel
  have made := @Instrument.instrument_eq _ ⟨"cov", true⟩ _ "p" parsed (by decide)
  have arises := Arises.instrumented made
  obtain ⟨ordered, lookups'⟩ := lookups_agree (Instrument.transform _ _ _ _).sourceMap
  obtain ⟨greatest', -⟩ := lookups' (ordered arises)
  exact ⟨sorted, (greatest 0 1).mp (by decide), (greatest 2 3).mp (by decide),
    (absent 3).mp (by decide), _, made, arises, ordered arises,
    (greatest' 2 4).mp (by decide +kernel)⟩

end SourceMap

end LuaCoverage
