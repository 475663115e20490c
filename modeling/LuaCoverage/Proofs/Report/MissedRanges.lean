import LuaCoverage.Report
import Mathlib.Data.List.Pairwise
import Mathlib.Data.List.Sort

/-!
# Ranges of unexecuted lines

A report shows the unexecuted lines of a file as ranges. Which ranges these are is fixed by what
they hold (`Gathers`): a range begins and ends with an unexecuted line, each unexecuted line lies in
one, no range holds a line that stops it, and between two ranges there is such a line, so that no
two of them could be joined. No other list of ranges has these properties (`Gathers.unique`).

The ranges are made in one pass, which keeps the range that may still go on apart from those that
are over. At any time the ranges so far gather the lines so far, some line stopped every range that
is over, and none stopped the one that goes on (`Scanned`). A line number without a record is no
line, so nothing stops a range there.
-/

set_option autoImplicit false

namespace LuaCoverage

/-! ## Gathered lines -/

/-- Whether a line lies in a range. -/
def Within (line : Nat) (range : Nat × Nat) : Prop := range.1 ≤ line ∧ line ≤ range.2

/-- Whether some line between two ranges stops the first of them. -/
def Separated (stops : Nat → Prop) (first second : Nat × Nat) : Prop :=
  ∃ line, stops line ∧ first.2 < line ∧ line < second.1

/-- What ranges have to be in order to gather some lines where others stop a range. -/
structure Gathers (missed stops : Nat → Prop) (ranges : List (Nat × Nat)) : Prop where
  forward : ∀ range ∈ ranges, range.1 ≤ range.2
  begins : ∀ range ∈ ranges, missed range.1
  ends : ∀ range ∈ ranges, missed range.2
  holds : ∀ line, missed line → ∃ range ∈ ranges, Within line range
  clear : ∀ range ∈ ranges, ∀ line, Within line range → ¬ stops line
  apart : ranges.Pairwise (Separated stops)

namespace Gathers

variable {missed stops : Nat → Prop} {ranges others past : List (Nat × Nat)} {line : Nat}

/-- The ranges stand in order and have no line in common. -/
theorem ordered (gathers : Gathers missed stops ranges) :
    ranges.Pairwise fun first second => first.2 < second.1 :=
  gathers.apart.imp fun ⟨_, _, after, before⟩ => Nat.lt_trans after before

theorem increasing (gathers : Gathers missed stops ranges) :
    ranges.Pairwise fun first second => first.1 < second.1 :=
  gathers.ordered.imp_of_mem fun member _ before =>
    Nat.lt_of_le_of_lt (gathers.forward _ member) before

theorem separated_of_ne (gathers : Gathers missed stops ranges) {first second : Nat × Nat}
    (isFirst : first ∈ ranges) (isSecond : second ∈ ranges) (differ : first ≠ second) :
    Separated stops first second ∨ Separated stops second first := by
  have symmetric : Std.Symm fun first second =>
      Separated stops first second ∨ Separated stops second first := ⟨fun _ _ => Or.symm⟩
  have eitherWay : ranges.Pairwise fun first second =>
      Separated stops first second ∨ Separated stops second first := gathers.apart.imp Or.inl
  exact eitherWay.forall isFirst isSecond differ

/-- **Two ranges are one** if a stretch of lines in which nothing stops has a line of each. -/
theorem eq_of_clear (gathers : Gathers missed stops ranges) {first second stretch : Nat × Nat}
    (clear : ∀ line, Within line stretch → ¬ stops line) {line line' : Nat}
    (isFirst : first ∈ ranges) (isSecond : second ∈ ranges) (inFirst : Within line first)
    (inSecond : Within line' second) (inside : Within line stretch)
    (inside' : Within line' stretch) : first = second := by
  by_contra differ
  unfold Within at inFirst inSecond inside inside'
  rcases gathers.separated_of_ne isFirst isSecond differ with
    ⟨stop, isStop, after, before⟩ | ⟨stop, isStop, after, before⟩
  all_goals exact clear stop ⟨by omega, by omega⟩ isStop

theorem mem_of_mem (gathers : Gathers missed stops ranges) (gathers' : Gathers missed stops others)
    {range : Nat × Nat} (member : range ∈ ranges) : range ∈ others := by
  obtain ⟨other, isOther, inside⟩ := gathers'.holds _ (gathers.begins range member)
  have first : Within range.1 range := ⟨Nat.le_refl _, gathers.forward range member⟩
  have last : Within range.2 range := ⟨gathers.forward range member, Nat.le_refl _⟩
  have first' : Within other.1 other := ⟨Nat.le_refl _, gathers'.forward other isOther⟩
  have last' : Within other.2 other := ⟨gathers'.forward other isOther, Nat.le_refl _⟩
  -- an unexecuted line of the other range lies in a range of ours, which nothing separates from it
  have within : ∀ line, missed line → Within line other → Within line range := by
    intro line isMissed inOther
    obtain ⟨found, isFound, inFound⟩ := gathers.holds line isMissed
    obtain rfl := gathers.eq_of_clear (gathers'.clear other isOther) isFound member inFound first
      inOther inside
    exact inFound
  have reaches : Within range.2 other := by
    obtain ⟨found, isFound, inFound⟩ := gathers'.holds _ (gathers.ends range member)
    obtain rfl := gathers'.eq_of_clear (gathers.clear range member) isFound isOther inFound inside
      last first
    exact inFound
  have begins := within _ (gathers'.begins other isOther) first'
  have ends := within _ (gathers'.ends other isOther) last'
  obtain rfl : range = other :=
    Prod.ext (Nat.le_antisymm begins.1 inside.1) (Nat.le_antisymm reaches.2 ends.2)
  exact isOther

/-- **Lines are gathered into ranges in one way only.** -/
theorem unique (gathers : Gathers missed stops ranges) (gathers' : Gathers missed stops others) :
    ranges = others := by
  have distinct {ranges : List (Nat × Nat)} (gathers : Gathers missed stops ranges) :
      ranges.Nodup :=
    gathers.increasing.imp fun less same => Nat.ne_of_lt less (congrArg Prod.fst same)
  have same : ranges.Perm others := (List.perm_ext_iff_of_nodup (distinct gathers)
    (distinct gathers')).mpr fun _ => ⟨gathers.mem_of_mem gathers', gathers'.mem_of_mem gathers⟩
  exact same.eq_of_pairwise (fun _ _ _ _ less more => absurd more (Nat.lt_asymm less))
    gathers.increasing gathers'.increasing

/-! ### Line by line -/

theorem nil (noLine : ∀ line, ¬ missed line) : Gathers missed stops [] where
  forward := List.forall_mem_nil _
  begins := List.forall_mem_nil _
  ends := List.forall_mem_nil _
  holds line isMissed := absurd isMissed (noLine line)
  clear := List.forall_mem_nil _
  apart := List.Pairwise.nil

/-- A line behind all ranges may stop them. -/
theorem stop (gathers : Gathers missed stops ranges) (behind : ∀ range ∈ ranges, range.2 < line) :
    Gathers missed (fun other => stops other ∨ other = line) ranges where
  forward := gathers.forward
  begins := gathers.begins
  ends := gathers.ends
  holds := gathers.holds
  clear range member other inside := by
    rintro (isStop | rfl)
    · exact gathers.clear range member other inside isStop
    · exact Nat.not_lt_of_le inside.2 (behind range member)
  apart := gathers.apart.imp fun ⟨other, isStop, between⟩ => ⟨other, .inl isStop, between⟩

/-- A line behind all others is a range of its own if every range before it was stopped. -/
theorem start (gathers : Gathers missed stops past)
    (isOver : ∀ range ∈ past, ∃ stop, stops stop ∧ range.2 < stop)
    (behind : ∀ stop, stops stop → stop < line) :
    Gathers (fun other => missed other ∨ other = line) stops (past ++ [(line, line)]) where
  forward :=
    List.forall_mem_append.mpr ⟨gathers.forward, List.forall_mem_singleton.mpr (Nat.le_refl _)⟩
  begins := by
    refine List.forall_mem_append.mpr ⟨fun range member => .inl (gathers.begins range member), ?_⟩
    exact List.forall_mem_singleton.mpr (.inr rfl)
  ends := by
    refine List.forall_mem_append.mpr ⟨fun range member => .inl (gathers.ends range member), ?_⟩
    exact List.forall_mem_singleton.mpr (.inr rfl)
  holds := by
    rintro other (isMissed | rfl)
    · obtain ⟨range, member, inside⟩ := gathers.holds other isMissed
      exact ⟨range, List.mem_append_left _ member, inside⟩
    · exact ⟨_, List.mem_concat_self, Nat.le_refl _, Nat.le_refl _⟩
  clear := by
    refine List.forall_mem_append.mpr ⟨gathers.clear, List.forall_mem_singleton.mpr ?_⟩
    exact fun other inside isStop => Nat.not_lt_of_le inside.1 (behind other isStop)
  apart := by
    refine List.pairwise_append.mpr ⟨gathers.apart, List.pairwise_singleton _ _, ?_⟩
    rintro range member _ (_ | ⟨_, ⟨⟩⟩)
    obtain ⟨stop, isStop, after⟩ := isOver range member
    exact ⟨stop, isStop, after, behind stop isStop⟩

/-- A line behind all others is the new end of the last range if nothing stopped that. -/
theorem extend {first last : Nat} (gathers : Gathers missed stops (past ++ [(first, last)]))
    (goesOn : ∀ stop, stops stop → stop ≤ last) (behind : last < line) :
    Gathers (fun other => missed other ∨ other = line) stops (past ++ [(first, line)]) := by
  obtain ⟨forward, begins, ends, holds, clear, apart⟩ := gathers
  rw [List.forall_mem_append, List.forall_mem_singleton] at forward begins ends clear
  rw [List.pairwise_append] at apart
  constructor
  case forward =>
    refine List.forall_mem_append.mpr ⟨forward.1, List.forall_mem_singleton.mpr ?_⟩
    exact Nat.le_trans forward.2 (Nat.le_of_lt behind)
  case begins =>
    refine List.forall_mem_append.mpr ⟨fun range member => .inl (begins.1 range member), ?_⟩
    exact List.forall_mem_singleton.mpr (.inl begins.2)
  case ends =>
    refine List.forall_mem_append.mpr ⟨fun range member => .inl (ends.1 range member), ?_⟩
    exact List.forall_mem_singleton.mpr (.inr rfl)
  case holds =>
    rintro other (isMissed | rfl)
    · obtain ⟨range, member, inside⟩ := holds other isMissed
      rcases List.mem_append.mp member with isOver | isLast
      · exact ⟨range, List.mem_append_left _ isOver, inside⟩
      · obtain rfl := List.mem_singleton.mp isLast
        exact ⟨_, List.mem_concat_self, inside.1, Nat.le_trans inside.2 (Nat.le_of_lt behind)⟩
    · exact ⟨_, List.mem_concat_self, Nat.le_trans forward.2 (Nat.le_of_lt behind), Nat.le_refl _⟩
  case clear =>
    refine List.forall_mem_append.mpr ⟨clear.1, List.forall_mem_singleton.mpr ?_⟩
    exact fun other inside isStop => clear.2 other ⟨inside.1, goesOn other isStop⟩ isStop
  case apart =>
    refine List.pairwise_append.mpr ⟨apart.1, List.pairwise_singleton _ _, ?_⟩
    rintro range member _ (_ | ⟨_, ⟨⟩⟩)
    exact apart.2.2 range member (first, last) List.mem_cons_self

end Gathers

/-! ## The pass over the lines -/

/-- Whether a line can run and did not. -/
def LineRecord.IsUnexecuted (record : LineRecord) : Prop := record.executable ∧ ¬ record.executed

/-- Whether a line stops a range of unexecuted lines: it can run and did, or it is code that cannot
run. A hit on a line that cannot run does not count. -/
def LineRecord.StopsRange (record : LineRecord) : Prop :=
  record.executable ∧ record.executed ∨ ¬ record.executable ∧ record.lineType = .code

theorem LineRecord.isMissed_iff {record : LineRecord} :
    record.isMissed ↔ record.IsUnexecuted := by
  simp [isMissed, IsUnexecuted]

/-- A line stops a range if it is not unexecuted itself and a range cannot go on over it. -/
theorem LineRecord.stopsRange_iff {record : LineRecord} :
    record.StopsRange ↔ ¬ record.IsUnexecuted ∧ ¬ record.isPassedOver := by
  unfold StopsRange IsUnexecuted isPassedOver
  cases record.executable <;> simp

/-- Whether some of the lines has a given number and passes a test. -/
def HasLine (entries : List (Nat × LineRecord)) (test : LineRecord → Prop) (line : Nat) : Prop :=
  ∃ record, (line, record) ∈ entries ∧ test record

section HasLine

variable {seen : List (Nat × LineRecord)} {test : LineRecord → Prop} {line other : Nat}
  {record : LineRecord}

theorem hasLine_concat_of_pos (passes : test record) : HasLine (seen ++ [(line, record)]) test =
    fun other => HasLine seen test other ∨ other = line := by
  funext other
  simp [HasLine, or_and_right, exists_or, passes]

theorem hasLine_concat_of_neg (fails : ¬ test record) :
    HasLine (seen ++ [(line, record)]) test = HasLine seen test := by
  funext other
  simp [HasLine, or_and_right, exists_or, fails]

theorem HasLine.lt (has : HasLine seen test other) (later : ∀ entry ∈ seen, entry.1 < line) :
    other < line := by
  obtain ⟨_, isEntry, -⟩ := has
  exact later _ isEntry

end HasLine

/-- Whether ranges gather the unexecuted among some lines. -/
abbrev GathersMissed (entries : List (Nat × LineRecord)) : List (Nat × Nat) → Prop :=
  Gathers (HasLine entries LineRecord.IsUnexecuted) (HasLine entries LineRecord.StopsRange)

/-- The state of the pass over the lines: those seen, the ranges that are over, and the range that
may go on. -/
structure Scanned (seen : List (Nat × LineRecord)) (past : List (Nat × Nat))
    (current : Option (Nat × Nat)) : Prop where
  gathers : GathersMissed seen (past ++ current.toList)
  isOver : ∀ range ∈ past, ∃ stop, HasLine seen LineRecord.StopsRange stop ∧ range.2 < stop
  goesOn : ∀ range ∈ current, ∀ stop, HasLine seen LineRecord.StopsRange stop → stop ≤ range.2

namespace Scanned

variable {seen entries : List (Nat × LineRecord)} {past : List (Nat × Nat)}
  {current : Option (Nat × Nat)} {line : Nat} {record : LineRecord}

theorem nil : Scanned [] [] none where
  gathers := .nil fun _ ⟨_, isEntry, _⟩ => List.not_mem_nil isEntry
  isOver := List.forall_mem_nil _
  goesOn := nofun

theorem passOver (scanned : Scanned seen past current) (notMissed : ¬ record.IsUnexecuted)
    (notStop : ¬ record.StopsRange) : Scanned (seen ++ [(line, record)]) past current := by
  obtain ⟨gathers, isOver, goesOn⟩ := scanned
  constructor
  case gathers =>
    rwa [GathersMissed, hasLine_concat_of_neg notMissed, hasLine_concat_of_neg notStop]
  case isOver => rwa [hasLine_concat_of_neg notStop]
  case goesOn => rwa [hasLine_concat_of_neg notStop]

theorem stop (scanned : Scanned seen past current) (later : ∀ entry ∈ seen, entry.1 < line)
    (notMissed : ¬ record.IsUnexecuted) (isStop : record.StopsRange) :
    Scanned (seen ++ [(line, record)]) (past ++ current.toList) none := by
  have behind : ∀ range ∈ past ++ current.toList, range.2 < line :=
    fun range member => (scanned.gathers.ends range member).lt later
  constructor
  case gathers =>
    rw [GathersMissed, hasLine_concat_of_neg notMissed, hasLine_concat_of_pos isStop,
      Option.toList_none, List.append_nil]
    exact scanned.gathers.stop behind
  case isOver =>
    rw [hasLine_concat_of_pos isStop]
    exact fun range member => ⟨line, .inr rfl, behind range member⟩
  case goesOn => nofun

theorem start (scanned : Scanned seen past none) (later : ∀ entry ∈ seen, entry.1 < line)
    (missed : record.IsUnexecuted) (notStop : ¬ record.StopsRange) :
    Scanned (seen ++ [(line, record)]) past (some (line, line)) := by
  obtain ⟨gathers, isOver, -⟩ := scanned
  rw [Option.toList_none, List.append_nil] at gathers
  have behind : ∀ stop, HasLine seen LineRecord.StopsRange stop → stop < line :=
    fun stop has => has.lt later
  constructor
  case gathers =>
    rw [GathersMissed, hasLine_concat_of_pos missed, hasLine_concat_of_neg notStop]
    exact gathers.start isOver behind
  case isOver => rwa [hasLine_concat_of_neg notStop]
  case goesOn =>
    rw [hasLine_concat_of_neg notStop]
    rintro _ ⟨⟩ stop isStop
    exact Nat.le_of_lt (behind stop isStop)

theorem extend {first last : Nat} (scanned : Scanned seen past (some (first, last)))
    (later : ∀ entry ∈ seen, entry.1 < line) (missed : record.IsUnexecuted)
    (notStop : ¬ record.StopsRange) :
    Scanned (seen ++ [(line, record)]) past (some (first, line)) := by
  obtain ⟨gathers, isOver, goesOn⟩ := scanned
  have behind : last < line :=
    (gathers.ends (first, last) List.mem_concat_self).lt later
  constructor
  case gathers =>
    rw [GathersMissed, hasLine_concat_of_pos missed, hasLine_concat_of_neg notStop]
    exact gathers.extend (goesOn (first, last) rfl) behind
  case isOver => rwa [hasLine_concat_of_neg notStop]
  case goesOn =>
    rw [hasLine_concat_of_neg notStop]
    rintro _ ⟨⟩ stop isStop
    exact Nat.le_of_lt (isStop.lt later)

/-- **The pass gathers all lines** if it goes on from a state that fits the lines before. -/
theorem gathers_missedFrom (scanned : Scanned seen past current)
    (sorted : (seen ++ entries).Pairwise fun entry later => entry.1 < later.1) :
    GathersMissed (seen ++ entries) (past ++ missedFrom current entries) := by
  induction entries generalizing seen past current with
  | nil =>
      rw [List.append_nil, missedFrom]
      exact scanned.gathers
  | cons entry rest ih =>
      obtain ⟨line, record⟩ := entry
      have later : ∀ entry ∈ seen, entry.1 < line :=
        fun entry member => (List.pairwise_append.mp sorted).2.2 entry member _ List.mem_cons_self
      -- the line joins those seen, so each case of the pass is one step of the state
      rw [List.append_cons] at sorted ⊢
      unfold missedFrom
      by_cases missed : record.IsUnexecuted
      · have notStop : ¬ record.StopsRange := fun isStop =>
          (LineRecord.stopsRange_iff.mp isStop).1 missed
        rw [if_pos (LineRecord.isMissed_iff.mpr missed)]
        cases current with
        | none => exact ih (scanned.start later missed notStop) sorted
        | some range => exact ih (scanned.extend later missed notStop) sorted
      · rw [if_neg (mt LineRecord.isMissed_iff.mp missed)]
        by_cases passed : record.isPassedOver
        · have notStop : ¬ record.StopsRange := fun isStop =>
            (LineRecord.stopsRange_iff.mp isStop).2 passed
          rw [if_pos passed]
          exact ih (scanned.passOver missed notStop) sorted
        · rw [if_neg passed, ← List.append_assoc]
          exact ih (scanned.stop later missed (LineRecord.stopsRange_iff.mpr ⟨missed, passed⟩))
            sorted

end Scanned

/-! ## The ranges of a file -/

namespace FileRecord

variable {file : FileRecord} {line : Nat} {ranges : List (Nat × Nat)}

theorem hasLine_toList {test : LineRecord → Prop} : HasLine file.lines.toList test line ↔
    ∃ record, file.lines[line]? = some record ∧ test record := by
  simp only [HasLine, Std.ExtTreeMap.mem_toList_iff_getElem?_eq_some]

theorem hasLine_isUnexecuted :
    HasLine file.lines.toList LineRecord.IsUnexecuted line ↔ line ∈ file.missedLines := by
  simp [HasLine, missedLines, LineRecord.isMissed_iff]

/-- **The ranges of a file gather its unexecuted lines.** -/
theorem gathersMissed_missedRanges (file : FileRecord) :
    GathersMissed file.lines.toList file.missedRanges := by
  have sorted : file.lines.toList.Pairwise fun entry later => entry.1 < later.1 :=
    Std.ExtTreeMap.ordered_keys_toList.imp Nat.compare_eq_lt.mp
  have gathers : GathersMissed ([] ++ file.lines.toList) ([] ++ file.missedRanges) :=
    Scanned.nil.gathers_missedFrom sorted
  rwa [List.nil_append, List.nil_append] at gathers

/-- No other ranges do. -/
theorem eq_missedRanges (gathers : GathersMissed file.lines.toList ranges) :
    ranges = file.missedRanges :=
  gathers.unique file.gathersMissed_missedRanges

/-- **What the ranges of unexecuted lines show of a file.** They stand in order and have no line in
common, they begin and end with unexecuted lines, and each unexecuted line lies in exactly one. No
range holds a line that can run and did, or code that cannot run; but between two ranges there is
such a line, so no two could be joined. -/
theorem missedRanges_maximal (file : FileRecord) :
    (file.missedRanges.Pairwise fun first second => first.2 < second.1) ∧
    (∀ range ∈ file.missedRanges,
      range.1 ≤ range.2 ∧ range.1 ∈ file.missedLines ∧ range.2 ∈ file.missedLines) ∧
    (∀ line ∈ file.missedLines, ∃! range, range ∈ file.missedRanges ∧ Within line range) ∧
    (∀ range ∈ file.missedRanges, ∀ line record, file.lines[line]? = some record →
      Within line range → ¬ record.StopsRange) ∧
    file.missedRanges.Pairwise fun first second => ∃ line record,
      file.lines[line]? = some record ∧ record.StopsRange ∧ first.2 < line ∧ line < second.1 := by
  have gathers := file.gathersMissed_missedRanges
  refine ⟨gathers.ordered, fun range member => ⟨gathers.forward range member, ?_, ?_⟩,
    fun line missed => ?_, fun range member line record found inside stops => ?_, ?_⟩
  · exact hasLine_isUnexecuted.mp (gathers.begins range member)
  · exact hasLine_isUnexecuted.mp (gathers.ends range member)
  · obtain ⟨range, member, inside⟩ := gathers.holds line (hasLine_isUnexecuted.mpr missed)
    refine ⟨range, ⟨member, inside⟩, fun other ⟨isOther, inOther⟩ => ?_⟩
    exact gathers.eq_of_clear (gathers.clear range member) isOther member inOther inside inside
      inside
  · exact gathers.clear range member line inside (hasLine_toList.mpr ⟨record, found, stops⟩)
  · refine gathers.apart.imp fun ⟨line, isStop, between⟩ => ?_
    obtain ⟨record, found, stops⟩ := hasLine_toList.mp isStop
    exact ⟨line, record, found, stops, between⟩

end FileRecord

end LuaCoverage
