import LuaCoverage.Proofs.Analysis.UnrunAnalysis
import LuaCoverage.Proofs.OrderedMap
import LuaCoverage.Store.Reclassify

/-!
# What settling a file leaves

A file can be settled against any analysis, that of its own source or that of another text with more
or fewer lines, and its line records can hold any marks, also ones that contradict each other. A
record goes through two passes. The first ends a guess and touches no mark (`LineRecord.settle`).
The second takes both marks and the count from a line that the verdict does not allow to run
(`LineRecord.strip`). A line outside the analysis loses everything, and a line that was not executed
is not covered.

Each pass only lowers marks, and what it lowers depends on the verdict alone. So a settled record
holds no guess and no mark that the verdict forbids (`LineRecord.Settles`), settling it once more
changes nothing, and both carry over to the file (`FileRecord.reclassify_settles_lines`).
-/

set_option autoImplicit false

namespace LuaCoverage

/-! ## Lines -/

namespace LineRecord

section Marks

variable (record : LineRecord) (found : Classification)

/-! The first pass touches no mark. -/

@[simp] theorem provisional_settle : (record.settle found).provisional = false := by
  unfold settle
  cases guess : record.provisional <;> simp [guess]

@[simp] theorem executed_settle : (record.settle found).executed = record.executed := by
  unfold settle
  split <;> rfl

@[simp] theorem covered_settle : (record.settle found).covered = record.covered := by
  unfold settle
  split <;> rfl

@[simp] theorem executionCount_settle :
    (record.settle found).executionCount = record.executionCount := by
  unfold settle
  split <;> rfl

/-! The second pass keeps the marks that the verdict allows. -/

@[simp] theorem provisional_strip : (record.strip found).provisional = record.provisional := by
  unfold strip
  split <;> rfl

@[simp] theorem executed_strip :
    (record.strip found).executed = (record.executed && found.executable) := by
  unfold strip
  cases allowed : found.executable <;> cases ran : record.executed <;>
    cases marked : record.covered <;> simp [ran]

@[simp] theorem covered_strip :
    (record.strip found).covered = (record.covered && found.executable) := by
  unfold strip
  cases allowed : found.executable <;> cases ran : record.executed <;>
    cases marked : record.covered <;> simp [marked]

@[simp] theorem executionCount_strip : (record.strip found).executionCount =
    if !found.executable && (record.executed || record.covered) then 0
    else record.executionCount := by
  unfold strip
  split <;> rfl

/-- A record without the marks that the second pass takes is left alone by it. -/
theorem strip_eq_self (executed : found.executable = false → record.executed = false)
    (covered : found.executable = false → record.covered = false) :
    record.strip found = record := by
  unfold strip
  refine if_neg fun strips => ?_
  obtain ⟨forbidden, marked⟩ := Bool.and_eq_true_iff.mp strips
  have forbids : found.executable = false := by simpa using forbidden
  rw [executed forbids, covered forbids] at marked
  cases marked

theorem settle_eq_self (settled : record.provisional = false) : record.settle found = record := by
  unfold settle
  rw [settled, if_neg Bool.false_ne_true]

end Marks

/-- What settling a line does to its record: the record before, the verdict of the analysis on the
line, if it has the line, and the record after. -/
structure Settles (before : LineRecord) (verdict : Option Classification) (after : LineRecord) :
    Prop where
  settled : after.provisional = false
  /-- Only lines that the analysis allows to run are left executed, and only if they were. -/
  executed : after.executed = true → before.executed = true ∧
    ∃ found, verdict = some found ∧ found.executable = true
  covered : after.covered = true → before.covered = true ∧ after.executed = true
  count : after.executionCount ≤ before.executionCount
  /-- A line that can run keeps its hits. Its other mark goes only if there are none. -/
  kept : ∀ found, verdict = some found → found.executable = true →
    after.executed = before.executed ∧ after.executionCount = before.executionCount ∧
      (after.covered ≠ before.covered → before.executed = false)
  /-- A line that lost its mark lost its count with it. -/
  cleared : before.executed = true → after.executed = false → after.executionCount = 0

/-- **Settling a line** ends its guess and takes what the verdict forbids. -/
theorem settles_reclassify (record : LineRecord) (verdict : Option Classification) :
    record.Settles verdict (record.reclassify verdict) := by
  cases verdict with
  | none => exact ⟨rfl, nofun, nofun, UInt64.zero_le, nofun, fun _ _ => rfl⟩
  | some found =>
      have provisional : (record.reclassify (some found)).provisional = false := by
        simp [reclassify]
      have executed : (record.reclassify (some found)).executed =
          (record.executed && found.executable) := by
        simp [reclassify]
      have covered : (record.reclassify (some found)).covered =
          (record.covered && (record.executed && found.executable)) := by
        simp only [reclassify, covered_strip, executed_strip, covered_settle, executed_settle]
        cases record.covered <;> cases record.executed <;> cases found.executable <;> rfl
      have count : (record.reclassify (some found)).executionCount =
          if !found.executable && (record.executed || record.covered) then 0
          else record.executionCount := by
        simp [reclassify]
      refine ⟨provisional, fun ran => ?_, fun marked => ?_, ?_, ?_, fun ran lost => ?_⟩
      · rw [executed, Bool.and_eq_true_iff] at ran
        exact ⟨ran.1, found, rfl, ran.2⟩
      · rw [covered, Bool.and_eq_true_iff] at marked
        exact ⟨marked.1, executed.trans marked.2⟩
      · rw [count]
        split
        · exact UInt64.zero_le
        · exact UInt64.le_refl _
      · rintro _ ⟨⟩ allowed
        rw [executed, covered, count, allowed, Bool.and_true]
        refine ⟨rfl, if_neg Bool.false_ne_true, fun differs => ?_⟩
        refine Bool.eq_false_iff.mpr fun ran => differs ?_
        rw [ran, Bool.and_true]
      · rw [executed, ran, Bool.true_and] at lost
        rw [count, lost, ran]
        rfl

/-- **Settling a line a second time** changes nothing. -/
theorem reclassify_reclassify (record : LineRecord) (verdict : Option Classification) :
    (record.reclassify verdict).reclassify verdict = record.reclassify verdict := by
  have settles := record.settles_reclassify verdict
  cases verdict with
  | none => rfl
  | some found =>
      generalize record.reclassify (some found) = after at settles
      have executed : found.executable = false → after.executed = false := by
        intro forbidden
        refine Bool.eq_false_iff.mpr fun ran => ?_
        obtain ⟨-, _, ⟨⟩, allowed⟩ := settles.executed ran
        exact Bool.false_ne_true (forbidden.symm.trans allowed)
      have uncovered : after.executed = false → after.covered = false := fun idle =>
        Bool.eq_false_iff.mpr fun marked =>
          Bool.false_ne_true (idle.symm.trans (settles.covered marked).2)
      have covered : (after.covered && after.executed) = after.covered := by
        cases ran : after.executed
        · rw [uncovered ran]
          rfl
        · rw [Bool.and_true]
      unfold reclassify
      simp only
      rw [after.settle_eq_self found settles.settled,
        after.strip_eq_self found executed fun forbidden => uncovered (executed forbidden), covered]

end LineRecord

/-! ## Files -/

namespace FileRecord

variable (file : FileRecord) (analysis : Analysis)

theorem getElem?_lines_reclassify (line : Nat) :
    (file.reclassify analysis).1.lines[line]? = (file.lines[line]?).map fun record =>
      record.reclassify (analysis.classification? line) :=
  Std.ExtTreeMap.getElem?_map

/-- The reported number counts the line records that are not what they were. -/
theorem exists_changed_reclassify : ∃ changed : List Nat, changed.Nodup ∧
    (∀ line : Nat, line ∈ changed ↔
      (file.reclassify analysis).1.lines[line]? ≠ file.lines[line]?) ∧
    changed.length = (file.reclassify analysis).2 := by
  let differs (entry : Nat × LineRecord) : Bool :=
    entry.2.reclassify (analysis.classification? entry.1) != entry.2
  refine ⟨(file.lines.toList.filter differs).map Prod.fst, ?_, fun line => ?_, List.length_map _⟩
  · have distinct : (file.lines.toList.map Prod.fst).Nodup := by
      rw [Std.ExtTreeMap.map_fst_toList_eq_keys]
      exact Std.ExtTreeMap.nodup_keys
    exact distinct.sublist (List.filter_sublist.map Prod.fst)
  · rw [getElem?_lines_reclassify, List.mem_map]
    constructor
    · rintro ⟨⟨line, record⟩, member, rfl⟩
      obtain ⟨isEntry, changes⟩ := List.mem_filter.mp member
      rw [Std.ExtTreeMap.mem_toList_iff_getElem?_eq_some.mp isEntry]
      exact fun same => bne_iff_ne.mp changes (Option.some.inj same)
    · intro changes
      cases found : file.lines[line]? with
      | none =>
          rw [found] at changes
          exact absurd rfl changes
      | some record =>
          rw [found] at changes
          exact ⟨(line, record), List.mem_filter.mpr
            ⟨Std.ExtTreeMap.mem_toList_iff_getElem?_eq_some.mpr found,
              bne_iff_ne.mpr fun same => changes (congrArg some same)⟩, rfl⟩

variable {file analysis} in
/-- A file stays as it is if each of its lines does. -/
theorem reclassify_eq_self (rests : ∀ (line : Nat) (record : LineRecord),
    file.lines[line]? = some record →
      record.reclassify (analysis.classification? line) = record) :
    file.reclassify analysis = (file, 0) := by
  have lines := map_eq_self rests
  have count : (file.lines.toList.filter fun entry =>
      entry.2.reclassify (analysis.classification? entry.1) != entry.2) = [] := by
    refine List.filter_eq_nil_iff.mpr fun entry member => ?_
    rw [rests entry.1 entry.2 (Std.ExtTreeMap.mem_toList_iff_getElem?_eq_some.mp member),
      bne_self_eq_false]
    exact Bool.false_ne_true
  rw [reclassify, lines, count]
  rfl

/-- **Settling a file** against any analysis. Nothing but its lines changes, no line comes or goes,
and each record is settled by the verdict on its line (`LineRecord.Settles`): no guess is left, what
is still executed can run according to the analysis, what is still covered is executed, and no mark
or count was raised. The reported number is the number of records that changed, and settling the
file a second time reports none and changes nothing. If the analysis is that of a source, the lines
that are still executed are among its executable lines. -/
theorem reclassify_settles_lines (file : FileRecord) (analysis : Analysis) :
    let settled := (file.reclassify analysis).1
    settled = { file with lines := settled.lines } ∧ settled.isProvisional = false ∧
    (∀ line : Nat, line ∈ settled.lines ↔ line ∈ file.lines) ∧
    (∀ (line : Nat) (before after : LineRecord), file.lines[line]? = some before →
      settled.lines[line]? = some after →
      before.Settles (analysis.classification? line) after) ∧
    (∃ changed : List Nat, changed.Nodup ∧
      (∀ line : Nat, line ∈ changed ↔ settled.lines[line]? ≠ file.lines[line]?) ∧
      changed.length = (file.reclassify analysis).2) ∧
    settled.reclassify analysis = (settled, 0) ∧
    ∀ (settings : AnalysisSettings) (source fileId : String),
      analysis = analyze settings source fileId → ∀ (line : Nat) (after : LineRecord),
        settled.lines[line]? = some after → after.executed = true →
        analysis.isExecutable line = true := by
  intro settled
  have each : ∀ (line : Nat) (after : LineRecord), settled.lines[line]? = some after →
      ∃ before, file.lines[line]? = some before ∧
        before.Settles (analysis.classification? line) after := by
    intro line after found
    rw [getElem?_lines_reclassify] at found
    obtain ⟨before, isBefore, rfl⟩ := Option.map_eq_some_iff.mp found
    exact ⟨before, isBefore, before.settles_reclassify _⟩
  have again : settled.reclassify analysis = (settled, 0) := by
    refine reclassify_eq_self fun line after found => ?_
    rw [getElem?_lines_reclassify] at found
    obtain ⟨before, -, rfl⟩ := Option.map_eq_some_iff.mp found
    exact before.reclassify_reclassify _
  refine ⟨rfl, ?_, fun line => Std.ExtTreeMap.mem_map, ?_,
    file.exists_changed_reclassify analysis, again, ?_⟩
  · refine Bool.eq_false_iff.mpr fun provisional => ?_
    obtain ⟨line, after, found, guess⟩ := any_eq_true_iff.mp provisional
    obtain ⟨before, -, settles⟩ := each line after found
    exact Bool.false_ne_true (settles.settled.symm.trans guess)
  · intro line before after isBefore found
    obtain ⟨_, isBefore', settles⟩ := each line after found
    obtain rfl := Option.some.inj (isBefore.symm.trans isBefore')
    exact settles
  · rintro settings source fileId rfl line after found ran
    obtain ⟨before, -, settles⟩ := each line after found
    exact (isExecutable_analyze settings source fileId).mpr (settles.executed ran).2

end FileRecord

end LuaCoverage
