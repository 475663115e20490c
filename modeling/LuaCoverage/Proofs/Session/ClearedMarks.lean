import LuaCoverage.Proofs.Session.Settling
import LuaCoverage.Proofs.Store.Registration

/-!
# Counts behind cleared marks

Two passes take marks from a line. Settlement against an analysis takes the count with the mark, so
that the line looks as if it had never run. The clearing of contradictions takes the marks alone.
It leaves a store without contradictions, and with no line that is covered and not executed, but a
line that was executed and cannot run keeps the count of its hits
(`CoverageStore.clearContradictions_keeps_count`).

Nothing else separates a count from its mark. Hits come with the mark, and a merged line is executed
if one of its parts is. So as long as no clearing took a counted mark from a line
(`CoverageStore.Spared`), the line has no count without being executed
(`CoverageStore.Spared.countsMarked`), and the next clearing leaves it so exactly if it is not
executed against its own record by then (`CoverageStore.leavesClear_clearContradictions`).
-/

set_option autoImplicit false

namespace LuaCoverage

/-! ## Lines -/

namespace LineRecord

/-- Only an executed line has a count. -/
def CountsMarked (record : LineRecord) : Prop :=
  record.executed = false → record.executionCount = 0

/-- Hits were counted on a line that cannot run. -/
def WronglyRun (record : LineRecord) : Prop :=
  record.executed = true ∧ record.executable = false ∧ record.executionCount ≠ 0

instance (record : LineRecord) : Decidable record.WronglyRun :=
  inferInstanceAs (Decidable (_ ∧ _))

theorem countsMarked_ofClassification (verdict : Classification) :
    (ofClassification verdict).CountsMarked := fun _ => rfl

theorem countsMarked_unclassified (analyzed : Bool) : (unclassified analyzed).CountsMarked :=
  fun _ => rfl

theorem countsMarked_hit (record : LineRecord) : record.hit.CountsMarked := nofun

theorem CountsMarked.merge {own other : LineRecord} (counts : own.CountsMarked)
    (counts' : other.CountsMarked) : (own.merge other).CountsMarked := by
  intro idle
  rw [executed_merge, Bool.or_eq_false_iff] at idle
  rw [executionCount_merge, counts idle.1, counts' idle.2]
  rfl

/-- Settling a line takes the count with the mark. -/
theorem CountsMarked.reclassify {record : LineRecord} (counts : record.CountsMarked)
    (verdict : Option Classification) : (record.reclassify verdict).CountsMarked := by
  intro idle
  have settles := record.settles_reclassify verdict
  cases ran : record.executed with
  | true => exact settles.cleared ran idle
  | false =>
      have count := settles.count
      rw [counts ran] at count
      exact UInt64.le_zero_iff.mp count

/-- **Clearing contradictions takes the mark alone**, so the count is left behind if the line could
not run. -/
theorem CountsMarked.enforceLine_iff {record : LineRecord} (counts : record.CountsMarked) :
    (FileRecord.enforceLine record).CountsMarked ↔ ¬ record.WronglyRun := by
  have executed : (FileRecord.enforceLine record).executed =
      (record.executed && record.executable) := rfl
  have count : (FileRecord.enforceLine record).executionCount = record.executionCount := rfl
  unfold CountsMarked
  rw [executed, count]
  constructor
  · rintro zero ⟨ran, unable, counted⟩
    exact counted (zero (by rw [unable, Bool.and_false]))
  · intro fair idle
    by_contra counted
    cases ran : record.executed with
    | false => exact counted (counts ran)
    | true =>
        rw [ran, Bool.true_and] at idle
        exact fair ⟨ran, idle, counted⟩

end LineRecord

/-! ## Changes of one file -/

namespace FileRecord

variable {file : FileRecord} {line : Nat}

/-- **Every change keeps counts beside their marks**, if what a merge brings has them so and the
clearing of contradictions finds no counted hit on a line that cannot run. -/
theorem countsMarked_changed {change : FileChange}
    (brought : ∀ theirs, change = .absorb theirs →
      ∀ record ∈ theirs.lines[line]?, record.CountsMarked)
    (spares : change = .enforce → ∀ record ∈ file.lines[line]?, ¬ record.WronglyRun)
    (counts : ∀ record ∈ file.lines[line]?, record.CountsMarked) :
    ∀ record ∈ (file.changed change).lines[line]?, record.CountsMarked := by
  have unclassified : (file.lineOrUnclassified line).CountsMarked := by
    rw [lineOrUnclassified]
    cases stored : file.lines[line]? with
    | none => exact LineRecord.countsMarked_unclassified _
    | some record => exact counts record stored
  -- a record that is put in the place of the line
  have inserted : ∀ (here : Nat) (put : LineRecord), (here = line → put.CountsMarked) →
      ∀ record ∈ (file.lines.insert here put)[line]?, record.CountsMarked := by
    intro here put fair record found
    rw [Std.ExtTreeMap.getElem?_insert] at found
    split at found
    · rename_i same
      obtain rfl := Option.mem_some.mp found
      exact fair (Std.LawfulEqCmp.compare_eq_iff_eq.mp same)
    · exact counts record found
  cases change with
  | register source analysis =>
      cases unanalyzed : file.active && file.isAnalyzed with
      | true =>
          rw [changed, register, if_pos unanalyzed]
          exact counts
      | false =>
          intro record found
          rw [changed, getElem?_lines_register source analysis unanalyzed] at found
          rcases Option.or_eq_some_iff.mp found with stored | ⟨-, new⟩
          · exact counts record stored
          · obtain ⟨verdict, -, rfl⟩ := Option.map_eq_some_iff.mp new
            exact LineRecord.countsMarked_ofClassification verdict
  | activate => exact counts
  | note => exact counts
  | rate quality => exact counts
  | markInstrumented => exact counts
  | record operation =>
      rw [changed]
      split
      · intro record found
        rw [lines_perform] at found
        split at found
        · obtain rfl := Option.mem_some.mp found
          exact LineRecord.countsMarked_hit _
        · exact counts record found
      · exact counts
  | cover here =>
      rw [changed]
      cases covers : file.cover here with
      | none => exact counts
      | some covered =>
          obtain ⟨record, stored, executed, rfl⟩ := exists_of_cover covers
          exact inserted here _ fun same idle => counts record (same ▸ stored) idle
  | keepLine here =>
      rw [changed]
      split
      · exact inserted here _ fun same => same ▸ unclassified
      · exact counts
  | addBlock block => exact counts
  | setParent child parent => exact counts
  | resolve =>
      rw [changed_resolve]
      exact counts
  | absorb theirs =>
      intro record found
      rw [changed, lines_merge] at found
      rcases Option.merge_eq_some_iff.mp found with
        ⟨own, -⟩ | ⟨-, other⟩ | ⟨first, second, own, other, rfl⟩
      · exact counts record own
      · exact brought theirs rfl record other
      · exact (counts first own).merge (brought theirs rfl second other)
  | enforce =>
      intro record found
      rw [changed, enforce, Std.ExtTreeMap.getElem?_map] at found
      obtain ⟨before, stored, rfl⟩ := Option.map_eq_some_iff.mp found
      exact (counts before stored).enforceLine_iff.mpr (spares rfl before stored)
  | reclassify analysis =>
      intro record found
      rw [changed, getElem?_lines_reclassify] at found
      obtain ⟨before, stored, rfl⟩ := Option.map_eq_some_iff.mp found
      exact (counts before stored).reclassify _

end FileRecord

/-! ## Stores -/

namespace StoreOperation

variable {operation : StoreOperation} {path : String}

/-- A record is absorbed from a store that is merged. -/
theorem exists_merge_of_changeAt {theirs : FileRecord}
    (changes : operation.changeAt path = some (.absorb theirs)) :
    ∃ other, operation = .merge other ∧ other.files[path]? = some theirs := by
  cases operation with
  | merge other =>
      obtain ⟨file, stored, ⟨⟩⟩ := Option.map_eq_some_iff.mp changes
      exact ⟨other, rfl, stored⟩
  | reclassify analyses =>
      obtain ⟨analysis, -, ⟨⟩⟩ := Option.map_eq_some_iff.mp changes
  | resolveAll => cases changes
  | clearContradictions => cases changes
  | _ => obtain ⟨-, ⟨⟩⟩ := Option.ite_none_right_eq_some.mp changes

theorem eq_clearContradictions_of_changeAt (changes : operation.changeAt path = some .enforce) :
    operation = .clearContradictions := by
  cases operation with
  | merge other => obtain ⟨file, -, ⟨⟩⟩ := Option.map_eq_some_iff.mp changes
  | reclassify analyses => obtain ⟨analysis, -, ⟨⟩⟩ := Option.map_eq_some_iff.mp changes
  | resolveAll => cases changes
  | clearContradictions => rfl
  | _ => obtain ⟨-, ⟨⟩⟩ := Option.ite_none_right_eq_some.mp changes

end StoreOperation

namespace CoverageStore

/-- The ways to a store in which contradictions were cleared any number of times, in the store and
in those merged into it, but never took the mark of a counted hit from one line. -/
inductive Spared (path : String) (line : Nat) : CoverageStore → Prop where
  | empty : Spared path line .empty
  | apply {store : CoverageStore} {operation : StoreOperation} (spared : Spared path line store)
      (brought : ∀ theirs : CoverageStore, operation = .merge theirs → Spared path line theirs)
      (spares : operation = .clearContradictions →
        ∀ record ∈ store.line? path line, ¬ record.WronglyRun) :
      Spared path line (store.apply operation).1

variable {store : CoverageStore} {path : String} {line : Nat}

theorem mem_line?_iff {record : LineRecord} : record ∈ store.line? path line ↔
    ∃ file, store.files[path]? = some file ∧ file.lines[line]? = some record :=
  Option.bind_eq_some_iff

/-- **Every count is beside its mark** on a line that was spared. -/
theorem Spared.countsMarked (spared : Spared path line store) :
    ∀ record ∈ store.line? path line, record.CountsMarked := by
  induction spared with
  | empty =>
      intro record found
      obtain ⟨file, stored, -⟩ := mem_line?_iff.mp found
      cases stored
  | @apply store operation _ brought spares counts broughtCounts =>
      intro record found
      obtain ⟨after, isAfter, isRecord⟩ := mem_line?_iff.mp found
      rw [getElem?_apply] at isAfter
      cases changes : operation.changeAt path with
      | none =>
          rw [changes] at isAfter
          exact counts record (mem_line?_iff.mpr ⟨after, isAfter, isRecord⟩)
      | some change =>
          rw [changes] at isAfter
          have broughtLine : ∀ theirs, change = .absorb theirs →
              ∀ record ∈ theirs.lines[line]?, record.CountsMarked := by
            rintro theirs rfl record isBrought
            obtain ⟨other, rfl, isTheirs⟩ := StoreOperation.exists_merge_of_changeAt changes
            exact broughtCounts other rfl record (mem_line?_iff.mpr ⟨theirs, isTheirs, isBrought⟩)
          cases stored : store.files[path]? with
          | some file =>
              rw [stored] at isAfter
              obtain rfl := Option.some.inj isAfter
              refine FileRecord.countsMarked_changed broughtLine (fun clears old isOld => ?_)
                (fun old isOld => counts old (mem_line?_iff.mpr ⟨file, stored, isOld⟩))
                record isRecord
              subst clears
              exact spares (StoreOperation.eq_clearContradictions_of_changeAt changes) old
                (mem_line?_iff.mpr ⟨file, stored, isOld⟩)
          | none =>
              rw [stored] at isAfter
              have bare : ∀ record ∈ ({ path := path } : FileRecord).lines[line]?,
                  record.CountsMarked := by
                intro record listed
                cases (show (none : Option LineRecord) = some record from listed)
              rcases FileChange.applied_none_cases isAfter with ⟨theirs, rfl, rfl⟩ | ⟨makes, rfl⟩
              · exact broughtLine theirs rfl record isRecord
              · refine FileRecord.countsMarked_changed broughtLine (fun clears => ?_) bare
                  record isRecord
                subst clears
                cases makes

theorem line?_clearContradictions (store : CoverageStore) (path : String) (line : Nat) :
    store.clearContradictions.1.line? path line =
      (store.line? path line).map FileRecord.enforceLine := by
  rw [line?, line?, clearContradictions, Std.ExtTreeMap.getElem?_map]
  cases store.files[path]? with
  | none => rfl
  | some file => exact Std.ExtTreeMap.getElem?_map

/-- A store in which no marks contradict each other, and in which nothing is left to clear. -/
structure IsClear (store : CoverageStore) : Prop where
  violations : store.violations = []
  uncovered : ∀ (path : String) (line : Nat) (record : LineRecord),
    store.line? path line = some record → record.executed = false → record.covered = false
  again : store.clearContradictions = (store, 0)

/-- Clearing contradictions leaves none, and has nothing left to do. -/
theorem isClear_clearContradictions (store : CoverageStore) :
    store.clearContradictions.1.IsClear := by
  have rests : ∀ (path : String) (file : FileRecord),
      store.clearContradictions.1.files[path]? = some file → file.enforce = (file, 0) := by
    intro path file found
    rw [clearContradictions, Std.ExtTreeMap.getElem?_map] at found
    obtain ⟨before, -, rfl⟩ := Option.map_eq_some_iff.mp found
    refine FileRecord.enforce_eq_self fun line record isRecord => ?_
    rw [FileRecord.enforce, Std.ExtTreeMap.getElem?_map] at isRecord
    obtain ⟨old, -, rfl⟩ := Option.map_eq_some_iff.mp isRecord
    exact old.enforceLine_enforceLine
  refine ⟨store.violations_clearContradictions, fun path line record found idle => ?_,
    Prod.ext (congrArg CoverageStore.mk (map_eq_self fun path file found => ?_))
      (foldl_eq_self fun path file found => ?_)⟩
  · have clean := LineRecord.violations_eq_nil_iff.mp
      (violations_eq_nil_iff.mp store.violations_clearContradictions path line record found)
    refine Bool.eq_false_iff.mpr fun marked => ?_
    exact Bool.false_ne_true (idle.symm.trans (clean.1 marked))
  · rw [rests path file found]
  · rw [rests path file found]
    rfl

/-- **What clearing contradictions leaves.** There are no contradictions, no line is covered without
being executed, and clearing once more changes nothing; the store of a stopped session is left like
this. A line from which no clearing took the mark of a counted hit before is left without a count
unless it is executed, exactly if hits were not counted on it while its record says that it cannot
run. -/
theorem leavesClear_clearContradictions (store : CoverageStore) :
    store.clearContradictions.1.IsClear ∧
    (∀ (session : Session) (sources : PathMap String),
      (session.stop sources).1.store.IsClear) ∧
    ∀ (path : String) (line : Nat), Spared path line store →
      ((∀ record ∈ store.clearContradictions.1.line? path line,
          record.executed = false → record.executionCount = 0) ↔
        ∀ record ∈ store.line? path line, ¬ record.WronglyRun) := by
  refine ⟨store.isClear_clearContradictions,
    fun session sources => isClear_clearContradictions _, fun path line spared => ?_⟩
  rw [line?_clearContradictions]
  constructor
  · intro fair record found
    exact (spared.countsMarked record found).enforceLine_iff.mp
      (fair _ (Option.mem_map.mpr ⟨record, found, rfl⟩))
  · intro fair record found
    obtain ⟨before, stored, rfl⟩ := Option.mem_map.mp found
    exact (spared.countsMarked before stored).enforceLine_iff.mpr (fair before stored)

/-- The analysis of a source whose second line is a comment. -/
def annotatedAnalysis : Analysis := analyze ⟨.nonExecutable, 100⟩ "x = 1\n-- note\n" "/p/a.lua"

/-- A store with that file and a hit on one of its lines. -/
def withHit (line : Nat) : CoverageStore :=
  ((empty.apply (.track "/p/a.lua" "x = 1\n-- note\n" annotatedAnalysis)).1.apply
    (.record "/p/a.lua" (.hit line .line))).1

/-- A hit on the first line is left alone, and the second line has no count. -/
theorem leavesClear_clearContradictions_code :
    Spared "/p/a.lua" 2 (withHit 1) ∧
    (withHit 1).clearContradictions.1.IsClear ∧
    (∀ record ∈ (withHit 1).clearContradictions.1.line? "/p/a.lua" 2,
      record.executed = false → record.executionCount = 0) ∧
    ((withHit 1).clearContradictions.1.line? "/p/a.lua" 1).map LineRecord.executionCount =
      some 1 := by
  have spared : Spared "/p/a.lua" 2 (withHit 1) :=
    .apply (.apply .empty nofun nofun) nofun nofun
  have leaves := leavesClear_clearContradictions (withHit 1)
  exact ⟨spared, leaves.1, (leaves.2.2 _ _ spared).mpr (by decide +kernel), by decide +kernel⟩

/-- **A count without its mark.** A hit on the comment is counted. Clearing contradictions takes the
mark and leaves the count; settling the file takes both. -/
theorem clearContradictions_keeps_count :
    ((withHit 2).clearContradictions.1.line? "/p/a.lua" 2).map
        (fun record => (record.executed, record.covered, record.executionCount)) =
      some (false, false, 1) ∧
    (((withHit 2).reclassify (.ofList [("/p/a.lua", annotatedAnalysis)])).1.line? "/p/a.lua" 2).map
        (fun record => (record.executed, record.covered, record.executionCount)) =
      some (false, false, 0) ∧
    ¬ ∀ record ∈ (withHit 2).clearContradictions.1.line? "/p/a.lua" 2,
      record.executed = false → record.executionCount = 0 := by
  decide +kernel

end CoverageStore

end LuaCoverage
