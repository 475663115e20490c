import LuaCoverage.Proofs.Store.HitGains

/-!
# No hit is lost

Operations arrive in any order: a file is hit before it is analyzed, a block before its parent is
known, coverage from elsewhere before or after all that. None of them loses what was recorded, apart
from those that are there to clear marks. Every record that was there is there afterwards, with its
marks, and its count is not smaller (`CoverageStore.hits_retained`). This holds for one gain of one
item, and so for every operation and every run.

A file that is tracked and analyzed is not changed at all by being tracked once more
(`CoverageStore.track_eq_self`).
-/

set_option autoImplicit false

namespace LuaCoverage

namespace Hits

/-- The hits on an item with at least the marks and the count of those before. -/
structure KeptBy (before after : Hits) : Prop where
  executed : before.executed = true → after.executed = true
  covered : before.covered = true → after.covered = true
  count : before.count ≤ after.count

theorem KeptBy.refl (hits : Hits) : hits.KeptBy hits := ⟨id, id, UInt64.le_refl _⟩

theorem KeptBy.trans {first second third : Hits} (kept : first.KeptBy second)
    (kept' : second.KeptBy third) : first.KeptBy third :=
  ⟨kept'.executed ∘ kept.executed, kept'.covered ∘ kept.covered,
    UInt64.le_trans kept.count kept'.count⟩

variable {brought : Hits → Prop} {before : Hits} {found : Option Hits}

/-- **A gain keeps the hits on an item.** -/
theorem Gain.kept (gain : Gain brought (some before) found) :
    ∃ after, found = some after ∧ before.KeptBy after := by
  cases gain with
  | enter fits =>
      refine ⟨_, rfl, fun _ => rfl, id, UInt64.le_iff_toNat_le.mpr ?_⟩
      rw [toNat_enter before fits]
      exact Nat.le_succ _
  | witness =>
      refine ⟨_, rfl, fun _ => rfl, id, ?_⟩
      show before.count ≤ if before.count = 0 then 1 else before.count
      split
      · rename_i zero
        rw [zero]
        decide
      · exact UInt64.le_refl _
  | cover executed => exact ⟨_, rfl, id, fun _ => rfl, UInt64.le_refl _⟩
  | @add _ other isBrought fits =>
      refine ⟨_, rfl, fun executed => ?_, fun covered => ?_, UInt64.le_iff_toNat_le.mpr ?_⟩
      · rw [Hits.add, executed, Bool.true_or]
      · rw [Hits.add, covered, Bool.true_or]
      · rw [toNat_add before other fits]
        exact Nat.le_add_right _ _

theorem Gains.kept (gains : Gains brought (some before) found) :
    ∃ after, found = some after ∧ before.KeptBy after := by
  induction gains with
  | refl => exact ⟨before, rfl, .refl before⟩
  | tail _ gain ih =>
      obtain ⟨between, rfl, kept⟩ := ih
      obtain ⟨after, rfl, kept'⟩ := gain.kept
      exact ⟨after, rfl, kept.trans kept'⟩

end Hits

/-- All items of a file are still there, with their hits. -/
def FileRecord.RetainedBy (before after : FileRecord) : Prop :=
  ∀ (item : Item) (hits : Hits), before.hits? item = some hits →
    ∃ kept, after.hits? item = some kept ∧ hits.KeptBy kept

/-- **A change of a file retains it**, unless it clears marks. -/
theorem FileRecord.retainedBy_changed {file : FileRecord} {change : FileChange}
    (gathers : change.clears = false) (inRange : file.InRange change) :
    file.RetainedBy (file.changed change) := by
  intro item hits found
  have gains := gains_changed gathers inRange item
  rw [found] at gains
  exact gains.kept

/-- Whether an operation may clear marks. -/
def StoreOperation.clears : StoreOperation → Bool
  | .clearContradictions => true
  | .reclassify _ => true
  | _ => false

/-- An operation that clears no marks of a store clears none of any file. -/
theorem StoreOperation.clears_changeAt {operation : StoreOperation}
    (gathers : operation.clears = false) {path : String} {change : FileChange}
    (changes : operation.changeAt path = some change) : change.clears = false := by
  cases operation with
  | resolveAll =>
      obtain rfl := Option.some.inj changes
      rfl
  | merge theirs =>
      obtain ⟨file, -, rfl⟩ := Option.map_eq_some_iff.mp changes
      rfl
  | clearContradictions => cases gathers
  | reclassify analyses => cases gathers
  | _ =>
      obtain ⟨-, ⟨⟩⟩ := Option.ite_none_right_eq_some.mp changes
      rfl

namespace CoverageStore

/-- All files of a store are still there, with their items and the hits on these. -/
def RetainedBy (before after : CoverageStore) : Prop :=
  ∀ (path : String) (file : FileRecord), before.files[path]? = some file →
    ∃ kept, after.files[path]? = some kept ∧ file.RetainedBy kept

theorem RetainedBy.refl (store : CoverageStore) : store.RetainedBy store :=
  fun _ file found => ⟨file, found, fun _ hits isHits => ⟨hits, isHits, .refl hits⟩⟩

theorem RetainedBy.trans {first second third : CoverageStore} (retained : first.RetainedBy second)
    (retained' : second.RetainedBy third) : first.RetainedBy third := by
  intro path file found
  obtain ⟨between, isBetween, keeps⟩ := retained path file found
  obtain ⟨after, isAfter, keeps'⟩ := retained' path between isBetween
  refine ⟨after, isAfter, fun item hits isHits => ?_⟩
  obtain ⟨hits', isHits', kept⟩ := keeps item hits isHits
  obtain ⟨hits'', isHits'', kept'⟩ := keeps' item hits' isHits'
  exact ⟨hits'', isHits'', kept.trans kept'⟩

/-- **An operation retains a store**, unless it is there to clear marks. -/
theorem retainedBy_apply {store : CoverageStore} {operation : StoreOperation}
    (gathers : operation.clears = false) (inRange : store.InRange operation) :
    store.RetainedBy (store.apply operation).1 := by
  intro path file found
  rw [getElem?_apply]
  cases changes : operation.changeAt path with
  | none => exact ⟨file, found, fun _ hits isHits => ⟨hits, isHits, .refl hits⟩⟩
  | some change =>
      refine ⟨file.changed change, by rw [found]; rfl, ?_⟩
      exact FileRecord.retainedBy_changed (StoreOperation.clears_changeAt gathers changes)
        (inRange path file change found changes)

theorem retainedBy_run {store : CoverageStore} {operations : List StoreOperation}
    (gathers : ∀ operation ∈ operations, operation.clears = false)
    (inRange : store.StaysInRange operations) : store.RetainedBy (store.run operations).1 := by
  induction operations generalizing store with
  | nil => exact .refl store
  | cons operation rest ih =>
      exact (retainedBy_apply (gathers operation List.mem_cons_self) inRange.1).trans
        (ih (fun later member => gathers later (List.mem_cons_of_mem _ member)) inRange.2)

/-- Tracking a file that is tracked and analyzed changes nothing. -/
theorem track_eq_self {store : CoverageStore} {path : String} {file : FileRecord}
    (found : store.files[path]? = some file) (active : file.active = true)
    (analyzed : file.isAnalyzed = true) (source : String) (analysis : Analysis) :
    store.track path source analysis = store := by
  have same : file.register source analysis = file := by
    rw [FileRecord.register, active, analyzed]
    rfl
  rw [track, fileOrEmpty, found, Option.getD_some, same]
  refine congrArg CoverageStore.mk (Std.ExtTreeMap.ext_getElem? fun other => ?_)
  rw [Std.ExtTreeMap.getElem?_insert]
  split
  · rename_i own
    rw [← Std.LawfulEqCmp.compare_eq_iff_eq.mp own, found]
  · rfl

/-- **No operation loses recorded hits.** Consider any run from the empty store that clears no marks
on purpose and in which no count leaves its 64 bits, and any moment of it. Every file, line, block
and function that has a record at that moment has one from then on; it stays executed and covered if
it was, and its count never gets smaller. A file that is tracked and analyzed at that moment is left
as it is when it is tracked once more, with whatever source and analysis. -/
theorem hits_retained (earlier later : List StoreOperation)
    (gathers : ∀ operation ∈ earlier ++ later, operation.clears = false)
    (inRange : empty.StaysInRange (earlier ++ later)) :
    (empty.run earlier).1.RetainedBy (empty.run (earlier ++ later)).1 ∧
    ∀ (path source : String) (analysis : Analysis) (file : FileRecord),
      (empty.run earlier).1.files[path]? = some file → file.active = true →
      file.isAnalyzed = true →
      (empty.run earlier).1.apply (.track path source analysis) =
        ((empty.run earlier).1, .nothing) := by
  constructor
  · rw [run_append]
    have laterGathers : ∀ operation ∈ later, operation.clears = false :=
      fun operation member => gathers operation (List.mem_append_right _ member)
    exact retainedBy_run laterGathers (staysInRange_append.mp inRange).2
  · intro path source analysis file found active analyzed
    rw [apply, track_eq_self found active analyzed]

/-- Hits on a file that could not be analyzed yet, with a block whose parent is not known. -/
def beforeAnalysis : List StoreOperation :=
  [.note "/p/a.lua", .trackUnanalyzed "/p/a.lua", .record "/p/a.lua" (.hit 2 .line),
   .addBlock "/p/a.lua" (.fresh 7 .doBlock none 9 2 3), .record "/p/a.lua" (.hit 2 (.block 7)),
   .cover "/p/a.lua" 2]

/-- What happens to the file later: it is analyzed, the parent comes up, and the same hits are
merged in once more. -/
def fromAnalysis : List StoreOperation :=
  [.track "/p/a.lua" "do\n  f()\nend\n"
      (analyze ⟨.nonExecutable, 100⟩ "do\n  f()\nend\n" "/p/a.lua"),
   .addBlock "/p/a.lua" (.fresh 9 .doBlock none 0 2 3), .resolveAll,
   .merge (empty.run beforeAnalysis).1]

/-- Such a run loses no hits: the block that was waiting was entered once, and in the end twice. -/
theorem hits_retained_beforeAnalysis :
    (∀ operation ∈ beforeAnalysis ++ fromAnalysis, operation.clears = false) ∧
    empty.StaysInRange (beforeAnalysis ++ fromAnalysis) ∧
    (empty.run beforeAnalysis).1.RetainedBy (empty.run (beforeAnalysis ++ fromAnalysis)).1 ∧
    ((empty.run beforeAnalysis).1.block? "/p/a.lua" 7).map BlockRecord.hits =
      some ⟨true, false, 1⟩ ∧
    ((empty.run (beforeAnalysis ++ fromAnalysis)).1.block? "/p/a.lua" 7).map BlockRecord.hits =
      some ⟨true, false, 2⟩ := by
  have gathers : ∀ operation ∈ beforeAnalysis ++ fromAnalysis, operation.clears = false := by
    decide +kernel
  have inRange : empty.StaysInRange (beforeAnalysis ++ fromAnalysis) := by decide +kernel
  exact ⟨gathers, inRange, (hits_retained beforeAnalysis fromAnalysis gathers inRange).1,
    by decide +kernel, by decide +kernel⟩

end CoverageStore

end LuaCoverage
