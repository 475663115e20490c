import LuaCoverage.Proofs.Store.HitEffects
import LuaCoverage.Proofs.Store.MergeOrder
import LuaCoverage.Session.Recording

/-!
# Runs of operations on a store

Everything that changes a store is one of its operations (`StoreOperation`), the settling of records
at the end of a session included. An operation never mixes files: what it does to the record of a
path (`StoreOperation.changeAt`) depends on the operation and the path, and the record after it on
the record before it (`CoverageStore.getElem?_apply`). So what holds of every record in a store can
be checked one change of one record at a time (`CoverageStore.forall_files_apply`).
-/

set_option autoImplicit false

namespace LuaCoverage

/-! ## Operations -/

/-- An operation on a store. -/
inductive StoreOperation where
  | track (path source : String) (analysis : Analysis)
  | trackUnanalyzed (path : String)
  | note (path : String)
  /-- Judges the quality of a file anew. -/
  | rate (path : String) (quality : Quality)
  /-- Notes that the source of a file was instrumented. -/
  | markInstrumented (path : String)
  | record (path : String) (operation : HitOperation)
  | cover (path : String) (line : Nat)
  | lineOrCreate (path : String) (line : Nat)
  | addBlock (path : String) (block : BlockRecord)
  | setParent (path : String) (child parent : BlockId)
  | resolveFile (path : String)
  | resolveAll
  | merge (theirs : CoverageStore)
  | clearContradictions
  /-- Settles every file that has an analysis against it. -/
  | reclassify (analyses : PathMap Analysis)

/-- What an operation answers. -/
inductive StoreAnswer where
  | nothing
  | flag (value : Bool)
  | count (number : Nat)
  | line (record : Option LineRecord)
  | report (report : RepairReport)
  deriving DecidableEq

namespace CoverageStore

/-- Records a hit on a file, and says whether there was something to record it on. -/
def record (store : CoverageStore) (path : String) : HitOperation → CoverageStore × Bool
  | .hit line attribution => store.hit path line attribution
  | .call line => store.call path line
  | .callInline line => store.callInline path line

/-- Settles every file that has an analysis against it, and counts the line records that changed. -/
def reclassify (store : CoverageStore) (analyses : PathMap Analysis) : CoverageStore × Nat :=
  let settled (path : String) (file : FileRecord) : FileRecord × Nat :=
    match analyses[path]? with
    | some analysis => file.reclassify analysis
    | none => (file, 0)
  (⟨store.files.map fun path file => (settled path file).1⟩,
   store.files.foldl (fun changed path file => changed + (settled path file).2) 0)

/-- The store after an operation, and its answer. -/
def apply (store : CoverageStore) : StoreOperation → CoverageStore × StoreAnswer
  | .track path source analysis => (store.track path source analysis, .nothing)
  | .trackUnanalyzed path => (store.trackUnanalyzed path, .nothing)
  | .note path => (store.note path, .nothing)
  | .rate path quality =>
      (store.modifyFile path fun file => { file with quality := quality }, .nothing)
  | .markInstrumented path =>
      (store.modifyFile path fun file => { file with instrumented := true }, .nothing)
  | .record path operation => (store.record path operation).map id .flag
  | .cover path line => (store.cover path line).map id .flag
  | .lineOrCreate path line => (store.lineOrCreate path line).map id .line
  | .addBlock path block => (store.addBlock path block).map id .count
  | .setParent path child parent => (store.setParent path child parent).map id .flag
  | .resolveFile path => (store.resolveFile path).map id .report
  | .resolveAll => store.resolveAll.map id .report
  | .merge theirs => (store.merge theirs, .nothing)
  | .clearContradictions => store.clearContradictions.map id .count
  | .reclassify analyses => (store.reclassify analyses).map id .count

/-- The store after some operations, and their answers. -/
def run (store : CoverageStore) : List StoreOperation → CoverageStore × List StoreAnswer
  | [] => (store, [])
  | operation :: rest =>
      let (next, answer) := store.apply operation
      let (last, answers) := next.run rest
      (last, answer :: answers)

theorem run_append (store : CoverageStore) (first later : List StoreOperation) :
    (store.run (first ++ later)).1 = ((store.run first).1.run later).1 := by
  induction first generalizing store with
  | nil => rfl
  | cons operation rest ih => exact ih _

end CoverageStore

/-! ## Changes of one record -/

/-- What an operation on a store may do to the record of one file. -/
inductive FileChange where
  | register (source : String) (analysis : Analysis)
  | activate
  | note
  | rate (quality : Quality)
  | markInstrumented
  | record (operation : HitOperation)
  | cover (line : Nat)
  | keepLine (line : Nat)
  | addBlock (block : BlockRecord)
  | setParent (child parent : BlockId)
  | resolve
  | absorb (theirs : FileRecord)
  | enforce
  | reclassify (analysis : Analysis)

namespace FileRecord

/-- The record of a file with a change. Hits change nothing in a file that is not tracked. -/
def changed (file : FileRecord) : FileChange → FileRecord
  | .register source analysis => file.register source analysis
  | .activate => { file with active := true, discovered := true }
  | .note => file
  | .rate quality => { file with quality := quality }
  | .markInstrumented => { file with instrumented := true }
  | .record operation => if file.active then file.perform operation else file
  | .cover line => (file.cover line).getD file
  | .keepLine line =>
      if file.active then
        { file with lines := file.lines.insert line (file.lineOrUnclassified line) }
      else file
  | .addBlock block => { file with blocks := (file.blocks.insert block).1 }.reindex
  | .setParent child parent => { file with blocks := file.blocks.setParent child (some parent) }
  | .resolve => file.resolveBlocks.1
  | .absorb theirs => file.merge theirs
  | .enforce => file.enforce.1
  | .reclassify analysis => (file.reclassify analysis).1

theorem changed_resolve (file : FileRecord) :
    file.changed .resolve = { file with blocks := file.blocks.resolve.1 }.reindex := rfl

end FileRecord

/-- Whether a change makes a record for a file that has none. -/
def FileChange.makes : FileChange → Bool
  | .register _ _ => true
  | .activate => true
  | .note => true
  | _ => false

/-- The record of a path after a change, given the record before it, if there was one. -/
def FileChange.applied (change : FileChange) (path : String) : Option FileRecord → Option FileRecord
  | some file => some (file.changed change)
  | none =>
      match change with
      | .absorb theirs => some theirs.reindex
      | _ => if change.makes then some (({ path := path } : FileRecord).changed change) else none

/-- A record that was not there before comes from another store, or is made. -/
theorem FileChange.applied_none_cases {change : FileChange} {path : String} {file : FileRecord}
    (made : change.applied path none = some file) :
    (∃ theirs, change = .absorb theirs ∧ theirs.reindex = file) ∨
      change.makes = true ∧ ({ path := path } : FileRecord).changed change = file := by
  cases change with
  | absorb theirs => exact .inl ⟨theirs, rfl, Option.some.inj made⟩
  | register source analysis => exact .inr ⟨rfl, Option.some.inj made⟩
  | activate => exact .inr ⟨rfl, Option.some.inj made⟩
  | note => exact .inr ⟨rfl, Option.some.inj made⟩
  | _ => cases made

/-- What an operation does to the record of a path. -/
def StoreOperation.changeAt (operation : StoreOperation) (path : String) : Option FileChange :=
  let onPath (target : String) (change : FileChange) : Option FileChange :=
    if target = path then some change else none
  match operation with
  | .track target source analysis => onPath target (.register source analysis)
  | .trackUnanalyzed target => onPath target .activate
  | .note target => onPath target .note
  | .rate target quality => onPath target (.rate quality)
  | .markInstrumented target => onPath target .markInstrumented
  | .record target operation => onPath target (.record operation)
  | .cover target line => onPath target (.cover line)
  | .lineOrCreate target line => onPath target (.keepLine line)
  | .addBlock target block => onPath target (.addBlock block)
  | .setParent target child parent => onPath target (.setParent child parent)
  | .resolveFile target => onPath target .resolve
  | .resolveAll => some .resolve
  | .merge theirs => (theirs.files[path]?).map .absorb
  | .clearContradictions => some .enforce
  | .reclassify analyses => (analyses[path]?).map .reclassify

namespace CoverageStore

/-! ## Operations change one record at a time -/

section Locality

variable {store : CoverageStore} {target : String}

/-- A store that differs by a change of the record of one path. -/
def ChangedAt (store : CoverageStore) (target : String) (change : FileChange)
    (next : CoverageStore) : Prop :=
  ∀ path : String, next.files[path]? =
    if target = path then change.applied path store.files[path]? else store.files[path]?

/-- Putting a changed record into a store. -/
theorem changedAt_put {change : FileChange} {file : FileRecord}
    (isChanged : change.applied target store.files[target]? = some file) :
    ChangedAt store target change (store.put target file) := by
  intro path
  rw [put, Std.ExtTreeMap.getElem?_insert]
  by_cases same : target = path
  · subst same
    rw [if_pos Std.ReflCmp.compare_self, if_pos rfl, isChanged]
  · rw [if_neg (mt Std.LawfulEqCmp.eq_of_compare same), if_neg same]

/-- A store stays as it is if the change comes to nothing. -/
theorem changedAt_self {change : FileChange}
    (isKept : change.applied target store.files[target]? = store.files[target]?) :
    ChangedAt store target change store := by
  intro path
  split
  · rename_i same
    rw [← same, isKept]
  · rfl

theorem changedAt_modifyFile {change : FileChange} {modify : FileRecord → FileRecord}
    (isChanged : change.applied target store.files[target]? =
      (store.files[target]?).map modify) :
    ChangedAt store target change (store.modifyFile target modify) := by
  intro path
  rw [modifyFile, Std.ExtTreeMap.getElem?_modify]
  by_cases same : target = path
  · subst same
    rw [if_pos Std.ReflCmp.compare_self, if_pos rfl, isChanged]
  · rw [if_neg (mt Std.LawfulEqCmp.eq_of_compare same), if_neg same]

/-- An operation that may come to nothing, and then leaves the store as it is. -/
theorem changedAt_attempt {change : FileChange} {found : Option FileRecord}
    (isChanged : change.applied target store.files[target]? =
      found.or store.files[target]?) :
    ChangedAt store target change (store.attempt target found).1 := by
  cases found with
  | none => exact changedAt_self isChanged
  | some file => exact changedAt_put isChanged

theorem changedAt_record (operation : HitOperation) :
    ChangedAt store target (.record operation) (store.record target operation).1 := by
  have attempted : ∀ perform : FileRecord → Option FileRecord,
      (∀ file : FileRecord, (perform file).getD file = file.perform operation) →
      ChangedAt store target (.record operation)
        (store.attempt target ((store.tracked? target).bind perform)).1 := by
    intro perform performed
    refine changedAt_attempt ?_
    rw [tracked?]
    cases store.files[target]? with
    | none => rfl
    | some file =>
        rw [FileChange.applied, FileRecord.changed, ← performed file, Option.filter_some]
        cases file.active
        · rfl
        · rw [if_pos rfl, if_pos rfl, Option.bind_some]
          cases perform file <;> rfl
  cases operation with
  | hit line attribution =>
      rw [record, hit, Option.map_eq_bind]
      exact attempted _ fun _ => rfl
  | call line => exact attempted (fun file => file.call line) fun _ => rfl
  | callInline line => exact attempted (fun file => file.callInline line) fun _ => rfl

theorem changedAt_lineOrCreate (line : Nat) :
    ChangedAt store target (.keepLine line) (store.lineOrCreate target line).1 := by
  rw [lineOrCreate, tracked?]
  cases found : store.files[target]? with
  | none => exact changedAt_self (by rw [found]; rfl)
  | some file =>
      rw [Option.filter_some]
      cases active : file.active
      · refine changedAt_self ?_
        rw [found, FileChange.applied, FileRecord.changed, active]
        rfl
      · refine changedAt_put ?_
        rw [found, FileChange.applied, FileRecord.changed, active]
        rfl

end Locality

/-- **An operation changes the record of each path by itself.** -/
theorem getElem?_apply (store : CoverageStore) (operation : StoreOperation) (path : String) :
    (store.apply operation).1.files[path]? =
      match operation.changeAt path with
      | none => store.files[path]?
      | some change => change.applied path store.files[path]? := by
  -- an operation on one path leaves the others alone
  have onPath : ∀ {target : String} {change : FileChange} {next : CoverageStore},
      ChangedAt store target change next → next.files[path]? =
        match (if target = path then some change else none) with
        | none => store.files[path]?
        | some change => change.applied path store.files[path]? := by
    intro target change next changed
    rw [changed path]
    split <;> rfl
  cases operation with
  | track target source analysis =>
      refine onPath (changedAt_put ?_)
      rw [fileOrEmpty]
      cases store.files[target]? <;> rfl
  | trackUnanalyzed target =>
      refine onPath (changedAt_put ?_)
      rw [fileOrEmpty]
      cases store.files[target]? <;> rfl
  | note target =>
      refine onPath (changedAt_put ?_)
      rw [fileOrEmpty]
      cases store.files[target]? <;> rfl
  | rate target quality =>
      refine onPath (changedAt_modifyFile ?_)
      cases store.files[target]? <;> rfl
  | markInstrumented target =>
      refine onPath (changedAt_modifyFile ?_)
      cases store.files[target]? <;> rfl
  | record target operation => exact onPath (changedAt_record operation)
  | cover target line =>
      refine onPath (changedAt_attempt ?_)
      cases found : store.files[target]? with
      | none => rfl
      | some file =>
          rw [Option.bind_some, FileChange.applied, FileRecord.changed]
          cases file.cover line <;> rfl
  | lineOrCreate target line => exact onPath (changedAt_lineOrCreate line)
  | addBlock target block =>
      refine onPath ?_
      rw [apply, addBlock]
      cases found : store.files[target]? with
      | none => exact changedAt_self (by rw [found]; rfl)
      | some file => exact changedAt_put (by rw [found]; rfl)
  | setParent target child parent =>
      refine onPath ?_
      rw [apply, setParent]
      cases found : store.files[target]? with
      | none => exact changedAt_self (by rw [found]; rfl)
      | some file => exact changedAt_put (by rw [found]; rfl)
  | resolveFile target =>
      refine onPath ?_
      rw [apply, resolveFile]
      cases found : store.files[target]? with
      | none => exact changedAt_self (by rw [found]; rfl)
      | some file => exact changedAt_put (by rw [found]; rfl)
  | resolveAll =>
      refine Std.ExtTreeMap.getElem?_map.trans ?_
      cases store.files[path]? <;> rfl
  | merge theirs =>
      refine (getElem?_files_merge store theirs path).trans ?_
      rw [StoreOperation.changeAt]
      cases theirs.files[path]? <;> cases store.files[path]? <;> rfl
  | clearContradictions =>
      refine Std.ExtTreeMap.getElem?_map.trans ?_
      cases store.files[path]? <;> rfl
  | reclassify analyses =>
      refine Std.ExtTreeMap.getElem?_map.trans ?_
      rw [StoreOperation.changeAt]
      beta_reduce
      cases analyses[path]? <;> cases store.files[path]? <;> rfl

/-- **What holds of all records** is checked on new records, on records that come with another
store, and along each change of a record. -/
theorem forall_files_apply {holds : FileRecord → Prop} {store : CoverageStore}
    {operation : StoreOperation} (new : ∀ path : String, holds { path := path })
    (brought : ∀ (path : String) (theirs : FileRecord),
      operation.changeAt path = some (.absorb theirs) → holds theirs.reindex)
    (step : ∀ (path : String) (change : FileChange) (file : FileRecord),
      operation.changeAt path = some change →
      store.files[path]? = some file ∨ change.makes = true → holds file →
      holds (file.changed change))
    (before : ∀ (path : String) (file : FileRecord), store.files[path]? = some file → holds file)
    (path : String) (file : FileRecord)
    (found : (store.apply operation).1.files[path]? = some file) : holds file := by
  rw [getElem?_apply] at found
  cases changes : operation.changeAt path with
  | none =>
      rw [changes] at found
      exact before path file found
  | some change =>
      rw [changes] at found
      cases stored : store.files[path]? with
      | some old =>
          rw [stored] at found
          obtain rfl := Option.some.inj found
          exact step path change old changes (.inl stored) (before path old stored)
      | none =>
          rw [stored] at found
          rcases FileChange.applied_none_cases found with ⟨theirs, rfl, rfl⟩ | ⟨makes, rfl⟩
          · exact brought path theirs changes
          · exact step path change _ changes (.inr makes) (new path)

end CoverageStore

end LuaCoverage
