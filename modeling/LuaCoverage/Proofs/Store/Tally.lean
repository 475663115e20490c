import LuaCoverage.Proofs.Store.HitEffects
import LuaCoverage.Proofs.Store.MergedRecords
import LuaCoverage.Store.Reclassify

/-!
# Files that count their hits

A tracked file with an analysis holds the lines of the analysis, each with the number of hits on it,
and functions with the number of calls that were led to them (`FileRecord.Tallied`). A file that was
just registered does, with no hits at all; recording a hit on a line that can run adds one to that
line, and a call adds one to the first function that starts there (`FileRecord.Tallied.perform`).

In such a file there is nothing to settle: no line is a guess, and no mark contradicts another. What
stopping a run does to a file therefore leaves its lines and functions as they are
(`FileRecord.Tallied.reclassify`, `FileRecord.Tallied.enforce`).
-/

set_option autoImplicit false

namespace LuaCoverage

/-! ## Lines -/

namespace LineRecord

/-- The record of an analyzed line after a number of hits. A line that cannot run has none. -/
structure Tallied (verdict : Classification) (hits : Nat) (record : LineRecord) : Prop where
  classified : record.verdict = verdict
  settled : record.provisional = false
  count : record.executionCount = UInt64.ofNat hits
  executed : record.executed = true ↔ 0 < hits
  covered : record.covered = true → record.executed = true
  runnable : 0 < hits → verdict.executable = true

variable {verdict : Classification} {hits : Nat} {record : LineRecord}

theorem tallied_ofClassification (verdict : Classification) :
    Tallied verdict 0 (ofClassification verdict) where
  classified := rfl
  settled := rfl
  count := rfl
  executed := by simp [ofClassification]
  covered := nofun
  runnable := fun positive => absurd positive (Nat.lt_irrefl 0)

theorem Tallied.hit (tallied : record.Tallied verdict hits) (runs : verdict.executable = true) :
    record.hit.Tallied verdict (hits + 1) where
  classified := tallied.classified
  settled := tallied.settled
  count := by
    show record.executionCount + 1 = UInt64.ofNat (hits + 1)
    rw [tallied.count, UInt64.ofNat_add]
    rfl
  executed := ⟨fun _ => hits.succ_pos, fun _ => rfl⟩
  covered := fun _ => rfl
  runnable := fun _ => runs

/-- An executed line may be covered. -/
theorem Tallied.cover (tallied : record.Tallied verdict hits) (executed : record.executed = true) :
    Tallied verdict hits { record with covered := true } :=
  { tallied with covered := fun _ => executed }

theorem Tallied.executable_of_executed (tallied : record.Tallied verdict hits)
    (executed : record.executed = true) : verdict.executable = true :=
  tallied.runnable (tallied.executed.mp executed)

/-- **Settling changes nothing** where the verdict is known and no hit contradicts it. -/
theorem Tallied.reclassify (tallied : record.Tallied verdict hits) :
    record.reclassify (some verdict) = record := by
  have kept : record.settle verdict = record := by
    rw [settle, if_neg]
    rw [tallied.settled]
    exact Bool.false_ne_true
  have unstripped : record.strip verdict = record := by
    rw [strip, if_neg]
    intro contradicted
    obtain ⟨idle, marked⟩ := Bool.and_eq_true_iff.mp contradicted
    have executed : record.executed = true :=
      (Bool.or_eq_true_iff.mp marked).elim id tallied.covered
    rw [tallied.executable_of_executed executed] at idle
    exact Bool.false_ne_true idle
  have covered : (record.covered && record.executed) = record.covered := by
    have implied := tallied.covered
    revert implied
    cases record.covered <;> simp
  rw [LineRecord.reclassify]
  simp only [kept, unstripped, covered]

/-- No mark contradicts another. -/
theorem Tallied.enforceLine (tallied : record.Tallied verdict hits) :
    FileRecord.enforceLine record = record := by
  have executable : record.executable = verdict.executable :=
    congrArg Classification.executable tallied.classified
  have executed : (record.executed && record.executable) = record.executed := by
    have implied := tallied.executable_of_executed
    rw [← executable] at implied
    revert implied
    cases record.executed <;> simp
  have covered : (record.covered && record.executed) = record.covered := by
    have implied := tallied.covered
    revert implied
    cases record.covered <;> simp
  rw [FileRecord.enforceLine]
  simp only [executed, covered]

end LineRecord

/-! ## Functions -/

namespace FunctionRecord

/-- The record of a function after a number of calls. -/
structure Tallied (calls : Nat) (record : FunctionRecord) : Prop where
  count : record.executionCount = UInt64.ofNat calls
  executed : record.executed = true ↔ 0 < calls

theorem Tallied.call {calls : Nat} {record : FunctionRecord} (tallied : record.Tallied calls) :
    record.call.Tallied (calls + 1) where
  count := by
    show record.executionCount + 1 = UInt64.ofNat (calls + 1)
    rw [tallied.count, UInt64.ofNat_add]
    rfl
  executed := ⟨fun _ => calls.succ_pos, fun _ => rfl⟩

end FunctionRecord

/-- Whether an operation is a call on a line. -/
def HitOperation.callsOn (operation : HitOperation) (line : Nat) : Bool :=
  match operation with
  | .call here => here == line
  | _ => false

/-! ## Files -/

namespace FileRecord

/-- A tracked file with an analysis and a number of hits on each of its lines. Calls on a line are
counted by the first function that starts there. -/
structure Tallied (analysis : Analysis) (hits calls : Nat → Nat) (file : FileRecord) : Prop where
  active : file.active = true
  complete : ∀ (line : Nat) (verdict : Classification),
    analysis.classification? line = some verdict → line ∈ file.lines
  lines : ∀ (line : Nat) (record : LineRecord), file.lines[line]? = some record →
    ∃ verdict, analysis.classification? line = some verdict ∧ record.Tallied verdict (hits line)
  filed : file.FunctionsFiled
  leads : ∀ line id : Nat, file.index.functionAt[line]? = some id ↔ file.LeadsTo line id
  starts : ∀ (id : Nat) (function : FunctionRecord), file.functions[id]? = some function →
    0 < function.startLine
  called : ∀ (id : Nat) (function : FunctionRecord), file.functions[id]? = some function →
    file.LeadsTo function.startLine id → function.Tallied (calls function.startLine)
  uncalled : ∀ (id : Nat) (function : FunctionRecord), file.functions[id]? = some function →
    ¬ file.LeadsTo function.startLine id → function.Tallied 0

/-- Where a call is led to depends on the first lines of functions only. -/
theorem leadsTo_congr {file other : FileRecord}
    (same : ∀ id : Nat, (other.functions[id]?).map FunctionRecord.startLine =
      (file.functions[id]?).map FunctionRecord.startLine) (line id : Nat) :
    other.LeadsTo line id ↔ file.LeadsTo line id := by
  have starts : ∀ {file : FileRecord} {id : Nat},
      (∃ function, file.functions[id]? = some function ∧ function.startLine = line) ↔
        (file.functions[id]?).map FunctionRecord.startLine = some line :=
    Option.map_eq_some_iff.symm
  have least : ∀ {file : FileRecord}, (∀ (other : Nat) (function : FunctionRecord),
      file.functions[other]? = some function → function.startLine = line → id ≤ other) ↔
        ∀ other : Nat, (file.functions[other]?).map FunctionRecord.startLine = some line →
          id ≤ other := by
    intro file
    refine forall_congr' fun other => ?_
    rw [← starts]
    exact ⟨fun all ⟨function, found, isStart⟩ => all function found isStart,
      fun all function found isStart => all ⟨function, found, isStart⟩⟩
  rw [LeadsTo, LeadsTo, starts, starts, least, least, same]
  simp only [same]

/-- A file with a new index leads calls to the first functions that start on their lines. -/
theorem functionAt_reindex {file : FileRecord} (filed : file.FunctionsFiled) (line id : Nat) :
    file.reindex.index.functionAt[line]? = some id ↔ file.LeadsTo line id := by
  show (LineIndex.build file.lines file.blocks file.functions).functionAt[line]? = some id ↔ _
  rw [functionAt_build]
  exact functionStarts_eq_some_iff filed

/-- **A file that was just registered** has no hits. -/
theorem Registered.tallied {analysis : Analysis} {file : FileRecord}
    (registered : Registered analysis file)
    (fresh : ∀ function ∈ analysis.functions,
      function.executed = false ∧ function.executionCount = 0 ∧ 0 < function.startLine) :
    Tallied analysis (fun _ => 0) (fun _ => 0) file := by
  have listed : ∀ {id : Nat} {function : FunctionRecord}, file.functions[id]? = some function →
      function ∈ analysis.functions := by
    intro id function found
    rw [registered.functions] at found
    exact List.mem_of_find?_eq_some found
  have idle : ∀ {id : Nat} {function : FunctionRecord}, file.functions[id]? = some function →
      function.Tallied 0 := by
    intro id function found
    obtain ⟨executed, count, -⟩ := fresh function (listed found)
    refine ⟨count, ?_⟩
    rw [executed]
    simp
  refine ⟨registered.active, fun line verdict classified => ?complete,
    fun line record found => ?lines, registered.functionsFiled, fun line id => ?leads,
    fun id function found => ?starts, fun id function found _ => idle found,
    fun id function found _ => idle found⟩
  case complete =>
    refine mem_map_iff.mpr ⟨.ofClassification verdict, ?_⟩
    rw [registered.lines, classified]
    rfl
  case lines =>
    rw [registered.lines] at found
    obtain ⟨verdict, classified, rfl⟩ := Option.map_eq_some_iff.mp found
    exact ⟨verdict, classified, LineRecord.tallied_ofClassification verdict⟩
  case leads =>
    rw [registered.index]
    exact functionAt_reindex registered.functionsFiled line id
  case starts => exact (fresh function (listed found)).2.2

section Steps

variable {analysis : Analysis} {hits calls : Nat → Nat} {file : FileRecord}

/-- No function starts on line 0, so calls there need not be known. -/
theorem Tallied.congr {hits' calls' : Nat → Nat} (tallied : file.Tallied analysis hits calls)
    (sameHits : ∀ line, hits' line = hits line)
    (sameCalls : ∀ line, 0 < line → calls' line = calls line) :
    file.Tallied analysis hits' calls' := by
  refine { tallied with
    lines := fun line record found => ?_
    called := fun id function found leads => ?_ }
  · rw [sameHits]
    exact tallied.lines line record found
  · rw [sameCalls _ (tallied.starts id function found)]
    exact tallied.called id function found leads

/-- A function after an operation is the function before it, with one more call if the operation
reaches it. -/
theorem exists_of_functions_perform {operation : HitOperation} {id : Nat}
    {function : FunctionRecord} (found : (file.perform operation).functions[id]? = some function) :
    ∃ old, file.functions[id]? = some old ∧
      function = (if file.index.calls operation id then old.call else old) ∧
      function.id = old.id ∧ function.startLine = old.startLine := by
  rw [functions_perform] at found
  split at found
  · rename_i reached
    obtain ⟨old, isOld, rfl⟩ := Option.map_eq_some_iff.mp found
    exact ⟨old, isOld, (if_pos reached).symm, rfl, rfl⟩
  · rename_i unreached
    exact ⟨function, found, (if_neg unreached).symm, rfl, rfl⟩

theorem leadsTo_perform (operation : HitOperation) (line id : Nat) :
    (file.perform operation).LeadsTo line id ↔ file.LeadsTo line id := by
  refine leadsTo_congr (fun id => ?_) line id
  rw [functions_perform]
  split
  · rw [Option.map_map]
    rfl
  · rfl

/-- A call reaches a function if it is on the first line of the function and led to it. -/
theorem Tallied.calls_iff (tallied : file.Tallied analysis hits calls) (operation : HitOperation)
    {id : Nat} {function : FunctionRecord} (found : file.functions[id]? = some function) :
    file.index.calls operation id = true ↔
      operation.callsOn function.startLine = true ∧ file.LeadsTo function.startLine id := by
  cases operation with
  | hit line attribution => simp [LineIndex.calls, HitOperation.callsOn]
  | callInline line => simp [LineIndex.calls, HitOperation.callsOn]
  | call line =>
      rw [LineIndex.calls, HitOperation.callsOn, beq_iff_eq, beq_iff_eq, tallied.leads]
      constructor
      · intro leads
        obtain ⟨other, isOther, isStart⟩ := leads.1
        obtain rfl := Option.some.inj (isOther.symm.trans found)
        exact ⟨isStart.symm, isStart ▸ leads⟩
      · rintro ⟨rfl, leads⟩
        exact leads

/-- **Recording a hit** adds one to the line or to the function that it is on. -/
theorem Tallied.perform (tallied : file.Tallied analysis hits calls) (operation : HitOperation)
    (runs : ∀ line, operation.hits line = true → ∃ verdict,
      analysis.classification? line = some verdict ∧ verdict.executable = true) :
    (file.perform operation).Tallied analysis
      (fun line => hits line + if operation.hits line then 1 else 0)
      (fun line => calls line + if operation.callsOn line then 1 else 0) := by
  obtain ⟨index, active, -⟩ := file.perform_frame operation
  refine ⟨active.trans tallied.active, fun line verdict classified => ?complete,
    fun line record found => ?lines, fun id function found => ?filed, fun line id => ?leads,
    fun id function found => ?starts, fun id function found leads => ?called,
    fun id function found misses => ?uncalled⟩
  case complete =>
    obtain ⟨record, stored⟩ := mem_map_iff.mp (tallied.complete line verdict classified)
    refine mem_map_iff.mpr ?_
    rw [lines_perform, stored]
    split
    · exact ⟨_, rfl⟩
    · exact ⟨record, rfl⟩
  case lines =>
    rw [lines_perform] at found
    split at found
    · rename_i isHit
      obtain rfl := Option.some.inj found
      obtain ⟨verdict, classified, executable⟩ := runs line isHit
      obtain ⟨record, stored⟩ := mem_map_iff.mp (tallied.complete line verdict classified)
      obtain ⟨verdict', classified', isTally⟩ := tallied.lines line record stored
      obtain rfl := Option.some.inj (classified'.symm.trans classified)
      refine ⟨verdict', classified, ?_⟩
      rw [lineOrUnclassified, stored, if_pos isHit]
      exact isTally.hit executable
    · rename_i notHit
      simp only [if_neg notHit, Nat.add_zero]
      exact tallied.lines line record found
  case filed =>
    obtain ⟨old, isOld, -, sameId, -⟩ := exists_of_functions_perform found
    exact sameId.trans (tallied.filed id old isOld)
  case leads =>
    rw [index, leadsTo_perform]
    exact tallied.leads line id
  case starts =>
    obtain ⟨old, isOld, -, -, sameStart⟩ := exists_of_functions_perform found
    rw [sameStart]
    exact tallied.starts id old isOld
  case called =>
    obtain ⟨old, isOld, changed, -, sameStart⟩ := exists_of_functions_perform found
    rw [sameStart, leadsTo_perform] at leads
    have isTally := tallied.called id old isOld leads
    rw [sameStart, changed]
    by_cases onLine : operation.callsOn old.startLine = true
    · rw [if_pos ((tallied.calls_iff operation isOld).mpr ⟨onLine, leads⟩), if_pos onLine]
      exact isTally.call
    · rw [if_neg fun reached => onLine ((tallied.calls_iff operation isOld).mp reached).1,
        if_neg onLine]
      exact isTally
  case uncalled =>
    obtain ⟨old, isOld, changed, -, sameStart⟩ := exists_of_functions_perform found
    rw [sameStart, leadsTo_perform] at misses
    rw [changed, if_neg fun reached => misses ((tallied.calls_iff operation isOld).mp reached).2]
    exact tallied.uncalled id old isOld misses

/-- A line is covered if it was executed. All else stays as it is. -/
theorem exists_of_cover {line : Nat} {changed : FileRecord}
    (isCovered : file.cover line = some changed) :
    ∃ record, file.lines[line]? = some record ∧ record.executed = true ∧
      changed = { file with lines := file.lines.insert line { record with covered := true } } := by
  obtain ⟨record, stored, isCovered⟩ := Option.bind_eq_some_iff.mp isCovered
  split at isCovered
  case isFalse => cases isCovered
  rename_i allowed
  exact ⟨record, stored, (Bool.and_eq_true_iff.mp allowed).1, (Option.some.inj isCovered).symm⟩

/-- **Covering a line** changes no count. -/
theorem Tallied.cover (tallied : file.Tallied analysis hits calls) {line : Nat}
    {changed : FileRecord} (isCovered : file.cover line = some changed) :
    changed.Tallied analysis hits calls := by
  obtain ⟨record, stored, executed, rfl⟩ := exists_of_cover isCovered
  refine { tallied with
    complete := fun other verdict classified => ?_
    lines := fun other found isFound => ?_ }
  · exact Std.ExtTreeMap.mem_insert.mpr (.inr (tallied.complete other verdict classified))
  · rw [Std.ExtTreeMap.getElem?_insert] at isFound
    split at isFound
    · rename_i same
      obtain rfl := Std.LawfulEqCmp.compare_eq_iff_eq.mp same
      obtain rfl := Option.some.inj isFound
      obtain ⟨verdict, classified, isTally⟩ := tallied.lines _ record stored
      exact ⟨verdict, classified, isTally.cover executed⟩
    · exact tallied.lines other found isFound

/-! ### Stopping a run -/

/-- A repair changes the block table of a file, and makes a new index. -/
theorem exists_resolveBlocks (file : FileRecord) :
    ∃ table, file.resolveBlocks.1 = { file with blocks := table }.reindex :=
  ⟨file.blocks.resolve.1, rfl⟩

/-- Repairing the blocks leaves lines and functions alone. -/
theorem Tallied.resolveBlocks (tallied : file.Tallied analysis hits calls) :
    file.resolveBlocks.1.Tallied analysis hits calls := by
  obtain ⟨table, same⟩ := file.exists_resolveBlocks
  rw [same]
  exact { tallied with leads := functionAt_reindex tallied.filed }

/-- **There is nothing to settle** in a file that holds the lines of its analysis. -/
theorem Tallied.reclassify (tallied : file.Tallied analysis hits calls) :
    (file.reclassify analysis).1 = file := by
  have same : file.lines.map (fun line record =>
      record.reclassify (analysis.classification? line)) = file.lines :=
    map_eq_self fun line record found => by
      obtain ⟨verdict, classified, isTally⟩ := tallied.lines line record found
      rw [classified]
      exact isTally.reclassify
  rw [FileRecord.reclassify]
  simp only [same]

/-- **No mark contradicts another** in a file that holds the lines of its analysis. -/
theorem Tallied.enforce (tallied : file.Tallied analysis hits calls) : file.enforce.1 = file := by
  have same : file.lines.map (fun _ record => enforceLine record) = file.lines :=
    map_eq_self fun line record found => by
      obtain ⟨verdict, -, isTally⟩ := tallied.lines line record found
      exact isTally.enforceLine
  rw [FileRecord.enforce]
  simp only [same]

end Steps

end FileRecord

end LuaCoverage
