import LuaCoverage.Proofs.Store.HitGains

/-!
# Marks and counts agree

The marks of an item and its count are written separately and by different rules: entries, signs,
calls, hits that are merged in, marks that are cleared. In every store that operations can reach
(`CoverageStore.Reached`) they say the same all the time: a covered line is executed, an executed
line has a count, and blocks and functions are executed exactly if they have a count
(`CoverageStore.Reached.hits_agree`). A line may keep its count when its mark is cleared, so for
lines the converse fails.

One gain of one item keeps the agreement, and clearing marks of lines keeps it too. That is all it
takes, as no other operation clears anything.
-/

set_option autoImplicit false

namespace LuaCoverage

/-! ## One item -/

/-- Whether an item is a line. -/
def Item.isLine : Item → Bool
  | .line _ => true
  | _ => false

namespace Hits

/-- The marks and the count of an item say the same, except that a line without a mark may have a
count. -/
structure Coherent (isLine : Bool) (hits : Hits) : Prop where
  covered : hits.covered = true → hits.executed = true
  executed : hits.executed = true → 0 < hits.count
  counted : isLine = false → 0 < hits.count → hits.executed = true

instance (isLine : Bool) (hits : Hits) : Decidable (hits.Coherent isLine) :=
  decidable_of_iff
    ((hits.covered = true → hits.executed = true) ∧ (hits.executed = true → 0 < hits.count) ∧
      (isLine = false → 0 < hits.count → hits.executed = true))
    ⟨fun ⟨covered, executed, counted⟩ => ⟨covered, executed, counted⟩,
      fun ⟨covered, executed, counted⟩ => ⟨covered, executed, counted⟩⟩

/-- An item that was not hit. -/
theorem coherent_unhit (isLine : Bool) : ({} : Hits).Coherent isLine :=
  ⟨id, nofun, fun _ positive => absurd positive (UInt64.lt_irrefl 0)⟩

variable {brought : Hits → Prop} {isLine : Bool} {before after : Option Hits}

/-- Hits from two places agree as those of each place do. -/
theorem Coherent.add {hits other : Hits} (own : hits.Coherent isLine)
    (theirs : other.Coherent isLine)
    (fits : hits.count.toNat + other.count.toNat < UInt64.size) :
    (hits.add other).Coherent isLine := by
  refine ⟨fun covered => ?_, fun executed => ?_, fun block positive => ?_⟩
  · rcases Bool.or_eq_true_iff.mp covered with here | there
    · exact Bool.or_eq_true_iff.mpr (.inl (own.covered here))
    · exact Bool.or_eq_true_iff.mpr (.inr (theirs.covered there))
  · rw [UInt64.lt_iff_toNat_lt, toNat_add hits other fits]
    rcases Bool.or_eq_true_iff.mp executed with here | there
    · exact Nat.add_pos_left (UInt64.lt_iff_toNat_lt.mp (own.executed here)) _
    · exact Nat.add_pos_right _ (UInt64.lt_iff_toNat_lt.mp (theirs.executed there))
  · rw [UInt64.lt_iff_toNat_lt, toNat_add hits other fits] at positive
    rcases Nat.add_pos_iff_pos_or_pos.mp positive with here | there
    · have marked := own.counted block (UInt64.lt_iff_toNat_lt.mpr here)
      exact Bool.or_eq_true_iff.mpr (.inl marked)
    · have marked := theirs.counted block (UInt64.lt_iff_toNat_lt.mpr there)
      exact Bool.or_eq_true_iff.mpr (.inr marked)

/-- **A gain keeps marks and count in agreement.** -/
theorem Gain.coherent (gain : Gain brought before after)
    (brings : ∀ hits, brought hits → hits.Coherent isLine)
    (coherent : ∀ hits ∈ before, hits.Coherent isLine) : ∀ hits ∈ after, hits.Coherent isLine := by
  cases gain with
  | appear isBrought =>
      rintro hits ⟨⟩
      exact brings _ isBrought
  | @enter hits fits =>
      rintro _ ⟨⟩
      refine ⟨fun _ => rfl, fun _ => ?_, fun _ _ => rfl⟩
      rw [UInt64.lt_iff_toNat_lt, toNat_enter hits fits]
      exact Nat.succ_pos _
  | witness hits =>
      rintro _ ⟨⟩
      refine ⟨fun _ => rfl, fun _ => ?_, fun _ _ => rfl⟩
      show 0 < if hits.count = 0 then 1 else hits.count
      split
      · decide
      · rename_i positive
        exact UInt64.pos_iff_ne_zero.mpr positive
  | @cover hits executed =>
      rintro _ ⟨⟩
      exact ⟨fun _ => executed, (coherent hits rfl).executed, (coherent hits rfl).counted⟩
  | @add hits other isBrought fits =>
      rintro _ ⟨⟩
      exact (coherent hits rfl).add (brings other isBrought) fits

theorem Gains.coherent (gains : Gains brought before after)
    (brings : ∀ hits, brought hits → hits.Coherent isLine)
    (coherent : ∀ hits ∈ before, hits.Coherent isLine) : ∀ hits ∈ after, hits.Coherent isLine := by
  induction gains with
  | refl => exact coherent
  | tail _ gain ih => exact gain.coherent brings ih

end Hits

/-! ## Clearing marks of lines -/

namespace LineRecord

variable {record : LineRecord}

theorem coherent_enforceLine (coherent : record.hits.Coherent true) :
    (FileRecord.enforceLine record).hits.Coherent true where
  covered := fun covered => (Bool.and_eq_true_iff.mp covered).2
  executed := fun executed => coherent.executed (Bool.and_eq_true_iff.mp executed).1
  counted := nofun

theorem coherent_reclassify (coherent : record.hits.Coherent true)
    (verdict : Option Classification) : (record.reclassify verdict).hits.Coherent true where
  covered := fun covered => (Bool.and_eq_true_iff.mp covered).2
  executed := by
    cases verdict with
    | none => exact nofun
    | some verdict =>
        -- a record that is stripped is not executed any more, and the others keep their counts
        have settled : (record.settle verdict).executed = record.executed ∧
            (record.settle verdict).executionCount = record.executionCount := by
          unfold settle
          split <;> exact ⟨rfl, rfl⟩
        show ((record.settle verdict).strip verdict).executed = true →
          0 < ((record.settle verdict).strip verdict).executionCount
        unfold strip
        split
        · exact nofun
        · rw [settled.1, settled.2]
          exact coherent.executed
  counted := nofun

end LineRecord

/-! ## Files -/

/-- The hits on all items of a file are coherent. -/
def FileRecord.Coherent (file : FileRecord) : Prop :=
  ∀ (item : Item), ∀ hits ∈ file.hits? item, hits.Coherent item.isLine

/-- What comes with a change is coherent. -/
def FileChange.BringsCoherent (change : FileChange) : Prop :=
  ∀ (item : Item) (hits : Hits), change.Brings item hits → hits.Coherent item.isLine

/-- What comes with a change is coherent if each record is. -/
theorem FileChange.bringsCoherent_of_records {change : FileChange}
    (lines : ∀ record ∈ change.lines, record.hits.Coherent true)
    (blocks : ∀ block ∈ change.blocks, block.hits.Coherent false)
    (functions : ∀ function ∈ change.functions, function.hits.Coherent false) :
    change.BringsCoherent := by
  intro item hits brought
  cases item with
  | line number =>
      rcases brought with rfl | ⟨record, member, rfl⟩
      · exact Hits.coherent_unhit true
      · exact lines record member
  | block id =>
      obtain ⟨block, member, rfl⟩ := brought
      exact blocks block member
  | function id =>
      obtain ⟨function, member, rfl⟩ := brought
      exact functions function member

namespace FileRecord

variable {file : FileRecord}

theorem coherent_new (path : String) : ({ path := path } : FileRecord).Coherent := by
  intro item hits found
  have missing : ({ path := path } : FileRecord).hits? item = none := by
    cases item <;> rfl
  rw [missing] at found
  cases found

theorem Coherent.reindex (coherent : file.Coherent) : file.reindex.Coherent := by
  intro item hits found
  refine coherent item hits ?_
  cases item <;> exact found

/-- Changing all line records of a file in a way that keeps each one coherent. -/
theorem Coherent.map_lines (coherent : file.Coherent) {change : Nat → LineRecord → LineRecord}
    (keeps : ∀ (number : Nat) (record : LineRecord), record.hits.Coherent true →
      (change number record).hits.Coherent true) :
    ({ file with lines := file.lines.map change } : FileRecord).Coherent := by
  intro item hits found
  cases item with
  | line number =>
      rw [hits?, Std.ExtTreeMap.getElem?_map, Option.map_map] at found
      obtain ⟨record, stored, rfl⟩ := Option.map_eq_some_iff.mp found
      refine keeps number record (coherent (.line number) _ ?_)
      rw [hits?, stored]
      rfl
  | block id => exact coherent (.block id) hits found
  | function id => exact coherent (.function id) hits found

/-- **A change keeps a file coherent** if what comes with it is coherent. -/
theorem Coherent.changed (coherent : file.Coherent) {change : FileChange}
    (inRange : file.InRange change) (brings : change.BringsCoherent) :
    (file.changed change).Coherent := by
  cases clears : change.clears with
  | false =>
      intro item
      exact (gains_changed clears inRange item).coherent (brings item) (coherent item)
  | true =>
      cases change with
      | enforce => exact coherent.map_lines fun _ _ => LineRecord.coherent_enforceLine
      | reclassify analysis =>
          exact coherent.map_lines fun _ _ kept => LineRecord.coherent_reclassify kept _
      | _ => cases clears

end FileRecord

/-- The record of a file that is merged in is coherent if it is so by itself. -/
theorem FileRecord.Coherent.bringsCoherent {theirs : FileRecord} (coherent : theirs.Coherent) :
    FileChange.BringsCoherent (.absorb theirs) := by
  refine FileChange.bringsCoherent_of_records (fun record member => ?_) (fun block member => ?_)
    fun function member => ?_
  · obtain ⟨number, stored⟩ := mem_values_iff.mp member
    exact coherent (.line number) _ (congrArg (Option.map LineRecord.hits) stored)
  · obtain ⟨id, stored⟩ := mem_values_iff.mp member
    exact coherent (.block id) _ (congrArg (Option.map BlockRecord.hits) stored)
  · obtain ⟨id, stored⟩ := mem_values_iff.mp member
    exact coherent (.function id) _ (congrArg (Option.map FunctionRecord.hits) stored)

/-! ## Stores -/

/-- The blocks and functions of an analysis are coherent. -/
structure Analysis.Coherent (analysis : Analysis) : Prop where
  blocks : ∀ block ∈ analysis.blocks.blocks.values, block.hits.Coherent false
  functions : ∀ function ∈ analysis.functions, function.hits.Coherent false

/-- **Nothing in an analysis of a source was hit.** -/
theorem coherent_analyze (settings : AnalysisSettings) (source fileId : String) :
    (analyze settings source fileId).Coherent where
  blocks := by
    intro block member
    obtain ⟨id, stored⟩ := mem_values_iff.mp member
    obtain ⟨executed, count⟩ := (blocks_analyze settings source fileId).2.idle id block stored
    rw [BlockRecord.hits, executed, count]
    exact Hits.coherent_unhit false
  functions := by
    intro function member
    obtain ⟨executed, count, -⟩ := functions_analyze settings source fileId member
    rw [FunctionRecord.hits, executed, count]
    exact Hits.coherent_unhit false

/-- What comes with an operation is coherent: the blocks and functions of an analysis, and a block
that is added. A store that is merged in has to be reached itself, so it does not count here. -/
def StoreOperation.BringsCoherent : StoreOperation → Prop
  | .track _ _ analysis => analysis.Coherent
  | .addBlock _ block => block.hits.Coherent false
  | .merge _ => False
  | _ => True

theorem StoreOperation.BringsCoherent.changeAt {operation : StoreOperation}
    (brings : operation.BringsCoherent) {path : String} {change : FileChange}
    (changes : operation.changeAt path = some change) :
    change.BringsCoherent ∧ ∀ theirs, change ≠ .absorb theirs := by
  have nothing : ∀ {change : FileChange}, change.lines = [] → change.blocks = [] →
      change.functions = [] → change.BringsCoherent := by
    intro change lines blocks functions
    refine FileChange.bringsCoherent_of_records ?_ ?_ ?_
    · simp only [lines, List.not_mem_nil, false_implies, implies_true]
    · simp only [blocks, List.not_mem_nil, false_implies, implies_true]
    · simp only [functions, List.not_mem_nil, false_implies, implies_true]
  cases operation with
  | track target source analysis =>
      obtain ⟨-, ⟨⟩⟩ := Option.ite_none_right_eq_some.mp changes
      refine ⟨FileChange.bringsCoherent_of_records (List.forall_mem_nil _) brings.blocks
        brings.functions, fun _ same => by cases same⟩
  | addBlock target block =>
      obtain ⟨-, ⟨⟩⟩ := Option.ite_none_right_eq_some.mp changes
      refine ⟨FileChange.bringsCoherent_of_records (List.forall_mem_nil _)
        (fun added member => ?_) (List.forall_mem_nil _), fun _ same => by cases same⟩
      obtain rfl := List.mem_singleton.mp member
      exact brings
  | merge theirs => exact brings.elim
  | resolveAll =>
      obtain rfl := Option.some.inj changes
      exact ⟨nothing rfl rfl rfl, fun _ same => by cases same⟩
  | clearContradictions =>
      obtain rfl := Option.some.inj changes
      exact ⟨nothing rfl rfl rfl, fun _ same => by cases same⟩
  | reclassify analyses =>
      obtain ⟨analysis, -, rfl⟩ := Option.map_eq_some_iff.mp changes
      exact ⟨nothing rfl rfl rfl, fun _ same => by cases same⟩
  | _ =>
      obtain ⟨-, ⟨⟩⟩ := Option.ite_none_right_eq_some.mp changes
      exact ⟨nothing rfl rfl rfl, fun _ same => by cases same⟩

namespace CoverageStore

/-- A store that operations reach from the empty store, those that clear marks included. Stores that
are merged in are reached in the same way. No count leaves its 64 bits. -/
inductive Reached : CoverageStore → Prop where
  | empty : Reached .empty
  | apply {store : CoverageStore} {operation : StoreOperation} (reached : Reached store)
      (inRange : store.InRange operation) (brings : operation.BringsCoherent) :
      Reached (store.apply operation).1
  | merge {ours theirs : CoverageStore} (reached : Reached ours) (reached' : Reached theirs)
      (inRange : ours.InRange (.merge theirs)) : Reached (ours.merge theirs)

/-- All files of a store are coherent. -/
def Coherent (store : CoverageStore) : Prop :=
  ∀ (path : String) (file : FileRecord), store.files[path]? = some file → file.Coherent

/-- **An operation keeps a store coherent** if what comes with it is coherent. -/
theorem Coherent.apply {store : CoverageStore} (coherent : store.Coherent)
    {operation : StoreOperation} (inRange : store.InRange operation)
    (brings : ∀ (path : String) (change : FileChange), operation.changeAt path = some change →
      change.BringsCoherent ∧ ∀ theirs, change = .absorb theirs → theirs.Coherent) :
    (store.apply operation).1.Coherent := by
  refine forall_files_apply FileRecord.coherent_new (fun path theirs changes => ?_)
    (fun path change file changes origin isCoherent => ?_) coherent
  · exact ((brings path _ changes).2 theirs rfl).reindex
  · refine isCoherent.changed ?_ (brings path change changes).1
    exact origin.elim (fun found => inRange path file change found changes)
      fun makes => FileRecord.inRange_of_makes makes file

theorem Reached.coherent {store : CoverageStore} (reached : Reached store) : store.Coherent := by
  induction reached with
  | empty =>
      intro path file found
      cases Std.ExtTreeMap.getElem?_empty.symm.trans found
  | apply _ inRange brings ih =>
      refine ih.apply inRange fun path change changes => ?_
      obtain ⟨coherent, notMerged⟩ := brings.changeAt changes
      exact ⟨coherent, fun theirs same => absurd same (notMerged theirs)⟩
  | merge _ _ inRange ih ih' =>
      refine ih.apply inRange fun path change changes => ?_
      obtain ⟨file, stored, rfl⟩ := Option.map_eq_some_iff.mp changes
      refine ⟨(ih' path file stored).bringsCoherent, ?_⟩
      rintro theirs ⟨⟩
      exact ih' path file stored

/-- A run reaches what its operations reach. -/
theorem Reached.run {store : CoverageStore} (reached : Reached store)
    {operations : List StoreOperation} (inRange : store.StaysInRange operations)
    (brings : ∀ operation ∈ operations, operation.BringsCoherent) :
    Reached (store.run operations).1 := by
  induction operations generalizing store with
  | nil => exact reached
  | cons operation rest ih =>
      exact ih (reached.apply inRange.1 (brings operation List.mem_cons_self)) inRange.2
        fun later member => brings later (List.mem_cons_of_mem _ member)

/-- **Marks and counts agree at every moment.** In every store that operations reach, a covered line
is executed, an executed line has a positive count, and a block or a function is executed exactly if
it has a positive count. -/
theorem Reached.hits_agree {store : CoverageStore} (reached : Reached store) (path : String) :
    (∀ (number : Nat) (record : LineRecord), store.line? path number = some record →
      (record.covered = true → record.executed = true) ∧
        (record.executed = true → 0 < record.executionCount)) ∧
    (∀ (id : BlockId) (record : BlockRecord), store.block? path id = some record →
      (record.executed = true ↔ 0 < record.executionCount)) ∧
    ∀ (id : Nat) (record : FunctionRecord), store.function? path id = some record →
      (record.executed = true ↔ 0 < record.executionCount) := by
  refine ⟨fun number record found => ?_, fun id record found => ?_, fun id record found => ?_⟩
  · obtain ⟨file, isFile, stored⟩ := Option.bind_eq_some_iff.mp found
    have coherent := reached.coherent path file isFile (.line number) record.hits
      (congrArg (Option.map LineRecord.hits) stored)
    exact ⟨coherent.covered, coherent.executed⟩
  · obtain ⟨file, isFile, stored⟩ := Option.bind_eq_some_iff.mp found
    have coherent := reached.coherent path file isFile (.block id) record.hits
      (congrArg (Option.map BlockRecord.hits) stored)
    exact ⟨coherent.executed, coherent.counted rfl⟩
  · obtain ⟨file, isFile, stored⟩ := Option.bind_eq_some_iff.mp found
    have coherent := reached.coherent path file isFile (.function id) record.hits
      (congrArg (Option.map FunctionRecord.hits) stored)
    exact ⟨coherent.executed, coherent.counted rfl⟩

/-- A short source with its analysis. -/
def analyzedLoop : Analysis := analyze ⟨.nonExecutable, 100⟩ "do\n  f()\nend\n" "/p/a.lua"

/-- Hits before and after a file was analyzed, a block that was entered elsewhere, and the clearing
of marks at the end. -/
def settling : List StoreOperation :=
  [.trackUnanalyzed "/p/a.lua", .record "/p/a.lua" (.hit 9 .line),
   .track "/p/a.lua" "do\n  f()\nend\n" analyzedLoop, .record "/p/a.lua" (.hit 2 .line),
   .cover "/p/a.lua" 2,
   .addBlock "/p/a.lua"
      { BlockRecord.fresh 7 .doBlock none 1 2 2 with executed := true, executionCount := 3 },
   .reclassify (.ofList [("/p/a.lua", analyzedLoop)]), .clearContradictions]

/-- Such a run reaches a store, which can be merged with itself; then the block has six entries, and
the line outside the source has no mark. -/
theorem Reached.hits_agree_settling :
    let store := (CoverageStore.empty.run settling).1
    (store.merge store).Reached ∧
    ((store.merge store).block? "/p/a.lua" 7).map BlockRecord.hits = some ⟨true, false, 6⟩ ∧
    ((store.merge store).line? "/p/a.lua" 9).map LineRecord.hits = some {} ∧
    ∀ (id : BlockId) (record : BlockRecord),
      (store.merge store).block? "/p/a.lua" id = some record →
      (record.executed = true ↔ 0 < record.executionCount) := by
  intro store
  have entered : (⟨true, false, 3⟩ : Hits).Coherent false := by decide
  have brings : ∀ operation ∈ settling, operation.BringsCoherent := by
    simp only [settling, List.forall_mem_cons, List.not_mem_nil, false_implies, implies_true,
      and_true]
    exact ⟨trivial, trivial, coherent_analyze _ _ _, trivial, trivial, entered, trivial, trivial⟩
  have reached : store.Reached := Reached.empty.run (by decide +kernel) brings
  have merged : (store.merge store).Reached := reached.merge reached (by decide +kernel)
  exact ⟨merged, by decide +kernel, by decide +kernel, (Reached.hits_agree merged "/p/a.lua").2.1⟩

end CoverageStore

end LuaCoverage
