import LuaCoverage.Proofs.Store.HitEffects
import LuaCoverage.Proofs.Store.MergeOrder

/-!
# Hits spread over two stores

Two workers that registered the same analysis of a file and shared out the hits on it have, merged,
what one worker would have that saw all hits. For lines and functions this is exact. For blocks the
marks are exact, but the counts may be larger: a sign that a block runs counts only if nothing was
counted before, and each worker counts on its own.

The invariant `Sharded` relates three files while the hits come in: the one that sees all of them,
and the two that share them. A hit on either of the two keeps it (`Sharded.perform`), because adding
a hit before merging is the same as adding it afterwards (`LineRecord.hit_merge`). For the counts of
blocks it says that the whole is at most the sum, which is at most the number of hits.
-/

set_option autoImplicit false

namespace LuaCoverage

/-! ## Hits and merging -/

namespace LineRecord

/-- Two records say the same about the text of a line, and are the same kind of guess. -/
structure SameText (own other : LineRecord) : Prop where
  verdict : own.verdict = other.verdict
  provisional : own.provisional = other.provisional

theorem SameText.refl (record : LineRecord) : record.SameText record := ⟨rfl, rfl⟩

theorem SameText.symm {own other : LineRecord} (same : own.SameText other) : other.SameText own :=
  ⟨same.verdict.symm, same.provisional.symm⟩

theorem SameText.hit {own other : LineRecord} (same : own.SameText other) :
    own.hit.SameText other :=
  ⟨same.verdict, same.provisional⟩

/-- A hit on one side is a hit on the whole. -/
theorem hit_merge (own other : LineRecord) : own.hit.merge other = (own.merge other).hit := by
  refine eq_of_parts ?_ ?_ ?_ ?_ ?_
  · rw [executed_merge]
    exact Bool.true_or _
  · rw [covered_merge]
    exact (covered_merge own other).symm
  · rw [executionCount_merge]
    show own.executionCount + 1 + other.executionCount = (own.merge other).executionCount + 1
    rw [executionCount_merge, UInt64.add_assoc, UInt64.add_assoc, UInt64.add_comm 1]
  · rw [verdict_merge]
    exact (verdict_merge own other).symm
  · rw [provisional_merge]
    exact (provisional_merge own other).symm

/-- A record without hits adds nothing to a record of the same text. -/
theorem unhit_merge {own other : LineRecord} (executed : own.executed = false)
    (covered : own.covered = false) (count : own.executionCount = 0) (same : own.SameText other) :
    own.merge other = other := by
  refine eq_of_parts ?_ ?_ ?_ ?_ ?_
  · rw [executed_merge, executed, Bool.false_or]
  · rw [covered_merge, covered, Bool.false_or]
  · rw [executionCount_merge, count, UInt64.zero_add]
  · rw [verdict_merge, same.verdict, ite_self]
  · rw [provisional_merge, same.provisional, Bool.and_self]

end LineRecord

namespace FunctionRecord

/-- A record without calls, merged with itself. -/
theorem uncalled_merge {record : FunctionRecord} (executed : record.executed = false)
    (count : record.executionCount = 0) : record.merge record = record := by
  obtain ⟨id, name, kind, startLine, endLine, _, _⟩ := record
  cases executed
  cases count
  rfl

/-- A call on one side is a call on the whole. -/
theorem call_merge (own other : FunctionRecord) :
    own.call.merge other = (own.merge other).call := by
  simp only [merge, call, Bool.true_or, FunctionRecord.mk.injEq, true_and]
  rw [UInt64.add_assoc, UInt64.add_assoc, UInt64.add_comm 1]

end FunctionRecord

/-! ## Credits and counts -/

/-- The credit that a block gets of some. -/
def creditOf (credits : List Credit) (id : BlockId) : Option Credit :=
  credits.find? fun credit => credit.block == id

theorem creditOf_cons (first : Credit) (rest : List Credit) (id : BlockId) :
    creditOf (first :: rest) id = if first.block = id then some first else creditOf rest id := by
  rw [creditOf, List.find?_cons]
  by_cases same : first.block = id
  · rw [if_pos same, same, beq_self_eq_true]
  · rw [if_neg same, beq_eq_false_iff_ne.mpr same]
    rfl

/-- The record of a block with a credit, if it gets one. -/
def BlockRecord.credited (record : BlockRecord) : Option Credit → BlockRecord
  | none => record
  | some credit => credit.change record

/-- Credits for different blocks reach each block at most once. -/
theorem BlockTable.getElem?_credits {credits : List Credit}
    (once : (credits.map Credit.block).Nodup) (table : BlockTable) (id : BlockId) :
    (credits.foldl BlockTable.credit table).blocks[id]? =
      (table.blocks[id]?).map fun record => record.credited (creditOf credits id) := by
  induction credits generalizing table with
  | nil => exact Option.map_id'.symm
  | cons first rest ih =>
      obtain ⟨apart, once⟩ := List.nodup_cons.mp once
      rw [List.foldl_cons, ih once, BlockTable.credit, getElem?_modifyBlock, creditOf_cons]
      by_cases same : first.block = id
      · have none : creditOf rest id = none := by
          refine List.find?_eq_none.mpr fun credit member isSame => apart ?_
          exact List.mem_map.mpr ⟨credit, member, (beq_iff_eq.mp isSame).trans same.symm⟩
        rw [if_pos same, if_pos same, none, Option.map_map]
        rfl
      · rw [if_neg same, if_neg same]

/-- Credits leave a table settled. -/
theorem BlockTable.Settled.credits {table : BlockTable} (settled : table.Settled)
    (credits : List Credit) : (credits.foldl BlockTable.credit table).Settled := by
  refine List.foldlRecOn (motive := BlockTable.Settled) _ _ settled ?_
  intro current settled credit _
  exact settled.modifyBlock (fun _ => by cases credit <;> rfl) (fun _ => by cases credit <;> rfl)
    fun _ => by cases credit <;> rfl

/-- An entry adds one to the count of a block. -/
theorem BlockRecord.toNat_enter {record : BlockRecord}
    (fits : record.executionCount.toNat + 1 < UInt64.size) :
    record.enter.executionCount.toNat = record.executionCount.toNat + 1 := by
  show (record.executionCount + 1).toNat = _
  rw [UInt64.toNat_add]
  exact Nat.mod_eq_of_lt fits

/-- A sign raises the count of a block to one. -/
theorem BlockRecord.toNat_witness (record : BlockRecord) :
    record.witness.executionCount.toNat = max 1 record.executionCount.toNat := by
  show (if record.executionCount = 0 then 1 else record.executionCount).toNat = _
  split
  · rename_i zero
    rw [zero]
    rfl
  · rename_i positive
    have counted : record.executionCount.toNat ≠ 0 := fun none =>
      positive (UInt64.toNat_inj.mp none)
    omega

/-- What holds of the records of one block after some number of hits: the mark of the whole is the
union, and the count of the whole is at most the sum, as long as nothing overflows. -/
structure BlockShares (hits : Nat) (whole ours theirs : BlockRecord) : Prop where
  executed : whole.executed = (ours.executed || theirs.executed)
  bounded : hits < UInt64.size →
    whole.executionCount.toNat ≤ ours.executionCount.toNat + theirs.executionCount.toNat ∧
      ours.executionCount.toNat + theirs.executionCount.toNat ≤ hits

namespace BlockShares

variable {hits : Nat} {whole ours theirs : BlockRecord}

/-- **A credit for the whole and for one side** keeps the relation. -/
theorem credited (shares : BlockShares hits whole ours theirs) (credit : Option Credit) :
    BlockShares (hits + 1) (whole.credited credit) (ours.credited credit) theirs := by
  obtain ⟨executed, bounded⟩ := shares
  cases credit with
  | none =>
      refine ⟨executed, fun fits => ?_⟩
      obtain ⟨less, few⟩ := bounded (by omega)
      exact ⟨less, Nat.le_succ_of_le few⟩
  | some credit =>
      cases credit with
      | entry id =>
          refine ⟨(Bool.true_or _).symm, fun fits => ?_⟩
          obtain ⟨less, few⟩ := bounded (by omega)
          have entered : whole.enter.executionCount.toNat = whole.executionCount.toNat + 1 :=
            BlockRecord.toNat_enter (by omega)
          have entered' : ours.enter.executionCount.toNat = ours.executionCount.toNat + 1 :=
            BlockRecord.toNat_enter (by omega)
          show whole.enter.executionCount.toNat ≤ ours.enter.executionCount.toNat + _ ∧
            ours.enter.executionCount.toNat + _ ≤ hits + 1
          omega
      | sign id =>
          -- if nothing was counted for the whole, nothing was counted for the side
          refine ⟨(Bool.true_or _).symm, fun fits => ?_⟩
          obtain ⟨less, few⟩ := bounded (by omega)
          show whole.witness.executionCount.toNat ≤ ours.witness.executionCount.toNat + _ ∧
            ours.witness.executionCount.toNat + _ ≤ hits + 1
          rw [BlockRecord.toNat_witness, BlockRecord.toNat_witness]
          omega

theorem symm (shares : BlockShares hits whole ours theirs) :
    BlockShares hits whole theirs ours where
  executed := shares.executed.trans (Bool.or_comm _ _)
  bounded := fun fits => by
    rw [Nat.add_comm]
    exact shares.bounded fits

end BlockShares

/-- The relation for records that may be missing: all three are there, or none. -/
inductive BlockSharesAt (hits : Nat) :
    Option BlockRecord → Option BlockRecord → Option BlockRecord → Prop where
  | missing : BlockSharesAt hits none none none
  | stored {whole ours theirs : BlockRecord} (shares : BlockShares hits whole ours theirs) :
      BlockSharesAt hits (some whole) (some ours) (some theirs)

namespace BlockSharesAt

variable {hits : Nat} {whole ours theirs : Option BlockRecord}

theorem credited (shares : BlockSharesAt hits whole ours theirs) (credit : Option Credit) :
    BlockSharesAt (hits + 1) (whole.map fun record => record.credited credit)
      (ours.map fun record => record.credited credit) theirs := by
  cases shares with
  | missing => exact .missing
  | stored shares => exact .stored (shares.credited credit)

theorem symm (shares : BlockSharesAt hits whole ours theirs) :
    BlockSharesAt hits whole theirs ours := by
  cases shares with
  | missing => exact .missing
  | stored shares => exact .stored shares.symm

end BlockSharesAt

/-! ## Files -/

namespace FileRecord

/-- An operation hits the records of lines, made up or not. -/
theorem lineOrUnclassified_perform (file : FileRecord) (operation : HitOperation) (line : Nat) :
    (file.perform operation).lineOrUnclassified line =
      if operation.hits line then (file.lineOrUnclassified line).hit
      else file.lineOrUnclassified line := by
  have analyzed : (file.perform operation).isAnalyzed = file.isAnalyzed := by
    rw [isAnalyzed, (file.perform_frame operation).2.2, isAnalyzed]
  rw [lineOrUnclassified, lines_perform, analyzed]
  split
  · rfl
  · rfl

theorem mem_lines_perform (file : FileRecord) (operation : HitOperation) (line : Nat) :
    line ∈ (file.perform operation).lines ↔ operation.hits line = true ∨ line ∈ file.lines := by
  rw [Std.ExtTreeMap.mem_iff_isSome_getElem?, lines_perform, Std.ExtTreeMap.mem_iff_isSome_getElem?]
  split
  · rename_i hit
    exact iff_of_true rfl (.inl hit)
  · rename_i unhit
    exact ⟨.inr, fun either => either.resolve_left unhit⟩

/-- **What relates three files** of which one sees all hits and the other two share them. -/
structure Sharded (hits : Nat) (whole ours theirs : FileRecord) : Prop where
  index : ours.index = whole.index ∧ theirs.index = whole.index
  known : ∀ line : Nat, line ∈ whole.lines ↔ line ∈ ours.lines ∨ line ∈ theirs.lines
  lines : ∀ line, whole.lineOrUnclassified line =
    (ours.lineOrUnclassified line).merge (theirs.lineOrUnclassified line)
  texts : ∀ line, (ours.lineOrUnclassified line).SameText (theirs.lineOrUnclassified line)
  functions : ∀ id : Nat, whole.functions[id]? =
    (ours.functions[id]?).merge FunctionRecord.merge theirs.functions[id]?
  described : ∀ id : Nat, (ours.functions[id]?).map FunctionRecord.description =
    (theirs.functions[id]?).map FunctionRecord.description
  settled : ours.blocks.Settled ∧ theirs.blocks.Settled
  blocks : ∀ id : BlockId, BlockSharesAt hits whole.blocks.blocks[id]? ours.blocks.blocks[id]?
    theirs.blocks.blocks[id]?

namespace Sharded

variable {hits : Nat} {whole ours theirs : FileRecord}

/-- **A hit on one side, and on the whole.** -/
theorem perform (sharded : Sharded hits whole ours theirs) {operation : HitOperation}
    (once : ((whole.index.credits operation).map Credit.block).Nodup) :
    Sharded (hits + 1) (whole.perform operation) (ours.perform operation) theirs where
  index := by
    rw [(whole.perform_frame operation).1, (ours.perform_frame operation).1]
    exact sharded.index
  known := by
    intro line
    rw [mem_lines_perform, mem_lines_perform, sharded.known, or_assoc]
  lines := by
    intro line
    rw [lineOrUnclassified_perform, lineOrUnclassified_perform, sharded.lines]
    split
    · exact (LineRecord.hit_merge _ _).symm
    · rfl
  texts := by
    intro line
    rw [lineOrUnclassified_perform]
    split
    · exact (sharded.texts line).hit
    · exact sharded.texts line
  functions := by
    intro id
    rw [functions_perform, functions_perform, sharded.functions, sharded.index.1]
    split
    · -- the function is there on both sides or on neither
      have described := sharded.described id
      cases own : ours.functions[id]? <;> cases other : theirs.functions[id]? <;>
        rw [own, other] at described
      · rfl
      · cases described
      · cases described
      · exact congrArg some (FunctionRecord.call_merge _ _).symm
    · rfl
  described := by
    intro id
    rw [functions_perform, ← sharded.described]
    split
    · rw [Option.map_map]
      rfl
    · rfl
  settled := by
    rw [blocks_perform]
    exact ⟨sharded.settled.1.credits _, sharded.settled.2⟩
  blocks := by
    intro id
    rw [blocks_perform, blocks_perform, sharded.index.1, BlockTable.getElem?_credits once,
      BlockTable.getElem?_credits once]
    exact (sharded.blocks id).credited _

theorem symm (sharded : Sharded hits whole ours theirs) : Sharded hits whole theirs ours where
  index := sharded.index.symm
  known := fun line => (sharded.known line).trans (or_comm)
  lines := fun line => (sharded.lines line).trans
    (LineRecord.merge_comm fun _ => (sharded.texts line).verdict)
  texts := fun line => (sharded.texts line).symm
  functions := by
    intro id
    rw [sharded.functions]
    refine optionMerge_comm fun own other here there => FunctionRecord.merge_comm ?_
    have described := sharded.described id
    rw [here, there] at described
    exact Option.some.inj described
  described := fun id => (sharded.described id).symm
  settled := sharded.settled.symm
  blocks := fun id => (sharded.blocks id).symm

/-- **Before any hit** the three files are the same registered one. -/
theorem start {analysis : Analysis} {file : FileRecord} (registered : Registered analysis file)
    (unrun : analysis.blocks.Unrun) (uncalled : ∀ function ∈ analysis.functions,
      function.executed = false ∧ function.executionCount = 0) : Sharded 0 file file file where
  index := ⟨rfl, rfl⟩
  known := fun _ => (or_self _).to_iff.symm
  lines := by
    intro line
    have unhit : (file.lineOrUnclassified line).executed = false ∧
        (file.lineOrUnclassified line).covered = false ∧
        (file.lineOrUnclassified line).executionCount = 0 := by
      rw [lineOrUnclassified, registered.lines]
      cases analysis.classification? line <;> exact ⟨rfl, rfl, rfl⟩
    exact (LineRecord.unhit_merge unhit.1 unhit.2.1 unhit.2.2 (.refl _)).symm
  texts := fun _ => .refl _
  functions := by
    intro id
    cases found : file.functions[id]? with
    | none => rfl
    | some function =>
        rw [registered.functions] at found
        obtain ⟨executed, count⟩ := uncalled function (List.mem_of_find?_eq_some found)
        exact congrArg some (FunctionRecord.uncalled_merge executed count).symm
  described := fun _ => rfl
  settled := ⟨registered.settled, registered.settled⟩
  blocks := by
    intro id
    cases stored : file.blocks.blocks[id]? with
    | none => exact .missing
    | some record =>
        have bare : analysis.blocks.bare id = some record.bare := by
          rw [← registered.blocks, BlockTable.bare, stored]
          rfl
        obtain ⟨original, isOriginal, same⟩ := Option.map_eq_some_iff.mp bare
        obtain ⟨idle, zero⟩ := unrun.idle id original isOriginal
        have executed : record.executed = false :=
          (congrArg BlockRecord.executed same).symm.trans idle
        have count : record.executionCount = 0 :=
          (congrArg BlockRecord.executionCount same).symm.trans zero
        refine .stored ⟨?_, fun _ => ?_⟩
        · rw [executed]
          rfl
        · rw [count]
          exact ⟨Nat.le_refl 0, Nat.le_refl 0⟩

/-- A line that only one side knows adds nothing to the other side. -/
theorem merge_unknown {file : FileRecord} {line : Nat} {other : LineRecord}
    (unknown : file.lines[line]? = none) (same : (file.lineOrUnclassified line).SameText other) :
    (file.lineOrUnclassified line).merge other = other := by
  have madeUp : file.lineOrUnclassified line = .unclassified file.isAnalyzed := by
    rw [lineOrUnclassified, unknown, Option.getD_none]
  rw [madeUp] at same ⊢
  exact LineRecord.unhit_merge rfl rfl rfl same

/-- **The lines of the merged file** are those of the whole. -/
theorem lines_merge (sharded : Sharded hits whole ours theirs) :
    (ours.merge theirs).lines = whole.lines := by
  apply Std.ExtTreeMap.ext_getElem?
  intro line
  rw [FileRecord.lines_merge]
  have known := sharded.known line
  have lines := sharded.lines line
  have texts := sharded.texts line
  have knownLine : ∀ {file : FileRecord} {record : LineRecord}, file.lines[line]? = some record →
      line ∈ file.lines ∧ file.lineOrUnclassified line = record := fun found =>
    ⟨mem_map_iff.mpr ⟨_, found⟩, by rw [lineOrUnclassified, found, Option.getD_some]⟩
  have wholeLine : line ∈ whole.lines →
      whole.lines[line]? = some (whole.lineOrUnclassified line) := by
    intro member
    obtain ⟨record, found⟩ := mem_map_iff.mp member
    rw [(knownLine found).2, found]
  cases own : ours.lines[line]? with
  | none =>
      cases other : theirs.lines[line]? with
      | none =>
          have unknown : line ∉ whole.lines := by
            rw [known, Std.ExtTreeMap.mem_iff_isSome_getElem?,
              Std.ExtTreeMap.mem_iff_isSome_getElem?, own, other]
            simp
          exact (Std.ExtTreeMap.getElem?_eq_none unknown).symm
      | some record =>
          obtain ⟨member, same⟩ := knownLine other
          rw [wholeLine (known.mpr (.inr member)), lines, merge_unknown own texts, same]
          rfl
  | some record =>
      obtain ⟨member, same⟩ := knownLine own
      rw [wholeLine (known.mpr (.inl member)), lines]
      cases other : theirs.lines[line]? with
      | none =>
          rw [LineRecord.merge_comm fun _ => texts.verdict, merge_unknown other texts.symm, same]
          rfl
      | some record' => rw [same, (knownLine other).2, Option.merge_some_some]

/-- **The functions of the merged file** are those of the whole. -/
theorem functions_merge (sharded : Sharded hits whole ours theirs) :
    (ours.merge theirs).functions = whole.functions := by
  apply Std.ExtTreeMap.ext_getElem?
  intro id
  rw [FileRecord.functions_merge, sharded.functions]

/-- **The blocks of the merged file** have the marks of the whole, and at least its counts. -/
theorem blocks_merge (sharded : Sharded hits whole ours theirs) (id : BlockId) :
    ((ours.merge theirs).blocks.blocks[id]?).any BlockRecord.executed =
      (whole.blocks.blocks[id]?).any BlockRecord.executed ∧
    (hits < UInt64.size →
      ((whole.blocks.blocks[id]?).map BlockRecord.executionCount).getD 0 ≤
        (((ours.merge theirs).blocks.blocks[id]?).map BlockRecord.executionCount).getD 0) := by
  have bare : ((ours.merge theirs).blocks.blocks[id]?).map BlockRecord.bare =
      ((ours.blocks.blocks[id]?).map BlockRecord.bare).merge BlockRecord.merge
        ((theirs.blocks.blocks[id]?).map BlockRecord.bare) :=
    sharded.settled.1.linked.bare_union sharded.settled.2.linked.filed id
  rw [← BlockRecord.any_executed_bare ((ours.merge theirs).blocks.blocks[id]?),
    ← BlockRecord.map_executionCount_bare ((ours.merge theirs).blocks.blocks[id]?), bare]
  have blocks := sharded.blocks id
  revert blocks
  generalize whole.blocks.blocks[id]? = one
  generalize ours.blocks.blocks[id]? = own
  generalize theirs.blocks.blocks[id]? = other
  intro blocks
  cases blocks with
  | missing => exact ⟨rfl, fun _ => UInt64.le_refl 0⟩
  | stored shares =>
      refine ⟨shares.executed.symm, fun fits => ?_⟩
      obtain ⟨less, few⟩ := shares.bounded fits
      refine UInt64.le_iff_toNat_le.mpr (Nat.le_trans less (Nat.le_of_eq ?_))
      exact (Nat.mod_eq_of_lt (Nat.lt_of_le_of_lt few fits)).symm.trans (UInt64.toNat_add _ _).symm

end Sharded

end FileRecord

/-! ## Stores -/

/-- Which of two workers records a hit. -/
inductive Worker where
  | first
  | second
  deriving DecidableEq, Repr

/-- The hits that a worker records, in order. -/
def Worker.share (worker : Worker) (assigned : List (Worker × HitOperation)) : List HitOperation :=
  (assigned.filter fun entry => entry.1 = worker).map Prod.snd

/-- **Whatever the workers see in turn**, what they have stays related to the whole. -/
theorem FileRecord.Sharded.performAll {hits : Nat} {whole ours theirs : FileRecord}
    (sharded : Sharded hits whole ours theirs)
    (once : ∀ operation, ((whole.index.credits operation).map Credit.block).Nodup)
    (assigned : List (Worker × HitOperation)) :
    Sharded (hits + assigned.length) (whole.performAll (assigned.map Prod.snd))
      (ours.performAll (Worker.first.share assigned))
      (theirs.performAll (Worker.second.share assigned)) := by
  induction assigned generalizing hits whole ours theirs with
  | nil => exact sharded
  | cons entry rest ih =>
      obtain ⟨worker, operation⟩ := entry
      have length : hits + ((worker, operation) :: rest).length = hits + 1 + rest.length := by
        rw [List.length_cons]
        omega
      have later : ∀ operation',
          (((whole.perform operation).index.credits operation').map Credit.block).Nodup := by
        rw [(whole.perform_frame operation).1]
        exact once
      rw [length]
      cases worker with
      | first => exact ih (sharded.perform (once operation)) later
      | second => exact ih (sharded.symm.perform (once operation)).symm later

namespace CoverageStore

/-- **Hits on a file may be recorded in two stores and merged.** The stores register the same
analysis of a file that is new to them. However the hits on the file are shared out between
the two, merging them gives the lines and the functions that a single store would have, and the same
executed blocks. Blocks may count more in the merged store, but not less. -/
theorem merge_performAll (settings : AnalysisSettings) (path source : String)
    {whole ours theirs : CoverageStore}
    (isNew : whole.IsNew path ∧ ours.IsNew path ∧ theirs.IsNew path)
    (assigned : List (Worker × HitOperation)) :
    let analysis := analyze settings source path
    let single := (whole.track path source analysis).performAll path (assigned.map Prod.snd)
    let first := (ours.track path source analysis).performAll path (Worker.first.share assigned)
    let second := (theirs.track path source analysis).performAll path (Worker.second.share assigned)
    ∃ one both, single.files[path]? = some one ∧ (first.merge second).files[path]? = some both ∧
      both.lines = one.lines ∧ both.functions = one.functions ∧
      (∀ id : BlockId, (both.blocks.blocks[id]?).any BlockRecord.executed =
        (one.blocks.blocks[id]?).any BlockRecord.executed) ∧
      (assigned.length < UInt64.size → ∀ id : BlockId,
        ((one.blocks.blocks[id]?).map BlockRecord.executionCount).getD 0 ≤
          ((both.blocks.blocks[id]?).map BlockRecord.executionCount).getD 0) := by
  intro analysis single first second
  obtain ⟨consistent, unrun⟩ := blocks_analyze settings source path
  obtain ⟨file, isFile⟩ : ∃ file, file = ({ path := path } : FileRecord).register source analysis :=
    ⟨_, rfl⟩
  have registered : FileRecord.Registered analysis file :=
    isFile ▸ FileRecord.registered_register path source consistent
  have start : FileRecord.Sharded 0 file file file := .start registered unrun fun function member =>
    ⟨(functions_analyze settings source path member).1,
      (functions_analyze settings source path member).2.1⟩
  -- the blocks of the file have the parents of the analysis, so none is its own parent
  have apart : ∀ id, file.blocks.parentOf id ≠ some id := by
    intro id circle
    rw [BlockTable.parentOf_congr registered.blocks] at circle
    exact consistent.acyclic id ⟨0, (ParentChain.ancestor_one id).trans circle⟩
  have once : ∀ operation, ((file.index.credits operation).map Credit.block).Nodup := by
    rw [registered.index]
    exact FileRecord.nodup_credits registered.settled.linked.filed apart _ _
  have sharded := start.performAll once assigned
  rw [Nat.zero_add] at sharded
  have stored : ∀ {store : CoverageStore}, store.IsNew path → ∀ operations,
      ((store.track path source analysis).performAll path operations).files[path]? =
        some (file.performAll operations) := fun unseen operations =>
    getElem?_performAll (isFile ▸ getElem?_track unseen source analysis) registered.active
      operations
  refine ⟨_, _, stored isNew.1 _, ?merged, sharded.lines_merge, sharded.functions_merge,
    fun id => (sharded.blocks_merge id).1, fun fits id => (sharded.blocks_merge id).2 fits⟩
  case merged =>
    rw [getElem?_files_merge, stored isNew.2.1, stored isNew.2.2]
    rfl

/-- Two workers that each see one hit on an inner line of a block, one of them after it noted the
file: the counts of lines add up as in a single store, but both workers count the block. -/
theorem merge_performAll_inner :
    let path := "/p/a.lua"
    let source := "do\nf()\ng()\nend\n"
    let analysis := analyze ⟨.nonExecutable, 100⟩ source path
    let hit := HitOperation.hit 3 .line
    let alone := CoverageStore.empty.track path source analysis
    let after := (CoverageStore.empty.note path).track path source analysis
    let single := alone.performAll path [hit, hit]
    let merged := (alone.performAll path [hit]).merge (after.performAll path [hit])
    CoverageStore.empty.IsNew path ∧ (CoverageStore.empty.note path).IsNew path ∧
      (∃ one both, single.files[path]? = some one ∧ merged.files[path]? = some both ∧
        both.lines = one.lines ∧ both.functions = one.functions) ∧
      ((single.line? path 3).map LineRecord.executionCount).getD 0 = 2 ∧
      ((single.block? path 1).map BlockRecord.executionCount).getD 0 = 1 ∧
      ((merged.block? path 1).map BlockRecord.executionCount).getD 0 = 2 := by
  intro path source analysis hit alone after single merged
  have isNew : CoverageStore.empty.IsNew path := isNew_of_not_mem Std.ExtTreeMap.not_mem_empty
  obtain ⟨one, both, isOne, isBoth, lines, functions, -⟩ :=
    merge_performAll ⟨.nonExecutable, 100⟩ path source ⟨isNew, isNew, isNew.note⟩
      [(.first, hit), (.second, hit)]
  exact ⟨isNew, isNew.note, ⟨one, both, isOne, isBoth, lines, functions⟩, by decide +kernel,
    by decide +kernel, by decide +kernel⟩

end CoverageStore

end LuaCoverage
