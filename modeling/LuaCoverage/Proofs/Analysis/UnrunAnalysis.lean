import LuaCoverage.Proofs.Analysis.MarkedLines
import LuaCoverage.Proofs.Block.Union

/-!
# What an analysis starts with

An analysis is made without running the source, so nothing that it lists carries a hit, and its
block table needs no repair. The outline lists blocks and functions without hits (`Outline.From`);
adding blocks to a table and repairing it changes relations, but neither numbers nor hits
(`BlockTable.Unrun`). Functions start on lines of the source, which are numbered from one, and a
line can run exactly if its classification says so.
-/

set_option autoImplicit false

namespace LuaCoverage

/-! ## Tables in which nothing has run -/

namespace BlockTable

/-- Every block is filed under its own number, and none has run. -/
structure Unrun (table : BlockTable) : Prop where
  filed : table.Filed
  idle : ∀ (id : BlockId) (record : BlockRecord), table.blocks[id]? = some record →
    record.executed = false ∧ record.executionCount = 0

/-- Filing can be read off what the records say besides their relations. -/
theorem filed_iff_profile {table : BlockTable} :
    table.Filed ↔ ∀ (id : BlockId) (record : BlockRecord), table.profile id = some record →
      record.id = id ∧ id ≠ BlockId.root := by
  constructor
  · intro filed id record found
    obtain ⟨stored, isStored, rfl⟩ := Option.map_eq_some_iff.mp found
    refine ⟨filed.own id stored isStored, ?_⟩
    rintro rfl
    exact filed.noRoot (mem_map_iff.mpr ⟨stored, isStored⟩)
  · intro profiles
    have parts : ∀ (id : BlockId) (record : BlockRecord), table.blocks[id]? = some record →
        record.id = id ∧ id ≠ BlockId.root := by
      intro id record stored
      exact profiles id record.profile (by rw [profile, stored]; rfl)
    refine ⟨fun id record stored => (parts id record stored).1, fun inside => ?_⟩
    obtain ⟨record, stored⟩ := mem_map_iff.mp inside
    exact (parts _ record stored).2 rfl

theorem unrun_iff_profile {table : BlockTable} :
    table.Unrun ↔ ∀ (id : BlockId) (record : BlockRecord), table.profile id = some record →
      record.id = id ∧ id ≠ BlockId.root ∧ record.executed = false ∧ record.executionCount = 0 := by
  constructor
  · rintro ⟨filed, idle⟩ id record found
    obtain ⟨own, notRoot⟩ := filed_iff_profile.mp filed id record found
    obtain ⟨stored, isStored, rfl⟩ := Option.map_eq_some_iff.mp found
    exact ⟨own, notRoot, idle id stored isStored⟩
  · intro profiles
    refine ⟨filed_iff_profile.mpr fun id record found => ?_, fun id record stored => ?_⟩
    · exact ⟨(profiles id record found).1, (profiles id record found).2.1⟩
    · exact (profiles id record.profile (by rw [profile, stored]; rfl)).2.2

theorem unrun_empty : Unrun empty := unrun_iff_profile.mpr fun _ _ none => nomatch none

theorem Unrun.of_profile {before after : BlockTable} (unrun : before.Unrun)
    (same : after.profile = before.profile) : after.Unrun := by
  rw [unrun_iff_profile, same]
  exact unrun_iff_profile.mp unrun

/-- A renewed description says nothing about hits. -/
theorem profile_refresh {table : BlockTable} {existing renewed found : BlockRecord} {id : BlockId}
    (isFound : (table.refresh existing renewed).profile id = some found) :
    ∃ old, table.profile id = some old ∧ found.id = old.id ∧ found.executed = old.executed ∧
      found.executionCount = old.executionCount := by
  have described : ∀ found, (table.modifyBlock renewed.id fun record =>
      { record with
        kind := renewed.kind
        branch := renewed.branch
        startLine := renewed.startLine
        endLine := renewed.endLine }).profile id = some found →
      ∃ old, table.profile id = some old ∧ found.id = old.id ∧ found.executed = old.executed ∧
        found.executionCount = old.executionCount := by
    intro found isFound
    simp only [profile, modifyBlock, Std.ExtTreeMap.getElem?_modify,
      Std.LawfulEqCmp.compare_eq_iff_eq] at isFound ⊢
    split at isFound
    · rename_i same
      rw [same, Option.map_map] at isFound
      obtain ⟨old, stored, rfl⟩ := Option.map_eq_some_iff.mp isFound
      exact ⟨old.profile, by rw [stored]; rfl, rfl, rfl, rfl⟩
    · exact ⟨found, isFound, rfl, rfl, rfl⟩
  unfold refresh at isFound
  simp only at isFound
  split at isFound
  · rw [profile_setParent] at isFound
    exact described found isFound
  · exact described found isFound

/-- What a table says of a block after a block was added: it is the new one, or the table had it
before. -/
theorem profile_insert_cases {table : BlockTable} {record found : BlockRecord} {id : BlockId}
    (isFound : (table.insert record).1.profile id = some found) :
    (record.id = id ∧ id ≠ BlockId.root ∧ found = record.profile) ∨
      ∃ old, table.profile id = some old ∧ found.id = old.id ∧ found.executed = old.executed ∧
        found.executionCount = old.executionCount := by
  by_cases isRoot : record.id = BlockId.root
  · have same : table.insert record = (table, 0) := by
      rw [BlockTable.insert, isRoot]
      rfl
    rw [same] at isFound
    exact .inr ⟨found, isFound, rfl, rfl, rfl⟩
  by_cases inside : record.id ∈ table.blocks
  · obtain ⟨existing, stored⟩ := mem_map_iff.mp inside
    have refreshed : table.insert record = (table.refresh existing record, 0) := by
      unfold BlockTable.insert
      rw [if_neg, stored]
      simpa [BlockId.isRoot] using isRoot
    rw [refreshed] at isFound
    exact .inr (profile_refresh isFound)
  · rw [profile_eq_map_bare, bare_insert isRoot inside] at isFound
    have kept : (if record.id = id then some record.bare else table.bare id).map
        BlockRecord.profile = some found := by
      simp only at isFound
      split at isFound
      · rw [Option.map_map] at isFound
        exact isFound
      · exact isFound
    split at kept
    · rename_i same
      exact .inl ⟨same, same ▸ isRoot, (Option.some.inj kept).symm⟩
    · rw [← profile_eq_map_bare] at kept
      exact .inr ⟨found, kept, rfl, rfl, rfl⟩

/-- **Adding a block** files it under its own number. -/
theorem Filed.insert {table : BlockTable} (filed : table.Filed) (record : BlockRecord) :
    (table.insert record).1.Filed := by
  rw [filed_iff_profile] at filed ⊢
  intro id found isFound
  rcases profile_insert_cases isFound with ⟨own, notRoot, rfl⟩ | ⟨old, isOld, own, -⟩
  · exact ⟨own, notRoot⟩
  · rw [own]
    exact filed id old isOld

/-- **Adding a block that has not run** leaves a table in which nothing has run. -/
theorem Unrun.insert {table : BlockTable} (unrun : table.Unrun) {record : BlockRecord}
    (idle : record.executed = false ∧ record.executionCount = 0) :
    (table.insert record).1.Unrun := by
  rw [unrun_iff_profile] at unrun ⊢
  intro id found isFound
  rcases profile_insert_cases isFound with
    ⟨own, notRoot, rfl⟩ | ⟨old, isOld, own, executed, count⟩
  · exact ⟨own, notRoot, idle⟩
  · rw [own, executed, count]
    exact unrun id old isOld

/-- A repair changes relations only. -/
theorem Unrun.resolve {table : BlockTable} (unrun : table.Unrun) : table.resolve.1.Unrun :=
  unrun.of_profile (profile_resolve _)

end BlockTable

/-- A table that is made of blocks that have not run. -/
theorem unrun_tableOf {blocks : List BlockRecord}
    (idle : ∀ block ∈ blocks, block.executed = false ∧ block.executionCount = 0) :
    (Analysis.tableOf blocks).1.Unrun := by
  unfold Analysis.tableOf
  refine List.foldlRecOn (motive := fun progress : BlockTable × Nat => progress.1.Unrun) _ _
    BlockTable.unrun_empty ?_
  intro progress unrun block member
  exact unrun.insert (idle block member)

/-! ## Analyses -/

section Analyze

variable (settings : AnalysisSettings) (source fileId : String)

/-- An analysis has a syntax tree that was parsed, or neither blocks nor functions. -/
theorem analyze_cases :
    (∃ tree, Syntax.parse? source = some tree ∧
      analyze settings source fileId = .ofTree settings source fileId tree) ∨
    ∃ reason, analyze settings source fileId = .withoutTree settings source fileId reason := by
  unfold analyze
  split
  · exact .inr ⟨_, rfl⟩
  · cases isParsed : Syntax.parse? source with
    | none => exact .inr ⟨_, rfl⟩
    | some tree => exact .inl ⟨tree, rfl, rfl⟩

/-- **The block table of an analysis needs no repair**, and nothing in it has run. -/
theorem blocks_analyze : (analyze settings source fileId).blocks.Consistent ∧
    (analyze settings source fileId).blocks.Unrun := by
  rcases analyze_cases settings source fileId with ⟨tree, isParsed, same⟩ | ⟨reason, same⟩
  · have unrun := unrun_tableOf fun block member => (from_ofTree isParsed).blocks block member
    rw [same, ofTree_blocks]
    exact ⟨BlockTable.consistent_resolve unrun.filed, unrun.resolve⟩
  · rw [same]
    exact ⟨BlockTable.consistent_empty, BlockTable.unrun_empty⟩

/-- **No function of an analysis was called yet**, and all start on lines of the source. -/
theorem functions_analyze {function : FunctionRecord}
    (member : function ∈ (analyze settings source fileId).functions) :
    function.executed = false ∧ function.executionCount = 0 ∧ 0 < function.startLine := by
  rcases analyze_cases settings source fileId with ⟨tree, isParsed, same⟩ | ⟨reason, same⟩
  · rw [same, ofTree_functions] at member
    obtain ⟨executed, count, node, placed, starts⟩ :=
      (from_ofTree isParsed).functions function member
    refine ⟨executed, count, ?_⟩
    obtain ⟨before, text, after, -, -, span⟩ := placed.located
    rw [starts, Syntax.Node.firstLine, span]
    exact Nat.lt_of_lt_of_le Nat.zero_lt_one (Syntax.Position.start.line_le_advance before)
  · rw [same] at member
    exact absurd member List.not_mem_nil

/-- The classification of a line stands at its place. -/
theorem Analysis.classification?_eq_some {analysis : Analysis} {line : Nat}
    {verdict : Classification} :
    analysis.classification? line = some verdict ↔ (verdict, line) ∈ analysis.lines.zipIdx 1 := by
  rw [List.mk_mem_zipIdx_iff_le_and_getElem?_sub, Analysis.classification?]
  cases line with
  | zero => simp
  | succ line => simp

/-- The lines of an analysis are numbered from one. -/
theorem Analysis.exists_classification?_iff {analysis : Analysis} {line : Nat} :
    (∃ verdict, analysis.classification? line = some verdict) ↔
      1 ≤ line ∧ line ≤ analysis.lines.length := by
  rw [Analysis.classification?]
  cases line with
  | zero =>
      simp only [if_pos, reduceCtorEq, exists_false, false_iff]
      omega
  | succ line =>
      rw [if_neg (Nat.succ_ne_zero line), Nat.add_sub_cancel, ← Option.isSome_iff_exists,
        isSome_getElem?]
      omega

/-- **Every line of the source is classified**, and no other. -/
theorem length_lines_analyze :
    (analyze settings source fileId).lines.length = (Text.lines source).length := by
  have fromLine : ∀ (lines : List String) (context : OpenText),
      (classifyFrom settings.policy context lines).length = lines.length := by
    intro lines
    induction lines with
    | nil => exact fun _ => rfl
    | cons line rest ih => exact fun context => congrArg (· + 1) (ih _)
  have classified : ∀ lines : List String,
      (classifyText settings.policy lines).length = lines.length := by
    rintro (_ | ⟨first, rest⟩)
    · rfl
    · rw [classifyText]
      split
      · exact congrArg (· + 1) (fromLine rest _)
      · exact fromLine (first :: rest) _
  rcases analyze_cases settings source fileId with ⟨tree, -, same⟩ | ⟨reason, same⟩
  · rw [same, ofTree_lines, Analysis.overlay, List.length_map, List.length_zipIdx, classified]
  · rw [same]
    exact classified _

/-- **A line can run if its classification says so.** -/
theorem isExecutable_analyze {line : Nat} :
    (analyze settings source fileId).isExecutable line = true ↔
      ∃ verdict, (analyze settings source fileId).classification? line = some verdict ∧
        verdict.executable = true := by
  have executable : (analyze settings source fileId).executable =
      Analysis.executableLines (analyze settings source fileId).lines := by
    rcases analyze_cases settings source fileId with ⟨tree, -, same⟩ | ⟨reason, same⟩
    · rw [same, ofTree_executable]
    · rw [same]
      rfl
  rw [Analysis.isExecutable, executable, Std.ExtTreeSet.contains_iff_mem,
    Analysis.mem_executableLines_iff]
  simp only [Analysis.classification?_eq_some]

end Analyze

end LuaCoverage
