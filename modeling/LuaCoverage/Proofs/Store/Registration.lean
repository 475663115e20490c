import LuaCoverage.Proofs.Analysis.UnrunAnalysis
import LuaCoverage.Store.Basic

/-!
# Files that were just registered

A file that is registered for the first time holds what its analysis says and nothing else: a record
for each line of the source, the first function of each number, and the blocks of the analysis, all
without hits (`FileRecord.Registered`). Its line index leads a call to the function with the least
number among those that start on the line (`FileRecord.functionStarts_eq_some_iff`). In a store a
file is new until it is tracked, even if it was noted (`CoverageStore.IsNew`).
-/

set_option autoImplicit false

namespace LuaCoverage

/-! ## Blocks in a new table -/

namespace BlockTable

/-- Adding blocks that a table does not have is merging them in. -/
theorem Linked.foldl_insert {records : List BlockRecord} {table : BlockTable}
    (declarable : Declarable records) (linked : table.Linked)
    (fresh : ∀ record ∈ records, record.id ∉ table.blocks) :
    records.foldl (fun current record => (current.insert record).1) table =
      records.foldl BlockTable.mergeBlock table := by
  induction records generalizing table with
  | nil => rfl
  | cons first rest ih =>
      obtain ⟨apart, distinct⟩ := List.nodup_cons.mp declarable.distinct
      have notRoot := declarable.noRoot first List.mem_cons_self
      have absent := fresh first List.mem_cons_self
      have merged : table.mergeBlock first = (table.insert first).1 := by
        rw [BlockTable.mergeBlock, if_neg]
        simpa using absent
      rw [List.foldl_cons, List.foldl_cons, merged]
      refine ih ⟨distinct, fun record member => declarable.noRoot record
        (List.mem_cons_of_mem _ member)⟩ (linked.insert notRoot absent)
        fun record member inside => ?_
      rcases (linked.mem_blocks_insert notRoot absent record.id).mp inside with same | old
      · exact apart (List.mem_map.mpr ⟨record, member, same.symm⟩)
      · exact fresh record (List.mem_cons_of_mem _ member) old

/-- The blocks of a consistent table, added to an empty one, make the same table without flags. -/
theorem Consistent.foldl_insert_empty {table : BlockTable} (consistent : table.Consistent) :
    let copy := table.blocks.values.foldl (fun current record => (current.insert record).1) empty
    copy.Settled ∧ copy.bare = table.bare := by
  intro copy
  have filed := consistent.filed
  have isUnion : copy = empty.union table :=
    linked_empty.foldl_insert filed.declarable fun _ _ inside =>
      Std.ExtTreeMap.not_mem_empty inside
  have bare : copy.bare = table.bare := by
    funext id
    rw [isUnion, linked_empty.bare_union filed]
    exact Option.merge_none_left
  refine ⟨⟨isUnion ▸ linked_empty.union filed, fun id parent named => ?_⟩, bare⟩
  rw [parentOf_congr bare] at named
  exact (consistent.parentsExist id parent named).imp_right
    (mem_blocks_congr (profile_congr bare) parent).mpr

/-- A settled table in which all chains of parents lead to the main chunk is consistent. -/
theorem Settled.consistent {table : BlockTable} (settled : table.Settled)
    (hasParent : ∀ id ∈ table.blocks, ∃ parent, table.parentOf id = some parent)
    (acyclic : ∀ id, ¬ ParentChain.OnCircle table.parentOf id) : table.Consistent where
  filed := settled.linked.filed
  hasParent := hasParent
  parentsExist := settled.parentsExist
  aligned := settled.linked.aligned
  acyclic := acyclic
  settled := by
    have nobody (parent : BlockId) : parent ∉ table.pending := fun awaited => by
      obtain ⟨child, waits⟩ := settled.linked.awaited parent awaited
      obtain ⟨named, notRoot, absent⟩ := (settled.linked.waits parent child).mp waits
      exact (settled.parentsExist child parent named).elim notRoot absent
    exact Std.ExtTreeMap.ext_getElem? fun parent => by
      rw [Std.ExtTreeMap.getElem?_eq_none (nobody parent), Std.ExtTreeMap.getElem?_empty]

end BlockTable

/-! ## Files -/

namespace FileRecord

/-- A file that was registered for the first time, and on which nothing was hit. -/
structure Registered (analysis : Analysis) (file : FileRecord) : Prop where
  active : file.active = true
  lines : ∀ line : Nat, file.lines[line]? =
    (analysis.classification? line).map LineRecord.ofClassification
  functions : ∀ id : Nat, file.functions[id]? =
    analysis.functions.find? fun function => function.id == id
  settled : file.blocks.Settled
  blocks : file.blocks.bare = analysis.blocks.bare
  index : file.index = .build file.lines file.blocks file.functions

/-- **Registering a file** that was not analyzed adds the lines of the analysis that it lacks. -/
theorem getElem?_lines_register {file : FileRecord} (source : String) (analysis : Analysis)
    (unanalyzed : (file.active && file.isAnalyzed) = false) (line : Nat) :
    (file.register source analysis).lines[line]? =
      (file.lines[line]?).or
        ((analysis.classification? line).map LineRecord.ofClassification) := by
  have found : ((analysis.lines.zipIdx 1).find? fun entry => entry.2 == line).map Prod.fst =
      analysis.classification? line := by
    rw [find?_zipIdx, Analysis.classification?]
    cases line with
    | zero => rfl
    | succ line => simp
  rw [register, if_neg (by rw [unanalyzed]; exact Bool.false_ne_true)]
  show ((analysis.lines.zipIdx 1).foldl (fun known entry =>
    known.insertIfNew entry.2 (LineRecord.ofClassification entry.1)) file.lines :
      LineMap LineRecord)[line]? = _
  rw [getElem?_foldl_insertIfNew, ← found, Option.map_map]
  rfl

/-- **Registering a file for the first time.** -/
theorem registered_register (path source : String) {analysis : Analysis}
    (consistent : analysis.blocks.Consistent) :
    Registered analysis (({ path := path } : FileRecord).register source analysis) := by
  obtain ⟨settled, blocks⟩ := consistent.foldl_insert_empty
  have lines : ∀ line,
      (({ path := path } : FileRecord).register source analysis).lines[line]? = _ :=
    getElem?_lines_register source analysis rfl
  rw [register, if_neg (show ¬ (({ path := path } : FileRecord).active &&
    ({ path := path } : FileRecord).isAnalyzed) = true from Bool.false_ne_true)] at lines ⊢
  refine ⟨rfl, fun line => ?lines, ?functions, settled, blocks, rfl⟩
  case lines => rw [lines, Std.ExtTreeMap.getElem?_empty, Option.none_or]
  case functions =>
    intro id
    show (analysis.functions.foldl (fun known function =>
      known.insertIfNew function.id function) (∅ : Std.ExtTreeMap Nat FunctionRecord))[id]? = _
    rw [getElem?_foldl_insertIfNew, Std.ExtTreeMap.getElem?_empty, Option.none_or, Option.map_id']

/-- The blocks of a file that was just registered are in order. -/
theorem Registered.consistent {analysis : Analysis} {file : FileRecord}
    (registered : Registered analysis file) (consistent : analysis.blocks.Consistent) :
    file.blocks.Consistent := by
  have parents : file.blocks.parentOf = analysis.blocks.parentOf :=
    BlockTable.parentOf_congr registered.blocks
  have present := BlockTable.mem_blocks_congr (BlockTable.profile_congr registered.blocks)
  refine registered.settled.consistent (fun id member => ?_) fun id => ?_
  · rw [parents]
    exact consistent.hasParent id ((present id).mp member)
  · rw [parents]
    exact consistent.acyclic id

/-! ## Where functions start -/

/-- Every function is filed under its own number. -/
def FunctionsFiled (file : FileRecord) : Prop :=
  ∀ (id : Nat) (function : FunctionRecord), file.functions[id]? = some function → function.id = id

theorem Registered.functionsFiled {analysis : Analysis} {file : FileRecord}
    (registered : Registered analysis file) : file.FunctionsFiled := by
  intro id function found
  rw [registered.functions] at found
  simpa using List.find?_some found

/-- A function that starts on a line, and has the least number of those that do. -/
def LeadsTo (file : FileRecord) (line id : Nat) : Prop :=
  (∃ function, file.functions[id]? = some function ∧ function.startLine = line) ∧
    ∀ (other : Nat) (function : FunctionRecord), file.functions[other]? = some function →
      function.startLine = line → id ≤ other

end FileRecord

/-- The index of functions knows the first of those that start on a line. -/
theorem LineIndex.functionStarts_getElem? (functions : List FunctionRecord) (line : Nat) :
    (functionStarts functions)[line]? =
      (functions.find? fun function => function.startLine == line).map FunctionRecord.id := by
  rw [functionStarts, getElem?_foldl_insertIfNew, Std.ExtTreeMap.getElem?_empty, Option.none_or]

namespace FileRecord

/-- Blocks do not change which function a call is led to. -/
theorem functionAt_build (lines : LineMap LineRecord) (table : BlockTable)
    (functions : Std.ExtTreeMap Nat FunctionRecord) :
    (LineIndex.build lines table functions).functionAt =
      LineIndex.functionStarts functions.values := by
  show (List.foldl _ _ _ : LineIndex).functionAt = _
  refine List.foldlRecOn
    (motive := fun index : LineIndex =>
      index.functionAt = LineIndex.functionStarts functions.values)
    _ _ rfl ?_
  intro index same block _
  rw [← same, LineIndex.addBlock]
  repeat' split
  all_goals rfl

/-- **A call on a line is led to the function with the least number** among those that start
there. -/
theorem functionStarts_eq_some_iff {file : FileRecord} (filed : file.FunctionsFiled)
    {line id : Nat} :
    (LineIndex.functionStarts file.functions.values)[line]? = some id ↔ file.LeadsTo line id := by
  have isEntry : ∀ {key : Nat} {function : FunctionRecord},
      (key, function) ∈ file.functions.toList ↔ file.functions[key]? = some function :=
    Std.ExtTreeMap.mem_toList_iff_getElem?_eq_some
  -- the functions are listed by their numbers, so the first that starts on the line is the least
  have leads : ∀ {found : Nat × FunctionRecord},
      file.functions.toList.find? (fun entry => entry.2.startLine == line) = some found →
        file.LeadsTo line found.1 ∧ found.2.id = found.1 := by
    rintro ⟨key, function⟩ found
    obtain ⟨starts, before, after, split, earlier⟩ := List.find?_eq_some_iff_append.mp found
    have stored := isEntry.mp (List.mem_of_find?_eq_some found)
    refine ⟨⟨⟨function, stored, by simpa using starts⟩, fun other function' stored' starts' => ?_⟩,
      filed key function stored⟩
    have sorted := file.functions.ordered_keys_toList
    have member := isEntry.mpr stored'
    rw [split] at sorted member
    rcases List.mem_append.mp member with early | late
    · have differs := earlier _ early
      rw [starts', beq_self_eq_true] at differs
      cases differs
    · rcases List.mem_cons.mp late with same | later
      · exact Nat.le_of_eq (Prod.mk.inj same).1.symm
      · have less := (List.pairwise_cons.mp (List.pairwise_append.mp sorted).2.1).1 _ later
        exact Nat.le_of_lt (Nat.compare_eq_lt.mp less)
  rw [LineIndex.functionStarts_getElem?, values_eq_map_toList, List.find?_map, Option.map_map]
  constructor
  · intro isFound
    obtain ⟨found, first, rfl⟩ := Option.map_eq_some_iff.mp isFound
    obtain ⟨least, own⟩ := leads first
    rw [Function.comp_apply, own]
    exact least
  · rintro ⟨⟨function, stored, starts⟩, least⟩
    obtain ⟨found, first⟩ : ∃ found, file.functions.toList.find?
        (fun entry => entry.2.startLine == line) = some found :=
      Option.isSome_iff_exists.mp
        (List.find?_isSome.mpr ⟨(id, function), isEntry.mpr stored, by simpa using starts⟩)
    obtain ⟨⟨⟨function', stored', starts'⟩, least'⟩, own⟩ := leads first
    refine Option.map_eq_some_iff.mpr ⟨found, first, own.trans ?_⟩
    exact Nat.le_antisymm (least' id function stored starts) (least _ function' stored' starts')

end FileRecord

namespace CoverageStore

/-- A file that a store has no record of, or only knows to exist. -/
def IsNew (store : CoverageStore) (path : String) : Prop :=
  store.fileOrEmpty path = { path := path }

theorem isNew_of_not_mem {store : CoverageStore} {path : String} (absent : path ∉ store.files) :
    store.IsNew path := by
  rw [IsNew, fileOrEmpty, Std.ExtTreeMap.getElem?_eq_none absent, Option.getD_none]

/-- Noting that a file exists leaves it new. -/
theorem IsNew.note {store : CoverageStore} {path : String} (isNew : store.IsNew path) :
    (store.note path).IsNew path := by
  have noted : (store.note path).files[path]? = some (store.fileOrEmpty path) :=
    Std.ExtTreeMap.getElem?_insert_self
  rw [IsNew, fileOrEmpty, noted, Option.getD_some]
  exact isNew

/-- The record of a file that is tracked for the first time. -/
theorem getElem?_track {store : CoverageStore} {path : String} (isNew : store.IsNew path)
    (source : String) (analysis : Analysis) :
    (store.track path source analysis).files[path]? =
      some (({ path := path } : FileRecord).register source analysis) := by
  rw [track, put, Std.ExtTreeMap.getElem?_insert_self, isNew]

end CoverageStore

end LuaCoverage
