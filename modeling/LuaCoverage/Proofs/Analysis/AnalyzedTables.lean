import LuaCoverage.Proofs.Analysis.OutlineLayout
import LuaCoverage.Proofs.Analysis.SiteRecords
import LuaCoverage.Proofs.Analysis.UnrunAnalysis
import LuaCoverage.Proofs.Block.Enclosing
import LuaCoverage.Proofs.Store.IndexFreshness
import LuaCoverage.Proofs.Store.IndexTables

/-!
# Blocks and functions of an analyzed source

What the layout of an outline says about the tables that are made from it. A block lies on the lines
of every block around it, and has a greater number (`nests_of_described`). The functions of a source
and the blocks of its functions are numbered in one pass, so in the order of their numbers they
belong together: the first function with the first block of a function, and so on
(`Outline.Layout.exists_paired`, `paired_of_described`).

Both are said of any table with the descriptions of an analysis, because hits change nothing else.
-/

set_option autoImplicit false

namespace LuaCoverage

namespace Outline

open Syntax

/-! ## Blocks inside blocks -/

/-- **Each block of an outline lies on the lines of its parent**, unless that is the main chunk. -/
theorem nested_of_parse {source : String} {tree : Syntax.Node}
    (parsed : Syntax.parse? source = some tree) {block parent : BlockRecord}
    (member : block ∈ (ofTree source tree).blocks) (member' : parent ∈ (ofTree source tree).blocks)
    (hangs : block.parentId = some parent.id) :
    parent.startLine ≤ block.startLine ∧ block.endLine ≤ parent.endLine := by
  have declarable := declarable_of_parse parsed
  obtain ⟨high, final, layout⟩ := layout_of_parse parsed
  obtain ⟨scope, known, hangs', nests⟩ := layout.exists_scope block member
  have same : scope.id = parent.id := Option.some.inj (hangs'.symm.trans hangs)
  rcases known with isRoot | ⟨other, isOther, rfl⟩
  · exact absurd (same.symm.trans isRoot) (declarable.noRoot parent member')
  · obtain rfl := List.inj_on_of_nodup_map declarable.distinct isOther member' same
    exact nests

/-! ## Functions and their blocks -/

/-- The functions of part of an outline, each with a block of a function: all of them, in the order
of both numbers, and on the same lines. -/
structure Paired (counters : Counters) (outline : Outline) (final : Counters)
    (pairs : List (FunctionRecord × BlockRecord)) : Prop where
  functions : pairs.map Prod.fst = outline.functions
  blocks : ∀ block : BlockRecord, (∃ pair ∈ pairs, pair.2 = block) ↔
    block ∈ outline.blocks ∧ block.kind = .function
  ascending : pairs.Pairwise fun first second =>
    first.1.id < second.1.id ∧ first.2.id < second.2.id
  blockRange : ∀ pair ∈ pairs, counters.nextBlock ≤ pair.2.id ∧ pair.2.id < final.nextBlock
  functionRange : ∀ pair ∈ pairs,
    counters.nextFunction ≤ pair.1.id ∧ pair.1.id < final.nextFunction
  lines : ∀ pair ∈ pairs,
    pair.1.startLine = pair.2.startLine ∧ pair.1.endLine = pair.2.endLine

namespace Paired

variable {counters between final : Counters} {outline outline' : Outline}
  {pairs pairs' : List (FunctionRecord × BlockRecord)}

theorem nil (functions : outline.functions = [])
    (blocks : ∀ block ∈ outline.blocks, block.kind ≠ .function) :
    Paired counters outline final [] where
  functions := functions.symm
  blocks block := iff_of_false (fun ⟨_, absent, _⟩ => List.not_mem_nil absent)
    fun ⟨member, isFunction⟩ => blocks block member isFunction
  ascending := .nil
  blockRange _ absent := absurd absent List.not_mem_nil
  functionRange _ absent := absurd absent List.not_mem_nil
  lines _ absent := absurd absent List.not_mem_nil

/-- Nothing else of an outline matters. -/
theorem congr (paired : Paired counters outline final pairs)
    (functions : outline'.functions = outline.functions)
    (blocks : outline'.blocks = outline.blocks) : Paired counters outline' final pairs where
  functions := paired.functions.trans functions.symm
  blocks block := blocks ▸ paired.blocks block
  ascending := paired.ascending
  blockRange := paired.blockRange
  functionRange := paired.functionRange
  lines := paired.lines

theorem append (first : Paired counters outline between pairs)
    (later : Paired between outline' final pairs')
    (early : counters.nextBlock ≤ between.nextBlock ∧ counters.nextFunction ≤ between.nextFunction)
    (late : between.nextBlock ≤ final.nextBlock ∧ between.nextFunction ≤ final.nextFunction) :
    Paired counters (outline.append outline') final (pairs ++ pairs') where
  functions := by
    rw [List.map_append, first.functions, later.functions]
    rfl
  blocks block := by
    have split := (first.blocks block).or (later.blocks block)
    rw [← or_and_right, ← List.mem_append] at split
    refine Iff.trans ⟨?_, ?_⟩ split
    · rintro ⟨pair, member, same⟩
      exact (List.mem_append.mp member).imp (fun member => ⟨pair, member, same⟩)
        fun member => ⟨pair, member, same⟩
    · rintro (⟨pair, member, same⟩ | ⟨pair, member, same⟩)
      · exact ⟨pair, List.mem_append_left _ member, same⟩
      · exact ⟨pair, List.mem_append_right _ member, same⟩
  ascending := List.pairwise_append.mpr ⟨first.ascending, later.ascending,
    fun pair member pair' member' =>
      ⟨Nat.lt_of_lt_of_le (first.functionRange pair member).2
          (later.functionRange pair' member').1,
        Nat.lt_of_lt_of_le (first.blockRange pair member).2 (later.blockRange pair' member').1⟩⟩
  blockRange pair member := by
    rcases List.mem_append.mp member with inFirst | inLater
    · exact (first.blockRange pair inFirst).imp_right fun less => Nat.lt_of_lt_of_le less late.1
    · exact (later.blockRange pair inLater).imp_left (Nat.le_trans early.1)
  functionRange pair member := by
    rcases List.mem_append.mp member with inFirst | inLater
    · exact (first.functionRange pair inFirst).imp_right fun less => Nat.lt_of_lt_of_le less late.2
    · exact (later.functionRange pair inLater).imp_left (Nat.le_trans early.2)
  lines pair member :=
    (List.mem_append.mp member).elim (first.lines pair) (later.lines pair)

end Paired

/-- **A walk numbers functions and their blocks in the same order.** -/
theorem Layout.exists_paired {scopes : Scope → Prop} {low high : Nat} {counters final : Counters}
    {outline : Outline} (layout : Layout scopes low high counters outline final) :
    ∃ pairs, Paired counters outline final pairs := by
  induction layout with
  | aside blocks functions statements conditions lines =>
      exact ⟨[], .nil functions fun block member => absurd (blocks ▸ member) List.not_mem_nil⟩
  | andThen first later ih ih' =>
      obtain ⟨pairs, paired⟩ := ih
      obtain ⟨pairs', paired'⟩ := ih'
      exact ⟨pairs ++ pairs', paired.append paired' first.counters_le later.counters_le⟩
  | within inside starts ends ih => exact ih
  | statement byte known nests inside ih =>
      obtain ⟨pairs, paired⟩ := ih
      exact ⟨pairs, paired.congr rfl rfl⟩
  | condition byte endByte known nests starts ends inside apart ih =>
      obtain ⟨pairs, paired⟩ := ih
      exact ⟨pairs, paired.congr rfl rfl⟩
  | @block scopes low middle last high counters between final outline outline' scope kind branch
      plain known starts lines ends reach bound inside later ih ih' =>
      obtain ⟨pairs, paired⟩ := ih
      obtain ⟨pairs', paired'⟩ := ih'
      let own := blockOf counters.nextBlock kind branch scope.id low last
      have none : Paired between own between [] := .nil rfl fun block member => by
        obtain rfl := List.mem_singleton.mp member
        exact plain
      have all := (paired.append none inside.counters_le ⟨Nat.le_refl _, Nat.le_refl _⟩).append
        paired' inside.counters_le later.counters_le
      rw [List.append_nil] at all
      refine ⟨pairs ++ pairs', { all with blockRange := fun pair member => ?_ }⟩
      exact (all.blockRange pair member).imp_left Nat.le_of_succ_le
  | @function scopes low high counters final outline scope name kind bodies known starts lines ends
      inside ih =>
      obtain ⟨pairs, paired⟩ := ih
      let function : FunctionRecord := ⟨counters.nextFunction, name, kind, low, high, false, 0⟩
      let own := BlockRecord.fresh counters.nextBlock .function none scope.id low high
      have opened := inside.counters_le
      refine ⟨(function, own) :: pairs, ?_, fun block => ?_, ?_, ?_, ?_, ?_⟩
      · rw [List.map_cons, paired.functions]
        exact (List.append_nil _).symm
      · rw [List.exists_mem_cons_iff, paired.blocks block]
        show own = block ∨ _ ↔ block ∈ outline.blocks ++ [own] ∧ block.kind = .function
        rw [List.mem_append, List.mem_singleton, or_and_right, or_comm]
        refine or_congr_right ⟨fun same => ⟨same.symm, same ▸ rfl⟩, fun isOwn => isOwn.1.symm⟩
      · exact List.pairwise_cons.mpr ⟨fun pair member =>
          ⟨(paired.functionRange pair member).1, (paired.blockRange pair member).1⟩,
          paired.ascending⟩
      · refine List.forall_mem_cons.mpr ⟨⟨Nat.le_refl _, opened.1⟩, fun pair member => ?_⟩
        exact (paired.blockRange pair member).imp_left Nat.le_of_succ_le
      · refine List.forall_mem_cons.mpr ⟨⟨Nat.le_refl _, opened.2⟩, fun pair member => ?_⟩
        exact (paired.functionRange pair member).imp_left Nat.le_of_succ_le
      · exact List.forall_mem_cons.mpr ⟨⟨rfl, rfl⟩, paired.lines⟩

end Outline

/-! ## Tables with the descriptions of an analysis -/

/-- The records of a table with the descriptions of an analysis. -/
theorem map_description_of_described {settings : AnalysisSettings} {source fileId : String}
    {tree : Syntax.Node} (parsed : Syntax.parse? source = some tree) {table : BlockTable}
    (same : table.described = (Analysis.ofTree settings source fileId tree).blocks.described)
    (id : BlockId) : (table.blocks[id]?).map BlockRecord.description =
      (declaredBlock (Outline.ofTree source tree).blocks id).map BlockRecord.description := by
  have described := congrArg (fun table : BlockTable => table.blocks[id]?) same
  simp only [BlockTable.getElem?_described] at described
  have bare := congrArg (Option.map BlockRecord.description) (bare_ofTree parsed settings fileId id)
  rw [BlockTable.bare, Option.map_map, Option.map_map] at bare
  exact described.trans bare

theorem exists_declared_of_described {settings : AnalysisSettings} {source fileId : String}
    {tree : Syntax.Node} (parsed : Syntax.parse? source = some tree) {table : BlockTable}
    (same : table.described = (Analysis.ofTree settings source fileId tree).blocks.described)
    {id : BlockId} {block : BlockRecord} (stored : table.blocks[id]? = some block) :
    ∃ declared ∈ (Outline.ofTree source tree).blocks, declared.id = id ∧
      declared.description = block.description := by
  have described := map_description_of_described parsed same id
  rw [stored, Option.map_some] at described
  obtain ⟨declared, found, alike⟩ := Option.map_eq_some_iff.mp described.symm
  obtain ⟨listed, isId⟩ :=
    (declaredBlock_eq_some (Outline.declarable_of_parse parsed)).mp found
  exact ⟨declared, listed, isId, alike⟩

/-- **What an analysis puts below a block** has a greater number and lies on its lines. -/
theorem nests_of_described {settings : AnalysisSettings} {source fileId : String}
    {table : BlockTable}
    (same : table.described = (analyze settings source fileId).blocks.described)
    {outer inner : BlockRecord} (stored : table.blocks[outer.id]? = some outer)
    {id : BlockId} (encloses : table.Encloses outer.id id)
    (stored' : table.blocks[id]? = some inner) :
    outer.id < id ∧ outer.startLine ≤ inner.startLine ∧ inner.endLine ≤ outer.endLine := by
  rcases analyze_cases settings source fileId with ⟨tree, parsed, isAnalysis⟩ | ⟨_, isAnalysis⟩
  · rw [isAnalysis] at same
    have step {id parent : BlockId} {block above : BlockRecord}
        (stored : table.blocks[id]? = some block) (hangs : table.parentOf id = some parent)
        (stored' : table.blocks[parent]? = some above) :
        parent < id ∧ above.startLine ≤ block.startLine ∧ block.endLine ≤ above.endLine := by
      obtain ⟨own, listed, rfl, alike⟩ := exists_declared_of_described parsed same stored
      obtain ⟨other, listed', rfl, alike'⟩ := exists_declared_of_described parsed same stored'
      rw [BlockTable.parentOf_of_getElem? stored] at hangs
      have field {α : Type} (part : BlockRecord → α) {one two : BlockRecord}
          (alike : one.description = two.description) :
          part one.description = part two.description := congrArg part alike
      have hangs' : own.parentId = some other.id :=
        (field BlockRecord.parentId alike).trans hangs
      obtain ⟨parent, isParent, less, -⟩ := Outline.exists_parent_of_parse parsed listed
      obtain rfl := Option.some.inj (hangs'.symm.trans isParent)
      obtain ⟨starts, ends⟩ := Outline.nested_of_parse parsed listed listed' hangs'
      have begins : own.startLine = block.startLine := field BlockRecord.startLine alike
      have begins' : other.startLine = above.startLine := field BlockRecord.startLine alike'
      have stops : own.endLine = block.endLine := field BlockRecord.endLine alike
      have stops' : other.endLine = above.endLine := field BlockRecord.endLine alike'
      exact ⟨less, begins ▸ begins' ▸ starts, stops ▸ stops' ▸ ends⟩
    induction encloses generalizing inner with
    | parent hangs => exact step stored' hangs stored
    | above hangs around ih =>
        obtain ⟨between, isBetween⟩ := mem_map_iff.mp around.mem_blocks
        obtain ⟨less, starts, ends⟩ := ih isBetween
        obtain ⟨less', starts', ends'⟩ := step stored' hangs isBetween
        exact ⟨Nat.lt_trans less less', Nat.le_trans starts starts', Nat.le_trans ends' ends⟩
  · rw [isAnalysis] at same
    have described := congrArg (fun table : BlockTable => table.blocks[id]?) same
    simp only [BlockTable.getElem?_described, stored', Option.map_some] at described
    cases described

/-- Two lists that ascend in the same numbers and have the same members are equal. -/
theorem eq_of_ascending {α : Type} {number : α → Nat} {first second : List α}
    (ascending : first.Pairwise fun one other => number one < number other)
    (ascending' : second.Pairwise fun one other => number one < number other)
    (same : ∀ item, item ∈ first ↔ item ∈ second) : first = second := by
  have : Std.Antisymm fun one other : α => number one < number other :=
    ⟨fun _ _ less less' => absurd less' (Nat.lt_asymm less)⟩
  have : Std.Irrefl fun one other : α => number one < number other :=
    ⟨fun _ => Nat.lt_irrefl _⟩
  exact ascending.eq_of_mem_iff ascending' same

/-- The blocks of functions, in the order of their numbers. -/
def BlockTable.functionBlocks (table : BlockTable) : List BlockRecord :=
  table.blocks.values.filter fun block => block.kind == .function

/-- Functions have the descriptions that an analysis has for their numbers. -/
def FunctionsDescribed (analysis : Analysis) (functions : Std.ExtTreeMap Nat FunctionRecord) :
    Prop :=
  ∀ id : Nat, (functions[id]?).map FunctionRecord.description =
    (analysis.functions.find? fun function => function.id == id).map FunctionRecord.description

/-- In an ascending list a number is found where it stands. -/
theorem find?_number_eq_some_iff {α : Type} {number : α → Nat} {items : List α}
    (ascending : items.Pairwise fun one other => number one < number other) {wanted : Nat}
    {item : α} : (items.find? fun other => number other == wanted) = some item ↔
      item ∈ items ∧ number item = wanted := by
  induction items with
  | nil => simp
  | cons first rest ih =>
      obtain ⟨below, ascending⟩ := List.pairwise_cons.mp ascending
      rw [List.find?_cons]
      cases same : number first == wanted with
      | true => grind
      | false => grind

section Described

variable {settings : AnalysisSettings} {source fileId : String} {tree : Syntax.Node}
  {pairs : List (FunctionRecord × BlockRecord)} {counters final : Outline.Counters}

/-- Functions with the descriptions of an analysis are those of its outline. -/
theorem map_description_functions
    (paired : Outline.Paired counters (Outline.ofTree source tree) final pairs)
    {functions : Std.ExtTreeMap Nat FunctionRecord}
    (same : FunctionsDescribed (Analysis.ofTree settings source fileId tree) functions) :
    functions.values.map FunctionRecord.description =
      pairs.map fun pair => pair.1.description := by
  have ascending : (Outline.ofTree source tree).functions.Pairwise fun one other =>
      one.id < other.id := by
    rw [← paired.functions, List.pairwise_map]
    exact paired.ascending.imp And.left
  have described (id : Nat) : (functions[id]?).map FunctionRecord.description =
      ((Outline.ofTree source tree).functions.find? fun function => function.id == id).map
        FunctionRecord.description := by
    rw [same id, ofTree_functions]
  have stored {id : Nat} {function : FunctionRecord} (found : functions[id]? = some function) :
      ∃ declared ∈ (Outline.ofTree source tree).functions,
        declared.id = id ∧ declared.description = function.description := by
    have isDescribed := described id
    rw [found, Option.map_some] at isDescribed
    obtain ⟨declared, isFound, alike⟩ := Option.map_eq_some_iff.mp isDescribed.symm
    obtain ⟨member, isId⟩ := (find?_number_eq_some_iff ascending).mp isFound
    exact ⟨declared, member, isId, alike⟩
  have onto : (pairs.map fun pair => pair.1.description) =
      (Outline.ofTree source tree).functions.map FunctionRecord.description := by
    rw [← paired.functions, List.map_map]
    rfl
  rw [onto]
  refine @eq_of_ascending _ FunctionRecord.id _ _
    (List.pairwise_map.mpr (pairwise_values fun id function found => ?own))
    (List.pairwise_map.mpr ascending) fun item => ?same
  case own =>
    obtain ⟨declared, -, isId, alike⟩ := stored found
    exact (congrArg FunctionRecord.id alike).symm.trans isId
  case same =>
    rw [List.mem_map, List.mem_map]
    constructor
    · rintro ⟨function, value, rfl⟩
      obtain ⟨id, found⟩ := mem_values_iff.mp value
      obtain ⟨declared, member, -, alike⟩ := stored found
      exact ⟨declared, member, alike⟩
    · rintro ⟨declared, member, rfl⟩
      have isDescribed := described declared.id
      rw [(find?_number_eq_some_iff ascending).mpr ⟨member, rfl⟩, Option.map_some] at isDescribed
      obtain ⟨function, found, alike⟩ := Option.map_eq_some_iff.mp isDescribed
      exact ⟨function, mem_values_iff.mpr ⟨_, found⟩, alike⟩

/-- Blocks of functions with the descriptions of an analysis are those of its outline. -/
theorem map_description_functionBlocks (parsed : Syntax.parse? source = some tree)
    (paired : Outline.Paired counters (Outline.ofTree source tree) final pairs)
    {table : BlockTable} (filed : table.Filed)
    (same : table.described = (Analysis.ofTree settings source fileId tree).blocks.described) :
    table.functionBlocks.map BlockRecord.description =
      pairs.map fun pair => pair.2.description := by
  have declarable := Outline.declarable_of_parse parsed
  refine @eq_of_ascending _ BlockRecord.id _ _
    (List.pairwise_map.mpr ((pairwise_values filed.own).sublist List.filter_sublist))
    (List.pairwise_map.mpr (paired.ascending.imp And.right)) fun item => ?_
  rw [List.mem_map, List.mem_map]
  simp only [BlockTable.functionBlocks, List.mem_filter, beq_iff_eq]
  constructor
  · rintro ⟨block, ⟨value, isFunction⟩, rfl⟩
    obtain ⟨id, stored⟩ := mem_values_iff.mp value
    obtain ⟨declared, member, -, alike⟩ := exists_declared_of_described parsed same stored
    have isFunction' : declared.kind = .function :=
      (congrArg BlockRecord.kind alike).trans isFunction
    obtain ⟨pair, isPair, rfl⟩ := (paired.blocks declared).mpr ⟨member, isFunction'⟩
    exact ⟨pair, isPair, alike⟩
  · rintro ⟨pair, isPair, rfl⟩
    obtain ⟨member, isFunction⟩ := (paired.blocks pair.2).mp ⟨pair, isPair, rfl⟩
    have described := map_description_of_described parsed same pair.2.id
    rw [(declaredBlock_eq_some declarable).mpr ⟨member, rfl⟩, Option.map_some] at described
    obtain ⟨block, stored, alike⟩ := Option.map_eq_some_iff.mp described
    exact ⟨block, ⟨mem_values_iff.mpr ⟨_, stored⟩,
      (congrArg BlockRecord.kind alike).trans isFunction⟩, alike⟩

/-- **Functions and blocks of functions belong together in the order of their numbers**, in any
table with the descriptions of an analysis. -/
theorem paired_of_described {table : BlockTable}
    {functions : Std.ExtTreeMap Nat FunctionRecord} (filed : table.Filed)
    (sameBlocks : table.described = (analyze settings source fileId).blocks.described)
    (sameFunctions : FunctionsDescribed (analyze settings source fileId) functions) :
    functions.values.length = table.functionBlocks.length ∧
      ((functions.values.zip table.functionBlocks).Pairwise fun first second =>
        first.1.id < second.1.id ∧ first.2.id < second.2.id) ∧
      ∀ pair ∈ functions.values.zip table.functionBlocks,
        pair.1.startLine = pair.2.startLine ∧ pair.1.endLine = pair.2.endLine := by
  rcases analyze_cases settings source fileId with ⟨tree, parsed, isAnalysis⟩ | ⟨_, isAnalysis⟩
  · rw [isAnalysis] at sameBlocks sameFunctions
    obtain ⟨high, final, layout⟩ := Outline.layout_of_parse parsed
    obtain ⟨pairs, paired⟩ := layout.exists_paired
    have isFunctions := map_description_functions paired sameFunctions
    have isBlocks := map_description_functionBlocks parsed paired filed sameBlocks
    have zipped : (functions.values.zip table.functionBlocks).map
        (Prod.map FunctionRecord.description BlockRecord.description) =
        pairs.map (Prod.map FunctionRecord.description BlockRecord.description) := by
      rw [← List.zip_map, isFunctions, isBlocks, List.zip_map']
      rfl
    refine ⟨?_, ?_, fun pair member => ?_⟩
    · rw [← List.length_map FunctionRecord.description, isFunctions, List.length_map,
        ← List.length_map BlockRecord.description, isBlocks, List.length_map]
    · have ascending : (pairs.map
          (Prod.map FunctionRecord.description BlockRecord.description)).Pairwise
          fun first second => first.1.id < second.1.id ∧ first.2.id < second.2.id :=
        List.pairwise_map.mpr paired.ascending
      rw [← zipped, List.pairwise_map] at ascending
      exact ascending
    · have described := List.mem_map_of_mem
        (f := Prod.map FunctionRecord.description BlockRecord.description) member
      rw [zipped] at described
      obtain ⟨other, isPair, alike⟩ := List.mem_map.mp described
      obtain ⟨alikeFunction, alikeBlock⟩ := Prod.mk.inj alike
      obtain ⟨starts, ends⟩ := paired.lines other isPair
      have field {α : Type} (part : FunctionRecord → α) := congrArg part alikeFunction
      have field' {α : Type} (part : BlockRecord → α) := congrArg part alikeBlock
      exact ⟨(field FunctionRecord.startLine).symm.trans
          (starts.trans (field' BlockRecord.startLine)),
        (field FunctionRecord.endLine).symm.trans (ends.trans (field' BlockRecord.endLine))⟩
  · rw [isAnalysis] at sameBlocks sameFunctions
    have noFunctions : functions.values = [] := by
      refine List.eq_nil_iff_forall_not_mem.mpr fun function value => ?_
      obtain ⟨id, found⟩ := mem_values_iff.mp value
      have described := sameFunctions id
      rw [found] at described
      cases described
    have noBlocks : table.functionBlocks = [] := by
      refine List.eq_nil_iff_forall_not_mem.mpr fun block value => ?_
      obtain ⟨id, stored⟩ := mem_values_iff.mp (List.mem_filter.mp value).1
      have described := congrArg (fun table : BlockTable => table.blocks[id]?) sameBlocks
      simp only [BlockTable.getElem?_described, stored] at described
      cases described
    rw [noFunctions, noBlocks]
    exact ⟨rfl, .nil, fun _ absent => absurd absent List.not_mem_nil⟩

end Described

end LuaCoverage
