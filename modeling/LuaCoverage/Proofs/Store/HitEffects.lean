import LuaCoverage.Proofs.Store.Registration

/-!
# What a hit changes

The operations that record hits on a file (`HitOperation`) leave its line index alone, so what they
do is fixed when the file is registered. A hit on a line changes the record of that line; a call
changes the record of the function that the line leads to. For blocks an operation amounts to a list
of *credits*, entries and signs, which are given one after another (`FileRecord.blocks_perform`). No
operation credits one block twice (`FileRecord.nodup_credits`), because the index lists every block
at one line at most and a statement never opens the block it runs in.

In a store an operation changes the record of a tracked file (`CoverageStore.getElem?_perform`).
-/

set_option autoImplicit false

namespace LuaCoverage

/-! ## Credits -/

/-- What a hit shows about one block: that it was entered, or that it runs. -/
inductive Credit where
  | entry (block : BlockId)
  | sign (block : BlockId)
  deriving DecidableEq, Repr

namespace Credit

/-- The block that a credit is given to. -/
def block : Credit → BlockId
  | entry id => id
  | sign id => id

/-- The record of a block with a credit. -/
def change : Credit → BlockRecord → BlockRecord
  | entry _ => BlockRecord.enter
  | sign _ => BlockRecord.witness

end Credit

/-- The table with a credit given to one of its blocks, if it has the block. -/
def BlockTable.credit (table : BlockTable) (credit : Credit) : BlockTable :=
  table.modifyBlock credit.block credit.change

/-- What a hit of which only the line is known shows. -/
def LineIndex.lineCredits (index : LineIndex) (line : Nat) : List Credit :=
  let entered := index.entered line
  entered.map .entry ++ match index.owner[line]? with
    | none => []
    | some owner => if entered.contains owner then [] else [.sign owner]

/-- What a hit in a known block shows. -/
def LineIndex.blockCredits (index : LineIndex) (line : Nat) (id : BlockId) : List Credit :=
  let own := if index.entry[id]? == some line && !index.headed.contains id then
    Credit.entry id else .sign id
  own :: (index.opened id line).map .entry

/-- An operation that records a hit on a file. -/
inductive HitOperation where
  | hit (line : Nat) (attribution : Attribution)
  | call (line : Nat)
  | callInline (line : Nat)
  deriving DecidableEq, Repr

/-- What an operation shows about blocks. -/
def LineIndex.credits (index : LineIndex) : HitOperation → List Credit
  | .hit line .line => index.lineCredits line
  | .hit line (.block id) => index.blockCredits line id
  | .hit _ .lineOnly => []
  | .call _ => []
  | .callInline line => (index.inlineFunction[line]?).toList.map .entry

/-- Whether an operation hits a line. -/
def HitOperation.hits (operation : HitOperation) (line : Nat) : Bool :=
  match operation with
  | .hit here _ => here == line
  | _ => false

/-- Whether an operation is a call that is led to a function. -/
def LineIndex.calls (index : LineIndex) (operation : HitOperation) (id : Nat) : Bool :=
  match operation with
  | .call line => index.functionAt[line]? == some id
  | _ => false

namespace FileRecord

/-- The file after an operation, which may come to nothing. -/
def perform (file : FileRecord) : HitOperation → FileRecord
  | .hit line attribution => file.hit line attribution
  | .call line => (file.call line).getD file
  | .callInline line => (file.callInline line).getD file

/-- The file after some operations. -/
def performAll (file : FileRecord) (operations : List HitOperation) : FileRecord :=
  operations.foldl perform file

theorem foldl_enterBlock (entered : List BlockId) (table : BlockTable) :
    entered.foldl BlockTable.enterBlock table =
      (entered.map Credit.entry).foldl BlockTable.credit table := by
  rw [List.foldl_map]
  rfl

theorem creditLine_eq (index : LineIndex) (line : Nat) (table : BlockTable) :
    creditLine index line table = (index.lineCredits line).foldl BlockTable.credit table := by
  rw [LineIndex.lineCredits, List.foldl_append, ← foldl_enterBlock, creditLine]
  cases index.owner[line]? with
  | none => rfl
  | some owner =>
      simp only
      split <;> rfl

theorem creditBlock_eq (index : LineIndex) (line : Nat) (id : BlockId) (table : BlockTable) :
    creditBlock index line id table =
      (index.blockCredits line id).foldl BlockTable.credit table := by
  rw [LineIndex.blockCredits, List.foldl_cons, ← foldl_enterBlock, creditBlock]
  split <;> rfl

/-- Entering a block that does not exist changes nothing. -/
theorem enterBlock_of_not_mem {table : BlockTable} {id : BlockId} (missing : id ∉ table.blocks) :
    table.enterBlock id = table := by
  have same : table.blocks.modify id BlockRecord.enter = table.blocks := by
    apply Std.ExtTreeMap.ext_getElem?
    intro other
    simp only [Std.ExtTreeMap.getElem?_modify, Std.LawfulEqCmp.compare_eq_iff_eq]
    split
    · rename_i itself
      subst itself
      rw [Std.ExtTreeMap.getElem?_eq_none missing, Option.map_none]
    · rfl
  rw [BlockTable.enterBlock, BlockTable.modifyBlock, same]

section Perform

variable (file : FileRecord) (operation : HitOperation)

/-- **An operation gives its credits** to the blocks of the file. -/
theorem blocks_perform : (file.perform operation).blocks =
    (file.index.credits operation).foldl BlockTable.credit file.blocks := by
  cases operation with
  | hit line attribution =>
      cases attribution with
      | line => exact creditLine_eq _ _ _
      | block id => exact creditBlock_eq _ _ _ _
      | lineOnly => rfl
  | call line =>
      rw [perform, call]
      cases file.index.functionAt[line]? with
      | none => rfl
      | some id =>
          rw [Option.bind_eq_bind, Option.bind_some]
          split <;> rfl
  | callInline line =>
      rw [perform, callInline, LineIndex.credits]
      cases file.index.inlineFunction[line]? with
      | none => rfl
      | some id =>
          rw [Option.bind_eq_bind, Option.bind_some]
          split
          · rfl
          · rename_i missing
            have absent : id ∉ file.blocks.blocks := by simpa using missing
            exact (enterBlock_of_not_mem absent).symm

/-- An operation leaves all of a file but its lines, blocks and functions alone. -/
theorem perform_frame : (file.perform operation).index = file.index ∧
    (file.perform operation).active = file.active ∧
    (file.perform operation).quality = file.quality := by
  cases operation with
  | hit line attribution => cases attribution <;> exact ⟨rfl, rfl, rfl⟩
  | call line =>
      rw [perform, call]
      cases file.index.functionAt[line]? with
      | none => exact ⟨rfl, rfl, rfl⟩
      | some id =>
          rw [Option.bind_eq_bind, Option.bind_some]
          split <;> exact ⟨rfl, rfl, rfl⟩
  | callInline line =>
      rw [perform, callInline]
      cases file.index.inlineFunction[line]? with
      | none => exact ⟨rfl, rfl, rfl⟩
      | some id =>
          rw [Option.bind_eq_bind, Option.bind_some]
          split <;> exact ⟨rfl, rfl, rfl⟩

/-- **A hit on a line** changes the record of that line only. -/
theorem lines_perform (line : Nat) : (file.perform operation).lines[line]? =
    if operation.hits line then some (file.lineOrUnclassified line).hit
    else file.lines[line]? := by
  cases operation with
  | hit here attribution =>
      have inserted : (file.hit here attribution).lines =
          file.lines.insert here (file.lineOrUnclassified here).hit := by
        cases attribution <;> rfl
      rw [perform, inserted, Std.ExtTreeMap.getElem?_insert, HitOperation.hits]
      by_cases same : here = line
      · subst same
        simp
      · simp [same]
  | call here =>
      rw [perform, call]
      cases file.index.functionAt[here]? with
      | none => rfl
      | some id =>
          rw [Option.bind_eq_bind, Option.bind_some]
          split <;> rfl
  | callInline here =>
      rw [perform, callInline]
      cases file.index.inlineFunction[here]? with
      | none => rfl
      | some id =>
          rw [Option.bind_eq_bind, Option.bind_some]
          split <;> rfl

/-- **A call** changes the record of the function that it is led to, if that exists. -/
theorem functions_perform (id : Nat) : (file.perform operation).functions[id]? =
    if file.index.calls operation id then (file.functions[id]?).map FunctionRecord.call
    else file.functions[id]? := by
  cases operation with
  | hit line attribution => cases attribution <;> rfl
  | call line =>
      rw [perform, call, LineIndex.calls]
      cases file.index.functionAt[line]? with
      | none => rfl
      | some target =>
          rw [Option.bind_eq_bind, Option.bind_some]
          by_cases same : target = id
          · subst same
            split
            · simp
            · rename_i missing
              have absent : target ∉ file.functions := by simpa using missing
              simp [Std.ExtTreeMap.getElem?_eq_none absent]
          · split <;> simp [Std.ExtTreeMap.getElem?_modify, same]
  | callInline line =>
      rw [perform, callInline]
      cases file.index.inlineFunction[line]? with
      | none => rfl
      | some block =>
          rw [Option.bind_eq_bind, Option.bind_some]
          split <;> rfl

/-- **Hits on lines that are all different** change the record of each of these lines. -/
theorem lines_performAll {operations : List HitOperation}
    (apart : operations.Pairwise fun first later =>
      ∀ line, first.hits line = true → later.hits line = false) (line : Nat) :
    (file.performAll operations).lines[line]? =
      if operations.any (·.hits line) then some (file.lineOrUnclassified line).hit
      else file.lines[line]? := by
  induction operations generalizing file with
  | nil => rfl
  | cons operation rest ih =>
      obtain ⟨first, apart⟩ := List.pairwise_cons.mp apart
      have own := file.lines_perform operation line
      refine (ih (file.perform operation) apart).trans ?_
      rw [List.any_cons]
      cases isHit : operation.hits line with
      | true =>
          have others : (rest.any fun later => later.hits line) = false :=
            List.any_eq_false.mpr fun later member =>
              Bool.not_eq_true _ ▸ first later member line isHit
          rw [others, Bool.true_or, if_neg Bool.false_ne_true, own, isHit]
      | false =>
          rw [isHit, if_neg Bool.false_ne_true] at own
          have analyzed : (file.perform operation).isAnalyzed = file.isAnalyzed := by
            rw [isAnalyzed, (file.perform_frame operation).2.2, isAnalyzed]
          rw [Bool.false_or, lineOrUnclassified, own, analyzed, lineOrUnclassified]

end Perform

end FileRecord

/-! ## No block is credited twice -/

namespace LineIndex

/-- What a line of a tabulated list holds. -/
theorem getD_addAt {α : Type} (table : LineMap (List α)) (line other : Nat) (item : α) :
    ((addAt table line item)[other]?).getD [] =
      if line = other then (table[other]?).getD [] ++ [item] else (table[other]?).getD [] := by
  simp only [addAt, Std.ExtTreeMap.getElem?_alter, Std.LawfulEqCmp.compare_eq_iff_eq]
  split
  · rename_i same
    rw [same, Option.getD_some]
  · rfl

/-- What a statement on a line may open: the opened block after the one it runs in. -/
def openings (index : LineIndex) (line : Nat) : List (BlockId × BlockId) :=
  (index.opens[line]?).getD []

/-- The entries of an index come from known blocks, each of which is listed once on a line. -/
structure Lists (known : List BlockRecord) (index : LineIndex) : Prop where
  enteredOnce : ∀ line, (index.entered line).Nodup
  entered : ∀ line, ∀ id ∈ index.entered line, ∃ block ∈ known, block.id = id
  openedOnce : ∀ line, ((index.openings line).map Prod.snd).Nodup
  opened : ∀ line, ∀ pair ∈ index.openings line, ∃ block ∈ known, block.id = pair.2 ∧
    block.parentId.getD BlockId.root = pair.1

/-- A block adds itself to what is entered on at most one line, and to what is opened on at most one
line, there behind its parent. -/
theorem addBlock_cases (table : BlockTable) (index : LineIndex) (block : BlockRecord) :
    ((addBlock table index block).enteredAt = index.enteredAt ∨
      ∃ line, (addBlock table index block).enteredAt = addAt index.enteredAt line block.id) ∧
    ((addBlock table index block).opens = index.opens ∨
      ∃ line, (addBlock table index block).opens =
        addAt index.opens line (block.parentId.getD BlockId.root, block.id)) := by
  unfold addBlock
  cases index.entry[block.id]? with
  | none => exact ⟨.inl rfl, .inl rfl⟩
  | some line =>
      simp only
      by_cases undecidable : isUndecidable table index.entry block.id line = true
      · simp only [if_pos undecidable]
        split
        · split <;> exact ⟨.inl rfl, .inl rfl⟩
        · split
          · exact ⟨.inl rfl, .inr ⟨line, rfl⟩⟩
          · exact ⟨.inl rfl, .inl rfl⟩
      · simp only [if_neg undecidable]
        split
        · split <;> exact ⟨.inr ⟨line, rfl⟩, .inl rfl⟩
        · split
          · exact ⟨.inr ⟨line, rfl⟩, .inr ⟨line, rfl⟩⟩
          · exact ⟨.inr ⟨line, rfl⟩, .inl rfl⟩

/-- A block that is not known yet can be added. -/
theorem Lists.addBlock {known : List BlockRecord} {index : LineIndex} (lists : index.Lists known)
    (table : BlockTable) {block : BlockRecord} (fresh : ∀ other ∈ known, other.id ≠ block.id) :
    (LineIndex.addBlock table index block).Lists (known ++ [block]) := by
  obtain ⟨entered, opens⟩ := addBlock_cases table index block
  have enteredLine : ∀ line, (LineIndex.addBlock table index block).entered line =
      index.entered line ∨
      (LineIndex.addBlock table index block).entered line = index.entered line ++ [block.id] := by
    intro line
    rcases entered with same | ⟨here, added⟩
    · exact .inl (by rw [LineIndex.entered, same, LineIndex.entered])
    · rw [LineIndex.entered, added, getD_addAt, LineIndex.entered]
      split
      · exact .inr rfl
      · exact .inl rfl
  have openedLine : ∀ line, (LineIndex.addBlock table index block).openings line =
      index.openings line ∨
      (LineIndex.addBlock table index block).openings line =
        index.openings line ++ [(block.parentId.getD BlockId.root, block.id)] := by
    intro line
    rcases opens with same | ⟨here, added⟩
    · exact .inl (by rw [openings, same, openings])
    · rw [openings, added, getD_addAt, openings]
      split
      · exact .inr rfl
      · exact .inl rfl
  have isKnown : block ∈ known ++ [block] := List.mem_append_right _ List.mem_cons_self
  refine ⟨fun line => ?_, fun line id member => ?_, fun line => ?_, fun line pair member => ?_⟩
  · rcases enteredLine line with same | added
    · rw [same]
      exact lists.enteredOnce line
    · rw [added]
      refine (lists.enteredOnce line).append (List.nodup_singleton _) fun id before itself => ?_
      obtain ⟨other, isOther, same⟩ := lists.entered line id before
      exact fresh other isOther (same.trans (List.mem_singleton.mp itself))
  · have either : id ∈ index.entered line ∨ id = block.id := by
      rcases enteredLine line with same | added
      · exact .inl (same ▸ member)
      · rw [added] at member
        exact (List.mem_append.mp member).imp_right List.mem_singleton.mp
    rcases either with before | rfl
    · obtain ⟨other, isOther, same⟩ := lists.entered line id before
      exact ⟨other, List.mem_append_left _ isOther, same⟩
    · exact ⟨block, isKnown, rfl⟩
  · rcases openedLine line with same | added
    · rw [same]
      exact lists.openedOnce line
    · rw [added, List.map_append]
      refine (lists.openedOnce line).append (List.nodup_singleton _) fun id before itself => ?_
      obtain ⟨pair, isPair, rfl⟩ := List.mem_map.mp before
      obtain ⟨other, isOther, same, -⟩ := lists.opened line pair isPair
      exact fresh other isOther (same.trans (List.mem_singleton.mp itself))
  · have either : pair ∈ index.openings line ∨
        pair = (block.parentId.getD BlockId.root, block.id) := by
      rcases openedLine line with same | added
      · exact .inl (same ▸ member)
      · rw [added] at member
        exact (List.mem_append.mp member).imp_right List.mem_singleton.mp
    rcases either with before | rfl
    · obtain ⟨other, isOther, same⟩ := lists.opened line pair before
      exact ⟨other, List.mem_append_left _ isOther, same⟩
    · exact ⟨block, isKnown, rfl, rfl⟩

/-- The blocks of a table are listed by its index. -/
theorem lists_build {table : BlockTable} (filed : table.Filed) (lines : LineMap LineRecord)
    (functions : Std.ExtTreeMap Nat FunctionRecord) :
    (LineIndex.build lines table functions).Lists table.blocks.values := by
  have folded : ∀ (known rest : List BlockRecord) (index : LineIndex), Declarable (known ++ rest) →
      index.Lists known → (rest.foldl (LineIndex.addBlock table) index).Lists (known ++ rest) := by
    intro known rest
    induction rest generalizing known with
    | nil =>
        intro index _ lists
        rw [List.append_nil]
        exact lists
    | cons block rest ih =>
        intro index declarable lists
        have regroup : known ++ block :: rest = (known ++ [block]) ++ rest := by simp
        rw [regroup] at declarable ⊢
        refine ih (known ++ [block]) _ declarable
          (lists.addBlock table fun other isOther same => ?_)
        have distinct := declarable.distinct
        rw [List.map_append, List.map_append] at distinct
        exact (List.disjoint_of_nodup_append distinct.of_append_left)
          (List.mem_map.mpr ⟨other, isOther, rfl⟩) (by rw [same]; exact List.mem_cons_self)
  obtain ⟨enteredOnce, entered, openedOnce, opened⟩ := folded [] table.blocks.values
    { entry := entries (runnable lines) table.blocks.values
      functionAt := functionStarts functions.values } filed.declarable
    ⟨fun _ => List.nodup_nil, fun _ _ none => absurd none List.not_mem_nil,
      fun _ => List.nodup_nil, fun _ _ none => absurd none List.not_mem_nil⟩
  exact ⟨enteredOnce, entered, openedOnce, opened⟩

end LineIndex

/-- **No operation credits one block twice**, if no block is its own parent. -/
theorem FileRecord.nodup_credits {table : BlockTable} (filed : table.Filed)
    (apart : ∀ id, table.parentOf id ≠ some id) (lines : LineMap LineRecord)
    (functions : Std.ExtTreeMap Nat FunctionRecord) (operation : HitOperation) :
    (((LineIndex.build lines table functions).credits operation).map Credit.block).Nodup := by
  have lists := LineIndex.lists_build filed lines functions
  generalize LineIndex.build lines table functions = index at lists ⊢
  cases operation with
  | hit line attribution =>
      cases attribution with
      | line =>
          have once := lists.enteredOnce line
          rw [LineIndex.credits, LineIndex.lineCredits, List.map_append, List.map_map]
          have blocks : (index.entered line).map (Credit.block ∘ Credit.entry) =
              index.entered line := List.map_id _
          rw [blocks]
          cases index.owner[line]? with
          | none => exact (List.append_nil _).symm ▸ once
          | some owner =>
              simp only
              split
              · exact (List.append_nil _).symm ▸ once
              · rename_i elsewhere
                refine once.append (List.nodup_singleton _) fun id before itself => elsewhere ?_
                obtain rfl : id = owner := List.mem_singleton.mp itself
                exact List.contains_iff_mem.mpr before
      | block id =>
          have own :
              ((index.blockCredits line id).map Credit.block) = id :: index.opened id line := by
            rw [LineIndex.blockCredits, List.map_cons, List.map_map]
            refine congrArg₂ List.cons ?_ (List.map_id _)
            split <;> rfl
          have sublist : (index.opened id line).Sublist ((index.openings line).map Prod.snd) :=
            List.filter_sublist.map Prod.snd
          rw [LineIndex.credits, own, List.nodup_cons]
          refine ⟨fun inside => ?_, (lists.openedOnce line).sublist sublist⟩
          -- a block that is opened from within itself would be its own parent
          obtain ⟨pair, isPair, isId⟩ := List.mem_map.mp inside
          obtain ⟨isOpening, isOwner⟩ := List.mem_filter.mp isPair
          obtain ⟨block, isBlock, same, parent⟩ := lists.opened line pair isOpening
          obtain ⟨key, stored⟩ := mem_values_iff.mp isBlock
          have isKey : key = id := (filed.own key block stored).symm.trans (same.trans isId)
          have isParent : block.parentId.getD BlockId.root = id :=
            parent.trans (beq_iff_eq.mp isOwner)
          subst isKey
          cases named : block.parentId with
          | none =>
              rw [named] at isParent
              obtain rfl : BlockId.root = key := isParent
              exact filed.noRoot (mem_map_iff.mpr ⟨block, stored⟩)
          | some parent =>
              rw [named] at isParent
              refine apart key ?_
              rw [BlockTable.parentOf_of_getElem? stored, named]
              exact congrArg some isParent
      | lineOnly => exact List.nodup_nil
  | call line => exact List.nodup_nil
  | callInline line =>
      rw [LineIndex.credits]
      cases index.inlineFunction[line]? <;> simp

/-! ## Stores -/

namespace CoverageStore

/-- The store after an operation on a file, which may come to nothing. -/
def perform (store : CoverageStore) (path : String) : HitOperation → CoverageStore
  | .hit line attribution => (store.hit path line attribution).1
  | .call line => (store.call path line).1
  | .callInline line => (store.callInline path line).1

/-- The store after some operations on a file. -/
def performAll (store : CoverageStore) (path : String) (operations : List HitOperation) :
    CoverageStore :=
  operations.foldl (fun current operation => current.perform path operation) store

/-- An operation on a tracked file changes its record. -/
theorem getElem?_perform {store : CoverageStore} {path : String} {file : FileRecord}
    (found : store.files[path]? = some file) (active : file.active = true)
    (operation : HitOperation) :
    (store.perform path operation).files[path]? = some (file.perform operation) := by
  have tracked : store.tracked? path = some file := by
    rw [tracked?, found, Option.filter_some, if_pos active]
  have attempted : ∀ changed : Option FileRecord,
      (store.attempt path changed).1.files[path]? = some (changed.getD file) := by
    rintro (_ | changed)
    · exact found
    · exact Std.ExtTreeMap.getElem?_insert_self
  cases operation with
  | hit line attribution =>
      rw [perform, hit, attempted, tracked]
      rfl
  | call line =>
      rw [perform, call, attempted, tracked]
      rfl
  | callInline line =>
      rw [perform, callInline, attempted, tracked]
      rfl

theorem getElem?_performAll {store : CoverageStore} {path : String} {file : FileRecord}
    (found : store.files[path]? = some file) (active : file.active = true)
    (operations : List HitOperation) :
    (store.performAll path operations).files[path]? = some (file.performAll operations) := by
  induction operations generalizing store file with
  | nil => exact found
  | cons operation rest ih =>
      refine ih (getElem?_perform found active operation) ?_
      rw [(file.perform_frame operation).2.1]
      exact active

end CoverageStore

end LuaCoverage
