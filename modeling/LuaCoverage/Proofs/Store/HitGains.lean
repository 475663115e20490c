import Mathlib.Logic.Relation
import LuaCoverage.Proofs.Store.Operations
import LuaCoverage.Proofs.Store.ShardedHits
import LuaCoverage.Proofs.Store.Tally

/-!
# What recording may do to hits

Lines, blocks and functions are the *items* of a file that hits are recorded on. The operations
write flags and counts of items in many places and by different rules, but all they ever do to one
item is a sequence of a few things (`Hits.Gain`): an item appears, it is entered, it shows a sign of
running, it is covered, or hits from elsewhere are added. That is shown once for all operations but
those that clear marks (`FileRecord.gains_changed`), as long as no count leaves its 64 bits
(`FileRecord.InRange`); what the operations keep is then read off the few things.
-/

set_option autoImplicit false

namespace LuaCoverage

/-! ## Items -/

/-- What is recorded on one line, block or function. Only lines can be covered. -/
structure Hits where
  executed : Bool := false
  covered : Bool := false
  count : UInt64 := 0
  deriving DecidableEq

/-- A part of a file that hits are recorded on. -/
inductive Item where
  | line (number : Nat)
  | block (id : BlockId)
  | function (id : Nat)
  deriving DecidableEq

/-- The hits on a line. -/
def LineRecord.hits (record : LineRecord) : Hits :=
  ⟨record.executed, record.covered, record.executionCount⟩

/-- The hits on a block. -/
def BlockRecord.hits (record : BlockRecord) : Hits :=
  ⟨record.executed, false, record.executionCount⟩

/-- The hits on a function. -/
def FunctionRecord.hits (record : FunctionRecord) : Hits :=
  ⟨record.executed, false, record.executionCount⟩

/-- The hits on a block of a table, if it has the block. -/
def BlockTable.hits? (table : BlockTable) (id : BlockId) : Option Hits :=
  (table.blocks[id]?).map BlockRecord.hits

/-- The hits on an item of a file, if it has the item. -/
def FileRecord.hits? (file : FileRecord) : Item → Option Hits
  | .line number => (file.lines[number]?).map LineRecord.hits
  | .block id => file.blocks.hits? id
  | .function id => (file.functions[id]?).map FunctionRecord.hits

namespace Hits

/-- The hits after the item was entered once more. -/
def enter (hits : Hits) : Hits := { hits with executed := true, count := hits.count + 1 }

/-- The hits after a sign that the item runs. -/
def witness (hits : Hits) : Hits :=
  { hits with executed := true, count := if hits.count = 0 then 1 else hits.count }

/-- The hits after the item was covered. -/
def cover (hits : Hits) : Hits := { hits with covered := true }

/-- The hits of two places together. -/
def add (hits other : Hits) : Hits :=
  ⟨hits.executed || other.executed, hits.covered || other.covered, hits.count + other.count⟩

/-- The count of an item; that of an item that is missing is zero. -/
def countOf (found : Option Hits) : Nat := (found.map fun hits => hits.count.toNat).getD 0

theorem toNat_enter (hits : Hits) (fits : hits.count.toNat + 1 < UInt64.size) :
    hits.enter.count.toNat = hits.count.toNat + 1 := by
  rw [enter, UInt64.toNat_add]
  exact Nat.mod_eq_of_lt fits

theorem toNat_add (hits other : Hits)
    (fits : hits.count.toNat + other.count.toNat < UInt64.size) :
    (hits.add other).count.toNat = hits.count.toNat + other.count.toNat := by
  rw [add, UInt64.toNat_add]
  exact Nat.mod_eq_of_lt fits

/-- What recording does to one item at a time, where `brought` says which hits come from outside. No
count leaves its range. -/
inductive Gain (brought : Hits → Prop) : Option Hits → Option Hits → Prop where
  | appear {hits : Hits} (isBrought : brought hits) : Gain brought none (some hits)
  | enter {hits : Hits} (fits : hits.count.toNat + 1 < UInt64.size) :
      Gain brought (some hits) (some hits.enter)
  | witness (hits : Hits) : Gain brought (some hits) (some hits.witness)
  | cover {hits : Hits} (executed : hits.executed = true) :
      Gain brought (some hits) (some hits.cover)
  | add {hits other : Hits} (isBrought : brought other)
      (fits : hits.count.toNat + other.count.toNat < UInt64.size) :
      Gain brought (some hits) (some (hits.add other))

/-- Any number of gains. -/
abbrev Gains (brought : Hits → Prop) : Option Hits → Option Hits → Prop :=
  Relation.ReflTransGen (Gain brought)

end Hits

open Hits

/-! ## Blocks -/

namespace BlockTable

variable {table : BlockTable} {id : BlockId}

theorem hits?_eq_map_profile (table : BlockTable) (id : BlockId) :
    table.hits? id = (table.profile id).map BlockRecord.hits := by
  rw [hits?, profile, Option.map_map]
  rfl

theorem hits?_congr {before after : BlockTable} (same : after.profile = before.profile)
    (id : BlockId) : after.hits? id = before.hits? id := by
  rw [hits?_eq_map_profile, hits?_eq_map_profile, same]

theorem hits?_modifyBlock (table : BlockTable) (target id : BlockId)
    (change : BlockRecord → BlockRecord) :
    (table.modifyBlock target change).hits? id =
      if target = id then (table.blocks[id]?).map (BlockRecord.hits ∘ change)
      else table.hits? id := by
  rw [hits?, getElem?_modifyBlock]
  split
  · rw [Option.map_map]
  · rfl

/-! ### Adding -/

theorem hits?_refresh (table : BlockTable) (existing renewed : BlockRecord) (id : BlockId) :
    (table.refresh existing renewed).hits? id = table.hits? id := by
  have described : (table.modifyBlock renewed.id fun record =>
      { record with
        kind := renewed.kind
        branch := renewed.branch
        startLine := renewed.startLine
        endLine := renewed.endLine }).hits? id = table.hits? id := by
    rw [hits?_modifyBlock]
    split <;> rfl
  unfold refresh
  simp only
  split
  · rw [hits?_congr (profile_setParent _ _ _), described]
  · exact described

/-- **Adding a block leaves the hits on all blocks alone**, those on the block itself included if it
was there before. -/
theorem hits?_insert_cases (table : BlockTable) (record : BlockRecord) (id : BlockId) :
    (table.insert record).1.hits? id = table.hits? id ∨
      record.id = id ∧ id ∉ table.blocks ∧ (table.insert record).1.hits? id = some record.hits := by
  by_cases isRoot : record.id = BlockId.root
  · have same : table.insert record = (table, 0) := by
      rw [BlockTable.insert, isRoot]
      rfl
    rw [same]
    exact .inl rfl
  by_cases inside : record.id ∈ table.blocks
  · obtain ⟨existing, stored⟩ := mem_map_iff.mp inside
    have refreshed : table.insert record = (table.refresh existing record, 0) := by
      unfold BlockTable.insert
      rw [if_neg, stored]
      simpa [BlockId.isRoot] using isRoot
    rw [refreshed]
    exact .inl (hits?_refresh table existing record id)
  · have added : (table.insert record).1.hits? id =
        if record.id = id then some record.hits else table.hits? id := by
      rw [hits?_eq_map_profile, profile_eq_map_bare, bare_insert isRoot inside,
        hits?_eq_map_profile, profile_eq_map_bare]
      by_cases same : record.id = id
      · simp only [if_pos same]
        split <;> rfl
      · simp only [if_neg same]
        split
        · rw [Option.map_map, Option.map_map, Option.map_map]
          rfl
        · rfl
    rw [added]
    by_cases same : record.id = id
    · exact .inr ⟨same, same ▸ inside, if_pos same⟩
    · exact .inl (if_neg same)

/-- Blocks that are added one after another bring their hits, or find their hits there. -/
theorem gains_foldl_insert {brought : Hits → Prop} {blocks : List BlockRecord}
    (brings : ∀ block ∈ blocks, brought block.hits) (table : BlockTable) (id : BlockId) :
    Gains brought (table.hits? id)
      ((blocks.foldl (fun current block => (current.insert block).1) table).hits? id) := by
  induction blocks generalizing table with
  | nil => exact .refl
  | cons first rest ih =>
      have later := ih (fun block member => brings block (List.mem_cons_of_mem _ member))
        (table.insert first).1
      rw [List.foldl_cons]
      rcases hits?_insert_cases table first id with same | ⟨-, missing, added⟩
      · rw [same] at later
        exact later
      · rw [added] at later
        have none : table.hits? id = none := by
          rw [hits?, Std.ExtTreeMap.getElem?_eq_none missing, Option.map_none]
        rw [none]
        exact .head (.appear (brings first List.mem_cons_self)) later

/-! ### Merging -/

/-- The count of a block after blocks are merged in, were counts unbounded. -/
def mergedCount (table : BlockTable) (blocks : List BlockRecord) (id : BlockId) : Nat :=
  Hits.countOf (table.hits? id)
    + ((blocks.filter fun block => block.id == id).map fun block => block.hits.count.toNat).sum

theorem mergedCount_cons (table : BlockTable) (first : BlockRecord) (rest : List BlockRecord)
    (id : BlockId) : table.mergedCount (first :: rest) id =
      table.mergedCount rest id + if first.id = id then first.hits.count.toNat else 0 := by
  unfold mergedCount
  rw [List.filter_cons]
  by_cases same : first.id = id
  · rw [if_pos (beq_iff_eq.mpr same), if_pos same, List.map_cons, List.sum_cons]
    omega
  · rw [if_neg (mt beq_iff_eq.mp same), if_neg same, Nat.add_zero]

/-- A block that is merged in brings its hits, or adds them to what is there. -/
theorem hits?_mergeBlock (table : BlockTable) (theirs : BlockRecord) (id : BlockId) :
    (table.mergeBlock theirs).hits? id = table.hits? id ∨
      theirs.id = id ∧ (table.mergeBlock theirs).hits? id =
        some (((table.hits? id).map fun hits => hits.add theirs.hits).getD theirs.hits) := by
  unfold mergeBlock
  by_cases inside : theirs.id ∈ table.blocks
  · rw [if_pos (Std.ExtTreeMap.contains_iff_mem.mpr inside), hits?_modifyBlock]
    by_cases same : theirs.id = id
    · obtain ⟨own, stored⟩ := mem_map_iff.mp inside
      rw [same] at stored
      rw [if_pos same, hits?, stored]
      exact .inr ⟨same, rfl⟩
    · exact .inl (if_neg same)
  · rw [if_neg (mt Std.ExtTreeMap.contains_iff_mem.mp inside)]
    rcases hits?_insert_cases table theirs id with same | ⟨same, missing, added⟩
    · exact .inl same
    · rw [added, hits?, Std.ExtTreeMap.getElem?_eq_none missing]
      exact .inr ⟨same, rfl⟩

/-- Blocks that are merged in bring their hits, or add them to what is there. -/
theorem gains_foldl_mergeBlock {brought : Hits → Prop} {blocks : List BlockRecord}
    (brings : ∀ block ∈ blocks, brought block.hits) (table : BlockTable) (id : BlockId)
    (fits : table.mergedCount blocks id < UInt64.size) :
    Gains brought (table.hits? id) ((blocks.foldl mergeBlock table).hits? id) := by
  induction blocks generalizing table with
  | nil => exact .refl
  | cons first rest ih =>
      have isBrought := brings first List.mem_cons_self
      have later := ih (fun block member => brings block (List.mem_cons_of_mem _ member))
        (table.mergeBlock first)
      rw [mergedCount_cons] at fits
      rw [List.foldl_cons]
      unfold mergedCount at later fits
      rcases hits?_mergeBlock table first id with same | ⟨own, added⟩
      · rw [same] at later
        exact later (by omega)
      · rw [if_pos own] at fits
        rw [added] at later
        cases before : table.hits? id with
        | none =>
            rw [before] at later fits
            exact .head (.appear isBrought) (later (by simp [Hits.countOf] at fits ⊢; omega))
        | some hits =>
            rw [before] at later fits
            have sum := Hits.toNat_add hits first.hits
            simp only [Hits.countOf, Option.map_some, Option.getD_some] at later fits
            exact .head (.add isBrought (by omega)) (later (by rw [sum (by omega)]; omega))

end BlockTable

/-! ### Credits -/

/-- A count after a credit, were counts unbounded. -/
def Credit.raise : Credit → Nat → Nat
  | .entry _, count => count + 1
  | .sign _, count => max 1 count

/-- The count of a block after credits, were counts unbounded. -/
def creditedCount (credits : List Credit) (id : BlockId) (count : Nat) : Nat :=
  credits.foldl (fun count credit => if credit.block = id then credit.raise count else count) count

theorem le_creditedCount (credits : List Credit) (id : BlockId) (count : Nat) :
    count ≤ creditedCount credits id count := by
  unfold creditedCount
  refine List.foldlRecOn (motive := fun current => count ≤ current) _ _ (Nat.le_refl _) ?_
  intro current atLeast credit _
  split
  · cases credit with
    | entry id => exact Nat.le_succ_of_le atLeast
    | sign id => exact Nat.le_trans atLeast (Nat.le_max_right _ _)
  · exact atLeast

theorem creditedCount_mono (credits : List Credit) (id : BlockId) {less more : Nat}
    (le : less ≤ more) : creditedCount credits id less ≤ creditedCount credits id more := by
  induction credits generalizing less more with
  | nil => exact le
  | cons first rest ih =>
      unfold creditedCount at ih ⊢
      rw [List.foldl_cons, List.foldl_cons]
      refine ih ?_
      split
      · cases first with
        | entry block => exact Nat.succ_le_succ le
        | sign block => exact max_le_max_left 1 le
      · exact le

theorem creditedCount_of_not_mem {credits : List Credit} {id : BlockId} {count : Nat}
    (elsewhere : ∀ credit ∈ credits, credit.block ≠ id) :
    creditedCount credits id count = count := by
  refine List.foldlRecOn (motive := fun current => current = count) _ _ rfl ?_
  intro current same credit member
  rw [if_neg (elsewhere credit member), same]

namespace BlockTable

theorem hits?_credit (table : BlockTable) (credit : Credit) (id : BlockId) :
    (table.credit credit).hits? id =
      if credit.block = id then (table.blocks[id]?).map (BlockRecord.hits ∘ credit.change)
      else table.hits? id :=
  hits?_modifyBlock table credit.block id credit.change

/-- **Credits are entries and signs** of the blocks that they are given to. -/
theorem gains_foldl_credit (brought : Hits → Prop) (credits : List Credit) (table : BlockTable)
    (id : BlockId)
    (fits : creditedCount credits id (Hits.countOf (table.hits? id)) < UInt64.size) :
    Gains brought (table.hits? id) ((credits.foldl credit table).hits? id) := by
  induction credits generalizing table with
  | nil => exact .refl
  | cons first rest ih =>
      have later := ih (table.credit first)
      have atLeast := le_creditedCount rest id
      rw [creditedCount, List.foldl_cons, ← creditedCount] at fits
      rw [List.foldl_cons]
      rw [hits?_credit] at later
      by_cases own : first.block = id
      · rw [if_pos own] at later fits
        cases stored : table.blocks[id]? with
        | none =>
            have none : table.hits? id = none := by rw [hits?, stored, Option.map_none]
            rw [stored] at later
            rw [none] at fits ⊢
            exact later (Nat.lt_of_le_of_lt (creditedCount_mono rest id (Nat.zero_le _)) fits)
        | some record =>
            have found : table.hits? id = some record.hits := by rw [hits?, stored, Option.map_some]
            rw [stored] at later
            rw [found] at fits ⊢
            have inRange := Nat.lt_of_le_of_lt (atLeast _) fits
            cases first with
            | entry block =>
                refine .head (.enter inRange) (later ?_)
                show creditedCount rest id record.enter.executionCount.toNat < _
                rw [BlockRecord.toNat_enter inRange]
                exact fits
            | sign block =>
                refine .head (.witness _) (later ?_)
                show creditedCount rest id record.witness.executionCount.toNat < _
                rw [BlockRecord.toNat_witness]
                exact fits
      · rw [if_neg own] at later fits
        exact later fits

end BlockTable

/-! ## Changes of a file -/

/-- The records of lines that come with a change. -/
def FileChange.lines : FileChange → List LineRecord
  | .absorb theirs => theirs.lines.values
  | _ => []

/-- The blocks that come with a change. -/
def FileChange.blocks : FileChange → List BlockRecord
  | .register _ analysis => analysis.blocks.blocks.values
  | .addBlock block => [block]
  | .absorb theirs => theirs.blocks.blocks.values
  | _ => []

/-- The functions that come with a change. -/
def FileChange.functions : FileChange → List FunctionRecord
  | .register _ analysis => analysis.functions
  | .absorb theirs => theirs.functions.values
  | _ => []

/-- The hits on items of one kind that come with a change. A line may also be new. -/
def FileChange.Brings (change : FileChange) (item : Item) (hits : Hits) : Prop :=
  match item with
  | .line _ => hits = {} ∨ ∃ record ∈ change.lines, record.hits = hits
  | .block _ => ∃ block ∈ change.blocks, block.hits = hits
  | .function _ => ∃ function ∈ change.functions, function.hits = hits

/-- Whether a change may clear marks. -/
def FileChange.clears : FileChange → Bool
  | .enforce => true
  | .reclassify _ => true
  | _ => false

namespace FileRecord

/-- The count of an item; that of an item that is missing is zero. -/
def count (file : FileRecord) (item : Item) : Nat := Hits.countOf (file.hits? item)

theorem count_lt (file : FileRecord) (item : Item) : file.count item < UInt64.size := by
  unfold count Hits.countOf
  cases file.hits? item with
  | none => decide
  | some hits => exact hits.count.toNat_lt

/-- The count that an item has after a hit, were counts unbounded. -/
def recordedCount (file : FileRecord) (operation : HitOperation) : Item → Nat
  | .line number => file.count (.line number) + if operation.hits number then 1 else 0
  | .block id => creditedCount (file.index.credits operation) id (file.count (.block id))
  | .function id => file.count (.function id) + if file.index.calls operation id then 1 else 0

/-- The count that an item has after a change, were counts unbounded. -/
def raisedCount (file : FileRecord) : FileChange → Item → Nat
  | .record operation, item =>
      if file.active then file.recordedCount operation item else file.count item
  | .absorb theirs, .line number => file.count (.line number) + theirs.count (.line number)
  | .absorb theirs, .block id => file.blocks.mergedCount theirs.blocks.blocks.values id
  | .absorb theirs, .function id => file.count (.function id) + theirs.count (.function id)
  | _, item => file.count item

/-- No count of a file leaves its 64 bits with a change. -/
def InRange (file : FileRecord) (change : FileChange) : Prop :=
  ∀ item : Item, file.raisedCount change item < UInt64.size

/-- The items whose counts a change may raise. -/
def raisedItems (file : FileRecord) : FileChange → List Item
  | .record (.hit line attribution) =>
      .line line :: (file.index.credits (.hit line attribution)).map fun credit =>
        .block credit.block
  | .record (.call line) => (file.index.functionAt[line]?).toList.map .function
  | .record (.callInline line) =>
      (file.index.credits (.callInline line)).map fun credit => .block credit.block
  | .absorb theirs =>
      theirs.lines.keys.map .line ++ (theirs.blocks.blocks.values.map fun block => .block block.id)
        ++ theirs.functions.keys.map .function
  | _ => []

theorem recordedCount_of_not_mem {file : FileRecord} {operation : HitOperation} {item : Item}
    (elsewhere : item ∉ file.raisedItems (.record operation)) :
    file.recordedCount operation item = file.count item := by
  cases item with
  | line number =>
      have misses : operation.hits number = false := by
        cases operation with
        | hit line attribution =>
            rw [HitOperation.hits, beq_eq_false_iff_ne]
            rintro rfl
            exact elsewhere List.mem_cons_self
        | call line => rfl
        | callInline line => rfl
      rw [recordedCount, misses]
      rfl
  | block id =>
      refine creditedCount_of_not_mem fun credit member own => elsewhere ?_
      subst own
      cases operation with
      | hit line attribution =>
          exact List.mem_cons_of_mem _ (List.mem_map_of_mem member)
      | call line => cases member
      | callInline line => exact List.mem_map_of_mem member
  | function id =>
      have misses : file.index.calls operation id = false := by
        cases operation with
        | hit line attribution => rfl
        | call line =>
            rw [LineIndex.calls, beq_eq_false_iff_ne]
            intro leads
            exact elsewhere (List.mem_map_of_mem (Option.mem_toList.mpr leads))
        | callInline line => rfl
      rw [recordedCount, misses]
      rfl

theorem raisedCount_of_not_mem {file : FileRecord} {change : FileChange} {item : Item}
    (elsewhere : item ∉ file.raisedItems change) :
    file.raisedCount change item = file.count item := by
  cases change with
  | record operation =>
      rw [raisedCount, recordedCount_of_not_mem elsewhere, ite_self]
  | absorb theirs =>
      obtain ⟨others, functions⟩ := not_or.mp (mt List.mem_append.mpr elsewhere)
      obtain ⟨lines, blocks⟩ := not_or.mp (mt List.mem_append.mpr others)
      cases item with
      | line number =>
          have missing : theirs.lines[number]? = none := by
            refine Std.ExtTreeMap.getElem?_eq_none fun member => lines ?_
            exact List.mem_map_of_mem (Std.ExtTreeMap.mem_keys.mpr member)
          rw [raisedCount, count, count, hits?, hits?, missing]
          rfl
      | block id =>
          have none : theirs.blocks.blocks.values.filter (fun block => block.id == id) = [] := by
            refine List.filter_eq_nil_iff.mpr fun block member own => blocks ?_
            exact List.mem_map.mpr ⟨block, member, congrArg Item.block (beq_iff_eq.mp own)⟩
          rw [raisedCount, BlockTable.mergedCount, none]
          rfl
      | function id =>
          have missing : theirs.functions[id]? = none := by
            refine Std.ExtTreeMap.getElem?_eq_none fun member => functions ?_
            exact List.mem_map_of_mem (Std.ExtTreeMap.mem_keys.mpr member)
          rw [raisedCount, count, count, hits?, hits?, missing]
          rfl
  | _ => rfl

/-- Only the items whose counts may be raised have to be looked at. -/
theorem inRange_iff {file : FileRecord} {change : FileChange} :
    file.InRange change ↔
      ∀ item ∈ file.raisedItems change, file.raisedCount change item < UInt64.size := by
  refine ⟨fun all item _ => all item, fun raised item => ?_⟩
  by_cases member : item ∈ file.raisedItems change
  · exact raised item member
  · rw [raisedCount_of_not_mem member]
    exact file.count_lt item

instance (file : FileRecord) (change : FileChange) : Decidable (file.InRange change) :=
  decidable_of_iff' _ inRange_iff

/-- A change that may make a record raises no count. -/
theorem inRange_of_makes {change : FileChange} (makes : change.makes = true) (file : FileRecord) :
    file.InRange change := by
  intro item
  cases change with
  | register source analysis => exact file.count_lt item
  | activate => exact file.count_lt item
  | note => exact file.count_lt item
  | _ => cases makes

/-! ### The gains -/

section Gains

variable {α : Type} {hits : α → Hits} {brought : Hits → Prop} {own other : Option α}

/-- A record that is added where there is none. -/
theorem gains_or (brings : ∀ new ∈ other, brought (hits new)) :
    Gains brought (own.map hits) ((own.or other).map hits) := by
  cases own with
  | some record => exact .refl
  | none =>
      cases other with
      | none => exact .refl
      | some new => exact .single (.appear (brings new rfl))

/-- A record that is added where there is none, and merged with one that is there. -/
theorem gains_merge {combine : α → α → α}
    (adds : ∀ first second, hits (combine first second) = (hits first).add (hits second))
    (brings : ∀ new ∈ other, brought (hits new))
    (fits : Hits.countOf (own.map hits) + Hits.countOf (other.map hits) < UInt64.size) :
    Gains brought (own.map hits) ((own.merge combine other).map hits) := by
  cases own with
  | none =>
      rw [Option.merge_none_left]
      exact gains_or brings
  | some record =>
      cases other with
      | none => exact .refl
      | some new =>
          rw [Option.merge_some_some, Option.map_some, Option.map_some, adds]
          exact .single (.add (brings new rfl) fits)

end Gains

section Changes

variable {file : FileRecord}

theorem gains_register (source : String) (analysis : Analysis) (item : Item) :
    Gains (FileChange.Brings (.register source analysis) item) (file.hits? item)
      ((file.register source analysis).hits? item) := by
  rw [register]
  split
  · exact .refl
  cases item with
  | line number =>
      show Gains _ ((file.lines[number]?).map LineRecord.hits)
        (Option.map LineRecord.hits ((analysis.lines.zipIdx 1).foldl (fun known entry =>
          known.insertIfNew entry.2 (LineRecord.ofClassification entry.1)) file.lines)[number]?)
      rw [getElem?_foldl_insertIfNew]
      refine gains_or fun new isNew => .inl ?_
      obtain ⟨entry, -, rfl⟩ := Option.map_eq_some_iff.mp isNew
      rfl
  | block id =>
      exact BlockTable.gains_foldl_insert (fun block member => ⟨block, member, rfl⟩) file.blocks
        id
  | function id =>
      show Gains _ ((file.functions[id]?).map FunctionRecord.hits)
        (Option.map FunctionRecord.hits (analysis.functions.foldl (fun known function =>
          known.insertIfNew function.id function) file.functions)[id]?)
      rw [getElem?_foldl_insertIfNew]
      refine gains_or fun new isNew => ⟨new, ?_, rfl⟩
      obtain ⟨function, isFound, rfl⟩ := Option.map_eq_some_iff.mp isNew
      exact List.mem_of_find?_eq_some isFound

theorem gains_record {operation : HitOperation}
    (fits : ∀ item, file.recordedCount operation item < UInt64.size) (item : Item) :
    Gains (FileChange.Brings (.record operation) item) (file.hits? item)
      ((file.perform operation).hits? item) := by
  have inRange := fits item
  cases item with
  | line number =>
      rw [hits?, hits?, lines_perform]
      rw [recordedCount, count, hits?] at inRange
      split
      · rename_i isHit
        rw [if_pos isHit] at inRange
        rw [lineOrUnclassified]
        cases stored : file.lines[number]? with
        | none => exact .head (.appear (.inl rfl)) (.single (.enter (by decide)))
        | some record =>
            rw [stored] at inRange
            exact .single (.enter inRange)
      · exact .refl
  | block id =>
      rw [hits?, hits?, blocks_perform]
      exact BlockTable.gains_foldl_credit _ (file.index.credits operation) file.blocks id inRange
  | function id =>
      rw [hits?, hits?, functions_perform]
      rw [recordedCount, count, hits?] at inRange
      split
      · rename_i isCalled
        rw [if_pos isCalled] at inRange
        cases stored : file.functions[id]? with
        | none => exact .refl
        | some record =>
            rw [stored] at inRange
            exact .single (.enter inRange)
      · exact .refl

theorem gains_absorb {theirs : FileRecord} (inRange : file.InRange (.absorb theirs))
    (item : Item) : Gains (FileChange.Brings (.absorb theirs) item) (file.hits? item)
      ((file.merge theirs).hits? item) := by
  have fits := inRange item
  cases item with
  | line number =>
      rw [hits?, hits?, lines_merge]
      refine gains_merge ?adds (fun new isNew => .inr ⟨new, ?_, rfl⟩) fits
      case adds =>
        intro first second
        rw [LineRecord.hits, LineRecord.executed_merge, LineRecord.covered_merge,
          LineRecord.executionCount_merge]
        rfl
      exact mem_values_iff.mpr ⟨number, isNew⟩
  | block id =>
      exact BlockTable.gains_foldl_mergeBlock (fun block member => ⟨block, member, rfl⟩)
        file.blocks id fits
  | function id =>
      rw [hits?, hits?, functions_merge]
      refine gains_merge (fun _ _ => rfl) (fun new isNew => ⟨new, ?_, rfl⟩) fits
      exact mem_values_iff.mpr ⟨id, isNew⟩

theorem gains_cover (line : Nat) (item : Item) :
    Gains (FileChange.Brings (.cover line) item) (file.hits? item)
      (((file.cover line).getD file).hits? item) := by
  cases covers : file.cover line with
  | none => exact .refl
  | some covered =>
      obtain ⟨record, stored, executed, rfl⟩ := exists_of_cover covers
      cases item with
      | line number =>
          rw [Option.getD_some, hits?, hits?, Std.ExtTreeMap.getElem?_insert]
          split
          · rename_i same
            obtain rfl := Std.LawfulEqCmp.compare_eq_iff_eq.mp same
            rw [stored]
            exact .single (.cover executed)
          · exact .refl
      | block id => exact .refl
      | function id => exact .refl

theorem gains_keepLine (line : Nat) (item : Item) :
    Gains (FileChange.Brings (.keepLine line) item) (file.hits? item)
      ((file.changed (.keepLine line)).hits? item) := by
  rw [changed]
  split
  case isFalse => exact .refl
  cases item with
  | line number =>
      rw [hits?, hits?, Std.ExtTreeMap.getElem?_insert]
      split
      · rename_i same
        obtain rfl := Std.LawfulEqCmp.compare_eq_iff_eq.mp same
        rw [lineOrUnclassified]
        cases file.lines[line]? with
        | none => exact .single (.appear (.inl rfl))
        | some record => exact .refl
      · exact .refl
  | block id => exact .refl
  | function id => exact .refl

/-- **All a change does to an item is a sequence of gains**, unless the change clears marks. -/
theorem gains_changed {change : FileChange} (gathers : change.clears = false)
    (inRange : file.InRange change) (item : Item) :
    Gains (change.Brings item) (file.hits? item) ((file.changed change).hits? item) := by
  cases change with
  | register source analysis => exact gains_register source analysis item
  | activate => cases item <;> exact .refl
  | note => exact .refl
  | rate quality => cases item <;> exact .refl
  | markInstrumented => cases item <;> exact .refl
  | record operation =>
      rw [changed]
      split
      · rename_i active
        refine gains_record (fun item => ?_) item
        have fits := inRange item
        rwa [raisedCount, if_pos active] at fits
      · exact .refl
  | cover line => exact gains_cover line item
  | keepLine line => exact gains_keepLine line item
  | addBlock block =>
      cases item with
      | block id =>
          have brings : ∀ added ∈ [block],
              (FileChange.addBlock block).Brings (.block id) added.hits :=
            fun added member => ⟨added, member, rfl⟩
          exact BlockTable.gains_foldl_insert brings file.blocks id
      | _ => exact .refl
  | setParent child parent =>
      cases item with
      | block id =>
          rw [changed, hits?, hits?, BlockTable.hits?_congr (BlockTable.profile_setParent _ _ _)]
      | _ => exact .refl
  | resolve =>
      rw [changed_resolve]
      cases item with
      | block id =>
          rw [hits?, hits?, reindex, BlockTable.hits?_congr (BlockTable.profile_resolve _)]
      | _ => exact .refl
  | absorb theirs => exact gains_absorb inRange item
  | enforce => cases gathers
  | reclassify analysis => cases gathers

end Changes

end FileRecord

/-! ## Stores -/

namespace CoverageStore

/-- No count of a store leaves its 64 bits with an operation. -/
def InRange (store : CoverageStore) (operation : StoreOperation) : Prop :=
  ∀ (path : String) (file : FileRecord) (change : FileChange), store.files[path]? = some file →
    operation.changeAt path = some change → file.InRange change

instance (store : CoverageStore) (operation : StoreOperation) :
    Decidable (store.InRange operation) :=
  decidable_of_iff
    (∀ entry ∈ store.files.toList, ∀ change ∈ operation.changeAt entry.1, entry.2.InRange change)
    ⟨fun all path file change found changes =>
        all (path, file) (Std.ExtTreeMap.mem_toList_iff_getElem?_eq_some.mpr found) change changes,
      fun all entry member change changes =>
        all entry.1 entry.2 change (Std.ExtTreeMap.mem_toList_iff_getElem?_eq_some.mp member)
          changes⟩

/-- No count leaves its 64 bits during a run. -/
def StaysInRange : CoverageStore → List StoreOperation → Prop
  | _, [] => True
  | store, operation :: rest =>
      store.InRange operation ∧ (store.apply operation).1.StaysInRange rest

instance decidableStaysInRange : (store : CoverageStore) → (operations : List StoreOperation) →
    Decidable (store.StaysInRange operations)
  | _, [] => inferInstanceAs (Decidable True)
  | store, operation :: rest =>
      have := decidableStaysInRange (store.apply operation).1 rest
      inferInstanceAs (Decidable (store.InRange operation ∧ _))

theorem staysInRange_append {store : CoverageStore} {first later : List StoreOperation} :
    store.StaysInRange (first ++ later) ↔
      store.StaysInRange first ∧ (store.run first).1.StaysInRange later := by
  induction first generalizing store with
  | nil => simp only [List.nil_append, StaysInRange, run, true_and]
  | cons operation rest ih =>
      rw [List.cons_append, StaysInRange, StaysInRange, ih, and_assoc]
      rfl

end CoverageStore

end LuaCoverage
