import LuaCoverage.Proofs.Store.HitEffects
import LuaCoverage.Proofs.Store.IndexInputs

/-!
# What a line index tabulates

A line index is filled block by block, in the order of their numbers, and each look-up in it is a
question about lines and blocks that can be asked without it. A block is entered at the first of the
lines it may own that can run (`BlockRecord.EntersAt`, `LineIndex.entry_build`). The lists of an
index hold the blocks that pass a test, each once and in order (`LineIndex.extends_build`). The
owner of a line comes from painting: wider blocks first, so what is left is the narrowest of the
blocks that own the line, and the last one if several are equally narrow (`LineIndex.Innermost`,
`LineIndex.owner_build_iff`).
-/

set_option autoImplicit false

namespace LuaCoverage

/-- The search in an ascending list finds the least item that passes the test. -/
theorem find?_eq_some_iff_of_sorted {items : List Nat} (sorted : items.Pairwise (· < ·))
    {test : Nat → Bool} {item : Nat} :
    items.find? test = some item ↔ test item = true ∧ item ∈ items ∧
      ∀ earlier < item, earlier ∈ items → test earlier = false := by
  induction items with
  | nil => simp
  | cons first rest ih =>
      obtain ⟨below, sorted⟩ := List.pairwise_cons.mp sorted
      rw [List.find?_cons]
      cases passes : test first with
      | true => grind
      | false => grind

/-- A map that stores items under their numbers lists them in this order. -/
theorem pairwise_values {α : Type} {number : α → Nat} {map : Std.ExtTreeMap Nat α}
    (own : ∀ (key : Nat) (item : α), map[key]? = some item → number item = key) :
    map.values.Pairwise fun one other => number one < number other := by
  have ordered : map.toList.Pairwise fun one other => one.1 < other.1 :=
    Std.ExtTreeMap.ordered_keys_toList.imp Nat.compare_eq_lt.mp
  rw [values_eq_map_toList, List.pairwise_map]
  refine ordered.imp_of_mem fun member member' less => ?_
  rw [own _ _ (Std.ExtTreeMap.mem_toList_iff_getElem?_eq_some.mp member),
    own _ _ (Std.ExtTreeMap.mem_toList_iff_getElem?_eq_some.mp member')]
  exact less

/-- The last item of an ascending list has the greatest number. -/
theorem number_le_getLast? {α : Type} {number : α → Nat} {items : List α}
    (ascending : items.Pairwise fun one other => number one < number other) {item last : α}
    (isLast : items.getLast? = some last) (member : item ∈ items) : number item ≤ number last := by
  obtain ⟨front, rfl⟩ := List.getLast?_eq_some_iff.mp isLast
  rcases List.mem_append.mp member with inFront | itself
  · exact Nat.le_of_lt ((List.pairwise_append.mp ascending).2.2 item inFront last
      (List.mem_singleton_self _))
  · rw [List.mem_singleton.mp itself]

namespace BlockRecord

/-- A block that is neither that of a function nor an arm of a conditional. -/
def isPlain (block : BlockRecord) : Bool := block.kind != .function && block.branch.isNone

/-- A block contains the lines that it may own. -/
theorem spansLine_of_mayOwnLine {block : BlockRecord} {line : Nat}
    (owns : block.mayOwnLine line = true) : block.spansLine line = true := by
  rw [BlockRecord.mayOwnLine] at owns
  split at owns
  · rw [Bool.and_eq_true, decide_eq_true_iff, decide_eq_true_iff] at owns
    rw [BlockRecord.spansLine, Bool.and_eq_true, decide_eq_true_iff, decide_eq_true_iff]
    exact ⟨Nat.le_of_lt owns.1, owns.2⟩
  · exact owns

/-- The first line that can run among those that a block may own. -/
structure EntersAt (lines : LineMap LineRecord) (line : Nat) (block : BlockRecord) : Prop where
  owns : block.mayOwnLine line = true
  runs : LineIndex.canRun lines line = true
  first : ∀ earlier < line, block.mayOwnLine earlier = true →
    LineIndex.canRun lines earlier = false

/-- The search for a line that can run finds the first one. -/
theorem entersAt_iff {lines : LineMap LineRecord} {line : Nat} {block : BlockRecord} :
    block.EntersAt lines line ↔
      (LineIndex.runnable lines).find? block.mayOwnLine = some line := by
  rw [find?_eq_some_iff_of_sorted (LineIndex.sortedLT_runnable lines).pairwise,
    LineIndex.mem_runnable]
  constructor
  · rintro ⟨owns, runs, first⟩
    refine ⟨owns, runs, fun earlier before runs' => Bool.eq_false_iff.mpr fun owns' => ?_⟩
    cases (first earlier before owns').symm.trans (LineIndex.mem_runnable.mp runs')
  · rintro ⟨owns, runs, first⟩
    refine ⟨owns, runs, fun earlier before owns' => Bool.eq_false_iff.mpr fun runs' => ?_⟩
    cases (first earlier before (LineIndex.mem_runnable.mpr runs')).symm.trans owns'

instance (lines : LineMap LineRecord) (line : Nat) (block : BlockRecord) :
    Decidable (block.EntersAt lines line) :=
  decidable_of_iff _ entersAt_iff.symm

/-- A block has one first line that can run, if any. -/
theorem EntersAt.line_eq {lines : LineMap LineRecord} {line other : Nat} {block : BlockRecord}
    (enters : block.EntersAt lines line) (enters' : block.EntersAt lines other) : line = other :=
  Option.some.inj ((entersAt_iff.mp enters).symm.trans (entersAt_iff.mp enters'))

end BlockRecord

namespace LineIndex

/-! ## First lines -/

/-- The first line of each block that can run. -/
theorem getElem?_entries (runnableLines : List Nat) {blocks : List BlockRecord}
    (distinct : (blocks.map BlockRecord.id).Nodup) (id : BlockId) :
    (entries runnableLines blocks)[id]? =
      (declaredBlock blocks id).bind fun block => runnableLines.find? block.mayOwnLine := by
  induction blocks using List.reverseRecOn with
  | nil => exact Std.ExtTreeMap.getElem?_empty
  | append_singleton front last ih =>
      rw [List.map_append, List.nodup_append] at distinct
      obtain ⟨distinct, -, apart⟩ := distinct
      have fresh : ∀ other ∈ front, other.id ≠ last.id := fun other member =>
        apart other.id (List.mem_map_of_mem member) last.id (List.mem_singleton_self _)
      have before := ih distinct
      rw [entries] at before
      rw [declaredBlock_append fresh, entries, List.foldl_concat]
      by_cases same : last.id = id
      · rw [if_pos same, Option.bind_some]
        rw [← same, declaredBlock_eq_none.mpr fresh] at before
        cases runnableLines.find? last.mayOwnLine with
        | none => exact same ▸ before
        | some line => exact same ▸ Std.ExtTreeMap.getElem?_insert_self
      · rw [if_neg same, ← before]
        cases runnableLines.find? last.mayOwnLine with
        | none => rfl
        | some line =>
            simp only [Std.ExtTreeMap.getElem?_insert, Std.LawfulEqCmp.compare_eq_iff_eq]
            exact if_neg same

section Entries

variable {table : BlockTable} {lines : LineMap LineRecord} {id : BlockId} {line : Nat}

/-- **The first line of a block** is where it is entered. -/
theorem entries_eq_some_iff (filed : table.Filed) :
    (entries (runnable lines) table.blocks.values)[id]? = some line ↔
      ∃ block, table.blocks[id]? = some block ∧ block.EntersAt lines line := by
  rw [getElem?_entries _ filed.declarable.distinct, Option.bind_eq_some_iff]
  refine exists_congr fun block => ?_
  rw [BlockRecord.entersAt_iff, declaredBlock_eq_some filed.declarable, mem_values_iff]
  refine and_congr_left fun _ => ⟨?_, fun stored => ⟨⟨id, stored⟩, filed.own id block stored⟩⟩
  rintro ⟨⟨key, stored⟩, rfl⟩
  rwa [filed.own key block stored]

/-- The first line of a block that is stored. -/
theorem entry_beq_eq_true_iff (filed : table.Filed) {block : BlockRecord}
    (stored : table.blocks[id]? = some block) :
    ((entries (runnable lines) table.blocks.values)[id]? == some line) = true ↔
      block.EntersAt lines line := by
  rw [beq_iff_eq, entries_eq_some_iff filed, stored]
  constructor
  · rintro ⟨_, same, enters⟩
    exact Option.some.inj same ▸ enters
  · exact fun enters => ⟨block, rfl, enters⟩

end Entries

/-! ## Lists of blocks -/

section Lists

variable (table : BlockTable) (entry : BlockMap Nat) (line : Nat) (block : BlockRecord)

/-- Whether a hit of which only the line is known enters a block. -/
def isEnteredAt : Bool :=
  entry[block.id]? == some line && !isUndecidable table entry block.id line

/-- Whether a statement on a line opens a block, if it runs in the parent. -/
def isOpenedAt : Bool := entry[block.id]? == some line && block.isPlain

/-- Whether a block is opened on its own first line. -/
def isHeaded : Bool := isOpenedAt entry block.startLine block

/-- Whether a block is that of a function that lies on a given line alone, and has lines that can
run. -/
def isInlineAt : Bool :=
  entry[block.id]?.isSome && block.kind == .function && block.startLine == block.endLine
    && block.startLine == line

end Lists

/-- What blocks add to an index, one after the other. -/
structure Extends (table : BlockTable) (blocks : List BlockRecord) (index next : LineIndex) :
    Prop where
  entry : next.entry = index.entry
  entered : ∀ line : Nat, next.entered line = index.entered line ++
    (blocks.filter (isEnteredAt table index.entry line)).map BlockRecord.id
  openings : ∀ line : Nat, next.openings line = index.openings line ++
    (blocks.filter (isOpenedAt index.entry line)).map fun block =>
      (block.parentId.getD BlockId.root, block.id)
  headed : ∀ id : BlockId, next.headed.contains id =
    (index.headed.contains id || (blocks.filter (isHeaded index.entry)).any (·.id == id))
  inline : ∀ line : Nat, next.inlineFunction[line]? =
    ((blocks.filter (isInlineAt index.entry line)).getLast?.map BlockRecord.id).or
      index.inlineFunction[line]?

namespace Extends

variable {table : BlockTable} {blocks blocks' : List BlockRecord} {index next final : LineIndex}

theorem nil (table : BlockTable) (index : LineIndex) : Extends table [] index index where
  entry := rfl
  entered _ := (List.append_nil _).symm
  openings _ := (List.append_nil _).symm
  headed _ := (Bool.or_false _).symm
  inline _ := rfl

theorem append (first : Extends table blocks index next)
    (later : Extends table blocks' next final) :
    Extends table (blocks ++ blocks') index final where
  entry := later.entry.trans first.entry
  entered line := by
    rw [later.entered, first.entered, first.entry, List.filter_append, List.map_append,
      List.append_assoc]
  openings line := by
    rw [later.openings, first.openings, first.entry, List.filter_append, List.map_append,
      List.append_assoc]
  headed id := by
    rw [later.headed, first.headed, first.entry, List.filter_append, List.any_append, Bool.or_assoc]
  inline line := by
    rw [later.inline, first.inline, first.entry, List.filter_append, List.getLast?_append,
      Option.map_or, Option.or_assoc]

end Extends

/-- What a block with a line that can run adds to each look-up. -/
theorem addBlock_eq (table : BlockTable) {index : LineIndex} {block : BlockRecord} {here : Nat}
    (first : index.entry[block.id]? = some here) :
    addBlock table index block =
      { index with
        enteredAt :=
          if isUndecidable table index.entry block.id here then index.enteredAt
          else addAt index.enteredAt here block.id
        opens :=
          if block.isPlain then
            addAt index.opens here (block.parentId.getD BlockId.root, block.id)
          else index.opens
        headed :=
          if block.isPlain && block.startLine == here then index.headed.insert block.id
          else index.headed
        inlineFunction :=
          if block.kind == .function && block.startLine == block.endLine then
            index.inlineFunction.insert block.startLine block.id
          else index.inlineFunction } := by
  unfold addBlock
  rw [first]
  by_cases isFunction : block.kind = .function
  · by_cases oneLine : block.startLine = block.endLine <;>
      cases undecidable : isUndecidable table index.entry block.id here <;>
      simp [BlockRecord.isPlain, undecidable, isFunction, oneLine]
  · cases branch : block.branch <;> by_cases onFirst : block.startLine = here <;>
      cases undecidable : isUndecidable table index.entry block.id here <;>
      simp [BlockRecord.isPlain, undecidable, isFunction, branch, onFirst]

/-- **A block adds itself** to the lists whose tests it passes. -/
theorem extends_addBlock (table : BlockTable) (index : LineIndex) (block : BlockRecord) :
    Extends table [block] index (addBlock table index block) := by
  cases first : index.entry[block.id]? with
  | none =>
      have same : addBlock table index block = index := by
        rw [addBlock, first]
      rw [same]
      refine ⟨rfl, fun line => ?_, fun line => ?_, fun id => ?_, fun line => ?_⟩ <;>
        simp [isEnteredAt, isOpenedAt, isHeaded, isInlineAt, first]
  | some here =>
      rw [addBlock_eq table first]
      refine ⟨rfl, fun line => ?entered, fun line => ?opened, fun id => ?headed,
        fun line => ?inline⟩
      case entered =>
        rw [LineIndex.entered]
        by_cases onLine : here = line
        · cases undecidable : isUndecidable table index.entry block.id here <;>
            simp [getD_addAt, isEnteredAt, first, ← onLine, undecidable, LineIndex.entered]
        · cases isUndecidable table index.entry block.id here <;>
            simp [getD_addAt, isEnteredAt, first, onLine, LineIndex.entered]
      case opened =>
        rw [LineIndex.openings]
        cases plain : block.isPlain <;> by_cases onLine : here = line <;>
          simp [getD_addAt, isOpenedAt, first, plain, onLine, LineIndex.openings]
      case headed =>
        have isHeaded : isHeaded index.entry block =
            (block.isPlain && block.startLine == here) := by
          rw [LineIndex.isHeaded, isOpenedAt, first, Bool.and_comm]
          exact congrArg _ (Bool.beq_comm ..)
        rw [Bool.eq_iff_iff]
        cases own : block.isPlain && block.startLine == here <;>
          simp [isHeaded, own, or_comm, Std.LawfulEqCmp.compare_eq_iff_eq]
      case inline =>
        have isInline : isInlineAt index.entry line block =
            (block.kind == .function && block.startLine == block.endLine
              && block.startLine == line) := by
          rw [isInlineAt, first]
          rfl
        cases own : block.kind == .function && block.startLine == block.endLine
        · simp [isInline, own]
        · have same : isInlineAt index.entry line block = (block.startLine == line) := by
            rw [isInline, own, Bool.true_and]
          by_cases onLine : block.startLine = line <;>
            simp [same, onLine, Std.ExtTreeMap.getElem?_insert]

theorem extends_foldl (table : BlockTable) (blocks : List BlockRecord) (index : LineIndex) :
    Extends table blocks index (blocks.foldl (addBlock table) index) := by
  induction blocks generalizing index with
  | nil => exact .nil table index
  | cons block rest ih => exact (extends_addBlock table index block).append (ih _)

section Build

variable (lines : LineMap LineRecord) (table : BlockTable)
  (functions : Std.ExtTreeMap Nat FunctionRecord)

/-- **What an index lists**: the blocks that pass a test, in the order of their numbers. -/
theorem extends_build :
    Extends table table.blocks.values { entry := entries (runnable lines) table.blocks.values }
      (build lines table functions) := by
  have filled := extends_foldl table table.blocks.values
    { entry := entries (runnable lines) table.blocks.values
      functionAt := functionStarts functions.values }
  exact ⟨filled.entry, filled.entered, filled.openings, filled.headed, filled.inline⟩

theorem entry_build : (build lines table functions).entry =
    entries (runnable lines) table.blocks.values :=
  (extends_build lines table functions).entry

theorem entered_build (line : Nat) : (build lines table functions).entered line =
    (table.blocks.values.filter
      (isEnteredAt table (entries (runnable lines) table.blocks.values) line)).map BlockRecord.id :=
  (extends_build lines table functions).entered line

variable {lines table}

/-- **A block is entered at its first line that can run**, unless the line says nothing about it. -/
theorem mem_entered_build_iff (filed : table.Filed) {line : Nat} {id : BlockId} :
    id ∈ (build lines table functions).entered line ↔
      ∃ block, table.blocks[id]? = some block ∧ block.EntersAt lines line ∧
        isUndecidable table (entries (runnable lines) table.blocks.values) id line = false := by
  rw [entered_build]
  simp only [List.mem_map, List.mem_filter, isEnteredAt, Bool.and_eq_true, Bool.not_eq_true']
  constructor
  · rintro ⟨block, ⟨listed, isEntry, decidable⟩, rfl⟩
    obtain ⟨key, stored⟩ := mem_values_iff.mp listed
    obtain rfl := filed.own key block stored
    exact ⟨block, stored, (entry_beq_eq_true_iff filed stored).mp isEntry, decidable⟩
  · rintro ⟨block, stored, enters, decidable⟩
    obtain rfl := filed.own id block stored
    exact ⟨block, ⟨mem_values_iff.mpr ⟨_, stored⟩,
      (entry_beq_eq_true_iff filed stored).mpr enters, decidable⟩, rfl⟩

/-- **A statement opens the plain children of the block it runs in** that begin to run on its
line. -/
theorem mem_opened_build_iff (filed : table.Filed) {line : Nat} {owner id : BlockId} :
    id ∈ (build lines table functions).opened owner line ↔
      ∃ block, table.blocks[id]? = some block ∧ block.parentId.getD BlockId.root = owner ∧
        block.isPlain = true ∧ block.EntersAt lines line := by
  have isOpened : (build lines table functions).opened owner line =
      (((build lines table functions).openings line).filter fun pair => pair.1 == owner).map
        Prod.snd := rfl
  rw [isOpened, (extends_build lines table functions).openings]
  simp only [openings, Std.ExtTreeMap.getElem?_empty, Option.getD_none, List.nil_append,
    List.filter_map, List.map_map, List.mem_map, List.mem_filter, Function.comp_apply, beq_iff_eq,
    isOpenedAt, Bool.and_eq_true]
  constructor
  · rintro ⟨block, ⟨⟨listed, isEntry, plain⟩, hangs⟩, rfl⟩
    obtain ⟨key, stored⟩ := mem_values_iff.mp listed
    obtain rfl := filed.own key block stored
    exact ⟨block, stored, hangs, plain,
      (entry_beq_eq_true_iff filed stored).mp (beq_iff_eq.mpr isEntry)⟩
  · rintro ⟨block, stored, hangs, plain, enters⟩
    obtain rfl := filed.own id block stored
    exact ⟨block, ⟨⟨mem_values_iff.mpr ⟨_, stored⟩,
      beq_iff_eq.mp ((entry_beq_eq_true_iff filed stored).mpr enters), plain⟩, hangs⟩, rfl⟩

/-- A block is headed if it is plain and begins to run on its own first line. -/
theorem headed_build_iff (filed : table.Filed) {block : BlockRecord}
    (stored : table.blocks[block.id]? = some block) :
    (build lines table functions).headed.contains block.id = true ↔
      block.isPlain = true ∧ block.EntersAt lines block.startLine := by
  rw [(extends_build lines table functions).headed, Std.ExtTreeSet.contains_empty, Bool.false_or,
    List.any_eq_true]
  simp only [List.mem_filter, isHeaded, isOpenedAt, Bool.and_eq_true, beq_iff_eq]
  constructor
  · rintro ⟨other, ⟨listed, isEntry, plain⟩, same⟩
    obtain ⟨key, stored'⟩ := mem_values_iff.mp listed
    obtain rfl := filed.own key other stored'
    rw [same, stored] at stored'
    obtain rfl := Option.some.inj stored'
    exact ⟨plain, (entry_beq_eq_true_iff filed stored).mp (beq_iff_eq.mpr isEntry)⟩
  · rintro ⟨plain, enters⟩
    exact ⟨block, ⟨mem_values_iff.mpr ⟨_, stored⟩,
      beq_iff_eq.mp ((entry_beq_eq_true_iff filed stored).mpr enters), plain⟩, rfl⟩

/-- A function that lies on one line alone owns that line and no other. -/
theorem isInlineAt_iff (filed : table.Filed) {line : Nat} {block : BlockRecord}
    (stored : table.blocks[block.id]? = some block) :
    isInlineAt (entries (runnable lines) table.blocks.values) line block = true ↔
      block.kind = .function ∧ block.startLine = line ∧ block.endLine = line ∧
        canRun lines line = true := by
  rw [isInlineAt, Bool.and_eq_true, Bool.and_eq_true, Bool.and_eq_true, beq_iff_eq, beq_iff_eq,
    beq_iff_eq, Option.isSome_iff_exists]
  simp only [entries_eq_some_iff filed, stored, Option.some.injEq, exists_eq_left']
  have owns (oneLine : block.startLine = block.endLine) (other : Nat) :
      block.mayOwnLine other = true ↔ other = block.startLine := by
    rw [BlockRecord.mayOwnLine, if_neg (fun tall => absurd tall.2 (by omega)),
      BlockRecord.spansLine, Bool.and_eq_true, decide_eq_true_iff, decide_eq_true_iff]
    omega
  constructor
  · rintro ⟨⟨⟨⟨other, enters⟩, isFunction⟩, oneLine⟩, rfl⟩
    obtain rfl := (owns oneLine other).mp enters.owns
    exact ⟨isFunction, rfl, oneLine.symm, enters.runs⟩
  · rintro ⟨isFunction, rfl, ends, runs⟩
    refine ⟨⟨⟨⟨block.startLine, (owns ends.symm _).mpr rfl, runs, fun earlier less owned => ?_⟩,
      isFunction⟩, ends.symm⟩, rfl⟩
    exact absurd ((owns ends.symm earlier).mp owned) (Nat.ne_of_lt less)

/-- **The inline function of a line** is the last of those that lie on it alone, if it can run. -/
theorem inlineFunction_build_iff (filed : table.Filed) {line : Nat} {id : BlockId} :
    (build lines table functions).inlineFunction[line]? = some id ↔
      canRun lines line = true ∧
      (∃ block, table.blocks[id]? = some block ∧ block.kind = .function ∧
        block.startLine = line ∧ block.endLine = line) ∧
      ∀ (other : BlockId) (block : BlockRecord), table.blocks[other]? = some block →
        block.kind = .function → block.startLine = line → block.endLine = line → other ≤ id := by
  let test := isInlineAt (entries (runnable lines) table.blocks.values) line
  have isLast : (build lines table functions).inlineFunction[line]? =
      ((table.blocks.values.filter test).getLast?.map BlockRecord.id) :=
    ((extends_build lines table functions).inline line).trans Option.or_none
  have listed {block : BlockRecord} : block ∈ table.blocks.values.filter test ↔
      table.blocks[block.id]? = some block ∧ block.kind = .function ∧ block.startLine = line ∧
        block.endLine = line ∧ canRun lines line = true := by
    rw [List.mem_filter, mem_values_iff]
    constructor
    · rintro ⟨⟨key, stored⟩, passes⟩
      obtain rfl := filed.own key block stored
      exact ⟨stored, (isInlineAt_iff filed stored).mp passes⟩
    · rintro ⟨stored, passes⟩
      exact ⟨⟨_, stored⟩, (isInlineAt_iff filed stored).mpr passes⟩
  have ordered : (table.blocks.values.filter test).Pairwise fun one other => one.id < other.id :=
    (pairwise_values filed.own).sublist List.filter_sublist
  rw [isLast, Option.map_eq_some_iff]
  constructor
  · rintro ⟨last, isLast, rfl⟩
    obtain ⟨stored, isFunction, starts, ends, runs⟩ := listed.mp (List.mem_of_getLast? isLast)
    refine ⟨runs, ⟨last, stored, isFunction, starts, ends⟩,
      fun other block stored' isFunction' starts' ends' => ?_⟩
    obtain rfl := filed.own other block stored'
    exact number_le_getLast? ordered isLast
      (listed.mpr ⟨stored', isFunction', starts', ends', runs⟩)
  · rintro ⟨runs, ⟨block, stored, isFunction, starts, ends⟩, greatest⟩
    obtain rfl := filed.own id block stored
    obtain ⟨last, isLast⟩ : ∃ last, (table.blocks.values.filter test).getLast? = some last :=
      Option.isSome_iff_exists.mp (List.getLast?_isSome.mpr
        (List.ne_nil_of_mem (listed.mpr ⟨stored, isFunction, starts, ends, runs⟩)))
    obtain ⟨stored', isFunction', starts', ends', -⟩ := listed.mp (List.mem_of_getLast? isLast)
    exact ⟨last, isLast, Nat.le_antisymm
      (greatest last.id last stored' isFunction' starts' ends')
      (number_le_getLast? ordered isLast
        (listed.mpr ⟨stored, isFunction, starts, ends, runs⟩))⟩

end Build

/-! ## Owners -/

section Paint

variable (table : BlockTable) (entry : BlockMap Nat) (runnableLines : List Nat)

/-- A block that is painted owns those of its lines that say something about it. -/
theorem getElem?_paint (painted : LineMap BlockId) (block : BlockRecord) (line : Nat) :
    (paint table entry runnableLines painted block)[line]? =
      if line ∈ runnableLines.filter fun line =>
        block.mayOwnLine line && !isUndecidable table entry block.id line
      then some block.id else painted[line]? := by
  rw [paint]
  generalize (runnableLines.filter fun line =>
    block.mayOwnLine line && !isUndecidable table entry block.id line) = own
  induction own generalizing painted with
  | nil => rfl
  | cons first rest ih =>
      rw [List.foldl_cons, ih]
      simp only [Std.ExtTreeMap.getElem?_insert, Std.LawfulEqCmp.compare_eq_iff_eq, List.mem_cons]
      by_cases later : line ∈ rest
      · rw [if_pos later, if_pos (.inr later)]
      · simp only [later, or_false, if_false, eq_comm]

/-- Whether a block is painted on a line. -/
def isPaintedAt (line : Nat) (block : BlockRecord) : Bool :=
  runnableLines.contains line && block.mayOwnLine line && !isUndecidable table entry block.id line

/-- The last block that is painted on a line stays. -/
theorem getElem?_foldl_paint (blocks : List BlockRecord) (painted : LineMap BlockId) (line : Nat) :
    (blocks.foldl (paint table entry runnableLines) painted)[line]? =
      ((blocks.filter (isPaintedAt table entry runnableLines line)).getLast?.map
        BlockRecord.id).or painted[line]? := by
  induction blocks using List.reverseRecOn with
  | nil => rfl
  | append_singleton front last ih =>
      rw [List.foldl_concat, getElem?_paint, ih, List.filter_append, List.getLast?_append,
        List.filter_singleton]
      have same : (line ∈ runnableLines.filter fun line =>
          last.mayOwnLine line && !isUndecidable table entry last.id line) ↔
          isPaintedAt table entry runnableLines line last = true := by
        simp [isPaintedAt, and_assoc]
      cases own : isPaintedAt table entry runnableLines line last with
      | true => rw [if_pos (same.mpr own)]; rfl
      | false => rw [if_neg (by rw [same, own]; exact Bool.false_ne_true)]; rfl

end Paint

/-- The narrowest of the blocks of a table that have a property, and of equally narrow ones the
last. -/
structure Innermost (table : BlockTable) (holds : BlockRecord → Prop) (block : BlockRecord) :
    Prop where
  listed : block ∈ table.blocks.values
  own : holds block
  least : ∀ other ∈ table.blocks.values, holds other →
    block.span < other.span ∨ block.span = other.span ∧ other.id ≤ block.id

theorem Innermost.congr {table : BlockTable} {holds holds' : BlockRecord → Prop}
    (same : ∀ block ∈ table.blocks.values, holds block ↔ holds' block) {block : BlockRecord}
    (innermost : Innermost table holds block) : Innermost table holds' block where
  listed := innermost.listed
  own := (same block innermost.listed).mp innermost.own
  least other listed own := innermost.least other listed ((same other listed).mpr own)

theorem Innermost.id_eq {table : BlockTable} {holds : BlockRecord → Prop}
    {block other : BlockRecord} (first : Innermost table holds block)
    (second : Innermost table holds other) : block.id = other.id := by
  have less := first.least other second.listed second.own
  have less' := second.least block first.listed first.own
  grind

/-- **The owner of a line** is the innermost of the blocks that are painted on it. -/
theorem owner_build_iff (lines : LineMap LineRecord) (table : BlockTable)
    (functions : Std.ExtTreeMap Nat FunctionRecord) (line : Nat) (id : BlockId) :
    (build lines table functions).owner[line]? = some id ↔ ∃ block, block.id = id ∧
      Innermost table (fun block => isPaintedAt table (entries (runnable lines) table.blocks.values)
        (runnable lines) line block = true) block := by
  let test := isPaintedAt table (entries (runnable lines) table.blocks.values) (runnable lines) line
  let wider (first second : BlockRecord) : Bool :=
    second.span < first.span || (first.span == second.span && first.id ≤ second.id)
  have wider_iff {first second : BlockRecord} : wider first second = true ↔
      second.span < first.span ∨ first.span = second.span ∧ first.id ≤ second.id := by
    simp [wider]
  let sorted := table.blocks.values.mergeSort wider
  have ordered : sorted.Pairwise fun first second => wider first second = true :=
    List.pairwise_mergeSort
      (fun first second third less less' => by
        rw [wider_iff] at less less' ⊢
        grind)
      (fun first second => by
        rw [Bool.or_eq_true, wider_iff, wider_iff]
        grind) _
  have isOwner : (build lines table functions).owner[line]? =
      (sorted.filter test).getLast?.map BlockRecord.id :=
    (getElem?_foldl_paint table _ _ sorted ∅ line).trans (Option.or_none)
  have listed {block : BlockRecord} : block ∈ sorted.filter test ↔
      block ∈ table.blocks.values ∧ test block = true := by
    rw [List.mem_filter, List.mem_mergeSort]
  have lastIsInnermost {last : BlockRecord} (isLast : (sorted.filter test).getLast? = some last) :
      Innermost table (fun block => test block = true) last := by
    obtain ⟨front, isList⟩ := List.getLast?_eq_some_iff.mp isLast
    obtain ⟨isBlock, own⟩ := listed.mp (List.mem_of_getLast? isLast)
    refine ⟨isBlock, own, fun other isOther own' => ?_⟩
    have behind := ordered.sublist (List.filter_sublist (p := test))
    have isListed := listed.mpr ⟨isOther, own'⟩
    rw [isList] at behind isListed
    rcases List.mem_append.mp isListed with inFront | itself
    · have less := (List.pairwise_append.mp behind).2.2 other inFront last
        (List.mem_singleton_self _)
      rw [wider_iff] at less
      grind
    · obtain rfl := List.mem_singleton.mp itself
      exact .inr ⟨rfl, Nat.le_refl _⟩
  rw [isOwner, Option.map_eq_some_iff]
  constructor
  · rintro ⟨block, isLast, rfl⟩
    exact ⟨block, rfl, lastIsInnermost isLast⟩
  · rintro ⟨block, rfl, innermost⟩
    obtain ⟨last, isLast⟩ : ∃ last, (sorted.filter test).getLast? = some last :=
      Option.isSome_iff_exists.mp (List.getLast?_isSome.mpr
        (List.ne_nil_of_mem (listed.mpr ⟨innermost.listed, innermost.own⟩)))
    exact ⟨last, isLast, (lastIsInnermost isLast).id_eq innermost⟩

end LineIndex

end LuaCoverage
