import LuaCoverage.Proofs.Analysis.AnalyzedTables
import LuaCoverage.Proofs.Store.BlockHits

/-!
# What a hit on a line changes

When only the line of a hit is known, not the block, the blocks that it shows to run have to be told
from the line. A line tells of a block unless the block, or one around it that still contains the
line, is in doubt there (`BlockTable.Doubtful`, `BlockTable.Tells`). The bounded walk of an index
finds just that in a consistent table (`LineIndex.isUndecidable_eq_false_iff`).

So the effect of the hit can be said without the index (`FileRecord.LineHitEffect`): the blocks that
claim the line and begin to run on it are entered, and the innermost block that claims it has run.
-/

set_option autoImplicit false

namespace LuaCoverage

/-! ## What a line tells of a block -/

namespace BlockTable

variable (table : BlockTable) (lines : LineMap LineRecord) (line : Nat)

/-- The block is one of which the line tells nothing of its own accord. -/
inductive Doubtful (block : BlockRecord) : Prop where
  /-- The line holds the header of the function. -/
  | header (isFunction : block.kind = .function) (starts : block.startLine = line)
  /-- The line is taken for that of the condition that picks the arm: it is where the parent begins
  to run. -/
  | picked {id : BlockId} {parent : BlockRecord} (isArm : block.branch.isSome = true)
      (hangs : block.parentId = some id) (stored : table.blocks[id]? = some parent)
      (enters : parent.EntersAt lines line)
  /-- The arm shares the line with an arm that is neither around it nor inside it. -/
  | shared {other : BlockRecord} (isArm : block.branch.isSome = true)
      (stored : table.blocks[other.id]? = some other) (isArm' : other.branch.isSome = true)
      (spans : other.spansLine line = true) (differs : other.id ≠ block.id)
      (notAround : ¬ table.Encloses other.id block.id)
      (notInside : ¬ table.Encloses block.id other.id)

/-- The blocks from a block upwards, as long as they contain the line. -/
inductive Around : BlockId → BlockRecord → Prop where
  | itself {id : BlockId} {block : BlockRecord} (stored : table.blocks[id]? = some block)
      (spans : block.spansLine line = true) : Around id block
  | outer {id parent : BlockId} {block other : BlockRecord}
      (stored : table.blocks[id]? = some block) (spans : block.spansLine line = true)
      (hangs : block.parentId = some parent) (above : Around parent other) : Around id other

/-- Running the line tells something of the block: neither it nor a block around it that still
contains the line is in doubt. -/
def Tells (id : BlockId) : Prop :=
  ∀ block, table.Around line id block → ¬ table.Doubtful lines line block

variable {table lines line}

theorem tells_iff {id : BlockId} {block : BlockRecord} (stored : table.blocks[id]? = some block) :
    table.Tells lines line id ↔ (block.spansLine line = true →
      ¬ table.Doubtful lines line block ∧
        ∀ parent, block.parentId = some parent → table.Tells lines line parent) := by
  constructor
  · intro tells spans
    exact ⟨tells block (.itself stored spans), fun parent hangs other above =>
      tells other (.outer stored spans hangs above)⟩
  · intro upwards other around
    cases around with
    | itself stored' spans =>
        obtain rfl := Option.some.inj (stored.symm.trans stored')
        exact (upwards spans).1
    | outer stored' spans hangs above =>
        obtain rfl := Option.some.inj (stored.symm.trans stored')
        exact (upwards spans).2 _ hangs other above

/-- A number without a record is in doubt nowhere. -/
theorem tells_of_not_mem {id : BlockId} (missing : id ∉ table.blocks) :
    table.Tells lines line id := by
  intro block around
  have none := Std.ExtTreeMap.getElem?_eq_none missing
  cases around with
  | itself stored => cases none.symm.trans stored
  | outer stored => cases none.symm.trans stored

end BlockTable

namespace LineIndex

open ParentChain

variable {table : BlockTable} {lines : LineMap LineRecord} {line : Nat}

theorem isPickedAt_iff (filed : table.Filed) {block : BlockRecord} :
    isPickedAt (entries (runnable lines) table.blocks.values) block line = true ↔
      ∃ id parent, block.parentId = some id ∧ table.blocks[id]? = some parent ∧
        parent.EntersAt lines line := by
  rw [isPickedAt, beq_iff_eq, Option.bind_eq_some_iff]
  simp only [entries_eq_some_iff filed]
  constructor
  · rintro ⟨id, hangs, parent, stored, enters⟩
    exact ⟨id, parent, hangs, stored, enters⟩
  · rintro ⟨id, parent, hangs, stored, enters⟩
    exact ⟨id, hangs, parent, stored, enters⟩

theorem mem_armsAt_iff (filed : table.Filed) {id : BlockId} :
    id ∈ armsAt table.blocks.values line ↔ ∃ block : BlockRecord, block.id = id ∧
      table.blocks[block.id]? = some block ∧ block.branch.isSome = true ∧
      block.spansLine line = true := by
  rw [armsAt, List.mem_map]
  simp only [List.mem_filter, Bool.and_eq_true]
  constructor
  · rintro ⟨block, ⟨listed, isArm, spans⟩, isId⟩
    obtain ⟨key, stored⟩ := mem_values_iff.mp listed
    exact ⟨block, isId, (filed.own key block stored).symm ▸ stored, isArm, spans⟩
  · rintro ⟨block, isId, stored, isArm, spans⟩
    exact ⟨block, ⟨mem_values_iff.mpr ⟨_, stored⟩, isArm, spans⟩, isId⟩

theorem sharesLine_iff (consistent : table.Consistent) {block : BlockRecord}
    (stored : table.blocks[block.id]? = some block) :
    sharesLine table block line = true ↔ ∃ other : BlockRecord,
      table.blocks[other.id]? = some other ∧ other.branch.isSome = true ∧
      other.spansLine line = true ∧ other.id ≠ block.id ∧ ¬ table.Encloses other.id block.id ∧
      ¬ table.Encloses block.id other.id := by
  have isWithin {inner outer : BlockRecord} (stored : table.blocks[outer.id]? = some outer) :
      (table.ancestors inner.id).contains outer.id = true ↔ table.Encloses outer.id inner.id := by
    rw [List.contains_iff_mem, consistent.mem_ancestors_iff]
    exact and_iff_left fun isRoot =>
      consistent.filed.noRoot (isRoot ▸ mem_map_iff.mpr ⟨outer, stored⟩)
  rw [sharesLine, List.any_eq_true]
  simp only [mem_armsAt_iff consistent.filed, Bool.and_eq_true, bne_iff_ne, Bool.not_eq_true']
  constructor
  · rintro ⟨_, ⟨other, rfl, stored', isArm, spans⟩, ⟨differs, notAround⟩, notInside⟩
    refine ⟨other, stored', isArm, spans, differs, ?_, ?_⟩
    · rw [← isWithin stored', notAround]
      exact Bool.false_ne_true
    · rw [← isWithin stored, notInside]
      exact Bool.false_ne_true
  · rintro ⟨other, stored', isArm, spans, differs, notAround, notInside⟩
    refine ⟨_, ⟨other, rfl, stored', isArm, spans⟩, ⟨differs, ?_⟩, ?_⟩
    · exact Bool.eq_false_iff.mpr (mt (isWithin stored').mp notAround)
    · exact Bool.eq_false_iff.mpr (mt (isWithin stored).mp notInside)

/-- **The doubts of an index** are those of the line. -/
theorem isDoubtful_iff (consistent : table.Consistent) {block : BlockRecord}
    (stored : table.blocks[block.id]? = some block) :
    isDoubtful table (entries (runnable lines) table.blocks.values) block line = true ↔
      table.Doubtful lines line block := by
  rw [isDoubtful, Bool.or_eq_true, Bool.and_eq_true, Bool.and_eq_true, Bool.or_eq_true,
    decide_eq_true_iff, beq_iff_eq, isPickedAt_iff consistent.filed,
    sharesLine_iff consistent stored]
  constructor
  · rintro (⟨isFunction, starts⟩ | ⟨isArm, ⟨id, parent, hangs, isParent, enters⟩ | isShared⟩)
    · exact .header isFunction starts
    · exact .picked isArm hangs isParent enters
    · obtain ⟨other, isOther, isArm', spans, differs, notAround, notInside⟩ := isShared
      exact .shared isArm isOther isArm' spans differs notAround notInside
  · intro doubtful
    cases doubtful with
    | header isFunction starts => exact .inl ⟨isFunction, starts⟩
    | picked isArm hangs isParent enters => exact .inr ⟨isArm, .inl ⟨_, _, hangs, isParent, enters⟩⟩
    | shared isArm isOther isArm' spans differs notAround notInside =>
        exact .inr ⟨isArm, .inr ⟨_, isOther, isArm', spans, differs, notAround, notInside⟩⟩

/-- One step of the walk up from a block. -/
theorem isUndecidableWithin_succ_iff (consistent : table.Consistent) {id parent : BlockId}
    {block : BlockRecord} {steps : Nat} (stored : table.blocks[id]? = some block)
    (hangs : block.parentId = some parent)
    (above : isUndecidableWithin table (entries (runnable lines) table.blocks.values) line steps
        (if parent = BlockId.root then none else some parent) = false ↔
      table.Tells lines line parent) :
    isUndecidableWithin table (entries (runnable lines) table.blocks.values) line (steps + 1)
        (some id) = false ↔ table.Tells lines line id := by
  obtain rfl := consistent.filed.own id block stored
  have next : (block.parentId.filter fun parent => !BlockId.isRoot parent) =
      if parent = BlockId.root then none else some parent := by
    rw [hangs, Option.filter_some]
    by_cases isRoot : parent = BlockId.root <;> simp [BlockId.isRoot, isRoot]
  rw [isUndecidableWithin, BlockTable.tells_iff stored]
  simp only [stored, next]
  by_cases spans : block.spansLine line = true
  · rw [if_pos spans, Bool.or_eq_false_iff, above, Bool.eq_false_iff, Ne,
      isDoubtful_iff consistent stored]
    constructor
    · rintro ⟨calm, tells⟩ -
      refine ⟨calm, fun other hangs' => ?_⟩
      exact Option.some.inj (hangs.symm.trans hangs') ▸ tells
    · intro upwards
      exact ⟨(upwards spans).1, (upwards spans).2 parent hangs⟩
  · rw [if_neg spans]
    exact iff_of_true rfl fun spans' => absurd spans' spans

/-- The walk finds what it should if it may take as many steps as the chain of the block has. -/
theorem isUndecidableWithin_eq_false_iff (consistent : table.Consistent) {length : Nat} :
    ∀ {id : BlockId} {steps : Nat}, table.chain (length + 1) id = some BlockId.root →
      length < steps →
      (isUndecidableWithin table (entries (runnable lines) table.blocks.values) line steps
        (some id) = false ↔ table.Tells lines line id) := by
  have isStored {id parent : BlockId} (hangs : table.parentOf id = some parent) :
      ∃ block, table.blocks[id]? = some block ∧ block.parentId = some parent :=
    Option.bind_eq_some_iff.mp hangs
  induction length with
  | zero =>
      intro id steps reached bound
      obtain ⟨more, rfl⟩ : ∃ more, steps = more + 1 := ⟨steps - 1, by omega⟩
      obtain ⟨block, stored, hangs⟩ := isStored ((ancestor_one id).symm.trans reached)
      refine isUndecidableWithin_succ_iff consistent stored hangs ?_
      rw [if_pos rfl]
      refine iff_of_true ?_ (BlockTable.tells_of_not_mem consistent.filed.noRoot)
      cases more <;> rfl
  | succ length ih =>
      intro id steps reached bound
      obtain ⟨more, rfl⟩ : ∃ more, steps = more + 1 := ⟨steps - 1, by omega⟩
      obtain ⟨parent, hangs, later⟩ := ancestor_succ_eq_some.mp reached
      have notRoot : parent ≠ BlockId.root := by
        rintro rfl
        simp [ancestor_succ, BlockTable.parentOf_eq_none_of_not_mem consistent.filed.noRoot]
          at later
      obtain ⟨block, stored, hangs⟩ := isStored hangs
      refine isUndecidableWithin_succ_iff consistent stored hangs ?_
      rw [if_neg notRoot]
      exact ih later (Nat.lt_of_succ_lt_succ bound)

/-- **The walk of an index finds** of which blocks a line tells something. -/
theorem isUndecidable_eq_false_iff (consistent : table.Consistent) {id : BlockId}
    (member : id ∈ table.blocks) :
    isUndecidable table (entries (runnable lines) table.blocks.values) id line = false ↔
      table.Tells lines line id := by
  obtain ⟨length, bound, reached⟩ := consistent.exists_chain_root member
  exact isUndecidableWithin_eq_false_iff consistent reached bound

end LineIndex

/-! ## The effect of a hit -/

namespace FileRecord

/-- The block may own the line, which can run and tells something of the block. -/
structure Claims (file : FileRecord) (line : Nat) (block : BlockRecord) : Prop where
  owns : block.mayOwnLine line = true
  runs : LineIndex.canRun file.lines line = true
  tells : file.blocks.Tells file.lines line block.id

/-- The block begins to run on the line, which tells something of it. -/
def Enters (file : FileRecord) (line : Nat) (block : BlockRecord) : Prop :=
  file.Claims line block ∧ block.EntersAt file.lines line

/-- The block is the narrowest of those that claim the line, and the last of equally narrow ones. -/
def Owns (file : FileRecord) (line : Nat) (block : BlockRecord) : Prop :=
  LineIndex.Innermost file.blocks (file.Claims line) block

/-- What a hit on a line of which nothing else is known changes. The blocks that begin to run on the
line are counted once more. The innermost block around the line has run, and is counted once if it
never was. -/
structure LineHitEffect (file : FileRecord) (line : Nat) (after : FileRecord) : Prop where
  frame : after = { file with
    lines := file.lines.insert line (file.lineOrUnclassified line).hit
    blocks := { file.blocks with blocks := after.blocks.blocks } }
  entered : ∀ (id : BlockId) (block : BlockRecord), file.blocks.blocks[id]? = some block →
    file.Enters line block → after.blocks.blocks[id]? = some block.enter
  innermost : ∀ (id : BlockId) (block : BlockRecord), file.blocks.blocks[id]? = some block →
    file.Owns line block → ¬ file.Enters line block → after.blocks.blocks[id]? =
      some { block with
        executed := true
        executionCount := if block.executionCount = 0 then 1 else block.executionCount }
  others : ∀ id : BlockId, (∀ block : BlockRecord, file.blocks.blocks[id]? = some block →
    ¬ file.Enters line block ∧ ¬ file.Owns line block) →
    after.blocks.blocks[id]? = file.blocks.blocks[id]?

section Effect

variable {file : FileRecord} {line : Nat}

/-- **The index enters** the blocks that begin to run on a line. -/
theorem mem_entered_iff (indexed : file.IsIndexed) (consistent : file.blocks.Consistent)
    {id : BlockId} : id ∈ file.index.entered line ↔
      ∃ block, file.blocks.blocks[id]? = some block ∧ file.Enters line block := by
  have isIndex : file.index = .build file.lines file.blocks file.functions := indexed
  rw [isIndex, LineIndex.mem_entered_build_iff _ consistent.filed]
  refine exists_congr fun block => and_congr_right fun stored => ?_
  obtain rfl := consistent.filed.own id block stored
  rw [LineIndex.isUndecidable_eq_false_iff consistent (mem_map_iff.mpr ⟨block, stored⟩), Enters]
  constructor
  · rintro ⟨enters, tells⟩
    exact ⟨⟨enters.owns, enters.runs, tells⟩, enters⟩
  · rintro ⟨claims, enters⟩
    exact ⟨enters, claims.tells⟩

/-- **A hit is attributed to the innermost block** around the line. -/
theorem ownerOf_eq_some_iff (indexed : file.IsIndexed) (consistent : file.blocks.Consistent)
    {id : BlockId} : file.ownerOf line = some id ↔
      ∃ block, file.blocks.blocks[id]? = some block ∧ file.Owns line block := by
  have isIndex : file.index = .build file.lines file.blocks file.functions := indexed
  have painted : ∀ block ∈ file.blocks.blocks.values,
      LineIndex.isPaintedAt file.blocks
        (LineIndex.entries (LineIndex.runnable file.lines) file.blocks.blocks.values)
        (LineIndex.runnable file.lines) line block = true ↔ file.Claims line block := by
    intro block listed
    obtain ⟨key, stored⟩ := mem_values_iff.mp listed
    obtain rfl := consistent.filed.own key block stored
    rw [LineIndex.isPaintedAt, Bool.and_eq_true, Bool.and_eq_true, Bool.not_eq_true',
      LineIndex.isUndecidable_eq_false_iff consistent (mem_map_iff.mpr ⟨block, stored⟩),
      List.contains_iff_mem, LineIndex.mem_runnable]
    constructor
    · rintro ⟨⟨runs, owns⟩, tells⟩
      exact ⟨owns, runs, tells⟩
    · rintro ⟨owns, runs, tells⟩
      exact ⟨⟨runs, owns⟩, tells⟩
  rw [ownerOf, isIndex, LineIndex.owner_build_iff]
  constructor
  · rintro ⟨block, rfl, innermost⟩
    obtain ⟨key, stored⟩ := mem_values_iff.mp innermost.listed
    obtain rfl := consistent.filed.own key block stored
    exact ⟨block, stored, innermost.congr painted⟩
  · rintro ⟨block, stored, innermost⟩
    exact ⟨block, consistent.filed.own id block stored,
      LineIndex.Innermost.congr (fun block listed => (painted block listed).symm) innermost⟩

/-- The credit that a block gets of a hit on a line. -/
theorem creditOf_lineCredits (index : LineIndex) (id : BlockId) :
    creditOf (index.lineCredits line) id =
      if id ∈ index.entered line then some (.entry id)
      else if index.owner[line]? = some id then some (.sign id) else none := by
  rw [LineIndex.lineCredits, creditOf, List.find?_append]
  have entries := creditOf_map_entry (index.entered line) id
  rw [creditOf] at entries
  rw [entries]
  by_cases entered : id ∈ index.entered line
  · rw [if_pos entered, if_pos entered]
    rfl
  · rw [if_neg entered, if_neg entered, Option.none_or]
    cases index.owner[line]? with
    | none => rfl
    | some owner =>
        by_cases same : owner = id
        · subst same
          simp [entered, Credit.block]
        · by_cases contained : owner ∈ index.entered line <;> simp [contained, same, Credit.block]

/-- **A hit on a line** of a file with a current index and a tree of blocks. -/
theorem lineHitEffect_hit (indexed : file.IsIndexed) (consistent : file.blocks.Consistent) :
    file.LineHitEffect line (file.hit line .line) := by
  have credited (id : BlockId) := getElem?_blocks_perform indexed consistent (.hit line .line) id
  simp only [perform, LineIndex.credits, creditOf_lineCredits] at credited
  have isEntered (id : BlockId) : id ∈ file.index.entered line ↔ _ :=
    mem_entered_iff indexed consistent
  have isOwner (id : BlockId) : file.index.owner[line]? = some id ↔ _ :=
    ownerOf_eq_some_iff indexed consistent
  refine ⟨?frame, fun id block stored enters => ?entered,
    fun id block stored owns calm => ?innermost, fun id none => ?others⟩
  case frame =>
    have blocks := file.blocks_perform_frame (.hit line .line)
    rw [perform] at blocks
    rw [← blocks]
    rfl
  case entered =>
    rw [credited, stored, if_pos ((isEntered id).mpr ⟨block, stored, enters⟩)]
    rfl
  case innermost =>
    rw [credited, stored, if_neg, if_pos ((isOwner id).mpr ⟨block, stored, owns⟩)]
    · rfl
    · rw [isEntered]
      rintro ⟨other, same, enters⟩
      exact calm (Option.some.inj (stored.symm.trans same) ▸ enters)
  case others =>
    rw [credited, if_neg, if_neg]
    · exact Option.map_id'
    · rw [isOwner]
      rintro ⟨block, stored, owns⟩
      exact (none block stored).2 owns
    · rw [isEntered]
      rintro ⟨block, stored, enters⟩
      exact (none block stored).1 enters

/-- **Two arms that claim a line are one inside the other.** -/
theorem Claims.nested {one other : BlockRecord} (claims : file.Claims line one)
    (claims' : file.Claims line other) (stored : file.blocks.blocks[one.id]? = some one)
    (stored' : file.blocks.blocks[other.id]? = some other) (isArm : one.branch.isSome = true)
    (isArm' : other.branch.isSome = true) (differs : one.id ≠ other.id) :
    file.blocks.Encloses one.id other.id ∨ file.blocks.Encloses other.id one.id := by
  by_contra apart
  rw [not_or] at apart
  exact claims'.tells other
    (.itself stored' (BlockRecord.spansLine_of_mayOwnLine claims'.owns))
    (.shared isArm' stored isArm (BlockRecord.spansLine_of_mayOwnLine claims.owns) differs
      apart.1 apart.2)

end Effect

/-- **A hit on a line changes** the record of the line, the blocks that begin to run on it, and the
innermost block around it, if the line tells of them. So it never credits two arms of which at most
one ran. In the table of an analysis the innermost block is the one that no other is below. -/
theorem line_hit_effect (file : FileRecord) (indexed : file.IsIndexed)
    (consistent : file.blocks.Consistent) (line : Nat) :
    file.LineHitEffect line (file.hit line .line) ∧
    (∀ id : BlockId, file.ownerOf line = some id ↔
      ∃ block, file.blocks.blocks[id]? = some block ∧ file.Owns line block) ∧
    (∀ one other : BlockRecord, file.blocks.blocks[one.id]? = some one →
      file.blocks.blocks[other.id]? = some other → one.branch.isSome = true →
      other.branch.isSome = true → file.Enters line one ∨ file.Owns line one →
      file.Enters line other ∨ file.Owns line other → one.id ≠ other.id →
      file.blocks.Encloses one.id other.id ∨ file.blocks.Encloses other.id one.id) ∧
    (∀ (settings : AnalysisSettings) (source fileId : String),
      file.blocks.described = (analyze settings source fileId).blocks.described →
      ∀ (owner id : BlockId) (block : BlockRecord), file.ownerOf line = some owner →
        file.blocks.blocks[id]? = some block → file.blocks.Encloses owner id →
        ¬ file.Claims line block) := by
  have claims {block : BlockRecord} (credited : file.Enters line block ∨ file.Owns line block) :
      file.Claims line block := credited.elim And.left LineIndex.Innermost.own
  refine ⟨lineHitEffect_hit indexed consistent, fun id => ownerOf_eq_some_iff indexed consistent,
    fun one other stored stored' isArm isArm' credited credited' =>
      (claims credited).nested (claims credited') stored stored' isArm isArm', ?_⟩
  intro settings source fileId same owner id block isOwner stored encloses claimsLine
  obtain ⟨record, isRecord, owns⟩ := (ownerOf_eq_some_iff indexed consistent).mp isOwner
  obtain rfl := consistent.filed.own owner record isRecord
  obtain ⟨less, starts, ends⟩ := nests_of_described same isRecord encloses stored
  obtain rfl := consistent.filed.own id block stored
  have narrow : block.span ≤ record.span := Nat.sub_le_sub_right ends _ |>.trans
    (Nat.sub_le_sub_left starts _)
  -- the block below is no wider and has a greater number, so it would be the innermost one
  rcases owns.least block (mem_values_iff.mpr ⟨_, stored⟩) claimsLine with wider | ⟨-, later⟩
  · exact Nat.not_lt_of_le narrow wider
  · exact Nat.not_le_of_lt less later

/-- A conditional on one line, in a loop. -/
def choiceInLoop : String := "while a do\n  if b then c() else d() end\n  e()\nend\n"

/-- The line of the conditional counts it, and neither arm is credited. -/
theorem line_hit_effect_choice :
    let file := ({ path := "/p/a.lua" } : FileRecord).register choiceInLoop
      (analyze ⟨.nonExecutable, 100⟩ choiceInLoop "/p/a.lua")
    let after := file.hit 2 .line
    (after.blocks.blocks[2]?).map BlockRecord.executionCount = some 1 ∧
      ∀ arm ∈ [3, 4], after.blocks.blocks[arm]? = file.blocks.blocks[arm]? := by
  intro file after
  let analysis := analyze ⟨.nonExecutable, 100⟩ choiceInLoop "/p/a.lua"
  have registered : Registered analysis file := registered_register _ _ (blocks_analyze _ _ _).1
  have indexed : file.IsIndexed := registered.index
  have consistent := registered.consistent (blocks_analyze _ _ _).1
  obtain ⟨effect, -⟩ := line_hit_effect file indexed consistent 2
  have isEntered : file.index.entered 2 = [2] := by decide +kernel
  have uncertain : ∀ arm ∈ [3, 4], arm ∈ file.blocks.blocks ∧ LineIndex.isUndecidable file.blocks
      (LineIndex.entries (LineIndex.runnable file.lines) file.blocks.blocks.values) arm 2 = true :=
    by decide +kernel
  refine ⟨?_, fun arm isArm => effect.others arm fun block stored => ?_⟩
  · obtain ⟨block, stored, enters⟩ := (mem_entered_iff indexed consistent).mp
      (isEntered ▸ List.mem_singleton_self 2)
    have counted : (file.blocks.blocks[2]?).map (fun block => block.enter.executionCount) =
        some 1 := by decide +kernel
    rw [stored] at counted
    rw [effect.entered 2 block stored enters]
    exact counted
  · obtain ⟨member, undecidable⟩ := uncertain arm isArm
    have notClaimed : ¬ file.Claims 2 block := fun claims => by
      have tells := (LineIndex.isUndecidable_eq_false_iff consistent member).mpr
        (consistent.filed.own arm block stored ▸ claims.tells)
      cases undecidable.symm.trans tells
    exact ⟨fun enters => notClaimed enters.1, fun owns => notClaimed owns.own⟩

end FileRecord

end LuaCoverage
