import LuaCoverage.Proofs.Analysis.SiteRecords
import LuaCoverage.Proofs.Analysis.UnrunAnalysis
import LuaCoverage.Proofs.Store.HitEffects
import LuaCoverage.Proofs.Store.IndexTables
import LuaCoverage.Proofs.Store.MergeOrder
import LuaCoverage.Proofs.Store.Registration

/-!
# Arms and the lines of their conditions

A hit on a line that holds part of a condition must not credit the arms that the condition picks
from. The index of a file knows nothing about conditions: it takes the first line of a conditional
that can run for the line of its condition. This guess is right when the whole condition is on that
line, and it does no harm when the arm begins below the condition, because then no line of the
condition is one of its own.

It is wrong in one case only. If an arm begins on the last line of its condition, and an earlier
line of the conditional can run, then the index takes that earlier line for the line of the
condition, and a hit on the last line credits the arm, whether the condition held or not
(`LineIndex.exists_earlier_of_credit`).
-/

set_option autoImplicit false

namespace LuaCoverage

/-! ## What an index tabulates -/

namespace LineIndex

section Build

variable {lines : LineMap LineRecord} {table : BlockTable}
  {functions : Std.ExtTreeMap Nat FunctionRecord} {line : Nat} {id : BlockId}

/-- **The owner of a line** is a block that owns it, and about which the line says something. -/
theorem owner_build (owned : (build lines table functions).owner[line]? = some id) :
    line ∈ runnable lines ∧
      isUndecidable table (entries (runnable lines) table.blocks.values) id line = false ∧
      ∃ block ∈ table.blocks.values, block.id = id ∧ block.mayOwnLine line = true := by
  obtain ⟨block, rfl, innermost⟩ := (owner_build_iff _ _ _ _ _).mp owned
  have painted := innermost.own
  simp only [isPaintedAt, Bool.and_eq_true, List.contains_iff_mem, Bool.not_eq_true'] at painted
  exact ⟨painted.1.1, painted.2, block, innermost.listed, rfl, painted.1.2⟩

/-- **What a hit on a line credits** owns the line, which can run and says something about it. -/
theorem exists_block_of_credit (filed : table.Filed) {credit : Credit}
    (member : credit ∈ (build lines table functions).lineCredits line) :
    canRun lines line = true ∧
      isUndecidable table (entries (runnable lines) table.blocks.values) credit.block line = false ∧
      ∃ block, table.blocks[credit.block]? = some block ∧ block.mayOwnLine line = true := by
  have stored : ∀ {block}, block ∈ table.blocks.values → table.blocks[block.id]? = some block := by
    intro block member
    obtain ⟨key, found⟩ := mem_values_iff.mp member
    rwa [filed.own key block found]
  rw [lineCredits] at member
  rcases List.mem_append.mp member with isEntry | isSign
  · obtain ⟨id, isEntered, rfl⟩ := List.mem_map.mp isEntry
    obtain ⟨block, isBlock, enters, decidable⟩ := (mem_entered_build_iff _ filed).mp isEntered
    exact ⟨enters.runs, decidable, block, isBlock, enters.owns⟩
  · split at isSign
    · cases isSign
    · rename_i owner isOwner
      obtain ⟨runs, decidable, block, isBlock, rfl, owns⟩ := owner_build isOwner
      split at isSign
      · cases isSign
      · obtain rfl := List.mem_singleton.mp isSign
        exact ⟨mem_runnable.mp runs, decidable, block, stored isBlock, owns⟩

end Build

/-! ## Conditions -/

/-- A line that says something about an arm is not the one that is taken for the line of its
condition. -/
theorem entry_ne_of_decidable {table : BlockTable} {entry : BlockMap Nat} {line : Nat}
    {id owner : BlockId} {arm : BlockRecord} (stored : table.blocks[id]? = some arm)
    (spans : arm.spansLine line = true) (isArm : arm.branch.isSome = true)
    (hangs : arm.parentId = some owner) (decidable : isUndecidable table entry id line = false) :
    entry[owner]? ≠ some line := by
  intro isEntry
  have some : table.blocks.size ≠ 0 := fun empty => by
    rw [← Std.ExtTreeMap.eq_empty_iff_size_eq_zero] at empty
    rw [empty, Std.ExtTreeMap.getElem?_empty] at stored
    cases stored
  obtain ⟨steps, isSize⟩ := Nat.exists_eq_succ_of_ne_zero some
  have picked : isPickedAt entry arm line = true := by
    rw [isPickedAt, hangs, Option.bind_some, isEntry]
    exact beq_self_eq_true _
  have doubtful : isDoubtful table entry arm line = true := by
    rw [isDoubtful, isArm, picked]
    simp
  rw [isUndecidable, isSize, isUndecidableWithin] at decidable
  simp only [stored, spans, if_true, doubtful, Bool.true_or] at decidable
  cases decidable

/-- **An arm is credited below the first line of its conditional that can run**, if at all. -/
theorem exists_earlier_of_credit {lines : LineMap LineRecord} {table : BlockTable}
    {functions : Std.ExtTreeMap Nat FunctionRecord} {line : Nat} {owner arm : BlockRecord}
    {id : BlockId} (filed : table.Filed) (isOwner : table.blocks[owner.id]? = some owner)
    (conditional : owner.kind = .conditional) (around : owner.spansLine line = true)
    (isStored : table.blocks[id]? = some arm) (isArm : arm.branch.isSome = true)
    (hangs : arm.parentId = some owner.id) {credit : Credit} (isCredit : credit.block = id)
    (member : credit ∈ (build lines table functions).lineCredits line) :
    arm.spansLine line = true ∧
      ∃ earlier, owner.startLine ≤ earlier ∧ earlier < line ∧ canRun lines earlier = true := by
  subst isCredit
  obtain ⟨runs, decidable, block, stored, owns⟩ := exists_block_of_credit filed member
  obtain rfl := Option.some.inj (stored.symm.trans isStored)
  have spans := BlockRecord.spansLine_of_mayOwnLine owns
  refine ⟨spans, ?_⟩
  have owns' : owner.mayOwnLine = owner.spansLine := by
    funext other
    rw [BlockRecord.mayOwnLine, conditional, if_neg (by simp)]
  have notEntry := entry_ne_of_decidable isStored spans isArm hangs decidable
  have declared : declaredBlock table.blocks.values owner.id = some owner :=
    (declaredBlock_eq_some filed.declarable).mpr ⟨mem_values_iff.mpr ⟨_, isOwner⟩, rfl⟩
  rw [getElem?_entries _ filed.declarable.distinct, declared, Option.bind_some, owns'] at notEntry
  obtain ⟨earlier, isFirst⟩ : ∃ earlier, (runnable lines).find? owner.spansLine = some earlier :=
    Option.isSome_iff_exists.mp (List.find?_isSome.mpr ⟨line, mem_runnable.mpr runs, around⟩)
  have within := List.find?_some isFirst
  rw [BlockRecord.spansLine, Bool.and_eq_true, decide_eq_true_iff] at within
  refine ⟨earlier, within.1, ?_, mem_runnable.mp (List.mem_of_find?_eq_some isFirst)⟩
  obtain ⟨-, front, back, isList, none⟩ := List.find?_eq_some_iff_append.mp isFirst
  have listed : line ∈ front ++ earlier :: back := isList ▸ mem_runnable.mpr runs
  rcases List.mem_append.mp listed with inFront | behind
  · exact absurd around (by simpa using none line inFront)
  · rcases List.mem_cons.mp behind with rfl | behind
    · exact absurd isFirst notEntry
    · have sorted := (sortedLT_runnable lines).pairwise
      rw [isList] at sorted
      exact (List.pairwise_cons.mp (List.pairwise_append.mp sorted).2.1).1 line behind

end LineIndex

/-! ## Hits on a source -/

/-- Credits for other blocks leave a block alone. -/
theorem BlockTable.getElem?_foldl_credit_of_ne {credits : List Credit} {id : BlockId}
    (others : ∀ credit ∈ credits, credit.block ≠ id) (table : BlockTable) :
    (credits.foldl BlockTable.credit table).blocks[id]? = table.blocks[id]? := by
  induction credits generalizing table with
  | nil => rfl
  | cons first rest ih =>
      rw [List.foldl_cons, ih (fun credit member => others credit (List.mem_cons_of_mem _ member)),
        BlockTable.credit, getElem?_modifyBlock, if_neg (others first List.mem_cons_self)]

/-- **A credited block has run.** -/
theorem BlockTable.executed_foldl_credit {credits : List Credit} {table : BlockTable} {id : BlockId}
    {record : BlockRecord} (stored : table.blocks[id]? = some record)
    (runs : record.executed = true ∨ ∃ credit ∈ credits, credit.block = id) :
    ((credits.foldl BlockTable.credit table).blocks[id]?).any BlockRecord.executed = true := by
  induction credits generalizing table record with
  | nil =>
      obtain ran | ⟨credit, none, -⟩ := runs
      · rw [List.foldl_nil, stored, Option.any_some, ran]
      · cases none
  | cons first rest ih =>
      have after : (table.credit first).blocks[id]? =
          some (if first.block = id then first.change record else record) := by
        rw [BlockTable.credit, getElem?_modifyBlock, stored]
        split <;> rfl
      refine ih after ?_
      by_cases own : first.block = id
      · left
        rw [if_pos own]
        cases first <;> rfl
      · rw [if_neg own]
        refine runs.imp_right ?_
        rintro ⟨credit, member, same⟩
        rcases List.mem_cons.mp member with rfl | member
        · exact absurd same own
        · exact ⟨credit, member, same⟩

namespace FileRecord

/-- What is recorded on a file changes neither its index nor whether it is tracked. -/
theorem performAll_frame (file : FileRecord) (operations : List HitOperation) :
    (file.performAll operations).index = file.index ∧
      (file.performAll operations).active = file.active := by
  induction operations generalizing file with
  | nil => exact ⟨rfl, rfl⟩
  | cons first rest ih =>
      obtain ⟨index, active, -⟩ := file.perform_frame first
      obtain ⟨index', active'⟩ := ih (file.perform first)
      exact ⟨index'.trans index, active'.trans active⟩

section Registered

variable {settings : AnalysisSettings} {source path : String} {tree : Syntax.Node}
  {file : FileRecord}

/-- The record of a site in a file on which nothing was hit. -/
theorem Registered.exists_record (parsed : Syntax.parse? source = some tree)
    (fits : source.utf8ByteSize ≤ settings.maxFileBytes)
    (registered : Registered (analyze settings source path) file) {site : Outline.Site}
    (member : site ∈ Outline.sites source tree) :
    ∃ record, file.blocks.blocks[site.1.id]? = some record ∧ record.bare = site.1.bare := by
  have isAnalysis : analyze settings source path = .ofTree settings source path tree := by
    rw [analyze, if_neg (Nat.not_lt_of_le fits), parsed]
  have listed : site.1 ∈ (Outline.ofTree source tree).blocks := by
    rw [← (Outline.sited_of_parse parsed).1]
    exact List.mem_map_of_mem member
  have found : declaredBlock (Outline.ofTree source tree).blocks site.1.id = some site.1 :=
    (declaredBlock_eq_some (Outline.declarable_of_parse parsed)).mpr ⟨listed, rfl⟩
  have stored := congrFun registered.blocks site.1.id
  rw [isAnalysis, bare_ofTree parsed, found] at stored
  exact Option.map_eq_some_iff.mp stored

theorem Registered.canRun_iff (registered : Registered (analyze settings source path) file)
    {line : Nat} : LineIndex.canRun file.lines line = true ↔
      (analyze settings source path).isExecutable line = true := by
  rw [isExecutable_analyze, LineIndex.canRun, registered.lines, Option.any_map, Option.any_eq_true]
  rfl

/-- **A line of a condition does not credit the arms that it picks from**, unless an arm begins on
the last line of the condition and an earlier line of the conditional can run. -/
theorem Registered.spares_arm (parsed : Syntax.parse? source = some tree)
    (fits : source.utf8ByteSize ≤ settings.maxFileBytes)
    (registered : Registered (analyze settings source path) file) {arm : Outline.Site}
    (member : arm ∈ Outline.sites source tree) (isArm : arm.1.branch.isSome = true) :
    ∃ owner ∈ Outline.sites source tree, ∃ condition, arm.1.parentId = some owner.1.id ∧
      owner.2.isConditional = true ∧ owner.2.condition? = some condition ∧
      ∀ line, condition.firstLine ≤ line → line ≤ condition.lastLine →
        (arm.2.firstLine = condition.lastLine → ∀ earlier, owner.2.firstLine ≤ earlier →
          earlier < condition.lastLine →
          (analyze settings source path).isExecutable earlier = false) →
        ∀ credit ∈ file.index.lineCredits line, credit.block ≠ arm.1.id := by
  obtain ⟨-, next, sited⟩ := Outline.sited_of_parse parsed
  obtain never | ⟨owner, isOwner, selects⟩ := sited.arms arm member isArm
  · exact never.elim
  obtain ⟨condition, isCondition, starts, -, ends, below⟩ := selects.condition
  refine ⟨owner, isOwner, condition, selects.parent, selects.isConditional, isCondition,
    fun line first last clear credit isCredit same => ?_⟩
  obtain ⟨armRecord, isStored, armSame⟩ := registered.exists_record parsed fits member
  obtain ⟨ownerRecord, isOwnerRecord, ownerSame⟩ := registered.exists_record parsed fits isOwner
  have field {α : Type} (part : BlockRecord → α) {own other : BlockRecord}
      (same : own.bare = other.bare) : part own.bare = part other.bare := congrArg part same
  have ownId : ownerRecord.id = owner.1.id := field BlockRecord.id ownerSame
  have ownKind : ownerRecord.kind = .conditional :=
    (field BlockRecord.kind ownerSame).trans selects.kind
  have ownStart : ownerRecord.startLine = owner.1.startLine := field BlockRecord.startLine ownerSame
  have ownEnd : ownerRecord.endLine = owner.1.endLine := field BlockRecord.endLine ownerSame
  have armStart : armRecord.startLine = arm.1.startLine := field BlockRecord.startLine armSame
  have armBranch : armRecord.branch = arm.1.branch := field BlockRecord.branch armSame
  have armParent : armRecord.parentId = some owner.1.id :=
    (field BlockRecord.parentId armSame).trans selects.parent
  have around : ownerRecord.spansLine line = true := by
    rw [BlockRecord.spansLine, ownStart, ownEnd, Bool.and_eq_true, decide_eq_true_iff,
      decide_eq_true_iff]
    exact ⟨Nat.le_trans starts first, Nat.le_trans last ends⟩
  rw [registered.index] at isCredit
  obtain ⟨spans, earlier, within, before, runs⟩ := LineIndex.exists_earlier_of_credit
    registered.settled.linked.filed (ownId.symm ▸ isOwnerRecord) ownKind around isStored
    (armBranch ▸ isArm) (ownId.symm ▸ armParent) same isCredit
  rw [BlockRecord.spansLine, Bool.and_eq_true, decide_eq_true_iff, armStart] at spans
  have onLast : line = condition.lastLine := Nat.le_antisymm last (Nat.le_trans below spans.1)
  have begins : arm.2.firstLine = condition.lastLine := by
    rw [← sited.begins arm member]
    exact Nat.le_antisymm (onLast ▸ spans.1) below
  have cannot := clear begins earlier
    (by rw [← sited.begins owner isOwner, ← ownStart]; exact within) (onLast ▸ before)
  rw [registered.canRun_iff] at runs
  cases runs.symm.trans cannot

end Registered

end FileRecord

namespace CoverageStore

/-- **A line hit on a line of a condition does not mark the arms that it picks from**, whatever was
recorded on the file before, unless an arm begins on the last line of the condition and an earlier
line of the conditional can run. -/
theorem condition_lines_spare_arms {settings : AnalysisSettings} {source path : String}
    {tree : Syntax.Node} (parsed : Syntax.parse? source = some tree)
    (fits : source.utf8ByteSize ≤ settings.maxFileBytes) {store : CoverageStore}
    (isNew : store.IsNew path) {arm : Outline.Site} (member : arm ∈ Outline.sites source tree)
    (isArm : arm.1.branch.isSome = true) :
    ∃ owner ∈ Outline.sites source tree, ∃ condition, arm.1.parentId = some owner.1.id ∧
      owner.2.isConditional = true ∧ owner.2.condition? = some condition ∧
      ∀ line, condition.firstLine ≤ line → line ≤ condition.lastLine →
        (arm.2.firstLine = condition.lastLine → ∀ earlier, owner.2.firstLine ≤ earlier →
          earlier < condition.lastLine →
          (analyze settings source path).isExecutable earlier = false) →
        let tracked := store.track path source (analyze settings source path)
        (∃ record, (tracked.perform path (.hit line .line)).block? path arm.1.id = some record ∧
          record.executed = false) ∧
        ∀ operations : List HitOperation,
          ((tracked.performAll path operations).perform path (.hit line .line)).block? path
            arm.1.id = (tracked.performAll path operations).block? path arm.1.id := by
  let file := ({ path := path } : FileRecord).register source (analyze settings source path)
  have registered : FileRecord.Registered (analyze settings source path) file :=
    FileRecord.registered_register path source (blocks_analyze _ _ _).1
  obtain ⟨owner, isOwner, condition, hangs, isConditional, isCondition, spares⟩ :=
    registered.spares_arm parsed fits member isArm
  refine ⟨owner, isOwner, condition, hangs, isConditional, isCondition, ?_⟩
  intro line first last clear tracked
  have others := spares line first last clear
  have tracks : tracked.files[path]? = some file := getElem?_track isNew source _
  have unmoved : ∀ operations : List HitOperation,
      ((tracked.performAll path operations).perform path (.hit line .line)).block? path arm.1.id =
        (tracked.performAll path operations).block? path arm.1.id := by
    intro operations
    have before := getElem?_performAll tracks registered.active operations
    obtain ⟨index, active⟩ := file.performAll_frame operations
    rw [block?, block?, getElem?_perform before (active.trans registered.active), before,
      Option.bind_some, Option.bind_some, FileRecord.blocks_perform, index]
    exact BlockTable.getElem?_foldl_credit_of_ne others _
  refine ⟨?_, unmoved⟩
  obtain ⟨record, isRecord, same⟩ := registered.exists_record parsed fits member
  refine ⟨record, ?_, ?_⟩
  · refine (unmoved []).trans ?_
    show (tracked.files[path]?).bind _ = _
    rw [tracks, Option.bind_some, isRecord]
  · have listed : arm.1 ∈ (Outline.ofTree source tree).blocks := by
      rw [← (Outline.sited_of_parse parsed).1]
      exact List.mem_map_of_mem member
    have unrun : record.bare.executed = arm.1.bare.executed := congrArg BlockRecord.executed same
    exact unrun.trans ((from_ofTree parsed).blocks arm.1 listed).1

/-- A hit on a line of a file that was tracked for the first time marks the blocks it enters. -/
theorem executed_of_entered {store : CoverageStore} {path source : String} {analysis : Analysis}
    (isNew : store.IsNew path) (consistent : analysis.blocks.Consistent) {line : Nat} {id : BlockId}
    (isEntered : id ∈
      (({ path := path } : FileRecord).register source analysis).index.entered line)
    (known : id ∈ (({ path := path } : FileRecord).register source analysis).blocks.blocks) :
    (((store.track path source analysis).perform path (.hit line .line)).block? path id).any
      BlockRecord.executed = true := by
  have registered := FileRecord.registered_register path source consistent
  obtain ⟨record, stored⟩ := mem_map_iff.mp known
  rw [block?, getElem?_perform (getElem?_track isNew source analysis) registered.active,
    Option.bind_some, FileRecord.blocks_perform]
  exact BlockTable.executed_foldl_credit stored
    (.inr ⟨_, List.mem_append_left _ (List.mem_map_of_mem isEntered), rfl⟩)

/-- A condition on two lines with both arms below it. -/
def tallConditional : String := "if a and\n  b then\n  c()\nelse\n  d()\nend\n"

/-- The tree of the source. -/
def tallTree : Syntax.Node := (Syntax.parse? tallConditional).get (by decide +kernel)

/-- A hit on the last line of the condition does not mark the `else` arm. -/
theorem condition_lines_spare_arms_below :
    let tracked := CoverageStore.empty.track "/p/a.lua" tallConditional
      (analyze ⟨.nonExecutable, 100⟩ tallConditional "/p/a.lua")
    ∃ record, (tracked.perform "/p/a.lua" (.hit 2 .line)).block? "/p/a.lua" 3 = some record ∧
      record.executed = false := by
  intro tracked
  have parsed : Syntax.parse? tallConditional = some tallTree := (Option.some_get _).symm
  have isNew : CoverageStore.empty.IsNew "/p/a.lua" :=
    isNew_of_not_mem Std.ExtTreeMap.not_mem_empty
  have arms : ∃ arm ∈ Outline.sites tallConditional tallTree,
      arm.1.id = 3 ∧ arm.1.branch.isSome = true := by decide +kernel
  have conditions : ∀ arm ∈ Outline.sites tallConditional tallTree, arm.1.id = 3 →
      ∀ owner ∈ Outline.sites tallConditional tallTree, arm.1.parentId = some owner.1.id →
        arm.2.firstLine = 4 ∧
          owner.2.condition?.map (fun condition => (condition.firstLine, condition.lastLine)) =
            some (1, 2) := by decide +kernel
  obtain ⟨arm, member, isId, isArm⟩ := arms
  obtain ⟨owner, isOwner, condition, hangs, -, isCondition, spares⟩ :=
    @condition_lines_spare_arms ⟨.nonExecutable, 100⟩ _ "/p/a.lua" _ parsed (by decide +kernel) _
      isNew arm member isArm
  obtain ⟨begins, isLines⟩ := conditions arm member isId owner isOwner hangs
  rw [isCondition, Option.map_some] at isLines
  obtain ⟨first, last⟩ := Prod.mk.inj (Option.some.inj isLines)
  have spared := (spares 2 (by rw [first]; decide) (by rw [last])
    fun same => absurd (begins.symm.trans (same.trans last)) (by decide)).1
  rwa [isId] at spared

/-- A condition on two lines with its arm on the second. -/
def flatConditional : String := "if a and\n   b then c() end\n"

/-- The tree of the source. -/
def flatTree : Syntax.Node := (Syntax.parse? flatConditional).get (by decide +kernel)

/-- **An arm that begins on the last line of its condition** is marked by a hit on that line, if an
earlier line of the conditional can run: the condition of this one may be false. -/
theorem condition_line_marks_arm :
    let tracked := CoverageStore.empty.track "/p/a.lua" flatConditional
      (analyze ⟨.nonExecutable, 100⟩ flatConditional "/p/a.lua")
    Syntax.parse? flatConditional = some flatTree ∧
      ∃ owner ∈ Outline.sites flatConditional flatTree,
      ∃ arm ∈ Outline.sites flatConditional flatTree,
        arm.1.branch = some .thenArm ∧ arm.1.parentId = some owner.1.id ∧
        (owner.2.condition?.any fun condition =>
          condition.firstLine ≤ 2 && 2 ≤ condition.lastLine) = true ∧
        ((tracked.perform "/p/a.lua" (.hit 2 .line)).block? "/p/a.lua" arm.1.id).any
          BlockRecord.executed = true := by
  intro tracked
  have parsed : Syntax.parse? flatConditional = some flatTree := (Option.some_get _).symm
  have marked : ((tracked.perform "/p/a.lua" (.hit 2 .line)).block? "/p/a.lua" 2).any
      BlockRecord.executed = true :=
    executed_of_entered (isNew_of_not_mem Std.ExtTreeMap.not_mem_empty)
      (blocks_analyze _ _ _).1 (by decide +kernel) (by decide +kernel)
  have hangs : ∃ owner ∈ Outline.sites flatConditional flatTree,
      ∃ arm ∈ Outline.sites flatConditional flatTree, arm.1.id = 2 ∧
        arm.1.branch = some .thenArm ∧ arm.1.parentId = some owner.1.id ∧
        (owner.2.condition?.any fun condition =>
          condition.firstLine ≤ 2 && 2 ≤ condition.lastLine) = true := by decide +kernel
  obtain ⟨owner, isOwner, arm, isArm, isId, branch, parent, condition⟩ := hangs
  refine ⟨parsed, owner, isOwner, arm, isArm, branch, parent, condition, ?_⟩
  rw [isId]
  exact marked

end CoverageStore

end LuaCoverage
