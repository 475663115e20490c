import LuaCoverage.Proofs.Analysis.AnalyzedTables
import LuaCoverage.Proofs.Session.TracedEvents
import LuaCoverage.Proofs.Store.PickedArms

/-!
# The function and the block that a call credits

A hook reports of a call only the line on which the called function starts. If several functions
start there, the record that is counted is that of the first one, but the block that is credited is
that of the last one that lies on the line alone. So the two belong to one definition only if there
is no choice: if the counted function is the one and only function that lies on the line alone
(`Recording.call_credits_one_definition`).

What a traced run makes of a file is what some operations make of its record when it was registered
(`Recording.Played`), and such a record still has the blocks and the functions of the analysis
(`FileRecord.Describes`).
-/

set_option autoImplicit false

namespace LuaCoverage

/-! ## Files with the descriptions of an analysis -/

namespace FileRecord

/-- A tracked file with the blocks and functions of an analysis, and a current index. -/
structure Describes (analysis : Analysis) (file : FileRecord) : Prop where
  active : file.active = true
  analyzed : file.isAnalyzed = true
  indexed : file.IsIndexed
  blocks : file.blocks.described = analysis.blocks.described
  functions : FunctionsDescribed analysis file.functions

/-- The functions of a file, each with the block of a function that has the same place in the order
of numbers. -/
def definitions (file : FileRecord) : List (FunctionRecord × BlockRecord) :=
  file.functions.values.zip file.blocks.functionBlocks

/-- The definitions of a file are all its functions and all its blocks of functions, in the order of
both numbers, each function with a block on the same lines. -/
structure DefinitionsMatch (file : FileRecord) : Prop where
  functions : file.definitions.map Prod.fst = file.functions.values
  blocks : file.definitions.map Prod.snd = file.blocks.functionBlocks
  ascending : file.definitions.Pairwise fun first second =>
    first.1.id < second.1.id ∧ first.2.id < second.2.id
  lines : ∀ definition ∈ file.definitions,
    definition.1.startLine = definition.2.startLine ∧ definition.1.endLine = definition.2.endLine

section Describes

variable {analysis : Analysis} {file : FileRecord}

/-- A file that is registered has the blocks and functions of its analysis. -/
theorem describes_register (path source : String) (consistent : analysis.blocks.Consistent) :
    Describes analysis (({ path := path } : FileRecord).register source analysis) := by
  have registered := registered_register path source consistent
  refine ⟨registered.active, ?_, registered.index, BlockTable.described_of_bare registered.blocks,
    fun id => congrArg _ (registered.functions id)⟩
  show (analysis.quality != .untracked) = true
  rw [Analysis.quality]
  cases analysis.parsed <;> rfl

/-- **An operation changes no description**, and keeps the index of an analyzed file current. -/
theorem Describes.perform (describes : file.Describes analysis) (operation : HitOperation) :
    (file.perform operation).Describes analysis := by
  obtain ⟨-, active, quality⟩ := file.perform_frame operation
  refine ⟨active.trans describes.active, ?_, ?_, ?_, fun id => ?_⟩
  · rw [isAnalyzed, quality]
    exact describes.analyzed
  · refine describes.indexed.perform describes.active ?_
    cases operation <;> simp [disturbedBy, guessesInBlock, describes.analyzed]
  · rw [blocks_perform, BlockTable.described_foldl_credit]
    exact describes.blocks
  · rw [functions_perform, ← describes.functions id]
    split
    · rw [Option.map_map]
      rfl
    · rfl

theorem Describes.performAll (describes : file.Describes analysis)
    (operations : List HitOperation) : (file.performAll operations).Describes analysis := by
  induction operations generalizing file with
  | nil => exact describes
  | cons first rest ih => exact ih (describes.perform first)

theorem Describes.filed (describes : file.Describes analysis)
    (filed : analysis.blocks.Filed) : file.blocks.Filed := by
  have alike (id : BlockId) : (file.blocks.blocks[id]?).map BlockRecord.description =
      (analysis.blocks.blocks[id]?).map BlockRecord.description := by
    rw [← BlockTable.getElem?_described, describes.blocks, BlockTable.getElem?_described]
  refine ⟨fun id block stored => ?_, fun isRoot => filed.noRoot ?_⟩
  · have described := alike id
    rw [stored, Option.map_some] at described
    obtain ⟨other, stored', same⟩ := Option.map_eq_some_iff.mp described.symm
    exact (congrArg BlockRecord.id same).symm.trans (filed.own id other stored')
  · obtain ⟨block, stored⟩ := mem_map_iff.mp isRoot
    have described := alike BlockId.root
    rw [stored, Option.map_some] at described
    obtain ⟨other, stored', -⟩ := Option.map_eq_some_iff.mp described.symm
    exact mem_map_iff.mpr ⟨other, stored'⟩

theorem Describes.functionsFiled (describes : file.Describes analysis) :
    file.FunctionsFiled := by
  intro id function found
  have described := describes.functions id
  rw [found, Option.map_some] at described
  obtain ⟨other, found', same⟩ := Option.map_eq_some_iff.mp described.symm
  have isId : other.id = id := by simpa using List.find?_some found'
  exact (congrArg FunctionRecord.id same).symm.trans isId

end Describes

/-- Of two items of a list that ascends in two numbers, one comes first in both, or they are
equal. -/
theorem pairwise_apart {α : Type} {one two : α → Nat} {items : List α}
    (ascending : items.Pairwise fun first second => one first < one second ∧
      two first < two second) {first second : α} (member : first ∈ items)
    (member' : second ∈ items) : (one first < one second ∧ two first < two second) ∨
      (one second < one first ∧ two second < two first) ∨ first = second := by
  let Apart (first second : α) : Prop := (one first < one second ∧ two first < two second) ∨
    (one second < one first ∧ two second < two first) ∨ first = second
  have forward : items.Pairwise Apart := ascending.imp .inl
  have backward : items.Pairwise (flip Apart) := ascending.imp fun less => .inr (.inl less)
  exact forward.forall_of_forall_of_flip (fun _ _ => .inr (.inr rfl)) backward member member'

section Definitions

variable {settings : AnalysisSettings} {source path : String} {file : FileRecord}

/-- **The definitions of an analyzed file** are in order. -/
theorem Describes.definitionsMatch (describes : file.Describes (analyze settings source path)) :
    file.DefinitionsMatch := by
  obtain ⟨length, ascending, lines⟩ := paired_of_described
    (describes.filed (blocks_analyze _ _ _).1.filed) describes.blocks describes.functions
  exact ⟨List.map_fst_zip (Nat.le_of_eq length), List.map_snd_zip (Nat.le_of_eq length.symm),
    ascending, lines⟩

/-- **Where a call leads to one definition.** The first function that starts on a line and the last
block of a function that lies on it belong together if and only if that function is the only one
that lies on the line. -/
theorem Describes.exists_definition_iff
    (describes : file.Describes (analyze settings source path)) {line function block : Nat}
    (isFunction : file.index.functionAt[line]? = some function)
    (isBlock : file.index.inlineFunction[line]? = some block) :
    (∃ definition ∈ file.definitions,
        definition.1.id = function ∧ definition.2.id = block) ↔
      ∀ (id : Nat) (other : FunctionRecord), file.functions[id]? = some other →
        (other.startLine = line ∧ other.endLine = line ↔ id = function) := by
  have filed := describes.filed (blocks_analyze _ _ _).1.filed
  obtain ⟨isFirst, isSecond, ascending, lines⟩ := describes.definitionsMatch
  have isIndex : file.index = .build file.lines file.blocks file.functions := describes.indexed
  rw [isIndex, functionAt_build, functionStarts_eq_some_iff describes.functionsFiled] at isFunction
  rw [isIndex, LineIndex.inlineFunction_build_iff _ filed] at isBlock
  obtain ⟨⟨own, stored, starts⟩, least⟩ := isFunction
  obtain ⟨runs, ⟨last, stored', isLast, starts', ends'⟩, greatest⟩ := isBlock
  obtain rfl := describes.functionsFiled function own stored
  obtain rfl := filed.own block last stored'
  -- the definition of the credited block, whose function lies on the line as well
  obtain ⟨definition, member, isLastBlock⟩ : ∃ definition ∈ file.definitions,
      definition.2 = last := List.mem_map.mp (isSecond ▸ List.mem_filter.mpr
        ⟨mem_values_iff.mpr ⟨_, stored'⟩, beq_iff_eq.mpr isLast⟩)
  obtain ⟨begins, stops⟩ := lines definition member
  rw [isLastBlock, starts'] at begins
  rw [isLastBlock, ends'] at stops
  have isStored : file.functions[definition.1.id]? = some definition.1 := by
    obtain ⟨key, found⟩ := mem_values_iff.mp (isFirst ▸ List.mem_map_of_mem member)
    rwa [describes.functionsFiled key _ found]
  constructor
  · rintro ⟨chosen, isChosen, sameFunction, sameBlock⟩ id other found
    obtain rfl := describes.functionsFiled id other found
    have same : chosen = definition := by
      have apart := pairwise_apart ascending isChosen member
      rw [isLastBlock] at apart
      grind
    subst same
    constructor
    · rintro ⟨otherStarts, otherEnds⟩
      obtain ⟨definition', member', isOther⟩ : ∃ definition ∈ file.definitions,
          definition.1 = other :=
        List.mem_map.mp (isFirst ▸ mem_values_iff.mpr ⟨_, found⟩)
      obtain ⟨begins', stops'⟩ := lines definition' member'
      have isBlock' : definition'.2 ∈ file.blocks.functionBlocks :=
        isSecond ▸ List.mem_map_of_mem member'
      obtain ⟨value, isFunction'⟩ := List.mem_filter.mp isBlock'
      obtain ⟨key, stored''⟩ := mem_values_iff.mp value
      have notLater := greatest key definition'.2 stored'' (beq_iff_eq.mp isFunction')
        (begins'.symm.trans (isOther ▸ otherStarts)) (stops'.symm.trans (isOther ▸ otherEnds))
      have notEarlier := least other.id other found otherStarts
      have apart := pairwise_apart ascending isChosen member'
      rw [isLastBlock, isOther, filed.own key _ stored'', sameFunction] at apart
      grind
    · intro isOwn
      have itself : other = chosen.1 := by
        rw [isOwn, ← sameFunction, isStored] at found
        exact (Option.some.inj found).symm
      exact itself ▸ ⟨begins, stops⟩
  · intro only
    refine ⟨definition, member, ?_, congrArg BlockRecord.id isLastBlock⟩
    exact (only _ _ isStored).mp ⟨begins, stops⟩

end Definitions

section Credited

variable {file : FileRecord} {line : Nat}

/-- The file after a call, and after the credit for a function that lies on one line, if they are
allowed. -/
def afterCall (file : FileRecord) (line : Nat) (called credited : Bool) : FileRecord :=
  let counted := if called then file.perform (.call line) else file
  if credited then counted.perform (.callInline line) else counted

/-- A call changes the record of the first function that starts on the line. -/
theorem functionAt_of_afterCall {called credited : Bool} {id : Nat}
    (changed : (file.afterCall line called credited).functions[id]? ≠ file.functions[id]?) :
    file.index.functionAt[line]? = some id := by
  by_contra elsewhere
  refine changed ?_
  cases called <;> cases credited <;>
    simp [afterCall, functions_perform, LineIndex.calls, elsewhere]

/-- The credit goes to the last block of a function that lies on the line. -/
theorem inlineFunction_of_afterCall {called credited : Bool} {id : BlockId}
    (changed : (file.afterCall line called credited).blocks.blocks[id]? ≠
      file.blocks.blocks[id]?) :
    file.index.inlineFunction[line]? = some id := by
  have calm : (file.perform (.call line)).blocks = file.blocks :=
    file.blocks_perform (.call line)
  have index : (file.perform (.call line)).index = file.index := (file.perform_frame _).1
  by_contra elsewhere
  have others : ∀ credit ∈ file.index.credits (.callInline line), credit.block ≠ id := by
    intro credit member same
    obtain ⟨block, isInline, rfl⟩ := List.mem_map.mp member
    exact elsewhere (same ▸ Option.mem_toList.mp isInline)
  have unchanged (next : FileRecord) (blocks : next.blocks = file.blocks)
      (index : next.index = file.index) :
      (next.perform (.callInline line)).blocks.blocks[id]? = file.blocks.blocks[id]? := by
    rw [blocks_perform, blocks, index]
    exact BlockTable.getElem?_foldl_credit_of_ne others file.blocks
  refine changed ?_
  cases called <;> cases credited
  · rfl
  · exact unchanged file rfl rfl
  · exact congrArg (fun table : BlockTable => table.blocks[id]?) calm
  · exact unchanged _ calm index

end Credited

end FileRecord

/-! ## Traced runs -/

/-- The record of a file when it is tracked for the first time. -/
abbrev TrackingRules.newFile (rules : TrackingRules) (path source : String) : FileRecord :=
  ({ path := path } : FileRecord).register source (analyze rules.settings source path)

namespace Recording

/-- What a recording knows about a file whose source can be read: nothing yet, that it is excluded,
or the record that it had when it was registered, with some operations recorded on it. -/
inductive Played (recording : Recording) (path : String) (fresh : FileRecord)
    (analysis : Analysis) : Prop where
  | unseen (part : recording.part path = (none, none, none))
  | excluded (file : FileRecord) (part : recording.part path = (some file, some false, none))
      (inactive : file.active = false)
  | tracked (operations : List HitOperation)
      (part : recording.part path =
        (some (fresh.performAll operations), some true, some analysis))

section Played

variable {recording : Recording} {sources : PathMap String} {path source : String}
  {fresh : FileRecord} {analysis : Analysis}

theorem Played.of_part {other : Recording} (played : recording.Played path fresh analysis)
    (same : other.part path = recording.part path) : other.Played path fresh analysis := by
  cases played with
  | unseen part => exact .unseen (same.trans part)
  | excluded file part inactive => exact .excluded file (same.trans part) inactive
  | tracked operations part => exact .tracked operations (same.trans part)

/-- **An operation** is recorded on a tracked file, and changes nothing else. -/
theorem Played.attempted (played : recording.Played path fresh analysis)
    (active : fresh.active = true) (operation : HitOperation) (allowed : Bool) :
    (recording.attempted path operation allowed).Played path fresh analysis := by
  have idle (untracked : recording.store.tracked? path = none) :
      (recording.attempted path operation allowed).part path = recording.part path := by
    rw [Recording.attempted, CoverageStore.perform_untracked untracked]
    cases allowed <;> rfl
  have stored {known : Option FileRecord × Option Bool × Option Analysis}
      (same : recording.part path = known) : recording.store.files[path]? = known.1 :=
    congrArg (·.1) same
  cases played with
  | unseen part =>
      refine .unseen ((idle ?_).trans part)
      rw [CoverageStore.tracked?, stored part]
      rfl
  | excluded file part inactive =>
      refine .excluded file ((idle ?_).trans part) inactive
      rw [CoverageStore.tracked?, stored part, Option.filter_some, inactive]
      rfl
  | tracked operations part =>
      cases allowed with
      | false => exact .tracked operations part
      | true =>
          refine .tracked (operations ++ [operation]) (Prod.ext ?_ (congrArg (·.2) part))
          have isActive := (fresh.performAll_frame operations).2.trans active
          rw [FileRecord.performAll, List.foldl_concat]
          exact CoverageStore.getElem?_perform (stored part) isActive operation

/-- **Deciding about a file** registers it when it comes up for the first time, if it is wanted. -/
theorem Played.decideOn (readable : sources[path]? = some source)
    (played : recording.Played path (recording.rules.newFile path source)
      (analyze recording.rules.settings source path)) :
    (recording.decideOn sources path).1.Played path (recording.rules.newFile path source)
      (analyze recording.rules.settings source path) := by
  cases played with
  | excluded file part inactive =>
      rw [recording.decideOn_of_decided sources (congrArg (·.2.1) part)]
      exact .excluded file part inactive
  | tracked operations part =>
      rw [recording.decideOn_of_decided sources (congrArg (·.2.1) part)]
      exact .tracked operations part
  | unseen part =>
      have missing : path ∉ recording.store.files := by
        rw [Std.ExtTreeMap.mem_iff_isSome_getElem?, show recording.store.files[path]? = none from
          congrArg (·.1) part]
        exact Bool.false_ne_true
      have isNew := CoverageStore.isNew_of_not_mem missing
      have undecided : recording.decided[path]? = none := congrArg (·.2.1) part
      have unanalyzed : recording.analyses[path]? = none := congrArg (·.2.2) part
      rw [Recording.decideOn, undecided, meet]
      by_cases wanted : recording.rules.filter.rule path = true
      · rw [if_pos wanted, readable]
        exact .tracked [] (Prod.ext (CoverageStore.getElem?_track isNew source _)
          (Prod.ext Std.ExtTreeMap.getElem?_insert_self Std.ExtTreeMap.getElem?_insert_self))
      · rw [if_neg wanted]
        refine .excluded { path := path } (Prod.ext ?_
          (Prod.ext Std.ExtTreeMap.getElem?_insert_self unanalyzed)) rfl
        show (recording.store.put path (recording.store.fileOrEmpty path)).files[path]? = _
        rw [CoverageStore.put, Std.ExtTreeMap.getElem?_insert_self, isNew]

theorem active_newFile (rules : TrackingRules) (path source : String) :
    (rules.newFile path source).active = true :=
  (FileRecord.describes_register path source (blocks_analyze _ _ _).1).active

/-- A call is recorded, unless it is that of a whole chunk. -/
theorem Played.onCall (readable : sources[path]? = some source)
    (played : recording.Played path (recording.rules.newFile path source)
      (analyze recording.rules.settings source path)) (line : Nat) :
    (recording.onCall sources path line).1.Played path (recording.rules.newFile path source)
      (analyze recording.rules.settings source path) := by
  obtain ⟨recorded, same⟩ := recording.exists_onCall sources path line
  rw [same]
  refine Played.of_part ?_ (part_counted _ recorded path)
  split
  · exact played
  · exact (played.decideOn readable).attempted (active_newFile _ _ _) (.call line) _

/-- **Every event** on a file is recorded on it, if it is tracked. -/
theorem Played.onTraced (readable : sources[path]? = some source)
    (played : recording.Played path (recording.rules.newFile path source)
      (analyze recording.rules.settings source path)) (event : Event) :
    (recording.onTraced sources event).Played path (recording.rules.newFile path source)
      (analyze recording.rules.settings source path) := by
  by_cases here : event.file? recording.rules.root = some path
  · have itself {other : String} (named : event.file? recording.rules.root = some other) :
        other = path := Option.some.inj (named.symm.trans here)
    cases recording.outcome_onTraced sources event with
    | skipped unnamed _ => cases unnamed.symm.trans here
    | hit other line attribution named _ _ same =>
        obtain rfl := itself named
        obtain ⟨recorded, isHit⟩ := recording.exists_onHit sources other line attribution
        rw [same, isHit]
        refine Played.of_part ?_ (part_counted _ recorded other)
        exact (played.decideOn readable).attempted (active_newFile _ _ _) _ _
    | call other line named _ _ same =>
        obtain rfl := itself named
        rw [same]
        exact played.onCall readable line
    | hookedCall other line named _ _ same =>
        obtain rfl := itself named
        rw [same, onHookedCall_eq]
        exact (played.onCall readable line).attempted (active_newFile _ _ _) _ _
  · exact played.of_part (recording.part_onTraced sources here)

/-- **A traced run** plays some operations on each file whose source can be read. -/
theorem played_traced (rules : TrackingRules) (readable : sources[path]? = some source)
    (events : List Event) :
    let recording := events.foldl (fun next event => next.onTraced sources event)
      ({ rules := rules } : Recording)
    recording.rules = rules ∧ recording.Played path (rules.newFile path source)
      (analyze rules.settings source path) := by
  refine List.foldlRecOn (motive := fun recording : Recording => recording.rules = rules ∧
    recording.Played path (rules.newFile path source) (analyze rules.settings source path))
    _ _ ⟨rfl, .unseen rfl⟩ ?_
  rintro recording ⟨rfl, played⟩ event _
  exact ⟨(recording.onTraced_frame sources event).1, played.onTraced readable event⟩

/-- What an operation that may be allowed makes of a tracked file. -/
theorem files_attempted {file : FileRecord} (found : recording.store.files[path]? = some file)
    (active : file.active = true) (operation : HitOperation) (allowed : Bool) :
    (recording.attempted path operation allowed).store.files[path]? =
      some (if allowed then file.perform operation else file) := by
  cases allowed with
  | false => exact found
  | true => exact CoverageStore.getElem?_perform found active operation

/-- **What a call that a hook reported makes of a file**: nothing, or the file was tracked and
analyzed, and the call may be recorded on it. -/
theorem Played.onHookedCall (readable : sources[path]? = some source)
    (played : recording.Played path (recording.rules.newFile path source)
      (analyze recording.rules.settings source path)) {line : Nat} {file record : FileRecord}
    (found : (recording.decideOn sources path).1.store.files[path]? = some file)
    (found' : (recording.onHookedCall sources line path).store.files[path]? = some record) :
    record = file ∨ file.Describes (analyze recording.rules.settings source path) ∧
      ∃ called credited, record = file.afterCall line called credited := by
  rw [onHookedCall_eq] at found'
  by_cases chunk : line = 0
  · left
    have ignored : recording.onCall sources path line = (recording.counted false, false) := by
      rw [Recording.onCall, if_pos chunk]
    rw [ignored] at found'
    have stored : recording.store.files[path]? = some record := found'
    have decided {decision : Bool} (isDecided : recording.decided[path]? = some decision) :
        record = file := by
      rw [recording.decideOn_of_decided sources isDecided, stored] at found
      exact Option.some.inj found
    cases played with
    | unseen part => cases stored.symm.trans (congrArg (·.1) part)
    | excluded file' part inactive => exact decided (congrArg (·.2.1) part)
    | tracked operations part => exact decided (congrArg (·.2.1) part)
  · obtain ⟨recorded, same⟩ := recording.exists_onCall sources path line
    rw [if_neg chunk] at same
    rw [same] at found'
    have decided := played.decideOn readable
    revert found found' decided
    generalize recording.decideOn sources path = outcome
    generalize (recording.onCall sources path line).2 = allowed
    obtain ⟨next, decision⟩ := outcome
    intro found found' decided
    cases decided with
    | unseen part => cases found.symm.trans (congrArg (·.1) part)
    | excluded file' part inactive =>
        left
        obtain rfl := Option.some.inj (found.symm.trans (congrArg (·.1) part))
        have untracked : next.store.tracked? path = none := by
          rw [CoverageStore.tracked?, found, Option.filter_some, inactive]
          rfl
        have calm {other : Recording} (store : other.store = next.store)
            (operation : HitOperation) (allowed : Bool) :
            (other.attempted path operation allowed).store = next.store := by
          rw [Recording.attempted, store, CoverageStore.perform_untracked untracked]
          cases allowed
          · exact store
          · rfl
        have counted : ((next.attempted path (.call line) decision).counted recorded).store =
            next.store := calm rfl (.call line) decision
        rw [calm counted, found] at found'
        exact (Option.some.inj found').symm
    | tracked operations part =>
        right
        obtain rfl := Option.some.inj (found.symm.trans (congrArg (·.1) part))
        have describes := (FileRecord.describes_register path source
          (blocks_analyze recording.rules.settings source path).1).performAll operations
        refine ⟨describes, decision, allowed, ?_⟩
        have counted : ((next.attempted path (.call line) decision).counted recorded).store.files[
            path]? = _ := files_attempted found describes.active (.call line) decision
        refine Option.some.inj (found'.symm.trans (files_attempted counted ?_ _ allowed))
        cases decision
        · exact describes.active
        · exact (describes.perform (.call line)).active

end Played

/-- **The function and the block that one call credits.** They belong to one definition if and only
if the counted function is the only one that lies on the line alone. Before the event the file is
what it was when it came up, if it came up before. -/
theorem call_credits_one_definition {rules : TrackingRules} {sources : PathMap String}
    {path source : String} (readable : sources[path]? = some source) (events : List Event)
    {hook : String} {line : Nat} (named : Path.ofSourceId rules.root hook = .ok path) :
    let before := events.foldl (fun next event => next.onTraced sources event)
      ({ rules := rules } : Recording)
    let after := before.onTraced sources (.call hook line)
    ∀ (file record : FileRecord) (function block : Nat),
      (before.decideOn sources path).1.store.files[path]? = some file →
      after.store.files[path]? = some record →
      record.functions[function]? ≠ file.functions[function]? →
      record.blocks.blocks[block]? ≠ file.blocks.blocks[block]? →
      file.DefinitionsMatch ∧
      ((∃ definition ∈ file.definitions,
          definition.1.id = function ∧ definition.2.id = block) ↔
        ∀ (id : Nat) (other : FunctionRecord), file.functions[id]? = some other →
          (other.startLine = line ∧ other.endLine = line ↔ id = function)) := by
  intro before after file record function block found found' counted credited
  obtain ⟨ruled, played⟩ := played_traced rules readable events
  have hooked : after = before.onHookedCall sources line path := by
    show before.onSource hook _ = _
    rw [onSource, ruled, named]
  rw [hooked] at found'
  rcases Played.onHookedCall readable (ruled ▸ played) found found' with
    rfl | ⟨describes, called, credited', rfl⟩
  · exact absurd rfl counted
  · exact ⟨describes.definitionsMatch, describes.exists_definition_iff
      (FileRecord.functionAt_of_afterCall counted)
      (FileRecord.inlineFunction_of_afterCall credited)⟩

/-- What a run on one file goes by. -/
def callRules : TrackingRules :=
  { root := "/p", filter := { root := "/p", included := [], excluded := [] }
    settings := ⟨.nonExecutable, 1000⟩ }

/-- How often a function and the block of a function were counted. -/
def callCounts (function block : Nat) (file : FileRecord) : Option UInt64 × Option UInt64 :=
  ((file.functions[function]?).map FunctionRecord.executionCount,
    (file.blocks.blocks[block]?).map BlockRecord.executionCount)

/-- Records with different counts are different. -/
theorem ne_of_callCounts {function block : Nat} {file record : FileRecord}
    {counts counts' : Option UInt64 × Option UInt64}
    (before : callCounts function block file = counts)
    (after : callCounts function block record = counts') (first : counts'.1 ≠ counts.1)
    (second : counts'.2 ≠ counts.2) :
    record.functions[function]? ≠ file.functions[function]? ∧
      record.blocks.blocks[block]? ≠ file.blocks.blocks[block]? := by
  subst before after
  exact ⟨fun same => first (congrArg (Option.map FunctionRecord.executionCount) same),
    fun same => second (congrArg (Option.map BlockRecord.executionCount) same)⟩

/-- A function that lies on a line with another one that ends below it, and one that has its line to
itself. -/
def nestedCallbacks : String := "f(function() g(function() end)\nend)\nh(function() end)\n"

/-- The only function of its line is counted, and its own block is credited. -/
theorem call_credits_one_definition_alone :
    let sources : PathMap String := .ofList [("/p/a.lua", nestedCallbacks)]
    let before : Recording := { rules := callRules }
    ∃ file, (before.decideOn sources "/p/a.lua").1.store.files["/p/a.lua"]? = some file ∧
      ∃ definition ∈ file.definitions, definition.1.id = 3 ∧ definition.2.id = 3 := by
  intro sources before
  let after := before.onTraced sources (.call "@a.lua" 3)
  have isFile : ((before.decideOn sources "/p/a.lua").1.store.files["/p/a.lua"]?).map (fun file =>
      (callCounts 3 3 file, file.functions.toList.all fun entry =>
        decide (entry.2.startLine = 3 ∧ entry.2.endLine = 3 ↔ entry.1 = 3))) =
      some ((some 0, some 0), true) := by decide +kernel
  have isRecord : (after.store.files["/p/a.lua"]?).map (callCounts 3 3) =
      some (some 1, some 1) := by decide +kernel
  obtain ⟨file, found, same⟩ := Option.map_eq_some_iff.mp isFile
  obtain ⟨record, found', counts'⟩ := Option.map_eq_some_iff.mp isRecord
  obtain ⟨counts, only⟩ := Prod.mk.inj same
  obtain ⟨counted, credited⟩ := ne_of_callCounts counts counts' (by decide) (by decide)
  obtain ⟨-, belong⟩ := @call_credits_one_definition callRules sources "/p/a.lua" nestedCallbacks
    (by decide +kernel) [] "@a.lua" 3 (by decide +kernel) file record 3 3 found found' counted
    credited
  refine ⟨file, found, belong.mpr fun id other isOther => ?_⟩
  have listed := List.all_eq_true.mp only (id, other)
    (Std.ExtTreeMap.mem_toList_iff_getElem?_eq_some.mpr isOther)
  exact of_decide_eq_true listed

/-- Two functions that lie on one line. -/
def twoCallbacks : String := "f(function() return 1 end, function() return 2 end)\n"

/-- **One call counts the first function of its line and credits the block of the second.** -/
theorem call_credits_two_definitions :
    let sources : PathMap String := .ofList [("/p/a.lua", twoCallbacks)]
    let before : Recording := { rules := callRules }
    let after := before.onTraced sources (.call "@a.lua" 1)
    (Syntax.parse? twoCallbacks).isSome = true ∧ ∃ file record,
      (before.decideOn sources "/p/a.lua").1.store.files["/p/a.lua"]? = some file ∧
      after.store.files["/p/a.lua"]? = some record ∧
      record.functions[1]? ≠ file.functions[1]? ∧
      record.blocks.blocks[2]? ≠ file.blocks.blocks[2]? ∧
      ¬ ∃ definition ∈ file.definitions, definition.1.id = 1 ∧ definition.2.id = 2 := by
  intro sources before after
  have isFile : ((before.decideOn sources "/p/a.lua").1.store.files["/p/a.lua"]?).map (fun file =>
      (callCounts 1 2 file,
        file.definitions.map fun definition => (definition.1.id, definition.2.id))) =
      some ((some 0, some 0), [(1, 1), (2, 2)]) := by decide +kernel
  have isRecord : (after.store.files["/p/a.lua"]?).map (callCounts 1 2) =
      some (some 1, some 1) := by decide +kernel
  obtain ⟨file, found, same⟩ := Option.map_eq_some_iff.mp isFile
  obtain ⟨record, found', counts'⟩ := Option.map_eq_some_iff.mp isRecord
  obtain ⟨counts, pairs⟩ := Prod.mk.inj same
  obtain ⟨counted, credited⟩ := ne_of_callCounts counts counts' (by decide) (by decide)
  refine ⟨by decide +kernel, file, record, found, found', counted, credited, ?_⟩
  rintro ⟨definition, member, isFirst, isSecond⟩
  have listed := List.mem_map_of_mem (f := fun definition : FunctionRecord × BlockRecord =>
    (definition.1.id, definition.2.id)) member
  rw [pairs, isFirst, isSecond] at listed
  exact absurd listed (by decide)

end Recording

end LuaCoverage
