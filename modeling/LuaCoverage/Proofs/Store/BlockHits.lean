import LuaCoverage.Proofs.Session.TracedEvents
import LuaCoverage.Proofs.Store.IndexFreshness
import LuaCoverage.Proofs.Store.IndexTables
import LuaCoverage.Proofs.Store.ShardedHits

/-!
# What a hit in a known block changes

An injected call reports a line together with the block that the statement on it runs in. What this
changes can be said without the line index (`FileRecord.BlockHitEffect`): the record of the line,
the block itself, and those of its children that the statement opens, which are loops, `do` blocks
and `if` statements that begin to run on the line. No arm of a conditional and no function is
credited but the reported block itself.

This holds as long as the index is current and the block table is a tree. An index is made when a
file is registered with an analysis, read from a snapshot, merged or repaired, and for an analyzed
file it stays current under everything but the three operations that `reload_shows` is about
(`CoverageStore.Maintained`). In particular hits never make it stale.
-/

set_option autoImplicit false

namespace LuaCoverage

/-! ## One file -/

/-- The credit of a block among entries of blocks. -/
theorem creditOf_map_entry (ids : List BlockId) (id : BlockId) :
    creditOf (ids.map Credit.entry) id = if id ∈ ids then some (.entry id) else none := by
  induction ids with
  | nil => rfl
  | cons first rest ih =>
      rw [List.map_cons, creditOf_cons, ih]
      by_cases same : first = id
      · subst same
        simp [Credit.block]
      · have apart : (Credit.entry first).block ≠ id := same
        rw [if_neg apart]
        simp [Ne.symm same]

/-- A sign leaves a block with a count as it is but for the mark that it ran. -/
theorem BlockRecord.witness_eq (record : BlockRecord) : record.witness =
    if record.executionCount = 0 then record.enter else { record with executed := true } := by
  rw [witness]
  split
  · rename_i zero
    rw [enter, zero]
    rfl
  · rfl

namespace FileRecord

/-- What a hit on a line by a statement in a given block changes. The block is counted once more
where it begins to run, and if it was never counted. But a plain block that begins on the line was
counted when the statement around it opened it. -/
structure BlockHitEffect (file : FileRecord) (line : Nat) (id : BlockId) (after : FileRecord) :
    Prop where
  frame : after = { file with
    lines := file.lines.insert line (file.lineOrUnclassified line).hit
    blocks := { file.blocks with blocks := after.blocks.blocks } }
  own : ∀ block : BlockRecord, file.blocks.blocks[id]? = some block →
    after.blocks.blocks[id]? = some
      (if block.executionCount = 0 ∨ block.EntersAt file.lines line ∧
          ¬ (block.isPlain = true ∧ block.startLine = line)
        then block.enter else { block with executed := true })
  opened : ∀ (child : BlockId) (block : BlockRecord), child ≠ id →
    file.blocks.blocks[child]? = some block → block.parentId = some id → block.isPlain = true →
    block.EntersAt file.lines line → after.blocks.blocks[child]? = some block.enter
  others : ∀ other : BlockId, other ≠ id →
    (∀ block : BlockRecord, file.blocks.blocks[other]? = some block → block.parentId = some id →
      block.isPlain = true → ¬ block.EntersAt file.lines line) →
    after.blocks.blocks[other]? = file.blocks.blocks[other]?

/-- An operation changes nothing of a block table but the records of blocks. -/
theorem blocks_perform_frame (file : FileRecord) (operation : HitOperation) :
    (file.perform operation).blocks =
      { file.blocks with blocks := (file.perform operation).blocks.blocks } := by
  have table : ∀ (credits : List Credit) (table : BlockTable), credits.foldl BlockTable.credit
      table = { table with blocks := (credits.foldl BlockTable.credit table).blocks } :=
    fun credits => credits.rec (fun _ => rfl) fun first rest ih table => ih (table.credit first)
  rw [blocks_perform]
  exact table _ _

/-- **An operation gives each block the one credit it has for it**, if the index is current and the
block table is a tree. -/
theorem getElem?_blocks_perform {file : FileRecord} (indexed : file.IsIndexed)
    (consistent : file.blocks.Consistent) (operation : HitOperation) (id : BlockId) :
    (file.perform operation).blocks.blocks[id]? = (file.blocks.blocks[id]?).map fun record =>
      record.credited (creditOf (file.index.credits operation) id) := by
  have isIndex : file.index = .build file.lines file.blocks file.functions := indexed
  have apart : ∀ id, file.blocks.parentOf id ≠ some id := fun id itself =>
    consistent.acyclic id ⟨0, (ParentChain.ancestor_one id).trans itself⟩
  have once := nodup_credits consistent.filed apart file.lines file.functions operation
  rw [← isIndex] at once
  rw [blocks_perform]
  exact BlockTable.getElem?_credits once file.blocks id

section Effect

variable {file : FileRecord} {line : Nat} {id : BlockId}

/-- The credit that the reported block gets. -/
theorem own_credit (indexed : file.IsIndexed) (filed : file.blocks.Filed) {block : BlockRecord}
    (stored : file.blocks.blocks[id]? = some block) :
    (file.index.entry[id]? == some line && !file.index.headed.contains id) = true ↔
      block.EntersAt file.lines line ∧ ¬ (block.isPlain = true ∧ block.startLine = line) := by
  have isIndex : file.index = .build file.lines file.blocks file.functions := indexed
  obtain rfl := filed.own id block stored
  rw [isIndex, LineIndex.entry_build, Bool.and_eq_true,
    LineIndex.entry_beq_eq_true_iff filed stored, Bool.not_eq_true', Bool.eq_false_iff, Ne,
    LineIndex.headed_build_iff _ filed stored]
  refine and_congr_right fun enters => not_congr (and_congr_right fun _ => ⟨?_, ?_⟩)
  · exact fun headed => headed.line_eq enters
  · rintro rfl
    exact enters

/-- The children that a statement opens are not the block itself. -/
theorem mem_opened_iff (indexed : file.IsIndexed) (consistent : file.blocks.Consistent)
    {child : BlockId} : child ∈ file.index.opened id line ↔
      ∃ block, file.blocks.blocks[child]? = some block ∧ block.parentId = some id ∧
        block.isPlain = true ∧ block.EntersAt file.lines line := by
  have isIndex : file.index = .build file.lines file.blocks file.functions := indexed
  rw [isIndex, LineIndex.mem_opened_build_iff _ consistent.filed]
  refine exists_congr fun block => and_congr_right fun stored => and_congr_left fun _ => ?_
  obtain ⟨parent, named⟩ := consistent.hasParent child (mem_map_iff.mpr ⟨block, stored⟩)
  rw [BlockTable.parentOf_of_getElem? stored] at named
  rw [named, Option.getD_some, Option.some.injEq]

/-- **A hit in a known block** of a file with a current index and a tree of blocks. -/
theorem blockHitEffect_hit (indexed : file.IsIndexed) (consistent : file.blocks.Consistent) :
    file.BlockHitEffect line id (file.hit line (.block id)) := by
  have credited (other : BlockId) := getElem?_blocks_perform indexed consistent
    (.hit line (.block id)) other
  simp only [perform, LineIndex.credits] at credited
  have elsewhere {other : BlockId} (differs : other ≠ id) :
      creditOf (file.index.blockCredits line id) other =
        if other ∈ file.index.opened id line then some (.entry other) else none := by
    rw [LineIndex.blockCredits, creditOf_cons, if_neg, creditOf_map_entry]
    split <;> exact Ne.symm differs
  refine ⟨?frame, fun block stored => ?own,
    fun child block differs stored hangs plain enters => ?opened, fun other differs none => ?others⟩
  case frame =>
    have blocks := file.blocks_perform_frame (.hit line (.block id))
    rw [perform] at blocks
    rw [← blocks]
    rfl
  case own =>
    have isOwn : creditOf (file.index.blockCredits line id) id =
        some (if file.index.entry[id]? == some line && !file.index.headed.contains id
          then .entry id else .sign id) := by
      rw [LineIndex.blockCredits, creditOf_cons, if_pos]
      split <;> rfl
    rw [credited, stored, Option.map_some, isOwn]
    refine congrArg some ?_
    by_cases entered : block.EntersAt file.lines line ∧
        ¬ (block.isPlain = true ∧ block.startLine = line)
    · rw [if_pos ((own_credit indexed consistent.filed stored).mpr entered), if_pos (.inr entered)]
      rfl
    · rw [if_neg (mt (own_credit indexed consistent.filed stored).mp entered)]
      simp only [entered, or_false]
      exact block.witness_eq
  case opened =>
    rw [credited, elsewhere differs, stored,
      if_pos ((mem_opened_iff indexed consistent).mpr ⟨block, stored, hangs, plain, enters⟩)]
    rfl
  case others =>
    rw [credited, elsewhere differs, if_neg]
    · exact Option.map_id'
    · rw [mem_opened_iff indexed consistent]
      rintro ⟨block, stored, hangs, plain, enters⟩
      exact none block stored hangs plain enters

end Effect

end FileRecord

/-! ## Changes that keep the index current -/

/-- Whether a change may alter what the index of an analyzed file sees without making a new one. -/
def FileChange.isUnsettling : FileChange → Bool
  | .setParent _ _ => true
  | .rate _ => true
  | .reclassify _ => true
  | _ => false

namespace FileRecord

/-- A change that neither makes a new index nor is unsettling leaves the quality of a file alone. -/
theorem quality_changed {file : FileRecord} {change : FileChange}
    (kept : file.refreshedBy change = false) (calm : change.isUnsettling = false) :
    (file.changed change).quality = file.quality := by
  cases change with
  | register source analysis =>
      have known : (file.active && file.isAnalyzed) = true := by
        simpa [refreshedBy] using kept
      rw [changed, register, if_pos known]
  | record operation =>
      rw [changed]
      split
      · exact (file.perform_frame operation).2.2
      · rfl
  | cover line =>
      rw [changed]
      cases covers : file.cover line with
      | none => rfl
      | some covered =>
          obtain ⟨record, -, -, rfl⟩ := exists_of_cover covers
          rfl
  | keepLine line =>
      rw [changed]
      split <;> rfl
  | activate => rfl
  | note => rfl
  | markInstrumented => rfl
  | enforce => rfl
  | rate quality => cases calm
  | setParent child parent => cases calm
  | reclassify analysis => cases calm
  | addBlock block => cases kept
  | resolve => cases kept
  | absorb theirs => cases kept

/-- Only what is unsettling disturbs an analyzed file. -/
theorem not_disturbedBy {file : FileRecord} {change : FileChange}
    (analyzed : file.isAnalyzed = true) (calm : change.isUnsettling = false) :
    file.disturbedBy change = false := by
  have certain (line : Nat) : file.guessesInBlock line = false := by
    simp [guessesInBlock, analyzed]
  cases change with
  | record operation => cases operation <;> simp [disturbedBy, certain]
  | keepLine line => simp [disturbedBy, certain]
  | setParent child parent => cases calm
  | reclassify analysis => cases calm
  | _ => rfl

/-- **What is not unsettling** leaves an analyzed file with a current index. -/
theorem isIndexed_changed {file : FileRecord} {change : FileChange}
    (calm : change.isUnsettling = false) (indexed : file.isAnalyzed = true → file.IsIndexed)
    (analyzed : (file.changed change).isAnalyzed = true) : (file.changed change).IsIndexed := by
  cases kept : file.refreshedBy change with
  | true => exact isIndexed_of_refreshedBy kept
  | false =>
      have analyzed : file.isAnalyzed = true := by
        rwa [isAnalyzed, quality_changed kept calm] at analyzed
      exact (indexed analyzed).changed (not_disturbedBy analyzed calm)

end FileRecord

/-! ## Stores -/

namespace CoverageStore

/-- Stores in which a file was registered with an analysis, read from a snapshot, merged or
repaired, and nothing unsettling happened to it since. -/
inductive Maintained (path : String) : CoverageStore → Prop where
  | registered (store : CoverageStore) (source : String) (analysis : Analysis)
      (fresh : ∀ file : FileRecord, store.files[path]? = some file →
        (file.active && file.isAnalyzed) = false) :
      Maintained path (store.track path source analysis)
  | loaded {text : String} {store : CoverageStore} (read : parse text = .ok store) :
      Maintained path store
  | merged (ours : CoverageStore) {theirs : CoverageStore} (brought : path ∈ theirs.files) :
      Maintained path (ours.merge theirs)
  | repaired (store : CoverageStore) : Maintained path (store.resolveFile path).1
  | repairedAll (store : CoverageStore) : Maintained path store.resolveAll.1
  | after {store : CoverageStore} (operation : StoreOperation)
      (maintained : Maintained path store)
      (calm : ∀ change, operation.changeAt path = some change → change.isUnsettling = false) :
      Maintained path (store.apply operation).1

/-- The files of a store that was read are indexed. -/
theorem isIndexed_of_parse {text path : String} {store : CoverageStore}
    (read : parse text = .ok store) {file : FileRecord}
    (found : store.files[path]? = some file) : file.IsIndexed := by
  rw [parse] at read
  split at read
  case h_2 => cases read
  case h_1 isStore =>
    obtain rfl := Except.ok.inj read
    obtain ⟨document, -, isSnapshot⟩ := Option.bind_eq_some_iff.mp isStore
    rw [ofSnapshot?] at isSnapshot
    obtain ⟨fields, -, isSnapshot⟩ := Option.bind_eq_some_iff.mp isSnapshot
    split at isSnapshot
    case h_2 => cases isSnapshot
    case h_1 files _ =>
      obtain ⟨entries, -, isSnapshot⟩ := Option.bind_eq_some_iff.mp isSnapshot
      obtain rfl := Option.some.inj isSnapshot
      have indexed : ∀ file : FileRecord, (entries.foldl (fun map entry =>
          map.insert entry.1 entry.2.reindex) (∅ : PathMap FileRecord))[path]? = some file →
          file.IsIndexed := by
        refine List.foldlRecOn
          (motive := fun map : PathMap FileRecord => ∀ file, map[path]? = some file →
            file.IsIndexed) _ _ (fun _ none => by cases none)
          fun map indexed entry _ file found => ?_
        rw [Std.ExtTreeMap.getElem?_insert] at found
        split at found
        · exact Option.some.inj found ▸ entry.2.isIndexed_reindex
        · exact indexed file found
      exact indexed file found

/-- An operation that makes a new index for whatever record it finds. -/
theorem isIndexed_of_refreshing {store : CoverageStore} {path : String}
    (operation : StoreOperation) {change : FileChange}
    (changes : operation.changeAt path = some change)
    (refreshes : ∀ file : FileRecord,
      store.files[path]? = some file ∨ ({ path := path } : FileRecord) = file →
        file.refreshedBy change = true)
    {file : FileRecord} (found : (store.apply operation).1.files[path]? = some file) :
    file.IsIndexed := by
  rw [getElem?_apply, changes] at found
  cases stored : store.files[path]? with
  | some old =>
      rw [stored] at found
      obtain rfl := Option.some.inj found
      exact FileRecord.isIndexed_of_refreshedBy (refreshes old (.inl stored))
  | none =>
      rw [stored] at found
      rcases FileChange.applied_none_cases found with ⟨theirs, -, rfl⟩ | ⟨-, rfl⟩
      · exact theirs.isIndexed_reindex
      · exact FileRecord.isIndexed_of_refreshedBy (refreshes _ (.inr rfl))

/-- **An analyzed file stays indexed** under everything that is not unsettling. -/
theorem Maintained.isIndexed {path : String} {store : CoverageStore}
    (maintained : store.Maintained path) {file : FileRecord}
    (found : store.files[path]? = some file) (analyzed : file.isAnalyzed = true) :
    file.IsIndexed := by
  induction maintained generalizing file with
  | registered store source analysis fresh =>
      refine isIndexed_of_refreshing (.track path source analysis) (if_pos rfl) ?_ found
      rintro old (stored | rfl)
      · rw [FileRecord.refreshedBy, fresh old stored]
        rfl
      · rfl
  | loaded read => exact isIndexed_of_parse read found
  | @merged ours theirs brought =>
      obtain ⟨record, isTheirs⟩ :=
        Option.isSome_iff_exists.mp (Std.ExtTreeMap.mem_iff_isSome_getElem?.mp brought)
      exact isIndexed_of_refreshing (.merge theirs)
        (congrArg (Option.map FileChange.absorb) isTheirs) (fun _ _ => rfl) found
  | repaired store =>
      exact isIndexed_of_refreshing (.resolveFile path) (if_pos rfl) (fun _ _ => rfl) found
  | repairedAll store =>
      exact isIndexed_of_refreshing .resolveAll rfl (fun _ _ => rfl) found
  | @after store operation maintained calm ih =>
      rw [getElem?_apply] at found
      cases changes : operation.changeAt path with
      | none =>
          rw [changes] at found
          exact ih found analyzed
      | some change =>
          rw [changes] at found
          cases stored : store.files[path]? with
          | some old =>
              rw [stored] at found
              obtain rfl := Option.some.inj found
              exact FileRecord.isIndexed_changed (calm change changes) (ih stored) analyzed
          | none =>
              rw [stored] at found
              rcases FileChange.applied_none_cases found with ⟨theirs, -, rfl⟩ | ⟨-, rfl⟩
              · exact theirs.isIndexed_reindex
              · exact FileRecord.isIndexed_changed (calm change changes)
                  (fun _ => FileRecord.isIndexed_new path) analyzed

/-- **A hit in a known block changes** the record of the line, the block, and those of its children
that the statement on the line opens. No function and no arm of a conditional but the block itself
is credited, and no block that does not hang off it. A file that is not tracked stays as it is, and
so do all other files. -/
theorem hit_block_effect {path : String} {store : CoverageStore}
    (maintained : store.Maintained path) {file : FileRecord}
    (found : store.files[path]? = some file) (analyzed : file.isAnalyzed = true)
    (consistent : file.blocks.Consistent) (line : Nat) (id : BlockId) :
    let after := (store.hit path line (.block id)).1
    (∀ other : String, other ≠ path → after.files[other]? = store.files[other]?) ∧
    (file.active = false → after = store) ∧
    (file.active = true → ∃ record, after.files[path]? = some record ∧
      file.BlockHitEffect line id record ∧
      ∀ (other : BlockId) (block : BlockRecord), other ≠ id →
        file.blocks.blocks[other]? = some block →
        block.kind = .function ∨ block.branch.isSome = true ∨ block.parentId ≠ some id →
        record.blocks.blocks[other]? = some block) := by
  intro after
  refine ⟨fun other apart => getElem?_perform_of_ne (Ne.symm apart) (.hit line (.block id)),
    fun untracked => ?_, fun active => ?_⟩
  · refine perform_untracked ?_ (.hit line (.block id))
    rw [tracked?, found, Option.filter_some, if_neg (by rw [untracked]; exact Bool.false_ne_true)]
  · have effect : file.BlockHitEffect line id (file.hit line (.block id)) :=
      FileRecord.blockHitEffect_hit (maintained.isIndexed found analyzed) consistent
    refine ⟨_, getElem?_perform found active (.hit line (.block id)), effect,
      fun other block apart stored spared => ?_⟩
    refine (effect.others other apart fun own isOwn hangs plain _ => ?_).trans stored
    obtain rfl := Option.some.inj (stored.symm.trans isOwn)
    rw [BlockRecord.isPlain, Bool.and_eq_true, bne_iff_ne, Option.isNone_iff_eq_none] at plain
    rcases spared with isFunction | isArm | elsewhere
    · exact plain.1 isFunction
    · rw [plain.2] at isArm
      cases isArm
    · exact elsewhere hangs

/-- A loop on one line, in an arm of a conditional. -/
def armedLoop : String := "if a then\n  while b do c() end\nend\n"

/-- The statement of the arm opens the loop, and the conditional around the arm is not credited. -/
theorem hit_block_effect_loop :
    let tracked := empty.track "/p/a.lua" armedLoop
      (analyze ⟨.nonExecutable, 100⟩ armedLoop "/p/a.lua")
    let after := (tracked.hit "/p/a.lua" 2 (.block 2)).1
    (after.block? "/p/a.lua" 1).map BlockRecord.executionCount = some 0 ∧
      (after.block? "/p/a.lua" 2).map BlockRecord.executionCount = some 1 ∧
      (after.block? "/p/a.lua" 3).map BlockRecord.executionCount = some 1 := by
  intro tracked after
  let analysis := analyze ⟨.nonExecutable, 100⟩ armedLoop "/p/a.lua"
  let file := ({ path := "/p/a.lua" } : FileRecord).register armedLoop analysis
  have absent : "/p/a.lua" ∉ empty.files := Std.ExtTreeMap.not_mem_empty
  have registered : FileRecord.Registered analysis file :=
    FileRecord.registered_register _ _ (blocks_analyze _ _ _).1
  have maintained : tracked.Maintained "/p/a.lua" := .registered _ _ _ fun _ none => by cases none
  have isConditional : ∃ block, file.blocks.blocks[1]? = some block ∧
      block.parentId = some BlockId.root ∧ block.executionCount = 0 := by decide +kernel
  have isArm : ∃ block, file.blocks.blocks[2]? = some block ∧ block.executionCount = 0 := by
    decide +kernel
  have isLoop : ∃ block, file.blocks.blocks[3]? = some block ∧ block.parentId = some 2 ∧
      block.isPlain = true ∧ block.EntersAt file.lines 2 ∧ block.enter.executionCount = 1 := by
    decide +kernel
  have found := getElem?_track (isNew_of_not_mem absent) armedLoop analysis
  have consistent := registered.consistent (blocks_analyze _ _ _).1
  obtain ⟨record, isRecord, effect, spares⟩ :=
    (hit_block_effect maintained found (by decide +kernel) consistent 2 2).2.2 registered.active
  have shows (id : BlockId) : after.block? "/p/a.lua" id = record.blocks.blocks[id]? := by
    rw [block?, isRecord, Option.bind_some]
  obtain ⟨conditional, stored, hangs, uncounted⟩ := isConditional
  obtain ⟨arm, stored', uncounted'⟩ := isArm
  obtain ⟨loop, stored'', hangs'', plain, enters, counted⟩ := isLoop
  rw [shows, shows, shows, spares 1 conditional (by decide) stored (.inr (.inr (by
    rw [hangs]; decide))), effect.own arm stored', if_pos (.inl uncounted'),
    effect.opened 3 loop (by decide) stored'' hangs'' plain enters]
  refine ⟨congrArg some uncounted, congrArg some ?_, congrArg some counted⟩
  show arm.executionCount + 1 = 1
  rw [uncounted']
  rfl

end CoverageStore

end LuaCoverage
