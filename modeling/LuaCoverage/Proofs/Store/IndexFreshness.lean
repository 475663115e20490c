import LuaCoverage.Proofs.Store.IndexInputs
import LuaCoverage.Proofs.Store.Operations
import LuaCoverage.Proofs.Store.Reloading
import LuaCoverage.Proofs.Store.Tally

/-!
# When the index of a file is out of date

A store that is read from a snapshot has new line indexes. Nobody can tell it from the store that
was written, as long as the indexes of that store are the ones its files determine
(`FileRecord.IsIndexed`). Most operations see to that: those that change the blocks of a file make a
new index, and the others leave alone what an index sees.

Three do not (`FileRecord.disturbedBy`). Giving a block another parent makes no new index. Neither
does making up the record of a line that counts as one that can run, in a file without an analysis,
nor settling lines against an analysis; both may change which of the lines of a block can run. The
index is then *stale* until an operation makes a new one (`FileRecord.refreshedBy`).

So a store is not always what its snapshot brings back (`CoverageStore.reload_shows`), but every
file that is not stale is, and from then on as well (`CoverageStore.reload_unobservable`).
-/

set_option autoImplicit false

namespace LuaCoverage

/-! ## Blocks -/

namespace BlockTable

variable {before after table : BlockTable}

theorem described_congr (same : ∀ id : BlockId, (after.blocks[id]?).map BlockRecord.description =
    (before.blocks[id]?).map BlockRecord.description) : after.described = before.described := by
  refine congrArg (fun blocks => ({ blocks := blocks } : BlockTable))
    (Std.ExtTreeMap.ext_getElem? fun id => ?_)
  rw [Std.ExtTreeMap.getElem?_map, Std.ExtTreeMap.getElem?_map]
  exact same id

/-- Tables with the same bare records have the same descriptions. -/
theorem described_of_bare (same : after.bare = before.bare) :
    after.described = before.described := by
  have fromBare : ∀ (table : BlockTable) (id : BlockId),
      (table.blocks[id]?).map BlockRecord.description =
        (table.bare id).map BlockRecord.description := by
    intro table id
    rw [bare, Option.map_map]
    rfl
  refine described_congr fun id => ?_
  rw [fromBare, same, ← fromBare]

/-- The credits of a hit change no description. -/
theorem described_foldl_credit (credits : List Credit) (table : BlockTable) :
    (credits.foldl credit table).described = table.described := by
  induction credits generalizing table with
  | nil => rfl
  | cons first rest ih =>
      refine (ih _).trans (described_congr fun id => ?_)
      rw [credit, getElem?_modifyBlock]
      split
      · rw [Option.map_map]
        cases first <;> rfl
      · rfl

/-- Giving a block the parent that it has changes no description. -/
theorem described_setParent_self {child parent : BlockId}
    (named : child ∈ table.blocks → table.parentOf child = some parent) :
    (table.setParent child (some parent)).described = table.described := by
  refine described_of_bare (funext fun id => ?_)
  rw [bare_setParent]
  split
  · rename_i same
    subst same
    cases found : table.bare child with
    | none => rfl
    | some record =>
        have present : child ∈ table.blocks := mem_blocks_iff_bare.mpr (by rw [found]; rfl)
        have parentId : record.parentId = some parent := by
          have named := named present
          rw [parentOf_eq_bind_bare, found] at named
          exact named
        rw [Option.map_some, BlockRecord.under, ← parentId]
  · rfl

end BlockTable

/-! ## Files -/

namespace FileRecord

/-- The index of a file is the one that its lines, blocks and functions determine. -/
def IsIndexed (file : FileRecord) : Prop :=
  file.index = .build file.lines file.blocks file.functions

/-- Some block of the file may own a line. -/
def mayOwnLine (file : FileRecord) (line : Nat) : Bool :=
  file.blocks.blocks.values.any fun block => block.mayOwnLine line

/-- A record would be made up for a line, and count as one that can run in a block. -/
def guessesInBlock (file : FileRecord) (line : Nat) : Bool :=
  !file.isAnalyzed && !file.lines.contains line && file.mayOwnLine line

/-- Whether a change of a file may change what its index sees without making a new index. -/
def disturbedBy (file : FileRecord) : FileChange → Bool
  | .record (.hit line _) => file.active && file.guessesInBlock line
  | .keepLine line => file.active && file.guessesInBlock line
  | .setParent child parent =>
      file.blocks.blocks.contains child && file.blocks.parentOf child != some parent
  | .reclassify analysis =>
      file.lines.toList.any fun entry =>
        (entry.2.reclassify (analysis.classification? entry.1)).executable != entry.2.executable
          && file.mayOwnLine entry.1
  | _ => false

/-- Whether a change of a file makes a new index. -/
def refreshedBy (file : FileRecord) : FileChange → Bool
  | .register _ _ => !(file.active && file.isAnalyzed)
  | .addBlock _ => true
  | .resolve => true
  | .absorb _ => true
  | _ => false

/-- An index sees the same in two files, and they have the same index. -/
structure IndexedAlike (before after : FileRecord) : Prop where
  index : after.index = before.index
  blocks : after.blocks.described = before.blocks.described
  functions : describedFunctions after.functions = describedFunctions before.functions
  lines : ∀ line : Nat, before.mayOwnLine line = true →
    LineIndex.canRun after.lines line = LineIndex.canRun before.lines line

variable {file : FileRecord}

/-- **A file stays indexed while its index sees the same.** -/
theorem IsIndexed.of_alike {after : FileRecord} (indexed : file.IsIndexed)
    (alike : file.IndexedAlike after) : after.IsIndexed := by
  have owned : ∀ block ∈ file.blocks.blocks.values, ∀ line : Nat, block.mayOwnLine line = true →
      LineIndex.canRun file.lines line = LineIndex.canRun after.lines line :=
    fun block member line owns =>
      (alike.lines line (List.any_eq_true.mpr ⟨block, member, owns⟩)).symm
  calc after.index = .build file.lines file.blocks file.functions := alike.index.trans indexed
    _ = .build after.lines file.blocks file.functions := LineIndex.build_congr owned _
    _ = .build after.lines file.blocks.described (describedFunctions file.functions) :=
      (LineIndex.build_described _ _ _).symm
    _ = .build after.lines after.blocks after.functions := by
      rw [← alike.blocks, ← alike.functions, LineIndex.build_described]

/-- A file in which nothing but lines is different, and these can run as before. -/
theorem IsIndexed.of_lines (indexed : file.IsIndexed) {lines : LineMap LineRecord}
    (same : ∀ line : Nat, file.mayOwnLine line = true →
      LineIndex.canRun lines line = LineIndex.canRun file.lines line) :
    ({ file with lines := lines } : FileRecord).IsIndexed :=
  indexed.of_alike ⟨rfl, rfl, rfl, same⟩

theorem isIndexed_new (path : String) : ({ path := path } : FileRecord).IsIndexed := by
  have empty : ({} : LineIndex) = .build ∅ .empty ∅ := by decide +kernel
  exact empty

theorem isIndexed_reindex (file : FileRecord) : file.reindex.IsIndexed := rfl

theorem IsIndexed.reindex_eq (indexed : file.IsIndexed) : file.reindex = file := by
  have same : file.index = .build file.lines file.blocks file.functions := indexed
  rw [reindex, ← same]

/-- **A change that makes a new index** leaves the file indexed, whatever it was before. -/
theorem isIndexed_of_refreshedBy {change : FileChange}
    (refreshed : file.refreshedBy change = true) : (file.changed change).IsIndexed := by
  cases change with
  | register source analysis =>
      have fresh : (file.active && file.isAnalyzed) = false :=
        Bool.eq_false_of_not_eq_true' refreshed
      rw [changed, register, fresh]
      exact isIndexed_reindex _
  | addBlock block => exact isIndexed_reindex _
  | resolve => exact isIndexed_reindex _
  | absorb theirs => exact isIndexed_reindex _
  | _ => cases refreshed

/-! ### Changes of lines -/

/-- A record that is made up for a line of a block can run if the line could before. -/
theorem executable_lineOrUnclassified {line : Nat} (calm : file.guessesInBlock line = false)
    (owned : file.mayOwnLine line = true) :
    (file.lineOrUnclassified line).executable = LineIndex.canRun file.lines line := by
  rw [lineOrUnclassified, LineIndex.canRun]
  cases found : file.lines[line]? with
  | some record => rfl
  | none =>
      have absent : file.lines.contains line = false := by
        rw [Std.ExtTreeMap.contains_eq_isSome_getElem?, found]
        rfl
      have analyzed : file.isAnalyzed = true := by
        simpa [guessesInBlock, absent, owned] using calm
      rw [analyzed]
      rfl

/-- A line gets a record that can run if the line could before. -/
theorem canRun_insert {lines : LineMap LineRecord} {line : Nat} {record : LineRecord}
    (same : record.executable = LineIndex.canRun lines line) (other : Nat) :
    LineIndex.canRun (lines.insert line record) other = LineIndex.canRun lines other := by
  rw [LineIndex.canRun, Std.ExtTreeMap.getElem?_insert]
  split
  · rename_i here
    rw [Option.any_some, same, Std.LawfulEqCmp.eq_of_compare here]
  · rfl

/-- All records are changed, and that of a line can run if it could before. -/
theorem canRun_map {lines : LineMap LineRecord} {change : Nat → LineRecord → LineRecord}
    {line : Nat} (same : ∀ record : LineRecord, lines[line]? = some record →
      (change line record).executable = record.executable) :
    LineIndex.canRun (lines.map change) line = LineIndex.canRun lines line := by
  rw [LineIndex.canRun, Std.ExtTreeMap.getElem?_map, LineIndex.canRun]
  cases found : lines[line]? with
  | none => rfl
  | some record => exact same record found

/-- Recording a hit is not seen by the index, unless a line is made up in a block. -/
theorem indexedAlike_perform {operation : HitOperation}
    (calm : ∀ line : Nat, operation.hits line = true → file.guessesInBlock line = false) :
    file.IndexedAlike (file.perform operation) where
  index := (file.perform_frame operation).1
  blocks := by rw [blocks_perform, BlockTable.described_foldl_credit]
  functions := by
    apply Std.ExtTreeMap.ext_getElem?
    intro id
    rw [describedFunctions, Std.ExtTreeMap.getElem?_map, functions_perform, describedFunctions,
      Std.ExtTreeMap.getElem?_map]
    split
    · rw [Option.map_map]
      rfl
    · rfl
  lines line owned := by
    rw [LineIndex.canRun, lines_perform]
    split
    · rename_i hits
      exact executable_lineOrUnclassified (calm line hits) owned
    · rfl

/-- Recording a hit on a tracked file keeps it indexed, unless it disturbs the file. -/
theorem IsIndexed.perform (indexed : file.IsIndexed) (active : file.active = true)
    {operation : HitOperation} (calm : file.disturbedBy (.record operation) = false) :
    (file.perform operation).IsIndexed := by
  refine indexed.of_alike (indexedAlike_perform fun line hits => ?_)
  cases operation with
  | hit here attribution =>
      obtain rfl : here = line := by simpa [HitOperation.hits] using hits
      simpa [disturbedBy, active] using calm
  | call here => cases hits
  | callInline here => cases hits

/-- Only lines that can run are covered. -/
theorem IsIndexed.cover (indexed : file.IsIndexed) (line : Nat) :
    ((file.cover line).getD file).IsIndexed := by
  cases covers : file.cover line with
  | none => exact indexed
  | some covered =>
      obtain ⟨record, stored, -, rfl⟩ := exists_of_cover covers
      refine indexed.of_lines fun other _ => canRun_insert ?_ other
      rw [LineIndex.canRun, stored]
      rfl

/-- Keeping the record of a line changes nothing for the blocks, unless it is made up in one. -/
theorem IsIndexed.keepLine (indexed : file.IsIndexed) {line : Nat}
    (calm : file.guessesInBlock line = false) :
    ({ file with lines := file.lines.insert line (file.lineOrUnclassified line) } :
      FileRecord).IsIndexed := by
  refine indexed.of_lines fun other owned => ?_
  by_cases same : line = other
  · subst same
    exact canRun_insert (executable_lineOrUnclassified calm owned) line
  · rw [LineIndex.canRun, Std.ExtTreeMap.getElem?_insert,
      if_neg (mt Std.LawfulEqCmp.eq_of_compare same)]
    rfl

/-- Giving a block the parent that it has keeps a file indexed. -/
theorem IsIndexed.setParent (indexed : file.IsIndexed) {child parent : BlockId}
    (calm : file.disturbedBy (.setParent child parent) = false) :
    (file.changed (.setParent child parent)).IsIndexed := by
  refine indexed.of_alike ⟨rfl, BlockTable.described_setParent_self fun present => ?_, rfl,
    fun _ _ => rfl⟩
  have contained : file.blocks.blocks.contains child = true := present
  simpa [disturbedBy, contained] using calm

/-- Settling lines keeps a file indexed if the lines of blocks can run as before. -/
theorem IsIndexed.reclassify (indexed : file.IsIndexed) {analysis : Analysis}
    (calm : file.disturbedBy (.reclassify analysis) = false) :
    (file.reclassify analysis).1.IsIndexed := by
  refine indexed.of_lines fun line owned => canRun_map fun record found => ?_
  have entry : (line, record) ∈ file.lines.toList :=
    Std.ExtTreeMap.mem_toList_iff_getElem?_eq_some.mpr found
  have settled := List.any_eq_false.mp calm _ entry
  simpa [owned] using settled

/-- **A change that does not disturb an indexed file** leaves it indexed. -/
theorem IsIndexed.changed {change : FileChange} (indexed : file.IsIndexed)
    (calm : file.disturbedBy change = false) : (file.changed change).IsIndexed := by
  cases change with
  | register source analysis =>
      cases kept : file.active && file.isAnalyzed with
      | true =>
          rw [FileRecord.changed, register, kept]
          exact indexed
      | false => exact isIndexed_of_refreshedBy (by rw [refreshedBy, kept]; rfl)
  | activate => exact indexed
  | note => exact indexed
  | rate quality => exact indexed
  | markInstrumented => exact indexed
  | record operation =>
      rw [FileRecord.changed]
      split
      · rename_i active
        exact indexed.perform active calm
      · exact indexed
  | cover line => exact indexed.cover line
  | keepLine line =>
      rw [FileRecord.changed]
      split
      · rename_i active
        exact indexed.keepLine (by simpa [disturbedBy, active] using calm)
      · exact indexed
  | addBlock block => exact isIndexed_of_refreshedBy rfl
  | setParent child parent => exact indexed.setParent calm
  | resolve => exact isIndexed_of_refreshedBy rfl
  | absorb theirs => exact isIndexed_of_refreshedBy rfl
  | enforce => exact indexed.of_lines fun line _ => canRun_map fun _ _ => rfl
  | reclassify analysis => exact indexed.reclassify calm

end FileRecord

/-! ## Stores -/

namespace CoverageStore

/-- Whether the record of a path may be stale after an operation, given whether it may be before. A
record that was not there is made with an index. -/
def staleAfter (store : CoverageStore) (path : String) (stale : Bool)
    (operation : StoreOperation) : Bool :=
  match operation.changeAt path, store.files[path]? with
  | none, _ => stale
  | some _, none => false
  | some change, some file => !file.refreshedBy change && (stale || file.disturbedBy change)

/-- Whether the record of a path may be stale after some operations. -/
def staleFrom (path : String) : CoverageStore → Bool → List StoreOperation → Bool
  | _, stale, [] => stale
  | store, stale, operation :: rest =>
      staleFrom path (store.apply operation).1 (store.staleAfter path stale operation) rest

/-- Whether the record of a path may be stale after a run from the empty store. -/
def isStale (operations : List StoreOperation) (path : String) : Bool :=
  staleFrom path empty false operations

/-- The record of a path is indexed unless it is known that it may be stale. -/
def IsFresh (store : CoverageStore) (path : String) (stale : Bool) : Prop :=
  stale = false → ∀ file : FileRecord, store.files[path]? = some file → file.IsIndexed

variable {store : CoverageStore} {path : String} {stale : Bool}

theorem IsFresh.apply (fresh : store.IsFresh path stale) (operation : StoreOperation) :
    (store.apply operation).1.IsFresh path (store.staleAfter path stale operation) := by
  intro calm file found
  rw [getElem?_apply] at found
  rw [staleAfter] at calm
  cases changes : operation.changeAt path with
  | none =>
      rw [changes] at found calm
      exact fresh calm file found
  | some change =>
      rw [changes] at found calm
      cases stored : store.files[path]? with
      | none =>
          rw [stored] at found
          rcases FileChange.applied_none_cases found with ⟨theirs, rfl, rfl⟩ | ⟨makes, rfl⟩
          · exact theirs.isIndexed_reindex
          · refine (FileRecord.isIndexed_new path).changed ?_
            cases change <;> first | rfl | cases makes
      | some old =>
          rw [stored] at found calm
          obtain rfl := Option.some.inj found
          by_cases refreshed : old.refreshedBy change = true
          · exact FileRecord.isIndexed_of_refreshedBy refreshed
          · obtain ⟨notStale, undisturbed⟩ : stale = false ∧ old.disturbedBy change = false := by
              simpa [refreshed] using calm
            exact (fresh notStale old stored).changed undisturbed

theorem IsFresh.run (fresh : store.IsFresh path stale) (operations : List StoreOperation) :
    (store.run operations).1.IsFresh path (staleFrom path store stale operations) := by
  induction operations generalizing store stale with
  | nil => exact fresh
  | cons operation rest ih => exact ih (fresh.apply operation)

/-- **A file is indexed** after a run that leaves it not stale. -/
theorem isIndexed_run {operations : List StoreOperation} (calm : isStale operations path = false)
    {file : FileRecord} (found : (empty.run operations).1.files[path]? = some file) :
    file.IsIndexed := by
  have fresh : empty.IsFresh path false := fun _ _ found => by cases found
  exact fresh.run operations calm file found

/-- The record of a path after a run depends on the record before it. -/
theorem getElem?_run_congr {first second : CoverageStore}
    (same : first.files[path]? = second.files[path]?) (operations : List StoreOperation) :
    (first.run operations).1.files[path]? = (second.run operations).1.files[path]? := by
  induction operations generalizing first second with
  | nil => exact same
  | cons operation rest ih =>
      have next : (first.apply operation).1.files[path]? =
          (second.apply operation).1.files[path]? := by
        rw [getElem?_apply, getElem?_apply, same]
      exact ih next

/-- Making the indexes anew gives the same record of a path that is not stale. -/
theorem getElem?_reindexed {operations : List StoreOperation}
    (calm : isStale operations path = false) :
    (empty.run operations).1.reindexed.files[path]? = (empty.run operations).1.files[path]? := by
  rw [reindexed, Std.ExtTreeMap.getElem?_map]
  cases found : (empty.run operations).1.files[path]? with
  | none => rfl
  | some file => rw [Option.map_some, (isIndexed_run calm found).reindex_eq]

/-- Making the indexes anew changes nothing in a store without a stale file. -/
theorem reindexed_eq_self {operations : List StoreOperation}
    (calm : ∀ path ∈ (empty.run operations).1.files.keys, isStale operations path = false) :
    (empty.run operations).1.reindexed = (empty.run operations).1 := by
  refine congrArg CoverageStore.mk (map_eq_self fun path file found => ?_)
  have listed : path ∈ (empty.run operations).1.files.keys := by
    rw [Std.ExtTreeMap.mem_keys, Std.ExtTreeMap.mem_iff_isSome_getElem?, found]
    rfl
  exact (isIndexed_run (calm path listed) found).reindex_eq

/-- **Replacing a store by what its snapshot brings back** cannot be noticed on files whose index is
not stale. Take any run from the empty store, the snapshot of the store it reaches, and the store
that is read from it. A file that no operation of the run left stale has the index that its lines,
blocks and functions determine, and any later operations lead to the same record of it in both
stores. If no file is stale, any later operations have the same answers and the same effect. -/
theorem reload_unobservable (operations : List StoreOperation)
    (representable : (empty.run operations).1.IsRepresentable) (time : String) :
    ∃ loaded : CoverageStore,
      parse ((empty.run operations).1.renderAt time) = .ok loaded ∧
      (∀ path : String, isStale operations path = false →
        (∀ file : FileRecord, (empty.run operations).1.files[path]? = some file →
          file.index = .build file.lines file.blocks file.functions) ∧
        ∀ later : List StoreOperation, (loaded.run later).1.files[path]? =
          ((empty.run operations).1.run later).1.files[path]?) ∧
      ((∀ path ∈ (empty.run operations).1.files.keys, isStale operations path = false) →
        ∀ later : List StoreOperation, loaded.run later = (empty.run operations).1.run later) := by
  refine ⟨_, parse_renderAt representable time, fun path calm => ⟨fun file => isIndexed_run calm,
    getElem?_run_congr (getElem?_reindexed calm)⟩, fun calm later => ?_⟩
  rw [reindexed_eq_self calm]

/-- An inner block of a file is put under the main chunk. -/
def reparented : List StoreOperation :=
  [.track "/p/a.lua" "do\n  do\n    f()\n  end\nend\n"
      (analyze ⟨.nonExecutable, 100⟩ "do\n  do\n    f()\n  end\nend\n" "/p/a.lua"),
   .setParent "/p/a.lua" 2 0]

/-- A block is added to a file without an analysis, and then the first hit shows a line of it. -/
def unforeseen : List StoreOperation :=
  [.trackUnanalyzed "/p/a.lua", .addBlock "/p/a.lua" (.fresh 1 .doBlock none 0 3 3),
   .record "/p/a.lua" (.hit 3 .line)]

/-- A block is added around such a line, which turns out to be a comment. -/
def refuted : List StoreOperation :=
  [.trackUnanalyzed "/p/a.lua", .record "/p/a.lua" (.hit 3 .line),
   .addBlock "/p/a.lua" (.fresh 1 .doBlock none 0 3 3),
   .reclassify (.ofList
      [("/p/a.lua", analyze ⟨.nonExecutable, 100⟩ "--\n--\n-- note\n" "/p/a.lua")])]

/-- A hit on a line of these blocks by code of the main chunk. -/
def nextHit : List StoreOperation := [.record "/p/a.lua" (.hit 3 (.block BlockId.root))]

/-- After that, a repair makes a new index for the file. -/
def repaired : List StoreOperation := reparented ++ [.resolveFile "/p/a.lua"]

/-- Nothing is stale after the repair, and the next hit enters the block with another parent as
well. -/
theorem reload_unobservable_repaired :
    (empty.run repaired).1.IsRepresentable ∧
    ∃ loaded : CoverageStore, parse ((empty.run repaired).1.renderAt "now") = .ok loaded ∧
      (∀ later : List StoreOperation, loaded.run later = (empty.run repaired).1.run later) ∧
      (loaded.run nextHit).1.summary.executedBlocks = 2 := by
  have representable : (empty.run repaired).1.IsRepresentable := by decide +kernel
  have calm : ∀ path ∈ (empty.run repaired).1.files.keys, isStale repaired path = false := by
    decide +kernel
  have entered : ((empty.run repaired).1.run nextHit).1.summary.executedBlocks = 2 := by
    decide +kernel
  obtain ⟨loaded, read, -, same⟩ := reload_unobservable repaired representable "now"
  refine ⟨representable, loaded, read, same calm, ?_⟩
  rw [same calm]
  exact entered

/-- Some later operations have another effect on the store that a run reaches than on what its
snapshot brings back. -/
def ReloadShows (operations later : List StoreOperation) : Prop :=
  ∀ time : String, ∃ loaded : CoverageStore,
    parse ((empty.run operations).1.renderAt time) = .ok loaded ∧
    loaded.run later ≠ (empty.run operations).1.run later

/-- It is enough that the number of entered blocks depends on the indexes. -/
theorem reloadShows_of_executedBlocks {operations later : List StoreOperation}
    (representable : (empty.run operations).1.IsRepresentable)
    (differ : ((empty.run operations).1.reindexed.run later).1.summary.executedBlocks ≠
      ((empty.run operations).1.run later).1.summary.executedBlocks) :
    ReloadShows operations later := by
  refine fun time => ⟨_, parse_renderAt representable time, fun same => differ ?_⟩
  rw [same]

/-- Replacing a store can be noticed in each of the three ways in which an index gets stale: the
next hit credits other blocks. -/
theorem reload_shows : ReloadShows reparented nextHit ∧ ReloadShows unforeseen nextHit ∧
    ReloadShows refuted nextHit :=
  ⟨reloadShows_of_executedBlocks (by decide +kernel) (by decide +kernel),
    reloadShows_of_executedBlocks (by decide +kernel) (by decide +kernel),
    reloadShows_of_executedBlocks (by decide +kernel) (by decide +kernel)⟩

end CoverageStore

end LuaCoverage
