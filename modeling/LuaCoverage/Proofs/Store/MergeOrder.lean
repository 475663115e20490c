import Mathlib.Algebra.Ring.Nat
import LuaCoverage.Proofs.Store.MergedRecords
import LuaCoverage.Store.Basic

/-!
# Merging in any order

Coverage that was collected in several places is merged two stores at a time. Which two come first
must not matter. Merging is associative as soon as the block tables are settled, and commutative
between stores that *agree*: that say the same about the source of each file that both of them have.
Both conditions pass on to merged stores, so all ways of merging the same stores come to the same
(`MergePlan.total_eq_of_perm`).

Two stores come to the same if they are equal but for the line indexes, which are made from the rest
(`CoverageStore.reindexed`). The proofs go path by path: the record of a path in a merged store is
made from the records of that path (`FileRecord.together`), and whether a store has the path at all
is a matter of `Option.merge`.
-/

set_option autoImplicit false

namespace LuaCoverage

/-! ## Files -/

namespace FileRecord

/-- Two records of a file say the same about its source: the same lines, the same blocks, the same
functions. What it takes for two records of a line to say the same is a parameter. -/
structure Agrees (alike : LineRecord → LineRecord → Prop) (ours theirs : FileRecord) : Prop where
  path : ours.path = theirs.path
  source : ours.source ≠ [] → theirs.source ≠ [] → ours.source = theirs.source
  lines : ∀ (line : Nat) (own other : LineRecord), ours.lines[line]? = some own →
    theirs.lines[line]? = some other → alike own other
  blocks : ours.blocks.Alike theirs.blocks
  functions : ∀ (id : Nat) (own other : FunctionRecord), ours.functions[id]? = some own →
    theirs.functions[id]? = some other → own.description = other.description

instance (alike : LineRecord → LineRecord → Prop) [∀ own other, Decidable (alike own other)]
    (ours theirs : FileRecord) : Decidable (ours.Agrees alike theirs) :=
  decidable_of_iff
    (ours.path = theirs.path ∧
      (ours.source ≠ [] → theirs.source ≠ [] → ours.source = theirs.source) ∧
      (∀ entry ∈ ours.lines.toList, ∀ later ∈ theirs.lines.toList, entry.1 = later.1 →
        alike entry.2 later.2) ∧
      ours.blocks.Alike theirs.blocks ∧
      ∀ entry ∈ ours.functions.toList, ∀ later ∈ theirs.functions.toList, entry.1 = later.1 →
        entry.2.description = later.2.description)
    ⟨fun ⟨path, source, lines, blocks, functions⟩ =>
        ⟨path, source, forall_shared_iff.mpr lines, blocks, forall_shared_iff.mpr functions⟩,
      fun agrees => ⟨agrees.path, agrees.source, forall_shared_iff.mp agrees.lines, agrees.blocks,
        forall_shared_iff.mp agrees.functions⟩⟩

/-- A file that is not tracked has no quality, and a block table needs no repair. -/
structure Sound (file : FileRecord) : Prop where
  untracked : file.active = false → file.quality = .untracked
  consistent : file.blocks.Consistent
  unflagged : file.blocks.orphans = ∅

/-- What merging asks of a file by itself, and passes on. -/
structure Orderly (file : FileRecord) : Prop where
  untracked : file.active = false → file.quality = .untracked
  settled : file.blocks.Settled

theorem Sound.orderly {file : FileRecord} (sound : file.Sound) : file.Orderly where
  untracked := sound.untracked
  settled := BlockTable.settled_of_consistent sound.consistent sound.unflagged

theorem Orderly.reindex {file : FileRecord} (orderly : file.Orderly) : file.reindex.Orderly where
  untracked := orderly.untracked
  settled := orderly.settled

theorem Agrees.reindex {alike : LineRecord → LineRecord → Prop} {ours theirs : FileRecord}
    (agrees : ours.Agrees alike theirs) : ours.reindex.Agrees alike theirs.reindex where
  path := agrees.path
  source := agrees.source
  lines := agrees.lines
  blocks := agrees.blocks
  functions := agrees.functions

/-! ### Quality -/

/-- How bad the quality of a file is; a file that is not tracked does not count. -/
def standing (file : FileRecord) : Nat := if file.active then file.quality.rank + 1 else 0

/-- The worse of two sides counts. -/
theorem standing_merge (ours theirs : FileRecord) :
    (ours.merge theirs).standing = max ours.standing theirs.standing := by
  show (if ours.active || theirs.active then (mergedQuality ours theirs).rank + 1 else 0) = _
  unfold mergedQuality standing
  cases ours.active <;> cases theirs.active
  · rfl
  · simp
  · simp
  · simp only [Bool.or_true, Bool.true_and, Bool.not_true, Bool.false_or, decide_eq_true_eq,
      if_true]
    split
    · omega
    · omega

theorem Orderly.active_eq_of_standing {first second : FileRecord}
    (same : first.standing = second.standing) : first.active = second.active := by
  unfold standing at same
  cases one : first.active <;> cases other : second.active <;> simp_all

/-- How bad the quality is says which it is. -/
theorem Orderly.quality_eq_of_standing {first second : FileRecord} (orderly : first.Orderly)
    (orderly' : second.Orderly) (same : first.standing = second.standing) :
    first.quality = second.quality := by
  have active := active_eq_of_standing same
  cases tracked : first.active with
  | false =>
      rw [orderly.untracked tracked, orderly'.untracked (active.symm.trans tracked)]
  | true =>
      unfold standing at same
      rw [← active, tracked] at same
      have ranks : first.quality.rank = second.quality.rank := Nat.succ.inj same
      cases one : first.quality <;> cases other : second.quality <;> rw [one, other] at ranks <;>
        first | rfl | cases ranks

/-! ### The parts of a merged file -/

/-- Records with a new index are equal if they are equal part by part, the old index apart. -/
theorem reindex_congr {first second : FileRecord} (path : first.path = second.path)
    (source : first.source = second.source) (lines : first.lines = second.lines)
    (blocks : first.blocks = second.blocks) (functions : first.functions = second.functions)
    (discovered : first.discovered = second.discovered) (active : first.active = second.active)
    (quality : first.quality = second.quality)
    (instrumented : first.instrumented = second.instrumented) : first.reindex = second.reindex := by
  cases first
  cases second
  cases path
  cases source
  cases lines
  cases blocks
  cases functions
  cases discovered
  cases active
  cases quality
  cases instrumented
  rfl

theorem reindex_merge (ours theirs : FileRecord) :
    (ours.merge theirs).reindex = ours.merge theirs := rfl

theorem lines_merge (ours theirs : FileRecord) (line : Nat) :
    (ours.merge theirs).lines[line]? =
      (ours.lines[line]?).merge LineRecord.merge theirs.lines[line]? :=
  getElem?_mergeWith _ _ _ _

theorem functions_merge (ours theirs : FileRecord) (id : Nat) :
    (ours.merge theirs).functions[id]? =
      (ours.functions[id]?).merge FunctionRecord.merge theirs.functions[id]? :=
  getElem?_mergeWith _ _ _ _

theorem Orderly.merge {ours theirs : FileRecord} (orderly : ours.Orderly)
    (orderly' : theirs.Orderly) : (ours.merge theirs).Orderly where
  untracked := by
    intro inactive
    obtain ⟨one, other⟩ := Bool.or_eq_false_iff.mp inactive
    show mergedQuality ours theirs = .untracked
    rw [mergedQuality, other]
    exact orderly.untracked one
  settled := orderly.settled.union orderly'.settled

/-! ### Order and grouping -/

/-- **Merging two records of a file does not depend on the order.** -/
theorem merge_comm {ours theirs : FileRecord} (orderly : ours.Orderly) (orderly' : theirs.Orderly)
    (agrees : ours.Agrees LineRecord.Alike theirs) : ours.merge theirs = theirs.merge ours := by
  rw [← reindex_merge ours theirs, ← reindex_merge theirs ours]
  refine reindex_congr agrees.path ?source ?lines ?blocks ?functions ?discovered ?active ?quality
    ?instrumented
  case source =>
    show (if ours.source.isEmpty then theirs.source else ours.source) =
      if theirs.source.isEmpty then ours.source else theirs.source
    by_cases one : ours.source = []
    · rw [one]
      by_cases other : theirs.source = [] <;> simp [other]
    · by_cases other : theirs.source = []
      · simp [one, other]
      · simp [other, agrees.source one other]
  case lines =>
    exact mergeWith_comm fun line own other here there =>
      LineRecord.merge_comm (agrees.lines line own other here there)
  case blocks => exact orderly.settled.union_comm orderly'.settled agrees.blocks
  case functions =>
    exact mergeWith_comm fun id own other here there =>
      FunctionRecord.merge_comm (agrees.functions id own other here there)
  case discovered => exact Bool.or_comm _ _
  case active => exact Bool.or_comm _ _
  case quality =>
    refine (orderly.merge orderly').quality_eq_of_standing (orderly'.merge orderly) ?_
    rw [standing_merge, standing_merge, max_comm]
  case instrumented => exact Bool.or_comm _ _

/-- **Merging three records of a file does not depend on the grouping.** -/
theorem merge_assoc {first second third : FileRecord} (orderly : first.Orderly)
    (orderly' : second.Orderly) (orderly'' : third.Orderly) :
    (first.merge second).merge third = first.merge (second.merge third) := by
  rw [← reindex_merge (first.merge second) third, ← reindex_merge first (second.merge third)]
  refine reindex_congr rfl ?source ?lines ?blocks ?functions ?discovered ?active ?quality
    ?instrumented
  case source =>
    show (if (if first.source.isEmpty then second.source else first.source).isEmpty then
        third.source else if first.source.isEmpty then second.source else first.source) =
      if first.source.isEmpty then if second.source.isEmpty then third.source else second.source
      else first.source
    cases one : first.source.isEmpty
    · simp [one]
    · simp
  case lines => exact mergeWith_assoc LineRecord.merge _ _ _
  case blocks => exact orderly.settled.union_assoc orderly'.settled orderly''.settled
  case functions => exact mergeWith_assoc FunctionRecord.merge _ _ _
  case discovered => exact Bool.or_assoc _ _ _
  case active => exact Bool.or_assoc _ _ _
  case quality =>
    refine ((orderly.merge orderly').merge orderly'').quality_eq_of_standing
      (orderly.merge (orderly'.merge orderly'')) ?_
    simp only [standing_merge, max_assoc]
  case instrumented => exact Bool.or_assoc _ _ _

/-- A merged file agrees with what both sides agree with. -/
theorem Agrees.merge {first second other : FileRecord} (orderly : first.Orderly)
    (orderly' : second.Orderly) (left : first.Agrees LineRecord.Alike other)
    (right : second.Agrees LineRecord.Alike other) :
    (first.merge second).Agrees LineRecord.Alike other where
  path := left.path
  source := by
    intro merged theirs
    change (if first.source.isEmpty then second.source else first.source) ≠ [] at merged
    show (if first.source.isEmpty then second.source else first.source) = other.source
    cases one : first.source.isEmpty
    · rw [one] at merged
      exact left.source merged theirs
    · rw [one] at merged
      exact right.source merged theirs
  lines := by
    intro line record theirs found isTheirs
    rw [lines_merge, Option.merge_eq_some_iff] at found
    rcases found with ⟨here, -⟩ | ⟨-, there⟩ | ⟨own, added, here, there, rfl⟩
    · exact left.lines line record theirs here isTheirs
    · exact right.lines line record theirs there isTheirs
    · exact (left.lines line own theirs here isTheirs).merge
        (right.lines line added theirs there isTheirs)
  blocks := BlockTable.Alike.union orderly.settled orderly'.settled left.blocks right.blocks
  functions := by
    intro id record theirs found isTheirs
    rw [functions_merge, Option.merge_eq_some_iff] at found
    rcases found with ⟨here, -⟩ | ⟨-, there⟩ | ⟨own, added, here, -, rfl⟩
    · exact left.functions id record theirs here isTheirs
    · exact right.functions id record theirs there isTheirs
    · exact left.functions id own theirs here isTheirs

/-! ### Any number of records -/

/-- The records of one file, in the order of a list, merged; there is none if the list is empty. -/
def together (files : List FileRecord) : Option FileRecord :=
  files.foldr (fun file rest => (some file).merge FileRecord.merge rest) none

/-- Records that can be merged in any order. -/
structure Mergeable (files : List FileRecord) : Prop where
  orderly : ∀ file ∈ files, file.Orderly
  agree : ∀ first ∈ files, ∀ second ∈ files, first.Agrees LineRecord.Alike second

namespace Mergeable

variable {files : List FileRecord}

theorem of_subset {fewer : List FileRecord} (mergeable : Mergeable files)
    (subset : fewer ⊆ files) : Mergeable fewer where
  orderly := fun file member => mergeable.orderly file (subset member)
  agree := fun first member second member' =>
    mergeable.agree first (subset member) second (subset member')

theorem of_perm {other : List FileRecord} (mergeable : Mergeable files)
    (order : files.Perm other) : Mergeable other :=
  mergeable.of_subset order.symm.subset

/-- What was merged can itself be merged, with whatever the records agree with. -/
theorem together_spec (mergeable : Mergeable files) {all : FileRecord}
    (merged : together files = some all) :
    all.Orderly ∧ ∀ other : FileRecord,
      (∀ file ∈ files, file.Agrees LineRecord.Alike other) → all.Agrees LineRecord.Alike other := by
  induction files generalizing all with
  | nil => cases merged
  | cons first rest ih =>
      have tail : Mergeable rest := mergeable.of_subset (List.subset_cons_self _ _)
      have orderly := mergeable.orderly first List.mem_cons_self
      cases remainder : together rest with
      | none =>
          have only : some first = some all := by
            rw [← merged, together, List.foldr_cons, ← together, remainder,
              Option.merge_none_right]
          obtain rfl : first = all := Option.some.inj only
          exact ⟨orderly, fun other agree => agree first List.mem_cons_self⟩
      | some others =>
          have both : some (first.merge others) = some all := by
            rw [← merged, together, List.foldr_cons, ← together, remainder, Option.merge_some_some]
          obtain rfl : first.merge others = all := Option.some.inj both
          obtain ⟨orderly', agree'⟩ := ih tail remainder
          refine ⟨orderly.merge orderly', fun other agree => ?_⟩
          exact Agrees.merge orderly orderly' (agree first List.mem_cons_self)
            (agree' other fun file member => agree file (List.mem_cons_of_mem _ member))

end Mergeable

/-- Grouping three records that may be missing. -/
theorem optionMerge_assoc {first second third : Option FileRecord}
    (orderly : ∀ file, first = some file → file.Orderly)
    (orderly' : ∀ file, second = some file → file.Orderly)
    (orderly'' : ∀ file, third = some file → file.Orderly) :
    (first.merge FileRecord.merge second).merge FileRecord.merge third =
      first.merge FileRecord.merge (second.merge FileRecord.merge third) := by
  cases first with
  | none => rw [Option.merge_none_left, Option.merge_none_left]
  | some own =>
      cases second with
      | none => rw [Option.merge_none_left, Option.merge_none_right]
      | some other =>
          cases third with
          | none => rw [Option.merge_none_right, Option.merge_none_right]
          | some last =>
              exact congrArg some
                (merge_assoc (orderly own rfl) (orderly' other rfl) (orderly'' last rfl))

theorem together_cons (first : FileRecord) (rest : List FileRecord) :
    together (first :: rest) = (some first).merge FileRecord.merge (together rest) := rfl

theorem together_append {files more : List FileRecord} (mergeable : Mergeable (files ++ more)) :
    together (files ++ more) = (together files).merge FileRecord.merge (together more) := by
  induction files with
  | nil => exact Option.merge_none_left.symm
  | cons first rest ih =>
      have tail : Mergeable (rest ++ more) := mergeable.of_subset (List.subset_cons_self _ _)
      rw [List.cons_append, together_cons, together_cons, ih tail, optionMerge_assoc]
      · rintro file ⟨⟩
        exact mergeable.orderly _ List.mem_cons_self
      · exact fun file merged =>
          ((tail.of_subset (List.subset_append_left _ _)).together_spec merged).1
      · exact fun file merged =>
          ((tail.of_subset (List.subset_append_right _ _)).together_spec merged).1

/-- **Records merged in any order** come to the same. -/
theorem together_perm {files other : List FileRecord} (order : files.Perm other)
    (mergeable : Mergeable files) : together files = together other := by
  induction order with
  | nil => rfl
  | cons first _ ih =>
      rw [together_cons, together_cons, ih (mergeable.of_subset (List.subset_cons_self _ _))]
  | swap first second rest =>
      have inside : first ∈ second :: first :: rest := List.mem_cons_of_mem _ List.mem_cons_self
      have inside' : second ∈ second :: first :: rest := List.mem_cons_self
      have orderly : ∀ file, some first = some file → file.Orderly := by
        rintro file ⟨⟩
        exact mergeable.orderly _ inside
      have orderly' : ∀ file, some second = some file → file.Orderly := by
        rintro file ⟨⟩
        exact mergeable.orderly _ inside'
      have remainder : ∀ file, together rest = some file → file.Orderly := fun file merged =>
        ((mergeable.of_subset fun _ member =>
          List.mem_cons_of_mem _ (List.mem_cons_of_mem _ member)).together_spec merged).1
      calc together (second :: first :: rest)
        _ = (some second).merge FileRecord.merge
            ((some first).merge FileRecord.merge (together rest)) := rfl
        _ = ((some second).merge FileRecord.merge (some first)).merge FileRecord.merge
            (together rest) := (optionMerge_assoc orderly' orderly remainder).symm
        _ = ((some first).merge FileRecord.merge (some second)).merge FileRecord.merge
            (together rest) := by
          rw [Option.merge_some_some, Option.merge_some_some,
            merge_comm (orderly' _ rfl) (orderly _ rfl) (mergeable.agree _ inside' _ inside)]
        _ = (some first).merge FileRecord.merge
            ((some second).merge FileRecord.merge (together rest)) :=
          optionMerge_assoc orderly orderly' remainder
  | trans order _ ih ih' => rw [ih mergeable, ih' (mergeable.of_perm order)]

end FileRecord

/-! ## Stores -/

namespace CoverageStore

/-- The store with a new line index for every file. -/
def reindexed (store : CoverageStore) : CoverageStore :=
  ⟨store.files.map fun _ file => file.reindex⟩

/-- The record of a path with a new line index. -/
def view (store : CoverageStore) (path : String) : Option FileRecord :=
  (store.files[path]?).map FileRecord.reindex

/-- The record of a line, if there is one. -/
def line? (store : CoverageStore) (path : String) (line : Nat) : Option LineRecord :=
  (store.files[path]?).bind fun file => file.lines[line]?

/-- The record of a block, if there is one. -/
def block? (store : CoverageStore) (path : String) (id : BlockId) : Option BlockRecord :=
  (store.files[path]?).bind fun file => file.blocks.blocks[id]?

/-- The record of a function, if there is one. -/
def function? (store : CoverageStore) (path : String) (id : Nat) : Option FunctionRecord :=
  (store.files[path]?).bind fun file => file.functions[id]?

/-- Two stores say the same about the source of each file that both of them have. -/
def Agrees (alike : LineRecord → LineRecord → Prop) (ours theirs : CoverageStore) : Prop :=
  ∀ (path : String) (own other : FileRecord), ours.files[path]? = some own →
    theirs.files[path]? = some other → own.Agrees alike other

instance (alike : LineRecord → LineRecord → Prop) [∀ own other, Decidable (alike own other)]
    (ours theirs : CoverageStore) : Decidable (ours.Agrees alike theirs) :=
  decidable_of_iff' _ forall_shared_iff

/-- All files of a store are sound. -/
def Sound (store : CoverageStore) : Prop :=
  ∀ (path : String) (file : FileRecord), store.files[path]? = some file → file.Sound

/-- A store with one file is sound if the file is. -/
theorem sound_put {file : FileRecord} (sound : file.Sound) (path : String) :
    (empty.put path file).Sound := by
  intro other found isFound
  rw [put, Std.ExtTreeMap.getElem?_insert] at isFound
  split at isFound
  · obtain rfl : file = found := Option.some.inj isFound
    exact sound
  · cases isFound

/-- All files of a store can be merged. -/
def Orderly (store : CoverageStore) : Prop :=
  ∀ (path : String) (file : FileRecord), store.files[path]? = some file → file.Orderly

theorem Sound.orderly {store : CoverageStore} (sound : store.Sound) : store.Orderly :=
  fun path file found => (sound path file found).orderly

/-- **Merging two stores merges the records of each path.** A record that only they have gets a new
index. -/
theorem getElem?_files_merge (ours theirs : CoverageStore) (path : String) :
    (ours.merge theirs).files[path]? =
      (ours.files[path]?).merge FileRecord.merge
        ((theirs.files[path]?).map FileRecord.reindex) := by
  have altered : ∀ (files : PathMap FileRecord) (path : String)
      (change : Option FileRecord → FileRecord),
      files.insert path (change files[path]?) = files.alter path fun own => some (change own) := by
    intro files path change
    apply Std.ExtTreeMap.ext_getElem?
    intro other
    rw [Std.ExtTreeMap.getElem?_insert, Std.ExtTreeMap.getElem?_alter]
  let change (file : FileRecord) (own : Option FileRecord) : FileRecord :=
    own.elim file.reindex fun own => own.merge file
  have folded : (ours.merge theirs).files = theirs.files.foldl
      (fun merged path file => merged.alter path fun own => some (change file own)) ours.files := by
    refine congrArg (fun step => theirs.files.foldl step ours.files) ?_
    funext files path file
    rw [← altered files path (change file)]
    cases files[path]? <;> rfl
  rw [folded, getElem?_foldl_alter_map fun _ file own => some (change file own)]
  cases theirs.files[path]? with
  | none => exact Option.merge_none_right.symm
  | some file => cases ours.files[path]? <;> rfl

theorem view_merge (ours theirs : CoverageStore) (path : String) :
    (ours.merge theirs).view path =
      (ours.view path).merge FileRecord.merge (theirs.view path) := by
  rw [view, getElem?_files_merge, view, view]
  cases ours.files[path]? <;> cases theirs.files[path]? <;> rfl

theorem eq_of_view {first second : CoverageStore}
    (same : ∀ path, first.view path = second.view path) : first.reindexed = second.reindexed := by
  refine congrArg CoverageStore.mk (Std.ExtTreeMap.ext_getElem? fun path => ?_)
  rw [Std.ExtTreeMap.getElem?_map, Std.ExtTreeMap.getElem?_map]
  exact same path

theorem Orderly.merge {ours theirs : CoverageStore} (orderly : ours.Orderly)
    (orderly' : theirs.Orderly) : (ours.merge theirs).Orderly := by
  intro path file found
  rw [getElem?_files_merge, Option.merge_eq_some_iff] at found
  rcases found with ⟨here, -⟩ | ⟨-, there⟩ | ⟨own, other, here, there, rfl⟩
  · exact orderly path file here
  · obtain ⟨stored, isStored, rfl⟩ := Option.map_eq_some_iff.mp there
    exact (orderly' path stored isStored).reindex
  · obtain ⟨stored, isStored, rfl⟩ := Option.map_eq_some_iff.mp there
    exact (orderly path own here).merge (orderly' path stored isStored).reindex

/-- The counts over all files do not depend on the indexes. -/
theorem summary_reindexed (store : CoverageStore) : store.reindexed.summary = store.summary := by
  unfold summary reindexed
  simp only [Std.ExtTreeMap.foldl_eq_foldl_toList, Std.ExtTreeMap.toList_map, List.foldl_map]
  rfl

/-! ### Hits in a merged store -/

/-- A flag of files that merging unites. -/
theorem any_files_merge {flag : FileRecord → Bool}
    (unites : ∀ own other : FileRecord, flag (own.merge other) = (flag own || flag other))
    (keeps : ∀ file : FileRecord, flag file.reindex = flag file) (ours theirs : CoverageStore)
    (path : String) :
    ((ours.merge theirs).files[path]?).any flag =
      ((ours.files[path]?).any flag || (theirs.files[path]?).any flag) := by
  rw [getElem?_files_merge, Option.any_merge unites, Option.any_map]
  exact congrArg _ (congrArg (fun test => (theirs.files[path]?).any test) (funext keeps))

theorem line?_merge (ours theirs : CoverageStore) (path : String) (line : Nat) :
    (ours.merge theirs).line? path line =
      (ours.line? path line).merge LineRecord.merge (theirs.line? path line) := by
  unfold line?
  rw [getElem?_files_merge]
  cases ours.files[path]? <;> cases theirs.files[path]?
  · rfl
  · exact Option.merge_none_left.symm
  · exact Option.merge_none_right.symm
  · exact FileRecord.lines_merge _ _ line

theorem function?_merge (ours theirs : CoverageStore) (path : String) (id : Nat) :
    (ours.merge theirs).function? path id =
      (ours.function? path id).merge FunctionRecord.merge (theirs.function? path id) := by
  unfold function?
  rw [getElem?_files_merge]
  cases ours.files[path]? <;> cases theirs.files[path]?
  · rfl
  · exact Option.merge_none_left.symm
  · exact Option.merge_none_right.symm
  · exact FileRecord.functions_merge _ _ id

/-- Of the records of blocks only the child sets do not come from one of the two sides. -/
theorem Orderly.block?_merge {ours theirs : CoverageStore} (orderly : ours.Orderly)
    (orderly' : theirs.Orderly) (path : String) (id : BlockId) :
    ((ours.merge theirs).block? path id).map BlockRecord.bare =
      ((ours.block? path id).map BlockRecord.bare).merge BlockRecord.merge
        ((theirs.block? path id).map BlockRecord.bare) := by
  unfold block?
  rw [getElem?_files_merge]
  cases one : ours.files[path]? with
  | none =>
      cases theirs.files[path]? with
      | none => rfl
      | some file => exact Option.merge_none_left.symm
  | some own =>
      cases other : theirs.files[path]? with
      | none => exact Option.merge_none_right.symm
      | some file =>
          exact (orderly path own one).settled.linked.bare_union
            (orderly' path file other).settled.linked.filed id

end CoverageStore

/-- A count that merging adds up, where what is missing counts as zero. -/
theorem countOf_merge {α : Type} {combine : α → α → α} {count : α → UInt64}
    (adds : ∀ own other, count (combine own other) = count own + count other)
    (first second : Option α) :
    ((first.merge combine second).map count).getD 0 =
      (first.map count).getD 0 + (second.map count).getD 0 := by
  cases first <;> cases second
  · exact (UInt64.add_zero 0).symm
  · exact (UInt64.zero_add _).symm
  · exact (UInt64.add_zero _).symm
  · exact adds _ _

/-! ## Plans of merging -/

/-- In which order and grouping some stores are merged. -/
inductive MergePlan where
  | shard (store : CoverageStore)
  | merge (ours theirs : MergePlan)

namespace MergePlan

/-- The store that a plan ends with. -/
def total : MergePlan → CoverageStore
  | shard store => store
  | merge ours theirs => ours.total.merge theirs.total

/-- The stores that a plan merges, from left to right. -/
def shards : MergePlan → List CoverageStore
  | shard store => [store]
  | merge ours theirs => ours.shards ++ theirs.shards

/-- The records that the stores of a plan have of a path. -/
def views (plan : MergePlan) (path : String) : List FileRecord :=
  plan.shards.filterMap fun store => store.view path

/-- A flag that a merged store has exactly when one of the stores has it. -/
def Unites (plan : MergePlan) (flag : CoverageStore → Bool) : Prop :=
  flag plan.total = plan.shards.any flag

/-- A count that is the sum of the counts of the stores, if that fits into 64 bits. -/
def Sums (plan : MergePlan) (count : CoverageStore → UInt64) : Prop :=
  (plan.shards.map fun store => (count store).toNat).sum < UInt64.size →
    (count plan.total).toNat = (plan.shards.map fun store => (count store).toNat).sum

/-- Every flag of a merged store is the union of the flags of the stores, and every count the sum of
their counts. What a store does not have counts as zero. -/
structure Tallied (plan : MergePlan) : Prop where
  discovered : ∀ path : String, plan.Unites fun store =>
    (store.files[path]?).any FileRecord.discovered
  active : ∀ path : String, plan.Unites fun store => (store.files[path]?).any FileRecord.active
  instrumented : ∀ path : String, plan.Unites fun store =>
    (store.files[path]?).any FileRecord.instrumented
  executedLine : ∀ (path : String) (line : Nat), plan.Unites fun store =>
    (store.line? path line).any LineRecord.executed
  coveredLine : ∀ (path : String) (line : Nat), plan.Unites fun store =>
    (store.line? path line).any LineRecord.covered
  lineCount : ∀ (path : String) (line : Nat), plan.Sums fun store =>
    ((store.line? path line).map LineRecord.executionCount).getD 0
  executedBlock : ∀ (path : String) (id : BlockId), plan.Unites fun store =>
    (store.block? path id).any BlockRecord.executed
  blockCount : ∀ (path : String) (id : BlockId), plan.Sums fun store =>
    ((store.block? path id).map BlockRecord.executionCount).getD 0
  executedFunction : ∀ (path : String) (id : Nat), plan.Unites fun store =>
    (store.function? path id).any FunctionRecord.executed
  functionCount : ∀ (path : String) (id : Nat), plan.Sums fun store =>
    ((store.function? path id).map FunctionRecord.executionCount).getD 0

section Plan

variable {plan : MergePlan}

theorem orderly_total (orderly : ∀ store ∈ plan.shards, store.Orderly) : plan.total.Orderly := by
  induction plan with
  | shard store => exact orderly store (List.mem_singleton.mpr rfl)
  | merge ours theirs ih ih' =>
      exact (ih fun store member => orderly store (List.mem_append_left _ member)).merge
        (ih' fun store member => orderly store (List.mem_append_right _ member))

/-- **The record of a path in the end** is made from the records of that path. -/
theorem view_total {path : String} (mergeable : FileRecord.Mergeable (plan.views path)) :
    plan.total.view path = FileRecord.together (plan.views path) := by
  induction plan with
  | shard store =>
      rw [views, shards, total]
      cases viewed : store.view path <;> rw [List.filterMap_cons, viewed] <;> rfl
  | merge ours theirs ih ih' =>
      have split : (merge ours theirs).views path = ours.views path ++ theirs.views path :=
        List.filterMap_append
      rw [split] at mergeable ⊢
      rw [FileRecord.together_append mergeable,
        ← ih (mergeable.of_subset (List.subset_append_left _ _)),
        ← ih' (mergeable.of_subset (List.subset_append_right _ _))]
      exact CoverageStore.view_merge _ _ path

theorem mergeable_views (orderly : ∀ store ∈ plan.shards, store.Orderly)
    (agree : ∀ one ∈ plan.shards, ∀ other ∈ plan.shards, one.Agrees LineRecord.Alike other)
    (path : String) : FileRecord.Mergeable (plan.views path) where
  orderly := by
    intro file member
    obtain ⟨store, isShard, viewed⟩ := List.mem_filterMap.mp member
    obtain ⟨stored, isStored, rfl⟩ := Option.map_eq_some_iff.mp viewed
    exact (orderly store isShard path stored isStored).reindex
  agree := by
    intro first member second member'
    obtain ⟨store, isShard, viewed⟩ := List.mem_filterMap.mp member
    obtain ⟨stored, isStored, rfl⟩ := Option.map_eq_some_iff.mp viewed
    obtain ⟨store', isShard', viewed'⟩ := List.mem_filterMap.mp member'
    obtain ⟨stored', isStored', rfl⟩ := Option.map_eq_some_iff.mp viewed'
    exact (agree store isShard store' isShard' path stored stored' isStored isStored').reindex

/-- A flag that two merged stores unite is united by every plan. -/
theorem unites_of_merge (orderly : ∀ store ∈ plan.shards, store.Orderly)
    {flag : CoverageStore → Bool} (step : ∀ ours theirs : CoverageStore, ours.Orderly →
      theirs.Orderly → flag (ours.merge theirs) = (flag ours || flag theirs)) :
    plan.Unites flag := by
  unfold Unites
  induction plan with
  | shard store => simp [total, shards]
  | merge ours theirs ih ih' =>
      have left := fun store member => orderly store (List.mem_append_left _ member)
      have right := fun store member => orderly store (List.mem_append_right _ member)
      rw [shards, List.any_append, total, step _ _ (orderly_total left) (orderly_total right),
        ih left, ih' right]

/-- A count that two merged stores add up is added up by every plan. -/
theorem sums_of_merge (orderly : ∀ store ∈ plan.shards, store.Orderly)
    {count : CoverageStore → UInt64} (step : ∀ ours theirs : CoverageStore, ours.Orderly →
      theirs.Orderly → count (ours.merge theirs) = count ours + count theirs) :
    plan.Sums count := by
  unfold Sums
  induction plan with
  | shard store => simp [total, shards]
  | merge ours theirs ih ih' =>
      have left := fun store member => orderly store (List.mem_append_left _ member)
      have right := fun store member => orderly store (List.mem_append_right _ member)
      rw [shards, List.map_append, List.sum_append, total,
        step _ _ (orderly_total left) (orderly_total right)]
      intro fits
      rw [UInt64.toNat_add, ih left (by omega), ih' right (by omega)]
      exact Nat.mod_eq_of_lt fits

/-- Hits that are merged in pairs are tallied by every plan. -/
theorem tallied (orderly : ∀ store ∈ plan.shards, store.Orderly) : plan.Tallied where
  discovered := fun path => unites_of_merge orderly fun ours theirs _ _ =>
    CoverageStore.any_files_merge (fun _ _ => rfl) (fun _ => rfl) ours theirs path
  active := fun path => unites_of_merge orderly fun ours theirs _ _ =>
    CoverageStore.any_files_merge (fun _ _ => rfl) (fun _ => rfl) ours theirs path
  instrumented := fun path => unites_of_merge orderly fun ours theirs _ _ =>
    CoverageStore.any_files_merge (fun _ _ => rfl) (fun _ => rfl) ours theirs path
  executedLine := fun path line => unites_of_merge orderly fun ours theirs _ _ => by
    rw [CoverageStore.line?_merge, Option.any_merge LineRecord.executed_merge]
  coveredLine := fun path line => unites_of_merge orderly fun ours theirs _ _ => by
    rw [CoverageStore.line?_merge, Option.any_merge LineRecord.covered_merge]
  lineCount := fun path line => sums_of_merge orderly fun ours theirs _ _ => by
    rw [CoverageStore.line?_merge, countOf_merge LineRecord.executionCount_merge]
  executedBlock := fun path id => unites_of_merge orderly fun ours theirs own other => by
    rw [← BlockRecord.any_executed_bare, own.block?_merge other,
      Option.any_merge BlockRecord.executed_merge, BlockRecord.any_executed_bare,
      BlockRecord.any_executed_bare]
  blockCount := fun path id => sums_of_merge orderly fun ours theirs own other => by
    rw [← BlockRecord.map_executionCount_bare, own.block?_merge other,
      countOf_merge BlockRecord.executionCount_merge, BlockRecord.map_executionCount_bare,
      BlockRecord.map_executionCount_bare]
  executedFunction := fun path id => unites_of_merge orderly fun ours theirs _ _ => by
    rw [CoverageStore.function?_merge, Option.any_merge FunctionRecord.executed_merge]
  functionCount := fun path id => sums_of_merge orderly fun ours theirs _ _ => by
    rw [CoverageStore.function?_merge, countOf_merge FunctionRecord.executionCount_merge]

end Plan

/-- **All ways of merging the same stores come to the same.** The stores have to agree on the
sources of the files that they share, their block tables must need no repair, and files that they do
not track must have no quality. Then two plans that merge the same stores, in any order and
grouping, end with stores that are equal but for the line indexes, and with the same counts over all
files; each hit flag is the union and each hit count the sum of those of the stores. Merging with
the empty store changes nothing. -/
theorem total_eq_of_perm (first second : MergePlan) (order : first.shards.Perm second.shards)
    (sound : ∀ store ∈ first.shards, store.Sound)
    (agree : ∀ one ∈ first.shards, ∀ other ∈ first.shards, one.Agrees LineRecord.Alike other) :
    first.total.reindexed = second.total.reindexed ∧
    first.total.summary = second.total.summary ∧
    first.Tallied ∧
    (CoverageStore.empty.merge first.total).reindexed = first.total.reindexed ∧
    first.total.merge .empty = first.total := by
  have orderly : ∀ store ∈ first.shards, store.Orderly := fun store member =>
    (sound store member).orderly
  have same : first.total.reindexed = second.total.reindexed := by
    refine CoverageStore.eq_of_view fun path => ?_
    have mergeable := mergeable_views orderly agree path
    have perm : (first.views path).Perm (second.views path) := order.filterMap _
    calc first.total.view path
      _ = FileRecord.together (first.views path) := view_total mergeable
      _ = FileRecord.together (second.views path) := FileRecord.together_perm perm mergeable
      _ = second.total.view path := (view_total (mergeable.of_perm perm)).symm
  refine ⟨same, ?_, tallied orderly, ?_, ?_⟩
  · rw [← CoverageStore.summary_reindexed first.total, same, CoverageStore.summary_reindexed]
  · refine CoverageStore.eq_of_view fun path => ?_
    rw [CoverageStore.view_merge]
    exact Option.merge_none_left
  · refine congrArg CoverageStore.mk (Std.ExtTreeMap.ext_getElem? fun path => ?_)
    exact (CoverageStore.getElem?_files_merge first.total .empty path).trans Option.merge_none_right

/-- What three workers found in one file: the first one analyzed it and ran both blocks, the second
one could not read it, and the third one only saw it. -/
def workers : List FileRecord :=
  let code (count : UInt64) : LineRecord :=
    ⟨true, count != 0, false, count, .code, .syntaxCode, false⟩
  let guess (count : UInt64) : LineRecord :=
    ⟨true, true, false, count, .code, .observedHit, true⟩
  let blocks := (Analysis.tableOf [.fresh 2 .doBlock none 1 2 3, .fresh 1 .doBlock none 0 1 4]).1
  [{ path := "/p/a.lua", source := ["do", "do", "f()", "end end"], active := true
     quality := .full, lines := .ofList [(3, code 2), (4, code 0)]
     blocks := ((blocks.enterBlock 1).enterBlock 2).resolve.1 },
    { path := "/p/a.lua", active := true, lines := .ofList [(3, guess 3), (9, guess 1)] },
    { path := "/p/a.lua" }]

/-- The store of one worker. -/
def ofWorker (file : FileRecord) : MergePlan := .shard (CoverageStore.empty.put file.path file)

/-- The workers merged from left to right. -/
def inOrder : MergePlan :=
  .merge (.merge (ofWorker workers[0]) (ofWorker workers[1])) (ofWorker workers[2])

/-- The workers merged from right to left. -/
def backwards : MergePlan :=
  .merge (ofWorker workers[2]) (.merge (ofWorker workers[1]) (ofWorker workers[0]))

/-- The workers meet the conditions, and their hits on line 3 are added up in either order. -/
theorem total_eq_of_perm_workers :
    inOrder.shards.Perm backwards.shards ∧ (∀ store ∈ inOrder.shards, store.Sound) ∧
      (∀ one ∈ inOrder.shards, ∀ other ∈ inOrder.shards, one.Agrees LineRecord.Alike other) ∧
      inOrder.total.reindexed = backwards.total.reindexed ∧
      ((inOrder.total.line? "/p/a.lua" 3).map LineRecord.executionCount).getD 0 = 5 := by
  have order : inOrder.shards.Perm backwards.shards := by decide +kernel
  have sound : ∀ store ∈ inOrder.shards, store.Sound := by
    have first : workers[0].Sound :=
      ⟨nofun, BlockTable.consistent_resolve (BlockTable.Filed.of_entries (by decide +kernel)),
        by decide +kernel⟩
    have second : workers[1].Sound := ⟨nofun, BlockTable.consistent_empty, rfl⟩
    have third : workers[2].Sound := ⟨fun _ => rfl, BlockTable.consistent_empty, rfl⟩
    intro store member
    have shards : inOrder.shards = workers.map fun file => CoverageStore.empty.put file.path file :=
      rfl
    rw [shards] at member
    obtain ⟨file, isWorker, rfl⟩ := List.mem_map.mp member
    rcases isWorker with _ | ⟨_, _ | ⟨_, _ | ⟨_, ⟨⟩⟩⟩⟩
    · exact CoverageStore.sound_put first _
    · exact CoverageStore.sound_put second _
    · exact CoverageStore.sound_put third _
  have agree : ∀ one ∈ inOrder.shards, ∀ other ∈ inOrder.shards,
      one.Agrees LineRecord.Alike other := by decide +kernel
  obtain ⟨same, -, -, -, -⟩ := total_eq_of_perm inOrder backwards order sound agree
  exact ⟨order, sound, agree, same, by decide +kernel⟩

/-! ### Guesses that differ -/

/-- A file with one line that was hit before any analysis was at hand, and a guess at its type. -/
def guessed (lineType : LineType) : CoverageStore :=
  CoverageStore.empty.put "/p/a.lua"
    { path := "/p/a.lua", active := true
      lines := .ofList [(1, { LineRecord.unclassified false with
        executed := true, executionCount := 1, lineType := lineType })] }

/-- **A guess at the type of a line stays what the first store made it.** Two stores that guess
differently agree that the line can run, but merging them depends on the order. -/
theorem merge_guessed_order :
    (guessed .code).Sound ∧ (guessed .structural).Sound ∧
      (guessed .code).Agrees LineRecord.RoughlyAlike (guessed .structural) ∧
      ((guessed .code).merge (guessed .structural)).line? "/p/a.lua" 1 ≠
        ((guessed .structural).merge (guessed .code)).line? "/p/a.lua" 1 := by
  have sound : ∀ lineType, (guessed lineType).Sound := fun _ =>
    CoverageStore.sound_put ⟨fun _ => rfl, BlockTable.consistent_empty, rfl⟩ _
  exact ⟨sound _, sound _, by decide +kernel, by decide +kernel⟩

end MergePlan

end LuaCoverage
