import LuaCoverage.Proofs.Document.RoundTrip
import LuaCoverage.Proofs.Store.MergeOrder
import LuaCoverage.Store.Snapshot

/-!
# Reading a snapshot that was written

A store whose numbers have at most 32 bits (`CoverageStore.IsRepresentable`) is read from its
snapshot as it was, with a new line index for every file (`CoverageStore.parse_renderAt`). Nothing
else is asked of the store: paths, source lines and names are any texts, tables need not be
consistent, and counts may be as large as they can get.

A snapshot says when it was made. That is the only part of its text in which the snapshot of a store
and a later one of the store that was read from it differ (`CoverageStore.snapshot_roundTrip`).
-/

set_option autoImplicit false

namespace LuaCoverage

open Json

/-! ## Files -/

namespace FileRecord

/-- The numbers that the record of a file lists. -/
def numbers (file : FileRecord) : List Nat :=
  file.lines.keys ++ file.blocks.numbers
    ++ file.functions.keys ++ file.functions.values.flatMap FunctionRecord.numbers

/-- The record of a file without its line index. -/
def unindexed (file : FileRecord) : FileRecord := { file with index := {} }

/-- **The record of a file is read as what was written**, but for its line index. -/
theorem ofJson?_toJson {file : FileRecord} (words : ∀ number ∈ file.numbers, IsWord number) :
    ofJson? file.toJson = some file.unindexed := by
  simp only [numbers, List.forall_mem_append, List.forall_mem_flatMap] at words
  obtain ⟨⟨⟨lineNumbers, blockNumbers⟩, ids⟩, records⟩ := words
  have source : Value.list? Value.text? (.ofList Value.ofString file.source) = some file.source :=
    Value.list?_ofList fun line _ => Value.text?_ofString line
  have lines : numberedOfJson? LineRecord.ofJson?
      (numberedToJson LineRecord.toJson file.lines) = some file.lines :=
    numberedOfJson?_numberedToJson lineNumbers fun record _ => LineRecord.ofJson?_toJson record
  have functions : numberedOfJson? FunctionRecord.ofJson?
      (numberedToJson FunctionRecord.toJson file.functions) = some file.functions :=
    numberedOfJson?_numberedToJson ids fun record member =>
      FunctionRecord.ofJson?_toJson (records record member)
  rw [ofJson?, toJson, Value.fields?_own ?own ?distinct]
  case own => rfl
  case distinct => decide
  simp [Value.required, source, lines, BlockTable.ofJson?_toJson blockNumbers, functions,
    Quality.ofJson?_toJson, unindexed]

theorem canonical_toJson (file : FileRecord) : Canonical file.toJson := by
  refine .ofMembers ?_
  simp only [List.forall_mem_cons, List.not_mem_nil, false_implies, implies_true, and_true]
  exact ⟨.ofString _, .ofList .ofString _, .numberedToJson LineRecord.canonical_toJson _,
    file.blocks.canonical_toJson, .numberedToJson FunctionRecord.canonical_toJson _, .bool _,
    .bool _, .ofString _, .bool _⟩

end FileRecord

theorem Summary.canonical_toJson (summary : Summary) : Canonical summary.toJson := by
  refine .ofMembers ?_
  simp only [List.forall_mem_cons, List.not_mem_nil, false_implies, implies_true, and_true]
  exact ⟨.ofNat _, .ofNat _, .ofNat _, .ofNat _, .ofNat _, .ofNat _, .ofNat _, .ofNat _⟩

/-! ## Stores -/

namespace CoverageStore

/-- All numbers of a store have at most 32 bits: line numbers, the numbers of blocks and functions,
and the lines and blocks that their records name. -/
def IsRepresentable (store : CoverageStore) : Prop :=
  ∀ file ∈ store.files.values, ∀ number ∈ file.numbers, IsWord number

instance (store : CoverageStore) : Decidable store.IsRepresentable :=
  inferInstanceAs (Decidable (∀ file ∈ store.files.values, ∀ number ∈ file.numbers, IsWord number))

theorem canonical_snapshotAt (store : CoverageStore) (time : String) :
    Canonical (store.snapshotAt time) := by
  refine .ofMembers ?_
  simp only [snapshotMembers, List.forall_mem_cons, List.not_mem_nil, false_implies, implies_true,
    and_true]
  refine ⟨.ofString _, store.summary.canonical_toJson, .ofMembers fun member inside => ?_⟩
  obtain ⟨entry, -, rfl⟩ := List.mem_map.mp inside
  exact entry.2.canonical_toJson

/-- The files of a snapshot are read as they were, with new line indexes. -/
theorem ofSnapshot?_snapshotAt {store : CoverageStore} (representable : store.IsRepresentable)
    (time : String) : ofSnapshot? (store.snapshotAt time) = some store.reindexed := by
  have isValue : ∀ entry ∈ store.files.toList, entry.2 ∈ store.files.values := by
    intro entry member
    rw [values_eq_map_toList]
    exact List.mem_map_of_mem member
  have files : Value.entries? decodeText? FileRecord.ofJson?
      (.ofMembers (store.files.toList.map fun entry => (entry.1, entry.2.toJson))) =
        some (store.files.toList.map fun entry => (entry.1, entry.2.unindexed)) :=
    Value.entries?_ofMembers (fun path => path) FileRecord.toJson FileRecord.unindexed
      (fun entry _ => decodeText?_escapeText entry.1)
      fun entry member => FileRecord.ofJson?_toJson (representable entry.2 (isValue entry member))
  have distinct : (("generated_at", Value.ofString time) :: store.snapshotMembers).map Prod.fst =
      ["generated_at", "summary", "files"] := rfl
  have found : (store.snapshotAt time).fields? ["files"] =
      some [some (.ofMembers (store.files.toList.map fun entry => (entry.1, entry.2.toJson)))] :=
    Value.fields?_ofMembers (by rw [distinct]; decide) ["files"]
  rw [ofSnapshot?, found, Option.bind_eq_bind, Option.bind_some]
  simp only [Value.required, Option.bind_eq_bind, Option.bind_some, files, List.foldl_map]
  -- the files are made anew from the entries, in the order in which they were written
  exact congrArg (fun files => some (CoverageStore.mk files))
    (foldl_insert_toList FileRecord.reindex store.files)

/-- **A store is read from its snapshot** as it was, with new line indexes. -/
theorem parse_renderAt {store : CoverageStore} (representable : store.IsRepresentable)
    (time : String) : parse (store.renderAt time) = .ok store.reindexed := by
  rw [parse, renderAt, parse_renderIn _ (store.canonical_snapshotAt time), Option.bind_some,
    ofSnapshot?_snapshotAt representable]

/-! ## The text of a snapshot -/

/-- Line indexes are not written. -/
theorem renderAt_reindexed (store : CoverageStore) (time : String) :
    store.reindexed.renderAt time = store.renderAt time := by
  have files : store.reindexed.files.toList.map (fun entry => (entry.1, entry.2.toJson)) =
      store.files.toList.map fun entry => (entry.1, entry.2.toJson) := by
    rw [reindexed, Std.ExtTreeMap.toList_map, List.map_map]
    rfl
  rw [renderAt, snapshotAt, snapshotMembers, files, summary_reindexed]
  rfl

/-- The time stands in one place of the text. -/
theorem exists_frame_renderAt (store : CoverageStore) :
    ∃ front back : String, ∀ time : String,
      store.renderAt time = front ++ escapeText time ++ back := by
  let others := store.snapshotMembers.map fun member => (escapeText member.1, member.2)
  refine ⟨String.ofList ('\x7b' :: Layout.indented.gap 1 ++ '"' ::
      (escapeText "generated_at").toList ++ ['"', ':', ' ', '"']),
    String.ofList ('"' :: ',' :: writtenMembers .indented 1 others
      ++ Layout.indented.gap 0 ++ ['\x7d']), fun time => String.toList_inj.mp ?_⟩
  rw [renderAt, Value.renderIn, snapshotAt, Value.ofMembers]
  simp [others, snapshotMembers, writtenIn, writtenMembers, Value.ofString, Layout.closing,
    Layout.indented]

/-- **A snapshot brings a store back.** A store whose numbers have at most 32 bits is read from the
text of its snapshot, and each file is what it was but for its line index, which is not written. A
snapshot of the store that was read and one of the first store, made at any times, are the same
text around the time. -/
theorem snapshot_roundTrip {store : CoverageStore} (representable : store.IsRepresentable)
    (time : String) :
    ∃ loaded : CoverageStore, parse (store.renderAt time) = .ok loaded ∧
      (∀ path : String, (loaded.files[path]?).map FileRecord.unindexed =
        (store.files[path]?).map FileRecord.unindexed) ∧
      ∃ front back : String, ∀ later : String,
        store.renderAt later = front ++ escapeText later ++ back ∧
        loaded.renderAt later = front ++ escapeText later ++ back := by
  obtain ⟨front, back, framed⟩ := store.exists_frame_renderAt
  refine ⟨store.reindexed, parse_renderAt representable time, fun path => ?_, front, back,
    fun later => ⟨framed later, (store.renderAt_reindexed later).trans (framed later)⟩⟩
  rw [reindexed, Std.ExtTreeMap.getElem?_map, Option.map_map]
  rfl

/-- A file with texts that have to be escaped, the largest count, and a block that waits for a
parent, is flagged, and names none. -/
def scrawled : FileRecord :=
  let line : LineRecord := ⟨true, true, true, 18446744073709551615, .code, .observedHit, true⟩
  let block : BlockRecord := ⟨3, .doBlock, none, 0, 4294967295, none, ∅, false, 0⟩
  let waiting : BlockSet := .ofList [3]
  let nameless : FunctionRecord := ⟨0, none, .anonymous, 2, 1, false, 0⟩
  let method : FunctionRecord := ⟨1, some "f\u0000𝄞", .method, 1, 1, true, 18446744073709551615⟩
  { path := "/p/\u0001\t𝄞.lua", source := ["-- \"\\\u007f", ""], active := true
    lines := .ofList [(4294967295, line)]
    blocks :=
      { blocks := .ofList [(3, block)], rootChildren := .ofList [7]
        pending := .ofList [(9, waiting)], orphans := .ofList [(3, 9)] }
    functions := .ofList [(0, nameless), (1, method)] }

/-- Such a file is brought back from a snapshot, here under a path that is not its own. -/
theorem snapshot_roundTrip_scrawled :
    (empty.put "\n" scrawled).IsRepresentable ∧
    ∃ loaded : CoverageStore, parse ((empty.put "\n" scrawled).renderAt "now") = .ok loaded ∧
      (loaded.files["\n"]?).map FileRecord.unindexed = some scrawled.unindexed := by
  have representable : (empty.put "\n" scrawled).IsRepresentable := by decide +kernel
  obtain ⟨loaded, read, same, -⟩ := snapshot_roundTrip representable "now"
  exact ⟨representable, loaded, read, same "\n"⟩

end CoverageStore

end LuaCoverage
