import LuaCoverage.Proofs.Document.RoundTrip

/-!
# Faithful readers

Numbers are written in full and read up to 32 bits, so a document of a record need not be readable.
But a reader of documents is *faithful* to a writer: it reads what was written, or nothing. Readers
of lists, of sets, of maps by number and of values that may be missing are faithful if the readers
of their items are, and so are the readers of records of blocks and of block tables.

No condition on the numbers is needed for this, in contrast to `BlockTable.ofJson?_toJson`.
-/

set_option autoImplicit false

namespace LuaCoverage

open Json

namespace Json.Value

/-- A reader finds in a document what was written, if it finds anything. -/
def Faithful {α : Type} (item? : Value → Option α) (document : α → Value) : Prop :=
  ∀ item found : α, item? (document item) = some found → found = item

theorem required_some {α : Type} (item? : Value → Option α) (document : Value) :
    required item? (some document) = item? document := rfl

/-- A lexeme is read as the value of its digits. -/
theorem digitsValue_of_naturalOf? {bound number : Nat} {lexeme : List Char}
    (reads : naturalOf? bound lexeme = some number) : digitsValue lexeme = number := by
  unfold naturalOf? at reads
  split at reads
  · cases reads
  · split at reads
    · simp only [Option.ite_none_right_eq_some] at reads
      exact Option.some.inj reads.2
    · cases reads

theorem faithful_nat32 : Faithful nat32? ofNat := by
  intro number found reads
  have toList : (toString number).toList = Nat.toDigits 10 number := Nat.toList_repr
  rw [nat32?, ofNat, natBelow?, toList] at reads
  rw [← digitsValue_of_naturalOf? reads,
    digitsValue_of_naturalOf? (naturalOf?_toDigits (Nat.lt_succ_self number))]

/-- A reader that always reads what was written is faithful. -/
theorem Faithful.of_reads {α : Type} {item? : Value → Option α} {document : α → Value}
    (reads : ∀ item, item? (document item) = some item) : Faithful item? document :=
  fun item _ found => Option.some.inj (found.symm.trans (reads item))

/-- **Readers of lists are faithful** if the readers of their items are. -/
theorem Faithful.list {α : Type} {item? : Value → Option α} {document : α → Value}
    (faithful : Faithful item? document) : Faithful (list? item?) (ofList document) := by
  intro items found reads
  rw [ofList, list?] at reads
  induction items generalizing found with
  | nil => exact (Option.some.inj reads).symm
  | cons first rest ih =>
      rw [List.map_cons, List.mapM_cons] at reads
      obtain ⟨head, readsHead, reads⟩ := Option.bind_eq_some_iff.mp reads
      obtain ⟨tail, readsTail, reads⟩ := Option.bind_eq_some_iff.mp reads
      obtain rfl := Option.some.inj reads
      rw [faithful first head readsHead, ih tail readsTail]

/-- Readers of values that may be missing are faithful, if what is there is not written as null. -/
theorem Faithful.optional {α : Type} {item? : Value → Option α} {document : α → Value}
    (faithful : Faithful item? document) (notNull : ∀ item, document item ≠ .null) :
    Faithful (fun written => Value.optional item? (some written)) (ofOption document) := by
  intro stands found reads
  cases stands with
  | none => exact (Option.some.inj reads).symm
  | some item =>
      simp only [ofOption, Value.optional, orNull?.eq_def] at reads
      split at reads
      · rename_i same
        exact absurd same (notNull item)
      · obtain ⟨other, readsItem, rfl⟩ := Option.map_eq_some_iff.mp reads
        rw [faithful item other readsItem]

/-- Member names that are numbers are read as these numbers. -/
theorem eq_of_nat32Key? {number found : Nat}
    (reads : nat32Key? (escapeText (toString number)) = some found) : found = number := by
  have toList : (toString number).toList = Nat.toDigits 10 number := Nat.toList_repr
  rw [escapeText_toString, nat32Key?, toList] at reads
  rw [← digitsValue_of_naturalOf? reads,
    digitsValue_of_naturalOf? (naturalOf?_toDigits (Nat.lt_succ_self number))]

/-- The entries of an object whose members are named by numbers. -/
theorem Faithful.entries {α : Type} {item? : Value → Option α} {document : α → Value}
    (faithful : Faithful item? document) {entries found : List (Nat × α)}
    (reads : entries? nat32Key? item?
      (.ofMembers (entries.map fun entry => (toString entry.1, document entry.2))) = some found) :
    found = entries := by
  rw [ofMembers, entries?, List.map_map, List.mapM_map] at reads
  induction entries generalizing found with
  | nil => exact (Option.some.inj reads).symm
  | cons first rest ih =>
      simp only [List.mapM_cons, Function.comp_apply, Option.bind_eq_bind, Option.pure_def,
        Option.bind_eq_some_iff, Option.some.injEq] at reads
      obtain ⟨head, ⟨key, readsKey, item, readsItem, rfl⟩, tail, readsTail, rfl⟩ := reads
      rw [ih readsTail, eq_of_nat32Key? readsKey, faithful first.2 item readsItem]

end Json.Value

open Json.Value

/-- **Sets of numbers are read faithfully.** -/
theorem faithful_numbers : Faithful numbersOfJson? numbersToJson := by
  intro numbers found reads
  obtain ⟨listed, readsList, rfl⟩ := Option.map_eq_some_iff.mp reads
  obtain rfl := faithful_nat32.list _ _ readsList
  refine Std.ExtTreeSet.ext_mem fun number => ?_
  rw [mem_foldl_insert, Std.ExtTreeSet.mem_toList]
  exact or_iff_right Std.ExtTreeSet.not_mem_empty

/-- **Maps by number are read faithfully**, if their values are. -/
theorem faithful_numbered {α : Type} {item? : Value → Option α} {document : α → Value}
    (faithful : Faithful item? document) :
    Faithful (numberedOfJson? item?) (numberedToJson document) := by
  intro entries found reads
  obtain ⟨listed, readsEntries, rfl⟩ := Option.map_eq_some_iff.mp reads
  obtain rfl := faithful.entries readsEntries
  exact (foldl_insert_toList id entries).trans (map_eq_self fun _ _ _ => rfl)

theorem faithful_count : Faithful countOfJson? countToJson :=
  .of_reads countOfJson?_countToJson

/-! ## Blocks -/

theorem Branch.faithful : Faithful Branch.ofJson? Branch.toJson := .of_reads Branch.ofJson?_toJson

/-- **Records of blocks are read faithfully.** -/
theorem BlockRecord.faithful : Faithful BlockRecord.ofJson? BlockRecord.toJson := by
  intro record found reads
  rw [ofJson?, toJson, fields?_own ?own ?distinct] at reads
  case own => rfl
  case distinct => decide
  simp only [List.map_cons, List.map_nil, Option.bind_eq_bind, Option.bind_some,
    required_some] at reads
  obtain ⟨id, readsId, reads⟩ := Option.bind_eq_some_iff.mp reads
  obtain ⟨kind, readsKind, reads⟩ := Option.bind_eq_some_iff.mp reads
  obtain ⟨branch, readsBranch, reads⟩ := Option.bind_eq_some_iff.mp reads
  obtain ⟨start, readsStart, reads⟩ := Option.bind_eq_some_iff.mp reads
  obtain ⟨finish, readsFinish, reads⟩ := Option.bind_eq_some_iff.mp reads
  obtain ⟨parent, readsParent, reads⟩ := Option.bind_eq_some_iff.mp reads
  obtain ⟨children, readsChildren, reads⟩ := Option.bind_eq_some_iff.mp reads
  obtain ⟨executed, readsExecuted, reads⟩ := Option.bind_eq_some_iff.mp reads
  obtain ⟨count, readsCount, reads⟩ := Option.bind_eq_some_iff.mp reads
  obtain rfl := Option.some.inj reads
  obtain rfl := faithful_nat32 _ _ readsId
  obtain rfl := Faithful.of_reads BlockKind.ofJson?_toJson _ _ readsKind
  obtain rfl := Branch.faithful.optional (fun _ null => by cases null) _ _ readsBranch
  obtain rfl := faithful_nat32 _ _ readsStart
  obtain rfl := faithful_nat32 _ _ readsFinish
  obtain rfl := faithful_nat32.optional (fun _ null => by cases null) _ _ readsParent
  obtain rfl := faithful_numbers _ _ readsChildren
  obtain rfl := Faithful.of_reads bool?_bool _ _ readsExecuted
  obtain rfl := faithful_count _ _ readsCount
  rfl

/-- **Block tables are read faithfully**, whatever waits in them and is flagged in them. -/
theorem BlockTable.faithful : Faithful BlockTable.ofJson? BlockTable.toJson := by
  intro table found reads
  rw [ofJson?, toJson, fields?_own ?own ?distinct] at reads
  case own => rfl
  case distinct => decide
  simp only [List.map_cons, List.map_nil, Option.bind_eq_bind, Option.bind_some,
    required_some] at reads
  obtain ⟨blocks, readsBlocks, reads⟩ := Option.bind_eq_some_iff.mp reads
  obtain ⟨rootChildren, readsRoot, reads⟩ := Option.bind_eq_some_iff.mp reads
  obtain ⟨pending, readsPending, reads⟩ := Option.bind_eq_some_iff.mp reads
  obtain ⟨orphans, readsOrphans, reads⟩ := Option.bind_eq_some_iff.mp reads
  obtain rfl := Option.some.inj reads
  obtain rfl := faithful_numbered BlockRecord.faithful _ _ readsBlocks
  obtain rfl := faithful_numbers _ _ readsRoot
  obtain rfl := faithful_numbered faithful_numbers _ _ readsPending
  obtain rfl := faithful_numbered faithful_nat32 _ _ readsOrphans
  rfl

end LuaCoverage
