import LuaCoverage.Document.Records
import LuaCoverage.Proofs.Json.Fields
import LuaCoverage.Proofs.OrderedMap

/-!
# Reading records that were written

Words, counts, sets and maps of numbers, and the records of lines, blocks and functions are read as
what was written. A count has 64 bits and always fits; the other numbers are written in full and
read up to 32 bits, so what is said of a record asks that the numbers it lists
(`BlockRecord.numbers`, `BlockTable.numbers`, `FunctionRecord.numbers`) are that small.

Every document of a record is canonical, so its text is read as the document.
-/

set_option autoImplicit false

namespace LuaCoverage

open Json

/-- A number of at most 32 bits. -/
def IsWord (number : Nat) : Prop := number < 4294967296

instance (number : Nat) : Decidable (IsWord number) := inferInstanceAs (Decidable (_ < _))

/-! ## Words -/

theorem LineType.ofJson?_toJson (lineType : LineType) :
    LineType.ofJson? lineType.toJson = some lineType := by
  rw [ofJson?, toJson, Value.choice?_ofString]
  cases lineType <;> decide

theorem Reason.ofJson?_toJson (reason : Reason) : Reason.ofJson? reason.toJson = some reason := by
  rw [ofJson?, toJson, Value.choice?_ofString]
  cases reason <;> decide

theorem BlockKind.ofJson?_toJson (kind : BlockKind) :
    BlockKind.ofJson? kind.toJson = some kind := by
  rw [ofJson?, toJson, Value.choice?_ofString]
  cases kind <;> decide

theorem Branch.ofJson?_toJson (branch : Branch) : Branch.ofJson? branch.toJson = some branch := by
  rw [ofJson?, toJson, Value.choice?_ofString]
  cases branch <;> decide

theorem FunctionKind.ofJson?_toJson (kind : FunctionKind) :
    FunctionKind.ofJson? kind.toJson = some kind := by
  rw [ofJson?, toJson, Value.choice?_ofString]
  cases kind <;> decide

theorem Quality.ofJson?_toJson (quality : Quality) :
    Quality.ofJson? quality.toJson = some quality := by
  rw [ofJson?, toJson, Value.choice?_ofString]
  cases quality <;> decide

/-! ## Numbers, sets and maps -/

theorem countOfJson?_countToJson (count : UInt64) :
    countOfJson? (countToJson count) = some count := by
  rw [countOfJson?, countToJson, Value.nat64?_ofNat count.toNat_lt, Option.map_some,
    UInt64.ofNat_toNat]

/-- **A set of numbers is read as what was written.** -/
theorem numbersOfJson?_numbersToJson {numbers : Std.ExtTreeSet Nat}
    (words : ∀ number ∈ numbers.toList, IsWord number) :
    numbersOfJson? (numbersToJson numbers) = some numbers := by
  rw [numbersOfJson?, numbersToJson,
    Value.list?_ofList fun number member => Value.nat32?_ofNat (words number member),
    Option.map_some]
  refine congrArg some (Std.ExtTreeSet.ext_mem fun number => ?_)
  rw [mem_foldl_insert, Std.ExtTreeSet.mem_toList]
  exact or_iff_right Std.ExtTreeSet.not_mem_empty

section Maps

variable {κ α β : Type} {order : κ → κ → Ordering} [Std.TransCmp order] [Std.LawfulEqCmp order]

/-- A map made of the changed entries of another one. -/
theorem foldl_insert_toList (change : α → β) (map : Std.ExtTreeMap κ α order) :
    map.toList.foldl (fun made entry => made.insert entry.1 (change entry.2))
        (∅ : Std.ExtTreeMap κ β order) = map.map fun _ value => change value := by
  have inserted : map.toList.foldl (fun made entry => made.insert entry.1 (change entry.2))
      (∅ : Std.ExtTreeMap κ β order) =
      map.foldl (fun made key value => made.alter key fun _ => some (change value)) ∅ := by
    rw [Std.ExtTreeMap.foldl_eq_foldl_toList]
    refine congrArg (List.foldl · ∅ map.toList) (funext fun made => funext fun entry => ?_)
    apply Std.ExtTreeMap.ext_getElem?
    intro key
    rw [Std.ExtTreeMap.getElem?_insert, Std.ExtTreeMap.getElem?_alter]
  apply Std.ExtTreeMap.ext_getElem?
  intro key
  rw [inserted, getElem?_foldl_alter_map fun _ value _ => some (change value),
    Std.ExtTreeMap.getElem?_map]
  cases map[key]? with
  | none => exact Std.ExtTreeMap.getElem?_empty
  | some value => rfl

end Maps

/-- **A map by number is read as what was written**, if its values are. -/
theorem numberedOfJson?_numberedToJson {α : Type} {item? : Value → Option α} {item : α → Value}
    {entries : Std.ExtTreeMap Nat α} (words : ∀ number ∈ entries.keys, IsWord number)
    (reads : ∀ value ∈ entries.values, item? (item value) = some value) :
    numberedOfJson? item? (numberedToJson item entries) = some entries := by
  have readsKey : ∀ entry ∈ entries.toList,
      Value.nat32Key? (escapeText (toString entry.1)) = some entry.1 := by
    intro entry member
    have toList : (toString entry.1).toList = Nat.toDigits 10 entry.1 := Nat.toList_repr
    have word : IsWord entry.1 := words entry.1
      (Std.ExtTreeMap.map_fst_toList_eq_keys (t := entries) ▸ List.mem_map_of_mem member)
    rw [escapeText_toString, Value.nat32Key?, toList, naturalOf?_toDigits word]
  have readsItem : ∀ entry ∈ entries.toList, item? (item entry.2) = some entry.2 := by
    intro entry member
    refine reads entry.2 ?_
    rw [values_eq_map_toList]
    exact List.mem_map_of_mem member
  rw [numberedOfJson?, numberedToJson, Value.entries?_ofMembers toString item id readsKey readsItem,
    Option.map_some, List.foldl_map]
  exact congrArg some ((foldl_insert_toList id entries).trans (map_eq_self fun _ _ _ => rfl))

/-! ## Records -/

/-- **The record of a line is read as what was written.** -/
theorem LineRecord.ofJson?_toJson (record : LineRecord) :
    LineRecord.ofJson? record.toJson = some record := by
  rw [ofJson?, toJson, Value.fields?_own ?own ?distinct]
  case own => rfl
  case distinct => decide
  simp [Value.required, countOfJson?_countToJson, LineType.ofJson?_toJson, Reason.ofJson?_toJson]

/-- The numbers that the record of a block lists. -/
def BlockRecord.numbers (record : BlockRecord) : List Nat :=
  record.id :: record.startLine :: record.endLine ::
    (record.parentId.toList ++ record.children.toList)

/-- **The record of a block is read as what was written.** -/
theorem BlockRecord.ofJson?_toJson {record : BlockRecord}
    (words : ∀ number ∈ record.numbers, IsWord number) :
    BlockRecord.ofJson? record.toJson = some record := by
  simp only [numbers, List.mem_cons, List.mem_append, Option.mem_toList, forall_eq_or_imp] at words
  obtain ⟨id, start, finish, listed⟩ := words
  have branch : Value.optional Branch.ofJson? (some (.ofOption Branch.toJson record.branch)) =
      some record.branch :=
    Value.optional_ofOption (fun _ => nofun) fun branch _ => Branch.ofJson?_toJson branch
  have parent : Value.optional Value.nat32? (some (.ofOption Value.ofNat record.parentId)) =
      some record.parentId :=
    Value.optional_ofOption (fun _ => nofun) fun parent named =>
      Value.nat32?_ofNat (listed parent (.inl named))
  have children : numbersOfJson? (numbersToJson record.children) = some record.children :=
    numbersOfJson?_numbersToJson fun child member => listed child (.inr member)
  rw [ofJson?, toJson, Value.fields?_own ?own ?distinct]
  case own => rfl
  case distinct => decide
  simp [Value.required, countOfJson?_countToJson, BlockKind.ofJson?_toJson, branch, parent,
    children, Value.nat32?_ofNat id, Value.nat32?_ofNat start, Value.nat32?_ofNat finish]

/-- The numbers that a block table lists. -/
def BlockTable.numbers (table : BlockTable) : List Nat :=
  table.blocks.keys ++ table.blocks.values.flatMap BlockRecord.numbers
    ++ table.rootChildren.toList
    ++ table.pending.keys ++ table.pending.values.flatMap Std.ExtTreeSet.toList
    ++ table.orphans.keys ++ table.orphans.values

/-- **A block table is read as what was written**, whatever waits in it and is flagged in it. -/
theorem BlockTable.ofJson?_toJson {table : BlockTable}
    (words : ∀ number ∈ table.numbers, IsWord number) :
    BlockTable.ofJson? table.toJson = some table := by
  simp only [numbers, List.forall_mem_append, List.forall_mem_flatMap] at words
  obtain ⟨⟨⟨⟨⟨⟨ids, records⟩, root⟩, parents⟩, waiting⟩, flagged⟩, wanted⟩ := words
  have blocks : numberedOfJson? BlockRecord.ofJson?
      (numberedToJson BlockRecord.toJson table.blocks) = some table.blocks :=
    numberedOfJson?_numberedToJson ids fun record member =>
      BlockRecord.ofJson?_toJson (records record member)
  have rootChildren : numbersOfJson? (numbersToJson table.rootChildren) =
      some table.rootChildren := numbersOfJson?_numbersToJson root
  have pending : numberedOfJson? numbersOfJson? (numberedToJson numbersToJson table.pending) =
      some table.pending :=
    numberedOfJson?_numberedToJson parents fun children member =>
      numbersOfJson?_numbersToJson (waiting children member)
  have orphans : numberedOfJson? Value.nat32? (numberedToJson Value.ofNat table.orphans) =
      some table.orphans :=
    numberedOfJson?_numberedToJson flagged fun parent member =>
      Value.nat32?_ofNat (wanted parent member)
  rw [ofJson?, toJson, Value.fields?_own ?own ?distinct]
  case own => rfl
  case distinct => decide
  simp [Value.required, blocks, rootChildren, pending, orphans]

/-- The numbers that the record of a function lists. -/
def FunctionRecord.numbers (record : FunctionRecord) : List Nat :=
  [record.id, record.startLine, record.endLine]

/-- **The record of a function is read as what was written**, whatever its name. -/
theorem FunctionRecord.ofJson?_toJson {record : FunctionRecord}
    (words : ∀ number ∈ record.numbers, IsWord number) :
    FunctionRecord.ofJson? record.toJson = some record := by
  simp only [numbers, List.forall_mem_cons] at words
  obtain ⟨id, start, finish, -⟩ := words
  have name : Value.optional Value.text? (some (.ofOption Value.ofString record.name)) =
      some record.name :=
    Value.optional_ofOption (fun _ => nofun) fun name _ => Value.text?_ofString name
  rw [ofJson?, toJson, Value.fields?_own ?own ?distinct]
  case own => rfl
  case distinct => decide
  simp [Value.required, countOfJson?_countToJson, FunctionKind.ofJson?_toJson, name,
    Value.nat32?_ofNat id, Value.nat32?_ofNat start, Value.nat32?_ofNat finish]

/-! ## Canonical documents -/

namespace Json.Canonical

/-- A list of canonical documents is canonical. -/
theorem ofList {α : Type} {document : α → Value} (each : ∀ item, Canonical (document item))
    (items : List α) : Canonical (.ofList document items) := by
  refine .array fun item member => ?_
  obtain ⟨item, -, rfl⟩ := List.mem_map.mp member
  exact each item

/-- Something that may be missing is canonical if it is when it is there. -/
theorem ofOption {α : Type} {document : α → Value} (each : ∀ item, Canonical (document item))
    (found : Option α) : Canonical (.ofOption document found) := by
  cases found with
  | none => exact .null
  | some item => exact each item

theorem numbersToJson (numbers : Std.ExtTreeSet Nat) :
    Canonical (LuaCoverage.numbersToJson numbers) :=
  ofList .ofNat _

theorem numberedToJson {α : Type} {item : α → Value} (each : ∀ value, Canonical (item value))
    (entries : Std.ExtTreeMap Nat α) : Canonical (LuaCoverage.numberedToJson item entries) := by
  refine .ofMembers fun member inside => ?_
  obtain ⟨entry, -, rfl⟩ := List.mem_map.mp inside
  exact each entry.2

end Json.Canonical

theorem LineRecord.canonical_toJson (record : LineRecord) : Canonical record.toJson := by
  refine .ofMembers ?_
  simp only [List.forall_mem_cons, List.not_mem_nil, false_implies, implies_true, and_true]
  exact ⟨.bool _, .bool _, .bool _, .ofNat _, .ofString _, .ofString _, .bool _⟩

theorem BlockRecord.canonical_toJson (record : BlockRecord) : Canonical record.toJson := by
  refine .ofMembers ?_
  simp only [List.forall_mem_cons, List.not_mem_nil, false_implies, implies_true, and_true]
  exact ⟨.ofNat _, .ofString _, .ofOption (fun _ => .ofString _) _, .ofNat _, .ofNat _,
    .ofOption .ofNat _, .numbersToJson _, .bool _, .ofNat _⟩

theorem BlockTable.canonical_toJson (table : BlockTable) : Canonical table.toJson := by
  refine .ofMembers ?_
  simp only [List.forall_mem_cons, List.not_mem_nil, false_implies, implies_true, and_true]
  exact ⟨.numberedToJson BlockRecord.canonical_toJson _, .numbersToJson _,
    .numberedToJson .numbersToJson _, .numberedToJson .ofNat _⟩

theorem FunctionRecord.canonical_toJson (record : FunctionRecord) : Canonical record.toJson := by
  refine .ofMembers ?_
  simp only [List.forall_mem_cons, List.not_mem_nil, false_implies, implies_true, and_true]
  exact ⟨.ofNat _, .ofOption .ofString _, .ofString _, .ofNat _, .ofNat _, .bool _, .ofNat _⟩

end LuaCoverage
