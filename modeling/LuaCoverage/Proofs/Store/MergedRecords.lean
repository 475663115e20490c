import LuaCoverage.Proofs.Block.Union

/-!
# Merging the records of one file

Two records of the same line, block or function are merged by adding counts and uniting flags, and
what they say about the source is taken from one of them. So merging groups as it likes, and the
order matters only as far as the two sides say different things about the source: for lines, where
either both or neither are guesses.

The block tables of two sides are put together block by block, which for settled tables is again a
matter of single records (`BlockTable.Settled.union_comm`, `BlockTable.Settled.union_assoc`).
-/

set_option autoImplicit false

namespace LuaCoverage

/-! ## Lines -/

namespace LineRecord

/-- What a record says about the text of its line. -/
def verdict (record : LineRecord) : Classification :=
  ⟨record.lineType, record.executable, record.reason⟩

/-- Two records of one line say the same about its text where neither is more of a guess than the
other. -/
def Alike (own other : LineRecord) : Prop :=
  own.provisional = other.provisional → own.verdict = other.verdict

instance (own other : LineRecord) : Decidable (own.Alike other) :=
  inferInstanceAs (Decidable (_ → _))

/-- Two records of one line say the same about its text where both are settled, and the same about
whether it can run where both are guesses. -/
def RoughlyAlike (own other : LineRecord) : Prop :=
  (own.provisional = false → other.provisional = false → own.verdict = other.verdict) ∧
    (own.provisional = true → other.provisional = true → own.executable = other.executable)

instance (own other : LineRecord) : Decidable (own.RoughlyAlike other) :=
  inferInstanceAs (Decidable (_ ∧ _))

variable (first second third : LineRecord)

@[simp]
theorem executed_merge : (first.merge second).executed = (first.executed || second.executed) := by
  unfold merge
  split <;> rfl

@[simp]
theorem covered_merge : (first.merge second).covered = (first.covered || second.covered) := by
  unfold merge
  split <;> rfl

@[simp]
theorem executionCount_merge :
    (first.merge second).executionCount = first.executionCount + second.executionCount := by
  unfold merge
  split <;> rfl

@[simp]
theorem provisional_merge :
    (first.merge second).provisional = (first.provisional && second.provisional) := by
  unfold merge
  cases guess : first.provisional <;> cases second.provisional <;> simp [guess]

@[simp]
theorem verdict_merge : (first.merge second).verdict =
    if first.provisional && !second.provisional then second.verdict else first.verdict := by
  unfold merge verdict
  split <;> rfl

/-- A record is determined by its hits, its verdict and whether that is a guess. -/
theorem eq_of_parts {first second : LineRecord} (executed : first.executed = second.executed)
    (covered : first.covered = second.covered)
    (counts : first.executionCount = second.executionCount)
    (verdicts : first.verdict = second.verdict)
    (provisional : first.provisional = second.provisional) : first = second := by
  obtain ⟨types, executable, reasons⟩ := Classification.mk.inj verdicts
  cases first
  cases second
  cases executed
  cases covered
  cases counts
  cases types
  cases executable
  cases reasons
  cases provisional
  rfl

/-- **Merging two records of a line does not depend on the order** if they are alike. -/
theorem merge_comm {first second : LineRecord} (alike : first.Alike second) :
    first.merge second = second.merge first := by
  refine eq_of_parts ?_ ?_ ?_ ?_ ?_
  · rw [executed_merge, executed_merge, Bool.or_comm]
  · rw [covered_merge, covered_merge, Bool.or_comm]
  · rw [executionCount_merge, executionCount_merge, UInt64.add_comm]
  · rw [verdict_merge, verdict_merge]
    cases guess : first.provisional <;> cases guess' : second.provisional
    · exact alike (guess.trans guess'.symm)
    · rfl
    · rfl
    · exact alike (guess.trans guess'.symm)
  · rw [provisional_merge, provisional_merge, Bool.and_comm]

/-- **Merging three records of a line does not depend on the grouping.** -/
theorem merge_assoc : (first.merge second).merge third = first.merge (second.merge third) := by
  refine eq_of_parts ?_ ?_ ?_ ?_ ?_
  · simp only [executed_merge, Bool.or_assoc]
  · simp only [covered_merge, Bool.or_assoc]
  · simp only [executionCount_merge, UInt64.add_assoc]
  · simp only [verdict_merge, provisional_merge]
    -- the first verdict that is not a guess wins, or the very first one
    cases first.provisional <;> cases second.provisional <;> cases third.provisional <;> rfl
  · simp only [provisional_merge, Bool.and_assoc]

instance : Std.Associative LineRecord.merge := ⟨merge_assoc⟩

/-- A merged record is alike to what both sides are alike to. -/
theorem Alike.merge {first second other : LineRecord} (left : first.Alike other)
    (right : second.Alike other) : (first.merge second).Alike other := by
  unfold Alike at *
  rw [provisional_merge, verdict_merge]
  cases guess : first.provisional <;> cases guess' : second.provisional <;>
    rw [guess] at left <;> rw [guess'] at right
  · exact left
  · exact left
  · exact right
  · exact left

end LineRecord

/-! ## Functions -/

namespace FunctionRecord

/-- What a record says about its function, hits apart. -/
def description (record : FunctionRecord) : FunctionRecord :=
  { record with executed := false, executionCount := 0 }

theorem merge_comm {first second : FunctionRecord}
    (same : first.description = second.description) : first.merge second = second.merge first := by
  cases first
  cases second
  cases same
  simp only [merge, Bool.or_comm, UInt64.add_comm]

theorem merge_assoc (first second third : FunctionRecord) :
    (first.merge second).merge third = first.merge (second.merge third) := by
  simp only [merge, Bool.or_assoc, UInt64.add_assoc]

instance : Std.Associative FunctionRecord.merge := ⟨merge_assoc⟩

theorem executed_merge (first second : FunctionRecord) :
    (first.merge second).executed = (first.executed || second.executed) := rfl

theorem executionCount_merge (first second : FunctionRecord) :
    (first.merge second).executionCount = first.executionCount + second.executionCount := rfl

end FunctionRecord

/-! ## Blocks -/

namespace BlockRecord

/-- What a record says about its block, hits and children apart. -/
def description (record : BlockRecord) : BlockRecord :=
  { record with children := ∅, executed := false, executionCount := 0 }

theorem merge_comm {first second : BlockRecord} (same : first.description = second.description)
    (children : first.children = second.children) : first.merge second = second.merge first := by
  cases first
  cases second
  cases children
  cases same
  simp only [merge, Bool.or_comm, UInt64.add_comm]

theorem merge_assoc (first second third : BlockRecord) :
    (first.merge second).merge third = first.merge (second.merge third) := by
  simp only [merge, Bool.or_assoc, UInt64.add_assoc]

instance : Std.Associative BlockRecord.merge := ⟨merge_assoc⟩

theorem executed_merge (first second : BlockRecord) :
    (first.merge second).executed = (first.executed || second.executed) := rfl

theorem executionCount_merge (first second : BlockRecord) :
    (first.merge second).executionCount = first.executionCount + second.executionCount := rfl

theorem any_executed_bare (found : Option BlockRecord) :
    (found.map bare).any executed = found.any executed := by
  cases found <;> rfl

theorem map_executionCount_bare (found : Option BlockRecord) :
    (found.map bare).map executionCount = found.map executionCount := by
  cases found <;> rfl

end BlockRecord

namespace BlockTable

variable {first second third : BlockTable}

/-- Two tables describe their common blocks in the same way. -/
def Alike (first second : BlockTable) : Prop :=
  ∀ (id : BlockId) (own other : BlockRecord), first.blocks[id]? = some own →
    second.blocks[id]? = some other → own.description = other.description

instance : Decidable (first.Alike second) := decidable_of_iff' _ forall_shared_iff

/-- Descriptions can be compared on records without child sets. -/
theorem alike_iff_bare : first.Alike second ↔ ∀ id own other, first.bare id = some own →
    second.bare id = some other → own.description = other.description := by
  constructor
  · intro alike id own other here there
    obtain ⟨stored, isStored, rfl⟩ := Option.map_eq_some_iff.mp here
    obtain ⟨stored', isStored', rfl⟩ := Option.map_eq_some_iff.mp there
    exact alike id stored stored' isStored isStored'
  · intro alike id own other here there
    exact alike id own.bare other.bare (by rw [bare, here]; rfl) (by rw [bare, there]; rfl)

theorem bare_children {table : BlockTable} {id : BlockId} {record : BlockRecord}
    (found : table.bare id = some record) : record.children = ∅ := by
  obtain ⟨stored, -, rfl⟩ := Option.map_eq_some_iff.mp found
  rfl

/-- **Putting two settled tables together does not depend on the order.** -/
theorem Settled.union_comm (settled : first.Settled) (settled' : second.Settled)
    (alike : first.Alike second) : first.union second = second.union first := by
  refine (settled.union settled').eq_of_bare (settled'.union settled) ?_
  funext id
  rw [settled.linked.bare_union settled'.linked.filed,
    settled'.linked.bare_union settled.linked.filed]
  refine optionMerge_comm fun own other here there => ?_
  exact BlockRecord.merge_comm (alike_iff_bare.mp alike id own other here there)
    ((bare_children here).trans (bare_children there).symm)

/-- **Putting three settled tables together does not depend on the grouping.** -/
theorem Settled.union_assoc (settled : first.Settled) (settled' : second.Settled)
    (settled'' : third.Settled) :
    (first.union second).union third = first.union (second.union third) := by
  have left := settled.union settled'
  have right := settled'.union settled''
  refine (left.union settled'').eq_of_bare (settled.union right) ?_
  funext id
  rw [left.linked.bare_union settled''.linked.filed, settled.linked.bare_union right.linked.filed,
    settled.linked.bare_union settled'.linked.filed,
    settled'.linked.bare_union settled''.linked.filed]
  exact Std.Associative.assoc _ _ _

/-- Two tables together are alike to what both of them are alike to. -/
theorem Alike.union {other : BlockTable} (settled : first.Settled) (settled' : second.Settled)
    (left : first.Alike other) (right : second.Alike other) : (first.union second).Alike other := by
  rw [alike_iff_bare] at left right ⊢
  intro id record theirs found isTheirs
  rw [settled.linked.bare_union settled'.linked.filed, Option.merge_eq_some_iff] at found
  rcases found with ⟨here, -⟩ | ⟨-, there⟩ | ⟨own, added, here, -, rfl⟩
  · exact left id record theirs here isTheirs
  · exact right id record theirs there isTheirs
  · exact left id own theirs here isTheirs

end BlockTable

end LuaCoverage
