import Mathlib.Data.Finset.Card
import Mathlib.Data.Nat.Find
import Mathlib.Order.Interval.Finset.Nat
import LuaCoverage.Block.Resolver

/-!
# Chains of parents

A table of blocks and a list of declared blocks both say, for a block, which block its parent is.
What matters of either is a partial function `up` from blocks to blocks, and the *chain* of a block
is what iterating it yields. The main chunk has no parent.

A block is on a circle when its chain comes back to it. A chain that stays among finitely many
blocks for long enough visits one of them twice (`exists_circle_of_long`). This gives both that a
walk of bounded length finds every circle (`OnCircle.exists_short`) and that a chain without circles
leaves any finite set of blocks (`exists_ancestor_outside`). Redirecting parents to the main chunk
closes no circle (`OnCircle.of_redirected`).

The last section ties the two walks of a table to its chains: `comesBack` recognises the circles,
and `ancestors` stops below the main chunk.
-/

set_option autoImplicit false

namespace LuaCoverage

namespace ParentChain

variable (up : BlockId → Option BlockId)

/-- The block that is reached from a block after a number of steps upwards. -/
def ancestor : Nat → BlockId → Option BlockId
  | 0, id => some id
  | steps + 1, id => (up id).bind (ancestor steps)

/-- Whether the chain of a block comes back to it. -/
def OnCircle (id : BlockId) : Prop := ∃ steps, ancestor up (steps + 1) id = some id

/-- A block on a circle that has the smallest number of all blocks on it. -/
def LeastOnCircle (id : BlockId) : Prop :=
  OnCircle up id ∧ ∀ steps other, ancestor up steps id = some other → id ≤ other

variable {up}

@[simp]
theorem ancestor_zero (id : BlockId) : ancestor up 0 id = some id := rfl

theorem ancestor_succ (steps : Nat) (id : BlockId) :
    ancestor up (steps + 1) id = (up id).bind (ancestor up steps) := rfl

@[simp]
theorem ancestor_one (id : BlockId) : ancestor up 1 id = up id := by
  cases parent : up id <;> simp [ancestor_succ, parent]

theorem ancestor_add (first later : Nat) (id : BlockId) :
    ancestor up (first + later) id = (ancestor up first id).bind (ancestor up later) := by
  induction first generalizing id with
  | zero => simp
  | succ first ih =>
      rw [Nat.succ_add, ancestor_succ, ancestor_succ]
      cases up id with
      | none => rfl
      | some parent => exact ih parent

theorem ancestor_succ_eq_some {steps : Nat} {id other : BlockId} :
    ancestor up (steps + 1) id = some other ↔
      ∃ parent, up id = some parent ∧ ancestor up steps parent = some other := by
  rw [ancestor_succ, Option.bind_eq_some_iff]

/-- A chain that goes on passed through every earlier place. -/
theorem exists_ancestor_of_le {less more : Nat} {id other : BlockId} (le : less ≤ more)
    (reached : ancestor up more id = some other) :
    ∃ between, ancestor up less id = some between ∧
      ancestor up (more - less) between = some other := by
  obtain ⟨rest, rfl⟩ := Nat.exists_eq_add_of_le le
  rw [ancestor_add, Option.bind_eq_some_iff] at reached
  obtain ⟨between, first, later⟩ := reached
  exact ⟨between, first, by rwa [Nat.add_sub_cancel_left]⟩

theorem not_onCircle_of_no_parent {id : BlockId} (top : up id = none) : ¬ OnCircle up id := by
  rintro ⟨steps, back⟩
  simp [ancestor_succ, top] at back

/-- Going round a circle any number of times comes back to the start. -/
theorem ancestor_rounds {id : BlockId} {round : Nat}
    (back : ancestor up (round + 1) id = some id) (count : Nat) :
    ancestor up (count * (round + 1)) id = some id := by
  induction count with
  | zero => simp
  | succ count ih =>
      rw [Nat.succ_mul, ancestor_add, ih]
      exact back

/-- The chain of a block on a circle never ends, and it comes back from everywhere. -/
theorem OnCircle.exists_ancestor {id : BlockId} (circle : OnCircle up id) (steps : Nat) :
    ∃ other back, ancestor up steps id = some other ∧
      ancestor up (back + 1) other = some id := by
  obtain ⟨round, back⟩ := circle
  have longer : steps + 1 ≤ (steps + 1) * (round + 1) :=
    Nat.le_mul_of_pos_right _ (Nat.succ_pos _)
  obtain ⟨other, first, later⟩ :=
    exists_ancestor_of_le (Nat.le_of_succ_le longer) (ancestor_rounds back (steps + 1))
  refine ⟨other, (steps + 1) * (round + 1) - steps - 1, first, ?_⟩
  rwa [Nat.sub_add_cancel (by omega)]

/-- All blocks on the chain of a block on a circle are on circles. -/
theorem OnCircle.of_ancestor {id other : BlockId} (circle : OnCircle up id) {steps : Nat}
    (reached : ancestor up steps id = some other) : OnCircle up other := by
  obtain ⟨passed, back, first, later⟩ := circle.exists_ancestor steps
  obtain rfl : passed = other := Option.some.inj (first.symm.trans reached)
  refine ⟨back + steps, ?_⟩
  rw [show back + steps + 1 = (back + 1) + steps by omega, ancestor_add, later]
  exact reached

/-! ## Finitely many blocks -/

/-- A chain that meets a block twice is on a circle from there on. -/
theorem onCircle_of_meets_twice {id other : BlockId} {early late : Nat} (before : early < late)
    (first : ancestor up early id = some other) (again : ancestor up late id = some other) :
    OnCircle up other := by
  obtain ⟨passed, reached, later⟩ := exists_ancestor_of_le before.le again
  obtain rfl : passed = other := Option.some.inj (reached.symm.trans first)
  exact ⟨late - early - 1, by rwa [Nat.sub_add_cancel (by omega)]⟩

/-- A chain that stays among finitely many blocks for as many steps as there are blocks runs into a
circle. -/
theorem exists_circle_of_long {blocks : List BlockId} {id : BlockId}
    (within : ∀ steps, steps ≤ blocks.length →
      ∃ other, ancestor up steps id = some other ∧ other ∈ blocks) :
    ∃ early late other, early < late ∧ late ≤ blocks.length ∧
      ancestor up early id = some other ∧ ancestor up late id = some other := by
  have count : blocks.toFinset.card < (Finset.range (blocks.length + 1)).card := by
    rw [Finset.card_range]
    exact Nat.lt_succ_of_le (List.toFinset_card_le blocks)
  have maps : ∀ steps ∈ Finset.range (blocks.length + 1),
      (ancestor up steps id).getD id ∈ blocks.toFinset := by
    intro steps inRange
    have le := Nat.lt_succ_iff.mp (Finset.mem_range.mp inRange)
    obtain ⟨other, reached, member⟩ := within steps le
    rw [reached]
    exact List.mem_toFinset.mpr member
  obtain ⟨one, oneIn, two, twoIn, distinct, same⟩ :=
    Finset.exists_ne_map_eq_of_card_lt_of_maps_to count maps
  obtain ⟨first, reachedFirst, -⟩ := within one (Nat.lt_succ_iff.mp (Finset.mem_range.mp oneIn))
  obtain ⟨second, reachedSecond, -⟩ := within two (Nat.lt_succ_iff.mp (Finset.mem_range.mp twoIn))
  rw [reachedFirst, reachedSecond] at same
  obtain rfl : first = second := same
  rcases Nat.lt_or_gt_of_ne distinct with less | more
  · exact ⟨one, two, first, less, Nat.lt_succ_iff.mp (Finset.mem_range.mp twoIn), reachedFirst,
      reachedSecond⟩
  · exact ⟨two, one, first, more, Nat.lt_succ_iff.mp (Finset.mem_range.mp oneIn), reachedSecond,
      reachedFirst⟩

/-- **A circle is not longer than the number of blocks that have a parent.** -/
theorem OnCircle.exists_short {blocks : List BlockId}
    (finite : ∀ id parent, up id = some parent → id ∈ blocks) {id : BlockId}
    (circle : OnCircle up id) :
    ∃ steps, steps < blocks.length ∧ ancestor up (steps + 1) id = some id := by
  classical
  let round := Nat.find circle
  have back : ancestor up (round + 1) id = some id := Nat.find_spec circle
  refine ⟨round, ?_, back⟩
  by_contra long
  have within : ∀ steps, steps ≤ blocks.length →
      ∃ other, ancestor up steps id = some other ∧ other ∈ blocks := by
    intro steps le
    obtain ⟨other, reached, later⟩ :=
      exists_ancestor_of_le (show steps ≤ round + 1 by omega) back
    obtain ⟨rest, more⟩ : ∃ rest, round + 1 - steps = rest + 1 := ⟨round - steps, by omega⟩
    rw [more, ancestor_succ_eq_some] at later
    obtain ⟨parent, named, -⟩ := later
    exact ⟨other, reached, finite other parent named⟩
  obtain ⟨early, late, other, before, bound, first, again⟩ := exists_circle_of_long within
  -- leaving out the part between the two visits gives a shorter way round
  obtain ⟨passed, reached, later⟩ :=
    exists_ancestor_of_le (show late ≤ round + 1 by omega) back
  obtain rfl : passed = other := Option.some.inj (reached.symm.trans again)
  have shorter : ancestor up (early + (round + 1 - late) - 1 + 1) id = some id := by
    rw [show early + (round + 1 - late) - 1 + 1 = early + (round + 1 - late) by omega,
      ancestor_add, first]
    exact later
  have least : round ≤ early + (round + 1 - late) - 1 := Nat.find_min' circle shorter
  omega

/-- A chain without circles that has a parent for each of finitely many blocks leaves them. -/
theorem exists_ancestor_outside {blocks : List BlockId}
    (parents : ∀ id ∈ blocks, ∃ parent, up id = some parent)
    (acyclic : ∀ id, ¬ OnCircle up id) {id : BlockId} (start : id ∈ blocks) :
    ∃ steps other, steps < blocks.length ∧ ancestor up (steps + 1) id = some other ∧
      other ∉ blocks := by
  classical
  by_contra none
  have within : ∀ steps, steps ≤ blocks.length →
      ∃ other, ancestor up steps id = some other ∧ other ∈ blocks := by
    intro steps
    induction steps with
    | zero => exact fun _ => ⟨id, rfl, start⟩
    | succ steps ih =>
        intro le
        obtain ⟨before, reached, member⟩ := ih (by omega)
        obtain ⟨parent, named⟩ := parents before member
        have next : ancestor up (steps + 1) id = some parent := by
          rw [ancestor_add, reached]
          simpa using named
        refine ⟨parent, next, ?_⟩
        by_contra outside
        exact none ⟨steps, parent, by omega, next, outside⟩
  obtain ⟨early, late, other, before, -, first, again⟩ := exists_circle_of_long within
  exact acyclic other (onCircle_of_meets_twice before first again)

/-! ## Redirecting to the main chunk -/

/-- When some parents are redirected to the main chunk, every way that does not end there was a way
before. -/
theorem ancestor_of_redirected {changed : BlockId → Option BlockId}
    (top : changed BlockId.root = none)
    (redirected : ∀ id, changed id = up id ∨ changed id = some BlockId.root)
    {steps : Nat} {id other : BlockId} (notRoot : other ≠ BlockId.root)
    (reached : ancestor changed steps id = some other) : ancestor up steps id = some other := by
  induction steps generalizing id with
  | zero => exact reached
  | succ steps ih =>
      obtain ⟨parent, named, later⟩ := ancestor_succ_eq_some.mp reached
      rcases redirected id with same | toRoot
      · exact ancestor_succ_eq_some.mpr ⟨parent, same ▸ named, ih later⟩
      · obtain rfl : BlockId.root = parent := Option.some.inj (toRoot.symm.trans named)
        cases steps with
        | zero => exact absurd (Option.some.inj later).symm notRoot
        | succ steps => simp [ancestor_succ, top] at later

/-- **Redirecting parents to the main chunk closes no circle.** -/
theorem OnCircle.of_redirected {changed : BlockId → Option BlockId}
    (top : changed BlockId.root = none)
    (redirected : ∀ id, changed id = up id ∨ changed id = some BlockId.root) {id : BlockId}
    (circle : OnCircle changed id) : OnCircle up id := by
  have notRoot : id ≠ BlockId.root := by
    rintro rfl
    exact not_onCircle_of_no_parent top circle
  obtain ⟨steps, back⟩ := circle
  exact ⟨steps, ancestor_of_redirected top redirected notRoot back⟩

/-- A circle that is left after redirecting some parents is passed in the same order as before. -/
theorem OnCircle.ancestor_redirected {changed : BlockId → Option BlockId}
    (top : changed BlockId.root = none)
    (redirected : ∀ id, changed id = up id ∨ changed id = some BlockId.root) {id : BlockId}
    (circle : OnCircle changed id) (steps : Nat) :
    ancestor changed steps id = ancestor up steps id := by
  obtain ⟨other, back, reached, -⟩ := circle.exists_ancestor steps
  have notRoot : other ≠ BlockId.root := by
    rintro rfl
    exact not_onCircle_of_no_parent top (circle.of_ancestor reached)
  rw [reached, ancestor_of_redirected top redirected notRoot reached]

theorem LeastOnCircle.of_redirected {changed : BlockId → Option BlockId}
    (top : changed BlockId.root = none)
    (redirected : ∀ id, changed id = up id ∨ changed id = some BlockId.root) {id : BlockId}
    (least : LeastOnCircle changed id) : LeastOnCircle up id := by
  obtain ⟨circle, smallest⟩ := least
  refine ⟨circle.of_redirected top redirected, fun steps other reached => ?_⟩
  rw [← circle.ancestor_redirected top redirected] at reached
  exact smallest steps other reached

/-- A block whose parent is the main chunk is on no circle. -/
theorem not_onCircle_of_root {id : BlockId} (top : up BlockId.root = none)
    (parent : up id = some BlockId.root) : ¬ OnCircle up id := by
  rintro circle
  exact not_onCircle_of_no_parent top (circle.of_ancestor ((ancestor_one id).trans parent))

/-! ## Two parent functions that agree -/

/-- Two parent functions that agree on a chain have the same chain. -/
theorem ancestor_congr {changed : BlockId → Option BlockId} {id : BlockId}
    (agree : ∀ steps other, ancestor up steps id = some other → changed other = up other)
    (steps : Nat) : ancestor changed steps id = ancestor up steps id := by
  induction steps generalizing id with
  | zero => rfl
  | succ steps ih =>
      rw [ancestor_succ, ancestor_succ, agree 0 id rfl]
      cases parent : up id with
      | none => rfl
      | some above =>
          refine ih fun more other reached => agree (more + 1) other ?_
          exact ancestor_succ_eq_some.mpr ⟨above, parent, reached⟩

/-- Further parents for blocks that had none leave the circles as they are. -/
theorem LeastOnCircle.extended {changed : BlockId → Option BlockId}
    (extends_ : ∀ id parent, up id = some parent → changed id = some parent) {id : BlockId}
    (least : LeastOnCircle up id) : LeastOnCircle changed id := by
  obtain ⟨circle, smallest⟩ := least
  have agree : ∀ steps other, ancestor up steps id = some other → changed other = up other := by
    intro steps other reached
    obtain ⟨parent, -, named, -⟩ := (circle.of_ancestor reached).exists_ancestor 1
    rw [ancestor_one] at named
    rw [named, extends_ other parent named]
  obtain ⟨steps, back⟩ := circle
  refine ⟨⟨steps, (ancestor_congr agree _).trans back⟩, fun more other reached => ?_⟩
  exact smallest more other ((ancestor_congr agree more).symm.trans reached)

/-- The smallest block of a circle is determined by any block on it. -/
theorem LeastOnCircle.eq_of_ancestor {id other : BlockId} (least : LeastOnCircle up id)
    (least' : LeastOnCircle up other) {steps : Nat} (reached : ancestor up steps id = some other) :
    id = other := by
  refine Nat.le_antisymm (least.2 steps other reached) ?_
  obtain ⟨passed, back, first, later⟩ := least.1.exists_ancestor steps
  obtain rfl : passed = other := Option.some.inj (first.symm.trans reached)
  exact least'.2 (back + 1) id later

end ParentChain

namespace BlockTable

open ParentChain

/-! ## The walks of a table -/

/-- The chain of a block in a table. -/
abbrev chain (table : BlockTable) : Nat → BlockId → Option BlockId := ancestor table.parentOf

theorem mem_blocks_of_parentOf {table : BlockTable} {id parent : BlockId}
    (named : table.parentOf id = some parent) : id ∈ table.blocks := by
  unfold parentOf at named
  obtain ⟨record, found, -⟩ := Option.bind_eq_some_iff.mp named
  exact Std.ExtTreeMap.mem_iff_isSome_getElem?.mpr (by rw [found]; rfl)

theorem parentOf_eq_none_of_not_mem {table : BlockTable} {id : BlockId}
    (missing : id ∉ table.blocks) : table.parentOf id = none := by
  cases named : table.parentOf id with
  | none => rfl
  | some parent => exact absurd (mem_blocks_of_parentOf named) missing

/-- A bounded walk finds its start exactly when it stands on the chain within the bound. -/
theorem comesBack_iff {table : BlockTable} (noRoot : BlockId.root ∉ table.blocks) {id : BlockId}
    (notRoot : id ≠ BlockId.root) (steps : Nat) (next : Option BlockId) :
    table.comesBack id steps next = true ↔
      ∃ less, less < steps ∧ next.bind (table.chain less) = some id := by
  induction steps generalizing next with
  | zero => simp [comesBack]
  | succ steps ih =>
      cases next with
      | none => simp [comesBack]
      | some parent =>
          have split : (∃ less, less < steps + 1 ∧ table.chain less parent = some id) ↔
              parent = id ∨ ∃ less, less < steps ∧
                (table.parentOf parent).bind (table.chain less) = some id := by
            constructor
            · rintro ⟨less, bound, reached⟩
              cases less with
              | zero => exact .inl (Option.some.inj reached)
              | succ less => exact .inr ⟨less, by omega, reached⟩
            · rintro (rfl | ⟨less, bound, reached⟩)
              · exact ⟨0, by omega, rfl⟩
              · exact ⟨less + 1, by omega, reached⟩
          by_cases isRoot : parent = BlockId.root
          · subst isRoot
            have top := parentOf_eq_none_of_not_mem noRoot
            simp only [comesBack, BlockId.isRoot, beq_self_eq_true, if_true, Bool.false_eq_true,
              Option.bind_some, false_iff, split, top, Option.bind_none]
            rintro (same | ⟨less, -, reached⟩)
            · exact notRoot same.symm
            · simp at reached
          · have notChunk : BlockId.isRoot parent = false := by simpa [BlockId.isRoot] using isRoot
            simp only [comesBack, notChunk, Bool.false_eq_true, if_false, Bool.or_eq_true,
              beq_iff_eq, ih, Option.bind_some, split]

/-- **The walk of a table recognises the blocks on circles**: its bound is never reached too
early. -/
theorem isCyclic_iff {table : BlockTable} (noRoot : BlockId.root ∉ table.blocks) (id : BlockId) :
    table.isCyclic id = true ↔ OnCircle table.parentOf id := by
  by_cases isRoot : id = BlockId.root
  · subst isRoot
    have top := parentOf_eq_none_of_not_mem noRoot
    constructor
    · simp [isCyclic, top, comesBack]
    · exact fun circle => absurd circle (not_onCircle_of_no_parent top)
  · unfold isCyclic
    rw [comesBack_iff noRoot isRoot]
    constructor
    · rintro ⟨less, -, reached⟩
      exact ⟨less, reached⟩
    · intro circle
      have finite : ∀ id parent, table.parentOf id = some parent → id ∈ table.blocks.keys :=
        fun id parent named => Std.ExtTreeMap.mem_keys.mpr (mem_blocks_of_parentOf named)
      obtain ⟨steps, bound, back⟩ := circle.exists_short finite
      rw [Std.ExtTreeMap.length_keys] at bound
      exact ⟨steps, by omega, back⟩

/-- Below the main chunk the climb goes on: from a block whose chain reaches the main chunk without
meeting what was seen, the last block reached is an outermost one. -/
theorem parentOf_getLast_climb {table : BlockTable} (noRoot : BlockId.root ∉ table.blocks)
    (acyclic : ∀ id, ¬ OnCircle table.parentOf id) {length : Nat} :
    ∀ {id : BlockId} {steps : Nat} {seen : List BlockId},
      table.chain (length + 1) id = some BlockId.root → length < steps →
      (∀ less other, less < length → table.chain (less + 1) id = some other → other ∉ seen) →
      ∀ last, (id :: table.climb steps seen (table.parentOf id)).getLast? = some last →
        table.parentOf last = some BlockId.root := by
  induction length with
  | zero =>
      intro id steps seen reached bound unseen last isLast
      obtain ⟨more, rfl⟩ : ∃ more, steps = more + 1 := ⟨steps - 1, by omega⟩
      have parent : table.parentOf id = some BlockId.root := (ancestor_one id).symm.trans reached
      have stops : table.climb (more + 1) seen (some BlockId.root) = [] := by
        simp [climb, BlockId.isRoot]
      rw [parent, stops] at isLast
      obtain rfl : id = last := by simpa using isLast
      exact parent
  | succ length ih =>
      intro id steps seen reached bound unseen last isLast
      obtain ⟨more, rfl⟩ : ∃ more, steps = more + 1 := ⟨steps - 1, by omega⟩
      obtain ⟨parent, named, later⟩ := ancestor_succ_eq_some.mp reached
      have notRoot : parent ≠ BlockId.root := by
        rintro rfl
        simp [ancestor_succ, parentOf_eq_none_of_not_mem noRoot] at later
      have fresh : parent ∉ seen :=
        unseen 0 parent (Nat.succ_pos _) ((ancestor_one id).trans named)
      have climbs : table.climb (more + 1) seen (some parent) =
          parent :: table.climb more (parent :: seen) (table.parentOf parent) := by
        simp [climb, BlockId.isRoot, notRoot, fresh]
      rw [named, climbs, List.getLast?_cons_cons] at isLast
      refine ih later (by omega) ?_ last isLast
      intro less other small reached' member
      rcases List.mem_cons.mp member with rfl | old
      · exact acyclic other ⟨less, reached'⟩
      · exact unseen (less + 1) other (by omega)
          (ancestor_succ_eq_some.mpr ⟨parent, named, reached'⟩) old

end BlockTable

end LuaCoverage
