import LuaCoverage.Instrument.Transform
import LuaCoverage.Proofs.Analysis.OutlineLayout
import LuaCoverage.Proofs.Analysis.SiteRecords
import LuaCoverage.Proofs.Block.Enclosing

/-!
# Places inside and outside a function

The blocks of a function have the numbers from that of its own block up to some limit, because a
walk hands them out between the function's first token and its last. So the places of a source fall
into those that are in the function and those that are not (`BlockRecord.Owns`). What is in the
function lies on its lines; what is not ends where the function begins or earlier, begins where it
ends or later, or lies around it, and then it is listed before what is in the function
(`Bounds`). By induction over the layout of an outline this holds of every function
(`Layout.exists_bounds`).

In a source that parses the numbers of a function are those of its block and of all that stands
below it in the table of blocks (`owns_iff_within`).
-/

set_option autoImplicit false

namespace LuaCoverage

open Instrument Syntax

/-- Whether a number is that of a block of a function: its own block or one inside it, which have
the numbers before a limit. -/
def BlockRecord.Owns (function : BlockRecord) (limit : Nat) (id : BlockId) : Prop :=
  function.id ≤ id ∧ id < limit

/-- Whether a block is that of a function or inside it. -/
def BlockTable.Within (table : BlockTable) (function id : BlockId) : Prop :=
  id = function ∨ table.Encloses function id

namespace Outline

/-- The places of statements of an outline. -/
def statementPlaces (outline : Outline) : List Candidate :=
  outline.statements.map fun start =>
    ⟨start.line, start.endLine, start.block, .statement start.byte⟩

/-- The places of conditions of an outline. -/
def conditionPlaces (outline : Outline) : List Candidate :=
  outline.conditions.map fun condition =>
    ⟨condition.line, condition.endLine, condition.block,
     .condition condition.startByte condition.endByte⟩

/-- All places of an outline. -/
def places (outline : Outline) : List Candidate :=
  outline.conditionPlaces ++ outline.statementPlaces

section Append

variable (first later : Outline)

@[simp]
theorem statementPlaces_append :
    (first.append later).statementPlaces = first.statementPlaces ++ later.statementPlaces :=
  List.map_append

@[simp]
theorem conditionPlaces_append :
    (first.append later).conditionPlaces = first.conditionPlaces ++ later.conditionPlaces :=
  List.map_append

theorem mem_places_append {place : Candidate} :
    place ∈ (first.append later).places ↔ place ∈ first.places ∨ place ∈ later.places := by
  simp only [places, statementPlaces_append, conditionPlaces_append, List.mem_append]
  exact or_or_or_comm

end Append

/-! ## Where places are -/

namespace Layout

variable {scopes : Scope → Prop} {low high : Nat} {counters final : Counters} {outline : Outline}

/-- **Places lie on the lines of the walk** that found them. -/
theorem place_lines (layout : Layout scopes low high counters outline final) :
    ∀ place ∈ outline.places, low ≤ place.line ∧ place.endLine ≤ high := by
  induction layout with
  | aside blocks functions statements conditions lines =>
      intro place member
      rw [places, statementPlaces, conditionPlaces, statements, conditions] at member
      exact absurd member List.not_mem_nil
  | andThen first later ih ih' =>
      intro place member
      rcases (mem_places_append _ _).mp member with early | late
      · exact (ih place early).imp_right fun ends => Nat.le_trans ends later.lines_le
      · exact (ih' place late).imp_left (Nat.le_trans first.lines_le)
  | within inside starts ends ih =>
      intro place member
      exact (ih place member).imp (Nat.le_trans starts) fun ends' => Nat.le_trans ends' ends
  | statement byte known nests inside ih =>
      intro place member
      rcases (mem_places_append _ _).mp member with own | inner
      · obtain rfl := List.mem_singleton.mp own
        exact ⟨Nat.le_refl _, Nat.le_refl _⟩
      · exact ih place inner
  | condition byte endByte known nests starts ends inside apart ih =>
      intro place member
      rcases (mem_places_append _ _).mp member with own | inner
      · obtain rfl := List.mem_singleton.mp own
        exact ⟨starts, ends⟩
      · exact ih place inner
  | block branch plain known starts lines ends reach bound inside later ih ih' =>
      intro place member
      rcases (mem_places_append _ _).mp member with early | late
      · rcases (mem_places_append _ _).mp early with early | none
        · exact (ih place early).imp_right fun ends => Nat.le_trans ends later.lines_le
        · exact absurd none List.not_mem_nil
      · exact (ih' place late).imp_left (Nat.le_trans inside.lines_le)
  | function name kind bodies known starts lines ends inside ih =>
      intro place member
      rcases (mem_places_append _ _).mp member with early | none
      · rcases (mem_places_append _ _).mp early with none | inner
        · exact absurd none List.not_mem_nil
        · exact ih place inner
      · exact absurd none List.not_mem_nil

/-- **A place lies on the lines of its block**, which is one of the scopes or was found as well. -/
theorem place_scope (layout : Layout scopes low high counters outline final) :
    ∀ place ∈ outline.places, ∃ scope : Scope, scope.Known scopes outline ∧
      scope.id = place.block ∧ scope.firstLine ≤ place.line ∧
      place.endLine ≤ scope.lastLine := by
  induction layout with
  | aside blocks functions statements conditions lines =>
      intro place member
      rw [places, statementPlaces, conditionPlaces, statements, conditions] at member
      exact absurd member List.not_mem_nil
  | andThen first later ih ih' =>
      intro place member
      rcases (mem_places_append _ _).mp member with early | late
      · exact (ih place early).imp fun _ holds => holds.imp_left .before
      · exact (ih' place late).imp fun _ holds => holds.imp_left .behind
  | within inside starts ends ih => exact ih
  | @statement _ _ _ _ _ _ scope byte known nests inside ih =>
      intro place member
      rcases (mem_places_append _ _).mp member with own | inner
      · obtain rfl := List.mem_singleton.mp own
        exact ⟨scope, .inl known, rfl, nests⟩
      · exact ih place inner
  | @condition _ _ _ _ _ _ _ _ scope byte endByte known nests starts ends inside apart ih =>
      intro place member
      rcases (mem_places_append _ _).mp member with own | inner
      · obtain rfl := List.mem_singleton.mp own
        exact ⟨scope, .inl known, rfl, nests⟩
      · exact ih place inner
  | @block scopes low middle last high counters between final outline outline' scope kind branch
      plain known starts lines ends reach bound inside later ih ih' =>
      let own := BlockRecord.fresh counters.nextBlock kind branch scope.id low last
      have isOwn : own ∈ (blockOf counters.nextBlock kind branch scope.id low last).blocks :=
        List.mem_cons_self
      intro place member
      rcases (mem_places_append _ _).mp member with early | late
      · rcases (mem_places_append _ _).mp early with early | none
        · exact (ih place early).imp fun _ holds => holds.imp_left fun known =>
            (Scope.Known.ofInside isOwn known).before
        · exact absurd none List.not_mem_nil
      · exact (ih' place late).imp fun _ holds => holds.imp_left <|
          Scope.Known.ofBehind (List.mem_append_right _ isOwn)
  | @function scopes low high counters final outline scope name kind bodies known starts lines ends
      inside ih =>
      let own := BlockRecord.fresh counters.nextBlock .function none scope.id low high
      have isOwn : own ∈ (blockOf counters.nextBlock .function none scope.id low high).blocks :=
        List.mem_cons_self
      intro place member
      rcases (mem_places_append _ _).mp member with early | none
      · rcases (mem_places_append _ _).mp early with none | inner
        · exact absurd none List.not_mem_nil
        · exact (ih place inner).imp fun _ holds => holds.imp_left fun known =>
            Scope.Known.ofInside isOwn known.behind
      · exact absurd none List.not_mem_nil

/-- **Places are in blocks** that are scopes or were found as well. -/
theorem place_block (layout : Layout scopes low high counters outline final) :
    ∀ place ∈ outline.places, (∃ scope, scopes scope ∧ scope.id = place.block) ∨
      ∃ block ∈ outline.blocks, block.id = place.block := by
  intro place member
  obtain ⟨scope, known, same, -⟩ := layout.place_scope place member
  refine known.imp (fun known => ⟨scope, known, same⟩) ?_
  rintro ⟨block, found, rfl⟩
  exact ⟨block, found, same⟩

end Layout

/-! ## Places and a function -/

/-- How places lie that stand outside a function: the function lies behind them, before them or on
their lines. -/
def Beside (function : BlockRecord) (place : Candidate) : Prop :=
  place.endLine ≤ function.startLine ∨ function.endLine ≤ place.line ∨
    place.line ≤ function.startLine ∧ function.endLine ≤ place.endLine

/-- How some places stand to a function: those in it lie on its lines, those outside it beside it,
and those outside that are listed later lie behind it. -/
structure Separates (function : BlockRecord) (limit : Nat) (places : List Candidate) : Prop where
  inside : ∀ place ∈ places, function.Owns limit place.block →
    function.startLine ≤ place.line ∧ place.endLine ≤ function.endLine
  outside : ∀ place ∈ places, ¬ function.Owns limit place.block → Beside function place
  ordered : places.Pairwise fun first later => function.Owns limit first.block →
    ¬ function.Owns limit later.block → function.endLine ≤ later.line

namespace Separates

variable {function : BlockRecord} {limit : Nat} {places places' : List Candidate}

/-- Places that are all in a function. -/
theorem of_inside (owned : ∀ place ∈ places, function.Owns limit place.block ∧
    function.startLine ≤ place.line ∧ place.endLine ≤ function.endLine) :
    Separates function limit places where
  inside place member _ := (owned place member).2
  outside place member foreign := absurd (owned place member).1 foreign
  ordered := List.pairwise_of_forall_mem_list fun _ _ place member _ foreign =>
    absurd (owned place member).1 foreign

/-- Places outside a function in front of others. -/
theorem behind (separates : Separates function limit places')
    (foreign : ∀ place ∈ places, ¬ function.Owns limit place.block ∧ Beside function place) :
    Separates function limit (places ++ places') where
  inside place member owned := by
    rcases List.mem_append.mp member with early | late
    · exact absurd owned (foreign place early).1
    · exact separates.inside place late owned
  outside place member isForeign := by
    rcases List.mem_append.mp member with early | late
    · exact (foreign place early).2
    · exact separates.outside place late isForeign
  ordered := List.pairwise_append.mpr
    ⟨List.pairwise_of_forall_mem_list fun place member _ _ owned =>
        absurd owned (foreign place member).1,
      separates.ordered, fun place early _ _ owned => absurd owned (foreign place early).1⟩

/-- Places behind a function after others. -/
theorem before (separates : Separates function limit places)
    (foreign : ∀ place ∈ places', ¬ function.Owns limit place.block ∧
      function.endLine ≤ place.line) :
    Separates function limit (places ++ places') where
  inside place member owned := by
    rcases List.mem_append.mp member with early | late
    · exact separates.inside place early owned
    · exact absurd owned (foreign place late).1
  outside place member isForeign := by
    rcases List.mem_append.mp member with early | late
    · exact separates.outside place early isForeign
    · exact .inr (.inl (foreign place late).2)
  ordered := List.pairwise_append.mpr
    ⟨separates.ordered,
      List.pairwise_of_forall_mem_list fun place member _ _ owned =>
        absurd owned (foreign place member).1,
      fun _ _ place late _ _ => (foreign place late).2⟩

end Separates

/-- An outline with no place in a function, and no block inside it. -/
structure Foreign (function : BlockRecord) (limit : Nat) (outline : Outline) : Prop where
  places : ∀ place ∈ outline.places, ¬ function.Owns limit place.block
  blocks : ∀ block ∈ outline.blocks, ¬ (function.id < block.id ∧ block.id < limit)
  parents : ∀ block ∈ outline.blocks, ∀ parent, block.parentId = some parent →
    ¬ function.Owns limit parent

/-- How an outline stands to a function: its statements and its conditions are told apart, and a
block is inside the function exactly if its parent is in it. -/
structure Bounds (function : BlockRecord) (limit : Nat) (outline : Outline) : Prop where
  statements : Separates function limit outline.statementPlaces
  conditions : Separates function limit outline.conditionPlaces
  children : ∀ block ∈ outline.blocks, ∀ parent, block.parentId = some parent →
    (function.Owns limit parent ↔ function.id < block.id ∧ block.id < limit)

section Bounds

variable {function : BlockRecord} {limit : Nat} {outline outline' : Outline}

/-- A number below that of a function is not in it, nor is one from its limit on. -/
theorem not_owns_of_lt {id : Nat} (less : id < function.id) : ¬ function.Owns limit id :=
  fun owned => Nat.not_lt_of_le owned.1 less

theorem not_owns_of_le {id : Nat} (reached : limit ≤ id) : ¬ function.Owns limit id :=
  fun owned => Nat.not_lt_of_le reached owned.2

theorem Foreign.children (foreign : Foreign function limit outline) :
    ∀ block ∈ outline.blocks, ∀ parent, block.parentId = some parent →
      (function.Owns limit parent ↔ function.id < block.id ∧ block.id < limit) :=
  fun block member parent hangs =>
    iff_of_false (foreign.parents block member parent hangs) (foreign.blocks block member)

theorem mem_places_of_statement {place : Candidate} (member : place ∈ outline.statementPlaces) :
    place ∈ outline.places := List.mem_append_right _ member

theorem mem_places_of_condition {place : Candidate} (member : place ∈ outline.conditionPlaces) :
    place ∈ outline.places := List.mem_append_left _ member

/-- What lies outside a function in front of an outline. -/
theorem Bounds.behind (bounds : Bounds function limit outline')
    (foreign : Foreign function limit outline)
    (beside : ∀ place ∈ outline.places, Beside function place) :
    Bounds function limit (outline.append outline') where
  statements := by
    rw [statementPlaces_append]
    refine bounds.statements.behind fun place member => ?_
    have isPlace := mem_places_of_statement member
    exact ⟨foreign.places place isPlace, beside place isPlace⟩
  conditions := by
    rw [conditionPlaces_append]
    refine bounds.conditions.behind fun place member => ?_
    have isPlace := mem_places_of_condition member
    exact ⟨foreign.places place isPlace, beside place isPlace⟩
  children block member :=
    (List.mem_append.mp member).elim (foreign.children block) (bounds.children block)

/-- What lies behind a function after an outline. -/
theorem Bounds.before (bounds : Bounds function limit outline)
    (foreign : Foreign function limit outline')
    (behind : ∀ place ∈ outline'.places, function.endLine ≤ place.line) :
    Bounds function limit (outline.append outline') where
  statements := by
    rw [statementPlaces_append]
    refine bounds.statements.before fun place member => ?_
    have isPlace := mem_places_of_statement member
    exact ⟨foreign.places place isPlace, behind place isPlace⟩
  conditions := by
    rw [conditionPlaces_append]
    refine bounds.conditions.before fun place member => ?_
    have isPlace := mem_places_of_condition member
    exact ⟨foreign.places place isPlace, behind place isPlace⟩
  children block member :=
    (List.mem_append.mp member).elim (bounds.children block) (foreign.children block)

/-- Places alone, in a block with a smaller number, in front of an outline. -/
theorem Bounds.behind_places {id : BlockId} (bounds : Bounds function limit outline')
    (less : id < function.id) (blocks : outline.blocks = [])
    (places : ∀ place ∈ outline.places, place.block = id ∧ Beside function place) :
    Bounds function limit (outline.append outline') := by
  refine bounds.behind ⟨fun place member => ?_, ?_, ?_⟩ fun place member => (places place member).2
  · exact (places place member).1 ▸ not_owns_of_lt less
  · exact fun _ member => absurd (blocks ▸ member) List.not_mem_nil
  · exact fun _ member => absurd (blocks ▸ member) List.not_mem_nil

/-- A block that is not inside a function, under one with a smaller number. -/
theorem foreign_blockOf {id parent : BlockId} (isForeign : ¬ (function.id < id ∧ id < limit))
    (less : parent < function.id) (kind : BlockKind) (branch : Option Branch)
    (firstLine lastLine : Nat) :
    Foreign function limit (blockOf id kind branch parent firstLine lastLine) where
  places _ none := absurd none List.not_mem_nil
  blocks block member := by
    obtain rfl := List.mem_singleton.mp member
    exact isForeign
  parents block member other hangs := by
    obtain rfl := List.mem_singleton.mp member
    obtain rfl := Option.some.inj hangs
    exact not_owns_of_lt less

/-- Such a block after an outline, or in front of one. -/
theorem Bounds.before_block {id parent : BlockId} (bounds : Bounds function limit outline)
    (isForeign : ¬ (function.id < id ∧ id < limit)) (less : parent < function.id)
    (kind : BlockKind) (branch : Option Branch) (firstLine lastLine : Nat) :
    Bounds function limit
      (outline.append (blockOf id kind branch parent firstLine lastLine)) :=
  bounds.before (foreign_blockOf isForeign less kind branch firstLine lastLine)
    fun _ none => absurd none List.not_mem_nil

theorem Bounds.behind_block {id parent : BlockId} (bounds : Bounds function limit outline)
    (isForeign : ¬ (function.id < id ∧ id < limit)) (less : parent < function.id)
    (kind : BlockKind) (branch : Option Branch) (firstLine lastLine : Nat) :
    Bounds function limit
      ((blockOf id kind branch parent firstLine lastLine).append outline) :=
  bounds.behind (foreign_blockOf isForeign less kind branch firstLine lastLine)
    fun _ none => absurd none List.not_mem_nil

end Bounds

namespace Layout

variable {scopes : Scope → Prop} {low high : Nat} {counters final : Counters} {outline : Outline}
  {function : BlockRecord} {limit : Nat}

/-- A walk under scopes outside a function that is handed other numbers finds nothing in it. -/
theorem foreign (layout : Layout scopes low high counters outline final)
    (outside : ∀ scope, scopes scope → ¬ function.Owns limit scope.id)
    (others : ∀ id : Nat, counters.nextBlock ≤ id → id < final.nextBlock →
      ¬ function.Owns limit id) : Foreign function limit outline where
  places place member := by
    rcases layout.place_block place member with ⟨scope, known, same⟩ | ⟨block, found, same⟩
    · exact same ▸ outside scope known
    · have range := layout.block_range block found
      exact same ▸ others block.id range.1 range.2
  blocks block member inside := by
    have range := layout.block_range block member
    exact others block.id range.1 range.2 (inside.imp_left Nat.le_of_lt)
  parents block member parent hangs := by
    obtain ⟨scope, known, hangs', -⟩ := layout.exists_scope block member
    obtain rfl := Option.some.inj (hangs.symm.trans hangs')
    rcases known with known | ⟨other, found, rfl⟩
    · exact outside scope known
    · have range := layout.block_range other found
      exact others other.id range.1 range.2

/-- A walk behind a function, under scopes with smaller numbers. -/
theorem bounds_before {before : Outline} (later : Layout scopes low high counters outline final)
    (bounds : Bounds function limit before)
    (outside : ∀ scope, scopes scope → scope.id < function.id)
    (bound : limit ≤ counters.nextBlock) (ends : function.endLine ≤ low) :
    Bounds function limit (before.append outline) := by
  refine bounds.before (later.foreign ?_ ?_) fun place member => ?_
  · exact fun scope known => not_owns_of_lt (outside scope known)
  · exact fun id reached _ => not_owns_of_le (Nat.le_trans bound reached)
  · exact Nat.le_trans ends (later.place_lines place member).1

/-- A walk in front of a function, under scopes with smaller numbers. -/
theorem bounds_behind {behind : Outline} (first : Layout scopes low high counters outline final)
    (bounds : Bounds function limit behind)
    (outside : ∀ scope, scopes scope → scope.id < function.id)
    (below : final.nextBlock ≤ function.id) (starts : high ≤ function.startLine) :
    Bounds function limit (outline.append behind) := by
  refine bounds.behind (first.foreign ?_ ?_) fun place member => .inl ?_
  · exact fun scope known => not_owns_of_lt (outside scope known)
  · exact fun id _ small => not_owns_of_lt (Nat.lt_of_lt_of_le small below)
  · exact Nat.le_trans (first.place_lines place member).2 starts

/-- What a walk inside a function finds. -/
theorem bounds_inside {number : BlockId} {kind : BlockKind} {branch : Option Branch}
    {parent : BlockId}
    (layout : Layout (· = ⟨number, low, high⟩) low high counters outline final)
    (own : function = .fresh number kind branch parent low high)
    (next : counters.nextBlock = number + 1) : Bounds function final.nextBlock outline := by
  subst own
  have opened : number + 1 ≤ final.nextBlock := next ▸ layout.counters_le.1
  have owned {id : Nat} (found : ∃ block ∈ outline.blocks, block.id = id) :
      number < id ∧ id < final.nextBlock := by
    obtain ⟨block, found, rfl⟩ := found
    have range := layout.block_range block found
    rw [next] at range
    exact range
  have inside : ∀ place ∈ outline.places, (number ≤ place.block ∧ place.block < final.nextBlock) ∧
      low ≤ place.line ∧ place.endLine ≤ high := by
    intro place member
    refine ⟨?_, layout.place_lines place member⟩
    rcases layout.place_block place member with ⟨_, rfl, same⟩ | found
    · exact same ▸ ⟨Nat.le_refl _, opened⟩
    · exact (owned found).imp_left Nat.le_of_lt
  refine ⟨.of_inside fun place member => inside place (mem_places_of_statement member),
    .of_inside fun place member => inside place (mem_places_of_condition member), ?_⟩
  intro block member parent hangs
  refine iff_of_true ?_ (owned ⟨block, member, rfl⟩)
  obtain ⟨scope, known, hangs', -⟩ := layout.exists_scope block member
  obtain rfl := Option.some.inj (hangs.symm.trans hangs')
  rcases known with rfl | ⟨other, found, rfl⟩
  · exact ⟨Nat.le_refl _, opened⟩
  · exact (owned ⟨other, found, rfl⟩).imp_left Nat.le_of_lt

/-- **Every function bounds what a walk finds.** -/
theorem exists_bounds (layout : Layout scopes low high counters outline final)
    (fresh : ∀ scope, scopes scope → scope.id < counters.nextBlock) :
    ∀ function ∈ outline.blocks, function.kind = .function →
      ∃ limit, function.id < limit ∧ limit ≤ final.nextBlock ∧ Bounds function limit outline := by
  induction layout with
  | aside blocks => exact fun _ member => absurd (blocks ▸ member) List.not_mem_nil
  | @andThen scopes low middle high counters between final outline outline' first later ih ih' =>
      have opened := first.counters_le.1
      intro function member isFunction
      rcases List.mem_append.mp member with early | late
      · obtain ⟨limit, less, bound, bounds⟩ := ih fresh function early isFunction
        have atLeast := (first.block_range function early).1
        refine ⟨limit, less, Nat.le_trans bound later.counters_le.1,
          later.bounds_before bounds ?_ bound (first.block_lines function early).2.2⟩
        exact fun scope known => Nat.lt_of_lt_of_le (fresh scope known) atLeast
      · have fresh' : ∀ scope, scopes scope → scope.id < between.nextBlock :=
          fun scope known => Nat.lt_of_lt_of_le (fresh scope known) opened
        obtain ⟨limit, less, bound, bounds⟩ := ih' fresh' function late isFunction
        have atLeast := (later.block_range function late).1
        refine ⟨limit, less, bound,
          first.bounds_behind bounds ?_ atLeast (later.block_lines function late).1⟩
        exact fun scope known => Nat.lt_of_lt_of_le (fresh' scope known) atLeast
  | within inside starts ends ih => exact ih fresh
  | @statement scopes low high counters final outline scope byte known nests inside ih =>
      intro function member isFunction
      obtain ⟨limit, less, bound, bounds⟩ := ih fresh function member isFunction
      have atLeast := (inside.block_range function member).1
      have lines := inside.block_lines function member
      refine ⟨limit, less, bound, bounds.behind_places
        (Nat.lt_of_lt_of_le (fresh scope known) atLeast) rfl (List.forall_mem_singleton.mpr ?_)⟩
      exact ⟨rfl, .inr (.inr ⟨lines.1, lines.2.2⟩)⟩
  | @condition scopes low first last high counters final outline scope byte endByte known nests
      starts ends inside apart ih =>
      intro function member isFunction
      obtain ⟨limit, less, bound, bounds⟩ := ih fresh function member isFunction
      have atLeast := (inside.block_range function member).1
      refine ⟨limit, less, bound, bounds.behind_places
        (Nat.lt_of_lt_of_le (fresh scope known) atLeast) rfl (List.forall_mem_singleton.mpr ?_)⟩
      rcases apart function member with before | behind | around
      · exact ⟨rfl, .inr (.inl before)⟩
      · exact ⟨rfl, .inl behind⟩
      · exact ⟨rfl, .inr (.inr around)⟩
  | @block scopes low middle last high counters between final outline outline' scope kind branch
      plain known starts lines ends reach bound inside later ih ih' =>
      have opened : counters.nextBlock < between.nextBlock := inside.counters_le.1
      intro function member isFunction
      rcases List.mem_append.mp member with early | late
      · rcases List.mem_append.mp early with early | own
        · obtain ⟨limit, less, bound', bounds⟩ := ih (fun scope same =>
            same ▸ Nat.lt_succ_self _) function early isFunction
          have atLeast : counters.nextBlock < function.id := (inside.block_range function early).1
          have outside : ∀ scope, scopes scope → scope.id < function.id :=
            fun scope known => Nat.lt_trans (fresh scope known) atLeast
          have closed := bounds.before_block (fun own => Nat.lt_asymm own.1 atLeast)
            (outside scope known) kind branch low last
          refine ⟨limit, less, Nat.le_trans bound' later.counters_le.1,
            later.bounds_before closed ?_ bound' (inside.block_lines function early).2.2⟩
          rintro other (known' | rfl)
          · exact outside other known'
          · exact atLeast
        · obtain rfl := List.mem_singleton.mp own
          exact absurd isFunction plain
      · have fresh' : ∀ other : Scope, scopes other ∨ other = ⟨counters.nextBlock, low, last⟩ →
            other.id < between.nextBlock := by
          rintro other (known' | rfl)
          · exact Nat.lt_trans (fresh other known') opened
          · exact opened
        obtain ⟨limit, less, bound', bounds⟩ := ih' fresh' function late isFunction
        have atLeast := (later.block_range function late).1
        have outside {id : Nat} (small : id < between.nextBlock) : id < function.id :=
          Nat.lt_of_lt_of_le small atLeast
        have closed := bounds.behind_block (fun own => Nat.lt_asymm own.1 (outside opened))
          (outside (fresh' scope (.inl known))) kind branch low last
        rw [append_assoc]
        refine ⟨limit, less, bound',
          inside.bounds_behind closed ?_ atLeast (later.block_lines function late).1⟩
        exact fun scope same => same ▸ outside opened
  | @function scopes low high counters final outline scope name kind bodies known starts lines ends
      inside ih =>
      have opened : counters.nextBlock + 1 ≤ final.nextBlock := inside.counters_le.1
      let header : Outline :=
        { functions := [⟨counters.nextFunction, name, kind, low, high, false, 0⟩]
          bodies := bodies }
      -- the record of the function lists nothing, and its block is not inside a function of it
      have extend {function : BlockRecord} {limit : Nat}
          (atLeast : counters.nextBlock ≤ function.id)
          (bounds : Bounds function limit outline) : Bounds function limit
            ((header.append outline).append
              (blockOf counters.nextBlock .function none scope.id low high)) := by
        have behind : Bounds function limit (header.append outline) := by
          refine bounds.behind ⟨?_, ?_, ?_⟩ ?_
          all_goals exact fun _ absent => absurd absent List.not_mem_nil
        exact behind.before_block (fun inside => Nat.not_lt_of_le atLeast inside.1)
          (Nat.lt_of_lt_of_le (fresh scope known) atLeast) .function none low high
      intro function member isFunction
      rcases List.mem_append.mp member with early | own
      · obtain ⟨limit, less, bound, bounds⟩ := ih (fun scope same =>
          same ▸ Nat.lt_succ_self _) function early isFunction
        have atLeast := (inside.block_range function early).1
        exact ⟨limit, less, bound, extend (Nat.le_of_succ_le atLeast) bounds⟩
      · have isOwn := List.mem_singleton.mp own
        have same : function.id = counters.nextBlock := congrArg BlockRecord.id isOwn
        exact ⟨final.nextBlock, same ▸ opened, Nat.le_refl _,
          extend (Nat.le_of_eq same.symm) (inside.bounds_inside isOwn rfl)⟩

end Layout

/-! ## Functions of a source -/

section Blocks

variable {settings : AnalysisSettings} {source fileId : String} {tree : Node}
  {function : BlockRecord} {limit : Nat}

/-- **Every function of a source that parses bounds its outline.** -/
theorem exists_bounds_of_parse (parsed : parse? source = some tree)
    (member : function ∈ (ofTree source tree).blocks) (isFunction : function.kind = .function) :
    ∃ limit, function.id < limit ∧ Bounds function limit (ofTree source tree) := by
  obtain ⟨high, final, layout⟩ := layout_of_parse parsed
  obtain ⟨limit, less, -, bounds⟩ := layout.exists_bounds (fun scope isRoot =>
    isRoot ▸ Nat.zero_lt_one) function member isFunction
  exact ⟨limit, less, bounds⟩

/-- Every place of a source that parses is in the main chunk or in a block of the outline. -/
theorem block_of_mem_places (parsed : parse? source = some tree) {place : Candidate}
    (member : place ∈ (ofTree source tree).places) : place.block = BlockId.root ∨
      ∃ block ∈ (ofTree source tree).blocks, block.id = place.block := by
  obtain ⟨high, final, layout⟩ := layout_of_parse parsed
  refine (layout.place_block place member).imp_left ?_
  rintro ⟨scope, isRoot, same⟩
  exact same.symm.trans isRoot

theorem candidates_ofTree : candidates (Analysis.ofTree settings source fileId tree) =
    (ofTree source tree).places := by
  simp only [candidates, ofTree_statements, ofTree_conditions, places, statementPlaces,
    conditionPlaces]

/-- Whether a table has the parents of an outline. -/
def HasParents (table : BlockTable) (outline : Outline) : Prop :=
  ∀ id parent, table.parentOf id = some parent ↔
    ∃ block ∈ outline.blocks, block.id = id ∧ block.parentId = some parent

/-- The parents in the blocks of an analysis are those in its outline. -/
theorem hasParents_ofTree (parsed : parse? source = some tree) :
    HasParents (Analysis.ofTree settings source fileId tree).blocks (ofTree source tree) := by
  intro id parent
  rw [BlockTable.parentOf_eq_bind_bare, bare_ofTree parsed, Option.bind_map,
    Option.bind_eq_some_iff]
  refine exists_congr fun block => ?_
  rw [declaredBlock_eq_some (declarable_of_parse parsed), and_assoc]
  rfl

/-- **The numbers of a function are those of its block and of all inside it.** -/
theorem owns_iff_within {table : BlockTable} (parsed : parse? source = some tree)
    (parents : HasParents table (ofTree source tree))
    (bounds : Bounds function limit (ofTree source tree)) (less : function.id < limit)
    {id : BlockId}
    (known : id = BlockId.root ∨ ∃ block ∈ (ofTree source tree).blocks, block.id = id) :
    function.Owns limit id ↔ table.Within function.id id := by
  constructor
  · intro owned
    induction id using Nat.strongRecOn with
    | ind id ih =>
      by_cases same : id = function.id
      · exact .inl same
      have notRoot : id ≠ BlockId.root := by
        rintro rfl
        exact same (Nat.le_antisymm (Nat.zero_le _) owned.1)
      obtain ⟨block, found, rfl⟩ := known.resolve_left notRoot
      obtain ⟨parent, hangs, below, known'⟩ := exists_parent_of_parse parsed found
      have owned' := (bounds.children block found parent hangs).mpr
        ⟨Nat.lt_of_le_of_ne owned.1 (Ne.symm same), owned.2⟩
      have hangs' := (parents block.id parent).mpr ⟨block, found, rfl, hangs⟩
      rcases ih parent below known' owned' with rfl | encloses
      · exact .inr (.parent hangs')
      · exact .inr (.above hangs' encloses)
  · rintro (rfl | encloses)
    · exact ⟨Nat.le_refl _, less⟩
    suffices inside : function.id < id ∧ id < limit from inside.imp_left Nat.le_of_lt
    clear known
    induction encloses with
    | parent hangs =>
        obtain ⟨block, found, rfl, hangs'⟩ := (parents _ _).mp hangs
        exact (bounds.children block found _ hangs').mp ⟨Nat.le_refl _, less⟩
    | above hangs around ih =>
        obtain ⟨block, found, rfl, hangs'⟩ := (parents _ _).mp hangs
        exact (bounds.children block found _ hangs').mp (ih.imp_left Nat.le_of_lt)

end Blocks

end Outline

end LuaCoverage
