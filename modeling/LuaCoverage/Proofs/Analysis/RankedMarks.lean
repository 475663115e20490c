import LuaCoverage.Proofs.Analysis.MarkedLines

/-!
# The mark of highest rank

What a token says about a line can be told without collecting marks: a string makes its first line
code and the later ones string content, a comment makes all its lines comment, and any other token
that holds text makes its first line structural or code (`Sets`). Of all that tokens say about one
line, the first in a fixed order is what the line is classified by (`topMark?`).

Collecting marks keeps the type of highest rank among those claimed for a line
(`getElem?_foldl_addMark`), so which marks there are decides, and not their order. A pass that keeps
a pile of nodes, takes any of them next and sets the marks of a token in any order (`Visits`)
therefore ends with the same types as the pass from left to right. These are the types that come
first in the order, each with its own reason (`lineTypes_eq_topMark`).
-/

set_option autoImplicit false

namespace LuaCoverage.Analysis

open Syntax

/-! ## What tokens say about lines -/

/-- Whether a token is a comment or a first line for the operating system. -/
def isAside : Leaf → Bool
  | .comment | .shebang => true
  | _ => false

/-- Whether a token is a string. -/
def isString : Leaf → Bool
  | .string _ => true
  | _ => false

/-- Whether a token only delimits structure. -/
def isStructural : Leaf → Bool
  | .symbol text => structuralSymbols.contains text
  | _ => false

/-- Whether a token makes a line one of a given type. -/
def Sets (kind : Leaf) (span : Span) (line : Nat) : LineType → Prop
  | .code => line = span.first.line ∧ (isString kind = true ∨
      isAside kind = false ∧ isStructural kind = false ∧ span.isEmpty = false)
  | .structural => line = span.first.line ∧ isStructural kind = true ∧ span.isEmpty = false
  | .stringContent => isString kind = true ∧ span.first.line < line ∧ line ≤ span.lastLine
  | .comment => isAside kind = true ∧ span.first.line ≤ line ∧ line ≤ span.lastLine
  | .blank => False

instance (kind : Leaf) (span : Span) (line : Nat) :
    (lineType : LineType) → Decidable (Sets kind span line lineType)
  | .code => inferInstanceAs (Decidable (_ ∧ _))
  | .structural => inferInstanceAs (Decidable (_ ∧ _))
  | .stringContent => inferInstanceAs (Decidable (_ ∧ _))
  | .comment => inferInstanceAs (Decidable (_ ∧ _))
  | .blank => inferInstanceAs (Decidable False)

/-- The types that tokens give to lines, each with its reason, from the one that all others give way
to down to the one that gives way to all others. -/
def rankedMarks : List (LineType × Reason) :=
  [(.code, .syntaxCode), (.structural, .syntaxStructural), (.stringContent, .syntaxString),
   (.comment, .syntaxComment)]

/-- Whether some token of a tree makes a line one of a given type. -/
def Says (tree : Node) (line : Nat) (lineType : LineType) : Prop :=
  ∃ leaf ∈ tree.leaves, Sets leaf.1 leaf.2 line lineType

instance (tree : Node) (line : Nat) (lineType : LineType) : Decidable (Says tree line lineType) :=
  inferInstanceAs (Decidable (∃ leaf ∈ tree.leaves, Sets leaf.1 leaf.2 line lineType))

/-- The first of the ranked types that some token of a tree gives to a line. -/
def topMark? (tree : Node) (line : Nat) : Option (LineType × Reason) :=
  rankedMarks.find? fun mark => Says tree line mark.1

theorem mem_linesBetween {first last line : Nat} :
    line ∈ linesBetween first last ↔ first ≤ line ∧ line ≤ last := by
  unfold linesBetween
  constructor
  · intro member
    obtain ⟨offset, inside, rfl⟩ := List.mem_map.mp member
    rw [List.mem_range] at inside
    omega
  · rintro ⟨atLeast, atMost⟩
    exact List.mem_map.mpr ⟨line - first, List.mem_range.mpr (by omega), by omega⟩

theorem mem_map_linesBetween {first last line : Nat} {lineType own : LineType} :
    (line, lineType) ∈ (linesBetween first last).map (fun line => (line, own)) ↔
      lineType = own ∧ first ≤ line ∧ line ≤ last := by
  rw [List.mem_map, ← mem_linesBetween]
  constructor
  · rintro ⟨other, member, same⟩
    obtain ⟨rfl, rfl⟩ := Prod.mk.inj same
    exact ⟨rfl, member⟩
  · rintro ⟨rfl, member⟩
    exact ⟨line, member, rfl⟩

/-- A token that is neither a comment nor a string marks its first line, if it holds text. -/
theorem leafMarks_of_plain {kind : Leaf} (noAside : isAside kind = false)
    (noString : isString kind = false) (span : Span) :
    leafMarks kind span = if span.isEmpty then []
      else [(span.first.line, if isStructural kind then .structural else .code)] := by
  cases kind with
  | comment => cases noAside
  | shebang => cases noAside
  | string content => cases noString
  | symbol text =>
      rw [leafMarks, isStructural]
      split
      · rfl
      · split <;> rfl
  | name | constant | number | varargs | breakStatement => rfl

/-- **The marks of a token are what it says about lines.** -/
theorem mem_leafMarks_iff {kind : Leaf} {span : Span} {line : Nat} {lineType : LineType} :
    (line, lineType) ∈ leafMarks kind span ↔ Sets kind span line lineType := by
  have plain (noAside : isAside kind = false) (noString : isString kind = false) :
      (line, lineType) ∈ leafMarks kind span ↔ Sets kind span line lineType := by
    rw [leafMarks_of_plain noAside noString]
    cases isEmpty : span.isEmpty <;> cases structural : isStructural kind <;> cases lineType <;>
      simp [Sets, noAside, noString, isEmpty, structural]
  cases kind with
  | comment | shebang =>
      rw [leafMarks, mem_map_linesBetween]
      cases lineType <;> simp [Sets, isAside, isString, isStructural]
  | string content =>
      rw [leafMarks, List.mem_cons, mem_map_linesBetween]
      cases lineType <;> simp [Sets, isAside, isString, isStructural, Nat.succ_le_iff]
  | symbol | name | constant | number | varargs | breakStatement => exact plain rfl rfl

/-- The marks of a tree are what its tokens say about lines. -/
theorem mem_marks_iff {tree : Node} {line : Nat} {lineType : LineType} :
    (line, lineType) ∈ marks tree ↔ Says tree line lineType := by
  rw [marks_eq, List.mem_flatMap]
  simp only [mem_leafMarks_iff, Says]

/-! ## Collecting marks -/

/-- Types of one rank are the same. -/
theorem eq_of_rank_eq {first second : LineType} (same : first.rank = second.rank) :
    first = second := by
  cases first <;> cases second <;> first | rfl | cases same

/-- Whether a type has the highest rank of those with some property. -/
def IsTop (among : LineType → Prop) (lineType : LineType) : Prop :=
  among lineType ∧ ∀ other, among other → other.rank ≤ lineType.rank

/-- Types that others outrank can be left out. -/
theorem isTop_congr {fewer more : LineType → Prop} (inside : ∀ own, fewer own → more own)
    (outranked : ∀ own, more own → ∃ other, fewer other ∧ own.rank ≤ other.rank)
    {lineType : LineType} : IsTop fewer lineType ↔ IsTop more lineType := by
  constructor
  · rintro ⟨isOne, top⟩
    refine ⟨inside _ isOne, fun own isMore => ?_⟩
    obtain ⟨other, isFewer, below⟩ := outranked own isMore
    exact Nat.le_trans below (top other isFewer)
  · rintro ⟨isOne, top⟩
    obtain ⟨other, isFewer, below⟩ := outranked _ isOne
    obtain rfl := eq_of_rank_eq (Nat.le_antisymm below (top other (inside _ isFewer)))
    exact ⟨isFewer, fun own isFewer => top own (inside _ isFewer)⟩

/-- One more mark never lowers the rank of what a line has. -/
theorem rank_le_addMark {marked : LineMap LineType} {line : Nat} {lineType : LineType}
    (found : marked[line]? = some lineType) (mark : Nat × LineType) :
    ∃ other, (addMark marked mark)[line]? = some other ∧ lineType.rank ≤ other.rank := by
  have inserted : (∀ own, marked[mark.1]? = some own → own.rank ≤ mark.2.rank) →
      ∃ other, (marked.insert mark.1 mark.2)[line]? = some other ∧
        lineType.rank ≤ other.rank := by
    intro below
    rw [Std.ExtTreeMap.getElem?_insert]
    split
    · rename_i same
      rw [Std.LawfulEqCmp.compare_eq_iff_eq] at same
      exact ⟨_, rfl, below _ (same ▸ found)⟩
    · exact ⟨lineType, found, Nat.le_refl _⟩
  unfold addMark
  split
  · rename_i none
    exact inserted fun own isOwn => nomatch none.symm.trans isOwn
  · rename_i existing isExisting
    split
    · rename_i outranked
      refine inserted fun own isOwn => ?_
      obtain rfl := Option.some.inj (isExisting.symm.trans isOwn)
      exact Nat.le_of_lt outranked
    · exact ⟨lineType, found, Nat.le_refl _⟩

/-- A line that is marked has at least the rank of the mark. -/
theorem rank_le_of_addMark (marked : LineMap LineType) (line : Nat) (lineType : LineType) :
    ∃ other, (addMark marked (line, lineType))[line]? = some other ∧
      lineType.rank ≤ other.rank := by
  unfold addMark
  split
  · exact ⟨lineType, Std.ExtTreeMap.getElem?_insert_self, Nat.le_refl _⟩
  · rename_i existing found
    split
    · exact ⟨lineType, Std.ExtTreeMap.getElem?_insert_self, Nat.le_refl _⟩
    · rename_i enough
      exact ⟨existing, found, Nat.le_of_not_lt enough⟩

/-- Whether a line has a type already or is given it by one of some marks. -/
def Claims (marked : LineMap LineType) (all : List (Nat × LineType)) (line : Nat)
    (lineType : LineType) : Prop :=
  marked[line]? = some lineType ∨ (line, lineType) ∈ all

/-- **Of all types claimed for a line, collecting marks keeps the one of highest rank.** -/
theorem getElem?_foldl_addMark {marked : LineMap LineType} {all : List (Nat × LineType)}
    {line : Nat} {lineType : LineType} :
    (all.foldl addMark marked)[line]? = some lineType ↔
      IsTop (Claims marked all line) lineType := by
  induction all generalizing marked with
  | nil =>
      constructor
      · intro found
        refine ⟨.inl found, fun other claimed => ?_⟩
        have same := claimed.resolve_right List.not_mem_nil
        exact Nat.le_of_eq (congrArg LineType.rank (Option.some.inj (same.symm.trans found)))
      · exact fun top => top.1.resolve_right List.not_mem_nil
  | cons mark rest ih =>
      rw [List.foldl_cons, ih]
      refine isTop_congr (fun own claimed => ?_) fun own claimed => ?_
      · rcases claimed with before | later
        · rcases getElem?_addMark before with before | rfl
          · exact .inl before
          · exact .inr List.mem_cons_self
        · exact .inr (List.mem_cons_of_mem _ later)
      · rcases claimed with before | member
        · obtain ⟨other, found, below⟩ := rank_le_addMark before mark
          exact ⟨other, .inl found, below⟩
        · rcases List.mem_cons.mp member with rfl | later
          · obtain ⟨other, found, below⟩ := rank_le_of_addMark marked line own
            exact ⟨other, .inl found, below⟩
          · exact ⟨own, .inr later, Nat.le_refl _⟩

/-- The order in which marks are collected does not matter. -/
theorem foldl_addMark_eq_of_mem_iff {all all' : List (Nat × LineType)}
    (same : ∀ mark, mark ∈ all ↔ mark ∈ all') (marked : LineMap LineType) :
    all.foldl addMark marked = all'.foldl addMark marked := by
  have claims : Claims marked all = Claims marked all' := by
    funext line lineType
    rw [Claims, Claims, same]
  refine Std.ExtTreeMap.ext_getElem? fun line => Option.ext fun lineType => ?_
  rw [getElem?_foldl_addMark, getElem?_foldl_addMark, claims]

/-! ## Passes over a tree -/

/-- The passes over a pile of nodes that turn some types of lines into others. Any node of the pile
may be next. A token sets its marks, in any order, and is done with; a construct leaves its parts on
the pile. A construct without parts holds no text and leaves nothing. -/
inductive Visits : List Node → LineMap LineType → LineMap LineType → Prop
  | done (marked : LineMap LineType) : Visits [] marked marked
  | token {pile rest : List Node} {kind : Leaf} {span : Span} {own : List (Nat × LineType)}
      {marked final : LineMap LineType} (next : pile.Perm (.leaf kind span :: rest))
      (isOwn : own.Perm (leafMarks kind span))
      (later : Visits rest (own.foldl addMark marked) final) : Visits pile marked final
  | construct {pile rest : List Node} {construct : Construct} {span : Span} {children : List Node}
      {marked final : LineMap LineType} (next : pile.Perm (.inner construct span children :: rest))
      (later : Visits (children ++ rest) marked final) : Visits pile marked final

theorem marksAll_append (first later : List Node) :
    marksAll (first ++ later) = marksAll first ++ marksAll later := by
  rw [marksAll_eq, marksAll_eq, marksAll_eq, leavesAll_append, List.flatMap_append]

theorem mem_marksAll_iff {nodes : List Node} {mark : Nat × LineType} :
    mark ∈ marksAll nodes ↔ ∃ node ∈ nodes, mark ∈ marks node := by
  induction nodes with
  | nil => simp [marksAll]
  | cons node rest ih => simp [marksAll, ih]

/-- A pass collects the marks of all nodes of the pile. -/
theorem Visits.eq_foldl {pile : List Node} {marked final : LineMap LineType}
    (visits : Visits pile marked final) : final = (marksAll pile).foldl addMark marked := by
  have taken {pile rest : List Node} {node : Node} (next : pile.Perm (node :: rest)) :
      ∀ mark, mark ∈ marks node ++ marksAll rest ↔ mark ∈ marksAll pile := by
    intro mark
    rw [mem_marksAll_iff]
    simp only [next.mem_iff, ← mem_marksAll_iff]
    rw [marksAll]
  induction visits with
  | done marked => rfl
  | token next isOwn later ih =>
      rw [ih, ← List.foldl_append]
      refine foldl_addMark_eq_of_mem_iff (fun mark => ?_) _
      rw [← taken next, List.mem_append, List.mem_append, isOwn.mem_iff, marks]
  | construct next later ih =>
      rw [ih]
      refine foldl_addMark_eq_of_mem_iff (fun mark => ?_) _
      rw [← taken next, marksAll_append, marks]

mutual

theorem visits_cons {rest : List Node} {final : LineMap LineType} :
    (node : Node) → (marked : LineMap LineType) →
      Visits rest ((marks node).foldl addMark marked) final → Visits (node :: rest) marked final
  | .leaf kind span, marked, later => .token (.refl _) (.refl _) (by rwa [marks] at later)
  | .inner construct span children, marked, later =>
      .construct (.refl _) (visits_append children marked (by rwa [marks] at later))

/-- A pass from left to right. -/
theorem visits_append {rest : List Node} {final : LineMap LineType} :
    (nodes : List Node) → (marked : LineMap LineType) →
      Visits rest ((marksAll nodes).foldl addMark marked) final →
      Visits (nodes ++ rest) marked final
  | [], _, later => later
  | node :: others, marked, later =>
      visits_cons node marked (visits_append others _
        (by rwa [marksAll, List.foldl_append] at later))

end

/-- **All passes over a tree end with the types that the tree gives to lines.** -/
theorem visits_iff {tree : Node} {final : LineMap LineType} :
    Visits [tree] ∅ final ↔ final = lineTypes tree := by
  have collected : marksAll [tree] = marks tree := List.append_nil _
  constructor
  · intro visits
    rw [visits.eq_foldl, collected, lineTypes]
  · rintro rfl
    exact visits_cons tree ∅ (.done _)

/-! ## The mark of a line -/

theorem getElem?_lineTypes {tree : Node} {line : Nat} {lineType : LineType} :
    (lineTypes tree)[line]? = some lineType ↔ IsTop (Says tree line) lineType := by
  have claims : Claims ∅ (marks tree) line = Says tree line := by
    funext lineType
    refine propext ((or_iff_right ?_).trans mem_marks_iff)
    simp
  rw [lineTypes, getElem?_foldl_addMark, claims]

theorem not_says_blank (tree : Node) (line : Nat) : ¬Says tree line .blank :=
  fun ⟨_, _, sets⟩ => sets

/-- The mark that was collected for a line, with its reason, is the first of the ranked ones. -/
theorem map_lineTypes (tree : Node) (line : Nat) :
    (lineTypes tree)[line]?.map (fun lineType => (lineType, markReason lineType)) =
      topMark? tree line := by
  have top {lineType : LineType} (said : Says tree line lineType)
      (below : ∀ other, Says tree line other → other.rank ≤ lineType.rank) :
      (lineTypes tree)[line]? = some lineType := getElem?_lineTypes.mpr ⟨said, below⟩
  have noBlank := not_says_blank tree line
  rw [topMark?, rankedMarks]
  by_cases code : Says tree line .code
  · have found := top code fun other _ => by cases other <;> decide
    simp [found, code, markReason]
  by_cases structural : Says tree line .structural
  · have found := top structural fun other said => by
      cases other <;> first | decide | exact absurd said code
    simp [found, code, structural, markReason]
  by_cases content : Says tree line .stringContent
  · have found := top content fun other said => by
      cases other <;> first | decide | exact absurd said code | exact absurd said structural
    simp [found, code, structural, content, markReason]
  by_cases comment : Says tree line .comment
  · have found := top comment fun other said => by
      cases other <;> first | decide | exact absurd said ‹_›
    simp [found, code, structural, content, comment, markReason]
  · have missing : (lineTypes tree)[line]? = none := by
      refine Option.eq_none_iff_forall_ne_some.mpr fun lineType found => ?_
      have said := (getElem?_lineTypes.mp found).1
      cases lineType <;> exact absurd said ‹_›
    simp [missing, code, structural, content, comment]

/-- A line of a source is classified by its mark, and by its text if it has none. -/
theorem classification?_ofTree (settings : AnalysisSettings) (source fileId : String)
    (reason : Degradation) (tree : Node) (line : Nat) :
    (ofTree settings source fileId tree).classification? line =
      ((withoutTree settings source fileId reason).classification? line).map fun byText =>
        ((topMark? tree line).map fun mark =>
          Classification.ofType settings.policy mark.1 mark.2).getD byText := by
  unfold classification?
  split
  · rfl
  · rename_i inside
    have place : 1 + (line - 1) = line := by omega
    simp only [ofTree, withoutTree, overlay]
    rw [List.getElem?_map, List.getElem?_zipIdx, Option.map_map, place]
    refine congrArg (Option.map · _) (funext fun byText => ?_)
    rw [Function.comp_apply, ← map_lineTypes]
    cases (lineTypes tree)[line]? <;> rfl

/-- **The type of a line is the highest that its tokens say**, with the reason that belongs to it,
and a line of which no token says anything has none. Any pass over the tree ends with these types,
and they are what the analysis of a source goes by before it looks at the text. -/
theorem lineTypes_eq_topMark (tree : Node) :
    (∀ line, (lineTypes tree)[line]?.map (fun lineType => (lineType, markReason lineType)) =
      topMark? tree line) ∧
    (∀ final, Visits [tree] ∅ final ↔ final = lineTypes tree) ∧
    ∀ (settings : AnalysisSettings) (source fileId : String) (reason : Degradation) (line : Nat),
      (ofTree settings source fileId tree).classification? line =
        ((withoutTree settings source fileId reason).classification? line).map fun byText =>
          ((topMark? tree line).map fun mark =>
            Classification.ofType settings.policy mark.1 mark.2).getD byText :=
  ⟨map_lineTypes tree, fun _ => visits_iff, fun settings source fileId reason line =>
    classification?_ofTree settings source fileId reason tree line⟩

end LuaCoverage.Analysis
