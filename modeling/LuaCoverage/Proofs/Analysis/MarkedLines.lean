import LuaCoverage.Proofs.Analysis.ParsedSource
import LuaCoverage.Proofs.OrderedMap

/-!
# Which tokens make lines executable

The type of a line is the mark of some token on it (`mem_marks_of_lineTypes`), and of all marks only
those that a token sets on the line it begins on can make a line executable. A line that can run
therefore has a token that begins on it, unless no token lies on it at all and it was classified by
its text (`exists_leaf_of_executable`).
-/

set_option autoImplicit false

namespace LuaCoverage.Analysis

open Syntax

/-! ## Marks -/

mutual

theorem marks_eq : (node : Node) →
    marks node = node.leaves.flatMap fun leaf => leafMarks leaf.1 leaf.2
  | .leaf kind span => by
      rw [marks, Node.leaves]
      exact (List.append_nil _).symm
  | .inner construct span children => by
      rw [marks, Node.leaves]
      exact marksAll_eq children

/-- The marks of a tree are those of its leaves. -/
theorem marksAll_eq : (nodes : List Node) →
    marksAll nodes = (leavesAll nodes).flatMap fun leaf => leafMarks leaf.1 leaf.2
  | [] => rfl
  | node :: rest => by
      rw [marksAll, marks_eq node, marksAll_eq rest, leavesAll_cons, List.flatMap_append]

end

theorem getElem?_addMark {marked : LineMap LineType} {mark : Nat × LineType} {line : Nat}
    {lineType : LineType} (found : (addMark marked mark)[line]? = some lineType) :
    marked[line]? = some lineType ∨ mark = (line, lineType) := by
  have inserted : (marked.insert mark.1 mark.2)[line]? = some lineType →
      marked[line]? = some lineType ∨ mark = (line, lineType) := by
    intro found
    rw [Std.ExtTreeMap.getElem?_insert] at found
    split at found
    · rename_i same
      rw [Std.LawfulEqCmp.compare_eq_iff_eq] at same
      exact .inr (Prod.ext same (Option.some.inj found))
    · exact .inl found
  unfold addMark at found
  split at found
  · exact inserted found
  · split at found
    · exact inserted found
    · exact .inl found

/-- The type of a line is the mark of some token. -/
theorem mem_marks_of_lineTypes {tree : Node} {line : Nat} {lineType : LineType}
    (found : (lineTypes tree)[line]? = some lineType) : (line, lineType) ∈ marks tree := by
  suffices general : ∀ (all : List (Nat × LineType)) (marked : LineMap LineType),
      (all.foldl addMark marked)[line]? = some lineType →
        marked[line]? = some lineType ∨ (line, lineType) ∈ all by
    refine (general _ _ found).resolve_left ?_
    simp
  intro all
  induction all with
  | nil => exact fun marked found => .inl found
  | cons mark rest ih =>
      intro marked found
      rcases ih _ found with before | later
      · rcases getElem?_addMark before with before | rfl
        · exact .inl before
        · exact .inr List.mem_cons_self
      · exact .inr (List.mem_cons_of_mem _ later)

/-- A mark that makes a line executable is set by a token that begins on it. -/
theorem first_line_of_mem_leafMarks {policy : StructuralPolicy} {kind : Leaf} {span : Span}
    {line : Nat} {lineType : LineType} (member : (line, lineType) ∈ leafMarks kind span)
    (runs : lineType.isExecutable policy = true) :
    kind ≠ .comment ∧ kind ≠ .shebang ∧ span.first.line = line := by
  have aside : ∀ first last, (line, lineType) ∉
      (linesBetween first last).map fun line => (line, LineType.comment) := by
    intro first last member
    obtain ⟨_, _, same⟩ := List.mem_map.mp member
    obtain ⟨-, rfl⟩ := Prod.mk.inj same
    cases runs
  have content : ∀ first last, (line, lineType) ∉
      (linesBetween first last).map fun line => (line, LineType.stringContent) := by
    intro first last member
    obtain ⟨_, _, same⟩ := List.mem_map.mp member
    obtain ⟨-, rfl⟩ := Prod.mk.inj same
    cases runs
  have single : ∀ {own : LineType}, (line, lineType) ∈ (if span.isEmpty then []
      else [(span.first.line, own)]) → span.first.line = line := by
    intro own member
    split at member
    · exact absurd member List.not_mem_nil
    · exact (Prod.mk.inj (List.mem_singleton.mp member)).1.symm
  cases kind with
  | comment => exact absurd member (aside _ _)
  | shebang => exact absurd member (aside _ _)
  | string _ =>
      refine ⟨nofun, nofun, ?_⟩
      rcases List.mem_cons.mp member with first | later
      · exact (Prod.mk.inj first).1.symm
      · exact absurd later (content _ _)
  | symbol text =>
      refine ⟨nofun, nofun, ?_⟩
      unfold leafMarks at member
      simp only at member
      split at member
      · exact absurd member List.not_mem_nil
      · split at member <;> exact (Prod.mk.inj (List.mem_singleton.mp member)).1.symm
  | name => exact ⟨nofun, nofun, single member⟩
  | constant => exact ⟨nofun, nofun, single member⟩
  | number => exact ⟨nofun, nofun, single member⟩
  | varargs => exact ⟨nofun, nofun, single member⟩
  | breakStatement => exact ⟨nofun, nofun, single member⟩

/-! ## Executable lines -/

/-- A line can run if its classification says so. -/
theorem mem_executableLines_iff {lines : List Classification} {line : Nat} :
    line ∈ executableLines lines ↔
      ∃ verdict, (verdict, line) ∈ lines.zipIdx 1 ∧ verdict.executable = true := by
  suffices general : ∀ (entries : List (Classification × Nat)) (set : LineSet),
      line ∈ entries.foldl (fun executable entry =>
          if entry.1.executable then executable.insert entry.2 else executable) set ↔
        line ∈ set ∨ ∃ verdict, (verdict, line) ∈ entries ∧ verdict.executable = true by
    refine (general _ _).trans (or_iff_right ?_)
    exact Std.ExtTreeSet.not_mem_empty
  intro entries
  induction entries with
  | nil => simp
  | cons first rest ih =>
      intro set
      obtain ⟨verdict, number⟩ := first
      rw [List.foldl_cons, ih]
      cases runs : verdict.executable with
      | false =>
          simp only [Bool.false_eq_true, if_false, List.mem_cons]
          refine or_congr_right ⟨?_, ?_⟩
          · rintro ⟨other, member, runs'⟩
            exact ⟨other, .inr member, runs'⟩
          · rintro ⟨other, same | member, runs'⟩
            · obtain ⟨rfl, rfl⟩ := Prod.mk.inj same
              cases runs.symm.trans runs'
            · exact ⟨other, member, runs'⟩
      | true =>
          simp only [if_true, Std.ExtTreeSet.mem_insert, Std.LawfulEqCmp.compare_eq_iff_eq,
            List.mem_cons]
          constructor
          · rintro ((rfl | before) | ⟨other, member, runs'⟩)
            · exact .inr ⟨verdict, .inl rfl, runs⟩
            · exact .inl before
            · exact .inr ⟨other, .inr member, runs'⟩
          · rintro (before | ⟨other, same | member, runs'⟩)
            · exact .inl (.inr before)
            · exact .inl (.inl (Prod.mk.inj same).2.symm)
            · exact .inr ⟨other, member, runs'⟩

/-- **A line that can run has a token that begins on it**, unless no token lies on it. -/
theorem exists_leaf_of_executable {policy : StructuralPolicy} {tree : Node}
    {lines : List Classification} {line : Nat}
    (runs : line ∈ executableLines (overlay policy (lineTypes tree) lines)) :
    (lineTypes tree)[line]? = none ∨ ∃ leaf ∈ tree.leaves, leaf.1 ≠ .comment ∧ leaf.1 ≠ .shebang ∧
      leaf.2.first.line = line := by
  obtain ⟨verdict, member, isExecutable⟩ := mem_executableLines_iff.mp runs
  cases marked : (lineTypes tree)[line]? with
  | none => exact .inl rfl
  | some lineType =>
      have isVerdict : verdict = .ofType policy lineType (markReason lineType) := by
        obtain ⟨atLeast, isVerdict⟩ := List.mk_mem_zipIdx_iff_le_and_getElem?_sub.mp member
        rw [overlay, List.getElem?_map, List.getElem?_zipIdx, Option.map_map] at isVerdict
        obtain ⟨own, -, rfl⟩ := Option.map_eq_some_iff.mp isVerdict
        rw [Function.comp_apply, Nat.add_sub_cancel' atLeast]
        simp only [marked]
      rw [isVerdict] at isExecutable
      have isMark := mem_marks_of_lineTypes marked
      rw [marks_eq] at isMark
      obtain ⟨leaf, isLeaf, isMark⟩ := List.mem_flatMap.mp isMark
      exact .inr ⟨leaf, isLeaf, first_line_of_mem_leafMarks isMark isExecutable⟩

end LuaCoverage.Analysis
