import LuaCoverage.Proofs.Store.MergeOrder
import LuaCoverage.Session.Basic

/-!
# Contradictions in merged stores

A stopped session leaves no contradictions behind, because it clears them. Merging two such stores
can bring one back, and in one way only: one side ran a line on a guess, without an analysis of the
file at hand, and the other side, which had the analysis, knows that the line cannot run. The merged
record takes the hit from the one and the classification from the other (`violations_merge`). So the
merged store is free of contradictions exactly if no guess of one side is refuted by the other
(`Session.violations_merge_stopped`).
-/

set_option autoImplicit false

namespace LuaCoverage

namespace LineRecord

/-- A line that was executed on a guess, and that the other record knows cannot run. -/
def RefutedBy (own other : LineRecord) : Prop :=
  own.provisional = true ∧ own.executed = true ∧
    other.provisional = false ∧ other.executable = false

instance (own other : LineRecord) : Decidable (own.RefutedBy other) :=
  inferInstanceAs (Decidable (_ ∧ _))

theorem violations_eq_nil_iff {record : LineRecord} :
    record.violations = [] ↔ (record.covered = true → record.executed = true) ∧
      (record.executed = true → record.executable = true) := by
  unfold violations
  cases record.covered <;> cases record.executed <;> cases record.executable <;> simp

/-- Clearing contradictions leaves none. -/
theorem violations_enforceLine (record : LineRecord) :
    (FileRecord.enforceLine record).violations = [] := by
  rw [violations_eq_nil_iff]
  unfold FileRecord.enforceLine
  simp +contextual

theorem executable_merge (own other : LineRecord) : (own.merge other).executable =
    if own.provisional && !other.provisional then other.executable else own.executable := by
  unfold merge
  split <;> rfl

/-- **What contradicts what after merging** two records without contradictions: a hit that one side
made on a guess contradicts what the other side knows, and nothing else does. -/
theorem violations_merge {own other : LineRecord} (alike : own.RoughlyAlike other)
    (coherent : own.violations = []) (coherent' : other.violations = []) :
    (own.merge other).violations =
      if own.RefutedBy other ∨ other.RefutedBy own then [.executedNotExecutable] else [] := by
  obtain ⟨covered, runs⟩ := violations_eq_nil_iff.mp coherent
  obtain ⟨covered', runs'⟩ := violations_eq_nil_iff.mp coherent'
  have noCover :
      ¬ ((own.covered || other.covered) && !(own.executed || other.executed)) = true := by
    intro found
    obtain ⟨either, neither⟩ := Bool.and_eq_true_iff.mp found
    have idle : own.executed = false ∧ other.executed = false := by simpa using neither
    rcases Bool.or_eq_true_iff.mp either with here | there
    · exact Bool.false_ne_true (idle.1.symm.trans (covered here))
    · exact Bool.false_ne_true (idle.2.symm.trans (covered' there))
  have clash : ((own.executed || other.executed) && !(own.merge other).executable) = true ↔
      own.RefutedBy other ∨ other.RefutedBy own := by
    unfold RefutedBy
    rw [executable_merge]
    cases guess : own.provisional <;> cases guess' : other.provisional
    · -- both are settled, so they say the same and neither can have run the line wrongly
      have same : own.executable = other.executable :=
        congrArg Classification.executable (alike.1 guess guess')
      cases here : other.executable <;> simp_all
    · cases here : own.executable <;> simp_all
    · cases there : other.executable <;> simp_all
    · have same : own.executable = other.executable := alike.2 guess guess'
      cases here : other.executable <;> simp_all
  unfold violations
  rw [executed_merge, covered_merge, if_neg noCover, List.nil_append]
  exact if_congr clash rfl rfl

end LineRecord

namespace CoverageStore

/-- A store is free of contradictions if all its lines are. -/
theorem violations_eq_nil_iff {store : CoverageStore} :
    store.violations = [] ↔ ∀ (path : String) (line : Nat) (record : LineRecord),
      store.line? path line = some record → record.violations = [] := by
  unfold violations
  simp only [List.flatMap_eq_nil_iff, List.map_eq_nil_iff]
  constructor
  · intro none path line record found
    obtain ⟨file, isFile, isRecord⟩ := Option.bind_eq_some_iff.mp found
    exact none file (mem_values_iff.mpr ⟨path, isFile⟩) (line, record)
      (Std.ExtTreeMap.mem_toList_iff_getElem?_eq_some.mpr isRecord)
  · intro none file member entry inside
    obtain ⟨path, isFile⟩ := mem_values_iff.mp member
    refine none path entry.1 entry.2 (Option.bind_eq_some_iff.mpr ⟨file, isFile, ?_⟩)
    exact Std.ExtTreeMap.mem_toList_iff_getElem?_eq_some.mp inside

/-- What contradicts what in a store comes from a record of a line. -/
theorem exists_line_of_mem_violations {store : CoverageStore} {found : String × Nat × Violation}
    (member : found ∈ store.violations) :
    ∃ path line record, store.line? path line = some record ∧ found.2.2 ∈ record.violations := by
  obtain ⟨file, isValue, inside⟩ := List.mem_flatMap.mp member
  obtain ⟨entry, isEntry, listed⟩ := List.mem_flatMap.mp inside
  obtain ⟨violation, contradicts, rfl⟩ := List.mem_map.mp listed
  obtain ⟨path, isFile⟩ := mem_values_iff.mp isValue
  exact ⟨path, entry.1, entry.2, Option.bind_eq_some_iff.mpr ⟨file, isFile,
    Std.ExtTreeMap.mem_toList_iff_getElem?_eq_some.mp isEntry⟩, contradicts⟩

/-- **Clearing contradictions leaves none.** -/
theorem violations_clearContradictions (store : CoverageStore) :
    store.clearContradictions.1.violations = [] := by
  refine violations_eq_nil_iff.mpr fun path line record found => ?_
  obtain ⟨file, isFile, isRecord⟩ := Option.bind_eq_some_iff.mp found
  rw [clearContradictions, Std.ExtTreeMap.getElem?_map] at isFile
  obtain ⟨stored, -, rfl⟩ := Option.map_eq_some_iff.mp isFile
  rw [FileRecord.enforce, Std.ExtTreeMap.getElem?_map] at isRecord
  obtain ⟨before, -, rfl⟩ := Option.map_eq_some_iff.mp isRecord
  exact before.violations_enforceLine

section Merging

variable {ours theirs : CoverageStore}

/-- Stores that agree on their files agree on their lines. -/
theorem Agrees.line {alike : LineRecord → LineRecord → Prop} (agrees : ours.Agrees alike theirs)
    {path : String} {line : Nat} {own other : LineRecord}
    (here : ours.line? path line = some own) (there : theirs.line? path line = some other) :
    alike own other := by
  obtain ⟨file, isFile, isOwn⟩ := Option.bind_eq_some_iff.mp here
  obtain ⟨file', isFile', isOther⟩ := Option.bind_eq_some_iff.mp there
  exact (agrees path file file' isFile isFile').lines line own other isOwn isOther

/-- The contradictions in a line of a merged store. -/
theorem violations_line_merge (agrees : ours.Agrees LineRecord.RoughlyAlike theirs)
    (coherent : ours.violations = []) (coherent' : theirs.violations = []) {path : String}
    {line : Nat} {record : LineRecord} (found : (ours.merge theirs).line? path line = some record) :
    record.violations = [] ∨ record.violations = [.executedNotExecutable] ∧
      ∃ own other, ours.line? path line = some own ∧ theirs.line? path line = some other ∧
        (own.RefutedBy other ∨ other.RefutedBy own) := by
  rw [violations_eq_nil_iff] at coherent coherent'
  rw [line?_merge, Option.merge_eq_some_iff] at found
  rcases found with ⟨here, -⟩ | ⟨-, there⟩ | ⟨own, other, here, there, rfl⟩
  · exact .inl (coherent path line record here)
  · exact .inl (coherent' path line record there)
  · rw [LineRecord.violations_merge (agrees.line here there) (coherent path line own here)
      (coherent' path line other there)]
    split
    · rename_i refuted
      exact .inr ⟨rfl, own, other, here, there, refuted⟩
    · exact .inl rfl

/-- **A merged store is free of contradictions** exactly if no side refutes a guess of the other. -/
theorem violations_merge_eq_nil_iff (agrees : ours.Agrees LineRecord.RoughlyAlike theirs)
    (coherent : ours.violations = []) (coherent' : theirs.violations = []) :
    (ours.merge theirs).violations = [] ↔
      ∀ (path : String) (line : Nat) (own other : LineRecord), ours.line? path line = some own →
        theirs.line? path line = some other → ¬ own.RefutedBy other ∧ ¬ other.RefutedBy own := by
  rw [violations_eq_nil_iff]
  constructor
  · intro none path line own other here there
    rw [violations_eq_nil_iff] at coherent coherent'
    have merged : (ours.merge theirs).line? path line = some (own.merge other) := by
      rw [line?_merge, here, there, Option.merge_some_some]
    have clean := none path line _ merged
    rw [LineRecord.violations_merge (agrees.line here there) (coherent path line own here)
      (coherent' path line other there)] at clean
    refine not_or.mp fun refuted => ?_
    rw [if_pos refuted] at clean
    cases clean
  · intro unrefuted path line record found
    rcases violations_line_merge agrees coherent coherent' found with
      clean | ⟨-, own, other, here, there, refuted⟩
    · exact clean
    · obtain ⟨one, two⟩ := unrefuted path line own other here there
      exact absurd refuted (not_or.mpr ⟨one, two⟩)

end Merging

end CoverageStore

/-! ## Stopped sessions -/

namespace Session

/-- **What merging the stores of two stopped sessions contradicts.** Neither store has a
contradiction in it. If the two agree on the sources of the files that they share, the merged store
has none either, unless one side executed a line on a guess and the other side knows that the line
cannot run; each such line is executed without being executable. -/
theorem violations_merge_stopped (first second : Session) (sources sources' : PathMap String)
    (agree : (first.stop sources).1.store.Agrees LineRecord.RoughlyAlike
      (second.stop sources').1.store) :
    let ours := (first.stop sources).1.store
    let theirs := (second.stop sources').1.store
    ours.violations = [] ∧ theirs.violations = [] ∧
    (∀ found ∈ (ours.merge theirs).violations, found.2.2 = .executedNotExecutable) ∧
    ((ours.merge theirs).violations = [] ↔
      ∀ (path : String) (line : Nat) (own other : LineRecord), ours.line? path line = some own →
        theirs.line? path line = some other → ¬ own.RefutedBy other ∧ ¬ other.RefutedBy own) := by
  intro ours theirs
  have coherent : ours.violations = [] := CoverageStore.violations_clearContradictions _
  have coherent' : theirs.violations = [] := CoverageStore.violations_clearContradictions _
  refine ⟨coherent, coherent', fun found member => ?_,
    CoverageStore.violations_merge_eq_nil_iff agree coherent coherent'⟩
  obtain ⟨path, line, record, isRecord, listed⟩ :=
    CoverageStore.exists_line_of_mem_violations member
  rcases CoverageStore.violations_line_merge agree coherent coherent' isRecord with
    clean | ⟨only, -⟩
  · rw [clean] at listed
    cases listed
  · rw [only] at listed
    exact List.mem_singleton.mp listed

/-- A run in which the line hook saw one line of a file, just before it is stopped. -/
def afterLine (sources : PathMap String) (line : Nat) : Session :=
  let idle : Session :=
    { observer := .trace
      recording := { rules :=
        { root := "/p", filter := { root := "/p", included := [], excluded := [] }
          settings := ⟨.nonExecutable, 1000⟩ } } }
  idle.start.1.observe sources (.line "@a.lua" line)

/-- The source of the file; its second line is a comment. -/
def annotated : PathMap String := .ofList [("/p/a.lua", "x = 1\n-- note\n")]

/-- Two runs of line 1, of which the first could not read the source: nothing is refuted. -/
theorem violations_merge_stopped_code :
    let ours := ((afterLine ∅ 1).stop ∅).1.store
    let theirs := ((afterLine annotated 1).stop annotated).1.store
    ours.Agrees LineRecord.RoughlyAlike theirs ∧ ours.violations = [] ∧ theirs.violations = [] ∧
      (ours.merge theirs).violations = [] := by
  intro ours theirs
  have agree : ours.Agrees LineRecord.RoughlyAlike theirs := by decide +kernel
  obtain ⟨coherent, coherent', -, -⟩ :=
    violations_merge_stopped (afterLine ∅ 1) (afterLine annotated 1) ∅ annotated agree
  exact ⟨agree, coherent, coherent', by decide +kernel⟩

/-- **A guess that is refuted.** The first run saw line 2 of a source that it could not read, the
second one knows that line 2 is a comment. Both stores are free of contradictions; merging them in
either order gives a line that was executed and cannot be. -/
theorem violations_merge_comment :
    let ours := ((afterLine ∅ 2).stop ∅).1.store
    let theirs := ((afterLine annotated 1).stop annotated).1.store
    ours.violations = [] ∧ theirs.violations = [] ∧
      (ours.merge theirs).violations = [("/p/a.lua", 2, .executedNotExecutable)] ∧
      (theirs.merge ours).violations = [("/p/a.lua", 2, .executedNotExecutable)] := by
  decide +kernel

end Session

end LuaCoverage
