import LuaCoverage.Proofs.Module.LoadSteps

/-!
# Loaders in lockstep

Two loaders that differ in some of what they hold may still answer alike, now and later. What has to
be shown for this is about single steps: the loaders see the same stack, the same files given up and
the same forms in their caches, and whatever step a load makes, both make it and stay related
(`Loader.IsLockstep`). That a whole load then comes to the same in both follows by going through it
once (`Loader.IsLockstep.instrumentFile`, `Loader.IsLockstep.answer`), for whatever relation it is
that the steps keep.
-/

set_option autoImplicit false

namespace LuaCoverage

namespace Loader

/-- Two loaders came to the same result, and are related afterwards. -/
def Together {α : Type} (related : Loader → Loader → Prop) (first second : Loader × α) : Prop :=
  first.2 = second.2 ∧ related first.1 second.1

/-- Whether related loaders take every step of a load on some sources together. -/
structure IsLockstep (sources : PathMap String) (related : Loader → Loader → Prop) : Prop where
  rules {first second : Loader} (alike : related first second) : first.rules = second.rules
  inProgress {first second : Loader} (alike : related first second) :
    first.inProgress = second.inProgress
  aborted {first second : Loader} (alike : related first second) : first.aborted = second.aborted
  cache {first second : Loader} (alike : related first second) : first.cache = second.cache
  skip {first second : Loader} (alike : related first second) : related first.skip second.skip
  reuse {first second : Loader} (alike : related first second) : related first.reuse second.reuse
  enter {first second : Loader} (alike : related first second) (path : String) :
    related (first.enter path) (second.enter path)
  abort {first second : Loader} (alike : related first second) (path : String) :
    related (first.abort path) (second.abort path)
  resolve {first second : Loader} (alike : related first second) (name : String) :
    Together related (first.resolve sources name) (second.resolve sources name)
  finish {first second : Loader} (alike : related first second) (name : String)
    {path text : String} {analysis : Analysis} (readable : sources[path]? = some text)
    (isAnalysis : analysis = analyze first.rules.settings text path) :
    Together related (first.finish name path text analysis)
      (second.finish name path text analysis)

namespace IsLockstep

variable {sources : PathMap String} {related : Loader → Loader → Prop}
  (lockstep : IsLockstep sources related) {first second : Loader}
include lockstep

section Requirements

variable {instrument : Loader → String → String → String → Loader}
  (each : ∀ (first second : Loader) (name path text : String), sources[path]? = some text →
    related first second → related (instrument first name path text)
      (instrument second name path text))
include each

theorem loadRequired (alike : related first second) (name : String) :
    related (Loader.loadRequired instrument sources first name)
      (Loader.loadRequired instrument sources second name) := by
  unfold Loader.loadRequired
  rw [lockstep.rules alike]
  split
  · exact alike
  · obtain ⟨same, resolved⟩ := lockstep.resolve alike name
    generalize first.resolve sources name = found at same resolved ⊢
    generalize second.resolve sources name = found' at same resolved ⊢
    obtain ⟨next, path?⟩ := found
    obtain ⟨next', path?'⟩ := found'
    obtain rfl : path? = path?' := same
    have rules : next.rules = next'.rules := lockstep.rules resolved
    cases path? with
    | none => exact resolved
    | some path =>
        simp only [rules]
        split
        · cases readable : sources[path]? with
          | none => exact resolved
          | some text => exact each next next' name path text readable resolved
        · exact resolved

theorem loadRequirements (alike : related first second) (analysis : Analysis) :
    related (first.loadRequirements instrument sources analysis)
      (second.loadRequirements instrument sources analysis) := by
  unfold Loader.loadRequirements
  rw [lockstep.rules alike]
  split
  · rename_i eager
    clear eager
    generalize analysis.requires = names
    induction names generalizing first second with
    | nil => exact alike
    | cons name rest ih => exact ih (lockstep.loadRequired each alike name)
  · exact alike

end Requirements

/-- Related loaders take the same way when they instrument a file, up to the loads of the modules
that the file requires. -/
theorem instrumentFile_of (alike : related first second) {room : Nat} {name path text : String}
    (finishes : ∀ inner : Nat, room = inner + 1 →
      let analysis := analyze first.rules.settings text path
      Together related ((first.prepare sources inner path analysis).finish name path text analysis)
        ((second.prepare sources inner path analysis).finish name path text analysis)) :
    Together related (Loader.instrumentFile sources room first name path text)
      (Loader.instrumentFile sources room second name path text) := by
  have cached : first.cached? path (Text.Digest.ofText text) =
      second.cached? path (Text.Digest.ofText text) := by
    rw [cached?, cached?, lockstep.cache alike]
  rw [instrumentFile_eq, instrumentFile_eq, lockstep.aborted alike, lockstep.inProgress alike,
    cached, ← lockstep.rules alike]
  split
  · exact ⟨rfl, alike⟩
  split
  · exact ⟨rfl, lockstep.skip alike⟩
  cases second.cached? path (Text.Digest.ofText text) with
  | some loaded => exact ⟨rfl, lockstep.reuse alike⟩
  | none =>
      cases room with
      | zero => exact ⟨rfl, lockstep.abort alike path⟩
      | succ inner => exact finishes inner rfl

/-- **Instrumenting a file** comes to the same in both loaders, however deeply loads nest. -/
theorem instrumentFile (room : Nat) (name path text : String)
    (readable : sources[path]? = some text) (alike : related first second) :
    Together related (Loader.instrumentFile sources room first name path text)
      (Loader.instrumentFile sources room second name path text) := by
  induction room generalizing first second name path text with
  | zero => exact lockstep.instrumentFile_of alike nofun
  | succ room ih =>
      refine lockstep.instrumentFile_of alike fun inner deeper => ?_
      obtain rfl : room = inner := Nat.succ.inj deeper
      have prepared := lockstep.loadRequirements
        (fun first second name path text readable alike => (ih name path text readable alike).2)
        (lockstep.enter alike path) (analyze first.rules.settings text path)
      have rules : (first.prepare sources room path
          (analyze first.rules.settings text path)).rules = first.rules :=
        (loads_loadRequirements (loads_instrumentFile room) (first.enter path) _).rules_eq
      exact lockstep.finish prepared name readable
        (congrArg (fun rules => analyze rules.settings text path) rules.symm)

theorem loadFound (alike : related first second) (name path : String) :
    Together related (first.loadFound sources name path) (second.loadFound sources name path) := by
  have room : first.room = second.room := by
    rw [Loader.room, Loader.room, Loader.depth, Loader.depth, lockstep.rules alike,
      lockstep.inProgress alike]
  unfold Loader.loadFound
  rw [lockstep.rules alike, room]
  cases readable : sources[path]? with
  | none => exact ⟨rfl, alike⟩
  | some text =>
      simp only
      split
      · exact ⟨rfl, alike⟩
      · obtain ⟨same, together⟩ :=
          lockstep.instrumentFile second.room name path text readable alike
        generalize Loader.instrumentFile sources second.room first name path text = ended
          at same together ⊢
        generalize Loader.instrumentFile sources second.room second name path text = ended'
          at same together ⊢
        obtain ⟨next, outcome⟩ := ended
        obtain ⟨next', outcome'⟩ := ended'
        obtain rfl : outcome = outcome' := same
        cases outcome with
        | ok loaded => exact ⟨rfl, together⟩
        | error reason => exact ⟨rfl, together⟩

/-- **A request** is answered alike by both loaders. -/
theorem answer (alike : related first second) (request : LoadRequest) :
    Together related (first.answer sources request) (second.answer sources request) := by
  cases request with
  | file file =>
      rw [Loader.answer, Loader.answer, loadFile, loadFile, lockstep.rules alike]
      exact lockstep.loadFound alike _ _
  | module name =>
      rw [Loader.answer, Loader.answer, load, load]
      obtain ⟨same, resolved⟩ := lockstep.resolve alike name
      generalize first.resolve sources name = found at same resolved ⊢
      generalize second.resolve sources name = found' at same resolved ⊢
      obtain ⟨next, path?⟩ := found
      obtain ⟨next', path?'⟩ := found'
      obtain rfl : path? = path?' := same
      cases path? with
      | none =>
          exact ⟨(congrArg (fun rules => LoadAnswer.notFound name (rules.candidates name))
            (lockstep.rules resolved) :), resolved⟩
      | some path => exact lockstep.loadFound resolved name path

end IsLockstep

end Loader

end LuaCoverage
