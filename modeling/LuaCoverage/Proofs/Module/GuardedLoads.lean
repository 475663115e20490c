import LuaCoverage.Proofs.Session.Histories

/-!
# What loads keep by their guards

A file is instrumented only after a number of questions: the filter lets it through, it can be read,
it was not given up, it is not just being instrumented, and its text is not in the cache. What a
loader keeps may hinge on these. A property of loaders that every single step keeps, where a step
that enters, gives up or finishes a file may rely on the answers (`Loader.Wants`), is kept by every
load, however deeply loads nest (`Loader.IsKept.answer`), and by whatever happens to a session
(`Session.loader_step`).
-/

set_option autoImplicit false

namespace LuaCoverage

namespace Loader

/-- Whether a loader goes on to instrument a file, which holds a text. -/
structure Wants (sources : PathMap String) (loader : Loader) (path text : String) : Prop where
  tracked : loader.rules.filter.rule path = true
  readable : sources[path]? = some text
  notGivenUp : path ∉ loader.aborted
  idle : path ∉ loader.inProgress
  uncached : loader.cached? path (Text.Digest.ofText text) = none

/-- Whether every step of a load on some sources keeps a property. A file is finished in a loader
that its entry has led to, around the loads of the modules that it requires. -/
structure IsKept (sources : PathMap String) (holds : Loader → Prop) : Prop where
  skip {loader : Loader} (before : holds loader) : holds loader.skip
  reuse {loader : Loader} (before : holds loader) : holds loader.reuse
  resolve {loader : Loader} (before : holds loader) (name : String) :
    holds (loader.resolve sources name).1
  abort {loader : Loader} {path text : String} (before : holds loader)
    (wants : loader.Wants sources path text) : holds (loader.abort path)
  enter {loader : Loader} {path text : String} (before : holds loader)
    (wants : loader.Wants sources path text) : holds (loader.enter path)
  finish {loader prepared : Loader} {path text : String} (before : holds loader)
    (wants : loader.Wants sources path text)
    (inside : Loads sources (loader.enter path) prepared) (ready : holds prepared)
    (name : String) :
    holds (prepared.finish name path text (analyze loader.rules.settings text path)).1

namespace IsKept

variable {sources : PathMap String} {holds : Loader → Prop} (kept : IsKept sources holds)
  {loader : Loader}
include kept

section Requirements

variable {instrument : Loader → String → String → String → Loader}
  (each : ∀ (loader : Loader) (name path text : String), holds loader →
    loader.rules.filter.rule path = true → sources[path]? = some text →
      holds (instrument loader name path text))
include each

theorem loadRequired (before : holds loader) (name : String) :
    holds (Loader.loadRequired instrument sources loader name) := by
  unfold Loader.loadRequired
  split
  · exact before
  · have resolved := kept.resolve before name
    generalize loader.resolve sources name = found at resolved ⊢
    obtain ⟨next, _ | path⟩ := found
    · exact resolved
    · simp only
      split
      · rename_i tracked
        cases readable : sources[path]? with
        | none => exact resolved
        | some text => exact each next name path text resolved tracked readable
      · exact resolved

theorem loadRequirements (before : holds loader) (analysis : Analysis) :
    holds (loader.loadRequirements instrument sources analysis) := by
  unfold Loader.loadRequirements
  split
  · exact List.foldlRecOn (motive := holds) _ _ before
      fun next holdsNext name _ => kept.loadRequired each holdsNext name
  · exact before

end Requirements

/-- A file that is not instrumented afresh takes one step at most. -/
theorem instrumentFile_of {room : Nat} {name path text : String} (before : holds loader)
    (tracked : loader.rules.filter.rule path = true) (readable : sources[path]? = some text)
    (finishes : ∀ inner : Nat, room = inner + 1 → loader.Wants sources path text →
      let analysis := analyze loader.rules.settings text path
      holds ((loader.prepare sources inner path analysis).finish name path text analysis).1) :
    holds (Loader.instrumentFile sources room loader name path text).1 := by
  rw [instrumentFile_eq]
  split
  · exact before
  rename_i notGivenUp
  split
  · exact kept.skip before
  rename_i idle
  cases uncached : loader.cached? path (Text.Digest.ofText text) with
  | some loaded => exact kept.reuse before
  | none =>
      have wants : loader.Wants sources path text := ⟨tracked, readable,
        fun member => notGivenUp (Std.ExtTreeSet.contains_iff_mem.mpr member),
        fun member => idle (List.contains_iff_mem.mpr member), uncached⟩
      cases room with
      | zero => exact kept.abort before wants
      | succ inner => exact finishes inner rfl wants

/-- **Instrumenting a file** keeps the property. The induction is on the room for nested loads. -/
theorem instrumentFile (room : Nat) (name : String) {path text : String} (before : holds loader)
    (tracked : loader.rules.filter.rule path = true) (readable : sources[path]? = some text) :
    holds (Loader.instrumentFile sources room loader name path text).1 := by
  induction room generalizing loader name path text with
  | zero => exact kept.instrumentFile_of before tracked readable nofun
  | succ room ih =>
      refine kept.instrumentFile_of before tracked readable fun inner deeper wants => ?_
      obtain rfl : room = inner := Nat.succ.inj deeper
      have inside : Loads sources (loader.enter path) (loader.prepare sources room path
          (analyze loader.rules.settings text path)) :=
        loads_loadRequirements (loads_instrumentFile room) (loader.enter path) _
      have ready := kept.loadRequirements
        (fun _ name _ _ before tracked readable => ih name before tracked readable)
        (kept.enter before wants) (analyze loader.rules.settings text path)
      exact kept.finish before wants inside ready name

theorem loadFound (before : holds loader) (name path : String) :
    holds (loader.loadFound sources name path).1 := by
  unfold Loader.loadFound
  split
  · exact before
  · rename_i text readable
    split
    · exact before
    · rename_i wanted
      have tracked : loader.rules.filter.rule path = true := by
        rw [Bool.or_eq_true, not_or, Bool.not_eq_true', Bool.not_eq_false] at wanted
        exact wanted.2
      have ended := kept.instrumentFile loader.room name before tracked readable
      split
      all_goals
        rename_i same
        rwa [same] at ended

/-- **A load** keeps what its steps keep. -/
theorem answer (before : holds loader) (request : LoadRequest) :
    holds (loader.answer sources request).1 := by
  cases request with
  | file file => exact kept.loadFound before _ _
  | module name =>
      have resolved := kept.resolve before name
      rw [Loader.answer, Loader.load]
      generalize loader.resolve sources name = found at resolved ⊢
      obtain ⟨next, _ | path⟩ := found
      · exact resolved
      · exact kept.loadFound resolved name path

end IsKept

end Loader

/-- **Whatever happens to a session** keeps for its loader what the steps of loads keep. -/
theorem Session.loader_step {session : Session} {next : SessionStep} {holds : Loader → Prop}
    (kept : Loader.IsKept next.sources holds)
    (before : ∀ instrumentation : Instrumentation,
      session.observer = .instrument instrumentation → holds instrumentation.loader) :
    ∀ instrumentation : Instrumentation,
      (session.step next).observer = .instrument instrumentation →
        holds instrumentation.loader := by
  intro reached observes
  cases next with
  | start =>
      rw [step, start] at observes
      cases observer : session.observer with
      | trace =>
          rw [observer] at observes
          cases observes
      | instrument instrumentation =>
          rw [observer] at observes
          obtain rfl := Observer.instrument.inj observes
          exact before instrumentation observer
  | stop sources => exact before reached observes
  | link frames => exact before reached observes
  | observe sources event =>
      rw [step, observe] at observes
      split at observes <;> exact before reached observes
  | intercept sources request =>
      rw [step] at observes
      cases observer : session.observer with
      | trace =>
          rw [intercept_of_trace observer, observer] at observes
          cases observes
      | instrument instrumentation =>
          rw [Loader.intercept_eq_answer session instrumentation observer,
            Instrumentation.intercept] at observes
          obtain rfl := Observer.instrument.inj observes
          rw [Instrumentation.loader_catchUp]
          exact kept.answer (before instrumentation observer) request

end LuaCoverage
