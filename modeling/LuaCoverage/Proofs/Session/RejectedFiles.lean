import LuaCoverage.Proofs.Module.AskedFiles
import LuaCoverage.Proofs.Module.GuardedLoads
import LuaCoverage.Proofs.Session.NotedFiles

/-!
# Files that the filter rejects

A file reaches the store of a session in several ways: an event names it, a load is answered with
it, the loader has instrumented it because another file requires it or has given it up, and the end
of a run tries sources once more. A loader reaches for files in ways of its own. Both ask a filter,
each its own one, and a recording remembers decisions that a load may overwrite.

For a file that the filter rejects, what a session has of it stays next to nothing. A loader never
enters the file, never gives it up, and keeps nothing of it but what earlier runs left
(`Loader.Spares`). A recording has at most a note that the file exists (`Recording.OnlyNotes`).
Whatever happens keeps both (`Session.PassesOver.step`): the only steps that would track a file or
instrument it ask the filter first, and those that follow what was done before find nothing to
follow.

So whatever happens to a session, the file is never tracked and has no line, block or function, it
is never instrumented, and the counts over all files are those of the other files
(`Session.passes_over_rejected`).
-/

set_option autoImplicit false

namespace LuaCoverage

/-! ## Loaders -/

namespace Loader

/-- A loader has nothing to do with a file that its filter rejects: the file is not being
instrumented, it was not given up, and nothing of it is kept but what was left by earlier runs. -/
structure Spares (path : String) (left : Option (List CacheEntry)) (loader : Loader) : Prop where
  rejected : loader.rules.filter.rule path = false
  idle : path ∉ loader.inProgress
  notGivenUp : path ∉ loader.aborted
  uncached : path ∉ loader.cache
  kept : (loader.disk.map fun disk => disk.entriesOf path) = left

namespace Spares

variable {sources : PathMap String} {path other : String} {left : Option (List CacheEntry)}
  {loader : Loader}

/-- The filter tells a file that it rejects from one that a loader wants. -/
theorem ne_of_wants (spares : loader.Spares path left) {text : String}
    (wants : loader.Wants sources other text) : other ≠ path := by
  rintro rfl
  exact Bool.false_ne_true (spares.rejected.symm.trans wants.tracked)

theorem leavesAlone (spares : loader.Spares path left) : loader.LeavesAlone path left :=
  ⟨spares.idle, spares.notGivenUp, spares.uncached, spares.kept⟩

/-- Finishing another file leaves a rejected one alone. -/
theorem finish (spares : loader.Spares path left) (apart : other ≠ path) (name text : String)
    (analysis : Analysis) : (loader.finish name other text analysis).1.Spares path left := by
  obtain ⟨rules, -⟩ := finish_frame loader name other text analysis
  have alone := spares.leavesAlone.finish apart name text analysis
  exact ⟨rules ▸ spares.rejected, alone.idle, alone.notGivenUp, alone.uncached, alone.kept⟩

/-- **Loads leave a rejected file alone**, because they want only files that the filter lets
through. -/
theorem isKept (sources : PathMap String) (path : String) (left : Option (List CacheEntry)) :
    IsKept sources (Spares path left) where
  skip spares := { spares with }
  reuse spares := { spares with }
  resolve spares name := by
    unfold Loader.resolve
    split <;> exact { spares with }
  abort spares wants :=
    { spares with
      notGivenUp := fun member => (Std.ExtTreeSet.mem_insert.mp member).elim
        (fun same => spares.ne_of_wants wants (Std.LawfulEqCmp.eq_of_compare same))
        spares.notGivenUp }
  enter spares wants :=
    { spares with
      idle := fun member => (List.mem_cons.mp member).elim
        (fun same => spares.ne_of_wants wants same.symm) spares.idle }
  finish spares wants _ ready name := ready.finish (spares.ne_of_wants wants) name _ _

end Spares

end Loader

/-! ## Sessions -/

namespace Session

variable {path : String} {left : Option (List CacheEntry)} {session : Session}

/-- A session passes over a file that its filters reject: its recording has at most a note of the
file, its loader has nothing to do with it, and no form of it was adopted. -/
structure PassesOver (path : String) (left : Option (List CacheEntry)) (session : Session) :
    Prop where
  sound : session.Sound
  rejected : session.recording.rules.filter.rule path = false
  notes : session.recording.OnlyNotes path
  spares : ∀ instrumentation : Instrumentation, session.observer = .instrument instrumentation →
    instrumentation.loader.Spares path left
  unadopted : session.adopted? path = none

/-- The filters of a session are those of its configuration, and it has nothing of any file. -/
theorem passesOver_ofConfig {config : Config} {strategy : Strategy} {disk : Option SourceCache}
    (made : ofConfig config strategy disk = .ok session) {filter : Path.Filter}
    (isFilter : Path.Filter.ofConfig config = .ok filter) (rejected : filter.rule path = false) :
    session.PassesOver path (disk.map fun disk => disk.entriesOf path) := by
  have sound := sound_ofConfig made
  obtain ⟨observer, observed, made⟩ := exists_ok_of_bind made
  split at made
  · cases made
  obtain ⟨filter', isFilter', made⟩ := exists_ok_of_bind made
  obtain rfl := Except.ok.inj (isFilter'.symm.trans isFilter)
  obtain rfl := Except.ok.inj made
  suffices new : ∀ instrumentation : Instrumentation, observer = .instrument instrumentation →
      instrumentation.loader.Spares path (disk.map fun disk => disk.entriesOf path) ∧
        instrumentation.adopted[path]? = none by
    refine ⟨sound, rejected, .of_unmet rfl, fun _ observes => (new _ observes).1, ?_⟩
    cases observer with
    | trace => rfl
    | instrument instrumentation => exact (new _ rfl).2
  rintro instrumentation rfl
  cases strategy with
  | trace => cases observed
  | instrument =>
      obtain ⟨loader, loaded, observed⟩ := exists_ok_of_bind observed
      obtain rfl := Observer.instrument.inj (Except.ok.inj observed)
      obtain ⟨rules, ruled, rfl⟩ := Loader.exists_rules_of_ofConfig loaded
      obtain ⟨excluded, -, ruled⟩ := exists_ok_of_bind ruled
      obtain ⟨filter'', isFilter'', ruled⟩ := exists_ok_of_bind ruled
      obtain rfl := Except.ok.inj (isFilter''.symm.trans isFilter)
      obtain rfl := Except.ok.inj ruled
      exact ⟨⟨rejected, List.not_mem_nil, Std.ExtTreeSet.not_mem_empty,
        Std.ExtTreeMap.not_mem_empty, rfl⟩, Std.ExtTreeMap.getElem?_empty⟩

/-- What stopping makes of the record of a file that was only noted. -/
theorem onlyNotes_stop (notes : session.recording.OnlyNotes path) (sources : PathMap String) :
    (session.stop sources).1.recording.OnlyNotes path := by
  have retried := notes.analyzeProvisional sources
  refine { retried with noted := fun file found => ?_ }
  rw [show (session.stop sources).1.recording.store.files[path]? = _ from
    getElem?_files_stop session sources path] at found
  obtain ⟨old, isOld, rfl⟩ := Option.map_eq_some_iff.mp found
  rw [retried.noted old isOld, Recording.settledFile, retried.unanalyzed,
    FileRecord.resolveBlocks_new]
  rfl

/-- A loader that has nothing to do with a file has no form of it. -/
theorem form?_of_spares (spares : ∀ instrumentation : Instrumentation,
    session.observer = .instrument instrumentation → instrumentation.loader.Spares path left) :
    session.form? path = none := by
  rw [form?, cached?]
  cases observer : session.observer with
  | trace => rfl
  | instrument instrumentation =>
      exact congrArg (Option.map _)
        (Std.ExtTreeMap.getElem?_eq_none (spares instrumentation observer).uncached)

/-- **Nothing that happens to a session** brings it to do more with the file. -/
theorem PassesOver.step (passes : session.PassesOver path left) (next : SessionStep) :
    (session.step next).PassesOver path left := by
  have spares := loader_step (Loader.Spares.isKept next.sources path left) passes.spares
  suffices step : (session.step next).recording.rules = session.recording.rules ∧
      (session.step next).recording.OnlyNotes path ∧
      (session.step next).adopted? path = none from
    ⟨passes.sound.step next, step.1 ▸ passes.rejected, step.2.1, spares, step.2.2⟩
  have advances := fun continues : next ≠ .start => passes.sound.advances_step continues
  cases next with
  | start => exact ⟨rfl, .of_unmet rfl, session.adopted?_start path⟩
  | stop sources =>
      exact ⟨(advances fun same => by cases same).rules, onlyNotes_stop passes.notes sources,
        passes.unadopted⟩
  | link frames => exact ⟨rfl, passes.notes.linkFrames _, passes.unadopted⟩
  | observe sources event =>
      refine ⟨(advances fun same => by cases same).rules, ?_, ?_⟩
      · rw [Session.step, observe]
        split
        · cases session.observer with
          | trace => exact passes.notes.onTraced sources passes.rejected event
          | instrument instrumentation =>
              exact instrumentation.onlyNotes_record passes.notes sources
                fun _ _ _ => passes.rejected
        · exact passes.notes
      · have unadopted := passes.unadopted
        rw [Session.step, observe]
        split <;> exact unadopted
  | intercept sources request =>
      refine ⟨(advances fun same => by cases same).rules, ?_, ?_⟩
      · have sound := (passes.sound.step (.intercept sources request)).loader
        rw [Session.step] at spares sound ⊢
        cases observer : session.observer with
        | trace =>
            rw [intercept_of_trace observer]
            exact passes.notes
        | instrument instrumentation =>
            rw [Loader.intercept_eq_answer session instrumentation observer,
              Instrumentation.intercept] at spares sound ⊢
            have uncached := (spares _ rfl).uncached
            have cacheSound := (sound _ rfl).1
            rw [Instrumentation.loader_catchUp] at uncached cacheSound
            exact Instrumentation.onlyNotes_noteUnchanged
              (Instrumentation.onlyNotes_catchUp _ cacheSound uncached passes.notes) _
      · rw [Session.step, adopted?_intercept passes.sound, passes.unadopted, Option.none_or]
        exact form?_of_spares spares

/-- **A session passes over the file** in every history. -/
theorem PassesOver.after (passes : session.PassesOver path left) (steps : List SessionStep) :
    (session.after steps).PassesOver path left :=
  List.foldlRecOn (motive := PassesOver path left) steps Session.step passes
    fun _ passes next _ => passes.step next

/-- **A file that the filter rejects is never tracked.** Whatever happens to a session of either
strategy, and in whatever order: the store has at most an inactive record of the file, without a
line, a block or a function, and the counts over all files are those of the other files. The loader
never has the file in its cache or among those that are being instrumented, no form of it is
adopted, what is kept of it between runs is what was there from the start, and no load is answered
with an instrumented form of it. -/
theorem passes_over_rejected {config : Config} {strategy : Strategy} {disk : Option SourceCache}
    {fresh : Session} (made : ofConfig config strategy disk = .ok fresh) {filter : Path.Filter}
    (isFilter : Path.Filter.ofConfig config = .ok filter) {path : String}
    (rejected : filter.rule path = false) (steps : List SessionStep) :
    let session := fresh.after steps
    (∀ file : FileRecord, session.store.files[path]? = some file →
      file.active = false ∧ file.instrumented = false ∧
      file.lines = ∅ ∧ file.blocks = .empty ∧ file.functions = ∅) ∧
    session.store.summary = (session.store.without path).summary ∧
    (∀ instrumentation : Instrumentation, session.observer = .instrument instrumentation →
      path ∉ instrumentation.loader.cache ∧ path ∉ instrumentation.loader.inProgress ∧
      path ∉ instrumentation.adopted ∧
      (instrumentation.loader.disk.map fun kept => kept.entriesOf path) =
        disk.map fun kept => kept.entriesOf path) ∧
    ∀ (sources : PathMap String) (request : LoadRequest) (loaded : InstrumentedModule),
      (session.intercept sources request).2 = some (.instrumented loaded) →
        loaded.path ≠ path := by
  intro session
  have passes : session.PassesOver path (disk.map fun kept => kept.entriesOf path) :=
    (passesOver_ofConfig made isFilter rejected).after steps
  refine ⟨fun file found => ?record, CoverageStore.summary_without passes.notes.noted,
    fun instrumentation observes => ?loader, fun sources request loaded served => ?served⟩
  case record =>
    obtain rfl := passes.notes.noted file found
    exact ⟨rfl, rfl, rfl, rfl, rfl⟩
  case loader =>
    have spares := passes.spares instrumentation observes
    have unadopted := passes.unadopted
    rw [adopted?, observes] at unadopted
    refine ⟨spares.uncached, spares.idle, fun member => ?_, spares.kept⟩
    exact Bool.false_ne_true ((congrArg Option.isSome unadopted).symm.trans
      (Std.ExtTreeMap.isSome_getElem?_iff_mem.mpr member))
  case served =>
    rintro rfl
    have cached := cached?_of_served passes.sound served
    have none := form?_of_spares (passes.step (.intercept sources request)).spares
    rw [form?, show (session.step (.intercept sources request)).cached? loaded.path = _ from cached]
      at none
    cases none

/-- An excluded file that is reported, loaded as a module, reported by its source identifier, and
named by an assertion. The store knows that it exists. -/
theorem passes_over_rejected_vendored :
    let config : Config := { root := "/p", excludePatterns := ["/p/vendor.lua"] }
    let path := "/p/vendor.lua"
    let sources : PathMap String := .ofList [(path, "x = 1\n")]
    let history : List SessionStep :=
      [.start, .observe sources (.hit path 1 BlockId.root),
       .intercept sources (.module "vendor"), .observe sources (.line "@vendor.lua" 1),
       .link [⟨"@vendor.lua", 1⟩], .stop sources]
    ∃ (fresh : Session) (filter : Path.Filter),
      ofConfig config .instrument none = .ok fresh ∧ Path.Filter.ofConfig config = .ok filter ∧
      filter.rule path = false ∧
      ∃ file, (fresh.after history).store.files[path]? = some file ∧ file.active = false ∧
        file.lines = ∅ ∧ (fresh.after history).store.summary = {} := by
  intro config path sources history
  obtain ⟨fresh, made, shown⟩ := exists_ok_of_view
    (show ((ofConfig config .instrument none).toOption.map fun fresh =>
      ((fresh.after history).store.files[path]?.isSome, (fresh.after history).store.summary)) =
        some (true, {}) by decide +kernel)
  obtain ⟨known, nothing⟩ := Prod.mk.inj shown
  obtain ⟨filter, isFilter, rejected⟩ := exists_ok_of_view
    (show (Path.Filter.ofConfig config).toOption.map (fun filter => filter.rule path) =
      some false by decide +kernel)
  obtain ⟨file, found⟩ := Option.isSome_iff_exists.mp known
  obtain ⟨records, -⟩ := passes_over_rejected made isFilter rejected history
  obtain ⟨inactive, -, lines, -⟩ := records file found
  exact ⟨fresh, filter, made, isFilter, rejected, file, found, inactive, lines, nothing⟩

end Session

end LuaCoverage
