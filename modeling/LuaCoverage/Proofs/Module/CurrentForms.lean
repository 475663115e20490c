import LuaCoverage.Proofs.Instrument.Sites
import LuaCoverage.Proofs.Module.FreshAnswers
import LuaCoverage.Proofs.Module.GuardedLoads
import LuaCoverage.Proofs.Module.Nesting
import LuaCoverage.Proofs.Module.StoredForms

/-!
# Files whose source stays what it is

As long as the source of a file does not change, every form that a loader has of the file is a form
of this source, with the analysis of the source under the rules of the loader, and if the form that
earlier runs have kept fits this analysis, each of them does. Every step of a load keeps this
(`Loader.Renders.isKept`), because a form is served from the cache or from what is kept, or is made
for the analysis.

Such a file is not lost again. A file is given up, or found impossible to instrument, only where
there is no form of it in the end. So once there is one, a load of the file is answered with it or
is refused without any trace: the name of the module is excluded, or the file is just being
instrumented (`Loader.Renders.reason_of_unchanged`).
-/

set_option autoImplicit false

namespace LuaCoverage

/-- Whether an instrumented file is a form of a source that fits the analysis of the source. -/
structure InstrumentedModule.Renders (settings : AnalysisSettings) (path source : String)
    (loaded : InstrumentedModule) : Prop where
  samePath : loaded.path = path
  sameSource : loaded.source = source
  contentHash : loaded.contentHash = Text.Digest.ofText source
  isAnalysis : loaded.analysis = analyze settings source path
  fits : loaded.instrumented.Fits (analyze settings source path)

namespace Loader

/-- A loader has only forms of a file that render its source, in the cache and kept from earlier
runs. It has none in the cache while it instruments the file, and has not given the file up since it
took it on. -/
structure Renders (settings : AnalysisSettings) (path source : String) (loader : Loader) :
    Prop where
  sameSettings : loader.rules.settings = settings
  cached : ∀ held : InstrumentedModule, loader.cache[path]? = some held →
    held.Renders settings path source
  stored : ∀ out : Instrumented,
    loader.stored? ⟨path, Text.Digest.ofText source, loader.rules.options.trackerName⟩ = some out →
      out.Fits (analyze settings source path)
  pending : path ∈ loader.inProgress → path ∉ loader.cache
  available : path ∈ loader.inProgress ∨ path ∈ loader.cache → path ∉ loader.aborted

/-- Whether a form is kept under a key depends on the entries of its file. -/
theorem stored?_congr {loader next : Loader} {key : CacheKey}
    (same : (next.disk.map fun disk => disk.entriesOf key.path) =
      loader.disk.map fun disk => disk.entriesOf key.path) :
    next.stored? key = loader.stored? key := by
  rw [stored?, stored?]
  cases before : loader.disk with
  | none =>
      rw [before, Option.map_none, Option.map_eq_none_iff] at same
      rw [same]
  | some disk =>
      rw [before, Option.map_some, Option.map_eq_some_iff] at same
      obtain ⟨other, isOther, same⟩ := same
      rw [isOther, Option.bind_some, Option.bind_some, SourceCache.get?_congr same]

/-- What was just stored is found again, or nothing is. -/
theorem eq_of_stored?_put {loader : Loader} {disk : SourceCache} {key : CacheKey}
    {out found : Instrumented} (keeps : loader.disk = some (disk.put key out))
    (stored : loader.stored? key = some found) : found = out := by
  rw [stored?, keeps, Option.bind_some, SourceCache.get?_put] at stored
  cases reads : SourceCache.read (SourceCache.entryOf key out) with
  | error problem =>
      rw [reads] at stored
      cases stored
  | ok other =>
      rw [reads] at stored
      obtain rfl := Option.some.inj stored
      exact SourceCache.eq_of_read_entryOf reads

namespace Renders

variable {settings : AnalysisSettings} {path source : String} {sources : PathMap String}
  {loader : Loader}

/-- **What the file is instrumented to** fits the analysis, whether it was kept or is made, and so
does what is kept then. -/
theorem produce (renders : loader.Renders settings path source) :
    let produced := loader.produce path (Text.Digest.ofText source) source
      (analyze settings source path)
    (∀ out : Instrumented, produced.2 = .ok out → out.Fits (analyze settings source path)) ∧
      ∀ out : Instrumented, produced.1.stored?
          ⟨path, Text.Digest.ofText source, loader.rules.options.trackerName⟩ = some out →
        out.Fits (analyze settings source path) := by
  unfold Loader.produce
  simp only
  split
  · rename_i out stored
    exact ⟨fun found same => Except.ok.inj same ▸ renders.stored out stored, renders.stored⟩
  · split
    · exact ⟨fun found same => (by cases same), renders.stored⟩
    · rename_i out made
      have fits : out.Fits (analyze settings source path) := fits_instrumentWith made
      refine ⟨fun found same => Except.ok.inj same ▸ fits, fun found stored => ?_⟩
      cases disk : loader.disk with
      | none =>
          rw [stored?_of_no_disk _ (congrArg (Option.map _) disk)] at stored
          cases stored
      | some disk' =>
          rw [eq_of_stored?_put (congrArg (Option.map _) disk) stored]
          exact fits

/-- The form of the file that is in the cache is found there under the digest of the source. -/
theorem cached?_eq (renders : loader.Renders settings path source) :
    loader.cached? path (Text.Digest.ofText source) = loader.cache[path]? := by
  rw [cached?]
  cases found : loader.cache[path]? with
  | none => rfl
  | some held =>
      rw [Option.filter_some, if_pos (beq_iff_eq.mpr (renders.cached held found).contentHash)]

theorem not_mem_cache_of_wants (renders : loader.Renders settings path source)
    (wants : loader.Wants sources path source) : path ∉ loader.cache := fun cached =>
  have none := renders.cached?_eq.symm.trans wants.uncached
  Bool.false_ne_true ((congrArg Option.isSome none).symm.trans
    (Std.ExtTreeMap.isSome_getElem?_iff_mem.mpr cached))

/-- **Finishing the file** leaves a form that fits. -/
theorem finish_self (renders : loader.Renders settings path source)
    (entered : path ∈ loader.inProgress) (left : path ∉ loader.inProgress.tail) (name : String) :
    (loader.finish name path source (analyze settings source path)).1.Renders settings path
      source := by
  obtain ⟨produced, stored⟩ := renders.produce
  obtain ⟨rules, inProgress, aborted⟩ := loader.finish_frame name path source
    (analyze settings source path)
  obtain ⟨disk, ended⟩ := loader.finish_produce name path source (analyze settings source path)
  refine ⟨rules ▸ renders.sameSettings, fun held cached => ?cached, fun out isStored => ?stored,
    fun again => absurd (inProgress ▸ again) left,
    fun _ => aborted ▸ renders.available (.inl entered)⟩
  case cached =>
    rcases loader.finish_cases name path source (analyze settings source path) with
      ⟨cache, -⟩ | ⟨out, finished, cache⟩
    · exact renders.cached held (cache ▸ cached)
    · rw [cache, Std.ExtTreeMap.getElem?_insert_self] at cached
      obtain rfl := Option.some.inj cached
      refine ⟨rfl, rfl, rfl, rfl, produced out ?_⟩
      rw [finished] at ended
      split at ended
      · cases ended
      · rename_i made same
        rw [same]
        exact congrArg (fun loaded => Except.ok loaded.instrumented) (Except.ok.inj ended).symm
  case stored =>
    rw [rules] at isStored
    exact stored out ((stored?_congr (by rw [disk])).symm.trans isStored)

/-- Finishing another file leaves this one alone. -/
theorem finish_of_ne (renders : loader.Renders settings path source) {other : String}
    (apart : other ≠ path) (name text : String) (analysis : Analysis) :
    (loader.finish name other text analysis).1.Renders settings path source := by
  obtain ⟨rules, inProgress, aborted⟩ := loader.finish_frame name other text analysis
  have cache : (loader.finish name other text analysis).1.cache[path]? = loader.cache[path]? := by
    rcases loader.finish_cases name other text analysis with ⟨same, -⟩ | ⟨out, -, same⟩
    · rw [same]
    · rw [same, getElem?_insert_of_ne apart]
  refine ⟨rules ▸ renders.sameSettings, fun held cached => renders.cached held (cache ▸ cached),
    fun out stored => ?stored, fun entered => ?pending, fun known => ?available⟩
  case pending =>
    rw [inProgress] at entered
    rw [Std.ExtTreeMap.mem_iff_isSome_getElem?, cache, ← Std.ExtTreeMap.mem_iff_isSome_getElem?]
    exact renders.pending (List.mem_of_mem_tail entered)
  case stored =>
    rw [rules] at stored
    refine renders.stored out ((stored?_congr ?_).symm.trans stored)
    rw [(loader.finish_produce name other text analysis).1, entriesOf_produce_of_ne loader apart]
  case available =>
    rw [aborted]
    rw [inProgress, Std.ExtTreeMap.mem_iff_isSome_getElem?, cache,
      ← Std.ExtTreeMap.mem_iff_isSome_getElem?] at known
    exact renders.available (known.imp_left List.mem_of_mem_tail)

/-- **Loads have only forms that render the source** of a file, while it stays what it is. -/
theorem isKept (reads : ∀ text : String, sources[path]? = some text → text = source) :
    IsKept sources (Renders settings path source) where
  skip renders := { renders with }
  reuse renders := { renders with }
  resolve renders name := by
    unfold Loader.resolve
    split <;> exact { renders with }
  abort {loader other text} renders wants := by
    refine { renders with available := fun known member => ?_ }
    rcases Std.ExtTreeSet.mem_insert.mp member with same | before
    · obtain rfl := Std.LawfulEqCmp.eq_of_compare same
      obtain rfl := reads text wants.readable
      exact known.elim wants.idle (renders.not_mem_cache_of_wants wants)
    · exact renders.available known before
  enter {loader other text} renders wants := by
    refine { renders with pending := fun entered => ?pending, available := fun known => ?available }
    case pending =>
      rcases List.mem_cons.mp entered with rfl | before
      · obtain rfl := reads text wants.readable
        exact renders.not_mem_cache_of_wants wants
      · exact renders.pending before
    case available =>
      rcases known with entered | cached
      · rcases List.mem_cons.mp entered with rfl | before
        · exact wants.notGivenUp
        · exact renders.available (.inl before)
      · exact renders.available (.inr cached)
  finish {loader prepared other text} renders wants inside ready name := by
    by_cases here : other = path
    · subst here
      obtain rfl := reads text wants.readable
      rw [renders.sameSettings]
      exact ready.finish_self (inside.inProgress_eq ▸ List.mem_cons_self)
        (inside.inProgress_eq ▸ wants.idle) name
    · exact ready.finish_of_ne here name text _

/-! ## Answers -/

/-- A file that comes to nothing is just being instrumented, or there is no form of it. -/
theorem reentrant_or_uncached (renders : loader.Renders settings path source)
    (reads : ∀ text : String, sources[path]? = some text → text = source)
    (tracked : loader.rules.filter.rule path = true) (readable : sources[path]? = some source)
    {room : Nat} {name : String} {reason : UnchangedReason}
    (refused : (instrumentFile sources room loader name path source).2 = .error reason) :
    reason = .reentrant ∨ path ∉ (instrumentFile sources room loader name path source).1.cache := by
  have kept : IsKept sources (Renders settings path source) := isKept reads
  rw [instrumentFile_eq] at refused ⊢
  by_cases givenUp : loader.aborted.contains path = true
  · rw [if_pos givenUp]
    exact .inr fun cached => renders.available (.inr cached)
      (Std.ExtTreeSet.contains_iff_mem.mp givenUp)
  rw [if_neg givenUp] at refused ⊢
  by_cases busy : loader.inProgress.contains path = true
  · rw [if_pos busy] at refused
    exact .inl (Except.error.inj refused).symm
  rw [if_neg busy] at refused ⊢
  cases uncached : loader.cached? path (Text.Digest.ofText source) with
  | some loaded =>
      rw [uncached] at refused
      cases refused
  | none =>
      have wants : loader.Wants sources path source := ⟨tracked, readable,
        fun member => givenUp (Std.ExtTreeSet.contains_iff_mem.mpr member),
        fun member => busy (List.contains_iff_mem.mpr member), uncached⟩
      rw [uncached] at refused
      cases room with
      | zero => exact .inr (renders.not_mem_cache_of_wants wants)
      | succ inner =>
          let analysis := analyze loader.rules.settings source path
          have inside : Loads sources (loader.enter path)
              (loader.prepare sources inner path analysis) :=
            loads_loadRequirements (loads_instrumentFile inner) (loader.enter path) analysis
          have ready := kept.loadRequirements (fun _ name _ _ before tracked readable =>
            kept.instrumentFile inner name before tracked readable)
            (kept.enter renders wants) analysis
          rcases finish_cases (loader.prepare sources inner path analysis) name path source
            analysis with ⟨cache, -⟩ | ⟨out, finished, -⟩
          · refine .inr ?_
            show path ∉ ((loader.prepare sources inner path analysis).finish name path source
              analysis).1.cache
            rw [cache]
            exact ready.pending (inside.inProgress_eq ▸ List.mem_cons_self)
          · exact nomatch finished.symm.trans refused

/-- **A load of a file is refused without a trace, or there is no form of the file in the end.** -/
theorem reason_of_unchanged (renders : loader.Renders settings path source)
    (reads : ∀ text : String, sources[path]? = some text → text = source)
    {request : LoadRequest} {name text : String} {reason : UnchangedReason}
    (answered : (loader.answer sources request).2 = .unchanged name path text reason)
    (cached : path ∈ (loader.answer sources request).1.cache) :
    reason = .excluded ∨ reason = .reentrant := by
  have found : ∀ {loader : Loader} {name' path' : String},
      loader.Renders settings path source →
      (loader.loadFound sources name' path').2 = .unchanged name path text reason →
      path ∈ (loader.loadFound sources name' path').1.cache →
        reason = .excluded ∨ reason = .reentrant := by
    intro loader name' path' renders answered cached
    rw [loadFound] at answered cached
    cases readable : sources[path']? with
    | none =>
        rw [readable] at answered
        cases answered
    | some text' =>
        rw [readable] at answered cached
        simp only at answered cached
        by_cases unwanted : (loader.rules.isExcluded name' ||
            !loader.rules.filter.rule path') = true
        · rw [if_pos unwanted] at answered
          cases answered
          exact .inl rfl
        · rw [if_neg unwanted] at answered cached
          generalize ended : loader.instrumentFile sources loader.room name' path' text' = outcome
            at answered cached
          obtain ⟨next, loaded | refusal⟩ := outcome
          · cases answered
            obtain rfl := reads text readable
            have tracked : loader.rules.filter.rule path = true := by
              rw [Bool.or_eq_true, not_or, Bool.not_eq_true', Bool.not_eq_false] at unwanted
              exact unwanted.2
            rcases renders.reentrant_or_uncached reads tracked readable (congrArg Prod.snd ended)
              with same | uncached
            · exact .inr same
            · rw [ended] at uncached
              exact absurd cached uncached
          · cases answered
  cases request with
  | file file => exact found renders answered cached
  | module required =>
      rw [answer, load] at answered cached
      have resolved := (isKept reads).resolve renders required
      generalize loader.resolve sources required = outcome at answered cached resolved
      obtain ⟨next, _ | path'⟩ := outcome
      · cases answered
      · exact found resolved answered cached

end Renders

end Loader

end LuaCoverage
