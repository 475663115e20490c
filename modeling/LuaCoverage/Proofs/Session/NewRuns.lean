import LuaCoverage.Proofs.Module.Lockstep
import LuaCoverage.Proofs.Module.Nesting
import LuaCoverage.Proofs.Session.AdoptedForms
import Mathlib.Algebra.Order.BigOperators.Group.List
import Mathlib.Algebra.Order.Group.Nat

/-!
# What a new run takes over

Starting a run drops what an earlier run found. The loader of an instrumenting session is kept, and
with it the instrumented forms in its cache, the files that were given up, and where modules were
found. Here a session that is started again is compared with one that is made anew
(`Session.run`): both are given the same sources and the same events, loads and assertions.

As long as nothing is loaded, they find the same, because nothing but a load asks the loader
(`Session.Alongside.along`). A load brings the recording up to date with all that the loader has,
so the files of earlier runs come up again with the first load of a new one
(`Instrumentation.mem_files_catchUp`). Where the sources have the modules at the places where they
were found before, this is the only difference: both sessions find the same in every run exactly if
the loader has no form in its cache and has given up no file
(`Session.run_eq_iff_nothing_loaded`). In particular a file that was loaded in an earlier run is in
the report of a run that never mentions it (`Session.run_after_loading`).
-/

set_option autoImplicit false

namespace LuaCoverage

/-! ## Loaders that were made at different times -/

namespace Loader

/-- Whether a loader would find its modules again where it has found them, in some sources. -/
def ResolvesIn (sources : PathMap String) (loader : Loader) : Prop :=
  ∀ (name : String) (found : Option String), loader.resolved[name]? = some found →
    found = (loader.rules.candidates name).find? fun path => sources.contains path

/-- A loader without what it has resolved and what it has counted. -/
def core (loader : Loader) : Loader := { loader with resolved := ∅, stats := {} }

/-- Two loaders differ at most in which modules they have looked for and in what they have counted,
and have found them where they are. -/
structure Twins (sources : PathMap String) (first second : Loader) : Prop where
  core : first.core = second.core
  resolves : first.ResolvesIn sources
  resolves' : second.ResolvesIn sources

section Twins

variable {sources : PathMap String} {first second loader : Loader}

theorem ResolvesIn.resolve (resolves : loader.ResolvesIn sources) (name : String) :
    (loader.resolve sources name).1.ResolvesIn sources ∧
      (loader.resolve sources name).1.core = loader.core ∧
      (loader.resolve sources name).2 =
        (loader.rules.candidates name).find? fun path => sources.contains path := by
  unfold Loader.resolve
  cases known : loader.resolved[name]? with
  | some found => exact ⟨resolves, rfl, resolves name found known⟩
  | none =>
      refine ⟨fun other found isFound => ?_, rfl, rfl⟩
      rw [Std.ExtTreeMap.getElem?_insert] at isFound
      split at isFound
      · rename_i same
        obtain rfl := Std.LawfulEqCmp.eq_of_compare same
        exact (Option.some.inj isFound).symm
      · exact resolves other found isFound

/-- Finishing a file does not depend on what was resolved and counted. -/
theorem core_finish (loader : Loader) (name path text : String) (analysis : Analysis) :
    (loader.finish name path text analysis).1.core =
        (loader.core.finish name path text analysis).1.core ∧
      (loader.finish name path text analysis).2 =
        (loader.core.finish name path text analysis).2 := by
  let key : CacheKey := ⟨path, Text.Digest.ofText text, loader.rules.options.trackerName⟩
  have stored : loader.core.stored? key = loader.stored? key := rfl
  unfold finish produce
  simp only
  rw [show loader.core.rules = loader.rules from rfl, stored]
  cases loader.stored? key with
  | some out => exact ⟨rfl, rfl⟩
  | none =>
      simp only
      cases instrumentWith loader.rules.options text path analysis with
      | error problem => exact ⟨rfl, rfl⟩
      | ok out => exact ⟨rfl, rfl⟩

theorem ResolvesIn.finish (resolves : loader.ResolvesIn sources) (name path text : String)
    (analysis : Analysis) :
    (loader.finish name path text analysis).1.ResolvesIn sources := by
  intro other found isFound
  rw [resolved_finish] at isFound
  rw [(finish_frame loader name path text analysis).1]
  exact resolves other found isFound

/-- A change that neither reads nor writes what is resolved and counted. -/
theorem Twins.change (twins : Twins sources first second) (change : Loader → Loader)
    (same : ∀ loader : Loader, (change loader).core = (change loader.core).core)
    (keeps : ∀ loader : Loader, (change loader).resolved = loader.resolved ∧
      (change loader).rules = loader.rules) : Twins sources (change first) (change second) := by
  have resolves (loader : Loader) (before : loader.ResolvesIn sources) :
      (change loader).ResolvesIn sources := by
    intro name found isFound
    rw [(keeps loader).1] at isFound
    rw [(keeps loader).2]
    exact before name found isFound
  exact ⟨by rw [same, same second, twins.core], resolves first twins.resolves,
    resolves second twins.resolves'⟩

/-- **Twins take every step of a load together.** -/
theorem Twins.isLockstep : IsLockstep sources (Twins sources) where
  rules twins := (congrArg Loader.rules twins.core :)
  inProgress twins := (congrArg Loader.inProgress twins.core :)
  aborted twins := (congrArg Loader.aborted twins.core :)
  cache twins := (congrArg Loader.cache twins.core :)
  skip twins := twins.change Loader.skip (fun _ => rfl) fun _ => ⟨rfl, rfl⟩
  reuse twins := twins.change Loader.reuse (fun _ => rfl) fun _ => ⟨rfl, rfl⟩
  enter twins path :=
    twins.change (fun loader => loader.enter path) (fun _ => rfl) fun _ => ⟨rfl, rfl⟩
  abort twins path :=
    twins.change (fun loader => loader.abort path) (fun _ => rfl) fun _ => ⟨rfl, rfl⟩
  resolve {first second} twins name := by
    obtain ⟨resolves, core, found⟩ := twins.resolves.resolve name
    obtain ⟨resolves', core', found'⟩ := twins.resolves'.resolve name
    have rules : first.rules = second.rules := (congrArg Loader.rules twins.core :)
    exact ⟨by rw [found, found', rules], (core.trans twins.core).trans core'.symm, resolves,
      resolves'⟩
  finish {first second} twins name path text analysis _ _ := by
    obtain ⟨core, outcome⟩ := first.core_finish name path text analysis
    obtain ⟨core', outcome'⟩ := second.core_finish name path text analysis
    rw [twins.core] at core outcome
    exact ⟨outcome.trans outcome'.symm, core.trans core'.symm,
      twins.resolves.finish name path text analysis,
      twins.resolves'.finish name path text analysis⟩

end Twins

end Loader

/-! ## What a load brings up -/

namespace Instrumentation

section CatchUp

variable {first second : Instrumentation}

/-- Adopting goes by what was adopted before, and leaves the loader alone. -/
theorem foldl_adopt_congr (same : first.adopted = second.adopted)
    (forms : List InstrumentedModule) (recording : Recording) :
    (forms.foldl adopt (first, recording)).2 = (forms.foldl adopt (second, recording)).2 ∧
      (forms.foldl adopt (first, recording)).1.adopted =
        (forms.foldl adopt (second, recording)).1.adopted := by
  induction forms generalizing first second recording with
  | nil => exact ⟨rfl, same⟩
  | cons loaded rest ih =>
      rw [List.foldl_cons, List.foldl_cons, adopt, adopt, same]
      split
      · exact ih same recording
      · exact @ih ⟨first.loader, _⟩ ⟨second.loader, _⟩ rfl _

/-- **Catching up goes by the cache, the files given up and what was adopted.** -/
theorem catchUp_congr (same : first.adopted = second.adopted)
    (cache : first.loader.cache = second.loader.cache)
    (aborted : first.loader.aborted = second.loader.aborted) (recording : Recording) :
    (first.catchUp recording).2 = (second.catchUp recording).2 ∧
      (first.catchUp recording).1.adopted = (second.catchUp recording).1.adopted := by
  obtain ⟨recordings, adopted⟩ := foldl_adopt_congr same first.loader.cache.values recording
  have loader := first.loader_catchUp recording
  have loader' := second.loader_catchUp recording
  unfold catchUp at loader loader' ⊢
  rw [← cache] at loader' ⊢
  simp only at loader loader' ⊢
  rw [loader, loader', aborted, recordings]
  exact ⟨rfl, adopted⟩

theorem record_congr (same : first.adopted = second.adopted) : first.record = second.record := by
  have continuation : first.continuation = second.continuation := by
    funext file line block
    rw [Instrumentation.continuation, Instrumentation.continuation, same]
  funext recording sources event
  cases event <;> simp only [record, continuation]

end CatchUp

end Instrumentation

/-! ## Two sessions side by side -/

/-- Two sessions differ at most in their loaders, which are related in a given way. -/
structure Session.Alongside (related : Loader → Loader → Prop) (first second : Session) : Prop where
  recording : first.recording = second.recording
  running : first.running = second.running
  observers : ∃ own other : Instrumentation, first.observer = .instrument own ∧
    second.observer = .instrument other ∧ own.adopted = other.adopted ∧
    related own.loader other.loader

namespace Session.Alongside

variable {related : Loader → Loader → Prop} {first second : Session} {sources : PathMap String}

/-- An event does not ask the loader. -/
theorem observe (alongside : Alongside related first second) (event : Event) :
    Alongside related (first.observe sources event) (second.observe sources event) := by
  obtain ⟨recording, running, own, other, observer, observer', adopted, loaders⟩ := alongside
  unfold Session.observe
  rw [running]
  split
  · refine ⟨?_, rfl, own, other, observer, observer', adopted, loaders⟩
    rw [observer, observer', recording]
    exact congrFun (congrFun (congrFun (Instrumentation.record_congr adopted) _) sources) event
  · exact ⟨recording, running, own, other, observer, observer', adopted, loaders⟩

/-- An assertion does not ask the loader. -/
theorem link (alongside : Alongside related first second) (frames : List Frame) :
    Alongside related (first.link frames).1 (second.link frames).1 := by
  obtain ⟨recording, running, own, other, observer, observer', adopted, loaders⟩ := alongside
  refine ⟨?_, running, own, other, observer, observer', adopted, loaders⟩
  have targets : first.target? = second.target? := by
    funext frame
    simp only [target?, frameFile?, observer, observer', recording, Observer.sourceLine?,
      Instrumentation.sourceLine?, adopted]
  rw [Session.link, Session.link, Session.store, Session.store, targets, recording]

/-- **A load** is answered alike by loaders that take every step together, and comes to the same. -/
theorem intercept (lockstep : Loader.IsLockstep sources related)
    (alongside : Alongside related first second) (request : LoadRequest) :
    Alongside related (first.intercept sources request).1
      (second.intercept sources request).1 := by
  obtain ⟨recording, running, own, other, observer, observer', adopted, loaders⟩ := alongside
  obtain ⟨answers, after⟩ := lockstep.answer loaders request
  obtain ⟨recordings, same⟩ := @Instrumentation.catchUp_congr
    ⟨(own.loader.answer sources request).1, own.adopted⟩
    ⟨(other.loader.answer sources request).1, other.adopted⟩
    adopted (lockstep.cache after) (lockstep.aborted after) first.recording
  rw [Loader.intercept_eq_answer first own observer,
    Loader.intercept_eq_answer second other observer', ← recording]
  refine ⟨?_, running, _, _, rfl, rfl, same, ?_⟩
  · exact congrArg₂ Instrumentation.noteUnchanged recordings answers
  · simp only [Instrumentation.intercept, Instrumentation.loader_catchUp]
    exact after

/-- **A run** comes to the same, if each of its loads is answered alike. -/
theorem along (alongside : Alongside related first second) (entries : List ScriptEntry)
    (lockstep : (∃ request, .load request ∈ entries) → Loader.IsLockstep sources related) :
    Alongside related (first.along (entries.map (Moment.mk sources)))
      (second.along (entries.map (Moment.mk sources))) := by
  induction entries generalizing first second with
  | nil => exact alongside
  | cons entry rest ih =>
      have next : Alongside related (first.replayEntry sources entry)
          (second.replayEntry sources entry) := by
        cases entry with
        | report event => exact alongside.observe event
        | load request =>
            exact alongside.intercept (lockstep ⟨request, List.mem_cons_self⟩) request
        | assertion frames => exact alongside.link frames
      refine ih next fun loads => lockstep ?_
      obtain ⟨request, member⟩ := loads
      exact ⟨request, List.mem_cons_of_mem entry member⟩

end Session.Alongside

/-- The store and the report of a session that is started, given the entries of a script, and
stopped. -/
def Session.run (session : Session) (sources : PathMap String) (entries : List ScriptEntry) :
    CoverageStore × RunReport :=
  let stopped := (session.through (entries.map (Moment.mk sources))).stop sources
  (stopped.1.store, stopped.2)

/-- Sessions side by side find the same, if each load is answered alike. -/
theorem Session.Alongside.run_eq {related : Loader → Loader → Prop} {first second : Session}
    {sources : PathMap String} (alongside : Alongside related first.start.1 second.start.1)
    (entries : List ScriptEntry)
    (lockstep : (∃ request, .load request ∈ entries) → Loader.IsLockstep sources related) :
    first.run sources entries = second.run sources entries := by
  have recording := (alongside.along entries lockstep).recording
  rw [Session.run, Session.run, through, through, stop, stop, recording]
  rfl

/-! ## Files of earlier runs -/

namespace CoverageStore

/-- No operation drops a file. -/
theorem mem_files_apply {store : CoverageStore} {path : String} (known : path ∈ store.files)
    (operation : StoreOperation) : path ∈ (store.apply operation).1.files := by
  rw [Std.ExtTreeMap.mem_iff_isSome_getElem?] at known ⊢
  obtain ⟨file, found⟩ := Option.isSome_iff_exists.mp known
  rw [getElem?_apply, found]
  cases operation.changeAt path <;> rfl

theorem Leads.mem_files {settings : AnalysisSettings} {before after : CoverageStore}
    (leads : before.Leads settings after) {path : String} (known : path ∈ before.files) :
    path ∈ after.files := by
  induction leads with
  | refl => exact known
  | tail _ step ih =>
      obtain ⟨operation, -, rfl⟩ := step
      exact mem_files_apply ih operation

end CoverageStore

namespace Instrumentation

variable {instrumentation : Instrumentation}

/-- What is adopted is in the store. -/
theorem mem_files_foldl_adopt (forms : List InstrumentedModule) (recording : Recording)
    (known : ∀ path ∈ instrumentation.adopted, path ∈ recording.store.files) :
    ∀ path ∈ (forms.foldl adopt (instrumentation, recording)).1.adopted,
      path ∈ (forms.foldl adopt (instrumentation, recording)).2.store.files := by
  refine List.foldlRecOn (motive := fun progress : Instrumentation × Recording =>
    ∀ path ∈ progress.1.adopted, path ∈ progress.2.store.files) forms adopt known ?_
  rintro ⟨current, reached⟩ known loaded - path member
  rw [adopt] at member ⊢
  split at member
  · rename_i before
    rw [if_pos before]
    exact known path member
  · rename_i new
    rw [if_neg new]
    refine CoverageStore.mem_files_apply ?_ (.markInstrumented loaded.path)
    rcases Std.ExtTreeMap.mem_insert.mp member with same | before
    · obtain rfl := Std.LawfulEqCmp.eq_of_compare same
      exact Std.ExtTreeMap.mem_insert_self
    · exact CoverageStore.mem_files_apply (known path before)
        (.track loaded.path loaded.source loaded.analysis)

/-- Noting a file that was given up keeps all files, and has it in the store afterwards. -/
theorem mem_files_noteAborted (recording : Recording) (aborted : String) {path : String}
    (known : path = aborted ∨ path ∈ recording.store.files) :
    path ∈ (noteAborted recording aborted).store.files := by
  unfold noteAborted
  split
  · rename_i present
    rcases known with rfl | known
    · exact Std.ExtTreeMap.contains_iff_mem.mp present
    · exact known
  · refine CoverageStore.mem_files_apply ?_ (.rate aborted .untracked)
    rcases known with rfl | known
    · exact Std.ExtTreeMap.mem_insert_self
    · exact CoverageStore.mem_files_apply known (.note aborted)

theorem mem_files_foldl_noteAborted (paths : List String) (recording : Recording) {path : String}
    (known : path ∈ paths ∨ path ∈ recording.store.files) :
    path ∈ (paths.foldl noteAborted recording).store.files := by
  induction paths generalizing recording with
  | nil => exact known.resolve_left List.not_mem_nil
  | cons first rest ih =>
      refine ih (noteAborted recording first) ?_
      rcases known with member | known
      · rcases List.mem_cons.mp member with rfl | later
        · exact .inr (mem_files_noteAborted recording _ (.inl rfl))
        · exact .inl later
      · exact .inr (mem_files_noteAborted recording first (.inr known))

/-- **A load brings up every file that the loader has instrumented or given up.** -/
theorem mem_files_catchUp (sound : instrumentation.loader.CacheSound) (recording : Recording)
    (known : ∀ path ∈ instrumentation.adopted, path ∈ recording.store.files) {path : String}
    (loaded : path ∈ instrumentation.loader.cache ∨ path ∈ instrumentation.loader.aborted) :
    path ∈ (instrumentation.catchUp recording).2.store.files := by
  have loader := instrumentation.loader_catchUp recording
  unfold catchUp at loader ⊢
  simp only at loader ⊢
  rw [loader]
  refine mem_files_foldl_noteAborted _ _ ?_
  rcases loaded with cached | aborted
  · refine .inr (mem_files_foldl_adopt _ _ known path ?_)
    rw [Std.ExtTreeMap.mem_iff_isSome_getElem?, adopted_foldl_adopt, sound.find?_values]
    obtain ⟨form, isForm⟩ := Option.isSome_iff_exists.mp
      (Std.ExtTreeMap.mem_iff_isSome_getElem?.mp cached)
    rw [isForm]
    cases instrumentation.adopted[path]? <;> rfl
  · exact .inl (Std.ExtTreeSet.mem_toList.mpr aborted)

end Instrumentation

/-- Nothing comes up from a loader that has nothing. -/
theorem Instrumentation.catchUp_of_empty {instrumentation : Instrumentation}
    (cache : instrumentation.loader.cache = ∅) (aborted : instrumentation.loader.aborted = ∅)
    (recording : Recording) :
    instrumentation.catchUp recording = (instrumentation, recording) := by
  have forms : (∅ : PathMap InstrumentedModule).values = [] := rfl
  have paths : (∅ : Std.ExtTreeSet String).toList = [] := rfl
  rw [catchUp, cache, forms, List.foldl_nil]
  simp only [aborted, paths, List.foldl_nil]

/-! ## A file that is not there -/

namespace Path

/-- A file at the top of the file system, with a name of any length. -/
def topFile (length : Nat) : List Char := '/' :: List.replicate (length + 1) 'a'

theorem normalize_topFile (root : String) (length : Nat) :
    normalize root (String.ofList (topFile length)) = String.ofList (topFile length) := by
  let name := List.replicate (length + 1) 'a'
  have slashes : forwardSlashes (topFile length) = topFile length := by
    rw [forwardSlashes, topFile, List.map_cons, List.map_replicate]
    rfl
  have parts : segments (topFile length) = [[], name] := by
    have free : ∀ part ∈ [[], name], '/' ∉ part := by
      intro part member
      rcases List.mem_pair.mp member with rfl | rfl
      · exact List.not_mem_nil
      · exact fun inside => absurd (List.eq_of_mem_replicate inside) (by decide)
    have joined : ['/'].intercalate [[], name] = topFile length := by
      rw [List.intercalate, List.intersperse_cons_cons, List.intersperse_singleton]
      exact congrArg ('/' :: ·) (List.append_nil name)
    rw [segments, ← joined]
    exact List.splitOn_intercalate '/' free (List.cons_ne_nil _ _)
  have folded : foldSegments (topFile length) = [name] := by
    have first : foldSegment [] [] = [] := if_pos (.inl rfl)
    rw [foldSegments, parts, List.foldl_cons, first, List.foldl_cons, List.foldl_nil, foldSegment,
      if_neg, if_neg]
    · rfl
    · exact fun same => absurd (List.cons.inj same).1 (by decide)
    · rintro (same | same)
      · exact List.cons_ne_nil _ _ same
      · exact absurd (List.cons.inj same).1 (by decide)
  have absolute : isAbsolute (topFile length) = true := rfl
  rw [normalize, normalChars, String.toList_ofList, slashes, joined, if_pos absolute, folded]
  exact congrArg (fun chars => String.ofList ('/' :: chars)) (List.append_nil name)

/-- Some file is not among given sources. -/
theorem exists_missing (sources : PathMap String) (root : String) :
    ∃ file, sources[normalize root file]? = none := by
  let longest := (sources.keys.map String.length).sum
  refine ⟨String.ofList (topFile longest), ?_⟩
  rw [normalize_topFile]
  refine Std.ExtTreeMap.getElem?_eq_none fun inside => ?_
  have member := List.mem_map_of_mem (f := String.length) (Std.ExtTreeMap.mem_keys.mpr inside)
  have short : (String.ofList (topFile longest)).length ≤ longest := List.le_sum_of_mem member
  rw [String.length_ofList, topFile, List.length_cons, List.length_replicate] at short
  omega

end Path

/-! ## Runs after a history -/

namespace Session

variable {config : Config} {disk : Option SourceCache} {session : Session}

/-- Sessions of a configuration differ only in what is kept between runs. -/
theorem exists_new (made : ofConfig config .instrument disk = .ok session) :
    ∃ rules tracking, (∀ other, ofConfig config .instrument other = .ok
        { observer := .instrument { loader := { rules := rules, disk := other } }
          recording := { rules := tracking } }) ∧
      session = { observer := .instrument { loader := { rules := rules, disk := disk } }
                  recording := { rules := tracking } } := by
  obtain ⟨observer, observed, made⟩ := exists_ok_of_bind made
  obtain ⟨loader, loaded, observed⟩ := exists_ok_of_bind observed
  obtain ⟨rules, ruled, rfl⟩ := Loader.exists_rules_of_ofConfig loaded
  obtain rfl := Except.ok.inj observed
  split at made
  · cases made
  · rename_i absolute
    obtain ⟨filter, filtered, made⟩ := exists_ok_of_bind made
    refine ⟨rules, ⟨config.root, filter, config.analysisSettings⟩, fun other => ?_,
      (Except.ok.inj made).symm⟩
    have isAbsolute : Path.isAbsolute config.root.toList = true := by simpa using absolute
    rw [ofConfig, Observer.ofConfig, Loader.ofConfig, ruled, filtered, isAbsolute]
    rfl

/-- A session as it is between the steps of a history: what it holds was made by it, it still goes
by its rules, and its loader is idle. -/
structure GoesBy (rules : LoaderRules) (tracking : TrackingRules) (session : Session) : Prop where
  sound : session.Sound
  tracking : session.recording.rules = tracking
  loader : ∃ instrumentation : Instrumentation, session.observer = .instrument instrumentation ∧
    instrumentation.loader.rules = rules ∧ instrumentation.loader.inProgress = []

section GoesBy

variable {rules : LoaderRules} {tracking : TrackingRules}

theorem GoesBy.step (goesBy : session.GoesBy rules tracking) (next : SessionStep) :
    (session.step next).GoesBy rules tracking := by
  obtain ⟨sound, isTracking, own, observer, isRules, idle⟩ := goesBy
  refine ⟨sound.step next, ?_, ?_⟩
  · by_cases starts : next = .start
    · subst starts
      exact isTracking
    · exact (sound.advances_step starts).rules.trans isTracking
  · have advances := session.advancesBy_step next
    rw [observer] at advances
    generalize (session.step next).observer = reached at advances
    obtain _ | loads := advances
    exact ⟨_, rfl, loads.rules_eq.trans isRules, loads.inProgress_eq.trans idle⟩

/-- **A session goes by the same rules after every history**, and its loader is idle. -/
theorem GoesBy.after (goesBy : session.GoesBy rules tracking) (history : List SessionStep) :
    (session.after history).GoesBy rules tracking :=
  List.foldlRecOn (motive := GoesBy rules tracking) history Session.step goesBy
    fun _ goesBy next _ => goesBy.step next

/-- A load that finds no file brings up what the loader has, and nothing else. -/
theorem intercept_missing {instrumentation : Instrumentation}
    (observer : session.observer = .instrument instrumentation) {sources : PathMap String}
    {file : String}
    (missing : sources[Path.normalize instrumentation.loader.rules.root file]? = none) :
    (session.intercept sources (.file file)).1.recording =
      (instrumentation.catchUp session.recording).2 := by
  have answered : instrumentation.loader.answer sources (.file file) =
      (instrumentation.loader, .notFound (Path.normalize instrumentation.loader.rules.root file)
        [Path.normalize instrumentation.loader.rules.root file]) := by
    rw [Loader.answer, Loader.loadFile, Loader.loadFound, missing]
  rw [Loader.intercept_eq_answer session instrumentation observer, Instrumentation.intercept,
    answered]
  rfl

/-- Stopping a run keeps every file. -/
theorem mem_files_stop (session : Session) (sources : PathMap String) {path : String}
    (known : path ∈ session.store.files) : path ∈ (session.stop sources).1.store.files := by
  have retried := (session.recording.advances_analyzeProvisional sources).store.mem_files known
  rw [Std.ExtTreeMap.mem_iff_isSome_getElem?] at retried ⊢
  rw [getElem?_files_stop, Option.isSome_map]
  exact retried

/-- Stopping a run that found no file finds none. -/
theorem files_stop_of_empty {session : Session} (nothing : session.recording.store = .empty)
    (sources : PathMap String) : (session.stop sources).1.store.files = ∅ := by
  have retried : session.recording.analyzeProvisional sources = session.recording := by
    rw [Recording.analyzeProvisional, nothing]
    rfl
  refine Std.ExtTreeMap.ext_getElem? fun path => ?_
  rw [getElem?_files_stop, retried, nothing]
  rfl

/-- A run in which a file is asked for that is not there: what the loader has is in its store, and
nothing else is. -/
theorem files_run_missing {instrumentation : Instrumentation}
    (observer : session.observer = .instrument instrumentation)
    (sound : instrumentation.loader.CacheSound) {sources : PathMap String} {file : String}
    (missing : sources[Path.normalize instrumentation.loader.rules.root file]? = none) :
    (∀ path : String, path ∈ instrumentation.loader.cache ∨ path ∈ instrumentation.loader.aborted →
        path ∈ (session.run sources [.load (.file file)]).1.files) ∧
      (instrumentation.loader.cache = ∅ → instrumentation.loader.aborted = ∅ →
        (session.run sources [.load (.file file)]).1.files = ∅) := by
  have started : session.start.1.observer = .instrument instrumentation.cleared := by
    rw [start, observer]
    rfl
  have recording := intercept_missing started missing
  refine ⟨fun path loaded => mem_files_stop _ sources ?_, fun cache aborted => ?_⟩
  · show path ∈ (session.start.1.intercept sources (.file file)).1.recording.store.files
    have cleared : instrumentation.cleared.loader.CacheSound := sound
    rw [recording]
    refine Instrumentation.mem_files_catchUp cleared _ (fun other adopted => ?_) loaded
    exact absurd adopted Std.ExtTreeMap.not_mem_empty
  · refine files_stop_of_empty ?_ sources
    show (session.start.1.intercept sources (.file file)).1.recording.store = .empty
    have cache' : instrumentation.cleared.loader.cache = ∅ := cache
    have aborted' : instrumentation.cleared.loader.aborted = ∅ := aborted
    rw [recording, Instrumentation.catchUp_of_empty cache' aborted']
    rfl

/-- **What a new run takes over from the runs before it.** A session was made and has gone through
any history. It is compared with a session that is made now of the same configuration, with what the
first one keeps between runs. If nothing is loaded, a run of both finds the same. If the sources
have the modules where they were found before, both find the same in every run exactly if the loader
of the first session has no form in its cache and has given up no file. -/
theorem run_eq_iff_nothing_loaded (made : ofConfig config .instrument disk = .ok session)
    (history : List SessionStep) {instrumentation : Instrumentation}
    (observer : (session.after history).observer = .instrument instrumentation) {fresh : Session}
    (made' : ofConfig config .instrument (session.after history).disk = .ok fresh)
    (sources : PathMap String) :
    (∀ entries : List ScriptEntry, (∀ request, .load request ∉ entries) →
        (session.after history).run sources entries = fresh.run sources entries) ∧
      (instrumentation.loader.ResolvesIn sources →
        ((∀ entries : List ScriptEntry,
            (session.after history).run sources entries = fresh.run sources entries) ↔
          instrumentation.loader.cache = ∅ ∧ instrumentation.loader.aborted = ∅)) := by
  obtain ⟨rules, tracking, new, rfl⟩ := exists_new made
  obtain rfl := Except.ok.inj ((new _).symm.trans made')
  have goesBy : GoesBy rules tracking _ :=
    GoesBy.after ⟨sound_ofConfig made, rfl, _, rfl, rfl, rfl⟩ history
  generalize after _ history = reached at observer made' goesBy ⊢
  obtain ⟨sound, isTracking, own, isOwn, isRules, idle⟩ := goesBy
  obtain rfl := Observer.instrument.inj (isOwn.symm.trans observer)
  let other : Loader := { rules := rules, disk := reached.disk }
  have alongside {related : Loader → Loader → Prop} (loaders : related own.loader other) :
      Alongside related reached.start.1 (start { observer := .instrument { loader := other }
                                                 recording := { rules := tracking } }).1 := by
    refine ⟨?_, rfl, own.cleared, { loader := other }, ?_, rfl, rfl, loaders⟩
    · exact congrArg (fun rules => ({ rules := rules } : Recording)) isTracking
    · rw [start, observer]
      rfl
  refine ⟨fun entries loadless => ?_, fun resolves => ⟨fun same => ?_, fun nothing => ?_⟩⟩
  · refine (@alongside (fun _ _ => True) trivial).run_eq entries fun loads => ?_
    obtain ⟨request, member⟩ := loads
    exact absurd member (loadless request)
  · obtain ⟨file, missing⟩ := Path.exists_missing sources own.loader.rules.root
    have cacheSound := (sound.loader own isOwn).1
    have found := (files_run_missing isOwn cacheSound missing).1
    rw [isRules] at missing
    have nothing := (@files_run_missing
      { observer := .instrument { loader := other }, recording := { rules := tracking } }
      { loader := other } rfl (fun _ _ found => by cases found) sources file missing).2 rfl rfl
    have empty (path : String) (loaded : path ∈ own.loader.cache ∨ path ∈ own.loader.aborted) :
        False := by
      have member := found path loaded
      rw [same, nothing] at member
      exact Std.ExtTreeMap.not_mem_empty member
    constructor
    · exact Std.ExtTreeMap.eq_empty_iff_forall_not_mem.mpr fun path cached =>
        empty path (.inl cached)
    · exact Std.ExtTreeSet.eq_empty_iff_forall_not_mem.mpr fun path aborted =>
        empty path (.inr aborted)
  · have core : own.loader.core = other.core := by
      have disk : reached.disk = own.loader.disk := by rw [Session.disk, isOwn]
      rw [show other = { rules := rules, disk := own.loader.disk } by rw [← disk]]
      obtain ⟨loader, adopted⟩ := own
      obtain ⟨ownRules, resolved, inProgress, aborted, cache, disk, stats⟩ := loader
      obtain ⟨rfl, rfl⟩ := nothing
      obtain rfl := isRules
      obtain rfl := idle
      rfl
    have twins : Loader.Twins sources own.loader other :=
      ⟨core, resolves, fun _ _ found => by cases found⟩
    exact fun entries => (alongside twins).run_eq entries fun _ => Loader.Twins.isLockstep

end GoesBy

/-- A session that has only looked for files in vain is as good as new. -/
theorem run_eq_iff_nothing_loaded_vain :
    let config : Config := { root := "/p" }
    let history : List SessionStep :=
      [.start, .intercept ∅ (.file "a.lua"), .observe ∅ (.hit "/p/a.lua" 1 0), .stop ∅]
    ∃ session fresh : Session, ofConfig config .instrument none = .ok session ∧
      ofConfig config .instrument (session.after history).disk = .ok fresh ∧
      ∀ entries, (session.after history).run (Loader.onlyFile "x = 1\n") entries =
        fresh.run (Loader.onlyFile "x = 1\n") entries := by
  intro config history
  have made : ofConfig config .instrument none = .ok { started config with running := false } :=
    ofConfig_plain ⟨rfl, rfl, rfl⟩ (by decide)
  have observer : (after { started config with running := false } history).observer =
      .instrument { loader := { rules := .plain config } } := rfl
  have disk : (after { started config with running := false } history).disk = none := rfl
  have made' : ofConfig config .instrument (after _ history).disk =
      .ok { started config with running := false } := disk ▸ made
  obtain ⟨-, exactly⟩ := run_eq_iff_nothing_loaded made history observer made'
    (Loader.onlyFile "x = 1\n")
  exact ⟨_, _, made, made', (exactly fun _ _ found => by cases found).mpr ⟨rfl, rfl⟩⟩

/-- **A file of an earlier run is reported by a run that never mentions it.** Started again, the
session reports two files; the same session without the earlier run reports one. -/
theorem run_after_loading :
    let config : Config := { root := "/p" }
    let sources := (Loader.onlyFile "x = 1\n").insert "/p/b.lua" "y = 2\n"
    let history : List SessionStep := [.start, .intercept sources (.file "a.lua"), .stop sources]
    ∃ session, ofConfig config .instrument none = .ok session ∧
      (session.after history).disk = none ∧
      ((session.after history).run sources [.load (.file "b.lua")]).2.files = 2 ∧
      (session.run sources [.load (.file "b.lua")]).2.files = 1 := by
  intro config sources history
  refine ⟨_, ofConfig_plain ⟨rfl, rfl, rfl⟩ (by decide), ?_, ?_, ?_⟩
  · decide +kernel
  · decide +kernel
  · decide +kernel

end Session

end LuaCoverage
