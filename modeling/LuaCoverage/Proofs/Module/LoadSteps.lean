import LuaCoverage.Session.Basic

/-!
# What a load does to a loader

Instrumenting a file is recursive: between the moment a file is entered and the moment its outcome
is put on record, the files of the modules that it requires may be instrumented. `Loader.Loads`
lists what can happen on the way, each thing with the conditions under which it happens: names are
resolved, loads are answered without instrumenting anything, files are given up, and a file that is
neither in progress nor in the cache is entered, loaded around, and finished.

Every load is made of such steps, and one that is answered with an instrumented file leaves this
file in the cache (`loads_answer`). What a loader keeps is therefore proved by induction over the
steps, once for each thing that is kept. Here this is done for the rules of the loader, and for its
cache: a file in the cache lies under its own path, with the digest and the analysis of the text it
was made from (`CacheSound`), and it stays there for as long as the text that the file holds has
this digest (`Loads.cache_kept`).
-/

set_option autoImplicit false

namespace LuaCoverage

/-! ## New loaders -/

/-- A computation that ends well ended well in its first part. -/
theorem exists_ok_of_bind {ε α β : Type} {first : Except ε α} {next : α → Except ε β} {result : β}
    (ended : first >>= next = .ok result) :
    ∃ value, first = .ok value ∧ next value = .ok result := by
  cases first with
  | error problem => cases ended
  | ok value => exact ⟨value, rfl, ended⟩

/-- A computation of which a result can be seen ended well. -/
theorem exists_ok_of_view {ε α β : Type} {attempt : Except ε α} {view : α → β} {seen : β}
    (shows : attempt.toOption.map view = some seen) :
    ∃ value, attempt = .ok value ∧ view value = seen := by
  cases attempt with
  | error problem => cases shows
  | ok value => exact ⟨value, rfl, Option.some.inj shows⟩

/-- A computation whose result is seen to equal a value ended well with this value. -/
theorem eq_ok_of_toOption_beq {ε α : Type} [BEq α] [LawfulBEq α] {attempt : Except ε α} {value : α}
    (same : (attempt.toOption == some value) = true) : attempt = .ok value := by
  cases attempt with
  | error problem => cases same
  | ok other => exact congrArg Except.ok (Option.some.inj (eq_of_beq same))

theorem LoaderRules.settings_ofConfig {config : Config} {rules : LoaderRules}
    (made : LoaderRules.ofConfig config = .ok rules) :
    rules.settings = config.analysisSettings ∧ rules.options = .ofConfig config := by
  obtain ⟨excluded, -, made⟩ := exists_ok_of_bind made
  obtain ⟨filter, -, made⟩ := exists_ok_of_bind made
  obtain rfl := Except.ok.inj made
  exact ⟨rfl, rfl⟩

namespace Loader

/-- A new loader holds nothing but its rules and what is kept between runs. -/
theorem exists_rules_of_ofConfig {config : Config} {disk : Option SourceCache} {loader : Loader}
    (made : ofConfig config disk = .ok loader) :
    ∃ rules, LoaderRules.ofConfig config = .ok rules ∧
      loader = { rules := rules, disk := disk } := by
  obtain ⟨rules, ruled, made⟩ := exists_ok_of_bind made
  exact ⟨rules, ruled, (Except.ok.inj made).symm⟩

/-! ## Steps of a load -/

/-- Ends the instrumentation of a file, after the modules that it requires were loaded. -/
def finish (prepared : Loader) (name path text : String) (analysis : Analysis) :
    Loader × Except UnchangedReason InstrumentedModule :=
  let contentHash := Text.Digest.ofText text
  let (produced, outcome) := prepared.produce path contentHash text analysis
  produced.leave.settle name path contentHash text analysis outcome

/-- What can happen to a loader while files are instrumented. -/
inductive Loads (sources : PathMap String) : Loader → Loader → Prop
  | refl (loader : Loader) : Loads sources loader loader
  | trans {first second third : Loader} (step : Loads sources first second)
      (steps : Loads sources second third) : Loads sources first third
  | resolve (loader : Loader) (name : String) : Loads sources loader (loader.resolve sources name).1
  | skip (loader : Loader) : Loads sources loader loader.skip
  | reuse (loader : Loader) : Loads sources loader loader.reuse
  | abort (loader : Loader) (path : String) : Loads sources loader (loader.abort path)
  | file {loader prepared : Loader} (name path text : String)
      (readable : sources[path]? = some text) (idle : path ∉ loader.inProgress)
      (uncached : loader.cached? path (Text.Digest.ofText text) = none)
      (inside : Loads sources (loader.enter path) prepared) :
      Loads sources loader
        (prepared.finish name path text (analyze loader.rules.settings text path)).1

/-! ## The parts of a load -/

/-- A loader without what it keeps between runs and without what it has counted. -/
def bare (loader : Loader) : Loader := { loader with disk := none, stats := {} }

/-- Producing a file changes only what is kept between runs and what is counted. -/
theorem bare_produce (loader : Loader) (path contentHash text : String) (analysis : Analysis) :
    (loader.produce path contentHash text analysis).1.bare = loader.bare := by
  unfold produce
  simp only
  split
  · rfl
  · split <;> rfl

/-- Resolving a name only notes where the module was found. -/
theorem resolve_frame (loader : Loader) (sources : PathMap String) (name : String) :
    (loader.resolve sources name).1.rules = loader.rules ∧
      (loader.resolve sources name).1.inProgress = loader.inProgress ∧
      (loader.resolve sources name).1.cache = loader.cache := by
  unfold resolve
  split <;> exact ⟨rfl, rfl, rfl⟩

section Finish

variable (prepared : Loader) (name path text : String) (analysis : Analysis)

theorem finish_frame : (prepared.finish name path text analysis).1.rules = prepared.rules ∧
    (prepared.finish name path text analysis).1.inProgress = prepared.inProgress.tail ∧
    (prepared.finish name path text analysis).1.aborted = prepared.aborted := by
  have same := prepared.bare_produce path (Text.Digest.ofText text) text analysis
  unfold finish
  simp only
  cases (prepared.produce path (Text.Digest.ofText text) text analysis).2 <;>
    exact ⟨(congrArg rules same :), (congrArg (fun loader => loader.inProgress.tail) same :),
      (congrArg aborted same :)⟩

theorem resolved_finish :
    (prepared.finish name path text analysis).1.resolved = prepared.resolved := by
  have same := prepared.bare_produce path (Text.Digest.ofText text) text analysis
  unfold finish
  simp only
  cases (prepared.produce path (Text.Digest.ofText text) text analysis).2 <;>
    exact (congrArg resolved same :)

/-- Finishing a file gives what producing it gives, and keeps what producing it keeps. -/
theorem finish_produce :
    (prepared.finish name path text analysis).1.disk =
        (prepared.produce path (Text.Digest.ofText text) text analysis).1.disk ∧
      (prepared.finish name path text analysis).2 =
        match (prepared.produce path (Text.Digest.ofText text) text analysis).2 with
        | .error _ => .error .failed
        | .ok out => .ok ⟨name, path, Text.Digest.ofText text, text, out, analysis⟩ := by
  unfold finish
  simp only
  cases (prepared.produce path (Text.Digest.ofText text) text analysis).2 <;> exact ⟨rfl, rfl⟩

/-- **How a file is finished.** If it cannot be instrumented, the cache stays as it is; else the
file is put there under its path, with the text it was made from. -/
theorem finish_cases :
    (prepared.finish name path text analysis).1.cache = prepared.cache ∧
        (prepared.finish name path text analysis).2 = .error .failed ∨
      ∃ out, (prepared.finish name path text analysis).2 = .ok
          ⟨name, path, Text.Digest.ofText text, text, out, analysis⟩ ∧
        (prepared.finish name path text analysis).1.cache = prepared.cache.insert path
          ⟨name, path, Text.Digest.ofText text, text, out, analysis⟩ := by
  have same := prepared.bare_produce path (Text.Digest.ofText text) text analysis
  have cache : (prepared.produce path (Text.Digest.ofText text) text analysis).1.cache =
      prepared.cache := (congrArg Loader.cache same :)
  unfold finish
  simp only
  cases (prepared.produce path (Text.Digest.ofText text) text analysis).2 with
  | error problem => exact .inl ⟨cache, rfl⟩
  | ok out => exact .inr ⟨out, rfl, by rw [← cache]; rfl⟩

end Finish

/-- The loader after the modules were loaded that an entered file requires. -/
def prepare (loader : Loader) (sources : PathMap String) (room : Nat) (path : String)
    (analysis : Analysis) : Loader :=
  (loader.enter path).loadRequirements
    (fun inner required file found => (instrumentFile sources room inner required file found).1)
    sources analysis

/-- **What instrumenting a file asks in turn**: whether the file was given up, whether it is in
progress, whether its text is in the cache, and whether there is room. -/
theorem instrumentFile_eq (sources : PathMap String) (room : Nat) (loader : Loader)
    (name path text : String) : instrumentFile sources room loader name path text =
      if loader.aborted.contains path then (loader, .error .depthLimit)
      else if loader.inProgress.contains path then (loader.skip, .error .reentrant)
      else
        match loader.cached? path (Text.Digest.ofText text), room with
        | some loaded, _ => (loader.reuse, .ok loaded)
        | none, 0 => (loader.abort path, .error .depthLimit)
        | none, inner + 1 =>
            let analysis := analyze loader.rules.settings text path
            (loader.prepare sources inner path analysis).finish name path text analysis := by
  unfold instrumentFile
  simp only
  cases loader.cached? path (Text.Digest.ofText text) <;> cases room <;> rfl

/-- How instrumenting a file comes out. -/
inductive Outcome (sources : PathMap String) (room : Nat) (loader : Loader)
    (name path text : String) : Prop
  | givenUp (result : instrumentFile sources room loader name path text =
      (loader, .error .depthLimit))
  | reentrant (busy : path ∈ loader.inProgress)
      (result : instrumentFile sources room loader name path text =
        (loader.skip, .error .reentrant))
  | cached (loaded : InstrumentedModule)
      (found : loader.cached? path (Text.Digest.ofText text) = some loaded)
      (result : instrumentFile sources room loader name path text = (loader.reuse, .ok loaded))
  | tooDeep (exhausted : room = 0) (result : instrumentFile sources room loader name path text =
      (loader.abort path, .error .depthLimit))
  | finished (inner : Nat) (deeper : room = inner + 1) (idle : path ∉ loader.inProgress)
      (uncached : loader.cached? path (Text.Digest.ofText text) = none)
      (result : instrumentFile sources room loader name path text =
        let analysis := analyze loader.rules.settings text path
        (loader.prepare sources inner path analysis).finish name path text analysis)

theorem outcome_instrumentFile (sources : PathMap String) (room : Nat) (loader : Loader)
    (name path text : String) : Outcome sources room loader name path text := by
  have result := instrumentFile_eq sources room loader name path text
  by_cases givenUp : loader.aborted.contains path = true
  · rw [if_pos givenUp] at result
    exact .givenUp result
  rw [if_neg givenUp] at result
  by_cases busy : loader.inProgress.contains path = true
  · rw [if_pos busy] at result
    exact .reentrant (by simpa using busy) result
  rw [if_neg busy] at result
  cases found : loader.cached? path (Text.Digest.ofText text) with
  | some loaded =>
      rw [found] at result
      exact .cached loaded found result
  | none =>
      rw [found] at result
      cases room with
      | zero => exact .tooDeep rfl result
      | succ inner => exact .finished inner rfl (by simpa using busy) found result

/-! ## Loads are made of these steps -/

section Steps

variable {sources : PathMap String}

theorem loads_loadRequired {instrument : Loader → String → String → String → Loader}
    (each : ∀ (loader : Loader) (name path text : String), sources[path]? = some text →
      Loads sources loader (instrument loader name path text))
    (loader : Loader) (name : String) :
    Loads sources loader (loadRequired instrument sources loader name) := by
  unfold loadRequired
  split
  · exact .refl loader
  · have resolved : Loads sources loader (loader.resolve sources name).1 := .resolve loader name
    split
    · rename_i next same
      rwa [same] at resolved
    · rename_i next path same
      rw [same] at resolved
      split
      · split
        · exact resolved
        · rename_i text readable
          exact resolved.trans (each next name path text readable)
      · exact resolved

theorem loads_loadRequirements {instrument : Loader → String → String → String → Loader}
    (each : ∀ (loader : Loader) (name path text : String), sources[path]? = some text →
      Loads sources loader (instrument loader name path text))
    (loader : Loader) (analysis : Analysis) :
    Loads sources loader (loader.loadRequirements instrument sources analysis) := by
  unfold loadRequirements
  split
  · exact List.foldlRecOn (motive := fun next => Loads sources loader next) _ _ (.refl loader)
      fun next steps name _ => steps.trans (loads_loadRequired each next name)
  · exact .refl loader

/-- **Instrumenting a file** is made of steps, however deeply loads nest. -/
theorem loads_instrumentFile (room : Nat) (loader : Loader) (name path text : String)
    (readable : sources[path]? = some text) :
    Loads sources loader (instrumentFile sources room loader name path text).1 := by
  induction room generalizing loader name path text with
  | zero =>
      cases outcome_instrumentFile sources 0 loader name path text with
      | givenUp result => rw [result]; exact .refl loader
      | reentrant busy result => rw [result]; exact .skip loader
      | cached loaded found result => rw [result]; exact .reuse loader
      | tooDeep exhausted result => rw [result]; exact .abort loader path
      | finished inner deeper idle uncached result => cases deeper
  | succ room ih =>
      cases outcome_instrumentFile sources (room + 1) loader name path text with
      | givenUp result => rw [result]; exact .refl loader
      | reentrant busy result => rw [result]; exact .skip loader
      | cached loaded found result => rw [result]; exact .reuse loader
      | tooDeep exhausted result => rw [result]; exact .abort loader path
      | finished inner deeper idle uncached result =>
          obtain rfl : room = inner := Nat.succ.inj deeper
          rw [result]
          exact .file name path text readable idle uncached
            (loads_loadRequirements ih (loader.enter path) _)

/-- A file that was instrumented is in the cache afterwards, for its present text. -/
theorem cached_of_instrumentFile {room : Nat} {loader : Loader} {name path text : String}
    {loaded : InstrumentedModule}
    (ended : (instrumentFile sources room loader name path text).2 = .ok loaded) :
    (instrumentFile sources room loader name path text).1.cache[path]? = some loaded ∧
      loaded.contentHash = Text.Digest.ofText text := by
  cases outcome_instrumentFile sources room loader name path text with
  | givenUp result => rw [result] at ended; cases ended
  | reentrant busy result => rw [result] at ended; cases ended
  | tooDeep exhausted result => rw [result] at ended; cases ended
  | cached other found result =>
      rw [result] at ended ⊢
      obtain rfl := Except.ok.inj ended
      obtain ⟨stored, current⟩ := Option.filter_eq_some_iff.mp found
      exact ⟨stored, eq_of_beq current⟩
  | finished inner deeper idle uncached result =>
      rw [result] at ended ⊢
      rcases finish_cases (loader.prepare sources inner path
        (analyze loader.rules.settings text path)) name path text
        (analyze loader.rules.settings text path) with ⟨-, failed⟩ | ⟨out, finished, cache⟩
      · exact nomatch failed.symm.trans ended
      · obtain rfl := Except.ok.inj (finished.symm.trans ended)
        simp only [cache]
        exact ⟨Std.ExtTreeMap.getElem?_insert_self, trivial⟩

end Steps

/-! ## Answers -/

/-- Answers a request to load a module or a file. -/
def answer (loader : Loader) (sources : PathMap String) : LoadRequest → Loader × LoadAnswer
  | .module name => loader.load sources name
  | .file path => loader.loadFile sources path

/-- A session hands requests on to its loader. -/
theorem intercept_eq_answer (session : Session) (instrumentation : Instrumentation)
    (isObserver : session.observer = .instrument instrumentation) (sources : PathMap String)
    (request : LoadRequest) :
    session.intercept sources request =
      let found := instrumentation.intercept session.recording fun loader =>
        loader.answer sources request
      ({ session with observer := .instrument found.1.1, recording := found.1.2 },
        some found.2) := by
  unfold Session.intercept
  rw [isObserver]
  cases request <;> rfl

section Answers

variable (sources : PathMap String)

/-- What the load of a file that was found comes to. -/
theorem loads_loadFound (loader : Loader) (name path : String) :
    Loads sources loader (loader.loadFound sources name path).1 ∧
      ∀ loaded, (loader.loadFound sources name path).2 = .instrumented loaded →
        ∃ text, sources[path]? = some text ∧ loaded.contentHash = Text.Digest.ofText text ∧
          (loader.loadFound sources name path).1.cache[path]? = some loaded := by
  unfold loadFound
  split
  · exact ⟨.refl loader, nofun⟩
  · rename_i text readable
    split
    · exact ⟨.refl loader, nofun⟩
    · have steps := loads_instrumentFile loader.room loader name path text readable
      split
      · rename_i next loaded same
        have cached := cached_of_instrumentFile (congrArg Prod.snd same)
        rw [same] at steps cached
        refine ⟨steps, fun other sameLoaded => ?_⟩
        obtain rfl := LoadAnswer.instrumented.inj sameLoaded
        exact ⟨text, readable, cached.2, cached.1⟩
      · rename_i next reason same
        rw [same] at steps
        exact ⟨steps, nofun⟩

/-- **A load is made of steps.** A file that it answers with lies in the cache afterwards, and is
instrumented for the text that it holds. -/
theorem loads_answer (loader : Loader) (request : LoadRequest) :
    Loads sources loader (loader.answer sources request).1 ∧
      ∀ loaded, (loader.answer sources request).2 = .instrumented loaded →
        ∃ path text : String, sources[path]? = some text ∧
          loaded.contentHash = Text.Digest.ofText text ∧
          (loader.answer sources request).1.cache[path]? = some loaded := by
  cases request with
  | file file =>
      obtain ⟨steps, cached⟩ := loads_loadFound sources loader
        (Path.normalize loader.rules.root file) (Path.normalize loader.rules.root file)
      exact ⟨steps, fun loaded same => ⟨_, cached loaded same⟩⟩
  | module name =>
      have resolved : Loads sources loader (loader.resolve sources name).1 := .resolve loader name
      rw [answer, load]
      split
      · rename_i next same
        rw [same] at resolved
        exact ⟨resolved, nofun⟩
      · rename_i next path same
        rw [same] at resolved
        obtain ⟨steps, cached⟩ := loads_loadFound sources next name path
        exact ⟨resolved.trans steps, fun loaded same => ⟨path, cached loaded same⟩⟩

end Answers

/-! ## What a loader keeps -/

/-- Every file in the cache lies under its own path, with the digest and the analysis of the text
that it was made from. -/
def CacheSound (loader : Loader) : Prop :=
  ∀ (path : String) (loaded : InstrumentedModule), loader.cache[path]? = some loaded →
    loaded.path = path ∧ loaded.contentHash = Text.Digest.ofText loaded.source ∧
      loaded.analysis = analyze loader.rules.settings loaded.source path

theorem cacheSound_ofConfig {config : Config} {disk : Option SourceCache} {loader : Loader}
    (made : ofConfig config disk = .ok loader) : loader.CacheSound := by
  obtain ⟨rules, -, rfl⟩ := exists_rules_of_ofConfig made
  exact fun _ _ found => by cases found

section Kept

variable {sources : PathMap String} {loader next : Loader}

/-- **The rules of a loader never change.** -/
theorem Loads.rules_eq (loads : Loads sources loader next) : next.rules = loader.rules := by
  induction loads with
  | refl loader => rfl
  | trans _ _ ih ih' => exact ih'.trans ih
  | resolve loader name => exact (loader.resolve_frame sources name).1
  | skip loader => rfl
  | reuse loader => rfl
  | abort loader path => rfl
  | file name path text _ _ _ _ ih => exact (finish_frame _ name path text _).1.trans ih

theorem CacheSound.congr (sound : loader.CacheSound) (rules : next.rules = loader.rules)
    (cache : next.cache = loader.cache) : next.CacheSound := by
  intro path loaded found
  rw [rules]
  exact sound path loaded (cache ▸ found)

/-- **Loads keep the cache sound.** -/
theorem Loads.cacheSound (loads : Loads sources loader next) (sound : loader.CacheSound) :
    next.CacheSound := by
  induction loads with
  | refl loader => exact sound
  | trans _ _ ih ih' => exact ih' (ih sound)
  | resolve loader name =>
      obtain ⟨rules, -, cache⟩ := loader.resolve_frame sources name
      exact sound.congr rules cache
  | skip loader => exact sound
  | reuse loader => exact sound
  | abort loader path => exact sound
  | @file loader prepared name path text _ _ _ inside ih =>
      have before : prepared.CacheSound := ih sound
      have rules : prepared.rules = loader.rules := inside.rules_eq
      have rules' := (finish_frame prepared name path text
        (analyze loader.rules.settings text path)).1
      rcases finish_cases prepared name path text (analyze loader.rules.settings text path) with
        ⟨cache, -⟩ | ⟨out, -, cache⟩
      · exact before.congr rules' cache
      · intro other loaded found
        rw [cache, Std.ExtTreeMap.getElem?_insert] at found
        rw [rules']
        split at found
        · rename_i same
          obtain rfl := Std.LawfulEqCmp.eq_of_compare same
          obtain rfl := Option.some.inj found
          exact ⟨rfl, rfl, by rw [rules]⟩
        · exact before other loaded found

/-- What is in the cache was there before, or was made from what its file held. -/
theorem Loads.cached_from (loads : Loads sources loader next) {path : String}
    {held : InstrumentedModule} (cached : next.cache[path]? = some held) :
    loader.cache[path]? = some held ∨
      ∃ text, sources[path]? = some text ∧ held.contentHash = Text.Digest.ofText text := by
  induction loads with
  | refl loader => exact .inl cached
  | trans _ _ ih ih' => exact (ih' cached).elim ih .inr
  | resolve loader name => exact .inl (by rwa [(loader.resolve_frame sources name).2.2] at cached)
  | skip loader => exact .inl cached
  | reuse loader => exact .inl cached
  | abort loader path => exact .inl cached
  | @file loader prepared name other text readable _ _ _ ih =>
      rcases finish_cases prepared name other text (analyze loader.rules.settings text other) with
        ⟨cache, -⟩ | ⟨out, -, cache⟩
      · exact ih (cache ▸ cached)
      · rw [cache, Std.ExtTreeMap.getElem?_insert] at cached
        split at cached
        · rename_i same
          obtain rfl := Std.LawfulEqCmp.eq_of_compare same
          obtain rfl := Option.some.inj cached
          exact .inr ⟨text, readable, rfl⟩
        · exact ih cached

/-- **A file stays in the cache** for as long as its text has the digest of the text that it was
instrumented for. -/
theorem Loads.cache_kept (loads : Loads sources loader next) {path : String}
    {held : InstrumentedModule} (cached : loader.cache[path]? = some held)
    (unchanged : ∀ text, sources[path]? = some text →
      Text.Digest.ofText text = held.contentHash) : next.cache[path]? = some held := by
  induction loads with
  | refl loader => exact cached
  | trans _ _ ih ih' => exact ih' (ih cached)
  | resolve loader name => rwa [(loader.resolve_frame sources name).2.2]
  | skip loader => exact cached
  | reuse loader => exact cached
  | abort loader path => exact cached
  | @file loader prepared name other text readable _ uncached _ ih =>
      have before : prepared.cache[path]? = some held := ih cached
      have apart : other ≠ path := by
        rintro rfl
        rw [cached?, cached, Option.filter_some, unchanged text readable, beq_self_eq_true,
          if_pos rfl] at uncached
        cases uncached
      rcases finish_cases prepared name other text (analyze loader.rules.settings text other) with
        ⟨cache, -⟩ | ⟨out, -, cache⟩
      · rwa [cache]
      · rwa [cache, Std.ExtTreeMap.getElem?_insert,
          if_neg (mt Std.LawfulEqCmp.eq_of_compare apart)]

end Kept

end Loader

end LuaCoverage
