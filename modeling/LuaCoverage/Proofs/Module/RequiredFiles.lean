import Mathlib.Data.List.Perm.Subperm
import Mathlib.Logic.Relation
import LuaCoverage.Proofs.Module.AskedFiles
import LuaCoverage.Proofs.Module.FreshAnswers
import LuaCoverage.Proofs.Module.Nesting

/-!
# Everything that is required is instrumented along

A loader that instruments required modules along goes through the graph of files depth first. A file
that is just being instrumented is not entered again, and what comes of a required file is of no
concern to the one that requires it. So when a file is finished, some of the files that it requires
may not be: those that are further out on the stack.

The invariant is `Loader.Explores`: each file that a cached file requires is in the cache or on the
stack, if it can be instrumented at all. Entering a file puts it on the stack, and finishing it
moves it to the cache, so the invariant is kept (`Loader.exploresFiles`). There is always room for
one more file, because no file is on the stack twice and there are no more files than places.
Between the calls of a host the stack is empty, and the cache is closed.

So after the first load the cache holds exactly the files that are reached from the loaded one and
parse, and from then on a load of any of these is answered with its instrumented form
(`Loader.cached_iff_reachable`).
-/

set_option autoImplicit false

namespace LuaCoverage

namespace LoaderRules

theorem eager_ofConfig {config : Config} {rules : LoaderRules}
    (made : ofConfig config = .ok rules) : rules.eager = config.eagerRequires := by
  obtain ⟨excluded, -, made⟩ := exists_ok_of_bind made
  obtain ⟨filter, -, made⟩ := exists_ok_of_bind made
  obtain rfl := Except.ok.inj made
  rfl

variable (rules : LoaderRules) (sources : PathMap String)

/-- Whether a file requires another one: its text requires a module by a literal name under which
the other file is instrumented. -/
def Requires (path other : String) : Prop :=
  ∃ text name, sources[path]? = some text ∧ RequiresName rules.settings text name ∧
    rules.locate sources name = some other ∧ rules.Admits name other

/-- Whether a file can be parsed. -/
def Parses (path : String) : Prop :=
  ∃ text, sources[path]? = some text ∧ (analyze rules.settings text path).parsed = true

/-- A file that requires another one can be parsed. -/
theorem Requires.parses {rules : LoaderRules} {sources : PathMap String} {path other : String}
    (requires : rules.Requires sources path other) : rules.Parses sources path := by
  obtain ⟨text, name, readable, named, -⟩ := requires
  exact ⟨text, readable, named.parsed path⟩

/-- Whether loads that instrument required files along reach a file from another one. -/
abbrev Reaches : String → String → Prop := Relation.ReflTransGen (rules.Requires sources)

end LoaderRules

/-- Whether a request leads to a file under a name. -/
def LoadRequest.Names (rules : LoaderRules) (sources : PathMap String) (name path : String) :
    LoadRequest → Prop
  | .module asked => asked = name ∧ rules.locate sources asked = some path
  | .file given => Path.normalize rules.root given = name ∧ name = path

/-- Whether a call reads from some sources, if it reads at all. -/
def LoaderCall.On (sources : PathMap String) : LoaderCall → Prop
  | .load now _ => now = sources
  | .forgetResolved => True

namespace Loader

/-- What holds of a loader that goes through the files of some sources. -/
structure Explores (rules : LoaderRules) (sources : PathMap String) (loader : Loader) : Prop where
  rules_eq : loader.rules = rules
  disk : loader.disk = none
  located : ∀ (name : String) (found : Option String), loader.resolved[name]? = some found →
    found = rules.locate sources name
  noneGivenUp : loader.aborted = ∅
  distinct : loader.inProgress.Nodup
  stacked : ∀ path ∈ loader.inProgress, path ∈ sources
  current : ∀ (path : String) (held : InstrumentedModule), loader.cache[path]? = some held →
    ∃ text, sources[path]? = some text ∧ held.contentHash = Text.Digest.ofText text
  parses : ∀ path ∈ loader.cache, rules.Parses sources path
  closed : ∀ path ∈ loader.cache, ∀ other, rules.Requires sources path other →
    rules.Parses sources other → other ∈ loader.cache ∨ other ∈ loader.inProgress

section Exploring

variable {rules : LoaderRules} {sources : PathMap String} {loader next : Loader}

/-- A loader that differs only in what it has counted goes on alike. -/
theorem Explores.congr (explores : loader.Explores rules sources) (same : next.bare = loader.bare)
    (disk : next.disk = none) : next.Explores rules sources := by
  obtain ⟨rules', resolved, inProgress, aborted, cache, _, _⟩ := next
  obtain ⟨_, _, _, _, _, _, _⟩ := loader
  simp only [bare, Loader.mk.injEq] at same
  obtain ⟨rfl, rfl, rfl, rfl, rfl, -, -⟩ := same
  exact ⟨explores.rules_eq, disk, explores.located, explores.noneGivenUp, explores.distinct,
    explores.stacked, explores.current, explores.parses, explores.closed⟩

/-- **There is room for one more file**, if there are no more files than places. -/
theorem Explores.depth_lt (explores : loader.Explores rules sources)
    (deep : sources.size ≤ rules.maxDepth) {path : String} (readable : path ∈ sources)
    (idle : path ∉ loader.inProgress) : loader.depth < rules.maxDepth := by
  have among : path :: loader.inProgress ⊆ sources.keys := by
    intro other member
    rw [Std.ExtTreeMap.mem_keys]
    rcases List.mem_cons.mp member with rfl | stacked
    · exact readable
    · exact explores.stacked other stacked
  have fewer := (List.subperm_of_subset
    (List.nodup_cons.mpr ⟨idle, explores.distinct⟩) among).length_le
  rw [List.length_cons, Std.ExtTreeMap.length_keys] at fewer
  exact Nat.lt_of_lt_of_le fewer deep

/-- Resolving a name finds the file that the sources have for it. -/
theorem Explores.resolve (explores : loader.Explores rules sources) (name : String) :
    (loader.resolve sources name).1.Explores rules sources ∧
      (loader.resolve sources name).2 = rules.locate sources name := by
  unfold Loader.resolve
  cases known : loader.resolved[name]? with
  | some found => exact ⟨explores, explores.located name found known⟩
  | none =>
      have located : (loader.rules.candidates name).find? (fun path => sources.contains path) =
          rules.locate sources name := by rw [explores.rules_eq, LoaderRules.locate]
      simp only [located]
      refine ⟨{ explores with located := fun other found isFound => ?_ }, trivial⟩
      rw [Std.ExtTreeMap.getElem?_insert] at isFound
      split at isFound
      · rename_i same
        obtain rfl := Std.LawfulEqCmp.eq_of_compare same
        exact (Option.some.inj isFound).symm
      · exact explores.located other found isFound

/-- Files stay in the cache. -/
theorem Explores.mem_cache (explores : loader.Explores rules sources)
    (loads : Loads sources loader next) {path : String} (member : path ∈ loader.cache) :
    path ∈ next.cache := by
  obtain ⟨held, cached⟩ := mem_map_iff.mp member
  obtain ⟨text, readable, digest⟩ := explores.current path held cached
  refine mem_map_iff.mpr ⟨held, loads.cache_kept cached fun other readable' => ?_⟩
  obtain rfl : text = other := Option.some.inj (readable.symm.trans readable')
  exact digest.symm

/-- What going on from a loader comes to: files that were wanted are in the cache, if they parse, or
have been on the stack from the start. -/
structure Explored (rules : LoaderRules) (sources : PathMap String) (wanted : String → Prop)
    (loader next : Loader) : Prop where
  loads : Loads sources loader next
  explores : next.Explores rules sources
  reached : ∀ path, wanted path → rules.Parses sources path →
    path ∈ next.cache ∨ path ∈ loader.inProgress

theorem Explored.refl (explores : loader.Explores rules sources) {wanted : String → Prop}
    (nothing : ∀ path, ¬ wanted path) : Explored rules sources wanted loader loader :=
  ⟨.refl loader, explores, fun path wants => absurd wants (nothing path)⟩

/-- Going on in two steps. -/
theorem Explored.trans {first later wanted : String → Prop} {third : Loader}
    (step : Explored rules sources first loader next)
    (steps : Explored rules sources later next third)
    (either : ∀ path, wanted path → first path ∨ later path) :
    Explored rules sources wanted loader third := by
  refine ⟨step.loads.trans steps.loads, steps.explores, fun path wants parses => ?_⟩
  rcases either path wants with early | late
  · exact (step.reached path early parses).imp_left (step.explores.mem_cache steps.loads)
  · exact step.loads.inProgress_eq ▸ steps.reached path late parses

/-! ## Finishing a file -/

/-- What finishing a file does to the cache of a loader that keeps nothing between runs. -/
theorem cache_finish (nothing : loader.disk = none)
    (valid : Instrument.isName loader.rules.options.trackerName = true) (name path text : String)
    (analysis : Analysis) :
    (loader.finish name path text analysis).1.disk = none ∧
      if analysis.parsed then
        ∃ out, (loader.finish name path text analysis).1.cache = loader.cache.insert path
          ⟨name, path, Text.Digest.ofText text, text, out, analysis⟩
      else (loader.finish name path text analysis).1.cache = loader.cache := by
  obtain ⟨stillNothing, produced⟩ := produce_of_no_disk nothing path (Text.Digest.ofText text) text
    analysis
  obtain ⟨disk, ended⟩ := loader.finish_produce name path text analysis
  refine ⟨disk.trans stillNothing, ?_⟩
  rw [produced, instrumentWith] at ended
  cases degraded : analysis.degraded with
  | some reason =>
      rw [if_neg (by simp [Analysis.parsed, degraded])]
      rw [degraded] at ended
      rcases loader.finish_cases name path text analysis with ⟨cache, -⟩ | ⟨out, finished, -⟩
      · exact cache
      · exact nomatch finished.symm.trans ended
  | none =>
      rw [if_pos (by simp [Analysis.parsed, degraded])]
      rw [degraded, valid, if_pos rfl] at ended
      rcases loader.finish_cases name path text analysis with ⟨-, failed⟩ | ⟨out, -, cache⟩
      · exact nomatch failed.symm.trans ended
      · exact ⟨out, cache⟩

/-- Finishing a file that parses puts it into the cache, and nothing else changes there. -/
theorem mem_cache_finish_iff (nothing : loader.disk = none)
    (valid : Instrument.isName loader.rules.options.trackerName = true) (name path text : String)
    (analysis : Analysis) (other : String) :
    other ∈ (loader.finish name path text analysis).1.cache ↔
      other ∈ loader.cache ∨ other = path ∧ analysis.parsed = true := by
  obtain ⟨-, cache⟩ := cache_finish nothing valid name path text analysis
  split at cache
  · rename_i parsed
    obtain ⟨out, cache⟩ := cache
    rw [cache, Std.ExtTreeMap.mem_insert, Std.LawfulEqCmp.compare_eq_iff_eq]
    tauto
  · rename_i unparsed
    rw [cache]
    simp [unparsed]

/-- **Finishing a file** closes the cache again: what its requirements left to the stack was there
before the file was entered, or is the file itself. -/
theorem Explores.finish (explores : loader.Explores rules sources)
    (valid : Instrument.isName rules.options.trackerName = true) {path text : String}
    (readable : sources[path]? = some text) {prepared : Loader}
    (prepares : Explored rules sources (rules.Requires sources path) (loader.enter path) prepared)
    (idle : path ∉ loader.inProgress)
    (uncached : loader.cached? path (Text.Digest.ofText text) = none) (name : String) :
    Explored rules sources (· = path) loader
      (prepared.finish name path text (analyze loader.rules.settings text path)).1 := by
  obtain ⟨inside, ready, reached⟩ := prepares
  let analysis := analyze loader.rules.settings text path
  have loads : Loads sources loader (prepared.finish name path text analysis).1 :=
    .file name path text readable idle uncached inside
  obtain ⟨-, -, aborted⟩ := prepared.finish_frame name path text analysis
  rw [← ready.rules_eq] at valid
  have disk := (cache_finish ready.disk valid name path text analysis).1
  have inCache := mem_cache_finish_iff ready.disk valid name path text analysis
  have parsed (parses : rules.Parses sources path) : analysis.parsed = true := by
    obtain ⟨other, readable', parsed⟩ := parses
    obtain rfl : text = other := Option.some.inj (readable.symm.trans readable')
    rwa [← explores.rules_eq] at parsed
  have stored (parses : rules.Parses sources path) :
      path ∈ (prepared.finish name path text analysis).1.cache :=
    (inCache path).mpr (.inr ⟨rfl, parsed parses⟩)
  have stack : prepared.inProgress = path :: loader.inProgress := inside.inProgress_eq
  have settled {other : String} (parses : rules.Parses sources other)
      (found : other ∈ prepared.cache ∨ other ∈ path :: loader.inProgress) :
      other ∈ (prepared.finish name path text analysis).1.cache ∨ other ∈ loader.inProgress := by
    rcases found with cached | stacked
    · exact .inl ((inCache other).mpr (.inl cached))
    · rcases List.mem_cons.mp stacked with rfl | stacked
      · exact .inl (stored parses)
      · exact .inr stacked
  refine ⟨loads, ⟨loads.rules_eq.trans explores.rules_eq, disk, ?located,
    aborted.trans ready.noneGivenUp, loads.inProgress_eq.symm ▸ explores.distinct,
    loads.inProgress_eq.symm ▸ explores.stacked, fun other held cached => ?current, ?parses,
    ?closed⟩,
    ?reached⟩
  case located =>
    intro other found isFound
    rw [resolved_finish] at isFound
    exact ready.located other found isFound
  case reached =>
    rintro other rfl parses
    exact .inl (stored parses)
  case current =>
    exact (loads.cached_from cached).elim (explores.current other held) id
  case parses =>
    intro other member
    rcases (inCache other).mp member with before | ⟨rfl, parsed⟩
    · exact ready.parses other before
    · exact ⟨text, readable, explores.rules_eq ▸ parsed⟩
  case closed =>
    intro requirer member other requires parses
    rw [loads.inProgress_eq]
    refine settled parses ?_
    rcases (inCache requirer).mp member with before | ⟨rfl, -⟩
    · exact stack ▸ ready.closed requirer before other requires parses
    · exact reached other requires parses

/-! ## Nested loads -/

/-- Whether a module of a given name leads to a file, under some of the given names. -/
def LeadsFrom (rules : LoaderRules) (sources : PathMap String) (names : List String)
    (path : String) : Prop :=
  ∃ name ∈ names, rules.locate sources name = some path ∧ rules.Admits name path

/-- Whether instrumenting a file, with some room for nested loads, explores it. -/
def ExploresFiles (rules : LoaderRules) (sources : PathMap String) (room : Nat) : Prop :=
  ∀ (loader : Loader) (name path text : String), loader.Explores rules sources →
    room + loader.depth = rules.maxDepth → sources[path]? = some text →
      Explored rules sources (· = path) loader (instrumentFile sources room loader name path text).1

/-- One required module after the other. -/
theorem ExploresFiles.foldl {room : Nat} (each : ExploresFiles rules sources room)
    (names : List String) (explores : loader.Explores rules sources)
    (fits : room + loader.depth = rules.maxDepth) :
    Explored rules sources (LeadsFrom rules sources names) loader
      (names.foldl (loadRequired (fun inner required file found =>
        (instrumentFile sources room inner required file found).1) sources) loader) := by
  induction names generalizing loader with
  | nil => exact .refl explores fun path ⟨name, member, _⟩ => nomatch member
  | cons name rest ih =>
      rw [List.foldl_cons]
      obtain ⟨resolved, isFound⟩ := explores.resolve name
      have step : Explored rules sources (LeadsFrom rules sources [name]) loader
          (loadRequired (fun inner required file found =>
            (instrumentFile sources room inner required file found).1) sources loader name) := by
        have toResolved (nothing : ∀ path, ¬ LeadsFrom rules sources [name] path) :
            Explored rules sources (LeadsFrom rules sources [name]) loader
              (loader.resolve sources name).1 :=
          ⟨.resolve loader name, resolved, fun path wanted => absurd wanted (nothing path)⟩
        cases outcome_loadRequired (fun inner required file found =>
          (instrumentFile sources room inner required file found).1) sources loader name with
        | excluded isExcluded result =>
            rw [result]
            refine .refl explores ?_
            rintro path ⟨other, member, -, named, -⟩
            obtain rfl := List.mem_singleton.mp member
            rw [explores.rules_eq, named] at isExcluded
            cases isExcluded
        | passedOver named nothing result =>
            rw [result]
            refine toResolved ?_
            rintro path ⟨other, member, located, -, tracked⟩
            obtain rfl := List.mem_singleton.mp member
            have missing := nothing path (isFound.trans located) (explores.rules_eq ▸ tracked)
            have there : sources.contains path = true := List.find?_some located
            obtain ⟨text, readable⟩ := mem_map_iff.mp (Std.ExtTreeMap.contains_iff_mem.mp there)
            exact nomatch missing.symm.trans readable
        | file path text found admitted readable result =>
            rw [result]
            have frame := (loader.resolve_frame sources name).2.1
            have inner := each _ name path text resolved
              ((congrArg (room + List.length ·) frame).trans fits) readable
            refine ⟨(Loads.resolve loader name).trans inner.loads, inner.explores, ?_⟩
            rintro other ⟨asked, member, located, -⟩ parses
            obtain rfl := List.mem_singleton.mp member
            obtain rfl : path = other :=
              Option.some.inj (found.symm.trans (isFound.trans located))
            exact frame ▸ inner.reached path rfl parses
      have fits' := (congrArg (room + List.length ·) step.loads.inProgress_eq).trans fits
      refine step.trans (ih step.explores fits') ?_
      rintro path ⟨other, member, leads⟩
      rcases List.mem_cons.mp member with rfl | later
      · exact .inl ⟨other, List.mem_singleton_self other, leads⟩
      · exact .inr ⟨other, later, leads⟩

/-- **Instrumenting a file explores it**, with whatever room is left: the file is in the cache
afterwards, if it parses, or was on the stack. The induction is on the room. -/
theorem exploresFiles (eager : rules.eager = true)
    (valid : Instrument.isName rules.options.trackerName = true)
    (deep : sources.size ≤ rules.maxDepth) (room : Nat) : ExploresFiles rules sources room := by
  induction room using Nat.strongRecOn with
  | ind room ih =>
  intro loader name path text explores fits readable
  have there : path ∈ sources := mem_map_iff.mpr ⟨text, readable⟩
  rw [instrumentFile_eq, explores.noneGivenUp, Std.ExtTreeSet.contains_empty,
    if_neg Bool.false_ne_true]
  by_cases busy : path ∈ loader.inProgress
  · rw [if_pos (List.contains_iff_mem.mpr busy)]
    exact ⟨.skip loader, explores.congr rfl explores.disk, fun other same _ => .inr (same ▸ busy)⟩
  rw [if_neg (mt List.contains_iff_mem.mp busy)]
  cases uncached : loader.cached? path (Text.Digest.ofText text) with
  | some held =>
      have cached : path ∈ loader.cache :=
        mem_map_iff.mpr ⟨held, (Option.filter_eq_some_iff.mp uncached).1⟩
      exact ⟨.reuse loader, explores.congr rfl explores.disk,
        fun other same _ => .inl (same ▸ cached)⟩
  | none =>
  have roomy := explores.depth_lt deep there busy
  cases room with
  | zero => omega
  | succ inner =>
      have entered : (loader.enter path).Explores rules sources :=
        { explores with
          distinct := List.nodup_cons.mpr ⟨busy, explores.distinct⟩
          stacked := fun other member => (List.mem_cons.mp member).elim
            (fun same => same ▸ there) (explores.stacked other)
          closed := fun requirer member other requires parses =>
            (explores.closed requirer member other requires parses).imp_right
              (List.mem_cons_of_mem path) }
      have prepared := (ih inner (Nat.lt_succ_self inner)).foldl
        (analyze loader.rules.settings text path).requires entered
        (by rw [← fits, enter, depth, depth, List.length_cons]; omega)
      have required : (loader.enter path).requirements
          (analyze loader.rules.settings text path) =
            (analyze loader.rules.settings text path).requires :=
        if_pos (explores.rules_eq ▸ eager)
      simp only [prepare, loadRequirements_eq, required]
      refine explores.finish valid readable ⟨prepared.loads, prepared.explores, ?_⟩ busy uncached
        name
      rintro other ⟨text', required, readable', named, located, admitted⟩ parses
      obtain rfl : text = text' := Option.some.inj (readable.symm.trans readable')
      rw [← explores.rules_eq] at named
      exact prepared.reached other ⟨required, mem_requires_analyze.mpr named, located, admitted⟩
        parses

end Exploring

/-! ## Calls -/

section Calls

variable {rules : LoaderRules} {sources : PathMap String} {loader : Loader}
  {request : LoadRequest}

/-- **What a loader that explores is asked for**: it goes on to instrument a file exactly if the
request leads to the file under a name that is admitted, and the file is there. -/
theorem Explores.asked (explores : loader.Explores rules sources) (request : LoadRequest) :
    (loader.asked sources request).1.Explores rules sources ∧
      ∀ name path text, (loader.asked sources request).2 = .inr (name, path, text) ↔
        request.Names rules sources name path ∧ rules.Admits name path ∧
          sources[path]? = some text := by
  have found {before : Loader} (explores : before.Explores rules sources)
      (asked file name path text : String) :
      before.foundAsked sources asked file = .inr (name, path, text) ↔
        (asked = name ∧ file = path) ∧ rules.Admits name path ∧ sources[path]? = some text := by
    unfold foundAsked LoaderRules.Admits
    rw [explores.rules_eq]
    cases readable : sources[file]? with
    | none =>
        refine iff_of_false Sum.inl_ne_inr ?_
        rintro ⟨⟨-, rfl⟩, -, found⟩
        rw [readable] at found
        cases found
    | some found =>
        simp only
        split
        · rename_i unwanted
          refine iff_of_false Sum.inl_ne_inr ?_
          rintro ⟨⟨rfl, rfl⟩, ⟨named, tracked⟩, -⟩
          simp [named, tracked] at unwanted
        · rename_i wanted
          rw [Bool.or_eq_true, not_or, Bool.not_eq_true, Bool.not_eq_true', Bool.not_eq_false]
            at wanted
          constructor
          · rintro same
            cases same
            exact ⟨⟨rfl, rfl⟩, wanted, readable⟩
          · rintro ⟨⟨rfl, rfl⟩, -, readable'⟩
            obtain rfl : found = text := Option.some.inj (readable.symm.trans readable')
            rfl
  cases request with
  | file given =>
      refine ⟨explores, fun name path text => ?_⟩
      simp only [Loader.asked, explores.rules_eq, found explores, LoadRequest.Names]
      refine and_congr_left' ⟨?_, ?_⟩
      · rintro ⟨rfl, rfl⟩
        exact ⟨rfl, rfl⟩
      · rintro ⟨rfl, rfl⟩
        exact ⟨rfl, rfl⟩
  | module asked =>
      obtain ⟨resolved, located⟩ := explores.resolve asked
      rw [Loader.asked]
      generalize loader.resolve sources asked = step at resolved located ⊢
      obtain ⟨next, _ | file⟩ := step
      · refine ⟨resolved, fun name path text => iff_of_false Sum.inl_ne_inr ?_⟩
        rintro ⟨⟨rfl, isFound⟩, -⟩
        cases located.trans isFound
      · have isFile : rules.locate sources asked = some file := located.symm
        refine ⟨resolved, fun name path text => ?_⟩
        simp only [found resolved, LoadRequest.Names, isFile, Option.some.injEq]

/-- **Every load goes on exploring.** -/
theorem Explores.answer (explores : loader.Explores rules sources) (eager : rules.eager = true)
    (valid : Instrument.isName rules.options.trackerName = true)
    (deep : sources.size ≤ rules.maxDepth) (idle : loader.inProgress = [])
    (request : LoadRequest) : (loader.answer sources request).1.Explores rules sources := by
  obtain ⟨explores', asks⟩ := explores.asked request
  obtain ⟨rules', inProgress, -⟩ := asked_frame sources loader request
  rw [answer_eq]
  generalize loader.asked sources request = asked at explores' asks rules' inProgress ⊢
  obtain ⟨next, answer | ⟨name, path, text⟩⟩ := asked
  · exact explores'
  · obtain ⟨-, -, readable⟩ := (asks name path text).mp rfl
    refine (exploresFiles eager valid deep next.room next name path text explores' ?_
      readable).explores
    have stack : next.inProgress = [] := inProgress.trans idle
    rw [room, depth, stack, explores'.rules_eq]
    rfl

theorem cache_asked (loader : Loader) (sources : PathMap String) (request : LoadRequest) :
    (loader.asked sources request).1.cache = loader.cache := by
  cases request with
  | file given => rfl
  | module name =>
      have cache := (loader.resolve_frame sources name).2.2
      rw [Loader.asked]
      generalize loader.resolve sources name = resolved at cache ⊢
      obtain ⟨next, _ | path⟩ := resolved <;> exact cache

/-- **A file that is in the cache is answered** with its instrumented form, whatever name that is
not excluded it is asked for under. -/
theorem Explores.answer_cached (explores : loader.Explores rules sources)
    (sound : loader.CacheSound) (idle : loader.inProgress = []) {name path : String}
    (names : request.Names rules sources name path) (admitted : rules.Admits name path)
    (cached : path ∈ loader.cache) :
    ∃ held, held.path = path ∧ (loader.answer sources request).2 = .instrumented held := by
  obtain ⟨held, stored⟩ := mem_map_iff.mp cached
  obtain ⟨text, readable, digest⟩ := explores.current path held stored
  obtain ⟨explores', asks⟩ := explores.asked request
  have isAsked := (asks name path text).mpr ⟨names, admitted, readable⟩
  have stack := (asked_frame sources loader request).2.1.trans idle
  have cache := loader.cache_asked sources request
  refine ⟨held, (sound path held stored).1, ?_⟩
  rw [answer_eq]
  generalize loader.asked sources request = asked at explores' isAsked stack cache ⊢
  obtain ⟨next, outcome⟩ := asked
  obtain rfl : outcome = .inr (name, path, text) := isAsked
  have found : next.cached? path (Text.Digest.ofText text) = some held := by
    have cache : next.cache = loader.cache := cache
    rw [cached?, cache, stored, Option.filter_some, digest, if_pos (beq_self_eq_true _)]
  have ended : instrumentFile sources next.room next name path text = (next.reuse, .ok held) := by
    have stack : next.inProgress = [] := stack
    rw [instrumentFile_eq, explores'.noneGivenUp, Std.ExtTreeSet.contains_empty, stack, found]
    rfl
  simp only [ended]
  rfl

/-- No answer that is given at once is an instrumented file. -/
theorem asked_ne_instrumented (loader : Loader) (sources : PathMap String) (request : LoadRequest)
    (loaded : InstrumentedModule) :
    (loader.asked sources request).2 ≠ .inl (.instrumented loaded) := by
  have found (before : Loader) (name path : String) :
      before.foundAsked sources name path ≠ .inl (.instrumented loaded) := by
    unfold foundAsked
    cases sources[path]? with
    | none => exact fun same => by cases same
    | some text =>
        simp only
        split
        · exact fun same => by cases same
        · exact Sum.inr_ne_inl
  cases request with
  | file given => exact found loader _ _
  | module name =>
      rw [Loader.asked]
      generalize loader.resolve sources name = step
      obtain ⟨next, _ | path⟩ := step
      · exact fun same => by cases same
      · exact found _ _ _

/-- An answer with an instrumented file is for a request that leads to the file under an admitted
name. -/
theorem Explores.names_of_instrumented (explores : loader.Explores rules sources)
    (sound : loader.CacheSound) {loaded : InstrumentedModule}
    (answered : (loader.answer sources request).2 = .instrumented loaded) :
    ∃ name, request.Names rules sources name loaded.path ∧ rules.Admits name loaded.path ∧
      loaded.path ∈ (loader.answer sources request).1.cache := by
  obtain ⟨-, asks⟩ := explores.asked request
  have atOnce := loader.asked_ne_instrumented sources request loaded
  have sound' := (loads_answer sources loader request).1.cacheSound sound
  rw [answer_eq] at answered sound' ⊢
  generalize loader.asked sources request = asked at asks atOnce answered sound' ⊢
  obtain ⟨next, answer | ⟨name, path, text⟩⟩ := asked
  · exact absurd (congrArg Sum.inl answered) atOnce
  · obtain ⟨names, admitted, -⟩ := (asks name path text).mp rfl
    have ended : (instrumentFile sources next.room next name path text).2 = .ok loaded := by
      simp only at answered
      generalize (instrumentFile sources next.room next name path text).2 = outcome at answered ⊢
      cases outcome with
      | error reason => cases answered
      | ok found =>
          cases answered
          rfl
    obtain ⟨cached, -⟩ := cached_of_instrumentFile ended
    obtain rfl : loaded.path = path := (sound' path loaded cached).1
    exact ⟨name, names, admitted, mem_map_iff.mpr ⟨loaded, cached⟩⟩

end Calls

/-! ## Between calls -/

/-- What holds between the calls of a host of a loader that goes through the files of some sources:
nothing is on the stack. -/
structure AtRest (rules : LoaderRules) (sources : PathMap String) (loader : Loader) : Prop where
  explores : loader.Explores rules sources
  idle : loader.inProgress = []
  sound : loader.CacheSound

section AtRest

variable {rules : LoaderRules} {sources : PathMap String} {loader : Loader}

theorem AtRest.answer (rests : loader.AtRest rules sources) (eager : rules.eager = true)
    (valid : Instrument.isName rules.options.trackerName = true)
    (deep : sources.size ≤ rules.maxDepth) (request : LoadRequest) :
    (loader.answer sources request).1.AtRest rules sources ∧
      ∀ path ∈ loader.cache, path ∈ (loader.answer sources request).1.cache := by
  have loads := (loads_answer sources loader request).1
  exact ⟨⟨rests.explores.answer eager valid deep rests.idle request,
      loads.inProgress_eq.trans rests.idle, loads.cacheSound rests.sound⟩,
    fun path => rests.explores.mem_cache loads⟩

/-- **Calls on the same sources** keep what is in the cache. -/
theorem AtRest.after (rests : loader.AtRest rules sources) (eager : rules.eager = true)
    (valid : Instrument.isName rules.options.trackerName = true)
    (deep : sources.size ≤ rules.maxDepth) {calls : List LoaderCall}
    (on : ∀ call ∈ calls, call.On sources) :
    (loader.after calls).AtRest rules sources ∧
      ∀ path ∈ loader.cache, path ∈ (loader.after calls).cache := by
  induction calls generalizing loader with
  | nil => exact ⟨rests, fun _ => id⟩
  | cons call rest ih =>
      have later : ∀ call ∈ rest, call.On sources :=
        fun call member => on call (List.mem_cons_of_mem _ member)
      cases call with
      | forgetResolved =>
          have forgot : loader.forgetResolved.AtRest rules sources :=
            ⟨{ rests.explores with located := fun _ _ found => by cases found }, rests.idle,
              rests.sound⟩
          exact ih forgot later
      | load now request =>
          obtain rfl : now = sources := on _ List.mem_cons_self
          obtain ⟨rests', kept⟩ := rests.answer eager valid deep request
          obtain ⟨rests'', kept'⟩ := ih rests' later
          exact ⟨rests'', fun path member => kept' path (kept path member)⟩

/-- A cache that is closed holds what is reached from its files. -/
theorem AtRest.mem_cache_of_reaches (rests : loader.AtRest rules sources) {start path : String}
    (held : start ∈ loader.cache) (reaches : rules.Reaches sources start path)
    (parses : rules.Parses sources path) : path ∈ loader.cache := by
  induction reaches with
  | refl => exact held
  | @tail requirer other _ requires ih =>
      have cached := ih requires.parses
      rcases rests.explores.closed requirer cached other requires parses with held | stacked
      · exact held
      · rw [rests.idle] at stacked
        cases stacked

end AtRest

/-! ## The first load -/

section FirstLoad

variable {config : Config} {loader : Loader} {sources : PathMap String}

/-- A new loader is at rest, whatever the sources. -/
theorem atRest_ofConfig (made : ofConfig config none = .ok loader) (sources : PathMap String) :
    loader.AtRest loader.rules sources := by
  obtain ⟨rules, -, rfl⟩ := exists_rules_of_ofConfig made
  exact ⟨⟨rfl, rfl, fun _ _ found => (by cases found), rfl, List.nodup_nil,
    fun _ member => (nomatch member), fun _ _ found => (by cases found),
    fun _ member => absurd member Std.ExtTreeMap.not_mem_empty,
    fun _ member => absurd member Std.ExtTreeMap.not_mem_empty⟩, rfl,
    cacheSound_ofConfig made⟩

/-- Nothing is instrumented in the course of one load but what its file reaches. -/
theorem reaches_of_asked {rules : LoaderRules} {module start name path : String}
    (isStart : rules.locate sources module = some start)
    (asked : rules.Asked [.load sources (.module module)] name path)
    (admitted : rules.Admits name path) : rules.Reaches sources start path := by
  have now {other : PathMap String} (seen : SeenIn [.load sources (.module module)] other) :
      other = sources := by
    obtain ⟨request, member⟩ := seen
    cases List.mem_singleton.mp member
    rfl
  induction asked with
  | module called seen located =>
      cases List.mem_singleton.mp called
      rw [now seen] at located
      obtain rfl := Option.some.inj (isStart.symm.trans located)
      exact .refl
  | file called => cases List.mem_singleton.mp called
  | @required _ _ _ path text required found asked before seen readable eager requires seen' located
      ih =>
      rw [now seen] at readable
      rw [now seen'] at located
      exact (ih before).tail ⟨text, required, readable, requires, located, admitted⟩

/-- **After its first load, a loader that instruments required modules along has everything that the
loaded file reaches**, and nothing else. This is for loads that may nest as deeply as there are
files. Nothing is given up, and from then on each file that was reached and parses is answered with
its instrumented form, under every name that is not excluded and that leads to it, whatever else is
loaded from the same sources in between. -/
theorem cached_iff_reachable {module : String} {loaded : InstrumentedModule}
    (made : ofConfig config none = .ok loader) (eager : config.eagerRequires = true)
    (valid : Instrument.isName config.trackerName = true)
    (deep : sources.size ≤ config.maxLoadDepth)
    (answered : (loader.answer sources (.module module)).2 = .instrumented loaded) :
    let next := (loader.answer sources (.module module)).1
    loader.rules.locate sources module = some loaded.path ∧
      (∀ path, path ∈ next.cache ↔
        loader.rules.Reaches sources loaded.path path ∧ loader.rules.Parses sources path) ∧
      next.aborted = ∅ ∧
      ∀ calls : List LoaderCall, (∀ call ∈ calls, call.On sources) →
        ∀ (request : LoadRequest) (name path : String),
          request.Names loader.rules sources name path → loader.rules.isExcluded name = false →
            loader.rules.Reaches sources loaded.path path → loader.rules.Parses sources path →
              ∃ held, held.path = path ∧
                ((next.after calls).answer sources request).2 = .instrumented held := by
  intro next
  have new := atRest_ofConfig made sources
  have rules : loader.rules.eager = true ∧
      Instrument.isName loader.rules.options.trackerName = true ∧
        sources.size ≤ loader.rules.maxDepth := by
    obtain ⟨rules, ruled, rfl⟩ := exists_rules_of_ofConfig made
    refine ⟨(LoaderRules.eager_ofConfig ruled).trans eager, ?_, ?_⟩
    · rw [(LoaderRules.settings_ofConfig ruled).2]
      exact valid
    · rw [LoaderRules.maxDepth_ofConfig ruled]
      exact deep
  obtain ⟨eager, valid, deep⟩ := rules
  obtain ⟨asked, ⟨rfl, located⟩, admitted, held⟩ :=
    new.explores.names_of_instrumented new.sound answered
  obtain ⟨rests, -⟩ := new.answer eager valid deep (.module module)
  -- what is not reached is not asked for under an admitted name, and so it is avoided
  have reached (path : String) (cached : path ∈ next.cache) :
      loader.rules.Reaches sources loaded.path path := by
    by_contra unreached
    have avoids := (avoids_ofConfig made [.load sources (.module module)] path).answer
      (fun name asked admitted => unreached (reaches_of_asked located asked admitted))
      List.mem_cons_self
    exact avoids.alone.uncached cached
  have tracked {path : String} (reaches : loader.rules.Reaches sources loaded.path path) :
      loader.rules.filter.rule path = true := by
    cases reaches with
    | refl => exact admitted.2
    | tail _ requires =>
        obtain ⟨text, name, -, -, -, admits⟩ := requires
        exact admits.2
  refine ⟨located, fun path => ⟨fun cached => ⟨reached path cached, ?_⟩, ?_⟩,
    rests.explores.noneGivenUp, ?_⟩
  · exact rests.explores.parses path cached
  · rintro ⟨reaches, parses⟩
    exact rests.mem_cache_of_reaches held reaches parses
  · intro calls on request name path names named reaches parses
    obtain ⟨rests', kept⟩ := rests.after eager valid deep on
    exact rests'.explores.answer_cached rests'.sound rests'.idle names ⟨named, tracked reaches⟩
      (kept path (rests.mem_cache_of_reaches held reaches parses))

end FirstLoad

/-- The sources of a host with two files that require each other and a third one. -/
def inCircle : PathMap String :=
  (((∅ : PathMap String).insert "/p/a.lua" "require 'b'\n").insert "/p/b.lua"
    "require 'a'\n").insert "/p/c.lua" "return 1\n"

/-- Of two files that require each other, the second one comes along with the first, and a third
file does not. -/
theorem cached_iff_reachable_circle :
    let config : Config := { root := "/p", maxLoadDepth := 3 }
    ∃ loader loaded held, ofConfig config none = .ok loader ∧
      (loader.answer inCircle (.module "a")).2 = .instrumented loaded ∧
      loader.rules.locate inCircle "a" = some loaded.path ∧
      loader.rules.Reaches inCircle loaded.path "/p/b.lua" ∧ held.path = "/p/b.lua" ∧
      ((loader.answer inCircle (.module "a")).1.answer inCircle (.file "b.lua")).2 =
        .instrumented held ∧
      "/p/c.lua" ∉ (loader.answer inCircle (.module "a")).1.cache := by
  intro config
  have made : ofConfig config none = .ok { rules := .plain config } :=
    ofConfig_plain ⟨rfl, rfl, rfl⟩ none
  have served : (Loader.answer { rules := .plain config } inCircle (.module "a")).2.loaded?.isSome =
      true := by decide +kernel
  obtain ⟨loaded, isLoaded⟩ := Option.isSome_iff_exists.mp served
  have answered := LoadAnswer.loaded?_eq_some.mp isLoaded
  obtain ⟨located, cached, -, later⟩ :=
    cached_iff_reachable made rfl (by decide +kernel) (by decide +kernel) answered
  have along : ((Loader.answer { rules := .plain config } inCircle
      (.module "a")).1.cache["/p/b.lua"]?).isSome = true := by decide +kernel
  obtain ⟨reaches, parses⟩ :=
    (cached "/p/b.lua").mp (Std.ExtTreeMap.mem_iff_isSome_getElem?.mpr along)
  obtain ⟨held, isHeld, again⟩ := later [] (fun _ member => nomatch member) (.file "b.lua")
    "/p/b.lua" "/p/b.lua" ⟨by decide +kernel, rfl⟩ (by decide +kernel) reaches parses
  have other : ((Loader.answer { rules := .plain config } inCircle
      (.module "a")).1.cache["/p/c.lua"]?).isSome = false := by decide +kernel
  refine ⟨_, loaded, held, made, answered, located, reaches, isHeld, again, fun member => ?_⟩
  exact Bool.false_ne_true
    (other.symm.trans (Std.ExtTreeMap.mem_iff_isSome_getElem?.mp member))

end Loader

end LuaCoverage
