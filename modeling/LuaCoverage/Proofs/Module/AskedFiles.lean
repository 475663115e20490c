import LuaCoverage.Proofs.Analysis.RequiredNames
import LuaCoverage.Proofs.Module.EarlierRuns

/-!
# Files and the names that they are asked for under

Whether a file is left alone is decided by the name that it is asked for under: a host gives names
and paths, and the files that are instrumented bring the literal names of their own requirements
along. A loader looks for the file of a name among the sources of the moment, and does not look
again for what it once found, so in the course of many calls a name may stand for any of the files
that were ever found for it. `LoaderRules.Asked` collects the names that can come up for a file.

If all of these are excluded, the loader never touches the file (`Loader.untouched_of_excluded`):
it is not instrumented, neither for itself nor along with another one, nothing of it is kept, and it
is not given up. What carries the induction over nested loads is that a file is entered only under a
name that it is asked for under and that is not excluded.

The condition is on all names. That some name of a file is excluded is not enough: points and
slashes lead to the same file, but the patterns for excluded names tell them apart
(`Loader.touches_excluded_file`).
-/

set_option autoImplicit false

namespace LuaCoverage

/-- Whether sources are those of the moment of some call. -/
def SeenIn (calls : List LoaderCall) (sources : PathMap String) : Prop :=
  ∃ request, LoaderCall.load sources request ∈ calls

/-- The instrumented file that is the answer to a load, if it is one. -/
def LoadAnswer.loaded? : LoadAnswer → Option InstrumentedModule
  | .instrumented loaded => some loaded
  | _ => none

theorem LoadAnswer.loaded?_eq_some {answer : LoadAnswer} {loaded : InstrumentedModule} :
    answer.loaded? = some loaded ↔ answer = .instrumented loaded := by
  cases answer <;> simp [loaded?]

namespace LoaderRules

/-- Where a module lies by some sources: the first of its candidates that is there. -/
def locate (rules : LoaderRules) (sources : PathMap String) (name : String) : Option String :=
  (rules.candidates name).find? fun path => sources.contains path

/-- Whether a file is to be instrumented when it is asked for under a name. -/
def Admits (rules : LoaderRules) (name path : String) : Prop :=
  rules.isExcluded name = false ∧ rules.filter.rule path = true

/-- The names and files that can come together in the course of some calls. -/
inductive Asked (rules : LoaderRules) (calls : List LoaderCall) : String → String → Prop where
  | module {sources now : PathMap String} {name path : String}
      (called : LoaderCall.load sources (.module name) ∈ calls) (seen : SeenIn calls now)
      (located : rules.locate now name = some path) : Asked rules calls name path
  | file {sources : PathMap String} {given : String}
      (called : LoaderCall.load sources (.file given) ∈ calls) :
      Asked rules calls (Path.normalize rules.root given) (Path.normalize rules.root given)
  | required {sources now : PathMap String} {name path text required found : String}
      (asked : Asked rules calls name path) (admitted : rules.Admits name path)
      (seen : SeenIn calls sources) (readable : sources[path]? = some text)
      (eager : rules.eager = true) (requires : RequiresName rules.settings text required)
      (seen' : SeenIn calls now) (located : rules.locate now required = some found) :
      Asked rules calls required found

end LoaderRules

namespace Loader

/-! ## Loads of required modules -/

/-- How the load of a required module comes out. -/
inductive RequiredOutcome (instrument : Loader → String → String → String → Loader)
    (sources : PathMap String) (loader : Loader) (name : String) : Prop
  | excluded (isExcluded : loader.rules.isExcluded name = true)
      (result : loadRequired instrument sources loader name = loader)
  | passedOver (named : loader.rules.isExcluded name = false)
      (nothing : ∀ path, (loader.resolve sources name).2 = some path →
        loader.rules.filter.rule path = true → sources[path]? = none)
      (result : loadRequired instrument sources loader name = (loader.resolve sources name).1)
  | file (path text : String) (found : (loader.resolve sources name).2 = some path)
      (admitted : loader.rules.Admits name path) (readable : sources[path]? = some text)
      (result : loadRequired instrument sources loader name =
        instrument (loader.resolve sources name).1 name path text)

theorem outcome_loadRequired (instrument : Loader → String → String → String → Loader)
    (sources : PathMap String) (loader : Loader) (name : String) :
    RequiredOutcome instrument sources loader name := by
  have isRules := (loader.resolve_frame sources name).1
  cases named : loader.rules.isExcluded name with
  | true =>
      refine .excluded named ?_
      rw [loadRequired, if_pos named]
  | false =>
  have notExcluded : ¬ loader.rules.isExcluded name = true := Bool.eq_false_iff.mp named
  cases resolved : loader.resolve sources name with
  | mk next found =>
  rw [resolved] at isRules
  replace isRules : next.rules = loader.rules := isRules
  cases found with
  | none =>
      refine .passedOver named (fun path isFound => ?_) ?_
      · rw [resolved] at isFound
        cases isFound
      · rw [loadRequired, if_neg notExcluded, resolved]
  | some path =>
      have unfolded : loadRequired instrument sources loader name =
          if loader.rules.filter.rule path then
            sources[path]?.elim next (instrument next name path)
          else next := by
        rw [loadRequired, if_neg notExcluded, resolved, ← isRules]
        dsimp only
        cases sources[path]? <;> rfl
      have onlyPath (other : String) (isFound : (loader.resolve sources name).2 = some other) :
          path = other := by
        rw [resolved] at isFound
        exact Option.some.inj isFound
      cases tracked : loader.rules.filter.rule path with
      | false =>
          refine .passedOver named (fun other isFound tracked' => ?_) ?_
          · rw [← onlyPath other isFound, tracked] at tracked'
            cases tracked'
          · rw [unfolded, tracked, resolved, if_neg Bool.false_ne_true]
      | true =>
          rw [tracked, if_pos rfl] at unfolded
          cases readable : sources[path]? with
          | none =>
              refine .passedOver named (fun other isFound _ => ?_) ?_
              · rw [← onlyPath other isFound, readable]
              · rw [unfolded, readable, resolved]
                rfl
          | some text =>
              refine .file path text (by rw [resolved]) ⟨named, tracked⟩ readable ?_
              rw [unfolded, readable, resolved]
              rfl

/-! ## Files that are left alone -/

/-- A loader leaves a file alone: the file is not being instrumented, it was not given up, and
nothing of it is kept but what was left by earlier runs. -/
structure LeavesAlone (path : String) (left : Option (List CacheEntry)) (loader : Loader) :
    Prop where
  idle : path ∉ loader.inProgress
  notGivenUp : path ∉ loader.aborted
  uncached : path ∉ loader.cache
  kept : (loader.disk.map fun disk => disk.entriesOf path) = left

/-- Finishing another file leaves a file alone. -/
theorem LeavesAlone.finish {path other : String} {left : Option (List CacheEntry)} {loader : Loader}
    (alone : loader.LeavesAlone path left) (apart : other ≠ path) (name text : String)
    (analysis : Analysis) : (loader.finish name other text analysis).1.LeavesAlone path left := by
  obtain ⟨-, inProgress, aborted⟩ := finish_frame loader name other text analysis
  refine ⟨fun member => ?idle, aborted ▸ alone.notGivenUp, fun member => ?uncached, ?kept⟩
  case idle =>
    rw [inProgress] at member
    exact alone.idle (List.mem_of_mem_tail member)
  case uncached =>
    rcases finish_cases loader name other text analysis with ⟨cache, -⟩ | ⟨out, -, cache⟩
    · exact alone.uncached (cache ▸ member)
    · rw [cache, Std.ExtTreeMap.mem_insert] at member
      exact member.elim (fun same => apart (Std.LawfulEqCmp.eq_of_compare same)) alone.uncached
  case kept =>
    rw [(finish_produce loader name other text analysis).1, entriesOf_produce_of_ne loader apart]
    exact alone.kept

/-- Whether a loader has found modules only where the sources of some calls have them. -/
structure FindsAmong (rules : LoaderRules) (calls : List LoaderCall) (loader : Loader) : Prop where
  rules_eq : loader.rules = rules
  located : ∀ name path : String, loader.resolved[name]? = some (some path) →
    ∃ sources, SeenIn calls sources ∧ rules.locate sources name = some path

/-- Resolving a name finds what the sources of some call have. -/
theorem FindsAmong.resolve {rules : LoaderRules} {calls : List LoaderCall} {loader : Loader}
    (finds : loader.FindsAmong rules calls) {sources : PathMap String}
    (seen : SeenIn calls sources) (name : String) :
    (loader.resolve sources name).1.FindsAmong rules calls ∧
      ∀ path, (loader.resolve sources name).2 = some path →
        ∃ sources, SeenIn calls sources ∧ rules.locate sources name = some path := by
  unfold Loader.resolve
  cases known : loader.resolved[name]? with
  | some found =>
      refine ⟨finds, fun path same => finds.located name path ?_⟩
      exact known.trans (congrArg some same)
  | none =>
      have located : (loader.rules.candidates name).find? (fun path => sources.contains path) =
          rules.locate sources name := by rw [finds.rules_eq, LoaderRules.locate]
      simp only [located]
      refine ⟨⟨finds.rules_eq, fun other path found => ?_⟩, fun path found => ⟨_, seen, found⟩⟩
      rw [Std.ExtTreeMap.getElem?_insert] at found
      split at found
      · rename_i same
        obtain rfl := Std.LawfulEqCmp.eq_of_compare same
        exact ⟨sources, seen, Option.some.inj found⟩
      · exact finds.located other path found

/-- What holds of a loader, in the course of some calls, that is never to touch a file. -/
structure Avoids (rules : LoaderRules) (calls : List LoaderCall) (path : String)
    (left : Option (List CacheEntry)) (loader : Loader) : Prop where
  finds : loader.FindsAmong rules calls
  alone : loader.LeavesAlone path left

namespace Avoids

variable {rules : LoaderRules} {calls : List LoaderCall} {path other : String}
  {left : Option (List CacheEntry)} {loader : Loader} {sources : PathMap String}

theorem resolve (avoids : loader.Avoids rules calls path left) (seen : SeenIn calls sources)
    (name : String) : (loader.resolve sources name).1.Avoids rules calls path left := by
  refine ⟨(avoids.finds.resolve seen name).1, ?_⟩
  unfold Loader.resolve
  split <;> exact { avoids.alone with }

/-- Required modules, one after the other. -/
theorem loadRequirements {instrument : Loader → String → String → String → Loader}
    (seen : SeenIn calls sources)
    (each : ∀ (loader : Loader) (name file text : String), loader.Avoids rules calls path left →
      rules.Asked calls name file → rules.Admits name file → sources[file]? = some text →
        (instrument loader name file text).Avoids rules calls path left)
    (avoids : loader.Avoids rules calls path left) (analysis : Analysis)
    (asked : rules.eager = true → ∀ name ∈ analysis.requires, ∀ file,
      (∃ now, SeenIn calls now ∧ rules.locate now name = some file) → rules.Asked calls name file) :
    (loader.loadRequirements instrument sources analysis).Avoids rules calls path left := by
  unfold Loader.loadRequirements
  split
  · rename_i eager
    rw [avoids.finds.rules_eq] at eager
    refine List.foldlRecOn (motive := fun next : Loader => next.Avoids rules calls path left) _ _
      avoids fun next avoids name member => ?_
    have resolved := avoids.resolve seen name
    obtain ⟨-, located⟩ := avoids.finds.resolve seen name
    cases outcome_loadRequired instrument sources next name with
    | excluded isExcluded result => rwa [result]
    | passedOver named nothing result => rwa [result]
    | file file text found admitted readable result =>
        rw [result]
        rw [avoids.finds.rules_eq] at admitted
        exact each _ name file text resolved (asked eager name member file (located file found))
          admitted readable
  · exact avoids

/-- **Instrumenting a file that is asked for under an admitted name** leaves the files alone that
are not. The induction is on the room for nested loads. -/
theorem instrumentFile (seen : SeenIn calls sources)
    (unadmitted : ∀ name, rules.Asked calls name path → ¬ rules.Admits name path) (room : Nat)
    {name text : String} (avoids : loader.Avoids rules calls path left)
    (asked : rules.Asked calls name other) (admitted : rules.Admits name other)
    (readable : sources[other]? = some text) :
    (Loader.instrumentFile sources room loader name other text).1.Avoids rules calls path left := by
  have apart {name file : String} (asked : rules.Asked calls name file)
      (admitted : rules.Admits name file) : file ≠ path := by
    rintro rfl
    exact unadmitted name asked admitted
  induction room using Nat.strongRecOn generalizing loader name other text with
  | ind room ih =>
  cases outcome_instrumentFile sources room loader name other text with
  | givenUp result => rwa [result]
  | reentrant busy result => rw [result]; exact ⟨{ avoids.finds with }, { avoids.alone with }⟩
  | cached loaded found result =>
      rw [result]
      exact ⟨{ avoids.finds with }, { avoids.alone with }⟩
  | tooDeep exhausted result =>
      rw [result]
      refine ⟨{ avoids.finds with }, { avoids.alone with notGivenUp := fun member => ?_ }⟩
      exact (Std.ExtTreeSet.mem_insert.mp member).elim
        (fun same => apart asked admitted (Std.LawfulEqCmp.eq_of_compare same))
        avoids.alone.notGivenUp
  | finished inner deeper idle uncached result =>
      rw [result]
      have entered : (loader.enter other).Avoids rules calls path left :=
        ⟨{ avoids.finds with }, { avoids.alone with
          idle := fun member => (List.mem_cons.mp member).elim
            (fun same => apart asked admitted same.symm) avoids.alone.idle }⟩
      have prepared := entered.loadRequirements seen
        (fun _ _ _ _ avoids asked admitted readable =>
          ih inner (by omega) avoids asked admitted readable)
        (analyze loader.rules.settings text other) ?_
      · refine ⟨⟨?_, fun name file found => ?_⟩,
          prepared.alone.finish (apart asked admitted) name text _⟩
        · exact (finish_frame _ name other text _).1.trans prepared.finds.rules_eq
        · exact prepared.finds.located name file (by rwa [resolved_finish] at found)
      · rintro eager required member file ⟨now, seen', located⟩
        rw [avoids.finds.rules_eq] at member
        exact .required asked admitted seen readable eager (mem_requires_analyze.mp member)
          seen' located

theorem loadFound (seen : SeenIn calls sources)
    (unadmitted : ∀ name, rules.Asked calls name path → ¬ rules.Admits name path) {name : String}
    (avoids : loader.Avoids rules calls path left) (asked : rules.Asked calls name other) :
    (loader.loadFound sources name other).1.Avoids rules calls path left := by
  unfold Loader.loadFound
  split
  · exact avoids
  · rename_i text readable
    split
    · exact avoids
    · rename_i wanted
      have admitted : rules.Admits name other := by
        rw [Bool.or_eq_true, not_or, Bool.not_eq_true, Bool.not_eq_true', Bool.not_eq_false,
          avoids.finds.rules_eq] at wanted
        exact wanted
      have ended := avoids.instrumentFile seen unadmitted loader.room asked admitted readable
      split
      all_goals
        rename_i same
        rwa [same] at ended

/-- **A load** leaves a file alone that is asked for under no admitted name. -/
theorem answer
    (unadmitted : ∀ name, rules.Asked calls name path → ¬ rules.Admits name path)
    (avoids : loader.Avoids rules calls path left) {request : LoadRequest}
    (called : LoaderCall.load sources request ∈ calls) :
    (loader.answer sources request).1.Avoids rules calls path left := by
  have seen : SeenIn calls sources := ⟨request, called⟩
  cases request with
  | file given =>
      rw [Loader.answer, Loader.loadFile, avoids.finds.rules_eq]
      exact avoids.loadFound seen unadmitted (.file called)
  | module name =>
      have resolved := avoids.resolve seen name
      obtain ⟨-, located⟩ := avoids.finds.resolve seen name
      rw [Loader.answer, Loader.load]
      generalize loader.resolve sources name = found at resolved located ⊢
      obtain ⟨next, _ | file⟩ := found
      · exact resolved
      · obtain ⟨now, seen', located⟩ := located file rfl
        exact resolved.loadFound seen unadmitted (.module called seen' located)

end Avoids

/-! ## Every call -/

section Calls

variable {rules : LoaderRules} {calls : List LoaderCall} {path : String}
  {left : Option (List CacheEntry)} {loader : Loader}

/-- Some of the calls, one after the other. -/
theorem Avoids.after (unadmitted : ∀ name, rules.Asked calls name path → ¬ rules.Admits name path)
    (avoids : loader.Avoids rules calls path left) (sound : loader.CacheSound)
    {some_ : List LoaderCall} (among : ∀ call ∈ some_, call ∈ calls) :
    (loader.after some_).Avoids rules calls path left ∧
      ∀ loaded, some (.instrumented loaded) ∈ loader.answers some_ → loaded.path ≠ path := by
  induction some_ generalizing loader with
  | nil => exact ⟨avoids, fun _ member => nomatch member⟩
  | cons call rest ih =>
      have among' : ∀ call ∈ rest, call ∈ calls :=
        fun call member => among call (List.mem_cons_of_mem _ member)
      cases call with
      | forgetResolved =>
          have forgot : loader.forgetResolved.Avoids rules calls path left :=
            ⟨⟨avoids.finds.rules_eq, fun _ _ found => by cases found⟩, { avoids.alone with }⟩
          obtain ⟨after, answers⟩ := ih forgot sound among'
          refine ⟨after, fun loaded member => ?_⟩
          exact answers loaded ((List.mem_cons.mp member).resolve_left nofun)
      | load sources request =>
          obtain ⟨loads, cached⟩ := loads_answer sources loader request
          have avoids' := avoids.answer unadmitted (among _ List.mem_cons_self)
          have sound' := loads.cacheSound sound
          obtain ⟨after, answers⟩ := ih avoids' sound' among'
          refine ⟨after, fun loaded member => ?_⟩
          rcases List.mem_cons.mp member with here | later
          · obtain ⟨found, -, -, -, held⟩ := cached loaded (Option.some.inj here).symm
            rintro rfl
            obtain rfl := (sound' found loaded held).1
            exact avoids'.alone.uncached (mem_map_iff.mpr ⟨_, held⟩)
          · exact answers loaded later

/-- A new loader has not touched anything. -/
theorem avoids_ofConfig {config : Config} {disk : Option SourceCache}
    (made : ofConfig config disk = .ok loader) (calls : List LoaderCall) (path : String) :
    loader.Avoids loader.rules calls path (disk.map fun disk => disk.entriesOf path) := by
  obtain ⟨rules, -, rfl⟩ := exists_rules_of_ofConfig made
  exact ⟨⟨rfl, fun _ _ found => by cases found⟩, List.not_mem_nil, Std.ExtTreeSet.not_mem_empty,
    Std.ExtTreeMap.not_mem_empty, rfl⟩

/-- **A file that is asked for under excluded names only is never touched**, whatever else is
loaded, whichever files require each other, and however sources change between the calls. It is not
instrumented, no form of it is kept in the cache or between runs, it is not given up, and no answer
is an instrumented form of it. -/
theorem untouched_of_excluded {config : Config} {disk : Option SourceCache}
    (made : ofConfig config disk = .ok loader) (calls : List LoaderCall) {path : String}
    (excluded : ∀ name, loader.rules.Asked calls name path → loader.rules.isExcluded name = true) :
    path ∉ (loader.after calls).cache ∧ path ∉ (loader.after calls).inProgress ∧
      path ∉ (loader.after calls).aborted ∧
      ((loader.after calls).disk.map fun disk => disk.entriesOf path) =
        disk.map (fun disk => disk.entriesOf path) ∧
      ∀ loaded, some (.instrumented loaded) ∈ loader.answers calls → loaded.path ≠ path := by
  have unadmitted : ∀ name, loader.rules.Asked calls name path → ¬ loader.rules.Admits name path :=
    fun name asked admitted =>
      Bool.false_ne_true (admitted.1.symm.trans (excluded name asked))
  obtain ⟨⟨-, alone⟩, answers⟩ := (avoids_ofConfig made calls path).after unadmitted
    (cacheSound_ofConfig made) fun _ member => member
  exact ⟨alone.uncached, alone.idle, alone.notGivenUp, alone.kept, answers⟩

end Calls

/-- The sources of a host with one of the tracker's own modules and a file that requires it. -/
def withOwnModule : PathMap String :=
  ((∅ : PathMap String).insert "/p/covlua/tracker.lua" "return {}\n").insert "/p/a.lua"
    "require 'covlua.tracker'\n"

/-- A file that requires one of the tracker's own modules is instrumented, and the own module is
left alone, for itself as well as along with that file. -/
theorem untouched_of_excluded_own :
    let config : Config := { root := "/p" }
    let calls : List LoaderCall :=
      [.load withOwnModule (.module "covlua.tracker"), .load withOwnModule (.module "a")]
    ∃ loader, ofConfig config none = .ok loader ∧
      (∀ name, loader.rules.Asked calls name "/p/covlua/tracker.lua" →
        loader.rules.isExcluded name = true) ∧
      "/p/a.lua" ∈ (loader.after calls).cache ∧
      "/p/covlua/tracker.lua" ∉ (loader.after calls).cache := by
  intro config calls
  have made : ofConfig config none = .ok { rules := .plain config } :=
    ofConfig_plain ⟨rfl, rfl, rfl⟩ none
  have own : (LoaderRules.plain config).isExcluded "covlua.tracker" = true := by decide +kernel
  have excluded : ∀ name, (LoaderRules.plain config).Asked calls name "/p/covlua/tracker.lua" →
      (LoaderRules.plain config).isExcluded name = true := by
    intro name asked
    have now {sources : PathMap String} (seen : SeenIn calls sources) :
        sources = withOwnModule := by
      obtain ⟨request, member⟩ := seen
      simp only [calls, List.mem_cons, LoaderCall.load.injEq, List.not_mem_nil, or_false] at member
      exact member.elim And.left And.left
    generalize isPath : "/p/covlua/tracker.lua" = path at asked
    cases asked with
    | module called seen located =>
        simp only [calls, List.mem_cons, LoaderCall.load.injEq, LoadRequest.module.injEq,
          List.not_mem_nil, or_false] at called
        rcases called with ⟨-, rfl⟩ | ⟨-, rfl⟩
        · exact own
        · have elsewhere : (LoaderRules.plain config).locate withOwnModule "a" =
              some "/p/a.lua" := by decide +kernel
          rw [now seen, elsewhere, ← isPath] at located
          exact absurd (Option.some.inj located) (by decide)
    | file called => simp [calls] at called
    | @required _ _ _ _ text _ _ asked admitted seen readable eager requires seen' located =>
        have listed (fileId : String) :
            name ∈ (analyze (LoaderRules.plain config).settings text fileId).requires :=
          mem_requires_analyze.mpr requires
        have requirer : (analyze (LoaderRules.plain config).settings
            "require 'covlua.tracker'\n" "").requires = ["covlua.tracker"] := by decide +kernel
        have required : (analyze (LoaderRules.plain config).settings
            "return {}\n" "").requires = [] := by decide +kernel
        rw [now seen, withOwnModule, Std.ExtTreeMap.getElem?_insert,
          Std.ExtTreeMap.getElem?_insert, Std.ExtTreeMap.getElem?_empty] at readable
        split at readable
        · obtain rfl := Option.some.inj readable
          obtain rfl := List.mem_singleton.mp (requirer ▸ listed "")
          exact own
        · split at readable
          · obtain rfl := Option.some.inj readable
            exact absurd (required ▸ listed "") List.not_mem_nil
          · cases readable
  have other : ((Loader.after { rules := .plain config } calls).cache["/p/a.lua"]?).isSome =
      true := by decide +kernel
  exact ⟨_, made, excluded, Std.ExtTreeMap.mem_iff_isSome_getElem?.mpr other,
    (untouched_of_excluded made calls excluded).1⟩

/-- A file that an excluded name leads to is instrumented under another name for it. -/
theorem touches_excluded_file :
    let config : Config := { root := "/p" }
    ∃ loader loaded, ofConfig config none = .ok loader ∧
      loader.rules.isExcluded "covlua.tracker" = true ∧
      loader.rules.locate withOwnModule "covlua.tracker" = some "/p/covlua/tracker.lua" ∧
      (loader.answer withOwnModule (.module "covlua/tracker")).2 = .instrumented loaded ∧
      loaded.path = "/p/covlua/tracker.lua" ∧
      "/p/covlua/tracker.lua" ∈
        (loader.answer withOwnModule (.module "covlua/tracker")).1.cache := by
  intro config
  have made : ofConfig config none = .ok { rules := .plain config } :=
    ofConfig_plain ⟨rfl, rfl, rfl⟩ none
  have served : (Loader.answer { rules := .plain config } withOwnModule
      (.module "covlua/tracker")).2.loaded?.map InstrumentedModule.path =
        some "/p/covlua/tracker.lua" := by decide +kernel
  obtain ⟨loaded, isLoaded, isPath⟩ := Option.map_eq_some_iff.mp served
  have cached : ((Loader.answer { rules := .plain config } withOwnModule
      (.module "covlua/tracker")).1.cache["/p/covlua/tracker.lua"]?).isSome = true := by
    decide +kernel
  exact ⟨_, loaded, made, by decide +kernel, by decide +kernel,
    LoadAnswer.loaded?_eq_some.mp isLoaded, isPath,
    Std.ExtTreeMap.mem_iff_isSome_getElem?.mpr cached⟩

end Loader

end LuaCoverage
