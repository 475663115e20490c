import LuaCoverage.Proofs.Module.LoadSteps
import LuaCoverage.Proofs.Text.Bytes

/-!
# Loads of single files

A host calls a loader again and again (`Loader.answers`). Most of what can come of one call is due
to the modules that a file requires, to files that are left alone and to loads before. Here these
are put aside.

Where a configuration has no patterns, only the tracker's own modules are left alone, and the rules
of a loader can be written down (`LoaderRules.ofConfig_plain`). A load of a file that requires no
module comes to instrumenting this file, unless it was instrumented for its text before
(`Loader.answer_alone`). The first load of all then serves the form that is kept under the key of
the file (`Loader.answers_kept`), and without one what is made of the text (`Loader.answers_made`).
A loader that keeps nothing between runs serves what it makes at every such load
(`Loader.IsIdle.answer`).
-/

set_option autoImplicit false

namespace LuaCoverage

/-! ## Calls -/

/-- What a host does with a loader. The sources are those of the moment. -/
inductive LoaderCall where
  | load (sources : PathMap String) (request : LoadRequest)
  | forgetResolved

namespace Loader

/-- What a loader makes of a call: its next state, and its answer to a load. -/
def serve (loader : Loader) : LoaderCall → Loader × Option LoadAnswer
  | .load sources request =>
      let (next, answer) := loader.answer sources request
      (next, some answer)
  | .forgetResolved => (loader.forgetResolved, none)

/-- A loader after some calls. -/
def after (loader : Loader) (calls : List LoaderCall) : Loader :=
  calls.foldl (fun next call => (next.serve call).1) loader

/-- The answers of a loader to calls one after the other. -/
def answers (loader : Loader) : List LoaderCall → List (Option LoadAnswer)
  | [] => []
  | call :: rest => (loader.serve call).2 :: (loader.serve call).1.answers rest

end Loader

/-! ## Loaders without patterns -/

/-- Whether a configuration has no patterns. -/
structure Config.IsPlain (config : Config) : Prop where
  included : config.includePatterns = []
  excluded : config.excludePatterns = []
  modules : config.excludedModules = []

open Path in
/-- The patterns of the tracker's own modules. -/
def LoaderRules.ownPatterns : List Pattern :=
  let word : Pattern :=
    [.literal 'c', .literal 'o', .literal 'v', .literal 'l', .literal 'u', .literal 'a']
  [word, word ++ [.literal '.', .anyBytes]]

theorem LoaderRules.parsePatterns_ownModules :
    Path.parsePatterns ownModules = .ok ownPatterns := rfl

/-- A pattern that begins with a character matches only names that begin with its first byte. -/
theorem Path.Pattern.matchesPath_eq_false {char : Char} {pattern : Path.Pattern} {name : String}
    {byte : UInt8} {bytes : List UInt8} (encoded : String.utf8EncodeChar char = byte :: bytes)
    (apart : (name.toList.flatMap String.utf8EncodeChar).head? ≠ some byte) :
    Path.Pattern.matchesPath (.literal char :: pattern) name = false := by
  have charBytes : Path.Pattern.charBytes char = byte :: bytes := by
    rw [Path.Pattern.charBytes, Text.toList_toUTF8, String.toList_singleton, List.flatMap_cons,
      List.flatMap_nil, List.append_nil, encoded]
  unfold Path.Pattern.matchesPath
  rw [Text.toList_toUTF8]
  simp only [Path.Pattern.matchBranch, Path.Pattern.matchToken, charBytes]
  cases split : name.toList.flatMap String.utf8EncodeChar with
  | nil => simp [Path.Pattern.afterBytes?, Path.Pattern.isUniversal]
  | cons first rest =>
      have other : byte ≠ first := by
        rintro rfl
        exact apart (by rw [split]; rfl)
      simp [Path.Pattern.afterBytes?, Path.Pattern.isUniversal, other]

namespace LoaderRules

/-- The rules of a configuration without patterns. -/
def plain (config : Config) : LoaderRules where
  root := config.root
  templates := templatesOf config.modulePath
  excluded := ownPatterns
  filter := { root := Path.normalize config.root ".", included := [], excluded := [] }
  settings := config.analysisSettings
  options := .ofConfig config
  maxDepth := config.maxLoadDepth
  eager := config.eagerRequires

theorem ofConfig_plain {config : Config} (isPlain : config.IsPlain) :
    ofConfig config = .ok (plain config) := by
  rw [ofConfig, Path.Filter.ofConfig, isPlain.included, isPlain.excluded, isPlain.modules,
    List.append_nil, parsePatterns_ownModules]
  rfl

/-- Only names that begin like the tracker's own are excluded. -/
theorem isExcluded_plain {config : Config} {name : String}
    (apart : (name.toList.flatMap String.utf8EncodeChar).head? ≠ some 99) :
    (plain config).isExcluded name = false := by
  have encoded : String.utf8EncodeChar 'c' = [99] := by decide
  simp only [isExcluded, plain, Path.matchesAny, ownPatterns, List.any_cons, List.any_nil,
    List.cons_append, List.nil_append, Path.Pattern.matchesPath_eq_false encoded apart,
    Bool.or_false]

/-- Every file is tracked. -/
theorem rule_plain (config : Config) (path : String) : (plain config).filter.rule path = true := by
  have nothing : (plain config).filter.matchesEither [] path = false := by
    rw [Path.Filter.matchesEither, Path.matchesAny, List.any_nil, Bool.false_or]
    exact Option.any_eq_false_iff_get .. |>.mpr fun _ => rfl
  rw [Path.Filter.rule]
  simp only [plain] at nothing ⊢
  rw [nothing]
  rfl

end LoaderRules

/-- The answer to a load under which a file came out in a given way. -/
def LoadAnswer.ofOutcome (name path text : String) :
    Except UnchangedReason InstrumentedModule → LoadAnswer
  | .ok loaded => .instrumented loaded
  | .error reason => .unchanged name path text reason

namespace Loader

theorem ofConfig_plain {config : Config} (isPlain : config.IsPlain) (disk : Option SourceCache) :
    ofConfig config disk = .ok { rules := .plain config, disk := disk } := by
  rw [ofConfig, LoaderRules.ofConfig_plain isPlain]
  rfl

/-- **The load of a file that requires nothing** comes to instrumenting the file, unless it is in
the cache for its text. -/
theorem answer_alone (loader : Loader) (sources : PathMap String) (file : String)
    {path text : String} (isPath : Path.normalize loader.rules.root file = path)
    (readable : sources[path]? = some text) (named : loader.rules.isExcluded path = false)
    (tracked : loader.rules.filter.rule path = true) (room : loader.rules.maxDepth ≠ 0)
    (notGivenUp : loader.aborted.contains path = false) (idle : loader.inProgress = [])
    (uncached : loader.cached? path (Text.Digest.ofText text) = none)
    (alone : (analyze loader.rules.settings text path).requires = []) :
    loader.answer sources (.file file) =
      let ended := (loader.enter path).finish path path text
        (analyze loader.rules.settings text path)
      (ended.1, .ofOutcome path path text ended.2) := by
  obtain ⟨depth, isDepth⟩ := Nat.exists_eq_succ_of_ne_zero room
  have roomFor : loader.room = depth + 1 := by
    rw [Loader.room, Loader.depth, idle, isDepth]
    rfl
  have prepared : loader.prepare sources depth path (analyze loader.rules.settings text path) =
      loader.enter path := by
    rw [prepare, loadRequirements, alone]
    simp
  have ended : loader.instrumentFile sources loader.room path path text =
      (loader.enter path).finish path path text (analyze loader.rules.settings text path) := by
    rw [roomFor, instrumentFile_eq, notGivenUp, idle, uncached]
    exact congrArg (fun prepared : Loader => prepared.finish path path text
      (analyze loader.rules.settings text path)) prepared
  rw [answer, loadFile, isPath, loadFound, readable]
  simp only [named, tracked, ended, Bool.not_true, Bool.or_false, Bool.false_eq_true, if_false]
  generalize (loader.enter path).finish path path text _ = finished
  obtain ⟨next, outcome⟩ := finished
  cases outcome <;> rfl

section Produce

variable {loader : Loader} {path contentHash text : String} {analysis : Analysis}
  {out : Instrumented}

theorem stored?_of_no_disk (loader : Loader) (nothing : loader.disk = none) (key : CacheKey) :
    loader.stored? key = none := by
  rw [stored?, nothing, Option.bind_none]

theorem produce_stored
    (stored : loader.stored? ⟨path, contentHash, loader.rules.options.trackerName⟩ = some out) :
    (loader.produce path contentHash text analysis).2 = .ok out := by
  unfold produce
  simp only [stored]

theorem produce_made
    (missing : loader.stored? ⟨path, contentHash, loader.rules.options.trackerName⟩ = none)
    (made : instrumentWith loader.rules.options text path analysis = .ok out) :
    (loader.produce path contentHash text analysis).1.disk = loader.disk.map (fun disk =>
        disk.put ⟨path, contentHash, loader.rules.options.trackerName⟩ out) ∧
      (loader.produce path contentHash text analysis).2 = .ok out := by
  unfold produce
  simp only [missing, made, and_self]

theorem produce_failed {problem : CoverageError}
    (missing : loader.stored? ⟨path, contentHash, loader.rules.options.trackerName⟩ = none)
    (fails : instrumentWith loader.rules.options text path analysis = .error problem) :
    (loader.produce path contentHash text analysis).2 = .error problem := by
  unfold produce
  simp only [missing, fails]

end Produce

section Alone

variable {sources : PathMap String} {file path text : String} {config : Config}
  {disk : Option SourceCache} {out : Instrumented}

/-- The first load of a loader without patterns, where the file requires nothing: what comes of it
is what comes of producing the file. -/
theorem first_load (isPath : Path.normalize config.root file = path)
    (readable : sources[path]? = some text)
    (apart : (path.toList.flatMap String.utf8EncodeChar).head? ≠ some 99)
    (room : config.maxLoadDepth ≠ 0)
    (alone : (analyze config.analysisSettings text path).requires = []) {next : Loader}
    {outcome : Except CoverageError Instrumented}
    (produced : Loader.produce { rules := .plain config, inProgress := [path], disk := disk } path
      (Text.Digest.ofText text) text (analyze config.analysisSettings text path) =
        (next, outcome)) :
    (Loader.after { rules := .plain config, disk := disk } [.load sources (.file file)]).disk =
        next.disk ∧
      (∀ out, outcome = .ok out →
        Loader.answers { rules := .plain config, disk := disk } [.load sources (.file file)] =
          [some (.instrumented ⟨path, path, Text.Digest.ofText text, text, out,
            analyze config.analysisSettings text path⟩)]) ∧
      ∀ problem, outcome = .error problem →
        Loader.answers { rules := .plain config, disk := disk } [.load sources (.file file)] =
          [some (.unchanged path path text .failed)] := by
  have answered := answer_alone { rules := .plain config, disk := disk } sources file isPath
    readable (LoaderRules.isExcluded_plain apart) (LoaderRules.rule_plain config path) room
    Std.ExtTreeSet.contains_empty rfl rfl alone
  obtain ⟨kept, ended⟩ := finish_produce
    { rules := .plain config, inProgress := [path], disk := disk } path path text
    (analyze config.analysisSettings text path)
  rw [produced] at kept ended
  have answers (result : Except UnchangedReason InstrumentedModule)
      (same : (Loader.finish { rules := .plain config, inProgress := [path], disk := disk } path
        path text (analyze config.analysisSettings text path)).2 = result) :
      Loader.answers { rules := .plain config, disk := disk } [.load sources (.file file)] =
        [some (.ofOutcome path path text result)] :=
    congrArg (fun answer => [some answer]) ((congrArg Prod.snd answered).trans
      (congrArg (LoadAnswer.ofOutcome path path text) same))
  refine ⟨(congrArg (fun answer : Loader × LoadAnswer => answer.1.disk) answered).trans kept,
    ?_, ?_⟩
  · rintro out rfl
    exact answers _ ended
  · rintro problem rfl
    exact answers _ ended

/-- **What is kept is served**, whatever the loader would make of the text. -/
theorem answers_kept (isPath : Path.normalize config.root file = path)
    (readable : sources[path]? = some text)
    (apart : (path.toList.flatMap String.utf8EncodeChar).head? ≠ some 99)
    (room : config.maxLoadDepth ≠ 0)
    (alone : (analyze config.analysisSettings text path).requires = []) {cache : SourceCache}
    (kept : cache.get? ⟨path, Text.Digest.ofText text, config.trackerName⟩ = .ok (some out)) :
    Loader.answers { rules := .plain config, disk := some cache } [.load sources (.file file)] =
      [some (.instrumented ⟨path, path, Text.Digest.ofText text, text, out,
        analyze config.analysisSettings text path⟩)] := by
  have stored : Loader.stored? { rules := .plain config, inProgress := [path], disk := some cache }
      ⟨path, Text.Digest.ofText text, config.trackerName⟩ = some out := by
    rw [stored?, Option.bind_some, kept]
  exact (first_load isPath readable apart room alone rfl).2.1 out (produce_stored stored)

/-- A loader that has nothing stored serves what it makes, and keeps it. -/
theorem answers_made (isPath : Path.normalize config.root file = path)
    (readable : sources[path]? = some text)
    (apart : (path.toList.flatMap String.utf8EncodeChar).head? ≠ some 99)
    (room : config.maxLoadDepth ≠ 0)
    (alone : (analyze config.analysisSettings text path).requires = [])
    (missing : Loader.stored? { rules := .plain config, inProgress := [path], disk := disk }
      ⟨path, Text.Digest.ofText text, config.trackerName⟩ = none)
    (made : instrument config.analysisSettings (.ofConfig config) text path = .ok out) :
    (Loader.after { rules := .plain config, disk := disk } [.load sources (.file file)]).disk =
        disk.map (fun disk => disk.put ⟨path, Text.Digest.ofText text, config.trackerName⟩ out) ∧
      Loader.answers { rules := .plain config, disk := disk } [.load sources (.file file)] =
        [some (.instrumented ⟨path, path, Text.Digest.ofText text, text, out,
          analyze config.analysisSettings text path⟩)] := by
  obtain ⟨keeps, produced⟩ := produce_made missing made
  obtain ⟨disk, answers, -⟩ := first_load isPath readable apart room alone rfl
  exact ⟨disk.trans keeps, answers out produced⟩

end Alone

/-! ## One load after the other -/

/-- Whether a loader without patterns could have been started just now, but for what it has in its
cache and what it has counted. It keeps nothing between runs. -/
structure IsIdle (config : Config) (loader : Loader) : Prop where
  rules : loader.rules = .plain config
  inProgress : loader.inProgress = []
  aborted : loader.aborted = ∅
  disk : loader.disk = none

/-- **An idle loader serves what it makes** of a file that requires nothing, and is idle again. -/
theorem IsIdle.answer {config : Config} {loader : Loader} (idle : loader.IsIdle config)
    {sources : PathMap String} {file path text : String} {out : Instrumented}
    (isPath : Path.normalize config.root file = path) (readable : sources[path]? = some text)
    (apart : (path.toList.flatMap String.utf8EncodeChar).head? ≠ some 99)
    (room : config.maxLoadDepth ≠ 0)
    (alone : (analyze config.analysisSettings text path).requires = [])
    (uncached : loader.cached? path (Text.Digest.ofText text) = none)
    (made : instrument config.analysisSettings (.ofConfig config) text path = .ok out) :
    let loaded : InstrumentedModule := ⟨path, path, Text.Digest.ofText text, text, out,
      analyze config.analysisSettings text path⟩
    (loader.answer sources (.file file)).2 = .instrumented loaded ∧
      (loader.answer sources (.file file)).1.IsIdle config ∧
      (loader.answer sources (.file file)).1.cache = loader.cache.insert path loaded := by
  obtain ⟨rules, idleNow, noneGivenUp, nothing⟩ := idle
  have answered := answer_alone loader sources file (rules ▸ isPath) readable
    (rules ▸ LoaderRules.isExcluded_plain apart) (rules ▸ LoaderRules.rule_plain config path)
    (rules ▸ room) (noneGivenUp ▸ Std.ExtTreeSet.contains_empty) idleNow uncached
    (rules ▸ alone)
  rw [show loader.rules.settings = config.analysisSettings by rw [rules]; rfl] at answered
  let entered := loader.enter path
  let analysis := analyze config.analysisSettings text path
  have missing := entered.stored?_of_no_disk nothing
    ⟨path, Text.Digest.ofText text, entered.rules.options.trackerName⟩
  have enteredRules : entered.rules = .plain config := rules
  obtain ⟨keeps, produced⟩ := produce_made missing
    (show instrumentWith entered.rules.options text path analysis = .ok out by
      rw [enteredRules]; exact made)
  obtain ⟨sameRules, left, sameAborted⟩ := entered.finish_frame path path text analysis
  obtain ⟨kept, ended⟩ := entered.finish_produce path path text analysis
  rw [produced] at ended
  intro loaded
  rw [answered]
  refine ⟨congrArg (LoadAnswer.ofOutcome path path text) ended, ⟨sameRules.trans rules,
    left.trans idleNow, sameAborted.trans noneGivenUp, ?_⟩, ?_⟩
  · rw [kept.trans keeps, show entered.disk = none from nothing]
    rfl
  · rcases entered.finish_cases path path text analysis with ⟨-, failed⟩ | ⟨other, ended', cache⟩
    · exact nomatch failed.symm.trans ended
    · rw [cache]
      exact congrArg (loader.cache.insert path) (Except.ok.inj (ended'.symm.trans ended))

/-! ## Hosts with one file -/

/-- The sources of a host with one file. -/
def onlyFile (text : String) : PathMap String := (∅ : PathMap String).insert "/p/a.lua" text

theorem readable_onlyFile (text : String) : (onlyFile text)["/p/a.lua"]? = some text :=
  Std.ExtTreeMap.getElem?_insert_self

theorem eq_of_onlyFile {text path found : String}
    (readable : (onlyFile text)[path]? = some found) : found = text := by
  rw [onlyFile, Std.ExtTreeMap.getElem?_insert] at readable
  split at readable
  · exact (Option.some.inj readable).symm
  · cases Std.ExtTreeMap.getElem?_empty.symm.trans readable

theorem path_onlyFile : Path.normalize "/p" "a.lua" = "/p/a.lua" := by decide +kernel

theorem apart_onlyFile : ("/p/a.lua".toList.flatMap String.utf8EncodeChar).head? ≠ some 99 := by
  decide +kernel

end Loader

end LuaCoverage
