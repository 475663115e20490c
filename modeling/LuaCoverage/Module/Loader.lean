import LuaCoverage.Module.Cache
import LuaCoverage.Path.Filter
import LuaCoverage.Text.Digest

/-!
# Loading modules

A host hands every load of a module to the loader, which answers with the instrumented text, with
the text as it is, or with the places where it looked in vain. For a file that was found, the
following is asked in this order.

1. Is the module's name excluded, or the file not tracked? Then the text stays as it is.
2. Was the file given up before? Then the text stays as it is, for good.
3. Is the file just being instrumented? Then the text stays as it is, this time.
4. Is the text in the cache? Then the cached form is the answer.
5. Is there room for one more nested load? If not, the file is given up.

Instrumenting a file may first instrument the files of the modules that it requires. Each such load
takes one place of the room that the nesting depth leaves, and the recursion is on this room: no
load goes on without room, so loading ends on every graph of modules.
-/

set_option autoImplicit false

namespace LuaCoverage

/-- A file that was instrumented. -/
structure InstrumentedModule where
  /-- The name that the file was first loaded under. -/
  name : String
  path : String
  contentHash : String
  source : String
  instrumented : Instrumented
  analysis : Analysis
  deriving DecidableEq

/-- Why a file is served as it is. -/
inductive UnchangedReason where
  | excluded
  /-- The file was asked for while it was being instrumented. -/
  | reentrant
  /-- Loads were nested too deeply when the file came up. -/
  | depthLimit
  /-- The file cannot be instrumented. -/
  | failed
  deriving DecidableEq, Repr

/-- The word for why a file is served as it is. -/
def UnchangedReason.word : UnchangedReason → String
  | .excluded => "excluded"
  | .reentrant => "reentrant"
  | .depthLimit => "depth_limit"
  | .failed => "failed"

/-- The answer to a load. -/
inductive LoadAnswer where
  | instrumented (loaded : InstrumentedModule)
  | unchanged (name path source : String) (reason : UnchangedReason)
  | notFound (name : String) (searched : List String)
  deriving DecidableEq

namespace LoadAnswer

/-- The file that was loaded. -/
def path? : LoadAnswer → Option String
  | instrumented loaded => some loaded.path
  | unchanged _ path _ _ => some path
  | notFound _ _ => none

/-- The text that the host is to run. -/
def text? : LoadAnswer → Option String
  | instrumented loaded => some loaded.instrumented.text
  | unchanged _ _ source _ => some source
  | notFound _ _ => none

end LoadAnswer

/-- What a loader has done so far. -/
structure LoadCounts where
  transforms : Nat := 0
  cacheHits : Nat := 0
  diskHits : Nat := 0
  reentrantSkips : Nat := 0
  depthAborts : Nat := 0
  failures : Nat := 0
  deriving DecidableEq, Repr

/-- The document of what a loader has done. -/
def LoadCounts.toJson (stats : LoadCounts) : Json.Value :=
  .ofMembers
    [("transforms", .ofNat stats.transforms), ("cache_hits", .ofNat stats.cacheHits),
     ("disk_hits", .ofNat stats.diskHits), ("reentrant_skips", .ofNat stats.reentrantSkips),
     ("depth_aborts", .ofNat stats.depthAborts), ("failures", .ofNat stats.failures)]

/-! ## Rules -/

/-- What a loader goes by. -/
structure LoaderRules where
  root : String
  /-- Where modules are looked for, in order; a question mark stands for the name. -/
  templates : List String
  /-- The names of modules that are never instrumented. -/
  excluded : List Path.Pattern
  filter : Path.Filter
  settings : AnalysisSettings
  options : InstrumentSettings
  /-- How deeply loads may nest. -/
  maxDepth : Nat
  /-- Whether required modules are instrumented along. -/
  eager : Bool

namespace LoaderRules

/-- The names of the tracker's own modules. -/
def ownModules : List String := ["covlua", "covlua.*"]

/-- The templates in a text, where semicolons separate them. -/
def templatesOf (text : String) : List String :=
  ((text.toList.splitOn ';').map Text.trimmed).filterMap fun template =>
    if template.isEmpty then none else some (String.ofList template)

/-- The rules of a configuration. -/
def ofConfig (config : Config) : Except CoverageError LoaderRules := do
  let excluded ← Path.parsePatterns (ownModules ++ config.excludedModules)
  let filter ← Path.Filter.ofConfig config
  return {
    root := config.root
    templates := templatesOf config.modulePath
    excluded := excluded
    filter := filter
    settings := config.analysisSettings
    options := .ofConfig config
    maxDepth := config.maxLoadDepth
    eager := config.eagerRequires }

/-- Whether a module of a given name is never instrumented. -/
def isExcluded (rules : LoaderRules) (name : String) : Bool :=
  Path.matchesAny rules.excluded name

/-- A text with a text in the place of each occurrence of a character. -/
def replaced (char : Char) (replacement text : List Char) : List Char :=
  text.flatMap fun found => if found = char then replacement else [found]

/-- The paths where a module may lie, in the order of the search. -/
def candidates (rules : LoaderRules) (name : String) : List String :=
  let pathName := replaced '.' ['/'] name.toList
  rules.templates.map fun template =>
    Path.normalize rules.root (String.ofList (replaced '?' pathName template.toList))

end LoaderRules

/-! ## State -/

/-- A loader of modules. -/
structure Loader where
  rules : LoaderRules
  /-- Where modules were found, or that they were not, by name. -/
  resolved : PathMap (Option String) := ∅
  /-- The files that are just being instrumented, innermost first. -/
  inProgress : List String := []
  /-- The files that were given up because loads were nested too deeply. -/
  aborted : Std.ExtTreeSet String := ∅
  /-- The instrumented files by path, each with the text it was last instrumented for. -/
  cache : PathMap InstrumentedModule := ∅
  /-- What is kept between runs. -/
  disk : Option SourceCache := none
  stats : LoadCounts := {}

namespace Loader

/-- The loader of a configuration. -/
def ofConfig (config : Config) (disk : Option SourceCache) : Except CoverageError Loader := do
  let rules ← LoaderRules.ofConfig config
  return { rules := rules, disk := disk }

/-- How many files are just being instrumented. -/
def depth (loader : Loader) : Nat := loader.inProgress.length

/-- How many more loads may nest. -/
def room (loader : Loader) : Nat := loader.rules.maxDepth - loader.depth

/-- Finds the file of a module. What was found once is not looked for again. -/
def resolve (loader : Loader) (sources : PathMap String) (name : String) :
    Loader × Option String :=
  match loader.resolved[name]? with
  | some known => (loader, known)
  | none =>
      let found := (loader.rules.candidates name).find? fun path => sources.contains path
      ({ loader with resolved := loader.resolved.insert name found }, found)

/-- Forgets where modules were found. -/
def forgetResolved (loader : Loader) : Loader := { loader with resolved := ∅ }

/-- The instrumented form of a file for a text with a given hash, if it is in the cache. -/
def cached? (loader : Loader) (path contentHash : String) : Option InstrumentedModule :=
  (loader.cache[path]?).filter fun loaded => loaded.contentHash == contentHash

/-- Notes that a file is being instrumented. -/
def enter (loader : Loader) (path : String) : Loader :=
  { loader with inProgress := path :: loader.inProgress }

/-- Notes that the innermost file is no longer being instrumented. -/
def leave (loader : Loader) : Loader :=
  { loader with inProgress := loader.inProgress.tail }

/-- Gives a file up. -/
def abort (loader : Loader) (path : String) : Loader :=
  { loader with
    aborted := loader.aborted.insert path
    stats := { loader.stats with depthAborts := loader.stats.depthAborts + 1 } }

/-- Notes that a file was asked for while it was being instrumented. -/
def skip (loader : Loader) : Loader :=
  { loader with stats := { loader.stats with reentrantSkips := loader.stats.reentrantSkips + 1 } }

/-- Notes that a file was answered from the cache. -/
def reuse (loader : Loader) : Loader :=
  { loader with stats := { loader.stats with cacheHits := loader.stats.cacheHits + 1 } }

/-- Keeps an instrumented file. -/
def keep (loader : Loader) (loaded : InstrumentedModule) : Loader :=
  { loader with cache := loader.cache.insert loaded.path loaded }

/-- Notes that a file cannot be instrumented. -/
def fail (loader : Loader) : Loader :=
  { loader with stats := { loader.stats with failures := loader.stats.failures + 1 } }

/-! ## Instrumenting a file -/

/-- The instrumented form of a source that is kept between runs. An entry that cannot be read does
not count. -/
def stored? (loader : Loader) (key : CacheKey) : Option Instrumented :=
  loader.disk.bind fun disk =>
    match disk.get? key with
    | .ok found => found
    | .error _ => none

/-- Instruments a source, unless its instrumented form is kept between runs. -/
def produce (loader : Loader) (path contentHash text : String) (analysis : Analysis) :
    Loader × Except CoverageError Instrumented :=
  let key : CacheKey := ⟨path, contentHash, loader.rules.options.trackerName⟩
  match loader.stored? key with
  | some out =>
      ({ loader with stats := { loader.stats with diskHits := loader.stats.diskHits + 1 } },
        .ok out)
  | none =>
      match instrumentWith loader.rules.options text path analysis with
      | .error problem => (loader, .error problem)
      | .ok out =>
          ({ loader with
              disk := loader.disk.map fun disk => disk.put key out
              stats := { loader.stats with transforms := loader.stats.transforms + 1 } }, .ok out)

/-- Instruments the file of a required module in a given way, if it is to be instrumented and can be
read. -/
def loadRequired
    (instrumentFile : Loader → String → String → String → Loader)
    (sources : PathMap String) (loader : Loader) (name : String) : Loader :=
  if loader.rules.isExcluded name then loader
  else
    match loader.resolve sources name with
    | (next, none) => next
    | (next, some path) =>
        if next.rules.filter.rule path then
          match sources[path]? with
          | none => next
          | some text => instrumentFile next name path text
        else next

/-- The loader after the modules that a source requires were loaded in a given way. -/
def loadRequirements
    (instrumentFile : Loader → String → String → String → Loader)
    (sources : PathMap String) (loader : Loader) (analysis : Analysis) : Loader :=
  if loader.rules.eager then
    analysis.requires.foldl (loadRequired instrumentFile sources) loader
  else loader

/-- Puts the outcome of instrumenting a file on record. -/
def settle (loader : Loader) (name path contentHash text : String) (analysis : Analysis) :
    Except CoverageError Instrumented → Loader × Except UnchangedReason InstrumentedModule
  | .error _ => (loader.fail, .error .failed)
  | .ok out =>
      let loaded : InstrumentedModule := ⟨name, path, contentHash, text, out, analysis⟩
      (loader.keep loaded, .ok loaded)

/-- Instruments a file, where some number of further loads may nest. -/
def instrumentFile (sources : PathMap String) :
    Nat → Loader → String → String → String → Loader × Except UnchangedReason InstrumentedModule
  | room, loader, name, path, text =>
      if loader.aborted.contains path then (loader, .error .depthLimit)
      else if loader.inProgress.contains path then (loader.skip, .error .reentrant)
      else
        let contentHash := Text.Digest.ofText text
        match loader.cached? path contentHash with
        | some loaded => (loader.reuse, .ok loaded)
        | none =>
            match room with
            | 0 => (loader.abort path, .error .depthLimit)
            | room + 1 =>
                let analysis := analyze loader.rules.settings text path
                let prepared := (loader.enter path).loadRequirements
                  (fun inner required file found =>
                    (instrumentFile sources room inner required file found).1)
                  sources analysis
                let (produced, outcome) := prepared.produce path contentHash text analysis
                produced.leave.settle name path contentHash text analysis outcome

/-! ## Loads -/

/-- Answers the load of a file under a name. -/
def loadFound (loader : Loader) (sources : PathMap String) (name path : String) :
    Loader × LoadAnswer :=
  match sources[path]? with
  | none => (loader, .notFound name [path])
  | some text =>
      if loader.rules.isExcluded name || !loader.rules.filter.rule path then
        (loader, .unchanged name path text .excluded)
      else
        match loader.instrumentFile sources loader.room name path text with
        | (next, .ok loaded) => (next, .instrumented loaded)
        | (next, .error reason) => (next, .unchanged name path text reason)

/-- Answers the load of a module. -/
def load (loader : Loader) (sources : PathMap String) (name : String) :
    Loader × LoadAnswer :=
  match loader.resolve sources name with
  | (next, none) => (next, .notFound name (next.rules.candidates name))
  | (next, some path) => next.loadFound sources name path

/-- Answers that the host runs a file. -/
def loadFile (loader : Loader) (sources : PathMap String) (file : String) :
    Loader × LoadAnswer :=
  let path := Path.normalize loader.rules.root file
  loader.loadFound sources path path

end Loader

end LuaCoverage
