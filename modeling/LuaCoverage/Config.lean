import LuaCoverage.Document.Words

/-!
# Configuration

A configuration says which files are tracked, how sources are analyzed, how modules are found and
instrumented, and where transformed modules are kept between runs. Every field has a preset, so a
document may give any part of them; only the root directory has no preset of its own and is taken
from where the program runs.
-/

set_option autoImplicit false

namespace LuaCoverage

open Json

/-- The settings of a run. -/
structure Config where
  /-- The directory that relative paths are taken from. -/
  root : String
  /-- Patterns of which a tracked file has to match one, if there are any. -/
  includePatterns : List String := []
  /-- Patterns of which a tracked file matches none. -/
  excludePatterns : List String := []
  structuralKeywords : StructuralPolicy := .nonExecutable
  /-- The time that one source may take to parse. -/
  parseTimeoutMicros : Nat := 2000000
  /-- Sources of more bytes are not parsed. -/
  maxFileBytes : Nat := 4194304
  /-- How deeply the loads of modules may nest. -/
  maxLoadDepth : Nat := 64
  /-- Search templates for modules, separated by semicolons. -/
  modulePath : String := "?.lua;?/init.lua"
  /-- The global variable that injected calls go through. -/
  trackerName : String := "__covlua"
  /-- Patterns of modules that are never instrumented. -/
  excludedModules : List String := []
  /-- The file that transformed modules are kept in between runs. -/
  cachePath : Option String := none
  /-- Whether modules that a module requires are instrumented along with it. -/
  eagerRequires : Bool := true
  deriving DecidableEq

namespace Config

/-- What the analysis of a source depends on. -/
def analysisSettings (config : Config) : AnalysisSettings :=
  ⟨config.structuralKeywords, config.maxFileBytes⟩

/-- The names of the fields in documents, in order. -/
def fieldNames : List String :=
  ["root", "include", "exclude", "structural_keywords", "parse_timeout_micros", "max_file_bytes",
   "max_load_depth", "module_path", "tracker_name", "excluded_modules", "cache_path",
   "eager_requires"]

/-- The document of a configuration. -/
def toJson (config : Config) : Value :=
  .ofMembers
    [("root", .ofString config.root),
     ("include", .ofList Value.ofString config.includePatterns),
     ("exclude", .ofList Value.ofString config.excludePatterns),
     ("structural_keywords", config.structuralKeywords.toJson),
     ("parse_timeout_micros", .ofNat config.parseTimeoutMicros),
     ("max_file_bytes", .ofNat config.maxFileBytes),
     ("max_load_depth", .ofNat config.maxLoadDepth),
     ("module_path", .ofString config.modulePath),
     ("tracker_name", .ofString config.trackerName),
     ("excluded_modules", .ofList Value.ofString config.excludedModules),
     ("cache_path", .ofOption Value.ofString config.cachePath),
     ("eager_requires", .bool config.eagerRequires)]

/-- Reads a configuration; fields that are missing take their presets. -/
def ofJson? (presets : Config) (document : Value) : Option Config := do
  let texts := Value.list? Value.text?
  let [root, includePatterns, excludePatterns, structuralKeywords, parseTimeoutMicros, maxFileBytes,
      maxLoadDepth, modulePath, trackerName, excludedModules, cachePath, eagerRequires] ←
    document.alignedFields? true fieldNames | none
  return {
    root := ← Value.withDefault presets.root Value.text? root
    includePatterns := ← Value.withDefault presets.includePatterns texts includePatterns
    excludePatterns := ← Value.withDefault presets.excludePatterns texts excludePatterns
    structuralKeywords :=
      ← Value.withDefault presets.structuralKeywords StructuralPolicy.ofJson? structuralKeywords
    parseTimeoutMicros :=
      ← Value.withDefault presets.parseTimeoutMicros Value.nat64? parseTimeoutMicros
    maxFileBytes := ← Value.withDefault presets.maxFileBytes Value.nat64? maxFileBytes
    maxLoadDepth := ← Value.withDefault presets.maxLoadDepth Value.nat64? maxLoadDepth
    modulePath := ← Value.withDefault presets.modulePath Value.text? modulePath
    trackerName := ← Value.withDefault presets.trackerName Value.text? trackerName
    excludedModules := ← Value.withDefault presets.excludedModules texts excludedModules
    cachePath := ← Value.withDefault presets.cachePath (Value.orNull? Value.text?) cachePath
    eagerRequires := ← Value.withDefault presets.eagerRequires Value.bool? eagerRequires }

end Config

end LuaCoverage
