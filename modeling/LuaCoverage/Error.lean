import LuaCoverage.Analysis.Basic
import LuaCoverage.Path.Glob

/-!
# What can go wrong

An error states its cause. The phase it belongs to, whether a run can go on after it, and its
message are functions of the cause. Errors in documents and in the cache's storage carry no cause of
their own: it is enough that the document, or the storage, is not what it should be.
-/

set_option autoImplicit false

namespace LuaCoverage

/-- Why a source identifier names no file. -/
inductive ResolutionCause where
  | emptyFileName
  | namedChunk
  | inlineChunk
  deriving DecidableEq, Repr

/-- The description of why a source identifier names no file. -/
def ResolutionCause.description : ResolutionCause → String
  | .emptyFileName => "empty file name"
  | .namedChunk => "named chunk has no file"
  | .inlineChunk => "inline chunk has no file"

/-- Why a source cannot be instrumented. -/
inductive InstrumentationCause where
  | noTree (reason : Degradation)
  | badTracker (name : String)
  deriving DecidableEq, Repr

/-- The description of why a source cannot be instrumented. -/
def InstrumentationCause.description : InstrumentationCause → String
  | .noTree reason => "no syntax tree (" ++ reason.description ++ ")"
  | .badTracker name => "'" ++ name ++ "' is not a valid tracker name"

/-- An error of the library. -/
inductive CoverageError where
  /-- A file that has to be read is not there. -/
  | missingFile (path : String)
  /-- The storage of the cache does not hold what it should. -/
  | storage
  /-- A document does not have the form it should have. -/
  | document
  | pattern (text : String) (cause : Path.PatternError)
  | resolution (sourceId : String) (cause : ResolutionCause)
  | instrumentation (file : String) (cause : InstrumentationCause)
  /-- A session was given a root directory that is not absolute. -/
  | relativeRoot (root : String)
  /-- The cache was written under a later schema version. -/
  | laterSchema (found supported : Nat)
  deriving DecidableEq, Repr

namespace CoverageError

/-- The phase that an error belongs to. -/
def phase : CoverageError → String
  | missingFile _ => "io"
  | storage => "cache"
  | document => "serialize"
  | pattern _ _ => "config"
  | resolution _ _ => "resolve"
  | instrumentation _ _ => "instrument"
  | relativeRoot _ => "init"
  | laterSchema _ _ => "other"

/-- Whether an error is confined to a file or an event. -/
def isRecoverable : CoverageError → Bool
  | relativeRoot _ => false
  | _ => true

/-- The message of an error. -/
def message : CoverageError → String
  | missingFile path => "I/O error: " ++ path ++ " not found"
  | storage => "The cache cannot be read"
  | document => "The document cannot be read"
  | pattern text cause =>
      "Invalid path pattern: error parsing glob '" ++ text ++ "': " ++ cause.description
  | resolution sourceId cause =>
      "Cannot resolve source '" ++ sourceId ++ "': " ++ cause.description
  | instrumentation file cause =>
      "Instrumentation of " ++ file ++ " failed: " ++ cause.description
  | relativeRoot root =>
      "Coverage store could not be initialized: root '" ++ root ++ "' must be an absolute path"
  | laterSchema found supported =>
      "Cache schema version " ++ toString found ++ " is newer than this build supports ("
        ++ toString supported ++ "). Delete the cache file or upgrade covlua."

end CoverageError

end LuaCoverage
