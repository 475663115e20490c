import LuaCoverage.Instrument.Transform
import LuaCoverage.Json.Writer

/-!
# The cache of instrumented sources

Instrumented sources are kept between runs under the path of the file, the hash of its text and the
name of the tracker. Everything but the text of an entry is kept as the text of a document, and an
entry whose document cannot be read is an error, which callers take for a miss.

The entries of one path all belong to one text: storing an entry drops those of the same path with
another hash.

A cache records the version of its schema. Opening a cache of an earlier version drops its entries,
because they can be made again; a cache of a later version is refused.
-/

set_option autoImplicit false

namespace LuaCoverage

open Json

/-- What an entry of the cache is kept under. -/
structure CacheKey where
  path : String
  contentHash : String
  tracker : String
  deriving DecidableEq, Repr

/-- An entry of the cache. -/
structure CacheEntry where
  key : CacheKey
  text : String
  /-- The document of all but the text. -/
  metadata : String
  deriving DecidableEq, Repr

/-- How much a cache holds. -/
structure CacheUsage where
  entries : Nat
  files : Nat
  /-- The characters of all texts. -/
  size : Nat
  deriving DecidableEq, Repr

/-- A cache of instrumented sources. -/
structure SourceCache where
  entries : List CacheEntry := []
  /-- The recorded version of the schema; a new cache has none. -/
  version : Option Int := none
  deriving DecidableEq

namespace SourceCache

/-- The version of the schema that entries are written under. -/
def schemaVersion : Nat := 2

/-- The entry of an instrumented source. -/
def entryOf (key : CacheKey) (out : Instrumented) : CacheEntry :=
  ⟨key, out.text, out.metadata.render⟩

/-- Reads an instrumented source back from its entry. -/
def read (entry : CacheEntry) : Except CoverageError Instrumented :=
  match (Json.parse entry.metadata).bind (Instrumented.ofMetadata? entry.text) with
  | some out => .ok out
  | none => .error .document

/-- The instrumented source that is kept under a key. -/
def get? (cache : SourceCache) (key : CacheKey) : Except CoverageError (Option Instrumented) :=
  match cache.entries.find? fun entry => entry.key == key with
  | none => .ok none
  | some entry => (read entry).map some

/-- Whether storing under a key leaves an entry in place. -/
def survives (key : CacheKey) (entry : CacheEntry) : Bool :=
  entry.key != key && (entry.key.path != key.path || entry.key.contentHash == key.contentHash)

/-- Stores an instrumented source. Entries of the same path with another hash go. -/
def put (cache : SourceCache) (key : CacheKey) (out : Instrumented) : SourceCache :=
  { cache with entries := cache.entries.filter (survives key) ++ [entryOf key out] }

/-- How much the cache holds. -/
def stats (cache : SourceCache) : CacheUsage :=
  { entries := cache.entries.length
    files := (cache.entries.map fun entry => entry.key.path).eraseDups.length
    size := cache.entries.foldl (fun total entry => total + entry.text.length) 0 }

/-- Drops all entries, and counts them. -/
def clear (cache : SourceCache) : SourceCache × Nat :=
  ({ cache with entries := [] }, cache.entries.length)

/-- Brings a cache from an earlier version up to the present one, version by version. Entries of one
version are of no use in the next. -/
def migrate (cache : SourceCache) (found : Nat) : SourceCache :=
  if found < schemaVersion then
    migrate { entries := [], version := some (Int.ofNat (found + 1)) } (found + 1)
  else cache
termination_by schemaVersion - found

/-- Opens a cache under the present schema. -/
def opened (cache : SourceCache) : Except CoverageError SourceCache :=
  match cache.version with
  | none => .ok { cache with version := some schemaVersion }
  | some (.negSucc _) => .error .storage
  | some (.ofNat found) =>
      if 4294967296 ≤ found then .error .storage
      else if found = schemaVersion then .ok cache
      else if schemaVersion < found then .error (.laterSchema found schemaVersion)
      else .ok (cache.migrate found)

/-- A new cache, opened. -/
def new : SourceCache := { version := some schemaVersion }

/-! ## Reports -/

/-- The report on how much the cache holds. -/
def statsText (cache : SourceCache) : String :=
  let stats := cache.stats
  "Entries:    " ++ toString stats.entries ++ "\n"
    ++ "Files:      " ++ toString stats.files ++ "\n"
    ++ "Bytes:      " ++ toString stats.size ++ "\n"

/-- The report on how many entries were dropped. -/
def clearedText (count : Nat) : String := "Removed " ++ toString count ++ " cached sources\n"

/-! ## Documents -/

/-- The document of how much a cache holds. -/
def statsToJson (stats : CacheUsage) : Value :=
  .ofMembers
    [("entries", .ofNat stats.entries), ("files", .ofNat stats.files), ("bytes", .ofNat stats.size)]

/-- The document of an entry. -/
def entryToJson (entry : CacheEntry) : Value :=
  .ofMembers
    [("path", .ofString entry.key.path), ("content_hash", .ofString entry.key.contentHash),
     ("tracker_name", .ofString entry.key.tracker), ("transformed", .ofString entry.text),
     ("metadata", .ofString entry.metadata)]

/-- Reads an entry. -/
def entryOfJson? (document : Value) : Option CacheEntry := do
  let [path, contentHash, tracker, text, metadata] ←
    document.fields? ["path", "content_hash", "tracker_name", "transformed", "metadata"] | none
  return {
    key :=
      { path := ← Value.required Value.text? path
        contentHash := ← Value.required Value.text? contentHash
        tracker := ← Value.required Value.text? tracker }
    text := ← Value.required Value.text? text
    metadata := ← Value.required Value.text? metadata }

/-- The document of a cache. -/
def toJson (cache : SourceCache) : Value :=
  .ofMembers
    [("version", .ofOption (fun version => .ofNat version.toNat) cache.version),
     ("entries", .ofList entryToJson cache.entries)]

/-- Reads a cache. -/
def ofJson? (document : Value) : Option SourceCache := do
  let [version, entries] ← document.fields? ["version", "entries"] | none
  let found ← Value.optional Value.nat32? version
  return {
    entries := ← Value.required (Value.list? entryOfJson?) entries
    version := found.map Int.ofNat }

end SourceCache

end LuaCoverage
