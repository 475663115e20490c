import LuaCoverage.Path.Normal
import LuaCoverage.Store.Merge

/-!
# The coverage store

The store holds one record per file, under the key of its path. All collecting goes through the
operations here. An operation that may come to nothing says so in its answer and leaves the store as
it is: hits are recorded for tracked files only, and a line is covered only if it was executed and
can be.
-/

set_option autoImplicit false

namespace LuaCoverage

/-- What contradicts what in a line record. -/
inductive Violation where
  | coveredNotExecuted
  | executedNotExecutable
  deriving DecidableEq, Repr

/-- The word for a contradiction in documents. -/
def Violation.word : Violation → String
  | .coveredNotExecuted => "covered_not_executed"
  | .executedNotExecutable => "executed_not_executable"

/-- The contradictions in a line record. -/
def LineRecord.violations (record : LineRecord) : List Violation :=
  (if record.covered && !record.executed then [.coveredNotExecuted] else [])
    ++ if record.executed && !record.executable then [.executedNotExecutable] else []

/-- The coverage of all files. -/
structure CoverageStore where
  files : PathMap FileRecord := ∅
  deriving DecidableEq

namespace CoverageStore

/-- The store without any file. -/
def empty : CoverageStore := {}

/-- The record of a file, or a new one that is not tracked. -/
def fileOrEmpty (store : CoverageStore) (path : String) : FileRecord :=
  (store.files[path]?).getD { path := path }

/-- The store with a given record for a file. -/
def put (store : CoverageStore) (path : String) (file : FileRecord) : CoverageStore :=
  { store with files := store.files.insert path file }

/-- The record of a file, if hits on it are recorded. -/
def tracked? (store : CoverageStore) (path : String) : Option FileRecord :=
  (store.files[path]?).filter FileRecord.active

/-- The store after an operation on one file that may come to nothing, and whether it did not. -/
def attempt (store : CoverageStore) (path : String) (changed : Option FileRecord) :
    CoverageStore × Bool :=
  match changed with
  | none => (store, false)
  | some file => (store.put path file, true)

/-! ## Files -/

/-- Tracks a file with an analysis of its source. A file that was analyzed before stays as it is. -/
def track (store : CoverageStore) (path source : String) (analysis : Analysis) :
    CoverageStore :=
  store.put path ((store.fileOrEmpty path).register source analysis)

/-- Tracks a file whose source is not available. -/
def trackUnanalyzed (store : CoverageStore) (path : String) : CoverageStore :=
  store.put path { store.fileOrEmpty path with active := true, discovered := true }

/-- Notes that a file exists. -/
def note (store : CoverageStore) (path : String) : CoverageStore :=
  store.put path (store.fileOrEmpty path)

/-- The store with the record of a file changed, if there is one. -/
def modifyFile (store : CoverageStore) (path : String) (change : FileRecord → FileRecord) :
    CoverageStore :=
  { store with files := store.files.modify path change }

/-! ## Hits -/

/-- The record of a line of a tracked file, made up and kept if the line was not known. -/
def lineOrCreate (store : CoverageStore) (path : String) (line : Nat) :
    CoverageStore × Option LineRecord :=
  match store.tracked? path with
  | none => (store, none)
  | some file =>
      let record := file.lineOrUnclassified line
      (store.put path { file with lines := file.lines.insert line record }, some record)

/-- Records one execution of a line, credited in a given way. -/
def hit (store : CoverageStore) (path : String) (line : Nat) (attribution : Attribution) :
    CoverageStore × Bool :=
  store.attempt path ((store.tracked? path).map fun file => file.hit line attribution)

/-- Marks a line as covered, if it was executed and can be. -/
def cover (store : CoverageStore) (path : String) (line : Nat) : CoverageStore × Bool :=
  store.attempt path ((store.files[path]?).bind fun file => file.cover line)

/-- Records a call of a function that lies on one line alone. -/
def callInline (store : CoverageStore) (path : String) (line : Nat) :
    CoverageStore × Bool :=
  store.attempt path ((store.tracked? path).bind fun file => file.callInline line)

/-- Records a call of the function that starts on a line. -/
def call (store : CoverageStore) (path : String) (line : Nat) :
    CoverageStore × Bool :=
  store.attempt path ((store.tracked? path).bind fun file => file.call line)

/-! ## Blocks -/

/-- Adds a block to a file, and counts the waiting children it found. -/
def addBlock (store : CoverageStore) (path : String) (block : BlockRecord) :
    CoverageStore × Nat :=
  match store.files[path]? with
  | none => (store, 0)
  | some file =>
      let (table, resolved) := file.blocks.insert block
      (store.put path { file with blocks := table }.reindex, resolved)

/-- Gives a block of a file another parent, if the block exists. -/
def setParent (store : CoverageStore) (path : String) (child parent : BlockId) :
    CoverageStore × Bool :=
  match store.files[path]? with
  | none => (store, false)
  | some file =>
      (store.put path { file with blocks := file.blocks.setParent child (some parent) },
        file.blocks.blocks.contains child)

/-- Repairs the block table of one file. -/
def resolveFile (store : CoverageStore) (path : String) : CoverageStore × RepairReport :=
  match store.files[path]? with
  | none => (store, {})
  | some file =>
      let (resolved, report) := file.resolveBlocks
      (store.put path resolved, report)

/-- Repairs the block tables of all files. -/
def resolveAll (store : CoverageStore) : CoverageStore × RepairReport :=
  ({ store with files := store.files.map fun _ file => file.resolveBlocks.1 },
   store.files.foldl (fun report _ file => report.add file.resolveBlocks.2) {})

/-! ## All files -/

/-- The counts over all files. -/
def summary (store : CoverageStore) : Summary :=
  store.files.foldl (fun total _ file => total.add file.summary) {}

/-- The contradictions in the line records, by path and line. -/
def violations (store : CoverageStore) : List (String × Nat × Violation) :=
  store.files.values.flatMap fun file =>
    file.lines.toList.flatMap fun entry =>
      entry.2.violations.map fun violation => (file.path, entry.1, violation)

/-- Clears marks that contradict others, and counts the lines that changed. -/
def clearContradictions (store : CoverageStore) : CoverageStore × Nat :=
  ({ store with files := store.files.map fun _ file => file.enforce.1 },
   store.files.foldl (fun changed _ file => changed + file.enforce.2) 0)

/-- Our store with a store that was collected elsewhere added. -/
def merge (ours theirs : CoverageStore) : CoverageStore :=
  { ours with
    files := theirs.files.foldl
      (fun merged path file =>
        merged.insert path (match merged[path]? with
          | none => file.reindex
          | some own => own.merge file))
      ours.files }

end CoverageStore

end LuaCoverage
