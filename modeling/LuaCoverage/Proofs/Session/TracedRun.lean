import LuaCoverage.Proofs.Session.TracedEvents
import LuaCoverage.Proofs.Store.MergeOrder
import LuaCoverage.Session.Replay

/-!
# Traced runs

After any run that is observed through hooks, the store says exactly what was reported. For each
tracked file whose source can be read it holds the lines of the analysis with the number of hits
that were reported on them, and the functions with the number of calls (`FileRecord.Shows`);
stopping the run changes none of that, and every event is counted once (`Session.shows_traced_run`).

The run is followed entry by entry: a report keeps what `Recording.Follows` says of every file, a
load is not answered, and an assertion only covers lines (`Session.Traces.replayEntry`). Stopping
finds nothing to do for such files (`Session.Traces.tracked?_stop`): their analyses are known, no
line of theirs is a guess, and no mark contradicts another.
-/

set_option autoImplicit false

namespace LuaCoverage

/-! ## Assertions -/

/-- **An assertion covers lines**, those where its frames lead. -/
theorem CoverageStore.linkFrames_store (store : CoverageStore)
    (targets : List (Option (String × Nat))) :
    (store.linkFrames targets).1 = targets.foldl
      (fun next target => target.elim next fun place => (next.cover place.1 place.2).1) store := by
  have each : ∀ (store : CoverageStore) (report : Linkage) (target : Option (String × Nat)),
      (store.linkFrame report target).1 =
        target.elim store fun place => (store.cover place.1 place.2).1 := by
    rintro store report (_ | ⟨path, line⟩)
    · rfl
    · rw [linkFrame]
      split <;> rename_i isCovered <;> exact (congrArg Prod.fst isCovered).symm
  have all : ∀ (store : CoverageStore) (report : Linkage),
      (targets.foldl (fun progress target => progress.1.linkFrame progress.2 target)
        (store, report)).1 = targets.foldl (fun next target =>
          target.elim next fun place => (next.cover place.1 place.2).1) store := by
    induction targets with
    | nil => exact fun _ _ => rfl
    | cons target rest ih =>
        intro store report
        rw [List.foldl_cons, List.foldl_cons, ← each store report target]
        exact ih _ _
  exact all store {}

namespace Recording

variable {recording : Recording} {path : String} {analysis : Analysis} {hits calls : Nat → Nat}

/-- Covering a line leaves counts alone. -/
theorem Follows.cover (follows : recording.Follows path analysis hits calls) (other : String)
    (line : Nat) :
    (recording.withStore (recording.store.cover other line).1).Follows path analysis hits
      calls := by
  cases covered : (recording.store.files[other]?).bind (FileRecord.cover · line) with
  | none =>
      refine follows.of_part ?_
      rw [CoverageStore.cover, covered]
      rfl
  | some changed =>
      have store : (recording.store.cover other line).1 = recording.store.put other changed := by
        rw [CoverageStore.cover, covered]
        rfl
      rw [store]
      by_cases here : other = path
      · subst here
        obtain ⟨file, found, covered⟩ := Option.bind_eq_some_iff.mp covered
        have inserted : (recording.store.put other changed).files[other]? = some changed :=
          Std.ExtTreeMap.getElem?_insert_self
        have same : ∀ {known : Option FileRecord × Option Bool × Option Analysis},
            recording.part other = known → known.1 = some file := fun isKnown =>
          (congrArg (·.1) isKnown).symm.trans found
        cases follows with
        | unseen part _ _ => cases same part
        | excluded file' part inactive =>
            obtain rfl := Option.some.inj (same part)
            refine .excluded changed (Prod.ext inserted (congrArg (·.2) part)) ?_
            obtain ⟨record, -, -, rfl⟩ := FileRecord.exists_of_cover covered
            exact inactive
        | tracked file' part tallied =>
            obtain rfl := Option.some.inj (same part)
            exact .tracked changed (Prod.ext inserted (congrArg (·.2) part))
              (tallied.cover covered)
      · exact follows.of_part (congrArg (·, _) (CoverageStore.getElem?_put_of_ne here changed))

/-- Linking an assertion leaves counts alone. -/
theorem Follows.linkFrames (follows : recording.Follows path analysis hits calls)
    (targets : List (Option (String × Nat))) :
    (recording.withStore (recording.store.linkFrames targets).1).Follows path analysis hits
      calls := by
  rw [CoverageStore.linkFrames_store]
  refine List.foldlRecOn (motive := fun store =>
    (recording.withStore store).Follows path analysis hits calls) _ _ follows ?_
  intro store follows target _
  cases target with
  | none => exact follows
  | some place => exact follows.cover place.1 place.2

end Recording

/-! ## The end of a run -/

namespace Recording

variable {recording : Recording} {path : String} {analysis : Analysis} {hits calls : Nat → Nat}

/-- Analyzing a file late changes nothing for files that have an analysis, or for others. -/
theorem part_analyzeLate {sources : PathMap String} {other : String}
    (known : other = path → path ∈ recording.analyses) :
    (recording.analyzeLate sources other).part path = recording.part path := by
  rw [analyzeLate]
  by_cases analyzed : other ∈ recording.analyses
  · rw [if_pos (Std.ExtTreeMap.contains_iff_mem.mpr analyzed)]
  · rw [if_neg fun contained => analyzed (Std.ExtTreeMap.contains_iff_mem.mp contained)]
    have apart : other ≠ path := by
      rintro rfl
      exact analyzed (known rfl)
    cases sources[other]? with
    | none => rfl
    | some source =>
        exact Prod.ext (CoverageStore.getElem?_put_of_ne apart _)
          (Prod.ext (getElem?_insert_of_ne apart _ _) (getElem?_insert_of_ne apart _ _))

/-- What is known about a file that was adopted. -/
theorem part_adopt (source : String) (analysis : Analysis) :
    (recording.adopt path source analysis).part path =
      (some ((recording.store.fileOrEmpty path).register source analysis), some true,
        some analysis) :=
  Prod.ext Std.ExtTreeMap.getElem?_insert_self
    (Prod.ext Std.ExtTreeMap.getElem?_insert_self Std.ExtTreeMap.getElem?_insert_self)

/-- What becomes of a file that is analyzed late depends on what is known about it. -/
theorem part_analyzeLate_congr {first second : Recording} {sources : PathMap String}
    (rules : first.rules = second.rules) (same : first.part path = second.part path) :
    (first.analyzeLate sources path).part path = (second.analyzeLate sources path).part path := by
  have file : first.store.fileOrEmpty path = second.store.fileOrEmpty path :=
    congrArg (Option.getD · _) (congrArg Prod.fst same)
  have analyses : first.analyses.contains path = second.analyses.contains path := by
    rw [Std.ExtTreeMap.contains_eq_isSome_getElem?, Std.ExtTreeMap.contains_eq_isSome_getElem?]
    exact congrArg (fun part => part.2.2.isSome) same
  rw [analyzeLate, analyzeLate, analyses, rules]
  split
  · exact same
  · split
    · rw [part_adopt, part_adopt, file]
    · exact same

theorem analyzeLate_analyzeLate (recording : Recording) (sources : PathMap String) (path : String) :
    (recording.analyzeLate sources path).analyzeLate sources path =
      recording.analyzeLate sources path := by
  by_cases analyzed : recording.analyses.contains path = true
  · have once : recording.analyzeLate sources path = recording := by
      rw [analyzeLate, if_pos analyzed]
    rw [once, once]
  · cases readable : sources[path]? with
    | none =>
      have once : recording.analyzeLate sources path = recording := by
        rw [analyzeLate, if_neg analyzed, readable]
      rw [once, once]
    | some source =>
      have once : recording.analyzeLate sources path =
          recording.adopt path source (analyze recording.rules.settings source path) := by
        rw [analyzeLate, if_neg analyzed, readable]
      rw [once, analyzeLate, if_pos]
      exact Std.ExtTreeMap.contains_insert_self

theorem rules_analyzeLate (recording : Recording) (sources : PathMap String) (path : String) :
    (recording.analyzeLate sources path).rules = recording.rules := by
  unfold analyzeLate
  split
  · rfl
  · split <;> rfl

/-- **A file is analyzed late** if it waits for that, and independently of all others. -/
theorem part_analyzeProvisional (recording : Recording) (sources : PathMap String) (path : String) :
    (recording.analyzeProvisional sources).part path =
      if (recording.store.files[path]?).any fun file => file.active && file.isProvisional then
        (recording.analyzeLate sources path).part path
      else recording.part path := by
  have folded : ∀ entries : List (String × FileRecord),
      let next := entries.foldl (fun next entry => next.analyzeLate sources entry.1) recording
      next.rules = recording.rules ∧ next.part path =
        if path ∈ entries.map Prod.fst then (recording.analyzeLate sources path).part path
        else recording.part path := by
    intro entries
    induction entries using List.reverseRecOn with
    | nil => exact ⟨rfl, rfl⟩
    | append_singleton entries entry ih =>
        obtain ⟨rules, part⟩ := ih
        rw [List.foldl_append, List.foldl_cons, List.foldl_nil]
        refine ⟨(rules_analyzeLate _ sources entry.1).trans rules, ?_⟩
        by_cases here : entry.1 = path
        · subst here
          rw [if_pos (by simp)]
          split at part
          · rw [part_analyzeLate_congr
                (rules.trans (rules_analyzeLate _ sources entry.1).symm) part,
              analyzeLate_analyzeLate]
          · exact part_analyzeLate_congr rules part
        · rw [part_analyzeLate fun same => absurd same here, part]
          refine if_congr ?_ rfl rfl
          rw [List.map_append, List.mem_append, List.map_singleton, List.mem_singleton]
          exact (or_iff_left (Ne.symm here)).symm
  rw [analyzeProvisional, (folded _).2]
  refine if_congr ?_ rfl rfl
  simp [Std.ExtTreeMap.mem_toList_iff_getElem?_eq_some, Option.any_eq_true]

/-- **No file is analyzed late** if its source could be read all along. -/
theorem Follows.part_analyzeProvisional (follows : recording.Follows path analysis hits calls)
    (sources : PathMap String) :
    (recording.analyzeProvisional sources).part path = recording.part path := by
  rw [Recording.part_analyzeProvisional]
  split
  · rename_i waits
    obtain ⟨file, found, isWaiting⟩ := (Option.any_eq_true _ _).mp waits
    refine part_analyzeLate fun _ => ?_
    cases follows with
    | unseen part _ _ => cases found.symm.trans (congrArg (·.1) part)
    | excluded file' part inactive =>
        obtain rfl := Option.some.inj (found.symm.trans (congrArg (·.1) part))
        rw [inactive] at isWaiting
        cases isWaiting
    | tracked file' part _ =>
        rw [Std.ExtTreeMap.mem_iff_isSome_getElem?,
          show recording.analyses[path]? = some analysis from congrArg (·.2.2) part]
        rfl
  · rfl

end Recording

/-! ## Runs -/

namespace ScriptEntry

/-- Whether an entry of a script reports an event. -/
def isReport : ScriptEntry → Bool
  | .report _ => true
  | _ => false

/-- Whether an entry of a script reports that a line of a file ran. -/
def runs (root path : String) (line : Nat) : ScriptEntry → Bool
  | .report event => event.runs root path line
  | _ => false

/-- Whether an entry of a script reports a call of a function that starts on a line of a file. -/
def calls (root path : String) (line : Nat) : ScriptEntry → Bool
  | .report event => event.calls root path line
  | _ => false

end ScriptEntry

/-- How often a line of a file ran, as reported. A line that cannot run did not. -/
def hitsOn (root path : String) (analysis : Analysis) (entries : List ScriptEntry) (line : Nat) :
    Nat :=
  if analysis.isExecutable line then entries.countP (ScriptEntry.runs root path line) else 0

/-- How often functions that start on a line of a file were called, as reported. -/
def callsOn (root path : String) (entries : List ScriptEntry) (line : Nat) : Nat :=
  entries.countP (ScriptEntry.calls root path line)

theorem hitsOn_concat (root path : String) (analysis : Analysis) (entries : List ScriptEntry)
    (entry : ScriptEntry) (line : Nat) :
    hitsOn root path analysis (entries ++ [entry]) line = hitsOn root path analysis entries line +
      if analysis.isExecutable line && entry.runs root path line then 1 else 0 := by
  unfold hitsOn
  cases analysis.isExecutable line with
  | false => rfl
  | true => rw [if_pos rfl, if_pos rfl, List.countP_append, List.countP_singleton, Bool.true_and]

theorem callsOn_concat (root path : String) (entries : List ScriptEntry) (entry : ScriptEntry)
    (line : Nat) :
    callsOn root path (entries ++ [entry]) line =
      callsOn root path entries line + if entry.calls root path line then 1 else 0 := by
  rw [callsOn, List.countP_append, List.countP_singleton, callsOn]

namespace Session

/-- A session in the middle of a traced run, after some entries of a script. -/
structure Traces (rules : TrackingRules) (sources : PathMap String) (entries : List ScriptEntry)
    (session : Session) : Prop where
  traced : session.observer = .trace
  running : session.running = true
  ruled : session.recording.rules = rules
  follows : ∀ path source : String, sources[path]? = some source →
    session.recording.Follows path (analyze rules.settings source path)
      (hitsOn rules.root path (analyze rules.settings source path) entries)
      (callsOn rules.root path entries)
  total : session.recording.counters.total = entries.countP ScriptEntry.isReport

/-- A load is left to the host. -/
theorem intercept_of_trace {session : Session} (traced : session.observer = .trace)
    (sources : PathMap String) (request : LoadRequest) :
    (session.intercept sources request).1 = session := by
  rw [intercept, traced]

/-- **Starting a run** drops all that was found before. -/
theorem traces_start {session : Session} (traced : session.observer = .trace)
    (sources : PathMap String) : session.start.1.Traces session.recording.rules sources [] where
  traced := by
    rw [start, traced]
    rfl
  running := rfl
  ruled := rfl
  follows := fun path source _ => .unseen rfl (fun _ => ite_self 0) fun _ _ => rfl
  total := rfl

section Steps

variable {rules : TrackingRules} {sources : PathMap String} {entries : List ScriptEntry}
  {session : Session}

/-- **A report** is counted. -/
theorem Traces.observe (traces : session.Traces rules sources entries) (event : Event) :
    (session.observe sources event).Traces rules sources (entries ++ [.report event]) := by
  obtain ⟨observer, recording, running⟩ := session
  obtain ⟨rfl, rfl, rfl, follows, total⟩ := traces
  obtain ⟨ruled, counted⟩ := recording.onTraced_frame sources event
  refine ⟨rfl, rfl, ruled, fun path source readable => ?follows, ?total⟩
  case follows =>
    exact ((follows path source readable).onTraced readable rfl event).congr
      (fun _ => hitsOn_concat _ _ _ _ _ _) fun _ _ => callsOn_concat _ _ _ _ _
  case total =>
    show (recording.onTraced sources event).counters.total = _
    rw [counted, List.countP_append, List.countP_singleton]
    exact congrArg (· + 1) total

/-- Where nothing is reported, nothing is counted. -/
theorem Traces.concat (traces : session.Traces rules sources entries) {entry : ScriptEntry}
    (silent : entry.isReport = false) : session.Traces rules sources (entries ++ [entry]) := by
  have idle : ∀ path line, entry.runs rules.root path line = false ∧
      entry.calls rules.root path line = false := by
    intro path line
    cases entry with
    | report event => cases silent
    | load request => exact ⟨rfl, rfl⟩
    | assertion frames => exact ⟨rfl, rfl⟩
  refine { traces with
    follows := fun path source readable => ?_
    total := ?_ }
  · refine (traces.follows path source readable).congr (fun line => ?_) fun line _ => ?_
    · rw [hitsOn_concat, (idle path line).1, Bool.and_false, if_neg Bool.false_ne_true,
        Nat.add_zero]
    · rw [callsOn_concat, (idle path line).2, if_neg Bool.false_ne_true, Nat.add_zero]
  · rw [List.countP_append, List.countP_singleton, silent, if_neg Bool.false_ne_true, Nat.add_zero]
    exact traces.total

theorem Traces.link (traces : session.Traces rules sources entries) (frames : List Frame) :
    (session.link frames).1.Traces rules sources entries :=
  { traces with
    follows := fun path source readable => (traces.follows path source readable).linkFrames _ }

/-- **An entry of a script** keeps a traced run in step with what was reported. -/
theorem Traces.replayEntry (traces : session.Traces rules sources entries) (entry : ScriptEntry) :
    (session.replayEntry sources entry).Traces rules sources (entries ++ [entry]) := by
  cases entry with
  | report event => exact traces.observe event
  | load request =>
      rw [Session.replayEntry, intercept_of_trace traces.traced]
      exact traces.concat rfl
  | assertion frames => exact (traces.link frames).concat rfl

end Steps

/-- **A traced run** is in step with what was reported. -/
theorem traces_run {session : Session} (traced : session.observer = .trace)
    (sources : PathMap String) (entries : List ScriptEntry) :
    (entries.foldl (fun next entry => next.replayEntry sources entry) session.start.1).Traces
      session.recording.rules sources entries := by
  induction entries using List.reverseRecOn with
  | nil => exact traces_start traced sources
  | append_singleton entries entry ih =>
      rw [List.foldl_append]
      exact ih.replayEntry entry

/-- What stopping does to each file, after files were analyzed that could not be before. -/
theorem getElem?_files_stop (session : Session) (sources : PathMap String) (path : String) :
    (session.stop sources).1.store.files[path]? =
      ((session.recording.analyzeProvisional sources).store.files[path]?).map fun file =>
        (((session.recording.analyzeProvisional sources).settledFile path
          file.resolveBlocks.1).1.enforce).1 := by
  show ((((session.recording.analyzeProvisional sources).store.files.map _).map _).map
    _ : PathMap FileRecord)[path]? = _
  rw [Std.ExtTreeMap.getElem?_map, Std.ExtTreeMap.getElem?_map, Std.ExtTreeMap.getElem?_map,
    Option.map_map, Option.map_map]
  rfl

/-- **Stopping a traced run** only repairs the blocks of a tracked file. -/
theorem Traces.stop {rules : TrackingRules} {sources : PathMap String}
    {entries : List ScriptEntry} {session : Session}
    (traces : session.Traces rules sources entries) {path source : String}
    (readable : sources[path]? = some source) :
    (session.store.tracked? path = none ∧ (session.stop sources).1.store.tracked? path = none) ∨
      ∃ file, file.Tallied (analyze rules.settings source path)
          (hitsOn rules.root path (analyze rules.settings source path) entries)
          (callsOn rules.root path entries) ∧
        session.store.tracked? path = some file ∧
        (session.stop sources).1.store.tracked? path = some file.resolveBlocks.1 := by
  have follows := traces.follows path source readable
  have same := follows.part_analyzeProvisional sources
  have stopped := getElem?_files_stop session sources path
  generalize session.recording.analyzeProvisional sources = retried at same stopped
  have tracked : ∀ {store : CoverageStore} {known : Option FileRecord},
      store.files[path]? = known → store.tracked? path = known.filter FileRecord.active := by
    rintro store _ rfl
    rfl
  cases follows with
  | unseen part _ _ =>
      rw [show retried.store.files[path]? = none from congrArg (·.1) (same.trans part)] at stopped
      exact .inl ⟨tracked (congrArg (·.1) part), tracked stopped⟩
  | excluded file part inactive =>
      rw [show retried.store.files[path]? = some file from congrArg (·.1) (same.trans part)]
        at stopped
      have kept : ∀ file : FileRecord,
          (retried.settledFile path file).1.enforce.1.active = file.active := by
        intro file
        rw [Recording.settledFile]
        cases retried.analyses[path]? <;> rfl
      have resolved : file.resolveBlocks.1.active = file.active := rfl
      refine .inl ⟨(tracked (congrArg (·.1) part)).trans ?_, (tracked stopped).trans ?_⟩
      · rw [Option.filter_some, inactive, if_neg Bool.false_ne_true]
      · rw [Option.map_some, Option.filter_some, kept, resolved, inactive,
          if_neg Bool.false_ne_true]
  | tracked file part tallied =>
      rw [show retried.store.files[path]? = some file from congrArg (·.1) (same.trans part)]
        at stopped
      have settled : (retried.settledFile path file.resolveBlocks.1).1 = file.resolveBlocks.1 := by
        rw [Recording.settledFile,
          show retried.analyses[path]? = some (analyze rules.settings source path) from
            congrArg (·.2.2) (same.trans part)]
        exact tallied.resolveBlocks.reclassify
      rw [Option.map_some, settled, tallied.resolveBlocks.enforce] at stopped
      refine .inr ⟨file, tallied, (tracked (congrArg (·.1) part)).trans ?_,
        (tracked stopped).trans ?_⟩
      · rw [Option.filter_some, if_pos tallied.active]
      · rw [Option.filter_some, if_pos tallied.resolveBlocks.active]

end Session

/-! ## What a run shows -/

/-- What a tracked file shows of a run, where some events were reported: the lines of its analysis,
each with the number of hits that were reported on it if it can run, and the number of calls of each
function. Of the functions that start on one line the first counts the calls. -/
structure FileRecord.Shows (file : FileRecord) (root path : String) (analysis : Analysis)
    (entries : List ScriptEntry) : Prop where
  lines : ∀ line : Nat, line ∈ file.lines ↔ 1 ≤ line ∧ line ≤ analysis.lines.length
  verdicts : ∀ (line : Nat) (record : LineRecord), file.lines[line]? = some record →
    analysis.classification? line = some record.verdict ∧ record.provisional = false
  counts : ∀ (line : Nat) (record : LineRecord), file.lines[line]? = some record →
    record.executionCount = UInt64.ofNat (hitsOn root path analysis entries line)
  executed : ∀ (line : Nat) (record : LineRecord), file.lines[line]? = some record →
    (record.executed = true ↔ 0 < hitsOn root path analysis entries line)
  /-- Where the count did not run over, it is positive exactly for the lines that were executed. -/
  positive : ∀ (line : Nat) (record : LineRecord), file.lines[line]? = some record →
    entries.length < UInt64.size → (record.executed = true ↔ 0 < record.executionCount)
  called : ∀ (id : Nat) (function : FunctionRecord), file.functions[id]? = some function →
    file.LeadsTo function.startLine id →
      function.executionCount = UInt64.ofNat (callsOn root path entries function.startLine) ∧
        (function.executed = true ↔ 0 < callsOn root path entries function.startLine)
  uncalled : ∀ (id : Nat) (function : FunctionRecord), file.functions[id]? = some function →
    ¬ file.LeadsTo function.startLine id →
      function.executionCount = 0 ∧ function.executed = false

theorem hitsOn_le_length (root path : String) (analysis : Analysis) (entries : List ScriptEntry)
    (line : Nat) : hitsOn root path analysis entries line ≤ entries.length := by
  unfold hitsOn
  split
  · exact List.countP_le_length
  · exact Nat.zero_le _

theorem FileRecord.Tallied.shows {file : FileRecord} {root path : String} {analysis : Analysis}
    {entries : List ScriptEntry} (tallied : file.Tallied analysis
      (hitsOn root path analysis entries) (callsOn root path entries)) :
    file.Shows root path analysis entries where
  lines := by
    intro line
    rw [← Analysis.exists_classification?_iff]
    constructor
    · intro member
      obtain ⟨record, found⟩ := mem_map_iff.mp member
      obtain ⟨verdict, classified, -⟩ := tallied.lines line record found
      exact ⟨verdict, classified⟩
    · rintro ⟨verdict, classified⟩
      exact tallied.complete line verdict classified
  verdicts := by
    intro line record found
    obtain ⟨verdict, classified, isTally⟩ := tallied.lines line record found
    exact ⟨isTally.classified ▸ classified, isTally.settled⟩
  counts := by
    intro line record found
    obtain ⟨verdict, -, isTally⟩ := tallied.lines line record found
    exact isTally.count
  executed := by
    intro line record found
    obtain ⟨verdict, -, isTally⟩ := tallied.lines line record found
    exact isTally.executed
  positive := by
    intro line record found fits
    obtain ⟨verdict, -, isTally⟩ := tallied.lines line record found
    have exact : record.executionCount.toNat = hitsOn root path analysis entries line := by
      rw [isTally.count, UInt64.toNat_ofNat']
      exact Nat.mod_eq_of_lt (Nat.lt_of_le_of_lt (hitsOn_le_length _ _ _ _ _) fits)
    rw [isTally.executed, UInt64.lt_iff_toNat_lt, exact]
    rfl
  called := by
    intro id function found leads
    obtain ⟨count, executed⟩ := tallied.called id function found leads
    exact ⟨count, executed⟩
  uncalled := by
    intro id function found misses
    obtain ⟨count, executed⟩ := tallied.uncalled id function found misses
    rw [← Bool.not_eq_true, executed]
    exact ⟨count, Nat.lt_irrefl 0⟩

namespace Session

/-- **What a traced run leaves behind.** Whatever a session did before it was started, and whatever
is reported, loaded or asserted after that: each tracked file whose source can be read shows exactly
the events that were reported, both before and after the run is stopped. Stopping leaves its lines
as they are. Every event is counted as recorded, ignored or skipped. -/
theorem shows_traced_run (session : Session) (traced : session.observer = .trace)
    (sources : PathMap String) (entries : List ScriptEntry) :
    let rules := session.recording.rules
    let running := entries.foldl (fun next entry => next.replayEntry sources entry) session.start.1
    let stopped := (running.stop sources).1
    (∀ path source : String, sources[path]? = some source →
      (∀ file, running.store.tracked? path = some file ∨ stopped.store.tracked? path = some file →
        file.Shows rules.root path (analyze rules.settings source path) entries) ∧
      (stopped.store.tracked? path).map FileRecord.lines =
        (running.store.tracked? path).map FileRecord.lines) ∧
    running.recording.counters.total = entries.countP ScriptEntry.isReport ∧
    (running.stop sources).2.events = running.recording.counters := by
  intro rules running stopped
  have traces : running.Traces rules sources entries := traces_run traced sources entries
  refine ⟨fun path source readable => ?_, traces.total, rfl⟩
  rcases traces.stop readable with ⟨untracked, untracked'⟩ | ⟨file, tallied, tracked, tracked'⟩
  · refine ⟨?_, ?_⟩
    · rintro file (found | found)
      · cases untracked.symm.trans found
      · cases untracked'.symm.trans found
    · rw [untracked, untracked']
  · refine ⟨?_, ?_⟩
    · rintro file' (found | found)
      · obtain rfl := Option.some.inj (tracked.symm.trans found)
        exact tallied.shows
      · obtain rfl := Option.some.inj (tracked'.symm.trans found)
        exact tallied.resolveBlocks.shows
    · rw [tracked, tracked']
      rfl

/-- A line that a hook and an injected call report, a chunk that is no file, an entry of functions
that share their line, and an assertion on the executed line. -/
theorem shows_traced_run_shared :
    let path := "/p/a.lua"
    let source := "function f() end function g() end\nf()\n-- note\n"
    let sources : PathMap String := .ofList [(path, source)]
    let settings : AnalysisSettings := ⟨.nonExecutable, 1000⟩
    let session : Session :=
      { observer := .trace
        recording := { rules :=
          { root := "/p", filter := { root := "/p", included := [], excluded := [] }
            settings := settings } } }
    let entries : List ScriptEntry :=
      [.report (.line "@a.lua" 2), .report (.hit path 2 BlockId.root), .report (.line "=stdin" 1),
       .report (.enter path 1), .assertion [⟨"@a.lua", 2⟩]]
    let running := entries.foldl (fun next entry => next.replayEntry sources entry) session.start.1
    let stopped := (running.stop sources).1
    session.observer = .trace ∧ sources[path]? = some source ∧
      (∃ file, running.store.tracked? path = some file ∧
        file.Shows "/p" path (analyze settings source path) entries) ∧
      (∃ file, stopped.store.tracked? path = some file ∧
        file.Shows "/p" path (analyze settings source path) entries) ∧
      ((stopped.store.line? path 2).map LineRecord.executionCount,
        (stopped.store.line? path 3).map LineRecord.executionCount) = (some 2, some 0) ∧
      ((stopped.store.files[path]?).map fun file =>
        file.functions.values.map FunctionRecord.executionCount) = some [1, 0] ∧
      running.recording.counters = ⟨3, 0, 1⟩ := by
  intro path source sources settings session entries running stopped
  obtain ⟨shown, -, -⟩ := shows_traced_run session rfl sources entries
  have readable : sources[path]? = some source := by decide +kernel
  obtain ⟨shows, -⟩ := shown path source readable
  have before : (running.store.tracked? path).isSome = true := by decide +kernel
  have after : (stopped.store.tracked? path).isSome = true := by decide +kernel
  obtain ⟨file, found⟩ := Option.isSome_iff_exists.mp before
  obtain ⟨file', found'⟩ := Option.isSome_iff_exists.mp after
  exact ⟨rfl, readable, ⟨file, found, shows file (.inl found)⟩,
    ⟨file', found', shows file' (.inr found')⟩, by decide +kernel, by decide +kernel,
    by decide +kernel⟩

end Session

end LuaCoverage
