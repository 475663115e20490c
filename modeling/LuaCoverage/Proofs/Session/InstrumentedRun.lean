import LuaCoverage.Proofs.Module.CurrentForms
import LuaCoverage.Proofs.Session.AccountedHits

/-!
# Instrumented runs

A run that observes through instrumented sources counts hits. Once a load was answered with a form
of a file, the count of each line of the file that can run is the number of hits that name it, and
for each site of the form that lists it, the number of hits at the site; lines that cannot run are
never counted. This holds while the run goes on and after it is stopped, if the source of the file
stays what it is (`Session.accounts_for_hits`).

A run has one of two things to do with the file. First it awaits it: it has at most a note of it
and no form (`Session.Awaits`). A load may bring a form, and from then on the run goes by this form
and has counted what the hits account for (`Session.Counts`), whatever else is reported, loaded or
asserted. The form is the one that is served, because the loader has no other of the same source.

The form has to fit the analysis. A loader that keeps nothing between runs makes no other. But what
an earlier run has kept is served without a look at the policy for keywords that it was made under:
a site on a line that cannot run now is listed in the form that is served, its hits are ignored, and
the lines that it lists are not counted (`Session.accounts_for_kept_form`).
-/

set_option autoImplicit false

namespace LuaCoverage

/-- What the record of a file shows of some hits in a run that goes by a form: the lines of its
analysis, where each line that can run was executed as often as the hits account for it, and no
other line was executed. -/
structure FileRecord.AccountsFor (file : FileRecord) (analysis : Analysis) (form : Instrumented)
    (hits : List (Nat × BlockId)) : Prop where
  lines : ∀ line : Nat, line ∈ file.lines ↔ 1 ≤ line ∧ line ≤ analysis.lines.length
  executable : ∀ (line : Nat) (record : LineRecord), file.lines[line]? = some record →
    record.executable = analysis.isExecutable line
  counts : ∀ (line : Nat) (record : LineRecord), file.lines[line]? = some record →
    record.executable = true → record.executionCount = UInt64.ofNat (form.accounted hits line) ∧
      (record.executed = true ↔ 0 < form.accounted hits line)
  idle : ∀ (line : Nat) (record : LineRecord), file.lines[line]? = some record →
    record.executable = false → record.executionCount = 0 ∧ record.executed = false

theorem FileRecord.Tallied.accountsFor {file : FileRecord} {settings : AnalysisSettings}
    {path source : String} {form : Instrumented} {hits : List (Nat × BlockId)} {calls : Nat → Nat}
    (tallied : file.Tallied (analyze settings source path)
      (form.tally (analyze settings source path) hits) calls) :
    file.AccountsFor (analyze settings source path) form hits := by
  let analysis := analyze settings source path
  have known : ∀ (line : Nat) (record : LineRecord), file.lines[line]? = some record →
      record.executable = analysis.isExecutable line ∧
        record.executionCount = UInt64.ofNat (form.tally analysis hits line) ∧
        (record.executed = true ↔ 0 < form.tally analysis hits line) := by
    intro line record found
    obtain ⟨verdict, classified, isTally⟩ := tallied.lines line record found
    refine ⟨?_, isTally.count, isTally.executed⟩
    have able : analysis.isExecutable line = true ↔ ∃ verdict,
        analysis.classification? line = some verdict ∧ verdict.executable = true :=
      isExecutable_analyze settings source path
    rw [classified] at able
    rw [show record.executable = verdict.executable from
      congrArg Classification.executable isTally.classified, Bool.eq_iff_iff, able]
    exact ⟨fun runs => ⟨verdict, rfl, runs⟩, fun ⟨_, same, runs⟩ => Option.some.inj same ▸ runs⟩
  refine ⟨fun line => ?lines, fun line record found => (known line record found).1,
    fun line record found runs => ?counts, fun line record found idle => ?idle⟩
  case lines =>
    rw [← Analysis.exists_classification?_iff]
    constructor
    · intro member
      obtain ⟨record, found⟩ := mem_map_iff.mp member
      obtain ⟨verdict, classified, -⟩ := tallied.lines line record found
      exact ⟨verdict, classified⟩
    · rintro ⟨verdict, classified⟩
      exact tallied.complete line verdict classified
  case counts =>
    obtain ⟨able, count, executed⟩ := known line record found
    rw [Instrumented.tally, if_pos (able ▸ runs)] at count executed
    exact ⟨count, executed⟩
  case idle =>
    obtain ⟨able, count, executed⟩ := known line record found
    rw [Instrumented.tally, if_neg (by rw [← able, idle]; exact Bool.false_ne_true)]
      at count executed
    exact ⟨count, Bool.eq_false_iff.mpr fun ran => Nat.lt_irrefl 0 (executed.mp ran)⟩

/-- Whether a file, if it can be read when something happens, holds a source. -/
def SessionStep.Reads (path source : String) (next : SessionStep) : Prop :=
  ∀ text : String, next.sources[path]? = some text → text = source

namespace Session

variable {settings : AnalysisSettings} {path source : String} {session : Session}
  {form : Instrumented} {hits : List (Nat × BlockId)}

/-- Whether the loader of a session, if there is one, has only forms of a file that render its
source. -/
def Renders (settings : AnalysisSettings) (path source : String) (session : Session) : Prop :=
  ∀ instrumentation : Instrumentation, session.observer = .instrument instrumentation →
    instrumentation.loader.Renders settings path source

theorem Renders.step (renders : session.Renders settings path source) {next : SessionStep}
    (reads : SessionStep.Reads path source next) :
    (session.step next).Renders settings path source :=
  loader_step (Loader.Renders.isKept reads) renders

theorem Renders.start (renders : session.Renders settings path source) :
    session.start.1.Renders settings path source := by
  have reads : SessionStep.Reads path source .start := fun _ readable => by
    cases Std.ExtTreeMap.getElem?_empty.symm.trans readable
  exact renders.step reads

theorem Renders.replayEntry (renders : session.Renders settings path source) {moment : Moment}
    (reads : SessionStep.Reads path source moment.step) :
    (session.replayEntry moment.sources moment.entry).Renders settings path source := by
  rw [session.replayEntry_eq_step]
  exact renders.step reads

theorem Renders.along (renders : session.Renders settings path source) {moments : List Moment}
    (reads : ∀ moment ∈ moments, SessionStep.Reads path source moment.step) :
    (session.along moments).Renders settings path source :=
  List.foldlRecOn (motive := Renders settings path source) moments _ renders
    fun _ renders moment member => renders.replayEntry (reads moment member)

theorem Renders.after (renders : session.Renders settings path source) {steps : List SessionStep}
    (reads : ∀ next ∈ steps, SessionStep.Reads path source next) :
    (session.after steps).Renders settings path source :=
  List.foldlRecOn (motive := Renders settings path source) steps _ renders
    fun _ renders next member => renders.step (reads next member)

/-- A new session has only what earlier runs have kept. -/
theorem renders_ofConfig {config : Config} {strategy : Strategy} {disk : Option SourceCache}
    (made : ofConfig config strategy disk = .ok session)
    (kept : ∀ (cache : SourceCache) (out : Instrumented), disk = some cache →
      cache.get? ⟨path, Text.Digest.ofText source, config.trackerName⟩ = .ok (some out) →
        out.Fits (analyze config.analysisSettings source path)) :
    session.Renders config.analysisSettings path source := by
  obtain ⟨observer, filter, observed, rfl⟩ := exists_observer_of_ofConfig made
  rintro instrumentation rfl
  cases strategy with
  | trace => cases observed
  | instrument =>
      obtain ⟨loader, loaded, observed⟩ := exists_ok_of_bind observed
      obtain rfl := Observer.instrument.inj (Except.ok.inj observed)
      obtain ⟨rules, ruled, rfl⟩ := Loader.exists_rules_of_ofConfig loaded
      obtain ⟨settings, options⟩ := LoaderRules.settings_ofConfig ruled
      refine ⟨settings, fun _ found => (by cases found), fun out stored => ?stored,
        fun entered => (by cases entered), fun _ => Std.ExtTreeSet.not_mem_empty⟩
      case stored =>
        rw [options] at stored
        obtain ⟨cache, keeps, stored⟩ := Option.bind_eq_some_iff.mp stored
        refine kept cache out keeps ?_
        split at stored
        · rename_i found same
          rw [← stored]
          exact same
        · cases stored

/-- What happens to a session does not change the way it observes. -/
theorem strategy_step (session : Session) (next : SessionStep) :
    (session.step next).observer.strategy = session.observer.strategy := by
  have advances := session.advancesBy_step next
  generalize session.observer = before, (session.step next).observer = after at advances ⊢
  cases advances <;> rfl

theorem strategy_after (session : Session) (steps : List SessionStep) :
    (session.after steps).observer.strategy = session.observer.strategy :=
  List.foldlRecOn (motive := fun next : Session => next.observer.strategy = _) steps _ rfl
    fun reached same next _ => (reached.strategy_step next).trans same

/-- A run over instrumented sources that awaits a file has at most a note of it, and no form. -/
structure Awaits (path : String) (session : Session) : Prop where
  instruments : session.observer.strategy = .instrument
  unadopted : session.adopted? path = none
  notes : session.recording.OnlyNotes path

/-- A run that goes by a form of a file, which is the one that the loader has, and has counted what
some hits account for. -/
structure Counts (path : String) (analysis : Analysis) (form : Instrumented)
    (hits : List (Nat × BlockId)) (session : Session) : Prop where
  adopted : session.adopted? path = some form
  current : session.form? path = some form
  fits : form.Fits analysis
  tallies : session.recording.Tallies path analysis (form.tally analysis hits)

/-- A session that goes by a form, or has one, observes through instrumented sources. -/
theorem exists_instrumentation (adopted : session.adopted? path = some form)
    (current : session.form? path = some form) :
    ∃ instrumentation : Instrumentation, session.observer = .instrument instrumentation ∧
      instrumentation.adopted[path]? = some form ∧
      (instrumentation.loader.cache[path]?).map InstrumentedModule.instrumented = some form := by
  rw [adopted?] at adopted
  rw [form?, cached?] at current
  cases observer : session.observer with
  | trace =>
      rw [observer] at adopted
      cases adopted
  | instrument instrumentation =>
      rw [observer] at adopted current
      exact ⟨instrumentation, rfl, adopted, current⟩

/-- After a load, a session has the forms that the load has left in the cache of its loader. -/
theorem cached?_intercept {instrumentation : Instrumentation}
    (observer : session.observer = .instrument instrumentation) (sources : PathMap String)
    (request : LoadRequest) (path : String) :
    (session.intercept sources request).1.cached? path =
      (instrumentation.loader.answer sources request).1.cache[path]? := by
  rw [Loader.intercept_eq_answer session instrumentation observer, cached?]
  simp only [Instrumentation.intercept, Instrumentation.loader_catchUp]

section Steps

variable (within : session.IsWithinRun) (renders : session.Renders settings path source)

include within renders

/-- **A load** changes no count in a run that goes by a form. -/
theorem Counts.intercept (counts : session.Counts path (analyze settings source path) form hits)
    {sources : PathMap String} (request : LoadRequest)
    (reads : ∀ text : String, sources[path]? = some text → text = source) :
    (session.intercept sources request).1.Counts path (analyze settings source path) form hits := by
  obtain ⟨instrumentation, observer, adopted, current⟩ :=
    exists_instrumentation counts.adopted counts.current
  obtain ⟨held, isHeld, isForm⟩ := Option.map_eq_some_iff.mp current
  have rendered := renders instrumentation observer
  have kept : (session.step (.intercept sources request)).cached? path = some held := by
    refine cached?_step_kept (by rw [cached?, observer]; exact isHeld) fun text readable => ?_
    rw [reads text readable, (rendered.cached held isHeld).contentHash]
  rw [step] at kept
  refine ⟨?adopted, by rw [form?, kept, Option.map_some, isForm], counts.fits, ?tallies⟩
  case adopted => rw [adopted?_intercept within.sound, counts.adopted, Option.some_or]
  case tallies =>
    have entered : path ∈ instrumentation.adopted :=
      Std.ExtTreeMap.isSome_getElem?_iff_mem.mp (Option.isSome_iff_exists.mpr ⟨form, adopted⟩)
    rw [cached?_intercept observer] at kept
    have known : path ∈ (instrumentation.loader.answer sources request).1.cache :=
      Std.ExtTreeMap.isSome_getElem?_iff_mem.mp (Option.isSome_iff_exists.mpr ⟨held, kept⟩)
    rw [Loader.intercept_eq_answer session instrumentation observer, Instrumentation.intercept]
    exact (counts.tallies.catchUp (by exact entered)).noteUnchanged fun name text reason same =>
      rendered.reason_of_unchanged reads same known

/-- **A run that goes by a form** counts what each moment reports. -/
theorem Counts.next (counts : session.Counts path (analyze settings source path) form hits)
    {moment : Moment} (reads : SessionStep.Reads path source moment.step) :
    (session.replayEntry moment.sources moment.entry).Counts path (analyze settings source path)
      form (hits ++ (moment.entry.hitOn? path).toList) := by
  obtain ⟨sources, entry⟩ := moment
  cases entry with
  | load request =>
      simp only [ScriptEntry.hitOn?, Option.toList_none, List.append_nil]
      exact counts.intercept within renders request reads
  | assertion frames =>
      simp only [ScriptEntry.hitOn?, Option.toList_none, List.append_nil]
      exact ⟨counts.adopted, counts.current, counts.fits, counts.tallies.linkFrames _⟩
  | report event =>
      obtain ⟨instrumentation, observer, adopted, current⟩ :=
        exists_instrumentation counts.adopted counts.current
      have counted :=
        Instrumentation.tallies_record adopted counts.fits counts.tallies sources event
      simp only [replayEntry, observe, if_pos within.running, observer, Observer.record]
      exact ⟨adopted, current, counts.fits, counted⟩

/-- **A load of a run that awaits a file** may bring a form of the file. -/
theorem Awaits.intercept (awaits : session.Awaits path) {sources : PathMap String}
    (request : LoadRequest) (reads : ∀ text : String, sources[path]? = some text → text = source) :
    (session.intercept sources request).1.Awaits path ∨ ∃ form,
      (session.intercept sources request).1.Counts path (analyze settings source path) form [] := by
  have instruments := awaits.instruments
  cases observer : session.observer with
  | trace =>
      rw [observer] at instruments
      cases instruments
  | instrument instrumentation =>
      have sound := (Loader.loads_answer sources instrumentation.loader request).1.cacheSound
        (within.sound.loader instrumentation observer).1
      have rendered :=
        (Loader.Renders.isKept reads).answer (renders instrumentation observer) request
      have adopted := adopted?_intercept within.sound sources request path
      rw [awaits.unadopted, Option.none_or] at adopted
      have isNew : path ∉ instrumentation.adopted := by
        have unadopted := awaits.unadopted
        rw [adopted?, observer] at unadopted
        rw [Std.ExtTreeMap.mem_iff_isSome_getElem?]
        exact fun known => Bool.false_ne_true ((congrArg Option.isSome unadopted).symm.trans known)
      have current : (session.intercept sources request).1.form? path =
          ((instrumentation.loader.answer sources request).1.cache[path]?).map
            InstrumentedModule.instrumented := by rw [form?, cached?_intercept observer]
      rw [current] at adopted
      cases cached : (instrumentation.loader.answer sources request).1.cache[path]? with
      | none =>
          rw [cached] at adopted
          have uncached : path ∉ (instrumentation.loader.answer sources request).1.cache := by
            rw [Std.ExtTreeMap.mem_iff_isSome_getElem?, cached]
            exact Bool.false_ne_true
          refine .inl ⟨(session.strategy_step (.intercept sources request)).trans instruments,
            adopted, ?_⟩
          rw [Loader.intercept_eq_answer session instrumentation observer,
            Instrumentation.intercept]
          exact Instrumentation.onlyNotes_noteUnchanged
            (Instrumentation.onlyNotes_catchUp _ sound uncached awaits.notes) _
      | some held =>
          rw [cached] at adopted current
          obtain ⟨-, sameSource, -, isAnalysis, fits⟩ := rendered.cached held cached
          let next : Instrumentation :=
            { instrumentation with loader := (instrumentation.loader.answer sources request).1 }
          have first : (next.catchUp session.recording).2.Tallies path held.analysis fun _ => 0 :=
            Instrumentation.tallies_catchUp_first awaits.notes (by exact isNew) sound cached
              (sameSource ▸ isAnalysis)
          rw [isAnalysis] at first
          refine .inr ⟨held.instrumented, adopted, current, fits, ?_⟩
          rw [Loader.intercept_eq_answer session instrumentation observer,
            Instrumentation.intercept]
          refine ((first.noteUnchanged fun name text reason same => ?_).congr fun line => ?_)
          · exact (renders instrumentation observer).reason_of_unchanged reads same
              (Std.ExtTreeMap.isSome_getElem?_iff_mem.mp
                (Option.isSome_iff_exists.mpr ⟨held, cached⟩))
          · rw [Instrumented.tally, Instrumented.accounted_nil, ite_self]

/-- **A run that awaits a file** goes on to do so until a load brings a form, if no hit on the file
is reported. -/
theorem Awaits.next (awaits : session.Awaits path) {moment : Moment}
    (reads : SessionStep.Reads path source moment.step)
    (silent : moment.entry.hitOn? path = none) :
    (session.replayEntry moment.sources moment.entry).Awaits path ∨ ∃ form,
      (session.replayEntry moment.sources moment.entry).Counts path (analyze settings source path)
        form [] := by
  obtain ⟨sources, entry⟩ := moment
  cases entry with
  | load request => exact awaits.intercept within renders request reads
  | assertion frames =>
      exact .inl ⟨awaits.instruments, awaits.unadopted, awaits.notes.linkFrames _⟩
  | report event =>
      have instruments := awaits.instruments
      have unadopted := awaits.unadopted
      rw [adopted?] at unadopted
      cases observer : session.observer with
      | trace =>
          rw [observer] at instruments
          cases instruments
      | instrument instrumentation =>
          rw [observer] at unadopted
          have notes := instrumentation.onlyNotes_record awaits.notes sources
            fun line block (same : event = .hit path line block) => by
              subst same
              rw [ScriptEntry.hitOn?, Event.hitOn?, if_pos rfl] at silent
              cases silent
          simp only [replayEntry, observe, if_pos within.running, observer, Observer.record]
          exact .inl ⟨rfl, unadopted, notes⟩

end Steps

/-! ## Runs -/

theorem hitsOf_cons (path : String) (moment : Moment) (rest : List Moment) :
    hitsOf path (moment :: rest) = (moment.entry.hitOn? path).toList ++ hitsOf path rest := by
  rw [hitsOf, List.filterMap_cons]
  cases moment.entry.hitOn? path <;> rfl

/-- **A run that goes by a form** counts what is reported along it. -/
theorem Counts.along (counts : session.Counts path (analyze settings source path) form hits)
    (within : session.IsWithinRun) (renders : session.Renders settings path source)
    {moments : List Moment}
    (reads : ∀ moment ∈ moments, SessionStep.Reads path source moment.step) :
    (session.along moments).Counts path (analyze settings source path) form
      (hits ++ hitsOf path moments) := by
  induction moments generalizing session hits with
  | nil =>
      rw [show hitsOf path [] = [] from rfl, List.append_nil]
      exact counts
  | cons moment rest ih =>
      have here := reads moment List.mem_cons_self
      have rendersNext := renders.replayEntry here
      rw [hitsOf_cons, ← List.append_assoc]
      exact ih (counts.next within renders here) (within.next moment) rendersNext
        fun other member => reads other (List.mem_cons_of_mem _ member)

/-- **A run that awaits a file** awaits it in the end, or goes by a form and has counted nothing, if
no hit on the file was reported. -/
theorem Awaits.along (awaits : session.Awaits path) (within : session.IsWithinRun)
    (renders : session.Renders settings path source) {moments : List Moment}
    (reads : ∀ moment ∈ moments, SessionStep.Reads path source moment.step)
    (silent : hitsOf path moments = []) :
    (session.along moments).Awaits path ∨ ∃ form,
      (session.along moments).Counts path (analyze settings source path) form [] := by
  induction moments generalizing session with
  | nil => exact .inl awaits
  | cons moment rest ih =>
      have here := reads moment List.mem_cons_self
      have later : ∀ other ∈ rest, SessionStep.Reads path source other.step :=
        fun other member => reads other (List.mem_cons_of_mem _ member)
      have rendersNext := renders.replayEntry here
      rw [hitsOf_cons, List.append_eq_nil_iff] at silent
      have none : moment.entry.hitOn? path = none := by
        cases named : moment.entry.hitOn? path with
        | none => rfl
        | some hit =>
            rw [named] at silent
            cases silent.1
      rcases awaits.next within renders here none with stillAwaits | ⟨form, counts⟩
      · exact ih stillAwaits (within.next moment) rendersNext later silent.2
      · have counted := counts.along (within.next moment) rendersNext later
        rw [silent.2] at counted
        exact .inr ⟨form, counted⟩

/-- **The form that is served is the form that the run goes by** from then on. -/
theorem counts_of_served (within : session.IsWithinRun)
    {loaded : InstrumentedModule} (renders : session.Renders settings loaded.path source)
    {sources : PathMap String} {request : LoadRequest}
    (reads : ∀ text : String, sources[loaded.path]? = some text → text = source)
    (served : (session.intercept sources request).2 = some (.instrumented loaded))
    (uncounted : session.Awaits loaded.path ∨ ∃ form,
      session.Counts loaded.path (analyze settings source loaded.path) form []) :
    (session.intercept sources request).1.Counts loaded.path
      (analyze settings source loaded.path) loaded.instrumented [] := by
  have current : (session.intercept sources request).1.form? loaded.path =
      some loaded.instrumented := by
    rw [form?, cached?_of_served within.sound served, Option.map_some]
  have settled : ∀ form, (session.intercept sources request).1.Counts loaded.path
      (analyze settings source loaded.path) form [] →
        (session.intercept sources request).1.Counts loaded.path
          (analyze settings source loaded.path) loaded.instrumented [] := by
    intro form counts
    obtain rfl := Option.some.inj (counts.current.symm.trans current)
    exact counts
  rcases uncounted with awaits | ⟨form, counts⟩
  · rcases awaits.intercept within renders request reads with stillAwaits | ⟨form, counts⟩
    · have adopted := adopted?_intercept within.sound sources request loaded.path
      rw [stillAwaits.unadopted, awaits.unadopted, current] at adopted
      cases adopted
    · exact settled form counts
  · exact settled form (counts.intercept within renders request reads)

/-- **Stopping a run** leaves the lines of a file whose hits were counted. -/
theorem Counts.stop (counts : session.Counts path (analyze settings source path) form hits)
    (final : PathMap String) :
    ∃ file other : FileRecord, session.store.tracked? path = some file ∧
      (session.stop final).1.store.tracked? path = some other ∧ other.lines = file.lines ∧
      file.AccountsFor (analyze settings source path) form hits ∧
      other.AccountsFor (analyze settings source path) form hits := by
  obtain ⟨calls, file, part, tallied⟩ := counts.tallies
  have same := (Recording.Follows.tracked file part tallied).part_analyzeProvisional final
  have stopped := getElem?_files_stop session final path
  rw [show (session.recording.analyzeProvisional final).store.files[path]? = some file from
    congrArg (·.1) (same.trans part), Option.map_some, Recording.settledFile,
    show (session.recording.analyzeProvisional final).analyses[path]? =
      some (analyze settings source path) from congrArg (·.2.2) (same.trans part)] at stopped
  simp only [tallied.resolveBlocks.reclassify, tallied.resolveBlocks.enforce] at stopped
  refine ⟨file, file.resolveBlocks.1, ?_, ?_, rfl, tallied.accountsFor,
    tallied.resolveBlocks.accountsFor⟩
  · rw [store, CoverageStore.tracked?,
      show session.recording.store.files[path]? = some file from congrArg (·.1) part,
      Option.filter_some, if_pos tallied.active]
  · rw [CoverageStore.tracked?, stopped, Option.filter_some, if_pos tallied.resolveBlocks.active]

/-- **What an instrumented run leaves behind.** Whatever a session did before it was started, and
whatever is reported, loaded or asserted after that: if a load is answered with a form of a file
whose source stays what it is, no hit on the file is reported before, and what earlier runs have
kept of it fits its analysis, then the file is tracked, and each of its lines that can run has been
executed as often as the hits account for it, both before and after the run is stopped. Lines that
cannot run have not been executed. Stopping changes no line. -/
theorem accounts_for_hits {config : Config} {disk : Option SourceCache} {fresh : Session}
    (made : ofConfig config .instrument disk = .ok fresh) (history : List SessionStep)
    (before after : List Moment) (sources : PathMap String) (request : LoadRequest)
    {loaded : InstrumentedModule}
    (served : (((fresh.after history).through before).intercept sources request).2 =
      some (.instrumented loaded)) {source : String}
    (unchanged : ∀ next ∈ history ++
        (before ++ ⟨sources, .load request⟩ :: after).map Moment.step,
      SessionStep.Reads loaded.path source next)
    (late : hitsOf loaded.path before = [])
    (kept : ∀ (cache : SourceCache) (out : Instrumented), disk = some cache →
      cache.get? ⟨loaded.path, Text.Digest.ofText source, config.trackerName⟩ = .ok (some out) →
        out.Fits (analyze config.analysisSettings source loaded.path)) (final : PathMap String) :
    let analysis := analyze config.analysisSettings source loaded.path
    let run := (fresh.after history).through (before ++ ⟨sources, .load request⟩ :: after)
    ∃ file stopped : FileRecord, run.store.tracked? loaded.path = some file ∧
      (run.stop final).1.store.tracked? loaded.path = some stopped ∧ stopped.lines = file.lines ∧
      file.AccountsFor analysis loaded.instrumented (hitsOf loaded.path after) ∧
      stopped.AccountsFor analysis loaded.instrumented (hitsOf loaded.path after) := by
  intro analysis run
  have reads : ∀ moment ∈ before ++ ⟨sources, .load request⟩ :: after,
      SessionStep.Reads loaded.path source moment.step := fun moment member =>
    unchanged moment.step (List.mem_append_right _ (List.mem_map_of_mem member))
  have readsBefore : ∀ moment ∈ before, SessionStep.Reads loaded.path source moment.step :=
    fun moment member => reads moment (List.mem_append_left _ member)
  have readsLoad : ∀ text : String, sources[loaded.path]? = some text → text = source :=
    reads ⟨sources, .load request⟩ (List.mem_append_right _ List.mem_cons_self)
  have readsAfter : ∀ moment ∈ after, SessionStep.Reads loaded.path source moment.step :=
    fun moment member => reads moment
      (List.mem_append_right _ (List.mem_cons_of_mem _ member))
  have sound : (fresh.after history).Sound := (sound_ofConfig made).after history
  have started := sound.isWithinRun_start
  have renders : (fresh.after history).start.1.Renders config.analysisSettings loaded.path source :=
    ((renders_ofConfig made kept).after fun next member =>
      unchanged next (List.mem_append_left _ member)).start
  have awaits : (fresh.after history).start.1.Awaits loaded.path := by
    refine ⟨((fresh.after history).strategy_step .start).trans
      ((fresh.strategy_after history).trans ?_), adopted?_start _ _, .of_unmet rfl⟩
    obtain ⟨observer, filter, observed, rfl⟩ := exists_observer_of_ofConfig made
    obtain ⟨loader, -, observed⟩ := exists_ok_of_bind observed
    obtain rfl := Except.ok.inj observed
    rfl
  have atLoad := started.along before
  have rendersAtLoad := renders.along readsBefore
  have first := counts_of_served atLoad rendersAtLoad readsLoad served
    (awaits.along started renders readsBefore late)
  have loads : SessionStep.Reads loaded.path source (Moment.step ⟨sources, .load request⟩) :=
    readsLoad
  have counts := first.along (atLoad.next ⟨sources, .load request⟩)
    (rendersAtLoad.replayEntry loads) readsAfter
  rw [List.nil_append] at counts
  have isRun : run = ((((fresh.after history).through before).intercept sources request).1).along
      after := along_append _ before _
  rw [isRun]
  exact counts.stop final

open Loader in
/-- The last line of the file holds a keyword only, and is listed by the site on the first. One hit
at this site counts for it. -/
theorem accounts_for_hits_block :
    let sources := onlyFile "do\n  f()\nend\n"
    let load : Moment := ⟨sources, .load (.file "a.lua")⟩
    let hit : Moment := ⟨∅, .report (.hit "/p/a.lua" 1 0)⟩
    ∃ (fresh : Session) (loaded : InstrumentedModule) (file : FileRecord),
      ofConfig { root := "/p", structuralKeywords := .executable } .instrument none = .ok fresh ∧
      (((fresh.after []).through []).intercept sources (.file "a.lua")).2 =
        some (.instrumented loaded) ∧
      loaded.path = "/p/a.lua" ∧ ⟨1, 0, [3]⟩ ∈ loaded.instrumented.sites ∧
      ((fresh.after []).through ([] ++ load :: [hit])).store.tracked? loaded.path = some file ∧
      (file.lines[3]?).map LineRecord.executionCount = some 1 := by
  intro sources load hit
  have isPlain : Config.IsPlain { root := "/p", structuralKeywords := .executable } :=
    ⟨rfl, rfl, rfl⟩
  obtain ⟨fresh, made, isStarted, within⟩ := exists_started isPlain (by decide)
  obtain ⟨out, isOut, isSites⟩ := exists_ok_of_view
    (show (instrument ⟨.executable, 4194304⟩ ⟨"__covlua", true⟩ "do\n  f()\nend\n"
      "/p/a.lua").toOption.map (fun out => out.sites) = some [⟨1, 0, [3]⟩, ⟨2, 1, []⟩] by
        decide +kernel)
  obtain ⟨served, -⟩ := served_of_idle (congrArg Session.observer isStarted) ⟨rfl, rfl, rfl, rfl⟩
    path_onlyFile (readable_onlyFile _) apart_onlyFile (by decide) (by decide +kernel) rfl isOut
  have reads : ∀ next ∈ [] ++ ([] ++ load :: [hit]).map Moment.step,
      SessionStep.Reads "/p/a.lua" "do\n  f()\nend\n" next := by
    intro next member text readable
    rcases List.mem_pair.mp member with rfl | rfl
    · exact eq_of_onlyFile readable
    · cases Std.ExtTreeMap.getElem?_empty.symm.trans readable
  obtain ⟨file, -, tracked, -, -, accounts, -⟩ :=
    accounts_for_hits made [] [] [hit] sources (.file "a.lua") served reads rfl nofun ∅
  have accounted : out.accounted (hitsOf "/p/a.lua" [hit]) 3 = 1 := by
    rw [Instrumented.accounted, isSites]
    decide
  have isLine :
      3 ≤ (analyze ⟨.executable, 4194304⟩ "do\n  f()\nend\n" "/p/a.lua").lines.length := by
    decide +kernel
  have able : (analyze ⟨.executable, 4194304⟩ "do\n  f()\nend\n" "/p/a.lua").isExecutable 3 =
      true := by decide +kernel
  obtain ⟨record, found⟩ := mem_map_iff.mp ((accounts.lines 3).mpr ⟨by decide, isLine⟩)
  have runs : record.executable = true := (accounts.executable 3 record found).trans able
  refine ⟨fresh, _, file, made, served, rfl, isSites ▸ List.mem_cons_self, tracked, ?_⟩
  rw [found, Option.map_some, (accounts.counts 3 record found runs).1]
  exact congrArg (fun count => some (UInt64.ofNat count)) accounted

/-! ### Forms that were kept -/

section Kept

open Loader

variable {config : Config} {cache : SourceCache} {sources : PathMap String}
  {file path text : String} {out : Instrumented}

/-- **The first load of a run serves what was kept** of a file that requires nothing, and tracks the
file with its analysis. -/
theorem served_kept (isPlain : config.IsPlain)
    (absolute : Path.isAbsolute config.root.toList = true)
    (isPath : Path.normalize config.root file = path) (readable : sources[path]? = some text)
    (apart : (path.toList.flatMap String.utf8EncodeChar).head? ≠ some 99)
    (room : config.maxLoadDepth ≠ 0)
    (alone : (analyze config.analysisSettings text path).requires = [])
    (kept : cache.get? ⟨path, Text.Digest.ofText text, config.trackerName⟩ = .ok (some out)) :
    let analysis := analyze config.analysisSettings text path
    ∃ fresh, ofConfig config .instrument (some cache) = .ok fresh ∧
      (fresh.start.1.intercept sources (.file file)).2 = some (.instrumented
        ⟨path, path, Text.Digest.ofText text, text, out, analysis⟩) ∧
      ∃ next, (fresh.start.1.intercept sources (.file file)).1.observer = .instrument next ∧
        (fresh.start.1.intercept sources (.file file)).1.recording.Tallies path analysis
          fun _ => 0 := by
  intro analysis
  let loaded : InstrumentedModule := ⟨path, path, Text.Digest.ofText text, text, out, analysis⟩
  let loader : Loader := { rules := .plain config, disk := some cache }
  have answered := answer_alone loader sources file isPath readable
    (LoaderRules.isExcluded_plain apart) (LoaderRules.rule_plain config path) room
    Std.ExtTreeSet.contains_empty rfl rfl alone
  have stored : (loader.enter path).stored?
      ⟨path, Text.Digest.ofText text, config.trackerName⟩ = some out := by
    rw [stored?, show (loader.enter path).disk = some cache from rfl, Option.bind_some, kept]
  obtain ⟨-, ended⟩ := (loader.enter path).finish_produce path path text analysis
  rw [produce_stored stored] at ended
  have cached : ((loader.enter path).finish path path text analysis).1.cache[path]? =
      some loaded := by
    rcases (loader.enter path).finish_cases path path text analysis with
      ⟨-, failed⟩ | ⟨other, finished, cache⟩
    · cases failed.symm.trans ended
    · rw [cache, Std.ExtTreeMap.getElem?_insert_self]
      exact congrArg some (Except.ok.inj (finished.symm.trans ended))
  have sound := (loads_answer sources loader (.file file)).1.cacheSound
    fun _ _ found => (by cases found)
  have filter : Path.Filter.ofConfig config = .ok (LoaderRules.plain config).filter := by
    rw [Path.Filter.ofConfig, isPlain.included, isPlain.excluded]
    rfl
  have made : ofConfig config .instrument (some cache) = .ok
      { observer := .instrument { loader := loader }
        recording := { rules :=
          ⟨config.root, (LoaderRules.plain config).filter, config.analysisSettings⟩ } } := by
    rw [ofConfig, Observer.ofConfig, Loader.ofConfig_plain isPlain, filter, absolute]
    rfl
  refine ⟨_, made, ?_⟩
  rw [answered] at sound
  let next : Instrumentation := { loader := ((loader.enter path).finish path path text analysis).1 }
  let started : Recording := { rules :=
    ⟨config.root, (LoaderRules.plain config).filter, config.analysisSettings⟩ }
  have first : (next.catchUp started).2.Tallies path loaded.analysis fun _ => 0 :=
    Instrumentation.tallies_catchUp_first (.of_unmet rfl) Std.ExtTreeMap.not_mem_empty sound
      cached rfl
  rw [Loader.intercept_eq_answer _ { loader := loader } rfl, Instrumentation.intercept, answered]
  have served : LoadAnswer.ofOutcome path path text
      ((loader.enter path).finish path path text (analyze loader.rules.settings text path)).2 =
      .instrumented loaded := congrArg (LoadAnswer.ofOutcome path path text) ended
  refine ⟨congrArg some served, _, rfl, ?_⟩
  simp only [served]
  exact first

/-- An earlier run, under which lines with keywords only can run, has kept a form of the file whose
one site is on the first line and lists the others. Now the second line alone can run. The hit at
the site is ignored, so the line was not executed, though the form accounts for it. -/
theorem accounts_for_kept_form :
    let text := "do\n  ::top::\nend\n"
    let path := "/p/a.lua"
    let sources := onlyFile text
    let earlier : Config := { root := "/p", structuralKeywords := .executable }
    let config : Config := { root := "/p" }
    let analysis := analyze config.analysisSettings text path
    let load : Moment := ⟨sources, .load (.file "a.lua")⟩
    let hit : Moment := ⟨∅, .report (.hit path 1 0)⟩
    ∃ (cache : SourceCache) (fresh : Session) (loaded : InstrumentedModule) (file : FileRecord),
      cache.Filled {text} {earlier} ∧ ofConfig config .instrument (some cache) = .ok fresh ∧
      (fresh.start.1.intercept sources (.file "a.lua")).2 = some (.instrumented loaded) ∧
      loaded.path = path ∧ (fresh.through [load, hit]).store.tracked? path = some file ∧
      analysis.isExecutable 2 = true ∧ loaded.instrumented.accounted (hitsOf path [hit]) 2 = 1 ∧
      (∃ record, file.lines[2]? = some record ∧ record.executionCount = 0) ∧
      ¬ file.AccountsFor analysis loaded.instrumented (hitsOf path [hit]) := by
  intro text path sources earlier config analysis load hit
  have isPlain : config.IsPlain := ⟨rfl, rfl, rfl⟩
  have earlierPlain : earlier.IsPlain := ⟨rfl, rfl, rfl⟩
  obtain ⟨out, made, seen⟩ := exists_ok_of_view
    (show (instrument ⟨.executable, 4194304⟩ ⟨"__covlua", true⟩ text path).toOption.map
      (fun out => (out.sites, (SourceCache.read (SourceCache.entryOf ⟨"", "", ""⟩ out)).toOption ==
        some out)) = some ([⟨1, 0, [2, 3]⟩], true) by decide +kernel)
  obtain ⟨isSites, same⟩ := Prod.mk.inj seen
  let cache : SourceCache := SourceCache.new.put ⟨path, Text.Digest.ofText text, "__covlua"⟩ out
  have filled : cache.Filled {text} {earlier} :=
    filled_alone earlierPlain path_onlyFile apart_onlyFile (by decide) (by decide +kernel) made
  have kept : cache.get? ⟨path, Text.Digest.ofText text, config.trackerName⟩ = .ok (some out) :=
    SourceCache.get?_put_of_reads (eq_ok_of_toOption_beq same)
  obtain ⟨fresh, ruled, served, next, observer, first⟩ :=
    served_kept isPlain (by decide) path_onlyFile (readable_onlyFile _) apart_onlyFile
      (by decide) (by decide +kernel) kept
  have counted : (fresh.through [load, hit]).recording.Tallies path analysis fun _ => 0 := by
    have silent := first.onHit ∅ (fun line => (isExecutable_analyze _ text path).mp) 1 (.block 0)
    rw [show analysis.isExecutable 1 = false by decide +kernel] at silent
    have loadedThen : fresh.through [load, hit] =
        (fresh.start.1.intercept sources (.file "a.lua")).1.observe ∅ (.hit path 1 0) := rfl
    have running : (fresh.start.1.intercept sources (.file "a.lua")).1.running = true :=
      ((sound_ofConfig ruled).isWithinRun_start.next load).running
    rw [loadedThen, observe, if_pos running, observer]
    simp only [Observer.record, Instrumentation.record]
    generalize Recording.onHit _ _ _ _ _ = outcome at silent ⊢
    obtain ⟨recording, recorded⟩ := outcome
    obtain ⟨rfl, unchanged⟩ := silent
    exact unchanged
  obtain ⟨calls, tracked, part, tallied⟩ := counted
  have able : analysis.isExecutable 2 = true := by decide +kernel
  obtain ⟨verdict, classified, -⟩ := (isExecutable_analyze _ text path).mp able
  obtain ⟨record, found⟩ := mem_map_iff.mp (tallied.complete 2 verdict classified)
  obtain ⟨_, -, isTally⟩ := tallied.lines 2 record found
  have accounted : out.accounted (hitsOf path [hit]) 2 = 1 := by
    rw [Instrumented.accounted, isSites]
    decide
  refine ⟨cache, fresh, _, tracked, filled, ruled, served, rfl, ?_, able, accounted,
    ⟨record, found, isTally.count⟩, fun accounts => ?_⟩
  · rw [store, CoverageStore.tracked?,
      show (fresh.through [load, hit]).recording.store.files[path]? = some tracked from
        congrArg (·.1) part, Option.filter_some, if_pos tallied.active]
  · have executed := (accounts.executable 2 record found).trans able
    have count := (accounts.counts 2 record found executed).1
    rw [accounted, isTally.count] at count
    revert count
    decide

end Kept

end Session

end LuaCoverage
