import LuaCoverage.Proofs.Analysis.UnrunAnalysis
import LuaCoverage.Proofs.Module.LoadSteps
import LuaCoverage.Proofs.Session.TracedRun
import LuaCoverage.Proofs.Store.IndexFreshness

/-!
# Histories of sessions

Between two runs, and within one, anything may happen to a session: events, loads, assertions,
starts and stops, each with the sources as they are at that moment (`SessionStep`). What holds of a
session whatever happened to it is proved here once, along one step at a time.

A session changes its store by operations of its own only (`StoreOperation.IsOwn`): it tracks a file
with the analysis of a source under its settings, and takes no records in from elsewhere. So its
store comes from the empty one by such operations, and every analysis that it holds is the analysis
of some source (`Recording.Sound`). What a loader keeps for the next run is sound in the same way
(`Session.Sound`), and this is so after every history (`Session.Sound.after`).

What follows for the store is that the blocks of each file are filed under their own numbers
(`CoverageStore.Leads.isFiled`), which is what a repair of the blocks relies on.
-/

set_option autoImplicit false

namespace LuaCoverage

/-! ## Operations of a session -/

/-- Whether an operation is one that sessions do. They make the analyses that they track files with
under their settings, and take nothing in from elsewhere. -/
def StoreOperation.IsOwn (settings : AnalysisSettings) : StoreOperation → Prop
  | .track path source analysis => analysis = analyze settings source path
  | .lineOrCreate _ _ => False
  | .addBlock _ _ => False
  | .setParent _ _ _ => False
  | .resolveFile _ => False
  | .merge _ => False
  | _ => True

namespace CoverageStore

/-- A store comes from another by operations of a session. -/
abbrev Leads (settings : AnalysisSettings) : CoverageStore → CoverageStore → Prop :=
  Relation.ReflTransGen fun store next =>
    ∃ operation : StoreOperation, operation.IsOwn settings ∧ (store.apply operation).1 = next

theorem leads_apply {settings : AnalysisSettings} (store : CoverageStore)
    (operation : StoreOperation) (own : operation.IsOwn settings) :
    store.Leads settings (store.apply operation).1 := .single ⟨operation, own, rfl⟩

end CoverageStore

/-! ### Blocks stay filed under their numbers -/

/-- Hits leave blocks where they are filed. -/
theorem BlockTable.Filed.of_described {before after : BlockTable} (filed : before.Filed)
    (same : after.described = before.described) : after.Filed := by
  have known : ∀ (id : BlockId) (record : BlockRecord), after.blocks[id]? = some record →
      ∃ old, before.blocks[id]? = some old ∧ old.id = record.id := by
    intro id record found
    have kept : (before.blocks[id]?).map BlockRecord.description = some record.description := by
      rw [← getElem?_described, ← same, getElem?_described, found, Option.map_some]
    obtain ⟨old, stored, alike⟩ := Option.map_eq_some_iff.mp kept
    have sameId : old.description.id = record.description.id := by rw [alike]
    exact ⟨old, stored, sameId⟩
  refine ⟨fun id record found => ?_, fun inside => ?_⟩
  · obtain ⟨old, stored, alike⟩ := known id record found
    exact alike ▸ filed.own id old stored
  · obtain ⟨record, found⟩ := mem_map_iff.mp inside
    obtain ⟨old, stored, -⟩ := known _ record found
    exact filed.noRoot (mem_map_iff.mpr ⟨old, stored⟩)

/-- **A change of a file keeps its blocks filed**, unless it takes in another record. -/
theorem FileRecord.filed_changed {file : FileRecord} {change : FileChange}
    (own : ∀ theirs, change ≠ .absorb theirs) (filed : file.blocks.Filed) :
    (file.changed change).blocks.Filed := by
  cases change with
  | register source analysis =>
      rw [changed, register]
      split
      · exact filed
      · exact List.foldlRecOn (motive := BlockTable.Filed) _ _ filed
          fun table kept block _ => kept.insert block
  | record operation =>
      rw [changed]
      split
      · rw [blocks_perform]
        exact filed.of_described (BlockTable.described_foldl_credit _ _)
      · exact filed
  | cover line =>
      rw [changed]
      cases covers : file.cover line with
      | none => exact filed
      | some covered =>
          obtain ⟨record, -, -, rfl⟩ := exists_of_cover covers
          exact filed
  | keepLine line =>
      rw [changed]
      split <;> exact filed
  | addBlock block => exact filed.insert block
  | setParent child parent => exact filed.of_profile (BlockTable.profile_setParent _ _ _)
  | resolve => exact filed.of_profile (BlockTable.profile_resolve _)
  | absorb theirs => exact absurd rfl (own theirs)
  | _ => exact filed

namespace CoverageStore

/-- The blocks of every file are filed under their own numbers. -/
def IsFiled (store : CoverageStore) : Prop :=
  ∀ (path : String) (file : FileRecord), store.files[path]? = some file → file.blocks.Filed

theorem IsFiled.apply {settings : AnalysisSettings} {store : CoverageStore} (filed : store.IsFiled)
    {operation : StoreOperation} (own : operation.IsOwn settings) :
    (store.apply operation).1.IsFiled := by
  have apart : ∀ (path : String) (theirs : FileRecord),
      operation.changeAt path ≠ some (.absorb theirs) := by
    intro path theirs
    cases operation with
    | merge other => exact own.elim
    | reclassify analyses => cases found : analyses[path]? <;> simp [StoreOperation.changeAt, found]
    | _ => simp [StoreOperation.changeAt]
  refine fun path file found => @forall_files_apply (fun file => file.blocks.Filed) store operation
    (fun _ => BlockTable.unrun_empty.filed)
    (fun path theirs brought => absurd brought (apart path theirs))
    (fun path change file changes _ before => ?_) filed path file found
  exact FileRecord.filed_changed (fun theirs same => apart path theirs (same ▸ changes)) before

end CoverageStore

/-! ## Recordings -/

namespace Recording

/-- A recording comes from another by what sessions do: its store changes by their operations, what
came up stays decided, and each analysis that it gains is that of some source. -/
structure Advances (before after : Recording) : Prop where
  rules : after.rules = before.rules
  store : before.store.Leads before.rules.settings after.store
  decided : ∀ path : String, path ∈ before.decided → path ∈ after.decided
  analyses : ∀ (path : String) (analysis : Analysis), after.analyses[path]? = some analysis →
    before.analyses[path]? = some analysis ∨
      ∃ source : String, analysis = analyze before.rules.settings source path

theorem Advances.refl (recording : Recording) : recording.Advances recording :=
  ⟨rfl, .refl, fun _ known => known, fun _ _ found => .inl found⟩

theorem Advances.trans {first second third : Recording} (advances : first.Advances second)
    (later : second.Advances third) : first.Advances third := by
  obtain ⟨rules, store, decided, analyses⟩ := later
  rw [advances.rules] at store analyses
  refine ⟨rules.trans advances.rules, advances.store.trans store,
    fun path known => decided path (advances.decided path known), fun path analysis found => ?_⟩
  rcases analyses path analysis found with known | made
  · exact advances.analyses path analysis known
  · exact .inr made

section Steps

variable (recording : Recording) (sources : PathMap String)

/-- An operation of a session on the store. -/
theorem advances_apply (operation : StoreOperation)
    (own : operation.IsOwn recording.rules.settings) :
    recording.Advances (recording.withStore (recording.store.apply operation).1) :=
  ⟨rfl, recording.store.leads_apply operation own, fun _ known => known,
    fun _ _ found => .inl found⟩

theorem Advances.counted {next : Recording} (advances : recording.Advances next)
    (recorded : Bool) : recording.Advances (next.counted recorded) :=
  ⟨advances.rules, advances.store, advances.decided, advances.analyses⟩

/-- Tracking a file with the analysis of a source. -/
theorem advances_adopt {path source : String} {analysis : Analysis}
    (isAnalysis : analysis = analyze recording.rules.settings source path) :
    recording.Advances (recording.adopt path source analysis) := by
  refine ⟨rfl, recording.store.leads_apply (.track path source analysis) isAnalysis,
    fun other known => Std.ExtTreeMap.mem_insert.mpr (.inr known), fun other found isFound => ?_⟩
  rw [adopt, Std.ExtTreeMap.getElem?_insert] at isFound
  split at isFound
  · rename_i same
    obtain rfl := Std.LawfulEqCmp.eq_of_compare same
    obtain rfl := Option.some.inj isFound
    exact .inr ⟨source, isAnalysis⟩
  · exact .inl isFound

theorem advances_dismiss (path : String) : recording.Advances (recording.dismiss path) := by
  refine ⟨rfl, ?_, fun other known => Std.ExtTreeMap.mem_insert.mpr (.inr known),
    fun _ _ found => .inl found⟩
  exact (recording.store.leads_apply (.note path) trivial).trans
    (CoverageStore.leads_apply _ (.rate path .untracked) trivial)

theorem advances_meet (path : String) : recording.Advances (recording.meet sources path).1 := by
  unfold meet
  split
  · split
    · exact recording.advances_adopt rfl
    · exact recording.advances_apply (.trackUnanalyzed path) trivial
  · exact recording.advances_apply (.note path) trivial

/-- Deciding about a file. -/
theorem advances_decideOn (path : String) :
    recording.Advances (recording.decideOn sources path).1 := by
  cases found : recording.decided[path]? with
  | some decision =>
      rw [recording.decideOn_of_decided sources found]
      exact .refl recording
  | none =>
      obtain ⟨rules, store, decided, analyses⟩ := recording.advances_meet sources path
      rw [recording.decideOn_of_undecided sources found]
      exact ⟨rules, store,
        fun other known => Std.ExtTreeMap.mem_insert.mpr (.inr (decided other known)), analyses⟩

theorem advances_analyzeLate (path : String) :
    recording.Advances (recording.analyzeLate sources path) := by
  unfold analyzeLate
  split
  · exact .refl recording
  · split
    · exact recording.advances_adopt rfl
    · exact .refl recording

theorem advances_attempted (path : String) (operation : HitOperation) (allowed : Bool) :
    recording.Advances (recording.attempted path operation allowed) := by
  have performed : recording.store.perform path operation =
      (recording.store.apply (.record path operation)).1 := by cases operation <;> rfl
  rw [attempted, performed]
  split
  · exact recording.advances_apply _ trivial
  · exact .refl recording

theorem advances_onHit (path : String) (line : Nat) (attribution : Attribution) :
    recording.Advances (recording.onHit sources path line attribution).1 := by
  obtain ⟨recorded, same⟩ := recording.exists_onHit sources path line attribution
  rw [same]
  exact ((recording.advances_decideOn sources path).trans
    (advances_attempted _ path _ _)).counted _ recorded

theorem advances_onEntry (path : String) (line : Nat) :
    recording.Advances (recording.onEntry path line).1 :=
  (recording.advances_attempted path (.call line) true).counted _ _

theorem advances_onCall (path : String) (line : Nat) :
    recording.Advances (recording.onCall sources path line).1 := by
  obtain ⟨recorded, same⟩ := recording.exists_onCall sources path line
  rw [same]
  refine Advances.counted _ ?_ recorded
  split
  · exact .refl recording
  · exact (recording.advances_decideOn sources path).trans (advances_attempted _ path _ _)

/-- **An event of a traced run.** -/
theorem advances_onTraced (event : Event) :
    recording.Advances (recording.onTraced sources event) := by
  cases recording.outcome_onTraced sources event with
  | skipped _ same =>
      rw [same]
      exact ⟨rfl, .refl, fun _ known => known, fun _ _ found => .inl found⟩
  | hit path line attribution _ _ _ same =>
      rw [same]
      exact recording.advances_onHit sources path line attribution
  | call path line _ _ _ same =>
      rw [same]
      exact recording.advances_onCall sources path line
  | hookedCall path line _ _ _ same =>
      rw [same, onHookedCall_eq]
      exact (recording.advances_onCall sources path line).trans (advances_attempted _ path _ _)

/-- **An assertion.** -/
theorem advances_linkFrames (targets : List (Option (String × Nat))) :
    recording.Advances (recording.withStore (recording.store.linkFrames targets).1) := by
  rw [CoverageStore.linkFrames_store]
  refine List.foldlRecOn (motive := fun store => recording.Advances (recording.withStore store)) _ _
    (.refl recording) ?_
  intro store advances target _
  cases target with
  | none => exact advances
  | some place => exact advances.trans (advances_apply _ (.cover place.1 place.2) trivial)

theorem advances_analyzeProvisional :
    recording.Advances (recording.analyzeProvisional sources) := by
  unfold analyzeProvisional
  exact List.foldlRecOn (motive := fun next => recording.Advances next) _ _ (.refl recording)
    fun next advances entry _ => advances.trans (next.advances_analyzeLate sources entry.1)

end Steps

end Recording

/-! ## Instrumented runs -/

namespace Instrumentation

theorem loader_catchUp (instrumentation : Instrumentation) (recording : Recording) :
    (instrumentation.catchUp recording).1.loader = instrumentation.loader := by
  refine List.foldlRecOn (motive := fun progress : Instrumentation × Recording =>
    progress.1.loader = instrumentation.loader) instrumentation.loader.cache.values adopt rfl ?_
  rintro ⟨current, reached⟩ same loaded -
  rw [adopt]
  split <;> exact same

/-- What was instrumented is adopted with the analysis of its source. -/
theorem advances_catchUp (instrumentation : Instrumentation) (recording : Recording)
    (sound : instrumentation.loader.CacheSound)
    (settings : instrumentation.loader.rules.settings = recording.rules.settings) :
    recording.Advances (instrumentation.catchUp recording).2 := by
  have adopted : recording.Advances (instrumentation.loader.cache.values.foldl adopt
      (instrumentation, recording)).2 := by
    refine List.foldlRecOn (motive := fun progress : Instrumentation × Recording =>
      recording.Advances progress.2) _ _ (.refl recording) ?_
    rintro ⟨current, reached⟩ advances loaded member
    obtain ⟨path, cached⟩ := mem_values_iff.mp member
    obtain ⟨rfl, -, isAnalysis⟩ := sound path loaded cached
    rw [adopt]
    split
    · exact advances
    · refine advances.trans ((reached.advances_adopt ?_).trans
        (Recording.advances_apply _ (.markInstrumented loaded.path) trivial))
      rw [isAnalysis, settings, advances.rules]
  refine adopted.trans ?_
  refine List.foldlRecOn (motive := fun next : Recording => Recording.Advances _ next) _ _
    (.refl _) fun next advances path _ => advances.trans ?_
  rw [noteAborted]
  split
  · exact .refl next
  · exact next.advances_dismiss path

theorem advances_noteUnchanged (recording : Recording) (answer : LoadAnswer) :
    recording.Advances (noteUnchanged recording answer) := by
  unfold noteUnchanged
  split
  · exact recording.advances_dismiss _
  · exact recording.advances_dismiss _
  · exact recording.advances_apply (.note _) trivial
  · exact .refl recording

/-- **An event of an instrumented run.** -/
theorem advances_record (instrumentation : Instrumentation) (recording : Recording)
    (sources : PathMap String) (event : Event) :
    recording.Advances (instrumentation.record recording sources event) := by
  cases event with
  | hit file line block =>
      have hit := recording.advances_onHit sources file line (.block block)
      rw [record]
      generalize recording.onHit sources file line (.block block) = outcome at hit ⊢
      obtain ⟨next, recorded⟩ := outcome
      cases recorded with
      | false => exact hit
      | true =>
          refine hit.trans (List.foldlRecOn (motive := fun store =>
            next.Advances (next.withStore store)) _ _ (.refl next) ?_)
          intro store advances other _
          exact advances.trans (Recording.advances_apply (next.withStore store)
            (.record file (.hit other .lineOnly)) trivial)
  | enter file line => exact recording.advances_onEntry file line
  | line source line => exact (Recording.Advances.refl recording).counted _ false
  | call source line => exact (Recording.Advances.refl recording).counted _ false

end Instrumentation

/-! ## Sessions -/

/-- What can happen to a session. The sources are those of the moment. -/
inductive SessionStep where
  | start
  | stop (sources : PathMap String)
  | observe (sources : PathMap String) (event : Event)
  | intercept (sources : PathMap String) (request : LoadRequest)
  | link (frames : List Frame)

/-- The sources that are read when something happens to a session. -/
def SessionStep.sources : SessionStep → PathMap String
  | .start => ∅
  | .stop sources => sources
  | .observe sources _ => sources
  | .intercept sources _ => sources
  | .link _ => ∅

/-- An observer comes from another by loads, if it has a loader at all. -/
inductive Observer.AdvancesBy (sources : PathMap String) : Observer → Observer → Prop
  | trace : AdvancesBy sources .trace .trace
  | instrument {before after : Instrumentation}
      (loads : Loader.Loads sources before.loader after.loader) :
      AdvancesBy sources (.instrument before) (.instrument after)

theorem Observer.AdvancesBy.refl (sources : PathMap String) (observer : Observer) :
    observer.AdvancesBy sources observer := by
  cases observer with
  | trace => exact .trace
  | instrument instrumentation => exact .instrument (.refl _)

/-- A moment of a run: an entry of a script, and the sources as they are then. -/
structure Moment where
  sources : PathMap String
  entry : ScriptEntry

/-- What happens to a session at a moment of a run. -/
def Moment.step (moment : Moment) : SessionStep :=
  match moment.entry with
  | .report event => .observe moment.sources event
  | .load request => .intercept moment.sources request
  | .assertion frames => .link frames

theorem Moment.step_ne_start (moment : Moment) : moment.step ≠ .start := by
  obtain ⟨sources, entry⟩ := moment
  cases entry <;> exact nofun

namespace Session

/-- A session after something happened to it. -/
def step (session : Session) : SessionStep → Session
  | .start => session.start.1
  | .stop sources => (session.stop sources).1
  | .observe sources event => session.observe sources event
  | .intercept sources request => (session.intercept sources request).1
  | .link frames => (session.link frames).1

/-- A session after a history. -/
def after (session : Session) (steps : List SessionStep) : Session := steps.foldl step session

/-- A session after some moments. -/
def along (session : Session) (moments : List Moment) : Session :=
  moments.foldl (fun next moment => next.replayEntry moment.sources moment.entry) session

/-- A session that was started, after some moments. -/
def through (session : Session) (moments : List Moment) : Session :=
  session.start.1.along moments

theorem along_append (session : Session) (earlier later : List Moment) :
    session.along (earlier ++ later) = (session.along earlier).along later := List.foldl_append

theorem replayEntry_eq_step (session : Session) (moment : Moment) :
    session.replayEntry moment.sources moment.entry = session.step moment.step := by
  obtain ⟨sources, entry⟩ := moment
  cases entry <;> rfl

theorem through_eq_after (session : Session) (moments : List Moment) :
    session.through moments = session.after (.start :: moments.map Moment.step) := by
  rw [through, along, after, List.foldl_cons, List.foldl_map]
  exact congrArg (fun next => moments.foldl next _)
    (funext fun next => funext fun moment => next.replayEntry_eq_step moment)

/-- What a session holds was made by it: its store by its operations, its analyses and what its
loader keeps from sources under its settings. -/
structure Sound (session : Session) : Prop where
  store : CoverageStore.empty.Leads session.recording.rules.settings session.store
  analyses : ∀ (path : String) (analysis : Analysis),
    session.recording.analyses[path]? = some analysis →
      ∃ source : String, analysis = analyze session.recording.rules.settings source path
  loader : ∀ instrumentation : Instrumentation, session.observer = .instrument instrumentation →
    instrumentation.loader.CacheSound ∧
      instrumentation.loader.rules.settings = session.recording.rules.settings

section Soundness

variable {session : Session}

/-- A session stays sound if its recording advances and its loader stays sound. -/
theorem Sound.advance (sound : session.Sound) {next : Session}
    (advances : session.recording.Advances next.recording)
    (loader : ∀ instrumentation : Instrumentation, next.observer = .instrument instrumentation →
      instrumentation.loader.CacheSound ∧
        instrumentation.loader.rules.settings = session.recording.rules.settings) :
    next.Sound := by
  obtain ⟨rules, store, -, analyses⟩ := advances
  refine ⟨?_, fun path analysis found => ?_, ?_⟩
  · rw [rules]
    exact sound.store.trans store
  · rw [rules]
    exact (analyses path analysis found).elim (sound.analyses path analysis) id
  · rw [rules]
    exact loader

/-- A new session has nothing in it. -/
theorem exists_observer_of_ofConfig {config : Config} {strategy : Strategy}
    {disk : Option SourceCache} (made : ofConfig config strategy disk = .ok session) :
    ∃ observer filter, Observer.ofConfig config disk strategy = .ok observer ∧
      session = { observer := observer
                  recording := { rules := ⟨config.root, filter, config.analysisSettings⟩ } } := by
  obtain ⟨observer, observed, made⟩ := exists_ok_of_bind made
  split at made
  · cases made
  · obtain ⟨filter, -, made⟩ := exists_ok_of_bind made
    exact ⟨observer, filter, observed, (Except.ok.inj made).symm⟩

/-- **A new session is sound.** -/
theorem sound_ofConfig {config : Config} {strategy : Strategy} {disk : Option SourceCache}
    (made : ofConfig config strategy disk = .ok session) : session.Sound := by
  obtain ⟨observer, filter, observed, rfl⟩ := exists_observer_of_ofConfig made
  refine ⟨.refl, fun _ _ found => (by cases found), ?_⟩
  rintro instrumentation rfl
  cases strategy with
  | trace => cases observed
  | instrument =>
      obtain ⟨loader, loaded, observed⟩ := exists_ok_of_bind observed
      obtain rfl := Observer.instrument.inj (Except.ok.inj observed)
      obtain ⟨rules, ruled, rfl⟩ := Loader.exists_rules_of_ofConfig loaded
      exact ⟨fun _ _ found => (by cases found), (LoaderRules.settings_ofConfig ruled).1⟩

/-- **What happens to a session happens to its loader by loads**, if at all. -/
theorem advancesBy_step (session : Session) (next : SessionStep) :
    session.observer.AdvancesBy next.sources (session.step next).observer := by
  cases next with
  | start =>
      rw [step, start]
      cases session.observer with
      | trace => exact .trace
      | instrument instrumentation => exact .instrument (.refl _)
  | stop sources => exact .refl sources _
  | observe sources event =>
      rw [step, observe]
      split <;> exact .refl sources _
  | link frames => exact .refl ∅ _
  | intercept sources request =>
      cases observer : session.observer with
      | trace =>
          rw [step, intercept_of_trace observer, observer]
          exact .trace
      | instrument instrumentation =>
          rw [step, Loader.intercept_eq_answer session instrumentation observer,
            Instrumentation.intercept]
          refine .instrument ?_
          rw [Instrumentation.loader_catchUp]
          exact (Loader.loads_answer sources instrumentation.loader request).1

theorem Sound.loader_step (sound : session.Sound) (next : SessionStep) :
    ∀ instrumentation : Instrumentation,
      (session.step next).observer = .instrument instrumentation →
        instrumentation.loader.CacheSound ∧
          instrumentation.loader.rules.settings = session.recording.rules.settings := by
  intro reached observes
  have advances := session.advancesBy_step next
  have known := sound.loader
  rw [observes] at advances
  generalize session.observer = observer at advances known
  obtain _ | loads := advances
  obtain ⟨cacheSound, settings⟩ := known _ rfl
  exact ⟨loads.cacheSound cacheSound, loads.rules_eq ▸ settings⟩

/-- **What happens within a run advances the recording.** Only a start drops it. -/
theorem Sound.advances_step (sound : session.Sound) {next : SessionStep}
    (continues : next ≠ .start) : session.recording.Advances (session.step next).recording := by
  cases next with
  | start => exact absurd rfl continues
  | link frames => exact session.recording.advances_linkFrames _
  | observe sources event =>
      rw [step, observe]
      split
      · cases session.observer with
        | trace => exact session.recording.advances_onTraced sources event
        | instrument instrumentation =>
            exact instrumentation.advances_record session.recording sources event
      · exact .refl session.recording
  | intercept sources request =>
      rw [step]
      cases observer : session.observer with
      | trace =>
          rw [intercept_of_trace observer]
          exact .refl session.recording
      | instrument instrumentation =>
          obtain ⟨cacheSound, settings⟩ := sound.loader instrumentation observer
          have loads := (Loader.loads_answer sources instrumentation.loader request).1
          rw [Loader.intercept_eq_answer session instrumentation observer,
            Instrumentation.intercept]
          exact (Instrumentation.advances_catchUp _ session.recording (loads.cacheSound cacheSound)
            (loads.rules_eq ▸ settings)).trans (Instrumentation.advances_noteUnchanged _ _)
  | stop sources =>
      let retried := session.recording.analyzeProvisional sources
      let repaired := retried.withStore retried.store.resolveAll.1
      have resolved : retried.Advances repaired := retried.advances_apply .resolveAll trivial
      have settled : repaired.Advances repaired.reclassify.1 :=
        repaired.advances_apply (.reclassify retried.analyses) trivial
      exact (session.recording.advances_analyzeProvisional sources).trans
        ((resolved.trans settled).trans
          (repaired.reclassify.1.advances_apply .clearContradictions trivial))

/-- **A session stays sound**, whatever happens to it. -/
theorem Sound.step (sound : session.Sound) (next : SessionStep) : (session.step next).Sound := by
  by_cases starts : next = .start
  · subst starts
    exact ⟨.refl, fun _ _ found => (by cases found), sound.loader_step .start⟩
  · exact sound.advance (sound.advances_step starts) (sound.loader_step next)

theorem Sound.after (sound : session.Sound) (steps : List SessionStep) :
    (session.after steps).Sound :=
  List.foldlRecOn (motive := Sound) steps Session.step sound fun _ sound next _ => sound.step next

/-- What loads keep holds of the loader of a session, whatever happens to it. -/
theorem loader_after {holds : Loader → Prop}
    (keep : ∀ (sources : PathMap String) (before next : Loader), Loader.Loads sources before next →
      holds before → holds next)
    (initially : ∀ instrumentation : Instrumentation,
      session.observer = .instrument instrumentation → holds instrumentation.loader)
    (steps : List SessionStep) : ∀ instrumentation : Instrumentation,
      (session.after steps).observer = .instrument instrumentation →
        holds instrumentation.loader := by
  refine List.foldlRecOn (motive := fun next : Session => ∀ instrumentation : Instrumentation,
    next.observer = .instrument instrumentation → holds instrumentation.loader) steps Session.step
    initially fun current known step _ reached observes => ?_
  have advances := current.advancesBy_step step
  rw [observes] at advances
  generalize current.observer = observer at advances known
  obtain _ | loads := advances
  exact keep step.sources _ reached.loader loads (known _ rfl)

end Soundness

end Session

end LuaCoverage
