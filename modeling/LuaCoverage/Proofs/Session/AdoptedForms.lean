import LuaCoverage.Proofs.Module.ProperForms
import LuaCoverage.Proofs.Session.Histories

/-!
# The forms that a run goes by

A loader has one instrumented form of a file at a time, and makes another one when the source of the
file has changed. A run works with copies: after every load it adopts the forms of those files that
it has none of yet, and from then on this form leads frames back to the source and says which lines
a hit accounts for.

So the form that a run goes by is the first one that the loader had of the file after a load of the
run (`Session.IsWithinRun.adopted?_along`). If this is the form that was served, the run works with
what the program runs: frames are led back by its own source map, and a hit at one of its sites hits
the lines that the site lists (`Session.works_with_served`). It is the first one as long as the text
of the file stays what it is (`Session.firstForm?_of_unchanged`).

Else it need not be. If a file is loaded again after its source has changed, the new form is served
while the run goes by the old one, which leads frames to other lines
(`Session.works_with_outdated`).
-/

set_option autoImplicit false

namespace LuaCoverage

/-! ## Adopting -/

/-- The form of a file is found among all that a loader has instrumented. -/
theorem Loader.CacheSound.find?_values {loader : Loader} (sound : loader.CacheSound)
    (path : String) :
    (loader.cache.values.find? fun loaded => loaded.path == path) = loader.cache[path]? := by
  cases found : loader.cache.values.find? fun loaded => loaded.path == path with
  | none =>
      refine (Option.eq_none_iff_forall_ne_some.mpr fun loaded cached => ?_).symm
      refine List.find?_eq_none.mp found loaded (mem_values_iff.mpr ⟨path, cached⟩) ?_
      exact beq_iff_eq.mpr (sound path loaded cached).1
  | some loaded =>
      obtain ⟨key, cached⟩ := mem_values_iff.mp (List.mem_of_find?_eq_some found)
      obtain rfl : loaded.path = path := beq_iff_eq.mp (List.find?_some found :)
      rw [(sound key loaded cached).1, cached]

namespace Instrumentation

variable {instrumentation : Instrumentation} {recording : Recording}

/-- Files that have no form yet get the first one that comes. -/
theorem adopted_foldl_adopt (instrumentation : Instrumentation) (recording : Recording)
    (forms : List InstrumentedModule) (path : String) :
    (forms.foldl adopt (instrumentation, recording)).1.adopted[path]? =
      (instrumentation.adopted[path]?).or
        ((forms.find? fun loaded => loaded.path == path).map InstrumentedModule.instrumented) := by
  induction forms generalizing instrumentation recording with
  | nil => exact Option.or_none.symm
  | cons loaded rest ih =>
      rw [List.foldl_cons, List.find?_cons, adopt]
      by_cases known : instrumentation.adopted.contains loaded.path = true
      · rw [if_pos known, ih]
        cases same : loaded.path == path with
        | false => rfl
        | true =>
            obtain rfl := eq_of_beq same
            obtain ⟨form, isForm⟩ := Option.isSome_iff_exists.mp
              (Std.ExtTreeMap.isSome_getElem?_iff_mem.mpr
                (Std.ExtTreeMap.contains_iff_mem.mp known))
            rw [isForm, Option.some_or, Option.some_or]
      · rw [if_neg known, ih, Std.ExtTreeMap.getElem?_insert]
        cases same : loaded.path == path with
        | false =>
            have apart : ¬ compare loaded.path path = .eq := by
              rw [Std.LawfulEqCmp.compare_eq_iff_eq]
              exact ne_of_beq_false same
            rw [if_neg apart]
        | true =>
            obtain rfl := eq_of_beq same
            have missing : instrumentation.adopted[loaded.path]? = none :=
              Std.ExtTreeMap.getElem?_eq_none fun inside =>
                known (Std.ExtTreeMap.contains_iff_mem.mpr inside)
            rw [missing, Option.none_or, if_pos Std.ReflCmp.compare_self]
            rfl

/-- **Catching up adopts what the loader has of the files without a form.** -/
theorem adopted_catchUp (sound : instrumentation.loader.CacheSound) (recording : Recording)
    (path : String) :
    (instrumentation.catchUp recording).1.adopted[path]? =
      (instrumentation.adopted[path]?).or
        ((instrumentation.loader.cache[path]?).map InstrumentedModule.instrumented) := by
  refine (adopted_foldl_adopt instrumentation recording _ path).trans ?_
  rw [sound.find?_values]

/-- The files that a run has adopted came up. -/
theorem decided_catchUp
    (known : ∀ path ∈ instrumentation.adopted, path ∈ recording.decided) :
    ∀ path ∈ (instrumentation.catchUp recording).1.adopted,
      path ∈ (instrumentation.catchUp recording).2.decided := by
  have adopted : ∀ path ∈ (instrumentation.loader.cache.values.foldl adopt
      (instrumentation, recording)).1.adopted, path ∈ (instrumentation.loader.cache.values.foldl
        adopt (instrumentation, recording)).2.decided := by
    refine List.foldlRecOn (motive := fun progress : Instrumentation × Recording =>
      ∀ path ∈ progress.1.adopted, path ∈ progress.2.decided) _ _ known ?_
    rintro ⟨current, reached⟩ before loaded - path member
    rw [adopt] at member ⊢
    split at member
    · rename_i isAdopted
      rw [if_pos isAdopted]
      exact before path member
    · rename_i isNew
      rw [if_neg isNew]
      exact Std.ExtTreeMap.mem_insert.mpr
        ((Std.ExtTreeMap.mem_insert.mp member).imp_right (before path))
  refine List.foldlRecOn (motive := fun next : Recording => ∀ path ∈ _, path ∈ next.decided) _ _
    adopted fun next before other _ path member => ?_
  rw [noteAborted]
  split
  · exact before path member
  · exact Std.ExtTreeMap.mem_insert.mpr (.inr (before path member))

end Instrumentation

/-! ## Hits on a file that came up -/

namespace Recording

variable {recording : Recording} {path : String}

theorem decideOn_of_mem (sources : PathMap String) (known : path ∈ recording.decided) :
    (recording.decideOn sources path).1 = recording := by
  obtain ⟨decision, decided⟩ := Option.isSome_iff_exists.mp
    (Std.ExtTreeMap.isSome_getElem?_iff_mem.mpr known)
  rw [recording.decideOn_of_decided sources decided]

/-- A hit on a file that came up is only counted as ignored, or the file is tracked and its record
changes. -/
theorem onHit_cases (sources : PathMap String) (known : path ∈ recording.decided) (line : Nat)
    (attribution : Attribution) :
    ((recording.onHit sources path line attribution).2 = false ∧
        (recording.onHit sources path line attribution).1.counters.recorded =
          recording.counters.recorded) ∨
      ((recording.onHit sources path line attribution).2 = true ∧
        ∃ file, recording.store.files[path]? = some file ∧ file.active = true ∧
          (recording.onHit sources path line attribution).1.store =
            recording.store.perform path (.hit line attribution)) := by
  have same := decideOn_of_mem sources known
  unfold onHit
  generalize recording.decideOn sources path = decision at same ⊢
  obtain ⟨current, tracked⟩ := decision
  obtain rfl : current = recording := same
  simp only
  split
  · cases isTracked : current.store.tracked? path with
    | none =>
        rw [conclude, CoverageStore.hit, isTracked]
        exact .inl ⟨rfl, rfl⟩
    | some file =>
        obtain ⟨found, active⟩ := Option.filter_eq_some_iff.mp isTracked
        refine .inr ⟨?_, file, found, active, rfl⟩
        rw [conclude, CoverageStore.hit, isTracked]
        rfl
  · exact .inl ⟨rfl, rfl⟩

end Recording

/-- In a proper form, the line and the block of a site lead to its continuations. -/
theorem Instrumented.IsProper.continuation_eq {out : Instrumented} (proper : out.IsProper)
    {site : Site} (member : site ∈ out.sites) :
    out.continuation site.line site.block = site.continuation := by
  have found : (out.sites.find? fun other =>
      other.line == site.line && other.block == site.block) = some site := by
    obtain ⟨front, back, split⟩ := List.append_of_mem member
    have apart := proper.apart
    rw [split, List.pairwise_append] at apart
    have others : (front.find? fun other =>
        other.line == site.line && other.block == site.block) = none := by
      refine List.find?_eq_none.mpr fun other isOther same => ?_
      obtain ⟨line, block⟩ := Bool.and_eq_true_iff.mp same
      exact apart.2.2 other isOther site List.mem_cons_self ⟨eq_of_beq line, eq_of_beq block⟩
    rw [split, List.find?_append, others, Option.none_or, List.find?_cons, beq_self_eq_true,
      beq_self_eq_true, Bool.and_true]
  rw [continuation, found]

namespace Instrumentation

variable {instrumentation : Instrumentation} {recording : Recording} {sources : PathMap String}
  {path : String} {out : Instrumented}

/-- **A recorded hit at a site** of the form that a run goes by is one on the line of the site, and
one on each of its continuations. -/
theorem record_site (adopted : instrumentation.adopted[path]? = some out) (proper : out.IsProper)
    (known : path ∈ recording.decided) {site : Site} (member : site ∈ out.sites)
    (recorded : (instrumentation.record recording sources
        (.hit path site.line site.block)).counters.recorded = recording.counters.recorded + 1) :
    ∃ file, recording.store.files[path]? = some file ∧ file.active = true ∧
      (instrumentation.record recording sources (.hit path site.line site.block)).store =
        recording.store.performAll path (.hit site.line (.block site.block) ::
          site.continuation.map fun line => .hit line .lineOnly) := by
  have continues : instrumentation.continuation path site.line site.block = site.continuation := by
    rw [continuation, adopted]
    exact proper.continuation_eq member
  have outcomes := Recording.onHit_cases sources known site.line (.block site.block)
  rw [record] at recorded ⊢
  generalize recording.onHit sources path site.line (.block site.block) = outcome
    at outcomes recorded ⊢
  obtain ⟨next, isRecorded⟩ := outcome
  rcases outcomes with ⟨rfl, counts⟩ | ⟨rfl, file, found, active, stored⟩
  · exact absurd (recorded.symm.trans counts) (Nat.succ_ne_self _)
  · refine ⟨file, found, active, ?_⟩
    simp only [continues, if_true]
    rw [show next.store = _ from stored, CoverageStore.performAll, List.foldl_cons, List.foldl_map]
    rfl

end Instrumentation

/-! ## The form that a run goes by -/

namespace Session

/-- What the loader of a session has of a file. -/
def cached? (session : Session) (path : String) : Option InstrumentedModule :=
  match session.observer with
  | .trace => none
  | .instrument instrumentation => instrumentation.loader.cache[path]?

/-- The form of a file that the loader of a session has. -/
def form? (session : Session) (path : String) : Option Instrumented :=
  (session.cached? path).map InstrumentedModule.instrumented

/-- The form of a file that the run of a session goes by. -/
def adopted? (session : Session) (path : String) : Option Instrumented :=
  match session.observer with
  | .trace => none
  | .instrument instrumentation => instrumentation.adopted[path]?

/-- The first form of a file that the loader of a session has after a load at one of some
moments. -/
def firstForm? (session : Session) (path : String) : List Moment → Option Instrumented
  | [] => none
  | moment :: rest =>
      let next := session.replayEntry moment.sources moment.entry
      match moment.entry with
      | .load _ => (next.form? path).or (next.firstForm? path rest)
      | _ => next.firstForm? path rest

section Runs

variable {session : Session} {path : String}

theorem adopted?_start (session : Session) (path : String) :
    session.start.1.adopted? path = none := by
  rw [start, adopted?]
  cases session.observer with
  | trace => rfl
  | instrument instrumentation => exact Std.ExtTreeMap.getElem?_empty

/-- A load adopts what the loader has of a file without a form. -/
theorem adopted?_intercept (sound : session.Sound) (sources : PathMap String)
    (request : LoadRequest) (path : String) :
    (session.intercept sources request).1.adopted? path =
      (session.adopted? path).or ((session.intercept sources request).1.form? path) := by
  cases observer : session.observer with
  | trace =>
      rw [intercept_of_trace observer]
      simp only [adopted?, form?, cached?, observer, Option.map_none, Option.or_none]
  | instrument instrumentation =>
      have loads := (Loader.loads_answer sources instrumentation.loader request).1
      have cacheSound := loads.cacheSound (sound.loader instrumentation observer).1
      rw [Loader.intercept_eq_answer session instrumentation observer, Instrumentation.intercept]
      simp only [adopted?, form?, cached?, observer]
      generalize instrumentation.loader.answer sources request = answered at cacheSound ⊢
      rw [Instrumentation.loader_catchUp, Instrumentation.adopted_catchUp cacheSound]

/-- A session within a run: it is sound and running, and the files that it has a form of came up. -/
structure IsWithinRun (session : Session) : Prop where
  sound : session.Sound
  running : session.running = true
  decided : ∀ (path : String) (form : Instrumented), session.adopted? path = some form →
    path ∈ session.recording.decided

theorem Sound.isWithinRun_start (sound : session.Sound) : session.start.1.IsWithinRun :=
  ⟨sound.step .start, rfl, fun path _ adopted =>
    nomatch (session.adopted?_start path).symm.trans adopted⟩

/-- **A run goes on** at each of its moments. -/
theorem IsWithinRun.next (within : session.IsWithinRun) (moment : Moment) :
    (session.replayEntry moment.sources moment.entry).IsWithinRun := by
  have decided := (within.sound.advances_step moment.step_ne_start).decided
  rw [replayEntry_eq_step]
  suffices kept : (session.step moment.step).running = true ∧
      ∀ (path : String) (form : Instrumented),
        (session.step moment.step).adopted? path = some form →
          path ∈ (session.step moment.step).recording.decided from
    ⟨within.sound.step moment.step, kept.1, kept.2⟩
  obtain ⟨sources, entry⟩ := moment
  cases entry with
  | assertion frames => exact ⟨within.running, within.decided⟩
  | report event =>
      simp only [Moment.step, step, observe] at decided ⊢
      rw [if_pos within.running] at decided ⊢
      exact ⟨within.running, fun path form adopted =>
        decided path (within.decided path form adopted)⟩
  | load request =>
      simp only [Moment.step, step] at decided ⊢
      cases observer : session.observer with
      | trace =>
          rw [intercept_of_trace observer]
          exact ⟨within.running, within.decided⟩
      | instrument instrumentation =>
          have known : ∀ path ∈ instrumentation.adopted, path ∈ session.recording.decided := by
            intro path member
            obtain ⟨form, isForm⟩ := Option.isSome_iff_exists.mp
              (Std.ExtTreeMap.isSome_getElem?_iff_mem.mpr member)
            refine within.decided path form ?_
            rw [adopted?, observer]
            exact isForm
          rw [Loader.intercept_eq_answer session instrumentation observer,
            Instrumentation.intercept]
          refine ⟨within.running, fun path form adopted => ?_⟩
          refine (Instrumentation.advances_noteUnchanged _ _).decided path ?_
          refine Instrumentation.decided_catchUp (by exact known) path ?_
          exact Std.ExtTreeMap.isSome_getElem?_iff_mem.mp
            (Option.isSome_iff_exists.mpr ⟨form, adopted⟩)

theorem IsWithinRun.along (within : session.IsWithinRun) (moments : List Moment) :
    (session.along moments).IsWithinRun :=
  List.foldlRecOn (motive := IsWithinRun) moments _ within fun _ within moment _ =>
    within.next moment

/-- **The form that a run goes by** is the one that it has, or the first that it comes by. -/
theorem IsWithinRun.adopted?_along (within : session.IsWithinRun) (path : String)
    (moments : List Moment) : (session.along moments).adopted? path =
      (session.adopted? path).or (session.firstForm? path moments) := by
  induction moments generalizing session with
  | nil => exact Option.or_none.symm
  | cons moment rest ih =>
      refine (ih (within.next moment)).trans ?_
      rw [firstForm?]
      obtain ⟨sources, entry⟩ := moment
      cases entry with
      | load request =>
          simp only [replayEntry]
          rw [adopted?_intercept within.sound, Option.or_assoc]
      | report event =>
          simp only [replayEntry, observe]
          split <;> rfl
      | assertion frames => rfl

end Runs

end Session

/-- What hits at a site do to a store: they change the records of its lines, and nothing else. -/
theorem CoverageStore.performAll_site (store : CoverageStore) {path : String} {file : FileRecord}
    (found : store.files[path]? = some file) (active : file.active = true) {site : Site}
    (distinct : (site.line :: site.continuation).Nodup) :
    let hits := HitOperation.hit site.line (.block site.block) ::
      site.continuation.map fun line => .hit line .lineOnly
    (∃ reached, (store.performAll path hits).files[path]? = some reached ∧
      ∀ line, reached.lines[line]? =
        if line = site.line ∨ line ∈ site.continuation then
          some (file.lineOrUnclassified line).hit
        else file.lines[line]?) ∧
      ∀ other, other ≠ path → (store.performAll path hits).files[other]? = store.files[other]? := by
  intro hits
  refine ⟨⟨_, getElem?_performAll found active hits, fun line => ?_⟩, fun other apart => ?_⟩
  · have apart : hits.Pairwise fun first later =>
        ∀ line, first.hits line = true → later.hits line = false := by
      obtain ⟨own, distinct⟩ := List.nodup_cons.mp distinct
      refine List.pairwise_cons.mpr ⟨fun later member line isLine => ?_, ?_⟩
      · obtain ⟨continued, isOne, rfl⟩ := List.mem_map.mp member
        obtain rfl : site.line = line := eq_of_beq isLine
        exact beq_false_of_ne fun same => own (same ▸ isOne)
      · refine List.pairwise_map.mpr (distinct.imp fun differs line isLine => ?_)
        exact beq_false_of_ne fun same => differs ((eq_of_beq isLine).trans same.symm)
    have hitsLine : (hits.any (·.hits line)) = true ↔
        site.line = line ∨ line ∈ site.continuation := by
      simp only [hits, List.any_cons, List.any_map, Bool.or_eq_true, List.any_eq_true,
        Function.comp_apply, HitOperation.hits, beq_iff_eq, exists_eq_right]
    rw [file.lines_performAll apart line]
    exact if_congr (hitsLine.trans (or_congr_left eq_comm)) rfl rfl
  · exact List.foldlRecOn (motive := fun next : CoverageStore => next.files[other]? = _) hits _ rfl
      fun next same operation _ => (getElem?_perform_of_ne (Ne.symm apart) operation).trans same

namespace Session

/-- **Whether a session works with a form of a file**: frames of the file are led back by its source
map, and a hit at one of its sites, if it is recorded, hits the line of the site and the
continuations of the site, and nothing else. -/
structure WorksWith (session : Session) (path : String) (form : Instrumented) : Prop where
  leads : ∀ frame : Frame, session.frameFile? frame.file = some path →
    session.target? frame = (form.sourceMap.sourceLine? frame.line).map (path, ·)
  marks : ∀ site ∈ form.sites, ∀ sources : PathMap String,
    let next := session.observe sources (.hit path site.line site.block)
    next.recording.counters.recorded = session.recording.counters.recorded + 1 →
      (∃ file reached, session.store.files[path]? = some file ∧
        next.store.files[path]? = some reached ∧
        ∀ line, reached.lines[line]? =
          if line = site.line ∨ line ∈ site.continuation then
            some (file.lineOrUnclassified line).hit
          else file.lines[line]?) ∧
      ∀ other, other ≠ path → next.store.files[other]? = session.store.files[other]?

/-- Two forms that a session works with lead the lines of a file that a frame can name alike. -/
theorem WorksWith.sourceLine?_eq {session : Session} {path : String} {form other : Instrumented}
    (works : session.WorksWith path form) (works' : session.WorksWith path other) {file : String}
    (named : session.frameFile? file = some path) (line : Nat) :
    form.sourceMap.sourceLine? line = other.sourceMap.sourceLine? line := by
  have targets := (works.leads ⟨file, line⟩ named).symm.trans (works'.leads ⟨file, line⟩ named)
  exact Option.map_injective (fun _ _ same => (Prod.mk.inj same).2) targets

/-- **A run works with the form that it goes by.** -/
theorem IsWithinRun.worksWith {session : Session} {path : String} {form : Instrumented}
    (within : session.IsWithinRun) (adopted : session.adopted? path = some form)
    (proper : form.IsProper) : session.WorksWith path form := by
  have known := within.decided path form adopted
  cases observer : session.observer with
  | trace =>
      rw [adopted?, observer] at adopted
      cases adopted
  | instrument instrumentation =>
      have isForm : instrumentation.adopted[path]? = some form := by
        rwa [adopted?, observer] at adopted
      refine ⟨fun frame named => ?leads, fun site member sources => ?marks⟩
      case leads =>
        have leads : session.observer.sourceLine? path frame.line =
            form.sourceMap.sourceLine? frame.line := by
          rw [observer, Observer.sourceLine?, Instrumentation.sourceLine?, isForm]
        rw [target?, named]
        simp only [Option.bind_eq_bind, Option.bind_some, leads]
        exact Option.map_eq_bind.symm
      case marks =>
        have observed : session.observe sources (.hit path site.line site.block) =
            { session with
              recording := instrumentation.record session.recording sources
                (.hit path site.line site.block) } := by
          rw [Session.observe, if_pos within.running, observer, Observer.record]
        rw [observed]
        intro next recorded
        obtain ⟨file, found, active, stored⟩ :=
          Instrumentation.record_site isForm proper known member recorded
        obtain ⟨⟨reached, isReached, lines⟩, others⟩ :=
          session.store.performAll_site found active (proper.distinct site member)
        rw [show next.store = _ from stored]
        exact ⟨⟨file, reached, found, isReached, lines⟩, others⟩

/-! ### Where forms come from -/

/-- Whatever the loader of a session has was made by it, or was left by earlier runs. -/
theorem isProper_after {config : Config} {disk : Option SourceCache} {fresh : Session}
    (made : ofConfig config .instrument disk = .ok fresh)
    (filled : ∀ cache, disk = some cache → ∃ texts configs, cache.Filled texts configs)
    (steps : List SessionStep) {path : String} {loaded : InstrumentedModule}
    (cached : (fresh.after steps).cached? path = some loaded) : loaded.instrumented.IsProper := by
  have proper : ∀ instrumentation : Instrumentation,
      (fresh.after steps).observer = .instrument instrumentation →
        instrumentation.loader.IsProper := by
    refine loader_after (fun _ _ _ loads => loads.isProper) (fun instrumentation observes => ?_)
      steps
    obtain ⟨observer, filter, observed, rfl⟩ := exists_observer_of_ofConfig made
    obtain ⟨loader, loaded, observed⟩ := exists_ok_of_bind observed
    obtain rfl := Except.ok.inj observed
    obtain rfl := Observer.instrument.inj observes
    exact Loader.isProper_ofConfig loaded filled
  rw [cached?] at cached
  cases observer : (fresh.after steps).observer with
  | trace =>
      rw [observer] at cached
      cases cached
  | instrument instrumentation =>
      rw [observer] at cached
      exact (proper instrumentation observer).cached path loaded cached

/-- What a session serves lies in the cache of its loader, under its path. -/
theorem cached?_of_served {session : Session} (sound : session.Sound) {sources : PathMap String}
    {request : LoadRequest} {loaded : InstrumentedModule}
    (served : (session.intercept sources request).2 = some (.instrumented loaded)) :
    (session.intercept sources request).1.cached? loaded.path = some loaded := by
  cases observer : session.observer with
  | trace =>
      rw [intercept, observer] at served
      cases served
  | instrument instrumentation =>
      obtain ⟨loads, cached⟩ := Loader.loads_answer sources instrumentation.loader request
      rw [Loader.intercept_eq_answer session instrumentation observer] at served ⊢
      obtain ⟨path, text, -, -, found⟩ := cached loaded (Option.some.inj served)
      obtain rfl := (loads.cacheSound (sound.loader instrumentation observer).1 path loaded found).1
      rw [cached?]
      simp only [Instrumentation.intercept, Instrumentation.loader_catchUp]
      exact found

/-- What the loader of a session has of a file was there before, or was made from what the file
held. -/
theorem cached?_step_from {session : Session} {next : SessionStep} {path : String}
    {held : InstrumentedModule} (cached : (session.step next).cached? path = some held) :
    session.cached? path = some held ∨
      ∃ text, next.sources[path]? = some text ∧ held.contentHash = Text.Digest.ofText text := by
  have advances := session.advancesBy_step next
  rw [cached?] at cached ⊢
  generalize session.observer = before, (session.step next).observer = after at advances cached ⊢
  cases advances with
  | trace => exact .inl cached
  | instrument loads => exact loads.cached_from cached

/-- The loader of a session keeps what it has of a file while the file holds the same text. -/
theorem cached?_step_kept {session : Session} {next : SessionStep} {path : String}
    {held : InstrumentedModule} (cached : session.cached? path = some held)
    (unchanged : ∀ text, next.sources[path]? = some text →
      Text.Digest.ofText text = held.contentHash) :
    (session.step next).cached? path = some held := by
  have advances := session.advancesBy_step next
  rw [cached?] at cached ⊢
  generalize session.observer = before, (session.step next).observer = after at advances cached ⊢
  cases advances with
  | trace => exact cached
  | instrument loads => exact loads.cache_kept cached unchanged

theorem cached?_along_kept {session : Session} {path : String} {held : InstrumentedModule}
    (cached : session.cached? path = some held) {moments : List Moment}
    (unchanged : ∀ moment ∈ moments, ∀ text, moment.step.sources[path]? = some text →
      Text.Digest.ofText text = held.contentHash) :
    (session.along moments).cached? path = some held := by
  refine List.foldlRecOn (motive := fun next : Session => next.cached? path = some held) moments _
    cached fun next kept moment member => ?_
  rw [replayEntry_eq_step]
  exact cached?_step_kept kept (unchanged moment member)

theorem firstForm?_cons {session : Session} {path : String} {moment : Moment} {rest : List Moment}
    {form : Instrumented}
    (here : ∀ held, (session.replayEntry moment.sources moment.entry).cached? path = some held →
      held.instrumented = form)
    (later : (session.replayEntry moment.sources moment.entry).firstForm? path rest = some form) :
    session.firstForm? path (moment :: rest) = some form := by
  rw [firstForm?]
  simp only [later]
  split
  · rw [form?]
    cases cached : (session.replayEntry moment.sources moment.entry).cached? path with
    | none => rfl
    | some held => exact congrArg some (here held cached)
  · rfl

/-- **The form that is served is the first one** if the text of the file stays what it is, and the
loader had no form of another text at the start. -/
theorem firstForm?_of_unchanged {session : Session} (within : session.IsWithinRun)
    (before : List Moment) (sources : PathMap String) (request : LoadRequest)
    {loaded : InstrumentedModule}
    (served : ((session.along before).intercept sources request).2 = some (.instrumented loaded))
    (known : ∀ held, session.cached? loaded.path = some held →
      held.contentHash = loaded.contentHash)
    (unchanged : ∀ moment ∈ before ++ [⟨sources, .load request⟩], ∀ text,
      moment.step.sources[loaded.path]? = some text →
        Text.Digest.ofText text = loaded.contentHash) :
    session.firstForm? loaded.path (before ++ [⟨sources, .load request⟩]) =
      some loaded.instrumented := by
  induction before generalizing session with
  | nil =>
      have cached := cached?_of_served within.sound served
      show (Option.map _ ((session.intercept sources request).1.cached? loaded.path)).or _ = _
      rw [show (session.intercept sources request).1.cached? loaded.path = _ from cached]
      rfl
  | cons moment rest ih =>
      let next := session.replayEntry moment.sources moment.entry
      have withinNext : next.IsWithinRun := within.next moment
      have unchanged' : ∀ other ∈ rest ++ [⟨sources, .load request⟩], ∀ text,
          other.step.sources[loaded.path]? = some text →
            Text.Digest.ofText text = loaded.contentHash :=
        fun other member => unchanged other (List.mem_cons_of_mem moment member)
      have digest : ∀ held, next.cached? loaded.path = some held →
          held.contentHash = loaded.contentHash := by
        intro held cached
        rw [show next = session.step moment.step from session.replayEntry_eq_step moment] at cached
        rcases cached?_step_from cached with before | ⟨text, readable, made⟩
        · exact known held before
        · exact made.trans (unchanged moment List.mem_cons_self text readable)
      refine firstForm?_cons (fun held cached => ?_) (ih withinNext served digest unchanged')
      -- what the loader has now stays until the load, which leaves what it serves
      have stays := cached?_along_kept cached fun other member text readable =>
        (unchanged' other member text readable).trans (digest held cached).symm
      have ended := cached?_of_served (withinNext.along rest).sound served
      rw [along_append] at stays
      rw [Option.some.inj (stays.symm.trans ended)]

/-! ### Sessions without patterns -/

/-- The first run of a session without patterns that keeps nothing, when it starts. -/
def started (config : Config) : Session where
  observer := .instrument { loader := { rules := .plain config } }
  recording := {
    rules := ⟨config.root, (LoaderRules.plain config).filter, config.analysisSettings⟩ }
  running := true

theorem ofConfig_plain {config : Config} (isPlain : config.IsPlain)
    (absolute : Path.isAbsolute config.root.toList = true) :
    ofConfig config .instrument none = .ok { started config with running := false } := by
  have filter : Path.Filter.ofConfig config = .ok (LoaderRules.plain config).filter := by
    rw [Path.Filter.ofConfig, isPlain.included, isPlain.excluded]
    rfl
  rw [ofConfig, Observer.ofConfig, Loader.ofConfig_plain isPlain, filter, absolute]
  rfl

theorem exists_started {config : Config} (isPlain : config.IsPlain)
    (absolute : Path.isAbsolute config.root.toList = true) :
    ∃ fresh, ofConfig config .instrument none = .ok fresh ∧ fresh.start.1 = started config ∧
      fresh.start.1.IsWithinRun := by
  have made := ofConfig_plain isPlain absolute
  exact ⟨_, made, rfl, (sound_ofConfig made).isWithinRun_start⟩

/-- A session whose loader is idle serves what the loader makes. -/
theorem served_of_idle {session : Session} {instrumentation : Instrumentation}
    (observer : session.observer = .instrument instrumentation) {config : Config}
    (idle : instrumentation.loader.IsIdle config) {sources : PathMap String}
    {file path text : String} {out : Instrumented}
    (isPath : Path.normalize config.root file = path) (readable : sources[path]? = some text)
    (apart : (path.toList.flatMap String.utf8EncodeChar).head? ≠ some 99)
    (room : config.maxLoadDepth ≠ 0)
    (alone : (analyze config.analysisSettings text path).requires = [])
    (uncached : instrumentation.loader.cached? path (Text.Digest.ofText text) = none)
    (made : instrument config.analysisSettings (.ofConfig config) text path = .ok out) :
    let loaded : InstrumentedModule := ⟨path, path, Text.Digest.ofText text, text, out,
      analyze config.analysisSettings text path⟩
    (session.intercept sources (.file file)).2 = some (.instrumented loaded) ∧
      ∃ next : Instrumentation,
        (session.intercept sources (.file file)).1.observer = .instrument next ∧
          next.loader.IsIdle config ∧ next.loader.cache[path]? = some loaded := by
  intro loaded
  obtain ⟨served, idle', cache⟩ :=
    idle.answer isPath readable apart room alone uncached made
  rw [Loader.intercept_eq_answer session instrumentation observer, Instrumentation.intercept]
  refine ⟨congrArg some served, _, rfl, ?_⟩
  rw [Instrumentation.loader_catchUp]
  refine ⟨idle', ?_⟩
  rw [cache]
  exact Std.ExtTreeMap.getElem?_insert_self

theorem normalize_of_isAbsolute (root : String) {path : String}
    (absolute : Path.isAbsolute (Path.forwardSlashes path.toList) = true) :
    Path.normalize root path = Path.normalize "/" path := by
  rw [Path.normalize, Path.normalize, Path.normalChars, Path.normalChars, Path.joined, Path.joined,
    if_pos absolute, if_pos absolute]

/-! ### The form that was served -/

/-- **A run works with the form that was served**, if this is the first form of the file that the
loader had after a load of the run. -/
theorem works_with_served {config : Config} {disk : Option SourceCache} {fresh : Session}
    (made : ofConfig config .instrument disk = .ok fresh)
    (filled : ∀ cache, disk = some cache → ∃ texts configs, cache.Filled texts configs)
    (history : List SessionStep) (before after : List Moment) (sources : PathMap String)
    (request : LoadRequest) {loaded : InstrumentedModule}
    (served : (((fresh.after history).through before).intercept sources request).2 =
      some (.instrumented loaded))
    (first : (fresh.after history).start.1.firstForm? loaded.path
      (before ++ [⟨sources, .load request⟩]) = some loaded.instrumented) :
    ((fresh.after history).through (before ++ ⟨sources, .load request⟩ :: after)).WorksWith
      loaded.path loaded.instrumented := by
  have sound : (fresh.after history).Sound := (sound_ofConfig made).after history
  have started := sound.isWithinRun_start
  let atLoad := (fresh.after history).start.1.along (before ++ [⟨sources, .load request⟩])
  have withinLoad : atLoad.IsWithinRun := started.along _
  have isRun : (fresh.after history).through (before ++ ⟨sources, .load request⟩ :: after) =
      atLoad.along after := by
    rw [List.append_cons]
    exact along_append _ _ after
  have adopted : (atLoad.along after).adopted? loaded.path = some loaded.instrumented := by
    rw [withinLoad.adopted?_along, started.adopted?_along, adopted?_start, Option.none_or, first,
      Option.some_or]
  have proper : loaded.instrumented.IsProper := by
    have soundBefore : ((fresh.after history).through before).Sound := (started.along before).sound
    have cached := cached?_of_served soundBefore served
    have steps : (((fresh.after history).through before).intercept sources request).1 =
        fresh.after (history ++ (.start :: before.map Moment.step ++
          [.intercept sources request])) := by
      rw [through_eq_after, Session.after, Session.after, Session.after, List.foldl_append,
        List.foldl_append]
      rfl
    rw [steps] at cached
    exact isProper_after made filled _ cached
  rw [isRun]
  exact (withinLoad.along after).worksWith adopted proper

open Loader in
/-- The first and the last line of the file hold keywords only, and can run here. The site on the
first line accounts for the last one as well, and a hit at this site is recorded. -/
theorem works_with_served_block :
    let load : Moment := ⟨onlyFile "do\n  f()\nend\n", .load (.file "a.lua")⟩
    ∃ (fresh : Session) (loaded : InstrumentedModule),
      ofConfig { root := "/p", structuralKeywords := .executable } .instrument none = .ok fresh ∧
      (((fresh.after []).through []).intercept load.sources (.file "a.lua")).2 =
        some (.instrumented loaded) ∧
      (fresh.after []).start.1.firstForm? loaded.path ([] ++ [load]) = some loaded.instrumented ∧
      ⟨1, 0, [3]⟩ ∈ loaded.instrumented.sites ∧
      let run := (fresh.after []).through ([] ++ [load])
      (run.observe ∅ (.hit "/p/a.lua" 1 0)).recording.counters.recorded =
          run.recording.counters.recorded + 1 ∧
        run.WorksWith loaded.path loaded.instrumented := by
  intro load
  have isPlain : Config.IsPlain { root := "/p", structuralKeywords := .executable } :=
    ⟨rfl, rfl, rfl⟩
  obtain ⟨fresh, made, isStarted, within⟩ := exists_started isPlain (by decide)
  have observer := congrArg Session.observer isStarted
  obtain ⟨out, isOut, isSites⟩ := exists_ok_of_view
    (show (instrument ⟨.executable, 4194304⟩ ⟨"__covlua", true⟩ "do\n  f()\nend\n"
      "/p/a.lua").toOption.map (fun out => out.sites) = some [⟨1, 0, [3]⟩, ⟨2, 1, []⟩] by
        decide +kernel)
  obtain ⟨served, -⟩ := served_of_idle observer ⟨rfl, rfl, rfl, rfl⟩ path_onlyFile
    (readable_onlyFile _) apart_onlyFile (by decide) (by decide +kernel) rfl isOut
  have first := firstForm?_of_unchanged within [] load.sources (.file "a.lua") served
    (fun held cached => (by rw [cached?, observer] at cached; cases cached))
    (fun moment member text readable => by
      obtain rfl := List.mem_singleton.mp member
      obtain rfl := Option.some.inj ((readable_onlyFile _).symm.trans readable)
      rfl)
  refine ⟨fresh, _, made, served, first, isSites ▸ List.mem_cons_self, ?_,
    works_with_served made nofun [] [] [] load.sources (.file "a.lua") served first⟩
  have answered := answer_alone
    { rules := .plain { root := "/p", structuralKeywords := .executable } } load.sources "a.lua"
    path_onlyFile (readable_onlyFile _) (LoaderRules.isExcluded_plain apart_onlyFile)
    (LoaderRules.rule_plain _ _) (by decide) Std.ExtTreeSet.contains_empty rfl rfl
    (by decide +kernel)
  rw [show (fresh.after []).through ([] ++ [load]) =
      (fresh.start.1.intercept load.sources (.file "a.lua")).1 from rfl,
    intercept_eq_answer _ _ observer, Instrumentation.intercept, answered, isStarted]
  decide +kernel

open Loader in
/-- The file is loaded again after its first two lines have become comments. The text that runs now
has its only statement on the fourth line, which came from the third line of the source; the run
goes by the form that it adopted before, whose fourth line came from the second. -/
theorem works_with_outdated :
    let before := onlyFile "x = 1\ny = 2\nz = 3\n"
    let now := onlyFile "-- c\n-- d\nz = 3\n"
    let request : LoadRequest := .file "a.lua"
    ∃ (fresh : Session) (loaded : InstrumentedModule),
      ofConfig { root := "/p" } .instrument none = .ok fresh ∧
      ((fresh.through [⟨before, .load request⟩]).intercept now request).2 =
        some (.instrumented loaded) ∧
      let run := fresh.through [⟨before, .load request⟩, ⟨now, .load request⟩]
      run.target? ⟨"/p/a.lua", 4⟩ = some ("/p/a.lua", 2) ∧
        loaded.instrumented.sourceMap.sourceLine? 4 = some 3 ∧
        ¬ run.WorksWith loaded.path loaded.instrumented := by
  intro before now request
  have isPlain : Config.IsPlain { root := "/p" } := ⟨rfl, rfl, rfl⟩
  obtain ⟨fresh, made, isStarted, within⟩ := exists_started isPlain (by decide)
  have observer := congrArg Session.observer isStarted
  obtain ⟨old, isOld, oldLine⟩ := exists_ok_of_view
    (show (instrument ⟨.nonExecutable, 4194304⟩ ⟨"__covlua", true⟩ "x = 1\ny = 2\nz = 3\n"
      "/p/a.lua").toOption.map (fun out => out.sourceMap.sourceLine? 4) = some (some 2) by
        decide +kernel)
  obtain ⟨new, isNew, newLine⟩ := exists_ok_of_view
    (show (instrument ⟨.nonExecutable, 4194304⟩ ⟨"__covlua", true⟩ "-- c\n-- d\nz = 3\n"
      "/p/a.lua").toOption.map (fun out => out.sourceMap.sourceLine? 4) = some (some 3) by
        decide +kernel)
  obtain ⟨-, reached, observer', idle', cached⟩ := served_of_idle observer ⟨rfl, rfl, rfl, rfl⟩
    path_onlyFile (readable_onlyFile _) apart_onlyFile (by decide) (by decide +kernel) rfl isOld
  have differ : Text.Digest.ofText "x = 1\ny = 2\nz = 3\n" ≠
      Text.Digest.ofText "-- c\n-- d\nz = 3\n" := by
    rw [Text.Digest.ofText, Text.Digest.ofText, Text.toList_toUTF8, Text.toList_toUTF8]
    decide +kernel
  have uncached : reached.loader.cached? "/p/a.lua"
      (Text.Digest.ofText "-- c\n-- d\nz = 3\n") = none := by
    rw [Loader.cached?, cached, Option.filter_some, if_neg fun same => differ (eq_of_beq same)]
  obtain ⟨served, -⟩ := served_of_idle observer' idle' path_onlyFile (readable_onlyFile _)
    apart_onlyFile (by decide) (by decide +kernel) uncached isNew
  have first : fresh.start.1.firstForm? "/p/a.lua" [⟨before, .load request⟩, ⟨now, .load request⟩] =
      some old := by
    have form : (fresh.start.1.replayEntry before (.load request)).form? "/p/a.lua" = some old := by
      rw [replayEntry, form?, cached?, observer']
      simp only [cached, Option.map_some]
    rw [firstForm?]
    simp only [form, Option.some_or]
  have adopted := within.adopted?_along "/p/a.lua" [⟨before, .load request⟩, ⟨now, .load request⟩]
  rw [adopted?_start, Option.none_or, first] at adopted
  have worksOld := (within.along _).worksWith adopted (isProper_instrumentWith isOld)
  have named : (fresh.through [⟨before, .load request⟩, ⟨now, .load request⟩]).frameFile?
      "/p/a.lua" = some "/p/a.lua" :=
    congrArg some ((normalize_of_isAbsolute _ (by decide)).trans (by decide +kernel))
  have isTarget := worksOld.leads ⟨"/p/a.lua", 4⟩ named
  simp only [oldLine, Option.map_some] at isTarget
  refine ⟨fresh, _, made, served, isTarget, newLine, fun works => ?_⟩
  have same := works.sourceLine?_eq worksOld named 4
  exact absurd (newLine.symm.trans (same.trans oldLine)) (by decide)

end Session

end LuaCoverage
