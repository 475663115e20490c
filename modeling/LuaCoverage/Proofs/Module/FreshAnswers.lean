import LuaCoverage.Proofs.Module.EarlierRuns
import LuaCoverage.Proofs.OrderedMap
import Mathlib.Data.List.Nodup

/-!
# Answers are never out of date

A loader keeps what it has made in its cache, and serves it again without looking at the rules, the
analysis or the text that it came from. Forms get there in the middle of other loads, under any of
the names that lead to a file, and they stay there while the files change.

What makes this sound is that a form carries the digest of its text. A loader that keeps nothing
between runs has only forms that it would make again of the text they came from
(`Loader.IsFresh`), which every load preserves (`Loader.Loads.isFresh`) since each step of a load
either leaves the cache alone or puts there what was just made. A form is served only where the file
holds a text with its digest, so if no two texts have the same digest, it is the form of the text
that the file holds (`Loader.answer_fresh`).

The cache holds at most one form of each file. Read as a list of forms, it is searched by path and
digest (`Loader.CacheSound.cached?_eq_find?`), and keeping a form drops every other one of its file
(`Loader.CacheSound.values_keep`).
-/

set_option autoImplicit false

namespace LuaCoverage

/-- Whether an instrumented file is what analysing and instrumenting a text under its path gives. -/
structure InstrumentedModule.IsMadeOf (settings : AnalysisSettings) (options : InstrumentSettings)
    (text : String) (loaded : InstrumentedModule) : Prop where
  source : loaded.source = text
  contentHash : loaded.contentHash = Text.Digest.ofText text
  analysis : loaded.analysis = analyze settings text loaded.path
  made : instrument settings options text loaded.path = .ok loaded.instrumented

/-- Whether a request can be answered with the file at a path. -/
def LoadRequest.LeadsTo (rules : LoaderRules) (path : String) : LoadRequest → Prop
  | .module name => path ∈ rules.candidates name
  | .file given => path = Path.normalize rules.root given

namespace Loader

/-! ## The cache as a list of forms -/

section Forms

variable {loader : Loader}

/-- **No two forms in a cache are of the same file.** -/
theorem CacheSound.nodup_paths (sound : loader.CacheSound) :
    (loader.cache.values.map InstrumentedModule.path).Nodup := by
  have paths : loader.cache.values.map InstrumentedModule.path =
      loader.cache.toList.map Prod.fst := by
    rw [values_eq_map_toList, List.map_map]
    refine List.map_congr_left fun entry member => ?_
    exact (sound entry.1 entry.2 (Std.ExtTreeMap.mem_toList_iff_getElem?_eq_some.mp member)).1
  rw [paths]
  refine List.pairwise_map.mpr (loader.cache.distinct_keys_toList.imp fun differs same => ?_)
  exact differs (Std.LawfulEqCmp.compare_eq_iff_eq.mpr same)

/-- The cache is searched by the path of a file and the digest of its text. -/
theorem CacheSound.cached?_eq_find? (sound : loader.CacheSound) (path contentHash : String) :
    loader.cached? path contentHash = loader.cache.values.find? fun loaded =>
      loaded.path == path && loaded.contentHash == contentHash := by
  cases found : loader.cache.values.find? fun loaded =>
      loaded.path == path && loaded.contentHash == contentHash with
  | none =>
      refine Option.eq_none_iff_forall_ne_some.mpr fun loaded cached => ?_
      obtain ⟨stored, current⟩ := Option.filter_eq_some_iff.mp cached
      refine List.find?_eq_none.mp found loaded (mem_values_iff.mpr ⟨path, stored⟩) ?_
      rw [(sound path loaded stored).1, beq_self_eq_true, current, Bool.and_self]
  | some loaded =>
      obtain ⟨key, stored⟩ := mem_values_iff.mp (List.mem_of_find?_eq_some found)
      obtain ⟨isPath, current⟩ := Bool.and_eq_true_iff.mp (List.find?_some found :)
      obtain rfl : key = path := (sound key loaded stored).1.symm.trans (eq_of_beq isPath)
      exact Option.filter_eq_some_iff.mpr ⟨stored, current⟩

/-- Keeping a form drops every other form of its file. -/
theorem CacheSound.values_keep (sound : loader.CacheSound) (loaded : InstrumentedModule)
    (kept : (loader.keep loaded).CacheSound) :
    (loader.keep loaded).cache.values.Perm
      (loaded :: loader.cache.values.filter fun other => other.path != loaded.path) := by
  have nodup : (loaded :: loader.cache.values.filter fun other =>
      other.path != loaded.path).Nodup := by
    refine List.nodup_cons.mpr ⟨fun inside => ?_, (List.Nodup.of_map _ sound.nodup_paths).filter _⟩
    exact bne_iff_ne.mp (List.mem_filter.mp inside).2 rfl
  have nodup' := List.Nodup.of_map _ kept.nodup_paths
  refine (List.perm_ext_iff_of_nodup nodup' nodup).mpr fun other => ?_
  rw [mem_values_iff, List.mem_cons, List.mem_filter, mem_values_iff, bne_iff_ne]
  simp only [keep, Std.ExtTreeMap.getElem?_insert, Std.LawfulEqCmp.compare_eq_iff_eq]
  constructor
  · rintro ⟨path, found⟩
    split at found
    · exact .inl (Option.some.inj found).symm
    · rename_i apart
      refine .inr ⟨⟨path, found⟩, fun same => apart ?_⟩
      rw [← (sound path other found).1, same]
  · rintro (rfl | ⟨⟨path, found⟩, apart⟩)
    · exact ⟨other.path, if_pos rfl⟩
    · refine ⟨path, ?_⟩
      rwa [if_neg fun same => apart ((sound path other found).1.trans same.symm)]

end Forms

/-! ## Forms that would be made again -/

/-- Whether a loader keeps nothing between runs, and has in its cache only what it would make again
of some texts. -/
structure IsFresh (texts : Set String) (loader : Loader) : Prop where
  disk : loader.disk = none
  cached : ∀ (path : String) (loaded : InstrumentedModule), loader.cache[path]? = some loaded →
    loaded.path = path ∧
      ∃ text ∈ texts, loaded.IsMadeOf loader.rules.settings loader.rules.options text

/-- Whether a loader has found its modules among the places where it looks for them. -/
def ResolvesToCandidates (loader : Loader) : Prop :=
  ∀ name path : String, loader.resolved[name]? = some (some path) →
    path ∈ loader.rules.candidates name

section Fresh

variable {texts : Set String} {sources : PathMap String} {loader next : Loader}

theorem IsFresh.congr (fresh : loader.IsFresh texts) (disk : next.disk = loader.disk)
    (rules : next.rules = loader.rules) (cache : next.cache = loader.cache) :
    next.IsFresh texts := by
  refine ⟨disk.trans fresh.disk, fun path loaded found => ?_⟩
  rw [rules]
  exact fresh.cached path loaded (cache ▸ found)

/-- A loader that keeps nothing between runs makes what it produces. -/
theorem produce_of_no_disk (nothing : loader.disk = none) (path contentHash text : String)
    (analysis : Analysis) :
    (loader.produce path contentHash text analysis).1.disk = none ∧
      (loader.produce path contentHash text analysis).2 =
        instrumentWith loader.rules.options text path analysis := by
  have missing := loader.stored?_of_no_disk nothing
    ⟨path, contentHash, loader.rules.options.trackerName⟩
  unfold produce
  simp only [missing]
  cases instrumentWith loader.rules.options text path analysis with
  | error problem => exact ⟨nothing, rfl⟩
  | ok out => exact ⟨by simp only [nothing, Option.map_none], rfl⟩

/-- **Finishing a file** puts only what was just made into the cache. -/
theorem IsFresh.finish (fresh : loader.IsFresh texts) (name : String) {path text : String}
    (known : text ∈ texts) :
    (loader.finish name path text (analyze loader.rules.settings text path)).1.IsFresh texts := by
  let analysis := analyze loader.rules.settings text path
  obtain ⟨nothing, produced⟩ := produce_of_no_disk fresh.disk path (Text.Digest.ofText text) text
    analysis
  obtain ⟨disk, ended⟩ := loader.finish_produce name path text analysis
  obtain ⟨rules, -, -⟩ := loader.finish_frame name path text analysis
  rcases loader.finish_cases name path text analysis with ⟨cache, -⟩ | ⟨out, finished, cache⟩
  · exact fresh.congr ((disk.trans nothing).trans fresh.disk.symm) rules cache
  refine ⟨disk.trans nothing, fun other loaded found => ?_⟩
  rw [cache, Std.ExtTreeMap.getElem?_insert] at found
  rw [rules]
  split at found
  · rename_i same
    obtain rfl := Std.LawfulEqCmp.eq_of_compare same
    obtain rfl := Option.some.inj found
    rw [produced, finished] at ended
    refine ⟨rfl, text, known, rfl, rfl, rfl, ?_⟩
    cases made : instrumentWith loader.rules.options text path analysis with
    | error problem =>
        rw [made] at ended
        cases ended
    | ok fresh =>
        rw [made] at ended
        exact made.trans (congrArg (fun loaded => Except.ok loaded.instrumented)
          (Except.ok.inj ended).symm)
  · exact fresh.cached other loaded found

/-- **Loads make only what they would make again.** -/
theorem Loads.isFresh (loads : Loads sources loader next)
    (known : ∀ path text : String, sources[path]? = some text → text ∈ texts)
    (fresh : loader.IsFresh texts) : next.IsFresh texts := by
  induction loads with
  | refl loader => exact fresh
  | trans _ _ ih ih' => exact ih' (ih fresh)
  | resolve loader name =>
      unfold Loader.resolve
      split <;> exact ⟨fresh.disk, fresh.cached⟩
  | skip loader => exact ⟨fresh.disk, fresh.cached⟩
  | reuse loader => exact ⟨fresh.disk, fresh.cached⟩
  | abort loader path => exact ⟨fresh.disk, fresh.cached⟩
  | @file loader prepared name path text readable _ _ inside ih =>
      have before : prepared.IsFresh texts := ih ⟨fresh.disk, fresh.cached⟩
      have rules : prepared.rules = loader.rules := inside.rules_eq
      rw [← rules]
      exact before.finish name (known path text readable)

theorem ResolvesToCandidates.resolve (leads : loader.ResolvesToCandidates)
    (sources : PathMap String) (name : String) :
    (loader.resolve sources name).1.ResolvesToCandidates ∧
      ∀ path, (loader.resolve sources name).2 = some path →
        path ∈ loader.rules.candidates name := by
  unfold Loader.resolve
  cases known : loader.resolved[name]? with
  | some found => exact ⟨leads, fun path same => leads name path (known.trans (congrArg some same))⟩
  | none =>
      refine ⟨fun other path found => ?_, fun path found => List.mem_of_find?_eq_some found⟩
      rw [Std.ExtTreeMap.getElem?_insert] at found
      split at found
      · rename_i same
        obtain rfl := Std.LawfulEqCmp.eq_of_compare same
        exact List.mem_of_find?_eq_some (Option.some.inj found)
      · exact leads other path found

theorem Loads.resolvesToCandidates (loads : Loads sources loader next)
    (leads : loader.ResolvesToCandidates) : next.ResolvesToCandidates := by
  induction loads with
  | refl loader => exact leads
  | trans _ _ ih ih' => exact ih' (ih leads)
  | resolve loader name => exact (leads.resolve sources name).1
  | skip loader => exact leads
  | reuse loader => exact leads
  | abort loader path => exact leads
  | @file loader prepared name path text _ _ _ inside ih =>
      have before : prepared.ResolvesToCandidates := ih leads
      intro other found isFound
      rw [(finish_frame prepared name path text _).1]
      exact before other found (by rwa [resolved_finish] at isFound)

/-! ## Every call -/

/-- A new loader has made nothing and found nothing. -/
theorem isFresh_ofConfig {config : Config} (made : ofConfig config none = .ok loader) :
    loader.IsFresh texts ∧ loader.ResolvesToCandidates ∧ loader.CacheSound ∧
      loader.rules.settings = config.analysisSettings ∧
      loader.rules.options = .ofConfig config := by
  obtain ⟨rules, ruled, rfl⟩ := exists_rules_of_ofConfig made
  exact ⟨⟨rfl, fun _ _ found => (by cases found)⟩, fun _ _ found => (by cases found),
    fun _ _ found => (by cases found), LoaderRules.settings_ofConfig ruled⟩

/-- **Calls keep a loader fresh**, whatever files change between them. -/
theorem IsFresh.after (fresh : loader.IsFresh texts) (leads : loader.ResolvesToCandidates)
    (sound : loader.CacheSound) {calls : List LoaderCall}
    (known : ∀ call ∈ calls, call.ReadsFrom texts) :
    (loader.after calls).IsFresh texts ∧ (loader.after calls).ResolvesToCandidates ∧
      (loader.after calls).CacheSound ∧ (loader.after calls).rules = loader.rules := by
  induction calls generalizing loader with
  | nil => exact ⟨fresh, leads, sound, rfl⟩
  | cons call rest ih =>
      have later : ∀ call ∈ rest, call.ReadsFrom texts :=
        fun call member => known call (List.mem_cons_of_mem _ member)
      cases call with
      | forgetResolved =>
          have forgot : loader.forgetResolved.IsFresh texts := ⟨fresh.disk, fresh.cached⟩
          exact ih forgot (fun _ _ found => (by cases found)) sound later
      | load sources request =>
          have loads := (loads_answer sources loader request).1
          obtain ⟨fresh', leads', sound', rules⟩ :=
            ih (loads.isFresh (known _ List.mem_cons_self) fresh)
              (loads.resolvesToCandidates leads) (loads.cacheSound sound) later
          exact ⟨fresh', leads', sound', rules.trans loads.rules_eq⟩

/-- Where an answer comes from: the file that was asked for is instrumented and in the cache for
the text that it holds, or this text is served as it is. -/
theorem answer_cases (leads : loader.ResolvesToCandidates) (sources : PathMap String)
    (request : LoadRequest) :
    (∀ loaded, (loader.answer sources request).2 = .instrumented loaded →
      ∃ path text : String, request.LeadsTo loader.rules path ∧ sources[path]? = some text ∧
        loaded.contentHash = Text.Digest.ofText text ∧
        (loader.answer sources request).1.cache[path]? = some loaded) ∧
      ∀ name path text reason,
        (loader.answer sources request).2 = .unchanged name path text reason →
          request.LeadsTo loader.rules path ∧ sources[path]? = some text := by
  have unchanged (before : Loader) (name path : String) (name' path' text : String)
      (reason : UnchangedReason)
      (same : (before.loadFound sources name path).2 = .unchanged name' path' text reason) :
      path' = path ∧ sources[path]? = some text := by
    unfold loadFound at same
    split at same
    · cases same
    · rename_i found readable
      split at same
      · cases same
        exact ⟨rfl, readable⟩
      · split at same
        · cases same
        · cases same
          exact ⟨rfl, readable⟩
  cases request with
  | file given =>
      refine ⟨fun loaded same => ?_, fun name path text reason same => ?_⟩
      · obtain ⟨text, found⟩ := (loads_loadFound sources loader _ _).2 loaded same
        exact ⟨_, text, rfl, found⟩
      · obtain ⟨rfl, readable⟩ := unchanged loader _ _ _ _ _ _ same
        exact ⟨rfl, readable⟩
  | module name =>
      obtain ⟨-, candidate⟩ := leads.resolve sources name
      rw [answer, load]
      cases resolved : loader.resolve sources name with
      | mk next found =>
          rw [resolved] at candidate
          cases found with
          | none => exact ⟨fun _ same => (by cases same), fun _ _ _ _ same => (by cases same)⟩
          | some path =>
              refine ⟨fun loaded same => ?_, fun name' path' text reason same => ?_⟩
              · obtain ⟨text, found⟩ := (loads_loadFound sources next name path).2 loaded same
                exact ⟨path, text, candidate path rfl, found⟩
              · obtain ⟨rfl, readable⟩ := unchanged next _ _ _ _ _ _ same
                exact ⟨candidate path' rfl, readable⟩

/-- **No answer is out of date.** A loader that keeps nothing between runs was called any number of
times, while files changed between the calls, and no two of the texts that they ever held have the
same digest. An instrumented file that it answers with is then what analysing and instrumenting the
text gives that the file holds now, and a file that it leaves as it is comes with this text. The
cache never holds two forms of one file. -/
theorem answer_fresh (distinct : texts.InjOn Text.Digest.ofText) {config : Config}
    (made : ofConfig config none = .ok loader) {calls : List LoaderCall}
    (known : ∀ call ∈ calls, call.ReadsFrom texts) {request : LoadRequest}
    (known' : (LoaderCall.load sources request).ReadsFrom texts) :
    (∀ loaded, ((loader.after calls).answer sources request).2 = .instrumented loaded →
      request.LeadsTo loader.rules loaded.path ∧
        ∃ text, sources[loaded.path]? = some text ∧
          loaded.IsMadeOf config.analysisSettings (.ofConfig config) text) ∧
      (∀ name path text reason,
        ((loader.after calls).answer sources request).2 = .unchanged name path text reason →
          request.LeadsTo loader.rules path ∧ sources[path]? = some text) ∧
      ((loader.after calls).cache.values.map InstrumentedModule.path).Nodup ∧
      (((loader.after calls).answer sources request).1.cache.values.map
        InstrumentedModule.path).Nodup := by
  obtain ⟨isNew, leads, sound, settings, options⟩ := isFresh_ofConfig made
  obtain ⟨fresh, leads, sound, rules⟩ := IsFresh.after isNew leads sound known
  obtain ⟨instrumented, unchanged⟩ := answer_cases leads sources request
  have loads := (loads_answer sources (loader.after calls) request).1
  have fresh' := loads.isFresh known' fresh
  have rules' := loads.rules_eq.trans rules
  rw [rules] at instrumented unchanged
  refine ⟨fun loaded same => ?_, unchanged, sound.nodup_paths, (loads.cacheSound sound).nodup_paths⟩
  obtain ⟨path, text, asked, readable, digest, cached⟩ := instrumented loaded same
  obtain ⟨rfl, other, known'', isMade⟩ := fresh'.cached path loaded cached
  obtain rfl : other = text := distinct known'' (known' loaded.path text readable)
    (isMade.contentHash.symm.trans digest)
  rw [rules', settings, options] at isMade
  exact ⟨asked, other, readable, isMade⟩

end Fresh

theorem after_load (loader : Loader) (sources : PathMap String) (request : LoadRequest) :
    loader.after [.load sources request] = (loader.answer sources request).1 := rfl

/-- A file that changed since it was first loaded is served as it is instrumented now. -/
theorem answer_fresh_changed :
    let config : Config := { root := "/p" }
    let texts : Set String := {"x = 1\n", "y = 2\n"}
    let calls : List LoaderCall := [.load (onlyFile "x = 1\n") (.file "a.lua")]
    let sources := onlyFile "y = 2\n"
    ∃ (loader : Loader) (loaded : InstrumentedModule), texts.InjOn Text.Digest.ofText ∧
      ofConfig config none = .ok loader ∧ (∀ call ∈ calls, call.ReadsFrom texts) ∧
      (LoaderCall.load sources (.file "a.lua")).ReadsFrom texts ∧
      ((loader.after calls).cache["/p/a.lua"]?).map InstrumentedModule.source = some "x = 1\n" ∧
      ((loader.after calls).answer sources (.file "a.lua")).2 = .instrumented loaded ∧
      loaded.IsMadeOf config.analysisSettings (.ofConfig config) "y = 2\n" := by
  intro config texts calls sources
  obtain ⟨loader, made, idle, nothing⟩ : ∃ loader, ofConfig config none = .ok loader ∧
      loader.IsIdle config ∧ loader.cached? "/p/a.lua" (Text.Digest.ofText "x = 1\n") = none :=
    ⟨_, ofConfig_plain ⟨rfl, rfl, rfl⟩ none, ⟨rfl, rfl, rfl, rfl⟩, rfl⟩
  have apart : Text.Digest.ofText "x = 1\n" ≠ Text.Digest.ofText "y = 2\n" := by decide +kernel
  have distinct : texts.InjOn Text.Digest.ofText := by
    rintro first (rfl | rfl) second (rfl | rfl) same
    · rfl
    · exact absurd same apart
    · exact absurd same.symm apart
    · rfl
  have known (text : String) (member : text ∈ texts) (request : LoadRequest) :
      (LoaderCall.load (onlyFile text) request).ReadsFrom texts :=
    fun path found readable => eq_of_onlyFile readable ▸ member
  have known' : ∀ call ∈ calls, call.ReadsFrom texts := by
    intro call member
    obtain rfl := List.mem_singleton.mp member
    exact known _ (.inl rfl) _
  obtain ⟨first, isFirst, -⟩ := exists_ok_of_view (show (instrument config.analysisSettings
    (.ofConfig config) "x = 1\n" "/p/a.lua").toOption.map (fun _ => ()) = some () by decide +kernel)
  obtain ⟨second, isSecond, -⟩ := exists_ok_of_view (show (instrument config.analysisSettings
    (.ofConfig config) "y = 2\n" "/p/a.lua").toOption.map (fun _ => ()) = some () by decide +kernel)
  have after : loader.after calls = (loader.answer (onlyFile "x = 1\n") (.file "a.lua")).1 :=
    after_load loader _ _
  obtain ⟨-, idle, cache⟩ := idle.answer path_onlyFile (readable_onlyFile _) apart_onlyFile
    (by decide) (by decide +kernel) nothing isFirst
  rw [← after] at idle cache
  have held := (congrArg (fun cache : PathMap InstrumentedModule => cache["/p/a.lua"]?) cache).trans
    Std.ExtTreeMap.getElem?_insert_self
  have uncached : (loader.after calls).cached? "/p/a.lua" (Text.Digest.ofText "y = 2\n") =
      none := by
    rw [cached?, held, Option.filter_some, if_neg fun same => apart (eq_of_beq same)]
  obtain ⟨answered, -, -⟩ := idle.answer path_onlyFile (readable_onlyFile _) apart_onlyFile
    (by decide) (by decide +kernel) uncached isSecond
  obtain ⟨current, -⟩ := answer_fresh distinct made known' (known _ (.inr rfl) (.file "a.lua"))
  obtain ⟨-, text, readable, isMade⟩ := current _ answered
  rw [eq_of_onlyFile readable] at isMade
  have source : ((loader.after calls).cache["/p/a.lua"]?).map InstrumentedModule.source =
      some "x = 1\n" := by rw [held]; rfl
  exact ⟨loader, _, distinct, made, known', known _ (.inr rfl) _, source, answered, isMade⟩

end Loader

end LuaCoverage
