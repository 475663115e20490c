import LuaCoverage.Proofs.Instrument.Sites
import LuaCoverage.Proofs.Module.EarlierRuns

/-!
# Forms whose sites can be told apart

A hit is reported with the line and the block of its site, so what a hit accounts for is found by
these two. This leads to the site that the hit came from because an instrumented source has no two
sites with the same line and block (`Instrumented.IsProper`).

Every form that a loader makes is proper, and so is every form that it reads from what earlier runs
have left, because these were made by loaders too and are read faithfully
(`Loader.isProper_ofConfig`). Loads keep it so (`Loader.Loads.isProper`).
-/

set_option autoImplicit false

namespace LuaCoverage

namespace Loader

/-- Whether every form that a loader has, or can read from what it keeps, is proper. -/
structure IsProper (loader : Loader) : Prop where
  cached : ∀ (path : String) (loaded : InstrumentedModule), loader.cache[path]? = some loaded →
    loaded.instrumented.IsProper
  kept : ∀ entry ∈ loader.kept, ∀ out, SourceCache.read entry = .ok out → out.IsProper

section Proper

variable {loader next : Loader} {sources : PathMap String}

/-- What a loader produces is proper, whether it was kept or is made. -/
theorem IsProper.produce (proper : loader.IsProper) {path contentHash text : String}
    {analysis : Analysis} {out : Instrumented}
    (produced : (loader.produce path contentHash text analysis).2 = .ok out) : out.IsProper := by
  unfold Loader.produce at produced
  simp only at produced
  split at produced
  · rename_i found stored
    obtain rfl := Except.ok.inj produced
    obtain ⟨entry, member, -, reads⟩ := exists_entry_of_stored stored
    exact proper.kept entry member found reads
  · split at produced
    · cases produced
    · rename_i found made
      obtain rfl := Except.ok.inj produced
      exact isProper_instrumentWith made

theorem IsProper.finish (proper : loader.IsProper) (name path text : String)
    (analysis : Analysis) : (loader.finish name path text analysis).1.IsProper := by
  refine ⟨fun other loaded found => ?_, fun entry member out reads => ?_⟩
  · rcases loader.finish_cases name path text analysis with ⟨cache, -⟩ | ⟨out, ended, cache⟩
    · exact proper.cached other loaded (cache ▸ found)
    · rw [cache, Std.ExtTreeMap.getElem?_insert] at found
      split at found
      · obtain rfl := Option.some.inj found
        rw [(loader.finish_produce name path text analysis).2] at ended
        split at ended
        · cases ended
        · rename_i made produced
          obtain rfl := congrArg InstrumentedModule.instrumented (Except.ok.inj ended)
          exact proper.produce produced
      · exact proper.cached other loaded found
  · rw [kept_finish] at member
    rcases written_produce member with before | ⟨made, isMade, rfl⟩
    · exact proper.kept entry before out reads
    · obtain rfl := SourceCache.eq_of_read_entryOf reads
      exact isProper_instrumentWith isMade

/-- **Loads keep forms proper.** -/
theorem Loads.isProper (loads : Loads sources loader next) (proper : loader.IsProper) :
    next.IsProper := by
  induction loads with
  | refl loader => exact proper
  | trans _ _ ih ih' => exact ih' (ih proper)
  | resolve loader name =>
      unfold Loader.resolve
      split <;> exact ⟨proper.cached, proper.kept⟩
  | skip loader => exact ⟨proper.cached, proper.kept⟩
  | reuse loader => exact ⟨proper.cached, proper.kept⟩
  | abort loader path => exact ⟨proper.cached, proper.kept⟩
  | file name path text _ _ _ _ ih =>
      exact (ih ⟨proper.cached, proper.kept⟩).finish name path text _

/-- A new loader has no forms but those that earlier runs have left. -/
theorem isProper_ofConfig {config : Config} {disk : Option SourceCache}
    (made : ofConfig config disk = .ok loader)
    (filled : ∀ cache, disk = some cache → ∃ texts configs, cache.Filled texts configs) :
    loader.IsProper := by
  obtain ⟨rules, -, rfl⟩ := exists_rules_of_ofConfig made
  refine ⟨fun _ _ found => (by cases found), fun entry member out reads => ?_⟩
  obtain ⟨cache, isDisk, isEntry⟩ := List.mem_flatMap.mp member
  obtain ⟨texts, configs, filled⟩ := filled cache (Option.mem_toList.mp isDisk)
  obtain ⟨config, -, rules, -, path, text, form, -, isMade, rfl⟩ := filled.written entry isEntry
  obtain rfl := SourceCache.eq_of_read_entryOf reads
  exact isProper_instrumentWith isMade

end Proper

end Loader

end LuaCoverage
