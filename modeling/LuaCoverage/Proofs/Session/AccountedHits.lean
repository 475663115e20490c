import LuaCoverage.Proofs.Session.NotedFiles
import Mathlib.Algebra.BigOperators.Group.List.Basic

/-!
# What hits on an instrumented file account for

A hit names a line and a block. It counts for its line, and if there is a site with this line and
block, it counts for each line that the site lists as well. So the number of executions of a line is
the number of hits that name it, and for each site that lists it the number of hits at the site
(`Instrumented.accounted`). No two sites report the same, so a hit adds what the first site that it
fits lists (`Instrumented.IsProper.accounted_concat`).

The form of a file is made for an analysis, and reports only lines that can run under it
(`Instrumented.Fits`). A run that goes by such a form and has tracked the file with this analysis
counts every hit exactly (`Instrumentation.tallies_record`). Whatever else happens, as long as the
file is not dismissed, leaves the counts alone.
-/

set_option autoImplicit false

namespace LuaCoverage

/-! ## Hits -/

/-- The line and the block that an event reports as hit, if it is a hit on a file. -/
def Event.hitOn? (path : String) : Event → Option (Nat × BlockId)
  | .hit file here block => if file = path then some (here, block) else none
  | _ => none

/-- The line and the block that an entry of a script reports as hit, if it is a hit on a file. -/
def ScriptEntry.hitOn? (path : String) : ScriptEntry → Option (Nat × BlockId)
  | .report event => event.hitOn? path
  | _ => none

/-- The hits on a file in some moments of a run. -/
def hitsOf (path : String) (moments : List Moment) : List (Nat × BlockId) :=
  moments.filterMap fun moment => moment.entry.hitOn? path

namespace Instrumented

variable {form : Instrumented} {hits : List (Nat × BlockId)}

/-- How often a line ran according to some hits: once for each hit that names it, and for each site
that lists it, once for each hit at the site. -/
def accounted (form : Instrumented) (hits : List (Nat × BlockId)) (line : Nat) : Nat :=
  (hits.countP fun hit => hit.1 == line) +
    (form.sites.map fun site =>
      if line ∈ site.continuation then hits.count (site.line, site.block) else 0).sum

theorem accounted_nil (form : Instrumented) (line : Nat) : form.accounted [] line = 0 := by
  refine congrArg₂ (· + ·) List.countP_nil (List.sum_eq_zero fun count member => ?_)
  obtain ⟨site, -, rfl⟩ := List.mem_map.mp member
  rw [List.count_nil, ite_self]

/-- Of the sites that are told apart, a hit is at the first that it fits. -/
theorem sum_sites_singleton {sites : List Site}
    (apart : sites.Pairwise fun first later => ¬ (first.line = later.line ∧
      first.block = later.block))
    (distinct : ∀ site ∈ sites, site.continuation.Nodup) (hit : Nat × BlockId) (line : Nat) :
    (sites.map fun site =>
        if line ∈ site.continuation then [hit].count (site.line, site.block) else 0).sum =
      ((sites.find? fun site => site.line == hit.1 && site.block == hit.2).elim []
        Site.continuation).count line := by
  induction sites with
  | nil => rfl
  | cons first rest ih =>
      obtain ⟨differs, apart⟩ := List.pairwise_cons.mp apart
      have later := ih apart fun site member => distinct site (List.mem_cons_of_mem _ member)
      rw [List.map_cons, List.sum_cons, later, List.find?_cons]
      cases here : first.line == hit.1 && first.block == hit.2 with
      | false =>
          have missed : [hit].count (first.line, first.block) = 0 := by
            refine List.count_eq_zero.mpr fun member => ?_
            rw [← List.mem_singleton.mp member, beq_self_eq_true, beq_self_eq_true] at here
            cases here
          rw [missed, ite_self, Nat.zero_add]
      | true =>
          obtain ⟨isLine, isBlock⟩ := Bool.and_eq_true_iff.mp here
          have same : hit = (first.line, first.block) :=
            Prod.ext (eq_of_beq isLine).symm (eq_of_beq isBlock).symm
          have others : (rest.find? fun site => site.line == hit.1 && site.block == hit.2) =
              none := by
            refine List.find?_eq_none.mpr fun site member fits => ?_
            obtain ⟨isLine', isBlock'⟩ := Bool.and_eq_true_iff.mp fits
            exact differs site member ⟨(eq_of_beq isLine).trans (eq_of_beq isLine').symm,
              (eq_of_beq isBlock).trans (eq_of_beq isBlock').symm⟩
          rw [others, same, List.count_singleton_self, Option.elim_none, List.count_nil,
            Nat.add_zero, Option.elim_some, (distinct first List.mem_cons_self).count]

/-- **One more hit** adds one for its line, and one for each line that its site lists. -/
theorem IsProper.accounted_concat (proper : form.IsProper) (hits : List (Nat × BlockId))
    (hit : Nat × BlockId) (line : Nat) :
    form.accounted (hits ++ [hit]) line = form.accounted hits line +
      ((if hit.1 = line then 1 else 0) + (form.continuation hit.1 hit.2).count line) := by
  have listed : (form.sites.find? fun site => site.line == hit.1 && site.block == hit.2).elim []
      Site.continuation = form.continuation hit.1 hit.2 := by
    rw [continuation]
    cases form.sites.find? fun site => site.line == hit.1 && site.block == hit.2 <;> rfl
  have added := sum_sites_singleton proper.apart
    (fun site member => (List.nodup_cons.mp (proper.distinct site member)).2) hit line
  rw [listed] at added
  have split : (form.sites.map fun site => if line ∈ site.continuation then
        (hits ++ [hit]).count (site.line, site.block) else 0) =
      form.sites.map fun site =>
        (if line ∈ site.continuation then hits.count (site.line, site.block) else 0) +
          if line ∈ site.continuation then [hit].count (site.line, site.block) else 0 := by
    refine List.map_congr_left fun site _ => ?_
    split
    · exact List.count_append
    · rfl
  rw [accounted, accounted, List.countP_append, split, List.sum_map_add, added,
    List.countP_singleton]
  simp only [beq_iff_eq]
  omega

/-- How often a line ran according to some hits, if it can run under an analysis. -/
def tally (form : Instrumented) (analysis : Analysis) (hits : List (Nat × BlockId)) (line : Nat) :
    Nat :=
  if analysis.isExecutable line then form.accounted hits line else 0

variable {analysis : Analysis}

/-- The lines that a hit accounts for besides its own can run, and there are none if its own line
cannot. -/
theorem Fits.continuation (fits : form.Fits analysis) {line : Nat} {block : BlockId} {other : Nat}
    (member : other ∈ form.continuation line block) :
    analysis.isExecutable line = true ∧ analysis.isExecutable other = true := by
  rw [Instrumented.continuation] at member
  split at member
  · rename_i site found
    have isSite := List.mem_of_find?_eq_some found
    obtain ⟨isLine, -⟩ := Bool.and_eq_true_iff.mp (List.find?_some found :)
    exact ⟨fits.runs site isSite line (.inl (eq_of_beq isLine).symm),
      fits.runs site isSite other (.inr member)⟩
  · cases member

/-- A hit on a line that can run adds to the tally what it accounts for. -/
theorem Fits.tally_concat (fits : form.Fits analysis) {line : Nat}
    (runs : analysis.isExecutable line = true) (block : BlockId) (other : Nat) :
    form.tally analysis (hits ++ [(line, block)]) other = form.tally analysis hits other +
      (if line = other then 1 else 0) + (form.continuation line block).count other := by
  rw [tally, tally, fits.proper.accounted_concat]
  cases able : analysis.isExecutable other with
  | true => simp only [if_true, Nat.add_assoc]
  | false =>
      have apart : line ≠ other := by
        rintro rfl
        exact Bool.false_ne_true (able.symm.trans runs)
      have unlisted : (form.continuation line block).count other = 0 :=
        List.count_eq_zero.mpr fun member =>
          Bool.false_ne_true (able.symm.trans (fits.continuation member).2)
      rw [if_neg apart, unlisted]
      rfl

/-- A hit on a line that cannot run adds nothing to the tally. -/
theorem Fits.tally_concat_idle (fits : form.Fits analysis) {line : Nat}
    (idle : analysis.isExecutable line = false) (block : BlockId) (other : Nat) :
    form.tally analysis (hits ++ [(line, block)]) other = form.tally analysis hits other := by
  have nothing : form.continuation line block = [] :=
    List.eq_nil_iff_forall_not_mem.mpr fun listed member =>
      Bool.false_ne_true (idle.symm.trans (fits.continuation member).1)
  rw [tally, tally, fits.proper.accounted_concat]
  cases able : analysis.isExecutable other with
  | false => rfl
  | true =>
      have apart : line ≠ other := by
        rintro rfl
        exact Bool.false_ne_true (idle.symm.trans able)
      simp only [nothing, List.count_nil, if_neg apart, Nat.add_zero]

end Instrumented

/-! ## Recordings that count the hits on a file -/

namespace Recording

/-- A recording tracks a file with an analysis and has counted a number of hits on each line. -/
def Tallies (recording : Recording) (path : String) (analysis : Analysis) (hits : Nat → Nat) :
    Prop :=
  ∃ (calls : Nat → Nat) (file : FileRecord),
    recording.part path = (some file, some true, some analysis) ∧ file.Tallied analysis hits calls

namespace Tallies

variable {recording next : Recording} {path : String} {analysis : Analysis} {hits : Nat → Nat}

theorem of_part (tallies : recording.Tallies path analysis hits)
    (same : next.part path = recording.part path) : next.Tallies path analysis hits := by
  obtain ⟨calls, file, part, tallied⟩ := tallies
  exact ⟨calls, file, same.trans part, tallied⟩

theorem congr {hits' : Nat → Nat} (tallies : recording.Tallies path analysis hits)
    (same : ∀ line, hits' line = hits line) : recording.Tallies path analysis hits' := by
  obtain ⟨calls, file, part, tallied⟩ := tallies
  exact ⟨calls, file, part, tallied.congr same fun _ _ => rfl⟩

theorem decided (tallies : recording.Tallies path analysis hits) :
    recording.decided[path]? = some true := by
  obtain ⟨calls, file, part, -⟩ := tallies
  exact congrArg (·.2.1) part

theorem mayRun (tallies : recording.Tallies path analysis hits) (line : Nat) :
    recording.mayRun path line = analysis.isExecutable line := by
  obtain ⟨calls, file, part, -⟩ := tallies
  rw [Recording.mayRun, show recording.analyses[path]? = some analysis from congrArg (·.2.2) part]

theorem exists_tracked (tallies : recording.Tallies path analysis hits) :
    ∃ file, recording.store.tracked? path = some file := by
  obtain ⟨calls, file, part, tallied⟩ := tallies
  refine ⟨file, ?_⟩
  rw [CoverageStore.tracked?, show recording.store.files[path]? = some file from
    congrArg (·.1) part, Option.filter_some, if_pos tallied.active]

/-- **An operation on the file** is counted. -/
theorem perform (tallies : recording.Tallies path analysis hits) (operation : HitOperation)
    (runs : ∀ line, operation.hits line = true → ∃ verdict,
      analysis.classification? line = some verdict ∧ verdict.executable = true) :
    (recording.withStore (recording.store.perform path operation)).Tallies path analysis
      fun line => hits line + if operation.hits line then 1 else 0 := by
  obtain ⟨calls, file, part, tallied⟩ := tallies
  have found : recording.store.files[path]? = some file := congrArg (·.1) part
  exact ⟨_, file.perform operation,
    Prod.ext (CoverageStore.getElem?_perform found tallied.active operation)
      (congrArg (·.2) part), tallied.perform operation runs⟩

/-- An operation on another file, or one that is no hit, changes no count. -/
theorem attempted (tallies : recording.Tallies path analysis hits) (other : String)
    (operation : HitOperation) (silent : other = path → ∀ line, operation.hits line = false)
    (allowed : Bool) :
    (recording.attempted other operation allowed).Tallies path analysis hits := by
  by_cases here : other = path
  · subst here
    cases allowed with
    | false => exact tallies
    | true =>
        refine (tallies.perform operation fun line isHit => ?_).congr fun line => ?_
        · exact absurd isHit (Bool.eq_false_iff.mp (silent rfl line))
        · rw [silent rfl line, if_neg Bool.false_ne_true, Nat.add_zero]
  · exact tallies.of_part (recording.part_attempted_of_ne here operation allowed)

/-- **A hit on the file** is recorded if its line can run. -/
theorem onHit (tallies : recording.Tallies path analysis hits) (sources : PathMap String)
    (isAnalysis : ∀ line, analysis.isExecutable line = true → ∃ verdict,
      analysis.classification? line = some verdict ∧ verdict.executable = true)
    (line : Nat) (attribution : Attribution) :
    (recording.onHit sources path line attribution).2 = analysis.isExecutable line ∧
      (recording.onHit sources path line attribution).1.Tallies path analysis fun other =>
        hits other + if analysis.isExecutable line && line == other then 1 else 0 := by
  rw [Recording.onHit, recording.decideOn_of_decided sources tallies.decided]
  simp only [Bool.true_and]
  rw [tallies.mayRun]
  cases runs : analysis.isExecutable line with
  | false => exact ⟨rfl, tallies.of_part rfl⟩
  | true =>
      obtain ⟨file, tracked⟩ := tallies.exists_tracked
      have recorded : (recording.store.hit path line attribution).2 = true := by
        rw [CoverageStore.hit, tracked]
        rfl
      have counted := tallies.perform (.hit line attribution) fun other isHit => by
        obtain rfl : line = other := eq_of_beq isHit
        exact isAnalysis line runs
      exact ⟨recorded, counted.of_part rfl⟩

/-- Hits on further lines of the file. -/
theorem foldl_hit (tallies : recording.Tallies path analysis hits) {lines : List Nat}
    (runs : ∀ line ∈ lines, ∃ verdict,
      analysis.classification? line = some verdict ∧ verdict.executable = true) :
    (recording.withStore (lines.foldl (fun store line => (store.hit path line .lineOnly).1)
      recording.store)).Tallies path analysis fun line => hits line + lines.count line := by
  induction lines generalizing recording hits with
  | nil => exact tallies
  | cons first rest ih =>
      have counted := tallies.perform (.hit first .lineOnly) fun line isHit => by
        obtain rfl : first = line := eq_of_beq isHit
        exact runs first List.mem_cons_self
      refine (ih counted fun line member => runs line (List.mem_cons_of_mem _ member)).congr
        fun line => ?_
      rw [List.count_cons, HitOperation.hits]
      omega

/-- An assertion changes no count. -/
theorem linkFrames (tallies : recording.Tallies path analysis hits)
    (targets : List (Option (String × Nat))) :
    (recording.withStore (recording.store.linkFrames targets).1).Tallies path analysis hits := by
  have decided := tallies.decided
  obtain ⟨calls, file, part, tallied⟩ := tallies
  cases (Follows.tracked file part tallied).linkFrames targets with
  | unseen part' _ _ => cases decided.symm.trans (congrArg (·.2.1) part' :)
  | excluded file' part' _ => cases decided.symm.trans (congrArg (·.2.1) part' :)
  | tracked file' part' tallied' => exact ⟨calls, file', part', tallied'⟩

/-- Noting a file changes no count. -/
theorem note (tallies : recording.Tallies path analysis hits) (other : String) :
    (recording.withStore (recording.store.note other)).Tallies path analysis hits := by
  by_cases here : other = path
  · subst here
    obtain ⟨calls, file, part, tallied⟩ := tallies
    refine ⟨calls, file, Prod.ext ?_ (congrArg (·.2) part), tallied⟩
    have found : recording.store.files[other]? = some file := congrArg (·.1) part
    show (recording.store.note other).files[other]? = _
    rw [CoverageStore.note, CoverageStore.put, Std.ExtTreeMap.getElem?_insert_self,
      CoverageStore.fileOrEmpty, found]
    rfl
  · exact tallies.of_part (congrArg (·, _) (CoverageStore.getElem?_put_of_ne here _))

/-- Dismissing another file changes no count. -/
theorem dismiss (tallies : recording.Tallies path analysis hits) {other : String}
    (apart : other ≠ path) : (recording.dismiss other).Tallies path analysis hits := by
  refine tallies.of_part (Prod.ext ?_ (Prod.ext (getElem?_insert_of_ne apart _ _) rfl))
  show (Std.ExtTreeMap.modify _ _ _)[path]? = _
  rw [Std.ExtTreeMap.getElem?_modify, if_neg (mt Std.LawfulEqCmp.eq_of_compare apart)]
  exact CoverageStore.getElem?_put_of_ne apart _

/-- A file that is given up is dismissed only if nothing is known of it. -/
theorem noteAborted (tallies : recording.Tallies path analysis hits) (other : String) :
    (Instrumentation.noteAborted recording other).Tallies path analysis hits := by
  rw [Instrumentation.noteAborted]
  split
  · exact tallies
  · rename_i unknown
    refine tallies.dismiss fun here => unknown ?_
    obtain ⟨calls, file, part, -⟩ := tallies
    rw [here, Std.ExtTreeMap.contains_eq_isSome_getElem?,
      show recording.store.files[path]? = some file from congrArg (·.1) part]
    rfl

/-- **Catching up with a loader** changes no count of a file that has a form. -/
theorem catchUp (tallies : recording.Tallies path analysis hits)
    {instrumentation : Instrumentation} (adopted : path ∈ instrumentation.adopted) :
    (instrumentation.catchUp recording).2.Tallies path analysis hits := by
  have kept := tallies.of_part (Instrumentation.part_foldl_adopt_kept (instrumentation, recording)
    instrumentation.loader.cache.values (.inl adopted))
  exact List.foldlRecOn (motive := fun next : Recording => next.Tallies path analysis hits) _ _
    kept fun next tallies other _ => tallies.noteAborted other

/-- An answer changes no count, unless the file is given up or found impossible to instrument. -/
theorem noteUnchanged (tallies : recording.Tallies path analysis hits) {answer : LoadAnswer}
    (harmless : ∀ (name text : String) (reason : UnchangedReason),
      answer = .unchanged name path text reason → reason = .excluded ∨ reason = .reentrant) :
    (Instrumentation.noteUnchanged recording answer).Tallies path analysis hits := by
  unfold Instrumentation.noteUnchanged
  split
  · refine tallies.dismiss ?_
    rintro rfl
    rcases harmless _ _ _ rfl with same | same <;> cases same
  · refine tallies.dismiss ?_
    rintro rfl
    rcases harmless _ _ _ rfl with same | same <;> cases same
  · exact tallies.note _
  · exact tallies

end Tallies

end Recording

namespace Instrumentation

variable {instrumentation : Instrumentation} {recording : Recording} {path : String}
  {form : Instrumented}

/-- The first form of a file tracks it, without any hits. -/
theorem tallies_catchUp_first {settings : AnalysisSettings} {loaded : InstrumentedModule}
    (notes : recording.OnlyNotes path) (isNew : path ∉ instrumentation.adopted)
    (sound : instrumentation.loader.CacheSound)
    (cached : instrumentation.loader.cache[path]? = some loaded)
    (isAnalysis : loaded.analysis = analyze settings loaded.source path) :
    (instrumentation.catchUp recording).2.Tallies path loaded.analysis fun _ => 0 := by
  have first := part_foldl_adopt_first (instrumentation, recording)
    instrumentation.loader.cache.values isNew ((sound.find?_values path).trans cached)
  have registered := FileRecord.registered_register path loaded.source
    (blocks_analyze settings loaded.source path).1
  have tallied := registered.tallied fun function => functions_analyze settings loaded.source path
  rw [notes.fileOrEmpty] at first
  have adopted : Recording.Tallies (instrumentation.loader.cache.values.foldl adopt
      (instrumentation, recording)).2 path loaded.analysis fun _ => 0 := by
    refine ⟨fun _ => 0, _, first, ?_⟩
    rw [isAnalysis]
    exact { tallied with }
  exact List.foldlRecOn (motive := fun next : Recording => next.Tallies path loaded.analysis _) _ _
    adopted fun next tallies other _ => tallies.noteAborted other

/-- **Every event is accounted for** exactly in a run that goes by a form which fits the
analysis. -/
theorem tallies_record {settings : AnalysisSettings} {source : String}
    (adopted : instrumentation.adopted[path]? = some form)
    (fits : form.Fits (analyze settings source path)) {hits : List (Nat × BlockId)}
    (tallies : recording.Tallies path (analyze settings source path)
      (form.tally (analyze settings source path) hits))
    (sources : PathMap String) (event : Event) :
    (instrumentation.record recording sources event).Tallies path (analyze settings source path)
      (form.tally (analyze settings source path) (hits ++ (event.hitOn? path).toList)) := by
  let analysis := analyze settings source path
  have executable : ∀ line, analysis.isExecutable line = true → ∃ verdict,
      analysis.classification? line = some verdict ∧ verdict.executable = true :=
    fun line => (isExecutable_analyze settings source path).mp
  have silent {next : Recording} {quiet : Event} (none : quiet.hitOn? path = none)
      (kept : next.Tallies path analysis (form.tally analysis hits)) :
      next.Tallies path analysis (form.tally analysis (hits ++ (quiet.hitOn? path).toList)) := by
    rw [none, Option.toList_none, List.append_nil]
    exact kept
  cases event with
  | line source line => exact silent rfl (tallies.of_part rfl)
  | call source line => exact silent rfl (tallies.of_part rfl)
  | enter file line =>
      exact silent rfl ((tallies.attempted file (.call line) (fun _ _ => rfl) true).of_part rfl)
  | hit file line block =>
      rw [record]
      by_cases here : file = path
      · subst here
        have hit := tallies.onHit sources executable line (.block block)
        rw [Event.hitOn?, if_pos rfl, Option.toList_some]
        generalize recording.onHit sources file line (.block block) = outcome at hit ⊢
        obtain ⟨next, recorded⟩ := outcome
        obtain ⟨rfl, counted⟩ := hit
        have listed : instrumentation.continuation file line block = form.continuation line block :=
          by rw [continuation, adopted]
        cases runs : analysis.isExecutable line with
        | false =>
            rw [runs] at counted
            simp only [Bool.false_eq_true, if_false]
            refine counted.congr fun other => ?_
            rw [fits.tally_concat_idle runs, Bool.false_and, if_neg Bool.false_ne_true,
              Nat.add_zero]
        | true =>
            rw [runs] at counted
            simp only [if_true, listed]
            refine (counted.foldl_hit fun other member =>
              executable other (fits.continuation member).2).congr fun other => ?_
            rw [fits.tally_concat runs]
            simp only [Bool.true_and, beq_iff_eq]
      · refine silent (if_neg here) ?_
        have hit := tallies.of_part
          (recording.part_onHit_of_ne sources here line (.block block))
        generalize recording.onHit sources file line (.block block) = outcome at hit ⊢
        obtain ⟨next, recorded⟩ := outcome
        cases recorded with
        | false => exact hit
        | true =>
            exact List.foldlRecOn (motive := fun store =>
              (next.withStore store).Tallies path analysis _) _ _ hit
              fun store tallies other _ => tallies.attempted file (.hit other .lineOnly)
                (fun same => absurd same here) true

end Instrumentation

end LuaCoverage
