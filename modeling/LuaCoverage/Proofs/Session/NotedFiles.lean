import LuaCoverage.Proofs.Session.AdoptedForms

/-!
# Files that a recording has at most a note of

A file is in one of two states before it is tracked: nothing is known of it, or it was only noted
that it exists. In the store both come to the same empty record, which counts nothing
(`CoverageStore.summary_without`), and the recording has no analysis of the file and has not decided
to track it (`Recording.OnlyNotes`).

Such a file stays in this state as long as nothing tracks it: entries of functions and assertions on
it come to nothing, noting or dismissing it changes nothing that counts, and events on other files
leave it alone. A hit tracks it, unless the filter rejects it (`Recording.OnlyNotes.onHit`), and so
does a loader that has instrumented it, once the recording catches up
(`Instrumentation.onlyNotes_catchUp`).
-/

set_option autoImplicit false

namespace LuaCoverage

/-! ## Empty records -/

/-- There is nothing to repair in the record of a file of which nothing is known. -/
theorem FileRecord.resolveBlocks_new (path : String) :
    ({ path := path } : FileRecord).resolveBlocks.1 = { path := path } := by
  have table : BlockTable.empty.resolve.1 = .empty := by decide
  have index : LineIndex.build ∅ .empty ∅ = {} := by decide +kernel
  show ({ path := path, blocks := BlockTable.empty.resolve.1 } : FileRecord).reindex = _
  rw [table, reindex]
  simp only [index]

/-- The store without what it holds of one file. -/
def CoverageStore.without (store : CoverageStore) (path : String) : CoverageStore :=
  { files := store.files.filter fun key _ => key != path }

/-- **A file with an empty record adds nothing to the counts.** -/
theorem CoverageStore.summary_without {store : CoverageStore} {path : String}
    (noted : ∀ file : FileRecord, store.files[path]? = some file → file = { path := path }) :
    store.summary = (store.without path).summary := by
  have nothing : ∀ total : Summary, total.add (FileRecord.summary { path := path }) = total :=
    fun _ => rfl
  rw [summary, summary, without, Std.ExtTreeMap.foldl_eq_foldl_toList,
    Std.ExtTreeMap.foldl_eq_foldl_toList, Std.ExtTreeMap.toList_filter, List.foldl_filter]
  refine List.foldl_ext _ _ _ fun total entry member => ?_
  split
  · rfl
  · rename_i dropped
    obtain rfl : entry.1 = path := by simpa using dropped
    rw [noted entry.2 (Std.ExtTreeMap.mem_toList_iff_getElem?_eq_some.mp member)]
    exact nothing total

/-! ## Recordings -/

namespace Recording

/-- A recording has at most a note of a file: the file is not tracked, its record is empty, and
there is no analysis of it. -/
structure OnlyNotes (path : String) (recording : Recording) : Prop where
  noted : ∀ file : FileRecord, recording.store.files[path]? = some file → file = { path := path }
  refused : recording.decided[path]? ≠ some true
  unanalyzed : recording.analyses[path]? = none

namespace OnlyNotes

variable {sources : PathMap String} {path : String} {recording next : Recording}

theorem of_part (notes : recording.OnlyNotes path)
    (same : next.part path = recording.part path) : next.OnlyNotes path where
  noted := (congrArg (·.1) same : next.store.files[path]? = _) ▸ notes.noted
  refused := (congrArg (·.2.1) same : next.decided[path]? = _) ▸ notes.refused
  unanalyzed := (congrArg (·.2.2) same : next.analyses[path]? = _) ▸ notes.unanalyzed

/-- A recording in which the file did not come up. -/
theorem of_unmet (unmet : recording.part path = (none, none, none)) :
    recording.OnlyNotes path where
  noted := fun file found => by
    cases (congrArg (·.1) unmet : recording.store.files[path]? = none).symm.trans found
  refused := fun decided => by
    cases (congrArg (·.2.1) unmet : recording.decided[path]? = none).symm.trans decided
  unanalyzed := congrArg (·.2.2) unmet

theorem counted (notes : recording.OnlyNotes path) (recorded : Bool) :
    (recording.counted recorded).OnlyNotes path := notes.of_part rfl

/-- The record of the file, or a new one, is empty. -/
theorem fileOrEmpty (notes : recording.OnlyNotes path) :
    recording.store.fileOrEmpty path = { path := path } := by
  rw [CoverageStore.fileOrEmpty]
  cases found : recording.store.files[path]? with
  | none => rfl
  | some file => exact notes.noted file found

theorem untracked (notes : recording.OnlyNotes path) : recording.store.tracked? path = none := by
  rw [CoverageStore.tracked?]
  cases found : recording.store.files[path]? with
  | none => rfl
  | some file =>
      rw [notes.noted file found]
      rfl

/-! ### Notes and decisions -/

/-- Noting a file, this one or another, leaves at most a note of this one. -/
theorem note (notes : recording.OnlyNotes path) (other : String) :
    (recording.withStore (recording.store.note other)).OnlyNotes path := by
  by_cases here : other = path
  · subst here
    refine { notes with noted := fun file found => ?_ }
    rw [withStore, CoverageStore.note, CoverageStore.put, Std.ExtTreeMap.getElem?_insert_self,
      notes.fileOrEmpty] at found
    exact (Option.some.inj found).symm
  · exact notes.of_part (congrArg (·, _) (CoverageStore.getElem?_put_of_ne here _))

theorem dismiss (notes : recording.OnlyNotes path) (other : String) :
    (recording.dismiss other).OnlyNotes path := by
  have noted := notes.note other
  refine { notes with noted := fun file found => ?noted, refused := ?refused }
  case noted =>
    rw [Recording.dismiss, CoverageStore.modifyFile, Std.ExtTreeMap.getElem?_modify] at found
    split at found
    · rename_i same
      obtain rfl := Std.LawfulEqCmp.eq_of_compare same
      obtain ⟨old, isOld, rfl⟩ := Option.map_eq_some_iff.mp found
      rw [noted.noted old isOld]
    · exact noted.noted file found
  case refused =>
    rw [Recording.dismiss, Std.ExtTreeMap.getElem?_insert]
    split
    · exact fun tracked => Bool.false_ne_true (Option.some.inj tracked)
    · exact notes.refused

/-- **The decision on a file that the filter rejects** is that it is not tracked, whether it was
made before or not. -/
theorem decideOn_rejected (notes : recording.OnlyNotes path) (sources : PathMap String)
    (rejected : recording.rules.filter.rule path = false) :
    (recording.decideOn sources path).1.OnlyNotes path ∧
      (recording.decideOn sources path).2 = false := by
  cases decided : recording.decided[path]? with
  | some decision =>
      rw [recording.decideOn_of_decided sources decided]
      refine ⟨notes, Bool.eq_false_iff.mpr fun isTracked => notes.refused ?_⟩
      exact decided.trans (congrArg some isTracked)
  | none =>
      have met : recording.meet sources path =
          (recording.withStore (recording.store.note path), false) := by
        rw [meet, if_neg (Bool.eq_false_iff.mp rejected)]
      rw [recording.decideOn_of_undecided sources decided, met]
      refine ⟨{ notes.note path with refused := ?_ }, rfl⟩
      rw [Std.ExtTreeMap.getElem?_insert_self]
      exact fun tracked => Bool.false_ne_true (Option.some.inj tracked)

/-- Deciding on another file, or on this one if the filter rejects it. -/
theorem decideOn (notes : recording.OnlyNotes path) (sources : PathMap String) {other : String}
    (rejected : other = path → recording.rules.filter.rule path = false) :
    (recording.decideOn sources other).1.OnlyNotes path := by
  by_cases here : other = path
  · subst here
    exact (notes.decideOn_rejected sources (rejected rfl)).1
  · exact notes.of_part (recording.part_decideOn_of_ne sources here)

/-- Tracking another file leaves this one alone. -/
theorem adopt (notes : recording.OnlyNotes path) {other : String} (apart : other ≠ path)
    (source : String) (analysis : Analysis) :
    (recording.adopt other source analysis).OnlyNotes path :=
  notes.of_part (Prod.ext (CoverageStore.getElem?_put_of_ne apart _)
    (Prod.ext (getElem?_insert_of_ne apart _ _) (getElem?_insert_of_ne apart _ _)))

/-! ### Events -/

/-- An operation on a file comes to nothing for a file that is not tracked. -/
theorem attempted (notes : recording.OnlyNotes path) (other : String) (operation : HitOperation)
    (allowed : Bool) : (recording.attempted other operation allowed).OnlyNotes path := by
  by_cases here : other = path
  · subst here
    rw [Recording.attempted, CoverageStore.perform_untracked notes.untracked]
    cases allowed <;> exact notes
  · exact notes.of_part (recording.part_attempted_of_ne here operation allowed)

/-- **A hit** on another file, or on this one if the filter rejects it. -/
theorem onHit (notes : recording.OnlyNotes path) (sources : PathMap String) {other : String}
    (rejected : other = path → recording.rules.filter.rule path = false) (line : Nat)
    (attribution : Attribution) :
    (recording.onHit sources other line attribution).1.OnlyNotes path := by
  obtain ⟨recorded, same⟩ := recording.exists_onHit sources other line attribution
  rw [same]
  exact ((notes.decideOn sources rejected).attempted other _ _).counted recorded

theorem onCall (notes : recording.OnlyNotes path) (sources : PathMap String) {other : String}
    (rejected : other = path → recording.rules.filter.rule path = false) (line : Nat) :
    (recording.onCall sources other line).1.OnlyNotes path := by
  obtain ⟨recorded, same⟩ := recording.exists_onCall sources other line
  rw [same]
  refine OnlyNotes.counted ?_ recorded
  split
  · exact notes
  · exact (notes.decideOn sources rejected).attempted other _ _

/-- **An event of a traced run**, whatever it names, does not track a file that the filter
rejects. -/
theorem onTraced (notes : recording.OnlyNotes path) (sources : PathMap String)
    (rejected : recording.rules.filter.rule path = false) (event : Event) :
    (recording.onTraced sources event).OnlyNotes path := by
  cases recording.outcome_onTraced sources event with
  | skipped _ same =>
      rw [same]
      exact notes.of_part rfl
  | hit other line attribution _ _ _ same =>
      rw [same]
      exact notes.onHit sources (fun _ => rejected) line attribution
  | call other line _ _ _ same =>
      rw [same]
      exact notes.onCall sources (fun _ => rejected) line
  | hookedCall other line _ _ _ same =>
      rw [same, onHookedCall_eq]
      exact (notes.onCall sources (fun _ => rejected) line).attempted other _ _

/-- **An assertion** covers no line of a file without lines. -/
theorem linkFrames (notes : recording.OnlyNotes path) (targets : List (Option (String × Nat))) :
    (recording.withStore (recording.store.linkFrames targets).1).OnlyNotes path := by
  rw [CoverageStore.linkFrames_store]
  refine List.foldlRecOn (motive := fun store => (recording.withStore store).OnlyNotes path) _ _
    notes fun store notes target _ => ?_
  obtain _ | ⟨other, line⟩ := target
  · exact notes
  · show (recording.withStore (store.cover other line).1).OnlyNotes path
    rw [CoverageStore.cover]
    cases covered : (store.files[other]?).bind (FileRecord.cover · line) with
    | none => exact notes
    | some changed =>
        have apart : other ≠ path := by
          rintro rfl
          obtain ⟨file, found, covers⟩ := Option.bind_eq_some_iff.mp covered
          rw [notes.noted file found] at covers
          obtain ⟨record, known, -⟩ := FileRecord.exists_of_cover covers
          cases (Std.ExtTreeMap.getElem?_empty).symm.trans known
        exact notes.of_part (congrArg (·, _) (CoverageStore.getElem?_put_of_ne apart changed))

/-- **The end of a run** tries sources for files that are tracked only. -/
theorem analyzeProvisional (notes : recording.OnlyNotes path) (sources : PathMap String) :
    (recording.analyzeProvisional sources).OnlyNotes path := by
  refine notes.of_part ?_
  rw [part_analyzeProvisional, if_neg]
  intro waits
  obtain ⟨file, found, active⟩ := (Option.any_eq_true _ _).mp waits
  rw [notes.noted file found] at active
  cases active

end OnlyNotes

end Recording

/-! ## Instrumented runs -/

namespace Instrumentation

variable {path : String} {recording : Recording}

/-- Adopting a form of one file leaves what is known about others alone. -/
theorem part_adopt_of_ne (progress : Instrumentation × Recording) {loaded : InstrumentedModule}
    (apart : loaded.path ≠ path) :
    (adopt progress loaded).1.adopted[path]? = progress.1.adopted[path]? ∧
      (adopt progress loaded).2.part path = progress.2.part path := by
  obtain ⟨instrumentation, recording⟩ := progress
  rw [adopt]
  split
  · exact ⟨rfl, rfl⟩
  · refine ⟨getElem?_insert_of_ne apart _ _, Prod.ext ?_ (Prod.ext ?_ ?_)⟩
    · show (Std.ExtTreeMap.modify _ _ _)[path]? = _
      rw [Std.ExtTreeMap.getElem?_modify, if_neg (mt Std.LawfulEqCmp.eq_of_compare apart)]
      exact CoverageStore.getElem?_put_of_ne apart _
    · exact getElem?_insert_of_ne apart _ _
    · exact getElem?_insert_of_ne apart _ _

/-- Adopting the first form of a file tracks it. -/
theorem part_adopt_first (progress : Instrumentation × Recording) {loaded : InstrumentedModule}
    (isNew : loaded.path ∉ progress.1.adopted) :
    loaded.path ∈ (adopt progress loaded).1.adopted ∧
      (adopt progress loaded).2.part loaded.path =
        (some { (progress.2.store.fileOrEmpty loaded.path).register loaded.source
            loaded.analysis with instrumented := true }, some true, some loaded.analysis) := by
  obtain ⟨instrumentation, recording⟩ := progress
  rw [adopt, if_neg fun known => isNew (Std.ExtTreeMap.contains_iff_mem.mp known)]
  refine ⟨Std.ExtTreeMap.mem_insert_self, Prod.ext ?_
    (Prod.ext Std.ExtTreeMap.getElem?_insert_self Std.ExtTreeMap.getElem?_insert_self)⟩
  show (Std.ExtTreeMap.modify _ _ _)[loaded.path]? = _
  rw [Std.ExtTreeMap.getElem?_modify_self]
  exact congrArg (Option.map _) Std.ExtTreeMap.getElem?_insert_self

/-- A file that has a form keeps what is known about it, and so does one of which no form comes. -/
theorem part_foldl_adopt_kept (progress : Instrumentation × Recording)
    (forms : List InstrumentedModule)
    (settled : path ∈ progress.1.adopted ∨ ∀ loaded ∈ forms, loaded.path ≠ path) :
    (forms.foldl adopt progress).2.part path = progress.2.part path := by
  induction forms generalizing progress with
  | nil => rfl
  | cons loaded rest ih =>
      rw [List.foldl_cons]
      by_cases here : loaded.path = path
      · have known : loaded.path ∈ progress.1.adopted :=
          here ▸ settled.resolve_right fun others => others loaded List.mem_cons_self here
        have same : adopt progress loaded = progress :=
          if_pos (Std.ExtTreeMap.contains_iff_mem.mpr known)
        rw [same]
        exact ih progress (.inl (here ▸ known))
      · obtain ⟨adopted, same⟩ := part_adopt_of_ne progress here
        refine (ih _ (settled.imp (fun known => ?_) fun others => ?_)).trans same
        · rw [Std.ExtTreeMap.mem_iff_isSome_getElem?] at known ⊢
          rwa [adopted]
        · exact fun other member => others other (List.mem_cons_of_mem _ member)

/-- **The first form that comes of a file without one** tracks the file. -/
theorem part_foldl_adopt_first (progress : Instrumentation × Recording)
    (forms : List InstrumentedModule) (isNew : path ∉ progress.1.adopted)
    {loaded : InstrumentedModule}
    (first : (forms.find? fun loaded => loaded.path == path) = some loaded) :
    (forms.foldl adopt progress).2.part path =
      (some { (progress.2.store.fileOrEmpty path).register loaded.source loaded.analysis with
        instrumented := true }, some true, some loaded.analysis) := by
  induction forms generalizing progress with
  | nil => cases first
  | cons form rest ih =>
      rw [List.foldl_cons]
      rw [List.find?_cons] at first
      cases here : form.path == path with
      | true =>
          rw [here] at first
          obtain rfl := Option.some.inj first
          obtain rfl := eq_of_beq here
          obtain ⟨known, tracked⟩ := part_adopt_first progress isNew
          exact (part_foldl_adopt_kept _ rest (.inl known)).trans tracked
      | false =>
          rw [here] at first
          obtain ⟨adopted, same⟩ := part_adopt_of_ne progress (ne_of_beq_false here)
          have isNew' : path ∉ (adopt progress form).1.adopted := by
            rw [Std.ExtTreeMap.mem_iff_isSome_getElem?] at isNew ⊢
            rwa [adopted]
          have file : (adopt progress form).2.store.fileOrEmpty path =
              progress.2.store.fileOrEmpty path :=
            congrArg (Option.getD · _) (congrArg Prod.fst same)
          rw [ih _ isNew' first, file]

/-- **Catching up with a loader that has nothing of a file** adds nothing of it. -/
theorem onlyNotes_catchUp (instrumentation : Instrumentation)
    (sound : instrumentation.loader.CacheSound) (uncached : path ∉ instrumentation.loader.cache)
    (notes : recording.OnlyNotes path) :
    (instrumentation.catchUp recording).2.OnlyNotes path := by
  have others : ∀ loaded ∈ instrumentation.loader.cache.values, loaded.path ≠ path := by
    rintro loaded member rfl
    obtain ⟨key, cached⟩ := mem_values_iff.mp member
    rw [← (sound key loaded cached).1] at cached
    exact uncached (Std.ExtTreeMap.isSome_getElem?_iff_mem.mp
      (Option.isSome_iff_exists.mpr ⟨loaded, cached⟩))
  have adopted := notes.of_part (part_foldl_adopt_kept (instrumentation, recording) _ (.inr others))
  refine List.foldlRecOn (motive := Recording.OnlyNotes path) _ _ adopted
    fun next notes other _ => ?_
  rw [noteAborted]
  split
  · exact notes
  · exact notes.dismiss other

theorem onlyNotes_noteUnchanged (notes : recording.OnlyNotes path) (answer : LoadAnswer) :
    (noteUnchanged recording answer).OnlyNotes path := by
  unfold noteUnchanged
  split
  · exact notes.dismiss _
  · exact notes.dismiss _
  · exact notes.note _
  · exact notes

/-- **An event of an instrumented run**, unless it is a hit on the file that the filter lets
through. -/
theorem onlyNotes_record (instrumentation : Instrumentation) (notes : recording.OnlyNotes path)
    (sources : PathMap String) {event : Event}
    (rejected : ∀ (line : Nat) (block : BlockId), event = .hit path line block →
      recording.rules.filter.rule path = false) :
    (instrumentation.record recording sources event).OnlyNotes path := by
  cases event with
  | line source line => exact notes.counted false
  | call source line => exact notes.counted false
  | enter file line => exact (notes.attempted file (.call line) true).counted _
  | hit file line block =>
      have hit := notes.onHit sources (fun same => rejected line block (same ▸ rfl)) line
        (.block block)
      rw [record]
      generalize recording.onHit sources file line (.block block) = outcome at hit ⊢
      obtain ⟨next, recorded⟩ := outcome
      cases recorded with
      | false => exact hit
      | true =>
          exact List.foldlRecOn (motive := fun store => (next.withStore store).OnlyNotes path) _ _
            hit fun store notes other _ => notes.attempted file (.hit other .lineOnly) true

end Instrumentation

end LuaCoverage
