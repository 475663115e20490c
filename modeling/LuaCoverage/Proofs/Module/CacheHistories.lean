import LuaCoverage.Proofs.Module.StoredForms

/-!
# What a cache keeps

The cache of instrumented sources is a file that outlives the runs that use it. This module follows
such a file through any sequence of entries stored, clearings and openings, with other programs
recording versions of their own in between (`SourceCache.history_kept`).

An entry is found under a key just if it was the last one stored under it and nothing ended it
since: the file was not cleared, no entry for another text of the same path was stored, and the
cache was not opened with the record of an earlier schema (`Kept`). The entry of one tracker is
therefore ended by an entry of another, if this belongs to another text. What is found is all that
was stored, as its numbers fit into the 32 bits that they are read with.

Both sides are followed step by step: a step ends what is kept under a key or leaves it alone
(`kept_concat_iff`), and accordingly the cache finds nothing under the key any more or what it found
before (`get?_of_ends`, `get?_of_not_ends`).
-/

set_option autoImplicit false

namespace LuaCoverage

open Json

/-! ## Reading what was stored -/

/-- The numbers of a site. -/
def Site.numbers (site : Site) : List Nat := site.line :: site.block :: site.continuation

/-- **A site is read as what was written.** -/
theorem Site.ofJson?_toJson {site : Site} (words : ∀ number ∈ site.numbers, IsWord number) :
    Site.ofJson? site.toJson = some site := by
  simp only [numbers, List.forall_mem_cons] at words
  obtain ⟨line, block, continuation⟩ := words
  have lines : Value.list? Value.nat32? (.ofList Value.ofNat site.continuation) =
      some site.continuation :=
    Value.list?_ofList fun number member => Value.nat32?_ofNat (continuation number member)
  rw [ofJson?, toJson, Value.fields?_own ?own ?distinct]
  case own => rfl
  case distinct => decide
  simp [Value.required, Value.nat32?_ofNat line, Value.nat32?_ofNat block, lines]

/-- **A source map is read as what was written.** -/
theorem SourceMap.ofJson?_toJson {map : SourceMap}
    (words : ∀ number ∈ map.lines.toList, IsWord number) :
    SourceMap.ofJson? map.toJson = some map := by
  have lines : Value.list? Value.nat32? (.ofList Value.ofNat map.lines.toList) =
      some map.lines.toList :=
    Value.list?_ofList fun number member => Value.nat32?_ofNat (words number member)
  rw [ofJson?, toJson, Value.fields?_own ?own ?distinct]
  case own => rfl
  case distinct => decide
  simp [Value.required, lines]

/-- The numbers of an instrumented source. -/
def Instrumented.numbers (out : Instrumented) : List Nat :=
  out.sourceMap.lines.toList ++ out.sites.flatMap Site.numbers ++ out.hitLines.toList
    ++ out.functionLines.toList

/-- **An instrumented source is read from its text and all else as what was written.** -/
theorem Instrumented.ofMetadata?_metadata {out : Instrumented}
    (words : ∀ number ∈ out.numbers, IsWord number) :
    Instrumented.ofMetadata? out.text out.metadata = some out := by
  simp only [numbers, List.forall_mem_append, List.forall_mem_flatMap] at words
  obtain ⟨⟨⟨mapped, placed⟩, hit⟩, entered⟩ := words
  have sites : Value.list? Site.ofJson? (.ofList Site.toJson out.sites) = some out.sites :=
    Value.list?_ofList fun site member => Site.ofJson?_toJson (placed site member)
  rw [ofMetadata?, metadata, Value.fields?_own ?own ?distinct]
  case own => rfl
  case distinct => decide
  simp [Value.required, SourceMap.ofJson?_toJson mapped, sites, numbersOfJson?_numbersToJson hit,
    numbersOfJson?_numbersToJson entered]

namespace SourceCache

/-- **What was stored is read.** -/
theorem read_entryOf {out : Instrumented} (words : ∀ number ∈ out.numbers, IsWord number)
    (key : CacheKey) : SourceCache.read (entryOf key out) = .ok out := by
  have parsed : parse out.metadata.render = some out.metadata :=
    parse_renderIn .compact out.canonical_metadata
  unfold SourceCache.read
  simp only [entryOf, parsed, Option.bind_some, Instrumented.ofMetadata?_metadata words]

/-! ## Histories -/

/-- What happens to the file of a cache. -/
inductive Step where
  | put (key : CacheKey) (out : Instrumented)
  | clear
  | reopen
  /-- Another program records a version, or drops the record. -/
  | record (version : Option Int)

/-- The cache after a step. A file that is refused stays as it is. -/
def Step.run (cache : SourceCache) : Step → SourceCache
  | put key out => cache.put key out
  | clear => cache.clear.1
  | reopen => cache.opened.toOption.getD cache
  | record version => { cache with version := version }

/-- The cache after a history. -/
def run (history : List Step) : SourceCache := history.foldl Step.run .new

/-- Whether a recorded version is that of an earlier schema. -/
def IsOlder (version : Option Int) : Prop :=
  ∃ older, version = some older ∧ 0 ≤ older ∧ older < schemaVersion

/-- The recorded version after a step. Opening brings that of an earlier schema up to date. -/
def Step.version (version : Option Int) : Step → Option Int
  | put _ _ => version
  | clear => version
  | reopen =>
      match version with
      | none => some schemaVersion
      | some found =>
          if 0 ≤ found ∧ found < schemaVersion then some schemaVersion else some found
  | record version => version

/-- The recorded version after a history. -/
def versionAfter (history : List Step) : Option Int :=
  history.foldl Step.version (some schemaVersion)

/-- Whether a step ends what is kept under a key, while a version is recorded. -/
def Step.Ends (version : Option Int) (key : CacheKey) : Step → Prop
  | put other _ => other = key ∨ (other.path = key.path ∧ other.contentHash ≠ key.contentHash)
  | clear => True
  | reopen => IsOlder version
  | record _ => False

/-- What is kept under a key after a history: it was stored under this key, and nothing that came
after ended it. -/
def Kept (history : List Step) (key : CacheKey) (out : Instrumented) : Prop :=
  ∃ before after, history = before ++ .put key out :: after ∧
    ∀ earlier step later, after = earlier ++ step :: later →
      ¬ step.Ends (versionAfter (before ++ .put key out :: earlier)) key

/-- **What a step does to what is kept.** It is stored in the step, or it was kept before and the
step does not end it. -/
theorem kept_concat_iff {history : List Step} {last : Step} {key : CacheKey} {out : Instrumented} :
    Kept (history ++ [last]) key out ↔
      last = .put key out ∨ (Kept history key out ∧ ¬ last.Ends (versionAfter history) key) := by
  constructor
  · rintro ⟨before, after, split, stays⟩
    rcases List.eq_nil_or_concat after with rfl | ⟨front, final, rfl⟩
    · obtain ⟨-, isLast⟩ := List.append_inj' split rfl
      exact .inl (List.cons.inj isLast).1
    · rw [List.concat_eq_append] at split stays
      rw [← List.cons_append, ← List.append_assoc] at split
      obtain ⟨rfl, isFinal⟩ := List.append_inj' split rfl
      obtain rfl := (List.cons.inj isFinal).1
      refine .inr ⟨⟨before, front, rfl, fun earlier step later inside => ?_⟩, ?_⟩
      · refine stays earlier step (later ++ [last]) ?_
        rw [inside, List.append_assoc, List.cons_append]
      · exact stays front last [] rfl
  · rintro (rfl | ⟨⟨before, after, rfl, stays⟩, remains⟩)
    · exact ⟨history, [], rfl, fun earlier step later inside => by simp at inside⟩
    · refine ⟨before, after ++ [last], by simp, fun earlier step later inside => ?_⟩
      rcases List.eq_nil_or_concat later with rfl | ⟨later, final, rfl⟩
      · obtain ⟨rfl, isStep⟩ := List.append_inj' inside rfl
        obtain rfl := (List.cons.inj isStep).1
        exact remains
      · rw [List.concat_eq_append, ← List.cons_append, ← List.append_assoc] at inside
        exact stays earlier step later (List.append_inj' inside rfl).1

/-! ## Steps of a cache -/

section Steps

variable {cache : SourceCache} {key : CacheKey}

/-- What opening says where the record is not understood. A number of more than 32 bits is no
version at all. -/
def refusal (found : Int) : CoverageError :=
  if 0 ≤ found ∧ found < 4294967296 then .laterSchema found.toNat schemaVersion else .storage

/-- **Opening a cache** drops the entries of an earlier schema, keeps those of the present one, and
refuses all others. -/
theorem opened_eq (cache : SourceCache) : cache.opened =
    match cache.version with
    | none => .ok { cache with version := some schemaVersion }
    | some found =>
        if found = schemaVersion then .ok cache
        else if 0 ≤ found ∧ found < schemaVersion then
          .ok { entries := [], version := some schemaVersion }
        else .error (refusal found) := by
  have two : schemaVersion = 2 := rfl
  unfold opened
  match cache.version with
  | none => rfl
  | some (.negSucc below) =>
      have negative := Int.negSucc_lt_zero below
      simp only [refusal]
      rw [if_neg (by omega), if_neg (by omega), if_neg (by omega)]
  | some (.ofNat found) =>
      simp only [refusal, Int.ofNat_eq_natCast, Int.toNat_natCast]
      split
      · rw [if_neg (by omega), if_neg (by omega), if_neg (by omega)]
      split
      · rw [if_pos (by omega)]
      split
      · rw [if_neg (by omega), if_neg (by omega), if_pos (by omega)]
      · rw [if_neg (by omega), if_pos (by omega), migrate_eq (by omega)]

/-- Opening takes away the entries of an earlier schema and no others. -/
theorem entries_reopen (cache : SourceCache) :
    (IsOlder cache.version ∧ (Step.reopen.run cache).entries = []) ∨
      (¬ IsOlder cache.version ∧ (Step.reopen.run cache).entries = cache.entries) := by
  rw [Step.run, opened_eq]
  match cache.version with
  | none => exact .inr ⟨nofun, rfl⟩
  | some found =>
      simp only
      split
      · refine .inr ⟨?_, rfl⟩
        rintro ⟨older, isOlder, -, less⟩
        have := Option.some.inj isOlder
        omega
      split
      case isTrue older => exact .inl ⟨⟨found, rfl, older⟩, rfl⟩
      case isFalse notOlder =>
        refine .inr ⟨?_, rfl⟩
        rintro ⟨older, isOlder, bounds⟩
        exact notOlder (Option.some.inj isOlder ▸ bounds)

theorem run_concat (history : List Step) (step : Step) :
    run (history ++ [step]) = step.run (run history) := by
  rw [run, List.foldl_append]
  rfl

/-- The recorded version does not depend on the entries. -/
theorem version_step (cache : SourceCache) (step : Step) :
    (step.run cache).version = step.version cache.version := by
  cases step with
  | put other out => rfl
  | clear => rfl
  | record version => rfl
  | reopen =>
      simp only [Step.run, Step.version, opened_eq]
      cases recorded : cache.version with
      | none => rfl
      | some found =>
          simp only
          split
          case isTrue present => exact recorded.trans (if_neg (by omega)).symm
          split
          · rfl
          · exact recorded

theorem version_run (history : List Step) : (run history).version = versionAfter history := by
  induction history using List.reverseRecOn with
  | nil => rfl
  | append_singleton history step ih =>
      rw [run_concat, version_step, ih, versionAfter, versionAfter, List.foldl_append]
      rfl

/-- While no other program records a version, it is that of the present schema. -/
theorem version_of_unrecorded {history : List Step}
    (unrecorded : ∀ version, .record version ∉ history) :
    (run history).version = some (schemaVersion : Int) := by
  induction history using List.reverseRecOn with
  | nil => rfl
  | append_singleton history step ih =>
      have current := ih fun version member => unrecorded version (List.mem_append_left _ member)
      rw [run_concat, version_step, current]
      cases step with
      | put key out => rfl
      | clear => rfl
      | reopen => rfl
      | record version =>
          exact absurd (List.mem_append_right _ List.mem_cons_self) (unrecorded version)

/-- Storing leaves the entries of other keys in place, unless they belong to another text of the
same path. -/
theorem survives_iff {entry : CacheEntry} : survives key entry = true ↔
    entry.key ≠ key ∧ (entry.key.path = key.path → entry.key.contentHash = key.contentHash) := by
  rw [survives, Bool.and_eq_true, Bool.or_eq_true, bne_iff_ne, bne_iff_ne, beq_iff_eq,
    Decidable.imp_iff_not_or]

theorem get?_of_absent (absent : ∀ entry ∈ cache.entries, entry.key ≠ key) :
    cache.get? key = .ok none := by
  have nothing : cache.entries.find? (fun entry => entry.key == key) = none :=
    List.find?_eq_none.mpr fun entry member same => absent entry member (eq_of_beq same)
  rw [get?, nothing]

/-- A step that ends what is kept under a key, other than by storing anew, leaves nothing there. -/
theorem get?_of_ends {step : Step} (ends : step.Ends cache.version key)
    (notStored : ∀ out, step ≠ .put key out) : (step.run cache).get? key = .ok none := by
  refine get?_of_absent fun entry member isKey => ?_
  cases step with
  | put other out =>
      have differs : other ≠ key := fun same => notStored out (same ▸ rfl)
      obtain ⟨samePath, otherText⟩ := ends.resolve_left differs
      rcases List.mem_append.mp member with survives | stored
      · obtain ⟨-, sameText⟩ := survives_iff.mp (List.mem_filter.mp survives).2
        rw [isKey] at sameText
        exact otherText (sameText samePath.symm).symm
      · obtain rfl := List.mem_singleton.mp stored
        exact differs isKey
  | clear => exact absurd member List.not_mem_nil
  | reopen =>
      rcases cache.entries_reopen with ⟨-, gone⟩ | ⟨notOlder, -⟩
      · exact absurd (gone ▸ member) List.not_mem_nil
      · exact notOlder ends
  | record version => exact ends

/-- A step that does not end what is kept under a key leaves it there. -/
theorem get?_of_not_ends {step : Step} (stays : ¬ step.Ends cache.version key) :
    (step.run cache).get? key = cache.get? key := by
  cases step with
  | put other out =>
      obtain ⟨differs, sameText⟩ := not_or.mp stays
      have others : ((entryOf other out).key == key) = false := beq_false_of_ne differs
      have found : (cache.put other out).entries.find? (fun entry => entry.key == key) =
          cache.entries.find? fun entry => entry.key == key := by
        rw [put, List.find?_append, List.find?_filter, List.find?_singleton, others,
          if_neg Bool.false_ne_true, Option.or_none]
        refine congrArg (List.find? · cache.entries) (funext fun entry => ?_)
        cases isKey : entry.key == key with
        | false => simp
        | true =>
            have remains : survives other entry = true := by
              rw [survives_iff, eq_of_beq isKey]
              exact ⟨Ne.symm differs, fun samePath => Decidable.not_not.mp fun otherText =>
                sameText ⟨samePath.symm, Ne.symm otherText⟩⟩
            simp [remains]
      rw [Step.run, get?, get?, found]
  | clear => exact absurd trivial stays
  | reopen =>
      rcases cache.entries_reopen with ⟨older, -⟩ | ⟨-, same⟩
      · exact absurd older stays
      · rw [get?, get?, same]
  | record version => rfl

/-- Whether all entries of a path belong to one text. -/
def OneText (cache : SourceCache) : Prop :=
  ∀ entry ∈ cache.entries, ∀ other ∈ cache.entries, entry.key.path = other.key.path →
    entry.key.contentHash = other.key.contentHash

/-- A stored entry takes those of other texts with it, so no step mixes the texts of a path. -/
theorem OneText.step (oneText : OneText cache) (step : Step) : OneText (step.run cache) := by
  cases step with
  | put key out =>
      -- what stays in place under the path of the stored entry belongs to its text
      have ofStored : ∀ entry ∈ (cache.put key out).entries, entry.key.path = key.path →
          entry.key.contentHash = key.contentHash := by
        intro entry member samePath
        rcases List.mem_append.mp member with remains | stored
        · exact (survives_iff.mp (List.mem_filter.mp remains).2).2 samePath
        · rw [List.mem_singleton.mp stored]
          rfl
      intro entry member other member' samePath
      by_cases isPath : entry.key.path = key.path
      · rw [ofStored entry member isPath, ofStored other member' (samePath ▸ isPath)]
      · have remains : ∀ entry ∈ (cache.put key out).entries, entry.key.path ≠ key.path →
            entry ∈ cache.entries := by
          intro entry member isOther
          refine (mem_entries_put member).resolve_right fun stored => isOther ?_
          rw [stored]
          rfl
        exact oneText entry (remains entry member isPath) other
          (remains other member' (samePath ▸ isPath)) samePath
  | clear => exact fun entry member => absurd member List.not_mem_nil
  | reopen =>
      rcases cache.entries_reopen with ⟨-, gone⟩ | ⟨-, same⟩
      · rw [OneText, gone]
        exact fun entry member => absurd member List.not_mem_nil
      · rw [OneText, same]
        exact oneText
  | record version => exact oneText

end Steps

/-! ## Whole histories -/

/-- **What is kept is what is found**, and nothing else. -/
theorem get?_run (history : List Step) (key : CacheKey)
    (words : ∀ out, .put key out ∈ history → ∀ number ∈ out.numbers, IsWord number) :
    (∀ out, Kept history key out → (run history).get? key = .ok (some out)) ∧
      ((∀ out, ¬ Kept history key out) → (run history).get? key = .ok none) := by
  induction history using List.reverseRecOn with
  | nil =>
      refine ⟨fun out kept => ?_, fun _ => rfl⟩
      obtain ⟨before, after, split, -⟩ := kept
      exact absurd split (by simp)
  | append_singleton history step ih =>
      obtain ⟨found, nothing⟩ := ih fun out member => words out (List.mem_append_left _ member)
      rw [run_concat]
      by_cases isStored : ∃ out, step = .put key out
      · obtain ⟨out, rfl⟩ := isStored
        have reads := read_entryOf (words out (List.mem_append_right _ List.mem_cons_self)) key
        refine ⟨fun other kept => ?_, fun nowhere => ?_⟩
        · rcases kept_concat_iff.mp kept with isOther | ⟨-, stays⟩
          · obtain rfl := (Step.put.inj isOther).2
            exact get?_put_of_reads reads
          · exact absurd (.inl rfl) stays
        · exact absurd (kept_concat_iff.mpr (.inl rfl)) (nowhere out)
      · have notStored : ∀ out, step ≠ .put key out := fun out same => isStored ⟨out, same⟩
        by_cases ends : step.Ends (run history).version key
        · refine ⟨fun out kept => ?_, fun _ => get?_of_ends ends notStored⟩
          rw [version_run] at ends
          exact absurd ends ((kept_concat_iff.mp kept).resolve_left (notStored out)).2
        · rw [get?_of_not_ends ends]
          refine ⟨fun out kept => ?_, fun nowhere => nothing fun out kept => nowhere out ?_⟩
          · exact found out ((kept_concat_iff.mp kept).resolve_left (notStored out)).1
          · rw [version_run] at ends
            exact kept_concat_iff.mpr (.inr ⟨kept, ends⟩)

theorem oneText_run (history : List Step) : OneText (run history) := by
  induction history using List.reverseRecOn with
  | nil => exact fun entry member => absurd member List.not_mem_nil
  | append_singleton history step ih =>
      rw [run_concat]
      exact ih.step step

/-- **A cache finds under a key what was stored last under it**, if nothing ended that since, and
otherwise nothing, whatever happened to its file. All entries of a path belong to one text. While
no other program records a version it is the present one. Opening the file then changes nothing; it
leaves no entry of an earlier schema, and under a later one it is refused with the entries as they
were. -/
theorem history_kept (history : List Step)
    (words : ∀ key out, .put key out ∈ history → ∀ number ∈ out.numbers, IsWord number) :
    let cache := run history
    (∀ key out, cache.get? key = .ok (some out) ↔ Kept history key out) ∧
    (∀ key, cache.get? key = .ok none ↔ ∀ out, ¬ Kept history key out) ∧
    OneText cache ∧
    ((∀ version, .record version ∉ history) → cache.version = some (schemaVersion : Int)) ∧
    (cache.version = some (schemaVersion : Int) → cache.opened = .ok cache) ∧
    (∀ older : Nat, older < schemaVersion → cache.version = some (older : Int) →
      cache.opened = .ok { entries := [], version := some schemaVersion }) ∧
    (∀ newer : Nat, schemaVersion < newer → cache.version = some (newer : Int) →
      cache.opened = .error (refusal newer) ∧ run (history ++ [.reopen]) = cache) := by
  intro cache
  have found := fun key => get?_run history key fun out => words key out
  refine ⟨fun key out => ⟨fun finds => ?_, (found key).1 out⟩,
    fun key => ⟨fun finds out kept => ?_, (found key).2⟩, oneText_run history,
    version_of_unrecorded, fun present => ?_, fun older less recorded => ?_,
    fun newer more recorded => ?_⟩
  · by_cases kept : ∃ other, Kept history key other
    · obtain ⟨other, kept⟩ := kept
      obtain rfl := Option.some.inj (Except.ok.inj (finds.symm.trans ((found key).1 other kept)))
      exact kept
    · cases finds.symm.trans ((found key).2 (not_exists.mp kept))
  · cases finds.symm.trans ((found key).1 out kept)
  · rw [opened_eq, present]
    exact if_pos rfl
  · rw [opened_eq, recorded]
    simp only
    rw [if_neg (by omega), if_pos (by omega)]
  · have refused : cache.opened = .error (refusal newer) := by
      rw [opened_eq, recorded]
      simp only
      rw [if_neg (by omega), if_neg (by omega)]
    refine ⟨refused, ?_⟩
    rw [run_concat, Step.run, refused]
    rfl

/-- Two trackers store forms of one text, and the file outlasts an attempt to open it under a later
schema. When one of them stores the form of another text, what the other had stored is ended. -/
theorem history_kept_trackers :
    let out : Instrumented := ⟨"x", ⟨#[1]⟩, [⟨1, 4294967295, [2]⟩], ∅, ∅⟩
    let key : CacheKey := ⟨"/p/a.lua", "h1", "cov"⟩
    let beside : CacheKey := ⟨"/p/a.lua", "h1", "other"⟩
    let after : CacheKey := ⟨"/p/a.lua", "h2", "other"⟩
    let history : List Step := [.put key out, .put beside out, .record (some 3), .reopen]
    (∀ number ∈ out.numbers, IsWord number) ∧
      (run history).get? key = .ok (some out) ∧
      (run history).opened = .error (.laterSchema 3 2) ∧
      (run (history ++ [.put after out])).get? key = .ok none := by
  intro out key beside after history
  have words : ∀ number ∈ out.numbers, IsWord number := by
    simp [out, Instrumented.numbers, Site.numbers, IsWord]
  have allWords : ∀ stored found, .put stored found ∈ history ++ [.put after out] →
      ∀ number ∈ found.numbers, IsWord number := by
    intro stored found member
    have isOut : stored = key ∧ found = out ∨ stored = beside ∧ found = out ∨
        stored = after ∧ found = out := by simpa [history] using member
    rcases isOut with ⟨-, rfl⟩ | ⟨-, rfl⟩ | ⟨-, rfl⟩ <;> exact words
  have kept : Kept history key out := by
    refine (@kept_concat_iff [_, _, _] _ _ _).mpr (.inr ⟨?_, ?_⟩)
    · refine (@kept_concat_iff [_, _] _ _ _).mpr (.inr ⟨?_, id⟩)
      refine (@kept_concat_iff [_] _ _ _).mpr (.inr ⟨?_, ?_⟩)
      · exact (@kept_concat_iff [] _ _ _).mpr (.inl rfl)
      · exact (by decide : ¬ (beside = key ∨ beside.path = key.path ∧
          beside.contentHash ≠ key.contentHash))
    · rintro ⟨older, recorded, -, less⟩
      obtain rfl : 3 = older := Option.some.inj recorded
      exact absurd less (by decide)
  obtain ⟨finds, -, -, -, -, -, later⟩ := history_kept history fun stored found member =>
    allWords stored found (List.mem_append_left _ member)
  obtain ⟨-, nothing, -⟩ := history_kept (history ++ [.put after out]) allWords
  refine ⟨words, (finds key out).mpr kept, (later 3 (by decide) rfl).1,
    (nothing key).mpr fun found isKept => ?_⟩
  rcases kept_concat_iff.mp isKept with same | ⟨-, stays⟩
  · exact absurd (Step.put.inj same).1 (by decide)
  · exact stays (.inr (by decide))

end SourceCache

end LuaCoverage
