import LuaCoverage.Proofs.Module.FirstLoads
import LuaCoverage.Proofs.Module.Lockstep
import LuaCoverage.Proofs.Module.StoredForms
import Mathlib.Data.Set.Function

/-!
# What earlier runs leave behind

Instrumented sources are kept between runs so that they need not be made again. An entry is found by
the path of a file, the digest of its text and the name of the tracker. What instrumenting a file
depends on besides is not part of the key: the policy for structural keywords decides which lines
get calls, and the limit on the size of sources decides whether there are any.

Every entry that a load adds was made from a text that the load read, under the rules of the loader
(`Loader.Loads.written`), so this is known of every entry of a cache that was filled by earlier runs
(`SourceCache.Filled.written`). If all these runs that used the same tracker had the same policy and
no greater limit, then what an entry holds is what would be made now (`LoaderRules.Reproduces`). Two
loaders that differ at most in what they keep then answer alike, call after call
(`Loader.Beside.serve`), and in particular the kept forms make no difference
(`Loader.answers_of_filled`).

Without this condition they do make one: a file that was instrumented under another policy is served
with the calls of that policy (`Loader.answers_after_other_policy`), and a file that is too large
now is served instrumented if it was not too large before (`Loader.answers_after_greater_limit`).
-/

set_option autoImplicit false

namespace LuaCoverage

/-! ## What loads write -/

/-- Whether every source that a call can read is one of some texts. -/
def LoaderCall.ReadsFrom (texts : Set String) : LoaderCall → Prop
  | .load sources _ => ∀ path text : String, sources[path]? = some text → text ∈ texts
  | .forgetResolved => True

/-- Whether an entry is what loaders with given rules keep for one of some texts. -/
def LoaderRules.Writes (rules : LoaderRules) (texts : Set String) (entry : CacheEntry) : Prop :=
  ∃ path text out, text ∈ texts ∧
    instrument rules.settings rules.options text path = .ok out ∧
    entry = SourceCache.entryOf ⟨path, Text.Digest.ofText text, rules.options.trackerName⟩ out

namespace Loader

/-- The entries that a loader keeps between runs. -/
def kept (loader : Loader) : List CacheEntry := loader.disk.toList.flatMap SourceCache.entries

theorem kept_of_disk {loader : Loader} {disk : SourceCache} (keeps : loader.disk = some disk) :
    loader.kept = disk.entries := by
  rw [kept, keeps, Option.toList_some, List.flatMap_singleton]

/-- Producing a file keeps at most one more entry, with what the file was instrumented to. -/
theorem written_produce {loader : Loader} {path contentHash text : String} {analysis : Analysis}
    {entry : CacheEntry}
    (member : entry ∈ (loader.produce path contentHash text analysis).1.kept) :
    entry ∈ loader.kept ∨
      ∃ out, instrumentWith loader.rules.options text path analysis = .ok out ∧
        entry = SourceCache.entryOf ⟨path, contentHash, loader.rules.options.trackerName⟩ out := by
  unfold produce at member
  simp only at member
  split at member
  · exact .inl member
  · split at member
    · exact .inl member
    · rename_i out made
      cases keeps : loader.disk with
      | none =>
          rw [kept, keeps] at member
          cases member
      | some disk =>
          rw [kept_of_disk (congrArg (Option.map _) keeps)] at member
          rw [kept_of_disk keeps]
          exact (SourceCache.mem_entries_put member).imp_right fun stored => ⟨out, made, stored⟩

/-- Producing one file leaves what is kept of others alone. -/
theorem entriesOf_produce_of_ne (loader : Loader) {path other : String} (apart : other ≠ path)
    (contentHash text : String) (analysis : Analysis) :
    ((loader.produce other contentHash text analysis).1.disk.map fun disk =>
      disk.entriesOf path) = loader.disk.map fun disk => disk.entriesOf path := by
  unfold produce
  simp only
  split
  · rfl
  · split
    · rfl
    · rw [Option.map_map]
      exact congrArg (Option.map · loader.disk)
        (funext fun disk => disk.entriesOf_put_of_ne apart _)

section Writes

variable {texts : Set String} {sources : PathMap String}

/-- Finishing a file keeps what producing it keeps. -/
theorem kept_finish (prepared : Loader) (name path text : String) (analysis : Analysis) :
    (prepared.finish name path text analysis).1.kept =
      (prepared.produce path (Text.Digest.ofText text) text analysis).1.kept :=
  congrArg (fun disk : Option SourceCache => disk.toList.flatMap SourceCache.entries)
    (finish_produce prepared name path text analysis).1

/-- **Every entry that a load adds** was made from a text that the load read. -/
theorem Loads.written {loader next : Loader} (loads : Loads sources loader next)
    (known : ∀ path text : String, sources[path]? = some text → text ∈ texts) {entry : CacheEntry}
    (member : entry ∈ next.kept) : entry ∈ loader.kept ∨ loader.rules.Writes texts entry := by
  induction loads with
  | refl loader => exact .inl member
  | @trans first second third step steps ih ih' =>
      rcases ih' member with before | written
      · exact ih before
      · exact .inr (step.rules_eq ▸ written)
  | resolve loader name =>
      refine .inl ?_
      unfold Loader.resolve at member
      split at member <;> exact member
  | skip loader => exact .inl member
  | reuse loader => exact .inl member
  | abort loader path => exact .inl member
  | @file loader prepared name path text readable _ _ inside ih =>
      rw [kept_finish] at member
      rcases written_produce member with before | ⟨out, made, written⟩
      · exact ih before
      · rw [inside.rules_eq] at made written
        exact .inr ⟨path, text, out, known path text readable, made, written⟩

end Writes

end Loader

/-! ## Caches that earlier runs filled -/

/-- Caches that loaders of some configurations filled from some texts. -/
inductive SourceCache.Filled (texts : Set String) (configs : Set Config) : SourceCache → Prop
  | new : Filled texts configs .new
  | opened {cache next : SourceCache} (filled : Filled texts configs cache)
      (opens : cache.opened = .ok next) : Filled texts configs next
  | clear {cache : SourceCache} (filled : Filled texts configs cache) :
      Filled texts configs cache.clear.1
  | run {cache next : SourceCache} (filled : Filled texts configs cache) (config : Config)
      (member : config ∈ configs) (loader : Loader)
      (made : Loader.ofConfig config (some cache) = .ok loader) (calls : List LoaderCall)
      (known : ∀ call ∈ calls, call.ReadsFrom texts)
      (keeps : (loader.after calls).disk = some next) : Filled texts configs next

namespace Loader

variable {texts : Set String}

theorem written_serve (loader : Loader) {call : LoaderCall} (known : call.ReadsFrom texts) :
    (loader.serve call).1.rules = loader.rules ∧ ∀ entry ∈ (loader.serve call).1.kept,
      entry ∈ loader.kept ∨ loader.rules.Writes texts entry := by
  cases call with
  | forgetResolved => exact ⟨rfl, fun entry member => .inl member⟩
  | load sources request =>
      have loads := (loads_answer sources loader request).1
      exact ⟨loads.rules_eq, fun entry member => loads.written known member⟩

/-- Every entry that calls add was made from a text that some call read. -/
theorem written_after (loader : Loader) {calls : List LoaderCall}
    (known : ∀ call ∈ calls, call.ReadsFrom texts) :
    (loader.after calls).rules = loader.rules ∧ ∀ entry ∈ (loader.after calls).kept,
      entry ∈ loader.kept ∨ loader.rules.Writes texts entry := by
  induction calls generalizing loader with
  | nil => exact ⟨rfl, fun entry member => .inl member⟩
  | cons call rest ih =>
      obtain ⟨rules, written⟩ := written_serve loader (known call List.mem_cons_self)
      obtain ⟨rules', written'⟩ := ih (loader.serve call).1 fun later member =>
        known later (List.mem_cons_of_mem _ member)
      refine ⟨rules'.trans rules, fun entry member => ?_⟩
      rcases written' entry member with before | isWritten
      · exact written entry before
      · exact .inr (rules ▸ isWritten)

end Loader

/-- **Every entry of a cache that earlier runs filled** was written under the rules of one of their
configurations, for a text that it read. -/
theorem SourceCache.Filled.written {texts : Set String} {configs : Set Config}
    {cache : SourceCache} (filled : cache.Filled texts configs) :
    ∀ entry ∈ cache.entries, ∃ config ∈ configs, ∃ rules,
      LoaderRules.ofConfig config = .ok rules ∧ rules.Writes texts entry := by
  induction filled with
  | new => exact fun entry member => nomatch member
  | opened _ opens ih => exact fun entry member => ih entry (entries_opened opens member)
  | clear _ _ => exact fun entry member => nomatch member
  | run _ config isOne loader made calls known keeps ih =>
      intro entry member
      obtain ⟨rules, ruled, rfl⟩ := Loader.exists_rules_of_ofConfig made
      rw [← Loader.kept_of_disk keeps] at member
      rcases (Loader.written_after _ known).2 entry member with before | written
      · exact ih entry (by simpa [Loader.kept] using before)
      · exact ⟨config, isOne, rules, ruled, written⟩

/-! ## Entries that would be made again -/

/-- Whether rules make of a text, if it is one of some texts, what an entry has for it. -/
def LoaderRules.Reproduces (rules : LoaderRules) (texts : Set String) (entry : CacheEntry) : Prop :=
  entry.key.tracker = rules.options.trackerName → ∀ text ∈ texts,
    entry.key.contentHash = Text.Digest.ofText text → ∀ out, SourceCache.read entry = .ok out →
      instrument rules.settings rules.options text entry.key.path = .ok out

section Reproduction

variable {rules earlier : LoaderRules} {texts : Set String} {entry : CacheEntry}

/-- What was written under some rules is made again under others that succeed on the same sources
with the same result. -/
theorem LoaderRules.Writes.reproduced (written : earlier.Writes texts entry)
    (distinct : texts.InjOn Text.Digest.ofText)
    (carries : earlier.options.trackerName = rules.options.trackerName →
      ∀ (text path : String) (out : Instrumented),
        instrument earlier.settings earlier.options text path = .ok out →
          instrument rules.settings rules.options text path = .ok out) :
    rules.Reproduces texts entry := by
  obtain ⟨path, text, out, known, made, isEntry⟩ := written
  subst isEntry
  intro tracker other known' digest found reads
  obtain rfl := distinct known known' digest
  obtain rfl := SourceCache.eq_of_read_entryOf reads
  exact carries tracker text path found made

/-- **The policy and the limit are all that instrumenting depends on besides the key**, and a source
that was not too large is not too large for a greater limit. -/
theorem instrument_of_settings {before now : AnalysisSettings} {options : InstrumentSettings}
    (policy : before.policy = now.policy) (limit : before.maxFileBytes ≤ now.maxFileBytes)
    {text path : String} {out : Instrumented}
    (made : instrument before options text path = .ok out) :
    instrument now options text path = .ok out := by
  have fits : ¬ before.maxFileBytes < text.utf8ByteSize := by
    intro tooLarge
    rw [instrument, analyze, if_pos tooLarge] at made
    cases made
  have same : analyze now text path = analyze before text path := by
    rw [analyze, analyze, if_neg fits, if_neg fun tooLarge => fits (limit.trans_lt tooLarge)]
    cases Syntax.parse? text with
    | none => simp [Analysis.withoutTree, policy]
    | some tree => simp [Analysis.ofTree, policy]
  rw [instrument, same]
  exact made

end Reproduction

namespace Loader

/-- Whether all that a loader keeps between runs is what it would make itself. -/
def IsCurrent (texts : Set String) (loader : Loader) : Prop :=
  ∀ entry ∈ loader.kept, loader.rules.Reproduces texts entry

section Current

variable {texts : Set String} {loader : Loader} {text : String}

/-- A kept form comes from an entry under its key. -/
theorem exists_entry_of_stored {key : CacheKey} {out : Instrumented}
    (stored : loader.stored? key = some out) :
    ∃ entry ∈ loader.kept, entry.key = key ∧ SourceCache.read entry = .ok out := by
  obtain ⟨disk, keeps, stored⟩ := Option.bind_eq_some_iff.mp stored
  split at stored
  · rename_i found isFound
    subst stored
    rw [kept_of_disk keeps]
    exact SourceCache.exists_entry_of_get? isFound
  · cases stored

/-- **A loader whose kept forms are current** produces what it would make without them. -/
theorem IsCurrent.produce (current : loader.IsCurrent texts) (known : text ∈ texts)
    (path : String) :
    (loader.produce path (Text.Digest.ofText text) text
        (analyze loader.rules.settings text path)).2 =
      instrument loader.rules.settings loader.rules.options text path := by
  unfold Loader.produce
  simp only
  split
  · rename_i out stored
    obtain ⟨entry, member, key, reads⟩ := exists_entry_of_stored stored
    have again := current entry member (by rw [key]) text known (by rw [key]) out reads
    rw [key] at again
    exact again.symm
  · rw [instrument]
    split <;> rename_i made <;> rw [made]

/-- Finishing a file keeps a loader current. -/
theorem IsCurrent.finish (current : loader.IsCurrent texts)
    (distinct : texts.InjOn Text.Digest.ofText) (known : text ∈ texts) (name path : String) :
    (loader.finish name path text (analyze loader.rules.settings text path)).1.IsCurrent texts := by
  intro entry member
  rw [(finish_frame loader name path text _).1]
  rw [kept_finish] at member
  rcases written_produce member with before | ⟨out, made, written⟩
  · exact current entry before
  · exact LoaderRules.Writes.reproduced ⟨path, text, out, known, made, written⟩ distinct
      fun _ _ _ _ same => same

end Current

/-! ## Two loaders side by side -/

/-- Two loaders that differ at most in what they keep and what they have counted, and that keep only
what they would make. -/
structure Beside (texts : Set String) (first second : Loader) : Prop where
  alike : first.bare = second.bare
  current : first.IsCurrent texts
  current' : second.IsCurrent texts

namespace Beside

variable {texts : Set String} {sources : PathMap String} {first second : Loader}

theorem rules (beside : Beside texts first second) : first.rules = second.rules :=
  (congrArg Loader.rules beside.alike :)

/-- A change that neither reads nor writes what is kept and counted is the same in both loaders. -/
theorem change (beside : Beside texts first second) (change : Loader → Loader)
    (same : ∀ loader : Loader, (change loader).bare = (change loader.bare).bare)
    (keeps : ∀ loader : Loader, (change loader).kept = loader.kept ∧
      (change loader).rules = loader.rules) : Beside texts (change first) (change second) := by
  refine ⟨by rw [same, same second, beside.alike], fun entry member => ?_, fun entry member => ?_⟩
  · rw [(keeps first).1] at member
    rw [(keeps first).2]
    exact beside.current entry member
  · rw [(keeps second).1] at member
    rw [(keeps second).2]
    exact beside.current' entry member

theorem resolve (beside : Beside texts first second) (sources : PathMap String) (name : String) :
    Together (Beside texts) (first.resolve sources name) (second.resolve sources name) := by
  have known : first.resolved[name]? = second.resolved[name]? :=
    (congrArg (fun loader : Loader => loader.resolved[name]?) beside.alike :)
  have candidates : first.rules.candidates name = second.rules.candidates name := by
    rw [beside.rules]
  unfold Loader.resolve
  rw [known, candidates]
  split
  · exact ⟨rfl, beside⟩
  · generalize (second.rules.candidates name).find? _ = found
    exact ⟨rfl, beside.change (fun loader =>
      { loader with resolved := loader.resolved.insert name found }) (fun _ => rfl)
      fun _ => ⟨rfl, rfl⟩⟩

/-- **Finishing a file** comes to the same in both loaders. -/
theorem finish (beside : Beside texts first second) (distinct : texts.InjOn Text.Digest.ofText)
    (name : String) {path text : String} {analysis : Analysis} (known : text ∈ texts)
    (isAnalysis : analysis = analyze first.rules.settings text path) :
    Together (Beside texts) (first.finish name path text analysis)
      (second.finish name path text analysis) := by
  have isAnalysis' : analysis = analyze second.rules.settings text path := by
    rw [isAnalysis, beside.rules]
  have current := beside.current.finish distinct known name path
  have current' := beside.current'.finish distinct known name path
  rw [← isAnalysis] at current
  rw [← isAnalysis'] at current'
  have outcome := beside.current.produce known path
  have outcome' := beside.current'.produce known path
  rw [← isAnalysis] at outcome
  rw [← isAnalysis', ← beside.rules, ← outcome] at outcome'
  have alike : (second.produce path (Text.Digest.ofText text) text analysis).1.bare =
      (first.produce path (Text.Digest.ofText text) text analysis).1.bare := by
    rw [bare_produce, bare_produce, beside.alike]
  suffices same : (first.finish name path text analysis).2 =
        (second.finish name path text analysis).2 ∧
      (first.finish name path text analysis).1.bare =
        (second.finish name path text analysis).1.bare from
    ⟨same.1, same.2, current, current'⟩
  unfold Loader.finish
  simp only [outcome']
  cases (first.produce path (Text.Digest.ofText text) text analysis).2 with
  | error problem =>
      exact ⟨rfl, (congrArg (fun loader => loader.leave.fail.bare) alike.symm :)⟩
  | ok out =>
      exact ⟨rfl, (congrArg (fun loader => (loader.leave.keep
        ⟨name, path, Text.Digest.ofText text, text, out, analysis⟩).bare) alike.symm :)⟩

/-- **Loaders beside each other take every step of a load together.** -/
theorem isLockstep (distinct : texts.InjOn Text.Digest.ofText)
    (known : ∀ path text : String, sources[path]? = some text → text ∈ texts) :
    IsLockstep sources (Beside texts) where
  rules := rules
  inProgress beside := (congrArg Loader.inProgress beside.alike :)
  aborted beside := (congrArg Loader.aborted beside.alike :)
  cache beside := (congrArg Loader.cache beside.alike :)
  skip beside := beside.change Loader.skip (fun _ => rfl) fun _ => ⟨rfl, rfl⟩
  reuse beside := beside.change Loader.reuse (fun _ => rfl) fun _ => ⟨rfl, rfl⟩
  enter beside path :=
    beside.change (fun loader => loader.enter path) (fun _ => rfl) fun _ => ⟨rfl, rfl⟩
  abort beside path :=
    beside.change (fun loader => loader.abort path) (fun _ => rfl) fun _ => ⟨rfl, rfl⟩
  resolve beside name := beside.resolve sources name
  finish beside name _ text _ readable isAnalysis :=
    beside.finish distinct name (known _ text readable) isAnalysis

/-- **A call** is answered alike by both loaders. -/
theorem serve (distinct : texts.InjOn Text.Digest.ofText) (beside : Beside texts first second)
    {call : LoaderCall} (known : call.ReadsFrom texts) :
    Together (Beside texts) (first.serve call) (second.serve call) := by
  cases call with
  | load sources request =>
      obtain ⟨same, together⟩ := (isLockstep distinct known).answer beside request
      exact ⟨congrArg some same, together⟩
  | forgetResolved =>
      exact ⟨rfl, beside.change Loader.forgetResolved (fun _ => rfl) fun _ => ⟨rfl, rfl⟩⟩

theorem answers (distinct : texts.InjOn Text.Digest.ofText) (beside : Beside texts first second)
    {calls : List LoaderCall} (known : ∀ call ∈ calls, call.ReadsFrom texts) :
    first.answers calls = second.answers calls := by
  induction calls generalizing first second with
  | nil => rfl
  | cons call rest ih =>
      obtain ⟨same, together⟩ := beside.serve distinct (known call List.mem_cons_self)
      rw [Loader.answers, Loader.answers, same,
        ih together fun later member => known later (List.mem_cons_of_mem _ member)]

end Beside

/-! ### Caches of one file -/

section Alone

variable {sources : PathMap String} {file path text : String} {config : Config}
  {disk : Option SourceCache} {out : Instrumented}

/-- A cache that one run filled with one file. -/
theorem filled_alone (isPlain : config.IsPlain) (isPath : Path.normalize config.root file = path)
    (apart : (path.toList.flatMap String.utf8EncodeChar).head? ≠ some 99)
    (room : config.maxLoadDepth ≠ 0)
    (alone : (analyze config.analysisSettings text path).requires = [])
    (made : instrument config.analysisSettings (.ofConfig config) text path = .ok out) :
    SourceCache.Filled {text} {config}
      (SourceCache.new.put ⟨path, Text.Digest.ofText text, config.trackerName⟩ out) := by
  let sources : PathMap String := (∅ : PathMap String).insert path text
  have readable : sources[path]? = some text := Std.ExtTreeMap.getElem?_insert_self
  have missing : Loader.stored?
      { rules := .plain config, inProgress := [path], disk := some .new }
      ⟨path, Text.Digest.ofText text, config.trackerName⟩ = none := rfl
  have keeps := (answers_made isPath readable apart room alone missing made).1
  refine .run .new config rfl _ (ofConfig_plain isPlain _) [.load sources (.file file)]
    (fun call member => ?_) keeps
  obtain rfl := List.mem_singleton.mp member
  intro other found isFound
  rw [Std.ExtTreeMap.getElem?_insert] at isFound
  split at isFound
  · exact (Option.some.inj isFound).symm
  · cases Std.ExtTreeMap.getElem?_empty.symm.trans isFound

/-- **The form that an earlier run kept is served**, whatever would be made of the text now, if the
earlier run used the same tracker. -/
theorem answers_after_run {earlier : Config} (isPlain : earlier.IsPlain)
    (isPlain' : config.IsPlain) (root : earlier.root = config.root)
    (tracker : earlier.trackerName = config.trackerName)
    (isPath : Path.normalize config.root file = path) (readable : sources[path]? = some text)
    (apart : (path.toList.flatMap String.utf8EncodeChar).head? ≠ some 99)
    (room : earlier.maxLoadDepth ≠ 0) (room' : config.maxLoadDepth ≠ 0)
    (alone : (analyze earlier.analysisSettings text path).requires = [])
    (alone' : (analyze config.analysisSettings text path).requires = [])
    (made : instrument earlier.analysisSettings (.ofConfig earlier) text path = .ok out)
    (reads : SourceCache.read (SourceCache.entryOf ⟨"", "", ""⟩ out) = .ok out) :
    ∃ (cache : SourceCache) (keeping : Loader), SourceCache.Filled {text} {earlier} cache ∧
      ofConfig config (some cache) = .ok keeping ∧
      keeping.answers [.load sources (.file file)] =
        [some (.instrumented ⟨path, path, Text.Digest.ofText text, text, out,
          analyze config.analysisSettings text path⟩)] := by
  have found : (SourceCache.new.put ⟨path, Text.Digest.ofText text, earlier.trackerName⟩ out).get?
      ⟨path, Text.Digest.ofText text, config.trackerName⟩ = .ok (some out) := by
    rw [tracker]
    exact SourceCache.get?_put_of_reads reads
  exact ⟨_, _, filled_alone isPlain (root ▸ isPath) apart room alone made,
    ofConfig_plain isPlain' _, answers_kept isPath readable apart room' alone' found⟩

end Alone

/-! ### With caches and without -/

/-- **What earlier runs kept makes no difference**, if those of them that used the same tracker had
the same policy for structural keywords and no greater limit on the size of sources. Then a loader
with a cache that they filled gives the same answers as one without a cache, call after call. -/
theorem answers_of_filled {texts : Set String} (distinct : texts.InjOn Text.Digest.ofText)
    {config : Config} {configs : Set Config} {cache : SourceCache}
    (filled : cache.Filled texts configs)
    (agree : ∀ earlier ∈ configs, earlier.trackerName = config.trackerName →
      earlier.structuralKeywords = config.structuralKeywords ∧
        earlier.maxFileBytes ≤ config.maxFileBytes)
    {keeping plain : Loader} (made : ofConfig config (some cache) = .ok keeping)
    (made' : ofConfig config none = .ok plain) (calls : List LoaderCall)
    (known : ∀ call ∈ calls, call.ReadsFrom texts) :
    keeping.answers calls = plain.answers calls := by
  obtain ⟨rules, ruled, rfl⟩ := exists_rules_of_ofConfig made
  obtain ⟨rules', ruled', rfl⟩ := exists_rules_of_ofConfig made'
  obtain rfl := Except.ok.inj (ruled.symm.trans ruled')
  have nothing : IsCurrent texts { rules := rules } := fun entry member => nomatch member
  suffices current : IsCurrent texts { rules := rules, disk := some cache } by
    have beside : Beside texts { rules := rules, disk := some cache } { rules := rules } :=
      ⟨rfl, current, nothing⟩
    exact beside.answers distinct known
  intro entry member
  rw [kept_of_disk rfl] at member
  obtain ⟨earlier, isEarlier, earlierRules, earlierRuled, written⟩ := filled.written entry member
  obtain ⟨settings, options⟩ := LoaderRules.settings_ofConfig ruled
  obtain ⟨settings', options'⟩ := LoaderRules.settings_ofConfig earlierRuled
  refine written.reproduced distinct fun tracker text path out made => ?_
  rw [settings', options'] at made
  rw [options, options'] at tracker
  rw [settings, options]
  obtain ⟨policy, limit⟩ := agree earlier isEarlier tracker
  have sameOptions : InstrumentSettings.ofConfig earlier = .ofConfig config :=
    congrArg (fun name => InstrumentSettings.mk name true) tracker
  rw [sameOptions] at made
  exact instrument_of_settings policy limit made

section Block

/-- The sources with one file, whose first and last lines hold keywords only. -/
def blockSources : PathMap String := onlyFile "do\n  f()\nend\n"

/-- After a run under the presets, the file is served as it was instrumented then. -/
theorem served_block {config : Config} (isPlain : config.IsPlain) (root : config.root = "/p")
    (tracker : config.trackerName = "__covlua") (room : config.maxLoadDepth ≠ 0)
    (alone : (analyze config.analysisSettings "do\n  f()\nend\n" "/p/a.lua").requires = []) :
    ∃ (cache : SourceCache) (keeping : Loader) (kept : InstrumentedModule),
      SourceCache.Filled {"do\n  f()\nend\n"} {{ root := "/p" }} cache ∧
        ofConfig config (some cache) = .ok keeping ∧
        keeping.answers [.load blockSources (.file "a.lua")] = [some (.instrumented kept)] ∧
        kept.instrumented.hitLines.toList = [2] := by
  obtain ⟨out, made, seen⟩ := exists_ok_of_view
    (show (instrument ⟨.nonExecutable, 4194304⟩ ⟨"__covlua", true⟩ "do\n  f()\nend\n"
      "/p/a.lua").toOption.map (fun out => (out.hitLines.toList,
        (SourceCache.read (SourceCache.entryOf ⟨"", "", ""⟩ out)).toOption == some out)) =
          some ([2], true) by decide +kernel)
  obtain ⟨lines, same⟩ := Prod.mk.inj seen
  have reads : SourceCache.read (SourceCache.entryOf ⟨"", "", ""⟩ out) = .ok out :=
    eq_ok_of_toOption_beq same
  have earlier : Config.IsPlain { root := "/p" } := ⟨rfl, rfl, rfl⟩
  obtain ⟨cache, keeping, filled, ruled, served⟩ :=
    answers_after_run earlier isPlain root.symm tracker.symm (root ▸ path_onlyFile)
      (readable_onlyFile _) apart_onlyFile (by decide) room (by decide +kernel) alone made reads
  exact ⟨cache, keeping, _, filled, ruled, served, lines⟩

/-- Without a cache, the file is served as it is instrumented now, or as it is. -/
theorem fresh_block {config : Config} (isPlain : config.IsPlain) (root : config.root = "/p")
    (room : config.maxLoadDepth ≠ 0)
    (alone : (analyze config.analysisSettings "do\n  f()\nend\n" "/p/a.lua").requires = []) :
    ∃ plain, ofConfig config none = .ok plain ∧
      (∀ out, instrument config.analysisSettings (.ofConfig config) "do\n  f()\nend\n" "/p/a.lua" =
          .ok out → ∃ made : InstrumentedModule, made.instrumented = out ∧
            plain.answers [.load blockSources (.file "a.lua")] = [some (.instrumented made)]) ∧
      ∀ problem,
        instrument config.analysisSettings (.ofConfig config) "do\n  f()\nend\n" "/p/a.lua" =
          .error problem → plain.answers [.load blockSources (.file "a.lua")] =
            [some (.unchanged "/p/a.lua" "/p/a.lua" "do\n  f()\nend\n" .failed)] := by
  have isPath : Path.normalize config.root "a.lua" = "/p/a.lua" := root ▸ path_onlyFile
  have missing := stored?_of_no_disk { rules := .plain config, inProgress := ["/p/a.lua"] } rfl
    ⟨"/p/a.lua", Text.Digest.ofText "do\n  f()\nend\n", config.trackerName⟩
  obtain ⟨-, served, failed⟩ :=
    first_load isPath (readable_onlyFile _) apart_onlyFile room alone rfl
  refine ⟨_, ofConfig_plain isPlain none, fun out made => ⟨_, rfl, served out ?_⟩,
    fun problem fails => failed problem (produce_failed missing fails)⟩
  exact (produce_made missing made).2

/-- A run with a smaller limit and a greater depth filled the cache. -/
theorem answers_of_filled_block :
    let text := "do\n  f()\nend\n"
    let calls : List LoaderCall :=
      [.load blockSources (.file "a.lua"), .load blockSources (.module "a")]
    let earlier : Config := { root := "/p" }
    let config : Config := { root := "/p", maxFileBytes := 8000000, maxLoadDepth := 3 }
    ∃ (cache : SourceCache) (keeping plain : Loader) (kept : InstrumentedModule),
      Set.InjOn Text.Digest.ofText {text} ∧ SourceCache.Filled {text} {earlier} cache ∧
        (∀ before ∈ ({earlier} : Set Config), before.trackerName = config.trackerName →
          before.structuralKeywords = config.structuralKeywords ∧
            before.maxFileBytes ≤ config.maxFileBytes) ∧
        ofConfig config (some cache) = .ok keeping ∧ ofConfig config none = .ok plain ∧
        (∀ call ∈ calls, call.ReadsFrom {text}) ∧
        keeping.answers [.load blockSources (.file "a.lua")] = [some (.instrumented kept)] ∧
        keeping.answers calls = plain.answers calls := by
  intro text calls earlier config
  have isPlain : config.IsPlain := ⟨rfl, rfl, rfl⟩
  obtain ⟨cache, keeping, kept, filled, made, served, -⟩ :=
    served_block isPlain rfl rfl (by decide) (by decide +kernel)
  have distinct : Set.InjOn Text.Digest.ofText {text} := Set.injOn_singleton _ _
  have agree : ∀ before ∈ ({earlier} : Set Config), before.trackerName = config.trackerName →
      before.structuralKeywords = config.structuralKeywords ∧
        before.maxFileBytes ≤ config.maxFileBytes := by
    rintro before rfl -
    exact ⟨rfl, by decide⟩
  have known : ∀ call ∈ calls, call.ReadsFrom {text} := by
    have reads : ∀ path found : String, blockSources[path]? = some found → found = text :=
      fun _ _ isFound => eq_of_onlyFile isFound
    intro call member
    rcases List.mem_pair.mp member with rfl | rfl <;> exact reads
  exact ⟨cache, keeping, _, kept, distinct, filled, agree, made, ofConfig_plain isPlain none, known,
    served, answers_of_filled distinct filled agree made (ofConfig_plain isPlain none) calls known⟩

/-- A file that was instrumented under another policy is served with the calls of that policy: no
site reports the lines that hold keywords only, though they can run under the present one. -/
theorem answers_after_other_policy :
    let calls : List LoaderCall := [.load blockSources (.file "a.lua")]
    let earlier : Config := { root := "/p" }
    let config : Config := { root := "/p", structuralKeywords := .executable }
    ∃ (cache : SourceCache) (keeping plain : Loader) (kept made : InstrumentedModule),
      SourceCache.Filled {"do\n  f()\nend\n"} {earlier} cache ∧
        ofConfig config (some cache) = .ok keeping ∧ ofConfig config none = .ok plain ∧
        keeping.answers calls = [some (.instrumented kept)] ∧
        plain.answers calls = [some (.instrumented made)] ∧
        kept.instrumented.hitLines.toList = [2] ∧
        made.instrumented.hitLines.toList = [1, 2, 3] := by
  have isPlain : Config.IsPlain { root := "/p", structuralKeywords := .executable } :=
    ⟨rfl, rfl, rfl⟩
  obtain ⟨cache, keeping, kept, filled, made, served, lines⟩ :=
    served_block isPlain rfl rfl (by decide) (by decide +kernel)
  obtain ⟨out, now, seen⟩ := exists_ok_of_view
    (show (instrument ⟨.executable, 4194304⟩ ⟨"__covlua", true⟩ "do\n  f()\nend\n"
      "/p/a.lua").toOption.map (fun out => out.hitLines.toList) = some [1, 2, 3] by decide +kernel)
  obtain ⟨plain, ruled, fresh, -⟩ := fresh_block isPlain rfl (by decide) (by decide +kernel)
  obtain ⟨other, rfl, answered⟩ := fresh out now
  exact ⟨cache, keeping, plain, kept, other, filled, made, ruled, served, answered, lines, seen⟩

/-- A file that is too large now is served instrumented if it was not too large before. -/
theorem answers_after_greater_limit :
    let calls : List LoaderCall := [.load blockSources (.file "a.lua")]
    let earlier : Config := { root := "/p" }
    let config : Config := { root := "/p", maxFileBytes := 4 }
    ∃ (cache : SourceCache) (keeping plain : Loader) (kept : InstrumentedModule),
      SourceCache.Filled {"do\n  f()\nend\n"} {earlier} cache ∧
        ofConfig config (some cache) = .ok keeping ∧ ofConfig config none = .ok plain ∧
        keeping.answers calls = [some (.instrumented kept)] ∧
        plain.answers calls =
          [some (.unchanged "/p/a.lua" "/p/a.lua" "do\n  f()\nend\n" .failed)] := by
  have isPlain : Config.IsPlain { root := "/p", maxFileBytes := 4 } := ⟨rfl, rfl, rfl⟩
  obtain ⟨cache, keeping, kept, filled, made, served, -⟩ :=
    served_block isPlain rfl rfl (by decide) (by decide +kernel)
  have fails : instrument ⟨.nonExecutable, 4⟩ ⟨"__covlua", true⟩ "do\n  f()\nend\n" "/p/a.lua" =
      .error (.instrumentation "/p/a.lua" (.noTree .tooLarge)) := by
    rw [instrument, analyze, if_pos (by decide +kernel)]
    rfl
  obtain ⟨plain, ruled, -, failed⟩ := fresh_block isPlain rfl (by decide) (by decide +kernel)
  exact ⟨cache, keeping, plain, kept, filled, made, ruled, served, failed _ fails⟩

end Block

end Loader

end LuaCoverage
