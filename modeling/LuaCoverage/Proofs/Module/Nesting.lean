import LuaCoverage.Proofs.Module.FirstLoads

/-!
# Nested loads come to an end

Instrumenting a file may instrument the files of the modules that it requires, and so on through a
graph of modules that can have cycles. The loader recurses on the room that is left for nested
loads, so that it ends by its form. Here this is shown to be a matter of form only.

`Loader.instrumentUpTo` asks the questions that the loader asks, and none about the room: a file is
compared with the files in progress, and the number of these with the limit. Nothing in this makes
it end, so there is a number of calls that may nest, and no value if they nest deeper. It also
writes down every stack of files in progress that comes up.

If more calls may nest than the limit says, there is always a value, and it is what the recursion on
the room gives (`Loader.instrumentUpTo_eq`). What carries the induction is that a file is entered
only if it is not in progress and the stack is below the limit, so that the room is what is left of
the limit, and that each load leaves the stack as it found it (`Loader.Loads.inProgress_eq`). So
every request ends, on every graph of modules and at every moment between requests, with an empty
stack, and on the way no stack holds a file twice or is longer than the limit
(`Loader.nesting_bounded`).
-/

set_option autoImplicit false

namespace LuaCoverage

theorem LoaderRules.maxDepth_ofConfig {config : Config} {rules : LoaderRules}
    (made : LoaderRules.ofConfig config = .ok rules) : rules.maxDepth = config.maxLoadDepth := by
  obtain ⟨excluded, -, made⟩ := exists_ok_of_bind made
  obtain ⟨filter, -, made⟩ := exists_ok_of_bind made
  obtain rfl := Except.ok.inj made
  rfl

namespace Loader

/-! ## Loads without a bound -/

/-- A loader, with every stack of files in progress that it has come to, the latest first. -/
structure Traced where
  loader : Loader
  reached : List (List String) := []

/-- Goes on to a loader, and writes its stack down. -/
def Traced.goTo (traced : Traced) (next : Loader) : Traced :=
  { loader := next, reached := next.inProgress :: traced.reached }

/-- The modules to be instrumented along with a source. -/
def requirements (loader : Loader) (analysis : Analysis) : List String :=
  if loader.rules.eager then analysis.requires else []

/-- The file of a required module and its text, if it is to be instrumented and can be read. -/
def requiredFile? (loader : Loader) (sources : PathMap String) (name : String) :
    Loader × Option (String × String) :=
  if loader.rules.isExcluded name then (loader, none)
  else
    match loader.resolve sources name with
    | (next, none) => (next, none)
    | (next, some path) =>
        (next, if next.rules.filter.rule path then (sources[path]?).map fun text => (path, text)
          else none)

/-- Loads a required module, where its file is instrumented in a given way. -/
def requireBy {α : Type}
    (instrument : Traced → String → String → String → Option (Traced × α))
    (sources : PathMap String) (inner : Traced) (required : String) : Option Traced :=
  match inner.loader.requiredFile? sources required with
  | (next, none) => some (inner.goTo next)
  | (next, some (file, found)) => (instrument (inner.goTo next) required file found).map Prod.fst

/-- Instruments a file, with nothing but the questions that are asked of the stack to end nested
loads. There is no value if calls nest deeper than a given number, which is not asked about. -/
def instrumentUpTo (sources : PathMap String) :
    Nat → Traced → String → String → String →
      Option (Traced × Except UnchangedReason InstrumentedModule)
  | 0, _, _, _, _ => none
  | calls + 1, traced, name, path, text =>
      let loader := traced.loader
      if loader.aborted.contains path then some (traced, .error .depthLimit)
      else if loader.inProgress.contains path then some (traced.goTo loader.skip, .error .reentrant)
      else
        match loader.cached? path (Text.Digest.ofText text) with
        | none =>
            if loader.rules.maxDepth ≤ loader.depth then
              some (traced.goTo (loader.abort path), .error .depthLimit)
            else do
              let analysis := analyze loader.rules.settings text path
              let prepared ← (loader.requirements analysis).foldlM
                (requireBy (instrumentUpTo sources calls) sources) (traced.goTo (loader.enter path))
              let ended := prepared.loader.finish name path text analysis
              return (prepared.goTo ended.1, ended.2)
        | some loaded => some (traced.goTo loader.reuse, .ok loaded)

/-- What the load of a file that was found comes to before it is instrumented: an answer, or a name,
a file and its text to instrument. -/
def foundAsked (loader : Loader) (sources : PathMap String) (name path : String) :
    LoadAnswer ⊕ String × String × String :=
  match sources[path]? with
  | none => .inl (.notFound name [path])
  | some text =>
      if loader.rules.isExcluded name || !loader.rules.filter.rule path then
        .inl (.unchanged name path text .excluded)
      else .inr (name, path, text)

/-- What a request comes to before a file is instrumented. -/
def asked (loader : Loader) (sources : PathMap String) :
    LoadRequest → Loader × (LoadAnswer ⊕ String × String × String)
  | .module name =>
      match loader.resolve sources name with
      | (next, none) => (next, .inl (.notFound name (next.rules.candidates name)))
      | (next, some path) => (next, next.foundAsked sources name path)
  | .file given =>
      let path := Path.normalize loader.rules.root given
      (loader, loader.foundAsked sources path path)

/-- Answers a request in this way, where so many calls may nest. -/
def answerUpTo (calls : Nat) (sources : PathMap String) (traced : Traced) (request : LoadRequest) :
    Option (Traced × LoadAnswer) :=
  match traced.loader.asked sources request with
  | (next, .inl answer) => some (traced.goTo next, answer)
  | (next, .inr (name, path, text)) =>
      (instrumentUpTo sources calls (traced.goTo next) name path text).map fun ended =>
        (ended.1, .ofOutcome name path text ended.2)

/-! ## The recursion on the room, in the same form -/

section Form

variable (sources : PathMap String)

theorem loadRequired_eq (instrument : Loader → String → String → String → Loader)
    (loader : Loader) (name : String) : loadRequired instrument sources loader name =
      match loader.requiredFile? sources name with
      | (next, none) => next
      | (next, some (path, text)) => instrument next name path text := by
  unfold loadRequired requiredFile?
  by_cases excluded : loader.rules.isExcluded name = true
  · rw [if_pos excluded, if_pos excluded]
  rw [if_neg excluded, if_neg excluded]
  obtain ⟨next, found⟩ := loader.resolve sources name
  cases found with
  | none => rfl
  | some path =>
      simp only
      by_cases tracked : next.rules.filter.rule path = true
      · rw [if_pos tracked, if_pos tracked]
        cases sources[path]? <;> rfl
      · rw [if_neg tracked, if_neg tracked]

theorem loadRequirements_eq (instrument : Loader → String → String → String → Loader)
    (loader : Loader) (analysis : Analysis) :
    loader.loadRequirements instrument sources analysis =
      (loader.requirements analysis).foldl (loadRequired instrument sources) loader := by
  unfold loadRequirements requirements
  split <;> rfl

/-- Looking for the file of a required module only notes where it was found. -/
theorem requiredFile?_frame (loader : Loader) (name : String) :
    (loader.requiredFile? sources name).1.rules = loader.rules ∧
      (loader.requiredFile? sources name).1.inProgress = loader.inProgress ∧
      ∀ path text, (loader.requiredFile? sources name).2 = some (path, text) →
        sources[path]? = some text := by
  obtain ⟨rules, inProgress, -⟩ := loader.resolve_frame sources name
  unfold requiredFile?
  split
  · exact ⟨rfl, rfl, nofun⟩
  · generalize loader.resolve sources name = resolved at rules inProgress ⊢
    obtain ⟨next, found⟩ := resolved
    cases found with
    | none => exact ⟨rules, inProgress, nofun⟩
    | some path =>
        refine ⟨rules, inProgress, fun file text same => ?_⟩
        simp only at same
        split at same
        · obtain ⟨found, readable, pair⟩ := Option.map_eq_some_iff.mp same
          obtain ⟨rfl, rfl⟩ := Prod.mk.inj pair
          exact readable
        · cases same

theorem loadFound_eq (loader : Loader) (name path : String) :
    loader.loadFound sources name path =
      match loader.foundAsked sources name path with
      | .inl answer => (loader, answer)
      | .inr (name, path, text) =>
          let ended := instrumentFile sources loader.room loader name path text
          (ended.1, .ofOutcome name path text ended.2) := by
  unfold loadFound foundAsked
  cases sources[path]? with
  | none => rfl
  | some text =>
      simp only
      split
      · rfl
      · simp only
        generalize instrumentFile sources loader.room loader name path text = ended
        obtain ⟨next, outcome⟩ := ended
        cases outcome <;> rfl

/-- **An answer** is given at once, or comes of instrumenting a file with all the room there is. -/
theorem answer_eq (loader : Loader) (request : LoadRequest) :
    loader.answer sources request =
      match loader.asked sources request with
      | (next, .inl answer) => (next, answer)
      | (next, .inr (name, path, text)) =>
          let ended := instrumentFile sources next.room next name path text
          (ended.1, .ofOutcome name path text ended.2) := by
  cases request with
  | module name =>
      rw [answer, load, asked]
      obtain ⟨next, found⟩ := loader.resolve sources name
      cases found with
      | none => rfl
      | some path =>
          simp only [loadFound_eq]
          cases next.foundAsked sources name path <;> rfl
  | file given =>
      rw [answer, loadFile, asked]
      simp only [loadFound_eq]
      cases loader.foundAsked sources (Path.normalize loader.rules.root given)
        (Path.normalize loader.rules.root given) <;> rfl

/-- Nothing but the resolutions changes before a file is instrumented, and this file can be read. -/
theorem asked_frame (loader : Loader) (request : LoadRequest) :
    (loader.asked sources request).1.rules = loader.rules ∧
      (loader.asked sources request).1.inProgress = loader.inProgress ∧
      ∀ name path text, (loader.asked sources request).2 = .inr (name, path, text) →
        sources[path]? = some text := by
  have readable (before : Loader) (name path : String) (name' path' text : String)
      (same : before.foundAsked sources name path = .inr (name', path', text)) :
      sources[path']? = some text := by
    unfold foundAsked at same
    split at same
    · cases same
    · rename_i found readable
      split at same
      · cases same
      · cases same
        exact readable
  cases request with
  | file given => exact ⟨rfl, rfl, fun name path text same => readable _ _ _ name path text same⟩
  | module name =>
      obtain ⟨rules, inProgress, -⟩ := loader.resolve_frame sources name
      rw [asked]
      generalize loader.resolve sources name = resolved at rules inProgress ⊢
      obtain ⟨next, found⟩ := resolved
      cases found with
      | none => exact ⟨rules, inProgress, nofun⟩
      | some path =>
          exact ⟨rules, inProgress, fun name path text same => readable _ _ _ name path text same⟩

end Form

/-! ## The stack -/

/-- **Loads leave the stack as they found it**, however they end. -/
theorem Loads.inProgress_eq {sources : PathMap String} {loader next : Loader}
    (loads : Loads sources loader next) : next.inProgress = loader.inProgress := by
  induction loads with
  | refl loader => rfl
  | trans _ _ ih ih' => exact ih'.trans ih
  | resolve loader name => exact (loader.resolve_frame sources name).2.1
  | skip loader => rfl
  | reuse loader => rfl
  | abort loader path => rfl
  | file name path text _ _ _ _ ih =>
      rw [(finish_frame _ name path text _).2.1, ih]
      rfl

/-- Whether a stack of files in progress holds no file twice, and no more files than a limit. -/
def IsStack (limit : Nat) (stack : List String) : Prop := stack.Nodup ∧ stack.length ≤ limit

/-- Whether a loader with a given limit has come only to such stacks. -/
structure Traced.IsWithin (limit : Nat) (traced : Traced) : Prop where
  isLimit : traced.loader.rules.maxDepth = limit
  now : IsStack limit traced.loader.inProgress
  before : ∀ stack ∈ traced.reached, IsStack limit stack

namespace Traced.IsWithin

variable {limit : Nat} {traced : Traced} (within : traced.IsWithin limit)
include within

theorem goTo {next : Loader} (rules : next.rules = traced.loader.rules)
    (isStack : IsStack limit next.inProgress) : (traced.goTo next).IsWithin limit := by
  refine ⟨?_, isStack, fun stack member => ?_⟩
  · exact (congrArg LoaderRules.maxDepth rules).trans within.isLimit
  · rcases List.mem_cons.mp member with rfl | member
    · exact isStack
    · exact within.before stack member

/-- Going on with the same stack. -/
theorem goOn {next : Loader} (rules : next.rules = traced.loader.rules)
    (inProgress : next.inProgress = traced.loader.inProgress) :
    (traced.goTo next).IsWithin limit :=
  within.goTo rules (inProgress ▸ within.now)

/-- A file is entered that is not in progress, while there is room. -/
theorem enter {path : String} (idle : path ∉ traced.loader.inProgress)
    (room : traced.loader.depth < limit) :
    (traced.goTo (traced.loader.enter path)).IsWithin limit :=
  within.goTo rfl ⟨List.nodup_cons.mpr ⟨idle, within.now.1⟩, room⟩

end Traced.IsWithin

/-! ## Both forms come to the same -/

section Same

variable {limit : Nat} {sources : PathMap String}

/-- One module after the other, where each is loaded on the same stack. -/
theorem foldlM_within {stack : List String} {step : Traced → String → Option Traced}
    {bounded : Loader → String → Loader}
    (each : ∀ (traced : Traced) (name : String), traced.IsWithin limit →
      traced.loader.inProgress = stack → ∃ next, step traced name = some next ∧
        next.loader = bounded traced.loader name ∧ next.IsWithin limit ∧
        next.loader.inProgress = stack)
    (names : List String) {traced : Traced} (within : traced.IsWithin limit)
    (isStack : traced.loader.inProgress = stack) :
    ∃ last, names.foldlM step traced = some last ∧
      last.loader = names.foldl bounded traced.loader ∧ last.IsWithin limit ∧
      last.loader.inProgress = stack := by
  induction names generalizing traced with
  | nil => exact ⟨traced, rfl, rfl, within, isStack⟩
  | cons name rest ih =>
      obtain ⟨next, stepped, same, within, isStack⟩ := each traced name within isStack
      obtain ⟨last, ended, same', within, isStack⟩ := ih within isStack
      refine ⟨last, ?_, ?_, within, isStack⟩
      · rw [List.foldlM_cons, stepped]
        exact ended
      · rw [same', same, List.foldl_cons]

/-- Whether instrumenting a file, where so many calls may nest, ends as it does with some room, and
comes only to proper stacks. -/
def EndsAlike (limit : Nat) (sources : PathMap String) (calls room : Nat) (traced : Traced)
    (name path text : String) : Prop :=
  ∃ last, instrumentUpTo sources calls traced name path text =
      some (last, (instrumentFile sources room traced.loader name path text).2) ∧
    last.loader = (instrumentFile sources room traced.loader name path text).1 ∧
    last.IsWithin limit

/-- A required module is loaded alike, if its file is instrumented alike. -/
theorem requireBy_within {calls room : Nat}
    (alike : ∀ (traced : Traced) (name path text : String), traced.IsWithin limit →
      room + traced.loader.depth = limit → sources[path]? = some text →
        EndsAlike limit sources calls room traced name path text)
    {traced : Traced} (within : traced.IsWithin limit) (isRoom : room + traced.loader.depth = limit)
    (name : String) :
    ∃ next, requireBy (instrumentUpTo sources calls) sources traced name = some next ∧
      next.loader = loadRequired (fun next required file found =>
        (instrumentFile sources room next required file found).1) sources traced.loader name ∧
      next.IsWithin limit ∧ next.loader.inProgress = traced.loader.inProgress := by
  obtain ⟨rules, inProgress, readable⟩ := requiredFile?_frame sources traced.loader name
  rw [loadRequired_eq, requireBy]
  generalize traced.loader.requiredFile? sources name = found at rules inProgress readable ⊢
  obtain ⟨next, _ | ⟨file, found⟩⟩ := found
  · exact ⟨_, rfl, rfl, within.goOn rules inProgress, inProgress⟩
  · have readable : sources[file]? = some found := readable file found rfl
    obtain ⟨last, ended, same, within⟩ := alike (traced.goTo next) name file found
      (within.goOn rules inProgress) ((congrArg (room + List.length ·) inProgress).trans isRoom)
      readable
    refine ⟨last, by simp only [ended]; rfl, same, within, ?_⟩
    rw [same, (loads_instrumentFile room _ name file found readable).inProgress_eq]
    exact inProgress

/-- **Instrumenting a file ends as it does with the room that is left**, if more calls may nest, and
comes only to proper stacks. -/
theorem instrumentUpTo_eq (calls room : Nat) (traced : Traced) (name path text : String)
    (enough : room < calls) (within : traced.IsWithin limit)
    (isRoom : room + traced.loader.depth = limit) (readable : sources[path]? = some text) :
    EndsAlike limit sources calls room traced name path text := by
  induction calls generalizing room traced name path text with
  | zero => exact absurd enough (Nat.not_lt_zero room)
  | succ calls ih =>
  rw [EndsAlike, instrumentUpTo, instrumentFile_eq]
  by_cases givenUp : traced.loader.aborted.contains path = true
  · rw [if_pos givenUp, if_pos givenUp]
    exact ⟨traced, rfl, rfl, within⟩
  rw [if_neg givenUp, if_neg givenUp]
  by_cases busy : traced.loader.inProgress.contains path = true
  · rw [if_pos busy, if_pos busy]
    exact ⟨_, rfl, rfl, within.goOn rfl rfl⟩
  rw [if_neg busy, if_neg busy]
  cases traced.loader.cached? path (Text.Digest.ofText text) with
  | some loaded => exact ⟨_, rfl, rfl, within.goOn rfl rfl⟩
  | none =>
  cases room with
  | zero =>
      have full : traced.loader.rules.maxDepth ≤ traced.loader.depth := by
        rw [within.isLimit]
        omega
      simp only [if_pos full]
      exact ⟨_, rfl, rfl, within.goOn rfl rfl⟩
  | succ inner =>
      have notFull : ¬ traced.loader.rules.maxDepth ≤ traced.loader.depth := by
        rw [within.isLimit]
        omega
      have idle : path ∉ traced.loader.inProgress := by simpa using busy
      have entered := within.enter idle (by omega)
      let analysis := analyze traced.loader.rules.settings text path
      have each (current : Traced) (required : String) (within : current.IsWithin limit)
          (isStack : current.loader.inProgress = path :: traced.loader.inProgress) :=
        requireBy_within (fun current name path text =>
          ih inner current name path text (Nat.lt_of_succ_lt_succ enough)) within
          (by rw [depth, isStack, List.length_cons, ← Loader.depth]; omega) required
      obtain ⟨prepared, loaded, same, within', isStack⟩ := foldlM_within
        (fun current required within isStack => by
          rw [← isStack]
          exact each current required within isStack)
        (traced.loader.requirements analysis) entered rfl
      have isPrepared : prepared.loader = traced.loader.prepare sources inner path analysis := by
        rw [same, prepare, loadRequirements_eq]
        rfl
      obtain ⟨rules, left, -⟩ := prepared.loader.finish_frame name path text analysis
      simp only [if_neg notFull]
      refine ⟨prepared.goTo (prepared.loader.finish name path text analysis).1, ?_, ?_,
        within'.goTo rules ?_⟩
      · rw [loaded, ← isPrepared]
        rfl
      · rw [← isPrepared]
        rfl
      · rw [left, isStack]
        exact within.now

/-- **A request ends** at every loader with an empty stack, with the answer that the recursion on
the room gives. -/
theorem answerUpTo_eq {calls : Nat} (sources : PathMap String) (loader : Loader)
    (idle : loader.inProgress = []) (enough : loader.rules.maxDepth < calls)
    (request : LoadRequest) :
    ∃ last, answerUpTo calls sources { loader := loader } request =
        some (last, (loader.answer sources request).2) ∧
      last.loader = (loader.answer sources request).1 ∧ last.IsWithin loader.rules.maxDepth := by
  have within : Traced.IsWithin loader.rules.maxDepth { loader := loader } :=
    ⟨rfl, idle ▸ ⟨List.nodup_nil, Nat.zero_le _⟩, fun _ member => nomatch member⟩
  obtain ⟨rules, inProgress, readable⟩ := asked_frame sources loader request
  rw [answer_eq, answerUpTo]
  generalize loader.asked sources request = asked at rules inProgress readable ⊢
  obtain ⟨next, answer | ⟨name, path, text⟩⟩ := asked
  · exact ⟨_, rfl, rfl, within.goOn rules inProgress⟩
  · have isRoom : next.room + next.depth = loader.rules.maxDepth := by
      have stack : next.inProgress = [] := inProgress.trans idle
      have rules : next.rules = loader.rules := rules
      rw [room, depth, stack, rules]
      rfl
    obtain ⟨last, ended, same, within⟩ := instrumentUpTo_eq calls next.room
      (Traced.goTo { loader := loader } next) name path text (by omega)
      (within.goOn rules inProgress) isRoom (readable name path text rfl)
    exact ⟨last, by simp only [ended]; rfl, same, within⟩

/-- Between calls, the stack of a loader is as it was at first. -/
theorem frame_after (loader : Loader) (calls : List LoaderCall) :
    (loader.after calls).rules = loader.rules ∧
      (loader.after calls).inProgress = loader.inProgress := by
  induction calls generalizing loader with
  | nil => exact ⟨rfl, rfl⟩
  | cons call rest ih =>
      obtain ⟨rules, inProgress⟩ := ih (loader.serve call).1
      cases call with
      | forgetResolved => exact ⟨rules, inProgress⟩
      | load sources request =>
          have loads := (loads_answer sources loader request).1
          exact ⟨rules.trans loads.rules_eq, inProgress.trans loads.inProgress_eq⟩

/-- **Every request ends**, on every graph of modules and whatever a loader was asked before: its
calls nest no deeper than one more than the limit on the depth of loads. On the way, no stack of
files in progress holds a file twice or is longer than the limit, and in the end the stack is empty,
as it was between the calls before. -/
theorem nesting_bounded {config : Config} {disk : Option SourceCache} {loader : Loader}
    (made : ofConfig config disk = .ok loader) (calls : List LoaderCall)
    (sources : PathMap String) (request : LoadRequest) :
    ∃ last, answerUpTo (config.maxLoadDepth + 1) sources { loader := loader.after calls } request =
        some (last, ((loader.after calls).answer sources request).2) ∧
      last.loader = ((loader.after calls).answer sources request).1 ∧
      (∀ stack ∈ last.reached, stack.Nodup ∧ stack.length ≤ config.maxLoadDepth) ∧
      (loader.after calls).inProgress = [] ∧ last.loader.inProgress = [] := by
  obtain ⟨rules, ruled, rfl⟩ := exists_rules_of_ofConfig made
  obtain ⟨sameRules, idle⟩ := frame_after { rules := rules, disk := disk } calls
  have limit : (Loader.after { rules := rules, disk := disk } calls).rules.maxDepth =
      config.maxLoadDepth := by
    rw [sameRules]
    exact LoaderRules.maxDepth_ofConfig ruled
  obtain ⟨last, ended, same, within⟩ :=
    answerUpTo_eq sources _ idle (Nat.lt_succ_of_le (Nat.le_of_eq limit)) request
  refine ⟨last, ended, same, limit ▸ within.before, idle, ?_⟩
  rw [same, (loads_answer sources _ request).1.inProgress_eq, idle]

end Same

/-- Two files that require each other: the second load of the first one is left alone, and the
stack is empty in the end. -/
theorem nesting_bounded_cycle :
    let config : Config := { root := "/p", maxLoadDepth := 2 }
    let sources : PathMap String :=
      ((∅ : PathMap String).insert "/p/a.lua" "require 'b'\n").insert "/p/b.lua" "require 'a'\n"
    ∃ (loader : Loader) (last : Traced), ofConfig config none = .ok loader ∧
      answerUpTo 3 sources { loader := loader.after [] } (.file "a.lua") =
        some (last, ((loader.after []).answer sources (.file "a.lua")).2) ∧
      (∀ stack ∈ last.reached, stack.Nodup ∧ stack.length ≤ 2) ∧ last.loader.inProgress = [] ∧
      last.loader.stats.reentrantSkips = 1 ∧ last.loader.stats.transforms = 2 := by
  intro config sources
  have made : ofConfig config none = .ok { rules := .plain config } :=
    ofConfig_plain ⟨rfl, rfl, rfl⟩ none
  obtain ⟨last, ended, same, proper, -, idle⟩ :=
    nesting_bounded made [] sources (.file "a.lua")
  have counts : ((Loader.after { rules := .plain config } []).answer sources
      (.file "a.lua")).1.stats = { transforms := 2, reentrantSkips := 1 } := by decide +kernel
  rw [← same] at counts
  exact ⟨{ rules := .plain config }, last, made, ended, proper, idle,
    congrArg LoadCounts.reentrantSkips counts, congrArg LoadCounts.transforms counts⟩

end Loader

end LuaCoverage
