import LuaCoverage.Proofs.Store.Tally
import LuaCoverage.Session.Recording

/-!
# What a traced event does to each file

A recording knows three things about a file: its record in the store, the decision whether it is
tracked, and its analysis (`Recording.part`). An event is on one file at most, and leaves what is
known about all others alone (`Recording.part_onTraced`). On its own file the first event finds
nothing and decides; all later ones find that decision and the analysis that goes with it.

`Recording.Follows` says how the three things fit together for a file whose source can be read: the
file did not come up, it is excluded, or it is tracked and has counted every event so far. Every
event keeps this, with one more hit or call where the event reports one
(`Recording.Follows.onTraced`), and every event is counted once (`Recording.total_onTraced`).
-/

set_option autoImplicit false

namespace LuaCoverage

/-! ## Events -/

/-- The number of events that were counted in some way. -/
def EventCounts.total (counts : EventCounts) : Nat :=
  counts.recorded + counts.ignored + counts.skipped

namespace Event

/-- The file that an event is on, if it names one. -/
def file? (root : String) : Event → Option String
  | .line source _ => (Path.ofSourceId root source).toOption
  | .call source _ => (Path.ofSourceId root source).toOption
  | .hit file _ _ => some file
  | .enter file _ => some file

/-- Whether an event reports that a line ran. -/
def runsLine (line : Nat) : Event → Bool
  | .line _ here => here == line
  | .hit _ here _ => here == line
  | _ => false

/-- Whether an event reports a call of a function that starts on a line. -/
def callsLine (line : Nat) : Event → Bool
  | .call _ here => here == line
  | .enter _ here => here == line
  | _ => false

/-- Whether an event reports that a line of a file ran. -/
def runs (root path : String) (line : Nat) (event : Event) : Bool :=
  event.file? root == some path && event.runsLine line

/-- Whether an event reports a call of a function that starts on a line of a file. -/
def calls (root path : String) (line : Nat) (event : Event) : Bool :=
  event.file? root == some path && event.callsLine line

end Event

/-! ## Stores -/

/-- What is filed under one path does not change what is filed under another. -/
theorem getElem?_insert_of_ne {α : Type} {path other : String} (apart : other ≠ path)
    (map : PathMap α) (value : α) : (map.insert other value)[path]? = map[path]? := by
  have differs : ¬ compare other path = .eq := by rwa [Std.LawfulEqCmp.compare_eq_iff_eq]
  rw [Std.ExtTreeMap.getElem?_insert, if_neg differs]

namespace CoverageStore

variable {store : CoverageStore} {path other : String}

theorem getElem?_put_of_ne (apart : other ≠ path) (file : FileRecord) :
    (store.put other file).files[path]? = store.files[path]? :=
  getElem?_insert_of_ne apart _ _

/-- An operation on one file leaves the records of others alone. -/
theorem getElem?_perform_of_ne (apart : other ≠ path) (operation : HitOperation) :
    (store.perform other operation).files[path]? = store.files[path]? := by
  have attempted : ∀ changed : Option FileRecord,
      (store.attempt other changed).1.files[path]? = store.files[path]? := by
    rintro (_ | changed)
    · rfl
    · exact getElem?_put_of_ne apart changed
  cases operation with
  | hit line attribution => exact attempted _
  | call line => exact attempted _
  | callInline line => exact attempted _

/-- An operation on a file that is not tracked comes to nothing. -/
theorem perform_untracked (untracked : store.tracked? path = none) (operation : HitOperation) :
    store.perform path operation = store := by
  cases operation with
  | hit line attribution => rw [perform, hit, untracked, Option.map_none, attempt]
  | call line => rw [perform, call, untracked, Option.bind_none, attempt]
  | callInline line => rw [perform, callInline, untracked, Option.bind_none, attempt]

end CoverageStore

namespace Recording

/-! ## What is known about a file -/

/-- What a recording knows about a file: its record, the decision about it and its analysis. -/
def part (recording : Recording) (path : String) :
    Option FileRecord × Option Bool × Option Analysis :=
  (recording.store.files[path]?, recording.decided[path]?, recording.analyses[path]?)

/-- The recording after an operation on a file, if it is allowed. -/
def attempted (recording : Recording) (path : String) (operation : HitOperation) (allowed : Bool) :
    Recording :=
  if allowed then recording.withStore (recording.store.perform path operation) else recording

section Frames

variable (recording : Recording) (sources : PathMap String) {path other : String}

theorem part_counted (recorded : Bool) (path : String) :
    (recording.counted recorded).part path = recording.part path := rfl

theorem total_counted (recorded : Bool) :
    (recording.counted recorded).counters.total = recording.counters.total + 1 := by
  cases recorded
  · show recording.counters.recorded + (recording.counters.ignored + 1)
      + recording.counters.skipped = _
    rw [EventCounts.total]
    omega
  · show recording.counters.recorded + 1 + recording.counters.ignored
      + recording.counters.skipped = _
    rw [EventCounts.total]
    omega

theorem part_attempted_of_ne (apart : other ≠ path) (operation : HitOperation) (allowed : Bool) :
    (recording.attempted other operation allowed).part path = recording.part path := by
  cases allowed with
  | false => rfl
  | true => exact congrArg (·, _) (CoverageStore.getElem?_perform_of_ne apart operation)

theorem attempted_frame (operation : HitOperation) (allowed : Bool) :
    (recording.attempted path operation allowed).rules = recording.rules ∧
      (recording.attempted path operation allowed).counters = recording.counters := by
  cases allowed <;> exact ⟨rfl, rfl⟩

/-- A decision stands. -/
theorem decideOn_of_decided {decision : Bool} (decided : recording.decided[path]? = some decision) :
    recording.decideOn sources path = (recording, decision) := by
  rw [decideOn, decided]

/-- The first time a file comes up decides about it. -/
theorem decideOn_of_undecided (undecided : recording.decided[path]? = none) :
    recording.decideOn sources path =
      ({ (recording.meet sources path).1 with
          decided := (recording.meet sources path).1.decided.insert path
            (recording.meet sources path).2 },
        (recording.meet sources path).2) := by
  rw [decideOn, undecided]

/-- Deciding about one file leaves what is known about others alone. -/
theorem part_decideOn_of_ne (apart : other ≠ path) :
    (recording.decideOn sources other).1.part path = recording.part path := by
  have inserted : ∀ {α : Type} (map : PathMap α) (value : α),
      (map.insert other value)[path]? = map[path]? := getElem?_insert_of_ne apart
  have stored : ∀ file, (recording.store.put other file).files[path]? =
      recording.store.files[path]? := CoverageStore.getElem?_put_of_ne apart
  cases found : recording.decided[other]? with
  | some decision => rw [recording.decideOn_of_decided sources found]
  | none =>
      rw [recording.decideOn_of_undecided sources found, meet]
      split
      · split
        · simp only [part, adopt, CoverageStore.track, stored, inserted]
        · simp only [part, withStore, CoverageStore.trackUnanalyzed, stored, inserted]
      · simp only [part, withStore, CoverageStore.note, stored, inserted]

theorem decideOn_frame : (recording.decideOn sources path).1.rules = recording.rules ∧
    (recording.decideOn sources path).1.counters = recording.counters := by
  cases found : recording.decided[path]? with
  | some decision =>
      rw [recording.decideOn_of_decided sources found]
      exact ⟨rfl, rfl⟩
  | none =>
      rw [recording.decideOn_of_undecided sources found, meet]
      split
      · split <;> exact ⟨rfl, rfl⟩
      · exact ⟨rfl, rfl⟩

/-- A hit is a decision about the file, an operation if that is allowed, and a count. -/
theorem exists_onHit (path : String) (line : Nat) (attribution : Attribution) : ∃ recorded,
    (recording.onHit sources path line attribution).1 =
      ((recording.decideOn sources path).1.attempted path (.hit line attribution)
        ((recording.decideOn sources path).2 &&
          (recording.decideOn sources path).1.mayRun path line)).counted recorded := by
  unfold onHit attempted
  simp only
  split
  · exact ⟨_, rfl⟩
  · exact ⟨false, rfl⟩

/-- A call is a decision about the file, an operation if that is allowed, and a count. The call of a
whole chunk is only counted. -/
theorem exists_onCall (path : String) (line : Nat) : ∃ recorded,
    (recording.onCall sources path line).1 =
      (if line = 0 then recording
        else (recording.decideOn sources path).1.attempted path (.call line)
          (recording.decideOn sources path).2).counted recorded := by
  unfold onCall attempted
  split
  · exact ⟨false, rfl⟩
  · simp only
    split
    · exact ⟨_, rfl⟩
    · exact ⟨false, rfl⟩

/-- A call that a hook reported is a call, and an operation on a block if the call came to
something. -/
theorem onHookedCall_eq (path : String) (line : Nat) : recording.onHookedCall sources line path =
    (recording.onCall sources path line).1.attempted path (.callInline line)
      (recording.onCall sources path line).2 := by
  unfold onHookedCall attempted
  rfl

theorem onHit_frame (path : String) (line : Nat) (attribution : Attribution) :
    (recording.onHit sources path line attribution).1.rules = recording.rules ∧
    (recording.onHit sources path line attribution).1.counters.total =
      recording.counters.total + 1 := by
  obtain ⟨recorded, same⟩ := recording.exists_onHit sources _ line attribution
  rw [same, total_counted, (attempted_frame _ _ _).2, (decideOn_frame _ _).2]
  exact ⟨(attempted_frame _ _ _).1.trans (decideOn_frame _ _).1, rfl⟩

theorem onCall_frame (path : String) (line : Nat) :
    (recording.onCall sources path line).1.rules = recording.rules ∧
    (recording.onCall sources path line).1.counters.total = recording.counters.total + 1 := by
  obtain ⟨recorded, same⟩ := recording.exists_onCall sources _ line
  rw [same, total_counted]
  split
  · exact ⟨rfl, rfl⟩
  · rw [(attempted_frame _ _ _).2, (decideOn_frame _ _).2]
    exact ⟨(attempted_frame _ _ _).1.trans (decideOn_frame _ _).1, rfl⟩

theorem onHookedCall_frame (path : String) (line : Nat) :
    (recording.onHookedCall sources line path).rules = recording.rules ∧
    (recording.onHookedCall sources line path).counters.total = recording.counters.total + 1 := by
  rw [onHookedCall_eq, (attempted_frame _ _ _).1, (attempted_frame _ _ _).2]
  exact recording.onCall_frame sources _ line

theorem part_onHit_of_ne (apart : other ≠ path) (line : Nat) (attribution : Attribution) :
    (recording.onHit sources other line attribution).1.part path = recording.part path := by
  obtain ⟨recorded, same⟩ := recording.exists_onHit sources _ line attribution
  rw [same, part_counted, part_attempted_of_ne _ apart, part_decideOn_of_ne _ _ apart]

theorem part_onCall_of_ne (apart : other ≠ path) (line : Nat) :
    (recording.onCall sources other line).1.part path = recording.part path := by
  obtain ⟨recorded, same⟩ := recording.exists_onCall sources _ line
  rw [same, part_counted]
  split
  · rfl
  · rw [part_attempted_of_ne _ apart, part_decideOn_of_ne _ _ apart]

theorem part_onHookedCall_of_ne (apart : other ≠ path) (line : Nat) :
    (recording.onHookedCall sources line other).part path = recording.part path := by
  rw [onHookedCall_eq, part_attempted_of_ne _ apart, part_onCall_of_ne _ _ apart]

/-- What an event comes to in a recording: it is skipped, or it is a hit or a call on the file that
it names. -/
inductive Outcome (recording : Recording) (sources : PathMap String) (event : Event) : Prop
  | skipped (unnamed : event.file? recording.rules.root = none)
      (same : recording.onTraced sources event = recording.skipped)
  | hit (path : String) (line : Nat) (attribution : Attribution)
      (named : event.file? recording.rules.root = some path)
      (runs : ∀ other, event.runsLine other = (line == other))
      (calls : ∀ other, event.callsLine other = false)
      (same : recording.onTraced sources event = (recording.onHit sources path line attribution).1)
  | call (path : String) (line : Nat) (named : event.file? recording.rules.root = some path)
      (runs : ∀ other, event.runsLine other = false)
      (calls : ∀ other, event.callsLine other = (line == other))
      (same : recording.onTraced sources event = (recording.onCall sources path line).1)
  | hookedCall (path : String) (line : Nat) (named : event.file? recording.rules.root = some path)
      (runs : ∀ other, event.runsLine other = false)
      (calls : ∀ other, event.callsLine other = (line == other))
      (same : recording.onTraced sources event = recording.onHookedCall sources line path)

theorem outcome_onTraced (event : Event) : recording.Outcome sources event := by
  cases event with
  | line source line =>
      cases named : Path.ofSourceId recording.rules.root source with
      | ok path =>
          refine .hit path line .line (congrArg Except.toOption named) (fun _ => rfl)
            (fun _ => rfl) ?_
          rw [onTraced, onSource, named]
      | error _ =>
          refine .skipped (congrArg Except.toOption named) ?_
          rw [onTraced, onSource, named]
  | call source line =>
      cases named : Path.ofSourceId recording.rules.root source with
      | ok path =>
          refine .hookedCall path line (congrArg Except.toOption named) (fun _ => rfl)
            (fun _ => rfl) ?_
          rw [onTraced, onSource, named]
      | error _ =>
          refine .skipped (congrArg Except.toOption named) ?_
          rw [onTraced, onSource, named]
  | hit file line block => exact .hit file line (.block block) rfl (fun _ => rfl) (fun _ => rfl) rfl
  | enter file line => exact .call file line rfl (fun _ => rfl) (fun _ => rfl) rfl

/-- **Every event is counted once**, and none changes what the recording goes by. -/
theorem onTraced_frame (event : Event) :
    (recording.onTraced sources event).rules = recording.rules ∧
    (recording.onTraced sources event).counters.total = recording.counters.total + 1 := by
  cases recording.outcome_onTraced sources event with
  | skipped _ same =>
      rw [same]
      exact ⟨rfl, rfl⟩
  | hit path line attribution _ _ _ same =>
      rw [same]
      exact recording.onHit_frame sources path line attribution
  | call path line _ _ _ same =>
      rw [same]
      exact recording.onCall_frame sources path line
  | hookedCall path line _ _ _ same =>
      rw [same]
      exact recording.onHookedCall_frame sources path line

/-- **An event on another file** leaves what is known about a file alone. -/
theorem part_onTraced {event : Event} (elsewhere : event.file? recording.rules.root ≠ some path) :
    (recording.onTraced sources event).part path = recording.part path := by
  have apart : ∀ {other : String}, event.file? recording.rules.root = some other →
      other ≠ path := fun named same => elsewhere (named.trans (congrArg some same))
  cases recording.outcome_onTraced sources event with
  | skipped _ same =>
      rw [same]
      rfl
  | hit _ line attribution named _ _ same =>
      rw [same]
      exact recording.part_onHit_of_ne sources (apart named) line attribution
  | call _ line named _ _ same =>
      rw [same]
      exact recording.part_onCall_of_ne sources (apart named) line
  | hookedCall _ line named _ _ same =>
      rw [same]
      exact recording.part_onHookedCall_of_ne sources (apart named) line

end Frames

/-! ## A file and the events on it -/

/-- What a recording knows about a file with an analysis, after hits on its lines and calls of its
functions: nothing, if there were none; that it is excluded; or that it is tracked, with all hits
and calls counted. -/
inductive Follows (recording : Recording) (path : String) (analysis : Analysis)
    (hits calls : Nat → Nat) : Prop
  | unseen (part : recording.part path = (none, none, none)) (unhit : ∀ line, hits line = 0)
      (uncalled : ∀ line, 0 < line → calls line = 0)
  | excluded (file : FileRecord) (part : recording.part path = (some file, some false, none))
      (inactive : file.active = false)
  | tracked (file : FileRecord)
      (part : recording.part path = (some file, some true, some analysis))
      (tallied : file.Tallied analysis hits calls)

section Follow

variable {recording : Recording} {sources : PathMap String} {path source : String}
  {analysis : Analysis} {hits calls : Nat → Nat}

theorem Follows.of_part {other : Recording} (follows : recording.Follows path analysis hits calls)
    (same : other.part path = recording.part path) : other.Follows path analysis hits calls := by
  cases follows with
  | unseen part unhit uncalled => exact .unseen (same.trans part) unhit uncalled
  | excluded file part inactive => exact .excluded file (same.trans part) inactive
  | tracked file part tallied => exact .tracked file (same.trans part) tallied

/-- Calls on line 0 need not be known. -/
theorem Follows.congr {hits' calls' : Nat → Nat}
    (follows : recording.Follows path analysis hits calls)
    (sameHits : ∀ line, hits' line = hits line)
    (sameCalls : ∀ line, 0 < line → calls' line = calls line) :
    recording.Follows path analysis hits' calls' := by
  cases follows with
  | unseen part unhit uncalled =>
      exact .unseen part (fun line => (sameHits line).trans (unhit line))
        fun line positive => (sameCalls line positive).trans (uncalled line positive)
  | excluded file part inactive => exact .excluded file part inactive
  | tracked file part tallied => exact .tracked file part (tallied.congr sameHits sameCalls)

/-- What a recording knows about a file once it was decided about. -/
inductive Decided (recording : Recording) (path : String) (analysis : Analysis)
    (hits calls : Nat → Nat) : Bool → Prop
  | excluded (file : FileRecord) (part : recording.part path = (some file, some false, none))
      (inactive : file.active = false) : Decided recording path analysis hits calls false
  | tracked (file : FileRecord)
      (part : recording.part path = (some file, some true, some analysis))
      (tallied : file.Tallied analysis hits calls) : Decided recording path analysis hits calls true

/-- **Deciding about a file.** If the file did not come up before, there were no hits on it, so it
starts without; else the decision stands. -/
theorem Follows.decideOn (readable : sources[path]? = some source)
    (follows : recording.Follows path (analyze recording.rules.settings source path) hits calls) :
    (recording.decideOn sources path).1.Decided path
      (analyze recording.rules.settings source path) hits calls
      (recording.decideOn sources path).2 := by
  cases follows with
  | excluded file part inactive =>
      rw [recording.decideOn_of_decided sources (congrArg (·.2.1) part)]
      exact .excluded file part inactive
  | tracked file part tallied =>
      rw [recording.decideOn_of_decided sources (congrArg (·.2.1) part)]
      exact .tracked file part tallied
  | unseen part unhit uncalled =>
      have missing : path ∉ recording.store.files := by
        rw [Std.ExtTreeMap.mem_iff_isSome_getElem?, show recording.store.files[path]? = none from
          congrArg (·.1) part]
        exact Bool.false_ne_true
      have isNew := CoverageStore.isNew_of_not_mem missing
      have undecided : recording.decided[path]? = none := congrArg (·.2.1) part
      have unanalyzed : recording.analyses[path]? = none := congrArg (·.2.2) part
      rw [Recording.decideOn, undecided, meet]
      by_cases wanted : recording.rules.filter.rule path = true
      · rw [if_pos wanted, readable]
        refine .tracked _ (Prod.ext (CoverageStore.getElem?_track isNew source _)
          (Prod.ext Std.ExtTreeMap.getElem?_insert_self Std.ExtTreeMap.getElem?_insert_self)) ?_
        have registered := FileRecord.registered_register path source
          (blocks_analyze recording.rules.settings source path).1
        exact (registered.tallied fun function => functions_analyze _ _ _).congr unhit uncalled
      · rw [if_neg wanted]
        refine .excluded { path := path } (Prod.ext ?_
          (Prod.ext Std.ExtTreeMap.getElem?_insert_self unanalyzed)) rfl
        show (recording.store.put path (recording.store.fileOrEmpty path)).files[path]? = _
        rw [CoverageStore.put, Std.ExtTreeMap.getElem?_insert_self, isNew]

/-- **An operation on a tracked file** is counted. -/
theorem attempted_tracked {file : FileRecord}
    (part : recording.part path = (some file, some true, some analysis))
    (tallied : file.Tallied analysis hits calls) (operation : HitOperation)
    (runs : ∀ line, operation.hits line = true → ∃ verdict,
      analysis.classification? line = some verdict ∧ verdict.executable = true) :
    (recording.attempted path operation true).Follows path analysis
      (fun line => hits line + if operation.hits line then 1 else 0)
      (fun line => calls line + if operation.callsOn line then 1 else 0) := by
  refine .tracked (file.perform operation) ?_ (tallied.perform operation runs)
  have found : recording.store.files[path]? = some file := congrArg (·.1) part
  exact Prod.ext (CoverageStore.getElem?_perform found tallied.active operation)
    (congrArg (·.2) part)

/-- **A hit** is counted if the line can run. -/
theorem Follows.onHit (readable : sources[path]? = some source)
    (isAnalysis : analysis = analyze recording.rules.settings source path)
    (follows : recording.Follows path analysis hits calls) (line : Nat)
    (attribution : Attribution) :
    (recording.onHit sources path line attribution).1.Follows path analysis
      (fun other => hits other + if analysis.isExecutable other && line == other then 1 else 0)
      calls := by
  obtain ⟨recorded, same⟩ := recording.exists_onHit sources path line attribution
  subst isAnalysis
  have decided := follows.decideOn readable
  rw [same]
  refine Follows.of_part ?_ (part_counted _ recorded path)
  revert decided
  generalize recording.decideOn sources path = outcome
  obtain ⟨next, decision⟩ := outcome
  intro decided
  cases decided with
  | excluded file part inactive => exact .excluded file part inactive
  | tracked file part tallied =>
      have mayRun : next.mayRun path line =
          (analyze recording.rules.settings source path).isExecutable line := by
        rw [Recording.mayRun, show next.analyses[path]? = some _ from congrArg (·.2.2) part]
      simp only [Bool.true_and]
      rw [mayRun]
      cases runs : (analyze recording.rules.settings source path).isExecutable line with
      | true =>
          refine (attempted_tracked part tallied (.hit line attribution)
            fun other isHit => ?_).congr (fun other => ?_) fun other _ => rfl
          · obtain rfl : line = other := beq_iff_eq.mp isHit
            exact (isExecutable_analyze _ _ _).mp runs
          · rw [HitOperation.hits]
            by_cases here : line = other
            · rw [← here, runs, Bool.true_and]
            · rw [beq_eq_false_iff_ne.mpr here, Bool.and_false]
      | false =>
          refine (Follows.tracked file part tallied).congr (fun other => ?_) fun other _ => rfl
          by_cases here : line = other
          · rw [← here, runs, Bool.false_and, if_neg Bool.false_ne_true, Nat.add_zero]
          · rw [beq_eq_false_iff_ne.mpr here, Bool.and_false, if_neg Bool.false_ne_true,
              Nat.add_zero]

/-- **A call** is counted for the line that it is on. -/
theorem Follows.onCall (readable : sources[path]? = some source)
    (isAnalysis : analysis = analyze recording.rules.settings source path)
    (follows : recording.Follows path analysis hits calls) (line : Nat) :
    (recording.onCall sources path line).1.Follows path analysis hits
      (fun other => calls other + if line == other then 1 else 0) := by
  obtain ⟨recorded, same⟩ := recording.exists_onCall sources path line
  subst isAnalysis
  rw [same]
  refine Follows.of_part ?_ (part_counted _ recorded path)
  by_cases chunk : line = 0
  · rw [if_pos chunk]
    refine follows.congr (fun _ => rfl) fun other positive => ?_
    rw [beq_eq_false_iff_ne.mpr (by omega), if_neg Bool.false_ne_true, Nat.add_zero]
  · rw [if_neg chunk]
    have decided := follows.decideOn readable
    revert decided
    generalize recording.decideOn sources path = outcome
    obtain ⟨next, decision⟩ := outcome
    intro decided
    cases decided with
    | excluded file part inactive => exact .excluded file part inactive
    | tracked file part tallied =>
        exact attempted_tracked part tallied (.call line)
          fun _ isHit => absurd isHit Bool.false_ne_true

/-- Crediting a block changes no count of a line or a function. -/
theorem Follows.callInline (follows : recording.Follows path analysis hits calls) (line : Nat)
    (allowed : Bool) :
    (recording.attempted path (.callInline line) allowed).Follows path analysis hits calls := by
  have idle : recording.store.tracked? path = none →
      (recording.attempted path (.callInline line) allowed).part path = recording.part path := by
    intro untracked
    rw [attempted, CoverageStore.perform_untracked untracked]
    cases allowed <;> rfl
  have stored : ∀ {known : Option FileRecord × Option Bool × Option Analysis},
      recording.part path = known → recording.store.files[path]? = known.1 :=
    fun same => congrArg (·.1) same
  cases allowed with
  | false => exact follows
  | true =>
      cases follows with
      | unseen part unhit uncalled =>
          refine .unseen ((idle ?_).trans part) unhit uncalled
          rw [CoverageStore.tracked?, stored part]
          rfl
      | excluded file part inactive =>
          refine .excluded file ((idle ?_).trans part) inactive
          rw [CoverageStore.tracked?, stored part, Option.filter_some, if_neg]
          rw [inactive]
          exact Bool.false_ne_true
      | tracked file part tallied =>
          exact attempted_tracked part tallied (.callInline line)
            fun _ isHit => absurd isHit Bool.false_ne_true

/-- A call that a hook reported is counted like any other. -/
theorem Follows.onHookedCall (readable : sources[path]? = some source)
    (isAnalysis : analysis = analyze recording.rules.settings source path)
    (follows : recording.Follows path analysis hits calls) (line : Nat) :
    (recording.onHookedCall sources line path).Follows path analysis hits
      (fun other => calls other + if line == other then 1 else 0) := by
  rw [onHookedCall_eq]
  exact (follows.onCall readable isAnalysis line).callInline line _

/-- **Every event is counted** for the line or the function that it is on, if that can run. -/
theorem Follows.onTraced (readable : sources[path]? = some source)
    (isAnalysis : analysis = analyze recording.rules.settings source path)
    (follows : recording.Follows path analysis hits calls) (event : Event) :
    (recording.onTraced sources event).Follows path analysis
      (fun line => hits line +
        if analysis.isExecutable line && event.runs recording.rules.root path line then 1 else 0)
      (fun line => calls line +
        if event.calls recording.rules.root path line then 1 else 0) := by
  by_cases here : event.file? recording.rules.root = some path
  · have itself : ∀ {other : String}, event.file? recording.rules.root = some other →
        other = path := fun named => Option.some.inj (named.symm.trans here)
    simp only [Event.runs, Event.calls, here, beq_self_eq_true, Bool.true_and]
    cases recording.outcome_onTraced sources event with
    | skipped unnamed _ => cases unnamed.symm.trans here
    | hit other line attribution named runs calls' same =>
        obtain rfl := itself named
        rw [same]
        refine (follows.onHit readable isAnalysis line attribution).congr (fun _ => ?_)
          fun _ _ => ?_
        · rw [runs]
        · rw [calls', if_neg Bool.false_ne_true, Nat.add_zero]
    | call other line named runs calls' same =>
        obtain rfl := itself named
        rw [same]
        refine (follows.onCall readable isAnalysis line).congr (fun _ => ?_) fun _ _ => ?_
        · rw [runs, Bool.and_false, if_neg Bool.false_ne_true, Nat.add_zero]
        · rw [calls']
    | hookedCall other line named runs calls' same =>
        obtain rfl := itself named
        rw [same]
        refine (follows.onHookedCall readable isAnalysis line).congr (fun _ => ?_) fun _ _ => ?_
        · rw [runs, Bool.and_false, if_neg Bool.false_ne_true, Nat.add_zero]
        · rw [calls']
  · refine (follows.of_part (recording.part_onTraced sources here)).congr (fun line => ?_)
      fun line _ => ?_
    · rw [Event.runs, beq_eq_false_iff_ne.mpr here, Bool.false_and, Bool.and_false,
        if_neg Bool.false_ne_true, Nat.add_zero]
    · rw [Event.calls, beq_eq_false_iff_ne.mpr here, Bool.false_and, if_neg Bool.false_ne_true,
        Nat.add_zero]

end Follow

end Recording

end LuaCoverage
