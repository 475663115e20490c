import LuaCoverage.Proofs.Session.Settling

/-!
# Sources that can be read late

A file whose source cannot be read when it first comes up is tracked all the same, and each line
that is reported is recorded on a guess. If its source can be read when the run is stopped, the file
is analyzed then, and the guesses are settled. Nothing of the detour remains: the lines of the
source have the same records as in the run in which the source could be read all along, and what was
recorded outside the source counts for nothing (`Session.lines_of_late_source`).

The two runs are followed side by side. For the file in question the one knows the analysis and
records only hits on lines that can run, while the other guesses and records all of them; the hits
on lines that can run are the same in both (`FileRecord.Guesses`). Every report and every assertion
keeps this (`Recording.Shadows`), and stopping the run makes up the difference
(`FileRecord.Guesses.settled`).
-/

set_option autoImplicit false

namespace LuaCoverage

/-! ## Lines -/

namespace LineRecord

/-- The record marked as covered, if its line was executed and can be. -/
def coveredIfRun (record : LineRecord) : LineRecord :=
  if record.executed && record.executable then { record with covered := true } else record

/-- The record that an analyzed file has for a line, where a file without an analysis has a guess or
nothing. -/
def informed (verdict : Classification) : Option LineRecord → LineRecord
  | none => ofClassification verdict
  | some guess =>
      if verdict.executable then
        { ofClassification verdict with
          executed := guess.executed
          covered := guess.covered
          executionCount := guess.executionCount }
      else ofClassification verdict

/-- A record that rests on hits alone. -/
structure IsGuess (record : LineRecord) : Prop where
  provisional : record.provisional = true
  executable : record.executable = true
  executed : record.executed = true

theorem IsGuess.hit {record : LineRecord} (provisional : record.provisional = true)
    (executable : record.executable = true) : record.hit.IsGuess :=
  ⟨provisional, executable, rfl⟩

variable {verdict : Classification} {guess : LineRecord}

theorem IsGuess.coveredIfRun (isGuess : guess.IsGuess) :
    guess.coveredIfRun = { guess with covered := true } := by
  rw [LineRecord.coveredIfRun, isGuess.executed, isGuess.executable]
  rfl

/-- Covering a line comes to the same with an analysis and without. -/
theorem informed_coveredIfRun {found : Option LineRecord}
    (guesses : ∀ guess, found = some guess → guess.IsGuess) :
    informed verdict (found.map coveredIfRun) = (informed verdict found).coveredIfRun := by
  cases found with
  | none =>
      rw [Option.map_none, informed, coveredIfRun]
      rfl
  | some guess =>
      have isGuess := guesses guess rfl
      rw [Option.map_some, isGuess.coveredIfRun]
      cases runs : verdict.executable <;>
        simp [informed, coveredIfRun, ofClassification, runs, isGuess.executed]

/-- **Settling a guess** gives what is known of the line in an analyzed file. -/
theorem IsGuess.settled (isGuess : guess.IsGuess) :
    FileRecord.enforceLine (guess.reclassify (some verdict)) =
      FileRecord.enforceLine ((informed verdict (some guess)).reclassify (some verdict)) := by
  obtain ⟨executable, executed, covered, count, lineType, reason, provisional⟩ := guess
  obtain ⟨rfl, rfl, rfl⟩ := isGuess
  obtain ⟨verdictType, allowed, because⟩ := verdict
  cases allowed <;> cases covered <;> rfl

end LineRecord

/-! ## Files -/

namespace FileRecord

/-- A file that is tracked without an analysis, beside the same file tracked with one. -/
structure Guesses (guess known : FileRecord) (analysis : Analysis) : Prop where
  active : guess.active = true
  active' : known.active = true
  unanalyzed : guess.isAnalyzed = false
  guesses : ∀ (line : Nat) (record : LineRecord), guess.lines[line]? = some record → record.IsGuess
  informed : ∀ line : Nat, known.lines[line]? =
    (analysis.classification? line).map fun verdict =>
      LineRecord.informed verdict guess.lines[line]?

section Changes

variable {guess known : FileRecord} {analysis : Analysis}

/-- Where no line changes, nothing changes between the two files. -/
theorem Guesses.of_lines {guess' known' : FileRecord} (guesses : guess.Guesses known analysis)
    (same : guess'.lines = guess.lines ∧ guess'.active = guess.active ∧
      guess'.quality = guess.quality)
    (same' : known'.lines = known.lines ∧ known'.active = known.active) :
    guess'.Guesses known' analysis := by
  obtain ⟨lines, active, quality⟩ := same
  obtain ⟨lines', active'⟩ := same'
  refine ⟨active.trans guesses.active, active'.trans guesses.active', ?_, ?_, ?_⟩
  · rw [isAnalyzed, quality]
    exact guesses.unanalyzed
  · rw [lines]
    exact guesses.guesses
  · rw [lines, lines']
    exact guesses.informed

/-- A hit on a line that is recorded on a guess makes a guess. -/
theorem Guesses.isGuess_hit (guesses : guess.Guesses known analysis) (line : Nat) :
    (guess.lineOrUnclassified line).hit.IsGuess := by
  rw [lineOrUnclassified]
  cases found : guess.lines[line]? with
  | none => exact .hit rfl (by rw [guesses.unanalyzed]; rfl)
  | some record =>
      have isGuess := guesses.guesses line record found
      exact .hit isGuess.provisional isGuess.executable

/-- A hit on a line that can run counts the same with an analysis and without. -/
theorem Guesses.informed_hit (guesses : guess.Guesses known analysis) {line : Nat}
    {verdict : Classification} (classified : analysis.classification? line = some verdict)
    (runs : verdict.executable = true) :
    LineRecord.informed verdict (some (guess.lineOrUnclassified line).hit) =
      (known.lineOrUnclassified line).hit := by
  have stored := guesses.informed line
  rw [classified, Option.map_some] at stored
  rw [lineOrUnclassified, lineOrUnclassified, stored, Option.getD_some]
  cases guess.lines[line]? <;> simp only [LineRecord.informed, runs, if_true] <;> rfl

/-- **A hit** is recorded on a guess, and where the analysis is known, if the line can run. -/
theorem Guesses.hit (guesses : guess.Guesses known analysis) (line : Nat)
    (runs : analysis.isExecutable line = true ↔
      ∃ verdict, analysis.classification? line = some verdict ∧ verdict.executable = true)
    (attribution : Attribution) :
    (guess.perform (.hit line attribution)).Guesses
      (if analysis.isExecutable line then known.perform (.hit line attribution) else known)
      analysis := by
  obtain ⟨-, active, quality⟩ := guess.perform_frame (.hit line attribution)
  refine ⟨active.trans guesses.active, ?active', ?unanalyzed, fun other record found => ?guesses,
    fun other => ?informed⟩
  case active' =>
    split
    · exact (known.perform_frame (.hit line attribution)).2.1.trans guesses.active'
    · exact guesses.active'
  case unanalyzed =>
    rw [isAnalyzed, quality]
    exact guesses.unanalyzed
  case guesses =>
    rw [lines_perform] at found
    split at found
    · rename_i here
      obtain rfl : line = other := beq_iff_eq.mp here
      exact Option.some.inj found ▸ guesses.isGuess_hit line
    · exact guesses.guesses other record found
  case informed =>
    rw [lines_perform]
    by_cases here : line = other
    · subst here
      have itself : (HitOperation.hit line attribution).hits line = true := beq_self_eq_true line
      rw [if_pos itself]
      cases classified : analysis.classification? line with
      | none =>
          rw [if_neg fun allowed => by
            obtain ⟨verdict, isVerdict, -⟩ := runs.mp allowed
            cases isVerdict.symm.trans classified]
          rw [guesses.informed, classified]
          rfl
      | some verdict =>
          cases allowed : verdict.executable with
          | true =>
              rw [if_pos (runs.mpr ⟨verdict, classified, allowed⟩), lines_perform, if_pos itself,
                Option.map_some, guesses.informed_hit classified allowed]
          | false =>
              have ignored : ∀ found,
                  LineRecord.informed verdict found = .ofClassification verdict := by
                rintro (_ | record)
                · rfl
                · rw [LineRecord.informed, if_neg (by rw [allowed]; exact Bool.false_ne_true)]
              rw [if_neg fun isAllowed => by
                obtain ⟨other, isVerdict, able⟩ := runs.mp isAllowed
                obtain rfl := Option.some.inj (isVerdict.symm.trans classified)
                exact Bool.false_ne_true (allowed.symm.trans able)]
              rw [guesses.informed, classified, Option.map_some, Option.map_some, ignored, ignored]
    · have elsewhere : ¬ (HitOperation.hit line attribution).hits other = true :=
        fun same => here (beq_iff_eq.mp same)
      rw [if_neg elsewhere, ← guesses.informed]
      split
      · rw [lines_perform, if_neg elsewhere]
      · rfl

/-- The lines of a file after one of them was covered. -/
theorem getElem?_lines_cover (file : FileRecord) (line other : Nat) :
    ((file.cover line).getD file).lines[other]? =
      if line = other then (file.lines[other]?).map LineRecord.coveredIfRun
      else file.lines[other]? := by
  rw [cover]
  cases found : file.lines[line]? with
  | none =>
      rw [Option.bind_eq_bind, Option.bind_none, Option.getD_none]
      split
      · rename_i here
        rw [← here, found]
        rfl
      · rfl
  | some record =>
      rw [Option.bind_eq_bind, Option.bind_some]
      cases able : record.executed && record.executable with
      | false =>
          rw [if_neg Bool.false_ne_true, Option.getD_none]
          split
          · rename_i here
            rw [← here, found, Option.map_some, LineRecord.coveredIfRun, able,
              if_neg Bool.false_ne_true]
          · rfl
      | true =>
          rw [if_pos rfl, Option.getD_some, Std.ExtTreeMap.getElem?_insert]
          by_cases here : line = other
          · rw [if_pos (by rw [here]; exact Std.ReflCmp.compare_self), if_pos here, ← here, found,
              Option.map_some, LineRecord.coveredIfRun, able, if_pos rfl]
          · rw [if_neg (mt Std.LawfulEqCmp.eq_of_compare here), if_neg here]

/-- Covering a line changes nothing else of a file. -/
theorem cover_frame (file : FileRecord) (line : Nat) :
    ((file.cover line).getD file).active = file.active ∧
      ((file.cover line).getD file).quality = file.quality := by
  cases covers : file.cover line with
  | none => exact ⟨rfl, rfl⟩
  | some covered =>
      obtain ⟨record, -, -, rfl⟩ := exists_of_cover covers
      exact ⟨rfl, rfl⟩

/-- **Covering a line** comes to the same with an analysis and without. -/
theorem Guesses.cover (guesses : guess.Guesses known analysis) (line : Nat) :
    ((guess.cover line).getD guess).Guesses ((known.cover line).getD known) analysis := by
  obtain ⟨active, quality⟩ := guess.cover_frame line
  refine ⟨active.trans guesses.active, (known.cover_frame line).1.trans guesses.active',
    ?unanalyzed, fun other record found => ?guesses, fun other => ?informed⟩
  case unanalyzed =>
    rw [isAnalyzed, quality]
    exact guesses.unanalyzed
  case guesses =>
    rw [getElem?_lines_cover] at found
    split at found
    · obtain ⟨before, isBefore, rfl⟩ := Option.map_eq_some_iff.mp found
      have isGuess := guesses.guesses other before isBefore
      rw [isGuess.coveredIfRun]
      exact ⟨isGuess.provisional, isGuess.executable, isGuess.executed⟩
    · exact guesses.guesses other record found
  case informed =>
    rw [getElem?_lines_cover, getElem?_lines_cover]
    split
    · rw [guesses.informed, Option.map_map]
      exact congrArg (Option.map · _) (funext fun verdict =>
        (LineRecord.informed_coveredIfRun (guesses.guesses other)).symm)
    · exact guesses.informed other

/-- A file of which nothing was reported yet. -/
theorem guesses_new (path source : String) (settings : AnalysisSettings) :
    ({ path := path, active := true } : FileRecord).Guesses
      (({ path := path } : FileRecord).register source (analyze settings source path))
      (analyze settings source path) := by
  have registered := registered_register path source (blocks_analyze settings source path).1
  exact ⟨rfl, registered.active, rfl, fun _ _ found => (by cases found), registered.lines⟩

/-- **Settling the guesses of a file** that is analyzed late gives the lines of the file that was
analyzed at once. -/
theorem Guesses.settled (guesses : guess.Guesses known analysis) (source : String) {line : Nat}
    {verdict : Classification} (classified : analysis.classification? line = some verdict) :
    ((guess.register source analysis).lines[line]?).map
        (fun record => enforceLine (record.reclassify (some verdict))) =
      (known.lines[line]?).map
        fun record => enforceLine (record.reclassify (some verdict)) := by
  rw [getElem?_lines_register source analysis (by rw [guesses.unanalyzed, Bool.and_false]),
    guesses.informed, classified, Option.map_some, Option.map_some]
  cases found : guess.lines[line]? with
  | none => rfl
  | some record => exact congrArg some (guesses.guesses line record found).settled

/-- What stopping a run makes of the lines of the two files: they are the same in the source, and
nothing is left of the guesses outside. -/
theorem Guesses.lines_settled (guesses : guess.Guesses known analysis) (source : String)
    {late early : FileRecord}
    (lines : ∀ line : Nat, late.lines[line]? =
      ((guess.register source analysis).lines[line]?).map fun record =>
        enforceLine (record.reclassify (analysis.classification? line)))
    (lines' : ∀ line : Nat, early.lines[line]? = (known.lines[line]?).map fun record =>
      enforceLine (record.reclassify (analysis.classification? line))) (line : Nat) :
    (1 ≤ line ∧ line ≤ analysis.lines.length ∧ line ∈ late.lines ∧
        late.lines[line]? = early.lines[line]?) ∨
      ¬ (1 ≤ line ∧ line ≤ analysis.lines.length) ∧ early.lines[line]? = none ∧
        ∀ record, late.lines[line]? = some record → record = .outside := by
  cases classified : analysis.classification? line with
  | some verdict =>
      obtain ⟨first, last⟩ := Analysis.exists_classification?_iff.mp ⟨verdict, classified⟩
      have same : late.lines[line]? = early.lines[line]? := by
        rw [lines, lines', classified]
        exact guesses.settled source classified
      refine .inl ⟨first, last, ?_, same⟩
      rw [mem_map_iff, same, lines', guesses.informed, classified]
      exact ⟨_, rfl⟩
  | none =>
      refine .inr ⟨fun inside => ?_, ?_, fun record found => ?_⟩
      · obtain ⟨verdict, isVerdict⟩ := Analysis.exists_classification?_iff.mpr inside
        cases classified.symm.trans isVerdict
      · rw [lines', guesses.informed, classified]
        rfl
      · rw [lines, classified] at found
        obtain ⟨before, -, rfl⟩ := Option.map_eq_some_iff.mp found
        rfl

end Changes

end FileRecord

/-- The line totals of a file depend on the lines that can run. -/
theorem FileRecord.summary_congr {first second : FileRecord}
    (same : ∀ line : Nat, (first.lines[line]?).filter LineRecord.executable =
      (second.lines[line]?).filter LineRecord.executable) :
    first.summary.executableLines = second.summary.executableLines ∧
      first.summary.executedLines = second.summary.executedLines ∧
      first.summary.coveredLines = second.summary.coveredLines := by
  have values : ∀ lines : LineMap LineRecord, lines.values.filter LineRecord.executable =
      (lines.filter fun _ record => record.executable).toList.map Prod.snd := by
    intro lines
    rw [values_eq_map_toList, List.filter_map, Std.ExtTreeMap.toList_filter]
    rfl
  have runnable : first.lines.values.filter LineRecord.executable =
      second.lines.values.filter LineRecord.executable := by
    rw [values, values]
    refine congrArg (fun lines : LineMap LineRecord => lines.toList.map Prod.snd)
      (Std.ExtTreeMap.ext_getElem? fun line => ?_)
    rw [Std.ExtTreeMap.getElem?_filter', Std.ExtTreeMap.getElem?_filter']
    exact same line
  unfold summary
  simp only [runnable, and_self]

/-! ## Reports -/

namespace Event

/-- Whether an event reports that some line ran. -/
def isHit : Event → Bool
  | .line _ _ => true
  | .call _ _ => false
  | .hit _ _ _ => true
  | .enter _ _ => false

/-- Whether an event reports that some line of a file ran. -/
def hits (root path : String) (event : Event) : Bool :=
  event.file? root == some path && event.isHit

/-- Whether an event brings up a file. The call of a whole chunk does not. -/
def meets (root path : String) (event : Event) : Bool :=
  event.file? root == some path && !event.callsLine 0

end Event

namespace Recording

/-- What two recordings of a run know about a file, where the one could not read the source of the
file and the other could: nothing, while it did not come up; that it is excluded; or that it is
tracked, without an analysis and with one. -/
inductive Shadows (rules : TrackingRules) (path source : String) (met hit : Bool)
    (late early : Recording) : Prop
  | unmet (part : late.part path = (none, none, none))
      (part' : early.part path = (none, none, none))
      (isUnmet : met = false) (unhit : hit = false)
  | excluded (part : late.part path = (some { path := path }, some false, none))
      (part' : early.part path = (some { path := path }, some false, none))
      (unwanted : rules.filter.rule path = false)
  | tracked (guess known : FileRecord) (part : late.part path = (some guess, some true, none))
      (part' : early.part path =
        (some known, some true, some (analyze rules.settings source path)))
      (guesses : guess.Guesses known (analyze rules.settings source path))
      (recorded : hit = true → ∃ line, line ∈ guess.lines)

/-- What an operation on a file makes of what is known about it. -/
theorem part_attempted (recording : Recording) (path : String) (operation : HitOperation)
    (allowed : Bool) : (recording.attempted path operation allowed).part path =
      ((recording.store.files[path]?).map fun file =>
          if allowed && file.active then file.perform operation else file,
        recording.decided[path]?, recording.analyses[path]?) := by
  cases allowed with
  | false => exact Prod.ext Option.map_id'.symm rfl
  | true =>
      have performed : recording.store.perform path operation =
          (recording.store.apply (.record path operation)).1 := by cases operation <;> rfl
      have own : (StoreOperation.record path operation).changeAt path =
          some (.record operation) := if_pos rfl
      refine Prod.ext ?_ rfl
      show (recording.store.perform path operation).files[path]? = _
      rw [performed, CoverageStore.getElem?_apply, own]
      cases recording.store.files[path]? <;> rfl

/-- The decision about a file is kept. -/
theorem decided_decideOn (recording : Recording) (sources : PathMap String) (path : String) :
    (recording.decideOn sources path).1.decided[path]? =
      some (recording.decideOn sources path).2 := by
  cases found : recording.decided[path]? with
  | some decision =>
      rw [recording.decideOn_of_decided sources found]
      exact found
  | none =>
      rw [recording.decideOn_of_undecided sources found]
      exact Std.ExtTreeMap.getElem?_insert_self

section Steps

variable {rules : TrackingRules} {path source : String} {met hit : Bool} {late early : Recording}
  {sources sources' : PathMap String}

theorem Shadows.of_part {late' early' : Recording}
    (shadows : Shadows rules path source met hit late early)
    (same : late'.part path = late.part path) (same' : early'.part path = early.part path) :
    Shadows rules path source met hit late' early' := by
  cases shadows with
  | unmet part part' isUnmet unhit =>
      exact .unmet (same.trans part) (same'.trans part') isUnmet unhit
  | excluded part part' unwanted => exact .excluded (same.trans part) (same'.trans part') unwanted
  | tracked guess known part part' guesses recorded =>
      exact .tracked guess known (same.trans part) (same'.trans part') guesses recorded

/-- An operation that is not a hit changes no lines, whether it comes to something or not. -/
theorem Shadows.attempted (shadows : Shadows rules path source met hit late early)
    {operation : HitOperation} (silent : ∀ line, operation.hits line = false)
    (allowed allowed' : Bool) :
    Shadows rules path source met hit (late.attempted path operation allowed)
      (early.attempted path operation allowed') := by
  have parts : ∀ {recording : Recording} {known : Option FileRecord} {rest} (allowed : Bool),
      recording.part path = (known, rest) →
        (recording.attempted path operation allowed).part path =
          (known.map fun file =>
            if allowed && file.active then file.perform operation else file, rest) := by
    rintro recording _ _ allowed ⟨⟩
    exact recording.part_attempted path operation allowed
  have kept : ∀ (file : FileRecord) (allowed : Bool),
      let changed := if allowed && file.active then file.perform operation else file
      changed.lines = file.lines ∧ changed.active = file.active ∧
        changed.quality = file.quality := by
    intro file allowed
    simp only
    split
    · refine ⟨Std.ExtTreeMap.ext_getElem? fun line => ?_, (file.perform_frame operation).2⟩
      rw [FileRecord.lines_perform, silent, if_neg Bool.false_ne_true]
    · exact ⟨rfl, rfl, rfl⟩
  cases shadows with
  | unmet part part' isUnmet unhit =>
      exact .unmet (parts allowed part) (parts allowed' part') isUnmet unhit
  | excluded part part' unwanted =>
      refine .excluded ((parts allowed part).trans ?_) ((parts allowed' part').trans ?_) unwanted
      · rw [Option.map_some, Bool.and_false, if_neg Bool.false_ne_true]
      · rw [Option.map_some, Bool.and_false, if_neg Bool.false_ne_true]
  | tracked guess known part part' guesses recorded =>
      refine .tracked _ _ (parts allowed part) (parts allowed' part')
        (guesses.of_lines (kept guess allowed)
          ⟨(kept known allowed').1, (kept known allowed').2.1⟩) ?_
      rw [(kept guess allowed).1]
      exact recorded

/-- **The first event on a file.** The source cannot be read in the one recording, and can be read
in the other. -/
theorem Shadows.decideOn (shadows : Shadows rules path source met hit late early)
    (ruled : late.rules = rules) (ruled' : early.rules = rules)
    (unreadable : met = false → sources[path]? = none) (readable : sources'[path]? = some source) :
    Shadows rules path source true hit (late.decideOn sources path).1
      (early.decideOn sources' path).1 := by
  have known : ∀ {recording : Recording} {file : Option FileRecord} {decision : Bool}
      {analysis : Option Analysis} (sources : PathMap String),
      recording.part path = (file, some decision, analysis) →
        (recording.decideOn sources path).1 = recording := by
    rintro recording _ decision _ sources part
    rw [recording.decideOn_of_decided sources (congrArg (·.2.1) part)]
  cases shadows with
  | excluded part part' unwanted =>
      rw [known sources part, known sources' part']
      exact .excluded part part' unwanted
  | tracked guess file part part' guesses recorded =>
      rw [known sources part, known sources' part']
      exact .tracked guess file part part' guesses recorded
  | unmet part part' isUnmet unhit =>
      have new : ∀ {recording : Recording}, recording.part path = (none, none, none) →
          recording.store.fileOrEmpty path = { path := path } ∧ recording.decided[path]? = none ∧
            recording.analyses[path]? = none := fun part =>
        ⟨congrArg (Option.getD · _) (congrArg Prod.fst part), congrArg (·.2.1) part,
          congrArg (·.2.2) part⟩
      obtain ⟨isNew, undecided, unanalyzed⟩ := new part
      obtain ⟨isNew', undecided', unanalyzed'⟩ := new part'
      rw [late.decideOn_of_undecided sources undecided,
        early.decideOn_of_undecided sources' undecided', meet, meet, ruled, ruled',
        unreadable isUnmet, readable]
      cases wanted : rules.filter.rule path with
      | true =>
          rw [if_pos rfl, if_pos rfl]
          refine .tracked _ _
            (Prod.ext ?_ (Prod.ext Std.ExtTreeMap.getElem?_insert_self unanalyzed))
            (Prod.ext ?_ (Prod.ext Std.ExtTreeMap.getElem?_insert_self
              Std.ExtTreeMap.getElem?_insert_self))
            (FileRecord.guesses_new path source rules.settings) fun isHit => ?_
          · refine Std.ExtTreeMap.getElem?_insert_self.trans ?_
            rw [isNew]
          · refine Std.ExtTreeMap.getElem?_insert_self.trans ?_
            rw [isNew']
          · cases unhit.symm.trans isHit
      | false =>
          rw [if_neg Bool.false_ne_true, if_neg Bool.false_ne_true]
          refine .excluded (Prod.ext ?_ (Prod.ext Std.ExtTreeMap.getElem?_insert_self unanalyzed))
            (Prod.ext ?_ (Prod.ext Std.ExtTreeMap.getElem?_insert_self unanalyzed')) wanted
          · refine Std.ExtTreeMap.getElem?_insert_self.trans ?_
            rw [isNew]
          · refine Std.ExtTreeMap.getElem?_insert_self.trans ?_
            rw [isNew']

/-- **A hit** on a file. -/
theorem Shadows.onHit (shadows : Shadows rules path source met hit late early)
    (ruled : late.rules = rules) (ruled' : early.rules = rules)
    (unreadable : met = false → sources[path]? = none) (readable : sources'[path]? = some source)
    (line : Nat) (attribution : Attribution) :
    Shadows rules path source true true (late.onHit sources path line attribution).1
      (early.onHit sources' path line attribution).1 := by
  obtain ⟨recorded, same⟩ := late.exists_onHit sources path line attribution
  obtain ⟨recorded', same'⟩ := early.exists_onHit sources' path line attribution
  have decided := late.decided_decideOn sources path
  have decided' := early.decided_decideOn sources' path
  have shadows := shadows.decideOn ruled ruled' unreadable readable
  rw [same, same']
  refine Shadows.of_part ?_ (part_counted _ recorded path) (part_counted _ recorded' path)
  revert decided decided' shadows
  generalize late.decideOn sources path = outcome
  generalize early.decideOn sources' path = outcome'
  obtain ⟨next, decision⟩ := outcome
  obtain ⟨next', decision'⟩ := outcome'
  intro decided decided' shadows
  simp only at decided decided' shadows ⊢
  have decision_eq : ∀ {recording : Recording} {file : Option FileRecord} {known decision : Bool}
      {analysis : Option Analysis}, recording.part path = (file, some known, analysis) →
        recording.decided[path]? = some decision → decision = known :=
    fun part found => Option.some.inj (found.symm.trans (congrArg (·.2.1) part))
  cases shadows with
  | unmet _ _ isUnmet _ => cases isUnmet
  | excluded part part' unwanted =>
      rw [decision_eq part decided, decision_eq part' decided']
      exact .excluded part part' unwanted
  | tracked guess known part part' guesses _ =>
      have mayRun : next.mayRun path line = true := by
        rw [Recording.mayRun, show next.analyses[path]? = none from congrArg (·.2.2) part]
      have mayRun' : next'.mayRun path line =
          (analyze rules.settings source path).isExecutable line := by
        rw [Recording.mayRun, show next'.analyses[path]? = some _ from congrArg (·.2.2) part']
      rw [decision_eq part decided, decision_eq part' decided', mayRun, mayRun', Bool.true_and,
        Bool.true_and]
      have guesses' := guesses.hit line (isExecutable_analyze _ _ _) attribution
      refine .tracked _ _ ?_ ?_ guesses' fun _ => ?_
      · rw [part_attempted, show next.store.files[path]? = some guess from congrArg Prod.fst part,
          Option.map_some, guesses.active, Bool.true_and, if_pos rfl]
        exact congrArg _ (congrArg Prod.snd part)
      · rw [part_attempted, show next'.store.files[path]? = some known from
          congrArg Prod.fst part', Option.map_some, guesses.active', Bool.and_true]
        exact congrArg _ (congrArg Prod.snd part')
      · refine ⟨line, ?_⟩
        rw [mem_map_iff]
        exact ⟨_, (guess.lines_perform _ line).trans (if_pos (beq_self_eq_true line))⟩

/-- **A call** on a file, unless it is that of a whole chunk. -/
theorem Shadows.onCall (shadows : Shadows rules path source met hit late early)
    (ruled : late.rules = rules) (ruled' : early.rules = rules) {line : Nat}
    (unreadable : met = false → line ≠ 0 → sources[path]? = none)
    (readable : sources'[path]? = some source) :
    Shadows rules path source (met || line != 0) hit (late.onCall sources path line).1
      (early.onCall sources' path line).1 := by
  obtain ⟨recorded, same⟩ := late.exists_onCall sources path line
  obtain ⟨recorded', same'⟩ := early.exists_onCall sources' path line
  rw [same, same']
  refine Shadows.of_part ?_ (part_counted _ recorded path) (part_counted _ recorded' path)
  by_cases chunk : line = 0
  · rw [if_pos chunk, if_pos chunk, chunk, bne_self_eq_false, Bool.or_false]
    exact shadows
  · rw [if_neg chunk, if_neg chunk, bne_iff_ne.mpr chunk, Bool.or_true]
    exact (shadows.decideOn ruled ruled' (fun isUnmet => unreadable isUnmet chunk)
      readable).attempted (fun _ => rfl) _ _

/-- **A report** on any file. -/
theorem Shadows.onTraced (shadows : Shadows rules path source met hit late early)
    (ruled : late.rules = rules) (ruled' : early.rules = rules) {event : Event}
    (unreadable : met = false → event.meets rules.root path = true → sources[path]? = none)
    (readable : sources'[path]? = some source) :
    Shadows rules path source (met || event.meets rules.root path)
      (hit || event.hits rules.root path) (late.onTraced sources event)
      (early.onTraced sources' event) := by
  by_cases here : event.file? rules.root = some path
  · rw [Event.meets, here, beq_self_eq_true, Bool.true_and] at unreadable
    rw [Event.meets, Event.hits, here, beq_self_eq_true, Bool.true_and, Bool.true_and]
    have named : ∀ {name : String}, (Path.ofSourceId rules.root name).toOption = some path →
        Path.ofSourceId rules.root name = .ok path := by
      intro name isPath
      cases found : Path.ofSourceId rules.root name with
      | error _ =>
          rw [found] at isPath
          cases isPath
      | ok other =>
          rw [found] at isPath
          exact congrArg Except.ok (Option.some.inj isPath)
    cases event with
    | line name line =>
        show Shadows rules path source (met || true) (hit || true) _ _
        rw [Recording.onTraced, Recording.onTraced, onSource, onSource, ruled, ruled', named here,
          Bool.or_true, Bool.or_true]
        exact shadows.onHit ruled ruled' (fun isUnmet => unreadable isUnmet rfl) readable line .line
    | hit file line block =>
        obtain rfl : file = path := Option.some.inj here
        show Shadows rules file source (met || true) (hit || true) _ _
        rw [Bool.or_true, Bool.or_true]
        exact shadows.onHit ruled ruled' (fun isUnmet => unreadable isUnmet rfl) readable line
          (.block block)
    | call name line =>
        rw [Recording.onTraced, Recording.onTraced, onSource, onSource, ruled, ruled', named here,
          Event.isHit, Bool.or_false]
        simp only
        rw [onHookedCall_eq, onHookedCall_eq]
        refine (shadows.onCall ruled ruled' (fun isUnmet started => unreadable isUnmet ?_)
          readable).attempted (fun _ => rfl) _ _
        exact bne_iff_ne.mpr started
    | enter file line =>
        obtain rfl : file = path := Option.some.inj here
        rw [Event.isHit, Bool.or_false]
        exact shadows.onCall ruled ruled' (fun isUnmet started =>
          unreadable isUnmet (bne_iff_ne.mpr started)) readable
  · have elsewhere : (event.file? rules.root == some path) = false :=
      beq_eq_false_iff_ne.mpr here
    rw [Event.meets, Event.hits, elsewhere, Bool.false_and, Bool.false_and, Bool.or_false,
      Bool.or_false]
    exact shadows.of_part (late.part_onTraced sources (ruled ▸ here))
      (early.part_onTraced sources' (ruled' ▸ here))

/-- **Covering a line** of any file. -/
theorem Shadows.cover (shadows : Shadows rules path source met hit late early) (other : String)
    (line : Nat) :
    Shadows rules path source met hit (late.withStore (late.store.cover other line).1)
      (early.withStore (early.store.cover other line).1) := by
  have parts : ∀ {recording : Recording} {known : Option FileRecord} {rest},
      recording.part path = (known, rest) →
        (recording.withStore (recording.store.cover other line).1).part path =
          (if other = path then known.map fun file => (file.cover line).getD file else known,
            rest) := by
    rintro recording _ _ ⟨⟩
    have changes : (StoreOperation.cover other line).changeAt path =
        if other = path then some (.cover line) else none := rfl
    refine Prod.ext ?_ rfl
    refine (CoverageStore.getElem?_apply recording.store (.cover other line) path).trans ?_
    rw [changes]
    by_cases here : other = path
    · rw [if_pos here, if_pos here]
      cases recording.store.files[path]? <;> rfl
    · rw [if_neg here, if_neg here]
  by_cases here : other = path
  · simp only [if_pos here] at parts
    cases shadows with
    | unmet part part' isUnmet unhit => exact .unmet (parts part) (parts part') isUnmet unhit
    | excluded part part' unwanted => exact .excluded (parts part) (parts part') unwanted
    | tracked guess known part part' guesses recorded =>
        refine .tracked _ _ (parts part) (parts part') (guesses.cover line) fun isHit => ?_
        obtain ⟨seen, inside⟩ := recorded isHit
        obtain ⟨record, found⟩ := mem_map_iff.mp inside
        refine ⟨seen, mem_map_iff.mpr ?_⟩
        rw [FileRecord.getElem?_lines_cover, found]
        split <;> exact ⟨_, rfl⟩
  · simp only [if_neg here] at parts
    exact shadows.of_part (parts rfl) (parts rfl)

/-- **An assertion.** -/
theorem Shadows.linkFrames (shadows : Shadows rules path source met hit late early)
    (targets : List (Option (String × Nat))) :
    Shadows rules path source met hit (late.withStore (late.store.linkFrames targets).1)
      (early.withStore (early.store.linkFrames targets).1) := by
  rw [CoverageStore.linkFrames_store, CoverageStore.linkFrames_store]
  induction targets generalizing late early with
  | nil => exact shadows
  | cons target rest ih =>
      cases target with
      | none => exact ih shadows
      | some place => exact ih (shadows.cover place.1 place.2)

end Steps

end Recording

/-! ## Runs -/

namespace ScriptEntry

/-- Whether an entry of a script reports that some line of a file ran. -/
def hits (root path : String) : ScriptEntry → Bool
  | .report event => event.hits root path
  | _ => false

/-- Whether an entry of a script brings up a file. -/
def meets (root path : String) : ScriptEntry → Bool
  | .report event => event.meets root path
  | _ => false

end ScriptEntry

/-- The same moment with a source that can be read. -/
def Moment.reading (path source : String) (moment : Moment) : Moment :=
  { moment with sources := moment.sources.insert path source }

namespace Session

/-- Two sessions in the middle of a traced run, of which one could not read a source that the other
could read. -/
structure Shadows (rules : TrackingRules) (path source : String) (met hit : Bool)
    (late early : Session) : Prop where
  traced : late.observer = .trace
  traced' : early.observer = .trace
  running : late.running = true
  running' : early.running = true
  ruled : late.recording.rules = rules
  ruled' : early.recording.rules = rules
  recording : late.recording.Shadows rules path source met hit early.recording

section Steps

variable {rules : TrackingRules} {path source : String} {met hit : Bool} {late early : Session}
  {sources sources' : PathMap String}

theorem Shadows.observe (shadows : Shadows rules path source met hit late early) {event : Event}
    (unreadable : met = false → event.meets rules.root path = true → sources[path]? = none)
    (readable : sources'[path]? = some source) :
    Shadows rules path source (met || event.meets rules.root path)
      (hit || event.hits rules.root path) (late.observe sources event)
      (early.observe sources' event) := by
  obtain ⟨observer, lateRecording, running⟩ := late
  obtain ⟨observer', earlyRecording, running'⟩ := early
  obtain ⟨rfl, rfl, rfl, rfl, rfl, ruled', recording⟩ := shadows
  refine ⟨rfl, rfl, rfl, rfl, (lateRecording.onTraced_frame sources event).1,
    (earlyRecording.onTraced_frame sources' event).1.trans ruled', ?_⟩
  exact recording.onTraced rfl ruled' unreadable readable

theorem Shadows.link (shadows : Shadows rules path source met hit late early)
    (frames : List Frame) :
    Shadows rules path source met hit (late.link frames).1 (early.link frames).1 := by
  have targets : early.target? = late.target? := by
    funext frame
    rw [target?, target?, frameFile?, frameFile?, shadows.traced, shadows.traced', shadows.ruled,
      shadows.ruled']
  refine { shadows with recording := ?_ }
  show Recording.Shadows rules path source met hit _
    (early.recording.withStore (early.recording.store.linkFrames (frames.map early.target?)).1)
  rw [targets]
  exact shadows.recording.linkFrames _

/-- **An entry of a script** keeps the two runs side by side. -/
theorem Shadows.replayEntry (shadows : Shadows rules path source met hit late early)
    {entry : ScriptEntry}
    (unreadable : met = false → entry.meets rules.root path = true → sources[path]? = none)
    (readable : sources'[path]? = some source) :
    Shadows rules path source (met || entry.meets rules.root path)
      (hit || entry.hits rules.root path) (late.replayEntry sources entry)
      (early.replayEntry sources' entry) := by
  cases entry with
  | report event => exact shadows.observe unreadable readable
  | load request =>
      show Shadows rules path source (met || false) (hit || false) _ _
      rw [Session.replayEntry, Session.replayEntry, intercept_of_trace shadows.traced,
        intercept_of_trace shadows.traced', Bool.or_false, Bool.or_false]
      exact shadows
  | assertion frames =>
      show Shadows rules path source (met || false) (hit || false) _ _
      rw [Bool.or_false, Bool.or_false]
      exact shadows.link frames

end Steps

/-- **A run** in which a source cannot be read when its file first comes up, beside the run in which
it could be read all along. -/
theorem shadows_through {session : Session} (traced : session.observer = .trace)
    (path source : String) (moments : List Moment)
    (unreadable : ((moments.find? fun moment =>
      moment.entry.meets session.recording.rules.root path).bind fun moment =>
        moment.sources[path]?) = none) :
    Shadows session.recording.rules path source
      (moments.any fun moment => moment.entry.meets session.recording.rules.root path)
      (moments.any fun moment => moment.entry.hits session.recording.rules.root path)
      (session.through moments) (session.through (moments.map (Moment.reading path source))) := by
  induction moments using List.reverseRecOn with
  | nil =>
      have started : session.start.1.observer = .trace := by
        rw [start, traced]
        rfl
      exact ⟨started, started, rfl, rfl, rfl, rfl, .unmet rfl rfl rfl rfl⟩
  | append_singleton moments moment ih =>
      rw [List.find?_append] at unreadable
      have before : ((moments.find? fun moment =>
          moment.entry.meets session.recording.rules.root path).bind fun moment =>
            moment.sources[path]?) = none := by
        cases first : moments.find? fun moment =>
            moment.entry.meets session.recording.rules.root path with
        | none => rfl
        | some met =>
            rw [first, Option.some_or] at unreadable
            exact unreadable
      rw [through, through, List.map_append, along_append, along_append, List.any_append,
        List.any_append, List.any_cons, List.any_cons, List.any_nil, List.any_nil, Bool.or_false,
        Bool.or_false]
      refine (ih before).replayEntry (fun isUnmet meets => ?_) Std.ExtTreeMap.getElem?_insert_self
      have first : (moments.find? fun moment =>
          moment.entry.meets session.recording.rules.root path) = none := by
        rw [List.find?_eq_none]
        exact List.any_eq_false.mp isUnmet
      have found : [moment].find? (fun moment =>
          moment.entry.meets session.recording.rules.root path) = some moment :=
        List.find?_cons_of_pos meets
      rw [first, Option.none_or, found] at unreadable
      exact unreadable

section Stop

variable {session : Session} {path source : String} {guess known : FileRecord} {analysis : Analysis}

/-- A file that waits for its source is analyzed at the end of the run. -/
theorem part_analyzeProvisional_guess (final : PathMap String)
    (readable : final[path]? = some source)
    (isAnalysis : analysis = analyze session.recording.rules.settings source path)
    (part : session.recording.part path = (some guess, some true, none))
    (guesses : guess.Guesses known analysis) (recorded : ∃ line, line ∈ guess.lines) :
    (session.recording.analyzeProvisional final).part path =
      (some (guess.register source analysis), some true, some analysis) := by
  have stored : session.recording.store.files[path]? = some guess := congrArg Prod.fst part
  have unanalyzed : session.recording.analyses.contains path = false := by
    rw [Std.ExtTreeMap.contains_eq_isSome_getElem?,
      show session.recording.analyses[path]? = none from congrArg (·.2.2) part]
    rfl
  have provisional : guess.isProvisional = true := by
    obtain ⟨line, inside⟩ := recorded
    obtain ⟨record, found⟩ := mem_map_iff.mp inside
    exact any_eq_true_iff.mpr ⟨line, record, found, (guesses.guesses line record found).provisional⟩
  rw [Recording.part_analyzeProvisional, stored, Option.any_some, guesses.active, provisional,
    Bool.and_self, if_pos rfl, Recording.analyzeLate, unanalyzed, if_neg Bool.false_ne_true,
    readable,
    Recording.part_adopt, CoverageStore.fileOrEmpty, stored, Option.getD_some, ← isAnalysis]

/-- A file with an analysis is not analyzed late. -/
theorem part_analyzeProvisional_known (final : PathMap String)
    (part : session.recording.part path = (some known, some true, some analysis)) :
    (session.recording.analyzeProvisional final).part path =
      (some known, some true, some analysis) := by
  have analyzed : path ∈ session.recording.analyses := by
    rw [Std.ExtTreeMap.mem_iff_isSome_getElem?,
      show session.recording.analyses[path]? = some analysis from congrArg (·.2.2) part]
    rfl
  rw [Recording.part_analyzeProvisional, Recording.part_analyzeLate fun _ => analyzed, ite_self,
    part]

end Stop

/-- Stopping a run brings the line records of a file to where its analysis says, whether it had the
analysis before or gets it now. -/
theorem getElem?_lines_stop {session : Session} (sources : PathMap String) {path : String}
    {file : FileRecord} {decision : Option Bool} {analysis : Analysis}
    (part : (session.recording.analyzeProvisional sources).part path =
      (some file, decision, some analysis)) :
    ∃ stopped, (session.stop sources).1.store.files[path]? = some stopped ∧ ∀ line : Nat,
      stopped.lines[line]? = (file.lines[line]?).map fun record =>
        FileRecord.enforceLine (record.reclassify (analysis.classification? line)) := by
  have stored : (session.recording.analyzeProvisional sources).store.files[path]? = some file :=
    congrArg Prod.fst part
  have known : (session.recording.analyzeProvisional sources).analyses[path]? = some analysis :=
    congrArg (·.2.2) part
  refine ⟨_, by rw [getElem?_files_stop, stored, Option.map_some], fun line => ?_⟩
  rw [Recording.getElem?_lines_settled, known]
  rfl

/-- A file that is excluded has no lines, before a run is stopped and after. -/
theorem getElem?_stop_excluded {session : Session} (sources : PathMap String) {path : String}
    (part : session.recording.part path = (some { path := path }, some false, none)) :
    ∃ stopped, (session.stop sources).1.store.files[path]? = some stopped ∧
      ∀ line : Nat, stopped.lines[line]? = none := by
  have same : (session.recording.analyzeProvisional sources).part path =
      (some { path := path }, some false, none) := by
    rw [Recording.part_analyzeProvisional, show session.recording.store.files[path]? =
      some ({ path := path } : FileRecord) from congrArg Prod.fst part, Option.any_some,
      Bool.false_and, if_neg Bool.false_ne_true, part]
  have stored : (session.recording.analyzeProvisional sources).store.files[path]? =
      some { path := path } := congrArg Prod.fst same
  refine ⟨_, by rw [getElem?_files_stop, stored, Option.map_some], fun line => ?_⟩
  rw [Recording.getElem?_lines_settled]
  exact Option.map_eq_none_iff.mpr Std.ExtTreeMap.getElem?_empty

/-- **A source that comes late makes no difference.** A file came up in a traced run while its
source could not be read, some line of it was hit, and its source can be read when the run is
stopped. Then its lines have the records that they have after the same run with the source readable
all along, whatever else was reported, loaded or asserted, and whatever became of other sources.
Records outside the source show nothing, and the totals are the same. -/
theorem lines_of_late_source (session : Session) (traced : session.observer = .trace)
    (path source : String) (moments : List Moment) (final : PathMap String)
    (readable : final[path]? = some source)
    (unreadable : ((moments.find? fun moment =>
      moment.entry.meets session.recording.rules.root path).bind fun moment =>
        moment.sources[path]?) = none)
    (hit : (moments.any fun moment =>
      moment.entry.hits session.recording.rules.root path) = true) :
    let late := ((session.through moments).stop final).1.store
    let early := ((session.through (moments.map (Moment.reading path source))).stop final).1.store
    let length := (Text.lines source).length
    ∃ file other : FileRecord, late.files[path]? = some file ∧ early.files[path]? = some other ∧
      (∀ line : Nat, 1 ≤ line → line ≤ length → file.lines[line]? = other.lines[line]?) ∧
      (session.recording.rules.filter.rule path = true →
        ∀ line : Nat, 1 ≤ line → line ≤ length → line ∈ file.lines) ∧
      (∀ (line : Nat) (record : LineRecord), file.lines[line]? = some record →
        ¬ (1 ≤ line ∧ line ≤ length) → record = .outside) ∧
      file.summary.executableLines = other.summary.executableLines ∧
      file.summary.executedLines = other.summary.executedLines ∧
      file.summary.coveredLines = other.summary.coveredLines := by
  intro late early length
  obtain ⟨-, -, -, -, ruled, ruled', shadows⟩ :=
    shadows_through traced path source moments unreadable
  rw [hit] at shadows
  cases shadows with
  | unmet _ _ _ unhit => cases unhit
  | excluded part part' unwanted =>
      obtain ⟨file, stopped, empty⟩ := getElem?_stop_excluded final part
      obtain ⟨other, stopped', empty'⟩ := getElem?_stop_excluded final part'
      refine ⟨file, other, stopped, stopped', fun line _ _ => ?_, fun wanted => ?_,
        fun line record found => ?_, FileRecord.summary_congr fun line => ?_⟩
      · rw [empty, empty']
      · cases unwanted.symm.trans wanted
      · cases (empty line).symm.trans found
      · rw [empty, empty']
  | tracked guess known part part' guesses recorded =>
      obtain ⟨file, stopped, lines⟩ := getElem?_lines_stop final
        (part_analyzeProvisional_guess final readable (by rw [ruled]) part guesses (recorded rfl))
      obtain ⟨other, stopped', lines'⟩ := getElem?_lines_stop final
        (part_analyzeProvisional_known final part')
      have settled := guesses.lines_settled source lines lines'
      rw [length_lines_analyze] at settled
      refine ⟨file, other, stopped, stopped', fun line first last => ?_,
        fun _ line first last => ?_, fun line record found outside => ?_,
        FileRecord.summary_congr fun line => ?_⟩
      · rcases settled line with ⟨-, -, -, same⟩ | ⟨outside, -⟩
        · exact same
        · exact absurd ⟨first, last⟩ outside
      · rcases settled line with ⟨-, -, inside, -⟩ | ⟨outside, -⟩
        · exact inside
        · exact absurd ⟨first, last⟩ outside
      · rcases settled line with ⟨first, last, -⟩ | ⟨-, -, isOutside⟩
        · exact absurd ⟨first, last⟩ outside
        · exact isOutside record found
      · rcases settled line with ⟨-, -, -, same⟩ | ⟨-, empty, isOutside⟩
        · rw [same]
        · rw [empty]
          cases found : file.lines[line]? with
          | none => rfl
          | some record => rw [isOutside record found]; rfl

/-- Hits on code, on a comment, behind the source and on line 0, and an assertion on the first two
of these lines, all before the source could be read. -/
theorem lines_of_late_source_guesses :
    let path := "/p/a.lua"
    let source := "x = 1\n-- note\ny = 2\n"
    let session : Session :=
      { observer := .trace
        recording := { rules :=
          { root := "/p", filter := { root := "/p", included := [], excluded := [] }
            settings := ⟨.nonExecutable, 1000⟩ } } }
    let moments : List Moment :=
      [⟨∅, .report (.line "@a.lua" 1)⟩, ⟨∅, .report (.hit path 2 BlockId.root)⟩,
       ⟨∅, .report (.line "@a.lua" 9)⟩, ⟨∅, .report (.line "@a.lua" 0)⟩,
       ⟨∅, .assertion [⟨"@a.lua", 1⟩, ⟨"@a.lua", 2⟩]⟩]
    let final : PathMap String := .ofList [(path, source)]
    let late := ((session.through moments).stop final).1.store
    let early := ((session.through (moments.map (Moment.reading path source))).stop final).1.store
    session.observer = .trace ∧ final[path]? = some source ∧
      ((moments.find? fun moment => moment.entry.meets "/p" path).bind fun moment =>
        moment.sources[path]?) = none ∧
      (moments.any fun moment => moment.entry.hits "/p" path) = true ∧
      (∃ file other : FileRecord, late.files[path]? = some file ∧ early.files[path]? = some other ∧
        ∀ line : Nat, 1 ≤ line → line ≤ 3 → file.lines[line]? = other.lines[line]?) ∧
      (late.line? path 1).map LineRecord.covered = some true ∧
      (late.line? path 2).map LineRecord.covered = some false ∧
      late.line? path 9 = some .outside ∧ early.line? path 9 = none := by
  intro path source session moments final late early
  have readable : final[path]? = some source := by decide +kernel
  have unreadable : ((moments.find? fun moment => moment.entry.meets "/p" path).bind fun moment =>
      moment.sources[path]?) = none := by decide +kernel
  have hit : (moments.any fun moment => moment.entry.hits "/p" path) = true := by decide +kernel
  have length : (Text.lines source).length = 3 := by decide +kernel
  obtain ⟨file, other, stopped, stopped', same, -⟩ :=
    lines_of_late_source session rfl path source moments final readable unreadable hit
  rw [length] at same
  exact ⟨rfl, readable, unreadable, hit, ⟨file, other, stopped, stopped', same⟩,
    by decide +kernel, by decide +kernel, by decide +kernel, by decide +kernel⟩

end Session

end LuaCoverage
