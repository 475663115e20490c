import LuaCoverage.Instrument.Transform
import LuaCoverage.Proofs.OrderedMap

/-!
# Chosen places and their sites

A place gets a call if its line can run and no place before it reports the same (`mem_chosen_iff`).
The line that a chosen place begins on is reported by its own site, and a line on which none begins
by the site whose place spans it most closely (`exists_owner_of_continues`). The search for that
site finds one whenever there is one to find (`closest_isSome`), so the lines that sites account for
are exactly those lines that can run and lie in the span of a chosen place (`mem_hitLines_chosen`).

No two sites report the same line and block, and no site lists a line twice or its own line among
its continuations (`isProper_transform`). So a report tells which site it came from. Every line that
a site reports or lists can run (`fits_instrumentWith`).
-/

set_option autoImplicit false

namespace LuaCoverage.Instrument

/-! ## Without repeats -/

theorem withoutRepeats_sublist (earlier places : List Candidate) :
    (withoutRepeats earlier places).Sublist places := by
  induction places generalizing earlier with
  | nil => exact List.Sublist.refl _
  | cons place rest ih =>
      rw [withoutRepeats]
      split
      · exact (ih earlier).cons place
      · exact (ih _).cons_cons place

theorem chosen_sublist (analysis : Analysis) : (chosen analysis).Sublist (candidates analysis) :=
  (withoutRepeats_sublist _ _).trans List.filter_sublist

/-- The places that calls go to: conditions, and behind them statements. -/
theorem exists_chosen (analysis : Analysis) :
    ∃ conditions statements, chosen analysis = conditions ++ statements ∧
      (∀ place ∈ conditions, ∃ condition ∈ analysis.conditions,
        place.placement = .condition condition.startByte condition.endByte) ∧
      ∀ place ∈ statements, ∃ start ∈ analysis.statements,
        place.placement = .statement start.byte ∧ place.line = start.line := by
  obtain ⟨conditions, statements, isChosen, fromConditions, fromStatements⟩ :=
    List.sublist_append_iff.mp (chosen_sublist analysis)
  refine ⟨conditions, statements, isChosen, fun place member => ?_, fun place member => ?_⟩
  · obtain ⟨condition, isCondition, rfl⟩ := List.mem_map.mp (fromConditions.subset member)
    exact ⟨condition, isCondition, rfl⟩
  · obtain ⟨start, isStart, rfl⟩ := List.mem_map.mp (fromStatements.subset member)
    exact ⟨start, isStart, rfl, rfl⟩

/-- Every place is a site. -/
theorem exists_site (analysis : Analysis) {places : List Candidate} {place : Candidate}
    (member : place ∈ places) :
    ∃ site ∈ sites analysis places, site.line = place.line ∧ site.block = place.block := by
  obtain ⟨index, inside, rfl⟩ := List.getElem_of_mem member
  refine ⟨_, List.mem_map.mpr ⟨(places[index], index), ?_, rfl⟩, rfl, rfl⟩
  exact List.mem_zipIdx_iff_getElem?.mpr (List.getElem?_eq_getElem inside)

/-- Whether calls at two places report the same. -/
def ReportsSame (first second : Candidate) : Prop :=
  first.line = second.line ∧ first.block = second.block

/-- A place is kept if it repeats neither an earlier one nor one before it. -/
theorem mem_withoutRepeats_iff {place : Candidate} {earlier places : List Candidate} :
    place ∈ withoutRepeats earlier places ↔ ∃ front back, places = front ++ place :: back ∧
      ∀ other ∈ earlier ++ front, ¬ ReportsSame other place := by
  induction places generalizing earlier with
  | nil => simp [withoutRepeats]
  | cons first rest ih =>
      rw [withoutRepeats]
      have isRepeat : (earlier.any fun other =>
          other.line == first.line && other.block == first.block) = true ↔
          ∃ other ∈ earlier, ReportsSame other first := by
        simp [ReportsSame]
      split
      · rename_i repeats
        obtain ⟨other, isEarlier, same⟩ := isRepeat.mp repeats
        rw [ih]
        constructor
        · rintro ⟨front, back, rfl, news⟩
          refine ⟨first :: front, back, rfl, fun item member => ?_⟩
          rcases List.mem_append.mp member with inEarlier | inFront
          · exact news item (List.mem_append_left _ inEarlier)
          rcases List.mem_cons.mp inFront with rfl | inFront
          · intro same'
            exact news other (List.mem_append_left _ isEarlier)
              ⟨same.1.trans same'.1, same.2.trans same'.2⟩
          · exact news item (List.mem_append_right _ inFront)
        · rintro ⟨front, back, split, news⟩
          cases front with
          | nil =>
              obtain ⟨rfl, rfl⟩ := List.cons.inj split
              exact absurd same (news other (List.mem_append_left _ isEarlier))
          | cons head front =>
              obtain ⟨rfl, rfl⟩ := List.cons.inj split
              refine ⟨front, back, rfl, fun item member => news item ?_⟩
              rcases List.mem_append.mp member with inEarlier | inFront
              · exact List.mem_append_left _ inEarlier
              · exact List.mem_append_right _ (List.mem_cons_of_mem _ inFront)
      · rename_i notRepeat
        rw [List.mem_cons, ih]
        constructor
        · rintro (rfl | ⟨front, back, rfl, news⟩)
          · refine ⟨[], rest, rfl, fun other member same => ?_⟩
            rw [List.append_nil] at member
            exact notRepeat (isRepeat.mpr ⟨other, member, same⟩)
          · refine ⟨first :: front, back, rfl, fun item member => news item ?_⟩
            rcases List.mem_append.mp member with inEarlier | inFront
            · exact List.mem_append_left _ (List.mem_cons_of_mem _ inEarlier)
            rcases List.mem_cons.mp inFront with rfl | inFront
            · exact List.mem_append_left _ List.mem_cons_self
            · exact List.mem_append_right _ inFront
        · rintro ⟨front, back, split, news⟩
          cases front with
          | nil => exact .inl (List.cons.inj split).1.symm
          | cons head front =>
              obtain ⟨rfl, rfl⟩ := List.cons.inj split
              refine .inr ⟨front, back, rfl, fun item member => news item ?_⟩
              rcases List.mem_append.mp member with inEarlier | inFront
              · rcases List.mem_cons.mp inEarlier with rfl | inEarlier
                · exact List.mem_append_right _ List.mem_cons_self
                · exact List.mem_append_left _ inEarlier
              · exact List.mem_append_right _ (List.mem_cons_of_mem _ inFront)

/-- No two of the places that are kept report the same. -/
theorem pairwise_withoutRepeats (earlier places : List Candidate) :
    (withoutRepeats earlier places).Pairwise fun first later => ¬ ReportsSame first later := by
  induction places generalizing earlier with
  | nil => exact .nil
  | cons first rest ih =>
      rw [withoutRepeats]
      split
      · exact ih earlier
      · refine List.pairwise_cons.mpr ⟨fun later member => ?_, ih _⟩
        obtain ⟨front, back, -, news⟩ := mem_withoutRepeats_iff.mp member
        exact news first (List.mem_append_left _ List.mem_cons_self)

/-- **A place gets a call if its line can run and no place before it reports the same.** -/
theorem mem_chosen_iff {analysis : Analysis} {place : Candidate} :
    place ∈ chosen analysis ↔ analysis.isExecutable place.line = true ∧
      ∃ front back, candidates analysis = front ++ place :: back ∧
        ∀ other ∈ front, ¬ ReportsSame other place := by
  rw [chosen, mem_withoutRepeats_iff]
  constructor
  · rintro ⟨front, back, split, news⟩
    obtain ⟨before, later, isAll, rfl, isLater⟩ := List.filter_eq_append_iff.mp split
    obtain ⟨between, after, rfl, skipped, runs, -⟩ := List.filter_eq_cons_iff.mp isLater
    refine ⟨runs, before ++ between, after, by rw [isAll, List.append_assoc], ?_⟩
    intro other member
    rcases List.mem_append.mp member with isBefore | isBetween
    · intro same
      refine news other (List.mem_filter.mpr ⟨isBefore, ?_⟩) same
      rw [same.1]
      exact runs
    · intro same
      refine skipped other isBetween ?_
      rw [same.1]
      exact runs
  · rintro ⟨runs, front, back, split, news⟩
    refine ⟨front.filter fun candidate => analysis.isExecutable candidate.line,
      back.filter fun candidate => analysis.isExecutable candidate.line, ?_, fun other member => ?_⟩
    · simp only [split, List.filter_append, List.filter_cons, runs, if_true]
    · exact news other (List.mem_filter.mp member).1

/-! ## The site of a continuation line -/

/-- The search takes a place if it spans the line on no more lines than the best before, and passes
over one that spans the line only if the best before is shorter. -/
theorem closest_cons (line : Nat) (first : Candidate) (rest : List Candidate) (index : Nat)
    (best : Option (Nat × Nat)) :
    (spans first line = true ∧ (∀ known ∈ best, first.endLine - first.line ≤ known.1) ∧
        closest line (first :: rest) index best =
          closest line rest (index + 1) (some (first.endLine - first.line, index))) ∨
      ((spans first line = true → ∃ known ∈ best, known.1 < first.endLine - first.line) ∧
        closest line (first :: rest) index best = closest line rest (index + 1) best) := by
  cases inside : spans first line with
  | false => exact .inr ⟨nofun, by simp [closest, inside]⟩
  | true =>
      cases best with
      | none => exact .inl ⟨rfl, nofun, by simp [closest, inside]⟩
      | some known =>
          obtain ⟨least, number⟩ := known
          by_cases isCloser : first.endLine - first.line ≤ least
          · refine .inl ⟨rfl, ?_, by simp [closest, inside, isCloser]⟩
            exact fun _ isBest => Option.some.inj isBest ▸ isCloser
          · exact .inr ⟨fun _ => ⟨_, rfl, Nat.lt_of_not_le isCloser⟩,
              by simp [closest, inside, isCloser]⟩

/-- Whether a place, among those in front of it and behind it, spans a line most closely: on no more
lines than those in front, and on fewer than those behind. -/
structure IsOwner (line : Nat) (front : List Candidate) (owner : Candidate)
    (back : List Candidate) : Prop where
  spans : spans owner line = true
  atMost : ∀ place ∈ front, Instrument.spans place line = true →
    owner.endLine - owner.line ≤ place.endLine - place.line
  less : ∀ place ∈ back, Instrument.spans place line = true →
    owner.endLine - owner.line < place.endLine - place.line

/-- **The search finds the place that spans the line most closely**, unless the best before is
shorter than all. -/
theorem closest_eq_some {line : Nat} {places : List Candidate} {index found : Nat}
    {best : Option (Nat × Nat)} (isFound : closest line places index best = some found) :
    (∃ known ∈ best, known.2 = found ∧
        ∀ place ∈ places, spans place line = true → known.1 < place.endLine - place.line) ∨
      ∃ front owner back, places = front ++ owner :: back ∧ found = index + front.length ∧
        IsOwner line front owner back ∧
        ∀ known ∈ best, owner.endLine - owner.line ≤ known.1 := by
  induction places generalizing index best with
  | nil =>
      obtain ⟨known, isBest, same⟩ := Option.map_eq_some_iff.mp isFound
      exact .inl ⟨known, isBest, same, fun _ none => absurd none List.not_mem_nil⟩
  | cons first rest ih =>
      rcases closest_cons line first rest index best with ⟨inside, closer, step⟩ | ⟨passed, step⟩
      · rcases ih (step.symm.trans isFound) with
          ⟨known, isBest, same, longer⟩ | ⟨front, owner, back, rfl, isNumber, isOwner, least⟩
        · obtain rfl := Option.some.inj isBest
          exact .inr ⟨[], first, rest, rfl, same.symm,
            ⟨inside, fun _ none => absurd none List.not_mem_nil, longer⟩, closer⟩
        · have bound := least _ rfl
          refine .inr ⟨first :: front, owner, back, rfl, ?_,
            ⟨isOwner.spans, List.forall_mem_cons.mpr ⟨fun _ => bound, isOwner.atMost⟩,
              isOwner.less⟩, fun known isBest => Nat.le_trans bound (closer known isBest)⟩
          rw [isNumber, List.length_cons]
          omega
      · rcases ih (step.symm.trans isFound) with
          ⟨known, isBest, same, longer⟩ | ⟨front, owner, back, rfl, isNumber, isOwner, least⟩
        · refine .inl ⟨known, isBest, same, List.forall_mem_cons.mpr ⟨fun inside => ?_, longer⟩⟩
          obtain ⟨known', isBest', less⟩ := passed inside
          obtain rfl := Option.some.inj (isBest.symm.trans isBest')
          exact less
        · refine .inr ⟨first :: front, owner, back, rfl, ?_, ⟨isOwner.spans,
            List.forall_mem_cons.mpr ⟨fun inside => ?_, isOwner.atMost⟩, isOwner.less⟩, least⟩
          · rw [isNumber, List.length_cons]
            omega
          · obtain ⟨known, isBest, less⟩ := passed inside
            exact Nat.le_trans (least known isBest) (Nat.le_of_lt less)

/-- **The search finds a place if one spans the line.** -/
theorem closest_isSome {line : Nat} {places : List Candidate} {index : Nat}
    {best : Option (Nat × Nat)}
    (spanned : best.isSome = true ∨ ∃ place ∈ places, spans place line = true) :
    (closest line places index best).isSome = true := by
  induction places generalizing index best with
  | nil =>
      rcases spanned with before | ⟨place, none, -⟩
      · rwa [closest, Option.isSome_map]
      · exact absurd none List.not_mem_nil
  | cons first rest ih =>
      rcases closest_cons line first rest index best with ⟨-, -, step⟩ | ⟨passed, step⟩
      · rw [step]
        exact ih (.inl rfl)
      · rw [step]
        rcases spanned with before | ⟨place, member, inside⟩
        · exact ih (.inl before)
        rcases List.mem_cons.mp member with rfl | member
        · obtain ⟨known, isBest, -⟩ := passed inside
          exact ih (.inl (Option.isSome_iff_exists.mpr ⟨known, isBest⟩))
        · exact ih (.inr ⟨place, member, inside⟩)

/-- What a search from the start finds. -/
theorem exists_owner_of_closest {line found : Nat} {places : List Candidate}
    (isFound : closest line places 0 none = some found) :
    ∃ front owner back, places = front ++ owner :: back ∧ found = front.length ∧
      IsOwner line front owner back := by
  rcases closest_eq_some isFound with
    ⟨_, none, -⟩ | ⟨front, owner, back, split, isNumber, isOwner, -⟩
  · cases none
  · exact ⟨front, owner, back, split, isNumber.trans (Nat.zero_add _), isOwner⟩

theorem mem_uncovered_iff {analysis : Analysis} {places : List Candidate} {line : Nat} :
    line ∈ uncovered analysis places ↔
      analysis.isExecutable line = true ∧ ∀ place ∈ places, place.line ≠ line := by
  rw [uncovered, List.mem_filter, Std.ExtTreeSet.mem_toList, Analysis.isExecutable,
    Std.ExtTreeSet.mem_iff_contains]
  simp

/-! ## The lines that sites account for -/

theorem mem_hitLines_iff {found : List Site} {line : Nat} :
    line ∈ hitLines found ↔ ∃ site ∈ found, line = site.line ∨ line ∈ site.continuation := by
  suffices general : ∀ set : LineSet,
      line ∈ found.foldl (fun lines site => site.continuation.foldl
          (fun set line => set.insert line) (lines.insert site.line)) set ↔
        line ∈ set ∨ ∃ site ∈ found, line = site.line ∨ line ∈ site.continuation by
    refine (general ∅).trans (or_iff_right ?_)
    exact Std.ExtTreeSet.not_mem_empty
  induction found with
  | nil => simp
  | cons first rest ih =>
      intro set
      rw [List.foldl_cons, ih, mem_foldl_insert, Std.ExtTreeSet.mem_insert,
        Std.LawfulEqCmp.compare_eq_iff_eq]
      constructor
      · rintro (((isLine | before) | continues) | ⟨site, member, accounts⟩)
        · exact .inr ⟨first, List.mem_cons_self, .inl isLine.symm⟩
        · exact .inl before
        · exact .inr ⟨first, List.mem_cons_self, .inr continues⟩
        · exact .inr ⟨site, List.mem_cons_of_mem _ member, accounts⟩
      · rintro (before | ⟨site, member, accounts⟩)
        · exact .inl (.inl (.inr before))
        rcases List.mem_cons.mp member with rfl | member
        · rcases accounts with isLine | continues
          · exact .inl (.inl (.inl isLine.symm))
          · exact .inl (.inr continues)
        · exact .inr ⟨site, member, accounts⟩

/-- **The continuations of a site** are lines without a place that its place spans most closely. -/
theorem exists_owner_of_continues {analysis : Analysis} {places : List Candidate} {site : Site}
    (member : site ∈ sites analysis places) {line : Nat} (continues : line ∈ site.continuation) :
    line ∈ uncovered analysis places ∧ ∃ front owner back, places = front ++ owner :: back ∧
      owner.line = site.line ∧ owner.block = site.block ∧ IsOwner line front owner back := by
  obtain ⟨⟨place, index⟩, isEntry, rfl⟩ := List.mem_map.mp member
  obtain ⟨owned, isOwned, rfl⟩ := List.mem_map.mp continues
  obtain ⟨isOwned, isIndex⟩ := List.mem_filter.mp isOwned
  obtain ⟨line, isUncovered, rfl⟩ := List.mem_map.mp isOwned
  obtain ⟨front, owner, back, rfl, rfl, isOwner⟩ :=
    exists_owner_of_closest (beq_iff_eq.mp isIndex)
  have isPlace := List.mem_zipIdx_iff_getElem?.mp isEntry
  rw [List.getElem?_append_right (Nat.le_refl _), Nat.sub_self] at isPlace
  obtain rfl := Option.some.inj isPlace
  exact ⟨isUncovered, front, owner, back, rfl, rfl, rfl, isOwner⟩

/-- A site accounts for the line of its place and for lines without a place that its place spans. -/
theorem mem_hitLines_sites {analysis : Analysis} {places : List Candidate} {line : Nat} :
    line ∈ hitLines (sites analysis places) ↔ (∃ place ∈ places, place.line = line) ∨
      (line ∈ uncovered analysis places ∧ ∃ place ∈ places, spans place line = true) := by
  rw [mem_hitLines_iff]
  constructor
  · rintro ⟨site, isSite, accounts⟩
    rcases accounts with rfl | continues
    · obtain ⟨⟨place, index⟩, isEntry, rfl⟩ := List.mem_map.mp isSite
      exact .inl ⟨place, List.mem_of_getElem? (List.mem_zipIdx_iff_getElem?.mp isEntry), rfl⟩
    · obtain ⟨isUncovered, front, owner, back, rfl, -, -, isOwner⟩ :=
        exists_owner_of_continues isSite continues
      exact .inr ⟨isUncovered, owner, List.mem_append_right _ List.mem_cons_self, isOwner.spans⟩
  · rintro (⟨place, member, rfl⟩ | ⟨isUncovered, spanned⟩)
    · obtain ⟨site, isSite, isLine, -⟩ := exists_site analysis member
      exact ⟨site, isSite, .inl isLine.symm⟩
    · have isSome : (closest line places 0 none).isSome = true := closest_isSome (.inr spanned)
      obtain ⟨found, isFound⟩ := Option.isSome_iff_exists.mp isSome
      obtain ⟨front, owner, back, rfl, rfl, -⟩ := exists_owner_of_closest isFound
      have isEntry : (owner, front.length) ∈ (front ++ owner :: back).zipIdx := by
        rw [List.mem_zipIdx_iff_getElem?, List.getElem?_append_right (Nat.le_refl _), Nat.sub_self]
        rfl
      refine ⟨_, List.mem_map.mpr ⟨(owner, front.length), isEntry, rfl⟩,
        .inr (List.mem_map.mpr ⟨(line, some front.length), List.mem_filter.mpr ⟨?_, ?_⟩, rfl⟩)⟩
      · exact List.mem_map.mpr ⟨line, isUncovered, by rw [isFound]⟩
      · exact beq_self_eq_true _

/-- **The lines that sites account for are those that can run and lie in the span of a chosen
place.** -/
theorem mem_hitLines_chosen {analysis : Analysis}
    (ordered : ∀ place ∈ candidates analysis, place.line ≤ place.endLine) {line : Nat} :
    line ∈ hitLines (sites analysis (chosen analysis)) ↔
      analysis.isExecutable line = true ∧ ∃ place ∈ chosen analysis, spans place line = true := by
  rw [mem_hitLines_sites, mem_uncovered_iff]
  constructor
  · rintro (⟨place, member, rfl⟩ | ⟨⟨runs, -⟩, spanned⟩)
    · obtain ⟨runs, front, back, split, -⟩ := mem_chosen_iff.mp member
      have isCandidate : place ∈ candidates analysis := by
        rw [split]
        exact List.mem_append_right _ List.mem_cons_self
      refine ⟨runs, place, member, ?_⟩
      rw [spans, Bool.and_eq_true, decide_eq_true_iff, decide_eq_true_iff]
      exact ⟨Nat.le_refl _, ordered place isCandidate⟩
    · exact ⟨runs, spanned⟩
  · rintro ⟨runs, spanned⟩
    by_cases starts : ∃ place ∈ chosen analysis, place.line = line
    · exact .inl starts
    · exact .inr ⟨⟨runs, fun place member isLine => starts ⟨place, member, isLine⟩⟩, spanned⟩

end LuaCoverage.Instrument

namespace LuaCoverage

/-! ## Sites are told apart by what they report -/

/-- No two sites report the same, and none lists a line twice or its own among its continuations. -/
structure Instrumented.IsProper (out : Instrumented) : Prop where
  apart : out.sites.Pairwise fun first later => ¬ (first.line = later.line ∧
    first.block = later.block)
  distinct : ∀ site ∈ out.sites, (site.line :: site.continuation).Nodup

namespace Instrument

theorem nodup_uncovered (analysis : Analysis) (places : List Candidate) :
    (uncovered analysis places).Nodup := by
  refine (analysis.executable.distinct_toList.imp ?_).filter _
  exact fun differs same => differs (Std.LawfulEqCmp.compare_eq_iff_eq.mpr same)

/-- The continuations of a site are lines on which no place lies. -/
theorem continuation_sublist {analysis : Analysis} {places : List Candidate} {site : Site}
    (member : site ∈ sites analysis places) :
    site.continuation.Sublist (uncovered analysis places) ∧ ∃ place ∈ places,
      place.line = site.line := by
  obtain ⟨⟨place, index⟩, isEntry, rfl⟩ := List.mem_map.mp member
  refine ⟨?_, place, List.mem_of_getElem? (List.mem_zipIdx_iff_getElem?.mp isEntry), rfl⟩
  have lines : ((uncovered analysis places).map fun line =>
      (line, closest line places 0 none)).map Prod.fst = uncovered analysis places := by
    rw [List.map_map]
    exact List.map_id _
  have kept := (List.filter_sublist (l := (uncovered analysis places).map fun line =>
    (line, closest line places 0 none)) (p := fun owner => owner.2 == some index)).map Prod.fst
  rw [lines] at kept
  exact kept

/-- **The sites of an instrumented source are told apart** by what they report. -/
theorem isProper_transform (options : InstrumentSettings) (source fileId : String)
    (analysis : Analysis) : (transform options source fileId analysis).IsProper := by
  refine ⟨?_, fun site member => ?_⟩
  · have places : ((chosen analysis).zipIdx.map Prod.fst).Pairwise fun first later =>
        ¬ ReportsSame first later := by
      rw [List.zipIdx_map_fst]
      exact pairwise_withoutRepeats _ _
    exact List.pairwise_map.mpr (List.pairwise_map.mp places)
  · obtain ⟨continuation, place, isPlace, sameLine⟩ := continuation_sublist member
    refine List.nodup_cons.mpr ⟨fun itself => ?_, (nodup_uncovered _ _).sublist continuation⟩
    exact (mem_uncovered_iff.mp (continuation.subset itself)).2 place isPlace sameLine

end Instrument

theorem isProper_instrumentWith {options : InstrumentSettings} {source fileId : String}
    {analysis : Analysis} {out : Instrumented}
    (made : instrumentWith options source fileId analysis = .ok out) : out.IsProper := by
  unfold instrumentWith at made
  split at made
  · cases made
  · split at made
    · obtain rfl := Except.ok.inj made
      exact Instrument.isProper_transform options source fileId analysis
    · cases made

/-- Whether a form of a source tells its sites apart and reports only lines that can run under an
analysis. -/
structure Instrumented.Fits (form : Instrumented) (analysis : Analysis) : Prop where
  proper : form.IsProper
  runs : ∀ site ∈ form.sites, ∀ line : Nat, line = site.line ∨ line ∈ site.continuation →
    analysis.isExecutable line = true

/-- **What is made for an analysis fits it.** -/
theorem fits_instrumentWith {options : InstrumentSettings} {source fileId : String}
    {analysis : Analysis} {form : Instrumented}
    (made : instrumentWith options source fileId analysis = .ok form) : form.Fits analysis := by
  refine ⟨isProper_instrumentWith made, fun site member line accounts => ?_⟩
  unfold instrumentWith at made
  split at made
  · cases made
  split at made
  case isFalse => cases made
  obtain rfl := Except.ok.inj made
  have reported := Instrument.mem_hitLines_iff.mpr ⟨site, member, accounts⟩
  rcases Instrument.mem_hitLines_sites.mp reported with ⟨place, chosen, rfl⟩ | ⟨uncovered, -⟩
  · exact (Instrument.mem_chosen_iff.mp chosen).1
  · exact (Instrument.mem_uncovered_iff.mp uncovered).1

end LuaCoverage
