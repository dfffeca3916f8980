import RouteVolume.Proofs.Session.Surveys
import RouteVolume.Proofs.Survey.Listing

namespace RouteVolume

namespace Written

theorem exists_of_ofWhole {whole : Except Fault (List Piece)}
    (written : (ofWhole whole).fault? = none) : ∃ pieces, whole = .ok pieces := by
  cases whole with
  | error fault => cases written
  | ok pieces => exact ⟨pieces, rfl⟩

theorem parts_of_followedBy {w v : Written} (written : (w.followedBy v).fault? = none) :
    w.fault? = none ∧ v.fault? = none ∧ (w.followedBy v).pieces = w.pieces ++ v.pieces := by
  unfold followedBy at written ⊢
  cases first : w.fault? with
  | some fault =>
    rw [first] at written
    cases first.symm.trans written
  | none =>
    rw [first] at written
    exact ⟨rfl, written, rfl⟩

end Written

theorem Numeral.write_of_le {n : Int} (long : Numeral.bound ≤ n.natAbs) :
    write n = .error .longNumeral := by
  unfold write write?
  rw [if_neg (Nat.not_lt.mpr long)]

theorem Report.count_of_le (colour : Bool) (elapsed : Option Elapsed) {n : Int}
    (long : Numeral.bound ≤ n.natAbs) : count colour n elapsed = .error .longNumeral := by
  unfold count
  rw [Numeral.write_of_le long]
  rfl

namespace Session

def Lists (o : Options) (colour : Bool) (boxes : List Box) (points : Nat) (out : List Piece) :
    Prop :=
  let listing := Report.regions (colour && !o.plain) (o.layout.value?.getD .text) boxes
  listing.fault? = none ∧
    if o.layout = .value .text then
      ∃ numeral, Numeral.write points = .ok numeral ∧ out = listing.pieces ++
        [.text (Report.text ("total: " ++ numeral ++ " across " ++ toString boxes.length ++
          " regions"))]
    else out = listing.pieces

def Counts (o : Options) (colour : Bool) (points : Nat) (outcome : Outcome) : Prop :=
  (points < Numeral.bound → outcome.finish = .code 0 ∧ Report.count (colour && !o.plain) points
    (if o.time then some .pending else none) = .ok outcome.out) ∧
  (Numeral.bound ≤ points → outcome.finish = .fault .longNumeral ∧ outcome.out = [])

section Written

variable {o : Options} {colour : Bool} {file : String} {found : Found} {text : String}
  {book : RuleBook} {s : Settings} {survey : Survey}

theorem lists_regions
    (whole : (regions ⟨o, colour && !o.plain⟩ survey).fault? = none) :
    Lists o colour (Box.sorted survey.regions) survey.volume
      (regions ⟨o, colour && !o.plain⟩ survey).pieces := by
  unfold regions at whole ⊢
  unfold Lists
  dsimp only at whole ⊢
  by_cases layout : o.layout = .value .text
  · rw [if_neg (not_not_intro layout)] at whole ⊢
    rw [if_pos layout]
    obtain ⟨listed, summed, pieces⟩ := Written.parts_of_followedBy whole
    obtain ⟨summary, written⟩ := Written.exists_of_ofWhole summed
    obtain ⟨numeral, short, line⟩ := bind_eq_ok_iff.mp written
    refine ⟨listed, numeral, short, ?_⟩
    rw [pieces, written, ← Except.ok.inj line]
    rfl
  · rw [if_pos layout] at whole ⊢
    rw [if_neg layout]
    exact ⟨whole, rfl⟩

theorem Surveys.counts (surveys : Surveys o file found.content text book s survey) (colour : Bool) :
    Counts o colour survey.volume (onFile ⟨o, colour && !o.plain⟩ .count file found) := by
  have run_eq := surveys.onFile_eq (c := .count) ⟨o, colour && !o.plain⟩ nofun
  rw [if_pos rfl] at run_eq
  rw [run_eq]
  constructor
  · intro short
    have whole := fault?_count ⟨o, colour && !o.plain⟩ short
    obtain ⟨pieces, written⟩ := Written.exists_of_ofWhole whole
    rw [finish, whole, count, written]
    exact ⟨rfl, rfl⟩
  · intro long
    have failed := Report.count_of_le (colour && !o.plain) (if o.time then some .pending else none)
      (n := survey.volume) long
    rw [finish, count, failed]
    exact ⟨rfl, rfl⟩

theorem Surveys.lists_json (ctx : Context)
    (surveys : Surveys ctx.options file found.content text book s survey)
    (layout : ctx.options.layout = .value .json) (writable : s.Writable)
    (small : ∀ v ∈ survey.regions.map Box.volume, v < Numeral.bound) :
    (onFile ctx .regions file found).finish = .code 0 := by
  refine surveys.finish_eq ctx nofun writable fun v mem => small v ?_
  rw [figures, layout, if_neg (by decide), List.append_nil] at mem
  exact mem

end Written

/-- A run that lists regions and ends well lists a partition of the accepted points, in strictly
increasing order. The volumes add up to the number that stands behind the list in a text, and that a
run which counts writes; only if this number has no numeral, the latter fails, without output.
Whatever order the lines of the file stand in, the run writes the same. -/
theorem run_lists_partition {r : Release} {args : List String} {o : Options}
    (accepted : Arguments.read r args = .ok o) (asked : o.command = some .regions)
    (machine : Machine Id) (colour : Bool)
    (done : (run machine r colour args).finish = .code 0) :
    ∃ file text book s boxes, o.file = some file ∧
      Reads (machine.find (Path.ofText file)).content text ∧
      RuleBook.ofText text (some file) = .ok book ∧ settings o = .ok s ∧
      Partition book s boxes ∧
      Lists o colour boxes (Cover.naive boxes) (run machine r colour args).out ∧
      (∀ others p, Arguments.read r others = .ok p → p.command = some .count → o.SamePoints p →
        ∀ shown, Counts p shown (Cover.naive boxes) (run machine r shown others)) ∧
      ∀ (moved : Machine Id) other, Reads (moved.find (Path.ofText file)).content other →
        Line.Rearranged text other → run moved r colour args = run machine r colour args := by
  obtain ⟨there, _⟩ := Arguments.file_of_read accepted
  obtain ⟨file, named⟩ := Option.isSome_iff_exists.mp (there (by rw [asked]; rfl))
  have started := run_eq accepted asked named
  rw [started machine colour] at done
  obtain ⟨text, book, s, survey, surveys⟩ := exists_surveys (c := .regions) nofun done
  have keyed := RuleBook.keyed_of_ofText surveys.parsed
  have sum : Cover.naive (Box.sorted survey.regions) = survey.volume :=
    (Cover.naive_sorted _).trans (Survey.naive_eq_volume keyed surveys.surveyed)
  refine ⟨file, text, book, s, Box.sorted survey.regions, named, surveys.reads, surveys.parsed,
    surveys.valid, Survey.partition_sorted keyed surveys.surveyed, ?_, ?_, ?_⟩
  · -- All that is listed was written, as the run would have ended with a fault otherwise.
    have written := surveys.onFile_eq (c := .regions) ⟨o, colour && !o.plain⟩ nofun
    rw [written] at done
    obtain ⟨whole, outcome⟩ := finish_eq_of_code done
    rw [started machine colour, written, outcome, sum]
    exact lists_regions whole
  · intro others p given counts same shown
    rw [run_eq given counts (same.file.trans named) machine shown, sum]
    exact (surveys.samePoints same).counts shown
  · intro moved other reads perm
    rw [started moved colour, started machine colour]
    exact onFile_of_rearranged surveys nofun done reads perm

def stacked : RuleBook where
  entries := [
    ("in", ⟨"in", ⟨"x", .below 3, .workflow "b"⟩, [], .accept,
      some { line := 1, file := some "rules" }⟩),
    ("b", ⟨"b", ⟨"m", .below 2, .accept⟩, [], .accept, some { line := 2, file := some "rules" }⟩)]
  distinct := by decide

def stackedBytes : List UInt8 := [
  105, 110, 123, 120, 60, 51, 58, 98, 44, 65, 125, 10,
  98, 123, 109, 60, 50, 58, 65, 44, 65, 125]

def turnedBytes : List UInt8 := [
  98, 123, 109, 60, 50, 58, 65, 44, 65, 125, 10,
  105, 110, 123, 120, 60, 51, 58, 98, 44, 65, 125]

theorem reads_stacked : Reads ((holding stackedBytes).find (Path.ofText "rules")).content
    "in{x<3:b,A}\nb{m<2:A,A}" := by
  rw [find_holding]
  exact ⟨stackedBytes, rfl, by decide⟩

theorem ofText_stacked :
    RuleBook.ofText "in{x<3:b,A}\nb{m<2:A,A}" (some "rules") = .ok stacked := by
  have first : (Record.workflow ['i', 'n'] ⟨['x'], .below, ['3'], ['b']⟩ [] ['A']).Proper :=
    ⟨by decide, List.forall_mem_singleton.mpr ⟨by decide, by decide, by decide⟩, by decide⟩
  have second : (Record.workflow ['b'] ⟨['m'], .below, ['2'], ['A']⟩ [] ['A']).Proper :=
    ⟨by decide, List.forall_mem_singleton.mpr ⟨by decide, by decide, by decide⟩, by decide⟩
  have one : (Line.mk 1 "in{x<3:b,A}").statement (some "rules") = .ok (.workflow ⟨"in",
      ⟨"x", .below 3, .workflow "b"⟩, [], .accept, some { line := 1, file := some "rules" }⟩) :=
    Statement.ofLine_eq_ok_iff.mpr
      ⟨_, first, by decide, List.forall_mem_singleton.mpr (by decide), rfl⟩
  have two : (Line.mk 2 "b{m<2:A,A}").statement (some "rules") = .ok (.workflow ⟨"b",
      ⟨"m", .below 2, .accept⟩, [], .accept, some { line := 2, file := some "rules" }⟩) :=
    Statement.ofLine_eq_ok_iff.mpr
      ⟨_, second, by decide, List.forall_mem_singleton.mpr (by decide), rfl⟩
  have lines : Line.ofText "in{x<3:b,A}\nb{m<2:A,A}" =
      [⟨1, "in{x<3:b,A}"⟩, ⟨2, "b{m<2:A,A}"⟩] := by decide
  rw [RuleBook.ofText_eq_defineAll, lines]
  unfold Line.made
  rw [one]
  unfold Line.made
  rw [two]
  rfl

theorem surveys_stacked {o : Options} {s : Settings} (valid : settings o = .ok s)
    (bounded : isBoundless o = false) {regions : List (List Interval)}
    (walked : (Wiring.ofRuleBook stacked s >>= fun wiring =>
      (wiring.network.walk s).result).map (·.map (·.ranges)) = .ok regions) :
    ∃ survey, Surveys o "rules" ((holding stackedBytes).find (Path.ofText "rules")).content
        "in{x<3:b,A}\nb{m<2:A,A}" stacked s survey ∧
      survey.regions.map Box.volume =
        regions.map fun ranges => (ranges.map Interval.size).foldl (· * ·) 1 := by
  have keyed := RuleBook.keyed_of_ofText ofText_stacked
  obtain ⟨boxes, found, same⟩ := map_eq_ok_iff.mp walked
  obtain ⟨wiring, built, returns⟩ := bind_eq_ok_iff.mp found
  cases surveyed : Survey.ofRuleBook stacked s with
  | error fault => cases (result_of_fault keyed built surveyed).symm.trans returns
  | ok survey =>
    obtain ⟨own, result, _, walk_eq⟩ := Survey.parts_of_ofRuleBook surveyed
    cases own.symm.trans built
    cases result.symm.trans returns
    refine ⟨survey, ⟨reads_stacked, ofText_stacked, valid, surveyed, ?_⟩, ?_⟩
    · rw [walk, bounded]
      exact walk_eq.symm
    · rw [← same, List.map_map]
      rfl

section Arguments

open Arguments

variable {value : String} {n : Int} (plain : value.toList.head? ≠ some '-')
  (typed : Integer.read? value = some n)

include plain typed

theorem read_regions : Arguments.read .late ["regions", "--domain-max", value, "-f", "json", "rules"] =
    .ok { command := some .regions, file := some "rules", greatest := some (.value n),
          layout := .value .json } := by
  have program : rolesOf .program ["-f", "json", "rules"] =
      .ok [("-f", .unknown), ("json", .value), ("rules", .value)] := by decide
  have command : rolesOf (.command .regions) ["-f", "json", "rules"] =
      .ok [("-f", .option ⟨["-f", "--format"], .layout⟩ "-f" none), ("json", .value),
        ("rules", .value)] := by decide
  refine read_to plain typed .regions program rfl command ?_
  simp [takeFile, takeOption, bundleOf, Bundle.bare, Effect.takesValue, firstValue?, performAll,
    perform, bind, Except.bind, pure, Except.pure]

theorem read_count : Arguments.read .late ["count", "--domain-max", value, "rules"] =
    .ok { command := some .count, file := some "rules", greatest := some (.value n) } := by
  have program : rolesOf .program ["rules"] = .ok [("rules", .value)] := by decide
  have command : rolesOf (.command .count) ["rules"] = .ok [("rules", .value)] := by decide
  refine read_to plain typed .count program rfl command ?_
  simp [takeFile]

end Arguments

theorem settings_to (c : Command) (layout : Given Report.Layout) {n : Int} (filled : 1 ≤ n) :
    settings { command := some c, file := some "rules", greatest := some (.value n), layout } =
      .ok { greatest := n } := by
  have valid : ({ greatest := n } : Settings).problems = [] := by
    have ordered : ¬ n < 1 := Int.not_lt.mpr filled
    simp [Settings.problems, ordered]
  exact bind_eq_ok_iff.mpr ⟨(), Settings.check_eq_ok_iff.mpr valid, rfl⟩

theorem stacked_lists_partition :
    let args := ["regions", "--domain-max", "9", "-f", "json", "rules"]
    let o : Options := { command := some .regions, file := some "rules",
                         greatest := some (.value 9), layout := .value .json }
    Arguments.read .late args = .ok o ∧
    (run (holding stackedBytes) .late false args).finish = .code 0 ∧
    (∃ boxes, Partition stacked { greatest := 9 } boxes ∧ Lists o false boxes (Cover.naive boxes)
      (run (holding stackedBytes) .late false args).out) ∧
    run (holding turnedBytes) .late false args =
      run (holding stackedBytes) .late false args := by
  intro args o
  have accepted : Arguments.read .late args = .ok o := read_regions (by decide) (by decide)
  have valid : settings o = .ok { greatest := 9 } := settings_to _ _ (by decide)
  have walked : (Wiring.ofRuleBook stacked { greatest := 9 } >>= fun wiring =>
      (wiring.network.walk { greatest := 9 }).result).map (·.map (·.ranges)) = .ok [
        [⟨3, 9⟩, ⟨1, 9⟩, ⟨1, 9⟩, ⟨1, 9⟩], [⟨1, 2⟩, ⟨2, 9⟩, ⟨1, 9⟩, ⟨1, 9⟩],
        [⟨1, 2⟩, ⟨1, 1⟩, ⟨1, 9⟩, ⟨1, 9⟩]] := by cbv
  obtain ⟨survey, surveys, volumes⟩ := surveys_stacked valid rfl walked
  have small : ∀ v ∈ survey.regions.map Box.volume, v < Numeral.bound := by
    rw [volumes]
    decide +kernel
  have done : (run (holding stackedBytes) .late false args).finish = .code 0 := by
    rw [run_eq accepted rfl rfl]
    have writable : ({ greatest := 9 } : Settings).Writable :=
      ⟨by decide +kernel, by decide +kernel⟩
    exact surveys.lists_json ⟨o, false⟩ rfl writable small
  have turned : Line.Rearranged "in{x<3:b,A}\nb{m<2:A,A}" "b{m<2:A,A}\nin{x<3:b,A}" :=
    Line.rearranged_of_perm (by decide)
  obtain ⟨_, text, book, s, boxes, named, reads, parsed, asked, partition, lists, _, moved⟩ :=
    run_lists_partition accepted rfl (holding stackedBytes) false done
  cases named
  cases reads.unique reads_stacked
  cases parsed.symm.trans ofText_stacked
  cases asked.symm.trans valid
  have again : Reads ((holding turnedBytes).find (Path.ofText "rules")).content
      "b{m<2:A,A}\nin{x<3:b,A}" := by
    rw [find_holding]
    exact ⟨turnedBytes, rfl, by decide⟩
  exact ⟨accepted, done, ⟨boxes, partition, lists⟩,
    moved (holding turnedBytes) _ again turned⟩

def vast : String := Integer.roundNumber 1075

theorem read_vast : Integer.read? vast = some ((10 ^ 215) ^ 5) := by
  have short : 1074 + 1 < Numeral.maxDigits := by
    unfold Numeral.maxDigits
    omega
  rw [← Numeral.powerOfTen_mul]
  exact Integer.read?_roundNumber short

/-- All points are accepted. The three volumes have numerals and are listed; their sum has none, and
so it is not counted. -/
theorem listed_not_counted :
    (run (holding stackedBytes) .late false
      ["regions", "--domain-max", vast, "-f", "json", "rules"]).finish = .code 0 ∧
    (run (holding stackedBytes) .late false
      ["count", "--domain-max", vast, "rules"]).finish = .fault .longNumeral ∧
    (run (holding stackedBytes) .late false
      ["count", "--domain-max", vast, "rules"]).out = [] := by
  have plain : vast.toList.head? ≠ some '-' := by
    rw [vast, Integer.head?_roundNumber]
    decide
  let s : Settings := { greatest := (10 ^ 215) ^ 5 }
  let o : Options := { command := some .regions, file := some "rules",
                       greatest := some (.value ((10 ^ 215) ^ 5)), layout := .value .json }
  have large : (1 : Int) ≤ (10 ^ 215) ^ 5 := one_le_pow₀ (one_le_pow₀ (by decide))
  have valid : settings o = .ok s := settings_to _ _ large
  have walked : (Wiring.ofRuleBook stacked s >>= fun wiring =>
      (wiring.network.walk s).result).map (·.map (·.ranges)) = .ok [
        [⟨3, (10 ^ 215) ^ 5⟩, ⟨1, (10 ^ 215) ^ 5⟩, ⟨1, (10 ^ 215) ^ 5⟩, ⟨1, (10 ^ 215) ^ 5⟩],
        [⟨1, 2⟩, ⟨2, (10 ^ 215) ^ 5⟩, ⟨1, (10 ^ 215) ^ 5⟩, ⟨1, (10 ^ 215) ^ 5⟩],
        [⟨1, 2⟩, ⟨1, 1⟩, ⟨1, (10 ^ 215) ^ 5⟩, ⟨1, (10 ^ 215) ^ 5⟩]] := by cbv
  obtain ⟨survey, surveys, volumes⟩ := surveys_stacked valid rfl walked
  have listed : ∀ v ∈ survey.regions.map Box.volume, v < Numeral.bound := by
    rw [volumes]
    decide +kernel
  have sum : Numeral.bound ≤ survey.volume := by
    rw [← Survey.naive_eq_volume (RuleBook.keyed_of_ofText ofText_stacked) surveys.surveyed,
      Cover.naive, volumes]
    decide +kernel
  rw [run_eq (read_regions plain read_vast) rfl rfl, run_eq (read_count plain read_vast) rfl rfl]
  have writable : s.Writable := ⟨by decide +kernel, by decide +kernel⟩
  let p : Options := { command := some .count, file := some "rules",
                       greatest := some (.value ((10 ^ 215) ^ 5)) }
  have same : o.SamePoints p := ⟨rfl, rfl, rfl, rfl, rfl⟩
  exact ⟨surveys.lists_json ⟨o, false⟩ rfl writable listed,
    ((surveys.samePoints same).counts false).2 sum⟩

end Session

end RouteVolume
