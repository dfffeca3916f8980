import RouteVolume.Proofs.Session.Domain
import RouteVolume.Proofs.Session.Paths
import RouteVolume.Proofs.Session.Results
import RouteVolume.Proofs.Survey.Renaming

namespace RouteVolume.Session

/-- The file can be read, as the given text. -/
def Reads (content : Content) (text : String) : Prop :=
  ∃ bytes, content = .ok bytes ∧ textOfBytes bytes = .ok text

theorem Reads.unique {content : Content} {text other : String} (reads : Reads content text)
    (same : Reads content other) : text = other := by
  obtain ⟨bytes, rfl, decoded⟩ := reads
  obtain ⟨_, given, again⟩ := same
  cases given
  exact Except.ok.inj (decoded.symm.trans again)

/-- The code with which a run is to end: that of the first case that applies. -/
inductive Verdict (o : Options) (c : Command) (file : String) (content : Content) : Nat → Prop
  | unreadable (unread : ∀ text, ¬ Reads content text) : Verdict o c file content 2
  | unparsed {text : String} {d : Diagnostic} (reads : Reads content text)
      (failed : RuleBook.ofText text (some file) = .error (.report d))
      (number : d.code.number ∈ ["RG-1001", "RG-1002", "RG-2002"]) : Verdict o c file content 1
  | misconfigured {text : String} {book : RuleBook} {d : Diagnostic} (reads : Reads content text)
      (parsed : RuleBook.ofText text (some file) = .ok book)
      (failed : settings o = .error (.report d)) (number : d.code.number = "RG-3001") :
      Verdict o c file content 2
  | unbuilt {text : String} {book : RuleBook} {s : Settings} {d : Diagnostic}
      (reads : Reads content text) (parsed : RuleBook.ofText text (some file) = .ok book)
      (valid : settings o = .ok s) (failed : Wiring.ofRuleBook book s = .error (.report d))
      (number : d.code.number ∈ ["RG-2001", "RG-2004"]) : Verdict o c file content 1
  | cyclic {text : String} {book : RuleBook} {s : Settings} {wiring : Wiring} {label : String}
      (reads : Reads content text) (parsed : RuleBook.ofText text (some file) = .ok book)
      (valid : settings o = .ok s) (built : Wiring.ofRuleBook book s = .ok wiring)
      (walks : c ≠ .graph)
      (failed : (wiring.network.walk s).result = .error (.report (.cycle label))) :
      Verdict o c file content 3
  | done {text : String} {book : RuleBook} {s : Settings} {wiring : Wiring}
      (reads : Reads content text) (parsed : RuleBook.ofText text (some file) = .ok book)
      (valid : settings o = .ok s) (built : Wiring.ofRuleBook book s = .ok wiring)
      (walked : c ≠ .graph → ∃ regions, (wiring.network.walk s).result = .ok regions) :
      Verdict o c file content 0

/-- The run ends with the code, and without output unless that is 0. -/
def Ends (outcome : Outcome) (n : Nat) : Prop :=
  outcome.finish = .code n ∧ (n ≠ 0 → outcome.out = [])

/-- What a run lets through instead: that the home of a user is not known, or cannot be asked for; a
refusal, as its file is looked up, that says more than that nothing is there; and the comparison with
an end of the domain that the early rules have left blank. -/
inductive Escapes (r : Release) (o : Options) (file : String) (found : Found) : Finish → Prop
  | home (unknown : found.content = .error .homeless) :
      Escapes r o file found (.file found.path.text .homeless)
  | user (unasked : found.content = .error .zeroByteUser) :
      Escapes r o file found (.file found.path.text .zeroByteUser)
  | lookUp {refusal : Refusal} (refused : found.content = .error (.lookUp refusal))
      (other : refusal.number ∉ [2, 9, 20, 40]) :
      Escapes r o file found (.file found.path.text (.lookUp refusal))
  | blankEnd {text : String} {book : RuleBook} (early : r = .early)
      (reads : Reads found.content text) (parsed : RuleBook.ofText text (some file) = .ok book)
      (blank : o.least = some .blank ∨ o.greatest = some .blank) (sign : Char) (onLeft : Bool) :
      Escapes r o file found (.fault (.blankEnd sign onLeft))

/-- The run ends with the one code of the first case that applies, or lets a fault through. -/
def Closes (r : Release) (o : Options) (c : Command) (file : String) (found : Found)
    (outcome : Outcome) : Prop :=
  (∃ n, (∀ m, Verdict o c file found.content m ↔ m = n) ∧ Ends outcome n) ∨
    Escapes r o file found outcome.finish

section Verdict

variable {o : Options} {c : Command} {file : String} {content : Content} {n m : Nat}

theorem Verdict.cases_of_parsed (verdict : Verdict o c file content n) {text : String}
    (reads : Reads content text) {book : RuleBook}
    (parsed : RuleBook.ofText text (some file) = .ok book) :
    (∃ d, settings o = .error (.report d)) ∧ n = 2 ∨
      ∃ s, settings o = .ok s ∧
        ((∃ d, Wiring.ofRuleBook book s = .error (.report d)) ∧ n = 1 ∨
          ∃ wiring, Wiring.ofRuleBook book s = .ok wiring ∧
            (c ≠ .graph ∧ (∃ fault, (wiring.network.walk s).result = .error fault) ∧ n = 3 ∨
              (c ≠ .graph → ∃ regions, (wiring.network.walk s).result = .ok regions) ∧ n = 0)) := by
  cases verdict with
  | unreadable unread => exact absurd reads (unread _)
  | unparsed again failed =>
    cases reads.unique again
    cases parsed.symm.trans failed
  | misconfigured again same invalid => exact .inl ⟨⟨_, invalid⟩, rfl⟩
  | unbuilt again same valid unbuilt =>
    cases reads.unique again
    cases parsed.symm.trans same
    exact .inr ⟨_, valid, .inl ⟨⟨_, unbuilt⟩, rfl⟩⟩
  | cyclic again same valid built walks stopped =>
    cases reads.unique again
    cases parsed.symm.trans same
    exact .inr ⟨_, valid, .inr ⟨_, built, .inl ⟨walks, ⟨_, stopped⟩, rfl⟩⟩⟩
  | done again same valid built walked =>
    cases reads.unique again
    cases parsed.symm.trans same
    exact .inr ⟨_, valid, .inr ⟨_, built, .inr ⟨walked, rfl⟩⟩⟩

theorem Verdict.unique (first : Verdict o c file content n) (second : Verdict o c file content m) :
    n = m := by
  cases first with
  | unreadable unread =>
    cases second with
    | unreadable => rfl
    | unparsed reads | misconfigured reads | unbuilt reads | cyclic reads | done reads =>
      exact absurd reads (unread _)
  | unparsed reads failed =>
    cases second with
    | unreadable unread => exact absurd reads (unread _)
    | unparsed => rfl
    | misconfigured again parsed | unbuilt again parsed | cyclic again parsed
    | done again parsed =>
      cases reads.unique again
      cases failed.symm.trans parsed
  | misconfigured reads parsed invalid =>
    rcases second.cases_of_parsed reads parsed with ⟨_, rfl⟩ | ⟨s, valid, _⟩
    · rfl
    · cases invalid.symm.trans valid
  | unbuilt reads parsed valid unbuilt =>
    rcases second.cases_of_parsed reads parsed with
      ⟨⟨d, invalid⟩, _⟩ | ⟨s, also, ⟨_, rfl⟩ | ⟨wiring, built, _⟩⟩
    · cases valid.symm.trans invalid
    · rfl
    · cases valid.symm.trans also
      cases unbuilt.symm.trans built
  | cyclic reads parsed valid built walks stopped =>
    rcases second.cases_of_parsed reads parsed with
      ⟨⟨d, invalid⟩, _⟩ | ⟨s, also, ⟨⟨d, unbuilt⟩, _⟩ | ⟨wiring, rebuilt, ⟨_, _, rfl⟩ | ⟨walked, _⟩⟩⟩
    · cases valid.symm.trans invalid
    · cases valid.symm.trans also
      cases built.symm.trans unbuilt
    · rfl
    · cases valid.symm.trans also
      cases built.symm.trans rebuilt
      obtain ⟨regions, returns⟩ := walked walks
      cases stopped.symm.trans returns
  | done reads parsed valid built walked =>
    rcases second.cases_of_parsed reads parsed with
      ⟨⟨d, invalid⟩, _⟩ |
      ⟨s, also, ⟨⟨d, unbuilt⟩, _⟩ | ⟨wiring, rebuilt, ⟨walks, ⟨fault, stopped⟩, _⟩ | ⟨_, rfl⟩⟩⟩
    · cases valid.symm.trans invalid
    · cases valid.symm.trans also
      cases built.symm.trans unbuilt
    · cases valid.symm.trans also
      cases built.symm.trans rebuilt
      obtain ⟨regions, returns⟩ := walked walks
      cases stopped.symm.trans returns
    · rfl

theorem closes_of_verdict {r : Release} {found : Found} {outcome : Outcome}
    (verdict : Verdict o c file found.content n) (ends : Ends outcome n) :
    Closes r o c file found outcome := by
  refine .inl ⟨n, fun m => ⟨fun other => other.unique verdict, ?_⟩, ends⟩
  rintro rfl
  exact verdict

end Verdict

def figures (o : Options) : Command → Survey → List Nat
  | .count, survey => [survey.volume]
  | .regions, survey =>
    survey.regions.map Box.volume ++ if o.layout = .value .text then [survey.volume] else []
  | .graph, _ => []

/-- All numbers of points that are to be printed have numerals. -/
def Printable (o : Options) (c : Command) (file : String) (content : Content) : Prop :=
  ∀ text book s survey, Reads content text → RuleBook.ofText text (some file) = .ok book →
    settings o = .ok s → Survey.ofRuleBook book s = .ok survey →
      ∀ n ∈ figures o c survey, n < Numeral.bound

theorem ends_fail (ctx : Context) (source : List String) (events : List Event) {d : Diagnostic}
    (shown : d.Shown) : Ends (fail ctx source events [] (.report d)) (codeOf d) := by
  obtain ⟨err, failed⟩ := fail_report ctx source events [] shown
  rw [failed]
  exact ⟨rfl, fun _ => rfl⟩

theorem ends_finish (ctx : Context) (source : List String) (events : List Event) {w : Written}
    (whole : w.fault? = none) : Ends (finish ctx source events w) 0 := by
  unfold finish
  rw [whole]
  exact ⟨rfl, fun other => absurd rfl other⟩

theorem sourceLines_cases (path : Path) (content : Content) :
    (∃ text, Reads content text ∧ sourceLines path content = .ok (Blank.lines text)) ∨
      (∀ text, ¬ Reads content text) ∧ ∃ outcome, sourceLines path content = .error outcome ∧
        (Ends outcome 2 ∨ ∃ fault, content = .error fault ∧ fault.handling = .uncaught ∧
          outcome.finish = .file path.text fault) := by
  cases content with
  | error fault =>
    refine .inr ⟨fun text ⟨_, same, _⟩ => (nomatch same), ?_⟩
    unfold sourceLines
    cases handled : fault.handling with
    | absent | unread =>
      simp only [handled]
      exact ⟨_, rfl, .inl ⟨rfl, fun _ => rfl⟩⟩
    | uncaught =>
      simp only [handled]
      exact ⟨_, rfl, .inr ⟨fault, rfl, handled, rfl⟩⟩
  | ok bytes =>
    unfold sourceLines
    cases decoded : textOfBytes bytes with
    | error malformed =>
      refine .inr ⟨fun text ⟨_, same, read⟩ => ?_, ?_⟩
      · cases same
        rw [decoded] at read
        cases read
      · simp only [decoded]
        exact ⟨_, rfl, .inl ⟨rfl, fun _ => rfl⟩⟩
    | ok text =>
      simp only [decoded]
      exact .inl ⟨text, ⟨bytes, rfl, decoded⟩, rfl⟩

theorem escapes_of_uncaught {r : Release} {o : Options} {file : String} {found : Found}
    {fault : FileFault} (failed : found.content = .error fault) (uncaught : fault.handling = .uncaught) :
    Escapes r o file found (.file found.path.text fault) := by
  cases fault with
  | homeless => exact .home failed
  | zeroByteUser => exact .user failed
  | lookUp refusal =>
    refine .lookUp failed fun absent => ?_
    have known : refusal.isAbsence = true := List.contains_iff_mem.mpr absent
    rw [FileFault.handling, if_pos known] at uncaught
    cases uncaught
  | zeroByte | irregular | opening => cases uncaught

section Surveyed

variable {book : RuleBook} {s : Settings} {wiring : Wiring}

theorem ofWalk_eq (built : Wiring.ofRuleBook book s = .ok wiring) :
    Survey.ofWalk s wiring (wiring.network.walk s) = Survey.ofRuleBook book s := by
  unfold Survey.ofRuleBook
  rw [built]
  rfl

theorem result_of_fault (keyed : book.Keyed) (built : Wiring.ofRuleBook book s = .ok wiring)
    {fault : Fault} (failed : Survey.ofRuleBook book s = .error fault) :
    (wiring.network.walk s).result = .error fault := by
  obtain ⟨other, stopped⟩ := (Survey.fails_iff keyed built).mp ⟨fault, failed⟩
  rw [← ofWalk_eq built, Survey.ofWalk, stopped] at failed
  cases failed
  exact stopped

theorem writable_regions {survey : Survey} (keyed : book.Keyed) (writable : s.Writable)
    (surveyed : Survey.ofRuleBook book s = .ok survey)
    (volumes : ∀ b ∈ survey.regions, b.volume < Numeral.bound) :
    ∀ b ∈ survey.regions, b.Writable := by
  intro b mem
  obtain ⟨feasible, _, within⟩ := Survey.region_attrs keyed surveyed mem
  refine ⟨fun i listed => ?_, volumes b mem⟩
  have ends := Box.ends_of_subset feasible within i listed
  have low := writable.1
  have high := writable.2
  omega

theorem fault?_count (ctx : Context) {survey : Survey} (volume : survey.volume < Numeral.bound) :
    (count ctx survey).fault? = none := by
  obtain ⟨text, written⟩ := Numeral.write_of_lt (n := survey.volume) volume
  apply Written.fault?_ofWhole
  unfold Report.count
  rw [written]
  cases ctx.options.time with
  | true | false => exact ⟨_, rfl⟩

theorem fault?_regions (ctx : Context) {survey : Survey}
    (writable : ∀ b ∈ survey.regions, b.Writable)
    (volume : ctx.options.layout = .value .text → survey.volume < Numeral.bound) :
    (regions ctx survey).fault? = none := by
  have listing := Report.fault?_regions ctx.colour (ctx.options.layout.value?.getD .text)
    fun b mem => writable b (Box.mem_sorted.mp mem)
  unfold regions
  by_cases layout : ctx.options.layout = .value .text
  · obtain ⟨text, written⟩ := Numeral.write_of_lt (n := survey.volume) (volume layout)
    rw [if_neg (not_not_intro layout)]
    refine Written.fault?_followedBy listing (Written.fault?_ofWhole ?_)
    rw [written]
    exact ⟨_, rfl⟩
  · rw [if_pos layout]
    exact listing

end Surveyed

section Run

variable (ctx : Context) {r : Release} {c : Command} {file : String} {found : Found} {text : String}
  {book : RuleBook}

theorem fault?_written {survey : Survey} (walks : c ≠ .graph)
    (writable : (∀ b ∈ survey.regions, b.volume < Numeral.bound) → ∀ b ∈ survey.regions, b.Writable)
    (small : ∀ n ∈ figures ctx.options c survey, n < Numeral.bound) :
    (if c = .count then count ctx survey else regions ctx survey).fault? = none := by
  cases c with
  | graph => exact absurd rfl walks
  | count => exact fault?_count ctx (small _ List.mem_cons_self)
  | regions =>
    obtain ⟨volumes, total⟩ := List.forall_mem_append.mp small
    refine fault?_regions ctx (writable (List.forall_mem_map.mp volumes)) fun layout => ?_
    rw [if_pos layout] at total
    exact total _ List.mem_cons_self

theorem closes_walk {s : Settings} {wiring : Wiring} (proper : ctx.options.Proper r)
    (reads : Reads found.content text)
    (parsed : RuleBook.ofText text (some file) = .ok book)
    (labelled : ∀ w ∈ book.workflows, w.Writable) (valid : settings ctx.options = .ok s)
    (writable : s.Writable) (built : Wiring.ofRuleBook book s = .ok wiring)
    (printable : Printable ctx.options c file found.content) (walks : c ≠ .graph) (source : List String)
    (before : List Event) (after : Survey → List Event) :
    Closes r ctx.options c file found
      (match Survey.ofWalk s wiring (walk ctx.options wiring.network s) with
      | .error fault => fail ctx source before [] fault
      | .ok survey => finish ctx source (after survey)
          (if c = .count then count ctx survey else regions ctx survey)) := by
  have keyed := RuleBook.keyed_of_ofText parsed
  have laid := (Wiring.renders_of_ofRuleBook keyed built).laid
  rcases walk_cases ctx.options laid s with same | ⟨blank, sign, onLeft, stopped⟩
  · rw [same, ofWalk_eq built]
    -- All that can stop a survey of rules that were read is a cycle, whose report has no place.
    rcases Survey.surveyed_or_cycle keyed labelled built with ⟨survey, found⟩ | ⟨label, _, failed⟩
    · have small := printable text book s survey reads parsed valid found
      have whole := fault?_written ctx walks (writable_regions keyed writable found) small
      obtain ⟨own, walked, _⟩ := Survey.parts_of_ofRuleBook found
      rw [built] at own
      cases own
      rw [found]
      exact closes_of_verdict (.done reads parsed valid built fun _ => ⟨_, walked⟩)
        (ends_finish ctx _ _ whole)
    · have stopped := result_of_fault keyed built failed
      rw [failed]
      exact closes_of_verdict (.cyclic reads parsed valid built walks stopped)
        (ends_fail ctx _ _ nofun)
  · rw [stopped]
    exact .inr (.blankEnd (proper.early (.inl blank)) reads parsed (.inl blank) sign onLeft)

theorem closes_onRuleBook (proper : ctx.options.Proper r) (reads : Reads found.content text)
    (short : text.length ≤ Report.mostBlanks) (parsed : RuleBook.ofText text (some file) = .ok book)
    (printable : Printable ctx.options c file found.content) (source : List String)
    (events : List Event) :
    Closes r ctx.options c file found (onRuleBook ctx c file source events book) := by
  have keyed := RuleBook.keyed_of_ofText parsed
  have spans := RuleBook.writable_of_ofText short parsed
  have labelled := fun w mem => (spans w mem).1
  unfold onRuleBook
  rcases settings_cases proper with
    ⟨s, valid, fine, writable⟩ | ⟨texts, failed⟩ | ⟨blank, sign, onLeft, failed⟩
  · simp only [valid, bind, Except.bind, pure, Except.pure]
    rcases Wiring.ofRuleBook_cases keyed fine with ⟨wiring, built⟩ | ⟨d, failed, blames⟩
    · simp only [built]
      cases c with
      | graph =>
        obtain ⟨drawing, drawn⟩ := Network.drawing_returns
          (Wiring.label_eq_of_ofRuleBook built labelled) (some (Path.ofText file).stem)
        refine closes_of_verdict (.done reads parsed valid built (absurd rfl))
          (ends_finish ctx _ _ ?_)
        apply Written.fault?_ofWhole
        rw [drawn]
        exact ⟨_, rfl⟩
      | count =>
        exact closes_walk ctx proper reads parsed labelled valid writable built printable nofun _ _ _
      | regions =>
        exact closes_walk ctx proper reads parsed labelled valid writable built printable nofun _ _ _
    · have blames := blames.blames fun w mem => (spans w mem).2
      simp only [failed]
      refine closes_of_verdict (.unbuilt reads parsed valid failed blames.number) ?_
      rw [← blames.code]
      exact ends_fail ctx source events blames.shown
  · simp only [failed, bind, Except.bind]
    exact closes_of_verdict (.misconfigured reads parsed failed rfl)
      (ends_fail ctx source events nofun)
  · simp only [failed, bind, Except.bind]
    exact .inr (.blankEnd (proper.early blank) reads parsed blank sign onLeft)

theorem closes_onFile (proper : ctx.options.Proper r)
    (short : ∀ text, Reads found.content text → text.length ≤ Report.mostBlanks)
    (printable : Printable ctx.options c file found.content) :
    Closes r ctx.options c file found (onFile ctx c file found) := by
  unfold onFile
  rcases sourceLines_cases found.path found.content with
    ⟨text, reads, lines⟩ | ⟨unread, outcome, stopped, ends⟩
  · have same : (reading file (Blank.lines text)).ruleBook = RuleBook.ofText text (some file) :=
      RuleBook.ofText_rejoined text (some file)
    simp only [lines, same]
    cases parsed : RuleBook.ofText text (some file) with
    | error fault =>
      obtain ⟨d, rfl, blames⟩ := RuleBook.blames_of_ofText (short text reads) parsed
      refine closes_of_verdict (.unparsed reads parsed blames.number) ?_
      rw [← blames.code]
      exact ends_fail ctx _ [] blames.shown
    | ok book => exact closes_onRuleBook ctx proper reads (short text reads) parsed printable _ _
  · simp only [stopped]
    rcases ends with ends | ⟨fault, failed, uncaught, finish⟩
    · exact closes_of_verdict (.unreadable unread) ends
    · rw [Closes, finish]
      exact .inr (escapes_of_uncaught failed uncaught)

theorem run_eq {args : List String} {o : Options} (accepted : Arguments.read r args = .ok o)
    (asked : o.command = some c) (named : o.file = some file) (machine : Machine Id)
    (colour : Bool) : run machine r colour args =
      onFile ⟨o, colour && !o.plain⟩ c file (machine.find (Path.ofText file)) := by
  unfold run
  simp only [accepted, asked, named]
  rfl

end Run

/-- Arguments that are accepted with a command name a file. On every machine, the run ends with the
one code of the first case that applies, and with a code other than 0 it has no output, unless the
file is not looked up for a cause that is not caught, or the early rules for arguments have left an end
of the domain blank. -/
theorem run_closes {r : Release} {args : List String} {o : Options} {c : Command}
    (accepted : Arguments.read r args = .ok o) (asked : o.command = some c)
    (machine : Machine Id) (colour : Bool) :
    ∃ file, o.file = some file ∧
      ((∀ text, Reads (machine.find (Path.ofText file)).content text →
          text.length ≤ Report.mostBlanks) →
        Printable o c file (machine.find (Path.ofText file)).content →
        Closes r o c file (machine.find (Path.ofText file)) (run machine r colour args)) := by
  obtain ⟨there, proper⟩ := Arguments.file_of_read accepted
  obtain ⟨file, named⟩ := Option.isSome_iff_exists.mp (there (by rw [asked]; rfl))
  refine ⟨file, named, fun short printable => ?_⟩
  rw [run_eq accepted asked named]
  exact closes_onFile ⟨o, colour && !o.plain⟩ proper short printable

/-- A machine on which every file holds the same bytes. -/
def holding (bytes : List UInt8) : Machine Id where
  home _ := none
  content _ := .ok bytes

theorem find_holding (bytes : List UInt8) :
    (holding bytes).find (Path.ofText "rules") = ⟨Path.ofText "rules", .ok bytes⟩ := by
  have named : IsName "rules" := ⟨by decide, by decide, by decide, by decide⟩
  exact named.find_eq (by decide) (holding bytes)

theorem run_closes_at_bad_line :
    ∃ (o : Options) (machine : Machine Id), Arguments.read .late ["count", "rules"] = .ok o ∧
      Verdict o .count "rules" (machine.find (Path.ofText "rules")).content 1 ∧
      Ends (run machine .late false ["count", "rules"]) 1 := by
  let bytes : List UInt8 := [105, 110, 123, 65, 125]
  let o : Options := { command := some .count, file := some "rules" }
  have accepted : Arguments.read .late ["count", "rules"] = .ok o :=
    Arguments.read_plain (by decide) .late .count
  have decoded : textOfBytes bytes = .ok "in{A}" := by decide
  have invalid : RuleBook.ofText "in{A}" (some "rules") =
      .error (.report (.invalidLine "in{A}" 3 (some { line := 1, file := some "rules" }))) := rfl
  have reads : Reads (.ok bytes) "in{A}" := ⟨bytes, rfl, decoded⟩
  have unparsed {text : String} {book : RuleBook} (other : Reads (.ok bytes) text) :
      RuleBook.ofText text (some "rules") ≠ .ok book := by
    rw [other.unique reads, invalid]
    intro same
    cases same
  have short (text : String) (other : Reads (.ok bytes) text) :
      text.length ≤ Report.mostBlanks := by
    rw [other.unique reads]
    decide
  obtain ⟨_, file, closes⟩ := run_closes accepted rfl (holding bytes) false
  cases file
  rw [find_holding] at closes
  have closed := closes short fun _ _ _ _ reads parsed => absurd parsed (unparsed reads)
  have kept (finish : Finish) : ¬ Escapes .late o "rules" ⟨Path.ofText "rules", .ok bytes⟩ finish := by
    intro escapes
    cases escapes with
    | home unknown => cases unknown
    | user unasked => cases unasked
    | lookUp refused => cases refused
    | blankEnd _ reads parsed => exact unparsed reads parsed
  obtain ⟨n, verdict, ends⟩ := closed.resolve_right (kept _)
  have first : Verdict o .count "rules" (.ok bytes) 1 :=
    .unparsed reads invalid List.mem_cons_self
  obtain rfl := (verdict 1).mp first
  exact ⟨o, holding bytes, accepted, find_holding bytes ▸ first, ends⟩

/-- A file that cannot be looked up, for a cause that is not caught. -/
structure Unlooked (machine : Machine Id) (r : Release) (c : Command) (file : String) : Prop where
  accepted : ∃ o, Arguments.read r [c.word, file] = .ok o ∧
    Verdict o c file (machine.find (Path.ofText file)).content 2
  codeless : ∀ n, ¬ Ends (run machine r false [c.word, file]) n

theorem unlooked {machine : Machine Id} {file : String} {fault : FileFault}
    (failed : (machine.find (Path.ofText file)).content = .error fault)
    (uncaught : fault.handling = .uncaught) (plain : file.toList.head? ≠ some '-') (r : Release)
    (c : Command) : Unlooked machine r c file := by
  have accepted := Arguments.read_plain plain r c
  refine ⟨⟨_, accepted, ?_⟩, fun n ends => ?_⟩
  · rw [failed]
    exact .unreadable fun text ⟨_, same, _⟩ => (nomatch same)
  · rw [run_eq accepted rfl rfl] at ends
    unfold onFile sourceLines at ends
    simp only [failed, uncaught] at ends
    cases ends.1

/-- No code is kept for a name that is longer than any in a folder, nor for a file under the home of a
user who is not known, though neither can be read. -/
theorem faults_escape :
    (∃ name, ∀ r c, Unlooked (Files.ofPaths []).machine r c name) ∧
      ∀ r c, Unlooked (Files.ofPaths []).machine r c "~nobody/rules" := by
  constructor
  · have size := utf8ByteSize_replicate 'a' 256
    have head : (String.ofList (List.replicate 256 'a')).toList.head? = some 'a' := by
      rw [String.toList_ofList, List.head?_replicate]
      rfl
    have named := isName_replicate (n := 256) (by decide)
    generalize String.ofList (List.replicate 256 'a') = name at size head named
    have letter : ('a').utf8Size = 1 := by decide
    have long := named.read_eq (f := Files.ofPaths []) (by omega) (by omega) rfl
    have plain : name.toList.head? ≠ some '-' := by rw [head]; decide
    have failed : ((Files.ofPaths []).machine.find (Path.ofText name)).content =
        .error (.lookUp .tooLong) := by
      rw [named.find_eq (by rw [head]; decide)]
      exact long
    exact ⟨name, unlooked failed rfl plain⟩
  · intro r c
    have under : (Path.ofText "~nobody/rules").user? = some "nobody" := by decide
    exact unlooked (Files.find_of_user under (by decide)) rfl (by decide) r c

end RouteVolume.Session
