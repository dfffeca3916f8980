import RouteVolume.Proofs.Session.Codes
import RouteVolume.Proofs.Wiring.Rearranging

namespace RouteVolume

structure Options.SamePoints (o p : Options) : Prop where
  file : p.file = o.file
  attrs : p.attrs = o.attrs
  least : p.least = o.least
  greatest : p.greatest = o.greatest
  start : p.start = o.start

theorem Session.reading_of_read {text file : String}
    (read : ∀ l ∈ Line.ofText text, ∃ statement, l.statement (some file) = .ok statement) :
    reading file (Blank.lines text) =
      { workflows := (Line.ofText text).filterMap (·.workflow? (some file))
        ratings := (Line.ofText text).countP (·.isRating (some file)) } := by
  rw [← Line.ofText_rejoined text] at read ⊢
  exact Reading.ofLinesFrom_of_read read

namespace Session

structure Surveys (o : Options) (file : String) (content : Content) (text : String)
    (book : RuleBook) (s : Settings) (survey : Survey) : Prop where
  reads : Reads content text
  parsed : RuleBook.ofText text (some file) = .ok book
  valid : settings o = .ok s
  surveyed : Survey.ofRuleBook book s = .ok survey
  walked : walk o survey.wiring.network s = survey.walk

def surveyEvents (file text : String) (survey : Survey) : List Event :=
  Event.ofReading (reading file (Blank.lines text)) file ++ [Event.ofWiring survey.wiring] ++
    Event.ofWalk survey.walk ++ Event.ofSurvey survey

section Run

variable {ctx : Context} {c : Command} {file : String} {content : Content} {found : Found}
  {text : String} {book : RuleBook} {s : Settings} {survey : Survey}

theorem onFile_of_reads (ctx : Context) (c : Command) (reads : Reads found.content text)
    (parsed : RuleBook.ofText text (some file) = .ok book) :
    onFile ctx c file found = onRuleBook ctx c file (Blank.lines text)
      (Event.ofReading (reading file (Blank.lines text)) file) book := by
  obtain ⟨bytes, there, decoded⟩ := reads
  have lines : sourceLines found.path found.content = .ok (Blank.lines text) := by
    unfold sourceLines
    simp only [there, decoded]
  have same : (reading file (Blank.lines text)).ruleBook = .ok book :=
    (RuleBook.ofText_rejoined text (some file)).trans parsed
  unfold onFile
  simp only [lines, same]

theorem Surveys.onFile_eq (ctx : Context)
    (surveys : Surveys ctx.options file found.content text book s survey) (walks : c ≠ .graph) :
    onFile ctx c file found = finish ctx (Blank.lines text) (surveyEvents file text survey)
      (if c = .count then count ctx survey else regions ctx survey) := by
  obtain ⟨built, _, _, walk_eq⟩ := Survey.parts_of_ofRuleBook surveys.surveyed
  have again : Survey.ofWalk s survey.wiring survey.walk = .ok survey := by
    rw [walk_eq, ofWalk_eq built, surveys.surveyed]
  rw [onFile_of_reads ctx c surveys.reads surveys.parsed]
  unfold onRuleBook
  simp only [surveys.valid, built, bind, Except.bind, pure, Except.pure]
  cases c with
  | graph => exact absurd rfl walks
  | count =>
    simp only [surveys.walked, again]
    rfl
  | regions =>
    simp only [surveys.walked, again]
    rfl

theorem fail_finish_ne (ctx : Context) (source : List String) (events : List Event)
    (out : List Piece) (fault : Fault) : (fail ctx source events out fault).finish ≠ .code 0 := by
  unfold fail
  split
  · rename_i d
    split
    · have other : codeOf d ≠ 0 := by
        unfold codeOf
        split
        · decide
        · split <;> decide
      exact fun same => other (Finish.code.inj same)
    · exact nofun
  · exact nofun

theorem finish_eq_of_code {source : List String} {events : List Event} {w : Written}
    (done : (finish ctx source events w).finish = .code 0) :
    w.fault? = none ∧ finish ctx source events w =
      { out := w.pieces, err := Event.log ctx.options.verbosity events, finish := .code 0 } := by
  unfold finish at done ⊢
  cases fault : w.fault? with
  | none => exact ⟨rfl, rfl⟩
  | some fault =>
    simp only [fault] at done
    exact absurd done (fail_finish_ne _ _ _ _ _)

theorem surveyed_of_ofWalk (keyed : book.Keyed) {wiring : Wiring} {o : Options}
    (built : Wiring.ofRuleBook book s = .ok wiring)
    (found : Survey.ofWalk s wiring (walk o wiring.network s) = .ok survey) :
    Survey.ofRuleBook book s = .ok survey ∧ walk o survey.wiring.network s = survey.walk := by
  have laid := (Wiring.renders_of_ofRuleBook keyed built).laid
  rcases walk_cases o laid s with same | ⟨_, sign, onLeft, stopped⟩
  · rw [same, ofWalk_eq built] at found
    obtain ⟨own, _, _, walked⟩ := Survey.parts_of_ofRuleBook found
    rw [built] at own
    cases own
    exact ⟨found, same.trans walked.symm⟩
  · rw [stopped] at found
    cases found

theorem surveyed_of_code (keyed : book.Keyed) (walks : c ≠ .graph) {source : List String}
    {events : List Event} (done : (onRuleBook ctx c file source events book).finish = .code 0) :
    ∃ s survey, settings ctx.options = .ok s ∧ Survey.ofRuleBook book s = .ok survey ∧
      walk ctx.options survey.wiring.network s = survey.walk := by
  unfold onRuleBook at done
  cases valid : settings ctx.options with
  | error fault =>
    simp only [valid, bind, Except.bind] at done
    exact absurd done (fail_finish_ne _ _ _ _ _)
  | ok s =>
    cases built : Wiring.ofRuleBook book s with
    | error fault =>
      simp only [valid, built, bind, Except.bind] at done
      exact absurd done (fail_finish_ne _ _ _ _ _)
    | ok wiring =>
      simp only [valid, built, bind, Except.bind, pure, Except.pure] at done
      cases found : Survey.ofWalk s wiring (walk ctx.options wiring.network s) with
      | error fault =>
        cases c with
        | graph => exact absurd rfl walks
        | _ =>
          simp only [found] at done
          exact absurd done (fail_finish_ne _ _ _ _ _)
      | ok survey => exact ⟨s, survey, rfl, surveyed_of_ofWalk keyed built found⟩

theorem exists_surveys (walks : c ≠ .graph) (done : (onFile ctx c file found).finish = .code 0) :
    ∃ text book s survey, Surveys ctx.options file found.content text book s survey := by
  rcases sourceLines_cases found.path found.content with
    ⟨text, reads, lines⟩ | ⟨_, outcome, stopped, ends⟩
  · cases parsed : RuleBook.ofText text (some file) with
    | error fault =>
      have failed : (reading file (Blank.lines text)).ruleBook = .error fault :=
        (RuleBook.ofText_rejoined text (some file)).trans parsed
      unfold onFile at done
      simp only [lines, failed] at done
      exact absurd done (fail_finish_ne _ _ _ _ _)
    | ok book =>
      rw [onFile_of_reads ctx c reads parsed] at done
      obtain ⟨s, survey, valid, surveyed, walked⟩ :=
        surveyed_of_code (RuleBook.keyed_of_ofText parsed) walks done
      exact ⟨text, book, s, survey, reads, parsed, valid, surveyed, walked⟩
  · unfold onFile at done
    simp only [stopped] at done
    rcases ends with ends | ⟨_, _, _, fault⟩
    · cases ends.1.symm.trans done
    · cases fault.symm.trans done

theorem ofReading_of_rearranged {other : String} (perm : Line.Rearranged text other)
    (parsed : RuleBook.ofText text (some file) = .ok book) :
    Event.ofReading (reading file (Blank.lines other)) file =
      Event.ofReading (reading file (Blank.lines text)) file := by
  obtain ⟨read, _⟩ := RuleBook.parts_of_ofText parsed
  have workflows := (Line.workflows_perm (some file) perm).length_eq
  rw [List.length_map, List.length_map] at workflows
  rw [reading_of_read read, reading_of_read (Line.read_perm perm read)]
  unfold Event.ofReading
  rw [workflows, Line.ratings_perm (some file) perm]

theorem Surveys.rearranged {o : Options} {content' : Content} {other : String}
    (surveys : Surveys o file content text book s survey) (reads : Reads content' other)
    (perm : Line.Rearranged text other) :
    (∃ more, Surveys o file content' other more s survey) ∧
      surveyEvents file other survey = surveyEvents file text survey := by
  obtain ⟨more, parsed, same⟩ := RuleBook.ofText_of_rearranged perm surveys.parsed
  have surveyed := (Survey.ofRuleBook_of_content s same.symm).eq_ok surveys.surveyed
  refine ⟨⟨more, reads, parsed, surveys.valid, surveyed, surveys.walked⟩, ?_⟩
  unfold surveyEvents
  rw [ofReading_of_rearranged perm surveys.parsed]

theorem onFile_of_rearranged {moved : Found} {other : String}
    (surveys : Surveys ctx.options file found.content text book s survey) (walks : c ≠ .graph)
    (done : (onFile ctx c file found).finish = .code 0) (reads : Reads moved.content other)
    (perm : Line.Rearranged text other) : onFile ctx c file moved = onFile ctx c file found := by
  obtain ⟨⟨more, again⟩, events⟩ := surveys.rearranged reads perm
  rw [surveys.onFile_eq ctx walks] at done ⊢
  obtain ⟨whole, outcome⟩ := finish_eq_of_code done
  rw [again.onFile_eq ctx walks, outcome, finish, whole, events]

theorem Surveys.samePoints {o p : Options}
    (surveys : Surveys o file content text book s survey) (same : o.SamePoints p) :
    Surveys p file content text book s survey := by
  have bounds : isBoundless p = isBoundless o := by
    rw [isBoundless, same.least, same.greatest]
    rfl
  have asked : settings p = settings o := by
    unfold settings
    rw [bounds, same.least, same.greatest, same.attrs, same.start]
  have walks (g : Network) : walk p g s = walk o g s := by
    unfold walk
    rw [bounds]
  exact ⟨surveys.reads, surveys.parsed, asked.trans surveys.valid, surveys.surveyed,
    (walks _).trans surveys.walked⟩

theorem Surveys.finish_eq (ctx : Context)
    (surveys : Surveys ctx.options file found.content text book s survey) (walks : c ≠ .graph)
    (writable : s.Writable) (small : ∀ n ∈ figures ctx.options c survey, n < Numeral.bound) :
    (onFile ctx c file found).finish = .code 0 := by
  have keyed := RuleBook.keyed_of_ofText surveys.parsed
  rw [surveys.onFile_eq ctx walks]
  exact (ends_finish ctx _ _
    (fault?_written ctx walks (writable_regions keyed writable surveys.surveyed) small)).1

end Run

end Session

end RouteVolume
