import RouteVolume.Proofs.RuleBook.Reading
import RouteVolume.Proofs.Text.Lines

namespace RouteVolume

def Span.inFile (file : String) (s : Span) : Span := { s with file := some file }

def Diagnostic.inFile (file : String) (d : Diagnostic) : Diagnostic :=
  { d with span := d.span.map (·.inFile file) }

def Fault.inFile (file : String) : Fault → Fault
  | .report d => .report (d.inFile file)
  | fault => fault

def Workflow.inFile (file : String) (w : Workflow) : Workflow :=
  { w with span := w.span.map (·.inFile file) }

def Statement.inFile (file : String) : Statement → Statement
  | .workflow w => .workflow (w.inFile file)
  | .rating => .rating

namespace Statement

theorem statement?_inFile (file : String) (r : Record) (span : Span) :
    r.statement? (some (span.inFile file)) =
      (r.statement? (some span)).map (Statement.inFile file) := by
  rw [Record.statement?_eq, Record.statement?_eq]
  split
  · cases r <;> rfl
  · rfl

theorem ofLine_inFile (file line : String) (span : Span) :
    ofLine line (some (span.inFile file)) =
      ((ofLine line (some span)).map (inFile file)).mapError (Fault.inFile file) := by
  unfold ofLine
  cases Record.ofChars line.toList with
  | error pos => rfl
  | ok r =>
    simp only [statement?_inFile]
    cases r.statement? (some span) <;> rfl

end Statement

namespace RuleBook

def inFile (file : String) (b : RuleBook) : RuleBook where
  entries := b.entries.map fun (key, w) => (key, w.inFile file)
  distinct := by
    rw [List.map_map]
    exact b.distinct

variable {file : String}

theorem get?_inFile (b : RuleBook) (key : String) :
    (b.inFile file).get? key = (b.get? key).map (·.inFile file) := by
  change (b.entries.map fun (k, w) => (k, w.inFile file)).lookup key =
    (b.entries.lookup key).map (·.inFile file)
  induction b.entries with
  | nil => rfl
  | cons entry rest ih =>
    rw [List.map_cons, List.lookup_cons, List.lookup_cons, ih]
    split <;> rfl

theorem putIn_inFile (key : String) (w : Workflow) (entries : List (String × Workflow)) :
    putIn key (w.inFile file) (entries.map fun (k, v) => (k, v.inFile file)) =
      (putIn key w entries).map fun (k, v) => (k, v.inFile file) := by
  induction entries with
  | nil => rfl
  | cons entry rest ih =>
    simp only [List.map_cons, putIn, ih]
    split <;> rfl

theorem define_inFile (b : RuleBook) (w : Workflow) :
    (b.inFile file).define (w.inFile file) =
      ((b.define w).map (inFile file)).mapError (Fault.inFile file) := by
  unfold define
  have name : (w.inFile file).name = w.name := rfl
  rw [name, get?_inFile, Option.isSome_map]
  split
  · rfl
  · simp only [Except.map, Except.mapError, Except.ok.injEq, put, inFile, RuleBook.mk.injEq]
    exact putIn_inFile w.name w b.entries

theorem defineAll_inFile (b : RuleBook) (made : List (Except Fault Workflow)) :
    (b.inFile file).defineAll
        (made.map fun r => (r.map (·.inFile file)).mapError (Fault.inFile file)) =
      ((b.defineAll made).map (inFile file)).mapError (Fault.inFile file) := by
  induction made generalizing b with
  | nil => rfl
  | cons next rest ih =>
    cases next with
    | error fault => rfl
    | ok w =>
      simp only [List.map_cons, defineAll, Except.map, Except.mapError, bind, Except.bind,
        define_inFile]
      cases b.define w with
      | error fault => rfl
      | ok more => exact ih more

end RuleBook

namespace Line

theorem made_inFile (file : String) (source : Option String) (lines : List Line) :
    made (some file) lines =
      (made source lines).map fun r => (r.map (·.inFile file)).mapError (Fault.inFile file) := by
  induction lines with
  | nil => rfl
  | cons l rest ih =>
    have said : l.statement (some file) =
        ((l.statement source).map (Statement.inFile file)).mapError (Fault.inFile file) :=
      Statement.ofLine_inFile file l.text (l.span source)
    unfold made
    rw [said]
    cases l.statement source with
    | error fault => rfl
    | ok said =>
      cases said with
      | rating => exact ih
      | workflow w => exact congrArg (_ :: ·) ih

theorem numbered_append (number : Nat) (raws more : List String) :
    numbered number (raws ++ more) = numbered number raws ++ numbered (number + raws.length) more := by
  unfold numbered
  rw [List.zipIdx_append, List.map_append, List.filter_append]

/-- The source has the line at its number, perhaps with blanks around it. -/
def StandsIn (l : Line) (source : List String) (raw : String) : Prop :=
  ∃ n, l.number = n + 1 ∧ source[n]? = some raw ∧ l.text = Blank.strip raw

theorem standsIn_of_mem_ofText {text : String} {l : Line} (mem : l ∈ ofText text) :
    l.text ≠ "" ∧ ∃ raw, l.StandsIn (Blank.lines text) raw := by
  obtain ⟨listed, filled⟩ := List.mem_filter.mp mem
  obtain ⟨⟨raw, k⟩, place, rfl⟩ := List.mem_map.mp listed
  obtain ⟨least, stored⟩ := List.mem_zipIdx_iff_le_and_getElem?_sub.mp place
  refine ⟨fun empty => ?_, raw, k - 1, (Nat.sub_add_cancel least).symm, stored, rfl⟩
  rw [empty] at filled
  exact absurd filled (by decide)

section Read

variable {text : String} {source : Option String}

theorem exists_of_read {book : RuleBook} (read : RuleBook.ofText text source = .ok book)
    {w : Workflow} (mem : w ∈ book.workflows) :
    ∃ l ∈ ofText text, l.workflow? source = some w := by
  have outcome := outcome_ofText text source
  rw [read] at outcome
  cases outcome with
  | complete _ defined => exact exists_of_mem_workflows defined mem

inductive Reported (source : Option String) (l : Line) : Diagnostic → Prop
  | invalid (pos : Nat) (failed : l.statement source =
      .error (.report (.invalidLine l.text pos (some (l.span source))))) :
      l.Reported source (.invalidLine l.text pos (some (l.span source)))
  | uninterpretable (failed : l.statement source =
      .error (.report (.uninterpretableLine l.text (some (l.span source))))) :
      l.Reported source (.uninterpretableLine l.text (some (l.span source)))
  | again {w : Workflow} (said : l.workflow? source = some w) :
      l.Reported source (.duplicateWorkflow w.name (some (l.span source)))

theorem exists_reported {fault : Fault} (failed : RuleBook.ofText text source = .error fault) :
    ∃ l ∈ ofText text, ∃ d, fault = .report d ∧ l.Reported source d := by
  have outcome := outcome_ofText text source
  rw [failed] at outcome
  cases outcome with
  | @stopped earlier l later _ split _ stops =>
    have there : l ∈ ofText text := by
      rw [split]
      exact List.mem_append_right _ List.mem_cons_self
    refine ⟨l, there, ?_⟩
    cases stops with
    | unread unread =>
      rcases unread_cases unread with ⟨pos, rfl⟩ | rfl
      · exact ⟨_, rfl, .invalid pos unread⟩
      · exact ⟨_, rfl, .uninterpretable unread⟩
    | «repeated» _ _ new _ => exact ⟨_, rfl, .again new⟩

end Read

theorem ofText_rejoined (text : String) :
    ofText ("\n".intercalate (Blank.lines text)) = ofText text := by
  unfold ofText
  rcases Blank.lines_intercalate_lines text with same | longer
  · rw [← same]
  · conv_rhs => rw [longer, numbered_append]
    exact (List.append_nil _).symm

end Line

namespace RuleBook

theorem ofText_rejoined (text : String) (source : Option String) :
    ofText ("\n".intercalate (Blank.lines text)) source = ofText text source := by
  rw [ofText_eq_defineAll, ofText_eq_defineAll, Line.ofText_rejoined]

theorem ofText_inFile (text file : String) (source : Option String) :
    ofText text (some file) =
      ((ofText text source).map (inFile file)).mapError (Fault.inFile file) := by
  rw [ofText_eq_defineAll, ofText_eq_defineAll, Line.made_inFile file source]
  exact defineAll_inFile empty _

end RuleBook

end RouteVolume
