import RouteVolume.Proofs.Record.Lines
import RouteVolume.Proofs.RuleBook.Evaluation
import RouteVolume.RuleBook

namespace RouteVolume

namespace Reading

-- The scanner is not run to see that both sides read the line in the same way.
attribute [local irreducible] Statement.ofLine

theorem ofLinesFrom_cons (source : Option String) (number : Nat) (raw : String)
    (rest : List String) :
    ofLinesFrom source number (raw :: rest) =
      if (Blank.strip raw).isEmpty then ofLinesFrom source (number + 1) rest
      else
        match Statement.ofLine (Blank.strip raw) (some { line := number, file := source }) with
        | .error fault => { fault? := some fault }
        | .ok statement =>
          let reading := ofLinesFrom source (number + 1) rest
          match statement with
          | .rating => { reading with ratings := reading.ratings + 1 }
          | .workflow w => { reading with workflows := w :: reading.workflows } :=
  rfl

end Reading

def Statement.workflow? : Statement → Option Workflow
  | .workflow w => some w
  | .rating => none

/-- A line of a rule text, with its number and without the blanks around it. -/
structure Line where
  number : Nat
  text : String
  deriving DecidableEq, Repr

namespace Line

def numbered (number : Nat) (raws : List String) : List Line :=
  ((raws.zipIdx number).map fun (raw, k) => ⟨k, Blank.strip raw⟩).filter fun l => !l.text.isEmpty

def ofText (text : String) : List Line := numbered 1 (Blank.lines text)

/-- The beginning of the line. -/
def span (source : Option String) (l : Line) : Span := { line := l.number, file := source }

/-- What the line says by itself. -/
def statement (source : Option String) (l : Line) : Except Fault Statement :=
  Statement.ofLine l.text (some (l.span source))

def workflow? (source : Option String) (l : Line) : Option Workflow :=
  (l.statement source).toOption.bind Statement.workflow?

/-- Does the line, after the earlier ones, end the reading of a text with a fault? -/
inductive Stops (source : Option String) (earlier : List Line) (l : Line) : Fault → Prop
  | unread {fault : Fault} (failed : l.statement source = .error fault) :
      Stops source earlier l fault
  | repeated {first : Line} {v w : Workflow} (before : first ∈ earlier)
      (old : first.workflow? source = some v) (new : l.workflow? source = some w)
      (same : v.name = w.name) :
      Stops source earlier l (.report (.duplicateWorkflow w.name (some (l.span source))))

/-- No line stops the reading, each after those before it. -/
def Clean (source : Option String) (lines : List Line) : Prop :=
  ∀ earlier l later fault, lines = earlier ++ l :: later → ¬ l.Stops source earlier fault

theorem clean_nil (source : Option String) : Clean source [] :=
  fun _ _ _ _ split => absurd split.symm (by simp)

theorem Clean.concat {source : Option String} {lines : List Line} {l : Line}
    (clean : Clean source lines) (goes : ∀ fault, ¬ l.Stops source lines fault) :
    Clean source (lines ++ [l]) := by
  intro earlier m later fault split
  rcases List.eq_nil_or_concat later with rfl | ⟨later, last, rfl⟩
  · obtain ⟨rfl, same⟩ := List.append_inj' split rfl
    cases same
    exact goes fault
  · have longer : lines ++ [l] = (earlier ++ m :: later) ++ [last] := by simpa using split
    exact clean earlier m later fault (List.append_inj' longer rfl).1

theorem numbered_cons (number : Nat) (raw : String) (rest : List String) :
    numbered number (raw :: rest) =
      if (Blank.strip raw).isEmpty then numbered (number + 1) rest
      else ⟨number, Blank.strip raw⟩ :: numbered (number + 1) rest := by
  unfold numbered
  rw [List.zipIdx_cons, List.map_cons, List.filter_cons]
  by_cases blank : (Blank.strip raw).isEmpty <;> simp [blank]

/-- The workflows of the lines in order, up to the first line that cannot be read. -/
def made (source : Option String) : List Line → List (Except Fault Workflow)
  | [] => []
  | l :: rest =>
    match l.statement source with
    | .error fault => [.error fault]
    | .ok .rating => made source rest
    | .ok (.workflow w) => .ok w :: made source rest

theorem made_ofLinesFrom (source : Option String) (raws : List String) (number : Nat) :
    (Reading.ofLinesFrom source number raws).made = made source (numbered number raws) := by
  induction raws generalizing number with
  | nil => rfl
  | cons raw rest ih =>
    rw [numbered_cons, Reading.ofLinesFrom_cons]
    by_cases blank : (Blank.strip raw).isEmpty
    · simp only [blank, if_true]
      exact ih (number + 1)
    · simp only [blank, if_false, Bool.false_eq_true]
      unfold made statement span
      generalize Statement.ofLine (Blank.strip raw) (some { line := number, file := source }) =
        said
      cases said with
      | error fault => rfl
      | ok said =>
        cases said with
        | rating => exact ih (number + 1)
        | workflow w => exact congrArg (Except.ok w :: ·) (ih (number + 1))

end Line

namespace RuleBook

theorem putIn_of_fresh {key : String} {w : Workflow} {entries : List (String × Workflow)}
    (fresh : ∀ entry ∈ entries, entry.1 ≠ key) : putIn key w entries = entries ++ [(key, w)] := by
  induction entries with
  | nil => rfl
  | cons entry rest ih =>
    rw [List.forall_mem_cons] at fresh
    rw [putIn, if_neg fresh.1, ih fresh.2, List.cons_append]

theorem ofText_eq_defineAll (text : String) (source : Option String) :
    ofText text source = empty.defineAll (Line.made source (Line.ofText text)) :=
  congrArg empty.defineAll (Line.made_ofLinesFrom source (Blank.lines text) 1)

end RuleBook

namespace Line

/-- The entries that the lines define, in order. -/
def entries (source : Option String) (lines : List Line) : List (String × Workflow) :=
  (lines.filterMap (·.workflow? source)).map fun w => (w.name, w)

theorem entries_concat (source : Option String) (lines : List Line) (l : Line) :
    entries source (lines ++ [l]) =
      entries source lines ++ ((l.workflow? source).map fun w => (w.name, w)).toList := by
  cases said : l.workflow? source <;> simp [entries, said]

theorem mem_entries {source : Option String} {lines : List Line} {name : String} {w : Workflow}
    (mem : (name, w) ∈ entries source lines) :
    ∃ l ∈ lines, l.workflow? source = some w ∧ w.name = name := by
  obtain ⟨v, listed, same⟩ := List.mem_map.mp mem
  cases same
  obtain ⟨l, there, said⟩ := List.mem_filterMap.mp listed
  exact ⟨l, there, said, rfl⟩

theorem exists_of_mem_workflows {source : Option String} {lines : List Line} {book : RuleBook}
    (defined : book.entries = entries source lines) {w : Workflow} (mem : w ∈ book.workflows) :
    ∃ l ∈ lines, l.workflow? source = some w := by
  obtain ⟨⟨name, _⟩, entry, rfl⟩ := List.mem_map.mp mem
  rw [defined] at entry
  obtain ⟨l, there, said, _⟩ := mem_entries entry
  exact ⟨l, there, said⟩

theorem workflow?_eq_some_iff {source : Option String} {l : Line} {w : Workflow} :
    l.workflow? source = some w ↔ l.statement source = .ok (.workflow w) := by
  unfold workflow?
  cases l.statement source with
  | error fault => simp [Except.toOption]
  | ok said => cases said <;> simp [Except.toOption, Statement.workflow?]

theorem span_of_workflow? {source : Option String} {l : Line} {w : Workflow}
    (said : l.workflow? source = some w) : w.span = some (l.span source) := by
  obtain ⟨r, _, _, _, gives⟩ := Statement.ofLine_eq_ok_iff.mp (workflow?_eq_some_iff.mp said)
  cases r with
  | workflow name first rest default =>
    cases gives
    rfl
  | rating first rest => cases gives

theorem unread_cases {source : Option String} {l : Line} {fault : Fault}
    (failed : l.statement source = .error fault) :
    (∃ pos, fault = .report (.invalidLine l.text pos (some (l.span source)))) ∨
      fault = .report (.uninterpretableLine l.text (some (l.span source))) := by
  unfold statement Statement.ofLine at failed
  split at failed
  · rename_i pos _
    cases failed
    exact .inl ⟨pos, rfl⟩
  · split at failed
    · cases failed
      exact .inr rfl
    · cases failed

theorem report_of_unread {source : Option String} {l : Line} {fault : Fault}
    (failed : l.statement source = .error fault) :
    ∃ d : Diagnostic, fault = .report d ∧ d.code.number ∈ ["RG-1001", "RG-1002"] ∧
      d.span.map (fun s => (s.line, s.file)) = some ((l.number : Int), source) := by
  rcases unread_cases failed with ⟨pos, rfl⟩ | rfl
  · exact ⟨_, rfl, List.mem_cons_self, rfl⟩
  · exact ⟨_, rfl, List.mem_cons_of_mem _ List.mem_cons_self, rfl⟩

theorem define_cases {source : Option String} {earlier : List Line} {l : Line} {w : Workflow}
    {book : RuleBook} (defined : book.entries = entries source earlier)
    (said : l.workflow? source = some w) :
    (∃ fault, book.define w = .error fault ∧ l.Stops source earlier fault) ∨
    ((∀ fault, ¬ l.Stops source earlier fault) ∧
      ∃ more, book.define w = .ok more ∧ more.entries = entries source (earlier ++ [l])) := by
  have reads := workflow?_eq_some_iff.mp said
  unfold RuleBook.define
  by_cases old : (book.get? w.name).isSome
  · left
    obtain ⟨v, found⟩ := Option.isSome_iff_exists.mp old
    rw [if_pos old, span_of_workflow? said]
    refine ⟨_, rfl, ?_⟩
    rw [RuleBook.get?_eq_some_iff, defined] at found
    obtain ⟨first, before, first_says, same⟩ := mem_entries found
    exact .repeated before first_says said same
  · right
    rw [if_neg old]
    have fresh : ∀ entry ∈ book.entries, entry.1 ≠ w.name := by
      rintro ⟨name, v⟩ mem rfl
      exact old (Option.isSome_iff_exists.mpr ⟨v, RuleBook.get?_eq_some_iff.mpr mem⟩)
    refine ⟨?_, _, rfl, ?_⟩
    · intro fault stops
      cases stops with
      | unread failed =>
        rw [reads] at failed
        cases failed
      | repeated before first_says new same =>
        rw [said] at new
        cases new
        have stored : (_, _) ∈ entries source earlier :=
          List.mem_map_of_mem (List.mem_filterMap.mpr ⟨_, before, first_says⟩)
        exact fresh _ (defined ▸ stored) same
    · rw [entries_concat, said, ← defined]
      exact RuleBook.putIn_of_fresh fresh

inductive Outcome (source : Option String) (lines : List Line) : Except Fault RuleBook → Prop
  | stopped {earlier : List Line} {l : Line} {later : List Line} {fault : Fault}
      (split : lines = earlier ++ l :: later) (clean : Clean source earlier)
      (stops : l.Stops source earlier fault) : Outcome source lines (.error fault)
  | complete {book : RuleBook} (clean : Clean source lines)
      (defined : book.entries = entries source lines) : Outcome source lines (.ok book)

theorem outcome_defineAll {source : Option String} (lines : List Line) {earlier : List Line}
    {book : RuleBook} (clean : Clean source earlier)
    (defined : book.entries = entries source earlier) :
    Outcome source (earlier ++ lines) (book.defineAll (made source lines)) := by
  induction lines generalizing earlier book with
  | nil =>
    rw [List.append_nil]
    exact .complete clean defined
  | cons l rest ih =>
    have moved : earlier ++ l :: rest = (earlier ++ [l]) ++ rest := by simp
    unfold made
    split
    · rename_i fault failed
      exact .stopped rfl clean (.unread failed)
    · rename_i said
      have silent : l.workflow? source = none := by
        rw [workflow?, said]
        rfl
      rw [moved]
      refine ih (clean.concat fun fault stops => ?_) ?_
      · cases stops with
        | unread failed =>
          rw [said] at failed
          cases failed
        | repeated before old new same =>
          rw [silent] at new
          cases new
      · rw [entries_concat, silent, defined]
        exact (List.append_nil _).symm
    · rename_i w said
      simp only [RuleBook.defineAll, bind, Except.bind]
      rcases define_cases defined (workflow?_eq_some_iff.mpr said) with
        ⟨fault, failed, stops⟩ | ⟨goes, more, added, larger⟩
      · rw [failed]
        exact .stopped rfl clean stops
      · rw [added, moved]
        exact ih (clean.concat goes) larger

theorem outcome_ofText (text : String) (source : Option String) :
    Outcome source (ofText text) (RuleBook.ofText text source) := by
  rw [RuleBook.ofText_eq_defineAll]
  exact outcome_defineAll (ofText text) (clean_nil source) rfl

end Line

/-- The lines of a rule text that are not blank decide in order. Either some line is the first that
cannot be read, or that has the name of an earlier workflow: then its own report, with its number,
is the outcome, whatever lines come later. Or there is no such line, and the rule book holds the
workflows of exactly the lines that say one, in order, each with the beginning of its line. -/
theorem RuleBook.ofText_by_line (text : String) (source : Option String) :
    (∃ earlier l later d, Line.ofText text = earlier ++ l :: later ∧ Line.Clean source earlier ∧
      l.Stops source earlier (.report d) ∧ ofText text source = .error (.report d) ∧
      ((l.statement source = .error (.report d) ∧ d.code.number ∈ ["RG-1001", "RG-1002"]) ∨
        d.code.number = "RG-2002") ∧
      d.span.map (fun s => (s.line, s.file)) = some ((l.number : Int), source)) ∨
    (Line.Clean source (Line.ofText text) ∧ ∃ book, ofText text source = .ok book ∧
      book.entries = ((Line.ofText text).filterMap (·.workflow? source)).map
        (fun w => (w.name, w)) ∧
      ∀ l ∈ Line.ofText text, ∀ w, l.workflow? source = some w → w.span = some (l.span source)) := by
  have outcome := Line.outcome_ofText text source
  revert outcome
  generalize ofText text source = result
  intro outcome
  cases outcome with
  | @stopped earlier l later fault split clean stops =>
    left
    cases stops with
    | unread failed =>
      obtain ⟨d, rfl, code, place⟩ := Line.report_of_unread failed
      exact ⟨earlier, l, later, d, split, clean, .unread failed, rfl, .inl ⟨failed, code⟩, place⟩
    | repeated before old new same =>
      exact ⟨earlier, l, later, _, split, clean, .repeated before old new same, rfl, .inr rfl, rfl⟩
  | @complete book clean defined =>
    exact .inr ⟨clean, book, rfl, defined, fun _ _ _ said => Line.span_of_workflow? said⟩

end RouteVolume
