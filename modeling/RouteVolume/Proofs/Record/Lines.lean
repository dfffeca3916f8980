import RouteVolume.Proofs.Record.Grammar

namespace RouteVolume

def Destination.labelled (label : List Char) : Destination :=
  if label = ['A'] then .accept
  else if label = ['R'] then .reject
  else .workflow (String.ofList label)

theorem Destination.ofLabel_ofList (label : List Char) :
    ofLabel (String.ofList label) = labelled label := by
  have accept : acceptLabel = String.ofList ['A'] := rfl
  have reject : rejectLabel = String.ofList ['R'] := rfl
  simp only [ofLabel, labelled, accept, reject, String.ofList_inj]

def RuleForm.rule (r : RuleForm) : Rule where
  attr := String.ofList r.attr
  threshold := ⟨r.comparison, Nat.ofDigitChars 10 r.digits 0⟩
  destination := .labelled r.label

namespace Record

def numerals : Record → List (List Char)
  | .workflow _ first rest _ => (first :: rest).map RuleForm.digits
  | .rating first rest => (first :: rest).map Assignment.digits

/-- No number of the record is too long to be read. -/
def Short (r : Record) : Prop := ∀ ds ∈ r.numerals, ds.length ≤ 4300

/-- What the record says, however long its numbers are. -/
def statement (span : Option Span) : Record → Statement
  | .workflow name first rest default =>
    .workflow ⟨String.ofList name, first.rule, rest.map RuleForm.rule, .labelled default, span⟩
  | .rating _ _ => .rating

end Record

theorem mapM_guarded {α β : Type} {p : α → Prop} [DecidablePred p] {g : α → β} (items : List α) :
    (items.mapM fun a => if p a then some (g a) else none) =
      if ∀ a ∈ items, p a then some (items.map g) else none := by
  induction items with
  | nil => simp
  | cons a items ih =>
    rw [List.mapM_cons, ih]
    simp only [List.forall_mem_cons]
    by_cases first : p a
    · simp only [first, if_true, true_and]
      split <;> rfl
    · simp [first]

theorem read?_eq (ds : List Char) :
    Numeral.read? ds = if ds.length ≤ 4300 then some (Numeral.value ds) else none :=
  rfl

theorem RuleForm.rule?_eq (r : RuleForm) :
    r.rule? = if r.digits.length ≤ 4300 then some r.rule else none := by
  rw [rule?, read?_eq]
  split
  · simp only [Destination.ofLabel_ofList]
    rfl
  · rfl

namespace Record

instance (r : Record) : Decidable r.Short :=
  inferInstanceAs (Decidable (∀ ds ∈ r.numerals, ds.length ≤ 4300))

theorem statement?_eq (r : Record) (span : Option Span) :
    r.statement? span = if r.Short then some (r.statement span) else none := by
  cases r with
  | workflow name first rest default =>
    simp only [statement?, funext RuleForm.rule?_eq, Destination.ofLabel_ofList, mapM_guarded,
      Short, numerals, List.forall_mem_map, List.forall_mem_cons]
    by_cases short : first.digits.length ≤ 4300
    · simp only [short, if_true, true_and]
      split <;> rfl
    · simp [short]
  | rating first rest =>
    simp only [statement?, read?_eq, mapM_guarded, Short, numerals, List.forall_mem_map]
    split <;> rfl

end Record

namespace Statement

theorem ofLine_eq_of_chars {line : String} {r : Record} (proper : r.Proper)
    (text : r.chars = line.toList) (span : Option Span) :
    ofLine line span = if r.Short then .ok (r.statement span)
      else .error (.report (.uninterpretableLine line span)) := by
  unfold ofLine
  rw [(Record.ofChars_eq_ok_iff line.toList r).mpr ⟨proper, text⟩]
  simp only [r.statement?_eq]
  by_cases short : r.Short <;> simp [short]

theorem ofLine_eq_of_not_chars {line : String}
    (other : ∀ r : Record, r.Proper → r.chars ≠ line.toList) (span : Option Span) :
    ∃ pos, ofLine line span = .error (.report (.invalidLine line pos span)) := by
  unfold ofLine
  cases h : Record.ofChars line.toList with
  | error pos => exact ⟨pos, rfl⟩
  | ok r =>
    obtain ⟨proper, text⟩ := (Record.ofChars_eq_ok_iff line.toList r).mp h
    exact absurd text (other r proper)

theorem ofLine_eq_ok_iff {line : String} {span : Option Span} {s : Statement} :
    ofLine line span = .ok s ↔
      ∃ r : Record, r.Proper ∧ r.chars = line.toList ∧ r.Short ∧ r.statement span = s := by
  constructor
  · intro read
    by_cases known : ∃ r : Record, r.Proper ∧ r.chars = line.toList
    · obtain ⟨r, proper, text⟩ := known
      rw [ofLine_eq_of_chars proper text] at read
      split at read
      · next short => exact ⟨r, proper, text, short, Except.ok.inj read⟩
      · cases read
    · obtain ⟨pos, reported⟩ :=
        ofLine_eq_of_not_chars (fun r proper text => known ⟨r, proper, text⟩) span
      rw [reported] at read
      cases read
  · rintro ⟨r, proper, text, short, rfl⟩
    rw [ofLine_eq_of_chars proper text, if_pos short]

/-- A line that is the text of a record gives its statement, or a report at the place of the line
if one of its numbers has more than 4300 digits. Any other line gives a report of another code, at
the same line of the text. -/
theorem ofLine_cases (line : String) (span : Option Span) :
    (∀ r : Record, r.Proper → r.chars = line.toList →
      (r.Short → ofLine line span = .ok (r.statement span)) ∧
      (¬ r.Short → ∃ d : Diagnostic, ofLine line span = .error (.report d) ∧
        d.code.number = "RG-1002" ∧ d.span = span)) ∧
    ((∀ r : Record, r.Proper → r.chars ≠ line.toList) →
      ∃ d : Diagnostic, ofLine line span = .error (.report d) ∧ d.code.number = "RG-1001" ∧
        d.span.map (·.line) = some ((span.map (·.line)).getD 1)) := by
  constructor
  · intro r proper text
    rw [ofLine_eq_of_chars proper text]
    constructor
    · intro short
      rw [if_pos short]
    · intro long
      rw [if_neg long]
      exact ⟨.uninterpretableLine line span, rfl, rfl, rfl⟩
  · intro other
    obtain ⟨pos, reported⟩ := ofLine_eq_of_not_chars other span
    exact ⟨.invalidLine line pos span, reported, rfl, rfl⟩

theorem ofLine_of_three_lines :
    ofLine "in{x<007:A,m>12:b,bR}" none =
      .ok (.workflow ⟨"in", ⟨"x", .below 7, .accept⟩, [⟨"m", .above 12, .workflow "b"⟩],
        .workflow "bR", none⟩) ∧
    (∃ d : Diagnostic,
      ofLine (String.ofList ('{' :: 'x' :: '=' :: (List.replicate 4301 '0' ++ ['}'])))
        (some { line := 3 }) = .error (.report d) ∧
      d.code.number = "RG-1002" ∧ d.span = some { line := 3 }) ∧
    (∃ d : Diagnostic, ofLine "in{A}" none = .error (.report d) ∧ d.code.number = "RG-1001" ∧
      d.span.map (·.line) = some 1) := by
  refine ⟨?_, ?_, ?_⟩
  · let first : RuleForm := ⟨['x'], .below, ['0', '0', '7'], ['A']⟩
    let second : RuleForm := ⟨['m'], .above, ['1', '2'], ['b']⟩
    let workflow : Record := .workflow ['i', 'n'] first [second] ['b', 'R']
    have proper : workflow.Proper := by
      have good : first.Proper := ⟨by decide, by decide, by decide⟩
      have alsoGood : second.Proper := ⟨by decide, by decide, by decide⟩
      exact ⟨by decide, List.forall_mem_cons.mpr ⟨good, List.forall_mem_singleton.mpr alsoGood⟩, by decide⟩
    exact ((ofLine_cases "in{x<007:A,m>12:b,bR}" none).1 workflow proper (by decide)).1 (by decide)
  · generalize count : 4301 = k
    let rating : Record := .rating ⟨['x'], List.replicate k '0'⟩ []
    have attr : Word Char.isLower ['x'] := by decide
    have proper : rating.Proper := by
      refine List.forall_mem_singleton.mpr ⟨attr, by simp; omega, ?_⟩
      intro c mem
      rw [List.eq_of_mem_replicate mem]
      decide
    have long : ¬ rating.Short := by
      simp [rating, Record.Short, Record.numerals]
      omega
    refine ((ofLine_cases _ (some { line := 3 })).1 rating proper ?_).2 long
    simp [rating, Record.chars_rating, Assignment.chars, Record.listed]
  · have read : Record.ofChars "in{A}".toList = .error 3 := rfl
    refine (ofLine_cases "in{A}" none).2 fun r proper text => ?_
    rw [(Record.ofChars_eq_ok_iff _ r).mpr ⟨proper, text⟩] at read
    cases read

end Statement

end RouteVolume
