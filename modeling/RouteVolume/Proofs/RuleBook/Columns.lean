import RouteVolume.Proofs.Record.Marks
import RouteVolume.Proofs.RuleBook.Origin

namespace RouteVolume

namespace Line

variable {source : Option String}

theorem Clean.unique {earlier later others rest : List Line} {l m : Line} {fault gault : Fault}
    (one : Clean source earlier) (stops : l.Stops source earlier fault)
    (two : Clean source others) (halts : m.Stops source others gault)
    (same : earlier ++ l :: later = others ++ m :: rest) : earlier = others ∧ l = m := by
  rcases List.append_eq_append_iff.mp same with ⟨between, longer, left⟩ | ⟨between, longer, left⟩
  · cases between with
    | nil =>
      rw [List.append_nil] at longer
      exact ⟨longer.symm, (List.cons.inj left).1⟩
    | cons k between =>
      obtain ⟨rfl, _⟩ := List.cons.inj left
      exact absurd stops (two earlier l between fault longer)
  · cases between with
    | nil =>
      rw [List.append_nil] at longer
      exact ⟨longer, (List.cons.inj left).1.symm⟩
    | cons k between =>
      obtain ⟨rfl, _⟩ := List.cons.inj left
      exact absurd halts (one others m between gault longer)

theorem Stops.eq_of_unread {earlier : List Line} {l : Line} {fault gault : Fault}
    (stops : l.Stops source earlier fault) (failed : l.statement source = .error gault) :
    fault = gault := by
  cases stops with
  | unread unread =>
    rw [failed] at unread
    cases unread
    rfl
  | «repeated» _ _ new _ =>
    rw [workflow?_eq_some_iff, failed] at new
    cases new

theorem numbered_of_map_strip {raws others : List String}
    (same : raws.map Blank.strip = others.map Blank.strip) (number : Nat) :
    numbered number raws = numbered number others := by
  have stripped (raws : List String) : numbered number raws =
      (((raws.map Blank.strip).zipIdx number).map fun place => Line.mk place.2 place.1).filter
        fun l => !l.text.isEmpty := by
    rw [List.zipIdx_map, List.map_map]
    rfl
  rw [stripped, stripped, same]

end Line

namespace RuleBook

/-- The first line that stops the reading of a text is no record: its number, counted from zero, the
line as it stands in the text, and the place where what is left of it without the blanks around it
stops being one. -/
structure Misread (text : String) (source : Option String) (n : Nat) (raw : String) (pos : Nat) :
    Prop where
  stored : (Blank.lines text)[n]? = some raw
  first : ∃ earlier later,
    Line.ofText text = earlier ++ ⟨n + 1, Blank.strip raw⟩ :: later ∧ Line.Clean source earlier
  missing : Record.ofChars (Blank.strip raw).toList = .error pos

namespace Misread

variable {text : String} {source : Option String} {n : Nat} {raw : String} {pos : Nat}
  (misread : Misread text source n raw pos)

include misread

theorem within : pos ≤ (Blank.strip raw).toList.length := Record.le_of_ofChars misread.missing

theorem statement : (Line.mk (n + 1) (Blank.strip raw)).statement source = .error (.report
    (.invalidLine (Blank.strip raw) pos (some { line := n + 1, file := source }))) := by
  unfold Line.statement Statement.ofLine
  rw [misread.missing]
  rfl

theorem ofText : RuleBook.ofText text source = .error (.report
    (.invalidLine (Blank.strip raw) pos (some { line := n + 1, file := source }))) := by
  obtain ⟨earlier, later, split, clean⟩ := misread.first
  have outcome := Line.outcome_ofText text source
  revert outcome
  generalize RuleBook.ofText text source = result
  rintro (⟨other, halted, halts⟩ | ⟨whole, _⟩)
  · obtain ⟨rfl, rfl⟩ :=
      halted.unique halts clean (.unread misread.statement) (other.symm.trans split)
    rw [halts.eq_of_unread misread.statement]
  · exact absurd (.unread misread.statement) (whole _ _ _ _ split)

theorem column : (Diagnostic.invalidLine (Blank.strip raw) pos
    (some { line := n + 1, file := source })).span =
      some { line := n + 1, column := pos + 1, file := source } := by
  have unbroken : '\n' ∉ (Blank.strip raw).toList := by
    obtain ⟨trail, split, _⟩ := Blank.exists_strip raw
    intro fed
    refine Blank.lineFeed_not_mem_of_mem_lines (List.mem_of_getElem? misread.stored) ?_
    rw [split]
    exact List.mem_append_right _ (List.mem_append_left _ fed)
  have before : '\n' ∉ (Blank.strip raw).toList.take pos := fun fed =>
    unbroken (List.mem_of_mem_take fed)
  simp [Diagnostic.invalidLine, columnOf_of_unbroken before misread.within]

theorem indented {more : String} {blanks : List Char} (blank : ∀ c ∈ blanks, Blank.isBlank c)
    (lines : Blank.lines more =
      (Blank.lines text).set n (String.ofList (blanks ++ raw.toList))) :
    Misread more source n (String.ofList (blanks ++ raw.toList)) pos := by
  have stripped := Blank.strip_indented blank raw
  have same : (Blank.lines more).map Blank.strip = (Blank.lines text).map Blank.strip := by
    obtain ⟨less, here⟩ := List.getElem?_eq_some_iff.mp misread.stored
    have filled : n < ((Blank.lines text).map Blank.strip).length := by rwa [List.length_map]
    have there : ((Blank.lines text).map Blank.strip)[n] = Blank.strip raw := by
      rw [List.getElem_map, here]
    rw [lines, List.map_set, stripped, ← there, List.set_getElem_self]
  have stored : (Blank.lines more)[n]? = some (String.ofList (blanks ++ raw.toList)) := by
    rw [lines, List.getElem?_set_self (List.getElem?_eq_some_iff.mp misread.stored).1]
  refine ⟨stored, ?_, stripped ▸ misread.missing⟩
  rw [stripped, Line.ofText, Line.numbered_of_map_strip same]
  exact misread.first

end Misread

/-- A text whose first line at fault is no record is reported at the number of this line, and at the
place of the fault counted behind the blanks at the beginning of the line. Spaces and tabs that are
put before the line change neither of them. -/
theorem ofText_reports_behind_indent {text : String} {source : Option String} {n : Nat}
    {raw : String} {pos : Nat} (misread : Misread text source n raw pos) :
    ∃ d, ofText text source = .error (.report d) ∧ d.code.number = "RG-1001" ∧
      d.span = some { line := n + 1, column := pos + 1, file := source } ∧
      pos ≤ (Blank.strip raw).length ∧
      (∃ trail, raw.toList = Blank.indent raw ++ ((Blank.strip raw).toList ++ trail) ∧
        ∀ c ∈ trail, Blank.isBlank c) ∧
      ∃ front back, text.toList = front ++ (raw.toList ++ back) ∧
        ∀ blanks, (∀ c ∈ blanks, c = ' ' ∨ c = '\t') →
          let indented := String.ofList (front ++ (blanks ++ (raw.toList ++ back)))
          Blank.lines indented =
            (Blank.lines text).set n (String.ofList (blanks ++ raw.toList)) ∧
          Misread indented source n (String.ofList (blanks ++ raw.toList)) pos ∧
          ofText indented source = .error (.report d) := by
  obtain ⟨front, back, split, kept⟩ := Blank.exists_split_lines misread.stored
  refine ⟨_, misread.ofText, rfl, misread.column, ?_, Blank.exists_strip raw, front, back, split,
    fun blanks plain => ?_⟩
  · exact String.length_toList ▸ misread.within
  · have blank : ∀ c ∈ blanks, Blank.isBlank c := by
      intro c there
      rcases plain c there with rfl | rfl <;> rfl
    have unbroken : Blank.Unbroken blanks := by
      intro c there
      rcases plain c there with rfl | rfl <;> rfl
    have lines := kept blanks unbroken
    have again := misread.indented blank lines
    have report := again.ofText
    rw [Blank.strip_indented blank] at report
    exact ⟨lines, again, report⟩

theorem tabbed_reports_behind_indent :
    Misread "\tin{A}\nb{x<5:A,R}" none 0 "\tin{A}" 3 ∧
      ∃ d indented, ofText "\tin{A}\nb{x<5:A,R}" none = .error (.report d) ∧
        d.span = some { line := 1, column := 4 } ∧
        Blank.lines indented = [" \tin{A}", "b{x<5:A,R}"] ∧
        ofText indented none = .error (.report d) := by
  have misread : Misread "\tin{A}\nb{x<5:A,R}" none 0 "\tin{A}" 3 :=
    ⟨rfl, ⟨[], [⟨2, "b{x<5:A,R}"⟩], by decide, Line.clean_nil none⟩, rfl⟩
  obtain ⟨d, reported, _, span, _, _, front, back, _, kept⟩ := ofText_reports_behind_indent misread
  obtain ⟨lines, _, again⟩ := kept [' '] (by simp)
  exact ⟨misread, d, _, reported, span, lines, again⟩

/-- A blank before the line does not move the column. -/
theorem indent_not_counted :
    ∃ d e, ofText "in{A}" none = .error (.report d) ∧ ofText " in{A}" none = .error (.report e) ∧
      d.code.number = "RG-1001" ∧ d.span = some { line := 1, column := 4 } ∧
      e.span ≠ some { line := 1, column := 5 } := by
  refine ⟨.invalidLine "in{A}" 3 (some { line := 1 }), .invalidLine "in{A}" 3 (some { line := 1 }),
    rfl, rfl, rfl, by decide, by decide⟩

end RuleBook

end RouteVolume
