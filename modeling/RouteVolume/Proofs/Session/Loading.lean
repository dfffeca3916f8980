import Mathlib.Data.List.TakeWhile
import RouteVolume.Command.Session
import RouteVolume.Proofs.RuleBook.Origin

namespace RouteVolume

namespace Line

variable {source : List String} {l : Line} {raw : String}

theorem withoutLineFeeds_of_not_mem {s : String} (single : '\n' ∉ s.toList) :
    Report.withoutLineFeeds s = s := by
  unfold Report.withoutLineFeeds
  have kept : s.toList.reverse.dropWhile (· = '\n') = s.toList.reverse := by
    apply List.dropWhile_eq_self_iff.mpr
    intro filled last
    have there := List.mem_reverse.mp (List.getElem_mem filled)
    rw [of_decide_eq_true last] at there
    exact single there
  rw [kept, List.reverse_reverse, String.ofList_toList]

theorem StandsIn.quotedLine_eq {text : String} {d : Diagnostic} {span : Span}
    (stands : l.StandsIn (Blank.lines text) raw) (line : span.line = l.number)
    (other : ∀ t, d.subject ≠ .line t) :
    Report.quotedLine d span (Blank.lines text) = some raw := by
  obtain ⟨n, number, stored, _⟩ := stands
  have single := Blank.lineFeed_not_mem_of_mem_lines (List.mem_of_getElem? stored)
  have positive : 0 < span.line := by omega
  have place : span.line.toNat - 1 = n := by omega
  unfold Report.quotedLine
  rw [if_pos positive, place, stored, Option.map_some, withoutLineFeeds_of_not_mem single]
  cases about : d.subject with
  | line t => exact absurd about (other t)
  | _ => rfl

theorem quotedLine_of_unread {d : Diagnostic} {span : Span} (about : d.subject = .line l.text)
    (filled : l.text ≠ "") : Report.quotedLine d span source = some l.text := by
  unfold Report.quotedLine
  rw [about]
  exact if_neg (mt String.isEmpty_iff.mp filled)

theorem said_in_lines {text file : String} {book : RuleBook}
    (read : RuleBook.ofText text (some file) = .ok book) {w : Workflow} (mem : w ∈ book.workflows) :
    ∃ (l : Line) (raw : String), l.StandsIn (Blank.lines text) raw ∧
      l.statement (some file) = .ok (.workflow w) ∧ w.span = some (l.span (some file)) ∧
      ∀ d : Diagnostic, (∀ t, d.subject ≠ .line t) →
        Report.quotedLine d (l.span (some file)) (Blank.lines text) = some raw := by
  obtain ⟨l, there, said⟩ := exists_of_read read mem
  obtain ⟨_, raw, stands⟩ := standsIn_of_mem_ofText there
  exact ⟨l, raw, stands, workflow?_eq_some_iff.mp said, span_of_workflow? said,
    fun d other => stands.quotedLine_eq rfl other⟩

theorem reported_in_lines {text file : String} {fault : Fault}
    (failed : RuleBook.ofText text (some file) = .error fault) :
    ∃ (l : Line) (raw : String) (d : Diagnostic) (span : Span),
      l.StandsIn (Blank.lines text) raw ∧ fault = .report d ∧ d.span = some span ∧
      span.line = l.number ∧ span.file = some file ∧
      ((l.statement (some file) = .error fault ∧
          Report.quotedLine d span (Blank.lines text) = some l.text) ∨
        ∃ w, l.statement (some file) = .ok (.workflow w) ∧
          d = .duplicateWorkflow w.name w.span ∧
          Report.quotedLine d span (Blank.lines text) = some raw) := by
  obtain ⟨l, there, d, rfl, reported⟩ := exists_reported failed
  obtain ⟨filled, raw, stands⟩ := standsIn_of_mem_ofText there
  cases reported with
  | invalid pos unread =>
    exact ⟨l, raw, _, _, stands, rfl, rfl, rfl, rfl, .inl ⟨unread, quotedLine_of_unread rfl filled⟩⟩
  | uninterpretable unread =>
    exact ⟨l, raw, _, _, stands, rfl, rfl, rfl, rfl, .inl ⟨unread, quotedLine_of_unread rfl filled⟩⟩
  | @again w said =>
    refine ⟨l, raw, _, l.span (some file), stands, rfl, rfl, rfl, rfl, .inr ⟨w, ?_, ?_, ?_⟩⟩
    · exact workflow?_eq_some_iff.mp said
    · rw [span_of_workflow? said]
    · exact stands.quotedLine_eq rfl nofun

end Line

namespace Session

/-- A session and the loading of a rule book read a file alike, under whatever names they have it:
both give the same workflows in order at the same places, or the same report, apart from the name
of the file. Each workflow has the number of the line that says it, a report the number of the line
that cannot be read or defines a workflow again; and that line is the one shown. -/
theorem reads_as_loaded {bytes : List UInt8} {text : String}
    (decoded : textOfBytes bytes = .ok text) (file : String) (place path : Path) :
    ∃ source, sourceLines place (.ok bytes) = .ok source ∧
      RuleBook.load path (.ok bytes) =
        ((reading file source).ruleBook.map (RuleBook.inFile path.text)).mapError
          (fun fault => .rules (fault.inFile path.text)) ∧
      (∀ book, (reading file source).ruleBook = .ok book → ∀ w ∈ book.workflows,
        ∃ (l : Line) (raw : String), l.StandsIn source raw ∧
          l.statement (some file) = .ok (.workflow w) ∧ w.span = some (l.span (some file)) ∧
          ∀ d : Diagnostic, (∀ t, d.subject ≠ .line t) →
            Report.quotedLine d (l.span (some file)) source = some raw) ∧
      ∀ fault, (reading file source).ruleBook = .error fault →
        ∃ (l : Line) (raw : String) (d : Diagnostic) (span : Span), l.StandsIn source raw ∧
          fault = .report d ∧ d.span = some span ∧ span.line = l.number ∧ span.file = some file ∧
          ((l.statement (some file) = .error fault ∧
              Report.quotedLine d span source = some l.text) ∨
            ∃ w, l.statement (some file) = .ok (.workflow w) ∧
              d = .duplicateWorkflow w.name w.span ∧
              Report.quotedLine d span source = some raw) := by
  have same : (reading file (Blank.lines text)).ruleBook = RuleBook.ofText text (some file) :=
    RuleBook.ofText_rejoined text (some file)
  refine ⟨Blank.lines text, ?_, ?_, ?_, ?_⟩
  · unfold sourceLines
    simp only [decoded]
  · unfold RuleBook.load
    simp only [decoded]
    rw [same, RuleBook.ofText_inFile text path.text (some file)]
    cases RuleBook.ofText text (some file) <;> rfl
  · intro book read w mem
    exact Line.said_in_lines (same.symm.trans read) mem
  · intro fault failed
    exact Line.reported_in_lines (same.symm.trans failed)

theorem reads_as_loaded_at_third_line :
    ∃ bytes source d span,
      sourceLines (Path.ofText "rules") (.ok bytes) = .ok source ∧
      (reading "rules" source).ruleBook = .error (.report d) ∧ d.span = some span ∧
      span.line = 3 ∧ Report.quotedLine d span source = some "in{A}" ∧
      RuleBook.load (Path.ofText "../rules") (.ok bytes) =
        .error (.rules (.report (d.inFile "../rules"))) := by
  -- A line separator and a carriage return with a line feed stand before the third line of a file,
  -- which is the one reported and shown under both names.
  let bytes : List UInt8 := [0xe2, 0x80, 0xa8, 13, 10, 105, 110, 123, 65, 125, 13, 10, 13, 10]
  have decoded : textOfBytes bytes = .ok "\u2028\nin{A}\n\n" := by decide
  have split : sourceLines (Path.ofText "rules") (.ok bytes) = .ok ["", "", "in{A}", ""] := rfl
  obtain ⟨source, kept, loaded, _⟩ :=
    reads_as_loaded decoded "rules" (Path.ofText "rules") (Path.ofText "../rules")
  cases split.symm.trans kept
  have failed : (reading "rules" ["", "", "in{A}", ""]).ruleBook =
      .error (.report (.invalidLine "in{A}" 3 (some { line := 3, file := some "rules" }))) := rfl
  rw [failed] at loaded
  exact ⟨bytes, _, _, _, kept, failed, rfl, rfl, rfl, loaded⟩

end Session

end RouteVolume
