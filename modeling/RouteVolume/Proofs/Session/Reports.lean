import RouteVolume.Command.Session
import RouteVolume.Proofs.Record.Printing
import RouteVolume.Proofs.RuleBook.Origin
import RouteVolume.Proofs.Survey.Cycles

namespace RouteVolume

structure Span.Shown (s : Span) : Prop where
  line : s.line.natAbs ≤ Report.mostBlanks + 1
  first : 1 ≤ s.column
  column : s.column ≤ Report.mostBlanks + 1

def Diagnostic.Shown (d : Diagnostic) : Prop := ∀ span, d.span = some span → span.Shown

theorem Numeral.lt_bound_of_le {n : Nat} (small : n ≤ Report.mostBlanks + 1) : n < bound := by
  have most : Report.mostBlanks + 1 < powerOfTen 11 := by decide
  have more : powerOfTen 11 ≤ bound := powerOfTen_mono (by decide)
  omega

namespace Report

theorem indent_returns {n : Int} (least : 0 ≤ n) (most : n ≤ mostBlanks) :
    indent n = .ok (blanks n.toNat) := by
  have word : fitsWord n = true := by
    unfold mostBlanks at most
    unfold fitsWord
    rw [Bool.and_eq_true, decide_eq_true_eq, decide_eq_true_eq]
    omega
  unfold indent
  rw [word, if_neg (by decide), if_neg (Int.not_lt.mpr most)]

theorem placeLines_returns (colour : Bool) (d : Diagnostic) {span : Span} (shown : span.Shown)
    (source : List String) : ∃ lines, placeLines colour d span source = .ok lines := by
  obtain ⟨line, lineText⟩ := Numeral.write_of_lt (Numeral.lt_bound_of_le shown.line)
  have column := (Numeral.write?_isSome_iff span.column).mpr
    (Numeral.lt_bound_of_le (by have := shown.first; have := shown.column; omega))
  obtain ⟨place, placeText⟩ : ∃ place, span.text = .ok place := by
    obtain ⟨column, columnText⟩ := Option.isSome_iff_exists.mp column
    unfold Numeral.write at lineText
    split at lineText
    · rename_i numeral
      unfold Span.text Span.text?
      rw [numeral, columnText]
      exact ⟨_, rfl⟩
    · cases lineText
  have room := indent_returns (Int.sub_nonneg_of_le shown.first)
    (Int.sub_left_le_of_le_add (Int.add_comm .. ▸ shown.column))
  unfold placeLines
  simp only [placeText, lineText, room, bind, Except.bind]
  cases quotedLine d span source with
  | none => exact ⟨_, rfl⟩
  | some quoted => exact ⟨_, rfl⟩

theorem diagnostic_returns (colour : Bool) {d : Diagnostic} (shown : d.Shown)
    (source : List String) : ∃ text, diagnostic colour d source = .ok text := by
  unfold diagnostic
  cases place : d.span with
  | none => exact ⟨_, rfl⟩
  | some span =>
    obtain ⟨lines, written⟩ := placeLines_returns colour d (shown span place) source
    simp only [written, bind, Except.bind]
    exact ⟨_, rfl⟩

end Report

theorem Session.fail_report (ctx : Context) (source : List String) (events : List Event)
    (out : List Piece) {d : Diagnostic} (shown : d.Shown) :
    ∃ err, fail ctx source events out (.report d) = ⟨out, err, .code (codeOf d)⟩ := by
  obtain ⟨text, written⟩ := Report.diagnostic_returns ctx.colour shown
    (if d.subject = .settings then [] else source)
  unfold fail
  simp only [written]
  exact ⟨_, rfl⟩

structure Diagnostic.Blames (d : Diagnostic) (numbers : List String) : Prop where
  number : d.code.number ∈ numbers
  code : Session.codeOf d = 1
  shown : d.Shown

theorem columnOf_le (cs : List Char) (pos : Nat) : columnOf cs pos ≤ cs.length + 1 := by
  have shorter := (List.takeWhile_sublist (l := (cs.take pos).reverse) (· ≠ '\n')).length_le
  rw [List.length_reverse, List.length_take] at shorter
  unfold columnOf
  omega

theorem Record.length_le_length_chars (name : List Char) (first : RuleForm) (rest : List RuleForm)
    (default : List Char) :
    (first :: rest).length ≤ (Record.workflow name first rest default).chars.length := by
  have each : rest.length ≤ (listed (rest.map RuleForm.chars)).length := by
    induction rest with
    | nil => exact Nat.zero_le _
    | cons r rest ih =>
      rw [List.map_cons, listed, List.flatMap_cons, List.length_append]
      unfold listed at ih
      simp only [List.length_cons]
      omega
  rw [Record.chars_workflow]
  simp only [List.length_append, List.length_cons]
  omega

theorem Line.length_le_of_mem_ofText {text : String} {l : Line} (mem : l ∈ Line.ofText text) :
    l.text.length ≤ text.length := by
  obtain ⟨_, raw, n, _, stored, stripped⟩ := Line.standsIn_of_mem_ofText mem
  rw [stripped]
  exact (Blank.length_strip_le raw).trans
    (Blank.length_le_of_mem_lines (List.mem_of_getElem? stored))

theorem RuleBook.labelled_of_ofText {text : String} (small : text.length < Numeral.bound)
    {source : Option String} {book : RuleBook} (read : ofText text source = .ok book) :
    ∀ w ∈ book.workflows, w.Writable := by
  -- The numbers in the labels of a rule text's workflows can be written: the thresholds were read,
  -- and there are no more positions than characters.
  intro w mem
  obtain ⟨l, there, said⟩ := Line.exists_of_read read mem
  have shorter := Line.length_le_of_mem_ofText there
  have reads := Line.workflow?_eq_some_iff.mp said
  have plain := (Workflow.chars_record_of_ofLine reads).1
  refine ⟨fun r rule => ?_, ?_⟩
  · exact (Numeral.length_digits_le_maxDigits_iff _).mp (plain.rules r rule).short
  · obtain ⟨r, proper, chars, _, gives⟩ := Statement.ofLine_eq_ok_iff.mp reads
    cases r with
    | rating => cases gives
    | workflow name first rest default =>
      cases gives
      have fewer := Record.length_le_length_chars name first rest default
      rw [chars, String.length_toList] at fewer
      simp only [Workflow.rules, List.length_cons, List.length_map] at fewer ⊢
      omega

section Text

variable {text : String} (short : text.length ≤ Report.mostBlanks)

include short

theorem Line.shown_of_mem_ofText {l : Line} (mem : l ∈ Line.ofText text) (source : Option String) :
    (l.span source).Shown := by
  obtain ⟨_, raw, n, number, stored, _⟩ := Line.standsIn_of_mem_ofText mem
  have within := (List.getElem?_eq_some_iff.mp stored).1
  have fewer := Blank.length_lines_le text
  have beginning : (1 : Int) ≤ Report.mostBlanks + 1 := by decide
  refine ⟨?_, Int.le_refl 1, beginning⟩
  rw [span, Int.natAbs_natCast, number]
  omega

theorem RuleBook.blames_of_ofText {source : Option String} {fault : Fault}
    (failed : ofText text source = .error fault) :
    ∃ d : Diagnostic, fault = .report d ∧ d.Blames ["RG-1001", "RG-1002", "RG-2002"] := by
  obtain ⟨l, there, d, rfl, reported⟩ := Line.exists_reported failed
  have place := Line.shown_of_mem_ofText short there source
  have shorter := Line.length_le_of_mem_ofText there
  refine ⟨d, rfl, ?_⟩
  cases reported with
  | invalid pos =>
    refine ⟨List.mem_cons_self, rfl, fun span at_ => ?_⟩
    cases at_
    have column := columnOf_le l.text.toList pos
    rw [String.length_toList] at column
    refine ⟨place.line, ?_, ?_⟩
    · exact Int.ofNat_le.mpr (Nat.le_add_left 1 _)
    · dsimp only
      omega
  | uninterpretable =>
    refine ⟨List.mem_cons_of_mem _ List.mem_cons_self, rfl, fun span at_ => ?_⟩
    cases at_
    exact place
  | again said =>
    refine ⟨List.mem_cons_of_mem _ (List.mem_cons_of_mem _ List.mem_cons_self), rfl,
      fun span at_ => ?_⟩
    cases at_
    exact place

theorem RuleBook.writable_of_ofText {source : Option String} {book : RuleBook}
    (read : ofText text source = .ok book) :
    ∀ w ∈ book.workflows, w.Writable ∧ ∀ span, w.span = some span → span.Shown := by
  intro w mem
  have small : text.length < Numeral.bound := Numeral.lt_bound_of_le (by omega)
  refine ⟨labelled_of_ofText small read w mem, fun span at_ => ?_⟩
  obtain ⟨l, there, said⟩ := Line.exists_of_read read mem
  rw [Line.span_of_workflow? said] at at_
  cases at_
  exact Line.shown_of_mem_ofText short there source

end Text

theorem RuleBook.keyed_of_ofText {text : String} {source : Option String} {book : RuleBook}
    (read : ofText text source = .ok book) : book.Keyed :=
  keyed_ofWorkflows read

theorem Wiring.Blames.blames {book : RuleBook} {d : Diagnostic} (blames : Blames book d)
    (shown : ∀ w ∈ book.workflows, ∀ span, w.span = some span → span.Shown) :
    d.Blames ["RG-2001", "RG-2004"] := by
  cases blames with
  | untested mem => exact ⟨List.mem_cons_of_mem _ List.mem_cons_self, rfl, shown _ mem⟩
  | startless => exact ⟨List.mem_cons_self, rfl, nofun⟩
  | astray mem => exact ⟨List.mem_cons_self, rfl, shown _ mem⟩

end RouteVolume
