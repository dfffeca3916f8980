import RouteVolume.Proofs.Record.Zeros

namespace RouteVolume

namespace Numeral

theorem write?_of_lt {n : Int} (short : n.natAbs < bound) :
    write? n = some (String.ofList (unlimited n)) :=
  if_pos short

theorem unlimited_of_nonneg {n : Int} (nonneg : 0 ≤ n) : unlimited n = digits n.natAbs :=
  if_neg (Int.not_lt.mpr nonneg)

theorem write_of_nonneg {n : Int} (nonneg : 0 ≤ n) (short : (digits n.natAbs).length ≤ 4300) :
    write n = .ok (String.ofList (digits n.natAbs)) := by
  have small : n.natAbs < bound := (length_digits_le_maxDigits_iff n.natAbs).mp short
  unfold write
  simp only [write?_of_lt small, unlimited_of_nonneg nonneg]

end Numeral

namespace Destination

/-- The destination is told by its label, which is a word. -/
def Plain : Destination → Prop
  | .accept => True
  | .reject => True
  | .workflow name => Word Char.isAlpha name.toList ∧ name ≠ "A" ∧ name ≠ "R"

theorem Plain.label_word {d : Destination} (plain : d.Plain) :
    Word Char.isAlpha d.label.toList := by
  cases d with
  | accept | reject => decide
  | workflow name => exact plain.1

theorem Plain.labelled_label {d : Destination} (plain : d.Plain) :
    labelled d.label.toList = d := by
  rw [← ofLabel_ofList, String.ofList_toList]
  cases d with
  | accept | reject => rfl
  | workflow name =>
    obtain ⟨-, notAccept, notReject⟩ := plain
    exact (if_neg notAccept).trans (if_neg notReject)

theorem label_labelled (label : List Char) :
    (labelled label).label.toList = label := by
  unfold labelled
  split
  · next accept => exact accept.symm
  · split
    · next reject => exact reject.symm
    · exact String.toList_ofList

theorem plain_labelled {label : List Char} (word : Word Char.isAlpha label) :
    (labelled label).Plain := by
  unfold labelled
  split
  · trivial
  · next notAccept =>
    split
    · trivial
    · next notReject =>
      refine ⟨by rwa [String.toList_ofList], ?_, ?_⟩
      · intro same
        exact notAccept (String.ofList_inj.mp same)
      · intro same
        exact notReject (String.ofList_inj.mp same)

end Destination

namespace Rule

structure Plain (r : Rule) : Prop where
  attr : Word Char.isLower r.attr.toList
  nonneg : 0 ≤ r.threshold.value
  short : (Numeral.digits r.threshold.value.natAbs).length ≤ 4300
  destination : r.destination.Plain

def form (r : Rule) : RuleForm where
  attr := r.attr.toList
  comparison := r.threshold.comparison
  digits := Numeral.digits r.threshold.value.natAbs
  label := r.destination.label.toList

variable {r : Rule}

theorem Plain.text_eq (plain : r.Plain) : r.text = .ok (String.ofList r.form.chars) := by
  rw [text, Threshold.text, Numeral.write_of_nonneg plain.nonneg plain.short]
  simp only [Except.map]
  congr 1
  apply String.toList_inj.mp
  simp [form, RuleForm.chars]

theorem Plain.form_proper (plain : r.Plain) : r.form.Proper where
  attr := plain.attr
  digits := ⟨Numeral.digits_ne_nil _, fun _ mem => Numeral.isDigit_of_mem_digits mem⟩
  label := plain.destination.label_word

theorem Plain.rule_form (plain : r.Plain) : r.form.rule = r := by
  have value : (Numeral.value (Numeral.digits r.threshold.value.natAbs) : Int) =
      r.threshold.value := by
    rw [Numeral.value_digits, Int.natAbs_of_nonneg plain.nonneg]
  have attr : String.ofList r.attr.toList = r.attr := String.ofList_toList
  unfold form RuleForm.rule
  rw [plain.destination.labelled_label, attr]
  exact congrArg (fun n => Rule.mk r.attr ⟨r.threshold.comparison, n⟩ r.destination) value

end Rule

namespace RuleForm

def canonical (r : RuleForm) : RuleForm :=
  { r with digits := Numeral.digits (Numeral.value r.digits) }

variable {r : RuleForm}

theorem form_rule (r : RuleForm) : r.rule.form = r.canonical := by
  unfold Rule.form rule canonical
  simp only [String.toList_ofList, Destination.label_labelled, Int.natAbs_natCast]
  rfl

theorem Proper.rule_plain (proper : r.Proper) (short : r.digits.length ≤ 4300) :
    r.rule.Plain where
  attr := by
    rw [rule, String.toList_ofList]
    exact proper.attr
  nonneg := Int.natCast_nonneg _
  short := by
    have stops : Stops Char.isDigit [] := by simp [Stops]
    have written : withoutZeros r.digits = Numeral.digits (Numeral.value r.digits) := by
      simpa [withoutZeros, withoutZerosFrom] using withoutZeros_word proper.digits stops
    have shorter := length_withoutZerosFrom_le false r.digits
    rw [← withoutZeros, written] at shorter
    exact Nat.le_trans shorter short
  destination := Destination.plain_labelled proper.label

theorem Proper.withoutZeros_chars (proper : r.Proper) (rest : List Char) :
    withoutZeros (r.chars ++ rest) = r.canonical.chars ++ withoutZeros rest := by
  have symbol : r.comparison.symbol.isDigit = false := r.comparison.symbol_outside rfl rfl
  have colon : Stops Char.isDigit (':' :: (r.label ++ rest)) := stops_cons.mpr (by decide)
  calc withoutZeros (r.chars ++ rest)
      = withoutZeros (r.attr ++ r.comparison.symbol :: (r.digits ++ ':' :: (r.label ++ rest))) := by
        simp [chars]
    _ = r.attr ++ r.comparison.symbol :: (Numeral.digits (Numeral.value r.digits) ++
          ':' :: (r.label ++ withoutZeros rest)) := by
        rw [withoutZeros_append proper.attr.alpha.not_digit, withoutZeros_cons symbol,
          withoutZeros_word proper.digits colon, withoutZeros_cons (by decide),
          withoutZeros_append proper.label.not_digit]
    _ = r.canonical.chars ++ withoutZeros rest := by simp [chars, canonical]

theorem withoutZeros_listed {forms : List RuleForm} (proper : ∀ r ∈ forms, r.Proper)
    (rest : List Char) :
    withoutZeros (Record.listed (forms.map chars) ++ rest) =
      Record.listed (forms.map fun r => r.canonical.chars) ++ withoutZeros rest := by
  induction forms with
  | nil => rfl
  | cons r forms ih =>
    obtain ⟨first, others⟩ := List.forall_mem_cons.mp proper
    calc withoutZeros (Record.listed ((r :: forms).map chars) ++ rest)
        = withoutZeros (',' :: (r.chars ++ (Record.listed (forms.map chars) ++ rest))) := by
          simp [Record.listed]
      _ = ',' :: (r.canonical.chars ++
            (Record.listed (forms.map fun r => r.canonical.chars) ++ withoutZeros rest)) := by
          rw [withoutZeros_cons (by decide), first.withoutZeros_chars, ih others]
      _ = _ := by simp [Record.listed]

end RuleForm

namespace Workflow

structure Plain (w : Workflow) : Prop where
  name : Word Char.isLower w.name.toList
  rules : ∀ r ∈ w.rules, r.Plain
  default : w.default.Plain

def record (w : Workflow) : Record :=
  .workflow w.name.toList w.first.form (w.rest.map Rule.form) w.default.label.toList

variable {w : Workflow}

theorem mapM_text {rules : List Rule} (plain : ∀ r ∈ rules, r.Plain) :
    rules.mapM Rule.text = .ok (rules.map fun r => String.ofList r.form.chars) := by
  induction rules with
  | nil => rfl
  | cons r rules ih =>
    obtain ⟨first, others⟩ := List.forall_mem_cons.mp plain
    rw [List.mapM_cons, first.text_eq, ih others]
    rfl

theorem Plain.text_eq (plain : w.Plain) : w.text = .ok (String.ofList w.record.chars) := by
  rw [text, mapM_text plain.rules]
  simp only [bind, Except.bind, pure, Except.pure]
  congr 1
  apply String.toList_inj.mp
  have rules : (",".intercalate (w.rules.map fun r => String.ofList r.form.chars)).toList =
      w.first.form.chars ++ Record.listed (w.rest.map fun r => r.form.chars) := by
    rw [← Record.commas_cons, String.toList_intercalate, Record.commas, Workflow.rules]
    simp [Function.comp_def]
  simp [rules, record, Record.chars_workflow, Function.comp_def]

theorem Plain.record_proper (plain : w.Plain) : w.record.Proper := by
  refine ⟨plain.name, ?_, plain.default.label_word⟩
  rw [← List.map_cons]
  exact List.forall_mem_map.mpr fun r mem => (plain.rules r mem).form_proper

theorem Plain.record_short (plain : w.Plain) : w.record.Short := by
  have forms : ∀ f ∈ w.rules.map Rule.form, f.digits.length ≤ 4300 :=
    List.forall_mem_map.mpr fun r mem => (plain.rules r mem).short
  exact List.forall_mem_map.mpr forms

theorem Plain.statement_record (plain : w.Plain) (span : Option Span) :
    w.record.statement span = .workflow { w with span := span } := by
  have first := (plain.rules w.first List.mem_cons_self).rule_form
  have rest : (w.rest.map Rule.form).map RuleForm.rule = w.rest := by
    rw [List.map_map]
    exact (List.map_congr_left fun r mem =>
      (plain.rules r (List.mem_cons_of_mem _ mem)).rule_form).trans (List.map_id _)
  simp only [record, Record.statement, first, rest, plain.default.labelled_label,
    String.ofList_toList]

theorem chars_record_of_ofLine {line : String} {span : Option Span}
    (read : Statement.ofLine line span = .ok (.workflow w)) :
    w.Plain ∧ w.record.chars = withoutZeros line.toList := by
  obtain ⟨r, proper, text, short, meaning⟩ := Statement.ofLine_eq_ok_iff.mp read
  cases r with
  | rating => cases meaning
  | workflow name first rest default =>
    cases meaning
    obtain ⟨nameWord, good, defaultWord⟩ := proper
    have rules : ∀ r ∈ (first :: rest).map RuleForm.rule, r.Plain :=
      List.forall_mem_map.mpr fun r mem =>
        (good r mem).rule_plain (short r.digits (List.mem_map_of_mem mem))
    refine ⟨⟨by rwa [String.toList_ofList], rules, Destination.plain_labelled defaultWord⟩, ?_⟩
    obtain ⟨goodFirst, goodRest⟩ := List.forall_mem_cons.mp good
    have tail : withoutZeros (',' :: (default ++ ['}'])) = ',' :: (default ++ ['}']) := by
      rw [withoutZeros_cons (by decide), withoutZeros_append defaultWord.not_digit]
      rfl
    rw [← text, Record.chars_workflow, withoutZeros_append nameWord.alpha.not_digit,
      withoutZeros_cons (by decide), goodFirst.withoutZeros_chars,
      RuleForm.withoutZeros_listed goodRest, tail]
    simp [record, Record.chars_workflow, RuleForm.form_rule, Destination.label_labelled,
      Function.comp_def]

/-- Reading gives back every plain workflow from its text. And every workflow that was read is
plain, and its text is the line less the zeros in front of its numbers. -/
theorem text_inverts_ofLine :
    (∀ w : Workflow, w.Plain → ∃ text, w.text = .ok text ∧
      ∀ span, Statement.ofLine text span = .ok (.workflow { w with span := span })) ∧
    (∀ (line : String) (span : Option Span) (w : Workflow),
      Statement.ofLine line span = .ok (.workflow w) →
      w.Plain ∧ w.text = .ok (String.ofList (withoutZeros line.toList)) ∧
      (ZeroFree line.toList → w.text = .ok line)) := by
  constructor
  · intro w plain
    refine ⟨String.ofList w.record.chars, plain.text_eq, fun span => ?_⟩
    exact Statement.ofLine_eq_ok_iff.mpr ⟨w.record, plain.record_proper,
      String.toList_ofList.symm, plain.record_short, plain.statement_record span⟩
  · intro line span w read
    obtain ⟨plain, chars⟩ := chars_record_of_ofLine read
    have text : w.text = .ok (String.ofList (withoutZeros line.toList)) := by
      rw [plain.text_eq, chars]
    refine ⟨plain, text, fun free => ?_⟩
    rw [text, withoutZeros_eq_self free, String.ofList_toList]

def pair : Workflow :=
  ⟨"in", ⟨"x", .below 7, .accept⟩, [⟨"m", .above 12, .workflow "b"⟩], .workflow "bR", none⟩

theorem ofLine_pair {line : String} (ds : List Char) (word : Word Char.isDigit ds)
    (short : ds.length ≤ 4300) (seven : Nat.ofDigitChars 10 ds 0 = 7)
    (text : (Record.workflow ['i', 'n'] ⟨['x'], .below, ds, ['A']⟩
      [⟨['m'], .above, ['1', '2'], ['b']⟩] ['b', 'R']).chars = line.toList) :
    Statement.ofLine line none = .ok (.workflow pair) := by
  have attr : Word Char.isLower ['x'] := by decide
  have label : Word Char.isAlpha ['A'] := by decide
  have first : RuleForm.Proper ⟨['x'], .below, ds, ['A']⟩ := ⟨attr, word, label⟩
  have second : RuleForm.Proper ⟨['m'], .above, ['1', '2'], ['b']⟩ :=
    ⟨by decide, by decide, by decide⟩
  have rules := List.forall_mem_cons.mpr ⟨first, List.forall_mem_singleton.mpr second⟩
  refine Statement.ofLine_eq_ok_iff.mpr ⟨_, ?_, text, ?_, ?_⟩
  · exact ⟨by decide, rules, by decide⟩
  · exact List.forall_mem_cons.mpr ⟨short, List.forall_mem_singleton.mpr (by decide)⟩
  · simp only [Record.statement, RuleForm.rule, seven]
    rfl

theorem text_of_pair :
    (∃ text, pair.text = .ok text ∧
      ∀ span, Statement.ofLine text span = .ok (.workflow { pair with span := span })) ∧
    pair.text = .ok (String.ofList (withoutZeros "in{x<007:A,m>12:b,bR}".toList)) ∧
    pair.text = .ok "in{x<7:A,m>12:b,bR}" := by
  have plain : pair.Plain := by
    have first : pair.first.Plain := ⟨by decide, by decide, by decide, trivial⟩
    have second : Rule.Plain ⟨"m", .above 12, .workflow "b"⟩ :=
      ⟨by decide, by decide, by decide, by decide, by decide, by decide⟩
    have rules := List.forall_mem_cons.mpr ⟨first, List.forall_mem_singleton.mpr second⟩
    exact ⟨by decide, rules, by decide, by decide, by decide⟩
  have padded : Statement.ofLine "in{x<007:A,m>12:b,bR}" none = .ok (.workflow pair) :=
    ofLine_pair ['0', '0', '7'] (by decide) (by decide) (by decide) (by decide)
  have bare : Statement.ofLine "in{x<7:A,m>12:b,bR}" none = .ok (.workflow pair) :=
    ofLine_pair ['7'] (by decide) (by decide) (by decide) (by decide)
  have free : ZeroFree "in{x<7:A,m>12:b,bR}".toList := by
    intro before c after text
    have zero : '0' ∈ "in{x<7:A,m>12:b,bR}".toList := by
      rw [text]
      exact List.mem_append_right before List.mem_cons_self
    exact absurd zero (by decide)
  exact ⟨text_inverts_ofLine.1 pair plain, (text_inverts_ofLine.2 _ none pair padded).2.1,
    (text_inverts_ofLine.2 _ none pair bare).2.2 free⟩

end Workflow

end RouteVolume
