import RouteVolume.Proofs.Wiring.Naming

namespace RouteVolume

namespace RuleBook

def Before (v : Workflow) (j : Nat) (w : Workflow) (i : Nat) : Prop :=
  v.name < w.name ∨ v.name = w.name ∧ j < i

structure First (book : RuleBook) (holds : Workflow → Nat → Prop) (w : Workflow) (i : Nat) :
    Prop where
  mem : w ∈ book.workflows
  here : holds w i
  least : ∀ v ∈ book.workflows, ∀ j, holds v j → ¬ Before v j w i

section First

variable {book : RuleBook} (keyed : book.Keyed) {holds : Workflow → Nat → Prop} {v w : Workflow}
  {i j : Nat}

include keyed

theorem First.unique (one : book.First holds v j) (two : book.First holds w i) : v = w ∧ j = i := by
  obtain ⟨notLess, less⟩ := not_or.mp (two.least v one.mem j one.here)
  obtain ⟨notMore, more⟩ := not_or.mp (one.least w two.mem i two.here)
  have name : v.name = w.name :=
    String.le_antisymm (String.not_lt.mp notMore) (String.not_lt.mp notLess)
  have stored := keyed.get?_name one.mem
  rw [name, keyed.get?_name two.mem] at stored
  refine ⟨(Option.some.inj stored).symm, Nat.le_antisymm ?_ ?_⟩
  · exact Nat.not_lt.mp fun larger => more ⟨name.symm, larger⟩
  · exact Nat.not_lt.mp fun smaller => less ⟨name, smaller⟩

theorem ascending_ordered : (Wiring.ordered book).Pairwise fun v w => v.name < w.name := by
  have ascending := List.pairwise_map.mpr book.ascending_sortedEntries
  rw [← Wiring.names_ordered keyed] at ascending
  exact List.pairwise_map.mp ascending

theorem first_of_split {front back : List Workflow}
    (split : Wiring.ordered book = front ++ w :: back) (here : holds w i)
    (front_free : ∀ v ∈ front, ∀ j, ¬ holds v j) (free : ∀ j < i, ¬ holds w j) :
    book.First holds w i := by
  have ascending := ascending_ordered keyed
  rw [split, List.pairwise_append, List.pairwise_cons] at ascending
  obtain ⟨_, ⟨behind, _⟩, _⟩ := ascending
  have mem : w ∈ Wiring.ordered book := split ▸ List.mem_append_right _ List.mem_cons_self
  refine ⟨Wiring.mem_ordered.mp mem, here, fun v within j there before => ?_⟩
  rw [← Wiring.mem_ordered, split, List.mem_append, List.mem_cons] at within
  rcases within with earlier | rfl | later
  · exact front_free v earlier j there
  · rcases before with less | ⟨_, less⟩
    · exact String.lt_irrefl _ less
    · exact free j less there
  · have larger := behind v later
    rcases before with less | ⟨same, _⟩
    · exact String.lt_irrefl _ (String.lt_trans less larger)
    · exact String.lt_irrefl _ (same ▸ larger)

end First

end RuleBook

namespace Wiring

def Untested (settings : Settings) (w : Workflow) (i : Nat) : Prop :=
  ∃ r, w.rules[i]? = some r ∧ r.attr ∉ settings.attrs

def Astray (book : RuleBook) (w : Workflow) (i : Nat) : Prop :=
  ∃ d, w.destinations[i]? = some d ∧ ¬ book.Resolves d

/-- The report that is due: the first that applies, if any. -/
inductive Due (book : RuleBook) (settings : Settings) : Option Diagnostic → Prop
  | misconfigured (found : settings.problems ≠ []) {texts : List String}
      (written : settings.problemTexts = .ok texts) :
      Due book settings (some (.invalidSettings texts))
  | untested (valid : settings.problems = []) {w : Workflow} {i : Nat} {r : Rule}
      (first : book.First (Untested settings) w i) (rule : w.rules[i]? = some r) :
      Due book settings (some (.unknownAttribute w.name r.attr settings.attrs w.span))
  | startless (valid : settings.problems = [])
      (known : ∀ w ∈ book.workflows, ∀ i, ¬ Untested settings w i)
      (missing : book.get? settings.start = none) :
      Due book settings (some (.unknownDestination settings.start none none))
  | astray (valid : settings.problems = [])
      (known : ∀ w ∈ book.workflows, ∀ i, ¬ Untested settings w i)
      (started : (book.get? settings.start).isSome) {w : Workflow} {i : Nat} {name : String}
      (first : book.First (Astray book) w i)
      (leads : w.destinations[i]? = some (.workflow name)) :
      Due book settings (some (.unknownDestination name (some w.name) w.span))
  | nothing (valid : settings.problems = [])
      (known : ∀ w ∈ book.workflows, ∀ i, ¬ Untested settings w i)
      (started : (book.get? settings.start).isSome)
      (resolves : ∀ w ∈ book.workflows, ∀ i, ¬ Astray book w i) :
      Due book settings none

section Due

variable {book : RuleBook} {settings : Settings}

theorem Due.number {d : Diagnostic} (due : Due book settings (some d)) :
    d.code.number ∈ ["RG-3001", "RG-2004", "RG-2001"] := by
  cases due with
  | misconfigured => exact List.mem_cons_self
  | untested => exact List.mem_cons_of_mem _ List.mem_cons_self
  | startless | astray => exact List.mem_of_getElem? (i := 2) rfl

theorem Due.unique (keyed : book.Keyed) {d e : Option Diagnostic} (one : Due book settings d)
    (two : Due book settings e) : d = e := by
  cases one with
  | misconfigured found written =>
    cases two with
    | misconfigured _ again =>
      cases written.symm.trans again
      rfl
    | untested valid | startless valid | astray valid | nothing valid => exact absurd valid found
  | untested valid first rule =>
    cases two with
    | misconfigured found => exact absurd valid found
    | untested _ second again =>
      obtain ⟨rfl, rfl⟩ := first.unique keyed second
      cases rule.symm.trans again
      rfl
    | startless _ known | astray _ known | nothing _ known =>
      exact absurd first.here (known _ first.mem _)
  | startless valid known missing =>
    cases two with
    | misconfigured found => exact absurd valid found
    | untested _ first => exact absurd first.here (known _ first.mem _)
    | startless => rfl
    | astray _ _ started | nothing _ _ started =>
      rw [missing] at started
      cases started
  | astray valid known started first leads =>
    cases two with
    | misconfigured found => exact absurd valid found
    | untested _ other => exact absurd other.here (known _ other.mem _)
    | startless _ _ missing =>
      rw [missing] at started
      cases started
    | astray _ _ _ second again =>
      obtain ⟨rfl, rfl⟩ := first.unique keyed second
      cases leads.symm.trans again
      rfl
    | nothing _ _ _ resolves => exact absurd first.here (resolves _ first.mem _)
  | nothing valid known started resolves =>
    cases two with
    | misconfigured found => exact absurd valid found
    | untested _ first => exact absurd first.here (known _ first.mem _)
    | startless _ _ missing =>
      rw [missing] at started
      cases started
    | astray _ _ _ first => exact absurd first.here (resolves _ first.mem _)
    | nothing => rfl

theorem forall_tested_iff :
    (∀ w ∈ book.workflows, ∀ i, ¬ Untested settings w i) ↔
      ∀ w ∈ book.workflows, ∀ r ∈ w.rules, r.attr ∈ settings.attrs := by
  refine forall₂_congr fun w _ => ⟨fun none_ r mem => ?_, fun known i ⟨r, rule, unknown⟩ => ?_⟩
  · obtain ⟨i, rule⟩ := List.mem_iff_getElem?.mp mem
    exact not_not.mp fun unknown => none_ i ⟨r, rule, unknown⟩
  · exact unknown (known r (List.mem_of_getElem? rule))

theorem forall_resolves_iff :
    (∀ w ∈ book.workflows, ∀ i, ¬ Astray book w i) ↔
      ∀ w ∈ book.workflows, ∀ d ∈ w.destinations, book.Resolves d := by
  refine forall₂_congr fun w _ => ⟨fun none_ d mem => ?_, fun known i ⟨d, leads, lost⟩ => ?_⟩
  · obtain ⟨i, leads⟩ := List.mem_iff_getElem?.mp mem
    exact not_not.mp fun lost => none_ i ⟨d, leads, lost⟩
  · exact lost (known d (List.mem_of_getElem? leads))

end Due

section Keyed

variable {book : RuleBook} {settings : Settings} (keyed : book.Keyed)

include keyed

theorem first_of_checkAttrs {fault : Fault}
    (failed : checkAttrs settings book.sortedEntries = .error fault) :
    ∃ w i r, book.First (Untested settings) w i ∧ w.rules[i]? = some r ∧
      fault = .report (.unknownAttribute w.name r.attr settings.attrs w.span) := by
  obtain ⟨front, ⟨key, w⟩, back, split, passed, inner⟩ := split_of_forM_error failed
  obtain ⟨before, r, after, rules, tested, refused⟩ := split_of_forM_error inner
  have front_known := checkAttrs_eq_ok_iff.mp (forM_eq_ok_iff.mpr passed)
  have stored : (key, w) ∈ book.sortedEntries := split ▸ List.mem_append_right _ List.mem_cons_self
  obtain rfl : w.name = key := keyed _ (book.sortedEntries_perm.mem_iff.mp stored)
  have rule : w.rules[before.length]? = some r := by simp [rules]
  have order : ordered book = front.map (·.2) ++ w :: back.map (·.2) := by
    rw [ordered, split, List.map_append, List.map_cons]
  split at refused
  · cases refused
  · rename_i unknown
    cases refused
    refine ⟨w, before.length, r, ?_, rule, rfl⟩
    refine RuleBook.first_of_split keyed order ⟨r, rule, unknown⟩ ?_ ?_
    · rintro v mem j ⟨other, there, untested⟩
      obtain ⟨entry, listed, rfl⟩ := List.mem_map.mp mem
      exact untested (front_known entry listed other (List.mem_of_getElem? there))
    · rintro j less ⟨other, there, untested⟩
      rw [rules, List.getElem?_append_left less] at there
      have fine := tested other (List.mem_of_getElem? there)
      rw [if_neg untested] at fine
      cases fine

theorem first_of_firstDangling? {w : Workflow} {name : String}
    (found : firstDangling? (entriesOf book) (ordered book) = some (w, name)) :
    ∃ i, book.First (Astray book) w i ∧ w.destinations[i]? = some (.workflow name) := by
  obtain ⟨front, v, back, order, leads, free⟩ := List.findSome?_eq_some_iff.mp found
  obtain ⟨_, here, same⟩ := Option.map_eq_some_iff.mp leads
  cases same
  obtain ⟨before, d, after, destinations, lost, fine⟩ := List.findSome?_eq_some_iff.mp here
  have leads : w.destinations[before.length]? = some d := by simp [destinations]
  have nowhere : ¬ book.Resolves d := by
    rw [← dangling?_entriesOf_eq_none_iff, lost]
    exact nofun
  obtain rfl : d = .workflow name := by
    cases d with
    | workflow other =>
      exact congrArg _ (Option.some.inj (Option.ite_none_right_eq_some.mp lost).2)
    | _ => cases lost
  refine ⟨before.length, RuleBook.first_of_split keyed order ⟨_, leads, nowhere⟩ ?_ ?_, leads⟩
  · intro v mem j ⟨d, there, astray⟩
    have none_ := List.findSome?_eq_none_iff.mp (Option.map_eq_none_iff.mp (free v mem)) d
      (List.mem_of_getElem? there)
    exact astray (dangling?_entriesOf_eq_none_iff.mp none_)
  · intro j less ⟨d, there, astray⟩
    rw [destinations, List.getElem?_append_left less] at there
    exact astray (dangling?_entriesOf_eq_none_iff.mp (fine d (List.mem_of_getElem? there)))

theorem exists_due (writable : settings.Writable) :
    (∃ d, Due book settings (some d) ∧ ofRuleBook book settings = .error (.report d)) ∨
      Due book settings none ∧ ∃ wiring, ofRuleBook book settings = .ok wiring := by
  by_cases valid : settings.problems = []
  · cases tested : checkAttrs settings book.sortedEntries with
    | error fault =>
      obtain ⟨w, i, r, first, rule, rfl⟩ := first_of_checkAttrs keyed tested
      unfold ofRuleBook
      simp only [Settings.check_eq_ok_iff.mpr valid, tested, bind, Except.bind]
      exact .inl ⟨_, .untested valid first rule, rfl⟩
    | ok _ =>
      have attrs := checkAttrs_sortedEntries.mp tested
      have known := forall_tested_iff.mpr attrs
      cases started : (book.get? settings.start).isSome with
      | false =>
        have missing : book.get? settings.start = none := by simpa using started
        unfold ofRuleBook
        simp only [Settings.check_eq_ok_iff.mpr valid, tested, missing, bind, Except.bind]
        exact .inl ⟨_, .startless valid known missing, rfl⟩
      | true =>
        have spec := ofRuleBook_spec keyed ⟨valid, attrs, started⟩
        split at spec
        · rename_i w name found
          obtain ⟨i, first, leads⟩ := first_of_firstDangling? keyed found
          exact .inl ⟨_, .astray valid known started first leads, spec⟩
        · rename_i none_
          have resolves := forall_resolves_iff.mpr (firstDangling?_eq_none_iff.mp none_)
          obtain ⟨wiring, made, _⟩ := spec
          exact .inr ⟨.nothing valid known started resolves, wiring, made⟩
  · obtain ⟨texts, written⟩ := writable.problemTexts_returns
    unfold ofRuleBook
    simp only [Settings.check_eq_of_problems valid written, bind, Except.bind]
    exact .inl ⟨_, .misconfigured valid written, rfl⟩

end Keyed

theorem frozen_of_ofRuleBook {book : RuleBook} {settings : Settings} {wiring : Wiring}
    (made : ofRuleBook book settings = .ok wiring) : wiring.network.frozen = true := by
  obtain ⟨g, _, _, rfl⟩ := draft_of_ofRuleBook made
  rfl

/-- Exactly one report is due, or none. What is due is what comes out: under settings whose domain
can be written, the report, or a frozen network where there is nothing to report. -/
theorem ofRuleBook_reports_first {made : List (Except Fault Workflow)} {book : RuleBook}
    {settings : Settings} (defined : RuleBook.ofWorkflows made = .ok book)
    (writable : settings.Writable) :
    ∃ due, (∀ other, Due book settings other ↔ other = due) ∧
      match due with
      | some d => ofRuleBook book settings = .error (.report d) ∧
          d.code.number ∈ ["RG-3001", "RG-2004", "RG-2001"]
      | none => ∃ wiring, ofRuleBook book settings = .ok wiring ∧ wiring.network.frozen = true := by
  have keyed := RuleBook.keyed_ofWorkflows defined
  have only {due : Option Diagnostic} (is : Due book settings due) (other : Option Diagnostic) :
      Due book settings other ↔ other = due :=
    ⟨fun also => also.unique keyed is, fun same => same ▸ is⟩
  rcases exists_due keyed writable with ⟨d, due, reported⟩ | ⟨due, wiring, built⟩
  · exact ⟨some d, only due, reported, due.number⟩
  · exact ⟨none, only due, wiring, built, frozen_of_ofRuleBook built⟩

/-- Two workflows that name workflows which are not there; the second comes first by its name. -/
def straying : RuleBook where
  entries := [
    ("in", ⟨"in", ⟨"x", .below 3, .workflow "lost"⟩, [], .workflow "b", some { line := 1 }⟩),
    ("b", ⟨"b", ⟨"m", .above 2, .accept⟩, [], .workflow "gone", some { line := 2 }⟩)]
  distinct := by decide

theorem straying_reports_first :
    RuleBook.ofWorkflows (straying.workflows.map .ok) = .ok straying ∧
    Survey.square.Writable ∧
    Due straying Survey.square
      (some (.unknownDestination "gone" (some "b") (some { line := 2 }))) := by
  have defined : RuleBook.ofWorkflows (straying.workflows.map .ok) = .ok straying := rfl
  have writable : Survey.square.Writable :=
    ⟨Numeral.lt_bound (by decide), Numeral.lt_bound (by decide)⟩
  have computed : ofRuleBook straying Survey.square =
      .error (.report (.unknownDestination "gone" (some "b") (some { line := 2 }))) := by cbv
  obtain ⟨due, only, outcome⟩ := ofRuleBook_reports_first defined writable
  refine ⟨defined, writable, (only _).mpr ?_⟩
  cases due with
  | some d =>
    rw [computed] at outcome
    cases outcome.1
    rfl
  | none =>
    obtain ⟨wiring, made, _⟩ := outcome
    rw [computed] at made
    cases made

end Wiring

end RouteVolume
