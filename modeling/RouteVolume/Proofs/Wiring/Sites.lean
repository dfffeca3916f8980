import RouteVolume.Proofs.Wiring.Rendering

namespace RouteVolume

namespace Junction

def site (j : Junction) : String × Nat := (j.workflow, j.position)

end Junction

namespace RuleBook

def rules (book : RuleBook) : List Rule := book.workflows.flatMap (·.rules)

def sites (book : RuleBook) : Set (String × Nat) :=
  {site | ∃ w, book.get? site.1 = some w ∧ site.2 < w.rules.length}

end RuleBook

namespace Wiring

section Rows

variable (goal : Destination → Nat) (w : Workflow)

theorem getElem?_chained (number position : Nat) (rules : List Rule) (i : Nat) :
    (chained goal w number position rules)[i]? = rules[i]?.map fun r =>
      { number := number + i, rule := r, workflow := w.name, position := position + i
        passed := goal r.destination
        failed := afterFail goal w (number + i + 1) (rules.drop (i + 1)) } := by
  induction rules generalizing number position i with
  | nil => rfl
  | cons r rest ih =>
    unfold chained
    cases i with
    | zero => rfl
    | succ i =>
      rw [List.getElem?_cons_succ, List.getElem?_cons_succ, ih, List.drop_succ_cons,
        Nat.add_right_comm number, Nat.add_right_comm position]
      rfl

theorem getElem?_junctionsOf (number i : Nat) :
    (junctionsOf goal w number)[i]? = w.rules[i]?.map fun r =>
      { number := if i = 0 then goal (.workflow w.name) else number + (i - 1)
        rule := r, workflow := w.name, position := i, passed := goal r.destination
        failed := afterFail goal w (number + i) (w.rules.drop (i + 1)) } := by
  -- Where the junction of a rule leads, and its number: that of the workflow for its first rule,
  -- and a number of its own for each rule behind.
  unfold junctionsOf
  cases i with
  | zero => rfl
  | succ i =>
    rw [List.getElem?_cons_succ, getElem?_chained, Workflow.rules, List.getElem?_cons_succ,
      List.drop_succ_cons, Nat.add_comm 1 i, if_neg (Nat.succ_ne_zero i)]
    rfl

theorem sites_junctionsOf (number : Nat) : (junctionsOf goal w number).map Junction.site =
    (List.range w.rules.length).map (w.name, ·) := by
  apply List.ext_getElem?
  intro i
  rw [List.getElem?_map, getElem?_junctionsOf, List.getElem?_map]
  by_cases within : i < w.rules.length
  · rw [List.getElem?_eq_getElem within, List.getElem?_range within]
    rfl
  · rw [List.getElem?_eq_none (Nat.le_of_not_lt within),
      List.getElem?_eq_none (by simpa using within)]
    rfl

theorem sites_junctions (number : Nat) (workflows : List Workflow) :
    (junctions goal number workflows).map Junction.site =
      workflows.flatMap fun w => (List.range w.rules.length).map (w.name, ·) := by
  induction workflows generalizing number with
  | nil => rfl
  | cons w rest ih =>
    rw [junctions, List.map_append, sites_junctionsOf, ih, List.flatMap_cons]

end Rows

structure Settled (goal : Destination → Nat) (w : Workflow) (js : List Junction) (j : Junction) :
    Prop where
  named : j.workflow = w.name
  rule_eq : w.rules[j.position]? = some j.rule
  passed : j.passed = goal j.rule.destination
  last : j.position + 1 = w.rules.length → j.failed = goal w.default
  next : j.position + 1 < w.rules.length →
    ∃ k ∈ js, k.site = (w.name, j.position + 1) ∧ j.failed = k.number

theorem settled_of_mem {goal : Destination → Nat} {w : Workflow} {number : Nat}
    {js : List Junction} (part : junctionsOf goal w number ⊆ js) {j : Junction}
    (mem : j ∈ junctionsOf goal w number) : Settled goal w js j := by
  obtain ⟨i, stored⟩ := List.mem_iff_getElem?.mp mem
  rw [getElem?_junctionsOf] at stored
  obtain ⟨r, rule, rfl⟩ := Option.map_eq_some_iff.mp stored
  refine ⟨rfl, rule, rfl, fun last => ?_, fun more => ?_⟩
  · dsimp only at last ⊢
    rw [last, List.drop_length, afterFail]
  · dsimp only at more ⊢
    have behind := getElem?_junctionsOf goal w number (i + 1)
    rw [List.getElem?_eq_getElem more, Option.map_some] at behind
    refine ⟨_, part (List.mem_of_getElem? behind), rfl, ?_⟩
    rw [List.drop_eq_getElem_cons more, afterFail, if_neg (Nat.succ_ne_zero i), Nat.add_sub_cancel]

def numberAt (book : RuleBook) (name : String) (position : Nat) : Nat :=
  (((layout book).find? fun j => j.site = (name, position)).map (·.number)).getD 0

section Keyed

variable {book : RuleBook} (keyed : book.Keyed)

theorem settled_of_mem_layout {j : Junction} (mem : j ∈ layout book) :
    ∃ w ∈ book.workflows, Settled (goal (entriesOf book)) w (layout book) j := by
  obtain ⟨w, within, number, own, part⟩ := origin_of_mem_junctions _ (mem_layout.mp mem)
  exact ⟨w, mem_ordered.mp within, settled_of_mem (fun k inside => mem_layout.mpr (part inside)) own⟩

theorem sites_layout : ((layout book).map Junction.site).Perm
    ((ordered book).flatMap fun w => (List.range w.rules.length).map (w.name, ·)) := by
  rw [← sites_junctions (goal (entriesOf book)) (3 + book.sortedEntries.length)]
  exact (junctions_perm _ _ _).symm.map _

theorem exists_junction {w : Workflow} (known : w ∈ book.workflows) {i : Nat}
    (within : i < w.rules.length) : ∃ j ∈ layout book, j.site = (w.name, i) := by
  have listed : (w.name, i) ∈ (layout book).map Junction.site := by
    rw [sites_layout.mem_iff, List.mem_flatMap]
    exact ⟨w, mem_ordered.mpr known, List.mem_map.mpr ⟨i, List.mem_range.mpr within, rfl⟩⟩
  exact List.mem_map.mp listed

theorem length_layout : (layout book).length = book.rules.length := by
  have sites : (layout book).length =
      ((ordered book).flatMap fun w => (List.range w.rules.length).map (w.name, ·)).length := by
    rw [← List.length_map (f := Junction.site), sites_layout.length_eq]
  have rules : ((ordered book).flatMap (·.rules)).length = book.rules.length :=
    ((book.sortedEntries_perm.map (·.2)).flatMap_right (·.rules)).length_eq
  rw [sites, ← rules, List.length_flatMap, List.length_flatMap]
  simp

include keyed

theorem nodup_sites_layout : ((layout book).map Junction.site).Nodup := by
  rw [sites_layout.nodup_iff, List.nodup_flatMap]
  have distinct := book.nodup_sortedEntries
  rw [← names_ordered keyed, List.Nodup, List.pairwise_map] at distinct
  refine ⟨fun w _ => List.nodup_range.map fun _ _ same => (Prod.mk.inj same).2, ?_⟩
  apply distinct.imp
  intro v w differ site left right
  obtain ⟨_, _, rfl⟩ := List.mem_map.mp left
  obtain ⟨_, _, same⟩ := List.mem_map.mp right
  exact differ (Prod.mk.inj same).1.symm

theorem eq_of_site {j k : Junction} (left : j ∈ layout book) (right : k ∈ layout book)
    (same : j.site = k.site) : j = k :=
  List.inj_on_of_nodup_map (nodup_sites_layout keyed) left right same

theorem numberAt_eq {j : Junction} (mem : j ∈ layout book) {name : String} {position : Nat}
    (site : j.site = (name, position)) : numberAt book name position = j.number := by
  unfold numberAt
  cases found : (layout book).find? fun j => j.site = (name, position) with
  | none => exact absurd site (by simpa using List.find?_eq_none.mp found j mem)
  | some k =>
    have there := List.find?_some found
    have same : k.site = j.site := (of_decide_eq_true there).trans site.symm
    rw [eq_of_site keyed (List.mem_of_find?_eq_some found) mem same]
    rfl

end Keyed

end Wiring

end RouteVolume
