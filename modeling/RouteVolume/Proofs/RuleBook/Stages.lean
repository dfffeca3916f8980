import Mathlib.Data.Fintype.Pigeonhole
import RouteVolume.Proofs.RuleBook.Evaluation

namespace RouteVolume

inductive Stage where
  | rule (workflow : String) (position : Nat)
  | accept
  | reject
  deriving DecidableEq, Repr

def Destination.stage : Destination → Stage
  | .accept => .accept
  | .reject => .reject
  | .workflow name => .rule name 0

namespace RuleBook

inductive Branches (book : RuleBook) : Stage → Rule → Passage → Stage → Prop
  | pass {name : String} {w : Workflow} {i : Nat} {r : Rule} (found : book.get? name = some w)
      (rule : w.rules[i]? = some r) : Branches book (.rule name i) r .pass r.destination.stage
  | next {name : String} {w : Workflow} {i : Nat} {r : Rule} (found : book.get? name = some w)
      (rule : w.rules[i]? = some r) (more : i + 1 < w.rules.length) :
      Branches book (.rule name i) r .fail (.rule name (i + 1))
  | default {name : String} {w : Workflow} {i : Nat} {r : Rule} (found : book.get? name = some w)
      (rule : w.rules[i]? = some r) (last : i + 1 = w.rules.length) :
      Branches book (.rule name i) r .fail w.default.stage

def Proceeds (book : RuleBook) (value : String → Int) (s t : Stage) : Prop :=
  ∃ r passage, book.Branches s r passage t ∧
    passage.outcome? = some (r.threshold.passes (value r.attr))

def Holds (book : RuleBook) : Stage → Prop
  | .rule name i => ∃ w, book.get? name = some w ∧ i < w.rules.length
  | _ => True

namespace Branches

variable {book : RuleBook} {s t u : Stage} {r q : Rule} {passage : Passage}

theorem holds_source (branches : book.Branches s r passage t) : book.Holds s := by
  cases branches with
  | pass found rule => exact ⟨_, found, (List.getElem?_eq_some_iff.mp rule).1⟩
  | next found rule _ => exact ⟨_, found, (List.getElem?_eq_some_iff.mp rule).1⟩
  | default found rule _ => exact ⟨_, found, (List.getElem?_eq_some_iff.mp rule).1⟩

theorem rule_eq (branches : book.Branches s r passage t) {name : String} {i : Nat}
    (site : s = .rule name i) : ∃ w, book.get? name = some w ∧ w.rules[i]? = some r := by
  cases branches <;> cases site <;> exact ⟨_, by assumption, by assumption⟩

theorem outcome (branches : book.Branches s r passage t) :
    ∃ passed, passage.outcome? = some passed := by
  cases branches with
  | pass _ _ => exact ⟨true, rfl⟩
  | next _ _ _ => exact ⟨false, rfl⟩
  | default _ _ _ => exact ⟨false, rfl⟩

theorem exists_site (branches : book.Branches s r passage t) : ∃ name i, s = .rule name i := by
  cases branches <;> exact ⟨_, _, rfl⟩

end Branches

section Runs

variable {book : RuleBook} {value : String → Int} {name : String} {w : Workflow}

theorem runs_routeFrom (found : book.get? name = some w) (before : List Rule) (r : Rule)
    (rest : List Rule) (split : w.rules = before ++ r :: rest) :
    Relation.TransGen (book.Proceeds value) (.rule name before.length)
      (Workflow.routeFrom value w.default (r :: rest)).stage := by
  induction rest generalizing before r with
  | nil =>
    have rule : w.rules[before.length]? = some r := by simp [split]
    unfold Workflow.routeFrom
    split
    · rename_i passes
      exact .single ⟨r, .pass, .pass found rule, by rw [passes]; rfl⟩
    · rename_i fails
      exact .single ⟨r, .fail, .default found rule (by simp [split]),
        by rw [Bool.eq_false_iff.mpr fails]; rfl⟩
  | cons next rest ih =>
    have rule : w.rules[before.length]? = some r := by simp [split]
    unfold Workflow.routeFrom
    split
    · rename_i passes
      exact .single ⟨r, .pass, .pass found rule, by rw [passes]; rfl⟩
    · rename_i fails
      have later := ih (before ++ [r]) next (by simp [split])
      rw [List.length_append, List.length_singleton] at later
      exact .head ⟨r, .fail, .next found rule (by simp [split]),
        by rw [Bool.eq_false_iff.mpr fails]; rfl⟩ later

theorem runs_of_continues {d e : Destination} (continues : book.Continues value d e) :
    Relation.TransGen (book.Proceeds value) d.stage e.stage := by
  obtain ⟨found⟩ := continues
  exact runs_routeFrom found [] _ _ rfl

end Runs

/-- Does the evaluation of a point come neither to Accept nor to Reject? -/
def Endless (book : RuleBook) (settings : Settings) (p : Point) : Prop :=
  ∀ d, Relation.ReflTransGen (book.Continues (valueOf settings.attrs p))
    (.workflow settings.start) d → d ≠ .accept ∧ d ≠ .reject

theorem endless_of_route {book : RuleBook} {settings : Settings} {p : Point} {w : Workflow}
    (found : book.get? settings.start = some w)
    (back : w.route (valueOf settings.attrs p) = .workflow settings.start) :
    book.Endless settings p := by
  intro d reached
  suffices stays : d = .workflow settings.start by
    rw [stays]
    exact ⟨nofun, nofun⟩
  induction reached with
  | refl => rfl
  | tail _ step ih =>
    subst ih
    generalize start : Destination.workflow settings.start = from_ at step
    obtain ⟨again⟩ := step
    cases start
    rw [found] at again
    cases again
    exact back

theorem mem_routeFrom (value : String → Int) (default : Destination) (rules : List Rule) :
    Workflow.routeFrom value default rules ∈ rules.map (·.destination) ++ [default] := by
  induction rules with
  | nil => exact List.mem_singleton_self _
  | cons r rest ih =>
    unfold Workflow.routeFrom
    split
    · exact List.mem_cons_self
    · exact List.mem_cons_of_mem _ ih

theorem route_mem_destinations (w : Workflow) (value : String → Int) :
    w.route value ∈ w.destinations := mem_routeFrom value w.default w.rules

theorem resolves_of_continues {book : RuleBook} {value : String → Int}
    (resolves : ∀ w ∈ book.workflows, ∀ d ∈ w.destinations, book.Resolves d) {d e : Destination}
    (continues : book.Continues value d e) : book.Resolves e := by
  obtain ⟨found⟩ := continues
  exact resolves _ (mem_workflows_of_get? found) _ (route_mem_destinations _ value)

theorem exists_iterate_eq {α : Type} [Finite α] (next : α → α) (start : α) :
    ∃ m k, next^[m + (k + 1)] start = next^[m] start := by
  obtain ⟨m, n, differ, same⟩ :=
    Finite.exists_ne_map_eq_of_infinite fun n : Nat => next^[n] start
  rcases Nat.lt_or_gt_of_ne differ with less | more
  · exact ⟨m, n - m - 1, by rw [show m + (n - m - 1 + 1) = n by omega]; exact same.symm⟩
  · exact ⟨n, m - n - 1, by rw [show n + (m - n - 1 + 1) = m by omega]; exact same⟩

theorem exists_return_of_endless {book : RuleBook} {settings : Settings} {p : Point}
    (resolves : ∀ w ∈ book.workflows, ∀ d ∈ w.destinations, book.Resolves d)
    (started : book.Resolves (.workflow settings.start)) (endless : book.Endless settings p) :
    ∃ d, Relation.ReflTransGen (book.Continues (valueOf settings.attrs p))
        (.workflow settings.start) d ∧
      Relation.TransGen (book.Continues (valueOf settings.attrs p)) d d := by
  let continues := book.Continues (valueOf settings.attrs p)
  let Reached := {name : String // name ∈ book.keys ∧
    Relation.ReflTransGen continues (.workflow settings.start) (.workflow name)}
  have listed {name : String} (known : book.Resolves (.workflow name)) : name ∈ book.keys := by
    obtain ⟨w, found⟩ := Option.isSome_iff_exists.mp known
    exact List.mem_map_of_mem (get?_eq_some_iff.mp found)
  have onward (n : Reached) : ∃ m : Reached, continues (.workflow n.1) (.workflow m.1) := by
    obtain ⟨name, known, reached⟩ := n
    obtain ⟨⟨_, w⟩, stored, rfl⟩ := List.mem_map.mp known
    have step : continues (.workflow _) (w.route _) := .route (get?_eq_some_iff.mpr stored)
    have further := reached.tail step
    obtain ⟨goesOn, stays⟩ := endless _ further
    have next := resolves_of_continues resolves step
    cases route : w.route (valueOf settings.attrs p) with
    | accept => exact absurd route goesOn
    | reject => exact absurd route stays
    | workflow other =>
      rw [route] at step further next
      exact ⟨⟨other, listed next, further⟩, step⟩
  have finite : Finite Reached :=
    Finite.of_injective (fun n : Reached => (⟨n.1, n.2.1⟩ : {name // name ∈ book.keys}))
      fun n m same => Subtype.ext (congrArg (·.1) same)
  choose next step using onward
  have run (n : Reached) (k : Nat) :
      Relation.TransGen continues (.workflow n.1) (.workflow (next^[k + 1] n).1) := by
    induction k with
    | zero => exact .single (step n)
    | succ k ih =>
      rw [Function.iterate_succ_apply']
      exact ih.tail (step _)
  obtain ⟨m, k, back⟩ := exists_iterate_eq next ⟨settings.start, listed started, .refl⟩
  rw [Nat.add_comm m, Function.iterate_add_apply] at back
  have returns := run (next^[m] ⟨settings.start, listed started, .refl⟩) k
  rw [back] at returns
  exact ⟨_, (next^[m] _).2.2, returns⟩

/-- A rule that a point passes again and again, and where it goes from there each time. -/
structure Circuit (book : RuleBook) (settings : Settings) (p : Point) (s t : Stage) : Prop where
  comes : Relation.ReflTransGen (book.Proceeds (valueOf settings.attrs p))
    (.rule settings.start 0) s
  leaves : book.Proceeds (valueOf settings.attrs p) s t
  returns : Relation.ReflTransGen (book.Proceeds (valueOf settings.attrs p)) t s

theorem exists_circuit_of_endless {book : RuleBook} {settings : Settings} {p : Point}
    (resolves : ∀ w ∈ book.workflows, ∀ d ∈ w.destinations, book.Resolves d)
    (started : book.Resolves (.workflow settings.start)) (endless : book.Endless settings p) :
    ∃ s t, book.Circuit settings p s t := by
  obtain ⟨d, comes, returns⟩ := exists_return_of_endless resolves started endless
  have run : Relation.ReflTransGen (book.Proceeds (valueOf settings.attrs p))
      (Destination.workflow settings.start).stage d.stage :=
    Relation.ReflTransGen.lift' Destination.stage
      (fun _ _ step => (runs_of_continues step).to_reflTransGen) _ _ comes
  have circle := Relation.TransGen.lift' Destination.stage (fun _ _ => runs_of_continues) _ _ returns
  obtain ⟨t, leaves, back⟩ := Relation.TransGen.head'_iff.mp circle
  exact ⟨d.stage, t, run, leaves, back⟩

/-- Does some point of the domain come from one stage to another, and on from there to Accept? -/
def Escapes (book : RuleBook) (settings : Settings) (t s : Stage) : Prop :=
  ∃ q ∈ settings.domain, Relation.ReflTransGen (book.Proceeds (valueOf settings.attrs q)) t s ∧
    Relation.ReflTransGen (book.Proceeds (valueOf settings.attrs q)) s .accept

/-- Does a rule lead to where some point comes from, back to the rule and on to Accept? So a walk
backwards from Accept comes to the rule again. -/
def Retraced (book : RuleBook) (settings : Settings) (s : Stage) : Prop :=
  ∃ r passage t, book.Branches s r passage t ∧ book.Escapes settings t s

theorem Circuit.retraced {book : RuleBook} {settings : Settings} {p : Point} {s t : Stage}
    (circuit : book.Circuit settings p s t) (escapes : book.Escapes settings t s) :
    book.Retraced settings s := by
  obtain ⟨r, passage, branches, _⟩ := circuit.leaves
  exact ⟨r, passage, t, branches, escapes⟩

end RuleBook

end RouteVolume
