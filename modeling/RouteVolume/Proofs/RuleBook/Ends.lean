import RouteVolume.Proofs.RuleBook.Recasting

namespace RouteVolume.RuleBook

def Rejects (book : RuleBook) (settings : Settings) (p : Point) : Prop :=
  Relation.ReflTransGen (book.Continues (valueOf settings.attrs p)) (.workflow settings.start)
    .reject

variable {book : RuleBook} {settings : Settings} {p : Point}

theorem Continues.unique {value : String → Int} : Relator.RightUnique (book.Continues value) := by
  intro d e f one two
  obtain ⟨found⟩ := one
  generalize from_ : Destination.workflow _ = source at two
  obtain ⟨again⟩ := two
  cases from_
  rw [found] at again
  cases again
  rfl

theorem not_continues_accept {value : String → Int} {d : Destination} :
    ¬ book.Continues value .accept d := nofun

theorem not_continues_reject {value : String → Int} {d : Destination} :
    ¬ book.Continues value .reject d := nofun

theorem not_rejects_of_accepts (accepts : book.Accepts settings p) :
    ¬ book.Rejects settings p := by
  intro rejects
  rcases Relation.ReflTransGen.total_of_right_unique Continues.unique accepts rejects with
    onward | onward
  · obtain same | ⟨_, step, _⟩ := onward.cases_head
    · cases same
    · exact not_continues_accept step
  · obtain same | ⟨_, step, _⟩ := onward.cases_head
    · cases same
    · exact not_continues_reject step

theorem routes_of_continues {value : String → Int} {a b : String}
    (continues : book.Continues value (.workflow a) (.workflow b)) : book.Routes a b := by
  generalize into : Destination.workflow b = target at continues
  obtain ⟨found⟩ := continues
  exact ⟨_, found, into ▸ route_mem_destinations _ value⟩

theorem routes_of_runs {value : String → Int} {d e : Destination}
    (runs : Relation.TransGen (book.Continues value) d e) :
    ∀ a b, d = .workflow a → e = .workflow b → Relation.TransGen book.Routes a b := by
  induction runs with
  | single step =>
    rintro a b rfl rfl
    exact .single (routes_of_continues step)
  | @tail f _ runs step ih =>
    rintro a b rfl rfl
    cases f with
    | workflow c => exact (ih a c rfl rfl).tail (routes_of_continues step)
    | accept => exact absurd step not_continues_accept
    | reject => exact absurd step not_continues_reject

theorem exists_circle_of_endless
    (resolves : ∀ w ∈ book.workflows, ∀ d ∈ w.destinations, book.Resolves d)
    (started : book.Resolves (.workflow settings.start)) (endless : book.Endless settings p) :
    ∃ name, Relation.TransGen book.Routes name name := by
  obtain ⟨d, _, returns⟩ := exists_return_of_endless resolves started endless
  obtain ⟨_, step, _⟩ := Relation.TransGen.head'_iff.mp returns
  cases d with
  | workflow name => exact ⟨name, routes_of_runs returns name name rfl rfl⟩
  | accept => exact absurd step not_continues_accept
  | reject => exact absurd step not_continues_reject

theorem accepts_or_rejects
    (resolves : ∀ w ∈ book.workflows, ∀ d ∈ w.destinations, book.Resolves d)
    (started : book.Resolves (.workflow settings.start))
    (acyclic : ∀ name, ¬ Relation.TransGen book.Routes name name) (p : Point) :
    book.Accepts settings p ∨ book.Rejects settings p := by
  by_contra neither
  push Not at neither
  have endless : book.Endless settings p := by
    intro d reached
    constructor
    · rintro rfl
      exact neither.1 reached
    · rintro rfl
      exact neither.2 reached
  obtain ⟨name, circle⟩ := exists_circle_of_endless resolves started endless
  exact acyclic name circle

theorem accepts_exchange_iff :
    (book.recast .exchange).Accepts settings p ↔ book.Rejects settings p :=
  reaches_recast_iff (c := .exchange) (d := .workflow settings.start) (e := .reject)

end RouteVolume.RuleBook
