import RouteVolume.Proofs.RuleBook.Stages

namespace RouteVolume.RuleBook

def Extends (larger book : RuleBook) : Prop :=
  ∀ name w, book.get? name = some w → larger.get? name = some w

theorem extends_of_subset {book larger : RuleBook} (keyed : book.Keyed) (keyed' : larger.Keyed)
    (kept : ∀ w ∈ book.workflows, w ∈ larger.workflows) : larger.Extends book := by
  intro name w found
  rw [← keyed.name_eq found]
  exact keyed'.get?_name (kept w (mem_workflows_of_get? found))

section Extends

variable {book larger : RuleBook} (extends_ : larger.Extends book)

include extends_

theorem Holds.of_extends {s : Stage} (holds : book.Holds s) : larger.Holds s := by
  cases s with
  | rule name i =>
    obtain ⟨w, found, within⟩ := holds
    exact ⟨w, extends_ name w found, within⟩
  | accept | reject => trivial

theorem get?_of_extends {name : String} {w : Workflow} (known : (book.get? name).isSome)
    (found : larger.get? name = some w) : book.get? name = some w := by
  obtain ⟨v, stored⟩ := Option.isSome_iff_exists.mp known
  have same := extends_ name v stored
  rw [found] at same
  rw [stored, same]

theorem Branches.of_extends {s t : Stage} {r : Rule} {passage : Passage}
    (branches : larger.Branches s r passage t) (holds : book.Holds s) :
    book.Branches s r passage t := by
  obtain ⟨name, i, rfl⟩ := branches.exists_site
  obtain ⟨v, stored, _⟩ := holds
  have known : (book.get? name).isSome := by rw [stored]; rfl
  cases branches with
  | pass found rule => exact .pass (get?_of_extends extends_ known found) rule
  | next found rule more => exact .next (get?_of_extends extends_ known found) rule more
  | default found rule last => exact .default (get?_of_extends extends_ known found) rule last

theorem continues_of_extends {value : String → Int} {d e : Destination}
    (continues : larger.Continues value d e) (known : book.Resolves d) :
    book.Continues value d e := by
  obtain ⟨found⟩ := continues
  exact .route (get?_of_extends extends_ known found)

variable (resolves : ∀ w ∈ book.workflows, ∀ d ∈ w.destinations, book.Resolves d)
  {settings : Settings} (started : book.Resolves (.workflow settings.start))

include resolves started

theorem get?_isSome_of_routes {name : String}
    (reached : Relation.ReflTransGen larger.Routes settings.start name) :
    (book.get? name).isSome := by
  -- What is added is out of reach: no destination of the smaller rule book leads there.
  induction reached with
  | refl => exact started
  | tail _ step ih =>
    obtain ⟨w, found, listed⟩ := step
    exact resolves w (mem_workflows_of_get? (get?_of_extends extends_ ih found)) _ listed

theorem accepts_iff_of_extends (p : Point) :
    larger.Accepts settings p ↔ book.Accepts settings p := by
  constructor
  · intro accepts
    have inside {d : Destination} (reached : Relation.ReflTransGen
        (larger.Continues (valueOf settings.attrs p)) (.workflow settings.start) d) :
        Relation.ReflTransGen (book.Continues (valueOf settings.attrs p))
          (.workflow settings.start) d ∧ book.Resolves d := by
      induction reached with
      | refl => exact ⟨.refl, started⟩
      | tail _ step ih =>
        have kept := continues_of_extends extends_ step ih.2
        exact ⟨ih.1.tail kept, resolves_of_continues resolves kept⟩
    exact (inside accepts).1
  · refine Relation.ReflTransGen.mono (fun d e step => ?_) _ _
    obtain ⟨found⟩ := step
    exact .route (extends_ _ _ found)

end Extends

section Retraced

variable {book : RuleBook} {name : String} {i : Nat}

theorem Branches.rule_target {other : String} {k : Nat} {r : Rule} {passage : Passage}
    (branches : book.Branches (.rule name i) r passage (.rule other k)) :
    other = name ∧ k = i + 1 ∨ book.Routes name other := by
  have routed {w : Workflow} {d : Destination} (found : book.get? name = some w)
      (listed : d ∈ w.destinations) (target : d.stage = .rule other k) :
      book.Routes name other := by
    cases d <;> cases target
    exact ⟨w, found, listed⟩
  generalize target : Stage.rule other k = t at branches
  cases branches with
  | pass found rule =>
    have listed := List.mem_map_of_mem (f := (·.destination)) (List.mem_of_getElem? rule)
    exact .inr (routed found (List.mem_append_left _ listed) target.symm)
  | next found rule more =>
    cases target
    exact .inl ⟨rfl, rfl⟩
  | default found rule last =>
    exact .inr (routed found (List.mem_append_right _ (List.mem_singleton_self _)) target.symm)

theorem Branches.routes {first other : String} {j k : Nat} {r : Rule} {passage : Passage}
    (branches : book.Branches (.rule first j) r passage (.rule other k))
    (later : other = name ∧ k ≤ i ∨ Relation.TransGen book.Routes other name) :
    first = name ∧ j < i ∨ Relation.TransGen book.Routes first name := by
  rcases branches.rule_target with ⟨rfl, rfl⟩ | routes
  · exact later.imp_left fun ⟨same, less⟩ => ⟨same, less⟩
  · rcases later with ⟨rfl, _⟩ | onward
    · exact .inr (.single routes)
    · exact .inr (.head routes onward)

theorem routes_of_proceeds {value : String → Int} {s : Stage}
    (runs : Relation.ReflTransGen (book.Proceeds value) s (.rule name i)) :
    ∃ other k, s = .rule other k ∧
      (other = name ∧ k ≤ i ∨ Relation.TransGen book.Routes other name) := by
  induction runs using Relation.ReflTransGen.head_induction_on with
  | refl => exact ⟨name, i, rfl, .inl ⟨rfl, Nat.le_refl _⟩⟩
  | head step _ ih =>
    obtain ⟨_, _, branches, _⟩ := step
    obtain ⟨_, _, rfl, later⟩ := ih
    obtain ⟨first, j, rfl⟩ := branches.exists_site
    exact ⟨first, j, rfl, (branches.routes later).imp_left fun ⟨same, less⟩ => ⟨same, less.le⟩⟩

theorem Retraced.routes {settings : Settings} (retraced : book.Retraced settings (.rule name i)) :
    Relation.TransGen book.Routes name name := by
  obtain ⟨r, passage, t, branches, q, _, comes, _⟩ := retraced
  obtain ⟨_, _, rfl, later⟩ := routes_of_proceeds comes
  exact (branches.routes later).resolve_left fun ⟨_, less⟩ => Nat.lt_irrefl _ less

end Retraced

end RouteVolume.RuleBook
