import RouteVolume.Proofs.RuleBook.Stages

namespace RouteVolume

structure Recasting where
  name : String → String
  injective : Function.Injective name
  /-- Do the two ends change places? -/
  swapped : Bool := false

namespace Recasting

/-- The names stay, and the ends change places. -/
def exchange : Recasting := ⟨id, Function.injective_id, true⟩

/-- The workflows get other names, and the ends stay. -/
def rename {name : String → String} (injective : Function.Injective name) : Recasting :=
  ⟨name, injective, false⟩

def destination (c : Recasting) : Destination → Destination
  | .accept => if c.swapped then .reject else .accept
  | .reject => if c.swapped then .accept else .reject
  | .workflow name => .workflow (c.name name)

theorem destination_injective (c : Recasting) : Function.Injective c.destination := by
  intro d e same
  cases swaps : c.swapped <;> cases d <;> cases e <;>
    simp [destination, swaps, c.injective.eq_iff] at same ⊢ <;> exact same

def stage (c : Recasting) : Stage → Stage
  | .rule name i => .rule (c.name name) i
  | .accept => if c.swapped then .reject else .accept
  | .reject => if c.swapped then .accept else .reject

theorem stage_destination (c : Recasting) (d : Destination) :
    (c.destination d).stage = c.stage d.stage := by
  cases swaps : c.swapped <;> cases d <;> simp [destination, Destination.stage, stage, swaps]

theorem stage_injective (c : Recasting) : Function.Injective c.stage := by
  intro s t same
  cases swaps : c.swapped <;> cases s <;> cases t <;>
    simp [stage, swaps, c.injective.eq_iff] at same ⊢ <;> exact same

end Recasting

def Rule.recast (r : Rule) (c : Recasting) : Rule :=
  { r with destination := c.destination r.destination }

namespace Workflow

def recast (w : Workflow) (c : Recasting) : Workflow where
  name := c.name w.name
  first := w.first.recast c
  rest := w.rest.map (·.recast c)
  default := c.destination w.default
  span := w.span

variable (w : Workflow) (c : Recasting)

@[simp] theorem rules_recast : (w.recast c).rules = w.rules.map (·.recast c) := rfl

theorem destinations_recast : (w.recast c).destinations = w.destinations.map c.destination := by
  simp [destinations, recast, rules, Rule.recast]

theorem route_recast (value : String → Int) :
    (w.recast c).route value = c.destination (w.route value) := by
  unfold route
  rw [rules_recast]
  generalize w.rules = rules
  induction rules with
  | nil => rfl
  | cons r rest ih =>
    rw [List.map_cons, routeFrom, routeFrom]
    by_cases passes : r.threshold.passes (value r.attr) <;> simp [Rule.recast, passes]
    exact ih

end Workflow

def Settings.recast (s : Settings) (c : Recasting) : Settings := { s with start := c.name s.start }

namespace RuleBook

def recast (book : RuleBook) (c : Recasting) : RuleBook where
  entries := book.entries.map fun (key, w) => (c.name key, w.recast c)
  distinct := by
    have renamed := book.distinct.map c.injective
    rw [List.map_map] at renamed ⊢
    exact renamed

variable {book : RuleBook} {c : Recasting}

theorem mem_recast {key : String} {v : Workflow} :
    (key, v) ∈ (book.recast c).entries ↔
      ∃ name w, (name, w) ∈ book.entries ∧ c.name name = key ∧ w.recast c = v := by
  simp [recast]

theorem get?_recast_eq_some_iff {key : String} {v : Workflow} :
    (book.recast c).get? key = some v ↔
      ∃ name w, book.get? name = some w ∧ c.name name = key ∧ w.recast c = v := by
  simp only [get?_eq_some_iff, mem_recast]

theorem get?_recast (name : String) :
    (book.recast c).get? (c.name name) = (book.get? name).map (·.recast c) := by
  ext v
  rw [get?_recast_eq_some_iff, Option.map_eq_some_iff]
  constructor
  · intro ⟨other, w, found, same, made⟩
    exact ⟨w, c.injective same ▸ found, made⟩
  · intro ⟨w, found, made⟩
    exact ⟨name, w, found, rfl, made⟩

theorem get?_recast_of {name : String} {w : Workflow} (found : book.get? name = some w) :
    (book.recast c).get? (c.name name) = some (w.recast c) := by
  rw [get?_recast, found]
  rfl

theorem workflows_recast : (book.recast c).workflows = book.workflows.map (·.recast c) := by
  simp [workflows, recast]

theorem forall_workflows_recast {p : Workflow → Prop} :
    (∀ w ∈ (book.recast c).workflows, p w) ↔ ∀ w ∈ book.workflows, p (w.recast c) := by
  rw [workflows_recast, List.forall_mem_map]

theorem Keyed.recast (keyed : book.Keyed) : (book.recast c).Keyed := by
  rintro ⟨key, v⟩ mem
  obtain ⟨name, w, stored, rfl, rfl⟩ := mem_recast.mp mem
  exact congrArg c.name (keyed _ stored)

theorem resolves_recast {d : Destination} :
    (book.recast c).Resolves (c.destination d) ↔ book.Resolves d := by
  cases d with
  | workflow name => simp [Recasting.destination, Resolves, get?_recast]
  | accept | reject => cases swaps : c.swapped <;> simp [Recasting.destination, Resolves, swaps]

theorem forall_resolves_recast :
    (∀ w ∈ (book.recast c).workflows, ∀ d ∈ w.destinations, (book.recast c).Resolves d) ↔
      ∀ w ∈ book.workflows, ∀ d ∈ w.destinations, book.Resolves d := by
  rw [forall_workflows_recast]
  simp only [Workflow.destinations_recast, List.forall_mem_map, resolves_recast]

theorem leads_recast_iff {settings : Settings} :
    ((book.recast c).Resolves (.workflow (settings.recast c).start) ∧
      ∀ w ∈ (book.recast c).workflows, ∀ d ∈ w.destinations, (book.recast c).Resolves d) ↔
    (book.Resolves (.workflow settings.start) ∧
      ∀ w ∈ book.workflows, ∀ d ∈ w.destinations, book.Resolves d) :=
  and_congr (resolves_recast (d := .workflow settings.start)) forall_resolves_recast

theorem forall_attrs_recast {attrs : List String} :
    (∀ w ∈ (book.recast c).workflows, ∀ r ∈ w.rules, r.attr ∈ attrs) ↔
      ∀ w ∈ book.workflows, ∀ r ∈ w.rules, r.attr ∈ attrs := by
  rw [forall_workflows_recast]
  simp only [Workflow.rules_recast, List.forall_mem_map]
  rfl

theorem Continues.recast {value : String → Int} {d e : Destination}
    (continues : book.Continues value d e) :
    (book.recast c).Continues value (c.destination d) (c.destination e) := by
  obtain ⟨found⟩ := continues
  rw [← Workflow.route_recast]
  exact .route (get?_recast_of found)

theorem exists_of_continues_recast {value : String → Int} {d e : Destination}
    (continues : (book.recast c).Continues value (c.destination d) e) :
    ∃ f, c.destination f = e ∧ book.Continues value d f := by
  generalize from_ : c.destination d = source at continues
  obtain ⟨found⟩ := continues
  obtain ⟨name, w, stored, rfl, rfl⟩ := get?_recast_eq_some_iff.mp found
  obtain rfl : d = .workflow name := c.destination_injective from_
  exact ⟨_, (w.route_recast c value).symm, .route stored⟩

theorem reaches_recast_iff {value : String → Int} {d e : Destination} :
    Relation.ReflTransGen ((book.recast c).Continues value) (c.destination d) (c.destination e) ↔
      Relation.ReflTransGen (book.Continues value) d e := by
  constructor
  · intro reached
    suffices back : ∀ f, Relation.ReflTransGen ((book.recast c).Continues value)
        (c.destination d) f → ∃ e, c.destination e = f ∧
          Relation.ReflTransGen (book.Continues value) d e by
      obtain ⟨f, same, comes⟩ := back _ reached
      exact c.destination_injective same ▸ comes
    intro f reached
    induction reached with
    | refl => exact ⟨d, rfl, .refl⟩
    | tail _ step ih =>
      obtain ⟨g, rfl, comes⟩ := ih
      obtain ⟨f, same, last⟩ := exists_of_continues_recast step
      exact ⟨f, same, comes.tail last⟩
  · exact Relation.ReflTransGen.lift c.destination (fun _ _ => Continues.recast) _ _

theorem Holds.recast {s : Stage} (holds : book.Holds s) : (book.recast c).Holds (c.stage s) := by
  cases s with
  | rule name i =>
    obtain ⟨w, found, within⟩ := holds
    exact ⟨_, get?_recast_of found, by simpa using within⟩
  | accept | reject => cases swaps : c.swapped <;> simp [Recasting.stage, Holds, swaps]

theorem Branches.recast {s t : Stage} {r : Rule} {passage : Passage}
    (branches : book.Branches s r passage t) :
    (book.recast c).Branches (c.stage s) (r.recast c) passage (c.stage t) := by
  cases branches with
  | pass found rule =>
    rw [← c.stage_destination]
    exact .pass (get?_recast_of found) (by simp [rule])
  | next found rule more => exact .next (get?_recast_of found) (by simp [rule]) (by simpa using more)
  | @default name w i r found rule last =>
    rw [← c.stage_destination]
    exact .default (w := w.recast c) (get?_recast_of found) (by simp [rule]) (by simpa using last)

theorem exists_of_routes_recast {name other : String} (routes : (book.recast c).Routes name other) :
    ∃ a b, c.name a = name ∧ c.name b = other ∧ book.Routes a b := by
  obtain ⟨v, found, listed⟩ := routes
  obtain ⟨a, w, stored, rfl, rfl⟩ := get?_recast_eq_some_iff.mp found
  rw [Workflow.destinations_recast, List.mem_map] at listed
  obtain ⟨d, mem, same⟩ := listed
  cases d with
  | workflow b => exact ⟨a, b, rfl, Destination.workflow.inj same, w, stored, mem⟩
  | accept | reject => cases swaps : c.swapped <;> simp [Recasting.destination, swaps] at same

theorem exists_circle_of_recast {name : String}
    (circle : Relation.TransGen (book.recast c).Routes name name) :
    ∃ a, Relation.TransGen book.Routes a a := by
  -- Each step is taken back by itself; that the steps meet is what injectivity is needed for.
  suffices back : ∀ first last, Relation.TransGen (book.recast c).Routes first last →
      ∃ a b, c.name a = first ∧ c.name b = last ∧ Relation.TransGen book.Routes a b by
    obtain ⟨a, b, rfl, same, routes⟩ := back _ _ circle
    exact ⟨a, c.injective same ▸ routes⟩
  intro first last routes
  induction routes with
  | single step =>
    obtain ⟨a, b, from_, into, routes⟩ := exists_of_routes_recast step
    exact ⟨a, b, from_, into, .single routes⟩
  | tail _ step ih =>
    obtain ⟨a, b, from_, rfl, routes⟩ := ih
    obtain ⟨b', d, same, into, last⟩ := exists_of_routes_recast step
    exact ⟨a, d, from_, into, routes.tail (c.injective same ▸ last)⟩

theorem putIn_recast (key : String) (w : Workflow) (entries : List (String × Workflow)) :
    putIn (c.name key) (w.recast c) (entries.map fun (k, v) => (c.name k, v.recast c)) =
      (putIn key w entries).map fun (k, v) => (c.name k, v.recast c) := by
  induction entries with
  | nil => rfl
  | cons entry rest ih =>
    simp only [List.map_cons, putIn, c.injective.eq_iff, ih]
    split <;> rfl

theorem define_recast {larger : RuleBook} {w : Workflow} (defined : book.define w = .ok larger) :
    (book.recast c).define (w.recast c) = .ok (larger.recast c) := by
  unfold define at defined ⊢
  have known : ((book.recast c).get? (w.recast c).name).isSome = (book.get? w.name).isSome := by
    rw [show (w.recast c).name = c.name w.name from rfl, get?_recast, Option.isSome_map]
  rw [known]
  split at defined
  · cases defined
  · rename_i fresh
    cases defined
    rw [if_neg fresh]
    simp only [put, recast]
    congr 2
    exact putIn_recast w.name w book.entries

theorem defineAll_recast {larger : RuleBook} {made : List (Except Fault Workflow)}
    (defined : book.defineAll made = .ok larger) :
    (book.recast c).defineAll (made.map (·.map (·.recast c))) = .ok (larger.recast c) := by
  induction made generalizing book with
  | nil =>
    cases defined
    rfl
  | cons next rest ih =>
    unfold defineAll at defined
    cases next with
    | error fault => cases defined
    | ok w =>
      simp only [bind, Except.bind] at defined
      cases added : book.define w with
      | error fault =>
        rw [added] at defined
        cases defined
      | ok more =>
        rw [added] at defined
        rw [List.map_cons, defineAll]
        simp only [Except.map, bind, Except.bind, define_recast added]
        exact ih defined

theorem ofWorkflows_recast {made : List (Except Fault Workflow)}
    (defined : ofWorkflows made = .ok book) :
    ofWorkflows (made.map (·.map (·.recast c))) = .ok (book.recast c) :=
  defineAll_recast defined

end RuleBook

end RouteVolume
