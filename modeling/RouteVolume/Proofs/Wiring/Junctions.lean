import RouteVolume.Network.Wiring
import RouteVolume.Proofs.Network.Adjacency
import RouteVolume.Proofs.RuleBook.Evaluation

namespace RouteVolume

structure Junction where
  number : Nat
  rule : Rule
  workflow : String
  position : Nat
  passed : Nat
  failed : Nat

namespace Junction

def node (j : Junction) : Node := .ofRule j.rule j.workflow j.position

def edges (j : Junction) : List Edge := [⟨j.passed, j.number, .pass⟩, ⟨j.failed, j.number, .fail⟩]

end Junction

namespace Wiring

def goal (entries : List (String × Nat)) : Destination → Nat
  | .accept => Network.accept
  | .reject => Network.reject
  | .workflow name => (entries.lookup name).getD 0

def dangling? (entries : List (String × Nat)) : Destination → Option String
  | .workflow name => if (entries.lookup name).isNone then some name else none
  | _ => none

theorem resolve_eq (entries : List (String × Nat)) (w : Workflow) (d : Destination) :
    resolve entries w d =
      match dangling? entries d with
      | some name => .error (.report (.unknownDestination name (some w.name) w.span))
      | none => .ok (goal entries d) := by
  cases d with
  | accept | reject => rfl
  | workflow name =>
    rw [resolve, dangling?, goal]
    cases entries.lookup name <;> rfl

def afterFail (goal : Destination → Nat) (w : Workflow) (number : Nat) : List Rule → Nat
  | [] => goal w.default
  | _ :: _ => number

def chained (goal : Destination → Nat) (w : Workflow) (number position : Nat) :
    List Rule → List Junction
  | [] => []
  | r :: rest =>
    { number, rule := r, workflow := w.name, position
      passed := goal r.destination
      failed := afterFail goal w (number + 1) rest } ::
      chained goal w (number + 1) (position + 1) rest

def opening (goal : Destination → Nat) (w : Workflow) (number : Nat) : Junction where
  number := goal (.workflow w.name)
  rule := w.first
  workflow := w.name
  position := 0
  passed := goal w.first.destination
  failed := afterFail goal w number w.rest

def junctionsOf (goal : Destination → Nat) (w : Workflow) (number : Nat) : List Junction :=
  opening goal w number :: chained goal w number 1 w.rest

def openings (goal : Destination → Nat) (number : Nat) : List Workflow → List Junction
  | [] => []
  | w :: rest => opening goal w number :: openings goal (number + w.rest.length) rest

def followers (goal : Destination → Nat) (number : Nat) : List Workflow → List Junction
  | [] => []
  | w :: rest => chained goal w number 1 w.rest ++ followers goal (number + w.rest.length) rest

def junctions (goal : Destination → Nat) (number : Nat) : List Workflow → List Junction
  | [] => []
  | w :: rest => junctionsOf goal w number ++ junctions goal (number + w.rest.length) rest

structure Belongs (goal : Destination → Nat) (w : Workflow) (row : List Junction) (j : Junction) :
    Prop where
  named : j.workflow = w.name
  rule_eq : w.rules[j.position]? = some j.rule
  passed : ∃ d ∈ w.destinations, j.passed = goal d
  failed : (∃ d ∈ w.destinations, j.failed = goal d) ∨
    ∃ k ∈ row, j.failed = k.number ∧ k.workflow = w.name ∧ k.position = j.position + 1

theorem Belongs.mono {goal : Destination → Nat} {w : Workflow} {row more : List Junction}
    {j : Junction} (belongs : Belongs goal w row j) (part : row ⊆ more) :
    Belongs goal w more j where
  named := belongs.named
  rule_eq := belongs.rule_eq
  passed := belongs.passed
  failed := by
    rcases belongs.failed with leaves | ⟨k, mem, next⟩
    · exact .inl leaves
    · exact .inr ⟨k, part mem, next⟩

theorem afterFail_cases (goal : Destination → Nat) (w : Workflow) (number position : Nat)
    (rules : List Rule) :
    (∃ d ∈ w.destinations, afterFail goal w number rules = goal d) ∨
      ∃ k ∈ chained goal w number position rules, afterFail goal w number rules = k.number ∧
        k.workflow = w.name ∧ k.position = position := by
  cases rules with
  | nil =>
    refine .inl ⟨w.default, ?_, rfl⟩
    exact List.mem_append_right _ (List.mem_singleton_self _)
  | cons r rest => exact .inr ⟨_, List.mem_cons_self, rfl, rfl, rfl⟩

theorem destination_mem {w : Workflow} {r : Rule} (mem : r ∈ w.rules) :
    r.destination ∈ w.destinations :=
  List.mem_append_left _ (List.mem_map_of_mem mem)

theorem belongs_chained (goal : Destination → Nat) {w : Workflow} (number : Nat)
    (before rules : List Rule) (split : w.rules = before ++ rules) :
    ∀ j ∈ chained goal w number before.length rules,
      Belongs goal w (chained goal w number before.length rules) j := by
  induction rules generalizing number before with
  | nil => exact fun j mem => absurd mem List.not_mem_nil
  | cons r rest ih =>
    have rule : r ∈ w.rules := split ▸ List.mem_append_right _ List.mem_cons_self
    have later := ih (number + 1) (before ++ [r]) (by rw [split]; simp)
    rw [List.length_append, List.length_singleton] at later
    intro j mem
    unfold chained at mem ⊢
    rcases List.mem_cons.mp mem with rfl | behind
    · refine ⟨rfl, ?_, ⟨_, destination_mem rule, rfl⟩, ?_⟩
      · rw [split, List.getElem?_append_right (Nat.le_refl _), Nat.sub_self, List.getElem?_cons_zero]
      · rcases afterFail_cases goal w (number + 1) (before.length + 1) rest with
          leaves | ⟨k, within, next⟩
        · exact .inl leaves
        · exact .inr ⟨k, List.mem_cons_of_mem _ within, next⟩
    · exact (later j behind).mono (List.subset_cons_self _ _)

theorem belongs_junctionsOf (goal : Destination → Nat) (w : Workflow) (number : Nat) :
    ∀ j ∈ junctionsOf goal w number, Belongs goal w (junctionsOf goal w number) j := by
  have later := belongs_chained goal number [w.first] w.rest rfl
  have rule : w.first ∈ w.rules := List.mem_cons_self
  intro j mem
  unfold junctionsOf at mem ⊢
  rcases List.mem_cons.mp mem with rfl | behind
  · refine ⟨rfl, rfl, ⟨_, destination_mem rule, rfl⟩, ?_⟩
    rcases afterFail_cases goal w number 1 w.rest with leaves | ⟨k, within, next⟩
    · exact .inl leaves
    · exact .inr ⟨k, List.mem_cons_of_mem _ within, next⟩
  · exact (later j behind).mono (List.subset_cons_self _ _)

def Settles (entries : List (String × Nat)) (w : Workflow) (ds : List Destination)
    (made : Except Fault Network) (holds : Network → Prop) : Prop :=
  match ds.findSome? (dangling? entries) with
  | some name => made = .error (.report (.unknownDestination name (some w.name) w.span))
  | none => ∃ g, made = .ok g ∧ holds g

theorem Settles.resolve {entries : List (String × Nat)} {w : Workflow} {d : Destination}
    {ds : List Destination} {further : Nat → Except Fault Network} {holds : Network → Prop}
    (settles : Settles entries w ds (further (goal entries d)) holds) :
    Settles entries w (d :: ds) (resolve entries w d >>= further) holds := by
  unfold Settles
  rw [List.findSome?_cons, resolve_eq]
  cases found : dangling? entries d with
  | some name => rfl
  | none => exact settles

theorem Settles.imp {entries : List (String × Nat)} {w : Workflow} {ds : List Destination}
    {made : Except Fault Network} {holds weaker : Network → Prop}
    (settles : Settles entries w ds made holds) (implies : ∀ g, holds g → weaker g) :
    Settles entries w ds made weaker := by
  unfold Settles at settles ⊢
  split at settles
  · exact settles
  · obtain ⟨g, result, true_⟩ := settles
    exact ⟨g, result, implies g true_⟩

section Building

variable {entries : List (String × Nat)} {w : Workflow}

theorem chain_settles {g : Network} {previous : Nat} (growing : g.Growing)
    (known : previous < g.size) (position : Nat) (rules : List Rule)
    (inside : ∀ d, goal entries d < g.size) :
    Settles entries w (rules.map (·.destination) ++ [w.default])
      (chain entries w g previous position rules)
      (g.Grown ((chained (goal entries) w g.size position rules).map Junction.node)
        (⟨afterFail (goal entries) w g.size rules, previous, .fail⟩ ::
          (chained (goal entries) w g.size position rules).flatMap Junction.edges)) := by
  induction rules generalizing g previous position with
  | nil =>
    unfold chain
    apply Settles.resolve
    exact Network.connect_spec growing (inside w.default) known .fail
  | cons r rest ih =>
    obtain ⟨placed, added, one⟩ := Network.addNode_spec growing (.ofRule r w.name position)
    have larger : placed.size = g.size + 1 := one.size_eq
    have here : g.size < placed.size := by omega
    have there : previous < placed.size := by omega
    obtain ⟨failing, failed, two⟩ := Network.connect_spec one.growing here there .fail
    have kept := two.size_eq_of_edges
    have onward (d : Destination) : goal entries d < failing.size := by
      have := inside d
      omega
    have still : g.size < failing.size := by omega
    obtain ⟨passing, passed, three⟩ :=
      Network.connect_spec two.growing (onward r.destination) still .pass
    have size := three.size_eq_of_edges
    have rest := ih three.growing (size ▸ still) (position + 1) fun d => size ▸ onward d
    unfold chain
    rw [added]
    simp only [bind, Except.bind]
    rw [failed]
    apply Settles.resolve
    simp only [passed]
    apply rest.imp
    intro h four
    rw [size, kept, larger] at four
    exact ((one.trans two).trans three).trans four

theorem wire_settles {g : Network} (growing : g.Growing) (entered : (entries.lookup w.name).isSome)
    (inside : ∀ d, goal entries d < g.size) :
    Settles entries w w.destinations (wire entries g w)
      (g.Grown ((chained (goal entries) w g.size 1 w.rest).map Junction.node)
        ((junctionsOf (goal entries) w g.size).flatMap Junction.edges)) := by
  obtain ⟨number, found⟩ := Option.isSome_iff_exists.mp entered
  have first : goal entries (.workflow w.name) = number := by
    rw [goal, found, Option.getD_some]
  have known := inside (.workflow w.name)
  rw [first] at known
  obtain ⟨passing, passed, one⟩ := Network.connect_spec growing (inside w.first.destination) known
    .pass
  have size := one.size_eq_of_edges
  have rest : Settles entries w _ (chain entries w passing number 1 w.rest) _ :=
    chain_settles one.growing (size ▸ known) 1 w.rest fun d => size ▸ inside d
  unfold wire
  rw [entry, found]
  simp only [bind, Except.bind]
  unfold Workflow.destinations Workflow.rules
  rw [List.map_cons, List.cons_append]
  apply Settles.resolve
  simp only [passed]
  apply rest.imp
  intro h two
  rw [size] at two
  unfold junctionsOf opening
  rw [first]
  exact one.trans two

def firstDangling? (entries : List (String × Nat)) (workflows : List Workflow) :
    Option (Workflow × String) :=
  workflows.findSome? fun w => (w.destinations.findSome? (dangling? entries)).map (w, ·)

theorem length_chained (goal : Destination → Nat) (w : Workflow) (number position : Nat)
    (rules : List Rule) : (chained goal w number position rules).length = rules.length := by
  induction rules generalizing number position with
  | nil => rfl
  | cons r rest ih => rw [chained, List.length_cons, List.length_cons, ih]

theorem wireAll_spec {g : Network} {workflows : List (String × Workflow)} (growing : g.Growing)
    (entered : ∀ entry ∈ workflows, (entries.lookup entry.2.name).isSome)
    (inside : ∀ d, goal entries d < g.size) :
    match firstDangling? entries (workflows.map (·.2)) with
    | some (w, name) => workflows.foldlM (fun g (_, w) => wire entries g w) g =
        .error (.report (.unknownDestination name (some w.name) w.span))
    | none => ∃ h, workflows.foldlM (fun g (_, w) => wire entries g w) g = .ok h ∧
        g.Grown ((followers (goal entries) g.size (workflows.map (·.2))).map Junction.node)
          ((junctions (goal entries) g.size (workflows.map (·.2))).flatMap Junction.edges) h := by
  induction workflows generalizing g with
  | nil => exact ⟨g, rfl, Network.Grown.refl growing⟩
  | cons first later ih =>
    obtain ⟨key, w⟩ := first
    have wired := wire_settles growing (entered _ List.mem_cons_self) inside
    rw [List.map_cons, firstDangling?, List.findSome?_cons, List.foldlM_cons]
    unfold Settles at wired
    simp only [bind, Except.bind]
    cases found : w.destinations.findSome? (dangling? entries) with
    | some name =>
      rw [found] at wired
      simp only [wired]
      rfl
    | none =>
      rw [found] at wired
      obtain ⟨h, done, one⟩ := wired
      have size := one.size_eq
      rw [List.length_map, length_chained] at size
      have others := ih one.growing (fun entry mem => entered entry (List.mem_cons_of_mem _ mem))
        fun d => by have := inside d; omega
      simp only [done]
      unfold firstDangling? at others
      cases further : (later.map (·.2)).findSome? fun w =>
          (w.destinations.findSome? (dangling? entries)).map (w, ·) with
      | some fault =>
        rw [further] at others
        exact others
      | none =>
        rw [further, size] at others
        obtain ⟨k, rest, two⟩ := others
        refine ⟨k, rest, ?_⟩
        unfold followers junctions
        rw [List.map_append, List.flatMap_append]
        exact one.trans two

end Building

end Wiring

end RouteVolume
