import RouteVolume.Proofs.Survey.Cycles
import RouteVolume.Proofs.Wiring.Image

namespace RouteVolume

theorem mapM_eq_ok_iff {α β : Type} {f : α → Except Fault β} {xs : List α} {ys : List β} :
    xs.mapM f = .ok ys ↔ List.Forall₂ (fun x y => f x = .ok y) xs ys := by
  induction xs generalizing ys with
  | nil =>
    rw [List.forall₂_nil_left_iff, List.mapM_nil]
    exact Except.ok.injEq [] ys ▸ eq_comm
  | cons x rest ih =>
    rw [List.forall₂_cons_left_iff, List.mapM_cons]
    simp only [← ih, bind, Except.bind]
    cases f x with
    | error fault => simp
    | ok y =>
      cases rest.mapM f with
      | error fault => simp
      | ok others => simp [pure, Except.pure, eq_comm]

theorem exists_mapM {α β : Type} {f : α → Except Fault β} {xs : List α}
    (each : ∀ x ∈ xs, ∃ y, f x = .ok y) : ∃ ys, xs.mapM f = .ok ys := by
  simp only [mapM_eq_ok_iff]
  induction xs with
  | nil => exact ⟨[], .nil⟩
  | cons x rest ih =>
    obtain ⟨⟨y, first⟩, later⟩ := List.forall_mem_cons.mp each
    obtain ⟨ys, others⟩ := ih later
    exact ⟨y :: ys, .cons first others⟩

namespace Settings

/-- Can the ends of the domain be written? -/
def Writable (s : Settings) : Prop :=
  s.least.natAbs < Numeral.bound ∧ s.greatest.natAbs < Numeral.bound

theorem Writable.problemTexts_returns {s : Settings} (writable : s.Writable) :
    ∃ texts, s.problemTexts = .ok texts := by
  apply exists_mapM
  intro problem mem
  cases problem with
  | noAttribute => exact ⟨_, rfl⟩
  | repeatedAttribute attrs => exact ⟨_, rfl⟩
  | noStart => exact ⟨_, rfl⟩
  | emptyDomain least greatest =>
    obtain ⟨_, rfl, rfl⟩ : s.greatest < s.least ∧ least = s.least ∧ greatest = s.greatest := by
      simpa [problems] using mem
    obtain ⟨low, least⟩ := Numeral.write_of_lt writable.1
    obtain ⟨high, greatest⟩ := Numeral.write_of_lt writable.2
    rw [Problem.text, least, greatest]
    exact ⟨_, rfl⟩

theorem check_eq_of_problems {s : Settings} (found : s.problems ≠ []) {texts : List String}
    (written : s.problemTexts = .ok texts) :
    s.check = .error (.report (.invalidSettings texts)) := by
  have filled : texts.isEmpty = false := by
    apply List.isEmpty_eq_false_iff.mpr
    rw [← List.length_pos_iff, Network.length_of_mapM_ok written]
    exact List.length_pos_iff.mpr found
  unfold check
  rw [written]
  simp only [bind, Except.bind, filled]
  rfl

theorem check_cases {s : Settings} (writable : s.Writable) :
    s.check = .ok () ∨ ∃ texts, s.check = .error (.report (.invalidSettings texts)) := by
  by_cases none_ : s.problems = []
  · exact .inl (check_eq_ok_iff.mpr none_)
  · obtain ⟨texts, written⟩ := writable.problemTexts_returns
    exact .inr ⟨texts, check_eq_of_problems none_ written⟩

end Settings

namespace Network

theorem passages_entering (g : Network) (k : Nat) (p : Passage) :
    passages (g.edges.toList.filter fun e => e.target = (k : Int)) p = (g.into k p).length := by
  unfold passages into
  rw [List.countP_eq_length_filter, List.filter_filter]
  simp only [Bool.and_comm, Bool.decide_and]

theorem length_into_of_valid {g : Network} (indexed : g.Indexed) (valid : g.validate = .ok ())
    {k : Nat} {n : Node} (there : g.nodes[k]? = some n) (kind : n.kind = .condition) :
    (g.into k .pass).length = 1 := by
  obtain ⟨s, stored, rfl⟩ := exists_slot_of_node there
  obtain ⟨entering, read, fits⟩ := fits_of_validate valid stored
  rw [indexed.entering_eq stored] at read
  cases read
  rw [← passages_entering]
  unfold Slot.Fits at fits
  rw [kind] at fits
  exact fits.1

theorem fault_of_validate {g : Network} (indexed : g.Indexed) {fault : Fault}
    (failed : g.validate = .error fault) :
    (∃ d, fault = .report d) ∨ ∃ n ∈ g.nodes, n.label = .error fault := by
  obtain ⟨s, mem, stopped⟩ := exists_of_forM_error failed
  obtain ⟨k, _, stored⟩ := Array.mem_iff_getElem.mp (Array.mem_toList_iff.mp mem)
  suffices own : (∃ d, fault = .report d) ∨ s.node.label = .error fault from
    own.imp_right fun label => ⟨s.node, List.mem_map_of_mem mem, label⟩
  unfold checkSlot at stopped
  rw [indexed.entering_eq (Array.getElem?_eq_some_iff.mpr ⟨_, stored⟩)] at stopped
  simp only [bind, Except.bind, throw, throwThe, MonadExceptOf.throw, pure, Except.pure] at stopped
  cases node : s.node <;> rw [node] at stopped <;> simp only at stopped <;> split at stopped
  case start.isTrue =>
    cases stopped
    exact .inl ⟨_, rfl⟩
  case start.isFalse =>
    split at stopped <;> cases stopped
    exact .inl ⟨_, rfl⟩
  case condition.isTrue | blank.isTrue | accept.isTrue | reject.isTrue =>
    split at stopped
    · rename_i label
      cases stopped
      exact .inr label
    · cases stopped
      exact .inl ⟨_, rfl⟩
  all_goals cases stopped

end Network

namespace Wiring

section Building

variable {entries : List (String × Nat)}

theorem wire_of_missing {w : Workflow} (missing : entries.lookup w.name = none) (g : Network) :
    wire entries g w = .error (.missingKey w.name) := by
  unfold wire entry
  rw [missing]
  rfl

/-- Why workflows are not wired: a destination is reported, or a name is missed. -/
def Stops (entries : List (String × Nat)) (workflows : List Workflow) (fault : Fault) : Prop :=
  (∃ d, fault = .report d) ∨
    ∃ w ∈ workflows, entries.lookup w.name = none ∧ fault = .missingKey w.name

theorem wireAll_of_missing {g : Network} {workflows : List (String × Workflow)}
    (growing : g.Growing) (inside : ∀ d, goal entries d < g.size)
    (missing : ∃ w ∈ workflows.map (·.2), entries.lookup w.name = none) :
    ∃ fault, workflows.foldlM (fun g (_, w) => wire entries g w) g = .error fault ∧
      Stops entries (workflows.map (·.2)) fault := by
  induction workflows generalizing g with
  | nil => simp at missing
  | cons first later ih =>
    obtain ⟨key, w⟩ := first
    rw [List.foldlM_cons]
    simp only [bind, Except.bind]
    cases listed : entries.lookup w.name with
    | none =>
      rw [wire_of_missing listed]
      exact ⟨_, rfl, .inr ⟨w, List.mem_cons_self, listed, rfl⟩⟩
    | some number =>
      have entered : (entries.lookup w.name).isSome := by rw [listed]; rfl
      have wired := wire_settles growing entered inside
      unfold Settles at wired
      split at wired
      · rw [wired]
        exact ⟨_, rfl, .inl ⟨_, rfl⟩⟩
      · obtain ⟨h, done, one⟩ := wired
        have size := one.size_eq
        have others : ∃ v ∈ later.map (·.2), entries.lookup v.name = none := by
          obtain ⟨v, mem, absent⟩ := missing
          rcases List.mem_cons.mp mem with rfl | behind
          · rw [listed] at absent
            cases absent
          · exact ⟨v, behind, absent⟩
        obtain ⟨fault, stopped, stops⟩ :=
          ih one.growing (fun d => by have := inside d; omega) others
        rw [done]
        exact ⟨fault, stopped, stops.imp_right fun ⟨v, mem, reason⟩ =>
          ⟨v, List.mem_cons_of_mem _ mem, reason⟩⟩

end Building

structure Draft (book : RuleBook) (settings : Settings) (g : Network) : Prop where
  indexed : g.Indexed
  entered : ∀ w ∈ book.workflows, (book.get? w.name).isSome
  resolves : ∀ w ∈ book.workflows, ∀ d ∈ w.destinations, book.Resolves d
  nodes_eq : g.nodes = [.reject, .accept, .start] ++
    (book.sortedEntries.map fun entry => .ofRule entry.2.first entry.1 0) ++
    (followers (goal (entriesOf book)) (3 + book.sortedEntries.length) (ordered book)).map
      Junction.node
  edges_eq : g.edges.toList =
    (junctions (goal (entriesOf book)) (3 + book.sortedEntries.length) (ordered book)).flatMap
      Junction.edges ++ [⟨goal (entriesOf book) (.workflow settings.start), Network.start, .entry⟩]

theorem draft_of_ready {book : RuleBook} {settings : Settings} (ready : Ready book settings) :
    (∃ fault, ofRuleBook book settings = .error fault ∧
      Stops (entriesOf book) (ordered book) fault) ∨
    ∃ g, Draft book settings g ∧ ofRuleBook book settings =
      g.validate >>= fun _ => .ok ⟨g.freeze, entriesOf book⟩ := by
  obtain ⟨h, placed, size, one⟩ := placeEntries_sortedEntries book
  have inside (d : Destination) : goal (entriesOf book) d < h.size := size ▸ (goal_entriesOf d).1
  rw [ofRuleBook_of_ready ready, placed]
  simp only [bind, Except.bind]
  by_cases missing : ∃ w ∈ ordered book, (entriesOf book).lookup w.name = none
  · obtain ⟨fault, stopped, stops⟩ := wireAll_of_missing one.growing inside missing
    rw [stopped]
    exact .inl ⟨fault, rfl, stops⟩
  · have entered (w : Workflow) (mem : w ∈ ordered book) :
        ((entriesOf book).lookup w.name).isSome := by
      by_contra absent
      exact missing ⟨w, mem, Option.not_isSome_iff_eq_none.mp absent⟩
    have wired := wireAll_spec one.growing
      (fun entry mem => entered entry.2 (List.mem_map_of_mem mem)) inside
    rw [← ordered] at wired
    cases found : firstDangling? (entriesOf book) (ordered book) with
    | some dangling =>
      rw [found] at wired
      simp only [wired]
      exact .inl ⟨_, rfl, .inl ⟨_, rfl⟩⟩
    | none =>
      rw [found, size] at wired
      obtain ⟨k, done, two⟩ := wired
      obtain ⟨number, listed⟩ := Option.isSome_iff_exists.mp
        (lookup_entriesOf_isSome.mpr ready.started)
      have first : goal (entriesOf book) (.workflow settings.start) = number := by
        rw [goal, listed, Option.getD_some]
      have larger := two.size_eq
      have known := inside (.workflow settings.start)
      rw [first] at known
      have there : number < k.size := by omega
      have entrance : Network.start < k.size := by
        unfold Network.start
        omega
      obtain ⟨g, connected, three⟩ := Network.connect_spec two.growing there entrance .entry
      have grown := (one.trans two).trans three
      refine .inr ⟨g, ⟨three.growing.indexed, fun w mem => ?_, ?_, ?_, ?_⟩, ?_⟩
      · exact lookup_entriesOf_isSome.mp (entered w (mem_ordered.mpr mem))
      · exact firstDangling?_eq_none_iff.mp found
      · rw [grown.nodes_eq, List.append_nil, ← List.append_assoc]
        rfl
      · rw [grown.edges_eq, first]
        rfl
      · simp only [done, entry, listed, connected]
        rfl

theorem into_chained (goal : Destination → Nat) (w : Workflow) {k number : Nat} (early : k < number)
    (position : Nat) (rules : List Rule) :
    ((chained goal w number position rules).flatMap Junction.edges).filter
      (fun e : Edge => e.target = k ∧ e.passage = .pass) = [] := by
  apply List.filter_eq_nil_iff.mpr
  intro e mem entering
  obtain ⟨j, listed, own⟩ := List.mem_flatMap.mp mem
  have late : j.number ∈ (chained goal w number position rules).map (·.number) :=
    List.mem_map_of_mem listed
  rw [numbers_chained, List.mem_range'_1] at late
  have same := (of_decide_eq_true entering).1
  rw [Junction.target_of_mem_edges own, Int.natCast_inj] at same
  omega

theorem into_junctions (goal : Destination → Nat) {k number : Nat} (early : k < number)
    (workflows : List Workflow) :
    ((junctions goal number workflows).flatMap Junction.edges).filter
        (fun e : Edge => e.target = k ∧ e.passage = .pass) =
      (workflows.filter fun w => goal (.workflow w.name) = k).map
        fun w => ⟨goal w.first.destination, k, .pass⟩ := by
  induction workflows generalizing number with
  | nil => rfl
  | cons w rest ih =>
    have later := ih (Nat.lt_add_right w.rest.length early)
    unfold junctions junctionsOf
    rw [List.flatMap_append, List.flatMap_cons, List.filter_append, List.filter_append, later,
      into_chained goal w early, List.append_nil, List.filter_cons, Junction.edges, opening]
    by_cases same : goal (.workflow w.name) = k
    · simp [same]
    · simp [same]

theorem exists_place {book : RuleBook} {key : String} {v : Workflow}
    (found : book.get? key = some v) : ∃ i, book.sortedEntries[i]? = some (key, v) ∧
      (entriesOf book).lookup key = some (3 + i) := by
  have mem := book.sortedEntries_perm.mem_iff.mpr (RuleBook.get?_eq_some_iff.mp found)
  obtain ⟨i, within, here⟩ := List.mem_iff_getElem.mp mem
  have places := map_lookup_zip (List.range' 3 book.sortedEntries.length)
    book.nodup_sortedEntries (by simp)
  have place := congrArg (·[i]?) places
  simp only [List.getElem?_map, List.getElem?_eq_getElem within, here, Option.map_some,
    List.getElem?_range' within, Nat.one_mul] at place
  exact ⟨i, here ▸ List.getElem?_eq_getElem within, Option.some.inj place⟩

theorem eq_of_lookup {book : RuleBook} {name other : String} {k : Nat}
    (left : (entriesOf book).lookup name = some k)
    (right : (entriesOf book).lookup other = some k) : name = other := by
  obtain ⟨v, found⟩ := Option.isSome_iff_exists.mp
    (lookup_entriesOf_isSome.mp (by rw [left]; rfl))
  obtain ⟨w, known⟩ := Option.isSome_iff_exists.mp
    (lookup_entriesOf_isSome.mp (by rw [right]; rfl))
  obtain ⟨i, here, one⟩ := exists_place found
  obtain ⟨j, there, two⟩ := exists_place known
  rw [left, Option.some.injEq] at one
  rw [right, Option.some.injEq] at two
  obtain rfl : i = j := by omega
  rw [here] at there
  cases there
  rfl

namespace Draft

variable {book : RuleBook} {settings : Settings} {g : Network}

theorem into_eq (draft : Draft book settings g) {k : Nat}
    (early : k < 3 + book.sortedEntries.length) :
    g.into k .pass = ((ordered book).filter fun w => goal (entriesOf book) (.workflow w.name) = k).map
      fun w => ⟨goal (entriesOf book) w.first.destination, k, .pass⟩ := by
  unfold Network.into
  rw [draft.edges_eq, List.filter_append, into_junctions _ early]
  simp

theorem node_cases (draft : Draft book settings g) {n : Node} (mem : n ∈ g.nodes) :
    n ∈ [Node.reject, .accept, .start] ∨
      ∃ w ∈ book.workflows, ∃ key, (key = w.name ∨ (key, w) ∈ book.entries) ∧
        ∃ (i : Nat) (r : Rule), w.rules[i]? = some r ∧ n = .ofRule r key i := by
  rw [draft.nodes_eq, List.mem_append, List.mem_append] at mem
  rcases mem with (end_ | first) | later
  · exact .inl end_
  · obtain ⟨⟨key, w⟩, listed, rfl⟩ := List.mem_map.mp first
    have stored := book.sortedEntries_perm.mem_iff.mp listed
    exact .inr ⟨w, List.mem_map_of_mem stored, key, .inr stored, 0, w.first, rfl, rfl⟩
  · obtain ⟨j, listed, rfl⟩ := List.mem_map.mp later
    obtain ⟨w, known, number, own, _⟩ := origin_of_mem_junctions _
      ((junctions_perm _ _ _).mem_iff.mpr (List.mem_append_right _ listed))
    have belongs := belongs_junctionsOf _ w number j own
    exact .inr ⟨w, mem_ordered.mp known, j.workflow, .inl belongs.named, j.position, j.rule,
      belongs.rule_eq, rfl⟩

theorem label_eq (draft : Draft book settings g) (writable : ∀ w ∈ book.workflows, w.Writable) :
    ∀ n ∈ g.nodes, ∃ label, n.label = .ok label := by
  intro n mem
  rcases draft.node_cases mem with end_ | ⟨w, known, key, _, i, r, rule, rfl⟩
  · simp only [List.mem_cons, List.not_mem_nil, or_false] at end_
    rcases end_ with rfl | rfl | rfl <;> exact ⟨_, rfl⟩
  · exact (writable w known).label_eq rule key

end Draft

theorem resolve_of_resolves {book : RuleBook} {d : Destination} (resolves : book.Resolves d)
    (w : Workflow) : resolve (entriesOf book) w d = .ok (goal (entriesOf book) d) := by
  rw [resolve_eq, dangling?_entriesOf_eq_none_iff.mpr resolves]

/-- The node at a key carries one workflow's first rule, and is entered by passing it from where
another workflow's first rule leads. -/
def Passes (wiring : Wiring) (key : String) (v w : Workflow) : Prop :=
  ∃ number source, wiring.entries.lookup key = some number ∧
    wiring.network.nodes[number]? = some (.ofRule v.first key 0) ∧
    resolve wiring.entries w w.first.destination = .ok source ∧
    wiring.network.into number .pass = [⟨source, number, .pass⟩]

theorem Draft.passes {book : RuleBook} {settings : Settings} {g : Network}
    (draft : Draft book settings g) (valid : g.validate = .ok ()) {key : String} {v : Workflow}
    (found : book.get? key = some v) : ∃ w, book.workflows.filter (·.name = key) = [w] ∧
      Passes ⟨g.freeze, entriesOf book⟩ key v w := by
  obtain ⟨i, here, place⟩ := exists_place found
  have within := (List.getElem?_eq_some_iff.mp here).1
  have node : g.nodes[3 + i]? = some (.ofRule v.first key 0) := by
    rw [draft.nodes_eq, List.append_assoc, List.getElem?_append_right (by simp),
      List.getElem?_append_left (by simpa using within)]
    simp [here]
  have once := Network.length_into_of_valid draft.indexed valid node rfl
  have named : (ordered book).filter (fun w => goal (entriesOf book) (.workflow w.name) = 3 + i) =
      (ordered book).filter (·.name = key) := by
    apply List.filter_congr
    intro w mem
    obtain ⟨k, listed⟩ := Option.isSome_iff_exists.mp
      (lookup_entriesOf_isSome.mpr (draft.entered w (mem_ordered.mp mem)))
    rw [decide_eq_decide, goal, listed, Option.getD_some]
    constructor
    · rintro rfl
      exact eq_of_lookup listed place
    · intro same
      rw [same, place] at listed
      exact (Option.some.inj listed).symm
  have entering := draft.into_eq (k := 3 + i) (by omega)
  rw [named] at entering
  rw [entering, List.length_map] at once
  obtain ⟨w, only⟩ := List.length_eq_one_iff.mp once
  have listed : book.workflows.filter (·.name = key) = [w] := by
    have perm := (book.sortedEntries_perm.map (·.2)).filter (·.name = key)
    rw [← ordered, only] at perm
    exact (List.singleton_perm.mp perm).symm
  have known : w ∈ book.workflows := List.mem_of_mem_filter (by rw [listed]; exact List.mem_cons_self)
  have leads := resolve_of_resolves (draft.resolves w known _ (destination_mem List.mem_cons_self)) w
  refine ⟨w, listed, 3 + i, _, place, node, leads, ?_⟩
  rw [only] at entering
  exact entering

theorem eq_of_goal {book : RuleBook} {d e : Destination} (left : book.Resolves d)
    (right : book.Resolves e) (same : goal (entriesOf book) d = goal (entriesOf book) e) :
    d = e := by
  have placed {name : String} (known : book.Resolves (.workflow name)) :
      ∃ i, (entriesOf book).lookup name = some (3 + i) ∧
        goal (entriesOf book) (.workflow name) = 3 + i := by
    obtain ⟨v, found⟩ := Option.isSome_iff_exists.mp known
    obtain ⟨i, _, place⟩ := exists_place found
    exact ⟨i, place, by rw [goal, place, Option.getD_some]⟩
  have late {name : String} (known : book.Resolves (.workflow name)) :
      3 ≤ goal (entriesOf book) (.workflow name) := by
    obtain ⟨i, _, place⟩ := placed known
    omega
  cases d <;> cases e
  case accept.accept | reject.reject => rfl
  case accept.reject | reject.accept => cases same
  case workflow.workflow name other =>
    obtain ⟨i, one, first⟩ := placed left
    obtain ⟨j, two, second⟩ := placed right
    rw [first, second] at same
    rw [← same] at two
    rw [eq_of_lookup one two]
  case workflow.accept => exact absurd (late left) (same ▸ (by decide : ¬ 3 ≤ Network.accept))
  case workflow.reject => exact absurd (late left) (same ▸ (by decide : ¬ 3 ≤ Network.reject))
  case accept.workflow => exact absurd (late right) (same ▸ (by decide : ¬ 3 ≤ Network.accept))
  case reject.workflow => exact absurd (late right) (same ▸ (by decide : ¬ 3 ≤ Network.reject))

/-- Is a network made whose nodes are entered as the workflows at their keys say, or else reported
why there is none? -/
def KeysFollowed (book : RuleBook) (settings : Settings) : Prop :=
  match ofRuleBook book settings with
  | .ok wiring => ∀ key v, book.get? key = some v → Passes wiring key v v
  | .error fault => ∃ d, fault = .report d

section Outcome

variable {book : RuleBook} {settings : Settings} {wiring : Wiring}

theorem draft_of_ofRuleBook (made : ofRuleBook book settings = .ok wiring) :
    ∃ g, Draft book settings g ∧ g.validate = .ok () ∧ wiring = ⟨g.freeze, entriesOf book⟩ := by
  rcases draft_of_ready (ready_of_ofRuleBook made) with ⟨fault, stopped, _⟩ | ⟨g, draft, outcome⟩
  · rw [made] at stopped
    cases stopped
  · rw [made] at outcome
    cases valid : g.validate with
    | error fault =>
      rw [valid] at outcome
      cases outcome
    | ok _ =>
      rw [valid] at outcome
      cases outcome
      exact ⟨g, draft, valid, rfl⟩

theorem passes_of_ofRuleBook (made : ofRuleBook book settings = .ok wiring) {key : String}
    {v : Workflow} (found : book.get? key = some v) :
    ∃ w, book.workflows.filter (·.name = key) = [w] ∧ Passes wiring key v w := by
  obtain ⟨g, draft, valid, rfl⟩ := draft_of_ofRuleBook made
  exact draft.passes valid found

theorem keysFollowed_iff (made : ofRuleBook book settings = .ok wiring) :
    KeysFollowed book settings ↔ ∀ key v w, book.get? key = some v → w ∈ book.workflows →
      w.name = key → w.first.destination = v.first.destination := by
  obtain ⟨g, draft, valid, rfl⟩ := draft_of_ofRuleBook made
  have resolves {w : Workflow} (known : w ∈ book.workflows) : book.Resolves w.first.destination :=
    draft.resolves w known _ (destination_mem List.mem_cons_self)
  unfold KeysFollowed
  rw [made]
  constructor
  · intro followed key v w found known named
    obtain ⟨number, source, lookup, _, leads, entering⟩ := followed key v found
    obtain ⟨u, listed, again, other, place, _, wired, likewise⟩ := draft.passes valid found
    have only : w ∈ book.workflows.filter (·.name = key) :=
      List.mem_filter.mpr ⟨known, decide_eq_true named⟩
    rw [listed, List.mem_singleton] at only
    subst only
    obtain rfl := Option.some.inj (lookup.symm.trans place)
    rw [entering] at likewise
    simp only [List.cons.injEq, Edge.mk.injEq, Int.natCast_inj, and_true] at likewise
    have mine := RuleBook.mem_workflows_of_get? found
    rw [resolve_of_resolves (resolves mine), Except.ok.injEq] at leads
    rw [resolve_of_resolves (resolves known), Except.ok.injEq] at wired
    exact eq_of_goal (resolves known) (resolves mine) (by rw [wired, leads, likewise])
  · intro alike key v found
    obtain ⟨u, listed, number, source, place, node, wired, entering⟩ := draft.passes valid found
    have own : u ∈ book.workflows.filter (·.name = key) := by
      rw [listed]
      exact List.mem_cons_self
    obtain ⟨known, named⟩ := List.mem_filter.mp own
    have same := alike key v u found known (of_decide_eq_true named)
    rw [resolve_of_resolves (resolves known), same] at wired
    have mine := RuleBook.mem_workflows_of_get? found
    exact ⟨number, source, place, node, (resolve_of_resolves (resolves mine) v).trans wired, entering⟩

theorem ready_or_reported (book : RuleBook) (writable : settings.Writable) :
    Ready book settings ∨ ∃ d, ofRuleBook book settings = .error (.report d) := by
  unfold ofRuleBook
  simp only [bind, Except.bind]
  rcases Settings.check_cases writable with checked | ⟨texts, failed⟩
  · rcases checkAttrs_cases settings book.sortedEntries with known | ⟨_, _, _, failed⟩
    · cases started : book.get? settings.start with
      | none =>
        right
        simp only [checked, known, Option.isNone_none, if_true]
        exact ⟨_, rfl⟩
      | some w =>
        left
        exact ⟨Settings.check_eq_ok_iff.mp checked, checkAttrs_sortedEntries.mp known,
          by rw [started]; rfl⟩
    · right
      simp only [checked, failed]
      exact ⟨_, rfl⟩
  · right
    simp only [failed]
    exact ⟨_, rfl⟩

theorem fault_of_ofRuleBook (writable : settings.Writable) {fault : Fault}
    (failed : ofRuleBook book settings = .error fault) :
    (∃ d, fault = .report d) ∨
      (∃ w ∈ book.workflows, book.get? w.name = none ∧ fault = .missingKey w.name) ∨
      fault = .longNumeral ∧ ∃ w ∈ book.workflows, ¬ w.Writable := by
  rcases ready_or_reported book writable with ready | ⟨d, reported⟩
  · rcases draft_of_ready ready with ⟨other, stopped, stops⟩ | ⟨g, draft, outcome⟩
    · obtain rfl := Except.error.inj (failed.symm.trans stopped)
      refine stops.imp_right fun ⟨w, mem, absent, missed⟩ => .inl ⟨w, mem_ordered.mp mem, ?_, missed⟩
      by_contra present
      have inside := lookup_entriesOf_isSome.mpr (Option.isSome_iff_ne_none.mpr present)
      rw [absent] at inside
      cases inside
    · rw [failed] at outcome
      cases valid : g.validate with
      | ok _ =>
        rw [valid] at outcome
        cases outcome
      | error other =>
        rw [valid] at outcome
        cases outcome
        rcases Network.fault_of_validate draft.indexed valid with report | ⟨n, mem, unwritten⟩
        · exact .inl report
        · refine .inr (.inr ⟨Node.fault_of_label unwritten, ?_⟩)
          by_contra all
          push Not at all
          obtain ⟨label, labelled⟩ := draft.label_eq all n mem
          rw [unwritten] at labelled
          cases labelled
  · obtain rfl := Except.error.inj (failed.symm.trans reported)
    exact .inl ⟨d, rfl⟩

theorem keysFollowed_of_keyed (writable : settings.Writable) (keyed : book.Keyed) :
    KeysFollowed book settings := by
  cases outcome : ofRuleBook book settings with
  | ok wiring =>
    rw [keysFollowed_iff outcome]
    intro key v w found known named
    have same := keyed.get?_name known
    rw [named, found] at same
    rw [Option.some.inj same]
  | error fault =>
    unfold KeysFollowed
    rw [outcome]
    rcases ready_or_reported book writable with ready | ⟨d, reported⟩
    · have spec := ofRuleBook_spec keyed ready
      split at spec
      · exact ⟨_, Except.error.inj (outcome.symm.trans spec)⟩
      · obtain ⟨wiring, made, _⟩ := spec
        rw [outcome] at made
        cases made
    · exact ⟨d, Except.error.inj (outcome.symm.trans reported)⟩

end Outcome

/-- A network that is made is wired by name: each key is the name of one workflow, and by passing
its node is entered from where this workflow's first rule leads. So the keys are followed exactly
where the first rules at each key and under its name lead alike, and always where each workflow has
its name for its key. -/
theorem ofRuleBook_wires_by_name {book : RuleBook} {settings : Settings}
    (writable : settings.Writable) :
    (∀ wiring, ofRuleBook book settings = .ok wiring →
      (∀ key v, book.get? key = some v → ∃ w, book.workflows.filter (·.name = key) = [w] ∧
        Passes wiring key v w) ∧
      (KeysFollowed book settings ↔ ∀ key v w, book.get? key = some v → w ∈ book.workflows →
        w.name = key → w.first.destination = v.first.destination)) ∧
    (∀ fault, ofRuleBook book settings = .error fault → (∃ d, fault = .report d) ∨
      (∃ w ∈ book.workflows, book.get? w.name = none ∧ fault = .missingKey w.name) ∨
      fault = .longNumeral ∧ ∃ w ∈ book.workflows, ¬ w.Writable) ∧
    (book.Keyed → KeysFollowed book settings) :=
  ⟨fun _ made => ⟨fun _ _ found => passes_of_ofRuleBook made found, keysFollowed_iff made⟩,
    fun _ failed => fault_of_ofRuleBook writable failed,
    fun keyed => keysFollowed_of_keyed writable keyed⟩

/-- A workflow that accepts some points, and one that rejects all. -/
def choosing : Workflow := ⟨"b", ⟨"x", .below 5, .accept⟩, [], .reject, none⟩

def refusing : Workflow := ⟨"in", ⟨"m", .below 3, .reject⟩, [], .reject, none⟩

/-- Two workflows, each under the name of the other. -/
def swapped : RuleBook where
  entries := [("in", choosing), ("b", refusing)]
  distinct := by decide

def misnamed : RuleBook where
  entries := [("in", choosing)]
  distinct := List.nodup_singleton _

theorem swapped_wires_by_name : ∃ wiring, ofRuleBook swapped {} = .ok wiring ∧
    Passes wiring "in" choosing refusing := by
  have writable : ({} : Settings).Writable :=
    have long : Numeral.powerOfTen 4 ≤ Numeral.bound := Numeral.powerOfTen_mono (by decide)
    ⟨Nat.lt_of_lt_of_le (by decide) long, Nat.lt_of_lt_of_le (by decide) long⟩
  have returns : (ofRuleBook swapped {}).isOk = true := by cbv
  cases made : ofRuleBook swapped {} with
  | error fault =>
    rw [made] at returns
    cases returns
  | ok wiring =>
    obtain ⟨w, named, passes⟩ :=
      ((ofRuleBook_wires_by_name writable).1 wiring made).1 "in" choosing rfl
    have only : swapped.workflows.filter (·.name = "in") = [refusing] := rfl
    rw [only, List.singleton_inj] at named
    subst named
    exact ⟨wiring, rfl, passes⟩

/-- A rule that leads to Accept is wired to Reject, and a workflow without a key of its name stops
wiring without a report. -/
theorem keys_not_followed : (ofRuleBook swapped {}).map (fun wiring =>
      (wiring.entries.lookup "in", wiring.network.nodes[4]?, wiring.network.into 4 .pass)) =
        .ok (some 4, some (.ofRule choosing.first "in" 0), [⟨Network.reject, 4, .pass⟩]) ∧
    ¬ KeysFollowed swapped {} ∧
    ofRuleBook misnamed {} = .error (.missingKey "b") ∧ ¬ KeysFollowed misnamed {} := by
  have wired : (ofRuleBook swapped {}).map (fun wiring =>
      (wiring.entries.lookup "in", wiring.network.nodes[4]?, wiring.network.into 4 .pass)) =
        .ok (some 4, some (.ofRule choosing.first "in" 0), [⟨Network.reject, 4, .pass⟩]) := by cbv
  have missed : ofRuleBook misnamed {} = .error (.missingKey "b") := by cbv
  refine ⟨wired, fun followed => ?_, missed, fun followed => ?_⟩
  · cases made : ofRuleBook swapped {} with
    | error fault =>
      rw [made] at wired
      cases wired
    | ok wiring =>
      have alike := (keysFollowed_iff made).mp followed "in" choosing refusing rfl
        (List.mem_cons_of_mem _ List.mem_cons_self) rfl
      cases alike
  · unfold KeysFollowed at followed
    rw [missed] at followed
    obtain ⟨d, report⟩ := followed
    cases report

end Wiring

end RouteVolume
