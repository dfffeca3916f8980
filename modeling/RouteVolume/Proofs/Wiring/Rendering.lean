import RouteVolume.Proofs.Wiring.Layout

namespace RouteVolume

theorem map_lookup_zip {α β : Type} [BEq α] [LawfulBEq α] {keys : List α} (values : List β)
    (distinct : keys.Nodup) (matched : keys.length = values.length) :
    keys.map (fun key => (keys.zip values).lookup key) = values.map some := by
  induction keys generalizing values with
  | nil => rw [List.eq_nil_of_length_eq_zero matched.symm, List.map_nil, List.map_nil]
  | cons key rest ih =>
    obtain ⟨fresh, others⟩ := List.nodup_cons.mp distinct
    cases values with
    | nil => cases matched
    | cons value more =>
      have later (other : α) (mem : other ∈ rest) :
          ((key, value) :: rest.zip more).lookup other = (rest.zip more).lookup other := by
        have differ : (other == key) = false :=
          beq_eq_false_iff_ne.mpr fun same => fresh (same ▸ mem)
        rw [List.lookup_cons, differ]
      rw [List.zip_cons_cons, List.map_cons, List.map_cons, List.lookup_cons_self,
        List.map_congr_left later, ih more others (Nat.succ.inj matched)]

theorem lookup_isSome_iff_mem {α β : Type} [BEq α] [LawfulBEq α] {entries : List (α × β)}
    {key : α} : (entries.lookup key).isSome ↔ key ∈ entries.map (·.1) := by
  rw [List.lookup_isSome_iff, List.mem_map]
  exact exists_congr fun entry => and_congr_right fun _ => by rw [beq_iff_eq, eq_comm]

theorem mem_of_lookup {α β : Type} [BEq α] [LawfulBEq α] {entries : List (α × β)} {key : α}
    {stored : β} (found : entries.lookup key = some stored) : (key, stored) ∈ entries := by
  obtain ⟨front, back, rfl, _⟩ := List.lookup_eq_some_iff.mp found
  exact List.mem_append_right _ List.mem_cons_self

namespace Settings

theorem check_eq_ok_iff {s : Settings} : s.check = .ok () ↔ s.problems = [] := by
  unfold check problemTexts
  simp only [bind, Except.bind]
  constructor
  · intro passed
    split at passed
    · cases passed
    · rename_i texts read
      split at passed
      · rename_i empty
        rw [← List.length_eq_zero_iff, ← Network.length_of_mapM_ok read,
          List.isEmpty_iff.mp empty, List.length_nil]
      · cases passed
  · intro none
    rw [none]
    rfl

end Settings

namespace Wiring

theorem checkAttrs_eq_ok_iff {settings : Settings} {entries : List (String × Workflow)} :
    checkAttrs settings entries = .ok () ↔
      ∀ entry ∈ entries, ∀ r ∈ entry.2.rules, r.attr ∈ settings.attrs := by
  unfold checkAttrs
  rw [forM_eq_ok_iff]
  apply forall_congr'
  intro entry
  apply imp_congr_right
  intro _
  obtain ⟨key, w⟩ := entry
  rw [forM_eq_ok_iff]
  apply forall_congr'
  intro r
  apply imp_congr_right
  intro _
  split
  · rename_i known
    simp [known, pure, Except.pure]
  · rename_i unknown
    simp [unknown, throw, throwThe, MonadExceptOf.throw]

theorem checkAttrs_cases (settings : Settings) (entries : List (String × Workflow)) :
    checkAttrs settings entries = .ok () ∨ ∃ entry ∈ entries, ∃ attr, checkAttrs settings entries =
      .error (.report (.unknownAttribute entry.1 attr settings.attrs entry.2.span)) := by
  cases outcome : checkAttrs settings entries with
  | ok _ => exact .inl rfl
  | error fault =>
    obtain ⟨entry, mem, inner⟩ := exists_of_forM_error outcome
    obtain ⟨r, _, unknown⟩ := exists_of_forM_error inner
    split at unknown
    · cases unknown
    · cases unknown
      exact .inr ⟨entry, mem, r.attr, rfl⟩

theorem placeEntries_spec (wiring : Wiring) (workflows : List (String × Workflow))
    (growing : wiring.network.Growing) :
    ∃ h, placeEntries wiring workflows = .ok ⟨h, wiring.entries ++
        (workflows.map (·.1)).zip (List.range' wiring.network.size workflows.length)⟩ ∧
      wiring.network.Grown (workflows.map fun entry => .ofRule entry.2.first entry.1 0) [] h := by
  induction workflows generalizing wiring with
  | nil =>
    refine ⟨wiring.network, ?_, Network.Grown.refl growing⟩
    unfold placeEntries
    rw [List.map_nil, List.zip_nil_left, List.append_nil]
  | cons first later ih =>
    obtain ⟨key, w⟩ := first
    obtain ⟨g, added, one⟩ := Network.addNode_spec growing (.ofRule w.first key 0)
    obtain ⟨h, placed, two⟩ :=
      ih ⟨g, wiring.entries ++ [(key, wiring.network.size)]⟩ one.growing
    refine ⟨h, ?_, one.trans two⟩
    have size := one.size_eq
    rw [List.length_singleton] at size
    unfold placeEntries
    rw [added]
    simp only [bind, Except.bind]
    rw [placed, size, List.append_assoc, List.singleton_append, List.map_cons, List.length_cons,
      List.range'_succ, List.zip_cons_cons]

section Numbers

variable (goal : Destination → Nat)

theorem numbers_chained (w : Workflow) (number position : Nat) (rules : List Rule) :
    (chained goal w number position rules).map (·.number) = List.range' number rules.length := by
  induction rules generalizing number position with
  | nil => rfl
  | cons r rest ih => rw [chained, List.map_cons, ih, List.length_cons, List.range'_succ]

theorem numbers_followers (number : Nat) (workflows : List Workflow) :
    (followers goal number workflows).map (·.number) =
      List.range' number (followers goal number workflows).length := by
  induction workflows generalizing number with
  | nil => rfl
  | cons w rest ih =>
    unfold followers
    rw [List.map_append, numbers_chained, ih, List.length_append, length_chained]
    exact List.range'_append_1

theorem numbers_openings (number : Nat) (workflows : List Workflow) :
    (openings goal number workflows).map (·.number) =
      workflows.map fun w => goal (.workflow w.name) := by
  induction workflows generalizing number with
  | nil => rfl
  | cons w rest ih => rw [openings, List.map_cons, List.map_cons, ih, opening]

theorem nodes_openings (number : Nat) (workflows : List Workflow) :
    (openings goal number workflows).map Junction.node =
      workflows.map fun w => .ofRule w.first w.name 0 := by
  induction workflows generalizing number with
  | nil => rfl
  | cons w rest ih =>
    unfold openings
    rw [List.map_cons, List.map_cons, ih]
    rfl

theorem junctions_perm (number : Nat) (workflows : List Workflow) :
    (junctions goal number workflows).Perm
      (openings goal number workflows ++ followers goal number workflows) := by
  induction workflows generalizing number with
  | nil => exact .refl _
  | cons w rest ih =>
    unfold junctions junctionsOf openings followers
    rw [List.cons_append, List.cons_append]
    refine .cons _ ?_
    apply (List.Perm.append_left _ (ih _)).trans
    rw [← List.append_assoc, ← List.append_assoc]
    exact List.Perm.append_right _ List.perm_append_comm

theorem junctionsOf_subset_junctions (number : Nat) {workflows : List Workflow} {w : Workflow}
    (mem : w ∈ workflows) :
    ∃ k, junctionsOf goal w k ⊆ junctions goal number workflows := by
  induction workflows generalizing number with
  | nil => cases mem
  | cons v rest ih =>
    unfold junctions
    rcases List.mem_cons.mp mem with rfl | later
    · exact ⟨number, List.subset_append_left _ _⟩
    · obtain ⟨k, within⟩ := ih (number + v.rest.length) later
      exact ⟨k, List.Subset.trans within (List.subset_append_right _ _)⟩

theorem origin_of_mem_junctions {number : Nat} {workflows : List Workflow} {j : Junction}
    (mem : j ∈ junctions goal number workflows) :
    ∃ w ∈ workflows, ∃ k, j ∈ junctionsOf goal w k ∧
      junctionsOf goal w k ⊆ junctions goal number workflows := by
  induction workflows generalizing number with
  | nil => cases mem
  | cons w rest ih =>
    unfold junctions at mem ⊢
    rcases List.mem_append.mp mem with here | later
    · exact ⟨w, List.mem_cons_self, number, here, List.subset_append_left _ _⟩
    · obtain ⟨v, within, k, own, subset⟩ := ih later
      exact ⟨v, List.mem_cons_of_mem _ within, k, own,
        List.Subset.trans subset (List.subset_append_right _ _)⟩

end Numbers

def entriesOf (book : RuleBook) : List (String × Nat) :=
  (book.sortedEntries.map (·.1)).zip (List.range' 3 book.sortedEntries.length)

theorem lookup_entriesOf_isSome {book : RuleBook} {name : String} :
    ((entriesOf book).lookup name).isSome ↔ (book.get? name).isSome := by
  rw [RuleBook.get?, lookup_isSome_iff_mem, lookup_isSome_iff_mem, entriesOf,
    List.map_fst_zip (by simp)]
  exact (book.sortedEntries_perm.map _).mem_iff

theorem dangling?_entriesOf_eq_none_iff {book : RuleBook} {d : Destination} :
    dangling? (entriesOf book) d = none ↔ book.Resolves d := by
  cases d with
  | accept | reject => simp [dangling?, RuleBook.Resolves]
  | workflow name =>
    rw [RuleBook.Resolves, ← lookup_entriesOf_isSome, dangling?]
    cases (entriesOf book).lookup name <;> simp

theorem goal_entriesOf {book : RuleBook} (d : Destination) :
    goal (entriesOf book) d < 3 + book.sortedEntries.length ∧
      goal (entriesOf book) d ≠ Network.start := by
  cases d with
  | accept =>
    rw [goal, Network.accept, Network.start]
    omega
  | reject =>
    rw [goal, Network.reject, Network.start]
    omega
  | workflow name =>
    rw [goal, Network.start]
    cases found : (entriesOf book).lookup name with
    | none =>
      rw [Option.getD_none]
      omega
    | some k =>
      have bounds := (List.of_mem_zip (mem_of_lookup found)).2
      rw [List.mem_range'_1] at bounds
      rw [Option.getD_some]
      omega

structure Renders (book : RuleBook) (settings : Settings) (wiring : Wiring)
    (js : List Junction) : Prop where
  laid : Laid wiring.network js (goal wiring.entries (.workflow settings.start))
  placed : ∀ w ∈ book.workflows, ∃ number, junctionsOf (goal wiring.entries) w number ⊆ js
  origin : ∀ j ∈ js, ∃ w ∈ book.workflows, ∃ number,
    j ∈ junctionsOf (goal wiring.entries) w number ∧ junctionsOf (goal wiring.entries) w number ⊆ js
  resolves : ∀ w ∈ book.workflows, ∀ d ∈ w.destinations, book.Resolves d
  started : book.Resolves (.workflow settings.start)

def ordered (book : RuleBook) : List Workflow := book.sortedEntries.map (·.2)

def layout (book : RuleBook) : List Junction :=
  openings (goal (entriesOf book)) (3 + book.sortedEntries.length) (ordered book) ++
    followers (goal (entriesOf book)) (3 + book.sortedEntries.length) (ordered book)

theorem mem_ordered {book : RuleBook} {w : Workflow} :
    w ∈ ordered book ↔ w ∈ book.workflows := (book.sortedEntries_perm.map _).mem_iff

theorem mem_layout {book : RuleBook} {j : Junction} :
    j ∈ layout book ↔
      j ∈ junctions (goal (entriesOf book)) (3 + book.sortedEntries.length) (ordered book) :=
  (junctions_perm _ _ _).mem_iff.symm

section Keyed

variable {book : RuleBook} (keyed : book.Keyed)

include keyed

theorem names_ordered : (ordered book).map (·.name) = book.sortedEntries.map (·.1) := by
  unfold ordered
  rw [List.map_map]
  exact List.map_congr_left fun entry mem => keyed entry (book.sortedEntries_perm.mem_iff.mp mem)

theorem goals_ordered : (ordered book).map (fun w => goal (entriesOf book) (.workflow w.name)) =
    List.range' 3 book.sortedEntries.length := by
  have found := map_lookup_zip (List.range' 3 book.sortedEntries.length)
    book.nodup_sortedEntries (by simp)
  calc (ordered book).map (fun w => goal (entriesOf book) (.workflow w.name))
      = (book.sortedEntries.map (·.1)).map fun name => ((entriesOf book).lookup name).getD 0 := by
        rw [← names_ordered keyed, List.map_map]
        rfl
    _ = ((List.range' 3 book.sortedEntries.length).map some).map (Option.getD · 0) := by
        rw [← found]
        exact (List.map_map (g := fun k : Option Nat => k.getD 0)).symm
    _ = List.range' 3 book.sortedEntries.length := by
        rw [List.map_map]
        exact List.map_id _

theorem numbers_layout : (layout book).map (·.number) = List.range' 3 (layout book).length := by
  have openings_ := numbers_openings (goal (entriesOf book)) (3 + book.sortedEntries.length)
    (ordered book)
  rw [goals_ordered keyed] at openings_
  have count := congrArg List.length openings_
  rw [List.length_map, List.length_range'] at count
  unfold layout
  rw [List.map_append, openings_, numbers_followers, List.length_append, count]
  exact List.range'_append_1

theorem nodes_layout : (layout book).map Junction.node =
    (book.sortedEntries.map fun entry => .ofRule entry.2.first entry.1 0) ++
      (followers (goal (entriesOf book)) (3 + book.sortedEntries.length) (ordered book)).map
        Junction.node := by
  unfold layout
  rw [List.map_append, nodes_openings, ordered, List.map_map]
  congr 1
  apply List.map_congr_left
  intro entry mem
  rw [Function.comp_apply, keyed entry (book.sortedEntries_perm.mem_iff.mp mem)]

theorem layout_onward : ∀ j ∈ layout book, j.passed ≠ Network.start ∧ j.failed ≠ Network.start := by
  intro j mem
  obtain ⟨w, within, number, own, part⟩ := origin_of_mem_junctions _ (mem_layout.mp mem)
  have belongs := belongs_junctionsOf _ w number j own
  constructor
  · obtain ⟨d, _, passed⟩ := belongs.passed
    rw [passed]
    exact (goal_entriesOf d).2
  · rcases belongs.failed with ⟨d, _, failed⟩ | ⟨k, next, failed, _⟩
    · rw [failed]
      exact (goal_entriesOf d).2
    · have late : k.number ∈ (layout book).map (·.number) :=
        List.mem_map_of_mem (mem_layout.mpr (part next))
      rw [numbers_layout keyed, List.mem_range'_1] at late
      rw [failed, Network.start]
      omega

theorem laid_layout {g : Network} {start : String} (indexed : g.Indexed)
    (nodes_eq : g.nodes = [.reject, .accept, .start] ++ (layout book).map Junction.node)
    (edges_eq : g.edges.toList =
      (junctions (goal (entriesOf book)) (3 + book.sortedEntries.length) (ordered book)).flatMap
        Junction.edges ++ [⟨goal (entriesOf book) (.workflow start), Network.start, .entry⟩]) :
    Laid g (layout book) (goal (entriesOf book) (.workflow start)) where
  indexed := indexed
  numbered := numbers_layout keyed
  nodes_eq := nodes_eq
  edges_perm := by
    rw [edges_eq]
    exact ((junctions_perm _ _ _).flatMap_right _).append_right _
  onward := layout_onward keyed
  entered := (goal_entriesOf _).2

end Keyed

theorem firstDangling?_eq_none_iff {book : RuleBook} :
    firstDangling? (entriesOf book) (ordered book) = none ↔
      ∀ w ∈ book.workflows, ∀ d ∈ w.destinations, book.Resolves d := by
  unfold firstDangling?
  rw [List.findSome?_eq_none_iff]
  apply forall_congr'
  intro w
  apply imp_congr mem_ordered
  rw [Option.map_eq_none_iff, List.findSome?_eq_none_iff]
  exact forall_congr' fun d => imp_congr_right fun _ => dangling?_entriesOf_eq_none_iff

structure Ready (book : RuleBook) (settings : Settings) : Prop where
  valid : settings.problems = []
  known : ∀ w ∈ book.workflows, ∀ r ∈ w.rules, r.attr ∈ settings.attrs
  started : (book.get? settings.start).isSome

theorem checkAttrs_sortedEntries {book : RuleBook} {settings : Settings} :
    checkAttrs settings book.sortedEntries = .ok () ↔
      ∀ w ∈ book.workflows, ∀ r ∈ w.rules, r.attr ∈ settings.attrs := by
  rw [checkAttrs_eq_ok_iff]
  constructor
  · intro known w mem
    obtain ⟨entry, within, rfl⟩ := List.mem_map.mp mem
    exact known entry (book.sortedEntries_perm.mem_iff.mpr within)
  · intro known entry mem
    exact known entry.2 (List.mem_map_of_mem (book.sortedEntries_perm.mem_iff.mp mem))

theorem ready_of_ofRuleBook {book : RuleBook} {settings : Settings} {wiring : Wiring}
    (made : ofRuleBook book settings = .ok wiring) : Ready book settings := by
  unfold ofRuleBook at made
  simp only [bind, Except.bind, throw, throwThe, MonadExceptOf.throw] at made
  split at made
  · cases made
  · rename_i valid
    split at made
    · cases made
    · rename_i known
      split at made
      · cases made
      · rename_i started
        refine ⟨Settings.check_eq_ok_iff.mp valid, checkAttrs_sortedEntries.mp known, ?_⟩
        rwa [Bool.not_eq_true, Option.isNone_eq_false_iff] at started

theorem ofRuleBook_of_ready {book : RuleBook} {settings : Settings} (ready : Ready book settings) :
    ofRuleBook book settings = (do
      let placed ← placeEntries ⟨.empty, []⟩ book.sortedEntries
      let network ← book.sortedEntries.foldlM (fun g (_, w) => wire placed.entries g w)
        placed.network
      let first ← entry placed.entries settings.start
      let network ← network.connect first Network.start .entry
      network.validate
      pure ⟨network.freeze, placed.entries⟩) := by
  have started : (book.get? settings.start).isNone = false :=
    Option.isNone_eq_false_iff.mpr ready.started
  unfold ofRuleBook
  simp only [Settings.check_eq_ok_iff.mpr ready.valid, checkAttrs_sortedEntries.mpr ready.known,
    started, bind, Except.bind]
  rfl

theorem placeEntries_sortedEntries (book : RuleBook) :
    ∃ h, placeEntries ⟨.empty, []⟩ book.sortedEntries = .ok ⟨h, entriesOf book⟩ ∧
      h.size = 3 + book.sortedEntries.length ∧
      Network.empty.Grown
        (book.sortedEntries.map fun entry => .ofRule entry.2.first entry.1 0) [] h := by
  obtain ⟨h, placed, grown⟩ := placeEntries_spec ⟨.empty, []⟩ book.sortedEntries
    ⟨Network.Indexed.empty, rfl⟩
  refine ⟨h, placed, ?_, grown⟩
  rw [grown.size_eq, List.length_map]
  rfl

theorem renders_layout {book : RuleBook} {settings : Settings} {g : Network}
    (laid : Laid g (layout book) (goal (entriesOf book) (.workflow settings.start)))
    (resolves : ∀ w ∈ book.workflows, ∀ d ∈ w.destinations, book.Resolves d)
    (started : (book.get? settings.start).isSome) :
    Renders book settings ⟨g, entriesOf book⟩ (layout book) where
  laid := laid
  placed := by
    intro w mem
    obtain ⟨number, part⟩ := junctionsOf_subset_junctions (goal (entriesOf book))
      (3 + book.sortedEntries.length) (mem_ordered.mpr mem)
    exact ⟨number, fun j within => mem_layout.mpr (part within)⟩
  origin := by
    intro j mem
    obtain ⟨w, within, number, own, part⟩ := origin_of_mem_junctions _ (mem_layout.mp mem)
    exact ⟨w, mem_ordered.mp within, number, own, fun k inside => mem_layout.mpr (part inside)⟩
  resolves := resolves
  started := started

theorem ofRuleBook_spec {book : RuleBook} {settings : Settings} (keyed : book.Keyed)
    (ready : Ready book settings) :
    match firstDangling? (entriesOf book) (ordered book) with
    | some (w, name) => ofRuleBook book settings =
        .error (.report (.unknownDestination name (some w.name) w.span))
    | none => ∃ wiring, ofRuleBook book settings = .ok wiring ∧
        Renders book settings wiring (layout book) := by
  obtain ⟨h, placed, size, one⟩ := placeEntries_sortedEntries book
  have entered (entry : String × Workflow) (mem : entry ∈ book.sortedEntries) :
      ((entriesOf book).lookup entry.2.name).isSome := by
    have stored := book.sortedEntries_perm.mem_iff.mp mem
    rw [lookup_entriesOf_isSome, keyed.get?_name (List.mem_map_of_mem stored)]
    rfl
  have inside (d : Destination) : goal (entriesOf book) d < h.size := size ▸ (goal_entriesOf d).1
  have wired := wireAll_spec one.growing entered inside
  rw [← ordered] at wired
  rw [ofRuleBook_of_ready ready, placed]
  simp only [bind, Except.bind]
  cases found : firstDangling? (entriesOf book) (ordered book) with
  | some dangling =>
    rw [found] at wired
    simp only [wired]
  | none =>
    rw [found, size] at wired
    obtain ⟨k, done, two⟩ := wired
    obtain ⟨number, listed⟩ := Option.isSome_iff_exists.mp
      (lookup_entriesOf_isSome.mpr ready.started)
    have first : goal (entriesOf book) (.workflow settings.start) = number := by
      rw [goal, listed, Option.getD_some]
    have larger := two.size_eq
    have known := inside (.workflow settings.start)
    rw [first] at known
    have there : number < k.size := by omega
    have entrance : Network.start < k.size := by
      unfold Network.start
      omega
    obtain ⟨g, connected, three⟩ := Network.connect_spec two.growing there entrance .entry
    have grown := (one.trans two).trans three
    have laid : Laid g (layout book) (goal (entriesOf book) (.workflow settings.start)) := by
      refine laid_layout keyed three.growing.indexed ?_ ?_
      · rw [grown.nodes_eq, nodes_layout keyed, List.append_nil]
        rfl
      · rw [grown.edges_eq, first]
        rfl
    refine ⟨⟨g.freeze, entriesOf book⟩, ?_, ?_⟩
    · simp only [done, entry, listed, connected, laid.validate_eq]
      rfl
    · exact renders_layout laid.freeze (firstDangling?_eq_none_iff.mp found) ready.started

theorem renders_of_ofRuleBook {book : RuleBook} {settings : Settings} {wiring : Wiring}
    (keyed : book.Keyed) (made : ofRuleBook book settings = .ok wiring) :
    Renders book settings wiring (layout book) := by
  have spec := ofRuleBook_spec keyed (ready_of_ofRuleBook made)
  split at spec
  · rw [made] at spec
    cases spec
  · obtain ⟨_, same, renders⟩ := spec
    rw [made] at same
    cases same
    exact renders

theorem ofRuleBook_returns {book : RuleBook} {settings : Settings} (keyed : book.Keyed)
    (ready : Ready book settings)
    (resolves : ∀ w ∈ book.workflows, ∀ d ∈ w.destinations, book.Resolves d) :
    ∃ wiring, ofRuleBook book settings = .ok wiring := by
  have spec := ofRuleBook_spec keyed ready
  rw [firstDangling?_eq_none_iff.mpr resolves] at spec
  obtain ⟨wiring, made, _⟩ := spec
  exact ⟨wiring, made⟩

theorem ofRuleBook_of_unknown {book : RuleBook} {settings : Settings}
    (valid : settings.problems = [])
    (unknown : ¬ ∀ w ∈ book.workflows, ∀ r ∈ w.rules, r.attr ∈ settings.attrs) :
    ∃ key attr span, ofRuleBook book settings =
      .error (.report (.unknownAttribute key attr settings.attrs span)) := by
  unfold ofRuleBook
  simp only [Settings.check_eq_ok_iff.mpr valid, bind, Except.bind]
  rcases checkAttrs_cases settings book.sortedEntries with known | ⟨_, _, attr, reported⟩
  · exact absurd (checkAttrs_sortedEntries.mp known) unknown
  · rw [reported]
    exact ⟨_, attr, _, rfl⟩

theorem ofRuleBook_of_astray {book : RuleBook} {settings : Settings} (keyed : book.Keyed)
    (valid : settings.problems = [])
    (known : ∀ w ∈ book.workflows, ∀ r ∈ w.rules, r.attr ∈ settings.attrs)
    (astray : ¬ (book.Resolves (.workflow settings.start) ∧
      ∀ w ∈ book.workflows, ∀ d ∈ w.destinations, book.Resolves d)) :
    ∃ name origin span, ofRuleBook book settings =
      .error (.report (.unknownDestination name origin span)) := by
  by_cases started : (book.get? settings.start).isSome
  · have spec := ofRuleBook_spec keyed ⟨valid, known, started⟩
    split at spec
    · exact ⟨_, _, _, spec⟩
    · rename_i found
      exact absurd ⟨started, firstDangling?_eq_none_iff.mp found⟩ astray
  · have missing : (book.get? settings.start).isNone = true := by simpa using started
    unfold ofRuleBook
    simp only [Settings.check_eq_ok_iff.mpr valid, checkAttrs_sortedEntries.mpr known, missing, bind,
      Except.bind, if_true]
    exact ⟨_, _, _, rfl⟩

inductive Blames (book : RuleBook) : Diagnostic → Prop
  | untested {w : Workflow} (mem : w ∈ book.workflows) (key attr : String) (attrs : List String) :
      Blames book (.unknownAttribute key attr attrs w.span)
  | startless (name : String) : Blames book (.unknownDestination name none none)
  | astray {w : Workflow} (mem : w ∈ book.workflows) (name : String) :
      Blames book (.unknownDestination name (some w.name) w.span)

theorem ofRuleBook_cases {book : RuleBook} {settings : Settings} (keyed : book.Keyed)
    (valid : settings.problems = []) :
    (∃ wiring, ofRuleBook book settings = .ok wiring) ∨
      ∃ d, ofRuleBook book settings = .error (.report d) ∧ Blames book d := by
  rcases checkAttrs_cases settings book.sortedEntries with known | ⟨entry, mem, attr, reported⟩
  · by_cases started : (book.get? settings.start).isSome
    · have spec := ofRuleBook_spec keyed ⟨valid, checkAttrs_sortedEntries.mp known, started⟩
      split at spec
      · rename_i w name found
        unfold firstDangling? at found
        obtain ⟨v, within, leads⟩ := List.exists_of_findSome?_eq_some found
        obtain ⟨_, _, same⟩ := Option.map_eq_some_iff.mp leads
        cases same
        exact .inr ⟨_, spec, .astray (mem_ordered.mp within) name⟩
      · obtain ⟨wiring, made, _⟩ := spec
        exact .inl ⟨wiring, made⟩
    · have missing : (book.get? settings.start).isNone = true := by simpa using started
      unfold ofRuleBook
      simp only [Settings.check_eq_ok_iff.mpr valid, known, missing, bind, Except.bind, if_true]
      exact .inr ⟨_, rfl, .startless settings.start⟩
  · have stored := List.mem_map_of_mem (f := (·.2)) (book.sortedEntries_perm.mem_iff.mp mem)
    unfold ofRuleBook
    simp only [Settings.check_eq_ok_iff.mpr valid, reported, bind, Except.bind]
    exact .inr ⟨_, rfl, .untested stored entry.1 attr settings.attrs⟩

end Wiring

end RouteVolume
