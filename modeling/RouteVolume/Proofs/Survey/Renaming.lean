import RouteVolume.Proofs.Survey.Complement
import RouteVolume.Proofs.Wiring.Renaming

namespace RouteVolume

inductive Topic where
  | general
  | line
  | definition
  | destination
  | settings
  | network
  | cycle
  deriving DecidableEq, Repr

def Subject.topic : Subject → Topic
  | .general => .general
  | .line _ => .line
  | .definition => .definition
  | .destination _ _ => .destination
  | .settings => .settings
  | .network => .network
  | .cycle _ => .cycle

def Fault.Alike (left right : Fault) : Prop :=
  ∃ d e, left = .report d ∧ right = .report e ∧ d.subject.topic = e.subject.topic ∧ d.code = e.code

namespace Survey

structure Alike (left right : Survey) : Prop where
  volume_eq : left.volume = right.volume
  regions_perm : left.regions.Perm right.regions
  tally_eq : left.walk.tally = right.walk.tally
  size_eq : left.wiring.network.size = right.wiring.network.size
  edges_eq : left.wiring.network.edges.size = right.wiring.network.edges.size

/-- Are two surveys alike, or were neither made, for faults that are alike? -/
inductive Matches : Except Fault Survey → Except Fault Survey → Prop
  | surveyed {survey other : Survey} (alike : survey.Alike other) : Matches (.ok survey) (.ok other)
  | failed {fault other : Fault} (alike : fault.Alike other) : Matches (.error fault) (.error other)

variable {book : RuleBook} {settings : Settings} {wiring : Wiring}

theorem ofRuleBook_of_fault {fault : Fault}
    (failed : Wiring.ofRuleBook book settings = .error fault) :
    ofRuleBook book settings = .error fault := by
  unfold ofRuleBook
  rw [failed]
  rfl

theorem fails_iff (keyed : book.Keyed) (made : Wiring.ofRuleBook book settings = .ok wiring) :
    (∃ fault, ofRuleBook book settings = .error fault) ↔
      ∃ fault, (wiring.network.walk settings).result = .error fault := by
  constructor
  · intro ⟨fault, stopped⟩
    obtain ⟨edges, listed⟩ := (Wiring.renders_of_ofRuleBook keyed made).laid.edgesFrom_accept
    rcases Network.result_walk_cases listed settings with ⟨fails, _⟩ | ⟨_, fine⟩
    · exact fails
    · rcases ofRuleBook_cases keyed made with ⟨survey, found⟩ | ⟨v, visited, other, failed, _⟩
      · rw [stopped] at found
        cases found
      · rw [fine v.branch (List.mem_map_of_mem visited)] at failed
        cases failed
  · intro ⟨fault, stopped⟩
    refine ⟨fault, ?_⟩
    unfold ofRuleBook
    rw [made]
    simp only [bind, Except.bind, ofWalk, stopped]

theorem cycle_of_fault (keyed : book.Keyed) (writable : ∀ w ∈ book.workflows, w.Writable)
    (made : Wiring.ofRuleBook book settings = .ok wiring) {fault : Fault}
    (stopped : ofRuleBook book settings = .error fault) :
    ∃ label, fault = .report (.cycle label) := by
  rcases surveyed_or_cycle keyed writable made with ⟨survey, found⟩ | ⟨label, _, reported⟩
  · rw [stopped] at found
    cases found
  · exact ⟨label, Except.error.inj (stopped.symm.trans reported)⟩

end Survey

namespace RuleBook

variable {book : RuleBook} {settings : Settings} {name : String → String}
  (injective : Function.Injective name)

theorem accepts_rename_iff {p : Point} :
    (book.recast (.rename injective)).Accepts (settings.recast (.rename injective)) p ↔
      book.Accepts settings p :=
  reaches_recast_iff (c := .rename injective) (d := .workflow settings.start) (e := .accept)

end RuleBook

namespace Survey

section Renamed

variable {book : RuleBook} {settings : Settings} {name : String → String}
  (injective : Function.Injective name) (keyed : book.Keyed)

include keyed

theorem alike_of_renamed {survey other : Survey} (surveyed : ofRuleBook book settings = .ok survey)
    (again : ofRuleBook (book.recast (.rename injective))
      (settings.recast (.rename injective)) = .ok other) : survey.Alike other := by
  obtain ⟨made, walked, _, walk⟩ := parts_of_ofRuleBook surveyed
  obtain ⟨remade, rewalked, _, rewalk⟩ := parts_of_ofRuleBook again
  have image := Wiring.image_of_ofRuleBook keyed made
  have recast := Wiring.image_of_ofRuleBook keyed.recast remade
  obtain ⟨regions, tally⟩ :=
    (Wiring.walks_recast_alike keyed rfl made remade).2 _ _ walked rewalked
  constructor
  case volume_eq =>
    have size := encard_accepts keyed.recast again
    simp only [RuleBook.accepts_rename_iff] at size
    exact Nat.cast_inj.mp ((encard_accepts keyed surveyed).symm.trans size)
  case regions_perm => exact regions
  case tally_eq => rw [walk, rewalk, tally]
  case size_eq => rw [image.size, recast.size, RuleBook.length_rules_recast]
  case edges_eq => rw [image.edgeCount, recast.edgeCount, RuleBook.length_rules_recast]

theorem matches_of_wired {wiring other : Wiring} (writable : ∀ w ∈ book.workflows, w.Writable)
    (made : Wiring.ofRuleBook book settings = .ok wiring)
    (remade : Wiring.ofRuleBook (book.recast (.rename injective))
      (settings.recast (.rename injective)) = .ok other) :
    Matches (ofRuleBook book settings)
      (ofRuleBook (book.recast (.rename injective)) (settings.recast (.rename injective))) := by
  have rewritable : ∀ w ∈ (book.recast (.rename injective)).workflows, w.Writable :=
    RuleBook.forall_workflows_recast.mpr fun w mem => (writable w mem).recast _
  have fails := (fails_iff keyed made).trans <|
    (Wiring.walks_recast_alike keyed rfl made remade).1.trans (fails_iff keyed.recast remade).symm
  cases surveyed : ofRuleBook book settings with
  | ok survey =>
    cases again : ofRuleBook (book.recast (.rename injective))
        (settings.recast (.rename injective)) with
    | ok other => exact .surveyed (alike_of_renamed injective keyed surveyed again)
    | error fault =>
      obtain ⟨_, stopped⟩ := fails.mpr ⟨fault, again⟩
      rw [surveyed] at stopped
      cases stopped
  | error fault =>
    -- The walks visit the nodes in different orders, so they may meet different cycles first.
    obtain ⟨other, again⟩ := fails.mp ⟨fault, surveyed⟩
    obtain ⟨_, one⟩ := cycle_of_fault keyed writable made surveyed
    obtain ⟨_, two⟩ := cycle_of_fault keyed.recast rewritable remade again
    rw [again]
    exact .failed ⟨_, _, one, two, rfl, rfl⟩

end Renamed

/-- Under an injective renaming of workflows, in the rule book and in the start of the settings, a
rule book is surveyed as before, or what keeps it from being surveyed is reported again. -/
theorem ignores_names {made : List (Except Fault Workflow)} {book : RuleBook}
    {settings : Settings} {name : String → String} (injective : Function.Injective name)
    (defined : RuleBook.ofWorkflows made = .ok book)
    (writable : ∀ w ∈ book.workflows, w.Writable) (valid : settings.problems = [])
    (still : (settings.recast (.rename injective)).problems = []) :
    RuleBook.ofWorkflows (made.map (·.map (·.recast (.rename injective)))) =
      .ok (book.recast (.rename injective)) ∧
    Matches (ofRuleBook book settings)
      (ofRuleBook (book.recast (.rename injective)) (settings.recast (.rename injective))) := by
  have keyed := RuleBook.keyed_ofWorkflows defined
  refine ⟨RuleBook.ofWorkflows_recast defined, ?_⟩
  by_cases known : ∀ w ∈ book.workflows, ∀ r ∈ w.rules, r.attr ∈ settings.attrs
  · have reknown := RuleBook.forall_attrs_recast (c := .rename injective).mpr known
    by_cases resolved : book.Resolves (.workflow settings.start) ∧
        ∀ w ∈ book.workflows, ∀ d ∈ w.destinations, book.Resolves d
    · obtain ⟨restarted, reresolves⟩ :=
        RuleBook.leads_recast_iff (c := .rename injective).mpr resolved
      obtain ⟨started, resolves⟩ := resolved
      obtain ⟨wiring, wired⟩ := Wiring.ofRuleBook_returns keyed ⟨valid, known, started⟩ resolves
      obtain ⟨other, rewired⟩ := Wiring.ofRuleBook_returns keyed.recast
        ⟨still, reknown, restarted⟩ reresolves
      exact matches_of_wired injective keyed writable wired rewired
    · obtain ⟨_, _, _, one⟩ := Wiring.ofRuleBook_of_astray keyed valid known resolved
      obtain ⟨_, _, _, two⟩ := Wiring.ofRuleBook_of_astray keyed.recast still reknown
        (RuleBook.leads_recast_iff.not.mpr resolved)
      rw [ofRuleBook_of_fault one, ofRuleBook_of_fault two]
      exact .failed ⟨_, _, rfl, rfl, rfl, rfl⟩
  · obtain ⟨_, _, _, one⟩ := Wiring.ofRuleBook_of_unknown valid known
    obtain ⟨_, _, _, two⟩ := Wiring.ofRuleBook_of_unknown still
      (RuleBook.forall_attrs_recast.not.mpr known)
    rw [ofRuleBook_of_fault one, ofRuleBook_of_fault two]
    exact .failed ⟨_, _, rfl, rfl, rfl, rfl⟩

def backwards (name : String) : String := String.ofList name.toList.reverse

theorem backwards_injective : Function.Injective backwards := by
  intro name other same
  exact String.toList_inj.mp (List.reverse_injective (String.ofList_injective same))

theorem sharing_backwards :
    sharing.sortedEntries.map (·.1) = ["deep", "in", "low"] ∧
    (sharing.recast (.rename backwards_injective)).sortedEntries.map (·.1) =
      ["ni", "peed", "wol"] ∧
    (sharing.recast (.rename backwards_injective)).accepted
      (square.recast (.rename backwards_injective)) = .ok 13 := by
  have defined : RuleBook.ofWorkflows (sharing.workflows.map .ok) = .ok sharing := rfl
  have valid : square.problems = [] := by decide
  have matching := (ignores_names backwards_injective defined
    (RuleBook.writable_of_small (by decide)) valid (by decide)).2
  have counted : (ofRuleBook sharing square).map (·.volume) = .ok 13 := by cbv
  refine ⟨by cbv, by cbv, ?_⟩
  unfold RuleBook.accepted
  revert matching counted
  generalize ofRuleBook sharing square = before
  generalize ofRuleBook (sharing.recast _) _ = after
  intro matching counted
  cases matching with
  | surveyed alike =>
    rw [← counted]
    exact congrArg Except.ok alike.volume_eq.symm
  | failed _ => cases counted

end Survey

end RouteVolume
