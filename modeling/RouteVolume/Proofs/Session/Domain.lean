import RouteVolume.Command.Session
import RouteVolume.Proofs.Network.Routes
import RouteVolume.Proofs.Session.Arguments
import RouteVolume.Proofs.Session.Reports
import RouteVolume.Proofs.Wiring.Naming

namespace RouteVolume.Session

theorem settings_eq_or_blank (o : Options) :
    settings o = Settings.ofOptions (o.attrs.map attrsOf) (o.least.bind Given.value?)
        (o.greatest.bind Given.value?) o.start ∨
      (o.least = some .blank ∨ o.greatest = some .blank) ∧
        ∃ sign onLeft, settings o = .error (.blankEnd sign onLeft) := by
  unfold settings
  split
  · exact .inr ⟨.inl ‹_›, _, _, rfl⟩
  · exact .inr ⟨.inr ‹_›, _, _, rfl⟩
  · exact .inl rfl

theorem settings_cases {r : Release} {o : Options} (proper : o.Proper r) :
    (∃ s, settings o = .ok s ∧ s.problems = [] ∧ s.Writable) ∨
      (∃ texts, settings o = .error (.report (.invalidSettings texts))) ∨
      (o.least = some .blank ∨ o.greatest = some .blank) ∧
        ∃ sign onLeft, settings o = .error (.blankEnd sign onLeft) := by
  have small (given : Option (Given Int)) (usual : Int) (less : usual.natAbs < Numeral.bound)
      (each : ∀ n, given = some (.value n) → n.natAbs < Numeral.bound) :
      ((given.bind Given.value?).getD usual).natAbs < Numeral.bound := by
    cases given with
    | none => exact less
    | some given =>
      cases given with
      | value n => exact each n rfl
      | blank => exact less
  have one : (1 : Int).natAbs < Numeral.bound := Numeral.lt_bound_of_le (by decide)
  have many : (4000 : Int).natAbs < Numeral.bound := Numeral.lt_bound_of_le (by decide)
  rcases settings_eq_or_blank o with given | blank
  · obtain ⟨s, made, low, high⟩ : ∃ s : Settings, settings o = (do s.check; pure s) ∧
        s.least = (o.least.bind Given.value?).getD 1 ∧
        s.greatest = (o.greatest.bind Given.value?).getD 4000 :=
      ⟨_, given, rfl, rfl⟩
    have writable : s.Writable :=
      ⟨low ▸ small _ _ one proper.least, high ▸ small _ _ many proper.greatest⟩
    rw [made]
    rcases Settings.check_cases writable with checked | ⟨texts, failed⟩
    · rw [checked]
      exact .inl ⟨s, rfl, Settings.check_eq_ok_iff.mp checked, writable⟩
    · rw [failed]
      exact .inr (.inl ⟨texts, rfl⟩)
  · exact .inr (.inr blank)

theorem blankEnd_of_boundlessFault {g : Network} {js : List Junction} {first : Nat}
    (laid : Laid g js first) {fault : Fault} (stopped : boundlessFault? g = some fault) :
    ∃ sign onLeft, fault = .blankEnd sign onLeft := by
  have known : Network.accept < g.size := by
    rw [laid.size_eq, Network.accept]
    omega
  unfold boundlessFault? at stopped
  rw [laid.indexed.edgesFrom_eq known] at stopped
  obtain ⟨edges, listed, stopped⟩ := Option.bind_eq_some_iff.mp stopped
  cases listed
  obtain ⟨edge, last, stopped⟩ := Option.bind_eq_some_iff.mp stopped
  obtain ⟨node, there, stopped⟩ := Option.bind_eq_some_iff.mp stopped
  have stored := Array.mem_toList_iff.mp (List.mem_filter.mp (List.mem_of_getLast? last)).1
  -- The last edge out of Accept leads to a condition, by one of its outcomes, or to Start.
  rcases laid.target_cases stored with ⟨j, _, own, _⟩ | rfl
  · obtain ⟨passed, outcome⟩ := Junction.outcome_of_mem_edges own
    cases node with
    | condition attr threshold workflow position =>
      cases stopped
      cases passage : edge.passage with
      | pass | fail => exact ⟨_, _, rfl⟩
      | entry =>
        rw [passage] at outcome
        cases outcome
    | _ => cases stopped
  · obtain ⟨slot, place, start⟩ := laid.slot_start
    have read : g.node Network.start = .ok .start :=
      Network.node_eq_ok_iff.mpr ⟨slot, Network.slot_natCast place, start⟩
    rw [read] at there
    cases there
    cases stopped

theorem walk_cases (o : Options) {g : Network} {js : List Junction} {first : Nat}
    (laid : Laid g js first) (s : Settings) :
    walk o g s = g.walk s ∨
      o.least = some .blank ∧ ∃ sign onLeft, walk o g s = ({} : Walk).stop (.blankEnd sign onLeft) := by
  unfold walk
  cases boundless : isBoundless o with
  | false => exact .inl rfl
  | true =>
    cases stops : boundlessFault? g with
    | none =>
      rw [if_pos rfl]
      exact .inl rfl
    | some fault =>
      obtain ⟨sign, onLeft, rfl⟩ := blankEnd_of_boundlessFault laid stops
      rw [if_pos rfl]
      unfold isBoundless at boundless
      exact .inr ⟨of_decide_eq_true (Bool.and_eq_true_iff.mp boundless).1, sign, onLeft, rfl⟩

end RouteVolume.Session
