import Mathlib.Data.List.Basic
import RouteVolume.Proofs.Box.Narrow

namespace RouteVolume

/-- The part of a box on which the test of an attribute has an outcome. -/
structure Narrowing where
  attr : String
  threshold : Threshold
  passed : Bool
  deriving DecidableEq, Repr

def Narrowing.passage (n : Narrowing) : Passage := if n.passed then .pass else .fail

theorem Narrowing.outcome?_passage (n : Narrowing) : n.passage.outcome? = some n.passed := by
  unfold passage
  cases n.passed <;> rfl

namespace Interval

def restrictAll (i : Interval) (ns : List Narrowing) : Interval :=
  ns.foldl (fun i n => i.restrict n.threshold n.passed) i

variable {i : Interval} {z : Int}

theorem lo_restrict_le {t : Threshold} {passed : Bool} :
    (i.restrict t passed).lo ≤ z ↔ i.lo ≤ z ∧ ∃ x ≤ z, t.passes x = passed := by
  obtain ⟨comparison, value⟩ := t
  cases comparison <;> cases passed <;>
    simp only [restrict, atMost, atLeast, Threshold.passes, decide_eq_true_eq, decide_eq_false_iff_not]
  · rw [max_le_iff]
    refine and_congr_right fun _ => ⟨fun le => ⟨value, le, by omega⟩, ?_⟩
    rintro ⟨x, le, _⟩
    omega
  · exact (and_iff_left ⟨min z (value - 1), by omega, by omega⟩).symm
  · exact (and_iff_left ⟨min z value, by omega, by omega⟩).symm
  · rw [max_le_iff]
    refine and_congr_right fun _ => ⟨fun le => ⟨value + 1, le, by omega⟩, ?_⟩
    rintro ⟨x, le, _⟩
    omega

theorem le_hi_restrict {t : Threshold} {passed : Bool} :
    z ≤ (i.restrict t passed).hi ↔ z ≤ i.hi ∧ ∃ x ≥ z, t.passes x = passed := by
  obtain ⟨comparison, value⟩ := t
  cases comparison <;> cases passed <;>
    simp only [restrict, atMost, atLeast, Threshold.passes, decide_eq_true_eq, decide_eq_false_iff_not]
  · exact (and_iff_left ⟨max z value, by omega, by omega⟩).symm
  · rw [le_min_iff]
    refine and_congr_right fun _ => ⟨fun le => ⟨value - 1, le, by omega⟩, ?_⟩
    rintro ⟨x, le, _⟩
    omega
  · rw [le_min_iff]
    refine and_congr_right fun _ => ⟨fun le => ⟨value, le, by omega⟩, ?_⟩
    rintro ⟨x, le, _⟩
    omega
  · exact (and_iff_left ⟨max z (value + 1), by omega, by omega⟩).symm

theorem lo_restrictAll_le {ns : List Narrowing} :
    (i.restrictAll ns).lo ≤ z ↔
      i.lo ≤ z ∧ ∀ n ∈ ns, ∃ x ≤ z, n.threshold.passes x = n.passed := by
  induction ns generalizing i with
  | nil => simp [restrictAll]
  | cons n rest ih =>
    rw [restrictAll, List.foldl_cons, ← restrictAll, ih, lo_restrict_le, List.forall_mem_cons,
      and_assoc]

theorem le_hi_restrictAll {ns : List Narrowing} :
    z ≤ (i.restrictAll ns).hi ↔
      z ≤ i.hi ∧ ∀ n ∈ ns, ∃ x ≥ z, n.threshold.passes x = n.passed := by
  induction ns generalizing i with
  | nil => simp [restrictAll]
  | cons n rest ih =>
    rw [restrictAll, List.foldl_cons, ← restrictAll, ih, le_hi_restrict, List.forall_mem_cons,
      and_assoc]

theorem restrictAll_eq_of_mem_iff {ns ms : List Narrowing} (same : ∀ n, n ∈ ms ↔ n ∈ ns)
    (i : Interval) : i.restrictAll ms = i.restrictAll ns := by
  -- Both ends are told by which narrowings there are, and these are the same on both sides.
  have lo : (i.restrictAll ms).lo = (i.restrictAll ns).lo :=
    eq_of_forall_ge_iff fun z => by simp only [lo_restrictAll_le, same]
  have hi : (i.restrictAll ms).hi = (i.restrictAll ns).hi :=
    eq_of_forall_le_iff fun z => by simp only [le_hi_restrictAll, same]
  calc i.restrictAll ms = ⟨(i.restrictAll ms).lo, (i.restrictAll ms).hi⟩ := rfl
    _ = i.restrictAll ns := by rw [lo, hi]

end Interval

namespace Box

def narrowAll (b : Box) (ns : List Narrowing) : Except Fault Box :=
  ns.foldlM (fun box n => box.narrow n.attr n.threshold n.passage) b

theorem eq_of_ranges {a b : Box} (attrs : a.attrs = b.attrs)
    (ranges : ∀ k : Nat, a.ranges[k]? = b.ranges[k]?) : a = b := by
  obtain ⟨as, is, _⟩ := a
  obtain ⟨bs, js, _⟩ := b
  obtain rfl : as = bs := attrs
  obtain rfl : is = js := List.ext_getElem? ranges
  rfl

theorem range_eq {b : Box} {attr : String} (known : attr ∈ b.attrs) :
    ∃ i, b.ranges[b.attrs.idxOf attr]? = some i ∧ b.range attr = .ok i := by
  have within : b.attrs.idxOf attr < b.ranges.length :=
    b.sameLength ▸ List.idxOf_lt_length_iff.mpr known
  refine ⟨_, List.getElem?_eq_getElem within, ?_⟩
  rw [range, indexOf_eq known]
  rfl

theorem range_of_unknown {b : Box} {attr : String} (unknown : attr ∉ b.attrs) :
    b.range attr = .error (.missingKey attr) := by
  rw [range, indexOf, List.finIdxOf?_eq_none_iff.mpr unknown]
  rfl

theorem narrow_axis {b : Box} {n : Narrowing} (known : n.attr ∈ b.attrs) :
    ∃ box, b.narrow n.attr n.threshold n.passage = .ok box ∧ box.attrs = b.attrs ∧
      (∀ k : Nat, box.ranges[k]? = b.ranges[k]?.map fun i =>
        if b.attrs.idxOf n.attr = k then i.restrict n.threshold n.passed else i) ∧
      ∀ p, p ∈ box ↔ p ∈ b ∧ n.threshold.passes (valueOf b.attrs p n.attr) = n.passed := by
  obtain ⟨box, narrowed, attrs, members⟩ := narrow_spec n.threshold known n.outcome?_passage
  obtain ⟨i, there, ranged⟩ := range_eq known
  have result : b.narrow n.attr n.threshold n.passage =
      .ok (b.set (b.attrs.idxOf n.attr) (i.restrict n.threshold n.passed)) := by
    simp only [narrow, ranged, replace, indexOf_eq known, Interval.narrow, n.outcome?_passage, bind,
      Except.bind]
    rfl
  refine ⟨box, narrowed, attrs, fun k => ?_, members⟩
  obtain rfl := Except.ok.inj (narrowed.symm.trans result)
  by_cases here : b.attrs.idxOf n.attr = k
  · subst here
    rw [set, List.getElem?_set_self (List.getElem?_eq_some_iff.mp there).1, there, Option.map_some,
      if_pos rfl]
  · simp only [set, List.getElem?_set_ne here, if_neg here, Option.map_id']

theorem narrowAll_axes {b : Box} {ns : List Narrowing} (known : ∀ n ∈ ns, n.attr ∈ b.attrs) :
    ∃ box, b.narrowAll ns = .ok box ∧ box.attrs = b.attrs ∧
      (∀ k : Nat, box.ranges[k]? = b.ranges[k]?.map fun i =>
        i.restrictAll (ns.filter fun n => b.attrs.idxOf n.attr = k)) ∧
      ∀ p, p ∈ box ↔ p ∈ b ∧
        ∀ n ∈ ns, n.threshold.passes (valueOf b.attrs p n.attr) = n.passed := by
  induction ns generalizing b with
  | nil =>
    exact ⟨b, rfl, rfl, fun k => by simp [Interval.restrictAll], fun p => by simp⟩
  | cons n rest ih =>
    obtain ⟨here, later⟩ := List.forall_mem_cons.mp known
    obtain ⟨next, narrowed, attrs, axes, members⟩ := narrow_axis here
    obtain ⟨box, all, same, ranges, points⟩ := ih (b := next) (attrs ▸ later)
    refine ⟨box, ?_, same.trans attrs, fun k => ?_, fun p => ?_⟩
    · unfold narrowAll at all ⊢
      rw [List.foldlM_cons, narrowed]
      exact all
    · rw [ranges, axes, attrs, Option.map_map]
      congr 1
      funext i
      by_cases place : b.attrs.idxOf n.attr = k
      · rw [List.filter_cons_of_pos (by simp [place]), Interval.restrictAll, List.foldl_cons,
          Function.comp_apply, if_pos place, ← Interval.restrictAll]
      · rw [List.filter_cons_of_neg (by simp [place]), Function.comp_apply, if_neg place]
    · rw [points, members, attrs, List.forall_mem_cons, and_assoc]

/-- Narrowing by a list of outcomes keeps the points at which all of them hold. The order of the
list and repetitions in it do not matter, an attribute that it does not name keeps its interval, and
a box without points stays without points. -/
theorem narrowAll_intersects {b : Box} {ns : List Narrowing} (known : ∀ n ∈ ns, n.attr ∈ b.attrs) :
    ∃ box, b.narrowAll ns = .ok box ∧ box.attrs = b.attrs ∧
      (∀ ms : List Narrowing, (∀ n, n ∈ ms ↔ n ∈ ns) → b.narrowAll ms = .ok box) ∧
      (∀ p, p ∈ box ↔ p ∈ b ∧
        ∀ n ∈ ns, n.threshold.passes (valueOf b.attrs p n.attr) = n.passed) ∧
      (∀ attr, (∀ n ∈ ns, n.attr ≠ attr) → box.range attr = b.range attr) ∧
      (box.isFeasible = false → ∀ more : List Narrowing, (∀ n ∈ more, n.attr ∈ b.attrs) →
        ∃ further, box.narrowAll more = .ok further ∧ further.isFeasible = false) := by
  obtain ⟨box, all, attrs, ranges, members⟩ := narrowAll_axes known
  refine ⟨box, all, attrs, fun ms same => ?_, members, fun attr unnamed => ?_, fun infeasible => ?_⟩
  · have allowed : ∀ n ∈ ms, n.attr ∈ b.attrs := fun n mem => known n ((same n).mp mem)
    obtain ⟨other, again, alike, axes, _⟩ := narrowAll_axes allowed
    rw [again, eq_of_ranges (alike.trans attrs.symm) fun k => ?_]
    rw [axes, ranges]
    congr 1
    funext i
    exact Interval.restrictAll_eq_of_mem_iff (fun n => by simp only [List.mem_filter, same]) i
  · by_cases listed : attr ∈ b.attrs
    · obtain ⟨i, before, given⟩ := range_eq listed
      obtain ⟨j, after, kept⟩ := range_eq (b := box) (attrs ▸ listed)
      have none_ : ns.filter (fun n => b.attrs.idxOf n.attr = b.attrs.idxOf attr) = [] := by
        refine List.filter_eq_nil_iff.mpr fun n mem same => ?_
        exact unnamed n mem ((List.idxOf_inj (known n mem)).mp (of_decide_eq_true same))
      rw [attrs, ranges, before, none_] at after
      rw [given, kept, ← Option.some.inj after]
      rfl
    · rw [range_of_unknown listed, range_of_unknown (attrs ▸ listed)]
  · intro more allowed
    obtain ⟨further, narrowed, _, _, points⟩ := narrowAll_axes (b := box) (attrs ▸ allowed)
    refine ⟨further, narrowed, Bool.eq_false_iff.mpr fun feasible => ?_⟩
    obtain ⟨p, within⟩ := (isFeasible_iff further).mp feasible
    exact Bool.eq_false_iff.mp infeasible ((isFeasible_iff box).mpr ⟨p, ((points p).mp within).1⟩)

def halfEmpty : Box := .ofEntries [("x", ⟨1, 9⟩), ("m", ⟨4, 2⟩)]

theorem halfEmpty_narrowed :
    let ns : List Narrowing := [⟨"x", .below 5, true⟩, ⟨"m", .above 3, false⟩, ⟨"x", .below 3, false⟩]
    let ms : List Narrowing := [⟨"x", .below 3, false⟩, ⟨"m", .above 3, false⟩, ⟨"x", .below 5, true⟩,
      ⟨"m", .above 3, false⟩]
    (∀ n ∈ ns, n.attr ∈ halfEmpty.attrs) ∧ (∀ n, n ∈ ms ↔ n ∈ ns) ∧
      ∃ box, halfEmpty.narrowAll ms = .ok box ∧ box.ranges = [⟨3, 4⟩, ⟨4, 2⟩] ∧
        ∃ further, box.narrowAll ms = .ok further ∧ further.isFeasible = false := by
  intro ns ms
  have known : ∀ n ∈ ns, n.attr ∈ halfEmpty.attrs := by decide
  have same (n : Narrowing) : n ∈ ms ↔ n ∈ ns := by
    simp only [ms, ns, List.mem_cons, List.not_mem_nil, or_false]
    tauto
  obtain ⟨box, narrowed, _, any, _, _, stays⟩ := narrowAll_intersects known
  have ranges : box.ranges = [⟨3, 4⟩, ⟨4, 2⟩] := by
    obtain rfl := Except.ok.inj narrowed
    rfl
  have infeasible : box.isFeasible = false := by
    rw [isFeasible, ranges]
    rfl
  exact ⟨known, same, box, any ms same, ranges, stays infeasible ms (by decide)⟩

theorem encard_mem (b : Box) : {p | p ∈ b}.encard = b.volume := by
  have points : {p | p ∈ b} = (b.points : Set Point) := by
    ext p
    exact mem_points.symm
  rw [points, Set.encard_coe_eq_coe_finsetCard, card_points]

/-- The volume of a box is the number of its points, and a test shares out the points and the volume
of a box between its two outcomes. -/
theorem volume_shared (b : Box) :
    {p | p ∈ b}.encard = b.volume ∧
    ∀ attr ∈ b.attrs, ∀ t : Threshold, ∃ passed failed,
      b.narrow attr t .pass = .ok passed ∧ b.narrow attr t .fail = .ok failed ∧
      passed.volume + failed.volume = b.volume ∧
      (∀ p, p ∈ b ↔ p ∈ passed ∨ p ∈ failed) ∧ ∀ p, ¬ (p ∈ passed ∧ p ∈ failed) := by
  refine ⟨encard_mem b, fun attr known t => ?_⟩
  obtain ⟨passed, ofPass, _, inPassed⟩ := narrow_spec t known (rfl : Passage.pass.outcome? = some true)
  obtain ⟨failed, ofFail, _, inFailed⟩ := narrow_spec t known (rfl : Passage.fail.outcome? = some false)
  have shared (p : Point) : p ∈ b ↔ p ∈ passed ∨ p ∈ failed := by
    rw [inPassed, inFailed, ← and_or_left]
    exact (and_iff_left (Bool.eq_false_or_eq_true _)).symm
  have apart (p : Point) : ¬ (p ∈ passed ∧ p ∈ failed) := by
    intro ⟨one, two⟩
    have passes := ((inPassed p).mp one).2
    rw [((inFailed p).mp two).2] at passes
    cases passes
  refine ⟨passed, failed, ofPass, ofFail, ?_, shared, apart⟩
  have disjoint : Disjoint passed.points failed.points :=
    Finset.disjoint_left.mpr fun p one two => apart p ⟨mem_points.mp one, mem_points.mp two⟩
  have union : b.points = passed.points ∪ failed.points := by
    ext p
    rw [Finset.mem_union, mem_points, mem_points, mem_points, shared]
  rw [← card_points, ← card_points, ← card_points, union, Finset.card_union_of_disjoint disjoint]

theorem volume_shared_beyond :
    let b : Box := .ofEntries [("x", ⟨1, 9⟩), ("m", ⟨2, 4⟩)]
    ∃ failed, b.narrow "m" (.below 7) .fail = .ok failed ∧ failed.volume = 0 := by
  intro b
  obtain ⟨passed, failed, ofPass, ofFail, sum, _⟩ := (volume_shared b).2 "m" (by decide) (.below 7)
  obtain rfl := Except.ok.inj ofPass
  exact ⟨failed, ofFail, Nat.add_left_cancel (sum.trans (Nat.add_zero _).symm)⟩

end Box

end RouteVolume
