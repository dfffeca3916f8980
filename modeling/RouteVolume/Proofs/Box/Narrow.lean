import RouteVolume.Network
import RouteVolume.Proofs.Box.Points

namespace RouteVolume

/-- The value that a point has for an attribute: the one on the first axis of that name. -/
def valueOf (attrs : List String) (p : Point) (attr : String) : Int := p.getD (attrs.idxOf attr) 0

namespace Box

theorem forall₂_set {p : Point} {ranges : List Interval} {k : Nat} {i j : Interval}
    {keeps : Int → Prop} (old : ranges[k]? = some j) (part : ∀ x, x ∈ i ↔ x ∈ j ∧ keeps x) :
    List.Forall₂ (fun x i => x ∈ i) p (ranges.set k i) ↔
      List.Forall₂ (fun x i => x ∈ i) p ranges ∧ keeps (p.getD k 0) := by
  induction ranges generalizing p k with
  | nil => cases old
  | cons range rest ih =>
    cases p with
    | nil => cases k <;> simp
    | cons x q =>
      cases k with
      | zero =>
        cases old
        rw [List.set_cons_zero, List.forall₂_cons, List.forall₂_cons, part, List.getD_cons_zero,
          and_right_comm]
      | succ k =>
        rw [List.getElem?_cons_succ] at old
        rw [List.set_cons_succ, List.forall₂_cons, List.forall₂_cons, ih old, List.getD_cons_succ,
          and_assoc]

theorem indexOf_eq {b : Box} {attr : String} (known : attr ∈ b.attrs) :
    b.indexOf attr = .ok ⟨b.attrs.idxOf attr, List.idxOf_lt_length_iff.mpr known⟩ := by
  cases found : b.attrs.finIdxOf? attr with
  | none => exact absurd known (List.finIdxOf?_eq_none_iff.mp found)
  | some k =>
    have place : b.attrs.idxOf attr = k := by
      rw [List.idxOf_eq_getD_idxOf?, List.idxOf?_eq_map_finIdxOf?_val, found]
      rfl
    unfold indexOf
    rw [found]
    exact congrArg Except.ok (Fin.ext place.symm)

theorem mem_set {b : Box} {k : Fin b.attrs.length} {t : Threshold} {passed : Bool} {p : Point} :
    p ∈ b.set k ((b.rangeAt k).restrict t passed) ↔
      p ∈ b ∧ t.passes (p.getD k 0) = passed := by
  have old : b.ranges[k.val]? = some (b.rangeAt k) :=
    List.getElem?_eq_getElem (b.sameLength ▸ k.isLt)
  exact forall₂_set old fun _ => Interval.mem_restrict

theorem narrow_spec {b : Box} {attr : String} {passage : Passage} {passed : Bool} (t : Threshold)
    (known : attr ∈ b.attrs) (left : passage.outcome? = some passed) :
    ∃ box, b.narrow attr t passage = .ok box ∧ box.attrs = b.attrs ∧
      ∀ p, p ∈ box ↔ p ∈ b ∧ t.passes (valueOf b.attrs p attr) = passed := by
  let k : Fin b.attrs.length := ⟨b.attrs.idxOf attr, List.idxOf_lt_length_iff.mpr known⟩
  refine ⟨b.set k ((b.rangeAt k).restrict t passed), ?_, rfl, fun p => mem_set⟩
  simp only [narrow, range, replace, indexOf_eq known, Interval.narrow, left, Except.map, bind,
    Except.bind]
  rfl

theorem narrow_inv {b box : Box} {attr : String} {t : Threshold} {passage : Passage}
    (narrowed : b.narrow attr t passage = .ok box) :
    attr ∈ b.attrs ∧ ∃ passed, passage.outcome? = some passed := by
  unfold narrow at narrowed
  simp only [bind, Except.bind] at narrowed
  split at narrowed
  · cases narrowed
  · rename_i range found
    constructor
    · by_contra unknown
      unfold Box.range indexOf at found
      rw [List.finIdxOf?_eq_none_iff.mpr unknown] at found
      cases found
    · split at narrowed
      · cases narrowed
      · rename_i left
        unfold Interval.narrow at left
        cases outcome : passage.outcome? with
        | none =>
          rw [outcome] at left
          cases left
        | some passed => exact ⟨passed, rfl⟩

end Box

def Node.Lets (value : String → Int) : Node → Passage → Prop
  | .condition attr threshold _ _, passage =>
    passage.outcome? = some (threshold.passes (value attr))
  | _, _ => False

theorem Node.Lets.passage_eq {value : String → Int} {n : Node} {p q : Passage}
    (left : n.Lets value p) (right : n.Lets value q) : p = q := by
  cases n with
  | condition attr threshold workflow position =>
    rw [Lets] at left right
    rw [← left] at right
    cases p <;> cases q <;> first | rfl | cases right
  | blank | accept | reject | start => cases left

theorem Node.narrow_spec {n : Node} {b box : Box} {passage : Passage}
    (narrowed : n.narrow b passage = .ok box) :
    box.attrs = b.attrs ∧ ∀ p, p ∈ box ↔ p ∈ b ∧ n.Lets (valueOf b.attrs p) passage := by
  cases n with
  | condition attr threshold workflow position =>
    obtain ⟨known, passed, outcome⟩ := Box.narrow_inv narrowed
    obtain ⟨part, result, attrs, members⟩ := Box.narrow_spec threshold known outcome
    change b.narrow attr threshold passage = .ok box at narrowed
    rw [result] at narrowed
    cases narrowed
    refine ⟨attrs, fun p => ?_⟩
    rw [members, Lets, outcome, Option.some.injEq, eq_comm (a := passed)]
  | blank | accept | reject | start => cases narrowed

end RouteVolume
