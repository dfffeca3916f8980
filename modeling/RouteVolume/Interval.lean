import RouteVolume.Fault

namespace RouteVolume

inductive Comparison where
  | below
  | above
  deriving DecidableEq, Repr

namespace Comparison

def symbol : Comparison → Char
  | .below => '<'
  | .above => '>'

def ofText (text : String) : Except Fault Comparison :=
  if text = "<" then .ok .below
  else if text = ">" then .ok .above
  else .error (.unknownWord text .comparison)

end Comparison

structure Threshold where
  comparison : Comparison
  value : Int
  deriving DecidableEq, Repr

namespace Threshold

def below (value : Int) : Threshold := ⟨.below, value⟩

def above (value : Int) : Threshold := ⟨.above, value⟩

def passes (t : Threshold) (x : Int) : Bool :=
  match t.comparison with
  | .below => x < t.value
  | .above => t.value < x

def text (t : Threshold) : Except Fault String :=
  (Numeral.write t.value).map (t.comparison.symbol.toString ++ ·)

end Threshold

/-- How a node of a network was left: its test passed, its test failed, or evaluation had not
begun. -/
inductive Passage where
  | pass
  | fail
  | entry
  deriving DecidableEq, Repr

namespace Passage

def word : Passage → String
  | .pass => "pass"
  | .fail => "fail"
  | .entry => "entry"

def ofWord (word : String) : Except Fault Passage :=
  if word = "pass" then .ok .pass
  else if word = "fail" then .ok .fail
  else if word = "entry" then .ok .entry
  else .error (.unknownWord word .passage)

def outcome? : Passage → Option Bool
  | .pass => some true
  | .fail => some false
  | .entry => none

end Passage

/-- The integers from `lo` to `hi`, both included. -/
structure Interval where
  lo : Int
  hi : Int
  deriving DecidableEq, Repr

namespace Interval

instance : Membership Int Interval where
  mem i x := i.lo ≤ x ∧ x ≤ i.hi

theorem mem_def {i : Interval} {x : Int} : x ∈ i ↔ i.lo ≤ x ∧ x ≤ i.hi := Iff.rfl

instance (x : Int) (i : Interval) : Decidable (x ∈ i) := decidable_of_iff _ mem_def.symm

def isEmpty (i : Interval) : Bool := i.hi < i.lo

def size (i : Interval) : Nat := (i.hi + 1 - i.lo).toNat

def atMost (i : Interval) (x : Int) : Interval := ⟨i.lo, min i.hi x⟩

def atLeast (i : Interval) (x : Int) : Interval := ⟨max i.lo x, i.hi⟩

/-- The part of the interval on which a test has the given outcome. -/
def restrict (i : Interval) (t : Threshold) (passed : Bool) : Interval :=
  match t.comparison, passed with
  | .below, true => i.atMost (t.value - 1)
  | .below, false => i.atLeast t.value
  | .above, true => i.atLeast (t.value + 1)
  | .above, false => i.atMost t.value

def narrow (i : Interval) (t : Threshold) (p : Passage) : Except Fault Interval :=
  match p.outcome? with
  | some passed => .ok (i.restrict t passed)
  | none => .error .entryPassage

def text (i : Interval) : Except Fault String := do
  let lo ← Numeral.write i.lo
  let hi ← Numeral.write i.hi
  pure ("[" ++ lo ++ ", " ++ hi ++ "]")

theorem isEmpty_iff (i : Interval) : i.isEmpty = true ↔ ∀ x, x ∉ i := by
  simp only [isEmpty, decide_eq_true_eq, mem_def]
  constructor
  · intro inverted x within
    omega
  · intro none
    have := none i.lo
    omega

theorem size_eq_zero_iff (i : Interval) : i.size = 0 ↔ i.isEmpty = true := by
  simp only [size, isEmpty, decide_eq_true_eq]
  omega

theorem mem_restrict {i : Interval} {t : Threshold} {passed : Bool} {x : Int} :
    x ∈ i.restrict t passed ↔ x ∈ i ∧ t.passes x = passed := by
  obtain ⟨comparison, value⟩ := t
  cases comparison <;> cases passed <;>
    simp only [restrict, atMost, atLeast, mem_def, Threshold.passes, decide_eq_true_eq,
      decide_eq_false_iff_not] <;> omega

end Interval

end RouteVolume
