import RouteVolume.Interval

namespace RouteVolume

structure Box where
  attrs : List String
  ranges : List Interval
  sameLength : attrs.length = ranges.length
  deriving DecidableEq, Repr

namespace Box

def full (attrs : List String) (lo hi : Int) : Box where
  attrs := attrs
  ranges := attrs.map fun _ => ⟨lo, hi⟩
  sameLength := by simp

def ofAxes (attrs : List String) (ranges : List Interval) : Except Fault Box :=
  if sameLength : attrs.length = ranges.length then .ok ⟨attrs, ranges, sameLength⟩
  else .error (.axisCount attrs.length ranges.length)

def axes (b : Box) : List (String × Interval) := b.attrs.zip b.ranges

/-- Stores an interval under a name. A name that is present keeps its place. -/
def put (entries : List (String × Interval)) (name : String) (i : Interval) :
    List (String × Interval) :=
  match entries with
  | [] => [(name, i)]
  | (other, j) :: rest =>
    if other = name then (name, i) :: rest else (other, j) :: put rest name i

/-- The last interval given for each name, at the first place where the name is given. -/
def dictionary (entries : List (String × Interval)) : List (String × Interval) :=
  entries.foldl (fun kept (name, i) => put kept name i) []

def ofEntries (entries : List (String × Interval)) : Box where
  attrs := (dictionary entries).map (·.1)
  ranges := (dictionary entries).map (·.2)
  sameLength := by simp

def indexOf (b : Box) (attr : String) : Except Fault (Fin b.attrs.length) :=
  match b.attrs.finIdxOf? attr with
  | some k => .ok k
  | none => .error (.missingKey attr)

def rangeAt (b : Box) (k : Fin b.attrs.length) : Interval :=
  b.ranges.get ⟨k.val, b.sameLength ▸ k.isLt⟩

def range (b : Box) (attr : String) : Except Fault Interval :=
  (b.indexOf attr).map b.rangeAt

def set (b : Box) (k : Nat) (i : Interval) : Box where
  attrs := b.attrs
  ranges := b.ranges.set k i
  sameLength := by simp [b.sameLength]

def replace (b : Box) (attr : String) (i : Interval) : Except Fault Box := do
  let k ← b.indexOf attr
  pure (b.set k i)

def narrow (b : Box) (attr : String) (t : Threshold) (p : Passage) : Except Fault Box := do
  let i ← b.range attr
  let narrowed ← i.narrow t p
  b.replace attr narrowed

def isFeasible (b : Box) : Bool := !b.ranges.any Interval.isEmpty

def volume (b : Box) : Nat := (b.ranges.map Interval.size).foldl (· * ·) 1

def entries (b : Box) : List (String × Interval) := dictionary b.axes

def text (b : Box) : Except Fault String := do
  let parts ← b.axes.mapM fun (attr, i) => do
    let range ← i.text
    pure (attr ++ "∈" ++ range)
  pure (" ".intercalate parts)

def ends (b : Box) : List Int := b.ranges.flatMap fun i => [i.lo, i.hi]

/-- Is the first list of ends not after the second? A list comes after its own beginnings. -/
def endsLe : List Int → List Int → Bool
  | [], _ => true
  | _ :: _, [] => false
  | x :: xs, y :: ys => if x = y then endsLe xs ys else x < y

/-- The boxes by their ends; boxes with the same ends keep their order. -/
def sorted (boxes : List Box) : List Box := boxes.mergeSort fun a b => endsLe a.ends b.ends

theorem volume_eq_zero_iff (b : Box) : b.volume = 0 ↔ b.isFeasible = false := by
  have foldl_eq_zero (sizes : List Nat) (start : Nat) :
      sizes.foldl (· * ·) start = 0 ↔ start = 0 ∨ 0 ∈ sizes := by
    induction sizes generalizing start with
    | nil => simp
    | cons size rest ih =>
      simp only [List.foldl_cons, ih, Nat.mul_eq_zero, List.mem_cons]
      rw [or_assoc, eq_comm (a := 0)]
  simp only [volume, foldl_eq_zero, isFeasible, Bool.not_eq_false', List.any_eq_true,
    List.mem_map, Interval.size_eq_zero_iff]
  simp

end Box

def total (ns : List Nat) : Nat := ns.foldr (· + ·) 0

theorem total_nil : total [] = 0 := rfl

theorem total_cons (n : Nat) (ns : List Nat) : total (n :: ns) = n + total ns := rfl

theorem total_append (ms ns : List Nat) : total (ms ++ ns) = total ms + total ns := by
  induction ms with
  | nil => simp [total_nil]
  | cons m rest ih =>
    rw [List.cons_append, total_cons, total_cons, ih]
    omega

theorem total_replicate (k n : Nat) : total (List.replicate k n) = k * n := by
  induction k with
  | zero => simp [total_nil]
  | succ k ih =>
    rw [List.replicate_succ, total_cons, ih, Nat.succ_mul]
    omega

theorem le_total_of_mem {n : Nat} {ns : List Nat} (mem : n ∈ ns) : n ≤ total ns := by
  induction ns with
  | nil => cases mem
  | cons m rest ih =>
    rw [total_cons]
    rcases List.mem_cons.mp mem with rfl | later
    · omega
    · have := ih later
      omega

end RouteVolume
