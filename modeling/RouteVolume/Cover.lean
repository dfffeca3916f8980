import RouteVolume.Box

namespace RouteVolume.Cover

def distinct : List Int → List Int
  | x :: y :: rest => if x = y then distinct (y :: rest) else x :: distinct (y :: rest)
  | short => short

/-- Where some interval begins, or has just ended; ascending. -/
def cuts (ranges : List Interval) : List Int :=
  distinct ((ranges.flatMap fun i => [i.lo, i.hi + 1]).mergeSort fun x y => x ≤ y)

def between : List Int → List Interval
  | lo :: next :: rest => ⟨lo, next - 1⟩ :: between (next :: rest)
  | _ => []

/-- The cells into which the ends of intervals cut the line, gaps between them included. -/
def cells (ranges : List Interval) : List Interval := between (cuts ranges)

/-- A box cut open along one axis: its place in the list of boxes, the interval on the axis, and
the intervals on the axes that remain. -/
structure Strip where
  place : Nat
  range : Interval
  rest : List Interval
  deriving DecidableEq, Repr

def strips (boxes : List (List Interval)) : List Strip :=
  boxes.zipIdx.filterMap fun (ranges, place) =>
    match ranges with
    | [] => none
    | range :: rest => some ⟨place, range, rest⟩

/-- Goes through cells in order. Strips that have just ended leave `active`; then those that begin
here, which come first in `waiting`, join it. -/
def sweepFrom (waiting active : List Strip) : List Interval → List (Interval × List Strip)
  | [] => []
  | cell :: later =>
    let begins (s : Strip) : Bool := s.range.lo = cell.lo
    let staying := active.filter fun s => s.range.hi + 1 ≠ cell.lo
    let now := staying ++ waiting.takeWhile begins
    (cell, now) :: sweepFrom (waiting.dropWhile begins) now later

def sweep (cutOpen : List Strip) : List (Interval × List Strip) :=
  sweepFrom (cutOpen.mergeSort fun s t => s.range.lo ≤ t.range.lo) []
    (cells (cutOpen.map (·.range)))

/-- The number of points of a union of feasible boxes with a given number of axes. -/
def measure : Nat → List (List Interval) → Nat
  | 0, _ => 1
  | axes + 1, boxes =>
    total ((sweep (strips boxes)).map fun (cell, active) =>
      if active.isEmpty then 0 else cell.size * measure axes (active.map (·.rest)))

def live (boxes : List Box) : List Box := boxes.filter Box.isFeasible

/-- The number of points in at least one of the boxes. Those that hold any must have the same
axes. -/
def union (boxes : List Box) : Except Fault Nat :=
  match live boxes with
  | [] => .ok 0
  | first :: rest =>
    match rest.find? fun b => b.attrs ≠ first.attrs with
    | some other => .error (.axes first.attrs other.attrs)
    | none => .ok (measure first.attrs.length ((first :: rest).map (·.ranges)))

def naive (boxes : List Box) : Nat := total (boxes.map Box.volume)

end RouteVolume.Cover
