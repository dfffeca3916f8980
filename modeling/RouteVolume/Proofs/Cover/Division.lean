import Mathlib.Data.List.Sort
import Mathlib.Order.Bounds.Basic
import RouteVolume.Proofs.Cover.Cells

namespace RouteVolume.Cover

theorem adjoining_between (cuts : List Int) :
    (between cuts).IsChain fun cell next => cell.hi + 1 = next.lo := by
  fun_induction between cuts with
  | case1 lo next rest ih =>
    refine List.isChain_cons.mpr ⟨fun follower head => ?_, ih⟩
    have begins : follower.lo = next := by
      cases rest with
      | nil => cases head
      | cons later rest =>
        cases head
        rfl
    rw [begins]
    exact Int.sub_add_cancel next 1
  | case2 => exact .nil

theorem ascending_between {cuts : List Int} (ascending : cuts.Pairwise (· < ·)) :
    (between cuts).Pairwise fun cell later => cell.hi < later.lo := by
  fun_induction between cuts with
  | case1 lo next rest ih =>
    obtain ⟨_, later⟩ := List.pairwise_cons.mp ascending
    refine List.pairwise_cons.mpr ⟨fun cell behind => ?_, ih later⟩
    have beyond := head_le_of_ascending later (lo_mem_of_between behind)
    exact Int.lt_of_lt_of_le (Int.sub_one_lt_of_le (Int.le_refl next)) beyond
  | case2 => exact .nil

theorem next_mem_of_between {cuts : List Int} {cell : Interval} (mem : cell ∈ between cuts) :
    cell.hi + 1 ∈ cuts := by
  fun_induction between cuts with
  | case1 lo next rest ih =>
    apply List.mem_cons_of_mem
    rcases List.mem_cons.mp mem with rfl | behind
    · rw [Int.sub_add_cancel]
      exact List.mem_cons_self
    · exact ih behind
  | case2 => cases mem

theorem exists_mem_between_iff {first x : Int} {cuts : List Int}
    (ascending : (first :: cuts).Pairwise (· < ·)) :
    (∃ cell ∈ between (first :: cuts), x ∈ cell) ↔
      first ≤ x ∧ x ≤ (first :: cuts).getLast (List.cons_ne_nil _ _) - 1 := by
  induction cuts generalizing first with
  | nil =>
    simp only [between, List.not_mem_nil, false_and, exists_false, List.getLast_singleton,
      false_iff]
    omega
  | cons next rest ih =>
    obtain ⟨least, later⟩ := List.pairwise_cons.mp ascending
    have onward := le_getLast_of_ascending later List.mem_cons_self
    have start := least next List.mem_cons_self
    rw [List.getLast_cons (List.cons_ne_nil next rest), between, List.exists_mem_cons_iff, ih later]
    simp only [Interval.mem_def]
    omega

theorem between_append (before after : List Int) (cut : Int) :
    between (before ++ cut :: after) = between (before ++ [cut]) ++ between (cut :: after) := by
  induction before with
  | nil => rfl
  | cons lo rest ih =>
    cases rest with
    | nil => rfl
    | cons next rest => exact congrArg (_ :: ·) ih

theorem exists_run {cuts : List Int} {lo next : Int} (ascending : cuts.Pairwise (· < ·))
    (opens : lo ∈ cuts) (closes : next ∈ cuts) (room : lo < next) :
    ∃ run, run <:+: between cuts ∧ ∀ x, (∃ cell ∈ run, x ∈ cell) ↔ lo ≤ x ∧ x ≤ next - 1 := by
  obtain ⟨before, rest, rfl⟩ := List.append_of_mem opens
  obtain ⟨_, onward, apart⟩ := List.pairwise_append.mp ascending
  have follows : next ∈ rest := by
    rcases List.mem_append.mp closes with early | late
    · have := apart next early lo List.mem_cons_self
      omega
    · exact (List.mem_cons.mp late).resolve_left fun same => by omega
  obtain ⟨inner, after, rfl⟩ := List.append_of_mem follows
  refine ⟨between (lo :: (inner ++ [next])), ?_, fun x => ?_⟩
  · have split : between (lo :: (inner ++ next :: after)) =
        between (lo :: (inner ++ [next])) ++ between (next :: after) :=
      between_append (lo :: inner) after next
    rw [between_append before, split]
    exact List.infix_append' _ _ _
  · have part : (lo :: (inner ++ [next])).Sublist (lo :: (inner ++ next :: after)) :=
      ((List.singleton_sublist.mpr List.mem_cons_self).append_left inner).cons_cons lo
    have last : (lo :: (inner ++ [next])).getLast (List.cons_ne_nil _ _) = next :=
      List.getLast_append_singleton (lo :: inner)
    rw [exists_mem_between_iff (onward.sublist part), last]

def ends (ranges : List Interval) : Set Int := {x | ∃ i ∈ ranges, x = i.lo ∨ x = i.hi + 1}

/-- A list of intervals divides an axis at the ends of others. -/
structure Divides (parts ranges : List Interval) : Prop where
  filled : ∀ part ∈ parts, part.lo ≤ part.hi
  ascends : parts.Pairwise fun part later => part.hi < later.lo
  adjoins : parts.IsChain fun part next => part.hi + 1 = next.lo
  /-- A part goes from one end to the next, so that there are none without any intervals. -/
  bounded : ∀ part ∈ parts, part.lo ∈ ends ranges ∧ part.hi + 1 ∈ ends ranges ∧
    ∀ x ∈ ends ranges, x ≤ part.lo ∨ part.hi < x
  /-- The parts together hold what lies from the first end to the last. -/
  spans : ranges ≠ [] → ∃ first last, IsLeast (ends ranges) first ∧ IsGreatest (ends ranges) last ∧
    ∀ x, (∃ part ∈ parts, x ∈ part) ↔ first ≤ x ∧ x ≤ last - 1
  whole : ∀ part ∈ parts, ∀ i ∈ ranges, (∀ x ∈ part, x ∈ i) ∨ ∀ x ∈ part, x ∉ i
  /-- Each interval is made up of neighbouring parts, and of none where it is empty. -/
  joins : ∀ i ∈ ranges, ∃ run, run <:+: parts ∧ ∀ x, x ∈ i ↔ ∃ part ∈ run, x ∈ part

theorem mem_ends {x : Int} {ranges : List Interval} : x ∈ ends ranges ↔ x ∈ cuts ranges :=
  mem_cuts.symm

theorem cells_bounded {ranges : List Interval} {cell : Interval} (mem : cell ∈ cells ranges) :
    cell.lo ∈ ends ranges ∧ cell.hi + 1 ∈ ends ranges ∧
      ∀ x ∈ ends ranges, x ≤ cell.lo ∨ cell.hi < x :=
  ⟨mem_ends.mpr (lo_mem_of_between mem), mem_ends.mpr (next_mem_of_between mem),
    fun _ mark => cut_outside_cell (ascending_cuts ranges) mem (mem_ends.mp mark)⟩

theorem cells_span {ranges : List Interval} (some : ranges ≠ []) :
    ∃ first last, IsLeast (ends ranges) first ∧ IsGreatest (ends ranges) last ∧
      ∀ x, (∃ cell ∈ cells ranges, x ∈ cell) ↔ first ≤ x ∧ x ≤ last - 1 := by
  obtain ⟨i, listed⟩ := List.exists_mem_of_ne_nil ranges some
  have cut : cuts ranges ≠ [] := List.ne_nil_of_mem (ends_mem_cuts listed).1
  obtain ⟨first, later, same⟩ := List.exists_cons_of_ne_nil cut
  have ascending : (first :: later).Pairwise (· < ·) := same ▸ ascending_cuts ranges
  have marked {x : Int} : x ∈ ends ranges ↔ x ∈ first :: later := same ▸ mem_ends
  refine ⟨first, (first :: later).getLast (List.cons_ne_nil first later), ⟨?_, fun x mark => ?_⟩,
    ⟨?_, fun x mark => ?_⟩, fun x => ?_⟩
  · exact marked.mpr List.mem_cons_self
  · exact head_le_of_ascending ascending (marked.mp mark)
  · exact marked.mpr (List.getLast_mem _)
  · exact le_getLast_of_ascending ascending (marked.mp mark)
  · rw [cells, same]
    exact exists_mem_between_iff ascending

theorem cells_whole {ranges : List Interval} {cell i : Interval} (mem : cell ∈ cells ranges)
    (listed : i ∈ ranges) : (∀ x ∈ cell, x ∈ i) ∨ ∀ x ∈ cell, x ∉ i := by
  by_cases inside : i.lo ≤ cell.lo ∧ cell.hi ≤ i.hi
  · exact .inl fun x within => (mem_iff_covers mem listed within).mpr inside
  · exact .inr fun x within held => inside ((mem_iff_covers mem listed within).mp held)

theorem cells_join {ranges : List Interval} {i : Interval} (listed : i ∈ ranges) :
    ∃ run, run <:+: cells ranges ∧ ∀ x, x ∈ i ↔ ∃ cell ∈ run, x ∈ cell := by
  obtain ⟨opens, closes⟩ := ends_mem_cuts listed
  by_cases room : i.lo < i.hi + 1
  · obtain ⟨run, part, held⟩ := exists_run (ascending_cuts ranges) opens closes room
    refine ⟨run, part, fun x => ?_⟩
    rw [held, Interval.mem_def]
    omega
  · refine ⟨[], List.nil_infix, fun x => ?_⟩
    simp only [Interval.mem_def, List.not_mem_nil, false_and, exists_false, iff_false]
    omega

namespace Divides

variable {ranges parts others : List Interval}

theorem mem_iff (divides : Divides parts ranges) {part : Interval} :
    part ∈ parts ↔ part.lo ≤ part.hi ∧ part.lo ∈ ends ranges ∧ part.hi + 1 ∈ ends ranges ∧
      ∀ x ∈ ends ranges, x ≤ part.lo ∨ part.hi < x := by
  constructor
  · exact fun mem => ⟨divides.filled part mem, divides.bounded part mem⟩
  · intro ⟨room, opens, closes, outside⟩
    have some : ranges ≠ [] := by
      rintro rfl
      obtain ⟨i, mem, _⟩ := opens
      cases mem
    obtain ⟨first, last, least, greatest, holds⟩ := divides.spans some
    have lower := least.2 opens
    have upper := greatest.2 closes
    -- The part that holds the beginning can neither begin earlier nor end elsewhere.
    obtain ⟨other, mem, within⟩ := (holds part.lo).mpr ⟨lower, by omega⟩
    obtain ⟨_, otherCloses, otherOutside⟩ := divides.bounded other mem
    have atBegin := otherOutside part.lo opens
    have atEnd := otherOutside (part.hi + 1) closes
    have otherEnd := outside (other.hi + 1) otherCloses
    rw [Interval.mem_def] at within
    have begins : other.lo = part.lo := by omega
    have stops : other.hi = part.hi := by omega
    have same : other = part := congrArg₂ Interval.mk begins stops
    exact same ▸ mem

theorem ascending_lo (divides : Divides parts ranges) :
    parts.Pairwise fun part later => part.lo < later.lo := by
  refine divides.ascends.imp_of_mem fun {part later} mem _ before => ?_
  have room := divides.filled part mem
  omega

theorem unique (divides : Divides parts ranges) (too : Divides others ranges) : parts = others := by
  -- The beginnings are compared, since an interval without points ends before it begins.
  have irreflexive : Std.Irrefl fun i j : Interval => i.lo < j.lo := ⟨fun i => Int.lt_irrefl i.lo⟩
  have asymmetric : Std.Antisymm fun i j : Interval => i.lo < j.lo :=
    ⟨fun i j before after => absurd before (Int.lt_asymm after)⟩
  exact divides.ascending_lo.eq_of_mem_iff too.ascending_lo fun part =>
    divides.mem_iff.trans too.mem_iff.symm

end Divides

/-- The cells divide the axis at the ends of the intervals: they are nonempty, ascend, lie side by
side and hold what lies from the first end to the last, none is cut by an interval, and each
interval is made up of neighbouring ones. No other list of intervals does so. -/
theorem cells_divide_axis (ranges : List Interval) :
    Divides (cells ranges) ranges ∧ ∀ parts, Divides parts ranges → parts = cells ranges := by
  have ascending := ascending_cuts ranges
  have divides : Divides (cells ranges) ranges :=
    { filled := fun _ => lo_le_hi_of_between ascending
      ascends := ascending_between ascending
      adjoins := adjoining_between _
      bounded := fun _ => cells_bounded
      spans := cells_span
      whole := fun _ mem _ => cells_whole mem
      joins := fun _ => cells_join }
  exact ⟨divides, fun parts too => too.unique divides⟩

example : cells [⟨1, 10⟩, ⟨7, 3⟩, ⟨13, 14⟩] = [⟨1, 3⟩, ⟨4, 6⟩, ⟨7, 10⟩, ⟨11, 12⟩, ⟨13, 14⟩] := by
  cbv

end RouteVolume.Cover
