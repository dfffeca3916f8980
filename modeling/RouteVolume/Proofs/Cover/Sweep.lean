import RouteVolume.Proofs.Cover.Cells

namespace RouteVolume.Cover

def covering (cell : Interval) (all : List Strip) : List Strip :=
  all.filter fun s => s.range.lo ≤ cell.lo ∧ cell.hi ≤ s.range.hi

theorem mem_covering {cell : Interval} {all : List Strip} {s : Strip} :
    s ∈ covering cell all ↔ s ∈ all ∧ s.range.lo ≤ cell.lo ∧ cell.hi ≤ s.range.hi := by
  unfold covering
  rw [List.mem_filter, decide_eq_true_eq]

structure Underway (all : List Strip) (cut : Int) (later : List Int)
    (waiting active : List Strip) : Prop where
  ascending : (cut :: later).Pairwise (· < ·)
  filled : ∀ s ∈ all, s.range.lo ≤ s.range.hi
  opens : ∀ s ∈ all, s.range.lo < cut ∨ s.range.lo ∈ cut :: later
  closes : ∀ s ∈ all, s.range.hi + 1 < cut ∨ s.range.hi + 1 ∈ cut :: later
  sorted : waiting.Pairwise fun s t => s.range.lo ≤ t.range.lo
  waits : waiting.Perm (all.filter fun s => cut ≤ s.range.lo)
  begun : active.Perm (all.filter fun s => s.range.lo < cut ∧ cut ≤ s.range.hi + 1)

theorem split_sorted {waiting : List Strip} {cut : Int}
    (sorted : waiting.Pairwise fun s t => s.range.lo ≤ t.range.lo)
    (least : ∀ s ∈ waiting, cut ≤ s.range.lo) :
    waiting.takeWhile (fun s => s.range.lo = cut) = waiting.filter (fun s => s.range.lo = cut) ∧
      waiting.dropWhile (fun s => s.range.lo = cut) =
        waiting.filter (fun s => ¬ s.range.lo = cut) := by
  induction waiting with
  | nil => exact ⟨rfl, rfl⟩
  | cons s rest ih =>
    obtain ⟨first, behind⟩ := List.pairwise_cons.mp sorted
    by_cases begins : s.range.lo = cut
    · obtain ⟨taken, dropped⟩ := ih behind fun t mem => least t (List.mem_cons_of_mem _ mem)
      simp only [List.takeWhile_cons, List.dropWhile_cons, List.filter_cons, begins, decide_true,
        taken, dropped, if_true, not_true, decide_false, Bool.false_eq_true, if_false, and_self]
    · have beyond (t : Strip) (mem : t ∈ s :: rest) : ¬ t.range.lo = cut := by
        have bound := least s List.mem_cons_self
        rcases List.mem_cons.mp mem with rfl | mem
        · exact begins
        · have := first t mem
          omega
      constructor
      · rw [List.takeWhile_cons_of_neg (by simpa using begins), eq_comm, List.filter_eq_nil_iff]
        intro t mem
        simpa using beyond t mem
      · rw [List.dropWhile_cons_of_neg (by simpa using begins), eq_comm, List.filter_eq_self]
        intro t mem
        simpa using beyond t mem

theorem filter_append_filter_perm {all : List Strip} {p q : Strip → Bool}
    (exclusive : ∀ s ∈ all, p s = true → q s = false) :
    (all.filter p ++ all.filter q).Perm (all.filter fun s => p s || q s) := by
  have both := List.filter_append_perm p (all.filter fun s => p s || q s)
  rw [List.filter_filter, List.filter_filter] at both
  have left : all.filter p = all.filter fun s => p s && (p s || q s) :=
    List.filter_congr fun s _ => by cases p s <;> simp
  have right : all.filter q = all.filter fun s => !p s && (p s || q s) := by
    apply List.filter_congr
    intro s mem
    have excluded := exclusive s mem
    cases taken : p s
    · simp
    · simp [excluded taken]
  rw [left, right]
  exact both

theorem cut_cases {cut next x : Int} {later : List Int}
    (ascending : (cut :: next :: later).Pairwise (· < ·))
    (cuts : x < cut ∨ x ∈ cut :: next :: later) :
    x ≤ cut ∨ x = next ∨ next < x ∧ x ∈ next :: later := by
  obtain ⟨least, rising⟩ := List.pairwise_cons.mp ascending
  have near := least next List.mem_cons_self
  rcases cuts with before | mem
  · omega
  · rcases List.mem_cons.mp mem with rfl | mem
    · omega
    · rcases List.mem_cons.mp mem with rfl | behind
      · omega
      · exact .inr (.inr ⟨(List.pairwise_cons.mp rising).1 x behind, mem⟩)

theorem filter_perm_of_iff {all : List Strip} {p q : Strip → Bool}
    (same : ∀ s ∈ all, p s = true ↔ q s = true) : (all.filter p).Perm (all.filter q) :=
  List.Perm.of_eq (List.filter_congr fun s mem => Bool.eq_iff_iff.mpr (same s mem))

def nowActive (cut : Int) (waiting active : List Strip) : List Strip :=
  active.filter (fun s => s.range.hi + 1 ≠ cut) ++ waiting.takeWhile fun s => s.range.lo = cut

namespace Underway

variable {all waiting active : List Strip} {cut next : Int} {later : List Int}

theorem least (underway : Underway all cut later waiting active) :
    ∀ s ∈ waiting, cut ≤ s.range.lo := by
  intro s mem
  simpa using (List.mem_filter.mp (underway.waits.mem_iff.mp mem)).2

theorem covers (underway : Underway all cut (next :: later) waiting active) :
    (nowActive cut waiting active).Perm (covering ⟨cut, next - 1⟩ all) := by
  have staying := underway.begun.filter fun s => decide (s.range.hi + 1 ≠ cut)
  have joining := underway.waits.filter fun s => decide (s.range.lo = cut)
  rw [List.filter_filter] at staying joining
  have taken := (split_sorted underway.sorted underway.least).1
  have exclusive (s : Strip) (_ : s ∈ all)
      (stays : (decide (s.range.hi + 1 ≠ cut) &&
        decide (s.range.lo < cut ∧ cut ≤ s.range.hi + 1)) = true) :
      (decide (s.range.lo = cut) && decide (cut ≤ s.range.lo)) = false := by
    simp only [Bool.and_eq_true, decide_eq_true_eq, Bool.and_eq_false_iff,
      decide_eq_false_iff_not] at stays ⊢
    omega
  apply ((staying.append (taken ▸ joining)).trans (filter_append_filter_perm exclusive)).trans
  apply filter_perm_of_iff
  intro s mem
  have near := (List.pairwise_cons.mp underway.ascending).1 next List.mem_cons_self
  have room := underway.filled s mem
  have opening := cut_cases underway.ascending (underway.opens s mem)
  have closing := cut_cases underway.ascending (underway.closes s mem)
  simp only [Bool.or_eq_true, Bool.and_eq_true, decide_eq_true_eq]
  omega

theorem step (underway : Underway all cut (next :: later) waiting active) :
    (nowActive cut waiting active).Perm (covering ⟨cut, next - 1⟩ all) ∧
      Underway all next later (waiting.dropWhile fun s => s.range.lo = cut)
        (nowActive cut waiting active) := by
  have near := (List.pairwise_cons.mp underway.ascending).1 next List.mem_cons_self
  refine ⟨underway.covers, (List.pairwise_cons.mp underway.ascending).2, underway.filled, ?_, ?_,
    underway.sorted.sublist (List.dropWhile_sublist _), ?_, ?_⟩
  · intro s mem
    rcases cut_cases underway.ascending (underway.opens s mem) with before | same | ⟨_, behind⟩
    · left; omega
    · exact .inr (same ▸ List.mem_cons_self)
    · exact .inr behind
  · intro s mem
    rcases cut_cases underway.ascending (underway.closes s mem) with before | same | ⟨_, behind⟩
    · left; omega
    · exact .inr (same ▸ List.mem_cons_self)
    · exact .inr behind
  · rw [(split_sorted underway.sorted underway.least).2]
    apply (underway.waits.filter _).trans
    rw [List.filter_filter]
    apply filter_perm_of_iff
    intro s mem
    have opening := cut_cases underway.ascending (underway.opens s mem)
    simp only [Bool.and_eq_true, decide_eq_true_eq]
    omega
  · apply underway.covers.trans
    apply filter_perm_of_iff
    intro s mem
    have opening := cut_cases underway.ascending (underway.opens s mem)
    have closing := cut_cases underway.ascending (underway.closes s mem)
    simp only [decide_eq_true_eq]
    omega

end Underway

theorem Underway.run {all waiting active : List Strip} {cut : Int} {later : List Int}
    (underway : Underway all cut later waiting active) :
    (sweepFrom waiting active (between (cut :: later))).map (·.1) = between (cut :: later) ∧
      ∀ visited ∈ sweepFrom waiting active (between (cut :: later)),
        visited.2.Perm (covering visited.1 all) := by
  induction later generalizing cut waiting active with
  | nil => exact ⟨rfl, nofun⟩
  | cons next rest ih =>
    obtain ⟨covers, onward⟩ := underway.step
    obtain ⟨same, behind⟩ := ih onward
    exact ⟨congrArg (_ :: ·) same, List.forall_mem_cons.mpr ⟨covers, behind⟩⟩

theorem Underway.start {all : List Strip} {cut : Int} {later : List Int}
    (filled : ∀ s ∈ all, s.range.lo ≤ s.range.hi)
    (ends : cuts (all.map (·.range)) = cut :: later) :
    Underway all cut later (all.mergeSort fun s t => s.range.lo ≤ t.range.lo) [] := by
  have ascending : (cut :: later).Pairwise (· < ·) := ends ▸ ascending_cuts _
  have opens (s : Strip) (mem : s ∈ all) : s.range.lo ∈ cut :: later :=
    ends ▸ (ends_mem_cuts (List.mem_map_of_mem mem)).1
  have closes (s : Strip) (mem : s ∈ all) : s.range.hi + 1 ∈ cut :: later :=
    ends ▸ (ends_mem_cuts (List.mem_map_of_mem mem)).2
  have least (s : Strip) (mem : s ∈ all) : cut ≤ s.range.lo :=
    head_le_of_ascending ascending (opens s mem)
  refine ⟨ascending, filled, fun s mem => .inr (opens s mem), fun s mem => .inr (closes s mem),
    pairwise_mergeSort_key (fun s : Strip => s.range.lo) all, ?_, ?_⟩
  · rw [List.filter_eq_self.mpr fun (s : Strip) mem => decide_eq_true (least s mem)]
    exact List.mergeSort_perm _ _
  · rw [List.filter_eq_nil_iff.mpr]
    intro s mem
    have := least s mem
    simp only [decide_eq_true_eq]
    omega

theorem sweep_covers {all : List Strip} (filled : ∀ s ∈ all, s.range.lo ≤ s.range.hi) :
    (sweep all).map (·.1) = cells (all.map (·.range)) ∧
      ∀ visited ∈ sweep all, visited.2.Perm (covering visited.1 all) := by
  unfold sweep cells
  cases ends : cuts (all.map (·.range)) with
  | nil => exact ⟨rfl, nofun⟩
  | cons cut later => exact (Underway.start filled ends).run

end RouteVolume.Cover
