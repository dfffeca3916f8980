import RouteVolume.Command.Session
import RouteVolume.Proofs.Wiring.Naming

namespace RouteVolume

def Json.Sound (parts : Json.Parts) : Prop := ∀ part ∈ parts, ∃ s, part = .ok s

namespace Written

theorem fault?_ofParts {parts : Json.Parts} (sound : Json.Sound parts) :
    (ofParts parts).fault? = none := by
  induction parts with
  | nil => rfl
  | cons part rest ih =>
    obtain ⟨⟨s, rfl⟩, others⟩ := List.forall_mem_cons.mp sound
    exact ih others

theorem fault?_ofWhole {whole : Except Fault (List Piece)} (written : ∃ pieces, whole = .ok pieces) :
    (ofWhole whole).fault? = none := by
  obtain ⟨pieces, rfl⟩ := written
  rfl

theorem fault?_followedBy {v w : Written} (first : v.fault? = none) (second : w.fault? = none) :
    (v.followedBy w).fault? = none := by
  unfold followedBy
  rw [first]
  exact second

end Written

namespace Json

theorem Sound.append {parts more : Parts} (first : Sound parts) (second : Sound more) :
    Sound (parts ++ more) :=
  List.forall_mem_append.mpr ⟨first, second⟩

theorem Sound.cons {parts : Parts} (s : String) (others : Sound parts) : Sound (.ok s :: parts) :=
  List.forall_mem_cons.mpr ⟨⟨s, rfl⟩, others⟩

theorem Sound.nil : Sound [] := List.forall_mem_nil _

theorem sound_separated (level : Nat) {items : List Parts} (each : ∀ item ∈ items, Sound item) :
    Sound (separated level items) := by
  cases items with
  | nil => exact .nil
  | cons first rest =>
    obtain ⟨one, others⟩ := List.forall_mem_cons.mp each
    refine one.append fun part mem => ?_
    obtain ⟨item, listed, inside⟩ := List.mem_flatMap.mp mem
    exact Sound.cons _ (others item listed) part inside

theorem sound_integers (level : Nat) {ns : List Int} (small : ∀ n ∈ ns, n.natAbs < Numeral.bound) :
    Sound (integers level ns) := by
  have item (lead : String) {n : Int} (less : n.natAbs < Numeral.bound) :
      ∃ s, (Numeral.write n).map (lead ++ ·) = .ok s := by
    obtain ⟨text, written⟩ := Numeral.write_of_lt less
    rw [written]
    exact ⟨_, rfl⟩
  cases ns with
  | nil => exact .cons _ .nil
  | cons n rest =>
    obtain ⟨less, others⟩ := List.forall_mem_cons.mp small
    refine Sound.append (List.forall_mem_cons.mpr ⟨item _ less, ?_⟩) (.cons _ (.cons _ .nil))
    exact List.forall_mem_map.mpr fun m mem => item _ (others m mem)

theorem sound_array (level : Nat) {items : List Parts} (each : ∀ item ∈ items, Sound item) :
    Sound (array level items) := by
  unfold array
  split
  · exact .cons _ .nil
  · exact (Sound.cons _ (sound_separated _ each)).append (.cons _ (.cons _ .nil))

theorem sound_object (level : Nat) {items : List (String × Parts)}
    (each : ∀ item ∈ items, Sound item.2) : Sound (object level items) := by
  unfold object
  split
  · exact .cons _ .nil
  · refine (Sound.cons _ (.cons _ (sound_separated _ ?_))).append (.cons _ (.cons _ .nil))
    exact List.forall_mem_map.mpr fun item mem => .cons _ (.cons _ (each item mem))

end Json

namespace Network

theorem drawing_returns {g : Network} (labelled : ∀ n ∈ g.nodes, ∃ label, n.label = .ok label)
    (title : Option String) : ∃ text, g.drawing title = .ok text := by
  have each : ∀ place ∈ g.nodes.zipIdx, ∃ line, nodeLine place.2 place.1 = .ok line := by
    intro place mem
    obtain ⟨label, written⟩ := labelled place.1 (List.fst_mem_of_mem_zipIdx mem)
    unfold nodeLine
    rw [written]
    exact ⟨_, rfl⟩
  obtain ⟨lines, drawn⟩ := exists_mapM each
  unfold drawing drawingLines
  simp only [drawn, bind, Except.bind]
  exact ⟨_, rfl⟩

end Network

theorem Wiring.label_eq_of_ofRuleBook {book : RuleBook} {settings : Settings} {wiring : Wiring}
    (made : ofRuleBook book settings = .ok wiring) (writable : ∀ w ∈ book.workflows, w.Writable) :
    ∀ n ∈ wiring.network.nodes, ∃ label, n.label = .ok label := by
  obtain ⟨g, draft, _, rfl⟩ := draft_of_ofRuleBook made
  exact draft.label_eq writable

namespace Box

/-- Can the ends and the volume of the box be written? -/
structure Writable (b : Box) : Prop where
  ends : ∀ i ∈ b.ranges, i.lo.natAbs < Numeral.bound ∧ i.hi.natAbs < Numeral.bound
  volume : b.volume < Numeral.bound

theorem Writable.text_returns {b : Box} (writable : b.Writable) : ∃ text, b.text = .ok text := by
  have each : ∀ axis ∈ b.axes, ∃ part,
      (axis.2.text >>= fun range => pure (axis.1 ++ "∈" ++ range)) = .ok part := by
    intro axis mem
    obtain ⟨low, high⟩ := writable.ends axis.2 (List.of_mem_zip mem).2
    obtain ⟨lo, loText⟩ := Numeral.write_of_lt low
    obtain ⟨hi, hiText⟩ := Numeral.write_of_lt high
    simp only [Interval.text, loText, hiText]
    exact ⟨_, rfl⟩
  obtain ⟨parts, written⟩ := exists_mapM each
  exact ⟨_, congrArg (fun whole => whole >>= fun parts => pure (" ".intercalate parts)) written⟩

theorem mem_of_mem_put {entries : List (String × Interval)} {name : String} {i : Interval}
    {entry : String × Interval} (mem : entry ∈ put entries name i) :
    entry ∈ entries ∨ entry.2 = i := by
  induction entries with
  | nil => exact .inr (List.mem_singleton.mp mem ▸ rfl)
  | cons first rest ih =>
    unfold put at mem
    split at mem
    · rcases List.mem_cons.mp mem with rfl | later
      · exact .inr rfl
      · exact .inl (List.mem_cons_of_mem _ later)
    · rcases List.mem_cons.mp mem with rfl | later
      · exact .inl List.mem_cons_self
      · exact (ih later).imp_left (List.mem_cons_of_mem _)

theorem mem_ranges_of_mem_entries {b : Box} {entry : String × Interval} (mem : entry ∈ b.entries) :
    entry.2 ∈ b.ranges := by
  have given (entries kept : List (String × Interval))
      (mem : entry ∈ entries.foldl (fun kept axis => put kept axis.1 axis.2) kept) :
      entry ∈ kept ∨ entry.2 ∈ entries.map (·.2) := by
    induction entries generalizing kept with
    | nil => exact .inl mem
    | cons first rest ih =>
      rcases ih _ mem with stored | later
      · rcases mem_of_mem_put stored with old | same
        · exact .inl old
        · exact .inr (same ▸ List.mem_cons_self)
      · exact .inr (List.mem_cons_of_mem _ later)
  rcases given b.axes [] mem with none_ | listed
  · cases none_
  · obtain ⟨axis, part, same⟩ := List.mem_map.mp listed
    exact same ▸ (List.of_mem_zip part).2

theorem mem_sorted {boxes : List Box} {b : Box} : b ∈ sorted boxes ↔ b ∈ boxes :=
  (List.mergeSort_perm _ _).mem_iff

end Box

namespace Report

theorem regionLine_returns (colour : Bool) (width number : Nat) {b : Box} (writable : b.Writable) :
    ∃ line, regionLine colour width number b = .ok line := by
  obtain ⟨box, boxText⟩ := writable.text_returns
  obtain ⟨volume, volumeText⟩ := Numeral.write_of_lt (n := b.volume) writable.volume
  unfold regionLine
  simp only [boxText, volumeText, bind, Except.bind]
  exact ⟨_, rfl⟩

theorem sound_regionObject (level : Nat) {b : Box} (writable : b.Writable) :
    Json.Sound (regionObject level b) := by
  refine Json.sound_object level (List.forall_mem_cons.mpr ⟨?_, List.forall_mem_singleton.mpr ?_⟩)
  · refine Json.sound_object _ (List.forall_mem_map.mpr fun axis mem => ?_)
    obtain ⟨low, high⟩ := writable.ends axis.2 (Box.mem_ranges_of_mem_entries mem)
    exact Json.sound_integers _ (List.forall_mem_cons.mpr ⟨low, List.forall_mem_singleton.mpr high⟩)
  · exact List.forall_mem_singleton.mpr (Numeral.write_of_lt writable.volume)

theorem fault?_regions (colour : Bool) (layout : Layout) {boxes : List Box}
    (writable : ∀ b ∈ boxes, b.Writable) : (regions colour layout boxes).fault? = none := by
  cases layout with
  | json =>
    apply Written.fault?_ofParts
    refine Json.Sound.append (Json.sound_array 0 ?_) (.cons _ .nil)
    exact List.forall_mem_map.mpr fun b mem => sound_regionObject 1 (writable b mem)
  | text =>
    apply Written.fault?_ofParts
    refine List.forall_mem_map.mpr fun place mem => ?_
    exact regionLine_returns colour _ _ (writable _ (List.fst_mem_of_mem_zipIdx mem))

end Report

theorem Box.ends_of_subset {b : Box} {s : Settings} (feasible : b.isFeasible = true)
    (within : ∀ p ∈ b, p ∈ s.domain) :
    ∀ i ∈ b.ranges, s.least ≤ i.lo ∧ i.lo ≤ i.hi ∧ i.hi ≤ s.greatest := by
  have filled : ∀ i ∈ b.ranges, i.lo ≤ i.hi := by
    intro i mem
    by_contra empty
    have hollow : b.ranges.any Interval.isEmpty = true :=
      List.any_eq_true.mpr ⟨i, mem, decide_eq_true (Int.not_le.mp empty)⟩
    rw [isFeasible, hollow] at feasible
    cases feasible
  -- The two outermost points are in the box, and so in the domain.
  have lows : b.ranges.map (·.lo) ∈ b := by
    rw [mem_def, List.forall₂_map_left_iff, List.forall₂_same]
    exact fun i mem => ⟨Int.le_refl _, filled i mem⟩
  have highs : b.ranges.map (·.hi) ∈ b := by
    rw [mem_def, List.forall₂_map_left_iff, List.forall₂_same]
    exact fun i mem => ⟨filled i mem, Int.le_refl _⟩
  intro i mem
  have low := (Settings.mem_domain.mp (within _ lows)).2 _ (List.mem_map_of_mem mem)
  have high := (Settings.mem_domain.mp (within _ highs)).2 _ (List.mem_map_of_mem mem)
  exact ⟨low.1, filled i mem, high.2⟩

end RouteVolume
