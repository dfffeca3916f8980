import RouteVolume.Proofs.Network.Trails

namespace RouteVolume

theorem Numeral.write_of_lt {n : Int} (short : n.natAbs < Numeral.bound) :
    ∃ text, Numeral.write n = .ok text := by
  obtain ⟨text, written⟩ := Option.isSome_iff_exists.mp ((write?_isSome_iff n).mpr short)
  refine ⟨text, ?_⟩
  unfold Numeral.write
  simp only [written]

theorem Numeral.fault_of_write {n : Int} {fault : Fault} (failed : write n = .error fault) :
    fault = .longNumeral := by
  unfold write at failed
  split at failed <;> cases failed
  rfl

theorem Numeral.powerOfTen_mono {j k : Nat} (fewer : j ≤ k) : powerOfTen j ≤ powerOfTen k :=
  Nat.pow_le_pow_right (Nat.succ_pos _) fewer

theorem Numeral.lt_bound {n : Nat} (small : n < powerOfTen 1) : n < bound :=
  Nat.lt_of_lt_of_le small (powerOfTen_mono (k := maxDigits) (by decide))

theorem Node.fault_of_label {n : Node} {fault : Fault} (failed : n.label = .error fault) :
    fault = .longNumeral := by
  cases n with
  | condition attr threshold workflow position =>
    unfold label Threshold.text at failed
    simp only [bind, Except.bind, Except.map] at failed
    split at failed
    · rename_i unwritten
      cases failed
      exact Numeral.fault_of_write unwritten
    · split at failed
      · rename_i unwritten
        split at unwritten <;> cases unwritten
        rename_i unwritten
        cases failed
        exact Numeral.fault_of_write unwritten
      · cases failed
  | blank | accept | reject | start => cases failed

theorem Node.label_of_lt {attr workflow : String} {t : Threshold} {position : Int}
    (value : t.value.natAbs < Numeral.bound) (place : position.natAbs < Numeral.bound) :
    ∃ label, (Node.condition attr t workflow position).label = .ok label := by
  obtain ⟨number, written⟩ := Numeral.write_of_lt place
  obtain ⟨value, stated⟩ := Numeral.write_of_lt value
  rw [Node.label, written, Threshold.text, stated]
  exact ⟨_, rfl⟩

namespace Network

theorem failure?_of_region {g : Network} {b : Branch} {box : Box}
    (emitted : g.region? b = some box) : g.failure? b = none := by
  unfold region? at emitted
  unfold failure?
  cases arrived : g.arrive b with
  | error fault =>
    rw [arrived] at emitted
    cases emitted
  | ok arrival =>
    rw [arrived] at emitted
    cases arrival with
    | region => rfl
    | pruned node box => cases emitted
    | fork box edges => cases emitted

theorem failure?_of_condition {g : Network} {b : Branch} {s : Slot} {label : String} {box : Box}
    {edges : List Edge} (there : g.slot b.node = .ok s) (kind : s.node.kind = .condition)
    (labelled : s.node.label = .ok label) (left : b.passage ≠ .entry)
    (narrowed : s.node.narrow b.box b.passage = .ok box) (listed : g.edgesFrom b.node = .ok edges) :
    g.failure? b = if b.node ∈ b.path then some (.report (.cycle label)) else none := by
  unfold failure?
  rw [arrive_condition there kind, labelled, narrowed, listed, if_neg left]
  simp only [bind, Except.bind]
  by_cases again : b.node ∈ b.path
  · rw [if_pos again, if_pos again]
  · rw [if_neg again, if_neg again]
    by_cases feasible : box.isFeasible = true
    · rw [if_pos feasible]
    · rw [if_neg feasible]
      simp only [labelled]

theorem arrive_of_test {g : Network} {b : Branch} {s : Slot} {attr workflow : String}
    {t : Threshold} {position : Int} {edges : List Edge} (there : g.slot b.node = .ok s)
    (node : s.node = .condition attr t workflow position) (known : attr ∈ b.box.attrs)
    (left : b.passage ≠ .entry) (listed : g.edgesFrom b.node = .ok edges) :
    ∃ narrowed, s.node.narrow b.box b.passage = .ok narrowed ∧
      g.arrive b =
        if b.node ∈ b.path then s.node.label >>= fun label => .error (.report (.cycle label))
        else if narrowed.isFeasible then .ok (.fork narrowed edges)
        else .ok (.pruned s.node narrowed) := by
  have kind : s.node.kind = .condition := by rw [node]; rfl
  obtain ⟨passed, outcome⟩ : ∃ passed, b.passage.outcome? = some passed := by
    cases passage : b.passage with
    | pass => exact ⟨true, rfl⟩
    | fail => exact ⟨false, rfl⟩
    | entry => exact absurd passage left
  obtain ⟨narrowed, part, _⟩ := Box.narrow_spec t known outcome
  have possible : s.node.narrow b.box b.passage = .ok narrowed := by
    rw [node]
    exact part
  refine ⟨narrowed, possible, ?_⟩
  rw [arrive_condition there kind, if_neg left, possible, listed]
  rfl

theorem fault_of_test {g : Network} {b : Branch} {n : Node} {narrowed : Box} {edges : List Edge}
    {fault : Fault}
    (arrives : g.arrive b =
      if b.node ∈ b.path then n.label >>= fun label => .error (.report (.cycle label))
      else if narrowed.isFeasible then .ok (.fork narrowed edges) else .ok (.pruned n narrowed))
    (failed : g.failure? b = some fault) :
    (∃ label, n.label = .ok label ∧ fault = .report (.cycle label) ∧ b.node ∈ b.path) ∨
      n.label = .error .longNumeral ∧ fault = .longNumeral := by
  unfold failure? at failed
  rw [arrives] at failed
  by_cases again : b.node ∈ b.path
  · rw [if_pos again] at failed
    cases labelled : n.label with
    | ok label =>
      rw [labelled] at failed
      cases failed
      exact .inl ⟨label, rfl, rfl, again⟩
    | error other =>
      obtain rfl := Node.fault_of_label labelled
      rw [labelled] at failed
      cases failed
      exact .inr ⟨rfl, rfl⟩
  · rw [if_neg again] at failed
    by_cases feasible : narrowed.isFeasible = true
    · rw [if_pos feasible] at failed
      cases failed
    · rw [if_neg feasible] at failed
      cases labelled : n.label with
      | ok label =>
        simp only [labelled] at failed
        cases failed
      | error other =>
        obtain rfl := Node.fault_of_label labelled
        simp only [labelled] at failed
        cases failed
        exact .inr ⟨rfl, rfl⟩

theorem failure?_ne_none {g : Network} {b : Branch} {n : Node} {fault : String → Fault}
    (arrives : g.arrive b = n.label >>= fun label => .error (fault label)) :
    g.failure? b ≠ none := by
  unfold failure?
  rw [arrives]
  cases n.label <;> exact nofun

end Network

end RouteVolume
