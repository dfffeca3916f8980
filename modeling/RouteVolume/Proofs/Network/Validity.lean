import RouteVolume.Network
import RouteVolume.Proofs.Network.Adjacency

namespace RouteVolume

theorem forM_eq_ok_iff {α : Type} {f : α → Except Fault Unit} {xs : List α} :
    xs.forM f = .ok () ↔ ∀ x ∈ xs, f x = .ok () := by
  induction xs with
  | nil => simp [pure, Except.pure]
  | cons x rest ih =>
    rw [List.forall_mem_cons, ← ih]
    change (f x >>= fun _ => rest.forM f) = .ok () ↔ _
    simp only [bind, Except.bind]
    cases f x with
    | error fault => simp
    | ok done => simp

theorem split_of_forM_error {α : Type} {f : α → Except Fault Unit} {xs : List α} {fault : Fault}
    (stopped : xs.forM f = .error fault) :
    ∃ front x back, xs = front ++ x :: back ∧ (∀ y ∈ front, f y = .ok ()) ∧ f x = .error fault := by
  induction xs with
  | nil => cases stopped
  | cons x rest ih =>
    change (f x >>= fun _ => rest.forM f) = .error fault at stopped
    cases first : f x with
    | error other =>
      rw [first] at stopped
      cases stopped
      exact ⟨[], x, rest, rfl, nofun, first⟩
    | ok _ =>
      rw [first] at stopped
      obtain ⟨front, y, back, split, passed, failed⟩ := ih stopped
      refine ⟨x :: front, y, back, ?_, List.forall_mem_cons.mpr ⟨first, passed⟩, failed⟩
      rw [split, List.cons_append]

theorem exists_of_forM_error {α : Type} {f : α → Except Fault Unit} {xs : List α} {fault : Fault}
    (stopped : xs.forM f = .error fault) : ∃ x ∈ xs, f x = .error fault := by
  obtain ⟨front, x, back, split, _, failed⟩ := split_of_forM_error stopped
  exact ⟨x, split ▸ List.mem_append_right _ List.mem_cons_self, failed⟩

def Slot.Fits (s : Slot) (entering : List Edge) : Prop :=
  match s.node.kind with
  | .condition => Network.passages entering .pass = 1 ∧ Network.passages entering .fail = 1 ∧
      Network.passages entering .entry = 0
  | .accept | .reject => s.entering = []
  | .start => s.leaving = [] ∧ ∀ e ∈ entering, e.passage = .entry

namespace Network

theorem refusal_eq_ok_iff {p : Prop} [Decidable p] {label : Except Fault String}
    {fault : String → Fault} :
    (if p then label >>= fun text => .error (fault text) else .ok () : Except Fault Unit) = .ok () ↔
      ¬ p := by
  by_cases holds : p
  · cases label <;> simp [holds, bind, Except.bind]
  · simp [holds]

theorem checkSlot_eq_ok_iff {g : Network} {s : Slot} :
    g.checkSlot s = .ok () ↔ ∃ entering, s.entering.mapM g.edge = .ok entering ∧ s.Fits entering := by
  unfold checkSlot
  cases read : s.entering.mapM g.edge with
  | error fault => simp [bind, Except.bind]
  | ok entering =>
    rw [exists_congr fun other => and_congr_left' (Except.ok.injEq entering other).to_iff,
      exists_eq_left']
    unfold Slot.Fits
    cases node : s.node with
    | condition attr threshold workflow position =>
      refine refusal_eq_ok_iff.trans ?_
      simp [Node.kind, and_assoc]
    | blank =>
      refine refusal_eq_ok_iff.trans ?_
      simp [Node.kind, and_assoc]
    | accept =>
      refine refusal_eq_ok_iff.trans ?_
      simp [Node.kind]
    | reject =>
      refine refusal_eq_ok_iff.trans ?_
      simp [Node.kind]
    | start =>
      by_cases empty : s.leaving = []
      · simp [Node.kind, empty, bind, Except.bind, pure, Except.pure]
      · simp [Node.kind, empty, bind, Except.bind]

theorem fits_of_validate {g : Network} (valid : g.validate = .ok ()) {j : Nat} {s : Slot}
    (there : g.slots[j]? = some s) :
    ∃ entering, s.entering.mapM g.edge = .ok entering ∧ s.Fits entering :=
  checkSlot_eq_ok_iff.mp
    (forM_eq_ok_iff.mp valid s (Array.mem_toList_iff.mpr (Array.mem_of_getElem? there)))

end Network

end RouteVolume
