import Mathlib.Logic.Relation
import RouteVolume.Proofs.Box.Narrow
import RouteVolume.RuleBook
import RouteVolume.Settings

namespace RouteVolume

namespace Workflow

def routeFrom (value : String → Int) (default : Destination) : List Rule → Destination
  | [] => default
  | r :: rest =>
    if r.threshold.passes (value r.attr) then r.destination else routeFrom value default rest

def route (w : Workflow) (value : String → Int) : Destination :=
  routeFrom value w.default w.rules

def destinations (w : Workflow) : List Destination := w.rules.map (·.destination) ++ [w.default]

end Workflow

namespace RuleBook

inductive Continues (book : RuleBook) (value : String → Int) : Destination → Destination → Prop
  | route {name : String} {w : Workflow} (found : book.get? name = some w) :
      Continues book value (.workflow name) (w.route value)

/-- Does the evaluation of a point come to Accept? -/
def Accepts (book : RuleBook) (settings : Settings) (p : Point) : Prop :=
  Relation.ReflTransGen (book.Continues (valueOf settings.attrs p)) (.workflow settings.start)
    .accept

/-- Does a rule or the default of one workflow name another? -/
def Routes (book : RuleBook) (name next : String) : Prop :=
  ∃ w, book.get? name = some w ∧ .workflow next ∈ w.destinations

/-- Is every workflow stored under its own name? -/
def Keyed (book : RuleBook) : Prop := ∀ entry ∈ book.entries, entry.2.name = entry.1

def Resolves (book : RuleBook) : Destination → Prop
  | .workflow name => (book.get? name).isSome
  | _ => True

instance (book : RuleBook) : DecidablePred book.Resolves
  | .workflow name => inferInstanceAs (Decidable ((book.get? name).isSome = true))
  | .accept => isTrue trivial
  | .reject => isTrue trivial

theorem lookup_eq_some_iff {α β : Type} [BEq α] [LawfulBEq α] {entries : List (α × β)} {key : α}
    {stored : β} (distinct : (entries.map (·.1)).Nodup) :
    entries.lookup key = some stored ↔ (key, stored) ∈ entries := by
  induction entries with
  | nil => simp
  | cons entry rest ih =>
    obtain ⟨first, held⟩ := entry
    rw [List.map_cons, List.nodup_cons] at distinct
    rw [List.lookup_cons, List.mem_cons, Prod.mk.injEq]
    by_cases same : key = first
    · subst same
      have other : (key, stored) ∉ rest := fun mem => distinct.1 (List.mem_map.mpr ⟨_, mem, rfl⟩)
      simp [other, eq_comm]
    · have differ : (key == first) = false := beq_eq_false_iff_ne.mpr same
      simp [differ, same, ih distinct.2]

theorem get?_eq_some_iff {book : RuleBook} {key : String} {w : Workflow} :
    book.get? key = some w ↔ (key, w) ∈ book.entries := lookup_eq_some_iff book.distinct

theorem mem_workflows_of_get? {book : RuleBook} {key : String} {w : Workflow}
    (found : book.get? key = some w) : w ∈ book.workflows :=
  List.mem_map_of_mem (get?_eq_some_iff.mp found)

theorem Keyed.name_eq {book : RuleBook} (keyed : book.Keyed) {key : String} {w : Workflow}
    (found : book.get? key = some w) : w.name = key := keyed _ (get?_eq_some_iff.mp found)

theorem Keyed.get?_name {book : RuleBook} (keyed : book.Keyed) {w : Workflow}
    (mem : w ∈ book.workflows) : book.get? w.name = some w := by
  obtain ⟨⟨key, v⟩, entry, rfl⟩ := List.mem_map.mp mem
  have own : v.name = key := keyed _ entry
  subst own
  exact get?_eq_some_iff.mpr entry

theorem mem_putIn {key : String} {w : Workflow} {entries : List (String × Workflow)}
    {entry : String × Workflow} (mem : entry ∈ putIn key w entries) :
    entry = (key, w) ∨ entry ∈ entries := by
  induction entries with
  | nil => exact .inl (List.mem_singleton.mp mem)
  | cons first rest ih =>
    unfold putIn at mem
    split at mem
    · rcases List.mem_cons.mp mem with new | later
      · exact .inl new
      · exact .inr (List.mem_cons_of_mem _ later)
    · rcases List.mem_cons.mp mem with rfl | later
      · exact .inr List.mem_cons_self
      · exact (ih later).imp_right (List.mem_cons_of_mem _)

theorem Keyed.define {book more : RuleBook} (keyed : book.Keyed) {w : Workflow}
    (defined : book.define w = .ok more) : more.Keyed := by
  unfold RuleBook.define at defined
  split at defined
  · cases defined
  · cases defined
    intro entry mem
    rcases mem_putIn mem with rfl | old
    · rfl
    · exact keyed entry old

theorem Keyed.defineAll {book more : RuleBook} (keyed : book.Keyed)
    {made : List (Except Fault Workflow)} (defined : book.defineAll made = .ok more) :
    more.Keyed := by
  induction made generalizing book with
  | nil =>
    cases defined
    exact keyed
  | cons next rest ih =>
    unfold RuleBook.defineAll at defined
    cases next with
    | error fault => cases defined
    | ok w =>
      simp only [bind, Except.bind] at defined
      cases added : book.define w with
      | error fault =>
        rw [added] at defined
        cases defined
      | ok larger =>
        rw [added] at defined
        exact ih (keyed.define added) defined

theorem keyed_ofWorkflows {made : List (Except Fault Workflow)} {book : RuleBook}
    (defined : ofWorkflows made = .ok book) : book.Keyed :=
  Keyed.defineAll (fun _ mem => absurd mem List.not_mem_nil) defined

theorem sortedEntries_perm (book : RuleBook) : book.sortedEntries.Perm book.entries :=
  List.mergeSort_perm _ _

theorem nodup_sortedEntries (book : RuleBook) : (book.sortedEntries.map (·.1)).Nodup :=
  (book.sortedEntries_perm.map _).nodup_iff.mpr book.distinct

theorem ascending_sortedEntries (book : RuleBook) :
    book.sortedEntries.Pairwise fun x y => x.1 < y.1 := by
  have sorted : book.sortedEntries.Pairwise fun x y => x.1 ≤ y.1 := by
    refine List.Pairwise.imp (fun le => of_decide_eq_true le) (List.pairwise_mergeSort ?_ ?_ _)
    · intro x y z
      simp only [decide_eq_true_eq]
      exact String.le_trans
    · intro x y
      simp only [Bool.or_eq_true, decide_eq_true_eq]
      exact String.le_total _ _
  have distinct := List.pairwise_map.mp book.nodup_sortedEntries
  exact (sorted.and distinct).imp Std.lt_iff_le_and_ne.mpr

end RuleBook

end RouteVolume
