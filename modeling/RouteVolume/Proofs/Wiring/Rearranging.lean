import RouteVolume.Proofs.RuleBook.Rearranging
import RouteVolume.Proofs.Wiring.Rendering
import RouteVolume.Survey

namespace RouteVolume

def SameResult {α : Type} (x y : Except Fault α) : Prop := x.toOption = y.toOption

namespace SameResult

variable {α β : Type} {x y : Except Fault α}

theorem refl (x : Except Fault α) : SameResult x x := rfl

theorem error (fault other : Fault) : SameResult (.error fault : Except Fault α) (.error other) :=
  rfl

theorem bind {f g : α → Except Fault β} (same : SameResult x y)
    (later : ∀ a, SameResult (f a) (g a)) : SameResult (x >>= f) (y >>= g) := by
  unfold SameResult at same
  cases x with
  | error fault =>
    cases y with
    | error other => rfl
    | ok b => cases same
  | ok a =>
    cases y with
    | error other => cases same
    | ok b =>
      cases same
      exact later a

theorem eq_ok (same : SameResult x y) {a : α} (gives : x = .ok a) : y = .ok a := by
  subst gives
  unfold SameResult at same
  cases y with
  | error fault => cases same
  | ok b =>
    cases same
    rfl

end SameResult

namespace Wiring

variable {settings : Settings} {numbers : List (String × Nat)}

abbrev placeless (entry : String × Workflow) : String × Workflow := (entry.1, entry.2.placeless)

theorem resolve_placeless (w : Workflow) (d : Destination) :
    SameResult (resolve numbers w.placeless d) (resolve numbers w d) := by
  cases d with
  | accept | reject => exact .refl _
  | workflow name =>
    unfold resolve
    dsimp only
    cases numbers.lookup name with
    | none => exact .error _ _
    | some number => exact .refl _

theorem chain_placeless (w : Workflow) (g : Network) (previous position : Nat)
    (rules : List Rule) :
    SameResult (chain numbers w.placeless g previous position rules)
      (chain numbers w g previous position rules) := by
  induction rules generalizing g previous position with
  | nil => exact SameResult.bind (resolve_placeless w w.default) fun failed => .refl _
  | cons r rest ih =>
    unfold chain
    refine SameResult.bind (.refl _) fun placed => ?_
    refine SameResult.bind (.refl _) fun g => ?_
    refine SameResult.bind (resolve_placeless w r.destination) fun passed => ?_
    exact SameResult.bind (.refl _) fun g => ih g placed.2 (position + 1)

theorem wire_placeless (g : Network) (w : Workflow) :
    SameResult (wire numbers g w.placeless) (wire numbers g w) := by
  unfold wire
  refine SameResult.bind (.refl _) fun first => ?_
  refine SameResult.bind (resolve_placeless w w.first.destination) fun passed => ?_
  exact SameResult.bind (.refl _) fun g => chain_placeless w g first 1 w.rest

theorem wireAll_placeless (g : Network) (entries : List (String × Workflow)) :
    SameResult ((entries.map placeless).foldlM (fun g (_, w) => wire numbers g w) g)
      (entries.foldlM (fun g (_, w) => wire numbers g w) g) := by
  induction entries generalizing g with
  | nil => exact .refl _
  | cons entry rest ih => exact (wire_placeless g entry.2).bind fun g => ih g

theorem checkAttrs_placeless (entries : List (String × Workflow)) :
    SameResult (checkAttrs settings (entries.map placeless)) (checkAttrs settings entries) := by
  have tested (key : String) (w : Workflow) (rules : List Rule) :
      SameResult
        (rules.forM fun r => if r.attr ∈ settings.attrs then pure ()
          else throw (.report (.unknownAttribute key r.attr settings.attrs w.placeless.span)))
        (rules.forM fun r => if r.attr ∈ settings.attrs then pure ()
          else throw (.report (.unknownAttribute key r.attr settings.attrs w.span))) := by
    induction rules with
    | nil => exact .refl _
    | cons r rest ih =>
      refine SameResult.bind ?_ fun _ => ih
      dsimp only
      split
      · exact .refl _
      · exact .error _ _
  induction entries with
  | nil => exact .refl _
  | cons entry rest ih => exact (tested entry.1 entry.2 entry.2.rules).bind fun _ => ih

theorem placeEntries_placeless (wiring : Wiring) (entries : List (String × Workflow)) :
    SameResult (placeEntries wiring (entries.map placeless)) (placeEntries wiring entries) := by
  induction entries generalizing wiring with
  | nil => exact .refl _
  | cons entry rest ih => exact SameResult.bind (.refl _) fun placed => ih _

theorem isNone_get? (book : RuleBook) (name : String) :
    (book.get? name).isNone = decide (name ∉ book.content.map (·.1)) := by
  have keys : book.content.map (·.1) = book.sortedEntries.map (·.1) := List.map_map
  rw [Bool.eq_iff_iff, decide_eq_true_iff, keys, (book.sortedEntries_perm.map _).mem_iff,
    ← lookup_isSome_iff_mem]
  exact Option.isNone_iff_eq_none.trans Option.not_isSome_iff_eq_none.symm

theorem sameResult_of_content {α : Type} {book other : RuleBook}
    (same : book.content = other.content) {step : List (String × Workflow) → Except Fault α}
    (blind : ∀ entries, SameResult (step (entries.map placeless)) (step entries)) :
    SameResult (step book.sortedEntries) (step other.sortedEntries) := by
  have other_blind : SameResult (step book.content) (step other.sortedEntries) :=
    same ▸ blind other.sortedEntries
  exact (blind book.sortedEntries).symm.trans other_blind

theorem ofRuleBook_of_content {book other : RuleBook} (same : book.content = other.content) :
    SameResult (ofRuleBook book settings) (ofRuleBook other settings) := by
  unfold ofRuleBook
  refine SameResult.bind (.refl _) fun _ => ?_
  refine SameResult.bind (sameResult_of_content same checkAttrs_placeless) fun _ => ?_
  rw [isNone_get?, isNone_get?, same]
  split
  · exact .refl _
  · refine SameResult.bind (sameResult_of_content same (placeEntries_placeless _)) fun w => ?_
    exact (sameResult_of_content same (wireAll_placeless w.network)).bind fun g => .refl _

end Wiring

theorem Survey.ofRuleBook_of_content {book other : RuleBook} (settings : Settings)
    (same : book.content = other.content) :
    SameResult (ofRuleBook book settings) (ofRuleBook other settings) :=
  (Wiring.ofRuleBook_of_content same).bind fun _ => .refl _

end RouteVolume
