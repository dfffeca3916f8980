import RouteVolume.Interval

namespace RouteVolume

inductive DestinationKind where
  | accept
  | reject
  | workflow
  deriving DecidableEq, Repr

namespace DestinationKind

def word : DestinationKind → String
  | .accept => "accept"
  | .reject => "reject"
  | .workflow => "workflow"

def ofWord (word : String) : Except Fault DestinationKind :=
  if word = "accept" then .ok .accept
  else if word = "reject" then .ok .reject
  else if word = "workflow" then .ok .workflow
  else .error (.unknownWord word .destinationKind)

end DestinationKind

inductive Destination where
  | accept
  | reject
  | workflow (name : String)
  deriving DecidableEq, Repr

namespace Destination

def acceptLabel : String := "A"

def rejectLabel : String := "R"

def ofLabel (label : String) : Destination :=
  if label = acceptLabel then .accept
  else if label = rejectLabel then .reject
  else .workflow label

/-- The destination of a kind, which has a name exactly if it is a workflow. -/
def ofKind : DestinationKind → Option String → Except Fault Destination
  | .accept, none => .ok .accept
  | .reject, none => .ok .reject
  | .workflow, some name => .ok (.workflow name)
  | _, _ => .error .destinationName

def kind : Destination → DestinationKind
  | .accept => .accept
  | .reject => .reject
  | .workflow _ => .workflow

def name? : Destination → Option String
  | .workflow name => some name
  | _ => none

def label : Destination → String
  | .accept => acceptLabel
  | .reject => rejectLabel
  | .workflow name => name

theorem ofKind_eq_ok_iff {k : DestinationKind} {name : Option String} {d : Destination} :
    ofKind k name = .ok d ↔ d.kind = k ∧ d.name? = name := by
  cases k <;> cases name <;> cases d <;> simp [ofKind, kind, name?, eq_comm]

end Destination

structure Rule where
  attr : String
  threshold : Threshold
  destination : Destination
  deriving DecidableEq, Repr

def Rule.text (r : Rule) : Except Fault String :=
  r.threshold.text.map fun threshold => r.attr ++ threshold ++ ":" ++ r.destination.label

structure Workflow where
  name : String
  first : Rule
  rest : List Rule
  default : Destination
  span : Option Span := none
  deriving Repr

namespace Workflow

def rules (w : Workflow) : List Rule := w.first :: w.rest

def ofRules (name : String) (rules : List Rule) (default : Destination) (span : Option Span) :
    Except Fault Workflow :=
  match rules with
  | first :: rest => .ok ⟨name, first, rest, default, span⟩
  | [] => .error (.report (.emptyWorkflow name span))

/-- Do two workflows route alike under one name? Where they were written does not matter. -/
def agrees (v w : Workflow) : Bool :=
  v.name = w.name && v.first = w.first && v.rest = w.rest && v.default = w.default

def text (w : Workflow) : Except Fault String := do
  let rules ← w.rules.mapM Rule.text
  pure (w.name ++ "\x7b" ++ ",".intercalate rules ++ "," ++ w.default.label ++ "\x7d")

end Workflow

end RouteVolume
