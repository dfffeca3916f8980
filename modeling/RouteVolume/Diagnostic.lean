import RouteVolume.Text.Numeral

namespace RouteVolume

inductive Code where
  | invalidLine
  | uninterpretableLine
  | unknownDestination
  | duplicateWorkflow
  | emptyWorkflow
  | unknownAttribute
  | invalidDefinition
  | invalidSettings
  | networkInvariant
  | networkFrozen
  | routingCycle
  deriving DecidableEq, Repr

namespace Code

def all : List Code :=
  [.invalidLine, .uninterpretableLine, .unknownDestination, .duplicateWorkflow, .emptyWorkflow,
    .unknownAttribute, .invalidDefinition, .invalidSettings, .networkInvariant, .networkFrozen,
    .routingCycle]

/-- The number under which a code is printed: syntax 1, definitions 2, settings 3, internal 9. -/
def number : Code → String
  | .invalidLine => "RG-1001"
  | .uninterpretableLine => "RG-1002"
  | .unknownDestination => "RG-2001"
  | .duplicateWorkflow => "RG-2002"
  | .emptyWorkflow => "RG-2003"
  | .unknownAttribute => "RG-2004"
  | .invalidDefinition => "RG-2005"
  | .invalidSettings => "RG-3001"
  | .networkInvariant => "RG-9001"
  | .networkFrozen => "RG-9002"
  | .routingCycle => "RG-9003"

def name : Code → String
  | .invalidLine => "INVALID_LINE"
  | .uninterpretableLine => "UNINTERPRETABLE_LINE"
  | .unknownDestination => "UNKNOWN_DESTINATION"
  | .duplicateWorkflow => "DUPLICATE_WORKFLOW"
  | .emptyWorkflow => "EMPTY_WORKFLOW"
  | .unknownAttribute => "UNKNOWN_ATTRIBUTE"
  | .invalidDefinition => "INVALID_DEFINITION"
  | .invalidSettings => "INVALID_CONFIG"
  | .networkInvariant => "GRAPH_INVARIANT"
  | .networkFrozen => "GRAPH_FROZEN"
  | .routingCycle => "ROUTING_CYCLE"

def isInternal : Code → Bool
  | .networkInvariant | .networkFrozen | .routingCycle => true
  | _ => false

def ofNumber? (number : String) : Option Code := all.find? (·.number = number)

theorem ofNumber?_number (c : Code) : ofNumber? c.number = some c := by
  cases c <;> decide

end Code

/-- A position in a rule text; lines and columns count from one. -/
structure Span where
  line : Int
  column : Int := 1
  file : Option String := none
  deriving DecidableEq, Repr

def Span.text? (s : Span) : Option String := do
  let line ← Numeral.write? s.line
  let column ← Numeral.write? s.column
  let file := s.file.getD ""
  pure ((if file.isEmpty then "<input>" else file) ++ ":" ++ line ++ ":" ++ column)

inductive Subject where
  | general
  | line (text : String)
  | definition
  | destination (name : String) (referencedFrom : Option String)
  | settings
  | network
  | cycle (label : String)
  deriving DecidableEq, Repr

def Subject.code : Subject → Code
  | .general => .networkInvariant
  | .line _ => .invalidLine
  | .definition => .invalidDefinition
  | .destination _ _ => .unknownDestination
  | .settings => .invalidSettings
  | .network => .networkInvariant
  | .cycle _ => .routingCycle

structure Diagnostic where
  subject : Subject
  message : String
  code : Code := subject.code
  span : Option Span := none
  hint : Option String := none
  deriving DecidableEq, Repr

namespace Diagnostic

def text? (d : Diagnostic) : Option String :=
  let body := "[" ++ d.code.number ++ "] " ++ d.message
  match d.span with
  | none => some body
  | some span => span.text?.map (· ++ ": " ++ body)

def unknownDestination (name : String) (referencedFrom : Option String) (span : Option Span) :
    Diagnostic where
  subject := .destination name referencedFrom
  message :=
    match referencedFrom with
    | none => "unknown workflow '" ++ name ++ "'"
    | some origin => "workflow '" ++ origin ++ "' routes to unknown workflow '" ++ name ++ "'"
  span := span
  hint := some "every destination other than A and R must name a workflow"

def cycle (label : String) : Diagnostic where
  subject := .cycle label
  message := "routing cycle through " ++ label
  hint := some "workflows must not route back to a workflow that leads to them"

def emptyWorkflow (name : String) (span : Option Span) : Diagnostic where
  subject := .definition
  message := "workflow '" ++ name ++ "' has no rules"
  code := .emptyWorkflow
  span := span

def duplicateWorkflow (name : String) (span : Option Span) : Diagnostic where
  subject := .definition
  message := "workflow '" ++ name ++ "' is defined more than once"
  code := .duplicateWorkflow
  span := span

def unknownAttribute (workflow attr : String) (configured : List String)
    (span : Option Span) : Diagnostic where
  subject := .definition
  message := "workflow '" ++ workflow ++ "' tests unknown attribute '" ++ attr ++ "'"
  code := .unknownAttribute
  span := span
  hint := some ("configured attributes are " ++ ", ".intercalate configured)

def invalidSettings (problems : List String) : Diagnostic where
  subject := .settings
  message := "; ".intercalate problems

def brokenInvariant (message : String) : Diagnostic where
  subject := .network
  message := message

def frozen : Diagnostic where
  subject := .network
  message := "rule graph is frozen"
  code := .networkFrozen

end Diagnostic

end RouteVolume
