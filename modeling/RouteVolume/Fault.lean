import RouteVolume.Diagnostic
import RouteVolume.Text.Quoted

namespace RouteVolume

inductive Vocabulary where
  | comparison
  | passage
  | destinationKind
  | nodeKind
  | code
  deriving DecidableEq, Repr

def Vocabulary.name : Vocabulary → String
  | .comparison => "Comparison"
  | .passage => "EdgeKind"
  | .destinationKind => "DestinationKind"
  | .nodeKind => "NodeKind"
  | .code => "ErrorCode"

inductive Fault where
  | report (d : Diagnostic)
  | longNumeral
  | unknownWord (word : String) (vocabulary : Vocabulary)
  /-- The entry passage was asked to narrow a range. -/
  | entryPassage
  /-- A box has more names than ranges, or fewer. -/
  | axisCount (names ranges : Nat)
  /-- A terminal destination was given a name, or a workflow destination none. -/
  | destinationName
  | axes (left right : List String)
  | missingKey (key : String)
  /-- A number points to no place in a list. -/
  | missingIndex
  /-- A number that was to point to a place in a list is no machine word. -/
  | vastIndex
  /-- A number of repetitions is no machine word. -/
  | vastCount
  | memory
  | noTest
  /-- A number was compared with an end of the domain that is blank; the blank end may have stood
  on the left. -/
  | blankEnd (sign : Char) (onLeft : Bool)
  deriving DecidableEq, Repr

namespace Fault

def message : Fault → String
  | .report d => d.message
  | .longNumeral => "Exceeds the limit (" ++ toString Numeral.maxDigits ++
      " digits) for integer string conversion; " ++
      "use sys.set_int_max_str_digits() to increase the limit"
  | .unknownWord word vocabulary => Quoted.text word ++ " is not a valid " ++ vocabulary.name
  | .entryPassage => "edge kind 'entry' does not constrain a rule"
  | .axisCount names ranges =>
    toString names ++ " attributes but " ++ toString ranges ++ " ranges"
  | .destinationName => "only workflow destinations carry a name"
  | .axes left right =>
    "regions disagree on attributes: " ++ Quoted.tuple left ++ " vs " ++ Quoted.tuple right
  | .missingKey key => Quoted.text key
  | .missingIndex => "list index out of range"
  | .vastIndex | .vastCount => "cannot fit 'int' into an index-sized integer"
  | .memory => ""
  | .noTest => "None"
  | .blankEnd sign onLeft =>
    "'" ++ sign.toString ++ "' not supported between instances of " ++
      (if onLeft then "'list' and 'int'" else "'int' and 'list'")

end Fault

def fitsWord (n : Int) : Bool := -9223372036854775808 ≤ n && n ≤ 9223372036854775807

def Numeral.write (n : Int) : Except Fault String :=
  match Numeral.write? n with
  | some text => .ok text
  | none => .error .longNumeral

def Span.text (s : Span) : Except Fault String :=
  match s.text? with
  | some text => .ok text
  | none => .error .longNumeral

def Diagnostic.text (d : Diagnostic) : Except Fault String :=
  match d.text? with
  | some text => .ok text
  | none => .error .longNumeral

def Code.ofNumber (number : String) : Except Fault Code :=
  match Code.ofNumber? number with
  | some code => .ok code
  | none => .error (.unknownWord number .code)

end RouteVolume
