import RouteVolume.Box
import RouteVolume.Report.Json

namespace RouteVolume

inductive Colour where
  | red
  | green
  | blue
  | cyan
  deriving DecidableEq, Repr

inductive Weight where
  | bold
  | dark
  deriving DecidableEq, Repr

namespace Styled

def colourCode : Colour → String
  | .red => "31"
  | .green => "32"
  | .blue => "34"
  | .cyan => "36"

def weightCode : Weight → String
  | .bold => "1"
  | .dark => "2"

def switch (code : String) : String := "\x1b[" ++ code ++ "m"

def opening (colour : Option Colour) (weight : Option Weight) : String :=
  (weight.map (switch ∘ weightCode)).getD "" ++ (colour.map (switch ∘ colourCode)).getD ""

def closing : String := switch "0"

def paint (on : Bool) (colour : Option Colour) (weight : Option Weight) (text : String) : String :=
  if on then opening colour weight ++ text ++ closing else text

end Styled

/-- A piece of output. The time of day and the time taken are known only as it is written. -/
inductive Piece where
  | text (s : String)
  | clock
  | elapsed
  deriving DecidableEq, Repr

def Piece.fill (clock elapsed : String) (pieces : List Piece) : String :=
  String.join (pieces.map fun
    | .text s => s
    | .clock => clock
    | .elapsed => elapsed)

/-- Output up to the first fault. -/
structure Written where
  pieces : List Piece := []
  fault? : Option Fault := none

namespace Written

def ofParts : List (Except Fault String) → Written
  | [] => {}
  | .error fault :: _ => { fault? := some fault }
  | .ok s :: rest =>
    let more := ofParts rest
    { more with pieces := .text s :: more.pieces }

def ofWhole : Except Fault (List Piece) → Written
  | .ok pieces => { pieces }
  | .error fault => { fault? := some fault }

def followedBy (w v : Written) : Written :=
  match w.fault? with
  | some _ => w
  | none => { v with pieces := w.pieces ++ v.pieces }

end Written

namespace Report

inductive Layout where
  | text
  | json
  deriving DecidableEq, Repr

def withoutLineFeeds (s : String) : String :=
  String.ofList (s.toList.reverse.dropWhile (· = '\n')).reverse

def quotedLine (d : Diagnostic) (span : Span) (source : List String) : Option String :=
  let fromSource :=
    if 0 < span.line then (source[span.line.toNat - 1]?).map withoutLineFeeds else none
  match d.subject with
  | .line text => if text.isEmpty then fromSource else some text
  | _ => fromSource

def blanks (n : Nat) : String := String.ofList (List.replicate n ' ')

/-- More blanks than this do not fit into memory. -/
def mostBlanks : Int := 34359738368

def indent (n : Int) : Except Fault String :=
  if !fitsWord n then .error .vastCount
  else if mostBlanks < n then .error .memory
  else .ok (blanks n.toNat)

def placeLines (colour : Bool) (d : Diagnostic) (span : Span) (source : List String) :
    Except Fault (List String) := do
  let blue := Styled.paint colour (some .blue) (some .bold)
  let place ← span.text
  let number ← Numeral.write span.line
  let gutter := blanks number.length
  let pipe := blue "|"
  let quotation ←
    match quotedLine d span source with
    | none => pure []
    | some quoted => do
      let caret := Styled.paint colour (some .red) (some .bold) "^"
      let below ← indent (span.column - 1)
      pure [" " ++ gutter ++ " " ++ pipe, " " ++ blue number ++ " " ++ pipe ++ " " ++ quoted,
        " " ++ gutter ++ " " ++ pipe ++ " " ++ below ++ caret]
  pure (("  " ++ blue "-->" ++ " " ++ place) :: quotation)

def diagnostic (colour : Bool) (d : Diagnostic) (source : List String) : Except Fault String := do
  let bold (c : Option Colour) := Styled.paint colour c (some .bold)
  let head := bold (some .red) ("error[" ++ d.code.number ++ "]") ++ ": " ++ bold none d.message
  let place ←
    match d.span with
    | none => pure []
    | some span => placeLines colour d span source
  let hint := d.hint.getD ""
  let help :=
    if hint.isEmpty then [] else ["  = " ++ bold (some .green) "help" ++ ": " ++ hint]
  let note :=
    if d.code.isInternal then
      ["  = " ++ bold (some .cyan) "note" ++ ": this is a defect, not bad input"]
    else []
  pure (String.join ((head :: place ++ help ++ note ++ [""]).map (· ++ "\n")))

inductive Elapsed where
  | known (micros : Int)
  | pending

def count (colour : Bool) (value : Int) (elapsed : Option Elapsed) :
    Except Fault (List Piece) := do
  let value ← Numeral.write value
  let head := Styled.paint colour (some .green) (some .bold) "accepted" ++ ": " ++ value
  match elapsed with
  | none => pure [.text (head ++ "\n")]
  | some elapsed =>
    let micros : Piece ←
      match elapsed with
      | .known micros => (Numeral.write micros).map .text
      | .pending => pure .elapsed
    let (before, after) :=
      if colour then (Styled.opening none (some .dark), Styled.closing) else ("", "")
    pure [.text (head ++ before ++ "  (calculated in "), micros, .text (" µs)" ++ after ++ "\n")]

def regionLine (colour : Bool) (width : Nat) (number : Nat) (b : Box) : Except Fault String := do
  let digits := toString number
  let label := "#" ++ blanks (width - digits.length) ++ digits
  let box ← b.text
  let volume ← Numeral.write b.volume
  pure (Styled.paint colour (some .cyan) none label ++ " " ++ box ++ "  volume=" ++ volume ++ "\n")

def regionObject (level : Nat) (b : Box) : Json.Parts :=
  Json.object level
    [("bounds", Json.object (level + 1)
        (b.entries.map fun (attr, i) => (attr, Json.integers (level + 2) [i.lo, i.hi]))),
      ("volume", [Numeral.write b.volume])]

def regions (colour : Bool) (layout : Layout) (boxes : List Box) : Written :=
  match layout with
  | .json => .ofParts (Json.array 0 (boxes.map (regionObject 1)) ++ [.ok "\n"])
  | .text =>
    let width := (toString boxes.length).length
    .ofParts ((boxes.zipIdx 1).map fun (b, number) => regionLine colour width number b)

def text (s : String) : String := withoutLineFeeds s ++ "\n"

end Report

end RouteVolume
