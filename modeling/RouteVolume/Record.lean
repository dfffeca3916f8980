import RouteVolume.Record.Scanner
import RouteVolume.Workflow

namespace RouteVolume

structure RuleForm where
  attr : List Char
  comparison : Comparison
  digits : List Char
  label : List Char
  deriving DecidableEq, Repr

structure Assignment where
  attr : List Char
  digits : List Char
  deriving DecidableEq, Repr

inductive Record where
  | workflow (name : List Char) (first : RuleForm) (rest : List RuleForm) (default : List Char)
  | rating (first : Assignment) (rest : List Assignment)
  deriving DecidableEq, Repr

namespace Record

open Scanner

def nameScanner : Scanner (List Char) := named (run Char.isLower)

def attrScanner : Scanner (List Char) := named (run Char.isLower)

def labelScanner : Scanner (List Char) := named (run Char.isAlpha)

def numberScanner : Scanner (List Char) := named (run Char.isDigit)

def comparisonScanner : Scanner Comparison :=
  named (orElse (literal '<' *> pure .below) (literal '>' *> pure .above))

def ruleScanner : Scanner RuleForm := named do
  let attr ← attrScanner
  let comparison ← comparisonScanner
  let digits ← numberScanner
  literal ':'
  let label ← labelScanner
  pure ⟨attr, comparison, digits, label⟩

def rulesScanner : Scanner (RuleForm × List RuleForm) := named do
  let first ← ruleScanner
  let rest ← many (literal ',' *> ruleScanner)
  pure (first, rest)

def workflowScanner : Scanner Record := named do
  let name ← nameScanner
  literal '{'
  let (first, rest) ← rulesScanner
  literal ','
  let label ← labelScanner
  literal '}'
  pure (.workflow name first rest label)

def assignmentScanner : Scanner Assignment := named do
  let attr ← attrScanner
  literal '='
  let digits ← numberScanner
  pure ⟨attr, digits⟩

def ratingScanner : Scanner Record := named do
  literal '{'
  let first ← assignmentScanner
  let rest ← many (literal ',' *> assignmentScanner)
  literal '}'
  pure (.rating first rest)

def scanner : Scanner Record := named (orElse workflowScanner ratingScanner)

/-- The record that a text is, or the place where the text stops being one. -/
def ofChars (text : List Char) : Except Nat Record := readAll scanner text

end Record

def RuleForm.rule? (r : RuleForm) : Option Rule :=
  (Numeral.read? r.digits).map fun value =>
    { attr := String.ofList r.attr
      threshold := ⟨r.comparison, value⟩
      destination := .ofLabel (String.ofList r.label) }

/-- What a record says: a workflow, or nothing that matters for routing. -/
inductive Statement where
  | workflow (w : Workflow)
  | rating

def Record.statement? (span : Option Span) : Record → Option Statement
  | .workflow name first rest default => do
    let first ← first.rule?
    let rest ← rest.mapM RuleForm.rule?
    pure (.workflow ⟨String.ofList name, first, rest, .ofLabel (String.ofList default), span⟩)
  | .rating first rest => do
    let _values ← (first :: rest).mapM fun a => Numeral.read? a.digits
    pure .rating

/-- The column of a place in a text, counted from the last line feed before it. -/
def columnOf (text : List Char) (pos : Nat) : Nat :=
  ((text.take pos).reverse.takeWhile (· ≠ '\n')).length + 1

def Diagnostic.invalidLine (line : String) (pos : Nat) (span : Option Span) : Diagnostic where
  subject := .line line
  message := "cannot parse " ++ Quoted.text line
  span := some
    { line := (span.map (·.line)).getD 1
      column := columnOf line.toList pos
      file := span.bind (·.file) }
  hint := some "expected name\x7battr<N:dest,...,default\x7d or \x7battr=N,...\x7d"

/-- A line is a record with a number that is too long. -/
def Diagnostic.uninterpretableLine (line : String) (span : Option Span) : Diagnostic where
  subject := .line line
  message := "cannot interpret " ++ Quoted.text line
  code := .uninterpretableLine
  span := span

def Statement.ofLine (line : String) (span : Option Span) : Except Fault Statement :=
  match Record.ofChars line.toList with
  | .error pos => .error (.report (.invalidLine line pos span))
  | .ok record =>
    match record.statement? span with
    | none => .error (.report (.uninterpretableLine line span))
    | some statement => .ok statement

end RouteVolume
