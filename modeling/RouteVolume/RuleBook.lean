import RouteVolume.Record
import RouteVolume.Text.Blank

namespace RouteVolume

structure RuleBook where
  entries : List (String × Workflow)
  distinct : (entries.map (·.1)).Nodup

namespace RuleBook

def empty : RuleBook := ⟨[], List.nodup_nil⟩

def keys (b : RuleBook) : List String := b.entries.map (·.1)

def workflows (b : RuleBook) : List Workflow := b.entries.map (·.2)

def get? (b : RuleBook) (key : String) : Option Workflow := b.entries.lookup key

def get (b : RuleBook) (key : String) : Except Fault Workflow :=
  match b.get? key with
  | some w => .ok w
  | none => .error (.missingKey key)

/-- Stores a workflow under a key. A key that is present keeps its place. -/
def putIn (key : String) (w : Workflow) : List (String × Workflow) → List (String × Workflow)
  | [] => [(key, w)]
  | entry :: rest =>
    if entry.1 = key then (key, w) :: rest else entry :: putIn key w rest

theorem keys_putIn (key : String) (w : Workflow) (entries : List (String × Workflow)) :
    (putIn key w entries).map (·.1) =
      if key ∈ entries.map (·.1) then entries.map (·.1) else entries.map (·.1) ++ [key] := by
  induction entries with
  | nil => rfl
  | cons entry rest ih =>
    by_cases same : entry.1 = key
    · simp [putIn, same]
    · simp only [putIn, if_neg same, List.map_cons, ih, List.mem_cons, Ne.symm same, false_or]
      split <;> rfl

theorem nodup_putIn (key : String) (w : Workflow) {entries : List (String × Workflow)}
    (distinct : (entries.map (·.1)).Nodup) : ((putIn key w entries).map (·.1)).Nodup := by
  rw [keys_putIn]
  split
  · exact distinct
  · rename_i fresh
    refine List.nodup_append.mpr ⟨distinct, by simp, fun a old b new => ?_⟩
    rw [List.mem_singleton.mp new]
    rintro rfl
    exact fresh old

def put (b : RuleBook) (key : String) (w : Workflow) : RuleBook :=
  ⟨putIn key w b.entries, nodup_putIn key w b.distinct⟩

/-- The rule book of a sequence of keys and workflows, in which a key may come again. -/
def ofEntries (entries : List (String × Workflow)) : RuleBook :=
  entries.foldl (fun b (key, w) => b.put key w) empty

def define (b : RuleBook) (w : Workflow) : Except Fault RuleBook :=
  if (b.get? w.name).isSome then .error (.report (.duplicateWorkflow w.name w.span))
  else .ok (b.put w.name w)

/-- Adds workflows that are made one by one; the first that cannot be made or added decides. -/
def defineAll (b : RuleBook) : List (Except Fault Workflow) → Except Fault RuleBook
  | [] => .ok b
  | made :: rest => do
    let w ← made
    let b ← b.define w
    b.defineAll rest

def ofWorkflows (made : List (Except Fault Workflow)) : Except Fault RuleBook :=
  empty.defineAll made

/-- The entries by code point of their keys. -/
def sortedEntries (b : RuleBook) : List (String × Workflow) :=
  b.entries.mergeSort fun x y => x.1 ≤ y.1

def text (b : RuleBook) : String := "RuleSet(" ++ Quoted.list (b.sortedEntries.map (·.1)) ++ ")"

end RuleBook

/-- What the lines of a rule text say up to the first fault. -/
structure Reading where
  workflows : List Workflow := []
  ratings : Nat := 0
  fault? : Option Fault := none

namespace Reading

def ofLinesFrom (source : Option String) (number : Nat) : List String → Reading
  | [] => {}
  | raw :: rest =>
    let line := Blank.strip raw
    if line.isEmpty then ofLinesFrom source (number + 1) rest
    else
      match Statement.ofLine line (some { line := number, file := source }) with
      | .error fault => { fault? := some fault }
      | .ok statement =>
        let reading := ofLinesFrom source (number + 1) rest
        match statement with
        | .rating => { reading with ratings := reading.ratings + 1 }
        | .workflow w => { reading with workflows := w :: reading.workflows }

def ofLines (source : Option String) (lines : List String) : Reading := ofLinesFrom source 1 lines

/-- The workflows in order, and the fault behind them. -/
def made (r : Reading) : List (Except Fault Workflow) :=
  r.workflows.map .ok ++ (r.fault?.map .error).toList

def ruleBook (r : Reading) : Except Fault RuleBook := RuleBook.ofWorkflows r.made

end Reading

def RuleBook.ofText (text : String) (source : Option String) : Except Fault RuleBook :=
  (Reading.ofLines source (Blank.lines text)).ruleBook

end RouteVolume
