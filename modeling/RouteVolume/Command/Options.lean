import RouteVolume.Report

namespace RouteVolume

inductive Command where
  | count
  | regions
  | graph
  deriving DecidableEq, Repr

namespace Command

def word : Command → String
  | .count => "count"
  | .regions => "regions"
  | .graph => "graph"

def all : List Command := [.count, .regions, .graph]

def ofWord? (word : String) : Option Command := all.find? (·.word = word)

end Command

/-- The rules by which arguments are read differ between releases. By the early ones, two dashes that
are attached to an option are no value and leave the option blank, and an argument with several short
options holds nothing else. By the late ones, two dashes are a value like others, and what follows
the short options is left over. -/
inductive Release where
  | early
  | late
  deriving DecidableEq, Repr

/-- The value of an option; by the early rules it may be blank. -/
inductive Given (α : Type) where
  | value (a : α)
  | blank
  deriving DecidableEq, Repr

def Given.value? {α : Type} : Given α → Option α
  | .value a => some a
  | .blank => none

structure Options where
  verbosity : Nat := 0
  plain : Bool := false
  command : Option Command := none
  file : Option String := none
  attrs : Option String := none
  least : Option (Given Int) := none
  greatest : Option (Given Int) := none
  start : Option String := none
  time : Bool := false
  layout : Given Report.Layout := .value .text
  deriving DecidableEq, Repr

inductive Effect where
  | help
  | version
  | verbose
  | plain
  | attrs
  | least
  | greatest
  | start
  | time
  | layout
  deriving DecidableEq, Repr

def Effect.takesValue : Effect → Bool
  | .attrs | .least | .greatest | .start | .layout => true
  | _ => false

structure Switch where
  names : List String
  effect : Effect
  deriving DecidableEq, Repr

def Switch.text (s : Switch) : String := "/".intercalate s.names

inductive Level where
  | program
  | command (c : Command)
  deriving DecidableEq, Repr

namespace Level

def text : Level → String
  | .program => "rulegraph"
  | .command c => "rulegraph " ++ c.word

def shared : List Switch :=
  [⟨["-h", "--help"], .help⟩, ⟨["--attributes"], .attrs⟩, ⟨["--domain-min"], .least⟩,
    ⟨["--domain-max"], .greatest⟩, ⟨["--start"], .start⟩]

/-- The options of a level, in the order in which messages list them. -/
def switches : Level → List Switch
  | .program =>
    [⟨["-h", "--help"], .help⟩, ⟨["--version"], .version⟩, ⟨["-v", "--verbose"], .verbose⟩,
      ⟨["--no-color"], .plain⟩]
  | .command .count => shared ++ [⟨["-t", "--time"], .time⟩]
  | .command .regions => shared ++ [⟨["-f", "--format"], .layout⟩]
  | .command .graph => shared

def spellings (l : Level) : List (Switch × String) :=
  l.switches.flatMap fun s => s.names.map fun name => (s, name)

def find? (l : Level) (name : String) : Option Switch :=
  (l.spellings.find? fun (_, other) => other = name).map (·.1)

end Level

end RouteVolume
