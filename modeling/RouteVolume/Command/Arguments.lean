import RouteVolume.Command.Options

namespace RouteVolume

inductive Stop where
  | help (l : Level)
  | version
  | misuse (l : Level) (message : String)
  deriving DecidableEq, Repr

namespace Arguments

/-- What is written behind an option in the same argument, perhaps with an equals sign between. -/
structure Attached where
  text : List Char
  equals : Bool
  deriving DecidableEq, Repr

inductive Role where
  | value
  | mark
  | unknown
  | option (s : Switch) (name : String) (attached : Option Attached)
  deriving DecidableEq, Repr

def refuse {α : Type} (l : Level) (what problem : String) : Except Stop α :=
  .error (.misuse l ("argument " ++ what ++ ": " ++ problem))

def cut (arg : List Char) : String × Option Attached :=
  let name := String.ofList (arg.takeWhile (· ≠ '='))
  match arg.dropWhile (· ≠ '=') with
  | [] => (name, none)
  | _ :: rest => (name, some ⟨rest, true⟩)

/-- The options that an argument may stand for without being spelled out. -/
def candidates (l : Level) (arg : List Char) : List (Switch × String × Option Attached) :=
  match arg with
  | '-' :: '-' :: _ =>
    let (name, attached) := cut arg
    l.spellings.filterMap fun (s, other) =>
      if name.toList.isPrefixOf other.toList then some (s, other, attached) else none
  | _ =>
    l.spellings.filterMap fun (s, other) =>
      if other.toList = arg.take 2 then some (s, other, some ⟨arg.drop 2, false⟩)
      else if arg.isPrefixOf other.toList then some (s, other, none)
      else none

/-- Is the text a dash with digits, or with a point and digits behind it? One line feed may end
it. -/
def isNegative (arg : List Char) : Bool :=
  match arg with
  | '-' :: rest =>
    let number := if rest.getLast? = some '\n' then rest.dropLast else rest
    let isDigit (c : Char) : Bool := (Digit.value? c).isSome
    match number.dropWhile isDigit with
    | [] => !number.isEmpty
    | '.' :: places => !places.isEmpty && places.all isDigit
    | _ => false
  | _ => false

def roleOf (l : Level) (arg : String) : Except Stop Role :=
  let chars := arg.toList
  if chars.head? ≠ some '-' || chars.length = 1 then .ok .value
  else
    match l.find? arg with
    | some s => .ok (.option s arg none)
    | none =>
      let (name, attached) := cut chars
      match attached.bind fun a => (l.find? name).map (·, a) with
      | some (s, a) => .ok (.option s name (some a))
      | none =>
        match candidates l chars with
        | [(s, name, attached)] => .ok (.option s name attached)
        | [] =>
          if isNegative chars || chars.contains ' ' then .ok .value else .ok .unknown
        | several =>
          .error (.misuse l ("ambiguous option: " ++ arg ++ " could match " ++
            ", ".intercalate (several.map fun (_, name, _) => name)))

def rolesOf (l : Level) : List String → Except Stop (List (String × Role))
  | [] => .ok []
  | arg :: rest => do
    if arg = "--" then pure ((arg, .mark) :: rest.map fun value => (value, .value))
    else
      let role ← roleOf l arg
      let roles ← rolesOf l rest
      pure ((arg, role) :: roles)

/-- The options written in one argument, each with its value if it takes one, an option that still
waits for its value, and what else the argument holds. -/
structure Bundle where
  done : List (Switch × String) := []
  waiting : Option Switch := none
  left : Option String := none

def Bundle.bare (b : Bundle) (s : Switch) : Bundle :=
  if s.effect.takesValue then { b with waiting := some s }
  else { b with done := b.done ++ [(s, "")] }

def unbundle (r : Release) (l : Level) (b : Bundle) (s : Switch) (long equals : Bool) :
    List Char → Except Stop Bundle
  | [] =>
    if s.effect.takesValue then .ok { b with done := b.done ++ [(s, "")] }
    else refuse l s.text ("ignored explicit argument " ++ Quoted.text "")
  | c :: more =>
    let attached := String.ofList (c :: more)
    let refused := refuse l s.text ("ignored explicit argument " ++ Quoted.text attached)
    if s.effect.takesValue then .ok { b with done := b.done ++ [(s, attached)] }
    else if long || r = .late && (equals || c = '-') then refused
    else
      match l.find? (String.ofList ['-', c]), more, r with
      | none, _, .early => refused
      | none, _, .late => .ok { b.bare s with left := some ("-" ++ attached) }
      | some next, [], _ => .ok ((b.bare s).bare next)
      | some next, '=' :: rest, .late => unbundle r l (b.bare s) next false true rest
      | some next, more, _ => unbundle r l (b.bare s) next false false more
termination_by cs => cs.length

def bundleOf (r : Release) (l : Level) (s : Switch) (name : String) :
    Option Attached → Except Stop Bundle
  | none => .ok (({} : Bundle).bare s)
  | some attached => unbundle r l {} s ("--".isPrefixOf name) attached.equals attached.text

def refuseChoice {α : Type} (l : Level) (what value : String) (choices : List String) :
    Except Stop α :=
  refuse l what ("invalid choice: " ++ Quoted.text value ++ " (choose from " ++
    ", ".intercalate (choices.map Quoted.text) ++ ")")

def integer (l : Level) (s : Switch) (value : String) : Except Stop Int :=
  match Integer.read? value with
  | some n => .ok n
  | none => refuse l s.text ("invalid int value: " ++ Quoted.text value)

def perform (l : Level) (o : Options) (s : Switch) (value : String) : Except Stop Options :=
  match s.effect with
  | .help => .error (.help l)
  | .version => .error .version
  | .verbose => .ok { o with verbosity := o.verbosity + 1 }
  | .plain => .ok { o with plain := true }
  | .attrs => .ok { o with attrs := some value }
  | .least => (integer l s value).map fun n => { o with least := some (.value n) }
  | .greatest => (integer l s value).map fun n => { o with greatest := some (.value n) }
  | .start => .ok { o with start := some value }
  | .time => .ok { o with time := true }
  | .layout =>
    if value = "text" then .ok { o with layout := .value .text }
    else if value = "json" then .ok { o with layout := .value .json }
    else refuseChoice l s.text value ["text", "json"]

/-- Leaves the value of an option blank. Blank attributes, like a blank start, are those that are
used when nothing is said. -/
def clear (o : Options) (s : Switch) : Options :=
  match s.effect with
  | .attrs => { o with attrs := none }
  | .least => { o with least := some .blank }
  | .greatest => { o with greatest := some .blank }
  | .start => { o with start := none }
  | .layout => { o with layout := .blank }
  | _ => o

def performAll (r : Release) (l : Level) (o : Options) (done : List (Switch × String)) :
    Except Stop Options :=
  done.foldlM (fun o (s, value) =>
    if r = .early && value = "--" then pure (clear o s) else perform l o s value) o

structure Taken where
  options : Options
  left : List String

def Taken.leave (t : Taken) (arg : String) : Taken := { t with left := t.left ++ [arg] }

def firstValue? : List (String × Role) → Option String
  | (value, .value) :: _ => some value
  | _ => none

/-- Carries out the options of one argument, the last of which may take the value that stands
next; says whether it did. -/
def takeOption (r : Release) (l : Level) (t : Taken) (s : Switch) (name : String)
    (attached : Option Attached) (next : Option String) : Except Stop (Taken × Bool) := do
  let bundle ← bundleOf r l s name attached
  match bundle.waiting, next with
  | none, _ => do
    let options ← performAll r l t.options bundle.done
    pure ({ options, left := t.left ++ bundle.left.toList }, false)
  | some waiting, some value => do
    let options ← performAll r l t.options (bundle.done ++ [(waiting, value)])
    pure ({ t with options }, true)
  | some waiting, none => refuse l waiting.text "expected one argument"

/-- Carries out the arguments behind a command. The first value is the file; a mark next to it
goes with it. -/
def takeFile (r : Release) (l : Level) (t : Taken) : List (String × Role) → Except Stop Taken
  | [] =>
    if t.options.file.isSome then .ok t
    else .error (.misuse l "the following arguments are required: file")
  | (arg, .unknown) :: rest => takeFile r l (t.leave arg) rest
  | (_, .option s name attached) :: rest => do
    let (t, took) ← takeOption r l t s name attached (firstValue? rest)
    takeFile r l t (rest.drop took.toNat)
  | (arg, .value) :: rest =>
    if t.options.file.isSome then takeFile r l (t.leave arg) rest
    else
      let t := { t with options.file := some arg }
      match rest with
      | (_, .mark) :: rest => takeFile r l t rest
      | rest => takeFile r l t rest
  | (mark, .mark) :: rest =>
    match t.options.file, firstValue? rest with
    | none, some value => takeFile r l { t with options.file := some value } (rest.drop 1)
    | _, _ => takeFile r l (t.leave mark) rest
termination_by args => args.length

def commandText : String := "\x7b" ++ ",".intercalate (Command.all.map Command.word) ++ "\x7d"

def takeCommand (r : Release) (t : Taken) (word : String) (behind : List String) : Except Stop Taken :=
  match Command.ofWord? word with
  | none => refuseChoice .program commandText word (Command.all.map Command.word)
  | some c => do
    let roles ← rolesOf (.command c) behind
    takeFile r (.command c) { t with options.command := some c } roles

/-- Carries out the arguments of the program. The first value is the command. -/
def takeProgram (r : Release) (t : Taken) : List (String × Role) → Except Stop Taken
  | [] => .ok t
  | (arg, .unknown) :: rest => takeProgram r (t.leave arg) rest
  | (_, .option s name attached) :: rest => do
    let (t, took) ← takeOption r .program t s name attached (firstValue? rest)
    takeProgram r t (rest.drop took.toNat)
  | (arg, .value) :: rest => takeCommand r t arg (rest.map (·.1))
  | [(mark, .mark)] => .ok (t.leave mark)
  | (mark, .mark) :: rest => takeCommand r t mark (rest.map (·.1))
termination_by args => args.length

def read (r : Release) (args : List String) : Except Stop Options := do
  let roles ← rolesOf .program args
  let taken ← takeProgram r ⟨{}, []⟩ roles
  if taken.left.isEmpty then pure taken.options
  else
    .error (.misuse .program ("unrecognized arguments: " ++ " ".intercalate taken.left))

end Arguments

end RouteVolume
