import RouteVolume.Command.Help
import RouteVolume.Files
import RouteVolume.Survey

namespace RouteVolume

inductive Severity where
  | debug
  | info
  | error
  deriving DecidableEq, Repr

def Severity.text : Severity → String
  | .debug => "DEBUG"
  | .info => "INFO "
  | .error => "ERROR"

def Severity.verbosity : Severity → Nat
  | .debug => 2
  | .info => 1
  | .error => 0

structure Event where
  severity : Severity
  origin : String
  message : String
  deriving DecidableEq, Repr

def Event.pieces (e : Event) : List Piece :=
  [.clock, .text (" [" ++ e.severity.text ++ "] " ++ e.origin ++ ": " ++ e.message ++ "\n")]

namespace Event

def log (verbosity : Nat) (events : List Event) : List Piece :=
  (events.filter fun e => e.severity.verbosity ≤ verbosity).flatMap pieces

def ofReading (r : Reading) (file : String) : List Event :=
  (if r.ratings = 0 then []
    else [⟨.debug, "rulegraph.grammar", "skipped " ++ toString r.ratings ++ " rating records"⟩]) ++
  [⟨.info, "rulegraph.grammar",
    "parsed " ++ toString r.workflows.length ++ " workflows from " ++ file⟩]

def ofWiring (w : Wiring) : Event :=
  ⟨.debug, "rulegraph.graph", "built rule graph: " ++ toString w.entries.length ++ " workflows, " ++
    toString w.network.size ++ " nodes, " ++ toString w.network.edges.size ++ " edges"⟩

def ofPruning (p : Pruning) : Option Event :=
  p.box.text.toOption.map fun box =>
    ⟨.debug, "rulegraph.walker", "pruned infeasible branch at " ++ p.label ++ ": " ++ box⟩

def ofWalk (w : Walk) : List Event :=
  let t := w.tally
  w.prunings.reverse.filterMap ofPruning ++
    if w.fault?.isSome then []
    else
      [⟨.debug, "rulegraph.walker", "walk finished: " ++ toString t.launched ++ " launched, " ++
        toString t.steps ++ " steps, " ++ toString t.emitted ++ " regions, " ++
        toString t.pruned ++ " pruned"⟩]

def ofSurvey (s : Survey) : List Event :=
  match Numeral.write? s.volume with
  | none => []
  | some volume =>
    let live := (Cover.live s.regions).length
    (if live = 0 then []
      else [⟨.debug, "rulegraph.volume",
        "union volume of " ++ toString live ++ " regions: " ++ volume⟩]) ++
    [⟨.info, "rulegraph.analysis", toString s.regions.length ++ " accepting regions (" ++
      toString s.walk.tally.pruned ++ " pruned), " ++ volume ++ " accepted combinations"⟩]

end Event

/-- How a run ends: with a code, with a code out of the reading of arguments, or with a fault that
has no report, of the program or of its file. -/
inductive Finish where
  | code (n : Nat)
  | early (n : Nat)
  | fault (f : Fault)
  | file (path : String) (fault : FileFault)
  deriving DecidableEq, Repr

structure Outcome where
  out : List Piece := []
  err : List Piece := []
  finish : Finish

/-- What a run makes of a fault of its file. A home that is not known and a refused look-up are not
caught, unless the latter means that nothing is there. -/
inductive Handling where
  | absent
  | unread
  | uncaught
  deriving DecidableEq, Repr

def FileFault.handling : FileFault → Handling
  | .homeless | .zeroByteUser => .uncaught
  | .zeroByte | .irregular => .absent
  | .lookUp refusal => if refusal.isAbsence then .absent else .uncaught
  | .opening _ => .unread

namespace Session

structure Context where
  options : Options
  colour : Bool

def withoutFile (message : String) : Outcome :=
  { err := Event.log 0 [⟨.error, "rulegraph", message⟩], finish := .code 2 }

def sourceLines (path : Path) (content : Content) : Except Outcome (List String) :=
  let unreadable (problem : String) : Outcome :=
    withoutFile ("cannot read rule file " ++ path.text ++ ": " ++ problem)
  match content with
  | .error fault =>
    match fault.handling with
    | .absent => .error (withoutFile ("rule file not found: " ++ path.text))
    | .unread => .error (unreadable (fault.message path.text))
    | .uncaught => .error { finish := .file path.text fault }
  | .ok bytes =>
    match textOfBytes bytes with
    | .error malformed => .error (unreadable malformed.message)
    | .ok text => .ok (Blank.lines text)

/-- What the lines of a file say, put together to one text again. -/
def reading (file : String) (source : List String) : Reading :=
  Reading.ofLines (some file) (Blank.lines ("\n".intercalate source))

def attrsOf (list : String) : List String :=
  ((list.splitOn ",").map Blank.strip).filter fun attr => !attr.isEmpty

def isBoundless (o : Options) : Bool := o.least = some .blank && o.greatest = some .blank

/-- The settings that are asked for. The early rules for arguments can leave an end of the domain blank.
One end alone cannot be; where both are, the settings hold the usual ends in their place. -/
def settings (o : Options) : Except Fault Settings :=
  match isBoundless o, o.least, o.greatest with
  | false, some .blank, _ => .error (.blankEnd '>' true)
  | false, _, some .blank => .error (.blankEnd '>' false)
  | _, least, greatest =>
    Settings.ofOptions (o.attrs.map attrsOf) (least.bind Given.value?)
      (greatest.bind Given.value?) o.start

def blankComparison (t : Threshold) : Passage → Fault
  | .pass => .blankEnd t.comparison.symbol false
  | .fail => .blankEnd (if t.comparison = .below then '>' else '<') false
  | .entry => .entryPassage

/-- Why there is no walk over a domain without ends, unless it never comes to a condition. -/
def boundlessFault? (g : Network) : Option Fault := do
  let edges ← (g.edgesFrom Network.accept).toOption
  let edge ← edges.getLast?
  match ← (g.node edge.target).toOption with
  | .condition _ threshold _ _ => some (blankComparison threshold edge.passage)
  | _ => none

def walk (o : Options) (g : Network) (s : Settings) : Walk :=
  match if isBoundless o then boundlessFault? g else none with
  | some fault => ({} : Walk).stop fault
  | none => g.walk s

def codeOf (d : Diagnostic) : Nat :=
  if d.subject = .settings then 2 else if d.code.isInternal then 3 else 1

def fail (ctx : Context) (source : List String) (events : List Event) (out : List Piece)
    (fault : Fault) : Outcome :=
  let log := Event.log ctx.options.verbosity events
  match fault with
  | .report d =>
    match Report.diagnostic ctx.colour d (if d.subject = .settings then [] else source) with
    | .ok text => { out, err := log ++ [.text text], finish := .code (codeOf d) }
    | .error fault => { out, err := log, finish := .fault fault }
  | fault => { out, err := log, finish := .fault fault }

def finish (ctx : Context) (source : List String) (events : List Event) (w : Written) : Outcome :=
  match w.fault? with
  | none =>
    { out := w.pieces, err := Event.log ctx.options.verbosity events, finish := .code 0 }
  | some fault => fail ctx source events w.pieces fault

def graph (file : String) (w : Wiring) : Written :=
  .ofWhole do
    let drawing ← w.network.drawing (some (Path.ofText file).stem)
    pure [.text (Report.text drawing)]

def count (ctx : Context) (s : Survey) : Written :=
  .ofWhole (Report.count ctx.colour s.volume (if ctx.options.time then some .pending else none))

/-- The accepting regions in order, and in a text how many points they hold, unless the layout is
left blank. -/
def regions (ctx : Context) (s : Survey) : Written :=
  let ordered := Box.sorted s.regions
  let layout := ctx.options.layout.value?.getD .text
  let listing := Report.regions ctx.colour layout ordered
  if ctx.options.layout ≠ .value .text then listing
  else
    listing.followedBy <| .ofWhole do
      let volume ← Numeral.write s.volume
      pure [.text (Report.text ("total: " ++ volume ++ " across " ++
        toString ordered.length ++ " regions"))]

def onRuleBook (ctx : Context) (c : Command) (file : String) (source : List String)
    (events : List Event) (book : RuleBook) : Outcome :=
  match (do let s ← settings ctx.options; pure (s, ← Wiring.ofRuleBook book s)) with
  | .error fault => fail ctx source events [] fault
  | .ok (settings, wiring) =>
    let events := events ++ [Event.ofWiring wiring]
    match c with
    | .graph => finish ctx source events (graph file wiring)
    | c =>
      let walk := walk ctx.options wiring.network settings
      let events := events ++ Event.ofWalk walk
      match Survey.ofWalk settings wiring walk with
      | .error fault => fail ctx source events [] fault
      | .ok survey =>
        let events := events ++ Event.ofSurvey survey
        finish ctx source events (if c = .count then count ctx survey else regions ctx survey)

def onFile (ctx : Context) (c : Command) (file : String) (found : Found) : Outcome :=
  match sourceLines found.path found.content with
  | .error outcome => outcome
  | .ok source =>
    let reading := reading file source
    match reading.ruleBook with
    | .error fault => fail ctx source [] [] fault
    | .ok book => onRuleBook ctx c file source (Event.ofReading reading file) book

def stopped : Stop → Outcome
  | .help l => { out := [.text l.helpText], finish := .early 0 }
  | .version => { out := [.text "rulegraph 0.1.0\n"], finish := .early 0 }
  | .misuse l message =>
    { err := [.text (l.usageText ++ l.text ++ ": error: " ++ message ++ "\n")]
      finish := .early 2 }

/-- A run on a machine, whose rules for arguments are those of a release. -/
def run {m : Type → Type} [Monad m] (machine : Machine m) (release : Release) (colour : Bool)
    (args : List String) : m Outcome :=
  match Arguments.read release args with
  | .error stop => pure (stopped stop)
  | .ok options =>
    match options.command, options.file with
    | some c, some file => do
      let found ← machine.find (Path.ofText file)
      pure (onFile ⟨options, colour && !options.plain⟩ c file found)
    | _, _ => pure { err := [.text (Level.helpText .program)], finish := .code 2 }

end Session

end RouteVolume
