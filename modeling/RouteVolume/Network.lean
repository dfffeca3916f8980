import RouteVolume.Box
import RouteVolume.Place
import RouteVolume.Workflow

namespace RouteVolume

inductive NodeKind where
  | condition
  | accept
  | reject
  | start
  deriving DecidableEq, Repr

namespace NodeKind

def word : NodeKind → String
  | .condition => "condition"
  | .accept => "accept"
  | .reject => "reject"
  | .start => "start"

def ofWord (word : String) : Except Fault NodeKind :=
  if word = "condition" then .ok .condition
  else if word = "accept" then .ok .accept
  else if word = "reject" then .ok .reject
  else if word = "start" then .ok .start
  else .error (.unknownWord word .nodeKind)

end NodeKind

/-- A test of an attribute, with the workflow and the position of the rule it comes from; or a
condition that has not been given a test; or one of the ends; or the start. -/
inductive Node where
  | condition (attr : String) (threshold : Threshold) (workflow : String) (position : Int)
  | blank
  | accept
  | reject
  | start
  deriving DecidableEq, Repr

namespace Node

def ofRule (r : Rule) (workflow : String) (position : Int) : Node :=
  .condition r.attr r.threshold workflow position

def kind : Node → NodeKind
  | .condition .. | .blank => .condition
  | .accept => .accept
  | .reject => .reject
  | .start => .start

def ofKind : NodeKind → Node
  | .condition => .blank
  | .accept => .accept
  | .reject => .reject
  | .start => .start

def isTerminal : Node → Bool
  | .accept | .reject => true
  | _ => false

def label : Node → Except Fault String
  | .condition attr threshold workflow position => do
    let number ← Numeral.write position
    let test ← threshold.text
    pure (workflow ++ "#" ++ number ++ ": " ++ attr ++ test)
  | .blank => .ok "None#None: NoneNone"
  | .accept => .ok "Accept"
  | .reject => .ok "Reject"
  | .start => .ok "Start"

def narrow (n : Node) (b : Box) (p : Passage) : Except Fault Box :=
  match n with
  | .condition attr threshold _ _ => b.narrow attr threshold p
  | _ => .error .noTest

end Node

/-- An edge runs from the node that a rule leads to back to the node of the rule, so that a walk from
Accept goes through accepting evaluations backwards. -/
structure Edge where
  source : Int
  target : Int
  passage : Passage
  deriving DecidableEq, Repr

/-- A node together with the numbers of the edges that leave and enter it, oldest first. -/
structure Slot where
  node : Node
  leaving : List Nat := []
  entering : List Nat := []
  deriving DecidableEq, Repr

structure Network where
  slots : Array Slot
  edges : Array Edge
  frozen : Bool
  deriving DecidableEq, Repr

namespace Network

def reject : Nat := 0

def accept : Nat := 1

def start : Nat := 2

def empty : Network where
  slots := #[{ node := .reject }, { node := .accept }, { node := .start }]
  edges := #[]
  frozen := false

def size (g : Network) : Nat := g.slots.size

def nodes (g : Network) : List Node := g.slots.toList.map (·.node)

def freeze (g : Network) : Network := { g with frozen := true }

def addNode (g : Network) (node : Node) : Except Fault (Network × Nat) :=
  if g.frozen then .error (.report .frozen)
  else .ok ({ g with slots := g.slots.push { node := node } }, g.size)

/-- Adds an edge. Where the source exists and the target does not, the number of the edge stays
listed at the source; that number belongs to the next edge that is added. -/
def addEdge (g : Network) (edge : Edge) : Network × Except Fault Edge :=
  if g.frozen then (g, .error (.report .frozen))
  else
    match place g.size edge.source with
    | .error fault => (g, .error fault)
    | .ok source =>
      let number := g.edges.size
      let listed := g.slots.modify source fun s => { s with leaving := s.leaving ++ [number] }
      match place g.size edge.target with
      | .error fault => ({ g with slots := listed }, .error fault)
      | .ok target =>
        let linked := listed.modify target fun s => { s with entering := s.entering ++ [number] }
        ({ g with slots := linked, edges := g.edges.push edge }, .ok edge)

def connect (g : Network) (source target : Nat) (passage : Passage) : Except Fault Network :=
  match g.addEdge ⟨source, target, passage⟩ with
  | (linked, .ok _) => .ok linked
  | (_, .error fault) => .error fault

def slot (g : Network) (k : Int) : Except Fault Slot := do
  let j ← place g.size k
  match g.slots[j]? with
  | some s => pure s
  | none => throw .missingIndex

def node (g : Network) (k : Int) : Except Fault Node := (g.slot k).map (·.node)

def edge (g : Network) (e : Nat) : Except Fault Edge :=
  match g.edges[e]? with
  | some edge => .ok edge
  | none => .error .missingIndex

def edgesFrom (g : Network) (k : Int) : Except Fault (List Edge) := do
  let s ← g.slot k
  s.leaving.mapM g.edge

def edgesInto (g : Network) (k : Int) : Except Fault (List Edge) := do
  let s ← g.slot k
  s.entering.mapM g.edge

def degrees (g : Network) (k : Int) : Except Fault (Nat × Nat) :=
  (g.slot k).map fun s => (s.leaving.length, s.entering.length)

def text (g : Network) : String :=
  "RuleGraph(nodes=" ++ toString g.size ++ ", edges=" ++ toString g.edges.size ++ ")"

def passages (edges : List Edge) (p : Passage) : Nat := edges.countP fun e => e.passage = p

/-- Reports the first thing that is wrong with the edges of a node. -/
def checkSlot (g : Network) (s : Slot) : Except Fault Unit := do
  let entering ← s.entering.mapM g.edge
  match s.node with
  | .condition .. | .blank =>
    let passed := passages entering .pass
    let failed := passages entering .fail
    if passed ≠ 1 || failed ≠ 1 || passages entering .entry ≠ 0 then
      let label ← s.node.label
      throw (.report (.brokenInvariant (label ++ " has " ++ toString passed ++ " pass and " ++
        toString failed ++ " fail edges recorded")))
  | .accept | .reject =>
    if !s.entering.isEmpty then
      let label ← s.node.label
      throw (.report (.brokenInvariant (label ++ " is the target of an edge")))
  | .start =>
    if !s.leaving.isEmpty then
      throw (.report (.brokenInvariant "Start is the source of an edge"))
    if entering.any fun e => e.passage ≠ .entry then
      throw (.report (.brokenInvariant "Start is reached by a non-entry edge"))

def validate (g : Network) : Except Fault Unit := g.slots.toList.forM g.checkSlot

def shape : Node → String
  | .condition .. | .blank => "box"
  | .accept => "doublecircle"
  | .reject => "doubleoctagon"
  | .start => "circle"

def nodeLine (number : Nat) (node : Node) : Except Fault String := do
  let label ← node.label
  pure ("  n" ++ toString number ++ " [label=\"" ++ label ++ "\", shape=" ++ shape node ++ "];")

def edgeLine (e : Edge) : String :=
  "  n" ++ toString e.target ++ " -> n" ++ toString e.source ++ " [label=\"" ++
    e.passage.word ++ "\"];"

def drawingLines (g : Network) (title : Option String) : Except Fault (List String) := do
  let title := title.getD ""
  let head := "digraph \"" ++ (if title.isEmpty then "rules" else title) ++ "\" \x7b"
  let nodes ← g.nodes.zipIdx.mapM fun (node, number) => nodeLine number node
  pure (head :: "  rankdir=LR;" :: nodes ++ g.edges.toList.map edgeLine ++ ["\x7d"])

def drawing (g : Network) (title : Option String) : Except Fault String :=
  (g.drawingLines title).map ("\n".intercalate ·)

end Network

end RouteVolume
