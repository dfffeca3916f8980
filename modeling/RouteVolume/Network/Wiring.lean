import RouteVolume.Network
import RouteVolume.RuleBook
import RouteVolume.Settings

namespace RouteVolume

/-- A network with the number of the first node of each workflow. -/
structure Wiring where
  network : Network
  entries : List (String × Nat)
  deriving DecidableEq, Repr

namespace Wiring

/-- Reports the first rule, by key and position, that tests an attribute not in the settings. -/
def checkAttrs (settings : Settings) (entries : List (String × Workflow)) : Except Fault Unit :=
  entries.forM fun (key, w) => w.rules.forM fun r =>
    if r.attr ∈ settings.attrs then pure ()
    else throw (.report (.unknownAttribute key r.attr settings.attrs w.span))

def placeEntries (wiring : Wiring) : List (String × Workflow) → Except Fault Wiring
  | [] => .ok wiring
  | (key, w) :: rest => do
    let (network, number) ← wiring.network.addNode (.ofRule w.first key 0)
    placeEntries ⟨network, wiring.entries ++ [(key, number)]⟩ rest

def entry (entries : List (String × Nat)) (key : String) : Except Fault Nat :=
  match entries.lookup key with
  | some number => .ok number
  | none => .error (.missingKey key)

def resolve (entries : List (String × Nat)) (w : Workflow) : Destination → Except Fault Nat
  | .accept => .ok Network.accept
  | .reject => .ok Network.reject
  | .workflow name =>
    match entries.lookup name with
    | some number => .ok number
    | none => .error (.report (.unknownDestination name (some w.name) w.span))

/-- Chains rules behind the node `previous`; the first of them has the given position. -/
def chain (entries : List (String × Nat)) (w : Workflow) (g : Network) (previous position : Nat) :
    List Rule → Except Fault Network
  | [] => do
    let failed ← resolve entries w w.default
    g.connect failed previous .fail
  | r :: rest => do
    let (g, number) ← g.addNode (.ofRule r w.name position)
    let g ← g.connect number previous .fail
    let passed ← resolve entries w r.destination
    let g ← g.connect passed number .pass
    chain entries w g number (position + 1) rest

def wire (entries : List (String × Nat)) (g : Network) (w : Workflow) : Except Fault Network := do
  let first ← entry entries w.name
  let passed ← resolve entries w w.first.destination
  let g ← g.connect passed first .pass
  chain entries w g first 1 w.rest

/-- Builds and freezes the network of a rule book under settings. -/
def ofRuleBook (book : RuleBook) (settings : Settings) : Except Fault Wiring := do
  settings.check
  let workflows := book.sortedEntries
  checkAttrs settings workflows
  if (book.get? settings.start).isNone then
    throw (.report (.unknownDestination settings.start none none))
  let ⟨network, entries⟩ ← placeEntries ⟨.empty, []⟩ workflows
  let network ← workflows.foldlM (fun g (_, w) => wire entries g w) network
  let first ← entry entries settings.start
  let network ← network.connect first Network.start .entry
  network.validate
  pure ⟨network.freeze, entries⟩

end Wiring

end RouteVolume
