import RouteVolume.Backtrack
import RouteVolume.Cover
import RouteVolume.Network.Wiring

namespace RouteVolume

structure Survey where
  settings : Settings
  wiring : Wiring
  walk : Walk
  regions : List Box
  volume : Nat

namespace Survey

def ofWalk (settings : Settings) (wiring : Wiring) (walk : Walk) : Except Fault Survey := do
  let regions ← walk.result
  let volume ← Cover.union regions
  pure { settings, wiring, walk, regions, volume }

def ofRuleBook (book : RuleBook) (settings : Settings) : Except Fault Survey := do
  let wiring ← Wiring.ofRuleBook book settings
  ofWalk settings wiring (wiring.network.walk settings)

def naive (s : Survey) : Nat := Cover.naive s.regions

def overlap (s : Survey) : Int := s.naive - s.volume

end Survey

def RuleBook.accepted (book : RuleBook) (settings : Settings) : Except Fault Nat :=
  (Survey.ofRuleBook book settings).map (·.volume)

end RouteVolume
