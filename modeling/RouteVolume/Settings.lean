import RouteVolume.Box

namespace RouteVolume

structure Settings where
  attrs : List String := ["x", "m", "a", "s"]
  least : Int := 1
  greatest : Int := 4000
  start : String := "in"
  deriving DecidableEq, Repr

namespace Settings

inductive Problem where
  | noAttribute
  | repeatedAttribute (attrs : List String)
  | emptyDomain (least greatest : Int)
  | noStart
  deriving DecidableEq, Repr

def Problem.text : Problem → Except Fault String
  | .noAttribute => .ok "at least one attribute is required"
  | .repeatedAttribute attrs => .ok ("duplicate attribute names in " ++ Quoted.tuple attrs)
  | .emptyDomain least greatest => do
    let least ← Numeral.write least
    let greatest ← Numeral.write greatest
    pure ("domain_min (" ++ least ++ ") exceeds domain_max (" ++ greatest ++ ")")
  | .noStart => .ok "start_workflow must not be empty"

def problems (s : Settings) : List Problem :=
  (if s.attrs.isEmpty then [.noAttribute] else []) ++
  (if s.attrs.Nodup then [] else [.repeatedAttribute s.attrs]) ++
  (if s.greatest < s.least then [.emptyDomain s.least s.greatest] else []) ++
  (if s.start.isEmpty then [.noStart] else [])

def problemTexts (s : Settings) : Except Fault (List String) := s.problems.mapM Problem.text

def check (s : Settings) : Except Fault Unit := do
  let texts ← s.problemTexts
  if texts.isEmpty then pure () else throw (.report (.invalidSettings texts))

/-- The settings with the given parts. No attributes at all, like an empty start, mean the ones
that are used when nothing is said. -/
def ofOptions (attrs : Option (List String)) (least greatest : Option Int)
    (start : Option String) : Except Fault Settings := do
  let usual : Settings := {}
  let settings : Settings :=
    { attrs := (attrs.filter (!·.isEmpty)).getD usual.attrs
      least := least.getD usual.least
      greatest := greatest.getD usual.greatest
      start := (start.filter (!·.isEmpty)).getD usual.start }
  settings.check
  pure settings

def dimensions (s : Settings) : Nat := s.attrs.length

/-- The number of values of an attribute; it is not positive where the domain is empty. -/
def domainSize (s : Settings) : Int := s.greatest - s.least + 1

def domain (s : Settings) : Box := .full s.attrs s.least s.greatest

def space (s : Settings) : Int := Int.pow s.domainSize s.dimensions

end Settings

end RouteVolume
