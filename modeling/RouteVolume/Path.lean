namespace RouteVolume

/-- The root from which a path begins, if any, and its components. -/
structure Path where
  root : String
  components : List String
  deriving DecidableEq, Repr

namespace Path

def split (cs : List Char) : List (List Char) :=
  cs.foldr (fun c pieces =>
    match pieces with
    | [] => if c = '/' then [[], []] else [[c]]
    | piece :: rest => if c = '/' then [] :: piece :: rest else (c :: piece) :: rest) [[]]

/-- The path that a text denotes. Two slashes in front are a root of their own. Empty components and
single dots say nothing; double dots stay, since what they lead to depends on the folders. -/
def ofText (s : String) : Path :=
  let slashes := (s.toList.takeWhile (· = '/')).length
  let root := if slashes = 0 then "" else if slashes = 2 then "//" else "/"
  let pieces := (split s.toList).map String.ofList
  ⟨root, pieces.filter fun piece => !piece.isEmpty && piece ≠ "."⟩

def text (p : Path) : String :=
  let joined := p.root ++ "/".intercalate p.components
  if joined.isEmpty then "." else joined

def stem (p : Path) : String :=
  let name := (p.components.getLast?.getD "").toList
  let suffix := name.reverse.takeWhile (· ≠ '.')
  let length := name.length - suffix.length - 1
  if suffix.isEmpty || length = 0 || suffix.length = name.length then String.ofList name
  else String.ofList (name.take length)

/-- The user under whose home a path begins, if any; the empty name is one's own. -/
def user? (p : Path) : Option String :=
  match p.components with
  | [] => none
  | first :: _ =>
    match p.root.isEmpty, first.toList with
    | true, '~' :: name => some (String.ofList name)
    | _, _ => none

/-- The path with a home in place of its first component. A home is not itself under a home. -/
def under? (p : Path) (home : String) : Option Path :=
  let folder := (home.toList.reverse.dropWhile (· = '/')).reverse
  if folder.head? = some '~' then none
  else
    let base := if folder.isEmpty then ofText "/" else ofText (String.ofList folder)
    some ⟨base.root, base.components ++ p.components.drop 1⟩

end Path

end RouteVolume
