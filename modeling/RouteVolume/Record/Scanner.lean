namespace RouteVolume

/-- Where a scanner stands: the characters left, how many were read, and the mark. -/
structure Cursor where
  rest : List Char
  pos : Nat := 0
  mark : Option Nat := none
  deriving DecidableEq, Repr

/-- A value with the cursor behind it, or nothing but the mark. -/
inductive Scan (α : Type) where
  | found (value : α) (cursor : Cursor)
  | missing (mark : Option Nat)

def Scanner (α : Type) : Type := Cursor → Scan α

namespace Scanner

variable {α β : Type}

instance : Monad Scanner where
  pure a := fun c => .found a c
  bind s f := fun c =>
    match s c with
    | .found a c => f a c
    | .missing mark => .missing mark

def literal (ch : Char) : Scanner Unit := fun c =>
  match c.rest with
  | next :: rest =>
    if next = ch then .found () { c with rest := rest, pos := c.pos + 1 }
    else .missing (c.mark.or (some c.pos))
  | [] => .missing (c.mark.or (some c.pos))

def run (cls : Char → Bool) : Scanner (List Char) := fun c =>
  let chars := c.rest.takeWhile cls
  if chars.isEmpty then .missing (c.mark.or (some c.pos))
  else .found chars { c with rest := c.rest.dropWhile cls, pos := c.pos + chars.length }

/-- A piece with a name: where it is missing, its own beginning may become the mark. -/
def named (s : Scanner α) : Scanner α := fun c =>
  match s c with
  | .found a after => .found a after
  | .missing mark => .missing (some (max c.pos (mark.getD 0)))

def orElse (s t : Scanner α) : Scanner α := fun c =>
  match s c with
  | .found a after => .found a after
  | .missing mark => t { c with mark := mark }

def manyFrom (s : Scanner α) (c : Cursor) : List α × Cursor :=
  match s c with
  | .missing mark => ([], { c with mark := mark })
  | .found a after =>
    if after.rest.length < c.rest.length then
      let (more, last) := manyFrom s after
      (a :: more, last)
    else ([], c)
termination_by c.rest.length

/-- As many pieces as there are, each of which must take something. -/
def many (s : Scanner α) : Scanner (List α) := fun c =>
  let (items, last) := manyFrom s c
  .found items last

/-- Reads a whole text; otherwise gives the place of the fault, which is the mark if the piece is
missing and the end of the piece if more text follows it. -/
def readAll (s : Scanner α) (text : List Char) : Except Nat α :=
  match s { rest := text } with
  | .found a c => if c.rest.isEmpty then .ok a else .error c.pos
  | .missing mark => .error (mark.getD 0)

end Scanner

end RouteVolume
