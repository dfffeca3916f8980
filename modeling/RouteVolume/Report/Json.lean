import RouteVolume.Fault

namespace RouteVolume.Json

/-- A text in the order in which its parts are written; it ends at the first fault. -/
abbrev Parts := List (Except Fault String)

def unit (n : Nat) : List Char := '\\' :: 'u' :: Quoted.hex 4 n

/-- One character of a text. A character beyond the first 65536 takes two units. -/
def escape (c : Char) : List Char :=
  if c = '"' || c = '\\' then ['\\', c]
  else if ' ' ≤ c && c ≤ '~' then [c]
  else if c = '\n' then ['\\', 'n']
  else if c = '\r' then ['\\', 'r']
  else if c = '\t' then ['\\', 't']
  else if c = '\x0c' then ['\\', 'f']
  else if c = '\x08' then ['\\', 'b']
  else if c.toNat < 0x10000 then unit c.toNat
  else
    let above := c.toNat - 0x10000
    unit (0xD800 + above / 0x400) ++ unit (0xDC00 + above % 0x400)

def text (s : String) : String := "\"" ++ String.ofList (s.toList.flatMap escape) ++ "\""

def line (level : Nat) : String := "\n" ++ String.ofList (List.replicate (2 * level) ' ')

def separated (level : Nat) : List Parts → Parts
  | [] => []
  | first :: rest => first ++ rest.flatMap fun item => .ok ("," ++ line level) :: item

/-- Integers, each on a line; the brackets belong to the level around them. A number is written
together with what leads up to it. -/
def integers (level : Nat) : List Int → Parts
  | [] => [.ok "[]"]
  | first :: rest =>
    let item (lead : String) (n : Int) : Except Fault String := (Numeral.write n).map (lead ++ ·)
    item ("[" ++ line (level + 1)) first ::
      rest.map (item ("," ++ line (level + 1))) ++ [.ok (line level), .ok "]"]

def array (level : Nat) (items : List Parts) : Parts :=
  if items.isEmpty then [.ok "[]"]
  else
    .ok ("[" ++ line (level + 1)) :: separated (level + 1) items ++ [.ok (line level), .ok "]"]

def object (level : Nat) (items : List (String × Parts)) : Parts :=
  if items.isEmpty then [.ok "\x7b\x7d"]
  else
    .ok "\x7b" :: .ok (line (level + 1)) ::
      separated (level + 1) (items.map fun (name, item) => .ok (text name) :: .ok ": " :: item) ++
      [.ok (line level), .ok "\x7d"]

end RouteVolume.Json
