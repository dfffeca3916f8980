namespace RouteVolume.Blank

def isWide (c : Char) : Bool :=
  c = '\u0085' || c = '\u00a0' || c = '\u1680' || ('\u2000' ≤ c && c ≤ '\u200a') ||
    c = '\u2028' || c = '\u2029' || c = '\u202f' || c = '\u205f' || c = '\u3000'

def isSpace (c : Char) : Bool :=
  ('\t' ≤ c && c ≤ '\x0d') || c = ' ' || isWide c

def isBlank (c : Char) : Bool :=
  isSpace c || ('\x1c' ≤ c && c ≤ '\x1f')

def isBreak (c : Char) : Bool :=
  ('\n' ≤ c && c ≤ '\x0d') || ('\x1c' ≤ c && c ≤ '\x1e') || c = '\u0085' || c = '\u2028' ||
    c = '\u2029'

def trim (cls : Char → Bool) (cs : List Char) : List Char :=
  ((cs.dropWhile cls).reverse.dropWhile cls).reverse

def strip (s : String) : String := String.ofList (trim isBlank s.toList)

/-- The lines of a text, where `line` holds the characters since the last break, newest first.
A carriage return and a line feed together are one break, and no line follows the last one. -/
def linesFrom (line : List Char) : List Char → List (List Char)
  | [] => if line.isEmpty then [] else [line.reverse]
  | '\x0d' :: '\n' :: rest => line.reverse :: linesFrom [] rest
  | c :: rest =>
    if isBreak c then line.reverse :: linesFrom [] rest else linesFrom (c :: line) rest

def lines (s : String) : List String := (linesFrom [] s.toList).map String.ofList

/-- Every line end that holds a carriage return becomes a line feed; `done` holds what comes
before, newest first. -/
def plainBreaksFrom (done : List Char) : List Char → List Char
  | [] => done.reverse
  | '\x0d' :: '\n' :: rest => plainBreaksFrom ('\n' :: done) rest
  | c :: rest => plainBreaksFrom ((if c = '\x0d' then '\n' else c) :: done) rest

def plainBreaks (cs : List Char) : List Char := plainBreaksFrom [] cs

end RouteVolume.Blank
