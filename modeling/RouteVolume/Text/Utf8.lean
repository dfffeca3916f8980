import RouteVolume.Text.Quoted

namespace RouteVolume.Utf8

inductive Reason where
  | start
  | continuation
  | truncated
  deriving DecidableEq, Repr

structure Malformed where
  first : Nat
  last : Nat
  byte : UInt8
  reason : Reason
  deriving DecidableEq, Repr

def Reason.text : Reason → String
  | .start => "invalid start byte"
  | .continuation => "invalid continuation byte"
  | .truncated => "unexpected end of data"

def Malformed.message (m : Malformed) : String :=
  let what :=
    if m.first = m.last then
      "byte 0x" ++ String.ofList (Quoted.hex 2 m.byte.toNat) ++ " in position " ++ toString m.first
    else "bytes in position " ++ toString m.first ++ "-" ++ toString m.last
  "'utf-8' codec can't decode " ++ what ++ ": " ++ m.reason.text

/-- A character of which some bytes are still to come; the next one lies in `[low, high]`. -/
structure Partial where
  start : Nat
  lead : UInt8
  bits : Nat
  more : Nat
  low : Nat
  high : Nat

/-- What the first byte of a longer character announces. The bounds on the second byte leave out
overlong forms, surrogates and code points beyond the last one. -/
def lead? (pos : Nat) (byte : UInt8) : Option Partial :=
  let b := byte.toNat
  if b < 0xC2 then none
  else if b < 0xE0 then some ⟨pos, byte, b - 0xC0, 1, 0x80, 0xBF⟩
  else if b < 0xF0 then
    some ⟨pos, byte, b - 0xE0, 2, if b = 0xE0 then 0xA0 else 0x80, if b = 0xED then 0x9F else 0xBF⟩
  else if b < 0xF5 then
    some ⟨pos, byte, b - 0xF0, 3, if b = 0xF0 then 0x90 else 0x80, if b = 0xF4 then 0x8F else 0xBF⟩
  else none

/-- Reads bytes from position `pos` on; `done` holds the characters before it, newest first. -/
def decodeFrom (pos : Nat) (pending : Option Partial) (done : List Char) :
    List UInt8 → Except Malformed (List Char)
  | [] =>
    match pending with
    | none => .ok done.reverse
    | some p => .error ⟨p.start, pos - 1, p.lead, .truncated⟩
  | byte :: rest =>
    match pending with
    | none =>
      if byte.toNat < 0x80 then decodeFrom (pos + 1) none (Char.ofNat byte.toNat :: done) rest
      else
        match lead? pos byte with
        | none => .error ⟨pos, pos, byte, .start⟩
        | some p => decodeFrom (pos + 1) (some p) done rest
    | some p =>
      if p.low ≤ byte.toNat && byte.toNat ≤ p.high then
        let bits := p.bits * 64 + (byte.toNat - 0x80)
        if p.more ≤ 1 then decodeFrom (pos + 1) none (Char.ofNat bits :: done) rest
        else
          decodeFrom (pos + 1) (some ⟨p.start, p.lead, bits, p.more - 1, 0x80, 0xBF⟩) done rest
      else .error ⟨p.start, pos - 1, p.lead, .continuation⟩

def decode (bytes : List UInt8) : Except Malformed (List Char) := decodeFrom 0 none [] bytes

end RouteVolume.Utf8
