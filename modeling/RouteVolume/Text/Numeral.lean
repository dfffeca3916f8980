import RouteVolume.Text.Blank

namespace RouteVolume.Numeral

/-- The most digits of a numeral that is written or read. -/
def maxDigits : Nat := 4300

def powerOfTen (k : Nat) : Nat := Nat.pow 10 k

def bound : Nat := powerOfTen maxDigits

def digits (n : Nat) : List Char := Nat.toDigits 10 n

def unlimited (n : Int) : List Char :=
  if n < 0 then '-' :: digits n.natAbs else digits n.natAbs

def write? (n : Int) : Option String :=
  if n.natAbs < bound then some (String.ofList (unlimited n)) else none

def value (ds : List Char) : Nat := Nat.ofDigitChars 10 ds 0

def read? (ds : List Char) : Option Nat :=
  if ds.length ≤ maxDigits then some (value ds) else none

theorem write?_isSome_iff (n : Int) : (write? n).isSome ↔ n.natAbs < bound := by
  by_cases h : n.natAbs < bound <;> simp [write?, h]

theorem read?_isSome_iff (ds : List Char) : (read? ds).isSome ↔ ds.length ≤ maxDigits := by
  by_cases h : ds.length ≤ maxDigits <;> simp [read?, h]

theorem value_digits (n : Nat) : value (digits n) = n :=
  Nat.ofDigitChars_ten_toDigits

theorem isDigit_of_mem_digits {n : Nat} {c : Char} (mem : c ∈ digits n) : c.isDigit :=
  Nat.isDigit_of_mem_toDigits (by decide) (by decide) mem

theorem digits_ne_nil (n : Nat) : digits n ≠ [] :=
  Nat.toDigits_ne_nil

theorem length_digits_le_iff {k : Nat} (n : Nat) (positive : 0 < k) :
    (digits n).length ≤ k ↔ n < powerOfTen k :=
  Nat.length_toDigits_le_iff (by decide) positive

theorem length_digits_le_maxDigits_iff (n : Nat) : (digits n).length ≤ maxDigits ↔ n < bound :=
  length_digits_le_iff n (Nat.succ_pos _)

theorem read?_digits {n : Nat} (short : n < bound) : read? (digits n) = some n := by
  simp only [read?, (length_digits_le_maxDigits_iff n).mpr short, if_true, value_digits]

end RouteVolume.Numeral

namespace RouteVolume.Digit

/-- The zeros of all scripts that have decimal digits, each with its other nine behind it (Unicode
14.0). -/
def zeros : List Nat := [
  0x30, 0x660, 0x6f0, 0x7c0, 0x966, 0x9e6, 0xa66, 0xae6, 0xb66, 0xbe6, 0xc66, 0xce6, 0xd66, 0xde6,
  0xe50, 0xed0, 0xf20, 0x1040, 0x1090, 0x17e0, 0x1810, 0x1946, 0x19d0, 0x1a80, 0x1a90, 0x1b50,
  0x1bb0, 0x1c40, 0x1c50, 0xa620, 0xa8d0, 0xa900, 0xa9d0, 0xa9f0, 0xaa50, 0xabf0, 0xff10, 0x104a0,
  0x10d30, 0x11066, 0x110f0, 0x11136, 0x111d0, 0x112f0, 0x11450, 0x114d0, 0x11650, 0x116c0,
  0x11730, 0x118e0, 0x11950, 0x11c50, 0x11d50, 0x11da0, 0x16a60, 0x16ac0, 0x16b50, 0x1d7ce,
  0x1d7d8, 0x1d7e2, 0x1d7ec, 0x1d7f6, 0x1e140, 0x1e2f0, 0x1e950, 0x1fbf0]

/-- The value of a decimal digit of any script. -/
def value? (c : Char) : Option Nat :=
  (zeros.find? fun start => start ≤ c.toNat && c.toNat ≤ start + 9).map (c.toNat - ·)

theorem value?_lt_ten {c : Char} {d : Nat} (digit : value? c = some d) : d < 10 := by
  obtain ⟨start, found, rfl⟩ := Option.map_eq_some_iff.mp digit
  have bounds := List.find?_some found
  simp only [Bool.and_eq_true, decide_eq_true_eq] at bounds
  omega

end RouteVolume.Digit

namespace RouteVolume.Integer

/-- The values of digits with single underscores between them. -/
def digits? : List Char → Option (List Nat)
  | [] => none
  | [c] => (Digit.value? c).map ([·])
  | c :: '_' :: rest => do
    let d ← Digit.value? c
    let more ← digits? rest
    pure (d :: more)
  | c :: rest => do
    let d ← Digit.value? c
    let more ← digits? rest
    pure (d :: more)

def magnitude? (cs : List Char) : Option Nat := do
  let ds ← digits? cs
  if ds.length ≤ Numeral.maxDigits then some (ds.foldl (fun n d => 10 * n + d) 0) else none

def read? (s : String) : Option Int :=
  match Blank.trim Blank.isSpace s.toList with
  | '-' :: cs => (magnitude? cs).map fun n => -(n : Int)
  | '+' :: cs => (magnitude? cs).map fun n => (n : Int)
  | cs => (magnitude? cs).map fun n => (n : Int)

end RouteVolume.Integer
