import RouteVolume.Proofs.Record.Lines

namespace RouteVolume

def withoutZerosFrom : Bool → List Char → List Char
  | _, [] => []
  | inNumber, c :: cs =>
    if inNumber = false ∧ c = '0' ∧ cs.head?.any Char.isDigit then withoutZerosFrom false cs
    else c :: withoutZerosFrom c.isDigit cs

def withoutZeros (cs : List Char) : List Char := withoutZerosFrom false cs

def ZeroFree (cs : List Char) : Prop :=
  ∀ before c after, cs = before ++ '0' :: c :: after → c.isDigit → before.getLast?.any Char.isDigit

theorem length_withoutZerosFrom_le (inNumber : Bool) (cs : List Char) :
    (withoutZerosFrom inNumber cs).length ≤ cs.length := by
  induction cs generalizing inNumber with
  | nil => exact Nat.le_refl 0
  | cons c cs ih =>
    rw [withoutZerosFrom]
    split
    · exact Nat.le_succ_of_le (ih false)
    · exact Nat.succ_le_succ (ih c.isDigit)

-- for the induction: at the start of the text, being inside a number stands for a digit before it
theorem withoutZerosFrom_eq_self {cs : List Char} {inNumber : Bool}
    (free : ∀ before c after, cs = before ++ '0' :: c :: after → c.isDigit →
      before.getLast?.any Char.isDigit ∨ before = [] ∧ inNumber) :
    withoutZerosFrom inNumber cs = cs := by
  induction cs generalizing inNumber with
  | nil => rfl
  | cons c cs ih =>
    have kept : ¬ (inNumber = false ∧ c = '0' ∧ cs.head?.any Char.isDigit) := by
      rintro ⟨outside, rfl, digit⟩
      cases cs with
      | nil => simp at digit
      | cons d cs =>
        rcases free [] d cs rfl (by simpa using digit) with behind | ⟨-, inside⟩
        · simp at behind
        · simp [outside] at inside
    rw [withoutZerosFrom, if_neg kept]
    congr 1
    apply ih
    intro before d after text digit
    rcases free (c :: before) d after (by rw [text]; rfl) digit with behind | ⟨nothing, -⟩
    · cases before with
      | nil => exact .inr ⟨rfl, by simpa using behind⟩
      | cons e before => exact .inl (by simpa [List.getLast?_cons_cons] using behind)
    · cases nothing

theorem withoutZeros_eq_self {cs : List Char} (free : ZeroFree cs) : withoutZeros cs = cs :=
  withoutZerosFrom_eq_self fun before c after text digit => .inl (free before c after text digit)

theorem withoutZerosFrom_cons {c : Char} (other : c.isDigit = false) (inNumber : Bool)
    (rest : List Char) : withoutZerosFrom inNumber (c :: rest) = c :: withoutZeros rest := by
  have kept : ¬ (inNumber = false ∧ c = '0' ∧ rest.head?.any Char.isDigit) := by
    rintro ⟨-, rfl, -⟩
    simp at other
  rw [withoutZerosFrom, if_neg kept, other, withoutZeros]

theorem withoutZeros_cons {c : Char} (other : c.isDigit = false) (rest : List Char) :
    withoutZeros (c :: rest) = c :: withoutZeros rest :=
  withoutZerosFrom_cons other false rest

theorem withoutZeros_append {cs : List Char} (other : ∀ c ∈ cs, c.isDigit = false)
    (rest : List Char) : withoutZeros (cs ++ rest) = cs ++ withoutZeros rest := by
  induction cs with
  | nil => rfl
  | cons c cs ih =>
    obtain ⟨first, others⟩ := List.forall_mem_cons.mp other
    rw [List.cons_append, withoutZeros_cons first, ih others, List.cons_append]

theorem withoutZerosFrom_digits {ds rest : List Char} (digits : ∀ d ∈ ds, d.isDigit)
    (stops : Stops Char.isDigit rest) :
    withoutZerosFrom true (ds ++ rest) = ds ++ withoutZeros rest := by
  induction ds with
  | nil =>
    cases rest with
    | nil => rfl
    | cons c rest =>
      have other := stops_cons.mp stops
      rw [List.nil_append, List.nil_append, withoutZerosFrom_cons other, withoutZeros_cons other]
  | cons d ds ih =>
    obtain ⟨first, others⟩ := List.forall_mem_cons.mp digits
    rw [List.cons_append, withoutZerosFrom, if_neg (by simp), first, ih others, List.cons_append]

namespace Numeral

theorem offset_lt_ten {c : Char} (digit : c.isDigit) : c.toNat - '0'.toNat < 10 := by
  obtain ⟨-, greatest⟩ := Char.isDigit_iff_toNat.mp digit
  have nine : '9'.toNat = '0'.toNat + 9 := rfl
  omega

theorem digits_of_digit {c : Char} (digit : c.isDigit) : digits (c.toNat - '0'.toNat) = [c] := by
  obtain ⟨least, -⟩ := Char.isDigit_iff_toNat.mp digit
  have code := Nat.toNat_digitChar_of_lt_ten (offset_lt_ten digit)
  have same : (c.toNat - '0'.toNat).digitChar.toNat = c.toNat :=
    code.trans (Nat.add_sub_of_le least)
  rw [digits, Nat.toDigits_of_lt_base (offset_lt_ten digit), Char.toNat_inj.mp same]

theorem digits_ofDigitChars {n : Nat} {ds : List Char} (positive : 0 < n)
    (all : ∀ d ∈ ds, d.isDigit) : digits (Nat.ofDigitChars 10 ds n) = digits n ++ ds := by
  induction ds generalizing n with
  | nil => rw [Nat.ofDigitChars_nil, List.append_nil]
  | cons d ds ih =>
    obtain ⟨first, others⟩ := List.forall_mem_cons.mp all
    have next : digits (10 * n + (d.toNat - '0'.toNat)) = digits n ++ [d] := by
      rw [← digits_of_digit first]
      exact (Nat.toDigits_append_toDigits (by decide) positive (offset_lt_ten first)).symm
    rw [Nat.ofDigitChars_cons, ih (by omega) others, next, List.append_assoc,
      List.singleton_append]

theorem digits_value_of_ne_zero {c : Char} {ds : List Char} (all : ∀ d ∈ c :: ds, d.isDigit)
    (first : c ≠ '0') : digits (value (c :: ds)) = c :: ds := by
  obtain ⟨digit, others⟩ := List.forall_mem_cons.mp all
  obtain ⟨least, -⟩ := Char.isDigit_iff_toNat.mp digit
  have positive : 0 < c.toNat - '0'.toNat := by
    have : c.toNat ≠ '0'.toNat := fun same => first (Char.toNat_inj.mp same)
    omega
  rw [value, Nat.ofDigitChars_cons, Nat.mul_zero, Nat.zero_add, digits_ofDigitChars positive others,
    digits_of_digit digit, List.singleton_append]

theorem value_zero_cons (ds : List Char) : value ('0' :: ds) = value ds := by
  simp [value, Nat.ofDigitChars_cons]

end Numeral

theorem withoutZeros_of_kept {d : Char} {ds rest : List Char} (digits : ∀ e ∈ d :: ds, e.isDigit)
    (stops : Stops Char.isDigit rest) (kept : ¬ (d = '0' ∧ (ds ++ rest).head?.any Char.isDigit)) :
    withoutZeros (d :: ds ++ rest) = d :: ds ++ withoutZeros rest := by
  obtain ⟨first, others⟩ := List.forall_mem_cons.mp digits
  rw [List.cons_append, withoutZeros, withoutZerosFrom, if_neg fun drop => kept drop.2, first,
    withoutZerosFrom_digits others stops, List.cons_append]

theorem withoutZeros_word {ds rest : List Char} (word : Word Char.isDigit ds)
    (stops : Stops Char.isDigit rest) :
    withoutZeros (ds ++ rest) = Numeral.digits (Numeral.value ds) ++ withoutZeros rest := by
  induction ds with
  | nil => exact absurd rfl word.nonempty
  | cons d ds ih =>
    obtain ⟨first, others⟩ := List.forall_mem_cons.mp word.all
    by_cases zero : d = '0'
    · subst zero
      cases ds with
      | nil =>
        -- a zero alone is the numeral of its value
        have kept : ¬ ('0' = '0' ∧ ([] ++ rest).head?.any Char.isDigit) := by
          rintro ⟨-, follows⟩
          obtain ⟨c, next, digit⟩ := (Option.any_eq_true _ _).mp follows
          simp [stops c next] at digit
        exact withoutZeros_of_kept word.all stops kept
      | cons e ds =>
        have drop : ((e :: ds) ++ rest).head?.any Char.isDigit := others e List.mem_cons_self
        rw [List.cons_append, withoutZeros, withoutZerosFrom, if_pos ⟨rfl, rfl, drop⟩,
          Numeral.value_zero_cons]
        exact ih ⟨List.cons_ne_nil e ds, others⟩
    · rw [withoutZeros_of_kept word.all stops fun drop => zero drop.1,
        Numeral.digits_value_of_ne_zero word.all zero]

end RouteVolume
