import Mathlib.Data.List.Basic
import RouteVolume.Command.Arguments
import RouteVolume.Proofs.Network.Failures

namespace RouteVolume

theorem bind_eq_ok_iff {ε α β : Type} {x : Except ε α} {f : α → Except ε β} {b : β} :
    x >>= f = .ok b ↔ ∃ a, x = .ok a ∧ f a = .ok b := by
  cases x <;> simp [bind, Except.bind]

theorem map_eq_ok_iff {ε α β : Type} {x : Except ε α} {f : α → β} {b : β} :
    x.map f = .ok b ↔ ∃ a, x = .ok a ∧ f a = b := by
  cases x <;> simp [Except.map]

theorem Numeral.powerOfTen_mul (j k : Nat) :
    ((powerOfTen (j * k) : Nat) : Int) = (10 ^ j) ^ k := by
  rw [powerOfTen, Nat.pow_eq, Nat.pow_mul, Nat.cast_pow, Nat.cast_pow, Nat.cast_ofNat]

namespace Integer

theorem digits?_lt_ten {cs : List Char} {ds : List Nat} (read : digits? cs = some ds) :
    ∀ d ∈ ds, d < 10 := by
  fun_induction digits? cs generalizing ds with
  | case1 => cases read
  | case2 c =>
    obtain ⟨d, value, rfl⟩ := Option.map_eq_some_iff.mp read
    exact List.forall_mem_singleton.mpr (Digit.value?_lt_ten value)
  | case3 c rest ih =>
    simp only [bind, Option.bind_eq_some_iff, pure, Option.some.injEq] at read
    obtain ⟨d, value, more, later, rfl⟩ := read
    exact List.forall_mem_cons.mpr ⟨Digit.value?_lt_ten value, ih later⟩
  | case4 c rest _ _ ih =>
    simp only [bind, Option.bind_eq_some_iff, pure, Option.some.injEq] at read
    obtain ⟨d, value, more, later, rfl⟩ := read
    exact List.forall_mem_cons.mpr ⟨Digit.value?_lt_ten value, ih later⟩

theorem foldl_digits_lt {ds : List Nat} (each : ∀ d ∈ ds, d < 10) (start : Nat) :
    ds.foldl (fun n d => 10 * n + d) start < (start + 1) * Numeral.powerOfTen ds.length := by
  induction ds generalizing start with
  | nil =>
    rw [List.foldl_nil, List.length_nil, Numeral.powerOfTen, Nat.pow_eq, Nat.pow_zero, Nat.mul_one]
    exact Nat.lt_succ_self start
  | cons d rest ih =>
    obtain ⟨small, others⟩ := List.forall_mem_cons.mp each
    have next : 10 * start + d + 1 ≤ (start + 1) * 10 := by omega
    calc rest.foldl (fun n d => 10 * n + d) (10 * start + d)
        < (10 * start + d + 1) * Numeral.powerOfTen rest.length := ih others _
      _ ≤ (start + 1) * 10 * Numeral.powerOfTen rest.length := Nat.mul_le_mul_right _ next
      _ = (start + 1) * Numeral.powerOfTen (d :: rest).length := by
        simp only [Numeral.powerOfTen, Nat.pow_eq, List.length_cons, Nat.pow_succ, Nat.mul_assoc,
          Nat.mul_comm]

theorem magnitude?_lt_bound {cs : List Char} {n : Nat} (read : magnitude? cs = some n) :
    n < Numeral.bound := by
  unfold magnitude? at read
  obtain ⟨ds, digits, value⟩ := Option.bind_eq_some_iff.mp read
  split at value
  · rename_i short
    cases value
    have less := foldl_digits_lt (digits?_lt_ten digits) 0
    rw [Nat.zero_add, Nat.one_mul] at less
    exact less.trans_le (Numeral.powerOfTen_mono short)
  · cases value

theorem read?_lt_bound {s : String} {n : Int} (read : read? s = some n) :
    n.natAbs < Numeral.bound := by
  unfold read? at read
  split at read
  all_goals
    obtain ⟨_, typed, rfl⟩ := Option.map_eq_some_iff.mp read
    obtain ⟨m, magnitude, same⟩ := Option.bind_eq_some_iff.mp typed
    cases same
    have := magnitude?_lt_bound magnitude
    omega

theorem digits?_zeros (k : Nat) :
    digits? (List.replicate (k + 1) '0') = some (List.replicate (k + 1) 0) := by
  have zero : Digit.value? '0' = some 0 := by decide
  induction k with
  | zero => simp [digits?, zero]
  | succ k ih =>
    rw [List.replicate_succ] at ih
    rw [List.replicate_succ, List.replicate_succ, digits?, ih, zero]
    · rfl
    · simp
    · simp 

theorem magnitude?_powerOfTen {k : Nat} (short : k + 1 < Numeral.maxDigits) :
    magnitude? ('1' :: List.replicate (k + 1) '0') = some (Numeral.powerOfTen (k + 1)) := by
  have one : Digit.value? '1' = some 1 := by decide
  have zeros (j n : Nat) :
      (List.replicate j 0).foldl (fun n d => 10 * n + d) n = n * Numeral.powerOfTen j := by
    induction j generalizing n with
    | zero => simp [Numeral.powerOfTen]
    | succ j ih =>
      rw [List.replicate_succ, List.foldl_cons, ih, Numeral.powerOfTen, Numeral.powerOfTen,
        Nat.pow_eq, Nat.pow_eq, Nat.pow_succ', Nat.add_zero, Nat.mul_comm 10 n, Nat.mul_assoc]
  have read : digits? ('1' :: List.replicate (k + 1) '0') =
      some (1 :: List.replicate (k + 1) 0) := by
    have others := digits?_zeros k
    rw [List.replicate_succ] at others ⊢
    rw [digits?, others, one]
    · rfl
    · simp
    · simp
  have size : (1 :: List.replicate (k + 1) 0).length ≤ Numeral.maxDigits := by
    rw [List.length_cons, List.length_replicate]
    exact short
  unfold magnitude?
  rw [read]
  simp only [bind, Option.bind, if_pos size, List.foldl_cons, zeros]
  simp

def roundNumber (zeros : Nat) : String := String.ofList ('1' :: List.replicate zeros '0')

theorem head?_roundNumber (k : Nat) : (roundNumber k).toList.head? = some '1' := by
  rw [roundNumber, String.toList_ofList, List.head?_cons]

theorem read?_roundNumber {k : Nat} (short : k + 1 < Numeral.maxDigits) :
    read? (roundNumber (k + 1)) = some (Numeral.powerOfTen (k + 1) : Int) := by
  have plain : Blank.trim Blank.isSpace ('1' :: List.replicate (k + 1) '0') =
      '1' :: List.replicate (k + 1) '0' := by
    have first : Blank.isSpace '1' = false := by decide
    have last : Blank.isSpace '0' = false := by decide
    rw [Blank.trim, List.dropWhile_cons_of_neg (by simp [first]), List.reverse_cons,
      List.reverse_replicate, List.replicate_succ, List.cons_append,
      List.dropWhile_cons_of_neg (by simp [last])]
    simp [← List.replicate_succ, ← List.replicate_succ']
  unfold read? roundNumber
  rw [String.toList_ofList, plain]
  split
  · rename_i same
    exact absurd (List.cons.inj same).1 (by decide)
  · rename_i same
    exact absurd (List.cons.inj same).1 (by decide)
  · rw [magnitude?_powerOfTen short]
    rfl

end Integer

/-- The numbers that are given for the ends of the domain can be written, and only the early rules
leave an end blank. -/
structure Options.Proper (r : Release) (o : Options) : Prop where
  least : ∀ n, o.least = some (.value n) → n.natAbs < Numeral.bound
  greatest : ∀ n, o.greatest = some (.value n) → n.natAbs < Numeral.bound
  early : o.least = some .blank ∨ o.greatest = some .blank → r = .early

namespace Arguments

structure Keeps (r : Release) (o p : Options) : Prop where
  command : p.command = o.command
  file : p.file = o.file
  proper : o.Proper r → p.Proper r

theorem Keeps.refl (r : Release) (o : Options) : Keeps r o o := ⟨rfl, rfl, id⟩

theorem Keeps.trans {r : Release} {o p q : Options} (first : Keeps r o p) (second : Keeps r p q) :
    Keeps r o q where
  command := second.command.trans first.command
  file := second.file.trans first.file
  proper := second.proper ∘ first.proper

theorem integer_lt_bound {l : Level} {s : Switch} {value : String} {n : Int}
    (read : integer l s value = .ok n) : n.natAbs < Numeral.bound := by
  unfold integer at read
  split at read
  · rename_i typed
    cases read
    exact Integer.read?_lt_bound typed
  · cases read

variable {r : Release} {l : Level} {o p : Options}

theorem keeps_of_perform (r : Release) {s : Switch} {value : String}
    (done : perform l o s value = .ok p) : Keeps r o p := by
  unfold perform at done
  generalize s.effect = effect at done
  cases effect with
  | help | version => cases done
  | verbose | plain | attrs | start | time =>
    cases done
    exact ⟨rfl, rfl, fun b => ⟨b.least, b.greatest, b.early⟩⟩
  | least =>
    obtain ⟨n, read, rfl⟩ := map_eq_ok_iff.mp done
    refine ⟨rfl, rfl, fun b => ⟨fun m given => ?_, b.greatest, ?_⟩⟩
    · cases given
      exact integer_lt_bound read
    · rintro (blank | blank)
      · cases blank
      · exact b.early (.inr blank)
  | greatest =>
    obtain ⟨n, read, rfl⟩ := map_eq_ok_iff.mp done
    refine ⟨rfl, rfl, fun b => ⟨b.least, fun m given => ?_, ?_⟩⟩
    · cases given
      exact integer_lt_bound read
    · rintro (blank | blank)
      · exact b.early (.inl blank)
      · cases blank
  | layout =>
    dsimp only at done
    split at done
    · cases done
      exact ⟨rfl, rfl, fun b => ⟨b.least, b.greatest, b.early⟩⟩
    · split at done
      · cases done
        exact ⟨rfl, rfl, fun b => ⟨b.least, b.greatest, b.early⟩⟩
      · cases done

theorem keeps_clear (early : r = .early) (o : Options) (s : Switch) : Keeps r o (clear o s) := by
  unfold clear
  generalize s.effect = effect
  cases effect with
  | least => exact ⟨rfl, rfl, fun b => ⟨nofun, b.greatest, fun _ => early⟩⟩
  | greatest => exact ⟨rfl, rfl, fun b => ⟨b.least, nofun, fun _ => early⟩⟩
  | _ => exact ⟨rfl, rfl, fun b => ⟨b.least, b.greatest, b.early⟩⟩

theorem keeps_of_performAll {done : List (Switch × String)}
    (all : performAll r l o done = .ok p) : Keeps r o p := by
  induction done generalizing o with
  | nil =>
    cases all
    exact .refl r _
  | cons next rest ih =>
    obtain ⟨s, value⟩ := next
    unfold performAll at all
    rw [List.foldlM_cons] at all
    obtain ⟨q, first, later⟩ := bind_eq_ok_iff.mp all
    refine Keeps.trans ?_ (ih later)
    dsimp only at first
    split at first
    · rename_i blank
      cases first
      exact keeps_clear (of_decide_eq_true (Bool.and_eq_true_iff.mp blank).1) o s
    · exact keeps_of_perform r first

variable {t u : Taken}

theorem keeps_of_takeOption {s : Switch} {name : String} {attached : Option Attached}
    {next : Option String} {took : Bool}
    (taken : takeOption r l t s name attached next = .ok (u, took)) :
    Keeps r t.options u.options := by
  unfold takeOption at taken
  obtain ⟨bundle, _, taken⟩ := bind_eq_ok_iff.mp taken
  split at taken
  · obtain ⟨options, all, given⟩ := bind_eq_ok_iff.mp taken
    cases given
    exact keeps_of_performAll all
  · obtain ⟨options, all, given⟩ := bind_eq_ok_iff.mp taken
    cases given
    exact keeps_of_performAll all
  · cases taken

theorem file_of_takeFile {args : List (String × Role)} (taken : takeFile r l t args = .ok u) :
    u.options.file.isSome ∧ (t.options.Proper r → u.options.Proper r) := by
  fun_induction takeFile r l t args with
  | case1 t there =>
    cases taken
    exact ⟨there, id⟩
  | case2 => cases taken
  | case3 t arg rest ih => exact ih taken
  | case4 t _ s name attached rest ih =>
    obtain ⟨⟨v, took⟩, carried, taken⟩ := bind_eq_ok_iff.mp taken
    obtain ⟨there, proper⟩ := ih v took taken
    exact ⟨there, proper ∘ (keeps_of_takeOption carried).proper⟩
  | case5 t arg rest there ih => exact ih taken
  | case6 t arg _ _ _ rest ih =>
    exact (ih taken).imp_right fun proper b => proper ⟨b.least, b.greatest, b.early⟩
  | case7 t arg _ _ rest _ ih =>
    exact (ih taken).imp_right fun proper b => proper ⟨b.least, b.greatest, b.early⟩
  | case8 t mark rest value _ _ ih =>
    exact (ih taken).imp_right fun proper b => proper ⟨b.least, b.greatest, b.early⟩
  | case9 t mark rest _ ih => exact ih taken

theorem file_of_takeCommand {word : String} {behind : List String}
    (taken : takeCommand r t word behind = .ok u) :
    u.options.file.isSome ∧ (t.options.Proper r → u.options.Proper r) := by
  unfold takeCommand at taken
  split at taken
  · cases taken
  · obtain ⟨roles, _, taken⟩ := bind_eq_ok_iff.mp taken
    exact (file_of_takeFile taken).imp_right fun proper b => proper ⟨b.least, b.greatest, b.early⟩

theorem file_of_takeProgram {args : List (String × Role)} (taken : takeProgram r t args = .ok u)
    (fresh : t.options.command = none) :
    (u.options.command.isSome → u.options.file.isSome) ∧
      (t.options.Proper r → u.options.Proper r) := by
  fun_induction takeProgram r t args with
  | case1 t =>
    cases taken
    refine ⟨fun given => ?_, id⟩
    rw [fresh] at given
    cases given
  | case2 t arg rest ih => exact ih taken fresh
  | case3 t _ s name attached rest ih =>
    obtain ⟨⟨v, took⟩, carried, taken⟩ := bind_eq_ok_iff.mp taken
    have keeps := keeps_of_takeOption carried
    obtain ⟨there, proper⟩ := ih v took taken (keeps.command.trans fresh)
    exact ⟨there, proper ∘ keeps.proper⟩
  | case4 t arg rest =>
    obtain ⟨there, proper⟩ := file_of_takeCommand taken
    exact ⟨fun _ => there, proper⟩
  | case5 t mark =>
    cases taken
    refine ⟨fun given => ?_, id⟩
    rw [Taken.leave, fresh] at given
    cases given
  | case6 t mark rest =>
    obtain ⟨there, proper⟩ := file_of_takeCommand taken
    exact ⟨fun _ => there, proper⟩

theorem file_of_read {args : List String} (accepted : read r args = .ok o) :
    (o.command.isSome → o.file.isSome) ∧ o.Proper r := by
  unfold read at accepted
  obtain ⟨roles, _, accepted⟩ := bind_eq_ok_iff.mp accepted
  obtain ⟨taken, carried, accepted⟩ := bind_eq_ok_iff.mp accepted
  split at accepted
  · cases accepted
    obtain ⟨there, proper⟩ := file_of_takeProgram carried rfl
    refine ⟨there, proper ⟨nofun, nofun, fun blank => ?_⟩⟩
    rcases blank with none_ | none_ <;> cases none_
  · cases accepted

section Domain

variable {value : String} {n : Int} (plain : value.toList.head? ≠ some '-')
  (typed : Integer.read? value = some n)

include plain

theorem role_of_plain (l : Level) : roleOf l value = .ok .value ∧ value ≠ "--" := by
  refine ⟨?_, ?_⟩
  · unfold roleOf
    simp [plain]
  · rintro rfl
    exact plain rfl

/-- A value that begins without a dash, behind a command, is the file. -/
theorem read_plain (r : Release) (c : Command) :
    read r [c.word, value] = .ok { command := some c, file := some value } := by
  have word : Command.ofWord? c.word = some c ∧ roleOf .program c.word = .ok .value ∧
      c.word ≠ "--" := by
    cases c <;> decide
  obtain ⟨known, first, unmarked⟩ := word
  have behind (l : Level) : rolesOf l [value] = .ok [(value, .value)] := by
    obtain ⟨role, other⟩ := role_of_plain plain l
    simp [rolesOf, role, other, bind, Except.bind, pure, Except.pure]
  simp [read, rolesOf.eq_2 _ c.word, first, unmarked, behind, takeProgram, takeCommand, known,
    takeFile, bind, Except.bind, pure, Except.pure]

theorem rolesOf_to {l : Level} {role : Role} (option : roleOf l "--domain-max" = .ok role)
    {rest : List String} {roles : List (String × Role)} (others : rolesOf l rest = .ok roles) :
    rolesOf l ("--domain-max" :: value :: rest) =
      .ok (("--domain-max", role) :: (value, .value) :: roles) := by
  obtain ⟨number, unmarked⟩ := role_of_plain plain l
  simp [rolesOf, option, number, unmarked, others, bind, Except.bind, pure, Except.pure]

include typed

theorem takeFile_to (r : Release) (c : Command) (o : Options) (rest : List (String × Role)) :
    takeFile r (.command c) ⟨o, []⟩
        (("--domain-max", .option ⟨["--domain-max"], .greatest⟩ "--domain-max" none) ::
          (value, .value) :: rest) =
      takeFile r (.command c) ⟨{ o with greatest := some (.value n) }, []⟩ rest := by
  have unmarked := (role_of_plain plain .program).2
  rw [takeFile]
  simp [takeOption, bundleOf, Bundle.bare, Effect.takesValue, firstValue?, performAll, unmarked,
    perform, integer, typed, Except.map, bind, Except.bind, pure, Except.pure]

theorem read_to (c : Command) {rest : List String} {outer inner : List (String × Role)}
    (program : rolesOf .program rest = .ok outer) (same : outer.map (·.1) = rest)
    (command : rolesOf (.command c) rest = .ok inner) {o : Options}
    (taken : takeFile r (.command c) ⟨{ command := some c, greatest := some (.value n) }, []⟩
      inner = .ok ⟨o, []⟩) :
    read r (c.word :: "--domain-max" :: value :: rest) = .ok o := by
  have word : Command.ofWord? c.word = some c ∧ c.word ≠ "--" ∧
      roleOf .program c.word = .ok .value ∧
      roleOf (.command c) "--domain-max" =
        .ok (.option ⟨["--domain-max"], .greatest⟩ "--domain-max" none) := by
    cases c <;> decide
  obtain ⟨known, unmarked, first, option⟩ := word
  have outer_eq := rolesOf_to plain (l := .program)
    (show roleOf .program "--domain-max" = .ok .unknown by decide) program
  have inner_eq := rolesOf_to plain option command
  have behind := takeFile_to plain typed r c { command := some c } inner
  rw [taken] at behind
  simp [read, rolesOf.eq_2 _ c.word, unmarked, first, outer_eq, takeProgram, takeCommand, known,
    same, inner_eq, behind, bind, Except.bind, pure, Except.pure]

end Domain

end Arguments

end RouteVolume
