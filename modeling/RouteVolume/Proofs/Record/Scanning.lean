import RouteVolume.Record.Scanner

namespace RouteVolume

structure Word (cls : Char → Bool) (cs : List Char) : Prop where
  nonempty : cs ≠ []
  all : ∀ c ∈ cs, cls c

instance (cls : Char → Bool) (cs : List Char) : Decidable (Word cls cs) :=
  decidable_of_iff (cs.isEmpty = false ∧ cs.all cls = true)
    ⟨fun ⟨more, all⟩ => ⟨by simpa using more, List.all_eq_true.mp all⟩,
      fun ⟨more, all⟩ => ⟨by simpa using more, List.all_eq_true.mpr all⟩⟩

/-- No run of characters of this class goes on into the text. -/
def Stops (cls : Char → Bool) (rest : List Char) : Prop := ∀ c, rest.head? = some c → cls c = false

theorem stops_cons {cls : Char → Bool} {c : Char} {rest : List Char} :
    Stops cls (c :: rest) ↔ cls c = false := by
  simp [Stops]

theorem stops_dropWhile (cls : Char → Bool) (cs : List Char) : Stops cls (cs.dropWhile cls) := by
  intro c first
  have stopped := List.head?_dropWhile_not cls cs
  rw [first] at stopped
  exact stopped

theorem Word.span {cls : Char → Bool} {cs rest : List Char} (word : Word cls cs)
    (stops : Stops cls rest) :
    (cs ++ rest).takeWhile cls = cs ∧ (cs ++ rest).dropWhile cls = rest := by
  rw [List.takeWhile_append_of_pos word.all, List.dropWhile_append_of_pos word.all]
  cases rest with
  | nil => simp
  | cons c rest =>
    have other : ¬ cls c := by simp [stops_cons.mp stops]
    rw [List.takeWhile_cons_of_neg other, List.dropWhile_cons_of_neg other, List.append_nil]
    exact ⟨rfl, rfl⟩

theorem Word.eq_of_append {cls : Char → Bool} {cs ds rest more : List Char} (left : Word cls cs)
    (right : Word cls ds) (leftStops : Stops cls rest) (rightStops : Stops cls more)
    (same : cs ++ rest = ds ++ more) : cs = ds ∧ rest = more := by
  obtain ⟨leftRun, leftRest⟩ := left.span leftStops
  obtain ⟨rightRun, rightRest⟩ := right.span rightStops
  rw [same] at leftRun leftRest
  exact ⟨leftRun.symm.trans rightRun, leftRest.symm.trans rightRest⟩

namespace Scanner

variable {α β : Type}

/-- The scanner finds a value and leaves a text exactly where the relation holds. -/
def Reads (s : Scanner α) (spec : List Char → α → List Char → Prop) : Prop :=
  ∀ c a rest, (∃ after, s c = .found a after ∧ after.rest = rest) ↔ spec c.rest a rest

namespace Reads

variable {s t : Scanner α} {spec other : List Char → α → List Char → Prop}

theorem congr (reads : Reads s spec) (same : ∀ cs a rest, spec cs a rest ↔ other cs a rest) :
    Reads s other := by
  intro c a rest
  rw [reads c a rest, same]

theorem spec_of_found (reads : Reads s spec) {c after : Cursor} {a : α}
    (found : s c = .found a after) : spec c.rest a after.rest :=
  (reads c a after.rest).mp ⟨after, found, rfl⟩

theorem not_spec_of_missing (reads : Reads s spec) {c : Cursor} {mark : Option Nat}
    (missing : s c = .missing mark) (a : α) (rest : List Char) : ¬ spec c.rest a rest := by
  intro holds
  obtain ⟨after, found, -⟩ := (reads c a rest).mpr holds
  rw [missing] at found
  cases found

theorem missing (reads : Reads s spec) {c : Cursor} (nothing : ∀ a rest, ¬ spec c.rest a rest) :
    ∃ mark, s c = .missing mark := by
  cases h : s c with
  | found a after => exact absurd (reads.spec_of_found h) (nothing a after.rest)
  | missing mark => exact ⟨mark, rfl⟩

protected theorem pure (a : α) : Reads (pure a) fun cs b rest => b = a ∧ rest = cs := by
  intro c b rest
  constructor
  · rintro ⟨after, found, rfl⟩
    cases found
    exact ⟨rfl, rfl⟩
  · rintro ⟨rfl, rfl⟩
    exact ⟨c, rfl, rfl⟩

theorem bind_of_found {f : α → Scanner β} {c after : Cursor} {a : α}
    (found : s c = .found a after) : (s >>= f) c = f a after := by
  simp only [bind, found]

theorem bind_of_missing {f : α → Scanner β} {c : Cursor} {mark : Option Nat}
    (missing : s c = .missing mark) : (s >>= f) c = .missing mark := by
  simp only [bind, missing]

protected theorem bind {f : α → Scanner β} {next : α → List Char → β → List Char → Prop}
    (first : Reads s spec) (second : ∀ a, Reads (f a) (next a)) :
    Reads (s >>= f) fun cs b rest => ∃ a mid, spec cs a mid ∧ next a mid b rest := by
  intro c b rest
  constructor
  · rintro ⟨after, found, rfl⟩
    cases h : s c with
    | missing mark =>
      rw [bind_of_missing h] at found
      cases found
    | found a mid =>
      rw [bind_of_found h] at found
      exact ⟨a, mid.rest, first.spec_of_found h, (second a).spec_of_found found⟩
  · rintro ⟨a, mid, here, there⟩
    obtain ⟨between, found, rfl⟩ := (first c a mid).mpr here
    obtain ⟨after, last, rfl⟩ := (second a between b rest).mpr there
    exact ⟨after, (bind_of_found found).trans last, rfl⟩

protected theorem seqRight {t : Scanner β} {next : List Char → β → List Char → Prop}
    (first : Reads s spec) (second : Reads t next) :
    Reads (s *> t) fun cs b rest => ∃ a mid, spec cs a mid ∧ next mid b rest :=
  first.bind fun _ => second

protected theorem literal (ch : Char) : Reads (literal ch) fun cs _ rest => cs = ch :: rest := by
  intro c u rest
  unfold Scanner.literal
  split
  · next next tail text =>
    rw [text]
    split
    · next same => simp [same]
    · next differs => simp [differs]
  · next text => simp [text]

protected theorem run (cls : Char → Bool) :
    Reads (run cls) fun cs a rest => Word cls a ∧ cs = a ++ rest ∧ Stops cls rest := by
  intro c a rest
  simp only [Scanner.run]
  constructor
  · rintro ⟨after, found, rfl⟩
    split at found
    · cases found
    · next taken =>
      cases found
      have all := List.all_eq_true.mp (List.all_takeWhile (p := cls) (l := c.rest))
      have text := (List.takeWhile_append_dropWhile (p := cls) (l := c.rest)).symm
      exact ⟨⟨by simpa using taken, all⟩, text, stops_dropWhile cls c.rest⟩
  · rintro ⟨word, text, stops⟩
    obtain ⟨run, left⟩ := word.span stops
    rw [← text] at run left
    rw [run, left]
    exact ⟨_, if_neg (by simpa using word.nonempty), rfl⟩

protected theorem named (reads : Reads s spec) : Reads (named s) spec := by
  intro c a rest
  rw [← reads c a rest]
  unfold Scanner.named
  cases s c <;> simp

protected theorem orElse (first : Reads s spec) (second : Reads t other) :
    Reads (orElse s t) fun cs a rest =>
      spec cs a rest ∨ (∀ b more, ¬ spec cs b more) ∧ other cs a rest := by
  intro c a rest
  unfold Scanner.orElse
  cases h : s c with
  | found b after =>
    have here := first.spec_of_found h
    have only : (∃ last, Scan.found b after = .found a last ∧ last.rest = rest) ↔
        spec c.rest a rest := by
      rw [← first c a rest, h]
    simp only [only]
    exact ⟨Or.inl, fun either => either.resolve_right fun never => never.1 b after.rest here⟩
  | missing mark =>
    have never := first.not_spec_of_missing h
    rw [second { c with mark := mark } a rest]
    exact ⟨fun there => .inr ⟨never, there⟩, fun either => (either.resolve_left (never a rest)).2⟩

end Reads

inductive Repeats (spec : List Char → α → List Char → Prop) :
    List Char → List α → List Char → Prop where
  | done {cs : List Char} (nothing : ∀ a rest, ¬ spec cs a rest) : Repeats spec cs [] cs
  | more {cs mid rest : List Char} {a : α} {items : List α} (first : spec cs a mid)
      (others : Repeats spec mid items rest) : Repeats spec cs (a :: items) rest

namespace Reads

variable {s : Scanner α} {spec : List Char → α → List Char → Prop}

theorem repeats_manyFrom (reads : Reads s spec)
    (takes : ∀ {cs a rest}, spec cs a rest → rest.length < cs.length) (c : Cursor) :
    Repeats spec c.rest (manyFrom s c).1 (manyFrom s c).2.rest := by
  induction c using manyFrom.induct s with
  | case1 c mark missing =>
    rw [manyFrom, missing]
    exact .done (reads.not_spec_of_missing missing)
  | case2 c a after found shorter _ _ _ ih =>
    rw [manyFrom, found]
    simp only [shorter, if_true]
    exact .more (reads.spec_of_found found) ih
  | case3 c a after found stalled =>
    exact absurd (takes (reads.spec_of_found found)) stalled

theorem manyFrom_eq (reads : Reads s spec)
    (takes : ∀ {cs a rest}, spec cs a rest → rest.length < cs.length) {cs rest : List Char}
    {items : List α} (repeats : Repeats spec cs items rest) (c : Cursor) (here : c.rest = cs) :
    (manyFrom s c).1 = items ∧ (manyFrom s c).2.rest = rest := by
  induction repeats generalizing c with
  | done nothing =>
    rw [← here] at nothing
    obtain ⟨mark, missing⟩ := reads.missing nothing
    rw [manyFrom, missing]
    exact ⟨rfl, here⟩
  | @more _ mid _ a _ first others ih =>
    have shorter := takes first
    rw [← here] at first shorter
    obtain ⟨after, found, rfl⟩ := (reads c a mid).mpr first
    rw [manyFrom, found]
    simp only [shorter, if_true]
    obtain ⟨more, last⟩ := ih after rfl
    exact ⟨congrArg (a :: ·) more, last⟩

protected theorem many (reads : Reads s spec)
    (takes : ∀ {cs a rest}, spec cs a rest → rest.length < cs.length) :
    Reads (many s) (Repeats spec) := by
  intro c items rest
  constructor
  · rintro ⟨after, found, rfl⟩
    cases found
    exact reads.repeats_manyFrom takes c
  · intro repeats
    obtain ⟨rfl, rfl⟩ := reads.manyFrom_eq takes repeats c rfl
    exact ⟨_, rfl, rfl⟩

theorem readAll_eq_ok_iff (reads : Reads s spec) (text : List Char) (a : α) :
    readAll s text = .ok a ↔ spec text a [] := by
  rw [← reads { rest := text } a []]
  unfold readAll
  cases s { rest := text } with
  | missing mark => simp
  | found b after =>
    by_cases ended : after.rest = []
    · simp only [ended, List.isEmpty_nil, if_true]
      constructor
      · intro found
        cases found
        exact ⟨after, rfl, ended⟩
      · rintro ⟨last, found, -⟩
        cases found
        rfl
    · simp [ended]

end Reads

end Scanner

end RouteVolume
