import Mathlib
import RouteVolume.Proofs.Record.Grammar

namespace RouteVolume

theorem Word.not_mem {cls : Char → Bool} {cs : List Char} (word : Word cls cs) {c : Char}
    (other : cls c = false) : c ∉ cs := by
  intro there
  rw [word.all c there] at other
  cases other

namespace Scanner

variable {α β : Type}

def Viable (spells : α → List Char → Prop) (c : Cursor) (m : Nat) : Prop :=
  ∃ a cs front, spells a cs ∧ front <+: cs ∧ front <+: c.rest ∧ m = c.pos + front.length

structure Foretells (s : Scanner α) (spells : α → List Char → Prop) : Prop where
  spelt : ∃ a cs, spells a cs
  found : ∀ {c after : Cursor} {a : α}, s c = .found a after →
    ∃ cs, spells a cs ∧ c.rest = cs ++ after.rest ∧ after.pos = c.pos + cs.length ∧
      ∀ m ∈ after.mark, m ∈ c.mark ∨ Viable spells c m
  missing : ∀ {c : Cursor} {mark : Option Nat}, s c = .missing mark →
    ∀ m ∈ mark, m ∈ c.mark ∨ Viable spells c m

namespace Viable

variable {one : α → List Char → Prop} {two : β → List Char → Prop} {c after : Cursor} {m : Nat}

theorem here (spelt : ∃ a cs, one a cs) : Viable one c c.pos := by
  obtain ⟨a, cs, spells⟩ := spelt
  exact ⟨a, cs, [], spells, List.nil_prefix, List.nil_prefix, rfl⟩

theorem onward (viable : Viable one c m)
    (longer : ∀ a cs, one a cs → ∃ b ds, two b ds ∧ cs <+: ds) : Viable two c m := by
  obtain ⟨a, cs, front, spells, begins, left, rfl⟩ := viable
  obtain ⟨b, ds, next, more⟩ := longer a cs spells
  exact ⟨b, ds, front, next, begins.trans more, left, rfl⟩

theorem behind (viable : Viable one after m) {piece : List Char}
    (taken : c.rest = piece ++ after.rest) (moved : after.pos = c.pos + piece.length)
    (longer : ∀ a cs, one a cs → ∃ b, two b (piece ++ cs)) : Viable two c m := by
  obtain ⟨a, cs, front, spells, begins, left, rfl⟩ := viable
  obtain ⟨b, next⟩ := longer a cs spells
  refine ⟨b, piece ++ cs, piece ++ front, next, (List.prefix_append_right_inj piece).mpr begins,
    taken ▸ (List.prefix_append_right_inj piece).mpr left, ?_⟩
  rw [moved, List.length_append, Nat.add_assoc]

end Viable

def Parts (one : α → List Char → Prop) (two : α → β → List Char → Prop) (b : β)
    (cs : List Char) : Prop :=
  ∃ a front back, one a front ∧ two a b back ∧ cs = front ++ back

inductive InTurn (spells : α → List Char → Prop) : List α → List Char → Prop where
  | nil : InTurn spells [] []
  | cons {a : α} {items : List α} {front back : List Char} (first : spells a front)
      (others : InTurn spells items back) : InTurn spells (a :: items) (front ++ back)

namespace Foretells

variable {s : Scanner α} {spells : α → List Char → Prop}

theorem mono (foretells : Foretells s spells) {wider : α → List Char → Prop}
    (into : ∀ a cs, spells a cs → wider a cs) : Foretells s wider := by
  have onward {c m} (viable : Viable spells c m) : Viable wider c m :=
    viable.onward fun a cs spelt => ⟨a, cs, into a cs spelt, List.prefix_rfl⟩
  refine ⟨?_, fun {c after a} here => ?_, fun {c mark} here m there => ?_⟩
  · obtain ⟨a, cs, spelt⟩ := foretells.spelt
    exact ⟨a, cs, into a cs spelt⟩
  · obtain ⟨cs, spelt, taken, moved, marked⟩ := foretells.found here
    exact ⟨cs, into a cs spelt, taken, moved, fun m there => (marked m there).imp id onward⟩
  · exact (foretells.missing here m there).imp id onward

theorem marked_here (spelt : ∃ a cs, spells a cs) {c : Cursor} :
    ∀ m ∈ c.mark.or (some c.pos), m ∈ c.mark ∨ Viable spells c m := by
  intro m marked
  rcases Option.or_eq_some_iff.mp marked with earlier | ⟨-, here⟩
  · exact .inl earlier
  · cases here
    exact .inr (.here spelt)

protected theorem pure (a : α) : Foretells (pure a) fun b cs => b = a ∧ cs = [] where
  spelt := ⟨a, [], rfl, rfl⟩
  found here := by
    cases here
    exact ⟨[], ⟨rfl, rfl⟩, rfl, rfl, fun m there => .inl there⟩
  missing := nofun

protected theorem bind {f : α → Scanner β} {next : α → β → List Char → Prop}
    (first : Foretells s spells) (second : ∀ a, Foretells (f a) (next a)) :
    Foretells (s >>= f) (Parts spells next) := by
  -- a mark of the first part is viable with any second part, not only with the one that follows
  have onward {c m} (viable : Viable spells c m) : Viable (Parts spells next) c m := by
    refine viable.onward fun a front spelt => ?_
    obtain ⟨b, back, more⟩ := (second a).spelt
    exact ⟨b, front ++ back, ⟨a, front, back, spelt, more, rfl⟩, List.prefix_append front back⟩
  refine ⟨?_, fun {c after b} here => ?_, fun {c mark} here m there => ?_⟩
  · obtain ⟨a, front, spelt⟩ := first.spelt
    obtain ⟨b, back, more⟩ := (second a).spelt
    exact ⟨b, front ++ back, a, front, back, spelt, more, rfl⟩
  · cases start : s c with
    | missing mark =>
      rw [Reads.bind_of_missing start] at here
      cases here
    | found a between =>
      rw [Reads.bind_of_found start] at here
      obtain ⟨front, spelt, taken, moved, marked⟩ := first.found start
      obtain ⟨back, more, left, on, later⟩ := (second a).found here
      refine ⟨front ++ back, ⟨a, front, back, spelt, more, rfl⟩, ?_, ?_, fun m there => ?_⟩
      · rw [taken, left, List.append_assoc]
      · rw [on, moved, List.length_append, Nat.add_assoc]
      · rcases later m there with earlier | viable
        · exact (marked m earlier).imp id onward
        · exact .inr (viable.behind taken moved fun b back more =>
            ⟨b, a, front, back, spelt, more, rfl⟩)
  · cases start : s c with
    | missing mark =>
      rw [Reads.bind_of_missing start] at here
      cases here
      exact (first.missing start m there).imp id onward
    | found a between =>
      rw [Reads.bind_of_found start] at here
      obtain ⟨front, spelt, taken, moved, marked⟩ := first.found start
      rcases (second a).missing here m there with earlier | viable
      · exact (marked m earlier).imp id onward
      · exact .inr (viable.behind taken moved fun b back more =>
          ⟨b, a, front, back, spelt, more, rfl⟩)

protected theorem seqRight {t : Scanner β} {next : β → List Char → Prop}
    (first : Foretells s spells) (second : Foretells t next) :
    Foretells (s *> t) (Parts spells fun _ => next) :=
  first.bind fun _ => second

protected theorem literal (ch : Char) : Foretells (literal ch) fun _ cs => cs = [ch] := by
  have spelt : ∃ (u : Unit) (cs : List Char), cs = [ch] := ⟨(), [ch], rfl⟩
  refine ⟨spelt, fun {c after a} here => ?_, fun {c mark} here => ?_⟩
  · unfold Scanner.literal at here
    split at here
    · next next rest text =>
      split at here
      · next same =>
        cases here
        exact ⟨[ch], rfl, by simp [text, same], rfl, fun m there => .inl there⟩
      · cases here
    · cases here
  · unfold Scanner.literal at here
    split at here
    · split at here
      · cases here
      · cases here
        exact marked_here spelt
    · cases here
      exact marked_here spelt

protected theorem run {cls : Char → Bool} (inhabited : ∃ cs, Word cls cs) :
    Foretells (run cls) fun a cs => Word cls a ∧ cs = a := by
  have spelt : ∃ a cs, Word cls a ∧ cs = a := inhabited.imp fun a word => ⟨a, word, rfl⟩
  refine ⟨spelt, fun {c after a} here => ?_, fun {c mark} here => ?_⟩
  · obtain ⟨word, text, -⟩ := (Reads.run cls).spec_of_found here
    simp only [Scanner.run] at here
    split at here
    · cases here
    · cases here
      exact ⟨_, ⟨word, rfl⟩, text, rfl, fun m there => .inl there⟩
  · simp only [Scanner.run] at here
    split at here
    · cases here
      exact marked_here spelt
    · cases here

protected theorem named (foretells : Foretells s spells) : Foretells (named s) spells := by
  refine ⟨foretells.spelt, fun {c after a} here => ?_, fun {c mark} here m there => ?_⟩
  · unfold Scanner.named at here
    split at here
    · next start =>
      cases here
      exact foretells.found start
    · cases here
  · unfold Scanner.named at here
    split at here
    · cases here
    · next inner start =>
      cases here
      cases there
      rcases Nat.le_total (inner.getD 0) c.pos with before | beyond
      · rw [Nat.max_eq_left before]
        exact .inr (.here foretells.spelt)
      · rw [Nat.max_eq_right beyond]
        cases inner with
        | none =>
          have start : c.pos = 0 := Nat.le_zero.mp beyond
          exact .inr (start ▸ .here foretells.spelt)
        | some k => exact foretells.missing start k rfl

protected theorem orElse {t : Scanner α} {other : α → List Char → Prop}
    (first : Foretells s spells) (second : Foretells t other) :
    Foretells (orElse s t) fun a cs => spells a cs ∨ other a cs := by
  -- The marks of the first piece stay, so they have to be viable for the choice.
  have one := first.mono fun a cs spelt => show spells a cs ∨ other a cs from .inl spelt
  have two := second.mono fun a cs spelt => show spells a cs ∨ other a cs from .inr spelt
  refine ⟨one.spelt, fun {c after a} here => ?_, fun {c mark} here m there => ?_⟩
  · unfold Scanner.orElse at here
    split at here
    · next start =>
      cases here
      exact one.found start
    · next inner start =>
      obtain ⟨cs, spelt, taken, moved, marked⟩ := two.found here
      refine ⟨cs, spelt, taken, moved, fun m there => ?_⟩
      exact (marked m there).elim (one.missing start m) .inr
  · unfold Scanner.orElse at here
    split at here
    · cases here
    · next inner start => exact (two.missing here m there).elim (one.missing start m) .inr

theorem found_manyFrom (foretells : Foretells s spells) (c : Cursor) :
    ∃ cs, InTurn spells (manyFrom s c).1 cs ∧ c.rest = cs ++ (manyFrom s c).2.rest ∧
      (manyFrom s c).2.pos = c.pos + cs.length ∧
      ∀ m ∈ (manyFrom s c).2.mark, m ∈ c.mark ∨ Viable (InTurn spells) c m := by
  -- what is viable for one piece is viable for a list of pieces that ends with it
  have alone {c m} (viable : Viable spells c m) : Viable (InTurn spells) c m :=
    viable.onward fun a cs spelt =>
      ⟨[a], cs ++ [], .cons spelt .nil, List.prefix_append cs []⟩
  induction c using manyFrom.induct s with
  | case1 c mark missing =>
    rw [manyFrom, missing]
    exact ⟨[], .nil, rfl, rfl, fun m there => (foretells.missing missing m there).imp id alone⟩
  | case2 c a after found shorter _ _ _ ih =>
    rw [manyFrom, found]
    simp only [shorter, if_true]
    obtain ⟨front, spelt, taken, moved, marked⟩ := foretells.found found
    obtain ⟨back, others, left, on, later⟩ := ih
    refine ⟨front ++ back, .cons spelt others, ?_, ?_, fun m there => ?_⟩
    · rw [taken, left, List.append_assoc]
    · rw [on, moved, List.length_append, Nat.add_assoc]
    · rcases later m there with earlier | viable
      · exact (marked m earlier).imp id alone
      · exact .inr (viable.behind taken moved fun items cs others =>
          ⟨a :: items, .cons spelt others⟩)
  | case3 c a after found stalled =>
    rw [manyFrom, found]
    simp only [stalled, if_false]
    exact ⟨[], .nil, rfl, rfl, fun m there => .inl there⟩

protected theorem many (foretells : Foretells s spells) :
    Foretells (many s) (InTurn spells) := by
  refine ⟨⟨[], [], .nil⟩, fun {c after items} here => ?_, fun {c mark} here => ?_⟩
  · cases here
    exact foretells.found_manyFrom c
  · cases here

theorem begins_of_readAll (foretells : Foretells s spells) {text : List Char} {pos : Nat}
    (failed : readAll s text = .error pos) :
    pos ≤ text.length ∧ ∃ a cs, spells a cs ∧ text.take pos <+: cs := by
  suffices viable : Viable spells { rest := text } pos by
    obtain ⟨a, cs, front, spelt, begins, left, rfl⟩ := viable
    rw [Nat.zero_add, ← List.prefix_iff_eq_take.mp left]
    exact ⟨left.length_le, a, cs, spelt, begins⟩
  unfold readAll at failed
  split at failed
  · next a after found =>
    split at failed
    · cases failed
    · cases failed
      obtain ⟨cs, spelt, taken, moved, -⟩ := foretells.found found
      exact ⟨a, cs, cs, spelt, List.prefix_rfl, ⟨after.rest, taken.symm⟩, moved⟩
  · next mark missing =>
    cases failed
    cases mark with
    | none => exact .here foretells.spelt
    | some k => exact (foretells.missing missing k rfl).resolve_left nofun

end Foretells

end Scanner

namespace Record

open Scanner

def Spells {α : Type} (proper : α → Prop) (chars : α → List Char) (a : α) (cs : List Char) : Prop :=
  proper a ∧ cs = chars a

theorem listed_of_inTurn {α : Type} {proper : α → Prop} {chars : α → List Char} {items : List α}
    {cs : List Char}
    (turns : InTurn (Parts (fun (_ : Unit) cs => cs = [',']) fun _ => Spells proper chars)
      items cs) :
    (∀ a ∈ items, proper a) ∧ cs = listed (items.map chars) := by
  induction turns with
  | nil => exact ⟨nofun, rfl⟩
  | cons first others ih =>
    obtain ⟨_, _, _, rfl, ⟨good, rfl⟩, rfl⟩ := first
    obtain ⟨allGood, rfl⟩ := ih
    exact ⟨List.forall_mem_cons.mpr ⟨good, allGood⟩, by simp [listed]⟩

theorem foretells_word {cls : Char → Bool} (inhabited : ∃ cs, Word cls cs) :
    Foretells (named (run cls)) (Spells (Word cls) id) :=
  (Foretells.run inhabited).named

theorem lower_word : ∃ cs, Word Char.isLower cs := ⟨['a'], by decide⟩

theorem alpha_word : ∃ cs, Word Char.isAlpha cs := ⟨['A'], by decide⟩

theorem digit_word : ∃ cs, Word Char.isDigit cs := ⟨['0'], by decide⟩

theorem foretells_comparison : Foretells comparisonScanner fun k cs => cs = [k.symbol] := by
  have piece (ch : Char) (k : Comparison) := (Foretells.literal ch).seqRight (Foretells.pure k)
  refine ((piece '<' .below).orElse (piece '>' .above)).named.mono fun k cs => ?_
  rintro (⟨_, _, _, rfl, ⟨rfl, rfl⟩, rfl⟩ | ⟨_, _, _, rfl, ⟨rfl, rfl⟩, rfl⟩)
  · rfl
  · rfl

theorem foretells_rule : Foretells ruleScanner (Spells RuleForm.Proper RuleForm.chars) := by
  have parts := (foretells_word lower_word).bind fun attr => foretells_comparison.bind fun k =>
    (foretells_word digit_word).bind fun digits => (Foretells.literal ':').bind fun _ =>
      (foretells_word alpha_word).bind fun label => Foretells.pure (RuleForm.mk attr k digits label)
  refine parts.named.mono fun r cs => ?_
  rintro ⟨attr, _, _, ⟨attrWord, rfl⟩, ⟨k, _, _, rfl, ⟨digits, _, _, ⟨digitsWord, rfl⟩,
    ⟨_, _, _, rfl, ⟨label, _, _, ⟨labelWord, rfl⟩, ⟨rfl, rfl⟩, rfl⟩, rfl⟩, rfl⟩, rfl⟩, rfl⟩
  exact ⟨⟨attrWord, digitsWord, labelWord⟩, by simp [RuleForm.chars]⟩

theorem foretells_rules : Foretells rulesScanner fun rules cs =>
    (∀ r ∈ rules.1 :: rules.2, r.Proper) ∧
      cs = rules.1.chars ++ listed (rules.2.map RuleForm.chars) := by
  have parts := foretells_rule.bind fun first =>
    ((Foretells.literal ',').seqRight foretells_rule).many.bind fun rest =>
      Foretells.pure (first, rest)
  refine parts.named.mono fun rules cs => ?_
  rintro ⟨first, _, _, ⟨good, rfl⟩, ⟨rest, _, _, turns, ⟨rfl, rfl⟩, rfl⟩, rfl⟩
  obtain ⟨allGood, rfl⟩ := listed_of_inTurn turns
  exact ⟨List.forall_mem_cons.mpr ⟨good, allGood⟩, by rw [List.append_nil]⟩

theorem foretells_workflow : Foretells workflowScanner (Spells Record.Proper Record.chars) := by
  have parts := (foretells_word lower_word).bind fun name => (Foretells.literal '{').bind fun _ =>
    foretells_rules.bind fun rules => (Foretells.literal ',').bind fun _ =>
      (foretells_word alpha_word).bind fun label => (Foretells.literal '}').bind fun _ =>
        Foretells.pure (Record.workflow name rules.1 rules.2 label)
  refine parts.named.mono fun r cs => ?_
  rintro ⟨name, _, _, ⟨nameWord, rfl⟩, ⟨_, _, _, rfl, ⟨rules, _, _, ⟨good, rfl⟩, ⟨_, _, _, rfl,
    ⟨label, _, _, ⟨labelWord, rfl⟩, ⟨_, _, _, rfl, ⟨rfl, rfl⟩, rfl⟩, rfl⟩, rfl⟩, rfl⟩, rfl⟩, rfl⟩
  exact ⟨⟨nameWord, good, labelWord⟩, by simp [chars_workflow]⟩

theorem foretells_assignment :
    Foretells assignmentScanner (Spells Assignment.Proper Assignment.chars) := by
  have parts := (foretells_word lower_word).bind fun attr => (Foretells.literal '=').bind fun _ =>
    (foretells_word digit_word).bind fun digits => Foretells.pure (Assignment.mk attr digits)
  refine parts.named.mono fun a cs => ?_
  rintro ⟨attr, _, _, ⟨attrWord, rfl⟩, ⟨_, _, _, rfl, ⟨digits, _, _, ⟨digitsWord, rfl⟩,
    ⟨rfl, rfl⟩, rfl⟩, rfl⟩, rfl⟩
  exact ⟨⟨attrWord, digitsWord⟩, by simp [Assignment.chars]⟩

theorem foretells_rating : Foretells ratingScanner (Spells Record.Proper Record.chars) := by
  have parts := (Foretells.literal '{').bind fun _ => foretells_assignment.bind fun first =>
    ((Foretells.literal ',').seqRight foretells_assignment).many.bind fun rest =>
      (Foretells.literal '}').bind fun _ => Foretells.pure (Record.rating first rest)
  refine parts.named.mono fun r cs => ?_
  rintro ⟨_, _, _, rfl, ⟨first, _, _, ⟨good, rfl⟩, ⟨rest, _, _, turns, ⟨_, _, _, rfl,
    ⟨rfl, rfl⟩, rfl⟩, rfl⟩, rfl⟩, rfl⟩
  obtain ⟨allGood, rfl⟩ := listed_of_inTurn turns
  exact ⟨List.forall_mem_cons.mpr ⟨good, allGood⟩, by simp [chars_rating]⟩

theorem foretells_record : Foretells scanner (Spells Record.Proper Record.chars) :=
  (foretells_workflow.orElse foretells_rating).named.mono fun _ _ => Or.rec id id

theorem begins_of_ofChars {text : List Char} {pos : Nat} (failed : ofChars text = .error pos) :
    ∃ r : Record, r.Proper ∧ text.take pos <+: r.chars := by
  obtain ⟨-, r, _, ⟨proper, rfl⟩, begins⟩ := foretells_record.begins_of_readAll failed
  exact ⟨r, proper, begins⟩

theorem le_of_ofChars {text : List Char} {pos : Nat} (failed : ofChars text = .error pos) :
    pos ≤ text.length :=
  (foretells_record.begins_of_readAll failed).1

theorem Proper.unbroken {r : Record} (proper : r.Proper) : '\n' ∉ r.chars := by
  have rule {r : RuleForm} (proper : r.Proper) : '\n' ∉ r.chars := by
    have symbol : '\n' ≠ r.comparison.symbol := by cases r.comparison <;> decide
    simp [RuleForm.chars, proper.attr.not_mem, proper.digits.not_mem, proper.label.not_mem, symbol]
  have assignment {a : Assignment} (proper : a.Proper) : '\n' ∉ a.chars := by
    simp [Assignment.chars, proper.attr.not_mem, proper.digits.not_mem]
  cases r with
  | workflow name first rest default =>
    obtain ⟨nameWord, good, defaultWord⟩ := proper
    obtain ⟨firstGood, restGood⟩ := List.forall_mem_cons.mp good
    have others : ∀ r ∈ rest, '\n' ∉ r.chars := fun r there => rule (restGood r there)
    simpa [chars_workflow, listed, nameWord.not_mem, defaultWord.not_mem, rule firstGood]
      using others
  | rating first rest =>
    obtain ⟨firstGood, restGood⟩ := List.forall_mem_cons.mp proper
    have others : ∀ a ∈ rest, '\n' ∉ a.chars := fun a there => assignment (restGood a there)
    simpa [chars_rating, listed, assignment firstGood] using others

end Record

theorem columnOf_of_unbroken {cs : List Char} {pos : Nat} (unbroken : '\n' ∉ cs.take pos)
    (within : pos ≤ cs.length) : columnOf cs pos = pos + 1 := by
  have all : ∀ c ∈ (cs.take pos).reverse, decide (c ≠ '\n') = true := by
    intro c there
    rw [decide_eq_true_iff]
    rintro rfl
    exact unbroken (List.mem_reverse.mp there)
  have whole := List.takeWhile_eq_self_iff.mpr all
  rw [columnOf, whole, List.length_reverse, List.length_take, Nat.min_eq_left within]

namespace Statement

theorem missing_of_code {line : String} {span : Option Span} {d : Diagnostic}
    (misread : ofLine line span = .error (.report d)) (code : d.code.number = "RG-1001") :
    ∃ pos, Record.ofChars line.toList = .error pos ∧ d = .invalidLine line pos span := by
  unfold ofLine at misread
  split at misread
  · next pos failed =>
    cases misread
    exact ⟨pos, failed, rfl⟩
  · split at misread
    · cases misread
      have other : "RG-1002" = "RG-1001" := code
      exact absurd other (by decide)
    · cases misread

/-- A line that is reported as no record has its fault at a column of the line or right behind it.
The characters before this column are the beginning of the text of a record. So wherever a beginning
of the line is that of no record, the column is not behind it. -/
theorem column_behind_beginning {line : String} {span : Option Span} {d : Diagnostic}
    (misread : ofLine line span = .error (.report d)) (code : d.code.number = "RG-1001") :
    ∃ place : Span, ∃ before : Nat, d.span = some place ∧ place.column = before + 1 ∧
      Record.ofChars line.toList = .error before ∧
      1 ≤ place.column ∧ place.column ≤ line.length + 1 ∧
      (∃ r : Record, r.Proper ∧ line.toList.take before <+: r.chars) ∧
      ∀ n : Nat, (∀ r : Record, r.Proper → ¬ line.toList.take n <+: r.chars) →
        place.column ≤ n := by
  obtain ⟨pos, failed, rfl⟩ := missing_of_code misread code
  obtain ⟨r, proper, begins⟩ := Record.begins_of_ofChars failed
  have within : pos ≤ line.toList.length := Record.le_of_ofChars failed
  have unbroken : '\n' ∉ line.toList.take pos := fun fed => proper.unbroken (begins.subset fed)
  obtain ⟨place, given, column⟩ : ∃ place : Span,
      (Diagnostic.invalidLine line pos span).span = some place ∧ place.column = pos + 1 :=
    ⟨_, rfl, congrArg Nat.cast (columnOf_of_unbroken unbroken within)⟩
  rw [String.length_toList] at within
  refine ⟨place, pos, given, column, failed, by omega, by omega, ⟨r, proper, begins⟩,
    fun n astray => ?_⟩
  by_contra short
  have shorter : n ≤ pos := by omega
  exact astray r proper ((List.take_prefix_take_left shorter).trans begins)

theorem column_in_label :
    ∃ d place r, ofLine "in\x7bx<5:A,bR<3\x7d" none = .error (.report d) ∧ d.span = some place ∧
      place.column = 11 ∧ Record.Proper r ∧ "in\x7bx<5:A,b".toList <+: r.chars := by
  -- The last label is first tried as the attribute of a rule. So the column is that of its
  -- capital, though a label could go on there.
  have failed : Record.ofChars "in\x7bx<5:A,bR<3\x7d".toList = .error 10 := by cbv
  have reported : ofLine "in\x7bx<5:A,bR<3\x7d" none =
      .error (.report (.invalidLine "in\x7bx<5:A,bR<3\x7d" 10 none)) := by
    unfold ofLine
    rw [failed]
  obtain ⟨place, before, span, column, again, _, _, ⟨r, proper, begins⟩, _⟩ :=
    column_behind_beginning reported rfl
  rw [failed] at again
  cases again
  exact ⟨_, place, r, reported, span, column, proper, begins⟩

end Statement

end RouteVolume
