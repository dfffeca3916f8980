import RouteVolume.Proofs.Record.Scanning
import RouteVolume.Record

namespace RouteVolume

open Scanner

variable {α : Type}

theorem Comparison.symbol_outside {cls : Char → Bool} (below : cls '<' = false)
    (above : cls '>' = false) (k : Comparison) : cls k.symbol = false := by
  cases k with
  | below => exact below
  | above => exact above

namespace Word

variable {cs : List Char}

theorem alpha (word : Word Char.isLower cs) : Word Char.isAlpha cs :=
  ⟨word.nonempty, fun c mem => Bool.or_eq_true_iff.mpr (.inr (word.all c mem))⟩

theorem not_digit (word : Word Char.isAlpha cs) : ∀ c ∈ cs, c.isDigit = false := by
  intro c mem
  have letter : 'A'.toNat ≤ c.toNat ∨ 'a'.toNat ≤ c.toNat := by
    rcases Bool.or_eq_true_iff.mp (word.all c mem) with upper | lower
    · exact .inl (UInt32.le_iff_toNat_le.mp (of_decide_eq_true upper).1)
    · exact .inr (UInt32.le_iff_toNat_le.mp (of_decide_eq_true (Bool.and_eq_true_iff.mp lower).1))
  rw [Bool.eq_false_iff]
  intro digit
  obtain ⟨-, greatest⟩ := Char.isDigit_iff_toNat.mp digit
  have nine : '9'.toNat = 57 := rfl
  have upper : 'A'.toNat = 65 := rfl
  have lower : 'a'.toNat = 97 := rfl
  omega

end Word

namespace RuleForm

def chars (r : RuleForm) : List Char :=
  r.attr ++ r.comparison.symbol :: (r.digits ++ ':' :: r.label)

structure Proper (r : RuleForm) : Prop where
  attr : Word Char.isLower r.attr
  digits : Word Char.isDigit r.digits
  label : Word Char.isAlpha r.label

end RuleForm

namespace Assignment

def chars (a : Assignment) : List Char := a.attr ++ '=' :: a.digits

structure Proper (a : Assignment) : Prop where
  attr : Word Char.isLower a.attr
  digits : Word Char.isDigit a.digits

end Assignment

namespace Record

def commas (pieces : List (List Char)) : List Char := [','].intercalate pieces

def listed (pieces : List (List Char)) : List Char := pieces.flatMap (',' :: ·)

theorem commas_cons (piece : List Char) (pieces : List (List Char)) :
    commas (piece :: pieces) = piece ++ listed pieces := by
  induction pieces generalizing piece with
  | nil => simp [commas, listed, List.intercalate]
  | cons next pieces ih =>
    calc commas (piece :: next :: pieces)
        = piece ++ ',' :: commas (next :: pieces) := by
          simp [commas, List.intercalate]
      _ = piece ++ ',' :: (next ++ listed pieces) := by rw [ih next]
      _ = piece ++ listed (next :: pieces) := by simp [listed]

def chars : Record → List Char
  | .workflow name first rest default =>
    name ++ '{' :: (commas ((first :: rest).map RuleForm.chars ++ [default]) ++ ['}'])
  | .rating first rest => '{' :: (commas ((first :: rest).map Assignment.chars) ++ ['}'])

def Proper : Record → Prop
  | .workflow name first rest default =>
    Word Char.isLower name ∧ (∀ r ∈ first :: rest, r.Proper) ∧ Word Char.isAlpha default
  | .rating first rest => ∀ a ∈ first :: rest, a.Proper

def Spelt (proper : α → Prop) (chars : α → List Char) (cls : Char → Bool) (cs : List Char) (a : α)
    (rest : List Char) : Prop :=
  proper a ∧ cs = chars a ++ rest ∧ Stops cls rest

def AfterComma (spec : List Char → α → List Char → Prop) (cs : List Char) (a : α)
    (rest : List Char) : Prop :=
  ∃ mid, cs = ',' :: mid ∧ spec mid a rest

section Pieces

variable {proper : α → Prop} {chars : α → List Char} {cls : Char → Bool} {cs rest : List Char}
  {items : List α}

theorem stops_listed (comma : cls ',' = false) (stops : Stops cls rest) :
    ∀ pieces : List (List Char), Stops cls (listed pieces ++ rest)
  | [] => stops
  | piece :: pieces => by simp [listed, stops_cons, comma]

theorem listed_of_repeats (repeats : Repeats (AfterComma (Spelt proper chars cls)) cs items rest) :
    (∀ a ∈ items, proper a) ∧ cs = listed (items.map chars) ++ rest := by
  induction repeats with
  | done nothing => simp [listed]
  | more first others ih =>
    obtain ⟨mid, rfl, good, rfl, -⟩ := first
    obtain ⟨allGood, rfl⟩ := ih
    exact ⟨List.forall_mem_cons.mpr ⟨good, allGood⟩, by simp [listed]⟩

theorem repeats_of_listed (comma : cls ',' = false) (good : ∀ a ∈ items, proper a)
    (stops : Stops cls rest)
    (nothing : ∀ a more, ¬ AfterComma (Spelt proper chars cls) rest a more) :
    Repeats (AfterComma (Spelt proper chars cls)) (listed (items.map chars) ++ rest) items
      rest := by
  induction items with
  | nil => exact .done nothing
  | cons a items ih =>
    obtain ⟨goodFirst, goodOthers⟩ := List.forall_mem_cons.mp good
    have text : listed ((a :: items).map chars) ++ rest =
        ',' :: (chars a ++ (listed (items.map chars) ++ rest)) := by
      simp [listed]
    rw [text]
    exact .more ⟨_, rfl, goodFirst, rfl, stops_listed comma stops _⟩ (ih goodOthers)

theorem takes_afterComma {a : α} (next : AfterComma (Spelt proper chars cls) cs a rest) :
    rest.length < cs.length := by
  obtain ⟨mid, rfl, -, rfl, -⟩ := next
  simp only [List.length_cons, List.length_append]
  omega

end Pieces

theorem reads_many {proper : α → Prop} {chars : α → List Char} {cls : Char → Bool}
    {s : Scanner α} (reads : Reads s (Spelt proper chars cls)) :
    Reads (many (literal ',' *> s)) (Repeats (AfterComma (Spelt proper chars cls))) := by
  apply Reads.many _ takes_afterComma
  apply ((Reads.literal ',').seqRight reads).congr
  intro cs a rest
  exact ⟨fun ⟨_, mid, here, there⟩ => ⟨mid, here, there⟩,
    fun ⟨mid, here, there⟩ => ⟨(), mid, here, there⟩⟩

theorem reads_comparison : Reads comparisonScanner fun cs k rest => cs = k.symbol :: rest := by
  have piece (ch : Char) (k : Comparison) : Reads (literal ch *> pure k)
      fun cs l rest => l = k ∧ cs = ch :: rest := by
    apply ((Reads.literal ch).seqRight (Reads.pure k)).congr
    intro cs l rest
    constructor
    · rintro ⟨_, mid, rfl, rfl, rfl⟩
      exact ⟨rfl, rfl⟩
    · rintro ⟨rfl, rfl⟩
      exact ⟨(), rest, rfl, rfl, rfl⟩
  apply ((piece '<' .below).orElse (piece '>' .above)).named.congr
  intro cs k rest
  constructor
  · rintro (⟨rfl, rfl⟩ | ⟨-, rfl, rfl⟩)
    · rfl
    · rfl
  · rintro rfl
    cases k with
    | below => exact .inl ⟨rfl, rfl⟩
    | above => exact .inr ⟨by simp [Comparison.symbol], rfl, rfl⟩

theorem reads_word (cls : Char → Bool) : Reads (named (run cls)) (Spelt (Word cls) id cls) :=
  (Reads.run cls).named

theorem reads_rule : Reads ruleScanner (Spelt RuleForm.Proper RuleForm.chars Char.isAlpha) := by
  have parts := (reads_word Char.isLower).bind fun attr => reads_comparison.bind fun k =>
    (reads_word Char.isDigit).bind fun digits => (Reads.literal ':').bind fun _ =>
      (reads_word Char.isAlpha).bind fun label => Reads.pure (RuleForm.mk attr k digits label)
  apply parts.named.congr
  intro cs r rest
  constructor
  · rintro ⟨attr, _, ⟨attrWord, rfl, -⟩, k, _, rfl, digits, _, ⟨digitsWord, rfl, -⟩, _, _, rfl,
      label, _, ⟨labelWord, rfl, stops⟩, rfl, rfl⟩
    exact ⟨⟨attrWord, digitsWord, labelWord⟩, by simp [RuleForm.chars], stops⟩
  · rintro ⟨⟨attrWord, digitsWord, labelWord⟩, rfl, stops⟩
    refine ⟨r.attr, _, ⟨attrWord, ?_, stops_cons.mpr (r.comparison.symbol_outside rfl rfl)⟩,
      r.comparison, _, rfl, r.digits, _, ⟨digitsWord, rfl, stops_cons.mpr (by decide)⟩, (), _, rfl,
      r.label, rest, ⟨labelWord, rfl, stops⟩, rfl, rfl⟩
    simp [RuleForm.chars]

theorem reads_assignment :
    Reads assignmentScanner (Spelt Assignment.Proper Assignment.chars Char.isDigit) := by
  have parts := (reads_word Char.isLower).bind fun attr => (Reads.literal '=').bind fun _ =>
    (reads_word Char.isDigit).bind fun digits => Reads.pure (Assignment.mk attr digits)
  apply parts.named.congr
  intro cs a rest
  constructor
  · rintro ⟨attr, _, ⟨attrWord, rfl, -⟩, _, _, rfl, digits, _, ⟨digitsWord, rfl, stops⟩, rfl, rfl⟩
    exact ⟨⟨attrWord, digitsWord⟩, by simp [Assignment.chars], stops⟩
  · rintro ⟨⟨attrWord, digitsWord⟩, rfl, stops⟩
    refine ⟨a.attr, _, ⟨attrWord, ?_, stops_cons.mpr (by decide)⟩, (), _, rfl,
      a.digits, rest, ⟨digitsWord, rfl, stops⟩, rfl, rfl⟩
    simp [Assignment.chars]

theorem default_not_rule {label tail : List Char} (word : Word Char.isAlpha label) (r : RuleForm)
    (more : List Char) :
    ¬ AfterComma (Spelt RuleForm.Proper RuleForm.chars Char.isAlpha)
      (',' :: (label ++ '}' :: tail)) r more := by
  -- A default that starts like a rule is none: its letters run up to the brace, those of a rule up
  -- to the comparison.
  rintro ⟨mid, same, good, rfl, -⟩
  have texts : label ++ '}' :: tail =
      r.attr ++ r.comparison.symbol :: (r.digits ++ ':' :: r.label ++ more) := by
    simpa [RuleForm.chars] using same
  obtain ⟨-, behind⟩ := word.eq_of_append good.attr.alpha (stops_cons.mpr (by decide))
    (stops_cons.mpr (r.comparison.symbol_outside rfl rfl)) texts
  have brace := (List.cons.inj behind).1
  cases h : r.comparison <;> simp [h, Comparison.symbol] at brace

theorem reads_rules : Reads rulesScanner fun cs rules rest =>
    ∃ mid, Spelt RuleForm.Proper RuleForm.chars Char.isAlpha cs rules.1 mid ∧
      Repeats (AfterComma (Spelt RuleForm.Proper RuleForm.chars Char.isAlpha)) mid rules.2
        rest := by
  have parts := reads_rule.bind fun first => (reads_many reads_rule).bind fun rest =>
    Reads.pure (first, rest)
  apply parts.named.congr
  rintro cs ⟨first, others⟩ rest
  constructor
  · rintro ⟨_, mid, here, _, _, there, pair, rfl⟩
    cases pair
    exact ⟨mid, here, there⟩
  · rintro ⟨mid, here, there⟩
    exact ⟨first, mid, here, others, rest, there, rfl, rfl⟩

theorem chars_workflow (name : List Char) (first : RuleForm) (rest : List RuleForm)
    (default : List Char) :
    (Record.workflow name first rest default).chars = name ++ '{' :: (first.chars ++
      (listed (rest.map RuleForm.chars) ++ ',' :: (default ++ ['}']))) := by
  simp [chars, commas_cons, listed]

theorem chars_rating (first : Assignment) (rest : List Assignment) :
    (Record.rating first rest).chars =
      '{' :: (first.chars ++ (listed (rest.map Assignment.chars) ++ ['}'])) := by
  simp [chars, commas_cons]

theorem reads_workflow : Reads workflowScanner fun cs r rest =>
    (∃ name first others default, r = .workflow name first others default) ∧ r.Proper ∧
      cs = r.chars ++ rest := by
  have parts := (reads_word Char.isLower).bind fun name => (Reads.literal '{').bind fun _ =>
    reads_rules.bind fun rules => (Reads.literal ',').bind fun _ =>
      (reads_word Char.isAlpha).bind fun label => (Reads.literal '}').bind fun _ =>
        Reads.pure (Record.workflow name rules.1 rules.2 label)
  apply parts.named.congr
  intro cs r rest
  constructor
  · rintro ⟨name, _, ⟨nameWord, rfl, -⟩, _, _, rfl, ⟨first, others⟩, _,
      ⟨_, ⟨good, rfl, -⟩, repeats⟩, _, _, rfl, label, _, ⟨labelWord, rfl, -⟩, _, _, rfl, rfl, rfl⟩
    obtain ⟨allGood, rfl⟩ := listed_of_repeats repeats
    exact ⟨⟨name, first, others, label, rfl⟩,
      ⟨nameWord, List.forall_mem_cons.mpr ⟨good, allGood⟩, labelWord⟩, by simp [chars_workflow]⟩
  · rintro ⟨⟨name, first, others, label, rfl⟩, ⟨nameWord, good, labelWord⟩, rfl⟩
    obtain ⟨firstGood, othersGood⟩ := List.forall_mem_cons.mp good
    have comma : Stops Char.isAlpha (',' :: (label ++ '}' :: rest)) := stops_cons.mpr (by decide)
    have repeats := repeats_of_listed (by decide) othersGood comma (default_not_rule labelWord)
    refine ⟨name, _, ⟨nameWord, ?_, stops_cons.mpr (by decide)⟩, (), _, rfl, (first, others), _,
      ⟨_, ⟨firstGood, rfl, stops_listed (by decide) comma _⟩, repeats⟩, (), _, rfl, label, _,
      ⟨labelWord, rfl, stops_cons.mpr (by decide)⟩, (), rest, rfl, rfl, rfl⟩
    simp [chars_workflow]

theorem reads_rating : Reads ratingScanner fun cs r rest =>
    (∃ first others, r = .rating first others) ∧ r.Proper ∧ cs = r.chars ++ rest := by
  have parts := (Reads.literal '{').bind fun _ => reads_assignment.bind fun first =>
    (reads_many reads_assignment).bind fun others => (Reads.literal '}').bind fun _ =>
      Reads.pure (Record.rating first others)
  apply parts.named.congr
  intro cs r rest
  constructor
  · rintro ⟨_, _, rfl, first, _, ⟨good, rfl, -⟩, others, _, repeats, _, _, rfl, rfl, rfl⟩
    obtain ⟨allGood, rfl⟩ := listed_of_repeats repeats
    exact ⟨⟨first, others, rfl⟩, List.forall_mem_cons.mpr ⟨good, allGood⟩, by simp [chars_rating]⟩
  · rintro ⟨⟨first, others, rfl⟩, good, rfl⟩
    obtain ⟨firstGood, othersGood⟩ := List.forall_mem_cons.mp good
    have brace : Stops Char.isDigit ('}' :: rest) := stops_cons.mpr (by decide)
    have last (a : Assignment) (more : List Char) :
        ¬ AfterComma (Spelt Assignment.Proper Assignment.chars Char.isDigit)
          ('}' :: rest) a more := by
      intro ⟨mid, same, _⟩
      simp at same
    have repeats := repeats_of_listed (by decide) othersGood brace last
    refine ⟨(), _, ?_, first, _, ⟨firstGood, rfl, stops_listed (by decide) brace _⟩, others, _,
      repeats, (), rest, rfl, rfl, rfl⟩
    simp [chars_rating]

theorem reads_record : Reads scanner fun cs r rest => r.Proper ∧ cs = r.chars ++ rest := by
  apply (reads_workflow.orElse reads_rating).named.congr
  intro cs r rest
  constructor
  · rintro (⟨-, spelt⟩ | ⟨-, -, spelt⟩)
    · exact spelt
    · exact spelt
  · rintro ⟨good, rfl⟩
    cases r with
    | workflow name first others default => exact .inl ⟨⟨_, _, _, _, rfl⟩, good, rfl⟩
    | rating first others =>
      refine .inr ⟨?_, ⟨_, _, rfl⟩, good, rfl⟩
      -- the name of a workflow would start with the brace
      rintro _ more ⟨⟨name, _, _, _, rfl⟩, ⟨nameWord, -, -⟩, same⟩
      rw [chars_rating, chars_workflow] at same
      cases name with
      | nil => exact nameWord.nonempty rfl
      | cons c name =>
        have brace := (List.cons.inj same).1
        have lower := nameWord.all c List.mem_cons_self
        rw [← brace] at lower
        exact absurd lower (by decide)

theorem ofChars_eq_ok_iff (text : List Char) (r : Record) :
    ofChars text = .ok r ↔ r.Proper ∧ r.chars = text := by
  unfold ofChars
  rw [reads_record.readAll_eq_ok_iff, List.append_nil, eq_comm]

end Record

end RouteVolume
