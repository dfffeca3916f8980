import RouteVolume.Proofs.Record.Scanning

namespace RouteVolume.Dot

inductive Token where
  | name (chars : List Char)
  | quoted (chars : List Char)
  | sign (c : Char)
  | arrow
  deriving DecidableEq, Repr

def closed : List Char → Option (List Char × List Char)
  | [] => none
  | '\\' :: '"' :: rest => (closed rest).map fun (chars, left) => ('"' :: chars, left)
  | '"' :: rest => some ([], rest)
  | c :: rest => (closed rest).map fun (chars, left) => (c :: chars, left)

theorem length_of_closed {cs chars left : List Char} (ends : closed cs = some (chars, left)) :
    left.length < cs.length := by
  fun_induction closed cs generalizing chars with
  | case1 => cases ends
  | case2 rest ih =>
    obtain ⟨_, within, same⟩ := Option.map_eq_some_iff.mp ends
    cases same
    exact Nat.lt_trans (ih within) (Nat.lt_add_of_pos_right (Nat.succ_pos 1))
  | case3 rest =>
    cases ends
    exact Nat.lt_succ_self _
  | case4 c rest _ _ ih =>
    obtain ⟨_, within, same⟩ := Option.map_eq_some_iff.mp ends
    cases same
    exact Nat.lt_trans (ih within) (Nat.lt_succ_self _)

def isNameChar (c : Char) : Bool := c.isAlphanum || c = '_'

def isSign (c : Char) : Bool := c ∈ ['{', '}', '[', ']', '=', ',', ';']

def tokens : List Char → Option (List Token)
  | [] => some []
  | '-' :: '>' :: rest => (tokens rest).map (.arrow :: ·)
  | '"' :: rest =>
    match _ends : closed rest with
    | none => none
    | some (chars, left) => (tokens left).map (.quoted chars :: ·)
  | c :: rest =>
    if c.isWhitespace then tokens rest
    else if isNameChar c then
      (tokens (rest.dropWhile isNameChar)).map (.name (c :: rest.takeWhile isNameChar) :: ·)
    else if isSign c then (tokens rest).map (.sign c :: ·)
    else none
termination_by cs => cs.length
decreasing_by
  · exact Nat.lt_add_of_pos_right (Nat.succ_pos 1)
  · exact Nat.lt_trans (length_of_closed _ends) (Nat.lt_succ_self _)
  · exact Nat.lt_succ_self _
  · exact Nat.lt_succ_of_le (List.dropWhile_sublist isNameChar).length_le
  · exact Nat.lt_succ_self _

def Token.id? : Token → Option String
  | .name chars | .quoted chars => some (String.ofList chars)
  | _ => none

inductive Statement where
  | setting (key value : String)
  | node (id : String) (attributes : List (String × String))
  | edge (tail head : String) (attributes : List (String × String))
  deriving DecidableEq, Repr

def attributes : List Token → Option (List (String × String))
  | [key, .sign '=', value, .sign ']'] => do pure [(← key.id?, ← value.id?)]
  | key :: .sign '=' :: value :: .sign ',' :: rest => do
    let first := (← key.id?, ← value.id?)
    pure (first :: (← attributes rest))
  | _ => none

def statement : List Token → Option Statement
  | [key, .sign '=', value] => do pure (.setting (← key.id?) (← value.id?))
  | id :: .sign '[' :: rest => do pure (.node (← id.id?) (← attributes rest))
  | tail :: .arrow :: head :: .sign '[' :: rest => do
    pure (.edge (← tail.id?) (← head.id?) (← attributes rest))
  | _ => none

def statementsFrom (begun : List Token) : List Token → Option (List Statement)
  | [] => none
  | [.sign '}'] => if begun.isEmpty then some [] else none
  | .sign ';' :: rest => do
    let first ← statement begun.reverse
    pure (first :: (← statementsFrom [] rest))
  | token :: rest => statementsFrom (token :: begun) rest

structure Picture where
  title : String
  statements : List Statement
  deriving DecidableEq, Repr

def read (text : String) : Option Picture := do
  match ← tokens text.toList with
  | keyword :: title :: .sign '{' :: rest =>
    if keyword = .name "digraph".toList then
      pure ⟨← title.id?, ← statementsFrom [] rest⟩
    else none
  | _ => none

/-- May the string stand between quotes as it is? -/
def Enclosed (cs : List Char) : Prop := '"' ∉ cs ∧ cs.getLast? ≠ some '\\'

instance (cs : List Char) : Decidable (Enclosed cs) := inferInstanceAs (Decidable (_ ∧ _))

theorem enclosed_cons {c : Char} {cs : List Char} :
    Enclosed (c :: cs) ↔ c ≠ '"' ∧ (cs = [] → c ≠ '\\') ∧ Enclosed cs := by
  cases cs with
  | nil => simp [Enclosed, eq_comm]
  | cons d cs => simp [Enclosed, and_assoc, eq_comm]

theorem closed_cons {c : Char} {rest : List Char} (other : c ≠ '"')
    (alone : c = '\\' → ∀ left, rest ≠ '"' :: left) :
    closed (c :: rest) = (closed rest).map fun (chars, left) => (c :: chars, left) := by
  rw [closed]
  · rintro left rfl rfl
    exact alone rfl left rfl
  · exact other

theorem closed_append {cs : List Char} (enclosed : Enclosed cs) (rest : List Char) :
    closed (cs ++ '"' :: rest) = some (cs, rest) := by
  induction cs with
  | nil => rfl
  | cons c cs ih =>
    obtain ⟨other, last, others⟩ := enclosed_cons.mp enclosed
    rw [List.cons_append, closed_cons other, ih others]
    · rfl
    · rintro escape left same
      cases cs with
      | nil => exact last rfl escape
      | cons d cs =>
        obtain ⟨rfl, _⟩ := List.cons.inj same
        exact (enclosed_cons.mp others).1 rfl

theorem enclosed_of_closed {cs rest left : List Char}
    (ends : closed (cs ++ '"' :: rest) = some (cs, left)) : Enclosed cs := by
  induction cs with
  | nil => exact ⟨List.not_mem_nil, nofun⟩
  | cons c cs ih =>
    by_cases quote : c = '"'
    · subst quote
      cases ends
    by_cases dyad : c = '\\' ∧ ∃ more, cs ++ '"' :: rest = '"' :: more
    · obtain ⟨rfl, more, same⟩ := dyad
      rw [List.cons_append, same, closed] at ends
      obtain ⟨_, _, differs⟩ := Option.map_eq_some_iff.mp ends
      exact absurd (congrArg (fun pair => pair.1.head?) differs) (by simp)
    · have alone : c = '\\' → ∀ more, cs ++ '"' :: rest ≠ '"' :: more :=
        fun escape more same => dyad ⟨escape, more, same⟩
      rw [List.cons_append, closed_cons quote alone] at ends
      obtain ⟨⟨chars, more⟩, within, same⟩ := Option.map_eq_some_iff.mp ends
      cases same
      refine enclosed_cons.mpr ⟨quote, ?_, ih within⟩
      rintro rfl escape
      exact alone escape rest rfl

def Lexes (cs : List Char) (ts : List Token) : Prop :=
  ∀ rest, tokens (cs ++ rest) = (tokens rest).map (ts ++ ·)

theorem tokens_quote (cs : List Char) :
    tokens ('"' :: cs) =
      (closed cs).bind fun (chars, left) => (tokens left).map (.quoted chars :: ·) := by
  rw [tokens]
  split
  · rename_i none_
    rw [none_]
    rfl
  · rename_i some_
    rw [some_]
    rfl

namespace Lexes

variable {c : Char} {cs ds : List Char} {ts us : List Token}

theorem nil : Lexes [] [] := fun rest => by simp

theorem append (first : Lexes cs ts) (second : Lexes ds us) : Lexes (cs ++ ds) (ts ++ us) := by
  intro rest
  rw [List.append_assoc, first, second, Option.map_map]
  simp [Function.comp_def]

theorem tokens_eq (lexes : Lexes cs ts) : tokens cs = some ts := by
  have whole := lexes []
  rw [List.append_nil, tokens] at whole
  simpa using whole

theorem cons_plain (plain : c ≠ '"' ∧ c ≠ '-') (rest : List Char) :
    tokens (c :: rest) =
      if c.isWhitespace then tokens rest
      else if isNameChar c then
        (tokens (rest.dropWhile isNameChar)).map (.name (c :: rest.takeWhile isNameChar) :: ·)
      else if isSign c then (tokens rest).map (.sign c :: ·)
      else none := by
  rw [tokens]
  · rintro _ rfl
    exact absurd rfl plain.2
  · exact plain.1

theorem blank (blank : c.isWhitespace = true) : Lexes [c] [] := by
  intro rest
  have plain : c ≠ '"' ∧ c ≠ '-' := by
    constructor <;> rintro rfl <;> cases blank
  rw [List.singleton_append, cons_plain plain, if_pos blank]
  exact Option.map_id'.symm

theorem sign (sign : isSign c = true) : Lexes [c] [.sign c] := by
  intro rest
  simp only [isSign, decide_eq_true_eq, List.mem_cons, List.not_mem_nil, or_false] at sign
  rw [List.singleton_append]
  rcases sign with rfl | rfl | rfl | rfl | rfl | rfl | rfl <;>
    exact cons_plain (by decide) rest

theorem arrow : Lexes ['-', '>'] [.arrow] := by
  intro rest
  rw [List.cons_append, List.singleton_append, tokens]
  rfl

theorem quoted (enclosed : Enclosed cs) : Lexes ('"' :: (cs ++ ['"'])) [.quoted cs] := by
  intro rest
  have ends : closed (cs ++ ['"'] ++ rest) = some (cs, rest) := by
    rw [List.append_assoc]
    exact closed_append enclosed rest
  rw [List.cons_append, tokens_quote, ends]
  rfl

theorem name (word : Word isNameChar cs) (other : isNameChar c = false)
    (next : Lexes (c :: ds) ts) : Lexes (cs ++ c :: ds) (.name cs :: ts) := by
  intro rest
  cases cs with
  | nil => exact absurd rfl word.nonempty
  | cons a cs =>
    have first : isNameChar a = true := word.all a List.mem_cons_self
    have plain : a ≠ '"' ∧ a ≠ '-' := by
      constructor <;> rintro rfl <;> cases first
    have unblank : ¬ a.isWhitespace = true := by
      intro blank
      simp only [Char.isWhitespace, Bool.or_eq_true, decide_eq_true_eq] at blank
      rcases blank with ((rfl | rfl) | rfl) | rfl <;> cases first
    have ends : Stops isNameChar (c :: ds ++ rest) := stops_cons.mpr other
    obtain ⟨taken, left⟩ := word.span ends
    rw [List.cons_append, List.takeWhile_cons_of_pos first, List.cons.injEq] at taken
    rw [List.cons_append, List.dropWhile_cons_of_pos first] at left
    rw [List.append_assoc, List.cons_append, cons_plain plain, if_neg unblank, if_pos first, left,
      taken.2, next, Option.map_map]
    rfl

end Lexes

theorem statementsFrom_cons {begun ts rest : List Token} {s : Statement}
    (whole : ∀ t ∈ ts, t ≠ .sign ';' ∧ t ≠ .sign '}')
    (gives : statement (begun.reverse ++ ts) = some s) :
    statementsFrom begun (ts ++ .sign ';' :: rest) = (statementsFrom [] rest).map (s :: ·) := by
  induction ts generalizing begun with
  | nil =>
    rw [List.append_nil] at gives
    rw [List.nil_append, statementsFrom, gives]
    cases statementsFrom [] rest <;> rfl
  | cons t ts ih =>
    obtain ⟨⟨separator, brace⟩, others⟩ := List.forall_mem_cons.mp whole
    rw [List.cons_append, statementsFrom]
    · exact ih others (by simpa using gives)
    · rintro same
      exact absurd same brace
    · exact separator

end RouteVolume.Dot
