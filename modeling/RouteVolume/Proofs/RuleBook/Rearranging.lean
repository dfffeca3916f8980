import RouteVolume.Proofs.RuleBook.Origin

namespace RouteVolume

def Workflow.placeless (w : Workflow) : Workflow := { w with span := none }

def Statement.placeless : Statement → Statement
  | .workflow w => .workflow w.placeless
  | .rating => .rating

def Statement.isRating : Statement → Bool
  | .workflow _ => false
  | .rating => true

theorem Statement.ofLine_placeless (line : String) (span : Option Span) :
    (ofLine line span).toOption.map placeless = (ofLine line none).toOption := by
  unfold ofLine
  cases Record.ofChars line.toList with
  | error pos => rfl
  | ok r =>
    simp only [Record.statement?_eq]
    by_cases short : r.Short
    · simp only [if_pos short]
      cases r <;> rfl
    · simp only [if_neg short]
      rfl

namespace Line

def texts (text : String) : List String := (ofText text).map (·.text)

def Rearranged (text other : String) : Prop := (texts text).Perm (texts other)

theorem texts_numbered (number : Nat) (raws : List String) :
    (numbered number raws).map (·.text) =
      (raws.map Blank.strip).filter fun line => !line.isEmpty := by
  induction raws generalizing number with
  | nil => rfl
  | cons raw rest ih =>
    rw [numbered_cons, List.map_cons, List.filter_cons]
    by_cases blank : (Blank.strip raw).isEmpty
    · simp [blank, ih]
    · simp [blank, ih]

theorem rearranged_of_perm {text other : String}
    (perm : (Blank.lines text).Perm (Blank.lines other)) : Rearranged text other := by
  unfold Rearranged texts ofText
  rw [texts_numbered, texts_numbered]
  exact (perm.map _).filter _

def said? (text : String) : Option Statement := (Statement.ofLine text none).toOption

section Said

variable (source : Option String) (l : Line)

theorem said?_text : said? l.text = (l.statement source).toOption.map Statement.placeless :=
  (Statement.ofLine_placeless l.text (some (l.span source))).symm

theorem said?_isSome : (said? l.text).isSome ↔ ∃ statement, l.statement source = .ok statement := by
  rw [said?_text source, Option.isSome_map]
  cases l.statement source <;> simp [Except.toOption]

theorem placeless_workflow? :
    (l.workflow? source).map Workflow.placeless = (said? l.text).bind Statement.workflow? := by
  rw [said?_text source, workflow?]
  cases l.statement source with
  | error fault => rfl
  | ok statement => cases statement <;> rfl

def isRating : Bool := (l.statement source).toOption.any Statement.isRating

theorem isRating_eq : l.isRating source = (said? l.text).any Statement.isRating := by
  rw [said?_text source, isRating]
  cases l.statement source with
  | error fault => rfl
  | ok statement => cases statement <;> rfl

end Said

section Lines

variable {source : Option String} {lines others : List Line}

theorem Clean.read (clean : Clean source lines) :
    ∀ l ∈ lines, ∃ statement, l.statement source = .ok statement := by
  intro l mem
  obtain ⟨earlier, later, split⟩ := List.append_of_mem mem
  cases said : l.statement source with
  | error fault => exact absurd (.unread said) (clean earlier l later fault split)
  | ok statement => exact ⟨statement, rfl⟩

def names (source : Option String) (lines : List Line) : List String :=
  (lines.filterMap (·.workflow? source)).map (·.name)

theorem unread_or_repeated {earlier : List Line} (later : List Line) {l : Line} {fault : Fault}
    (stops : l.Stops source earlier fault) :
    l.statement source = .error fault ∨ ¬ (names source (earlier ++ l :: later)).Nodup := by
  cases stops with
  | unread failed => exact .inl failed
  | @«repeated» first v w before old new same =>
    refine .inr fun distinct => ?_
    unfold names at distinct
    rw [List.filterMap_append, List.map_append, List.filterMap_cons_some new] at distinct
    have there : v.name ∈ (earlier.filterMap (·.workflow? source)).map (·.name) :=
      List.mem_map_of_mem (List.mem_filterMap.mpr ⟨first, before, old⟩)
    exact (List.nodup_append.mp distinct).2.2 _ there _ List.mem_cons_self same

theorem placeless_workflows (source : Option String) (lines : List Line) :
    (lines.filterMap (·.workflow? source)).map Workflow.placeless =
      (lines.map (·.text)).filterMap fun text => (said? text).bind Statement.workflow? := by
  rw [List.map_filterMap, List.filterMap_map]
  exact List.filterMap_congr fun l _ => placeless_workflow? source l

theorem workflows_perm (source : Option String)
    (perm : (lines.map (·.text)).Perm (others.map (·.text))) :
    ((lines.filterMap (·.workflow? source)).map Workflow.placeless).Perm
      ((others.filterMap (·.workflow? source)).map Workflow.placeless) := by
  rw [placeless_workflows, placeless_workflows]
  exact perm.filterMap _

theorem names_perm (source : Option String)
    (perm : (lines.map (·.text)).Perm (others.map (·.text))) :
    (names source lines).Perm (names source others) := by
  have kept := (workflows_perm source perm).map (·.name)
  rw [List.map_map, List.map_map] at kept
  exact kept

theorem ratings_perm (source : Option String)
    (perm : (lines.map (·.text)).Perm (others.map (·.text))) :
    lines.countP (·.isRating source) = others.countP (·.isRating source) := by
  have counted (lines : List Line) : lines.countP (·.isRating source) =
      (lines.map (·.text)).countP fun text => (said? text).any Statement.isRating := by
    rw [List.countP_map]
    exact List.countP_congr fun l _ => by rw [Function.comp_apply, isRating_eq]
  rw [counted, counted, perm.countP_eq]

theorem read_perm (perm : (lines.map (·.text)).Perm (others.map (·.text)))
    (read : ∀ l ∈ lines, ∃ statement, l.statement source = .ok statement) :
    ∀ l ∈ others, ∃ statement, l.statement source = .ok statement := by
  intro l mem
  obtain ⟨m, there, same⟩ := List.mem_map.mp (perm.mem_iff.mpr (List.mem_map_of_mem mem))
  rw [← said?_isSome, ← same, said?_isSome source]
  exact read m there

end Lines

end Line

theorem Reading.ofLinesFrom_of_read {source : Option String} {number : Nat} {raws : List String}
    (read : ∀ l ∈ Line.numbered number raws, ∃ statement, l.statement source = .ok statement) :
    ofLinesFrom source number raws =
      { workflows := (Line.numbered number raws).filterMap (·.workflow? source)
        ratings := (Line.numbered number raws).countP (·.isRating source) } := by
  induction raws generalizing number with
  | nil => rfl
  | cons raw rest ih =>
    rw [ofLinesFrom_cons]
    rw [Line.numbered_cons] at read ⊢
    by_cases blank : (Blank.strip raw).isEmpty
    · simp only [if_pos blank] at read ⊢
      exact ih read
    · simp only [if_neg blank] at read ⊢
      obtain ⟨⟨statement, said⟩, others⟩ := List.forall_mem_cons.mp read
      rw [List.filterMap_cons, List.countP_cons, Line.workflow?, Line.isRating, said, ih others]
      rw [Line.statement, Line.span] at said
      rw [said]
      cases statement <;> rfl

namespace RuleBook

variable {text other : String} {source : Option String}

def content (b : RuleBook) : List (String × Workflow) :=
  b.sortedEntries.map fun (key, w) => (key, w.placeless)

theorem parts_of_ofText {book : RuleBook} (parsed : ofText text source = .ok book) :
    (∀ l ∈ Line.ofText text, ∃ statement, l.statement source = .ok statement) ∧
      book.entries = Line.entries source (Line.ofText text) := by
  have outcome := Line.outcome_ofText text source
  rw [parsed] at outcome
  cases outcome with
  | complete clean defined => exact ⟨clean.read, defined⟩

theorem content_perm (b : RuleBook) :
    b.content.Perm (b.entries.map fun (key, w) => (key, w.placeless)) :=
  b.sortedEntries_perm.map _

theorem ascending_content (b : RuleBook) : b.content.Pairwise fun x y => x.1 < y.1 :=
  List.pairwise_map.mpr b.ascending_sortedEntries

theorem content_eq_of_perm {b c : RuleBook}
    (perm : (b.entries.map fun (key, w) => (key, w.placeless)).Perm
      (c.entries.map fun (key, w) => (key, w.placeless))) : b.content = c.content := by
  -- No key comes twice, so the order is strict and the entries can stand in it in one way only.
  refine ((b.content_perm.trans perm).trans c.content_perm.symm).eq_of_pairwise ?_
    b.ascending_content c.ascending_content
  intro x y _ _ less greater
  exact absurd greater (String.lt_asymm less)

theorem ofText_of_rearranged {book : RuleBook} (perm : Line.Rearranged text other)
    (parsed : ofText text source = .ok book) :
    ∃ more, ofText other source = .ok more ∧ more.content = book.content := by
  obtain ⟨read, defined⟩ := parts_of_ofText parsed
  have distinct : (Line.names source (Line.ofText text)).Nodup := by
    have keys := book.distinct
    rw [defined, Line.entries, List.map_map] at keys
    exact keys
  have outcome := Line.outcome_ofText other source
  cases result : ofText other source with
  | error fault =>
    rw [result] at outcome
    cases outcome with
    | @stopped earlier l later _ split clean stops =>
      -- The first text would have the line too, or give the name to two workflows.
      rcases Line.unread_or_repeated later stops with failed | again
      · have there : l ∈ Line.ofText other :=
          split ▸ List.mem_append_right _ List.mem_cons_self
        obtain ⟨statement, said⟩ := Line.read_perm perm read l there
        cases said.symm.trans failed
      · exact absurd ((Line.names_perm source perm).nodup_iff.mp distinct) (split ▸ again)
  | ok more =>
    obtain ⟨_, made⟩ := parts_of_ofText result
    have entries (lines : List Line) :
        ((Line.entries source lines).map fun (key, w) => (key, w.placeless)) =
          ((lines.filterMap (·.workflow? source)).map Workflow.placeless).map
            fun w => (w.name, w) := by
      rw [Line.entries, List.map_map, List.map_map]
      rfl
    refine ⟨more, rfl, content_eq_of_perm ?_⟩
    rw [made, defined, entries, entries]
    exact (Line.workflows_perm source perm.symm).map _

end RuleBook

end RouteVolume
