import RouteVolume.Proofs.Network.Dot
import RouteVolume.Proofs.Session.Reports
import RouteVolume.Proofs.Session.Results

namespace RouteVolume

namespace Dot

def IsStatement (line : String) (s : Statement) : Prop :=
  ∃ ts, Lexes line.toList (ts ++ [.sign ';']) ∧ (∀ t ∈ ts, t ≠ .sign ';' ∧ t ≠ .sign '}') ∧
    statement ts = some s

theorem lexes_fed {cs : List Char} {ts : List Token} (lexes : Lexes cs ts) :
    Lexes (cs ++ ['\n']) ts := by
  have whole := lexes.append (.blank (c := '\n') rfl)
  rwa [List.append_nil] at whole

theorem statements_of_lines {lines : List String} {ss : List Statement}
    (each : List.Forall₂ IsStatement lines ss) :
    ∃ ts, Lexes (lines.flatMap fun l => l.toList ++ ['\n']) ts ∧
      ∀ rest, statementsFrom [] (ts ++ rest) = (statementsFrom [] rest).map (ss ++ ·) := by
  induction each with
  | nil => exact ⟨[], .nil, fun rest => Option.map_id'.symm⟩
  | @cons l s lines ss first _ ih =>
    obtain ⟨ts, lexes, whole, gives⟩ := first
    obtain ⟨more, others, later⟩ := ih
    refine ⟨(ts ++ [.sign ';']) ++ more, ?_, fun rest => ?_⟩
    · rw [List.flatMap_cons]
      exact (lexes_fed lexes).append others
    · have here : statement (([] : List Token).reverse ++ ts) = some s := gives
      rw [List.append_assoc, List.append_assoc, List.singleton_append,
        statementsFrom_cons whole here, later, Option.map_map]
      rfl

theorem toList_intercalate_concat (lines : List String) (last : String) :
    ("\n".intercalate (lines ++ [last])).toList =
      (lines.flatMap fun l => l.toList ++ ['\n']) ++ last.toList := by
  rw [String.toList_intercalate, List.map_append, List.map_singleton]
  induction lines with
  | nil => simp
  | cons l rest ih =>
    have more : rest.map String.toList ++ [last.toList] ≠ [] := by simp
    obtain ⟨next, others, split⟩ := List.exists_cons_of_ne_nil more
    rw [List.map_cons, List.cons_append, split, List.intercalate_cons_cons, ← split, ih]
    simp

def heading (title : String) : String := "digraph \"" ++ title ++ "\" \x7b"

theorem toList_heading (title : String) :
    (heading title).toList = "digraph".toList ++ ' ' :: '"' :: (title.toList ++ ['"', ' ', '{']) := by
  simp [heading]

theorem lexes_heading {title : String} (enclosed : Enclosed title.toList) :
    Lexes (heading title).toList [.name "digraph".toList, .quoted title.toList, .sign '{'] := by
  have word : Word isNameChar "digraph".toList := by decide
  have behind : Lexes ([' '] ++ ('"' :: (title.toList ++ ['"'])) ++ [' '] ++ ['{']) _ :=
    (((Lexes.blank rfl).append (.quoted enclosed)).append (.blank rfl)).append (.sign rfl)
  have whole := Lexes.name word rfl behind
  rw [toList_heading]
  simpa using whole

theorem read_of_lines {title : String} (enclosed : Enclosed title.toList) {lines : List String}
    {ss : List Statement} (each : List.Forall₂ IsStatement lines ss) :
    read ("\n".intercalate (heading title :: lines ++ ["\x7d"])) = some ⟨title, ss⟩ := by
  obtain ⟨ts, lexes, gives⟩ := statements_of_lines each
  have brace : Lexes "\x7d".toList [.sign '}'] := .sign rfl
  have whole := ((lexes_fed (lexes_heading enclosed)).append lexes).append brace
  have parts : ("\n".intercalate (heading title :: lines ++ ["\x7d"])).toList =
      ((heading title).toList ++ ['\n'] ++ lines.flatMap fun l => l.toList ++ ['\n']) ++
        "\x7d".toList := by
    rw [toList_intercalate_concat, List.flatMap_cons]
  have body : statementsFrom [] (ts ++ [.sign '}']) = some ss := by
    rw [gives, statementsFrom, List.isEmpty_nil, if_pos rfl, Option.map_some, List.append_nil]
  unfold read
  rw [parts, whole.tokens_eq, List.append_assoc]
  change (if Token.name "digraph".toList = .name "digraph".toList then
    (statementsFrom [] (ts ++ [.sign '}'])).bind fun ss =>
      some (Picture.mk (String.ofList title.toList) ss) else none) = _
  rw [if_pos rfl, body, String.ofList_toList]
  rfl

theorem toList_drawing (title : String) (lines : List String) :
    ("\n".intercalate (heading title :: lines ++ ["\x7d"])).toList =
      "digraph".toList ++ ' ' :: '"' :: (title.toList ++ '"' :: ([' ', '{', '\n'] ++
        ((lines.flatMap fun l => l.toList ++ ['\n']) ++ "\x7d".toList))) := by
  rw [toList_intercalate_concat, List.flatMap_cons, toList_heading]
  simp

theorem closed_of_read {text : String} {cs : List Char} {picture : Picture}
    (begins : text.toList = "digraph".toList ++ ' ' :: '"' :: cs)
    (reading : read text = some picture) :
    ∃ left, closed cs = some (picture.title.toList, left) := by
  have word : Word isNameChar "digraph".toList := by decide
  have keyword := Lexes.name word rfl (.blank (c := ' ') rfl)
  have split : text.toList = "digraph".toList ++ [' '] ++ '"' :: cs := by
    rw [begins, List.append_assoc, List.singleton_append]
  unfold read at reading
  rw [split, keyword, tokens_quote] at reading
  obtain ⟨ts, taken, body⟩ := Option.bind_eq_some_iff.mp reading
  obtain ⟨more, quoted, rfl⟩ := Option.map_eq_some_iff.mp taken
  obtain ⟨⟨chars, left⟩, ends, behind⟩ := Option.bind_eq_some_iff.mp quoted
  obtain ⟨others, _, rfl⟩ := Option.map_eq_some_iff.mp behind
  refine ⟨left, ends.trans ?_⟩
  split at body
  · rename_i same
    cases same
    rw [if_pos rfl] at body
    obtain ⟨title, id, rest⟩ := Option.bind_eq_some_iff.mp body
    obtain ⟨ss, _, gives⟩ := Option.bind_eq_some_iff.mp rest
    cases id
    cases gives
    rw [String.toList_ofList]
  · cases body

end Dot

namespace Network

/-- The title that is shown. -/
def shownTitle (title : Option String) : String :=
  if (title.getD "").isEmpty then "rules" else title.getD ""

/-- The label of a node, as far as it can be written. -/
def labelText (n : Node) : String := n.label.toOption.getD ""

/-- What a drawing shows: the nodes by their numbers, and the edges in the direction of
evaluation. -/
def picture (g : Network) (title : String) : Dot.Picture where
  title := title
  statements := .setting "rankdir" "LR" ::
    (g.nodes.zipIdx.map fun (node, number) => .node ("n" ++ toString number)
      [("label", labelText node), ("shape", shape node)]) ++
    g.edges.toList.map fun e => .edge ("n" ++ toString e.target) ("n" ++ toString e.source)
      [("label", e.passage.word)]

open Dot

theorem lexes_number (k : Nat) {c : Char} {ds : List Char} {ts : List Token}
    (other : isNameChar c = false) (next : Lexes (c :: ds) ts) :
    Lexes (("n" ++ toString k).toList ++ c :: ds) (.name ("n" ++ toString k).toList :: ts) := by
  refine .name ⟨by simp, fun d mem => ?_⟩ other next
  have digits : (toString k).toList = Numeral.digits k := String.toList_ofList
  rw [String.toList_append, digits] at mem
  rcases List.mem_append.mp mem with letter | digit
  · rw [List.mem_singleton.mp letter]
    rfl
  · simp [isNameChar, Char.isAlphanum, Numeral.isDigit_of_mem_digits digit]

theorem lexes_label {label : String} (enclosed : Enclosed label.toList) {ds : List Char}
    {ts : List Token} (next : Lexes ds ts) :
    Lexes ([' ', '['] ++ "label".toList ++ '=' :: '"' :: (label.toList ++ '"' :: ds))
      ([.sign '[', .name "label".toList, .sign '=', .quoted label.toList] ++ ts) := by
  have word : Word isNameChar "label".toList := by decide
  have behind := (Lexes.sign (c := '=') rfl).append ((Lexes.quoted enclosed).append next)
  have whole := ((Lexes.blank (c := ' ') rfl).append (.sign (c := '[') rfl)).append
    (.name word rfl behind)
  simpa using whole

theorem word_shape (n : Node) : Word isNameChar (shape n).toList := by
  have all : ∀ s ∈ ["box", "doublecircle", "doubleoctagon", "circle"], Word isNameChar s.toList := by
    decide
  cases n <;> exact all _ (by simp [shape])

theorem label_of_nodeLine {number : Nat} {node : Node} {line : String}
    (written : nodeLine number node = .ok line) :
    node.label = .ok (labelText node) ∧
      line = "  n" ++ toString number ++ " [label=\"" ++ labelText node ++ "\", shape=" ++
        shape node ++ "];" := by
  unfold nodeLine at written
  unfold labelText
  cases labelled : node.label with
  | error fault =>
    rw [labelled] at written
    cases written
  | ok label =>
    rw [labelled] at written
    exact ⟨rfl, (Except.ok.inj written).symm⟩

theorem isStatement_nodeLine {number : Nat} {node : Node} {line : String}
    (enclosed : Enclosed (labelText node).toList) (written : nodeLine number node = .ok line) :
    IsStatement line (.node ("n" ++ toString number)
      [("label", labelText node), ("shape", shape node)]) := by
  obtain ⟨_, rfl⟩ := label_of_nodeLine written
  have word : Word isNameChar "shape".toList := by decide
  have ending := (Lexes.sign (c := ']') rfl).append (.sign (c := ';') rfl)
  have shaped := (Lexes.sign (c := ',') rfl).append ((Lexes.blank (c := ' ') rfl).append
    (.name word rfl ((Lexes.sign (c := '=') rfl).append (.name (word_shape node) rfl ending))))
  have whole := (Lexes.blank (c := ' ') rfl).append ((Lexes.blank (c := ' ') rfl).append
    (lexes_number number rfl (lexes_label enclosed shaped)))
  refine ⟨[.name ("n" ++ toString number).toList, .sign '[', .name "label".toList, .sign '=',
    .quoted (labelText node).toList, .sign ',', .name "shape".toList, .sign '=',
    .name (shape node).toList, .sign ']'], ?_, by simp, ?_⟩
  · simpa using whole
  · simp only [statement, attributes, Token.id?, String.ofList_toList]
    rfl

theorem isStatement_edgeLine {e : Edge} {source target : Nat} (leaves : e.source = source)
    (enters : e.target = target) :
    IsStatement (edgeLine e) (.edge ("n" ++ toString e.target) ("n" ++ toString e.source)
      [("label", e.passage.word)]) := by
  have enclosed : Enclosed e.passage.word.toList := by
    cases e.passage <;> decide
  have ending := (Lexes.sign (c := ']') rfl).append (.sign (c := ';') rfl)
  have onward := (Lexes.blank (c := ' ') rfl).append (Lexes.arrow.append
    ((Lexes.blank (c := ' ') rfl).append (lexes_number source rfl (lexes_label enclosed ending))))
  have whole := (Lexes.blank (c := ' ') rfl).append ((Lexes.blank (c := ' ') rfl).append
    (lexes_number target rfl onward))
  have plain (k : Nat) : toString (k : Int) = toString k := rfl
  unfold edgeLine
  rw [leaves, enters, plain, plain]
  refine ⟨[.name ("n" ++ toString target).toList, .arrow, .name ("n" ++ toString source).toList,
    .sign '[', .name "label".toList, .sign '=', .quoted e.passage.word.toList, .sign ']'], ?_,
    by simp, ?_⟩
  · simpa using whole
  · simp only [statement, attributes, Token.id?, String.ofList_toList]
    rfl

theorem drawing_eq_ok_iff {g : Network} {title : Option String} {text : String} :
    g.drawing title = .ok text ↔ ∃ lines,
      List.Forall₂ (fun place line => nodeLine place.2 place.1 = .ok line) g.nodes.zipIdx lines ∧
      "\n".intercalate (heading (shownTitle title) ::
        ("  rankdir=LR;" :: lines ++ g.edges.toList.map edgeLine) ++ ["\x7d"]) = text := by
  simp only [← mapM_eq_ok_iff]
  unfold drawing drawingLines
  cases g.nodes.zipIdx.mapM fun place => nodeLine place.2 place.1 with
  | error fault => simp [bind, Except.bind, Except.map]
  | ok lines =>
    simp only [bind, Except.bind, pure, Except.pure, Except.map, Except.ok.injEq, exists_eq_left',
      List.cons_append, List.append_assoc]
    rfl

theorem labelled_of_drawing {g : Network} {title : Option String} {text : String}
    (drawn : g.drawing title = .ok text) : ∀ n ∈ g.nodes, n.label = .ok (labelText n) := by
  obtain ⟨lines, written, _⟩ := drawing_eq_ok_iff.mp drawn
  have labelled : List.Forall₂ (fun place _ => place.1.label = .ok (labelText place.1) ∧ True)
      g.nodes.zipIdx lines :=
    written.imp fun _ _ line => ⟨(label_of_nodeLine line).1, trivial⟩
  intro n mem
  obtain ⟨number, place⟩ := List.mem_iff_getElem?.mp mem
  exact ((List.forall₂_and_left _ _).mp labelled).1 (n, number)
    (List.mk_mem_zipIdx_iff_getElem?.mpr place)

structure Drawable (g : Network) : Prop where
  labels : ∀ n ∈ g.nodes, Enclosed (labelText n).toList
  ends : ∀ e ∈ g.edges.toList, 0 ≤ e.source ∧ 0 ≤ e.target

theorem isStatement_setting : IsStatement "  rankdir=LR;" (.setting "rankdir" "LR") := by
  have key : Word isNameChar "rankdir".toList := by decide
  have value : Word isNameChar "LR".toList := by decide
  have whole := (Lexes.blank (c := ' ') rfl).append ((Lexes.blank (c := ' ') rfl).append
    (.name key rfl ((Lexes.sign (c := '=') rfl).append (.name value rfl (.sign (c := ';') rfl)))))
  exact ⟨[.name "rankdir".toList, .sign '=', .name "LR".toList], whole, by simp, rfl⟩

theorem Drawable.read_drawing {g : Network} (drawable : g.Drawable) {title : Option String}
    {text : String} (drawn : g.drawing title = .ok text)
    (enclosed : Enclosed (shownTitle title).toList) :
    read text = some (g.picture (shownTitle title)) := by
  obtain ⟨lines, written, rfl⟩ := drawing_eq_ok_iff.mp drawn
  have nodes : List.Forall₂ IsStatement lines
      (g.nodes.zipIdx.map fun (node, number) => .node ("n" ++ toString number)
        [("label", labelText node), ("shape", shape node)]) := by
    rw [List.forall₂_map_right_iff]
    have labels : ∀ place ∈ g.nodes.zipIdx, Enclosed (labelText place.1).toList :=
      fun place mem => drawable.labels place.1 (List.fst_mem_of_mem_zipIdx mem)
    exact (((List.forall₂_and_left _ _).mpr ⟨labels, written⟩).imp
      fun _ _ ⟨label, line⟩ => isStatement_nodeLine label line).flip
  have edges : List.Forall₂ IsStatement (g.edges.toList.map edgeLine) (g.edges.toList.map fun e =>
      .edge ("n" ++ toString e.target) ("n" ++ toString e.source) [("label", e.passage.word)]) := by
    rw [List.forall₂_map_left_iff, List.forall₂_map_right_iff, List.forall₂_same]
    intro e mem
    obtain ⟨source, target⟩ := drawable.ends e mem
    exact isStatement_edgeLine (Int.toNat_of_nonneg source).symm (Int.toNat_of_nonneg target).symm
  exact read_of_lines enclosed (.cons isStatement_setting (List.rel_append nodes edges))

theorem enclosed_of_read {g : Network} {title : Option String} {text : String}
    (drawn : g.drawing title = .ok text)
    (same : (read text).map (·.title) = some (shownTitle title)) :
    Enclosed (shownTitle title).toList := by
  obtain ⟨picture, reading, shown⟩ := Option.map_eq_some_iff.mp same
  obtain ⟨lines, _, rfl⟩ := drawing_eq_ok_iff.mp drawn
  obtain ⟨left, ends⟩ := closed_of_read (toList_drawing _ _) reading
  rw [shown] at ends
  exact enclosed_of_closed ends

end Network

namespace Dot

def Bare (cs : List Char) : Prop := ∀ c ∈ cs, c ≠ '"' ∧ c ≠ '\\'

theorem Bare.enclosed {cs : List Char} (bare : Bare cs) : Enclosed cs :=
  ⟨fun quote => (bare _ quote).1 rfl, fun last => (bare _ (List.mem_of_getLast? last)).2 rfl⟩

theorem Bare.append {cs ds : List Char} (left : Bare cs) (right : Bare ds) : Bare (cs ++ ds) :=
  fun c mem => (List.mem_append.mp mem).elim (left c) (right c)

theorem bare_of_all {cls : Char → Bool} (quote : cls '"' = false) (escape : cls '\\' = false)
    {cs : List Char} (all : ∀ c ∈ cs, cls c = true) : Bare cs := by
  intro c mem
  have own := all c mem
  constructor <;> rintro rfl
  · exact absurd own (ne_true_of_eq_false quote)
  · exact absurd own (ne_true_of_eq_false escape)

theorem bare_of_write {n : Int} {numeral : String} (written : Numeral.write n = .ok numeral) :
    Bare numeral.toList := by
  have digits : Bare (Numeral.digits n.natAbs) :=
    bare_of_all rfl rfl fun _ mem => Numeral.isDigit_of_mem_digits mem
  have signed : Bare ['-'] := by simp [Bare]
  obtain rfl : String.ofList (Numeral.unlimited n) = numeral := by
    unfold Numeral.write at written
    by_cases short : n.natAbs < Numeral.bound
    · rw [Numeral.write?_of_lt short] at written
      exact Except.ok.inj written
    · rw [Numeral.write?, if_neg short] at written
      cases written
  rw [String.toList_ofList, Numeral.unlimited]
  split
  · exact signed.append digits
  · exact digits

end Dot

namespace Wiring

theorem bare_labelText {r : Rule} {key : String} (name : Word Char.isLower key.toList)
    (attr : Word Char.isLower r.attr.toList) (i : Int) :
    Dot.Bare (Network.labelText (.ofRule r key i)).toList := by
  unfold Network.labelText Node.ofRule Node.label Threshold.text
  have nothing : Dot.Bare "".toList := nofun
  cases position : Numeral.write i with
  | error fault => simpa [position, bind, Except.bind, Except.toOption] using nothing
  | ok number =>
    cases test : Numeral.write r.threshold.value with
    | error fault =>
      simpa [position, test, bind, Except.bind, Except.map, Except.toOption] using nothing
    | ok value =>
      have symbol : Dot.Bare r.threshold.comparison.symbol.toString.toList := by
        cases r.threshold.comparison <;> simp [Dot.Bare, Comparison.symbol]
      have hash : Dot.Bare "#".toList := by simp [Dot.Bare]
      have colon : Dot.Bare ": ".toList := by simp [Dot.Bare]
      have lower {cs : List Char} (word : Word Char.isLower cs) : Dot.Bare cs :=
        Dot.bare_of_all rfl rfl word.all
      have parts := ((((lower name).append hash).append (Dot.bare_of_write position)).append
        colon).append ((lower attr).append (symbol.append (Dot.bare_of_write test)))
      simpa [position, test, bind, Except.bind, pure, Except.pure, Except.map,
        Except.toOption] using parts

theorem drawable_of_ofText {text : String} {source : Option String} {book : RuleBook}
    (read : RuleBook.ofText text source = .ok book) {settings : Settings} {wiring : Wiring}
    (made : ofRuleBook book settings = .ok wiring) : wiring.network.Drawable := by
  obtain ⟨g, draft, _, rfl⟩ := draft_of_ofRuleBook made
  have keyed := RuleBook.keyed_of_ofText read
  constructor
  · intro n mem
    rcases draft.node_cases mem with end_ | ⟨w, known, key, named, i, r, rule, rfl⟩
    · have ends : ∀ n ∈ [Node.reject, .accept, .start],
          Dot.Enclosed (Network.labelText n).toList := by decide
      exact ends n end_
    · obtain ⟨l, _, said⟩ := Line.exists_of_read read known
      have plain := (Workflow.chars_record_of_ofLine (Line.workflow?_eq_some_iff.mp said)).1
      obtain rfl : key = w.name := named.elim id fun stored => (keyed _ stored).symm
      exact (bare_labelText plain.name (plain.rules r (List.mem_of_getElem? rule)).attr i).enclosed
  · intro e mem
    obtain ⟨source, target⟩ := draft.indexed.inside e (Array.mem_toList_iff.mp mem)
    exact ⟨source.1, target.1⟩

/-- The drawing of a network that was made from a rule text. A reader recovers the title, the nodes
with their labels and shapes and the edges against the direction in which they are stored, each in
order, if the title may stand between quotes as it is; and otherwise not even the title. -/
theorem drawing_reads_back {text : String} {source : Option String} {book : RuleBook}
    (read : RuleBook.ofText text source = .ok book) {settings : Settings} {wiring : Wiring}
    (made : ofRuleBook book settings = .ok wiring) (title : Option String) :
    (text.length < Numeral.bound → ∃ drawing, wiring.network.drawing title = .ok drawing) ∧
    ∀ drawing, wiring.network.drawing title = .ok drawing →
      (∀ n ∈ wiring.network.nodes, n.label = .ok (Network.labelText n)) ∧
      (Dot.Enclosed (Network.shownTitle title).toList →
        Dot.read drawing = some (wiring.network.picture (Network.shownTitle title))) ∧
      (¬ Dot.Enclosed (Network.shownTitle title).toList →
        (Dot.read drawing).map (·.title) ≠ some (Network.shownTitle title)) := by
  refine ⟨fun small => ?_, fun drawing drawn => ⟨Network.labelled_of_drawing drawn, ?_, ?_⟩⟩
  · have labelled := label_eq_of_ofRuleBook made (RuleBook.labelled_of_ofText small read)
    exact Network.drawing_returns labelled title
  · exact (drawable_of_ofText read made).read_drawing drawn
  · exact fun open_ same => open_ (Network.enclosed_of_read drawn same)

def sketched : RuleBook where
  entries := [("in", ⟨"in", ⟨"x", .below 3, .accept⟩, [], .reject, some { line := 1 }⟩)]
  distinct := by decide

theorem ofText_sketched : RuleBook.ofText "in{x<3:A,R}" none = .ok sketched := by
  have proper : (Record.workflow ['i', 'n'] ⟨['x'], .below, ['3'], ['A']⟩ [] ['R']).Proper :=
    ⟨by decide, List.forall_mem_singleton.mpr ⟨by decide, by decide, by decide⟩, by decide⟩
  have statement : Statement.ofLine "in{x<3:A,R}" (some { line := 1 }) =
      .ok (.workflow ⟨"in", ⟨"x", .below 3, .accept⟩, [], .reject, some { line := 1 }⟩) :=
    Statement.ofLine_eq_ok_iff.mpr
      ⟨_, proper, by decide, List.forall_mem_singleton.mpr (by decide), rfl⟩
  have lines : Line.ofText "in{x<3:A,R}" = [⟨1, "in{x<3:A,R}"⟩] := by decide
  have said : (Line.mk 1 "in{x<3:A,R}").statement none = _ := statement
  rw [RuleBook.ofText_eq_defineAll, lines]
  unfold Line.made
  rw [said]
  rfl

theorem exists_sketch : ∃ wiring, ofRuleBook sketched {} = .ok wiring ∧
    wiring.network.nodes.length = 4 ∧
    wiring.network.edges.toList = [⟨1, 3, .pass⟩, ⟨0, 3, .fail⟩, ⟨3, 2, .entry⟩] := by
  have returns : (ofRuleBook sketched {}).map (fun w =>
      (w.network.nodes.length, w.network.edges.toList)) =
      .ok (4, [⟨1, 3, .pass⟩, ⟨0, 3, .fail⟩, ⟨3, 2, .entry⟩]) := by cbv
  cases made : ofRuleBook sketched {} with
  | error fault =>
    rw [made] at returns
    cases returns
  | ok wiring =>
    rw [made] at returns
    obtain ⟨nodes, edges⟩ := Prod.mk.inj (Except.ok.inj returns)
    exact ⟨wiring, rfl, nodes, edges⟩

theorem sketched_reads_back :
    RuleBook.ofText "in{x<3:A,R}" none = .ok sketched ∧
    ∃ wiring drawing, ofRuleBook sketched {} = .ok wiring ∧
      wiring.network.nodes.length = 4 ∧
      wiring.network.edges.toList = [⟨1, 3, .pass⟩, ⟨0, 3, .fail⟩, ⟨3, 2, .entry⟩] ∧
      wiring.network.drawing (some "two words") = .ok drawing ∧
      Dot.read drawing = some (wiring.network.picture "two words") := by
  obtain ⟨wiring, made, nodes, edges⟩ := exists_sketch
  obtain ⟨returns, reads⟩ := drawing_reads_back ofText_sketched made (some "two words")
  obtain ⟨drawing, drawn⟩ := returns (Numeral.lt_bound_of_le (by decide))
  exact ⟨ofText_sketched, wiring, drawing, made, nodes, edges, drawn,
    (reads drawing drawn).2.1 (by decide)⟩

/-- A quote in the title ends the title. -/
theorem title_cut_at_quote :
    ∃ wiring drawing, RuleBook.ofText "in{x<3:A,R}" none = .ok sketched ∧
      ofRuleBook sketched {} = .ok wiring ∧
      wiring.network.drawing (some "a\"b") = .ok drawing ∧
      (Dot.read drawing).map (·.title) ≠ some "a\"b" := by
  obtain ⟨wiring, made, _⟩ := exists_sketch
  have small : "in{x<3:A,R}".length < Numeral.bound := Numeral.lt_bound_of_le (by decide)
  have labelled := label_eq_of_ofRuleBook made (RuleBook.labelled_of_ofText small ofText_sketched)
  obtain ⟨drawing, drawn⟩ := Network.drawing_returns labelled (some "a\"b")
  refine ⟨wiring, drawing, ofText_sketched, made, drawn, fun same => ?_⟩
  exact absurd (Network.enclosed_of_read drawn same) (by decide)

end Wiring

end RouteVolume
