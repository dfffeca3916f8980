import Mathlib.Data.List.Basic
import RouteVolume.Text.Blank

namespace RouteVolume.Blank

def Unbroken (cs : List Char) : Prop := ∀ c ∈ cs, isBreak c = false

theorem unbroken_nil : Unbroken [] := nofun

theorem Unbroken.append {cs ds : List Char} (left : Unbroken cs) (right : Unbroken ds) :
    Unbroken (cs ++ ds) :=
  fun c there => (List.mem_append.mp there).elim (left c) (right c)

theorem Unbroken.reverse {cs : List Char} (unbroken : Unbroken cs) : Unbroken cs.reverse :=
  fun c there => unbroken c (List.mem_reverse.mp there)

theorem unbroken_of_mem_linesFrom {line cs l : List Char} (begun : Unbroken line)
    (mem : l ∈ linesFrom line cs) : Unbroken l := by
  fun_induction linesFrom line cs with
  | case1 line empty => cases mem
  | case2 line filled =>
    rw [List.mem_singleton.mp mem]
    exact begun.reverse
  | case3 line rest ih =>
    rcases List.mem_cons.mp mem with rfl | later
    · exact begun.reverse
    · exact ih unbroken_nil later
  | case4 line c rest _ breaks ih =>
    rcases List.mem_cons.mp mem with rfl | later
    · exact begun.reverse
    · exact ih unbroken_nil later
  | case5 line c rest _ goes ih =>
    exact ih (List.forall_mem_cons.mpr ⟨eq_false_of_ne_true goes, begun⟩) mem

theorem linesFrom_cons {c : Char} (goes : isBreak c = false) (line rest : List Char) :
    linesFrom line (c :: rest) = linesFrom (c :: line) rest := by
  rw [linesFrom]
  · rw [if_neg (ne_true_of_eq_false goes)]
  · rintro _ rfl
    cases goes

theorem linesFrom_append (line : List Char) {cs : List Char} (unbroken : Unbroken cs)
    (rest : List Char) :
    linesFrom line (cs ++ rest) = linesFrom (cs.reverse ++ line) rest := by
  induction cs generalizing line with
  | nil => rfl
  | cons c cs ih =>
    obtain ⟨goes, others⟩ := List.forall_mem_cons.mp unbroken
    rw [List.cons_append, linesFrom_cons goes, ih _ others, List.reverse_cons, List.append_assoc,
      List.singleton_append]

theorem linesFrom_break {line : List Char} (begun : Unbroken line) {c : Char}
    (breaks : isBreak c = true) {rest : List Char}
    (alone : ∀ more, c = '\x0d' → rest ≠ '\n' :: more) :
    linesFrom [] (line ++ c :: rest) = line :: linesFrom [] rest := by
  rw [linesFrom_append [] begun, List.append_nil, linesFrom, if_pos breaks, List.reverse_reverse]
  rintro more rfl rfl
  exact alone more rfl rfl

theorem linesFrom_breaks {line : List Char} (begun : Unbroken line) (rest : List Char) :
    linesFrom [] (line ++ '\x0d' :: '\n' :: rest) = line :: linesFrom [] rest := by
  rw [linesFrom_append [] begun, List.append_nil, linesFrom, List.reverse_reverse]

theorem linesFrom_fed {cs : List Char} (unbroken : Unbroken cs) (rest : List Char) :
    linesFrom [] (cs ++ '\n' :: rest) = cs :: linesFrom [] rest :=
  linesFrom_break unbroken rfl fun _ return_ => absurd return_ (by decide)

theorem linesFrom_unbroken {cs : List Char} (unbroken : Unbroken cs) :
    linesFrom [] cs = if cs = [] then [] else [cs] := by
  have alone := linesFrom_append [] unbroken []
  rw [List.append_nil, List.append_nil] at alone
  simp only [alone, linesFrom, List.isEmpty_iff, List.reverse_eq_nil_iff, List.reverse_reverse]

theorem linesFrom_intercalate {ls : List (List Char)} (unbroken : ∀ l ∈ ls, Unbroken l) :
    ls = linesFrom [] (['\n'].intercalate ls) ∨
      ls = linesFrom [] (['\n'].intercalate ls) ++ [[]] := by
  induction ls with
  | nil => exact .inl rfl
  | cons l rest ih =>
    obtain ⟨whole, others⟩ := List.forall_mem_cons.mp unbroken
    -- Only a last line can be lost: any other has a line feed behind it.
    cases rest with
    | nil =>
      rw [List.intercalate_singleton, linesFrom_unbroken whole]
      split
      · rename_i empty
        exact .inr (congrArg ([·]) empty)
      · exact .inl rfl
    | cons next rest =>
      rw [List.intercalate_cons_cons, List.append_assoc, List.singleton_append, linesFrom_fed whole,
        List.cons_append, List.cons.injEq, List.cons.injEq]
      exact (ih others).imp (⟨rfl, ·⟩) (⟨rfl, ·⟩)

theorem lines_intercalate_lines (s : String) :
    lines s = lines ("\n".intercalate (lines s)) ∨
      lines s = lines ("\n".intercalate (lines s)) ++ [""] := by
  have joined : ("\n".intercalate (lines s)).toList =
      ['\n'].intercalate (linesFrom [] s.toList) := by
    unfold lines
    rw [String.toList_intercalate, List.map_map]
    have same : String.toList ∘ String.ofList = id := funext fun _ => String.toList_ofList
    rw [same, List.map_id]
    rfl
  have whole : ∀ l ∈ linesFrom [] s.toList, Unbroken l :=
    fun _ mem => unbroken_of_mem_linesFrom unbroken_nil mem
  have apart := linesFrom_intercalate whole
  have again : lines ("\n".intercalate (lines s)) =
      (linesFrom [] (['\n'].intercalate (linesFrom [] s.toList))).map String.ofList := by
    rw [← joined]
    rfl
  rw [again]
  refine apart.imp (fun same => ?_) (fun longer => ?_)
  · exact congrArg (List.map String.ofList) same
  · refine (congrArg (List.map String.ofList) longer).trans ?_
    rw [List.map_append]
    rfl

theorem lineFeed_not_mem_of_mem_lines {s l : String} (mem : l ∈ lines s) : '\n' ∉ l.toList := by
  obtain ⟨cs, broken, rfl⟩ := List.mem_map.mp mem
  rw [String.toList_ofList]
  intro fed
  have unbroken := unbroken_of_mem_linesFrom unbroken_nil broken
  exact absurd (unbroken _ fed) (by decide)

theorem exists_split_linesFrom {line cs l : List Char} (begun : Unbroken line) {n : Nat}
    (stored : (linesFrom line cs)[n]? = some l) :
    ∃ front back, line.reverse ++ cs = front ++ (l ++ back) ∧
      ∀ w, Unbroken w →
        linesFrom [] (front ++ (w ++ (l ++ back))) = (linesFrom line cs).set n (w ++ l) := by
  fun_induction linesFrom line cs generalizing n with
  | case1 line empty => cases stored
  | case2 line filled =>
    cases n with
    | zero =>
      cases stored
      refine ⟨[], [], by simp, fun w unbroken => ?_⟩
      have more : line.reverse ≠ [] := by simpa using filled
      have whole := linesFrom_unbroken (unbroken.append begun.reverse)
      rw [if_neg (List.append_ne_nil_of_right_ne_nil w more)] at whole
      simpa using whole
    | succ n => cases stored
  | case3 line rest ih =>
    cases n with
    | zero =>
      cases stored
      refine ⟨[], '\x0d' :: '\n' :: rest, rfl, fun w unbroken => ?_⟩
      rw [List.nil_append, ← List.append_assoc, linesFrom_breaks (unbroken.append begun.reverse)]
      rfl
    | succ n =>
      obtain ⟨front, back, split, kept⟩ := ih unbroken_nil stored
      rw [List.reverse_nil, List.nil_append] at split
      refine ⟨line.reverse ++ '\x0d' :: '\n' :: front, back, by simp [split], fun w unbroken => ?_⟩
      rw [List.append_assoc, List.cons_append, List.cons_append, linesFrom_breaks begun.reverse,
        kept w unbroken]
      rfl
  | case4 line c rest alone breaks ih =>
    cases n with
    | zero =>
      cases stored
      refine ⟨[], c :: rest, rfl, fun w unbroken => ?_⟩
      rw [List.nil_append, ← List.append_assoc,
        linesFrom_break (unbroken.append begun.reverse) breaks fun more => alone more]
      rfl
    | succ n =>
      obtain ⟨front, back, split, kept⟩ := ih unbroken_nil stored
      rw [List.reverse_nil, List.nil_append] at split
      refine ⟨line.reverse ++ c :: front, back, by simp [split], fun w unbroken => ?_⟩
      rw [List.append_assoc, List.cons_append, linesFrom_break begun.reverse breaks, kept w unbroken]
      · rfl
      · -- Neither the text nor what is put into it begins with a line feed behind the break.
        rintro more rfl fed
        cases front with
        | nil =>
          cases w with
          | nil => exact alone more rfl (split.trans fed)
          | cons first w =>
            obtain ⟨rfl, _⟩ := List.cons.inj fed
            exact absurd (unbroken '\n' List.mem_cons_self) (by decide)
        | cons first front =>
          obtain ⟨rfl, _⟩ := List.cons.inj fed
          exact alone _ rfl split
  | case5 line c rest _ goes ih =>
    have further : Unbroken (c :: line) :=
      List.forall_mem_cons.mpr ⟨eq_false_of_ne_true goes, begun⟩
    obtain ⟨front, back, split, kept⟩ := ih further stored
    exact ⟨front, back, by simpa using split, kept⟩

theorem exists_split_lines {s raw : String} {n : Nat} (stored : (lines s)[n]? = some raw) :
    ∃ front back, s.toList = front ++ (raw.toList ++ back) ∧ ∀ w, Unbroken w →
      lines (String.ofList (front ++ (w ++ (raw.toList ++ back)))) =
        (lines s).set n (String.ofList (w ++ raw.toList)) := by
  rw [lines, List.getElem?_map, Option.map_eq_some_iff] at stored
  obtain ⟨l, stored, rfl⟩ := stored
  obtain ⟨front, back, split, kept⟩ := exists_split_linesFrom unbroken_nil stored
  rw [String.toList_ofList]
  refine ⟨front, back, split, fun w unbroken => ?_⟩
  rw [lines, String.toList_ofList, kept w unbroken, List.map_set]
  rfl

theorem length_linesFrom_le (line cs : List Char) :
    (linesFrom line cs).length + (linesFrom line cs).flatten.length ≤
      line.length + cs.length + 1 := by
  -- Every line but the last takes a character at which the text breaks.
  fun_induction linesFrom line cs with
  | case1 line empty => exact Nat.zero_le _
  | case2 line filled =>
    rw [List.flatten_singleton, List.length_singleton, List.length_reverse, List.length_nil]
    omega
  | case3 line rest ih =>
    rw [List.flatten_cons, List.length_append, List.length_reverse]
    simp only [List.length_cons, List.length_nil] at ih ⊢
    omega
  | case4 line c rest _ breaks ih =>
    rw [List.flatten_cons, List.length_append, List.length_reverse]
    simp only [List.length_cons, List.length_nil] at ih ⊢
    omega
  | case5 line c rest _ goes ih =>
    simp only [List.length_cons] at ih ⊢
    omega

theorem length_lines_le (s : String) : (lines s).length ≤ s.length + 1 := by
  have fewer := length_linesFrom_le [] s.toList
  rw [List.length_nil, String.length_toList] at fewer
  rw [lines, List.length_map]
  omega

theorem length_le_of_mem_lines {s l : String} (mem : l ∈ lines s) : l.length ≤ s.length := by
  obtain ⟨cs, broken, rfl⟩ := List.mem_map.mp mem
  have shorter := (List.sublist_flatten_of_mem broken).length_le
  have some_ := List.length_pos_of_mem broken
  have fewer := length_linesFrom_le [] s.toList
  rw [List.length_nil, String.length_toList] at fewer
  rw [String.length_ofList]
  omega

theorem length_strip_le (s : String) : (strip s).length ≤ s.length := by
  have front := (List.dropWhile_sublist isBlank (l := s.toList)).length_le
  have back := (List.dropWhile_sublist isBlank
    (l := (s.toList.dropWhile isBlank).reverse)).length_le
  rw [String.length_toList] at front
  rw [List.length_reverse] at back
  rw [strip, trim, String.length_ofList, List.length_reverse]
  exact Nat.le_trans back front

def indent (s : String) : List Char := s.toList.takeWhile isBlank

theorem exists_strip (s : String) :
    ∃ trail, s.toList = indent s ++ ((strip s).toList ++ trail) ∧ ∀ c ∈ trail, isBlank c := by
  let kept := s.toList.dropWhile isBlank
  refine ⟨(kept.reverse.takeWhile isBlank).reverse, ?_, fun c there => ?_⟩
  · rw [strip, trim, String.toList_ofList, ← List.reverse_append, List.takeWhile_append_dropWhile,
      List.reverse_reverse]
    exact List.takeWhile_append_dropWhile.symm
  · exact List.all_eq_true.mp List.all_takeWhile c (List.mem_reverse.mp there)

theorem strip_indented {blanks : List Char} (blank : ∀ c ∈ blanks, isBlank c) (s : String) :
    strip (String.ofList (blanks ++ s.toList)) = strip s := by
  rw [strip, strip, trim, trim, String.toList_ofList, List.dropWhile_append_of_pos blank]

end RouteVolume.Blank
