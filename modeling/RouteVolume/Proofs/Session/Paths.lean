import Mathlib.Data.List.Basic
import Mathlib.Data.List.TakeWhile
import RouteVolume.Command.Session

namespace RouteVolume

theorem Path.split_eq_singleton {cs : List Char} (whole : '/' ∉ cs) : split cs = [cs] := by
  induction cs with
  | nil => rfl
  | cons c cs ih =>
    rw [List.mem_cons, not_or] at whole
    rw [split, List.foldr_cons, ← split, ih whole.2]
    exact if_neg (Ne.symm whole.1)

theorem Files.find_of_user {f : Files} {path : Path} {user : String}
    (under : path.user? = some user) (nonzero : '\x00' ∉ user.toList) :
    (f.machine.find path).content = .error .homeless := by
  have asked : ¬ user.contains '\x00' = true := by simp [nonzero]
  unfold Machine.find
  rw [under]
  simp only [if_neg asked]
  rfl

structure IsName (name : String) : Prop where
  filled : name ≠ ""
  whole : '/' ∉ name.toList
  nonzero : '\x00' ∉ name.toList
  proper : name ≠ "." ∧ name ≠ ".."

namespace IsName

variable {name : String}

theorem path_eq (named : IsName name) : Path.ofText name = ⟨"", [name]⟩ := by
  have rootless : (name.toList.takeWhile (· = '/')).length = 0 := by
    rw [List.length_eq_zero_iff, List.takeWhile_eq_nil_iff]
    intro filled slash
    exact named.whole (of_decide_eq_true slash ▸ List.getElem_mem filled)
  have kept : (!name.isEmpty && name ≠ ".") = true := by
    simp [named.filled, named.proper.1]
  unfold Path.ofText
  rw [Path.split_eq_singleton named.whole]
  simp only [rootless, if_true, List.map_singleton, String.ofList_toList, List.filter_singleton, kept,
    cond_true]

theorem find_eq {m : Type → Type} [Monad m] (named : IsName name)
    (own : name.toList.head? ≠ some '~') (machine : Machine m) :
    machine.find (Path.ofText name) =
      machine.content (Path.ofText name) >>= fun content => pure ⟨Path.ofText name, content⟩ := by
  have abroad : (Path.ofText name).user? = none := by
    rw [named.path_eq]
    unfold Path.user?
    dsimp only
    split
    · rename_i first
      rw [first] at own
      exact absurd rfl own
    · rfl
  unfold Machine.find
  rw [abroad]

theorem text_eq (named : IsName name) : (Path.ofText name).text = name := by
  rw [named.path_eq, Path.text]
  simp [named.filled]

theorem read_eq (named : IsName name) (long : 255 < name.utf8ByteSize)
    (short : name.utf8ByteSize ≤ 4095) {f : Files} (folder : f.entry? [] = some .folder) :
    f.read (Path.ofText name) = .error (.lookUp .tooLong) := by
  have looked : (Path.ofText name).refusal? = none := by
    unfold Path.refusal?
    rw [named.text_eq, if_neg (by simp [named.nonzero]), if_neg (Nat.not_lt.mpr short)]
  have isLong : Files.isLongName name = true := decide_eq_true long
  unfold Files.read
  rw [looked, named.path_eq]
  simp only [Files.follow, folder, if_neg named.proper.2, isLong, if_true]
  rfl

end IsName

theorem utf8ByteSize_replicate (c : Char) (n : Nat) :
    (String.ofList (List.replicate n c)).utf8ByteSize = n * c.utf8Size := by
  induction n with
  | zero => simp
  | succ n ih =>
    rw [List.replicate_succ, String.ofList_cons, String.utf8ByteSize_append, ih,
      String.utf8ByteSize_singleton, Nat.succ_mul, Nat.add_comm]

theorem isName_replicate {n : Nat} (several : 2 < n) :
    IsName (String.ofList (List.replicate n 'a')) := by
  have only {c : Char} (other : c ≠ 'a') : c ∉ (String.ofList (List.replicate n 'a')).toList := by
    rw [String.toList_ofList]
    exact fun mem => other (List.eq_of_mem_replicate mem)
  have longer {name : String} (short : name.length ≤ 2) :
      String.ofList (List.replicate n 'a') ≠ name := by
    rintro rfl
    rw [String.length_ofList, List.length_replicate] at short
    omega
  exact ⟨longer (by decide), only (by decide), only (by decide), longer (by decide),
    longer (by decide)⟩

end RouteVolume
