import Strongbox.Tree

/-!
# Working on a file
-/

namespace Strongbox

/-- A name that leads from a folder to one of its entries, and nowhere else. -/
structure IsStep (name : String) : Prop where
  nonempty : name ≠ ""
  not_here : name ≠ "."
  not_up : name ≠ ".."
  single : '/' ∉ name.toList

namespace Tree

variable {t : Tree} {p q : Path} {name old text : String} {n : Node}
  {writes : List (Nat × Bytes)}

theorem isFolder_of_folder (h : t.folder text = .ok p) : t.isFolder p = true := by
  unfold folder at h
  cases hl : t.locate text with
  | error f =>
    rw [hl] at h
    cases h
  | ok p' =>
    rw [hl] at h
    by_cases there : t.isFolder p' = true
    · simp only [bind, Except.bind, if_pos there, pure, Except.pure] at h
      cases h
      exact there
    · simp only [bind, Except.bind, if_neg there] at h
      cases h

/-! ## Drafts -/

/-- A draft is made in a folder, under a name that is free. -/
theorem create_eq_ok_iff {u : Tree} : t.create p name = .ok u ↔
    t.isFolder p = true ∧ t.get? (p ++ [name]) = none ∧ u = t.set (p ++ [name]) (.draft []) := by
  unfold create
  cases hp : t.isFolder p with
  | false => simp
  | true => cases t.get? (p ++ [name]) <;> simp [eq_comm]

/-- A draft takes its name unless a folder of that name is in the way. -/
theorem rename_eq_ok (hname : isEntryName name = true) (clear : t.isFolder (p ++ [name]) = false)
    (hold : t.get? (p ++ [old]) = some n) :
    t.rename p old name = .ok ((t.erase (p ++ [old])).set (p ++ [name]) n.settled) := by
  simp [rename, hname, clear, hold]

/-- A file that has been renamed is the file it was, once it is settled. -/
theorem eq_of_rename {u : Tree} (h : t.rename p old name = .ok u) :
    ∃ n, t.get? (p ++ [old]) = some n ∧
      u = (t.erase (p ++ [old])).set (p ++ [name]) n.settled := by
  unfold rename at h
  split at h
  · cases h
  · split at h
    · cases h
    · split at h <;> cases h
      exact ⟨_, ‹_›, rfl⟩

theorem get?_writeAt_self (offset : Nat) (data : Bytes) (hp : p ≠ [])
    (h : t.get? p = some (.draft writes)) :
    (t.writeAt p offset data).get? p = some (.draft (writes ++ [(offset, data)])) := by
  rw [writeAt, h]
  exact get?_set_self t _ hp

theorem isFolder_set_draft (writes : List (Nat × Bytes)) (hp : p ≠ [])
    (clear : t.isFolder q = false) : (t.set p (.draft writes)).isFolder q = false := by
  by_cases here : q = p
  · rw [here, isFolder, get?_set_self t _ hp]
    rfl
  · rw [isFolder, get?_set_of_ne t _ here]
    exact clear

theorem isFolder_writeAt (offset : Nat) (data : Bytes) (hp : p ≠ []) :
    (t.writeAt p offset data).isFolder q = t.isFolder q := by
  unfold writeAt
  split
  · rename_i writes h
    by_cases here : q = p
    · subst here
      rw [isFolder, isFolder, get?_set_self t _ hp, h]
      rfl
    · rw [isFolder, isFolder, get?_set_of_ne t _ here]
  · rfl

theorem get?_writeAt_of_ne (offset : Nat) (data : Bytes) (h : q ≠ p) :
    (t.writeAt p offset data).get? q = t.get? q := by
  unfold writeAt
  split
  · exact get?_set_of_ne t _ h
  · rfl

end Tree

end Strongbox
