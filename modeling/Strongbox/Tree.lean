import Strongbox.Bytes
import Strongbox.Failure
import Strongbox.Text.Split

/-!
# Directory trees

The files and folders below one root.
-/

namespace Strongbox

/-- The names on the way from the root. -/
abbrev Path := List String

/-- What stands at a path. A draft is a file that is still being written: it keeps each write with
the place it goes to, in order. -/
inductive Node where
  | folder
  | file (contents : Bytes)
  | draft (writes : List (Nat × Bytes))
  deriving Repr, DecidableEq, Inhabited

/-- What stands where below a root folder. -/
structure Tree where
  nodes : List (Path × Node) := []
  deriving Repr, Inhabited

/-- Bytes with other bytes put over them from `offset` on; a gap is filled with zeros. -/
def Bytes.overwrite (b : Bytes) (offset : Nat) (data : Bytes) : Bytes :=
  b.take offset ++ List.replicate (offset - b.length) 0 ++ data ++ b.drop (offset + data.length)

def Node.contents? : Node → Option Bytes
  | folder => none
  | file contents => some contents
  | draft writes => some (writes.foldl (fun b (offset, data) => b.overwrite offset data) [])

def Node.settled (n : Node) : Node := n.contents?.elim n .file

/-- The longest name of an entry, in bytes. -/
def nameLimit : Nat := 255

def isEntryName (name : String) : Bool :=
  !name.isEmpty && name != "." && name != ".." && !name.toList.contains '/'
    && !name.toList.contains '\x00' && name.utf8ByteSize ≤ nameLimit

def joinPath (base name : String) : String :=
  if base.isEmpty || base.toList.getLast? == some '/' then base ++ name else base ++ "/" ++ name

/-- A written path without the steps at its start that lead nowhere. -/
def trimPath (path : String) : String :=
  let steps := (Text.split '/' path.toList).map String.ofList
  "/".intercalate (steps.dropWhile fun step => step = "" ∨ step = ".")

/-- The name that a written path ends in; a path that ends in a step upwards has none. -/
def baseName? (path : String) : Option String :=
  let steps := (Text.split '/' path.toList).filter fun part => !part.isEmpty && part != ['.']
  match steps.getLast? with
  | none => none
  | some part => if part = ['.', '.'] then none else some (String.ofList part)

namespace Tree

/-- What stands at a path. The root is a folder. -/
def get? (t : Tree) (p : Path) : Option Node :=
  if p = [] then some .folder else (t.nodes.find? fun entry => entry.1 = p).map (·.2)

def set (t : Tree) (p : Path) (n : Node) : Tree :=
  ⟨(p, n) :: t.nodes.filter fun entry => entry.1 ≠ p⟩

def erase (t : Tree) (p : Path) : Tree := ⟨t.nodes.filter fun entry => entry.1 ≠ p⟩

def isFolder (t : Tree) (p : Path) : Bool := t.get? p == some .folder

@[simp] theorem get?_set_self {p : Path} (t : Tree) (n : Node) (h : p ≠ []) :
    (t.set p n).get? p = some n := by
  simp [get?, set, h]

@[simp] theorem get?_erase_self {p : Path} (t : Tree) (h : p ≠ []) :
    (t.erase p).get? p = none := by
  simp only [get?, erase, if_neg h, List.find?_filter]
  simp

theorem get?_erase_of_ne {p q : Path} (t : Tree) (h : q ≠ p) :
    (t.erase p).get? q = t.get? q := by
  have same : (fun entry : Path × Node => decide (decide (entry.1 ≠ p) = true ∧
      decide (entry.1 = q) = true)) = fun entry => decide (entry.1 = q) := by
    funext entry
    by_cases hq : entry.1 = q <;> simp [hq, h]
  simp only [get?, erase, List.find?_filter, same]

theorem get?_set_of_ne {p q : Path} (t : Tree) (n : Node) (h : q ≠ p) :
    (t.set p n).get? q = t.get? q := by
  rw [← get?_erase_of_ne t h]
  simp [get?, set, erase, h.symm]

/-! ## Written paths -/

/-- One step along a written path, from a folder. -/
def walk (t : Tree) (p : Path) (name : String) : Except Failure Path :=
  if !t.isFolder p then .error (.io "Not a directory (os error 20)")
  else if name = "" ∨ name = "." then .ok p
  else if name = ".." ∧ p ≠ [] then .ok p.dropLast
  else
    match t.get? (p ++ [name]) with
    | some _ => .ok (p ++ [name])
    | none => .error (.io "No such file or directory (os error 2)")

/-- Where a written path leads from the root. Nothing outside the tree is reached. -/
def locate (t : Tree) (text : String) : Except Failure Path :=
  if text.toList.head? = some '/' then .error (.io "No such file or directory (os error 2)")
  else ((Text.split '/' text.toList).map String.ofList).foldlM t.walk []

def folder (t : Tree) (text : String) : Except Failure Path := do
  let p ← t.locate text
  if t.isFolder p then return p else throw (.io "Not a directory (os error 20)")

def read (t : Tree) (text : String) : Except Failure Bytes := do
  match (t.get? (← t.locate text)).bind Node.contents? with
  | some contents => return contents
  | none => throw (.io "Is a directory (os error 21)")

/-! ## Working on a file -/

def create (t : Tree) (p : Path) (name : String) : Except Failure Tree :=
  if !t.isFolder p then .error (.io "No such file or directory (os error 2)")
  else if (t.get? (p ++ [name])).isSome then .error (.io "File exists (os error 17)")
  else .ok (t.set (p ++ [name]) (.draft []))

def writeAt (t : Tree) (p : Path) (offset : Nat) (data : Bytes) : Tree :=
  match t.get? p with
  | some (.draft writes) => t.set p (.draft (writes ++ [(offset, data)]))
  | _ => t

/-- The tree with a file renamed within its folder; a draft is then done. A file of the new name is
replaced, a folder of that name is in the way. -/
def rename (t : Tree) (p : Path) (old new : String) : Except Failure Tree :=
  if !isEntryName new then .error (.io "File name too long (os error 36)")
  else if t.isFolder (p ++ [new]) then .error (.io "Is a directory (os error 21)")
  else
    match t.get? (p ++ [old]) with
    | some n => .ok ((t.erase (p ++ [old])).set (p ++ [new]) n.settled)
    | none => .error (.io "No such file or directory (os error 2)")

/-- The tree with a file, and the folders on the way to it. -/
def plant (t : Tree) (p : Path) (n : Node) : Tree :=
  let folders := (List.range p.length).map fun k => p.take k
  (folders.foldl (fun t q => if q = [] then t else t.set q .folder) t).set p n

end Tree

end Strongbox
