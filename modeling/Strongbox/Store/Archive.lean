import Strongbox.Store.Tables
import Strongbox.Sum
import Strongbox.Tree

/-!
# Databases in files

Relational stores that are kept in the files of a tree.
-/

namespace Strongbox

/-- What the database files hold. -/
structure Archive where
  kept : List (Path × Tables) := []
  deriving Inhabited

namespace Archive

/-- The archive with a store put back into its file. -/
def keep (a : Archive) (p : Path) (tables : Tables) : Archive :=
  ⟨(p, tables) :: a.kept.filter fun entry => entry.1 ≠ p⟩

/-! ## Places -/

/-- What is added to a database's name to name the file of its changes under way. -/
def journalSuffix : String := "-journal"

/-- The longest way to a name, that name included, in bytes. -/
def stepLimit : Nat := 495

def wayLimit : Nat := 489

/-- The length of the way to a place, in bytes, each name with its slash. -/
def wayLength (p : Path) : Nat := sumOver (fun name : String => name.utf8ByteSize + 1) p

/-- One step along the written path of a database. A step upwards takes back the last name, whether
or not anything stands there; a step from a file leads nowhere. -/
def step (tree : Tree) (p : Path) (name : String) : Except Failure Path :=
  if name = "" ∨ name = "." then .ok p
  else if name = ".." then .ok p.dropLast
  else if stepLimit < wayLength p + name.utf8ByteSize then .error (.io "path too long")
  else
    match tree.get? p with
    | none => .ok (p ++ [name])
    | some .folder =>
      if name.utf8ByteSize ≤ nameLimit then .ok (p ++ [name])
      else .error (.io "File name too long (os error 36)")
    | some _ => .error (.io "Not a directory (os error 20)")

/-- The place that a written path stands for: a name in a folder. -/
def place (tree : Tree) (text : String) : Except Failure Path := do
  let p ← ((Text.split '/' text.toList).map String.ofList).foldlM (step tree) []
  if tree.isFolder p then throw (.io "Is a directory (os error 21)")
  if !tree.isFolder p.dropLast then throw (.io "No such file or directory (os error 2)")
  if wayLimit < wayLength p then throw (.io "path too long")
  return p

/-! ## Opening -/

/-- Whether there can be a file for the changes to a database under way. -/
def hasJournal (p : Path) : Bool :=
  match p.getLast? with
  | some name => (name ++ journalSuffix).utf8ByteSize ≤ nameLimit
  | none => false

/-- The store in the file at a place. Nothing, or a lone byte, is a new database; a file with other
contents is none. -/
def stored (a : Archive) (p : Path) (n : Node) : Except Failure Tables :=
  match a.kept.lookup p with
  | some tables => .ok tables
  | none =>
    if 1 < (n.contents?.getD []).length then .error (.io "file is not a database") else .ok {}

/-- The store in the file of a written path, with the place of the file, and the tree afterwards. A
missing file is made before it is looked into. A path with a null character has no answer. -/
def load (a : Archive) (tree : Tree) (text : String) :
    Except (Halt Failure) (Path × Tables) × Tree :=
  let refused {α : Type} (f : Failure) : Except (Halt Failure) α :=
    .error (.failed (.persistence ("open " ++ text ++ ": " ++ f.message)))
  if '\x00' ∈ text.toList then (.error .aborted, tree)
  else
    match place tree text with
    | .error f => (refused f, tree)
    | .ok p =>
      let n := (tree.get? p).getD (.file [])
      let tree := tree.set p n
      if !hasJournal p then (refused (.io "unable to open database file"), tree)
      else
        match a.stored p n with
        | .error f => (refused f, tree)
        | .ok tables => (.ok (p, tables), tree)

end Archive

end Strongbox
