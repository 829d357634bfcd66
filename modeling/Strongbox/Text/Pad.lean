/-!
# Columns

Filling a text up to a width counted in characters.
-/

namespace Strongbox.Text

def padStart (width : Nat) (fill : Char) (s : String) : String :=
  String.ofList (List.replicate (width - s.length) fill ++ s.toList)

def padEnd (width : Nat) (fill : Char) (s : String) : String :=
  String.ofList (s.toList ++ List.replicate (width - s.length) fill)

/-- A number with at least `width` digits. -/
def digits (width n : Nat) : String := padStart width '0' (toString n)

end Strongbox.Text
