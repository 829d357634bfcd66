import Strongbox.Text.Lower

/-!
# Search patterns

Patterns of a table's text search: a percent sign stands for any characters, an underscore for one,
and a backslash takes away the meaning of what follows. Basic letters match in either case, and the
two code points that are no characters match the replacement character.
-/

namespace Strongbox.Pattern

inductive Part where
  | many
  | one
  | letter (c : Char)
  deriving Repr, DecidableEq

/-- The parts of a pattern, unless a backslash ends it. -/
def parts? : List Char → Option (List Part)
  | [] => some []
  | ['\\'] => none
  | '\\' :: c :: rest => (parts? rest).map (.letter c :: ·)
  | '%' :: rest => (parts? rest).map (.many :: ·)
  | '_' :: rest => (parts? rest).map (.one :: ·)
  | c :: rest => (parts? rest).map (.letter c :: ·)

def endings : List Char → List (List Char)
  | [] => [[]]
  | c :: rest => (c :: rest) :: endings rest

/-- What a character is compared by: the case of basic letters does not count, and the last two code
points of the first plane, which are no characters, stand for the replacement character. -/
def fold (c : Char) : Char := if c = '\ufffe' ∨ c = '\uffff' then '\ufffd' else c.toLower

def fits : List Part → List Char → Bool
  | [], s => s.isEmpty
  | [.many], _ => true
  | .many :: rest, s => (endings s).any (fits rest)
  | .one :: rest, s =>
    match s with
    | [] => false
    | _ :: s => fits rest s
  | .letter c :: rest, s =>
    match s with
    | [] => false
    | d :: s => fold c = fold d && fits rest s

/-- Texts are compared up to their first null character. -/
def visible (s : String) : List Char := s.toList.takeWhile (· ≠ '\x00')

def accepts (pattern text : String) : Bool :=
  match parts? (visible pattern) with
  | some parts => fits parts (visible text)
  | none => false

/-- Takes away the meaning of a character that has one. -/
def escape (c : Char) : List Char := if c ∈ ['\\', '%', '_'] then ['\\', c] else [c]

def containing (s : String) : String :=
  String.ofList ('%' :: s.toList.flatMap escape ++ ['%'])

/-- Patterns of more bytes are not searched for. -/
def maxBytes : Nat := 50000

theorem parts?_escape (c : Char) (rest : List Char) :
    parts? (escape c ++ rest) = (parts? rest).map (.letter c :: ·) := by
  unfold escape
  split
  · simp [parts?]
  · rename_i h
    simp only [List.mem_cons, List.not_mem_nil, or_false, not_or] at h
    rw [List.singleton_append, parts?.eq_def]
    split <;> simp_all

/-- The pattern for a text is that text between two gaps. -/
theorem parts?_containing (s : String) :
    parts? (containing s).toList
      = some (.many :: s.toList.map Part.letter ++ [.many]) := by
  have main : ∀ l : List Char,
      parts? (l.flatMap escape ++ ['%']) = some (l.map Part.letter ++ [.many]) := by
    intro l
    induction l with
    | nil => simp [parts?]
    | cons c rest ih => simp [List.append_assoc, parts?_escape, ih]
  simp [containing, parts?, main]

end Strongbox.Pattern
