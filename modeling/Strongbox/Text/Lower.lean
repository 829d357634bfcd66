import Strongbox.Text.CaseTable

/-!
# Lower-casing

Whole-text lower-casing with the full mapping: one character may become two, and a capital sigma
takes its final form at the end of a word.
-/

namespace Strongbox.Text

/-- Lower case of one character, out of context. -/
def lowerChar (c : Char) : List Char :=
  if c = '\u0130' then ['i', '\u0307']
  else [Char.ofNat ((caseRuns.findSome? (·.map? c.toNat)).getD c.toNat)]

/-- Past the characters that case rules look through, the first one has case. -/
def meetsCased : List Char → Bool
  | [] => false
  | c :: rest =>
    if ignorableFlips.covers c.toNat then meetsCased rest else casedFlips.covers c.toNat

/-- A letter with case stands before, nearest first, and none after. -/
def endsWord (before after : List Char) : Bool := meetsCased before && !meetsCased after

/-- Lower case of the text `after`, which follows the reversed text `before`. -/
def lowerAfter (before : List Char) : List Char → List Char
  | [] => []
  | c :: rest =>
    (if c = 'Σ' then [if endsWord before rest then 'ς' else 'σ'] else lowerChar c)
      ++ lowerAfter (c :: before) rest

def lower (s : List Char) : List Char := lowerAfter [] s

/-- Lower case of the twenty-six basic letters only. -/
def lowerAscii (s : List Char) : List Char := s.map Char.toLower

example : lower "ΑΣ ΣΑ".toList = "ας σα".toList := by decide +kernel

end Strongbox.Text
