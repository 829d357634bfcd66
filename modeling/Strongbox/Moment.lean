import Strongbox.Text.Pad

/-!
# Moments

A point in time as told at some distance from universal time, and its written form.
-/

namespace Strongbox

/-- A point in time and the offset at which it is told, in seconds. -/
structure Moment where
  seconds : Int
  nanos : Nat
  offset : Int
  deriving Repr, DecidableEq, Inhabited

namespace Moment

structure Date where
  year : Int
  month : Nat
  day : Nat
  deriving Repr, DecidableEq

/-- The date of a day counted from the first of January 1970. Years are taken to start in March, so
that the leap day comes last. -/
def civil (days : Int) : Date :=
  let shifted := days + 719468
  let era := shifted.fdiv 146097
  let dayOfEra := (shifted.fmod 146097).toNat
  let yearOfEra :=
    (dayOfEra - dayOfEra / 1460 + dayOfEra / 36524 - dayOfEra / 146096) / 365
  let dayOfYear := dayOfEra - (365 * yearOfEra + yearOfEra / 4 - yearOfEra / 100)
  let m := (5 * dayOfYear + 2) / 153
  let month := if m < 10 then m + 3 else m - 9
  ⟨yearOfEra + era * 400 + (if month ≤ 2 then 1 else 0), month, dayOfYear - (153 * m + 2) / 5 + 1⟩

/-- The fraction of a second without trailing zeros, or nothing. -/
def fraction (nanos : Nat) : String :=
  if nanos = 0 then ""
  else
    let kept := (Text.digits 9 nanos).toList.reverse.dropWhile (· == '0')
    "." ++ String.ofList kept.reverse

/-- The offset, `Z` for none. -/
def zone (offset : Int) : String :=
  if offset = 0 then "Z"
  else
    let minutes := offset.natAbs / 60
    (if offset < 0 then "-" else "+") ++ Text.digits 2 (minutes / 60) ++ ":"
      ++ Text.digits 2 (minutes % 60)

/-- The Internet date and time. It has room for years of four digits, and for offsets of whole
minutes below a day. -/
def internetText? (t : Moment) : Option String :=
  let told := t.seconds + t.offset
  let date := civil (told.fdiv 86400)
  let clock := (told.fmod 86400).toNat
  if date.year < 0 ∨ 9999 < date.year then none
  else if 24 ≤ t.offset.natAbs / 3600 ∨ t.offset.natAbs % 60 ≠ 0 then none
  else some (Text.digits 4 date.year.toNat ++ "-" ++ Text.digits 2 date.month ++ "-"
    ++ Text.digits 2 date.day ++ "T" ++ Text.digits 2 (clock / 3600) ++ ":"
    ++ Text.digits 2 (clock / 60 % 60) ++ ":" ++ Text.digits 2 (clock % 60)
    ++ fraction t.nanos ++ zone t.offset)

/-- The Internet date and time, or the plain seconds where that has no form. -/
def shown (t : Moment) : String := t.internetText?.getD (toString t.seconds)

def universal (seconds : Int) (nanos : Nat) : Moment := ⟨seconds, nanos, 0⟩

example : civil 0 = ⟨1970, 1, 1⟩ ∧ civil (-1) = ⟨1969, 12, 31⟩ ∧ civil 11016 = ⟨2000, 2, 29⟩ := by
  decide

end Moment

end Strongbox
