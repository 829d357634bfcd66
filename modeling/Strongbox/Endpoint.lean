/-!
# Endpoints

Which texts can name the place where a service listens: a scheme and an authority, and then a path
and a query; or an authority alone, or a path alone; or a socket of the machine itself.
-/

namespace Strongbox.Endpoint

/-- The length of the longest endpoint, in bytes. -/
def lengthLimit : Nat := 65534

def schemeLimit : Nat := 64

/-- The most colons that an authority can have in a row of groups. -/
def colonLimit : Nat := 8

def isSchemeChar (c : Char) : Bool := c.isAlphanum || "+-.~".toList.contains c

/-- Characters of an authority that stand for themselves. -/
def isPlain (c : Char) : Bool := c.isAlphanum || "!$&'()*+,-.;=_~".toList.contains c

/-- The scheme, and what follows it and its two slashes. -/
def scheme? (s : List Char) : Option (List Char × List Char) :=
  match s.span isSchemeChar with
  | (name, ':' :: '/' :: '/' :: rest) => some (name, rest)
  | _ => none

/-- The part of a text that an authority would fill, and the rest. -/
def cutAuthority (s : List Char) : List Char × List Char :=
  s.span fun c => !"/?#".toList.contains c

/-! ## Authorities -/

/-- What has been seen of an authority. Colons and percent signs are forgotten where they turn out
to stand before the host, or within its brackets. -/
structure Scan where
  colons : Nat := 0
  opened : Bool := false
  closed : Bool := false
  percent : Bool := false
  deriving Repr, DecidableEq

def Scan.step (s : Scan) (c : Char) : Option Scan :=
  if c = ':' then if s.colons < colonLimit then some { s with colons := s.colons + 1 } else none
  else if c = '[' then if s.percent || s.opened then none else some { s with opened := true }
  else if c = ']' then
    if s.opened && !s.closed then some { s with closed := true, colons := 0, percent := false }
    else none
  else if c = '@' then some { s with colons := 0, percent := false }
  else if c = '%' then some { s with percent := true }
  else if isPlain c then some s
  else none

/-- User, host and port. -/
def isAuthority (s : List Char) : Bool :=
  match s.foldlM Scan.step {} with
  | none => false
  | some seen =>
    seen.opened == seen.closed && seen.colons ≤ 1 && !seen.percent && s.getLast? != some '@'

/-! ## Locations -/

/-- Characters of a path: neither blanks nor controls, nor those with a meaning of their own. -/
def isPathChar (c : Char) : Bool := '!' ≤ c && !"#<>?\x60\x7f".toList.contains c

def isQueryChar (c : Char) : Bool := '!' ≤ c && !"\"#<>\x7f".toList.contains c

/-- Path, query and fragment; a fragment may hold anything. -/
def isLocation (s : List Char) : Bool :=
  match s.span isPathChar with
  | (_, []) | (_, '#' :: _) => true
  | (_, '?' :: rest) =>
    match rest.span isQueryChar with
    | (_, []) | (_, '#' :: _) => true
    | _ => false
  | _ => false

/-! ## Endpoints -/

/-- What begins the name of a socket of the machine; its path follows. -/
def localScheme : String := "unix:"

/-- Whether a text names a socket of the machine, by any path at all. -/
def isLocal (text : String) : Bool := localScheme.toList.isPrefixOf text.toList

/-- Whether a text can name the place where a service listens. -/
def isWellFormed (text : String) : Bool :=
  let s := text.toList
  if isLocal text then true
  else if s.isEmpty || lengthLimit < text.utf8ByteSize then false
  else if s = ['*'] then true
  else if s.head? = some '/' then isLocation s
  else
    match scheme? s with
    | some (name, rest) =>
      let (authority, location) := cutAuthority rest
      name.length ≤ schemeLimit && !authority.isEmpty && isAuthority authority
        && isLocation location
    | none => (cutAuthority s).2.isEmpty && isAuthority s

example : isWellFormed "http://127.0.0.1:1" = true ∧ isWellFormed "" = false
    ∧ isWellFormed "a b" = false ∧ isWellFormed "http://[::1" = false
    ∧ isWellFormed "unix:a b" = true := by decide +kernel

end Strongbox.Endpoint
