import Strongbox.Text.Split

/-!
# Reading arguments

Words after a program's name: options, values and positions, which fill in a draft. A word with a
value is taken in only when the next one comes, so of two mistakes the later one may be reported.
-/

namespace Strongbox

/-- Why arguments cannot be used; asking for help or for the version counts. -/
inductive Usage where
  | helpWanted
  | versionWanted
  | nothingGiven
  | missingCommand
  | unknownCommand
  | unknownArgument
  | missingValue
  | badValue (text : String)
  | unwantedValue
  | missingArgument
  | repeatedArgument
  deriving Repr, DecidableEq

/-- An option or a position, which fills in part of a draft. -/
structure Parameter (σ : Type) where
  name : String
  repeats : Bool := false
  set : σ → String → Except Usage σ

/-- A parameter of part of a draft, as one of the whole. -/
def Parameter.within {σ τ : Type} (p : Parameter τ) (get : σ → τ) (put : σ → τ → σ) :
    Parameter σ where
  name := p.name
  repeats := p.repeats
  set s v := (p.set (get s) v).map (put s)

/-- What can stand at one level of a command: options, positions in order, and the names of commands
of the next level. -/
structure Level (σ : Type) where
  options : List (Parameter σ)
  positions : List (Parameter σ) := []
  commands : List String := []
  hasVersion : Bool := false

/-- The command that explains the others. -/
def helpCommand : String := "help"

inductive Word where
  | escape
  | long (name : String) (value : Option String)
  | short (flags : List Char)
  | plain
  deriving Repr, DecidableEq

/-- The shape of an argument: two dashes begin a long option, one dash short ones. -/
def Word.ofString (s : String) : Word :=
  match s.toList with
  | ['-', '-'] => .escape
  | '-' :: '-' :: rest =>
    match Text.cut? '=' rest with
    | some (name, value) => .long (String.ofList name) (some (String.ofList value))
    | none => .long (String.ofList rest) none
  | '-' :: flag :: flags => .short (flag :: flags)
  | _ => .plain

/-- How far reading has come: the draft, the parameters taken in, one parameter not yet taken in,
the positions still open, and whether an escape has made the rest positions. -/
structure Progress (σ : Type) where
  draft : σ
  taken : List String
  pending : Option (Parameter σ × Option String)
  positions : List (Parameter σ)
  escaped : Bool

namespace Progress

variable {σ : Type}

/-- Nothing read yet. -/
def start (level : Level σ) (draft : σ) : Progress σ := ⟨draft, [], none, level.positions, false⟩

def awaiting? (p : Progress σ) : Option (Parameter σ) :=
  match p.pending with
  | some (parameter, none) => some parameter
  | _ => none

def take (p : Progress σ) (parameter : Parameter σ) (value : String) :
    Except Usage (Progress σ) := do
  if !parameter.repeats && p.taken.contains parameter.name then throw .repeatedArgument
  let draft ← parameter.set p.draft value
  return { p with draft := draft, taken := parameter.name :: p.taken }

/-- Takes in what is pending. -/
def settle (p : Progress σ) : Except Usage (Progress σ) :=
  match p.pending with
  | none => .ok p
  | some (_, none) => .error .missingValue
  | some (parameter, some value) => { p with pending := none }.take parameter value

end Progress

namespace Level

variable {σ : Type}

/-- A long option, with its value if one is attached. -/
def stepLong (level : Level σ) (p : Progress σ) (name : String) (value : Option String) :
    Except Usage (Progress σ) := do
  match level.options.find? (·.name == name), value with
  | some option, some v => (← p.settle).take option v
  | some option, none => return { ← p.settle with pending := some (option, none) }
  | none, some _ =>
    if name = "help" ∨ (level.hasVersion ∧ name = "version") then throw .unwantedValue
    else throw .unknownArgument
  | none, none =>
    if name = "help" then
      let _ ← p.settle
      throw .helpWanted
    else if level.hasVersion ∧ name = "version" then
      let _ ← p.settle
      throw .versionWanted
    else throw .unknownArgument

/-- Short options; the first one decides. -/
def stepShort (level : Level σ) (p : Progress σ) (flags : List Char) :
    Except Usage (Progress σ) := do
  match flags with
  | 'h' :: _ =>
    let _ ← p.settle
    throw .helpWanted
  | 'V' :: _ =>
    if level.hasVersion then
      let _ ← p.settle
      throw .versionWanted
    else throw .unknownArgument
  | _ => throw .unknownArgument

def stepPosition (level : Level σ) (p : Progress σ) (word : String) :
    Except Usage (Progress σ) := do
  match p.positions with
  | position :: others =>
    return { ← p.settle with pending := some (position, some word), positions := others }
  | [] =>
    if level.commands.isEmpty || (p.escaped && (helpCommand :: level.commands).contains word) then
      throw .unknownArgument
    else throw .unknownCommand

/-- A word that is neither a command nor the value of an option before it, unless it is plain. -/
def step (level : Level σ) (p : Progress σ) (word : String) : Except Usage (Progress σ) :=
  if p.escaped then level.stepPosition p word
  else
    match Word.ofString word with
    | .escape => .ok { p with escaped := true }
    | .long name value => level.stepLong p name value
    | .short flags => level.stepShort p flags
    | .plain =>
      match p.awaiting? with
      | some option => .ok { p with pending := some (option, some word) }
      | none => level.stepPosition p word

def isCommand (level : Level σ) (p : Progress σ) (word : String) : Bool :=
  !level.commands.isEmpty && !p.escaped && p.awaiting?.isNone
    && (helpCommand :: level.commands).contains word

/-- Reads words up to a command of the next level. Gives the progress, and that command with the
words after it. -/
def read (level : Level σ) (p : Progress σ) :
    List String → Except Usage (Progress σ × Option (String × List String))
  | [] => .ok (p, none)
  | word :: rest =>
    if level.isCommand p word then .ok (p, some (word, rest))
    else do level.read (← level.step p word) rest

/-- Reads words at a level that no other follows. -/
def readAll (level : Level σ) (draft : σ) (words : List String) : Except Usage σ := do
  let (p, _) ← level.read (.start level draft) words
  return (← p.settle).draft

/-- What asking for help about some words of commands comes to. -/
def explain (level : Level σ) : List String → Usage
  | [] => .helpWanted
  | [name] => if (helpCommand :: level.commands).contains name then .helpWanted else .unknownCommand
  | _ => .unknownCommand

end Level

end Strongbox
