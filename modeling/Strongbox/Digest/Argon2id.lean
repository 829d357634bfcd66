import Strongbox.Digest.Blake2b
import Strongbox.Word

/-!
# Argon2id

A deliberately expensive digest of a secret and a salt: blocks of a large memory are filled one from
two others, at first in an order that does not depend on the secret. One lane; no key and no
associated data.
-/

namespace Strongbox.Argon2id

/-- What a derivation costs: memory in blocks of a kibibyte, and passes over it. -/
structure Cost where
  blocks : Nat
  passes : Nat
  deriving Repr, DecidableEq

/-- Digests of any length, chained from digests of sixty-four bytes. -/
def longDigest (n : Nat) (message : Bytes) : Bytes :=
  let labelled := Bytes.ofNatLE 4 n ++ message
  if n ≤ 64 then Blake2b.digest n labelled
  else chain n (Blake2b.digest 64 labelled) ((n - 33) / 32)
where
  /-- Half of each link is output, and the last link fills what remains. -/
  chain (n : Nat) (link : Bytes) : Nat → Bytes
    | 0 => link.take n
    | 1 => link.take 32 ++ Blake2b.digest (n - 32) link
    | k + 2 => link.take 32 ++ chain (n - 32) (Blake2b.digest 64 link) (k + 1)

/-- A block of memory: one hundred and twenty-eight words. -/
abbrev Block := Array UInt64

def zeroBlock : Block := Array.replicate 128 0

@[inline] def rotate (w : UInt64) (n : UInt64) : UInt64 := (w >>> n) ||| (w <<< (64 - n))

/-- Addition strengthened by a product of the low halves. -/
@[inline] def blend (x y : UInt64) : UInt64 :=
  x + y + 2 * ((x &&& 0xffffffff) * (y &&& 0xffffffff))

/-- Four words. -/
structure Quad where
  a : UInt64
  b : UInt64
  c : UInt64
  d : UInt64

@[inline] def mix (a b c d : UInt64) : Quad :=
  let a := blend a b
  let d := rotate (d ^^^ a) 32
  let c := blend c d
  let b := rotate (b ^^^ c) 24
  let a := blend a b
  let d := rotate (d ^^^ a) 16
  let c := blend c d
  let b := rotate (b ^^^ c) 63
  ⟨a, b, c, d⟩

/-- Where the sixteen words of a row or column lie in a block. -/
structure Line where
  at0 : Nat
  /-- From one pair of words to the next. -/
  stride : Nat

/-- The place of the `i`-th word of a line; words come in pairs. -/
@[inline] def Line.place (l : Line) (i : Nat) : Nat := l.at0 + l.stride * (i / 2) + i % 2

/-- The permutation of one line: its columns, then its diagonals. -/
def permuteLine (b : Block) (l : Line) : Block :=
  let word (i : Nat) : UInt64 := b.getD (l.place i) 0
  let c0 := mix (word 0) (word 4) (word 8) (word 12)
  let c1 := mix (word 1) (word 5) (word 9) (word 13)
  let c2 := mix (word 2) (word 6) (word 10) (word 14)
  let c3 := mix (word 3) (word 7) (word 11) (word 15)
  let d0 := mix c0.a c1.b c2.c c3.d
  let d1 := mix c1.a c2.b c3.c c0.d
  let d2 := mix c2.a c3.b c0.c c1.d
  let d3 := mix c3.a c0.b c1.c c2.d
  let b := ((b.setIfInBounds (l.place 0) d0.a).setIfInBounds (l.place 1) d1.a)
  let b := ((b.setIfInBounds (l.place 2) d2.a).setIfInBounds (l.place 3) d3.a)
  let b := ((b.setIfInBounds (l.place 4) d3.b).setIfInBounds (l.place 5) d0.b)
  let b := ((b.setIfInBounds (l.place 6) d1.b).setIfInBounds (l.place 7) d2.b)
  let b := ((b.setIfInBounds (l.place 8) d2.c).setIfInBounds (l.place 9) d3.c)
  let b := ((b.setIfInBounds (l.place 10) d0.c).setIfInBounds (l.place 11) d1.c)
  let b := ((b.setIfInBounds (l.place 12) d1.d).setIfInBounds (l.place 13) d2.d)
  (b.setIfInBounds (l.place 14) d3.d).setIfInBounds (l.place 15) d0.d

/-- The rows, then the columns. -/
def lines : List Line :=
  (List.range 8).map (fun i => ⟨16 * i, 2⟩) ++ (List.range 8).map (fun i => ⟨2 * i, 16⟩)

def xorBlock (x y : Block) : Block := Array.zipWith (· ^^^ ·) x y

/-- One block from two. -/
def fill (x y : Block) : Block :=
  let r := xorBlock x y
  xorBlock (lines.foldl permuteLine r) r

/-- The position of a block: its pass, its quarter of the memory, and its place there. -/
structure Position where
  pass : Nat
  slice : Nat
  index : Nat

/-- In the first half of the first pass the order of filling does not depend on the secret. -/
def Position.isBlind (p : Position) : Bool := p.pass == 0 && p.slice < 2

/-- The block that a position reads from, chosen by a pseudo-random word. -/
def address (segment : Nat) (p : Position) (word : UInt64) : Nat :=
  let area := (if p.pass = 0 then p.slice * segment else 3 * segment) + p.index - 1
  let x := (word &&& 0xffffffff).toNat
  let near := area * (x * x / Word.count32) / Word.count32
  let start := if p.pass = 0 ∨ p.slice = 3 then 0 else (p.slice + 1) * segment
  (start + (area - 1 - near)) % (4 * segment)

/-- The words that choose addresses blindly, one hundred and twenty-eight at a time. -/
def blindWords (cost : Cost) (p : Position) : Block :=
  let input := #[UInt64.ofNat p.pass, 0, UInt64.ofNat p.slice, UInt64.ofNat cost.blocks,
    UInt64.ofNat cost.passes, 2, UInt64.ofNat (p.index / 128 + 1)] ++ Array.replicate 121 0
  fill zeroBlock (fill zeroBlock input)

/-- The memory while it is filled, with the current words for blind addresses. -/
structure Memory where
  blocks : Array Block
  words : Block

def step (cost : Cost) (segment : Nat) (m : Memory) (p : Position) : Memory :=
  let here := p.slice * segment + p.index
  let before := (here + 4 * segment - 1) % (4 * segment)
  let previous := m.blocks.getD before zeroBlock
  let words :=
    if p.isBlind && (p.index % 128 == 0 || (p.slice == 0 && p.index == 2)) then blindWords cost p
    else m.words
  let word := if p.isBlind then words.getD (p.index % 128) 0 else previous.getD 0 0
  let source := m.blocks.getD (address segment p word) zeroBlock
  let made := fill previous source
  let old := m.blocks.getD here zeroBlock
  let made := if p.pass = 0 then made else xorBlock made old
  ⟨m.blocks.setIfInBounds here made, words⟩

/-- All positions in the order of filling; the first two blocks are given. -/
def positions (cost : Cost) (segment : Nat) : List Position :=
  (List.range cost.passes).flatMap fun pass =>
    (List.range 4).flatMap fun slice =>
      ((List.range segment).drop (if pass = 0 ∧ slice = 0 then 2 else 0)).map fun index =>
        ⟨pass, slice, index⟩

/-- The digest that everything else starts from. -/
def seed (cost : Cost) (n : Nat) (secret salt : Bytes) : Bytes :=
  Blake2b.digest 64 (Bytes.ofNatLE 4 1 ++ Bytes.ofNatLE 4 n ++ Bytes.ofNatLE 4 cost.blocks
    ++ Bytes.ofNatLE 4 cost.passes ++ Bytes.ofNatLE 4 0x13 ++ Bytes.ofNatLE 4 2
    ++ Bytes.ofNatLE 4 secret.length ++ secret ++ Bytes.ofNatLE 4 salt.length ++ salt
    ++ Bytes.ofNatLE 4 0 ++ Bytes.ofNatLE 4 0)

def derive (cost : Cost) (n : Nat) (secret salt : Bytes) : Bytes :=
  let segment := cost.blocks / 4
  let start := seed cost n secret salt
  let first (i : Nat) : Block :=
    (Bytes.words64 (longDigest 1024 (start ++ Bytes.ofNatLE 4 i ++ Bytes.ofNatLE 4 0))).toArray
  let blocks := ((Array.replicate (4 * segment) zeroBlock).setIfInBounds 0 (first 0)).setIfInBounds
    1 (first 1)
  let filled := (positions cost segment).foldl (step cost segment) ⟨blocks, zeroBlock⟩
  longDigest n ((filled.blocks.getD (4 * segment - 1) zeroBlock).toList.flatMap Bytes.ofWord64)

end Strongbox.Argon2id
